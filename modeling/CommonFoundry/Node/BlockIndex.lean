/-
# `CommonFoundry.Node.BlockIndex` — the fork index, and a block's way into it

`BlockIndex`, `prepare_block`, `rebuild_state_to` and `commit_prepared` of the
node.  The index keeps every validated block with its parent and its cumulative
work; `activeChain` and `activeWork` describe the branch the node follows.

A block is prepared against the state of its parent: the live state when it
extends the active tip, otherwise the state rebuilt from genesis along the side
branch.  `commitPrepared` is total and returns the state and the index also when
it fails, so that what a failure leaves behind is part of the model.
-/
import CommonFoundry.Consensus.ChainState
import CommonFoundry.Consensus.TransactionLedger

namespace CommonFoundry

open Lib Lib.Outcome

/-! ## Errors -/

/-- The reasons behind `NodeError::CorruptLog` that are not about a log record. -/
inductive LogFault where
  /-- "fork index contains a parent cycle" -/
  | parentCycle
  /-- "fork index contains a missing parent" -/
  | missingParent
  /-- "fork path refers to an absent block" -/
  | absentBlock
  /-- "indexed block cannot decode: {error}" -/
  | indexedDecode (error : WireError)
  /-- "indexed block metadata does not match its canonical frame" -/
  | indexedMetadata
  /-- "indexed side branch fails full consensus replay: {error}" -/
  | sideBranch (error : ChainError)
  /-- "active extension did not increase cumulative work" -/
  | activeExtension
  /-- "block length exceeds u32" -/
  | blockLength
  /-- "block exceeds wire limit" -/
  | wireLimit
  deriving DecidableEq

/-- The reasons behind `NodeError::CorruptLog` that name a record, "record {index} …". -/
inductive RecordFault where
  /-- "has a truncated header" -/
  | truncatedHeader
  /-- "has an invalid header" -/
  | invalidHeader
  /-- "block exceeds the wire limit" -/
  | wireLimit
  /-- "has a truncated block" -/
  | truncatedBlock
  /-- "has a truncated checksum" -/
  | truncatedChecksum
  /-- "checksum mismatch" -/
  | checksum
  /-- "cannot decode: {error}" -/
  | decode (error : WireError)
  /-- "cannot re-encode: {error}" -/
  | reencode (error : WireError)
  /-- "is not canonical" -/
  | notCanonical
  deriving DecidableEq

/-- `NodeError`, as far as blocks, templates and the mempool use it.  The last
three before `chain` are `CorruptLog` as well, for a record that parses but does
not replay ("fails fork replay", "cannot restore fork state"). -/
inductive NodeError where
  | storageFaulted
  | io (operation : String)
  | templateTimeUnavailable
  | invalidMinerDestination
  | duplicateBlock (blockId : Bytes32)
  | unknownParent (parent : Bytes32)
  | duplicateMempoolTransaction (txid : Bytes32)
  | mempoolInputConflict (outpoint : OutPoint)
  | mempoolUnconfirmedInput (outpoint : OutPoint)
  | mempoolTransactionLimit
  | mempoolByteLimit
  | mempoolFeeTooLow (required actual : UInt64)
  | corruptLog (fault : LogFault)
  | corruptRecord (index : Nat) (fault : RecordFault)
  | recordReplay (index : Nat) (error : NodeError)
  | recordRestore (index : Nat) (error : NodeError)
  | chain (error : ChainError)
  | wire (error : WireError)
  | economics (error : EconomicsError)

/-! ## The index -/

structure IndexedBlock where
  parent : Bytes32
  height : UInt64
  acceptedAt : UInt64
  canonical : List UInt8
  cumulativeWork : Nat
  deriving DecidableEq

/-- `activeChain` lists the active block identifiers in height order, virtual
genesis first. -/
structure BlockIndex where
  genesis : Bytes32
  blocks : Finmap fun _ : Bytes32 => IndexedBlock
  activeChain : List Bytes32
  activeWork : Nat
  deriving DecidableEq

namespace BlockIndex

def new (genesis : Bytes32) : BlockIndex :=
  { genesis, blocks := ∅, activeChain := [genesis], activeWork := 0 }

def contains (index : BlockIndex) (blockId : Bytes32) : Bool :=
  decide (blockId = index.genesis) || (index.blocks.lookup blockId).isSome

def workAt (index : BlockIndex) (blockId : Bytes32) : Option Nat :=
  if blockId = index.genesis then some 0
  else (index.blocks.lookup blockId).map (·.cumulativeWork)

/-- The loop of `path_to`: from `cursor` towards genesis, with as many turns left
as there are blocks. -/
def pathLoop (index : BlockIndex) : Nat → Bytes32 → List Bytes32 →
    Outcome NodeError (List Bytes32)
  | turns, cursor, path =>
      if cursor = index.genesis then pure path
      else
        match turns with
        | 0 => fail (.corruptLog .parentCycle)
        | turns + 1 => do
            let entry ← okOr (index.blocks.lookup cursor) (.corruptLog .missingParent)
            pathLoop index turns entry.parent (cursor :: path)

def pathTo (index : BlockIndex) (tip : Bytes32) : Outcome NodeError (List Bytes32) :=
  index.pathLoop index.blocks.keys.card tip []

/-- The first position of a block on the active chain. -/
def activePosition (index : BlockIndex) (blockId : Bytes32) : Option Nat :=
  index.activeChain.findIdx? (· = blockId)

end BlockIndex

/-! ## Rebuilding a branch -/

section

variable (P : Platform)

/-- One indexed block, decoded, compared with its metadata and applied. -/
def replayIndexed (index : BlockIndex) (networkId : Bytes32) (state : ChainState)
    (blockId : Bytes32) : Outcome NodeError ChainState := do
  let entry ← okOr (index.blocks.lookup blockId) (.corruptLog .absentBlock)
  let block ← mapErr (fun error => .corruptLog (.indexedDecode error))
    (decodeBlock P entry.canonical networkId)
  require (¬(block.blockId P ≠ blockId ∨ block.challenge.previousBlock ≠ entry.parent ∨
    block.challenge.height ≠ entry.height)) (.corruptLog .indexedMetadata)
  let (_, state) ← mapErr (fun error => .corruptLog (.sideBranch error))
    (state.validateAndApply P block { nowUnixSeconds := entry.acceptedAt })
  pure state

def rebuildStateTo (index : BlockIndex) (params : NetworkParams) (verifier : ConsensusPowVerifier)
    (tip : Bytes32) : Outcome NodeError ChainState := do
  let state ← mapErr .chain (ChainState.new P params verifier)
  let path ← index.pathTo tip
  path.foldlM (replayIndexed P index params.networkId) state

/-! ## Preparing and committing -/

inductive ValidatedCandidate where
  | active (validated : ValidatedBlock)
  | branch (state : ChainState) (validated : ValidatedBlock)

structure PreparedBlock where
  blockId : Bytes32
  parent : Bytes32
  height : UInt64
  acceptedAt : UInt64
  canonical : List UInt8
  cumulativeWork : Nat
  candidate : ValidatedCandidate

/-- The candidate of `prepare_block`: the live state for a child of the tip, and
the rebuilt side branch for every other block. -/
def prepareCandidate (activeState : ChainState) (index : BlockIndex) (params : NetworkParams)
    (verifier : ConsensusPowVerifier) (block : Block) (context : BlockValidationContext) :
    Outcome NodeError ValidatedCandidate := do
  let parent := block.challenge.previousBlock
  if parent = activeState.tip then
    let validated ← mapErr .chain (activeState.validateBlock P block context)
    pure (.active validated)
  else
    let branchState ← rebuildStateTo P index params verifier parent
    let validated ← mapErr .chain (branchState.validateBlock P block context)
    pure (.branch branchState validated)

def prepareBlock (activeState : ChainState) (index : BlockIndex) (params : NetworkParams)
    (verifier : ConsensusPowVerifier) (block : Block) (acceptedAt : UInt64)
    (canonical : List UInt8) : Outcome NodeError PreparedBlock := do
  let blockId := block.blockId P
  require (¬index.contains blockId) (.duplicateBlock blockId)
  let parent := block.challenge.previousBlock
  let parentWork ← okOr (index.workAt parent) (.unknownParent parent)
  let candidate ← prepareCandidate P activeState index params verifier block
    { nowUnixSeconds := acceptedAt }
  let cumulativeWork ← mapErr (fun error => .chain (.difficulty error))
    (addChainWork parentWork block.challenge.target)
  pure {
    blockId, parent
    height := block.challenge.height
    acceptedAt, canonical, cumulativeWork, candidate }

end

/-- The result of a commit, with the state and the index it leaves. -/
structure Committed where
  result : Outcome NodeError UInt64
  state : ChainState
  index : BlockIndex

/-- `activates`: strictly more work than the active branch. -/
def PreparedBlock.Activates (prepared : PreparedBlock) (index : BlockIndex) : Prop :=
  prepared.cumulativeWork > index.activeWork

instance (prepared : PreparedBlock) (index : BlockIndex) :
    Decidable (prepared.Activates index) := inferInstanceAs (Decidable (_ > _))

def ValidatedCandidate.isActive : ValidatedCandidate → Bool
  | .active _ => true
  | .branch .. => false

/-- The active chain after the commit, when it changes. -/
def nextActiveChain (index : BlockIndex) (prepared : PreparedBlock) :
    Outcome NodeError (Option (List Bytes32)) := do
  require (¬(prepared.candidate.isActive ∧ ¬prepared.Activates index))
    (.corruptLog .activeExtension)
  if prepared.Activates index then
    let path ← index.pathTo prepared.parent
    pure (some (index.genesis :: path ++ [prepared.blockId]))
  else
    pure none

/-- The fees, and the live state after the candidate is committed. -/
def commitCandidate (activeState : ChainState) (index : BlockIndex) (prepared : PreparedBlock) :
    Outcome NodeError (UInt64 × ChainState) :=
  match prepared.candidate with
  | .active validated => mapErr .chain (activeState.commitValidated validated)
  | .branch state validated => do
      let (fees, state) ← mapErr .chain (state.commitValidated validated)
      pure (fees, if prepared.Activates index then state else activeState)

/-- The index with the prepared block in it, and the active chain replaced if it
changes. -/
def BlockIndex.insertPrepared (index : BlockIndex) (prepared : PreparedBlock)
    (activeChain : Option (List Bytes32)) : BlockIndex :=
  let index := { index with
    blocks := index.blocks.insert prepared.blockId {
      parent := prepared.parent
      height := prepared.height
      acceptedAt := prepared.acceptedAt
      canonical := prepared.canonical
      cumulativeWork := prepared.cumulativeWork } }
  match activeChain with
  | some activeChain => { index with activeChain, activeWork := prepared.cumulativeWork }
  | none => index

def commitPrepared (activeState : ChainState) (index : BlockIndex) (prepared : PreparedBlock) :
    Committed :=
  match nextActiveChain index prepared with
  | .error fault => { result := .error fault, state := activeState, index }
  | .ok activeChain =>
      match commitCandidate activeState index prepared with
      | .error fault => { result := .error fault, state := activeState, index }
      | .ok (fees, state) =>
          if (index.blocks.lookup prepared.blockId).isSome then
            { result := fail (.duplicateBlock prepared.blockId), state
              index := index.insertPrepared prepared none }
          else
            { result := .ok fees, state, index := index.insertPrepared prepared activeChain }

end CommonFoundry
