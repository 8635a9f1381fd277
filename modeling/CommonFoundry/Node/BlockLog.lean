/-
# `CommonFoundry.Node.BlockLog` — the append-only block log

`encode_record` and `replay_log`.  A record is a fixed header, the canonical
frame of a block and a keyed checksum of both; the log is a sequence of records
and nothing else.

Replay reads one record after the other from the bytes of the file, decodes and
re-encodes its block, and takes it through the same two steps as a block that
arrives from outside: `prepare_block` at the recorded time, and
`commit_prepared`.
-/
import CommonFoundry.Node.BlockIndex

namespace CommonFoundry

open Lib Lib.Outcome

/-- `RECORD_MAGIC`, `b"CMFR"`. -/
def recordMagic : List UInt8 := [0x43, 0x4d, 0x46, 0x52]
def recordVersion : UInt16 := 1
def recordHeaderBytes : Nat := 20
def recordChecksumBytes : Nat := 32
def recordChecksumDomain : String := "CMFD/NODE/BLOCK-RECORD/V1"

/-- One record of the log, read back. -/
structure LogRecord where
  acceptedAt : UInt64
  block : Block
  canonical : List UInt8

/-- `read_exact`: so many bytes from the front, or the error if there are fewer. -/
def readExact (count : Nat) (bytes : List UInt8) (error : NodeError) :
    Outcome NodeError (List UInt8 × List UInt8) := do
  require (count ≤ bytes.length) error
  pure (bytes.take count, bytes.drop count)

section

variable (P : Platform)

def recordChecksum (recordWithoutChecksum : List UInt8) : Bytes32 :=
  P.deriveKey recordChecksumDomain recordWithoutChecksum

/-- The first twenty bytes of a record. -/
def recordHeader (acceptedAt : UInt64) (blockLength : UInt32) : List UInt8 :=
  recordMagic ++ leBytes16 recordVersion ++ leBytes16 0 ++ leBytes64 acceptedAt ++
    leBytes32 blockLength

def encodeRecord (acceptedAt : UInt64) (block : List UInt8) : Outcome NodeError (List UInt8) := do
  require (block.length < 2 ^ 32) (.corruptLog .blockLength)
  require (¬block.length > maxBlockBytes) (.corruptLog .wireLimit)
  let record := recordHeader acceptedAt (UInt32.ofNat block.length) ++ block
  pure (record ++ (recordChecksum P record).1)

/-- The two fields of a record header. -/
def recordAcceptedAt (header : List UInt8) : UInt64 := UInt64.ofNat (ofLe (slice header 8 16))
def recordBlockLength (header : List UInt8) : Nat := ofLe (slice header 16 20)

/-- The header of the next record, checked. -/
def readRecordHeader (recordIndex : Nat) (log : List UInt8) :
    Outcome NodeError (List UInt8 × List UInt8) := do
  let (header, log) ← readExact recordHeaderBytes log (.corruptRecord recordIndex .truncatedHeader)
  require (¬(slice header 0 4 ≠ recordMagic ∨
    UInt16.ofNat (ofLe (slice header 4 6)) ≠ recordVersion ∨ slice header 6 8 ≠ [0, 0]))
    (.corruptRecord recordIndex .invalidHeader)
  require (¬recordBlockLength header > maxBlockBytes) (.corruptRecord recordIndex .wireLimit)
  pure (header, log)

/-- The body of the loop of `replay_log`, up to the decoded block. -/
def readRecord (networkId : Bytes32) (recordIndex : Nat) (log : List UInt8) :
    Outcome NodeError (LogRecord × List UInt8) := do
  let (header, log) ← readRecordHeader recordIndex log
  let (canonical, log) ← readExact (recordBlockLength header) log
    (.corruptRecord recordIndex .truncatedBlock)
  let (checksum, log) ←
    readExact recordChecksumBytes log (.corruptRecord recordIndex .truncatedChecksum)
  require (checksum = (recordChecksum P (header ++ canonical)).1)
    (.corruptRecord recordIndex .checksum)
  let block ← mapErr (fun error => .corruptRecord recordIndex (.decode error))
    (decodeBlock P canonical networkId)
  let reencoded ← mapErr (fun error => .corruptRecord recordIndex (.reencode error))
    (encodeBlock P block)
  require (reencoded = canonical) (.corruptRecord recordIndex .notCanonical)
  pure ({ acceptedAt := recordAcceptedAt header, block, canonical }, log)

/-- The rest of the body: the block goes through fork choice again. -/
def replayRecord (params : NetworkParams) (verifier : ConsensusPowVerifier) (recordIndex : Nat)
    (state : ChainState) (index : BlockIndex) (record : LogRecord) :
    Outcome NodeError (ChainState × BlockIndex) := do
  let prepared ← mapErr (.recordReplay recordIndex)
    (prepareBlock P state index params verifier record.block record.acceptedAt record.canonical)
  let committed := commitPrepared state index prepared
  let _ ← mapErr (.recordRestore recordIndex) committed.result
  pure (committed.state, committed.index)

/-- The loop of `replay_log`, with at most `turns` records to read. -/
def replayLoop (params : NetworkParams) (verifier : ConsensusPowVerifier) :
    Nat → Nat → List UInt8 → ChainState × BlockIndex →
      Outcome NodeError (ChainState × BlockIndex)
  | turns, recordIndex, log, (state, index) =>
      if log.isEmpty then pure (state, index)
      else
        match turns with
        -- a record has at least the bytes of its header: the turns do not run out
        | 0 => .error .panic
        | turns + 1 => do
            let (record, log) ← readRecord P params.networkId recordIndex log
            let replayed ← replayRecord P params verifier recordIndex state index record
            replayLoop params verifier turns (recordIndex + 1) log replayed

def replayLog (params : NetworkParams) (verifier : ConsensusPowVerifier) (log : List UInt8)
    (state : ChainState) (index : BlockIndex) : Outcome NodeError (ChainState × BlockIndex) :=
  replayLoop P params verifier log.length 0 log (state, index)

end

end CommonFoundry
