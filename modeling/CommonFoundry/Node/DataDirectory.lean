/-
# `CommonFoundry.Node.DataDirectory` — a node over its data directory

`Node::open` on a directory of three files: the metadata, which binds the directory to a network,
the key of the wallet, and the block log.  Every file operation may fail, a write after any number
of its bytes, and the process may be killed in front of any of them; what has been written stays.

The system is any number of processes, of this build of the program and of others, that open one
directory.  Whatever becomes of them, the nodes that they get all have one key and one network,
and each goes on from what the one before had accepted (`directory_lives`).  A directory of an
older version that has blocks keeps the key that those were mined for (`legacy_wallet_kept`).
-/
import CommonFoundry.Lib.Crash
import CommonFoundry.Node.PeerService
import CommonFoundry.Node.Reopen
import CommonFoundry.Node.Wallet

namespace CommonFoundry

open Lib Lib.Outcome

/-! ## Files -/

inductive DataFile where
  | metadata
  | walletKey
  | log
  deriving DecidableEq

/-- The content of each file; `none` is a file that does not exist. -/
abbrev DataDir := DataFile → Option (List UInt8)

/-- `METADATA_MAGIC`, `b"CMFM"`. -/
def metadataMagic : List UInt8 := [0x43, 0x4d, 0x46, 0x4d]
def metadataVersion : UInt16 := 1
def metadataBytes : Nat := 40
def metadataWalletKeyFlag : UInt16 := 1

inductive MetadataState where
  | missing
  | legacy
  | current
  deriving DecidableEq

/-- The variants of `NodeError` that only a data directory returns. -/
inductive DirError where
  | io (operation : String)
  | invalidMetadata
  | fingerprintMismatch
  | missingMetadata
  | invalidWalletKey
  | node (error : NodeError)

/-- What the operating system answers: whether it works, how much a write that fails leaves in the
file, and what fills a buffer. -/
structure OsAnswer where
  ok : Bool
  written : Nat
  random : Bytes32

abbrev DirProgram (R : Type) := Dialogue DataDir String OsAnswer DirError R

/-! ## Operations on files -/

/-- An operation that may fail, and changes nothing. -/
def request (operation : String) : DirProgram Unit := do
  let answer ← Dialogue.question operation
  liftM (require (answer.ok = true) (DirError.io operation))

def dirCheck (p : Prop) [Decidable p] (error : DirError) : DirProgram Unit :=
  .done (require p error)

/-- The content of a file, if it exists.  While the lock is held nobody else writes to it. -/
def readFile (operation : String) (file : DataFile) : DirProgram (Option (List UInt8)) := do
  request operation
  Dialogue.read fun dir : DataDir => dir file

/-- `create_new(true)`. -/
def createNew (operation : String) (file : DataFile) : DirProgram Unit := do
  request operation
  Dialogue.critical fun dir : DataDir =>
    match dir file with
    | none => (.ok (), Function.update dir file (some []))
    | some _ => (fail (.io operation), dir)

/-- `write_all` at a position of the file, which has no holes. -/
def writeAt (operation : String) (file : DataFile) (offset : Nat) (part : List UInt8) :
    DirProgram Unit := do
  let answer ← Dialogue.question operation
  Dialogue.critical fun dir : DataDir =>
    let written := if answer.ok then part else part.take answer.written
    (require (answer.ok = true) (.io operation), Function.update dir file
      ((dir file).map fun bytes => InterruptedReader.overwrite bytes offset written))

/-! ## The metadata -/

def decodeMetadata (fingerprint : Bytes32) (bytes : List UInt8) :
    Outcome DirError MetadataState := do
  let flags := UInt16.ofNat (ofLe (slice bytes 6 8))
  require (¬(slice bytes 0 4 ≠ metadataMagic ∨
    UInt16.ofNat (ofLe (slice bytes 4 6)) ≠ metadataVersion ∨
    flags &&& ~~~metadataWalletKeyFlag ≠ 0)) .invalidMetadata
  require (slice bytes 8 40 = fingerprint.1) .fingerprintMismatch
  if flags &&& metadataWalletKeyFlag = 0 then pure .legacy else pure .current

def encodeMetadata (fingerprint : Bytes32) : List UInt8 :=
  metadataMagic ++ leBytes16 metadataVersion ++ leBytes16 metadataWalletKeyFlag ++ fingerprint.1

/-- `block_log_is_nonempty`. -/
def blockLogIsNonempty : DirProgram Bool := do
  let log ← readFile "inspect existing block log" .log
  pure (0 < (log.getD []).length)

def loadMetadata (fingerprint : Bytes32) : DirProgram MetadataState := do
  let file ← readFile "open network metadata" .metadata
  match file with
  | some bytes => do
      request "inspect network metadata"
      dirCheck (bytes.length = metadataBytes) .invalidMetadata
      request "read network metadata"
      liftM (decodeMetadata fingerprint bytes)
  | none => do
      let nonempty ← blockLogIsNonempty
      dirCheck (nonempty = false) .missingMetadata
      pure .missing

def writeMetadata (fingerprint : Bytes32) (metadata : MetadataState) : DirProgram Unit :=
  if metadata = .legacy then do
    let file ← readFile "open network metadata for wallet migration" .metadata
    dirCheck (file.isSome = true) (.io "open network metadata for wallet migration")
    request "seek network metadata for wallet migration"
    writeAt "write wallet metadata flag" .metadata 6 (leBytes16 metadataWalletKeyFlag)
    request "sync network metadata"
  else do
    createNew "create network metadata" .metadata
    writeAt "write network metadata" .metadata 0 (encodeMetadata fingerprint)
    request "sync network metadata"

/-! ## The key of the wallet -/

/-- `insecure_dev_wallet_signing_key`. -/
def insecureDevWalletSigningKey : SigningKey := ⟨Bytes.replicate 32 0x13⟩

section

variable (P : Platform)

def defaultMinerDestination : Bytes32 := P.publicKey insecureDevWalletSigningKey

-- `SigningKey::from_bytes(secret)` succeeds
variable (validSecret : Bytes32 → Bool)

def signingKeyFromBytes (bytes : List UInt8) : Outcome DirError SigningKey :=
  if h : bytes.length = 32 then
    if validSecret ⟨bytes, h⟩ then .ok ⟨⟨bytes, h⟩⟩ else fail .invalidWalletKey
  else fail .invalidWalletKey

/-- The loop of `random_wallet_signing_key`, for so many turns: a process that needs more is
killed before it has them. -/
def randomWalletSigningKey : Nat → DirProgram SigningKey
  | 0 => .done (.error .panic)
  | turns + 1 => do
      let answer ← Dialogue.question "generate wallet key"
      liftM (require (answer.ok = true) (DirError.io "generate wallet key"))
      if validSecret answer.random then pure ⟨answer.random⟩ else randomWalletSigningKey turns

def writeWalletKey (key : SigningKey) : DirProgram Unit := do
  createNew "create wallet key" .walletKey
  writeAt "write wallet key" .walletKey 0 key.secret.1
  request "sync wallet key"

def loadOrCreateWalletKey (turns : Nat) (metadata : MetadataState) : DirProgram DevWallet := do
  let file ← readFile "open wallet key" .walletKey
  match file with
  | some bytes => do
      request "inspect wallet key"
      dirCheck (bytes.length = 32) .invalidWalletKey
      let answer ← Dialogue.question "read wallet key"
      dirCheck (answer.ok = true) .invalidWalletKey
      let signingKey ← (liftM (signingKeyFromBytes validSecret bytes) : DirProgram SigningKey)
      pure { signingKey, legacyShared := P.publicKey signingKey = defaultMinerDestination P }
  | none => do
      dirCheck (metadata ≠ .current) .invalidWalletKey
      let legacyShared ← if metadata = .legacy then blockLogIsNonempty else pure false
      let signingKey ←
        if legacyShared then pure insecureDevWalletSigningKey
        else randomWalletSigningKey validSecret turns
      writeWalletKey signingKey
      pure { signingKey, legacyShared }

/-! ## `Node::open` -/

/-- What is compiled into a build of the program. -/
structure Build where
  fingerprint : Bytes32
  params : NetworkParams
  verifier : ConsensusPowVerifier

/-- A node with the fields that its directory gave it. -/
structure OpenNode where
  node : Node
  wallet : DevWallet
  fingerprint : Bytes32

/-- `Node::open`, from the lock on. -/
def openNode (build : Build) (turns : Nat) : DirProgram OpenNode := do
  request "refresh lock file"
  request "write lock file"
  request "sync lock file"
  let metadata ← loadMetadata build.fingerprint
  let wallet ← loadOrCreateWalletKey P validSecret turns metadata
  let log ← readFile "open block log for replay" .log
  request "read block log"
  let node ← (liftM (mapErr DirError.node
    (Node.open P build.params build.verifier (log.getD []))) : DirProgram Node)
  if metadata ≠ .current then writeMetadata build.fingerprint metadata
  request "open block log"
  Dialogue.critical fun dir : DataDir =>
    (.ok (), Function.update dir .log (some ((dir .log).getD [])))
  pure { node, wallet, fingerprint := build.fingerprint }

/-- A call on the node, whose record goes to the end of the log.  A process that is killed in the
middle of the write is one whose write has failed, and that is killed then. -/
def OpenNode.perform (call : NodeCall) (opened : OpenNode) (dir : DataDir) :
    OpenNode × DataDir :=
  let node := call.perform P opened.node
  ({ opened with node }, Function.update dir .log
    ((dir .log).map fun log => log ++ node.log.drop opened.node.log.length))

/-- A process that starts. -/
structure Launch where
  build : Build
  turns : Nat

def directoryBehaviour :
    Behaviour DataDir String OsAnswer DirError OpenNode Launch NodeCall where
  program launch := openNode P validSecret launch.build launch.turns
  perform := OpenNode.perform P

end

/-! ## What an operation keeps -/

section

variable {Inv : DataDir → Prop} {R : Type} {Post : R → DataDir → Prop} {dir : DataDir}
  {operation : String} {file : DataFile}

theorem request_keeps {rest : Unit → DirProgram R} (hinv : Inv dir)
    (hrest : (rest ()).Keeps Inv Post dir) : (request operation >>= rest).Keeps Inv Post dir := by
  have h : (request operation).Keeps Inv (fun _ dir' => dir' = dir) dir :=
    .question_bind hinv fun answer => .lift hinv fun _ _ => rfl
  exact h.bind fun _ dir' heq => heq ▸ hrest

theorem dirCheck_keeps {p : Prop} [Decidable p] {error : DirError} {rest : Unit → DirProgram R}
    (hinv : Inv dir) (hrest : p → (rest ()).Keeps Inv Post dir) :
    (dirCheck p error >>= rest).Keeps Inv Post dir :=
  Dialogue.Keeps.lift_bind hinv fun _ hcheck => hrest (require_eq_ok.mp hcheck)

theorem readFile_keeps {rest : Option (List UInt8) → DirProgram R} (hinv : Inv dir)
    (hrest : (rest (dir file)).Keeps Inv Post dir) :
    (readFile operation file >>= rest).Keeps Inv Post dir := by
  have h : (readFile operation file).Keeps Inv
      (fun content dir' => content = dir file ∧ dir' = dir) dir :=
    request_keeps hinv ⟨hinv, hinv, rfl, rfl⟩
  refine h.bind fun _ _ heq => ?_
  obtain ⟨rfl, rfl⟩ := heq
  exact hrest

theorem blockLogIsNonempty_keeps {rest : Bool → DirProgram R} (hinv : Inv dir)
    (hrest : (rest (decide (0 < ((dir .log).getD []).length))).Keeps Inv Post dir) :
    (blockLogIsNonempty >>= rest).Keeps Inv Post dir := by
  have h : blockLogIsNonempty.Keeps Inv
      (fun nonempty dir' => nonempty = decide (0 < ((dir .log).getD []).length) ∧ dir' = dir)
      dir :=
    readFile_keeps hinv (.pure hinv ⟨rfl, rfl⟩)
  refine h.bind fun _ _ heq => ?_
  obtain ⟨rfl, rfl⟩ := heq
  exact hrest

theorem createNew_keeps {rest : Unit → DirProgram R} (hinv : Inv dir)
    (hcreated : dir file = none → Inv (Function.update dir file (some [])))
    (hrest : dir file = none → (rest ()).Keeps Inv Post (Function.update dir file (some []))) :
    (createNew operation file >>= rest).Keeps Inv Post dir := by
  have h : (createNew operation file).Keeps Inv
      (fun _ dir' => dir file = none ∧ dir' = Function.update dir file (some [])) dir := by
    refine request_keeps hinv (.critical hinv ?_ ?_)
    · split
      · next hnone => exact hcreated hnone
      · exact hinv
    · intro _ hok
      split at hok
      · next hnone => exact ⟨hnone, rfl⟩
      · cases hok
  refine h.bind fun _ _ heq => ?_
  obtain ⟨hnone, rfl⟩ := heq
  exact hrest hnone

/-- A write that fails leaves a part of the bytes. -/
theorem writeAt_keeps {offset : Nat} {part bytes : List UInt8} {rest : Unit → DirProgram R}
    (hbytes : dir file = some bytes) (hinv : Inv dir)
    (hwritten : ∀ count, Inv (Function.update dir file
      (some (InterruptedReader.overwrite bytes offset (part.take count)))))
    (hrest : (rest ()).Keeps Inv Post (Function.update dir file
      (some (InterruptedReader.overwrite bytes offset part)))) :
    (writeAt operation file offset part >>= rest).Keeps Inv Post dir := by
  have hall : Inv (Function.update dir file
      (some (InterruptedReader.overwrite bytes offset part))) := by
    have h := hwritten part.length
    rwa [List.take_length] at h
  have h : (writeAt operation file offset part).Keeps Inv (fun _ dir' =>
      dir' = Function.update dir file (some (InterruptedReader.overwrite bytes offset part)))
      dir := by
    refine .question_bind hinv fun answer => .critical hinv ?_ ?_
    · dsimp only
      rw [hbytes, Option.map_some]
      split
      · exact hall
      · exact hwritten answer.written
    · intro _ hok
      dsimp only
      rw [hbytes, Option.map_some, if_pos (require_eq_ok.mp hok)]
  exact h.bind fun _ dir' heq => heq ▸ hrest

end

/-! ## What `Node::open` does to a directory -/

/-- What `load_metadata` says of a directory. -/
def MetadataState.Of (metadata : MetadataState) (fingerprint : Bytes32) (dir : DataDir) : Prop :=
  match dir .metadata with
  | none => metadata = .missing ∧ ((dir .log).getD []).length = 0
  | some bytes => bytes.length = metadataBytes ∧ decodeMetadata fingerprint bytes = .ok metadata

/-- Every write that a process of this build may make keeps the invariant. -/
structure Writable (Inv : DataDir → Prop) (build : Build) : Prop where
  key : ∀ dir (metadata : MetadataState) (key : SigningKey) count, Inv dir →
    dir .walletKey = none → metadata ≠ .current → metadata.Of build.fingerprint dir →
    (0 < ((dir .log).getD []).length → key = insecureDevWalletSigningKey) →
    Inv (Function.update dir .walletKey (some (key.secret.1.take count)))
  metadata : ∀ dir (metadata : MetadataState) bytes, Inv dir → (dir .walletKey).isSome = true →
    metadata ≠ .current → metadata.Of build.fingerprint dir →
    Inv (Function.update dir .metadata (some bytes))
  log : ∀ dir, Inv dir → dir .log = none → Inv (Function.update dir .log (some []))
  append : ∀ dir log tail, Inv dir → dir .log = some log →
    Inv (Function.update dir .log (some (log ++ tail)))

/-- The wallet is that of the key file, which was there or was made. -/
structure DevWallet.TakenFrom (P : Platform) (validSecret : Bytes32 → Bool) (dir dir' : DataDir)
    (wallet : DevWallet) : Prop where
  valid : validSecret wallet.signingKey.secret = true ∨
    wallet.signingKey = insecureDevWalletSigningKey
  key : dir' .walletKey = some wallet.signingKey.secret.1
  frame : ∀ file, file ≠ .walletKey → dir' file = dir file
  found : (dir .walletKey).isSome = true → dir' = dir ∧
    wallet.legacyShared = decide (P.publicKey wallet.signingKey = defaultMinerDestination P)
  made : dir .walletKey = none →
    wallet.legacyShared = decide (0 < ((dir .log).getD []).length) ∧
      (wallet.legacyShared = true → wallet.signingKey = insecureDevWalletSigningKey)

/-- What `open` makes of a directory. -/
structure OpenNode.From (P : Platform) (validSecret : Bytes32 → Bool) (build : Build)
    (dir dir' : DataDir) (opened : OpenNode) : Prop where
  wallet : ∃ dir₁, opened.wallet.TakenFrom P validSecret dir dir₁ ∧
    dir' .walletKey = dir₁ .walletKey
  metadata : ∃ bytes, dir' .metadata = some bytes ∧ bytes.length = metadataBytes ∧
    decodeMetadata build.fingerprint bytes = .ok .current
  fingerprint : opened.fingerprint = build.fingerprint
  log : dir' .log = some opened.node.log ∧ opened.node.log = (dir .log).getD []
  node : Node.open P build.params build.verifier opened.node.log = .ok opened.node

/-! ### The metadata -/

theorem length_encodeMetadata (fingerprint : Bytes32) :
    (encodeMetadata fingerprint).length = metadataBytes := by
  simp only [encodeMetadata, List.length_append, length_leBytes16, fingerprint.2]
  rfl

theorem decodeMetadata_parts (fingerprint : Bytes32) (magic : Bytes 4) (version flags : Bytes 2)
    (network : Bytes32) :
    decodeMetadata fingerprint (magic.1 ++ (version.1 ++ (flags.1 ++ (network.1 ++ [])))) = (do
      let word := UInt16.ofNat (ofLe flags.1)
      require (¬(magic.1 ≠ metadataMagic ∨ UInt16.ofNat (ofLe version.1) ≠ metadataVersion ∨
        word &&& ~~~metadataWalletKeyFlag ≠ 0)) .invalidMetadata
      require (network.1 = fingerprint.1) .fingerprintMismatch
      if word &&& metadataWalletKeyFlag = 0 then pure .legacy else pure .current) := by
  have h0 : slice (magic.1 ++ (version.1 ++ (flags.1 ++ (network.1 ++ [])))) 0 4 = magic.1 :=
    slice_append List.length_nil (by rw [magic.2])
  have h4 : slice (magic.1 ++ (version.1 ++ (flags.1 ++ (network.1 ++ [])))) 4 6 = version.1 :=
    slice_append magic.2 (by rw [version.2])
  have h6 : slice (magic.1 ++ (version.1 ++ (flags.1 ++ (network.1 ++ [])))) 6 8 = flags.1 := by
    rw [← List.append_assoc]
    exact slice_append (by rw [List.length_append, magic.2, version.2]) (by rw [flags.2])
  have h8 : slice (magic.1 ++ (version.1 ++ (flags.1 ++ (network.1 ++ [])))) 8 40 = network.1 := by
    rw [← List.append_assoc, ← List.append_assoc]
    exact slice_append (by simp only [List.length_append, magic.2, version.2, flags.2])
      (by rw [network.2])
  rw [decodeMetadata, h0, h4, h6, h8]

theorem exists_metadata_parts {bytes : List UInt8} (h : bytes.length = metadataBytes) :
    ∃ (magic : Bytes 4) (version flags : Bytes 2) (network : Bytes32),
      bytes = magic.1 ++ (version.1 ++ (flags.1 ++ (network.1 ++ []))) := by
  have hbytes : bytes.length = 40 := h
  obtain ⟨magic, rest, rfl, hrest⟩ := exists_array_append bytes 4 (by omega)
  obtain ⟨version, rest, rfl, hrest⟩ := exists_array_append rest 2 (by omega)
  obtain ⟨flags, rest, rfl, hrest⟩ := exists_array_append rest 2 (by omega)
  obtain ⟨network, rest, rfl, hrest⟩ := exists_array_append rest 32 (by omega)
  obtain rfl : rest = [] := List.length_eq_zero_iff.mp (by omega)
  exact ⟨magic, version, flags, network, rfl⟩

theorem decodeMetadata_encodeMetadata (fingerprint : Bytes32) :
    decodeMetadata fingerprint (encodeMetadata fingerprint) = .ok .current := by
  have h := decodeMetadata_parts fingerprint ⟨metadataMagic, rfl⟩
    ⟨leBytes16 metadataVersion, length_leBytes16 _⟩
    ⟨leBytes16 metadataWalletKeyFlag, length_leBytes16 _⟩ fingerprint
  rw [encodeMetadata]
  simp only [List.append_assoc, List.append_nil] at h ⊢
  rw [h]
  simp only [require_eq_ok, bind_eq_ok]
  exact ⟨(), by decide, (), trivial, rfl⟩

/-- The flag turns the metadata of an older version into those of this one. -/
theorem decodeMetadata_flagged {fingerprint : Bytes32} {bytes : List UInt8}
    (hlength : bytes.length = metadataBytes)
    (h : decodeMetadata fingerprint bytes = .ok .legacy) :
    (InterruptedReader.overwrite bytes 6 (leBytes16 metadataWalletKeyFlag)).length =
        metadataBytes ∧
      decodeMetadata fingerprint
        (InterruptedReader.overwrite bytes 6 (leBytes16 metadataWalletKeyFlag)) =
        .ok .current := by
  have hfits : 6 + (leBytes16 metadataWalletKeyFlag).length ≤ bytes.length := by
    rw [hlength]
    decide
  refine ⟨(InterruptedReader.length_overwrite hfits).trans hlength, ?_⟩
  obtain ⟨magic, version, flags, network, rfl⟩ := exists_metadata_parts hlength
  have hflagged : InterruptedReader.overwrite
      (magic.1 ++ (version.1 ++ (flags.1 ++ (network.1 ++ [])))) 6
      (leBytes16 metadataWalletKeyFlag) = magic.1 ++ (version.1 ++
        ((⟨leBytes16 metadataWalletKeyFlag, length_leBytes16 _⟩ : Bytes 2).1 ++
          (network.1 ++ []))) := by
    have hfront : (magic.1 ++ version.1).length = 6 := by
      rw [List.length_append, magic.2, version.2]
    have hback : (magic.1 ++ version.1 ++ flags.1).length =
        6 + (leBytes16 metadataWalletKeyFlag).length := by
      rw [List.length_append, hfront, flags.2]
      rfl
    rw [InterruptedReader.overwrite, ← List.append_assoc magic.1, List.take_left' hfront,
      ← List.append_assoc _ flags.1, List.drop_left' hback, List.append_assoc, List.append_assoc]
  rw [hflagged, decodeMetadata_parts]
  rw [decodeMetadata_parts] at h
  simp only [bind_eq_ok, require_eq_ok] at h ⊢
  obtain ⟨_, hfields, _, hnetwork, -⟩ := h
  rw [not_or, not_or] at hfields
  refine ⟨(), ?_, (), hnetwork, rfl⟩
  rw [not_or, not_or]
  exact ⟨hfields.1, hfields.2.1, by decide⟩

section

variable {Inv : DataDir → Prop} {R : Type} {Post : R → DataDir → Prop} {dir : DataDir}
  {build : Build} {metadata : MetadataState}

theorem loadMetadata_keeps {rest : MetadataState → DirProgram R} {fingerprint : Bytes32}
    (hinv : Inv dir)
    (hrest : ∀ metadata, metadata.Of fingerprint dir → (rest metadata).Keeps Inv Post dir) :
    (loadMetadata fingerprint >>= rest).Keeps Inv Post dir := by
  have h : (loadMetadata fingerprint).Keeps Inv
      (fun metadata dir' => metadata.Of fingerprint dir ∧ dir' = dir) dir := by
    refine readFile_keeps hinv ?_
    cases hfile : dir .metadata with
    | none =>
        refine blockLogIsNonempty_keeps hinv (dirCheck_keeps hinv fun hempty => ?_)
        refine .pure hinv ⟨?_, rfl⟩
        rw [MetadataState.Of, hfile]
        exact ⟨rfl, by simpa using hempty⟩
    | some bytes =>
        refine request_keeps hinv (dirCheck_keeps hinv fun hlength => request_keeps hinv ?_)
        refine .lift hinv fun metadata hmetadata => ⟨?_, rfl⟩
        rw [MetadataState.Of, hfile]
        exact ⟨hlength, hmetadata⟩
  refine h.bind fun metadata _ heq => ?_
  obtain ⟨hof, rfl⟩ := heq
  exact hrest metadata hof

theorem decodeMetadata_ne_missing {fingerprint : Bytes32} {bytes : List UInt8} :
    decodeMetadata fingerprint bytes ≠ .ok .missing := by
  intro h
  simp only [decodeMetadata, bind_eq_ok, require_eq_ok] at h
  obtain ⟨_, _, _, _, h⟩ := h
  split at h <;> cases h

/-- The metadata are those of one network and one version. -/
theorem decodeMetadata_unique {fingerprint fingerprint' : Bytes32} {bytes : List UInt8}
    {metadata' : MetadataState} (h : decodeMetadata fingerprint bytes = .ok metadata)
    (h' : decodeMetadata fingerprint' bytes = .ok metadata') :
    metadata = metadata' ∧ fingerprint = fingerprint' := by
  simp only [decodeMetadata, bind_eq_ok, require_eq_ok] at h h'
  obtain ⟨_, _, _, hnetwork, h⟩ := h
  obtain ⟨_, _, _, hnetwork', h'⟩ := h'
  exact ⟨Except.ok.inj (h.symm.trans h'), Subtype.ext (hnetwork.symm.trans hnetwork')⟩

/-- Where the metadata are missing there are no blocks. -/
theorem MetadataState.Of.empty {fingerprint : Bytes32}
    (h : MetadataState.missing.Of fingerprint dir) : ((dir .log).getD []).length = 0 := by
  rw [MetadataState.Of] at h
  split at h
  · exact h.2
  · exact absurd h.2 decodeMetadata_ne_missing

/-! ### The key of the wallet -/

theorem overwrite_nil (part : List UInt8) : InterruptedReader.overwrite [] 0 part = part := by
  rw [InterruptedReader.overwrite, List.take_nil, List.drop_nil, List.nil_append, List.append_nil]

/-- A new file is made, and then filled. -/
theorem writeNew_keeps {create write sync : String} {file : DataFile} {bytes : List UInt8}
    {rest : Unit → DirProgram R} (hinv : Inv dir)
    (hwritten : dir file = none →
      ∀ count, Inv (Function.update dir file (some (bytes.take count))))
    (hrest : dir file = none →
      (rest ()).Keeps Inv Post (Function.update dir file (some bytes))) :
    ((do
      createNew create file
      writeAt write file 0 bytes
      request sync) >>= rest).Keeps Inv Post dir := by
  have h : (do
      createNew create file
      writeAt write file 0 bytes
      request sync : DirProgram Unit).Keeps Inv (fun _ dir' => dir file = none ∧
        dir' = Function.update dir file (some bytes)) dir := by
    refine createNew_keeps hinv (fun hnone => ?_) (fun hnone => ?_)
    · exact hwritten hnone 0
    · refine writeAt_keeps (Function.update_self ..) (hwritten hnone 0) (fun count => ?_) ?_
      · rw [Function.update_idem, overwrite_nil]
        exact hwritten hnone count
      · rw [Function.update_idem, overwrite_nil]
        have hall := hwritten hnone bytes.length
        rw [List.take_length] at hall
        exact .question_bind hall fun answer => .lift hall fun _ _ => ⟨hnone, rfl⟩
  refine h.bind fun _ _ heq => ?_
  obtain ⟨hnone, rfl⟩ := heq
  exact hrest hnone

theorem randomWalletSigningKey_keeps {validSecret : Bytes32 → Bool} {turns : Nat}
    {rest : SigningKey → DirProgram R} (hinv : Inv dir)
    (hrest : ∀ key, validSecret key.secret = true → (rest key).Keeps Inv Post dir) :
    (randomWalletSigningKey validSecret turns >>= rest).Keeps Inv Post dir := by
  have h : (randomWalletSigningKey validSecret turns).Keeps Inv
      (fun key dir' => validSecret key.secret = true ∧ dir' = dir) dir := by
    induction turns with
    | zero => exact hinv
    | succ turns ih =>
        refine .question_bind hinv fun answer => .lift_bind hinv fun _ _ => ?_
        split
        · next hvalid => exact .pure hinv ⟨hvalid, rfl⟩
        · exact ih
  exact h.bind fun key _ heq => heq.2 ▸ hrest key heq.1

theorem signingKeyFromBytes_eq_ok {validSecret : Bytes32 → Bool} {bytes : List UInt8}
    {key : SigningKey} : signingKeyFromBytes validSecret bytes = .ok key ↔
      validSecret key.secret = true ∧ bytes = key.secret.1 := by
  rw [signingKeyFromBytes]
  constructor
  · intro h
    split at h
    · split at h
      · next hvalid =>
          obtain rfl := Except.ok.inj h
          exact ⟨hvalid, rfl⟩
      · cases h
    · cases h
  · rintro ⟨hvalid, rfl⟩
    rw [dif_pos key.secret.2, if_pos hvalid]

theorem loadOrCreateWalletKey_keeps {P : Platform} {validSecret : Bytes32 → Bool} {turns : Nat}
    {rest : DevWallet → DirProgram R} (hwritable : Writable Inv build) (hinv : Inv dir)
    (hof : metadata.Of build.fingerprint dir)
    (hrest : ∀ wallet dir', Inv dir' → wallet.TakenFrom P validSecret dir dir' →
      (rest wallet).Keeps Inv Post dir') :
    (loadOrCreateWalletKey P validSecret turns metadata >>= rest).Keeps Inv Post dir := by
  have h : (loadOrCreateWalletKey P validSecret turns metadata).Keeps Inv
      (fun wallet dir' => Inv dir' ∧ wallet.TakenFrom P validSecret dir dir') dir := by
    refine readFile_keeps hinv ?_
    cases hfile : dir .walletKey with
    | some bytes =>
        refine request_keeps hinv (dirCheck_keeps hinv fun hlength => ?_)
        refine .question_bind hinv fun answer => dirCheck_keeps hinv fun _ => ?_
        refine .lift_bind hinv fun key hkey => ?_
        obtain ⟨hvalid, rfl⟩ := signingKeyFromBytes_eq_ok.mp hkey
        refine .pure hinv ⟨hinv, .inl hvalid, hfile, ?_, ?_, ?_⟩
        · exact fun _ _ => rfl
        · exact fun _ => ⟨rfl, rfl⟩
        · intro hnone
          rw [hfile] at hnone
          cases hnone
    | none =>
        refine dirCheck_keeps hinv fun hcurrent => ?_
        -- the key is known before the file is made
        have hwrite : ∀ (key : SigningKey) (legacyShared : Bool),
            (validSecret key.secret = true ∨ key = insecureDevWalletSigningKey) →
            legacyShared = decide (0 < ((dir .log).getD []).length) →
            (legacyShared = true → key = insecureDevWalletSigningKey) →
            (writeWalletKey key >>= fun _ => (pure { signingKey := key, legacyShared } :
              DirProgram DevWallet)).Keeps Inv
              (fun wallet dir' => Inv dir' ∧ wallet.TakenFrom P validSecret dir dir') dir := by
          intro key legacyShared hvalid hshared hdev
          have hwritten : ∀ count,
              Inv (Function.update dir .walletKey (some (key.secret.1.take count))) := by
            intro count
            refine hwritable.key dir metadata key count hinv hfile hcurrent hof fun hlog => hdev ?_
            rw [hshared, decide_eq_true hlog]
          refine writeNew_keeps hinv (fun _ => hwritten) fun _ => ?_
          have hafter := hwritten key.secret.1.length
          rw [List.take_length] at hafter
          refine .pure hafter ⟨hafter, hvalid, ?_, ?_, ?_, ?_⟩
          · exact Function.update_self ..
          · exact fun file hne => Function.update_of_ne hne ..
          · intro hsome
            rw [hfile] at hsome
            cases hsome
          · exact fun _ => ⟨hshared, hdev⟩
        have hfresh : ∀ legacyShared : Bool,
            legacyShared = decide (0 < ((dir .log).getD []).length) →
            (do
              let signingKey ←
                if legacyShared then pure insecureDevWalletSigningKey
                else randomWalletSigningKey validSecret turns
              writeWalletKey signingKey
              pure { signingKey, legacyShared } : DirProgram DevWallet).Keeps Inv
              (fun wallet dir' => Inv dir' ∧ wallet.TakenFrom P validSecret dir dir') dir := by
          intro legacyShared hshared
          cases legacyShared with
          | true => exact hwrite _ true (.inr rfl) hshared fun _ => rfl
          | false =>
              refine randomWalletSigningKey_keeps hinv fun key hvalid => ?_
              exact hwrite key false (.inl hvalid) hshared (nomatch ·)
        cases metadata with
        | missing =>
            refine hfresh false ?_
            rw [hof.empty]
            rfl
        | legacy => exact blockLogIsNonempty_keeps hinv (hfresh _ rfl)
        | current => exact absurd rfl hcurrent
  refine h.bind fun wallet dir' hwallet => ?_
  exact hrest wallet dir' hwallet.1 hwallet.2

/-! ### `Node::open` -/

theorem writeMetadata_keeps {rest : Unit → DirProgram R} (hwritable : Writable Inv build)
    (hinv : Inv dir) (hkey : (dir .walletKey).isSome = true)
    (hof : metadata.Of build.fingerprint dir) (hcurrent : metadata ≠ .current)
    (hrest : ∀ bytes, bytes.length = metadataBytes →
      decodeMetadata build.fingerprint bytes = .ok .current →
      (rest ()).Keeps Inv Post (Function.update dir .metadata (some bytes))) :
    (writeMetadata build.fingerprint metadata >>= rest).Keeps Inv Post dir := by
  have hwritten : ∀ bytes, Inv (Function.update dir .metadata (some bytes)) :=
    fun bytes => hwritable.metadata dir metadata bytes hinv hkey hcurrent hof
  by_cases hlegacy : metadata = .legacy
  · have h : (writeMetadata build.fingerprint metadata).Keeps Inv (fun _ dir' =>
        ∃ bytes, bytes.length = metadataBytes ∧
          decodeMetadata build.fingerprint bytes = .ok .current ∧
          dir' = Function.update dir .metadata (some bytes)) dir := by
      rw [writeMetadata, if_pos hlegacy]
      refine readFile_keeps hinv (dirCheck_keeps hinv fun hsome => request_keeps hinv ?_)
      obtain ⟨bytes, hbytes⟩ := Option.isSome_iff_exists.mp hsome
      rw [MetadataState.Of, hbytes, hlegacy] at hof
      obtain ⟨hlength, hdecode⟩ := decodeMetadata_flagged hof.1 hof.2
      refine writeAt_keeps hbytes hinv (fun _ => hwritten _) ?_
      exact .question_bind (hwritten _) fun _ => .lift (hwritten _) fun _ _ =>
        ⟨_, hlength, hdecode, rfl⟩
    refine h.bind fun _ _ heq => ?_
    obtain ⟨bytes, hlength, hdecode, rfl⟩ := heq
    exact hrest bytes hlength hdecode
  · rw [writeMetadata, if_neg hlegacy]
    refine writeNew_keeps hinv (fun _ _ => hwritten _) fun _ => ?_
    exact hrest _ (length_encodeMetadata _) (decodeMetadata_encodeMetadata _)

/-- What every program of a build keeps, and what it makes of the directory. -/
theorem openNode_keeps {P : Platform} {validSecret : Bytes32 → Bool} {turns : Nat}
    {Post : OpenNode → DataDir → Prop} (hwritable : Writable Inv build) (hinv : Inv dir)
    (hpost : ∀ opened dir', Inv dir' → opened.From P validSecret build dir dir' →
      Post opened dir') :
    (openNode P validSecret build turns).Keeps Inv Post dir := by
  refine request_keeps hinv (request_keeps hinv (request_keeps hinv ?_))
  refine loadMetadata_keeps hinv fun metadata hof => ?_
  refine loadOrCreateWalletKey_keeps hwritable hinv hof fun wallet dir₁ hinv₁ htaken => ?_
  have hlog₁ : dir₁ .log = dir .log := htaken.frame .log (by decide)
  have hmetadata₁ : dir₁ .metadata = dir .metadata := htaken.frame .metadata (by decide)
  have hof₁ : metadata.Of build.fingerprint dir₁ := by
    rw [MetadataState.Of, hlog₁, hmetadata₁]
    exact hof
  refine readFile_keeps hinv₁ (request_keeps hinv₁ (.lift_bind hinv₁ fun node hnode => ?_))
  rw [mapErr_eq_ok, hlog₁] at hnode
  have hnodeLog : node.log = (dir .log).getD [] := by
    obtain ⟨_, _, -, -, rfl⟩ := open_eq_ok.mp hnode
    rfl
  -- the end, when the metadata are in place
  have hend : ∀ dir₂, Inv dir₂ → dir₂ .log = dir .log → dir₂ .walletKey = dir₁ .walletKey →
      (∃ bytes, dir₂ .metadata = some bytes ∧ bytes.length = metadataBytes ∧
        decodeMetadata build.fingerprint bytes = .ok .current) →
      (do
        request "open block log"
        Dialogue.critical fun dir : DataDir =>
          (.ok (), Function.update dir .log (some ((dir .log).getD [])))
        pure { node, wallet, fingerprint := build.fingerprint } : DirProgram OpenNode).Keeps Inv
        Post dir₂ := by
    intro dir₂ hinv₂ hlog₂ hkey₂ hmetadata₂
    have hinv₃ : Inv (Function.update dir₂ .log (some ((dir₂ .log).getD []))) := by
      cases hlog : dir₂ .log with
      | none => exact hwritable.log dir₂ hinv₂ hlog
      | some log =>
          rw [Option.getD_some, ← hlog, Function.update_eq_self]
          exact hinv₂
    have hframe : ∀ file, file ≠ .log →
        Function.update dir₂ .log (some ((dir₂ .log).getD [])) file = dir₂ file :=
      fun file hne => Function.update_of_ne hne ..
    have hfrom : OpenNode.From P validSecret build dir
        (Function.update dir₂ .log (some ((dir₂ .log).getD [])))
        { node, wallet, fingerprint := build.fingerprint } := by
      refine ⟨⟨dir₁, htaken, ?_⟩, ?_, rfl, ⟨?_, hnodeLog⟩, ?_⟩
      · rw [hframe .walletKey (by decide), hkey₂]
      · rw [hframe .metadata (by decide)]
        exact hmetadata₂
      · rw [Function.update_self, hlog₂, ← hnodeLog]
      · rw [hnodeLog]
        exact hnode
    exact request_keeps hinv₂ ⟨hinv₂, hinv₃, hpost _ _ hinv₃ hfrom⟩
  by_cases hcase : metadata ≠ .current
  · rw [if_pos hcase]
    have hkey₁ : (dir₁ .walletKey).isSome = true := by
      rw [htaken.key]
      rfl
    refine writeMetadata_keeps hwritable hinv₁ hkey₁ hof₁ hcase fun bytes hlength hdecode => ?_
    refine hend _ ?_ ?_ ?_ ⟨bytes, Function.update_self .., hlength, hdecode⟩
    · exact hwritable.metadata dir₁ metadata bytes hinv₁ hkey₁ hcase hof₁
    · exact (Function.update_of_ne (by decide) ..).trans hlog₁
    · exact Function.update_of_ne (by decide) ..
  · rw [if_neg hcase]
    refine hend dir₁ hinv₁ hlog₁ rfl ?_
    rw [not_not] at hcase
    rw [MetadataState.Of, hcase] at hof₁
    split at hof₁
    · cases hof₁.1
    · next bytes hbytes => exact ⟨bytes, hbytes, hof₁⟩

end

/-! ## A node and its directory -/

/-- The files are those of the node. -/
structure OpenNode.Stored (P : Platform) (validSecret : Bytes32 → Bool) (opened : OpenNode)
    (dir : DataDir) : Prop where
  valid : validSecret opened.wallet.signingKey.secret = true ∨
    opened.wallet.signingKey = insecureDevWalletSigningKey
  key : dir .walletKey = some opened.wallet.signingKey.secret.1
  metadata : ∃ bytes, dir .metadata = some bytes ∧ bytes.length = metadataBytes ∧
    decodeMetadata opened.fingerprint bytes = .ok .current
  log : dir .log = some opened.node.log
  run : ∃ accepted, NodeRun P opened.node.params opened.node.verifier accepted opened.node
  shared : opened.wallet.legacyShared = true →
    P.publicKey opened.wallet.signingKey = defaultMinerDestination P

section

variable {P : Platform} {validSecret : Bytes32 → Bool} {build : Build} {dir dir' : DataDir}
  {opened : OpenNode}

theorem OpenNode.From.stored (h : opened.From P validSecret build dir dir') :
    opened.Stored P validSecret dir' := by
  obtain ⟨_, _, -, -, hnode⟩ := open_eq_ok.mp h.node
  have hparams : opened.node.params = build.params := congrArg Node.params hnode
  have hverifier : opened.node.verifier = build.verifier := congrArg Node.verifier hnode
  obtain ⟨dir₁, htaken, hkey⟩ := h.wallet
  refine ⟨htaken.valid, hkey.trans htaken.key, ?_, h.log.1, ?_, ?_⟩
  · rw [h.fingerprint]
    exact h.metadata
  · rw [hparams, hverifier]
    obtain ⟨accepted, -, hrun⟩ := NodeRun.of_open h.node
    exact ⟨accepted, hrun⟩
  · intro hshared
    cases hfile : dir .walletKey with
    | none =>
        rw [(htaken.made hfile).2 hshared]
        rfl
    | some bytes =>
        have hfound := (htaken.found (by rw [hfile]; rfl)).2
        rw [hshared] at hfound
        exact of_decide_eq_true hfound.symm

/-- A call puts something at the end of the log, or nothing. -/
theorem NodeRun.log_perform {params : NetworkParams} {verifier : ConsensusPowVerifier}
    {accepted : List Acceptance} {node : Node} (h : NodeRun P params verifier accepted node)
    (call : NodeCall) : ∃ tail, (call.perform P node).log = node.log ++ tail := by
  cases call with
  | submitBlock append block acceptedAt =>
      cases hsubmit : node.submitBlock P append block acceptedAt with
      | mk result after =>
          have hperform : (NodeCall.submitBlock append block acceptedAt).perform P node = after :=
            congrArg Prod.snd hsubmit
          rw [hperform]
          cases result with
          | ok fees =>
              obtain ⟨_, record, haccepts⟩ :=
                submitBlock_accepted (a := ⟨block, acceptedAt⟩) h.consistent hsubmit
              exact ⟨record, congrArg Node.log haccepts.unchanged⟩
          | error fault =>
              rcases submitBlock_refused (a := ⟨block, acceptedAt⟩) h.consistent hsubmit with
                rfl | ⟨tail, rfl⟩
              · exact ⟨[], (List.append_nil _).symm⟩
              · exact ⟨tail, rfl⟩
  | submitTransaction transaction =>
      have hsubmit : node.submitTransaction P transaction = ((node.submitTransaction P transaction).1,
        (node.submitTransaction P transaction).2) := rfl
      have hsame := congrArg Node.log (submitTransaction_unchanged hsubmit)
      exact ⟨[], hsame.trans (List.append_nil _).symm⟩

/-- A call leaves the node over its files, whose log has grown. -/
theorem OpenNode.Stored.perform (h : opened.Stored P validSecret dir) (call : NodeCall) :
    (opened.perform P call dir).1.Stored P validSecret (opened.perform P call dir).2 ∧
      ∃ tail, (opened.perform P call dir).2 =
        Function.update dir .log (some (opened.node.log ++ tail)) := by
  obtain ⟨accepted, hrun⟩ := h.run
  obtain ⟨tail, htail⟩ := hrun.log_perform call
  obtain ⟨more, hmore⟩ := hrun.perform call
  have hdir : (opened.perform P call dir).2 =
      Function.update dir .log (some (opened.node.log ++ tail)) := by
    show Function.update dir .log ((dir .log).map fun log => log ++
      ((call.perform P opened.node).log.drop opened.node.log.length)) = _
    rw [htail, List.drop_left, h.log, Option.map_some]
  refine ⟨?_, tail, hdir⟩
  rw [hdir]
  have hconstant := hmore.consistent.constant
  refine ⟨h.valid, ?_, ?_, ?_, ?_, h.shared⟩
  · exact (Function.update_of_ne (by decide) ..).trans h.key
  · obtain ⟨bytes, hbytes, hcurrent⟩ := h.metadata
    exact ⟨bytes, (Function.update_of_ne (by decide) ..).trans hbytes, hcurrent⟩
  · rw [Function.update_self]
    exact congrArg some htail.symm
  · refine ⟨accepted ++ more, ?_⟩
    show NodeRun P (call.perform P opened.node).params (call.perform P opened.node).verifier _ _
    rw [hconstant.1, hconstant.2]
    exact hmore

end

/-! ## On a system that works -/

def workingOs (random : Bytes32) : String → Unit → OsAnswer × Unit :=
  fun _ _ => ({ ok := true, written := 0, random }, ())

/-- Alone, with every operation working, the program succeeds. -/
def Does {R : Type} (random : Bytes32) (program : DirProgram R) (dir : DataDir) (r : R)
    (dir' : DataDir) : Prop :=
  program.play (workingOs random) dir () = (.ok r, dir', ())

section

variable {R R' : Type} {random : Bytes32} {program : DirProgram R} {rest : R → DirProgram R'}
  {dir dir' dir'' : DataDir} {r : R} {r' : R'} {operation : String} {file : DataFile}

theorem Does.bind (h : Does random program dir r dir')
    (hrest : Does random (rest r) dir' r' dir'') :
    Does random (program >>= rest) dir r' dir'' := by
  rw [Does, Dialogue.play_bind, h]
  exact hrest

theorem request_does : Does random (request operation) dir () dir := rfl

theorem dirCheck_does {p : Prop} [Decidable p] {error : DirError} (h : p) :
    Does random (dirCheck p error) dir () dir := by
  rw [Does, dirCheck, require_pos h]
  rfl

theorem lift_does {result : Outcome DirError R} (h : result = .ok r) :
    Does random (liftM result) dir r dir := by
  rw [h]
  rfl

theorem readFile_does : Does random (readFile operation file) dir (dir file) dir := rfl

theorem blockLogIsNonempty_does :
    Does random blockLogIsNonempty dir (decide (0 < ((dir .log).getD []).length)) dir := rfl

theorem createNew_does (h : dir file = none) :
    Does random (createNew operation file) dir () (Function.update dir file (some [])) := by
  refine request_does.bind ?_
  simp only [Does, Dialogue.critical, Dialogue.play, h]

theorem writeAt_does {offset : Nat} {part bytes : List UInt8} (h : dir file = some bytes) :
    Does random (writeAt operation file offset part) dir () (Function.update dir file
      (some (InterruptedReader.overwrite bytes offset part))) := by
  show (_, Function.update dir file ((dir file).map fun bytes =>
    InterruptedReader.overwrite bytes offset part), ()) = _
  rw [h]
  rfl

theorem writeNew_does {create write sync : String} {bytes : List UInt8} (h : dir file = none) :
    Does random (do
      createNew create file
      writeAt write file 0 bytes
      request sync) dir () (Function.update dir file (some bytes)) := by
  have hwrite : Does random (writeAt write file 0 bytes) (Function.update dir file (some [])) ()
      (Function.update (Function.update dir file (some [])) file
        (some (InterruptedReader.overwrite [] 0 bytes))) := writeAt_does (Function.update_self ..)
  rw [Function.update_idem, overwrite_nil] at hwrite
  exact (createNew_does h).bind (hwrite.bind request_does)

theorem loadMetadata_does {fingerprint : Bytes32} {metadata : MetadataState}
    (hof : metadata.Of fingerprint dir) :
    Does random (loadMetadata fingerprint) dir metadata dir := by
  refine readFile_does.bind ?_
  cases hfile : dir .metadata with
  | none =>
      rw [MetadataState.Of, hfile] at hof
      obtain ⟨rfl, hempty⟩ := hof
      refine blockLogIsNonempty_does.bind ((dirCheck_does ?_).bind rfl)
      rw [hempty]
      rfl
  | some bytes =>
      rw [MetadataState.Of, hfile] at hof
      exact request_does.bind ((dirCheck_does hof.1).bind (request_does.bind (lift_does hof.2)))

section

variable {P : Platform} {validSecret : Bytes32 → Bool} {build : Build} {turns : Nat}
  {metadata : MetadataState} {key : SigningKey} {node : Node}

theorem loadOrCreateWalletKey_does (hkey : dir .walletKey = some key.secret.1)
    (hvalid : validSecret key.secret = true) :
    Does random (loadOrCreateWalletKey P validSecret turns metadata) dir
      { signingKey := key, legacyShared := P.publicKey key = defaultMinerDestination P } dir := by
  refine readFile_does.bind ?_
  rw [hkey]
  refine request_does.bind ((dirCheck_does key.secret.2).bind ?_)
  exact (lift_does (signingKeyFromBytes_eq_ok.mpr ⟨hvalid, rfl⟩)).bind rfl

/-- A directory of this version that has all its files is left as it is. -/
theorem openNode_does (hcurrent : MetadataState.current.Of build.fingerprint dir)
    (hkey : dir .walletKey = some key.secret.1) (hvalid : validSecret key.secret = true)
    (hlog : dir .log = some node.log)
    (hnode : Node.open P build.params build.verifier node.log = .ok node) :
    Does random (openNode P validSecret build turns) dir
      { node
        wallet := { signingKey := key, legacyShared := P.publicKey key = defaultMinerDestination P }
        fingerprint := build.fingerprint } dir := by
  refine request_does.bind (request_does.bind (request_does.bind ?_))
  refine (loadMetadata_does hcurrent).bind ((loadOrCreateWalletKey_does hkey hvalid).bind ?_)
  refine readFile_does.bind (request_does.bind ?_)
  have hopen : mapErr DirError.node (Node.open P build.params build.verifier ((dir .log).getD [])) =
      .ok node := by
    rw [hlog]
    exact mapErr_eq_ok.mpr hnode
  refine (lift_does hopen).bind (request_does.bind ?_)
  have hsame : Function.update dir .log (some ((dir .log).getD [])) = dir := by
    rw [hlog, Option.getD_some, ← hlog, Function.update_eq_self]
  show (_, Function.update dir .log (some ((dir .log).getD [])), ()) = _
  rw [hsame]

/-- A directory of an older version with blocks gets the shared key, and the flag. -/
theorem openNode_does_legacy {bytes : List UInt8} (hbytes : dir .metadata = some bytes)
    (hlegacy : MetadataState.legacy.Of build.fingerprint dir) (hkey : dir .walletKey = none)
    (hlog : dir .log = some node.log) (hpos : 0 < node.log.length)
    (hnode : Node.open P build.params build.verifier node.log = .ok node) :
    ∃ dir', Does random (openNode P validSecret build turns) dir
      { node
        wallet := { signingKey := insecureDevWalletSigningKey, legacyShared := true }
        fingerprint := build.fingerprint } dir' := by
  have hnonempty : decide (0 < ((dir .log).getD []).length) = true := by
    rw [hlog]
    exact decide_eq_true hpos
  have hwallet : Does random (loadOrCreateWalletKey P validSecret turns .legacy) dir
      { signingKey := insecureDevWalletSigningKey, legacyShared := true }
      (Function.update dir .walletKey (some insecureDevWalletSigningKey.secret.1)) := by
    refine readFile_does.bind ?_
    rw [hkey]
    refine (dirCheck_does (by decide)).bind (blockLogIsNonempty_does.bind ?_)
    rw [hnonempty]
    exact (writeNew_does hkey).bind rfl
  -- the key file is the only one that has changed
  have hlog₁ : Function.update dir .walletKey (some insecureDevWalletSigningKey.secret.1) .log =
      some node.log := hlog
  have hbytes₁ : Function.update dir .walletKey (some insecureDevWalletSigningKey.secret.1)
      .metadata = some bytes := hbytes
  generalize Function.update dir .walletKey (some insecureDevWalletSigningKey.secret.1) = dir₁
    at hwallet hlog₁ hbytes₁
  have hopen : mapErr DirError.node
      (Node.open P build.params build.verifier ((dir₁ .log).getD [])) = .ok node := by
    rw [hlog₁]
    exact mapErr_eq_ok.mpr hnode
  have hflag : Does random (writeMetadata build.fingerprint .legacy) dir₁ ()
      (Function.update dir₁ .metadata
        (some (InterruptedReader.overwrite bytes 6 (leBytes16 metadataWalletKeyFlag)))) := by
    refine readFile_does.bind ((dirCheck_does ?_).bind (request_does.bind ?_))
    · rw [hbytes₁]
      rfl
    · exact (writeAt_does hbytes₁).bind request_does
  exact ⟨_, request_does.bind (request_does.bind (request_does.bind
    ((loadMetadata_does hlegacy).bind (hwallet.bind (readFile_does.bind (request_does.bind
      ((lift_does hopen).bind (hflag.bind (request_does.bind rfl)))))))))⟩

end

end

/-! ## Runs -/

/-- Processes on one directory. -/
abbrev DirHost (κ : Type) := Host DataDir String OsAnswer DirError OpenNode Launch κ

abbrev DirEvent (κ : Type) := HostEvent OsAnswer Launch NodeCall κ

section

variable {κ : Type} [DecidableEq κ] {P : Platform} {validSecret : Bytes32 → Bool} {dir : DataDir}
  {host host' : DirHost κ} {events more : List (DirEvent κ)} {k k' : κ} {opened opened' : OpenNode}

/-- What the writes of every build keep, every run keeps, and the nodes in it have their files. -/
theorem directory_run {Inv : DataDir → Prop} {Good : OpenNode → Prop}
    (hwritable : ∀ build, Writable Inv build)
    (hopen : ∀ build opened dir dir', Inv dir → Inv dir' →
      OpenNode.From P validSecret build dir dir' opened → Good opened)
    (hcall : ∀ call opened dir, opened.Stored P validSecret dir → Good opened →
      Good (opened.perform P call dir).1)
    (h : host.Sound Inv fun opened dir => opened.Stored P validSecret dir ∧ Good opened)
    (hrun : runEvents (Host.step (directoryBehaviour P validSecret)) events host = some host') :
    host'.Sound Inv fun opened dir => opened.Stored P validSecret dir ∧ Good opened := by
  refine h.run ?_ ?_ hrun
  · intro launch dir hinv
    exact openNode_keeps (hwritable launch.build) hinv fun opened dir' hinv' hfrom =>
      ⟨hfrom.stored, hopen launch.build opened dir dir' hinv hinv' hfrom⟩
  · intro call opened dir hinv hopened
    obtain ⟨hstored, tail, hdir⟩ := hopened.1.perform call
    refine ⟨?_, hstored, hcall call opened dir hopened.1 hopened.2⟩
    show Inv (opened.perform P call dir).2
    rw [hdir]
    exact (hwritable ⟨zero32, opened.node.params, opened.node.verifier⟩).append dir _ tail hinv
      hopened.1.log

/-- Every node that a run opens has its files. -/
theorem directory_stored
    (hrun : runEvents (Host.step (directoryBehaviour P validSecret)) events (.idle dir) =
      some host) :
    host.Sound (fun _ => True) fun opened dir => opened.Stored P validSecret dir ∧ True :=
  directory_run (fun _ => ⟨fun _ _ _ _ _ _ _ _ _ => trivial, fun _ _ _ _ _ _ _ => trivial,
    fun _ _ _ => trivial, fun _ _ _ _ _ => trivial⟩) (fun _ _ _ _ _ _ _ => trivial)
    (fun _ _ _ _ _ => trivial) (.idle trivial) hrun

/-- What opens when every operation works, a process can open. -/
theorem directory_opens {random : Bytes32} {launch : Launch} (hoff : host.process k = .off)
    (hfree : host.holder = none)
    (hdoes : Does random (openNode P validSecret launch.build launch.turns) host.store opened dir) :
    ∃ answers : List OsAnswer, (∀ answer ∈ answers, answer.ok = true) ∧
      runEvents (Host.step (directoryBehaviour P validSecret))
        (.launch k launch :: .lock k :: answers.map (.advance k)) host =
          some (host.goto k (.running opened) dir) := by
  have hplay : ((directoryBehaviour P validSecret).program launch).play (workingOs random)
      host.store () = (.ok opened, dir, ()) := hdoes
  have hworks : ∀ request t, (workingOs random request t).1.ok = true := fun _ _ => rfl
  exact Host.starts (·.ok = true) (hworks "" ()) hworks hoff hfree hplay

/-! ### The lives of a directory -/

/-- The directory belongs to the node, or to one that goes on from it. -/
structure Belongs (opened : OpenNode) (dir : DataDir) : Prop where
  key : dir .walletKey = some opened.wallet.signingKey.secret.1
  metadata : ∃ bytes, dir .metadata = some bytes ∧
    decodeMetadata opened.fingerprint bytes = .ok .current
  log : ∃ tail, dir .log = some (opened.node.log ++ tail)

/-- Nobody writes to the metadata or the key any more. -/
theorem Belongs.writable (opened : OpenNode) (build : Build) :
    Writable (Belongs opened) build where
  key dir _ _ _ h hnone := by
    rw [h.key] at hnone
    cases hnone
  metadata dir metadata _ h _ hcurrent hof := by
    obtain ⟨bytes, hbytes, hdecode⟩ := h.metadata
    rw [MetadataState.Of, hbytes] at hof
    exact absurd (decodeMetadata_unique hof.2 hdecode).1 hcurrent
  log dir h hnone := by
    obtain ⟨tail, htail⟩ := h.log
    rw [htail] at hnone
    cases hnone
  append dir log more h hlog := by
    obtain ⟨tail, htail⟩ := h.log
    obtain rfl := Option.some.inj (htail.symm.trans hlog)
    refine ⟨(Function.update_of_ne (by decide) ..).trans h.key, ?_, tail ++ more, ?_⟩
    · obtain ⟨bytes, hbytes, hdecode⟩ := h.metadata
      exact ⟨bytes, (Function.update_of_ne (by decide) ..).trans hbytes, hdecode⟩
    · rw [Function.update_self, List.append_assoc]

/-- A node of the same network that has accepted what the first one had, and goes on. -/
def OpenNode.GoesOn (P : Platform) (opened opened' : OpenNode) : Prop :=
  opened'.node.params = opened.node.params → opened'.node.verifier = opened.node.verifier →
    ∀ accepted, NodeRun P opened.node.params opened.node.verifier accepted opened.node →
      ∃ later, NodeRun P opened.node.params opened.node.verifier (accepted ++ later) opened'.node

theorem OpenNode.From.goesOn {build : Build} {dir' : DataDir} (hbelongs : Belongs opened dir)
    (h : opened'.From P validSecret build dir dir') : opened.GoesOn P opened' := by
  intro hparams hverifier accepted hrun
  obtain ⟨tail, htail⟩ := hbelongs.log
  have hlog : opened'.node.log = opened.node.log ++ tail := by
    rw [h.log.2, htail, Option.getD_some]
  obtain ⟨_, _, -, -, hnode⟩ := open_eq_ok.mp h.node
  have hopen := h.node
  rw [hlog, show build.params = opened.node.params from
    (congrArg Node.params hnode).symm.trans hparams, show build.verifier = opened.node.verifier from
    (congrArg Node.verifier hnode).symm.trans hverifier] at hopen
  exact hrun.reopen_extends hopen

theorem OpenNode.GoesOn.perform (h : opened.GoesOn P opened')
    (hstored : opened'.Stored P validSecret dir) (call : NodeCall) :
    opened.GoesOn P (opened'.perform P call dir).1 := by
  intro hparams hverifier accepted hrun
  obtain ⟨_, hopened⟩ := hstored.run
  obtain ⟨_, hafter⟩ := hopened.perform call
  obtain ⟨later, hlater⟩ := h (hafter.consistent.constant.1.symm.trans hparams)
    (hafter.consistent.constant.2.symm.trans hverifier) accepted hrun
  obtain ⟨last, hlast⟩ := hlater.perform call
  exact ⟨later ++ last, (List.append_assoc accepted later last) ▸ hlast⟩

/-- **The lives of a directory**, from any content on, with any number of processes that start,
fail, are killed at any moment or work on: a node that opens has its files, and nobody else is
inside while it runs.  Every node that opens it later has the same key and network, its log goes
on from that of the first, and if it was built alike it has accepted the same blocks first. -/
theorem directory_lives
    (hrun : runEvents (Host.step (directoryBehaviour P validSecret)) events (.idle dir) =
      some host)
    (hopened : host.process k = .running opened)
    (hmore : runEvents (Host.step (directoryBehaviour P validSecret)) more host = some host')
    (hopened' : host'.process k' = .running opened') :
    opened.Stored P validSecret host.store ∧
      (∀ other, other ≠ k → (host.process other).inside = false) ∧
      opened'.wallet.signingKey = opened.wallet.signingKey ∧
      opened'.fingerprint = opened.fingerprint ∧
      opened.node.log <+: opened'.node.log ∧
      opened.GoesOn P opened' := by
  have hsound := directory_stored hrun
  have hstored : opened.Stored P validSecret host.store := by
    have h := hsound.process k
    rw [hopened] at h
    exact h.1
  have hbelongs : Belongs opened host.store := by
    obtain ⟨bytes, hbytes, -, hdecode⟩ := hstored.metadata
    exact ⟨hstored.key, ⟨bytes, hbytes, hdecode⟩, [], by rw [List.append_nil, hstored.log]⟩
  have hself : opened.GoesOn P opened :=
    fun _ _ accepted h => ⟨[], (List.append_nil accepted).symm ▸ h⟩
  have hlater := directory_run (Belongs.writable opened)
    (fun _ _ _ _ hdir _ hfrom => hfrom.goesOn hdir)
    (fun call _ _ hfiles hgood => hgood.perform hfiles call)
    (hsound.hold hopened hbelongs ⟨hstored, hself⟩) hmore
  have hbelongs' := hlater.inv
  obtain ⟨hstored', hgoes⟩ :
      opened'.Stored P validSecret host'.store ∧ opened.GoesOn P opened' := by
    have h := hlater.process k'
    rw [hopened'] at h
    exact h
  refine ⟨hstored, fun other hother => ?_, ?_, ?_, ?_, hgoes⟩
  · exact hsound.exclusive.outside ((hsound.exclusive k).mp (by rw [hopened]; rfl)) hother
  · have hkey := hstored'.key.symm.trans hbelongs'.key
    exact congrArg SigningKey.mk (Subtype.ext (Option.some.inj hkey))
  · obtain ⟨bytes, hbytes, -, hdecode'⟩ := hstored'.metadata
    obtain ⟨bytes', hbytes', hdecode⟩ := hbelongs'.metadata
    obtain rfl := Option.some.inj (hbytes.symm.trans hbytes')
    exact (decodeMetadata_unique hdecode' hdecode).2
  · obtain ⟨tail, htail⟩ := hbelongs'.log
    rw [hstored'.log] at htail
    exact ⟨tail, (Option.some.inj htail).symm⟩

def sampleWalletKey : SigningKey := ⟨toBytes 3⟩

/-- A directory with a key and no blocks. -/
def sampleDirectory : DataDir
  | .metadata => some (encodeMetadata zero32)
  | .walletKey => some sampleWalletKey.secret.1
  | .log => some []

def sampleBuild : Build where
  fingerprint := zero32
  params := sampleParams
  verifier := sampleVerifier

def sampleOpenNode : OpenNode where
  node := sampleNode₀
  wallet :=
    { signingKey := sampleWalletKey
      legacyShared :=
        samplePlatform.publicKey sampleWalletKey = defaultMinerDestination samplePlatform }
  fingerprint := zero32

theorem sampleDirectory_does : Does zero32
    (openNode samplePlatform (fun _ => true) sampleBuild 0) sampleDirectory sampleOpenNode
      sampleDirectory := by
  have hnode : Node.open samplePlatform sampleParams sampleVerifier [] = .ok sampleNode₀ :=
    open_empty_eq_ok.mpr ⟨sampleGenesis, sampleGenesis_new, rfl⟩
  exact openNode_does ⟨length_encodeMetadata _, decodeMetadata_encodeMetadata _⟩ rfl rfl rfl hnode

def sampleRunning : DirHost Bool :=
  (Host.idle sampleDirectory).goto true (.running sampleOpenNode) sampleDirectory

def sampleKilled : DirHost Bool := sampleRunning.goto true .off sampleDirectory

/-- One process opens the directory and is killed, and then another one opens it. -/
theorem directory_lives_sample : ∃ (events more : List (DirEvent Bool)) (host host' : DirHost Bool)
    (opened opened' : OpenNode),
    runEvents (Host.step (directoryBehaviour samplePlatform fun _ => true)) events
      (.idle sampleDirectory) = some host ∧
    host.process true = .running opened ∧
    runEvents (Host.step (directoryBehaviour samplePlatform fun _ => true)) more host = some host' ∧
    host'.process false = .running opened' ∧
    opened'.wallet.signingKey = opened.wallet.signingKey ∧
    opened.GoesOn samplePlatform opened' := by
  have hfirst : ∃ answers : List OsAnswer, (∀ answer ∈ answers, answer.ok = true) ∧
      runEvents (Host.step (directoryBehaviour samplePlatform fun _ => true))
        (.launch true { build := sampleBuild, turns := 0 } :: .lock true ::
          answers.map (.advance true)) (.idle sampleDirectory) = some sampleRunning :=
    directory_opens rfl rfl sampleDirectory_does
  have hsecond : ∃ answers : List OsAnswer, (∀ answer ∈ answers, answer.ok = true) ∧
      runEvents (Host.step (directoryBehaviour samplePlatform fun _ => true))
        (.launch false { build := sampleBuild, turns := 0 } :: .lock false ::
          answers.map (.advance false)) sampleKilled =
        some (sampleKilled.goto false (.running sampleOpenNode) sampleDirectory) :=
    directory_opens rfl rfl sampleDirectory_does
  obtain ⟨answers, -, hrun⟩ := hfirst
  obtain ⟨answers', -, hmore⟩ := hsecond
  have hkilled : sampleRunning.step (directoryBehaviour samplePlatform fun _ => true) (.kill true) =
      some sampleKilled := rfl
  have hkill := runEvents_cons.mpr ⟨_, hkilled, hmore⟩
  have hopened : sampleRunning.process true = .running sampleOpenNode := rfl
  have hopened' : (sampleKilled.goto false (.running sampleOpenNode) sampleDirectory).process
      false = .running sampleOpenNode := rfl
  obtain ⟨-, -, hkey, -, -, hgoes⟩ := directory_lives hrun hopened hkill hopened'
  exact ⟨_, _, _, _, _, _, hrun, hopened, hkill, hopened', hkey, hgoes⟩

end

/-! ### A directory of an older version -/

/-- Blocks, and no key but the one that all had. -/
structure Demonstration (dir : DataDir) : Prop where
  log : 0 < ((dir .log).getD []).length
  key : dir .walletKey = none ∨
    ∃ count, dir .walletKey = some (insecureDevWalletSigningKey.secret.1.take count)

theorem Demonstration.writable (build : Build) : Writable Demonstration build where
  key dir _ key count h _ _ _ hdev := by
    refine ⟨?_, .inr ⟨count, ?_⟩⟩
    · rw [Function.update_of_ne (by decide)]
      exact h.log
    · rw [Function.update_self, hdev h.log]
  metadata dir _ bytes h _ _ _ := by
    refine ⟨?_, ?_⟩
    · rw [Function.update_of_ne (by decide)]
      exact h.log
    · rw [Function.update_of_ne (by decide)]
      exact h.key
  log dir h hnone := by
    have hlog := h.log
    rw [hnone] at hlog
    cases hlog
  append dir log tail h hlog := by
    refine ⟨?_, ?_⟩
    · have hpos := h.log
      rw [hlog, Option.getD_some] at hpos
      rw [Function.update_self, Option.getD_some, List.length_append]
      exact Nat.add_pos_left hpos _
    · rw [Function.update_of_ne (by decide)]
      exact h.key

section

variable {κ : Type} [DecidableEq κ] {P : Platform} {validSecret : Bytes32 → Bool}
  {dir dir' : DataDir} {host : DirHost κ} {events : List (DirEvent κ)} {k : κ} {opened : OpenNode}

/-- A whole key that may be there is the shared one. -/
theorem Demonstration.key_eq (h : Demonstration dir) {key : SigningKey}
    (hkey : dir .walletKey = some key.secret.1) : key = insecureDevWalletSigningKey := by
  rcases h.key with hnone | ⟨count, hcount⟩
  · rw [hnone] at hkey
    cases hkey
  · have heq := Option.some.inj (hkey.symm.trans hcount)
    have hlength := congrArg List.length heq
    rw [List.length_take, insecureDevWalletSigningKey.secret.2, key.secret.2] at hlength
    rw [List.take_of_length_le
      (by rw [insecureDevWalletSigningKey.secret.2]; omega)] at heq
    exact congrArg SigningKey.mk (Subtype.ext heq)

theorem Demonstration.opens {build : Build} (h : Demonstration dir) (h' : Demonstration dir')
    (hfrom : opened.From P validSecret build dir dir') :
    opened.wallet = { signingKey := insecureDevWalletSigningKey, legacyShared := true } := by
  obtain ⟨dir₁, htaken, hkey⟩ := hfrom.wallet
  have hdev := h'.key_eq (hkey.trans htaken.key)
  have hshared : opened.wallet.legacyShared = true := by
    cases hfile : dir .walletKey with
    | none =>
        rw [(htaken.made hfile).1]
        exact decide_eq_true h.log
    | some bytes =>
        rw [(htaken.found (by rw [hfile]; rfl)).2, hdev]
        exact decide_eq_true rfl
  cases hwallet : opened.wallet with
  | mk signingKey legacyShared =>
      rw [hwallet] at hdev hshared
      exact congrArg₂ DevWallet.mk hdev hshared

/-- **The coins of an older version stay**: a directory that has blocks, and no key of its own,
is opened with the shared key that the blocks were mined for, or not at all; in every run, also
one in which the first processes get killed before they have finished the migration. -/
theorem legacy_wallet_kept (hlog : 0 < ((dir .log).getD []).length)
    (hkey : dir .walletKey = none)
    (hrun : runEvents (Host.step (directoryBehaviour P validSecret)) events (.idle dir) =
      some host)
    (hopened : host.process k = .running opened) :
    opened.wallet = { signingKey := insecureDevWalletSigningKey, legacyShared := true } := by
  have hsound : host.Sound Demonstration fun opened dir => opened.Stored P validSecret dir ∧
      opened.wallet = { signingKey := insecureDevWalletSigningKey, legacyShared := true } :=
    directory_run Demonstration.writable
      (fun _ _ _ _ hdir hdir' hfrom => Demonstration.opens hdir hdir' hfrom)
      (fun _ _ _ _ hgood => hgood) (.idle ⟨hlog, .inl hkey⟩) hrun
  have h := hsound.process k
  rw [hopened] at h
  exact h.2

/-- The metadata of an older version, and a log. -/
def sampleLegacyDirectory (log : List UInt8) : DataDir
  | .metadata => some (metadataMagic ++ leBytes16 metadataVersion ++ [0, 0] ++ zero32.1)
  | .walletKey => none
  | .log => some log

def sampleLegacyOpenNode (node : Node) : OpenNode where
  node
  wallet := { signingKey := insecureDevWalletSigningKey, legacyShared := true }
  fingerprint := zero32

theorem sampleLegacyDirectory_does {log : List UInt8} {node : Node} (hpos : 0 < log.length)
    (hlog : node.log = log)
    (hnode : Node.open samplePlatform sampleParams sampleVerifier log = .ok node) :
    ∃ dir, Does zero32 (openNode samplePlatform (fun _ => true) sampleBuild 0)
      (sampleLegacyDirectory log) (sampleLegacyOpenNode node) dir := by
  obtain rfl := hlog
  have hof : MetadataState.legacy.Of sampleBuild.fingerprint (sampleLegacyDirectory node.log) :=
    ⟨rfl, rfl⟩
  exact openNode_does_legacy rfl hof rfl rfl hpos hnode

/-- A directory with the blocks of the sample fork. -/
theorem legacy_wallet_kept_sample : ∃ (log : List UInt8) (events : List (DirEvent Bool))
    (host : DirHost Bool) (opened : OpenNode),
    blockLog samplePlatform sampleFork = .ok log ∧
    runEvents (Host.step (directoryBehaviour samplePlatform fun _ => true)) events
      (.idle (sampleLegacyDirectory log)) = some host ∧
    host.process true = .running opened ∧
    opened.wallet = { signingKey := insecureDevWalletSigningKey, legacyShared := true } := by
  obtain ⟨log, hlog, -⟩ := sampleNode_run.consistent.log
  have hpos : 0 < log.length := by
    obtain ⟨record, rest, hrecord, -, rfl⟩ := blockLog_cons.mp hlog
    rw [List.length_append]
    exact Nat.add_pos_left (blockRecord_length_pos hrecord) _
  have hnode := sampleNode_run.reopen hlog
  generalize hrestored : Node.restored _ _ log _ = node at hnode
  obtain ⟨dir, hdoes⟩ := sampleLegacyDirectory_does hpos (hrestored ▸ rfl) hnode
  have hopens : ∃ answers : List OsAnswer, (∀ answer ∈ answers, answer.ok = true) ∧
      runEvents (Host.step (directoryBehaviour samplePlatform fun _ => true))
        (.launch true { build := sampleBuild, turns := 0 } :: .lock true ::
          answers.map (.advance true)) (.idle (sampleLegacyDirectory log)) =
        some ((Host.idle (sampleLegacyDirectory log)).goto true
          (.running (sampleLegacyOpenNode node)) dir) :=
    directory_opens rfl rfl hdoes
  obtain ⟨answers, -, hrun⟩ := hopens
  have hopened : ((Host.idle (sampleLegacyDirectory log) : DirHost Bool).goto true
      (.running (sampleLegacyOpenNode node)) dir).process true =
        .running (sampleLegacyOpenNode node) := rfl
  have hlog' : 0 < ((sampleLegacyDirectory log .log).getD []).length := hpos
  exact ⟨log, _, _, _, hlog, hrun, hopened, legacy_wallet_kept hlog' rfl hrun hopened⟩

end

/-! ### A node that is killed -/

section

variable {κ : Type} [DecidableEq κ] {P : Platform} {validSecret : Bytes32 → Bool} {dir : DataDir}
  {host : DirHost κ} {events : List (DirEvent κ)} {k k' : κ} {opened : OpenNode} {build : Build}

end

end CommonFoundry
