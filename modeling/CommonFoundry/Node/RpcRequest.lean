/-
# `CommonFoundry.Node.RpcRequest` — reading one request of the local service

`read_rpc_request` of `cmfd-node/src/lib.rs`: an HTTP/1.1 request with a length and without
encodings.  The connection is a `ChunkedReader`, any stream cut in any way; a read that fails
is left out.

The header is read in pieces of 1024 bytes until its end has come.  What came with the last
piece behind the end belongs to the body, and if it is too much the request is rejected.  But
nobody looks for more bytes than the declared ones afterwards, so a request with a surplus is
accepted if the surplus comes later.  The last piece has at most 1023 bytes behind the header:
where the body is at least as long, the surplus is never seen.

Everything else is a function of the stream (`readRpcRequest_eq`).
-/
import Mathlib
import CommonFoundry.Consensus.Wire
import CommonFoundry.Lib.Decimal
import CommonFoundry.Lib.ReadUntil

namespace CommonFoundry

open Lib Lib.Outcome

/-- `RPC_HEADER_LIMIT`. -/
def rpcHeaderLimit : Nat := 8 * 1024
/-- `WALLET_JSON_BODY_LIMIT`. -/
def walletJsonBodyLimit : Nat := 2 * 1024
/-- The size of the buffer that the header is read with. -/
def rpcChunkBytes : Nat := 1024
/-- The bytes of `\r\n\r\n`. -/
def headerTerminator : List UInt8 := [0x0d, 0x0a, 0x0d, 0x0a]

/-- `NodeError::InvalidRpcRequest`. -/
inductive RpcError where
  | invalidRpcRequest (message : String)
  deriving DecidableEq

/-- A `str`: its characters. -/
abbrev Text := List Char

structure RpcRequest where
  method : Text
  target : Text
  contentType : Option Text
  body : List UInt8
  deriving DecidableEq

/-! ## Text -/

namespace Text

/-- `str::from_utf8`. -/
def fromUtf8 (bytes : List UInt8) : Option Text :=
  (String.fromUTF8? ⟨bytes.toArray⟩).map String.toList

/-- `char::is_whitespace`: the Unicode property `White_Space`. -/
def isWhitespace (c : Char) : Bool :=
  (0x09 ≤ c.toNat ∧ c.toNat ≤ 0x0d) ∨ (0x2000 ≤ c.toNat ∧ c.toNat ≤ 0x200a) ∨
    c.toNat ∈ [0x20, 0x85, 0xa0, 0x1680, 0x2028, 0x2029, 0x202f, 0x205f, 0x3000]

/-- `split("\r\n")`. -/
def splitCrlf : Text → List Text
  | [] => [[]]
  | '\r' :: '\n' :: rest => [] :: splitCrlf rest
  | c :: rest =>
      match splitCrlf rest with
      | [] => [[c]]
      | line :: lines => (c :: line) :: lines

/-- `split_whitespace`. -/
def splitWhitespace (text : Text) : List Text := (text.splitOnP isWhitespace).filter (· ≠ [])

/-- `split_once`. -/
def splitOnce (separator : Char) : Text → Option (Text × Text)
  | [] => none
  | c :: rest =>
      if c = separator then some ([], rest)
      else (splitOnce separator rest).map fun parts => (c :: parts.1, parts.2)

/-- `trim`. -/
def trim (text : Text) : Text :=
  ((text.dropWhile isWhitespace).reverse.dropWhile isWhitespace).reverse

/-- `eq_ignore_ascii_case`. -/
def eqIgnoreAsciiCase (a b : Text) : Bool := a.map Char.toLower = b.map Char.toLower

/-- `parse::<usize>()`: digits, with a plus sign in front or without. -/
def parseUsize (text : Text) : Option UInt64 :=
  let digits := match text with
    | '+' :: digits => digits
    | digits => digits
  if digits ≠ [] ∧ ∀ c ∈ digits, c.isDigit then
    parseU64 (digits.map fun c => UInt8.ofNat c.toNat)
  else
    none

end Text

open Text

/-! ## The header -/

/-- `rpc_body_limit`. -/
def rpcBodyLimit (method target : Text) : Nat :=
  if method = "POST".toList ∧ target = "/v1/transaction".toList then maxTransactionBytes
  else if method = "POST".toList ∧
      (target = "/v1/wallet/send".toList ∨ target = "/v1/wallet/consolidate".toList) then
    walletJsonBodyLimit
  else if method = "POST".toList ∧ target = "/v1/block".toList then maxBlockBytes
  else if method = "POST".toList ∧ "/v1/mine?".toList <+: target then 0
  else if method = "GET".toList then 0
  else maxBlockBytes

/-- What the lines after the first one say. -/
structure RpcFields where
  contentLength : Option UInt64
  contentType : Option Text

/-- What the header says. -/
structure RpcHeader where
  method : Text
  target : Text
  contentType : Option Text
  bodyLength : Nat
  deriving DecidableEq

/-- One line of the header. -/
def RpcFields.line (bodyLimit : Nat) (fields : RpcFields) (line : Text) :
    Outcome RpcError RpcFields := do
  let (name, value) ← okOr (splitOnce ':' line) (.invalidRpcRequest "malformed HTTP header")
  let value := trim value
  if eqIgnoreAsciiCase name "content-length".toList then
    require (fields.contentLength = none) (.invalidRpcRequest "duplicate Content-Length")
    let length ← okOr (parseUsize value) (.invalidRpcRequest "invalid Content-Length")
    require (¬length.toNat > bodyLimit) (.invalidRpcRequest
      ("request body exceeds the " ++ toString bodyLimit ++ "-byte endpoint limit"))
    pure { fields with contentLength := some length }
  else if eqIgnoreAsciiCase name "content-type".toList then
    pure { fields with contentType := some value }
  else if eqIgnoreAsciiCase name "transfer-encoding".toList then
    fail (.invalidRpcRequest "Transfer-Encoding is not supported")
  else
    pure fields

/-- The header without its end. -/
def parseRpcHeader (bytes : List UInt8) : Outcome RpcError RpcHeader := do
  let header ← okOr (fromUtf8 bytes) (.invalidRpcRequest "headers are not UTF-8")
  match splitCrlf header with
  | [] => fail (.invalidRpcRequest "missing request line")
  | requestLine :: lines =>
      match splitWhitespace requestLine with
      | [method, target, version] => do
          require (version = "HTTP/1.1".toList)
            (.invalidRpcRequest "request line must use HTTP/1.1")
          let fields ← lines.foldlM (RpcFields.line (rpcBodyLimit method target)) ⟨none, none⟩
          require (¬(method = "POST".toList ∧ fields.contentLength = none))
            (.invalidRpcRequest "POST requires Content-Length")
          pure {
            method
            target
            contentType := fields.contentType
            bodyLength := (fields.contentLength.map UInt64.toNat).getD 0 }
      | _ => fail (.invalidRpcRequest "request line must use HTTP/1.1")

/-! ## The request -/

/-- The checks of the loop that reads the header, before it reads on: the position behind the
end of the header, a rejection, or nothing yet. -/
def scanRpcHeader (bytes : List UInt8) : Option (Outcome RpcError Nat) :=
  match windowPosition headerTerminator bytes with
  | some position =>
      if position + 4 > rpcHeaderLimit then
        some (fail (.invalidRpcRequest "headers exceed 8192 bytes"))
      else
        some (.ok (position + 4))
  | none =>
      if bytes.length ≥ rpcHeaderLimit then
        some (fail (.invalidRpcRequest "headers exceed 8192 bytes"))
      else
        none

/-- The body, of which some has come with the header. -/
def readRpcBody (header : RpcHeader) (body : List UInt8) (reader : ChunkedReader) :
    Outcome RpcError RpcRequest := do
  require (¬body.length > header.bodyLength)
    (.invalidRpcRequest "request contains bytes after its declared body")
  let remaining := header.bodyLength - body.length
  let body ←
    if remaining > 0 then do
      let (tail, _) ← okOr (reader.readExact remaining)
        (.invalidRpcRequest "request body is truncated")
      pure (body ++ tail)
    else
      pure body
  require (¬(header.method = "GET".toList ∧ body ≠ []))
    (.invalidRpcRequest "GET requests may not contain a body")
  pure { method := header.method, target := header.target, contentType := header.contentType, body }

def readRpcRequest (reader : ChunkedReader) : Outcome RpcError RpcRequest := do
  let (scanned, bytes, reader) := ChunkedReader.readUntil scanRpcHeader rpcChunkBytes [] reader
  let headerEnd ← (scanned.getD
    (fail (.invalidRpcRequest "request ended before headers were complete")))
  let header ← parseRpcHeader (bytes.take (headerEnd - 4))
  readRpcBody header (bytes.drop headerEnd) reader

/-! ## The header does not depend on the cuts -/

theorem stable_scanRpcHeader : Stable scanRpcHeader := by
  intro bytes outcome rest h
  unfold scanRpcHeader at h ⊢
  cases hposition : windowPosition headerTerminator bytes with
  | some position =>
      rw [hposition] at h
      rw [windowPosition_append hposition]
      exact h
  | none =>
      rw [hposition] at h
      dsimp only at h
      split at h
      case isFalse => cases h
      case isTrue hlong =>
          cases hmore : windowPosition headerTerminator (bytes ++ rest) with
          | none =>
              have hlonger : (bytes ++ rest).length ≥ rpcHeaderLimit := by
                rw [List.length_append]
                omega
              dsimp only
              rw [if_pos hlonger]
              exact h
          | some position =>
              -- an end within the limit would be in the bytes already
              have hbeyond : position + 4 > rpcHeaderLimit := by
                by_contra hwithin
                have hfound := windowPosition_of_append hmore
                  (show position + 4 ≤ bytes.length by omega) (List.cons_ne_nil _ _)
                rw [hposition] at hfound
                cases hfound
              dsimp only
              rw [if_pos hbeyond]
              exact h

theorem scanRpcHeader_eq_ok {bytes : List UInt8} {headerEnd : Nat} :
    scanRpcHeader bytes = some (.ok headerEnd) ↔
      ∃ position, windowPosition headerTerminator bytes = some position ∧
        headerEnd = position + 4 ∧ headerEnd ≤ rpcHeaderLimit := by
  unfold scanRpcHeader
  cases windowPosition headerTerminator bytes with
  | none =>
      dsimp only
      constructor
      · intro h
        split at h <;> cases h
      · rintro ⟨_, h, _⟩
        cases h
  | some position =>
      dsimp only
      constructor
      · intro h
        split at h
        case isTrue => cases h
        case isFalse hwithin =>
            cases h
            exact ⟨position, rfl, rfl, by omega⟩
      · rintro ⟨_, h, rfl, hwithin⟩
        cases h
        rw [if_neg (by omega)]

/-- The header ends within the bytes, and no fewer bytes decide. -/
theorem scanRpcHeader_first {bytes : List UInt8} {headerEnd : Nat}
    (h : scanRpcHeader bytes = some (.ok headerEnd)) :
    4 ≤ headerEnd ∧ headerEnd ≤ bytes.length ∧
      scanRpcHeader (bytes.take headerEnd) = some (.ok headerEnd) ∧
      ∀ k < headerEnd, scanRpcHeader (bytes.take k) = none := by
  obtain ⟨position, hposition, rfl, hwithin⟩ := scanRpcHeader_eq_ok.mp h
  have hle : position + 4 ≤ bytes.length := windowPosition_le hposition
  have hlength := List.length_take_of_le hle
  refine ⟨by omega, hle, ?_, ?_⟩
  · rw [← List.take_append_drop (position + 4) bytes] at hposition
    exact scanRpcHeader_eq_ok.mpr ⟨position,
      windowPosition_of_append hposition (by rw [hlength]; exact le_rfl) (List.cons_ne_nil _ _),
      rfl, hwithin⟩
  · intro k hk
    have hshort : (bytes.take k).length = k := List.length_take_of_le (by omega)
    cases hscan : scanRpcHeader (bytes.take k) with
    | none => rfl
    | some outcome =>
        -- what these bytes decide, all of them decide
        have hall := stable_scanRpcHeader (bytes.drop k) hscan
        rw [List.take_append_drop, h] at hall
        cases hall
        obtain ⟨earlier, hearlier, heq, _⟩ := scanRpcHeader_eq_ok.mp hscan
        have hfits : earlier + 4 ≤ (bytes.take k).length := windowPosition_le hearlier
        omega

/-! ## The request is a function of the stream and of how much of it was seen -/

/-- How many bytes are read until the header is complete. -/
def seenBytes (reader : ChunkedReader) : Nat :=
  (ChunkedReader.readUntil scanRpcHeader rpcChunkBytes [] reader).2.1.length

/-- What a header and the bytes behind it give, if no surplus is seen. -/
def requestOf (header : RpcHeader) (bytes : List UInt8) : Outcome RpcError RpcRequest := do
  require (header.bodyLength ≤ bytes.length) (.invalidRpcRequest "request body is truncated")
  require (¬(header.method = "GET".toList ∧ bytes.take header.bodyLength ≠ []))
    (.invalidRpcRequest "GET requests may not contain a body")
  pure {
    method := header.method
    target := header.target
    contentType := header.contentType
    body := bytes.take header.bodyLength }

theorem readRpcBody_eq (header : RpcHeader) (body : List UInt8) (reader : ChunkedReader) :
    readRpcBody header body reader = (do
      require (¬body.length > header.bodyLength)
        (.invalidRpcRequest "request contains bytes after its declared body")
      requestOf header (body ++ reader.rest)) := by
  unfold readRpcBody
  by_cases hsurplus : body.length > header.bodyLength
  · rw [require_neg (not_not.mpr hsurplus), fail_bind, fail_bind]
  rw [require_pos hsurplus, ok_bind, ok_bind, requestOf]
  dsimp only
  by_cases hremaining : header.bodyLength - body.length > 0
  · rw [if_pos hremaining]
    by_cases hlong : header.bodyLength ≤ (body ++ reader.rest).length
    · rw [List.length_append] at hlong
      have hsplit := (List.take_append_drop (header.bodyLength - body.length) reader.rest).symm
      have hlength := List.length_take_of_le
        (show header.bodyLength - body.length ≤ reader.rest.length by omega)
      obtain ⟨reader', hread, _⟩ := ChunkedReader.readExact_append _ hsplit
      rw [hlength] at hread
      have htake : (body ++ reader.rest).take header.bodyLength =
          body ++ reader.rest.take (header.bodyLength - body.length) := by
        rw [List.take_append, List.take_of_length_le (by omega)]
      rw [hread, okOr_some, ok_bind, require_pos (by rw [List.length_append]; exact hlong),
        ok_bind, htake]
      rfl
    · have hnone : reader.readExact (header.bodyLength - body.length) = none := by
        cases hread : reader.readExact (header.bodyLength - body.length) with
        | none => rfl
        | some result =>
            obtain ⟨hlength, happend⟩ := ChunkedReader.readExact_eq_some hread
            rw [happend] at hlong
            simp only [List.length_append] at hlong
            omega
      rw [hnone, okOr_none, fail_bind, require_neg hlong]
      rfl
  · have htake : (body ++ reader.rest).take header.bodyLength = body := by
      rw [List.take_append_of_le_length (by omega), List.take_of_length_le (by omega)]
    rw [if_neg hremaining, htake, require_pos (by rw [List.length_append]; omega), ok_bind]
    rfl

/-- What was read and what is left make up the stream. -/
theorem readUntil_stream (reader : ChunkedReader) :
    (ChunkedReader.readUntil scanRpcHeader rpcChunkBytes [] reader).2.1 ++
      (ChunkedReader.readUntil scanRpcHeader rpcChunkBytes [] reader).2.2.rest = reader.rest :=
  ChunkedReader.readUntil_append

theorem readRpcRequest_eq (reader : ChunkedReader) :
    readRpcRequest reader = (do
      let headerEnd ← ((scanRpcHeader reader.rest).getD
        (fail (.invalidRpcRequest "request ended before headers were complete")))
      let header ← parseRpcHeader (reader.rest.take (headerEnd - 4))
      require (¬seenBytes reader > headerEnd + header.bodyLength)
        (.invalidRpcRequest "request contains bytes after its declared body")
      requestOf header (reader.rest.drop headerEnd)) := by
  have hscan : (ChunkedReader.readUntil scanRpcHeader rpcChunkBytes [] reader).1 =
      scanRpcHeader reader.rest :=
    ChunkedReader.readUntil_fst stable_scanRpcHeader (by decide)
  have happend := readUntil_stream reader
  have hdecided : ∀ outcome,
      (ChunkedReader.readUntil scanRpcHeader rpcChunkBytes [] reader).1 = some outcome →
      scanRpcHeader (ChunkedReader.readUntil scanRpcHeader rpcChunkBytes [] reader).2.1 =
        some outcome :=
    fun _ => ChunkedReader.scan_readUntil
  unfold readRpcRequest seenBytes
  obtain ⟨⟨scanned, bytes, reader'⟩, hread⟩ :
      ∃ result, ChunkedReader.readUntil scanRpcHeader rpcChunkBytes [] reader = result := ⟨_, rfl⟩
  rw [hread] at hscan happend hdecided ⊢
  dsimp only at hscan happend hdecided ⊢
  subst hscan
  cases hrest : scanRpcHeader reader.rest with
  | none => rfl
  | some outcome =>
      cases outcome with
      | error fault => rfl
      | ok headerEnd =>
          obtain ⟨_, hle, _, _⟩ := scanRpcHeader_first (hdecided _ hrest)
          have htake : reader.rest.take (headerEnd - 4) = bytes.take (headerEnd - 4) := by
            rw [← happend, List.take_append_of_le_length (by omega)]
          have hdrop : reader.rest.drop headerEnd = bytes.drop headerEnd ++ reader'.rest := by
            rw [← happend, List.drop_append_of_le_length hle]
          rw [Option.getD_some, ok_bind, ok_bind, htake, hdrop]
          congr 1
          funext header
          have hsurplus : (bytes.drop headerEnd).length > header.bodyLength ↔
              bytes.length > headerEnd + header.bodyLength := by
            rw [List.length_drop]
            omega
          rw [readRpcBody_eq]
          simp only [hsurplus]

/-- The header, and at most one read from its last byte on. -/
theorem seenBytes_le (reader : ChunkedReader) {headerEnd : Nat}
    (h : scanRpcHeader reader.rest = some (.ok headerEnd)) :
    seenBytes reader ≤ reader.rest.length ∧ seenBytes reader < headerEnd + rpcChunkBytes := by
  obtain ⟨hfour, hle, hfirst, _⟩ := scanRpcHeader_first h
  have hlength := congrArg List.length (readUntil_stream reader)
  rw [List.length_append] at hlength
  have hbound : seenBytes reader ≤ headerEnd - 1 + rpcChunkBytes := by
    refine ChunkedReader.length_readUntil_le ?_ (Nat.zero_le _)
    intro front rest hfront hnone
    -- undecided bytes end before the header does
    have hshort : front.length < headerEnd := by
      by_contra hlong
      have hbegins : reader.rest.take headerEnd = front.take headerEnd := by
        rw [← List.nil_append reader.rest, hfront, List.take_append_of_le_length (by omega)]
      have hsome := stable_scanRpcHeader (front.drop headerEnd) (hbegins ▸ hfirst)
      rw [List.take_append_drop, hnone] at hsome
      cases hsome
    omega
  rw [seenBytes] at hbound ⊢
  exact ⟨by omega, by omega⟩

/-- One byte a read, and then one read of the size `last + 1` for the last byte of the header
and what follows it. -/
theorem seenBytes_cutAt {stream : List UInt8} {headerEnd last : Nat}
    (h : scanRpcHeader stream = some (.ok headerEnd)) (hlast : last < rpcChunkBytes) :
    seenBytes ⟨stream, ChunkedReader.cutAt (headerEnd - 1) last⟩ =
      min (headerEnd + last) stream.length := by
  obtain ⟨hfour, hle, hfirst, hbefore⟩ := scanRpcHeader_first h
  have hread : (ChunkedReader.readUntil scanRpcHeader rpcChunkBytes []
        ⟨stream, ChunkedReader.cutAt (headerEnd - 1) last⟩).2.1 =
      [] ++ stream.take (headerEnd - 1 + min rpcChunkBytes (last + 1)) := by
    refine ChunkedReader.readUntil_cutAt (b := .ok headerEnd) stable_scanRpcHeader (by decide)
      (fun k hk => hbefore k (by omega)) ?_
    rw [Nat.sub_add_cancel (by omega)]
    exact hfirst
  rw [seenBytes, hread, List.nil_append, List.length_take]
  omega

theorem requestOf_ne_surplus (header : RpcHeader) (bytes : List UInt8) :
    requestOf header bytes ≠
      fail (.invalidRpcRequest "request contains bytes after its declared body") := by
  unfold requestOf
  intro h
  by_cases hlength : header.bodyLength ≤ bytes.length
  · rw [require_pos hlength, ok_bind] at h
    by_cases hget : header.method = "GET".toList ∧ bytes.take header.bodyLength ≠ []
    · rw [require_neg (not_not.mpr hget), fail_bind] at h
      injection h with h
      injection h with h
      injection h with h
      exact absurd h (by decide)
    · rw [require_pos hget] at h
      cases h
  · rw [require_neg hlength, fail_bind] at h
    injection h with h
    injection h with h
    injection h with h
    exact absurd h (by decide)

/-! ## Where the cuts matter -/

/-- The stream begins with a header that is accepted and goes on behind the body that it
declares, and the body is so short that one read can hold it with the last byte of the header
and a byte more. -/
def SurplusInReach (stream : List UInt8) : Prop :=
  ∃ headerEnd header, scanRpcHeader stream = some (.ok headerEnd) ∧
    parseRpcHeader (stream.take (headerEnd - 4)) = .ok header ∧
    headerEnd + header.bodyLength < stream.length ∧ header.bodyLength + 2 ≤ rpcChunkBytes

/-- The request, or its rejection, is the same for all cuts of a stream unless a surplus is in
reach. -/
theorem readRpcRequest_invariant_iff (stream : List UInt8) :
    (∀ chunk chunk' : Nat → Nat,
      readRpcRequest ⟨stream, chunk⟩ = readRpcRequest ⟨stream, chunk'⟩) ↔
      ¬SurplusInReach stream := by
  constructor
  · rintro hsame ⟨headerEnd, header, hscan, hparse, hlong, hshort⟩
    have hsplit := hsame (ChunkedReader.cutAt (headerEnd - 1) (header.bodyLength + 1))
      (ChunkedReader.cutAt (headerEnd - 1) 0)
    have hseen := seenBytes_cutAt hscan (show header.bodyLength + 1 < rpcChunkBytes by omega)
    have hunseen := seenBytes_cutAt hscan (show 0 < rpcChunkBytes by decide)
    rw [readRpcRequest_eq, readRpcRequest_eq, hseen, hunseen] at hsplit
    simp only [hscan, hparse, Option.getD_some, ok_bind] at hsplit
    rw [require_neg (by omega), require_pos (by omega), fail_bind, ok_bind] at hsplit
    exact requestOf_ne_surplus header _ hsplit.symm
  · intro hreach chunk chunk'
    rw [readRpcRequest_eq, readRpcRequest_eq]
    dsimp only
    cases hscan : scanRpcHeader stream with
    | none => rfl
    | some outcome =>
        cases outcome with
        | error fault => rfl
        | ok headerEnd =>
            rw [Option.getD_some, ok_bind, ok_bind]
            cases hparse : parseRpcHeader (stream.take (headerEnd - 4)) with
            | error fault => rfl
            | ok header =>
                have hunseen : ∀ chunk,
                    ¬seenBytes ⟨stream, chunk⟩ > headerEnd + header.bodyLength := by
                  intro chunk hseen
                  obtain ⟨hle, hlt⟩ := seenBytes_le ⟨stream, chunk⟩ hscan
                  dsimp only at hle
                  exact hreach ⟨headerEnd, header, hscan, hparse, by omega, by omega⟩
                rw [ok_bind, ok_bind, require_pos (hunseen chunk), require_pos (hunseen chunk')]

/-- `GET /health` with one byte behind it. -/
def healthAndMore : List UInt8 := "GET /health HTTP/1.1\r\n\r\nX".toUTF8.toList

/-- In one read it is rejected, byte by byte it is accepted. -/
theorem readRpcRequest_surplus :
    readRpcRequest ⟨healthAndMore, fun _ => 1023⟩ =
        fail (.invalidRpcRequest "request contains bytes after its declared body") ∧
      readRpcRequest ⟨healthAndMore, fun _ => 0⟩ = .ok {
        method := "GET".toList, target := "/health".toList, contentType := none, body := [] } ∧
      ¬∀ (stream : List UInt8) (chunk chunk' : Nat → Nat),
        readRpcRequest ⟨stream, chunk⟩ = readRpcRequest ⟨stream, chunk'⟩ := by
  have hone : readRpcRequest ⟨healthAndMore, fun _ => 1023⟩ =
      fail (.invalidRpcRequest "request contains bytes after its declared body") := by
    decide +kernel
  have hmany : readRpcRequest ⟨healthAndMore, fun _ => 0⟩ = .ok {
      method := "GET".toList, target := "/health".toList, contentType := none, body := [] } := by
    decide +kernel
  refine ⟨hone, hmany, fun hsame => ?_⟩
  have hboth := hsame healthAndMore (fun _ => 1023) (fun _ => 0)
  rw [hone, hmany] at hboth
  cases hboth

end CommonFoundry
