/-
# `CommonFoundry.Node.PoolFrame` — frames of the pool, read piece by piece

A frame is the length of its body, in four bytes, and the body, a JSON text.  A client keeps
what it has read of a frame in a `FrameReadState`, so that a read that timed out costs
nothing: the next call goes on where the last one stopped.

`parseStream` is what a stream says when it is read at once.  However the stream is cut into
reads, and whichever of them fail, the calls that do not return such a failure return the
values of `parseStream` in order, and then its end for ever.
-/
import CommonFoundry.Lib.Bytes
import CommonFoundry.Lib.InterruptedReader

namespace CommonFoundry

open Lib

def poolMaxFrameBytes : Nat := 16 * 1024

/-- The variants of `PoolError` that a frame returns. -/
inductive FrameError (ε J : Type) where
  | connectionClosed
  | frameLimit
  | io (error : ε)
  | json (error : J)

/-- `FrameReadState`. -/
structure FrameReadState where
  header : List UInt8
  headerOffset : Nat
  body : List UInt8
  bodyOffset : Nat

namespace FrameReadState

def default : FrameReadState where
  header := [0, 0, 0, 0]
  headerOffset := 0
  body := []
  bodyOffset := 0

/-- The bytes of the frame that have been read. -/
def held (state : FrameReadState) : List UInt8 :=
  state.header.take state.headerOffset ++ state.body.take state.bodyOffset

/-- A body is there once the header is complete, and has the length that this says. -/
structure Valid (state : FrameReadState) : Prop where
  header : state.header.length = 4
  headerOffset : state.headerOffset ≤ 4
  bodyOffset : state.bodyOffset ≤ state.body.length
  body : state.body ≠ [] → state.headerOffset = 4 ∧ state.body.length = ofBe state.header ∧
    state.body.length ≤ poolMaxFrameBytes

theorem valid_default : default.Valid :=
  ⟨rfl, Nat.zero_le _, Nat.zero_le _, fun h => absurd rfl h⟩

end FrameReadState

section

variable {ε J T : Type} (decode : List UInt8 → Except J T)

/-- The second half of `read_frame_stateful`: the body, whose length is known. -/
def readBodyStateful (reader : InterruptedReader ε) (state : FrameReadState) :
    Except (FrameError ε J) T × FrameReadState × InterruptedReader ε :=
  match reader.fill state.body state.bodyOffset with
  | (.closed, body, bodyOffset, reader) =>
      (.error .connectionClosed, { state with body, bodyOffset }, reader)
  | (.failed error, body, bodyOffset, reader) =>
      (.error (.io error), { state with body, bodyOffset }, reader)
  | (.full, body, bodyOffset, reader) =>
      match decode body with
      | .error error => (.error (.json error), { state with body, bodyOffset }, reader)
      | .ok decoded => (.ok decoded, .default, reader)

/-- `serde_json::from_slice` is the parameter. -/
def readFrameStateful (reader : InterruptedReader ε) (state : FrameReadState) :
    Except (FrameError ε J) T × FrameReadState × InterruptedReader ε :=
  match reader.fill state.header state.headerOffset with
  | (.closed, header, headerOffset, reader) =>
      (.error .connectionClosed, { state with header, headerOffset }, reader)
  | (.failed error, header, headerOffset, reader) =>
      (.error (.io error), { state with header, headerOffset }, reader)
  | (.full, header, headerOffset, reader) =>
      let state := { state with header, headerOffset }
      if state.body = [] then
        let length := ofBe state.header
        if length = 0 ∨ length > poolMaxFrameBytes then (.error .frameLimit, state, reader)
        else readBodyStateful decode reader { state with body := List.replicate length 0 }
      else readBodyStateful decode reader state

/-- So many calls, one after the other: what they return, and what they leave. -/
def readFrames : Nat → InterruptedReader ε → FrameReadState →
    List (Except (FrameError ε J) T) × FrameReadState × InterruptedReader ε
  | 0, reader, state => ([], state, reader)
  | calls + 1, reader, state =>
      let (result, state, reader) := readFrameStateful decode reader state
      let (results, state, reader) := readFrames calls reader state
      (result :: results, state, reader)

/-! ## The whole stream -/

/-- The first frame of a stream: its body, the value of it, and the bytes behind. -/
def parseFrame (ε : Type) (stream : List UInt8) :
    Except (FrameError ε J) (List UInt8 × T × List UInt8) :=
  if stream.length < 4 then .error .connectionClosed
  else
    let length := ofBe (stream.take 4)
    if length = 0 ∨ length > poolMaxFrameBytes then .error .frameLimit
    else if (stream.drop 4).length < length then .error .connectionClosed
    else
      let body := (stream.drop 4).take length
      match decode body with
      | .error error => .error (.json error)
      | .ok decoded => .ok (body, decoded, (stream.drop 4).drop length)

/-- A frame is some bytes of its stream. -/
theorem parseFrame_eq_ok {stream body rest : List UInt8} {decoded : T}
    (h : parseFrame decode ε stream = .ok (body, decoded, rest)) :
    decode body = .ok decoded ∧ body ≠ [] ∧
      ∃ header, header.length = 4 ∧ ofBe header = body.length ∧ stream = header ++ body ++ rest := by
  rw [parseFrame] at h
  split at h
  · cases h
  · next hlong =>
      dsimp only at h
      split at h
      · cases h
      · next hlimit =>
          split at h
          · cases h
          · next hbody =>
              split at h
              · cases h
              · next found hdecode =>
                  cases h
                  have hlength : ((stream.drop 4).take (ofBe (stream.take 4))).length =
                      ofBe (stream.take 4) := by
                    rw [List.length_take]
                    omega
                  refine ⟨hdecode, fun hnil => ?_, stream.take 4, ?_, hlength.symm, ?_⟩
                  · rw [hnil] at hlength
                    exact hlimit (.inl hlength.symm)
                  · rw [List.length_take]
                    omega
                  · rw [List.append_assoc, List.take_append_drop, List.take_append_drop]

/-- The frames of a stream, each with its body, and the error at their end. -/
def parseStream (ε : Type) (stream : List UInt8) :
    List (List UInt8 × T) × FrameError ε J :=
  match _h : parseFrame decode ε stream with
  | .error error => ([], error)
  | .ok (body, decoded, rest) =>
      let (frames, error) := parseStream ε rest
      ((body, decoded) :: frames, error)
termination_by stream.length
decreasing_by
  obtain ⟨_, _, header, hheader, _, rfl⟩ := parseFrame_eq_ok decode _h
  rw [List.length_append, List.length_append, hheader]
  omega

/-! ## One call -/

theorem parseFrame_of_short {stream : List UInt8} (h : stream.length < 4) :
    parseFrame decode ε stream = .error .connectionClosed :=
  if_pos h

/-- The first frame behind a header of a length that is not allowed. -/
theorem parseFrame_of_limit {header : List UInt8} (hheader : header.length = 4)
    (hlimit : ofBe header = 0 ∨ ofBe header > poolMaxFrameBytes) (rest : List UInt8) :
    parseFrame decode ε (header ++ rest) = .error .frameLimit := by
  rw [parseFrame, if_neg (by rw [List.length_append]; omega), List.take_left' hheader]
  exact if_pos hlimit

/-- The first frame behind a header of an allowed length. -/
theorem parseFrame_of_header {header : List UInt8} (hheader : header.length = 4)
    (hlimit : ¬(ofBe header = 0 ∨ ofBe header > poolMaxFrameBytes)) (rest : List UInt8) :
    parseFrame decode ε (header ++ rest) =
      if rest.length < ofBe header then .error .connectionClosed
      else match decode (rest.take (ofBe header)) with
        | .error error => .error (.json error)
        | .ok decoded => .ok (rest.take (ofBe header), decoded, rest.drop (ofBe header)) := by
  rw [parseFrame, if_neg (by rw [List.length_append]; omega), List.take_left' hheader,
    List.drop_left' hheader]
  exact if_neg hlimit

/-- What a call returned and left, told from the stream that it began with: the first frame,
a failed read, or the end. -/
def FrameReads (failures : Nat) (stream : List UInt8) (failures' : Nat) (stream' : List UInt8) :
    Except (FrameError ε J) T → Prop
  | .ok decoded => ∃ body, parseFrame decode ε stream = .ok (body, decoded, stream')
  | .error (.io _) => stream' = stream ∧ failures' < failures
  | .error error => stream' = stream ∧ parseFrame decode ε stream = .error error

/-- The bytes of the frame in progress, and those not read yet. -/
def pending (state : FrameReadState) (reader : InterruptedReader ε) : List UInt8 :=
  state.held ++ reader.rest

theorem readBodyStateful_spec {reader reader' : InterruptedReader ε}
    {state state' : FrameReadState} {result : Except (FrameError ε J) T} (hvalid : state.Valid)
    (hbody : state.body ≠ []) (h : readBodyStateful decode reader state = (result, state', reader')) :
    state'.Valid ∧ reader'.failures ≤ reader.failures ∧
      FrameReads decode reader.failures (pending state reader) reader'.failures
        (pending state' reader') result := by
  obtain ⟨hoffset, hlength, hmax⟩ := hvalid.body hbody
  have hnonempty := List.length_pos_iff.mpr hbody
  have hlimit : ¬(ofBe state.header = 0 ∨ ofBe state.header > poolMaxFrameBytes) := by omega
  -- the header is complete
  have hheld : ∀ (body : List UInt8) (bodyOffset : Nat),
      ({ state with body, bodyOffset } : FrameReadState).held =
        state.header ++ body.take bodyOffset := fun body bodyOffset => by
    rw [FrameReadState.held, List.take_of_length_le (by rw [hvalid.header]; exact hoffset.ge)]
  have hbegin : pending state reader =
      state.header ++ (state.body.take state.bodyOffset ++ reader.rest) := by
    rw [pending, ← List.append_assoc]
    exact congrArg (· ++ reader.rest) (hheld state.body state.bodyOffset)
  rw [readBodyStateful] at h
  cases hfill : reader.fill state.body state.bodyOffset with
  | mk ends after =>
      obtain ⟨body, bodyOffset, left⟩ := after
      rw [hfill] at h
      obtain ⟨hsame, hle, hstream, hfailures, hstops⟩ :=
        InterruptedReader.fill_spec hvalid.bodyOffset hfill
      have hkept : ({ state with body, bodyOffset } : FrameReadState).Valid :=
        ⟨hvalid.header, hvalid.headerOffset, hsame ▸ hle,
          fun _ => ⟨hoffset, hsame.trans hlength, hsame.trans_le hmax⟩⟩
      have hpending : pending { state with body, bodyOffset } left = pending state reader := by
        rw [hbegin, ← hstream, pending, hheld, List.append_assoc]
      rw [← hpending]
      cases ends with
      | closed =>
          obtain ⟨rfl, rfl, rfl⟩ : result = _ ∧ state' = _ ∧ reader' = _ := by
            simpa only [Prod.mk.injEq, eq_comm] using h
          obtain ⟨hshort, hend⟩ := hstops
          refine ⟨hkept, hfailures, rfl, ?_⟩
          rw [pending, hheld, List.append_assoc,
            parseFrame_of_header decode hvalid.header hlimit, if_pos]
          rw [hend, List.append_nil, List.length_take]
          omega
      | failed error =>
          obtain ⟨rfl, rfl, rfl⟩ : result = _ ∧ state' = _ ∧ reader' = _ := by
            simpa only [Prod.mk.injEq, eq_comm] using h
          exact ⟨hkept, hfailures, rfl, hstops⟩
      | full =>
          obtain rfl : bodyOffset = _ := hstops
          have hfull : body.take state.body.length = body :=
            List.take_of_length_le hsame.le
          have hparse : parseFrame decode ε (pending { state with body, bodyOffset := state.body.length } left) =
              match decode body with
              | .error error => .error (.json error)
              | .ok decoded => .ok (body, decoded, left.rest) := by
            rw [pending, hheld, List.append_assoc,
              parseFrame_of_header decode hvalid.header hlimit, hfull, ← hlength, ← hsame,
              if_neg (by rw [List.length_append]; omega), List.take_left' rfl, List.drop_left' rfl]
          dsimp only at h
          cases hdecode : decode body with
          | error error =>
              rw [hdecode] at h hparse
              obtain ⟨rfl, rfl, rfl⟩ : result = _ ∧ state' = _ ∧ reader' = _ := by
                simpa only [Prod.mk.injEq, eq_comm] using h
              exact ⟨hkept, hfailures, rfl, hparse⟩
          | ok decoded =>
              rw [hdecode] at h hparse
              obtain ⟨rfl, rfl, rfl⟩ : result = _ ∧ state' = _ ∧ reader' = _ := by
                simpa only [Prod.mk.injEq, eq_comm] using h
              exact ⟨FrameReadState.valid_default, hfailures, body, hparse⟩

theorem FrameReads.mono {failures more failures' : Nat} {stream stream' : List UInt8}
    {result : Except (FrameError ε J) T} (hle : failures ≤ more)
    (h : FrameReads decode failures stream failures' stream' result) :
    FrameReads decode more stream failures' stream' result := by
  cases result with
  | ok decoded => exact h
  | error error =>
      cases error with
      | io error => exact ⟨h.1, h.2.trans_le hle⟩
      | connectionClosed => exact h
      | frameLimit => exact h
      | json error => exact h

theorem readFrameStateful_spec {reader reader' : InterruptedReader ε}
    {state state' : FrameReadState} {result : Except (FrameError ε J) T} (hvalid : state.Valid)
    (h : readFrameStateful decode reader state = (result, state', reader')) :
    state'.Valid ∧ reader'.failures ≤ reader.failures ∧
      FrameReads decode reader.failures (pending state reader) reader'.failures
        (pending state' reader') result := by
  rw [readFrameStateful] at h
  by_cases hbody : state.body = []
  · have hzero : state.bodyOffset = 0 := by
      have hle := hvalid.bodyOffset
      rw [hbody] at hle
      exact Nat.le_zero.mp hle
    -- no byte of a body yet
    have hheld : ∀ (header : List UInt8) (headerOffset : Nat),
        ({ state with header, headerOffset } : FrameReadState).held =
          header.take headerOffset := fun header headerOffset => by
      rw [FrameReadState.held, hzero, List.take_zero, List.append_nil]
    cases hfill : reader.fill state.header state.headerOffset with
    | mk ends after =>
        obtain ⟨header, headerOffset, left⟩ := after
        rw [hfill] at h
        obtain ⟨hsame, hle, hstream, hfailures, hstops⟩ :=
          InterruptedReader.fill_spec (hvalid.header ▸ hvalid.headerOffset) hfill
        rw [hvalid.header] at hsame hle hstops
        have hkept : ({ state with header, headerOffset } : FrameReadState).Valid :=
          ⟨hsame, hle, hvalid.bodyOffset, fun h => absurd hbody h⟩
        have hpending : pending { state with header, headerOffset } left = pending state reader := by
          rw [pending, hheld, hstream]
          exact congrArg (· ++ reader.rest) (hheld state.header state.headerOffset).symm
        rw [← hpending]
        cases ends with
        | closed =>
            obtain ⟨rfl, rfl, rfl⟩ : result = _ ∧ state' = _ ∧ reader' = _ := by
              simpa only [Prod.mk.injEq, eq_comm] using h
            obtain ⟨hshort, hend⟩ := hstops
            refine ⟨hkept, hfailures, rfl, parseFrame_of_short decode ?_⟩
            rw [pending, hheld, hend, List.append_nil, List.length_take]
            omega
        | failed error =>
            obtain ⟨rfl, rfl, rfl⟩ : result = _ ∧ state' = _ ∧ reader' = _ := by
              simpa only [Prod.mk.injEq, eq_comm] using h
            exact ⟨hkept, hfailures, rfl, hstops⟩
        | full =>
            obtain rfl : headerOffset = 4 := hstops
            have hfull : header.take 4 = header := List.take_of_length_le hsame.le
            dsimp only at h
            rw [if_pos hbody] at h
            split at h
            · next hlimit =>
                obtain ⟨rfl, rfl, rfl⟩ : result = _ ∧ state' = _ ∧ reader' = _ := by
                  simpa only [Prod.mk.injEq, eq_comm] using h
                refine ⟨hkept, hfailures, rfl, ?_⟩
                rw [pending, hheld, hfull]
                exact parseFrame_of_limit decode hsame hlimit _
            · next hlimit =>
                have hlength : (List.replicate (ofBe header) (0 : UInt8)).length = ofBe header :=
                  List.length_replicate
                have hstart : ({ state with
                    header, headerOffset := 4, body := List.replicate (ofBe header) 0 } :
                      FrameReadState).Valid :=
                  ⟨hsame, le_refl _, by rw [hzero]; exact Nat.zero_le _,
                    fun _ => ⟨rfl, hlength, by rw [hlength]; omega⟩⟩
                have hnonempty : List.replicate (ofBe header) (0 : UInt8) ≠ [] := fun hnil => by
                  rw [List.replicate_eq_nil_iff] at hnil
                  exact hlimit (.inl hnil)
                obtain ⟨hafter, hless, hreads⟩ := readBodyStateful_spec decode hstart hnonempty h
                refine ⟨hafter, hless.trans hfailures, ?_⟩
                have hbegin : pending { state with
                    header, headerOffset := 4, body := List.replicate (ofBe header) 0 } left =
                      pending { state with header, headerOffset := 4 } left := by
                  rw [pending, pending, hheld, FrameReadState.held, hzero, List.take_zero,
                    List.append_nil]
                rw [hbegin] at hreads
                exact hreads.mono decode hfailures
  · -- the header is complete, so nothing is read for it
    obtain ⟨hoffset, _⟩ := hvalid.body hbody
    have hfill : reader.fill state.header state.headerOffset =
        (.full, state.header, state.headerOffset, reader) := by
      rw [InterruptedReader.fill, if_neg (by rw [hvalid.header, hoffset]; exact Nat.lt_irrefl 4)]
    rw [hfill] at h
    dsimp only at h
    rw [if_neg hbody] at h
    exact readBodyStateful_spec decode hvalid hbody h

/-! ## Many calls -/

/-- Whether a call did more than fail to read. -/
def isSettled : Except (FrameError ε J) T → Bool
  | .error (.io _) => false
  | _ => true

theorem FrameReads.unsettled {failures failures' : Nat} {stream stream' : List UInt8}
    {error : FrameError ε J}
    (h : FrameReads decode failures stream failures' stream' (.error error))
    (hsettled : isSettled (T := T) (.error error) = false) :
    stream' = stream ∧ failures' < failures := by
  cases error with
  | io error => exact h
  | connectionClosed => cases hsettled
  | frameLimit => cases hsettled
  | json error => cases hsettled

theorem FrameReads.terminal {failures failures' : Nat} {stream stream' : List UInt8}
    {error : FrameError ε J}
    (h : FrameReads decode failures stream failures' stream' (.error error))
    (hsettled : isSettled (T := T) (.error error) = true) :
    stream' = stream ∧ parseFrame decode ε stream = .error error := by
  cases error with
  | io error => cases hsettled
  | connectionClosed => exact h
  | frameLimit => exact h
  | json error => exact h

/-- The bytes of a frame with this body. -/
def frameBytes (body : List UInt8) : List UInt8 := toBe 4 body.length ++ body

/-- The first results of a stream of these frames that ends so: the values of the frames, and
from then on the error. -/
def firstResults (frames : List (List UInt8 × T)) (terminal : FrameError ε J) (count : Nat) :
    List (Except (FrameError ε J) T) :=
  (frames.map (fun frame : List UInt8 × T => Except.ok frame.2) ++
    List.replicate count (Except.error terminal)).take count

theorem firstResults_nil (terminal : FrameError ε J) (count : Nat) :
    firstResults ([] : List (List UInt8 × T)) terminal (count + 1) =
      .error terminal :: firstResults [] terminal count := by
  rw [firstResults, List.map_nil, List.nil_append, List.replicate_succ, List.take_succ_cons]
  rfl

theorem firstResults_cons (frame : List UInt8 × T) (frames : List (List UInt8 × T))
    (terminal : FrameError ε J) (count : Nat) :
    firstResults (frame :: frames) terminal (count + 1) =
      .ok frame.2 :: firstResults frames terminal count := by
  rw [firstResults, List.map_cons, List.cons_append, List.take_succ_cons, firstResults,
    List.take_append, List.take_append, List.take_replicate, List.take_replicate,
    Nat.min_eq_left (Nat.sub_le _ _), Nat.min_eq_left ((Nat.sub_le _ _).trans (Nat.le_succ _))]

theorem parseStream_of_ok {stream body rest : List UInt8} {decoded : T}
    (h : parseFrame decode ε stream = .ok (body, decoded, rest)) :
    parseStream decode ε stream =
      ((body, decoded) :: (parseStream decode ε rest).1, (parseStream decode ε rest).2) := by
  rw [parseStream]
  split
  all_goals rename_i heq; rw [h] at heq; cases heq
  rfl

theorem parseStream_of_error {stream : List UInt8} {error : FrameError ε J}
    (h : parseFrame decode ε stream = .error error) :
    parseStream decode ε stream = ([], error) := by
  rw [parseStream]
  split
  all_goals rename_i heq; rw [h] at heq; cases heq
  rfl

/-- The calls go through the frames of the stream, and each byte of it is in a frame that was
returned, in the frame in progress, or still to be read. -/
theorem readFrames_spec {calls : Nat} {reader reader' : InterruptedReader ε}
    {state state' : FrameReadState} {results : List (Except (FrameError ε J) T)}
    (hvalid : state.Valid)
    (h : readFrames decode calls reader state = (results, state', reader')) :
    results.filter isSettled = firstResults (parseStream decode ε (pending state reader)).1
        (parseStream decode ε (pending state reader)).2 (results.filter isSettled).length ∧
      results.length = calls ∧
      calls + reader'.failures ≤ (results.filter isSettled).length + reader.failures ∧
      pending state reader =
        ((parseStream decode ε (pending state reader)).1.take
          (results.filter isSettled).length).flatMap (fun frame => frameBytes frame.1) ++
        pending state' reader' := by
  induction calls generalizing reader state results with
  | zero =>
      obtain ⟨rfl, rfl, rfl⟩ : results = _ ∧ state' = _ ∧ reader' = _ := by
        simpa only [readFrames, Prod.mk.injEq, eq_comm] using h
      exact ⟨rfl, rfl, le_refl _, rfl⟩
  | succ calls ih =>
      rw [readFrames] at h
      cases hcall : readFrameStateful decode reader state with
      | mk result after =>
          obtain ⟨middle, left⟩ := after
          rw [hcall] at h
          dsimp only at h
          cases hrest : readFrames decode calls left middle with
          | mk later last =>
              obtain ⟨final, remaining⟩ := last
              rw [hrest] at h
              obtain ⟨rfl, rfl, rfl⟩ : results = _ ∧ state' = _ ∧ reader' = _ := by
                simpa only [Prod.mk.injEq, eq_comm] using h
              obtain ⟨hmiddle, hfailures, hreads⟩ := readFrameStateful_spec decode hvalid hcall
              obtain ⟨hlater, hlength, hcount, hstream⟩ := ih hmiddle hrest
              cases result with
              | ok decoded =>
                  -- one more frame of the stream
                  obtain ⟨body, hparse⟩ := hreads
                  have hframes := parseStream_of_ok decode hparse
                  obtain ⟨_, _, header, hheader, hbody, hbytes⟩ := parseFrame_eq_ok decode hparse
                  have hkeep : (Except.ok decoded :: later).filter isSettled =
                      .ok decoded :: later.filter isSettled := List.filter_cons_of_pos rfl
                  rw [hkeep, hframes, List.length_cons, firstResults_cons, ← hlater,
                    List.take_succ_cons, List.flatMap_cons, List.append_assoc, ← hstream,
                    frameBytes, ← hbody, toBe_ofBe hheader]
                  exact ⟨rfl, congrArg (· + 1) hlength, by omega, hbytes⟩
              | error error =>
                  cases hsettled : isSettled (T := T) (.error error) with
                  | false =>
                      obtain ⟨hsame, hless⟩ := hreads.unsettled decode hsettled
                      have hskip : (.error error :: later).filter isSettled =
                          later.filter isSettled := List.filter_cons_of_neg (by rw [hsettled]; nofun)
                      rw [hskip, ← hsame]
                      exact ⟨hlater, congrArg (· + 1) hlength, by omega, hstream⟩
                  | true =>
                      -- the end, and it stays the end
                      obtain ⟨hsame, hparse⟩ := hreads.terminal decode hsettled
                      have hframes := parseStream_of_error decode hparse
                      have hkeep : (.error error :: later).filter isSettled =
                          .error error :: later.filter isSettled :=
                        List.filter_cons_of_pos hsettled
                      rw [hsame, hframes] at hlater hstream
                      rw [List.take_nil] at hstream
                      rw [hkeep, hframes, List.length_cons, firstResults_nil, ← hlater,
                        List.take_nil]
                      exact ⟨rfl, congrArg (· + 1) hlength, by omega, hstream⟩

/-- However a stream is cut into reads, and whichever reads are interrupted or fail: the
calls, but for those that return such a failure, return what the whole stream says, and no
more calls than that fail; and no byte of the stream is lost or used twice. -/
theorem pool_frames_chunk_invariant (stream : List UInt8) (answers : List (ReadAnswer ε))
    (calls : Nat) :
    let reader : InterruptedReader ε := { rest := stream, answers }
    let (results, state, reader') := readFrames decode calls reader .default
    let (frames, terminal) := parseStream decode ε stream
    let settled := results.filter isSettled
    settled = firstResults frames terminal settled.length ∧
      results.length = calls ∧ calls ≤ settled.length + reader.failures ∧
      stream = (frames.take settled.length).flatMap (fun frame => frameBytes frame.1) ++
        pending state reader' := by
  intro reader
  cases hrun : readFrames decode calls reader .default with
  | mk results after =>
      obtain ⟨hsettled, hlength, hcount, hstream⟩ :=
        readFrames_spec decode FrameReadState.valid_default hrun
      exact ⟨hsettled, hlength, by omega, hstream⟩

end

end CommonFoundry
