/-
# `CommonFoundry.Lib.Codec` — writing programs and the reading programs that undo them

A *reader* consumes a prefix of a byte string; a *writer* appends to an output
and may fail (a limit is reached, a value has no encoding).  Both are state
monads over `Outcome`, so a codec is two `do` blocks that look like the code
they model.

`Codes out enc dec a` relates the two: whenever `enc` succeeds it has appended
some bytes from which `dec` reads back `a`, whatever follows them.  The bytes are
never named, so the proof that a record survives is a chain of `Codes.bind`, one
link per field, in the order of the fields.

`out` extracts the bytes written so far; a writer may keep a limit and a name for
its error messages beside them.
-/
import CommonFoundry.Lib.Outcome
import CommonFoundry.Lib.Bytes

namespace Lib

/-- Read a value off the front of a byte string. -/
abbrev Reader (ε α : Type) := StateT (List UInt8) (Outcome ε) α

/-- Append to an output held in a state `ω`. -/
abbrev Writing (ω ε α : Type) := StateT ω (Outcome ε) α

namespace Codec

variable {ω ε α β : Type}

/-- Read `n` values with `dec`, in order. -/
def readMany (dec : Reader ε α) : Nat → Reader ε (List α)
  | 0 => pure []
  | n + 1 => do
      let a ← dec
      let rest ← readMany dec n
      pure (a :: rest)

/-- Write the values of a list with `enc`, in order. -/
def writeMany (enc : α → Writing ω ε Unit) : List α → Writing ω ε Unit
  | [] => pure ()
  | a :: rest => do
      enc a
      writeMany enc rest

/-- `dec` reads `a` off any string that starts with `bs`, and exactly `bs`. -/
def Reads (dec : Reader ε α) (bs : List UInt8) (a : α) : Prop :=
  ∀ rest, dec (bs ++ rest) = .ok (a, rest)

/-- When `enc` succeeds, it appends bytes from which `dec` reads `a`. -/
def Codes (out : ω → List UInt8) (enc : Writing ω ε Unit) (dec : Reader ε α) (a : α) : Prop :=
  ∀ w u w', enc w = .ok (u, w') → ∃ bs, out w' = out w ++ bs ∧ Reads dec bs a

theorem bind_apply (enc : StateT ω (Outcome ε) α) (f : α → StateT ω (Outcome ε) β) (w : ω) :
    (enc >>= f) w = (enc w >>= fun p => f p.1 p.2) := rfl

/-- A call that does not touch the state, and what follows it. -/
theorem lift_bind_eq_ok {x : Outcome ε α} {f : α → StateT ω (Outcome ε) β} {w : ω} {p : β × ω} :
    ((liftM x : StateT ω (Outcome ε) α) >>= f) w = .ok p ↔ ∃ a, x = .ok a ∧ f a w = .ok p := by
  cases x with
  | ok a => exact ⟨fun h => ⟨a, rfl, h⟩, fun ⟨_, ha, h⟩ => by cases ha; exact h⟩
  | error e => exact ⟨fun h => (by cases h), fun ⟨_, ha, _⟩ => (by cases ha)⟩

theorem lift_eq_ok {x : Outcome ε α} {w w' : ω} {a : α} :
    (liftM x : StateT ω (Outcome ε) α) w = .ok (a, w') ↔ x = .ok a ∧ w = w' := by
  cases x with
  | ok b =>
      refine ⟨fun h => by cases h; exact ⟨rfl, rfl⟩, fun ⟨ha, hw⟩ => ?_⟩
      cases ha
      rw [← hw]
      rfl
  | error e => exact ⟨fun h => (by cases h), fun ⟨ha, _⟩ => (by cases ha)⟩

theorem Reads.pure (a : α) : Reads (pure a : Reader ε α) [] a := fun _ => rfl

theorem Reads.bind {dec : Reader ε α} {f : α → Reader ε β} {bs bs' : List UInt8} {a : α} {b : β}
    (h : Reads dec bs a) (h' : Reads (f a) bs' b) : Reads (dec >>= f) (bs ++ bs') b := by
  intro rest
  rw [bind_apply, List.append_assoc, h]
  exact h' rest

/-- A reader that is given exactly the bytes it reads consumes all of them. -/
theorem Reads.all {dec : Reader ε α} {bs : List UInt8} {a : α} (h : Reads dec bs a) :
    dec bs = .ok (a, []) := by
  have h0 := h []
  rwa [List.append_nil] at h0

theorem Reads.map {dec : Reader ε α} {bs : List UInt8} {a : α} (f : α → β)
    (h : Reads dec bs a) : Reads (dec >>= fun x => Pure.pure (f x)) bs (f a) := by
  have h' := h.bind (f := fun x => Pure.pure (f x)) (Reads.pure (ε := ε) (f a))
  rwa [List.append_nil] at h'

variable {out : ω → List UInt8}

theorem Codes.pure (a : α) : Codes (ε := ε) out (pure ()) (pure a) a := by
  rintro w u w' h
  cases h
  exact ⟨[], (List.append_nil _).symm, Reads.pure a⟩

/-- One field after another. -/
theorem Codes.bind {enc enc' : Writing ω ε Unit} {dec : Reader ε α} {f : α → Reader ε β} {a : α}
    {b : β} (h : Codes out enc dec a) (h' : Codes out enc' (f a) b) :
    Codes out (enc >>= fun _ => enc') (dec >>= f) b := by
  rintro w u w'' hw
  rw [bind_apply, Outcome.bind_eq_ok] at hw
  obtain ⟨⟨v, w'⟩, henc, henc'⟩ := hw
  obtain ⟨bs, hout, hreads⟩ := h w v w' henc
  obtain ⟨bs', hout', hreads'⟩ := h' w' u w'' henc'
  refine ⟨bs ++ bs', ?_, hreads.bind hreads'⟩
  rw [hout', hout, List.append_assoc]

/-- The last field, followed by the construction of the record. -/
theorem Codes.map {enc : Writing ω ε Unit} {dec : Reader ε α} {a : α} (f : α → β)
    (h : Codes out enc dec a) : Codes out enc (dec >>= fun x => Pure.pure (f x)) (f a) := by
  rintro w u w' hw
  obtain ⟨bs, hout, hreads⟩ := h w u w' hw
  exact ⟨bs, hout, hreads.map f⟩

/-- A check of the writer that fails writes nothing. -/
theorem Codes.lift_bind {γ : Type} {x : Outcome ε γ} {enc : γ → Writing ω ε Unit}
    {dec : Reader ε α} {a : α} (h : ∀ v, x = .ok v → Codes out (enc v) dec a) :
    Codes out (liftM x >>= enc) dec a := by
  intro w u w' hw
  obtain ⟨v, hx, hw⟩ := lift_bind_eq_ok.mp hw
  exact h v hx w u w' hw

/-- A check of the reader that is known to pass. -/
theorem Codes.bind_lift {γ : Type} {x : Outcome ε γ} {v : γ} {enc : Writing ω ε Unit}
    {f : γ → Reader ε α} {a : α} (hx : x = .ok v) (h : Codes out enc (f v) a) :
    Codes out enc (liftM x >>= f) a := by
  subst hx
  exact h

/-- The last field, followed by a call that makes the value of it. -/
theorem Codes.finish {enc : Writing ω ε Unit} {dec : Reader ε α} {a : α} {x : α → Outcome ε β}
    {b : β} (h : Codes out enc dec a) (hx : x a = .ok b) :
    Codes out enc (dec >>= fun a => liftM (x a)) b := by
  intro w u w' hw
  obtain ⟨bs, hout, hreads⟩ := h w u w' hw
  refine ⟨bs, hout, fun rest => ?_⟩
  rw [bind_apply, hreads rest]
  exact lift_eq_ok.mpr ⟨hx, rfl⟩

theorem codes_many {enc : α → Writing ω ε Unit} {dec : Reader ε α} {l : List α}
    (h : ∀ a ∈ l, Codes out (enc a) dec a) :
    Codes out (writeMany enc l) (readMany dec l.length) l := by
  induction l with
  | nil => exact Codes.pure []
  | cons a l ih =>
      have ih' := ih fun b hb => h b (List.mem_cons_of_mem _ hb)
      exact (h a List.mem_cons_self).bind (ih'.map (a :: ·))

end Codec

end Lib
