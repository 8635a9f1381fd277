/-
# `CommonFoundry.Lib.Canonical` — reading programs that accept only what is written

`Codes` says that a reader undoes a writer.  `Unreads` is the converse: whatever
the reader accepts, the writer writes, byte for byte, wherever there is room for
it.  A reader may check more than the shape of the bytes, and the writer may rely
on what was checked, so `Unreads` carries a postcondition of the value read.

As with `Codes`, the proof for a record is a chain of `Unreads.bind` in the order
of its fields.  The postcondition of the rest of the chain says that the record
keeps the field that was just read; at the end of the chain it is `rfl`.

`Total` readers never abort, and `Canonical` is what a whole format has when all
of this holds of it and no encoding is a proper prefix of another.
-/
import CommonFoundry.Lib.Codec

namespace Lib

open Outcome

namespace Codec

variable {ω ε α β : Type}

/-! ## Outputs -/

/-- How an output grows: `room w n` when `n` more bytes fit, and `push w bs` is
the output with `bs` appended. -/
structure Sink (ω : Type) where
  room : ω → Nat → Prop
  push : ω → List UInt8 → ω
  push_nil : ∀ w, push w [] = w
  push_append : ∀ w bs bs', push w (bs ++ bs') = push (push w bs) bs'
  room_append : ∀ w (bs : List UInt8) n, room w (bs.length + n) →
    room w bs.length ∧ room (push w bs) n

variable {S : Sink ω}

/-- Wherever there is room for `bs`, `enc` appends them. -/
def Emits (S : Sink ω) (enc : Writing ω ε Unit) (bs : List UInt8) : Prop :=
  ∀ w, S.room w bs.length → enc w = .ok ((), S.push w bs)

theorem Emits.done : Emits (ε := ε) S (pure ()) [] := by
  intro w _
  rw [S.push_nil]
  rfl

theorem Emits.seq {enc enc' : Writing ω ε Unit} {bs bs' : List UInt8} (h : Emits S enc bs)
    (h' : Emits S enc' bs') : Emits S (enc >>= fun _ => enc') (bs ++ bs') := by
  intro w hroom
  rw [List.length_append] at hroom
  obtain ⟨hfirst, hsecond⟩ := S.room_append w bs _ hroom
  rw [bind_apply, h w hfirst, ok_bind, S.push_append]
  exact h' _ hsecond

/-- A check of the writer that passes. -/
theorem Emits.after {γ : Type} {x : Outcome ε γ} {v : γ} {enc : γ → Writing ω ε Unit}
    {bs : List UInt8} (hx : x = .ok v) (h : Emits S (enc v) bs) :
    Emits S (liftM x >>= enc) bs := by
  subst hx
  exact h

/-! ## What is read is what is written -/

/-- Whatever `dec` reads off the front of a string, `enc` writes. -/
def Unreads (S : Sink ω) (dec : Reader ε α) (enc : α → Writing ω ε Unit) (post : α → Prop) :
    Prop :=
  ∀ input a rest, dec input = .ok (a, rest) →
    post a ∧ ∃ bs, input = bs ++ rest ∧ Emits S (enc a) bs

namespace Unreads

variable {dec : Reader ε α} {enc : α → Writing ω ε Unit} {post : α → Prop}

theorem mono {post' : α → Prop} (h : Unreads S dec enc post) (himp : ∀ a, post a → post' a) :
    Unreads S dec enc post' := by
  intro input a rest hdec
  obtain ⟨hpost, hbs⟩ := h input a rest hdec
  exact ⟨himp a hpost, hbs⟩

/-- Nothing is read, and nothing written. -/
theorem pure {enc : α → Writing ω ε Unit} {a : α} (henc : Emits S (enc a) []) (hpost : post a) :
    Unreads S (Pure.pure a : Reader ε α) enc post := by
  intro input b rest hdec
  cases hdec
  exact ⟨hpost, [], rfl, henc⟩

/-- The first field of a program that succeeded, and the rest of the program. -/
theorem peel {f : α → Reader ε β} (h : Unreads S dec enc post) {input rest : List UInt8} {b : β}
    (hdec : (dec >>= f) input = .ok (b, rest)) :
    ∃ a mid bs, post a ∧ input = bs ++ mid ∧ Emits S (enc a) bs ∧ f a mid = .ok (b, rest) := by
  rw [bind_apply, bind_eq_ok] at hdec
  obtain ⟨⟨a, mid⟩, ha, hb⟩ := hdec
  obtain ⟨hpost, bs, hinput, henc⟩ := h input a mid ha
  exact ⟨a, mid, bs, hpost, hinput, henc, hb⟩

/-- One field after another: what follows keeps the field that was read. -/
theorem bind {f : α → Reader ε β} {first second : β → Writing ω ε Unit} {post' : β → Prop}
    (h : Unreads S dec enc post)
    (h' : ∀ a, post a → Unreads S (f a) second fun b => first b = enc a ∧ post' b) :
    Unreads S (dec >>= f) (fun b => first b >>= fun _ => second b) post' := by
  intro input b rest hdec
  obtain ⟨a, mid, bs, hpost, rfl, henc, hb⟩ := h.peel hdec
  obtain ⟨⟨hfirst, hpost'⟩, bs', rfl, hsecond⟩ := h' a hpost mid b rest hb
  exact ⟨hpost', bs ++ bs', (List.append_assoc ..).symm, (hfirst ▸ henc).seq hsecond⟩

/-- The last field, followed by the construction of the record. -/
theorem map {g : α → β} {last : β → Writing ω ε Unit} {post' : β → Prop}
    (h : Unreads S dec enc post) (hlast : ∀ a, last (g a) = enc a)
    (hpost' : ∀ a, post a → post' (g a)) :
    Unreads S (dec >>= fun a => Pure.pure (g a)) last post' := by
  intro input b rest hdec
  obtain ⟨a, mid, bs, hpost, rfl, henc, hb⟩ := h.peel hdec
  cases hb
  refine ⟨hpost' a hpost, bs, rfl, ?_⟩
  rw [hlast]
  exact henc

/-- The last field, followed by a call that makes the value of it. -/
theorem finish {x : α → Outcome ε β} {last : β → Writing ω ε Unit} {post' : β → Prop}
    (h : Unreads S dec enc post)
    (h' : ∀ a b, post a → x a = .ok b → last b = enc a ∧ post' b) :
    Unreads S (dec >>= fun a => liftM (x a)) last post' := by
  intro input b rest hdec
  obtain ⟨a, mid, bs, hpost, rfl, henc, hb⟩ := h.peel hdec
  obtain ⟨hx, rfl⟩ := lift_eq_ok.mp hb
  obtain ⟨hlast, hpost'⟩ := h' a b hpost hx
  exact ⟨hpost', bs, rfl, hlast ▸ henc⟩

/-- A check of the reader. -/
theorem check {γ : Type} {x : Outcome ε γ} {f : γ → Reader ε α}
    (h : ∀ v, x = .ok v → Unreads S (f v) enc post) :
    Unreads S (liftM x >>= f) enc post := by
  intro input a rest hdec
  obtain ⟨v, hx, hdec⟩ := lift_bind_eq_ok.mp hdec
  exact h v hx input a rest hdec

/-- A reader that accepts nothing. -/
theorem fail {e : ε} : Unreads S (fun _ => Outcome.fail e : Reader ε α) enc post := by
  intro input a rest hdec
  cases hdec

theorem many (h : Unreads S dec enc post) (n : Nat) :
    Unreads S (readMany dec n) (writeMany enc) fun l => l.length = n ∧ ∀ a ∈ l, post a := by
  induction n with
  | zero => exact pure Emits.done ⟨rfl, fun _ hmem => by cases hmem⟩
  | succ n ih =>
      intro input l rest hdec
      rw [readMany] at hdec
      obtain ⟨a, mid, bs, hpost, rfl, henc, hdec⟩ := h.peel hdec
      obtain ⟨l', mid', bs', ⟨hlen, hall⟩, rfl, hwrite, hdec⟩ := ih.peel hdec
      cases hdec
      refine ⟨⟨congrArg (· + 1) hlen, ?_⟩, bs ++ bs', (List.append_assoc ..).symm, ?_⟩
      · exact List.forall_mem_cons.mpr ⟨hpost, hall⟩
      · exact henc.seq hwrite

end Unreads

/-! ## Readers that never abort -/

def Total (dec : Reader ε α) : Prop := ∀ input, NoPanic (dec input)

namespace Total

theorem pure (a : α) : Total (Pure.pure a : Reader ε α) := fun _ => .ok

theorem fail {e : ε} : Total (fun _ => Outcome.fail e : Reader ε α) := fun _ => .fail

theorem lift {x : Outcome ε α} (h : NoPanic x) : Total (liftM x : Reader ε α) := by
  intro input
  cases x with
  | ok a => exact .ok
  | error e =>
      intro hpanic
      exact h (by cases hpanic; rfl)

theorem bind {dec : Reader ε α} {f : α → Reader ε β} (h : Total dec) (h' : ∀ a, Total (f a)) :
    Total (dec >>= f) := by
  intro input
  rw [bind_apply]
  exact (h input).bind fun p _ => h' p.1 p.2

/-- A check, and what follows it. -/
theorem check {x : Outcome ε α} {f : α → Reader ε β} (h : NoPanic x) (h' : ∀ a, Total (f a)) :
    Total (liftM x >>= f) := (lift h).bind h'

theorem many {dec : Reader ε α} (h : Total dec) : ∀ n, Total (readMany dec n)
  | 0 => pure []
  | n + 1 => h.bind fun _ => (many h n).bind fun _ => pure _

end Total

/-! ## Whole formats -/

/-- A format in which every value has at most one encoding, the decoder accepts
exactly the encodings, and nothing that extends or shortens one.  `Encodes a bs`
says that `bs` is the encoding of `a`. -/
structure Canonical (Encodes : α → List UInt8 → Prop) (decode : List UInt8 → Outcome ε α) :
    Prop where
  accepts : ∀ a bs, decode bs = .ok a ↔ Encodes a bs
  unique : ∀ a bs bs', Encodes a bs → Encodes a bs' → bs = bs'
  noPanic : ∀ bs, NoPanic (decode bs)
  trailing : ∀ a bs extra, decode bs = .ok a → extra ≠ [] → ∃ e, decode (bs ++ extra) = fail e
  truncated : ∀ a bs cut, decode bs = .ok a → cut < bs.length → ∃ e, decode (bs.take cut) = fail e

/-- A call that neither succeeds nor aborts returns an error. -/
theorem exists_fail {x : Outcome ε α} (h : NoPanic x) (hnot : ∀ a, x ≠ .ok a) :
    ∃ e, x = Outcome.fail e := by
  cases x with
  | ok a => exact absurd rfl (hnot a)
  | error fault =>
      cases fault with
      | err e => exact ⟨e, rfl⟩
      | panic => exact absurd rfl h

/-- It is enough that no accepted string is a proper prefix of another one. -/
theorem Canonical.of_no_extension {Encodes : α → List UInt8 → Prop}
    {decode : List UInt8 → Outcome ε α} (haccepts : ∀ a bs, decode bs = .ok a ↔ Encodes a bs)
    (hunique : ∀ a bs bs', Encodes a bs → Encodes a bs' → bs = bs')
    (hpanic : ∀ bs, NoPanic (decode bs))
    (hextend : ∀ a a' bs extra, decode bs = .ok a → decode (bs ++ extra) = .ok a' → extra = []) :
    Canonical Encodes decode := by
  refine ⟨haccepts, hunique, hpanic, ?_, ?_⟩
  · intro a bs extra ha hextra
    exact exists_fail (hpanic _) fun a' ha' => hextra (hextend a a' bs extra ha ha')
  · intro a bs cut ha hcut
    refine exists_fail (hpanic _) fun a' ha' => ?_
    have hdrop : bs.drop cut = [] := by
      refine hextend a' a (bs.take cut) (bs.drop cut) ha' ?_
      rw [List.take_append_drop]
      exact ha
    have hlen := congrArg List.length hdrop
    rw [List.length_drop, List.length_nil] at hlen
    omega

end Codec

end Lib
