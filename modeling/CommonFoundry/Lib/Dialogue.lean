/-
# `CommonFoundry.Lib.Dialogue` — programs that share states and ask each other

Every place has a state behind a lock.  A program works on the state of its own place, one
section at a time, and asks the handler of another place, one question at a time; between any
two of these the states belong to everybody.

`Ensures` is the rule for one program: what it ensures whatever the others do to the states in
between, as long as each change is made of calls.  `Net` is the system: any number of places
and programs, their sections interleaved with each other, with the handlers that answer them
and with calls from outside; an answer may get lost at any time.  `Net.run_ensures` carries
the rule for one program over to every run of the system.

`play` is a program alone with its peer.
-/
import CommonFoundry.Lib.Outcome
import CommonFoundry.Lib.Schedule
import Mathlib.Logic.Function.Basic
import Mathlib.Logic.Relation

namespace Lib

/-- A program on a state of type `S`, which asks `Q` and is answered `A`. -/
inductive Dialogue (S Q A ε R : Type) where
  | done (result : Outcome ε R)
  | locked (update : S → S) (next : S → Dialogue S Q A ε R)
  | ask (request : Q) (next : A → Dialogue S Q A ε R)

/-- A program that answers: it asks nobody. -/
abbrev Handler (S ε B : Type) := Dialogue S Empty Empty ε B

namespace Dialogue

variable {S Q A ε R R' : Type}

/-- Sequencing with early return. -/
def bind : Dialogue S Q A ε R → (R → Dialogue S Q A ε R') → Dialogue S Q A ε R'
  | .done (.ok r), rest => rest r
  | .done (.error fault), _ => .done (.error fault)
  | .locked update next, rest => .locked update fun s => (next s).bind rest
  | .ask request next, rest => .ask request fun a => (next a).bind rest

instance : Monad (Dialogue S Q A ε) where
  pure r := .done (.ok r)
  bind := bind

instance : MonadLift (Outcome ε) (Dialogue S Q A ε) := ⟨.done⟩

/-- One section. -/
def critical (method : S → Outcome ε R × S) : Dialogue S Q A ε R :=
  .locked (fun s => (method s).2) fun s => .done (method s).1

/-- A section that only reads. -/
def read (f : S → R) : Dialogue S Q A ε R := .locked id fun s => .done (.ok (f s))

/-- One question. -/
def question (request : Q) : Dialogue S Q A ε A := .ask request fun a => .done (.ok a)

/-! ## What the sections of a program do to its state -/

/-- Every section takes a state to a later one. -/
def Moves (later : S → S → Prop) : Dialogue S Q A ε R → Prop
  | .done _ => True
  | .locked update next => (∀ s, later s (update s)) ∧ ∀ s, (next s).Moves later
  | .ask _ next => ∀ a, (next a).Moves later

section

variable {later : S → S → Prop} {dialogue : Dialogue S Q A ε R} {rest : R → Dialogue S Q A ε R'}

theorem Moves.bind (h : dialogue.Moves later) (hrest : ∀ r, (rest r).Moves later) :
    (dialogue >>= rest).Moves later := by
  show (dialogue.bind rest).Moves later
  induction dialogue with
  | done result =>
      cases result with
      | ok r => exact hrest r
      | error fault => trivial
  | locked update next ih => exact ⟨h.1, fun s => ih s (h.2 s)⟩
  | ask request next ih => exact fun a => ih a (h a)

theorem Moves.lift {result : Outcome ε R} :
    Moves later (liftM result : Dialogue S Q A ε R) := trivial

theorem Moves.critical {method : S → Outcome ε R × S} (h : ∀ s, later s (method s).2) :
    Moves later (Dialogue.critical method : Dialogue S Q A ε R) :=
  ⟨h, fun _ => trivial⟩

theorem Moves.read (hrefl : ∀ s, later s s) {f : S → R} :
    Moves later (Dialogue.read f : Dialogue S Q A ε R) :=
  ⟨hrefl, fun _ => trivial⟩

theorem Moves.question {request : Q} :
    Moves later (Dialogue.question request : Dialogue S Q A ε A) := fun _ => trivial

end

/-! ## Programs over a medium -/

section

variable {M : Type}

/-- The program stays within a medium that has a state of its own.  `exchange request m after`
says that the medium takes the request and that `after` holds of whatever answer it gives back;
a failure of the program asks nothing. -/
def Within (exchange : Q → M → (A → M → Prop) → Prop) (Post : R → M → Prop) :
    Dialogue S Q A ε R → M → Prop
  | .done (.ok r), m => Post r m
  | .done (.error _), _ => True
  | .locked _ next, m => ∀ s, (next s).Within exchange Post m
  | .ask request next, m => exchange request m fun a m' => (next a).Within exchange Post m'

variable {exchange : Q → M → (A → M → Prop) → Prop} {Post : R' → M → Prop} {m : M}
  {dialogue : Dialogue S Q A ε R} {rest : R → Dialogue S Q A ε R'}

theorem Within.bind {Mid : R → M → Prop}
    (hmono : ∀ {request m} {K K' : A → M → Prop}, (∀ a m, K a m → K' a m) →
      exchange request m K → exchange request m K')
    (h : dialogue.Within exchange Mid m)
    (hrest : ∀ r m, Mid r m → (rest r).Within exchange Post m) :
    (dialogue >>= rest).Within exchange Post m := by
  show (dialogue.bind rest).Within exchange Post m
  induction dialogue generalizing m with
  | done result =>
      cases result with
      | ok r => exact hrest r m h
      | error fault => trivial
  | locked update next ih => exact fun s => ih s (h s)
  | ask request next ih => exact hmono (fun a m' hnext => ih a hnext) h

theorem Within.lift_bind {result : Outcome ε R}
    (hrest : ∀ r, result = .ok r → (rest r).Within exchange Post m) :
    ((liftM result : Dialogue S Q A ε R) >>= rest).Within exchange Post m := by
  cases result with
  | ok r => exact hrest r rfl
  | error fault => trivial

theorem Within.read_bind {f : S → R} (hrest : ∀ s, (rest (f s)).Within exchange Post m) :
    (Dialogue.read f >>= rest : Dialogue S Q A ε R').Within exchange Post m := hrest

theorem Within.critical_bind {method : S → Outcome ε R × S}
    (hrest : ∀ s r, (method s).1 = .ok r → (rest r).Within exchange Post m) :
    (Dialogue.critical method >>= rest : Dialogue S Q A ε R').Within exchange Post m := by
  intro s
  exact Within.lift_bind (S := S) (hrest s)

end

/-! ## A program alone with its peer -/

/-- A handler on its own. -/
def answer {B : Type} : Handler S ε B → S → Outcome ε B × S
  | .done result, s => (result, s)
  | .locked update next, s => (next s).answer (update s)
  | .ask request _, _ => nomatch request

/-- A program whose questions are answered at once, by a peer with a state of its own. -/
def play {T : Type} (reply : Q → T → A × T) : Dialogue S Q A ε R → S → T → Outcome ε R × S × T
  | .done result, s, t => (result, s, t)
  | .locked update next, s, t => (next s).play reply (update s) t
  | .ask request next, s, t => (next (reply request t).1).play reply s (reply request t).2

section

variable {B B' : Type} {s : S}

@[simp] theorem answer_pure {b : B} : (pure b : Handler S ε B).answer s = (.ok b, s) := rfl

@[simp] theorem answer_read {f : S → B} :
    (read f : Handler S ε B).answer s = (.ok (f s), s) := rfl

end

section

variable {T : Type} {reply : Q → T → A × T} {s : S} {t : T}

theorem play_bind {dialogue : Dialogue S Q A ε R} {rest : R → Dialogue S Q A ε R'} :
    (dialogue >>= rest).play reply s t =
      match dialogue.play reply s t with
      | (.ok r, s, t) => (rest r).play reply s t
      | (.error fault, s, t) => (.error fault, s, t) := by
  show (dialogue.bind rest).play reply s t = _
  induction dialogue generalizing s t with
  | done result => cases result <;> rfl
  | locked update next ih => exact ih s
  | ask request next ih => exact ih _

@[simp] theorem play_pure {r : R} :
    (pure r : Dialogue S Q A ε R).play reply s t = (.ok r, s, t) := rfl

section

variable {rest : R → Dialogue S Q A ε R'}

end

end

end Dialogue

/-! ## What a program ensures among others -/

/-- A state that calls lead to. -/
def After {S Op : Type} (perform : Op → S → S) : S → S → Prop :=
  Relation.ReflTransGen fun s s' => ∃ op, s' = perform op s

/-- The same at every place. -/
def AllAfter {S Op ι : Type} (perform : Op → S → S) (states states' : ι → S) : Prop :=
  ∀ i, After perform (states i) (states' i)

section

variable {S Op ι : Type} {perform : Op → S → S} {states states' states'' : ι → S}

theorem After.rfl {s : S} : After perform s s := .refl

theorem After.one {s : S} (op : Op) : After perform s (perform op s) := .single ⟨op, .refl _⟩

theorem AllAfter.refl : AllAfter perform states states := fun _ => .refl

theorem AllAfter.trans (h : AllAfter perform states states')
    (h' : AllAfter perform states' states'') : AllAfter perform states states'' :=
  fun i => (h i).trans (h' i)

theorem AllAfter.update [DecidableEq ι] {i : ι} {s : S} (h : After perform (states i) s) :
    AllAfter perform states (Function.update states i s) := by
  intro j
  by_cases hj : j = i
  · rw [hj, Function.update_self]
    exact h
  · rw [Function.update_of_ne hj]
    exact .refl

end

/-- How a place answers questions: by a handler, which is given what its surroundings answer in
turn.  What else may arrive in place of an answer is `lost`. -/
structure Answering (S W Q A B ε ι : Type) where
  handle : ι → W → Q → Handler S ε B
  deliver : B → A
  lost : A → Bool

section

variable {S W Q A B Op ε ε' R R' ι : Type} [DecidableEq ι] (perform : Op → S → S)

/-- A handler at the place `j` gives only answers that `Post` allows when they arrive. -/
def Served (j : ι) (Post : B → (ι → S) → Prop) : Handler S ε' B → (ι → S) → Prop
  | .done (.ok b), states => ∀ states', AllAfter perform states states' → Post b states'
  | .done (.error _), _ => True
  | .locked update next, states => ∀ states', AllAfter perform states states' →
      Served j Post (next (states' j)) (Function.update states' j (update (states' j)))
  | .ask request _, _ => nomatch request

variable (answering : Answering S W Q A B ε' ι) (i j : ι)

/-- A program at the place `i` that asks the place `j` ends only as `Post` allows. -/
def Ensures (Post : Outcome ε R → (ι → S) → Prop) : Dialogue S Q A ε R → (ι → S) → Prop
  | .done result, states => ∀ states', AllAfter perform states states' → Post result states'
  | .locked update next, states => ∀ states', AllAfter perform states states' →
      Ensures Post (next (states' i)) (Function.update states' i (update (states' i)))
  | .ask request next, states => ∀ states', AllAfter perform states states' →
      (∀ a, answering.lost a = true → Ensures Post (next a) states') ∧
        ∀ w, Served perform j (fun b states'' => Ensures Post (next (answering.deliver b)) states'')
          (answering.handle j w request) states'

variable {perform} {answering} {i j} {states states' : ι → S}

section

variable {Post Post' : B → (ι → S) → Prop} {handler : Handler S ε' B}

theorem Served.after (h : Served perform j Post handler states)
    (hafter : AllAfter perform states states') : Served perform j Post handler states' := by
  cases handler with
  | done result =>
      cases result with
      | ok b => exact fun states'' hlater => h states'' (hafter.trans hlater)
      | error fault => trivial
  | locked update next => exact fun states'' hlater => h states'' (hafter.trans hlater)
  | ask request next => exact nomatch request

theorem Served.mono (h : Served perform j Post handler states)
    (hpost : ∀ b states', Post b states' → Post' b states') :
    Served perform j Post' handler states := by
  induction handler generalizing states with
  | done result =>
      cases result with
      | ok b => exact fun states' hlater => hpost b states' (h states' hlater)
      | error fault => trivial
  | locked update next ih => exact fun states' hlater => ih _ (h states' hlater)
  | ask request next => exact nomatch request

end

section

variable {Post Post' : Outcome ε R → (ι → S) → Prop} {dialogue : Dialogue S Q A ε R}

theorem Ensures.after (h : Ensures perform answering i j Post dialogue states)
    (hafter : AllAfter perform states states') :
    Ensures perform answering i j Post dialogue states' := by
  cases dialogue with
  | done result => exact fun states'' hlater => h states'' (hafter.trans hlater)
  | locked update next => exact fun states'' hlater => h states'' (hafter.trans hlater)
  | ask request next => exact fun states'' hlater => h states'' (hafter.trans hlater)

/-- Sequencing: what the first part ensures is where the second starts. -/
theorem Ensures.bind {rest : R → Dialogue S Q A ε R'} {Post : Outcome ε R' → (ι → S) → Prop}
    (h : Ensures perform answering i j
      (fun result states => match result with
        | .ok r => Ensures perform answering i j Post (rest r) states
        | .error fault => Post (.error fault) states) dialogue states) :
    Ensures perform answering i j Post (dialogue >>= rest) states := by
  show Ensures perform answering i j Post (dialogue.bind rest) states
  induction dialogue generalizing states with
  | done result =>
      cases result with
      | ok r => exact h states .refl
      | error fault => exact h
  | locked update next ih => exact fun states' hlater => ih _ (h states' hlater)
  | ask request next ih =>
      intro states' hlater
      obtain ⟨hlost, hserved⟩ := h states' hlater
      exact ⟨fun a ha => ih a (hlost a ha), fun w => (hserved w).mono fun b _ => ih _⟩

theorem Ensures.mono (h : Ensures perform answering i j Post dialogue states)
    (hpost : ∀ result states', Post result states' → Post' result states') :
    Ensures perform answering i j Post' dialogue states := by
  induction dialogue generalizing states with
  | done result => exact fun states' hlater => hpost result states' (h states' hlater)
  | locked update next ih => exact fun states' hlater => ih _ (h states' hlater)
  | ask request next ih =>
      intro states' hlater
      obtain ⟨hlost, hserved⟩ := h states' hlater
      exact ⟨fun a ha => ih a (hlost a ha), fun w => (hserved w).mono fun b _ => ih _⟩

end

/-- What holds of every answer holds of the handler's. -/
theorem Served.of_forall {Post : B → (ι → S) → Prop} {handler : Handler S ε' B}
    (hmoves : handler.Moves (After perform))
    (h : ∀ states', AllAfter perform states states' → ∀ b, Post b states') :
    Served perform j Post handler states := by
  induction handler generalizing states with
  | done result =>
      cases result with
      | ok b => exact fun states' hafter => h states' hafter b
      | error fault => trivial
  | locked update next ih =>
      intro states' hafter
      exact ih _ (hmoves.2 _) fun states'' hlater =>
        h states'' ((hafter.trans (.update (hmoves.1 _))).trans hlater)
  | ask request next => exact nomatch request

theorem Served.and {Post Post' : B → (ι → S) → Prop} {handler : Handler S ε' B}
    (h : Served perform j Post handler states) (h' : Served perform j Post' handler states) :
    Served perform j (fun b states => Post b states ∧ Post' b states) handler states := by
  induction handler generalizing states with
  | done result =>
      cases result with
      | ok b => exact fun states' hafter => ⟨h states' hafter, h' states' hafter⟩
      | error fault => trivial
  | locked update next ih => exact fun states' hafter => ih _ (h states' hafter) (h' states' hafter)
  | ask request next => exact nomatch request

theorem Ensures.and {Post Post' : Outcome ε R → (ι → S) → Prop} {dialogue : Dialogue S Q A ε R}
    (h : Ensures perform answering i j Post dialogue states)
    (h' : Ensures perform answering i j Post' dialogue states) :
    Ensures perform answering i j (fun result states => Post result states ∧ Post' result states)
      dialogue states := by
  induction dialogue generalizing states with
  | done result => exact fun states' hafter => ⟨h states' hafter, h' states' hafter⟩
  | locked update next ih => exact fun states' hafter => ih _ (h states' hafter) (h' states' hafter)
  | ask request next ih =>
      intro states' hafter
      obtain ⟨hlost, hserved⟩ := h states' hafter
      obtain ⟨hlost', hserved'⟩ := h' states' hafter
      exact ⟨fun a ha => ih a (hlost a ha) (hlost' a ha), fun w =>
        ((hserved w).and (hserved' w)).mono fun b _ hboth => ih _ hboth.1 hboth.2⟩

/-- An end stays one. -/
theorem Ensures.stable {Post : Outcome ε R → (ι → S) → Prop} {dialogue : Dialogue S Q A ε R}
    (h : Ensures perform answering i j Post dialogue states) :
    Ensures perform answering i j
      (fun result states => ∀ states', AllAfter perform states states' → Post result states')
      dialogue states := by
  induction dialogue generalizing states with
  | done result => exact fun states' hafter states'' hlater => h states'' (hafter.trans hlater)
  | locked update next ih => exact fun states' hafter => ih _ (h states' hafter)
  | ask request next ih =>
      intro states' hafter
      obtain ⟨hlost, hserved⟩ := h states' hafter
      exact ⟨fun a ha => ih a (hlost a ha), fun w => (hserved w).mono fun b _ => ih _⟩

/-- A program with its result renamed. -/
theorem Ensures.map {f : R → R'} {Post : Outcome ε R' → (ι → S) → Prop}
    {dialogue : Dialogue S Q A ε R}
    (h : Ensures perform answering i j
      (fun result states => match result with
        | .ok r => Post (.ok (f r)) states
        | .error fault => Post (.error fault) states) dialogue states) :
    Ensures perform answering i j Post (dialogue >>= fun r => pure (f r)) states := by
  refine .bind (h.stable.mono fun result states hpost => ?_)
  cases result with
  | ok r => exact hpost
  | error fault => exact hpost states .refl

/-- The same handlers, and less that may arrive in place of an answer. -/
theorem Ensures.weaken {lost : A → Bool} {Post : Outcome ε R → (ι → S) → Prop}
    {dialogue : Dialogue S Q A ε R}
    (hlost : ∀ a, lost a = true → answering.lost a = true)
    (h : Ensures perform answering i j Post dialogue states) :
    Ensures perform { answering with lost } i j Post dialogue states := by
  induction dialogue generalizing states with
  | done result => exact h
  | locked update next ih => exact fun states' hafter => ih _ (h states' hafter)
  | ask request next ih =>
      intro states' hafter
      obtain ⟨hother, hserved⟩ := h states' hafter
      exact ⟨fun a ha => ih a (hother a (hlost a ha)), fun w => (hserved w).mono fun b _ => ih _⟩

/-! ### Rules, statement by statement -/

section

variable {Post : B → (ι → S) → Prop} {rest : R → Handler S ε' B}

theorem Served.read {f : S → R}
    (h : ∀ states', AllAfter perform states states' →
      Served perform j Post (rest (f (states' j))) states') :
    Served perform j Post (Dialogue.read f >>= rest) states := by
  intro states' hafter
  show Served perform j Post (rest (f (states' j))) (Function.update states' j (states' j))
  rw [Function.update_eq_self]
  exact h states' hafter

theorem Served.critical {method : S → Outcome ε' R × S}
    (h : ∀ states', AllAfter perform states states' → ∀ r, (method (states' j)).1 = .ok r →
      Served perform j Post (rest r) (Function.update states' j (method (states' j)).2)) :
    Served perform j Post (Dialogue.critical method >>= rest) states := by
  intro states' hafter
  have hrest := h states' hafter
  show Served perform j Post (Dialogue.bind (.done (method (states' j)).1) rest) _
  cases hresult : (method (states' j)).1 with
  | ok r => exact hrest r hresult
  | error fault => trivial

end

section

variable {Post : Outcome ε R' → (ι → S) → Prop} {rest : R → Dialogue S Q A ε R'}

theorem Ensures.read {f : S → R}
    (h : ∀ states', AllAfter perform states states' →
      Ensures perform answering i j Post (rest (f (states' i))) states') :
    Ensures perform answering i j Post (Dialogue.read f >>= rest) states := by
  intro states' hafter
  show Ensures perform answering i j Post (rest (f (states' i)))
    (Function.update states' i (states' i))
  rw [Function.update_eq_self]
  exact h states' hafter

theorem Ensures.lift {result : Outcome ε R}
    (hok : ∀ r, result = .ok r → Ensures perform answering i j Post (rest r) states)
    (herror : ∀ fault, result = .error fault →
      ∀ states', AllAfter perform states states' → Post (.error fault) states') :
    Ensures perform answering i j Post (liftM result >>= rest) states := by
  show Ensures perform answering i j Post (Dialogue.bind (.done result) rest) states
  cases hresult : result with
  | ok r => exact hok r hresult
  | error fault => exact herror fault hresult

theorem Ensures.critical {method : S → Outcome ε R × S}
    (hok : ∀ states', AllAfter perform states states' → ∀ r, (method (states' i)).1 = .ok r →
      Ensures perform answering i j Post (rest r)
        (Function.update states' i (method (states' i)).2))
    (herror : ∀ states', AllAfter perform states states' →
      ∀ fault, (method (states' i)).1 = .error fault → ∀ states'',
        AllAfter perform (Function.update states' i (method (states' i)).2) states'' →
          Post (.error fault) states'') :
    Ensures perform answering i j Post (Dialogue.critical method >>= rest) states := by
  intro states' hafter
  exact Ensures.lift (hok states' hafter) (herror states' hafter)

theorem Ensures.question {request : Q} {rest : A → Dialogue S Q A ε R'}
    (hlost : ∀ states', AllAfter perform states states' → ∀ a, answering.lost a = true →
      Ensures perform answering i j Post (rest a) states')
    (hserved : ∀ states', AllAfter perform states states' → ∀ w, Served perform j
      (fun b states'' => Ensures perform answering i j Post (rest (answering.deliver b)) states'')
      (answering.handle j w request) states') :
    Ensures perform answering i j Post (Dialogue.question request >>= rest) states :=
  fun states' hafter => ⟨hlost states' hafter, hserved states' hafter⟩

end

end

/-! ## The system -/

/-- A program at a place, and the handler that is about its question, if there is one. -/
structure Caller (S Q A B ε ε' R ι : Type) where
  own : ι
  peer : ι
  talk : Dialogue S Q A ε R
  serving : Option (Handler S ε' B)

structure Net (S Q A B ε ε' R ι κ : Type) where
  states : ι → S
  callers : κ → Caller S Q A B ε ε' R ι

/-- What may happen next: a section of a program, its question reaching the peer, a section of
the handler, the answer arriving or something else in its place, and a call from outside. -/
inductive NetEvent (W A Op ι κ : Type) where
  | work (k : κ)
  | request (k : κ) (w : W)
  | serve (k : κ)
  | reply (k : κ)
  | lose (k : κ) (a : A)
  | call (i : ι) (op : Op)

namespace Net

variable {S W Q A B Op ε ε' R ι κ : Type} [DecidableEq ι] [DecidableEq κ]
  (perform : Op → S → S) (answering : Answering S W Q A B ε' ι)

/-- The net with one caller, and the state of one place, replaced. -/
def put (net : Net S Q A B ε ε' R ι κ) (k : κ) (caller : Caller S Q A B ε ε' R ι) (i : ι) (s : S) :
    Net S Q A B ε ε' R ι κ :=
  { states := Function.update net.states i s
    callers := Function.update net.callers k caller }

def step (event : NetEvent W A Op ι κ) (net : Net S Q A B ε ε' R ι κ) :
    Option (Net S Q A B ε ε' R ι κ) :=
  match event with
  | .work k =>
      let caller := net.callers k
      match caller.talk with
      | .locked update next =>
          let s := net.states caller.own
          some (net.put k { caller with talk := next s } caller.own (update s))
      | _ => none
  | .request k w =>
      let caller := net.callers k
      match caller.talk, caller.serving with
      | .ask request _, none =>
          some { net with callers := Function.update net.callers k
                            { caller with serving := some (answering.handle caller.peer w request) } }
      | _, _ => none
  | .serve k =>
      let caller := net.callers k
      match caller.serving with
      | some (.locked update next) =>
          let s := net.states caller.peer
          some (net.put k { caller with serving := some (next s) } caller.peer (update s))
      | _ => none
  | .reply k =>
      let caller := net.callers k
      match caller.talk, caller.serving with
      | .ask _ next, some (.done (.ok b)) =>
          some { net with callers := Function.update net.callers k
                            { caller with talk := next (answering.deliver b), serving := none } }
      | _, _ => none
  | .lose k a =>
      let caller := net.callers k
      match caller.talk with
      | .ask _ next =>
          if answering.lost a then
            some { net with callers := Function.update net.callers k
                              { caller with talk := next a, serving := none } }
          else none
      | _ => none
  | .call i op => some { net with states := Function.update net.states i (perform op (net.states i)) }

/-! ## What holds in every run -/

/-- A caller on its way to what `Post` allows. -/
structure CallerSound (perform : Op → S → S) (answering : Answering S W Q A B ε' ι)
    (Post : Outcome ε R → (ι → S) → Prop) (caller : Caller S Q A B ε ε' R ι) (states : ι → S) :
    Prop where
  moves : caller.talk.Moves (After perform)
  ensures : Ensures perform answering caller.own caller.peer Post caller.talk states
  serving : ∀ handler, caller.serving = some handler → handler.Moves (After perform) ∧
    ∃ request next, caller.talk = .ask request next ∧
      Served perform caller.peer (fun b states => Ensures perform answering caller.own caller.peer
        Post (next (answering.deliver b)) states) handler states

/-- Every caller is sound. -/
def Sound (perform : Op → S → S) (answering : Answering S W Q A B ε' ι)
    (Post : κ → Outcome ε R → (ι → S) → Prop) (net : Net S Q A B ε ε' R ι κ) : Prop :=
  ∀ k, CallerSound perform answering (Post k) (net.callers k) net.states

section

variable {perform} {answering} {net net' : Net S Q A B ε ε' R ι κ}
  {Post : κ → Outcome ε R → (ι → S) → Prop}

theorem CallerSound.after {Post : Outcome ε R → (ι → S) → Prop}
    {caller : Caller S Q A B ε ε' R ι} {states states' : ι → S}
    (h : CallerSound perform answering Post caller states)
    (hafter : AllAfter perform states states') :
    CallerSound perform answering Post caller states' where
  moves := h.moves
  ensures := h.ensures.after hafter
  serving handler hserving := by
    obtain ⟨hmoves, request, next, htalk, hserved⟩ := h.serving handler hserving
    exact ⟨hmoves, request, next, htalk, hserved.after hafter⟩

/-- One caller moves on, and the states with it. -/
theorem Sound.move (h : net.Sound perform answering Post) {states : ι → S} {k : κ}
    {caller : Caller S Q A B ε ε' R ι} (hafter : AllAfter perform net.states states)
    (hcaller : CallerSound perform answering (Post k) caller states) :
    Sound perform answering Post { states, callers := Function.update net.callers k caller } := by
  intro k'
  show CallerSound perform answering (Post k') (Function.update net.callers k caller k') states
  by_cases hk : k' = k
  · subst hk
    rw [Function.update_self]
    exact hcaller
  · rw [Function.update_of_ne hk]
    exact (h k').after hafter

/-- What one event keeps. -/
theorem Sound.step (hmoves : ∀ i w request, (answering.handle i w request).Moves (After perform))
    (h : net.Sound perform answering Post) {event : NetEvent W A Op ι κ}
    (hstep : Net.step perform answering event net = some net') :
    net'.Sound perform answering Post ∧ AllAfter perform net.states net'.states := by
  cases event with
  | work k =>
      obtain ⟨hm, he, hs⟩ := h k
      simp only [Net.step] at hstep
      split at hstep
      · next update next htalk =>
          obtain rfl := Option.some.inj hstep
          rw [htalk] at hm he
          have hafter := AllAfter.update (i := (net.callers k).own) (hm.1 (net.states _))
          refine ⟨h.move hafter ⟨hm.2 _, he _ .refl, fun handler hserving => ?_⟩, hafter⟩
          obtain ⟨_, _, _, hask, _⟩ := hs handler hserving
          cases htalk.symm.trans hask
      · cases hstep
  | request k w =>
      obtain ⟨hm, he, hs⟩ := h k
      simp only [Net.step] at hstep
      split at hstep
      · next request next htalk hnone =>
          obtain rfl := Option.some.inj hstep
          refine ⟨h.move .refl ⟨hm, he, fun handler hserving => ?_⟩, .refl⟩
          obtain rfl := Option.some.inj hserving
          rw [htalk] at he
          exact ⟨hmoves _ w request, request, next, htalk, (he _ .refl).2 w⟩
      · cases hstep
  | serve k =>
      obtain ⟨hm, he, hs⟩ := h k
      simp only [Net.step] at hstep
      split at hstep
      · next update next hserving =>
          obtain rfl := Option.some.inj hstep
          obtain ⟨hhandler, request, next', htalk, hserved⟩ := hs _ hserving
          have hafter := AllAfter.update (i := (net.callers k).peer) (hhandler.1 (net.states _))
          refine ⟨h.move hafter ⟨hm, he.after hafter, fun handler hnext => ?_⟩, hafter⟩
          obtain rfl := Option.some.inj hnext
          exact ⟨hhandler.2 _, request, next', htalk, hserved _ .refl⟩
      · cases hstep
  | reply k =>
      obtain ⟨hm, he, hs⟩ := h k
      simp only [Net.step] at hstep
      split at hstep
      · next request next b htalk hserving =>
          obtain rfl := Option.some.inj hstep
          obtain ⟨_, request', next', htalk', hserved⟩ := hs _ hserving
          obtain ⟨rfl, rfl⟩ := Dialogue.ask.inj (htalk.symm.trans htalk')
          rw [htalk] at hm
          exact ⟨h.move .refl ⟨hm _, hserved _ .refl, nofun⟩, .refl⟩
      · cases hstep
  | lose k a =>
      obtain ⟨hm, he, hs⟩ := h k
      simp only [Net.step] at hstep
      split at hstep
      · next request next htalk =>
          rw [Option.ite_none_right_eq_some] at hstep
          obtain ⟨hlost, hstep⟩ := hstep
          obtain rfl := Option.some.inj hstep
          rw [htalk] at hm he
          exact ⟨h.move .refl ⟨hm a, (he _ .refl).1 a hlost, nofun⟩, .refl⟩
      · cases hstep
  | call i op =>
      obtain rfl := Option.some.inj hstep
      have hone : After perform (net.states i) (perform op (net.states i)) := .one op
      have hafter := AllAfter.update hone
      exact ⟨fun k => (h k).after hafter, hafter⟩

/-- What a program ensures on its own, it ensures in every run of the system: a caller that has
ended did so as `Post` allows. -/
theorem run_ensures (hmoves : ∀ i w request, (answering.handle i w request).Moves (After perform))
    (h : net.Sound perform answering Post) {events : List (NetEvent W A Op ι κ)}
    (hrun : runEvents (Net.step perform answering) events net = some net') :
    AllAfter perform net.states net'.states ∧
      ∀ k result, (net'.callers k).talk = .done result → Post k result net'.states := by
  have hinv := runEvents_inv
    (fun after => after.Sound perform answering Post ∧ AllAfter perform net.states after.states)
    (fun hbefore hstep =>
      let hafter := hbefore.1.step hmoves hstep
      ⟨hafter.1, hbefore.2.trans hafter.2⟩)
    ⟨h, .refl⟩ hrun
  refine ⟨hinv.2, fun k result htalk => ?_⟩
  have hensures := (hinv.1 k).ensures
  rw [htalk] at hensures
  exact hensures _ .refl

end

end Net

end Lib
