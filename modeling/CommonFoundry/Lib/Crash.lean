/-
# `CommonFoundry.Lib.Crash` — processes that share a store, and may be killed

A store outlives the processes that use it.  A process takes the lock of the store or gives up;
inside, it runs a program on the store, section by section, with an answer from outside to every
question; where the program succeeds the process stays, and performs operations.  At any moment it
may be killed, and the lock is free again.

`Keeps` is what one program is proved to do, alone: an invariant holds at *every* moment, because
the next moment may not come, and a postcondition at the end.  `Host.Sound` is the same for the
system, and `Host.Sound.run` carries it over every run: mutual exclusion is what makes the rule for
one program enough.  The other way round, what a program does alone with its answers a process can
do when nobody is inside (`Host.starts`).
-/
import CommonFoundry.Lib.Dialogue
import CommonFoundry.Lib.Lock
import CommonFoundry.Lib.Schedule

namespace Lib

namespace Dialogue

variable {S Q A ε R R' : Type}

/-- Alone on a store, the program keeps the invariant at every moment, and the postcondition holds
where it succeeds. -/
def Keeps (Inv : S → Prop) (Post : R → S → Prop) : Dialogue S Q A ε R → S → Prop
  | .done (.ok r), s => Inv s ∧ Post r s
  | .done (.error _), s => Inv s
  | .locked update next, s => Inv s ∧ (next s).Keeps Inv Post (update s)
  | .ask _ next, s => Inv s ∧ ∀ a, (next a).Keeps Inv Post s

section

variable {Inv : S → Prop} {Post : R' → S → Prop} {s : S} {dialogue : Dialogue S Q A ε R}
  {rest : R → Dialogue S Q A ε R'}

theorem Keeps.inv {Post : R → S → Prop} (h : dialogue.Keeps Inv Post s) : Inv s := by
  cases dialogue with
  | done result =>
      cases result with
      | ok r => exact h.1
      | error fault => exact h
  | locked update next => exact h.1
  | ask request next => exact h.1

theorem Keeps.bind {Mid : R → S → Prop} (h : dialogue.Keeps Inv Mid s)
    (hrest : ∀ r s, Mid r s → (rest r).Keeps Inv Post s) :
    (dialogue >>= rest).Keeps Inv Post s := by
  show (dialogue.bind rest).Keeps Inv Post s
  induction dialogue generalizing s with
  | done result =>
      cases result with
      | ok r => exact hrest r s h.2
      | error fault => exact h
  | locked update next ih => exact ⟨h.1, ih s h.2⟩
  | ask request next ih => exact ⟨h.1, fun a => ih a (h.2 a)⟩

theorem Keeps.pure {Post : R → S → Prop} {r : R} (hinv : Inv s) (hpost : Post r s) :
    (pure r : Dialogue S Q A ε R).Keeps Inv Post s := ⟨hinv, hpost⟩

theorem Keeps.lift_bind {result : Outcome ε R} (hinv : Inv s)
    (hrest : ∀ r, result = .ok r → (rest r).Keeps Inv Post s) :
    ((liftM result : Dialogue S Q A ε R) >>= rest).Keeps Inv Post s := by
  cases result with
  | ok r => exact hrest r rfl
  | error fault => exact hinv

theorem Keeps.lift {Post : R → S → Prop} {result : Outcome ε R} (hinv : Inv s)
    (hpost : ∀ r, result = .ok r → Post r s) :
    (liftM result : Dialogue S Q A ε R).Keeps Inv Post s := by
  cases result with
  | ok r => exact ⟨hinv, hpost r rfl⟩
  | error fault => exact hinv

theorem Keeps.critical {Post : R → S → Prop} {method : S → Outcome ε R × S} (hinv : Inv s)
    (hafter : Inv (method s).2) (hpost : ∀ r, (method s).1 = .ok r → Post r (method s).2) :
    (Dialogue.critical method : Dialogue S Q A ε R).Keeps Inv Post s :=
  ⟨hinv, Keeps.lift hafter hpost⟩

theorem Keeps.question_bind {request : Q} {rest : A → Dialogue S Q A ε R'} (hinv : Inv s)
    (hrest : ∀ a, (rest a).Keeps Inv Post s) :
    (Dialogue.question request >>= rest).Keeps Inv Post s := ⟨hinv, hrest⟩

theorem Keeps.read_bind {f : S → R} (hinv : Inv s) (hrest : (rest (f s)).Keeps Inv Post s) :
    (Dialogue.read f >>= rest : Dialogue S Q A ε R').Keeps Inv Post s := ⟨hinv, hrest⟩

end

end Dialogue

/-! ## Processes -/

/-- Where a process is: nowhere, in front of the lock with a job, inside, or inside for good. -/
inductive Process (S Q A ε R J : Type) where
  | off
  | waiting (job : J)
  | starting (program : Dialogue S Q A ε R)
  | running (r : R)

def Process.inside {S Q A ε R J : Type} : Process S Q A ε R J → Bool
  | .off | .waiting _ => false
  | .starting _ | .running _ => true

/-- What the processes of a host may do. -/
structure Behaviour (S Q A ε R J Op : Type) where
  program : J → Dialogue S Q A ε R
  perform : Op → R → S → R × S

/-- A store, its lock and the processes. -/
structure Host (S Q A ε R J κ : Type) where
  store : S
  holder : Option κ
  process : κ → Process S Q A ε R J

inductive HostEvent (A J Op κ : Type) where
  | launch (k : κ) (job : J)
  | lock (k : κ)
  | advance (k : κ) (answer : A)
  | operate (k : κ) (op : Op)
  | kill (k : κ)

namespace Host

variable {S Q A ε R J Op κ : Type} [DecidableEq κ]

/-- The process goes there, and takes or drops the lock on the way. -/
def goto (host : Host S Q A ε R J κ) (k : κ) (place : Process S Q A ε R J) (store : S) :
    Host S Q A ε R J κ where
  store
  holder := holderAfter Process.inside host.holder k place
  process := Function.update host.process k place

/-- `none` where the event is not enabled. -/
def step (behaviour : Behaviour S Q A ε R J Op) (event : HostEvent A J Op κ)
    (host : Host S Q A ε R J κ) : Option (Host S Q A ε R J κ) :=
  match event with
  | .launch k job =>
      match host.process k with
      | .off => some (host.goto k (.waiting job) host.store)
      | _ => none
  | .lock k =>
      match host.process k with
      | .waiting job =>
          -- the lock is tried once
          match host.holder with
          | none => some (host.goto k (.starting (behaviour.program job)) host.store)
          | some _ => some (host.goto k .off host.store)
      | _ => none
  | .advance k answer =>
      match host.process k with
      | .starting (.ask _ next) => some (host.goto k (.starting (next answer)) host.store)
      | .starting (.locked update next) =>
          some (host.goto k (.starting (next host.store)) (update host.store))
      | .starting (.done (.ok r)) => some (host.goto k (.running r) host.store)
      | .starting (.done (.error _)) => some (host.goto k .off host.store)
      | _ => none
  | .operate k op =>
      match host.process k with
      | .running r =>
          let performed := behaviour.perform op r host.store
          some (host.goto k (.running performed.1) performed.2)
      | _ => none
  | .kill k => some (host.goto k .off host.store)

/-- A host on which nothing runs. -/
def idle (store : S) : Host S Q A ε R J κ where
  store
  holder := none
  process _ := .off

/-- What the processes make of the store. -/
def ProcessSound (Inv : S → Prop) (Post : R → S → Prop) (store : S) :
    Process S Q A ε R J → Prop
  | .starting program => program.Keeps Inv Post store
  | .running r => Post r store
  | _ => True

structure Sound (Inv : S → Prop) (Post : R → S → Prop) (host : Host S Q A ε R J κ) : Prop where
  inv : Inv host.store
  exclusive : Exclusive Process.inside host.holder host.process
  process : ∀ k, ProcessSound Inv Post host.store (host.process k)

section

variable {Inv : S → Prop} {Post : R → S → Prop} {host host' : Host S Q A ε R J κ}
  {behaviour : Behaviour S Q A ε R J Op}

omit [DecidableEq κ] in
theorem Sound.idle {store : S} (hinv : Inv store) :
    (Host.idle store : Host S Q A ε R J κ).Sound Inv Post where
  inv := hinv
  exclusive _ := by
    show (false = true ↔ none = some _)
    simp
  process _ := trivial

/-- A process that is outside makes nothing of the store. -/
theorem processSound_of_outside {place : Process S Q A ε R J} (h : place.inside = false)
    (store : S) : ProcessSound Inv Post store place := by
  cases place with
  | off => trivial
  | waiting job => trivial
  | starting program => cases h
  | running r => cases h

/-- One process moves: where it changes the store it was inside, so the others were not. -/
theorem Sound.goto (h : host.Sound Inv Post) {k : κ} {place : Process S Q A ε R J} {store : S}
    (hinv : Inv store) (hfree : place.inside = true → host.holder = none ∨ host.holder = some k)
    (hstore : store = host.store ∨ host.holder = some k)
    (hplace : ProcessSound Inv Post store place) : (host.goto k place store).Sound Inv Post where
  inv := hinv
  exclusive := h.exclusive.move hfree
  process other := by
    show ProcessSound Inv Post store (Function.update host.process k place other)
    by_cases hother : other = k
    · rw [hother, Function.update_self]
      exact hplace
    · rw [Function.update_of_ne hother]
      rcases hstore with rfl | hholder
      · exact h.process other
      · exact processSound_of_outside (h.exclusive.outside hholder hother) store

/-- A process that is inside moves on, or leaves. -/
theorem Sound.stay (h : host.Sound Inv Post) {k : κ} {place : Process S Q A ε R J} {store : S}
    (hinside : (host.process k).inside = true) (hinv : Inv store)
    (hplace : ProcessSound Inv Post store place) : (host.goto k place store).Sound Inv Post :=
  have hholder := (h.exclusive k).mp hinside
  h.goto hinv (fun _ => .inr hholder) (.inr hholder) hplace

/-- A process goes outside. -/
theorem Sound.leave (h : host.Sound Inv Post) {k : κ} {place : Process S Q A ε R J}
    (houtside : place.inside = false) : (host.goto k place host.store).Sound Inv Post :=
  h.goto h.inv (fun hinside => by rw [houtside] at hinside; cases hinside) (.inl rfl)
    (processSound_of_outside houtside _)

/-- While one process runs the others are outside, so it may take any invariant up. -/
theorem Sound.hold {Inv' : S → Prop} {Post' : R → S → Prop} (h : host.Sound Inv Post) {k : κ}
    {r : R} (hplace : host.process k = .running r) (hinv : Inv' host.store)
    (hpost : Post' r host.store) : host.Sound Inv' Post' where
  inv := hinv
  exclusive := h.exclusive
  process other := by
    by_cases hother : other = k
    · rw [hother, hplace]
      exact hpost
    · have hholder : host.holder = some k := (h.exclusive k).mp (by rw [hplace]; rfl)
      exact processSound_of_outside (h.exclusive.outside hholder hother) host.store

theorem Sound.step (hprogram : ∀ job s, Inv s → (behaviour.program job).Keeps Inv Post s)
    (hperform : ∀ op r s, Inv s → Post r s → Inv (behaviour.perform op r s).2 ∧
      Post (behaviour.perform op r s).1 (behaviour.perform op r s).2)
    (h : host.Sound Inv Post) {event : HostEvent A J Op κ}
    (hstep : host.step behaviour event = some host') : host'.Sound Inv Post := by
  cases event with
  | launch k job =>
      rw [Host.step] at hstep
      split at hstep
      · obtain rfl := Option.some.inj hstep
        exact h.leave rfl
      · cases hstep
  | lock k =>
      rw [Host.step] at hstep
      split at hstep
      · next job hplace =>
          split at hstep
          · next hfree =>
              obtain rfl := Option.some.inj hstep
              exact h.goto h.inv (fun _ => .inl hfree) (.inl rfl) (hprogram job _ h.inv)
          · obtain rfl := Option.some.inj hstep
            exact h.leave rfl
      · cases hstep
  | advance k answer =>
      have hk := h.process k
      rw [Host.step] at hstep
      split at hstep
      · next hplace =>
          rw [hplace] at hk
          obtain rfl := Option.some.inj hstep
          exact h.stay (by rw [hplace]; rfl) h.inv (hk.2 answer)
      · next hplace =>
          rw [hplace] at hk
          obtain rfl := Option.some.inj hstep
          exact h.stay (by rw [hplace]; rfl) hk.2.inv hk.2
      · next hplace =>
          rw [hplace] at hk
          obtain rfl := Option.some.inj hstep
          exact h.stay (by rw [hplace]; rfl) h.inv hk.2
      · obtain rfl := Option.some.inj hstep
        exact h.leave rfl
      · cases hstep
  | operate k op =>
      have hk := h.process k
      rw [Host.step] at hstep
      split at hstep
      · next r hplace =>
          rw [hplace] at hk
          obtain rfl := Option.some.inj hstep
          obtain ⟨hinv, hpost⟩ := hperform op r host.store h.inv hk
          exact h.stay (by rw [hplace]; rfl) hinv hpost
      · cases hstep
  | kill k =>
      obtain rfl := Option.some.inj hstep
      exact h.leave rfl

/-- What every program and every operation keeps, every run keeps. -/
theorem Sound.run (hprogram : ∀ job s, Inv s → (behaviour.program job).Keeps Inv Post s)
    (hperform : ∀ op r s, Inv s → Post r s → Inv (behaviour.perform op r s).2 ∧
      Post (behaviour.perform op r s).1 (behaviour.perform op r s).2)
    (h : host.Sound Inv Post) {events : List (HostEvent A J Op κ)}
    (hrun : runEvents (Host.step behaviour) events host = some host') : host'.Sound Inv Post :=
  runEvents_inv (Sound Inv Post) (fun h hstep => Sound.step hprogram hperform h hstep) h hrun

/-! ## What a process can do -/

/-- Moves of one process come to one. -/
theorem goto_goto {k : κ} {place place' : Process S Q A ε R J} {store store' : S}
    (hinside : place'.inside = true) :
    (host.goto k place store).goto k place' store' = host.goto k place' store' := by
  simp only [Host.goto, holderAfter, hinside, if_true, Function.update_idem]

/-- A process whose questions are answered does what the program does alone. -/
theorem completes {T : Type} (Fine : A → Prop) {answer : A} (hanswer : Fine answer)
    {reply : Q → T → A × T} (hreply : ∀ request t, Fine (reply request t).1)
    {program : Dialogue S Q A ε R} {k : κ} {r : R} {s' : S} {t t' : T}
    (hplace : host.process k = .starting program)
    (hplay : program.play reply host.store t = (.ok r, s', t')) :
    ∃ answers : List A, (∀ a ∈ answers, Fine a) ∧
      runEvents (Host.step behaviour) (answers.map (.advance k)) host =
        some (host.goto k (.running r) s') := by
  induction program generalizing host t with
  | done result =>
      obtain ⟨rfl, hstore, -⟩ : result = .ok r ∧ host.store = s' ∧ t = t' := by
        simpa only [Dialogue.play, Prod.mk.injEq] using hplay
      refine ⟨[answer], List.forall_mem_singleton.mpr hanswer, runEvents_cons.mpr ⟨_, ?_, rfl⟩⟩
      simp only [Host.step, hplace, hstore]
  | locked update next ih =>
      obtain ⟨answers, hfine, hevents⟩ := @ih host.store
        (host.goto k (.starting (next host.store)) (update host.store)) t
        (Function.update_self ..) hplay
      refine ⟨answer :: answers, List.forall_mem_cons.mpr ⟨hanswer, hfine⟩,
        runEvents_cons.mpr ⟨_, ?_, hevents.trans ?_⟩⟩
      · simp only [Host.step, hplace]
      · rw [goto_goto rfl]
  | ask request next ih =>
      obtain ⟨answers, hfine, hevents⟩ := @ih (reply request t).1
        (host.goto k (.starting (next (reply request t).1)) host.store) (reply request t).2
        (Function.update_self ..) hplay
      refine ⟨(reply request t).1 :: answers, List.forall_mem_cons.mpr ⟨hreply request t, hfine⟩,
        runEvents_cons.mpr ⟨_, ?_, hevents.trans ?_⟩⟩
      · simp only [Host.step, hplace]
      · rw [goto_goto rfl]

/-- A process gets in when nobody is inside, and completes. -/
theorem starts {T : Type} (Fine : A → Prop) {answer : A} (hanswer : Fine answer)
    {reply : Q → T → A × T} (hreply : ∀ request t, Fine (reply request t).1) {k : κ} {job : J}
    {r : R} {s' : S} {t t' : T} (hoff : host.process k = .off) (hfree : host.holder = none)
    (hplay : (behaviour.program job).play reply host.store t = (.ok r, s', t')) :
    ∃ answers : List A, (∀ a ∈ answers, Fine a) ∧
      runEvents (Host.step behaviour) (.launch k job :: .lock k :: answers.map (.advance k)) host =
        some (host.goto k (.running r) s') := by
  have hlaunch : host.step behaviour (.launch k job) =
      some (host.goto k (.waiting job) host.store) := by
    simp only [Host.step, hoff]
  have hlock : (host.goto k (.waiting job) host.store).step behaviour (.lock k) =
      some (host.goto k (.starting (behaviour.program job)) host.store) := by
    have hwaiting : (host.goto k (.waiting job) host.store).process k = .waiting job :=
      Function.update_self ..
    have hholder : (host.goto k (.waiting job) host.store).holder = none := by
      simp [Host.goto, holderAfter, Process.inside, hfree]
    simp only [Host.step, hwaiting, hholder]
    exact congrArg some (goto_goto rfl)
  have hstarting : (host.goto k (.starting (behaviour.program job)) host.store).process k =
      .starting (behaviour.program job) := Function.update_self ..
  obtain ⟨answers, hfine, hevents⟩ := completes Fine hanswer hreply hstarting hplay
  rw [goto_goto rfl] at hevents
  exact ⟨answers, hfine, runEvents_cons.mpr ⟨_, hlaunch, runEvents_cons.mpr ⟨_, hlock, hevents⟩⟩⟩

end

end Host

end Lib
