/-
# `CommonFoundry.Lib.Barrier` — threads that wait for each other at barriers only

The threads of a block share a memory, and take their steps in any order, one access at a
time.  A block passes a barrier when all its threads have come to it.  Blocks share the
memory too, and never wait for each other.

At every stage between two barriers a thread has places that it may read and places that it
may write (`Footprint`).  Where no thread touches what another one writes, and no block what
another one owns, every thread does what it would do alone (`Alone`), and `Progress` follows a
block from stage to stage with the steps that are left.  So, whatever the order of the steps, a
run comes to its end after a number of steps that is known beforehand (`Follows.run`,
`Follows.exists_run`), and no thread aborts.
-/
import Mathlib.Algebra.BigOperators.Group.Finset.Basic
import Mathlib.Data.Fintype.BigOperators

namespace Lib

/-- What a thread has still to do. -/
inductive Thread (ι V α : Type) where
  | done (value : α)
  | abort
  | read (place : ι) (next : V → Thread ι V α)
  | write (place : ι) (value : V) (next : Thread ι V α)
  | sync (next : Thread ι V α)

namespace Thread

variable {ι V α β : Type}

def bind : Thread ι V α → (α → Thread ι V β) → Thread ι V β
  | done value, f => f value
  | abort, _ => abort
  | read place next, f => read place fun value => (next value).bind f
  | write place value next, f => write place value (next.bind f)
  | sync next, f => sync (next.bind f)

instance : Monad (Thread ι V) where
  pure := done
  bind := bind

def load (place : ι) : Thread ι V V := read place done

def store (place : ι) (value : V) : Thread ι V Unit := write place value (done ())

def barrier : Thread ι V Unit := sync (done ())

def ofOption : Option α → Thread ι V α
  | some value => done value
  | none => abort

end Thread

/-! ## A thread alone -/

section

variable {ι V α β : Type} [DecidableEq ι] {reads writes : Set ι}

/-- One access of a thread to the memory. -/
inductive Access : (ι → V) → Thread ι V α → (ι → V) → Thread ι V α → Prop where
  | read {memory : ι → V} {place : ι} {next : V → Thread ι V α} :
      Access memory (.read place next) memory (next (memory place))
  | write {memory : ι → V} {place : ι} {value : V} {next : Thread ι V α} :
      Access memory (.write place value next) (Function.update memory place value) next

/-- Some accesses of a thread in a row, within the places it may read and write. -/
inductive Alone (reads writes : Set ι) :
    Nat → (ι → V) → Thread ι V α → (ι → V) → Thread ι V α → Prop where
  | stop {memory : ι → V} {thread : Thread ι V α} : Alone reads writes 0 memory thread memory thread
  | read {left : Nat} {memory memory' : ι → V} {place : ι} {next : V → Thread ι V α}
      {thread : Thread ι V α} :
      place ∈ reads → Alone reads writes left memory (next (memory place)) memory' thread →
      Alone reads writes (left + 1) memory (.read place next) memory' thread
  | write {left : Nat} {memory memory' : ι → V} {place : ι} {value : V}
      {next thread : Thread ι V α} :
      place ∈ writes →
      Alone reads writes left (Function.update memory place value) next memory' thread →
      Alone reads writes (left + 1) memory (.write place value next) memory' thread

namespace Alone

theorem bind {left left' : Nat} {memory memory' memory'' : ι → V} {thread : Thread ι V α} {value : α}
    {f : α → Thread ι V β} {thread' : Thread ι V β}
    (h : Alone reads writes left memory thread memory' (.done value))
    (h' : Alone reads writes left' memory' (f value) memory'' thread') :
    Alone reads writes (left + left') memory (thread >>= f) memory'' thread' := by
  generalize hstop : Thread.done value = stop at h
  induction h with
  | stop =>
      subst hstop
      rw [Nat.zero_add]
      exact h'
  | read hplace _ ih =>
      rw [Nat.succ_add]
      exact .read hplace (ih h' hstop)
  | write hplace _ ih =>
      rw [Nat.succ_add]
      exact .write hplace (ih h' hstop)

/-- Elsewhere nothing changes. -/
theorem unchanged {left : Nat} {memory memory' : ι → V} {thread thread' : Thread ι V α}
    (h : Alone reads writes left memory thread memory' thread') {place : ι}
    (hplace : place ∉ writes) : memory' place = memory place := by
  induction h with
  | stop => rfl
  | read _ _ ih => exact ih
  | write hwrite _ ih =>
      rw [ih, Function.update_of_ne (ne_of_mem_of_not_mem hwrite hplace).symm]

/-- A thread does the same where it reads the same. -/
theorem frame {left : Nat} {memory memory' other : ι → V} {thread thread' : Thread ι V α}
    (h : Alone reads writes left memory thread memory' thread')
    (hreads : ∀ place ∈ reads, other place = memory place) :
    ∃ other', Alone reads writes left other thread other' thread' ∧
      ∀ place, other place = memory place → other' place = memory' place := by
  induction h generalizing other with
  | stop => exact ⟨other, .stop, fun _ => id⟩
  | read hplace _ ih =>
      obtain ⟨other', halone, hsame⟩ := ih hreads
      rw [← hreads _ hplace] at halone
      exact ⟨other', .read hplace halone, hsame⟩
  | @write left memory memory' written value next thread hplace _ ih =>
      have hupdate : ∀ place, other place = memory place →
          Function.update other written value place =
            Function.update memory written value place := by
        intro place hsame
        rcases eq_or_ne place written with rfl | hne
        · rw [Function.update_self, Function.update_self]
        · rw [Function.update_of_ne hne, Function.update_of_ne hne, hsame]
      obtain ⟨other', halone, hsame⟩ := ih fun place hread => hupdate place (hreads place hread)
      exact ⟨other', .write hplace halone, fun place heq => hsame place (hupdate place heq)⟩

end Alone

/-- A thread that has come to a barrier or to its end. -/
def Thread.Stopped (thread : Thread ι V α) : Prop :=
  (∃ value, thread = .done value) ∨ ∃ next, thread = .sync next

theorem Access.not_stopped {memory memory' : ι → V} {thread next : Thread ι V α}
    (h : Access memory thread memory' next) : ¬thread.Stopped := by
  rintro (⟨value, rfl⟩ | ⟨rest, rfl⟩) <;> cases h

/-- A thread on its way does the next access. -/
theorem Alone.access {left : Nat} {memory memory' memory₁ : ι → V}
    {thread thread' next : Thread ι V α}
    (h : Alone reads writes left memory thread memory' thread') (hstop : thread'.Stopped)
    (haccess : Access memory thread memory₁ next) :
    ∃ left', left = left' + 1 ∧ Alone reads writes left' memory₁ next memory' thread' ∧
      ∀ place, place ∉ writes → memory₁ place = memory place := by
  cases h with
  | stop => exact absurd hstop haccess.not_stopped
  | read _ hrest =>
      cases haccess
      exact ⟨_, rfl, hrest, fun _ _ => rfl⟩
  | write hwrite hrest =>
      cases haccess
      exact ⟨_, rfl, hrest, fun place hplace =>
        Function.update_of_ne (ne_of_mem_of_not_mem hwrite hplace).symm _ _⟩

/-- A thread that has accesses left can do one. -/
theorem Alone.exists_access {left : Nat} {memory memory' : ι → V} {thread thread' : Thread ι V α}
    (h : Alone reads writes (left + 1) memory thread memory' thread') :
    ∃ memory₁ next, Access memory thread memory₁ next := by
  cases h with
  | read _ _ => exact ⟨_, _, .read⟩
  | write _ _ => exact ⟨_, _, .write⟩

theorem Alone.eq_of_zero {memory memory' : ι → V} {thread thread' : Thread ι V α}
    (h : Alone reads writes 0 memory thread memory' thread') :
    memory' = memory ∧ thread = thread' := by
  cases h
  exact ⟨rfl, rfl⟩

/-- A thread that stands still has no accesses left. -/
theorem Alone.eq_of_stopped {left : Nat} {memory memory' : ι → V} {thread thread' : Thread ι V α}
    (h : Alone reads writes left memory thread memory' thread') (hstop : thread.Stopped) :
    left = 0 ∧ memory' = memory ∧ thread = thread' := by
  cases h with
  | stop => exact ⟨rfl, rfl, rfl⟩
  | read _ _ => rcases hstop with ⟨_, h⟩ | ⟨_, h⟩ <;> cases h
  | write _ _ => rcases hstop with ⟨_, h⟩ | ⟨_, h⟩ <;> cases h

end

/-! ## What a thread returns -/

/-- A thread that comes to its end with a value. -/
def Returns {ι V α : Type} [DecidableEq ι] (reads writes : Set ι) (memory : ι → V)
    (thread : Thread ι V α) (memory' : ι → V) (value : α) : Prop :=
  ∃ left, Alone reads writes left memory thread memory' (.done value)

namespace Returns

variable {ι V α β : Type} [DecidableEq ι] {reads writes : Set ι} {memory memory' memory'' : ι → V}

theorem pure (value : α) : Returns reads writes memory (Pure.pure value) memory value :=
  ⟨0, .stop⟩

theorem bind {thread : Thread ι V α} {value : α} {f : α → Thread ι V β} {value' : β}
    (h : Returns reads writes memory thread memory' value)
    (h' : Returns reads writes memory' (f value) memory'' value') :
    Returns reads writes memory (thread >>= f) memory'' value' := by
  obtain ⟨left, halone⟩ := h
  obtain ⟨left', halone'⟩ := h'
  exact ⟨left + left', halone.bind halone'⟩

theorem load {place : ι} (h : place ∈ reads) :
    Returns reads writes memory (Thread.load place) memory (memory place) :=
  ⟨1, .read h .stop⟩

theorem store {place : ι} (h : place ∈ writes) (value : V) :
    Returns reads writes memory (Thread.store place value)
      (Function.update memory place value) () :=
  ⟨1, .write h .stop⟩

theorem ofOption {found : Option α} {value : α} (h : found = some value) :
    Returns reads writes memory (Thread.ofOption found) memory value := by
  subst h
  exact ⟨0, .stop⟩

/-- A loop that only reads. -/
theorem foldlM_range {f : α → Nat → Thread ι V α} (invariant : Nat → α) {n : Nat}
    (h : ∀ i < n, Returns reads writes memory (f (invariant i) i) memory (invariant (i + 1))) :
    Returns reads writes memory ((List.range n).foldlM f (invariant 0)) memory (invariant n) := by
  suffices hpart : ∀ count start, start + count = n →
      Returns reads writes memory ((List.range' start count).foldlM f (invariant start)) memory
        (invariant n) by
    rw [List.range_eq_range']
    exact hpart n 0 (Nat.zero_add n)
  intro count
  induction count with
  | zero =>
      rintro start rfl
      exact .pure _
  | succ count ih =>
      intro start hstart
      rw [List.range'_succ, List.foldlM_cons]
      exact (h start (by omega)).bind (ih (start + 1) (by omega))

end Returns

/-! ## A block -/

/-- The places of a block, and those that its threads may read and write at every stage. -/
structure Footprint (τ ι : Type) where
  owned : Set ι
  reads : Nat → τ → Set ι
  writes : Nat → τ → Set ι
  reads_owned : ∀ stage t, reads stage t ⊆ owned
  writes_owned : ∀ stage t, writes stage t ⊆ owned
  read_write : ∀ stage t t', t ≠ t' → ∀ place ∈ reads stage t, place ∉ writes stage t'
  write_write : ∀ stage t t', t ≠ t' → ∀ place ∈ writes stage t, place ∉ writes stage t'

section

variable {τ ι V : Type} [DecidableEq ι] {F : Footprint τ ι} {stage : Nat}
variable {memory after : ι → V} {threads stops : τ → Thread ι V Unit} {left : τ → Nat}

/-- A block on its way to the end of a stage, where its memory is `after`. -/
structure Phase (F : Footprint τ ι) (stage : Nat) (memory : ι → V)
    (threads : τ → Thread ι V Unit) (after : ι → V) (stops : τ → Thread ι V Unit)
    (left : τ → Nat) : Prop where
  alone : ∀ t, ∃ memory',
    Alone (F.reads stage t) (F.writes stage t) (left t) memory (threads t) memory' (stops t) ∧
      ∀ place ∈ F.writes stage t, memory' place = after place
  kept : ∀ place ∈ F.owned, (∀ t, place ∉ F.writes stage t) → memory place = after place

namespace Phase

/-- What happens elsewhere does not matter. -/
theorem elsewhere (h : Phase F stage memory threads after stops left) {other : ι → V}
    (howned : ∀ place ∈ F.owned, other place = memory place) :
    Phase F stage other threads after stops left := by
  constructor
  · intro t
    obtain ⟨memory', halone, hafter⟩ := h.alone t
    obtain ⟨other', halone', hsame⟩ := halone.frame fun place hplace =>
      howned place (F.reads_owned stage t hplace)
    refine ⟨other', halone', fun place hplace => ?_⟩
    rw [hsame place (howned place (F.writes_owned stage t hplace)), hafter place hplace]
  · intro place hplace hwrites
    rw [howned place hplace, h.kept place hplace hwrites]

variable [DecidableEq τ]

/-- One access of one thread. -/
theorem access (h : Phase F stage memory threads after stops left)
    (hstops : ∀ t, (stops t).Stopped) {t : τ} {memory₁ : ι → V} {next : Thread ι V Unit}
    (haccess : Access memory (threads t) memory₁ next) :
    ∃ left', left t = left' + 1 ∧
      Phase F stage memory₁ (Function.update threads t next) after stops
        (Function.update left t left') ∧
      ∀ place ∉ F.owned, memory₁ place = memory place := by
  obtain ⟨memory', halone, hafter⟩ := h.alone t
  obtain ⟨left', hleft, hnext, hsame⟩ := halone.access (hstops t) haccess
  refine ⟨left', hleft, ⟨?_, ?_⟩, fun place hplace =>
    hsame place fun hwrite => hplace (F.writes_owned stage t hwrite)⟩
  · intro t'
    rcases eq_or_ne t' t with rfl | hne
    · rw [Function.update_self, Function.update_self]
      exact ⟨memory', hnext, hafter⟩
    · rw [Function.update_of_ne hne, Function.update_of_ne hne]
      obtain ⟨memory'', halone', hafter'⟩ := h.alone t'
      obtain ⟨other, hother, hagree⟩ := halone'.frame fun place hplace =>
        hsame place (F.read_write stage t' t hne place hplace)
      refine ⟨other, hother, fun place hplace => ?_⟩
      rw [hagree place (hsame place (F.write_write stage t' t hne place hplace)),
        hafter' place hplace]
  · intro place hplace hwrites
    rw [hsame place (hwrites t), h.kept place hplace hwrites]

omit [DecidableEq τ] in
/-- Where all threads stand still, the stage is over. -/
theorem ended (h : Phase F stage memory threads after stops left)
    (hthreads : ∀ t, (threads t).Stopped) :
    (∀ t, left t = 0) ∧ threads = stops ∧ ∀ place ∈ F.owned, memory place = after place := by
  refine ⟨fun t => ?_, funext fun t => ?_, fun place hplace => ?_⟩
  · obtain ⟨_, halone, _⟩ := h.alone t
    exact (halone.eq_of_stopped (hthreads t)).1
  · obtain ⟨_, halone, _⟩ := h.alone t
    exact (halone.eq_of_stopped (hthreads t)).2.2
  · by_cases hwrites : ∀ t, place ∉ F.writes stage t
    · exact h.kept place hplace hwrites
    · push Not at hwrites
      obtain ⟨t, hwrite⟩ := hwrites
      obtain ⟨_, halone, hafter⟩ := h.alone t
      rw [← hafter place hwrite, (halone.eq_of_stopped (hthreads t)).2.1]

end Phase

variable [Fintype τ]

/-- A block with this many steps left, which ends in a memory where `post` holds. -/
inductive Progress (F : Footprint τ ι) (post : (ι → V) → Prop) :
    Nat → Nat → (ι → V) → (τ → Thread ι V Unit) → Prop where
  | finishing {stage : Nat} {memory after : ι → V} {threads : τ → Thread ι V Unit}
      {left : τ → Nat} :
      Phase F stage memory threads after (fun _ => .done ()) left →
      (∀ memory', (∀ place ∈ F.owned, memory' place = after place) → post memory') →
      Progress F post stage (∑ t, left t) memory threads
  | syncing {stage rest : Nat} {memory after : ι → V} {threads next : τ → Thread ι V Unit}
      {left : τ → Nat} :
      Phase F stage memory threads after (fun t => .sync (next t)) left →
      (∀ memory', (∀ place ∈ F.owned, memory' place = after place) →
        Progress F post (stage + 1) rest memory' next) →
      Progress F post stage (∑ t, left t + (rest + 1)) memory threads

theorem sum_update_succ [DecidableEq τ] {t : τ} {left' : Nat} (h : left t = left' + 1) :
    ∑ s, left s = ∑ s, Function.update left t left' s + 1 := by
  rw [Finset.sum_update_of_mem (Finset.mem_univ t), Finset.sdiff_singleton_eq_erase,
    ← Finset.add_sum_erase _ left (Finset.mem_univ t), h]
  omega

namespace Progress

variable {post : (ι → V) → Prop} {steps : Nat}

theorem elsewhere (h : Progress F post stage steps memory threads) {other : ι → V}
    (howned : ∀ place ∈ F.owned, other place = memory place) :
    Progress F post stage steps other threads := by
  cases h with
  | finishing hphase hpost => exact .finishing (hphase.elsewhere howned) hpost
  | syncing hphase hnext => exact .syncing (hphase.elsewhere howned) hnext

theorem access [DecidableEq τ] (h : Progress F post stage steps memory threads) {t : τ}
    {memory₁ : ι → V} {next : Thread ι V Unit}
    (haccess : Access memory (threads t) memory₁ next) :
    ∃ steps', steps = steps' + 1 ∧
      Progress F post stage steps' memory₁ (Function.update threads t next) ∧
      ∀ place ∉ F.owned, memory₁ place = memory place := by
  cases h with
  | finishing hphase hpost =>
      obtain ⟨left', hleft, hphase', hsame⟩ := hphase.access (fun _ => .inl ⟨_, rfl⟩) haccess
      exact ⟨_, sum_update_succ hleft, .finishing hphase' hpost, hsame⟩
  | syncing hphase hnext =>
      obtain ⟨left', hleft, hphase', hsame⟩ := hphase.access (fun _ => .inr ⟨_, rfl⟩) haccess
      refine ⟨_, ?_, .syncing hphase' hnext, hsame⟩
      rw [sum_update_succ hleft]
      omega

/-- A block passes the barrier. -/
theorem sync [Nonempty τ] {next : τ → Thread ι V Unit}
    (h : Progress F post stage steps memory threads) (hthreads : ∀ t, threads t = .sync (next t)) :
    ∃ steps', steps = steps' + 1 ∧ Progress F post (stage + 1) steps' memory next := by
  have hstopped : ∀ t, (threads t).Stopped := fun t => .inr ⟨_, hthreads t⟩
  cases h with
  | finishing hphase hpost =>
      obtain ⟨_, hstops, _⟩ := hphase.ended hstopped
      obtain ⟨t⟩ := ‹Nonempty τ›
      cases (hthreads t).symm.trans (congrFun hstops t)
  | syncing hphase hnext =>
      obtain ⟨hleft, hstops, hafter⟩ := hphase.ended hstopped
      obtain rfl : next = _ := funext fun t =>
        Thread.sync.inj ((hthreads t).symm.trans (congrFun hstops t))
      refine ⟨_, ?_, hnext memory hafter⟩
      rw [Finset.sum_eq_zero fun t _ => hleft t, Nat.zero_add]

/-- A block that is not at its end goes on, or waits at a barrier with all its threads. -/
theorem exists_step (h : Progress F post stage (steps + 1) memory threads) :
    (∃ t memory₁ next, Access memory (threads t) memory₁ next) ∨
      ∃ next : τ → Thread ι V Unit, ∀ t, threads t = .sync (next t) := by
  have hphase : ∃ after stops left, Phase F stage memory threads after stops left ∧
      ((∃ next : τ → Thread ι V Unit, stops = fun t => .sync (next t)) ∨
        ∑ t, left t = steps + 1) := by
    generalize hsteps : steps + 1 = total at h
    cases h with
    | finishing hphase _ => exact ⟨_, _, _, hphase, .inr rfl⟩
    | syncing hphase _ => exact ⟨_, _, _, hphase, .inl ⟨_, rfl⟩⟩
  obtain ⟨after, stops, left, hphase, hstops⟩ := hphase
  by_cases hleft : ∃ t, left t ≠ 0
  · obtain ⟨t, hleft⟩ := hleft
    obtain ⟨left', hleft'⟩ := Nat.exists_eq_succ_of_ne_zero hleft
    obtain ⟨_, halone, _⟩ := hphase.alone t
    rw [hleft'] at halone
    obtain ⟨memory₁, next, haccess⟩ := halone.exists_access
    exact .inl ⟨t, memory₁, next, haccess⟩
  · push Not at hleft
    rcases hstops with ⟨next, rfl⟩ | hsum
    · refine .inr ⟨next, fun t => ?_⟩
      obtain ⟨_, halone, _⟩ := hphase.alone t
      rw [hleft t] at halone
      exact halone.eq_of_zero.2
    · rw [Finset.sum_eq_zero fun t _ => hleft t] at hsum
      cases hsum

/-- A block at its end. -/
theorem ended (h : Progress F post stage 0 memory threads) :
    (∀ t, threads t = .done ()) ∧ post memory := by
  generalize hsteps : 0 = total at h
  cases h with
  | @finishing _ _ _ _ left hphase hpost =>
      have hleft : ∀ t, left t = 0 := fun t => Finset.sum_eq_zero_iff.mp hsteps.symm t (Finset.mem_univ t)
      have hthreads : ∀ t, threads t = .done () := by
        intro t
        obtain ⟨_, halone, _⟩ := hphase.alone t
        rw [hleft t] at halone
        exact halone.eq_of_zero.2
      exact ⟨hthreads, hpost memory (hphase.ended fun t => .inl ⟨_, hthreads t⟩).2.2⟩
  | syncing => omega

/-- What a thread does next is within its places, and it does not abort. -/
theorem within (h : Progress F post stage steps memory threads) (t : τ) :
    threads t ≠ .abort ∧
      (∀ place next, threads t = .read place next → place ∈ F.reads stage t) ∧
      ∀ place value next, threads t = .write place value next → place ∈ F.writes stage t := by
  have halone : ∃ left memory' stop, Alone (F.reads stage t) (F.writes stage t) left memory
      (threads t) memory' stop ∧ stop.Stopped := by
    cases h with
    | finishing hphase _ =>
        obtain ⟨_, halone, _⟩ := hphase.alone t
        exact ⟨_, _, _, halone, .inl ⟨_, rfl⟩⟩
    | syncing hphase _ =>
        obtain ⟨_, halone, _⟩ := hphase.alone t
        exact ⟨_, _, _, halone, .inr ⟨_, rfl⟩⟩
  obtain ⟨left, memory', stop, halone, hstop⟩ := halone
  generalize threads t = thread at halone
  cases halone with
  | stop =>
      refine ⟨?_, ?_, ?_⟩
      · rintro rfl
        rcases hstop with ⟨_, h⟩ | ⟨_, h⟩ <;> cases h
      · rintro place next rfl
        rcases hstop with ⟨_, h⟩ | ⟨_, h⟩ <;> cases h
      · rintro place value next rfl
        rcases hstop with ⟨_, h⟩ | ⟨_, h⟩ <;> cases h
  | read hplace _ =>
      refine ⟨nofun, fun place next heq => ?_, nofun⟩
      obtain ⟨rfl, _⟩ := Thread.read.inj heq
      exact hplace
  | write hplace _ =>
      refine ⟨nofun, nofun, fun place value next heq => ?_⟩
      obtain ⟨rfl, _⟩ := Thread.write.inj heq
      exact hplace

/-! ### From stage to stage -/

omit [Fintype τ] in
/-- A stage whose threads all come to its end. -/
theorem exists_phase {P : τ → (ι → V) → Prop}
    (h : ∀ t, ∃ left memory', Alone (F.reads stage t) (F.writes stage t) left memory (threads t)
      memory' (stops t) ∧ P t memory') :
    ∃ after left, Phase F stage memory threads after stops left ∧
      ∀ t, ∃ memory', P t memory' ∧ ∀ place ∈ F.writes stage t, after place = memory' place := by
  classical
  choose left memory' halone hP using h
  have hafter : ∃ after : ι → V, (∀ t, ∀ place ∈ F.writes stage t, after place = memory' t place) ∧
      ∀ place, (∀ t, place ∉ F.writes stage t) → after place = memory place := by
    refine ⟨fun place => if hwrite : ∃ t, place ∈ F.writes stage t then
      memory' hwrite.choose place else memory place, fun t place hplace => ?_, fun place hnone => ?_⟩
    · have hwrite : ∃ t, place ∈ F.writes stage t := ⟨t, hplace⟩
      have hsame : hwrite.choose = t := by
        by_contra hne
        exact F.write_write stage _ _ hne place hwrite.choose_spec hplace
      exact (dif_pos hwrite).trans (by rw [hsame])
    · exact dif_neg fun ⟨t, hplace⟩ => hnone t hplace
  obtain ⟨after, hwritten, hkept⟩ := hafter
  refine ⟨after, left, ⟨fun t => ⟨memory' t, halone t, fun place hplace => ?_⟩,
    fun place _ hnone => (hkept place hnone).symm⟩, fun t => ⟨memory' t, hP t, hwritten t⟩⟩
  exact (hwritten t place hplace).symm

/-- A block whose threads come to a barrier, and go on from there. -/
theorem of_barrier (first next : τ → Thread ι V Unit) {P : τ → (ι → V) → Prop}
    (h : ∀ t, ∃ memory', Returns (F.reads stage t) (F.writes stage t) memory (first t) memory' () ∧
      P t memory')
    (hnext : ∀ after, (∀ t, ∃ memory', P t memory' ∧
        ∀ place ∈ F.writes stage t, after place = memory' place) →
      ∃ steps, Progress F post (stage + 1) steps after next) :
    ∃ steps, Progress F post stage steps memory
      (fun t => do
        first t
        Thread.barrier
        next t) := by
  have hstops : ∀ t, ∃ left memory', Alone (F.reads stage t) (F.writes stage t) left memory
      (do
        first t
        Thread.barrier
        next t) memory' (.sync (next t)) ∧ P t memory' := by
    intro t
    obtain ⟨memory', ⟨left, halone⟩, hP⟩ := h t
    exact ⟨left + 0, memory', halone.bind .stop, hP⟩
  obtain ⟨after, left, hphase, hafter⟩ := exists_phase hstops
  obtain ⟨rest, hrest⟩ := hnext after hafter
  exact ⟨_, .syncing hphase fun memory' howned => hrest.elsewhere howned⟩

/-- A block whose threads come to their end. -/
theorem of_done {P : τ → (ι → V) → Prop}
    (h : ∀ t, ∃ memory', Returns (F.reads stage t) (F.writes stage t) memory (threads t) memory' () ∧
      P t memory')
    (hpost : ∀ after memory' : ι → V, (∀ t, ∃ memory', P t memory' ∧
        ∀ place ∈ F.writes stage t, after place = memory' place) →
      (∀ place ∈ F.owned, memory' place = after place) → post memory') :
    ∃ steps, Progress F post stage steps memory threads := by
  have hstops : ∀ t, ∃ left memory', Alone (F.reads stage t) (F.writes stage t) left memory
      (threads t) memory' (.done ()) ∧ P t memory' := by
    intro t
    obtain ⟨memory', ⟨left, halone⟩, hP⟩ := h t
    exact ⟨left, memory', halone, hP⟩
  obtain ⟨after, left, hphase, hafter⟩ := exists_phase hstops
  exact ⟨_, .finishing hphase fun memory' howned => hpost after memory' hafter howned⟩

end Progress

end

/-! ## A grid of blocks -/

/-- The memory of a grid, and for each block its stage and what its threads have still to do. -/
structure Grid (β τ ι V : Type) where
  memory : ι → V
  stage : β → Nat
  threads : β → τ → Thread ι V Unit

namespace Grid

variable {β τ ι V : Type} [DecidableEq β] [DecidableEq τ] [DecidableEq ι]

/-- One thread of one block does an access, or one block passes a barrier. -/
inductive Step : Grid β τ ι V → Grid β τ ι V → Prop where
  | access {grid : Grid β τ ι V} {b : β} {t : τ} {memory : ι → V} {next : Thread ι V Unit} :
      Access grid.memory (grid.threads b t) memory next →
      Step grid { grid with
        memory
        threads := Function.update grid.threads b (Function.update (grid.threads b) t next) }
  | sync {grid : Grid β τ ι V} {b : β} {next : τ → Thread ι V Unit} :
      (∀ t, grid.threads b t = .sync (next t)) →
      Step grid { grid with
        stage := Function.update grid.stage b (grid.stage b + 1)
        threads := Function.update grid.threads b next }

/-- Some steps. -/
inductive Run : Nat → Grid β τ ι V → Grid β τ ι V → Prop where
  | start {grid : Grid β τ ι V} : Run 0 grid grid
  | step {steps : Nat} {grid grid' grid'' : Grid β τ ι V} :
      Run steps grid grid' → Step grid' grid'' → Run (steps + 1) grid grid''

variable [Fintype β] [Fintype τ] {F : β → Footprint τ ι} {post : β → (ι → V) → Prop}
variable {grid grid' : Grid β τ ι V} {steps : Nat}

/-- Every block is on its way. -/
def Follows (F : β → Footprint τ ι) (post : β → (ι → V) → Prop) (grid : Grid β τ ι V)
    (steps : Nat) : Prop :=
  ∃ left : β → Nat, ∑ b, left b = steps ∧
    ∀ b, Progress (F b) (post b) (grid.stage b) (left b) grid.memory (grid.threads b)

/-- The blocks touch nothing of each other. -/
def Separate (F : β → Footprint τ ι) : Prop :=
  ∀ b b', b ≠ b' → ∀ place ∈ (F b).owned, place ∉ (F b').owned

namespace Follows

theorem step [Nonempty τ] (h : Follows F post grid steps) (hseparate : Separate F)
    (hstep : Step grid grid') : ∃ steps', steps = steps' + 1 ∧ Follows F post grid' steps' := by
  obtain ⟨left, rfl, hblocks⟩ := h
  cases hstep with
  | @access b t memory next haccess =>
      obtain ⟨left', hleft, hblock, hsame⟩ := (hblocks b).access haccess
      refine ⟨_, sum_update_succ hleft, Function.update left b left', rfl, fun b' => ?_⟩
      dsimp only
      rcases eq_or_ne b' b with rfl | hne
      · rw [Function.update_self, Function.update_self]
        exact hblock
      · rw [Function.update_of_ne hne, Function.update_of_ne hne]
        exact (hblocks b').elsewhere fun place hplace =>
          hsame place (hseparate b' b hne place hplace)
  | @sync b next hthreads =>
      obtain ⟨left', hleft, hblock⟩ := (hblocks b).sync hthreads
      refine ⟨_, sum_update_succ hleft, Function.update left b left', rfl, fun b' => ?_⟩
      dsimp only
      rcases eq_or_ne b' b with rfl | hne
      · rw [Function.update_self, Function.update_self, Function.update_self]
        exact hblock
      · rw [Function.update_of_ne hne, Function.update_of_ne hne, Function.update_of_ne hne]
        exact hblocks b'

/-- Every run takes the steps that are left, one by one. -/
theorem run [Nonempty τ] {count : Nat} (h : Follows F post grid steps) (hseparate : Separate F)
    (hrun : Run count grid grid') :
    ∃ steps', steps = count + steps' ∧ Follows F post grid' steps' := by
  induction hrun with
  | start => exact ⟨steps, (Nat.zero_add steps).symm, h⟩
  | step _ hstep ih =>
      obtain ⟨before, hsteps, hfollows⟩ := ih h
      obtain ⟨after, rfl, hfollows'⟩ := hfollows.step hseparate hstep
      exact ⟨after, by omega, hfollows'⟩

/-- A grid with steps left has a next one. -/
theorem exists_step (h : Follows F post grid (steps + 1)) : ∃ grid', Step grid grid' := by
  obtain ⟨left, hsum, hblocks⟩ := h
  obtain ⟨b, hleft⟩ : ∃ b, left b ≠ 0 := by
    by_contra hnone
    push Not at hnone
    rw [Finset.sum_eq_zero fun b _ => hnone b] at hsum
    cases hsum
  obtain ⟨left', hleft'⟩ := Nat.exists_eq_succ_of_ne_zero hleft
  have hblock := hblocks b
  rw [hleft'] at hblock
  rcases hblock.exists_step with ⟨t, memory₁, next, haccess⟩ | ⟨next, hthreads⟩
  · exact ⟨_, .access haccess⟩
  · exact ⟨_, .sync hthreads⟩

omit [DecidableEq β] [DecidableEq τ] in
/-- A grid at its end. -/
theorem ended (h : Follows F post grid 0) (b : β) :
    (∀ t, grid.threads b t = .done ()) ∧ post b grid.memory := by
  obtain ⟨left, hsum, hblocks⟩ := h
  have hblock := hblocks b
  rw [Finset.sum_eq_zero_iff.mp hsum b (Finset.mem_univ b)] at hblock
  exact hblock.ended

omit [DecidableEq β] [DecidableEq τ] in
/-- The accesses of a grid stay within the places of its threads. -/
theorem within (h : Follows F post grid steps) (b : β) (t : τ) :
    grid.threads b t ≠ .abort ∧
      (∀ place next, grid.threads b t = .read place next →
        place ∈ (F b).reads (grid.stage b) t) ∧
      ∀ place value next, grid.threads b t = .write place value next →
        place ∈ (F b).writes (grid.stage b) t := by
  obtain ⟨left, _, hblocks⟩ := h
  exact (hblocks b).within t

/-- There is a run to the end. -/
theorem exists_run [Nonempty τ] (h : Follows F post grid steps) (hseparate : Separate F) :
    ∃ grid', Run steps grid grid' := by
  suffices hpart : ∀ count ≤ steps, ∃ grid', Run count grid grid' from hpart steps le_rfl
  intro count hcount
  induction count with
  | zero => exact ⟨grid, .start⟩
  | succ count ih =>
      obtain ⟨grid', hrun⟩ := ih (by omega)
      obtain ⟨steps', hsteps, hfollows⟩ := h.run hseparate hrun
      obtain ⟨steps'', rfl⟩ := Nat.exists_eq_succ_of_ne_zero (show steps' ≠ 0 by omega)
      obtain ⟨grid'', hstep⟩ := hfollows.exists_step
      exact ⟨grid'', hrun.step hstep⟩

end Follows

end Grid

end Lib
