import UnixPrograms.Lib.Sums
import Mathlib.Algebra.BigOperators.Ring.Finset
import Mathlib.Data.Fintype.BigOperators
import Mathlib.Algebra.Order.BigOperators.Group.Finset

/-!
# Threads around one mutex

A *monitor* is a shared state that threads touch only while they hold one mutex.  A critical section
goes from the moment a thread gets the mutex to its return or to `pthread_cond_wait`; `Monitor.Step`
interleaves the sections of any number of threads.  Its states are those in which the mutex is free.

A signal wakes at least one of the threads blocked on the condition, a broadcast all of them, and a
thread may wake without either.  A thread that has yet to get the mutex back is `awakened`.
-/

namespace UnixPrograms

open Function

inductive Wake (γ : Type) where
  | signal (c : γ)
  | broadcast (c : γ)

inductive Exit (κ γ ρ : Type) where
  /-- Unlock the mutex and return `r`. -/
  | ret (r : ρ)
  /-- `pthread_cond_wait` on `c`; the call goes on at `k` once the wait is over. -/
  | wait (c : γ) (k : κ)
  /-- The program ends the process instead. -/
  | crash

/-- The outcome of one critical section. -/
structure Section (κ γ ρ σ : Type) where
  shared : σ
  wake : Option (Wake γ)
  exit : Exit κ γ ρ

/-- Where a thread is, seen while the mutex is free. -/
inductive Thread (κ γ : Type) where
  | outside
  /-- In a call, about to ask for the mutex; the next section starts at `k`. -/
  | entering (k : κ)
  | asleep (c : γ) (k : κ)
  /-- Woken up, but still without the mutex. -/
  | awakened (k : κ)
  /-- The section ended the process. -/
  | crashed

namespace Thread

variable {κ γ ρ : Type}

/-- A wake-up reaches a sleeping thread and leaves every other thread as it is. -/
def awaken : Thread κ γ → Thread κ γ
  | .asleep _ k => .awakened k
  | x => x

/-- The place of a thread whose section ended with `e`. -/
def after : Exit κ γ ρ → Thread κ γ
  | .ret _ => .outside
  | .wait c k => .asleep c k
  | .crash => .crashed

def AsleepOn (c : γ) (x : Thread κ γ) : Prop := ∃ k, x = .asleep c k

/-- The thread is inside a wait that goes on at a point with `q`: it sleeps, or it has been woken
and has not run since. -/
def inWait (q : κ → Bool) : Thread κ γ → Bool
  | .asleep _ k => q k
  | .awakened k => q k
  | _ => false

def isAsleep (q : κ → Bool) : Thread κ γ → Bool
  | .asleep _ k => q k
  | _ => false

def isAwakened (q : κ → Bool) : Thread κ γ → Bool
  | .awakened k => q k
  | _ => false

section

variable (q : κ → Bool)
include q

@[simp] lemma inWait_outside : inWait q (.outside : Thread κ γ) = false := rfl

@[simp] lemma inWait_entering (k : κ) : inWait q (.entering k : Thread κ γ) = false := rfl

@[simp] lemma inWait_asleep (c : γ) (k : κ) : inWait q (.asleep c k : Thread κ γ) = q k := rfl

@[simp] lemma inWait_awakened (k : κ) : inWait q (.awakened k : Thread κ γ) = q k := rfl

@[simp] lemma inWait_crashed : inWait q (.crashed : Thread κ γ) = false := rfl

@[simp] lemma inWait_awaken (x : Thread κ γ) : inWait q x.awaken = inWait q x := by
  cases x <;> rfl

end

end Thread

def wakeAll {ι κ γ : Type} [DecidableEq ι] (W : Finset ι) (thread : ι → Thread κ γ) :
    ι → Thread κ γ :=
  fun i => if i ∈ W then (thread i).awaken else thread i

/-- The threads that a wake-up may reach: for a signal some of the threads blocked on the condition,
at least one if there is one; for a broadcast all of them. -/
def Wakes {ι κ γ : Type} (thread : ι → Thread κ γ) : Option (Wake γ) → Finset ι → Prop
  | none, W => W = ∅
  | some (.signal c), W =>
      (∀ i ∈ W, (thread i).AsleepOn c) ∧ ((∃ i, (thread i).AsleepOn c) → W.Nonempty)
  | some (.broadcast c), W => ∀ i, i ∈ W ↔ (thread i).AsleepOn c

/-- A monitor: the points at which a call may start, and the critical section that a thread runs
from each point. -/
structure Monitor (ι κ γ ρ σ : Type) where
  /-- `entry k`: a call may start at `k`. -/
  entry : κ → Prop
  /-- The critical section that the thread runs from the point `k`. -/
  sect : ι → κ → σ → Section κ γ ρ σ

/-- A state of the monitor with the mutex free. -/
structure MState (ι κ γ σ : Type) where
  shared : σ
  thread : ι → Thread κ γ

inductive Label (ι κ γ ρ : Type) where
  | call (t : ι) (k : κ)
  | spurious (t : ι)
  /-- The thread runs its critical section from `k`, which ends with `e`. -/
  | run (t : ι) (k : κ) (e : Exit κ γ ρ)

/-- The state in which no thread is in a call. -/
def MState.start {ι κ γ σ : Type} (a : σ) : MState ι κ γ σ where
  shared := a
  thread _ := .outside

/-- The thread is about to run its critical section from `k`. -/
abbrev MState.Ready {ι κ γ σ : Type} (s : MState ι κ γ σ) (t : ι) (k : κ) : Prop :=
  s.thread t = .entering k ∨ s.thread t = .awakened k

namespace Monitor

variable {ι κ γ ρ σ : Type}

/-- The places that threads can be in: calls start at entry points, and a thread that waits on `c`
goes on at a point with `Q c`. -/
structure Placed (M : Monitor ι κ γ ρ σ) (Q : γ → κ → Prop) (x : Thread κ γ) : Prop where
  entering : ∀ k, x = .entering k → M.entry k
  asleep : ∀ c k, x = .asleep c k → Q c k
  awakened : ∀ k, x = .awakened k → ∃ c, Q c k

lemma placed_outside (M : Monitor ι κ γ ρ σ) (Q : γ → κ → Prop) :
    M.Placed Q (.outside : Thread κ γ) :=
  ⟨by simp, by simp, by simp⟩

variable {M : Monitor ι κ γ ρ σ} {Q : γ → κ → Prop} {s s₀ s' : MState ι κ γ σ}
  {C : MState ι κ γ σ → Label ι κ γ ρ → Prop} {ls : List (Label ι κ γ ρ)} {l : Label ι κ γ ρ}

lemma Placed.awaken {x : Thread κ γ} (h : M.Placed Q x) : M.Placed Q x.awaken := by
  cases x with
  | asleep c k =>
    refine ⟨by simp [Thread.awaken], by simp [Thread.awaken], ?_⟩
    intro k' hk'
    obtain rfl : k = k' := by simpa [Thread.awaken] using hk'
    exact ⟨c, h.asleep c k rfl⟩
  | _ => exact h

lemma placed_after (M : Monitor ι κ γ ρ σ) {e : Exit κ γ ρ} (hQ : ∀ c k, e = .wait c k → Q c k) :
    M.Placed Q (Thread.after e) := by
  cases e with
  | wait c k =>
    refine ⟨by simp [Thread.after], ?_, by simp [Thread.after]⟩
    intro c' k' h
    obtain ⟨rfl, rfl⟩ : c = c' ∧ k = k' := by simpa [Thread.after] using h
    exact hQ c k rfl
  | _ => exact ⟨by simp [Thread.after], by simp [Thread.after], by simp [Thread.after]⟩

variable [DecidableEq ι]

def afterRun (M : Monitor ι κ γ ρ σ) (s : MState ι κ γ σ) (t : ι) (k : κ) (W : Finset ι) :
    MState ι κ γ σ where
  shared := (M.sect t k s.shared).shared
  thread := update (wakeAll W s.thread) t (Thread.after (M.sect t k s.shared).exit)

lemma asleep_of_afterRun {t x : ι} {c : γ} {k k' : κ} {W : Finset ι}
    (h : (M.afterRun s t k W).thread x = .asleep c k') :
    (x = t ∧ (M.sect t k s.shared).exit = .wait c k') ∨ (x ≠ t ∧ s.thread x = .asleep c k') := by
  by_cases hx : x = t
  · subst hx
    simp only [afterRun, update_self] at h
    cases he : (M.sect x k s.shared).exit with
    | wait c' k'' =>
      rw [he] at h
      obtain ⟨rfl, rfl⟩ : c' = c ∧ k'' = k' := by simpa [Thread.after] using h
      exact .inl ⟨rfl, rfl⟩
    | _ =>
      rw [he] at h
      cases h
  · simp only [afterRun, update_of_ne hx, wakeAll] at h
    refine .inr ⟨hx, ?_⟩
    split at h
    · cases hs : s.thread x <;> rw [hs] at h <;> cases h
    · exact h

/-- A thread calls, runs a critical section, or wakes up without reason. -/
inductive Step (M : Monitor ι κ γ ρ σ) : MState ι κ γ σ → Label ι κ γ ρ → MState ι κ γ σ → Prop
  | call {s : MState ι κ γ σ} {t : ι} {k : κ} (hout : s.thread t = .outside) (hk : M.entry k) :
      Step M s (.call t k) { s with thread := update s.thread t (.entering k) }
  | spurious {s : MState ι κ γ σ} {t : ι} {c : γ} {k : κ} (hs : s.thread t = .asleep c k) :
      Step M s (.spurious t) { s with thread := update s.thread t (.awakened k) }
  | run {s : MState ι κ γ σ} {t : ι} {k : κ} {W : Finset ι}
      (hready : s.thread t = .entering k ∨ s.thread t = .awakened k)
      (hwake : Wakes s.thread (M.sect t k s.shared).wake W) :
      Step M s (.run t k (M.sect t k s.shared).exit) (M.afterRun s t k W)

/-- The runs from `s₀` in which every step meets the condition `C` on the state before the step and
the step's label, with the labels in order. -/
inductive RunWhen (M : Monitor ι κ γ ρ σ) (C : MState ι κ γ σ → Label ι κ γ ρ → Prop)
    (s₀ : MState ι κ γ σ) : List (Label ι κ γ ρ) → MState ι κ γ σ → Prop
  | nil : RunWhen M C s₀ [] s₀
  | snoc {ls : List (Label ι κ γ ρ)} {s s' : MState ι κ γ σ} {l : Label ι κ γ ρ}
      (hrun : RunWhen M C s₀ ls s) (hstep : M.Step s l s') (hC : C s l) :
      RunWhen M C s₀ (ls ++ [l]) s'

/-- A run of the monitor. -/
def Run (M : Monitor ι κ γ ρ σ) (s₀ : MState ι κ γ σ) : List (Label ι κ γ ρ) →
    MState ι κ γ σ → Prop :=
  M.RunWhen (fun _ _ => True) s₀

lemma RunWhen.invariant (hrun : M.RunWhen C s₀ ls s) {I : MState ι κ γ σ → Prop} (h₀ : I s₀)
    (hstep : ∀ s l s', I s → M.Step s l s' → C s l → I s') : I s := by
  induction hrun with
  | nil => exact h₀
  | snoc _ hst hC ih => exact hstep _ _ _ ih hst hC

lemma RunWhen.call (hrun : M.RunWhen C s₀ ls s) (t : ι) (k : κ) (hout : s.thread t = .outside)
    (hk : M.entry k) (hC : C s (.call t k)) :
    M.RunWhen C s₀ (ls ++ [.call t k])
      { s with thread := update s.thread t (.entering k) } :=
  .snoc hrun (.call hout hk) hC

lemma RunWhen.section (hrun : M.RunWhen C s₀ ls s) (t : ι) (k : κ) (W : Finset ι)
    (hready : s.Ready t k) (hwake : Wakes s.thread (M.sect t k s.shared).wake W)
    (hC : C s (.run t k (M.sect t k s.shared).exit)) :
    M.RunWhen C s₀ (ls ++ [.run t k (M.sect t k s.shared).exit]) (M.afterRun s t k W) :=
  .snoc hrun (.run hready hwake) hC

lemma RunWhen.next (_ : M.RunWhen C s₀ ls s) (t : ι) (k : κ) (W : Finset ι) {e : Exit κ γ ρ}
    (hready : s.Ready t k) (hwake : Wakes s.thread (M.sect t k s.shared).wake W)
    (he : (M.sect t k s.shared).exit = e) :
    M.Step s (.run t k e) (M.afterRun s t k W) :=
  he ▸ .run hready hwake

/-- A property of places that calls start with, that waking up keeps and that sections end with is
kept by every step. -/
lemma Step.forall_thread {P : Thread κ γ → Prop} (hst : M.Step s l s') (h : ∀ i, P (s.thread i))
    (hcall : ∀ k, M.entry k → P (.entering k)) (hawaken : ∀ x, P x → P x.awaken)
    (hrun : ∀ t k, s.Ready t k → P (Thread.after (M.sect t k s.shared).exit)) (i : ι) :
    P (s'.thread i) := by
  cases hst with
  | @call t k hout hk =>
    by_cases hi : i = t
    · subst hi
      simpa using hcall k hk
    · simpa [update_of_ne hi] using h i
  | @spurious t c k hs =>
    by_cases hi : i = t
    · subst hi
      have hw := hawaken _ (h i)
      rw [hs] at hw
      simpa [Thread.awaken] using hw
    · simpa [update_of_ne hi] using h i
  | @run t k W hready hwake =>
    by_cases hi : i = t
    · subst hi
      simpa [afterRun] using hrun i k hready
    · simp only [afterRun, update_of_ne hi, wakeAll]
      split
      · exact hawaken _ (h i)
      · exact h i

lemma Step.placed (hst : M.Step s l s') (h : ∀ i, M.Placed Q (s.thread i))
    (hQ : ∀ t k, s.Ready t k → ∀ c k', (M.sect t k s.shared).exit = .wait c k' → Q c k') :
    ∀ i, M.Placed Q (s'.thread i) :=
  hst.forall_thread h (fun k hk => ⟨by simpa using hk, by simp, by simp⟩) (fun _ hx => hx.awaken)
    fun t k hready => placed_after M (hQ t k hready)

lemma Step.not_crashed (hst : M.Step s l s') (h : ∀ i, s.thread i ≠ .crashed)
    (hsec : ∀ t k, s.Ready t k → (M.sect t k s.shared).exit ≠ .crash) :
    ∀ i, s'.thread i ≠ .crashed := by
  refine hst.forall_thread (P := fun x => x ≠ .crashed) h (fun k _ => by simp) (fun x hx => ?_)
    fun t k hready => ?_
  · cases x <;> simp_all [Thread.awaken]
  · have := hsec t k hready
    cases he : (M.sect t k s.shared).exit <;> simp_all [Thread.after]

end Monitor

/-! ## Counting the threads inside a wait -/

section Counting

variable {ι κ γ ρ σ : Type} [DecidableEq ι] {t i : ι} {thread : ι → Thread κ γ} {k : κ}
  {W : Finset ι} {q : κ → Bool}

lemma wakeAll_ready (W : Finset ι) (hready : thread t = .entering k ∨ thread t = .awakened k) :
    wakeAll W thread t = thread t := by
  unfold wakeAll
  rcases hready with h | h <;> simp [h, Thread.awaken]

lemma wakeAll_of_notMem (hi : i ∉ W) : wakeAll W thread i = thread i := if_neg hi

lemma wakeAll_of_mem (hi : i ∈ W) : wakeAll W thread i = (thread i).awaken := if_pos hi

@[simp] lemma inWait_wakeAll (q : κ → Bool) (W : Finset ι) (thread : ι → Thread κ γ) (i : ι) :
    (wakeAll W thread i).inWait q = (thread i).inWait q := by
  unfold wakeAll
  split <;> simp

variable [Fintype ι]

def countThreads (p : Thread κ γ → Bool) (thread : ι → Thread κ γ) : ℕ :=
  ∑ i, (p (thread i)).toNat

def waiting (q : κ → Bool) (thread : ι → Thread κ γ) : ℕ :=
  countThreads (Thread.inWait q) thread

lemma countThreads_update (p : Thread κ γ → Bool) (thread : ι → Thread κ γ) (t : ι)
    (x : Thread κ γ) :
    countThreads p (update thread t x) + (p (thread t)).toNat =
      countThreads p thread + (p x).toNat :=
  sum_update_add (fun y => (p y).toNat) thread t x

omit [DecidableEq ι] in
lemma countThreads_pos (p : Thread κ γ → Bool) (thread : ι → Thread κ γ) :
    0 < countThreads p thread ↔ ∃ i, p (thread i) = true := by
  unfold countThreads
  constructor
  · intro h
    obtain ⟨i, -, hi⟩ := Finset.exists_ne_zero_of_sum_ne_zero h.ne'
    exact ⟨i, by simpa using hi⟩
  · rintro ⟨i, hi⟩
    refine Finset.sum_pos' (fun _ _ => Nat.zero_le _) ⟨i, Finset.mem_univ i, ?_⟩
    simp [hi]

lemma waiting_wakeAll (q : κ → Bool) (W : Finset ι) (thread : ι → Thread κ γ) :
    waiting q (wakeAll W thread) = waiting q thread := by
  simp [waiting, countThreads]

omit [DecidableEq ι] in
lemma waiting_pos (q : κ → Bool) (thread : ι → Thread κ γ) :
    0 < waiting q thread ↔ ∃ i, (thread i).inWait q = true :=
  countThreads_pos _ _

omit [DecidableEq ι] in
@[simp] lemma waiting_start (q : κ → Bool) (a : σ) :
    waiting q (MState.start a : MState ι κ γ σ).thread = 0 := by
  simp [waiting, countThreads, MState.start]

lemma waiting_afterRun (q : κ → Bool) (M : Monitor ι κ γ ρ σ) (s : MState ι κ γ σ) (W : Finset ι)
    (hready : s.Ready t k) :
    waiting q (M.afterRun s t k W).thread + ((s.thread t).inWait q).toNat =
      waiting q s.thread +
        ((Thread.after (M.sect t k s.shared).exit : Thread κ γ).inWait q).toNat := by
  have h := countThreads_update (Thread.inWait q) (wakeAll W s.thread) t
    (Thread.after (M.sect t k s.shared).exit)
  rw [wakeAll_ready W hready] at h
  rw [← waiting_wakeAll q W s.thread]
  exact h

lemma waiting_update_of_inWait_eq (q : κ → Bool) {x : Thread κ γ}
    (h : x.inWait q = (thread t).inWait q) :
    waiting q (update thread t x) = waiting q thread := by
  have hc := countThreads_update (Thread.inWait q) thread t x
  rw [h] at hc
  exact Nat.add_right_cancel hc

/-! ### Sleeping and awakened threads apart -/

def sleeping (q : κ → Bool) (thread : ι → Thread κ γ) : ℕ :=
  countThreads (Thread.isAsleep q) thread

def awakened (q : κ → Bool) (thread : ι → Thread κ γ) : ℕ :=
  countThreads (Thread.isAwakened q) thread

omit [DecidableEq ι] in
lemma exists_asleepOn (h : 0 < sleeping q thread) : ∃ i c, (thread i).AsleepOn c := by
  obtain ⟨i, hi⟩ := (countThreads_pos _ _).mp h
  cases hx : thread i with
  | asleep c k => exact ⟨i, c, k, hx⟩
  | _ => rw [hx] at hi; cases hi

omit [DecidableEq ι] in
lemma countThreads_mono {p : Thread κ γ → Bool} {f g : ι → Thread κ γ}
    (h : ∀ i, p (f i) = true → p (g i) = true) : countThreads p f ≤ countThreads p g := by
  refine Finset.sum_le_sum fun i _ => ?_
  cases hf : p (f i) with
  | false => simp
  | true => simp [h i hf]

omit [DecidableEq ι] in
lemma countThreads_lt {p : Thread κ γ → Bool} {f g : ι → Thread κ γ}
    (h : ∀ i, p (f i) = true → p (g i) = true) (hf : p (f t) = false) (hg : p (g t) = true) :
    countThreads p f < countThreads p g := by
  refine Finset.sum_lt_sum (fun i _ => ?_) ⟨t, Finset.mem_univ t, by simp [hf, hg]⟩
  cases hfi : p (f i) with
  | false => simp
  | true => simp [h i hfi]

lemma sleeping_wakeAll_le (q : κ → Bool) (W : Finset ι) (thread : ι → Thread κ γ) :
    sleeping q (wakeAll W thread) ≤ sleeping q thread := by
  refine countThreads_mono fun i hi => ?_
  unfold wakeAll at hi
  split at hi
  · cases hx : thread i <;> rw [hx] at hi <;> cases hi
  · exact hi

omit [Fintype ι] in
lemma isAwakened_wakeAll (h : (thread i).isAwakened q = true) :
    (wakeAll W thread i).isAwakened q = true := by
  unfold wakeAll
  split
  · cases hx : thread i <;> rw [hx] at h <;> first | exact h | cases h
  · exact h

lemma awakened_le_wakeAll (q : κ → Bool) (W : Finset ι) (thread : ι → Thread κ γ) :
    awakened q thread ≤ awakened q (wakeAll W thread) :=
  countThreads_mono fun _ hi => isAwakened_wakeAll hi

lemma awakened_lt_wakeAll (hi : i ∈ W) (hq : (thread i).isAsleep q = true) :
    awakened q thread < awakened q (wakeAll W thread) := by
  obtain ⟨c, k, hx⟩ : ∃ c k, thread i = .asleep c k := by
    cases hx : thread i <;> rw [hx] at hq <;> first | exact ⟨_, _, rfl⟩ | cases hq
  refine countThreads_lt (fun _ hj => isAwakened_wakeAll hj) (t := i) (by rw [hx]; rfl) ?_
  rw [wakeAll_of_mem hi, hx]
  rw [hx] at hq
  exact hq

lemma awakened_lt_of_signal {c : γ} (hwake : Wakes thread (some (.signal c)) W)
    (hsome : ∃ i, (thread i).AsleepOn c)
    (hq : ∀ i, (thread i).AsleepOn c → (thread i).isAsleep q = true) :
    awakened q thread < awakened q (wakeAll W thread) := by
  obtain ⟨i, hi⟩ := hwake.2 hsome
  exact awakened_lt_wakeAll hi (hq i (hwake.1 i hi))

omit [DecidableEq ι] in
lemma awakened_eq_zero (h : ∀ t k, thread t ≠ .awakened k) (q : κ → Bool) :
    awakened q thread = 0 := by
  by_contra hne
  obtain ⟨t, ht⟩ := (countThreads_pos _ _).mp (Nat.pos_of_ne_zero hne)
  cases hx : thread t with
  | awakened k => exact h t k hx
  | _ => rw [hx] at ht; cases ht

lemma sleeping_awakened_call (q : κ → Bool) (k : κ) (hout : thread t = .outside) :
    sleeping q (update thread t (.entering k)) = sleeping q thread ∧
      awakened q (update thread t (.entering k)) = awakened q thread := by
  have hs := countThreads_update (Thread.isAsleep q) thread t (.entering k)
  have ha := countThreads_update (Thread.isAwakened q) thread t (.entering k)
  rw [hout] at hs ha
  exact ⟨hs, ha⟩

lemma sleeping_awakened_spurious (q : κ → Bool) {c : γ} (hs : thread t = .asleep c k) :
    sleeping q (update thread t (.awakened k)) ≤ sleeping q thread ∧
      awakened q thread ≤ awakened q (update thread t (.awakened k)) := by
  have hsleep := countThreads_update (Thread.isAsleep q) thread t (.awakened k)
  have hawake := countThreads_update (Thread.isAwakened q) thread t (.awakened k)
  rw [hs] at hawake
  simp only [Thread.isAsleep, Thread.isAwakened, Bool.toNat_false, Nat.add_zero] at hsleep hawake
  unfold sleeping awakened
  constructor
  · omega
  · omega

lemma sleeping_awakened_afterRun (q : κ → Bool) (M : Monitor ι κ γ ρ σ) (s : MState ι κ γ σ)
    (W : Finset ι) (hready : s.Ready t k) :
    sleeping q (M.afterRun s t k W).thread =
        sleeping q (wakeAll W s.thread) +
          ((Thread.after (M.sect t k s.shared).exit : Thread κ γ).isAsleep q).toNat ∧
      awakened q (M.afterRun s t k W).thread + ((s.thread t).isAwakened q).toNat =
        awakened q (wakeAll W s.thread) := by
  have hs := countThreads_update (Thread.isAsleep q) (wakeAll W s.thread) t
    (Thread.after (M.sect t k s.shared).exit)
  have ha := countThreads_update (Thread.isAwakened q) (wakeAll W s.thread) t
    (Thread.after (M.sect t k s.shared).exit)
  rw [wakeAll_ready W hready] at hs ha
  have hnot : (s.thread t).isAsleep q = false := by rcases hready with h | h <;> rw [h] <;> rfl
  have hafter : (Thread.after (M.sect t k s.shared).exit : Thread κ γ).isAwakened q = false := by
    cases (M.sect t k s.shared).exit <;> rfl
  rw [hnot] at hs
  rw [hafter] at ha
  exact ⟨hs, ha⟩

end Counting

end UnixPrograms
