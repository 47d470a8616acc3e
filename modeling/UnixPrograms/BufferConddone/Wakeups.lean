import UnixPrograms.BufferConddone.Model
import UnixPrograms.Lib.Sums
import Mathlib.Algebra.Order.BigOperators.Group.Finset
import Mathlib.Data.Fintype.BigOperators

/-!
# Order, cancellation and wake-ups of the bounded buffer

`getitem` gives out the items in the order in which `putitem` has accepted them, a `getitem` is
canceled only when the flag is set and the buffer is empty, and no wake-up is lost
(`buffer_correct`): enough threads are on their way to the items or slots (`Balanced`), or a
broadcast is still to come (`Covered`).
-/

namespace UnixPrograms.BufferConddone

open Function Option

section Wakeups

variable {ι α : Type} [DecidableEq ι] [Fintype ι] {s s' : State ι α} {t : ι}

/-! ## Threads on their way -/

/-- 1 for a thread that is on its way to use what the threads blocked on `c` wait for, or to wake
one of them. -/
def Place.credit (c : Cond) : Place α → ℕ
  | awakened k | inside k => if k.waits = some c then 1 else 0
  | signal k _ => if k.signals = some c then 1 else 0
  | _ => 0

def Place.broadcasts (c : Cond) : Place α → Bool
  | broadcastItems => true
  | broadcastSlots => decide (c = .slots)
  | _ => false

/-- A thread is blocked on the condition. -/
def SomeAsleep (c : Cond) (thread : ι → Place α) : Prop := ∃ i, (thread i).asleepOn c = true

def credits (c : Cond) (thread : ι → Place α) : ℕ := ∑ i, (thread i).credit c

/-- If threads are blocked on the condition, for each of the `n` things that they wait for a thread
is on its way. -/
def Balanced (c : Cond) (n : ℤ) (thread : ι → Place α) : Prop :=
  SomeAsleep c thread → n ≤ credits c thread

variable {c : Cond} {n n' : ℤ} {thread : ι → Place α} {p : Place α} {W : Finset ι}

omit [Fintype ι] in
lemma someAsleep_of_update (hp : p.asleepOn c = false)
    (h : SomeAsleep c (update thread t p)) : SomeAsleep c thread := by
  obtain ⟨i, hi⟩ := h
  by_cases hit : i = t
  · subst hit
    rw [update_self, hp] at hi
    cases hi
  · rw [update_of_ne hit] at hi
    exact ⟨i, hi⟩

omit [Fintype ι] in
lemma someAsleep_of_wakeUp (h : SomeAsleep c (wakeUp W thread)) : SomeAsleep c thread := by
  obtain ⟨i, hi⟩ := h
  refine ⟨i, ?_⟩
  unfold wakeUp at hi
  split at hi
  · cases hthread : thread i <;> rw [hthread] at hi <;> cases hi
  · exact hi

omit [Fintype ι] in
lemma credit_le_wakeUp (c : Cond) (W : Finset ι) (thread : ι → Place α) (i : ι) :
    (thread i).credit c ≤ (wakeUp W thread i).credit c := by
  unfold wakeUp
  split
  · cases thread i <;> simp [Place.awaken, Place.credit]
  · exact Nat.le_refl _

lemma credits_update (c : Cond) (thread : ι → Place α) (t : ι) (p : Place α) :
    credits c (update thread t p) + (thread t).credit c =
      credits c thread + p.credit c :=
  sum_update_add (fun q : Place α => q.credit c) thread t p

lemma credits_le_wakeUp (c : Cond) (W : Finset ι) (thread : ι → Place α) :
    credits c thread ≤ credits c (wakeUp W thread) :=
  Finset.sum_le_sum fun i _ => credit_le_wakeUp c W thread i

variable {i : ι}

lemma credits_lt_wakeUp (hi : i ∈ W) (hasleep : (thread i).asleepOn c = true) :
    credits c thread < credits c (wakeUp W thread) := by
  refine Finset.sum_lt_sum (fun j _ => credit_le_wakeUp c W thread j) ⟨i, Finset.mem_univ i, ?_⟩
  unfold wakeUp
  rw [if_pos hi]
  cases hthread : thread i with
  | asleep k =>
    rw [hthread] at hasleep
    simp [Place.awaken, Place.credit, of_decide_eq_true hasleep]
  | _ =>
    rw [hthread] at hasleep
    cases hasleep

omit [DecidableEq ι] in
lemma Balanced.of_nonpos (hn : n ≤ 0) : Balanced c n thread := fun _ => by omega

lemma Balanced.update (h : Balanced c n thread) (hp : p.asleepOn c = false)
    (hle : n' + (thread t).credit c ≤ n + p.credit c) :
    Balanced c n' (update thread t p) := by
  intro hsome
  have hbefore := h (someAsleep_of_update hp hsome)
  have hcredits := credits_update c thread t p
  omega

lemma Balanced.move (h : Balanced c n thread) (hp : p.asleepOn c = false)
    (hle : (thread t).credit c ≤ p.credit c) : Balanced c n (Function.update thread t p) :=
  h.update hp (by omega)

lemma Balanced.wakeUp (h : Balanced c n thread) : Balanced c n (wakeUp W thread) := by
  intro hsome
  have hbefore := h (someAsleep_of_wakeUp hsome)
  have hcredits := credits_le_wakeUp c W thread
  omega

/-- A thread that signals makes up for its own way by waking one. -/
lemma Balanced.signal {k : Call α} {r : Reply α} (h : Balanced c n s.thread)
    (ht : s.thread t = .signal k r) (hW : Reaches s.thread k.signals W) :
    Balanced c n (Function.update (BufferConddone.wakeUp W s.thread) t (.unlock k r)) := by
  intro hsome
  have hasleep := someAsleep_of_wakeUp (someAsleep_of_update rfl hsome)
  have hbefore := h hasleep
  have hcredits := credits_update c (BufferConddone.wakeUp W s.thread) t (.unlock k r)
  have hself : (BufferConddone.wakeUp W s.thread t).credit c = (s.thread t).credit c := by
    unfold BufferConddone.wakeUp
    rw [ht]
    split <;> rfl
  rw [hself, ht] at hcredits
  simp only [Place.credit] at hcredits
  by_cases hk : k.signals = some c
  · -- the signal is for this condition and reaches somebody
    rw [if_pos hk] at hcredits
    obtain ⟨i, hi⟩ := hW.2 ⟨c, hk, hasleep⟩
    obtain ⟨d, hd, hasleepOn⟩ := hW.1 i hi
    obtain rfl : c = d := some.inj (hk.symm.trans hd)
    have hlt := credits_lt_wakeUp hi hasleepOn
    omega
  · rw [if_neg hk] at hcredits
    have hle := credits_le_wakeUp c W s.thread
    omega

omit [Fintype ι] in
lemma broadcasts_wakeUp (c : Cond) (W : Finset ι) (thread : ι → Place α) (i : ι) :
    (wakeUp W thread i).broadcasts c = (thread i).broadcasts c := by
  unfold wakeUp
  split
  · cases thread i <;> rfl
  · rfl

lemma not_someAsleep_broadcast (hp : p.asleepOn c = false) :
    ¬ SomeAsleep c (update (wakeUp (sleepers c thread) thread) t p) := by
  intro hsome
  obtain ⟨i, hi⟩ := someAsleep_of_update hp hsome
  unfold wakeUp at hi
  split at hi
  · cases hthread : thread i <;> rw [hthread] at hi <;> cases hi
  · next hmem => exact hmem (Finset.mem_filter.mpr ⟨Finset.mem_univ i, hi⟩)

/-- Once the flag is set, threads sleep on a condition only until the broadcast that is to come. -/
def Covered (c : Cond) (thread : ι → Place α) : Prop :=
  SomeAsleep c thread → ∃ i, (thread i).broadcasts c = true

omit [Fintype ι] in
lemma Covered.update (h : Covered c thread) (ht : (thread t).broadcasts c = false)
    (hp : p.asleepOn c = false) : Covered c (update (wakeUp W thread) t p) := by
  intro hsome
  obtain ⟨i, hi⟩ := h (someAsleep_of_wakeUp (someAsleep_of_update hp hsome))
  have hit : i ≠ t := by
    rintro rfl
    rw [ht] at hi
    cases hi
  exact ⟨i, by rw [update_of_ne hit, broadcasts_wakeUp, hi]⟩

omit [Fintype ι] in
lemma Covered.move (h : Covered c thread) (ht : (thread t).broadcasts c = false)
    (hp : p.asleepOn c = false) : Covered c (Function.update thread t p) := by
  have hupdate := h.update (W := ∅) ht hp
  rwa [wakeUp_empty] at hupdate

omit [Fintype ι] in
lemma covered_of_broadcasts (hp : p.broadcasts c = true) : Covered c (update thread t p) :=
  fun _ => ⟨t, by rw [update_self, hp]⟩

lemma covered_effect (h : s.doneflag = true → Covered c s.thread) (he : Effect s s') :
    s'.doneflag = true → Covered c s'.thread := by
  intro hdone
  cases he with
  | call k ht | spurious ht | cancel ht | get ht | getdone ht | unlock ht =>
    exact (h hdone).move (by rw [ht]; rfl) rfl
  | lock hfree ht =>
    rcases ht with ht | ht
    · exact (h hdone).move (by rw [ht]; rfl) rfl
    · exact (h hdone).move (by rw [ht]; rfl) rfl
  | sleep ht hk hnone hfalse | put ht hlt hfalse =>
    exact absurd (hfalse.symm.trans hdone) Bool.false_ne_true
  | setdone ht => exact covered_of_broadcasts rfl
  | signal ht => exact (h hdone).update (by rw [ht]; rfl) rfl
  | broadcastItems ht =>
    cases c with
    | items => exact fun hsome => absurd hsome (not_someAsleep_broadcast rfl)
    | slots => exact covered_of_broadcasts rfl
  | broadcastSlots ht =>
    cases c with
    | items => exact (h hdone).update (by rw [ht]; rfl) rfl
    | slots => exact fun hsome => absurd hsome (not_someAsleep_broadcast rfl)

omit [Fintype ι] in
lemma Exclusive.not_broadcasts (h : Exclusive s) (ht : (s.thread t).holds = true)
    (hnot : (s.thread t).broadcasts c = false) (i : ι) : (s.thread i).broadcasts c = false := by
  by_cases hit : i = t
  · rw [hit, hnot]
  · cases hi : s.thread i with
    | broadcastItems | broadcastSlots =>
      have hown := h i (by rw [hi]; rfl)
      exact absurd (some.inj (hown.symm.trans (h t ht))) hit
    | _ => rfl

lemma balanced_effect (hex : Exclusive s) (hcov : s.doneflag = true → Covered c s.thread)
    (h : Balanced c (surplus c s.totalitems) s.thread) (he : Effect s s') :
    Balanced c (surplus c s'.totalitems) s'.thread := by
  cases he with
  | call k ht | spurious ht | unlock ht => exact h.move rfl (by rw [ht]; exact Nat.zero_le _)
  | getdone ht | setdone ht => exact h.move rfl (by rw [ht]; simp [Place.credit, Call.waits])
  | lock hfree ht =>
    rcases ht with ht | ht
    · exact h.move rfl (by rw [ht]; exact Nat.zero_le _)
    · exact h.move rfl (by rw [ht]; exact Nat.le_refl _)
  | @sleep t k d ht hk hnone hdone =>
    by_cases hcd : c = d
    · subst hcd
      exact .of_nonpos hnone
    · have hwaits : ¬ k.waits = some c := fun hw => hcd (some.inj (hw.symm.trans hk))
      exact h.move (decide_eq_false hwaits) (by rw [ht]; simp [Place.credit, hwaits])
  | @cancel t k ht hdone hk =>
    -- with the flag set and the mutex here nobody is asleep any more
    intro hsome
    obtain ⟨i, hi⟩ := hcov hdone (someAsleep_of_update rfl hsome)
    have hnot := hex.not_broadcasts (t := t) (c := c) (by rw [ht]; rfl) (by rw [ht]; rfl) i
    exact absurd (hi.symm.trans hnot) Bool.noConfusion
  | get ht | put ht =>
    refine h.update rfl ?_
    rw [ht]
    simp only [Place.credit, Call.waits, Call.signals, some.injEq]
    cases c <;> simp only [surplus, reduceCtorEq, if_true, if_false] <;> omega
  | signal ht hW => exact h.signal ht hW
  | broadcastItems ht | broadcastSlots ht =>
    refine h.wakeUp.move rfl ?_
    unfold wakeUp
    rw [ht]
    split <;> exact Nat.le_refl _

def Place.canceled : Place α → Bool
  | signal .getitem .ecanceled | unlock .getitem .ecanceled => true
  | _ => false

/-- What holds in every state of a run. -/
structure Inv (s : State ι α) : Prop where
  exclusive : Exclusive s
  ring : Ring s
  told : Told s
  covered : s.doneflag = true → ∀ c, Covered c s.thread
  balanced : ∀ c, Balanced c (surplus c s.totalitems) s.thread
  /-- A `getitem` that returns `ECANCELED` has found the flag set and the buffer empty. -/
  canceled : ∀ i, (s.thread i).canceled = true → s.doneflag = true ∧ s.totalitems ≤ 0

/-- An empty buffer stays empty once the flag is set. -/
lemma drained_effect (hdone : s.doneflag = true) (hempty : s.totalitems ≤ 0)
    (he : Effect s s') : s'.doneflag = true ∧ s'.totalitems ≤ 0 := by
  cases he with
  | get ht hpos => exact absurd hempty (not_le.mpr hpos)
  | put ht hlt hfalse => exact absurd (hfalse.symm.trans hdone) Bool.false_ne_true
  | setdone ht => exact ⟨rfl, hempty⟩
  | call | lock | spurious | sleep | cancel | getdone | signal | broadcastItems | broadcastSlots
  | unlock => exact ⟨hdone, hempty⟩

omit [Fintype ι] in
lemma canceled_of_update (h : (update (wakeUp W thread) t p i).canceled = true)
    (hp : p.canceled = true → (thread t).canceled = true) : (thread i).canceled = true := by
  by_cases hit : i = t
  · subst hit
    rw [update_self] at h
    exact hp h
  · rw [update_of_ne hit] at h
    unfold wakeUp at h
    split at h
    · cases hthread : thread i <;> rw [hthread] at h <;> exact h
    · exact h

omit [Fintype ι] in
lemma canceled_of_move (h : (update thread t p i).canceled = true)
    (hp : p.canceled = true → (thread t).canceled = true) : (thread i).canceled = true :=
  canceled_of_update (W := ∅) (by rwa [wakeUp_empty]) hp

lemma canceled_effect (h : ∀ i, (s.thread i).canceled = true → s.doneflag = true ∧ s.totalitems ≤ 0)
    (he : Effect s s') (i : ι) (hi : (s'.thread i).canceled = true) :
    s'.doneflag = true ∧ s'.totalitems ≤ 0 := by
  have hbefore : (s.thread i).canceled = true → s'.doneflag = true ∧ s'.totalitems ≤ 0 :=
    fun hcan => drained_effect (h i hcan).1 (h i hcan).2 he
  cases he with
  | call | lock | spurious | sleep | get | put | getdone | setdone | unlock =>
    exact hbefore (canceled_of_move hi fun hp => by cases hp)
  | broadcastItems | broadcastSlots =>
    exact hbefore (canceled_of_update hi fun hp => by cases hp)
  | @signal t k r W ht =>
    refine hbefore (canceled_of_update hi fun hp => ?_)
    rw [ht]
    cases k <;> cases r <;> exact hp
  | @cancel t k ht hdone hk =>
    by_cases hget : k = .getitem
    · exact ⟨hdone, hk hget⟩
    · refine hbefore (canceled_of_move hi fun hp => ?_)
      cases k with
      | getitem => exact absurd rfl hget
      | putitem | getdone | setdone => cases hp

lemma Inv.effect (h : Inv s) (he : Effect s s') : Inv s' where
  exclusive := h.exclusive.effect he
  ring := h.ring.effect he
  told := h.told.effect h.exclusive h.ring he
  covered hdone c := covered_effect (fun hd => h.covered hd c) he hdone
  balanced c := balanced_effect h.exclusive (fun hd => h.covered hd c) (h.balanced c) he
  canceled := canceled_effect h.canceled he

omit [DecidableEq ι] in
lemma inv_start (buffer : ℕ → α) : Inv (start ι buffer) where
  exclusive _ hi := by cases hi
  ring :=
    { left := List.nil_prefix
      total := rfl
      total_le := Int.natCast_nonneg _
      bufin := rfl
      bufout := rfl
      slots := RingHolds.nil _ _ _ }
  told := ⟨rfl, rfl, List.nil_prefix⟩
  covered hdone := by cases hdone
  balanced _ hsome := by
    obtain ⟨i, hi⟩ := hsome
    cases hi
  canceled _ hi := by cases hi

lemma inv_of_run {buffer : ℕ → α} {ls : List (Action ι α)}
    (hrun : RunFrom step (start ι buffer) ls s) : Inv s :=
  hrun.invariant (inv_start buffer) fun _ _ _ h hstep _ => h.effect (effect_of_step hstep)

/-! ## The buffer in every run -/

lemma entered_effect (hdone : s.doneflag = true) (he : Effect s s') : s'.entered = s.entered := by
  cases he with
  | put ht hlt hfalse => exact absurd (hfalse.symm.trans hdone) Bool.false_ne_true
  | _ => rfl

omit [DecidableEq ι] in
lemma Exclusive.credits_eq_zero (h : Exclusive s) (hfree : s.owner = none)
    (hawake : ∀ i k, s.thread i ≠ .awakened k) (c : Cond) : credits c s.thread = 0 := by
  refine Finset.sum_eq_zero fun i _ => ?_
  have hnot : (s.thread i).holds = false := by
    by_contra hholds
    have := h i (Bool.eq_true_of_not_eq_false hholds)
    rw [hfree] at this
    cases this
  cases hi : s.thread i with
  | awakened k => exact absurd hi (hawake i k)
  | inside | signal =>
    rw [hi] at hnot
    cases hnot
  | _ => rfl

omit [DecidableEq ι] in
lemma Inv.asleep (h : Inv s) (hfree : s.owner = none)
    (hawake : ∀ i k, s.thread i ≠ .awakened k) {c : Cond} (hsome : SomeAsleep c s.thread) :
    surplus c s.totalitems ≤ 0 ∧ s.doneflag = false := by
  have hle := h.balanced c hsome
  rw [h.exclusive.credits_eq_zero hfree hawake] at hle
  refine ⟨hle, Bool.eq_false_of_not_eq_true fun hdone => ?_⟩
  obtain ⟨i, hi⟩ := h.covered hdone c hsome
  have hown := h.exclusive i (by cases hp : s.thread i <;> rw [hp] at hi <;> first | rfl | cases hi)
  rw [hfree] at hown
  cases hown

/-- In every run the items that `getitem` has returned are the first of those that `putitem` has
accepted, in their order.  They are those that have left and entered the buffer, when the mutex is
free, and at most `BUFSIZE` are between.  A `getitem` returns `ECANCELED` only with the flag set
and the buffer empty, and then no item enters any more.  With the mutex free and no woken thread
yet to run, a thread sleeps in `getitem` only if the buffer is empty and in `putitem` only if it is
full, and the flag is not set. -/
theorem buffer_correct (buffer : ℕ → α) {ls : List (Action ι α)}
    (hrun : RunFrom step (start ι buffer) ls s) :
    s.replies.filterMap handed <+: s.replies.filterMap accepted ∧
      (s.owner = none → s.left = s.replies.filterMap handed ∧
        s.entered = s.replies.filterMap accepted) ∧
      s.left <+: s.entered ∧
      (∀ t, s.thread t = .unlock .getitem .ecanceled → s.doneflag = true ∧ s.left = s.entered) ∧
      (s.doneflag = true → ∀ a s', step s a = some s' → s'.entered = s.entered) ∧
      s.totalitems = s.entered.length - s.left.length ∧
      0 ≤ s.totalitems ∧ s.totalitems ≤ BUFSIZE ∧
      (s.owner = none → (∀ t k, s.thread t ≠ .awakened k) → ∀ t,
        (s.thread t = .asleep .getitem → s.totalitems = 0 ∧ s.doneflag = false) ∧
        ∀ item, s.thread t = .asleep (.putitem item) →
          s.totalitems = BUFSIZE ∧ s.doneflag = false) := by
  have h := inv_of_run hrun
  have htotal := h.ring.total
  have hle := h.ring.left.length_le
  refine ⟨?_, ?_, h.ring.left, ?_, ?_, htotal, by omega, h.ring.total_le, ?_⟩
  · have hleft := h.told.left
    rw [List.filterMap_append] at hleft
    exact (List.prefix_append _ _).trans (hleft ▸ h.told.left_le)
  · intro hfree
    have hleft := h.told.left
    have hentered := h.told.entered
    rw [due_of_free hfree, List.append_nil] at hleft hentered
    exact ⟨hleft, hentered⟩
  · intro t ht
    obtain ⟨hdone, hempty⟩ := h.canceled t (by rw [ht]; rfl)
    exact ⟨hdone, h.ring.left.eq_of_length (by omega)⟩
  · exact fun hdone _ _ hstep => entered_effect hdone (effect_of_step hstep)
  · intro hfree hawake t
    refine ⟨fun ht => ?_, fun item ht => ?_⟩
    · have hasleep := h.asleep hfree hawake (c := .items) ⟨t, by rw [ht]; rfl⟩
      simp only [surplus] at hasleep
      exact ⟨by omega, hasleep.2⟩
    · have hasleep := h.asleep hfree hawake (c := .slots) ⟨t, by rw [ht]; rfl⟩
      have hfull := h.ring.total_le
      simp only [surplus] at hasleep
      exact ⟨by omega, hasleep.2⟩

end Wakeups

def handOver : List (Action Bool ℕ) :=
  [.call false .getitem, .lock false, .run false, .call true (.putitem 5), .lock true, .run true,
    .signal true {false}, .unlock true, .call true (.putitem 6), .lock true, .run true,
    .signal true ∅, .unlock true, .lock false, .run false, .signal false ∅, .unlock false]

/-- A run in which the first of two items is handed over to a thread that has slept. -/
theorem buffer_correct_handOver :
    ∃ s, RunFrom step (start Bool fun _ => 0) handOver s ∧
      s.replies.filterMap handed = [5] ∧ s.replies.filterMap accepted = [5, 6] ∧
      s.replies.filterMap handed <+: s.replies.filterMap accepted := by
  obtain ⟨s, hrun, hgot, hput⟩ := exists_runFrom step (start Bool fun _ => 0) handOver
    (fun s => s.replies.filterMap handed = [5] ∧ s.replies.filterMap accepted = [5, 6])
    (by decide)
  exact ⟨s, hrun, hgot, hput, (buffer_correct _ hrun).1⟩

end UnixPrograms.BufferConddone
