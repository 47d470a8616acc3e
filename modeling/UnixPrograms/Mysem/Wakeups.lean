import UnixPrograms.Mysem.Model

/-!
# Counts and lost wake-ups of a semaphore

`mysem_post` signals only when it finds the count 0, so that a thread may sleep on although the
count is positive (`mysem_lost_wakeup`).  `PostReaches` is the condition on the posts of a run under
which the count is right and no wake-up is lost (`mysem_count_and_wakeups`).
-/

namespace UnixPrograms.Mysem

/-! ## What one critical section does -/

/-- The sections of an open semaphore, by what they do. -/
inductive Outcome (sem : Sem) : Point → SemSection → Prop
  | taken {k : Point} (hk : k ≠ .post) (hpos : 0 < sem.semCount) :
      Outcome sem k
        { shared := { sem with semCount := sem.semCount - 1 }, wake := none, exit := .ret .ok }
  | sleeps {k : Point} (hk : k ≠ .post) (hzero : sem.semCount = 0) :
      Outcome sem k { shared := sem, wake := none, exit := .wait () .waitLoop }
  | again (hzero : sem.semCount = 0) : Outcome sem .trywait (fail sem EAGAIN)
  | posted : Outcome sem .post
      { shared := { sem with semCount := (sem.semCount + 1) % uintSize }
        wake := if sem.semCount = 0 then some (.signal ()) else none
        exit := .ret .ok }

variable {k : Point} {sem : Sem} {value : ℕ}

lemma outcome_waitLoop (sem : Sem) (hk : k ≠ .post) : Outcome sem k (waitLoop sem) := by
  unfold waitLoop
  split
  · exact .sleeps hk ‹_›
  · exact .taken hk (Nat.pos_of_ne_zero ‹_›)

lemma outcome (hmagic : sem.semMagic = SEM_MAGIC) (k : Point) :
    Outcome sem k (criticalSection k sem) := by
  have hopen : ¬ sem.semMagic ≠ SEM_MAGIC := not_not.mpr hmagic
  cases k with
  | wait =>
    rw [criticalSection, mysemWait, if_neg hopen]
    exact outcome_waitLoop sem (by decide)
  | waitLoop => exact outcome_waitLoop sem (by decide)
  | trywait =>
    rw [criticalSection, mysemTrywait, if_neg hopen]
    split
    · exact .taken (by decide) ‹_›
    · exact .again (Nat.eq_zero_of_not_pos ‹_›)
  | post =>
    rw [criticalSection, mysemPost, if_neg hopen]
    exact .posted

def WaitsOn (_ : Unit) (k : Point) : Prop := k = .waitLoop

lemma Outcome.waitsOn {k' : Point} {c : Unit} {sec : SemSection} (ho : Outcome sem k sec)
    (he : sec.exit = .wait c k') : WaitsOn c k' := by
  cases ho with
  | sleeps hk hzero => exact (Exit.wait.inj he).2.symm
  | taken hk hpos | again hzero | posted => cases he

lemma Outcome.magic {sec : SemSection} (ho : Outcome sem k sec) :
    sec.shared.semMagic = sem.semMagic := by
  cases ho <;> rfl

variable {ι : Type} [DecidableEq ι] [Fintype ι]

/-! ## The invariant -/

def anyWait (_ : Point) : Bool := true

/-- No awakened thread has yet to run, and a thread sleeps in `mysem_wait` although the count is
positive. -/
def LostWakeup (s : SemState ι) : Prop :=
  (∀ t k, s.thread t ≠ .awakened k) ∧ 0 < s.shared.semCount ∧ ∃ t c, (s.thread t).AsleepOn c

/-- A post does not wrap the count around, and if threads sleep, it finds the count 0, or more
threads awakened than the count. -/
def PostReaches (s : SemState ι) : Label ι Point Unit Reply → Prop
  | .run _ .post _ => s.shared.semCount + 1 < uintSize ∧
      (0 < sleeping anyWait s.thread →
        s.shared.semCount = 0 ∨ s.shared.semCount < awakened anyWait s.thread)
  | _ => True

/-- The semaphore in a run with the labels `ls` from the initial value `value`. -/
structure Running (value : ℕ) (ls : List (Label ι Point Unit Reply)) (s : SemState ι) : Prop where
  magic : s.shared.semMagic = SEM_MAGIC
  placed : ∀ t, (semMonitor ι).Placed WaitsOn (s.thread t)
  count : s.shared.semCount + waits ls = value + posts ls
  /-- If threads sleep, one has been woken for each unit of the count. -/
  balanced : 0 < sleeping anyWait s.thread → s.shared.semCount ≤ awakened anyWait s.thread

variable {s : SemState ι} {ls : List (Label ι Point Unit Reply)}

omit [DecidableEq ι] in
lemma Running.not_lostWakeup (h : Running value ls s) : ¬ LostWakeup s := by
  rintro ⟨hnone, hpos, t, c, k, ht⟩
  have hsleep : 0 < sleeping anyWait s.thread := (countThreads_pos _ _).mpr ⟨t, by rw [ht]; rfl⟩
  have hle := h.balanced hsleep
  rw [awakened_eq_zero hnone] at hle
  omega

omit [Fintype ι] [DecidableEq ι] in
lemma posts_waits_concat (ls : List (Label ι Point Unit Reply)) (l : Label ι Point Unit Reply) :
    posts (ls ++ [l]) = posts ls + (isPost l).toNat ∧
      waits (ls ++ [l]) = waits ls + (isWait l).toNat := by
  unfold posts waits
  rw [List.countP_append, List.countP_append]
  cases hp : isPost l <;> cases hw : isWait l <;> simp [hp, hw]

omit [Fintype ι] [DecidableEq ι] in
/-- A post is made by a thread that nobody had to wake. -/
lemma isAwakened_post {t : ι} (hp : (semMonitor ι).Placed WaitsOn (s.thread t))
    (hready : s.thread t = .entering .post ∨ s.thread t = .awakened .post) :
    (s.thread t).isAwakened anyWait = false := by
  rcases hready with h | h
  · rw [h]
    rfl
  · obtain ⟨c, hc⟩ := hp.awakened _ h
    cases hc

omit [DecidableEq ι] in
lemma exists_asleepOn_cond (h : 0 < sleeping anyWait s.thread) : ∃ i, (s.thread i).AsleepOn () := by
  obtain ⟨i, c, hi⟩ := exists_asleepOn h
  exact ⟨i, hi⟩

lemma Running.run (h : Running value ls s) {t : ι} {W : Finset ι} (hready : s.Ready t k)
    (hwake : Wakes s.thread (criticalSection k s.shared).wake W)
    (hC : PostReaches s (.run t k (criticalSection k s.shared).exit)) :
    (criticalSection k s.shared).shared.semCount +
          waits (ls ++ [.run t k (criticalSection k s.shared).exit]) =
        value + posts (ls ++ [.run t k (criticalSection k s.shared).exit]) ∧
      (0 < sleeping anyWait ((semMonitor ι).afterRun s t k W).thread →
        (criticalSection k s.shared).shared.semCount ≤
          awakened anyWait ((semMonitor ι).afterRun s t k W).thread) := by
  have hexit : ((semMonitor ι).sect t k s.shared).exit = (criticalSection k s.shared).exit := rfl
  -- the counts before and after
  obtain ⟨hs, hw⟩ := sleeping_awakened_afterRun anyWait (semMonitor ι) s W hready
  obtain ⟨hposts, hwaits⟩ := posts_waits_concat ls (.run t k (criticalSection k s.shared).exit)
  rw [hexit] at hs
  rw [hposts, hwaits]
  have hle := sleeping_wakeAll_le anyWait W s.thread
  have hge := awakened_le_wakeAll anyWait W s.thread
  have hone := Bool.toNat_le ((s.thread t).isAwakened anyWait)
  have hcount := h.count
  have hbal := h.balanced
  have ho := outcome h.magic k
  generalize criticalSection k s.shared = sec at ho hs hwake hC ⊢
  cases ho with
  | taken hk hpos =>
    have hlabel : isPost (.run t k (.ret .ok) : Label ι Point Unit Reply) = false ∧
        isWait (.run t k (.ret .ok) : Label ι Point Unit Reply) = true := by
      cases k with
      | post => exact absurd rfl hk
      | _ => exact ⟨rfl, rfl⟩
    simp only [hlabel, Thread.after, Thread.isAsleep, Bool.toNat_false, Bool.toNat_true,
      Nat.add_zero] at hs ⊢
    exact ⟨by omega, fun hpos => by omega⟩
  | sleeps hk hzero =>
    have hlabel : isPost (.run t k (.wait () .waitLoop) : Label ι Point Unit Reply) = false ∧
        isWait (.run t k (.wait () .waitLoop) : Label ι Point Unit Reply) = false := by
      cases k <;> exact ⟨rfl, rfl⟩
    simp only [hlabel, Bool.toNat_false, Nat.add_zero]
    exact ⟨hcount, fun hpos => by omega⟩
  | again hzero =>
    simp only [fail, isPost, isWait, Bool.toNat_false, Nat.add_zero]
    exact ⟨hcount, fun hpos => by omega⟩
  | posted =>
    obtain ⟨hfit, hreach⟩ := hC
    have hlabel : isPost (.run t .post (.ret .ok) : Label ι Point Unit Reply) = true ∧
        isWait (.run t .post (.ret .ok) : Label ι Point Unit Reply) = false := ⟨rfl, rfl⟩
    rw [isAwakened_post (h.placed t) hready] at hw
    simp only [hlabel, Thread.after, Thread.isAsleep, Bool.toNat_false, Bool.toNat_true,
      Nat.add_zero, Nat.mod_eq_of_lt hfit] at hs hw ⊢
    refine ⟨by omega, fun hpos => ?_⟩
    rcases hreach (by omega) with hzero | hmany
    · rw [if_pos hzero] at hwake
      have hlt := awakened_lt_of_signal (q := anyWait) hwake (exists_asleepOn_cond (by omega))
        fun i hi => by
          obtain ⟨k', hk'⟩ := hi
          rw [hk']
          rfl
      omega
    · omega

lemma Running.step {s' : SemState ι} {l : Label ι Point Unit Reply} (h : Running value ls s)
    (hst : (semMonitor ι).Step s l s') (hC : PostReaches s l) : Running value (ls ++ [l]) s' := by
  have hplaced := hst.placed h.placed fun t k hready c k' he => (outcome h.magic k).waitsOn he
  obtain ⟨hposts, hwaits⟩ := posts_waits_concat ls l
  cases hst with
  | @call t k hout hk =>
    obtain ⟨hs, hw⟩ := sleeping_awakened_call anyWait k hout
    refine ⟨h.magic, hplaced, ?_, fun hpos => ?_⟩
    · rw [hposts, hwaits]
      exact h.count
    · rw [hw]
      exact h.balanced (hs ▸ hpos)
  | @spurious t c k hs =>
    obtain ⟨hle, hge⟩ := sleeping_awakened_spurious anyWait hs
    refine ⟨h.magic, hplaced, ?_, fun hpos => ?_⟩
    · rw [hposts, hwaits]
      exact h.count
    · exact (h.balanced (Nat.lt_of_lt_of_le hpos hle)).trans hge
  | @run t k W hready hwake =>
    obtain ⟨hcount, hbal⟩ := h.run hready hwake hC
    exact ⟨(outcome h.magic k).magic.trans h.magic, hplaced, hcount, hbal⟩

omit [DecidableEq ι] in
lemma running_start (value : ℕ) : Running value [] (semStart ι value) where
  magic := rfl
  placed _ := Monitor.placed_outside _ _
  count := rfl
  balanced := by simp [semStart, MState.start, sleeping, countThreads, Thread.isAsleep]

/-- In every run whose posts meet the condition, the count is the initial value plus the completed
posts minus the completed waits, and no state has lost a wake-up. -/
theorem mysem_count_and_wakeups {value : ℕ} {s : SemState ι} {ls : List (Label ι Point Unit Reply)}
    (hrun : (semMonitor ι).RunWhen PostReaches (semStart ι value) ls s) :
    (s.shared.semCount : ℤ) = value + posts ls - waits ls ∧ ¬ LostWakeup s := by
  have h : Running value ls s := by
    induction hrun with
    | nil => exact running_start value
    | snoc _ hst hC ih => exact ih.step hst hC
  refine ⟨?_, h.not_lostWakeup⟩
  have hcount := h.count
  omega

/-- A thread sleeps on a semaphore with the value 0, and a post wakes it: every step meets the
condition. -/
theorem mysem_count_and_wakeups_one_post :
    ∃ (ls : List (Label (Fin 2) Point Unit Reply)) (s : SemState (Fin 2)),
      s.thread 0 = .awakened .waitLoop ∧ posts ls = 1 ∧ waits ls = 0 ∧ s.shared.semCount = 1 ∧
        (s.shared.semCount : ℤ) = (0 : ℕ) + posts ls - waits ls ∧ ¬ LostWakeup s := by
  have h0 : (semMonitor (Fin 2)).RunWhen PostReaches (semStart (Fin 2) 0) [] _ := .nil
  have h1 := h0.call 0 .wait rfl trivial trivial
  have h2 := h1.section 0 .wait ∅ (.inl rfl) rfl trivial
  have h3 := h2.call 1 .post rfl trivial trivial
  have h4 := h3.section 1 .post {0} (.inl rfl)
    ⟨fun i hi => ⟨.waitLoop, by rw [Finset.mem_singleton.mp hi]; rfl⟩, fun _ => ⟨0, by simp⟩⟩
    ⟨by decide, fun _ => .inl rfl⟩
  exact ⟨_, _, rfl, rfl, rfl, rfl, mysem_count_and_wakeups h4⟩

/-- Two threads sleep on a semaphore with the value 0.  The first post wakes one of them; the second
comes before it runs, and wakes nobody.  Then the other one sleeps on, with the count 1 and no
thread in any call. -/
theorem mysem_lost_wakeup :
    ∃ (ls : List (Label (Fin 3) Point Unit Reply)) (s : SemState (Fin 3)),
      (semMonitor (Fin 3)).Run (semStart (Fin 3) 0) ls s ∧ s.thread 0 = .outside ∧
        s.thread 1 = .asleep () .waitLoop ∧ s.thread 2 = .outside ∧ LostWakeup s := by
  have h0 : (semMonitor (Fin 3)).Run (semStart (Fin 3) 0) [] _ := .nil
  have h1 := h0.call 0 .wait rfl trivial trivial
  have h2 := h1.section 0 .wait ∅ (.inl rfl) rfl trivial
  have h3 := h2.call 1 .wait rfl trivial trivial
  have h4 := h3.section 1 .wait ∅ (.inl rfl) rfl trivial
  have h5 := h4.call 2 .post rfl trivial trivial
  have h6 := h5.section 2 .post {0} (.inl rfl)
    ⟨fun i hi => ⟨.waitLoop, by rw [Finset.mem_singleton.mp hi]; rfl⟩, fun _ => ⟨0, by simp⟩⟩
    trivial
  have h7 := h6.call 2 .post rfl trivial trivial
  have h8 := h7.section 2 .post ∅ (.inl rfl) rfl trivial
  have h9 := h8.section 0 .waitLoop ∅ (.inr rfl) rfl trivial
  obtain ⟨ls, s, hrun, ht0, ht1, ht2, hcount⟩ :
      ∃ (ls : List (Label (Fin 3) Point Unit Reply)) (s : SemState (Fin 3)),
        (semMonitor (Fin 3)).Run (semStart (Fin 3) 0) ls s ∧ s.thread 0 = .outside ∧
          s.thread 1 = .asleep () .waitLoop ∧ s.thread 2 = .outside ∧ s.shared.semCount = 1 :=
    ⟨_, _, h9, rfl, rfl, rfl, rfl⟩
  refine ⟨ls, s, hrun, ht0, ht1, ht2, fun t k ht => ?_, by omega, 1, (), .waitLoop, ht1⟩
  match t with
  | 0 => rw [ht0] at ht; cases ht
  | 1 => rw [ht1] at ht; cases ht
  | 2 => rw [ht2] at ht; cases ht

end UnixPrograms.Mysem
