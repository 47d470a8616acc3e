import UnixPrograms.Rwlock.Model

/-!
# What the counters of the read-write lock count

`Outcome` lists what a critical section can do.  In every run the waiting counts are the numbers of
threads inside the two waits (`Counted`), as long as an `int` can count them (`WaitRoom`).
`HoldersCounted` relates `rw_refcount` to the holders, and needs that every thread unlocks only what
it holds and that an `int` can count the read locks (`ReadRoom`).
-/

namespace UnixPrograms.Rwlock

open Finset Function Monitor Held

/-- The lock after the end of the wait at `k`, if `k` is one: the waiting thread takes itself out of
the count of its kind. -/
def Lock.leave (lock : Lock) (k : Point) : Lock :=
  { lock with
    rwNwaitreaders := lock.rwNwaitreaders - (isRdlockWait k).toNat
    rwNwaitwriters := lock.rwNwaitwriters - (isWrlockWait k).toNat }

def takesRead : Point → Bool
  | .rdlock | .rdlockWait | .tryrdlock => true
  | _ => false

def takesWrite : Point → Bool
  | .wrlock | .wrlockWait | .trywrlock => true
  | _ => false

/-- What a critical section of an initialised lock can do. -/
inductive Outcome (k : Point) (lock : Lock) : LockSection → Prop
  | busy (hk : isRdlockWait k = false ∧ isWrlockWait k = false) :
      Outcome k lock { shared := lock, wake := none, exit := .ret EBUSY }
  | gotRead (hk : takesRead k = true) (href : 0 ≤ lock.rwRefcount) (hww : lock.rwNwaitwriters ≤ 0) :
      Outcome k lock
        { shared := { lock.leave k with rwRefcount := wrapSigned 4 (lock.rwRefcount + 1) }
          wake := none, exit := .ret 0 }
  | sleepsRead (hk : takesRead k = true) (hno : lock.rwRefcount < 0 ∨ 0 < lock.rwNwaitwriters)
      (hlt : (lock.leave k).rwNwaitreaders < INT_MAX) :
      Outcome k lock
        { shared := { lock.leave k with rwNwaitreaders := (lock.leave k).rwNwaitreaders + 1 }
          wake := none, exit := .wait .rwCondreaders .rdlockWait }
  | gotWrite (hk : takesWrite k = true) (href : lock.rwRefcount = 0) :
      Outcome k lock
        { shared := { lock.leave k with rwRefcount := -1 }, wake := none, exit := .ret 0 }
  | sleepsWrite (hk : takesWrite k = true) (hno : lock.rwRefcount ≠ 0)
      (hlt : (lock.leave k).rwNwaitwriters < INT_MAX) :
      Outcome k lock
        { shared := { lock.leave k with rwNwaitwriters := (lock.leave k).rwNwaitwriters + 1 }
          wake := none, exit := .wait .rwCondwriters .wrlockWait }
  | releasedRead (hk : k = .unlock) (href : 0 < lock.rwRefcount) :
      Outcome k lock (unlockRelease { lock with rwRefcount := lock.rwRefcount - 1 })
  | releasedWrite (hk : k = .unlock) (href : lock.rwRefcount = -1) :
      Outcome k lock (unlockRelease { lock with rwRefcount := 0 })
  /-- `err_dump`: a lock that nobody holds is unlocked. -/
  | dumped (hk : k = .unlock) (href : ¬ 0 < lock.rwRefcount ∧ lock.rwRefcount ≠ -1) :
      Outcome k lock { shared := lock, wake := none, exit := .crash }

variable {lock : Lock} {k : Point}

/-- The section from `k` takes no counter of waiting threads out of the range of `int`. -/
structure Lock.Fits (lock : Lock) (k : Point) : Prop where
  readers : 0 ≤ lock.rwNwaitreaders ∧ lock.rwNwaitreaders ≤ INT_MAX
  writers : 0 ≤ lock.rwNwaitwriters ∧ lock.rwNwaitwriters ≤ INT_MAX
  rdlock : k = .rdlock → lock.rwRefcount < 0 ∨ 0 < lock.rwNwaitwriters →
    lock.rwNwaitreaders < INT_MAX
  wrlock : k = .wrlock → lock.rwRefcount ≠ 0 → lock.rwNwaitwriters < INT_MAX

lemma wrapSigned_of_le {v : ℤ} (hlo : -1 ≤ v) (hhi : v ≤ INT_MAX) : wrapSigned 4 v = v := by
  unfold INT_MAX at hhi
  exact toSigned_ofSigned (by omega) (by omega)

lemma leave_eq_self (h : isRdlockWait k = false ∧ isWrlockWait k = false) :
    lock.leave k = lock := by
  simp [Lock.leave, h.1, h.2]

lemma outcome_rdlockLoop (hfit : lock.Fits k) (hk : k = .rdlock ∨ k = .rdlockWait) :
    Outcome k lock (rdlockLoop (lock.leave k)) := by
  have htakes : takesRead k = true := by rcases hk with rfl | rfl <;> rfl
  have hww : (lock.leave k).rwNwaitwriters = lock.rwNwaitwriters := by
    rcases hk with rfl | rfl <;> simp [Lock.leave, isWrlockWait]
  by_cases h : lock.rwRefcount < 0 ∨ lock.rwNwaitwriters > 0
  · have hno : (lock.leave k).rwRefcount < 0 ∨ (lock.leave k).rwNwaitwriters > 0 := by rwa [hww]
    have hrange : -1 ≤ (lock.leave k).rwNwaitreaders ∧
        (lock.leave k).rwNwaitreaders < INT_MAX := by
      have hreaders := hfit.readers
      rcases hk with rfl | rfl
      · have hroom := hfit.rdlock rfl h
        simp only [Lock.leave, isRdlockWait, Bool.toNat_false]
        omega
      · simp only [Lock.leave, isRdlockWait, Bool.toNat_true]
        omega
    rw [rdlockLoop, if_pos hno, wrapSigned_of_le (by omega) (by omega)]
    exact .sleepsRead htakes h hrange.2
  · have hyes : ¬ ((lock.leave k).rwRefcount < 0 ∨ (lock.leave k).rwNwaitwriters > 0) := by
      rwa [hww]
    rw [rdlockLoop, if_neg hyes]
    exact .gotRead htakes (by omega) (by omega)

lemma outcome_wrlockLoop (hfit : lock.Fits k) (hk : k = .wrlock ∨ k = .wrlockWait) :
    Outcome k lock (wrlockLoop (lock.leave k)) := by
  have htakes : takesWrite k = true := by rcases hk with rfl | rfl <;> rfl
  by_cases h : (lock.leave k).rwRefcount ≠ 0
  · have hrange : -1 ≤ (lock.leave k).rwNwaitwriters ∧
        (lock.leave k).rwNwaitwriters < INT_MAX := by
      have hwriters := hfit.writers
      rcases hk with rfl | rfl
      · have hroom := hfit.wrlock rfl h
        simp only [Lock.leave, isWrlockWait, Bool.toNat_false]
        omega
      · simp only [Lock.leave, isWrlockWait, Bool.toNat_true]
        omega
    rw [wrlockLoop, if_pos h, wrapSigned_of_le (by omega) (by omega)]
    exact .sleepsWrite htakes h hrange.2
  · rw [wrlockLoop, if_neg h]
    exact .gotWrite htakes (not_not.mp h)

section

variable (hmagic : lock.rwMagic = rwMagicValue)
include hmagic

lemma outcome_tryrdlock : Outcome .tryrdlock lock (pthreadRwlockTryrdlock lock) := by
  rw [pthreadRwlockTryrdlock, if_neg (not_not.mpr hmagic)]
  by_cases h : lock.rwRefcount < 0 ∨ lock.rwNwaitwriters > 0
  · rw [if_pos h]
    exact .busy ⟨rfl, rfl⟩
  · have hgot : Outcome .tryrdlock lock _ := .gotRead rfl (by omega) (by omega)
    rw [leave_eq_self ⟨rfl, rfl⟩] at hgot
    rw [if_neg h]
    exact hgot

lemma outcome_trywrlock : Outcome .trywrlock lock (pthreadRwlockTrywrlock lock) := by
  rw [pthreadRwlockTrywrlock, if_neg (not_not.mpr hmagic)]
  by_cases h : lock.rwRefcount ≠ 0
  · rw [if_pos h]
    exact .busy ⟨rfl, rfl⟩
  · have hgot : Outcome .trywrlock lock _ := .gotWrite rfl (not_not.mp h)
    rw [leave_eq_self ⟨rfl, rfl⟩] at hgot
    rw [if_neg h]
    exact hgot

/-- `pthread_rwlock_unlock` gives back a read lock or the write lock, or ends the process. -/
lemma outcome_unlock : Outcome .unlock lock (pthreadRwlockUnlock lock) := by
  rw [pthreadRwlockUnlock, if_neg (not_not.mpr hmagic)]
  by_cases hpos : lock.rwRefcount > 0
  · rw [if_pos hpos]
    exact .releasedRead rfl hpos
  · rw [if_neg hpos]
    by_cases hneg : lock.rwRefcount = -1
    · rw [if_pos hneg]
      exact .releasedWrite rfl hneg
    · rw [if_neg hneg]
      exact .dumped rfl ⟨hpos, hneg⟩

end

lemma outcome (hmagic : lock.rwMagic = rwMagicValue) (hfit : lock.Fits k) :
    Outcome k lock (criticalSection k lock) := by
  cases k with
  | rdlock =>
    have h := outcome_rdlockLoop hfit (.inl rfl)
    rw [leave_eq_self ⟨rfl, rfl⟩] at h
    simpa [criticalSection, pthreadRwlockRdlock, hmagic] using h
  | rdlockWait =>
    have hrange := hfit.readers
    have h := outcome_rdlockLoop hfit (.inr rfl)
    rw [criticalSection, rdlockAfterWait, wrapSigned_of_le (by omega) (by omega)]
    simpa [Lock.leave, isRdlockWait, isWrlockWait] using h
  | wrlock =>
    have h := outcome_wrlockLoop hfit (.inl rfl)
    rw [leave_eq_self ⟨rfl, rfl⟩] at h
    simpa [criticalSection, pthreadRwlockWrlock, hmagic] using h
  | wrlockWait =>
    have hrange := hfit.writers
    have h := outcome_wrlockLoop hfit (.inr rfl)
    rw [criticalSection, wrlockAfterWait, wrapSigned_of_le (by omega) (by omega)]
    simpa [Lock.leave, isRdlockWait, isWrlockWait] using h
  | tryrdlock => exact outcome_tryrdlock hmagic
  | trywrlock => exact outcome_trywrlock hmagic
  | unlock => exact outcome_unlock hmagic

lemma Outcome.le {sec : LockSection} (ho : Outcome k lock sec) (hfit : lock.Fits k)
    (href : lock.rwRefcount ≤ INT_MAX) :
    sec.shared.rwNwaitreaders ≤ INT_MAX ∧ sec.shared.rwNwaitwriters ≤ INT_MAX ∧
      sec.shared.rwRefcount ≤ INT_MAX := by
  have hr := hfit.readers
  have hw := hfit.writers
  have hwrap : wrapSigned 4 (lock.rwRefcount + 1) ≤ INT_MAX := by
    have hlt := wrapSigned_lt (n := 4) (lock.rwRefcount + 1)
    unfold INT_MAX
    omega
  cases ho with
  | busy | dumped => exact ⟨hr.2, hw.2, href⟩
  | releasedRead | releasedWrite =>
    dsimp only [unlockRelease]
    omega
  | gotRead | sleepsRead | gotWrite | sleepsWrite =>
    dsimp only [Lock.leave] at *
    omega

/-! ## The numbers of waiting threads -/

variable {ι : Type} [DecidableEq ι]

def WaitsOn (c : Cond) (k : Point) : Prop :=
  (c = .rwCondreaders ∧ k = .rdlockWait) ∨ (c = .rwCondwriters ∧ k = .wrlockWait)

lemma waitsOn_of_exit {k' : Point} {c : Cond}
    (he : (criticalSection k lock).exit = .wait c k') : WaitsOn c k' := by
  unfold WaitsOn
  cases k <;>
    simp only [criticalSection, pthreadRwlockRdlock, rdlockAfterWait, rdlockLoop,
      pthreadRwlockWrlock, wrlockAfterWait, wrlockLoop, pthreadRwlockTryrdlock,
      pthreadRwlockTrywrlock, pthreadRwlockUnlock, unlockRelease] at he <;>
    split_ifs at he <;> cases he <;> simp

variable {s s' : RwState ι} {t : ι} {l : Label ι Point Cond ℤ} {h : Held ι}

lemma inWait_ready (hp : (rwMonitor ι).Placed WaitsOn (s.thread t))
    (hready : s.Ready t k) :
    (s.thread t).inWait isRdlockWait = isRdlockWait k ∧
      (s.thread t).inWait isWrlockWait = isWrlockWait k := by
  rcases hready with h | h
  · have hk : IsEntry k := hp.entering k h
    rw [h]
    cases k <;> simp_all [IsEntry, isRdlockWait, isWrlockWait]
  · rw [h]
    exact ⟨rfl, rfl⟩

lemma isWait_eq_true :
    (isRdlockWait k = true ↔ k = .rdlockWait) ∧ (isWrlockWait k = true ↔ k = .wrlockWait) := by
  cases k <;> simp [isRdlockWait, isWrlockWait]

lemma asleep_or_awakened {x : Thread Point Cond} {q : Point → Bool} {c : Cond}
    (hq : ∀ k', q k' = true → k' = k) (hc : ∀ c', WaitsOn c' k → c' = c)
    (hp : (rwMonitor ι).Placed WaitsOn x) (h : x.inWait q = true) :
    x = .asleep c k ∨ x = .awakened k := by
  cases x with
  | asleep c' k' =>
    obtain rfl := hq k' h
    obtain rfl := hc c' (hp.asleep _ _ rfl)
    exact .inl rfl
  | awakened k' =>
    obtain rfl := hq k' h
    exact .inr rfl
  | _ => cases h

lemma asleep_or_awakened_rdlockWait {x : Thread Point Cond} (hp : (rwMonitor ι).Placed WaitsOn x)
    (h : x.inWait isRdlockWait = true) :
    x = .asleep .rwCondreaders .rdlockWait ∨ x = .awakened .rdlockWait :=
  asleep_or_awakened (fun _ => isWait_eq_true.1.mp) (by simp [WaitsOn]) hp h

lemma asleep_or_awakened_wrlockWait {x : Thread Point Cond} (hp : (rwMonitor ι).Placed WaitsOn x)
    (h : x.inWait isWrlockWait = true) :
    x = .asleep .rwCondwriters .wrlockWait ∨ x = .awakened .wrlockWait :=
  asleep_or_awakened (fun _ => isWait_eq_true.2.mp) (by simp [WaitsOn]) hp h

variable [Fintype ι]

/-- A thread begins to wait only while fewer than `INT_MAX` threads wait for the same. -/
def WaitRoom (s : RwState ι) : Label ι Point Cond ℤ → Prop
  | .run _ .rdlock (.wait _ _) => waiting isRdlockWait s.thread < INT_MAX
  | .run _ .wrlock (.wait _ _) => waiting isWrlockWait s.thread < INT_MAX
  | _ => True

/-- The lock is initialised and its two wait counters are the numbers of threads inside the two
waits. -/
structure Counted (s : RwState ι) : Prop where
  magic : s.shared.lock.rwMagic = rwMagicValue
  placed : ∀ t, (rwMonitor ι).Placed WaitsOn (s.thread t)
  readers : s.shared.lock.rwNwaitreaders = waiting isRdlockWait s.thread
  writers : s.shared.lock.rwNwaitwriters = waiting isWrlockWait s.thread
  readers_le : waiting isRdlockWait s.thread ≤ INT_MAX
  writers_le : waiting isWrlockWait s.thread ≤ INT_MAX
  refcount_le : s.shared.lock.rwRefcount ≤ INT_MAX

lemma counted_rwStart : Counted (rwStart ι) where
  magic := rfl
  placed _ := placed_outside _ _
  readers := by simp [rwStart, MState.start, pthreadRwlockInit, waiting, countThreads]
  writers := by simp [rwStart, MState.start, pthreadRwlockInit, waiting, countThreads]
  readers_le := by simp [rwStart]
  writers_le := by simp [rwStart]
  refcount_le := Int.natCast_nonneg _

lemma Counted.fits (h : Counted s)
    (hroom : WaitRoom s (.run t k (criticalSection k s.shared.lock).exit)) :
    s.shared.lock.Fits k := by
  have hr := h.readers
  have hw := h.writers
  have hrle := h.readers_le
  have hwle := h.writers_le
  refine ⟨by omega, by omega, ?_, ?_⟩
  · rintro rfl hbusy
    simp only [criticalSection, pthreadRwlockRdlock, h.magic, ne_eq, not_true_eq_false, if_false,
      rdlockLoop, gt_iff_lt, if_pos hbusy, WaitRoom] at hroom
    omega
  · rintro rfl hbusy
    simp only [criticalSection, pthreadRwlockWrlock, h.magic, ne_eq, not_true_eq_false, if_false,
      wrlockLoop, if_pos hbusy, WaitRoom] at hroom
    omega

omit [Fintype ι] in
@[simp] lemma after_lock (h : Held ι) (t : ι) (k : Point) (lock : Lock) (e : Exit Point Cond ℤ) :
    (h.after t k lock e).lock = lock := by
  cases e with
  | ret r =>
    simp only [after]
    split
    · cases k with
      | unlock =>
        simp only [record]
        split <;> rfl
      | _ => rfl
    · rfl
  | _ => rfl

lemma Counted.run (h : Counted s) {W : Finset ι} (hready : s.Ready t k)
    (hroom : WaitRoom s (.run t k (criticalSection k s.shared.lock).exit))
    (hplaced : ∀ i, (rwMonitor ι).Placed WaitsOn (((rwMonitor ι).afterRun s t k W).thread i)) :
    Counted ((rwMonitor ι).afterRun s t k W) := by
  have hr := waiting_afterRun isRdlockWait (rwMonitor ι) s W hready
  have hw := waiting_afterRun isWrlockWait (rwMonitor ι) s W hready
  rw [(inWait_ready (h.placed t) hready).1] at hr
  rw [(inWait_ready (h.placed t) hready).2] at hw
  have hexit : ((rwMonitor ι).sect t k s.shared).exit =
      (criticalSection k s.shared.lock).exit := rfl
  have hlock : ((rwMonitor ι).afterRun s t k W).shared.lock =
      (criticalSection k s.shared.lock).shared := by simp [afterRun, rwMonitor]
  have hro := h.readers
  have hwo := h.writers
  rw [hexit] at hr hw
  -- the counters of the lock and the counts of threads move together in every outcome
  have hfit := h.fits hroom
  have ho := outcome h.magic hfit
  generalize criticalSection k s.shared.lock = sec at ho hr hw hlock
  obtain ⟨hrle, hwle, href⟩ := ho.le hfit h.refcount_le
  have hmagic : sec.shared.rwMagic = rwMagicValue := by cases ho <;> exact h.magic
  have hreaders : sec.shared.rwNwaitreaders =
      waiting isRdlockWait ((rwMonitor ι).afterRun s t k W).thread := by
    cases ho <;> simp_all [Thread.after, Lock.leave, unlockRelease, isRdlockWait] <;> omega
  have hwriters : sec.shared.rwNwaitwriters =
      waiting isWrlockWait ((rwMonitor ι).afterRun s t k W).thread := by
    cases ho <;> simp_all [Thread.after, Lock.leave, unlockRelease, isWrlockWait] <;> omega
  rw [← hlock] at hmagic hreaders hwriters hrle hwle href
  exact ⟨hmagic, hplaced, hreaders, hwriters, by omega, by omega, href⟩

lemma Counted.update (h : Counted s) {x : Thread Point Cond}
    (hx : ∀ q : Point → Bool, x.inWait q = (s.thread t).inWait q)
    (hplaced : ∀ i, (rwMonitor ι).Placed WaitsOn (update s.thread t x i)) :
    Counted { s with thread := update s.thread t x } where
  magic := h.magic
  placed := hplaced
  readers := by rw [h.readers, waiting_update_of_inWait_eq _ (hx _)]
  writers := by rw [h.writers, waiting_update_of_inWait_eq _ (hx _)]
  readers_le := by rw [waiting_update_of_inWait_eq _ (hx _)]; exact h.readers_le
  writers_le := by rw [waiting_update_of_inWait_eq _ (hx _)]; exact h.writers_le
  refcount_le := h.refcount_le

lemma Counted.step (h : Counted s) (hst : (rwMonitor ι).Step s l s') (hroom : WaitRoom s l) :
    Counted s' := by
  have hplaced := hst.placed h.placed fun t k _ c k' he => waitsOn_of_exit he
  cases hst with
  | call hout => exact h.update (fun q => by rw [hout]; rfl) hplaced
  | spurious hs => exact h.update (fun q => by rw [hs]; rfl) hplaced
  | run hready => exact h.run hready hroom hplaced

/-! ## The holders of the lock -/

def Held.totalReads (h : Held ι) : ℕ := ∑ i, h.reads i

def Held.totalWrites (h : Held ι) : ℕ := ∑ i, h.writes i

/-- A read lock is obtained only while fewer than `INT_MAX` are held. -/
def ReadRoom (s : RwState ι) : Label ι Point Cond ℤ → Prop
  | .run _ k (.ret r) => takesRead k = true → r = 0 → s.shared.totalReads < INT_MAX
  | _ => True

/-- The reference count is `-1` while one write lock and no read lock is held, and else the number
of read locks held; a thread in `pthread_rwlock_unlock` holds something. -/
structure HoldersCounted (s : RwState ι) : Prop where
  refcount : (s.shared.lock.rwRefcount = -1 ∧ s.shared.totalWrites = 1 ∧ s.shared.totalReads = 0) ∨
    (s.shared.lock.rwRefcount = s.shared.totalReads ∧ s.shared.totalWrites = 0)
  unlocking : ∀ t, s.thread t = .entering .unlock → 0 < s.shared.reads t ∨ 0 < s.shared.writes t

omit [DecidableEq ι] in
lemma holdersCounted_rwStart : HoldersCounted (rwStart ι) where
  refcount := by
    right
    simp [rwStart, MState.start, pthreadRwlockInit, totalReads, totalWrites]
  unlocking t ht := by simp [rwStart, MState.start] at ht

lemma totalReads_record (lock : Lock) (hk : takesRead k = true) :
    (h.record t lock k).totalReads = h.totalReads + 1 ∧
      (h.record t lock k).totalWrites = h.totalWrites := by
  have hsum := sum_update_add id h.reads t (h.reads t + 1)
  simp only [id] at hsum
  cases k <;> simp_all [record, totalReads, totalWrites, takesRead] <;> omega

lemma totalWrites_record (lock : Lock) (hk : takesWrite k = true) :
    (h.record t lock k).totalWrites = h.totalWrites + 1 ∧
      (h.record t lock k).totalReads = h.totalReads := by
  have hsum := sum_update_add id h.writes t (h.writes t + 1)
  simp only [id] at hsum
  cases k <;> simp_all [record, totalReads, totalWrites, takesWrite] <;> omega

omit [DecidableEq ι] in
lemma reads_le_totalReads (h : Held ι) (t : ι) : h.reads t ≤ h.totalReads :=
  single_le_sum (f := h.reads) (fun _ _ => Nat.zero_le _) (mem_univ t)

omit [DecidableEq ι] in
lemma writes_le_totalWrites (h : Held ι) (t : ι) : h.writes t ≤ h.totalWrites :=
  single_le_sum (f := h.writes) (fun _ _ => Nat.zero_le _) (mem_univ t)

lemma totalWrites_record_unlock (lock : Lock) (ht : 0 < h.writes t) :
    (h.record t lock .unlock).totalWrites + 1 = h.totalWrites ∧
      (h.record t lock .unlock).totalReads = h.totalReads := by
  have hsum := sum_update_add id h.writes t (h.writes t - 1)
  simp only [id] at hsum
  simp only [record, if_pos ht, totalReads, totalWrites, and_true]
  omega

lemma totalReads_record_unlock (lock : Lock) (hw : h.writes t = 0) (ht : 0 < h.reads t) :
    (h.record t lock .unlock).totalReads + 1 = h.totalReads ∧
      (h.record t lock .unlock).totalWrites = h.totalWrites := by
  have hsum := sum_update_add id h.reads t (h.reads t - 1)
  simp only [id] at hsum
  have hno : ¬ 0 < h.writes t := by omega
  simp only [record, if_neg hno, totalReads, totalWrites, and_true]
  omega

omit [Fintype ι] in
lemma after_other {i : ι} (hi : i ≠ t) (k : Point) (lock : Lock) (e : Exit Point Cond ℤ) :
    (h.after t k lock e).reads i = h.reads i ∧ (h.after t k lock e).writes i = h.writes i := by
  cases e with
  | ret r =>
    simp only [after]
    split
    · cases k with
      | unlock =>
        simp only [record]
        split <;> simp [update_of_ne hi]
      | _ => simp [record, update_of_ne hi]
    · exact ⟨rfl, rfl⟩
  | _ => exact ⟨rfl, rfl⟩

lemma HoldersCounted.refcount_run (h : HoldersCounted s)
    (hmagic : s.shared.lock.rwMagic = rwMagicValue) (hfit : s.shared.lock.Fits k)
    (hroom : ReadRoom s (.run t k (criticalSection k s.shared.lock).exit))
    (hun : k = .unlock → 0 < s.shared.reads t ∨ 0 < s.shared.writes t) {h' : Held ι}
    (hh' : h' = s.shared.after t k (criticalSection k s.shared.lock).shared (criticalSection k
      s.shared.lock).exit) :
    (h'.lock.rwRefcount = -1 ∧ h'.totalWrites = 1 ∧ h'.totalReads = 0) ∨
      (h'.lock.rwRefcount = h'.totalReads ∧ h'.totalWrites = 0) := by
  have hlock : h'.lock = (criticalSection k s.shared.lock).shared := by rw [hh', after_lock]
  have hc := h.refcount
  have hrt := reads_le_totalReads s.shared t
  have hwt := writes_le_totalWrites s.shared t
  have ho := outcome hmagic hfit
  generalize criticalSection k s.shared.lock = sec at ho hlock hh' hroom
  have hret : ∀ lock : Lock, h' = s.shared.after t k lock (.ret 0) →
      h' = s.shared.record t lock k :=
    fun lock e => by rw [e]; simp [after]
  have hsame : ∀ lock : Lock, h' = { s.shared with lock := lock } →
      h'.totalReads = s.shared.totalReads ∧ h'.totalWrites = s.shared.totalWrites := by
    rintro lock rfl
    exact ⟨rfl, rfl⟩
  cases ho with
  | busy | sleepsRead | sleepsWrite | dumped =>
    obtain ⟨h1, h2⟩ := hsame _ hh'
    rw [hlock, h1, h2]
    exact hc
  | gotRead hk href hww =>
    obtain ⟨h1, h2⟩ := totalReads_record (h := s.shared) (t := t) _ hk
    rw [← hret _ hh'] at h1 h2
    have hlt : s.shared.totalReads < INT_MAX := hroom hk rfl
    have href' : h'.lock.rwRefcount = s.shared.lock.rwRefcount + 1 := by
      rw [hlock]
      exact wrapSigned_of_le (by omega) (by omega)
    omega
  | gotWrite hk href =>
    obtain ⟨h1, h2⟩ := totalWrites_record (h := s.shared) (t := t) _ hk
    rw [← hret _ hh'] at h1 h2
    have href' : h'.lock.rwRefcount = -1 := by rw [hlock]
    omega
  | releasedRead hk href =>
    subst hk
    have hw0 : s.shared.writes t = 0 := by omega
    have hr0 : 0 < s.shared.reads t := by have := hun rfl; omega
    obtain ⟨h1, h2⟩ := totalReads_record_unlock (h := s.shared) _ hw0 hr0
    rw [← hret _ hh'] at h1 h2
    have href' : h'.lock.rwRefcount = s.shared.lock.rwRefcount - 1 := by rw [hlock]; rfl
    omega
  | releasedWrite hk href =>
    subst hk
    have hw0 : 0 < s.shared.writes t := by have := hun rfl; omega
    obtain ⟨h1, h2⟩ := totalWrites_record_unlock (h := s.shared) _ hw0
    rw [← hret _ hh'] at h1 h2
    have href' : h'.lock.rwRefcount = 0 := by rw [hlock]; rfl
    omega

lemma HoldersCounted.step (h : HoldersCounted s) (hcnt : Counted s)
    (hst : (rwMonitor ι).Step s l s') (hok : UnlocksOwn s l ∧ ReadRoom s l ∧ WaitRoom s l) :
    HoldersCounted s' := by
  cases hst with
  | @call t k hout hk =>
    refine ⟨h.refcount, fun i hi => ?_⟩
    by_cases hit : i = t
    · subst hit
      obtain rfl : k = .unlock := by simpa using hi
      exact hok.1
    · exact h.unlocking i (by simpa [update_of_ne hit] using hi)
  | @spurious t c k hs =>
    refine ⟨h.refcount, fun i hi => ?_⟩
    by_cases hit : i = t
    · subst hit
      simp at hi
    · exact h.unlocking i (by simpa [update_of_ne hit] using hi)
  | @run t k W hready hwake =>
    refine ⟨h.refcount_run (t := t) (k := k) hcnt.magic (hcnt.fits hok.2.2) hok.2.1 ?_ rfl,
      fun i hi => ?_⟩
    · rintro rfl
      rcases hready with he | he
      · exact h.unlocking t he
      · obtain ⟨c, hc⟩ := (hcnt.placed t).awakened _ he
        rcases hc with ⟨-, h⟩ | ⟨-, h⟩ <;> cases h
    · by_cases hit : i = t
      · subst hit
        simp only [afterRun, update_self] at hi
        cases hx : ((rwMonitor ι).sect i k s.shared).exit <;> rw [hx] at hi <;>
          simp [Thread.after] at hi
      · simp only [afterRun, update_of_ne hit, wakeAll] at hi
        have hi' : s.thread i = .entering .unlock := by
          split at hi
          · cases hx : s.thread i <;> rw [hx] at hi <;> simp_all [Thread.awaken]
          · exact hi
        obtain ⟨hr, hw⟩ := after_other (h := s.shared) hit k
          (criticalSection k s.shared.lock).shared (criticalSection k s.shared.lock).exit
        have hown' := h.unlocking i hi'
        simp only [afterRun, rwMonitor]
        rw [hr, hw]
        exact hown'

lemma counted_and_holdersCounted {ls : List (Label ι Point Cond ℤ)}
    (hrun : (rwMonitor ι).RunWhen (fun s l => UnlocksOwn s l ∧ ReadRoom s l ∧ WaitRoom s l)
      (rwStart ι) ls s) : Counted s ∧ HoldersCounted s := by
  refine hrun.invariant (I := fun s => Counted s ∧ HoldersCounted s)
    ⟨counted_rwStart, holdersCounted_rwStart⟩ ?_
  rintro s l s' ⟨hc, hh⟩ hst hok
  exact ⟨hc.step hst hok.2.2, hh.step hc hst hok⟩

lemma writers_eq_zero_of_reads_lt (hc : Counted s) (hst : (rwMonitor ι).Step s l s')
    (ht : s.shared.reads t < s'.shared.reads t) : waiting isWrlockWait s.thread = 0 := by
  cases hst with
  | call | spurious => exact absurd ht (lt_irrefl _)
  | @run u k W hready hwake =>
    by_cases htu : t = u
    · subst htu
      have hw := hc.writers
      simp only [afterRun, rwMonitor] at ht
      have hroom : WaitRoom s (.run t k (criticalSection k s.shared.lock).exit) := by
        cases he : (criticalSection k s.shared.lock).exit with
        | wait => simp [he, after] at ht
        | _ => cases k <;> trivial
      have ho := outcome hc.magic (hc.fits hroom)
      generalize criticalSection k s.shared.lock = sec at ho ht
      cases ho with
      | gotRead hk href hww => omega
      | gotWrite hk href =>
        cases k <;> simp_all [after, record, takesWrite]
      | releasedRead hk href | releasedWrite hk href =>
        subst hk
        simp only [after, unlockRelease, if_true, record] at ht
        split at ht
        · exact absurd ht (lt_irrefl _)
        · simp only [update_self] at ht
          omega
      | _ => simp [after, EBUSY] at ht
    · have hsame := (after_other (h := s.shared) htu k (criticalSection k s.shared.lock).shared
        (criticalSection k s.shared.lock).exit).1
      simp only [afterRun, rwMonitor] at ht
      omega

omit [DecidableEq ι] in
lemma existsUnique_writer_iff (h : Held ι) (hle : h.totalWrites ≤ 1) :
    h.totalWrites = 1 ↔ ∃! t, 0 < h.writes t := by
  classical
  constructor
  · intro h1
    obtain ⟨t, -, ht⟩ := exists_ne_zero_of_sum_ne_zero
      (show ∑ i, h.writes i ≠ 0 by rw [show ∑ i, h.writes i = 1 from h1]; exact one_ne_zero)
    refine ⟨t, Nat.pos_of_ne_zero ht, fun u hu => ?_⟩
    by_contra hne
    have hpair : h.writes u + h.writes t ≤ h.totalWrites := by
      have := sum_le_sum_of_subset (f := h.writes) (subset_univ {u, t})
      rwa [sum_pair hne] at this
    have := Nat.pos_of_ne_zero ht
    omega
  · rintro ⟨t, ht, -⟩
    have := writes_le_totalWrites h t
    omega

/-- If each thread unlocks only what it holds, and `int`s can count the read locks and the waiting
threads: `rw_refcount` is `-1` exactly when one thread holds
the lock for writing and none for reading, and else it is the number of read locks held, which is
the number of reading threads as long as no thread holds two; the wait counters are the numbers of
threads inside the two waits; and no step gives a read lock while a writer is inside its wait. -/
theorem rwlock_counters {s : RwState ι} {ls : List (Label ι Point Cond ℤ)}
    (hrun : (rwMonitor ι).RunWhen (fun s l => UnlocksOwn s l ∧ ReadRoom s l ∧ WaitRoom s l)
      (rwStart ι) ls s) :
    (s.shared.lock.rwRefcount = -1 ↔ (∃! t, 0 < s.shared.writes t) ∧ ∀ t, s.shared.reads t = 0) ∧
      (s.shared.lock.rwRefcount ≠ -1 → s.shared.lock.rwRefcount = ∑ t, (s.shared.reads t : ℤ) ∧
          ((∀ t, s.shared.reads t ≤ 1) →
            s.shared.lock.rwRefcount = (univ.filter fun t => 0 < s.shared.reads t).card)) ∧
      s.shared.lock.rwNwaitreaders = waiting isRdlockWait s.thread ∧
      s.shared.lock.rwNwaitwriters = waiting isWrlockWait s.thread ∧
      ∀ l s', (rwMonitor ι).Step s l s' → ∀ t, s.shared.reads t < s'.shared.reads t →
        ∀ u, (s.thread u).inWait isWrlockWait = false := by
  obtain ⟨hc, hh⟩ := counted_and_holdersCounted hrun
  have hle : s.shared.totalWrites ≤ 1 := by have := hh.refcount; omega
  have hnoreads : s.shared.totalReads = 0 ↔ ∀ t, s.shared.reads t = 0 := by
    simp [totalReads]
  refine ⟨?_, ?_, hc.readers, hc.writers, ?_⟩
  · rw [← existsUnique_writer_iff s.shared hle, ← hnoreads]
    have := hh.refcount
    omega
  · intro hne
    have hreads : s.shared.lock.rwRefcount = s.shared.totalReads := by have := hh.refcount; omega
    refine ⟨by rw [hreads, totalReads, Nat.cast_sum], fun hone => ?_⟩
    have hcard : s.shared.totalReads = (univ.filter fun t => 0 < s.shared.reads t).card := by
      rw [totalReads, card_filter]
      refine sum_congr rfl fun t _ => ?_
      have := hone t
      split <;> omega
    rw [hreads, hcard]
  · intro l s' hst t ht u
    have h0 := writers_eq_zero_of_reads_lt hc hst ht
    by_contra hu
    have hpos := (waiting_pos isWrlockWait s.thread).mpr ⟨u, by simpa using hu⟩
    omega

lemma exists_run_reader_sleeping_writer :
    ∃ ls s, (rwMonitor (Fin 2)).RunWhen (fun s l => UnlocksOwn s l ∧ ReadRoom s l ∧ WaitRoom s l)
        (rwStart (Fin 2)) ls s ∧
      s.shared.lock.rwRefcount = 1 ∧ s.thread 1 = .asleep .rwCondwriters .wrlockWait := by
  have h0 : (rwMonitor (Fin 2)).RunWhen (fun s l => UnlocksOwn s l ∧ ReadRoom s l ∧ WaitRoom s l)
    (rwStart (Fin 2)) [] _ := .nil
  have h1 := h0.call 0 .rdlock rfl ⟨by decide, by decide⟩ ⟨trivial, trivial, trivial⟩
  have h2 := h1.section 0 .rdlock ∅ (.inl rfl) rfl ⟨trivial, fun _ _ => by decide, trivial⟩
  have h3 := h2.call 1 .wrlock rfl ⟨by decide, by decide⟩ ⟨trivial, trivial, trivial⟩
  have h4 := h3.section 1 .wrlock ∅ (.inl rfl) rfl
    ⟨trivial, trivial, show waiting isWrlockWait _ < INT_MAX by decide⟩
  exact ⟨_, _, h4, rfl, rfl⟩

/-- The counters of the lock held by a reader with a writer asleep. -/
theorem rwlock_counters_reader_sleeping_writer :
    ∃ s : RwState (Fin 2), s.shared.lock.rwRefcount = 1 ∧
      s.thread 1 = .asleep .rwCondwriters .wrlockWait ∧
      s.shared.lock.rwRefcount = ∑ t, (s.shared.reads t : ℤ) ∧
      s.shared.lock.rwNwaitwriters = waiting isWrlockWait s.thread := by
  obtain ⟨ls, s, hrun, href, hsleep⟩ := exists_run_reader_sleeping_writer
  obtain ⟨-, hreads, -, hwriters, -⟩ := rwlock_counters hrun
  exact ⟨s, href, hsleep, (hreads (by omega)).1, hwriters⟩

lemma exists_run_reads (n : ℕ) (hn : n ≤ 2 ^ 31) :
    ∃ ls s, (rwMonitor Unit).RunWhen UnlocksOwn (rwStart Unit) ls s ∧ s.thread () = .outside ∧
      s.shared.reads () = n ∧
      s.shared.lock = { pthreadRwlockInit with rwRefcount := wrapSigned 4 n } := by
  induction n with
  | zero => exact ⟨[], rwStart Unit, .nil, rfl, rfl, rfl⟩
  | succ n ih =>
    obtain ⟨ls, s, hrun, hout, hreads, hlock⟩ := ih (by omega)
    have hsec : criticalSection .rdlock s.shared.lock =
        { shared := { pthreadRwlockInit with rwRefcount := wrapSigned 4 (n + 1 : ℕ) }
          wake := none, exit := .ret 0 } := by
      have hwrap : wrapSigned 4 n = n := wrapSigned_natCast (by omega)
      simp [hlock, criticalSection, pthreadRwlockRdlock, rdlockLoop, pthreadRwlockInit, hwrap]
    have hcall := hrun.call () .rdlock hout ⟨by decide, by decide⟩ trivial
    have hgot := hcall.section () .rdlock ∅ (.inl rfl) (by simp [rwMonitor, hsec, Wakes]) trivial
    refine ⟨_, _, hgot, ?_, ?_, ?_⟩
    · simp [afterRun, rwMonitor, hsec, Thread.after]
    · simp [afterRun, rwMonitor, hsec, after, record, hreads]
    · simp [afterRun, rwMonitor, hsec]

/-- With `2 ^ 31` read locks held `rw_refcount` is negative. -/
theorem rwRefcount_wraps : ∃ ls s, (rwMonitor Unit).RunWhen UnlocksOwn (rwStart Unit) ls s ∧
    s.shared.reads () = 2147483648 ∧ s.shared.lock.rwRefcount = -2147483648 := by
  obtain ⟨ls, s, hrun, -, hreads, hlock⟩ := exists_run_reads (2 ^ 31) (Nat.le_refl _)
  refine ⟨ls, s, hrun, hreads, ?_⟩
  rw [hlock]
  decide

end UnixPrograms.Rwlock
