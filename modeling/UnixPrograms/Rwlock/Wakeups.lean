import UnixPrograms.Rwlock.Invariant

/-!
# No wake-up of the read-write lock is lost

`pthread_rwlock_unlock` wakes one waiting writer once the lock is free, and the readers only when no
writer waits.  In every run a writer has been woken while the lock is free and a writer waits, and
no reader sleeps while no writer waits and a read lock could be had (`WakeupsPending`), as long as
`int`s can count the waiting threads (`readers_sleep_on`).
-/

namespace UnixPrograms.Rwlock

open Function Monitor

variable {ι : Type} [DecidableEq ι]

def WriterAwakened (s : RwState ι) : Prop := ∃ t, s.thread t = .awakened .wrlockWait

def NoReaderAsleep (s : RwState ι) : Prop := ∀ t c, s.thread t ≠ .asleep c .rdlockWait

/-- Whoever could go on has been woken. -/
structure WakeupsPending (s : RwState ι) : Prop where
  writer : s.shared.lock.rwRefcount = 0 → 0 < s.shared.lock.rwNwaitwriters → WriterAwakened s
  readers : 0 ≤ s.shared.lock.rwRefcount → s.shared.lock.rwNwaitwriters = 0 → NoReaderAsleep s

omit [DecidableEq ι] in
lemma wakeupsPending_rwStart : WakeupsPending (rwStart ι) where
  writer _ h := by simp [rwStart, MState.start, pthreadRwlockInit] at h
  readers _ _ t c := by simp [rwStart, MState.start]

variable {t : ι} {s : RwState ι} {W : Finset ι} {k : Point}

lemma WriterAwakened.afterRun (h : WriterAwakened s) (hready : s.Ready t k)
    (hk : k ≠ .wrlockWait) : WriterAwakened ((rwMonitor ι).afterRun s t k W) := by
  obtain ⟨u, hu⟩ := h
  have hut : u ≠ t := by
    rintro rfl
    rcases hready with h | h <;> rw [hu] at h <;> simp_all
  refine ⟨u, ?_⟩
  simp only [Monitor.afterRun, update_of_ne hut, wakeAll, hu, Thread.awaken, ite_self]

lemma NoReaderAsleep.afterRun (h : NoReaderAsleep s)
    (he : (criticalSection k s.shared.lock).exit ≠ .wait .rwCondreaders .rdlockWait) :
    NoReaderAsleep ((rwMonitor ι).afterRun s t k W) := by
  intro u c hu
  rcases asleep_of_afterRun hu with ⟨-, hexit⟩ | ⟨-, hs⟩
  · rcases waitsOn_of_exit hexit with ⟨rfl, -⟩ | ⟨-, h⟩
    · exact he hexit
    · cases h
  · exact h u c hs

variable [Fintype ι]

/-- After an unlock that leaves the lock free, a waiting writer has been woken: the signal reaches a
sleeping writer if there is one, and else the waiting writers have been woken before. -/
lemma writerAwakened_unlock (hc : Counted s)
    (hready : s.thread t = .entering .unlock ∨ s.thread t = .awakened .unlock)
    (hw : 0 < s.shared.lock.rwNwaitwriters)
    (hwake : Wakes s.thread (some (.signal .rwCondwriters)) W) :
    WriterAwakened ((rwMonitor ι).afterRun s t .unlock W) := by
  have hpos : 0 < waiting isWrlockWait s.thread := by have := hc.writers; omega
  obtain ⟨u, hu⟩ := (waiting_pos _ _).mp hpos
  by_cases hsleep : ∃ i, (s.thread i).AsleepOn .rwCondwriters
  · obtain ⟨i, hi⟩ := hwake.2 hsleep
    obtain ⟨k, hk⟩ := hwake.1 i hi
    obtain rfl : k = .wrlockWait := by
      rcases (hc.placed i).asleep _ _ hk with ⟨h, -⟩ | ⟨-, h⟩
      · cases h
      · exact h
    have hit : i ≠ t := by
      rintro rfl
      rcases hready with h | h <;> rw [hk] at h <;> simp at h
    refine ⟨i, ?_⟩
    simp [afterRun, update_of_ne hit, wakeAll_of_mem hi, hk, Thread.awaken]
  · have hawake : s.thread u = .awakened .wrlockWait := by
      rcases asleep_or_awakened_wrlockWait (hc.placed u) hu with h | h
      · exact absurd ⟨u, _, h⟩ hsleep
      · exact h
    exact WriterAwakened.afterRun ⟨u, hawake⟩ hready (by decide)

lemma noReaderAsleep_unlock (hc : Counted s)
    (hwake : 0 < s.shared.lock.rwNwaitreaders → Wakes s.thread (some (.broadcast .rwCondreaders)) W)
    (he : Thread.after ((rwMonitor ι).sect t .unlock s.shared).exit = .outside) :
    NoReaderAsleep ((rwMonitor ι).afterRun s t .unlock W) := by
  intro u c hu
  by_cases hut : u = t
  · subst hut
    simp [afterRun, he] at hu
  · simp only [afterRun, update_of_ne hut] at hu
    by_cases huW : u ∈ W
    · rw [wakeAll_of_mem huW] at hu
      cases hx : s.thread u <;> rw [hx] at hu <;> simp [Thread.awaken] at hu
    · rw [wakeAll_of_notMem huW] at hu
      obtain rfl : c = .rwCondreaders := by
        rcases (hc.placed u).asleep _ _ hu with ⟨h, -⟩ | ⟨-, h⟩
        · exact h
        · cases h
      have hpos : 0 < waiting isRdlockWait s.thread :=
        (waiting_pos _ _).mpr ⟨u, by rw [hu]; rfl⟩
      have hW := hwake (by have := hc.readers; omega)
      exact huW ((hW u).mpr ⟨_, hu⟩)

lemma wakeupsPending_unlock (hc : Counted s) {lock' : Lock}
    (hready : s.thread t = .entering .unlock ∨ s.thread t = .awakened .unlock)
    (hsec : criticalSection .unlock s.shared.lock = unlockRelease lock')
    (hwr : lock'.rwNwaitwriters = s.shared.lock.rwNwaitwriters)
    (hrd : lock'.rwNwaitreaders = s.shared.lock.rwNwaitreaders)
    (hwake : Wakes s.thread (unlockWake lock') W) :
    WakeupsPending ((rwMonitor ι).afterRun s t .unlock W) := by
  have hlock : ((rwMonitor ι).afterRun s t .unlock W).shared.lock = lock' := by
    simp [afterRun, rwMonitor, hsec, unlockRelease]
  have hexit : ((rwMonitor ι).sect t .unlock s.shared).exit = .ret 0 := by
    change (criticalSection .unlock s.shared.lock).exit = .ret 0
    rw [hsec]
    rfl
  refine ⟨fun href hw => ?_, fun _ hw => ?_⟩
  · rw [hlock] at href hw
    have hsig : unlockWake lock' = some (.signal .rwCondwriters) := by
      rw [unlockWake, if_pos hw, if_pos href]
    rw [hsig] at hwake
    exact writerAwakened_unlock hc hready (by omega) hwake
  · rw [hlock] at hw
    refine noReaderAsleep_unlock hc (fun hpos => ?_) (by rw [hexit]; rfl)
    have hbc : unlockWake lock' = some (.broadcast .rwCondreaders) := by
      rw [unlockWake, if_neg (by omega), if_pos (by omega)]
    rwa [hbc] at hwake

lemma WakeupsPending.run (h : WakeupsPending s) (hc : Counted s) (hready : s.Ready t k)
    (hroom : WaitRoom s (.run t k (criticalSection k s.shared.lock).exit))
    (hwake : Wakes s.thread (criticalSection k s.shared.lock).wake W) :
    WakeupsPending ((rwMonitor ι).afterRun s t k W) := by
  have hlock : ((rwMonitor ι).afterRun s t k W).shared.lock =
      (criticalSection k s.shared.lock).shared := by simp [afterRun, rwMonitor]
  have hnn : 0 ≤ s.shared.lock.rwNwaitwriters := by have := hc.writers; omega
  obtain ⟨sec, hs⟩ : ∃ sec, criticalSection k s.shared.lock = sec := ⟨_, rfl⟩
  have ho := outcome hc.magic (hc.fits hroom)
  rw [hs] at ho hlock hwake
  cases ho with
  | busy hk =>
    refine ⟨fun href hw => ?_, fun href hw => ?_⟩
    · rw [hlock] at href hw
      refine (h.writer href hw).afterRun hready ?_
      rintro rfl
      exact absurd hk.2 (by decide)
    · rw [hlock] at href hw
      exact (h.readers href hw).afterRun (by rw [hs]; simp)
  | gotRead hk href hww =>
    refine ⟨fun href' _ => ?_, fun _ _ => ?_⟩
    · -- the count is not 0 behind the increment, even if it wraps around
      have hmod := wrapSigned_emod 4 (s.shared.lock.rwRefcount + 1)
      have hle := hc.refcount_le
      rw [hlock] at href'
      dsimp only at href'
      unfold INT_MAX at hle
      omega
    · exact (h.readers href (by omega)).afterRun (by rw [hs]; simp)
  | sleepsRead hk hno hlt =>
    have hkw : k ≠ .wrlockWait := by
      rintro rfl
      cases hk
    have hww : (s.shared.lock.leave k).rwNwaitwriters = s.shared.lock.rwNwaitwriters := by
      cases k <;> simp_all [Lock.leave, isWrlockWait]
    refine ⟨fun href hw => ?_, fun href hw => ?_⟩
    · rw [hlock] at href hw
      exact (h.writer href (by rwa [hww] at hw)).afterRun hready hkw
    · rw [hlock] at href hw
      dsimp only [Lock.leave] at href hw hww
      omega
  | gotWrite hk href =>
    refine ⟨fun href' _ => ?_, fun href' _ => ?_⟩ <;>
    · rw [hlock] at href'
      dsimp only at href'
      omega
  | sleepsWrite hk hno hlt =>
    refine ⟨fun href _ => ?_, fun _ hw => ?_⟩
    · rw [hlock] at href
      exact absurd href hno
    · -- the sleeper counts itself, so writers wait after the section
      have hpos : (isWrlockWait k).toNat ≤ waiting isWrlockWait s.thread := by
        cases hb : isWrlockWait k with
        | false => simp
        | true =>
          exact (waiting_pos _ _).mpr ⟨t, (inWait_ready (hc.placed t) hready).2.trans hb⟩
      have hwn := hc.writers
      rw [hlock] at hw
      dsimp only [Lock.leave] at hw
      omega
  | releasedRead hk href | releasedWrite hk href =>
    subst hk
    exact wakeupsPending_unlock hc hready hs rfl rfl hwake
  | dumped hk href =>
    subst hk
    refine ⟨fun href hw => ?_, fun href hw => ?_⟩
    · rw [hlock] at href hw
      exact (h.writer href hw).afterRun hready (by decide)
    · rw [hlock] at href hw
      exact (h.readers href hw).afterRun (by rw [hs]; simp)

omit [Fintype ι] in
lemma WakeupsPending.update (h : WakeupsPending s) {x : Thread Point Cond}
    (hold : s.thread t ≠ .awakened .wrlockWait) (hnew : ∀ c, x ≠ .asleep c .rdlockWait) :
    WakeupsPending { s with thread := update s.thread t x } := by
  refine ⟨fun href hw => ?_, fun href hw u c hu => ?_⟩
  · obtain ⟨u, hu⟩ := h.writer href hw
    have hut : u ≠ t := by
      rintro rfl
      exact hold hu
    exact ⟨u, by simpa [update_of_ne hut] using hu⟩
  · by_cases hut : u = t
    · subst hut
      exact hnew c (by simpa using hu)
    · exact h.readers href hw u c (by simpa [update_of_ne hut] using hu)

lemma WakeupsPending.step {s' : RwState ι} {l : Label ι Point Cond ℤ} (h : WakeupsPending s)
    (hc : Counted s) (hst : (rwMonitor ι).Step s l s') (hroom : WaitRoom s l) :
    WakeupsPending s' := by
  cases hst with
  | call hout => exact h.update (by simp [hout]) nofun
  | spurious hs => exact h.update (by simp [hs]) nofun
  | run hready hwake => exact h.run hc hready hroom hwake

lemma WakeupsPending.awakened (hp : WakeupsPending s) (hc : Counted s) :
    (s.shared.lock.rwRefcount = 0 → (∃ t, (s.thread t).inWait isWrlockWait = true) →
        ∃ t, s.thread t = .awakened .wrlockWait) ∧
      (0 ≤ s.shared.lock.rwRefcount → (∀ t, (s.thread t).inWait isWrlockWait = false) →
        ∀ t, (s.thread t).inWait isRdlockWait = true → s.thread t = .awakened .rdlockWait) := by
  have hw := hc.writers
  refine ⟨fun href hex => ?_, fun href hno t ht => ?_⟩
  · have hpos := (waiting_pos _ _).mpr hex
    exact hp.writer href (by omega)
  · have hzero : waiting isWrlockWait s.thread = 0 := by
      by_contra hne
      obtain ⟨u, hu⟩ := (waiting_pos _ _).mp (Nat.pos_of_ne_zero hne)
      rw [hno u] at hu
      cases hu
    rcases asleep_or_awakened_rdlockWait (hc.placed t) ht with h | h
    · exact absurd h (hp.readers href (by omega) t _)
    · exact h

/-- Whatever the threads unlock, as long as `int`s can count the waiting threads: if `rw_refcount`
is 0 and a writer is inside its wait, some writer inside its wait has been woken; and if
`rw_refcount` is at least 0 and no writer is inside its wait, every reader inside its wait has been
woken. -/
theorem rwlock_no_lost_wakeup {s : RwState ι} {ls : List (Label ι Point Cond ℤ)}
    (hrun : (rwMonitor ι).RunWhen WaitRoom (rwStart ι) ls s) :
    (s.shared.lock.rwRefcount = 0 → (∃ t, (s.thread t).inWait isWrlockWait = true) →
        ∃ t, s.thread t = .awakened .wrlockWait) ∧
      (0 ≤ s.shared.lock.rwRefcount → (∀ t, (s.thread t).inWait isWrlockWait = false) →
        ∀ t, (s.thread t).inWait isRdlockWait = true → s.thread t = .awakened .rdlockWait) := by
  obtain ⟨hc, hp⟩ := hrun.invariant (I := fun s => Counted s ∧ WakeupsPending s)
    ⟨counted_rwStart, wakeupsPending_rwStart⟩
    fun s l s' h hst hroom => ⟨h.1.step hst hroom, h.2.step h.1 hst hroom⟩
  exact hp.awakened hc

lemma exists_run_writer_awakened :
    ∃ ls s, (rwMonitor (Fin 2)).RunWhen WaitRoom (rwStart (Fin 2)) ls s ∧
      s.shared.lock.rwRefcount = 0 ∧ (s.thread 1).inWait isWrlockWait = true := by
  have h0 : (rwMonitor (Fin 2)).RunWhen WaitRoom (rwStart (Fin 2)) [] _ := .nil
  have h1 := h0.call 0 .rdlock rfl ⟨by decide, by decide⟩ trivial
  have h2 := h1.section 0 .rdlock ∅ (.inl rfl) rfl trivial
  have h3 := h2.call 1 .wrlock rfl ⟨by decide, by decide⟩ trivial
  have h4 := h3.section 1 .wrlock ∅ (.inl rfl) rfl (show waiting isWrlockWait _ < INT_MAX by decide)
  have h5 := h4.call 0 .unlock rfl ⟨by decide, by decide⟩ trivial
  have h6 := h5.section 0 .unlock {1} (.inl rfl)
    ⟨fun i hi => ⟨.wrlockWait, by rw [Finset.mem_singleton.mp hi]; rfl⟩,
      fun _ => Finset.singleton_nonempty 1⟩ trivial
  exact ⟨_, _, h6, rfl, rfl⟩

/-- The free lock with a writer inside its wait: some writer has been woken. -/
theorem rwlock_no_lost_wakeup_after_unlock :
    ∃ s : RwState (Fin 2), s.shared.lock.rwRefcount = 0 ∧
      (s.thread 1).inWait isWrlockWait = true ∧ ∃ t, s.thread t = .awakened .wrlockWait := by
  obtain ⟨ls, s, hrun, href, hwait⟩ := exists_run_writer_awakened
  exact ⟨s, href, hwait, (rwlock_no_lost_wakeup hrun).1 href ⟨1, hwait⟩⟩

/-- The first thread has the write lock, and the `n` threads behind it are asleep in
`pthread_rwlock_rdlock`. -/
structure ReadersAsleep {N : ℕ} (s : RwState (Fin (N + 1))) (n : ℕ) : Prop where
  lock : s.shared.lock =
    { pthreadRwlockInit with rwNwaitreaders := wrapSigned 4 n, rwRefcount := -1 }
  asleep : ∀ i, 0 < i.val → i.val ≤ n → s.thread i = .asleep .rwCondreaders .rdlockWait
  outside : ∀ i, i.val = 0 ∨ n < i.val → s.thread i = .outside

lemma exists_readersAsleep {N : ℕ} (n : ℕ) (hn : n ≤ N) :
    ∃ ls s, (rwMonitor (Fin (N + 1))).Run (rwStart (Fin (N + 1))) ls s ∧ ReadersAsleep s n := by
  induction n with
  | zero =>
    have h0 : (rwMonitor (Fin (N + 1))).Run (rwStart (Fin (N + 1))) [] _ := .nil
    have h1 := h0.call 0 .wrlock rfl ⟨by decide, by decide⟩ trivial
    have h2 := h1.section 0 .wrlock ∅ (.inl (by simp)) rfl trivial
    refine ⟨_, _, h2, rfl, fun i hpos hle => by omega, fun i _ => ?_⟩
    by_cases hi : i = 0
    · rw [hi]
      rfl
    · simp [afterRun, hi, wakeAll, rwStart, MState.start]
  | succ n ih =>
    obtain ⟨ls, s, hrun, h⟩ := ih (by omega)
    have hsec : criticalSection .rdlock s.shared.lock =
        { shared := { pthreadRwlockInit with
            rwNwaitreaders := wrapSigned 4 (n + 1 : ℕ), rwRefcount := -1 }
          wake := none, exit := .wait .rwCondreaders .rdlockWait } := by
      simp [h.lock, criticalSection, pthreadRwlockRdlock, rdlockLoop, pthreadRwlockInit,
        wrapSigned_add]
    set t : Fin (N + 1) := ⟨n + 1, by omega⟩ with ht
    have hcall := hrun.call t .rdlock (h.outside t (.inr (Nat.lt_succ_self n)))
      ⟨by decide, by decide⟩ trivial
    have hsleep := hcall.section t .rdlock ∅ (.inl (by simp)) (by simp [rwMonitor, hsec, Wakes])
      trivial
    have hother : ∀ i, i ≠ t → ((rwMonitor (Fin (N + 1))).afterRun
        { s with thread := update s.thread t (.entering .rdlock) } t .rdlock ∅).thread i =
          s.thread i := fun i hi => by simp [afterRun, hi, wakeAll]
    refine ⟨_, _, hsleep, by simp [afterRun, rwMonitor, hsec], fun i hpos hle => ?_,
      fun i hi => ?_⟩
    · by_cases hit : i = t
      · subst hit
        simp [afterRun, rwMonitor, hsec, Thread.after]
      · have hne : i.val ≠ n + 1 := fun he => hit (Fin.ext he)
        rw [hother i hit]
        exact h.asleep i hpos (by omega)
    · have hit : i ≠ t := by
        rintro rfl
        simp [ht] at hi
      rw [hother i hit]
      exact h.outside i (by omega)

/-- With `2 ^ 31` readers asleep the counter of them is negative, and the writer that unlocks wakes
none of them. -/
theorem readers_sleep_on :
    ∃ ls s, (rwMonitor (Fin (2147483648 + 1))).Run (rwStart _) ls s ∧
      s.shared.lock.rwRefcount = 0 ∧ (∀ t, (s.thread t).inWait isWrlockWait = false) ∧
      ∃ t, s.thread t = .asleep .rwCondreaders .rdlockWait := by
  obtain ⟨ls, s, hrun, h⟩ := exists_readersAsleep 2147483648 (Nat.le_refl 2147483648)
  have hsec : criticalSection .unlock s.shared.lock =
      { shared := { pthreadRwlockInit with rwNwaitreaders := -2147483648 }
        wake := none, exit := .ret 0 } := by
    rw [h.lock, show wrapSigned 4 (2147483648 : ℕ) = -2147483648 by decide]
    rfl
  have hcall := hrun.call 0 .unlock (h.outside 0 (.inl rfl)) ⟨by decide, by decide⟩ trivial
  have hunlock := hcall.section 0 .unlock ∅ (.inl (by simp)) (by simp [rwMonitor, hsec, Wakes])
    trivial
  have hother : ∀ i, i ≠ 0 → ((rwMonitor (Fin (2147483648 + 1))).afterRun
      { s with thread := update s.thread 0 (.entering .unlock) } 0 .unlock ∅).thread i =
        .asleep .rwCondreaders .rdlockWait := by
    intro i hi
    rw [← h.asleep i (Nat.pos_of_ne_zero fun h0 => hi (Fin.ext h0)) (Nat.lt_succ_iff.mp i.isLt)]
    simp [afterRun, hi, wakeAll]
  refine ⟨_, _, hunlock, by simp [afterRun, rwMonitor, hsec, pthreadRwlockInit],
    fun i => ?_, ⟨1, by omega⟩, hother _ ?_⟩
  · by_cases hi : i = 0
    · subst hi
      simp [afterRun, rwMonitor, hsec, Thread.after]
    · rw [hother i hi]
      rfl
  · exact fun h0 => absurd (congrArg Fin.val h0) one_ne_zero

end UnixPrograms.Rwlock
