import UnixPrograms.Mymq.Queue
import Mathlib.Tactic.FinCases

/-!
# Lost wake-ups of a message queue

`mqh_wait` is signalled only when the queue becomes non-empty or stops being full.  So a second
message that arrives before the receiver woken for the first one runs wakes nobody
(`mymq_lost_wakeup`), and a signal may reach a thread of the other kind.  If no step allows either
(`WakeupReaches`), no wake-up is lost.
-/

namespace UnixPrograms.Mymq

open Thread

variable {N Z : ℕ} {ι : Type} [DecidableEq ι] [Fintype ι]

/-- No awakened thread has yet to run, and a thread sleeps that could go on: a receiver with a
message on the queue, or a sender with room. -/
def LostWakeup (s : MqState ι) : Prop :=
  (∀ t k, s.thread t ≠ .awakened k) ∧
    ((∃ t, (s.thread t).isAsleep isReceiveWait = true) ∧ 0 < getHdr s.shared.mem .mqCurmsgs ∨
      (∃ t, (s.thread t).isAsleep isSendWait = true) ∧
        getHdr s.shared.mem .mqCurmsgs < getHdr s.shared.mem .mqMaxmsg)

/-- If a message is put on the queue while receivers sleep, enough receivers have been woken for all
messages; for the first one it is enough that the signal cannot go to a sender. -/
def ReachesReceivers (s : MqState ι) : Prop :=
  0 < sleeping isReceiveWait s.thread →
    getHdr s.shared.mem .mqCurmsgs + 1 ≤ awakened isReceiveWait s.thread ∨
      (getHdr s.shared.mem .mqCurmsgs = 0 ∧ sleeping isSendWait s.thread = 0)

/-- If a message is taken off the queue while senders sleep, enough senders have been woken for all
the room; for the first free slot it is enough that the signal cannot go to a receiver. -/
def ReachesSenders (s : MqState ι) : Prop :=
  0 < sleeping isSendWait s.thread →
    getHdr s.shared.mem .mqMaxmsg - getHdr s.shared.mem .mqCurmsgs + 1 ≤
        awakened isSendWait s.thread ∨
      (getHdr s.shared.mem .mqCurmsgs = getHdr s.shared.mem .mqMaxmsg ∧
        sleeping isReceiveWait s.thread = 0)

/-- The step loses no wake-up. -/
def WakeupReaches (s : MqState ι) : Label ι Point Unit Reply → Prop
  | .run _ k _ => (PlacesMessage s.shared k → ReachesReceivers s) ∧
      (TakesMessage s.shared k → ReachesSenders s)
  | _ => True

/-- With `cur` messages on the queue for `N`: if receivers sleep, one has been woken for each
message, and if senders sleep, one has been woken for each free slot. -/
structure Balanced (N cur : ℕ) (thread : ι → Thread Point Unit) : Prop where
  receivers : 0 < sleeping isReceiveWait thread → cur ≤ awakened isReceiveWait thread
  senders : 0 < sleeping isSendWait thread → N ≤ cur + awakened isSendWait thread

variable {F L : List ℕ} {s : MqState ι}

omit [DecidableEq ι] in
lemma Balanced.not_lostWakeup (hb : Balanced N L.length s.thread)
    (hwf : WellFormed N Z s.shared.mem L F) : ¬ LostWakeup s := by
  rintro ⟨hnone, hlost⟩
  rw [hwf.curmsgs, hwf.maxmsg] at hlost
  rcases hlost with ⟨hex, hcur⟩ | ⟨hex, hcur⟩
  · have := hb.receivers ((countThreads_pos _ _).mpr hex)
    rw [awakened_eq_zero hnone] at this
    omega
  · have := hb.senders ((countThreads_pos _ _).mpr hex)
    rw [awakened_eq_zero hnone] at this
    omega

omit [DecidableEq ι] [Fintype ι] in
lemma asleep_cases {x : Thread Point Unit} (hp : (mqMonitor ι).Placed (WaitsOn Z) x) {c : Unit}
    (h : x.AsleepOn c) : x.isAsleep isReceiveWait = true ∨ x.isAsleep isSendWait = true := by
  obtain ⟨k, rfl⟩ := h
  have hk := hp.asleep c k rfl
  cases k <;> first | exact .inl rfl | exact .inr rfl | exact hk.elim

omit [DecidableEq ι] [Fintype ι] in
lemma isAwakened_ready {t : ι} {k : Point} (hp : (mqMonitor ι).Placed (WaitsOn Z) (s.thread t))
    (hready : s.Ready t k) :
    (s.thread t).isAwakened isReceiveWait = isReceiveWait k ∧
      (s.thread t).isAwakened isSendWait = isSendWait k := by
  rcases hready with h | h
  · have hk : IsEntry k := hp.entering k h
    rw [h]
    cases k <;> first | exact ⟨rfl, rfl⟩ | exact hk.elim
  · rw [h]
    exact ⟨rfl, rfl⟩

lemma awakened_lt_of_only {W : Finset ι} {q q' : Point → Bool}
    (hkinds : ∀ i, (s.thread i).AsleepOn () → (s.thread i).isAsleep q = true ∨ (s.thread
      i).isAsleep q' = true) (hwake : Wakes s.thread (some (.signal ())) W)
    (hsome : 0 < sleeping q s.thread) (hnone : sleeping q' s.thread = 0) :
    awakened q s.thread < awakened q (wakeAll W s.thread) := by
  obtain ⟨u, c, hu⟩ := exists_asleepOn hsome
  refine awakened_lt_of_signal hwake ⟨u, hu⟩ fun i hi => ?_
  rcases hkinds i hi with hq | hq'
  · exact hq
  · exact absurd hnone (Nat.ne_of_gt ((countThreads_pos _ _).mpr ⟨i, hq'⟩))

lemma Balanced.run (hb : Balanced N L.length s.thread) (h : Running N Z s L F) (hfit : Fits N Z)
    (hN : 0 < N) {t : ι} {k : Point} {W : Finset ι} (hready : s.Ready t k)
    (hwake : Wakes s.thread (criticalSection k s.shared).wake W)
    (hplaces : PlacesMessage s.shared k → ReachesReceivers s)
    (htakes : TakesMessage s.shared k → ReachesSenders s) :
    ∃ L' F', WellFormed N Z (criticalSection k s.shared).shared.mem L' F' ∧
      Balanced N L'.length ((mqMonitor ι).afterRun s t k W).thread := by
  have hexit : ((mqMonitor ι).sect t k s.shared).exit = (criticalSection k s.shared).exit := rfl
  have hkinds : ∀ i, (s.thread i).AsleepOn () → _ := fun i hi => asleep_cases (h.placed i) hi
  -- the four counts before and after
  obtain ⟨hsR, hwR⟩ := sleeping_awakened_afterRun isReceiveWait (mqMonitor ι) s W hready
  obtain ⟨hsS, hwS⟩ := sleeping_awakened_afterRun isSendWait (mqMonitor ι) s W hready
  rw [(isAwakened_ready (h.placed t) hready).1] at hwR
  rw [(isAwakened_ready (h.placed t) hready).2] at hwS
  rw [hexit] at hsR hsS
  have hleR := sleeping_wakeAll_le isReceiveWait W s.thread
  have hleS := sleeping_wakeAll_le isSendWait W s.thread
  have hgeR := awakened_le_wakeAll isReceiveWait W s.thread
  have hgeS := awakened_le_wakeAll isSendWait W s.thread
  have hkR := Bool.toNat_le (isReceiveWait k)
  have hkS := Bool.toNat_le (isSendWait k)
  have hcur := h.wf.curmsgs
  have hmax := h.wf.maxmsg
  have hbR := hb.receivers
  have hbS := hb.senders
  have ho := h.outcome hfit hN hready
  generalize criticalSection k s.shared = sec at ho hsR hsS hwake ⊢
  cases ho with
  | failed errno hk =>
    obtain ⟨hk₁, hk₂⟩ : isReceiveWait k = false ∧ isSendWait k = false := by
      cases k <;> first | exact ⟨rfl, rfl⟩ | exact hk.elim
    simp only [fail, after, isAsleep, hk₁, hk₂, Bool.toNat_false, Nat.add_zero] at *
    exact ⟨L, F, h.wf, fun hpos => by omega, fun hpos => by omega⟩
  | @placed msg prio m' L' F' hk hp hroom hwf hattr hmsgs =>
    have hk₁ : isReceiveWait k = false := by rcases hk with ⟨info, rfl⟩ | rfl <;> rfl
    have hlen : L'.length = L.length + 1 := by
      simpa [messages] using congrArg List.length hmsgs
    simp only [after, isAsleep, hk₁, Bool.toNat_false, Nat.add_zero] at *
    refine ⟨L', F', hwf, fun hpos => ?_, fun hpos => by omega⟩
    rcases hplaces hp (by omega) with hmany | ⟨hzero, hnone⟩
    · omega
    · rw [if_pos (by omega)] at hwake
      have := awakened_lt_of_only hkinds hwake (by omega) hnone
      omega
  | sendSleeps hk hlen hfull =>
    have hk₁ : isReceiveWait k = false := by rcases hk with ⟨info, rfl⟩ | rfl <;> rfl
    simp only [after, isAsleep, hk₁, isReceiveWait_sendWait, Bool.toNat_false,
      Nat.add_zero] at *
    exact ⟨L, F, h.wf, fun hpos => by omega, fun hpos => by omega⟩
  | @taken o L₁ m' hk hp hL hwf hattr hmsgs =>
    have hk₂ : isSendWait k = false := by rcases hk with ⟨info, len, rfl⟩ | rfl <;> rfl
    have hlen : L.length = L₁.length + 1 := by rw [hL, List.length_cons]
    simp only [after, isAsleep, hk₂, Bool.toNat_false, Nat.add_zero] at *
    refine ⟨L₁, o :: F, hwf, fun hpos => by omega, fun hpos => ?_⟩
    rcases htakes hp (by omega) with hmany | ⟨hfull, hnone⟩
    · omega
    · rw [if_pos (by omega)] at hwake
      have := awakened_lt_of_only (fun i hi => (hkinds i hi).symm) hwake (by omega) hnone
      omega
  | receiveSleeps hk hempty =>
    have hk₂ : isSendWait k = false := by rcases hk with ⟨info, len, rfl⟩ | rfl <;> rfl
    have hlen : L.length = 0 := by rw [hempty, List.length_nil]
    have hwf := (enterWait_spec h.wf k).1
    simp only [after, isAsleep, hk₂, isSendWait_receiveWait, Bool.toNat_false,
      Nat.add_zero] at *
    exact ⟨L, F, hwf, fun hpos => by omega, fun hpos => by omega⟩
  | notified hk hwf hmsgs hnwait =>
    obtain ⟨hk₁, hk₂⟩ : isReceiveWait k = false ∧ isSendWait k = false := by
      obtain ⟨_, _, _, _, rfl⟩ := hk
      exact ⟨rfl, rfl⟩
    simp only [after, isAsleep, hk₁, hk₂, Bool.toNat_false, Nat.add_zero] at *
    exact ⟨L, F, hwf, fun hpos => by omega, fun hpos => by omega⟩

lemma Balanced.step {s' : MqState ι} {l : Label ι Point Unit Reply}
    (hb : Balanced N L.length s.thread) (h : Running N Z s L F) (hfit : Fits N Z) (hN : 0 < N)
    (hst : (mqMonitor ι).Step s l s') (hC : WakeupReaches s l) :
    ∃ L' F', Running N Z s' L' F' ∧ Balanced N L'.length s'.thread := by
  have hplaced := hst.placed h.placed fun t k hready c k' he =>
      (h.outcome hfit hN hready).waitsOn he
  have halive := hst.not_crashed h.alive fun t k hready => (h.outcome hfit hN hready).exit_ne_crash
  cases hst with
  | @call t k hout hk =>
    obtain ⟨hsR, hwR⟩ := sleeping_awakened_call isReceiveWait k hout
    obtain ⟨hsS, hwS⟩ := sleeping_awakened_call isSendWait k hout
    refine ⟨L, F, ⟨h.wf, hplaced, halive⟩, ⟨fun hpos => ?_, fun hpos => ?_⟩⟩
    · rw [hwR]
      exact hb.receivers (hsR ▸ hpos)
    · rw [hwS]
      exact hb.senders (hsS ▸ hpos)
  | @spurious t c k hs =>
    obtain ⟨hsR, hwR⟩ := sleeping_awakened_spurious isReceiveWait hs
    obtain ⟨hsS, hwS⟩ := sleeping_awakened_spurious isSendWait hs
    refine ⟨L, F, ⟨h.wf, hplaced, halive⟩, ⟨fun hpos => ?_, fun hpos => ?_⟩⟩
    · exact (hb.receivers (Nat.lt_of_lt_of_le hpos hsR)).trans hwR
    · exact (hb.senders (Nat.lt_of_lt_of_le hpos hsS)).trans (Nat.add_le_add_left hwS _)
  | @run t k W hready hwake =>
    obtain ⟨L', F', hwf, hb'⟩ := hb.run h hfit hN hready hwake hC.1 hC.2
    exact ⟨L', F', ⟨hwf, hplaced, halive⟩, hb'⟩

/-- In every run whose steps all meet the condition, no state has lost a wake-up. -/
theorem mymq_no_lost_wakeup {attr : MymqAttr} {m : Mem} (hopen : mymqOpen attr = some m)
    (hexact : SizeExact attr) {s : MqState ι} {ls : List (Label ι Point Unit Reply)}
    (hrun : (mqMonitor ι).RunWhen WakeupReaches (mqStart ι m) ls s) : ¬ LostWakeup s := by
  obtain ⟨hfit, hN, hwf, -, -⟩ := mymqOpen_spec hopen hexact
  have hstart : Running attr.mqMaxmsg.toNat attr.mqMsgsize.toNat (mqStart ι m) []
      (slots attr.mqMaxmsg.toNat attr.mqMsgsize.toNat) :=
    ⟨hwf, fun i => Monitor.placed_outside _ _, fun i => by simp [mqStart, MState.start]⟩
  have hinv := hrun.invariant (I := fun s => ∃ L F,
    Running attr.mqMaxmsg.toNat attr.mqMsgsize.toNat s L F ∧
      Balanced attr.mqMaxmsg.toNat L.length s.thread)
    ⟨[], _, hstart, by simp, by simp [mqStart, MState.start, sleeping, countThreads,
      isAsleep]⟩ ?_
  · obtain ⟨L, F, hr, hb⟩ := hinv
    exact hb.not_lostWakeup hr.wf
  · rintro s l s' ⟨L, F, hr, hb⟩ hst hC
    exact hb.step hr hfit hN hst hC

/-- A receiver goes to sleep on the small queue, a sender wakes it, and it takes the message: every
step meets the condition, and no wake-up is lost. -/
theorem mymq_no_lost_wakeup_one_receiver :
    ∃ s : MqState (Fin 2), s.thread 0 = .awakened .receiveWait ∧
      getHdr s.shared.mem .mqCurmsgs = 1 ∧ ¬ LostWakeup s := by
  have h0 : (mqMonitor (Fin 2)).RunWhen WakeupReaches (mqStart (Fin 2) smallFile) [] _ := .nil
  have h1 := h0.call 0 (.receive blockingInfo 8) rfl trivial trivial
  have h2 := h1.section 0 (.receive blockingInfo 8) ∅ (.inl rfl) rfl
    ⟨fun h => h.elim, fun h => absurd h.2.2 (by decide)⟩
  have h3 := h2.call 1 (.send blockingInfo [7] 1) rfl trivial trivial
  have h4 := h3.section 1 (.send blockingInfo [7] 1) {0} (.inl rfl)
    ⟨fun i hi => ⟨.receiveWait, by rw [Finset.mem_singleton.mp hi]; rfl⟩, fun _ => ⟨0, by simp⟩⟩
    ⟨fun _ _ => .inr ⟨rfl, rfl⟩, fun h => h.elim⟩
  have hopen : mymqOpen smallAttr = some smallFile := rfl
  refine ⟨_, rfl, ?_, mymq_no_lost_wakeup hopen (by decide) h4⟩
  decide +kernel

def threeAttr : MymqAttr where
  mqMaxmsg := 3
  mqMsgsize := 8

def threeFile : Mem := linkFree 32 2 (initHdr threeAttr) sizeofMymqHdr

/-- The step is no call of `mymq_notify`, nor one of a queue open with `O_NONBLOCK`. -/
def BlockingCall : Label ι Point Unit Reply → Prop
  | .call _ (.send info _ _) => info.nonblock = false
  | .call _ (.receive info _) => info.nonblock = false
  | .call _ _ => False
  | _ => True

/-- Two receivers sleep.  The first message wakes one of them; the second is sent before it runs,
and wakes nobody.  Then the other one sleeps on, with a message on the queue and no thread in any
call. -/
theorem mymq_lost_wakeup :
    mymqOpen threeAttr = some threeFile ∧
      ∃ (ls : List (Label (Fin 3) Point Unit Reply)) (s : MqState (Fin 3)),
        (mqMonitor (Fin 3)).Run (mqStart (Fin 3) threeFile) ls s ∧ (∀ l ∈ ls, BlockingCall l) ∧
          s.thread 0 = .outside ∧ s.thread 1 = .asleep () .receiveWait ∧ s.thread 2 = .outside ∧
          LostWakeup s := by
  have h0 : (mqMonitor (Fin 3)).Run (mqStart (Fin 3) threeFile) [] _ := .nil
  have h1 := h0.call 0 (.receive blockingInfo 8) rfl trivial trivial
  have h2 := h1.section 0 (.receive blockingInfo 8) ∅ (.inl rfl) rfl trivial
  have h3 := h2.call 1 (.receive blockingInfo 8) rfl trivial trivial
  have h4 := h3.section 1 (.receive blockingInfo 8) ∅ (.inl rfl) rfl trivial
  have h5 := h4.call 2 (.send blockingInfo [7] 1) rfl trivial trivial
  have h6 := h5.section 2 (.send blockingInfo [7] 1) {0} (.inl rfl)
    ⟨fun i hi => ⟨.receiveWait, by rw [Finset.mem_singleton.mp hi]; rfl⟩, fun _ => ⟨0, by simp⟩⟩
    trivial
  have h7 := h6.call 2 (.send blockingInfo [8] 1) rfl trivial trivial
  have h8 := h7.section 2 (.send blockingInfo [8] 1) ∅ (.inl rfl) rfl trivial
  have h9 := h8.section 0 .receiveWait ∅ (.inr rfl) rfl trivial
  obtain ⟨ls, s, hrun, hblock, ht0, ht1, ht2, hcur⟩ :
      ∃ (ls : List (Label (Fin 3) Point Unit Reply)) (s : MqState (Fin 3)),
        (mqMonitor (Fin 3)).Run (mqStart (Fin 3) threeFile) ls s ∧ (∀ l ∈ ls, BlockingCall l) ∧
          s.thread 0 = .outside ∧ s.thread 1 = .asleep () .receiveWait ∧ s.thread 2 = .outside ∧
          0 < getHdr s.shared.mem .mqCurmsgs := by
    refine ⟨_, _, h9, fun l hl => ?_, rfl, rfl, rfl, by decide +kernel⟩
    simp only [List.nil_append, List.cons_append, List.mem_cons, List.not_mem_nil, or_false] at hl
    rcases hl with rfl | rfl | rfl | rfl | rfl | rfl | rfl | rfl | rfl <;> trivial
  refine ⟨rfl, ls, s, hrun, hblock, ht0, ht1, ht2, fun t k ht => ?_, .inl ⟨⟨1, ?_⟩, hcur⟩⟩
  · fin_cases t
    · cases ht0.symm.trans ht
    · cases ht1.symm.trans ht
    · cases ht2.symm.trans ht
  · rw [ht1]
    rfl

end UnixPrograms.Mymq
