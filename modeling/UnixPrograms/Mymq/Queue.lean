import UnixPrograms.Mymq.Sections

/-!
# A message queue is a bounded priority queue

`Running` is the invariant of all runs.  From it follow the structure of the file whenever the mutex
is free (`mymq_lists`), and that the calls, in the order of their critical sections, are those of a
bounded priority queue (`mymq_priority_queue`).
-/

namespace UnixPrograms.Mymq

open Thread

variable {N Z : ℕ} {ι : Type}

/-- Where a thread may wait. -/
def WaitsOn (Z : ℕ) (_ : Unit) : Point → Prop
  | .sendWait msg _ => msg.length ≤ Z
  | .receiveWait => True
  | _ => False

/-- The invariant of all runs: messages are in the slots `L`, and the slots `F` are free. -/
structure Running (N Z : ℕ) (s : MqState ι) (L F : List ℕ) : Prop where
  wf : WellFormed N Z s.shared.mem L F
  placed : ∀ i, (mqMonitor ι).Placed (WaitsOn Z) (s.thread i)
  alive : ∀ i, s.thread i ≠ .crashed

variable {s : MqState ι} {t : ι} {k : Point} {L F : List ℕ} {q : Queue} {sec : QueueSection}
  {m : Mem}

lemma lengthOk_ready (hp : (mqMonitor ι).Placed (WaitsOn Z) (s.thread t))
    (hready : s.Ready t k) : LengthOk Z k := by
  rcases hready with h | h
  · have hk : IsEntry k := hp.entering k h
    cases k <;> trivial
  · obtain ⟨c, hc⟩ := hp.awakened k h
    cases k <;> trivial

lemma inWait_ready (hp : (mqMonitor ι).Placed (WaitsOn Z) (s.thread t))
    (hready : s.Ready t k) : (s.thread t).inWait isReceiveWait = isReceiveWait k := by
  rcases hready with h | h
  · have hk : IsEntry k := hp.entering k h
    rw [h]
    cases k <;> first | rfl | exact hk.elim
  · rw [h]
    rfl

lemma Outcome.waitsOn {k' : Point} {c : Unit} (ho : Outcome N Z q L F k sec)
    (he : sec.exit = .wait c k') : WaitsOn Z c k' := by
  cases ho with
  | sendSleeps hk hlen hfull =>
    obtain rfl := (Exit.wait.inj he).2
    exact hlen
  | receiveSleeps hk hempty =>
    obtain rfl := (Exit.wait.inj he).2
    trivial
  | failed errno hk => cases he
  | _ => cases he

lemma Outcome.exit_ne_crash (ho : Outcome N Z q L F k sec) : sec.exit ≠ .crash := by
  intro he
  cases ho with
  | failed errno hk => cases he
  | _ => cases he

lemma Running.outcome (h : Running N Z s L F) (hfit : Fits N Z) (hN : 0 < N)
    (hready : s.Ready t k) : Outcome N Z s.shared L F k (criticalSection k s.shared) :=
  Mymq.outcome hfit hN h.wf (lengthOk_ready (h.placed t) hready)

/-! ## The abstract queue -/

/-- What a step does to a bounded priority queue that holds the messages `q`, in order of arrival:
`q'` are the messages that it holds afterwards. -/
def Behaves (maxmsg : ℕ) (q : List Msg) (l : Label ι Point Unit Reply) (q' : List Msg) : Prop :=
  match l with
  | .run _ k (.ret .ok) =>
      (∃ msg prio, Sends k msg prio ∧ q.length < maxmsg ∧
        q' = q ++ [{ prio := prio.toNat, body := msg }]) ∨ (Notifies k ∧ q' = q)
  | .run _ k (.ret (.received len body prio)) =>
      Receives k ∧ len = body.length ∧ IsNext Msg.prio q { prio := prio, body := body } q'
  | .run _ _ (.ret (.failed _)) => q' = q
  | .run _ _ (.wait _ _) => q' = q
  | .run _ _ .crash => False
  | .call _ _ => q' = q
  | .spurious _ => q' = q

/-- The steps `ls`, in this order, are those of a bounded priority queue that is empty at first and
holds the messages `q` in the end. -/
inductive BehavesRun (maxmsg : ℕ) : List (Label ι Point Unit Reply) → List Msg → Prop
  | nil : BehavesRun maxmsg [] []
  | snoc {ls : List (Label ι Point Unit Reply)} {l : Label ι Point Unit Reply} {q q' : List Msg}
      (hrun : BehavesRun maxmsg ls q) (hstep : Behaves maxmsg q l q') :
      BehavesRun maxmsg (ls ++ [l]) q'

/-- The messages on the queue in order of delivery, as a walk through the file finds them. -/
def contents (m : Mem) : List Msg :=
  messages m (walk (getNext m) (getHdr m .mqMaxmsg).toNat HdrField.mqhHead.addr)

lemma WellFormed.contents_eq (h : WellFormed N Z m L F) : contents m = messages m L := by
  have hlen := h.length_add
  have hmax := h.maxmsg
  rw [contents, Linked.walk_eq h.lists.fst (by omega)]

lemma Outcome.behaves (ho : Outcome N Z q L F k sec) (hwf : WellFormed N Z q.mem L F)
    {held : List Msg} (hq : Delivers Msg.prio held (messages q.mem L)) (t : ι) :
    ∃ held' L' F', Behaves N held (.run t k sec.exit) held' ∧
      WellFormed N Z sec.shared.mem L' F' ∧
      Delivers Msg.prio held' (messages sec.shared.mem L') := by
  cases ho with
  | failed errno hk => exact ⟨held, L, F, rfl, hwf, hq⟩
  | placed hk hp hroom hwf' hattr hmsgs =>
    refine ⟨_, _, _, .inl ⟨_, _, hk, ?_, rfl⟩, hwf', ?_⟩
    · have hlen := hq.perm.length_eq
      rw [messages, List.length_map] at hlen
      omega
    · dsimp only
      rw [hmsgs]
      exact hq.insert _
  | sendSleeps hk hlen hfull => exact ⟨held, L, F, rfl, hwf, hq⟩
  | @taken o L₁ m' hk hp hL hwf' hattr hmsgs =>
    rw [hL, messages, List.map_cons] at hq
    obtain ⟨rest, hnext, hrest⟩ := hq.isNext
    refine ⟨rest, L₁, o :: F, ?_, hwf', by dsimp only; rwa [hmsgs]⟩
    generalize msgAt q.mem o = x at hnext
    exact ⟨hk, rfl, hnext⟩
  | receiveSleeps hk hempty =>
    obtain ⟨hwf', hmsgs, -⟩ := enterWait_spec hwf k
    exact ⟨held, L, F, rfl, hwf', by rwa [hmsgs]⟩
  | notified hk hwf' hmsgs hnwait =>
    exact ⟨held, L, F, .inr ⟨hk, rfl⟩, hwf', by dsimp only; rwa [hmsgs]⟩

variable [DecidableEq ι]

lemma Running.step {s' : MqState ι} {l : Label ι Point Unit Reply} (h : Running N Z s L F)
    (hfit : Fits N Z) (hN : 0 < N) (hst : (mqMonitor ι).Step s l s') {held : List Msg}
    (hq : Delivers Msg.prio held (messages s.shared.mem L)) :
    ∃ held' L' F', Behaves N held l held' ∧ Running N Z s' L' F' ∧
      Delivers Msg.prio held' (messages s'.shared.mem L') := by
  have hplaced := hst.placed h.placed fun t k hready c k' he =>
      (h.outcome hfit hN hready).waitsOn he
  have halive := hst.not_crashed h.alive fun t k hready => (h.outcome hfit hN hready).exit_ne_crash
  cases hst with
  | @call t k hout hk | @spurious t c k hs => exact ⟨held, L, F, rfl, ⟨h.wf, hplaced, halive⟩, hq⟩
  | @run t k W hready hwake =>
    obtain ⟨held', L', F', hb, hwf, hq'⟩ := (h.outcome hfit hN hready).behaves h.wf hq t
    exact ⟨held', L', F', hb, ⟨hwf, hplaced, halive⟩, hq'⟩

lemma running_run {attr : MymqAttr} (hopen : mymqOpen attr = some m) (hexact : SizeExact attr)
    {ls : List (Label ι Point Unit Reply)} (hrun : (mqMonitor ι).Run (mqStart ι m) ls s) :
    ∃ held L F, BehavesRun attr.mqMaxmsg.toNat ls held ∧
      Running attr.mqMaxmsg.toNat attr.mqMsgsize.toNat s L F ∧
      Delivers Msg.prio held (messages s.shared.mem L) := by
  obtain ⟨hfit, hN, hwf, -, -⟩ := mymqOpen_spec hopen hexact
  -- by induction on the run
  induction hrun with
  | nil =>
    refine ⟨[], [], _, .nil, ⟨hwf, fun i => Monitor.placed_outside _ _, fun i => ?_⟩, delivers_nil⟩
    simp [mqStart, MState.start]
  | snoc _ hst _ ih =>
    obtain ⟨held, L, F, hb, hr, hd⟩ := ih
    obtain ⟨held', L', F', hb', hr', hd'⟩ := hr.step hfit hN hst hd
    exact ⟨held', L', F', .snoc hb hb', hr', hd'⟩

/-- For every queue that `mymq_open` creates without an overflow in its size: in the order of their
critical sections the calls are those of a bounded priority queue.  A receive returns the oldest of
the messages with the greatest priority, with its length and priority; a send succeeds only while
fewer than `mq_maxmsg` messages are held; and the file holds exactly the messages not yet received.
A call that fails changes nothing. -/
theorem mymq_priority_queue {attr : MymqAttr} {m : Mem} (hopen : mymqOpen attr = some m)
    (hexact : SizeExact attr) {s : MqState ι} {ls : List (Label ι Point Unit Reply)}
    (hrun : (mqMonitor ι).Run (mqStart ι m) ls s) :
    (∃ held, BehavesRun attr.mqMaxmsg.toNat ls held ∧ held.length ≤ attr.mqMaxmsg.toNat ∧
        Delivers Msg.prio held (contents s.shared.mem)) ∧
      ∀ t k errno s', (mqMonitor ι).Step s (.run t k (.ret (.failed errno))) s' →
        s'.shared = s.shared := by
  obtain ⟨hfit, hN, -⟩ := mymqOpen_spec hopen hexact
  obtain ⟨held, L, F, hb, hr, hd⟩ := running_run hopen hexact hrun
  refine ⟨⟨held, hb, ?_, by rwa [hr.wf.contents_eq]⟩, fun t k errno s' hst => ?_⟩
  · have hlen := hd.perm.length_eq
    have hall := hr.wf.length_add
    rw [messages, List.length_map] at hlen
    omega
  · generalize hl : Label.run t k (Exit.ret (Reply.failed errno)) = l at hst
    cases hst with
    | call hout hk | spurious hs => cases hl
    | @run t' k' W hready hwake =>
      obtain ⟨rfl, rfl, he⟩ := Label.run.inj hl
      have ho := hr.outcome hfit hN hready
      change Exit.ret (Reply.failed errno) = (criticalSection k s.shared).exit at he
      change (criticalSection k s.shared).shared = s.shared
      generalize criticalSection k s.shared = sec at ho he
      cases ho with
      | failed errno' hk => rfl
      | _ => cases he

def smallAttr : MymqAttr where
  mqMaxmsg := 2
  mqMsgsize := 8

def smallFile : Mem := linkFree 32 1 (initHdr smallAttr) sizeofMymqHdr

def blockingInfo : MymqInfo where
  mqiMagic := MQI_MAGIC
  mqiFlags := 0

lemma exists_run_send_send_receive :
    ∃ s : MqState Unit, (mqMonitor Unit).Run (mqStart Unit smallFile)
      [.call () (.send blockingInfo [1, 2, 3] 1),
      .run () (.send blockingInfo [1, 2, 3] 1) (.ret .ok),
        .call () (.send blockingInfo [4] 7), .run () (.send blockingInfo [4] 7) (.ret .ok),
        .call () (.receive blockingInfo 8),
        .run () (.receive blockingInfo 8) (.ret (.received 1 [4] 7))] s := by
  have hnone : ∀ (thread : Unit → Thread Point Unit), (∃ k, thread () = .entering k) →
      Wakes thread (some (.signal ())) ∅ := by
    rintro thread ⟨k, hk⟩
    refine ⟨by simp, ?_⟩
    rintro ⟨⟨⟩, k', hk'⟩
    rw [hk] at hk'
    cases hk'
  have h0 : (mqMonitor Unit).Run (mqStart Unit smallFile) [] _ := .nil
  have h1 := h0.call () (.send blockingInfo [1, 2, 3] 1) rfl trivial trivial
  have h2 := h1.section () (.send blockingInfo [1, 2, 3] 1) ∅ (.inl rfl) (hnone _ ⟨_, rfl⟩) trivial
  have h3 := h2.call () (.send blockingInfo [4] 7) rfl trivial trivial
  have h4 := h3.section () (.send blockingInfo [4] 7) ∅ (.inl rfl) rfl trivial
  have h5 := h4.call () (.receive blockingInfo 8) rfl trivial trivial
  have h6 := h5.section () (.receive blockingInfo 8) ∅ (.inl rfl) (hnone _ ⟨_, rfl⟩) trivial
  exact ⟨_, h6⟩

/-- The small queue behaves as a priority queue while a thread sends two messages and receives the
more urgent one. -/
theorem mymq_priority_queue_send_send_receive :
    ∃ held : List Msg, BehavesRun 2
      ([.call () (.send blockingInfo [1, 2, 3] 1),
      .run () (.send blockingInfo [1, 2, 3] 1) (.ret .ok),
        .call () (.send blockingInfo [4] 7), .run () (.send blockingInfo [4] 7) (.ret .ok),
        .call () (.receive blockingInfo 8),
        .run () (.receive blockingInfo 8) (.ret (.received 1 [4] 7))] :
          List (Label Unit Point Unit Reply)) held := by
  obtain ⟨s, hrun⟩ := exists_run_send_send_receive
  have hopen : mymqOpen smallAttr = some smallFile := rfl
  obtain ⟨⟨held, hb, -⟩, -⟩ := mymq_priority_queue hopen (by decide) hrun
  exact ⟨held, hb⟩

/-! ## The lists and the counters -/

omit [DecidableEq ι] in
lemma Outcome.nwait {w : ℤ} (ho : Outcome N Z q L F k sec)
    (hw : getHdr q.mem .mqhNwait = wrapSigned 8 w) :
    getHdr sec.shared.mem .mqhNwait =
      wrapSigned 8 (w + ((after sec.exit : Thread Point Unit).inWait isReceiveWait).toNat -
        (isReceiveWait k).toNat) := by
  cases ho with
  | failed errno hk =>
    have hk' : isReceiveWait k = false := by cases k <;> first | rfl | exact hk.elim
    simpa [fail, after, hk'] using hw
  | placed hk hp hroom hwf hattr hmsgs =>
    have hk' : isReceiveWait k = false := by rcases hk with ⟨info, rfl⟩ | rfl <;> rfl
    have hsame : getHdr (beforePut L k q).mem .mqhNwait = getHdr q.mem .mqhNwait := by
      unfold beforePut sendNotify
      split
      · split
        · exact getHdr_setHdr_of_ne _ _ (by decide)
        · rfl
      · rfl
    simpa [after, hk', hattr .mqhNwait (by decide), hsame] using hw
  | sendSleeps hk hlen hfull =>
    have hk' : isReceiveWait k = false := by rcases hk with ⟨info, rfl⟩ | rfl <;> rfl
    simpa [after, hk'] using hw
  | taken hk hp hL hwf hattr hmsgs =>
    rw [hattr .mqhNwait (by decide), leaveWait]
    split
    · rename_i hk'
      have hset := getSigned_setSigned_wrap q.mem HdrField.mqhNwait.addr 8
        (getHdr q.mem .mqhNwait - 1)
      refine hset.trans ?_
      rw [hw, sub_eq_add_neg, wrapSigned_add]
      simp [after, hk', sub_eq_add_neg]
    · rename_i hk'
      simpa [after, hk'] using hw
  | receiveSleeps hk hempty =>
    dsimp only
    rw [enterWait]
    split
    · rename_i hk'
      simpa [after, hk'] using hw
    · rename_i hk'
      have hset := getSigned_setSigned_wrap q.mem HdrField.mqhNwait.addr 8
        (getHdr q.mem .mqhNwait + 1)
      refine hset.trans ?_
      rw [hw, wrapSigned_add]
      simp [after, hk']
  | notified hk hwf hmsgs hnwait =>
    have hk' : isReceiveWait k = false := by obtain ⟨_, _, _, _, rfl⟩ := hk; rfl
    simpa [after, hk', hnwait] using hw

variable [Fintype ι]

/-- `mqh_nwait` is the number of threads inside the wait for a message, as a `long`. -/
def NwaitCounts (s : MqState ι) : Prop :=
  getHdr s.shared.mem .mqhNwait = wrapSigned 8 (waiting isReceiveWait s.thread)

lemma NwaitCounts.step {s' : MqState ι} {l : Label ι Point Unit Reply} (hn : NwaitCounts s)
    (h : Running N Z s L F) (hfit : Fits N Z) (hN : 0 < N) (hst : (mqMonitor ι).Step s l s') :
    NwaitCounts s' := by
  cases hst with
  | @call t k hout hk =>
    rw [NwaitCounts, waiting_update_of_inWait_eq _ (by rw [hout]; rfl)]
    exact hn
  | @spurious t c k hs =>
    rw [NwaitCounts, waiting_update_of_inWait_eq _ (by rw [hs]; rfl)]
    exact hn
  | @run t k W hready hwake =>
    have hw := waiting_afterRun isReceiveWait (mqMonitor ι) s W hready
    rw [inWait_ready (h.placed t) hready] at hw
    have hexit : ((mqMonitor ι).sect t k s.shared).exit = (criticalSection k s.shared).exit := rfl
    have hshared : ((mqMonitor ι).afterRun s t k W).shared = (criticalSection k s.shared).shared :=
      rfl
    rw [hexit] at hw
    rw [NwaitCounts, hshared, (h.outcome hfit hN hready).nwait hn]
    refine congrArg (wrapSigned 8) ?_
    omega

lemma nwaitCounts_run {attr : MymqAttr} (hopen : mymqOpen attr = some m) (hexact : SizeExact attr)
    {ls : List (Label ι Point Unit Reply)} (hrun : (mqMonitor ι).Run (mqStart ι m) ls s) :
    NwaitCounts s := by
  obtain ⟨hfit, hN, -, hnwait, -⟩ := mymqOpen_spec hopen hexact
  induction hrun with
  | nil =>
    rw [NwaitCounts, mqStart, waiting_start]
    exact hnwait.trans (by decide)
  | snoc hrun hst _ ih =>
    obtain ⟨_, L, F, -, hr, -⟩ := running_run hopen hexact hrun
    exact ih.step hr hfit hN hst

/-- For such a queue, in every state reached with the mutex free: the slots reached from `mqh_head`
and those reached from `mqh_free` are two disjoint lists without cycles that end with 0 and have all
the slots; `mq_curmsgs` is the length of the first, at most `mq_maxmsg`; its priorities do not
increase; `mqh_nwait` is the number of threads inside the wait for a message, in the range of a
`long`; and no call has ended its process by `err_dump`. -/
theorem mymq_lists {attr : MymqAttr} {m : Mem} (hopen : mymqOpen attr = some m)
    (hexact : SizeExact attr) {s : MqState ι} {ls : List (Label ι Point Unit Reply)}
    (hrun : (mqMonitor ι).Run (mqStart ι m) ls s) :
    (∃ L F, Linked (NextCell s.shared.mem) HdrField.mqhHead.addr L ∧
        Linked (NextCell s.shared.mem) HdrField.mqhFree.addr F ∧ (L ++ F).Nodup ∧
        (L ++ F).Perm (slots attr.mqMaxmsg.toNat attr.mqMsgsize.toNat) ∧
        getHdr s.shared.mem .mqCurmsgs = L.length ∧ L.length ≤ attr.mqMaxmsg.toNat ∧
        L.Pairwise fun o o' => getPrio s.shared.mem o' ≤ getPrio s.shared.mem o) ∧
      getHdr s.shared.mem .mqhNwait = wrapSigned 8 (waiting isReceiveWait s.thread) ∧
      (waiting isReceiveWait s.thread < 2 ^ 63 →
        getHdr s.shared.mem .mqhNwait = waiting isReceiveWait s.thread) ∧
      ∀ t, s.thread t ≠ .crashed := by
  obtain ⟨held, L, F, -, hr, -⟩ := running_run hopen hexact hrun
  have hcount := nwaitCounts_run hopen hexact hrun
  have hperm := hr.wf.lists.perm
  rw [List.append_nil] at hperm
  refine ⟨⟨L, F, hr.wf.lists.fst, hr.wf.lists.snd, hperm.nodup_iff.mpr (nodup_slots _ _), hperm,
    hr.wf.curmsgs, ?_, List.pairwise_map.mp hr.wf.sorted⟩, hcount, fun hlt => ?_, hr.alive⟩
  · have := hr.wf.length_add
    omega
  · rw [hcount, wrapSigned, toSigned_ofSigned (by norm_num; omega) (by norm_num; omega)]

/-- The small queue with one receiver asleep: `mqh_nwait` is 1. -/
theorem mymq_lists_receiver_asleep :
    ∃ s : MqState (Fin 2), s.thread 0 = .asleep () .receiveWait ∧
      waiting isReceiveWait s.thread = 1 ∧ getHdr s.shared.mem .mqhNwait = 1 := by
  have h0 : (mqMonitor (Fin 2)).Run (mqStart (Fin 2) smallFile) [] _ := .nil
  have h1 := h0.call 0 (.receive blockingInfo 8) rfl trivial trivial
  have h2 := h1.section 0 (.receive blockingInfo 8) ∅ (.inl rfl) rfl trivial
  have hopen : mymqOpen smallAttr = some smallFile := rfl
  obtain ⟨-, -, hnwait, -⟩ := mymq_lists hopen (by decide) h2
  exact ⟨_, rfl, rfl, hnwait (by decide)⟩

end UnixPrograms.Mymq
