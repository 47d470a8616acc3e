import Mathlib.Tactic.FinCases
import UnixPrograms.Mymq.Queue

/-!
# Notification of a registered process

`mymq_send` looks for a registered process when it starts and finds the queue empty, but not when it
has waited for room.  A message that such a call puts on an empty queue is not announced
(`mymq_unannounced_message`), and this is the only case.
-/

namespace UnixPrograms.Mymq

variable {N Z : ℕ} {ι : Type}

/-- From the queue `q` to the queue `q'` the process that was registered has lost its registration
and, if it asked for a signal, has been sent it. -/
def Notified (q q' : Queue) : Prop :=
  getHdr q'.mem .mqhPid = 0 ∧
    (getHdr q.mem .sigevNotify = SIGEV_SIGNAL → q'.sent = q.sent ++ [registeredSignal q.mem])

lemma Outcome.notified_iff {q : Queue} {L F : List ℕ} {k : Point} {sec : QueueSection}
    {msg : List UInt8} {prio : UInt32} (ho : Outcome N Z q L F k sec)
    (hwf : WellFormed N Z q.mem L F) (hk : Sends k msg prio) (he : sec.exit = .ret .ok)
    (hempty : getHdr q.mem .mqCurmsgs = 0) (hpid : getHdr q.mem .mqhPid ≠ 0)
    (hnwait : getHdr q.mem .mqhNwait = 0) : Notified q sec.shared ↔ isSendWait k = false := by
  have hL : L.length = 0 := by
    have := hwf.curmsgs
    omega
  cases ho with
  | @placed _ _ m' _ _ _ hp hroom hwf' hattr hmsgs =>
    have hpid' : getHdr m' .mqhPid = getHdr (beforePut L k q).mem .mqhPid := hattr _ (by decide)
    constructor
    · -- a call that has waited leaves the registration as it is
      rintro ⟨hzero, -⟩
      by_contra hwait
      have hsame : beforePut L k q = q := if_neg fun hc => hwait hc.2
      rw [hsame] at hpid'
      exact hpid (hpid'.symm.trans hzero)
    · intro hfirst
      have hnotify : beforePut L k q = sendNotify q := if_pos ⟨hL, hfirst⟩
      have hreg : sendNotify q = { mem := setHdr q.mem .mqhPid 0, sent := _ } :=
        if_pos ⟨hpid, hnwait⟩
      refine ⟨?_, fun hsignal => ?_⟩
      · dsimp only
        rw [hpid', hnotify, hreg]
        exact getHdr_setHdr _ ⟨by decide, by decide⟩
      · dsimp only
        rw [hnotify, hreg]
        exact if_pos hsignal
  | failed errno _ => cases he
  | notified hk' _ _ _ =>
    obtain ⟨_, _, _, _, rfl⟩ := hk'
    rcases hk with ⟨info, hk⟩ | hk <;> cases hk
  | _ => cases he

variable [DecidableEq ι]

/-- Whenever `mymq_send` puts a message on an empty queue while a process is registered and no
receiver waits: the process is notified and its registration removed by that send exactly if the
call has not waited for room before. -/
theorem mymq_notified_iff {attr : MymqAttr} {m : Mem} (hopen : mymqOpen attr = some m)
    (hexact : SizeExact attr) {s s' : MqState ι} {ls : List (Label ι Point Unit Reply)}
    (hrun : (mqMonitor ι).Run (mqStart ι m) ls s) {t : ι} {k : Point} {msg : List UInt8}
    {prio : UInt32} (hk : Sends k msg prio)
    (hst : (mqMonitor ι).Step s (.run t k (.ret .ok)) s')
    (hempty : getHdr s.shared.mem .mqCurmsgs = 0) (hpid : getHdr s.shared.mem .mqhPid ≠ 0)
    (hnwait : getHdr s.shared.mem .mqhNwait = 0) :
    Notified s.shared s'.shared ↔ isSendWait k = false := by
  obtain ⟨hfit, hN, -⟩ := mymqOpen_spec hopen hexact
  obtain ⟨held, L, F, -, hr, -⟩ := running_run hopen hexact hrun
  generalize hl : Label.run t k (Exit.ret Reply.ok) = l at hst
  cases hst with
  | call hout hk | spurious hs => cases hl
  | @run t' k' W hready hwake =>
    obtain ⟨rfl, rfl, he⟩ := Label.run.inj hl
    exact (hr.outcome hfit hN hready).notified_iff hr.wf hk he.symm hempty hpid hnwait

def signalEvent : Sigevent where
  sigevNotify := SIGEV_SIGNAL
  sigevSigno := 10
  sigevValue := 0

def register42 : Point := .notify blockingInfo 42 (some signalEvent) true

/-- A process registers on the empty small queue, and the next message is announced to it. -/
theorem mymq_notified_iff_first_message :
    ∃ s s' : MqState Unit, getHdr s.shared.mem .mqhPid = 42 ∧
      (mqMonitor Unit).Step s (.run () (.send blockingInfo [7] 1) (.ret .ok)) s' ∧
      Notified s.shared s'.shared := by
  have h0 : (mqMonitor Unit).Run (mqStart Unit smallFile) [] _ := .nil
  have h1 := h0.call () register42 rfl trivial trivial
  have h2 := h1.section () register42 ∅ (.inl rfl) rfl trivial
  have h3 := h2.call () (.send blockingInfo [7] 1) rfl trivial trivial
  have hst := h3.next () (.send blockingInfo [7] 1) ∅ (e := .ret .ok) (.inl rfl)
    ⟨by simp, by rintro ⟨⟨⟩, k, hk⟩; cases hk⟩ rfl
  have hopen : mymqOpen smallAttr = some smallFile := rfl
  refine ⟨_, _, by decide +kernel, hst, ?_⟩
  exact (mymq_notified_iff hopen (by decide) h3 (.inl ⟨_, rfl⟩) hst (by decide +kernel)
    (by decide +kernel) (by decide +kernel)).mpr rfl

def oneAttr : MymqAttr where
  mqMaxmsg := 1
  mqMsgsize := 8

def oneFile : Mem := linkFree 32 0 (initHdr oneAttr) sizeofMymqHdr

/-- The queue is full and thread 1 waits for room.  Thread 0 takes the message, which wakes thread
1, and registers before thread 1 runs.  Thread 1 then puts its message on the empty queue, no
receiver waits, and yet no signal is sent and the process stays registered. -/
theorem mymq_unannounced_message :
    mymqOpen oneAttr = some oneFile ∧
      ∃ (ls : List (Label (Fin 2) Point Unit Reply)) (s s' : MqState (Fin 2)),
        (mqMonitor (Fin 2)).Run (mqStart (Fin 2) oneFile) ls s ∧
          (mqMonitor (Fin 2)).Step s (.run 1 (.sendWait [8] 1) (.ret .ok)) s' ∧
          getHdr s.shared.mem .mqCurmsgs = 0 ∧ getHdr s.shared.mem .mqhPid = 42 ∧
          getHdr s.shared.mem .sigevNotify = SIGEV_SIGNAL ∧ getHdr s.shared.mem .mqhNwait = 0 ∧
          getHdr s'.shared.mem .mqCurmsgs = 1 ∧ getHdr s'.shared.mem .mqhPid = 42 ∧
          s'.shared.sent = [] ∧ ¬ Notified s.shared s'.shared := by
  have h0 : (mqMonitor (Fin 2)).Run (mqStart (Fin 2) oneFile) [] _ := .nil
  have h1 := h0.call 0 (.send blockingInfo [7] 1) rfl trivial trivial
  have h2 := h1.section 0 (.send blockingInfo [7] 1) ∅ (.inl rfl)
    ⟨by simp, by rintro ⟨i, k, hk⟩; fin_cases i <;> cases hk⟩ trivial
  have h3 := h2.call 1 (.send blockingInfo [8] 1) rfl trivial trivial
  have h4 := h3.section 1 (.send blockingInfo [8] 1) ∅ (.inl rfl) rfl trivial
  have h5 := h4.call 0 (.receive blockingInfo 8) rfl trivial trivial
  have h6 := h5.section 0 (.receive blockingInfo 8) {1} (.inl rfl)
    ⟨fun i hi => ⟨.sendWait [8] 1, by rw [Finset.mem_singleton.mp hi]; rfl⟩, fun _ => ⟨1, by simp⟩⟩
    trivial
  have h7 := h6.call 0 register42 rfl trivial trivial
  have h8 := h7.section 0 register42 ∅ (.inl rfl) rfl trivial
  have hst := h8.next 1 (.sendWait [8] 1) ∅ (e := .ret .ok) (.inr rfl)
    ⟨by simp, by rintro ⟨i, k, hk⟩; fin_cases i <;> cases hk⟩ rfl
  refine ⟨rfl, _, _, _, h8, hst, ?_, ?_, ?_, ?_, ?_, ?_, rfl, fun hn => absurd hn.1 ?_⟩ <;>
    decide +kernel

end UnixPrograms.Mymq
