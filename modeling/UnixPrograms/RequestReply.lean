import UnixPrograms.Lib.Datagrams
import UnixPrograms.Lib.Runs

/-!
# Requests with a timeout and retries

`request_reply_timeout_retry` takes any datagram from the server for the reply: nothing says which
request it belongs to.  Every call gets a reply of its own if and only if no reply to an earlier
call is received in a later one (`own_reply_iff`).
-/

namespace UnixPrograms.RequestReply

open List Option

@[ext]
structure Host where
  addr : ℕ
  port : ℕ
  deriving DecidableEq

structure Request where
  call : ℕ
  data : Bytes
  deriving DecidableEq

inductive Point where
  | outside
  | sending
  | waiting
  deriving DecidableEq

inductive Outcome where
  | failed (call : ℕ)
  /-- `nbytes`, with the contents of `reply` and the reply of the server that was received, if it
  was one, with the request that it answers. -/
  | replied (call replen nbytes : ℕ) (reply : Bytes) (origin : Option (Request × Bytes))
  deriving DecidableEq

/-- The arguments and variables of the call, the network and the outcomes so far. -/
structure State where
  pc : Point
  /-- The number of calls so far, with the present one. -/
  call : ℕ
  request : Bytes
  reply : Bytes
  replen : ℕ
  maxretries : ℤ
  retries : ℤ
  net : Exchange Request Bytes
  outcomes : List Outcome

inductive Action where
  | call (request reply : Bytes) (replen : ℕ) (maxretries : ℤ)
  | sendtohost
  | sendtohostFails
  /-- The reply number `j` is received; `found` says whether `name2addr` finds the server. -/
  | recv (j : ℕ) (found : Bool)
  /-- A datagram that the server has not sent is received. -/
  | recvOther (sender : Host) (found : Bool) (data : Bytes)
  | recvFails
  /-- The server receives the request number `i` and replies. -/
  | serve (i : ℕ) (data : Bytes)

def State.ret (s : State) (o : Outcome) : State :=
  { s with pc := .outside, outcomes := s.outcomes ++ [o] }

/-- The condition of the outer loop. -/
def loop (s : State) : State :=
  if s.retries < s.maxretries then { s with pc := .sending } else s.ret (.failed s.call)

def uComparehost (senderinfo : Host) (addr : Option ℕ) (port : ℕ) : Bool :=
  decide (port = senderinfo.port ∧ addr = some senderinfo.addr)

variable (server : Host)

def receive (s : State) (sender : Host) (found : Bool) (data : Bytes)
    (origin : Option (Request × Bytes)) : State :=
  let s := { s with reply := overwrite s.reply data }
  if uComparehost sender (if found then some server.addr else none) server.port then
    s.ret (if s.maxretries ≤ s.retries then .failed s.call
      else .replied s.call s.replen data.length s.reply origin)
  else s

def step (s : State) : Action → Option State
  | .call request reply replen maxretries =>
    if s.pc = .outside then
      some (loop { s with
        call := s.call + 1
        request := request
        reply := reply
        replen := replen
        maxretries := maxretries
        retries := 0 })
    else none
  | .sendtohost =>
    if s.pc = .sending then
      some { s with net := s.net.send ⟨s.call, s.request⟩, pc := .waiting }
    else none
  | .sendtohostFails => if s.pc = .sending then some (s.ret (.failed s.call)) else none
  | .recv j found =>
    if s.pc = .waiting then
      (s.net.replies[j]?).map fun p => receive server s server found (p.2.take s.replen) (some p)
    else none
  | .recvOther sender found data =>
    if s.pc = .waiting ∧ sender ≠ server then
      some (receive server s sender found (data.take s.replen) none)
    else none
  | .recvFails =>
    if s.pc = .waiting then some (loop { s with retries := s.retries + 1 }) else none
  | .serve i data => (s.net.answer i data).map fun net => { s with net := net }

def start : State where
  pc := .outside
  call := 0
  request := []
  reply := []
  replen := 0
  maxretries := 0
  retries := 0
  net := .empty
  outcomes := []

/-- A count is returned for a reply that the server has sent to a request of the same call, and
`reply` holds what fits of it. -/
def Own (net : Exchange Request Bytes) : Outcome → Prop
  | .failed _ => True
  | .replied call replen nbytes reply origin =>
    ∃ p, origin = some p ∧ p ∈ net.replies ∧ p.1.call = call ∧
      nbytes = min replen p.2.length ∧ reply.take nbytes = p.2.take replen

/-- No reply to a request of another call is received and taken for one from the server. -/
def OnTime (s : State) (a : Action) : Prop :=
  ∀ j p, a = .recv j true → s.net.replies[j]? = some p → p.1.call = s.call

variable {server} {s s' : State} {net : Exchange Request Bytes} {o : Outcome} {a : Action}

lemma Own.mono (h : Own s.net o) (hnet : ∀ p ∈ s.net.replies, p ∈ net.replies) : Own net o := by
  cases o with
  | failed => trivial
  | replied call replen nbytes reply origin =>
    obtain ⟨p, hp, hmem, hown⟩ := h
    exact ⟨p, hp, hnet p hmem, hown⟩

lemma uComparehost_iff {sender : Host} {found : Bool} :
    uComparehost sender (if found then some server.addr else none) server.port = true ↔
      found = true ∧ sender = server := by
  cases found with
  | false => simp [uComparehost]
  | true =>
    simp only [uComparehost, if_true, decide_eq_true_eq, some.injEq, true_and, Host.ext_iff]
    exact ⟨fun h => ⟨h.2.symm, h.1.symm⟩, fun h => ⟨h.2.symm, h.1.symm⟩⟩

/-- What holds in every state of a run. -/
structure Inv (s : State) : Prop where
  own : ∀ o ∈ s.outcomes, Own s.net o
  retries : s.pc ≠ .outside → s.retries < s.maxretries

lemma Inv.receive_server (h : Inv s) (hpc : s.pc = .waiting) (data : Bytes)
    (origin : Option (Request × Bytes)) :
    receive server s server true data origin = { s with reply := overwrite s.reply data }.ret
      (.replied s.call s.replen data.length (overwrite s.reply data) origin) := by
  have hretries : ¬ s.maxretries ≤ s.retries := Int.not_le.mpr (h.retries (by simp [hpc]))
  rw [receive, if_pos (uComparehost_iff.mpr ⟨rfl, rfl⟩), if_neg hretries]

lemma Inv.receive_other (h : Inv s) {sender : Host} {found : Bool}
    (hnot : ¬ (found = true ∧ sender = server)) (data : Bytes)
    (origin : Option (Request × Bytes)) : Inv (receive server s sender found data origin) := by
  simp only [receive, if_neg (mt uComparehost_iff.mp hnot)]
  exact { h with }

lemma inv_ret (h : ∀ o ∈ s.outcomes, Own s.net o) (ho : Own s.net o) : Inv (s.ret o) :=
  ⟨forall_mem_append.mpr ⟨h, forall_mem_singleton.mpr ho⟩, fun hpc => absurd rfl hpc⟩

lemma inv_loop (h : ∀ o ∈ s.outcomes, Own s.net o) : Inv (loop s) := by
  unfold loop
  split
  · exact ⟨h, fun _ => ‹_›⟩
  · exact inv_ret h trivial

lemma Inv.step (h : Inv s) (hst : step server s a = some s') (hC : OnTime s a) : Inv s' := by
  revert hst
  fun_cases RequestReply.step server s a with
  | case1 => exact fun hst => some.inj hst ▸ inv_loop h.own
  | case3 hpc => exact fun hst => some.inj hst ▸ ⟨h.own, fun _ => h.retries (by simp [hpc])⟩
  | case5 => exact fun hst => some.inj hst ▸ inv_ret h.own trivial
  | case7 j found hpc =>
    intro hst
    obtain ⟨p, hp, rfl⟩ := map_eq_some_iff.mp hst
    cases found with
    | false => exact h.receive_other (by simp) _ _
    | true =>
      rw [h.receive_server hpc]
      refine inv_ret h.own ⟨p, rfl, mem_of_getElem? hp, hC j p rfl hp, length_take, ?_⟩
      exact take_overwrite _ _
  | case9 sender found data hother =>
    exact fun hst => some.inj hst ▸ h.receive_other (fun heq => hother.2 heq.2) _ _
  | case11 => exact fun hst => some.inj hst ▸ inv_loop h.own
  | case13 i data =>
    intro hst
    obtain ⟨net, hnet, rfl⟩ := map_eq_some_iff.mp hst
    exact ⟨fun o ho => (h.own o ho).mono fun _ => Exchange.mem_replies_answer hnet, h.retries⟩
  | _ => simp

lemma Inv.not_own (h : Inv s) (hst : RequestReply.step server s a = some s') (hC : ¬ OnTime s a) :
    ¬ ∀ o ∈ s'.outcomes, Own s'.net o := by
  simp only [OnTime, not_forall] at hC
  obtain ⟨j, p, rfl, hp, hlate⟩ := hC
  obtain ⟨hpc, hst⟩ := ite_none_right_eq_some.mp hst
  rw [hp, map_some, h.receive_server hpc] at hst
  obtain rfl := some.inj hst
  intro hown
  obtain ⟨q, ⟨⟩, -, hcall, -⟩ := hown _ (mem_append_right _ (mem_singleton_self _))
  exact hlate hcall

/-- Every call that returns a count returns a reply to a request of its own, throughout a run, if
and only if no reply is received in a later call than the one that has sent the request. -/
theorem own_reply_iff (server : Host) {ls : List Action} {s : State} :
    Throughout (step server) (fun s => ∀ o ∈ s.outcomes, Own s.net o) start ls s ↔
      RunWhen (step server) OnTime start ls s :=
  have hstart : Inv start := ⟨fun _ ho => absurd ho not_mem_nil, fun hpc => absurd rfl hpc⟩
  throughout_iff hstart (fun _ => Inv.own) (fun _ _ _ => Inv.step) fun _ _ _ => Inv.not_own

def lateReply : List Action :=
  [.call [1] [0] 1 1, .sendtohost, .recvFails, .serve 0 [7], .call [2] [0] 1 1, .sendtohost,
    .recv 0 true]

/-- The second call returns the reply to the request of the first one. -/
theorem own_reply_late :
    ∃ s, RunFrom (step ⟨1, 13⟩) start lateReply s ∧ ∃ o ∈ s.outcomes, ¬ Own s.net o := by
  obtain ⟨s, hrun, hs⟩ := exists_runFrom (step ⟨1, 13⟩) start lateReply
    (·.outcomes = [.failed 1, .replied 2 1 1 [7] (some (⟨1, [1]⟩, [7]))]) (by decide)
  refine ⟨s, hrun, _, hs ▸ mem_cons_of_mem _ (mem_singleton_self _), ?_⟩
  rintro ⟨p, ⟨⟩, -, hcall, -⟩
  exact absurd hcall (by decide)

end UnixPrograms.RequestReply
