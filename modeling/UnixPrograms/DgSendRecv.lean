import UnixPrograms.Lib.Datagrams
import UnixPrograms.Lib.Runs
import Mathlib.Tactic.Ring

/-!
# The reliable datagram client `dg_send_recv`

A call sends a request with a sequence number and a time stamp, and waits for a reply with the same
sequence number.  When the alarm goes off, the handler jumps back and the request is sent again, up
to `RTT_MAXNREXMT` times.

The reply returned is to a request of the call itself (`dg_send_recv_own_reply`), unless the alarm
goes off between `alarm` and the first `sigsetjmp`: then the handler jumps into a call that has
returned (`dg_send_recv_wild_jump`).
-/

namespace UnixPrograms.DgSendRecv

open List Option

def RTT_MAXNREXMT : ℕ := 3

def RTT_RXTMIN : ℕ := 2

def sizeofHdr : ℕ := 8

structure Timeval where
  sec : ℕ
  usec : ℕ
  usec_lt : usec < 10 ^ 6
  deriving DecidableEq

def Timeval.ms (t : Timeval) : ℤ := t.sec * 1000 + (t.usec / 1000 : ℕ)

structure Hdr where
  seq : BitVec 32
  ts : BitVec 32
  deriving DecidableEq

/-- `rtt_ts`: milliseconds since the second `base`. -/
def rttTs (base : BitVec 32) (now : Timeval) : BitVec 32 :=
  BitVec.ofInt 32 (((now.sec : ℤ) - base.toNat) * 1000 + (now.usec / 1000 : ℕ))

/-- A request on its way: the call that has sent it, its header, the time at which its stamp was
taken, and its data. -/
structure Request where
  call : ℕ
  hdr : Hdr
  time : Timeval
  data : Bytes

inductive Point where
  | idle
  | sendagain
  | sendmsg
  | alarm
  | sigsetjmp
  | recvmsg
  | stopAlarm
  | rttStop
  /-- Behind the second return of `sigsetjmp`. -/
  | timeout
  /-- The handler has jumped into a call that has returned, or nowhere. -/
  | wild
  deriving DecidableEq

inductive Outcome where
  | timedOut (call : ℕ)
  /-- `n`, with the contents of `inbuff`, the sample that is handed to `rtt_stop` and the time at
  which it was taken. -/
  | replied (call inbytes n : ℕ) (inbuff : Bytes) (sample : BitVec 32) (time : Timeval)
  deriving DecidableEq

/-- The static variables, the arguments and variables of the call, the clocks, the network and the
outcomes of the calls so far. -/
structure State where
  rttinit : Bool
  rttBase : BitVec 32
  rttNrexmt : ℕ
  sendhdr : Hdr
  recvhdr : Hdr
  /-- The call that has set `jmpbuf`. -/
  jmpbuf : Option ℕ
  pc : Point
  /-- The number of calls so far, with the present one. -/
  call : ℕ
  outbuff : Bytes
  inbuff : Bytes
  inbytes : ℕ
  n : ℕ
  /-- The time of the stamp in `sendhdr`. -/
  stamped : Timeval
  now : Timeval
  /-- The seconds that have passed. -/
  uptime : ℕ
  /-- When the alarm is due. -/
  alarm : Option ℕ
  net : Exchange Request Bytes
  outcomes : List Outcome

inductive Action where
  | call (outbuff inbuff : Bytes) (inbytes : ℕ)
  | stamp
  | sendmsg
  /-- `rtt_start` gives a number of seconds. -/
  | alarm (sec : ℕ)
  | sigsetjmp
  /-- `Recvmsg` gives the reply number `j`. -/
  | recvmsg (j : ℕ)
  /-- `Recvmsg` gives a datagram that is too short for a header. -/
  | recvShort (n : ℕ) (hdr : Hdr)
  | stopAlarm
  | rttStop
  | sigalrm
  | timeout
  /-- The server receives the request number `i` and replies. -/
  | serve (i : ℕ) (data : Bytes)
  | tick (now : Timeval) (sec : ℕ)
  /-- Any outcome, after the handler has jumped wildly. -/
  | anything (o : Outcome)

/-- The start of a call, up to `sendagain`. -/
def begin (s : State) (outbuff inbuff : Bytes) (inbytes : ℕ) : State :=
  { s with
    rttBase := if s.rttinit then s.rttBase else BitVec.ofNat 32 s.now.sec
    rttinit := true
    sendhdr := { s.sendhdr with seq := s.sendhdr.seq + 1 }
    rttNrexmt := 0
    call := s.call + 1
    outbuff := outbuff
    inbuff := inbuff
    inbytes := inbytes
    pc := .sendagain }

def receive (s : State) (n : ℕ) (hdr : Hdr) (data : Bytes) : State :=
  { s with
    recvhdr := hdr
    inbuff := overwrite s.inbuff data
    n := n
    pc := if n < sizeofHdr ∨ hdr.seq ≠ s.sendhdr.seq then .recvmsg else .stopAlarm }

def finish (s : State) : State :=
  { s with
    outcomes := s.outcomes ++ [.replied s.call s.inbytes (s.n - sizeofHdr) s.inbuff
      (rttTs s.rttBase s.now - s.recvhdr.ts) s.now]
    pc := .idle }

def onTimeout (s : State) : State :=
  if s.rttNrexmt + 1 > RTT_MAXNREXMT then
    { s with
      rttNrexmt := s.rttNrexmt + 1
      -- reinit in case we're called again
      rttinit := false
      outcomes := s.outcomes ++ [.timedOut s.call]
      pc := .idle }
  else { s with rttNrexmt := s.rttNrexmt + 1, pc := .sendagain }

/-- The alarm is due. -/
def State.rings (s : State) : Prop := ∃ due ∈ s.alarm, due ≤ s.uptime

instance (s : State) : Decidable s.rings := inferInstanceAs (Decidable (∃ due ∈ s.alarm, _))

def step (s : State) : Action → Option State
  | .call outbuff inbuff inbytes =>
    if s.pc = .idle then some (begin s outbuff inbuff inbytes) else none
  | .stamp =>
    if s.pc = .sendagain then
      some { s with
        sendhdr := { s.sendhdr with ts := rttTs s.rttBase s.now }
        stamped := s.now
        pc := .sendmsg }
    else none
  | .sendmsg =>
    if s.pc = .sendmsg then
      some { s with net := s.net.send ⟨s.call, s.sendhdr, s.stamped, s.outbuff⟩, pc := .alarm }
    else none
  | .alarm sec =>
    if s.pc = .alarm ∧ RTT_RXTMIN ≤ sec then
      some { s with alarm := some (s.uptime + sec), pc := .sigsetjmp }
    else none
  | .sigsetjmp =>
    if s.pc = .sigsetjmp then some { s with jmpbuf := some s.call, pc := .recvmsg } else none
  | .recvmsg j =>
    if s.pc = .recvmsg then
      (s.net.replies[j]?).map fun p =>
        receive s (sizeofHdr + (p.2.take s.inbytes).length) p.1.hdr (p.2.take s.inbytes)
    else none
  | .recvShort n hdr =>
    if s.pc = .recvmsg ∧ n < sizeofHdr then some (receive s n hdr []) else none
  | .stopAlarm =>
    if s.pc = .stopAlarm then some { s with alarm := none, pc := .rttStop } else none
  | .rttStop => if s.pc = .rttStop then some (finish s) else none
  | .sigalrm =>
    if s.rings ∧ s.pc ≠ .wild then
      some { s with
        alarm := none
        pc := if s.jmpbuf = some s.call then .timeout else .wild }
    else none
  | .timeout => if s.pc = .timeout then some (onTimeout s) else none
  | .serve i data => (s.net.answer i data).map fun net => { s with net := net }
  | .tick now sec => some { s with now := now, uptime := s.uptime + sec }
  | .anything o => if s.pc = .wild then some { s with outcomes := s.outcomes ++ [o] } else none

def start (now : Timeval) : State where
  rttinit := false
  rttBase := 0
  rttNrexmt := 0
  sendhdr := ⟨0, 0⟩
  recvhdr := ⟨0, 0⟩
  jmpbuf := none
  pc := .idle
  call := 0
  outbuff := []
  inbuff := []
  inbytes := 0
  n := 0
  stamped := now
  now := now
  uptime := 0
  alarm := none
  net := .empty
  outcomes := []

/-! ## The invariant -/

def Point.armed : Point → Bool
  | .sigsetjmp | .recvmsg | .stopAlarm => true
  | _ => false

def Point.jumps : Point → Bool
  | .recvmsg | .stopAlarm => true
  | _ => false

def Point.accepts : Point → Bool
  | .stopAlarm | .rttStop => true
  | _ => false

def Point.quiet : Point → Bool
  | .idle | .sendagain | .alarm | .timeout => true
  | _ => false

/-- The reply that the call has accepted answers one of its own requests. -/
def Accepted (s : State) : Prop :=
  ∃ p ∈ s.net.replies, p.1.call = s.call ∧ s.recvhdr = p.1.hdr ∧
    s.n = sizeofHdr + min p.2.length s.inbytes ∧
    s.inbuff.take (s.n - sizeofHdr) = p.2.take s.inbytes

/-- A call has returned the data of a reply to a request of its own, as far as they fit into the
buffer, and the sample is the time since that request was stamped, in milliseconds. -/
def Answered (net : Exchange Request Bytes) : Outcome → Prop
  | .timedOut _ => True
  | .replied call inbytes n inbuff sample time =>
    ∃ p ∈ net.replies, p.1 ∈ net.requests ∧ p.1.call = call ∧ n = min p.2.length inbytes ∧
      inbuff.take n = p.2.take n ∧ sample = BitVec.ofInt 32 (time.ms - p.1.time.ms)

def Action.isCall : Action → Bool
  | .call .. => true
  | _ => false

def Action.isSigalrm : Action → Bool
  | .sigalrm => true
  | _ => false

/-- The sequence numbers do not wrap around. -/
def FewCalls (s : State) (a : Action) : Prop := a.isCall = true → s.call + 1 < 2 ^ 32

/-- The alarm does not go off between `alarm` and the first `sigsetjmp` of a call. -/
def InTime (s : State) (a : Action) : Prop :=
  a.isSigalrm = true → s.pc = .sigsetjmp → s.jmpbuf = some s.call

instance (s : State) (a : Action) : Decidable (FewCalls s a) :=
  inferInstanceAs (Decidable (_ → _))

instance (s : State) (a : Action) : Decidable (InTime s a) :=
  inferInstanceAs (Decidable (_ → _ → _))

/-- What holds at the point that the call has reached. -/
structure PointOk (s : State) : Prop where
  pc : s.pc ≠ .wild
  stamped : s.pc = .sendmsg → s.sendhdr.ts = rttTs s.rttBase s.stamped
  alarm : s.alarm ≠ none → s.pc.armed = true
  jumps : s.pc.jumps = true → s.jmpbuf = some s.call
  accepted : s.pc.accepts = true → Accepted s

/-- What holds in every state of a run. -/
structure Inv (s : State) : Prop where
  call_lt : s.call < 2 ^ 32
  seq : s.sendhdr.seq = BitVec.ofNat 32 s.call
  requests : ∀ r ∈ s.net.requests, r.call ≤ s.call ∧ r.hdr.seq = BitVec.ofNat 32 r.call
  /-- The stamps of the present call are from one base. -/
  stamps : ∀ r ∈ s.net.requests, r.call = s.call → r.hdr.ts = rttTs s.rttBase r.time
  outcomes : ∀ o ∈ s.outcomes, Answered s.net o
  point : PointOk s

lemma rttTs_sub (base : BitVec 32) (now time : Timeval) :
    rttTs base now - rttTs base time = BitVec.ofInt 32 (now.ms - time.ms) := by
  have hadd : rttTs base now = BitVec.ofInt 32 (now.ms - time.ms) + rttTs base time := by
    unfold rttTs
    rw [← BitVec.ofInt_add]
    congr 1
    unfold Timeval.ms
    ring
  rw [hadd, BitVec.add_sub_cancel]

lemma ofNat_inj {a b : ℕ} (ha : a < 2 ^ 32) (hb : b < 2 ^ 32)
    (h : BitVec.ofNat 32 a = BitVec.ofNat 32 b) : a = b := by
  have hmod := congrArg BitVec.toNat h
  rwa [BitVec.toNat_ofNat, BitVec.toNat_ofNat, Nat.mod_eq_of_lt ha, Nat.mod_eq_of_lt hb] at hmod

lemma Answered.mono {net net' : Exchange Request Bytes} {o : Outcome} (h : Answered net o)
    (hreq : ∀ r ∈ net.requests, r ∈ net'.requests) (hrep : ∀ p ∈ net.replies, p ∈ net'.replies) :
    Answered net' o := by
  cases o with
  | timedOut => trivial
  | replied call inbytes n inbuff sample time =>
    obtain ⟨p, hp, hpr, hrest⟩ := h
    exact ⟨p, hrep p hp, hreq _ hpr, hrest⟩

namespace PointOk

variable {s : State}

/-- At a quiet point the alarm is not set, and nothing else is required. -/
lemma of_quiet (hquiet : s.pc.quiet = true) (hnone : s.alarm = none) : PointOk s := by
  refine ⟨?_, ?_, fun hne => absurd hnone hne, ?_, ?_⟩ <;> intro hm <;>
    cases hpc : s.pc <;> rw [hpc] at hquiet hm <;> 
    first | exact absurd hquiet Bool.false_ne_true | cases hm

lemma alarm_eq_none (h : PointOk s) (hpc : s.pc.armed = false) : s.alarm = none := by
  by_contra hne
  have := h.alarm hne
  rw [hpc] at this
  cases this

end PointOk

namespace Inv

variable {s s' : State}

section

variable (h : Inv s)
include h

lemma begin (hpc : s.pc = .idle) (hfew : s.call + 1 < 2 ^ 32) (outbuff inbuff : Bytes)
    (inbytes : ℕ) : Inv (begin s outbuff inbuff inbytes) where
  call_lt := hfew
  seq := by
    show s.sendhdr.seq + 1 = BitVec.ofNat 32 (s.call + 1)
    rw [h.seq, BitVec.ofNat_add]
    rfl
  requests r hr := ⟨(h.requests r hr).1.trans (Nat.le_succ _), (h.requests r hr).2⟩
  stamps r hr hcall := absurd (h.requests r hr).1 (by rw [hcall]; exact Nat.not_succ_le_self _)
  outcomes := h.outcomes
  point := .of_quiet rfl (h.point.alarm_eq_none (by rw [hpc]; rfl))

lemma stamp (hpc : s.pc = .sendagain) :
    Inv { s with
      sendhdr := { s.sendhdr with ts := rttTs s.rttBase s.now }
      stamped := s.now
      pc := .sendmsg } :=
  { h with
    seq := h.seq
    point :=
      { pc := Point.noConfusion
        stamped := fun _ => rfl
        alarm := fun hne => absurd (h.point.alarm_eq_none (by rw [hpc]; rfl)) hne
        jumps := fun hm => by cases hm
        accepted := fun hm => by cases hm } }

lemma sendmsg (hpc : s.pc = .sendmsg) :
    Inv { s with
      net := s.net.send ⟨s.call, s.sendhdr, s.stamped, s.outbuff⟩
      pc := .alarm } where
  call_lt := h.call_lt
  seq := h.seq
  requests r hr := by
    rcases mem_append.mp hr with hr | hr
    · exact h.requests r hr
    · rw [mem_singleton.mp hr]
      exact ⟨Nat.le_refl _, h.seq⟩
  stamps r hr hcall := by
    rcases mem_append.mp hr with hr | hr
    · exact h.stamps r hr hcall
    · rw [mem_singleton.mp hr]
      exact h.point.stamped hpc
  outcomes o ho := (h.outcomes o ho).mono (fun _ hr => mem_append_left _ hr) fun _ hp => hp
  point := .of_quiet rfl (h.point.alarm_eq_none (by rw [hpc]; rfl))

lemma receive (hpc : s.pc = .recvmsg) {n : ℕ} {hdr : Hdr} {data : Bytes}
    (hacc : sizeofHdr ≤ n → hdr.seq = s.sendhdr.seq → Accepted (receive s n hdr data)) :
    Inv (receive s n hdr data) := by
  have hjump := h.point.jumps (by rw [hpc]; rfl)
  unfold DgSendRecv.receive at hacc ⊢
  by_cases hloop : n < sizeofHdr ∨ hdr.seq ≠ s.sendhdr.seq
  · rw [if_pos hloop]
    exact { h with
      point := ⟨Point.noConfusion, fun hm => (by cases hm), fun _ => rfl, fun _ => hjump,
        fun hm => (by cases hm)⟩ }
  · rw [if_neg hloop] at hacc ⊢
    obtain ⟨hlen, hseq⟩ := not_or.mp hloop
    exact { h with
      point := ⟨Point.noConfusion, fun hm => (by cases hm), fun _ => rfl, fun _ => hjump,
        fun _ => hacc (not_lt.mp hlen) (not_not.mp hseq)⟩ }

lemma recvmsg (hpc : s.pc = .recvmsg) {p : Request × Bytes} (hp : p ∈ s.net.replies) :
    Inv (DgSendRecv.receive s (sizeofHdr + (p.2.take s.inbytes).length) p.1.hdr
      (p.2.take s.inbytes)) := by
  refine h.receive hpc fun _ hseq => ?_
  obtain ⟨hcall, hpseq⟩ := h.requests p.1 (s.net.answered p hp)
  have hown : p.1.call = s.call :=
    ofNat_inj (lt_of_le_of_lt hcall h.call_lt) h.call_lt (hpseq.symm.trans (hseq.trans h.seq))
  refine ⟨p, hp, hown, rfl, ?_, ?_⟩
  · show sizeofHdr + (p.2.take s.inbytes).length = sizeofHdr + min p.2.length s.inbytes
    rw [length_take, Nat.min_comm]
  · show (overwrite s.inbuff (p.2.take s.inbytes)).take
      (sizeofHdr + (p.2.take s.inbytes).length - sizeofHdr) = p.2.take s.inbytes
    rw [Nat.add_sub_cancel_left, take_overwrite]

lemma outcome (o : Outcome) (ho : Answered s.net o) (hnone : s.alarm = none) (rttinit : Bool)
    (nrexmt : ℕ) :
    Inv { s with
      rttinit := rttinit
      rttNrexmt := nrexmt
      outcomes := s.outcomes ++ [o]
      pc := .idle } :=
  { h with
    outcomes := fun o' ho' => by
      rcases mem_append.mp ho' with ho' | ho'
      · exact h.outcomes o' ho'
      · rw [mem_singleton.mp ho']
        exact ho
    point := .of_quiet rfl hnone }

lemma finish (hpc : s.pc = .rttStop) : Inv (finish s) := by
  obtain ⟨p, hp, hown, hhdr, hn, hdata⟩ := h.point.accepted (by rw [hpc]; rfl)
  have hpr := s.net.answered p hp
  have hn' : s.n - sizeofHdr = min p.2.length s.inbytes := by
    rw [hn, Nat.add_sub_cancel_left]
  refine h.outcome (.replied ..) ⟨p, hp, hpr, hown, hn', ?_, ?_⟩
    (h.point.alarm_eq_none (by rw [hpc]; rfl)) _ _
  · rw [hdata, hn', Nat.min_comm, take_eq_take_min]
  · rw [hhdr, h.stamps p.1 hpr hown, rttTs_sub]

lemma onTimeout (hpc : s.pc = .timeout) : Inv (onTimeout s) := by
  have hnone := h.point.alarm_eq_none (by rw [hpc]; rfl)
  unfold DgSendRecv.onTimeout
  split
  · exact h.outcome (.timedOut _) trivial hnone _ _
  · exact { h with point := .of_quiet rfl hnone }

lemma serve {i : ℕ} {data : Bytes} {net : Exchange Request Bytes}
    (hnet : s.net.answer i data = some net) : Inv { s with net := net } := by
  have hreq := Exchange.requests_answer hnet
  have hrep : ∀ p ∈ s.net.replies, p ∈ net.replies :=
    fun p hp => Exchange.mem_replies_answer hnet hp
  exact
    { h with
      requests := fun r hr => h.requests r (hreq ▸ hr)
      stamps := fun r hr => h.stamps r (hreq ▸ hr)
      outcomes := fun o ho => (h.outcomes o ho).mono (fun r hr => hreq.symm ▸ hr) hrep
      point :=
        { h.point with
          accepted := fun hm => by
            obtain ⟨p, hp, hrest⟩ := h.point.accepted hm
            exact ⟨p, hrep p hp, hrest⟩ } }

lemma sigalrm (hrings : s.rings) (hintime : s.pc = .sigsetjmp → s.jmpbuf = some s.call) :
    Inv { s with alarm := none, pc := if s.jmpbuf = some s.call then .timeout else .wild } := by
  have hjump : s.jmpbuf = some s.call := by
    obtain ⟨due, hdue, -⟩ := hrings
    have harmed := h.point.alarm (by rw [mem_def.mp hdue]; exact some_ne_none due)
    cases hpc : s.pc with
    | sigsetjmp => exact hintime hpc
    | recvmsg | stopAlarm => exact h.point.jumps (by rw [hpc]; rfl)
    | _ =>
      rw [hpc] at harmed
      cases harmed
  rw [if_pos hjump]
  exact { h with point := .of_quiet rfl rfl }

lemma step {a : Action} (hstep : step s a = some s') (hfew : FewCalls s a)
    (hintime : InTime s a) : Inv s' := by
  revert hstep
  fun_cases DgSendRecv.step s a with
  | case1 outbuff inbuff inbytes hpc =>
    exact fun hs => some.inj hs ▸ h.begin hpc (hfew rfl) outbuff inbuff inbytes
  | case3 hpc => exact fun hs => some.inj hs ▸ h.stamp hpc
  | case5 hpc => exact fun hs => some.inj hs ▸ h.sendmsg hpc
  | case7 =>
    rintro ⟨⟩
    exact { h with
      point := ⟨Point.noConfusion, fun hm => (by cases hm), fun _ => rfl, fun hm => (by cases hm),
        fun hm => (by cases hm)⟩ }
  | case9 =>
    rintro ⟨⟩
    exact { h with
      point := ⟨Point.noConfusion, fun hm => (by cases hm), fun _ => rfl, fun _ => rfl,
        fun hm => (by cases hm)⟩ }
  | case11 j hpc =>
    intro hs
    obtain ⟨p, hp, rfl⟩ := map_eq_some_iff.mp hs
    exact h.recvmsg hpc (mem_of_getElem? hp)
  | case13 n hdr hshort =>
    exact fun hs => some.inj hs ▸ h.receive hshort.1 fun hle => absurd hshort.2 (not_lt.mpr hle)
  | case15 hpc =>
    rintro ⟨⟩
    have haccepted := h.point.accepted (by rw [hpc]; rfl)
    exact { h with
      point := ⟨Point.noConfusion, fun hm => (by cases hm), fun hne => absurd rfl hne,
        fun hm => (by cases hm), fun _ => haccepted⟩ }
  | case17 hpc => exact fun hs => some.inj hs ▸ h.finish hpc
  | case19 hrings => exact fun hs => some.inj hs ▸ h.sigalrm hrings.1 (hintime rfl)
  | case21 hpc => exact fun hs => some.inj hs ▸ h.onTimeout hpc
  | case23 i data =>
    intro hs
    obtain ⟨net, hnet, rfl⟩ := map_eq_some_iff.mp hs
    exact h.serve hnet
  | case24 =>
    rintro ⟨⟩
    exact { h with point := { h.point with } }
  | case25 o hpc => exact absurd hpc h.point.pc
  | _ => simp

end

end Inv

lemma inv_start (now : Timeval) : Inv (start now) where
  call_lt := Nat.two_pow_pos 32
  seq := rfl
  requests _ hr := absurd hr not_mem_nil
  stamps _ hr := absurd hr not_mem_nil
  outcomes _ ho := absurd ho not_mem_nil
  point := .of_quiet rfl rfl

/-! ## Replies and samples -/

/-- In a run of fewer than `2 ^ 32` calls with no alarm in the gap, each call that returns a reply
returns one to a request of its own, with the sample of that request. -/
theorem dg_send_recv_own_reply (now : Timeval) {ls : List Action} {s : State}
    (hrun : RunWhen step (fun s a => FewCalls s a ∧ InTime s a) (start now) ls s) :
    ∀ o ∈ s.outcomes, Answered s.net o :=
  (hrun.invariant (inv_start now) fun _ _ _ h hstep hC => h.step hstep hC.1 hC.2).outcomes

def midnight : Timeval := ⟨0, 0, Nat.succ_pos _⟩

lemma quarter_lt : 250000 < 10 ^ 6 := by decide

def quarter : Timeval := ⟨0, 250000, quarter_lt⟩

def lostRequest : List Action :=
  [.call [1] [0, 0] 2, .stamp, .sendmsg, .alarm 3, .sigsetjmp, .tick midnight 3, .sigalrm, .timeout,
    .stamp, .sendmsg, .alarm 6, .sigsetjmp, .serve 1 [7], .recvmsg 0, .stopAlarm, .tick quarter 0,
    .rttStop]

/-- A run in which a call returns a reply of one byte. -/
theorem dg_send_recv_own_reply_lostRequest :
    ∃ s, RunWhen step (fun s a => FewCalls s a ∧ InTime s a) (start midnight) lostRequest s ∧
      s.outcomes = [.replied 1 2 1 [7, 0] 250 quarter] ∧ ∀ o ∈ s.outcomes, Answered s.net o := by
  obtain ⟨s, hrun, hout⟩ := exists_runWhen step (fun s a => FewCalls s a ∧ InTime s a)
    (start midnight) lostRequest (·.outcomes = [.replied 1 2 1 [7, 0] 250 quarter]) (by decide)
  exact ⟨s, hrun, hout, dg_send_recv_own_reply midnight hrun⟩

/-! ## A jump into a call that does not wait -/

def heldUp : List Action :=
  [.call [1] [0, 0] 2, .stamp, .sendmsg, .alarm 3, .tick midnight 3, .sigalrm,
    .anything (.replied 1 2 0 [0, 0] 0 midnight)]

/-- The handler jumps through a buffer that has never been set, and the call can return although
there is no reply. -/
theorem dg_send_recv_wild_jump :
    ∃ s, RunWhen step FewCalls (start midnight) heldUp s ∧
      ∃ o ∈ s.outcomes, ¬ Answered s.net o := by
  obtain ⟨s, hrun, hmem, hempty⟩ := exists_runWhen step FewCalls (start midnight) heldUp
    (fun s => .replied 1 2 0 [0, 0] 0 midnight ∈ s.outcomes ∧ s.net.replies.isEmpty = true)
    (by decide)
  refine ⟨s, hrun, _, hmem, ?_⟩
  rintro ⟨p, hp, -⟩
  rw [List.isEmpty_iff.mp hempty] at hp
  cases hp

end UnixPrograms.DgSendRecv
