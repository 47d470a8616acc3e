import Mathlib.Data.List.Infix
import UnixPrograms.Lib.CircularBuffer
import UnixPrograms.Lib.Datagrams
import UnixPrograms.Lib.Runs

/-!
# The signal-driven `dg_echo`

The handler of `SIGIO` reads datagrams into a queue of `QSIZE` slots, and the main loop sends them
back.  The handler can run between any two statements of the main loop where `SIGIO` is not blocked.
Each datagram is sent back once and in order (`dgEcho_echoes`); `nqueue` is too large by one from
the `Sendto` up to the decrement (`dgEcho_nqueue_late`).

The handler tests `nqueue` before it asks for a datagram, so that it may end the process although
none is waiting or there is room (`overflow_iff`).
-/

namespace UnixPrograms.DgEcho

open Function List Option

def QSIZE : ℕ := 8

def MAXDG : ℕ := 4096

structure Datagram where
  data : Bytes
  addr : Bytes
  deriving DecidableEq

def Datagram.received (d : Datagram) : Datagram := { d with data := d.data.take MAXDG }

/-- A slot of the queue, with the memory behind its two pointers. -/
structure DG where
  dgData : Bytes
  dgLen : ℕ
  dgSa : Bytes
  dgSalen : ℕ

def DG.datagram (p : DG) : Datagram := ⟨p.dgData.take p.dgLen, p.dgSa.take p.dgSalen⟩

/-- `recvfrom` stores a datagram.  At most `dg_salen` bytes of the address are stored, and
`dg_salen` becomes the length of the address. -/
def DG.recvfrom (p : DG) (d : Datagram) : DG where
  dgData := overwrite p.dgData (d.data.take MAXDG)
  dgLen := p.dgLen
  dgSa := overwrite p.dgSa (d.addr.take p.dgSalen)
  dgSalen := d.addr.length

def DG.setLen (p : DG) (len : ℕ) : DG := { p with dgLen := len }

def DG.setSalen (p : DG) (clilen : ℕ) : DG := { p with dgSalen := clilen }

lemma datagram_setLen_recvfrom (p : DG) {d : Datagram} (h : d.addr.length ≤ p.dgSalen) :
    ((p.recvfrom d).setLen d.received.data.length).datagram = d.received := by
  unfold DG.datagram DG.setLen DG.recvfrom Datagram.received
  rw [take_of_length_le h, take_overwrite, take_overwrite]

inductive Main where
  | block
  /-- At `while (nqueue == 0)`. -/
  | test
  | suspended
  /-- Before the `Sigprocmask` that restores the old mask. -/
  | unblock
  | send
  | sending
  | advance
  | reblock
  | decrement
  deriving DecidableEq

/-- Where the main loop goes on when the handler returns: `sigsuspend` returns then too. -/
def Main.resume : Main → Main
  | .suspended => .test
  | m => m

inductive Point where
  | check
  | recv
  /-- `recvfrom` has stored a datagram in the slot, and its length is not stored yet. -/
  | count (d : Datagram)
  deriving DecidableEq

/-- A call of the handler, with its variable `nread`. -/
structure Frame where
  point : Point
  nread : ℕ
  deriving DecidableEq

inductive Ending where
  | overflow
  | recvfromError
  | sendtoError
  deriving DecidableEq

/-- The process, with the datagrams that wait in the socket, and those that have arrived, that the
handler has put on the queue and that have been sent so far. -/
structure State where
  clilen : ℕ
  dg : ℕ → DG
  cntread : ℕ → ℕ
  iget : ℕ
  iput : ℕ
  nqueue : ℤ
  main : Main
  /-- `SIGIO` is in the signal mask of the main loop. -/
  blocked : Bool
  /-- `SIGIO` is in `oldmask`. -/
  oldmask : Bool
  handler : Option Frame
  ended : Option Ending
  sockBuf : List Datagram
  arrived : List Datagram
  queued : List Datagram
  sent : List Datagram

/-- The handler cannot be called: `SIGIO` is in the mask, which `sigsuspend` replaces by the empty
one, or the handler is running. -/
def State.sigioBlocked (s : State) : Bool :=
  s.handler.isSome || (s.blocked && decide (s.main ≠ .suspended))

/-- The datagram that is in a slot but not yet counted. -/
def Point.filling : Point → List Datagram
  | .count d => [d]
  | _ => []

@[inherit_doc Point.filling]
def State.filling (s : State) : List Datagram :=
  s.handler.elim [] fun f => f.point.filling

def State.received (s : State) : List Datagram := s.queued ++ s.filling

inductive Action where
  | arrive (d : Datagram)
  | sigio
  /-- `SIGHUP` is delivered while the process sleeps. -/
  | sighup
  | handler
  /-- The `recvfrom` of the handler fails, with an error other than `EWOULDBLOCK`. -/
  | recvfromFails
  | main
  | sendtoFails

def next (i : ℕ) : ℕ := if i + 1 ≥ QSIZE then 0 else i + 1

def sigIo (s : State) (nread : ℕ) : Point → State
  | .check =>
    if s.nqueue ≥ QSIZE then { s with ended := some .overflow }
    else { s with handler := some ⟨.recv, nread⟩ }
  | .recv =>
    let slot := (s.dg s.iput).setSalen s.clilen
    match s.sockBuf with
    | [] =>
      -- EWOULDBLOCK: all done; no more queued to read
      { s with
        dg := update s.dg s.iput slot
        cntread := update s.cntread nread (s.cntread nread + 1)
        handler := none
        main := s.main.resume }
    | d :: rest =>
      { s with
        dg := update s.dg s.iput (slot.recvfrom d)
        sockBuf := rest
        handler := some ⟨.count d.received, nread⟩ }
  | .count d =>
    { s with
      dg := update s.dg s.iput ((s.dg s.iput).setLen d.data.length)
      nqueue := s.nqueue + 1
      iput := next s.iput
      queued := s.queued ++ [d]
      handler := some ⟨.check, nread + 1⟩ }

/-- One step of the main loop of `dg_echo`. -/
def dgEcho (s : State) : Option State :=
  match s.main with
  | .block | .reblock =>
    some { s with
      oldmask := s.blocked
      blocked := true
      main := if s.main = .block then .test else .decrement }
  | .test => some { s with main := if s.nqueue = 0 then .suspended else .unblock }
  | .suspended => none
  | .unblock => some { s with blocked := s.oldmask, main := .send }
  | .send => some { s with main := .sending }
  | .sending => some { s with sent := s.sent ++ [(s.dg s.iget).datagram], main := .advance }
  | .advance => some { s with iget := next s.iget, main := .reblock }
  | .decrement => some { s with nqueue := s.nqueue - 1, main := .test }

def act (s : State) : Action → Option State
  | .arrive d =>
    -- the addresses of the socket's family fit into `clilen` bytes
    if d.addr.length ≤ s.clilen then
      some { s with sockBuf := s.sockBuf ++ [d], arrived := s.arrived ++ [d] }
    else none
  | .sigio => if s.sigioBlocked then none else some { s with handler := some ⟨.check, 0⟩ }
  | .sighup =>
    if s.handler = none ∧ s.main = .suspended then some { s with main := .test } else none
  | .handler => s.handler.map fun f => sigIo s f.nread f.point
  | .recvfromFails =>
    if ∃ f ∈ s.handler, f.point = .recv then some { s with ended := some .recvfromError } else none
  | .main => if s.handler = none then dgEcho s else none
  | .sendtoFails =>
    if s.handler = none ∧ s.main = .sending then some { s with ended := some .sendtoError }
      else none

def step (s : State) (a : Action) : Option State := if s.ended = none then act s a else none

def start (clilen : ℕ) (data sa : ℕ → Bytes) (blocked : Bool) : State where
  clilen := clilen
  dg i := ⟨data i, 0, sa i, clilen⟩
  cntread _ := 0
  iget := 0
  iput := 0
  nqueue := 0
  main := .block
  blocked := blocked
  oldmask := false
  handler := none
  ended := none
  sockBuf := []
  arrived := []
  queued := []
  sent := []

/-! ## The invariant -/

def Main.hasNext : Main → Bool
  | .unblock | .send | .sending => true
  | _ => false

/-- The datagrams that have been sent and that `nqueue` still counts. -/
def Main.unsettled : Main → ℕ
  | .advance | .reblock | .decrement => 1
  | _ => 0

/-- The datagrams that have been sent and that `iget` still points to. -/
def Main.behind : Main → ℕ
  | .advance => 1
  | _ => 0

lemma Main.unsettled_of_hasNext {m : Main} (h : m.hasNext = true) : m.unsettled = 0 := by
  cases m <;> first | rfl | cases h

lemma Main.behind_of_hasNext {m : Main} (h : m.hasNext = true) : m.behind = 0 := by
  cases m <;> first | rfl | cases h

@[simp] lemma Main.unsettled_resume (m : Main) : m.resume.unsettled = m.unsettled := by
  cases m <;> rfl

@[simp] lemma Main.behind_resume (m : Main) : m.resume.behind = m.behind := by
  cases m <;> rfl

@[simp] lemma Main.hasNext_resume (m : Main) : m.resume.hasNext = m.hasNext := by
  cases m <;> rfl

lemma Main.resume_ne_suspended (m : Main) : m.resume ≠ .suspended := by
  cases m <;> decide

/-- The queue between the handler and the main loop, at any point of both. -/
structure Inv (s : State) : Prop where
  arrived : s.received ++ s.sockBuf.map Datagram.received = s.arrived.map Datagram.received
  fits : ∀ d ∈ s.sockBuf, d.addr.length ≤ s.clilen
  sent : s.sent <+: s.queued
  nqueue : s.nqueue = s.queued.length - s.sent.length + s.main.unsettled
  nqueue_le : s.nqueue ≤ QSIZE
  /-- The handler has found room before it uses a slot. -/
  room : ∀ f ∈ s.handler, f.point ≠ .check → s.nqueue < QSIZE
  nread : ∀ f ∈ s.handler, (f.nread : ℤ) ≤ s.nqueue
  iget_lt : s.iget < QSIZE
  iget : (s.iget + s.main.behind) % QSIZE = s.sent.length % QSIZE
  iput : s.iput = s.queued.length % QSIZE
  holds : RingHolds QSIZE (DG.datagram ∘ s.dg) s.queued s.sent.length
  /-- The datagram in the slot that is being filled lacks its length only. -/
  filled : ∀ d ∈ s.filling, ((s.dg s.iput).setLen d.data.length).datagram = d
  hasNext : s.main.hasNext = true → 0 < s.nqueue
  sleeping : s.main = .suspended → s.handler = none → s.nqueue = 0

namespace Inv

variable {s s' : State}

lemma queued_lt (h : Inv s) (hlt : s.nqueue < QSIZE) : s.queued.length < s.sent.length + QSIZE := by
  have := h.nqueue
  omega

lemma sent_le (h : Inv s) : s.sent.length ≤ s.queued.length := h.sent.length_le

lemma iget_ne_iput (h : Inv s) (hnext : s.main.hasNext = true) (hlt : s.nqueue < QSIZE) :
    s.iget ≠ s.iput := by
  have hpos := h.hasNext hnext
  have hcount := h.nqueue
  have hget := h.iget
  have hlt' := h.iget_lt
  have hput := h.iput
  rw [Main.unsettled_of_hasNext hnext] at hcount
  rw [Main.behind_of_hasNext hnext] at hget
  simp only [QSIZE] at *
  omega

lemma datagram_iget (h : Inv s) (hnext : s.main.hasNext = true) :
    ∃ hlt : s.sent.length < s.queued.length,
      (s.dg s.iget).datagram = s.queued[s.sent.length] := by
  have hlt : s.sent.length < s.queued.length := by
    have hpos := h.hasNext hnext
    have hcount := h.nqueue
    rw [Main.unsettled_of_hasNext hnext] at hcount
    omega
  have hget := h.iget
  rw [Main.behind_of_hasNext hnext, Nat.add_zero, Nat.mod_eq_of_lt h.iget_lt] at hget
  refine ⟨hlt, ?_⟩
  rw [hget]
  exact h.holds.head hlt

end Inv

lemma next_mod {i k : ℕ} (h : i = k % QSIZE) : next i = (k + 1) % QSIZE := by
  unfold next QSIZE at *
  split <;> omega

lemma next_lt {i : ℕ} (h : i < QSIZE) : next i < QSIZE := by
  unfold next QSIZE at *
  split <;> omega

namespace Inv

variable {s s' : State}

/-- The main loop goes on to a point at which as many datagrams are unsettled. -/
lemma move (h : Inv s) {m : Main} {b o : Bool} (hunsettled : m.unsettled = s.main.unsettled)
    (hbehind : m.behind = s.main.behind) (hnext : m.hasNext = true → 0 < s.nqueue)
    (hsleep : m = .suspended → s.nqueue = 0) :
    Inv { s with blocked := b, oldmask := o, main := m } :=
  { h with
    nqueue := by rw [hunsettled]; exact h.nqueue
    iget := by rw [hbehind]; exact h.iget
    hasNext := hnext
    sleeping := fun hm _ => hsleep hm }

lemma send (h : Inv s) (hmain : s.main = .sending) :
    Inv { s with sent := s.sent ++ [(s.dg s.iget).datagram], main := .advance } := by
  have hnext : s.main.hasNext = true := by rw [hmain]; rfl
  obtain ⟨hlt, hdatagram⟩ := h.datagram_iget hnext
  have hlen : (s.sent ++ [(s.dg s.iget).datagram]).length = s.sent.length + 1 := by simp
  have hcount := h.nqueue
  have hget := h.iget
  rw [Main.unsettled_of_hasNext hnext] at hcount
  rw [Main.behind_of_hasNext hnext] at hget
  exact
    { h with
      sent := by
        rw [hdatagram]
        exact concat_get_prefix h.sent hlt
      nqueue := by
        simp only [hlen, Main.unsettled]
        push_cast
        omega
      iget := by
        simp only [hlen, Main.behind]
        exact Nat.ModEq.add_right 1 hget
      holds := by
        rw [hlen]
        exact h.holds.drop
      hasNext := fun hm => by cases hm
      sleeping := fun hm => by cases hm }

lemma dgEcho (h : Inv s) (hnone : s.handler = none) (hstep : dgEcho s = some s') : Inv s' := by
  have hbefore := h.hasNext
  have hsent := h.sent_le
  have hcount := h.nqueue
  have hget := h.iget
  unfold DgEcho.dgEcho at hstep
  cases hmain : s.main <;>
    simp only [hmain, some.injEq, reduceCtorEq, if_true, if_false]
      at hstep hbefore hcount hget
  case block | reblock =>
    subst hstep
    exact h.move (by rw [hmain]; rfl) (by rw [hmain]; rfl) (fun hm => by cases hm)
      (fun hm => by cases hm)
  case test =>
    subst hstep
    refine h.move (by rw [hmain]; split <;> rfl) (by rw [hmain]; split <;> rfl) ?_ ?_
    · split
      · intro hm
        cases hm
      · simp only [Main.unsettled] at hcount
        omega
    · split
      · exact fun _ => ‹_›
      · intro hm
        cases hm
  case unblock | send =>
    subst hstep
    exact h.move (by rw [hmain]; rfl) (by rw [hmain]; rfl) (fun _ => hbefore rfl)
      (fun hm => by cases hm)
  case sending =>
    subst hstep
    exact h.send hmain
  case advance =>
    subst hstep
    have hnext : next s.iget = (s.iget + 1) % QSIZE := next_mod (Nat.mod_eq_of_lt h.iget_lt).symm
    exact
      { h with
        nqueue := hcount
        iget_lt := next_lt h.iget_lt
        iget := by rw [hnext]; exact (Nat.mod_mod _ _).trans hget
        hasNext := fun hm => by cases hm
        sleeping := fun hm => by cases hm }
  case decrement =>
    subst hstep
    have hle := h.nqueue_le
    exact
      { h with
        nqueue := by
          rw [hcount]
          simp [Main.unsettled]
        nqueue_le := by
          show s.nqueue - 1 ≤ QSIZE
          omega
        room := fun f hf => by simp [hnone] at hf
        nread := fun f hf => by simp [hnone] at hf
        hasNext := fun hm => by cases hm
        sleeping := fun hm => by cases hm
        iget := hget }

lemma holds_update (h : Inv s) (hlt : s.nqueue < QSIZE) (p : DG) :
    RingHolds QSIZE (DG.datagram ∘ update s.dg s.iput p) s.queued s.sent.length := by
  rw [comp_update, h.iput]
  exact h.holds.update (h.queued_lt hlt) p.datagram

variable {f : Frame}

lemma filling_eq (hf : f ∈ s.handler) : s.filling = f.point.filling := by
  unfold State.filling
  rw [mem_def.mp hf]
  rfl

section

variable (h : Inv s)
include h

section

variable (hf : f ∈ s.handler)
include hf

lemma enter (hpoint : f.point = .check) (hlt : s.nqueue < QSIZE) :
    Inv { s with handler := some ⟨.recv, f.nread⟩ } := by
  have harrived := h.arrived
  rw [State.received, filling_eq hf, hpoint] at harrived
  exact
    { h with
      arrived := harrived
      room := fun _ _ _ => hlt
      nread := fun g hg => by
        cases hg
        exact h.nread f hf
      filled := fun d hd => by cases hd
      sleeping := fun _ hnone => by cases hnone }

lemma leave (hpoint : f.point = .recv) (p : DG) (cnt : ℕ → ℕ) :
    Inv { s with
      dg := update s.dg s.iput p
      cntread := cnt
      handler := none
      main := s.main.resume } := by
  have hlt := h.room f hf (by rw [hpoint]; decide)
  have harrived := h.arrived
  rw [State.received, filling_eq hf, hpoint] at harrived
  exact
    { h with
      arrived := harrived
      nqueue := by rw [Main.unsettled_resume]; exact h.nqueue
      room := fun f hf => by cases hf
      nread := fun f hf => by cases hf
      iget := by rw [Main.behind_resume]; exact h.iget
      holds := h.holds_update hlt p
      filled := fun d hd => by cases hd
      hasNext := fun hm => h.hasNext (by rwa [Main.hasNext_resume] at hm)
      sleeping := fun hm => absurd hm (Main.resume_ne_suspended _) }

lemma receive (hpoint : f.point = .recv) {d : Datagram}
    {rest : List Datagram} (hbuf : s.sockBuf = d :: rest) :
    Inv { s with
      dg := update s.dg s.iput (((s.dg s.iput).setSalen s.clilen).recvfrom d)
      sockBuf := rest
      handler := some ⟨.count d.received, f.nread⟩ } := by
  have hlt := h.room f hf (by rw [hpoint]; decide)
  have harrived := h.arrived
  rw [State.received, filling_eq hf, hpoint, hbuf] at harrived
  have hfits := h.fits
  rw [hbuf] at hfits
  exact
    { h with
      arrived := by
        simpa [State.received, State.filling, Point.filling] using harrived
      fits := fun e he => hfits e (mem_cons_of_mem _ he)
      room := fun _ _ _ => hlt
      nread := fun g hg => by
        cases hg
        exact h.nread f hf
      holds := h.holds_update hlt _
      filled := fun e he => by
        cases mem_singleton.mp he
        simp only [update_self]
        exact datagram_setLen_recvfrom _ (hfits d mem_cons_self)
      sleeping := fun _ hnone => by cases hnone }

lemma count {d : Datagram} (hpoint : f.point = .count d) :
    Inv { s with
      dg := update s.dg s.iput ((s.dg s.iput).setLen d.data.length)
      nqueue := s.nqueue + 1
      iput := next s.iput
      queued := s.queued ++ [d]
      handler := some ⟨.check, f.nread + 1⟩ } := by
  have hlt := h.room f hf (by rw [hpoint]; exact Point.noConfusion)
  have harrived := h.arrived
  rw [State.received, filling_eq hf, hpoint] at harrived
  have hcount := h.nqueue
  have hread := h.nread f hf
  have hslot : ((s.dg s.iput).setLen d.data.length).datagram = d :=
    h.filled d (by rw [filling_eq hf, hpoint]; exact mem_singleton_self d)
  exact
    { h with
      arrived := by simpa [State.received, State.filling, Point.filling] using harrived
      sent := h.sent.trans (prefix_append _ _)
      nqueue := by
        simp only [length_append, length_singleton]
        push_cast
        omega
      nqueue_le := by
        show s.nqueue + 1 ≤ QSIZE
        omega
      room := fun g hg hne => by
        cases hg
        exact absurd rfl hne
      nread := fun g hg => by
        cases hg
        show ((f.nread + 1 : ℕ) : ℤ) ≤ s.nqueue + 1
        push_cast
        omega
      iput := by
        rw [length_append, length_singleton]
        exact next_mod h.iput
      holds := by
        rw [comp_update, hslot, h.iput]
        exact h.holds.put (h.queued_lt hlt) d
      filled := fun e he => by cases he
      hasNext := fun hm => by
        have := h.hasNext hm
        show 0 < s.nqueue + 1
        omega
      sleeping := fun _ hnone => by cases hnone }

lemma sigIo : Inv (sigIo s f.nread f.point) := by
  cases hpoint : f.point with
  | check =>
    simp only [DgEcho.sigIo]
    split
    · exact { h with }
    · exact h.enter hf hpoint (by omega)
  | recv =>
    simp only [DgEcho.sigIo]
    split
    · exact h.leave hf hpoint _ _
    · exact h.receive hf hpoint ‹_›
  | count d => exact h.count hf hpoint

end

lemma call (hnone : s.handler = none) : Inv { s with handler := some ⟨.check, 0⟩ } := by
  have harrived := h.arrived
  rw [State.received, State.filling, hnone] at harrived
  have hcount := h.nqueue
  have hsent := h.sent_le
  exact
    { h with
      arrived := harrived
      room := fun g hg hne => by
        cases hg
        exact absurd rfl hne
      nread := fun g hg => by
        cases hg
        show ((0 : ℕ) : ℤ) ≤ s.nqueue
        omega
      filled := fun d hd => by cases hd
      sleeping := fun _ hn => by cases hn }

lemma act {a : Action} (hact : act s a = some s') : Inv s' := by
  revert hact
  fun_cases DgEcho.act s a with
  | case1 d hfit =>
    rintro ⟨⟩
    refine { h with arrived := ?_, fits := ?_ }
    · have harrived := h.arrived
      simp only [map_append, ← harrived, append_assoc]
      rfl
    · intro e he
      rcases mem_append.mp he with he | he
      · exact h.fits e he
      · cases mem_singleton.mp he
        exact hfit
  | case4 hblocked =>
    rintro ⟨⟩
    exact h.call (by
      unfold State.sigioBlocked at hblocked
      simp only [Bool.or_eq_true, not_or, not_isSome_iff_eq_none] at hblocked
      exact hblocked.1)
  | case5 hmain =>
    rintro ⟨⟩
    exact h.move (by rw [hmain.2]; rfl) (by rw [hmain.2]; rfl) (fun hm => by cases hm)
      (fun hm => by cases hm)
  | case7 =>
    intro hact
    obtain ⟨f, hf, rfl⟩ := map_eq_some_iff.mp hact
    exact h.sigIo hf
  | case8 | case12 => exact fun hact => some.inj hact ▸ { h with }
  | case10 hnone => exact h.dgEcho hnone
  | _ => simp

lemma sigIo_dg_iget (hf : f ∈ s.handler) (hnext : s.main.hasNext = true) :
    (DgEcho.sigIo s f.nread f.point).dg s.iget = s.dg s.iget := by
  have hroom := h.room f hf
  cases hpoint : f.point with
  | check =>
    simp only [DgEcho.sigIo]
    split <;> rfl
  | recv =>
    have hne := h.iget_ne_iput hnext (hroom (by rw [hpoint]; decide))
    simp only [DgEcho.sigIo]
    split <;> exact update_of_ne hne _ _
  | count d =>
    have hne := h.iget_ne_iput hnext (hroom (by rw [hpoint]; exact Point.noConfusion))
    exact update_of_ne hne _ _

lemma act_dg_iget {a : Action} (hnext : s.main.hasNext = true)
    (hact : DgEcho.act s a = some s') : s'.dg s.iget = s.dg s.iget := by
  revert hact
  fun_cases DgEcho.act s a with
  | case7 =>
    intro hact
    obtain ⟨f, hf, rfl⟩ := map_eq_some_iff.mp hact
    exact h.sigIo_dg_iget hf hnext
  | case10 =>
    intro hact
    unfold DgEcho.dgEcho at hact
    cases hmain : s.main <;> rw [hmain] at hnext hact <;> cases hnext <;> cases hact <;> rfl
  | case1 | case4 | case5 | case8 | case12 => exact fun hact => some.inj hact ▸ rfl
  | _ => simp

end

end Inv

lemma inv_start (clilen : ℕ) (data sa : ℕ → Bytes) (blocked : Bool) :
    Inv (start clilen data sa blocked) where
  arrived := rfl
  fits _ hd := by cases hd
  sent := nil_prefix
  nqueue := rfl
  nqueue_le := Int.natCast_nonneg QSIZE
  room _ hf := by cases hf
  nread _ hf := by cases hf
  iget_lt := Nat.succ_pos 7
  iget := rfl
  iput := rfl
  holds := RingHolds.nil _ _ _
  filled _ hd := by cases hd
  hasNext hm := by cases hm
  sleeping hm := by cases hm

variable {sa data : ℕ → Bytes} {s : State} {clilen : ℕ} {blocked : Bool} {ls : List Action}

lemma inv_of_run (hrun : RunFrom step (start clilen data sa blocked) ls s) : Inv s :=
  hrun.invariant (inv_start clilen data sa blocked) fun _ _ _ h hstep _ =>
    h.act (ite_none_right_eq_some.mp hstep).2

/-! ## What is sent back -/

/-- No run gets out of `dg`, which has `QSIZE` slots, or of `cntread`, which has one more. -/
theorem indices_within : ¬ ∃ ls s, RunFrom step (start clilen data sa blocked) ls s ∧
    (QSIZE ≤ s.iget ∨ QSIZE ≤ s.iput ∨ ∃ f ∈ s.handler, QSIZE < f.nread) := by
  rintro ⟨ls, s, hrun, hout⟩
  have h := inv_of_run hrun
  obtain hget | hput | ⟨f, hf, hlt⟩ := hout
  · exact hget.not_gt h.iget_lt
  · exact hput.not_gt (h.iput ▸ Nat.mod_lt _ (by decide))
  · have hread := (h.nread f hf).trans h.nqueue_le
    omega

/-- In every run the datagrams received are the first ones that have arrived, those sent the first
ones received, and all of them when the process sleeps.  `nqueue` is the number of datagrams
received and not sent, without the one that the handler has yet to count and with the one that the
main loop has sent but not settled, and these are in their slots.  A slot that is being sent does
not change. -/
theorem dgEcho_echoes (clilen : ℕ) (data sa : ℕ → Bytes) (blocked : Bool) {ls : List Action}
    {s : State} (hrun : RunFrom step (start clilen data sa blocked) ls s) :
    s.received <+: s.arrived.map Datagram.received ∧ s.sent <+: s.received ∧
      (s.main = .suspended → s.handler = none → s.sent = s.received) ∧
      s.nqueue + s.filling.length = s.received.length - s.sent.length + s.main.unsettled ∧
      RingHolds QSIZE (DG.datagram ∘ s.dg) s.queued s.sent.length ∧
      (s.main = .send ∨ s.main = .sending →
        ∀ a s', step s a = some s' → s'.dg s.iget = s.dg s.iget) := by
  have h := inv_of_run hrun
  have hcount := h.nqueue
  refine ⟨⟨_, h.arrived⟩, h.sent.trans (prefix_append _ _), ?_, ?_, h.holds, ?_⟩
  · intro hmain hnone
    have hzero := h.sleeping hmain hnone
    rw [hmain, hzero] at hcount
    simp only [Main.unsettled] at hcount
    have heq : s.sent = s.queued := h.sent.eq_of_length (by omega)
    rw [State.received, State.filling, hnone, heq]
    exact (append_nil _).symm
  · rw [State.received, length_append]
    push_cast
    omega
  · intro hmain a s' hstep
    have hnext : s.main.hasNext = true := by
      rcases hmain with hmain | hmain <;> rw [hmain] <;> rfl
    exact h.act_dg_iget hnext (ite_none_right_eq_some.mp hstep).2

def ping : Datagram := ⟨[1], [2]⟩

def pingRun : List Action :=
  [.main, .main, .arrive ping, .sigio, .handler, .handler, .handler, .handler, .handler, .main,
    .main, .main, .main, .main, .main]

/-- A run in which a datagram is echoed. -/
theorem dgEcho_echoes_ping :
    ∃ s, RunFrom step (start 1 (fun _ => []) (fun _ => []) false) pingRun s ∧ s.sent = [ping] ∧
      s.sent <+: s.received := by
  obtain ⟨s, hrun, hsent⟩ := exists_runFrom step (start 1 (fun _ => []) (fun _ => []) false) pingRun
    (fun s => s.sent = [ping]) (by decide)
  exact ⟨s, hrun, hsent, (dgEcho_echoes 1 _ _ false hrun).2.1⟩

/-- At `nqueue--` the signal is blocked and the handler is not running, and `nqueue` is 1 although
all datagrams received have been sent. -/
theorem dgEcho_nqueue_late :
    ∃ ls s, RunFrom step (start 1 (fun _ => []) (fun _ => []) false) ls s ∧
      s.sigioBlocked = true ∧ s.handler = none ∧ s.ended = none ∧
      s.nqueue = 1 ∧ s.sent = s.received :=
  ⟨pingRun, exists_runFrom _ _ _ _ (by decide)⟩

/-! ## Overflow -/

def State.occupied (s : State) : ℕ := s.queued.length - s.sent.length

lemma QSIZE_le_of_act {s' : State} {a : Action} (hact : act s a = some s')
    (hnone : s.ended = none) (hend : s'.ended = some .overflow) : (QSIZE : ℤ) ≤ s'.nqueue := by
  revert hact
  fun_cases DgEcho.act s a with
  | case7 =>
    intro hact
    obtain ⟨f, hf, rfl⟩ := map_eq_some_iff.mp hact
    cases hpoint : f.point <;> simp only [hpoint, sigIo] at hend ⊢
    case check =>
      split at hend
      · rename_i hfull
        rw [if_pos hfull]
        exact hfull
      · rw [hnone] at hend
        cases hend
    case recv =>
      split at hend <;> rw [hnone] at hend <;> cases hend
    case count =>
      rw [hnone] at hend
      cases hend
  | case10 =>
    intro hact
    have hsame : s'.ended = s.ended := by
      unfold dgEcho at hact
      cases hmain : s.main <;> rw [hmain] at hact <;> cases hact <;> rfl
    rw [hsame, hnone] at hend
    cases hend
  | case1 | case4 | case5 =>
    rintro ⟨⟩
    rw [hnone] at hend
    cases hend
  | case8 | case12 =>
    rintro ⟨⟩
    cases hend
  | _ => simp

lemma nqueue_of_overflow (hrun : RunFrom step (start clilen data sa blocked) ls s)
    (hend : s.ended = some .overflow) : s.nqueue = QSIZE := by
  apply le_antisymm (inv_of_run hrun).nqueue_le
  cases hrun with
  | nil => cases hend
  | snoc _ hstep _ =>
    obtain ⟨hnone, hact⟩ := ite_none_right_eq_some.mp hstep
    exact QSIZE_le_of_act hact hnone hend

/-- When the process ends with an overflow, there is one if and only if a datagram is waiting and
the main loop is not between its `Sendto` and its `nqueue--`. -/
theorem overflow_iff (clilen : ℕ) (data sa : ℕ → Bytes) (blocked : Bool) {ls : List Action}
    {s : State} (hrun : RunFrom step (start clilen data sa blocked) ls s)
    (hend : s.ended = some .overflow) :
    (s.sockBuf ≠ [] ∧ s.occupied = QSIZE) ↔ (s.sockBuf ≠ [] ∧ s.main.unsettled = 0) := by
  have h := inv_of_run hrun
  have hfull := nqueue_of_overflow hrun hend
  have hcount := h.nqueue
  have hsent := h.sent_le
  have hslots : s.occupied + s.main.unsettled = QSIZE := by
    unfold State.occupied
    omega
  constructor
  · rintro ⟨hwaits, hslots'⟩
    exact ⟨hwaits, by omega⟩
  · rintro ⟨hwaits, hmain⟩
    exact ⟨hwaits, by omega⟩

def burst (n : ℕ) : List Action :=
  [.main, .main] ++ List.replicate n (.arrive ping) ++ [.sigio] ++
    List.replicate (3 * QSIZE + 1) .handler

/-- Nine datagrams are one too many. -/
theorem overflow_iff_nine :
    ∃ s, RunFrom step (start 1 (fun _ => []) (fun _ => []) false) (burst 9) s ∧
      s.ended = some .overflow ∧ s.sockBuf = [ping] ∧ s.occupied = QSIZE := by
  obtain ⟨s, hrun, hs⟩ := exists_runFrom step (start 1 (fun _ => []) (fun _ => []) false) (burst 9)
    (fun s => s.ended = some .overflow ∧ s.sockBuf = [ping] ∧ s.main = .suspended)
    (by decide +kernel)
  obtain ⟨hend, hbuf, hmain⟩ := hs
  have hiff := overflow_iff 1 (fun _ => []) (fun _ => []) false hrun hend
  have hwaits : s.sockBuf ≠ [] := by
    rw [hbuf]
    exact cons_ne_nil _ _
  exact ⟨s, hrun, hend, hbuf, (hiff.mpr ⟨hwaits, by rw [hmain]; rfl⟩).2⟩

/-- Eight datagrams fill the queue.  All of them have been received, and the process ends. -/
theorem overflow_eight :
    ∃ s, RunFrom step (start 1 (fun _ => []) (fun _ => []) false) (burst 8) s ∧
      s.ended = some .overflow ∧ s.sockBuf = [] :=
  exists_runFrom _ _ _ _ (by decide +kernel)

end UnixPrograms.DgEcho
