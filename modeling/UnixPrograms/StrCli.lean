import UnixPrograms.Lib.Runs
import UnixPrograms.Lib.Transfer

/-!
# The nonblocking client `str_cli`

A round asks `select` what is ready, and then makes at most a read and a write in each direction,
all nonblocking and with any result.  What is written is a front part of what is read, and the
socket is shut down at most once, after all of the standard input (`strCli_safe`).  The function
returns when a read from the socket finds its end; all has been written if and only if both buffers
are empty then (`strCli_complete_iff`).
-/

namespace UnixPrograms.StrCli

open List Option

def MAXLINE : ℕ := 4096

/-! ## The loop -/

inductive Point where
  /-- At the head of the loop, before `Select`. -/
  | head
  /-- At the test of the standard input in `rset`. -/
  | readStdin
  /-- Before the `Shutdown` after the end of the standard input. -/
  | shutdownAtEof
  /-- At the test of the socket in `rset`. -/
  | readSock
  /-- At the test of the standard output in `wset`. -/
  | writeStdout
  /-- At the test of the socket in `wset`. -/
  | writeSock
  /-- Before the `Shutdown` after the last byte has been written to the socket. -/
  | shutdownAtEmpty
  | returned
  /-- The process has ended by `err_quit`, as the server has terminated prematurely. -/
  | quit
  | failed
  deriving DecidableEq

/-- The descriptors in `rset` or `wset`: the standard input or output, and the socket. -/
structure FdSet where
  std : Bool
  sock : Bool
  deriving DecidableEq

/-- The variables of the function, the streams with the positions up to which they have been read,
the bytes that have been written, and the number of calls of `Shutdown`. -/
structure State where
  pc : Point
  toBuf : Buffer
  frBuf : Buffer
  stdineof : Bool
  rset : FdSet
  wset : FdSet
  stdin : Source
  stdinPos : ℕ
  sock : Source
  sockPos : ℕ
  toSock : Bytes
  toStdout : Bytes
  shutdowns : ℕ

inductive Input where
  | bytes (k : ℕ)
  | eof
  | wouldBlock
  | error

inductive Output where
  | bytes (k : ℕ)
  | wouldBlock
  | error

inductive Action where
  | select (reading writing : FdSet)
  /-- The descriptor at which the loop is is not in its set, or there is nothing to write. -/
  | skip
  | readStdin (r : Input)
  | readSock (r : Input)
  | writeStdout (r : Output)
  | writeSock (r : Output)
  | shutdown

/-- The descriptors for reading that are passed to `Select`. -/
def State.wantRead (s : State) : FdSet where
  std := !s.stdineof && decide (s.toBuf.iptr < MAXLINE)
  sock := decide (s.frBuf.iptr < MAXLINE)

/-- The descriptors for writing that are passed to `Select`. -/
def State.wantWrite (s : State) : FdSet where
  std := decide (s.frBuf.optr ≠ s.frBuf.iptr)
  sock := decide (s.toBuf.optr ≠ s.toBuf.iptr)

/-- `select` returns those of the descriptors it was passed that are ready. -/
def FdSet.inter (a b : FdSet) : FdSet := ⟨a.std && b.std, a.sock && b.sock⟩

/-- A `read` into a buffer from a stream at the position `pos` may find `k` bytes. -/
def CanRead (b : Buffer) (src : Source) (pos k : ℕ) : Prop :=
  0 < k ∧ k ≤ MAXLINE - b.iptr ∧ src.Has pos k

instance (b : Buffer) (src : Source) (pos k : ℕ) : Decidable (CanRead b src pos k) :=
  inferInstanceAs (Decidable (_ ∧ _ ∧ _))

/-- A `read` gives 0 at the end of the stream, and if it is asked for no bytes. -/
def CanEnd (b : Buffer) (src : Source) (pos : ℕ) : Prop :=
  MAXLINE - b.iptr = 0 ∨ src pos = none

instance (b : Buffer) (src : Source) (pos : ℕ) : Decidable (CanEnd b src pos) :=
  inferInstanceAs (Decidable (_ ∨ _))

def onStdin (s : State) : Input → Option State
  | .bytes k =>
    if CanRead s.toBuf s.stdin s.stdinPos k then
      some { s with
        toBuf := s.toBuf.fill (s.stdin.bytes s.stdinPos k)
        stdinPos := s.stdinPos + k
        -- try and write to socket below
        wset := { s.wset with sock := true }
        pc := .readSock }
    else none
  | .eof =>
    if CanEnd s.toBuf s.stdin s.stdinPos then
      some { s with
        stdineof := true
        pc := if s.toBuf.optr = s.toBuf.iptr then .shutdownAtEof else .readSock }
    else none
  | .wouldBlock => some { s with pc := .readSock }
  | .error => some { s with pc := .failed }

def onSock (s : State) : Input → Option State
  | .bytes k =>
    if CanRead s.frBuf s.sock s.sockPos k then
      some { s with
        frBuf := s.frBuf.fill (s.sock.bytes s.sockPos k)
        sockPos := s.sockPos + k
        -- try and write below
        wset := { s.wset with std := true }
        pc := .writeStdout }
    else none
  | .eof =>
    if CanEnd s.frBuf s.sock s.sockPos then
      some { s with pc := if s.stdineof then .returned else .quit }
    else none
  | .wouldBlock => some { s with pc := .writeStdout }
  | .error => some { s with pc := .failed }

def onStdout (s : State) : Output → Option State
  | .bytes k =>
    if k ≤ s.frBuf.iptr - s.frBuf.optr then
      some { s with
        toStdout := s.toStdout ++ readBytes s.frBuf.mem s.frBuf.optr k
        frBuf := s.frBuf.drain k
        pc := .writeSock }
    else none
  | .wouldBlock => some { s with pc := .writeSock }
  | .error => some { s with pc := .failed }

def onSockOut (s : State) : Output → Option State
  | .bytes k =>
    if k ≤ s.toBuf.iptr - s.toBuf.optr then
      some { s with
        toSock := s.toSock ++ readBytes s.toBuf.mem s.toBuf.optr k
        toBuf := s.toBuf.drain k
        pc := if s.toBuf.optr + k = s.toBuf.iptr ∧ s.stdineof then .shutdownAtEmpty else .head }
    else none
  | .wouldBlock => some { s with pc := .head }
  | .error => some { s with pc := .failed }

def State.calls (s : State) : Bool :=
  match s.pc with
  | .readStdin => s.rset.std
  | .readSock => s.rset.sock
  | .writeStdout => s.wset.std && decide (0 < s.frBuf.iptr - s.frBuf.optr)
  | .writeSock => s.wset.sock && decide (0 < s.toBuf.iptr - s.toBuf.optr)
  | _ => false

def Point.skipped : Point → Option Point
  | .readStdin => some .readSock
  | .readSock => some .writeStdout
  | .writeStdout => some .writeSock
  | .writeSock => some .head
  | _ => none

def step (s : State) : Action → Option State
  | .select reading writing =>
    if s.pc = .head then
      some { s with
        rset := s.wantRead.inter reading
        wset := s.wantWrite.inter writing
        pc := .readStdin }
    else none
  | .skip => if s.calls then none else s.pc.skipped.map fun pc => { s with pc := pc }
  | .readStdin r => if s.pc = .readStdin ∧ s.calls then onStdin s r else none
  | .readSock r => if s.pc = .readSock ∧ s.calls then onSock s r else none
  | .writeStdout r => if s.pc = .writeStdout ∧ s.calls then onStdout s r else none
  | .writeSock r => if s.pc = .writeSock ∧ s.calls then onSockOut s r else none
  | .shutdown =>
    match s.pc with
    | .shutdownAtEof => some { s with shutdowns := s.shutdowns + 1, pc := .readSock }
    | .shutdownAtEmpty => some { s with shutdowns := s.shutdowns + 1, pc := .head }
    | _ => none

def start (toMem frMem : Mem) (stdin sock : Source) : State where
  pc := .head
  toBuf := ⟨toMem, 0, 0⟩
  frBuf := ⟨frMem, 0, 0⟩
  stdineof := false
  rset := ⟨false, false⟩
  wset := ⟨false, false⟩
  stdin := stdin
  stdinPos := 0
  sock := sock
  sockPos := 0
  toSock := []
  toStdout := []
  shutdowns := 0

/-! ## What a step does -/

def Point.shutsDown : Point → Bool
  | .shutdownAtEof => true
  | .shutdownAtEmpty => true
  | _ => false

def Point.beforeSock : Point → Bool
  | .readStdin => true
  | .shutdownAtEof => true
  | .readSock => true
  | _ => false

/-- The steps, by what they do to the buffers. -/
inductive Effect (s : State) : State → Prop
  | select (reading writing : FdSet) :
      Effect s { s with
        rset := s.wantRead.inter reading
        wset := s.wantWrite.inter writing
        pc := .readStdin }
  | move {pc : Point} (hshut : pc.shutsDown = false) (hstd : pc ≠ .readStdin)
      (hsock : pc.beforeSock = true → s.pc.beforeSock = true)
      (hret : pc = .returned → s.stdineof = true) : Effect s { s with pc := pc }
  | stdinBytes {k : ℕ} (hpc : s.pc = .readStdin) (hset : s.rset.std = true)
      (hk : CanRead s.toBuf s.stdin s.stdinPos k) :
      Effect s { s with
        toBuf := s.toBuf.fill (s.stdin.bytes s.stdinPos k)
        stdinPos := s.stdinPos + k
        wset := { s.wset with sock := true }
        pc := .readSock }
  | stdinEof (hpc : s.pc = .readStdin) (hset : s.rset.std = true)
      (hend : CanEnd s.toBuf s.stdin s.stdinPos) :
      Effect s { s with
        stdineof := true
        pc := if s.toBuf.optr = s.toBuf.iptr then .shutdownAtEof else .readSock }
  | sockBytes {k : ℕ} (hk : CanRead s.frBuf s.sock s.sockPos k) :
      Effect s { s with
        frBuf := s.frBuf.fill (s.sock.bytes s.sockPos k)
        sockPos := s.sockPos + k
        wset := { s.wset with std := true }
        pc := .writeStdout }
  | stdoutBytes {k : ℕ} (hk : k ≤ s.frBuf.iptr - s.frBuf.optr) :
      Effect s { s with
        toStdout := s.toStdout ++ readBytes s.frBuf.mem s.frBuf.optr k
        frBuf := s.frBuf.drain k
        pc := .writeSock }
  | sockOutBytes {k : ℕ} (hpos : 0 < s.toBuf.iptr - s.toBuf.optr)
      (hk : k ≤ s.toBuf.iptr - s.toBuf.optr) :
      Effect s { s with
        toSock := s.toSock ++ readBytes s.toBuf.mem s.toBuf.optr k
        toBuf := s.toBuf.drain k
        pc := if s.toBuf.optr + k = s.toBuf.iptr ∧ s.stdineof then .shutdownAtEmpty else .head }
  | shutdown {pc : Point} (hpc : s.pc.shutsDown = true) (hshut : pc.shutsDown = false)
      (hstd : pc ≠ .readStdin) (hsock : pc.beforeSock = true → s.pc.beforeSock = true)
      (hret : pc ≠ .returned) : Effect s { s with shutdowns := s.shutdowns + 1, pc := pc }

variable {s s' : State}

lemma effect_onStdin {r : Input} (hpc : s.pc = .readStdin) (hset : s.rset.std = true)
    (h : onStdin s r = some s') : Effect s s' := by
  cases r with
  | bytes k =>
    obtain ⟨hk, h⟩ := ite_none_right_eq_some.mp h
    cases h
    exact .stdinBytes hpc hset hk
  | eof =>
    obtain ⟨hend, h⟩ := ite_none_right_eq_some.mp h
    cases h
    exact .stdinEof hpc hset hend
  | wouldBlock | error =>
    cases h
    exact .move rfl (by decide) (by rw [hpc]; decide) (by simp)

lemma effect_onSock {r : Input} (h : onSock s r = some s') : Effect s s' := by
  cases r with
  | bytes k =>
    obtain ⟨hk, h⟩ := ite_none_right_eq_some.mp h
    cases h
    exact .sockBytes hk
  | eof =>
    obtain ⟨hend, h⟩ := ite_none_right_eq_some.mp h
    cases h
    apply Effect.move
    · split <;> rfl
    · split <;> decide
    · split <;> simp [Point.beforeSock]
    · split <;> simp_all
  | wouldBlock | error =>
    cases h
    exact .move rfl (by decide) (by simp [Point.beforeSock]) (by simp)

lemma effect_onStdout {r : Output} (h : onStdout s r = some s') : Effect s s' := by
  cases r with
  | bytes k =>
    obtain ⟨hk, h⟩ := ite_none_right_eq_some.mp h
    cases h
    exact .stdoutBytes hk
  | wouldBlock | error =>
    cases h
    exact .move rfl (by decide) (by simp [Point.beforeSock]) (by simp)

lemma effect_onSockOut {r : Output} (hpos : 0 < s.toBuf.iptr - s.toBuf.optr)
    (h : onSockOut s r = some s') : Effect s s' := by
  cases r with
  | bytes k =>
    obtain ⟨hk, h⟩ := ite_none_right_eq_some.mp h
    cases h
    exact .sockOutBytes hpos hk
  | wouldBlock | error =>
    cases h
    exact .move rfl (by decide) (by simp [Point.beforeSock]) (by simp)

lemma effect_of_step {a : Action} (h : step s a = some s') : Effect s s' := by
  revert h
  fun_cases step s a with
  | case1 reading writing => exact fun h => some.inj h ▸ .select reading writing
  | case4 =>
    intro h
    obtain ⟨pc, hpc, rfl⟩ := map_eq_some_iff.mp h
    cases hs : s.pc with
    | readStdin | readSock | writeStdout | writeSock =>
      rw [hs] at hpc
      cases hpc
      exact .move rfl (by decide) (by rw [hs]; decide) (by simp)
    | _ =>
      rw [hs] at hpc
      cases hpc
  | case5 r hpc =>
    have hcalls := hpc.2
    rw [State.calls, hpc.1] at hcalls
    exact effect_onStdin hpc.1 hcalls
  | case7 => exact effect_onSock
  | case9 => exact effect_onStdout
  | case11 r hpc =>
    have hcalls := hpc.2
    rw [State.calls, hpc.1] at hcalls
    simp only [Bool.and_eq_true, decide_eq_true_eq] at hcalls
    exact effect_onSockOut hcalls.2
  | case13 hs | case14 hs =>
    rintro ⟨⟩
    exact .shutdown (by rw [hs]; rfl) rfl (by decide) (by rw [hs]; decide) (by decide)
  | _ => simp

/-! ## The invariant -/

/-- The end of the standard input has been seen, and everything read from it has been written. -/
def State.Sent (s : State) : Prop := s.stdineof = true ∧ s.toBuf.optr = s.toBuf.iptr

/-- What holds in every state of a run. -/
structure Inv (stdin sock : Source) (s : State) : Prop where
  stdin : s.stdin = stdin
  sock : s.sock = sock
  toWithin : s.toBuf.Within MAXLINE
  frWithin : s.frBuf.Within MAXLINE
  /-- What has been read from the standard input has been written, or is in the buffer. -/
  toSock : s.toSock ++ s.toBuf.pending = s.stdin.bytes 0 s.stdinPos
  /-- What has been read from the socket has been written, or is in the buffer. -/
  toStdout : s.toStdout ++ s.frBuf.pending = s.sock.bytes 0 s.sockPos
  /-- The standard input has ended if its end was seen. -/
  ended : s.stdineof = true → s.stdin s.stdinPos = none
  /-- The standard input is read only before its end and if there is room. -/
  readsStdin : s.pc = .readStdin → s.rset.std = true →
    s.stdineof = false ∧ s.toBuf.iptr < MAXLINE
  /-- The socket is read only if there is room. -/
  readsSock : s.pc.beforeSock = true → s.rset.sock = true → s.frBuf.iptr < MAXLINE
  /-- `Shutdown` is about to be called for the first time, with everything written. -/
  shutsDown : s.pc.shutsDown = true → s.Sent ∧ s.shutdowns = 0
  /-- `Shutdown` has been called once, with everything written. -/
  shutDown : s.shutdowns = 0 ∨ s.shutdowns = 1 ∧ s.Sent

variable {stdin sock : Source}

lemma inv_start (toMem frMem : Mem) (stdin sock : Source) :
    Inv stdin sock (start toMem frMem stdin sock) where
  stdin := rfl
  sock := rfl
  toWithin := ⟨Nat.le_refl 0, Nat.zero_le _⟩
  frWithin := ⟨Nat.le_refl 0, Nat.zero_le _⟩
  toSock := rfl
  toStdout := rfl
  ended := by simp [start]
  readsStdin := by simp [start]
  readsSock := by simp [start, Point.beforeSock]
  shutsDown := by simp [start, Point.shutsDown]
  shutDown := .inl rfl

/-- A state in which something of the standard input is still to be read or written has not seen a
`Shutdown`. -/
lemma Inv.shutdowns_eq_zero (h : Inv stdin sock s) (hnot : ¬ s.Sent) : s.shutdowns = 0 :=
  h.shutDown.resolve_right fun hone => hnot hone.2

lemma Inv.at_readStdin (h : Inv stdin sock s) (hpc : s.pc = .readStdin) (hset : s.rset.std = true) :
    s.stdineof = false ∧ s.toBuf.iptr < MAXLINE ∧ s.shutdowns = 0 := by
  obtain ⟨hopen, hlt⟩ := h.readsStdin hpc hset
  have hnot : ¬ s.Sent := fun hsent => by
    rw [hsent.1] at hopen
    cases hopen
  exact ⟨hopen, hlt, h.shutdowns_eq_zero hnot⟩

lemma Inv.effect (h : Inv stdin sock s) (he : Effect s s') : Inv stdin sock s' := by
  cases he with
  | select reading writing =>
    refine { h with readsStdin := fun _ hset => ?_, readsSock := fun _ hset => ?_,
                    shutsDown := by simp [Point.shutsDown] }
    · simp only [FdSet.inter, State.wantRead, Bool.and_eq_true, Bool.not_eq_true',
        decide_eq_true_eq] at hset
      exact hset.1
    · simp only [FdSet.inter, State.wantRead, Bool.and_eq_true, decide_eq_true_eq] at hset
      exact hset.1
  | move hshut hstd hsock hret =>
    exact { h with
      readsStdin := fun hpc => absurd hpc hstd
      readsSock := fun hpc => h.readsSock (hsock hpc)
      shutsDown := fun hpc => by rw [hshut] at hpc; cases hpc }
  | @stdinBytes k hpc hset hk =>
    obtain ⟨hpos, hroom, hhas⟩ := hk
    obtain ⟨hopen, hlt, hzero⟩ := h.at_readStdin hpc hset
    have hlen := Source.length_bytes hhas
    exact { h with
      toWithin := h.toWithin.fill (by omega)
      toSock := by
        rw [Buffer.pending_fill h.toWithin, ← append_assoc, h.toSock, ← Source.bytes_add]
      ended := fun heof => by rw [hopen] at heof; cases heof
      readsStdin := by simp
      readsSock := fun _ => h.readsSock (by rw [hpc]; rfl)
      shutsDown := by simp [Point.shutsDown]
      shutDown := .inl hzero }
  | stdinEof hpc hset hend =>
    obtain ⟨-, hlt, hzero⟩ := h.at_readStdin hpc hset
    refine { h with
      ended := fun _ => hend.resolve_left (by omega)
      readsStdin := ?_
      readsSock := fun _ => h.readsSock (by rw [hpc]; rfl)
      shutsDown := fun hshut => ⟨⟨rfl, ?_⟩, hzero⟩
      shutDown := .inl hzero }
    · split <;> simp
    · -- with bytes in the buffer the loop goes on to the read from the socket
      by_contra hne
      simp only [if_neg hne] at hshut
      cases hshut
  | @sockBytes k hk =>
    obtain ⟨hpos, hroom, hhas⟩ := hk
    have hlen := Source.length_bytes hhas
    have hle := h.frWithin.iptr_le
    exact { h with
      frWithin := h.frWithin.fill (by omega)
      toStdout := by
        rw [Buffer.pending_fill h.frWithin, ← append_assoc, h.toStdout, ← Source.bytes_add]
      readsStdin := by simp
      readsSock := by simp [Point.beforeSock]
      shutsDown := by simp [Point.shutsDown] }
  | stdoutBytes hk =>
    exact { h with
      frWithin := h.frWithin.drain hk
      toStdout := by rw [append_assoc, ← Buffer.pending_drain hk, h.toStdout]
      readsStdin := by simp
      readsSock := by simp [Point.beforeSock]
      shutsDown := by simp [Point.shutsDown] }
  | @sockOutBytes k hpos hk =>
    have hnot : ¬ s.Sent := fun hsent => by
      have := hsent.2
      omega
    refine { h with
      toWithin := h.toWithin.drain hk
      toSock := by rw [append_assoc, ← Buffer.pending_drain hk, h.toSock]
      readsStdin := ?_
      readsSock := ?_
      shutsDown := fun hshut => ?_
      shutDown := .inl (h.shutdowns_eq_zero hnot) }
    · split <;> simp
    · split <;> simp [Point.beforeSock]
    · by_cases hdone : s.toBuf.optr + k = s.toBuf.iptr ∧ s.stdineof = true
      · exact ⟨⟨hdone.2, (Buffer.drain_optr_eq_iff s.toBuf k).mpr hdone.1⟩,
          h.shutdowns_eq_zero hnot⟩
      · simp only [if_neg hdone] at hshut
        cases hshut
  | shutdown hpc hshut hstd hsock hret =>
    obtain ⟨hsent, hzero⟩ := h.shutsDown hpc
    exact { h with
      readsStdin := fun hpc => absurd hpc hstd
      readsSock := fun hpc => h.readsSock (hsock hpc)
      shutsDown := fun hpc => by rw [hshut] at hpc; cases hpc
      shutDown := .inr ⟨by simp [hzero], hsent⟩ }

lemma inv_of_run {toMem frMem : Mem} {ls : List Action}
    (hrun : RunFrom step (start toMem frMem stdin sock) ls s) : Inv stdin sock s :=
  hrun.invariant (inv_start toMem frMem stdin sock) fun _ _ _ h hst _ =>
    h.effect (effect_of_step hst)

/-! ## The results -/

/-- At every point of the loop the bytes written are a front part of the bytes read, in both
directions; the pointers are in order and in their arrays; and `Shutdown` is called at most once,
after all of the standard input has been written to the socket. -/
theorem strCli_safe {toMem frMem : Mem} {ls : List Action}
    (hrun : RunFrom step (start toMem frMem stdin sock) ls s) :
    s.toSock <+: stdin.bytes 0 s.stdinPos ∧ s.toStdout <+: sock.bytes 0 s.sockPos ∧
      (s.toBuf.optr ≤ s.toBuf.iptr ∧ s.toBuf.iptr ≤ MAXLINE) ∧
      (s.frBuf.optr ≤ s.frBuf.iptr ∧ s.frBuf.iptr ≤ MAXLINE) ∧ s.shutdowns ≤ 1 ∧
      (s.pc.shutsDown = true ∨ 0 < s.shutdowns →
        stdin s.stdinPos = none ∧ s.toSock = stdin.bytes 0 s.stdinPos) := by
  have h := inv_of_run hrun
  obtain rfl := h.stdin
  obtain rfl := h.sock
  refine ⟨⟨_, h.toSock⟩, ⟨_, h.toStdout⟩, ⟨h.toWithin.optr_le, h.toWithin.iptr_le⟩,
    ⟨h.frWithin.optr_le, h.frWithin.iptr_le⟩, ?_, fun hshut => ?_⟩
  · rcases h.shutDown with hzero | ⟨hone, -⟩
    · omega
    · omega
  · have hsent : s.Sent := by
      rcases hshut with hpc | hpos
      · exact (h.shutsDown hpc).1
      · exact (h.shutDown.resolve_left hpos.ne').2
    have hnil := (Buffer.pending_eq_nil_iff h.toWithin).mpr hsent.2
    have hsock := h.toSock
    rw [hnil, append_nil] at hsock
    exact ⟨h.ended hsent.1, hsock⟩

def sourceOf (bs : Bytes) : Source := fun i => bs[i]?

/-- One byte is copied to the socket, then the standard input ends. -/
theorem strCli_safe_one :
    ∃ s, RunFrom step (start (fun _ => 0) (fun _ => 0) (sourceOf [120]) (sourceOf []))
        [.select ⟨true, false⟩ ⟨false, false⟩, .readStdin (.bytes 1), .skip, .skip,
          .writeSock (.bytes 1), .select ⟨true, false⟩ ⟨false, false⟩, .readStdin .eof,
          .shutdown] s ∧
      s.toSock = [120] ∧ s.shutdowns = 1 ∧ s.shutdowns ≤ 1 ∧
      (s.pc.shutsDown = true ∨ 0 < s.shutdowns → sourceOf [120] s.stdinPos = none ∧
        s.toSock = (sourceOf [120]).bytes 0 s.stdinPos) := by
  obtain ⟨s, hrun, hout, hone⟩ := exists_runFrom step
    (start (fun _ => 0) (fun _ => 0) (sourceOf [120]) (sourceOf []))
    [.select ⟨true, false⟩ ⟨false, false⟩, .readStdin (.bytes 1), .skip, .skip,
      .writeSock (.bytes 1), .select ⟨true, false⟩ ⟨false, false⟩, .readStdin .eof, .shutdown]
    (fun s => s.toSock = [120] ∧ s.shutdowns = 1) (by decide)
  obtain ⟨-, -, -, -, hle, hsent⟩ := strCli_safe hrun
  exact ⟨s, hrun, hout, hone, hle, hsent⟩

lemma eq_of_returned {a : Action} (hst : step s a = some s') (hret : s'.pc = .returned) :
    s.stdineof = true ∧ s' = { s with pc := .returned } := by
  cases effect_of_step hst with
  | move hshut hstd hsock heof =>
    subst hret
    exact ⟨heof rfl, rfl⟩
  | stdinEof hpc hset hend =>
    simp only at hret
    split at hret <;> cases hret
  | sockOutBytes hpos hk =>
    simp only at hret
    split at hret <;> cases hret
  | shutdown hpc hshut hstd hsock hne => exact absurd hret hne
  | select reading writing | stdinBytes hpc hset hk | sockBytes hk | stdoutBytes hk => cases hret

/-- Everything read from the socket has been written to the standard output, and all of the standard
input has been written to the socket. -/
def Complete (stdin sock : Source) (s : State) : Prop :=
  s.toStdout = sock.bytes 0 s.sockPos ∧ stdin s.stdinPos = none ∧
    s.toSock = stdin.bytes 0 s.stdinPos

/-- When the function returns, it has written everything if and only if both buffers were empty when
the end of the stream from the socket was read. -/
theorem strCli_complete_iff {toMem frMem : Mem} {ls : List Action}
    (hrun : RunFrom step (start toMem frMem stdin sock) ls s) {a : Action}
    (hst : step s a = some s') (hret : s'.pc = .returned) :
    Complete stdin sock s' ↔ s.frBuf.optr = s.frBuf.iptr ∧ s.toBuf.optr = s.toBuf.iptr := by
  have h := inv_of_run hrun
  obtain ⟨heof, rfl⟩ := eq_of_returned hst hret
  obtain rfl := h.stdin
  obtain rfl := h.sock
  rw [← Buffer.pending_eq_nil_iff h.frWithin, ← Buffer.pending_eq_nil_iff h.toWithin]
  unfold Complete
  constructor
  · rintro ⟨hout, -, hin⟩
    exact ⟨self_eq_append_right.mp (hout.trans h.toStdout.symm),
      self_eq_append_right.mp (hin.trans h.toSock.symm)⟩
  · rintro ⟨hfr, hto⟩
    have hout := h.toStdout
    have hin := h.toSock
    rw [hfr, append_nil] at hout
    rw [hto, append_nil] at hin
    exact ⟨hout, h.ended heof, hin⟩

/-- The standard input is empty, the server sends two bytes and closes; both bytes are written to
the standard output before the end is read. -/
theorem strCli_complete_iff_all :
    ∃ s', RunFrom step (start (fun _ => 0) (fun _ => 0) (sourceOf []) (sourceOf [97, 98]))
        [.select ⟨true, true⟩ ⟨false, false⟩, .readStdin .eof, .shutdown, .readSock (.bytes 2),
          .writeStdout (.bytes 2), .skip, .select ⟨false, true⟩ ⟨false, false⟩, .skip,
          .readSock .eof] s' ∧
      s'.pc = .returned ∧ Complete (sourceOf []) (sourceOf [97, 98]) s' := by
  obtain ⟨s, hrun, hfr, hto, hlast⟩ := exists_runFrom step
    (start (fun _ => 0) (fun _ => 0) (sourceOf []) (sourceOf [97, 98]))
    [.select ⟨true, true⟩ ⟨false, false⟩, .readStdin .eof, .shutdown, .readSock (.bytes 2),
      .writeStdout (.bytes 2), .skip, .select ⟨false, true⟩ ⟨false, false⟩, .skip]
    (fun s => s.frBuf.optr = s.frBuf.iptr ∧ s.toBuf.optr = s.toBuf.iptr ∧
      (step s (.readSock .eof)).map State.pc = some .returned) (by decide)
  obtain ⟨s', hst, hret⟩ := map_eq_some_iff.mp hlast
  exact ⟨s', RunWhen.snoc hrun hst trivial, hret,
    (strCli_complete_iff hrun hst hret).mpr ⟨hfr, hto⟩⟩

/-- The server sends two bytes and closes.  One of them is written to the standard output, which is
not ready in the next round, and the end of the stream is read: the second byte is lost. -/
theorem strCli_loses_byte :
    ∃ ls s', RunFrom step (start (fun _ => 0) (fun _ => 0) (sourceOf []) (sourceOf [97, 98]))
        ls s' ∧
      s'.pc = .returned ∧ ¬ Complete (sourceOf []) (sourceOf [97, 98]) s' := by
  obtain ⟨s, hrun, hret, hout, hpos⟩ := exists_runFrom step
    (start (fun _ => 0) (fun _ => 0) (sourceOf []) (sourceOf [97, 98]))
    [.select ⟨true, true⟩ ⟨false, false⟩, .readStdin .eof, .shutdown, .readSock (.bytes 2),
      .writeStdout (.bytes 1), .skip, .select ⟨false, true⟩ ⟨false, false⟩, .skip, .readSock .eof]
    (fun s => s.pc = .returned ∧ s.toStdout = [97] ∧ s.sockPos = 2) (by decide)
  refine ⟨_, s, hrun, hret, fun hall => ?_⟩
  have hbytes := hall.1
  rw [hout, hpos] at hbytes
  cases hbytes

end UnixPrograms.StrCli
