import UnixPrograms.Lib.Arrivals
import UnixPrograms.Lib.Memory
import UnixPrograms.Lib.Runs
import Mathlib.Data.List.Infix

/-!
# The atomic logger

`atomic_log_send` appends the pending entries to the log file with a single `write`.  If that is
short, they stay pending although some of their bytes have been appended.  Otherwise, and if the
`int` for their length does not wrap around, the file gets each entry at most once and in order
(`send_exact_iff`).
-/

namespace UnixPrograms.AtomicLogger

open List

def EINTR : ℤ := 4

/-- What is passed to `atomic_log_array`: its length is an `int`. -/
def Entry := { s : Bytes // s.length < 2 ^ 31 }

structure State where
  fd : ℤ
  /-- The entries from `first` on. -/
  entries : List Bytes
  /-- What has been appended to the log file. -/
  file : Bytes
  /-- All entries that have been inserted. -/
  inserted : List Bytes
  /-- What the last call returned. -/
  ret : ℤ
  /-- A copy has left its block. -/
  crashed : Bool

/-- A call, with whether `malloc` succeeds and what the calls of `write` do. -/
inductive Call where
  | atomicLogArray (s : Entry) (alloc : Bool)
  | atomicLogString (s : Entry) (alloc : Bool)
  | atomicLogSend (alloc : Bool) (log : List Departure)
  | atomicLogClear

/-- `my_write`: the call is restarted if it is interrupted. -/
def myWrite (buf : Bytes) : List Departure → Option (Except ℤ ℕ)
  | [] => none
  | d :: log =>
    match writeFd buf d with
    | .error errno => if errno = EINTR then myWrite buf log else some (.error errno)
    | .ok bytes => some (.ok bytes)

def getLength (entries : List Bytes) : ℤ :=
  entries.foldl (fun len current => wrapSigned 4 (len + current.length)) 0

def atomicLogArray (s : State) (entry : Bytes) (alloc : Bool) : State :=
  if s.fd < 0 ∨ alloc = false then { s with ret := -1 }
  else { s with entries := s.entries ++ [entry], inserted := s.inserted ++ [entry], ret := 0 }

def State.buf (s : State) : Bytes := s.entries.flatten

def State.len (s : State) : ℤ := getLength s.entries

def atomicLogSend (s : State) (alloc : Bool) (log : List Departure) : Option State :=
  if s.fd < 0 then some { s with ret := -1 }
  else if s.len = 0 then some { s with ret := 0 }
  -- a negative length becomes a number that no allocator can serve
  else if s.len < 0 ∨ alloc = false then some { s with ret := -1 }
  else if s.len < s.buf.length then some { s with crashed := true }
  else
    match myWrite s.buf log with
    | none => none
    | some (.error _) => some { s with ret := -1 }
    | some (.ok bytes) =>
      if bytes ≠ s.len then some { s with file := s.file ++ s.buf.take bytes, ret := -1 }
      else some { s with file := s.file ++ s.buf.take bytes, entries := [], ret := 0 }

def step (s : State) (c : Call) : Option State :=
  if s.crashed then none
  else
    match c with
    | .atomicLogArray entry alloc | .atomicLogString entry alloc =>
      some (atomicLogArray s entry.val alloc)
    | .atomicLogSend alloc log => atomicLogSend s alloc log
    | .atomicLogClear => some { s with entries := [], ret := 0 }

def start (fd : ℤ) : State := ⟨fd, [], [], [], 0, false⟩

/-- A send that returns 0 has appended exactly the pending entries, and one that returns -1 has
appended nothing and keeps them. -/
def Exact (s : State) : Call → Prop
  | .atomicLogSend alloc log => ∀ s' ∈ atomicLogSend s alloc log,
      s'.crashed = false ∧ (s'.ret = 0 → s'.file = s.file ++ s.buf) ∧
        (s'.ret = -1 → s'.file = s.file ∧ s'.entries = s.entries)
  | _ => True

/-- At a send the length of the pending entries is not taken for a smaller number that is not
negative, and the write is not short. -/
def Whole (s : State) : Call → Prop
  | .atomicLogSend alloc log => 0 ≤ s.fd →
      (s.len = 0 → s.buf = []) ∧ (0 < s.len → alloc = true →
        s.buf.length ≤ s.len ∧ ∀ n : ℕ, myWrite s.buf log = some (.ok n) → n = 0 ∨ n = s.len)
  | _ => True

variable {s s' : State} {c : Call}

lemma myWrite_le {buf : Bytes} {log : List Departure} {n : ℕ}
    (h : myWrite buf log = some (.ok n)) : n ≤ buf.length := by
  fun_induction myWrite buf log with
  | case1 => cases h
  | case2 d log hd ih => exact ih h
  | case3 => cases h
  | case4 d log bytes hd =>
    cases h
    cases d with
    | bytes k =>
      cases hd
      exact Nat.min_le_right ..
    | error errno => cases hd

lemma exact_iff_whole (hs : s.crashed = false) : Exact s c ↔ Whole s c := by
  cases c with
  | atomicLogSend alloc log =>
    simp only [Exact, Whole]
    fun_cases atomicLogSend s alloc log with
    | case1 hfd => simp [hs, hfd]
    | case2 hfd hlen => simp [hs, hlen, not_lt.mp hfd]
    | case3 | case4 | case5 | case6 =>
      simp only [Option.mem_def, Option.some.injEq, forall_eq', reduceCtorEq]
      grind
    | case7 _ _ _ _ bytes hw | case8 _ _ _ _ bytes hw =>
      have hle := myWrite_le hw
      simp [hs, hw]
      grind
  | _ => simp [Exact, Whole]

/-- The log file holds some of the entries, each of them in full, and together with the pending ones
they stand in the order of insertion. -/
def InOrder (s : State) : Prop :=
  s.crashed = false ∧ ∃ sent : List Bytes, s.file = sent.flatten ∧ sent ++ s.entries <+ s.inserted

lemma InOrder.step (h : InOrder s) (hst : step s c = some s') (hc : Whole s c) : InOrder s' := by
  obtain ⟨hs, sent, hfile, hsub⟩ := h
  unfold AtomicLogger.step at hst
  rw [if_neg (by simp [hs])] at hst
  cases c with
  | atomicLogArray entry alloc | atomicLogString entry alloc =>
    obtain rfl := Option.some.inj hst
    rw [atomicLogArray]
    split
    · exact ⟨hs, sent, hfile, hsub⟩
    · refine ⟨hs, sent, hfile, ?_⟩
      rw [← append_assoc]
      exact hsub.append (.refl _)
  | atomicLogClear =>
    obtain rfl := Option.some.inj hst
    refine ⟨hs, sent, hfile, ?_⟩
    rw [append_nil]
    exact (sublist_append_left ..).trans hsub
  | atomicLogSend alloc log =>
    change atomicLogSend s alloc log = some s' at hst
    obtain ⟨hs', hzero, hfail⟩ := (exact_iff_whole hs).mpr hc s' hst
    revert hst
    fun_cases atomicLogSend s alloc log with
    | case1 | case3 | case6 | case7 =>
      rintro ⟨⟩
      exact ⟨hs, sent, (hfail rfl).1.trans hfile, hsub⟩
    | case2 =>
      rintro ⟨⟩
      exact ⟨hs, sent, hfile, hsub⟩
    | case4 =>
      rintro ⟨⟩
      cases hs'
    | case5 => nofun
    | case8 =>
      rintro ⟨⟩
      refine ⟨hs, sent ++ s.entries, ?_, (append_nil _).symm ▸ hsub⟩
      rw [hzero rfl, hfile, flatten_append]
      rfl

/-- As long as no write is short and no length wraps around, the log file receives each entry at
most once and in order; the next call does what it reports if and only if this holds for it too. -/
theorem send_exact_iff {fd : ℤ} {cs : List Call} (hrun : RunWhen step Whole (start fd) cs s) :
    (∃ sent : List Bytes, s.file = sent.flatten ∧ sent ++ s.entries <+ s.inserted) ∧
      ∀ c, Exact s c ↔ Whole s c := by
  have h : InOrder s := hrun.invariant (I := InOrder) ⟨rfl, [], rfl, .refl _⟩
    fun _ _ _ hI hst hC => hI.step hst hC
  exact ⟨h.2, fun c => exact_iff_whole h.1⟩

lemma length_hi_lt : [(104 : UInt8), 105].length < 2 ^ 31 := by decide

def hi : Entry := ⟨[104, 105], length_hi_lt⟩

theorem send_exact_iff_hi :
    ∃ s, RunWhen step Whole (start 3) [.atomicLogArray hi true, .atomicLogSend true [.bytes 2]] s ∧
      ∀ c, Exact s c ↔ Whole s c := by
  have harray : RunWhen step Whole (start 3) [.atomicLogArray hi true] _ :=
    RunWhen.nil.snoc rfl trivial
  have hrun := harray.snoc (l := .atomicLogSend true [.bytes 2]) rfl (by
    refine fun _ => ⟨fun h => absurd h (by decide), fun _ _ => ⟨by decide, fun n hn => .inr ?_⟩⟩
    cases hn
    decide)
  exact ⟨_, hrun, (send_exact_iff hrun).2⟩

/-- A write of one of the two bytes: the send fails, and the next one appends all of the entry
behind the byte. -/
theorem send_short : ∃ s, RunFrom step (start 3) [.atomicLogArray hi true,
    .atomicLogSend true [.bytes 1], .atomicLogSend true [.bytes 2]] s ∧
      s.inserted = [[104, 105]] ∧ s.file = [104, 104, 105] :=
  exists_runFrom _ _ _ _ (by decide)

end UnixPrograms.AtomicLogger
