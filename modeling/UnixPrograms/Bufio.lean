import UnixPrograms.Lib.Arrivals
import UnixPrograms.Lib.Runs
import Mathlib.Data.List.Range

/-!
# Buffered output with `Bputc`

If a flush fails, `next` stays as it is, also if some bytes of the buffer have been written: a
further `Bputc` stores behind the buffer, and `Bclose` writes those bytes again.  Nothing else goes
wrong (`bputc_iff`).

A byte is given by the number of the call that has put it.  `BUFSIZ` is a parameter.
-/

namespace UnixPrograms.Bufio

open List

structure State where
  /-- The bytes that have been put, one by each call. -/
  put : Bytes
  /-- What is in `buf` up to `next`. -/
  buf : List ℕ
  file : List ℕ
  closed : Bool

/-- A call, with what the calls of `write` do that it makes. -/
inductive Call where
  | bputc (c : UInt8) (fd : List Departure)
  | bclose (fd : List Departure)

/-- The loop of `writebuf` with the bytes that are left: whether it succeeds, and what it writes.
A call of `write` accepts at most all of them. -/
def writebuf : List ℕ → List Departure → Option (Bool × List ℕ)
  | [], _ => some (true, [])
  | _, [] => none
  | _, .error _ :: _ => some (false, [])
  | left, .bytes n :: fd =>
    (writebuf (left.drop n) fd).map fun r => (r.1, left.take n ++ r.2)

def State.flush (s : State) (fd : List Departure) : Option State :=
  (writebuf s.buf fd).map fun r =>
    { s with file := s.file ++ r.2, buf := if r.1 then [] else s.buf }

def State.store (s : State) (c : UInt8) : State :=
  { s with put := s.put ++ [c], buf := s.buf ++ [s.put.length] }

/-- One call.  Nothing is said about what follows once a byte is stored behind the buffer. -/
def step (BUFSIZ : ℕ) (s : State) : Call → Option State
  | .bputc c fd =>
    if s.closed ∨ BUFSIZ < s.buf.length then none
    else if s.buf.length + 1 = BUFSIZ then (s.store c).flush fd
    else some (s.store c)
  | .bclose fd =>
    if s.closed ∨ BUFSIZ < s.buf.length then none else { s with closed := true }.flush fd

def start : State := ⟨[], [], [], false⟩

/-- The file holds the first bytes that were put, each once and in order, and `next` is at most
`BUFSIZ`. -/
def Correct (BUFSIZ : ℕ) (s : State) : Prop :=
  (∃ m ≤ s.put.length, s.file = range m) ∧ s.buf.length ≤ BUFSIZ

/-- No byte is put while the buffer is still full after a failed flush, and if such a flush has
written part of it, then the closing one writes nothing. -/
def Clean (BUFSIZ : ℕ) (s : State) : Call → Prop
  | .bputc _ _ => s.buf.length < BUFSIZ
  | .bclose fd => s.file.length + s.buf.length = s.put.length ∨
      ∀ r ∈ writebuf s.buf fd, r.2 = []

/-! ## Flushing -/

variable {BUFSIZ : ℕ} {s s' : State} {c : Call} {k m n : ℕ}

lemma writebuf_spec {left w : List ℕ} {fd : List Departure} {ok : Bool}
    (h : writebuf left fd = some (ok, w)) : w <+: left ∧ (ok = true → w = left) := by
  fun_induction writebuf left fd generalizing ok w with
  | case1 => cases h; simp
  | case2 => cases h
  | case3 => cases h; simp
  | case4 left n fd _ ih =>
    obtain ⟨r, hr, heq⟩ := Option.map_eq_some_iff.mp h
    cases heq
    obtain ⟨hpre, hall⟩ := ih hr
    refine ⟨?_, fun hok => ?_⟩
    · conv_rhs => rw [← take_append_drop n left]
      exact prefix_append_right_inj _ |>.mpr hpre
    · rw [hall hok, take_append_drop]

/-- The buffer holds the bytes from number `k` on, and the file the first `m` bytes; these are the
ones before the buffer, unless a flush has failed. -/
structure Holds (BUFSIZ k m : ℕ) (s : State) : Prop where
  buf : s.buf = range' k (s.put.length - k)
  file : s.file = range m
  le : k ≤ m
  put : m ≤ s.put.length
  next : s.buf.length ≤ BUFSIZ
  full : s.closed = false → s.buf.length < BUFSIZ → m = k

lemma Holds.flush {t : State} {fd : List Departure} (hst : t.flush fd = some s')
    (hbuf : t.buf = range' k (t.put.length - k)) (hfile : t.file = range m) (hle : k ≤ m)
    (hput : m ≤ t.put.length) (hnext : t.buf.length ≤ BUFSIZ)
    (hfull : t.closed = true ∨ t.buf.length = BUFSIZ)
    (hm : m = k ∨ ∀ r ∈ writebuf t.buf fd, r.2 = []) : ∃ k' m', Holds BUFSIZ k' m' s' := by
  obtain ⟨⟨ok, w⟩, hw, rfl⟩ := Option.map_eq_some_iff.mp hst
  obtain ⟨hpre, hall⟩ := writebuf_spec hw
  have hlen : t.buf.length = t.put.length - k := by rw [hbuf, length_range']
  obtain ⟨m', hfile', hle', hput', hok⟩ : ∃ m', t.file ++ w = range m' ∧ m ≤ m' ∧
      m' ≤ t.put.length ∧ (ok = true → m' = t.put.length) := by
    rcases hm with rfl | hnil
    · obtain ⟨rest, hrest⟩ := hpre
      obtain ⟨j, hj, rfl, -⟩ := range'_eq_append_iff.mp (hbuf.symm.trans hrest.symm)
      refine ⟨m + j, ?_, by omega, by omega, fun hok => ?_⟩
      · rw [hfile, range_eq_range', range_eq_range']
        simpa using @range'_append 0 m j 1
      · rw [← hall hok, length_range'] at hlen
        omega
    · obtain rfl : w = [] := hnil _ hw
      refine ⟨m, by rw [append_nil, hfile], le_refl m, hput, fun hok => ?_⟩
      have : t.buf.length = 0 := by rw [← hall hok, length_nil]
      omega
  cases ok with
  | true =>
    have hm' := hok rfl
    exact ⟨m', m', by simp [hm'], hfile', le_refl m', hput', Nat.zero_le _, fun _ _ => rfl⟩
  | false =>
    refine ⟨k, m', hbuf, hfile', hle.trans hle', hput', hnext, fun hopen hlt => ?_⟩
    rcases hfull with hclosed | hB
    · exact absurd (hclosed.symm.trans hopen) (by decide)
    · exact absurd hB hlt.ne

lemma Holds.store (h : Holds BUFSIZ k m s) (b : UInt8) :
    (s.store b).buf = range' k ((s.store b).put.length - k) := by
  have hk := h.le.trans h.put
  have hsub : s.put.length + 1 - k = s.put.length - k + 1 := by omega
  simp [State.store, h.buf, hsub, range'_concat, Nat.add_sub_of_le hk]

lemma Holds.step (h : Holds BUFSIZ k m s) (hst : step BUFSIZ s c = some s')
    (hc : Clean BUFSIZ s c) : ∃ k' m', Holds BUFSIZ k' m' s' := by
  have hlen : s.buf.length = s.put.length - k := by rw [h.buf, length_range']
  have hk := h.le
  have hput := h.put
  revert hst
  fun_cases Bufio.step BUFSIZ s c with
  | case1 | case4 => nofun
  | case2 b fd hopen hB =>
    intro hst
    obtain rfl := h.full (Bool.not_eq_true _ ▸ (not_or.mp hopen).1) hc
    refine Holds.flush hst (h.store b) h.file hk ?_ ?_ (.inr ?_) (.inl rfl)
    all_goals simp only [State.store, length_append, length_singleton]; omega
  | case3 b fd hopen hB =>
    rintro ⟨⟩
    have hlt : s.buf.length < BUFSIZ := hc
    obtain rfl := h.full (Bool.not_eq_true _ ▸ (not_or.mp hopen).1) hc
    refine ⟨m, m, h.store b, h.file, hk, ?_, ?_, fun _ _ => rfl⟩
    all_goals simp only [State.store, length_append, length_singleton]; omega
  | case5 fd hopen =>
    intro hst
    refine Holds.flush hst h.buf h.file hk hput h.next (.inl rfl) (hc.imp_left fun hc => ?_)
    rw [h.file, length_range] at hc
    omega

lemma Holds.not_correct (h : Holds BUFSIZ k m s) (hst : Bufio.step BUFSIZ s c = some s')
    (hc : ¬ Clean BUFSIZ s c) : ¬ Correct BUFSIZ s' := by
  have hlen : s.buf.length = s.put.length - k := by rw [h.buf, length_range']
  have hk := h.le
  have hput := h.put
  have hnext := h.next
  revert hst
  fun_cases Bufio.step BUFSIZ s c with
  | case1 | case4 => nofun
  | case2 b fd hopen hB => exact absurd (show s.buf.length < BUFSIZ by omega) hc
  | case3 b fd hopen hB =>
    rintro ⟨⟩ ⟨-, hle⟩
    simp only [State.store, length_append, length_singleton] at hle
    exact hc (show s.buf.length < BUFSIZ by omega)
  | case5 fd hopen =>
    simp only [Clean, not_or, not_forall] at hc
    obtain ⟨hm, ⟨ok, w⟩, hw, hne⟩ := hc
    intro hst
    rw [State.flush, hw] at hst
    cases hst
    rintro ⟨⟨m', -, hfile⟩, -⟩
    -- the byte at the end of the file so far is followed by the first one of the buffer
    obtain ⟨rest, hrest⟩ := (writebuf_spec hw).1
    obtain ⟨j, -, rfl, -⟩ := range'_eq_append_iff.mp (h.buf.symm.trans hrest.symm)
    rw [h.file, length_range] at hm
    simp only [h.file] at hfile
    rw [range_eq_range' (n := m')] at hfile
    obtain ⟨i, -, hi, hj⟩ := range'_eq_append_iff.mp hfile.symm
    obtain rfl : m = i := by simpa using congrArg length hi
    cases j with
    | zero => exact hne rfl
    | succ j =>
      cases hsub : m' - m with
      | zero => simp [hsub] at hj
      | succ l =>
        rw [hsub, range'_succ, range'_succ, Nat.zero_add] at hj
        have hkm := (cons.inj hj).1
        omega

/-- Throughout a run the bytes that reach the file are the first ones put, in order, and `next` is
at most `BUFSIZ`, if and only if no byte is put after a failed flush, and `Bclose` writes nothing
after one that had written part of the buffer. -/
theorem bputc_iff (BUFSIZ : ℕ) (cs : List Call) (s : State) :
    Throughout (step BUFSIZ) (Correct BUFSIZ) start cs s ↔
      RunWhen (step BUFSIZ) (Clean BUFSIZ) start cs s := by
  refine throughout_iff (I := fun s => ∃ k m, Holds BUFSIZ k m s) ?_ ?_ ?_ ?_
  · exact ⟨0, 0, rfl, rfl, le_rfl, le_rfl, Nat.zero_le _, fun _ _ => rfl⟩
  · exact fun s ⟨k, m, h⟩ => ⟨⟨m, h.put, h.file⟩, h.next⟩
  · exact fun _ _ _ ⟨k, m, h⟩ hst hc => h.step hst hc
  · exact fun _ _ _ ⟨k, m, h⟩ hst hc => h.not_correct hst hc

lemma replay_puts (h : n < BUFSIZ) : replay (step BUFSIZ) start (replicate n (.bputc 97 [])) =
    some ⟨replicate n 97, range n, [], false⟩ := by
  induction n with
  | zero => rfl
  | succ n ih =>
    have hB : n + 1 ≠ BUFSIZ := by omega
    rw [replicate_succ', replay_append, ih (by omega)]
    simp [replay, step, State.store, hB, range_succ, replicate_succ', (by omega : n ≤ BUFSIZ)]

lemma exists_behind (n : ℕ) : ∃ s, RunFrom (step (n + 1)) start
    (replicate n (.bputc 97 []) ++ [.bputc 97 [.error 28], .bputc 97 []]) s ∧
      ¬ Correct (n + 1) s := by
  refine ⟨⟨replicate (n + 2) 97, range (n + 2), [], false⟩, runFrom_of_replay ?_, fun h => ?_⟩
  · have hfails : writebuf (range n ++ [n]) [.error 28] = some (false, []) := by
      cases range n with
      | nil => rfl
      | cons => rfl
    have hn : ¬ n + 1 < n := by omega
    rw [replay_append, replay_puts n.lt_succ_self]
    simp [replay, step, State.store, State.flush, hfails, hn, range_succ, replicate_succ']
  · have hle := h.2
    simp at hle

/-- With a buffer of 8192 bytes. -/
theorem bputc_behind : ∃ s, RunFrom (step 8192) start
    (replicate 8191 (.bputc 97 []) ++ [.bputc 97 [.error 28], .bputc 97 []]) s ∧
      ¬ Correct 8192 s :=
  exists_behind 8191

end UnixPrograms.Bufio
