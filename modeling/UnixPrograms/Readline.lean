import UnixPrograms.Lib.Arrivals
import UnixPrograms.Lib.Memory
import Mathlib.Data.List.GetD

/-!
# The buffered `readline`

`my_read` hands out the bytes of a descriptor one at a time from a static buffer.  `readline` gives
them in order, cut after each newline and after `maxlen - 1` bytes, whatever the pieces in which
they arrive.  A call that stores `maxlen - 1` bytes without a newline returns `maxlen`
(`readline_conforms_iff`).

The slow version gives the same lines, and so does the reentrant one exactly if `maxlen` is an `int`
(`readline_versions_agree_iff`).
-/

namespace UnixPrograms.Readline

open List

def MAXLINE : ℕ := 4096

def EINTR : ℤ := 4

def newline : UInt8 := 10

/-! ## The functions of `readline.c` -/

/-- The static variables, with `read_ptr` as an index into `read_buf`, and the descriptor. -/
structure Reader where
  readCnt : ℤ
  readPtr : ℕ
  readBuf : Bytes
  fd : List Arrival

def start (fd : List Arrival) : Reader where
  readCnt := 0
  readPtr := 0
  readBuf := List.replicate MAXLINE 0
  fd := fd

/-- What `my_read` returns: 1 and a byte, 0 at the end of the stream, or -1. -/
inductive MyRead where
  | byte (c : UInt8)
  | eof
  | error
  deriving DecidableEq

/-- The call of `read` at the label `again`, repeated while it is interrupted.  The result says
whether there is now a byte in the buffer, or what `my_read` returns. -/
def again (r : Reader) : List Arrival → Option MyRead × Reader
  | .error errno :: as =>
    if errno = EINTR then again { r with readCnt := -1 } as
    else (some .error, { r with readCnt := -1, fd := as })
  | as =>
    match readFd MAXLINE as with
    | (.error _, as') => (some .error, { r with readCnt := -1, fd := as' })
    | (.ok [], as') => (some .eof, { r with readCnt := 0, fd := as' })
    | (.ok bs, as') =>
      (none, { readCnt := bs.length, readPtr := 0, readBuf := writeAt r.readBuf 0 bs, fd := as' })

def takeByte (r : Reader) : MyRead × Reader :=
  (.byte (r.readBuf.getD r.readPtr 0),
    { r with readCnt := r.readCnt - 1, readPtr := r.readPtr + 1 })

def myRead (r : Reader) : MyRead × Reader :=
  if r.readCnt ≤ 0 then
    match again r r.fd with
    | (some res, r') => (res, r')
    | (none, r') => takeByte r'
  else takeByte r

structure Line where
  ret : ℤ
  vptr : Bytes
  deriving DecidableEq

/-- The loop of `readline` for `n` on, where `next` gets a byte, with `left` rounds to go before `n`
is `maxlen`, and `line` stored so far. -/
def lineLoop {ρ : Type} (next : ρ → MyRead × ρ) : (left n : ℕ) → (line : Bytes) → ρ → Line × ρ
  | 0, n, line, r => (⟨n, line ++ [0]⟩, r)
  | left + 1, n, line, r =>
    match next r with
    | (.byte c, r') =>
      if c = newline then (⟨n, line ++ [c] ++ [0]⟩, r')
      else lineLoop next left (n + 1) (line ++ [c]) r'
    | (.eof, r') => (⟨(n : ℤ) - 1, line ++ [0]⟩, r')
    | (.error, r') => (⟨-1, line⟩, r')

def readline (maxlen : ℕ) (r : Reader) : Line × Reader := lineLoop myRead (maxlen - 1) 1 [] r

/-- `readlinebuf`: the bytes that `*vptrptr` points to, as many as it returns. -/
def readlinebuf (r : Reader) : Bytes := (r.readBuf.drop r.readPtr).take r.readCnt.toNat

/-! ## What the calls should return -/

/-- The front of the stream `s`, cut after the first newline, and otherwise after `k` bytes. -/
def piece : (k : ℕ) → (s : Bytes) → Bytes
  | 0, _ => []
  | _, [] => []
  | k + 1, c :: cs => if c = newline then [c] else c :: piece k cs

structure Call where
  line : Line
  buffered : Bytes
  /-- What has not been read from the descriptor. -/
  unread : Bytes
  deriving DecidableEq

/-- One call of `readline` after the other, with the values of `maxlen` given. -/
def calls : List ℕ → Reader → List Call
  | [], _ => []
  | m :: ms, r =>
    ⟨(readline m r).1, readlinebuf (readline m r).2, UnixPrograms.unread (readline m r).2.fd⟩ ::
      calls ms (readline m r).2

/-- The call stores the front of the stream `s`, and the rest of it is what `readlinebuf` gives and
what has not been read from the descriptor. -/
def Call.Stores (m : ℕ) (s : Bytes) (c : Call) : Prop :=
  c.line.vptr = piece (m - 1) s ++ [0] ∧ piece (m - 1) s ++ (c.buffered ++ c.unread) = s

/-- The call returns the number of bytes stored, 0 only at the end of the stream. -/
def Call.Counts (m : ℕ) (s : Bytes) (c : Call) : Prop :=
  c.line.ret = (piece (m - 1) s).length ∧ (c.line.ret = 0 → s = [])

/-- A property of every call, each with its `maxlen` and the stream as the calls before left it. -/
def EachCall (P : ℕ → Bytes → Call → Prop) : Bytes → List ℕ → List Call → Prop
  | _, [], cs => cs = []
  | s, m :: ms, c :: cs => P m s c ∧ EachCall P (s.drop (piece (m - 1) s).length) ms cs
  | _, _ :: _, [] => False

/-- Every line ends within the room for it, or the stream does. -/
def Fits : Bytes → List ℕ → Prop
  | _, [] => True
  | s, m :: ms =>
    (newline ∈ s.take (m - 1) ∨ s.length < m - 1) ∧ Fits (s.drop (piece (m - 1) s).length) ms

instance decidableFits : (s : Bytes) → (ms : List ℕ) → Decidable (Fits s ms)
  | _, [] => .isTrue trivial
  | s, m :: ms =>
    have := decidableFits (s.drop (piece (m - 1) s).length) ms
    inferInstanceAs (Decidable (_ ∧ _))

lemma piece_append_drop (k : ℕ) (s : Bytes) : piece k s ++ s.drop (piece k s).length = s := by
  induction k generalizing s with
  | zero => simp [piece]
  | succ k ih =>
    cases s with
    | nil => simp [piece]
    | cons c cs =>
      rw [piece]
      split
      · simp
      · simpa using ih cs

/-! ## One byte -/

/-- The bytes that the reader has yet to hand out are `s`; the descriptor is interrupted now and
then, but does not fail. -/
structure Pending (r : Reader) (s : Bytes) : Prop where
  cnt : 0 ≤ r.readCnt
  fits : r.readPtr + r.readCnt.toNat ≤ r.readBuf.length
  arriving : Arriving r.fd
  errors : ∀ errno, Arrival.error errno ∈ r.fd → errno = EINTR
  stream : readlinebuf r ++ unread r.fd = s

lemma pending_start {fd : List Arrival} (harr : Arriving fd)
    (herr : ∀ errno, Arrival.error errno ∈ fd → errno = EINTR) :
    Pending (start fd) (unread fd) where
  cnt := Int.le_refl 0
  fits := by simp [start]
  arriving := harr
  errors := herr
  stream := by simp [start, readlinebuf]

variable {r : Reader} {s : Bytes}

lemma Pending.takeByte (h : Pending r s) (hpos : 0 < r.readCnt) :
    ∃ c cs, s = c :: cs ∧ (takeByte r).1 = .byte c ∧ Pending (takeByte r).2 cs := by
  obtain ⟨m, hm⟩ : ∃ m : ℕ, r.readCnt = m + 1 := ⟨(r.readCnt - 1).toNat, by omega⟩
  have hcnt : r.readCnt.toNat = m + 1 := by omega
  have hfits := h.fits
  rw [hcnt] at hfits
  have hlt : r.readPtr < r.readBuf.length := by omega
  have hbuf : readlinebuf r =
      r.readBuf.getD r.readPtr 0 :: (r.readBuf.drop (r.readPtr + 1)).take m := by
    rw [readlinebuf, hcnt, drop_eq_getElem_cons hlt, take_succ_cons, getD_eq_getElem _ _ hlt]
  refine ⟨r.readBuf.getD r.readPtr 0, (r.readBuf.drop (r.readPtr + 1)).take m ++ unread r.fd,
    ?_, rfl, ?_⟩
  · rw [← h.stream, hbuf, cons_append]
  · have hleft : (r.readCnt - 1).toNat = m := by omega
    refine ⟨?_, ?_, h.arriving, h.errors, ?_⟩
    · change 0 ≤ r.readCnt - 1
      omega
    · change r.readPtr + 1 + (r.readCnt - 1).toNat ≤ r.readBuf.length
      omega
    · change (r.readBuf.drop (r.readPtr + 1)).take (r.readCnt - 1).toNat ++ unread r.fd = _
      rw [hleft]

lemma take_writeAt_zero (buf bs : Bytes) : (writeAt buf 0 bs).take bs.length = bs := by
  rw [writeAt, take_zero, Nat.zero_sub, replicate_zero, nil_append, nil_append, take_left]

lemma pending_filled {buf bs : Bytes} {as as' : List Arrival} (harr : Arriving as)
    (herr : ∀ errno, Arrival.error errno ∈ as' → errno = EINTR)
    (hread : readFd MAXLINE as = (.ok bs, as')) :
    Pending { readCnt := bs.length, readPtr := 0, readBuf := writeAt buf 0 bs, fd := as' }
      (unread as) where
  cnt := by simp
  fits := by simp [writeAt]
  arriving := by
    have h := harr.readFd (n := MAXLINE)
    rw [hread] at h
    exact h
  errors := herr
  stream := by
    rw [readlinebuf, drop_zero, Int.toNat_natCast, take_writeAt_zero, unread_readFd hread]

lemma again_spec (r : Reader) (hptr : r.readPtr ≤ r.readBuf.length) (as : List Arrival)
    (harr : Arriving as) (herr : ∀ errno, Arrival.error errno ∈ as → errno = EINTR) :
    ((again r as).1 = none ∧ 0 < (again r as).2.readCnt ∧ Pending (again r as).2 (unread as)) ∨
      ((again r as).1 = some .eof ∧ unread as = [] ∧ Pending (again r as).2 []) := by
  -- the recursion of `again` is over the interruptions at the front
  induction as generalizing r with
  | nil =>
    right
    exact ⟨rfl, rfl, Int.le_refl 0, hptr, harr, herr, by simp [again, readFd, readlinebuf, unread]⟩
  | cons a as ih =>
    cases a with
    | error errno =>
      have heq : again r (.error errno :: as) = again { r with readCnt := -1 } as := by
        rw [again, if_pos (herr errno mem_cons_self)]
      rw [heq, unread]
      exact ih _ hptr harr.tail fun e he => herr e (mem_cons_of_mem _ he)
    | bytes cs =>
      left
      obtain ⟨bs, as', hread⟩ : ∃ bs as', readFd MAXLINE (.bytes cs :: as) = (.ok bs, as') := by
        rw [readFd]
        split
        · exact ⟨_, _, rfl⟩
        · exact ⟨_, _, rfl⟩
      have hne : bs ≠ [] := by
        rintro rfl
        exact absurd (readFd_eq_nil (by decide) harr hread) (cons_ne_nil _ _)
      have heq : again r (.bytes cs :: as) =
          (none, ⟨bs.length, 0, writeAt r.readBuf 0 bs, as'⟩) := by
        obtain ⟨b, bs, rfl⟩ := exists_cons_of_ne_nil hne
        rw [again, hread]
        simp
      rw [heq]
      refine ⟨rfl, ?_, pending_filled harr ?_ hread⟩
      · exact Int.natCast_pos.mpr (length_pos_iff.mpr hne)
      · intro e he
        refine herr e (error_mem_of_readFd (n := MAXLINE) ?_)
        rw [hread]
        exact he

lemma Pending.myRead (h : Pending r s) :
    (∃ c cs, s = c :: cs ∧ (myRead r).1 = .byte c ∧ Pending (myRead r).2 cs) ∨
      (s = [] ∧ (myRead r).1 = .eof ∧ Pending (myRead r).2 []) := by
  by_cases hcnt : r.readCnt ≤ 0
  · have hempty : unread r.fd = s := by
      rw [← h.stream, readlinebuf, Int.toNat_of_nonpos hcnt, take_zero, nil_append]
    have hptr : r.readPtr ≤ r.readBuf.length := Nat.le_trans (Nat.le_add_right _ _) h.fits
    rw [Readline.myRead, if_pos hcnt]
    rcases again_spec r hptr r.fd h.arriving h.errors with ⟨hnone, hpos, hp⟩ | ⟨heof, hnil, hp⟩
    · left
      rw [hempty] at hp
      generalize again r r.fd = res at hnone hpos hp ⊢
      obtain ⟨_, r'⟩ := res
      obtain rfl : _ = none := hnone
      exact hp.takeByte hpos
    · right
      generalize again r r.fd = res at heof hp ⊢
      obtain ⟨_, r'⟩ := res
      obtain rfl : _ = some MyRead.eof := heof
      exact ⟨hempty.symm.trans hnil, rfl, hp⟩
  · left
    rw [Readline.myRead, if_neg hcnt]
    exact h.takeByte (Int.not_le.mp hcnt)

/-! ## One line -/

lemma Pending.lineLoop (h : Pending r s) (left n : ℕ) (line : Bytes)
    (hn : n = line.length + 1) :
    (lineLoop Readline.myRead left n line r).1.vptr = line ++ piece left s ++ [0] ∧
      (lineLoop Readline.myRead left n line r).1.ret =
        (line ++ piece left s).length +
          (if newline ∈ s.take left ∨ s.length < left then 0 else 1) ∧
      Pending (lineLoop Readline.myRead left n line r).2 (s.drop (piece left s).length) := by
  induction left generalizing n line s r with
  | zero =>
    refine ⟨by simp [Readline.lineLoop, piece], ?_, ?_⟩
    · simp [Readline.lineLoop, piece, hn]
    · simpa [Readline.lineLoop, piece] using h
  | succ left ih =>
    rcases h.myRead with ⟨c, cs, rfl, hc, hp⟩ | ⟨rfl, heof, hp⟩
    · rw [Readline.lineLoop]
      generalize Readline.myRead r = res at hc hp ⊢
      obtain ⟨_, r'⟩ := res
      obtain rfl : _ = MyRead.byte c := hc
      by_cases hnl : c = newline
      · refine ⟨by simp [hnl, piece], by simp [hnl, piece, hn], ?_⟩
        simpa [hnl, piece] using hp
      · obtain ⟨hv, hr, hp'⟩ := ih hp (n + 1) (line ++ [c]) (by simp [hn])
        have hpiece : piece (left + 1) (c :: cs) = c :: piece left cs := by rw [piece, if_neg hnl]
        simp only [if_neg hnl]
        rw [hpiece]
        refine ⟨by rw [hv]; simp, ?_, by simpa using hp'⟩
        rw [hr]
        have hiff : newline ∈ (c :: cs).take (left + 1) ∨ (c :: cs).length < left + 1 ↔
            newline ∈ cs.take left ∨ cs.length < left := by
          simp [Ne.symm hnl]
        simp only [hiff]
        simp
    · rw [Readline.lineLoop]
      generalize Readline.myRead r = res at heof hp ⊢
      obtain ⟨_, r'⟩ := res
      obtain rfl : _ = MyRead.eof := heof
      refine ⟨by simp [piece], by simp [piece, hn], ?_⟩
      simpa [piece] using hp

lemma Pending.readline {m : ℕ} (hm : 2 ≤ m) (h : Pending r s) :
    let c : Call := ⟨(readline m r).1, readlinebuf (readline m r).2,
      UnixPrograms.unread (readline m r).2.fd⟩
    c.Stores m s ∧ (c.Counts m s ↔ newline ∈ s.take (m - 1) ∨ s.length < m - 1) ∧
      Pending (readline m r).2 (s.drop (piece (m - 1) s).length) := by
  obtain ⟨hv, hr, hp⟩ := h.lineLoop (m - 1) 1 [] rfl
  have hrest : piece (m - 1) s ++ (readlinebuf (Readline.readline m r).2 ++
      UnixPrograms.unread (Readline.readline m r).2.fd) = s := by
    rw [Readline.readline, hp.stream, piece_append_drop]
  refine ⟨⟨hv, hrest⟩, ?_, hp⟩
  change (Readline.readline m r).1.ret = _ ∧ ((Readline.readline m r).1.ret = 0 → s = []) ↔ _
  rw [Readline.readline, hr, nil_append]
  by_cases hfit : newline ∈ s.take (m - 1) ∨ s.length < m - 1
  · simp only [hfit, if_true, iff_true]
    refine ⟨by omega, fun hzero => ?_⟩
    obtain ⟨k, hk⟩ : ∃ k, m - 1 = k + 1 := ⟨m - 2, by omega⟩
    cases s with
    | nil => rfl
    | cons c cs =>
      rw [hk, piece] at hzero
      split at hzero
      · simp at hzero
      · rw [length_cons] at hzero
        omega
  · simp only [hfit, if_false, iff_false]
    intro hcounts
    omega

/-! ## All calls -/

/-- Successive calls of `readline` store the stream piece by piece, however it arrives, and
`readlinebuf` shows what has been read and not returned.  All return values are the numbers of bytes
stored exactly when every line, or the end of the stream, fits in the room for it. -/
theorem readline_conforms_iff {fd : List Arrival} (harr : Arriving fd)
    (herr : ∀ errno, Arrival.error errno ∈ fd → errno = EINTR) {ms : List ℕ}
    (hms : ∀ m ∈ ms, 2 ≤ m) :
    EachCall Call.Stores (unread fd) ms (calls ms (start fd)) ∧
      (EachCall Call.Counts (unread fd) ms (calls ms (start fd)) ↔ Fits (unread fd) ms) := by
  have hstart := pending_start harr herr
  generalize start fd = r at hstart ⊢
  generalize unread fd = s at hstart ⊢
  induction ms generalizing r s with
  | nil => exact ⟨rfl, iff_of_true rfl trivial⟩
  | cons m ms ih =>
    obtain ⟨hstores, hcounts, hnext⟩ := hstart.readline (hms m mem_cons_self)
    obtain ⟨ihs, ihc⟩ := ih (fun m' hm' => hms m' (mem_cons_of_mem m hm')) _ _ hnext
    exact ⟨⟨hstores, ihs⟩, and_congr hcounts ihc⟩

def sampleFd : List Arrival := [.bytes [97], .error EINTR, .bytes [98, 10, 99], .bytes [100]]

/-- The two lines, read with room for four bytes each: they fit. -/
theorem readline_conforms_iff_sample : (calls [5, 5, 5] (start sampleFd)).map (fun c => c.line) =
        [⟨3, [97, 98, 10, 0]⟩, ⟨2, [99, 100, 0]⟩, ⟨0, [0]⟩] ∧
      EachCall Call.Counts (unread sampleFd) [5, 5, 5] (calls [5, 5, 5] (start sampleFd)) := by
  refine ⟨by decide +kernel, (readline_conforms_iff ?_ ?_ (by decide)).2.mpr (by decide +kernel)⟩
  · simp [sampleFd, Arriving]
  · simp [sampleFd]

/-- Three bytes without a newline, read with room for two: the call stores two bytes and returns
3. -/
theorem readline_counts_too_many :
    (calls [3] (start [.bytes [97, 98, 99]])).map (fun c => c.line) = [⟨3, [97, 98, 0]⟩] ∧
      ¬ EachCall Call.Counts (unread [.bytes [97, 98, 99]]) [3]
        (calls [3] (start [.bytes [97, 98, 99]])) := by
  refine ⟨by decide +kernel, fun h => ?_⟩
  exact absurd h.1.1 (by decide +kernel)

/-! ## The other two versions

The `readline` of `readline1.c` reads one byte at a time, and `readline_r` of `readline3.c` keeps
the buffer in a structure of the caller.  Its `my_read` does with the structure what the one above
does with the static variables, but its `n` is an `int`. -/

/-- `read(fd, &c, 1)` in `readline1.c`, repeated while it is interrupted. -/
def readOne : List Arrival → MyRead × List Arrival
  | .error errno :: as => if errno = EINTR then readOne as else (.error, as)
  | as =>
    match readFd 1 as with
    | (.ok (c :: _), as') => (.byte c, as')
    | (.ok [], as') => (.eof, as')
    | (.error _, as') => (.error, as')

def readline1 (maxlen : ℕ) (fd : List Arrival) : Line × List Arrival :=
  lineLoop readOne (maxlen - 1) 1 [] fd

/-- The loop of `readline_r`: the `int` is compared with `maxlen` as a `size_t`. -/
def readlineRLoop (maxlen : ℕ) : (fuel : ℕ) → (n : ℤ) → (line : Bytes) → Reader → Line × Reader
  | 0, n, line, r => (⟨n, line ++ [0]⟩, r)
  | fuel + 1, n, line, r =>
    if ofSigned 8 n < maxlen then
      match myRead r with
      | (.byte c, r') =>
        if c = newline then (⟨n, line ++ [c] ++ [0]⟩, r')
        else readlineRLoop maxlen fuel (wrapSigned 4 (n + 1)) (line ++ [c]) r'
      | (.eof, r') => (⟨n - 1, line ++ [0]⟩, r')
      | (.error, r') => (⟨-1, line⟩, r')
    else (⟨n, line ++ [0]⟩, r)

/-- `readline_r`; before the first call the structure is as `readline_rinit` leaves it (`start`). -/
def readlineR (maxlen : ℕ) (r : Reader) : Line × Reader := readlineRLoop maxlen maxlen 1 [] r

def lines {ρ : Type} (f : ρ → Line × ρ) : (k : ℕ) → ρ → List Line
  | 0, _ => []
  | k + 1, r => (f r).1 :: lines f k (f r).2

def byteOf : Bytes → MyRead × Bytes
  | [] => (.eof, [])
  | c :: cs => (.byte c, cs)

/-- The byte that `next` gets is the next one of the stream that `P` says is left. -/
def Yields {ρ : Type} (next : ρ → MyRead × ρ) (P : ρ → Bytes → Prop) : Prop :=
  ∀ ⦃r s⦄, P r s → (next r).1 = (byteOf s).1 ∧ P (next r).2 (byteOf s).2

section

variable {ρ : Type} {next : ρ → MyRead × ρ} {P : ρ → Bytes → Prop} {r : ρ} (hnext : Yields next P)
include hnext

lemma lineLoop_eq (h : P r s) (left n : ℕ) (line : Bytes) :
    (lineLoop next left n line r).1 = (lineLoop byteOf left n line s).1 ∧
      P (lineLoop next left n line r).2 (lineLoop byteOf left n line s).2 := by
  induction left generalizing n line r s with
  | zero => exact ⟨rfl, h⟩
  | succ left ih =>
    obtain ⟨hbyte, hrest⟩ := hnext h
    rw [lineLoop, lineLoop]
    generalize next r = x at hbyte hrest ⊢
    generalize byteOf s = y at hbyte hrest ⊢
    obtain ⟨b, r'⟩ := x
    obtain ⟨_, s'⟩ := y
    obtain rfl : b = _ := hbyte
    cases b with
    | byte c =>
      dsimp only
      split
      · exact ⟨rfl, hrest⟩
      · exact ih hrest _ _
    | eof | error => exact ⟨rfl, hrest⟩

lemma lines_eq (h : P r s) (m k : ℕ) :
    lines (lineLoop next (m - 1) 1 []) k r = lines (lineLoop byteOf (m - 1) 1 []) k s := by
  induction k generalizing r s with
  | zero => rfl
  | succ k ih =>
    obtain ⟨hline, hrest⟩ := lineLoop_eq hnext h (m - 1) 1 []
    rw [lines, lines, hline, ih hrest]

end

/-- The stream `s` arrives in some pieces, with interruptions. -/
structure Split (fd : List Arrival) (s : Bytes) : Prop where
  arriving : Arriving fd
  errors : ∀ errno, Arrival.error errno ∈ fd → errno = EINTR
  stream : unread fd = s

lemma Split.pending {fd : List Arrival} (h : Split fd s) : Pending (start fd) s :=
  h.stream ▸ pending_start h.arriving h.errors

lemma yields_myRead : Yields myRead Pending := by
  intro r s h
  rcases h.myRead with ⟨c, cs, rfl, hbyte, hrest⟩ | ⟨rfl, heof, hrest⟩
  · exact ⟨hbyte, hrest⟩
  · exact ⟨heof, hrest⟩

lemma yields_readOne : Yields readOne Split := by
  rintro fd s ⟨harr, herr, rfl⟩
  induction fd with
  | nil => exact ⟨rfl, harr, herr, rfl⟩
  | cons a fd ih =>
    have hfd : ∀ errno, Arrival.error errno ∈ fd → errno = EINTR :=
      fun e he => herr e (mem_cons_of_mem _ he)
    cases a with
    | error errno =>
      rw [readOne, if_pos (herr errno mem_cons_self)]
      exact ih harr.tail hfd
    | bytes bs =>
      cases bs with
      | nil => exact absurd rfl harr.ne_nil
      | cons c cs =>
        cases cs with
        | nil => exact ⟨rfl, harr.tail, hfd, rfl⟩
        | cons d ds =>
          refine ⟨rfl, ?_, fun e he => ?_, rfl⟩
          · simpa [Arriving, readOne, readFd] using harr.tail
          · simp [readOne, readFd] at he
            exact hfd e he

lemma ofSigned_natCast {n : ℕ} (hn : n < 2 ^ 31) : ofSigned 8 n = n := by
  rw [ofSigned, ← Int.natCast_mod, Int.toNat_natCast, Nat.mod_eq_of_lt (by omega)]

lemma readlineRLoop_eq {maxlen left n : ℕ} (hn : n + left = maxlen) (hmax : maxlen < 2 ^ 31)
    (line : Bytes) (r : Reader) :
    readlineRLoop maxlen (left + 1) n line r = lineLoop myRead left n line r := by
  induction left generalizing n line r with
  | zero => rw [readlineRLoop, ofSigned_natCast (by omega), if_neg (by omega), lineLoop]
  | succ left ih =>
    have hnext : wrapSigned 4 ((n : ℤ) + 1) = ((n + 1 : ℕ) : ℤ) :=
      wrapSigned_natCast (v := n + 1) (by omega)
    rw [readlineRLoop, ofSigned_natCast (by omega), if_pos (by omega), lineLoop, hnext]
    rcases myRead r with ⟨_ | _ | _, r'⟩
    · simp only [ih (n := n + 1) (by omega)]
    · rfl
    · rfl

lemma readlineR_eq {maxlen : ℕ} (hmax : maxlen < 2 ^ 31) : readlineR maxlen = readline maxlen := by
  funext r
  cases maxlen with
  | zero => rfl
  | succ m => exact readlineRLoop_eq (Nat.add_comm 1 m) hmax [] r

/-! ## Lines of more than `INT_MAX` bytes -/

lemma Pending.readlineRLoop_succ (h : Pending r s) (hs : newline ∉ s) (hpos : 0 < s.length)
    {maxlen n fuel : ℕ} (hmax : 2 ^ 31 ≤ maxlen) (hn : n < 2 ^ 31) (hfuel : 0 < fuel)
    (line : Bytes) :
    ∃ c r', Pending r' s.tail ∧ readlineRLoop maxlen fuel n line r =
      readlineRLoop maxlen (fuel - 1) (wrapSigned 4 (n + 1)) (line ++ [c]) r' := by
  obtain ⟨fuel, rfl⟩ := Nat.exists_eq_add_of_lt hfuel
  rcases h.myRead with ⟨c, cs, rfl, hbyte, hrest⟩ | ⟨rfl, -⟩
  · refine ⟨c, _, hrest, ?_⟩
    rw [readlineRLoop, ofSigned_natCast hn, if_pos (hn.trans_le hmax)]
    generalize Readline.myRead r = x at hbyte
    obtain ⟨_, r'⟩ := x
    obtain rfl : _ = MyRead.byte c := hbyte
    exact if_neg fun heq : c = newline => hs (heq ▸ mem_cons_self)
  · exact absurd hpos (Nat.lt_irrefl 0)

/-- When the last byte of the stream makes `n` overflow, a negative number is returned. -/
lemma Pending.ret_readlineRLoop {maxlen : ℕ} (hmax : 2 ^ 31 ≤ maxlen) {d n fuel : ℕ}
    (hn : n + d = 2 ^ 31 - 1) (hfuel : d + 2 ≤ fuel) (h : Pending r s) (hs : newline ∉ s)
    (hlen : s.length = d + 1) (line : Bytes) : (readlineRLoop maxlen fuel n line r).1.ret < 0 := by
  induction d generalizing n fuel r s line with
  | zero =>
    obtain rfl : n = 2 ^ 31 - 1 := hn
    obtain ⟨c, r', hrest, heq⟩ := h.readlineRLoop_succ hs (by omega) hmax (n := 2 ^ 31 - 1)
      (by omega) (Nat.zero_lt_of_lt hfuel) line
    obtain ⟨fuel, rfl⟩ := Nat.exists_eq_add_of_le' hfuel
    rw [length_eq_zero_iff.mp (by rw [length_tail]; omega : s.tail.length = 0)] at hrest
    rw [heq, show wrapSigned 4 (((2 ^ 31 - 1 : ℕ) : ℤ) + 1) = -2 ^ 31 from rfl,
      show fuel + (0 + 2) - 1 = fuel + 1 from rfl, readlineRLoop]
    -- there is another round if `maxlen` is above the number as a `size_t`
    split
    · rcases hrest.myRead with ⟨_, _, hnil, -⟩ | ⟨-, heof, -⟩
      · cases hnil
      · generalize Readline.myRead r' = x at heof
        obtain ⟨_, r''⟩ := x
        obtain rfl : _ = MyRead.eof := heof
        exact (by decide : (-2 ^ 31 - 1 : ℤ) < 0)
    · exact (by decide : (-2 ^ 31 : ℤ) < 0)
  | succ d ih =>
    obtain ⟨c, r', hrest, heq⟩ :=
      h.readlineRLoop_succ hs (by omega) hmax (n := n) (by omega) (Nat.zero_lt_of_lt hfuel) line
    have hnext : wrapSigned 4 ((n : ℤ) + 1) = ((n + 1 : ℕ) : ℤ) :=
      wrapSigned_natCast (v := n + 1) (by omega)
    rw [heq, hnext]
    refine ih (by omega) (by omega) hrest (fun hmem => hs (mem_of_mem_tail hmem)) ?_ _
    rw [length_tail]
    omega

lemma exists_disagree {maxlen : ℕ} (hmax : 2 ^ 31 ≤ maxlen) : ∃ fd s, Split fd s ∧
    lines (readlineR maxlen) 1 (start fd) ≠ lines (readline maxlen) 1 (start fd) := by
  obtain ⟨s, hlen, hs⟩ : ∃ s : Bytes, s.length = 2 ^ 31 - 1 ∧ newline ∉ s :=
    ⟨_, length_replicate, fun hmem => absurd (eq_of_mem_replicate hmem) (by decide : newline ≠ 97)⟩
  have h : Split [.bytes s] s := by
    refine ⟨fun hmem => ?_, fun e he => ?_, append_nil s⟩
    · rw [← Arrival.bytes.inj (mem_singleton.mp hmem), length_nil] at hlen
      omega
    · cases mem_singleton.mp he
  have hret : (readlineR maxlen (start [.bytes s])).1.ret < 0 :=
    h.pending.ret_readlineRLoop hmax (d := 2 ^ 31 - 2) (n := 1) (by omega) (by omega) hs
      (by omega) []
  obtain ⟨-, hret', -⟩ := h.pending.lineLoop (maxlen - 1) 1 [] rfl
  refine ⟨_, s, h, fun heq => ?_⟩
  rw [congrArg Line.ret (cons.inj heq).1, readline, hret'] at hret
  split at hret <;> omega

/-- For all streams and all pieces in which they arrive, the three give the same lines exactly if
`maxlen` is an `int`. -/
theorem readline_versions_agree_iff (maxlen : ℕ) :
    (∀ s fd₁ fd₂ fd₃, Split fd₁ s → Split fd₂ s → Split fd₃ s → ∀ k,
      lines (readline1 maxlen) k fd₁ = lines (readline maxlen) k (start fd₂) ∧
        lines (readlineR maxlen) k (start fd₃) = lines (readline maxlen) k (start fd₂)) ↔
    maxlen < 2 ^ 31 := by
  constructor
  · intro hall
    by_contra hmax
    obtain ⟨fd, s, h, hne⟩ := exists_disagree (Nat.not_lt.mp hmax)
    exact hne (hall s fd fd fd h h h 1).2
  · intro hmax s fd₁ fd₂ fd₃ h₁ h₂ h₃ k
    have hstatic : lines (readline maxlen) k (start fd₂) = _ :=
      lines_eq yields_myRead h₂.pending maxlen k
    rw [readlineR_eq hmax, hstatic]
    exact ⟨lines_eq yields_readOne h₁ maxlen k, lines_eq yields_myRead h₃.pending maxlen k⟩

/-- Behind a line of `INT_MAX` bytes, for which there is room, `readline_r` returns a negative
number. -/
theorem readlineR_overflow :
    ∃ fd s, Split fd s ∧
      lines (readlineR (2 ^ 31)) 1 (start fd) ≠ lines (readline (2 ^ 31)) 1 (start fd) :=
  exists_disagree le_rfl

end UnixPrograms.Readline
