import UnixPrograms.Lib.Arrivals
import Mathlib.Data.List.Infix

/-!
# Restarted reads and writes

`r_write` and `readblock` repeat `write` and `read` after short counts and interruptions.  If there
are no other errors, `r_write` sends the whole buffer or does not return, and `readblock` gives the
next bytes of the stream, as many as asked for, or fails at its end.
-/

namespace UnixPrograms.Restart

open List

def EINTR : ℤ := 4

/-! ## The functions of `restart.c` -/

structure Write where
  ret : Option ℤ
  sent : Bytes
  fd : List Departure

def rWriteLoop : List Departure → (bufp : Bytes) → (totalbytes : ℕ) → Write
  | fd, [], totalbytes => ⟨some totalbytes, [], fd⟩
  | [], _ :: _, _ => ⟨none, [], []⟩
  | d :: fd, b :: bs, totalbytes =>
    match writeFd (b :: bs) d with
    | .error errno =>
      if errno = EINTR then rWriteLoop fd (b :: bs) totalbytes else ⟨some (-1), [], fd⟩
    | .ok byteswritten =>
      let w := rWriteLoop fd ((b :: bs).drop byteswritten) (totalbytes + byteswritten)
      ⟨w.ret, (b :: bs).take byteswritten ++ w.sent, w.fd⟩

def rWrite (fd : List Departure) (buf : Bytes) : Write := rWriteLoop fd buf 0

structure Block where
  ret : ℤ
  /-- The bytes stored from the start of the buffer on. -/
  got : Bytes
  fd : List Arrival

variable {n : ℕ}

lemma length_readFd_lt {as as' : List Arrival} {b : UInt8} {bs : Bytes} (hn : n ≠ 0)
    (h : readFd n as = (.ok (b :: bs), as')) :
    as'.length + (n - (b :: bs).length) < as.length + n := by
  have hlen : 0 < (b :: bs).length := Nat.succ_pos _
  cases as with
  | nil => cases h
  | cons a as =>
    cases a with
    | error errno => cases h
    | bytes cs =>
      rw [readFd] at h
      split at h
      · obtain ⟨-, rfl⟩ := Prod.mk.inj h
        simp only [length_cons]
        omega
      · obtain ⟨-, rfl⟩ := Prod.mk.inj h
        simp only [length_cons]
        omega

lemma length_readFd_error {as as' : List Arrival} {errno : ℤ}
    (h : readFd n as = (.error errno, as')) : as = .error errno :: as' := by
  cases as with
  | nil => cases h
  | cons a as =>
    cases a with
    | error e =>
      cases h
      rfl
    | bytes cs =>
      rw [readFd] at h
      split at h <;> cases h

/-- The loop of `readblock`, with the bytes `got` read so far. -/
def readblockLoop (fd : List Arrival) (bytestoread : ℕ) (got : Bytes) : Block :=
  if _h0 : bytestoread = 0 then ⟨got.length, got, fd⟩
  else
    match h : readFd bytestoread fd with
    | (.ok [], fd') => if got.length = 0 then ⟨0, got, fd'⟩ else ⟨-1, got, fd'⟩
    | (.ok (b :: bs), fd') =>
      readblockLoop fd' (bytestoread - (b :: bs).length) (got ++ b :: bs)
    | (.error errno, fd') =>
      if errno = EINTR then readblockLoop fd' bytestoread got else ⟨-1, got, fd'⟩
termination_by fd.length + bytestoread
decreasing_by
  · exact length_readFd_lt _h0 h
  · rw [length_readFd_error h, List.length_cons]
    omega

def readblock (fd : List Arrival) (size : ℕ) : Block := readblockLoop fd size []

/-! ## Interruptions only -/

def Interrupted (fd : List Departure) : Prop := ∀ errno, .error errno ∈ fd → errno = EINTR

/-- The calls of `read` fail only by interruptions, and no piece is empty. -/
structure Steady (fd : List Arrival) : Prop where
  arriving : Arriving fd
  interrupted : ∀ errno, .error errno ∈ fd → errno = EINTR

variable {fd fd' : List Arrival}

lemma Steady.readFd (h : Steady fd) (n : ℕ) : Steady (readFd n fd).2 :=
  ⟨h.arriving.readFd, fun errno he => h.interrupted errno (error_mem_of_readFd he)⟩

lemma rWriteLoop_spec {fd : List Departure} (h : Interrupted fd) (bufp : Bytes) (totalbytes : ℕ) :
    Interrupted (rWriteLoop fd bufp totalbytes).fd ∧
      ((rWriteLoop fd bufp totalbytes).ret = some ((totalbytes + bufp.length : ℕ) : ℤ) ∧
          (rWriteLoop fd bufp totalbytes).sent = bufp ∨ (rWriteLoop fd bufp totalbytes).ret = none ∧
          (rWriteLoop fd bufp totalbytes).sent <+: bufp) := by
  induction fd generalizing bufp totalbytes with
  | nil =>
    cases bufp with
    | nil => exact ⟨h, .inl ⟨rfl, rfl⟩⟩
    | cons b bs => exact ⟨h, .inr ⟨rfl, nil_prefix⟩⟩
  | cons d fd ih =>
    cases bufp with
    | nil => exact ⟨h, .inl ⟨rfl, rfl⟩⟩
    | cons b bs =>
      have hfd : Interrupted fd := fun errno he => h errno (mem_cons_of_mem d he)
      cases d with
      | error errno =>
        have heintr : errno = EINTR := h errno mem_cons_self
        rw [rWriteLoop, writeFd]
        simp only [if_pos heintr]
        exact ih hfd (b :: bs) totalbytes
      | bytes k =>
        rw [rWriteLoop, writeFd]
        simp only []
        generalize hn : min k (b :: bs).length = n
        have hle : n ≤ (b :: bs).length := hn ▸ Nat.min_le_right _ _
        obtain ⟨hint, ⟨hret, hsent⟩ | ⟨hret, hsent⟩⟩ := ih hfd ((b :: bs).drop n) (totalbytes + n)
        · refine ⟨hint, .inl ⟨?_, ?_⟩⟩
          · rw [hret, length_drop]
            congr 2
            omega
          · rw [hsent, take_append_drop]
        · refine ⟨hint, .inr ⟨hret, ?_⟩⟩
          obtain ⟨t, ht⟩ := hsent
          exact ⟨t, by rw [append_assoc, ht, take_append_drop]⟩

lemma rWrite_spec {fd : List Departure} (h : Interrupted fd) (buf : Bytes) :
    Interrupted (rWrite fd buf).fd ∧
      ((rWrite fd buf).ret = some (buf.length : ℤ) ∧ (rWrite fd buf).sent = buf ∨
        (rWrite fd buf).ret = none ∧ (rWrite fd buf).sent <+: buf) := by
  have hspec := rWriteLoop_spec h buf 0
  rwa [Nat.zero_add] at hspec

lemma readblockLoop_cases (h : Steady fd) (hn : n ≠ 0) (got : Bytes) :
    (fd = [] ∧ (readblockLoop fd n got).ret = (if got.length = 0 then 0 else -1) ∧
        (readblockLoop fd n got).fd = []) ∨
      ∃ (bs : Bytes) (fd' : List Arrival), Steady fd' ∧ bs.length ≤ n ∧
        fd'.length + (n - bs.length) < fd.length + n ∧ unread fd = bs ++ unread fd' ∧
        readblockLoop fd n got = readblockLoop fd' (n - bs.length) (got ++ bs) := by
  rw [readblockLoop, dif_neg hn]
  have hsteady := h.readFd n
  split
  · rename_i fd' hread
    obtain rfl := readFd_eq_nil (Nat.pos_of_ne_zero hn) h.arriving hread
    cases hread
    refine .inl ⟨rfl, ?_, ?_⟩
    · split <;> rfl
    · split <;> rfl
  · rename_i b bs fd' hread
    rw [hread] at hsteady
    exact .inr ⟨b :: bs, fd', hsteady, length_readFd_le hread, length_readFd_lt hn hread,
      unread_readFd hread, rfl⟩
  · rename_i errno fd' hread
    rw [hread] at hsteady
    obtain rfl := length_readFd_error hread
    have heintr : errno = EINTR := h.interrupted errno mem_cons_self
    refine .inr ⟨[], fd', hsteady, Nat.zero_le n, ?_, rfl, ?_⟩
    · simp
    · rw [if_pos heintr, append_nil]
      rfl

lemma readblockLoop_spec (h : Steady fd) (n : ℕ) (got : Bytes) :
    (n ≤ (unread fd).length → (readblockLoop fd n got).ret = ((got.length + n : ℕ) : ℤ) ∧
          (readblockLoop fd n got).got = got ++ (unread fd).take n ∧
          unread (readblockLoop fd n got).fd = (unread fd).drop n ∧
          Steady (readblockLoop fd n got).fd) ∧
      ((unread fd).length < n →
        (readblockLoop fd n got).ret ≤ 0 ∧ (readblockLoop fd n got).fd = []) := by
  -- every round takes an arrival off the list or leaves fewer bytes to read
  induction hm : fd.length + n using Nat.strong_induction_on generalizing fd n got with
  | _ m ih =>
    by_cases hn : n = 0
    · subst hn
      rw [readblockLoop, dif_pos rfl]
      exact ⟨fun _ => ⟨by simp, by simp, by simp, h⟩, fun hlt => absurd hlt (Nat.not_lt_zero _)⟩
    · obtain ⟨rfl, hret, hfd⟩ | ⟨bs, fd', hsteady, hle, hlt, hun, hloop⟩ :=
        readblockLoop_cases h hn got
      · refine ⟨fun hlen => absurd (Nat.le_zero.mp hlen) hn, fun _ => ⟨?_, hfd⟩⟩
        rw [hret]
        split <;> decide
      · obtain ⟨hfull, hshort⟩ := ih _ (hm ▸ hlt) hsteady (n - bs.length) (got ++ bs) rfl
        rw [hloop, hun]
        simp only [length_append]
        refine ⟨fun hlen => ?_, fun hlen => hshort (by omega)⟩
        obtain ⟨hret, hgot, hrest, hst⟩ := hfull (by omega)
        refine ⟨?_, ?_, ?_, hst⟩
        · rw [hret, length_append]
          congr 1
          omega
        · rw [hgot, append_assoc, take_append, take_of_length_le hle]
        · rw [hrest, drop_append, drop_of_length_le hle, nil_append]

lemma readblock_of_le (h : Steady fd) (size : ℕ) (hsize : size ≤ (unread fd).length) :
    (readblock fd size).ret = size ∧ (readblock fd size).got = (unread fd).take size ∧
      unread (readblock fd size).fd = (unread fd).drop size ∧ Steady (readblock fd size).fd := by
  obtain ⟨hret, hgot, hrest, hst⟩ := (readblockLoop_spec h size []).1 hsize
  refine ⟨?_, hgot, hrest, hst⟩
  rw [readblock, hret]
  simp

lemma readblock_of_lt (h : Steady fd) (size : ℕ) (hsize : (unread fd).length < size) :
    (readblock fd size).ret ≠ size ∧ (readblock fd size).fd = [] := by
  obtain ⟨hret, hfd⟩ := (readblockLoop_spec h size []).2 hsize
  refine ⟨fun heq => ?_, hfd⟩
  rw [readblock] at heq
  omega

end UnixPrograms.Restart
