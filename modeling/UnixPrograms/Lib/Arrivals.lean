import UnixPrograms.Lib.Files

/-!
# Bytes that arrive and leave in pieces

What successive calls of `read` find is a list of `Arrival`s, each a piece of the stream or an
error; a call that has room for a part of a piece leaves the rest.  What successive calls of `write`
do is a list of `Departure`s; at its end a call does not return any more.
-/

namespace UnixPrograms

open List

inductive Arrival where
  | bytes (bs : Bytes)
  | error (errno : ℤ)

def unread : List Arrival → Bytes
  | [] => []
  | .bytes bs :: as => bs ++ unread as
  | .error _ :: as => unread as

/-- No piece is empty: an empty one would look like the end of the stream. -/
def Arriving (as : List Arrival) : Prop := Arrival.bytes [] ∉ as

/-- `read(fd, buf, n)`: the bytes read or the `errno`, and what is left. -/
def readFd (n : ℕ) : List Arrival → Except ℤ Bytes × List Arrival
  | [] => (.ok [], [])
  | .bytes bs :: as =>
    if bs.length ≤ n then (.ok bs, as) else (.ok (bs.take n), .bytes (bs.drop n) :: as)
  | .error errno :: as => (.error errno, as)

variable {as as' : List Arrival} {bs : Bytes} {n : ℕ}

lemma Arriving.tail {a : Arrival} (h : Arriving (a :: as)) : Arriving as :=
  fun hmem => h (mem_cons_of_mem a hmem)

lemma Arriving.ne_nil (h : Arriving (.bytes bs :: as)) : bs ≠ [] := by
  rintro rfl
  exact h mem_cons_self

lemma unread_readFd (h : readFd n as = (.ok bs, as')) : unread as = bs ++ unread as' := by
  cases as with
  | nil =>
    cases h
    rfl
  | cons a as =>
    cases a with
    | bytes cs =>
      rw [readFd] at h
      split at h
      · cases h
        rfl
      · cases h
        rw [unread, unread, ← append_assoc, take_append_drop]
    | error errno => cases h

lemma readFd_eq_nil (hn : 0 < n) (has : Arriving as) (h : readFd n as = (.ok [], as')) :
    as = [] := by
  cases as with
  | nil => rfl
  | cons a as =>
    cases a with
    | bytes cs =>
      have hne := has.ne_nil
      have hpos := length_pos_iff.mpr hne
      rw [readFd] at h
      split at h
      · cases h
        exact absurd rfl hne
      · have htake : (cs.take n).length = 0 := by
          rw [Except.ok.inj (Prod.mk.inj h).1, length_nil]
        rw [length_take] at htake
        omega
    | error errno => cases h

lemma length_readFd_le (h : readFd n as = (.ok bs, as')) : bs.length ≤ n := by
  cases as with
  | nil =>
    cases h
    exact Nat.zero_le n
  | cons a as =>
    cases a with
    | bytes cs =>
      rw [readFd] at h
      split at h
      · cases h
        assumption
      · cases h
        exact length_take_le n cs
    | error errno => cases h

lemma Arriving.readFd (has : Arriving as) : Arriving (readFd n as).2 := by
  cases as with
  | nil => exact has
  | cons a as =>
    cases a with
    | bytes cs =>
      rw [UnixPrograms.readFd]
      split
      · exact has.tail
      · rename_i hlong
        intro hmem
        rcases mem_cons.mp hmem with heq | hmem
        · have hdrop : cs.drop n = [] := (Arrival.bytes.inj heq).symm
          rw [drop_eq_nil_iff] at hdrop
          exact hlong hdrop
        · exact has.tail hmem
    | error errno => exact has.tail

lemma error_mem_of_readFd {errno : ℤ} (h : Arrival.error errno ∈ (readFd n as).2) :
    Arrival.error errno ∈ as := by
  cases as with
  | nil => exact h
  | cons a as =>
    cases a with
    | bytes cs =>
      rw [readFd] at h
      split at h
      · exact mem_cons_of_mem _ h
      · rcases mem_cons.mp h with heq | h
        · cases heq
        · exact mem_cons_of_mem _ h
    | error e => exact mem_cons_of_mem _ h

lemma readFd_map_bytes (hn : 0 < n) {c : Bytes} {cs : List Bytes} (h : [] ∉ c :: cs) :
    ∃ cs' : List Bytes, readFd n ((c :: cs).map .bytes) = (.ok (c.take n), cs'.map .bytes) ∧
      [] ∉ cs' ∧
      c.take n ≠ [] ∧ (c :: cs).flatten = c.take n ++ cs'.flatten := by
  rw [mem_cons, not_or] at h
  have htake : c.take n ≠ [] := by
    rw [Ne, take_eq_nil_iff, not_or]
    exact ⟨Nat.pos_iff_ne_zero.mp hn, Ne.symm h.1⟩
  rw [map_cons, readFd]
  split
  · rename_i hlen
    rw [take_of_length_le hlen] at htake ⊢
    exact ⟨cs, rfl, h.2, htake, rfl⟩
  · rename_i hlen
    refine ⟨c.drop n :: cs, rfl, ?_, htake, ?_⟩
    · rw [mem_cons, not_or]
      refine ⟨fun hnil => hlen ?_, h.2⟩
      exact drop_eq_nil_iff.mp hnil.symm
    · rw [flatten_cons, flatten_cons, ← append_assoc, take_append_drop]

/-! ## Departures -/

inductive Departure where
  /-- The call accepts so many bytes, or all if there are fewer. -/
  | bytes (k : ℕ)
  | error (errno : ℤ)

/-- `write(fd, buf, n)` with the `n` bytes `bs` in the buffer: the number of bytes written, which
are the first ones, or the `errno`. -/
def writeFd (bs : Bytes) : Departure → Except ℤ ℕ
  | .bytes k => .ok (min k bs.length)
  | .error errno => .error errno

end UnixPrograms
