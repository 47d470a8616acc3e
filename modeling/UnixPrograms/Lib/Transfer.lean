import UnixPrograms.Lib.Files
import UnixPrograms.Lib.Memory
import Mathlib.Data.List.Range

/-!
# Streams and the buffers between them

A `Source` is a stream that is read piece by piece and may go on for ever.  A `Buffer` is an array
with a pointer behind the last byte read into it and one to the next byte to be written out of it;
the bytes between the two are pending.
-/

namespace UnixPrograms

/-! ## Sources -/

abbrev Source := ℕ → Option UInt8

namespace Source

def bytes (s : Source) (pos n : ℕ) : Bytes := (List.range n).filterMap fun i => s (pos + i)

/-- The stream has not ended before it has given `n` bytes from the position `pos` on. -/
def Has (s : Source) (pos n : ℕ) : Prop := ∀ i < n, (s (pos + i)).isSome = true

instance (s : Source) (pos n : ℕ) : Decidable (s.Has pos n) :=
  inferInstanceAs (Decidable (∀ i < n, (s (pos + i)).isSome = true))

lemma length_bytes {s : Source} {pos n : ℕ} (h : s.Has pos n) : (s.bytes pos n).length = n := by
  induction n with
  | zero => rfl
  | succ n ih =>
    obtain ⟨b, hb⟩ := Option.isSome_iff_exists.mp (h n (Nat.lt_succ_self n))
    have hlen := ih fun i hi => h i (Nat.lt_succ_of_lt hi)
    rw [bytes, List.range_succ, List.filterMap_append, List.length_append]
    rw [bytes] at hlen
    simp [hlen, hb]

lemma bytes_add (s : Source) (n k : ℕ) : s.bytes 0 (n + k) = s.bytes 0 n ++ s.bytes n k := by
  simp only [bytes, List.range_add, List.filterMap_append, List.filterMap_map, Nat.zero_add]
  rfl

end Source

/-! ## Buffers -/

/-- An array with the pointers for reading into it and for writing out of it, as indices. -/
structure Buffer where
  mem : Mem
  iptr : ℕ
  optr : ℕ

namespace Buffer

def pending (b : Buffer) : Bytes := readBytes b.mem b.optr (b.iptr - b.optr)

def fill (b : Buffer) (bs : Bytes) : Buffer :=
  { b with mem := writeBytes b.mem b.iptr bs, iptr := b.iptr + bs.length }

/-- The first `k` of the pending bytes have been written; an empty buffer starts again at the
beginning of the array. -/
def drain (b : Buffer) (k : ℕ) : Buffer :=
  if b.optr + k = b.iptr then { b with iptr := 0, optr := 0 } else { b with optr := b.optr + k }

/-- The pointers are in order and inside the buffer. -/
structure Within (b : Buffer) (size : ℕ) : Prop where
  optr_le : b.optr ≤ b.iptr
  iptr_le : b.iptr ≤ size

variable {b : Buffer} {size : ℕ}

@[simp] lemma length_pending (b : Buffer) : b.pending.length = b.iptr - b.optr :=
  length_readBytes _ _ _

lemma pending_eq_nil_iff (h : b.Within size) : b.pending = [] ↔ b.optr = b.iptr := by
  have hle := h.optr_le
  rw [← List.length_eq_zero_iff, length_pending]
  omega

lemma pending_fill (h : b.Within size) (bs : Bytes) : (b.fill bs).pending = b.pending ++ bs := by
  have hle := h.optr_le
  have hsplit : b.iptr + bs.length - b.optr = (b.iptr - b.optr) + bs.length := by omega
  simp only [pending, fill]
  rw [hsplit, readBytes_add, Nat.add_sub_of_le hle, readBytes_writeBytes,
    readBytes_writeBytes_of_apart b.mem (.inl (by omega))]

lemma Within.fill (h : b.Within size) {bs : Bytes} (hroom : b.iptr + bs.length ≤ size) :
    (b.fill bs).Within size :=
  ⟨h.optr_le.trans (Nat.le_add_right _ _), hroom⟩

lemma pending_drain {k : ℕ} (hk : k ≤ b.iptr - b.optr) :
    b.pending = readBytes b.mem b.optr k ++ (b.drain k).pending := by
  have hsplit : b.iptr - b.optr = k + (b.iptr - (b.optr + k)) := by omega
  rw [pending, hsplit, readBytes_add, drain]
  split
  · rename_i heq
    rw [heq, Nat.sub_self]
    rfl
  · rfl

lemma Within.drain (h : b.Within size) {k : ℕ} (hk : k ≤ b.iptr - b.optr) :
    (b.drain k).Within size := by
  obtain ⟨hle, hsize⟩ := h
  unfold Buffer.drain
  split
  · exact ⟨Nat.le_refl 0, Nat.zero_le size⟩
  · exact ⟨show b.optr + k ≤ b.iptr by omega, hsize⟩

lemma drain_optr_eq_iff (b : Buffer) (k : ℕ) :
    (b.drain k).optr = (b.drain k).iptr ↔ b.optr + k = b.iptr := by
  unfold drain
  split <;> simp_all

end Buffer

end UnixPrograms
