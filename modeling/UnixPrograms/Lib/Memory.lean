import Mathlib.Data.List.Basic
import Mathlib.Tactic.Ring
import Mathlib.Tactic.Linarith

/-!
# Byte memory with little-endian fields

A memory is a function from addresses to bytes, with integer fields of a fixed width.  A field reads
back what was written to it, and a write leaves every disjoint range as it was.
-/

namespace UnixPrograms

abbrev Mem := ℕ → UInt8

def readBytes (m : Mem) (a n : ℕ) : List UInt8 := (List.range n).map fun i => m (a + i)

def writeBytes (m : Mem) (a : ℕ) (bs : List UInt8) : Mem :=
  fun x => if a ≤ x ∧ x < a + bs.length then bs.getD (x - a) 0 else m x

/-- The ranges `a..a + n` and `b..b + k` do not meet. -/
def Apart (a n b k : ℕ) : Prop := a + n ≤ b ∨ b + k ≤ a

@[simp] lemma length_readBytes (m : Mem) (a n : ℕ) : (readBytes m a n).length = n := by
  simp [readBytes]

lemma readBytes_add (m : Mem) (a n k : ℕ) :
    readBytes m a (n + k) = readBytes m a n ++ readBytes m (a + n) k := by
  simp [readBytes, List.range_add, Nat.add_assoc]

@[simp] lemma readBytes_writeBytes (m : Mem) (a : ℕ) (bs : List UInt8) :
    readBytes (writeBytes m a bs) a bs.length = bs := by
  refine List.ext_getElem (by simp) fun i h₁ h₂ => ?_
  simp [readBytes, writeBytes, h₂]

variable {a n b v k : ℕ}

lemma readBytes_writeBytes_of_apart (m : Mem) {bs : List UInt8} (h : Apart a n b bs.length) :
    readBytes (writeBytes m b bs) a n = readBytes m a n := by
  unfold readBytes
  refine List.map_congr_left fun i hi => ?_
  have hi' : i < n := List.mem_range.mp hi
  have hout : ¬ (b ≤ a + i ∧ a + i < b + bs.length) := by
    rcases h with h | h <;> omega
  rw [writeBytes, if_neg hout]

def encodeLE : ℕ → ℕ → List UInt8
  | 0, _ => []
  | n + 1, v => UInt8.ofNat (v % 256) :: encodeLE n (v / 256)

def decodeLE : List UInt8 → ℕ
  | [] => 0
  | b :: bs => b.toNat + 256 * decodeLE bs

@[simp] lemma length_encodeLE (n v : ℕ) : (encodeLE n v).length = n := by
  induction n generalizing v with
  | zero => rfl
  | succ n ih => simp [encodeLE, ih]

lemma decodeLE_encodeLE (h : v < 256 ^ n) : decodeLE (encodeLE n v) = v := by
  induction n generalizing v with
  | zero =>
    have hv : v = 0 := by omega
    subst hv
    rfl
  | succ n ih =>
    have hdiv : v / 256 < 256 ^ n := by
      rw [Nat.div_lt_iff_lt_mul (by norm_num)]
      rwa [pow_succ] at h
    have hbyte : (UInt8.ofNat (v % 256)).toNat = v % 256 := by simp
    rw [encodeLE, decodeLE, ih hdiv, hbyte]
    exact Nat.mod_add_div v 256

/-! ## Fields -/

def getField (n : ℕ) (m : Mem) (a : ℕ) : ℕ := decodeLE (readBytes m a n)

def setField (n : ℕ) (m : Mem) (a v : ℕ) : Mem := writeBytes m a (encodeLE n v)

lemma getField_setField (m : Mem) (a : ℕ) (h : v < 256 ^ n) :
    getField n (setField n m a v) a = v := by
  have hread := readBytes_writeBytes m a (encodeLE n v)
  rw [length_encodeLE] at hread
  rw [getField, setField, hread, decodeLE_encodeLE h]

lemma getField_setField_of_apart (m : Mem) (h : Apart a n b k) :
    getField n (setField k m b v) a = getField n m a := by
  rw [getField, setField, readBytes_writeBytes_of_apart m (by rwa [length_encodeLE]), getField]

lemma getField_writeBytes_of_apart (m : Mem) {bs : List UInt8} (h : Apart a n b bs.length) :
    getField n (writeBytes m b bs) a = getField n m a := by
  rw [getField, readBytes_writeBytes_of_apart m h, getField]

lemma readBytes_setField_of_apart (m : Mem) (h : Apart a n b k) :
    readBytes (setField k m b v) a n = readBytes m a n :=
  readBytes_writeBytes_of_apart m (by rwa [length_encodeLE])

lemma setField_comm (m : Mem) {w : ℕ} (h : Apart a n b k) :
    setField n (setField k m b w) a v = setField k (setField n m a v) b w := by
  funext x
  have hne : ¬ ((a ≤ x ∧ x < a + n) ∧ (b ≤ x ∧ x < b + k)) := by
    rcases h with h | h <;> omega
  simp only [setField, writeBytes, length_encodeLE]
  split <;> split <;> simp_all

def toSigned (n v : ℕ) : ℤ := if 2 * v < 256 ^ n then v else (v : ℤ) - 256 ^ n

def ofSigned (n : ℕ) (v : ℤ) : ℕ := (v % (256 ^ n : ℕ)).toNat

def getSigned (n : ℕ) (m : Mem) (a : ℕ) : ℤ := toSigned n (getField n m a)

def setSigned (n : ℕ) (m : Mem) (a : ℕ) (v : ℤ) : Mem := setField n m a (ofSigned n v)

lemma ofSigned_lt (n : ℕ) (v : ℤ) : ofSigned n v < 256 ^ n := by
  have hpos : (0 : ℤ) < (256 ^ n : ℕ) := by positivity
  have h1 := Int.emod_nonneg v hpos.ne'
  have h2 := Int.emod_lt_of_pos v hpos
  unfold ofSigned
  omega

lemma toSigned_ofSigned {v : ℤ} (hlo : -(256 ^ n : ℕ) ≤ 2 * v) (hhi : 2 * v < (256 ^ n : ℕ)) :
    toSigned n (ofSigned n v) = v := by
  have hpos : (0 : ℤ) < (256 ^ n : ℕ) := by positivity
  have hmod := Int.emod_nonneg v hpos.ne'
  unfold toSigned ofSigned
  rcases lt_or_ge v 0 with hneg | hnn
  · have hval : v % (256 ^ n : ℕ) = v + (256 ^ n : ℕ) := by
      rw [← Int.add_emod_right, Int.emod_eq_of_lt (by omega) (by omega)]
    rw [hval] at hmod ⊢
    have hbig : ¬ 2 * (v + (256 ^ n : ℕ)).toNat < 256 ^ n := by omega
    rw [if_neg hbig, Int.toNat_of_nonneg hmod]
    push_cast
    ring
  · have hval : v % (256 ^ n : ℕ) = v := Int.emod_eq_of_lt hnn (by omega)
    rw [hval]
    have hsmall : 2 * v.toNat < 256 ^ n := by omega
    rw [if_pos hsmall, Int.toNat_of_nonneg hnn]

/-- A number brought into the range of a signed field of `n` bytes. -/
def wrapSigned (n : ℕ) (v : ℤ) : ℤ := toSigned n (ofSigned n v)

lemma wrapSigned_natCast {v : ℕ} (h : v < 2 ^ 31) : wrapSigned 4 v = v :=
  toSigned_ofSigned (by omega) (by omega)

lemma wrapSigned_lt (v : ℤ) : 2 * wrapSigned n v < (256 ^ n : ℕ) := by
  have hlt : (ofSigned n v : ℤ) < 256 ^ n := by exact_mod_cast ofSigned_lt n v
  unfold wrapSigned toSigned
  split
  · omega
  · push_cast
    omega

lemma wrapSigned_natCast_le (v : ℕ) : wrapSigned n v ≤ v := by
  have hmod : ofSigned n v ≤ v := by
    rw [ofSigned, ← Int.natCast_mod, Int.toNat_natCast]
    exact Nat.mod_le _ _
  have hpos : (0 : ℤ) < 256 ^ n := by positivity
  unfold wrapSigned toSigned
  split
  · omega
  · omega

lemma wrapSigned_emod (n : ℕ) (v : ℤ) : wrapSigned n v % (256 ^ n : ℕ) = v % (256 ^ n : ℕ) := by
  have hpos : (0 : ℤ) < (256 ^ n : ℕ) := by positivity
  have hcast : ((ofSigned n v : ℕ) : ℤ) = v % (256 ^ n : ℕ) :=
    Int.toNat_of_nonneg (Int.emod_nonneg v hpos.ne')
  unfold wrapSigned toSigned
  split
  · rw [hcast, Int.emod_emod_of_dvd _ dvd_rfl]
  · have hsub : ((ofSigned n v : ℕ) : ℤ) - 256 ^ n = v % (256 ^ n : ℕ) - (256 ^ n : ℕ) := by
      rw [hcast]
      push_cast
      ring
    rw [hsub, Int.sub_emod_right, Int.emod_emod_of_dvd _ dvd_rfl]

lemma wrapSigned_add (n : ℕ) (v d : ℤ) :
    wrapSigned n (wrapSigned n v + d) = wrapSigned n (v + d) := by
  have hmod : (wrapSigned n v + d) % (256 ^ n : ℕ) = (v + d) % (256 ^ n : ℕ) := by
    rw [Int.add_emod, wrapSigned_emod, ← Int.add_emod]
  rw [wrapSigned, ofSigned, hmod]
  rfl

lemma getSigned_setSigned_wrap (m : Mem) (a n : ℕ) (v : ℤ) :
    getSigned n (setSigned n m a v) a = wrapSigned n v := by
  rw [getSigned, setSigned, getField_setField m a (ofSigned_lt n v), wrapSigned]

lemma getSigned_setSigned (m : Mem) (a : ℕ) {v : ℤ} (hlo : -(256 ^ n : ℕ) ≤ 2 * v)
    (hhi : 2 * v < (256 ^ n : ℕ)) : getSigned n (setSigned n m a v) a = v := by
  rw [getSigned_setSigned_wrap, wrapSigned, toSigned_ofSigned hlo hhi]

end UnixPrograms
