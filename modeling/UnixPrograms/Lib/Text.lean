import UnixPrograms.Lib.Files
import Mathlib.Data.Nat.Digits.Lemmas

/-!
# Numbers as text and strings in buffers

What `sprintf` writes for a number, what `atol` makes of it, and the strings that a buffer holds up
to its first null byte.
-/

namespace UnixPrograms

open List

def chr (c : Char) : UInt8 := UInt8.ofNat c.toNat

def ascii (s : String) : Bytes := s.toList.map fun c => UInt8.ofNat c.toNat

def digitChar (d : ℕ) : UInt8 := UInt8.ofNat (48 + d)

def decimal (n : ℕ) : Bytes :=
  if n = 0 then [digitChar 0] else (Nat.digits 10 n).reverse.map digitChar

def decimalInt (v : ℤ) : Bytes := if v < 0 then 45 :: decimal v.natAbs else decimal v.natAbs

def padLeft (width : ℕ) (s : Bytes) : Bytes := List.replicate (width - s.length) 32 ++ s

def isDigit (c : UInt8) : Bool := decide (48 ≤ c ∧ c ≤ 57)

def isSpace (c : UInt8) : Bool := decide (c = 32 ∨ (9 ≤ c ∧ c ≤ 13))

def digitsValue (s : Bytes) : ℕ :=
  (s.takeWhile isDigit).foldl (fun acc c => 10 * acc + (c.toNat - 48)) 0

/-- The number at the front of a string, after white space and an optional sign.  The range of a
`long` is not modelled. -/
def atol (s : Bytes) : ℤ :=
  match s.dropWhile isSpace with
  | 45 :: ds => -(digitsValue ds : ℤ)
  | 43 :: ds => digitsValue ds
  | ds => digitsValue ds

def cstr (buf : Bytes) : Bytes := buf.takeWhile (· ≠ 0)

/-- A string that can be passed to a function: bytes without a null byte. -/
abbrev CString := { s : Bytes // (0 : UInt8) ∉ s }

def strchr (buf : Bytes) (c : UInt8) : Option ℕ := (cstr buf).findIdx? (· = c)

/-! ## Decimal numbers -/

lemma toNat_digitChar {d : ℕ} (hd : d < 10) : (digitChar d).toNat = 48 + d := by
  rw [digitChar, UInt8.toNat_ofNat']
  omega

lemma isDigit_digitChar {d : ℕ} (hd : d < 10) : isDigit (digitChar d) = true := by
  have hnat := toNat_digitChar hd
  rw [isDigit, decide_eq_true_eq, UInt8.le_iff_toNat_le, UInt8.le_iff_toNat_le, hnat]
  exact ⟨Nat.le_add_right 48 d, by change 48 + d ≤ 57; omega⟩

variable {c : UInt8} {s rest : Bytes}

lemma isDigit_of_mem_decimal {n : ℕ} (hc : c ∈ decimal n) : isDigit c = true := by
  rw [decimal] at hc
  split at hc
  · rw [mem_singleton] at hc
    exact hc ▸ isDigit_digitChar (by omega)
  · obtain ⟨d, hd, rfl⟩ := mem_map.mp hc
    exact isDigit_digitChar (Nat.digits_lt_base (by omega) (mem_reverse.mp hd))

lemma decimal_ne_nil (n : ℕ) : decimal n ≠ [] := by
  rw [decimal]
  split
  · exact cons_ne_nil _ _
  · rename_i hn
    simpa using Nat.digits_ne_nil_iff_ne_zero.mpr hn

lemma length_decimal_le {n k : ℕ} (hk : 0 < k) (hn : n < 10 ^ k) : (decimal n).length ≤ k := by
  rw [decimal]
  split
  · exact hk
  · rw [length_map, length_reverse]
    exact (Nat.digits_length_le_iff (by omega) n).mpr hn

lemma length_padLeft {width : ℕ} (h : s.length ≤ width) : (padLeft width s).length = width := by
  rw [padLeft, length_append, length_replicate]
  omega

lemma foldl_decimal (n : ℕ) : (decimal n).foldl (fun acc c => 10 * acc + (c.toNat - 48)) 0 = n := by
  rw [decimal]
  split
  · rename_i hn
    simp [hn, toNat_digitChar]
  · rw [foldl_map, foldl_reverse]
    conv_rhs => rw [← Nat.ofDigits_digits 10 n, Nat.ofDigits_eq_foldr]
    refine foldr_ext _ _ _ fun d hd acc => ?_
    rw [toNat_digitChar (Nat.digits_lt_base (by omega) hd)]
    simp only [Nat.cast_id]
    omega

lemma digitsValue_decimal (n : ℕ) (hrest : ∀ c, rest.head? = some c → isDigit c = false) :
    digitsValue (decimal n ++ rest) = n := by
  have htake : (decimal n ++ rest).takeWhile isDigit = decimal n := by
    rw [takeWhile_append_of_pos fun c hc => isDigit_of_mem_decimal hc]
    cases rest with
    | nil => simp
    | cons c cs => simp [hrest c rfl]
  rw [digitsValue, htake, foldl_decimal]

lemma isSpace_of_isDigit (hc : isDigit c = true) : isSpace c = false := by
  simp only [isDigit, isSpace, decide_eq_true_eq, decide_eq_false_iff_not, UInt8.le_iff_toNat_le,
    ← UInt8.toNat_inj] at hc ⊢
  have h48 : (48 : UInt8).toNat = 48 := rfl
  have h32 : (32 : UInt8).toNat = 32 := rfl
  have h13 : (13 : UInt8).toNat = 13 := rfl
  omega

lemma atol_padLeft (width n : ℕ) (hrest : ∀ c, rest.head? = some c → isDigit c = false) :
    atol (padLeft width (decimal n) ++ rest) = n := by
  obtain ⟨c, cs, hdec⟩ := exists_cons_of_ne_nil (decimal_ne_nil n)
  have hc : isDigit c = true := isDigit_of_mem_decimal (n := n) (hdec ▸ mem_cons_self)
  have hdrop : (padLeft width (decimal n) ++ rest).dropWhile isSpace = decimal n ++ rest := by
    rw [padLeft, append_assoc, dropWhile_append_of_pos]
    · rw [hdec, cons_append, dropWhile_cons_of_neg (by simp [isSpace_of_isDigit hc])]
    · intro a ha
      rw [eq_of_mem_replicate ha]
      rfl
  have hval := digitsValue_decimal n hrest
  rw [atol, hdrop]
  rw [hdec, cons_append] at hval ⊢
  split
  · rename_i ds heq
    obtain ⟨rfl, -⟩ := List.cons.inj heq
    exact absurd hc (by decide)
  · rename_i ds heq
    obtain ⟨rfl, -⟩ := List.cons.inj heq
    exact absurd hc (by decide)
  · rw [hval]

lemma atol_decimal (n : ℕ) (hrest : ∀ c, rest.head? = some c → isDigit c = false) :
    atol (decimal n ++ rest) = n := by
  simpa [padLeft] using atol_padLeft 0 n hrest

lemma decimalInt_natCast (n : ℕ) : decimalInt (n : ℤ) = decimal n := by
  rw [decimalInt, if_neg (by omega), Int.natAbs_natCast]

/-! ## Strings in buffers -/

lemma takeWhile_append_stop {p : UInt8 → Bool} (hs : ∀ a ∈ s, p a = true) (hc : p c = false)
    (rest : Bytes) : (s ++ c :: rest).takeWhile p = s := by
  rw [takeWhile_append_of_pos hs, takeWhile_cons_of_neg (by simp [hc]), append_nil]

lemma append_stop_inj {p : UInt8 → Bool} {t u v : Bytes} (hs : ∀ a ∈ s, p a = true)
    (ht : ∀ a ∈ t, p a = true) (hc : p c = false) (h : s ++ c :: u = t ++ c :: v) :
    s = t ∧ u = v := by
  have hst : s = t := by
    rw [← takeWhile_append_stop hs hc u, h, takeWhile_append_stop ht hc v]
  subst hst
  exact ⟨rfl, cons_injective (append_cancel_left h)⟩

lemma decide_ne_of_notMem (hs : c ∉ s) : ∀ a ∈ s, decide (a ≠ c) = true := by
  intro a ha
  simpa using fun h : a = c => hs (h ▸ ha)

lemma append_sep_inj {t u v : Bytes} (hs : c ∉ s) (ht : c ∉ t) (h : s ++ c :: u = t ++ c :: v) :
    s = t ∧ u = v :=
  append_stop_inj (decide_ne_of_notMem hs) (decide_ne_of_notMem ht) (by simp) h

lemma cstr_append (hs : (0 : UInt8) ∉ s) (rest : Bytes) : cstr (s ++ 0 :: rest) = s :=
  takeWhile_append_stop (decide_ne_of_notMem hs) (by simp) rest

lemma strchr_append (hs : (0 : UInt8) ∉ s) (hc : c ∉ s) (hc0 : c ≠ 0) :
    strchr (s ++ c :: rest) c = some s.length := by
  rw [strchr, cstr, takeWhile_append_of_pos (decide_ne_of_notMem hs),
    takeWhile_cons_of_pos (by simpa using hc0),
    List.findIdx?_append]
  have hnone : s.findIdx? (fun a => decide (a = c)) = none := by
    rw [List.findIdx?_eq_none_iff]
    intro a ha
    simpa using fun h : a = c => hc (h ▸ ha)
  simp [hnone, List.findIdx?_cons]

lemma strchr_eq_none {buf : Bytes} (hc : c ∉ cstr buf) : strchr buf c = none := by
  rw [strchr, List.findIdx?_eq_none_iff]
  intro a ha
  simpa using fun h : a = c => hc (h ▸ ha)

end UnixPrograms
