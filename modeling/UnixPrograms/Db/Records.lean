import UnixPrograms.Db.Model
import UnixPrograms.Lib.Blocks

/-!
# Records and lists of records

An index record together with its data record is a `Rec`, and a hash chain or the free list is a
pointer field followed by the records it leads to, with the blocks `cells`.  Unlinking and pushing a
record come down to which blocks two such lists share.
-/

namespace UnixPrograms.Db

open List

/-! ## Records -/

def chainOff (c : ℕ) : ℕ := c * ptrSz + hashOff

def recOff : ℕ := (nhashDef + 1) * ptrSz + 1

/-- An index record at the offset `off` and the data record it points to. -/
structure Rec where
  off : ℕ
  key : Bytes
  datoff : ℕ
  data : Bytes

def ptrField (n : ℕ) : Bytes := padLeft ptrSz (decimal n)

namespace Rec

def text (r : Rec) : Bytes :=
  r.key ++ sep :: decimal r.datoff ++ sep :: decimal (r.data.length + 1) ++ [newline]

def tail (r : Rec) : Bytes := padLeft idxlenSz (decimal r.text.length) ++ r.text

def idxCell (r : Rec) (next : ℕ) : Cell DbFile := .block .idx r.off (ptrField next ++ r.tail)

def datCell (r : Rec) : Cell DbFile := .block .dat r.datoff (r.data ++ [newline])

/-- A record that passes the checks of the library. -/
structure Valid (r : Rec) : Prop where
  le_off : recOff ≤ r.off
  off_le : (r.off : ℤ) ≤ ptrMax
  key_nul : (0 : UInt8) ∉ r.key
  data_nul : (0 : UInt8) ∉ r.data
  le_len : idxlenMin ≤ r.text.length
  len_le : r.text.length ≤ idxlenMax
  datlen_le : r.data.length + 1 ≤ datlenMax

variable {r : Rec}

lemma Valid.off_pos (hr : r.Valid) : 0 < r.off :=
  Nat.lt_of_lt_of_le (by decide) hr.le_off

lemma Valid.off_ne (hr : r.Valid) : (r.off : ℤ) ≠ 0 := by
  have hpos := hr.off_pos
  omega

def withData (r : Rec) (data : Bytes) : Rec := { r with data := data }

def blank (r : Rec) : Rec :=
  { r with key := List.replicate r.key.length space, data := List.replicate r.data.length space }

lemma length_text (r : Rec) : r.text.length =
    r.key.length + (decimal r.datoff).length + (decimal (r.data.length + 1)).length + 3 := by
  simp only [text, length_append, length_cons, length_nil]
  omega

lemma length_text_eq {q : Rec} (hkey : r.key.length = q.key.length) (hoff : r.datoff = q.datoff)
    (hdata : r.data.length = q.data.length) : r.text.length = q.text.length := by
  rw [length_text, length_text, hkey, hoff, hdata]

lemma length_text_blank (r : Rec) : r.blank.text.length = r.text.length :=
  length_text_eq (length_replicate ..) rfl (length_replicate ..)

lemma length_data_blank (r : Rec) : r.blank.data.length = r.data.length :=
  length_replicate ..

lemma Valid.blank (hr : r.Valid) : r.blank.Valid where
  le_off := hr.le_off
  off_le := hr.off_le
  key_nul h := absurd (eq_of_mem_replicate h) (by decide)
  data_nul h := absurd (eq_of_mem_replicate h) (by decide)
  le_len := by rw [length_text_blank]; exact hr.le_len
  len_le := by rw [length_text_blank]; exact hr.len_le
  datlen_le := by rw [length_data_blank]; exact hr.datlen_le

end Rec

lemma length_ptrField {n : ℕ} (hn : (n : ℤ) ≤ ptrMax) : (ptrField n).length = ptrSz := by
  refine length_padLeft (length_decimal_le (by decide) ?_)
  rw [ptrMax] at hn
  change n < 10 ^ 7
  omega

lemma atol_ptrField (n : ℕ) : atol (ptrField n) = n := by
  simpa [ptrField] using @atol_padLeft [] ptrSz n nofun

/-! ## Lists of records -/

def headOff : List Rec → ℕ
  | [] => 0
  | r :: _ => r.off

def body : List Rec → Multiset (Cell DbFile)
  | [] => 0
  | r :: rs => r.datCell ::ₘ r.idxCell (headOff rs) ::ₘ body rs

def cells (a : ℕ) (t : Bytes) (rs : List Rec) : Multiset (Cell DbFile) :=
  .block .idx a (ptrField (headOff rs) ++ t) ::ₘ body rs

def lastOff (a : ℕ) : List Rec → ℕ
  | [] => a
  | r :: rs => lastOff r.off rs

def lastTail (t : Bytes) : List Rec → Bytes
  | [] => t
  | r :: rs => lastTail r.tail rs

def front (a : ℕ) (t : Bytes) : List Rec → Multiset (Cell DbFile)
  | [] => 0
  | r :: rs => .block .idx a (ptrField r.off ++ t) ::ₘ r.datCell ::ₘ front r.off r.tail rs

lemma cells_append (a : ℕ) (t : Bytes) (pre post : List Rec) :
    cells a t (pre ++ post) = front a t pre + cells (lastOff a pre) (lastTail t pre) post := by
  induction pre generalizing a t with
  | nil => rw [nil_append, front, lastOff, lastTail, zero_add]
  | cons r pre ih =>
    have hbody : cells r.off r.tail (pre ++ post) =
        r.idxCell (headOff (pre ++ post)) ::ₘ body (pre ++ post) := rfl
    rw [cons_append, cells, headOff, body, ← hbody, ih, front, lastOff, lastTail,
      Multiset.cons_add, Multiset.cons_add]

lemma cells_append_cons (a : ℕ) (t : Bytes) (pre : List Rec) (r : Rec) (post : List Rec) :
    cells a t (pre ++ r :: post) =
      .block .idx (lastOff a pre) (ptrField r.off ++ lastTail t pre) ::ₘ r.datCell ::ₘ
        r.idxCell (headOff post) ::ₘ (front a t pre + body post) := by
  rw [cells_append, cells, headOff, body, Multiset.add_cons, Multiset.add_cons, Multiset.add_cons]

lemma cells_append_eq_cons (a : ℕ) (t : Bytes) (pre post : List Rec) :
    cells a t (pre ++ post) =
      .block .idx (lastOff a pre) (ptrField (headOff post) ++ lastTail t pre) ::ₘ
        (front a t pre + body post) := by
  rw [cells_append, cells, Multiset.add_cons]

lemma cells_cons (a : ℕ) (t : Bytes) (r : Rec) (rs : List Rec) :
    cells a t (r :: rs) =
      .block .idx a (ptrField r.off ++ t) ::ₘ r.datCell ::ₘ r.idxCell
        (headOff rs) ::ₘ body rs := rfl

lemma lastOff_concat (a : ℕ) (pre : List Rec) (r : Rec) : lastOff a (pre ++ [r]) = r.off := by
  induction pre generalizing a with
  | nil => rfl
  | cons q pre ih => exact ih q.off

/-! ## What a key stands for -/

def lookup (rs : List Rec) (key : Bytes) : Option Bytes :=
  (rs.find? (·.key = key)).map Rec.data

lemma lookup_cons (r : Rec) (rs : List Rec) (key : Bytes) :
    lookup (r :: rs) key = if r.key = key then some r.data else lookup rs key := by
  by_cases h : r.key = key <;> simp [lookup, h]

variable {key : Bytes} {rs post pre : List Rec} {r : Rec}

lemma lookup_eq_none_iff : lookup rs key = none ↔ ∀ r ∈ rs, r.key ≠ key := by
  simp [lookup]

lemma lookup_append_cons (hnd : ((pre ++ r :: post).map Rec.key).Nodup) :
    lookup (pre ++ r :: post) r.key = some r.data := by
  induction pre with
  | nil => simp [lookup_cons]
  | cons q pre ih =>
    rw [cons_append, map_cons, List.nodup_cons] at hnd
    have hq : q.key ≠ r.key := by
      intro hq
      exact hnd.1 (hq ▸ mem_map.mpr ⟨r, mem_append_right _ mem_cons_self, rfl⟩)
    rw [cons_append, lookup_cons, if_neg hq, ih hnd.2]

lemma lookup_append_cons_of_ne (h : r.key ≠ key) :
    lookup (pre ++ r :: post) key = lookup (pre ++ post) key := by
  induction pre with
  | nil => rw [nil_append, lookup_cons, if_neg h, nil_append]
  | cons q pre ih => rw [cons_append, cons_append, lookup_cons, lookup_cons, ih]

lemma lookup_append_of_nodup (hnd : ((pre ++ r :: post).map Rec.key).Nodup) :
    lookup (pre ++ post) r.key = none := by
  rw [lookup_eq_none_iff]
  intro q hq hkey
  rw [map_append, map_cons, nodup_middle, List.nodup_cons, ← map_append] at hnd
  exact hnd.1 (hkey ▸ mem_map.mpr ⟨q, hq, rfl⟩)

/-- What is found under the key by reading one record of the list after the other.  A record with a
separator in its key cannot be read. -/
def search : List Rec → Bytes → Except DbError (Option Bytes)
  | [], _ => .ok none
  | r :: rs, key =>
    if sep ∈ r.key then .error .readidxTooManySeps
    else if r.key = key then .ok (some r.data)
    else search rs key

lemma search_append (hpre : ∀ r ∈ pre, sep ∉ r.key ∧ r.key ≠ key) (post : List Rec) :
    search (pre ++ post) key = search post key := by
  induction pre with
  | nil => rfl
  | cons r pre ih =>
    obtain ⟨hsep, hkey⟩ := hpre r mem_cons_self
    rw [cons_append, search, if_neg hsep, if_neg hkey]
    exact ih fun q hq => hpre q (mem_cons_of_mem _ hq)

lemma lookup_of_search {d : Option Bytes} (h : search rs key = .ok d) : lookup rs key = d := by
  induction rs with
  | nil =>
    cases h
    rfl
  | cons r rs ih =>
    rw [search] at h
    rw [lookup_cons]
    split_ifs at h ⊢ with hsep hkey
    · cases h
      rfl
    · exact ih h

lemma search_eq_ok (hsep : ∀ r ∈ rs, sep ∉ r.key) (key : Bytes) :
    search rs key = .ok (lookup rs key) := by
  induction rs with
  | nil => rfl
  | cons r rs ih =>
    rw [search, if_neg (hsep r mem_cons_self), lookup_cons,
      ih fun q hq => hsep q (mem_cons_of_mem _ hq)]
    split_ifs <;> rfl

lemma notMem_sep_of_search {d : Bytes} (h : search rs key = .ok (some d)) : sep ∉ key := by
  induction rs with
  | nil => cases h
  | cons r rs ih =>
    rw [search] at h
    split_ifs at h with hsep hkey
    · exact hkey ▸ hsep
    · exact ih h

lemma search_eq_lookup {d : Option Bytes} (h : search rs key = .ok d) :
    search rs key = .ok (lookup rs key) := by
  rw [lookup_of_search h, h]

end UnixPrograms.Db
