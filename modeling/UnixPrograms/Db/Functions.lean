import UnixPrograms.Db.Records
import UnixPrograms.Lib.Ownership

/-!
# The functions that read and write records

The locks of the database and what they protect, and one rule for each function that touches the
files, followed by the rest of the program.  The rules leave the file offsets open, because every
function seeks first.
-/

namespace UnixPrograms.Db

open Function List Prog Rec

/-! ## The locks -/

inductive Lock
  | free
  | idxTail
  | datTail
  deriving DecidableEq

instance : Fintype Lock := ⟨{.free, .idxTail, .datTail}, fun l => by cases l <;> decide⟩

/-- What the locks protect: each hash chain, the free list, and the ends of the two files. -/
abbrev Res := Fin nhashDef ⊕ Lock

/-- The records of the hash chain `c`. -/
structure Chain (K : Bytes → Prop) (c : ℕ) (rs : List Rec) : Prop where
  valid : ∀ r ∈ rs, r.Valid
  allowed : ∀ r ∈ rs, K r.key
  hash : ∀ r ∈ rs, dbHash nhashDef r.key = c
  nodup : (rs.map key).Nodup

/-- The records of the free list: their keys are blank. -/
structure FreeList (rs : List Rec) : Prop where
  valid : ∀ r ∈ rs, r.Valid
  blank : ∀ r ∈ rs, ∀ c ∈ r.key, c = space

/-- The locks of the database, on the first bytes of the pointers in the table and on everything
behind the table, for the ends of the files. -/
def protocol (K : Bytes → Prop) : Protocol DbFile Res (List Rec) where
  file
    | .inl _ | .inr .free | .inr .idxTail => .idx
    | .inr .datTail => .dat
  start
    | .inl c => chainOff c
    | .inr .free => freeOff
    | .inr .idxTail => recOff
    | .inr .datTail => 0
  len
    | .inl _ | .inr .free => 1
    | .inr .idxTail | .inr .datTail => 0
  rank
    | .inl _ => 0
    | .inr _ => 1
  inv
    | .inl c, rs, cs => cs = cells (chainOff c) [] rs ∧ Chain K c rs
    | .inr .free, rs, cs => cs = cells freeOff [] rs ∧ FreeList rs
    | .inr .idxTail, _, cs => ∃ n, recOff ≤ n ∧ cs = {.eof .idx n}
    | .inr .datTail, _, cs => ∃ n, cs = {.eof .dat n}
  apart := by
    rintro (c | r) (c' | r') b hfile hb hb'
    · have hc : (c : ℕ) = c' := by
        simp only [InRange, chainOff, ptrSz, hashOff] at hb hb'
        omega
      rw [Fin.ext hc]
    · have hlt := c.isLt
      cases r' <;> simp only [InRange, chainOff, ptrSz, hashOff, freeOff, recOff, nhashDef]
        at hb hb' hlt
      · omega
      · omega
      · cases hfile
    · have hlt := c'.isLt
      cases r <;> simp only [InRange, chainOff, ptrSz, hashOff, freeOff, recOff, nhashDef]
        at hb hb' hlt
      · omega
      · omega
      · cases hfile
    · cases r <;> cases r' <;> first
        | rfl
        | exact DbFile.noConfusion hfile
        | (simp only [InRange, freeOff, recOff, ptrSz, nhashDef] at hb hb'; omega)

section Rules

variable {K : Bytes → Prop} {α : Type} {P : Protocol DbFile Res (List Rec)}
  {Φ : α → Option (Res × List Rec × List Rec) → Prop}
  {Ψ : DbError → Holding DbFile Res (List Rec) → Prop} {own view : Multiset (Cell DbFile)}
  {pos : DbFile → ℕ} {held : Res → Option (LockMode × List Rec)} {atEnd : DbFile → Bool}
  {noted : List (DbFile × ℕ)} {db : DB}

/-! ## Pointers -/

variable {n next : ℕ} {r : Rec} {k : DB → DbProg α}

lemma safe_dbReadptr {k : ℤ → DbProg α} {o : ℕ} {t : Bytes}
    (hb : .block .idx o (ptrField n ++ t) ∈ own + view) (hn : (n : ℤ) ≤ ptrMax)
    (hk : ∀ pos, Safe P Φ Ψ (k n) ⟨own, view, pos, held, atEnd, noted⟩) :
    Safe P Φ Ψ ((dbReadptr o).bind k) ⟨own, view, pos, held, atEnd, noted⟩ := by
  have hlen : (ptrField n).length = ptrSz := length_ptrField hn
  have hread : readAt (ptrField n ++ t) 0 ptrSz = ptrField n := by
    rw [readAt, drop_zero, ← hlen, take_left]
  simp only [dbReadptr, lseek, read, bind_eq, bind_assoc, perform_bind, call_bind,
    pure_eq_ret, ret_bind]
  refine .lseekSet (Int.natCast_nonneg o) rfl ?_
  rw [require_bind_of_true _ (by omega)]
  refine .read (i := 0) hb (by simp) (by rw [length_append, hlen]; omega) hread ?_
  rw [require_bind_of_true _ hlen, atol_ptrField]
  exact hk _

lemma safe_dbWriteptr {k : Unit → DbProg α} {o m : ℕ} {t : Bytes} (rest : Multiset (Cell DbFile))
    (hown : own = .block .idx o (ptrField m ++ t) ::ₘ rest) (hm : (m : ℤ) ≤ ptrMax)
    (hn : (n : ℤ) ≤ ptrMax)
    (hk : ∀ pos, Safe P Φ Ψ (k ()) ⟨.block .idx o (ptrField n ++ t) ::ₘ rest, view, pos, held,
      atEnd, noted⟩) :
    Safe P Φ Ψ ((dbWriteptr o n).bind k) ⟨own, view, pos, held, atEnd, noted⟩ := by
  have hlenm : (ptrField m).length = ptrSz := length_ptrField hm
  have hlenn : (ptrField n).length = ptrSz := length_ptrField hn
  have hfield : padLeft ptrSz (decimalInt n) = ptrField n := by rw [decimalInt_natCast, ptrField]
  have hwrite : writeAt (ptrField m ++ t) 0 (padLeft ptrSz (decimalInt n)) = ptrField n ++ t := by
    rw [hfield, writeAt_append _ _ _ (hlenm.trans hlenn.symm)]
  rw [← hfield] at hlenn
  subst hown
  simp only [dbWriteptr, lseek, write, bind_eq, bind_assoc, perform_bind, call_bind]
  rw [require_bind_of_true _ ⟨Int.natCast_nonneg n, hn⟩]
  refine .lseekSet (Int.natCast_nonneg o) rfl ?_
  rw [require_bind_of_true _ (by omega)]
  refine .write (i := 0) (by simp) (by rw [length_append, hlenm, hlenn]; omega) hwrite ?_
  rw [require_bind_of_true _ hlenn]
  exact hk _

lemma safe_dbWriteptr_of_lt {k : Unit → DbProg α} {o : ℤ} (hn : ptrMax < n)
    (hbad : Ψ (.writeptrPtr n) ⟨own, view, pos, held, atEnd, noted⟩) :
    Safe P Φ Ψ ((dbWriteptr o n).bind k) ⟨own, view, pos, held, atEnd, noted⟩ := by
  simp only [dbWriteptr, bind_eq, bind_assoc]
  rw [require_bind_of_false _ (by omega)]
  exact .fail hbad

/-! ## The ends of the files -/

lemma update_update_self {β : Type} {R : Type} [DecidableEq R] {f : R → β} {r : R} {x y : β}
    (h : f r = y) : update (update f r x) r y = f := by
  rw [update_idem, ← h, update_eq_self]

lemma safe_tail {k : ℤ → DbProg α} {l : Lock} {fd : DbFile} {start m len : ℕ} {bs d : Bytes}
    {e₁ e₂ : DbError} (hat : (protocol K).At (.inr l) fd start 0)
    (hinv : ∀ g cs, (protocol K).inv (.inr l) g cs ↔ ∃ n, m ≤ n ∧ cs = {.eof fd n})
    (hheld : ∀ l, held (.inr l) = none) (hchain : ∃ c, held (.inl c) ≠ none)
    (hend : ∀ fd, atEnd fd = false) (hbs : bs ≠ []) (hd : bs = d) (hlen : bs.length = len)
    (hk : ∀ (n : ℕ) pos, m ≤ n → Safe (protocol K) Φ Ψ (k n)
      ⟨.block fd n d ::ₘ own, view, pos, held, atEnd, []⟩) :
    Safe (protocol K) Φ Ψ
      (.call (.setlkw fd .write start 0) fun _ => .call (.lseek fd 0 .seekEnd) fun o =>
        (require (o ≠ -1) e₁).bind fun _ => .call (.write fd bs) fun n =>
          (require (n = len) e₂).bind fun _ => .call (.unlck fd start 0) fun _ => k o)
      ⟨own, view, pos, held, atEnd, []⟩ := by
  have hrank : ∀ r', held r' ≠ none → (protocol K).rank r' < (protocol K).rank (.inr l) := by
    rintro (c | l') hr'
    · exact Nat.zero_lt_one
    · exact absurd (hheld l') hr'
  refine .lockWrite (.inr l) hat hrank fun g cs hcs => ?_
  obtain ⟨n, hn, rfl⟩ := (hinv g cs).mp hcs
  rw [Multiset.singleton_add]
  refine .lseekEnd (Multiset.mem_cons_self _ _) (hend fd) ?_
  have hn0 : (n : ℤ) ≠ -1 := by omega
  rw [require_bind_of_true _ hn0]
  refine .append (update_self ..) hbs hd ?_
  rw [require_bind_of_true _ hlen]
  obtain ⟨c, hc⟩ := hchain
  have hback : update (update atEnd fd true) fd false = atEnd := update_update_self (hend fd)
  rw [hback]
  refine .unlock (.inr l) g hat (update_self ..) ⟨.inl c, Sum.inl_ne_inr, ?_⟩ ?_ hend
    (Multiset.singleton_add _ _).symm ((hinv g _).mpr ⟨n + d.length, by omega, rfl⟩) nofun ?_
  · rw [update_of_ne Sum.inl_ne_inr]
    exact hc
  · intro r' hne hr'
    rw [update_of_ne hne] at hr'
    exact hrank r' hr'
  · rw [update_update_self (hheld l)]
    exact hk n _ hn

/-! ## Data records -/

lemma safe_dbReaddat {k : Bytes × DB → DbProg α} (hr : r.Valid) (hb : r.datCell ∈ own + view)
    (hoff : db.datoff = r.datoff) (hlen : db.datlen = r.data.length + 1)
    (hk : ∀ pos, Safe P Φ Ψ (k (r.data, { db with datbuf := r.data ++ [0] }))
      ⟨own, view, pos, held, atEnd, noted⟩) :
    Safe P Φ Ψ ((dbReaddat db).bind k) ⟨own, view, pos, held, atEnd, noted⟩ := by
  have hread : readAt (r.data ++ [newline]) 0 db.datlen = r.data ++ [newline] := by
    rw [readAt, drop_zero, hlen, take_of_length_le (by simp)]
  have hn0 : (r.datoff : ℤ) ≠ -1 := by omega
  simp only [dbReaddat, lseek, read, bind_eq, bind_assoc, perform_bind, call_bind,
    pure_eq_ret, ret_bind]
  refine .lseekSet (by rw [hoff]; exact Int.natCast_nonneg _) rfl ?_
  rw [require_bind_of_true _ (by rw [hoff]; exact hn0)]
  refine .read (i := 0) hb (by simp [hoff]) (by simp [hlen]) hread ?_
  rw [require_bind_of_true _ (by simp [hlen]), require_bind_of_true _ (by simp),
    dropLast_concat, cstr_append hr.data_nul]
  exact hk _

lemma safe_dbWritedat_set {data : Bytes} (rest : Multiset (Cell DbFile))
    (hown : own = r.datCell ::ₘ rest) (hlen : data.length = r.data.length)
    (hk : ∀ pos, Safe P Φ Ψ (k { db with datoff := r.datoff, datlen := data.length + 1 })
      ⟨(r.withData data).datCell ::ₘ rest, view, pos, held, atEnd, noted⟩) :
    Safe P Φ Ψ ((dbWritedat db data r.datoff .seekSet).bind k)
      ⟨own, view, pos, held, atEnd, noted⟩ := by
  have hlen' : (data ++ [newline]).length = (r.data ++ [newline]).length := by simp [hlen]
  have hn0 : (r.datoff : ℤ) ≠ -1 := by omega
  subst hown
  simp only [dbWritedat, lseek, write, bind_eq, bind_assoc, perform_bind,
    call_bind, pure_eq_ret, ret_bind, reduceCtorEq, ↓reduceIte]
  refine .lseekSet (Int.natCast_nonneg _) rfl ?_
  rw [require_bind_of_true _ hn0]
  refine .write (i := 0) (by simp) (by rw [hlen', Nat.zero_add])
    (writeAt_whole _ _ hlen'.symm) ?_
  rw [require_bind_of_true _ (by simp)]
  exact hk _

lemma safe_dbWritedat_end {data : Bytes} (hheld : ∀ l, held (.inr l) = none)
    (hchain : ∃ c, held (.inl c) ≠ none) (hend : ∀ fd, atEnd fd = false)
    (hk : ∀ (n : ℕ) pos, Safe (protocol K) Φ Ψ
    (k { db with datoff := n, datlen := data.length + 1 })
      ⟨.block .dat n (data ++ [newline]) ::ₘ own, view, pos, held, atEnd, []⟩) :
    Safe (protocol K) Φ Ψ ((dbWritedat db data 0 .seekEnd).bind k)
      ⟨own, view, pos, held, atEnd, []⟩ := by
  have hinv : ∀ g cs, (protocol K).inv (.inr .datTail) g cs ↔ ∃ n, 0 ≤ n ∧ cs = {.eof .dat n} :=
    fun g cs => exists_congr fun n => (and_iff_right (Nat.zero_le n)).symm
  simp only [dbWritedat, lseek, write, writewLock, unLock, bind_eq, bind_assoc,
    perform_bind, call_bind, pure_eq_ret, ret_bind, ↓reduceIte]
  exact safe_tail (m := 0) ⟨rfl, rfl, rfl⟩ hinv hheld hchain hend (by simp) rfl (by simp)
    fun n pos _ => hk n pos

/-! ## Index records -/

lemma set_append_cons (a b : Bytes) (x y : UInt8) : (a ++ x :: b).set a.length y = a ++ y :: b := by
  simp

lemma drop_append_cons (a b : Bytes) (x : UInt8) : (a ++ x :: b).drop (a.length + 1) = b := by
  rw [← drop_drop, drop_left]
  rfl

lemma splitRecord_cut {a b c : Bytes} (ha : (0 : UInt8) ∉ a) (ha' : sep ∉ a) (hb : (0 : UInt8) ∉ b)
    (hb' : sep ∉ b) : splitRecord db (a ++ sep :: (b ++ sep :: c)) = (do
      .require (strchr c sep = none) .readidxTooManySeps
      .require (0 ≤ atol (b ++ 0 :: c)) .readidxDatoff
      .require (0 < atol c ∧ atol c ≤ datlenMax) .readidxDatlen
      return { db with
        idxbuf := a ++ 0 :: (b ++ 0 :: c)
        datoff := atol (b ++ 0 :: c)
        datlen := (atol c).toNat }) := by
  have hsep : sep ≠ 0 := by decide
  have hset₁ := set_append_cons a (b ++ sep :: c) sep 0
  have hdrop₁ := drop_append_cons a (b ++ sep :: c) 0
  have hlen : (a ++ 0 :: b).length = a.length + 1 + b.length := by simp; omega
  have hset₂ : (a ++ 0 :: (b ++ sep :: c)).set (a.length + 1 + b.length) 0 =
      a ++ 0 :: (b ++ 0 :: c) := by
    have h := set_append_cons (a ++ 0 :: b) c sep 0
    rw [hlen] at h
    simpa using h
  have hdrop₂ : (a ++ 0 :: (b ++ 0 :: c)).drop (a.length + 1 + b.length + 1) = c := by
    have h := drop_append_cons (a ++ 0 :: b) c 0
    rw [hlen] at h
    simpa using h
  have hdrop₃ := drop_append_cons a (b ++ 0 :: c) 0
  simp only [splitRecord, strchr_append ha ha' hsep, hset₁, hdrop₁,
    strchr_append hb hb' hsep, hset₂, hdrop₂, hdrop₃]

def Rec.buf (r : Rec) : Bytes :=
  r.key ++ 0 :: (decimal r.datoff ++ 0 :: (decimal (r.data.length + 1) ++ [0]))

def DB.atRec (db : DB) (r : Rec) (next : ℕ) : DB :=
  { db with
    idxbuf := r.buf
    idxoff := r.off
    idxlen := r.text.length
    datoff := r.datoff
    datlen := r.data.length + 1
    ptrval := next }

lemma notMem_decimal {c : UInt8} (hc : isDigit c = false) (n : ℕ) : c ∉ decimal n := by
  intro hmem
  rw [isDigit_of_mem_decimal hmem] at hc
  cases hc

lemma dropLast_text (r : Rec) : r.text.dropLast ++ [0] =
    r.key ++ sep :: (decimal r.datoff ++ sep :: (decimal (r.data.length + 1) ++ [0])) := by
  rw [text, dropLast_concat]
  simp

lemma splitRecord_text (hnul : (0 : UInt8) ∉ r.key) (hsep : sep ∉ r.key)
    (hle : r.data.length + 1 ≤ datlenMax) :
    splitRecord db (r.text.dropLast ++ [0]) =
      .ret { db with idxbuf := r.buf, datoff := r.datoff, datlen := r.data.length + 1 } := by
  have hoff : atol (decimal r.datoff ++ 0 :: (decimal (r.data.length + 1) ++ [0])) = r.datoff :=
    atol_decimal _ (by rintro c ⟨rfl⟩; rfl)
  have hlen : atol (decimal (r.data.length + 1) ++ [0]) = (r.data.length + 1 : ℕ) :=
    atol_decimal _ (by rintro c ⟨rfl⟩; rfl)
  have hnone : strchr (decimal (r.data.length + 1) ++ [0]) sep = none := by
    refine strchr_eq_none ?_
    rw [cstr_append (notMem_decimal rfl _)]
    exact notMem_decimal rfl _
  rw [dropLast_text, splitRecord_cut hnul hsep (notMem_decimal rfl _) (notMem_decimal rfl _),
    hoff, hlen]
  simp only [bind_eq, pure_eq_ret]
  rw [require_bind_of_true _ hnone, require_bind_of_true _ (by omega),
    require_bind_of_true _ (by omega), Int.toNat_natCast]
  rfl

lemma splitRecord_text_of_mem (hr : r.Valid) (hsep : sep ∈ r.key) :
    splitRecord db (r.text.dropLast ++ [0]) = .fail .readidxTooManySeps := by
  set s : Bytes := r.key ++ sep :: (decimal r.datoff ++ sep :: decimal (r.data.length + 1)) with hs
  have hbuf : r.text.dropLast ++ [0] = s ++ [0] := by
    rw [dropLast_text, hs]
    simp
  have hnul : (0 : UInt8) ∉ s := by
    rw [hs]
    simp only [mem_append, mem_cons, not_or]
    exact ⟨hr.key_nul, by decide, notMem_decimal rfl _, by decide, notMem_decimal rfl _⟩
  have hcount : 3 ≤ s.count sep := by
    have hkey : 1 ≤ r.key.count sep := count_pos_iff.mpr hsep
    rw [hs]
    simp only [count_append, count_cons_self]
    omega
  obtain ⟨a, t, hat, ha⟩ :=
    eq_append_cons_of_mem (show sep ∈ s from count_pos_iff.mp (by omega))
  have hcount' : 2 ≤ t.count sep := by
    rw [hat, count_append, count_cons_self, count_eq_zero.mpr ha] at hcount
    omega
  obtain ⟨b, c, hbc, hb⟩ :=
    eq_append_cons_of_mem (show sep ∈ t from count_pos_iff.mp (by omega))
  have hc : sep ∈ c := by
    rw [hbc, count_append, count_cons_self, count_eq_zero.mpr hb] at hcount'
    exact count_pos_iff.mp (by omega)
  subst hbc
  rw [hat] at hnul
  simp only [mem_append, mem_cons, not_or] at hnul
  obtain ⟨hnula, -, hnulb, -, hnulc⟩ := hnul
  have hsome : strchr (c ++ [0]) sep ≠ none := by
    rw [strchr, cstr_append hnulc, ne_eq, List.findIdx?_eq_none_iff]
    intro hall
    exact absurd (hall sep hc) (by simp)
  rw [hbuf, hat, show a ++ sep :: (b ++ sep :: c) ++ [0] =
    a ++ sep :: (b ++ sep :: (c ++ [0])) by simp,
    splitRecord_cut hnula ha hnulb hb]
  simp only [bind_eq]
  rw [require_bind_of_false _ hsome]

lemma length_lenField (hn : n ≤ idxlenMax) : (padLeft idxlenSz (decimal n)).length = idxlenSz := by
  refine length_padLeft (length_decimal_le (by decide) ?_)
  change n < 10 ^ 4
  rw [idxlenMax] at hn
  omega

lemma length_idxBlock (hnext : (next : ℤ) ≤ ptrMax) (hlen : r.text.length ≤ idxlenMax) :
    (ptrField next ++ r.tail).length = ptrSz + idxlenSz + r.text.length := by
  rw [length_append, Rec.tail, length_append, length_ptrField hnext, length_lenField hlen]
  omega

def Rec.header (r : Rec) (next : ℕ) : Bytes := ptrField next ++ padLeft idxlenSz
    (decimal r.text.length)

section

variable (hnext : (next : ℤ) ≤ ptrMax)
include hnext

section

variable (hlen : r.text.length ≤ idxlenMax)
include hlen

lemma Rec.length_header : (r.header next).length = ptrSz + idxlenSz := by
  rw [header, length_append, length_ptrField hnext, length_lenField hlen]

lemma Rec.readAt_header :
    readAt (ptrField next ++ r.tail) 0 (ptrSz + idxlenSz) = r.header next := by
  rw [readAt, drop_zero, tail, ← append_assoc, ← header,
    ← r.length_header hnext hlen, take_left]

lemma Rec.readAt_text :
    readAt (ptrField next ++ r.tail) (ptrSz + idxlenSz) r.text.length = r.text := by
  rw [readAt, tail, ← append_assoc, ← header, ← r.length_header hnext hlen,
    drop_left, take_length]

end

lemma Rec.atol_take_header : atol ((r.header next).take ptrSz) = next := by
  rw [header, ← length_ptrField hnext, take_left, atol_ptrField]

lemma Rec.atol_drop_header : atol ((r.header next).drop ptrSz) = r.text.length := by
  rw [header, ← length_ptrField hnext, drop_left]
  simpa using @atol_padLeft [] idxlenSz r.text.length nofun

end

lemma Rec.getLast?_text (r : Rec) : r.text.getLast? = some newline := by
  rw [text, List.getLast?_concat]

lemma safe_dbReadidx {k : ℤ × DB → DbProg α} (hr : r.Valid) (hb : r.idxCell next ∈ own + view)
    (hnext : (next : ℤ) ≤ ptrMax)
    (hbad : sep ∈ r.key → ∀ pos, Ψ .readidxTooManySeps ⟨own, view, pos, held, atEnd, noted⟩)
    (hk : sep ∉ r.key → ∀ pos, Safe P Φ Ψ (k (next, db.atRec r next)) ⟨own, view, pos, held, atEnd,
      noted⟩) : Safe P Φ Ψ ((dbReadidx db r.off).bind k) ⟨own, view, pos, held, atEnd, noted⟩ := by
  have hlo := hr.le_len
  have hhi := hr.len_le
  have hheader := r.length_header hnext hhi
  have htotal := length_idxBlock hnext hhi
  have hn0 : (r.off : ℤ) ≠ -1 := by omega
  simp only [dbReadidx, lseek, read, bind_eq, bind_assoc, perform_bind, call_bind, pure_eq_ret]
  refine .lseekSet (Int.natCast_nonneg _) (if_neg hr.off_ne) ?_
  rw [require_bind_of_true _ hn0]
  refine .read (i := 0) hb (by simp) (by rw [htotal]; omega) (r.readAt_header hnext hhi) ?_
  rw [if_neg (not_not_intro hheader), r.atol_take_header hnext, r.atol_drop_header hnext,
    bind_assoc, require_bind_of_true _ ⟨by exact_mod_cast hlo, by exact_mod_cast hhi⟩]
  simp only [Int.toNat_natCast, call_bind, bind_assoc]
  refine .read (i := ptrSz + idxlenSz) hb (by simp) (by rw [htotal])
    (r.readAt_text hnext hhi) ?_
  rw [require_bind_of_true _ rfl, require_bind_of_true _ r.getLast?_text]
  by_cases hsep : sep ∈ r.key
  · rw [splitRecord_text_of_mem hr hsep, fail_bind]
    exact .fail (hbad hsep _)
  · rw [splitRecord_text hr.key_nul hsep hr.datlen_le, ret_bind, ret_bind]
    exact hk hsep _

lemma text_eq (hoff : db.datoff = r.datoff) (hlen : db.datlen = r.data.length + 1) :
    r.key ++ sep :: decimalInt db.datoff ++ sep :: decimal db.datlen ++ [newline] = r.text := by
  rw [hoff, hlen, decimalInt_natCast, text]

lemma fields_eq (next : ℕ) (r : Rec) :
    padLeft ptrSz (decimalInt next) ++ padLeft idxlenSz (decimal r.text.length) ++ r.text =
      ptrField next ++ r.tail := by
  rw [decimalInt_natCast, ← ptrField, Rec.tail, append_assoc]

lemma safe_dbWriteidx_set {b : Bytes} (rest : Multiset (Cell DbFile))
    (hown : own = .block .idx r.off b ::ₘ rest) (hb : b.length = ptrSz + idxlenSz + r.text.length)
    (hlo : idxlenMin ≤ r.text.length) (hhi : r.text.length ≤ idxlenMax)
    (hnext : (next : ℤ) ≤ ptrMax) (hoff : db.datoff = r.datoff)
    (hlen : db.datlen = r.data.length + 1)
    (hk : ∀ pos, Safe P Φ Ψ (k { db with ptrval := next, idxbuf := r.text ++ [0], idxoff := r.off })
      ⟨r.idxCell next ::ₘ rest, view, pos, held, atEnd, noted⟩) :
    Safe P Φ Ψ ((dbWriteidx db r.key r.off .seekSet next).bind k)
      ⟨own, view, pos, held, atEnd, noted⟩ := by
  have htotal := length_idxBlock hnext hhi
  have hn0 : (r.off : ℤ) ≠ -1 := by omega
  subst hown
  simp only [dbWriteidx, lseek, write, bind_eq, bind_assoc, perform_bind,
    call_bind, pure_eq_ret, ret_bind, reduceCtorEq, ↓reduceIte]
  rw [text_eq hoff hlen, require_bind_of_true _ ⟨Int.natCast_nonneg next, hnext⟩,
    require_bind_of_true _ ⟨hlo, hhi⟩]
  refine .lseekSet (Int.natCast_nonneg _) rfl ?_
  rw [require_bind_of_true _ hn0, fields_eq]
  refine .write (i := 0) (by simp) (by rw [htotal, hb, Nat.zero_add])
    (writeAt_whole _ _ (hb.trans htotal.symm)) ?_
  rw [require_bind_of_true _ htotal]
  exact hk _

lemma safe_dbWriteidx_end (hheld : ∀ l, held (.inr l) = none) (hchain : ∃ c, held (.inl c) ≠ none)
    (hend : ∀ fd, atEnd fd = false) (hnhash : db.nhash = nhashDef) (hnext : (next : ℤ) ≤ ptrMax)
    (hoff : db.datoff = r.datoff) (hlen : db.datlen = r.data.length + 1)
    (hbad : ¬ (idxlenMin ≤ r.text.length ∧ r.text.length ≤ idxlenMax) → Ψ .writeidxLength ⟨own,
      view, pos, held, atEnd, []⟩)
    (hk : idxlenMin ≤ r.text.length → r.text.length ≤ idxlenMax → ∀ (n : ℕ) pos, recOff ≤ n →
      Safe (protocol K) Φ Ψ (k { db with ptrval := next, idxbuf := r.text ++ [0], idxoff := n })
        ⟨.block .idx n (ptrField next ++ r.tail) ::ₘ own, view, pos, held, atEnd, []⟩) :
    Safe (protocol K) Φ Ψ ((dbWriteidx db r.key 0 .seekEnd next).bind k)
      ⟨own, view, pos, held, atEnd, []⟩ := by
  simp only [dbWriteidx, lseek, write, writewLock, unLock, bind_eq, bind_assoc,
    perform_bind, call_bind, pure_eq_ret, ret_bind, ↓reduceIte]
  rw [text_eq hoff hlen, require_bind_of_true _ ⟨Int.natCast_nonneg next, hnext⟩]
  by_cases hcheck : idxlenMin ≤ r.text.length ∧ r.text.length ≤ idxlenMax
  · have htotal := length_idxBlock hnext hcheck.2
    have hat : (protocol K).At (.inr .idxTail) .idx ((db.nhash + 1) * ptrSz + 1) 0 :=
      ⟨rfl, by rw [hnhash]; rfl, rfl⟩
    rw [require_bind_of_true _ hcheck, fields_eq]
    refine safe_tail (m := recOff) hat (fun g cs => Iff.rfl) hheld hchain hend ?_ rfl htotal
      fun n pos hn => hk hcheck.1 hcheck.2 n pos hn
    rw [← length_pos_iff_ne_nil, htotal]
    exact Nat.lt_of_lt_of_le (by decide) (Nat.le_add_right _ _)
  · rw [require_bind_of_false _ hcheck]
    exact .fail (hbad hcheck)

end Rules

end UnixPrograms.Db
