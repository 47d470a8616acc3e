import UnixPrograms.Db.Functions
import Mathlib.Tactic.Abel

/-!
# Finding, deleting and reusing records

What a process holds in the middle of a call, and the rules for the functions that go along a list:
`dbFindAndLock` along a hash chain, `dbFindfree` along the free list, and `dbDodelete`, which moves
a record from the one to the other.
-/

namespace UnixPrograms.Db

open Function List Prog

/-! ## Holdings in the middle of a call -/

/-- A handle of a database that is open. -/
structure Opened (db : DB) : Prop where
  hashoff : db.hashoff = hashOff
  nhash : db.nhash = nhashDef

/-- A handle at the hash chain `c`. -/
structure AtChain (c : ℕ) (db : DB) : Prop extends Opened db where
  chainoff : db.chainoff = chainOff c

/-- The hash chain of a key. -/
def chainOf (key : Bytes) : Fin nhashDef := ⟨dbHash nhashDef key, Nat.mod_lt _ (by decide)⟩

/-- Only the chain `c` is locked, and holds the records `es`. -/
def chainLock (c : Fin nhashDef) (m : LockMode) (es : List Rec) :
    Res → Option (LockMode × List Rec) := update (fun _ => none) (.inl c) (some (m, es))

@[simp] lemma chainLock_self (c : Fin nhashDef) (m : LockMode) (es : List Rec) :
    chainLock c m es (.inl c) = some (m, es) := update_self ..

@[simp] lemma chainLock_inr (c : Fin nhashDef) (m : LockMode) (es : List Rec) (l : Lock) :
    chainLock c m es (.inr l) = none := update_of_ne Sum.inr_ne_inl ..

lemma chainLock_of_ne {c : Fin nhashDef} {m : LockMode} {es : List Rec} {r : Res}
    (hr : r ≠ .inl c) : chainLock c m es r = none := update_of_ne hr ..

/-- The blocks of a chain with the records `es`. -/
def chainCells (c : Fin nhashDef) (es : List Rec) : Multiset (Cell DbFile) :=
  cells (chainOff c) [] es

/-- What a process holds while it has the lock of a chain: it owns the blocks if that is a write
lock, and sees them if it is a read lock. -/
def locked (m : LockMode) (c : Fin nhashDef) (es : List Rec) (pos : DbFile → ℕ) :
    Holding DbFile Res (List Rec) where
  own := if m = .write then chainCells c es else 0
  view := if m = .read then chainCells c es else 0
  pos := pos
  held := chainLock c m es
  atEnd := fun _ => false
  noted := []

section Rules

variable {K : Bytes → Prop} {α : Type} {Φ : α → Option (Res × List Rec × List Rec) → Prop}
  {Ψ : DbError → Holding DbFile Res (List Rec) → Prop} {own view : Multiset (Cell DbFile)}
  {pos : DbFile → ℕ} {held : Res → Option (LockMode × List Rec)} {atEnd : DbFile → Bool}
  {noted : List (DbFile × ℕ)} {db : DB}

/-! ## Finding a record -/

variable {es fs : List Rec} {r : Rec} {c : Fin nhashDef} {k : ℤ × DB → DbProg α} {m : LockMode}

/-- The offsets of records fit into the pointer fields. -/
lemma headOff_le (hv : ∀ r ∈ es, r.Valid) : (headOff es : ℤ) ≤ ptrMax := by
  cases es with
  | nil => exact (by decide : (0 : ℤ) ≤ ptrMax)
  | cons r es => exact (hv r mem_cons_self).off_le

lemma idxCell_mem_cells (a : ℕ) (t : Bytes) (pre : List Rec) (r : Rec) (post : List Rec) :
    r.idxCell (headOff post) ∈ cells a t (pre ++ r :: post) := by
  rw [cells_append_cons]
  simp

/-- The buffer of a record that was read starts with the key. -/
lemma cstr_buf (hr : r.Valid) : cstr r.buf = r.key := cstr_append hr.key_nul _

/-- The loop of `_db_find_and_lock` ends at the first record with the key, at the end of the chain,
or at a record that cannot be read. -/
lemma safe_findLoop {P : Protocol DbFile Res (List Rec)} {key : CString} (hv : ∀ r ∈ es, r.Valid)
    (hmem : ∀ x ∈ chainCells c es, x ∈ own + view)
    (hbad : search es key = .error .readidxTooManySeps → ∀ pos, Ψ .readidxTooManySeps ⟨own, view,
      pos, held, atEnd, noted⟩)
    (hfound : ∀ pre r post db pos, es = pre ++ r :: post → r.key = key.val →
      search es key = .ok (some r.data) → AtChain c db →
      Safe P Φ Ψ (k (r.off, { db with ptroff := lastOff (chainOff c) pre }.atRec r (headOff post)))
        ⟨own, view, pos, held, atEnd, noted⟩)
    (hnone : ∀ db pos, search es key = .ok none → AtChain c db → Safe P Φ Ψ (k (0, db)) ⟨own, view,
      pos, held, atEnd, noted⟩) (hdb : AtChain c db) (hptr : db.ptroff = chainOff c) :
    Safe P Φ Ψ (.loop (findStep key) ((headOff es : ℤ), db) k)
      ⟨own, view, pos, held, atEnd, noted⟩ := by
  -- the records passed so far could be read and have other keys, and `ptroff` is the place of the
  -- next pointer
  refine Safe.walk es (fun pre x h => ∃ post db pos, es = pre ++ post ∧
    x = ((headOff post : ℤ), db) ∧ AtChain c db ∧ db.ptroff = lastOff (chainOff c) pre ∧
    (∀ r ∈ pre, sep ∉ r.key ∧ r.key ≠ key.val) ∧ h = ⟨own, view, pos, held, atEnd, noted⟩) ?_ ?_
    ⟨es, db, pos, rfl, rfl, hdb, hptr, nofun, rfl⟩
  · rintro pre r post x h hes ⟨post', db, pos, hes', rfl, hdb, hptr, hpre, rfl⟩ hrest
    obtain rfl : post' = r :: post := append_cancel_left (hes'.symm.trans hes)
    have hr : r ∈ es := hes ▸ mem_append_right _ mem_cons_self
    have hoff := (hv r hr).off_ne
    have hnext : (headOff post : ℤ) ≤ ptrMax :=
      headOff_le fun q hq => hv q (hes ▸ mem_append_right _ (mem_cons_of_mem _ hq))
    have hdb' : db = { db with ptroff := lastOff (chainOff c) pre } := by rw [← hptr]
    simp only [unroll, findStep, headOff, hoff, ↓reduceIte, bind_eq, Prog.bind_assoc, pure_eq_ret]
    have hsearch : search es key = search (r :: post) key := by rw [hes, search_append hpre]
    refine safe_dbReadidx (hv r hr) (hmem _ ?_) hnext ?_ fun hsep pos => ?_
    · rw [hes]
      exact idxCell_mem_cells ..
    · intro hsep
      refine hbad ?_
      rw [hsearch, search, if_pos hsep]
    · by_cases hkey : r.key = key.val
      · simp only [DB.atRec, cstr_buf (hv r hr), hkey, ↓reduceIte, ret_bind]
        rw [hdb']
        refine hfound pre r post db pos hes hkey ?_ hdb
        rw [hsearch, search, if_neg hsep, if_pos hkey]
      · simp only [DB.atRec, cstr_buf (hv r hr), hkey, ↓reduceIte, ret_bind]
        refine hrest _ _ ⟨post, _, pos, by rw [hes]; simp, rfl,
          ⟨⟨hdb.hashoff, hdb.nhash⟩, hdb.chainoff⟩,
          by rw [lastOff_concat], ?_, rfl⟩
        intro q hq
        rcases mem_append.mp hq with hq | hq
        · exact hpre q hq
        · rw [mem_singleton.mp hq]
          exact ⟨hsep, hkey⟩
  · rintro x h ⟨post, db, pos, hes, rfl, hdb, -, hall, rfl⟩
    obtain rfl : post = [] := by simpa using hes
    simp only [unroll, findStep, headOff, Nat.cast_zero, ↓reduceIte, pure_eq_ret, ret_bind]
    have hsearch := search_append hall []
    rw [append_nil] at hsearch
    exact hnone db pos hsearch hdb

lemma mem_locked (m : LockMode) (c : Fin nhashDef) (es : List Rec) (pos : DbFile → ℕ) :
    ∀ x ∈ chainCells c es, x ∈ (locked m c es pos).own + (locked m c es pos).view := by
  intro x hx
  cases m <;> simpa [locked] using hx

/-- `_db_find_and_lock` gives what `search` finds in the chain, which stays locked. -/
lemma safe_dbFindAndLock {key : CString} {writelock : Bool}
    (hm : m = if writelock then .write else .read) (hdb : Opened db)
    (hbad : ∀ es pos, Chain K (chainOf key.val) es → search es key = .error .readidxTooManySeps → Ψ
      .readidxTooManySeps (locked m (chainOf key.val) es pos))
    (hfound : ∀ es pre r post db pos, Chain K (chainOf key.val) es → es = pre ++ r :: post →
      r.key = key.val → search es key = .ok (some r.data) → AtChain (chainOf key.val) db →
      Safe (protocol K) Φ Ψ (k (0, { db with
        ptroff := lastOff (chainOff (chainOf key.val)) pre }.atRec r (headOff post)))
          (locked m (chainOf key.val) es pos))
    (hnone : ∀ es db pos, Chain K (chainOf key.val) es → search es key = .ok none → AtChain
      (chainOf key.val) db → Safe (protocol K) Φ Ψ (k (-1, db)) (locked m (chainOf key.val) es
      pos)) : Safe (protocol K) Φ Ψ ((dbFindAndLock db key writelock).bind k) (.empty pos) := by
  set c := chainOf key.val with hc
  have hoff : dbHash db.nhash key.val * ptrSz + db.hashoff = chainOff c := by
    rw [hdb.nhash, hdb.hashoff]
    rfl
  have hat : (protocol K).At (.inl c) .idx (dbHash db.nhash key.val * ptrSz + db.hashoff) 1 :=
    ⟨rfl, hoff.symm, rfl⟩
  -- both locks are followed by the same search
  have hsearch : ∀ es pos, Chain K c es → Safe (protocol K) Φ Ψ
      ((dbReadptr (chainOff c)).bind fun offset => .loop (findStep key)
        (offset, { db with chainoff := chainOff c, ptroff := chainOff c })
        fun x => k (if x.1 = 0 then -1 else 0, x.2)) (locked m c es pos) := by
    intro es pos hes
    refine safe_dbReadptr (t := []) (mem_locked m c es pos _ ?_) (headOff_le hes.valid)
      fun pos => ?_
    · exact Multiset.mem_cons_self _ _
    · refine safe_findLoop hes.valid (mem_locked m c es pos) (fun hsep pos => hbad es pos hes hsep)
        ?_ ?_ ⟨⟨hdb.hashoff, hdb.nhash⟩, rfl⟩ rfl
      · intro pre r post db pos hsplit hkey hsearch hdb
        have hr : r.Valid := hes.valid r (hsplit ▸ mem_append_right _ mem_cons_self)
        rw [if_neg hr.off_ne]
        exact hfound es pre r post db pos hes hsplit hkey hsearch hdb
      · intro db pos hsearch hdb
        rw [if_pos rfl]
        exact hnone es db pos hes hsearch hdb
  cases writelock with
  | true =>
    obtain rfl : m = .write := hm
    simp only [dbFindAndLock, writewLock, ↓reduceIte, bind_eq, Prog.bind_assoc, perform_bind,
      call_bind, repeatFrom_bind, loop_bind, pure_eq_ret, ret_bind]
    refine .lockWrite (.inl c) hat (fun r hr => absurd rfl hr) ?_
    rintro es cs ⟨rfl, hes⟩
    rw [add_zero, hoff]
    exact hsearch es pos hes
  | false =>
    obtain rfl : m = .read := hm
    simp only [dbFindAndLock, readwLock, Bool.false_eq_true, ↓reduceIte, bind_eq, Prog.bind_assoc,
      perform_bind, call_bind, repeatFrom_bind, loop_bind, pure_eq_ret, ret_bind]
    refine .lockRead (.inl c) hat (fun r hr => absurd rfl hr)
      (fun _ _ => (Option.some_ne_none _).symm) ?_
    rintro es cs ⟨rfl, hes⟩
    rw [hoff]
    exact hsearch es pos hes

/-! ## Deleting a record -/

/-- A blanked key is the key of the blank record. -/
lemma cstr_blankString (hr : r.Valid) : cstr (blankString r.buf) = r.blank.key := by
  have hdrop : r.buf.drop r.key.length =
      0 :: (decimal r.datoff ++ 0 :: (decimal (r.data.length + 1) ++ [0])) := drop_left
  rw [blankString, cstr_buf hr, hdrop, cstr_append fun h =>
    absurd (eq_of_mem_replicate h) (by decide)]
  rfl

/-- The lock of the free list comes after those of the chains. -/
lemma rank_chainLock (l : Lock) :
    ∀ r, chainLock c m es r ≠ none → (protocol K).rank r < (protocol K).rank (.inr l) := by
  rintro (c' | l') hr
  · exact Nat.zero_lt_one
  · exact absurd (chainLock_inr c m es l') hr

/-- The free list is given back with the records `fs'`. -/
lemma safe_unlockFree {k : Unit → DbProg α} (fs' : List Rec) (rest : Multiset (Cell DbFile))
    (hown : own = cells freeOff [] fs' + rest) (hfs : FreeList fs') (hend : ∀ fd, atEnd fd = false)
    (hnoted : ∀ x ∈ noted, ∃ b, .block x.1 x.2 b ∈ rest)
    (hk : Safe (protocol K) Φ Ψ (k ()) ⟨rest, view, pos, chainLock c m es, atEnd, noted⟩) :
    Safe (protocol K) Φ Ψ (.call (.unlck .idx freeOff 1) k)
      ⟨own, view, pos, update (chainLock c m es) (.inr .free) (some (.write, fs)), atEnd,
        noted⟩ := by
  refine .unlock (.inr .free) fs' ⟨rfl, rfl, rfl⟩ (update_self ..)
    ⟨.inl c, Sum.inl_ne_inr, ?_⟩ ?_ hend hown ⟨rfl, hfs⟩ hnoted ?_
  · rw [update_of_ne Sum.inl_ne_inr, chainLock_self]
    exact Option.some_ne_none _
  · intro r hne hr
    rw [update_of_ne hne] at hr
    exact rank_chainLock .free r hr
  · rw [update_update_self (chainLock_inr c m es .free)]
    exact hk

/-- `_db_dodelete` moves the record from its chain to the head of the free list. -/
lemma safe_dbDodelete {k : DB → DbProg α} {pre post : List Rec}
    (hes : Chain K c (pre ++ r :: post)) (hdb : AtChain c db)
    (hk : ∀ db pos, AtChain c db → Safe (protocol K) Φ Ψ (k db) ⟨chainCells c (pre ++ post), 0,
      pos, chainLock c .write es, fun _ => false, []⟩) :
    Safe (protocol K) Φ Ψ
      ((dbDodelete ({ db with ptroff := lastOff (chainOff c) pre }.atRec r (headOff post))).bind k)
      ⟨chainCells c (pre ++ r :: post), 0, pos, chainLock c .write es, fun _ => false, []⟩ := by
  have hr : r.Valid := hes.valid r (mem_append_right _ mem_cons_self)
  have hpost : (headOff post : ℤ) ≤ ptrMax :=
    headOff_le fun q hq => hes.valid q (mem_append_right _ (mem_cons_of_mem _ hq))
  have hdata : ∀ rest, cstr (List.replicate (r.data.length + 1 - 1) space ++ 0 :: rest) =
      r.blank.data := by
    intro rest
    rw [Nat.add_sub_cancel, cstr_append fun h => absurd (eq_of_mem_replicate h) (by decide)]
    rfl
  simp only [dbDodelete, writewLock, unLock, bind_eq, Prog.bind_assoc, perform_bind,
    call_bind, pure_eq_ret, ret_bind, DB.atRec, hdata]
  refine .lockWrite (.inr .free) ⟨rfl, rfl, rfl⟩ (rank_chainLock .free) ?_
  rintro fs cs ⟨rfl, hfs⟩
  -- the data record
  refine safe_dbWritedat_set (r := r) (cells freeOff [] fs +
      (.block .idx (lastOff (chainOff c) pre) (ptrField r.off ++ lastTail [] pre) ::ₘ
        r.idxCell (headOff post) ::ₘ (front (chainOff c) [] pre + body post))) ?_
    r.length_data_blank fun pos => ?_
  · rw [chainCells, cells_append_cons]
    simp only [← Multiset.singleton_add]
    abel
  -- the head of the free list
  refine safe_dbReadptr (t := []) (n := headOff fs) ?_ (headOff_le hfs.valid) fun pos => ?_
  · simp [cells]
  -- the index record
  simp only [cstr_blankString hr]
  refine safe_dbWriteidx_set (r := r.blank) (b := ptrField (headOff post) ++ r.tail)
    (cells freeOff [] fs +
      (.block .idx (lastOff (chainOff c) pre) (ptrField r.off ++ lastTail [] pre) ::ₘ
        r.blank.datCell ::ₘ (front (chainOff c) [] pre + body post))) ?_ ?_ hr.blank.le_len
    hr.blank.len_le (headOff_le hfs.valid) rfl rfl fun pos => ?_
  · change (r.withData r.blank.data).datCell ::ₘ _ = r.idxCell (headOff post) ::ₘ _
    have hdat : (r.withData r.blank.data).datCell = r.blank.datCell := rfl
    rw [hdat]
    simp only [← Multiset.singleton_add]
    abel
  · rw [length_idxBlock hpost hr.len_le, Rec.length_text_blank]
  -- the pointers to the two lists
  refine safe_dbWriteptr (m := headOff fs) (t := []) (body fs +
      (.block .idx (lastOff (chainOff c) pre) (ptrField r.off ++ lastTail [] pre) ::ₘ
        r.blank.datCell ::ₘ r.blank.idxCell (headOff fs) ::ₘ
          (front (chainOff c) [] pre + body post))) ?_ (headOff_le hfs.valid) hr.off_le
    fun pos => ?_
  · simp only [cells, ← Multiset.singleton_add]
    abel
  refine safe_dbWriteptr (m := r.off) (t := lastTail [] pre)
    (cells freeOff [] (r.blank :: fs) + (front (chainOff c) [] pre + body post)) ?_ hr.off_le hpost
    fun pos => ?_
  · have hoff : r.blank.off = r.off := rfl
    rw [cells_cons, hoff]
    simp only [← Multiset.singleton_add]
    abel
  refine safe_unlockFree (r.blank :: fs) (chainCells c (pre ++ post)) ?_ ?_ (fun _ => rfl)
    (fun _ hx => absurd hx not_mem_nil) ?_
  · rw [chainCells, cells_append_eq_cons]
    simp only [← Multiset.singleton_add]
    abel
  · refine ⟨fun q hq => ?_, fun q hq => ?_⟩
    · rcases mem_cons.mp hq with rfl | hq
      · exact hr.blank
      · exact hfs.valid q hq
    · rcases mem_cons.mp hq with rfl | hq
      · exact fun ch hch => eq_of_mem_replicate hch
      · exact hfs.blank q hq
  · exact hk _ _ ⟨⟨hdb.hashoff, hdb.nhash⟩, hdb.chainoff⟩

/-! ## Finding a free record -/

/-- Records on the free list can be read, because their keys are blank. -/
lemma FreeList.notMem_sep (hfs : FreeList fs) (hr : r ∈ fs) : sep ∉ r.key := by
  intro hsep
  exact absurd (hfs.blank r hr sep hsep) (by decide)

/-- The loop of `_db_findfree` ends at a record with both lengths or at the end of the list. -/
lemma safe_freeLoop {P : Protocol DbFile Res (List Rec)} {k : ℤ × ℤ × DB → DbProg α} {c : ℕ}
    {keylen datlen : ℕ} (hfs : FreeList fs) (hmem : ∀ x ∈ cells freeOff [] fs, x ∈ own + view)
    (hfound : ∀ pre r post db pos, fs = pre ++ r :: post → r.key.length = keylen → r.data.length +
      1 = datlen → AtChain c db → Safe P Φ Ψ (k (lastOff freeOff pre, r.off, db.atRec r (headOff
      post))) ⟨own, view, pos, held, atEnd, noted⟩)
    (hnone : ∀ save db pos, AtChain c db → Safe P Φ Ψ (k (save, 0, db)) ⟨own, view, pos, held,
      atEnd, noted⟩) (hdb : AtChain c db) :
    Safe P Φ Ψ (.loop (freeStep keylen datlen) ((freeOff : ℤ), (headOff fs : ℤ), db) k)
      ⟨own, view, pos, held, atEnd, noted⟩ := by
  refine Safe.walk fs (fun pre x h => ∃ post db pos, fs = pre ++ post ∧
    x = ((lastOff freeOff pre : ℤ), (headOff post : ℤ), db) ∧ AtChain c db ∧
    h = ⟨own, view, pos, held, atEnd, noted⟩) ?_ ?_ ⟨fs, db, pos, rfl, rfl, hdb, rfl⟩
  · rintro pre r post x h hsplit ⟨post', db, pos, hsplit', rfl, hdb, rfl⟩ hrest
    obtain rfl : post' = r :: post := append_cancel_left (hsplit'.symm.trans hsplit)
    have hr : r ∈ fs := hsplit ▸ mem_append_right _ mem_cons_self
    have hv := hfs.valid r hr
    have hoff := hv.off_ne
    have hnext : (headOff post : ℤ) ≤ ptrMax := headOff_le fun q hq =>
      hfs.valid q (hsplit ▸ mem_append_right _ (mem_cons_of_mem _ hq))
    have hdb' : AtChain c (db.atRec r (headOff post)) :=
      ⟨⟨hdb.hashoff, hdb.nhash⟩, hdb.chainoff⟩
    simp only [unroll, freeStep, headOff, hoff, ↓reduceIte, bind_eq, Prog.bind_assoc, pure_eq_ret]
    refine safe_dbReadidx hv (hmem _ ?_) hnext (fun hsep => absurd hsep (hfs.notMem_sep hr))
      fun _ pos => ?_
    · rw [hsplit]
      exact idxCell_mem_cells ..
    · have hbuf : cstr (db.atRec r (headOff post)).idxbuf = r.key := cstr_buf hv
      have hlen : (db.atRec r (headOff post)).datlen = r.data.length + 1 := rfl
      rw [hbuf, hlen]
      by_cases hfit : r.key.length = keylen ∧ r.data.length + 1 = datlen
      · rw [if_pos hfit, ret_bind]
        exact hfound pre r post db pos hsplit hfit.1 hfit.2 hdb
      · rw [if_neg hfit, ret_bind]
        exact hrest _ _ ⟨post, _, pos, by rw [hsplit]; simp, by rw [lastOff_concat], hdb', rfl⟩
  · rintro x h ⟨post, db, pos, hsplit, rfl, hdb, rfl⟩
    obtain rfl : post = [] := by simpa using hsplit
    simp only [unroll, freeStep, headOff, Nat.cast_zero, ↓reduceIte, pure_eq_ret, ret_bind]
    exact hnone _ db pos hdb

/-- `_db_findfree` takes a record with both lengths off the free list, if it finds one. -/
lemma safe_dbFindfree {keylen datlen : ℕ} (hdb : AtChain c db)
    (hnone : ∀ db pos, AtChain c db → Safe (protocol K) Φ Ψ (k (-1, db)) ⟨own, 0, pos, chainLock c
      .write es, fun _ => false, []⟩)
    (hfound : ∀ r (n : ℕ) db pos, r.Valid → (n : ℤ) ≤ ptrMax → r.key.length = keylen →
      r.data.length + 1 = datlen → AtChain c db → Safe (protocol K) Φ Ψ (k (0, db.atRec r n))
      ⟨r.datCell ::ₘ r.idxCell n ::ₘ own, 0, pos, chainLock c .write es, fun _ => false, [(.idx,
      r.off)]⟩) :
    Safe (protocol K) Φ Ψ ((dbFindfree db keylen datlen).bind k)
      ⟨own, 0, pos, chainLock c .write es, fun _ => false, []⟩ := by
  simp only [dbFindfree, writewLock, unLock, bind_eq, Prog.bind_assoc, perform_bind,
    call_bind, repeatFrom_bind, loop_bind, pure_eq_ret, ret_bind]
  refine .lockWrite (.inr .free) ⟨rfl, rfl, rfl⟩ (rank_chainLock .free) ?_
  rintro fs cs ⟨rfl, hfs⟩
  have hmem : ∀ x ∈ cells freeOff [] fs, x ∈ cells freeOff [] fs + own + 0 := fun x hx =>
    Multiset.mem_add.mpr (.inl (Multiset.mem_add.mpr (.inl hx)))
  refine safe_dbReadptr (t := []) (hmem _ (Multiset.mem_cons_self _ _)) (headOff_le hfs.valid)
    fun pos => safe_freeLoop (c := c) hfs hmem ?_ ?_ hdb
  · intro pre r post db pos hsplit hkey hdata hdb
    have hr : r ∈ fs := hsplit ▸ mem_append_right _ mem_cons_self
    have hv := hfs.valid r hr
    have hoff := hv.off_ne
    have hrest : ∀ q ∈ pre ++ post, q ∈ fs := by
      intro q hq
      rw [hsplit]
      exact (sublist_append_right [r] post).append_left pre |>.subset hq
    have hpost : (headOff post : ℤ) ≤ ptrMax :=
      headOff_le fun q hq => hfs.valid q (hrest q (mem_append_right _ hq))
    simp only [hoff, ↓reduceIte, Prog.bind_assoc, call_bind, ret_bind]
    refine safe_dbWriteptr (m := r.off) (t := lastTail [] pre) (r.datCell ::ₘ
      r.idxCell (headOff post) ::ₘ (front freeOff [] pre + body post) + own) ?_ hv.off_le hpost
      fun pos => ?_
    · rw [hsplit, cells_append_cons]
      simp only [← Multiset.singleton_add]
      abel
    refine .note (b := ptrField (headOff post) ++ r.tail) (by simp [Rec.idxCell, DB.atRec]) ?_
    refine safe_unlockFree (pre ++ post) (r.datCell ::ₘ r.idxCell (headOff post) ::ₘ own) ?_ ?_
      (fun _ => rfl) ?_ ?_
    · rw [cells_append_eq_cons]
      simp only [← Multiset.singleton_add]
      abel
    · exact ⟨fun q hq => hfs.valid q (hrest q hq), fun q hq => hfs.blank q (hrest q hq)⟩
    · intro x hx
      rw [mem_singleton.mp hx]
      exact ⟨ptrField (headOff post) ++ r.tail, by simp [Rec.idxCell, DB.atRec]⟩
    · exact hfound r (headOff post) db pos hv hpost hkey hdata hdb
  · intro save db pos hdb
    simp only [↓reduceIte]
    exact safe_unlockFree fs own rfl hfs (fun _ => rfl)
      (fun _ hx => absurd hx not_mem_nil) (hnone db pos hdb)

end Rules

end UnixPrograms.Db
