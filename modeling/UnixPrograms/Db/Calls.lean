import UnixPrograms.Db.Search

/-!
# The calls of the library

`dbFetch`, `dbDelete` and `dbStore` take the lock of a hash chain and give it back when they return,
so that a call is one step on the records of the chain.  The chain then has the data that `specStep`
says.
-/

namespace UnixPrograms.Db

open Function List Multiset Prog Rec

/-! ## The specification -/

/-- One of the three flags of `db_store`. -/
def validFlag (flag : ℤ) : Prop := flag = dbInsert ∨ flag = dbReplace ∨ flag = dbStoreFlag

instance (flag : ℤ) : Decidable (validFlag flag) := inferInstanceAs (Decidable (_ ∨ _))

/-- What a call does to a map from keys to data, and what it returns. -/
def specStep (m : Bytes → Option Bytes) : Op → Val × (Bytes → Option Bytes)
  | .fetch key => (.data (m key), m)
  | .delete key => if m key = none then (.status (-1), m) else (.status 0, update m key none)
  | .store key data flag =>
    if ¬ validFlag flag then (.status (-1), m)
    else if flag = dbInsert ∧ m key ≠ none then (.status 1, m)
    else if flag = dbReplace ∧ m key = none then (.status (-1), m)
    else (.status 0, update m key (some data))

def Op.key : Op → CString
  | .fetch key => key
  | .delete key => key
  | .store key _ _ => key

/-- The errors of the length checks and of the checks against `ptrMax`. -/
def DbError.IsLimit : DbError → Prop
  | .storeDatlen | .writeidxLength | .writeidxPtr _ | .writeptrPtr _ => True
  | _ => False

instance (e : DbError) : Decidable e.IsLimit := by
  cases e <;> unfold DbError.IsLimit <;> infer_instance

/-- A call on the chain `c` has turned the records `es` into `es'` and returned `v`. -/
structure Performs (o : Op) (es : List Rec) (v : Val) (es' : List Rec) : Prop where
  search : search es o.key = .ok (lookup es o.key)
  val : v = (specStep (lookup es) o).1
  lookup : ∀ key, lookup es' key = (specStep (lookup es) o).2 key

/-! ## How a call ends -/

/-- How a call returns: it has worked on the chain of its key, or it was a `dbStore` with a flag
that is none of the three. -/
def Returned (K : Bytes → Prop) (o : Op) (a : Val × DB) (d : Option (Res × List Rec × List Rec)) :
    Prop :=
  Opened a.2 ∧ match d with
    | none => ∀ m, specStep m o = (a.1, m)
    | some (r, es, es') =>
      r = .inl (chainOf o.key) ∧ Chain K (chainOf o.key) es ∧ Performs o es a.1 es'

/-- A store whose data have a length that is accepted. -/
def Op.GoodDatlen : Op → Prop
  | .store _ data _ => datlenMin ≤ data.val.length + 1 ∧ data.val.length + 1 ≤ datlenMax
  | _ => False

/-- A store whose data have a length that is refused. -/
def Op.BadDatlen : Op → Prop
  | .store _ data _ => ¬ (datlenMin ≤ data.val.length + 1 ∧ data.val.length + 1 ≤ datlenMax)
  | _ => False

lemma Op.GoodDatlen.not_bad {o : Op} (h : o.GoodDatlen) : ¬ o.BadDatlen := by
  cases o with
  | store key data flag => exact not_not_intro h
  | _ => exact h.elim

def without (key : Bytes) (es : List Rec) : List Rec := es.filter fun r => r.key ≠ key

/-- How a call ends the process: by a data length that is refused before anything is locked; by a
record on the chain that cannot be read; or, in `dbStore`, by a later check, when the record with
the key is no longer on the chain. -/
inductive Aborted (K : Bytes → Prop) (o : Op) : DbError → Holding DbFile Res (List Rec) → Prop
  | datlen {pos : DbFile → ℕ} (h : o.BadDatlen) : Aborted K o .storeDatlen (.empty pos)
  | unreadable {m : LockMode} {es : List Rec} {pos : DbFile → ℕ} (hes : Chain K (chainOf o.key) es)
      (hsearch : search es o.key = .error .readidxTooManySeps) :
      Aborted K o .readidxTooManySeps (locked m (chainOf o.key) es pos)
  | limit {e : DbError} {es : List Rec} {extra : Multiset (Cell DbFile)} {pos : DbFile → ℕ}
      (he : e.IsLimit) (ho : o.GoodDatlen) (hes : Chain K (chainOf o.key) es)
      (hsearch : search es o.key = .ok (lookup es o.key)) :
      Aborted K o e ⟨chainCells (chainOf o.key) (without o.key es) + extra, 0, pos,
        chainLock (chainOf o.key) .write es, fun _ => false, []⟩

/-! ## Chains with a record more or less -/

lemma without_eq_self {key : Bytes} {es : List Rec} (h : ∀ r ∈ es, r.key ≠ key) :
    without key es = es := by
  refine filter_eq_self.mpr fun r hr => ?_
  simpa using h r hr

variable {post pre : List Rec} {r : Rec} {c : ℕ} {K : Bytes → Prop}

lemma without_append_cons (hnd : ((pre ++ r :: post).map key).Nodup) :
    without r.key (pre ++ r :: post) = pre ++ post := by
  have hrest : without r.key (pre ++ post) = pre ++ post :=
    without_eq_self (lookup_eq_none_iff.mp (lookup_append_of_nodup hnd))
  rw [without, filter_append, filter_cons_of_neg (by simp), ← filter_append]
  exact hrest

lemma Chain.sublist {es es' : List Rec} (hes : Chain K c es) (hsub : es'.Sublist es) :
    Chain K c es' :=
  ⟨fun q hq => hes.valid q (hsub.subset hq), fun q hq => hes.allowed q (hsub.subset hq),
    fun q hq => hes.hash q (hsub.subset hq), hes.nodup.sublist (hsub.map _)⟩

lemma Chain.remove (hes : Chain K c (pre ++ r :: post)) : Chain K c (pre ++ post) :=
  hes.sublist ((sublist_cons_self r post).append_left pre)

lemma Chain.push {es : List Rec} (hes : Chain K c es) (hr : r.Valid) (hK : K r.key)
    (hhash : dbHash nhashDef r.key = c) (hnew : ∀ q ∈ es, q.key ≠ r.key) : Chain K c (r :: es) where
  valid := forall_mem_cons.mpr ⟨hr, hes.valid⟩
  allowed := forall_mem_cons.mpr ⟨hK, hes.allowed⟩
  hash := List.forall_mem_cons.mpr ⟨hhash, hes.hash⟩
  nodup := by
    rw [List.map_cons, List.nodup_cons]
    refine ⟨fun hmem => ?_, hes.nodup⟩
    obtain ⟨q, hq, hkey⟩ := mem_map.mp hmem
    exact hnew q hq hkey

section

variable (hes : Chain K c (pre ++ r :: post))
include hes

lemma Chain.exchange {data : Bytes}
    (hr : (r.withData data).Valid) : Chain K c (pre ++ r.withData data :: post) := by
  have hmem : ∀ q ∈ pre ++ r.withData data :: post, q = r.withData data ∨ q ∈ pre ++ r :: post := by
    intro q hq
    rcases mem_append.mp hq with hq | hq
    · exact .inr (mem_append_left _ hq)
    · rcases mem_cons.mp hq with rfl | hq
      · exact .inl rfl
      · exact .inr (mem_append_right _ (mem_cons_of_mem _ hq))
  have hold : r ∈ pre ++ r :: post := mem_append_right _ mem_cons_self
  refine ⟨fun q hq => ?_, fun q hq => ?_, fun q hq => ?_, ?_⟩
  · rcases hmem q hq with rfl | hq
    · exact hr
    · exact hes.valid q hq
  · rcases hmem q hq with rfl | hq
    · exact hes.allowed r hold
    · exact hes.allowed q hq
  · rcases hmem q hq with rfl | hq
    · exact hes.hash r hold
    · exact hes.hash q hq
  · have hnd := hes.nodup
    rw [map_append, List.map_cons] at hnd ⊢
    exact hnd

lemma Chain.lookup_remove (key : Bytes) :
    lookup (pre ++ post) key = update (lookup (pre ++ r :: post)) r.key none key := by
  by_cases hkey : key = r.key
  · subst hkey
    rw [update_self, lookup_append_of_nodup hes.nodup]
  · rw [update_of_ne hkey, lookup_append_cons_of_ne (Ne.symm hkey)]

lemma Chain.lookup_exchange {data : Bytes} (key : Bytes) :
    lookup (pre ++ r.withData data :: post) key =
      update (lookup (pre ++ r :: post)) r.key (some data) key := by
  have hnd : ((pre ++ r.withData data :: post).map Rec.key).Nodup := by
    have hnd := hes.nodup
    rw [map_append, List.map_cons] at hnd ⊢
    exact hnd
  by_cases hkey : key = r.key
  · subst hkey
    rw [update_self]
    exact lookup_append_cons hnd
  · rw [update_of_ne hkey, lookup_append_cons_of_ne (Ne.symm hkey),
      lookup_append_cons_of_ne (r := r.withData data) (Ne.symm hkey)]

end

lemma lookup_cons_eq_update (r : Rec) (es : List Rec) (key : Bytes) :
    lookup (r :: es) key = update (lookup es) r.key (some r.data) key := by
  by_cases hkey : key = r.key
  · subst hkey
    rw [update_self, lookup_cons, if_pos rfl]
  · rw [update_of_ne hkey, lookup_cons, if_neg (Ne.symm hkey)]

section Rules

variable {K : Bytes → Prop} {α : Type} {Φ : α → Option (Res × List Rec × List Rec) → Prop}
  {Ψ : DbError → Holding DbFile Res (List Rec) → Prop} {own view : Multiset (Cell DbFile)}
  {pos : DbFile → ℕ} {held : Res → Option (LockMode × List Rec)} {atEnd : DbFile → Bool}
  {noted : List (DbFile × ℕ)} {db : DB}

/-! ## The ends of the calls -/

variable {es : List Rec} {o : Op} {key data : CString} {k : ℤ × DB → DbProg α} {flag : ℤ}

lemma safe_finish_write {a : Val × DB} {es' : List Rec} (hdb : Opened a.2)
    (hchain : AtChain (chainOf o.key) db) (hes : Chain K (chainOf o.key) es)
    (hes' : Chain K (chainOf o.key) es') (hdo : Performs o es a.1 es') :
    Safe (protocol K) (Returned K o) Ψ (.call (.unlck .idx db.chainoff 1) fun _ => .ret a)
      ⟨chainCells (chainOf o.key) es', 0, pos, chainLock (chainOf o.key) .write es, fun _ => false,
        noted⟩ :=
  .finish (r := .inl (chainOf o.key)) ⟨rfl, hchain.chainoff.symm, rfl⟩
    ⟨fun _ hr => chainLock_of_ne hr, fun _ => rfl, .inl ⟨chainLock_self .., rfl, hes'⟩⟩
    ⟨hdb, rfl, hes, hdo⟩

lemma safe_finish_locked {a : Val × DB} {m : LockMode} (hdb : Opened a.2)
    (hchain : AtChain (chainOf o.key) db) (hes : Chain K (chainOf o.key) es)
    (hdo : Performs o es a.1 es) :
    Safe (protocol K) (Returned K o) Ψ (.call (.unlck .idx db.chainoff 1) fun _ => .ret a)
      (locked m (chainOf o.key) es pos) := by
  refine .finish (r := .inl (chainOf o.key)) ⟨rfl, hchain.chainoff.symm, rfl⟩
    ⟨fun _ hr => chainLock_of_ne hr, fun _ => rfl, ?_⟩ ⟨hdb, rfl, hes, hdo⟩
  cases m with
  | write => exact .inl ⟨chainLock_self .., rfl, hes⟩
  | read => exact .inr ⟨chainLock_self .., rfl, rfl⟩

/-! ## Fetching and deleting -/

lemma safe_fetch (hdb : Opened db) :
    Safe (protocol K) (Returned K (.fetch key)) (Aborted K (.fetch key)) (library (.fetch key) db)
      (.empty pos) := by
  simp only [library, dbFetch, unLock, bind_eq, Prog.bind_assoc, perform_bind,
    pure_eq_ret, ret_bind]
  refine safe_dbFindAndLock (m := .read) rfl hdb (fun es pos hes hsep => .unreadable hes hsep) ?_ ?_
  · intro es pre r post db pos hes hsplit hkey hsearch hdb
    have hr : r.Valid := hes.valid r (hsplit ▸ mem_append_right _ mem_cons_self)
    have hmem : r.datCell ∈ (locked .read (chainOf key.val) es pos).own +
        (locked .read (chainOf key.val) es pos).view := by
      refine mem_locked _ _ _ _ _ ?_
      rw [hsplit, chainCells, cells_append_cons]
      simp
    simp only [show ¬ (0 : ℤ) < 0 by decide, ↓reduceIte, Prog.bind_assoc]
    refine safe_dbReaddat hr hmem rfl rfl fun pos => ?_
    refine safe_finish_locked (o := .fetch key) ⟨hdb.hashoff, hdb.nhash⟩
      ⟨⟨hdb.hashoff, hdb.nhash⟩, hdb.chainoff⟩ hes ⟨search_eq_lookup hsearch, ?_, fun _ => rfl⟩
    change Val.data (some r.data) = Val.data (lookup es key.val)
    rw [lookup_of_search hsearch]
  · intro es db pos hes hsearch hdb
    simp only [show (-1 : ℤ) < 0 by decide, ↓reduceIte]
    refine safe_finish_locked (o := .fetch key) hdb.toOpened hdb hes
      ⟨search_eq_lookup hsearch, ?_, fun _ => rfl⟩
    change Val.data none = Val.data (lookup es key.val)
    rw [lookup_of_search hsearch]

lemma safe_delete (hdb : Opened db) :
    Safe (protocol K) (Returned K (.delete key)) (Aborted K (.delete key))
      (library (.delete key) db)
      (.empty pos) := by
  simp only [library, dbDelete, unLock, bind_eq, Prog.bind_assoc, perform_bind,
    pure_eq_ret, ret_bind]
  refine safe_dbFindAndLock (m := .write) rfl hdb (fun es pos hes hsep =>
    .unreadable hes hsep) ?_ ?_
  · intro es pre r post db pos hes hsplit hkey hsearch hdb
    subst hsplit
    have hfound : lookup (pre ++ r :: post) key.val ≠ none := by
      rw [lookup_of_search hsearch]
      exact Option.some_ne_none _
    simp only [↓reduceIte, Prog.bind_assoc]
    refine safe_dbDodelete hes hdb fun db pos hdb => ?_
    refine safe_finish_write (o := .delete key) hdb.toOpened hdb hes hes.remove
      ⟨search_eq_lookup hsearch, ?_, fun key' => ?_⟩
    · simp only [specStep, hfound, ↓reduceIte]
    · simp only [specStep, hfound, ↓reduceIte]
      rw [hes.lookup_remove, hkey]
  · intro es db pos hes hsearch hdb
    have hnone : lookup es key.val = none := lookup_of_search hsearch
    simp only [show (-1 : ℤ) ≠ 0 by decide, ↓reduceIte]
    refine safe_finish_locked (o := .delete key) hdb.toOpened hdb hes
      ⟨search_eq_lookup hsearch, ?_, fun key' => ?_⟩
    · simp only [specStep, hnone, ↓reduceIte]
    · simp only [specStep, hnone, ↓reduceIte]

/-! ## Storing -/

lemma safe_appendRecord {c : Fin nhashDef} {es' : List Rec} (hes' : Chain K c es')
    (hdb : AtChain c db) (hdata : data.val.length + 1 ≤ datlenMax)
    (hbad : ∀ e extra pos, e.IsLimit → Ψ e ⟨chainCells c es' + extra, 0, pos, chainLock c .write
      es, fun _ => false, []⟩)
    (hk : ∀ r db pos, r.Valid → r.key = key.val → r.data = data.val → AtChain c db → Safe (protocol
      K) Φ Ψ (k (0, db)) ⟨chainCells c (r :: es'), 0, pos, chainLock c .write es, fun _ => false,
      []⟩) :
    Safe (protocol K) Φ Ψ ((appendRecord db key data (headOff es')).bind k)
      ⟨chainCells c es', 0, pos, chainLock c .write es, fun _ => false, []⟩ := by
  have hchain : ∃ c', chainLock c .write es (.inl c') ≠ none := ⟨c, by simp⟩
  simp only [appendRecord, bind_eq, Prog.bind_assoc, pure_eq_ret, ret_bind]
  refine safe_dbWritedat_end (chainLock_inr c .write es) hchain (fun _ => rfl) fun n pos => ?_
  refine safe_dbWriteidx_end (r := ⟨0, key.val, n, data.val⟩) (chainLock_inr c .write es) hchain
    (fun _ => rfl) hdb.nhash (headOff_le hes'.valid) rfl rfl ?_ ?_
  · intro _
    rw [← singleton_add, add_comm]
    exact hbad _ _ _ trivial
  intro hlo hhi o pos ho
  by_cases hptr : (o : ℤ) ≤ ptrMax
  · have hr : Rec.Valid ⟨o, key.val, n, data.val⟩ :=
      ⟨ho, hptr, key.property, data.property, hlo, hhi, hdata⟩
    simp only [hdb.chainoff]
    refine safe_dbWriteptr (m := headOff es') (t := []) (datCell ⟨o, key.val, n, data.val⟩ ::ₘ
      idxCell ⟨o, key.val, n, data.val⟩ (headOff es') ::ₘ body es') ?_
        (headOff_le hes'.valid) hptr
      fun pos => ?_
    · have htail : tail ⟨0, key.val, n, data.val⟩ = tail ⟨o, key.val, n, data.val⟩ := rfl
      rw [chainCells, cells, htail]
      simp only [datCell, idxCell, ← singleton_add]
      abel
    · exact hk _ _ _ hr rfl rfl ⟨⟨hdb.hashoff, hdb.nhash⟩, rfl⟩
  · refine safe_dbWriteptr_of_lt (by omega) ?_
    rw [← singleton_add, ← singleton_add, ← add_assoc, add_comm]
    exact hbad _ _ _ trivial

lemma Rec.Valid.reuse {r : Rec} (hr : r.Valid) (hkey : r.key.length = key.val.length)
    (hdata : r.data.length = data.val.length) : Rec.Valid ⟨r.off, key.val, r.datoff, data.val⟩ := by
  have hlen : (text ⟨r.off, key.val, r.datoff, data.val⟩).length = r.text.length :=
    length_text_eq hkey.symm rfl hdata.symm
  exact ⟨hr.le_off, hr.off_le, key.property, data.property, hlen ▸ hr.le_len, hlen ▸ hr.len_le,
    hdata ▸ hr.datlen_le⟩

lemma safe_storeNew (hflag : validFlag flag) (hK : K key.val)
    (hdata : datlenMin ≤ data.val.length + 1 ∧ data.val.length + 1 ≤ datlenMax)
    (hes : Chain K (chainOf key.val) es) (hsearch : search es key = .ok none)
    (hdb : AtChain (chainOf key.val) db)
    (hk : ∀ rc db es' noted pos, AtChain (chainOf key.val) db → Chain K (chainOf key.val) es' →
      Performs (.store key data flag) es (.status rc) es' → Safe (protocol K) Φ (Aborted K (.store
      key data flag)) (k (rc, db)) ⟨chainCells (chainOf key.val) es', 0, pos, chainLock (chainOf
      key.val) .write es, fun _ => false, noted⟩) :
    Safe (protocol K) Φ (Aborted K (.store key data flag)) ((storeNew db key data flag).bind k)
      ⟨chainCells (chainOf key.val) es, 0, pos, chainLock (chainOf key.val) .write es,
        fun _ => false, []⟩ := by
  set c := chainOf key.val with hc
  have hlookup : lookup es key.val = none := lookup_of_search hsearch
  have hnone : ∀ r ∈ es, r.key ≠ key.val := lookup_eq_none_iff.mp hlookup
  by_cases hrep : flag = dbReplace
  · subst hrep
    simp only [storeNew, ↓reduceIte, pure_eq_ret, ret_bind]
    refine hk _ db es [] _ hdb hes ⟨search_eq_lookup hsearch, ?_, fun key' => ?_⟩ <;>
      simp only [specStep, hflag, hlookup, not_true_eq_false, ne_eq, and_false, and_self,
        ↓reduceIte]
  -- whatever record is put in front of the chain, the key then has its data
  have hput : ∀ r : Rec, r.key = key.val → r.data = data.val →
      Performs (.store key data flag) es (.status 0) (r :: es) := by
    intro r hkey hval
    refine ⟨search_eq_lookup hsearch, ?_, fun key' => ?_⟩ <;>
      simp only [specStep, hflag, hrep, hlookup, not_true_eq_false, ne_eq, and_false, false_and,
        ↓reduceIte]
    rw [lookup_cons_eq_update, hkey, hval]
  have hpush : ∀ r : Rec, r.Valid → r.key = key.val → Chain K c (r :: es) := by
    intro r hr hkey
    exact hes.push hr (hkey ▸ hK) (hkey ▸ rfl) (hkey ▸ hnone)
  simp only [storeNew, hrep, ↓reduceIte, bind_eq, Prog.bind_assoc, hdb.chainoff]
  refine safe_dbReadptr (t := []) (mem_add.mpr (.inl (Multiset.mem_cons_self _ _)))
    (headOff_le hes.valid) fun pos => ?_
  refine safe_dbFindfree hdb ?_ ?_
  · intro db pos hdb
    simp only [show (-1 : ℤ) < 0 by decide, ↓reduceIte]
    refine safe_appendRecord hes hdb hdata.2 ?_ ?_
    · intro e extra pos he
      have hcells : chainCells c es = chainCells c (without key.val es) := by
        rw [without_eq_self hnone]
      rw [hcells]
      exact .limit he hdata hes (search_eq_lookup hsearch)
    · intro r db pos hr hkey hval hdb
      exact hk 0 db (r :: es) [] pos hdb (hpush r hr hkey) (hput r hkey hval)
  · intro r n db pos hr hn hkey hval hdb
    have hdlen : data.val.length = r.data.length := by omega
    have hq := hr.reuse hkey hdlen.symm
    simp only [lt_self_iff_false, ↓reduceIte, Prog.bind_assoc, pure_eq_ret, ret_bind]
    refine safe_dbWritedat_set (r := r) (r.idxCell n ::ₘ chainCells c es) rfl hdlen fun pos => ?_
    refine safe_dbWriteidx_set (r := ⟨r.off, key.val, r.datoff, data.val⟩)
      (b := ptrField n ++ r.tail) ((r.withData data.val).datCell ::ₘ chainCells c es)
      (cons_swap _ _ _) ?_ hq.le_len hq.len_le (headOff_le hes.valid) rfl rfl fun pos => ?_
    · rw [length_idxBlock hn hr.len_le]
      exact congrArg _ (length_text_eq hkey rfl hdlen.symm)
    simp only [DB.atRec, hdb.chainoff]
    refine safe_dbWriteptr (m := headOff es) (t := [])
      (datCell ⟨r.off, key.val, r.datoff, data.val⟩ ::ₘ
        idxCell ⟨r.off, key.val, r.datoff, data.val⟩ (headOff es) ::ₘ body es) ?_
      (headOff_le hes.valid) hr.off_le fun pos => ?_
    · have hcell : (r.withData data.val).datCell =
          datCell ⟨r.off, key.val, r.datoff, data.val⟩ := rfl
      rw [chainCells, cells, hcell]
      simp only [← singleton_add]
      abel
    · refine hk 0 _ _ _ pos ?_ (hpush _ hq rfl) (hput _ rfl rfl)
      exact ⟨⟨hdb.hashoff, hdb.nhash⟩, rfl⟩

lemma safe_storeOld {pre post : List Rec} {r : Rec} (hflag : validFlag flag) (hK : K key.val)
    (hdata : datlenMin ≤ data.val.length + 1 ∧ data.val.length + 1 ≤ datlenMax)
    (hes : Chain K (chainOf key.val) (pre ++ r :: post)) (hkey : r.key = key.val)
    (hsearch : search (pre ++ r :: post) key = .ok (some r.data))
    (hdb : AtChain (chainOf key.val) db)
    (hk : ∀ rc db es' noted pos, AtChain (chainOf key.val) db → Chain K (chainOf key.val) es' →
      Performs (.store key data flag) (pre ++ r :: post) (.status rc) es' → Safe (protocol K) Φ
      (Aborted K (.store key data flag)) (k (rc, db)) ⟨chainCells (chainOf key.val) es', 0, pos,
      chainLock (chainOf key.val) .write (pre ++ r :: post), fun _ => false, noted⟩) :
    Safe (protocol K) Φ (Aborted K (.store key data flag))
      ((storeOld ({ db with ptroff := lastOff (chainOff (chainOf key.val)) pre }.atRec r
        (headOff post)) key data flag).bind k)
      ⟨chainCells (chainOf key.val) (pre ++ r :: post), 0, pos,
        chainLock (chainOf key.val) .write (pre ++ r :: post), fun _ => false, []⟩ := by
  set c := chainOf key.val with hc
  have hr : r.Valid := hes.valid r (mem_append_right _ mem_cons_self)
  have hlookup : lookup (pre ++ r :: post) key.val ≠ none := by
    rw [lookup_of_search hsearch]
    exact Option.some_ne_none _
  by_cases hins : flag = dbInsert
  · subst hins
    simp only [storeOld, ↓reduceIte, pure_eq_ret, ret_bind]
    refine hk 1 _ _ [] pos ⟨⟨hdb.hashoff, hdb.nhash⟩, hdb.chainoff⟩ hes
      ⟨search_eq_lookup hsearch, ?_, fun key' => ?_⟩ <;>
      simp only [specStep, hflag, hlookup, not_true_eq_false, ne_eq, not_false_eq_true, and_self,
        ↓reduceIte]
  have hput : ∀ es' : List Rec, (∀ key', lookup es' key' =
        update (lookup (pre ++ r :: post)) key.val (some data.val) key') →
      Performs (.store key data flag) (pre ++ r :: post) (.status 0) es' := by
    intro es' hes'
    refine ⟨search_eq_lookup hsearch, ?_, fun key' => ?_⟩ <;>
      simp only [specStep, hflag, hins, hlookup, not_true_eq_false, ne_eq, and_false, false_and,
        ↓reduceIte]
    exact hes' key'
  have hremove : ∀ key', lookup (pre ++ post) key' =
      update (lookup (pre ++ r :: post)) key.val none key' := fun key' => by
    rw [hes.lookup_remove, hkey]
  have hnew : ∀ q ∈ pre ++ post, q.key ≠ key.val := by
    have hnone := hremove key.val
    rw [update_self] at hnone
    exact lookup_eq_none_iff.mp hnone
  have hatlen : ({ db with ptroff := lastOff (chainOff c) pre }.atRec r (headOff post)).datlen =
      r.data.length + 1 := rfl
  simp only [storeOld, hins, ↓reduceIte, bind_eq, hatlen]
  by_cases hlen : data.val.length + 1 ≠ r.data.length + 1
  · -- the old record goes to the free list, the new one to the ends of the files
    rw [if_pos hlen, Prog.bind_assoc]
    refine safe_dbDodelete hes hdb fun db pos hdb => ?_
    rw [Prog.bind_assoc, hdb.chainoff]
    refine safe_dbReadptr (t := []) (mem_add.mpr (.inl (Multiset.mem_cons_self _ _)))
      (headOff_le hes.remove.valid) fun pos => ?_
    refine safe_appendRecord hes.remove hdb hdata.2 ?_ ?_
    · intro e extra pos he
      have hcells : chainCells c (pre ++ post) =
          chainCells c (without key.val (pre ++ r :: post)) := by
        rw [← hkey, without_append_cons hes.nodup]
      rw [hcells]
      exact .limit he hdata hes (search_eq_lookup hsearch)
    · intro q db pos hq hqkey hqdata hdb
      refine hk 0 db _ [] pos hdb (hes.remove.push hq (hqkey ▸ hK) (hqkey ▸ rfl) (hqkey ▸ hnew))
        (hput _ fun key' => ?_)
      rw [lookup_cons_eq_update, hqkey, hqdata]
      by_cases hkey' : key' = key.val
      · subst hkey'
        rw [update_self, update_self]
      · rw [update_of_ne hkey', update_of_ne hkey', hremove, update_of_ne hkey']
  · -- the data record is overwritten
    have hdlen : data.val.length = r.data.length := by omega
    have hq : (r.withData data.val).Valid := by
      have htext : (r.withData data.val).text.length = r.text.length :=
        length_text_eq rfl rfl hdlen
      exact ⟨hr.le_off, hr.off_le, hr.key_nul, data.property, htext ▸ hr.le_len, htext ▸ hr.len_le,
        hdata.2⟩
    have hidx : (r.withData data.val).idxCell (headOff post) = r.idxCell (headOff post) := by
      simp only [idxCell, Rec.tail, text, withData, hdlen]
    rw [if_neg hlen]
    simp only [Prog.bind_assoc, pure_eq_ret, ret_bind]
    refine safe_dbWritedat_set (r := r)
      (.block .idx (lastOff (chainOff c) pre) (ptrField r.off ++ lastTail [] pre) ::ₘ
        r.idxCell (headOff post) ::ₘ (front (chainOff c) [] pre + body post)) ?_ hdlen fun pos => ?_
    · rw [chainCells, cells_append_cons, cons_swap]
    · have hcells : chainCells c (pre ++ r.withData data.val :: post) =
          (r.withData data.val).datCell ::ₘ
            .block .idx (lastOff (chainOff c) pre) (ptrField r.off ++ lastTail [] pre) ::ₘ
              r.idxCell (headOff post) ::ₘ (front (chainOff c) [] pre + body post) := by
        rw [chainCells, cells_append_cons, hidx, cons_swap]
        rfl
      rw [← hcells]
      exact hk 0 _ _ [] pos ⟨⟨hdb.hashoff, hdb.nhash⟩, hdb.chainoff⟩ (hes.exchange hq)
        (hput _ fun key' => by rw [hes.lookup_exchange, hkey])

lemma safe_store (hdb : Opened db) (hK : K key.val) :
    Safe (protocol K) (Returned K (.store key data flag)) (Aborted K (.store key data flag))
      (library (.store key data flag) db) (.empty pos) := by
  by_cases hflag : validFlag flag
  · have hcheck : ¬ (flag ≠ dbInsert ∧ flag ≠ dbReplace ∧ flag ≠ dbStoreFlag) := by
      rintro ⟨h₁, h₂, h₃⟩
      rcases hflag with h | h | h
      · exact h₁ h
      · exact h₂ h
      · exact h₃ h
    simp only [library, dbStore, hcheck, ↓reduceIte, unLock, bind_eq, Prog.bind_assoc,
      perform_bind, pure_eq_ret]
    by_cases hdata : datlenMin ≤ data.val.length + 1 ∧ data.val.length + 1 ≤ datlenMax
    · rw [require_bind_of_true _ hdata]
      refine safe_dbFindAndLock (m := .write) rfl hdb (fun es pos hes hsep => .unreadable hes hsep)
        ?_ ?_
      · intro es pre r post db pos hes hsplit hkey hsearch hdb
        subst hsplit
        simp only [lt_self_iff_false, ↓reduceIte, Prog.bind_assoc]
        refine safe_storeOld hflag hK hdata hes hkey hsearch hdb ?_
        intro rc db es' noted pos hdb hes' hdo
        exact safe_finish_write (o := .store key data flag) hdb.toOpened hdb hes hes' hdo
      · intro es db pos hes hsearch hdb
        simp only [show (-1 : ℤ) < 0 by decide, ↓reduceIte, Prog.bind_assoc]
        refine safe_storeNew hflag hK hdata hes hsearch hdb ?_
        intro rc db es' noted pos hdb hes' hdo
        exact safe_finish_write (o := .store key data flag) hdb.toOpened hdb hes hes' hdo
    · rw [require_bind_of_false _ hdata]
      exact .fail (.datlen hdata)
  · have hcheck : flag ≠ dbInsert ∧ flag ≠ dbReplace ∧ flag ≠ dbStoreFlag :=
      ⟨fun h => hflag (.inl h), fun h => hflag (.inr (.inl h)), fun h => hflag (.inr (.inr h))⟩
    simp only [library, dbStore, hcheck, ↓reduceIte, ne_eq, not_false_eq_true, and_self, bind_eq,
      pure_eq_ret, ret_bind]
    refine .ret (fun _ => rfl) ⟨hdb, fun m => ?_⟩
    simp only [specStep, hflag, not_false_eq_true, ↓reduceIte]

lemma safe_library (hdb : Opened db) (hK : K o.key.val) :
    Safe (protocol K) (Returned K o) (Aborted K o) (library o db) (.empty pos) := by
  cases o with
  | fetch key => exact safe_fetch hdb
  | delete key => exact safe_delete hdb
  | store key data flag => exact safe_store hdb hK

end Rules

end UnixPrograms.Db
