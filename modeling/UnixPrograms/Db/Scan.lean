import UnixPrograms.Db.Alone
import UnixPrograms.Db.Sequential

/-!
# Reading a database from front to back

`dbRewind` and then `dbNextrec` go from one index record to the one behind it, and take a key of
blanks for a deleted record.  With keys that have no separator and a character other than a blank,
the scan meets each record of the map once (`dbScan_session`); for other keys a store does not do
what it promises (`stored_iff`).
-/

namespace UnixPrograms.Db

open Prog World

open Multiset

def scanStep : List (Bytes × Bytes) × DB →
    DbProg ((List (Bytes × Bytes) × DB) ⊕ (List (Bytes × Bytes) × DB))
  | (met, db) => do
    let (ptr, db) ← dbNextrec db
    match ptr with
    | none => return .inr (met, db)
    | some x => return .inl (met ++ [x], db)

def dbScan (db : DB) : DbProg (List (Bytes × Bytes) × DB) := do
  let db ← dbRewind db
  Prog.repeatFrom ([], db) scanStep

/-! ## The records ahead -/

/-- The key is not blank: the record is not taken for a deleted one. -/
def Live (x : Rec × ℕ) : Prop := ∃ c ∈ x.1.key, c ≠ space

instance : DecidablePred Live := fun x => inferInstanceAs (Decidable (∃ c ∈ x.1.key, c ≠ space))

def entry (x : Rec × ℕ) : Bytes × Bytes := (x.1.key, x.1.data)

/-- The records `xs` are still ahead of the scan. -/
structure Ahead {ι : Type} (p : ι) (w : World ι DbFile) (xs : Multiset (Rec × ℕ)) : Prop where
  readable : ∀ x ∈ xs, Readable x
  data : ∀ x ∈ xs, Stands (w.file .dat) x.1.datoff (x.1.data ++ [newline])
  blocks : ∃ pre post : List Bytes, w.file .idx = (pre ++ post).flatten ∧
    w.pos p .idx = pre.flatten.length ∧ blocksFrom pre.flatten.length post = xs.map idxBlock

section Scan

variable {ι : Type} {p : ι} {w : World ι DbFile} {xs : Multiset (Rec × ℕ)}

lemma Ahead.eof (h : Ahead p w 0) : w.pos p .idx = (w.file .idx).length := by
  obtain ⟨pre, post, hfile, hpos, hblocks⟩ := h.blocks
  cases post with
  | nil => rw [hfile, hpos, List.append_nil]
  | cons b post =>
    rw [blocksFrom, Multiset.map_zero] at hblocks
    exact absurd hblocks cons_ne_zero

lemma Ahead.next (h : Ahead p w xs) (hne : xs ≠ 0) :
    ∃ x xs', xs = x ::ₘ xs' ∧ w.pos p .idx = x.1.off ∧
      Stands (w.file .idx) x.1.off (ptrField x.2 ++ x.1.tail) ∧
      ∀ w' : World ι DbFile, w'.file = w.file →
        w'.pos p .idx = x.1.off + (ptrSz + idxlenSz + x.1.text.length) → Ahead p w' xs' := by
  obtain ⟨pre, post, hfile, hpos, hblocks⟩ := h.blocks
  cases post with
  | nil =>
    rw [blocksFrom] at hblocks
    exact absurd (Multiset.map_eq_zero.mp hblocks.symm) hne
  | cons b post =>
    obtain ⟨x, xs', rfl, hoff, -, hblen, hmem, hlen, hrest⟩ :=
      exists_idxBlock (fun x hx => ⟨(h.readable x hx).valid, (h.readable x hx).next⟩) hblocks
    refine ⟨x, xs', rfl, hpos.trans hoff.symm, hfile ▸ stands_block hmem, fun w' hfile' hpos' => ?_⟩
    refine ⟨fun y hy => h.readable y (mem_cons_of_mem hy), fun y hy => ?_,
      pre ++ [b], post, ?_, ?_, hrest⟩
    · rw [hfile']
      exact h.data y (mem_cons_of_mem hy)
    · rw [hfile', hfile, List.append_assoc]
      rfl
    · rw [hpos', hlen, hblen, hoff]

variable [DecidableEq ι] {db : DB}

lemma returns_nextStep (h : Ahead p w xs) :
    (nextStep db).Returns (perform p) w fun y w' => w'.file = w.file ∧
      match y with
      | .inl _ => ∃ x xs', xs = x ::ₘ xs' ∧ ¬ Live x ∧ Ahead p w' xs'
      | .inr (false, _) => xs = 0
      | .inr (true, db') => ∃ x xs', xs = x ::ₘ xs' ∧ Live x ∧ db' = db.atRec x.1 x.2 ∧
        Ahead p w' xs' := by
  by_cases hne : xs = 0
  · subst hne
    refine (returns_dbReadidx_eof h.eof).bind ?_
    rintro ⟨rc, db'⟩ w' ⟨rfl, hfile⟩
    exact .ret ⟨hfile, rfl⟩
  · obtain ⟨x, xs', rfl, hpos, hstands, hrest⟩ := h.next hne
    have hx := h.readable x (mem_cons_self ..)
    refine (returns_dbReadidx (hx.valid.legible hx.sep) hstands hx.next (.inr ⟨rfl, hpos⟩)).bind ?_
    rintro y w' ⟨rfl, hfile, hpos'⟩
    have hrc : ¬ (x.2 : ℤ) < 0 := by omega
    have hkey : cstr (db.atRec x.1 x.2).idxbuf = x.1.key := cstr_buf hx.valid
    simp only [pure_eq_ret, if_neg hrc, hkey, List.all_eq_true, beq_iff_eq]
    by_cases hlive : Live x
    · have hcond : ¬ ∀ c ∈ x.1.key, c = space := by
        obtain ⟨c, hc, hne⟩ := hlive
        exact fun hall => hne (hall c hc)
      rw [if_neg hcond]
      exact .ret ⟨hfile, x, xs', rfl, hlive, rfl, hrest w' hfile hpos'⟩
    · have hcond : ∀ c ∈ x.1.key, c = space := fun c hc =>
        by_contra fun hne => hlive ⟨c, hc, hne⟩
      rw [if_pos hcond]
      exact .ret ⟨hfile, x, xs', rfl, hlive, hrest w' hfile hpos'⟩

lemma returns_nextLoop (h : Ahead p w xs) :
    (Prog.repeatFrom db nextStep).Returns (perform p) w fun y w' => w'.file = w.file ∧
      match y with
      | (false, _) => xs.filter Live = 0
      | (true, db') => ∃ x xs', xs.filter Live = x ::ₘ xs'.filter Live ∧ x ∈ xs ∧ xs' < xs ∧
        (∃ db₀, db' = DB.atRec db₀ x.1 x.2) ∧ Ahead p w' xs' := by
  induction xs using Multiset.strongInductionOn generalizing db w with
  | ih xs ih =>
    apply Prog.Returns.loop
    refine (returns_nextStep h).mono ?_
    rintro (db' | ⟨found, db'⟩) w' ⟨hfile, hy⟩
    · obtain ⟨x, xs', rfl, hdead, hrest⟩ := hy
      refine (ih xs' (lt_cons_self xs' x) hrest).mono ?_
      rintro ⟨found, db''⟩ w'' ⟨hfile', hy⟩
      refine ⟨hfile'.trans hfile, ?_⟩
      rw [filter_cons_of_neg _ hdead]
      cases found with
      | false => exact hy
      | true =>
        obtain ⟨y, ys, hys, hmem, hlt, hdb, hrest'⟩ := hy
        exact ⟨y, ys, hys, mem_cons_of_mem hmem, hlt.trans (lt_cons_self xs' x), hdb, hrest'⟩
    · refine .ret ⟨hfile, ?_⟩
      cases found with
      | false => rw [show xs = 0 from hy, filter_zero]
      | true =>
        obtain ⟨x, xs', rfl, hlive, rfl, hrest⟩ := hy
        exact ⟨x, xs', filter_cons_of_pos _ hlive, mem_cons_self x xs',
          lt_cons_self xs' x, ⟨db, rfl⟩, hrest⟩

lemma stands_of_blocks {bs : List Bytes} (hb : blocksFrom 0 bs = xs.map datBlock) :
    ∀ x ∈ xs, Stands bs.flatten x.1.datoff (x.1.data ++ [newline]) := by
  intro x hx
  have hmem : datBlock x ∈ blocksFrom 0 bs := hb ▸ mem_map_of_mem datBlock hx
  exact stands_block hmem

lemma nodup_of_blocks {o : ℕ} {bs : List Bytes} (hne : ∀ b ∈ bs, b ≠ [])
    (hb : blocksFrom o bs = xs.map idxBlock) : xs.Nodup := by
  have hoffs : ((blocksFrom o bs).map Prod.fst).Nodup := nodup_offsets_blocksFrom hne
  rw [hb, map_map] at hoffs
  exact hoffs.of_map _

omit [DecidableEq ι] in
lemma Ahead.congr {w' : World ι DbFile} (h : Ahead p w xs) (hfile : w'.file = w.file)
    (hpos : w'.pos p .idx = w.pos p .idx) : Ahead p w' xs := by
  refine ⟨h.readable, ?_, ?_⟩
  · rw [hfile]
    exact h.data
  · rw [hfile, hpos]
    exact h.blocks

lemma returns_dbNextrec (h : Ahead p w xs) :
    (dbNextrec db).Returns (perform p) w fun y w' => w'.file = w.file ∧
      match y.1 with
      | none => xs.filter Live = 0
      | some kd => ∃ x xs', xs.filter Live = x ::ₘ xs'.filter Live ∧ kd = entry x ∧ xs' < xs ∧
        Ahead p w' xs' := by
  have hlocked : Ahead p (w.setLock p .idx freeOff 1 (some .read)) xs := h.congr rfl rfl
  simp only [dbNextrec, readwLock, unLock, bind_eq, perform_bind]
  apply Prog.Returns.call
  refine (returns_nextLoop hlocked).bind ?_
  rintro ⟨found, db'⟩ w₁ ⟨hfile₁, hy⟩
  cases found with
  | false =>
    rw [if_neg Bool.false_ne_true]
    exact Prog.Returns.call (.ret ⟨hfile₁, hy⟩)
  | true =>
    obtain ⟨x, xs', hxs, hmem, hlt, ⟨db₀, rfl⟩, hrest⟩ := hy
    have hx := h.readable x hmem
    have hdata : Stands (w₁.file .dat) x.1.datoff (x.1.data ++ [newline]) := by
      rw [hfile₁]
      exact h.data x hmem
    have hoff : (db₀.atRec x.1 x.2).datoff = x.1.datoff := rfl
    rw [if_pos rfl]
    refine (returns_dbReaddat hoff rfl hx.valid.data_nul hdata).bind ?_
    rintro y w₂ ⟨rfl, hfile₂, hpos₂⟩
    apply Prog.Returns.call
    refine .ret ⟨hfile₂.trans hfile₁, x, xs', hxs, ?_, hlt, hrest.congr hfile₂ hpos₂⟩
    rw [entry, show cstr (db₀.atRec x.1 x.2).idxbuf = x.1.key from cstr_buf hx.valid]

lemma returns_scanLoop {met : List (Bytes × Bytes)} (h : Ahead p w xs) :
    (Prog.repeatFrom (met, db) scanStep).Returns (perform p) w fun y w' =>
      w'.file = w.file ∧
        (y.1 : Multiset (Bytes × Bytes)) = met + ((xs.filter Live).map entry) := by
  induction xs using Multiset.strongInductionOn generalizing met db w with
  | ih xs ih =>
    apply Prog.Returns.loop
    refine (returns_dbNextrec h).bind ?_
    rintro ⟨ptr, db'⟩ w' ⟨hfile, hptr⟩
    cases ptr with
    | none =>
      refine .ret (.ret ⟨hfile, ?_⟩)
      rw [show xs.filter Live = 0 from hptr, Multiset.map_zero, add_zero]
    | some kd =>
      obtain ⟨x, xs', hxs, rfl, hlt, hrest⟩ := hptr
      refine .ret ((ih xs' hlt hrest).mono ?_)
      rintro y w'' ⟨hfile', hmet⟩
      refine ⟨hfile'.trans hfile, ?_⟩
      rw [hmet, hxs, map_cons, ← coe_add, add_assoc, coe_singleton, singleton_add]

end Scan

/-! ## Scanning a database at rest -/

section AtRest

variable {ι : Type} [Fintype ι] [DecidableEq ι] {K : Bytes → Prop} {w : World ι DbFile}
  {G : Division ι DbFile Res (List Rec)} {p : ι} {db : DB}

omit [Fintype ι] in
lemma returns_dbRewind (hdb : Opened db) : (dbRewind db).Returns (perform p) w fun _ w' =>
    w' = w.seek p .idx recOff := by
  have hplace : w.target p .idx (((db.nhash + 1) * ptrSz + 1 : ℕ) : ℤ) .seekSet = recOff := by
    rw [hdb.nhash]
    rfl
  have hne : (recOff : ℤ) ≠ -1 := by omega
  simp only [dbRewind, lseek, bind_eq, perform_bind]
  apply returns_lseek hplace
  rw [require_bind_of_true _ hne]
  exact .ret rfl

omit [DecidableEq ι] in
lemma AtRest.ahead {w' : World ι DbFile} (hG : AtRest K w G) (hK : ∀ key, K key → sep ∉ key)
    (hfile : w'.file = w.file) (hpos : w'.pos p .idx = recOff) :
    Ahead p w' (allLinks Finset.univ G.cur) := by
  obtain ⟨pre, post, hidx, hpre, hpost⟩ := hG.blocks_records
  refine ⟨hG.readable hK Finset.univ, ?_, pre, post, ?_, ?_, ?_⟩
  · rw [hfile, hG.sound.content .dat]
    exact stands_of_blocks hG.blocks_dat
  · rw [hfile, hG.sound.content .idx, hidx]
  · rw [hpos, hpre]
  · rw [hpre, hpost]

lemma AtRest.returns_dbScan (hG : AtRest K w G) (hK : ∀ key, K key → sep ∉ key)
    (hdb : Opened db) : (dbScan db).Returns (perform p) w fun y _ => ∃ cs,
      cs = Finset.univ ∧ (allLinks cs G.cur).Nodup ∧
        (y.1 : Multiset (Bytes × Bytes)) = ((allLinks cs G.cur).filter Live).map entry := by
  obtain ⟨pre, post, hidx, -, hpost⟩ := hG.blocks_records
  have hne : ∀ b ∈ post, b ≠ [] := fun b hb => hG.sound.nonempty .idx b (by
    rw [hidx]
    exact List.mem_append_right _ hb)
  -- a name for the set of all chains, which keeps Lean from computing the sum over it
  obtain ⟨cs, hcs⟩ : ∃ cs : Finset (Fin nhashDef), cs = Finset.univ := ⟨_, rfl⟩
  refine (returns_dbRewind hdb).bind ?_
  rintro db' _ rfl
  have hahead := hG.ahead hK (file_seek ..) (pos_seek p .idx recOff w)
  refine (returns_scanLoop hahead).mono ?_
  rintro y w' ⟨-, hmet⟩
  rw [← hcs] at hpost hmet
  refine ⟨cs, hcs, nodup_of_blocks hne hpost, ?_⟩
  rw [hmet, coe_nil, zero_add]

omit [DecidableEq ι] in
lemma AtRest.mem_filter_live (hG : AtRest K w G) (cs : Finset (Fin nhashDef)) (x : Rec × ℕ) :
    x ∈ (allLinks cs G.cur).filter Live ↔ Live x ∧ ∃ c ∈ cs, x ∈ links (G.cur (.inl c)) := by
  rw [mem_filter, allLinks, mem_add, mem_sum]
  constructor
  · rintro ⟨hc | hfree, hx⟩
    · exact ⟨hx, hc⟩
    · obtain ⟨ch, hch, hne⟩ := hx
      exact absurd (hG.freeList.blank x.1 (fst_mem_of_mem_links hfree) ch hch) hne
  · rintro ⟨hx, hc⟩
    exact ⟨.inl hc, hx⟩

omit [DecidableEq ι] in
lemma AtRest.mapOf_eq_some_iff (hG : AtRest K w G) {key data : Bytes} :
    mapOf G.cur key = some data ↔ ∃ c, ∃ x ∈ links (G.cur (.inl c)), entry x = (key, data) := by
  constructor
  · intro hmap
    rw [mapOf, lookup, Option.map_eq_some_iff] at hmap
    obtain ⟨r, hfind, rfl⟩ := hmap
    obtain ⟨n, hn⟩ := exists_link_of_mem (List.mem_of_find?_eq_some hfind)
    have hkey : r.key = key := by simpa using List.find?_some hfind
    exact ⟨_, _, hn, by rw [entry, hkey]⟩
  · rintro ⟨c, x, hx, hxe⟩
    obtain ⟨rfl, rfl⟩ := Prod.mk.inj hxe
    have hr := fst_mem_of_mem_links hx
    have hc : chainOf x.1.key = c := Fin.ext ((hG.chain c).hash x.1 hr)
    obtain ⟨pre, post, hsplit⟩ := List.append_of_mem hr
    have hnd := (hG.chain c).nodup
    rw [mapOf, hc, hsplit]
    exact lookup_append_cons (hsplit ▸ hnd)

omit [DecidableEq ι] in
lemma AtRest.entries (hG : AtRest K w G) {cs : Finset (Fin nhashDef)} (hcs : cs = Finset.univ)
    (hnd : (allLinks cs G.cur).Nodup) {met : List (Bytes × Bytes)}
    (hmet : (met : Multiset (Bytes × Bytes)) = ((allLinks cs G.cur).filter Live).map entry) :
    (met.map Prod.fst).Nodup ∧ ∀ key data,
      (key, data) ∈ met ↔ mapOf G.cur key = some data ∧ ∃ c ∈ key, c ≠ space := by
  constructor
  · rw [← coe_nodup, ← map_coe, hmet, map_map]
    refine Multiset.Nodup.map_on ?_ (hnd.filter _)
    intro x hx y hy hkey
    obtain ⟨-, c, -, hc⟩ := (hG.mem_filter_live cs x).mp hx
    obtain ⟨-, c', -, hc'⟩ := (hG.mem_filter_live cs y).mp hy
    exact hG.eq_of_key hc hc' hkey
  · intro key data
    rw [← mem_coe, hmet, mem_map, hG.mapOf_eq_some_iff]
    constructor
    · rintro ⟨x, hx, hxe⟩
      obtain ⟨hlive, c, -, hc⟩ := (hG.mem_filter_live cs x).mp hx
      have hkey : x.1.key = key := congrArg Prod.fst hxe
      exact ⟨⟨c, x, hc, hxe⟩, hkey ▸ hlive⟩
    · rintro ⟨⟨c, x, hc, hxe⟩, hlive⟩
      have hkey : x.1.key = key := congrArg Prod.fst hxe
      have hx : Live x := by
        rw [Live, hkey]
        exact hlive
      exact ⟨x, (hG.mem_filter_live cs x).mpr ⟨hx, c, hcs ▸ Finset.mem_univ c, hc⟩, hxe⟩

lemma AtRest.returns_entries (hG : AtRest K w G) (hK : ∀ key, K key → sep ∉ key)
    (hdb : Opened db) : (dbScan db).Returns (perform p) w fun y _ =>
      (y.1.map Prod.fst).Nodup ∧ ∀ key data,
        (key, data) ∈ y.1 ↔ mapOf G.cur key = some data ∧ ∃ c ∈ key, c ≠ space := by
  refine (hG.returns_dbScan hK hdb).mono ?_
  rintro y _ ⟨cs, hcs, hnd, hmet⟩
  exact hG.entries hcs hnd hmet

end AtRest

/-! ## Scanning after a session -/

/-- After a session whose keys have no separator in them and a character other than a blank, a scan
meets the entries of the map that the calls have made, each of them once. -/
theorem dbScan_session (ops : List Op)
    (hkeys : ∀ o ∈ ops, sep ∉ o.key.val ∧ ∃ c ∈ o.key.val, c ≠ space) {fuel : ℕ} {vs : List Val}
    {db : DB} {w : World Unit DbFile}
    (hexec : (session ops).exec (perform ()) fuel newFiles = some (.ok (vs, db), w)) :
    (dbScan db).Returns (perform ()) w fun x _ => (x.1.map Prod.fst).Nodup ∧
      ∀ key data, (key, data) ∈ x.1 ↔ (seqRun specStep (fun _ => none) ops).2 key = some data := by
  obtain ⟨n, out, w₁, hexec₁, hout⟩ :=
    exec_session (K := fun key => sep ∉ key ∧ ∃ c ∈ key, c ≠ space) hkeys
  cases exec_unique hexec₁ hexec
  obtain ⟨hdb, G, hG, hrun⟩ := hout
  refine (hG.returns_entries (fun key hkey => hkey.1) hdb).mono ?_
  rintro x _ ⟨hnd, hmem⟩
  refine ⟨hnd, fun key data => ?_⟩
  rw [hmem, hrun]
  refine ⟨fun h => h.1, fun h => ⟨h, ?_⟩⟩
  obtain ⟨c, y, hy, hye⟩ := hG.mapOf_eq_some_iff.mp h
  have hkey : y.1.key = key := congrArg Prod.fst hye
  exact hkey ▸ ((hG.chain c).allowed y.1 (fst_mem_of_mem_links hy)).2

def scanOps (a b c : CString × CString) : List Op :=
  [.store a.1 a.2 dbInsert, .store b.1 b.2 dbInsert, .delete a.1, .store c.1 c.2 dbInsert]

theorem dbScan_session_sample : ∃ a b c db w,
    (session (scanOps a b c)).exec (perform ()) 200 newFiles =
        some (.ok ([.status 0, .status 0, .status 0, .status 0], db), w) ∧
      (dbScan db).Returns (perform ()) w fun x _ => (x.1.map Prod.fst).Nodup ∧
        ∀ key data, (key, data) ∈ x.1 ↔
          (seqRun specStep (fun _ => none) (scanOps a b c)).2 key = some data := by
  let a : CString × CString := (⟨[97], by decide⟩, ⟨[98], by decide⟩)
  let b : CString × CString := (⟨[99], by decide⟩, ⟨[100, 101], by decide⟩)
  let c : CString × CString := (⟨[102], by decide⟩, ⟨[103], by decide⟩)
  obtain ⟨db, w, hrun⟩ : ∃ db w, (session (scanOps a b c)).exec (perform ()) 200 newFiles =
      some (.ok ([.status 0, .status 0, .status 0, .status 0], db), w) :=
    exists_of_returned (by decide +kernel)
  exact ⟨a, b, c, db, w, hrun, dbScan_session (scanOps a b c) (by decide) hrun⟩

/-! ## What a store promises -/

/-- `db_fetch` returns the data. -/
def Fetches (db : DB) (w : World Unit DbFile) (key : CString) (data : Bytes) : Prop :=
  (library (.fetch key) db).Returns (perform ()) w fun x _ => x.1 = .data (some data)

/-- A scan gives the key with the data. -/
def Meets (db : DB) (w : World Unit DbFile) (key data : Bytes) : Prop :=
  (dbScan db).Returns (perform ()) w fun x _ => (key, data) ∈ x.1

section Stored

variable {K : Bytes → Prop} {w : World Unit DbFile} {G : Division Unit DbFile Res (List Rec)}
  {db : DB} {key : CString} {data : Bytes}

/-- What is required of keys can be that which holds of the keys that are there. -/
lemma AtRest.restrict (hG : AtRest K w G) {K' : Bytes → Prop}
    (h : ∀ key data, mapOf G.cur key = some data → K' key) : AtRest K' w G := by
  have hS := hG.sound
  refine ⟨⟨⟨hS.content, hS.nonempty, hS.total, hS.pos, hS.locks, hS.keeps, fun r _ => ?_, hS.excl⟩,
    hG.idle⟩, hG.leak⟩
  have hinv := hG.inv r
  cases r with
  | inl c =>
    obtain ⟨hcells, hchain⟩ := hinv
    refine ⟨hcells, hchain.valid, fun r hr => ?_, hchain.hash, hchain.nodup⟩
    obtain ⟨n, hn⟩ := exists_link_of_mem hr
    exact h _ _ (hG.mapOf_eq_some_iff.mpr ⟨c, _, hn, rfl⟩)
  | inr r => cases r <;> exact hinv

lemma AtRest.fetches (hG : AtRest K w G) (hK : ∀ key, K key → sep ∉ key) (hdb : Opened db)
    (hkey : K key.val) (hmap : mapOf G.cur key = some data) : Fetches db w key data := by
  obtain ⟨n, out, w', hexec, hout⟩ := hG.library (o := .fetch key) (p := ()) hdb hkey
  cases out with
  | ok a =>
    obtain ⟨-, G', -, hspec⟩ := hout
    refine ⟨n, a, w', hexec, ?_⟩
    rw [specStep, hmap] at hspec
    exact (congrArg Prod.fst hspec).symm
  | error e =>
    obtain ⟨h, hab⟩ := hout
    cases hab with
    | datlen hbad => exact hbad.elim
    | unreadable hes hsearch =>
      rw [search_eq_ok (fun r hr => hK r.key (hes.allowed r hr))] at hsearch
      cases hsearch
    | limit _ hgood _ _ => exact hgood.elim

lemma AtRest.notMem_sep_of_fetches (hG : AtRest K w G) (hdb : Opened db) (hkey : K key.val)
    (hmap : mapOf G.cur key = some data) (h : Fetches db w key data) : sep ∉ key.val := by
  obtain ⟨n, a, w', hexec, -⟩ := h
  rcases hG.search_of_exec (o := .fetch key) hdb hkey hexec with hconst | hsearch
  · have hnone := congrArg Prod.fst (hconst fun _ => none)
    have hsome := congrArg Prod.fst (hconst fun _ => some [])
    simp only [specStep] at hnone hsome
    rw [← hnone] at hsome
    cases hsome
  · change search _ key.val = .ok (mapOf G.cur key) at hsearch
    rw [hmap] at hsearch
    exact notMem_sep_of_search hsearch

lemma AtRest.meets_iff (hG : AtRest K w G) (hK : ∀ key, K key → sep ∉ key) (hdb : Opened db)
    (hmap : mapOf G.cur key = some data) : Meets db w key data ↔ ∃ c ∈ key.val, c ≠ space := by
  have hentries := hG.returns_entries (p := ()) hK hdb
  constructor
  · rintro ⟨n, x, w', hexec, hmem⟩
    obtain ⟨y, hy, -, hiff⟩ := hentries.of_exec hexec
    cases hy
    exact ((hiff _ _).mp hmem).2
  · intro hlive
    refine hentries.mono ?_
    rintro x _ ⟨-, hiff⟩
    exact (hiff _ _).mpr ⟨hmap, hlive⟩

end Stored

lemma specStep_store_of_zero {m : Bytes → Option Bytes} {key data : CString} {flag : ℤ}
    (h : (specStep m (.store key data flag)).1 = .status 0) :
    (specStep m (.store key data flag)).2 key = some data.val := by
  rw [specStep] at h ⊢
  split_ifs at h ⊢
  · simp at h
  · simp at h
  · exact Function.update_self ..
  · simp at h

lemma seqRun_of_fetch {m : Bytes → Option Bytes} {ops : List Op} {key : CString}
    (hops : ∀ o ∈ ops, o.key = key → o = .fetch key) : (seqRun specStep m ops).2 key = m key := by
  induction ops generalizing m with
  | nil => rfl
  | cons o ops ih =>
    rw [seqRun, ih fun o ho => hops o (List.mem_cons_of_mem _ ho)]
    by_cases hkey : o.key = key
    · rw [hops o List.mem_cons_self hkey]
      rfl
    · exact specStep_snd_of_ne fun h => hkey (Subtype.ext h.symm)

/-- The promises of a store that has returned 0: until the key is stored or deleted again it is
fetched with its data, a scan meets it, and every other key that is there can be fetched.  They are
kept exactly if no key that is there has a separator in it and this one is not all blanks. -/
theorem stored_iff (pre post : List Op) (key data : CString) (flag : ℤ)
    (hpost : ∀ o ∈ post, o.key = key → o = .fetch key) {fuel : ℕ} {vs : List Val} {db : DB}
    {w : World Unit DbFile} (hexec : (session (pre ++ .store key data flag :: post)).exec
      (perform ()) fuel newFiles = some (.ok (vs, db), w))
    (hval : vs[pre.length]? = some (.status 0)) :
    let stored := (seqRun specStep (fun _ => none) (pre ++ .store key data flag :: post)).2
    (Fetches db w key data ∧ Meets db w key data ∧ ∀ key' : CString, ∀ data', key' ≠ key →
      stored key' = some data' → Fetches db w key' data') ↔
      (∀ key' data', stored key' = some data' → sep ∉ key') ∧ ∃ c ∈ key.val, c ≠ space := by
  have hops : ∀ o ∈ pre ++ .store key data flag :: post, (0 : UInt8) ∉ o.key.val :=
    fun o _ => o.key.2
  obtain ⟨n, out, w₁, hexec₁, hout⟩ := exec_session (K := fun k => (0 : UInt8) ∉ k) hops
  cases exec_unique hexec₁ hexec
  obtain ⟨hdb, G, hG, hrun⟩ := hout
  have hmap : mapOf G.cur key = some data.val := by
    rw [seqRun_append, seqRun] at hrun
    obtain ⟨rfl, hcur⟩ := Prod.mk.inj hrun
    rw [List.getElem?_append_right (by rw [length_seqRun]), length_seqRun, Nat.sub_self] at hval
    rw [← hcur, seqRun_of_fetch hpost]
    exact specStep_store_of_zero (Option.some.inj hval)
  intro stored
  have hstored : stored = mapOf G.cur := congrArg Prod.snd hrun
  rw [hstored]
  constructor
  · rintro ⟨hfetch, hmeets, hothers⟩
    have hsep : ∀ key' data', mapOf G.cur key' = some data' → sep ∉ key' := by
      intro key' data' hdata
      obtain ⟨c, x, hx, hxe⟩ := hG.mapOf_eq_some_iff.mp hdata
      obtain rfl : x.1.key = key' := congrArg Prod.fst hxe
      have hnul := (hG.chain c).allowed x.1 (fst_mem_of_mem_links hx)
      by_cases hkey : (⟨x.1.key, hnul⟩ : CString) = key
      · rw [← hkey] at hmap hfetch
        exact hG.notMem_sep_of_fetches hdb hnul hmap hfetch
      · have hother : Fetches db w ⟨x.1.key, hnul⟩ data' := hothers _ data' hkey hdata
        exact hG.notMem_sep_of_fetches hdb hnul hdata hother
    exact ⟨hsep, ((hG.restrict hsep).meets_iff (fun _ h => h) hdb hmap).mp hmeets⟩
  · rintro ⟨hsep, hlive⟩
    have hG' := hG.restrict hsep
    refine ⟨hG'.fetches (fun _ h => h) hdb (hsep _ _ hmap) hmap,
      (hG'.meets_iff (fun _ h => h) hdb hmap).mpr hlive, fun key' data' _ hdata => ?_⟩
    exact hG'.fetches (fun _ h => h) hdb (hsep _ _ hdata) hdata

/-- A separator is fetched before, and another key is stored behind. -/
theorem stored_iff_sample : ∃ colon key data other : CString, sep ∈ colon.val ∧ ∃ db w,
    (session ([.fetch colon] ++ .store key data dbInsert :: [.store other data dbInsert])).exec
        (perform ()) 200 newFiles =
          some (.ok ([.data none, .status 0, .status 0], db), w) ∧
      Fetches db w key data ∧ Meets db w key data ∧ Fetches db w other data := by
  let colon : CString := ⟨[58], by decide⟩
  let key : CString := ⟨[97], by decide⟩
  let data : CString := ⟨[100], by decide⟩
  let other : CString := ⟨[98], by decide⟩
  let ops : List Op := [.fetch colon] ++ .store key data dbInsert :: [.store other data dbInsert]
  have hstored : (seqRun specStep (fun _ => none) ops).2 = Function.update (Function.update
      (fun _ => none) [97] (some [100])) [98] (some [100]) := rfl
  obtain ⟨db, w, hrun⟩ : ∃ db w, (session ops).exec (perform ()) 200 newFiles =
      some (.ok ([.data none, .status 0, .status 0], db), w) :=
    exists_of_returned (by decide +kernel)
  have hsep : ∀ key' data', (seqRun specStep (fun _ => none) ops).2 key' = some data' →
      sep ∉ key' := by
    intro key' data' h
    rw [hstored] at h
    rcases eq_or_ne key' [98] with rfl | hne
    · decide
    rw [Function.update_of_ne hne] at h
    rcases eq_or_ne key' [97] with rfl | hne
    · decide
    · rw [Function.update_of_ne hne] at h
      cases h
  obtain ⟨hfetch, hmeets, hothers⟩ :=
    (stored_iff [.fetch colon] _ key data dbInsert (by decide) hrun rfl).mpr ⟨hsep, by decide⟩
  exact ⟨colon, key, data, other, by decide, db, w, hrun, hfetch, hmeets,
    hothers other _ (by decide) (by decide)⟩

/-- A store under a key that is a separator returns 0, and the key cannot be fetched.  A store under
a key that is a blank returns 0, and the scan does not meet the key. -/
theorem stored_lost : ∃ colon blank data : CString,
    (∃ db w, (session [.store colon data dbInsert]).exec (perform ()) 50 newFiles =
        some (.ok ([.status 0], db), w) ∧ ¬ Fetches db w colon data) ∧
      ∃ db w, (session [.store blank data dbInsert]).exec (perform ()) 50 newFiles =
        some (.ok ([.status 0], db), w) ∧ ¬ Meets db w blank data := by
  let colon : CString := ⟨[58], by decide⟩
  let blank : CString := ⟨[32], by decide⟩
  let data : CString := ⟨[100], by decide⟩
  refine ⟨colon, blank, data, ?_, ?_⟩
  · obtain ⟨db, w, hrun⟩ : ∃ db w, (session [.store colon data dbInsert]).exec (perform ()) 50
        newFiles = some (.ok ([.status 0], db), w) := exists_of_returned (by decide +kernel)
    have habort : (((session [.store colon data dbInsert]).bind fun x =>
        library (.fetch colon) x.2).exec (perform ()) 50 newFiles).map
          (fun y => y.1.toOption.map Prod.fst) = some none := by decide +kernel
    refine ⟨db, w, hrun, fun hfetch => ?_⟩
    obtain ⟨a, w', hnone, -⟩ := eq_of_returns hrun habort hfetch
    cases hnone
  · obtain ⟨db, w, hrun⟩ : ∃ db w, (session [.store blank data dbInsert]).exec (perform ()) 50
        newFiles = some (.ok ([.status 0], db), w) := exists_of_returned (by decide +kernel)
    have hempty : (((session [.store blank data dbInsert]).bind fun x => dbScan x.2).exec
        (perform ()) 50 newFiles).map (fun y => y.1.toOption.map Prod.fst) =
          some (some []) := by decide +kernel
    refine ⟨db, w, hrun, fun hmeets => ?_⟩
    obtain ⟨a, w', ha, hmem⟩ := eq_of_returns hrun hempty hmeets
    rw [← Option.some.inj ha] at hmem
    cases hmem

end UnixPrograms.Db
