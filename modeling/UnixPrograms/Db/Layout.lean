import UnixPrograms.Db.State

/-!
# The layout of the files of a database

The two files as they look from outside, read with the functions of the library itself: the index
records in the order of the file (`scan`), those on a list of pointers (`walk`), and the extents of
the data file.  In a database at rest these fit together (`AtRest.layout`).
-/

namespace UnixPrograms.Db

open Prog List
open Multiset hiding map_add map_cons

/-! ## Reading the index file -/

def indexOnly (f : Bytes) : World Unit DbFile where
  file
    | .idx => f
    | .dat => []
  pos _ _ := 0
  lock _ _ _ := none

structure IdxRec where
  off : ℤ
  next : ℤ
  key : Bytes
  datoff : ℤ
  datlen : ℕ
  deriving DecidableEq

def IdxRec.datend (r : IdxRec) : ℤ := r.datoff + r.datlen

def readRec (f : Bytes) (o : ℤ) : Option (IdxRec × ℕ) :=
  match (dbReadidx freshDB o).exec (World.perform ()) 3 (indexOnly f) with
  | some (.ok (next, db), w) =>
    some (⟨db.idxoff, next, cstr db.idxbuf, db.datoff, db.datlen⟩, w.pos () .idx)
  | _ => none

def readPtr (f : Bytes) (a : ℕ) : Option ℤ :=
  match (dbReadptr a).exec (World.perform ()) 2 (indexOnly f) with
  | some (.ok ptr, _) => some ptr
  | _ => none

def scan (f : Bytes) : ℕ → ℕ → Option (List IdxRec)
  | 0, _ => none
  | fuel + 1, o =>
    if o = f.length then some []
    else do
      let (r, o') ← readRec f o
      let rs ← scan f fuel o'
      return r :: rs

def follow (f : Bytes) : ℕ → ℤ → Option (List IdxRec)
  | 0, _ => none
  | fuel + 1, o =>
    if o = 0 then some []
    else do
      let (r, _) ← readRec f o
      let rs ← follow f fuel r.next
      return r :: rs

def walk (f : Bytes) (fuel a : ℕ) : Option (List IdxRec) := do
  let o ← readPtr f a
  follow f fuel o

/-- The index records of a file are those of the chains and those of the free list, each of them on
one list and there once, and their extents make up the data file. -/
structure Layout (idx dat : Bytes) (recs : List IdxRec) (chain : Fin nhashDef → List IdxRec)
    (free : List IdxRec) : Prop where
  scan_eq : ∃ fuel, scan idx fuel recOff = some recs
  walk_chain : ∀ c : Fin nhashDef, ∃ fuel, walk idx fuel (chainOff c) = some (chain c)
  walk_free : ∃ fuel, walk idx fuel freeOff = some free
  nodup : (recs.map IdxRec.off).Nodup
  /-- The records are those of the lists, with each list counted on its own. -/
  union : (recs : Multiset IdxRec) = ∑ c, (chain c : Multiset IdxRec) + (free : Multiset IdxRec)
  hash : ∀ c, ∀ r ∈ chain c, dbHash nhashDef r.key = c
  key : ∀ c c', ∀ r ∈ chain c, ∀ r' ∈ chain c', r.key = r'.key → r = r'
  blank : ∀ r ∈ free, ∀ ch ∈ r.key, ch = space
  disjoint : recs.Pairwise fun r r' => r.datend ≤ r'.datoff ∨ r'.datend ≤ r.datoff
  cover : ∀ i < dat.length, ∃ r ∈ recs, r.datoff ≤ i ∧ i < r.datend
  inside : ∀ r ∈ recs, 0 ≤ r.datoff ∧ r.datend ≤ dat.length

/-! ## Lists with their pointers -/

/-- The records of a list, each with the pointer in it. -/
def links : List Rec → List (Rec × ℕ)
  | [] => []
  | r :: rs => (r, headOff rs) :: links rs

def IdxRec.of (x : Rec × ℕ) : IdxRec := ⟨x.1.off, x.2, x.1.key, x.1.datoff, x.1.data.length + 1⟩

def idxBlock (x : Rec × ℕ) : ℕ × Bytes := (x.1.off, ptrField x.2 ++ x.1.tail)

def datBlock (x : Rec × ℕ) : ℕ × Bytes := (x.1.datoff, x.1.data ++ [newline])

/-- A record and its chain pointer, as `_db_readidx` can read them. -/
structure Readable (x : Rec × ℕ) : Prop where
  valid : x.1.Valid
  sep : sep ∉ x.1.key
  next : (x.2 : ℤ) ≤ ptrMax

variable {es : List Rec} {x : Rec × ℕ}

lemma fst_mem_of_mem_links (hx : x ∈ links es) : x.1 ∈ es := by
  induction es with
  | nil => cases hx
  | cons r es ih =>
    rcases mem_cons.mp hx with rfl | hx
    · exact mem_cons_self
    · exact mem_cons_of_mem _ (ih hx)

lemma exists_link_of_mem {r : Rec} (hr : r ∈ es) : ∃ n, (r, n) ∈ links es := by
  induction es with
  | nil => cases hr
  | cons q es ih =>
    rcases mem_cons.mp hr with rfl | hr
    · exact ⟨_, mem_cons_self⟩
    · obtain ⟨n, hn⟩ := ih hr
      exact ⟨n, mem_cons_of_mem _ hn⟩

lemma snd_le_of_mem_links (hv : ∀ r ∈ es, r.Valid) (hx : x ∈ links es) : (x.2 : ℤ) ≤ ptrMax := by
  induction es with
  | nil => cases hx
  | cons r es ih =>
    have hv' := fun q hq => hv q (mem_cons_of_mem r hq)
    rcases mem_cons.mp hx with rfl | hx
    · exact headOff_le hv'
    · exact ih hv' hx

lemma readable_of_mem_links (hv : ∀ r ∈ es, r.Valid) (hs : ∀ r ∈ es, sep ∉ r.key)
    (hx : x ∈ links es) : Readable x :=
  ⟨hv _ (fst_mem_of_mem_links hx), hs _ (fst_mem_of_mem_links hx), snd_le_of_mem_links hv hx⟩

lemma blocksOf_idx_cells (a : ℕ) (t : Bytes) (es : List Rec) :
    blocksOf .idx (cells a t es) =
      {(a, ptrField (headOff es) ++ t)} + (links es : Multiset (Rec × ℕ)).map idxBlock := by
  have hbody : blocksOf .idx (body es) = (links es : Multiset (Rec × ℕ)).map idxBlock := by
    induction es with
    | nil => rfl
    | cons r es ih =>
      rw [body, blocksOf_cons, blocksOf_cons, ih]
      exact zero_add _
  rw [cells, blocksOf_cons, hbody]
  rfl

lemma blocksOf_dat_cells (a : ℕ) (t : Bytes) (es : List Rec) :
    blocksOf .dat (cells a t es) = (links es : Multiset (Rec × ℕ)).map datBlock := by
  have hbody : blocksOf .dat (body es) = (links es : Multiset (Rec × ℕ)).map datBlock := by
    induction es with
    | nil => rfl
    | cons r es ih =>
      rw [body, blocksOf_cons, blocksOf_cons, ih]
      exact congrArg ({datBlock (r, headOff es)} + ·) (zero_add _)
  rw [cells, blocksOf_cons, hbody]
  exact zero_add _

/-! ## What is read of a file cut into blocks -/

section Blocks

variable {bs : List Bytes}

lemma readPtr_block {a n : ℕ} {t : Bytes} (hb : (a, ptrField n ++ t) ∈ blocksFrom 0 bs)
    (hn : (n : ℤ) ≤ ptrMax) : readPtr bs.flatten a = some (n : ℤ) := by
  have hptr : (ptrField n).length = ptrSz := length_ptrField hn
  have hread : readAt bs.flatten a ptrSz = ptrField n := by
    have h := readAt_block (i := 0) (n := ptrSz) hb (by rw [length_append, hptr]; omega)
    rw [Nat.add_zero] at h
    rw [h, readAt, drop_zero, ← hptr, take_left]
  have ha : (a : ℤ) ≠ -1 := by omega
  have hexec : ∃ w, (dbReadptr a).exec (World.perform ()) 2 (indexOnly bs.flatten) =
      some (.ok (n : ℤ), w) := by
    simp only [dbReadptr, lseek, read, bind_eq, perform_bind]
    rw [exec_lseek rfl, require_bind_of_true _ ha, exec_read hread,
      require_bind_of_true _ hptr, atol_ptrField]
    exact ⟨_, rfl⟩
  obtain ⟨w, hexec⟩ := hexec
  rw [readPtr, hexec]

lemma readRec_block {x : Rec × ℕ} (hx : Readable x) (hb : idxBlock x ∈ blocksFrom 0 bs) :
    readRec bs.flatten x.1.off = some (IdxRec.of x, x.1.off + (idxBlock x).2.length) := by
  obtain ⟨r, next⟩ := x
  have hr : r.Valid := hx.valid
  have hsep : sep ∉ r.key := hx.sep
  have hnext : (next : ℤ) ≤ ptrMax := hx.next
  change (r.off, ptrField next ++ r.tail) ∈ blocksFrom 0 bs at hb
  change readRec bs.flatten r.off = some (_, r.off + (ptrField next ++ r.tail).length)
  have hlo := hr.le_len
  have hhi := hr.len_le
  have hheader := r.length_header hnext hhi
  have htotal := length_idxBlock hnext hhi
  have hread₁ : readAt bs.flatten r.off (ptrSz + idxlenSz) = r.header next := by
    rw [← r.readAt_header hnext hhi]
    exact readAt_block (i := 0) hb (by rw [htotal]; omega)
  have hread₂ : readAt bs.flatten (r.off + (r.header next).length) r.text.length = r.text := by
    rw [hheader, readAt_block hb (by rw [htotal]), r.readAt_text hnext hhi]
  have hn0 : (r.off : ℤ) ≠ -1 := by omega
  have hexec : ∃ w, (dbReadidx freshDB r.off).exec (World.perform ()) 3 (indexOnly bs.flatten) =
      some (.ok ((next : ℤ), freshDB.atRec r next), w) ∧
      w.pos () .idx = r.off + (ptrSz + idxlenSz + r.text.length) := by
    simp only [dbReadidx, lseek, read, bind_eq, perform_bind]
    rw [exec_lseek (if_neg hr.off_ne), require_bind_of_true _ hn0, exec_read hread₁,
      if_neg (not_not_intro hheader), r.atol_take_header hnext, r.atol_drop_header hnext,
      require_bind_of_true _ ⟨by exact_mod_cast hlo, by exact_mod_cast hhi⟩]
    simp only [Int.toNat_natCast]
    rw [exec_read hread₂, require_bind_of_true _ rfl, require_bind_of_true _ r.getLast?_text,
      splitRecord_text hr.key_nul hsep hr.datlen_le]
    refine ⟨_, rfl, ?_⟩
    simp [World.seek, hheader, Nat.add_assoc]
  obtain ⟨w, hexec, hpos⟩ := hexec
  simp only [readRec, hexec, hpos, htotal]
  rw [show cstr (freshDB.atRec r next).idxbuf = r.key from cstr_buf hr]
  rfl

lemma follow_links {es : List Rec} (hread : ∀ x ∈ links es, Readable x)
    (hb : ∀ x ∈ links es, idxBlock x ∈ blocksFrom 0 bs) :
    follow bs.flatten (es.length + 1) (headOff es) = some ((links es).map IdxRec.of) := by
  induction es with
  | nil => rfl
  | cons r es ih =>
    have hx : (r, headOff es) ∈ links (r :: es) := mem_cons_self
    have hr := readRec_block (hread _ hx) (hb _ hx)
    have hrest := ih (fun x hx => hread x (mem_cons_of_mem _ hx))
      (fun x hx => hb x (mem_cons_of_mem _ hx))
    change follow bs.flatten (es.length + 1 + 1) (r.off : ℤ) = _
    rw [follow, if_neg (hread _ hx).valid.off_ne, hr]
    change (follow bs.flatten (es.length + 1) (headOff es : ℤ)).bind _ = _
    rw [hrest]
    rfl

lemma walk_cells {a : ℕ} {t : Bytes} {es : List Rec} (hv : ∀ r ∈ es, r.Valid)
    (hs : ∀ r ∈ es, sep ∉ r.key) (hb : blocksOf .idx (cells a t es) ≤ blocksFrom 0 bs) :
    walk bs.flatten (es.length + 1) a = some ((links es).map IdxRec.of) := by
  rw [blocksOf_idx_cells] at hb
  have hptr : (a, ptrField (headOff es) ++ t) ∈ blocksFrom 0 bs :=
    mem_of_le hb (mem_add.mpr (.inl (Multiset.mem_singleton_self _)))
  have hrec : ∀ x ∈ links es, idxBlock x ∈ blocksFrom 0 bs := fun x hx =>
    mem_of_le hb (mem_add.mpr (.inr (mem_map_of_mem _ hx)))
  rw [walk, readPtr_block hptr (headOff_le hv)]
  exact follow_links (fun x hx => readable_of_mem_links hv hs hx) hrec

/-- The first of the blocks is an index record. -/
lemma exists_idxBlock {pre post : List Bytes} {b : Bytes} {xs : Multiset (Rec × ℕ)}
    (hv : ∀ x ∈ xs, x.1.Valid ∧ (x.2 : ℤ) ≤ ptrMax)
    (hb : blocksFrom pre.flatten.length (b :: post) = xs.map idxBlock) :
    ∃ x xs', xs = x ::ₘ xs' ∧ x.1.off = pre.flatten.length ∧ (idxBlock x).2 = b ∧
      b.length = ptrSz + idxlenSz + x.1.text.length ∧
      idxBlock x ∈ blocksFrom 0 (pre ++ b :: post) ∧
      (pre ++ [b]).flatten.length = pre.flatten.length + b.length ∧
      blocksFrom (pre ++ [b]).flatten.length post = xs'.map idxBlock := by
  rw [blocksFrom] at hb
  obtain ⟨x, hx, hxb⟩ :=
    mem_map.mp (hb ▸ mem_cons_self (pre.flatten.length, b) _)
  obtain ⟨hvalid, hnext⟩ := hv x hx
  obtain ⟨xs, rfl⟩ := exists_cons_of_mem hx
  rw [Multiset.map_cons, hxb, Multiset.cons_inj_right] at hb
  have hblock : (idxBlock x).2 = b := congrArg Prod.snd hxb
  have hlen : (pre ++ [b]).flatten.length = pre.flatten.length + b.length := by simp
  refine ⟨x, xs, rfl, congrArg Prod.fst hxb, hblock, ?_, ?_, hlen, hlen ▸ hb⟩
  · rw [← hblock]
    exact length_idxBlock hnext hvalid.len_le
  · rw [hxb, mem_blocksFrom]
    exact ⟨pre, post, rfl, (Nat.zero_add _).symm⟩

lemma length_flatten_ne {pre post : List Bytes} {b : Bytes} {n : ℕ} (hb : b.length = ptrSz + n) :
    pre.flatten.length ≠ (pre ++ b :: post).flatten.length := by
  rw [flatten_append, length_append, flatten_cons, length_append, hb, ptrSz]
  omega

lemma scan_blocks {pre post : List Bytes} {xs : Multiset (Rec × ℕ)} (hread : ∀ x ∈ xs, Readable x)
    (hb : blocksFrom pre.flatten.length post = xs.map idxBlock) :
    ∃ recs, scan (pre ++ post).flatten (post.length + 1) pre.flatten.length = some recs ∧
      (recs : Multiset IdxRec) = xs.map IdxRec.of := by
  induction post generalizing pre xs with
  | nil =>
    obtain rfl : xs = 0 := by simpa [blocksFrom] using hb.symm
    refine ⟨[], ?_, rfl⟩
    rw [scan, if_pos (by simp)]
  | cons b post ih =>
    obtain ⟨x, xs, rfl, hoff, hblock, hblen, hmem, hlen, hpost⟩ :=
      exists_idxBlock (fun x hx => ⟨(hread x hx).valid, (hread x hx).next⟩) hb
    obtain ⟨recs, hscan, hrecs⟩ := ih (fun y hy => hread y (mem_cons_of_mem hy)) hpost
    have hr := readRec_block (hread x (mem_cons_self ..)) hmem
    rw [hoff, hblock, ← hlen] at hr
    refine ⟨IdxRec.of x :: recs, ?_, ?_⟩
    · rw [length_cons, scan, if_neg (length_flatten_ne (hblen.trans (Nat.add_assoc ..))), hr]
      rw [append_assoc] at hscan
      change (scan (pre ++ b :: post).flatten (post.length + 1) _).bind _ = _
      rw [show scan (pre ++ b :: post).flatten _ _ = some recs from hscan]
      rfl
    · rw [Multiset.map_cons, ← hrecs]
      rfl

end Blocks

/-! ## The extents of the records -/

section Extents

variable {bs : List Bytes} {xs : Multiset (Rec × ℕ)} {recs : List IdxRec}

lemma IdxRec.datend_of (x : Rec × ℕ) :
    (IdxRec.of x).datend = ((datBlock x).1 + (datBlock x).2.length : ℕ) := by
  simp [IdxRec.datend, IdxRec.of, datBlock]

lemma IdxRec.datoff_of (x : Rec × ℕ) : (IdxRec.of x).datoff = ((datBlock x).1 : ℕ) := rfl

lemma IdxRec.off_of (x : Rec × ℕ) : (IdxRec.of x).off = ((idxBlock x).1 : ℕ) := rfl

lemma exists_mem_of_recs (hrecs : (recs : Multiset IdxRec) = xs.map IdxRec.of) {r : IdxRec}
    (hr : r ∈ recs) : ∃ x ∈ xs, IdxRec.of x = r := by
  rw [← Multiset.mem_map, ← hrecs]
  exact hr

lemma nodup_offsets {base : ℕ} {g : Rec × ℕ → ℕ × Bytes} {off : IdxRec → ℤ}
    (hoff : ∀ x, off (IdxRec.of x) = (g x).1) (hrecs : (recs : Multiset IdxRec) = xs.map IdxRec.of)
    (hb : blocksFrom base bs = xs.map g) (hne : ∀ b ∈ bs, b ≠ []) : (recs.map off).Nodup := by
  have hnd : (((blocksFrom base bs).map Prod.fst).map fun n : ℕ => (n : ℤ)).Nodup :=
    (nodup_offsets_blocksFrom hne).map Nat.cast_injective
  rw [hb, Multiset.map_map, Multiset.map_map] at hnd
  rw [← coe_nodup, ← map_coe, hrecs, Multiset.map_map]
  exact (map_congr rfl fun x _ => hoff x) ▸ hnd

section

variable (hrecs : (recs : Multiset IdxRec) = xs.map IdxRec.of)
  (hb : blocksFrom 0 bs = xs.map datBlock)
include hrecs hb

lemma pairwise_extents (hne : ∀ b ∈ bs, b ≠ []) :
    recs.Pairwise fun r r' => r.datend ≤ r'.datoff ∨ r'.datend ≤ r.datoff := by
  have hnd := nodup_offsets IdxRec.datoff_of hrecs hb hne
  refine (pairwise_map.mp hnd).imp_of_mem fun {r r'} hr hr' hoff => ?_
  obtain ⟨x, hx, rfl⟩ := exists_mem_of_recs hrecs hr
  obtain ⟨y, hy, rfl⟩ := exists_mem_of_recs hrecs hr'
  have hx' : datBlock x ∈ blocksFrom 0 bs := hb ▸ mem_map_of_mem _ hx
  have hy' : datBlock y ∈ blocksFrom 0 bs := hb ▸ mem_map_of_mem _ hy
  rw [IdxRec.datoff_of, IdxRec.datoff_of] at hoff
  rw [IdxRec.datend_of, IdxRec.datend_of, IdxRec.datoff_of, IdxRec.datoff_of]
  rcases Nat.lt_or_gt_of_ne (fun h => hoff (congrArg _ h) : (datBlock x).1 ≠ (datBlock y).1)
    with h | h
  · exact .inl (Int.ofNat_le.mpr (add_length_le_of_mem_blocksFrom hx' hy' h))
  · exact .inr (Int.ofNat_le.mpr (add_length_le_of_mem_blocksFrom hy' hx' h))

lemma exists_extent {i : ℕ} (hi : i < bs.flatten.length) :
    ∃ r ∈ recs, r.datoff ≤ i ∧ i < r.datend := by
  obtain ⟨y, hy, hlo, hhi⟩ := exists_mem_blocksFrom (Nat.zero_le i) (by rwa [Nat.zero_add])
  obtain ⟨x, hx, rfl⟩ := mem_map.mp (hb ▸ hy)
  refine ⟨IdxRec.of x, ?_, ?_, ?_⟩
  · rw [← mem_coe, hrecs]
    exact mem_map_of_mem _ hx
  · exact Int.ofNat_le.mpr hlo
  · rw [IdxRec.datend_of]
    exact Int.ofNat_lt.mpr hhi

lemma extent_inside {r : IdxRec} (hr : r ∈ recs) :
    0 ≤ r.datoff ∧ r.datend ≤ bs.flatten.length := by
  obtain ⟨x, hx, rfl⟩ := exists_mem_of_recs hrecs hr
  have hx' : datBlock x ∈ blocksFrom 0 bs := hb ▸ mem_map_of_mem _ hx
  rw [IdxRec.datend_of]
  exact ⟨Int.natCast_nonneg _, Int.ofNat_le.mpr (add_length_le_of_mem hx')⟩

end

lemma filter_idxBlock (hvalid : ∀ x ∈ xs, x.1.Valid ∧ (x.2 : ℤ) ≤ ptrMax) :
    (xs.map idxBlock).filter (fun y => recOff ≤ y.1) = xs.map idxBlock := by
  refine filter_eq_self.mpr fun y hy => ?_
  obtain ⟨x, hx, rfl⟩ := mem_map.mp hy
  exact (hvalid x hx).1.le_off

end Extents

/-! ## The layout of a database at rest -/

section AtRest

variable {ι : Type} [Fintype ι] {K : Bytes → Prop} {w : World ι DbFile}
  {G : Division ι DbFile Res (List Rec)}

def allLinks (cs : Finset (Fin nhashDef)) (cur : Res → List Rec) : Multiset (Rec × ℕ) :=
  ∑ c ∈ cs, (links (cur (.inl c)) : Multiset (Rec × ℕ)) +
    (links (cur (.inr .free)) : Multiset (Rec × ℕ))

def tableBlocks (cs : Finset (Fin nhashDef)) (cur : Res → List Rec) : Multiset (ℕ × Bytes) :=
  ∑ c ∈ cs, {(chainOff c, ptrField (headOff (cur (.inl c))) ++ [])} +
    {(freeOff, ptrField (headOff (cur (.inr .free))) ++ [])} + {((nhashDef + 1) * ptrSz, [newline])}

section

variable (hG : AtRest K w G)
include hG

lemma AtRest.chain (c : Fin nhashDef) : Chain K c (G.cur (.inl c)) :=
  (hG.inv (.inl c)).2

lemma AtRest.freeList : FreeList (G.cur (.inr .free)) :=
  (hG.inv (.inr .free)).2

lemma AtRest.blocksOf_chain_le (c : Fin nhashDef) :
    blocksOf .idx (cells (chainOff c) [] (G.cur (.inl c))) ≤ blocksFrom 0 (G.blocks .idx) :=
  (hG.inv (.inl c)).1 ▸ hG.sound.blocksOf_pool_le .idx (.inl c)

lemma AtRest.blocksOf_free_le (fd : DbFile) :
    blocksOf fd (cells freeOff [] (G.cur (.inr .free))) ≤ blocksFrom 0 (G.blocks fd) :=
  (hG.inv (.inr .free)).1 ▸ hG.sound.blocksOf_pool_le fd (.inr .free)

lemma AtRest.walk_free : ∃ fuel, walk (G.blocks .idx).flatten fuel freeOff =
    some ((links (G.cur (.inr .free))).map IdxRec.of) :=
  ⟨_, walk_cells hG.freeList.valid (fun _ hr => hG.freeList.notMem_sep hr)
    (hG.blocksOf_free_le .idx)⟩

lemma AtRest.allCells_eq : ∃ n m, allCells G.blocks =
    ∑ c : Fin nhashDef, chainCells c (G.cur (.inl c)) +
      (cells freeOff [] (G.cur (.inr .free)) + ({.eof .idx n} + {.eof .dat m})) + {tableEnd} := by
  obtain ⟨n, -, hn⟩ := hG.inv (.inr .idxTail)
  obtain ⟨m, hm⟩ := hG.inv (.inr .datTail)
  have hown : ∑ p, (G.loc p).own = 0 := Finset.sum_eq_zero fun p _ =>
      (hG.sound.keeps p).idle (hG.idle p)
  refine ⟨n, m, ?_⟩
  rw [hG.sound.total, Division.total, hown, zero_add, Fintype.sum_sum_type, sum_lock, hn, hm,
    hG.leak, (hG.inv (.inr .free)).1, Finset.sum_congr rfl fun c _ => (hG.inv (.inl c)).1]
  rfl

end

lemma map_allLinks {β : Type} (g : Rec × ℕ → β) (cs : Finset (Fin nhashDef))
    (cur : Res → List Rec) : (allLinks cs cur).map g =
      ∑ c ∈ cs, (links (cur (.inl c)) : Multiset (Rec × ℕ)).map g +
        (links (cur (.inr .free)) : Multiset (Rec × ℕ)).map g := by
  rw [allLinks, Multiset.map_add, map_finset_sum]

lemma AtRest.blocks_idx (hG : AtRest K w G) : blocksFrom 0 (G.blocks .idx) =
    tableBlocks Finset.univ G.cur + (allLinks Finset.univ G.cur).map idxBlock := by
  obtain ⟨n, m, hcells⟩ := hG.allCells_eq
  have heof : blockOf DbFile.idx (.eof .idx n) = 0 ∧ blockOf DbFile.idx (.eof .dat m) = 0 :=
    ⟨rfl, rfl⟩
  have hend : blockOf .idx tableEnd = {((nhashDef + 1) * ptrSz, [newline])} := rfl
  rw [← blocksOf_allCells, hcells, map_allLinks, tableBlocks]
  simp only [map_add, map_sum, blocksOf_singleton, chainCells, blocksOf_idx_cells,
    Finset.sum_add_distrib]
  rw [heof.1, heof.2, hend]
  abel

lemma AtRest.blocks_dat (hG : AtRest K w G) :
    blocksFrom 0 (G.blocks .dat) = (allLinks Finset.univ G.cur).map datBlock := by
  obtain ⟨n, m, hcells⟩ := hG.allCells_eq
  have heof : blockOf DbFile.dat (.eof .idx n) = 0 ∧ blockOf DbFile.dat (.eof .dat m) = 0 :=
    ⟨rfl, rfl⟩
  have hend : blockOf .dat tableEnd = 0 := rfl
  rw [← blocksOf_allCells, hcells, map_allLinks]
  simp only [map_add, map_sum, blocksOf_singleton, chainCells, blocksOf_dat_cells]
  rw [heof.1, heof.2, hend]
  abel

lemma filter_tableBlocks (cs : Finset (Fin nhashDef)) (cur : Res → List Rec) :
    (tableBlocks cs cur).filter (fun x => recOff ≤ x.1) = 0 := by
  refine filter_eq_nil.mpr fun x hx => Nat.not_le.mpr ?_
  rw [tableBlocks, mem_add, mem_add, mem_sum] at hx
  rcases hx with (⟨c, -, hc⟩ | hfree) | hend
  · have hlt : (c : ℕ) < nhashDef := c.isLt
    rw [Multiset.mem_singleton.mp hc]
    simp only [chainOff, recOff, ptrSz, hashOff]
    omega
  · rw [Multiset.mem_singleton.mp hfree]
    simp [freeOff, recOff]
  · rw [Multiset.mem_singleton.mp hend]
    simp [recOff]

lemma AtRest.readable (hG : AtRest K w G) (hK : ∀ key, K key → sep ∉ key)
    (cs : Finset (Fin nhashDef)) : ∀ x ∈ allLinks cs G.cur, Readable x := by
  intro x hx
  rw [allLinks, mem_add, mem_sum] at hx
  rcases hx with ⟨c, -, hc⟩ | hfree
  · have hes := hG.chain c
    exact readable_of_mem_links hes.valid (fun r hr => hK _ (hes.allowed r hr)) hc
  · have hfs := hG.freeList
    exact readable_of_mem_links hfs.valid (fun r hr => hfs.notMem_sep hr) hfree

lemma AtRest.valid (hG : AtRest K w G) (cs : Finset (Fin nhashDef)) :
    ∀ x ∈ allLinks cs G.cur, x.1.Valid ∧ (x.2 : ℤ) ≤ ptrMax := by
  intro x hx
  rw [allLinks, mem_add, mem_sum] at hx
  rcases hx with ⟨c, -, hc⟩ | hfree
  · have hes := hG.chain c
    exact ⟨hes.valid _ (fst_mem_of_mem_links hc), snd_le_of_mem_links hes.valid hc⟩
  · have hfs := hG.freeList
    exact ⟨hfs.valid _ (fst_mem_of_mem_links hfree), snd_le_of_mem_links hfs.valid hfree⟩

lemma AtRest.blocks_records (hG : AtRest K w G) :
    ∃ pre post, G.blocks .idx = pre ++ post ∧ pre.flatten.length = recOff ∧
      blocksFrom recOff post = (allLinks Finset.univ G.cur).map idxBlock := by
  have hblocks := hG.blocks_idx
  have hend : ((nhashDef + 1) * ptrSz, [newline]) ∈ blocksFrom 0 (G.blocks .idx) := by
    rw [hblocks, tableBlocks]
    simp
  obtain ⟨pre, post, hsplit, hoff⟩ := mem_blocksFrom.mp hend
  have hlen : (pre ++ [[newline]]).flatten.length = recOff := by
    rw [flatten_append, length_append, recOff, hoff, Nat.zero_add]
    rfl
  have hsplit' : G.blocks .idx = (pre ++ [[newline]]) ++ post := by
    rw [hsplit, append_assoc]
    rfl
  refine ⟨pre ++ [[newline]], post, hsplit', hlen, ?_⟩
  -- the records are the blocks from `recOff` on
  have hpre : (blocksFrom 0 (pre ++ [[newline]])).filter (fun x => recOff ≤ x.1) = 0 := by
    refine filter_eq_nil.mpr fun x hx => Nat.not_le.mpr ?_
    have hle : x.1 + x.2.length ≤ recOff := hlen ▸ add_length_le_of_mem hx
    obtain ⟨pre', post', hpre', -⟩ := mem_blocksFrom.mp (show (x.1, x.2) ∈ _ from hx)
    have hne : x.2 ≠ [] := hG.sound.nonempty .idx x.2 (by rw [hsplit', hpre']; simp)
    have hpos := length_pos_of_ne_nil hne
    omega
  have hpost : (blocksFrom recOff post).filter (fun x => recOff ≤ x.1) = blocksFrom recOff post :=
    filter_eq_self.mpr fun x hx => le_of_mem_blocksFrom hx
  have hrecs := filter_idxBlock (hG.valid Finset.univ)
  have hfilter := congrArg (Multiset.filter fun x : ℕ × Bytes => recOff ≤ x.1) hblocks
  rw [filter_add, filter_tableBlocks, zero_add, hrecs, hsplit', blocksFrom_append,
    filter_add, hpre, zero_add, Nat.zero_add, hlen, hpost] at hfilter
  exact hfilter

lemma eq_of_mem_links {es : List Rec} (hnd : (es.map Rec.key).Nodup) {x y : Rec × ℕ}
    (hx : x ∈ links es) (hy : y ∈ links es) (hkey : x.1.key = y.1.key) : x = y := by
  have hmap : (links es).map (fun x => x.1.key) = es.map Rec.key := by
    clear hnd hx hy
    induction es with
    | nil => rfl
    | cons r es ih => rw [links, map_cons, map_cons, ih]
  rw [← hmap] at hnd
  exact inj_on_of_nodup_map hnd hx hy hkey

lemma AtRest.eq_of_key (hG : AtRest K w G) {c c' : Fin nhashDef} {x y : Rec × ℕ}
    (hx : x ∈ links (G.cur (.inl c))) (hy : y ∈ links (G.cur (.inl c')))
    (hkey : x.1.key = y.1.key) : x = y := by
  have hc : c = c' := Fin.ext (by
    rw [← (hG.chain c).hash x.1 (fst_mem_of_mem_links hx), hkey,
      (hG.chain c').hash y.1 (fst_mem_of_mem_links hy)])
  subst hc
  exact eq_of_mem_links (hG.chain c).nodup hx hy hkey

lemma AtRest.layout (hG : AtRest K w G) (hK : ∀ key, K key → sep ∉ key) :
    ∃ recs chain free, Layout (w.file .idx) (w.file .dat) recs chain free := by
  obtain ⟨pre, post, hidx, hpre, hpost⟩ := hG.blocks_records
  have hread := hG.readable hK Finset.univ
  obtain ⟨recs, hscan, hrecs⟩ := scan_blocks hread (hpre.symm ▸ hpost)
  rw [hpre, ← hidx] at hscan
  have hdat := hG.blocks_dat
  have hne := hG.sound.nonempty .dat
  have hnepost : ∀ b ∈ post, b ≠ [] := fun b hb => hG.sound.nonempty .idx b (by
    rw [hidx]
    exact mem_append_right _ hb)
  have hfs := hG.freeList
  rw [hG.sound.content .idx, hG.sound.content .dat]
  refine ⟨recs, fun c => (links (G.cur (.inl c))).map IdxRec.of,
    (links (G.cur (.inr .free))).map IdxRec.of, ⟨_, hscan⟩, ?_, ?_,
    nodup_offsets IdxRec.off_of hrecs hpost hnepost, ?_, ?_, ?_, ?_,
    pairwise_extents hrecs hdat hne, fun i hi => exists_extent hrecs hdat hi,
    fun r hr => extent_inside hrecs hdat hr⟩
  · intro c
    have hes := hG.chain c
    exact ⟨_, walk_cells hes.valid (fun r hr => hK _ (hes.allowed r hr)) (hG.blocksOf_chain_le c)⟩
  · exact hG.walk_free
  · simp only [hrecs, map_allLinks, map_coe]
  · intro c r hr
    obtain ⟨x, hx, rfl⟩ := mem_map.mp hr
    exact (hG.chain c).hash x.1 (fst_mem_of_mem_links hx)
  · intro c c' r hr r' hr' hkey
    obtain ⟨x, hx, rfl⟩ := mem_map.mp hr
    obtain ⟨y, hy, rfl⟩ := mem_map.mp hr'
    rw [hG.eq_of_key hx hy hkey]
  · intro r hr
    obtain ⟨x, hx, rfl⟩ := mem_map.mp hr
    exact hfs.blank x.1 (fst_mem_of_mem_links hx)

end AtRest

end UnixPrograms.Db
