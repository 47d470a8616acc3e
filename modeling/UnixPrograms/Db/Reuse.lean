import UnixPrograms.Db.Alone
import UnixPrograms.Db.Sequential

/-!
# Where a new record goes

If a record on the free list has a key and data of the lengths of the new ones, the first such
record is taken off and overwritten; otherwise the new record is appended.

The insertion is run alone (`ensures_store`), and what it has written is compared with the records
of the index file (`extents`) and with the free list.
-/

namespace UnixPrograms.Db

open Prog List IdxRec
open Multiset hiding map_add map_cons map_singleton

open Function

/-! ## Running the searches -/

section Alone

variable {ι : Type} [DecidableEq ι] {p : ι} {w : World ι DbFile} {db : DB}

/-- The records of a list stand in the index file, and can be read. -/
def Standing (f : Bytes) (es : List Rec) : Prop :=
  ∀ x ∈ links es, Readable x ∧ Stands f x.1.off (idxBlock x).2

variable {es fs : List Rec} {f : Bytes} {r : Rec} {key data : CString} {c : ℕ}

lemma Standing.tail (h : Standing f (r :: es)) :
    Standing f es := fun x hx => h x (mem_cons_of_mem _ hx)

lemma Standing.append_right {pre post : List Rec} (h : Standing f (pre ++ post)) :
    Standing f post := by
  induction pre with
  | nil => exact h
  | cons r pre ih => exact ih h.tail

lemma Standing.valid (h : Standing f (r :: es)) :
    r.Valid := (h (r, headOff es) mem_cons_self).1.valid

lemma returns_dbReadidx_head (h : Standing (w.file .idx) (r :: es)) :
    (dbReadidx db r.off).Returns (World.perform p) w fun x w' =>
      x = ((headOff es : ℤ), db.atRec r (headOff es)) ∧ w'.file = w.file := by
  obtain ⟨hread, hstands⟩ := h (r, headOff es) mem_cons_self
  refine (returns_dbReadidx (hread.valid.legible hread.sep) hstands hread.next
    (.inl ⟨rfl, hread.valid.off_pos⟩)).mono ?_
  rintro x w' ⟨hx, hfile, -⟩
  exact ⟨hx, hfile⟩

lemma returns_findLoop (h : Standing (w.file .idx) es) (hkey : ∀ r ∈ es, r.key ≠ key.val) :
    (Prog.repeatFrom ((headOff es : ℤ), db) (findStep key)).Returns (World.perform p) w
      fun y w' => y.1 = 0 ∧ y.2.chainoff = db.chainoff ∧ w'.file = w.file := by
  induction es generalizing w db with
  | nil =>
    apply Prog.Returns.loop
    exact .ret (.ret ⟨rfl, rfl, rfl⟩)
  | cons r es ih =>
    have hx := h.valid
    apply Prog.Returns.loop
    change Prog.Returns _ (findStep key ((r.off : ℤ), db)) _ _
    rw [findStep, if_neg hx.off_ne]
    refine (returns_dbReadidx_head h).bind ?_
    rintro y w' ⟨rfl, hfile⟩
    have hcstr : cstr (db.atRec r (headOff es)).idxbuf ≠ key.val := by
      rw [show cstr (db.atRec r (headOff es)).idxbuf = r.key from cstr_buf hx]
      exact hkey r mem_cons_self
    dsimp only
    rw [if_neg hcstr]
    refine .ret ((ih (hfile ▸ h.tail) fun q hq => hkey q (mem_cons_of_mem _ hq)).mono ?_)
    rintro z w'' ⟨hzero, hchain, hfile'⟩
    exact ⟨hzero, hchain, hfile'.trans hfile⟩

lemma returns_dbFindAndLock (hdb : Opened db)
    (hhead : Stands (w.file .idx) (chainOff (chainOf key)) (ptrField (headOff es)))
    (h : Standing (w.file .idx) es) (hmax : (headOff es : ℤ) ≤ ptrMax)
    (hkey : ∀ r ∈ es, r.key ≠ key.val) :
    (dbFindAndLock db key true).Returns (World.perform p) w fun y w' =>
      y.1 = -1 ∧ y.2.chainoff = chainOff (chainOf key) ∧ w'.file = w.file := by
  have hoff : dbHash db.nhash key.val * ptrSz + db.hashoff = chainOff (chainOf key) := by
    rw [hdb.nhash, hdb.hashoff]
    rfl
  simp only [dbFindAndLock, writewLock, if_pos, bind_eq, perform_bind, hoff]
  apply returns_setlkw
  intro w₀ hfile₀ _
  rw [← hfile₀] at hhead h ⊢
  refine (returns_dbReadptr hhead hmax).bind ?_
  rintro _ w₁ ⟨rfl, hfile₁⟩
  rw [← hfile₁] at h
  refine (returns_findLoop h hkey).bind ?_
  rintro y w₂ ⟨hzero, hchain, hfile₂⟩
  rw [if_pos hzero]
  exact .ret ⟨rfl, hchain, hfile₂.trans hfile₁⟩

/-- The record has the two lengths that `_db_findfree` looks for. -/
def Rec.Fits (keylen datlen : ℕ) (r : Rec) : Prop :=
  r.key.length = keylen ∧ r.data.length + 1 = datlen

instance (keylen datlen : ℕ) : DecidablePred (Rec.Fits keylen datlen) :=
  fun _ => inferInstanceAs (Decidable (_ ∧ _))

lemma returns_freeLoop {keylen datlen a : ℕ} (h : Standing (w.file .idx) fs) :
    (Prog.repeatFrom ((a : ℤ), (headOff fs : ℤ), db) (freeStep keylen datlen)).Returns
      (World.perform p) w fun y w' => w'.file = w.file ∧ y.2.2.chainoff = db.chainoff ∧
        ((y.2.1 = 0 ∧ ∀ r ∈ fs, ¬ r.Fits keylen datlen) ∨
          ∃ pre r post, fs = pre ++ r :: post ∧ r.Fits keylen datlen ∧ y.1 = lastOff a pre ∧
            y.2.1 = r.off ∧ ∃ db₀, y.2.2 = DB.atRec db₀ r (headOff post)) := by
  induction fs generalizing w db a with
  | nil =>
    apply Prog.Returns.loop
    exact .ret (.ret ⟨rfl, rfl, .inl ⟨rfl, nofun⟩⟩)
  | cons r fs ih =>
    have hx := h.valid
    apply Prog.Returns.loop
    change Prog.Returns _ (freeStep keylen datlen ((a : ℤ), (r.off : ℤ), db)) _ _
    rw [freeStep, if_neg hx.off_ne]
    refine (returns_dbReadidx_head h).bind ?_
    rintro y w' ⟨rfl, hfile⟩
    dsimp only
    rw [show cstr (db.atRec r (headOff fs)).idxbuf = r.key from cstr_buf hx]
    by_cases hfits : r.Fits keylen datlen
    · have hcond : r.key.length = keylen ∧ (db.atRec r (headOff fs)).datlen = datlen := hfits
      rw [if_pos hcond]
      exact .ret (.ret ⟨hfile, rfl, .inr ⟨[], r, fs, rfl, hfits, rfl, rfl, db, rfl⟩⟩)
    · have hcond : ¬ (r.key.length = keylen ∧ (db.atRec r (headOff fs)).datlen = datlen) := hfits
      rw [if_neg hcond]
      refine .ret ((ih (hfile ▸ h.tail)).mono ?_)
      rintro z w'' ⟨hfile', hchain, hz⟩
      refine ⟨hfile'.trans hfile, hchain, ?_⟩
      rcases hz with ⟨hzero, hnone⟩ | ⟨pre, q, post, rfl, hq, hprev, hoff', hdb⟩
      · refine .inl ⟨hzero, fun q hq => ?_⟩
        rcases mem_cons.mp hq with rfl | hq
        · exact hfits
        · exact hnone q hq
      · exact .inr ⟨r :: pre, q, post, rfl, hq, hprev, hoff', hdb⟩

lemma returns_dbFindfree {keylen datlen : ℕ}
    (hhead : Stands (w.file .idx) freeOff (ptrField (headOff fs))) (h : Standing (w.file .idx) fs)
    (hmax : (headOff fs : ℤ) ≤ ptrMax) :
    (dbFindfree db keylen datlen).Returns (World.perform p) w fun y w' =>
      y.2.chainoff = db.chainoff ∧
        ((y.1 = -1 ∧ w'.file = w.file ∧ ∀ r ∈ fs, ¬ r.Fits keylen datlen) ∨
          ∃ pre r post, fs = pre ++ r :: post ∧ r.Fits keylen datlen ∧ y.1 = 0 ∧
            (∃ db₀, y.2 = DB.atRec db₀ r (headOff post)) ∧ w'.file = update w.file .idx
              (writeAt (w.file .idx) (lastOff freeOff pre) (ptrField (headOff post)))) := by
  simp only [dbFindfree, writewLock, unLock, bind_eq, perform_bind]
  apply returns_setlkw
  intro w₀ hfile₀ _
  rw [← hfile₀] at hhead h ⊢
  refine (returns_dbReadptr hhead hmax).bind ?_
  rintro _ w₁ ⟨rfl, hfile₁⟩
  rw [← hfile₁] at h ⊢
  refine (returns_freeLoop h).bind ?_
  rintro ⟨saveoffset, offset, db'⟩ w₂ ⟨hfile₂, hchain, hfound⟩
  rw [← hfile₂] at h ⊢
  rcases hfound with ⟨rfl, hnone⟩ | ⟨pre, r, post, rfl, hfits, rfl, rfl, db₀, rfl⟩
  · rw [if_pos rfl]
    apply returns_unlck
    intro w₃ hfile₃ _
    exact .ret ⟨hchain, .inl ⟨rfl, hfile₃, hnone⟩⟩
  · have hr : Standing (w₂.file .idx) (r :: post) := h.append_right
    have hpost : (headOff post : ℤ) ≤ ptrMax := (hr (r, headOff post) mem_cons_self).1.next
    rw [if_neg hr.valid.off_ne]
    refine (returns_dbWriteptr hpost).bind ?_
    intro _ w₃ hfile₃
    apply Prog.Returns.call
    apply returns_unlck
    intro w₄ hfile₄ _
    exact .ret ⟨hchain, .inr ⟨pre, r, post, rfl, hfits, rfl, ⟨db₀, rfl⟩, hfile₄.trans hfile₃⟩⟩

/-! ## Running an insertion -/

lemma ensures_dbWriteidx {next : ℕ} {offset : ℤ} {whence : Whence} (hnext : (next : ℤ) ≤ ptrMax)
    (hoff : db.datoff = r.datoff) (hlen : db.datlen = r.data.length + 1)
    (hplace : w.target p .idx offset whence = r.off) :
    (dbWriteidx db r.key offset whence next).Ensures (World.perform p) w fun db' w' =>
      (db'.chainoff = db.chainoff ∧ db'.idxoff = r.off) ∧ r.text.length ≤ idxlenMax ∧
        w'.file = update w.file .idx (writeAt (w.file .idx) r.off (ptrField next ++ r.tail)) := by
  by_cases hlim : idxlenMin ≤ r.text.length ∧ r.text.length ≤ idxlenMax
  · have hret := returns_dbWriteidx (p := p) (w := w) hlim.1 hlim.2 hnext hoff hlen hplace
    refine (hret.mono ?_).ensures
    rintro db' w' ⟨rfl, hfile⟩
    exact ⟨⟨rfl, rfl⟩, hlim.2, hfile⟩
  · simp only [dbWriteidx, bind_eq]
    rw [text_eq hoff hlen]
    apply Prog.Ensures.require
    intro _
    exact Prog.Ensures.require fun h => absurd h hlim

lemma ensures_dbWriteptr {o n : ℕ} :
    (dbWriteptr o n).Ensures (World.perform p) w fun _ w' => (n : ℤ) ≤ ptrMax ∧
      w'.file = update w.file .idx (writeAt (w.file .idx) o (ptrField n)) := by
  by_cases hn : (n : ℤ) ≤ ptrMax
  · exact ((returns_dbWriteptr hn).mono fun _ _ hfile => ⟨hn, hfile⟩).ensures
  · simp only [dbWriteptr, bind_eq]
    exact Prog.Ensures.require fun h => absurd h.2 hn

def Rec.retake (r : Rec) (key data : Bytes) : Rec := { r with key := key, data := data }

lemma length_text_retake {key data : Bytes} (hfits : r.Fits key.length (data.length + 1)) :
    (r.retake key data).text.length = r.text.length :=
  Rec.length_text_eq hfits.1.symm rfl (Nat.succ.inj hfits.2).symm

def newRec (idx dat : Bytes) (key data : Bytes) : Rec := ⟨idx.length, key, dat.length, data⟩

/-- The files after an insertion: `es` are the records of the chain `c`, `fs` the free ones. -/
inductive Inserted (f g : Bytes) (c : ℕ) (es fs : List Rec) (key data : Bytes) :
    Bytes → Bytes → Prop
  | reuse {pre : List Rec} {r : Rec} {post : List Rec} (hfs : fs = pre ++ r :: post)
      (hfits : r.Fits key.length (data.length + 1)) :
      Inserted f g c es fs key data
        (writeAt (writeAt (writeAt f (lastOff freeOff pre) (ptrField (headOff post))) r.off
          (ptrField (headOff es) ++ (r.retake key data).tail)) (chainOff c) (ptrField r.off))
        (writeAt g r.datoff (data ++ [newline]))
  | append (hnone : ∀ r ∈ fs, ¬ r.Fits key.length (data.length + 1))
      (hlen : (newRec f g key data).text.length ≤ idxlenMax) (hmax : (f.length : ℤ) ≤ ptrMax) :
      Inserted f g c es fs key data
        (writeAt (f ++ (ptrField (headOff es) ++ (newRec f g key data).tail)) (chainOff c)
          (ptrField f.length)) (g ++ (data ++ [newline]))

lemma ensures_appendRecord (hchain : db.chainoff = chainOff c) (hmax : (headOff es : ℤ) ≤ ptrMax)
    (hnone : ∀ r ∈ fs, ¬ r.Fits key.val.length (data.val.length + 1)) :
    (appendRecord db key data (headOff es)).Ensures (World.perform p) w fun _ w' =>
      Inserted (w.file .idx) (w.file .dat) c es fs key data (w'.file .idx) (w'.file .dat) := by
  have hplace : w.target p .dat 0 .seekEnd = (w.file .dat).length := add_zero _
  refine (returns_dbWritedat hplace).ensures.bind ?_
  rintro _ w₁ ⟨rfl, hfile₁⟩
  have hidx₁ : w₁.file .idx = w.file .idx := by
    rw [hfile₁]
    rfl
  have hplace₁ : w₁.target p .idx 0 .seekEnd = (w.file .idx).length := by
    rw [World.target, hidx₁, add_zero]
  refine (ensures_dbWriteidx (r := newRec (w.file .idx) (w.file .dat) key data) hmax rfl rfl
    hplace₁).bind ?_
  rintro db₂ w₂ ⟨⟨hchain₂, hoff₂⟩, hlen, hfile₂⟩
  rw [hchain₂, hoff₂, hchain]
  refine ensures_dbWriteptr.bind ?_
  rintro _ w₃ ⟨hmax₃, hfile₃⟩
  refine Prog.Returns.ensures (.ret ?_)
  have hidx₃ : w₃.file .idx = writeAt (w.file .idx ++ (ptrField (headOff es) ++
      (newRec (w.file .idx) (w.file .dat) key data).tail)) (chainOff c)
        (ptrField (w.file .idx).length) := by
    rw [hfile₃, update_self, hfile₂, update_self, hidx₁, newRec, writeAt_length]
  have hdat₃ : w₃.file .dat = w.file .dat ++ (data ++ [newline]) := by
    have hne : DbFile.dat ≠ .idx := by decide
    rw [hfile₃, update_of_ne hne, hfile₂, update_of_ne hne, hfile₁, update_self, writeAt_length]
  rw [hidx₃, hdat₃]
  exact .append hnone hlen hmax₃

lemma returns_overwrite {n m : ℕ} (hr : r.Valid)
    (hfits : r.Fits key.val.length (data.val.length + 1)) (hn : (n : ℤ) ≤ ptrMax)
    (hchain : db.chainoff = chainOff c) : Prog.Returns (World.perform p) (do
      let db ← dbWritedat (db.atRec r m) data (db.atRec r m).datoff .seekSet
      let db ← dbWriteidx db key db.idxoff .seekSet n
      dbWriteptr db.chainoff db.idxoff
      return ((0 : ℤ), db) : DbProg (ℤ × DB)) w fun _ w' =>
        w'.file .idx = writeAt (writeAt (w.file .idx) r.off (ptrField n ++
          (r.retake key data).tail)) (chainOff c) (ptrField r.off) ∧
        w'.file .dat = writeAt (w.file .dat) r.datoff (data ++ [newline]) := by
  have hvalid : (r.retake key data).Valid := hr.reuse hfits.1 (Nat.succ.inj hfits.2)
  have hidx : DbFile.idx ≠ .dat := by decide
  refine (returns_dbWritedat (o := r.datoff) rfl).bind ?_
  rintro _ w₁ ⟨rfl, hfile₁⟩
  refine (returns_dbWriteidx (r := r.retake key data) hvalid.le_len hvalid.len_le hn rfl rfl
    rfl).bind ?_
  rintro _ w₂ ⟨rfl, hfile₂⟩
  have hhead : (dbWriteptr db.chainoff r.off).Returns (World.perform p) w₂ fun _ w₃ =>
      w₃.file = update w₂.file .idx (writeAt (w₂.file .idx) (chainOff c) (ptrField r.off)) := by
    rw [hchain]
    exact returns_dbWriteptr hr.off_le
  refine hhead.bind ?_
  intro _ w₃ hfile₃
  refine .ret ⟨?_, ?_⟩
  · rw [hfile₃, update_self, hfile₂, update_self, hfile₁, update_of_ne hidx]
    rfl
  · rw [hfile₃, update_of_ne hidx.symm, hfile₂, update_of_ne hidx.symm, hfile₁, update_self]

lemma ensures_storeNew {flag : ℤ} (hflag : flag ≠ dbReplace) (hchain : db.chainoff = chainOff c)
    (hchead : Stands (w.file .idx) (chainOff c) (ptrField (headOff es)))
    (hcmax : (headOff es : ℤ) ≤ ptrMax)
    (hfhead : Stands (w.file .idx) freeOff (ptrField (headOff fs)))
    (hfs : Standing (w.file .idx) fs) (hfmax : (headOff fs : ℤ) ≤ ptrMax) :
    (storeNew db key data flag).Ensures (World.perform p) w fun _ w' =>
      Inserted (w.file .idx) (w.file .dat) c es fs key data (w'.file .idx) (w'.file .dat) := by
  rw [storeNew, if_neg hflag, hchain]
  refine (returns_dbReadptr hchead hcmax).ensures.bind ?_
  rintro _ w₁ ⟨rfl, hfile₁⟩
  rw [← hfile₁] at hfhead hfs ⊢
  refine (returns_dbFindfree hfhead hfs hfmax).ensures.bind ?_
  rintro ⟨rc, db₂⟩ w₂ ⟨hchain₂, hrc⟩
  rcases hrc with ⟨rfl, hfile₂, hnone⟩ | ⟨pre, r, post, rfl, hfits, rfl, ⟨db₀, rfl⟩, hfile₂⟩
  · rw [← hfile₂]
    exact ensures_appendRecord (hchain₂.trans hchain) hcmax hnone
  · have hr : r.Valid := hfs.append_right.valid
    refine (returns_overwrite hr hfits hcmax (hchain₂.trans hchain)).ensures.mono ?_
    rintro _ w₃ ⟨hidx, hdat⟩
    rw [hidx, hdat, hfile₂]
    exact .reuse rfl hfits

lemma standing_of_cells {bs : List Bytes} {a : ℕ} {t : Bytes} (hv : ∀ r ∈ es, r.Valid)
    (hs : ∀ r ∈ es, sep ∉ r.key) (hb : blocksOf .idx (cells a t es) ≤ blocksFrom 0 bs) :
    Stands bs.flatten a (ptrField (headOff es)) ∧ Standing bs.flatten es := by
  rw [blocksOf_idx_cells] at hb
  constructor
  · have hptr : (a, ptrField (headOff es) ++ t) ∈ blocksFrom 0 bs :=
      mem_of_le hb (mem_add.mpr (.inl (Multiset.mem_singleton_self _)))
    exact (stands_block hptr).left
  · intro x hx
    have hrec : idxBlock x ∈ blocksFrom 0 bs :=
      mem_of_le hb (mem_add.mpr (.inr (mem_map_of_mem _ hx)))
    exact ⟨readable_of_mem_links hv hs hx, stands_block hrec⟩

lemma forall_of_search {key : Bytes} (h : search es key = .ok none) :
    ∀ r ∈ es, sep ∉ r.key ∧ r.key ≠ key := by
  induction es with
  | nil => nofun
  | cons r es ih =>
    rw [search] at h
    split_ifs at h with hsep hkey
    · cases h
    · intro q hq
      rcases mem_cons.mp hq with rfl | hq
      · exact ⟨hsep, hkey⟩
      · exact ih h q hq

lemma ne_dbReplace {flag : ℤ} (hflag : flag = dbInsert ∨ flag = dbStoreFlag) :
    flag ≠ dbReplace := by
  rintro rfl
  revert hflag
  decide

lemma AtRest.ensures_store [Fintype ι] {K : Bytes → Prop} {G : Division ι DbFile Res (List Rec)}
    (hG : AtRest K w G) (hdb : Opened db) {flag : ℤ} (hflag : flag = dbInsert ∨ flag = dbStoreFlag)
    (hsearch : search (G.cur (.inl (chainOf key))) key = .ok none) :
    (Db.library (.store key data flag) db).Ensures (World.perform p) w fun _ w' =>
      Inserted (w.file .idx) (w.file .dat) (chainOf key) (G.cur (.inl (chainOf key)))
        (G.cur (.inr .free)) key data (w'.file .idx) (w'.file .dat) := by
  have hes := hG.chain (chainOf key)
  have hread := forall_of_search hsearch
  have hfree := hG.freeList
  obtain ⟨hchead, hchain⟩ := standing_of_cells hes.valid (fun r hr => (hread r hr).1)
    (hG.blocksOf_chain_le (chainOf key))
  obtain ⟨hfhead, hfs⟩ := standing_of_cells hfree.valid (fun r hr => hfree.notMem_sep hr)
    (hG.blocksOf_free_le .idx)
  rw [← hG.sound.content .idx] at hchead hchain hfhead hfs
  have hinvalid : ¬ (flag ≠ dbInsert ∧ flag ≠ dbReplace ∧ flag ≠ dbStoreFlag) := by
    rintro ⟨hins, -, hsto⟩
    exact hflag.elim hins hsto
  have hreplace := ne_dbReplace hflag
  refine Prog.Ensures.bind (Q := fun _ w' => Inserted (w.file .idx) (w.file .dat) (chainOf key)
    (G.cur (.inl (chainOf key))) (G.cur (.inr .free)) key data (w'.file .idx) (w'.file .dat)) ?_ ?_
  · rw [dbStore, if_neg hinvalid]
    apply Prog.Ensures.require
    intro _
    refine (returns_dbFindAndLock hdb hchead hchain (headOff_le hes.valid)
      fun r hr => (hread r hr).2).ensures.bind ?_
    rintro ⟨rc, db₁⟩ w₁ ⟨rfl, hoff, hfile₁⟩
    rw [← hfile₁] at hchead hfhead hfs ⊢
    refine (ensures_storeNew hreplace hoff hchead (headOff_le hes.valid) hfhead hfs
      (headOff_le hfree.valid)).bind ?_
    rintro x w₂ hins
    exact Prog.Returns.ensures (Prog.Returns.call (.ret hins))
  · rintro x w₂ hins
    exact Prog.Returns.ensures (.ret hins)

end Alone

/-! ## The records of the index file -/

/-- The index records from the offset `o` on, one behind the other: where each of them begins, and
how many bytes it has. -/
def extents (f : Bytes) : ℕ → ℕ → Option (List (ℕ × ℕ))
  | 0, _ => none
  | fuel + 1, o =>
    if o = f.length then some []
    else do
      let len := ptrSz + idxlenSz + (atol (readAt f (o + ptrSz) idxlenSz)).toNat
      let rest ← extents f fuel (o + len)
      return (o, len) :: rest

lemma atol_lenField {f : Bytes} {x : Rec × ℕ} (hv : x.1.Valid) (hn : (x.2 : ℤ) ≤ ptrMax)
    (h : Stands f x.1.off (idxBlock x).2) :
    atol (readAt f (x.1.off + ptrSz) idxlenSz) = x.1.text.length := by
  have hlen := length_lenField hv.len_le
  have hfield := h.right.left.readAt_eq
  rw [hlen, length_ptrField hn] at hfield
  rw [hfield]
  simpa using @atol_padLeft [] idxlenSz x.1.text.length nofun

lemma extents_blocks {pre post : List Bytes} {xs : Multiset (Rec × ℕ)}
    (hv : ∀ x ∈ xs, x.1.Valid ∧ (x.2 : ℤ) ≤ ptrMax)
    (hb : blocksFrom pre.flatten.length post = xs.map idxBlock) :
    ∃ recs, extents (pre ++ post).flatten (post.length + 1) pre.flatten.length = some recs ∧
      ∀ x ∈ recs, ∃ b, (x.1, b) ∈ blocksFrom pre.flatten.length post ∧ b.length = x.2 := by
  induction post generalizing pre xs with
  | nil =>
    refine ⟨[], ?_, nofun⟩
    rw [extents, if_pos (by simp)]
  | cons b post ih =>
    obtain ⟨x, xs, rfl, hoff, -, hblen, hmem, hlen, hpost⟩ := exists_idxBlock hv hb
    obtain ⟨hvalid, hnext⟩ := hv x (mem_cons_self ..)
    have hfield := atol_lenField hvalid hnext (stands_block hmem)
    rw [hoff] at hfield
    obtain ⟨recs, hrecs, hmems⟩ := ih (fun y hy => hv y (mem_cons_of_mem hy)) hpost
    rw [blocksFrom]
    rw [append_assoc, hlen] at hrecs
    refine ⟨(pre.flatten.length, b.length) :: recs, ?_, ?_⟩
    · rw [length_cons, extents,
        if_neg (length_flatten_ne (hblen.trans (Nat.add_assoc ..))), hfield, Int.toNat_natCast,
        ← hblen]
      change (extents (pre ++ b :: post).flatten (post.length + 1) _).bind _ = _
      rw [show extents (pre ++ b :: post).flatten _ _ = some recs from hrecs]
      rfl
    · intro y hy
      rcases mem_cons.mp hy with rfl | hy
      · exact ⟨b, mem_cons_self .., rfl⟩
      · obtain ⟨c, hc, hclen⟩ := hmems y hy
        rw [hlen] at hc
        exact ⟨c, mem_cons_of_mem hc, hclen⟩

/-! ## The free list -/

def redirect (next : ℤ) : List IdxRec → List IdxRec
  | [] => []
  | [x] => [{ x with next := next }]
  | x :: y :: xs => x :: redirect next (y :: xs)

def pointerTo (xs : List IdxRec) : ℤ := (xs.getLast?.map off).getD freeOff

def linksTo (n : ℕ) : List Rec → List (Rec × ℕ)
  | [] => []
  | [r] => [(r, n)]
  | r :: q :: rs => (r, q.off) :: linksTo n (q :: rs)

lemma links_append (pre post : List Rec) :
    links (pre ++ post) = linksTo (headOff post) pre ++ links post := by
  induction pre with
  | nil => rfl
  | cons r pre ih =>
    rw [cons_append, links, ih]
    cases pre <;> rfl

lemma redirect_linksTo (n m : ℕ) (rs : List Rec) :
    redirect n ((linksTo m rs).map of) = (linksTo n rs).map of := by
  induction rs with
  | nil => rfl
  | cons r rs ih =>
    cases rs with
    | nil => rfl
    | cons q rs =>
      rw [linksTo, linksTo, map_cons, map_cons, ← ih]
      cases rs <;> rfl

lemma linksTo_concat (n : ℕ) (rs : List Rec) (r : Rec) :
    linksTo n (rs ++ [r]) = linksTo r.off rs ++ [(r, n)] := by
  induction rs with
  | nil => rfl
  | cons q rs ih =>
    cases rs with
    | nil => rfl
    | cons q' rs =>
      rw [cons_append, cons_append, linksTo, linksTo, ← cons_append, ih]
      rfl

lemma pointerTo_linksTo (n : ℕ) (rs : List Rec) :
    pointerTo ((linksTo n rs).map of) = lastOff freeOff rs := by
  cases rs using reverseRecOn with
  | nil => rfl
  | append_singleton rs r =>
    rw [linksTo_concat, map_append, map_singleton, pointerTo, getLast?_concat,
      lastOff_concat]
    rfl

/-! ## What an insertion leaves as it was -/

/-- The free record `r`, between `pre` and `post` on the free list, has been reused for a record on
the chain headed at the offset `head`.  Of the other records only the one in front of `r` on the
free list is changed, and only in its pointer. -/
structure Reused (f f' g g' : Bytes) (recs : List (ℕ × ℕ)) (head keylen datlen : ℕ)
    (pre : List IdxRec) (r : IdxRec) (post : List IdxRec) : Prop where
  key_length : r.key.length = keylen
  datlen_eq : r.datlen = datlen
  idx_length : f'.length = f.length
  dat_length : g'.length = g.length
  walk_free : ∃ fuel, walk f' fuel freeOff = some (redirect r.next pre ++ post)
  others : ∀ x ∈ recs, (x.1 : ℤ) ≠ r.off → ∀ i < x.2, ptrSz ≤ i ∨ (x.1 : ℤ) ≠ pointerTo pre →
    f'[x.1 + i]? = f[x.1 + i]?
  table : ∀ i < recOff, (i < head ∨ head + ptrSz ≤ i) → (ptrSz ≤ i ∨ pre ≠ []) → f'[i]? = f[i]?
  data : ∀ i : ℕ, ((i : ℤ) < r.datoff ∨ r.datoff + datlen ≤ i) → g'[i]? = g[i]?

/-- A record with `len` bytes in the index file and `datlen` bytes in the data file has been
appended, and is on the chain whose head is at the offset `head`. -/
structure Appended (f f' g g' : Bytes) (head len datlen : ℕ) : Prop where
  idx_length : f'.length = f.length + len
  dat_length : g'.length = g.length + datlen
  idx : ∀ i < f.length, (i < head ∨ head + ptrSz ≤ i) → f'[i]? = f[i]?
  dat : ∀ i < g.length, g'[i]? = g[i]?

section Blocks

variable {bs : List Bytes} {c : Fin nhashDef} {es fs pre post : List Rec} {r : Rec}
  {key data : Bytes} {rest : Multiset (ℕ × Bytes)}

def before (pre post es : List Rec) (r : Rec) (c : ℕ) (rest : Multiset (ℕ × Bytes)) :
    Multiset (ℕ × Bytes) :=
  (lastOff freeOff pre, ptrField r.off ++ lastTail [] pre) ::ₘ
    (r.off, ptrField (headOff post) ++ r.tail) ::ₘ (chainOff c, ptrField (headOff es)) ::ₘ rest

def after (pre post es : List Rec) (r : Rec) (key data : Bytes) (c : ℕ)
    (rest : Multiset (ℕ × Bytes)) : Multiset (ℕ × Bytes) :=
  (lastOff freeOff pre, ptrField (headOff post) ++ lastTail [] pre) ::ₘ
    (r.off, ptrField (headOff es) ++ (r.retake key data).tail) ::ₘ (chainOff c, ptrField r.off) ::ₘ
      rest

lemma blocksOf_idxBlock (o : ℕ) (b : Bytes) (cs : Multiset (Cell DbFile)) :
    blocksOf .idx (.block .idx o b ::ₘ cs) = (o, b) ::ₘ blocksOf .idx cs := by
  rw [blocksOf_cons]
  rfl

lemma blocksOf_datCell (r : Rec) (cs : Multiset (Cell DbFile)) :
    blocksOf .idx (r.datCell ::ₘ cs) = blocksOf .idx cs := by
  rw [blocksOf_cons]
  exact zero_add _

lemma blocksOf_lists (pre post es : List Rec) (r : Rec) (c : Fin nhashDef)
    (rest : Multiset (ℕ × Bytes)) : blocksOf .idx (cells freeOff [] (pre ++ r :: post)) +
      (blocksOf .idx (chainCells c es) + rest) = before pre post es r c
        (blocksOf .idx (front freeOff [] pre + body post) + (blocksOf .idx (body es) + rest)) := by
  rw [cells_append_cons, chainCells, cells, blocksOf_idxBlock, blocksOf_datCell, Rec.idxCell,
    blocksOf_idxBlock, blocksOf_idxBlock, before, cons_add, cons_add,
    cons_add, add_cons, append_nil]

lemma exists_blocks_after (h : blocksFrom 0 bs = before pre post es r c rest)
    (hr : r.Valid) (hpost : (headOff post : ℤ) ≤ ptrMax) (hes : (headOff es : ℤ) ≤ ptrMax)
    (hfits : r.Fits key.length (data.length + 1)) :
    ∃ bs', bs'.flatten = writeAt (writeAt (writeAt bs.flatten (lastOff freeOff pre)
        (ptrField (headOff post))) r.off (ptrField (headOff es) ++ (r.retake key data).tail))
          (chainOff c) (ptrField r.off) ∧
      blocksFrom 0 bs' = after pre post es r key data c rest := by
  have hlen : ∀ {n m : ℕ}, (n : ℤ) ≤ ptrMax → (m : ℤ) ≤ ptrMax →
      (ptrField n).length = (ptrField m).length := fun hn hm => by
    rw [length_ptrField hn, length_ptrField hm]
  have htext := length_text_retake hfits
  have hrec : (ptrField (headOff post) ++ r.tail).length =
      (ptrField (headOff es) ++ (r.retake key data).tail).length := by
    rw [length_idxBlock hpost hr.len_le, length_idxBlock hes (htext ▸ hr.len_le), htext]
  obtain ⟨bs₁, hflat₁, hbs₁⟩ := exists_overwrite h (hlen hr.off_le hpost)
  rw [cons_swap, ← append_nil (ptrField (headOff post) ++ r.tail)] at hbs₁
  obtain ⟨bs₂, hflat₂, hbs₂⟩ := exists_overwrite hbs₁ hrec
  have hhead : blocksFrom 0 bs₂ = (chainOff c, ptrField (headOff es) ++ []) ::ₘ
      (lastOff freeOff pre, ptrField (headOff post) ++ lastTail [] pre) ::ₘ
        (r.off, ptrField (headOff es) ++ (r.retake key data).tail) ::ₘ rest := by
    rw [hbs₂, append_nil, append_nil]
    simp only [← singleton_add]
    abel
  obtain ⟨bs₃, hflat₃, hbs₃⟩ := exists_overwrite hhead (hlen hes hr.off_le)
  refine ⟨bs₃, by rw [hflat₃, hflat₂, hflat₁], ?_⟩
  rw [hbs₃, append_nil, after]
  simp only [← singleton_add]
  abel

lemma walk_after (hfs : FreeList (pre ++ r :: post))
    (h : blocksFrom 0 bs = after pre post es r key data c
      (blocksOf .idx (front freeOff [] pre + body post) + rest)) :
    ∃ fuel, walk bs.flatten fuel freeOff =
      some ((linksTo (headOff post) pre ++ links post).map of) := by
  have hmem : ∀ q ∈ pre ++ post, q ∈ pre ++ r :: post := fun q hq => by
    rcases mem_append.mp hq with hq | hq
    · exact mem_append_left _ hq
    · exact mem_append_right _ (mem_cons_of_mem _ hq)
  have hle : blocksOf .idx (cells freeOff [] (pre ++ post)) ≤ blocksFrom 0 bs := by
    rw [cells_append_eq_cons, blocksOf_idxBlock, h, after, cons_le_cons_iff]
    refine le_trans (le_add_right _ rest) ?_
    exact (le_cons_self _ _).trans (le_cons_self _ _)
  rw [← links_append]
  exact ⟨_, walk_cells (fun q hq => hfs.valid q (hmem q hq))
    (fun q hq => hfs.notMem_sep (hmem q hq)) hle⟩

lemma others_after {bs' : List Bytes} (h : blocksFrom 0 bs = before pre post es r c rest)
    (h' : blocksFrom 0 bs' = after pre post es r key data c rest) (hr : (r.off : ℤ) ≤ ptrMax)
    (hpost : (headOff post : ℤ) ≤ ptrMax) {o : ℕ} {b : Bytes} (ho : recOff ≤ o)
    (hb : (o, b) ∈ blocksFrom 0 bs) (hne : o ≠ r.off) {i : ℕ} (hi : i < b.length)
    (hptr : ptrSz ≤ i ∨ o ≠ lastOff freeOff pre) :
    bs'.flatten[o + i]? = bs.flatten[o + i]? := by
  have hold := stands_block hb i hi
  rw [h, before, Multiset.mem_cons, Multiset.mem_cons, Multiset.mem_cons] at hb
  rcases hb with hb | hb | hb | hb
  · -- the pointer to `r`, and what stands behind it
    obtain ⟨rfl, rfl⟩ := Prod.mk.inj hb
    have hmem : (lastOff freeOff pre, ptrField (headOff post) ++ lastTail [] pre) ∈
        blocksFrom 0 bs' := by
      rw [h', after]
      exact mem_cons_self ..
    have hlen := length_ptrField hr
    have hlen' := length_ptrField hpost
    have hi' : ptrSz ≤ i := hptr.resolve_right (not_not_intro rfl)
    rw [length_append] at hi
    rw [hold, stands_block hmem i (by rw [length_append]; omega),
      getElem?_append_right (by omega), getElem?_append_right (by omega), hlen, hlen']
  · exact absurd (congrArg Prod.fst hb) hne
  · have hoff : o = chainOff c := congrArg Prod.fst hb
    have hlt : (c : ℕ) < nhashDef := c.isLt
    simp only [hoff, chainOff, recOff, ptrSz, hashOff] at ho
    omega
  · have hmem : (o, b) ∈ blocksFrom 0 bs' := by
      rw [h', after]
      exact mem_cons_of_mem (mem_cons_of_mem (mem_cons_of_mem hb))
    rw [hold, stands_block hmem i hi]

lemma le_lastOff (hpre : ∀ q ∈ pre, q.Valid) (hne : pre ≠ []) : recOff ≤ lastOff freeOff pre := by
  cases pre using reverseRecOn with
  | nil => exact absurd rfl hne
  | append_singleton pre q =>
    rw [lastOff_concat]
    exact (hpre q (mem_append_right _ mem_cons_self)).le_off

lemma table_after {f : Bytes} {a o head : ℕ} {p₁ p₂ p₃ : Bytes} (hp₁ : p₁.length = ptrSz)
    (hp₃ : p₃.length = ptrSz) (h₁ : a + ptrSz ≤ f.length) (h₂ : o + p₂.length ≤ f.length)
    (h₃ : head + ptrSz ≤ f.length) (ho : recOff ≤ o) :
    (writeAt (writeAt (writeAt f a p₁) o p₂) head p₃).length = f.length ∧
      ∀ i < recOff, (i < head ∨ head + ptrSz ≤ i) → (i < a ∨ a + ptrSz ≤ i) →
        (writeAt (writeAt (writeAt f a p₁) o p₂) head p₃)[i]? = f[i]? := by
  have hlen₁ : (writeAt f a p₁).length = f.length := length_writeAt (by omega)
  have hlen₂ : (writeAt (writeAt f a p₁) o p₂).length = f.length :=
    (length_writeAt (by omega)).trans hlen₁
  refine ⟨(length_writeAt (by omega)).trans hlen₂, fun i hi hhead ha => ?_⟩
  rw [getElem?_writeAt_of_outside (by omega) (by omega),
    getElem?_writeAt_of_outside (by omega) (by omega),
    getElem?_writeAt_of_outside (by omega) (by omega)]

end Blocks

section AtRest

variable {ι : Type} [Fintype ι] {K : Bytes → Prop} {w : World ι DbFile}
  {G : Division ι DbFile Res (List Rec)}

section

variable (hG : AtRest K w G)
include hG

lemma AtRest.exists_blocks (c : Fin nhashDef) :
    ∃ rest, blocksFrom 0 (G.blocks .idx) = blocksOf .idx (cells freeOff [] (G.cur (.inr .free))) +
      (blocksOf .idx (chainCells c (G.cur (.inl c))) + rest) := by
  obtain ⟨n, m, hcells⟩ := hG.allCells_eq
  rw [← Finset.add_sum_erase _ _ (Finset.mem_univ c)] at hcells
  refine ⟨blocksOf .idx (∑ c' ∈ Finset.univ.erase c, chainCells c' (G.cur (.inl c')) +
    ({.eof .idx n} + {.eof .dat m}) + {tableEnd}), ?_⟩
  rw [← blocksOf_allCells, hcells, ← map_add, ← map_add]
  congr 1
  abel

lemma AtRest.exists_extents :
    ∃ recs, (∃ fuel, extents (w.file .idx) fuel recOff = some recs) ∧
      ∀ x ∈ recs, recOff ≤ x.1 ∧ ∃ b, (x.1, b) ∈ blocksFrom 0 (G.blocks .idx) ∧ b.length = x.2 := by
  obtain ⟨pre, post, hidx, hpre, hpost⟩ := hG.blocks_records
  rw [← hpre] at hpost
  obtain ⟨recs, hrecs, hmem⟩ := extents_blocks (hG.valid Finset.univ) hpost
  rw [hpre] at hrecs hmem
  rw [hG.sound.content .idx, hidx]
  refine ⟨recs, ⟨_, hrecs⟩, fun x hx => ?_⟩
  obtain ⟨b, hb, hlen⟩ := hmem x hx
  refine ⟨le_of_mem_blocksFrom hb, b, ?_, hlen⟩
  rw [blocksFrom_append, Nat.zero_add, hpre]
  exact mem_add.mpr (.inr hb)

lemma AtRest.data_inside {pre post : List Rec} {r : Rec}
    (hcur : G.cur (.inr .free) = pre ++ r :: post) :
    r.datoff + (r.data.length + 1) ≤ (w.file .dat).length := by
  have hle := hG.blocksOf_free_le .dat
  rw [hcur, blocksOf_dat_cells, links_append] at hle
  have hmem : datBlock (r, headOff post) ∈ blocksFrom 0 (G.blocks .dat) :=
    mem_of_le hle (mem_map_of_mem _
      (mem_coe.mpr (mem_append_right _ mem_cons_self)))
  have hinside := add_length_le_of_mem hmem
  rw [length_append, length_singleton] at hinside
  rw [hG.sound.content .dat]
  exact hinside

lemma AtRest.reused {c : Fin nhashDef} {pre post : List Rec} {r : Rec}
    {key data : Bytes} (hcur : G.cur (.inr .free) = pre ++ r :: post)
    (hfits : r.Fits key.length (data.length + 1)) {recs : List (ℕ × ℕ)}
    (hrecs : ∀ x ∈ recs, recOff ≤ x.1 ∧
      ∃ b, (x.1, b) ∈ blocksFrom 0 (G.blocks .idx) ∧ b.length = x.2) :
    Reused (w.file .idx) (writeAt (writeAt (writeAt (w.file .idx) (lastOff freeOff pre)
        (ptrField (headOff post))) r.off (ptrField (headOff (G.cur (.inl c))) ++
          (r.retake key data).tail)) (chainOff c) (ptrField r.off))
      (w.file .dat) (writeAt (w.file .dat) r.datoff (data ++ [newline])) recs (chainOff c)
      key.length (data.length + 1) ((linksTo r.off pre).map of)
      (of (r, headOff post)) ((links post).map of) := by
  have hfree := hG.freeList
  rw [hcur] at hfree
  have hr : r.Valid := hfree.valid r (mem_append_right _ mem_cons_self)
  have hpre : ∀ q ∈ pre, q.Valid := fun q hq => hfree.valid q (mem_append_left _ hq)
  have hpost : (headOff post : ℤ) ≤ ptrMax := headOff_le fun q hq =>
    hfree.valid q (mem_append_right _ (mem_cons_of_mem _ hq))
  have hes : (headOff (G.cur (.inl c)) : ℤ) ≤ ptrMax := headOff_le (hG.chain c).valid
  obtain ⟨rest, hblocks⟩ := hG.exists_blocks c
  rw [hcur, blocksOf_lists] at hblocks
  obtain ⟨bs', hflat, hblocks'⟩ := exists_blocks_after hblocks hr hpost hes hfits
  -- the three places that are written are inside of the index file
  have hinside : ∀ {o : ℕ} {b : Bytes}, (o, b) ∈ before pre post (G.cur (.inl c)) r c
      (blocksOf .idx (front freeOff [] pre + body post) +
        (blocksOf .idx (body (G.cur (.inl c))) + rest)) →
      o + b.length ≤ (G.blocks .idx).flatten.length := fun hb =>
    add_length_le_of_mem (hblocks ▸ hb)
  have h₁ := hinside (mem_cons_self ..)
  have h₂ := hinside (mem_cons_of_mem (mem_cons_self ..))
  have h₃ := hinside
    (mem_cons_of_mem (mem_cons_of_mem (mem_cons_self ..)))
  rw [length_append, length_ptrField hr.off_le, ← Nat.add_assoc] at h₁
  rw [length_ptrField hes] at h₃
  rw [length_idxBlock hpost hr.len_le, ← length_text_retake hfits,
    ← length_idxBlock hes (length_text_retake hfits ▸ hr.len_le)] at h₂
  obtain ⟨hlength, htable⟩ := table_after (length_ptrField hpost) (length_ptrField hr.off_le)
    (Nat.le_of_add_right_le h₁) h₂ h₃ hr.le_off
  have hdat := hG.data_inside hcur
  have hdatlen : (data ++ [newline]).length = r.data.length + 1 := by
    rw [length_append]
    exact hfits.2.symm
  rw [hG.sound.content .idx]
  refine ⟨hfits.1, hfits.2, hlength, length_writeAt (by omega), ?_, ?_, ?_, ?_⟩
  · obtain ⟨fuel, hwalk⟩ := walk_after hfree hblocks'
    refine ⟨fuel, ?_⟩
    rw [← hflat, hwalk, map_append]
    exact congrArg (some <| · ++ _) (redirect_linksTo (headOff post) r.off pre).symm
  · intro x hx hne i hi hptr
    obtain ⟨hoff, b, hb, hlen⟩ := hrecs x hx
    rw [pointerTo_linksTo] at hptr
    rw [← hflat]
    exact others_after hblocks hblocks' hr.off_le hpost hoff hb (fun h => hne (congrArg _ h))
      (hlen ▸ hi) (hptr.imp_right fun h h' => h (congrArg _ h'))
  · intro i hi hhead hfirst
    refine htable i hi hhead ?_
    by_cases hnil : pre = []
    · subst hnil
      exact .inr (by simpa [lastOff, freeOff, linksTo] using hfirst)
    · exact .inl (Nat.lt_of_lt_of_le hi (le_lastOff hpre hnil))
  · intro i hi
    have hdatoff : (of (r, headOff post)).datoff = r.datoff := rfl
    rw [hdatoff] at hi
    refine getElem?_writeAt_of_outside (by omega) ?_
    rw [length_append, length_singleton]
    omega

lemma AtRest.appended {c : Fin nhashDef} {key data : Bytes} {next : ℕ}
    (hnext : (next : ℤ) ≤ ptrMax) (hmax : ((w.file .idx).length : ℤ) ≤ ptrMax)
    (hlen : (newRec (w.file .idx) (w.file .dat) key data).text.length ≤ idxlenMax) :
    Appended (w.file .idx) (writeAt (w.file .idx ++ (ptrField next ++
        (newRec (w.file .idx) (w.file .dat) key data).tail)) (chainOff c)
          (ptrField (w.file .idx).length))
      (w.file .dat) (w.file .dat ++ (data ++ [newline])) (chainOff c)
      (ptrSz + idxlenSz + (idxLine key (w.file .dat).length (data.length + 1)).length)
      (data.length + 1) := by
  have hline : idxLine key (w.file .dat).length (data.length + 1) =
      (newRec (w.file .idx) (w.file .dat) key data).text := by
    rw [idxLine, decimalInt_natCast]
    rfl
  have hptr := length_ptrField hmax
  have hhead : chainOff c + ptrSz ≤ (w.file .idx).length := by
    have hle := hG.blocksOf_chain_le c
    rw [blocksOf_idx_cells] at hle
    have hmem := add_length_le_of_mem
      (mem_of_le hle (mem_add.mpr (.inl (Multiset.mem_singleton_self _))))
    rw [append_nil, length_ptrField (headOff_le (hG.chain c).valid)] at hmem
    rw [hG.sound.content .idx]
    exact hmem
  have hin : chainOff c + (ptrField (w.file .idx).length).length ≤ (w.file .idx ++ (ptrField next ++
      (newRec (w.file .idx) (w.file .dat) key data).tail)).length := by
    rw [hptr, length_append]
    omega
  refine ⟨?_, ?_, ?_, ?_⟩
  · rw [length_writeAt hin, length_append, length_idxBlock hnext hlen, hline]
  · rw [length_append, length_append, length_singleton]
  · intro i hi houtside
    rw [getElem?_writeAt_of_outside (by omega) (by omega), getElem?_append_left hi]
  · intro i hi
    exact getElem?_append_left hi

end

end AtRest

lemma exists_fits_iff {fs : List Rec} {keylen datlen : ℕ} :
    (∃ x ∈ (links fs).map of, x.key.length = keylen ∧ x.datlen = datlen) ↔
      ∃ r ∈ fs, r.Fits keylen datlen := by
  constructor
  · rintro ⟨x, hx, hlens⟩
    obtain ⟨y, hy, rfl⟩ := mem_map.mp hx
    exact ⟨y.1, fst_mem_of_mem_links hy, hlens⟩
  · rintro ⟨r, hr, hfits⟩
    obtain ⟨n, hn⟩ := exists_link_of_mem hr
    exact ⟨of (r, n), mem_map_of_mem hn, hfits⟩

lemma not_forall_specStep_store {key data : CString} {flag : ℤ} {v : Val}
    (hflag : flag = dbInsert ∨ flag = dbStoreFlag) :
    ¬ ∀ m, specStep m (.store key data flag) = (v, m) := by
  intro hconst
  have hnone := congrArg (fun x => x.2 key.val) (hconst fun _ => none)
  have hvalid : validFlag flag := hflag.imp_right .inr
  have hreplace := ne_dbReplace hflag
  simp [specStep, hvalid, hreplace] at hnone

/-- An absent key takes the place of a free record with a key and data of the same lengths, if there
is one, and no other record changes but for one pointer; otherwise the files grow by the new record.
-/
theorem insert_reuses_or_appends (ops : List Op) {fuel : ℕ} {vs : List Val} {db : DB}
    {w : World Unit DbFile}
    (hexec : (session ops).exec (World.perform ()) fuel newFiles = some (.ok (vs, db), w))
    (key data : CString) (flag : ℤ) (hflag : flag = dbInsert ∨ flag = dbStoreFlag)
    (habsent : (seqRun specStep (fun _ => none) ops).2 key = none) {fuel' : ℕ} {v : Val}
    {db' : DB} {w' : World Unit DbFile} (hins : (library (.store key data flag) db).exec
      (World.perform ()) fuel' w = some (.ok (v, db'), w')) :
    let keylen := key.val.length
    let datlen := data.val.length + 1
    let head := chainOff (chainOf key)
    ∃ free recs, (∃ n, walk (w.file .idx) n freeOff = some free) ∧
      (∃ n, extents (w.file .idx) n recOff = some recs) ∧
      ((∃ r ∈ free, r.key.length = keylen ∧ r.datlen = datlen) → ∃ pre r post,
        free = pre ++ r :: post ∧ Reused (w.file .idx) (w'.file .idx) (w.file .dat) (w'.file .dat)
          recs head keylen datlen pre r post) ∧
      ((¬ ∃ r ∈ free, r.key.length = keylen ∧ r.datlen = datlen) →
        Appended (w.file .idx) (w'.file .idx) (w.file .dat) (w'.file .dat) head
          (ptrSz + idxlenSz + (idxLine key (w.file .dat).length datlen).length) datlen) := by
  intro keylen datlen head
  obtain ⟨n, out, w₁, hexec₁, hout⟩ :=
    exec_session (K := fun _ => True) fun o (_ : o ∈ ops) => trivial
  cases exec_unique hexec₁ hexec
  obtain ⟨hdb, G, hG, hrun⟩ := hout
  have hmap : mapOf G.cur key = none := by rw [← habsent, hrun]
  have hsearch : search (G.cur (.inl (chainOf key))) key = .ok none := by
    rcases hG.search_of_exec (o := .store key data flag) hdb trivial hins with hconst | hsearch
    · exact absurd hconst (not_forall_specStep_store hflag)
    · rw [← hmap]
      exact hsearch
  have hinserted : Inserted (w.file .idx) (w.file .dat) (chainOf key) (G.cur (.inl (chainOf key)))
      (G.cur (.inr .free)) key data (w'.file .idx) (w'.file .dat) :=
    hG.ensures_store hdb hflag hsearch _ _ _ hins
  obtain ⟨recs, hextents, hrecs⟩ := hG.exists_extents
  have hwalk : ∃ n, walk (w.file .idx) n freeOff =
      some ((links (G.cur (.inr .free))).map of) := by
    rw [hG.sound.content .idx]
    exact hG.walk_free
  refine ⟨_, recs, hwalk, hextents, ?_⟩
  rw [exists_fits_iff]
  generalize w'.file .idx = f', w'.file .dat = g' at hinserted ⊢
  cases hinserted with
  | @reuse pre r post hfs hfits =>
    refine ⟨fun _ => ⟨(linksTo r.off pre).map of, of (r, headOff post),
      (links post).map of, ?_, hG.reused hfs hfits hrecs⟩, fun hnone => ?_⟩
    · rw [hfs, links_append, map_append]
      rfl
    · exact absurd ⟨r, hfs ▸ mem_append_right _ mem_cons_self, hfits⟩ hnone
  | append hnone hlen hmax =>
    refine ⟨fun hsome => ?_, fun _ => ?_⟩
    · obtain ⟨r, hr, hfits⟩ := hsome
      exact absurd hfits (hnone r hr)
    · exact hG.appended (headOff_le (hG.chain _).valid) hmax hlen

/-- A record that has been deleted makes room for one with a key and data of the same lengths. -/
theorem insert_reuses_or_appends_sample :
    let ops : List Op := [.store ⟨[97, 98], by decide⟩ ⟨[99], by decide⟩ dbInsert,
      .delete ⟨[97, 98], by decide⟩]
    let key : CString := ⟨[120, 121], by decide⟩
    let data : CString := ⟨[122], by decide⟩
    ∃ n vs db w, (session ops).exec (World.perform ()) n newFiles = some (.ok (vs, db), w) ∧
      ∃ m v db' w', (library (.store key data dbInsert) db).exec (World.perform ()) m w =
        some (.ok (v, db'), w') ∧ ∃ free recs, (∃ n, walk (w.file .idx) n freeOff = some free) ∧
          (∃ n, extents (w.file .idx) n recOff = some recs) ∧
          ((∃ r ∈ free, r.key.length = 2 ∧ r.datlen = 2) → ∃ pre r post,
            free = pre ++ r :: post ∧ Reused (w.file .idx) (w'.file .idx) (w.file .dat)
              (w'.file .dat) recs (chainOff (chainOf key)) 2 2 pre r post) := by
  intro ops key data
  obtain ⟨db', w', hboth⟩ : ∃ db' w', ((session ops).bind fun x =>
      library (.store key data dbInsert) x.2).exec (World.perform ()) 100 newFiles =
        some (.ok (.status 0, db'), w') := exists_of_returned (by decide +kernel)
  obtain ⟨n, ⟨vs, db⟩, w, hexec, m, hins⟩ := exists_exec_of_bind hboth
  obtain ⟨free, recs, hfree, hrecs, hreuse, -⟩ := insert_reuses_or_appends ops hexec key data
    dbInsert (.inl rfl) (by decide) hins
  exact ⟨n, vs, db, w, hexec, m, _, db', w', hins, free, recs, hfree, hrecs, hreuse⟩

end UnixPrograms.Db
