import UnixPrograms.Lib.Files
import Mathlib.Algebra.BigOperators.Group.Finset.Piecewise

/-!
# Files cut into blocks

A file is the concatenation of blocks that are not empty.  The blocks with their offsets are a
multiset of cells, and a reading or writing in one block concerns one cell.  The cell `Cell.eof` is
the right to append.
-/

namespace UnixPrograms

open Function List Finset
open Multiset hiding map_add

def blocksFrom : ℕ → List Bytes → Multiset (ℕ × Bytes)
  | _, [] => 0
  | base, b :: bs => (base, b) ::ₘ blocksFrom (base + b.length) bs

lemma blocksFrom_append (base : ℕ) (bs cs : List Bytes) :
    blocksFrom base (bs ++ cs) = blocksFrom base bs + blocksFrom (base + bs.flatten.length) cs := by
  induction bs generalizing base with
  | nil => simp [blocksFrom]
  | cons b bs ih =>
    rw [cons_append, blocksFrom, blocksFrom, ih, cons_add, flatten_cons,
      length_append, Nat.add_assoc]

variable {o base i : ℕ} {bs : List Bytes} {b : Bytes}

lemma mem_blocksFrom :
    (o, b) ∈ blocksFrom base bs ↔
      ∃ pre post, bs = pre ++ b :: post ∧ o = base + pre.flatten.length := by
  induction bs generalizing base with
  | nil => simp [blocksFrom]
  | cons c bs ih =>
    rw [blocksFrom, Multiset.mem_cons, ih, Prod.mk.injEq]
    constructor
    · rintro (⟨rfl, rfl⟩ | ⟨pre, post, rfl, rfl⟩)
      · exact ⟨[], bs, rfl, rfl⟩
      · exact ⟨c :: pre, post, rfl, by simp [Nat.add_assoc]⟩
    · rintro ⟨pre, post, hbs, rfl⟩
      cases pre with
      | nil =>
        obtain ⟨rfl, rfl⟩ := List.cons.inj hbs
        exact .inl ⟨rfl, rfl⟩
      | cons d pre =>
        obtain ⟨rfl, rfl⟩ := List.cons.inj hbs
        exact .inr ⟨pre, post, rfl, by simp [Nat.add_assoc]⟩

lemma le_of_mem_blocksFrom {x : ℕ × Bytes} (h : x ∈ blocksFrom base bs) : base ≤ x.1 := by
  obtain ⟨pre, post, -, ho⟩ := mem_blocksFrom.mp (show (x.1, x.2) ∈ _ from h)
  omega

lemma nodup_offsets_blocksFrom (hne : ∀ b ∈ bs, b ≠ []) :
    ((blocksFrom base bs).map Prod.fst).Nodup := by
  induction bs generalizing base with
  | nil => simp [blocksFrom]
  | cons b bs ih =>
    rw [blocksFrom, Multiset.map_cons, Multiset.nodup_cons]
    refine ⟨?_, ih fun c hc => hne c (mem_cons_of_mem _ hc)⟩
    intro hmem
    obtain ⟨x, hx, hxb⟩ := mem_map.mp hmem
    have hlen : 0 < b.length := length_pos_of_ne_nil (hne b mem_cons_self)
    have hle : base + b.length ≤ x.1 := le_of_mem_blocksFrom hx
    omega

lemma add_length_le_of_mem_blocksFrom {x y : ℕ × Bytes} (hx : x ∈ blocksFrom base bs)
    (hy : y ∈ blocksFrom base bs) (hxy : x.1 < y.1) : x.1 + x.2.length ≤ y.1 := by
  induction bs generalizing base with
  | nil => simp [blocksFrom] at hx
  | cons b bs ih =>
    rw [blocksFrom, Multiset.mem_cons] at hx hy
    obtain rfl | hx := hx
    · obtain rfl | hy := hy
      · exact absurd hxy (Nat.lt_irrefl _)
      · exact le_of_mem_blocksFrom hy
    · obtain rfl | hy := hy
      · have hle : base + b.length ≤ x.1 := le_of_mem_blocksFrom hx
        exact absurd hxy (by simp only; omega)
      · exact ih hx hy

lemma exists_mem_blocksFrom (hlo : base ≤ i) (hhi : i < base + bs.flatten.length) :
    ∃ x ∈ blocksFrom base bs, x.1 ≤ i ∧ i < x.1 + x.2.length := by
  induction bs generalizing base with
  | nil =>
    rw [flatten_nil, length_nil] at hhi
    omega
  | cons b bs ih =>
    rw [flatten_cons, length_append] at hhi
    by_cases hi : i < base + b.length
    · exact ⟨(base, b), mem_cons_self .., hlo, hi⟩
    · obtain ⟨x, hx, hin⟩ := @ih (base + b.length) (by omega) (by omega)
      exact ⟨x, mem_cons_of_mem hx, hin⟩

section

variable (h : (o, b) ∈ blocksFrom 0 bs)
include h

lemma add_length_le_of_mem : o + b.length ≤ bs.flatten.length := by
  obtain ⟨pre, post, rfl, rfl⟩ := mem_blocksFrom.mp h
  simp only [flatten_append, flatten_cons, length_append]
  omega

lemma readAt_block {n : ℕ} (hin : i + n ≤ b.length) :
    readAt bs.flatten (o + i) n = readAt b i n := by
  obtain ⟨pre, post, rfl, rfl⟩ := mem_blocksFrom.mp h
  have hi : i ≤ b.length := by omega
  have hn : n ≤ (b.drop i).length := by
    rw [length_drop]
    omega
  rw [readAt, readAt, flatten_append, flatten_cons, Nat.zero_add, ← drop_drop,
    drop_left, drop_append_of_le_length hi, take_append_of_le_length hn]

lemma stands_block : Stands bs.flatten o b := by
  apply Stands.of_readAt
  have hread := readAt_block (i := 0) (n := b.length) h (by omega)
  rwa [Nat.add_zero, readAt, readAt, drop_zero, take_length] at hread

lemma exists_writeAt_block {d : Bytes} (hin : i + d.length ≤ b.length) :
    ∃ bs' rest, bs'.flatten = writeAt bs.flatten (o + i) d ∧
      blocksFrom 0 bs = (o, b) ::ₘ rest ∧ blocksFrom 0 bs' = (o, writeAt b i d) ::ₘ rest ∧
      ∀ c ∈ bs', c ∈ bs ∨ c = writeAt b i d := by
  obtain ⟨pre, post, rfl, rfl⟩ := mem_blocksFrom.mp h
  have hlen : (writeAt b i d).length = b.length := length_writeAt hin
  refine ⟨pre ++ writeAt b i d :: post,
    blocksFrom 0 pre + blocksFrom (pre.flatten.length + b.length) post, ?_, ?_, ?_, ?_⟩
  · have hi : i ≤ b.length := by omega
    have hd : i + d.length ≤ b.length := hin
    simp only [flatten_append, flatten_cons, Nat.zero_add, writeAt]
    rw [take_length_add_append, take_append_of_le_length hi, Nat.add_assoc,
      drop_length_add_append, drop_append_of_le_length hd]
    have hz : pre.flatten.length + i - (pre.flatten ++ (b ++ post.flatten)).length = 0 := by
      simp only [length_append]
      omega
    have hz' : i - b.length = 0 := by omega
    rw [hz, hz']
    simp
  · rw [blocksFrom_append, blocksFrom, Nat.zero_add, add_cons]
  · rw [blocksFrom_append, blocksFrom, Nat.zero_add, add_cons, hlen]
  · intro c hc
    rcases mem_append.mp hc with hc | hc
    · exact .inl (mem_append_left _ hc)
    · rcases mem_cons.mp hc with rfl | hc
      · exact .inr rfl
      · exact .inl (mem_append_right _ (mem_cons_of_mem _ hc))

end

lemma exists_overwrite {a a' t : Bytes} {rest : Multiset (ℕ × Bytes)}
    (h : blocksFrom 0 bs = (o, a ++ t) ::ₘ rest) (hlen : a.length = a'.length) :
    ∃ bs', bs'.flatten = writeAt bs.flatten o a' ∧ blocksFrom 0 bs' = (o, a' ++ t) ::ₘ rest := by
  have hmem : (o, a ++ t) ∈ blocksFrom 0 bs := h ▸ mem_cons_self _ _
  have hin : 0 + a'.length ≤ (a ++ t).length := by
    rw [length_append]
    omega
  obtain ⟨bs', rest', hflat, hold, hnew, -⟩ := exists_writeAt_block hmem hin
  rw [h, Multiset.cons_inj_right] at hold
  refine ⟨bs', hflat, ?_⟩
  rw [hnew, ← hold, writeAt_append a t a' hlen]

lemma blocksFrom_concat (bs : List Bytes) (d : Bytes) :
    blocksFrom 0 (bs ++ [d]) = (bs.flatten.length, d) ::ₘ blocksFrom 0 bs := by
  rw [blocksFrom_append, Nat.zero_add, blocksFrom, blocksFrom, add_cons, add_zero]

/-! ## Cells of several files -/

/-- A block of a file at its offset, or the end of a file at its offset. -/
inductive Cell (F : Type)
  | block (fd : F) (offset : ℕ) (bs : Bytes)
  | eof (fd : F) (offset : ℕ)
  deriving DecidableEq

def fileCells {F : Type} (fd : F) (bs : List Bytes) : Multiset (Cell F) :=
  .eof fd bs.flatten.length ::ₘ (blocksFrom 0 bs).map fun x => .block fd x.1 x.2

section Cells

variable {F : Type} {fd gd : F} {bs : List Bytes} {o n : ℕ} {b : Bytes}

@[simp] lemma block_mem_fileCells :
    .block fd o b ∈ fileCells gd bs ↔ fd = gd ∧ (o, b) ∈ blocksFrom 0 bs := by
  rw [fileCells, Multiset.mem_cons, Multiset.mem_map]
  constructor
  · rintro (h | ⟨⟨x, y⟩, hx, h⟩)
    · cases h
    · cases h
      exact ⟨rfl, hx⟩
  · rintro ⟨rfl, h⟩
    exact .inr ⟨(o, b), h, rfl⟩

@[simp] lemma eof_mem_fileCells : .eof fd n ∈ fileCells gd bs ↔ fd = gd ∧
    n = bs.flatten.length := by
  rw [fileCells, Multiset.mem_cons, Multiset.mem_map]
  constructor
  · rintro (h | ⟨x, -, h⟩)
    · cases h
      exact ⟨rfl, rfl⟩
    · cases h
  · rintro ⟨rfl, rfl⟩
    exact .inl rfl

def allCells [Fintype F] (blocks : F → List Bytes) : Multiset (Cell F) :=
  ∑ fd, fileCells fd (blocks fd)

variable [Fintype F] {blocks : F → List Bytes}

@[simp] lemma block_mem_allCells :
    .block fd o b ∈ allCells blocks ↔ (o, b) ∈ blocksFrom 0 (blocks fd) := by
  simp [allCells, mem_sum]

@[simp] lemma eof_mem_allCells : .eof fd n ∈ allCells blocks ↔ n = (blocks fd).flatten.length := by
  simp [allCells, mem_sum]

lemma count_eof_allCells [DecidableEq F] : (allCells blocks).count (.eof fd n) ≤ 1 := by
  have hothers : ∑ gd ∈ univ.erase fd, (fileCells gd (blocks gd)).count (.eof fd n) = 0 :=
    sum_eq_zero fun gd hgd => count_eq_zero.mpr fun hmem =>
      ne_of_mem_erase hgd (eof_mem_fileCells.mp hmem).1.symm
  have hblocks : ((blocksFrom 0 (blocks fd)).map fun x => Cell.block fd x.1 x.2).count
      (.eof fd n) = 0 :=
    count_eq_zero.mpr (by simp)
  rw [allCells, count_sum', ← add_sum_erase _ _ (mem_univ fd), hothers,
    fileCells, Multiset.count_cons, hblocks]
  split_ifs <;> omega

def blockOf [DecidableEq F] (fd : F) : Cell F → Multiset (ℕ × Bytes)
  | .block gd o b => if gd = fd then {(o, b)} else 0
  | .eof _ _ => 0

def blocksOf [DecidableEq F] (fd : F) : Multiset (Cell F) →+ Multiset (ℕ × Bytes) :=
  sumAddMonoidHom.comp (mapAddMonoidHom (blockOf fd))

omit [Fintype F] in
lemma blocksOf_cons [DecidableEq F] (fd : F) (x : Cell F) (cs : Multiset (Cell F)) :
    blocksOf fd (x ::ₘ cs) = blockOf fd x + blocksOf fd cs := by
  simp [blocksOf]

omit [Fintype F] in
lemma blocksOf_singleton [DecidableEq F] (fd : F) (x : Cell F) :
    blocksOf fd {x} = blockOf fd x := by
  simp [blocksOf]

omit [Fintype F] in
lemma blocksOf_map [DecidableEq F] {A : Type} (fd : F) (g : A → Cell F) (as : Multiset A) :
    blocksOf fd (as.map g) = (as.map fun a => blockOf fd (g a)).sum := by
  simp [blocksOf]

omit [Fintype F] in
lemma blocksOf_le [DecidableEq F] (fd : F) {cs ds : Multiset (Cell F)} (h : cs ≤ ds) :
    blocksOf fd cs ≤ blocksOf fd ds := by
  obtain ⟨es, rfl⟩ := Multiset.le_iff_exists_add.mp h
  rw [map_add]
  exact Multiset.le_add_right _ _

omit [Fintype F] in
lemma mem_blocksOf [DecidableEq F] {cs : Multiset (Cell F)} (h : .block fd o b ∈ cs) :
    (o, b) ∈ blocksOf fd cs := by
  obtain ⟨ds, rfl⟩ := exists_cons_of_mem h
  rw [blocksOf_cons, mem_add]
  exact .inl (by simp [blockOf])

lemma blocksOf_allCells [DecidableEq F] (fd : F) :
    blocksOf fd (allCells blocks) = blocksFrom 0 (blocks fd) := by
  have hfile : ∀ gd, blocksOf fd (fileCells gd (blocks gd)) =
      if gd = fd then blocksFrom 0 (blocks gd) else 0 := by
    intro gd
    rw [fileCells, blocksOf_cons, blocksOf_map]
    by_cases h : gd = fd
    · simp [blockOf, h]
    · simp [blockOf, h]
  rw [allCells, map_sum, sum_congr rfl fun gd _ => hfile gd]
  simp

lemma allCells_update [DecidableEq F] (blocks : F → List Bytes) (fd : F) (bs : List Bytes) :
    ∃ others, allCells blocks = fileCells fd (blocks fd) + others ∧
      allCells (update blocks fd bs) = fileCells fd bs + others := by
  refine ⟨∑ g ∈ univ.erase fd, fileCells g (blocks g), ?_, ?_⟩
  · exact (add_sum_erase _ _ (mem_univ fd)).symm
  · rw [allCells, ← add_sum_erase _ _ (mem_univ fd), Function.update_self]
    refine congrArg _ (sum_congr rfl fun g hg => ?_)
    rw [Function.update_of_ne (ne_of_mem_erase hg)]

lemma exists_allCells_write [DecidableEq F] (h : (o, b) ∈ blocksFrom 0 (blocks fd)) {i : ℕ}
    {d : Bytes} (hin : i + d.length ≤ b.length) :
    ∃ bs rest, bs.flatten = writeAt (blocks fd).flatten (o + i) d ∧
      (∀ c ∈ bs, c ∈ blocks fd ∨ c = writeAt b i d) ∧
      bs.flatten.length = (blocks fd).flatten.length ∧
      allCells blocks = .block fd o b ::ₘ rest ∧
      allCells (update blocks fd bs) = .block fd o (writeAt b i d) ::ₘ rest := by
  obtain ⟨bs, rest, hflat, hold, hnew, hmem⟩ := exists_writeAt_block h hin
  obtain ⟨others, hall, hall'⟩ := allCells_update blocks fd bs
  have hfile : o + i + d.length ≤ (blocks fd).flatten.length := by
    have hle := add_length_le_of_mem h
    omega
  have hlen : bs.flatten.length = (blocks fd).flatten.length := by rw [hflat, length_writeAt hfile]
  refine ⟨bs, .eof fd (blocks fd).flatten.length ::ₘ rest.map (fun x => .block fd x.1 x.2) + others,
    hflat, hmem, hlen, ?_, ?_⟩
  · rw [hall, fileCells, hold, Multiset.map_cons, Multiset.cons_swap, cons_add]
  · rw [hall', fileCells, hnew, hlen, Multiset.map_cons, Multiset.cons_swap, cons_add]

lemma exists_allCells_append [DecidableEq F] (blocks : F → List Bytes) (fd : F) (d : Bytes) :
    ∃ rest, allCells blocks = .eof fd (blocks fd).flatten.length ::ₘ rest ∧
      allCells (update blocks fd (blocks fd ++ [d])) =
        .eof fd ((blocks fd).flatten.length + d.length) ::ₘ
          .block fd (blocks fd).flatten.length d ::ₘ rest := by
  obtain ⟨others, hall, hall'⟩ := allCells_update blocks fd (blocks fd ++ [d])
  refine ⟨(blocksFrom 0 (blocks fd)).map (fun x => .block fd x.1 x.2) + others, ?_, ?_⟩
  · rw [hall, fileCells, cons_add]
  · rw [hall', fileCells, blocksFrom_concat, Multiset.map_cons, flatten_append,
      length_append, flatten_singleton, cons_add, cons_add]

end Cells

end UnixPrograms
