import UnixPrograms.Db.Calls
import UnixPrograms.Lib.Adequacy
import Mathlib.Algebra.BigOperators.Fin

/-!
# The state of a database between calls

How a new database is divided into what the locks protect, and the map from keys to data that a
division stands for.  A call changes one chain, and the map as `specStep` says.
-/

namespace UnixPrograms.Db

open Function List Prog World

def mapOf (cur : Res → List Rec) (key : Bytes) : Option Bytes :=
  lookup (cur (.inl (chainOf key))) key

variable {o : Op} {m : Bytes → Option Bytes} {K : Bytes → Prop}

lemma specStep_fst_congr {m' : Bytes → Option Bytes} (h : m o.key = m' o.key) :
    (specStep m o).1 = (specStep m' o).1 := by
  cases o <;> simp only [Op.key] at h <;> simp only [specStep, h] <;> split_ifs <;> rfl

lemma specStep_snd_congr {m' : Bytes → Option Bytes} (h : m o.key = m' o.key) :
    (specStep m o).2 o.key = (specStep m' o).2 o.key := by
  cases o <;> simp only [Op.key] at h ⊢ <;> simp only [specStep, h] <;> split_ifs <;>
    simp only [update_self, h]

lemma specStep_snd_of_ne {key : Bytes} (h : key ≠ o.key) : (specStep m o).2 key = m key := by
  cases o <;> simp only [Op.key] at h <;> simp only [specStep] <;> split_ifs <;>
    first | rfl | exact update_of_ne h ..

lemma specStep_mapOf {a : Val × DB} {d : Option (Res × List Rec × List Rec)}
    {cur cur' : Res → List Rec} (hret : Returned K o a d) (hch : Changes (protocol K) d cur cur') :
    specStep (mapOf cur) o = (a.1, mapOf cur') := by
  obtain ⟨-, hret⟩ := hret
  cases d with
  | none =>
    have hmap : mapOf cur' = mapOf cur := funext fun key => by
      rw [mapOf, hch (.inl (chainOf key)) rfl, mapOf]
    rw [hret, hmap]
  | some x =>
    obtain ⟨r, es, es'⟩ := x
    obtain ⟨rfl, -, hdo⟩ := hret
    obtain ⟨hold, hnew⟩ := hch
    obtain rfl : es = cur (.inl (chainOf o.key)) := hold rfl
    have hkey : mapOf cur o.key = lookup (cur (.inl (chainOf o.key))) o.key := rfl
    refine Prod.ext ((specStep_fst_congr hkey).trans hdo.val.symm) (funext fun key => ?_)
    have hcur := hnew (.inl (chainOf key)) rfl
    change (specStep (mapOf cur) o).2 key = lookup (cur' (.inl (chainOf key))) key
    rw [hcur]
    by_cases hown : key = o.key
    · subst hown
      rw [update_self, hdo.lookup]
      exact specStep_snd_congr hkey
    rw [specStep_snd_of_ne hown]
    change lookup (cur (.inl (chainOf key))) key = _
    by_cases hchain : chainOf key = chainOf o.key
    · rw [hchain, update_self, hdo.lookup, specStep_snd_of_ne hown]
    · rw [update_of_ne fun h => hchain (Sum.inl.inj h)]

/-! ## A new database -/

def createdDivision {ι : Type} (pos : ι → DbFile → ℕ) : Division ι DbFile Res (List Rec) where
  blocks
    | .idx => List.replicate (nhashDef + 1) (ptrField 0) ++ [[newline]]
    | .dat => []
  pool
    | .inl c => chainCells c []
    | .inr .free => cells freeOff [] []
    | .inr .idxTail => {.eof .idx recOff}
    | .inr .datTail => {.eof .dat 0}
  cur _ := []
  leak := {.block .idx ((nhashDef + 1) * ptrSz) [newline]}
  loc p := .empty (pos p)

lemma map_blocksFrom_replicate {β : Type} (g : ℕ × Bytes → β) (base n : ℕ) (b : Bytes) :
    (blocksFrom base (List.replicate n b)).map g =
      ∑ i ∈ Finset.range n, {g (base + i * b.length, b)} := by
  induction n with
  | zero => rfl
  | succ n ih =>
    have hlen : (List.replicate n b).flatten.length = n * b.length := by
      rw [length_flatten, map_replicate, sum_replicate, smul_eq_mul]
    rw [replicate_succ', blocksFrom_append, Multiset.map_add, ih, Finset.sum_range_succ, hlen]
    rfl

lemma flatten_created : (List.replicate (nhashDef + 1) (ptrField 0) ++ [[newline]]).flatten =
    emptyTable := by
  rw [flatten_append, emptyTable]
  rfl

lemma length_emptyTable : emptyTable.length = recOff := by
  rw [← flatten_created, flatten_append, length_append, length_flatten,
    map_replicate, sum_replicate]
  rfl

def nullCell (i : ℕ) : Cell DbFile := .block .idx (i * ptrSz) (ptrField 0)

lemma chainCells_nil (c : Fin nhashDef) : chainCells c [] = {nullCell (c + 1)} := by
  have hoff : chainOff c = (c + 1) * ptrSz := (Nat.succ_mul c ptrSz).symm
  rw [chainCells, hoff, cells, body, headOff, append_nil]
  rfl

lemma map_blocksFrom_table :
    ((blocksFrom 0 (List.replicate (nhashDef + 1) (ptrField 0))).map fun x =>
        Cell.block .idx x.1 x.2) =
      ∑ c : Fin nhashDef, chainCells c [] + cells freeOff [] [] := by
  have hptr : (ptrField 0).length = ptrSz := length_ptrField (by decide)
  calc _ = ∑ i ∈ Finset.range (nhashDef + 1), {nullCell i} := by
        rw [map_blocksFrom_replicate, hptr]
        simp only [Nat.zero_add, nullCell]
    _ = ∑ i ∈ Finset.range nhashDef, {nullCell (i + 1)} + {nullCell 0} := Finset.sum_range_succ' ..
    _ = ∑ c : Fin nhashDef, {nullCell (c + 1)} + {nullCell 0} := by
        rw [Fin.sum_univ_eq_sum_range fun i => ({nullCell (i + 1)} : Multiset (Cell DbFile))]
    _ = _ := by
        simp only [chainCells_nil]
        rfl

lemma sum_dbFile {M : Type} [AddCommMonoid M] (f : DbFile → M) : ∑ fd, f fd = f .idx + f .dat :=
  Finset.sum_pair (by decide)

lemma sum_lock {M : Type} [AddCommMonoid M] (f : Lock → M) :
    ∑ l, f l = f .free + (f .idxTail + f .datTail) := by
  change ∑ l ∈ {Lock.free, Lock.idxTail, Lock.datTail}, f l = _
  rw [Finset.sum_insert (by decide), Finset.sum_pair (by decide)]

lemma total_created {ι : Type} [Fintype ι] (pos : ι → DbFile → ℕ) :
    allCells (createdDivision pos).blocks = (createdDivision pos).total := by
  have hlen : (List.replicate (nhashDef + 1) (ptrField 0)).flatten.length =
      (nhashDef + 1) * ptrSz := by
    rw [length_flatten, map_replicate, sum_replicate, length_ptrField (by decide), smul_eq_mul]
  have hidx : fileCells DbFile.idx ((createdDivision pos).blocks .idx) =
      .eof .idx recOff ::ₘ (∑ c : Fin nhashDef, chainCells c [] + cells freeOff [] [] +
        {.block .idx ((nhashDef + 1) * ptrSz) [newline]}) := by
    have hend : ((createdDivision pos).blocks .idx).flatten.length = recOff := by
      change (List.replicate (nhashDef + 1) (ptrField 0) ++ [[newline]]).flatten.length = _
      rw [flatten_created, length_emptyTable]
    rw [fileCells, hend]
    refine congrArg _ ?_
    change (blocksFrom 0 (List.replicate (nhashDef + 1) (ptrField 0) ++ [[newline]])).map _ = _
    rw [blocksFrom_append, Multiset.map_add, map_blocksFrom_table, hlen, Nat.zero_add]
    rfl
  have hown : ∑ p : ι, ((createdDivision pos).loc p).own = 0 := Finset.sum_eq_zero fun p _ => rfl
  have hdat : fileCells DbFile.dat ((createdDivision pos).blocks .dat) = {.eof .dat 0} := rfl
  have hpool : ∑ r, (createdDivision pos).pool r = ∑ c : Fin nhashDef, chainCells c [] +
      (cells freeOff [] [] + ({.eof .idx recOff} + {.eof .dat 0})) := by
    rw [Fintype.sum_sum_type, sum_lock]
    rfl
  have hleak : (createdDivision pos).leak = {.block .idx ((nhashDef + 1) * ptrSz) [newline]} := rfl
  rw [allCells, sum_dbFile, hidx, hdat, Division.total, hown, hpool, hleak,
    ← Multiset.singleton_add]
  abel

lemma chain_nil (K : Bytes → Prop) (c : ℕ) : Chain K c [] := ⟨nofun, nofun, nofun, nodup_nil⟩

lemma sound_created {ι : Type} [Fintype ι] [DecidableEq ι] (K : Bytes → Prop) {w : World ι DbFile}
    (hidx : w.file .idx = emptyTable) (hdat : w.file .dat = [])
    (hlock : ∀ p fd b, w.lock p fd b = none) : Sound (protocol K) w (createdDivision w.pos) where
  content fd := by
    cases fd with
    | idx => exact hidx.trans flatten_created.symm
    | dat => exact hdat
  nonempty fd b hb := by
    cases fd with
    | idx =>
      rcases mem_append.mp hb with hb | hb
      · rw [eq_of_mem_replicate hb, ← length_pos_iff_ne_nil, length_ptrField (by decide)]
        decide
      · rw [mem_singleton.mp hb]
        exact cons_ne_nil _ _
    | dat => cases hb
  total := total_created w.pos
  pos _ := rfl
  locks p fd b m := by
    rw [hlock]
    constructor
    · nofun
    · rintro ⟨r, g, hr, -⟩
      cases hr
  keeps p := ⟨nofun, nofun, fun _ => rfl, nofun, nofun, fun _ => rfl⟩
  free r _ := by
    match r with
    | .inl c => exact ⟨rfl, chain_nil K c⟩
    | .inr .free => exact ⟨rfl, nofun, nofun⟩
    | .inr .idxTail => exact ⟨recOff, le_rfl, rfl⟩
    | .inr .datTail => exact ⟨0, rfl⟩
  excl p q r g _ hr := by cases hr

/-! ## Opening a database -/

def openedDB : DB := { freshDB with idxoff := recOff }

lemma opened_openedDB : Opened openedDB := ⟨rfl, rfl⟩

lemma exec_dbOpen_create {ι : Type} [DecidableEq ι] {p : ι} {w : World ι DbFile}
    (hidx : w.file .idx = []) (hpos : w.pos p .idx = 0) (hlock : ∀ q fd b, w.lock q fd b = none) :
    ∃ w', (dbOpen true).exec (perform p) 5 w = some (.ok openedDB, w') ∧
      w'.file .idx = emptyTable ∧ w'.file .dat = w.file .dat ∧ ∀ q fd b, w'.lock q fd b = none := by
  have hwrite : writeAt [] (w.pos p .idx) emptyTable = emptyTable := by
    rw [hpos]
    exact writeAt_length [] emptyTable
  simp only [dbOpen, dbRewind, writewLock, unLock, fstat, write, lseek, ↓reduceIte, bind_eq,
    perform_bind, Prog.exec, World.perform, World.setLock, hidx, length_nil]
  rw [require_bind_of_true _ trivial, hwrite]
  refine ⟨_, rfl, ?_, ?_, fun q fd b => ?_⟩
  · rw [World.file_perform_lseek]
    simp [World.perform, World.setLock]
  · rw [World.file_perform_lseek]
    simp [World.perform, setLock]
  · have hin : InRange 0 0 b := ⟨Nat.zero_le b, .inl rfl⟩
    rw [lock_perform_lseek]
    by_cases hq : q = p
    · subst hq
      cases fd <;> simp [World.perform, setLock, seek, hin, hlock]
    · simp [World.perform, setLock, seek, hq, hlock]

lemma exec_dbOpen {ι : Type} [DecidableEq ι] (p : ι) (w : World ι DbFile) :
    (dbOpen false).exec (perform p) 1 w = some (.ok openedDB, w.seek p .idx recOff) := rfl

/-! ## A call between other calls -/

def tableEnd : Cell DbFile := .block .idx ((nhashDef + 1) * ptrSz) [newline]

/-- The files are divided up, and no process holds a lock. -/
structure Quiet {ι : Type} [Fintype ι] (K : Bytes → Prop) (w : World ι DbFile)
    (G : Division ι DbFile Res (List Rec)) : Prop where
  sound : Sound (protocol K) w G
  idle : ∀ p r, (G.loc p).held r = none

lemma Quiet.inv {ι : Type} [Fintype ι] {w : World ι DbFile} {G : Division ι DbFile Res (List Rec)}
    (hG : Quiet K w G) (r : Res) : (protocol K).inv r (G.cur r) (G.pool r) :=
  hG.sound.free r fun p g => by rw [hG.idle p r]; nofun

/-- A database on which no call is being made, and nothing of which is lost. -/
structure AtRest {ι : Type} [Fintype ι] (K : Bytes → Prop) (w : World ι DbFile)
    (G : Division ι DbFile Res (List Rec)) : Prop extends Quiet K w G where
  leak : G.leak = {tableEnd}

lemma atRest_created {ι : Type} [Fintype ι] [DecidableEq ι] (K : Bytes → Prop) {w : World ι DbFile}
    (hidx : w.file .idx = emptyTable) (hdat : w.file .dat = [])
    (hlock : ∀ p fd b, w.lock p fd b = none) : AtRest K w (createdDivision w.pos) :=
  ⟨⟨sound_created K hidx hdat hlock, fun _ _ => rfl⟩, rfl⟩

section Alone

variable {ι : Type} [Fintype ι] [DecidableEq ι] {K : Bytes → Prop} {w : World ι DbFile}
  {G : Division ι DbFile Res (List Rec)} {p : ι} {o : Op} {db : DB}

lemma Quiet.exec_library (hG : Quiet K w G) (hdb : Opened db) (hK : K o.key.val) :
    ∃ n out w' G', (library o db).exec (perform p) n w = some (out, w') ∧
      Sound (protocol K) w' G' ∧ (∀ q, q ≠ p → G'.loc q = G.loc q) ∧ G'.leak = G.leak ∧
      EndsIn (protocol K) (Returned K o) (Aborted K o) p G G' out := by
  have hloc : G.loc p = .empty (G.loc p).pos := (hG.sound.keeps p).eq_empty (hG.idle p)
  exact (safe_library hdb hK).exec hG.sound hloc fun q _ => hG.idle q

lemma Quiet.next {w' : World ι DbFile} {G' : Division ι DbFile Res (List Rec)} (hG : Quiet K w G)
    (hS : Sound (protocol K) w' G') (hothers : ∀ q, q ≠ p → G'.loc q = G.loc q)
    (hidle : ∀ r, (G'.loc p).held r = none) : Quiet K w' G' := by
  refine ⟨hS, fun q r => ?_⟩
  by_cases hq : q = p
  · subst hq
    exact hidle r
  · rw [hothers q hq]
    exact hG.idle q r

lemma AtRest.library (hG : AtRest K w G) (hdb : Opened db) (hK : K o.key.val) :
    ∃ n out w', (library o db).exec (perform p) n w = some (out, w') ∧
      match out with
      | .ok a => Opened a.2 ∧ ∃ G', AtRest K w' G' ∧ specStep (mapOf G.cur) o = (a.1, mapOf G'.cur)
      | .error e => ∃ h, Aborted K o e h := by
  obtain ⟨n, out, w', G', hexec, hS, hloc, hleak, hend⟩ := hG.exec_library hdb hK
  refine ⟨n, out, w', hexec, ?_⟩
  cases out with
  | error e => exact ⟨_, hend.1⟩
  | ok a =>
    obtain ⟨d, hret, hidle, hch⟩ := hend
    exact ⟨hret.1, G', ⟨hG.toQuiet.next hS hloc hidle, hleak.trans hG.leak⟩,
      specStep_mapOf hret hch⟩

/-- A call that returns has read the chain of its key, unless it does the same with every map. -/
lemma Quiet.search_of_exec (hG : Quiet K w G) (hdb : Opened db) (hK : K o.key.val) {n : ℕ}
    {a : Val × DB} {w' : World ι DbFile}
    (hexec : (Db.library o db).exec (perform p) n w = some (.ok a, w')) :
    (∀ m, specStep m o = (a.1, m)) ∨
      search (G.cur (.inl (chainOf o.key))) o.key = .ok (mapOf G.cur o.key) := by
  obtain ⟨m, out, w₁, G₁, hexec₁, -, -, -, hend⟩ := hG.exec_library (p := p) hdb hK
  cases exec_unique hexec₁ hexec
  obtain ⟨d, ⟨-, hret⟩, -, hch⟩ := hend
  cases d with
  | none => exact .inl hret
  | some x =>
    obtain ⟨r, es, es'⟩ := x
    obtain ⟨rfl, -, hdo⟩ := hret
    obtain rfl : es = G.cur (.inl (chainOf o.key)) := hch.1 rfl
    exact .inr hdo.search

end Alone

lemma Aborted.isLimit {e : DbError} {h : Holding DbFile Res (List Rec)}
    (hK : ∀ key, K key → sep ∉ key) (hab : Aborted K o e h) : e.IsLimit := by
  cases hab with
  | datlen _ => trivial
  | unreadable hes hsearch =>
    rw [search_eq_ok (fun r hr => hK r.key (hes.allowed r hr)) o.key] at hsearch
    cases hsearch
  | limit he => exact he

end UnixPrograms.Db
