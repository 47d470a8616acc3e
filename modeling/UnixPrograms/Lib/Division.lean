import UnixPrograms.Lib.Ownership
import UnixPrograms.Lib.Sums
import Mathlib.Algebra.Order.BigOperators.Group.Finset

/-!
# The cells divided among the processes

Some cells belong to the processes, some lie in the pools of the resources, some nobody will touch
again.  `Sound` says that this is a division, that it fits the lock table, and that a resource
nobody is writing satisfies its invariant; `Sound.change` and `Sound.relock` say which changes keep
this.
-/

namespace UnixPrograms

open Function Finset
open Multiset hiding map_add

structure Division (ι F R γ : Type) where
  blocks : F → List Bytes
  /-- The cells of a resource, as long as no process has them for writing. -/
  pool : R → Multiset (Cell F)
  /-- What the cells of a resource represent, or represented when they were taken for writing. -/
  cur : R → γ
  leak : Multiset (Cell F)
  loc : ι → Holding F R γ

variable {ι F R γ : Type}

/-- The lock table `lk` of one process has the locks in `held` and no others. -/
def LockTable (P : Protocol F R γ) (held : R → Option (LockMode × γ))
    (lk : F → ℕ → Option LockMode) : Prop :=
  ∀ fd b m, lk fd b = some m ↔
    ∃ r g, held r = some (m, g) ∧ P.file r = fd ∧ InRange (P.start r) (P.len r) b

/-- What a process holds agrees with the resources. -/
structure Keeps (pool : R → Multiset (Cell F)) (cur : R → γ) (h : Holding F R γ) : Prop where
  reader : ∀ r g, h.held r = some (.read, g) → g = cur r ∧ h.view = pool r
  writer : ∀ r g, h.held r = some (.write, g) → g = cur r ∧ pool r = 0
  view : (∀ r g, h.held r ≠ some (.read, g)) → h.view = 0
  noted : ∀ x ∈ h.noted, ∃ b, .block x.1 x.2 b ∈ h.own
  atEnd : ∀ fd, h.atEnd fd = true → ∃ n, .eof fd n ∈ h.own
  idle : (∀ r, h.held r = none) → h.own = 0

namespace Division

variable [DecidableEq ι] [DecidableEq R]

def setLoc (G : Division ι F R γ) (p : ι) (h : Holding F R γ) : Division ι F R γ :=
  { G with loc := update G.loc p h }

def setRes (G : Division ι F R γ) (r : R) (cs : Multiset (Cell F)) (g : γ) : Division ι F R γ :=
  { G with pool := update G.pool r cs, cur := update G.cur r g }

omit [DecidableEq R] in
@[simp] lemma loc_setLoc_self (G : Division ι F R γ) (p : ι) (h : Holding F R γ) :
    (G.setLoc p h).loc p = h :=
  update_self ..

variable {p : ι}

omit [DecidableEq R] in
lemma loc_setLoc_of_ne (G : Division ι F R γ) {q : ι} (hq : q ≠ p) (h : Holding F R γ) :
    (G.setLoc p h).loc q = G.loc q :=
  update_of_ne hq ..

def total [Fintype ι] [Fintype R] (G : Division ι F R γ) : Multiset (Cell F) :=
  ∑ p, (G.loc p).own + ∑ r, G.pool r + G.leak

variable [Fintype ι] [Fintype R]

omit [DecidableEq R] in
lemma total_setLoc (G : Division ι F R γ) (p : ι) (h : Holding F R γ) :
    (G.setLoc p h).total + (G.loc p).own = G.total + h.own := by
  have hsum := sum_update_add Holding.own G.loc p h
  simp only [total, setLoc]
  calc _ = (∑ q, (update G.loc p h q).own + (G.loc p).own) + ∑ r, G.pool r + G.leak := by abel
    _ = _ := by rw [hsum]; abel

lemma total_transfer (G : Division ι F R γ) {h : Holding F R γ} {r : R}
    {cs leak : Multiset (Cell F)} (g : γ)
    (hcells : cs + h.own + leak = G.pool r + (G.loc p).own + G.leak) :
    total { (G.setLoc p h).setRes r cs g with leak := leak } = G.total := by
  have hloc := sum_update_add Holding.own G.loc p h
  have hres := sum_update_add id G.pool r cs
  simp only [id] at hres
  refine add_right_cancel (b := (G.loc p).own + G.pool r) ?_
  simp only [total, setRes, setLoc]
  calc _ = (∑ q, (update G.loc p h q).own + (G.loc p).own) +
        (∑ r', update G.pool r cs r' + G.pool r) + leak := by abel
    _ = ∑ q, (G.loc q).own + ∑ r', G.pool r' + (cs + h.own + leak) := by rw [hloc, hres]; abel
    _ = _ := by rw [hcells]; abel

omit [DecidableEq ι] [DecidableEq R] in
lemma own_le_total (G : Division ι F R γ) (p : ι) : (G.loc p).own ≤ G.total :=
  calc (G.loc p).own ≤ ∑ q, (G.loc q).own :=
        single_le_sum (f := fun q => (G.loc q).own) (fun _ _ => zero_le _)
          (mem_univ p)
    _ ≤ G.total := by
      rw [total, add_assoc]
      exact le_add_right _ _

omit [DecidableEq ι] [DecidableEq R] in
lemma pool_le_total (G : Division ι F R γ) (r : R) : G.pool r ≤ G.total :=
  calc G.pool r ≤ ∑ r', G.pool r' :=
        single_le_sum (f := G.pool) (fun _ _ => zero_le _) (mem_univ r)
    _ ≤ G.total := by
      rw [total, add_comm (∑ q, _), add_assoc]
      exact le_add_right _ _

omit [DecidableEq R] in
lemma own_add_own_le_total (G : Division ι F R γ) {q : ι} (hpq : p ≠ q) :
    (G.loc p).own + (G.loc q).own ≤ G.total := by
  have hq : (G.loc q).own ≤ ∑ q' ∈ univ.erase p, (G.loc q').own :=
    single_le_sum (f := fun q' => (G.loc q').own) (fun _ _ => zero_le _)
      (mem_erase.mpr ⟨hpq.symm, mem_univ q⟩)
  calc (G.loc p).own + (G.loc q).own
      ≤ (G.loc p).own + ∑ q' ∈ univ.erase p, (G.loc q').own := add_le_add_right hq _
    _ = ∑ q', (G.loc q').own :=
      add_sum_erase _ (fun q' => (G.loc q').own) (mem_univ p)
    _ ≤ G.total := by
      rw [total, add_assoc]
      exact le_add_right _ _

end Division

/-! ## Lock tables and holdings -/

lemma LockTable.update [DecidableEq F] [DecidableEq R] {P : Protocol F R γ}
    {held : R → Option (LockMode × γ)} {lk : F → ℕ → Option LockMode} (hT : LockTable P held lk)
    {r : R} {fd : F} {start len : ℕ} (hat : P.At r fd start len) (v : Option (LockMode × γ)) :
    LockTable P (Function.update held r v)
      (Function.update lk fd fun b => if InRange start len b then v.map Prod.fst else lk fd b) := by
  obtain ⟨rfl, rfl, rfl⟩ := hat
  intro fd b m
  by_cases hin : fd = P.file r ∧ InRange (P.start r) (P.len r) b
  · obtain ⟨rfl, hb⟩ := hin
    rw [update_self, if_pos hb, Option.map_eq_some_iff]
    constructor
    · rintro ⟨⟨m', g⟩, hv, rfl⟩
      exact ⟨r, g, by rw [update_self, hv], rfl, hb⟩
    · rintro ⟨r', g, hr', hfile, hb'⟩
      obtain rfl := P.apart r' r b hfile hb' hb
      rw [update_self] at hr'
      exact ⟨(m, g), hr', rfl⟩
  · have hlk : Function.update lk (P.file r)
        (fun b => if InRange (P.start r) (P.len r) b then v.map Prod.fst else lk (P.file r) b) fd b
          = lk fd b := by
      by_cases hfd : fd = P.file r
      · subst hfd
        rw [update_self, if_neg fun hb => hin ⟨rfl, hb⟩]
      · rw [update_of_ne hfd]
    rw [hlk, hT fd b m]
    refine exists_congr fun r' => exists_congr fun g => and_congr_left fun hr' => ?_
    rw [update_of_ne]
    rintro rfl
    exact hin ⟨hr'.1.symm, hr'.2⟩

variable {pool : R → Multiset (Cell F)} {h : Holding F R γ} {cur : R → γ}

lemma Keeps.congr {pool' : R → Multiset (Cell F)} {cur' : R → γ} (hK : Keeps pool cur h)
    (hsame : ∀ r, h.held r ≠ none → pool' r = pool r ∧ cur' r = cur r) : Keeps pool' cur' h where
  reader r g hr := by
    obtain ⟨hp, hc⟩ := hsame r (by simp [hr])
    rw [hp, hc]
    exact hK.reader r g hr
  writer r g hr := by
    obtain ⟨hp, hc⟩ := hsame r (by simp [hr])
    rw [hp, hc]
    exact hK.writer r g hr
  view := hK.view
  noted := hK.noted
  atEnd := hK.atEnd
  idle := hK.idle

lemma Keeps.relock [DecidableEq R] {h' : Holding F R γ} {r : R} {v : Option (LockMode × γ)}
    {cs : Multiset (Cell F)} {g : γ} (hK : Keeps pool cur h) (hheld : h'.held = update h.held r v)
    (hread : ∀ g', v = some (.read, g') → g' = g ∧ h'.view = cs)
    (hwrite : ∀ g', v = some (.write, g') → g' = g ∧ cs = 0)
    (hothers : ∀ r' g, r' ≠ r → h.held r' = some (.read, g) → h'.view = h.view)
    (hview : (∀ r g, h'.held r ≠ some (.read, g)) → h'.view = 0)
    (hnoted : ∀ x ∈ h'.noted, ∃ b, .block x.1 x.2 b ∈ h'.own)
    (hend : ∀ fd, h'.atEnd fd = true → ∃ n, .eof fd n ∈ h'.own)
    (hidle : (∀ r, h'.held r = none) → h'.own = 0) :
    Keeps (update pool r cs) (update cur r g) h' := by
  refine ⟨fun r' g' hr' => ?_, fun r' g' hr' => ?_, hview, hnoted, hend, hidle⟩
  · by_cases hrr : r' = r
    · subst hrr
      rw [hheld, update_self] at hr'
      rw [update_self, update_self]
      exact hread g' hr'
    · rw [hheld, update_of_ne hrr] at hr'
      rw [update_of_ne hrr, update_of_ne hrr, hothers r' g' hrr hr']
      exact hK.reader r' g' hr'
  · by_cases hrr : r' = r
    · subst hrr
      rw [hheld, update_self] at hr'
      rw [update_self, update_self]
      exact hwrite g' hr'
    · rw [hheld, update_of_ne hrr] at hr'
      rw [update_of_ne hrr, update_of_ne hrr]
      exact hK.writer r' g' hr'

lemma Keeps.eq_cur (hK : Keeps pool cur h) {r : R} {m : LockMode} {g : γ}
    (hr : h.held r = some (m, g)) : g = cur r := by
  cases m with
  | read => exact (hK.reader r g hr).1
  | write => exact (hK.writer r g hr).1

lemma Keeps.eq_empty (hK : Keeps pool cur h) (hidle : ∀ r, h.held r = none) : h = .empty h.pos := by
  have hown : h.own = 0 := hK.idle hidle
  have hview : h.view = 0 := hK.view fun r g => by simp [hidle r]
  have hheld : h.held = fun _ => none := funext hidle
  have hend : h.atEnd = fun _ => false := by
    funext fd
    by_contra hfd
    obtain ⟨n, hn⟩ := hK.atEnd fd (by simpa using hfd)
    exact absurd hn (by simp [hown])
  have hnoted : h.noted = [] := by
    refine List.eq_nil_iff_forall_not_mem.mpr fun x hx => ?_
    obtain ⟨b, hb⟩ := hK.noted x hx
    exact absurd hb (by simp [hown])
  obtain ⟨own, view, pos, held, atEnd, noted⟩ := h
  simp only at hown hview hheld hend hnoted
  subst hown hview hheld hend hnoted
  rfl

/-! ## The invariant of all processes together -/

/-- The contents of the files are divided up among processes and resources. -/
structure Sound [Fintype ι] [Fintype F] [Fintype R] (P : Protocol F R γ) (w : World ι F)
    (G : Division ι F R γ) : Prop where
  content : ∀ fd, w.file fd = (G.blocks fd).flatten
  nonempty : ∀ fd, ∀ b ∈ G.blocks fd, b ≠ []
  total : allCells G.blocks = G.total
  pos : ∀ p, w.pos p = (G.loc p).pos
  locks : ∀ p, LockTable P (G.loc p).held (w.lock p)
  keeps : ∀ p, Keeps G.pool G.cur (G.loc p)
  /-- A resource that nobody is writing satisfies its invariant. -/
  free : ∀ r, (∀ p g, (G.loc p).held r ≠ some (.write, g)) → P.inv r (G.cur r) (G.pool r)
  excl : ∀ p q r g, p ≠ q → (G.loc p).held r = some (.write, g) → (G.loc q).held r = none

namespace Sound

variable [Fintype ι] [DecidableEq ι] [Fintype F] [DecidableEq F] [Fintype R] [DecidableEq R]
  {P : Protocol F R γ} {w w' : World ι F} {G : Division ι F R γ} {p : ι} {h : Holding F R γ}

omit [DecidableEq F] [DecidableEq R] in
lemma pos_setLoc (hS : Sound P w G) (hpos : w'.pos = update w.pos p h.pos) (q : ι) :
    w'.pos q = ((G.setLoc p h).loc q).pos := by
  have hold : w.pos = Holding.pos ∘ G.loc := funext hS.pos
  rw [hpos, hold, ← comp_update]
  rfl

omit [DecidableEq F] [DecidableEq R] in
/-- A system call that leaves the locks of `p` and the resources as they are. -/
lemma change (hS : Sound P w G) {blocks : F → List Bytes}
    (hfile : ∀ fd, w'.file fd = (blocks fd).flatten) (hne : ∀ fd, ∀ b ∈ blocks fd, b ≠ [])
    (hcells : allCells blocks + (G.loc p).own = allCells G.blocks + h.own)
    (hpos : w'.pos = update w.pos p h.pos) (hlock : w'.lock = w.lock)
    (hview : h.view = (G.loc p).view) (hheld : h.held = (G.loc p).held)
    (hnoted : ∀ x ∈ h.noted, ∃ b, .block x.1 x.2 b ∈ h.own)
    (hend : ∀ fd, h.atEnd fd = true → ∃ n, .eof fd n ∈ h.own)
    (hidle : (∀ r, h.held r = none) → h.own = 0) :
    Sound P w' { G.setLoc p h with blocks := blocks } := by
  have hloc : ∀ q, ((G.setLoc p h).loc q).held = (G.loc q).held :=
    (forall_update_iff G.loc fun q x => x.held = (G.loc q).held).mpr
      ⟨hheld, fun _ _ => rfl⟩
  have htotal : (G.setLoc p h).total + (G.loc p).own = G.total + h.own := G.total_setLoc p h
  have hK := hS.keeps p
  refine ⟨hfile, hne, ?_, hS.pos_setLoc hpos, fun q => ?_, ?_, fun r hr => ?_, ?_⟩
  · rw [← hS.total, ← hcells] at htotal
    exact (add_right_cancel htotal).symm
  · change LockTable P ((G.setLoc p h).loc q).held _
    rw [hloc, hlock]
    exact hS.locks q
  · exact (forall_update_iff G.loc fun _ => Keeps G.pool G.cur).mpr
      ⟨⟨hheld ▸ hview ▸ hK.reader, hheld ▸ hK.writer, hheld ▸ hview ▸ hK.view, hnoted, hend, hidle⟩,
        fun q _ => hS.keeps q⟩
  · exact hS.free r fun q g => hloc q ▸ hr q g
  · intro q q' r g hne' hq
    change ((G.setLoc p h).loc q').held r = none
    change ((G.setLoc p h).loc q).held r = some (.write, g) at hq
    rw [hloc] at hq ⊢
    exact hS.excl q q' r g hne' hq

omit [DecidableEq F] [DecidableEq R] in
lemma move (hS : Sound P w G) (hfile : w'.file = w.file)
    (hpos : w'.pos = update w.pos p h.pos) (hlock : w'.lock = w.lock)
    (hown : h.own = (G.loc p).own) (hview : h.view = (G.loc p).view)
    (hheld : h.held = (G.loc p).held) (hnoted : ∀ x ∈ h.noted, ∃ b, .block x.1 x.2 b ∈ h.own)
    (hend : ∀ fd, h.atEnd fd = true → ∃ n, .eof fd n ∈ h.own) :
    Sound P w' (G.setLoc p h) :=
  hS.change (fun fd => hfile ▸ hS.content fd) hS.nonempty (by rw [hown]) hpos hlock hview hheld
    hnoted hend (by rw [hheld, hown]; exact (hS.keeps p).idle)

variable {fd : F} {r : R} {cs : Multiset (Cell F)} {g : γ}

section

variable (hS : Sound P w G)
include hS

omit [DecidableEq F] in
/-- A system call by which `p` changes its lock on the resource `r`, and by which cells go from `p`
to the resource or to nobody, or from the resource to `p`. -/
lemma transfer {leak : Multiset (Cell F)} (hfile : w'.file = w.file)
    (hcells : cs + h.own + leak = G.pool r + (G.loc p).own + G.leak)
    (hpos : w'.pos = update w.pos p h.pos) (hlock : LockTable P h.held (w'.lock p))
    (hlocks : ∀ q, q ≠ p → w'.lock q = w.lock q)
    (hheld : ∀ r', r' ≠ r → h.held r' = (G.loc p).held r')
    (hkeep : Keeps (update G.pool r cs) (update G.cur r g) h)
    (hothers : (∀ q, q ≠ p → (G.loc q).held r = none) ∨
      cs = G.pool r ∧ g = G.cur r ∧ (∀ g, h.held r ≠ some (.write, g)) ∧
        ∀ q, q ≠ p → ∀ g, (G.loc q).held r ≠ some (.write, g))
    (hinv : (∀ g, h.held r ≠ some (.write, g)) → P.inv r g cs) :
    Sound P w' { (G.setLoc p h).setRes r cs g with leak := leak } := by
  have hself : update G.loc p h p = h := update_self ..
  have hne : ∀ q, q ≠ p → update G.loc p h q = G.loc q := fun q hq => update_of_ne hq ..
  have hsame : ∀ r', r' ≠ r → ∀ q, (update G.loc p h q).held r' = (G.loc q).held r' :=
    fun r' hrr => (forall_update_iff G.loc fun q x => x.held r' = (G.loc q).held r').mpr
      ⟨hheld r' hrr, fun _ _ => rfl⟩
  refine ⟨fun fd => hfile ▸ hS.content fd, hS.nonempty,
    hS.total.trans (G.total_transfer g hcells).symm, hS.pos_setLoc hpos,
    ?_, ?_, fun r' hr' => ?_, fun q q' r' g' hqq hq => ?_⟩
  · refine (forall_update_iff G.loc fun q x => LockTable P x.held (w'.lock q)).mpr
      ⟨hlock, fun q hq => ?_⟩
    rw [hlocks q hq]
    exact hS.locks q
  · refine (forall_update_iff G.loc fun _ =>
      Keeps (update G.pool r cs) (update G.cur r g)).mpr
      ⟨hkeep, fun q hq => (hS.keeps q).congr fun r' hr' => ?_⟩
    by_cases hrr : r' = r
    · subst hrr
      rcases hothers with hnone | ⟨hcs, hg, -⟩
      · exact absurd (hnone q hq) hr'
      · exact ⟨(update_self ..).trans hcs, (update_self ..).trans hg⟩
    · exact ⟨update_of_ne hrr .., update_of_ne hrr ..⟩
  · by_cases hrr : r' = r
    · subst hrr
      have hfree := hinv fun g hg => hr' p g ((congrArg (·.held r') hself).trans hg)
      simpa only [Division.setRes, update_self] using hfree
    · have hfree := hS.free r' fun q g => hsame r' hrr q ▸ hr' q g
      simpa only [Division.setRes, Division.setLoc, update_of_ne hrr] using hfree
  · change (update G.loc p h q').held r' = none
    change (update G.loc p h q).held r' = some (.write, g') at hq
    by_cases hrr : r' = r
    · subst hrr
      by_cases hqp : q = p
      · subst hqp
        rw [hself] at hq
        rw [hne q' hqq.symm]
        rcases hothers with hnone | ⟨-, -, hv, -⟩
        · exact hnone q' hqq.symm
        · exact absurd hq (hv g')
      · rw [hne q hqp] at hq
        rcases hothers with hnone | ⟨-, -, -, hw⟩
        · rw [hnone q hqp] at hq
          cases hq
        · exact absurd hq (hw q hqp g')
    · rw [hsame r' hrr] at hq ⊢
      exact hS.excl q q' r' g' hqq hq

lemma relock {start len : ℕ} (hat : P.At r fd start len)
    {v : Option (LockMode × γ)} (hkeep : Keeps (update G.pool r cs) (update G.cur r g) h)
    (hcells : cs + h.own = G.pool r + (G.loc p).own) (hpos : h.pos = (G.loc p).pos)
    (hheld : h.held = update (G.loc p).held r v)
    (hothers : (∀ q, q ≠ p → (G.loc q).held r = none) ∨
      cs = G.pool r ∧ g = G.cur r ∧ (∀ g, v ≠ some (.write, g)) ∧
        ∀ q, q ≠ p → ∀ g, (G.loc q).held r ≠ some (.write, g))
    (hinv : (∀ g, v ≠ some (.write, g)) → P.inv r g cs) :
    Sound P (w.setLock p fd start len (v.map Prod.fst)) ((G.setLoc p h).setRes r cs g) := by
  have hv : h.held r = v := (congrFun hheld r).trans (update_self ..)
  rw [← hv] at hothers hinv
  refine hS.transfer rfl (congrArg (· + G.leak) hcells) ?_ ?_ (fun q hq => update_of_ne hq ..)
    (fun r' hrr => (congrFun hheld r').trans (update_of_ne hrr ..)) hkeep hothers hinv
  · rw [hpos, ← hS.pos p, update_eq_self]
    rfl
  · rw [hheld]
    have hT := (hS.locks p).update hat v
    simpa only [World.setLock, update_self] using hT

omit [DecidableEq F] in
/-- A process ends that has no lock but perhaps the one of `r`.  Of what belonged to it, it leaves
`cs` to the resource, and the rest is lost. -/
lemma exit {extra : Multiset (Cell F)} (honly : ∀ r', r' ≠ r → (G.loc p).held r' = none)
    (hcells : cs + extra = G.pool r + (G.loc p).own)
    (hothers : ∀ q, q ≠ p → (G.loc q).held r = none) (hinv : P.inv r g cs) :
    ∃ G', Sound P (w.exit p) G' ∧ (∀ r, (G'.loc p).held r = none) ∧
      (∀ q, q ≠ p → G'.loc q = G.loc q) ∧ G'.cur = update G.cur r g := by
  have hown : cs + (Holding.empty fun _ => 0 : Holding F R γ).own + (extra + G.leak) =
      G.pool r + (G.loc p).own + G.leak := by
    rw [← hcells, ← add_assoc]
    exact congrArg (· + extra + G.leak) (add_zero cs)
  have hlock : LockTable P (Holding.empty fun _ => 0 : Holding F R γ).held ((w.exit p).lock p) := by
    intro fd b m
    have hnone : (w.exit p).lock p fd b = none := by simp [World.exit]
    rw [hnone]
    constructor
    · nofun
    · rintro ⟨r', g', hr', -⟩
      cases hr'
  refine ⟨_, hS.transfer rfl hown rfl hlock (fun q hq => update_of_ne hq ..)
    (fun r' hrr => (honly r' hrr).symm) ⟨nofun, nofun, fun _ => rfl, nofun, nofun, fun _ => rfl⟩
    (.inl hothers) fun _ => hinv, fun r' => ?_, fun q hq => update_of_ne hq .., rfl⟩
  exact congrArg (·.held r') (update_self p _ G.loc)

omit [DecidableEq ι] [DecidableEq F] [DecidableEq R] in
lemma mem_blocks {o : ℕ} {b : Bytes} (hb : .block fd o b ∈ (G.loc p).own + (G.loc p).view) :
    (o, b) ∈ blocksFrom 0 (G.blocks fd) := by
  rw [← block_mem_allCells, hS.total]
  rcases mem_add.mp hb with hb | hb
  · exact mem_of_le (G.own_le_total p) hb
  · by_cases hread : ∃ r g, (G.loc p).held r = some (.read, g)
    · obtain ⟨r, g, hr⟩ := hread
      rw [((hS.keeps p).reader r g hr).2] at hb
      exact mem_of_le (G.pool_le_total r) hb
    · rw [(hS.keeps p).view fun r g hr => hread ⟨r, g, hr⟩] at hb
      exact absurd hb (notMem_zero _)

omit [DecidableEq ι] [DecidableEq R] in
lemma blocksOf_pool_le (fd : F) (r : R) : blocksOf fd (G.pool r) ≤ blocksFrom 0 (G.blocks fd) := by
  rw [← blocksOf_allCells, hS.total]
  exact blocksOf_le fd (G.pool_le_total r)

omit [DecidableEq ι] [DecidableEq F] [DecidableEq R] in
lemma eq_of_eof_mem {n : ℕ} (hn : .eof fd n ∈ (G.loc p).own) :
    n = (G.blocks fd).flatten.length := by
  rw [← eof_mem_allCells, hS.total]
  exact mem_of_le (G.own_le_total p) hn

omit [DecidableEq R] in
lemma not_eof_mem_both {p q : ι} (hpq : p ≠ q) {n m : ℕ} (hp : .eof fd n ∈ (G.loc p).own) :
    .eof fd m ∉ (G.loc q).own := by
  intro hq
  obtain rfl : n = m := (hS.eq_of_eof_mem hp).trans (hS.eq_of_eof_mem hq).symm
  have hle := count_le_of_le (.eof fd n) (hS.total ▸ G.own_add_own_le_total hpq)
  have hone : (allCells G.blocks).count (.eof fd n) ≤ 1 := count_eof_allCells
  rw [count_add] at hle
  have hp' := count_pos.mpr hp
  have hq' := count_pos.mpr hq
  omega

omit [DecidableEq R] in
lemma not_block_mem_both {p q : ι} (hpq : p ≠ q) {o : ℕ} {b b' : Bytes}
    (hp : .block fd o b ∈ (G.loc p).own) : .block fd o b' ∉ (G.loc q).own := by
  intro hq
  have hle := blocksOf_le fd (hS.total ▸ G.own_add_own_le_total hpq)
  rw [map_add, blocksOf_allCells] at hle
  have hnd := nodup_of_le (map_le_map hle)
    (nodup_offsets_blocksFrom (hS.nonempty fd))
  rw [Multiset.map_add, Multiset.nodup_add] at hnd
  exact Multiset.disjoint_left.mp hnd.2.2 (Multiset.mem_map.mpr ⟨(o, b), mem_blocksOf hp, rfl⟩)
    (mem_map.mpr ⟨(o, b'), mem_blocksOf hq, rfl⟩)

end

end Sound

end UnixPrograms
