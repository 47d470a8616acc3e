import UnixPrograms.Db.Layout
import UnixPrograms.Lib.Machines

/-!
# Many processes

The library keeps to the protocol of its locks (`safe_library`), so the results on machines of such
processes apply to any number of them that share a new database.
-/

namespace UnixPrograms.Db

/-- An index record with this key can be read back. -/
def Readback (key : Bytes) : Prop := sep ∉ key

lemma obeys_library : Obeys (protocol Readback) library (fun o => Readback o.key.val) Opened
    DbError.IsLimit (Returned Readback) (Aborted Readback) where
  safe _ _ _ hkey hdb := safe_library hdb hkey
  data _ _ _ hret := hret.1
  error _ _ _ hab := hab.isLimit fun _ hkey => hkey

lemma represents_mapOf : Represents (protocol Readback) (Returned Readback) specStep mapOf where
  step _ _ _ _ _ hret hch := specStep_mapOf hret hch
  same cur cur' hcur := by
    funext key
    rw [mapOf, hcur (.inl (chainOf key)) rfl, mapOf]

/-- Processes that have opened a new database and made no call yet. -/
structure Shared {ι : Type} (s : Machine ι DbFile DbError Op DB Val) : Prop where
  idx : s.world.file .idx = emptyTable
  dat : s.world.file .dat = []
  lock : ∀ p fd b, s.world.lock p fd b = none
  proc : ∀ p, ∃ db, s.proc p = .idle db ∧ Opened db

section Runs

variable {ι : Type} [Fintype ι] [DecidableEq ι] {s₀ s : Machine ι DbFile DbError Op DB Val}
  {evs : List (Event ι DbFile DbError Op Val)} {G : Division ι DbFile Res (List Rec)}

lemma Shared.running (h₀ : Shared s₀) : Running (protocol Readback) (fun o => Readback o.key.val)
    Opened (Returned Readback) (Aborted Readback) s₀ (createdDivision s₀.world.pos) := by
  refine ⟨sound_created Readback h₀.idx h₀.dat h₀.lock, fun p => ?_⟩
  obtain ⟨db, hproc, hdb⟩ := h₀.proc p
  rw [hproc]
  exact ⟨hdb, fun _ => rfl⟩

omit [DecidableEq ι] in
lemma atRest_of_unlocked (hS : Sound (protocol Readback) s.world G) (hleak : G.leak = {tableEnd})
    (hlock : ∀ p fd b, s.world.lock p fd b = none) : AtRest Readback s.world G := by
  refine ⟨⟨hS, fun p r => ?_⟩, hleak⟩
  cases hheld : (G.loc p).held r with
  | none => rfl
  | some x =>
    have hlocked := (hS.locks p _ _ x.1).mpr ⟨r, x.2, hheld, rfl, inRange_start _ _⟩
    rw [hlock] at hlocked
    cases hlocked

end Runs

/-- In every interleaving of processes that share a database, as long as no call ends its process by
a limit of the library: the calls are linearizable; no two calls in progress have taken the same
free record, and no record is appended where another one has been; the processes do not wait for
locks in a circle; and whenever nobody holds a lock, the files are laid out as they should be. -/
theorem shared_database_correct {ι : Type} [Fintype ι] [DecidableEq ι]
    {s₀ s : Machine ι DbFile DbError Op DB Val} {evs : List (Event ι DbFile DbError Op Val)}
    (h₀ : Shared s₀) (hrun : Machine.Run library s₀ evs s)
    (hkeys : ∀ p o, .call p o ∈ evs → sep ∉ o.key.val)
    (hlimit : ∀ p o e, .abort p o e ∈ evs → ¬ e.IsLimit) :
    Linearizable specStep (fun _ => none) evs ∧
    (∀ p q o o' k k', p ≠ q → s.proc p = .busy o k → s.proc q = .busy o' k' →
      (s.noted p).Disjoint (s.noted q)) ∧
    (∀ fd, (endsSeen fd evs).Pairwise (· < ·)) ∧
    (¬ ∃ p, Relation.TransGen s.WaitsFor p p) ∧
    ((∀ p fd b, s.world.lock p fd b = none) →
      ∃ recs chain free, Layout (s.world.file .idx) (s.world.file .dat) recs chain free) := by
  obtain ⟨G, hG⟩ := h₀.running.run obeys_library represents_mapOf hrun hkeys hlimit
  have hs := hG.running
  refine ⟨linearizable_of_returns hG.spec, ?_, fun fd => (hG.ends fd).order, ?_, fun hlock => ?_⟩
  · intro p q o o' k k' hpq hp hq
    exact hs.disjoint_noted hpq hp hq
  · rintro ⟨p, hcircle⟩
    exact hs.not_waits_circle p hcircle
  · exact (atRest_of_unlocked hs.sound hG.leak hlock).layout fun _ hkey => hkey

def twoProcesses : Machine (Fin 2) DbFile DbError Op DB Val where
  world :=
    { file := fun
        | .idx => emptyTable
        | .dat => []
      pos := fun _ _ => 0
      lock := fun _ _ _ => none }
  proc _ := .idle openedDB
  noted _ := []

/-- Both processes are to delete the same key, and the second has to wait for the first. -/
theorem shared_database_two : Shared twoProcesses ∧ ∃ evs s,
    Machine.Run library twoProcesses evs s ∧
    s.WaitsFor 1 0 ∧ ¬ ∃ p, Relation.TransGen s.WaitsFor p p := by
  have h₀ : Shared twoProcesses :=
    ⟨rfl, rfl, fun _ _ _ => rfl, fun _ => ⟨openedDB, rfl, opened_openedDB⟩⟩
  let o : Op := .delete ⟨[97], by decide⟩
  have hrun₀ : Machine.Run library twoProcesses [] twoProcesses := .start
  have hrun₁ := hrun₀.next (.call (p := 0) o rfl)
  have hrun₂ := hrun₁.next (.call (p := 1) o rfl)
  have hrun₃ := hrun₂.next (.sys (p := 0) (o := o) rfl
    (by rintro ⟨q, -, b, m, -, hlock, -⟩; cases hlock))
  refine ⟨h₀, _, _, hrun₃, ?_, (shared_database_correct h₀ hrun₃ ?_ ?_).2.2.2.1⟩
  · refine ⟨o, .idx, .write, 686, 1, _, rfl, by decide, 686, .write, ⟨le_rfl, .inr (by decide)⟩, ?_,
      by decide⟩
    decide +kernel
  · intro p o' hcall
    change Event.call p o' ∈ [Event.call 0 o, Event.call 1 o, Event.sys 0 _ _] at hcall
    simp only [List.mem_cons, Event.call.injEq, reduceCtorEq, List.not_mem_nil, or_false] at hcall
    rcases hcall with ⟨-, rfl⟩ | ⟨-, rfl⟩ <;> decide
  · intro p o' e habort
    change Event.abort p o' e ∈ [Event.call 0 o, Event.call 1 o, Event.sys 0 _ _] at habort
    simp only [List.mem_cons, reduceCtorEq, List.not_mem_nil, or_false] at habort

end UnixPrograms.Db
