import UnixPrograms.Db.Layout
import UnixPrograms.Lib.Histories

/-!
# One process alone

Until a call ends the process by one of the limits of the library, the calls of a process return
what they would return on a map from keys to data, and the files are laid out as they should be.
-/

namespace UnixPrograms.Db

open Prog

def calls : List Op → DB → DbProg (List Val × DB)
  | [], db => return ([], db)
  | o :: ops, db => do
    let (v, db) ← library o db
    let (vs, db) ← calls ops db
    return (v :: vs, db)

def session (ops : List Op) : DbProg (List Val × DB) := do
  let db ← dbOpen true
  calls ops db

def newFiles : World Unit DbFile where
  file _ := []
  pos _ _ := 0
  lock _ _ _ := none

section Calls

variable {ι : Type} [Fintype ι] [DecidableEq ι] {K : Bytes → Prop} {w : World ι DbFile}
  {G : Division ι DbFile Res (List Rec)} {p : ι} {db : DB}

lemma AtRest.calls {ops : List Op} (hG : AtRest K w G) (hdb : Opened db)
    (hops : ∀ o ∈ ops, K o.key.val) :
    ∃ n out w', (calls ops db).exec (World.perform p) n w = some (out, w') ∧
      match out with
      | .ok a => Opened a.2 ∧
        ∃ G', AtRest K w' G' ∧ seqRun specStep (mapOf G.cur) ops = (a.1, mapOf G'.cur)
      | .error e => ∃ o ∈ ops, ∃ h, Aborted K o e h := by
  induction ops generalizing w G db with
  | nil => exact ⟨0, _, w, rfl, hdb, G, hG, rfl⟩
  | cons o ops ih =>
    obtain ⟨n, out, w₁, hexec, hout⟩ := hG.library (p := p) hdb (hops o List.mem_cons_self)
    cases out with
    | error e =>
      refine ⟨n, .error e, w₁, exec_bind_error _ hexec, o, List.mem_cons_self, hout⟩
    | ok a =>
      obtain ⟨hdb₁, G₁, hG₁, hstep⟩ := hout
      obtain ⟨m, out, w₂, hexec₂, hout₂⟩ :=
        ih hG₁ hdb₁ fun o ho => hops o (List.mem_cons_of_mem _ ho)
      cases out with
      | error e =>
        obtain ⟨o', ho', hab⟩ := hout₂
        exact ⟨n + m, .error e, w₂, exec_bind hexec (exec_bind_error _ hexec₂), o',
          List.mem_cons_of_mem _ ho', hab⟩
      | ok b =>
        obtain ⟨hdb₂, G₂, hG₂, hrun⟩ := hout₂
        refine ⟨n + (m + 0), .ok (a.1 :: b.1, b.2), w₂,
          exec_bind hexec (exec_bind hexec₂ rfl), hdb₂, G₂, hG₂, ?_⟩
        simp only [seqRun, hstep, hrun]

end Calls

lemma exec_session {K : Bytes → Prop} {ops : List Op} (hops : ∀ o ∈ ops, K o.key.val) :
    ∃ n out w, (session ops).exec (World.perform ()) n newFiles = some (out, w) ∧
      match out with
      | .ok a => Opened a.2 ∧
        ∃ G, AtRest K w G ∧ seqRun specStep (fun _ => none) ops = (a.1, mapOf G.cur)
      | .error e => ∃ o ∈ ops, ∃ h, Aborted K o e h := by
  obtain ⟨w₁, hopen, hidx, hdat, hlock⟩ :=
    exec_dbOpen_create (p := ()) (w := newFiles) rfl rfl fun _ _ _ => rfl
  have hG := atRest_created K hidx hdat hlock
  obtain ⟨n, out, w, hexec, hout⟩ := hG.calls (p := ()) opened_openedDB hops
  exact ⟨5 + n, out, w, exec_bind hopen hexec, hout⟩

/-- Every session ends.  If no call ends it by one of the limits, all calls have returned what they
return on a map from keys to data that is empty at first. -/
theorem session_refines_map (ops : List Op) (hkeys : ∀ o ∈ ops, sep ∉ o.key.val) :
    ∃ fuel out w, (session ops).exec (World.perform ()) fuel newFiles = some (out, w) ∧
      match out with
      | .ok (vs, _) => vs = (seqRun specStep (fun _ => none) ops).1
      | .error e => e.IsLimit := by
  obtain ⟨n, out, w, hexec, hout⟩ := exec_session (K := fun key => sep ∉ key) hkeys
  refine ⟨n, out, w, hexec, ?_⟩
  cases out with
  | ok a =>
    obtain ⟨-, G, -, hrun⟩ := hout
    rw [hrun]
  | error e =>
    obtain ⟨o, -, h, hab⟩ := hout
    exact hab.isLimit fun _ hkey => hkey

def sampleOps : List Op :=
  let key : CString := ⟨[97, 98], by decide⟩
  [.store key ⟨[99], by decide⟩ dbInsert, .store key ⟨[100, 101], by decide⟩ dbReplace, .fetch key,
    .delete key, .fetch key]

theorem session_refines_map_sample : (∀ o ∈ sampleOps, sep ∉ o.key.val) ∧
    ∃ fuel out w, (session sampleOps).exec (World.perform ()) fuel newFiles = some (out, w) ∧
      match out with
      | .ok (vs, _) => vs = [.status 0, .status 0, .data (some [100, 101]), .status 0, .data none]
      | .error e => e.IsLimit := by
  have hkeys : ∀ o ∈ sampleOps, sep ∉ o.key.val := by decide
  exact ⟨hkeys, session_refines_map sampleOps hkeys⟩

/-- After a session no call of which has ended the process, the files are laid out as they should
be, and every further call ends. -/
theorem session_layout (ops : List Op) (hkeys : ∀ o ∈ ops, sep ∉ o.key.val) {fuel : ℕ}
    {vs : List Val}
    {db : DB} {w : World Unit DbFile}
    (hexec : (session ops).exec (World.perform ()) fuel newFiles = some (.ok (vs, db), w)) :
    (∃ recs chain free, Layout (w.file .idx) (w.file .dat) recs chain free) ∧
      ∀ o : Op, sep ∉ o.key.val →
        ∃ fuel' out w', (library o db).exec (World.perform ()) fuel' w = some (out, w') := by
  obtain ⟨n, out, w₁, hexec₁, hout⟩ := exec_session (K := fun key => sep ∉ key) hkeys
  cases exec_unique hexec₁ hexec
  obtain ⟨hdb, G, hG, -⟩ := hout
  refine ⟨hG.layout fun _ hkey => hkey, fun o ho => ?_⟩
  obtain ⟨m, out, w', hcall, -⟩ := hG.library (p := ()) hdb ho
  exact ⟨m, out, w', hcall⟩

def returned {α : Type} (x : Option (Except DbError α × World Unit DbFile)) : Option α :=
  x.bind fun y => y.1.toOption

lemma exists_of_returned {α : Type} {q : DbProg (α × DB)} {fuel : ℕ} {v : α}
    (h : (returned (q.exec (World.perform ()) fuel newFiles)).map Prod.fst = some v) :
    ∃ db w, q.exec (World.perform ()) fuel newFiles = some (.ok (v, db), w) := by
  obtain ⟨a, ha, rfl⟩ := Option.map_eq_some_iff.mp h
  obtain ⟨⟨out, w⟩, hrun, hout⟩ := Option.bind_eq_some_iff.mp ha
  cases out with
  | error e => cases hout
  | ok b =>
    cases hout
    exact ⟨a.2, w, hrun⟩

lemma eq_of_returns {α β : Type} {ops : List Op} {fuel n : ℕ} {vs : List Val} {db : DB}
    {w : World Unit DbFile} {f : List Val × DB → DbProg α} {g : α → β} {out : Option β}
    {Q : α → World Unit DbFile → Prop}
    (hrun : (session ops).exec (World.perform ()) fuel newFiles = some (.ok (vs, db), w))
    (hout : (((session ops).bind f).exec (World.perform ()) n newFiles).map
      (fun y => y.1.toOption.map g) = some out)
    (h : (f (vs, db)).Returns (World.perform ()) w Q) : ∃ a w', out = some (g a) ∧ Q a w' := by
  obtain ⟨m, a, w', hexec, hQ⟩ := h
  obtain ⟨y, hy, rfl⟩ := Option.map_eq_some_iff.mp hout
  cases exec_unique (exec_bind hrun hexec) hy
  exact ⟨a, w', rfl, hQ⟩

theorem session_layout_sample : ∃ vs db w,
    (session sampleOps).exec (World.perform ()) 200 newFiles = some (.ok (vs, db), w) ∧
      ∃ recs chain free, Layout (w.file .idx) (w.file .dat) recs chain free := by
  obtain ⟨db, w, hrun⟩ : ∃ db w, (session sampleOps).exec (World.perform ()) 200 newFiles = some
      (.ok ([.status 0, .status 0, .data (some [100, 101]), .status 0, .data none], db), w) :=
    exists_of_returned (by decide +kernel)
  exact ⟨_, db, w, hrun, (session_layout sampleOps (by decide) hrun).1⟩

end UnixPrograms.Db
