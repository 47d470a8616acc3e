import UnixPrograms.Dtree.Stages
import Mathlib.Data.Prod.Lex

/-!
# The cache along runs

Every batch of events can be processed to its end (`exists_settles`), and the cache is then right in
every run in which no directory from outside replaces one in the tree (`Inv.step`).  After such a
rename its pathname is still in the cache, and the entry is dropped with the directory that was
replaced.
-/

namespace UnixPrograms.Dtree

open List Option

variable {root : Bytes}

/-! ## Batches end -/

def isIgnored : InotifyEvent → Bool
  | .ignored _ => true
  | _ => false

/-- The event is consumed, or a second `read` is to be tried. -/
def Outcome.Consumes (ev : InotifyEvent) (firstTry : Bool) : Outcome → Prop
  | .done n _ _ evs => 0 < n ∧ (∀ e ∈ evs, isIgnored e = true) ∧ (isIgnored ev = true → evs = [])
  | .hanging => firstTry = true
  | .rebuilt _ _ => isIgnored ev = false
  | .exit => True

section Outcomes

variable (root) (t : Tree) (k : Inotify) (cache : List Watch) {ev : InotifyEvent} (firstTry : Bool)

lemma exists_watchSubtree (path : Bytes) :
    ∃ visits k' cache', watchSubtree root t path visits k cache = some (k', cache') := by
  cases h : resolve root t path with
  | none => exact ⟨[], k, cache, by simp [watchSubtree, h]⟩
  | some p =>
    exact ⟨t.below p, _, _, by simp only [watchSubtree, h, if_pos (List.Perm.refl _)]; rfl⟩

lemma exists_rebuild (hev : isIgnored ev = false) :
    ∃ visits o, rebuild root t visits k = some o ∧ o.Consumes ev firstTry := by
  obtain ⟨visits, k', cache', h⟩ := exists_watchSubtree root t (k.keep fun _ => false) [] root
  exact ⟨visits, .rebuilt k' cache', by rw [rebuild, reinitialize, h, map_some], hev⟩

lemma consumes_done (k : Inotify) (cache : List Watch) (n : ℕ) :
    (Outcome.done (n + 1) k cache []).Consumes ev firstTry :=
  ⟨Nat.succ_pos n, by simp, fun _ => rfl⟩

lemma exists_dirAppears (dir name : Bytes) :
    ∃ visits o, dirAppears root t visits k cache dir name = some o ∧ o.Consumes ev firstTry := by
  obtain ⟨visits, k', cache', h⟩ := exists_watchSubtree root t k cache (dir ++ slash :: name)
  simp only [dirAppears]
  split
  · exact ⟨[], _, rfl, consumes_done firstTry k cache 0⟩
  · exact ⟨visits, _, by rw [h, map_some], consumes_done firstTry k' cache' 0⟩

lemma isIgnored_of_zapSubtree {path : Bytes} {k k' : Inotify} {cache cache' : List Watch}
    {evs : List InotifyEvent} (h : zapSubtree path k cache = some (k', cache', evs)) :
    ∀ e ∈ evs, isIgnored e = true := by
  induction cache generalizing k k' cache' evs with
  | nil =>
    cases h
    simp
  | cons w cache ih =>
    rw [zapSubtree] at h
    cases hwd : w.wd with
    | none =>
      simp only [hwd] at h
      obtain ⟨r, hr, heq⟩ := map_eq_some_iff.mp h
      cases heq
      exact ih hr
    | some wd =>
      simp only [hwd] at h
      split at h
      · split at h
        · cases h
        · obtain ⟨r, hr, heq⟩ := map_eq_some_iff.mp h
          cases heq
          exact forall_mem_cons.mpr ⟨rfl, ih hr⟩
      · obtain ⟨r, hr, heq⟩ := map_eq_some_iff.mp h
        cases heq
        exact ih hr

lemma exists_dirLeaves (hev : isIgnored ev = false) (dir name : Bytes) :
    ∃ visits o, dirLeaves root t visits k cache dir name = some o ∧ o.Consumes ev firstTry := by
  simp only [dirLeaves]
  cases h : zapSubtree (dir ++ slash :: name) k cache with
  | none => exact exists_rebuild root t k firstTry hev
  | some r =>
    refine ⟨[], _, rfl, Nat.one_pos, isIgnored_of_zapSubtree h, fun hev' => ?_⟩
    rw [hev] at hev'
    cases hev'

lemma exists_outcome (ev : InotifyEvent) (rest : List InotifyEvent) :
    ∃ visits o, processNextInotifyEvent root t visits k cache firstTry ev rest = some o ∧
      o.Consumes ev firstTry := by
  have hslot : ∀ slot, ∃ visits o,
      processEvent root t visits k cache firstTry slot ev rest = some o ∧
        o.Consumes ev firstTry := by
    intro slot
    cases ev with
    | ignored wd => exact ⟨[], _, rfl, consumes_done firstTry k cache 0⟩
    | qOverflow => exact exists_rebuild root t k firstTry rfl
    | unmount wd => exact ⟨[], _, rfl, consumes_done firstTry k _ 0⟩
    | create wd isDir name | movedTo wd isDir cookie name =>
      cases isDir with
      | true => exact exists_dirAppears root t k cache firstTry _ name
      | false => exact ⟨[], _, rfl, consumes_done firstTry k cache 0⟩
    | deleteSelf wd | moveSelf wd =>
      simp only [processEvent]
      split
      · exact ⟨[], _, rfl, trivial⟩
      · exact ⟨[], _, rfl, consumes_done firstTry k _ 0⟩
    | movedFrom wd isDir cookie name =>
      cases isDir with
      | false => exact ⟨[], _, rfl, consumes_done firstTry k cache 0⟩
      | true =>
        simp only [processEvent, if_true]
        split
        · split
          · split
            · exact exists_rebuild root t k firstTry rfl
            · exact ⟨[], _, rfl, consumes_done firstTry k _ 1⟩
          · exact exists_dirLeaves root t k cache firstTry rfl _ name
        · exact exists_dirLeaves root t k cache firstTry rfl _ name
        · split
          · exact ⟨[], _, rfl, ‹_›⟩
          · exact exists_dirLeaves root t k cache firstTry rfl _ name
  simp only [processNextInotifyEvent]
  cases hwd : checkedWd ev with
  | none => exact hslot 0
  | some wd =>
    have hev : isIgnored ev = false := by
      cases ev with
      | ignored wd => cases hwd
      | _ => rfl
    dsimp only
    cases findWatch cache wd with
    | none => exact exists_rebuild root t k firstTry hev
    | some slot => exact hslot slot

end Outcomes

/-- A step of the program, not of the file system. -/
def ByProgram (_ : State) : Action → Prop
  | .fs _ => False
  | _ => True

/-- What is left to do: the events that are not skipped, then the events, and then whether a `read`
comes first. -/
def State.rank (s : State) : ℕ ×ₗ ℕ ×ₗ ℕ :=
  toLex ((s.buf ++ s.queue).countP (!isIgnored ·), toLex ((s.buf ++ s.queue).length,
    if s.buf = [] then 2 else if s.firstTry then 1 else 0))

variable {s' s : State}

lemma rank_lt
    (h : (s'.buf ++ s'.queue).countP (!isIgnored ·) < (s.buf ++ s.queue).countP (!isIgnored ·) ∨
      (s'.buf ++ s'.queue).countP (!isIgnored ·) = (s.buf ++ s.queue).countP (!isIgnored ·) ∧
      ((s'.buf ++ s'.queue).length < (s.buf ++ s.queue).length ∨ (s'.buf ++ s'.queue).length =
      (s.buf ++ s.queue).length ∧ (if s'.buf = [] then 2 else if s'.firstTry then 1 else 0) < if
      s.buf = [] then 2 else if s.firstTry then 1 else 0)) : s'.rank < s.rank := by
  rw [State.rank, State.rank, Prod.Lex.toLex_lt_toLex, Prod.Lex.toLex_lt_toLex]
  exact h

lemma exists_after {ev : InotifyEvent} {rest : List InotifyEvent} (hbuf : s.buf = ev :: rest)
    {o : Outcome} (ho : o.Consumes ev s.firstTry) :
    ∃ n s', s.after n o = some s' ∧ (s'.exited = true ∨ s'.rank < s.rank) := by
  cases o with
  | done n k cache evs =>
    obtain ⟨hn, hevs, hnone⟩ := ho
    refine ⟨0, _, rfl, .inr (rank_lt ?_)⟩
    obtain ⟨n, rfl⟩ := Nat.exists_eq_succ_of_ne_zero (Nat.ne_of_gt hn)
    have hevs : evs.countP (!isIgnored ·) = 0 :=
      countP_eq_zero.mpr fun e he => by simp [hevs e he]
    have hdrop : (rest.drop n).countP (!isIgnored ·) ≤ rest.countP (!isIgnored ·) :=
      (drop_sublist n rest).countP_le
    simp only [hbuf, drop_succ_cons, countP_append, countP_cons, hevs, length_append,
      length_drop, length_cons]
    -- an event that is skipped causes none, so that there are fewer; any other one is done with
    cases hev : isIgnored ev with
    | true =>
      rw [hnone hev, length_nil]
      simp only [Bool.not_true, Bool.false_eq_true, if_false]
      omega
    | false =>
      simp only [Bool.not_false, if_true]
      omega
  | hanging =>
    refine ⟨s.queue.length, _, if_pos ⟨Nat.le_refl _, length_eq_zero_iff.mp⟩, .inr (rank_lt ?_)⟩
    have htry : s.firstTry = true := ho
    simp [hbuf, htry]
  | rebuilt k cache =>
    refine ⟨0, _, rfl, .inr (rank_lt (.inl ?_))⟩
    have hev : isIgnored ev = false := ho
    simp [hbuf, hev]
  | exit => exact ⟨0, _, rfl, .inl rfl⟩

lemma step_read (hlive : s.exited = false) (hbuf : s.buf = []) {n : ℕ} (hn : 0 < n)
    (hle : n ≤ s.queue.length) : step root s (.read n) =
      some { s with buf := s.queue.take n, queue := s.queue.drop n, firstTry := true } := by
  simp only [step, hlive, hbuf, hn, hle, and_self, if_true, Bool.false_eq_true, if_false]

lemma exists_step (root : Bytes) (hlive : s.exited = false) (hbusy : ¬ s.Idle) :
    ∃ a s', ByProgram s a ∧ step root s a = some s' ∧ (s'.exited = true ∨ s'.rank < s.rank) := by
  cases hbuf : s.buf with
  | nil =>
    have hqueue : 0 < s.queue.length := length_pos_iff.mpr fun h => hbusy ⟨hbuf, h⟩
    refine ⟨.read s.queue.length, _, trivial, step_read hlive hbuf hqueue (Nat.le_refl _),
      .inr (rank_lt ?_)⟩
    simp [hbuf, length_pos_iff.mp hqueue]
  | cons ev rest =>
    obtain ⟨visits, o, hdo, ho⟩ := exists_outcome root s.tree s.inotify s.cache s.firstTry ev rest
    obtain ⟨n, s', hafter, hs'⟩ := exists_after hbuf ho
    refine ⟨.next visits n, s', trivial, ?_, hs'⟩
    simp only [step, hlive, hbuf, hdo]
    exact hafter

lemma exists_settles (root : Bytes) (s : State) :
    ∃ as s', RunWhen (step root) ByProgram s as s' ∧ (s'.exited = true ∨ s'.Idle) := by
  induction hr : s.rank using WellFoundedLT.induction generalizing s with
  | ind r ih =>
    subst hr
    by_cases hdone : s.exited = true ∨ s.Idle
    · exact ⟨[], s, .nil, hdone⟩
    · rw [not_or, Bool.not_eq_true] at hdone
      obtain ⟨a, s₁, ha, hstep, hnext⟩ := exists_step root hdone.1 hdone.2
      have hone : RunWhen (step root) ByProgram s [a] s₁ := RunWhen.nil.snoc hstep ha
      rcases hnext with hexit | hlt
      · exact ⟨[a], s₁, hone, .inl hexit⟩
      · obtain ⟨as, s', hrun, hs'⟩ := ih _ hlt s₁ rfl
        exact ⟨[a] ++ as, s', hone.append hrun, hs'⟩

/-! ## The cache is right -/

/-- The entry that a directory should have: the descriptor of its live watch, and its pathname. -/
def entryOf (root : Bytes) (k : Inotify) (d : Dir) : Watch := ⟨k.wd? d.2, pathname root d.1⟩

/-- The cache holds exactly one entry for each directory, and nothing else. -/
def State.CacheRight (root : Bytes) (s : State) : Prop :=
  (used s.cache).Perm (s.tree.dirs.map (entryOf root s.inotify))

/-- The action is not a rename from outside onto a directory in the tree. -/
def Permitted (s : State) : Action → Prop
  | .fs op => KeepsTargets s.tree op
  | _ => True

instance (t : Tree) (op : DirOp) : Decidable (KeepsTargets t op) :=
  match op with
  | .moveIn _ dir name => inferInstanceAs (Decidable (dir ++ [name] ∉ t.paths))
  | .mkdir .. | .rmdir .. | .rename .. | .moveOut .. | .rmdirRoot | .moveRoot =>
    inferInstanceAs (Decidable True)

instance (s : State) (a : Action) : Decidable (Permitted s a) :=
  match a with
  | .fs op => inferInstanceAs (Decidable (KeepsTargets s.tree op))
  | .read _ | .next _ _ => inferInstanceAs (Decidable True)

/-- The program is at a stage of following the tree. -/
structure Inv (root : Bytes) (s : State) : Prop where
  stage : s.exited = false → Stage root s.tree s.inotify s.cache (s.buf ++ s.queue)
  /-- The program goes on as long as there is a root. -/
  rootGone : s.exited = true → s.tree.dirs = []
  /-- After a second `read`, no event is left in the queue if it got none. -/
  second : s.firstTry = false → s.buf ≠ [] ∧ (s.buf.length = 1 → s.queue = [])

lemma Stage.settled_of_nil {t : Tree} {k : Inotify} {cache : List Watch}
    (h : Stage root t k cache []) :
    ∃ L, Tracks root k none L cache ∧ (L.map Entry.dir).Perm t.dirs := by
  generalize hnil : ([] : List InotifyEvent) = evs at h
  cases h with
  | settled L h hL => exact ⟨L, h, hL⟩
  | _ => cases hnil

/-- A settled cache is right. -/
lemma Tracks.perm_entries {t : Tree} {k : Inotify} {L : List Entry} {cache : List Watch}
    (h : Tracks root k none L cache) (hL : (L.map Entry.dir).Perm t.dirs) :
    (Dtree.used cache).Perm (t.dirs.map (entryOf root k)) := by
  refine h.used.trans (List.Perm.trans (List.Perm.of_eq ?_) (hL.map _))
  rw [toList_none, nil_append, List.map_map]
  refine map_congr_left fun e he => ?_
  have hwd : k.wd? e.ino = some e.wd := Inotify.wd?_of_mem (h.mark_mem he)
  rw [Function.comp_apply, entryOf, Entry.dir, hwd, Entry.watch]

lemma exists_reinitialize (hroot : root.getLast? ≠ some slash) (t : Tree) (k : Inotify) :
    ∃ k' cache L, reinitialize root t (t.below []) k = some (k', cache) ∧
      Tracks root k' none L cache ∧ (L.map Entry.dir).Perm t.dirs := by
  have hempty : Tracks root (k.keep fun _ => false) none [] [] :=
    ⟨List.Perm.of_eq (filter_false _), .nil, nodup_nil⟩
  by_cases htop : [] ∈ t.paths
  · obtain ⟨L, k', cache, heq, hdirs, h⟩ :=
      hempty.watchSubtree hroot htop (by simp) (List.Perm.refl _)
    rw [DirTree.below_nil] at hdirs
    exact ⟨k', cache, L, heq, h, hdirs⟩
  · -- there is no directory at all
    have hnil : t.dirs = [] := t.below_nil ▸ DirTree.below_of_not_mem htop
    refine ⟨_, [], [], ?_, hempty, by rw [hnil]; rfl⟩
    simp only [watchSubtree, reinitialize, resolve, DirTree.paths, DirTree.below, hnil, filter_nil,
      map_nil, List.find?_nil, if_true]

lemma inv_start (hroot : root.getLast? ≠ some slash) (t : Tree) : Inv root (start root t) := by
  obtain ⟨k, cache, L, heq, h, hL⟩ := exists_reinitialize hroot t .init
  have hstart : start root t = ⟨t, k, 0, [], cache, [], true, false⟩ := by
    rw [start, heq]
  rw [hstart]
  exact ⟨fun _ => .settled L h hL _ (by simp), fun hexit => absurd hexit (by simp),
    fun htry => absurd htry (by simp)⟩

lemma Inv.after (h : Inv root s) {ev : InotifyEvent} {rest : List InotifyEvent}
    (hbuf : s.buf = ev :: rest) {o : Outcome} (ho : OutcomeOk root s.tree s.buf s.queue o) {n : ℕ}
    (hafter : s.after n o = some s') : Inv root s' := by
  cases o with
  | done m k cache evs =>
    cases hafter
    exact ⟨fun _ => ho, h.rootGone, fun htry => by cases htry⟩
  | hanging =>
    obtain ⟨⟨hle, hzero⟩, heq⟩ := ite_none_right_eq_some.mp hafter
    cases heq
    refine ⟨fun hlive => ?_, h.rootGone, fun _ => ⟨by simp [hbuf], fun hlength => ?_⟩⟩
    · rw [append_assoc, take_append_drop]
      exact h.stage hlive
    · have hone : s.buf.length = 1 := ho
      have hn : n = 0 := by
        rw [length_append, hone, length_take, Nat.min_eq_left hle] at hlength
        omega
      rw [hzero hn, drop_nil]
  | rebuilt k cache => exact ho.elim
  | exit =>
    cases hafter
    exact ⟨fun hlive => absurd hlive (by simp), fun _ => ho, h.second⟩

lemma Inv.step (hroot : root.getLast? ≠ some slash) (h : Inv root s) {a : Action}
    (hst : step root s a = some s') (ha : Permitted s a) : Inv root s' := by
  obtain ⟨hlive, hst⟩ := ite_none_left_eq_some.mp hst
  rw [Bool.not_eq_true] at hlive
  have hstage := h.stage hlive
  cases a with
  | fs op =>
    obtain ⟨⟨hbuf, hqueue⟩, hst⟩ := ite_none_right_eq_some.mp hst
    obtain ⟨⟨t, k, evs⟩, happly, rfl⟩ := map_eq_some_iff.mp hst
    rw [hbuf, hqueue] at hstage
    obtain ⟨L, htracks, hL⟩ := hstage.settled_of_nil
    refine ⟨fun _ => ?_, fun hexit => absurd (hlive.symm.trans hexit) Bool.false_ne_true,
      fun htry => absurd hbuf (h.second htry).1⟩
    change Stage root t k s.cache (s.buf ++ evs)
    rw [hbuf]
    exact stage_of_apply htracks hL happly ha
  | read n =>
    obtain ⟨⟨hbuf, -⟩, hst⟩ := ite_none_right_eq_some.mp hst
    cases hst
    refine ⟨fun _ => ?_, h.rootGone, fun htry => by cases htry⟩
    change Stage root s.tree s.inotify s.cache (s.queue.take n ++ s.queue.drop n)
    rw [take_append_drop]
    rwa [hbuf] at hstage
  | next visits n =>
    cases hbuf : s.buf with
    | nil =>
      simp only [hbuf] at hst
      cases hst
    | cons ev rest =>
      simp only [hbuf] at hst
      obtain ⟨o, hdo, hafter⟩ := bind_eq_some_iff.mp hst
      rw [hbuf] at hstage
      refine h.after hbuf ?_ hafter
      rw [hbuf]
      refine Stage.process hroot hstage (fun htry hrest => ?_) hdo
      exact (h.second htry).2 (by rw [hbuf, hrest]; rfl)

/-- In every run in which no directory from outside replaces one in the tree, the cache is right
whenever all events have been processed, which is always possible, and the program does not exit
before the root is gone. -/
theorem cacheRight_of_run (hroot : root.getLast? ≠ some slash) {t : Tree} {as : List Action}
    {s : State}
    (hrun : RunWhen (step root) Permitted (start root t) as s) :
    (s.exited = false → s.Idle → s.CacheRight root) ∧ (s.exited = true → s.tree.dirs = []) ∧
      ∃ as' s', RunWhen (step root) ByProgram s as' s' ∧ (s'.exited = true ∨ s'.Idle) := by
  have h : Inv root s := hrun.invariant (inv_start hroot t) fun s a s' hI hst ha =>
      hI.step hroot hst ha
  refine ⟨fun hlive hidle => ?_, h.rootGone, exists_settles root s⟩
  have hstage := h.stage hlive
  rw [hidle.1, hidle.2] at hstage
  obtain ⟨L, htracks, hL⟩ := hstage.settled_of_nil
  exact htracks.perm_entries hL

def top : Bytes := [116]

lemma oneByte_ok {b : UInt8} (h : b ≠ slash) : [b] ≠ [] ∧ slash ∉ [b] :=
  ⟨cons_ne_nil b [], fun hmem => h (mem_singleton.mp hmem).symm⟩

lemma a_ne_slash : (97 : UInt8) ≠ slash := by decide

lemma b_ne_slash : (98 : UInt8) ≠ slash := by decide

def nameA : Name := ⟨[97], oneByte_ok a_ne_slash⟩

def nameB : Name := ⟨[98], oneByte_ok b_ne_slash⟩

def create (x : Name) (ino : ℕ) : List Action :=
  [.fs (.mkdir [] x ino), .read 1, .next [([x], ino)] 0]

/-- Two directories are created, and one is renamed onto the other.  The events of the rename come
in two pieces. -/
theorem cacheRight_of_rename : ∃ (as : List Action) (s : State),
    RunWhen (step top) Permitted (start top (.single Name 1)) as s ∧ s.exited = false ∧ s.Idle ∧
      s.tree.dirs = [([], 1), ([nameB], 2)] ∧ s.CacheRight top := by
  obtain ⟨s, hrun, hs, hidle, hdirs⟩ := exists_runWhen (step top) Permitted
    (start top (.single Name 1))
    (create nameA 2 ++ create nameB 3 ++ [.fs (.rename [] nameA [] nameB), .read 1, .next [] 3,
      .next [] 0, .next [] 0, .next [] 0])
    (fun s => s.exited = false ∧ s.Idle ∧ s.tree.dirs = [([], 1), ([nameB], 2)])
    (by decide +kernel)
  exact ⟨_, s, hrun, hs, hidle, hdirs, (cacheRight_of_run (by decide) hrun).1 hs hidle⟩

/-- A directory is created, and one from outside replaces it.  When all events have been processed,
that one is not in the cache. -/
theorem cacheRight_lost : ∃ (as : List Action) (s : State),
    RunFrom (step top) (start top (.single Name 1)) as s ∧ s.exited = false ∧ s.Idle ∧
      s.tree.dirs = [([], 1), ([nameA], 3)] ∧ used s.cache = [⟨some 1, top⟩] ∧
        ¬ s.CacheRight top := by
  obtain ⟨s, hrun, hs, hidle, hdirs, hused⟩ :=
    exists_runFrom (step top) (start top (.single Name 1))
      (create nameA 2 ++ [.fs (.moveIn (.single Name 3) [] nameA), .read 3, .next [] 0,
        .next [] 0, .next [] 0])
      (fun s => s.exited = false ∧ s.Idle ∧ s.tree.dirs = [([], 1), ([nameA], 3)] ∧
        used s.cache = [⟨some 1, top⟩]) (by decide +kernel)
  refine ⟨_, s, hrun, hs, hidle, hdirs, hused, fun hright => ?_⟩
  have hlength := hright.length_eq
  rw [hused, hdirs] at hlength
  cases hlength

end UnixPrograms.Dtree
