import UnixPrograms.Dtree.Cache

/-!
# From an operation to the end of its events

While events of an operation are left, the cache is behind the tree, and `Stage` says how.  Every
operation but a rename from outside onto a directory of the tree leads to a stage
(`stage_of_apply`), and each event from a stage to a stage (`Stage.process`).
-/

namespace UnixPrograms.Dtree

open List DirTree Entry

def removalEvents : Option Entry → List InotifyEvent
  | none => []
  | some g => [.deleteSelf g.wd, .ignored g.wd]

/-- Where the program is in the events of an operation.  `L` are the directories with live watches.
The indices are the tree, the watches and the cache, and the events that are left. -/
inductive Stage (root : Bytes) (t : Tree) (k : Inotify) (cache : List Watch) :
    List InotifyEvent → Prop
  | settled (L : List Entry) (h : Tracks root k none L cache) (hL : (L.map dir).Perm t.dirs)
      (evs : List InotifyEvent) (hevs : ∀ ev ∈ evs, ∃ wd, ev = .ignored wd) :
      Stage root t k cache evs
  | removing (g : Entry) (L : List Entry) (h : Tracks root k (some g) L cache)
      (hL : (L.map dir).Perm t.dirs) (hg : g.path = [] → t.dirs = []) :
      Stage root t k cache (removalEvents (some g))
  /-- There is a new entry `name` in the directory `e`. -/
  | adding (L : List Entry) (h : Tracks root k none L cache) (e : Entry) (he : e ∈ L) (name : Name)
      (hL : (L.map dir ++ t.below (e.path ++ [name])).Perm t.dirs)
      (hmem : e.path ++ [name] ∈ t.paths) (ev : InotifyEvent)
      (hev : ev = .create e.wd true name.1 ∨ ∃ cookie, ev = .movedTo e.wd true cookie name.1) :
      Stage root t k cache [ev]
  /-- The entry `name` of `e` has been renamed to `name'` in `e'`. -/
  | moving (gone : Option Entry) (L : List Entry) (h : Tracks root k gone L cache) (e e' : Entry)
      (he : e ∈ L) (he' : e' ∈ L) (name name' : Name) (cookie : ℕ)
      (hL : ((L.map (moved (e.path ++ [name])
      (e'.path ++ [name']))).map dir).Perm t.dirs)
      (hgone : ∀ g ∈ gone, g.path ≠ [] ∧ ¬ e.path ++ [name] <+: g.path) :
      Stage root t k cache
        (.movedFrom e.wd true cookie name.1 :: .movedTo e'.wd true cookie name'.1 ::
        removalEvents gone)
  /-- The entry `name` of `e` has been renamed out of the tree. -/
  | leaving (L : List Entry) (h : Tracks root k none L cache) (e : Entry) (he : e ∈ L) (name : Name)
      (cookie : ℕ)
      (hL : ((L.filter fun d => ¬ e.path ++ [name] <+: d.path).map dir).Perm t.dirs) :
      Stage root t k cache [.movedFrom e.wd true cookie name.1]
  /-- The root `e` has been renamed. -/
  | rootMoved (L : List Entry) (h : Tracks root k none L cache) (e : Entry) (he : e ∈ L)
      (hpath : e.path = []) (ht : t.dirs = []) : Stage root t k cache [.moveSelf e.wd]

/-! ## Operations -/

/-- The operation is not a rename from outside onto a directory in the tree. -/
def KeepsTargets (t : Tree) : DirOp → Prop
  | .moveIn _ dir name => dir ++ [name] ∉ t.paths
  | _ => True

section Operations

variable {root : Bytes} {t : Tree} {k : Inotify} {L : List Entry} {cache : List Watch} {e : Entry}
  {name : Name} {dir : List Name}

lemma inode_of_mem (hL : (L.map Entry.dir).Perm t.dirs) (he : e ∈ L) :
    t.inode e.path = some e.ino :=
  inode_eq_some.mpr (hL.mem_iff.mp (mem_map_of_mem he))

lemma exists_entry (hL : (L.map Entry.dir).Perm t.dirs) {p : List Name} (hp : p ∈ t.paths) :
    ∃ e ∈ L, e.path = p := by
  obtain ⟨i, hi⟩ := mem_paths.mp hp
  obtain ⟨e, he, heq⟩ := mem_map.mp (hL.mem_iff.mpr hi)
  exact ⟨e, he, congrArg Prod.fst heq⟩

section

variable (h : Tracks root k none L cache)
include h

lemma Tracks.notify (he : e ∈ L) (ev : ℕ → InotifyEvent) : k.notify (some e.ino) ev = [ev e.wd] :=
  Inotify.notify_of_mem (h.mark_mem he) ev

lemma Tracks.notifyMoveSelf (he : e ∈ L) :
    k.notifyMoveSelf (some e.ino) = if e.path = [] then [.moveSelf e.wd] else [] := by
  refine (Inotify.notifyMoveSelf_of_mem (h.mark_mem he)).trans ?_
  simp [mark]

section

variable (hL : (L.map Entry.dir).Perm t.dirs)
include hL

lemma Tracks.notifyMoveSelf_entry (hmem : dir ++ [name] ∈ t.paths) :
    k.notifyMoveSelf (t.inode (dir ++ [name])) = [] := by
  obtain ⟨e, he, hpath⟩ := exists_entry hL hmem
  rw [← hpath, inode_of_mem hL he, h.notifyMoveSelf he, if_neg]
  simp [hpath]

lemma Tracks.remove {q : List Name} (hempty : EmptyAt t q) :
    ∃ gone L', Tracks root (k.remove (t.inode q)).2 gone L' cache ∧
      (L'.map Entry.dir).Perm (t.prune q).dirs ∧ L' ⊆ L ∧
      (k.remove (t.inode q)).1 = removalEvents gone ∧ (∀ g ∈ gone, g.path = q) ∧
      (q ∈ t.paths → gone.isSome) := by
  by_cases hq : q ∈ t.paths
  · obtain ⟨g, hg, rfl⟩ := exists_entry hL hq
    have hino := inode_of_mem hL hg
    obtain ⟨L₁, L₂, rfl⟩ := append_of_mem hg
    have hcons : (L₁ ++ g :: L₂).Perm (g :: (L₁ ++ L₂)) := perm_middle
    have hwds : ((g :: (L₁ ++ L₂)).map wd).Nodup := (hcons.map _).nodup_iff.mp h.wds_nodup
    rw [hino, show g.ino = g.mark.ino from rfl, Inotify.remove_of_mem (h.mark_mem hg)]
    refine ⟨some g, L₁ ++ L₂, ⟨?_, h.used.trans (hcons.map _), hwds⟩, ?_, ?_, rfl, ?_, fun _ => rfl⟩
    · refine ((h.marks.trans (hcons.map _)).filter _).trans (List.Perm.of_eq ?_)
      rw [map_cons, filter_cons_of_neg (by simp)]
      refine filter_eq_self.mpr fun w hw => decide_eq_true fun heq => ?_
      obtain ⟨e, he, rfl⟩ := mem_map.mp hw
      exact (List.nodup_cons.mp hwds).1 (mem_map.mpr ⟨e, he, heq⟩)
    · have hdirs := perm_cons_prune (inode_eq_some.mp hino) hempty
      exact ((hcons.map dir).symm.trans (hL.trans hdirs.symm)).cons_inv
    · exact fun e he => hcons.mem_iff.mpr (mem_cons_of_mem g he)
    · rintro _ ⟨⟩
      rfl
  · rw [inode_eq_none.mpr hq, Inotify.remove_none, prune_of_not_mem hq]
    exact ⟨none, L, h, hL, List.Subset.refl L, rfl, by simp, fun hmem => absurd hmem hq⟩

lemma stage_remove {q : List Name} (hq : q ∈ t.paths) (hempty : EmptyAt t q) :
    Stage root (t.prune q) (k.remove (t.inode q)).2 cache (k.remove (t.inode q)).1 := by
  obtain ⟨gone, L', h', hL', -, hevs, hgone, hsome⟩ := h.remove hL hempty
  obtain ⟨g, rfl⟩ := Option.isSome_iff_exists.mp (hsome hq)
  rw [hevs]
  refine .removing g L' h' hL' fun hnil => ?_
  rw [← hgone g rfl, hnil, prune_nil]

lemma stage_graft {sub : Tree} (hdir : dir ∈ t.paths) (hfree : dir ++ [name] ∉ t.paths)
    (hino : ∀ i ∈ sub.inodes, i ∉ t.inodes) (htop : [] ∈ sub.paths) {ev : ℕ → InotifyEvent}
    (hev : ev = (.create · true name.1) ∨ ∃ cookie, ev = (.movedTo · true cookie name.1)) :
    Stage root (t.graft sub dir name hdir hfree hino) k cache (k.notify (t.inode dir) ev) := by
  obtain ⟨e, he, rfl⟩ := exists_entry hL hdir
  rw [inode_of_mem hL he, h.notify he]
  refine .adding L h e he name ?_ (mem_paths_graft hdir hfree hino htop) _ ?_
  · rw [dirs_graft]
    exact hL.append_right _
  · rcases hev with rfl | ⟨cookie, rfl⟩
    · exact .inl rfl
    · exact .inr ⟨cookie, rfl⟩

lemma stage_rename {dir' : List Name} {name' : Name} (hmem : dir ++ [name] ∈ t.paths)
    (hdir' : dir' ∈ t.paths) (hnot : ¬ dir ++ [name] <+: dir' ++ [name'])
    (hempty : EmptyAt t (dir' ++ [name'])) (cookie : ℕ) :
    Stage root (t.rename (dir ++ [name]) dir' name' hdir' hnot)
      (k.remove (t.inode (dir' ++ [name']))).2 cache
      (k.notify (t.inode dir) (fun wd => .movedFrom wd true cookie name.1) ++
        k.notify (t.inode dir') (fun wd => .movedTo wd true cookie name'.1) ++
        k.notifyMoveSelf (t.inode (dir ++ [name])) ++
          (k.remove (t.inode (dir' ++ [name']))).1) := by
  obtain ⟨gone, L', h', hL', hsub, hevs, hgone, -⟩ := h.remove hL hempty
  -- the directory that is replaced is empty, so it does not contain the one that is renamed
  have hout : ¬ dir' ++ [name'] <+: dir := by
    intro hprefix
    obtain ⟨i, hi⟩ := mem_paths.mp hmem
    have hbelow := mem_below.mpr ⟨hi, hprefix.trans (prefix_append dir [name])⟩
    have heq : dir ++ [name] = dir' ++ [name'] := hempty _ hbelow
    exact not_prefix_entry dir name (heq ▸ hprefix)
  obtain ⟨e, he, rfl⟩ := exists_entry hL'
    (mem_paths_prune.mpr ⟨mem_paths_of_entry hmem, hout⟩)
  obtain ⟨e', he', rfl⟩ := exists_entry hL'
    (mem_paths_prune.mpr ⟨hdir', not_prefix_entry dir' name'⟩)
  rw [h.notifyMoveSelf_entry hL hmem, inode_of_mem hL (hsub he), inode_of_mem hL (hsub he'),
    h.notify (hsub he), h.notify (hsub he'), hevs]
  refine .moving gone L' h' e e' he he' name name' cookie ?_ fun g hg => ?_
  · refine List.Perm.trans (List.Perm.of_eq ?_)
      ((hL'.map _).trans (perm_rename hdir' hnot hempty))
    rw [map_map, map_map]
    refine map_congr_left fun d _ => ?_
    rw [Function.comp_apply, Function.comp_apply, Entry.moved]
    exact apply_ite Entry.dir _ _ _
  · rw [hgone g hg]
    exact ⟨by simp, hnot⟩

lemma stage_moveOut (hmem : dir ++ [name] ∈ t.paths) (cookie : ℕ) :
    Stage root (t.prune (dir ++ [name])) k cache
      (k.notify (t.inode dir) (fun wd => .movedFrom wd true cookie name.1) ++
        k.notifyMoveSelf (t.inode (dir ++ [name]))) := by
  obtain ⟨e, he, rfl⟩ := exists_entry hL (mem_paths_of_entry hmem)
  rw [h.notifyMoveSelf_entry hL hmem, inode_of_mem hL he, h.notify he]
  refine .leaving L h e he name cookie ?_
  have hfilter := hL.filter fun d => ¬ e.path ++ [name] <+: d.1
  rwa [filter_map] at hfilter

lemma stage_moveIn {sub : Tree} (hdir : dir ∈ t.paths) (hfree : dir ++ [name] ∉ t.paths)
    (htop : [] ∈ sub.paths) (hino : ∀ i ∈ sub.inodes, i ∉ t.inodes) (cookie : ℕ) :
    Stage root (t.replace sub dir name hdir hino) (k.remove (t.inode (dir ++ [name]))).2 cache
      (k.notify (t.inode dir) (fun wd => .movedTo wd true cookie name.1) ++
        k.notifyMoveSelf (sub.inode []) ++ (k.remove (t.inode (dir ++ [name]))).1) := by
  obtain ⟨i, hi⟩ := mem_paths.mp htop
  have hmark : k.mark? i = none := by
    refine Inotify.mark?_eq_none.mpr fun w hw heq => hino i (mem_inodes_of_mem hi) ?_
    obtain ⟨e, he, rfl⟩ := mem_map.mp (h.marks.mem_iff.mp hw)
    exact heq ▸ mem_inodes_of_mem (hL.mem_iff.mp (mem_map_of_mem he))
  have hinode : (t.prune (dir ++ [name])).inode dir = t.inode dir := by
    rw [inode, prune_of_not_mem hfree, inode]
  rw [inode_eq_some.mpr hi, Inotify.notifyMoveSelf_of_none hmark,
    inode_eq_none.mpr hfree, Inotify.remove_none, append_nil, append_nil, ← hinode]
  refine stage_graft h ?_ _ _ _ htop (.inr ⟨cookie, rfl⟩)
  rwa [prune_of_not_mem hfree]

lemma stage_of_apply {op : DirOp} {cookie : ℕ} {t' : Tree} {k' : Inotify}
    {evs : List InotifyEvent} (happly : op.apply t k cookie = some (t', k', evs))
    (hop : KeepsTargets t op) : Stage root t' k' cache evs := by
  revert happly
  fun_cases op.apply t k cookie with
  | case1 dir name ino hpos =>
    rintro ⟨⟩
    exact stage_graft h hL hpos.1 hpos.2.1 _ (mem_singleton_self _) (.inl rfl)
  | case3 dir name hpos | case11 hpos =>
    rintro ⟨⟩
    exact stage_remove h hL hpos.1 hpos.2
  | case5 dir name dir' name' hpos =>
    rintro ⟨⟩
    exact stage_rename h hL hpos.1 hpos.2.1 hpos.2.2.1 hpos.2.2.2 cookie
  | case7 dir name hpos =>
    rintro ⟨⟩
    exact stage_moveOut h hL hpos cookie
  | case9 sub dir name hpos =>
    rintro ⟨⟩
    exact stage_moveIn h hL hpos.1 hop hpos.2.2.1 hpos.2.2.2 cookie
  | case13 hpos =>
    rintro ⟨⟩
    obtain ⟨e, he, hpath⟩ := exists_entry hL hpos
    have hinode : t.inode [] = some e.ino := hpath ▸ inode_of_mem hL he
    rw [hinode, h.notifyMoveSelf he, if_pos hpath]
    exact .rootMoved L h e he hpath (prune_nil t)
  | _ => simp

end

end

end Operations

/-! ## Events -/

section Events

variable {root : Bytes} {t : Tree} {k : Inotify} {L : List Entry} {cache : List Watch}
  {visits : List Dir} {o : Outcome} {name : Name} {firstTry : Bool} {e : Entry}

lemma dirAppears_spec (hroot : root.getLast? ≠ some slash) (h : Tracks root k none L cache)
    {p : List Name} (hL : (L.map dir ++ t.below (p ++ [name])).Perm t.dirs)
    (hmem : p ++ [name] ∈ t.paths)
    (hdo : dirAppears root t visits k cache (pathname root p) name.1 = some o) :
    ∃ k' cache', o = .done 1 k' cache' [] ∧ Stage root t k' cache' [] := by
  have hpaths := (hL.map Prod.fst).nodup_iff.mpr t.paths_nodup
  have hinodes := (hL.map Prod.snd).nodup_iff.mpr t.inodes_nodup
  rw [map_append, List.nodup_append] at hpaths hinodes
  have hnew : ∀ d ∈ t.below (p ++ [name]), ∀ e ∈ L, e.ino ≠ d.2 := fun d hd e he =>
    hinodes.2.2 _ (mem_map_of_mem (mem_map_of_mem he)) _ (mem_map_of_mem hd)
  have hcache : ¬ pathnameInCache cache (pathname root (p ++ [name])) = true := by
    rw [h.pathnameInCache_iff hroot]
    rintro ⟨e, he, hpath⟩
    obtain ⟨i, hi⟩ := mem_paths.mp hmem
    have hbelow : (p ++ [name], i) ∈ t.below (p ++ [name]) :=
      mem_below.mpr ⟨hi, prefix_rfl⟩
    exact hpaths.2.2 _ (mem_map_of_mem (mem_map_of_mem he)) _
      (mem_map_of_mem hbelow) hpath
  rw [dirAppears, ← pathname_concat hroot, if_neg hcache] at hdo
  by_cases hvisits : visits.Perm (t.below (p ++ [name]))
  · obtain ⟨new, k', cache', hwatch, hdirs, h'⟩ := h.watchSubtree hroot hmem hnew hvisits
    rw [hwatch] at hdo
    cases hdo
    refine ⟨k', cache', rfl, .settled (L ++ new) h' ?_ [] (by simp)⟩
    rw [map_append]
    exact (hdirs.append_left _).trans hL
  · rw [watchSubtree, resolve_pathname hroot hmem] at hdo
    simp only [if_neg hvisits] at hdo
    cases hdo

/-- The next stage, after an event has been processed. -/
def OutcomeOk (root : Bytes) (t : Tree) (buf queue : List InotifyEvent) : Outcome → Prop
  | .done n k cache evs => Stage root t k cache (buf.drop n ++ (queue ++ evs))
  | .hanging => buf.length = 1
  | .rebuilt _ _ => False
  | .exit => t.dirs = []

section

variable (hroot : root.getLast? ≠ some slash)
include hroot

lemma process_adding (h : Tracks root k none L cache) (he : e ∈ L)
    (hL : (L.map dir ++ t.below (e.path ++ [name])).Perm t.dirs)
    (hmem : e.path ++ [name] ∈ t.paths) {ev : InotifyEvent}
    (hev : ev = .create e.wd true name.1 ∨ ∃ cookie, ev = .movedTo e.wd true cookie name.1)
    (hdo : processNextInotifyEvent root t visits k cache firstTry ev [] = some o) :
    OutcomeOk root t [ev] [] o := by
  obtain ⟨slot, hfind, hslot⟩ := h.findWatch he
  have hpath : slotPath cache slot = pathname root e.path := slotPath_of_getElem? hslot
  have hdo' : dirAppears root t visits k cache (pathname root e.path) name.1 = some o := by
    rw [← hdo, ← hpath]
    rcases hev with rfl | ⟨cookie, rfl⟩
    · simp only [processNextInotifyEvent, checkedWd, hfind, processEvent, if_true]
    · simp only [processNextInotifyEvent, checkedWd, hfind, processEvent, if_true]
  obtain ⟨k', cache', rfl, hstage⟩ := dirAppears_spec hroot h hL hmem hdo'
  exact hstage

lemma process_moving {gone : Option Entry}
    (h : Tracks root k gone L cache) {e' : Entry} (he : e ∈ L) (he' : e' ∈ L) {name' : Name}
    {cookie : ℕ}
    (hL : ((L.map (moved (e.path ++ [name]) (e'.path ++ [name']))).map dir).Perm t.dirs)
    (hgone : ∀ g ∈ gone, g.path ≠ [] ∧ ¬ e.path ++ [name] <+: g.path)
    {rest queue : List InotifyEvent}
    (hrest : rest ++ queue = .movedTo e'.wd true cookie name'.1 :: removalEvents gone)
    (htry : firstTry = false → rest = [] → queue = [])
    (hdo : processNextInotifyEvent root t visits k cache firstTry (.movedFrom e.wd true cookie
      name.1) rest = some o) :
    OutcomeOk root t (.movedFrom e.wd true cookie name.1 :: rest) queue o := by
  obtain ⟨slot, hfind, hslot⟩ := h.findWatch (mem_append_right _ he)
  obtain ⟨slot', hfind', hslot'⟩ := h.findWatch (mem_append_right _ he')
  cases rest with
  | nil =>
    cases firstTry with
    | false =>
      rw [htry rfl rfl] at hrest
      cases hrest
    | true =>
      simp only [processNextInotifyEvent, checkedWd, hfind, processEvent, if_true] at hdo
      cases hdo
      rfl
  | cons ev rest =>
    rw [cons_append] at hrest
    obtain ⟨rfl, hlater⟩ := List.cons.inj hrest
    simp only [processNextInotifyEvent, checkedWd, hfind, processEvent, hfind', if_true,
      slotPath_of_getElem? hslot, slotPath_of_getElem? hslot'] at hdo
    cases hdo
    have h' := h.rewriteCachedPaths hroot e.path e'.path name name' fun g hg => (hgone g hg).2
    change Stage _ _ _ _ (rest ++ (queue ++ []))
    rw [append_nil, hlater]
    cases gone with
    | none => exact .settled _ h' hL _ (by simp [removalEvents])
    | some g => exact .removing g _ h' hL fun hnil => absurd hnil (hgone g rfl).1

lemma process_leaving (h : Tracks root k none L cache) (he : e ∈ L) {cookie : ℕ}
    (hL : ((L.filter fun d => ¬ e.path ++ [name] <+: d.path).map dir).Perm t.dirs)
    (hdo : processNextInotifyEvent root t visits k cache firstTry (.movedFrom e.wd true cookie
      name.1) [] = some o) : OutcomeOk root t [.movedFrom e.wd true cookie name.1] [] o := by
  obtain ⟨slot, hfind, hslot⟩ := h.findWatch he
  simp only [processNextInotifyEvent, checkedWd, hfind, processEvent, if_true,
    slotPath_of_getElem? hslot] at hdo
  cases firstTry with
  | true =>
    cases hdo
    rfl
  | false =>
    obtain ⟨k', cache', evs, hzap, h', hevs⟩ := h.zapSubtree hroot (e.path ++ [name])
    rw [pathname_concat hroot] at hzap
    simp only [Bool.false_eq_true, if_false, dirLeaves, watch, hzap] at hdo
    cases hdo
    exact .settled _ h' hL _ hevs

/-- Each event leads from a stage to a stage.  When there was a second `read`, it got an event if
there was one. -/
lemma Stage.process {ev : InotifyEvent} {rest queue : List InotifyEvent}
    (hstage : Stage root t k cache (ev :: (rest ++ queue)))
    (htry : firstTry = false → rest = [] → queue = [])
    (hdo : processNextInotifyEvent root t visits k cache firstTry ev rest = some o) :
    OutcomeOk root t (ev :: rest) queue o := by
  generalize hall : ev :: (rest ++ queue) = evs at hstage
  cases hstage with
  | settled L h hL _ hevs =>
    subst hall
    obtain ⟨⟨wd, rfl⟩, hrest⟩ := forall_mem_cons.mp hevs
    cases hdo
    exact .settled L h hL _ (by simpa using hrest)
  | removing g L h hL hg =>
    obtain ⟨rfl, hrest⟩ := List.cons.inj hall
    obtain ⟨slot, hfind, hslot⟩ := h.findWatch (e := g) mem_cons_self
    simp only [processNextInotifyEvent, checkedWd, hfind, processEvent,
      slotPath_of_getElem? hslot] at hdo
    split at hdo
    next hpath =>
      cases hdo
      exact hg (pathname_injective hroot (of_decide_eq_true hpath))
    next =>
      cases hdo
      exact .settled L (h.markCacheSlotEmpty hslot) hL _ (by simp [hrest])
  | adding L h e he name hL hmem ev' hev =>
    obtain ⟨rfl, hrest⟩ := List.cons.inj hall
    obtain ⟨rfl, rfl⟩ := append_eq_nil_iff.mp hrest
    exact process_adding hroot h he hL hmem hev hdo
  | moving gone L h e e' he he' name name' cookie hL hgone =>
    obtain ⟨rfl, hrest⟩ := List.cons.inj hall
    exact process_moving hroot h he he' hL hgone hrest htry hdo
  | leaving L h e he name cookie hL =>
    obtain ⟨rfl, hrest⟩ := List.cons.inj hall
    obtain ⟨rfl, rfl⟩ := append_eq_nil_iff.mp hrest
    exact process_leaving hroot h he hL hdo
  | rootMoved L h e he hpath ht =>
    obtain ⟨rfl, -⟩ := List.cons.inj hall
    obtain ⟨slot, hfind, hslot⟩ := h.findWatch he
    have hroot' : slotPath cache slot = root := by
      rw [slotPath_of_getElem? hslot, watch, hpath]
      rfl
    simp only [processNextInotifyEvent, checkedWd, hfind, processEvent, hroot', isRootDirPath,
      decide_true, if_true] at hdo
    cases hdo
    exact ht

end

end Events

end UnixPrograms.Dtree
