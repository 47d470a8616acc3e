import UnixPrograms.Dtree.Model

/-!
# What the cache holds

`used` is what the cache holds; each function on the cache is described by what it does to that
list, up to a permutation.  `Tracks` ties the cache to the watches: both come from one list of
directories with descriptors, except for entries of directories that have been removed.
-/

namespace UnixPrograms.Dtree

open Function List

def used (cache : List Watch) : List Watch := cache.filter fun w => w.wd.isSome

variable {w : Watch} {cache : List Watch} {slot : ℕ}

lemma mem_used : w ∈ used cache ↔ w ∈ cache ∧ w.wd.isSome := by
  rw [used, mem_filter]

/-! ## The functions on the cache -/

lemma perm_used_set (h : cache[slot]? = some w) (v : Watch) :
    (used (w :: cache.set slot v)).Perm (used (v :: cache)) := by
  have hperm := getD_set_perm_cons cache slot v
  rw [h, Option.getD_some] at hperm
  exact hperm.filter _

lemma used_cons_some (h : w.wd.isSome) : used (w :: cache) = w :: used cache :=
  filter_cons_of_pos h

lemma used_cons_none (h : w.wd = none) : used (w :: cache) = used cache :=
  filter_cons_of_neg (by simp [h])

lemma findEmptyCacheSlot_spec (cache : List Watch) :
    ∃ w, (findEmptyCacheSlot cache).2[(findEmptyCacheSlot cache).1]? = some w ∧ w.wd = none ∧
      used (findEmptyCacheSlot cache).2 = used cache := by
  rw [findEmptyCacheSlot]
  split
  next slot hslot =>
    obtain ⟨hlt, hfree, -⟩ := findIdx?_eq_some_iff_getElem.mp hslot
    exact ⟨cache[slot], getElem?_eq_getElem hlt, of_decide_eq_true hfree, rfl⟩
  next =>
    refine ⟨emptyWatch, ?_, rfl, ?_⟩
    · rw [getElem?_append_right (Nat.le_refl _), Nat.sub_self]
      rfl
    · have hnone : used (replicate ALLOC_INCR emptyWatch) = [] :=
        filter_eq_nil_iff.mpr
          fun w hw => by rw [eq_of_mem_replicate hw]; simp [emptyWatch]
      rw [used, filter_append]
      exact (congrArg _ hnone).trans (append_nil _)

lemma perm_used_addWatchToCache (cache : List Watch) (wd : ℕ) (path : Bytes) :
    (used (addWatchToCache cache wd path)).Perm (⟨some wd, path⟩ :: used cache) := by
  obtain ⟨w, hw, hfree, hused⟩ := findEmptyCacheSlot_spec cache
  have h := perm_used_set hw ⟨some wd, path⟩
  rw [used_cons_none hfree, used_cons_some rfl, hused] at h
  exact h

lemma perm_used_markCacheSlotEmpty (h : cache[slot]? = some w) (hw : w.wd.isSome) :
    (w :: used (markCacheSlotEmpty cache slot)).Perm (used cache) := by
  have hset := perm_used_set h emptyWatch
  rw [used_cons_some hw, used_cons_none rfl] at hset
  exact hset

lemma findWatch_eq_none {wd : ℕ} :
    findWatch cache wd = none ↔ ∀ w ∈ used cache, w.wd ≠ some wd := by
  rw [findWatch, findIdx?_eq_none_iff]
  constructor
  · intro h w hw
    exact of_decide_eq_false (h w (mem_used.mp hw).1)
  · intro h w hw
    refine decide_eq_false fun heq => ?_
    exact h w (mem_used.mpr ⟨hw, by rw [heq]; rfl⟩) heq

lemma findWatch_of_mem {wd : ℕ} {path : Bytes} (hnodup : ((used cache).map Watch.wd).Nodup)
    (h : ⟨some wd, path⟩ ∈ used cache) :
    ∃ slot, findWatch cache wd = some slot ∧ cache[slot]? = some ⟨some wd, path⟩ := by
  cases hfind : findWatch cache wd with
  | none => exact absurd rfl (findWatch_eq_none.mp hfind _ h)
  | some slot =>
    obtain ⟨hlt, hwd, -⟩ := findIdx?_eq_some_iff_getElem.mp hfind
    have hwd : cache[slot].wd = some wd := of_decide_eq_true hwd
    have hmem : cache[slot] ∈ used cache := mem_used.mpr ⟨getElem_mem hlt, by rw [hwd]; rfl⟩
    have heq := inj_on_of_nodup_map hnodup hmem h hwd
    exact ⟨slot, rfl, by rw [getElem?_eq_getElem hlt, heq]⟩

lemma slotPath_of_getElem? (h : cache[slot]? = some w) : slotPath cache slot = w.path := by
  rw [slotPath, getD_eq_getElem?_getD, h, Option.getD_some]

lemma pathnameInCache_iff {path : Bytes} :
    pathnameInCache cache path = true ↔ ∃ w ∈ used cache, w.path = path := by
  simp only [pathnameInCache, any_eq_true, Bool.and_eq_true, decide_eq_true_eq, mem_used, and_assoc]

lemma used_rewriteCachedPaths (oldPathPrefix oldName newPathPrefix newName : Bytes)
    (cache : List Watch) :
    used (rewriteCachedPaths oldPathPrefix oldName newPathPrefix newName cache) =
      rewriteCachedPaths oldPathPrefix oldName newPathPrefix newName (used cache) := by
  rw [used, rewriteCachedPaths, filter_map, used, rewriteCachedPaths]
  refine congrArg _ (filter_congr fun w _ => ?_)
  rw [comp_apply]
  split <;> rfl

def zapped (path : Bytes) (cache : List Watch) : List (Option ℕ) :=
  ((used cache).filter fun w => isUnder path w.path).map Watch.wd

lemma zapSubtree_eq (path : Bytes) (k : Inotify) (cache : List Watch) :
    zapSubtree path k cache =
      let wds := (cache.filter fun w => AtOrBelow path w.path).filterMap Watch.wd
      (wds.foldlM Inotify.rmWatch k).map fun k => (k, cache.map fun w =>
        if w.wd.isSome ∧ AtOrBelow path w.path then emptyWatch else w, wds.map .ignored) := by
  induction cache generalizing k with
  | nil => rfl
  | cons w cache ih =>
    cases hwd : w.wd with
    | none =>
      by_cases hw : AtOrBelow path w.path <;>
        simp [zapSubtree, hwd, ih, hw, comp_def]
    | some wd =>
      by_cases hw : AtOrBelow path w.path
      · cases hrm : k.rmWatch wd <;>
          simp [zapSubtree, hwd, isUnder_iff, hw, hrm, ih, comp_def]
      · simp [zapSubtree, hwd, isUnder_iff, hw, ih, comp_def]

lemma zapped_eq (path : Bytes) (cache : List Watch) : zapped path cache =
    ((cache.filter fun w => AtOrBelow path w.path).filterMap Watch.wd).map some := by
  induction cache with
  | nil => rfl
  | cons w cache ih => cases hwd : w.wd <;> by_cases hw : AtOrBelow path w.path <;>
      simp_all [zapped, used, isUnder_iff]

lemma used_zapped (path : Bytes) (cache : List Watch) :
    used (cache.map fun w => if w.wd.isSome ∧ AtOrBelow path w.path then emptyWatch else w) =
      (used cache).filter fun w => !isUnder path w.path := by
  induction cache with
  | nil => rfl
  | cons w cache ih =>
    have hempty : emptyWatch.wd = none := rfl
    simp only [used, ← isUnder_iff, filter_filter] at ih ⊢
    cases hwd : w.wd <;> cases hw : isUnder path w.path <;> simp [hwd, hw, hempty, ih]

lemma zapSubtree_spec (path : Bytes) (cache : List Watch) (k : Inotify)
    (hnodup : ((used cache).map Watch.wd).Nodup)
    (hlive : ∀ o ∈ zapped path cache, ∃ m ∈ k.marks, o = some m.wd) :
    ∃ k' cache' evs, zapSubtree path k cache = some (k', cache', evs) ∧
      used cache' = (used cache).filter (fun w => !isUnder path w.path) ∧
      k'.marks = k.marks.filter (fun m => some m.wd ∉ zapped path cache) ∧
      ∀ ev ∈ evs, ∃ wd, ev = .ignored wd := by
  have hdistinct : (zapped path cache).Nodup := hnodup.sublist (filter_sublist.map _)
  rw [zapped_eq] at hlive hdistinct ⊢
  have hrm := Inotify.foldlM_rmWatch hdistinct.of_map fun wd hwd =>
    (hlive _ (mem_map_of_mem hwd)).imp fun m hm => ⟨hm.1, (Option.some.inj hm.2).symm⟩
  refine ⟨_, _, _, (zapSubtree_eq ..).trans (congrArg (Option.map _) hrm), used_zapped path cache,
    by simp [Inotify.keep], fun ev hev => ?_⟩
  obtain ⟨wd, -, rfl⟩ := mem_map.mp hev
  exact ⟨wd, rfl⟩

lemma resolve_pathname {root : Bytes} (hroot : root.getLast? ≠ some slash) {t : Tree}
    {p : List Name}
    (hp : p ∈ t.paths) : resolve root t (pathname root p) = some p := by
  have hpred : ∀ q : List Name,
      (components (pathname root p) = components root ++ q.map Subtype.val) ↔ id q = p := by
    intro q
    rw [components_pathname hroot, append_cancel_left_eq, eq_comm]
    exact (map_injective_iff.mpr Subtype.val_injective).eq_iff
  simp only [resolve, hpred]
  refine (find?_key_eq_some ?_).mpr ⟨hp, rfl⟩
  rw [map_id]
  exact t.paths_nodup

/-! ## The cache and the watches -/

structure Entry where
  wd : ℕ
  path : List Name
  ino : ℕ

namespace Entry

def dir (e : Entry) : Dir := (e.path, e.ino)

/-- The watch in the kernel.  `IN_MOVE_SELF` is watched for at the root. -/
def mark (e : Entry) : Inotify.Mark := ⟨e.wd, e.ino, e.path = []⟩

def watch (root : Bytes) (e : Entry) : Watch := ⟨some e.wd, pathname root e.path⟩

def moved (p q : List Name) (e : Entry) : Entry :=
  if p <+: e.path then { e with path := q ++ e.path.drop p.length } else e

lemma wd_comp_moved (p q : List Name) : wd ∘ moved p q = wd := by
  funext e
  rw [comp_apply, moved]
  split <;> rfl

lemma mark_comp_moved (dir dir' : List Name) (name name' : Name) :
    mark ∘ moved (dir ++ [name]) (dir' ++ [name']) = mark := by
  funext e
  rw [comp_apply, moved]
  split
  next h =>
    obtain ⟨r, hr⟩ := h
    simp [mark, ← hr]
  next => rfl

end Entry

/-- The entries with the new pathnames are those of the renamed directories. -/
lemma rewriteCachedPaths_watch {root : Bytes} (hroot : root.getLast? ≠ some slash)
    (dir dir' : List Name) (name name' : Name) (L : List Entry) :
    rewriteCachedPaths (pathname root dir) name.1 (pathname root dir') name'.1
      (L.map (Entry.watch root)) =
      (L.map (Entry.moved (dir ++ [name]) (dir' ++ [name']))).map (Entry.watch root) := by
  rw [rewriteCachedPaths, ← pathname_concat hroot, ← pathname_concat hroot, map_map, map_map]
  refine map_congr_left fun e _ => ?_
  have hunder := isUnder_pathname hroot (dir ++ [name]) e.path
  rw [comp_apply, comp_apply, Entry.moved]
  by_cases h : dir ++ [name] <+: e.path
  · rw [if_pos h, Entry.watch, if_pos (hunder.mpr h)]
    obtain ⟨r, hr⟩ := h
    rw [← hr, pathname_append hroot, drop_left, drop_left]
    exact congrArg (Watch.mk (some e.wd)) (pathname_append hroot (dir' ++ [name']) r).symm
  · rw [if_neg h, Entry.watch, if_neg (mt hunder.mp h)]

/-- The live watches are those of the directories `L`, and the cache holds these and the one that is
`gone`. -/
structure Tracks (root : Bytes) (k : Inotify) (gone : Option Entry) (L : List Entry)
    (cache : List Watch) : Prop where
  marks : k.marks.Perm (L.map Entry.mark)
  used : (used cache).Perm ((gone.toList ++ L).map (Entry.watch root))
  wds_nodup : ((gone.toList ++ L).map Entry.wd).Nodup

namespace Tracks

variable {root : Bytes} {k : Inotify} {gone : Option Entry} {L : List Entry} {cache : List Watch}

lemma mark_mem (h : Tracks root k gone L cache) {e : Entry} (he : e ∈ L) : e.mark ∈ k.marks :=
  h.marks.mem_iff.mpr (mem_map_of_mem he)

lemma used_wds_nodup (h : Tracks root k gone L cache) :
    ((Dtree.used cache).map Watch.wd).Nodup := by
  refine (h.used.map Watch.wd).nodup_iff.mpr ?_
  have hcomp : ((gone.toList ++ L).map (Entry.watch root)).map Watch.wd =
      ((gone.toList ++ L).map Entry.wd).map some := by
    rw [map_map, map_map]
    rfl
  rw [hcomp]
  exact h.wds_nodup.map fun _ _ heq => Option.some.inj heq

lemma findWatch (h : Tracks root k gone L cache) {e : Entry} (he : e ∈ gone.toList ++ L) :
    ∃ slot, findWatch cache e.wd = some slot ∧ cache[slot]? = some (e.watch root) :=
  findWatch_of_mem h.used_wds_nodup (h.used.mem_iff.mpr (mem_map_of_mem he))

lemma pathnameInCache_iff (hroot : root.getLast? ≠ some slash) (h : Tracks root k none L cache)
    (p : List Name) : pathnameInCache cache (pathname root p) = true ↔ ∃ e ∈ L, e.path = p := by
  rw [Dtree.pathnameInCache_iff]
  constructor
  · rintro ⟨w, hw, hpath⟩
    obtain ⟨e, he, rfl⟩ := mem_map.mp (h.used.mem_iff.mp hw)
    exact ⟨e, he, pathname_injective hroot hpath⟩
  · rintro ⟨e, he, rfl⟩
    exact ⟨e.watch root, h.used.mem_iff.mpr (mem_map_of_mem he), rfl⟩

lemma markCacheSlotEmpty {g : Entry} (h : Tracks root k (some g) L cache) {slot : ℕ}
    (hslot : cache[slot]? = some (g.watch root)) :
    Tracks root k none L (markCacheSlotEmpty cache slot) where
  marks := h.marks
  used := ((perm_used_markCacheSlotEmpty hslot rfl).trans h.used).cons_inv
  wds_nodup := (nodup_cons.mp h.wds_nodup).2

section

variable (hroot : root.getLast? ≠ some slash)
include hroot

lemma traverseTree (h : Tracks root k none L cache) (d : Dir) (hd : ∀ e ∈ L, e.ino ≠ d.2) :
    ∃ k' cache', traverseTree root (pathname root d.1) d.2
    (k, cache) = (k', cache') ∧
      Tracks root k' none (L ++ [⟨k.nextWd, d.1, d.2⟩]) cache' := by
  have hnone : k.mark? d.2 = none := by
    refine Inotify.mark?_eq_none.mpr fun w hw => ?_
    obtain ⟨e, he, rfl⟩ := mem_map.mp (h.marks.mem_iff.mp hw)
    exact hd e he
  have hlt : ∀ e ∈ L, e.wd < k.nextWd := fun e he => k.wd_lt _ (h.mark_mem he)
  have hfresh : Dtree.findWatch cache k.nextWd = none := by
    refine findWatch_eq_none.mpr fun w hw heq => ?_
    obtain ⟨e, he, rfl⟩ := mem_map.mp (h.used.mem_iff.mp hw)
    exact absurd (Option.some.inj heq) (Nat.ne_of_lt (hlt e he))
  have hflag : isRootDirPath root (pathname root d.1) = decide (d.1 = []) :=
    decide_eq_decide.mpr ((pathname_injective hroot).eq_iff' rfl)
  have hrun : Dtree.traverseTree root (pathname root d.1) d.2 (k, cache) =
      (k.push d.2 (d.1 = []) hnone, addWatchToCache cache k.nextWd (pathname root d.1)) := by
    rw [Dtree.traverseTree, hflag, Inotify.addWatch_of_none hnone]
    simp only [hfresh]
    rfl
  refine ⟨_, _, hrun, ?_, ?_, ?_⟩
  · rw [map_append]
    exact h.marks.append_right _
  · refine (perm_used_addWatchToCache _ _ _).trans ((h.used.cons _).trans ?_)
    rw [Option.toList_none, nil_append, nil_append, map_append]
    exact (perm_append_singleton _ _).symm
  · rw [Option.toList_none, nil_append, map_append]
    refine nodup_append.mpr ⟨h.wds_nodup, nodup_singleton _, fun i hi j hj => ?_⟩
    obtain ⟨e, he, rfl⟩ := mem_map.mp hi
    obtain rfl := mem_singleton.mp hj
    exact Nat.ne_of_lt (hlt e he)

lemma foldl_traverseTree (visits : List Dir) (hnodup : (visits.map Prod.snd).Nodup)
    (h : Tracks root k none L cache) (hnew : ∀ d ∈ visits, ∀ e ∈ L, e.ino ≠ d.2) :
    ∃ new : List Entry, new.map Entry.dir = visits ∧ ∃ k' cache',
      visits.foldl (fun s d => Dtree.traverseTree root (pathname root d.1) d.2 s)
        (k, cache) = (k', cache') ∧
      Tracks root k' none (L ++ new) cache' := by
  induction visits generalizing k L cache with
  | nil => exact ⟨[], rfl, k, cache, rfl, by rwa [append_nil]⟩
  | cons d visits ih =>
    rw [map_cons, nodup_cons] at hnodup
    obtain ⟨k₁, cache₁, heq, h₁⟩ := h.traverseTree hroot d (hnew d mem_cons_self)
    have hnew₁ : ∀ d' ∈ visits, ∀ e ∈ L ++ [⟨k.nextWd, d.1, d.2⟩], e.ino ≠ d'.2 := by
      intro d' hd' e he
      rcases mem_append.mp he with he | he
      · exact hnew d' (mem_cons_of_mem d hd') e he
      · obtain rfl := mem_singleton.mp he
        exact fun hino => hnodup.1 (mem_map.mpr ⟨d', hd', hino.symm⟩)
    obtain ⟨new, hvisits, k', cache', hfold, h'⟩ := ih hnodup.2 h₁ hnew₁
    refine ⟨⟨k.nextWd, d.1, d.2⟩ :: new, ?_, k', cache', ?_, ?_⟩
    · rw [map_cons, hvisits]
      rfl
    · rw [foldl_cons, heq, hfold]
    · rwa [append_assoc] at h'

lemma watchSubtree (h : Tracks root k none L cache) {t : Tree} {p : List Name} (hp : p ∈ t.paths)
    (hnew : ∀ d ∈ t.below p, ∀ e ∈ L, e.ino ≠ d.2) {visits : List Dir}
    (hvisits : visits.Perm (t.below p)) :
    ∃ new k' cache', watchSubtree root t (pathname root p) visits k cache = some (k', cache') ∧
      (new.map Entry.dir).Perm (t.below p) ∧ Tracks root k' none (L ++ new) cache' := by
  have hnodup : (visits.map Prod.snd).Nodup :=
    (hvisits.map Prod.snd).nodup_iff.mpr (t.inodes_nodup.sublist (filter_sublist.map _))
  obtain ⟨new, hdirs, k', cache', hfold, h'⟩ := h.foldl_traverseTree hroot visits hnodup
    fun d hd => hnew d (hvisits.mem_iff.mp hd)
  refine ⟨new, k', cache', ?_, hdirs ▸ hvisits, h'⟩
  simp only [Dtree.watchSubtree, resolve_pathname hroot hp, if_pos hvisits]
  rw [← hfold]
  refine congrArg some (foldl_ext _ _ _ fun s d hd => ?_)
  obtain ⟨r, hr⟩ := (DirTree.mem_below.mp (hvisits.mem_iff.mp hd)).2
  rw [stripSlashes_of_ne (getLast?_pathname hroot p), pathname_pathname, ← hr, drop_left]

lemma rewriteCachedPaths (h : Tracks root k gone L cache) (dir dir' : List Name)
    (name name' : Name) (hgone : ∀ g ∈ gone, ¬ dir ++ [name] <+: g.path) :
    Tracks root k gone (L.map (Entry.moved (dir ++ [name]) (dir' ++ [name'])))
      (rewriteCachedPaths (pathname root dir) name.1 (pathname root dir') name'.1 cache) := by
  have hkeep : gone.toList.map (Entry.moved (dir ++ [name]) (dir' ++ [name'])) = gone.toList := by
    refine (map_congr_left fun g hg => ?_).trans (map_id _)
    exact if_neg (hgone g (Option.mem_toList.mp hg))
  refine ⟨?_, ?_, ?_⟩
  · rw [map_map, Entry.mark_comp_moved]
    exact h.marks
  · rw [used_rewriteCachedPaths]
    refine (h.used.map _).trans ?_
    rw [← Dtree.rewriteCachedPaths, rewriteCachedPaths_watch hroot, map_append, hkeep]
  · rw [← hkeep, ← map_append, map_map, Entry.wd_comp_moved]
    exact h.wds_nodup

lemma zapSubtree (h : Tracks root k none L cache) (p : List Name) :
    ∃ k' cache' evs, zapSubtree (pathname root p) k cache = some (k', cache', evs) ∧
      Tracks root k' none (L.filter fun e => ¬ p <+: e.path) cache' ∧
        ∀ ev ∈ evs, ∃ wd, ev = .ignored wd := by
  have hunder : ∀ e : Entry, isUnder (pathname root p) (e.watch root).path =
      decide (p <+: e.path) :=
    fun e => Bool.eq_iff_iff.mpr ((isUnder_pathname hroot p e.path).trans (decide_eq_true_iff).symm)
  have hzapped : ∀ o, o ∈ zapped (pathname root p) cache ↔ ∃ e ∈ L, p <+: e.path ∧
      o = some e.wd := by
    intro o
    rw [zapped, ((h.used.filter _).map _).mem_iff]
    simp only [Option.toList_none, nil_append, mem_map, mem_filter]
    constructor
    · rintro ⟨w, ⟨⟨e, he, rfl⟩, hw⟩, rfl⟩
      exact ⟨e, he, of_decide_eq_true ((hunder e).symm.trans hw), rfl⟩
    · rintro ⟨e, he, hp, rfl⟩
      exact ⟨e.watch root, ⟨⟨e, he, rfl⟩, (hunder e).trans (decide_eq_true hp)⟩, rfl⟩
  obtain ⟨k', cache', evs, heq, hused, hmarks, hevs⟩ :=
    zapSubtree_spec (pathname root p) cache k h.used_wds_nodup
    fun o ho => by
      obtain ⟨e, he, -, rfl⟩ := (hzapped o).mp ho
      exact ⟨e.mark, h.mark_mem he, rfl⟩
  refine ⟨k', cache', evs, heq, ⟨?_, ?_, ?_⟩, hevs⟩
  · rw [hmarks]
    refine (h.marks.filter _).trans (List.Perm.of_eq ?_)
    rw [filter_map]
    refine congrArg _ (filter_congr fun e he => ?_)
    rw [comp_apply]
    refine decide_eq_decide.mpr (not_congr ((hzapped _).trans ⟨?_, fun hp => ⟨e, he, hp, rfl⟩⟩))
    rintro ⟨e', he', hp, hwd⟩
    rw [inj_on_of_nodup_map h.wds_nodup he he' (Option.some.inj hwd)]
    exact hp
  · rw [hused]
    refine (h.used.filter _).trans (List.Perm.of_eq ?_)
    rw [Option.toList_none, nil_append, nil_append, filter_map]
    refine congrArg _ (filter_congr fun e _ => ?_)
    rw [comp_apply, hunder, decide_not]
  · exact h.wds_nodup.sublist (filter_sublist.map _)

end

end Tracks

/-! ## Renaming -/

def rewritten (old new : Bytes) (w : Watch) : Watch :=
  if isUnder old w.path then { w with path := new ++ w.path.drop old.length } else w

lemma rewritten_of_not {old new : Bytes} {w : Watch} (h : ¬AtOrBelow old w.path) :
    rewritten old new w = w :=
  if_neg (isUnder_iff.not.mpr h)

lemma rewritten_append {old new rest : Bytes} {wd : Option ℕ} (h : AtOrBelow old (old ++ rest)) :
    rewritten old new ⟨wd, old ++ rest⟩ = ⟨wd, new ++ rest⟩ := by
  rw [rewritten, if_pos (isUnder_iff.mpr h), drop_left]

lemma atOrBelow_append {dir dir' rest : Bytes} :
    AtOrBelow dir (dir ++ rest) ↔ AtOrBelow dir' (dir' ++ rest) := by
  rw [← isUnder_iff, isUnder_append, ← isUnder_iff, isUnder_append]

lemma rewritten_rewritten {old new : Bytes} {w : Watch} (h : ¬AtOrBelow new w.path) :
    rewritten new old (rewritten old new w) = w := by
  by_cases hw : AtOrBelow old w.path
  · obtain ⟨wd, path⟩ := w
    obtain ⟨rest, rfl⟩ : ∃ rest, path = old ++ rest :=
      hw.elim (fun h => ⟨[], by simpa using h⟩) fun ⟨rest, h⟩ => ⟨_, h⟩
    rw [rewritten_append hw, rewritten_append (atOrBelow_append.mp hw)]
  · rw [rewritten_of_not hw, rewritten_of_not h]

/-- `rewriteCachedPaths` changes just the entries at or below the old path, and `zapSubtree` empties
just those at or below its path. -/
theorem renames_exact (oldPathPrefix oldName newPathPrefix newName : Bytes)
    (cache : List Watch) (path : Bytes) (k : Inotify) :
    let old := oldPathPrefix ++ slash :: oldName
    let new := newPathPrefix ++ slash :: newName
    let cache' := rewriteCachedPaths oldPathPrefix oldName newPathPrefix newName cache
    cache'.length = cache.length ∧
    (∀ (i : ℕ) (w w' : Watch), cache[i]? = some w → cache'[i]? = some w' → w'.wd = w.wd ∧
      (∀ rest, w.path = old ++ rest → AtOrBelow old w.path → w'.path = new ++ rest) ∧
      (¬AtOrBelow old w.path → w' = w)) ∧
    (∀ c rest, c ≠ slash → ¬AtOrBelow old (old ++ c :: rest)) ∧
    (zapSubtree path k cache =
      let wds := (cache.filter fun w => AtOrBelow path w.path).filterMap Watch.wd
      (wds.foldlM Inotify.rmWatch k).map fun k => (k, cache.map fun w =>
        if w.wd.isSome ∧ AtOrBelow path w.path then emptyWatch else w, wds.map .ignored)) ∧
    ((∀ w ∈ cache, ¬AtOrBelow new w.path) →
      rewriteCachedPaths newPathPrefix newName oldPathPrefix oldName cache' = cache) := by
  intro old new cache'
  refine ⟨length_map _, fun i w w' hw hw' => ?_, fun c rest hc => ?_, zapSubtree_eq path k cache,
    fun hnew => ?_⟩
  · have hmap : cache'[i]? = cache[i]?.map (rewritten old new) := getElem?_map ..
    rw [hw, hw'] at hmap
    obtain rfl := Option.some.inj hmap
    refine ⟨by rw [rewritten]; split <;> rfl, fun rest hrest hbelow => ?_, rewritten_of_not⟩
    obtain ⟨wd, path⟩ := w
    obtain rfl : path = old ++ rest := hrest
    rw [rewritten_append hbelow]
  · rw [← isUnder_iff, isUnder_append]
    simpa using hc
  · exact (map_map ..).trans ((map_congr_left fun w hw => rewritten_rewritten (hnew w hw)).trans
      (map_id cache))

end UnixPrograms.Dtree
