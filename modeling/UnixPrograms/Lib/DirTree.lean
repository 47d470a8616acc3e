import Mathlib.Data.List.Infix
import Mathlib.Data.List.Nodup

/-!
# Trees of directories

A tree is a finite list of directories, each with the names on the way to it and an inode, closed
under taking the directory above.  Operations are put together from `subtree`, `prune` and `graft`.
-/

namespace UnixPrograms

open List

lemma find?_key_eq_some {α κ : Type} [DecidableEq κ] {key : α → κ} {l : List α}
    (hl : (l.map key).Nodup) {k : κ} {a : α} :
    l.find? (fun x => key x = k) = some a ↔ a ∈ l ∧ key a = k := by
  constructor
  · intro h
    exact ⟨mem_of_find?_eq_some h, by simpa using find?_some h⟩
  · rintro ⟨ha, rfl⟩
    cases h : l.find? fun x => key x = key a with
    | none => simpa using find?_eq_none.mp h a ha
    | some b =>
      have hb : key b = key a := by simpa using find?_some h
      rw [inj_on_of_nodup_map hl (mem_of_find?_eq_some h) ha hb]

/-- A tree of directories, with names of the type `ν`.  The directory at the top is `[]`. -/
structure DirTree (ν : Type) where
  /-- The directories: names from the top, and inode. -/
  dirs : List (List ν × ℕ)
  paths_nodup : (dirs.map Prod.fst).Nodup
  inodes_nodup : (dirs.map Prod.snd).Nodup
  /-- With a directory, all those above it are in the tree. -/
  closed : ∀ d ∈ dirs, ∀ p, p <+: d.1 → p ∈ dirs.map Prod.fst

namespace DirTree

variable {ν : Type}

def paths (t : DirTree ν) : List (List ν) := t.dirs.map Prod.fst

def inodes (t : DirTree ν) : List ℕ := t.dirs.map Prod.snd

def single (ν : Type) (ino : ℕ) : DirTree ν where
  dirs := [([], ino)]
  paths_nodup := nodup_singleton _
  inodes_nodup := nodup_singleton _
  closed d hd p hp := by
    obtain rfl := mem_singleton.mp hd
    exact mem_singleton.mpr (prefix_nil.mp hp)

variable {p dir : List ν} {t : DirTree ν} {d : List ν × ℕ} {name : ν}

lemma mem_paths : p ∈ t.paths ↔ ∃ i, (p, i) ∈ t.dirs := by
  rw [paths, mem_map]
  constructor
  · rintro ⟨⟨p, i⟩, hd, rfl⟩
    exact ⟨i, hd⟩
  · rintro ⟨i, hd⟩
    exact ⟨(p, i), hd, rfl⟩

lemma mem_inodes_of_mem (hd : d ∈ t.dirs) : d.2 ∈ t.inodes :=
  mem_map_of_mem hd

lemma eq_of_inode_eq {e : List ν × ℕ} (hd : d ∈ t.dirs) (he : e ∈ t.dirs) (h : d.2 = e.2) : d = e :=
  inj_on_of_nodup_map t.inodes_nodup hd he h

lemma eq_of_path_eq {e : List ν × ℕ} (hd : d ∈ t.dirs) (he : e ∈ t.dirs) (h : d.1 = e.1) : d = e :=
  inj_on_of_nodup_map t.paths_nodup hd he h

lemma mem_paths_of_entry (h : dir ++ [name] ∈ t.paths) : dir ∈ t.paths := by
  obtain ⟨i, hi⟩ := mem_paths.mp h
  exact t.closed _ hi dir (prefix_append dir [name])

lemma not_prefix_entry (dir : List ν) (name : ν) : ¬ dir ++ [name] <+: dir := by
  intro h
  have := h.length_le
  rw [length_append, length_singleton] at this
  omega

/-- The tree `sub` is put into the directory `dir` under a new name. -/
def graft (t sub : DirTree ν) (dir : List ν) (name : ν) (hdir : dir ∈ t.paths)
    (hfree : dir ++ [name] ∉ t.paths) (hino : ∀ i ∈ sub.inodes, i ∉ t.inodes) : DirTree ν where
  dirs := t.dirs ++ sub.dirs.map fun d => (dir ++ [name] ++ d.1, d.2)
  paths_nodup := by
    rw [map_append, map_map]
    refine nodup_append.mpr ⟨t.paths_nodup, ?_, ?_⟩
    · have hcomp : (Prod.fst ∘ fun d : List ν × ℕ => (dir ++ [name] ++ d.1, d.2)) =
          (dir ++ [name] ++ ·) ∘ Prod.fst := rfl
      rw [hcomp, ← map_map]
      exact sub.paths_nodup.map (append_right_injective _)
    · rintro p hp q hq rfl
      obtain ⟨d, -, rfl⟩ := mem_map.mp hq
      obtain ⟨e, he, hpath⟩ := mem_map.mp hp
      exact hfree (t.closed e he _ (hpath ▸ prefix_append _ _))
  inodes_nodup := by
    rw [map_append, map_map]
    refine nodup_append.mpr ⟨t.inodes_nodup, sub.inodes_nodup, ?_⟩
    rintro i hi j hj rfl
    exact hino i hj hi
  closed d hd q hq := by
    rw [map_append, mem_append]
    rcases mem_append.mp hd with hd | hd
    · exact .inl (t.closed d hd q hq)
    · obtain ⟨e, he, rfl⟩ := mem_map.mp hd
      have hnew : ∀ r, r <+: e.1 → dir ++ [name] ++ r ∈
          (sub.dirs.map fun d => (dir ++ [name] ++ d.1, d.2)).map Prod.fst := by
        intro r hr
        obtain ⟨e', he', rfl⟩ := mem_map.mp (sub.closed e he r hr)
        rw [map_map]
        exact mem_map.mpr ⟨e', he', rfl⟩
      -- `q` is the new directory, or below it, or above it
      rcases prefix_or_prefix_of_prefix hq (prefix_append _ _) with hq' | ⟨r, rfl⟩
      · rcases prefix_concat_iff.mp hq' with rfl | hq'
        · exact .inr (by simpa using hnew [] nil_prefix)
        · obtain ⟨e', he', rfl⟩ := mem_map.mp hdir
          exact .inl (t.closed e' he' q hq')
      · exact .inr (hnew r ((prefix_append_right_inj _).mp hq))

lemma mem_paths_graft {sub : DirTree ν} (hdir : dir ∈ t.paths) (hfree : dir ++ [name] ∉ t.paths)
    (hino : ∀ i ∈ sub.inodes, i ∉ t.inodes) (htop : [] ∈ sub.paths) :
    dir ++ [name] ∈ (t.graft sub dir name hdir hfree hino).paths := by
  obtain ⟨i, hi⟩ := mem_paths.mp htop
  refine mem_paths.mpr ⟨i, mem_append.mpr (.inr (mem_map.mpr ⟨_, hi, ?_⟩))⟩
  rw [append_nil]

variable [DecidableEq ν]

def inode (t : DirTree ν) (p : List ν) : Option ℕ := (t.dirs.find? fun d => d.1 = p).map Prod.snd

def below (t : DirTree ν) (p : List ν) : List (List ν × ℕ) := t.dirs.filter fun d => p <+: d.1

lemma inode_eq_some {i : ℕ} : t.inode p = some i ↔ (p, i) ∈ t.dirs := by
  rw [inode, Option.map_eq_some_iff]
  constructor
  · rintro ⟨d, hfind, rfl⟩
    obtain ⟨hd, rfl⟩ := (find?_key_eq_some t.paths_nodup).mp hfind
    exact hd
  · intro hd
    exact ⟨(p, i), (find?_key_eq_some t.paths_nodup).mpr ⟨hd, rfl⟩, rfl⟩

lemma inode_eq_none : t.inode p = none ↔ p ∉ t.paths := by
  rw [Option.eq_none_iff_forall_ne_some, mem_paths, not_exists]
  exact forall_congr' fun i => not_congr inode_eq_some

lemma mem_below : d ∈ t.below p ↔ d ∈ t.dirs ∧ p <+: d.1 := by
  rw [below, mem_filter, decide_eq_true_eq]

lemma below_nil (t : DirTree ν) : t.below [] = t.dirs :=
  filter_eq_self.mpr fun _ _ => decide_eq_true nil_prefix

def prune (t : DirTree ν) (p : List ν) : DirTree ν where
  dirs := t.dirs.filter fun d => ¬ p <+: d.1
  paths_nodup := t.paths_nodup.sublist (filter_sublist.map Prod.fst)
  inodes_nodup := t.inodes_nodup.sublist (filter_sublist.map Prod.snd)
  closed d hd q hq := by
    rw [mem_filter, decide_eq_true_eq] at hd
    obtain ⟨e, he, rfl⟩ := mem_map.mp (t.closed d hd.1 q hq)
    refine mem_map_of_mem (mem_filter.mpr ⟨he, ?_⟩)
    exact decide_eq_true fun hp => hd.2 (hp.trans hq)

def subtree (t : DirTree ν) (p : List ν) : DirTree ν where
  dirs := (t.below p).map fun d => (d.1.drop p.length, d.2)
  paths_nodup := by
    rw [map_map]
    refine List.Nodup.map_on (fun d hd e he h => ?_)
      (List.Nodup.of_map Prod.fst t.paths_nodup |>.filter _)
    obtain ⟨hd, r, hr⟩ := mem_below.mp hd
    obtain ⟨he, s, hs⟩ := mem_below.mp he
    refine eq_of_path_eq hd he ?_
    rw [← hr, ← hs]
    have hrs : r = s := by simpa [← hr, ← hs] using h
    rw [hrs]
  inodes_nodup := by
    rw [map_map]
    exact t.inodes_nodup.sublist (filter_sublist.map Prod.snd)
  closed d hd q hq := by
    obtain ⟨e, he, rfl⟩ := mem_map.mp hd
    obtain ⟨he, r, hr⟩ := mem_below.mp he
    have hqr : q <+: r := by simpa [← hr] using hq
    have hpq : p ++ q <+: e.1 := hr ▸ (prefix_append_right_inj p).mpr hqr
    obtain ⟨e', he', hpath⟩ := mem_map.mp (t.closed e he _ hpq)
    rw [map_map, mem_map]
    refine ⟨e', mem_below.mpr ⟨he', hpath ▸ prefix_append p q⟩, ?_⟩
    simp [hpath]

lemma prune_nil (t : DirTree ν) : (t.prune []).dirs = [] :=
  filter_eq_nil_iff.mpr fun _ _ h => of_decide_eq_true h nil_prefix

lemma mem_prune : d ∈ (t.prune p).dirs ↔ d ∈ t.dirs ∧ ¬ p <+: d.1 := by
  rw [prune, mem_filter, decide_eq_true_eq]

lemma perm_below_prune (t : DirTree ν) (p : List ν) :
    (t.below p ++ (t.prune p).dirs).Perm t.dirs := by
  have h := filter_append_perm (fun d : List ν × ℕ => decide (p <+: d.1)) t.dirs
  rw [below, prune]
  simpa only [decide_not] using h

lemma mem_paths_prune {q : List ν} : q ∈ (t.prune p).paths ↔ q ∈ t.paths ∧ ¬ p <+: q := by
  simp only [mem_paths, mem_prune, exists_and_right]

lemma below_of_not_mem (hp : p ∉ t.paths) : t.below p = [] :=
  filter_eq_nil_iff.mpr fun d hd h => hp (t.closed d hd p (of_decide_eq_true h))

lemma prune_of_not_mem (hp : p ∉ t.paths) : (t.prune p).dirs = t.dirs :=
  filter_eq_self.mpr fun d hd => decide_eq_true fun h => hp (t.closed d hd p h)

lemma perm_cons_prune {i : ℕ} (hd : (p, i) ∈ t.dirs) (hempty : ∀ d ∈ t.below p, d.1 = p) :
    ((p, i) :: (t.prune p).dirs).Perm t.dirs := by
  have hbelow : (t.below p).Perm [(p, i)] := by
    refine (perm_ext_iff_of_nodup ?_ (nodup_singleton _)).mpr fun d => ?_
    · exact (List.Nodup.of_map _ t.paths_nodup).filter _
    · rw [mem_singleton]
      constructor
      · exact fun h => eq_of_path_eq (mem_below.mp h).1 hd (hempty d h)
      · rintro rfl
        exact mem_below.mpr ⟨hd, prefix_rfl⟩
  exact (hbelow.symm.append_right _).trans (t.perm_below_prune p)

section Graft

variable {t sub : DirTree ν} {dir : List ν} {name : ν} (hdir : dir ∈ t.paths)
  (hfree : dir ++ [name] ∉ t.paths) (hino : ∀ i ∈ sub.inodes, i ∉ t.inodes)

lemma below_graft : (t.graft sub dir name hdir hfree hino).below (dir ++ [name]) =
    sub.dirs.map fun d => (dir ++ [name] ++ d.1, d.2) := by
  have hsub : (sub.dirs.map fun d => (dir ++ [name] ++ d.1, d.2)).filter
      (fun d => dir ++ [name] <+: d.1) = sub.dirs.map fun d => (dir ++ [name] ++ d.1, d.2) := by
    refine filter_eq_self.mpr fun d hd => decide_eq_true ?_
    obtain ⟨e, -, rfl⟩ := mem_map.mp hd
    exact prefix_append _ _
  rw [below, graft, filter_append, hsub]
  exact congrArg (· ++ _) (below_of_not_mem hfree)

lemma dirs_graft : (t.graft sub dir name hdir hfree hino).dirs =
    t.dirs ++ (t.graft sub dir name hdir hfree hino).below (dir ++ [name]) := by
  rw [below_graft]
  rfl

end Graft

/-- The tree `sub` is put into the directory `dir` under the name `name`.  An empty directory that
is there is replaced. -/
def replace (t sub : DirTree ν) (dir : List ν) (name : ν) (hdir : dir ∈ t.paths)
    (hino : ∀ i ∈ sub.inodes, i ∉ t.inodes) : DirTree ν :=
  (t.prune (dir ++ [name])).graft sub dir name
    (mem_paths_prune.mpr ⟨hdir, not_prefix_entry dir name⟩)
    (fun h => (mem_paths_prune.mp h).2 prefix_rfl)
    fun i hi h => hino i hi (by
      obtain ⟨d, hd, rfl⟩ := mem_map.mp h
      exact mem_inodes_of_mem (mem_prune.mp hd).1)

/-- The directory `p` is given the name `name` in the directory `dir`, which is not below it. -/
def rename (t : DirTree ν) (p dir : List ν) (name : ν) (hdir : dir ∈ t.paths)
    (hp : ¬ p <+: dir ++ [name]) : DirTree ν :=
  (t.prune p).replace (t.subtree p) dir name
    (mem_paths_prune.mpr ⟨hdir, fun h => hp (h.trans (prefix_append dir [name]))⟩)
      fun i hi h => by
      obtain ⟨d, hd, rfl⟩ := mem_map.mp hi
      obtain ⟨d, hbelow, rfl⟩ := mem_map.mp hd
      obtain ⟨e, he, heq⟩ := mem_map.mp h
      obtain ⟨hd, hprefix⟩ := mem_below.mp hbelow
      obtain ⟨he, hnot⟩ := mem_prune.mp he
      exact hnot (eq_of_inode_eq he hd heq ▸ hprefix)

lemma perm_rename (hdir : dir ∈ t.paths) (hp : ¬ p <+: dir ++ [name])
    (hempty : ∀ d ∈ t.below (dir ++ [name]), d.1 = dir ++ [name]) :
    ((t.prune (dir ++ [name])).dirs.map fun d =>
        if p <+: d.1 then (dir ++ [name] ++ d.1.drop p.length, d.2) else d).Perm
      (t.rename p dir name hdir hp).dirs := by
  have hbelow : (t.prune (dir ++ [name])).below p = t.below p := by
    rw [below, prune, filter_filter, below]
    refine filter_congr fun d hd => ?_
    rw [Bool.and_eq_left_iff_imp]
    intro h
    refine decide_eq_true fun h' => hp ?_
    rw [← hempty d (mem_below.mpr ⟨hd, h'⟩)]
    exact of_decide_eq_true h
  have hprune : ((t.prune (dir ++ [name])).prune p).dirs =
      ((t.prune p).prune (dir ++ [name])).dirs := by
    simp only [prune, filter_filter, Bool.and_comm]
  refine ((perm_below_prune (t.prune (dir ++ [name])) p).map _).symm.trans ?_
  rw [map_append, hbelow, hprune]
  refine perm_append_comm.trans (List.Perm.of_eq ?_)
  have hstay : ((t.prune p).prune (dir ++ [name])).dirs.map (fun d =>
      if p <+: d.1 then (dir ++ [name] ++ d.1.drop p.length, d.2) else d) =
        ((t.prune p).prune (dir ++ [name])).dirs := by
    refine (map_congr_left fun d hd => ?_).trans (map_id _)
    exact if_neg (mem_prune.mp (mem_prune.mp hd).1).2
  have hmove : (t.below p).map (fun d =>
      if p <+: d.1 then (dir ++ [name] ++ d.1.drop p.length, d.2) else d) =
        (t.subtree p).dirs.map fun d => (dir ++ [name] ++ d.1, d.2) := by
    rw [subtree, map_map]
    exact map_congr_left fun d hd => if_pos (mem_below.mp hd).2
  rw [hstay, hmove]
  rfl

end DirTree

end UnixPrograms
