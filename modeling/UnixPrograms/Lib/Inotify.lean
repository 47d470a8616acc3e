import UnixPrograms.Lib.DirTree
import UnixPrograms.Lib.Pathnames

/-!
# Watches on directories

A watch is for an inode, stays with it when a directory is renamed, and goes when it is removed.  No
two watches have the same descriptor or inode.  `DirOp.apply` says what an operation on a tree does
to the tree and to the watches, and which events come from it.
-/

namespace UnixPrograms

open List

inductive InotifyEvent where
  | create (wd : ℕ) (isDir : Bool) (name : Bytes)
  | movedFrom (wd : ℕ) (isDir : Bool) (cookie : ℕ) (name : Bytes)
  | movedTo (wd : ℕ) (isDir : Bool) (cookie : ℕ) (name : Bytes)
  | deleteSelf (wd : ℕ)
  | moveSelf (wd : ℕ)
  | ignored (wd : ℕ)
  | unmount (wd : ℕ)
  | qOverflow
  deriving DecidableEq

structure Inotify.Mark where
  wd : ℕ
  ino : ℕ
  /-- `IN_MOVE_SELF` is in the mask.  The other events are in that of all watches. -/
  moveSelf : Bool
  deriving DecidableEq

structure Inotify where
  marks : List Inotify.Mark
  nextWd : ℕ
  wds_nodup : (marks.map Inotify.Mark.wd).Nodup
  inos_nodup : (marks.map Inotify.Mark.ino).Nodup
  wd_lt : ∀ w ∈ marks, w.wd < nextWd

namespace Inotify

def mark? (k : Inotify) (ino : ℕ) : Option Mark := k.marks.find? fun w => w.ino = ino

/-- The descriptor of the watch of an inode. -/
def wd? (k : Inotify) (ino : ℕ) : Option ℕ := (k.mark? ino).map Mark.wd

def init : Inotify := ⟨[], 1, nodup_nil, nodup_nil, fun _ h => absurd h not_mem_nil⟩

def keep (k : Inotify) (p : Mark → Bool) : Inotify where
  marks := k.marks.filter p
  nextWd := k.nextWd
  wds_nodup := k.wds_nodup.sublist (filter_sublist.map _)
  inos_nodup := k.inos_nodup.sublist (filter_sublist.map _)
  wd_lt w hw := k.wd_lt w (mem_of_mem_filter hw)

def setMask (k : Inotify) (ino : ℕ) (moveSelf : Bool) : Inotify where
  marks := k.marks.map fun w => ⟨w.wd, w.ino, if w.ino = ino then moveSelf else w.moveSelf⟩
  nextWd := k.nextWd
  wds_nodup := by rw [map_map]; exact k.wds_nodup
  inos_nodup := by rw [map_map]; exact k.inos_nodup
  wd_lt w hw := by
    obtain ⟨v, hv, rfl⟩ := mem_map.mp hw
    exact k.wd_lt v hv

def push (k : Inotify) (ino : ℕ) (moveSelf : Bool) (hino : k.mark? ino = none) : Inotify where
  marks := k.marks ++ [⟨k.nextWd, ino, moveSelf⟩]
  nextWd := k.nextWd + 1
  wds_nodup := by
    rw [map_append, map_singleton, ← concat_eq_append]
    refine List.Nodup.concat (fun h => ?_) k.wds_nodup
    obtain ⟨w, hw, heq⟩ := mem_map.mp h
    exact absurd heq (Nat.ne_of_lt (k.wd_lt w hw))
  inos_nodup := by
    rw [map_append, map_singleton, ← concat_eq_append]
    refine List.Nodup.concat (fun h => ?_) k.inos_nodup
    obtain ⟨w, hw, heq⟩ := mem_map.mp h
    exact find?_eq_none.mp hino w hw (decide_eq_true heq)
  wd_lt w hw := by
    rcases mem_append.mp hw with hw | hw
    · exact Nat.lt_succ_of_lt (k.wd_lt w hw)
    · obtain rfl := mem_singleton.mp hw
      exact Nat.lt_succ_self _

/-- `inotify_add_watch`.  An inode that is watched keeps its watch, with the new mask. -/
def addWatch (k : Inotify) (ino : ℕ) (moveSelf : Bool) : ℕ × Inotify :=
  match h : k.mark? ino with
  | some w => (w.wd, k.setMask ino moveSelf)
  | none => (k.nextWd, k.push ino moveSelf h)

/-- `inotify_rm_watch`, or `none` if there is no such watch. -/
def rmWatch (k : Inotify) (wd : ℕ) : Option Inotify :=
  if k.marks.any fun w => w.wd = wd then some (k.keep fun w => w.wd ≠ wd) else none

def notify (k : Inotify) (ino : Option ℕ) (e : ℕ → InotifyEvent) : List InotifyEvent :=
  ((ino.bind k.wd?).map e).toList

def notifyMoveSelf (k : Inotify) (ino : Option ℕ) : List InotifyEvent :=
  (((ino.bind k.mark?).filter Mark.moveSelf).map fun w => .moveSelf w.wd).toList

/-- The directory is removed, if it is there: the events, and the watches that are left. -/
def remove (k : Inotify) (ino : Option ℕ) : List InotifyEvent × Inotify :=
  match ino.bind k.mark? with
  | some w => ([.deleteSelf w.wd, .ignored w.wd], k.keep fun v => v.wd ≠ w.wd)
  | none => ([], k)

variable {w : Mark} {ino : ℕ} {k : Inotify}

lemma mark?_eq_some : k.mark? ino = some w ↔ w ∈ k.marks ∧ w.ino = ino :=
  find?_key_eq_some k.inos_nodup

lemma mark?_eq_none : k.mark? ino = none ↔ ∀ w ∈ k.marks, w.ino ≠ ino := by
  simp [mark?]

lemma mark?_of_mem (hw : w ∈ k.marks) : k.mark? w.ino = some w :=
  mark?_eq_some.mpr ⟨hw, rfl⟩

lemma wd?_of_mem (hw : w ∈ k.marks) : k.wd? w.ino = some w.wd := by
  rw [wd?, mark?_of_mem hw, Option.map_some]

lemma addWatch_of_none (h : k.mark? ino = none) (moveSelf : Bool) :
    k.addWatch ino moveSelf = (k.nextWd, k.push ino moveSelf h) := by
  unfold addWatch
  split
  · simp_all
  · rfl

lemma notify_of_mem (hw : w ∈ k.marks) (e : ℕ → InotifyEvent) :
    k.notify (some w.ino) e = [e w.wd] := by
  rw [notify, Option.bind_some, wd?_of_mem hw]
  rfl

lemma notifyMoveSelf_of_mem (hw : w ∈ k.marks) :
    k.notifyMoveSelf (some w.ino) = if w.moveSelf then [.moveSelf w.wd] else [] := by
  rw [notifyMoveSelf, Option.bind_some, mark?_of_mem hw]
  cases h : w.moveSelf <;> simp [Option.filter, h]

lemma notifyMoveSelf_of_none (h : k.mark? ino = none) : k.notifyMoveSelf (some ino) = [] := by
  rw [notifyMoveSelf, Option.bind_some, h]
  rfl

lemma remove_of_mem (hw : w ∈ k.marks) :
    k.remove (some w.ino) = ([.deleteSelf w.wd, .ignored w.wd], k.keep fun v => v.wd ≠ w.wd) := by
  rw [remove, Option.bind_some, mark?_of_mem hw]

@[simp] lemma remove_none (k : Inotify) : k.remove none = ([], k) := rfl

lemma rmWatch_of_mem (hw : w ∈ k.marks) : k.rmWatch w.wd = some (k.keep fun v => v.wd ≠ w.wd) := by
  rw [rmWatch, if_pos]
  exact any_eq_true.mpr ⟨w, hw, decide_eq_true rfl⟩

lemma foldlM_rmWatch {k : Inotify} {wds : List ℕ} (hnodup : wds.Nodup)
    (hlive : ∀ wd ∈ wds, ∃ w ∈ k.marks, w.wd = wd) :
    wds.foldlM rmWatch k = some (k.keep fun w => w.wd ∉ wds) := by
  induction wds generalizing k with
  | nil => simp [keep]
  | cons wd wds ih =>
    obtain ⟨w, hw, rfl⟩ := hlive wd mem_cons_self
    obtain ⟨hnew, hnodup⟩ := nodup_cons.mp hnodup
    rw [foldlM_cons, rmWatch_of_mem hw, Option.bind_eq_bind, Option.bind_some, ih hnodup]
    · simp [keep, Bool.and_comm]
    · intro wd hwd
      obtain ⟨v, hv, rfl⟩ := hlive wd (mem_cons_of_mem _ hwd)
      exact ⟨v, mem_filter.mpr ⟨hv, decide_eq_true fun heq => hnew (heq ▸ hwd)⟩, rfl⟩

end Inotify

/-! ## Operations on directories -/

inductive DirOp where
  /-- A directory with the inode `ino` is created. -/
  | mkdir (dir : List Name) (name : Name) (ino : ℕ)
  | rmdir (dir : List Name) (name : Name)
  /-- A directory of the tree is renamed within the tree. -/
  | rename (dir : List Name) (name : Name) (dir' : List Name) (name' : Name)
  /-- A directory of the tree is renamed to a place outside. -/
  | moveOut (dir : List Name) (name : Name)
  /-- A directory with all below it is renamed into the tree. -/
  | moveIn (sub : DirTree Name) (dir : List Name) (name : Name)
  | rmdirRoot
  | moveRoot

/-- The directory at `p` has no entries, or there is none. -/
def EmptyAt (t : DirTree Name) (p : List Name) : Prop := ∀ d ∈ t.below p, d.1 = p

instance (t : DirTree Name) (p : List Name) : Decidable (EmptyAt t p) :=
  inferInstanceAs (Decidable (∀ d ∈ t.below p, d.1 = p))

/-- The operation, if it is possible: the tree and the watches after it, and the events in the order
in which the kernel sends them.  A rename to a place in the tree may replace an empty directory. -/
def DirOp.apply (t : DirTree Name) (k : Inotify) (cookie : ℕ) :
    DirOp → Option (DirTree Name × Inotify × List InotifyEvent)
  | .mkdir dir name ino =>
    if h : dir ∈ t.paths ∧ dir ++ [name] ∉ t.paths ∧ ino ∉ t.inodes ∧ k.mark? ino = none then
      some (t.graft (.single Name ino) dir name h.1 h.2.1 fun i hi => by
          obtain rfl : i = ino := mem_singleton.mp hi
          exact h.2.2.1,
        k, k.notify (t.inode dir) fun wd => .create wd true name.1)
    else none
  | .rmdir dir name =>
    if dir ++ [name] ∈ t.paths ∧ EmptyAt t (dir ++ [name]) then
      some (t.prune (dir ++ [name]), (k.remove (t.inode (dir ++ [name]))).2,
        (k.remove (t.inode (dir ++ [name]))).1)
    else none
  | .rename dir name dir' name' =>
    if h : dir ++ [name] ∈ t.paths ∧ dir' ∈ t.paths ∧ ¬ dir ++ [name] <+: dir' ++ [name'] ∧
        EmptyAt t (dir' ++ [name']) then
      some (t.rename (dir ++ [name]) dir' name' h.2.1 h.2.2.1,
        (k.remove (t.inode (dir' ++ [name']))).2,
        k.notify (t.inode dir) (fun wd => .movedFrom wd true cookie name.1) ++
          k.notify (t.inode dir') (fun wd => .movedTo wd true cookie name'.1) ++
          k.notifyMoveSelf (t.inode (dir ++ [name])) ++ (k.remove (t.inode (dir' ++ [name']))).1)
    else none
  | .moveOut dir name =>
    if dir ++ [name] ∈ t.paths then
      some (t.prune (dir ++ [name]), k,
        k.notify (t.inode dir) (fun wd => .movedFrom wd true cookie name.1) ++
          k.notifyMoveSelf (t.inode (dir ++ [name])))
    else none
  | .moveIn sub dir name =>
    if h : dir ∈ t.paths ∧ EmptyAt t (dir ++ [name]) ∧ [] ∈ sub.paths ∧
        ∀ i ∈ sub.inodes, i ∉ t.inodes then
      some (t.replace sub dir name h.1 h.2.2.2, (k.remove (t.inode (dir ++ [name]))).2,
        k.notify (t.inode dir) (fun wd => .movedTo wd true cookie name.1) ++
          k.notifyMoveSelf (sub.inode []) ++ (k.remove (t.inode (dir ++ [name]))).1)
    else none
  | .rmdirRoot =>
    if [] ∈ t.paths ∧ EmptyAt t [] then
      some (t.prune [], (k.remove (t.inode [])).2, (k.remove (t.inode [])).1)
    else none
  | .moveRoot =>
    if [] ∈ t.paths then some (t.prune [], k, k.notifyMoveSelf (t.inode [])) else none

end UnixPrograms
