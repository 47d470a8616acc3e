import UnixPrograms.Lib.Inotify
import UnixPrograms.Lib.Runs
import Mathlib.Data.List.Perm.Basic

/-!
# A cache of the directories below a root

`inotify_dtree` keeps a cache with the watch descriptor and the pathname of each directory of a
tree, updated from the events of `inotify`.  One root is watched, and all events of an operation are
processed before the next (`step`).  Pathnames are not cut off at `PATH_MAX`, and the queue of
events does not overflow.
-/

namespace UnixPrograms.Dtree

abbrev Tree := DirTree Name

abbrev Dir := List Name × ℕ

/-! ## The cache -/

/-- `struct watch`.  The slot is not used if there is no watch descriptor. -/
structure Watch where
  wd : Option ℕ
  path : Bytes
  deriving DecidableEq

def emptyWatch : Watch := ⟨none, []⟩

def ALLOC_INCR : ℕ := 200

def findWatch (cache : List Watch) (wd : ℕ) : Option ℕ := cache.findIdx? fun w => w.wd = some wd

def markCacheSlotEmpty (cache : List Watch) (slot : ℕ) : List Watch := cache.set slot emptyWatch

def slotPath (cache : List Watch) (slot : ℕ) : Bytes := (cache.getD slot emptyWatch).path

/-- `findEmptyCacheSlot`: the slot, and the cache with more slots if need be. -/
def findEmptyCacheSlot (cache : List Watch) : ℕ × List Watch :=
  match cache.findIdx? fun w => w.wd = none with
  | some slot => (slot, cache)
  | none => (cache.length, cache ++ List.replicate ALLOC_INCR emptyWatch)

def addWatchToCache (cache : List Watch) (wd : ℕ) (path : Bytes) : List Watch :=
  let (slot, cache) := findEmptyCacheSlot cache
  cache.set slot ⟨some wd, path⟩

def pathnameInCache (cache : List Watch) (path : Bytes) : Bool :=
  cache.any fun w => w.wd.isSome && w.path = path

def isRootDirPath (root path : Bytes) : Bool := path = root

def traverseTree (root : Bytes) (pathname : Bytes) (ino : ℕ) :
    Inotify × List Watch → Inotify × List Watch
  | (k, cache) =>
    let (wd, k) := k.addWatch ino (isRootDirPath root pathname)
    if (findWatch cache wd).isSome then (k, cache) else (k, addWatchToCache cache wd pathname)

def resolve (root : Bytes) (t : Tree) (path : Bytes) : Option (List Name) :=
  t.paths.find? fun p => components path = components root ++ p.map Subtype.val

/-- `watchSubtree`.  `nftw` finds the directories in the order `visits`; the result is `none` if
that does not list them. -/
def watchSubtree (root : Bytes) (t : Tree) (path : Bytes) (visits : List Dir) (k : Inotify)
    (cache : List Watch) : Option (Inotify × List Watch) :=
  match resolve root t path with
  | none => if visits = [] then some (k, cache) else none
  | some p =>
    if visits.Perm (t.below p) then
      some (visits.foldl (fun s d =>
        traverseTree root (pathname (stripSlashes path) (d.1.drop p.length)) d.2 s) (k, cache))
    else none

def rewriteCachedPaths (oldPathPrefix oldName newPathPrefix newName : Bytes) (cache : List Watch) :
    List Watch :=
  let fullPath := oldPathPrefix ++ slash :: oldName
  let newPrefix := newPathPrefix ++ slash :: newName
  cache.map fun w =>
    if isUnder fullPath w.path then { w with path := newPrefix ++ w.path.drop fullPath.length }
      else w

/-- `zapSubtree`: the watches and the cache that are left and the events for the watches that were
removed, or `none` if one could not be removed. -/
def zapSubtree (path : Bytes) (k : Inotify) : List Watch → Option
    (Inotify × List Watch × List InotifyEvent)
  | [] => some (k, [], [])
  | w :: cache =>
    match w.wd with
    | none => (zapSubtree path k cache).map fun (k, cache, evs) => (k, w :: cache, evs)
    | some wd =>
      if isUnder path w.path then
        match k.rmWatch wd with
        | none => none
        | some k => (zapSubtree path k cache).map fun (k, cache, evs) =>
            (k, emptyWatch :: cache, .ignored wd :: evs)
      else (zapSubtree path k cache).map fun (k, cache, evs) => (k, w :: cache, evs)

def reinitialize (root : Bytes) (t : Tree) (visits : List Dir) (k : Inotify) :
    Option (Inotify × List Watch) :=
  watchSubtree root t root visits (k.keep fun _ => false) []

/-! ## Events -/

inductive Outcome where
  /-- This many events are done; more may have been caused. -/
  | done (n : ℕ) (k : Inotify) (cache : List Watch) (evs : List InotifyEvent)
  | hanging
  /-- The cache has been rebuilt, and all events are discarded. -/
  | rebuilt (k : Inotify) (cache : List Watch)
  | exit

def rebuild (root : Bytes) (t : Tree) (visits : List Dir) (k : Inotify) : Option Outcome :=
  Option.map (fun (k, cache) => .rebuilt k cache) <| reinitialize root t visits k

/-- A new directory, or one that has been renamed into the tree. -/
def dirAppears (root : Bytes) (t : Tree) (visits : List Dir) (k : Inotify) (cache : List Watch)
    (dir name : Bytes) : Option Outcome :=
  let fullPath := dir ++ slash :: name
  if pathnameInCache cache fullPath then some (.done 1 k cache [])
  else (watchSubtree root t fullPath visits k cache).map fun (k, cache) => .done 1 k cache []

def dirLeaves (root : Bytes) (t : Tree) (visits : List Dir) (k : Inotify) (cache : List Watch)
    (dir name : Bytes) : Option Outcome :=
  match zapSubtree (dir ++ slash :: name) k cache with
  | none => rebuild root t visits k
  | some (k, cache, evs) => some (.done 1 k cache evs)

/-- The watch descriptor that is looked up in the cache before anything else.  `IN_IGNORED` comes
after an event that has emptied the slot, and `IN_Q_OVERFLOW` has no watch descriptor. -/
def checkedWd : InotifyEvent → Option ℕ
  | .ignored _ => none
  | .qOverflow => none
  | .create wd _ _ => some wd
  | .movedFrom wd _ _ _ => some wd
  | .movedTo wd _ _ _ => some wd
  | .deleteSelf wd => some wd
  | .moveSelf wd => some wd
  | .unmount wd => some wd

def processEvent (root : Bytes) (t : Tree) (visits : List Dir) (k : Inotify) (cache : List Watch)
    (firstTry : Bool) (evCacheSlot : ℕ) (ev : InotifyEvent) (rest : List InotifyEvent) :
    Option Outcome :=
  match ev with
  | .create _ isDir name =>
    if isDir then dirAppears root t visits k cache (slotPath cache evCacheSlot) name
    else some (.done 1 k cache [])
  | .movedTo _ isDir _ name =>
    if isDir then dirAppears root t visits k cache (slotPath cache evCacheSlot) name
    else some (.done 1 k cache [])
  | .deleteSelf _ =>
    if isRootDirPath root (slotPath cache evCacheSlot) then some .exit
    else some (.done 1 k (markCacheSlotEmpty cache evCacheSlot) [])
  | .movedFrom _ isDir cookie name =>
    if isDir then
      match rest with
      | .movedTo wd' _ cookie' name' :: _ =>
        if cookie' = cookie then
          match findWatch cache wd' with
          | none => rebuild root t visits k
          | some nextEvCacheSlot =>
            some (.done 2 k (rewriteCachedPaths (slotPath cache evCacheSlot) name
              (slotPath cache nextEvCacheSlot) name' cache) [])
        else dirLeaves root t visits k cache (slotPath cache evCacheSlot) name
      | _ :: _ => dirLeaves root t visits k cache (slotPath cache evCacheSlot) name
      | [] =>
        if firstTry then some .hanging
        else dirLeaves root t visits k cache (slotPath cache evCacheSlot) name
    else some (.done 1 k cache [])
  | .qOverflow => rebuild root t visits k
  | .unmount _ => some (.done 1 k (markCacheSlotEmpty cache evCacheSlot) [])
  | .moveSelf _ =>
    if isRootDirPath root (slotPath cache evCacheSlot) then some .exit
      else some (.done 1 k cache [])
  | .ignored _ => some (.done 1 k cache [])

def processNextInotifyEvent (root : Bytes) (t : Tree) (visits : List Dir) (k : Inotify)
    (cache : List Watch) (firstTry : Bool) (ev : InotifyEvent) (rest : List InotifyEvent) :
    Option Outcome :=
  match checkedWd ev with
  | none => processEvent root t visits k cache firstTry 0 ev rest
  | some wd =>
    match findWatch cache wd with
    | none => rebuild root t visits k
    | some slot => processEvent root t visits k cache firstTry slot ev rest

/-! ## The system -/

structure State where
  tree : Tree
  inotify : Inotify
  cookie : ℕ
  /-- The events that have not been read. -/
  queue : List InotifyEvent
  cache : List Watch
  /-- The events that have been read and not been processed. -/
  buf : List InotifyEvent
  firstTry : Bool
  exited : Bool

inductive Action where
  | fs (op : DirOp)
  /-- `processInotifyEvents` reads `n` events. -/
  | read (n : ℕ)
  /-- `processNextInotifyEvent` is called; `nftw` finds `visits`, and if there is another `read`, it
  gets `n` events. -/
  | next (visits : List Dir) (n : ℕ)

/-- All events have been processed. -/
def State.Idle (s : State) : Prop := s.buf = [] ∧ s.queue = []

instance (s : State) : Decidable s.Idle := inferInstanceAs (Decidable (s.buf = [] ∧ s.queue = []))

/-- What `processInotifyEvents` does after `processNextInotifyEvent`.  If another `read` is needed,
it gets `n` events: at least one if there is one. -/
def State.after (s : State) (n : ℕ) : Outcome → Option State
  | .done m k cache evs =>
    some { s with inotify := k, cache := cache, buf := s.buf.drop m, queue := s.queue ++ evs,
                  firstTry := true }
  | .hanging =>
    -- if the `read` is interrupted, `numRead` becomes one less; the event is still in the buffer
    if n ≤ s.queue.length ∧ (n = 0 → s.queue = []) then
      some { s with buf := s.buf ++ s.queue.take n, queue := s.queue.drop n, firstTry := false }
    else none
  | .rebuilt k cache =>
    some { s with inotify := k, cache := cache, buf := [], queue := [], firstTry := true }
  | .exit => some { s with exited := true }

def step (root : Bytes) (s : State) (a : Action) : Option State :=
  if s.exited then none
  else
    match a with
    | .fs op =>
      if s.Idle then
        (op.apply s.tree s.inotify s.cookie).map fun (t, k, evs) =>
          { s with tree := t, inotify := k, queue := evs, cookie := s.cookie + 1 }
      else none
    | .read n =>
      if s.buf = [] ∧ 0 < n ∧ n ≤ s.queue.length then
        some { s with buf := s.queue.take n, queue := s.queue.drop n, firstTry := true }
      else none
    | .next visits n =>
      match s.buf with
      | [] => none
      | ev :: rest =>
        (processNextInotifyEvent root s.tree visits s.inotify s.cache s.firstTry ev rest).bind
          (s.after n)

def start (root : Bytes) (t : Tree) : State :=
  match reinitialize root t (t.below []) .init with
  | some (k, cache) => ⟨t, k, 0, [], cache, [], true, false⟩
  | none => ⟨t, .init, 0, [], [], [], true, false⟩

end UnixPrograms.Dtree
