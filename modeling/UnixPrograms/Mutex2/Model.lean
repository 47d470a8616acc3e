import UnixPrograms.Lib.LinkedCells
import UnixPrograms.Lib.Locks
import UnixPrograms.Lib.Memory
import UnixPrograms.Lib.Runs
import UnixPrograms.Lib.Sums

/-!
# Reference counts under two locks

Any number of threads call `foo_alloc`, `foo_hold`, `foo_find` and `foo_rele` of `mutex2.c`.  A step
goes from one lock or unlock call to the next.  `malloc` returns any address that is not in use, and
a freed object keeps what it contains: that it is not read is a matter of proof.

`refs t a` is the number of references to the object at `a` that `t` holds, and may hand on outside
the calls.  `deeds a` records what has happened at an address.
-/

namespace UnixPrograms.Mutex2

open Function Option

def NHASH : ℕ := 29

/-- The chain of an identifier.  The conversion to `unsigned long` takes it modulo `2 ^ 64`. -/
def HASH (id : ℤ) : ℕ := (id % 2 ^ 64).toNat % NHASH

def INT_MAX : ℕ := 2 ^ 31 - 1

structure Foo where
  fCount : ℤ
  fId : ℤ
  fNext : ℕ

inductive Deed where
  | malloc
  | link
  | unlink
  | free
  deriving DecidableEq

inductive Lock where
  | hashlock
  | fLock (fp : ℕ)
  deriving DecidableEq

inductive AllocAt where
  | lockHash
  | lockObj
  | unlockHash
  | unlockObj
  deriving DecidableEq

inductive HoldAt where
  | lock
  | unlock
  deriving DecidableEq

inductive FindAt where
  | lockHash
  | hold (fp : ℕ) (l : HoldAt)
  /-- With `fp` to be returned. -/
  | unlockHash (fp : ℕ)
  deriving DecidableEq

/-- The next lock or unlock call of `foo_rele`. -/
inductive ReleAt where
  | lock
  | unlock
  /-- The reference seems to be the last one; the lock is given up before `hashlock` is taken. -/
  | unlockFirst
  | lockHash
  | relock
  /-- The reference is no longer the last one. -/
  | recheckUnlock
  | recheckUnlockHash
  | lastUnlockHash
  | lastUnlock
  | destroy
  deriving DecidableEq

inductive Point where
  | outside
  | alloc (fp : ℕ) (l : AllocAt)
  | hold (fp : ℕ) (l : HoldAt)
  | find (id : ℤ) (l : FindAt)
  | rele (fp : ℕ) (l : ReleAt)
  deriving DecidableEq

/-- The memory, the locks with their owners, and the threads. -/
structure State (ι : Type) where
  fh : ℕ → ℕ
  foo : ℕ → Foo
  alloced : Finset ℕ
  owner : Lock → Option ι
  point : ι → Point
  refs : ι → ℕ → ℕ
  deeds : ℕ → List Deed

inductive Action (ι : Type) where
  /-- The thread calls `foo_alloc` and `malloc` returns the address. -/
  | alloc (t : ι) (fp : ℕ) (id : ℤ)
  /-- The thread calls `foo_alloc`, but `malloc` or `pthread_mutex_init` fails. -/
  | allocFails (t : ι)
  | hold (t : ι) (fp : ℕ)
  | find (t : ι) (id : ℤ)
  | rele (t : ι) (fp : ℕ)
  | give (t u : ι) (fp : ℕ)
  /-- The thread makes its next lock or unlock call and goes on to the one after it. -/
  | run (t : ι)

section Machine

variable {ι : Type} [DecidableEq ι]

def State.move (s : State ι) (t : ι) (p : Point) : State ι :=
  { s with point := update s.point t p }

/-- The thread has `n` references to the object. -/
def State.setRefs (s : State ι) (t : ι) (fp n : ℕ) : State ι :=
  { s with refs := update s.refs t (update (s.refs t) fp n) }

def State.record (s : State ι) (fp : ℕ) (d : Deed) : State ι :=
  { s with deeds := update s.deeds fp (s.deeds fp ++ [d]) }

def State.own (s : State ι) (l : Lock) (o : Option ι) : State ι :=
  { s with owner := update s.owner l o }

/-- `pthread_mutex_lock`, for which a thread waits as long as another one has the lock. -/
def lock (s : State ι) (t : ι) (l : Lock) : Option (State ι) :=
  if s.owner l = none then some (s.own l (some t)) else none

def unlock (s : State ι) (l : Lock) : State ι := s.own l none

/-- `fp->f_count` gets another value, as far as an `int` goes. -/
def setCount (s : State ι) (fp : ℕ) (n : ℤ) : State ι :=
  { s with foo := update s.foo fp { s.foo fp with fCount := wrapSigned 4 n } }

def countUp (s : State ι) (t : ι) (fp : ℕ) : State ι :=
  (setCount s fp ((s.foo fp).fCount + 1)).setRefs t fp (s.refs t fp + 1)

def countDown (s : State ι) (t : ι) (fp : ℕ) : State ι :=
  (setCount s fp ((s.foo fp).fCount - 1)).setRefs t fp (s.refs t fp - 1)

/-- `foo_alloc` up to its first lock call, where `malloc` has returned `fp`. -/
def fooMalloc (s : State ι) (t : ι) (fp : ℕ) (id : ℤ) : State ι :=
  ({ s with
      alloced := insert fp s.alloced
      foo := update s.foo fp { s.foo fp with fCount := 1, fId := id }
      owner := update s.owner (.fLock fp) none }.setRefs t fp
        (s.refs t fp + 1)).record fp .malloc

def link (s : State ι) (fp : ℕ) : State ι :=
  let idx := HASH (s.foo fp).fId
  { s with
    foo := update s.foo fp { s.foo fp with fNext := s.fh idx }
    fh := update s.fh idx fp }.record fp .link

/-- The loop of `foo_find`; `none` if it does not end within `fuel` rounds. -/
def search (foo : ℕ → Foo) (id : ℤ) : ℕ → ℕ → Option ℕ
  | 0, _ => none
  | fuel + 1, fp =>
    if fp = 0 then some 0
    else if (foo fp).fId = id then some fp
    else search foo id fuel (foo fp).fNext

/-- The loop of `foo_rele`; `none` if it runs into `NULL` or does not end within `fuel` rounds. -/
def predecessor (foo : ℕ → Foo) (fp : ℕ) : ℕ → ℕ → Option ℕ
  | 0, _ => none
  | fuel + 1, tfp =>
    if tfp = 0 then none
    else if (foo tfp).fNext = fp then some tfp
    else predecessor foo fp fuel (foo tfp).fNext

/-- Enough rounds for the loops: a loop that visits more objects than there are visits one of them
twice, and never ends. -/
def State.rounds (s : State ι) : ℕ := s.alloced.card + 1

def unlink (s : State ι) (fp : ℕ) : Option (State ι) :=
  let idx := HASH (s.foo fp).fId
  if s.fh idx = fp then
    some ({ s with fh := update s.fh idx (s.foo fp).fNext }.record fp .unlink)
  else
    (predecessor s.foo fp s.rounds (s.fh idx)).map fun tfp =>
      { s with
        foo := update s.foo tfp
          { s.foo tfp with fNext := (s.foo fp).fNext } }.record fp .unlink

/-- `pthread_mutex_destroy` and `free`, with which the last reference is gone. -/
def destroy (s : State ι) (t : ι) (fp : ℕ) : State ι :=
  ({ s with alloced := s.alloced.erase fp }.setRefs t fp (s.refs t fp - 1)).record fp .free

def fooAlloc (s : State ι) (t : ι) (fp : ℕ) : AllocAt → Option (State ι)
  | .lockHash => (lock s t .hashlock).map fun s => (link s fp).move t (.alloc fp .lockObj)
  | .lockObj => (lock s t (.fLock fp)).map fun s => s.move t (.alloc fp .unlockHash)
  | .unlockHash => some ((unlock s .hashlock).move t (.alloc fp .unlockObj))
  | .unlockObj => some ((unlock s (.fLock fp)).move t .outside)

/-- `foo_hold`, whose points are given by `here`, and after which the thread goes on at `back`. -/
def fooHold (s : State ι) (t : ι) (fp : ℕ) (here : HoldAt → Point) (back : Point) :
    HoldAt → Option (State ι)
  | .lock => (lock s t (.fLock fp)).map fun s => (countUp s t fp).move t (here .unlock)
  | .unlock => some ((unlock s (.fLock fp)).move t back)

def fooFind (s : State ι) (t : ι) (id : ℤ) : FindAt → Option (State ι)
  | .lockHash =>
    (lock s t .hashlock).bind fun s =>
      (search s.foo id s.rounds (s.fh (HASH id))).map fun fp =>
        s.move t (.find id (if fp = 0 then .unlockHash 0 else .hold fp .lock))
  | .hold fp l => fooHold s t fp (fun l => .find id (.hold fp l)) (.find id (.unlockHash fp)) l
  | .unlockHash _ => some ((unlock s .hashlock).move t .outside)

def fooRele (s : State ι) (t : ι) (fp : ℕ) : ReleAt → Option (State ι)
  | .lock =>
    (lock s t (.fLock fp)).map fun s =>
      if (s.foo fp).fCount = 1 then s.move t (.rele fp .unlockFirst)
      else (countDown s t fp).move t (.rele fp .unlock)
  | .unlock => some ((unlock s (.fLock fp)).move t .outside)
  | .unlockFirst => some ((unlock s (.fLock fp)).move t (.rele fp .lockHash))
  | .lockHash => (lock s t .hashlock).map fun s => s.move t (.rele fp .relock)
  | .relock =>
    (lock s t (.fLock fp)).bind fun s =>
      -- need to recheck the condition
      if (s.foo fp).fCount ≠ 1 then some ((countDown s t fp).move t (.rele fp .recheckUnlock))
      else (unlink s fp).map fun s => s.move t (.rele fp .lastUnlockHash)
  | .recheckUnlock => some ((unlock s (.fLock fp)).move t (.rele fp .recheckUnlockHash))
  | .recheckUnlockHash => some ((unlock s .hashlock).move t .outside)
  | .lastUnlockHash => some ((unlock s .hashlock).move t (.rele fp .lastUnlock))
  | .lastUnlock => some ((unlock s (.fLock fp)).move t (.rele fp .destroy))
  | .destroy => some ((destroy s t fp).move t .outside)

def runThread (s : State ι) (t : ι) : Point → Option (State ι)
  | .outside => none
  | .alloc fp l => fooAlloc s t fp l
  | .hold fp l => fooHold s t fp (.hold fp) .outside l
  | .find id l => fooFind s t id l
  | .rele fp l => fooRele s t fp l

/-- One step of one thread.  `foo_hold` and `foo_rele` are called only on objects to which the
thread holds a reference. -/
def step (s : State ι) : Action ι → Option (State ι)
  | .alloc t fp id =>
    if s.point t = .outside ∧ fp ≠ 0 ∧ fp ∉ s.alloced then
      some ((fooMalloc s t fp id).move t (.alloc fp .lockHash))
    else none
  | .allocFails t => if s.point t = .outside then some s else none
  | .hold t fp =>
    if s.point t = .outside ∧ 0 < s.refs t fp then some (s.move t (.hold fp .lock)) else none
  | .find t id => if s.point t = .outside then some (s.move t (.find id .lockHash)) else none
  | .rele t fp =>
    if s.point t = .outside ∧ 0 < s.refs t fp then some (s.move t (.rele fp .lock)) else none
  | .give t u fp =>
    if s.point t = .outside ∧ 0 < s.refs t fp then
      let s' := s.setRefs t fp (s.refs t fp - 1)
      some (s'.setRefs u fp (s'.refs u fp + 1))
    else none
  | .run t => runThread s t (s.point t)

end Machine

def start (ι : Type) (foo : ℕ → Foo) : State ι where
  fh _ := 0
  foo := foo
  alloced := ∅
  owner _ := none
  point _ := .outside
  refs _ _ := 0
  deeds _ := []

/-! ## What a step does -/

def Point.holds : Point → List Lock
  | .alloc _ .lockObj | .find _ (.hold _ .lock) | .find _ (.unlockHash _) | .rele _ .relock
  | .rele _ .recheckUnlockHash => [.hashlock]
  | .alloc fp .unlockHash | .find _ (.hold fp .unlock) | .rele fp .recheckUnlock
  | .rele fp .lastUnlockHash => [.hashlock, .fLock fp]
  | .alloc fp .unlockObj | .hold fp .unlock | .rele fp .unlock | .rele fp .unlockFirst
  | .rele fp .lastUnlock => [.fLock fp]
  | _ => []

/-- The lock that a thread is about to take. -/
def Point.waits : Point → Option Lock
  | .alloc _ .lockHash | .find _ .lockHash | .rele _ .lockHash => some .hashlock
  | .alloc fp .lockObj | .hold fp .lock | .find _ (.hold fp .lock) | .rele fp .lock
  | .rele fp .relock => some (.fLock fp)
  | _ => none

section Effects

variable {ι : Type}

/-- A call by a thread that may make it. -/
inductive Enters (s : State ι) (t : ι) : Point → Prop
  | hold {fp : ℕ} (hpos : 0 < s.refs t fp) : Enters s t (.hold fp .lock)
  | find (id : ℤ) : Enters s t (.find id .lockHash)
  | rele {fp : ℕ} (hpos : 0 < s.refs t fp) : Enters s t (.rele fp .lock)

/-- The points at which a mutex is locked. -/
inductive Takes (s : State ι) : Point → Lock → Point → Prop
  | alloc (fp : ℕ) : Takes s (.alloc fp .lockObj) (.fLock fp) (.alloc fp .unlockHash)
  | miss {id : ℤ} (hs : search s.foo id s.rounds (s.fh (HASH id)) = some 0) :
      Takes s (.find id .lockHash) .hashlock (.find id (.unlockHash 0))
  | hit {id : ℤ} {fp : ℕ} (hfp : fp ≠ 0)
      (hs : search s.foo id s.rounds (s.fh (HASH id)) = some fp) :
      Takes s (.find id .lockHash) .hashlock (.find id (.hold fp .lock))
  | first {fp : ℕ} (hone : (s.foo fp).fCount = 1) :
      Takes s (.rele fp .lock) (.fLock fp) (.rele fp .unlockFirst)
  | hash (fp : ℕ) : Takes s (.rele fp .lockHash) .hashlock (.rele fp .relock)

/-- The points at which a mutex is unlocked. -/
inductive Drops : Point → Lock → Point → Prop
  | allocHash (fp : ℕ) : Drops (.alloc fp .unlockHash) .hashlock (.alloc fp .unlockObj)
  | allocObj (fp : ℕ) : Drops (.alloc fp .unlockObj) (.fLock fp) .outside
  | hold (fp : ℕ) : Drops (.hold fp .unlock) (.fLock fp) .outside
  | findObj (id : ℤ) (fp : ℕ) :
      Drops (.find id (.hold fp .unlock)) (.fLock fp) (.find id (.unlockHash fp))
  | findHash (id : ℤ) (fp : ℕ) : Drops (.find id (.unlockHash fp)) .hashlock .outside
  | rele (fp : ℕ) : Drops (.rele fp .unlock) (.fLock fp) .outside
  | first (fp : ℕ) : Drops (.rele fp .unlockFirst) (.fLock fp) (.rele fp .lockHash)
  | recheckObj (fp : ℕ) :
      Drops (.rele fp .recheckUnlock) (.fLock fp) (.rele fp .recheckUnlockHash)
  | recheckHash (fp : ℕ) : Drops (.rele fp .recheckUnlockHash) .hashlock .outside
  | lastHash (fp : ℕ) : Drops (.rele fp .lastUnlockHash) .hashlock (.rele fp .lastUnlock)
  | lastObj (fp : ℕ) : Drops (.rele fp .lastUnlock) (.fLock fp) (.rele fp .destroy)

/-- The points at which `f_count` is incremented. -/
inductive CountsUp (fp : ℕ) : Point → Point → Prop
  | hold : CountsUp fp (.hold fp .lock) (.hold fp .unlock)
  | find (id : ℤ) : CountsUp fp (.find id (.hold fp .lock)) (.find id (.hold fp .unlock))

/-- The points at which `f_count` is decremented. -/
inductive CountsDown (fp : ℕ) : Point → Point → Prop
  | first : CountsDown fp (.rele fp .lock) (.rele fp .unlock)
  | recheck : CountsDown fp (.rele fp .relock) (.rele fp .recheckUnlock)

variable {l : Lock}

lemma Drops.mem_holds {q p : Point} (hp : Drops q l p) : l ∈ q.holds := by
  cases hp <;> simp [Point.holds]

lemma Drops.holds {q p : Point} (hp : Drops q l p) (k : Lock) :
    k ∈ p.holds ↔ k ≠ l ∧ k ∈ q.holds := by
  cases hp <;> cases k <;> simp [Point.holds]

variable [DecidableEq ι]

/-- What a step does to the state. -/
inductive Effect (s : State ι) (x : Action ι) : State ι → Prop
  | idle : Effect s x s
  | enter {t : ι} {p : Point} (ht : s.point t = .outside) (hp : Enters s t p) :
      Effect s x (s.move t p)
  | give {t u : ι} {fp : ℕ} (ht : s.point t = .outside) (hpos : 0 < s.refs t fp) :
      Effect s x ((s.setRefs t fp (s.refs t fp - 1)).setRefs u fp
        ((s.setRefs t fp (s.refs t fp - 1)).refs u fp + 1))
  | malloc {t : ι} {fp : ℕ} {id : ℤ} (ht : s.point t = .outside) (h0 : fp ≠ 0)
      (hnew : fp ∉ s.alloced) : Effect s x ((fooMalloc s t fp id).move t (.alloc fp .lockHash))
  | link {t : ι} {fp : ℕ} (ht : s.point t = .alloc fp .lockHash)
      (hfree : s.owner .hashlock = none) :
      Effect s x ((link (s.own .hashlock (some t)) fp).move t (.alloc fp .lockObj))
  | take {t : ι} {l : Lock} {p : Point} (hp : Takes s (s.point t) l p) (hfree : s.owner l = none) :
      Effect s x ((s.own l (some t)).move t p)
  | up {t : ι} {fp : ℕ} {p : Point} (hx : x = .run t) (hp : CountsUp fp (s.point t) p)
      (hfree : s.owner (.fLock fp) = none) :
      Effect s x ((countUp (s.own (.fLock fp) (some t)) t fp).move t p)
  | down {t : ι} {fp : ℕ} {p : Point} (hp : CountsDown fp (s.point t) p)
      (hfree : s.owner (.fLock fp) = none) (hne : (s.foo fp).fCount ≠ 1) :
      Effect s x ((countDown (s.own (.fLock fp) (some t)) t fp).move t p)
  | unlink {t : ι} {fp : ℕ} {s₁ : State ι} (hx : x = .run t) (ht : s.point t = .rele fp .relock)
      (hfree : s.owner (.fLock fp) = none) (hone : (s.foo fp).fCount = 1)
      (hs₁ : unlink (s.own (.fLock fp) (some t)) fp = some s₁) :
      Effect s x (s₁.move t (.rele fp .lastUnlockHash))
  | drop {t : ι} {l : Lock} {p : Point} (hp : Drops (s.point t) l p) :
      Effect s x ((unlock s l).move t p)
  | free {t : ι} {fp : ℕ} (hx : x = .run t) (ht : s.point t = .rele fp .destroy) :
      Effect s x ((destroy s t fp).move t .outside)

variable {s s' : State ι} {t : ι} {fp : ℕ}

omit [DecidableEq ι] in
lemma lock_eq_some {s₁ : State ι} (h : lock s t l = some s₁) :
    s.owner l = none ∧ s₁ = s.own l (some t) := by
  obtain ⟨hfree, h⟩ := ite_none_right_eq_some.mp h
  exact ⟨hfree, (some.inj h).symm⟩

omit [DecidableEq ι] in
lemma lock_map_eq_some {f : State ι → State ι} (h : (lock s t l).map f = some s') :
    s.owner l = none ∧ f (s.own l (some t)) = s' := by
  obtain ⟨s₁, hs₁, rfl⟩ := map_eq_some_iff.mp h
  obtain ⟨hfree, rfl⟩ := lock_eq_some hs₁
  exact ⟨hfree, rfl⟩

lemma effect_fooAlloc {l : AllocAt} (ht : s.point t = .alloc fp l)
    (h : fooAlloc s t fp l = some s') : Effect s (.run t) s' := by
  cases l with
  | lockHash =>
    obtain ⟨hfree, rfl⟩ := lock_map_eq_some h
    exact .link ht hfree
  | lockObj =>
    obtain ⟨hfree, rfl⟩ := lock_map_eq_some h
    exact .take (ht ▸ .alloc fp) hfree
  | unlockHash => exact some.inj h ▸ .drop (ht ▸ .allocHash fp)
  | unlockObj => exact some.inj h ▸ .drop (ht ▸ .allocObj fp)

lemma effect_fooHold (here : HoldAt → Point) {back : Point} {l : HoldAt}
    (ht : s.point t = here l) (hup : CountsUp fp (here .lock) (here .unlock))
    (hdrop : Drops (here .unlock) (.fLock fp) back) (h : fooHold s t fp here back l = some s') :
    Effect s (.run t) s' := by
  cases l with
  | lock =>
    obtain ⟨hfree, rfl⟩ := lock_map_eq_some h
    exact .up rfl (ht ▸ hup) hfree
  | unlock => exact some.inj h ▸ .drop (ht ▸ hdrop)

lemma effect_fooFind {id : ℤ} {l : FindAt} (ht : s.point t = .find id l)
    (h : fooFind s t id l = some s') : Effect s (.run t) s' := by
  cases l with
  | lockHash =>
    obtain ⟨s₁, hs₁, h⟩ := bind_eq_some_iff.mp h
    obtain ⟨hfree, rfl⟩ := lock_eq_some hs₁
    obtain ⟨fp, hfp, rfl⟩ := map_eq_some_iff.mp h
    split
    case isTrue h0 => exact .take (ht ▸ .miss (h0 ▸ hfp)) hfree
    case isFalse h0 => exact .take (ht ▸ .hit h0 hfp) hfree
  | hold fp l =>
    exact effect_fooHold (fun l => .find id (.hold fp l)) ht (.find id) (.findObj id fp) h
  | unlockHash fp => exact some.inj h ▸ .drop (ht ▸ .findHash id fp)

lemma effect_fooRele {l : ReleAt} (ht : s.point t = .rele fp l)
    (h : fooRele s t fp l = some s') : Effect s (.run t) s' := by
  cases l with
  | lock =>
    obtain ⟨hfree, rfl⟩ := lock_map_eq_some h
    split
    case isTrue hone => exact .take (ht ▸ .first hone) hfree
    case isFalse hne => exact .down (ht ▸ .first) hfree hne
  | unlock => exact some.inj h ▸ .drop (ht ▸ .rele fp)
  | unlockFirst => exact some.inj h ▸ .drop (ht ▸ .first fp)
  | lockHash =>
    obtain ⟨hfree, rfl⟩ := lock_map_eq_some h
    exact .take (ht ▸ .hash fp) hfree
  | relock =>
    obtain ⟨s₁, hs₁, h⟩ := bind_eq_some_iff.mp h
    obtain ⟨hfree, rfl⟩ := lock_eq_some hs₁
    split at h
    case isTrue hne => exact some.inj h ▸ .down (ht ▸ .recheck) hfree hne
    case isFalse hone =>
      obtain ⟨s₂, hs₂, rfl⟩ := map_eq_some_iff.mp h
      exact .unlink rfl ht hfree (not_not.mp hone) hs₂
  | recheckUnlock => exact some.inj h ▸ .drop (ht ▸ .recheckObj fp)
  | recheckUnlockHash => exact some.inj h ▸ .drop (ht ▸ .recheckHash fp)
  | lastUnlockHash => exact some.inj h ▸ .drop (ht ▸ .lastHash fp)
  | lastUnlock => exact some.inj h ▸ .drop (ht ▸ .lastObj fp)
  | destroy => exact some.inj h ▸ .free rfl ht

lemma effect_of_step {x : Action ι} (h : step s x = some s') : Effect s x s' := by
  revert h
  fun_cases step s x with
  | case1 t fp id hcan => exact fun h => some.inj h ▸ .malloc hcan.1 hcan.2.1 hcan.2.2
  | case3 => exact fun h => some.inj h ▸ .idle
  | case5 t fp hcan => exact fun h => some.inj h ▸ .enter hcan.1 (.hold hcan.2)
  | case7 t id ht => exact fun h => some.inj h ▸ .enter ht (.find id)
  | case9 t fp hcan => exact fun h => some.inj h ▸ .enter hcan.1 (.rele hcan.2)
  | case11 t u fp hcan => exact fun h => some.inj h ▸ .give hcan.1 hcan.2
  | case13 t =>
    generalize ht : s.point t = p
    cases p with
    | outside => exact fun h => by cases h
    | alloc fp l => exact effect_fooAlloc ht
    | hold fp l => exact effect_fooHold (.hold fp) ht .hold (.hold fp)
    | find id l => exact effect_fooFind ht
    | rele fp l => exact effect_fooRele ht
  | _ => simp

end Effects

end UnixPrograms.Mutex2
