import UnixPrograms.Lib.Runs
import UnixPrograms.Lib.SysVSem

/-!
# The semaphore interface of `semaph.c`

A semaphore is a set with three members: `[0]` is its value, `[1]` counts down from `BIGCOUNT` with
every create and open, and `[2]` is a lock.  A process in a call is in front of one of its system
calls, and any process may exit there.  Identifiers are not used again, and errors that are not
spelled out are exits.
-/

namespace UnixPrograms.Semaph

open Function

def BIGCOUNT : ℕ := 10000

def IPC_PRIVATE : ℤ := 0

def opLock : List Sembuf := [⟨2, 0, false⟩, ⟨2, 1, true⟩]

def opEndcreate : List Sembuf := [⟨1, -1, true⟩, ⟨2, -1, true⟩]

def opOpen : List Sembuf := [⟨1, -1, true⟩]

def opClose : List Sembuf := [⟨2, 0, false⟩, ⟨2, 1, true⟩, ⟨1, 1, true⟩]

def opUnlock : List Sembuf := [⟨2, -1, true⟩]

def opOp (value : ℤ) : List Sembuf := [⟨0, value, true⟩]

inductive Pc where
  | outside
  | createGet (key initval : ℤ)
  | createLock (key initval : ℤ) (id : ℕ)
  | createGetval (initval : ℤ) (id : ℕ)
  | createSet0 (initval : ℤ) (id : ℕ)
  | createSet1 (id : ℕ)
  | createEnd (id : ℕ)
  | openGet (key : ℤ)
  | openOp (id : ℕ)
  | closeOp (id : ℕ)
  | closeGetval (id : ℕ)
  | closeRm (id : ℕ)
  | closeUnlock (id : ℕ)
  | opOp (id : ℕ) (value : ℤ)
  | exited
  deriving DecidableEq

structure Proc where
  pc : Pc
  opens : ℕ → ℕ

structure State (ι : Type) where
  ids : ℤ → Option ℕ
  sets : ℕ → Option (SemSet ι)
  next : ℕ
  /-- The sets whose member `[1]` has been set to `BIGCOUNT`. -/
  initialised : ℕ → Bool
  proc : ι → Proc

/-- No sets, and no process in a call. -/
def start (ι : Type) : State ι where
  ids _ := none
  sets _ := none
  next := 0
  initialised _ := false
  proc _ := ⟨.outside, fun _ => 0⟩

inductive Action (ι : Type) where
  | semCreate (p : ι) (key initval : ℤ)
  | semOpen (p : ι) (key : ℤ)
  | semClose (p : ι) (id : ℕ)
  | semOp (p : ι) (id : ℕ) (value : ℤ)
  | go (p : ι)
  /-- `semget` fails, for lack of permission or of space. -/
  | semgetFails (p : ι)
  | exit (p : ι)

section Step

variable {ι : Type} [DecidableEq ι]

/-- The process `p` is in front of another system call. -/
def State.goTo (s : State ι) (p : ι) (pc : Pc) : State ι :=
  { s with proc := update s.proc p { s.proc p with pc := pc } }

def State.setOpens (s : State ι) (p : ι) (id n : ℕ) : State ι :=
  { s with
    proc := update s.proc p
      { s.proc p with opens := update (s.proc p).opens id n } }

def State.put (s : State ι) (id : ℕ) (set : SemSet ι) : State ι :=
  { s with sets := update s.sets id (some set) }

def State.exit (s : State ι) (p : ι) : State ι :=
  { s with
    sets := fun id => (s.sets id).map (SemSet.exit p)
    proc := update s.proc p ⟨.exited, fun _ => 0⟩ }

def State.semRm (s : State ι) (id : ℕ) : State ι :=
  { s with
    ids := fun key => if s.ids key = some id then none else s.ids key
    sets := update s.sets id none }

def State.newSet (s : State ι) (key : ℤ) : State ι :=
  { s with
    ids := update s.ids key (some s.next)
    sets := update s.sets s.next (some (.new 3))
    next := s.next + 1 }

/-- `semop` by the process `p`, which then goes on with `k`.  `gone` is what becomes of the state if
there is no such set. -/
def State.semop (s : State ι) (p : ι) (id : ℕ) (ops : List Sembuf) (gone : State ι)
    (k : State ι → State ι) : Option (State ι) :=
  match s.sets id with
  | none => some gone
  | some set =>
    match set.semop p ops with
    | .done set' => some (k (s.put id set'))
    | .blocks => none
    | .efbig => some (s.exit p)

def State.go (s : State ι) (p : ι) : Option (State ι) :=
  match (s.proc p).pc with
  | .outside => none
  | .exited => none
  | .createGet key initval =>
    match s.ids key with
    | some id => some (s.goTo p (.createLock key initval id))
    | none => some ((s.newSet key).goTo p (.createLock key initval s.next))
  | .createLock key initval id =>
    -- `EINVAL`: `goto again`
    s.semop p id opLock (s.goTo p (.createGet key initval)) fun s =>
      s.goTo p (.createGetval initval id)
  | .createGetval initval id =>
    match s.sets id with
    | none => some (s.exit p)
    | some set =>
      if set.val 1 = 0 then some (s.goTo p (.createSet0 initval id))
        else some (s.goTo p (.createEnd id))
  | .createSet0 initval id =>
    match s.sets id with
    | none => some (s.exit p)
    | some set =>
      -- `ERANGE`: `err_sys`
      if initval < 0 ∨ SEMVMX < initval then some (s.exit p)
      else some ((s.put id (set.setval 0 initval.toNat)).goTo p (.createSet1 id))
  | .createSet1 id =>
    match s.sets id with
    | none => some (s.exit p)
    | some set =>
      some { (s.put id (set.setval 1 BIGCOUNT)).goTo p (.createEnd id) with
        initialised := update s.initialised id true }
  | .createEnd id =>
    s.semop p id opEndcreate (s.exit p) fun s =>
      (s.setOpens p id ((s.proc p).opens id + 1)).goTo p .outside
  | .openGet key =>
    match s.ids key with
    | some id => some (s.goTo p (.openOp id))
    | none => some (s.goTo p .outside)
  | .openOp id =>
    s.semop p id opOpen (s.exit p) fun s =>
      (s.setOpens p id ((s.proc p).opens id + 1)).goTo p .outside
  | .closeOp id =>
    s.semop p id opClose (s.exit p) fun s =>
      (s.setOpens p id ((s.proc p).opens id - 1)).goTo p (.closeGetval id)
  | .closeGetval id =>
    match s.sets id with
    | none => some (s.exit p)
    | some set =>
      if BIGCOUNT < set.val 1 then some (s.exit p)
      else if set.val 1 = BIGCOUNT then some (s.goTo p (.closeRm id))
      else some (s.goTo p (.closeUnlock id))
  | .closeRm id =>
    match s.sets id with
    | none => some (s.exit p)
    | some _ => some ((s.semRm id).goTo p .outside)
  | .closeUnlock id => s.semop p id opUnlock (s.exit p) fun s => s.goTo p .outside
  | .opOp id value => s.semop p id (opOp value) (s.exit p) fun s => s.goTo p .outside

/-- One step.  `sem_close` is called only for a set that the process has open. -/
def step (s : State ι) : Action ι → Option (State ι)
  | .semCreate p key initval =>
    if (s.proc p).pc ≠ .outside then none
    else if key = IPC_PRIVATE ∨ key = -1 then some s
    else some (s.goTo p (.createGet key initval))
  | .semOpen p key =>
    if (s.proc p).pc ≠ .outside then none
    else if key = IPC_PRIVATE ∨ key = -1 then some s
    else some (s.goTo p (.openGet key))
  | .semClose p id =>
    if (s.proc p).pc = .outside ∧ 0 < (s.proc p).opens id then some (s.goTo p (.closeOp id))
      else none
  | .semOp p id value =>
    if (s.proc p).pc ≠ .outside then none
    else if value = 0 then some (s.exit p)
    else some (s.goTo p (.opOp id value))
  | .go p => s.go p
  | .semgetFails p =>
    match (s.proc p).pc with
    | .createGet _ _ => some (s.goTo p .outside)
    | .openGet _ => some (s.goTo p .outside)
    | _ => none
  | .exit p => if (s.proc p).pc ≠ .exited then some (s.exit p) else none

end Step

/-! ## What a process does with a set -/

def Pc.lockOf : Pc → Option ℕ
  | .createGetval _ id => some id
  | .createSet0 _ id => some id
  | .createSet1 id => some id
  | .createEnd id => some id
  | .closeGetval id => some id
  | .closeRm id => some id
  | .closeUnlock id => some id
  | _ => none

/-- The set that the process is in front of setting to its initial value. -/
def Pc.settingOf : Pc → Option ℕ
  | .createSet0 _ id => some id
  | .createSet1 id => some id
  | _ => none

def Pc.removingOf : Pc → Option ℕ
  | .closeRm id => some id
  | _ => none

variable {ι : Type}

def Sets (s : State ι) (id : ℕ) : Action ι → Prop
  | .go p => (s.proc p).pc.settingOf = some id
  | _ => False

/-- The action is the `IPC_RMID` of a `sem_close` by the process `p`, for a set that exists. -/
def Removes (s : State ι) (p : ι) (id : ℕ) : Action ι → Prop
  | .go q => q = p ∧ (s.proc p).pc = .closeRm id ∧ s.sets id ≠ none
  | _ => False

variable [Fintype ι]

/-- No set has more than 9999 opens that are not closed. -/
def FewOpens (s : State ι) : Prop := ∀ id < s.next, ∑ p, (s.proc p).opens id ≤ 9999

instance (s : State ι) : Decidable (FewOpens s) := Nat.decidableBallLT ..

/-- No set is opened by `sem_open` while a process is about to remove it, and `sem_create` does not
read the counter of a set that is open `BIGCOUNT` times. -/
def opensInTime (s : State ι) : Action ι → Bool
  | .go p =>
    match (s.proc p).pc with
    | .openOp id => decide (∀ q, (s.proc q).pc ≠ .closeRm id)
    | .createGetval _ id => decide (∑ q, (s.proc q).opens id < BIGCOUNT)
    | _ => true
  | _ => true

end UnixPrograms.Semaph
