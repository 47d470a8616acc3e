import UnixPrograms.Lib.Monitor

/-!
# The memory-mapped semaphores of `my_pxsem_mmap`

The critical sections of `mysem_wait`, `mysem_trywait` and `mysem_post` under `sem_mutex`;
`semMonitor` puts them together.  The count is an `unsigned int`, and `mysem_post` wraps around.
-/

namespace UnixPrograms.Mysem

def SEM_MAGIC : ℤ := 0x67458923

def EAGAIN : ℤ := 11

def EINVAL : ℤ := 22

def uintSize : ℕ := 2 ^ 32

@[ext] structure Sem where
  semCount : ℕ
  semMagic : ℤ
  deriving DecidableEq

inductive Reply where
  | ok
  | error (errno : ℤ)
  deriving DecidableEq

/-- The points at which a thread takes `sem_mutex`: the three calls, and the end of the wait. -/
inductive Point where
  | wait
  | waitLoop
  | trywait
  | post
  deriving DecidableEq

abbrev SemSection := Section Point Unit Reply Sem

def fail (sem : Sem) (errno : ℤ) : SemSection :=
  { shared := sem, wake := none, exit := .ret (.error errno) }

def waitLoop (sem : Sem) : SemSection :=
  if sem.semCount = 0 then { shared := sem, wake := none, exit := .wait () .waitLoop }
  else { shared := { sem with semCount := sem.semCount - 1 }, wake := none, exit := .ret .ok }

def mysemWait (sem : Sem) : SemSection :=
  if sem.semMagic ≠ SEM_MAGIC then fail sem EINVAL else waitLoop sem

def mysemTrywait (sem : Sem) : SemSection :=
  if sem.semMagic ≠ SEM_MAGIC then fail sem EINVAL
  else if sem.semCount > 0 then
    { shared := { sem with semCount := sem.semCount - 1 }, wake := none, exit := .ret .ok }
  else fail sem EAGAIN

/-- `mysem_post`: the condition is signalled only if the count was 0. -/
def mysemPost (sem : Sem) : SemSection :=
  if sem.semMagic ≠ SEM_MAGIC then fail sem EINVAL
  else
    { shared := { sem with semCount := (sem.semCount + 1) % uintSize }
      wake := if sem.semCount = 0 then some (.signal ()) else none
      exit := .ret .ok }

def criticalSection : Point → Sem → SemSection
  | .wait => mysemWait
  | .waitLoop => waitLoop
  | .trywait => mysemTrywait
  | .post => mysemPost

def IsEntry : Point → Prop
  | .waitLoop => False
  | _ => True

def semMonitor (ι : Type) : Monitor ι Point Unit Reply Sem where
  entry := IsEntry
  sect _ := criticalSection

abbrev SemState (ι : Type) := MState ι Point Unit Sem

def semStart (ι : Type) (value : ℕ) : SemState ι :=
  MState.start { semCount := value, semMagic := SEM_MAGIC }

/-! ## What the calls have done -/

def isPost {ι : Type} : Label ι Point Unit Reply → Bool
  | .run _ .post (.ret .ok) => true
  | _ => false

/-- The step is the end of a `mysem_wait`, or of a `mysem_trywait` that got the semaphore. -/
def isWait {ι : Type} : Label ι Point Unit Reply → Bool
  | .run _ .wait (.ret .ok) => true
  | .run _ .waitLoop (.ret .ok) => true
  | .run _ .trywait (.ret .ok) => true
  | _ => false

def posts {ι : Type} (ls : List (Label ι Point Unit Reply)) : ℕ := ls.countP isPost

def waits {ι : Type} (ls : List (Label ι Point Unit Reply)) : ℕ := ls.countP isWait

end UnixPrograms.Mysem
