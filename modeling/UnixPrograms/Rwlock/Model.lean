import UnixPrograms.Lib.Memory
import UnixPrograms.Lib.Monitor

/-!
# The read-write lock of `my_rwlock`

The critical sections of the calls under `rw_mutex`: from `pthread_mutex_lock` or the end of a
`pthread_cond_wait` to the return or to the next wait.  `rwMonitor` is the lock together with a
record of who holds it, which follows the return values.  The counters are `int`s and wrap around.
-/

namespace UnixPrograms.Rwlock

open Function

def rwMagicValue : ℤ := 0x19283746

def INT_MAX : ℕ := 2 ^ 31 - 1

def EBUSY : ℤ := 16

def EINVAL : ℤ := 22

/-- The fields of `pthread_rwlock_t` beside the mutex and the condition variables. -/
@[ext] structure Lock where
  rwMagic : ℤ
  rwNwaitreaders : ℤ
  rwNwaitwriters : ℤ
  /-- `-1` if a writer has the lock, else the number of readers holding the lock. -/
  rwRefcount : ℤ
  deriving DecidableEq

/-- The two condition variables. -/
inductive Cond where
  | rwCondreaders
  | rwCondwriters
  deriving DecidableEq

inductive Point where
  | rdlock
  | rdlockWait
  | wrlock
  | wrlockWait
  | tryrdlock
  | trywrlock
  | unlock
  deriving DecidableEq

abbrev LockSection := Section Point Cond ℤ Lock

def pthreadRwlockInit : Lock where
  rwMagic := rwMagicValue
  rwNwaitreaders := 0
  rwNwaitwriters := 0
  rwRefcount := 0

def rdlockLoop (lock : Lock) : LockSection :=
  if lock.rwRefcount < 0 ∨ lock.rwNwaitwriters > 0 then
    { shared := { lock with rwNwaitreaders := wrapSigned 4 (lock.rwNwaitreaders + 1) }
      wake := none
      exit := .wait .rwCondreaders .rdlockWait }
  else
    { shared := { lock with rwRefcount := wrapSigned 4 (lock.rwRefcount + 1) }
      wake := none
      exit := .ret 0 }

def rdlockAfterWait (result : ℤ) (lock : Lock) : LockSection :=
  let lock' := { lock with rwNwaitreaders := wrapSigned 4 (lock.rwNwaitreaders - 1) }
  if result ≠ 0 then { shared := lock', wake := none, exit := .ret result } else rdlockLoop lock'

def pthreadRwlockRdlock (lock : Lock) : LockSection :=
  if lock.rwMagic ≠ rwMagicValue then { shared := lock, wake := none, exit := .ret EINVAL }
  else rdlockLoop lock

def wrlockLoop (lock : Lock) : LockSection :=
  if lock.rwRefcount ≠ 0 then
    { shared := { lock with rwNwaitwriters := wrapSigned 4 (lock.rwNwaitwriters + 1) }
      wake := none
      exit := .wait .rwCondwriters .wrlockWait }
  else
    { shared := { lock with rwRefcount := -1 }
      wake := none
      exit := .ret 0 }

def wrlockAfterWait (result : ℤ) (lock : Lock) : LockSection :=
  let lock' := { lock with rwNwaitwriters := wrapSigned 4 (lock.rwNwaitwriters - 1) }
  if result ≠ 0 then { shared := lock', wake := none, exit := .ret result } else wrlockLoop lock'

def pthreadRwlockWrlock (lock : Lock) : LockSection :=
  if lock.rwMagic ≠ rwMagicValue then { shared := lock, wake := none, exit := .ret EINVAL }
  else wrlockLoop lock

def pthreadRwlockTryrdlock (lock : Lock) : LockSection :=
  if lock.rwMagic ≠ rwMagicValue then { shared := lock, wake := none, exit := .ret EINVAL }
  else if lock.rwRefcount < 0 ∨ lock.rwNwaitwriters > 0 then
    { shared := lock, wake := none, exit := .ret EBUSY }
  else
    { shared := { lock with rwRefcount := wrapSigned 4 (lock.rwRefcount + 1) }
      wake := none
      exit := .ret 0 }

def pthreadRwlockTrywrlock (lock : Lock) : LockSection :=
  if lock.rwMagic ≠ rwMagicValue then { shared := lock, wake := none, exit := .ret EINVAL }
  else if lock.rwRefcount ≠ 0 then { shared := lock, wake := none, exit := .ret EBUSY }
  else { shared := { lock with rwRefcount := -1 }, wake := none, exit := .ret 0 }

/-- The wake-up of `pthread_rwlock_unlock`: waiting writers are preferred over waiting readers, and
one of them is woken only once the lock is free. -/
def unlockWake (lock : Lock) : Option (Wake Cond) :=
  if lock.rwNwaitwriters > 0 then
    if lock.rwRefcount = 0 then some (.signal .rwCondwriters) else none
  else if lock.rwNwaitreaders > 0 then some (.broadcast .rwCondreaders) else none

def unlockRelease (lock : Lock) : LockSection where
  shared := lock
  wake := unlockWake lock
  exit := .ret 0

/-- `pthread_rwlock_unlock`; a lock that nobody holds ends the process by `err_dump`. -/
def pthreadRwlockUnlock (lock : Lock) : LockSection :=
  if lock.rwMagic ≠ rwMagicValue then { shared := lock, wake := none, exit := .ret EINVAL }
  else if lock.rwRefcount > 0 then unlockRelease { lock with rwRefcount := lock.rwRefcount - 1 }
  else if lock.rwRefcount = -1 then unlockRelease { lock with rwRefcount := 0 }
  else { shared := lock, wake := none, exit := .crash }

def criticalSection : Point → Lock → LockSection
  | .rdlock => pthreadRwlockRdlock
  | .rdlockWait => rdlockAfterWait 0
  | .wrlock => pthreadRwlockWrlock
  | .wrlockWait => wrlockAfterWait 0
  | .tryrdlock => pthreadRwlockTryrdlock
  | .trywrlock => pthreadRwlockTrywrlock
  | .unlock => pthreadRwlockUnlock

def IsEntry (k : Point) : Prop := k ≠ .rdlockWait ∧ k ≠ .wrlockWait

/-- The lock and who holds it: the number of read locks that each thread has obtained and not given
back, and whether it has the write lock. -/
structure Held (ι : Type) where
  lock : Lock
  reads : ι → ℕ
  writes : ι → ℕ

variable {ι : Type} [DecidableEq ι]

/-- A call of the thread `t` that returns 0 obtains a read lock or the write lock, or gives one
back. -/
def Held.record (h : Held ι) (t : ι) (lock : Lock) : Point → Held ι
  | .rdlock | .rdlockWait | .tryrdlock =>
      { h with lock := lock, reads := update h.reads t (h.reads t + 1) }
  | .wrlock | .wrlockWait | .trywrlock =>
      { h with lock := lock, writes := update h.writes t (h.writes t + 1) }
  | .unlock =>
      if 0 < h.writes t then
        { h with lock := lock, writes := update h.writes t (h.writes t - 1) }
      else { h with lock := lock, reads := update h.reads t (h.reads t - 1) }

def Held.after (h : Held ι) (t : ι) (k : Point) (lock : Lock) : Exit Point Cond ℤ → Held ι
  | .ret r => if r = 0 then h.record t lock k else { h with lock := lock }
  | _ => { h with lock := lock }

def rwMonitor (ι : Type) [DecidableEq ι] : Monitor ι Point Cond ℤ (Held ι) where
  entry := IsEntry
  sect t k h :=
    { shared := h.after t k (criticalSection k h.lock).shared (criticalSection k h.lock).exit
      wake := (criticalSection k h.lock).wake
      exit := (criticalSection k h.lock).exit }

abbrev RwState (ι : Type) := MState ι Point Cond (Held ι)

def rwStart (ι : Type) : RwState ι :=
  MState.start { lock := pthreadRwlockInit, reads := fun _ => 0, writes := fun _ => 0 }

/-- A thread unlocks only what it holds. -/
def UnlocksOwn (s : RwState ι) : Label ι Point Cond ℤ → Prop
  | .call t .unlock => 0 < s.shared.reads t ∨ 0 < s.shared.writes t
  | _ => True

def isRdlockWait : Point → Bool
  | .rdlockWait => true
  | _ => false

def isWrlockWait : Point → Bool
  | .wrlockWait => true
  | _ => false

end UnixPrograms.Rwlock
