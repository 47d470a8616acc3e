import UnixPrograms.Lib.Ring
import UnixPrograms.Lib.Runs
import Mathlib.Data.Int.Notation

/-!
# The job queue of the print daemon

`jobhead` and `jobtail` are the links of the null pointer, so that the list of the pending jobs is a
ring (`Lib.Ring`).  The threads are interleaved at `joblock`.  `add_job` sends its signal after it
has dropped the lock, so that the printer thread may sleep while there is a job, but then the signal
is still to come (`queue_of_run`).
-/

namespace UnixPrograms.Printd

open Function List

structure Job where
  jobid : ℤ
  next : ℕ
  prev : ℕ

/-- The memory with the jobs, and the ends of the list.  The null pointer is 0. -/
structure Jobs where
  heap : ℕ → Job
  jobhead : ℕ
  jobtail : ℕ

namespace Jobs

def setNext (q : Jobs) (jp v : ℕ) : Jobs :=
  { q with heap := update q.heap jp { q.heap jp with next := v } }

def setPrev (q : Jobs) (jp v : ℕ) : Jobs :=
  { q with heap := update q.heap jp { q.heap jp with prev := v } }

/-- `add_job` on the way to the lock: the new job is filled in.  Its `prev` is whatever was
there. -/
def newJob (q : Jobs) (jp : ℕ) (jobid : ℤ) : Jobs :=
  { q with heap := update q.heap jp { q.heap jp with jobid := jobid, next := 0 } }

def addJob (q : Jobs) (jp : ℕ) : Jobs :=
  let q := q.setPrev jp q.jobtail
  let q := if q.jobtail = 0 then { q with jobhead := jp } else q.setNext q.jobtail jp
  { q with jobtail := jp }

def replaceJob (q : Jobs) (jp : ℕ) : Jobs :=
  let q := q.setPrev jp 0
  let q := q.setNext jp q.jobhead
  let q := if q.jobhead = 0 then { q with jobtail := jp } else q.setPrev q.jobhead jp
  { q with jobhead := jp }

def removeJob (q : Jobs) (target : ℕ) : Jobs :=
  let q :=
    if (q.heap target).next ≠ 0 then q.setPrev (q.heap target).next (q.heap target).prev
    else { q with jobtail := (q.heap target).prev }
  if (q.heap target).prev ≠ 0 then q.setNext (q.heap target).prev (q.heap target).next
  else { q with jobhead := (q.heap target).next }

end Jobs

/-! ## The threads -/

inductive Client where
  | outside
  | filled (jp : ℕ)
  | unlocked
  deriving DecidableEq

inductive Printer where
  /-- On the way to `joblock`, at the top of its loop or out of `pthread_cond_wait`. -/
  | locking
  | asleep
  | printing (jp : ℕ)
  deriving DecidableEq

/-- The jobs in the hands of the printer thread. -/
def Printer.hand : Printer → List ℕ
  | .printing jp => [jp]
  | _ => []

/-- What the printer thread does with jobs.  The jobs are numbered in the order in which `add_job`
linked them. -/
inductive Event where
  | pick (job : ℕ) (jobid : ℤ)
  | defer (job : ℕ)
  | done (job : ℕ)
  deriving DecidableEq

/-- The memory, the threads, and a record of what has happened. -/
structure State (ι : Type) where
  jobs : Jobs
  /-- The addresses that `malloc` has given out. -/
  live : ℕ → Bool
  client : ι → Client
  printer : Printer
  /-- The job IDs, in the order in which `add_job` linked them. -/
  order : List ℤ
  /-- The number of the job at an address. -/
  num : ℕ → ℕ
  /-- What the printer thread has done, the latest event first. -/
  log : List Event

def start {ι : Type} (heap : ℕ → Job) : State ι where
  jobs := ⟨heap, 0, 0⟩
  live _ := false
  client _ := .outside
  printer := .locking
  order := []
  num _ := 0
  log := []

inductive Action (ι : Type) where
  | malloc (p : ι) (jp : ℕ) (jobid : ℤ)
  | link (p : ι)
  | signal (p : ι)
  /-- The printer thread wakes up without a signal. -/
  | wakeup
  /-- The printer thread looks at the queue, under the lock. -/
  | look
  | done
  | defer

section Step

variable {ι : Type} [DecidableEq ι]

def step (s : State ι) : Action ι → Option (State ι)
  | .malloc p jp jobid =>
    if s.client p = .outside ∧ jp ≠ 0 ∧ s.live jp = false then
      some { s with
        jobs := s.jobs.newJob jp jobid
        live := update s.live jp true
        client := update s.client p (.filled jp) }
    else none
  | .link p =>
    match s.client p with
    | .filled jp =>
      some { s with
        jobs := s.jobs.addJob jp
        client := update s.client p .unlocked
        order := s.order ++ [(s.jobs.heap jp).jobid]
        num := update s.num jp s.order.length }
    | _ => none
  | .signal p =>
    if s.client p = .unlocked then
      some { s with
        client := update s.client p .outside
        printer := if s.printer = .asleep then .locking else s.printer }
    else none
  | .wakeup => if s.printer = .asleep then some { s with printer := .locking } else none
  | .look =>
    if s.printer = .locking then
      if s.jobs.jobhead = 0 then some { s with printer := .asleep }
      else
        some { s with
          jobs := s.jobs.removeJob s.jobs.jobhead
          printer := .printing s.jobs.jobhead
          log := .pick (s.num s.jobs.jobhead) (s.jobs.heap s.jobs.jobhead).jobid :: s.log }
    else none
  | .done =>
    match s.printer with
    | .printing jp =>
      some { s with
        live := update s.live jp false
        printer := .locking
        log := .done (s.num jp) :: s.log }
    | _ => none
  | .defer =>
    match s.printer with
    | .printing jp =>
      some { s with
        jobs := s.jobs.replaceJob jp
        printer := .locking
        log := .defer (s.num jp) :: s.log }
    | _ => none

end Step

/-- The jobs that are printed or cancelled, in order. -/
def finished : List Event → List ℕ
  | [] => []
  | .done job :: log => finished log ++ [job]
  | _ :: log => finished log

/-- The job IDs that were picked up, in order.  A job that is picked up again right after it was put
back counts once. -/
def picked : List Event → List ℤ
  | [] => []
  | .pick job jobid :: log =>
    if log.head? = some (.defer job) then picked log else picked log ++ [jobid]
  | _ :: log => picked log

/-! ## The list is a ring -/

namespace Jobs

def nxt (q : Jobs) (a : ℕ) : ℕ := if a = 0 then q.jobhead else (q.heap a).next

def prv (q : Jobs) (a : ℕ) : ℕ := if a = 0 then q.jobtail else (q.heap a).prev

/-- The doubly linked list from `jobhead` to `jobtail` consists of the jobs `l`. -/
def Lists (q : Jobs) (l : List ℕ) : Prop := Ring q.nxt q.prv 0 l

def linkNext (q : Jobs) (a v : ℕ) : Jobs :=
  if a = 0 then { q with jobhead := v } else q.setNext a v

def linkPrev (q : Jobs) (a v : ℕ) : Jobs :=
  if a = 0 then { q with jobtail := v } else q.setPrev a v

@[simp] lemma nxt_linkNext (q : Jobs) (a v : ℕ) : (q.linkNext a v).nxt = update q.nxt a v := by
  funext u
  by_cases ha : a = 0 <;> by_cases hu : u = a
  · subst hu
    simp [linkNext, nxt, ha]
  · have hu0 : u ≠ 0 := fun h => hu (h.trans ha.symm)
    simp [linkNext, nxt, ha, hu0]
  · subst hu
    simp [linkNext, nxt, setNext, ha]
  · simp [linkNext, nxt, setNext, ha, update_of_ne hu]

@[simp] lemma prv_linkNext (q : Jobs) (a v : ℕ) : (q.linkNext a v).prv = q.prv := by
  funext u
  by_cases ha : a = 0
  · simp [linkNext, prv, ha]
  · by_cases hu : u = a
    · simp [linkNext, prv, setNext, ha, hu]
    · simp [linkNext, prv, setNext, ha, update_of_ne hu]

@[simp] lemma prv_linkPrev (q : Jobs) (a v : ℕ) : (q.linkPrev a v).prv = update q.prv a v := by
  funext u
  by_cases ha : a = 0 <;> by_cases hu : u = a
  · subst hu
    simp [linkPrev, prv, ha]
  · have hu0 : u ≠ 0 := fun h => hu (h.trans ha.symm)
    simp [linkPrev, prv, ha, hu0]
  · subst hu
    simp [linkPrev, prv, setPrev, ha]
  · simp [linkPrev, prv, setPrev, ha, update_of_ne hu]

@[simp] lemma nxt_linkPrev (q : Jobs) (a v : ℕ) : (q.linkPrev a v).nxt = q.nxt := by
  funext u
  by_cases ha : a = 0
  · simp [linkPrev, nxt, ha]
  · by_cases hu : u = a
    · simp [linkPrev, nxt, setPrev, ha, hu]
    · simp [linkPrev, nxt, setPrev, ha, update_of_ne hu]

@[simp] lemma jobid_linkNext (q : Jobs) (a v u : ℕ) :
    ((q.linkNext a v).heap u).jobid = (q.heap u).jobid := by
  by_cases ha : a = 0
  · simp [linkNext, ha]
  · by_cases hu : u = a
    · simp [linkNext, setNext, ha, hu]
    · simp [linkNext, setNext, ha, update_of_ne hu]

@[simp] lemma jobid_linkPrev (q : Jobs) (a v u : ℕ) :
    ((q.linkPrev a v).heap u).jobid = (q.heap u).jobid := by
  by_cases ha : a = 0
  · simp [linkPrev, ha]
  · by_cases hu : u = a
    · simp [linkPrev, setPrev, ha, hu]
    · simp [linkPrev, setPrev, ha, update_of_ne hu]

variable {q : Jobs} {jp : ℕ} {l : List ℕ}

lemma nxt_newJob (hjp : jp ≠ 0) (jobid : ℤ) : (q.newJob jp jobid).nxt = update q.nxt jp 0 := by
  funext u
  by_cases hu : u = jp
  · simp [nxt, newJob, hu, hjp]
  · simp [nxt, newJob, update_of_ne hu]

lemma prv_newJob (jobid : ℤ) : (q.newJob jp jobid).prv = q.prv := by
  funext u
  by_cases hu : u = jp
  · simp [prv, newJob, hu]
  · simp [prv, newJob, update_of_ne hu]

lemma addJob_eq (hjp : jp ≠ 0) :
    q.addJob jp = ((q.linkPrev jp (q.prv 0)).linkNext (q.prv 0) jp).linkPrev 0 jp := by
  have hset : q.linkPrev jp (q.prv 0) = q.setPrev jp (q.prv 0) := if_neg hjp
  rw [hset]
  rfl

lemma replaceJob_eq (hjp : jp ≠ 0) : q.replaceJob jp =
    (((q.linkPrev jp 0).linkNext jp (q.nxt 0)).linkPrev (q.nxt 0) jp).linkNext 0 jp := by
  have hprev : q.linkPrev jp 0 = q.setPrev jp 0 := if_neg hjp
  have hnext : (q.setPrev jp 0).linkNext jp (q.nxt 0) = (q.setPrev jp 0).setNext jp (q.nxt 0) :=
    if_neg hjp
  rw [hprev, hnext]
  rfl

lemma removeJob_eq (hjp : jp ≠ 0) (hnext : q.nxt jp ≠ jp) :
    q.removeJob jp = (q.linkPrev (q.nxt jp) (q.prv jp)).linkNext (q.prv jp) (q.nxt jp) := by
  have hn : q.nxt jp = (q.heap jp).next := if_neg hjp
  have hp : q.prv jp = (q.heap jp).prev := if_neg hjp
  have hheap : (q.linkPrev (q.heap jp).next (q.heap jp).prev).heap jp = q.heap jp := by
    rw [linkPrev]
    split
    · rfl
    · exact update_of_ne (fun heq => hnext (hn.trans heq.symm)) ..
  have hfirst : (if (q.heap jp).next ≠ 0 then q.setPrev (q.heap jp).next (q.heap jp).prev
      else { q with jobtail := (q.heap jp).prev }) =
        q.linkPrev (q.heap jp).next (q.heap jp).prev := by
    rw [linkPrev, ite_not]
  rw [hn, hp, removeJob]
  simp only [hfirst, hheap]
  rw [ite_not]
  rfl

lemma Lists.newJob (h : q.Lists l) (hjp : jp ∉ 0 :: l) (jobid : ℤ) :
    (q.newJob jp jobid).Lists l := by
  have hne : jp ≠ 0 := fun heq => hjp (by simp [heq])
  rw [Lists, nxt_newJob hne, prv_newJob]
  refine ⟨h.path.congr (fun u hu => update_of_ne ?_ ..) fun _ _ => rfl, h.nodup⟩
  rintro rfl
  exact hjp hu

lemma Lists.addJob (h : q.Lists l) (hjp : jp ∉ 0 :: l) (hnext : q.nxt jp = 0) :
    (q.addJob jp).Lists (l ++ [jp]) := by
  have hne : jp ≠ 0 := fun heq => hjp (by simp [heq])
  have hlast : jp ≠ q.prv 0 := fun heq => hjp (heq ▸ h.path.prv_mem)
  rw [addJob_eq hne, Lists]
  refine Ring.concat h hjp ?_ ?_ ?_ ?_ ?_ ?_
  · simp
  · simp [hne]
  · simp [hlast, hnext]
  · simp
  · intro u _ hu
    simp [hu]
  · intro u hu
    have hu0 : u ≠ 0 := fun heq => (List.nodup_cons.mp h.nodup).1 (heq ▸ hu)
    have hujp : u ≠ jp := fun heq => hjp (heq ▸ mem_cons_of_mem 0 hu)
    simp [hu0, hujp]

lemma Lists.replaceJob (h : q.Lists l) (hjp : jp ∉ 0 :: l) : (q.replaceJob jp).Lists (jp :: l) := by
  have hne : jp ≠ 0 := fun heq => hjp (by simp [heq])
  have hmem : ∀ u, u ∈ l ++ [0] → u ≠ jp := by
    rintro u hu rfl
    exact hjp ((perm_append_singleton 0 l).mem_iff.mp hu)
  have hfirst : jp ≠ q.nxt 0 := fun heq => hmem _ h.path.nxt_mem heq.symm
  rw [replaceJob_eq hne, Lists]
  refine Ring.cons h hjp ?_ ?_ ?_ ?_ ?_ ?_
  · simp [hne]
  · simp
  · simp
  · simp [hfirst]
  · intro u hu
    have hu0 : u ≠ 0 := fun heq => (List.nodup_cons.mp h.nodup).1 (heq ▸ hu)
    simp [hu0, hmem u (by simp [hu])]
  · intro u hu hu'
    simp [hu', hmem u hu]

lemma Lists.nxt_ne {l₁ l₂ : List ℕ} (h : q.Lists (l₁ ++ jp :: l₂)) : jp ≠ 0 ∧ q.nxt jp ≠ jp := by
  have hperm : (0 :: (l₁ ++ jp :: l₂)).Perm (jp :: 0 :: (l₁ ++ l₂)) :=
    (List.perm_middle.cons 0).trans (List.Perm.swap jp 0 _)
  have hjp : jp ∉ 0 :: (l₁ ++ l₂) := (List.nodup_cons.mp (hperm.nodup_iff.mp h.nodup)).1
  have hne : jp ≠ 0 := fun heq => hjp (by simp [heq])
  refine ⟨hne, fun heq => ?_⟩
  have hmem := heq ▸ (path_append.mp h.path).2.nxt_mem
  rcases mem_append.mp hmem with hmem | hmem
  · exact hjp (by simp [hmem])
  · exact hne (mem_singleton.mp hmem)

lemma Lists.removeJob {l₁ l₂ : List ℕ} (h : q.Lists (l₁ ++ jp :: l₂)) :
    (q.removeJob jp).Lists (l₁ ++ l₂) := by
  obtain ⟨hne, hnext⟩ := h.nxt_ne
  rw [removeJob_eq hne hnext, Lists]
  refine Ring.remove h ?_ ?_ ?_ ?_
  · simp
  · simp
  · intro u hu
    simp [hu]
  · intro u hu
    simp [hu]

lemma jobid_addJob (hjp : jp ≠ 0) (u : ℕ) : ((q.addJob jp).heap u).jobid = (q.heap u).jobid := by
  simp [addJob_eq hjp]

lemma jobid_replaceJob (hjp : jp ≠ 0) (u : ℕ) :
    ((q.replaceJob jp).heap u).jobid = (q.heap u).jobid := by
  simp [replaceJob_eq hjp]

lemma jobid_removeJob (hjp : jp ≠ 0) (hnext : q.nxt jp ≠ jp) (u : ℕ) :
    ((q.removeJob jp).heap u).jobid = (q.heap u).jobid := by
  simp [removeJob_eq hjp hnext]

end Jobs

end UnixPrograms.Printd
