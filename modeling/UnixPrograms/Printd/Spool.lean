import UnixPrograms.Lib.Runs
import UnixPrograms.Lib.Text

/-!
# Job numbers of the print daemon across restarts

A client thread takes its job number from the counter `nextjob`, stores the job in the spool
directory, tells the client that it is accepted, and queues it.  The printer thread writes the
counter to the job file when it picks up a job.  So a daemon that stops before starts with a number
that an accepted job has, and the next client truncates its data file (`newJobno_of_accepted`,
`newJobno_not_accepted`).

The daemon may stop between any two steps.
-/

namespace UnixPrograms.Spool

open Function Option

def SPOOLDIR : Bytes := ascii "/var/spool/printer"

def JOBFILE : Bytes := ascii "jobno"

def FILENMSZ : ℕ := 64

structure Disk where
  jobno : Bytes
  data : ℤ → Option Bytes
  /-- The control files, by job number, and whether they hold a whole request. -/
  ctl : ℤ → Option Bool

inductive Client where
  | outside
  /-- In front of `creat` for the data file. -/
  | hasId (jobid : ℤ)
  /-- Reading the file of the client and writing the data file. -/
  | writing (jobid : ℤ)
  /-- In front of the `write` to the control file. -/
  | ctlOpen (jobid : ℤ)
  /-- In front of the response to the client. -/
  | ctlDone (jobid : ℤ)
  /-- In front of `add_job`. -/
  | accepted (jobid : ℤ)
  /-- After an error, in front of the `unlink` of the control file. -/
  | dropCtl (jobid : ℤ)
  /-- After an error, in front of the `unlink` of the data file. -/
  | dropData (jobid : ℤ)
  deriving DecidableEq

inductive Printer where
  | waiting
  /-- In front of `update_jobno`. -/
  | picked (jobid : ℤ)
  /-- In `update_jobno`, with the text of the number `n`. -/
  | updating (jobid n : ℤ)
  | printing (jobid : ℤ)
  /-- In front of the `unlink` of the data file of a printed job. -/
  | dropData (jobid : ℤ)
  /-- In front of the `unlink` of the control file of a printed job. -/
  | dropCtl (jobid : ℤ)
  deriving DecidableEq

/-- The memory and the threads of the daemon. -/
structure Daemon (ι : Type) where
  nextjob : ℤ
  /-- The directory entries that `build_qonstart` has yet to look at. -/
  entries : List ℤ
  queue : List ℤ
  client : ι → Client
  printer : Printer

/-- The disk, and the daemon if it is running. -/
structure State (ι : Type) where
  disk : Disk
  daemon : Option (Daemon ι)
  /-- The jobs that are accepted and not yet printed. -/
  pending : List ℤ

def start (ι : Type) : State ι where
  disk := ⟨[], fun _ => none, fun _ => none⟩
  daemon := none
  pending := []

/-- `init_request`: the number in the job file.  The text is read into a buffer that still holds the
name of the file. -/
def initRequest (d : Disk) : ℤ :=
  let name := SPOOLDIR ++ ascii "/" ++ JOBFILE ++ [0]
  let text := readAt d.jobno 0 FILENMSZ
  if text.length = 0 then 1 else atol (writeAt name 0 text)

def getNewjobno (nextjob : ℤ) : ℤ × ℤ :=
  -- an `int32_t`
  let next := if nextjob + 1 = 2 ^ 31 then -2 ^ 31 else nextjob + 1
  (nextjob, if next ≤ 0 then 1 else next)

def updateJobno (d : Disk) (n : ℤ) : Disk := { d with jobno := writeAt d.jobno 0 (decimalInt n) }

inductive Action (ι : Type) where
  /-- The daemon starts; `readdir` gives the control files in the order `entries`. -/
  | start (entries : List ℤ)
  | stop
  /-- `build_qonstart` looks at the next entry. -/
  | scan
  /-- A client thread has read a request, and gets a job number. -/
  | newJobno (p : ι)
  | createData (p : ι)
  | createDataFails (p : ι)
  | write (p : ι) (buf : Bytes)
  | writeFails (p : ι)
  | createCtl (p : ι)
  | createCtlFails (p : ι)
  | writeCtl (p : ι)
  | writeCtlFails (p : ι)
  | respond (p : ι)
  | addJob (p : ι)
  | unlink (p : ι)
  | pick
  /-- `update_jobno` puts the counter into its buffer. -/
  | format
  | update
  | cancel
  | defer
  | printed
  | remove

section Step

variable {ι : Type} [DecidableEq ι]

def Daemon.goOn (d : Daemon ι) (p : ι) (c : Client) : Daemon ι :=
  { d with client := update d.client p c }

/-- `creat` for a data file: it is empty then. -/
def Disk.createData (k : Disk) (jobid : ℤ) : Disk :=
  { k with data := update k.data jobid (some []) }

def Disk.writeData (k : Disk) (jobid : ℤ) (buf : Bytes) : Disk :=
  { k with data := update k.data jobid ((k.data jobid).map (· ++ buf)) }

def Disk.unlinkData (k : Disk) (jobid : ℤ) : Disk :=
  { k with data := update k.data jobid none }

def Disk.createCtl (k : Disk) (jobid : ℤ) : Disk :=
  { k with ctl := update k.ctl jobid (some false) }

def Disk.writeCtl (k : Disk) (jobid : ℤ) : Disk :=
  { k with ctl := update k.ctl jobid ((k.ctl jobid).map fun _ => true) }

def Disk.unlinkCtl (k : Disk) (jobid : ℤ) : Disk :=
  { k with ctl := update k.ctl jobid none }

@[simp] lemma Daemon.client_goOn_self (d : Daemon ι) (p : ι) (c : Client) :
    (d.goOn p c).client p = c := update_self ..

lemma Daemon.client_goOn_of_ne (d : Daemon ι) {p q : ι} (h : q ≠ p) (c : Client) :
    (d.goOn p c).client q = d.client q := update_of_ne h ..

def clientStep (s : State ι) (d : Daemon ι) : Action ι → Option (State ι)
  | .newJobno p =>
    -- connections are accepted after `build_qonstart`
    if d.entries = [] ∧ d.client p = .outside then
      let (jobid, next) := getNewjobno d.nextjob
      some { s with daemon := some { d.goOn p (.hasId jobid) with nextjob := next } }
    else none
  | .createData p =>
    match d.client p with
    | .hasId jobid =>
      some { s with disk := s.disk.createData jobid, daemon := some (d.goOn p (.writing jobid)) }
    | _ => none
  | .createDataFails p =>
    match d.client p with
    | .hasId _ => some { s with daemon := some (d.goOn p .outside) }
    | _ => none
  | .write p buf =>
    match d.client p with
    | .writing jobid => some { s with disk := s.disk.writeData jobid buf }
    | _ => none
  | .writeFails p =>
    match d.client p with
    | .writing jobid => some { s with daemon := some (d.goOn p (.dropData jobid)) }
    | _ => none
  | .createCtl p =>
    match d.client p with
    | .writing jobid =>
      some { s with disk := s.disk.createCtl jobid, daemon := some (d.goOn p (.ctlOpen jobid)) }
    | _ => none
  | .createCtlFails p =>
    match d.client p with
    | .writing jobid => some { s with daemon := some (d.goOn p (.dropData jobid)) }
    | _ => none
  | .writeCtl p =>
    match d.client p with
    | .ctlOpen jobid =>
      some { s with disk := s.disk.writeCtl jobid, daemon := some (d.goOn p (.ctlDone jobid)) }
    | _ => none
  | .writeCtlFails p =>
    match d.client p with
    | .ctlOpen jobid => some { s with daemon := some (d.goOn p (.dropCtl jobid)) }
    | _ => none
  | .respond p =>
    match d.client p with
    | .ctlDone jobid =>
      some { s with daemon := some (d.goOn p (.accepted jobid)), pending := jobid :: s.pending }
    | _ => none
  | .addJob p =>
    match d.client p with
    | .accepted jobid =>
      some { s with daemon := some { d.goOn p .outside with queue := d.queue ++ [jobid] } }
    | _ => none
  | .unlink p =>
    match d.client p with
    | .dropCtl jobid =>
      some { s with disk := s.disk.unlinkCtl jobid, daemon := some (d.goOn p (.dropData jobid)) }
    | .dropData jobid =>
      some { s with disk := s.disk.unlinkData jobid, daemon := some (d.goOn p .outside) }
    | _ => none
  | _ => none

def printerStep (s : State ι) (d : Daemon ι) : Action ι → Option (State ι)
  | .pick =>
    match d.printer, d.queue with
    | .waiting, jobid :: queue =>
      some { s with daemon := some { d with queue := queue, printer := .picked jobid } }
    | _, _ => none
  | .format =>
    match d.printer with
    | .picked jobid =>
      some { s with daemon := some { d with printer := .updating jobid d.nextjob } }
    | _ => none
  | .update =>
    match d.printer with
    | .updating jobid n =>
      some { s with
        disk := updateJobno s.disk n
        daemon := some { d with printer := .printing jobid } }
    | _ => none
  | .cancel =>
    match d.printer with
    | .printing _ => some { s with daemon := some { d with printer := .waiting } }
    | _ => none
  | .defer =>
    match d.printer with
    | .printing jobid =>
      some { s with daemon := some { d with queue := jobid :: d.queue, printer := .waiting } }
    | _ => none
  | .printed =>
    match d.printer with
    | .printing jobid =>
      some { s with
        daemon := some { d with printer := .dropData jobid }
        pending := s.pending.filter (· ≠ jobid) }
    | _ => none
  | .remove =>
    match d.printer with
    | .dropData jobid =>
      some { s with
        disk := s.disk.unlinkData jobid
        daemon := some { d with printer := .dropCtl jobid } }
    | .dropCtl jobid =>
      some { s with
        disk := s.disk.unlinkCtl jobid
        daemon := some { d with printer := .waiting } }
    | _ => none
  | _ => none

def scanStep (s : State ι) (d : Daemon ι) : Option (State ι) :=
  match d.entries with
  | [] => none
  | jobid :: entries =>
    match s.disk.ctl jobid with
    -- the file cannot be opened
    | none => some { s with daemon := some { d with entries := entries } }
    -- not a whole request
    | some false =>
      some { s with
        disk := (s.disk.unlinkCtl jobid).unlinkData jobid
        daemon := some { d with entries := entries } }
    | some true =>
      some { s with daemon := some { d with entries := entries, queue := d.queue ++ [jobid] } }

def step (s : State ι) (a : Action ι) : Option (State ι) :=
  match s.daemon with
  | none =>
    match a with
    | .start entries =>
      some { s with daemon := some ⟨initRequest s.disk, entries, [], fun _ => .outside, .waiting⟩ }
    | _ => none
  | some d =>
    match a with
    | .start _ => none
    | .stop => some { s with daemon := none }
    | .scan => scanStep s d
    | a => (printerStep s d a).or (clientStep s d a)

end Step

/-- At each start the number in the job file is above the numbers of the accepted jobs that are not
printed.  The counter does not wrap around. -/
def jobFileAhead {ι : Type} (s : State ι) : Action ι → Bool
  | .start _ => decide (∀ jobid ∈ s.pending, jobid < initRequest s.disk)
  | .newJobno _ => s.daemon.all fun d => d.nextjob + 1 < 2 ^ 31
  | _ => true

/-! ## The invariant -/

def Client.jobid : Client → Option ℤ
  | .outside => none
  | .hasId jobid => some jobid
  | .writing jobid => some jobid
  | .ctlOpen jobid => some jobid
  | .ctlDone jobid => some jobid
  | .accepted jobid => some jobid
  | .dropCtl jobid => some jobid
  | .dropData jobid => some jobid

/-- The job number of a client thread whose job is not accepted. -/
def Client.unaccepted : Client → Option ℤ
  | .accepted _ => none
  | c => c.jobid

/-- The counter is ahead of all jobs, and no job of a client thread that is not accepted has the
number of one that is. -/
structure Ahead {ι : Type} (d : Daemon ι) (pending : List ℤ) : Prop where
  above : ∀ jobid ∈ pending, jobid < d.nextjob
  ids : ∀ p jobid, (d.client p).jobid = some jobid → jobid < d.nextjob
  fresh : ∀ p jobid, (d.client p).unaccepted = some jobid → jobid ∉ pending
  distinct : ∀ p q jobid, (d.client p).jobid = some jobid → (d.client q).jobid = some jobid → p = q

lemma Client.jobid_of_unaccepted {c : Client} {jobid : ℤ} (h : c.unaccepted = some jobid) :
    c.jobid = some jobid := by
  cases c with
  | accepted n => cases h
  | _ => exact h

namespace Ahead

variable {ι : Type} {d d' : Daemon ι} {pending pending' : List ℤ}

lemma mono (h : Ahead d pending) (hnext : d'.nextjob = d.nextjob) (hclient : d'.client = d.client)
    (hsub : ∀ jobid ∈ pending', jobid ∈ pending) : Ahead d' pending' := by
  refine ⟨fun jobid hj => ?_, ?_, fun p jobid hp hj => ?_, ?_⟩
  · rw [hnext]
    exact h.above jobid (hsub jobid hj)
  · rw [hnext, hclient]
    exact h.ids
  · rw [hclient] at hp
    exact h.fresh p jobid hp (hsub jobid hj)
  · rw [hclient]
    exact h.distinct

variable [DecidableEq ι] {p : ι} {c : Client}

lemma goOn (h : Ahead d pending)
    (hid : ∀ jobid, c.jobid = some jobid → (d.client p).jobid = some jobid)
    (hun : ∀ jobid, c.unaccepted = some jobid → (d.client p).unaccepted = some jobid) :
    Ahead (d.goOn p c) pending := by
  have hids : ∀ q jobid, ((d.goOn p c).client q).jobid = some jobid →
      (d.client q).jobid = some jobid := by
    intro q jobid hq
    by_cases hqp : q = p
    · subst hqp
      rw [Daemon.client_goOn_self] at hq
      exact hid jobid hq
    · rwa [Daemon.client_goOn_of_ne d hqp] at hq
  refine ⟨h.above, fun q jobid hq => h.ids q jobid (hids q jobid hq), fun q jobid hq => ?_, ?_⟩
  · by_cases hqp : q = p
    · subst hqp
      rw [Daemon.client_goOn_self] at hq
      exact h.fresh q jobid (hun jobid hq)
    · rw [Daemon.client_goOn_of_ne d hqp] at hq
      exact h.fresh q jobid hq
  · exact fun q r jobid hq hr => h.distinct q r jobid (hids q jobid hq) (hids r jobid hr)

lemma newJobno (h : Ahead d pending) (hwrap : d.nextjob + 1 < 2 ^ 31) :
    Ahead { d.goOn p (.hasId (getNewjobno d.nextjob).1) with
      nextjob := (getNewjobno d.nextjob).2 } pending := by
  have hlt : d.nextjob < (getNewjobno d.nextjob).2 := by
    simp only [getNewjobno, if_neg (ne_of_lt hwrap)]
    split <;> omega
  have hids : ∀ q jobid, (update d.client p (.hasId d.nextjob) q).jobid = some jobid →
      q = p ∧ jobid = d.nextjob ∨ q ≠ p ∧ (d.client q).jobid = some jobid := by
    intro q jobid hq
    by_cases hqp : q = p
    · rw [hqp, update_self] at hq
      exact .inl ⟨hqp, (some.inj hq).symm⟩
    · rw [update_of_ne hqp] at hq
      exact .inr ⟨hqp, hq⟩
  refine ⟨fun jobid hj => (h.above jobid hj).trans hlt, fun q jobid hq => ?_,
    fun q jobid hq hj => ?_, fun q r jobid hq hr => ?_⟩
  · rcases hids q jobid hq with ⟨-, rfl⟩ | ⟨-, hq'⟩
    · exact hlt
    · exact (h.ids q jobid hq').trans hlt
  · rcases hids q jobid (Client.jobid_of_unaccepted hq) with ⟨-, rfl⟩ | ⟨hqp, -⟩
    · exact lt_irrefl _ (h.above _ hj)
    · simp only [Daemon.goOn, update_of_ne hqp] at hq
      exact h.fresh q jobid hq hj
  · rcases hids q jobid hq with ⟨hqp, rfl⟩ | ⟨-, hq'⟩ <;> rcases hids r _ hr
      with ⟨hrp, heq⟩ | ⟨-, hr'⟩
    · exact hqp.trans hrp.symm
    · exact absurd (h.ids r _ hr') (lt_irrefl _)
    · rw [heq] at hq'
      exact absurd (h.ids q _ hq') (lt_irrefl _)
    · exact h.distinct q r jobid hq' hr'

lemma respond (h : Ahead d pending) {jobid : ℤ} (hp : d.client p = .ctlDone jobid) :
    Ahead (d.goOn p (.accepted jobid)) (jobid :: pending) := by
  have hid : (d.client p).jobid = some jobid := by rw [hp]; rfl
  have h' : Ahead (d.goOn p (.accepted jobid)) pending :=
    h.goOn (fun n hn => hid.trans hn) fun n hn => by cases hn
  refine ⟨fun n hn => ?_, h'.ids, fun q n hq hn => ?_, h'.distinct⟩
  · rcases List.mem_cons.mp hn with rfl | hn
    · exact h.ids p n hid
    · exact h.above n hn
  · rcases List.mem_cons.mp hn with rfl | hn
    · -- the number belongs to `p` alone, and `p` is past this point
      have hqp : q = p := by
        refine h'.distinct q p n (Client.jobid_of_unaccepted hq) ?_
        rw [Daemon.client_goOn_self]
        rfl
      rw [hqp, Daemon.client_goOn_self] at hq
      cases hq
    · exact h'.fresh q n hq hn

variable {s s' : State ι} {a : Action ι}

lemma clientStep (hd : s.daemon = some d) (h : Ahead d s.pending) (hst : clientStep s d a = some s')
    (hwrap : ∀ p, a = .newJobno p → d.nextjob + 1 < 2 ^ 31) :
    ∀ d', s'.daemon = some d' → Ahead d' s'.pending := by
  -- most steps leave the job number of the thread as it is, or drop it
  have hkeep : ∀ {p c₀ c}, d.client p = c₀ → c.jobid = c₀.jobid → c.unaccepted = c₀.unaccepted →
      Ahead (d.goOn p c) s.pending := by
    rintro p c₀ c rfl hid hun
    exact h.goOn (fun _ hn => hid ▸ hn) fun _ hn => hun ▸ hn
  have hdrop : ∀ p, Ahead (d.goOn p .outside) s.pending := fun p =>
    h.goOn (fun _ hn => by cases hn) fun _ hn => by cases hn
  revert hst
  fun_cases Spool.clientStep s d a with
  | case1 p _ _ _ hn =>
    obtain ⟨rfl, rfl⟩ := Prod.ext_iff.mp hn
    rintro ⟨⟩ d' ⟨⟩
    exact h.newJobno (hwrap p rfl)
  | case3 p _ hp | case9 p _ hp | case11 p _ hp | case13 p _ hp | case15 p _ hp | case17 p _ hp
  | case23 p _ hp =>
    rintro ⟨⟩ d' ⟨⟩
    exact hkeep hp rfl rfl
  | case5 p | case24 p =>
    rintro ⟨⟩ d' ⟨⟩
    exact hdrop p
  | case7 =>
    rintro ⟨⟩ d' hd'
    obtain rfl := some.inj (hd.symm.trans hd')
    exact h
  | case19 p _ hp =>
    rintro ⟨⟩ d' ⟨⟩
    exact h.respond hp
  | case21 p =>
    rintro ⟨⟩ d' ⟨⟩
    exact (hdrop p).mono rfl rfl fun _ => id
  | _ => nofun

omit [DecidableEq ι] in
lemma printerStep (h : Ahead d s.pending) (hst : printerStep s d a = some s') :
    ∀ d', s'.daemon = some d' → Ahead d' s'.pending := by
  -- it leaves the counter and the clients alone
  have hsub : (∃ d', s'.daemon = some d' ∧ d'.nextjob = d.nextjob ∧ d'.client = d.client) ∧
      ∀ jobid ∈ s'.pending, jobid ∈ s.pending := by
    revert hst
    fun_cases Spool.printerStep s d a with
    | case1 | case3 | case5 | case7 | case9 | case13 | case14 =>
      rintro ⟨⟩
      exact ⟨⟨_, rfl, rfl, rfl⟩, fun _ => id⟩
    | case11 =>
      rintro ⟨⟩
      exact ⟨⟨_, rfl, rfl, rfl⟩, fun _ => List.mem_of_mem_filter⟩
    | _ => nofun
  obtain ⟨⟨d₁, hd₁, hnext, hclient⟩, hpending⟩ := hsub
  intro d' hd'
  obtain rfl := some.inj (hd₁.symm.trans hd')
  exact h.mono hnext hclient hpending

omit [DecidableEq ι] in
lemma scanStep (h : Ahead d s.pending) (hst : scanStep s d = some s') :
    ∀ d', s'.daemon = some d' → Ahead d' s'.pending := by
  revert hst
  fun_cases Spool.scanStep s d with
  | case1 => nofun
  | case2 | case3 | case4 =>
    rintro ⟨⟩ d' ⟨⟩
    exact h.mono rfl rfl fun _ => id

lemma step (h : ∀ d, s.daemon = some d → Ahead d s.pending) (hst : step s a = some s')
    (hC : jobFileAhead s a = true) : ∀ d', s'.daemon = some d' → Ahead d' s'.pending := by
  revert hst
  fun_cases Spool.step s a with
  | case1 =>
    rintro ⟨⟩ d' ⟨⟩
    -- a new daemon has no clients yet
    exact ⟨of_decide_eq_true hC, nofun, nofun, nofun⟩
  | case2 | case3 => nofun
  | case4 => rintro ⟨⟩ d' ⟨⟩
  | case5 d hd => exact (h d hd).scanStep
  | case6 d hd =>
    intro hst
    rcases or_eq_some_iff.mp hst with hst | ⟨-, hst⟩
    · exact (h d hd).printerStep hst
    · refine (h d hd).clientStep hd hst ?_
      rintro p rfl
      rw [jobFileAhead, hd] at hC
      exact of_decide_eq_true hC

end Ahead

/-! ## Runs -/

variable {ι : Type} [DecidableEq ι]

/-- If the job file is ahead at each start, `get_newjobno` does not return the number of an accepted
job that is not printed, and no client thread creates a file of such a job. -/
theorem newJobno_not_accepted {as : List (Action ι)} {s : State ι}
    (hrun : RunWhen step (fun s a => jobFileAhead s a = true) (start ι) as s) {d : Daemon ι}
    (hd : s.daemon = some d) :
    (getNewjobno d.nextjob).1 ∉ s.pending ∧
      ∀ p jobid, d.client p = .hasId jobid ∨ d.client p = .writing jobid → jobid ∉ s.pending := by
  have h : ∀ d, s.daemon = some d → Ahead d s.pending := by
    refine hrun.invariant (I := fun s => ∀ d, s.daemon = some d → Ahead d s.pending)
      (fun d hd => by cases hd) fun _ _ _ hI hst hC => Ahead.step hI hst hC
  refine ⟨fun hmem => lt_irrefl _ ((h d hd).above _ hmem),
    fun p jobid hp => (h d hd).fresh p jobid ?_⟩
  rcases hp with hp | hp
  · rw [hp]
    rfl
  · rw [hp]
    rfl

def acceptJob (p : Fin 2) : List (Action (Fin 2)) :=
  [.newJobno p, .createData p, .write p [65], .createCtl p, .writeCtl p, .respond p, .addJob p]

/-- The printer thread has written the counter before the daemon stops: the next job has a new
number. -/
theorem newJobno_not_accepted_restart : ∃ (s : State (Fin 2)) (d : Daemon (Fin 2)),
    RunWhen step (fun s a => jobFileAhead s a = true) (start (Fin 2))
      ([.start []] ++ acceptJob 0 ++ [.pick, .format, .update, .stop, .start [1], .scan]) s ∧
    s.daemon = some d ∧ s.pending = [1] ∧ (getNewjobno d.nextjob).1 ∉ s.pending := by
  obtain ⟨s, hrun, hdaemon, hpending⟩ := exists_runWhen step (fun s a => jobFileAhead s a = true)
    (start (Fin 2))
    ([.start []] ++ acceptJob 0 ++ [.pick, .format, .update, .stop, .start [1], .scan])
    (fun s => s.daemon.isSome = true ∧ s.pending = [1]) (by decide +kernel)
  obtain ⟨d, hd⟩ := isSome_iff_exists.mp hdaemon
  exact ⟨s, d, hrun, hd, hpending, (newJobno_not_accepted hrun hd).1⟩

/-- The daemon stops before the printer thread has picked up the job.  The next client gets the same
number and truncates the data file of the accepted job. -/
theorem newJobno_of_accepted : ∃ (as : List (Action (Fin 2))) (s s' : State (Fin 2))
    (d : Daemon (Fin 2)), RunFrom step (start (Fin 2)) as s ∧ s.daemon = some d ∧
      (getNewjobno d.nextjob).1 = 1 ∧ 1 ∈ s.pending ∧ s.disk.ctl 1 = some true ∧
      s.disk.data 1 = some [65] ∧ RunFrom step s [.newJobno 1, .createData 1] s' ∧
      s'.disk.data 1 = some [] := by
  obtain ⟨s, hrun, hdaemon, hpending, hctl, hdata, hnext⟩ := exists_runFrom step (start (Fin 2))
    ([.start []] ++ acceptJob 0 ++ [.stop, .start [1], .scan])
    (fun s => s.daemon.any (fun d => (getNewjobno d.nextjob).1 = 1) = true ∧
      1 ∈ s.pending ∧ s.disk.ctl 1 = some true ∧ s.disk.data 1 = some [65] ∧
      (replay step s [.newJobno 1, .createData 1]).any (fun s' => s'.disk.data 1 = some []) = true)
    (by decide +kernel)
  obtain ⟨d, hd, hjobid⟩ := (any_eq_true ..).mp hdaemon
  obtain ⟨s', hs', hdata'⟩ := (any_eq_true ..).mp hnext
  exact ⟨_, s, s', d, hrun, hd, of_decide_eq_true hjobid, hpending, hctl, hdata,
    runFrom_of_replay hs', of_decide_eq_true hdata'⟩

end UnixPrograms.Spool
