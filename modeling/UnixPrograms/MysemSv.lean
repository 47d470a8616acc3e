import Mathlib.Data.List.Basic

/-!
# `mysem_open` over System V semaphores

`mysem_open` creates a set of one semaphore, or opens the one that exists and watches it until it
has been initialised; both ways have one error exit, which removes the set if `semid` is set.  Each
call can fail, and others can act before it.

`World.rest` is what the others would have made of the semaphores without this call.  What it has
not created is the same in both, unless the call opens a set that exists and then fails at a call of
which the error exit can remove the set (`mysemOpen_spares_iff`).
-/

namespace UnixPrograms.MysemSv

open Function

/-! ## The system -/

inductive Errno where
  | ENOENT
  | EINTR
  | ENOMEM
  | EACCES
  | EEXIST
  | EINVAL
  | ENOSPC
  | ERANGE
  | EIDRM
  | ETIMEDOUT
  deriving DecidableEq

structure Sem where
  key : ℕ
  mode : ℕ
  val : ℕ
  /-- `sem_otime` is not 0. -/
  otime : Bool
  deriving DecidableEq

/-- The semaphores of the system.  Their identifiers are not used again. -/
structure Kernel where
  sets : ℕ → Option Sem
  next : ℕ
  fresh : ∀ id, next ≤ id → sets id = none

def Kernel.add (k : Kernel) (sem : Sem) : Kernel where
  sets := update k.sets k.next (some sem)
  next := k.next + 1
  fresh id hid := by
    rw [update_of_ne (by omega)]
    exact k.fresh id (by omega)

def Kernel.modify (k : Kernel) (id : ℕ) (f : Sem → Option Sem) : Kernel where
  sets := update k.sets id ((k.sets id).bind f)
  next := k.next
  fresh i hi := by
    by_cases h : i = id
    · subst h
      rw [update_self, k.fresh i hi]
      rfl
    · rw [update_of_ne h]
      exact k.fresh i hi

def Kernel.find (k : Kernel) (key : ℕ) : Option ℕ :=
  (List.range k.next).find? fun id => (k.sets id).any (·.key = key)

inductive Other where
  | create (sem : Sem)
  | remove (id : ℕ)
  | change (id val : ℕ) (otime : Bool)

/-- What happens at a system call: what the other processes do before it, and how it fails, if it
does.  `ftok` takes its key from here. -/
structure Turn where
  others : List Other
  fails : Option Errno
  key : ℕ

/-- The semaphores, and what they would be if this process had left them alone, with what is yet to
happen. -/
structure World where
  kernel : Kernel
  rest : ℕ → Option Sem
  turns : List Turn
  /-- The sets that this process has created. -/
  created : List ℕ

def start (k : Kernel) (turns : List Turn) : World := ⟨k, k.sets, turns, []⟩

def World.modifyOther (w : World) (id : ℕ) (f : Sem → Option Sem) : World :=
  { w with
    kernel := w.kernel.modify id f
    rest := update w.rest id ((w.rest id).bind f) }

def World.other (w : World) : Other → World
  | .create sem =>
    if w.kernel.find sem.key = none then
      { w with
        kernel := w.kernel.add sem
        rest := update w.rest w.kernel.next (some sem) }
    else w
  | .remove id => w.modifyOther id fun _ => none
  | .change id val otime => w.modifyOther id fun sem => some { sem with val := val, otime := otime }

/-- The other processes go on up to the next system call.  Nothing happens when nothing is left. -/
def World.turn (w : World) : Turn × World :=
  match w.turns with
  | [] => (⟨[], none, 0⟩, w)
  | t :: ts => (t, t.others.foldl World.other { w with turns := ts })

def World.call {α : Type} (w : World) (f : Turn → World → Except Errno α × World) :
    Except Errno α × World :=
  match w.turn.1.fails with
  | some e => (.error e, w.turn.2)
  | none => f w.turn.1 w.turn.2

def IPC_PRIVATE : ℕ := 0

structure Semflag where
  creat : Bool
  excl : Bool
  mode : ℕ

def openFile (w : World) : Except Errno Unit × World := w.call fun _ w => (.ok (), w)

def ftok (w : World) : Except Errno ℕ × World := w.call fun t w => (.ok t.key, w)

/-- The set that has the key. -/
def World.look (w : World) (key : ℕ) : Option ℕ :=
  if key = IPC_PRIVATE then none else w.kernel.find key

/-- `semget`.  A set without members is not created. -/
def semget (key nsems : ℕ) (flag : Semflag) (w : World) : Except Errno ℕ × World :=
  w.call fun _ w =>
    match w.look key with
    | some id => if flag.creat ∧ flag.excl then (.error .EEXIST, w) else (.ok id, w)
    | none =>
      if ¬ flag.creat ∧ key ≠ IPC_PRIVATE then (.error .ENOENT, w)
      else if nsems = 0 then (.error .EINVAL, w)
      else
        (.ok w.kernel.next, { w with
            kernel := w.kernel.add ⟨key, flag.mode, 0, false⟩
            created := w.kernel.next :: w.created })

def World.callOn {α : Type} (w : World) (id : ℕ) (f : Sem → World → Except Errno α × World) :
    Except Errno α × World :=
  w.call fun _ w =>
    match w.kernel.sets id with
    | none => (.error .EINVAL, w)
    | some sem => f sem w

def setval (id val : ℕ) (w : World) : Except Errno Unit × World :=
  w.callOn id fun _ w =>
    (.ok (), { w with kernel := w.kernel.modify id fun sem => some { sem with val := val } })

def SEMVMX : ℕ := 32767

/-- `semop` with one operation that is not negative.  A wait for 0 that the other processes do not
end is ended by a signal. -/
def semop (id op : ℕ) (w : World) : Except Errno Unit × World :=
  w.callOn id fun sem w =>
    if op = 0 ∧ sem.val ≠ 0 then (.error .EINTR, w)
    else if sem.val + op > SEMVMX then (.error .ERANGE, w)
    else
      (.ok (), { w with
        kernel := w.kernel.modify id fun sem =>
          some { sem with val := sem.val + op, otime := true } })

def ipcStat (id : ℕ) (w : World) : Except Errno Sem × World :=
  w.callOn id fun sem w => (.ok sem, w)

def ipcRmid (id : ℕ) (w : World) : Except Errno Unit × World :=
  w.callOn id fun _ w => (.ok (), { w with kernel := w.kernel.modify id fun _ => none })

def malloc (w : World) : Except Errno Unit × World := w.call fun _ w => (.ok (), w)

def sleep (w : World) : World := w.turn.2

/-! ## The function -/

def MAX_TRIES : ℕ := 10

def SVSEM_MODE : ℕ := 0o644

structure Args where
  creat : Bool
  excl : Bool
  mode : ℕ
  value : UInt32

/-- A system call, with what is done when it fails and when it does not. -/
def attempt {α β : Type} (r : Except Errno α × World) (fails : Errno → World → β)
    (succeeds : α → World → β) : β :=
  match r with
  | (.error e, w) => fails e w
  | (.ok a, w) => succeeds a w

def err (semid : Option ℕ) (errno : Errno) (w : World) : Except Errno ℕ × World :=
  match semid with
  | none => (.error errno, w)
  | some id => (.error errno, (ipcRmid id w).2)

def finish (id : ℕ) (w : World) : Except Errno ℕ × World :=
  attempt (malloc w) (err (some id)) fun _ w => (.ok id, w)

def initNew (id value : ℕ) (w : World) : Except Errno ℕ × World :=
  attempt (setval id 0 w) (err (some id)) fun _ w =>
    if value > SEMVMX then err (some id) .EINVAL w
    else attempt (semop id value w) (err (some id)) fun _ w => finish id w

/-- The loop that waits until the set has been initialised, with `n` tries left. -/
def waitInit (id : ℕ) : ℕ → World → Except Errno ℕ × World
  | 0, w => err (some id) .ETIMEDOUT w
  | n + 1, w =>
    attempt (ipcStat id w) (err (some id)) fun sem w =>
      if sem.otime then finish id w else waitInit id n (sleep w)

def openOld (semflag : Semflag) (w : World) : Except Errno ℕ × World :=
  attempt (ftok w) (err none) fun key w =>
    attempt (semget key 0 semflag w) (err none) fun id w => waitInit id MAX_TRIES w

/-- `mysem_open`: the identifier of the set, or `SEM_FAILED` with an `errno`. -/
def mysemOpen (a : Args) (w : World) : Except Errno ℕ × World :=
  if a.creat then
    attempt (openFile w) (fun e w => (.error e, w)) fun _ w =>
      attempt (ftok w) (fun e w => (.error e, w)) fun key w =>
        let semflag : Semflag := ⟨true, a.excl, a.mode &&& 0o777⟩
        -- create the set with IPC_EXCL
        attempt (semget key 1 { semflag with excl := true } w)
          (fun e w => if e ≠ .EEXIST ∨ semflag.excl then err none e w else openOld semflag w)
          fun id w => initNew id a.value.toNat w
  else openOld ⟨false, false, SVSEM_MODE⟩ w

/-! ## When a set of others is removed -/

/-- The sets that this process has not created are as the other processes have left them. -/
def Spares (w : World) : Prop := ∀ id ∉ w.created, w.kernel.sets id = w.rest id

/-- What the other processes have made of the semaphores before the call with the number `n` from
now on, if this process does nothing to them. -/
def World.idle : ℕ → World → World
  | 0, w => w
  | n + 1, w => idle n w.turn.2

/-- The next call is not made to fail. -/
def Works (w : World) : Prop := w.turn.1.fails = none

/-- The next call, one for the set `id`, succeeds: the set exists. -/
def Reaches (id : ℕ) (w : World) : Prop := Works w ∧ w.turn.2.kernel.sets id ≠ none

/-- The next call for the set `id` succeeds and finds that the set has been initialised. -/
def Ready (id : ℕ) (w : World) : Prop :=
  Works w ∧ ∃ sem ∈ w.turn.2.kernel.sets id, sem.otime = true

/-- The loop with `N` tries ends in the error exit, which removes the set: after `n` tries that
succeed and do not find the set initialised `IPC_STAT` fails, or it finds the set initialised and
`malloc` fails, or no try is left. -/
def Removes (id N : ℕ) (w : World) : Prop :=
  ∃ n ≤ N, (∀ j < n, Reaches id (w.idle (2 * j)) ∧ ¬ Ready id (w.idle (2 * j))) ∧
    (n < N ∧ ¬ Reaches id (w.idle (2 * n)) ∧ Reaches id (w.idle (2 * n + 1)) ∨
      n < N ∧ Ready id (w.idle (2 * n)) ∧ ¬ Works (w.idle (2 * n + 1)) ∧
        Reaches id (w.idle (2 * n + 2)) ∨
      n = N ∧ Reaches id (w.idle (2 * n)))

/-- `ftok` and the second `semget`, the next two calls, open the set `id`, and it is removed. -/
def RemovesOld (w : World) : Prop :=
  Works w ∧ Works (w.idle 1) ∧ ∃ id, (w.idle 2).look w.turn.1.key = some id ∧
    Removes id MAX_TRIES (w.idle 2)

/-- The first `semget`, the third call, fails because the set exists. -/
def Exists (w : World) : Prop :=
  Works w ∧ Works (w.idle 1) ∧ ((w.idle 2).turn.1.fails = some .EEXIST ∨
    Works (w.idle 2) ∧ (w.idle 3).look (w.idle 1).turn.1.key ≠ none)

/-- A set that the call has not created is removed: the second `semget` is reached and opens it, and
the error exit is reached and removes it. -/
def RemovesOther (a : Args) (w : World) : Prop :=
  if a.creat then a.excl = false ∧ Exists w ∧ RemovesOld (w.idle 3) else RemovesOld w

/-! ## What a call leaves alone -/

/-- This process has created `L` so far, since the semaphores were `k`, and has spared the
others. -/
structure Phase (k : Kernel) (L : List ℕ) (w : World) : Prop where
  created : w.created = L
  spares : Spares w
  next : k.next ≤ w.kernel.next
  new : ∀ id ∈ L, k.next ≤ id

variable {k : Kernel} {L : List ℕ} {w : World} {id : ℕ}

lemma phase_start (k : Kernel) (turns : List Turn) : Phase k [] (start k turns) :=
  ⟨rfl, fun _ _ => rfl, Nat.le_refl _, fun _ h => by cases h⟩

namespace Phase

lemma other (h : Phase k L w) (o : Other) : Phase k L (w.other o) := by
  have hmodify : ∀ id f, Phase k L (w.modifyOther id f) := by
    intro id f
    refine ⟨h.created, fun i hi => ?_, h.next, h.new⟩
    by_cases heq : i = id
    · subst heq
      simp only [World.modifyOther, Kernel.modify, update_self, h.spares i hi]
    · simp only [World.modifyOther, Kernel.modify, update_of_ne heq, h.spares i hi]
  cases o with
  | create sem =>
    rw [World.other]
    split
    · refine ⟨h.created, fun i hi => ?_, Nat.le_succ_of_le h.next, h.new⟩
      by_cases heq : i = w.kernel.next
      · subst heq
        simp only [Kernel.add, update_self]
      · simp only [Kernel.add, update_of_ne heq, h.spares i hi]
    · exact h
  | remove id => exact hmodify id _
  | change id val otime => exact hmodify id _

lemma turn (h : Phase k L w) : Phase k L w.turn.2 := by
  unfold World.turn
  split
  · exact h
  · rename_i t ts _
    have hrest : Phase k L { w with turns := ts } := ⟨h.created, h.spares, h.next, h.new⟩
    -- the other processes act one after the other
    generalize { w with turns := ts } = w' at hrest
    induction t.others generalizing w' with
    | nil => exact hrest
    | cons o os ih => exact ih _ (hrest.other o)

lemma idle (h : Phase k L w) (n : ℕ) : Phase k L (w.idle n) := by
  induction n generalizing w with
  | zero => exact h
  | succ n ih => exact ih h.turn

lemma modify (h : Phase k L w) (hid : id ∈ L) (f : Sem → Option Sem) :
    Phase k L { w with kernel := w.kernel.modify id f } := by
  refine ⟨h.created, fun i hi => ?_, h.next, h.new⟩
  have hne : i ≠ id := by
    rintro rfl
    exact hi (h.created ▸ hid)
  simp only [Kernel.modify, update_of_ne hne]
  exact h.spares i hi

variable {α β : Type}

lemma call (h : Phase k L w) {f : Turn → World → Except Errno α × World}
    (hf : ∀ t w', Phase k L w' → Phase k L (f t w').2) : Phase k L (w.call f).2 := by
  unfold World.call
  split
  · exact h.turn
  · exact hf _ _ h.turn

lemma callOn (h : Phase k L w) {f : Sem → World → Except Errno α × World}
    (hf : ∀ sem w', Phase k L w' → Phase k L (f sem w').2) : Phase k L (w.callOn id f).2 := by
  refine h.call fun _ w' h' => ?_
  cases w'.kernel.sets id with
  | none => exact h'
  | some sem => exact hf sem w' h'

lemma attempt {r : Except Errno α × World} {fails : Errno → World → Except Errno β × World}
    {succeeds : α → World → Except Errno β × World} (h : Phase k L r.2)
    (hfails : ∀ e w', Phase k L w' → Phase k L (fails e w').2)
    (hsucceeds : ∀ a w', Phase k L w' → Phase k L (succeeds a w').2) :
    Phase k L (attempt r fails succeeds).2 := by
  obtain ⟨r, w'⟩ := r
  cases r with
  | error e => exact hfails e w' h
  | ok a => exact hsucceeds a w' h

/-! ## A set that the call has created -/

lemma err (h : Phase k L w) (hid : id ∈ L) (e : Errno) : Phase k L (err (some id) e w).2 := by
  change Phase k L (ipcRmid id w).2
  exact h.callOn fun _ _ h' => h'.modify hid _

lemma initNew (h : Phase k L w) (hid : id ∈ L) (value : ℕ) :
    Phase k L (initNew id value w).2 := by
  refine attempt (h.callOn fun _ _ h' => h'.modify hid _) (fun e _ h' => h'.err hid e) ?_
  intro _ w₁ h₁
  split
  · exact h₁.err hid _
  · refine attempt (h₁.callOn fun sem w₂ h₂ => ?_) (fun e _ h' => h'.err hid e) ?_
    · split
      · exact h₂
      · split
        · exact h₂
        · exact h₂.modify hid _
    · exact fun _ w₂ h₂ => attempt (h₂.call fun _ _ h' => h') (fun e _ h' => h'.err hid e)
        fun _ _ h' => h'

lemma add (h : Phase k L w) (sem : Sem) :
    Phase k (w.kernel.next :: L)
      { w with kernel := w.kernel.add sem, created := w.kernel.next :: w.created } := by
  refine ⟨congrArg _ h.created, fun i hi => ?_, Nat.le_succ_of_le h.next, fun i hi => ?_⟩
  · obtain ⟨hne, hi⟩ := not_or.mp (mt List.mem_cons.mpr hi)
    simp only [Kernel.add, update_of_ne hne]
    exact h.spares i hi
  · rcases List.mem_cons.mp hi with rfl | hi
    · exact h.next
    · exact h.new i hi

end Phase

/-! ## A set that the call has opened -/

/-- The call has created nothing, and has spared the others if and only if not `P`. -/
structure Result (k : Kernel) (P : Prop) (w : World) : Prop where
  spares_iff : Spares w ↔ ¬ P
  new : ∀ id ∈ w.created, k.next ≤ id

lemma Phase.result {P : Prop} (h : Phase k L w) (hP : ¬ P) : Result k P w :=
  ⟨iff_of_true h.spares hP, h.created.symm ▸ h.new⟩

/-- The error exit removes the set if `IPC_RMID` succeeds. -/
lemma result_err (h : Phase k [] w) (e : Errno) :
    Result k (Reaches id w) (err (some id) e w).2 := by
  have h' := h.turn
  simp only [err, ipcRmid, World.callOn, World.call]
  split
  · rename_i e' hfails
    exact h'.result fun hreach => by cases hreach.1.symm.trans hfails
  · rename_i hworks
    cases hid : w.turn.2.kernel.sets id with
    | none => exact h'.result fun hreach => hreach.2 hid
    | some sem =>
      refine ⟨iff_of_false (fun hspares => ?_) (not_not_intro ⟨hworks, by simp [hid]⟩),
        h'.created.symm ▸ h'.new⟩
      have hrest := h'.spares id (by simp [h'.created])
      have hgone := hspares id (by simp [h'.created])
      simp [Kernel.modify, ← hrest, hid] at hgone

lemma Result.congr {P Q : Prop} (h : Result k P w) (hPQ : P ↔ Q) : Result k Q w :=
  ⟨h.spares_iff.trans (not_congr hPQ), h.new⟩

lemma removes_zero : Removes id 0 w ↔ Reaches id w := by
  constructor
  · rintro ⟨n, hn, -, ⟨hlt, -⟩ | ⟨hlt, -⟩ | ⟨rfl, h⟩⟩
    · omega
    · omega
    · exact h
  · exact fun h => ⟨0, Nat.le_refl 0, fun j hj => absurd hj (Nat.not_lt_zero j),
      .inr (.inr ⟨rfl, h⟩)⟩

/-- The first try and the others. -/
lemma removes_succ {N : ℕ} : Removes id (N + 1) w ↔
    ¬ Reaches id w ∧ Reaches id w.turn.2 ∨
      Ready id w ∧ ¬ Works w.turn.2 ∧ Reaches id w.turn.2.turn.2 ∨
      (Reaches id w ∧ ¬ Ready id w) ∧ Removes id N w.turn.2.turn.2 := by
  constructor
  · rintro ⟨n, hn, htries, hend⟩
    cases n with
    | zero =>
      rcases hend with ⟨-, h⟩ | ⟨-, h⟩ | ⟨h, -⟩
      · exact .inl h
      · exact .inr (.inl h)
      · cases h
    | succ n =>
      refine .inr (.inr ⟨htries 0 (Nat.succ_pos n), n, Nat.le_of_succ_le_succ hn, fun j hj => ?_,
        ?_⟩)
      · exact htries (j + 1) (Nat.succ_lt_succ hj)
      · exact hend.imp (.imp_left Nat.lt_of_succ_lt_succ)
          (.imp (.imp_left Nat.lt_of_succ_lt_succ) (.imp_left Nat.succ.inj))
  · rintro (h | h | ⟨hfirst, n, hn, htries, hend⟩)
    · exact ⟨0, Nat.zero_le _, fun j hj => absurd hj (Nat.not_lt_zero j),
        .inl ⟨Nat.succ_pos N, h⟩⟩
    · exact ⟨0, Nat.zero_le _, fun j hj => absurd hj (Nat.not_lt_zero j),
        .inr (.inl ⟨Nat.succ_pos N, h⟩)⟩
    · refine ⟨n + 1, Nat.succ_le_succ hn, fun j hj => ?_, ?_⟩
      · cases j with
        | zero => exact hfirst
        | succ j => exact htries j (Nat.lt_of_succ_lt_succ hj)
      · exact hend.imp (.imp_left Nat.succ_lt_succ)
          (.imp (.imp_left Nat.succ_lt_succ) (.imp_left (congrArg _)))

lemma result_finish (h : Phase k [] w) :
    Result k (¬ Works w ∧ Reaches id w.turn.2) (finish id w).2 := by
  simp only [finish, malloc, World.call]
  split
  · rename_i e hfails
    refine (result_err h.turn e).congr (and_iff_right fun hworks => ?_).symm
    cases hworks.symm.trans hfails
  · rename_i hworks
    exact h.turn.result fun hremoves => hremoves.1 hworks

lemma result_waitInit (N : ℕ) (h : Phase k [] w) :
    Result k (Removes id N w) (waitInit id N w).2 := by
  induction N generalizing w with
  | zero => exact (result_err h _).congr removes_zero.symm
  | succ N ih =>
    have hfail : ∀ e, ¬ Reaches id w →
        Result k (Removes id (N + 1) w) (err (some id) e w.turn.2).2 := by
      intro e hno
      refine (result_err h.turn e).congr ?_
      have hready : ¬ Ready id w := by
        rintro ⟨hworks, sem, hsem, -⟩
        exact hno ⟨hworks, by simp [Option.mem_def.mp hsem]⟩
      simp [removes_succ, hno, hready]
    simp only [waitInit, ipcStat, World.callOn, World.call]
    split
    · rename_i e hfails
      exact hfail e fun hreach => by cases hreach.1.symm.trans hfails
    · rename_i hworks
      cases hid : w.turn.2.kernel.sets id with
      | none => exact hfail .EINVAL fun hreach => hreach.2 hid
      | some sem =>
        have hreach : Reaches id w := ⟨hworks, by simp [hid]⟩
        have hready : Ready id w ↔ sem.otime = true := by simp [Ready, Works, hworks, hid]
        simp only [attempt]
        split
        · rename_i hotime
          refine (result_finish h.turn).congr ?_
          simp [removes_succ, hreach, hready, hotime]
        · rename_i hotime
          refine (ih h.turn.turn).congr ?_
          simp [removes_succ, hreach, hready, hotime]

section Attempt

variable {α β : Type} {f : Turn → World → Except Errno α × World}
  {fails : Errno → World → Except Errno β × World}
  {succeeds : α → World → Except Errno β × World}

lemma attempt_call_of_fails {e : Errno} (h : w.turn.1.fails = some e) :
    attempt (w.call f) fails succeeds = fails e w.turn.2 := by
  rw [World.call, h]
  rfl

lemma attempt_call_of_works (h : Works w) :
    attempt (w.call f) fails succeeds = attempt (f w.turn.1 w.turn.2) fails succeeds := by
  rw [World.call, h]

end Attempt

lemma not_works {e : Errno} (h : w.turn.1.fails = some e) : ¬ Works w :=
  fun hworks => by cases hworks.symm.trans h

lemma result_openOld {semflag : Semflag} (hexcl : semflag.excl = false) (h : Phase k [] w) :
    Result k (RemovesOld w) (openOld semflag w).2 := by
  unfold openOld ftok semget
  cases hftok : w.turn.1.fails with
  | some e =>
    rw [attempt_call_of_fails hftok]
    exact h.turn.result fun hremoves => not_works hftok hremoves.1
  | none =>
    rw [attempt_call_of_works hftok]
    change Result k _ (Prod.snd (attempt (w.turn.2.call _) _ _))
    cases hsemget : w.turn.2.turn.1.fails with
    | some e =>
      rw [attempt_call_of_fails hsemget]
      exact h.turn.turn.result fun hremoves => not_works hsemget hremoves.2.1
    | none =>
      rw [attempt_call_of_works hsemget]
      have hiff : RemovesOld w ↔ ∃ id, w.turn.2.turn.2.look w.turn.1.key = some id ∧
          Removes id MAX_TRIES w.turn.2.turn.2 :=
        ⟨fun hremoves => hremoves.2.2, fun hex => ⟨hftok, hsemget, hex⟩⟩
      cases hlook : w.turn.2.turn.2.look w.turn.1.key with
      | some id =>
        simp only [hexcl, Bool.false_eq_true, and_false, if_false]
        refine (result_waitInit MAX_TRIES h.turn.turn).congr ?_
        simp [hiff, hlook]
      | none =>
        have hno : ¬ RemovesOld w := by simp [hiff, hlook]
        simp only [if_true]
        split
        · exact h.turn.turn.result hno
        · exact h.turn.turn.result hno

/-- Behind the first `semget`, which has failed with `EEXIST`. -/
lemma result_eexist {a : Args} (hcreat : a.creat = true) {semflag : Semflag}
    (hflag : semflag.excl = a.excl) (hexists : Exists w) (h : Phase k [] w) :
    Result k (RemovesOther a w) (if Errno.EEXIST ≠ .EEXIST ∨ semflag.excl then
      err none .EEXIST (w.idle 3) else openOld semflag (w.idle 3)).2 := by
  rw [RemovesOther, if_pos hcreat]
  cases hexcl : a.excl with
  | true =>
    rw [if_pos (.inr (hflag.trans hexcl))]
    exact (h.idle 3).result fun hremoves => by cases hremoves.1
  | false =>
    rw [if_neg (by simp [hflag, hexcl])]
    refine (result_openOld (hflag.trans hexcl) (h.idle 3)).congr ?_
    simp [hexists]

lemma result_create {a : Args} (hcreat : a.creat = true) (h : Phase k [] w) :
    Result k (RemovesOther a w) (mysemOpen a w).2 := by
  have hno : ∀ {L : List ℕ} {w' : World}, Phase k L w' → ¬ Exists w →
      Result k (RemovesOther a w) w' := by
    intro L w' h' hnot
    refine h'.result ?_
    rw [RemovesOther, if_pos hcreat]
    exact fun hremoves => hnot hremoves.2.1
  rw [mysemOpen, if_pos hcreat]
  unfold openFile ftok semget
  cases hopen : w.turn.1.fails with
  | some e =>
    rw [attempt_call_of_fails hopen]
    exact hno h.turn fun hexists => not_works hopen hexists.1
  | none =>
    rw [attempt_call_of_works hopen]
    change Result k _ (Prod.snd (attempt (w.turn.2.call _) _ _))
    cases hftok : w.turn.2.turn.1.fails with
    | some e =>
      rw [attempt_call_of_fails hftok]
      exact hno h.turn.turn fun hexists => not_works hftok hexists.2.1
    | none =>
      rw [attempt_call_of_works hftok]
      change Result k _ (Prod.snd (attempt (w.turn.2.turn.2.call _) _ _))
      cases hsemget : w.turn.2.turn.2.turn.1.fails with
      | some e =>
        rw [attempt_call_of_fails hsemget]
        by_cases he : e = .EEXIST
        · subst he
          exact result_eexist hcreat rfl ⟨hopen, hftok, .inl hsemget⟩ h
        · rw [if_pos (Or.inl he)]
          refine hno (h.idle 3) fun hexists => ?_
          rcases hexists.2.2 with heexist | ⟨hworks, -⟩
          · exact he (Option.some.inj (hsemget.symm.trans heexist))
          · exact not_works hsemget hworks
      | none =>
        rw [attempt_call_of_works hsemget]
        cases hlook : w.turn.2.turn.2.turn.2.look w.turn.2.turn.1.key with
        | some id =>
          exact result_eexist hcreat rfl
            ⟨hopen, hftok, .inr ⟨hsemget, fun hnone => by cases hnone.symm.trans hlook⟩⟩ h
        | none =>
          refine hno (((h.idle 3).add _).initNew List.mem_cons_self _) fun hexists => ?_
          rcases hexists.2.2 with heexist | ⟨-, hsome⟩
          · exact not_works heexist hsemget
          · exact hsome hlook

lemma result_mysemOpen (a : Args) (h : Phase k [] w) :
    Result k (RemovesOther a w) (mysemOpen a w).2 := by
  by_cases hcreat : a.creat = true
  · exact result_create hcreat h
  · rw [mysemOpen, if_neg hcreat, RemovesOther, if_neg hcreat]
    exact result_openOld rfl h

/-! ## All calls -/

/-- A call of `mysem_open` leaves the semaphores that it has not created as the other processes have
made them if and only if it does not remove one that it has opened (`RemovesOther`).  It has not
created one that existed before. -/
theorem mysemOpen_spares_iff (a : Args) (k : Kernel) (turns : List Turn) :
    (Spares (mysemOpen a (start k turns)).2 ↔ ¬ RemovesOther a (start k turns)) ∧
      ∀ id, k.sets id ≠ none → id ∉ (mysemOpen a (start k turns)).2.created := by
  have h := result_mysemOpen a (phase_start k turns)
  refine ⟨h.spares_iff, fun id hid hcreated => hid ?_⟩
  exact k.fresh id (h.new id hcreated)

def inUse : Kernel where
  sets := update (fun _ => none) 0 (some ⟨7, SVSEM_MODE, 5, true⟩)
  next := 1
  fresh id hid := update_of_ne (by omega) _ _

/-- The set is opened without `O_CREAT`, and `malloc` fails: the set is removed. -/
theorem mysemOpen_removes : (mysemOpen ⟨false, false, 0, 0⟩ (start inUse
        [⟨[], none, 7⟩, ⟨[], none, 0⟩, ⟨[], none, 0⟩, ⟨[], some .ENOMEM, 0⟩])).1 =
      .error .ENOMEM ∧
    inUse.sets 0 = some ⟨7, SVSEM_MODE, 5, true⟩ ∧
    (mysemOpen ⟨false, false, 0, 0⟩ (start inUse
        [⟨[], none, 7⟩, ⟨[], none, 0⟩, ⟨[], none, 0⟩, ⟨[], some .ENOMEM, 0⟩])).2.kernel.sets 0 =
      none := by
  exact ⟨rfl, rfl, rfl⟩

end UnixPrograms.MysemSv
