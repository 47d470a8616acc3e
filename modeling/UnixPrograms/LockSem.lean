import UnixPrograms.Lib.Runs
import UnixPrograms.Lib.SysVSem
import Mathlib.Algebra.Order.BigOperators.Group.Finset

/-!
# The typed locks of `sv_sem`

`lock_sem` takes 2 from the semaphore of its type *and* from the next one, with `SEM_UNDO`;
`unlock_sem` gives 2 back to the first of them only, without `SEM_UNDO`.  So after some exits two
processes can lock the same type (`lock_twice`), and even without exits the set is not what it was
(`restored_iff_neverLocked`).

As long as no process exits that has given back a lock of `CAPI_LOCK_CONF_STORE`, no two processes
hold it (`lock_exclusive_of_keepsStore`).
-/

namespace UnixPrograms.LockSem

open Function List Option SemSet
open Finset hiding map_cons sum_cons

inductive LockType where
  | confRetrieve
  | confStore
  | callLog
  | guiFwUpgrade
  deriving DecidableEq

def LockType.num : LockType → ℕ
  | .confRetrieve => 0
  | .confStore => 1
  | .callLog => 2
  | .guiFwUpgrade => 3

def CAPI_LOCK_MAX : ℕ := 4

/-- `init_sem`: a new set, and every member set to 2. -/
def initSem (ι : Type) : SemSet ι :=
  (List.range CAPI_LOCK_MAX).foldl (fun s typeindex => s.setval typeindex 2) (.new CAPI_LOCK_MAX)

def lockOps (type : LockType) : List Sembuf := [⟨type.num, -2, true⟩, ⟨type.num + 1, -2, true⟩]

def unlockOps (type : LockType) : List Sembuf := [⟨type.num, 2, false⟩]

inductive Pc where
  /-- In no call, or in a `lock_sem` that has not got the lock. -/
  | outside
  | unlocking (type : LockType)
  | exited
  deriving DecidableEq

/-- A process, with what it has done. -/
structure Proc where
  pc : Pc
  /-- The calls of `lock_sem` that returned 0 and for which `unlock_sem` has not been called. -/
  held : LockType → ℕ
  /-- The calls of `lock_sem` that returned 0. -/
  locks : LockType → ℕ
  /-- The calls of `unlock_sem` that gave the lock back. -/
  unlocks : LockType → ℕ

structure State (ι : Type) where
  sem : SemSet ι
  proc : ι → Proc

/-- After `init_sem`. -/
def start (ι : Type) : State ι where
  sem := initSem ι
  proc _ := ⟨.outside, fun _ => 0, fun _ => 0, fun _ => 0⟩

inductive Action (ι : Type) where
  | lock (p : ι) (type : LockType)
  /-- `lock_sem` returns -1, because of a signal or because there is no such semaphore. -/
  | lockFails (p : ι) (type : LockType)
  | unlock (p : ι) (type : LockType)
  | giveBack (p : ι)
  | exit (p : ι)

/-- One more in the count for a type. -/
def incr (f : LockType → ℕ) (type : LockType) : LockType → ℕ := update f type (f type + 1)

section Step

variable {ι : Type} [DecidableEq ι]

def State.goOn (s : State ι) (p : ι) (sem : SemSet ι) (pr : Proc) : State ι where
  sem := sem
  proc := update s.proc p pr

/-- One step of one process.  `unlock_sem` is called only for a lock that is held. -/
def step (s : State ι) : Action ι → Option (State ι)
  | .lock p type =>
    if (s.proc p).pc = .outside then
      match s.sem.semop p (lockOps type) with
      | .done sem =>
        some (s.goOn p sem { s.proc p with
          held := incr (s.proc p).held type
          locks := incr (s.proc p).locks type })
      | .blocks => none
      | .efbig => none
    else none
  | .lockFails p _ => if (s.proc p).pc = .outside then some s else none
  | .unlock p type =>
    if (s.proc p).pc = .outside ∧ 0 < (s.proc p).held type then
      some (s.goOn p s.sem { s.proc p with
        -- a value that is not 0 ends the call with -1
        pc := if s.sem.val type.num ≠ 0 then .outside else .unlocking type
        held := update (s.proc p).held type ((s.proc p).held type - 1) })
    else none
  | .giveBack p =>
    match (s.proc p).pc with
    | .unlocking type =>
      match s.sem.semop p (unlockOps type) with
      | .done sem =>
        some (s.goOn p sem { s.proc p with
          pc := .outside
          unlocks := incr (s.proc p).unlocks type })
      | .blocks => none
      | .efbig => none
    | _ => none
  | .exit p =>
    if (s.proc p).pc ≠ .exited then some (s.goOn p (s.sem.exit p) { s.proc p with pc := .exited })
    else none

end Step

/-- The process holds a lock of the type. -/
def Proc.Holds (pr : Proc) (type : LockType) : Prop := pr.pc ≠ .exited ∧ 0 < pr.held type

/-- A process that has given a lock of `CAPI_LOCK_CONF_STORE` back does not exit. -/
def KeepsStore {ι : Type} (s : State ι) : Action ι → Prop
  | .exit p => (s.proc p).unlocks .confStore = 0
  | _ => True

/-! ## The invariant -/

/-- The undo adjustments of a process are those of its locks. -/
structure ProcOk (adj : ℕ → ℤ) (pr : Proc) : Prop where
  upgrade : pr.locks .guiFwUpgrade = 0
  counts : ∀ type, pr.unlocks type + (if pr.pc = .unlocking type then 1 else 0) + pr.held type ≤
    pr.locks type
  store : pr.pc ≠ .exited → adj 1 = 2 * (pr.locks .confStore + pr.locks .confRetrieve)
  last : pr.pc ≠ .exited → adj 3 = 2 * pr.locks .callLog
  gone : pr.pc = .exited → adj 1 = 0 ∧ adj 3 = 0 ∧ pr.unlocks .confStore = 0

variable {ι : Type} [Fintype ι]

/-- What holds in every state: what is left in the end is 2 and what has been given back. -/
structure Running (s : State ι) : Prop where
  nsems : s.sem.nsems = CAPI_LOCK_MAX
  proc : ∀ p, ProcOk (s.sem.adj p) (s.proc p)
  store : s.sem.rest 1 = 2 + 2 * ∑ p, ((s.proc p).unlocks .confStore : ℤ)
  last : s.sem.rest 3 = 2

lemma running_start : Running (start ι) := by
  refine ⟨rfl, fun p => ⟨rfl, fun type => ?_, fun _ => rfl, fun _ => rfl, fun h => ?_⟩, ?_, ?_⟩
  · rfl
  · cases h
  · simp [start, initSem, rest, setval, new, range_succ, CAPI_LOCK_MAX]
  · simp [start, initSem, rest, setval, new, range_succ, CAPI_LOCK_MAX]

variable {pr : Proc} {p : ι} {s s' : State ι} {sem : SemSet ι} {type : LockType} {a : Action ι}

omit [Fintype ι] in
lemma ProcOk.adj_nonneg {adj : ℕ → ℤ} (h : ProcOk adj pr) : 0 ≤ adj 1 ∧ 0 ≤ adj 3 := by
  by_cases hpc : pr.pc = .exited
  · obtain ⟨h1, h3, -⟩ := h.gone hpc
    omega
  · have h1 := h.store hpc
    have h3 := h.last hpc
    omega

section Exclusion

lemma two_le_false {d : ι → ℤ} (hd : ∀ p, 0 ≤ d p) (hsum : ∑ p, d p ≤ 2) {p q : ι} (hne : p ≠ q)
    (hp : 2 ≤ d p) (hq : 2 ≤ d q) : False := by
  have hle := add_le_sum (fun i _ => hd i) (mem_univ p) (mem_univ q) hne
  omega

lemma Running.exclusive {s : State ι} (h : Running s) {p q : ι} (hne : p ≠ q) {type : LockType}
    (hp : (s.proc p).Holds type) (hq : (s.proc q).Holds type) : False := by
  -- what a process has taken from the semaphore of `CAPI_LOCK_CONF_STORE` and not given back
  have hstore : ∀ r, 0 ≤ s.sem.adj r 1 - 2 * (s.proc r).unlocks .confStore := by
    intro r
    by_cases hpc : (s.proc r).pc = .exited
    · obtain ⟨h1, -, hu⟩ := (h.proc r).gone hpc
      omega
    · have h1 := (h.proc r).store hpc
      have hc := (h.proc r).counts .confStore
      omega
  have hsum₁ : ∑ r, (s.sem.adj r 1 - 2 * (s.proc r).unlocks .confStore) ≤ (2 : ℤ) := by
    have hval := s.sem.val_eq 1
    rw [h.store] at hval
    rw [sum_sub_distrib, ← mul_sum]
    omega
  have hsum₃ : ∑ r, s.sem.adj r 3 ≤ (2 : ℤ) := by
    have hval := s.sem.val_eq 3
    rw [h.last] at hval
    omega
  have hlocks : ∀ r, (s.proc r).Holds type → 0 < (s.proc r).locks type := by
    intro r hr
    have hc := (h.proc r).counts type
    have hheld := hr.2
    omega
  have hkey : ∀ r, (s.proc r).Holds type →
      (type = .confRetrieve ∨ type = .confStore →
        2 ≤ s.sem.adj r 1 - 2 * (s.proc r).unlocks .confStore) ∧
      (type = .callLog → 2 ≤ s.sem.adj r 3) ∧ type ≠ .guiFwUpgrade := by
    intro r hr
    have h1 := (h.proc r).store hr.1
    have h3 := (h.proc r).last hr.1
    have hc := (h.proc r).counts .confStore
    have hpos := hlocks r hr
    have hheld := hr.2
    refine ⟨?_, ?_, ?_⟩
    · rintro (rfl | rfl)
      · omega
      · omega
    · rintro rfl
      omega
    · rintro rfl
      have hu := (h.proc r).upgrade
      omega
  obtain ⟨hp₁, hp₃, hupgrade⟩ := hkey p hp
  obtain ⟨hq₁, hq₃, -⟩ := hkey q hq
  cases type with
  | confRetrieve => exact two_le_false hstore hsum₁ hne (hp₁ (.inl rfl)) (hq₁ (.inl rfl))
  | confStore => exact two_le_false hstore hsum₁ hne (hp₁ (.inr rfl)) (hq₁ (.inr rfl))
  | callLog =>
    exact two_le_false (fun r => (h.proc r).adj_nonneg.2) hsum₃ hne (hp₃ rfl) (hq₃ rfl)
  | guiFwUpgrade => exact hupgrade rfl

end Exclusion

/-! ## One step -/

variable [DecidableEq ι]

lemma Running.goOn (h : Running s) (hnsems : sem.nsems = s.sem.nsems)
    (hothers : ∀ q, q ≠ p → sem.adj q = s.sem.adj q) (hpr : ProcOk (sem.adj p) pr)
    (hstore : sem.rest 1 + 2 * ((s.proc p).unlocks .confStore : ℤ) = s.sem.rest 1 + 2 * pr.unlocks
      .confStore) (hlast : sem.rest 3 = s.sem.rest 3) : Running (s.goOn p sem pr) := by
  refine ⟨hnsems.trans h.nsems, fun q => ?_, ?_, hlast.trans h.last⟩
  · by_cases hq : q = p
    · subst hq
      simpa [State.goOn] using hpr
    · simpa [State.goOn, update_of_ne hq, hothers q hq] using h.proc q
  · have hsum := sum_update_add (fun pr : Proc => (pr.unlocks .confStore : ℤ)) s.proc p pr
    have hold := h.store
    simp only [State.goOn]
    omega

omit [Fintype ι] in
lemma semop_guiFwUpgrade {s : SemSet ι} (h : s.nsems = CAPI_LOCK_MAX) (p : ι) :
    s.semop p (lockOps .guiFwUpgrade) = .efbig := by
  simp [semop, lockOps, LockType.num, h, CAPI_LOCK_MAX]

lemma Running.lock (h : Running s) (hpc : (s.proc p).pc = .outside)
    (hsem : s.sem.semop p (lockOps type) = .done sem) :
    Running (s.goOn p sem { s.proc p with
      held := incr (s.proc p).held type
      locks := incr (s.proc p).locks type }) := by
  have hc := changed_semop hsem
  have hne : type ≠ .guiFwUpgrade := by
    rintro rfl
    rw [semop_guiFwUpgrade h.nsems] at hsem
    cases hsem
  have hlive : (s.proc p).pc ≠ .exited := by
    rw [hpc]
    decide
  have hrest : ∀ i, sem.rest i = s.sem.rest i := by
    intro i
    rw [rest_of_changed hc]
    simp [change, undone, lockOps, Sembuf.undone]
  have h1 := (h.proc p).store hlive
  have h3 := (h.proc p).last hlive
  have ha1 := hc.adj 1
  have ha3 := hc.adj 3
  refine h.goOn hc.nsems hc.others ⟨?_, fun t => ?_, fun _ => ?_, fun _ => ?_, fun hgone => ?_⟩ ?_
    (hrest 3)
  · have hsame : incr (s.proc p).locks type .guiFwUpgrade = (s.proc p).locks .guiFwUpgrade :=
      update_of_ne (Ne.symm hne) ..
    exact hsame.trans (h.proc p).upgrade
  · have hcounts := (h.proc p).counts t
    by_cases ht : t = type
    · subst ht
      simp only [incr, update_self]
      omega
    · simpa only [incr, update_of_ne ht] using hcounts
  · rw [ha1, h1]
    cases type <;> simp [undone, lockOps, Sembuf.undone, Sembuf.change, LockType.num, incr,
      update_of_ne] <;> omega
  · rw [ha3, h3]
    cases type with
    | guiFwUpgrade => exact absurd rfl hne
    | _ => simp [undone, lockOps, Sembuf.undone, Sembuf.change, LockType.num, incr,
        update_of_ne] <;> omega
  · exact absurd hgone hlive
  · rw [hrest 1]

lemma Running.giveBack (h : Running s) (hpc : (s.proc p).pc = .unlocking type)
    (hsem : s.sem.semop p (unlockOps type) = .done sem) :
    Running (s.goOn p sem { s.proc p with
      pc := .outside
      unlocks := incr (s.proc p).unlocks type }) := by
  have hc := changed_semop hsem
  have hlive : (s.proc p).pc ≠ .exited := by
    rw [hpc]
    exact Pc.noConfusion
  have hcount := (h.proc p).counts type
  rw [if_pos hpc] at hcount
  have hne : type ≠ .guiFwUpgrade := by
    rintro rfl
    have hu := (h.proc p).upgrade
    omega
  have hadj : ∀ i, sem.adj p i = s.sem.adj p i := by
    intro i
    rw [hc.adj i]
    simp [undone, unlockOps, Sembuf.undone]
  have hrest := rest_of_changed hc
  refine h.goOn hc.nsems hc.others ⟨(h.proc p).upgrade, fun t => ?_, fun _ => ?_, fun _ => ?_,
    fun hgone => by cases hgone⟩ ?_ ?_
  · have hcounts := (h.proc p).counts t
    by_cases ht : t = type
    · subst ht
      simp only [incr, update_self, reduceCtorEq, if_false]
      omega
    · simp only [incr, update_of_ne ht, reduceCtorEq, if_false]
      omega
  · exact (hadj 1).trans ((h.proc p).store hlive)
  · exact (hadj 3).trans ((h.proc p).last hlive)
  · rw [hrest 1]
    cases type <;> simp [change, undone, unlockOps, Sembuf.undone, Sembuf.change, LockType.num,
      incr]
    all_goals omega
  · rw [hrest 3]
    cases type with
    | guiFwUpgrade => exact absurd rfl hne
    | _ => simp [change, undone, unlockOps, Sembuf.undone, Sembuf.change, LockType.num]

lemma Running.unlock (h : Running s) {pc : Pc} (hpc : (s.proc p).pc = .outside)
    (hheld : 0 < (s.proc p).held type) (hnext : pc = .outside ∨ pc = .unlocking type) :
    Running (s.goOn p s.sem { s.proc p with
      pc := pc
      held := update (s.proc p).held type ((s.proc p).held type - 1) }) := by
  have hlive : (s.proc p).pc ≠ .exited := by
    rw [hpc]
    exact Pc.noConfusion
  refine h.goOn rfl (fun _ _ => rfl) ⟨(h.proc p).upgrade, fun t => ?_, fun _ =>
    (h.proc p).store hlive, fun _ => (h.proc p).last hlive, fun hgone => ?_⟩ rfl rfl
  · have hcounts := (h.proc p).counts t
    by_cases ht : t = type
    · subst ht
      simp only [update_self]
      split <;> omega
    · have hpc' : pc ≠ .unlocking t := by
        rintro rfl
        obtain hnext | hnext := hnext
        · cases hnext
        · exact ht (Pc.unlocking.inj hnext)
      simp only [update_of_ne ht, if_neg hpc']
      omega
  · obtain rfl | rfl := hnext <;> cases hgone

lemma Running.exit (h : Running s) (hkeeps : (s.proc p).unlocks .confStore = 0) :
    Running (s.goOn p (s.sem.exit p) { s.proc p with pc := .exited }) := by
  obtain ⟨h1, h3⟩ := (h.proc p).adj_nonneg
  have hrest₁ : (s.sem.exit p).rest 1 = s.sem.rest 1 := rest_exit (by omega)
  have hrest₃ : (s.sem.exit p).rest 3 = s.sem.rest 3 := SemSet.rest_exit (by omega)
  have hadj : ∀ i, (s.sem.exit p).adj p i = 0 := fun i => by simp [SemSet.exit]
  refine h.goOn rfl (fun q hq => update_of_ne hq ..) ⟨(h.proc p).upgrade, fun t => ?_,
    fun hlive => absurd rfl hlive, fun hlive => absurd rfl hlive,
    fun _ => ⟨hadj 1, hadj 3, hkeeps⟩⟩ ?_ hrest₃
  · have hcounts := (h.proc p).counts t
    simp only [reduceCtorEq, if_false]
    omega
  · rw [hrest₁]

/-- What an action does when it is possible. -/
inductive Turn (s : State ι) : Action ι → State ι → Prop
  | lock {p : ι} {type : LockType} {sem : SemSet ι} (hpc : (s.proc p).pc = .outside)
      (hsem : s.sem.semop p (lockOps type) = .done sem) :
      Turn s (.lock p type) (s.goOn p sem { s.proc p with
        held := incr (s.proc p).held type
        locks := incr (s.proc p).locks type })
  | lockFails {p : ι} {type : LockType} : Turn s (.lockFails p type) s
  | unlock {p : ι} {type : LockType} {pc : Pc} (hpc : (s.proc p).pc = .outside)
      (hheld : 0 < (s.proc p).held type) (hnext : pc = .outside ∨ pc = .unlocking type) :
      Turn s (.unlock p type) (s.goOn p s.sem { s.proc p with
        pc := pc
        held := update (s.proc p).held type ((s.proc p).held type - 1) })
  | giveBack {p : ι} {type : LockType} {sem : SemSet ι} (hpc : (s.proc p).pc = .unlocking type)
      (hsem : s.sem.semop p (unlockOps type) = .done sem) :
      Turn s (.giveBack p) (s.goOn p sem { s.proc p with
        pc := .outside
        unlocks := incr (s.proc p).unlocks type })
  | exit {p : ι} :
      Turn s (.exit p) (s.goOn p (s.sem.exit p) { s.proc p with pc := .exited })

omit [Fintype ι] in
lemma turn_of_step (hst : step s a = some s') : Turn s a s' := by
  revert hst
  fun_cases LockSem.step s a with
  | case1 p type hpc sem hsem => exact fun hst => some.inj hst ▸ .lock hpc hsem
  | case5 => exact fun hst => some.inj hst ▸ .lockFails
  | case7 p type hpc =>
    rintro ⟨⟩
    apply Turn.unlock hpc.1 hpc.2
    split
    · exact .inl rfl
    · exact .inr rfl
  | case9 p type hpc sem hsem => exact fun hst => some.inj hst ▸ .giveBack hpc hsem
  | case13 => exact fun hst => some.inj hst ▸ .exit
  | _ => simp

lemma Running.step (h : Running s) (hst : step s a = some s') (hkeeps : KeepsStore s a) :
    Running s' := by
  cases turn_of_step hst with
  | lock hpc hsem => exact h.lock hpc hsem
  | lockFails => exact h
  | unlock hpc hheld hnext => exact h.unlock hpc hheld hnext
  | giveBack hpc hsem => exact h.giveBack hpc hsem
  | exit => exact h.exit hkeeps

/-! ## Runs -/

/-- In a run in which no process exits after it has given a lock of `CAPI_LOCK_CONF_STORE` back, no
two live processes hold locks of the same type. -/
theorem lock_exclusive_of_keepsStore {as : List (Action ι)} {s : State ι}
    (hrun : RunWhen step KeepsStore (start ι) as s) {p q : ι} {type : LockType}
    (hp : (s.proc p).Holds type) (hq : (s.proc q).Holds type) : p = q := by
  have h := hrun.invariant running_start fun _ _ _ hI hst hC => hI.step hst hC
  by_contra hne
  exact h.exclusive hne hp hq

instance (pr : Proc) (type : LockType) : Decidable (pr.Holds type) :=
  inferInstanceAs (Decidable (_ ∧ _))

/-- The condition, as it is checked on a run. -/
instance (s : State (Fin 4)) (a : Action (Fin 4)) : Decidable (KeepsStore s a) :=
  match a with
  | .exit p => inferInstanceAs (Decidable ((s.proc p).unlocks .confStore = 0))
  | .lock _ _ => .isTrue trivial
  | .lockFails _ _ => .isTrue trivial
  | .unlock _ _ => .isTrue trivial
  | .giveBack _ => .isTrue trivial

/-- A process locks and gives back, another one takes the lock and exits, a third one takes it
then. -/
theorem lock_exclusive_of_keepsStore_three : ∃ s : State (Fin 4),
    RunWhen step KeepsStore (start (Fin 4)) [.lock 0 .callLog, .unlock 0 .callLog, .giveBack 0,
      .exit 0, .lock 1 .confRetrieve, .exit 1, .lock 2 .confRetrieve] s ∧
    (s.proc 2).Holds .confRetrieve ∧ ∀ q, (s.proc q).Holds .confRetrieve → 2 = q := by
  obtain ⟨s, hrun, hholds⟩ := exists_runWhen step KeepsStore (start (Fin 4))
    [.lock 0 .callLog, .unlock 0 .callLog, .giveBack 0, .exit 0, .lock 1 .confRetrieve,
      .exit 1, .lock 2 .confRetrieve]
    (fun s => (s.proc 2).Holds .confRetrieve) (by decide +kernel)
  exact ⟨s, hrun, hholds, fun q hq => lock_exclusive_of_keepsStore hrun hholds hq⟩

/-- Two processes lock, give back and exit.  Two others then hold the same lock. -/
theorem lock_twice : ∃ (as : List (Action (Fin 4))) (s : State (Fin 4)),
    RunFrom step (start (Fin 4)) as s ∧
    (s.proc 2).Holds .confRetrieve ∧ (s.proc 3).Holds .confRetrieve :=
  ⟨[.lock 0 .confStore, .unlock 0 .confStore, .giveBack 0, .exit 0,
    .lock 1 .confRetrieve, .unlock 1 .confRetrieve, .giveBack 1, .exit 1,
    .lock 2 .confRetrieve, .lock 3 .confRetrieve], exists_runFrom _ _ _ _ (by decide +kernel)⟩

/-! ## The balance of locks and unlocks -/

instance : Fintype LockType where
  elems := {.confRetrieve, .confStore, .callLog, .guiFwUpgrade}
  complete type := by cases type <;> decide

/-- What a process has taken from the set and not given back. -/
def Proc.lost (pr : Proc) : ℤ :=
  4 * ∑ type, (pr.locks type : ℤ) - 2 * ∑ type, (pr.unlocks type : ℤ)

def total (sem : SemSet ι) : ℤ := ∑ i ∈ range CAPI_LOCK_MAX, (sem.val i : ℤ)

def Balanced (s : State ι) : Prop := total s.sem + ∑ p, (s.proc p).lost = 2 * CAPI_LOCK_MAX

/-- No process exits. -/
def Stays {ι : Type} (_ : State ι) : Action ι → Prop
  | .exit _ => False
  | _ => True

/-- No process is between a lock and its unlock. -/
def Idle {ι : Type} (s : State ι) : Prop :=
  ∀ p, (s.proc p).pc = .outside ∧ ∀ type, (s.proc p).held type = 0

/-- All semaphores have their initial value. -/
def Restored {ι : Type} (s : State ι) : Prop := ∀ i < CAPI_LOCK_MAX, s.sem.val i = 2

/-- The process would get the lock at once. -/
def Lockable (s : State ι) (p : ι) (type : LockType) : Prop :=
  ∃ sem, s.sem.semop p (lockOps type) = .done sem

omit [Fintype ι] [DecidableEq ι] in
lemma sum_incr (f : LockType → ℕ) (type : LockType) :
    ∑ t, (incr f type t : ℤ) = ∑ t, (f t : ℤ) + 1 := by
  have h := sum_update_add (fun n : ℕ => (n : ℤ)) f type (f type + 1)
  simp only [incr] at h ⊢
  push_cast at h
  omega

omit [Fintype ι] [DecidableEq ι] in
lemma total_changed {d u : ℕ → ℤ} {sem' : SemSet ι} (h : Changed p d u sem sem') :
    total sem' = total sem + ∑ i ∈ range CAPI_LOCK_MAX, d i := by
  rw [total, total, ← sum_add_distrib]
  exact sum_congr rfl fun i _ => h.val i

omit [Fintype ι] [DecidableEq ι] in
lemma restored_start : Restored (start ι) := by
  intro i hi
  rw [CAPI_LOCK_MAX] at hi
  obtain rfl | rfl | rfl | rfl : i = 0 ∨ i = 1 ∨ i = 2 ∨ i = 3 := by omega
  all_goals rfl

omit [DecidableEq ι] in
lemma balanced_start : Balanced (start ι) := by
  simp [Balanced, total, Proc.lost, start, initSem, setval, new, range_succ,
    Finset.sum_range_succ, CAPI_LOCK_MAX]

lemma Balanced.goOn (h : Balanced s) (hp : total sem + pr.lost = total s.sem + (s.proc p).lost) :
    Balanced (s.goOn p sem pr) := by
  have hsum := sum_update_add Proc.lost s.proc p pr
  simp only [Balanced, State.goOn] at h ⊢
  omega

lemma Balanced.step (hr : Running s) (h : Balanced s) (hst : step s a = some s')
    (hstays : Stays s a) : Balanced s' := by
  cases turn_of_step hst with
  | @lock p type sem hpc hsem =>
    apply h.goOn
    have hne : type ≠ .guiFwUpgrade := by
      rintro rfl
      rw [semop_guiFwUpgrade hr.nsems] at hsem
      cases hsem
    have hd : ∑ i ∈ range CAPI_LOCK_MAX, change (lockOps type) i = -4 := by
      cases type with
      | guiFwUpgrade => exact absurd rfl hne
      | _ => rfl
    have ht := total_changed (changed_semop hsem)
    simp only [Proc.lost, sum_incr]
    omega
  | lockFails => exact h
  | unlock hpc hheld hnext => exact h.goOn rfl
  | @giveBack p type sem hpc hsem =>
    apply h.goOn
    have hd : ∑ i ∈ range CAPI_LOCK_MAX, change (unlockOps type) i = 2 := by
      cases type <;> rfl
    have ht := total_changed (changed_semop hsem)
    simp only [Proc.lost, sum_incr]
    omega
  | exit => exact hstays.elim

omit [Fintype ι] [DecidableEq ι] in
lemma ProcOk.le_lost {adj : ℕ → ℤ} (h : ProcOk adj pr) (type : LockType) :
    2 * (pr.locks type : ℤ) ≤ pr.lost := by
  have hunlocks : ∑ t, (pr.unlocks t : ℤ) ≤ ∑ t, (pr.locks t : ℤ) := by
    apply Finset.sum_le_sum
    intro t _
    have hc := h.counts t
    omega
  have hone : (pr.locks type : ℤ) ≤ ∑ t, (pr.locks t : ℤ) :=
    single_le_sum (fun t _ => Int.natCast_nonneg (pr.locks t)) (mem_univ type)
  rw [Proc.lost]
  omega

omit [DecidableEq ι] in
lemma Balanced.locks_eq_zero (hr : Running s) (h : Balanced s) (hs : Restored s) (p : ι)
    (type : LockType) : (s.proc p).locks type = 0 := by
  have htotal : total s.sem = 2 * CAPI_LOCK_MAX := by
    rw [total, sum_congr rfl fun i hi => by rw [hs i (Finset.mem_range.mp hi)]]
    rfl
  have hlost : ∀ q, 0 ≤ (s.proc q).lost := by
    intro q
    have hle := (hr.proc q).le_lost type
    omega
  have hone := single_le_sum (fun q _ => hlost q) (mem_univ p)
  have hle := (hr.proc p).le_lost type
  rw [Balanced] at h
  omega

/-- No process has ever locked anything. -/
def NeverLocked {ι : Type} (s : State ι) : Prop := ∀ p type, (s.proc p).locks type = 0

lemma restored_of_turn (hr : Running s) (ht : Turn s a s') (hstays : Stays s a)
    (h : NeverLocked s → Restored s) (h0 : NeverLocked s') : Restored s' := by
  cases ht with
  | @lock p type sem hpc hsem =>
    have hp := h0 p type
    simp [State.goOn, incr] at hp
  | lockFails => exact h h0
  | @unlock p type pc hpc hheld hnext =>
    have hp : (s.proc p).locks type = 0 := by simpa [State.goOn] using h0 p type
    have hc := (hr.proc p).counts type
    omega
  | @giveBack p type sem hpc hsem =>
    have hp : (s.proc p).locks type = 0 := by simpa [State.goOn] using h0 p type
    have hc := (hr.proc p).counts type
    rw [if_pos hpc] at hc
    omega
  | exit => exact hstays.elim

omit [Fintype ι] in
lemma lockable_of_restored (hnsems : s.sem.nsems = CAPI_LOCK_MAX) (h : Restored s) (p : ι)
    (hne : type ≠ .guiFwUpgrade) : Lockable s p type := by
  have hnext : type.num + 1 < CAPI_LOCK_MAX := by
    cases type with
    | guiFwUpgrade => exact absurd rfl hne
    | _ => decide
  have h₁ := h type.num (by omega)
  have h₂ := h (type.num + 1) hnext
  have hmembers : type.num < s.sem.nsems ∧ type.num + 1 < s.sem.nsems := by omega
  simp [Lockable, semop, performAll, perform, lockOps, h₁, h₂, hmembers]

omit [Fintype ι] in
lemma Lockable.two_le (h : Lockable s p type) :
    2 ≤ s.sem.val type.num ∧ 2 ≤ s.sem.val (type.num + 1) := by
  obtain ⟨sem, hsem⟩ := h
  have hc := changed_semop hsem
  have h₁ := hc.val type.num
  have h₂ := hc.val (type.num + 1)
  simp only [change, lockOps, Sembuf.change, map_cons, map_nil, sum_cons, sum_nil, if_true] at h₁ h₂
  rw [if_neg (by omega)] at h₁ h₂
  omega

structure Live (s : State ι) : Prop where
  running : Running s
  balanced : Balanced s
  untouched : NeverLocked s → Restored s

lemma live_of_runWhen {as : List (Action ι)} (hrun : RunWhen step Stays (start ι) as s) :
    Live s := by
  apply hrun.invariant
  · exact ⟨running_start, balanced_start, fun _ => restored_start⟩
  · intro s a s' h hst hstays
    have hkeeps : KeepsStore s a := by
      cases a with
      | exit p => exact hstays.elim
      | _ => trivial
    exact ⟨h.running.step hst hkeeps, h.balanced.step h.running hst hstays,
      restored_of_turn h.running (turn_of_step hst) hstays h.untouched⟩

/-- While no process exits, all members have the value 2 if and only if no lock has ever been taken,
also when nobody holds one.  Then every type can be locked but `CAPI_LOCK_GUI_FW_UPGRADE`, which
never can. -/
theorem restored_iff_neverLocked {as : List (Action ι)} {s : State ι}
    (hrun : RunWhen step Stays (start ι) as s) :
    (Restored s ↔ NeverLocked s) ∧
      (Restored s → ∀ p type, Lockable s p type ↔ type ≠ .guiFwUpgrade) ∧
      ∀ p, ¬ Lockable s p .guiFwUpgrade := by
  have h := live_of_runWhen hrun
  have hupgrade : ∀ p, ¬ Lockable s p .guiFwUpgrade := by
    rintro p ⟨sem, hsem⟩
    rw [semop_guiFwUpgrade h.running.nsems] at hsem
    cases hsem
  refine ⟨⟨h.balanced.locks_eq_zero h.running, h.untouched⟩, fun hs p type => ?_, hupgrade⟩
  constructor
  · rintro hlock rfl
    exact hupgrade p hlock
  · exact lockable_of_restored h.running.nsems hs p

/-- The condition, as it is checked on a run. -/
instance {ι : Type} (s : State ι) (a : Action ι) : Decidable (Stays s a) :=
  match a with
  | .exit _ => .isFalse id
  | .lock _ _ => .isTrue trivial
  | .lockFails _ _ => .isTrue trivial
  | .unlock _ _ => .isTrue trivial
  | .giveBack _ => .isTrue trivial

instance (s : State (Fin 2)) : Decidable (Idle s) :=
  inferInstanceAs (Decidable (∀ p : Fin 2, (s.proc p).pc = .outside ∧
    ∀ type, (s.proc p).held type = 0))

/-- One process locks and unlocks once, and then nobody holds a lock. -/
def once (p : Fin 2) : List (Action (Fin 2)) :=
  [.lock p .confRetrieve, .unlock p .confRetrieve, .giveBack p]

theorem restored_iff_neverLocked_once : ∃ s : State (Fin 2),
    RunWhen step Stays (start (Fin 2)) (once 0) s ∧ (Restored s ↔ NeverLocked s) := by
  obtain ⟨s, hrun, -⟩ := exists_runWhen step Stays (start (Fin 2)) (once 0) (fun _ => True)
    (by decide +kernel)
  exact ⟨s, hrun, (restored_iff_neverLocked hrun).1⟩

/-- The semaphore of `CAPI_LOCK_CONF_STORE` is 0 then, and nobody can lock it. -/
theorem not_lockable_once : ∃ s : State (Fin 2),
    RunWhen step Stays (start (Fin 2)) (once 0) s ∧ Idle s ∧
      s.sem.val LockType.confStore.num = 0 ∧ ∀ p, ¬ Lockable s p .confStore := by
  obtain ⟨s, hrun, hidle, hval⟩ := exists_runWhen step Stays (start (Fin 2)) (once 0)
    (fun s => Idle s ∧ s.sem.val LockType.confStore.num = 0) (by decide +kernel)
  refine ⟨s, hrun, hidle, hval, ?_⟩
  intro p hlock
  have h2 := hlock.two_le.1
  omega

end UnixPrograms.LockSem
