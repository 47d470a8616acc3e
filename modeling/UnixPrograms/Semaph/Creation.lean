import UnixPrograms.Semaph.Runs

/-!
# Creating a set while others close it

`sem_create` finds or creates a set and then waits for the lock in it.  If the set is removed
between the two calls, `semop` fails with `EINVAL` and `sem_create` starts again; if it is removed
while it waits, `EIDRM` ends the process.  Nothing else goes wrong, if every initial value is one
that a semaphore can have and the opens can be counted (`semCreate_iff`).

The processes call `sem_create` and `sem_close` for one key.
-/

namespace UnixPrograms.Semaph

open Function Option SemSet

/-- The set that the process is about to call `semop` for. -/
def Pc.semopOf : Pc → Option ℕ
  | .createLock _ _ id => some id
  | .createEnd id => some id
  | .closeOp id => some id
  | .closeUnlock id => some id
  | _ => none

def Pc.expected : Pc → Bool
  | .openGet _ | .openOp _ | .opOp _ _ | .exited => false
  | _ => true

/-- The set that has been initialised when the process comes here. -/
def Pc.readyOf : Pc → Option ℕ
  | .createEnd id => some id
  | .closeGetval id => some id
  | .closeRm id => some id
  | .closeUnlock id => some id
  | _ => none

namespace Creation

abbrev Key := { key : ℤ // key ≠ IPC_PRIVATE ∧ key ≠ -1 }

/-- The sets and processes, and the processes that are asleep in their `semop`. -/
structure Sys (ι : Type) where
  base : State ι
  asleep : ι → Bool
  /-- The `sem_create` that the last step has ended: the process, and what was returned. -/
  returned : Option (ι × ℕ)

/-- No sets, and no process in a call. -/
def start (ι : Type) : Sys ι := ⟨Semaph.start ι, fun _ => false, none⟩

inductive Call (ι : Type) where
  | semCreate (p : ι) (initval : ℤ)
  | semClose (p : ι) (id : ℕ)
  /-- The process makes the system call that it is in front of, or wakes up in it. -/
  | go (p : ι)
  /-- The process falls asleep in its `semop`. -/
  | sleep (p : ι)

section Step

variable {ι : Type}

/-- What the process `p` has returned from `sem_create` by going from `b` to `b'`. -/
def returned (b b' : State ι) (p : ι) : Option (ι × ℕ) :=
  match (b.proc p).pc with
  | .createEnd id => if (b'.proc p).pc = .outside then some (p, id) else none
  | _ => none

/-- The process is asleep in a `semop` for a set that has been removed, so that it fails with
`EIDRM`. -/
def Sys.Eidrm (s : Sys ι) (p : ι) : Prop :=
  s.asleep p = true ∧ ∃ id ∈ (s.base.proc p).pc.semopOf, (s.base.sets id).isNone = true

instance (s : Sys ι) (p : ι) : Decidable (s.Eidrm p) :=
  inferInstanceAs (Decidable (_ ∧ ∃ id ∈ (s.base.proc p).pc.semopOf, _))

variable [Fintype ι] [DecidableEq ι]

def step (key : Key) (s : Sys ι) : Call ι → Option (Sys ι)
  | .semCreate p initval =>
    (Semaph.step s.base (.semCreate p key initval)).map fun b => ⟨b, s.asleep, none⟩
  | .semClose p id => (Semaph.step s.base (.semClose p id)).map fun b => ⟨b, s.asleep, none⟩
  | .go p =>
    if s.Eidrm p then
      -- `err_sys`
      some ⟨s.base.exit p, update s.asleep p false, none⟩
    else
      (s.base.go p).map fun b => ⟨b, update s.asleep p false, returned s.base b p⟩
  | .sleep p =>
    if (s.base.proc p).pc.semopOf.isSome ∧ (s.base.go p).isNone then
      some { s with asleep := update s.asleep p true, returned := none }
    else none

/-- The steps as long as no set has more opens than its counter can count. -/
def countedStep (key : Key) : Sys ι → Call ι → Option (Sys ι) :=
  guarded (step key) fun s _ => decide (FewOpens s.base)

end Step

/-- No process has been ended or is bound to be, and what `sem_create` has returned exists and is
open. -/
structure Good {ι : Type} (s : Sys ι) : Prop where
  alive : ∀ p, (s.base.proc p).pc ≠ .exited
  eidrm : ∀ p, ¬ s.Eidrm p
  returned : ∀ p id, s.returned = some (p, id) →
    s.base.sets id ≠ none ∧ 0 < (s.base.proc p).opens id

/-- No set is removed while a process is asleep on it in `sem_create`, and the initial values are
from 0 to `SEMVMX`. -/
def InTime {ι : Type} (s : Sys ι) : Call ι → Prop
  | .go p =>
    (∀ id, (s.base.proc p).pc = .closeRm id → ∀ q, s.asleep q = true →
      ∀ key initval, (s.base.proc q).pc ≠ .createLock key initval id) ∧
    ∀ initval id, (s.base.proc p).pc = .createSet0 initval id → 0 ≤ initval ∧ initval ≤ SEMVMX
  | _ => True

/-! ## What holds as long as no process is ended -/

lemma vacuous {P : ℕ → Prop} (i : ℕ) (h : (none : Option ℕ) = some i) : P i := by cases h

variable {ι : Type}

/-- A set that is open or locked exists. -/
structure Kept (b : State ι) : Prop where
  expected : ∀ p, (b.proc p).pc.expected = true
  opened : ∀ p id, 0 < (b.proc p).opens id → b.sets id ≠ none
  locked : ∀ p id, (b.proc p).pc.lockOf = some id → b.sets id ≠ none
  ready : ∀ p id, (b.proc p).pc.readyOf = some id → b.initialised id = true

variable [DecidableEq ι]

/-- What a step does that removes no set. -/
structure Effect (b b' : State ι) (p : ι) (pr : Proc) : Prop where
  proc : b'.proc = update b.proc p pr
  sets : ∀ id, b.sets id ≠ none → b'.sets id ≠ none
  init : ∀ id, b.initialised id = true → b'.initialised id = true
  expected : pr.pc.expected = true
  opened : ∀ id, 0 < pr.opens id → b'.sets id ≠ none
  locked : ∀ id, pr.pc.lockOf = some id → b'.sets id ≠ none
  ready : ∀ id, pr.pc.readyOf = some id → b'.initialised id = true

section Moves

variable {b b' b₁ : State ι} {p : ι} {id : ℕ}

lemma forall_proc {pr : Proc} (hproc : b'.proc = update b.proc p pr) {Q : Proc → Prop} (hp : Q pr)
    (hq : ∀ q, q ≠ p → Q (b.proc q)) (q : ι) : Q (b'.proc q) := by
  rw [hproc]
  exact (forall_update_iff b.proc fun _ => Q).mpr ⟨hp, hq⟩ q

lemma Effect.kept {pr : Proc} (h : Kept b) (he : Effect b b' p pr) : Kept b' where
  expected := forall_proc (Q := fun x => x.pc.expected = true) he.proc he.expected
    fun q _ => h.expected q
  opened := forall_proc (Q := fun x => ∀ i, 0 < x.opens i → b'.sets i ≠ none) he.proc he.opened
    fun q _ i hi => he.sets i (h.opened q i hi)
  locked := forall_proc (Q := fun x => ∀ i, x.pc.lockOf = some i → b'.sets i ≠ none) he.proc
    he.locked fun q _ i hi => he.sets i (h.locked q i hi)
  ready := forall_proc (Q := fun x => ∀ i, x.pc.readyOf = some i → b'.initialised i = true) he.proc
    he.ready fun q _ i hi => he.init i (h.ready q i hi)

lemma Kept.goTo (h : Kept b) {pc : Pc} (hproc : b₁.proc = b.proc)
    (hsets : ∀ id, b.sets id ≠ none → b₁.sets id ≠ none)
    (hinit : ∀ id, b.initialised id = true → b₁.initialised id = true)
    (hexpected : pc.expected = true)
    (hlocked : ∀ id, pc.lockOf = some id → b₁.sets id ≠ none)
    (hready : ∀ id, pc.readyOf = some id → b₁.initialised id = true) :
    Effect b (b₁.goTo p pc) p { b.proc p with pc := pc } where
  proc := by rw [State.goTo, hproc]
  sets := hsets
  init := hinit
  expected := hexpected
  opened id hid := hsets id (h.opened p id hid)
  locked := hlocked
  ready := hready

lemma Kept.goTo_self (h : Kept b) {pc : Pc} (hexpected : pc.expected = true)
    (hlocked : ∀ id, pc.lockOf = some id → b.sets id ≠ none)
    (hready : ∀ id, pc.readyOf = some id → b.initialised id = true) :
    Effect b (b.goTo p pc) p { b.proc p with pc := pc } :=
  h.goTo rfl (fun _ hi => hi) (fun _ hi => hi) hexpected hlocked hready

omit [DecidableEq ι] in
lemma put_ne_none (set : SemSet ι) (i : ℕ) (hi : b.sets i ≠ none) :
    (b.put id set).sets i ≠ none := by
  rw [State.put]
  by_cases h : i = id
  · subst h
    simp
  · simpa [update_of_ne h] using hi

lemma Kept.goTo_put (h : Kept b) {pc : Pc} (set : SemSet ι) (hexpected : pc.expected = true)
    (hlocked : ∀ id, pc.lockOf = some id → b.sets id ≠ none)
    (hready : ∀ id, pc.readyOf = some id → b.initialised id = true) :
    Effect b ((b.put id set).goTo p pc) p { b.proc p with pc := pc } :=
  h.goTo rfl (put_ne_none set) (fun _ hi => hi) hexpected
    (fun i hi => put_ne_none set i (hlocked i hi)) hready

variable {set : SemSet ι}

lemma Kept.goTo_setOpens (h : Kept b) {pc : Pc} {n : ℕ} (hid : b.sets id ≠ none)
    (hexpected : pc.expected = true) (hlocked : ∀ i, pc.lockOf = some i → i = id)
    (hready : ∀ i, pc.readyOf = some i → b.initialised i = true) :
    Effect b (((b.put id set).setOpens p id n).goTo p pc) p
      ⟨pc, update (b.proc p).opens id n⟩ := by
  rw [Running.goTo_setOpens]
  have hsets : ∀ i, b.sets i ≠ none → (b.put id set).sets i ≠ none := put_ne_none set
  refine ⟨rfl, hsets, fun _ hi => hi, hexpected, fun i hi => ?_, fun i hi => ?_, hready⟩
  · by_cases heq : i = id
    · subst heq
      exact hsets i hid
    · have hi' : 0 < (b.proc p).opens i := by simpa [update_of_ne heq] using hi
      exact hsets i (h.opened p i hi')
  · rw [hlocked i hi]
    exact hsets id hid

variable [Fintype ι]

section

variable (h : Running True b)
include h

lemma semop_done (hset : b.sets id = some set) {ops : List Sembuf}
    (hops : ops.all (fun op => op.semNum < 3) = true) {gone : State ι} {k : State ι → State ι}
    (hst : b.semop p id ops gone k = some b') : ∃ set', b' = k (b.put id set') := by
  rw [State.semop, hset] at hst
  cases hop : set.semop p ops with
  | done set' =>
    simp only [hop, some.injEq] at hst
    exact ⟨set', hst.symm⟩
  | blocks =>
    simp only [hop] at hst
    cases hst
  | efbig =>
    rw [semop, (h.sets id set hset).nsems, if_pos hops] at hop
    split at hop <;> cases hop

omit [DecidableEq ι] in
lemma initialised_of_opens (hk : Kept b) (hopens : 0 < (b.proc p).opens id) :
    b.initialised id = true := by
  obtain ⟨set, hset⟩ := ne_none_iff_exists'.mp (hk.opened p id hopens)
  by_contra hinit
  have hok := h.sets id set hset
  rw [Bool.not_eq_true] at hinit
  rw [hinit] at hok
  have hzero := hok.opens_eq_zero p
  simp only [Proc.part] at hzero
  omega

omit [DecidableEq ι] in
lemma initialised_of_val (hset : b.sets id = some set) (hval : set.val 1 ≠ 0) :
    b.initialised id = true := by
  by_contra hinit
  have hok := (h.sets id set hset).val_one
  rw [if_neg hinit] at hok
  have hsum : 0 ≤ ∑ q, (((b.proc q).part id).opens : ℤ) :=
    Finset.sum_nonneg fun q _ => Int.natCast_nonneg _
  omega

omit [DecidableEq ι] in
lemma val_le_BIGCOUNT (hset : b.sets id = some set) : set.val 1 ≤ BIGCOUNT := by
  have hok := (h.sets id set hset).val_one
  have hsum : 0 ≤ ∑ q, (((b.proc q).part id).opens : ℤ) :=
    Finset.sum_nonneg fun q _ => Int.natCast_nonneg _
  split at hok
  · omega
  · omega

lemma go_effect (hk : Kept b) (hst : b.go p = some b')
    (hval : ∀ initval id, (b.proc p).pc = .createSet0 initval id →
      0 ≤ initval ∧ initval ≤ SEMVMX) :
    (∃ pr, Effect b b' p pr ∧ ∀ id, (b.proc p).pc = .createEnd id → 0 < pr.opens id) ∨
      ∃ id, (b.proc p).pc = .closeRm id ∧ b' = (b.semRm id).goTo p .outside := by
  have hexpected := hk.expected p
  have hlock := hk.locked p
  have hready := hk.ready p
  have hsome := fun i hi => ne_none_iff_exists'.mp (hlock i hi)
  cases hpc : (b.proc p).pc with
    (rw [hpc] at hexpected hlock hready hsome; simp only [State.go, hpc] at hst)
  | outside | exited => cases hst
  | openGet | openOp | opOp => cases hexpected
  | closeRm id =>
    obtain ⟨set, hset⟩ := hsome id rfl
    simp only [hset, some.injEq] at hst
    exact .inr ⟨id, rfl, hst.symm⟩
  | createGet key initval =>
    split at hst
    · obtain rfl := some.inj hst
      exact .inl ⟨_, hk.goTo_self rfl vacuous vacuous, by simp⟩
    · obtain rfl := some.inj hst
      refine .inl ⟨_, hk.goTo rfl (fun i hi => ?_) (fun _ hi => hi) rfl vacuous vacuous, by simp⟩
      by_cases heq : i = b.next
      · simp [State.newSet, heq]
      · simpa [State.newSet, update_of_ne heq] using hi
  | createLock key initval id =>
    cases hset : b.sets id with
    | none =>
      rw [State.semop, hset] at hst
      obtain rfl := some.inj hst
      exact .inl ⟨_, hk.goTo_self rfl vacuous vacuous, by simp⟩
    | some set =>
      obtain ⟨set', rfl⟩ := semop_done h hset rfl hst
      refine .inl ⟨_, hk.goTo_put set' rfl (fun i hi => ?_) vacuous, by simp⟩
      obtain rfl := some.inj hi
      simp [hset]
  | createGetval initval id =>
    obtain ⟨set, hset⟩ := hsome id rfl
    simp only [hset] at hst
    split at hst
    · obtain rfl := some.inj hst
      exact .inl ⟨_, hk.goTo_self rfl hlock vacuous, by simp⟩
    · rename_i hne
      obtain rfl := some.inj hst
      refine .inl ⟨_, hk.goTo_self rfl hlock fun i hi => ?_, by simp⟩
      obtain rfl := some.inj hi
      exact initialised_of_val h hset hne
  | createSet0 initval id =>
    obtain ⟨set, hset⟩ := hsome id rfl
    obtain ⟨hnonneg, hle⟩ := hval initval id hpc
    simp only [hset, if_neg (not_or.mpr ⟨not_lt.mpr hnonneg, not_lt.mpr hle⟩), some.injEq] at hst
    subst hst
    exact .inl ⟨_, hk.goTo_put _ rfl hlock vacuous, by simp⟩
  | createSet1 id =>
    obtain ⟨set, hset⟩ := hsome id rfl
    simp only [hset, some.injEq] at hst
    have he : Effect b (({ b.put id (set.setval 1 BIGCOUNT) with
        initialised := update b.initialised id true } : State ι).goTo p (.createEnd id)) p
        { b.proc p with pc := .createEnd id } := by
      refine hk.goTo rfl (put_ne_none _) (fun i hi => ?_) rfl
        (fun i hi => put_ne_none _ i (hlock i hi)) fun i hi => ?_
      · by_cases heq : i = id
        · simp [heq]
        · simpa [update_of_ne heq] using hi
      · obtain rfl := some.inj hi
        simp
    subst hst
    exact .inl ⟨_, he, by simp⟩
  | createEnd id =>
    obtain ⟨set, hset⟩ := hsome id rfl
    obtain ⟨set', rfl⟩ := semop_done h hset rfl hst
    refine .inl ⟨_, hk.goTo_setOpens (hlock id rfl) rfl vacuous vacuous, fun i hi => ?_⟩
    obtain rfl := Pc.createEnd.inj hi
    simp
  | closeOp id =>
    have hopens := h.closing p id hpc
    obtain ⟨set, hset⟩ := ne_none_iff_exists'.mp (hk.opened p id hopens)
    obtain ⟨set', rfl⟩ := semop_done h hset rfl hst
    refine .inl ⟨_, hk.goTo_setOpens (hk.opened p id hopens) rfl (fun i hi => (some.inj hi).symm)
      fun i hi => ?_, by simp⟩
    obtain rfl := some.inj hi
    exact initialised_of_opens h hk hopens
  | closeGetval id =>
    obtain ⟨set, hset⟩ := hsome id rfl
    simp only [hset, if_neg (not_lt.mpr (val_le_BIGCOUNT h hset))] at hst
    split at hst <;> obtain rfl := some.inj hst <;>
      exact .inl ⟨_, hk.goTo_self rfl hlock hready, by simp⟩
  | closeUnlock id =>
    obtain ⟨set, hset⟩ := hsome id rfl
    obtain ⟨set', rfl⟩ := semop_done h hset rfl hst
    exact .inl ⟨_, hk.goTo_put set' rfl vacuous vacuous, by simp⟩

omit [DecidableEq ι] in
lemma closeRm_spec (hpc : (b.proc p).pc = .closeRm id) (hid : b.sets id ≠ none) :
    (∀ q, (b.proc q).opens id = 0) ∧ ∀ q, (b.proc q).pc.lockOf = some id → q = p := by
  obtain ⟨set, hset⟩ := ne_none_iff_exists'.mp hid
  have hok := h.sets id set hset
  have hremoving : ((b.proc p).part id).removing = true := by simp [Proc.part, hpc, Pc.removingOf]
  obtain ⟨hlocked, hopens⟩ := hok.removing trivial p hremoving
  refine ⟨hopens, fun q hq => hok.eq_of_locked ?_ hlocked⟩
  simp [Proc.part, hq]

lemma Kept.semRm (hk : Kept b) (hpc : (b.proc p).pc = .closeRm id) :
    Kept ((b.semRm id).goTo p .outside) := by
  have hid : b.sets id ≠ none := hk.locked p id (by rw [hpc]; rfl)
  obtain ⟨hopens, hlocked⟩ := closeRm_spec h hpc hid
  set b' := (b.semRm id).goTo p .outside with hb'
  have hproc : b'.proc = update b.proc p { b.proc p with pc := .outside } := rfl
  have hsets : ∀ i, i ≠ id → b.sets i ≠ none → b'.sets i ≠ none := by
    intro i hi hne
    simpa [hb', State.goTo, State.semRm, update_of_ne hi] using hne
  have hopened : ∀ q i, 0 < (b.proc q).opens i → b'.sets i ≠ none := by
    intro q i hi
    refine hsets i ?_ (hk.opened q i hi)
    rintro rfl
    rw [hopens q] at hi
    exact absurd hi (lt_irrefl 0)
  constructor
  · exact forall_proc (Q := fun x => x.pc.expected = true) hproc rfl fun q _ => hk.expected q
  · exact forall_proc (Q := fun x => ∀ i, 0 < x.opens i → b'.sets i ≠ none) hproc (hopened p)
      fun q _ => hopened q
  · refine forall_proc (Q := fun x => ∀ i, x.pc.lockOf = some i → b'.sets i ≠ none) hproc vacuous
      fun q hq i hi => hsets i ?_ (hk.locked q i hi)
    rintro rfl
    exact hq (hlocked q hi)
  · exact forall_proc (Q := fun x => ∀ i, x.pc.readyOf = some i → b'.initialised i = true) hproc
      vacuous fun q _ => hk.ready q

end

end Moves

/-! ## Steps -/

structure Inv [Fintype ι] (s : Sys ι) : Prop where
  running : Running True s.base
  kept : Kept s.base
  asleep : ∀ p, s.asleep p = true → ∃ id, (s.base.proc p).pc.semopOf = some id ∧
    s.base.sets id ≠ none
  returned : ∀ p id, s.returned = some (p, id) →
    s.base.sets id ≠ none ∧ 0 < (s.base.proc p).opens id

section Steps

variable [Fintype ι] {s s' : Sys ι} {p : ι} {key : Key}

omit [DecidableEq ι] in
lemma Inv.not_eidrm (h : Inv s) (p : ι) : ¬ s.Eidrm p := by
  rintro ⟨hasleep, id, hid, hnone⟩
  obtain ⟨id', hid', hsets⟩ := h.asleep p hasleep
  obtain rfl := some.inj (hid.symm.trans hid')
  exact hsets (isNone_iff_eq_none.mp hnone)

omit [DecidableEq ι] in
lemma Inv.good (h : Inv s) : Good s := by
  refine ⟨fun p hp => ?_, h.not_eidrm, h.returned⟩
  have hexpected := h.kept.expected p
  rw [hp] at hexpected
  cases hexpected

omit [DecidableEq ι] in
lemma inv_start : Inv (start ι) := by
  refine ⟨running_start True, ⟨fun _ => rfl, ?_, ?_, ?_⟩, ?_, ?_⟩
  · intro p id hid
    exact absurd hid (lt_irrefl 0)
  · intro p id hid
    cases hid
  · intro p id hid
    cases hid
  · intro p hp
    cases hp
  · intro p id hid
    cases hid

lemma Inv.enter (h : Inv s) {pc : Pc} (hpc : (s.base.proc p).pc = .outside)
    (hrunning : Running True (s.base.goTo p pc)) (hexpected : pc.expected = true)
    (hlock : pc.lockOf = none) (hready : pc.readyOf = none) :
    Inv ⟨s.base.goTo p pc, s.asleep, none⟩ := by
  refine ⟨hrunning, (h.kept.goTo_self hexpected ?_ ?_).kept h.kept, fun q hq => ?_, by simp⟩
  · simp [hlock]
  · simp [hready]
  · obtain ⟨id, hid, hsets⟩ := h.asleep q hq
    have hne : q ≠ p := by
      rintro rfl
      rw [hpc] at hid
      cases hid
    exact ⟨id, by simpa [State.goTo, update_of_ne hne] using hid, hsets⟩

variable {id : ℕ} {b : State ι}

omit [DecidableEq ι] [Fintype ι] in
lemma createEnd_of_returned {b' : State ι} {q : ι} (h : Creation.returned b b' p = some (q, id)) :
    q = p ∧ (b.proc p).pc = .createEnd id := by
  unfold Creation.returned at h
  split at h
  · rename_i hpc
    obtain ⟨-, h⟩ := ite_none_right_eq_some.mp h
    obtain ⟨rfl, rfl⟩ := Prod.mk.inj (some.inj h)
    exact ⟨rfl, hpc⟩
  · cases h

omit [DecidableEq ι] in
/-- Nobody but `sem_create` can be asleep on a set that is about to be removed: a process that
closes the set has it open, and the others have its lock. -/
lemma not_asleep_of_closeRm (h : Inv s) {q : ι} (hpc : (s.base.proc p).pc = .closeRm id)
    (hqp : q ≠ p) (hasleep : s.asleep q = true)
    (hcreate : ∀ q, s.asleep q = true → ∀ key initval, (s.base.proc q).pc ≠ .createLock key initval
      id) : (s.base.proc q).pc.semopOf ≠ some id := by
  intro hid
  obtain ⟨hopens, hlocked⟩ := closeRm_spec h.running hpc (h.kept.locked p id (by rw [hpc]; rfl))
  cases hq : (s.base.proc q).pc with
  | createLock key initval i =>
    rw [hq] at hid
    obtain rfl := some.inj hid
    exact hcreate q hasleep key initval hq
  | closeOp i =>
    rw [hq] at hid
    obtain rfl := some.inj hid
    have hpos := h.running.closing q i hq
    rw [hopens q] at hpos
    exact absurd hpos (lt_irrefl 0)
  | createEnd i | closeUnlock i =>
    rw [hq] at hid
    exact hqp (hlocked q (by rw [hq]; exact hid))
  | _ =>
    rw [hq] at hid
    cases hid

lemma Inv.call (h : Inv s) {a : Action ι} {pc : Pc} (hst : Semaph.step s.base a = some b)
    (hgo : ∀ q, a ≠ .go q) (hb : b = s.base.goTo p pc) (hpc : (s.base.proc p).pc = .outside)
    (hexpected : pc.expected = true) (hlock : pc.lockOf = none) (hready : pc.readyOf = none) :
    Inv ⟨b, s.asleep, none⟩ := by
  have hrunning := h.running.step hst (fun q _ id ha => absurd ha (hgo q))
    fun _ q id ha => absurd ha (hgo q)
  subst hb
  exact h.enter hpc hrunning hexpected hlock hready

lemma Inv.go (h : Inv s) (hfew : FewOpens s.base) (hst : s.base.go p = some b)
    (hin : InTime s (.go p)) :
    Inv ⟨b, update s.asleep p false, Creation.returned s.base b p⟩ := by
  have hrunning : Running True b := by
    refine h.running.go hst (fun initval id _ => h.running.sum_opens_lt hfew id) fun _ id hpc => ?_
    have hexpected := h.kept.expected p
    rw [hpc] at hexpected
    cases hexpected
  have hawake : ∀ q, update s.asleep p false q = true → q ≠ p ∧ s.asleep q = true := by
    intro q hq
    by_cases hqp : q = p
    · subst hqp
      simp at hq
    · exact ⟨hqp, by rwa [update_of_ne hqp] at hq⟩
  rcases go_effect h.running h.kept hst hin.2 with ⟨pr, he, hreturned⟩ | ⟨id, hpc, rfl⟩
  · refine ⟨hrunning, he.kept h.kept, fun q hq => ?_, fun q id hid => ?_⟩
    · obtain ⟨hqp, hasleep⟩ := hawake q hq
      obtain ⟨id, hid, hsets⟩ := h.asleep q hasleep
      refine ⟨id, ?_, he.sets id hsets⟩
      rw [he.proc, update_of_ne hqp]
      exact hid
    · obtain ⟨rfl, hpc⟩ := createEnd_of_returned hid
      have hopens : 0 < (b.proc q).opens id := by
        rw [he.proc, update_self]
        exact hreturned id hpc
      exact ⟨(he.kept h.kept).opened q id hopens, hopens⟩
  · have hid := h.kept.locked p id (by rw [hpc]; rfl)
    refine ⟨hrunning, h.kept.semRm h.running hpc, fun q hq => ?_, fun q i hi => ?_⟩
    · obtain ⟨hqp, hasleep⟩ := hawake q hq
      obtain ⟨i, hi, hsets⟩ := h.asleep q hasleep
      have hproc : ((s.base.semRm id).goTo p .outside).proc q = s.base.proc q := by
        simp [State.goTo, State.semRm, update_of_ne hqp]
      refine ⟨i, by rw [hproc]; exact hi, ?_⟩
      have hne : i ≠ id := by
        rintro rfl
        exact not_asleep_of_closeRm h hpc hqp hasleep (hin.1 i hpc) hi
      simpa [State.goTo, State.semRm, update_of_ne hne] using hsets
    · obtain ⟨-, hpc'⟩ := createEnd_of_returned hi
      rw [hpc] at hpc'
      cases hpc'

omit [Fintype ι] in
lemma sets_of_go_eq_none (hid : (b.proc p).pc.semopOf = some id) (hgo : b.go p = none) :
    b.sets id ≠ none := by
  intro hset
  cases hpc : (b.proc p).pc with
  | createLock | createEnd | closeOp | closeUnlock =>
    rw [hpc] at hid
    obtain rfl := some.inj hid
    simp [State.go, hpc, State.semop, hset] at hgo
  | _ =>
    rw [hpc] at hid
    cases hid

lemma Inv.sleep (h : Inv s) (hsemop : (s.base.proc p).pc.semopOf.isSome = true)
    (hgo : s.base.go p = none) :
    Inv { s with asleep := update s.asleep p true, returned := none } := by
  refine ⟨h.running, h.kept, fun q hq => ?_, by simp⟩
  by_cases hqp : q = p
  · subst hqp
    obtain ⟨id, hid⟩ := isSome_iff_exists.mp hsemop
    exact ⟨id, hid, sets_of_go_eq_none hid hgo⟩
  · exact h.asleep q ((update_of_ne hqp ..).symm.trans hq)

lemma Inv.step (h : Inv s) (hfew : FewOpens s.base) {c : Call ι} (hst : step key s c = some s')
    (hin : InTime s c) : Inv s' := by
  cases c with
  | semCreate p initval =>
    obtain ⟨b, hb, rfl⟩ := map_eq_some_iff.mp hst
    obtain ⟨hpc, hb'⟩ := ite_none_left_eq_some.mp hb
    rw [if_neg (not_or.mpr key.property)] at hb'
    exact h.call hb (by simp) (some.inj hb').symm (not_not.mp hpc) rfl rfl rfl
  | semClose p id =>
    obtain ⟨b, hb, rfl⟩ := map_eq_some_iff.mp hst
    obtain ⟨⟨hpc, -⟩, hb'⟩ := ite_none_right_eq_some.mp hb
    exact h.call hb (by simp) (some.inj hb').symm hpc rfl rfl rfl
  | go p =>
    rw [Creation.step, if_neg (h.not_eidrm p)] at hst
    obtain ⟨b, hb, rfl⟩ := map_eq_some_iff.mp hst
    exact h.go hfew hb hin
  | sleep p =>
    obtain ⟨⟨hsemop, hgo⟩, hst⟩ := ite_none_right_eq_some.mp hst
    obtain rfl := some.inj hst
    exact h.sleep hsemop (isNone_iff_eq_none.mp hgo)

lemma Inv.not_good (h : Inv s) {c : Call ι} (hst : Creation.step key s c = some s')
    (hin : ¬ InTime s c) : ¬ Good s' := by
  cases c with
  | semCreate | semClose | sleep => exact absurd trivial hin
  | go p =>
    rw [Creation.step, if_neg (h.not_eidrm p)] at hst
    obtain ⟨b, hb, rfl⟩ := map_eq_some_iff.mp hst
    intro hgood
    apply hin
    constructor
    · intro id hpc q hasleep key' initval hq
      -- the process that is asleep gets `EIDRM`
      obtain ⟨set, hset⟩ := ne_none_iff_exists'.mp (h.kept.locked p id (by rw [hpc]; rfl))
      obtain rfl : (s.base.semRm id).goTo p .outside = b := by
        simpa [State.go, hpc, hset] using hb
      have hqp : q ≠ p := by
        rintro rfl
        rw [hpc] at hq
        cases hq
      have hproc : ((s.base.semRm id).goTo p .outside).proc q = s.base.proc q := by
        simp [State.goTo, State.semRm, update_of_ne hqp]
      refine hgood.eidrm q ⟨?_, id, ?_, ?_⟩
      · exact (update_of_ne hqp ..).trans hasleep
      · rw [hproc, hq]
        exact rfl
      · simp [State.goTo, State.semRm]
    · intro initval id hpc
      by_contra hrange
      obtain ⟨set, hset⟩ := ne_none_iff_exists'.mp (h.kept.locked p id (by rw [hpc]; rfl))
      have hout : initval < 0 ∨ SEMVMX < initval := by omega
      obtain rfl : s.base.exit p = b := by
        simpa [State.go, hpc, hset, hout] using hb
      exact hgood.alive p (by simp [State.exit])

/-! ## Progress -/

omit [Fintype ι] in
lemma exists_semop {set : SemSet ι} (hset : b.sets id = some set) {ops : List Sembuf}
    (hdone : ∃ set', set.semop p ops = .done set') (gone : State ι) (k : State ι → State ι) :
    ∃ b', b.semop p id ops gone k = some b' := by
  obtain ⟨set', hset'⟩ := hdone
  exact ⟨k (b.put id set'), by simp only [State.semop, hset, hset']⟩

lemma Inv.go_of_locked (h : Inv s) (hfew : FewOpens s.base)
    (hlock : (s.base.proc p).pc.lockOf = some id) : ∃ b, s.base.go p = some b := by
  obtain ⟨set, hset⟩ := ne_none_iff_exists'.mp (h.kept.locked p id hlock)
  have hok := h.running.sets id set hset
  have htwo : set.val 2 = 1 :=
    hok.val_two_eq_one_iff.mpr ⟨p, by simp [Proc.part, hlock]⟩
  have hready := h.kept.ready p
  have hsum : ∑ q, (((s.base.proc q).part id).opens : ℤ) < BIGCOUNT :=
    mod_cast h.running.sum_opens_lt hfew id
  cases hpc : (s.base.proc p).pc <;> rw [hpc] at hlock <;> simp only [Pc.lockOf] at hlock
  case outside | createGet | createLock | openGet | openOp | closeOp | opOp | exited =>
    cases hlock
  all_goals
    obtain rfl := some.inj hlock
    simp only [State.go, hpc]
  case createGetval =>
    rw [hset]
    simp only
    split <;> exact ⟨_, rfl⟩
  case createSet0 =>
    rw [hset]
    simp only
    split <;> exact ⟨_, rfl⟩
  case createSet1 | closeRm =>
    rw [hset]
    exact ⟨_, rfl⟩
  case closeGetval =>
    rw [hset]
    simp only
    split
    · exact ⟨_, rfl⟩
    · split <;> exact ⟨_, rfl⟩
  case createEnd =>
    -- the counter is not 0, because there are not too many opens
    rw [hpc] at hready
    have hcounter := hok.val_one
    rw [hready _ rfl, if_pos rfl] at hcounter
    obtain ⟨n, hn⟩ : ∃ n, set.val 1 = n + 1 := ⟨set.val 1 - 1, by omega⟩
    have hnonneg : ¬ (n : ℤ) < 0 := by omega
    apply exists_semop hset
    simp [semop, hok.nsems, opEndcreate, performAll, perform, hn, htwo,
      hnonneg]
  case closeUnlock =>
    apply exists_semop hset
    simp [semop, hok.nsems, opUnlock, performAll, perform, htwo]

lemma Inv.go_of_semop (h : Inv s) (hfew : FewOpens s.base) {set : SemSet ι}
    (hset : s.base.sets id = some set) (hgo : set.val 2 = 0 → ∃ b, s.base.go p = some b) :
    ∃ q b, s.base.go q = some b := by
  have hok := h.running.sets id set hset
  by_cases htwo : set.val 2 = 0
  · exact ⟨p, hgo htwo⟩
  · have hone : set.val 2 = 1 := by
      have hle := hok.exclusive
      omega
    obtain ⟨q, hq⟩ := hok.val_two_eq_one_iff.mp hone
    exact ⟨q, h.go_of_locked hfew (of_decide_eq_true hq)⟩

lemma Inv.progress (h : Inv s) (hfew : FewOpens s.base) (hp : (s.base.proc p).pc ≠ .outside) :
    ∃ q s', Creation.step key s (.go q) = some s' := by
  suffices hgo : ∃ q b, s.base.go q = some b by
    obtain ⟨q, b, hb⟩ := hgo
    refine ⟨q, ⟨b, update s.asleep q false, Creation.returned s.base b q⟩, ?_⟩
    simp only [Creation.step, if_neg (h.not_eidrm q), hb, map_some]
  have hexpected := h.kept.expected p
  cases hlock : (s.base.proc p).pc.lockOf with
  | some id => exact ⟨p, h.go_of_locked hfew hlock⟩
  | none =>
    cases hpc : (s.base.proc p).pc with
    | outside => exact absurd hpc hp
    | createGet key initval =>
      refine ⟨p, ?_⟩
      simp only [State.go, hpc]
      split <;> exact ⟨_, rfl⟩
    | createLock key initval id =>
      cases hset : s.base.sets id with
      | none => exact ⟨p, _, by simp only [State.go, hpc, State.semop, hset]; rfl⟩
      | some set =>
        refine h.go_of_semop (p := p) hfew hset fun htwo => ?_
        simp only [State.go, hpc]
        apply exists_semop hset
        have hok := h.running.sets id set hset
        simp [semop, hok.nsems, opLock, performAll, perform, htwo]
    | closeOp id =>
      obtain ⟨set, hset⟩ := ne_none_iff_exists'.mp
        (h.kept.opened p id (h.running.closing p id hpc))
      refine h.go_of_semop (p := p) hfew hset fun htwo => ?_
      simp only [State.go, hpc]
      apply exists_semop hset
      have hok := h.running.sets id set hset
      have hone : ¬ (set.val 1 : ℤ) + 1 < 0 := by omega
      simp [semop, hok.nsems, opClose, performAll, perform, htwo, hone]
    | openGet | openOp | opOp | exited =>
      rw [hpc] at hexpected
      cases hexpected
    | _ =>
      rw [hpc] at hlock
      cases hlock

end Steps

/-! ## Runs -/

variable [Fintype ι]

/-- Throughout a run with at most 9999 opens of a set no process is ended in its call, and every
`sem_create` returns a set that exists and that the caller has open, if and only if no set is
removed while a process is asleep on it in `sem_create` and every initial value is from 0 to
`SEMVMX`.  Some process can then always go on.  And a process whose set is removed while it is
asleep is ended when it wakes up. -/
theorem semCreate_iff (key : Key) (cs : List (Call ι)) (s : Sys ι) :
    (Throughout (countedStep key) Good (start ι) cs s ↔
        RunWhen (step key) (fun s c => FewOpens s.base ∧ InTime s c) (start ι) cs s) ∧
      (RunWhen (step key) (fun s c => FewOpens s.base ∧ InTime s c) (start ι) cs s →
        FewOpens s.base → ∀ p, (s.base.proc p).pc ≠ .outside →
          ∃ q s', step key s (.go q) = some s') ∧
      ∀ p, s.Eidrm p → ∃ s', step key s (.go p) = some s' ∧ (s'.base.proc p).pc = .exited := by
  refine ⟨?_, fun hrun hfew p hp => ?_, fun p hp => ?_⟩
  · have hcounted : ∀ {s : Sys ι} {c : Call ι} {s' : Sys ι}, countedStep key s c = some s' →
        FewOpens s.base ∧ step key s c = some s' := fun hst =>
      (ite_none_right_eq_some.mp hst).imp_left of_decide_eq_true
    refine (throughout_iff (C := InTime) inv_start ?_ ?_ ?_).trans (runWhen_guarded_iff.trans ?_)
    · exact fun s h => h.good
    · exact fun s c s' h hst hin => h.step (hcounted hst).1 (hcounted hst).2 hin
    · exact fun s c s' h hst hin => h.not_good (hcounted hst).2 hin
    · simp only [decide_eq_true_eq]
  · have h := hrun.invariant inv_start fun s c s' h hst hin => h.step hin.1 hst hin.2
    exact h.progress hfew hp
  · refine ⟨⟨s.base.exit p, update s.asleep p false, none⟩, ?_, ?_⟩
    · rw [step, if_pos hp]
    · simp [State.exit]

def keyOne : Key := ⟨1, one_ne_zero, by decide⟩

def closing (p q : Fin 2) : List (Call (Fin 2)) :=
  [.semCreate p 5, .go p, .go p, .go p, .go p, .go p, .go p, .semCreate q 5, .go q,
    .semClose p 0, .go p, .sleep q, .go p]

/-- The set is removed, and the process 1 is ended. -/
theorem semCreate_ended : ∃ s : Sys (Fin 2),
    RunFrom (step keyOne) (start (Fin 2)) (closing 0 1 ++ [.go 0, .go 1]) s ∧
      (s.base.proc 1).pc = .exited :=
  exists_runFrom _ _ _ _ (by decide +kernel)

end Creation

end UnixPrograms.Semaph
