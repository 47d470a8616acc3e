import UnixPrograms.Semaph.Counts
import Mathlib.Algebra.BigOperators.Fin

/-!
# Runs of the semaphore interface

The counter `[1]` is right in every run with fewer than `BIGCOUNT` opens (`counters_of_fewOpens`).
`sem_open` does not take the lock and may come between the two system calls of `sem_close`, which
then removes an open set (`semClose_removes_opened`, `semClose_keeps_opened`).
-/

namespace UnixPrograms.Semaph

open Function Option

variable {ι : Type} [Fintype ι]

/-- What holds in every state of a run. -/
structure Running (safe : Prop) (s : State ι) : Prop where
  sets : ∀ id set, s.sets id = some set →
    SetOk safe set (s.initialised id) fun p => (s.proc p).part id
  keys : ∀ key id, s.ids key = some id → id < s.next
  fresh : ∀ id, s.next ≤ id →
    s.sets id = none ∧ s.initialised id = false ∧ ∀ p, (s.proc p).part id = Part.none
  closing : ∀ p id, (s.proc p).pc = .closeOp id → 0 < (s.proc p).opens id

lemma running_start (safe : Prop) : Running safe (start ι) where
  sets _ _ h := by cases h
  keys _ _ h := by cases h
  fresh _ _ := ⟨rfl, rfl, fun _ => rfl⟩
  closing _ _ h := by cases h

namespace Running

variable [DecidableEq ι] {safe : Prop} {s s' : State ι} {p : ι} {id : ℕ} {set set' : SemSet ι}
  {initval : ℤ}

omit [DecidableEq ι] in
lemma lt_next (h : Running safe s) (hset : s.sets id = some set) : id < s.next := by
  by_contra hge
  rw [(h.fresh id (Nat.le_of_not_lt hge)).1] at hset
  cases hset

omit [Fintype ι] in
lemma part_update (proc : ι → Proc) (p : ι) (pr : Proc) (id : ℕ) :
    (fun q => (update proc p pr q).part id) =
      update (fun q => (proc q).part id) p (pr.part id) :=
  comp_update (Proc.part · id) proc p pr

lemma locked_part {pr : Proc} {b : Bool} (hpr : pr.pc.lockOf = bif b then some id else none) :
    (pr.part id).locked = b := by
  cases b <;> simp [Proc.part, hpr]

/-- Only the set that a process has locked is affected by where the process is. -/
lemma part_congr {pr pr' : Proc} {b c : Bool} {i : ℕ}
    (hold : pr.pc.lockOf = bif b then some id else none)
    (hnew : pr'.pc.lockOf = bif c then some id else none) (hi : i ≠ id)
    (hopens : pr'.opens i = pr.opens i) : pr'.part i = pr.part i := by
  have hpart : ∀ {pr : Proc} {b : Bool}, pr.pc.lockOf = (bif b then some id else none) →
      pr.part i = ⟨pr.opens i, false, false, false⟩ := by
    intro pr b hpr
    have hlock : pr.pc.lockOf ≠ some i := by cases b <;> simp [hpr, Ne.symm hi]
    have hsetting := mt Pc.lockOf_of_settingOf hlock
    have hremoving := mt Pc.lockOf_of_removingOf hlock
    simp [Proc.part, hlock, hsetting, hremoving]
  rw [hpart hold, hpart hnew, hopens]

section

variable (h : Running safe s)
include h

lemma closing_update {pr : Proc} (hpr : ∀ i, pr.pc = .closeOp i → 0 < pr.opens i) :
    ∀ q i, (update s.proc p pr q).pc = .closeOp i → 0 < (update s.proc p pr q).opens i :=
  (forall_update_iff s.proc fun _ pr => ∀ i, pr.pc = .closeOp i → 0 < pr.opens i).mpr
    ⟨hpr, fun q _ => h.closing q⟩

lemma goOn {pr : Proc} {b c : Bool} (hid : id < s.next)
    (hold : (s.proc p).pc.lockOf = bif b then some id else none)
    (hnew : pr.pc.lockOf = bif c then some id else none) (hnext : s'.next = s.next)
    (hids : ∀ key i, s'.ids key = some i → i < s.next)
    (hproc : s'.proc = update s.proc p pr)
    (hothers : ∀ i, i ≠ id → s'.sets i = s.sets i ∧ s'.initialised i = s.initialised i ∧
      pr.opens i = (s.proc p).opens i)
    (hset : ∀ set, s'.sets id = some set → SetOk safe set (s'.initialised id)
      (update (fun q => (s.proc q).part id) p (pr.part id)))
    (hclosing : ∀ i, pr.pc = .closeOp i → 0 < pr.opens i) : Running safe s' where
  sets i set hi := by
    rw [hproc, part_update]
    by_cases hne : i = id
    · subst hne
      exact hset set hi
    · obtain ⟨hsets, hinit, hopens⟩ := hothers i hne
      rw [hinit, part_congr hold hnew hne hopens, update_eq_self]
      exact h.sets i set (hsets.symm.trans hi)
  keys key i hi := hnext ▸ hids key i hi
  fresh i hi := by
    rw [hnext] at hi
    have hne : i ≠ id := by omega
    obtain ⟨hsets, hinit, hopens⟩ := hothers i hne
    obtain ⟨hnone, hfalse, hparts⟩ := h.fresh i hi
    refine ⟨hsets.trans hnone, hinit.trans hfalse, fun q => ?_⟩
    have hq := congrFun (part_update s.proc p pr i) q
    rw [part_congr hold hnew hne hopens, update_eq_self] at hq
    rw [hproc]
    exact hq.trans (hparts q)
  closing := hproc ▸ h.closing_update hclosing

lemma goTo {pc : Pc} (hlock : (s.proc p).pc.lockOf = none) (hlock' : pc.lockOf = none)
    (hclosing : ∀ i, pc = .closeOp i → 0 < (s.proc p).opens i) : Running safe (s.goTo p pc) := by
  have hpart : ∀ i, ({ s.proc p with pc := pc } : Proc).part i = (s.proc p).part i := by
    intro i
    simp only [Proc.part, hlock, hlock', Pc.of_lockOf_eq_none hlock, Pc.of_lockOf_eq_none hlock']
  have hparts : ∀ i q, ((s.goTo p pc).proc q).part i = (s.proc q).part i := by
    intro i q
    have hq := congrFun (part_update s.proc p { s.proc p with pc := pc } i) q
    rwa [hpart, update_eq_self] at hq
  refine ⟨fun i set hi => ?_, h.keys, fun i hi => ?_, h.closing_update hclosing⟩
  · rw [funext (hparts i)]
    exact h.sets i set hi
  · obtain ⟨hnone, hfalse, hall⟩ := h.fresh i hi
    exact ⟨hnone, hfalse, fun q => (hparts i q).trans (hall q)⟩

lemma exit (p : ι) : Running safe (s.exit p) := by
  have hparts : ∀ i, (fun q => ((s.exit p).proc q).part i) =
      update (fun q => (s.proc q).part i) p Part.none := fun i =>
    part_update s.proc p ⟨.exited, fun _ => 0⟩ i
  refine ⟨fun i set hi => ?_, h.keys, fun i hi => ?_, h.closing_update nofun⟩
  · obtain ⟨set₀, hset₀, rfl⟩ := map_eq_some_iff.mp hi
    rw [hparts]
    exact (h.sets i set₀ hset₀).exit p
  · obtain ⟨hnone, hfalse, hall⟩ := h.fresh i hi
    refine ⟨by simp [State.exit, hnone], hfalse, fun q => ?_⟩
    rw [congrFun (hparts i) q]
    by_cases hqp : q = p
    · rw [hqp, update_self]
    · rw [update_of_ne hqp, hall q]

omit [DecidableEq ι] in
lemma newSet (key : ℤ) : Running safe (s.newSet key) := by
  obtain ⟨-, hfalse, hparts⟩ := h.fresh s.next le_rfl
  refine ⟨fun i set hi => ?_, fun k i hi => ?_, fun i hi => ?_, h.closing⟩
  · by_cases hnext : i = s.next
    · subst hnext
      simp only [State.newSet, update_self, some.injEq] at hi ⊢
      rw [hfalse, funext hparts, ← hi]
      exact SetOk.new
    · simp only [State.newSet, update_of_ne hnext] at hi
      exact h.sets i set hi
  · simp only [State.newSet] at hi ⊢
    by_cases hk : k = key
    · subst hk
      simp only [update_self, some.injEq] at hi
      omega
    · rw [update_of_ne hk] at hi
      exact (h.keys k i hi).trans (Nat.lt_succ_self _)
  · simp only [State.newSet] at hi ⊢
    rw [update_of_ne (by omega)]
    exact h.fresh i (by omega)

omit [DecidableEq ι] in
lemma sum_opens_lt (hfew : FewOpens s) (id : ℕ) : ∑ q, (s.proc q).opens id < BIGCOUNT := by
  by_cases hid : id < s.next
  · exact (hfew id hid).trans_lt (by decide)
  · -- a set that does not exist yet is not open
    have hzero : ∀ q, (s.proc q).opens id = 0 := fun q =>
      congrArg Part.opens ((h.fresh id (Nat.le_of_not_lt hid)).2.2 q)
    rw [Finset.sum_eq_zero fun q _ => hzero q]
    decide

lemma semop {ops : List Sembuf} {gone : State ι} {k : State ι → State ι}
    (hst : s.semop p id ops gone k = some s') (hgone : Running safe gone)
    (hdone : ∀ set set', s.sets id = some set → set.semop p ops = .done set' →
      Running safe (k (s.put id set'))) : Running safe s' := by
  rw [State.semop] at hst
  cases hset : s.sets id with
  | none =>
    rw [hset] at hst
    exact some.inj hst ▸ hgone
  | some set =>
    rw [hset] at hst
    cases hop : set.semop p ops with
    | done set' =>
      simp only [hop, some.injEq] at hst
      exact hst ▸ hdone set set' hset hop
    | blocks =>
      simp only [hop] at hst
      cases hst
    | efbig =>
      simp only [hop, some.injEq] at hst
      exact hst ▸ h.exit p

lemma move {ops : List Sembuf} {pr : Proc} {b c : Bool} (hset : s.sets id = some set)
    (hop : set.semop p ops = .done set') (h1 : change ops 1 = undone ops 1)
    (h2 : change ops 2 = undone ops 2)
    (hold : (s.proc p).pc.lockOf = bif b then some id else none)
    (hnew : pr.pc.lockOf = bif c then some id else none) (hd : change ops 2 = c.toNat - b.toNat)
    (hexcl : change ops 2 ≤ 0 ∨ set.val 2 = 0)
    (hothers : ∀ i, i ≠ id → pr.opens i = (s.proc p).opens i)
    (hopens : (pr.opens id : ℤ) = (s.proc p).opens id - change ops 1)
    (hsetting : pr.pc.settingOf = none) (hremoving : pr.pc.removingOf = none)
    (hsafe : safe → pr.opens id ≤ (s.proc p).opens id ∨ ∀ q, q ≠ p → ((s.proc q).part id).removing
      = false) (hclosing : ∀ i, pr.pc ≠ .closeOp i) :
    Running safe { s.put id set' with proc := update s.proc p pr } := by
  have hok := h.sets id set hset
  have hc := SemSet.changed_semop hop
  have hone : set'.val 2 ≤ 1 := by
    have hval := hc.val 2
    have hle := hok.exclusive
    have hb := c.toNat_le
    omega
  refine h.goOn (h.lt_next hset) hold hnew rfl h.keys rfl (fun i hi => ?_) (fun set₁ hset₁ => ?_)
    fun i hi => absurd hi (hclosing i)
  · exact ⟨update_of_ne hi .., rfl, hothers i hi⟩
  · simp only [State.put, update_self, some.injEq] at hset₁
    subst hset₁
    refine hok.move hc h1 h2 hopens ?_ hone ?_ ?_ hsafe
    · rw [locked_part hold, locked_part hnew, hd]
      omega
    · intro hx
      simp [Proc.part, hsetting] at hx
    · intro _ hx
      simp [Proc.part, hremoving] at hx

end

omit [Fintype ι] in
lemma goTo_setOpens (s : State ι) (p : ι) (id n : ℕ) (pc : Pc) :
    (s.setOpens p id n).goTo p pc =
      { s with proc := update s.proc p ⟨pc, update (s.proc p).opens id n⟩ } := by
  simp [State.setOpens, State.goTo]

section

variable (h : Running safe s)
include h

section

variable (hset : s.sets id = some set)
include hset

lemma lock {key : ℤ} (hpc : (s.proc p).pc = .createLock key initval id)
    (hop : set.semop p opLock = .done set') :
    Running safe ((s.put id set').goTo p (.createGetval initval id)) := by
  refine h.move (b := false) (c := true) hset hop rfl rfl (by rw [hpc]; rfl) rfl rfl
    (.inr (SemSet.val_eq_zero_of_semop hop)) (fun _ _ => rfl) ?_ rfl rfl
    (fun _ => .inl le_rfl) fun i => Pc.noConfusion
  simp [State.put, change, opLock, Sembuf.change]

lemma endCreate (hpc : (s.proc p).pc = .createEnd id) (hop : set.semop p opEndcreate = .done set') :
    Running safe (((s.put id set').setOpens p id ((s.proc p).opens id + 1)).goTo p .outside) := by
  have hok := h.sets id set hset
  have hd : change opEndcreate 1 = -1 := rfl
  have hlocked : ((s.proc p).part id).locked = true := by simp [Proc.part, hpc, Pc.lockOf]
  rw [goTo_setOpens]
  refine h.move (b := true) (c := false) hset hop rfl rfl (by rw [hpc]; rfl) rfl rfl
    (.inl (by decide)) (fun i hi => update_of_ne hi ..) (by simp [hd]) rfl rfl (fun hs => .inr ?_)
    fun i => Pc.noConfusion
  -- a process that removes the set has the lock
  intro q hq
  by_contra htrue
  rw [Bool.not_eq_false] at htrue
  exact hq (hok.eq_of_locked (hok.removing hs q htrue).1 hlocked)

lemma openSet (hpc : (s.proc p).pc = .openOp id) (hop : set.semop p opOpen = .done set')
    (hsafe : safe → ∀ q, (s.proc q).pc ≠ .closeRm id) :
    Running safe (((s.put id set').setOpens p id ((s.proc p).opens id + 1)).goTo p .outside) := by
  have hd : change opOpen 1 = -1 := rfl
  rw [goTo_setOpens]
  refine h.move (b := false) (c := false) hset hop rfl rfl (by rw [hpc]; rfl) rfl rfl
    (.inl (by decide)) (fun i hi => update_of_ne hi ..) (by simp [hd]) rfl rfl (fun hs => .inr ?_)
    fun i => Pc.noConfusion
  intro q _
  have hq := hsafe hs q
  cases hpcq : (s.proc q).pc with
  | closeRm i =>
    rw [hpcq, ne_eq, Pc.closeRm.injEq] at hq
    simp [Proc.part, hpcq, Pc.removingOf, hq]
  | _ => simp [Proc.part, hpcq, Pc.removingOf]

lemma closeSet (hpc : (s.proc p).pc = .closeOp id) (hop : set.semop p opClose = .done set') :
    Running safe
      (((s.put id set').setOpens p id ((s.proc p).opens id - 1)).goTo p (.closeGetval id)) := by
  have hopen := h.closing p id hpc
  have hd : change opClose 1 = 1 := rfl
  rw [goTo_setOpens]
  refine h.move (b := false) (c := true) hset hop rfl rfl (by rw [hpc]; rfl) rfl rfl
    (.inr (SemSet.val_eq_zero_of_semop hop)) (fun i hi => update_of_ne hi ..) ?_ rfl rfl
    (fun _ => .inl ?_) fun i => Pc.noConfusion
  · simp only [update_self, hd]
    omega
  · simp

lemma unlock (hpc : (s.proc p).pc = .closeUnlock id) (hop : set.semop p opUnlock = .done set') :
    Running safe ((s.put id set').goTo p .outside) := by
  have hd : change opUnlock 1 = 0 := rfl
  exact h.move (b := true) (c := false) hset hop rfl rfl (by rw [hpc]; rfl) rfl rfl
    (.inl (by decide)) (fun _ _ => rfl) (by simp [State.put, hd]) rfl rfl (fun _ => .inl le_rfl)
    fun i => Pc.noConfusion

lemma changeValue {value : ℤ} (hpc : (s.proc p).pc = .opOp id value)
    (hop : set.semop p (opOp value) = .done set') :
    Running safe ((s.put id set').goTo p .outside) := by
  have hd : ∀ i, i ≠ 0 → change (opOp value) i = 0 ∧ undone (opOp value) i = 0 := by
    intro i hi
    simp [change, undone, opOp, Sembuf.undone, Sembuf.change, Ne.symm hi]
  obtain ⟨hd₁, hu₁⟩ := hd 1 one_ne_zero
  obtain ⟨hd₂, hu₂⟩ := hd 2 two_ne_zero
  exact h.move (b := false) (c := false) hset hop (hd₁.trans hu₁.symm) (hd₂.trans hu₂.symm)
    (by rw [hpc]; rfl) rfl hd₂ (.inl hd₂.le) (fun _ _ => rfl) (by simp [State.put, hd₁]) rfl rfl
    (fun _ => .inl le_rfl) fun i => Pc.noConfusion

lemma goToLocked {pc : Pc} (hlock : (s.proc p).pc.lockOf = some id)
    (hlock' : pc.lockOf = some id) (hsetting : pc.settingOf = some id → s.initialised id = false)
    (hremoving : pc.removingOf = some id → ∀ q, (s.proc q).opens id = 0) :
    Running safe (s.goTo p pc) := by
  refine h.goOn (b := true) (c := true) (h.lt_next hset) hlock hlock' rfl h.keys rfl
    (fun i hi => ⟨rfl, rfl, rfl⟩) (fun set₁ hset₁ => ?_) ?_
  · obtain rfl := some.inj (hset.symm.trans hset₁)
    have hmine : ({ s.proc p with pc := pc } : Proc).part id =
        ⟨(s.proc p).opens id, true, pc.settingOf = some id, pc.removingOf = some id⟩ := by
      simp [Proc.part, hlock']
    rw [hmine]
    refine (h.sets id set hset).stay rfl (by simp [Proc.part, hlock]) (fun hx => ⟨rfl, ?_⟩)
      fun _ hx => ⟨rfl, ?_⟩
    · exact hsetting (of_decide_eq_true hx)
    · exact hremoving (of_decide_eq_true hx)
  · intro i hi
    rw [show pc = .closeOp i from hi] at hlock'
    cases hlock'

lemma createGetval (hpc : (s.proc p).pc = .createGetval initval id)
    (hval : set.val 1 = 0) (hfew : ∑ q, (s.proc q).opens id < BIGCOUNT) :
    Running safe (s.goTo p (.createSet0 initval id)) := by
  have hcount := (h.sets id set hset).val_one
  refine h.goToLocked hset (by rw [hpc]; rfl) rfl (fun _ => ?_) fun hr => by cases hr
  by_contra hinit
  rw [Bool.not_eq_false] at hinit
  have hcast : ∑ q, (((s.proc q).part id).opens : ℤ) = ((∑ q, (s.proc q).opens id : ℕ) : ℤ) := by
    push_cast
    rfl
  rw [hinit, hcast, hval, if_pos rfl] at hcount
  omega

lemma closeGetval (hpc : (s.proc p).pc = .closeGetval id) (hval : set.val 1 = BIGCOUNT) :
    Running safe (s.goTo p (.closeRm id)) := by
  have hcount := (h.sets id set hset).val_one
  refine h.goToLocked hset (by rw [hpc]; rfl) rfl (fun hs => by cases hs) fun _ q => ?_
  have hle : (((s.proc q).part id).opens : ℤ) ≤ ∑ r, (((s.proc r).part id).opens : ℤ) :=
    Finset.single_le_sum (fun r _ => Int.natCast_nonneg ((s.proc r).part id).opens)
      (Finset.mem_univ q)
  have hq : ((s.proc q).part id).opens = (s.proc q).opens id := rfl
  rw [hval] at hcount
  split at hcount <;> omega

lemma createSet0 (v : ℕ) (hpc : (s.proc p).pc = .createSet0 initval id) :
    Running safe ((s.put id (set.setval 0 v)).goTo p (.createSet1 id)) := by
  have hok := h.sets id set hset
  have hmine : ((s.proc p).part id).setting = true := by simp [Proc.part, hpc, Pc.settingOf]
  refine h.goOn (b := true) (c := true) (h.lt_next hset) (by rw [hpc]; rfl) rfl rfl h.keys rfl
    (fun i hi => ⟨update_of_ne hi .., rfl, rfl⟩) (fun set₁ hset₁ => ?_) fun i => Pc.noConfusion
  simp only [State.goTo, State.put, update_self, some.injEq] at hset₁
  subst hset₁
  refine (hok.setval_zero v).stay rfl ?_ (fun _ => ⟨?_, (hok.setting p hmine).2⟩) fun _ hx => ?_
  · simp [Proc.part, hpc, Pc.lockOf]
  · simp [Proc.part, Pc.lockOf]
  · simp [Proc.part, Pc.removingOf] at hx

lemma createSet1 (hpc : (s.proc p).pc = .createSet1 id) :
    Running safe { (s.put id (set.setval 1 BIGCOUNT)).goTo p (.createEnd id) with
      initialised := update s.initialised id true } := by
  have hmine : ((s.proc p).part id).setting = true := by simp [Proc.part, hpc, Pc.settingOf]
  refine h.goOn (b := true) (c := true) (h.lt_next hset) (by rw [hpc]; rfl) rfl rfl h.keys rfl
    (fun i hi => ⟨update_of_ne hi .., update_of_ne hi .., rfl⟩) (fun set₁ hset₁ => ?_)
    fun i => Pc.noConfusion
  simp only [State.goTo, State.put, update_self, some.injEq] at hset₁ ⊢
  subst hset₁
  refine (h.sets id set hset).setval_one hmine rfl ?_ ?_ ?_
  · simp [Proc.part, Pc.lockOf]
  · simp [Proc.part, Pc.settingOf]
  · simp [Proc.part, Pc.removingOf]

lemma semRm (hpc : (s.proc p).pc = .closeRm id) : Running safe ((s.semRm id).goTo p .outside) := by
  refine h.goOn (b := true) (c := false) (h.lt_next hset) (by rw [hpc]; rfl) rfl rfl
    (fun key i hi => ?_) rfl (fun i hi => ⟨update_of_ne hi .., rfl, rfl⟩) (fun set₁ hset₁ => ?_)
    fun i => Pc.noConfusion
  · simp only [State.goTo, State.semRm] at hi
    split at hi
    · cases hi
    · exact h.keys key i hi
  · simp [State.goTo, State.semRm] at hset₁

end

lemma go (hst : s.go p = some s')
    (hfew : ∀ initval id, (s.proc p).pc = .createGetval initval id →
      ∑ q, (s.proc q).opens id < BIGCOUNT)
    (hsafe : safe → ∀ id, (s.proc p).pc = .openOp id → ∀ q, (s.proc q).pc ≠ .closeRm id) :
    Running safe s' := by
  revert hst
  fun_cases State.go s p with
  | case1 | case2 => nofun
  | case6 | case9 | case10 | case12 | case19 | case20 | case23 =>
    -- a system call fails
    rintro ⟨⟩
    exact h.exit p
  | case3 _ _ hpc | case15 _ hpc | case16 _ hpc =>
    -- `semget`
    rintro ⟨⟩
    exact h.goTo (by rw [hpc]; rfl) rfl fun i => Pc.noConfusion
  | case4 key initval hpc =>
    rintro ⟨⟩
    have hproc : (s.newSet key).proc p = s.proc p := rfl
    exact (h.newSet key).goTo (by rw [hproc, hpc]; rfl) rfl fun i => Pc.noConfusion
  | case5 key initval id hpc =>
    intro hst
    refine h.semop hst ?_ fun set set' hset hop => h.lock hset hpc hop
    exact h.goTo (by rw [hpc]; rfl) rfl fun i => Pc.noConfusion
  | case7 initval id hpc set hset hval =>
    rintro ⟨⟩
    exact h.createGetval hset hpc hval (hfew initval id hpc)
  | case8 _ _ hpc set hset | case22 _ hpc set hset =>
    rintro ⟨⟩
    exact h.goToLocked hset (by rw [hpc]; rfl) rfl (fun hs => by cases hs) fun hr => by cases hr
  | case11 initval id hpc set hset =>
    rintro ⟨⟩
    exact h.createSet0 hset _ hpc
  | case13 id hpc set hset =>
    rintro ⟨⟩
    exact h.createSet1 hset hpc
  | case14 id hpc =>
    exact fun hst => h.semop hst (h.exit p) fun set set' hset hop => h.endCreate hset hpc hop
  | case17 id hpc =>
    exact fun hst => h.semop hst (h.exit p) fun set set' hset hop =>
      h.openSet hset hpc hop fun hs => hsafe hs id hpc
  | case18 id hpc =>
    exact fun hst => h.semop hst (h.exit p) fun set set' hset hop => h.closeSet hset hpc hop
  | case21 id hpc set hset _ hval =>
    rintro ⟨⟩
    exact h.closeGetval hset hpc hval
  | case24 id hpc set hset =>
    rintro ⟨⟩
    exact h.semRm hset hpc
  | case25 id hpc =>
    exact fun hst => h.semop hst (h.exit p) fun set set' hset hop => h.unlock hset hpc hop
  | case26 id value hpc =>
    exact fun hst => h.semop hst (h.exit p) fun set set' hset hop => h.changeValue hset hpc hop

lemma step {a : Action ι} (hst : step s a = some s')
    (hfew : ∀ p initval id, a = .go p → (s.proc p).pc = .createGetval initval id →
      ∑ q, (s.proc q).opens id < BIGCOUNT)
    (hsafe : safe → ∀ p id, a = .go p → (s.proc p).pc = .openOp id →
      ∀ q, (s.proc q).pc ≠ .closeRm id) : Running safe s' := by
  have hgo : ∀ {p pc}, (s.proc p).pc.lockOf = none → pc.lockOf = none → (∀ i, pc ≠ .closeOp i) →
      Running safe (s.goTo p pc) := fun hlock hlock' hne =>
    h.goTo hlock hlock' fun i hi => absurd hi (hne i)
  revert hst
  fun_cases Semaph.step s a with
  | case1 | case4 | case8 | case9 | case15 | case17 => nofun
  | case2 | case5 =>
    rintro ⟨⟩
    exact h
  | case3 _ _ _ hpc | case6 _ _ hpc | case11 _ _ _ hpc =>
    rintro ⟨⟩
    exact hgo (by rw [not_not.mp hpc]; rfl) rfl nofun
  | case7 p id hpc =>
    rintro ⟨⟩
    refine h.goTo (by rw [hpc.1]; rfl) rfl ?_
    rintro _ ⟨⟩
    exact hpc.2
  | case10 | case16 =>
    rintro ⟨⟩
    exact h.exit _
  | case12 p =>
    exact fun hst =>
      h.go hst (fun initval id => hfew p initval id rfl) fun hs id => hsafe hs p id rfl
  | case13 _ _ _ hpc | case14 _ _ hpc =>
    rintro ⟨⟩
    exact hgo (by rw [hpc]; rfl) rfl nofun

end

end Running

/-! ## Runs -/

variable [DecidableEq ι] {s : State ι} {as : List (Action ι)}

/-- With at most 9999 opens that are not closed: once `[1]` of a set has been set it is `BIGCOUNT`
less the opens, `[2]` is 1 if and only if a process is in a locked section, and the set is not set
to its initial value again. -/
theorem counters_of_fewOpens (hrun : RunWhen step (fun s _ => FewOpens s) (start ι) as s) {id : ℕ}
    {set : SemSet ι} (hset : s.sets id = some set) (hinit : s.initialised id = true) :
    set.val 1 + ∑ p, (s.proc p).opens id = BIGCOUNT ∧
      (set.val 2 = 1 ↔ ∃ p, (s.proc p).pc.lockOf = some id) ∧
      ∀ a, ¬ Sets s id a := by
  have h : Running False s := by
    refine hrun.invariant (running_start False) fun s a s' hI hst hfew => hI.step hst ?_ fun hs =>
      hs.elim
    exact fun p initval i _ _ => hI.sum_opens_lt hfew i
  have hok := h.sets id set hset
  refine ⟨?_, ?_, ?_⟩
  · have hval := hok.val_one
    rw [hinit, if_pos rfl] at hval
    exact_mod_cast hval
  · rw [hok.val_two_eq_one_iff]
    exact exists_congr fun p => decide_eq_true_iff
  · intro a hsets
    cases a with
    | go p =>
      have hfalse := (hok.setting p (decide_eq_true hsets)).2
      rw [hinit] at hfalse
      cases hfalse
    | _ => exact hsets

def createAndOpen (p q : ι) : List (Action ι) :=
  [.semCreate p 1 5, .go p, .go p, .go p, .go p, .go p, .go p, .semOpen q 1, .go q, .go q]

/-- With two opens the counter is 9998. -/
theorem counters_of_fewOpens_two : ∃ (s : State (Fin 2)) (set : SemSet (Fin 2)),
    RunWhen step (fun s _ => FewOpens s) (start (Fin 2))
      (createAndOpen 0 1) s ∧ s.sets 0 = some set ∧
      set.val 0 = 5 ∧ set.val 1 = 9998 ∧ set.val 2 ≠ 1 ∧ ∀ a, ¬ Sets s 0 a := by
  obtain ⟨s, hrun, hany, hinit, hopens, hpc⟩ := exists_runWhen step (fun s _ => FewOpens s)
    (start (Fin 2)) (createAndOpen 0 1)
    (fun s => (s.sets 0).any (fun set => set.val 0 = 5) = true ∧ s.initialised 0 = true ∧
      (s.proc 0).opens 0 + (s.proc 1).opens 0 = 2 ∧ ∀ p, (s.proc p).pc = .outside)
    (by decide +kernel)
  obtain ⟨set, hset, hzero⟩ := (any_eq_true ..).mp hany
  obtain ⟨hcounter, hlock, hsets⟩ := counters_of_fewOpens hrun hset hinit
  rw [Fin.sum_univ_two, hopens, BIGCOUNT] at hcounter
  refine ⟨s, set, hrun, hset, of_decide_eq_true hzero, by omega, fun hone => ?_, hsets⟩
  obtain ⟨p, hp⟩ := hlock.mp hone
  rw [hpc p] at hp
  cases hp

/-- In a run in which sets are opened in time, `sem_close` does not remove a set that a process has
open. -/
theorem semClose_keeps_opened
    (hrun : RunWhen step (fun s a => opensInTime s a = true) (start ι) as s)
    {a : Action ι} {p : ι} {id : ℕ} (hrem : Removes s p id a) (q : ι) :
    (s.proc q).opens id = 0 := by
  have h : Running True s := by
    refine hrun.invariant (running_start True) fun s a s' hI hst hC => hI.step hst ?_ fun _ => ?_
    · rintro p initval i rfl hpc
      simp only [opensInTime, hpc] at hC
      exact of_decide_eq_true hC
    · rintro p i rfl hpc
      simp only [opensInTime, hpc] at hC
      exact of_decide_eq_true hC
  cases a with
  | go r =>
    obtain ⟨rfl, hpc, hsets⟩ := hrem
    obtain ⟨set, hset⟩ := ne_none_iff_exists'.mp hsets
    have hremoving : ((s.proc r).part id).removing = true := by simp [Proc.part, hpc, Pc.removingOf]
    exact ((h.sets id set hset).removing trivial r hremoving).2 q
  | _ => exact hrem.elim

def createAndClose (p : ι) : List (Action ι) :=
  [.semCreate p 1 5, .go p, .go p, .go p, .go p, .go p, .go p, .semClose p 0, .go p, .go p]

/-- A set that nobody else has open is removed. -/
theorem semClose_keeps_opened_one : ∃ s : State (Fin 2),
    RunWhen step (fun s a => opensInTime s a = true) (start (Fin 2)) (createAndClose 0) s ∧
      Removes s 0 0 (.go 0) ∧ (s.proc 1).opens 0 = 0 := by
  obtain ⟨s, hrun, hpc, hset⟩ := exists_runWhen step (fun s a => opensInTime s a = true)
    (start (Fin 2)) (createAndClose 0)
    (fun s => (s.proc 0).pc = .closeRm 0 ∧ (s.sets 0).isSome = true) (by decide +kernel)
  have hrem : Removes s 0 0 (.go 0) := ⟨rfl, hpc, isSome_iff_ne_none.mp hset⟩
  exact ⟨s, hrun, hrem, semClose_keeps_opened hrun hrem 1⟩

/-- The process 1 has found the set before it is closed, and opens it just before it is removed. -/
theorem semClose_removes_opened : ∃ (as : List (Action (Fin 2))) (s s' : State (Fin 2)),
    RunFrom step (start (Fin 2)) as s ∧ step s (.go 0) = some s' ∧ Removes s 0 0 (.go 0) ∧
      (s.proc 1).opens 0 = 1 ∧ (s'.proc 1).opens 0 = 1 ∧ s'.sets 0 = none := by
  obtain ⟨s, hrun, hpc, hopens, hsome⟩ := exists_runFrom step (start (Fin 2))
    (createAndClose 0 ++ [.semOpen 1 1, .go 1, .go 1])
    (fun s => (s.proc 0).pc = .closeRm 0 ∧ (s.proc 1).opens 0 = 1 ∧ (s.sets 0).isSome = true)
    (by decide +kernel)
  obtain ⟨set, hset⟩ := isSome_iff_exists.mp hsome
  refine ⟨_, s, (s.semRm 0).goTo 0 .outside, hrun, ?_, ⟨rfl, hpc, ?_⟩, hopens, ?_, ?_⟩
  · simp [step, State.go, hpc, hset]
  · simp [hset]
  · simpa [State.goTo, State.semRm] using hopens
  · simp [State.goTo, State.semRm]

end UnixPrograms.Semaph
