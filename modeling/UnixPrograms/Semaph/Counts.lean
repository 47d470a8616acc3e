import UnixPrograms.Semaph.Model
import Mathlib.Algebra.Order.BigOperators.Group.Finset

/-!
# The counters of a semaphore set

`SetOk` ties the values of a set and the adjustments of the processes to the `Part` of each process:
the adjustment for `[1]` is the number of its opens, that for `[2]` is the lock.

`sem_open` takes no lock, so that a set may be opened before `sem_close` removes it; `safe` is the
assumption that this does not happen.
-/

namespace UnixPrograms.Semaph

open Function Finset SemSet

variable {pc : Pc}

lemma Pc.lockOf_of_settingOf {id : ℕ} (h : pc.settingOf = some id) : pc.lockOf = some id := by
  cases pc with
  | createSet0 | createSet1 => exact h
  | _ => cases h

lemma Pc.lockOf_of_removingOf {id : ℕ} (h : pc.removingOf = some id) : pc.lockOf = some id := by
  cases pc with
  | closeRm => exact h
  | _ => cases h

lemma Pc.of_lockOf_eq_none (h : pc.lockOf = none) : pc.settingOf = none ∧ pc.removingOf = none := by
  constructor
  · refine Option.eq_none_iff_forall_ne_some.mpr fun id hid => ?_
    rw [Pc.lockOf_of_settingOf hid] at h
    cases h
  · refine Option.eq_none_iff_forall_ne_some.mpr fun id hid => ?_
    rw [Pc.lockOf_of_removingOf hid] at h
    cases h

/-- What a process has of a set. -/
structure Part where
  opens : ℕ
  locked : Bool
  setting : Bool
  removing : Bool

def Proc.part (pr : Proc) (id : ℕ) : Part where
  opens := pr.opens id
  locked := pr.pc.lockOf = some id
  setting := pr.pc.settingOf = some id
  removing := pr.pc.removingOf = some id

def Part.none : Part := ⟨0, false, false, false⟩

variable {ι : Type} [Fintype ι]

/-- The values and adjustments of a set are those of its parts. -/
structure SetOk (safe : Prop) (set : SemSet ι) (init : Bool) (part : ι → Part) : Prop where
  nsems : set.nsems = 3
  opens : ∀ p, set.adj p 1 = (part p).opens
  locked : ∀ p, set.adj p 2 = -(part p).locked.toNat
  counter : set.rest 1 = if init then (BIGCOUNT : ℤ) else 0
  lock : set.rest 2 = 0
  exclusive : set.val 2 ≤ 1
  setting : ∀ p, (part p).setting = true → (part p).locked = true ∧ init = false
  removing : safe → ∀ p, (part p).removing = true →
    (part p).locked = true ∧ ∀ q, (part q).opens = 0

namespace SetOk

variable {safe : Prop} {set set' : SemSet ι} {init : Bool} {part : ι → Part}

lemma val_one (h : SetOk safe set init part) :
    (set.val 1 : ℤ) + ∑ p, ((part p).opens : ℤ) = if init then (BIGCOUNT : ℤ) else 0 := by
  have hval := set.val_eq 1
  rw [h.counter, sum_congr rfl fun p _ => h.opens p] at hval
  omega

lemma val_two (h : SetOk safe set init part) : set.val 2 = ∑ p, (part p).locked.toNat := by
  have hval := set.val_eq 2
  rw [h.lock, sum_congr rfl fun p _ => h.locked p, sum_neg_distrib] at hval
  have hcast : (set.val 2 : ℤ) = ((∑ p, (part p).locked.toNat : ℕ) : ℤ) := by
    push_cast
    omega
  exact_mod_cast hcast

lemma opens_eq_zero (h : SetOk safe set false part) (p : ι) : (part p).opens = 0 := by
  have hval := h.val_one
  have hle : ((part p).opens : ℤ) ≤ ∑ q, ((part q).opens : ℤ) :=
    single_le_sum (fun q _ => Int.natCast_nonneg _) (mem_univ p)
  simp only [Bool.false_eq_true, if_false] at hval
  omega

lemma val_two_eq_one_iff (h : SetOk safe set init part) :
    set.val 2 = 1 ↔ ∃ p, (part p).locked = true := by
  constructor
  · intro hone
    rw [h.val_two] at hone
    obtain ⟨p, -, hp⟩ := exists_ne_zero_of_sum_ne_zero (hone.trans_ne one_ne_zero)
    refine ⟨p, ?_⟩
    by_contra hfalse
    exact hp (by simp [hfalse])
  · rintro ⟨p, hp⟩
    have hle : (part p).locked.toNat ≤ ∑ q, (part q).locked.toNat :=
      single_le_sum (fun q _ => Nat.zero_le (part q).locked.toNat) (mem_univ p)
    rw [← h.val_two, hp, Bool.toNat_true] at hle
    have := h.exclusive
    omega

variable {p : ι} {x : Part}

lemma eq_of_locked (h : SetOk safe set init part) {q : ι} (hp : (part p).locked = true)
    (hq : (part q).locked = true) : p = q := by
  by_contra hne
  have hle := add_le_sum (fun r _ => Nat.zero_le (part r).locked.toNat) (mem_univ p)
    (mem_univ q) hne
  rw [← h.val_two, hp, hq] at hle
  have := h.exclusive
  simp only [Bool.toNat_true] at hle
  omega

variable [DecidableEq ι]

omit [Fintype ι] [DecidableEq ι] in
lemma new [Fintype ι] : SetOk safe (.new 3 : SemSet ι) false fun _ => Part.none where
  nsems := rfl
  opens _ := rfl
  locked _ := rfl
  counter := by simp [SemSet.rest, SemSet.new]
  lock := by simp [SemSet.rest, SemSet.new]
  exclusive := Nat.zero_le 1
  setting _ h := by cases h
  removing _ _ h := by cases h

section

variable (h : SetOk safe set init part)
include h

lemma move {d u : ℕ → ℤ} (hc : Changed p d u set set') (h1 : d 1 = u 1) (h2 : d 2 = u 2)
    (hopens : (x.opens : ℤ) = (part p).opens - d 1)
    (hlocked : (x.locked.toNat : ℤ) = (part p).locked.toNat + d 2) (hexcl : set'.val 2 ≤ 1)
    (hset : x.setting = true → x.locked = true ∧ init = false)
    (hrem : safe → x.removing = true → x.locked = true ∧ x.opens = 0 ∧ ∀ q, (part q).opens = 0)
    (hsafe : safe → x.opens ≤ (part p).opens ∨ ∀ q, q ≠ p → (part q).removing = false) :
    SetOk safe set' init (update part p x) where
  nsems := hc.nsems.trans h.nsems
  opens q := by
    by_cases hq : q = p
    · subst hq
      rw [update_self, hc.adj, h.opens, hopens, h1]
    · rw [update_of_ne hq, hc.others q hq, h.opens]
  locked q := by
    by_cases hq : q = p
    · subst hq
      rw [update_self, hc.adj, h.locked, hlocked, h2]
      omega
    · rw [update_of_ne hq, hc.others q hq, h.locked]
  counter := by
    rw [rest_of_changed hc, h1, h.counter]
    omega
  lock := by
    rw [rest_of_changed hc, h2, h.lock]
    omega
  exclusive := hexcl
  setting q hq := by
    by_cases hqp : q = p
    · subst hqp
      rw [update_self] at hq ⊢
      exact hset hq
    · rw [update_of_ne hqp] at hq ⊢
      exact h.setting q hq
  removing hs q hq := by
    by_cases hqp : q = p
    · subst hqp
      rw [update_self] at hq ⊢
      obtain ⟨hl, hx, hall⟩ := hrem hs hq
      refine ⟨hl, fun r => ?_⟩
      by_cases hr : r = q
      · rw [hr, update_self, hx]
      · rw [update_of_ne hr, hall r]
    · rw [update_of_ne hqp] at hq ⊢
      obtain ⟨hl, hall⟩ := h.removing hs q hq
      refine ⟨hl, fun r => ?_⟩
      by_cases hr : r = p
      · subst hr
        rw [update_self]
        rcases hsafe hs with hle | hnone
        · exact Nat.le_zero.mp (hle.trans (hall r).le)
        · rw [hnone q hqp] at hq
          cases hq
      · rw [update_of_ne hr, hall r]

lemma stay (hopens : x.opens = (part p).opens) (hlocked : x.locked = (part p).locked)
    (hset : x.setting = true → x.locked = true ∧ init = false)
    (hrem : safe → x.removing = true → x.locked = true ∧ ∀ q, (part q).opens = 0) :
    SetOk safe set init (update part p x) := by
  have hc : Changed p (fun _ => 0) (fun _ => 0) set set := ⟨rfl, by simp, by simp, fun _ _ => rfl⟩
  refine h.move hc rfl rfl (by simp [hopens]) (by simp [hlocked]) h.exclusive hset ?_ ?_
  · intro hs hx
    obtain ⟨hl, hall⟩ := hrem hs hx
    exact ⟨hl, hopens.trans (hall p), hall⟩
  · exact fun _ => .inl hopens.le

omit [DecidableEq ι] in
lemma of_agree (hnsems : set'.nsems = set.nsems)
    (hval : ∀ i, i = 1 ∨ i = 2 → set'.val i = set.val i)
    (hadj : ∀ p i, i = 1 ∨ i = 2 → set'.adj p i = set.adj p i) : SetOk safe set' init part := by
  have hrest : ∀ i, i = 1 ∨ i = 2 → set'.rest i = set.rest i := by
    intro i hi
    rw [rest, rest, hval i hi, sum_congr rfl fun p _ => hadj p i hi]
  exact
    { nsems := hnsems.trans h.nsems
      opens := fun p => (hadj p 1 (.inl rfl)).trans (h.opens p)
      locked := fun p => (hadj p 2 (.inr rfl)).trans (h.locked p)
      counter := (hrest 1 (.inl rfl)).trans h.counter
      lock := (hrest 2 (.inr rfl)).trans h.lock
      exclusive := (hval 2 (.inr rfl)).trans_le h.exclusive
      setting := h.setting
      removing := h.removing }

omit [DecidableEq ι] in
lemma setval_zero (v : ℕ) : SetOk safe (set.setval 0 v) init part := by
  refine h.of_agree rfl (fun i hi => ?_) fun p i hi => ?_
  · exact update_of_ne (by omega) ..
  · exact update_of_ne (by omega) ..

lemma setval_one (hp : (part p).setting = true) (hopens : x.opens = (part p).opens)
    (hlocked : x.locked = true) (hset : x.setting = false) (hrem : x.removing = false) :
    SetOk safe (set.setval 1 BIGCOUNT) true (update part p x) := by
  obtain ⟨hlock, rfl⟩ := h.setting p hp
  have hparts : ∀ q, (update part p x q).opens = 0 := by
    intro q
    by_cases hq : q = p
    · rw [hq, update_self, hopens, h.opens_eq_zero]
    · rw [update_of_ne hq, h.opens_eq_zero]
  -- the lock is with `p`, so no other process is about to set or to remove the set
  have hothers : ∀ q, (update part p x q).locked = true → q = p := by
    intro q hq
    by_contra hne
    rw [update_of_ne hne] at hq
    exact hne (h.eq_of_locked hq hlock)
  refine
    { nsems := h.nsems
      opens := fun q => by simp [setval, hparts q]
      locked := fun q => ?_
      counter := by simp [rest_setval]
      lock := by rw [rest_setval, if_neg (by decide), h.lock]
      exclusive := ?_
      setting := fun q hq => ?_
      removing := fun hs q hq => ?_ }
  · have hadj : (set.setval 1 BIGCOUNT).adj q 2 = set.adj q 2 := by simp [setval]
    rw [hadj, h.locked q]
    by_cases hq : q = p
    · rw [hq, update_self, hlock, hlocked]
    · rw [update_of_ne hq]
  · have hval : (set.setval 1 BIGCOUNT).val 2 = set.val 2 := by simp [setval]
    exact hval.trans_le h.exclusive
  · by_cases hqp : q = p
    · rw [hqp, update_self, hset] at hq
      cases hq
    · rw [update_of_ne hqp] at hq
      exact absurd (h.eq_of_locked (h.setting q hq).1 hlock) hqp
  · by_cases hqp : q = p
    · rw [hqp, update_self, hrem] at hq
      cases hq
    · rw [update_of_ne hqp] at hq
      exact absurd (h.eq_of_locked (h.removing hs q hq).1 hlock) hqp

lemma exit (p : ι) : SetOk safe (set.exit p) init (update part p Part.none) := by
  have hopens := h.opens p
  have hlocked := h.locked p
  have hle : (part p).locked.toNat ≤ set.val 2 := by
    rw [h.val_two]
    exact single_le_sum (fun q _ => Nat.zero_le (part q).locked.toNat) (mem_univ p)
  have hadj : ∀ i, (set.exit p).adj p i = 0 := fun i => by simp [SemSet.exit]
  have hval : (set.exit p).val 2 = ((set.val 2 : ℤ) + set.adj p 2).toNat := rfl
  have hexcl := h.exclusive
  refine
    { nsems := h.nsems
      opens := fun q => ?_
      locked := fun q => ?_
      counter := ?_
      lock := ?_
      exclusive := by omega
      setting := fun q hq => ?_
      removing := fun hs q hq => ?_ }
  · by_cases hq : q = p
    · rw [hq, update_self, hadj]
      rfl
    · rw [update_of_ne hq, ← h.opens q]
      exact congrFun (update_of_ne hq ..) 1
  · by_cases hq : q = p
    · rw [hq, update_self, hadj]
      rfl
    · rw [update_of_ne hq, ← h.locked q]
      exact congrFun (update_of_ne hq ..) 2
  · rw [rest_exit (by omega), h.counter]
  · rw [rest_exit (by omega), h.lock]
  · by_cases hqp : q = p
    · rw [hqp, update_self] at hq
      cases hq
    · rw [update_of_ne hqp] at hq ⊢
      exact h.setting q hq
  · by_cases hqp : q = p
    · rw [hqp, update_self] at hq
      cases hq
    · rw [update_of_ne hqp] at hq ⊢
      obtain ⟨hl, hall⟩ := h.removing hs q hq
      refine ⟨hl, fun r => ?_⟩
      by_cases hr : r = p
      · rw [hr, update_self]
        rfl
      · rw [update_of_ne hr, hall r]

end

end SetOk

end UnixPrograms.Semaph
