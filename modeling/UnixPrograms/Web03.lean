import UnixPrograms.Lib.Locks
import UnixPrograms.Lib.Runs
import UnixPrograms.Lib.Sums
import Mathlib.Data.Fintype.Option

/-!
# A thread for every file

A thread at the end of its file sets `F_DONE` first and counts itself in `ndone` then, under
`ndone_mutex`.  The main thread joins every thread whose file has `F_DONE`, with the mutex locked.
This is right as long as it does not find a file whose thread has yet to get the mutex
(`ndone_and_joins_iff`).
-/

namespace UnixPrograms.Web03

open Function Option List

/-- `f_flags`; `F_READING` is not used. -/
inductive Flags where
  | zero
  | connecting
  | done
  | joined
  deriving DecidableEq

/-- Where a thread is.  The main thread is at the first ten points, and the thread of a file at
`lock` and the last seven. -/
inductive Point (n : ℕ) where
  /-- `while (nlefttoread > 0)`. -/
  | outer
  /-- `while (nconn < maxnconn && nlefttoconn > 0)`. -/
  | create
  | lock
  /-- `while (ndone == 0)`. -/
  | test
  | asleep
  | awakened
  /-- In the loop that looks for `F_DONE`, with the files that are left. -/
  | scan (left : List (Fin n))
  /-- In `pthread_join`, or behind it. -/
  | join (i : Fin n) (left : List (Fin n))
  | exited
  | quit
  | absent
  /-- Before `f_flags` is set to `F_DONE`. -/
  | reading
  /-- Before `ndone++`. -/
  | count
  | signal
  | unlock
  | terminated
  | joined
  deriving DecidableEq

/-- The main thread is `none`, and the thread of a file has its number. -/
structure State (n : ℕ) where
  point : Option (Fin n) → Point n
  flags : Fin n → Flags
  owner : Unit → Option (Option (Fin n))
  ndone : ℤ
  nconn : ℤ
  nlefttoconn : ℤ
  nlefttoread : ℤ

variable {n : ℕ}

def State.go (s : State n) (t : Option (Fin n)) (p : Point n) : State n :=
  { s with point := update s.point t p }

def State.lock (s : State n) (t : Option (Fin n)) (p : Point n) : Option (State n) :=
  if s.owner () = none then some { s.go t p with owner := update s.owner () (some t) } else none

def State.unlock (s : State n) (t : Option (Fin n)) (p : Point n) : State n :=
  { s.go t p with owner := update s.owner () none }

def mainStep (maxnconn : ℤ) (s : State n) : Option (State n) :=
  match s.point none with
  | .outer => some (s.go none (if 0 < s.nlefttoread then .create else .exited))
  | .create =>
    if s.nconn < maxnconn ∧ 0 < s.nlefttoconn then
      match (finRange n).find? fun i => s.flags i = .zero with
      | none => some (s.go none .quit)
      | some i =>
        some { s.go (some i) .reading with
          flags := update s.flags i .connecting
          nconn := s.nconn + 1
          nlefttoconn := s.nlefttoconn - 1 }
    else some (s.go none .lock)
  | .lock | .awakened => s.lock none .test
  | .test => some (if s.ndone = 0 then s.unlock none .asleep else s.go none (.scan (finRange n)))
  -- the wait may end without a signal
  | .asleep => some (s.go none .awakened)
  | .scan [] => some (s.unlock none .outer)
  | .scan (i :: left) => some (s.go none (if s.flags i = .done then .join i left else .scan left))
  | .join i left =>
    match s.point (some i) with
    -- what follows is done under the mutex, and the thread returns its own file
    | .terminated =>
      some { s.go (some i) .joined with
        flags := update s.flags i .joined
        ndone := s.ndone - 1
        nconn := s.nconn - 1
        nlefttoread := s.nlefttoread - 1 }
    | .joined => some (s.go none (.scan left))
    | _ => none
  | _ => none

def State.signal (s : State n) : State n :=
  if s.point none = .asleep then s.go none .awakened else s

def doGetRead (s : State n) (i : Fin n) : Option (State n) :=
  match s.point (some i) with
  | .reading => some { s.go (some i) .lock with flags := update s.flags i .done }
  | .lock => s.lock (some i) .count
  | .count => some { s.go (some i) .signal with ndone := s.ndone + 1 }
  | .signal => some (s.go (some i) .unlock).signal
  | .unlock => some (s.unlock (some i) .terminated)
  | _ => none

def step (maxnconn : ℤ) (s : State n) : Option (Fin n) → Option (State n)
  | none => mainStep maxnconn s
  | some i => doGetRead s i

def start (n : ℕ) : State n where
  point t := if t = none then .outer else .absent
  flags _ := .zero
  owner _ := none
  ndone := 0
  nconn := 0
  nlefttoconn := n
  nlefttoread := n

/-- Whether the thread has passed its increment and has not been joined, as a number. -/
def Point.passed : Point n → ℤ
  | .signal | .unlock | .terminated => 1
  | _ => 0

/-- The main thread has the mutex and waits for a thread that waits for the mutex. -/
def Deadlock (s : State n) : Prop :=
  ∃ i left, s.point none = .join i left ∧ s.point (some i) = .lock ∧ s.owner () = some none

/-- The search does not find `F_DONE` before the thread that has set it has got the mutex. -/
def InTime (s : State n) (t : Option (Fin n)) : Prop :=
  ∀ i left, t = none → s.point none = .scan (i :: left) → s.flags i = .done →
    s.point (some i) ≠ .lock

def Point.holds : Point n → List Unit
  | .test | .scan _ | .join _ _ | .count | .signal | .unlock => [()]
  | _ => []

/-- The flags of a file whose thread is at the point. -/
def Point.flags : Point n → Option Flags
  | .absent => some .zero
  | .reading => some .connecting
  | .lock | .count | .signal | .unlock | .terminated => some .done
  | .joined => some .joined
  | _ => none

/-- What holds in every state of a run. -/
structure Inv (s : State n) : Prop where
  owned : Owned Point.holds s.owner s.point
  ndone : s.ndone = ∑ t, (s.point t).passed
  flags : some ∘ s.flags = Point.flags ∘ s.point ∘ some
  /-- The main thread waits for a thread that has terminated. -/
  join : ∀ i left, s.point none = .join i left →
    s.point (some i) = .terminated ∨ s.point (some i) = .joined

variable {maxnconn : ℤ} {s s' : State n} {t : Option (Fin n)} {p q : Point n} {i : Fin n}
  {left : List (Fin n)}

section

variable (h : Inv s)
include h

lemma Inv.flags_eq (i : Fin n) : some (s.flags i) = (s.point (some i)).flags :=
  congrFun h.flags i

/-- The flags of a file that is not started yet. -/
lemma Inv.absent (hzero : s.flags i = .zero) : s.point (some i) = .absent := by
  have hflags := h.flags_eq i
  rw [hzero] at hflags
  cases hpc : s.point (some i) with
  | absent => rfl
  | _ => rw [hpc] at hflags; cases hflags

lemma Inv.lock_or_terminated (hmain : () ∈ (s.point none).holds)
    (hdone : s.flags i = .done) : s.point (some i) = .lock ∨ s.point (some i) = .terminated := by
  have hflags := h.flags_eq i
  have hfree : () ∉ (s.point (some i)).holds := fun hi => by cases h.owned.unique hmain hi
  rw [hdone] at hflags
  cases hpc : s.point (some i) with
  | lock => exact .inl rfl
  | terminated => exact .inr rfl
  | count | signal | unlock => simp [hpc, Point.holds] at hfree
  | _ => rw [hpc] at hflags; cases hflags

lemma Inv.sum_update (t : Option (Fin n)) (p : Point n) :
    ∑ u, (update s.point t p u).passed = s.ndone + p.passed - (s.point t).passed := by
  have hsum := sum_update_add Point.passed s.point t p
  rw [h.ndone]
  omega

lemma Inv.main {owner : Unit → Option (Option (Fin n))} (hpc : s.point none = q)
    (howned : Owned Point.holds owner (update s.point none p)) (hpassed : p.passed = q.passed)
    (hjoin : ∀ i left, p = .join i left → s.point (some i) = .terminated) :
    Inv { s.go none p with owner := owner } where
  owned := howned
  ndone := by
    refine .trans ?_ (h.sum_update none p).symm
    rw [hpassed, hpc]
    exact (Int.add_sub_cancel _ _).symm
  flags := h.flags
  join i left hp := .inl (hjoin i left (update_self none p s.point ▸ hp))

lemma Inv.go (hpc : s.point none = q) (hholds : p.holds = q.holds) (hpassed : p.passed = q.passed)
    (hjoin : ∀ i left, p = .join i left → s.point (some i) = .terminated) : Inv (s.go none p) :=
  h.main hpc (h.owned.move (hpc ▸ hholds)) hpassed hjoin

lemma Inv.lock (hpc : s.point none = q) (hpassed : q.passed = 0)
    (hst : s.lock none .test = some s') : Inv s' := by
  obtain ⟨hfree, rfl⟩ := ite_some_none_eq_some.mp hst
  refine h.main hpc (h.owned.take hfree fun k => ?_) hpassed.symm (by simp)
  simp [Point.holds]

lemma Inv.unlock (hpc : s.point none = q) (hholds : q.holds = [()])
    (hp : p.holds = []) (hpassed : p.passed = q.passed) (hjoin : ∀ i left, p ≠ .join i left) :
    Inv (s.unlock none p) := by
  refine h.main hpc (h.owned.drop (by simp [hpc, hholds]) fun k => ?_) hpassed
    fun i left hp => absurd hp (hjoin i left)
  simp [hp]

lemma Inv.file {owner : Unit → Option (Option (Fin n))} {flags : Fin n → Flags}
    {f : Flags} {ndone nconn nlefttoconn nlefttoread : ℤ} (hpc : s.point (some i) = q)
    (howned : Owned Point.holds owner (update s.point (some i) p))
    (hflags : flags = update s.flags i f) (hp : p.flags = some f)
    (hndone : ndone = s.ndone + p.passed - q.passed)
    (hq : q ≠ .joined ∧ (q = .terminated → p = .joined)) :
    Inv ⟨update s.point (some i) p, flags, owner, ndone, nconn, nlefttoconn, nlefttoread⟩ where
  owned := howned
  ndone := (hpc ▸ hndone).trans (h.sum_update (some i) p).symm
  flags := by
    have hsome := update_comp_eq_of_injective s.point (some_injective _) i p
    rw [hflags, hsome, comp_update, comp_update, h.flags, hp]
  join j left hmain := by
    show update s.point (some i) p (some j) = .terminated ∨ update s.point (some i) p (some j) = _
    by_cases hj : j = i
    · subst hj
      rw [update_self]
      exact .inr (hq.2 ((hpc ▸ h.join j left hmain).resolve_right hq.1))
    · rw [update_of_ne (mt some.inj hj)]
      exact h.join j left hmain

lemma Inv.mainStep (hst : mainStep maxnconn s = some s') (hC : InTime s none) : Inv s' := by
  revert hst
  fun_cases Web03.mainStep maxnconn s with
  | case1 hpc =>
    rintro ⟨⟩
    split
    · exact h.go hpc rfl rfl (by simp)
    · exact h.go hpc rfl rfl (by simp)
  | case2 hpc => exact fun hst => some.inj hst ▸ h.go hpc rfl rfl (by simp)
  | case3 hpc _ i hfind =>
    rintro ⟨⟩
    have habsent := h.absent (of_decide_eq_true (find?_some hfind :))
    exact h.file habsent (h.owned.move (habsent ▸ rfl)) rfl rfl
      (Int.add_sub_cancel _ _).symm (by simp)
  | case4 hpc => exact fun hst => some.inj hst ▸ h.go hpc rfl rfl (by simp)
  | case5 hpc => exact h.lock hpc rfl
  | case6 hpc => exact h.lock hpc rfl
  | case7 hpc =>
    rintro ⟨⟩
    split
    · exact h.unlock hpc rfl rfl rfl (by simp)
    · exact h.go hpc rfl rfl (by simp)
  | case8 hpc => exact fun hst => some.inj hst ▸ h.go hpc rfl rfl (by simp)
  | case9 hpc => exact fun hst => some.inj hst ▸ h.unlock hpc rfl rfl rfl (by simp)
  | case10 i left hpc =>
    rintro ⟨⟩
    split
    case isTrue hdone =>
      refine h.go hpc rfl rfl ?_
      rintro _ _ ⟨⟩
      have hmain : () ∈ (s.point none).holds := by simp [hpc, Point.holds]
      exact (h.lock_or_terminated hmain hdone).resolve_left (hC i left rfl hpc hdone)
    case isFalse => exact h.go hpc rfl rfl (by simp)
  | case11 i left hpc hterm =>
    rintro ⟨⟩
    exact h.file hterm (h.owned.move (hterm ▸ rfl)) rfl rfl
      (congrArg (· - 1) (Int.add_zero _).symm) (by simp)
  | case12 i left hpc => exact fun hst => some.inj hst ▸ h.go hpc rfl rfl (by simp)
  | _ => simp

lemma Inv.update_done (hq : (s.point (some i)).flags = some .done) :
    s.flags = update s.flags i .done :=
  (update_eq_self_iff.mpr (some.inj ((h.flags_eq i).trans hq)).symm).symm

lemma Inv.doGetRead (hst : doGetRead s i = some s') : Inv s' := by
  revert hst
  fun_cases Web03.doGetRead s i with
  | case1 hpc =>
    rintro ⟨⟩
    exact h.file hpc (h.owned.move (hpc ▸ rfl)) rfl rfl (Int.add_sub_cancel _ _).symm
      (by simp)
  | case2 hpc =>
    intro hst
    obtain ⟨hfree, rfl⟩ := ite_some_none_eq_some.mp hst
    refine h.file hpc (h.owned.take hfree fun k => ?_) (h.update_done (hpc ▸ rfl)) rfl
      (Int.add_sub_cancel _ _).symm (by simp)
    simp [Point.holds]
  | case3 hpc =>
    rintro ⟨⟩
    exact h.file hpc (h.owned.move (hpc ▸ rfl)) (h.update_done (hpc ▸ rfl)) rfl
      (Int.sub_zero _).symm (by simp)
  | case4 hpc =>
    rintro ⟨⟩
    have hgo : Inv (s.go (some i) .unlock) :=
      h.file hpc (h.owned.move (hpc ▸ rfl)) (h.update_done (hpc ▸ rfl)) rfl
        (Int.add_sub_cancel _ _).symm (by simp)
    unfold State.signal
    split
    case isTrue hasleep => exact hgo.go hasleep rfl rfl (by simp)
    case isFalse => exact hgo
  | case5 hpc =>
    rintro ⟨⟩
    refine h.file hpc (h.owned.drop ?_ fun k => ?_) (h.update_done (hpc ▸ rfl)) rfl
      (Int.add_sub_cancel _ _).symm (by simp)
    · simp [hpc, Point.holds]
    · simp [Point.holds]
  | _ => simp

lemma Inv.step (hst : step maxnconn s t = some s') (hC : InTime s t) : Inv s' := by
  cases t with
  | none => exact h.mainStep hst hC
  | some i => exact h.doGetRead hst

lemma Inv.deadlock (hst : Web03.step maxnconn s t = some s') (hC : ¬ InTime s t) : Deadlock s' := by
  simp only [InTime, not_forall, not_not] at hC
  obtain ⟨i, left, rfl, hpc, hdone, hlock⟩ := hC
  simp only [Web03.step, Web03.mainStep, hpc, hdone, if_true] at hst
  obtain rfl := some.inj hst
  refine ⟨i, left, update_self none _ s.point, hlock, (h.owned none ()).mpr ?_⟩
  simp [hpc, Point.holds]

end

lemma inv_start (n : ℕ) : Inv (start n) where
  owned t _ := by cases t <;> simp [start, Point.holds]
  ndone := by
    refine (Finset.sum_eq_zero fun t _ => ?_).symm
    cases t <;> rfl
  flags := rfl
  join := by simp [start]

/-- Throughout a run, `ndone` is the number of threads that have passed their increment and have not
been joined whenever the mutex is free, and the main thread does not wait for a thread that waits
for its mutex, if and only if the search for `F_DONE` is in time. -/
theorem ndone_and_joins_iff (n : ℕ) (maxnconn : ℤ) {ls : List (Option (Fin n))} {s : State n} :
    Throughout (step maxnconn)
        (fun s => (s.owner () = none → s.ndone = ∑ t, (s.point t).passed) ∧ ¬ Deadlock s)
        (start n) ls s ↔
      RunWhen (step maxnconn) InTime (start n) ls s := by
  refine throughout_iff (inv_start n) (fun s h => ⟨fun _ => h.ndone, ?_⟩)
    (fun _ _ _ h hst hC => h.step hst hC) (fun _ _ _ h hst hC hP => hP.2 (h.deadlock hst hC))
  rintro ⟨i, left, hmain, hlock, -⟩
  exact absurd (h.join i left hmain) (by simp [hlock])

def overtaken (i j : Fin n) : List (Option (Fin n)) :=
  [none, none, none, none, some j, some j, some j, some j, some j, some i, none, none, none]

/-- The main thread waits for the thread of the first file, which waits for the mutex. -/
theorem ndone_and_joins_overtaken :
    ∃ s : State 2, RunFrom (step 2) (start 2) (overtaken 0 1) s ∧ Deadlock s := by
  obtain ⟨s, hrun, hs⟩ := exists_runFrom (step 2) (start 2) (overtaken 0 1)
    (fun s => s.point none = .join 0 [1] ∧ s.point (some 0) = .lock ∧ s.owner () = some none)
    (by decide)
  exact ⟨s, hrun, 0, [1], hs⟩

end UnixPrograms.Web03
