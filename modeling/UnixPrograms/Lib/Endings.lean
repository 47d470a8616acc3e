import UnixPrograms.Lib.Program

/-!
# How a program ends

`Ends step q s r` says that the program `q`, run alone from `s`, ends with `r`; by the rules below
it is run symbolically by rewriting.  A program that comes back to where it was does not end
(`not_ends_of_loop`).  `Gives step q s Q` is partial correctness.
-/

namespace UnixPrograms.Prog

variable {C : Type} {R : C → Type} {E α β σ S : Type} {step : (c : C) → S → R c × S}

/-- Run alone from `s`, the program ends with `r`. -/
def Ends (step : (c : C) → S → R c × S) (q : Prog C R E α) (s : S) (r : Except E α × S) : Prop :=
  ∃ n, q.exec step n s = some r

variable {r : Except E α × S} {s s' : S} {q : Prog C R E α} {a : α} {e : E} {f : α → Prog C R E β}

lemma Ends.unique {r' : Except E α × S} (h : Ends step q s r) (h' : Ends step q s r') : r = r' := by
  obtain ⟨n, hn⟩ := h
  obtain ⟨m, hm⟩ := h'
  exact exec_unique hn hm

lemma ends_ret : Ends step (.ret a) s r ↔ r = (.ok a, s) := by
  constructor
  · rintro ⟨n, hn⟩
    rw [exec] at hn
    exact (Option.some.inj hn).symm
  · rintro rfl
    exact ⟨0, by rw [exec]⟩

lemma ends_fail : Ends step (.fail e : Prog C R E α) s r ↔ r = (.error e, s) := by
  constructor
  · rintro ⟨n, hn⟩
    rw [exec] at hn
    exact (Option.some.inj hn).symm
  · rintro rfl
    exact ⟨0, by rw [exec]⟩

lemma ends_call {c : C} {k : R c → Prog C R E α} :
    Ends step (.call c k) s r ↔ Ends step (k (step c s).1) (step c s).2 r := by
  constructor
  · rintro ⟨n, hn⟩
    cases n with
    | zero => cases hn
    | succ n => exact ⟨n, hn⟩
  · rintro ⟨n, hn⟩
    exact ⟨n + 1, hn⟩

lemma ends_loop {body : σ → Prog C R E (σ ⊕ β)} {x : σ} {k : β → Prog C R E α} :
    Ends step (.loop body x k) s r ↔ Ends step (unroll body x k) s r := by
  constructor
  · rintro ⟨n, hn⟩
    cases n with
    | zero => cases hn
    | succ n => exact ⟨n, hn⟩
  · rintro ⟨n, hn⟩
    exact ⟨n + 1, hn⟩

lemma ends_bind {r : Except E β × S} (h : Ends step q s (.ok a, s')) :
    Ends step (q.bind f) s r ↔ Ends step (f a) s' r := by
  obtain ⟨n, hn⟩ := h
  obtain ⟨m, -, hm⟩ := exec_bind_of_ok (f := f) hn
  constructor
  · rintro ⟨k, hk⟩
    have hk' := exec_add hk m
    rw [Nat.add_comm, hm] at hk'
    exact ⟨k, hk'⟩
  · rintro ⟨k, hk⟩
    exact ⟨m + k, (hm k).trans hk⟩

lemma Ends.bind_error (f : α → Prog C R E β) (h : Ends step q s (.error e, s')) :
    Ends step (q.bind f) s (.error e, s') := by
  obtain ⟨n, hn⟩ := h
  exact ⟨n, exec_bind_error f hn⟩

lemma Ends.of_bind {b : β} (h : Ends step (q.bind f) s (.ok b, s')) :
    ∃ a s₁, Ends step q s (.ok a, s₁) ∧ Ends step (f a) s₁ (.ok b, s') := by
  obtain ⟨n, hn⟩ := h
  obtain ⟨m, a, s₁, hq, hf⟩ := exists_exec_of_bind hn
  exact ⟨a, s₁, ⟨m, hq⟩, hf⟩

lemma not_ends_of_loop {body : σ → Prog C R E (σ ⊕ β)} {x : σ} {k : β → Prog C R E α}
    (h : Ends step (body x) s (.ok (.inl x), s)) (r : Except E α × S) :
    ¬ Ends step (.loop body x k) s r := by
  obtain ⟨n, hn⟩ := h
  obtain ⟨m, hm⟩ : ∃ m, ∀ j, (unroll body x k).exec step (m + j) s =
      (Prog.loop body x k).exec step j s := by
    obtain ⟨m, -, hm⟩ := exec_bind_of_ok hn
    exact ⟨m, hm⟩
  rintro ⟨j, hj⟩
  -- one round takes `m + 1` steps and leads to the same state with less to go
  induction j using Nat.strongRecOn with
  | _ j ih =>
    cases j with
    | zero => cases hj
    | succ j =>
      by_cases hlt : j < m
      · have hfull := exec_add hj (m - j)
        rw [show j + 1 + (m - j) = m + 0 + 1 by omega] at hfull
        have hzero : (Prog.loop body x k).exec step 0 s = some r := (hm 0).symm.trans hfull
        cases hzero
      · refine ih (j - m) (by omega) ?_
        rw [show j + 1 = m + (j - m) + 1 by omega] at hj
        exact (hm (j - m)).symm.trans hj

lemma Ends.invariant {I : S → Prop} (hI : ∀ c s, I s → I (step c s).2) (h : Ends step q s r)
    (h₀ : I s) : I r.2 := by
  obtain ⟨n, hn⟩ := h
  induction n generalizing q s with
  | zero =>
    cases q with
    | ret a | fail e =>
      cases hn
      exact h₀
    | call c k | loop body x k => cases hn
  | succ n ih =>
    cases q with
    | ret a | fail e =>
      cases hn
      exact h₀
    | call c k => exact ih (hI c s h₀) hn
    | loop body x k => exact ih h₀ hn

/-! ## Partial correctness -/

/-- Whenever the program returns, `Q` holds. -/
def Gives (step : (c : C) → S → R c × S) (q : Prog C R E α) (s : S) (Q : α → S → Prop) : Prop :=
  ∀ a s', Ends step q s (.ok a, s') → Q a s'

lemma Ends.gives {Q : α → S → Prop} (h : Ends step q s (.ok a, s')) (hQ : Q a s') :
    Gives step q s Q := by
  intro b s'' hb
  obtain ⟨hab, rfl⟩ := Prod.mk.inj (h.unique hb)
  exact Except.ok.inj hab ▸ hQ

lemma Ends.gives_error (h : Ends step q s (.error e, s')) (Q : α → S → Prop) :
    Gives step q s Q := by
  intro b s'' hb
  cases (Prod.mk.inj (h.unique hb)).1

lemma Gives.bind {P : α → S → Prop} {Q : β → S → Prop} (h : Gives step q s P)
    (hf : ∀ a s', P a s' → Gives step (f a) s' Q) : Gives step (q.bind f) s Q := by
  intro b s' hb
  obtain ⟨a, s₁, hq, hfa⟩ := hb.of_bind
  exact hf a s₁ (h a s₁ hq) b s' hfa

lemma gives_bind {Q : β → S → Prop} (h : Ends step q s (.ok a, s')) :
    Gives step (q.bind f) s Q ↔ Gives step (f a) s' Q :=
  forall₂_congr fun _ _ => imp_congr_left (ends_bind h)

end UnixPrograms.Prog
