import Mathlib.Data.Nat.Notation
import Mathlib.Logic.Basic

/-!
# Programs that make system calls

A program of type `Prog C R E α` issues commands `c : C`, gets a reply of type `R c` to each, and
ends with a result or an error.  A loop is a constructor, so that a program is a finite tree.
`Prog.exec` runs a program by itself, with a bound on the number of steps.
-/

namespace UnixPrograms

inductive Prog (C : Type) (R : C → Type) (E : Type) : Type → Type 1
  | ret {α : Type} (a : α) : Prog C R E α
  | fail {α : Type} (e : E) : Prog C R E α
  /-- Issue the command `c` and go on with the reply. -/
  | call {α : Type} (c : C) (k : R c → Prog C R E α) : Prog C R E α
  /-- Run `body` from the state `x`, again and again until it gives a `β`. -/
  | loop {α σ β : Type} (body : σ → Prog C R E (σ ⊕ β)) (x : σ) (k : β → Prog C R E α) :
      Prog C R E α

namespace Prog

variable {C : Type} {R : C → Type} {E α β δ : Type}

/-- Run a program, then another one that depends on its result. -/
protected def bind : Prog C R E α → (α → Prog C R E β) → Prog C R E β
  | .ret a, f => f a
  | .fail e, _ => .fail e
  | .call c k, f => .call c fun r => (k r).bind f
  | .loop body x k, f => .loop body x fun b => (k b).bind f

instance : Monad (Prog C R E) where
  pure := .ret
  bind := Prog.bind

def perform (c : C) : Prog C R E (R c) := .call c .ret

/-- Go on if the condition holds, and end with the error otherwise. -/
def require (p : Prop) [Decidable p] (e : E) : Prog C R E Unit := if p then .ret () else .fail e

/-- Repeat `body` from the state `x` until it gives a result. -/
def repeatFrom {σ : Type} (x : σ) (body : σ → Prog C R E (σ ⊕ β)) : Prog C R E β :=
  .loop body x .ret

def unroll {σ : Type} (body : σ → Prog C R E (σ ⊕ β)) (x : σ) (k : β → Prog C R E α) :
    Prog C R E α :=
  (body x).bind fun
    | .inl y => .loop body y k
    | .inr b => k b

@[simp] lemma ret_bind (a : α) (f : α → Prog C R E β) : (Prog.ret a).bind f = f a := rfl

@[simp] lemma pure_eq_ret (a : α) : (pure a : Prog C R E α) = .ret a := rfl

@[simp] lemma bind_eq (p : Prog C R E α) (f : α → Prog C R E β) : (p >>= f) = p.bind f := rfl

@[simp] lemma fail_bind (e : E) (f : α → Prog C R E β) :
    (Prog.fail e : Prog C R E α).bind f = .fail e := rfl

@[simp] lemma call_bind (c : C) (k : R c → Prog C R E α) (f : α → Prog C R E β) :
    (Prog.call c k).bind f = .call c fun r => (k r).bind f := rfl

@[simp] lemma loop_bind {σ τ : Type} (body : σ → Prog C R E (σ ⊕ τ)) (x : σ) (k : τ → Prog C R E α)
    (f : α → Prog C R E β) : (Prog.loop body x k).bind f = .loop body x fun b => (k b).bind f := rfl

@[simp] lemma perform_bind (c : C) (f : R c → Prog C R E β) :
    (perform c : Prog C R E (R c)).bind f = .call c f := rfl

@[simp] lemma repeatFrom_bind {σ : Type} (x : σ) (body : σ → Prog C R E (σ ⊕ β))
    (f : β → Prog C R E α) : (repeatFrom x body).bind f = .loop body x f := rfl

lemma require_bind_of_true {p : Prop} [Decidable p] (e : E) (h : p) (f : Unit → Prog C R E β) :
    (require p e).bind f = f () := by
  rw [require, if_pos h, ret_bind]

lemma require_bind_of_false {p : Prop} [Decidable p] (e : E) (h : ¬ p)
    (f : Unit → Prog C R E β) : (require p e).bind f = .fail e := by
  rw [require, if_neg h, fail_bind]

@[simp] lemma bind_assoc (p : Prog C R E α) (f : α → Prog C R E β) (g : β → Prog C R E δ) :
    (p.bind f).bind g = p.bind fun a => (f a).bind g := by
  induction p with
  | ret a | fail e => rfl
  | call c k ih => exact congrArg (Prog.call c) (funext fun r => ih r f)
  | loop body x k _ ih => exact congrArg (Prog.loop body x) (funext fun b => ih b f)

@[simp] lemma bind_ret (p : Prog C R E α) : p.bind .ret = p := by
  induction p with
  | ret a | fail e => rfl
  | call c k ih => exact congrArg (Prog.call c) (funext ih)
  | loop body x k _ ih => exact congrArg (Prog.loop body x) (funext ih)

/-! ## Running one program alone -/

def exec {S : Type} (step : (c : C) → S → R c × S) :
    ℕ → Prog C R E α → S → Option (Except E α × S)
  | _, .ret a, s => some (.ok a, s)
  | _, .fail e, s => some (.error e, s)
  | 0, _, _ => none
  | n + 1, .call c k, s => exec step n (k (step c s).1) (step c s).2
  | n + 1, .loop body x k, s => exec step n (unroll body x k) s

section Exec

variable {S : Type} {step : (c : C) → S → R c × S} {n : ℕ} {s s' : S} {q : Prog C R E α}

lemma exec_add {r : Except E α × S} (h : q.exec step n s = some r) (m : ℕ) :
    q.exec step (n + m) s = some r := by
  induction n generalizing q s with
  | zero =>
    cases q with
    | ret a | fail e => simpa [exec] using h
    | call c k | loop body x k => cases h
  | succ n ih =>
    rw [Nat.succ_add]
    cases q with
    | ret a | fail e => simpa [exec] using h
    | call c k | loop body x k => exact ih h

lemma exec_unique {m : ℕ} {r r' : Except E α × S} (h : q.exec step n s = some r)
    (h' : q.exec step m s = some r') : r = r' := by
  have h₁ := exec_add h m
  have h₂ := exec_add h' n
  rw [Nat.add_comm m n, h₁] at h₂
  exact Option.some.inj h₂

lemma unroll_bind {σ τ : Type} (body : σ → Prog C R E (σ ⊕ τ)) (x : σ) (k : τ → Prog C R E α)
    (f : α → Prog C R E β) : (unroll body x k).bind f = unroll body x fun b => (k b).bind f := by
  rw [unroll, bind_assoc, unroll]
  refine congrArg (Prog.bind (body x)) (funext fun y => ?_)
  cases y <;> rfl

lemma exec_bind_of_ok {f : α → Prog C R E β} {a : α} (h : q.exec step n s = some (.ok a, s')) :
    ∃ m ≤ n, ∀ k, (q.bind f).exec step (m + k) s = (f a).exec step k s' := by
  induction n generalizing q s with
  | zero =>
    cases q with
    | ret b =>
      cases h
      exact ⟨0, Nat.le_refl _, fun k => by rw [ret_bind, Nat.zero_add]⟩
    | fail e | call c k | loop body x k => cases h
  | succ n ih =>
    cases q with
    | ret b =>
      cases h
      exact ⟨0, Nat.zero_le _, fun k => by rw [ret_bind, Nat.zero_add]⟩
    | fail e => cases h
    | call c k =>
      obtain ⟨m, hle, hm⟩ := ih h
      refine ⟨m + 1, Nat.succ_le_succ hle, fun j => ?_⟩
      rw [Nat.add_right_comm]
      exact hm j
    | loop body x k =>
      obtain ⟨m, hle, hm⟩ := ih h
      refine ⟨m + 1, Nat.succ_le_succ hle, fun j => ?_⟩
      rw [Nat.add_right_comm, loop_bind, exec, ← unroll_bind]
      exact hm j

lemma exec_bind_eq_none (h : q.exec step n s = none) (f : α → Prog C R E β) :
    (q.bind f).exec step n s = none := by
  induction n generalizing q s with
  | zero =>
    cases q with
    | ret a | fail e => cases h
    | call c k | loop body x k => rfl
  | succ n ih =>
    cases q with
    | ret a | fail e => cases h
    | call c k => exact ih h
    | loop body x k =>
      rw [loop_bind, exec, ← unroll_bind]
      exact ih h

lemma exec_bind_error (f : α → Prog C R E β) {e : E} (h : q.exec step n s = some (.error e, s')) :
    (q.bind f).exec step n s = some (.error e, s') := by
  induction n generalizing q s with
  | zero =>
    cases q with
    | fail e =>
      cases h
      rfl
    | ret b | call c k | loop body x k => cases h
  | succ n ih =>
    cases q with
    | ret b => cases h
    | fail e =>
      cases h
      rfl
    | call c k => exact ih h
    | loop body x k =>
      rw [loop_bind, exec, ← unroll_bind]
      exact ih h

lemma exec_bind {f : α → Prog C R E β} {m : ℕ} {a : α} {r : Except E β × S}
    (h : q.exec step n s = some (.ok a, s')) (h' : (f a).exec step m s' = some r) :
    (q.bind f).exec step (n + m) s = some r := by
  obtain ⟨k, hle, hk⟩ := exec_bind_of_ok (f := f) h
  have hadd := exec_add ((hk m).trans h') (n - k)
  rwa [show k + m + (n - k) = n + m by omega] at hadd

lemma exists_exec_of_bind {f : α → Prog C R E β} {b : β}
    (h : (q.bind f).exec step n s = some (.ok b, s')) :
    ∃ m a s₁, q.exec step m s = some (.ok a, s₁) ∧
      ∃ k, (f a).exec step k s₁ = some (.ok b, s') := by
  match hq : q.exec step n s with
  | none =>
    rw [exec_bind_eq_none hq] at h
    cases h
  | some (.error e, s₁) =>
    rw [exec_bind_error f hq] at h
    cases h
  | some (.ok a, s₁) =>
    obtain ⟨m, -, hm⟩ := exec_bind_of_ok (f := f) hq
    have hadd := exec_add h m
    rw [Nat.add_comm, hm] at hadd
    exact ⟨n, a, s₁, hq, n, hadd⟩

/-! ## Programs that return -/

/-- The program, run by itself from the state `s`, returns a value and leaves a state with the
property `Q`. -/
def Returns (step : (c : C) → S → R c × S) (q : Prog C R E α) (s : S) (Q : α → S → Prop) : Prop :=
  ∃ n a s', q.exec step n s = some (.ok a, s') ∧ Q a s'

namespace Returns

variable {s : S} {Q : α → S → Prop} {q : Prog C R E α}

lemma of_exec {n : ℕ} {out : Except E α × S} (h : Returns step q s Q)
    (hexec : q.exec step n s = some out) : ∃ a, out.1 = .ok a ∧ Q a out.2 := by
  obtain ⟨m, a, s', hm, hQ⟩ := h
  obtain rfl := exec_unique hm hexec
  exact ⟨a, rfl, hQ⟩

lemma ret {a : α} (h : Q a s) : Returns step (.ret a : Prog C R E α) s Q := ⟨0, a, s, rfl, h⟩

lemma mono {Q' : α → S → Prop} (h : Returns step q s Q) (hQ : ∀ a s', Q a s' → Q' a s') :
    Returns step q s Q' := by
  obtain ⟨n, a, s', hn, hs'⟩ := h
  exact ⟨n, a, s', hn, hQ a s' hs'⟩

lemma bind {f : α → Prog C R E β} {Q' : β → S → Prop} (h : Returns step q s Q)
    (hf : ∀ a s', Q a s' → Returns step (f a) s' Q') : Returns step (q.bind f) s Q' := by
  obtain ⟨n, a, s', hn, hs'⟩ := h
  obtain ⟨m, b, s'', hm, hs''⟩ := hf a s' hs'
  exact ⟨n + m, b, s'', exec_bind hn hm, hs''⟩

lemma call {c : C} {k : R c → Prog C R E α}
    (h : Returns step (k (step c s).1) (step c s).2 Q) : Returns step (.call c k) s Q := by
  obtain ⟨n, h⟩ := h
  exact ⟨n + 1, h⟩

lemma loop {σ : Type} {body : σ → Prog C R E (σ ⊕ β)} {x : σ} {k : β → Prog C R E α}
    (h : Returns step (body x) s fun r s' => match r with
      | .inl y => Returns step (.loop body y k) s' Q
      | .inr b => Returns step (k b) s' Q) : Returns step (.loop body x k) s Q := by
  obtain ⟨n, h⟩ := h.bind (f := fun | .inl y => .loop body y k | .inr b => k b) fun r s' hr => by
    cases r <;> exact hr
  exact ⟨n + 1, h⟩

end Returns

/-! ## Programs that may end with an error -/

/-- If the program, run by itself from the state `s`, returns, then with a value and a state that
have the property `Q`. -/
def Ensures (step : (c : C) → S → R c × S) (q : Prog C R E α) (s : S) (Q : α → S → Prop) : Prop :=
  ∀ n a s', q.exec step n s = some (.ok a, s') → Q a s'

lemma Returns.ensures {Q : α → S → Prop} (h : Returns step q s Q) : Ensures step q s Q := by
  intro n a s' hexec
  obtain ⟨b, hb, hQ⟩ := h.of_exec hexec
  cases hb
  exact hQ

namespace Ensures

variable {s : S} {Q : α → S → Prop}

lemma mono {q : Prog C R E α} {Q' : α → S → Prop} (h : Ensures step q s Q)
    (hQ : ∀ a s', Q a s' → Q' a s') : Ensures step q s Q' :=
  fun n a s' hexec => hQ a s' (h n a s' hexec)

lemma bind {q : Prog C R E α} {f : α → Prog C R E β} {Q' : β → S → Prop} (h : Ensures step q s Q)
    (hf : ∀ a s', Q a s' → Ensures step (f a) s' Q') : Ensures step (q.bind f) s Q' := by
  intro n b s' hexec
  obtain ⟨m, a, s₁, hm, k, hk⟩ := exists_exec_of_bind hexec
  exact hf a s₁ (h m a s₁ hm) k b s' hk

lemma require {p : Prop} [Decidable p] {e : E} {f : Unit → Prog C R E α}
    (h : p → Ensures step (f ()) s Q) : Ensures step ((Prog.require p e).bind f) s Q := by
  by_cases hp : p
  · rw [require_bind_of_true e hp]
    exact h hp
  · rw [require_bind_of_false e hp]
    intro n a s' hexec
    cases n <;> cases hexec

end Ensures

end Exec

end Prog

end UnixPrograms
