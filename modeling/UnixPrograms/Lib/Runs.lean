import Mathlib.Data.Nat.Notation
import Mathlib.Logic.Basic

/-!
# Runs of a machine

`step s l` is the state after the action `l`, or `none` if `l` is not possible in `s`.  The choices
of the environment are part of the action.  `RunWhen step C s₀ ls s` says that the actions `ls` lead
from `s₀` to `s`, each of them meeting the condition `C`.
-/

namespace UnixPrograms

variable {σ L : Type}

/-- The runs from `s₀` in which every action meets the condition `C` in the state before it. -/
inductive RunWhen (step : σ → L → Option σ) (C : σ → L → Prop) (s₀ : σ) : List L → σ → Prop
  | nil : RunWhen step C s₀ [] s₀
  | snoc {ls : List L} {s s' : σ} {l : L} (hrun : RunWhen step C s₀ ls s)
      (hstep : step s l = some s') (hC : C s l) : RunWhen step C s₀ (ls ++ [l]) s'

/-- A run from `s₀` with the labels. -/
def RunFrom (step : σ → L → Option σ) (s₀ : σ) : List L → σ → Prop :=
  RunWhen step (fun _ _ => True) s₀

def replay (step : σ → L → Option σ) : σ → List L → Option σ
  | s, [] => some s
  | s, l :: ls => (step s l).bind fun s' => replay step s' ls

variable {step : σ → L → Option σ} {C C' : σ → L → Prop} {s₀ s s' : σ} {l : L} {ls : List L}

lemma RunWhen.invariant (hrun : RunWhen step C s₀ ls s) {I : σ → Prop} (h₀ : I s₀)
    (hstep : ∀ s l s', I s → step s l = some s' → C s l → I s') : I s := by
  induction hrun with
  | nil => exact h₀
  | snoc _ hst hC ih => exact hstep _ _ _ ih hst hC

lemma RunWhen.append {ls' : List L} (hrun : RunWhen step C s₀ ls s)
    (hrun' : RunWhen step C s ls' s') : RunWhen step C s₀ (ls ++ ls') s' := by
  induction hrun' with
  | nil => simpa using hrun
  | snoc _ hst hC ih =>
    rw [← List.append_assoc]
    exact ih.snoc hst hC

lemma runFrom_of_replay (h : replay step s₀ ls = some s) : RunFrom step s₀ ls s := by
  induction ls generalizing s₀ with
  | nil =>
    obtain rfl := Option.some.inj h
    exact .nil
  | cons l ls ih =>
    obtain ⟨s₁, hs₁, hrest⟩ := Option.bind_eq_some_iff.mp h
    have hone : RunFrom step s₀ [l] s₁ := RunWhen.nil.snoc hs₁ trivial
    exact hone.append (ih hrest)

lemma replay_append (step : σ → L → Option σ) (s : σ) (ls ls' : List L) :
    replay step s (ls ++ ls') = (replay step s ls).bind fun t => replay step t ls' := by
  induction ls generalizing s with
  | nil => rfl
  | cons l ls ih =>
    rw [List.cons_append, replay, replay, Option.bind_assoc]
    exact congrArg _ (funext fun t => ih t)

lemma exists_runFrom (step : σ → L → Option σ) (s₀ : σ) (ls : List L) (P : σ → Prop)
    [DecidablePred P] (h : (replay step s₀ ls).map (fun s => decide (P s)) = some true) :
    ∃ s, RunFrom step s₀ ls s ∧ P s := by
  obtain ⟨s, hs, hP⟩ := Option.map_eq_some_iff.mp h
  exact ⟨s, runFrom_of_replay hs, of_decide_eq_true hP⟩

/-- A machine that goes on only while the condition can be seen to hold. -/
def guarded (step : σ → L → Option σ) (c : σ → L → Bool) (s : σ) (l : L) : Option σ :=
  if c s l then step s l else none

lemma runWhen_guarded_iff {c : σ → L → Bool} :
    RunWhen (guarded step c) C s₀ ls s ↔
      RunWhen step (fun s l => c s l = true ∧ C s l) s₀ ls s := by
  constructor
  · intro h
    induction h with
    | nil => exact .nil
    | snoc _ hst hC ih =>
      rw [guarded] at hst
      split at hst
      · exact ih.snoc hst ⟨‹_›, hC⟩
      · cases hst
  · intro h
    induction h with
    | nil => exact .nil
    | snoc _ hst hC ih => exact ih.snoc (by rw [guarded, if_pos hC.1, hst]) hC.2

lemma RunWhen.mono (h : RunWhen step C s₀ ls s) (hC : ∀ s l, C s l → C' s l) :
    RunWhen step C' s₀ ls s := by
  induction h with
  | nil => exact .nil
  | snoc _ hst h ih => exact ih.snoc hst (hC _ _ h)

lemma runWhen_of_guarded {c : σ → L → Bool} (hc : ∀ s l, c s l = true → C s l)
    (h : RunFrom (guarded step c) s₀ ls s) : RunWhen step C s₀ ls s :=
  (runWhen_guarded_iff.mp h).mono fun s l hs => hc s l hs.1

lemma exists_runWhen (step : σ → L → Option σ) (C : σ → L → Prop) [∀ s l, Decidable (C s l)]
    (s₀ : σ) (ls : List L) (P : σ → Prop) [DecidablePred P]
    (h : (replay (guarded step fun s l => decide (C s l)) s₀ ls).map (fun s => decide (P s)) =
      some true) : ∃ s, RunWhen step C s₀ ls s ∧ P s := by
  obtain ⟨s, hrun, hP⟩ := exists_runFrom _ _ _ _ h
  exact ⟨s, runWhen_of_guarded (fun _ _ => of_decide_eq_true) hrun, hP⟩

/-! ## What holds throughout a run -/

/-- The property holds in every state of the run. -/
def Throughout (step : σ → L → Option σ) (P : σ → Prop) (s₀ : σ) (ls : List L) (s : σ) : Prop :=
  P s₀ ∧ RunWhen step (fun s l => ∀ s', step s l = some s' → P s') s₀ ls s

/-- The property holds throughout a run if and only if its actions meet the condition `C`: then an
invariant is kept that implies it, and the first action that does not meet `C` breaks it. -/
lemma throughout_iff {I P : σ → Prop} (h₀ : I s₀) (hP : ∀ s, I s → P s)
    (hkeep : ∀ s l s', I s → step s l = some s' → C s l → I s')
    (hbreak : ∀ s l s', I s → step s l = some s' → ¬ C s l → ¬ P s') :
    Throughout step P s₀ ls s ↔ RunWhen step C s₀ ls s := by
  constructor
  · rintro ⟨-, hrun⟩
    suffices h : I s ∧ RunWhen step C s₀ ls s from h.2
    induction hrun with
    | nil => exact ⟨h₀, .nil⟩
    | @snoc ls s s' l _ hst hP' ih =>
      obtain ⟨hI, hrun⟩ := ih
      have hC : C s l :=
        Classical.byContradiction fun hC => hbreak s l s' hI hst hC (hP' s' hst)
      exact ⟨hkeep s l s' hI hst hC, hrun.snoc hst hC⟩
  · intro hrun
    suffices h : I s ∧ RunWhen step (fun s l => ∀ s', step s l = some s' → P s') s₀ ls s from
      ⟨hP s₀ h₀, h.2⟩
    induction hrun with
    | nil => exact ⟨h₀, .nil⟩
    | @snoc ls s s' l _ hst hC ih =>
      obtain ⟨hI, hrun⟩ := ih
      have hI' := hkeep s l s' hI hst hC
      refine ⟨hI', hrun.snoc hst fun t ht => ?_⟩
      rw [hst] at ht
      exact Option.some.inj ht ▸ hP s' hI'

end UnixPrograms
