import UnixPrograms.Lib.Sums
import Mathlib.Algebra.BigOperators.Ring.Finset
import Mathlib.Data.Fintype.BigOperators
import Mathlib.Tactic.Linarith

/-!
# System V semaphores

`semop` performs all of an array of operations or none.  One with `SEM_UNDO` is recorded in the
adjustments of the process, `SETVAL` clears those of all processes, and `exit` applies those of one.
`rest` is the value if all processes exited, which none but plain operations change.  That `semop`
does not go beyond `SEMVMX` is left out.
-/

namespace UnixPrograms

open Function List Option

structure Sembuf where
  semNum : ℕ
  semOp : ℤ
  undo : Bool
  deriving DecidableEq

/-- The greatest value of a member: `SETVAL` fails with `ERANGE` above it. -/
def SEMVMX : ℤ := 32767

structure SemSet (ι : Type) where
  nsems : ℕ
  val : ℕ → ℕ
  adj : ι → ℕ → ℤ

inductive Semop (ι : Type) where
  | done (s : SemSet ι)
  | blocks
  /-- An operation names a member that the set does not have (`EFBIG`). -/
  | efbig

namespace SemSet

variable {ι : Type}

def new (nsems : ℕ) : SemSet ι where
  nsems := nsems
  val _ := 0
  adj _ _ := 0

/-- `semctl` with `SETVAL`: the adjustments of the member are cleared in all processes. -/
def setval (i v : ℕ) (s : SemSet ι) : SemSet ι :=
  { s with
    val := update s.val i v
    adj := fun p => update (s.adj p) i 0 }

variable [DecidableEq ι]

def perform (p : ι) (op : Sembuf) (s : SemSet ι) : Option (SemSet ι) :=
  if op.semOp = 0 then if s.val op.semNum = 0 then some s else none
  else if (s.val op.semNum : ℤ) + op.semOp < 0 then none
  else
    some { s with
      val := update s.val op.semNum ((s.val op.semNum : ℤ) + op.semOp).toNat
      adj := if op.undo then
          update s.adj p
            (update (s.adj p) op.semNum (s.adj p op.semNum - op.semOp))
        else s.adj }

def performAll (p : ι) : List Sembuf → SemSet ι → Option (SemSet ι)
  | [], s => some s
  | op :: ops, s => (s.perform p op).bind (performAll p ops)

def semop (p : ι) (ops : List Sembuf) (s : SemSet ι) : Semop ι :=
  if ops.all (fun op => op.semNum < s.nsems) then
    match s.performAll p ops with
    | some s' => .done s'
    | none => .blocks
  else .efbig

/-- The process exits: its adjustments are applied.  A value does not become negative. -/
def exit (p : ι) (s : SemSet ι) : SemSet ι :=
  { s with
    val := fun i => ((s.val i : ℤ) + s.adj p i).toNat
    adj := update s.adj p fun _ => 0 }

end SemSet

/-! ## What the operations change -/

def Sembuf.change (op : Sembuf) (i : ℕ) : ℤ := if op.semNum = i then op.semOp else 0

def Sembuf.undone (op : Sembuf) (i : ℕ) : ℤ := if op.undo then op.change i else 0

def change (ops : List Sembuf) (i : ℕ) : ℤ := (ops.map fun op => op.change i).sum

def undone (ops : List Sembuf) (i : ℕ) : ℤ := (ops.map fun op => op.undone i).sum

/-- The set `s'` is `s` after the process `p` has added `d` to the values, of which `u` is undone at
exit. -/
structure Changed {ι : Type} (p : ι) (d u : ℕ → ℤ) (s s' : SemSet ι) : Prop where
  nsems : s'.nsems = s.nsems
  val : ∀ i, (s'.val i : ℤ) = s.val i + d i
  adj : ∀ i, s'.adj p i = s.adj p i - u i
  others : ∀ q, q ≠ p → s'.adj q = s.adj q

namespace SemSet

variable {ι : Type} [DecidableEq ι] {p : ι} {s s' : SemSet ι}

lemma changed_perform {op : Sembuf} (h : s.perform p op = some s') :
    Changed p op.change op.undone s s' := by
  unfold perform at h
  split at h
  · rename_i hzero
    have hchange : ∀ i, op.change i = 0 := fun i => by simp [Sembuf.change, hzero]
    have hundone : ∀ i, op.undone i = 0 := fun i => by simp [Sembuf.undone, hchange]
    split at h
    · obtain rfl := some.inj h
      exact ⟨rfl, fun i => by simp [hchange], fun i => by simp [hundone], fun _ _ => rfl⟩
    · cases h
  · split at h
    · cases h
    · rename_i hnonneg
      obtain rfl := some.inj h
      refine ⟨rfl, fun i => ?_, fun i => ?_, fun q hq => ?_⟩
      · by_cases hi : op.semNum = i
        · subst hi
          simp only [update_self, Sembuf.change, if_true]
          omega
        · simp [Sembuf.change, hi, update_of_ne (Ne.symm hi)]
      · cases hu : op.undo with
        | false => simp [Sembuf.undone, hu]
        | true =>
          by_cases hi : op.semNum = i
          · subst hi
            simp [Sembuf.undone, Sembuf.change, hu]
          · simp [Sembuf.undone, Sembuf.change, hu, hi, update_of_ne (Ne.symm hi)]
      · cases hu : op.undo with
        | false => simp
        | true => simp [update_of_ne hq]

variable {ops : List Sembuf}

lemma changed_performAll (h : s.performAll p ops = some s') :
    Changed p (change ops) (undone ops) s s' := by
  induction ops generalizing s with
  | nil =>
    obtain rfl := some.inj h
    exact ⟨rfl, fun i => by simp [change], fun i => by simp [undone], fun _ _ => rfl⟩
  | cons op ops ih =>
    obtain ⟨s₁, hop, hrest⟩ := bind_eq_some_iff.mp h
    have h₁ := changed_perform hop
    have h₂ := ih hrest
    refine ⟨h₂.nsems.trans h₁.nsems, fun i => ?_, fun i => ?_, fun q hq => ?_⟩
    · rw [h₂.val, h₁.val]
      simp only [change, map_cons, sum_cons]
      omega
    · rw [h₂.adj, h₁.adj]
      simp only [undone, map_cons, sum_cons]
      omega
    · rw [h₂.others q hq, h₁.others q hq]

lemma changed_semop (h : s.semop p ops = .done s') : Changed p (change ops) (undone ops) s s' := by
  unfold semop at h
  split at h
  · split at h
    · obtain rfl := Semop.done.inj h
      exact changed_performAll ‹_›
    · cases h
  · cases h

lemma val_eq_zero_of_semop {i : ℕ} {u : Bool} (h : s.semop p (⟨i, 0, u⟩ :: ops) = .done s') :
    s.val i = 0 := by
  unfold semop at h
  split at h
  · split at h
    · rename_i s₁ hall
      obtain ⟨s₂, hop, -⟩ := bind_eq_some_iff.mp hall
      by_contra hne
      simp [perform, hne] at hop
    · cases h
  · cases h

/-! ## What is left when all processes have exited -/

variable [Fintype ι]

/-- The value of the member `i` if all processes exited. -/
def rest (s : SemSet ι) (i : ℕ) : ℤ := s.val i + ∑ p, s.adj p i

omit [DecidableEq ι] in
lemma val_eq (s : SemSet ι) (i : ℕ) : (s.val i : ℤ) = s.rest i - ∑ p, s.adj p i := by
  rw [rest]
  omega

lemma sum_adj (i : ℕ) (hothers : ∀ q, q ≠ p → s'.adj q = s.adj q) :
    ∑ q, s'.adj q i + s.adj p i = ∑ q, s.adj q i + s'.adj p i := by
  have hupdate : s'.adj = update s.adj p (s'.adj p) := by
    funext q
    by_cases hq : q = p
    · rw [hq, update_self]
    · rw [update_of_ne hq, hothers q hq]
  have h := sum_update_add (fun f : ℕ → ℤ => f i) s.adj p (s'.adj p)
  rw [← hupdate] at h
  exact h

lemma rest_of_changed {d u : ℕ → ℤ} (h : Changed p d u s s') (i : ℕ) :
    s'.rest i = s.rest i + (d i - u i) := by
  have hsum := sum_adj i h.others
  have hadj := h.adj i
  have hval := h.val i
  rw [SemSet.rest, SemSet.rest]
  omega

lemma rest_exit {i : ℕ} (h : 0 ≤ (s.val i : ℤ) + s.adj p i) : (s.exit p).rest i = s.rest i := by
  have hothers : ∀ q, q ≠ p → (s.exit p).adj q = s.adj q := fun q hq => update_of_ne hq ..
  have hsum := sum_adj i hothers
  have hadj : (s.exit p).adj p i = 0 := by simp [exit]
  have hval : ((s.exit p).val i : ℤ) = s.val i + s.adj p i := Int.toNat_of_nonneg h
  rw [rest, rest]
  omega

omit [DecidableEq ι] in
lemma rest_setval (s : SemSet ι) (i v j : ℕ) :
    (s.setval i v).rest j = if j = i then (v : ℤ) else s.rest j := by
  by_cases h : j = i
  · subst h
    simp [rest, setval]
  · simp [rest, setval, h]

end SemSet

end UnixPrograms
