import UnixPrograms.Lib.Files
import Mathlib.Data.List.Basic

/-!
# Histories of calls

A history is linearizable if its calls can be put in an order in which they could have been made one
after the other, and in which no call stands before one that had returned before it began.
-/

namespace UnixPrograms

open List

open Function (update)

variable {ι F E O V M : Type}

/-! ## Calls one after the other -/

def seqRun (spec : M → O → V × M) (m : M) : List O → List V × M
  | [] => ([], m)
  | o :: os =>
    let rest := seqRun spec (spec m o).2 os
    ((spec m o).1 :: rest.1, rest.2)

lemma seqRun_concat {spec : M → O → V × M} {m m' m'' : M} {os : List O} {vs : List V} {o : O}
    {v : V}
    (h : seqRun spec m os = (vs, m')) (ho : spec m' o = (v, m'')) :
    seqRun spec m (os ++ [o]) = (vs ++ [v], m'') := by
  induction os generalizing m vs with
  | nil =>
    cases h
    simp only [nil_append, seqRun, ho]
  | cons o' os ih =>
    obtain ⟨rfl, rfl⟩ := Prod.mk.inj h
    rw [cons_append, seqRun, ih rfl]
    rfl

lemma seqRun_append (spec : M → O → V × M) (m : M) (os os' : List O) :
    seqRun spec m (os ++ os') = ((seqRun spec m os).1 ++ (seqRun spec (seqRun spec m os).2 os').1,
      (seqRun spec (seqRun spec m os).2 os').2) := by
  induction os generalizing m with
  | nil => rfl
  | cons o os ih =>
    rw [cons_append, seqRun, ih]
    rfl

lemma length_seqRun (spec : M → O → V × M) (m : M) (os : List O) :
    (seqRun spec m os).1.length = os.length := by
  induction os generalizing m with
  | nil => rfl
  | cons o os ih => rw [seqRun, length_cons, length_cons, ih]

/-! ## Histories -/

structure Completed (ι O V : Type) where
  proc : ι
  op : O
  val : V
  began : ℕ
  ended : ℕ

/-- The number of events so far, the event at which the last call of each process began, and the
calls that have returned, in the order in which they did. -/
structure History (ι O V : Type) where
  now : ℕ
  began : ι → ℕ
  done : List (Completed ι O V)

def History.add [DecidableEq ι] (H : History ι O V) : Event ι F E O V → History ι O V
  | .call p _ => { H with now := H.now + 1, began := update H.began p H.now }
  | .ret p o v => { H with now := H.now + 1, done := H.done ++ [⟨p, o, v, H.began p, H.now⟩] }
  | .sys .. => { H with now := H.now + 1 }
  | .abort .. => { H with now := H.now + 1 }

def history [DecidableEq ι] (evs : List (Event ι F E O V)) : History ι O V :=
  evs.foldl .add ⟨0, fun _ => 0, []⟩

/-- The calls returned what they would one after another, in an order that respects time. -/
def Linearizable [DecidableEq ι] (spec : M → O → V × M) (m : M) (evs : List (Event ι F E O V)) :
    Prop :=
  ∃ (order : List (Completed ι O V)) (m' : M), order.Perm (history evs).done ∧
    order.Pairwise (fun x y => ¬ y.ended < x.began) ∧
    seqRun spec m (order.map Completed.op) = (order.map Completed.val, m')

structure History.Timed (H : History ι O V) : Prop where
  began : ∀ p, H.began p ≤ H.now
  done : ∀ x ∈ H.done, x.began ≤ x.ended ∧ x.ended < H.now
  order : H.done.Pairwise fun x y => x.ended < y.ended

lemma History.Timed.add [DecidableEq ι] {H : History ι O V} (hH : H.Timed) (ev : Event ι F E O V) :
    (H.add ev).Timed := by
  have hlater : ∀ x ∈ H.done, x.began ≤ x.ended ∧ x.ended < H.now + 1 := fun x hx =>
    ⟨(hH.done x hx).1, Nat.lt_succ_of_lt (hH.done x hx).2⟩
  have hbegan : ∀ p, H.began p ≤ H.now + 1 := fun p => Nat.le_succ_of_le (hH.began p)
  cases ev with
  | call p o =>
    refine ⟨fun q => ?_, hlater, hH.order⟩
    change update H.began p H.now q ≤ H.now + 1
    by_cases hq : q = p
    · rw [hq, Function.update_self]
      exact Nat.le_succ _
    · rw [Function.update_of_ne hq]
      exact hbegan q
  | sys p c r | abort p o e => exact ⟨hbegan, hlater, hH.order⟩
  | ret p o v =>
    refine ⟨hbegan, fun x hx => ?_, ?_⟩
    · rcases mem_append.mp hx with hx | hx
      · exact hlater x hx
      · rw [mem_singleton.mp hx]
        exact ⟨hH.began p, Nat.lt_succ_self _⟩
    · refine pairwise_append.mpr ⟨hH.order, pairwise_singleton .., fun x hx y hy => ?_⟩
      rw [mem_singleton.mp hy]
      exact (hH.done x hx).2

lemma timed_history [DecidableEq ι] (evs : List (Event ι F E O V)) : (history evs).Timed := by
  have hfold : ∀ H : History ι O V, H.Timed → (evs.foldl .add H).Timed := by
    induction evs with
    | nil => exact fun H hH => hH
    | cons ev evs ih => exact fun H hH => ih _ (hH.add ev)
  exact hfold _ ⟨fun _ => Nat.le_refl _, nofun, List.Pairwise.nil⟩

/-! ## Returns -/

def Event.returned : Event ι F E O V → Option (O × V)
  | .ret _ o v => some (o, v)
  | _ => none

def returns (evs : List (Event ι F E O V)) : List (O × V) := evs.filterMap Event.returned

lemma returns_append (evs evs' : List (Event ι F E O V)) :
    returns (evs ++ evs') = returns evs ++ returns evs' := filterMap_append

lemma map_done_history [DecidableEq ι] (evs : List (Event ι F E O V)) :
    (history evs).done.map (fun x => (x.op, x.val)) = returns evs := by
  have hfold : ∀ H : History ι O V, (evs.foldl .add H).done.map (fun x => (x.op, x.val)) =
      H.done.map (fun x => (x.op, x.val)) ++ returns evs := by
    induction evs with
    | nil => exact fun H => (append_nil _).symm
    | cons ev evs ih =>
      intro H
      rw [foldl_cons, ih]
      cases ev <;> simp [History.add, returns, filterMap_cons, Event.returned]
  exact hfold _

lemma linearizable_of_returns [DecidableEq ι] {spec : M → O → V × M} {m m' : M}
    {evs : List (Event ι F E O V)}
    (h : seqRun spec m ((returns evs).map Prod.fst) = ((returns evs).map Prod.snd, m')) :
    Linearizable spec m evs := by
  have hH := timed_history evs
  refine ⟨(history evs).done, m', List.Perm.refl _, ?_, ?_⟩
  · refine hH.order.imp_of_mem fun {x y} hx hy hxy => ?_
    have hbegan := (hH.done x hx).1
    omega
  · rw [← map_done_history, map_map, map_map] at h
    exact h

end UnixPrograms
