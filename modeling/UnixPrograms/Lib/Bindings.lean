import Mathlib.Data.List.Nodup

/-!
# Lists with keys as maps

A list whose elements have keys stands for a map.  If no key occurs twice, to insert, replace or
remove an element is to update the map at its key.
-/

namespace UnixPrograms

open Function List

variable {α K V : Type} [DecidableEq K] {key : α → K} {val : α → V} {l l₁ l₂ : List α} {a b : α}

omit [DecidableEq K] in
lemma forall_mem_middle {P : α → Prop} :
    (∀ b ∈ l₁ ++ a :: l₂, P b) ↔ P a ∧ ∀ b ∈ l₁ ++ l₂, P b := by
  simp only [perm_middle.mem_iff, mem_cons, forall_eq_or_imp]

/-- The map of a list: the value of the first element with the key. -/
def bindings (key : α → K) (val : α → V) (l : List α) (k : K) : Option V :=
  (l.find? fun a => key a = k).map val

lemma bindings_eq_none {k : K} (h : ∀ a ∈ l, key a ≠ k) : bindings key val l k = none := by
  rw [bindings, Option.map_eq_none_iff, find?_eq_none]
  intro a ha
  simpa using h a ha

omit [DecidableEq K] in
lemma nodup_keys_middle :
    ((l₁ ++ a :: l₂).map key).Nodup ↔
      (∀ b ∈ l₁ ++ l₂, key b ≠ key a) ∧ ((l₁ ++ l₂).map key).Nodup := by
  rw [map_append, map_cons, nodup_middle, nodup_cons, ← map_append]
  simp only [mem_map, not_exists, not_and, ne_eq]

section

variable (h : ∀ b ∈ l₁ ++ l₂, key b ≠ key a)
include h

lemma bindings_middle :
    bindings key val (l₁ ++ a :: l₂) =
      update (bindings key val (l₁ ++ l₂)) (key a) (some (val a)) := by
  funext k
  by_cases hk : k = key a
  · subst hk
    have hnone : l₁.find? (fun b => key b = key a) = none := by
      rw [find?_eq_none]
      intro b hb
      simpa using h b (mem_append_left l₂ hb)
    rw [update_self, bindings, find?_append, hnone, Option.none_or,
      find?_cons_of_pos (by simp), Option.map_some]
  · have hne : key a ≠ k := fun h => hk h.symm
    rw [update_of_ne hk, bindings, bindings, find?_append, find?_append,
      find?_cons_of_neg (by simpa using hne)]

lemma bindings_remove :
    bindings key val (l₁ ++ l₂) =
      update (bindings key val (l₁ ++ a :: l₂)) (key a) none := by
  rw [bindings_middle h, update_idem, update_eq_self_iff.mpr]
  exact (bindings_eq_none h).symm

lemma bindings_replace (hb : key b = key a) :
    bindings key val (l₁ ++ b :: l₂) =
      update (bindings key val (l₁ ++ a :: l₂)) (key a) (some (val b)) := by
  have h' : ∀ c ∈ l₁ ++ l₂, key c ≠ key b := hb ▸ h
  rw [bindings_middle h, bindings_middle h', update_idem, hb]

end

end UnixPrograms
