import Mathlib.Algebra.BigOperators.Group.Finset.Basic
import Mathlib.Tactic.Abel

/-!
# Sums over all processes

One process moves, the others stay where they are: what this does to a sum over all of them.
-/

namespace UnixPrograms

lemma sum_update_add {ι α M : Type} [Fintype ι] [DecidableEq ι] [AddCommMonoid M] (g : α → M)
    (f : ι → α) (t : ι) (x : α) :
    ∑ i, g (Function.update f t x i) + g (f t) = ∑ i, g (f i) + g x := by
  have hrest : ∑ i ∈ Finset.univ.erase t, g (Function.update f t x i) =
      ∑ i ∈ Finset.univ.erase t, g (f i) :=
    Finset.sum_congr rfl fun i hi => by
      rw [Function.update_of_ne (Finset.ne_of_mem_erase hi)]
  rw [← Finset.add_sum_erase _ _ (Finset.mem_univ t),
    ← Finset.add_sum_erase _ _ (Finset.mem_univ t), hrest, Function.update_self]
  abel

lemma map_finset_sum {ι A B : Type} (g : A → B) (s : Finset ι) (f : ι → Multiset A) :
    (∑ i ∈ s, f i).map g = ∑ i ∈ s, (f i).map g :=
  map_sum (Multiset.mapAddMonoidHom g) f s

end UnixPrograms
