import Mathlib.Data.Set.Basic

/-!
# Locks

A thread at the point `p` holds the locks `holds p`, and `Owned` says that the locks record the same
owners.  Threads that take their locks in the order of a bounded rank do not deadlock
(`not_deadlocked`).
-/

namespace UnixPrograms

open Function Option

variable {ι L P : Type}

/-! ## Owners -/

section Owners

variable [DecidableEq ι] [DecidableEq L] {holds : P → List L} {owner : L → Option ι}
  {point : ι → P} {t u : ι} {l : L} {p : P}

/-- A lock is owned by the thread that is at a point where it is held. -/
def Owned (holds : P → List L) (owner : L → Option ι) (point : ι → P) : Prop :=
  ∀ t l, owner l = some t ↔ l ∈ holds (point t)

section

variable (h : Owned holds owner point)
include h

omit [DecidableEq ι] [DecidableEq L] in
lemma Owned.unique (ht : l ∈ holds (point t)) (hu : l ∈ holds (point u)) : t = u :=
  some.inj (((h t l).mpr ht).symm.trans ((h u l).mpr hu))

omit [DecidableEq L] in
lemma Owned.move (hp : holds p = holds (point t)) : Owned holds owner (update point t p) := by
  intro u k
  by_cases hut : u = t
  · subst hut
    rw [update_self, hp]
    exact h u k
  · rw [update_of_ne hut]
    exact h u k

lemma Owned.take (hfree : owner l = none) (hp : ∀ k, k ∈ holds p ↔ k = l ∨ k ∈ holds (point t)) :
    Owned holds (update owner l (some t)) (update point t p) := by
  intro u k
  by_cases hut : u = t
  · subst hut
    rw [update_self, hp, ← h u k]
    by_cases hk : k = l
    · simp [hk]
    · simp [hk]
  · rw [update_of_ne hut, ← h u k]
    by_cases hk : k = l
    · subst hk
      rw [update_self, hfree]
      exact ⟨fun ht => absurd (some.inj ht).symm hut, fun hn => (by cases hn)⟩
    · rw [update_of_ne hk]

lemma Owned.drop (hl : l ∈ holds (point t)) (hp : ∀ k, k ∈ holds p ↔ k ≠ l ∧ k ∈ holds (point t)) :
    Owned holds (update owner l none) (update point t p) := by
  intro u k
  by_cases hut : u = t
  · subst hut
    rw [update_self, hp, ← h u k]
    by_cases hk : k = l
    · simp [hk]
    · simp [hk]
  · rw [update_of_ne hut, ← h u k]
    by_cases hk : k = l
    · subst hk
      rw [update_self, (h t k).mpr hl]
      exact ⟨fun hn => (by cases hn), fun ht => absurd (some.inj ht).symm hut⟩
    · rw [update_of_ne hk]

omit [DecidableEq ι] in
lemma Owned.init (hl : ∀ u, l ∉ holds (point u)) : Owned holds (update owner l none) point := by
  intro u k
  by_cases hk : k = l
  · subst hk
    rw [update_self]
    exact ⟨fun hn => (by cases hn), fun hu => absurd hu (hl u)⟩
  · rw [update_of_ne hk]
    exact h u k

end

end Owners

/-! ## Deadlocks -/

variable {waits : ι → Option L} {owner : L → Option ι}

/-- Each thread of a nonempty set waits for a lock that a thread of the set owns. -/
def Deadlocked (waits : ι → Option L) (owner : L → Option ι) (D : Set ι) : Prop :=
  D.Nonempty ∧ ∀ t ∈ D, ∃ l, waits t = some l ∧ ∃ u ∈ D, owner l = some u

/-- A thread that waits for a lock owns only locks of smaller rank. -/
def Ranked (rank : L → ℕ) (waits : ι → Option L) (owner : L → Option ι) : Prop :=
  ∀ t l l', owner l = some t → waits t = some l' → rank l < rank l'

lemma Deadlocked.exists_rank_ge {rank : L → ℕ} {D : Set ι} (hD : Deadlocked waits owner D)
    (hrank : Ranked rank waits owner) (n : ℕ) :
    ∃ t ∈ D, ∃ l, waits t = some l ∧ n ≤ rank l := by
  obtain ⟨⟨t₀, ht₀⟩, hwait⟩ := hD
  induction n with
  | zero =>
    obtain ⟨l, hl, -⟩ := hwait t₀ ht₀
    exact ⟨t₀, ht₀, l, hl, Nat.zero_le _⟩
  | succ n ih =>
    obtain ⟨t, ht, l, hl, hn⟩ := ih
    obtain ⟨l₁, hl₁, u, hu, howner⟩ := hwait t ht
    obtain rfl : l = l₁ := some.inj (hl.symm.trans hl₁)
    obtain ⟨l', hl', -⟩ := hwait u hu
    exact ⟨u, hu, l', hl', Nat.lt_of_le_of_lt hn (hrank u l l' howner hl')⟩

lemma not_deadlocked {rank : L → ℕ} {b : ℕ} (hrank : Ranked rank waits owner)
    (hb : ∀ l, rank l < b) (D : Set ι) : ¬ Deadlocked waits owner D := by
  intro hD
  obtain ⟨t, -, l, -, hl⟩ := hD.exists_rank_ge hrank b
  exact absurd (hb l) (Nat.not_lt.mpr hl)

end UnixPrograms
