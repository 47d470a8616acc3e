import Mathlib.Data.List.Nodup

/-!
# Doubly linked lists

A doubly linked list with pointers to its ends is a ring with a further node `b`, so that its ends
are like its middle.  `Path nxt prv x l y` says that the links lead from `x` through `l` to `y` and
back; paths are cut and joined (`path_append`) and their ends moved.
-/

namespace UnixPrograms

open List

variable {α : Type} {nxt prv nxt' prv' : α → α}

/-- The links lead from `x` through the list to `y`, and back. -/
def Path (nxt prv : α → α) : α → List α → α → Prop
  | x, [], y => nxt x = y ∧ prv y = x
  | x, a :: l, y => nxt x = a ∧ prv a = x ∧ Path nxt prv a l y

variable {x y : α} {l : List α}

lemma path_append {a : α} {l₁ l₂ : List α} :
    Path nxt prv x (l₁ ++ a :: l₂) y ↔ Path nxt prv x l₁ a ∧ Path nxt prv a l₂ y := by
  induction l₁ generalizing x with
  | nil => simp [Path, and_assoc]
  | cons c l₁ ih => simp [Path, ih, and_assoc]

section

variable (h : Path nxt prv x l y)
include h

lemma Path.congr (hn : ∀ u ∈ x :: l, nxt' u = nxt u)
    (hp : ∀ u ∈ l ++ [y], prv' u = prv u) : Path nxt' prv' x l y := by
  induction l generalizing x with
  | nil => exact ⟨(hn x (by simp)).trans h.1, (hp y (by simp)).trans h.2⟩
  | cons a l ih =>
    obtain ⟨hx, ha, hl⟩ := h
    refine ⟨(hn x (by simp)).trans hx, (hp a (by simp)).trans ha, ih hl ?_ ?_⟩
    · exact fun u hu => hn u (mem_cons_of_mem x hu)
    · exact fun u hu => hp u (mem_cons_of_mem a hu)

lemma Path.prv_mem : prv y ∈ x :: l := by
  induction l generalizing x with
  | nil => simp [h.2]
  | cons a l ih => exact mem_cons_of_mem x (ih h.2.2)

lemma Path.nxt_mem : nxt x ∈ l ++ [y] := by
  cases l with
  | nil | cons a l => simp [h.1]

lemma Path.finish {y' : α} (hnodup : (x :: l).Nodup)
    (hend : nxt' (prv y) = y') (hback : prv' y' = prv y)
    (hn : ∀ u ∈ x :: l, u ≠ prv y → nxt' u = nxt u) (hp : ∀ u ∈ l, prv' u = prv u) :
    Path nxt' prv' x l y' := by
  induction l generalizing x with
  | nil =>
    rw [h.2] at hend hback
    exact ⟨hend, hback⟩
  | cons a l ih =>
    obtain ⟨hx, ha, hl⟩ := h
    -- the last node is further on
    have hne : x ≠ prv y := fun heq => (nodup_cons.mp hnodup).1 (heq ▸ hl.prv_mem)
    refine ⟨(hn x (by simp) hne).trans hx, (hp a (by simp)).trans ha,
      ih hl (nodup_cons.mp hnodup).2 ?_ ?_⟩
    · exact fun u hu => hn u (mem_cons_of_mem x hu)
    · exact fun u hu => hp u (mem_cons_of_mem a hu)

lemma Path.start {x' : α} (hnodup : (l ++ [y]).Nodup)
    (hstart : nxt' x' = nxt x) (hback : prv' (nxt x) = x') (hn : ∀ u ∈ l, nxt' u = nxt u)
    (hp : ∀ u ∈ l ++ [y], u ≠ nxt x → prv' u = prv u) : Path nxt' prv' x' l y := by
  cases l with
  | nil =>
    rw [h.1] at hstart hback
    exact ⟨hstart, hback⟩
  | cons a l =>
    obtain ⟨hx, -, hl⟩ := h
    rw [hx] at hstart hback hp
    refine ⟨hstart, hback, hl.congr hn fun u hu => hp u (mem_cons_of_mem a hu) ?_⟩
    rintro rfl
    exact (nodup_cons.mp hnodup).1 hu

end

/-- A list whose ends are linked through the node `b`. -/
structure Ring (nxt prv : α → α) (b : α) (l : List α) : Prop where
  path : Path nxt prv b l b
  nodup : (b :: l).Nodup

namespace Ring

variable {b a : α} {l l₁ l₂ : List α}

lemma nodup_append (h : Ring nxt prv b l) : (l ++ [b]).Nodup :=
  (perm_append_singleton b l).nodup_iff.mpr h.nodup

lemma nxt_eq_iff (h : Ring nxt prv b l) : nxt b = b ↔ l = [] := by
  cases l with
  | nil => simp [h.path.1]
  | cons a l =>
    have hne : a ≠ b := fun heq => (nodup_cons.mp h.nodup).1 (by simp [heq])
    simp [h.path.1, hne]

lemma concat (h : Ring nxt prv b l) (ha : a ∉ b :: l) (hend : nxt' (prv b) = a)
    (hback : prv' a = prv b) (hn : nxt' a = b) (hp : prv' b = a)
    (hns : ∀ u ∈ b :: l, u ≠ prv b → nxt' u = nxt u) (hps : ∀ u ∈ l, prv' u = prv u) :
    Ring nxt' prv' b (l ++ [a]) where
  path := path_append.mpr ⟨h.path.finish h.nodup hend hback hns hps, hn, hp⟩
  nodup := by
    rw [← cons_append]
    exact (perm_append_singleton a (b :: l)).nodup_iff.mpr (nodup_cons.mpr ⟨ha, h.nodup⟩)

lemma cons (h : Ring nxt prv b l) (ha : a ∉ b :: l) (hstart : nxt' a = nxt b)
    (hback : prv' (nxt b) = a) (hn : nxt' b = a) (hp : prv' a = b)
    (hns : ∀ u ∈ l, nxt' u = nxt u) (hps : ∀ u ∈ l ++ [b], u ≠ nxt b → prv' u = prv u) :
    Ring nxt' prv' b (a :: l) where
  path := ⟨hn, hp, h.path.start h.nodup_append hstart hback hns hps⟩
  nodup := (Perm.swap a b l).nodup_iff.mpr (nodup_cons.mpr ⟨ha, h.nodup⟩)

lemma remove (h : Ring nxt prv b (l₁ ++ a :: l₂)) (hnxt : nxt' (prv a) = nxt a)
    (hprv : prv' (nxt a) = prv a) (hns : ∀ u, u ≠ prv a → nxt' u = nxt u)
    (hps : ∀ u, u ≠ nxt a → prv' u = prv u) : Ring nxt' prv' b (l₁ ++ l₂) := by
  have hnodup : (b :: (l₁ ++ l₂)).Nodup :=
    h.nodup.sublist ((sublist_cons_self a l₂).append_left l₁ |>.cons_cons b)
  obtain ⟨hto, hfrom⟩ := path_append.mp h.path
  have hl₁ : (b :: l₁).Nodup := hnodup.sublist ((sublist_append_left l₁ l₂).cons_cons b)
  have hlast : prv a ∈ b :: l₁ := hto.prv_mem
  refine ⟨?_, hnodup⟩
  cases l₂ with
  | nil =>
    rw [hfrom.1] at hnxt hprv hps
    rw [append_nil]
    refine hto.finish hl₁ hnxt hprv (fun u _ hu => hns u hu) fun u hu => hps u ?_
    rintro rfl
    exact (nodup_cons.mp hl₁).1 hu
  | cons c l₂ =>
    obtain ⟨hn, -, hrest⟩ := hfrom
    rw [hn] at hnxt hprv hps
    -- the nodes in front, the node `c`, the nodes behind it and `b` are all different
    have hfront : ∀ u ∈ b :: l₁, u ∉ c :: l₂ := by grind
    have hbehind : c ∉ l₂ ++ [b] := by grind
    refine path_append.mpr ⟨?_, ?_⟩
    · refine hto.finish hl₁ hnxt hprv (fun u _ hu => hns u hu) fun u hu => hps u ?_
      rintro rfl
      exact hfront u (mem_cons_of_mem b hu) mem_cons_self
    · refine hrest.congr (fun u hu => hns u ?_) fun u hu => hps u ?_
      · rintro rfl
        exact hfront _ hlast hu
      · rintro rfl
        exact hbehind hu

end Ring

end UnixPrograms
