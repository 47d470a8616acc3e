import UnixPrograms.Mutex2.Model

/-!
# The hash chains

`Threaded fh foo L` says that from `fh[i]` on the pointers visit the objects `L i` and end with
`NULL`, and no object is on two chains.  On such chains the loops end, and `link` and `unlink` do
what they should.
-/

namespace UnixPrograms.Mutex2

open Function List

variable {fh fh' : ℕ → ℕ} {foo foo' : ℕ → Foo} {L : ℕ → List ℕ} {i idx fp : ℕ} {os ps : List ℕ}

/-- Where the pointers of the chain `i` lead.  The pointer `fh[i]` is taken for a cell at the
address 0, at which there is no object. -/
def next (fh : ℕ → ℕ) (foo : ℕ → Foo) (i x : ℕ) : ℕ := if x = 0 then fh i else (foo x).fNext

/-- The chains of the hash table, without repetitions. -/
structure Threaded (fh : ℕ → ℕ) (foo : ℕ → Foo) (L : ℕ → List ℕ) : Prop where
  linked : ∀ i, Linked (fun x v => next fh foo i x = v) 0 (L i)
  nodup : ∀ i, (L i).Nodup
  disjoint : ∀ i j a, a ∈ L i → a ∈ L j → i = j

variable {x : ℕ}

@[simp] lemma next_zero (fh : ℕ → ℕ) (foo : ℕ → Foo) (i : ℕ) : next fh foo i 0 = fh i := rfl

lemma next_of_ne (hx : x ≠ 0) : next fh foo i x = (foo x).fNext := if_neg hx

lemma ne_zero_of_linked {cell : ℕ → ℕ → Prop} (h : Linked cell x os) : 0 ∉ os := by
  induction os generalizing x with
  | nil => exact not_mem_nil
  | cons o os ih =>
    intro hmem
    obtain h0 | h0 := mem_cons.mp hmem
    · exact h.2.1 h0.symm
    · exact ih h.2.2 h0

lemma Threaded.nodup_cons (h : Threaded fh foo L) (i : ℕ) : (0 :: L i).Nodup :=
  List.nodup_cons.mpr ⟨ne_zero_of_linked (h.linked i), h.nodup i⟩

lemma Threaded.ne_zero (h : Threaded fh foo L) (hmem : fp ∈ L i) : fp ≠ 0 := by
  rintro rfl
  exact ne_zero_of_linked (h.linked i) hmem

lemma Threaded.fh_eq (h : Threaded fh foo L) (i : ℕ) : fh i = headAddr (L i) :=
  (h.linked i).cell_head

lemma Threaded.congr (h : Threaded fh foo L) (hnext : ∀ a, (foo' a).fNext = (foo a).fNext) :
    Threaded fh foo' L where
  linked i := (h.linked i).congr fun x _ v hv => by
    unfold next at hv ⊢
    rw [hnext]
    exact hv
  nodup := h.nodup
  disjoint := h.disjoint

/-! ## The loops -/

lemma search_eq {fuel : ℕ} (id : ℤ) (h : Linked (fun x v => next fh foo i x = v) x os)
    (hfuel : os.length < fuel) : search foo id fuel (headAddr os) =
      some ((os.find? fun a => (foo a).fId = id).getD 0) := by
  induction os generalizing x fuel with
  | nil =>
    obtain ⟨fuel, rfl⟩ := Nat.exists_eq_add_of_lt hfuel
    simp [search]
  | cons o os ih =>
    obtain ⟨fuel, rfl⟩ := Nat.exists_eq_succ_of_ne_zero (Nat.ne_of_gt (Nat.zero_lt_of_lt hfuel))
    obtain ⟨-, ho, hrest⟩ := h
    rw [headAddr_cons, search, if_neg ho, List.find?_cons]
    by_cases hid : (foo o).fId = id
    · simp [hid]
    · have hhead : next fh foo i o = headAddr os := hrest.cell_head
      rw [next_of_ne ho] at hhead
      rw [if_neg hid, hhead, ih hrest (Nat.lt_of_succ_lt_succ hfuel)]
      simp [hid]

lemma predecessor_eq {o fuel : ℕ}
    (h : Linked (fun x v => next fh foo i x = v) x (o :: os ++ fp :: ps)) (hnot : fp ∉ o :: os)
    (hfuel : os.length < fuel) : predecessor foo fp fuel o = some (lastCell o os) := by
  induction os generalizing x o fuel with
  | nil =>
    obtain ⟨fuel, rfl⟩ := Nat.exists_eq_succ_of_ne_zero (Nat.ne_of_gt hfuel)
    obtain ⟨-, ho, hfp, -⟩ := h
    rw [next_of_ne ho] at hfp
    rw [predecessor, if_neg ho, if_pos hfp, lastCell_nil]
  | cons b bs ih =>
    obtain ⟨fuel, rfl⟩ := Nat.exists_eq_succ_of_ne_zero (Nat.ne_of_gt (Nat.zero_lt_of_lt hfuel))
    obtain ⟨-, ho, hrest⟩ := h
    have hb : next fh foo i o = b := hrest.1
    rw [next_of_ne ho] at hb
    have hne : b ≠ fp := fun he => hnot (by simp [he])
    rw [predecessor, if_neg ho, hb, if_neg hne]
    exact ih hrest (fun hmem => hnot (mem_cons_of_mem o hmem)) (Nat.lt_of_succ_lt_succ hfuel)

/-! ## Changes -/

section

variable (h : Threaded fh foo L)
include h

lemma Threaded.exchange
    (hown : Linked (fun x v => next fh' foo' idx x = v) 0 os) (hnodup : os.Nodup)
    (hnew : ∀ a ∈ os, ∀ j, a ∈ L j → j = idx)
    (hother : ∀ j, j ≠ idx → ∀ x ∈ 0 :: L j, next fh' foo' j x = next fh foo j x) :
    Threaded fh' foo' (update L idx os) where
  linked := by
    refine (forall_update_iff L fun i l => Linked (fun x v => next fh' foo' i x = v) 0 l).mpr
      ⟨hown, fun j hj => ?_⟩
    exact (h.linked j).congr fun x hx v hv => (hother j hj x hx).trans hv
  nodup := (forall_update_iff L fun _ l => l.Nodup).mpr ⟨hnodup, fun j _ => h.nodup j⟩
  disjoint j k a hj hk := by
    by_cases hjidx : j = idx
    · subst hjidx
      by_cases hkj : k = j
      · exact hkj.symm
      · rw [update_self] at hj
        rw [update_of_ne hkj] at hk
        exact (hnew a hj k hk).symm
    · rw [update_of_ne hjidx] at hj
      by_cases hkidx : k = idx
      · subst hkidx
        rw [update_self] at hk
        exact hnew a hk j hj
      · rw [update_of_ne hkidx] at hk
        exact h.disjoint j k a hj hk

lemma Threaded.link (h0 : fp ≠ 0) (hnew : ∀ i, fp ∉ L i) :
    Threaded (update fh idx fp)
      (update foo fp { foo fp with fNext := fh idx })
      (update L idx (fp :: L idx)) := by
  -- the pointers of the objects that were there stay
  have hstay : ∀ j, ∀ x ∈ L j, next (update fh idx fp)
      (update foo fp { foo fp with fNext := fh idx }) j x = next fh foo j x := by
    intro j x hx
    have hxfp : x ≠ fp := fun he => hnew j (he ▸ hx)
    rw [next_of_ne (h.ne_zero hx), update_of_ne hxfp, next_of_ne (h.ne_zero hx)]
  refine h.exchange ?_ (List.nodup_cons.mpr ⟨hnew idx, h.nodup idx⟩) (fun a ha j hj => ?_)
    fun j hj x hx => ?_
  · have hlinked : Linked (fun x v => next fh foo idx x = v) 0 ([] ++ L idx) := h.linked idx
    refine hlinked.insert h0 ?_ ?_ (fun x hx hx0 v hv => ?_) (h.nodup_cons idx)
    · simp
    · simp only [next_of_ne h0, update_self]
      exact h.fh_eq idx
    · exact (hstay idx x ((mem_cons.mp hx).resolve_left hx0)).trans hv
  · obtain rfl | ha := mem_cons.mp ha
    · exact absurd hj (hnew j)
    · exact h.disjoint j idx a hj ha
  · obtain rfl | hx := mem_cons.mp hx
    · rw [next_zero, next_zero, update_of_ne hj]
    · exact hstay j x hx

lemma Threaded.unlink (hL : L idx = os ++ fp :: ps)
    (hcell : next fh' foo' idx (lastCell 0 os) = (foo fp).fNext)
    (hstay : ∀ x ∈ 0 :: L idx, x ≠ lastCell 0 os → next fh' foo' idx x = next fh foo idx x)
    (hother : ∀ j, j ≠ idx → ∀ x ∈ 0 :: L j, next fh' foo' j x = next fh foo j x) :
    Threaded fh' foo' (update L idx (os ++ ps)) := by
  have hsub : os ++ ps <+ L idx := by
    rw [hL]
    exact List.Sublist.append_left (sublist_cons_self fp ps) os
  refine h.exchange ?_ ((h.nodup idx).sublist hsub)
    (fun a ha j hj => h.disjoint j idx a hj (hsub.subset ha)) hother
  have hlinked := h.linked idx
  rw [hL] at hlinked
  have hfp : fp ≠ 0 := h.ne_zero (i := idx) (by simp [hL])
  have hps : next fh foo idx fp = headAddr ps := hlinked.drop_prefix.2.2.cell_head
  refine hlinked.unlink ?_ (fun x hx hxl v hv => ?_) (hL ▸ h.nodup_cons idx)
  · rw [hcell, ← hps, next_of_ne hfp]
  · exact (hstay x ((hsub.cons_cons 0).subset hx) hxl).trans hv

lemma Threaded.unlink_first (hL : L idx = fp :: ps) :
    Threaded (update fh idx (foo fp).fNext) foo (update L idx ps) := by
  have hL' : L idx = [] ++ fp :: ps := hL
  refine h.unlink hL' ?_ (fun x hx hx0 => ?_) fun j hj x hx => ?_
  · simp
  · rw [next_of_ne hx0, next_of_ne hx0]
  · unfold next
    rw [update_of_ne hj]

lemma Threaded.unlink_after {o : ℕ} (hL : L idx = o :: os ++ fp :: ps) :
    Threaded fh (update foo (lastCell o os) { foo (lastCell o os) with fNext := (foo fp).fNext })
      (update L idx (o :: os ++ ps)) := by
  have hlast : lastCell o os ∈ L idx := by
    rw [hL]
    exact mem_append_left _ (lastCell_mem o os)
  have hlast0 : lastCell o os ≠ 0 := h.ne_zero hlast
  refine h.unlink hL ?_ (fun x hx hxl => ?_) fun j hj x hx => ?_
  · rw [lastCell_cons, next_of_ne hlast0, update_self]
  · rw [lastCell_cons] at hxl
    unfold next
    rw [update_of_ne hxl]
  · have hxl : x ≠ lastCell o os := by
      rintro rfl
      obtain hx | hx := mem_cons.mp hx
      · exact hlast0 hx
      · exact hj (h.disjoint j idx _ hx hlast)
    unfold next
    rw [update_of_ne hxl]

end

lemma unlink_spec {ι : Type} {s : State ι} (h : Threaded s.fh s.foo L)
    (hidx : HASH (s.foo fp).fId = idx) (hmem : fp ∈ L idx)
    (hlen : (L idx).length ≤ s.alloced.card) :
    ∃ fh' foo', unlink s fp = some ({ s with fh := fh', foo := foo' }.record fp .unlink) ∧
      Threaded fh' foo' (update L idx ((L idx).erase fp)) ∧
      ∀ a, (foo' a).fCount = (s.foo a).fCount ∧ (foo' a).fId = (s.foo a).fId := by
  obtain ⟨os, ps, hL⟩ := append_of_mem hmem
  have hnodup := h.nodup idx
  rw [hL] at hnodup
  have hnot : fp ∉ os := fun hos => (disjoint_of_nodup_append hnodup) hos (by simp)
  have herase : (L idx).erase fp = os ++ ps := by
    rw [hL, erase_append_right _ hnot, erase_cons_head]
  have hfh := h.fh_eq idx
  rw [hL] at hfh
  rw [herase]
  cases os with
  | nil =>
    refine ⟨_, s.foo, ?_, h.unlink_first hL, fun a => ⟨rfl, rfl⟩⟩
    simp only [unlink, hidx]
    exact if_pos hfh
  | cons o os =>
    have hne : s.fh idx ≠ fp := by
      rw [hfh]
      exact fun he => hnot (mem_cons.mpr (.inl he.symm))
    have hpred : predecessor s.foo fp s.rounds (s.fh idx) = some (lastCell o os) := by
      rw [hfh]
      refine predecessor_eq (hL ▸ h.linked idx) hnot ?_
      rw [hL, length_append, length_cons] at hlen
      unfold State.rounds
      omega
    refine ⟨s.fh, _, ?_, h.unlink_after hL, fun a => ?_⟩
    · simp only [unlink, hidx]
      rw [if_neg hne, hpred]
      rfl
    · by_cases ha : a = lastCell o os
      · subst ha
        rw [update_self]
        exact ⟨rfl, rfl⟩
      · rw [update_of_ne ha]
        exact ⟨rfl, rfl⟩

end UnixPrograms.Mutex2
