import UnixPrograms.Mutex2.Invariant

/-!
# The life of an object

A step that makes, links, unlinks or frees an object concerns one object and one thread (`Touches`),
which has the only reference or is the only one that has `hashlock`; so what the others know is not
affected.
-/

namespace UnixPrograms.Mutex2

open Function

section Lives

variable {ι : Type} [DecidableEq ι] {s s' : State ι} {t u : ι} {a fp : ℕ} {p : Point}

lemma live_iff_of_point (s s' : State ι) (hpoint : s'.point = update s.point t p) :
    Live s' a ↔ a ∈ s'.alloced ∧ (∀ ds, p.keeps ≠ some (a, ds)) ∧
      ∀ u, u ≠ t → ∀ ds, (s.point u).keeps ≠ some (a, ds) := by
  unfold Live
  rw [hpoint]
  exact and_congr_right fun _ =>
    forall_update_iff s.point fun _ q => ∀ ds, q.keeps ≠ some (a, ds)

variable [Fintype ι]

/-- A step of the thread `t` to the point `p` that concerns no other object than `fp`. -/
structure Touches (s s' : State ι) (t : ι) (p : Point) (fp : ℕ) : Prop where
  point : s'.point = Function.update s.point t p
  alloced : ∀ a, a ≠ fp → (a ∈ s'.alloced ↔ a ∈ s.alloced)
  foo : ∀ a, a ≠ fp → (s'.foo a).fCount = (s.foo a).fCount ∧ (s'.foo a).fId = (s.foo a).fId
  deeds : ∀ a, a ≠ fp → s'.deeds a = s.deeds a
  refs : ∀ u a, u ≠ t ∨ a ≠ fp → s'.refs u a = s.refs u a
  owner : ∀ a, a ≠ fp → s'.owner (.fLock a) = s.owner (.fLock a)
  keeps : ∀ a ds, p.keeps = some (a, ds) → a = fp
  kept : ∀ a ds, (s.point t).keeps = some (a, ds) → a = fp

namespace Touches

lemma outstanding_eq (h : Touches s s' t p fp) (ha : a ≠ fp) : outstanding s' a = outstanding s a :=
  Finset.sum_congr rfl fun u _ => h.refs u a (.inr ha)

omit [Fintype ι] in
lemma live_iff (h : Touches s s' t p fp) (ha : a ≠ fp) : Live s' a ↔ Live s a := by
  have hp : ∀ ds, p.keeps ≠ some (a, ds) := fun ds hds => ha (h.keeps a ds hds)
  have ht : ∀ ds, (s.point t).keeps ≠ some (a, ds) := fun ds hds => ha (h.kept a ds hds)
  rw [live_iff_of_point s s' h.point,
    live_iff_of_point s s (update_eq_self t s.point).symm, h.alloced a ha]
  exact and_congr_right fun _ => and_congr_left fun _ => iff_of_true hp ht

omit [Fintype ι] in
lemma onChains {L L' : ℕ → List ℕ} (h : Touches s s' t p fp) (hmem : OnChains s L)
    (hother : ∀ i a, a ≠ fp → (a ∈ L' i ↔ a ∈ L i))
    (hfp : ∀ i, fp ∈ L' i ↔ Live s' fp ∧ HASH (s'.foo fp).fId = i) : OnChains s' L' := by
  intro i a
  by_cases ha : a = fp
  · subst ha
    exact hfp i
  · rw [hother i a ha, hmem i a, h.live_iff ha, (h.foo a ha).2]

lemma inv (h : Touches s s' t p fp) (hs : Inv s) (howned : Owned Point.holds s'.owner s'.point)
    (hkeeps : ∀ u, u ≠ t → ∀ ds, (s.point u).keeps ≠ some (fp, ds))
    (hfound : ∀ u, u ≠ t → ∀ id, (s.point u).found ≠ some (id, fp))
    (hheld : ∀ u, u ≠ t → .fLock fp ∈ (s.point u).holds → fp ∈ s'.alloced)
    (hobject : Object s' fp) (hthread : Thread s' t p)
    (hchains : ∃ L, Threaded s'.fh s'.foo L ∧ OnChains s' L) : Inv s' := by
  refine ⟨howned, fun a => ?_, ?_, hchains⟩
  · by_cases ha : a = fp
    · subst ha
      exact hobject
    · exact (hs.object a).frame (h.alloced a ha) (h.outstanding_eq ha) (h.foo a ha).1
        (h.live_iff ha).mp (h.deeds a ha)
  · rw [h.point]
    refine (forall_update_iff s.point fun u q => Thread s' u q).mpr
      ⟨hthread, fun u hu => (hs.thread u).frame ?_ ?_ ?_ ?_ ?_⟩
    · intro a ha hmem
      by_cases hafp : a = fp
      · subst hafp
        exact hheld u hu ha
      · exact (h.alloced a hafp).mpr hmem
    · exact fun a _ => (h.refs u a (.inl hu)).ge
    · intro a ds ha
      have hafp : a ≠ fp := by
        rintro rfl
        exact hkeeps u hu ds ha
      exact ⟨h.outstanding_eq hafp, h.deeds a hafp⟩
    · intro a ha hfree
      have hafp : a ≠ fp := by
        rintro rfl
        exact hkeeps u hu _ (by rw [ha]; rfl)
      rwa [h.owner a hafp]
    · intro id a ha hlive
      have hafp : a ≠ fp := by
        rintro rfl
        exact hfound u hu id ha
      exact ⟨(h.live_iff hafp).mpr hlive, (h.foo a hafp).2⟩

end Touches

omit [DecidableEq ι] in
lemma Inv.found_ne (h : Inv s) (hnot : ¬ Live s fp) (u : ι) (id : ℤ) :
    (s.point u).found ≠ some (id, fp) :=
  fun hu => hnot ((h.thread u).found id fp hu).1

lemma Touches.chains_of_not_live (h : Touches s s' t p fp) (hs : Inv s) (hnot : ¬ Live s fp)
    (hnot' : ¬ Live s' fp) (hfh : s'.fh = s.fh) (hnext : ∀ a, (s'.foo a).fNext = (s.foo a).fNext) :
    ∃ L, Threaded s'.fh s'.foo L ∧ OnChains s' L := by
  obtain ⟨L, hL, hmem⟩ := hs.chains
  refine ⟨L, hfh ▸ hL.congr hnext, h.onChains hmem (fun _ _ _ => Iff.rfl) fun i => ?_⟩
  exact iff_of_false (fun hfp => hnot ((hmem i fp).mp hfp).1) fun hfp => hnot' hfp.1

lemma Touches.chains_link {idx : ℕ} (h : Touches s s' t p fp) (hs : Inv s) (h0 : fp ≠ 0)
    (hnot : ¬ Live s fp) (hlive : Live s' fp) (hidx : HASH (s'.foo fp).fId = idx)
    (hfh : s'.fh = update s.fh idx fp)
    (hfoo : s'.foo = update s.foo fp { s.foo fp with fNext := s.fh idx }) :
    ∃ L, Threaded s'.fh s'.foo L ∧ OnChains s' L := by
  obtain ⟨L, hL, hmem⟩ := hs.chains
  have hnew : ∀ i, fp ∉ L i := fun i hi => hnot ((hmem i fp).mp hi).1
  refine ⟨update L idx (fp :: L idx), ?_, h.onChains hmem (fun i a ha => ?_) fun i => ?_⟩
  · rw [hfh, hfoo]
    exact hL.link h0 hnew
  · by_cases hi : i = idx
    · subst hi
      simp [ha]
    · rw [update_of_ne hi]
  · rw [hidx, and_iff_right hlive]
    by_cases hi : i = idx
    · subst hi
      simp
    · rw [update_of_ne hi]
      exact iff_of_false (hnew i) (Ne.symm hi)

omit [Fintype ι] in
lemma Touches.onChains_unlink {L : ℕ → List ℕ} {idx : ℕ} (h : Touches s s' t p fp)
    (hL : Threaded s.fh s.foo L) (hmem : OnChains s L) (hidx : HASH (s.foo fp).fId = idx)
    (hnot' : ¬ Live s' fp) : OnChains s' (update L idx ((L idx).erase fp)) := by
  refine h.onChains hmem (fun i a ha => ?_) fun i => ?_
  · by_cases hi : i = idx
    · subst hi
      rw [update_self, List.mem_erase_of_ne ha]
    · rw [update_of_ne hi]
  · refine iff_of_false (fun hfp => ?_) fun hfp => hnot' hfp.1
    by_cases hi : i = idx
    · subst hi
      rw [update_self] at hfp
      exact (hL.nodup i).not_mem_erase hfp
    · rw [update_of_ne hi] at hfp
      exact hi (((hmem i fp).mp hfp).2.symm.trans hidx)

omit [DecidableEq ι] [Fintype ι] in
lemma not_live_of_keeps {ds : List Deed} (h : (s.point t).keeps = some (fp, ds)) : ¬ Live s fp :=
  fun hlive => hlive.2 t ds h

/-! ## The steps -/

omit [Fintype ι] in
lemma touches_malloc (fp : ℕ) (id : ℤ) (ht : s.point t = .outside) :
    Touches s ((fooMalloc s t fp id).move t (.alloc fp .lockHash)) t (.alloc fp .lockHash) fp where
  point := rfl
  alloced a ha := Finset.mem_insert.trans (or_iff_right ha)
  foo a ha := ⟨congrArg Foo.fCount (update_of_ne ha _ _), congrArg Foo.fId (update_of_ne ha _ _)⟩
  deeds a ha := update_of_ne ha _ _
  refs u a hua :=
    hua.elim (fun hu => refs_setRefs_of_ne_thread s _ hu a) (refs_setRefs_of_ne s t u _)
  owner a ha := update_of_ne (fun hl => ha (Lock.fLock.inj hl)) _ _
  keeps a ds ha := by
    cases ha
    rfl
  kept a ds ha := by
    rw [ht] at ha
    cases ha

lemma Inv.malloc_step {id : ℤ} (h : Inv s) (ht : s.point t = .outside) (h0 : fp ≠ 0)
    (hnew : fp ∉ s.alloced) : Inv ((fooMalloc s t fp id).move t (.alloc fp .lockHash)) := by
  have htouch := touches_malloc fp id ht
  generalize hs' : (fooMalloc s t fp id).move t (.alloc fp .lockHash) = s' at htouch ⊢
  have hone : outstanding s' fp = 1 := by
    have hzero : outstanding s fp = 0 :=
      Nat.eq_zero_of_not_pos fun hpos => hnew ((h.object fp).alloced.mpr hpos)
    have hsum : outstanding s' fp + s.refs t fp = outstanding s fp + (s.refs t fp + 1) :=
      hs' ▸ outstanding_setRefs_self s t fp _
    omega
  have hmem : fp ∈ s'.alloced := hs' ▸ Finset.mem_insert_self _ _
  have hlived : Lived (s'.deeds fp) [.malloc] := by
    have hdeeds : s'.deeds fp = s.deeds fp ++ [.malloc] := hs' ▸ update_self _ _ _
    rw [hdeeds]
    exact ((h.object fp).gone hnew).snoc .malloc
  have hkeeps : (s'.point t).keeps = some (fp, [.malloc]) := by
    rw [htouch.point, update_self]
    rfl
  have hnot : ¬ Live s fp := fun hlive => hnew hlive.1
  refine htouch.inv h ?_ ?_ (fun u _ => h.found_ne hnot u) (fun u _ _ => hmem) ?_ ?_ ?_
  · have hinit : Owned Point.holds (update s.owner (.fLock fp) none) s.point :=
      h.owned.init fun u hu => hnew ((h.thread u).held fp hu)
    exact hs' ▸ hinit.move (by rw [ht]; rfl)
  · intro u _ ds hu
    exact hnew (h.mem_alloced ((h.thread u).needs fp (Point.needs_of_keeps hu)))
  · exact {
      ne_zero := fun _ => h0
      alloced := iff_of_true hmem (hone.symm ▸ Nat.one_pos)
      count := fun _ => by
        rw [hone, ← hs']
        simp [State.move, fooMalloc, State.record, State.setRefs]
      le := hone.trans_le (by decide)
      linked := fun hlive => absurd hlive (not_live_of_keeps hkeeps)
      gone := fun hgone => absurd hmem hgone }
  · exact {
      held := fun a ha => by cases ha
      needs := fun a ha => by
        cases ha
        rw [← hs']
        exact (refs_setRefs_self _ t fp _).symm ▸ Nat.succ_pos _
      kept := fun a ds ha => by
        cases ha
        exact ⟨hone, hlived⟩
      quiet := fun a ha => by cases ha
      found := fun id a ha => by cases ha }
  · refine htouch.chains_of_not_live h hnot (not_live_of_keeps hkeeps) (hs' ▸ rfl) fun a => ?_
    rw [← hs']
    by_cases ha : a = fp
    · subst ha
      simp [State.move, fooMalloc, State.record, State.setRefs]
    · exact congrArg Foo.fNext (update_of_ne ha _ _)

omit [Fintype ι] in
lemma touches_link (ht : s.point t = .alloc fp .lockHash) :
    Touches s ((link (s.own .hashlock (some t)) fp).move t (.alloc fp .lockObj)) t
      (.alloc fp .lockObj) fp where
  point := rfl
  alloced a ha := Iff.rfl
  foo a ha := ⟨congrArg Foo.fCount (update_of_ne ha _ _), congrArg Foo.fId (update_of_ne ha _ _)⟩
  deeds a ha := update_of_ne ha _ _
  refs u a hua := rfl
  owner a ha := by
    have hl : Lock.fLock a ≠ .hashlock := fun hl => by cases hl
    exact update_of_ne hl (some t) s.owner
  keeps a ds ha := by cases ha
  kept a ds ha := by
    rw [ht] at ha
    cases ha
    rfl

lemma Inv.link_step (h : Inv s) (ht : s.point t = .alloc fp .lockHash)
    (hfree : s.owner .hashlock = none) :
    Inv ((link (s.own .hashlock (some t)) fp).move t (.alloc fp .lockObj)) := by
  have htouch := touches_link ht
  generalize hs' : (link (s.own .hashlock (some t)) fp).move t (.alloc fp .lockObj) = s' at htouch ⊢
  have hkeeps : (s.point t).keeps = some (fp, [.malloc]) := by
    rw [ht]
    rfl
  have hthread := ht ▸ h.thread t
  have hpos : 0 < s.refs t fp := hthread.needs fp rfl
  have hmem : fp ∈ s.alloced := h.mem_alloced hpos
  have hothers : ∀ u, u ≠ t → ∀ ds, (s.point u).keeps ≠ some (fp, ds) := fun u hu ds hds =>
    hu (h.eq_of_keeps hkeeps ((h.thread u).needs fp (Point.needs_of_keeps hds)))
  have hlive : Live s' fp :=
    (live_iff_of_point s s' htouch.point).mpr ⟨hs' ▸ hmem, fun ds hds => (by cases hds), hothers⟩
  have hfoo : s'.foo fp = { s.foo fp with fNext := s.fh (HASH (s.foo fp).fId) } :=
    hs' ▸ update_self _ _ _
  have hlived : Lived (s'.deeds fp) [.malloc, .link] := by
    have hdeeds : s'.deeds fp = s.deeds fp ++ [.link] := hs' ▸ update_self _ _ _
    rw [hdeeds]
    exact (hthread.kept fp _ rfl).2.snoc .link
  have hnot : ¬ Live s fp := not_live_of_keeps hkeeps
  refine htouch.inv h ?_ hothers (fun u _ => h.found_ne hnot u) (fun u _ _ => hlive.1) ?_ ?_ ?_
  · refine hs' ▸ h.owned.take hfree fun k => ?_
    rw [ht]
    simp [Point.holds]
  · exact {
      ne_zero := fun _ => (h.object fp).ne_zero hmem
      alloced := hs' ▸ (h.object fp).alloced
      count := fun _ => by
        rw [hfoo, ← hs']
        exact (h.object fp).count hmem
      le := hs' ▸ (h.object fp).le
      linked := fun _ => hlived
      gone := fun hgone => absurd hlive.1 hgone }
  · exact {
      held := fun a ha => by simp [Point.holds] at ha
      needs := fun a ha => by
        cases ha
        exact hs' ▸ hpos
      kept := fun a ds ha => by cases ha
      quiet := fun a ha => by cases ha
      found := fun id a ha => by cases ha }
  · have hidx : HASH (s'.foo fp).fId = HASH (s.foo fp).fId := by rw [hfoo]
    refine htouch.chains_link h ((h.object fp).ne_zero hmem) hnot hlive hidx ?_ ?_
    · rw [← hs']
      rfl
    · rw [← hs']
      rfl

omit [Fintype ι] in
lemma touches_unlink (fh' : ℕ → ℕ) {foo' : ℕ → Foo} (ht : s.point t = .rele fp .relock)
    (hsame : ∀ a, (foo' a).fCount = (s.foo a).fCount ∧ (foo' a).fId = (s.foo a).fId) :
    Touches s (({ s.own (.fLock fp) (some t) with fh := fh', foo := foo' }.record fp .unlink).move t
      (.rele fp .lastUnlockHash)) t (.rele fp .lastUnlockHash) fp where
  point := rfl
  alloced a ha := Iff.rfl
  foo a ha := hsame a
  deeds a ha := update_of_ne ha _ _
  refs u a hua := rfl
  owner a ha := update_of_ne (fun hl => ha (Lock.fLock.inj hl)) _ _
  keeps a ds ha := by
    cases ha
    rfl
  kept a ds ha := by
    rw [ht] at ha
    cases ha

lemma Inv.unlink_step {s₁ : State ι} (h : Inv s) (ht : s.point t = .rele fp .relock)
    (hfree : s.owner (.fLock fp) = none) (hcount : (s.foo fp).fCount = 1)
    (hs₁ : unlink (s.own (.fLock fp) (some t)) fp = some s₁) :
    Inv (s₁.move t (.rele fp .lastUnlockHash)) := by
  have hthread := ht ▸ h.thread t
  have hpos : 0 < s.refs t fp := hthread.needs fp rfl
  have hlive : Live s fp := h.live_of_waits (by rw [ht]; rfl)
  have hone : outstanding s fp = 1 := by
    have := (h.object fp).count hlive.1
    omega
  obtain ⟨L, hL, honchain⟩ := h.chains
  obtain ⟨fh', foo', heq, hthreaded, hsame⟩ := unlink_spec (s := s.own (.fLock fp) (some t)) hL rfl
    ((honchain _ fp).mpr ⟨hlive, rfl⟩) (honchain.length_le hL _)
  obtain rfl := Option.some.inj (hs₁.symm.trans heq)
  have htouch := touches_unlink fh' ht hsame
  generalize hs' : State.move _ t (.rele fp .lastUnlockHash) = s' at htouch ⊢
  have hkeeps : (s'.point t).keeps = some (fp, [.malloc, .link, .unlink]) := by
    rw [htouch.point, update_self]
    rfl
  have hnot' : ¬ Live s' fp := not_live_of_keeps hkeeps
  have hlived : Lived (s'.deeds fp) [.malloc, .link, .unlink] := by
    have hdeeds : s'.deeds fp = s.deeds fp ++ [.unlink] := hs' ▸ update_self _ _ _
    rw [hdeeds]
    exact ((h.object fp).linked hlive).snoc .unlink
  refine htouch.inv h ?_ (fun u _ => hlive.2 u) ?_ (fun u _ _ => hs' ▸ hlive.1) ?_ ?_ ?_
  · refine hs' ▸ h.owned.take hfree fun k => ?_
    rw [ht]
    simp [Point.holds, or_comm]
  · -- a thread that has found the object would have `hashlock`
    intro u hu id hfound
    have hhash : .hashlock ∈ (s.point t).holds := by
      rw [ht]
      exact List.mem_singleton.mpr rfl
    exact hu (h.owned.unique (Point.hashlock_of_found hfound) hhash)
  · exact {
      ne_zero := fun _ => (h.object fp).ne_zero hlive.1
      alloced := hs' ▸ (h.object fp).alloced
      count := fun _ => by
        rw [← hs']
        exact (hsame fp).1.trans ((h.object fp).count hlive.1)
      le := hs' ▸ (h.object fp).le
      linked := fun hl => absurd hl hnot'
      gone := fun hgone => absurd (hs' ▸ hlive.1) hgone }
  · exact {
      held := fun a ha => by
        have hafp : a = fp := by simpa [Point.holds] using ha
        subst hafp
        exact hs' ▸ hlive.1
      needs := fun a ha => by
        cases ha
        exact hs' ▸ hpos
      kept := fun a ds ha => by
        cases ha
        exact ⟨hs' ▸ hone, hlived⟩
      quiet := fun a ha => by cases ha
      found := fun id a ha => by cases ha }
  · have hthreaded' : Threaded s'.fh s'.foo (update L (HASH (s.foo fp).fId)
        ((L (HASH (s.foo fp).fId)).erase fp)) := by
      rw [← hs']
      exact hthreaded
    exact ⟨_, hthreaded', htouch.onChains_unlink hL honchain rfl hnot'⟩

omit [Fintype ι] in
lemma touches_free (ht : s.point t = .rele fp .destroy) :
    Touches s ((destroy s t fp).move t .outside) t .outside fp where
  point := rfl
  alloced a ha := Finset.mem_erase.trans (and_iff_right ha)
  foo a ha := ⟨rfl, rfl⟩
  deeds a ha := update_of_ne ha _ _
  refs u a hua :=
    hua.elim (fun hu => refs_setRefs_of_ne_thread s _ hu a) (refs_setRefs_of_ne s t u _)
  owner a ha := rfl
  keeps a ds ha := by cases ha
  kept a ds ha := by
    rw [ht] at ha
    cases ha
    rfl

lemma Inv.free_step (h : Inv s) (ht : s.point t = .rele fp .destroy) :
    Inv ((destroy s t fp).move t .outside) := by
  have htouch := touches_free ht
  generalize hs' : (destroy s t fp).move t .outside = s' at htouch ⊢
  have hkeeps : (s.point t).keeps = some (fp, [.malloc, .link, .unlink]) := by
    rw [ht]
    rfl
  have hthread := ht ▸ h.thread t
  have hzero : outstanding s' fp = 0 := by
    have hsum : outstanding s' fp + s.refs t fp = outstanding s fp + (s.refs t fp - 1) :=
      hs' ▸ outstanding_setRefs_self s t fp _
    have hone := (hthread.kept fp _ rfl).1
    have hpos := hthread.needs fp rfl
    have hle := refs_le s t fp
    omega
  have hmem : fp ∉ s'.alloced := hs' ▸ Finset.notMem_erase fp s.alloced
  have hlived : Lived (s'.deeds fp) [] := by
    have hdeeds : s'.deeds fp = s.deeds fp ++ [.free] := hs' ▸ update_self _ _ _
    rw [hdeeds]
    exact ((hthread.kept fp _ rfl).2.snoc .free).ended
  have hnot : ¬ Live s fp := not_live_of_keeps hkeeps
  have hnot' : ¬ Live s' fp := fun hlive => hmem hlive.1
  refine htouch.inv h ?_ ?_ (fun u _ => h.found_ne hnot u) ?_ ?_ ?_ ?_
  · exact hs' ▸ h.owned.move (by rw [ht]; rfl)
  · intro u hu ds hds
    exact hu (h.eq_of_keeps hkeeps ((h.thread u).needs fp (Point.needs_of_keeps hds)))
  · intro u _ hu
    have howner := (h.owned u (.fLock fp)).mpr hu
    rw [hthread.quiet fp rfl] at howner
    cases howner
  · exact {
      ne_zero := fun hfp => absurd hfp hmem
      alloced := iff_of_false hmem (by omega)
      count := fun hfp => absurd hfp hmem
      le := hzero.trans_le (Nat.zero_le _)
      linked := fun hlive => absurd hlive hnot'
      gone := fun _ => hlived }
  · exact .outside s' t
  · exact htouch.chains_of_not_live h hnot hnot' (hs' ▸ rfl) fun a => hs' ▸ rfl

end Lives

end UnixPrograms.Mutex2
