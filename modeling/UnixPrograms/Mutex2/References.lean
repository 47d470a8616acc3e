import UnixPrograms.Mutex2.Lives

/-!
# References under two locks

In every interleaving the two locks keep the reference counts right and there is no deadlock
(`foo_correct`), as long as no object has more references than the `int` `f_count` can count
(`fCount_wraps`).
-/

namespace UnixPrograms.Mutex2

open List Option

/-! ## The order of the locks -/

def Lock.rank : Lock → ℕ
  | .hashlock => 0
  | .fLock _ => 1

lemma Lock.rank_lt_two (l : Lock) : l.rank < 2 := by
  cases l with
  | hashlock => exact Nat.two_pos
  | fLock fp => exact Nat.one_lt_two

lemma Point.rank_lt {p : Point} {l l' : Lock} (hl : l ∈ p.holds) (hw : p.waits = some l') :
    l.rank < l'.rank := by
  revert hl hw
  fun_cases Point.waits p with
  | case1 | case2 | case3 | case5 | case7 => simp [holds]
  | case4 | case6 | case8 =>
    -- `hashlock` is held
    rintro hl ⟨⟩
    rw [mem_singleton.mp hl]
    exact Nat.one_pos
  | case9 => simp

/-! ## Runs -/

def Point.adds : Point → Option ℕ
  | .hold fp .lock | .find _ (.hold fp .lock) => some fp
  | _ => none

section References

variable {ι : Type} [DecidableEq ι]

def adds (s : State ι) : Action ι → Option ℕ
  | .run t => (s.point t).adds
  | _ => none

variable [Fintype ι] {s s' : State ι} {t : ι} {a fp : ℕ} {x : Action ι}

/-- If the step adds a reference, `f_count` can count it. -/
def Room (s : State ι) (x : Action ι) : Prop :=
  ∀ fp, adds s x = some fp → outstanding s fp < INT_MAX

omit [DecidableEq ι] in
lemma inv_start (foo : ℕ → Foo) : Inv (start ι foo) where
  owned t l := iff_of_false (fun h => by cases h) not_mem_nil
  object a := {
    ne_zero := fun ha => absurd ha (Finset.notMem_empty a)
    alloced := iff_of_false (Finset.notMem_empty a) (by simp [outstanding, start])
    count := fun ha => absurd ha (Finset.notMem_empty a)
    le := by simp [outstanding, start]
    linked := fun ha => absurd ha.1 (Finset.notMem_empty a)
    gone := fun _ => ⟨0, rfl⟩ }
  thread := .outside _
  chains := by
    refine ⟨fun _ => [], ⟨fun i => rfl, fun i => nodup_nil, fun i j a ha => by cases ha⟩, ?_⟩
    exact fun i a => iff_of_false not_mem_nil fun ha => absurd ha.1.1 (Finset.notMem_empty a)

lemma Inv.effect (h : Inv s) (he : Effect s x s') (hroom : Room s x) : Inv s' := by
  cases he with
  | idle => exact h
  | enter ht hp => exact h.enter ht hp
  | give ht hpos => exact h.give ht hpos
  | malloc ht h0 hnew => exact h.malloc_step ht h0 hnew
  | link ht hfree => exact h.link_step ht hfree
  | take hp hfree => exact h.take hp hfree
  | @up t fp p hx hp hfree =>
    refine h.up hp hfree (hroom fp ?_)
    subst hx
    show (s.point t).adds = some fp
    generalize s.point t = q at hp
    cases hp <;> rfl
  | down hp hfree hne => exact h.down hp hfree hne
  | unlink _ ht hfree hone hs₁ => exact h.unlink_step ht hfree hone hs₁
  | drop hp => exact h.drop hp
  | free _ ht => exact h.free_step ht

lemma inv_of_run {foo : ℕ → Foo} {xs : List (Action ι)}
    (hrun : RunWhen step Room (start ι foo) xs s) : Inv s :=
  hrun.invariant (inv_start foo) fun _ _ _ h hstep hroom => h.effect (effect_of_step hstep) hroom

/-! ## What the locks guarantee -/

omit [Fintype ι] [DecidableEq ι] in
lemma deeds_of_unlink {s₁ : State ι} (h : unlink s fp = some s₁) :
    s₁.deeds = Function.update s.deeds fp (s.deeds fp ++ [.unlink]) := by
  simp only [unlink] at h
  split at h
  · exact some.inj h ▸ rfl
  · obtain ⟨tfp, -, rfl⟩ := map_eq_some_iff.mp h
    rfl

omit [Fintype ι] in
lemma Effect.deeds (he : Effect s x s') :
    s'.deeds = s.deeds ∨ ∃ fp d, s'.deeds = Function.update s.deeds fp (s.deeds fp ++ [d]) ∧
      (d = .unlink ∨ d = .free → ∃ t l, x = .run t ∧ s.point t = .rele fp l ∧
        (l = .relock ∧ (s.foo fp).fCount = 1 ∨ l = .destroy)) := by
  cases he with
  | idle | enter | give | take | up | down | drop => exact .inl rfl
  | @malloc t fp =>
    refine .inr ⟨fp, .malloc, rfl, fun hd => ?_⟩
    obtain hd | hd := hd <;> cases hd
  | @link t fp =>
    refine .inr ⟨fp, .link, rfl, fun hd => ?_⟩
    obtain hd | hd := hd <;> cases hd
  | @unlink t fp s₁ hx ht hfree hone hs₁ =>
    have hdeeds := deeds_of_unlink hs₁
    exact .inr ⟨fp, .unlink, hdeeds, fun _ => ⟨t, .relock, hx, ht, .inl ⟨rfl, hone⟩⟩⟩
  | @free t fp hx ht => exact .inr ⟨fp, .free, rfl, fun _ => ⟨t, .destroy, hx, ht, .inr rfl⟩⟩

lemma Inv.last {d : Deed} (h : Inv s) (he : Effect s x s') (hd : d = .unlink ∨ d = .free)
    (hdeeds : s'.deeds a = s.deeds a ++ [d]) :
    ∃ t l, x = .run t ∧ s.point t = .rele a l ∧ s.refs t a = 1 ∧ outstanding s a = 1 := by
  obtain hsame | ⟨fp, d', hrecord, hlast⟩ := he.deeds
  · simp [hsame] at hdeeds
  · have hafp : a = fp := by
      by_contra hne
      simp [hrecord, Function.update_of_ne hne] at hdeeds
    subst hafp
    obtain rfl : d' = d := by simpa [hrecord] using hdeeds
    obtain ⟨t, l, hx, ht, hl⟩ := hlast hd
    have hthread := ht ▸ h.thread t
    have hone : outstanding s a = 1 := by
      obtain ⟨rfl, hcount⟩ | rfl := hl
      · have hmem := h.mem_alloced (hthread.needs a rfl)
        have := (h.object a).count hmem
        omega
      · exact (hthread.kept a _ rfl).1
    have hpos : 0 < s.refs t a := by
      obtain ⟨rfl, -⟩ | rfl := hl
      · exact hthread.needs a rfl
      · exact hthread.needs a rfl
    have hle := refs_le s t a
    exact ⟨t, l, hx, ht, by omega, hone⟩

omit [DecidableEq ι] in
lemma Inv.unlink_isSome (h : Inv s) (hlive : Live s fp) (l : Lock) (o : Option ι) :
    (unlink (s.own l o) fp).isSome := by
  obtain ⟨L, hL, hmem⟩ := h.chains
  obtain ⟨fh', foo', heq, -⟩ := unlink_spec (s := s.own l o) hL rfl
    ((hmem _ fp).mpr ⟨hlive, rfl⟩) (hmem.length_le hL _)
  rw [heq]
  rfl

omit [Fintype ι] [DecidableEq ι] in
lemma lock_of_free {l : Lock} (hfree : s.owner l = none) : lock s t l = some (s.own l (some t)) :=
  if_pos hfree

lemma Inv.runs (h : Inv s) (ht : s.point t ≠ .outside)
    (hfree : ∀ l, (s.point t).waits = some l → s.owner l = none) :
    (step s (.run t)).isSome := by
  show (runThread s t (s.point t)).isSome
  have hlive := fun a => h.live_of_waits (t := t) (a := a)
  generalize s.point t = p at ht hfree hlive
  cases p with
  | outside => exact absurd rfl ht
  | alloc fp l =>
    cases l with
    | lockHash | lockObj =>
      simp only [runThread, fooAlloc, lock_of_free (hfree _ rfl), map_some, isSome_some]
    | unlockHash | unlockObj => rfl
  | hold fp l =>
    cases l with
    | lock =>
      simp only [runThread, fooHold, lock_of_free (hfree _ rfl), map_some, isSome_some]
    | unlock => rfl
  | find id l =>
    cases l with
    | lockHash =>
      obtain ⟨fp, hsearch, -⟩ := h.search_spec id
      simp only [runThread, fooFind, lock_of_free (hfree _ rfl), bind_some, isSome_map]
      exact isSome_iff_exists.mpr ⟨fp, hsearch⟩
    | hold fp l =>
      cases l with
      | lock =>
        simp only [runThread, fooFind, fooHold, lock_of_free (hfree _ rfl), map_some, isSome_some]
      | unlock => rfl
    | unlockHash fp => rfl
  | rele fp l =>
    cases l with
    | lock | lockHash =>
      simp only [runThread, fooRele, lock_of_free (hfree _ rfl), map_some, isSome_some]
    | relock =>
      simp only [runThread, fooRele, lock_of_free (hfree _ rfl), bind_some]
      split
      · rfl
      · rw [isSome_map]
        exact h.unlink_isSome (hlive fp rfl) _ _
    | _ => rfl

/-- The counts are those of the references, and an object is freed with the last one. -/
structure Correct (s : State ι) : Prop where
  count : ∀ a ∈ s.alloced, (s.foo a).fCount = outstanding s a
  alloced : ∀ a, a ∈ s.alloced ↔ 0 < outstanding s a
  /-- The objects that have lived at an address were linked, unlinked and freed once.  If there is
  one now, it is linked, or a thread is about to link or to free it. -/
  lives : ∀ a, a ∉ s.alloced ∧ Lived (s.deeds a) [] ∨
    Live s a ∧ Lived (s.deeds a) [.malloc, .link] ∨
    ∃ t ds, (s.point t).keeps = some (a, ds) ∧ Lived (s.deeds a) ds
  /-- Objects are unlinked and freed by the release of the last reference. -/
  last : ∀ x s' a d, step s x = some s' → d = .unlink ∨ d = .free →
    s'.deeds a = s.deeds a ++ [d] →
      ∃ t l, x = .run t ∧ s.point t = .rele a l ∧ s.refs t a = 1 ∧ outstanding s a = 1
  /-- An object that `foo_find` returns is live, and the thread has a reference to it. -/
  found : ∀ t s' id fp, s.point t = .find id (.unlockHash fp) → fp ≠ 0 →
    step s (.run t) = some s' → Live s' fp ∧ 0 < s'.refs t fp ∧ (s'.foo fp).fId = id
  /-- The chains end, visit no object twice, and every live object is on the chain of its
  identifier. -/
  chains : ∃ L, Threaded s.fh s.foo L ∧ OnChains s L
  deadlock : ∀ D : Set ι, ¬ Deadlocked (fun t => (s.point t).waits) s.owner D
  /-- A thread in a call goes on, unless it waits for a lock that another thread has. -/
  runs : ∀ t, s.point t ≠ .outside → (∀ l, (s.point t).waits = some l → s.owner l = none) →
    (step s (.run t)).isSome

omit [DecidableEq ι] in
lemma Inv.lives (h : Inv s) (a : ℕ) : a ∉ s.alloced ∧ Lived (s.deeds a) [] ∨
    Live s a ∧ Lived (s.deeds a) [.malloc, .link] ∨
    ∃ t ds, (s.point t).keeps = some (a, ds) ∧ Lived (s.deeds a) ds := by
  by_cases ha : a ∈ s.alloced
  · by_cases hkept : ∃ t ds, (s.point t).keeps = some (a, ds)
    · obtain ⟨t, ds, ht⟩ := hkept
      exact .inr (.inr ⟨t, ds, ht, ((h.thread t).kept a ds ht).2⟩)
    · have hlive : Live s a := ⟨ha, fun t ds ht => hkept ⟨t, ds, ht⟩⟩
      exact .inr (.inl ⟨hlive, (h.object a).linked hlive⟩)
  · exact .inl ⟨ha, (h.object a).gone ha⟩

lemma Inv.returned {id : ℤ} (h : Inv s) (ht : s.point t = .find id (.unlockHash fp))
    (hfp : fp ≠ 0) (hstep : step s (.run t) = some s') :
    Live s' fp ∧ 0 < s'.refs t fp ∧ (s'.foo fp).fId = id := by
  have hthread := ht ▸ h.thread t
  obtain ⟨hlive, hid⟩ := hthread.found id fp (if_neg hfp)
  have hpos := hthread.needs fp (if_neg hfp)
  have hrun : step s (.run t) = some ((unlock s .hashlock).move t .outside) := by
    simp only [step, ht]
    rfl
  obtain rfl := some.inj (hstep.symm.trans hrun)
  have hkeeps : Point.outside.keeps = (s.point t).keeps := by
    rw [ht]
    rfl
  refine ⟨?_, hpos, hid⟩
  exact (live_congr s ((unlock s .hashlock).move t .outside) rfl (keeps_update hkeeps)).mpr hlive

omit [DecidableEq ι] in
lemma Inv.ranked (h : Inv s) : Ranked Lock.rank (fun t => (s.point t).waits) s.owner :=
  fun t l _ howner hwaits => Point.rank_lt ((h.owned t l).mp howner) hwaits

lemma Inv.correct (h : Inv s) : Correct s where
  count a := (h.object a).count
  alloced a := (h.object a).alloced
  lives := h.lives
  last _ _ _ _ hstep hd hdeeds := h.last (effect_of_step hstep) hd hdeeds
  found _ _ _ _ ht hfp hstep := h.returned ht hfp hstep
  chains := h.chains
  deadlock := not_deadlocked h.ranked Lock.rank_lt_two
  runs _ := h.runs

/-- Every interleaving of the calls, as long as there is room in `f_count`. -/
theorem foo_correct {foo : ℕ → Foo} {xs : List (Action ι)}
    (hrun : RunWhen step Room (start ι foo) xs s) : Correct s :=
  (inv_of_run hrun).correct

end References

/-! ## A release in the gap -/

def zeros (_ : ℕ) : Foo := ⟨0, 0, 0⟩

def room {ι : Type} [Fintype ι] (s : State ι) (x : Action ι) : Bool :=
  (adds s x).all fun fp => outstanding s fp < INT_MAX

lemma room_of_room {ι : Type} [Fintype ι] (s : State ι) (x : Action ι) (h : room s x = true) :
    Room s x := by
  intro fp hfp
  rw [room, hfp] at h
  exact of_decide_eq_true h

/-- The first thread has made an object and given up its lock to release it, when the second thread
finds the object.  The first thread counts down, the second one frees it. -/
def gapRun : List (Action Bool) :=
  [.alloc false 8 5, .run false, .run false, .run false, .run false,
    .rele false 8, .run false, .run false, .find true 5, .run true, .run true, .run true, .run true,
    .run false, .run false, .run false, .run false,
    .rele true 8, .run true, .run true, .run true, .run true, .run true, .run true, .run true]

theorem foo_correct_gapRun :
    ∃ s, RunWhen step Room (start Bool zeros) gapRun s ∧ 8 ∉ s.alloced ∧ Correct s := by
  obtain ⟨s, hrun, hs⟩ := exists_runFrom (guarded step room) (start Bool zeros) gapRun
    (8 ∉ ·.alloced) (by decide)
  have hrun := runWhen_of_guarded room_of_room hrun
  exact ⟨s, hrun, hs, foo_correct hrun⟩

/-! ## Too many references -/

/-- A thread has made an object and called `foo_hold` on it `n` times. -/
structure Holding (s : State Unit) (n : ℕ) : Prop where
  point : s.point () = .outside
  owner : s.owner (.fLock 8) = none
  alloced : 8 ∈ s.alloced
  refs : s.refs () 8 = n + 1
  count : (s.foo 8).fCount = wrapSigned 4 (n + 1)

lemma Holding.hold {s : State Unit} {n : ℕ} (h : Holding s n) :
    ∃ s', RunFrom step s [.hold () 8, .run (), .run ()] s' ∧ Holding s' (n + 1) := by
  have hcall : step s (.hold () 8) = some (s.move () (.hold 8 .lock)) :=
    if_pos ⟨h.point, h.refs.symm ▸ Nat.succ_pos n⟩
  have hfree : (s.move () (.hold 8 .lock)).owner (.fLock 8) = none := h.owner
  have hlock : step (s.move () (.hold 8 .lock)) (.run ()) =
      some ((countUp ((s.move () (.hold 8 .lock)).own (.fLock 8) (some ())) () 8).move ()
        (.hold 8 .unlock)) := by
    show (lock (s.move () (.hold 8 .lock)) () (.fLock 8)).map _ = _
    rw [lock_of_free hfree]
    rfl
  refine ⟨_, ((RunWhen.nil.snoc hcall trivial).snoc hlock trivial).snoc rfl trivial, ?_⟩
  have hcount : wrapSigned 4 (wrapSigned 4 (n + 1) + 1) = wrapSigned 4 ((n + 1 : ℕ) + 1) := by
    rw [wrapSigned_add]
    push_cast
    rfl
  refine ⟨rfl, ?_, h.alloced, ?_, ?_⟩
  · simp [State.move, unlock, State.own]
  · simp [State.move, unlock, State.own, countUp, State.setRefs, setCount, h.refs]
  · rw [← hcount, ← h.count]
    rfl

lemma exists_holding (n : ℕ) : ∃ xs s, RunFrom step (start Unit zeros) xs s ∧ Holding s n := by
  induction n with
  | zero =>
    obtain ⟨s, hrun, hpoint, howner, halloced, hrefs, hcount⟩ :=
      exists_runFrom step (start Unit zeros) [.alloc () 8 5, .run (), .run (), .run (), .run ()]
        (fun s => s.point () = .outside ∧ s.owner (.fLock 8) = none ∧ 8 ∈ s.alloced ∧
          s.refs () 8 = 1 ∧ (s.foo 8).fCount = 1) (by decide)
    exact ⟨_, s, hrun, hpoint, howner, halloced, hrefs, hcount.trans (by decide)⟩
  | succ n ih =>
    obtain ⟨xs, s, hrun, hs⟩ := ih
    obtain ⟨s', hrun', hs'⟩ := hs.hold
    exact ⟨_, s', hrun.append hrun', hs'⟩

/-- With `2 ^ 31` references `f_count` is negative. -/
theorem fCount_wraps : ∃ xs s, RunFrom step (start Unit zeros) xs s ∧ Live s 8 ∧
    outstanding s 8 = 2 ^ 31 ∧ (s.foo 8).fCount = -2 ^ 31 := by
  obtain ⟨xs, s, hrun, hs⟩ := exists_holding (2 ^ 31 - 1)
  refine ⟨xs, s, hrun, ⟨hs.alloced, fun t ds ht => ?_⟩, ?_, ?_⟩
  · rw [hs.point] at ht
    cases ht
  · simp [outstanding, hs.refs]
  · rw [hs.count]
    decide

end UnixPrograms.Mutex2
