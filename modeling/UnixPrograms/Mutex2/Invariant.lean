import UnixPrograms.Mutex2.Chains
import Mathlib.Algebra.Order.BigOperators.Group.Finset

/-!
# References, lives and owners

An object is in use as long as references to it are outstanding, and `f_count` is their number
(`Inv`).  From `link` to `unlink` it is on its chain; before and after that one thread has the only
reference to it (`Point.keeps`).  So a thread that finds `f_count` to be 1 under both locks may free
it.
-/

namespace UnixPrograms.Mutex2

open Function List Point

/-! ## Lives -/

def life : List Deed := [.malloc, .link, .unlink, .free]

/-- At an address one object after the other has lived, and `now` has happened to the present
one. -/
def Lived (ds now : List Deed) : Prop := ∃ n, ds = (List.replicate n life).flatten ++ now

variable {ds : List Deed} {p q : Point}

lemma Lived.snoc {now : List Deed} (h : Lived ds now) (d : Deed) :
    Lived (ds ++ [d]) (now ++ [d]) := by
  obtain ⟨n, rfl⟩ := h
  exact ⟨n, append_assoc _ _ _⟩

lemma Lived.ended (h : Lived ds life) : Lived ds [] := by
  obtain ⟨n, rfl⟩ := h
  refine ⟨n + 1, ?_⟩
  rw [replicate_succ', flatten_append, append_nil, flatten_singleton]

/-! ## What threads know -/

/-- The object to which the thread has a reference, as it relies on. -/
def Point.needs : Point → Option ℕ
  | .alloc fp _ | .hold fp _ | .find _ (.hold fp .unlock) => some fp
  | .find _ (.unlockHash fp) => if fp = 0 then none else some fp
  | .rele _ .unlock | .rele _ .recheckUnlock | .rele _ .recheckUnlockHash => none
  | .rele fp _ => some fp
  | _ => none

/-- The object that only this thread knows, and what has happened to it: it is not yet linked, or
not linked any more. -/
def Point.keeps : Point → Option (ℕ × List Deed)
  | .alloc fp .lockHash => some (fp, [.malloc])
  | .rele fp .lastUnlockHash | .rele fp .lastUnlock | .rele fp .destroy =>
    some (fp, [.malloc, .link, .unlink])
  | _ => none

def Point.found : Point → Option (ℤ × ℕ)
  | .find id (.hold fp _) => some (id, fp)
  | .find id (.unlockHash fp) => if fp = 0 then none else some (id, fp)
  | _ => none

lemma Point.needs_of_keeps {a : ℕ} (h : p.keeps = some (a, ds)) : p.needs = some a := by
  revert h
  fun_cases keeps p with
  | case5 => nofun
  | _ =>
    rintro ⟨⟩
    rfl

lemma Point.hashlock_of_found {x : ℤ × ℕ} (h : p.found = some x) : .hashlock ∈ p.holds := by
  revert h
  fun_cases found p with
  | case1 id fp l => cases l <;> simp [holds]
  | case2 | case3 | case4 => simp [holds]

lemma Point.needs_of_waits {a : ℕ} (h : p.waits = some (.fLock a)) :
    p.keeps = none ∧ (p.needs = some a ∨ ∃ id, p.found = some (id, a)) := by
  revert h
  fun_cases waits p with
  | case6 id fp =>
    -- in `foo_find`
    rintro ⟨⟩
    exact ⟨rfl, .inr ⟨id, rfl⟩⟩
  | case4 | case5 | case7 | case8 =>
    rintro ⟨⟩
    exact ⟨rfl, .inl rfl⟩
  | _ => nofun

/-- A thread at `q` takes the lock `l` and goes on to `p`; what it keeps to itself stays. -/
structure Locking (q : Point) (l : Lock) (p : Point) : Prop where
  waits : q.waits = some l
  holds : ∀ k, k ∈ p.holds ↔ k = l ∨ k ∈ q.holds
  keeps : p.keeps = q.keeps
  ne_destroy : ∀ a, p ≠ .rele a .destroy

lemma Takes.locking {ι : Type} {s : State ι} {l : Lock} (hp : Takes s q l p) : Locking q l p := by
  cases hp <;>
    exact ⟨rfl, fun k => by simp [holds, or_comm], rfl, fun a ha => by cases ha⟩

lemma CountsUp.locking {fp : ℕ} (hp : CountsUp fp q p) : Locking q (.fLock fp) p := by
  cases hp <;>
    exact ⟨rfl, fun k => by simp [holds, or_comm], rfl, fun a ha => by cases ha⟩

lemma CountsDown.locking {fp : ℕ} (hp : CountsDown fp q p) : Locking q (.fLock fp) p := by
  cases hp <;>
    exact ⟨rfl, fun k => by simp [holds, or_comm], rfl, fun a ha => by cases ha⟩

section Invariant

variable {ι : Type}

/-- The object is on a chain, unless the pointers are wrong: it is in use, and no thread is about to
link or to free it. -/
def Live (s : State ι) (a : ℕ) : Prop :=
  a ∈ s.alloced ∧ ∀ t ds, (s.point t).keeps ≠ some (a, ds)

/-- The chains hold the live objects. -/
def OnChains (s : State ι) (L : ℕ → List ℕ) : Prop :=
  ∀ i a, a ∈ L i ↔ Live s a ∧ HASH (s.foo a).fId = i

lemma OnChains.length_le {s : State ι} {L : ℕ → List ℕ} (hmem : OnChains s L)
    (hL : Threaded s.fh s.foo L) (i : ℕ) : (L i).length ≤ s.alloced.card := by
  rw [← toFinset_card_of_nodup (hL.nodup i)]
  refine Finset.card_le_card fun a ha => ?_
  exact ((hmem i a).mp (mem_toFinset.mp ha)).1.1

variable [Fintype ι]

def outstanding (s : State ι) (a : ℕ) : ℕ := ∑ t, s.refs t a

/-- An object is allocated as long as references to it are out. -/
structure Object (s : State ι) (a : ℕ) : Prop where
  ne_zero : a ∈ s.alloced → a ≠ 0
  alloced : a ∈ s.alloced ↔ 0 < outstanding s a
  count : a ∈ s.alloced → (s.foo a).fCount = outstanding s a
  le : outstanding s a ≤ INT_MAX
  linked : Live s a → Lived (s.deeds a) [.malloc, .link]
  gone : a ∉ s.alloced → Lived (s.deeds a) []

/-- What a thread may rely on at its point. -/
structure Thread (s : State ι) (t : ι) (p : Point) : Prop where
  held : ∀ a, .fLock a ∈ p.holds → a ∈ s.alloced
  needs : ∀ a, p.needs = some a → 0 < s.refs t a
  kept : ∀ a ds, p.keeps = some (a, ds) → outstanding s a = 1 ∧ Lived (s.deeds a) ds
  quiet : ∀ a, p = .rele a .destroy → s.owner (.fLock a) = none
  found : ∀ id a, p.found = some (id, a) → Live s a ∧ (s.foo a).fId = id

/-- What holds in every state of a run. -/
structure Inv (s : State ι) : Prop where
  owned : Owned holds s.owner s.point
  object : ∀ a, Object s a
  thread : ∀ t, Thread s t (s.point t)
  chains : ∃ L, Threaded s.fh s.foo L ∧ OnChains s L

variable {s s' : State ι} {t u : ι} {a fp : ℕ} {p : Point} {l : Lock}

lemma refs_le (s : State ι) (t : ι) (a : ℕ) : s.refs t a ≤ outstanding s a :=
  Finset.single_le_sum (f := fun t => s.refs t a) (fun _ _ => Nat.zero_le _) (Finset.mem_univ t)

lemma eq_of_outstanding (hone : outstanding s a = 1) (ht : 0 < s.refs t a)
    (hu : 0 < s.refs u a) : u = t := by
  classical
  by_contra hne
  have hpair : ∑ i ∈ {u, t}, s.refs i a ≤ outstanding s a :=
    Finset.sum_le_sum_of_subset (Finset.subset_univ _)
  rw [Finset.sum_pair hne] at hpair
  omega

namespace Inv

lemma mem_alloced (h : Inv s) (hpos : 0 < s.refs t a) : a ∈ s.alloced :=
  (h.object a).alloced.mpr (Nat.lt_of_lt_of_le hpos (refs_le s t a))

lemma eq_of_keeps {ds : List Deed} (h : Inv s) (ht : (s.point t).keeps = some (a, ds))
    (hu : 0 < s.refs u a) : u = t :=
  eq_of_outstanding ((h.thread t).kept a ds ht).1
    ((h.thread t).needs a (needs_of_keeps ht)) hu

/-- A thread's references are to live objects, but for the object that only it knows. -/
lemma live_of_refs (h : Inv s) (hpos : 0 < s.refs t a)
    (hkeeps : ∀ ds, (s.point t).keeps ≠ some (a, ds)) : Live s a := by
  refine ⟨h.mem_alloced hpos, fun u ds hu => ?_⟩
  obtain rfl := h.eq_of_keeps hu hpos
  exact hkeeps ds hu

lemma live_of_waits (h : Inv s) (hw : (s.point t).waits = some (.fLock a)) : Live s a := by
  obtain ⟨hkeeps, hneeds | ⟨id, hfound⟩⟩ := needs_of_waits hw
  · refine h.live_of_refs ((h.thread t).needs a hneeds) fun ds hds => ?_
    rw [hkeeps] at hds
    cases hds
  · exact ((h.thread t).found id a hfound).1

lemma search_spec (h : Inv s) (id : ℤ) :
    ∃ fp, search s.foo id s.rounds (s.fh (HASH id)) = some fp ∧
      (fp ≠ 0 → Live s fp ∧ (s.foo fp).fId = id) := by
  obtain ⟨L, hL, hmem⟩ := h.chains
  have hsearch := search_eq id (hL.linked (HASH id))
    (Nat.lt_succ_of_le (hmem.length_le hL (HASH id)))
  rw [← hL.fh_eq] at hsearch
  refine ⟨_, hsearch, fun hne => ?_⟩
  cases hfind : (L (HASH id)).find? fun a => (s.foo a).fId = id with
  | none => exact absurd (by rw [hfind]; rfl) hne
  | some fp =>
    have hid := List.find?_some hfind
    exact ⟨((hmem _ fp).mp (List.mem_of_find?_eq_some hfind)).1, of_decide_eq_true hid⟩

end Inv

/-! ## Frames -/

lemma Object.frame (h : Object s a) (halloced : a ∈ s'.alloced ↔ a ∈ s.alloced)
    (hsum : outstanding s' a = outstanding s a) (hcount : (s'.foo a).fCount = (s.foo a).fCount)
    (hlive : Live s' a → Live s a) (hdeeds : s'.deeds a = s.deeds a) : Object s' a where
  ne_zero ha := h.ne_zero (halloced.mp ha)
  alloced := by rw [halloced, hsum, h.alloced]
  count ha := by rw [hcount, hsum, h.count (halloced.mp ha)]
  le := hsum.trans_le h.le
  linked ha := hdeeds ▸ h.linked (hlive ha)
  gone ha := hdeeds ▸ h.gone fun hmem => ha (halloced.mpr hmem)

lemma Thread.frame (h : Thread s u p)
    (halloced : ∀ a, .fLock a ∈ p.holds → a ∈ s.alloced → a ∈ s'.alloced)
    (hrefs : ∀ a, p.needs = some a → s.refs u a ≤ s'.refs u a)
    (hkept : ∀ a ds, p.keeps = some (a, ds) →
      outstanding s' a = outstanding s a ∧ s'.deeds a = s.deeds a)
    (hquiet : ∀ a, p = .rele a .destroy → s.owner (.fLock a) = none → s'.owner (.fLock a) = none)
    (hfound : ∀ id a, p.found = some (id, a) → Live s a →
      Live s' a ∧ (s'.foo a).fId = (s.foo a).fId) : Thread s' u p where
  held a ha := halloced a ha (h.held a ha)
  needs a ha := Nat.lt_of_lt_of_le (h.needs a ha) (hrefs a ha)
  kept a ds ha := by
    obtain ⟨hsum, hdeeds⟩ := hkept a ds ha
    rw [hsum, hdeeds]
    exact h.kept a ds ha
  quiet a ha := hquiet a ha (h.quiet a ha)
  found id a ha := by
    obtain ⟨hlive, hid⟩ := h.found id a ha
    obtain ⟨hlive', hid'⟩ := hfound id a ha hlive
    exact ⟨hlive', hid'.trans hid⟩

/-! ## Locks and points -/

omit [Fintype ι] in
lemma live_congr (s s' : State ι) (halloced : s'.alloced = s.alloced)
    (hkeeps : ∀ u, (s'.point u).keeps = (s.point u).keeps) : Live s' a ↔ Live s a := by
  unfold Live
  simp only [halloced, hkeeps]

variable [DecidableEq ι]

omit [Fintype ι] in
lemma keeps_update (hp : p.keeps = (s.point t).keeps) (u : ι) :
    (update s.point t p u).keeps = (s.point u).keeps := by
  by_cases hu : u = t
  · subst hu
    rw [update_self, hp]
  · rw [update_of_ne hu]

lemma Inv.move {o : Lock → Option ι} (h : Inv s) (howned : Owned holds o (update s.point t p))
    (hkeeps : p.keeps = (s.point t).keeps)
    (hquiet : ∀ u a, s.point u = .rele a .destroy → o (.fLock a) = none)
    (hthread : Thread { s with owner := o } t p) : Inv { s.move t p with owner := o } := by
  have hlive : ∀ a, Live { s.move t p with owner := o } a ↔ Live s a := fun a =>
    live_congr s _ rfl (keeps_update hkeeps)
  refine ⟨howned, fun a => ?_, ?_, ?_⟩
  · exact (h.object a).frame Iff.rfl rfl rfl (hlive a).mp rfl
  · refine (forall_update_iff s.point fun u q =>
      Thread { s.move t p with owner := o } u q).mpr ⟨?_, fun u _ => ?_⟩
    · exact hthread.frame (fun _ _ ha => ha) (fun _ _ => le_rfl) (fun _ _ _ => ⟨rfl, rfl⟩)
        (fun _ _ ha => ha) fun _ a _ ha => ⟨(hlive a).mpr ha, rfl⟩
    · exact (h.thread u).frame (fun _ _ ha => ha) (fun _ _ => le_rfl) (fun _ _ _ => ⟨rfl, rfl⟩)
        (fun a ha _ => hquiet u a ha) fun _ a _ ha => ⟨(hlive a).mpr ha, rfl⟩
  · unfold OnChains
    simp only [hlive]
    exact h.chains

omit [DecidableEq ι] in
lemma Thread.of_needs (hneeds : ∀ a, p.needs = some a → 0 < s.refs t a) (hholds : p.holds = [])
    (hkeeps : p.keeps = none) (hfound : p.found = none) : Thread s t p where
  held a ha := by
    rw [hholds] at ha
    cases ha
  needs := hneeds
  kept a ds ha := by
    rw [hkeeps] at ha
    cases ha
  quiet a ha := by
    rw [ha] at hkeeps
    cases hkeeps
  found id a ha := by
    rw [hfound] at ha
    cases ha

omit [DecidableEq ι] in
lemma Thread.outside (s : State ι) (t : ι) : Thread s t .outside :=
  .of_needs (fun a ha => by cases ha) rfl rfl rfl

lemma Inv.enter (h : Inv s) (ht : s.point t = .outside) (hp : Enters s t p) : Inv (s.move t p) := by
  have hpoint : p.holds = [] ∧ p.keeps = none ∧ p.found = none := by
    cases hp <;> exact ⟨rfl, rfl, rfl⟩
  obtain ⟨hholds, hkeeps, hfound⟩ := hpoint
  refine h.move (h.owned.move ?_) ?_ (fun u => (h.thread u).quiet)
    (.of_needs ?_ hholds hkeeps hfound)
  · rw [ht, hholds]
    rfl
  · rw [ht, hkeeps]
    rfl
  · intro a ha
    cases hp with
    | hold hpos | rele hpos =>
      cases ha
      exact hpos
    | find => cases ha

/-- A thread takes a lock.  If it is the lock of an object, the object is live: nobody is about to
free it. -/
lemma Inv.lock_step (h : Inv s) (hp : Locking (s.point t) l p) (hfree : s.owner l = none)
    (hneeds : ∀ a, p.needs = some a → 0 < s.refs t a)
    (hfound : ∀ id a, p.found = some (id, a) → Live s a ∧ (s.foo a).fId = id) :
    Inv ((s.own l (some t)).move t p) := by
  refine h.move (h.owned.take hfree hp.holds) hp.keeps (fun u a hu => ?_) ?_
  · have hl : .fLock a ≠ l := by
      rintro rfl
      have hkeeps : (s.point u).keeps = some (a, [.malloc, .link, .unlink]) := by
        rw [hu]
        rfl
      exact (h.live_of_waits hp.waits).2 u _ hkeeps
    exact (update_of_ne hl _ _).trans ((h.thread u).quiet a hu)
  · refine ⟨fun a ha => ?_, hneeds, ?_, fun a ha => absurd ha (hp.ne_destroy a), hfound⟩
    · obtain rfl | hl := (hp.holds _).mp ha
      · exact (h.live_of_waits hp.waits).1
      · exact (h.thread t).held a hl
    · rw [hp.keeps]
      exact (h.thread t).kept

lemma Inv.take (h : Inv s) (hp : Takes s (s.point t) l p) (hfree : s.owner l = none) :
    Inv ((s.own l (some t)).move t p) := by
  refine h.lock_step hp.locking hfree (fun a ha => ?_) fun id a ha => ?_
  · refine (h.thread t).needs a ?_
    generalize s.point t = q at hp
    cases hp <;> cases ha <;> rfl
  · generalize s.point t = q at hp
    cases hp with
    | hit hfp hs =>
      cases ha
      obtain ⟨fp, hsearch, hlive⟩ := h.search_spec id
      obtain rfl := Option.some.inj (hs.symm.trans hsearch)
      exact hlive hfp
    | alloc | miss | first | hash => cases ha

lemma Inv.drop (h : Inv s) (hp : Drops (s.point t) l p) : Inv ((unlock s l).move t p) := by
  have hkeeps : p.keeps = (s.point t).keeps := by
    generalize s.point t = q at hp
    cases hp <;> rfl
  refine h.move (h.owned.drop hp.mem_holds hp.holds) hkeeps (fun u a hu => ?_) ?_
  · by_cases hl : .fLock a = l
    · subst hl
      exact update_self _ _ _
    · exact (update_of_ne hl _ _).trans ((h.thread u).quiet a hu)
  · refine ⟨fun a ha => (h.thread t).held a ((hp.holds _).mp ha).2, fun a ha => ?_, ?_,
      fun a ha => ?_, fun id a ha => ?_⟩
    · refine (h.thread t).needs a ?_
      generalize s.point t = q at hp
      cases hp with
      | findObj id fp => exact (Option.ite_none_left_eq_some.mp ha).2
      | _ => first | exact ha | cases ha
    · rw [hkeeps]
      exact (h.thread t).kept
    · generalize s.point t = q at hp
      cases hp with
      | lastObj fp =>
        cases ha
        exact update_self _ _ _
      | _ => cases ha
    · refine (h.thread t).found id a ?_
      generalize s.point t = q at hp
      cases hp with
      | findObj id fp => exact (Option.ite_none_left_eq_some.mp ha).2
      | _ => cases ha

/-! ## Counting -/

omit [Fintype ι] in
@[simp] lemma refs_setRefs_self (s : State ι) (t : ι) (fp n : ℕ) :
    (s.setRefs t fp n).refs t fp = n := by
  simp [State.setRefs]

omit [Fintype ι] in
lemma refs_setRefs_of_ne_thread (s : State ι) (n : ℕ) (hu : u ≠ t) (a : ℕ) :
    (s.setRefs t fp n).refs u a = s.refs u a := by
  simp [State.setRefs, hu]

omit [Fintype ι] in
lemma refs_setRefs_of_ne (s : State ι) (t u : ι) (n : ℕ) (ha : a ≠ fp) :
    (s.setRefs t fp n).refs u a = s.refs u a := by
  by_cases hu : u = t
  · subst hu
    simp [State.setRefs, ha]
  · exact refs_setRefs_of_ne_thread s n hu a

omit [Fintype ι] in
lemma refs_le_setRefs (s : State ι) (t u : ι) (fp a n : ℕ) (hn : s.refs t fp ≤ n) :
    s.refs u a ≤ (s.setRefs t fp n).refs u a := by
  by_cases ha : a = fp
  · subst ha
    by_cases hu : u = t
    · subst hu
      rwa [refs_setRefs_self]
    · rw [refs_setRefs_of_ne_thread s n hu]
  · rw [refs_setRefs_of_ne s t u n ha]

lemma outstanding_setRefs_of_ne (s : State ι) (t : ι) (n : ℕ) (ha : a ≠ fp) :
    outstanding (s.setRefs t fp n) a = outstanding s a :=
  Finset.sum_congr rfl fun u _ => refs_setRefs_of_ne s t u n ha

lemma outstanding_setRefs_self (s : State ι) (t : ι) (fp n : ℕ) :
    outstanding (s.setRefs t fp n) fp + s.refs t fp = outstanding s fp + n := by
  have hsum := sum_update_add (fun r : ℕ → ℕ => r fp) s.refs t (update (s.refs t) fp n)
  rwa [update_self] at hsum

lemma outstanding_give (s : State ι) (t u : ι) (a : ℕ) (hpos : 0 < s.refs t fp) :
    outstanding ((s.setRefs t fp (s.refs t fp - 1)).setRefs u fp
      ((s.setRefs t fp (s.refs t fp - 1)).refs u fp + 1)) a = outstanding s a := by
  by_cases ha : a = fp
  · subst ha
    have hless := outstanding_setRefs_self s t a (s.refs t a - 1)
    have hmore := outstanding_setRefs_self (s.setRefs t a (s.refs t a - 1)) u a
      ((s.setRefs t a (s.refs t a - 1)).refs u a + 1)
    omega
  · rw [outstanding_setRefs_of_ne _ u _ ha, outstanding_setRefs_of_ne s t _ ha]

lemma Inv.give (h : Inv s) (ht : s.point t = .outside) (hpos : 0 < s.refs t fp) :
    Inv ((s.setRefs t fp (s.refs t fp - 1)).setRefs u fp
      ((s.setRefs t fp (s.refs t fp - 1)).refs u fp + 1)) := by
  have hsum := fun a => outstanding_give s t u a hpos
  refine ⟨h.owned, fun a => (h.object a).frame Iff.rfl (hsum a) rfl (fun ha => ha) rfl,
    fun v => ?_, h.chains⟩
  refine (h.thread v).frame (fun _ _ ha => ha) (fun a ha => ?_) (fun a _ _ => ⟨hsum a, rfl⟩)
    (fun _ _ ha => ha) fun _ _ _ ha => ⟨ha, rfl⟩
  have hvt : v ≠ t := by
    rintro rfl
    rw [ht] at ha
    cases ha
  calc s.refs v a = (s.setRefs t fp (s.refs t fp - 1)).refs v a :=
        (refs_setRefs_of_ne_thread s _ hvt a).symm
    _ ≤ _ := refs_le_setRefs _ u v fp a _ (Nat.le_succ _)

omit [Fintype ι] [DecidableEq ι] in
lemma foo_setCount_of_ne (s : State ι) (n : ℤ) (ha : a ≠ fp) :
    (setCount s fp n).foo a = s.foo a := by
  simp [setCount, ha]

omit [Fintype ι] [DecidableEq ι] in
lemma fId_setCount (s : State ι) (fp : ℕ) (n : ℤ) (a : ℕ) :
    ((setCount s fp n).foo a).fId = (s.foo a).fId := by
  by_cases ha : a = fp
  · subst ha
    simp [setCount]
  · rw [foo_setCount_of_ne s n ha]

omit [Fintype ι] [DecidableEq ι] in
lemma fNext_setCount (s : State ι) (fp : ℕ) (n : ℤ) (a : ℕ) :
    ((setCount s fp n).foo a).fNext = (s.foo a).fNext := by
  by_cases ha : a = fp
  · subst ha
    simp [setCount]
  · rw [foo_setCount_of_ne s n ha]

lemma Inv.recount {n k : ℕ} (h : Inv s) (hlive : Live s fp)
    (hn : outstanding (s.setRefs t fp k) fp = n) (hpos : 0 < n) (hle : n ≤ INT_MAX)
    (hrefs : ∀ u a, (s.point u).needs = some a → s.refs u a ≤ (s.setRefs t fp k).refs u a) :
    Inv ((setCount s fp n).setRefs t fp k) := by
  have hsame : outstanding ((setCount s fp n).setRefs t fp k) fp = n := hn
  have hother : ∀ a, a ≠ fp →
      outstanding ((setCount s fp n).setRefs t fp k) a = outstanding s a := fun a ha =>
    outstanding_setRefs_of_ne s t k ha
  have hid : ∀ a, (((setCount s fp n).setRefs t fp k).foo a).fId = (s.foo a).fId :=
    fId_setCount s fp n
  refine ⟨h.owned, fun a => ?_, fun u => ?_, ?_⟩
  · by_cases hafp : a = fp
    · subst hafp
      have hwrap : wrapSigned 4 (n : ℤ) = n := by
        unfold INT_MAX at hle
        exact toSigned_ofSigned (by norm_num; omega) (by norm_num; omega)
      exact {
        ne_zero := (h.object a).ne_zero
        alloced := iff_of_true hlive.1 (hsame.symm ▸ hpos)
        count := fun _ => by
          rw [hsame]
          simp [setCount, State.setRefs, hwrap]
        le := hsame.trans_le hle
        linked := (h.object a).linked
        gone := (h.object a).gone }
    · exact (h.object a).frame Iff.rfl (hother a hafp)
        (congrArg Foo.fCount (foo_setCount_of_ne s n hafp)) (fun ha => ha) rfl
  · refine (h.thread u).frame (fun _ _ ha => ha) (hrefs u) (fun a ds ha => ⟨hother a ?_, rfl⟩)
      (fun _ _ ha => ha) fun _ a _ ha => ⟨ha, hid a⟩
    rintro rfl
    exact hlive.2 u ds ha
  · obtain ⟨L, hL, hmem⟩ := h.chains
    refine ⟨L, hL.congr (fNext_setCount s fp n), fun i a => ?_⟩
    rw [hid]
    exact hmem i a

lemma Inv.count_up (h : Inv s) (hlive : Live s fp) (hroom : outstanding s fp < INT_MAX) :
    Inv (countUp s t fp) := by
  have hsum := outstanding_setRefs_self s t fp (s.refs t fp + 1)
  unfold countUp
  rw [(h.object fp).count hlive.1]
  refine h.recount (n := outstanding s fp + 1) hlive (by omega) (Nat.succ_pos _) hroom ?_
  exact fun u a _ => refs_le_setRefs s t u fp a _ (Nat.le_succ _)

lemma Inv.count_down (h : Inv s) (hlive : Live s fp) (hpos : 0 < s.refs t fp)
    (hne : (s.foo fp).fCount ≠ 1) (hneeds : (s.point t).needs = none) :
    Inv (countDown s t fp) := by
  have hsum := outstanding_setRefs_self s t fp (s.refs t fp - 1)
  have hcount := (h.object fp).count hlive.1
  have hle := (h.object fp).le
  have hrefs := refs_le s t fp
  have htwo : 2 ≤ outstanding s fp := by
    rw [hcount] at hne
    have : outstanding s fp ≠ 1 := fun hone => hne (by rw [hone]; rfl)
    omega
  have hcast : (outstanding s fp : ℤ) - 1 = (outstanding s fp - 1 : ℕ) := by omega
  unfold countDown
  rw [hcount, hcast]
  refine h.recount (n := outstanding s fp - 1) hlive (by omega) (by omega) (by omega) ?_
  intro u a hu
  have hut : u ≠ t := by
    rintro rfl
    rw [hneeds] at hu
    cases hu
  rw [refs_setRefs_of_ne_thread s _ hut]

lemma Inv.up (h : Inv s) (hp : CountsUp fp (s.point t) p) (hfree : s.owner (.fLock fp) = none)
    (hroom : outstanding s fp < INT_MAX) :
    Inv ((countUp (s.own (.fLock fp) (some t)) t fp).move t p) := by
  have h₁ : Inv (countUp s t fp) := h.count_up (h.live_of_waits hp.locking.waits) hroom
  refine h₁.lock_step hp.locking hfree (fun a ha => ?_) ?_
  · have hafp : a = fp := by
      generalize s.point t = q at hp
      cases hp <;> cases ha <;> rfl
    subst hafp
    exact (refs_setRefs_self _ t a _).symm ▸ Nat.succ_pos _
  · have hfound : p.found = (s.point t).found := by
      generalize s.point t = q at hp
      cases hp <;> rfl
    rw [hfound]
    exact (h₁.thread t).found

lemma Inv.down (h : Inv s) (hp : CountsDown fp (s.point t) p)
    (hfree : s.owner (.fLock fp) = none) (hne : (s.foo fp).fCount ≠ 1) :
    Inv ((countDown (s.own (.fLock fp) (some t)) t fp).move t p) := by
  have hlocking := hp.locking
  have hpoints : (s.point t).needs = some fp ∧ p.needs = none ∧ p.found = none := by
    generalize s.point t = q at hp
    cases hp <;> exact ⟨rfl, rfl, rfl⟩
  obtain ⟨hneeds, hneeds', hfound'⟩ := hpoints
  -- the thread goes on first: after that it does not rely on the reference any more
  have h₁ : Inv ((s.own (.fLock fp) (some t)).move t p) := by
    refine h.lock_step hlocking hfree (fun a ha => ?_) fun id a ha => ?_
    · rw [hneeds'] at ha
      cases ha
    · rw [hfound'] at ha
      cases ha
  have hlive : Live ((s.own (.fLock fp) (some t)).move t p) fp :=
    (live_congr s ((s.own (.fLock fp) (some t)).move t p) rfl (keeps_update hlocking.keeps)).mpr
      (h.live_of_waits hlocking.waits)
  refine h₁.count_down hlive ((h.thread t).needs fp hneeds) hne ?_
  exact (congrArg needs (update_self t p s.point)).trans hneeds'

end Invariant

end UnixPrograms.Mutex2
