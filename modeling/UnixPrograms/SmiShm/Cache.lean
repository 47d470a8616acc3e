import UnixPrograms.Lib.Runs
import UnixPrograms.SmiShm.Getaddr

/-!
# The table of attached segments when calls fail: getaddr of smi_shm.c

`shmdt` and `shmat` may fail, and a call with `shmid` -1 detaches everything.  If `shmat` fails
after a slot has been reclaimed, the slot keeps the segment that was detached, with the address
`(void *)-1`.  Otherwise the table is right, and the segment requested least recently is detached.
-/

namespace UnixPrograms.SmiShm

open Function List Mapped

/-- `getaddr (-1)`; a segment that `shmdt` does not detach is not in the table any more either. -/
def Mapped.cleanup (t : Mapped) (detaches : Fin MAX_ATTACHED → Bool) : Mapped :=
  { t with
    slots := fun i => { t.slots i with shmid := -1 }
    attached := fun a =>
      if ∃ i, (t.slots i).shmid ≠ -1 ∧ (t.slots i).addr = a ∧ detaches i = true then none
      else t.attached a }

structure Cache where
  table : Mapped
  last : ℤ → ℤ

inductive Call
  | request (shmid : ℤ) (detaches : Bool) (attach : Option ℕ)
  | cleanup (detaches : Fin MAX_ATTACHED → Bool)

def Cache.start : Cache := ⟨.start, fun _ => 0⟩

def Cache.step (c : Cache) : Call → Option Cache
  | .request shmid detaches attach =>
    if shmid = -1 then none
    else (c.table.request shmid detaches attach).map fun r =>
      ⟨r.1, update c.last shmid (c.table.clock + 1)⟩
  | .cleanup detaches => some { c with table := c.table.cleanup detaches }

/-- No slot has the segment, and none is free. -/
def Mapped.Reclaims (t : Mapped) (shmid : ℤ) : Prop := t.find shmid = none ∧ t.find (-1) = none

instance (t : Mapped) (shmid : ℤ) : Decidable (t.Reclaims shmid) :=
  inferInstanceAs (Decidable (_ ∧ _))

/-- `shmat` does not fail after a slot has been reclaimed, no `shmdt` fails in a cleanup, and the
clock stays in the range of an `int`. -/
def Careful (c : Cache) : Call → Prop
  | .request shmid detaches attach => c.table.clock + 1 < 2 ^ 31 ∧
      (c.table.Reclaims shmid → detaches = true → attach ≠ none)
  | .cleanup detaches => ∀ i, detaches i = true

instance (c : Cache) : DecidablePred (Careful c)
  | .request .. => inferInstanceAs (Decidable (_ ∧ (_ → _ → _)))
  | .cleanup _ => inferInstanceAs (Decidable (∀ _, _))

/-! ## The least recent segment -/

variable {t t' : Mapped} {shmid : ℤ} {a : ℕ} {i : Fin MAX_ATTACHED} {c c' : Cache} {call : Call}

lemma oldest_foldl (ht : ∀ i, 1 ≤ (t.slots i).time ∧ (t.slots i).time < 2 ^ 31)
    (l : List (Fin MAX_ATTACHED)) {x : ℤ × Fin MAX_ATTACHED} (hx : x.1 = (t.slots x.2).time) :
    let y := l.foldl (fun x i => if x.1 = -1 ∨ (t.slots i).time < x.1 then
      (wrapSigned 4 (t.slots i).time, i) else x) x
    y.1 = (t.slots y.2).time ∧ y.1 ≤ x.1 ∧ ∀ i ∈ l, y.1 ≤ (t.slots i).time := by
  induction l generalizing x with
  | nil => exact ⟨hx, le_rfl, by simp⟩
  | cons i l ih =>
    have hx1 : x.1 ≠ -1 := by have := ht x.2; omega
    have hwrap : wrapSigned 4 (t.slots i).time = (t.slots i).time :=
      toSigned_ofSigned (by have := ht i; omega) (by have := ht i; omega)
    simp only [foldl_cons, hx1, false_or, forall_mem_cons, hwrap] at ih ⊢
    split
    · obtain ⟨htime, hle, hall⟩ := ih (x := ((t.slots i).time, i)) rfl
      exact ⟨htime, by omega, hle, hall⟩
    · obtain ⟨htime, hle, hall⟩ := ih hx
      exact ⟨htime, hle, by omega, hall⟩

lemma Mapped.oldest_le (ht : ∀ i, 1 ≤ (t.slots i).time ∧ (t.slots i).time < 2 ^ 31)
    (i : Fin MAX_ATTACHED) : (t.slots t.oldest).time ≤ (t.slots i).time := by
  have hmem := mem_finRange i
  obtain ⟨j, l, hl⟩ := exists_cons_of_ne_nil (ne_nil_of_mem hmem)
  have hwrap : wrapSigned 4 (t.slots j).time = (t.slots j).time :=
    toSigned_ofSigned (by have := ht j; omega) (by have := ht j; omega)
  rw [hl, mem_cons] at hmem
  obtain ⟨htime, hle, hall⟩ := oldest_foldl ht l (x := ((t.slots j).time, j)) rfl
  rw [oldest, hl, foldl_cons, if_pos (.inl rfl), hwrap, ← htime]
  rcases hmem with rfl | hmem
  · exact hle
  · exact hall i hmem

/-! ## The table along a run -/

def Slot.Has (x : Slot) (a : ℕ) (y : ℤ) : Prop := x.shmid = y ∧ x.addr = a ∧ y ≠ -1

/-- The table has what is attached, and when it was last asked for. -/
structure Cache.Good (c : Cache) : Prop where
  /-- The segments that are attached are those in the table. -/
  attached : ∀ a y, c.table.attached a = some y ↔ ∃ i, (c.table.slots i).Has a y
  injective : ∀ i j, (c.table.slots i).shmid ≠ -1 →
    (c.table.slots i).shmid = (c.table.slots j).shmid → i = j
  time : ∀ i, (c.table.slots i).shmid ≠ -1 →
    (c.table.slots i).time = c.last (c.table.slots i).shmid ∧ 1 ≤ (c.table.slots i).time ∧
      (c.table.slots i).time ≤ c.table.clock
  clock : 0 ≤ c.table.clock ∧ c.table.clock < 2 ^ 31

lemma Cache.good_start : Cache.start.Good :=
  ⟨fun _ _ => ⟨nofun, fun ⟨_, h, _, hne⟩ => absurd h.symm hne⟩, fun _ _ h => absurd rfl h,
    fun _ h => absurd rfl h, by decide⟩

/-- A request for `shmid`, after which the slot `i` holds `x`. -/
lemma Cache.Good.put (h : c.Good) (hclock : c.table.clock + 1 < 2 ^ 31) {x : Slot}
    (hslots : t'.slots = update c.table.slots i x) (htick : t'.clock = c.table.clock + 1)
    (hnew : ∀ j, j ≠ i → (c.table.slots j).shmid ≠ shmid)
    (hattached : ∀ a y, t'.attached a = some y ↔
      x.Has a y ∨ ∃ j, j ≠ i ∧ (c.table.slots j).Has a y)
    (hx : x.shmid = -1 ∨ x.shmid = shmid ∧ x.time = c.table.clock + 1) :
    Cache.Good ⟨t', update c.last shmid (c.table.clock + 1)⟩ := by
  have hpos := h.clock
  refine ⟨fun a y => ?_, ?_, ?_, by dsimp only; omega⟩ <;> dsimp only <;> rw [hslots]
  · rw [hattached, exists_update_iff c.table.slots fun _ s => s.Has a y]
  · exact injective_update h.injective fun hne j hj => (hx.resolve_left hne).1 ▸ hnew j hj
  · rw [forall_update_iff c.table.slots fun _ s => s.shmid ≠ -1 →
      s.time = update c.last shmid (c.table.clock + 1) s.shmid ∧ 1 ≤ s.time ∧ s.time ≤ t'.clock]
    refine ⟨fun hne => ?_, fun j hj hne => ?_⟩
    · obtain ⟨hshmid, htime⟩ := hx.resolve_left hne
      rw [hshmid, update_self]
      omega
    · have := h.time j hne
      rw [update_of_ne (hnew j hj)]
      omega

lemma Cache.Good.quiet (h : c.Good) (hclock : c.table.clock + 1 < 2 ^ 31)
    (hnew : ∀ i, (c.table.slots i).shmid ≠ shmid) :
    Cache.Good ⟨c.table.tick, update c.last shmid (c.table.clock + 1)⟩ := by
  have hpos := h.clock
  refine ⟨h.attached, h.injective, fun i hi => ?_, by dsimp only [tick]; omega⟩
  have := h.time i hi
  dsimp only [tick]
  rw [update_of_ne (hnew i)]
  omega

lemma Mapped.makeRoom_slots (t : Mapped) :
    t.makeRoom.1.slots = t.slots ∧ t.makeRoom.1.clock = t.clock := by
  unfold makeRoom
  cases t.find (-1) <;> exact ⟨rfl, rfl⟩

lemma Cache.Good.makeRoom (h : c.Good) : ∀ a y, c.table.tick.makeRoom.1.attached a = some y ↔
    ∃ j, j ≠ c.table.tick.makeRoom.2 ∧ (c.table.slots j).Has a y := by
  intro a y
  unfold Mapped.makeRoom
  cases hfree : c.table.tick.find (-1) with
  | some avail =>
    refine (h.attached a y).trans (exists_congr fun j => ⟨fun hj => ⟨?_, hj⟩, And.right⟩)
    rintro rfl
    exact hj.2.2 (hj.1.symm.trans (shmid_of_find hfree))
  | none =>
    have hold := (h.attached _ _).mpr
      ⟨c.table.oldest, rfl, rfl, shmid_ne_of_find hfree c.table.oldest⟩
    change update c.table.attached (c.table.slots c.table.oldest).addr none a = some y ↔ _
    rcases eq_or_ne a (c.table.slots c.table.oldest).addr with rfl | ha
    · rw [update_self]
      refine iff_of_false nofun fun ⟨j, hj, hhas⟩ => hj ?_
      have hy := (h.attached _ y).mpr ⟨j, hhas⟩
      rw [hold, Option.some.injEq] at hy
      exact h.injective j _ (hhas.1 ▸ hhas.2.2) (hhas.1.trans hy.symm)
    · rw [update_of_ne ha, h.attached]
      refine exists_congr fun j => ⟨fun hj => ⟨?_, hj⟩, And.right⟩
      rintro rfl
      exact ha hj.2.1.symm

lemma Cache.Good.request (h : c.Good) (hne : shmid ≠ -1) {detaches : Bool} {attach : Option ℕ}
    {r : Option ℕ} (hcareful : Careful c (.request shmid detaches attach))
    (hreq : c.table.request shmid detaches attach = some (t', r)) :
    Cache.Good ⟨t', update c.last shmid (c.table.clock + 1)⟩ ∧
      ∀ a, r = some a → t'.attached a = some shmid := by
  obtain ⟨hclock, hreclaim⟩ := hcareful
  rw [Mapped.request] at hreq
  dsimp only at hreq
  split at hreq
  · rename_i i hi
    obtain ⟨rfl, rfl⟩ := Prod.mk.inj (Option.some.inj hreq)
    have hshmid : (c.table.slots i).shmid = shmid := shmid_of_find hi
    have hused := hshmid ▸ hne
    refine ⟨h.put hclock rfl rfl (fun j hj he => hj ?_) (fun a y => ?_) (.inr ⟨hshmid, rfl⟩),
      fun a ha => ?_⟩
    · exact (h.injective i j hused (hshmid.trans he.symm)).symm
    · have hsplit := exists_update_iff c.table.slots (a := i) (b := c.table.slots i)
        fun _ s => s.Has a y
      rw [update_eq_self] at hsplit
      exact (h.attached a y).trans hsplit
    · obtain rfl := Option.some.inj ha
      exact (h.attached _ _).mpr ⟨i, hshmid, rfl, hne⟩
  · rename_i hfind
    have hnew := shmid_ne_of_find (t := c.table) hfind
    split_ifs at hreq with hfail
    · obtain ⟨rfl, rfl⟩ := Prod.mk.inj (Option.some.inj hreq)
      exact ⟨h.quiet hclock hnew, fun a ha => by cases ha⟩
    obtain ⟨hslots, huclock⟩ := makeRoom_slots c.table.tick
    have hkept := h.makeRoom
    cases attach with
    | none =>
      -- the slot was free, so that its address does not matter
      obtain ⟨rfl, rfl⟩ := Prod.mk.inj (Option.some.inj hreq)
      cases hfree : c.table.find (-1) with
      | none =>
        cases detaches with
        | true => exact absurd rfl (hreclaim ⟨hfind, hfree⟩ rfl)
        | false => exact absurd ⟨hfree, rfl⟩ hfail
      | some avail =>
        have hroom : c.table.tick.makeRoom = (c.table.tick, avail) := by
          unfold Mapped.makeRoom
          rw [show c.table.tick.find (-1) = some avail from hfree]
        rw [hroom] at hkept ⊢
        have hminus := shmid_of_find hfree
        refine ⟨h.put hclock rfl rfl (fun j _ => hnew j) (fun a y => ?_) (.inl hminus),
          fun a ha => by cases ha⟩
        exact (hkept a y).trans (or_iff_right fun hhas => hhas.2.2 (hhas.1.symm.trans hminus)).symm
    | some addr =>
      dsimp only at hreq
      split_ifs at hreq with hroom
      obtain ⟨rfl, rfl⟩ := Prod.mk.inj (Option.some.inj hreq)
      refine ⟨h.put hclock (congrArg (update · _ _) hslots) huclock (fun j _ => hnew j)
        (fun a y => ?_) (.inr ⟨rfl, huclock⟩), fun a ha => ?_⟩
      · change update c.table.tick.makeRoom.1.attached addr (some shmid) a = some y ↔ _
        rw [← hkept]
        rcases eq_or_ne a addr with rfl | ha
        · rw [update_self, hroom, Option.some.injEq]
          exact ⟨fun hy => .inl ⟨hy, rfl, hy ▸ hne⟩, fun hy => (hy.resolve_right (by simp)).1⟩
        · rw [update_of_ne ha]
          exact (or_iff_right fun hhas => ha hhas.2.1.symm).symm
      · obtain rfl := Option.some.inj ha
        exact update_self ..

lemma Cache.Good.step (h : c.Good) (hst : c.step call = some c') (hcareful : Careful c call) :
    c'.Good := by
  cases call with
  | request shmid detaches attach =>
    rw [Cache.step] at hst
    split_ifs at hst with hne
    obtain ⟨⟨t', r⟩, hreq, rfl⟩ := Option.map_eq_some_iff.mp hst
    exact (h.request hne hcareful hreq).1
  | cleanup detaches =>
    obtain rfl := Option.some.inj hst
    refine ⟨fun a y => iff_of_false (fun hy => ?_) fun ⟨_, hhas⟩ => hhas.2.2 hhas.1.symm,
      fun _ _ hi => absurd rfl hi, fun _ hi => absurd rfl hi, h.clock⟩
    change (if _ then none else c.table.attached a) = some y at hy
    split_ifs at hy with hnone
    obtain ⟨i, rfl, haddr, hne⟩ := (h.attached a y).mp hy
    exact absurd ⟨i, hne, haddr, hcareful i⟩ hnone

lemma Mapped.detached_of_request {detaches : Bool} {attach r : Option ℕ} {x : ℤ}
    (hreq : t.request shmid detaches attach = some (t', r)) (ha : t.attached a = some x)
    (hgone : t'.attached a ≠ some x) : t.find (-1) = none ∧ a = (t.slots t.oldest).addr := by
  rw [request] at hreq
  dsimp only at hreq
  split at hreq
  · obtain ⟨rfl, -⟩ := Prod.mk.inj (Option.some.inj hreq)
    exact absurd ha hgone
  split_ifs at hreq
  · obtain ⟨rfl, -⟩ := Prod.mk.inj (Option.some.inj hreq)
    exact absurd ha hgone
  -- `shmat` attaches at an address that is free
  have hroom : t.tick.makeRoom.1.attached a ≠ some x := by
    intro hkept
    cases attach with
    | none =>
      obtain ⟨rfl, -⟩ := Prod.mk.inj (Option.some.inj hreq)
      exact hgone hkept
    | some addr =>
      dsimp only at hreq
      split_ifs at hreq with hfree
      obtain ⟨rfl, -⟩ := Prod.mk.inj (Option.some.inj hreq)
      have hne : a ≠ addr := fun he => by simp [← he, hkept] at hfree
      exact hgone ((update_of_ne hne ..).trans hkept)
  unfold makeRoom at hroom
  cases hfind : t.tick.find (-1) with
  | some avail =>
    rw [hfind] at hroom
    exact absurd ha hroom
  | none =>
    rw [hfind] at hroom
    refine ⟨hfind, by_contra fun hne => hroom ?_⟩
    exact (update_of_ne hne ..).trans ha

/-- In a careful run, no two slots hold one segment, an address that `getaddr` returns is one where
the segment is attached, and a segment that it detaches is the one that was requested least
recently. -/
theorem getaddr_correct {calls : List Call} (hrun : RunWhen Cache.step Careful .start calls c)
    (hne : shmid ≠ -1) {detaches : Bool} {attach r : Option ℕ}
    (hcareful : Careful c (.request shmid detaches attach))
    (hreq : c.table.request shmid detaches attach = some (t', r)) :
    (∀ i j, (t'.slots i).shmid ≠ -1 → (t'.slots i).shmid = (t'.slots j).shmid → i = j) ∧
      (∀ a, r = some a → t'.attached a = some shmid) ∧
      ∀ a x, c.table.attached a = some x → t'.attached a ≠ some x →
        ∀ b y, c.table.attached b = some y → c.last x ≤ c.last y := by
  have h : c.Good := hrun.invariant Cache.good_start fun _ _ _ h hst hC => h.step hst hC
  obtain ⟨hgood, hreturned⟩ := h.request hne hcareful hreq
  refine ⟨hgood.injective, hreturned, fun a x ha hgone b y hb => ?_⟩
  obtain ⟨hfull, rfl⟩ := detached_of_request hreq ha hgone
  have hused := shmid_ne_of_find hfull
  have hold := (h.attached _ _).mpr ⟨c.table.oldest, rfl, rfl, hused c.table.oldest⟩
  rw [ha, Option.some.injEq] at hold
  obtain ⟨i, rfl, -, -⟩ := (h.attached b y).mp hb
  rw [hold, ← (h.time _ (hused _)).1, ← (h.time _ (hused i)).1]
  refine oldest_le (fun i => ?_) i
  have := h.time i (hused i)
  have := h.clock
  omega

/-- Twenty segments are attached; for another one `shmdt` fails first, then it gets the slot of the
first. -/
def reclaiming : List Call := (range 20).map (fun k => .request k false (some k)) ++
  [.request 20 false none, .request 20 true (some 20)]

/-- The first segment is requested again: the second one is detached, and is the least recent. -/
theorem getaddr_correct_reclaims : ∃ c, RunWhen Cache.step Careful .start reclaiming c ∧
    ∃ t', c.table.request 0 true (some 21) = some (t', some 21) ∧ t'.attached 21 = some 0 ∧
      c.table.attached 1 = some 1 ∧ t'.attached 1 = none ∧
      ∀ b y, c.table.attached b = some y → c.last 1 ≤ c.last y := by
  have hrun : ∃ c, RunWhen Cache.step Careful .start reclaiming c ∧
      Careful c (.request 0 true (some 21)) ∧ ∃ t', c.table.request 0 true (some 21) =
        some (t', some 21) ∧ c.table.attached 1 = some 1 ∧ t'.attached 1 = none :=
    ⟨_, runWhen_of_guarded (c := fun c l => decide (Careful c l)) (fun _ _ => of_decide_eq_true)
      (runFrom_of_replay rfl), by decide, _, rfl, rfl, rfl⟩
  obtain ⟨c, hrun, hcareful, t', hreq, hone, hnone⟩ := hrun
  obtain ⟨-, hreturned, hleast⟩ := getaddr_correct hrun (by decide) hcareful hreq
  exact ⟨c, hrun, t', hreq, hreturned 21 rfl, hone, hnone,
    hleast 1 1 hone (by rw [hnone]; exact nofun)⟩

/-- Twenty segments are attached.  When another one is requested, the first is detached and `shmat`
fails.  The next request for the first gets `(void *)-1`. -/
theorem getaddr_stale : ∃ c : Cache, RunFrom Cache.step .start
    ((range 20).map (fun k => .request k false (some k)) ++ [.request 20 true none]) c ∧
      ∃ t', c.table.request 0 true none = some (t', some failed) ∧ t'.attached failed = none :=
  ⟨_, runFrom_of_replay rfl, _, rfl, rfl⟩

end UnixPrograms.SmiShm
