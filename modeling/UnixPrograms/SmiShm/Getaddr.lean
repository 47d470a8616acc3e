import UnixPrograms.Lib.Memory
import Mathlib.Data.List.FinRange

/-!
# The segments that the server has attached: getaddr of smi_shm.c

The server keeps up to `MAX_ATTACHED` segments of clients attached, and detaches the one that it has
not used for the longest time.  `shmat` attaches at any address that is free.  As long as no call
fails and there is no cleanup, the table is sound.
-/

namespace UnixPrograms.SmiShm

open Function

def MAX_ATTACHED : ℕ := 20

instance : NeZero MAX_ATTACHED := ⟨by decide⟩

/-- An element of `mapped`; `shmid` is -1 if it is not in use. -/
structure Slot where
  shmid : ℤ
  addr : ℕ
  time : ℤ

/-- The static variables of `getaddr`, and the segments that the process has attached. -/
structure Mapped where
  slots : Fin MAX_ATTACHED → Slot
  clock : ℤ
  attached : ℕ → Option ℤ

def Mapped.start : Mapped where
  slots _ := ⟨-1, 0, 0⟩
  clock := 0
  attached _ := none

def Mapped.find (t : Mapped) (shmid : ℤ) : Option (Fin MAX_ATTACHED) :=
  (List.finRange MAX_ATTACHED).find? fun i => (t.slots i).shmid = shmid

/-- The loop that looks for the oldest element.  The time is a `long`, but `oldest` is an `int`. -/
def Mapped.oldest (t : Mapped) : Fin MAX_ATTACHED :=
  ((List.finRange MAX_ATTACHED).foldl (fun x i =>
      if x.1 = -1 ∨ (t.slots i).time < x.1 then (wrapSigned 4 (t.slots i).time, i) else x)
    ((-1 : ℤ), (0 : Fin MAX_ATTACHED))).2

def Mapped.shmdt (t : Mapped) (addr : ℕ) : Mapped :=
  { t with attached := update t.attached addr none }

def Mapped.enter (t : Mapped) (avail : Fin MAX_ATTACHED) (shmid : ℤ) (addr : ℕ) : Mapped :=
  { t with
    slots := update t.slots avail ⟨shmid, addr, t.clock⟩
    attached := update t.attached addr (some shmid) }

def Mapped.makeRoom (t : Mapped) : Mapped × Fin MAX_ATTACHED :=
  match t.find (-1) with
  | some avail => (t, avail)
  | none => (t.shmdt (t.slots t.oldest).addr, t.oldest)

/-- `(void *)-1`. -/
def failed : ℕ := 2 ^ 64 - 1

/-- `clock++`. -/
def Mapped.tick (t : Mapped) : Mapped := { t with clock := t.clock + 1 }

/-- `getaddr`, where `shmdt` succeeds or not and `shmat` gives an address or fails; `none` if that
address is not free.  With the value returned, which is `none` for `NULL`. -/
def Mapped.request (t : Mapped) (shmid : ℤ) (detaches : Bool) (attach : Option ℕ) :
    Option (Mapped × Option ℕ) :=
  let t := t.tick
  match t.find shmid with
  | some i =>
    let slots := update t.slots i { t.slots i with time := t.clock }
    some ({ t with slots }, some (t.slots i).addr)
  | none =>
    if t.find (-1) = none ∧ detaches = false then some (t, none)
    else
      let (t, avail) := t.makeRoom
      match attach with
      | none =>
        some ({ t with slots := update t.slots avail { t.slots avail with addr := failed } }, none)
      | some addr => if t.attached addr = none then some (t.enter avail shmid addr, addr) else none

/-- `getaddr` where no call fails, with the address that `shmat` returns if it is called. -/
def Mapped.getaddr (t : Mapped) (shmid : ℤ) (addr : ℕ) : Option (Mapped × ℕ) :=
  (t.request shmid true (some addr)).bind fun r => r.2.map fun a => (r.1, a)

/-- The segments of the table are attached at their addresses, and none is there twice. -/
structure Mapped.Sound (t : Mapped) : Prop where
  attached : ∀ i, (t.slots i).shmid ≠ -1 →
    t.attached (t.slots i).addr = some (t.slots i).shmid
  injective : ∀ i j, (t.slots i).shmid ≠ -1 → (t.slots i).shmid = (t.slots j).shmid → i = j

lemma Mapped.sound_start : Mapped.start.Sound where
  attached _ h := absurd rfl h
  injective _ _ h := absurd rfl h

variable {t t' : Mapped} {shmid : ℤ} {addr a : ℕ} {i : Fin MAX_ATTACHED}

lemma Mapped.shmid_of_find (h : t.find shmid = some i) : (t.slots i).shmid = shmid := by
  simpa using List.find?_some h

lemma Mapped.shmid_ne_of_find (h : t.find shmid = none) (i : Fin MAX_ATTACHED) :
    (t.slots i).shmid ≠ shmid := by
  have hall := List.find?_eq_none.mp h i (List.mem_finRange i)
  simpa using hall

lemma injective_update {slots : Fin MAX_ATTACHED → Slot} {x : Slot}
    (h : ∀ i j, (slots i).shmid ≠ -1 → (slots i).shmid = (slots j).shmid → i = j)
    (hnew : x.shmid ≠ -1 → ∀ j, j ≠ i → (slots j).shmid ≠ x.shmid) (j k : Fin MAX_ATTACHED)
    (hj : (update slots i x j).shmid ≠ -1)
    (hjk : (update slots i x j).shmid = (update slots i x k).shmid) : j = k := by
  by_cases hji : j = i <;> by_cases hki : k = i
  · rw [hji, hki]
  · rw [hji, update_self] at hj hjk
    rw [update_of_ne hki] at hjk
    exact absurd hjk.symm (hnew hj k hki)
  · rw [hki, update_self] at hjk
    rw [hjk] at hj
    rw [update_of_ne hji] at hjk
    exact absurd hjk (hnew hj j hji)
  · rw [update_of_ne hji] at hj hjk
    rw [update_of_ne hki] at hjk
    exact h j k hj hjk

lemma Mapped.Sound.put (h : t.Sound) {x : Slot} (hslots : t'.slots = update t.slots i x)
    (hkept : ∀ j, j ≠ i → (t.slots j).shmid ≠ -1 →
      t'.attached (t.slots j).addr = some (t.slots j).shmid)
    (hx : t'.attached x.addr = some x.shmid)
    (hnew : ∀ j, j ≠ i → (t.slots j).shmid ≠ x.shmid) : t'.Sound := by
  constructor <;> rw [hslots]
  · rw [forall_update_iff t.slots fun _ s => s.shmid ≠ -1 → t'.attached s.addr = some s.shmid]
    exact ⟨fun _ => hx, hkept⟩
  · exact injective_update h.injective fun _ => hnew

lemma Mapped.Sound.makeRoom (h : t.Sound) :
    (t.makeRoom).1.slots = t.slots ∧ ∀ i, i ≠ t.makeRoom.2 → (t.slots i).shmid ≠ -1 →
      (t.makeRoom).1.attached (t.slots i).addr = some (t.slots i).shmid := by
  unfold Mapped.makeRoom
  cases hfree : t.find (-1) with
  | some avail => exact ⟨rfl, fun i _ hi => h.attached i hi⟩
  | none =>
    refine ⟨rfl, fun i hne hi => ?_⟩
    have hold := h.attached t.oldest (Mapped.shmid_ne_of_find hfree t.oldest)
    have haddr : (t.slots i).addr ≠ (t.slots t.oldest).addr := by
      intro heq
      -- one address has one segment
      have hi' := h.attached i hi
      rw [heq, hold, Option.some.injEq] at hi'
      exact hne (h.injective i t.oldest hi hi'.symm)
    change update t.attached _ none _ = _
    rw [update_of_ne haddr]
    exact h.attached i hi

lemma Mapped.Sound.getaddr (h : t.Sound) (hshmid : shmid ≠ -1)
    (hget : t.getaddr shmid addr = some (t', a)) : t'.Sound ∧ t'.attached a = some shmid := by
  obtain ⟨⟨u, r⟩, hreq, hr⟩ := Option.bind_eq_some_iff.mp hget
  obtain ⟨a, rfl, heq⟩ := Option.map_eq_some_iff.mp hr
  obtain ⟨rfl, rfl⟩ := Prod.mk.inj heq
  have hclock : t.tick.Sound := ⟨h.attached, h.injective⟩
  rw [Mapped.request] at hreq
  dsimp only at hreq
  split at hreq
  · rename_i i hfind
    obtain ⟨rfl, ha⟩ := Prod.mk.inj (Option.some.inj hreq)
    obtain rfl := Option.some.inj ha
    obtain rfl : (t.slots i).shmid = shmid := Mapped.shmid_of_find hfind
    have hattached := h.attached i hshmid
    refine ⟨h.put rfl (fun j _ => h.attached j) hattached fun j hj he => ?_, hattached⟩
    exact hj (h.injective i j hshmid he.symm).symm
  · rename_i hfind
    obtain ⟨hslots, hrest⟩ := hclock.makeRoom
    have hnew := Mapped.shmid_ne_of_find hfind
    rw [if_neg (by simp)] at hreq
    split_ifs at hreq with hfree
    obtain ⟨rfl, ha⟩ := Prod.mk.inj (Option.some.inj hreq)
    obtain rfl := Option.some.inj ha
    refine ⟨h.put (congrArg (update · _ _) hslots) (fun j hj hne => ?_) (update_self ..)
      fun j _ => hnew j, update_self ..⟩
    have hold : t.tick.makeRoom.1.attached (t.slots j).addr = some (t.slots j).shmid :=
      hrest j hj hne
    have haddr : (t.slots j).addr ≠ addr := by
      intro heq
      rw [heq, hfree] at hold
      cases hold
    exact (update_of_ne haddr ..).trans hold

end UnixPrograms.SmiShm
