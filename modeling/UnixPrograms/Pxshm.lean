import UnixPrograms.Lib.CircularBuffer
import UnixPrograms.Lib.Runs
import UnixPrograms.Lib.Sums

/-!
# Messages in shared memory: client2 and server2

A client reserves a slot under `mutex`, fills it later and posts `nstored`; the server takes a unit
and prints the next slot.  The unit may be of a client with a later slot, and then a slot is printed
that has been reserved and not filled.  Nothing else goes wrong (`prints_iff`).
-/

namespace UnixPrograms.Pxshm

open Function List Option

def NMESG : ℕ := 16

/-- What a client is in front of, with the slot at its `offset`. -/
inductive ClientPc where
  | trywait
  | waitMutex
  | postMutex (slot : ℕ)
  | strcpy (slot : ℕ)
  | postNstored
  deriving DecidableEq

structure Client where
  pc : ClientPc
  i : ℕ

inductive ServerPc where
  | waitNstored
  | waitMutex
  | printf
  | postMutex
  | postNempty
  | overflow
  deriving DecidableEq

abbrev Message (ι : Type) := ι × ℕ

structure State (ι : Type) where
  mutex : ℕ
  nempty : ℕ
  nstored : ℕ
  nput : ℕ
  noverflow : ℕ
  /-- The message that has been stored in a slot since it was printed last. -/
  msgdata : ℕ → Option (Message ι)
  client : ι → Client
  server : ServerPc
  index : ℕ
  lastnoverflow : ℕ
  /-- The messages with a slot, in the order of their reservations. -/
  reserved : List (Message ι)
  posted : List (Message ι)
  printed : List (Option (Message ι))

def start (ι : Type) : State ι where
  mutex := 1
  nempty := NMESG
  nstored := 0
  nput := 0
  noverflow := 0
  msgdata _ := none
  client _ := ⟨.trywait, 0⟩
  server := .waitNstored
  index := 0
  lastnoverflow := 0
  reserved := []
  posted := []
  printed := []

/-- `if (++n >= NMESG) n = 0;` -/
def next (n : ℕ) : ℕ := if n + 1 ≥ NMESG then 0 else n + 1

section Step

variable {ι : Type} [DecidableEq ι]

def State.put (s : State ι) (c : ι) (x : Client) : State ι :=
  { s with client := update s.client c x }

/-- One step of a client, which may stop after any round.  What is done under `noverflowmutex` is
one step. -/
def clientStep (s : State ι) (c : ι) : Option (State ι) :=
  let i := (s.client c).i
  match (s.client c).pc with
  | .trywait =>
    if s.nempty = 0 then some { s.put c ⟨.trywait, i + 1⟩ with noverflow := s.noverflow + 1 }
    else some { s.put c ⟨.waitMutex, i⟩ with nempty := s.nempty - 1 }
  | .waitMutex =>
    if s.mutex = 0 then none
    else
      some { s.put c ⟨.postMutex s.nput, i⟩ with
        mutex := s.mutex - 1
        nput := next s.nput
        reserved := s.reserved ++ [(c, i)] }
  | .postMutex k => some { s.put c ⟨.strcpy k, i⟩ with mutex := s.mutex + 1 }
  | .strcpy k => some { s.put c ⟨.postNstored, i⟩ with msgdata := update s.msgdata k (some (c, i)) }
  | .postNstored =>
    some { s.put c ⟨.trywait, i + 1⟩ with
      nstored := s.nstored + 1
      posted := s.posted ++ [(c, i)] }

def serverStep (s : State ι) : Option (State ι) :=
  match s.server with
  | .waitNstored =>
    if s.nstored = 0 then none
    else some { s with nstored := s.nstored - 1, server := .waitMutex }
  | .waitMutex =>
    if s.mutex = 0 then none else some { s with mutex := s.mutex - 1, server := .printf }
  | .printf =>
    some { s with
      printed := s.printed ++ [s.msgdata s.index]
      msgdata := update s.msgdata s.index none
      index := next s.index
      server := .postMutex }
  | .postMutex => some { s with mutex := s.mutex + 1, server := .postNempty }
  | .postNempty => some { s with nempty := s.nempty + 1, server := .overflow }
  | .overflow => some { s with lastnoverflow := s.noverflow, server := .waitNstored }

def step (s : State ι) : Option ι → Option (State ι)
  | none => serverStep s
  | some c => clientStep s c

end Step

variable {ι : Type}

/-- The slot that has been reserved and not yet filled. -/
def ClientPc.filling : ClientPc → Option ℕ
  | .postMutex k | .strcpy k => some k
  | _ => none

def ClientPc.reserves : ClientPc → Bool
  | .postMutex _ | .strcpy _ | .postNstored => true
  | _ => false

/-- Every line is a message stored in its slot since that was printed last, and no message is
printed twice.  When the server waits for `nstored`, and no client has yet to post it, all messages
that have been posted are printed. -/
structure Prints (s : State ι) : Prop where
  stored : none ∉ s.printed
  once : s.printed.Nodup
  posted : s.server = .waitNstored → s.nstored = 0 → (∀ c, (s.client c).pc.reserves = false) →
    ∀ m ∈ s.posted, some m ∈ s.printed

/-- The slot that the server prints is not still being filled. -/
def Filled (s : State ι) (l : Option ι) : Prop :=
  l = none → s.server = .printf → ∀ c, (s.client c).pc.filling ≠ some s.index

/-! ## The messages in the ring -/

def ClientPc.waits (pc : ClientPc) : ℕ := if pc = .waitMutex then 1 else 0

def ServerPc.taken : ServerPc → ℕ
  | .waitMutex | .printf => 1
  | _ => 0

def ServerPc.given : ServerPc → ℕ
  | .postMutex | .postNempty => 1
  | _ => 0

/-- The client of the message has yet to store it. -/
def unfilled (client : ι → Client) (m : Message ι) : Bool :=
  m.2 = (client m.1).i ∧ (client m.1).pc.filling.isSome = true

/-- The numbers of the client's messages, and the place of the one that it has yet to store or to
post. -/
structure Placed (reserved : List (Message ι)) (n : ℕ) (c : ι) (x : Client) : Prop where
  fresh : ∀ j, (c, j) ∈ reserved → j < x.i + x.pc.reserves.toNat
  mine : x.pc.reserves = true → (c, x.i) ∈ reserved
  filling : ∀ k, x.pc.filling = some k →
    ∃ j, n ≤ j ∧ k = j % NMESG ∧ reserved[j]? = some (c, x.i)

/-- What holds in every state of a run. -/
structure Inv [Fintype ι] (s : State ι) : Prop where
  nempty : s.nempty + ∑ c, (s.client c).pc.waits + s.reserved.length + s.server.given =
    NMESG + s.printed.length
  nstored : s.nstored + ∑ c, (s.client c).pc.reserves.toNat + s.printed.length + s.server.taken =
    s.reserved.length
  nput : s.nput = s.reserved.length % NMESG
  index : s.index = s.printed.length % NMESG
  placed : ∀ c, Placed s.reserved s.printed.length c (s.client c)
  nodup : s.reserved.Nodup
  posted : s.posted ⊆ s.reserved
  printed : s.printed <+: s.reserved.map some
  slots : ∀ j, s.printed.length ≤ j → j < s.printed.length + NMESG →
    s.msgdata (j % NMESG) = s.reserved[j]?.filter fun m => !unfilled s.client m

variable {s s' : State ι} {c : ι} {x : Client} {m : Message ι}

lemma next_mod (n : ℕ) : next (n % NMESG) = (n + 1) % NMESG := by
  unfold next NMESG
  split <;> omega

section

variable [Fintype ι]

lemma inv_start : Inv (start ι) where
  nempty := by simp [start, ClientPc.waits, ServerPc.given]
  nstored := by simp [start, ClientPc.reserves, ServerPc.taken]
  nput := rfl
  index := rfl
  placed _ := ⟨nofun, nofun, nofun⟩
  nodup := nodup_nil
  posted := nofun
  printed := nil_prefix
  slots _ _ _ := rfl

variable (h : Inv s)
include h

lemma Inv.length_le : s.reserved.length ≤ s.printed.length + NMESG := by
  have := h.nempty
  omega

lemma Inv.prints : Prints s where
  stored hnone := by simpa using h.printed.subset hnone
  once := h.printed.sublist.nodup (h.nodup.map (some_injective _))
  posted hserver hzero hnobody m hm := by
    have hold := h.nstored
    simp only [hserver, hzero, hnobody, ServerPc.taken, Bool.toNat_false,
      Finset.sum_const_zero] at hold
    rw [h.printed.eq_of_length (by rw [length_map]; omega)]
    exact mem_map_of_mem (h.posted hm)

lemma Inv.msgdata_index : s.msgdata s.index =
    s.reserved[s.printed.length]?.filter fun m => !unfilled s.client m := by
  rw [h.index]
  exact h.slots _ le_rfl (Nat.lt_add_of_pos_right (by decide))

lemma Inv.eq_of_filling (hk : (s.client c).pc.filling = some s.index) :
    s.reserved[s.printed.length]? = some (c, (s.client c).i) := by
  obtain ⟨j, hj, hindex, hres⟩ := (h.placed c).filling _ hk
  have hlt := (List.getElem?_eq_some_iff.mp hres).1.trans_le h.length_le
  obtain rfl : j = s.printed.length := by
    by_contra hne
    rw [h.index] at hindex
    exact mod_ne_mod_of_lt hj le_rfl hlt (Nat.lt_add_of_pos_right (by decide)) hne hindex.symm
  exact hres

lemma Inv.msgdata_of_filled (hlt : s.printed.length < s.reserved.length)
    (hfilled : ∀ c, (s.client c).pc.filling ≠ some s.index) :
    s.msgdata s.index = s.reserved[s.printed.length]? := by
  rw [h.msgdata_index, getElem?_eq_getElem hlt, filter_some, if_pos]
  rw [Bool.not_eq_true', unfilled, decide_eq_false_iff_not]
  rintro ⟨hi, hsome⟩
  obtain ⟨k, hk⟩ := isSome_iff_exists.mp hsome
  obtain ⟨j, -, rfl, hres⟩ := (h.placed _).filling k hk
  obtain ⟨_, hget⟩ := List.getElem?_eq_some_iff.mp hres
  rw [← hi] at hget
  rw [h.nodup.getElem_inj_iff.mp hget, ← h.index] at hk
  exact hfilled _ hk

lemma Inv.printf (hpc : s.server = .printf)
    (hfilled : ∀ c, (s.client c).pc.filling ≠ some s.index) :
    Inv { s with
      printed := s.printed ++ [s.msgdata s.index]
      msgdata := update s.msgdata s.index none
      index := next s.index
      server := .postMutex } := by
  have hlen := h.length_le
  have hold := h.nempty
  have hold' := h.nstored
  simp only [hpc, ServerPc.given, ServerPc.taken] at hold hold'
  have hlt : s.printed.length < s.reserved.length := by omega
  have hitem := h.msgdata_of_filled hlt hfilled
  exact { h with
    nempty := by simp only [length_append, length_singleton, ServerPc.given]; omega
    nstored := by simp only [length_append, length_singleton, ServerPc.taken]; omega
    index := by rw [h.index, next_mod, length_append, length_singleton]
    printed := by
      rw [prefix_iff_eq_take, length_append, length_singleton, take_add_one,
        ← prefix_iff_eq_take.mp h.printed, hitem]
      simp [hlt]
    placed := by
      refine fun c => ⟨(h.placed c).fresh, (h.placed c).mine, fun k hk => ?_⟩
      obtain ⟨j, hj, rfl, hres⟩ := (h.placed c).filling k hk
      refine ⟨j, ?_, rfl, hres⟩
      rw [length_append, length_singleton]
      refine lt_of_le_of_ne hj ?_
      rintro rfl
      exact hfilled c (h.index ▸ hk)
    slots := by
      intro j hj hj'
      simp only [length_append, length_singleton] at hj hj'
      rcases eq_or_ne j (s.printed.length + NMESG) with rfl | hne
      · simp [h.index, getElem?_eq_none hlen]
      · have hmod := mod_ne_mod_of_lt (n := NMESG) (Nat.le_of_succ_le hj) le_rfl (by omega)
          (Nat.lt_add_of_pos_right (by decide)) (Nat.ne_of_gt hj)
        rw [← h.index] at hmod
        exact (update_of_ne hmod ..).trans (h.slots j (by omega) (by omega)) }

lemma Inv.placed_succ : Placed s.reserved s.printed.length c ⟨.trywait, (s.client c).i + 1⟩ where
  fresh j hj := by
    have := (h.placed c).fresh j hj
    have := Bool.toNat_le (s.client c).pc.reserves
    change j < (s.client c).i + 1 + 0
    omega
  mine := nofun
  filling := nofun

lemma Inv.serverStep (hst : serverStep s = some s')
    (hfilled : s.server = .printf → ∀ c, (s.client c).pc.filling ≠ some s.index) : Inv s' := by
  have hold := h.nempty
  have hold' := h.nstored
  revert hst
  fun_cases Pxshm.serverStep s with
  | case2 hpc | case4 hpc | case6 hpc | case7 hpc | case8 hpc =>
    rw [hpc] at hold hold'
    simp only [ServerPc.given, ServerPc.taken] at hold hold'
    rintro ⟨⟩
    exact { h with
      nempty := by simp only [ServerPc.given]; omega
      nstored := by simp only [ServerPc.taken]; omega }
  | case5 hpc =>
    rintro ⟨⟩
    exact h.printf hpc (hfilled hpc)
  | _ => simp

end

variable [DecidableEq ι]

lemma unfilled_update (hx : x.i = (s.client c).i ∨ x.pc.filling = none)
    (hm : m ≠ (c, (s.client c).i)) : unfilled (update s.client c x) m = unfilled s.client m := by
  obtain ⟨d, j⟩ := m
  rcases eq_or_ne d c with rfl | hd
  · have hj : j ≠ (s.client d).i := fun hj => hm (by rw [hj])
    rcases hx with hx | hx <;> simp [unfilled, hx, hj]
  · simp [unfilled, update_of_ne hd]

lemma filter_unfilled_update (x : Client) (hx : x.i = (s.client c).i ∨ x.pc.filling = none)
    {o : Option (Message ι)} (hm : (c, (s.client c).i) ∉ o) :
    (o.filter fun m => !unfilled (update s.client c x) m) =
      o.filter fun m => !unfilled s.client m := by
  cases o with
  | none => rfl
  | some m =>
    rw [filter_some, unfilled_update hx fun hmc => hm (congrArg some hmc)]
    rfl

section

variable [Fintype ι] (h : Inv s)
include h

lemma Inv.counts {nempty nstored n : ℕ}
    (hnempty : nempty + x.pc.waits + n = s.nempty + (s.client c).pc.waits)
    (hnstored : nstored + x.pc.reserves.toNat = s.nstored + (s.client c).pc.reserves.toNat + n) :
    nempty + ∑ d, (update s.client c x d).pc.waits + (s.reserved.length + n) + s.server.given =
        NMESG + s.printed.length ∧
      nstored + ∑ d, (update s.client c x d).pc.reserves.toNat + s.printed.length +
        s.server.taken = s.reserved.length + n := by
  have hwaits := sum_update_add (fun y : Client => y.pc.waits) s.client c x
  have hreserves := sum_update_add (fun y : Client => y.pc.reserves.toNat) s.client c x
  have := h.nempty
  have := h.nstored
  omega

lemma Inv.put {mutex nempty nstored noverflow : ℕ} {posted : List (Message ι)}
    {msgdata : ℕ → Option (Message ι)}
    (hnempty : nempty + x.pc.waits = s.nempty + (s.client c).pc.waits)
    (hnstored : nstored + x.pc.reserves.toNat = s.nstored + (s.client c).pc.reserves.toNat)
    (hplaced : Placed s.reserved s.printed.length c x) (hposted : posted ⊆ s.reserved)
    (hslots : ∀ j, s.printed.length ≤ j → j < s.printed.length + NMESG →
      msgdata (j % NMESG) = s.reserved[j]?.filter fun m => !unfilled (update s.client c x) m) :
    Inv { s.put c x with
      mutex := mutex
      nempty := nempty
      nstored := nstored
      noverflow := noverflow
      posted := posted
      msgdata := msgdata } :=
  { h with
    nempty := (h.counts (n := 0) hnempty hnstored).1
    nstored := (h.counts (n := 0) hnempty hnstored).2
    placed := (forall_update_iff s.client (Placed s.reserved s.printed.length)).mpr
      ⟨hplaced, fun d _ => h.placed d⟩
    posted := hposted
    slots := hslots }

lemma Inv.slots_update (hfilling : x.pc.filling = (s.client c).pc.filling)
    (hx : x.i = (s.client c).i ∨ x.pc.filling = none) (j : ℕ) (hj : s.printed.length ≤ j)
    (hlt : j < s.printed.length + NMESG) :
    s.msgdata (j % NMESG) = s.reserved[j]?.filter fun m => !unfilled (update s.client c x) m := by
  have hunfilled : ∀ m, unfilled (update s.client c x) m = unfilled s.client m := by
    intro m
    rcases eq_or_ne m (c, (s.client c).i) with rfl | hm
    · rcases hx with hi | hnone
      · simp [unfilled, hi, hfilling]
      · simp [unfilled, ← hfilling, hnone]
    · exact unfilled_update hx hm
  simpa only [hunfilled] using h.slots j hj hlt

lemma Inv.reserve {mutex : ℕ} (hpc : (s.client c).pc = .waitMutex) :
    Inv { s.put c ⟨.postMutex s.nput, (s.client c).i⟩ with
      mutex := mutex
      nput := next s.nput
      reserved := s.reserved ++ [(c, (s.client c).i)] } := by
  have hwaits : s.nempty + (ClientPc.postMutex s.nput).waits + 1 =
      s.nempty + (s.client c).pc.waits := by rw [hpc]; rfl
  have hreserves : s.nstored + (ClientPc.postMutex s.nput).reserves.toNat =
      s.nstored + (s.client c).pc.reserves.toNat + 1 := by rw [hpc]; rfl
  have hcounts := h.counts (c := c) (x := ⟨.postMutex s.nput, (s.client c).i⟩) hwaits hreserves
  have hfresh : ∀ j, (c, j) ∈ s.reserved → j < (s.client c).i := fun j hj => by
    simpa [hpc, ClientPc.reserves] using (h.placed c).fresh j hj
  have hnew : (c, (s.client c).i) ∉ s.reserved := fun hm => (hfresh _ hm).ne rfl
  have hle : s.printed.length ≤ s.reserved.length := by simpa using h.printed.length_le
  exact { h with
    nempty := by simpa [State.put] using hcounts.1
    nstored := by simpa [State.put] using hcounts.2
    nput := by rw [h.nput, next_mod, length_append, length_singleton]
    placed := by
      refine (forall_update_iff s.client (Placed _ s.printed.length)).mpr ⟨⟨?_, ?_, ?_⟩, ?_⟩
      · intro j hj
        rcases mem_append.mp hj with hj | hj
        · exact Nat.lt_succ_of_lt (hfresh j hj)
        · simp_all [ClientPc.reserves]
      · simp
      · rintro k ⟨⟩
        exact ⟨s.reserved.length, hle, h.nput, by simp⟩
      · intro d hd
        refine ⟨fun j hj => (h.placed d).fresh j (by simpa [hd] using hj),
          fun hr => mem_append_left _ ((h.placed d).mine hr), fun k hk => ?_⟩
        obtain ⟨j, hj, hkj, hres⟩ := (h.placed d).filling k hk
        have hlt := (List.getElem?_eq_some_iff.mp hres).1
        exact ⟨j, hj, hkj, (getElem?_append_left hlt).trans hres⟩
    nodup := nodup_append_comm.mp (nodup_cons.mpr ⟨hnew, h.nodup⟩)
    posted := subset_append_of_subset_left _ h.posted
    printed := by
      rw [map_append]
      exact h.printed.trans (prefix_append ..)
    slots := by
      intro j hj hlt
      refine (h.slots j hj hlt).trans ?_
      change _ = (s.reserved ++ [_])[j]?.filter fun m => !unfilled (update s.client c _) m
      rcases Nat.lt_or_ge j s.reserved.length with hjr | hjr
      · rw [getElem?_append_left hjr]
        exact (filter_unfilled_update ⟨.postMutex s.nput, _⟩ (.inl rfl) fun hm =>
          hnew (mem_of_getElem? hm)).symm
      · rw [getElem?_append_right hjr, getElem?_eq_none hjr]
        rcases Nat.eq_zero_or_pos (j - s.reserved.length) with hzero | hpos
        · simp [hzero, unfilled, ClientPc.filling, filter_some]
        · simp [getElem?_eq_none (l := [_]) hpos] }

lemma Inv.strcpy {k : ℕ} (hpc : (s.client c).pc = .strcpy k) :
    Inv { s.put c ⟨.postNstored, (s.client c).i⟩ with
      msgdata := update s.msgdata k (some (c, (s.client c).i)) } := by
  have hplaced : Placed _ _ c ⟨(s.client c).pc, (s.client c).i⟩ := h.placed c
  rw [hpc] at hplaced
  obtain ⟨j₀, hj₀, rfl, hres⟩ := hplaced.filling k rfl
  obtain ⟨hlt₀, hget⟩ := List.getElem?_eq_some_iff.mp hres
  refine h.put (by rw [hpc]; rfl) (by rw [hpc]; rfl) ⟨hplaced.fresh, hplaced.mine, nofun⟩ h.posted
    fun j hj hlt => ?_
  rcases eq_or_ne j j₀ with rfl | hne
  · simp [hres, unfilled, ClientPc.filling, filter_some]
  · have hmod := mod_ne_mod_of_lt hj hj₀ hlt (hlt₀.trans_le h.length_le) hne
    rw [update_of_ne hmod, h.slots j hj hlt]
    refine (filter_unfilled_update ⟨.postNstored, _⟩ (.inl rfl) fun hm => hne ?_).symm
    obtain ⟨_, hgetj⟩ := List.getElem?_eq_some_iff.mp hm
    exact h.nodup.getElem_inj_iff.mp (hgetj.trans hget.symm)

lemma Inv.clientStep (hst : clientStep s c = some s') : Inv s' := by
  have hplaced : Placed _ _ c ⟨(s.client c).pc, (s.client c).i⟩ := h.placed c
  revert hst
  fun_cases Pxshm.clientStep s c with
  | case1 i hpc =>
    rintro ⟨⟩
    exact h.put (by rw [hpc]; rfl) (by rw [hpc]; rfl) h.placed_succ h.posted
      (h.slots_update (by rw [hpc]) (.inr rfl))
  | case2 i hpc hpos =>
    rintro ⟨⟩
    rw [hpc] at hplaced
    refine h.put ?_ (by rw [hpc]; rfl) ⟨hplaced.fresh, nofun, nofun⟩ h.posted
      (h.slots_update (by rw [hpc]; rfl) (.inr rfl))
    rw [hpc]
    exact Nat.sub_add_cancel (Nat.pos_of_ne_zero hpos)
  | case4 i hpc =>
    rintro ⟨⟩
    exact h.reserve hpc
  | case5 i k hpc =>
    rintro ⟨⟩
    rw [hpc] at hplaced
    exact h.put (by rw [hpc]; rfl) (by rw [hpc]; rfl)
      ⟨hplaced.fresh, hplaced.mine, hplaced.filling⟩ h.posted
      (h.slots_update (by rw [hpc]; rfl) (.inl rfl))
  | case6 i k hpc =>
    rintro ⟨⟩
    exact h.strcpy hpc
  | case7 i hpc =>
    rintro ⟨⟩
    refine h.put (by rw [hpc]; rfl) (by rw [hpc]; rfl) h.placed_succ (append_subset.mpr ?_)
      (h.slots_update (by rw [hpc]; rfl) (.inr rfl))
    exact ⟨h.posted, by simpa using hplaced.mine (by rw [hpc]; rfl)⟩
  | _ => simp

end

variable [Fintype ι]

/-- Throughout a run the server prints what it should print, if and only if it never comes to a slot
that a client has reserved and not yet filled. -/
theorem prints_iff {ls : List (Option ι)} :
    Throughout step Prints (start ι) ls s ↔ RunWhen step Filled (start ι) ls s := by
  refine throughout_iff inv_start (fun s h => h.prints) ?_ ?_
  · rintro s (_ | c) s' h hst hfilled
    · exact h.serverStep hst (hfilled rfl)
    · exact h.clientStep hst
  · rintro s l s' h hst hnot hprints
    simp only [Filled, not_forall, not_not] at hnot
    obtain ⟨rfl, hpc, c, hc⟩ := hnot
    simp only [step, serverStep, hpc, some.injEq] at hst
    refine hprints.stored ?_
    simp [← hst, h.msgdata_index, h.eq_of_filling hc, filter_some, unfilled, hc]

def overtaken {ι : Type} (a b : ι) : List (Option ι) :=
  replicate 3 (some a) ++ replicate 5 (some b) ++ replicate 3 none

/-- Another client posts first, and the server prints a slot that is still empty. -/
theorem prints_overtaken : ∃ s : State Bool,
    RunFrom step (start Bool) (overtaken false true) s ∧ s.printed = [none] ∧
      s.posted = [(true, 0)] :=
  exists_runFrom _ _ _ _ (by decide)

end UnixPrograms.Pxshm
