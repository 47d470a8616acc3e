import UnixPrograms.Lib.Runs
import Mathlib.Data.Finset.Insert
import Mathlib.Data.Finset.Erase

/-!
# The poll echo server (`tcpservpoll01.c`)

The `revents` of a slot that was not polled are what the array happened to hold.  They are looked at
if the slot is new, and if `Poll` has also counted a client that is neither readable nor in error,
so that `nready` does not end the loop.
-/

namespace UnixPrograms.TcpServPoll

open Function List

/-- The bits of `revents`: `POLLRDNORM`, `POLLERR` and the others. -/
structure Revents where
  rdnorm : Bool
  err : Bool
  other : Bool

/-- `revents & (POLLRDNORM | POLLERR)` is not 0. -/
def Revents.served (r : Revents) : Bool := r.rdnorm || r.err

def Revents.nonzero (r : Revents) : Bool := r.served || r.other

structure State where
  /-- `client[i].fd` for `i` from 1 on; those that are negative are `none`. -/
  fd : ℕ → Option ℕ
  revents : ℕ → Revents
  maxi : ℕ
  /-- The connections that have been accepted and not closed. -/
  conns : Finset ℕ
  /-- The clients that the last `Poll` reported readable or in error, by slots. -/
  reported : List ℕ
  /-- Those that have been read from since then. -/
  read : List ℕ

/-- Before the first `Poll`, where the array has any content. -/
def start (revents : ℕ → Revents) : State := ⟨fun _ => none, revents, 0, ∅, [], []⟩

/-- What a round meets: the result of `Poll`, the descriptor that `Accept` gives, and where `read`
finds the connection closed or reset. -/
structure Round where
  revents : ℕ → Revents
  connfd : ℕ
  closed : ℕ → Bool

/-- The clients of the slots `is` that are to be read from. -/
def State.due (s : State) (is : List ℕ) : List ℕ :=
  is.filterMap fun i => if (s.revents i).served then s.fd i else none

def poll (s : State) (r : Round) : State :=
  { s with
    revents := fun i =>
      if s.maxi < i then s.revents i
      else if i ≠ 0 ∧ s.fd i = none then ⟨false, false, false⟩ else r.revents i
    reported := (range' 1 s.maxi).filterMap fun i => if (r.revents i).served then s.fd i else none
    read := [] }

def State.nready (s : State) : ℕ := (range (s.maxi + 1)).countP fun i => (s.revents i).nonzero

def State.freeSlot (openMax : ℕ) (s : State) : Option ℕ :=
  (range' 1 (openMax - 1)).find? fun i => s.fd i = none

def State.put (s : State) (i connfd : ℕ) : State :=
  { s with
    fd := update s.fd i (some connfd)
    maxi := max s.maxi i
    conns := insert connfd s.conns }

/-- A `read` from the client `c` in the slot `i`, whose connection may turn out to be closed. -/
def State.readFrom (s : State) (i c : ℕ) (closed : Bool) : State :=
  { s with
    fd := if closed then update s.fd i none else s.fd
    conns := if closed then s.conns.erase c else s.conns
    read := s.read ++ [c] }

def serve (closed : ℕ → Bool) : List ℕ → ℕ → State → State
  | [], _, s => s
  | i :: is, nready, s =>
    match s.fd i with
    | none => serve closed is nready s
    | some c =>
      if (s.revents i).served then
        let s := s.readFrom i c (closed i)
        if nready ≤ 1 then s else serve closed is (nready - 1) s
      else serve closed is nready s

/-- A round.  `Poll` does not return before something is ready, `Accept` gives a descriptor that is
not in use, and the server quits if there are too many clients. -/
def step (openMax : ℕ) (s : State) (r : Round) : Option State :=
  let s := poll s r
  if s.nready = 0 then none
  else if (s.revents 0).rdnorm then
    if r.connfd ∈ s.conns then none
    else (s.freeSlot openMax).map fun i =>
      let s' := s.put i r.connfd
      if s.nready ≤ 1 then s' else serve r.closed (range' 1 s'.maxi) (s.nready - 1) s'
  else some (serve r.closed (range' 1 s.maxi) s.nready s)

/-! ## The slots of the connections -/

/-- Every open connection has one slot, of index at most `maxi`. -/
structure Placed (s : State) : Prop where
  slot : ∀ i c, s.fd i = some c → 1 ≤ i ∧ i ≤ s.maxi
  mem : ∀ c, c ∈ s.conns ↔ ∃ i, s.fd i = some c
  inj : ∀ i j c, s.fd i = some c → s.fd j = some c → i = j

variable {s s' : State} {r : Round} {i c nready openMax : ℕ} {closed : ℕ → Bool} {is : List ℕ}

lemma Placed.readFrom (h : Placed s) (hi : s.fd i = some c) (b : Bool) :
    Placed (s.readFrom i c b) := by
  cases b with
  | false => exact ⟨h.slot, h.mem, h.inj⟩
  | true =>
    have hfd : ∀ j d, update s.fd i none j = some d ↔ s.fd j = some d ∧ d ≠ c := by
      intro j d
      rcases eq_or_ne j i with rfl | hne
      · simp [hi, eq_comm]
      · rw [update_of_ne hne, iff_self_and]
        rintro hj rfl
        exact hne (h.inj j i d hj hi)
    refine ⟨fun j d hj => h.slot j d ((hfd j d).mp hj).1, fun d => ?_, fun j k d hj hk => ?_⟩
    · simp only [State.readFrom, if_true, Finset.mem_erase, h.mem, hfd]
      exact ⟨fun ⟨hd, j, hj⟩ => ⟨j, hj, hd⟩, fun ⟨j, hj, hd⟩ => ⟨hd, j, hj⟩⟩
    · exact h.inj j k d ((hfd j d).mp hj).1 ((hfd k d).mp hk).1

lemma Placed.put (h : Placed s) (hi : s.fd i = none) (hpos : 1 ≤ i) (hc : c ∉ s.conns) :
    Placed (s.put i c) := by
  have hfd : ∀ j d, update s.fd i (some c) j = some d ↔ j = i ∧ d = c ∨ s.fd j = some d := by
    intro j d
    rcases eq_or_ne j i with rfl | hne
    · simp [hi, eq_comm]
    · simp [hne]
  have hnew : ∀ j, s.fd j ≠ some c := fun j hj => hc ((h.mem c).mpr ⟨j, hj⟩)
  constructor
  · intro j d hj
    rcases (hfd j d).mp hj with ⟨rfl, rfl⟩ | hj
    · exact ⟨hpos, le_max_right ..⟩
    · exact ⟨(h.slot j d hj).1, (h.slot j d hj).2.trans (le_max_left ..)⟩
  · intro d
    simp only [State.put, Finset.mem_insert, h.mem, hfd, exists_or, exists_eq_left]
  · intro j k d hj hk
    rcases (hfd j d).mp hj with ⟨hji, hd⟩ | hj' <;> rcases (hfd k d).mp hk with ⟨hki, hd'⟩ | hk'
    · exact hji.trans hki.symm
    · exact absurd (hd ▸ hk') (hnew k)
    · exact absurd (hd' ▸ hj') (hnew j)
    · exact h.inj j k d hj' hk'

lemma Placed.serve (h : Placed s) : Placed (serve closed is nready s) := by
  fun_induction TcpServPoll.serve closed is nready s with
  | case1 => exact h
  | case2 i is nready s hi ih => exact ih h
  | case3 i is nready s c hi hserved s₁ hle => exact h.readFrom hi _
  | case4 i is nready s c hi hserved s₁ hle ih => exact ih (h.readFrom hi _)
  | case5 i is nready s c hi hserved ih => exact ih h

/-! ## The clients that are read from -/

lemma due_readFrom (hi : i ∉ is) (b : Bool) : (s.readFrom i c b).due is = s.due is := by
  refine filterMap_congr fun j hj => ?_
  have hne : j ≠ i := fun he => hi (he ▸ hj)
  cases b <;> simp [State.readFrom, hne]

lemma read_serve (hn : 0 < nready) (his : is.Nodup) :
    (serve closed is nready s).read = s.read ++ (s.due is).take nready ∧
      (serve closed is nready s).reported = s.reported := by
  fun_induction serve closed is nready s with
  | case1 => simp [State.due]
  | case2 i is nready s hi ih => simpa [State.due, hi] using ih hn (nodup_cons.mp his).2
  | case3 i is nready s c hi hserved s₁ hle =>
    obtain rfl : nready = 1 := by omega
    simp [State.due, hi, hserved, s₁, State.readFrom]
  | case4 i is nready s c hi hserved s₁ hle ih =>
    obtain ⟨hread, hreported⟩ := ih (by omega) (nodup_cons.mp his).2
    obtain ⟨k, rfl⟩ : ∃ k, nready = k + 1 := ⟨nready - 1, by omega⟩
    rw [due_readFrom (nodup_cons.mp his).1] at hread
    refine ⟨?_, hreported⟩
    rw [hread]
    simp [State.due, hi, hserved, s₁, State.readFrom]
  | case5 i is nready s c hi hserved ih =>
    simpa [State.due, hi, hserved] using ih hn (nodup_cons.mp his).2

lemma length_due_le (s : State) (is : List ℕ) :
    (s.due is).length ≤ is.countP fun i => (s.revents i).nonzero := by
  induction is with
  | nil => rfl
  | cons i is ih =>
    have hserved : (s.revents i).served = true → (s.revents i).nonzero = true := fun h => by
      simp [Revents.nonzero, h]
    have hcount := countP_cons (p := fun i => (s.revents i).nonzero) (a := i) (l := is)
    rw [State.due] at ih ⊢
    grind

lemma due_poll (s : State) (r : Round) :
    (poll s r).due (range' 1 s.maxi) = (poll s r).reported := by
  refine filterMap_congr fun i hi => ?_
  rw [mem_range'_1] at hi
  have hle : ¬ s.maxi < i := by omega
  have hi0 : i ≠ 0 := by omega
  rcases hfd : s.fd i with - | c <;> simp [poll, hle, hi0, hfd]

/-- What keeps the server from reading where nothing was reported: a new connection is not put in a
slot that was not polled and holds `revents`, while `Poll` counts a client that it does not report
readable or in error. -/
def Heeds (s : State) (r : Round) : Prop :=
  (r.revents 0).rdnorm → (∀ i ∈ range' 1 s.maxi, s.fd i ≠ none) →
    (poll s r).reported.length + 1 < (poll s r).nready → (s.revents (s.maxi + 1)).served = false

lemma nready_poll (s : State) (r : Round) :
    (poll s r).reported.length + (r.revents 0).rdnorm.toNat ≤ (poll s r).nready := by
  have hlen := length_due_le (poll s r) (range' 1 s.maxi)
  rw [due_poll] at hlen
  rw [State.nready, range_eq_range', range'_succ, countP_cons]
  refine Nat.add_le_add hlen ?_
  cases h : (r.revents 0).rdnorm <;> simp [poll, Revents.nonzero, Revents.served, h]

lemma freeSlot_spec (h : s.freeSlot openMax = some i) :
    s.fd i = none ∧ 1 ≤ i ∧ ∀ j, 1 ≤ j → j < i → s.fd j ≠ none := by
  obtain ⟨hfree, hmem, hbefore⟩ := find?_range'_eq_some.mp h
  exact ⟨by simpa using hfree, (mem_range'_1.mp hmem).1,
    fun j hj hji => by simpa using hbefore j hj hji⟩

lemma due_put (hfree : (poll s r).fd i = none) (hpos : 1 ≤ i) :
    ((poll s r).put i c).due (range' 1 s.maxi) = (poll s r).reported := by
  rw [← due_poll]
  refine filterMap_congr fun j hj => ?_
  rw [mem_range'_1] at hj
  rcases eq_or_ne j i with rfl | hne
  · have hle : ¬ s.maxi < j := by omega
    have hj0 : j ≠ 0 := by omega
    have hfd : s.fd j = none := hfree
    simp [State.put, poll, hle, hj0, hfd, Revents.served]
  · simp [State.put, hne]

lemma Placed.step (h : Placed s) (hst : step openMax s r = some s') :
    Placed s' ∧ (s'.read = s'.reported ↔ Heeds s r) := by
  have hp : Placed (poll s r) := ⟨h.slot, h.mem, h.inj⟩
  have hzero : (poll s r).revents 0 = r.revents 0 := by simp [poll]
  have hready := nready_poll s r
  rw [TcpServPoll.step] at hst
  dsimp only at hst
  split_ifs at hst with hn hrd hfresh hone
  · obtain ⟨i, hi, rfl⟩ := Option.map_eq_some_iff.mp hst
    obtain ⟨hfree, hpos, -⟩ := freeSlot_spec hi
    rw [hzero] at hrd
    rw [hrd, Bool.toNat_true] at hready
    have hnil : (poll s r).reported = [] := length_eq_zero_iff.mp (by omega)
    exact ⟨hp.put hfree hpos hfresh, iff_of_true hnil.symm fun _ _ hlt => by omega⟩
  · obtain ⟨i, hi, rfl⟩ := Option.map_eq_some_iff.mp hst
    obtain ⟨hfree, hpos, hbefore⟩ := freeSlot_spec hi
    rw [hzero] at hrd
    rw [hrd, Bool.toNat_true] at hready
    refine ⟨(hp.put hfree hpos hfresh).serve, ?_⟩
    rw [(read_serve (by omega) nodup_range').1, (read_serve (by omega) nodup_range').2]
    change [] ++ _ = (poll s r).reported ↔ _
    rw [nil_append]
    rcases Nat.lt_or_ge s.maxi i with hlt | hge
    · -- all slots up to `maxi` are taken, and the next one was not polled
      obtain rfl : i = s.maxi + 1 := by
        by_contra hne
        refine hbefore (s.maxi + 1) (by omega) (by omega) ?_
        by_contra hsome
        obtain ⟨c, hc⟩ := Option.ne_none_iff_exists'.mp hsome
        exact absurd (h.slot _ c hc).2 (by omega)
      have hfull : ∀ i ∈ range' 1 s.maxi, s.fd i ≠ none := fun i hi => by
        rw [mem_range'_1] at hi
        exact hbefore i hi.1 (by omega)
      have hmaxi : ((poll s r).put (s.maxi + 1) r.connfd).maxi = s.maxi + 1 :=
        max_eq_right (Nat.le_succ _)
      have hnew : ((poll s r).put (s.maxi + 1) r.connfd).due [1 + s.maxi] =
          if (s.revents (s.maxi + 1)).served then [r.connfd] else [] := by
        rw [Nat.add_comm 1 s.maxi]
        cases hserved : (s.revents (s.maxi + 1)).served <;>
          simp [State.due, State.put, poll, hserved]
      rw [hmaxi, range'_1_concat, State.due, filterMap_append, ← State.due, ← State.due, hnew,
        due_put hfree hpos]
      cases hserved : (s.revents (s.maxi + 1)).served with
      | false =>
        rw [if_neg Bool.false_ne_true, append_nil, take_of_length_le (by omega)]
        exact iff_of_true rfl fun _ _ _ => hserved
      | true =>
        rw [if_pos rfl]
        by_cases hmore : (poll s r).reported.length + 1 < (poll s r).nready
        · rw [take_of_length_le (by simp; omega)]
          refine iff_of_false (by simp) fun hheeds => ?_
          exact Bool.noConfusion (hserved.symm.trans (hheeds hrd hfull hmore))
        · rw [take_append_of_le_length (by omega), take_of_length_le (by omega)]
          exact iff_of_true rfl fun _ _ hlt => absurd hlt hmore
    · have hmaxi : ((poll s r).put i r.connfd).maxi = s.maxi := max_eq_left hge
      rw [hmaxi, due_put hfree hpos, take_of_length_le (by omega)]
      refine iff_of_true rfl fun _ hfull => absurd hfree (hfull i ?_)
      exact mem_range'_1.mpr ⟨hpos, by omega⟩
  · obtain rfl := Option.some.inj hst
    refine ⟨hp.serve, ?_⟩
    rw [(read_serve (Nat.pos_of_ne_zero hn) nodup_range').1,
      (read_serve (Nat.pos_of_ne_zero hn) nodup_range').2]
    change [] ++ ((poll s r).due (range' 1 s.maxi)).take _ = _ ↔ _
    rw [nil_append, due_poll, take_of_length_le (by omega)]
    rw [hzero] at hrd
    exact iff_of_true rfl fun h0 => absurd h0 hrd

/-- Connections keep their slots in every run, whatever is read. -/
theorem placed_of_run {revents : ℕ → Revents} {rs : List Round}
    (hrun : RunFrom (step openMax) (start revents) rs s) : Placed s := by
  refine hrun.invariant ⟨nofun, by simp [start], nofun⟩ ?_
  intro s r s' h hst _
  exact (h.step hst).1

/-- Two connections, of which the first is closed. -/
def rounds : List Round :=
  [⟨fun i => ⟨i = 0, false, false⟩, 10, fun _ => false⟩,
    ⟨fun i => ⟨i = 0, false, false⟩, 11, fun _ => false⟩,
    ⟨fun i => ⟨i = 1, false, false⟩, 12, fun i => i = 1⟩]

theorem placed_of_run_rounds :
    ∃ s, RunFrom (step 4) (start fun _ => ⟨true, false, false⟩) rounds s ∧ s.conns = {11} ∧
      Placed s := by
  obtain ⟨s, hrun, hs⟩ := exists_runFrom (step 4) (start fun _ => ⟨true, false, false⟩) rounds
    (·.conns = {11}) (by decide)
  exact ⟨s, hrun, hs, placed_of_run hrun⟩

/-- In the last round, the server has read from just the clients that were reported, once from each;
and every open connection has one slot up to `maxi`. -/
def Right (s : State) : Prop :=
  s.read = s.reported ∧ ∀ c ∈ s.conns, ∃! i, 1 ≤ i ∧ i ≤ s.maxi ∧ s.fd i = some c

/-- The server does right throughout a run, if and only if every round meets `Heeds`. -/
theorem right_iff (openMax : ℕ) (revents : ℕ → Revents) (rs : List Round) (s : State) :
    Throughout (step openMax) Right (start revents) rs s ↔
      RunWhen (step openMax) Heeds (start revents) rs s := by
  refine throughout_iff (I := fun s => Placed s ∧ s.read = s.reported)
    ⟨⟨nofun, by simp [start], nofun⟩, rfl⟩ ?_ ?_ ?_
  · rintro s ⟨h, hread⟩
    refine ⟨hread, fun c hc => ?_⟩
    obtain ⟨i, hi⟩ := (h.mem c).mp hc
    exact ⟨i, ⟨(h.slot i c hi).1, (h.slot i c hi).2, hi⟩, fun j hj => h.inj j i c hj.2.2 hi⟩
  · rintro s r s' ⟨h, -⟩ hst hC
    exact ⟨(h.step hst).1, (h.step hst).2.mpr hC⟩
  · rintro s r s' ⟨h, -⟩ hst hC hright
    exact hC ((h.step hst).2.mp hright.1)

/-- Two clients connect.  When the second one does, the first has only hung up, and the array holds
`POLLRDNORM` where the second is put: the server reads from it. -/
theorem right_stray : ∃ s, RunFrom (step 4) (start fun _ => ⟨true, false, false⟩)
    [⟨fun _ => ⟨true, false, false⟩, 10, fun _ => false⟩,
      ⟨fun i => ⟨i == 0, false, i == 1⟩, 11, fun _ => false⟩] s ∧
    s.reported = [] ∧ s.read = [11] :=
  ⟨_, runFrom_of_replay rfl, rfl, rfl⟩

end UnixPrograms.TcpServPoll
