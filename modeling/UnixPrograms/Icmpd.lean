import UnixPrograms.Lib.Runs
import Mathlib.Algebra.Order.Group.Int
import Mathlib.Data.List.TakeWhile

/-!
# The ICMP daemon (`icmpd.c`, `readable_*.c`)

The daemon writes its clients the ICMP errors about the ports of the sockets they have passed.  A
slot of `client` is not cleared when it is used again, only the last socket is noted, the length of
the returned IP header is not checked, and a `Write` to a client that is gone ends the daemon.
-/

namespace UnixPrograms.Icmpd

open Function List

def AF_INET : ℤ := 2

structure Socket where
  family : ℤ
  port : ℤ
  deriving DecidableEq

/-- `struct client`, where `connected` stands for `connfd >= 0`, and what the client has done on
this connection. -/
structure Client where
  connected : Bool
  family : ℤ
  lport : ℤ
  /-- The sockets that it has passed. -/
  passed : List Socket
  /-- It has closed its end. -/
  gone : Bool

structure State where
  client : ℕ → Client
  maxi : ℤ

def start : State := ⟨fun _ => ⟨false, 0, 0, [], false⟩, -1⟩

/-- What `Read_fd` and `getsockname` give, with the results of `sock_get_port` and of
`sock_bind_wild` for a socket. -/
inductive Message
  | terminated | noDescriptor | nameError
  | socket (family port wild : ℤ)

def Message.isTerminated : Message → Bool
  | .terminated => true
  | _ => false

inductive Action
  | listen
  | conn (i : ℕ) (m : Message)
  /-- The client closes its end. -/
  | gone (i : ℕ)

def available (n : ℕ) (s : State) : Option ℕ := (range n).find? fun i => !(s.client i).connected

def readableListen (n : ℕ) (s : State) : State :=
  match available n s with
  | none => s
  | some i =>
    { client := update s.client i { s.client i with connected := true, passed := [], gone := false }
      maxi := max s.maxi i }

def readableConn (s : State) (i : ℕ) : Message → State
  | .socket family port wild =>
    let lport := if port = 0 then wild else port
    if port = 0 ∧ wild ≤ 0 then
      { s with client := update s.client i { s.client i with connected := false, family, lport } }
    else
      { s with client := update s.client i { s.client i with
          family, lport, passed := (s.client i).passed ++ [⟨family, lport⟩] } }
  | _ => { s with client := update s.client i { s.client i with connected := false } }

/-- A step of the daemon or of a client.  There is none where the answer to a client that is gone
ends the daemon. -/
def step (n : ℕ) (s : State) : Action → Option State
  | .listen => some (readableListen n s)
  | .conn i m =>
    if (i : ℤ) ≤ s.maxi ∧ (s.client i).connected ∧ (s.client i).gone = m.isTerminated then
      some (readableConn s i m)
    else none
  | .gone i =>
    if (s.client i).connected then
      some { s with client := update s.client i { s.client i with gone := true } }
    else none

structure Datagram where
  buf : ℕ → UInt8
  n : ℕ

namespace Datagram

variable (d : Datagram)

def hlen1 : ℕ := (d.buf 0).toNat % 16 * 4

def hlen2 : ℕ := (d.buf (d.hlen1 + 8)).toNat % 16 * 4

/-- An ICMP error about a UDP datagram: destination unreachable, source quench or time exceeded. -/
def AboutUdp : Prop := (d.buf d.hlen1).toNat ∈ [3, 4, 11] ∧ d.buf (d.hlen1 + 8 + 9) = 17

instance : Decidable d.AboutUdp := inferInstanceAs (Decidable (_ ∧ _))

def sport : ℤ :=
  256 * (d.buf (d.hlen1 + 8 + d.hlen2)).toNat + (d.buf (d.hlen1 + 8 + d.hlen2 + 1)).toNat

/-- The port field lies inside the bytes that were received. -/
def PortInside : Prop := d.hlen1 + 8 + d.hlen2 + 2 ≤ d.n

end Datagram

/-- The slot holds the port in the returned header. -/
def Noted (s : State) (d : Datagram) (i : ℕ) : Prop :=
  (s.client i).connected = true ∧ (s.client i).family = AF_INET ∧ (s.client i).lport = d.sport

instance (s : State) (d : Datagram) (i : ℕ) : Decidable (Noted s d i) :=
  inferInstanceAs (Decidable (_ ∧ _ ∧ _))

/-- `readable_v4`, if the lengths pass the checks: the clients to which the error is written, up to
the first one that is gone, and whether the daemon goes on. -/
def readableV4 (s : State) (d : Datagram) : Option (List ℕ × Bool) :=
  if d.n < d.hlen1 + 8 then none
  else if (d.buf d.hlen1).toNat ∈ [3, 4, 11] ∧ d.n < d.hlen1 + 8 + 20 + 8 then none
  else if d.AboutUdp then
    let is := (range (s.maxi + 1).toNat).filter fun i => Noted s d i
    some (is.takeWhile fun i => !(s.client i).gone, is.all fun i => !(s.client i).gone)
  else some ([], true)

/-! ## The clients that are concerned -/

/-- The client is there and has passed a socket that is bound to the port in the returned header. -/
def Concerned (s : State) (d : Datagram) (i : ℕ) : Prop :=
  (s.client i).connected = true ∧ (s.client i).gone = false ∧
    ⟨AF_INET, d.sport⟩ ∈ (s.client i).passed

/-- A datagram for which the slots are right when it arrives. -/
structure Clear (s : State) (d : Datagram) : Prop where
  inside : d.AboutUdp → d.PortInside
  /-- The port was not left by an earlier client in the slot of one that has passed no socket. -/
  own : ∀ i, Noted s d i → (s.client i).passed ≠ []
  /-- A client has not passed another socket since. -/
  last : ∀ i, ⟨AF_INET, d.sport⟩ ∈ (s.client i).passed →
    (s.client i).passed.getLast? = some ⟨AF_INET, d.sport⟩
  present : ∀ i, Noted s d i → (s.client i).gone = false

/-- The slot of a client that is connected is within reach, and holds the last socket passed. -/
structure Client.Kept (c : Client) (i maxi : ℤ) : Prop where
  le : i ≤ maxi
  last : c.passed = [] ∨ c.passed.getLast? = some ⟨c.family, c.lport⟩

/-- The slots of all clients that are connected are kept. -/
def Inv (s : State) : Prop := ∀ i : ℕ, (s.client i).connected = true → (s.client i).Kept i s.maxi

variable {n : ℕ} {s s' : State} {a : Action}

lemma Inv.put (h : Inv s) {i : ℕ} {c : Client} {maxi : ℤ} (hmaxi : s.maxi ≤ maxi)
    (hc : c.connected = true → c.Kept i maxi) : Inv ⟨update s.client i c, maxi⟩ := by
  intro j hj
  dsimp only at hj ⊢
  rcases eq_or_ne j i with rfl | hne
  · rw [update_self] at hj ⊢
    exact hc hj
  · rw [update_of_ne hne] at hj ⊢
    exact ⟨(h j hj).le.trans hmaxi, (h j hj).last⟩

lemma Inv.step (h : Inv s) (hst : step n s a = some s') : Inv s' := by
  cases a with
  | listen =>
    obtain rfl := Option.some.inj hst
    rw [readableListen]
    split
    · exact h
    · exact h.put (le_max_left ..) fun _ => ⟨le_max_right .., .inl rfl⟩
  | conn i m =>
    rw [Icmpd.step] at hst
    split at hst
    · rename_i hi
      obtain rfl := Option.some.inj hst
      cases m with
      | socket family port wild =>
        rw [readableConn]
        dsimp only
        split
        · exact h.put le_rfl nofun
        · exact h.put le_rfl fun _ => ⟨hi.1, .inr getLast?_concat⟩
      | terminated | noDescriptor | nameError => exact h.put le_rfl nofun
    · cases hst
  | gone i =>
    rw [Icmpd.step] at hst
    split at hst
    · rename_i hi
      obtain rfl := Option.some.inj hst
      exact h.put le_rfl fun _ => ⟨(h i hi).le, (h i hi).last⟩
    · cases hst

/-- In every run, for a datagram that is clear the daemon goes on, and the error is written to the
clients that are concerned, and only to them. -/
theorem readableV4_writes_iff {as : List Action} (hrun : RunFrom (step n) start as s)
    {d : Datagram} (hclear : Clear s d) {written : List ℕ} {goesOn : Bool}
    (hwritten : readableV4 s d = some (written, goesOn)) :
    goesOn = true ∧ ∀ i, i ∈ written ↔ d.AboutUdp ∧ d.PortInside ∧ Concerned s d i := by
  have hinv : Inv s := hrun.invariant nofun fun _ _ _ h hst _ => h.step hst
  have hnoted (i : ℕ) : Noted s d i ↔ Concerned s d i := by
    constructor
    · intro hi
      have hlast := (hinv i hi.1).last.resolve_left (hclear.own i hi)
      refine ⟨hi.1, hclear.present i hi, mem_of_getLast? ?_⟩
      rw [hlast, hi.2.1, hi.2.2]
    · rintro ⟨hconn, -, hpassed⟩
      have hlast := (hinv i hconn).last.resolve_left (ne_nil_of_mem hpassed)
      rw [hclear.last i hpassed] at hlast
      obtain ⟨hfamily, hlport⟩ := Socket.mk.inj (Option.some.inj hlast)
      exact ⟨hconn, hfamily.symm, hlport.symm⟩
  rw [readableV4] at hwritten
  split_ifs at hwritten with hshort hshort' hudp
  · have hgone : ∀ i ∈ (range (s.maxi + 1).toNat).filter fun i => Noted s d i,
        (!(s.client i).gone) = true := by
      intro i hi
      rw [mem_filter, decide_eq_true_eq] at hi
      rw [hclear.present i hi.2]
      rfl
    obtain ⟨rfl, rfl⟩ := Prod.mk.inj (Option.some.inj hwritten)
    refine ⟨all_eq_true.mpr hgone, fun i => ?_⟩
    rw [takeWhile_eq_self_iff.mpr hgone, mem_filter, mem_range, decide_eq_true_eq, hnoted,
      and_iff_right hudp, and_iff_right (hclear.inside hudp), and_iff_right_iff_imp]
    intro hi
    have := (hinv i hi.1).le
    omega
  · obtain ⟨rfl, rfl⟩ := Prod.mk.inj (Option.some.inj hwritten)
    simp [hudp]

def unreachable : Datagram where
  buf
    | 0 | 28 => 0x45
    | 20 => 3
    | 37 => 17
    | 48 => 19
    | 49 => 136
    | _ => 0
  n := 56

/-- A slot is used again, and both clients have passed their own socket. -/
def twoClients : List Action :=
  [.listen, .conn 0 (.socket AF_INET 5000 0), .gone 0, .conn 0 .terminated, .listen, .listen,
    .conn 0 (.socket AF_INET 0 5000), .conn 1 (.socket AF_INET 5000 0)]

theorem readableV4_writes_iff_twoClients : ∃ s, RunFrom (step 2) start twoClients s ∧
    Clear s unreachable ∧ ∀ i, i ∈ [0, 1] ↔
      unreachable.AboutUdp ∧ unreachable.PortInside ∧ Concerned s unreachable i := by
  have hrun : ∃ s, RunFrom (step 2) start twoClients s ∧ Clear s unreachable ∧
      readableV4 s unreachable = some ([0, 1], true) := by
    refine ⟨_, runFrom_of_replay rfl, ⟨fun _ => by change 50 ≤ 56; decide, ?_, ?_, ?_⟩, rfl⟩
    · rintro (_ | _ | i) ⟨hi, -⟩ <;> first | exact cons_ne_nil _ _ | cases hi
    · rintro (_ | _ | i) hi <;> first | rfl | cases hi
    · rintro (_ | _ | i) - <;> rfl
  obtain ⟨s, hrun, hclear, hwritten⟩ := hrun
  exact ⟨s, hrun, hclear, (readableV4_writes_iff hrun hclear hwritten).2⟩

/-- The first client goes, and the next one passes no socket: it gets the error. -/
theorem readableV4_reused : ∃ s, RunFrom (step 1) start
    [.listen, .conn 0 (.socket AF_INET 5000 0), .gone 0, .conn 0 .terminated, .listen] s ∧
      (s.client 0).passed = [] ∧ readableV4 s unreachable = some ([0], true) :=
  ⟨_, runFrom_of_replay rfl, rfl, rfl⟩

end UnixPrograms.Icmpd
