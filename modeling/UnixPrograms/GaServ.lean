import UnixPrograms.Lib.Text

/-!
# The service string of `getaddrinfo`

`ga_serv` goes through the addresses once for each socket type for which the service is found; the
first pass sets the entries marked with `AI_CLONE`, and a later one puts a clone behind each.  There
is then one entry for each address and socket type (`gaServ_entries`); with no address the call
fails (`gaServ_nil`).
-/

namespace UnixPrograms.GaServ

open List Option

/-- An internal flag: clone this entry for other socket types. -/
def AI_CLONE : UInt32 := 4

def SOCK_STREAM : ℕ := 1

def SOCK_DGRAM : ℕ := 2

inductive Family where
  | inet
  | inet6
  | other

inductive Eai where
  | memory
  | noname
  | service

/-- An entry of the list.  `addr` is the socket address without its port. -/
structure AddrInfo where
  flags : UInt32
  family : Family
  socktype : ℕ
  protocol : ℤ
  canonname : Option Bytes
  addrlen : ℕ
  addr : Bytes
  port : UInt16

def AddrInfo.clone (ai : AddrInfo) : AddrInfo := { ai with flags := 0, canonname := none }

def gaClone (ai : AddrInfo) : ℕ → Option (AddrInfo × ℕ)
  | 0 => none
  | mem + 1 => some (ai.clone, mem)

def AddrInfo.bound (ai : AddrInfo) (t : ℕ) (p : UInt16) : AddrInfo :=
  { ai with socktype := t, port := p }

def setPort (port : UInt16) (socktype : ℕ) (ai : AddrInfo) : AddrInfo :=
  match ai.family with
  | .inet | .inet6 => ai.bound socktype port
  | .other => { ai with socktype := socktype }

def counts (ai : AddrInfo) : ℕ :=
  match ai.family with
  | .inet | .inet6 => 1
  | .other => 0

/-- `ga_port`, with memory for `mem` clones: the new list, `nfound` and the memory that is left, or
`none` if an allocation fails. -/
def gaPort (port : UInt16) (socktype : ℕ) : ℕ → List AddrInfo → Option (List AddrInfo × ℕ × ℕ)
  | mem, [] => some ([], 0, mem)
  | mem, ai :: rest =>
    if ai.flags &&& AI_CLONE ≠ 0 then
      if ai.socktype ≠ 0 then
        -- the loop goes on behind the clone
        (gaClone ai mem).bind fun c => (gaPort port socktype c.2 rest).map fun r =>
          (ai :: setPort port socktype c.1 :: r.1, counts ai + r.2.1, r.2.2)
      else
        (gaPort port socktype mem rest).map fun r =>
          (setPort port socktype ai :: r.1, counts ai + r.2.1, r.2.2)
    else if ai.socktype ≠ socktype then
      (gaPort port socktype mem rest).map fun r => (ai :: r.1, r.2)
    else
      (gaPort port socktype mem rest).map fun r =>
        (setPort port socktype ai :: r.1, counts ai + r.2.1, r.2.2)

structure State where
  aihead : List AddrInfo
  nfound : ℕ
  mem : ℕ

def State.pass (s : State) (port : UInt16) (socktype : ℕ) : Except Eai State :=
  match gaPort port socktype s.mem s.aihead with
  | none => .error .memory
  | some r => .ok ⟨r.1, s.nfound + r.2.1, r.2.2⟩

inductive Proto where
  | tcp
  | udp

def htons (n : ℤ) : UInt16 := UInt16.ofInt n <<< 8 ||| UInt16.ofInt n >>> 8

variable (getservbyname : Bytes → Proto → Option UInt16)

def State.look (s : State) (hint : ℕ) (serv : Bytes) (proto : Proto) (socktype : ℕ) :
    Except Eai State :=
  if hint = 0 ∨ hint = socktype then
    match getservbyname serv proto with
    | some port => s.pass port socktype
    | none => .ok s
  else .ok s

def gaServ (hint : ℕ) (serv : Bytes) (mem : ℕ) (aihead : List AddrInfo) :
    Except Eai (List AddrInfo) :=
  let s : State := ⟨aihead, 0, mem⟩
  let port := htons (atol serv)
  (if serv.head?.any isDigit then
    if hint ≠ 0 then s.pass port hint
    else (s.pass port SOCK_STREAM).bind fun s => s.pass port SOCK_DGRAM
  else
    (s.look getservbyname hint serv .tcp SOCK_STREAM).bind fun s =>
      s.look getservbyname hint serv .udp SOCK_DGRAM).bind fun s =>
  if s.nfound = 0 then .error (if hint = 0 then .noname else .service) else .ok s.aihead

/-- The socket types for which the service is found, with their ports. -/
def found (serv : Bytes) : List (ℕ × UInt16) :=
  if serv.head?.any isDigit then
    [(SOCK_STREAM, htons (atol serv)), (SOCK_DGRAM, htons (atol serv))]
  else
    (getservbyname serv .tcp).toList.map (SOCK_STREAM, ·) ++
      (getservbyname serv .udp).toList.map (SOCK_DGRAM, ·)

/-- An entry as it is built if the caller has not asked for a socket type. -/
structure Unspecified (ai : AddrInfo) : Prop where
  clone : ai.flags &&& AI_CLONE ≠ 0
  socktype : ai.socktype = 0
  family : ai.family ≠ .other

/-- What an entry says: a socket type with its port, and the data of an address. -/
def AddrInfo.entry (ai : AddrInfo) : (ℕ × UInt16) × Family × ℤ × ℕ × Bytes :=
  ((ai.socktype, ai.port), ai.family, ai.protocol, ai.addrlen, ai.addr)

variable {getservbyname} {l : List AddrInfo} {ai : AddrInfo} {p q : UInt16} {t u mem : ℕ}

lemma setPort_eq (hai : ai.family ≠ .other) : setPort p t ai = ai.bound t p := by
  unfold setPort
  split
  · rfl
  · rfl
  · exact absurd ‹_› hai

lemma counts_eq (hai : ai.family ≠ .other) : counts ai = 1 := by
  unfold counts
  split
  · rfl
  · rfl
  · exact absurd ‹_› hai

lemma gaPort_first (hl : ∀ ai ∈ l, Unspecified ai) :
    gaPort p t mem l = some (l.map (·.bound t p), l.length, mem) := by
  induction l with
  | nil => rfl
  | cons ai l ih =>
    obtain ⟨hai, hl⟩ := forall_mem_cons.mp hl
    rw [gaPort, if_pos hai.clone, if_neg (not_not.mpr hai.socktype), ih hl, counts_eq hai.family,
      setPort_eq hai.family]
    simp [Nat.add_comm]

lemma gaPort_second (ht : t ≠ 0) (hl : ∀ ai ∈ l, Unspecified ai) (hmem : l.length ≤ mem) :
    gaPort q u mem (l.map (·.bound t p)) =
      some (l.flatMap fun ai => [ai.bound t p, ai.clone.bound u q], l.length, mem - l.length) := by
  induction l generalizing mem with
  | nil => rfl
  | cons ai l ih =>
    obtain ⟨hai, hl⟩ := forall_mem_cons.mp hl
    cases mem with
    | zero => exact absurd hmem (Nat.not_succ_le_zero _)
    | succ mem =>
      have hclone : (ai.bound t p).flags &&& AI_CLONE ≠ 0 := hai.clone
      have hcount : counts (ai.bound t p) = 1 := counts_eq hai.family
      have hset : setPort q u (ai.bound t p).clone = ai.clone.bound u q := setPort_eq hai.family
      rw [map_cons, gaPort, if_pos hclone,
        if_pos (show (ai.bound t p).socktype ≠ 0 from ht), gaClone, bind_some,
        ih hl (Nat.le_of_succ_le_succ hmem), hcount, hset]
      simp [Nat.add_comm]

lemma pass_first (hl : ∀ ai ∈ l, Unspecified ai) (t : ℕ) (p : UInt16) :
    State.pass ⟨l, 0, mem⟩ p t = .ok ⟨l.map (·.bound t p), l.length, mem⟩ := by
  simp [State.pass, gaPort_first hl]

lemma pass_second (hl : ∀ ai ∈ l, Unspecified ai) (hmem : l.length ≤ mem) (p q : UInt16) :
    State.pass ⟨l.map (·.bound SOCK_STREAM p), l.length, mem⟩ q SOCK_DGRAM =
      .ok ⟨l.flatMap fun ai => [ai.bound SOCK_STREAM p, ai.clone.bound SOCK_DGRAM q],
        l.length + l.length, mem - l.length⟩ := by
  have ht : SOCK_STREAM ≠ 0 := by decide
  simp only [State.pass, gaPort_second ht hl hmem]

/-- If the caller has not asked for a socket type and there are addresses, `ga_serv` returns an
entry for each address and each socket type with the service, and fails if there is none. -/
theorem gaServ_entries (serv : Bytes) (hl : ∀ ai ∈ l, Unspecified ai) (hne : l ≠ [])
    (hmem : l.length ≤ mem) :
    (found getservbyname serv = [] → gaServ getservbyname 0 serv mem l = .error .noname) ∧
      (found getservbyname serv ≠ [] → ∃ l', gaServ getservbyname 0 serv mem l = .ok l' ∧
        l'.map AddrInfo.entry =
          l.flatMap fun ai => (found getservbyname serv).map fun f => (f, ai.entry.2)) := by
  have hone (t : ℕ) (p : UInt16) : l.map (AddrInfo.entry ∘ (·.bound t p)) =
      l.flatMap fun ai => [((t, p), ai.entry.2)] := map_eq_flatMap
  have hboth (p q : UInt16) : (l.flatMap fun ai =>
      [ai.bound SOCK_STREAM p, ai.clone.bound SOCK_DGRAM q]).map AddrInfo.entry =
      l.flatMap fun ai => [((SOCK_STREAM, p), ai.entry.2), ((SOCK_DGRAM, q), ai.entry.2)] :=
    map_flatMap
  unfold gaServ found
  split
  · simp [Except.bind, pass_first hl, pass_second hl hmem, hne, hboth]
  · cases htcp : getservbyname serv .tcp <;> cases hudp : getservbyname serv .udp <;>
      simp [State.look, htcp, hudp, Except.bind, pass_first hl, pass_second hl hmem, hne, hone,
        hboth]

/-- The loopback addresses of both families. -/
def loopback : List AddrInfo :=
  [⟨AI_CLONE, .inet, 0, 0, none, 16, [127, 0, 0, 1], 0⟩,
    ⟨AI_CLONE, .inet6, 0, 0, none, 28, replicate 15 0 ++ [1], 0⟩]

/-- The service `dns`, with the port 53 for both socket types. -/
theorem gaServ_entries_loopback :
    ∃ l', gaServ (fun _ _ => some (htons 53)) 0 [100, 110, 115] 2 loopback = .ok l' ∧
      l'.map AddrInfo.entry = loopback.flatMap fun ai =>
        [((SOCK_STREAM, htons 53), ai.entry.2), ((SOCK_DGRAM, htons 53), ai.entry.2)] := by
  refine (gaServ_entries [100, 110, 115] (fun ai h => ?_) (cons_ne_nil _ _) le_rfl).2
    (cons_ne_nil _ _)
  rcases mem_pair.mp h with rfl | rfl
  · exact ⟨by decide, rfl, Family.noConfusion⟩
  · exact ⟨by decide, rfl, Family.noConfusion⟩

/-- Without an address even a service that is found gives an error. -/
theorem gaServ_nil :
    found (fun _ _ => some (htons 53)) [] ≠ [] ∧
      gaServ (fun _ _ => some (htons 53)) 0 [] 0 [] = .error .noname :=
  ⟨cons_ne_nil _ _, rfl⟩

end UnixPrograms.GaServ
