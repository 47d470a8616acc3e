import UnixPrograms.Lib.Files
import UnixPrograms.Lib.Runs
import Mathlib.Data.List.Range

/-!
# The poll version of the open server's loop

`pollfd` is packed, so that the last entry moves into the hole when a connection ends, while in
`client` a new connection gets the first free entry.  The loop uses one index for both, so that they
agree only as long as it is always the last connection that ends (`loop_wrong_uid`).

What is beyond the size of an array is what `malloc` and `realloc` happen to find.
-/

namespace UnixPrograms.Opend

open Function Option

def NALLOC : ℕ := 10

structure Revents where
  pollin : Bool
  pollhup : Bool
  deriving DecidableEq

def noEvents : Revents where
  pollin := false
  pollhup := false

structure Pollfd where
  fd : ℤ
  revents : Revents
  deriving DecidableEq

structure Client where
  fd : ℤ
  uid : ℕ
  deriving DecidableEq

structure Server where
  client : ℕ → Client
  clientSize : ℕ
  pollfd : ℕ → Pollfd
  numfd : ℕ
  maxfd : ℕ

namespace Server

/-- `client_alloc`: the new entries are available, their `uid` is not set. -/
def clientAlloc (s : Server) : Server :=
  { s with
    client := fun i =>
      if s.clientSize ≤ i ∧ i < s.clientSize + NALLOC then { s.client i with fd := -1 }
      else s.client i
    clientSize := s.clientSize + NALLOC }

/-- The first entry of `client` with this descriptor, as the loops of `client_add` and `client_del`
look for it. -/
def findClient (s : Server) (fd : ℤ) : Option ℕ :=
  (List.range s.clientSize).find? fun i => (s.client i).fd = fd

def setClient (s : Server) (i : ℕ) (c : Client) : Server :=
  { s with client := update s.client i c }

/-- `client_add`: after `client_alloc` the search is repeated, and finds an entry. -/
def clientAdd (fd : ℤ) (uid : ℕ) (s : Server) : Server :=
  match s.findClient (-1) with
  | some i => s.setClient i ⟨fd, uid⟩
  | none =>
    match s.clientAlloc.findClient (-1) with
    | some i => s.clientAlloc.setClient i ⟨fd, uid⟩
    | none => s.clientAlloc

/-- `client_del`; without such an entry the server quits. -/
def clientDel (fd : ℤ) (s : Server) : Option Server :=
  (s.findClient fd).map fun i => s.setClient i { s.client i with fd := -1 }

def growPollfd (s : Server) : Server :=
  { s with
    pollfd := fun i => if s.maxfd ≤ i ∧ i < s.maxfd + NALLOC then ⟨-1, noEvents⟩ else s.pollfd i
    maxfd := s.maxfd + NALLOC }

def addPollfd (clifd : ℤ) (s : Server) : Server :=
  let s := if s.numfd = s.maxfd then s.growPollfd else s
  { s with
    pollfd := update s.pollfd s.numfd ⟨clifd, noEvents⟩
    numfd := s.numfd + 1 }

/-- Pack the array: the last entry moves to `i`, unless it is `i`. -/
def removePollfd (i : ℕ) (s : Server) : Server :=
  { s with
    pollfd := if i < s.numfd - 1 then update s.pollfd i (s.pollfd (s.numfd - 1))
      else s.pollfd
    numfd := s.numfd - 1 }

end Server

/-- Where the loop is: before `poll`, before the test of `pollfd[0]`, or at the head of the `for`
loop with the index `i`. -/
inductive At where
  | poll
  | listen
  | scan (i : ℕ)
  deriving DecidableEq

/-- The server, and for each descriptor the user ID that `serv_accept` reported when the connection
on it was accepted, which is not part of the program. -/
structure State where
  srv : Server
  pc : At
  reported : ℤ → ℕ

/-- What the loop does next, with what the system calls return. -/
inductive Action where
  /-- `poll` returns, with `revents` in `pollfd[i].revents`. -/
  | poll (revents : ℕ → Revents)
  | quiet
  /-- `serv_accept` returns the descriptor `clifd` and reports `uid`. -/
  | accept (clifd : ℤ) (uid : ℕ)
  /-- The entry `i` is ready for nothing. -/
  | pass
  /-- The client has closed the connection: `POLLHUP`, or a `read` of nothing. -/
  | hungup
  /-- The client's request has been read: `handle_request` is called. -/
  | request (buf : Bytes)
  | done

/-- The descriptor and the user ID with which `handle_request` is called for the entry `i`. -/
def handleRequestArgs (s : Server) (i : ℕ) : ℤ × ℕ := ((s.pollfd i).fd, (s.client i).uid)

/-- One step of `loop`.  A failing system call ends the server, and there is no next state. -/
def step (s : State) : Action → Option State
  | .poll revents =>
    if s.pc = .poll then
      some { s with
        srv := { s.srv with
          pollfd := fun i =>
            if i < s.srv.numfd then { s.srv.pollfd i with revents := revents i }
              else s.srv.pollfd i }
        pc := .listen }
    else none
  | .quiet =>
    if s.pc = .listen ∧ (s.srv.pollfd 0).revents.pollin = false then some { s with pc := .scan 1 }
    else none
  | .accept clifd uid =>
    -- a descriptor that the system returns is not in use
    if s.pc = .listen ∧ (s.srv.pollfd 0).revents.pollin = true ∧ 0 ≤ clifd ∧
        ∀ i < s.srv.numfd, (s.srv.pollfd i).fd ≠ clifd then
      some { srv := (s.srv.clientAdd clifd uid).addPollfd clifd
             pc := .scan 1
             reported := update s.reported clifd uid }
    else none
  | .pass =>
    match s.pc with
    | .scan i =>
      if i < s.srv.numfd ∧ (s.srv.pollfd i).revents = noEvents then
        some { s with pc := .scan (i + 1) }
      else none
    | _ => none
  | .hungup =>
    match s.pc with
    | .scan i =>
      if i < s.srv.numfd ∧ (s.srv.pollfd i).revents ≠ noEvents then
        (s.srv.clientDel (s.srv.pollfd i).fd).map fun srv =>
          -- a moved entry is checked again
          { s with
            srv := srv.removePollfd i
            pc := if i < s.srv.numfd - 1 then .scan i else .scan (i + 1) }
      else none
    | _ => none
  | .request buf =>
    match s.pc with
    | .scan i =>
      if i < s.srv.numfd ∧ (s.srv.pollfd i).revents.pollhup = false ∧
          (s.srv.pollfd i).revents.pollin = true ∧ buf ≠ [] then
        some { s with pc := .scan (i + 1) }
      else none
    | _ => none
  | .done =>
    match s.pc with
    | .scan i => if i < s.srv.numfd then none else some { s with pc := .poll }
    | _ => none

def emptyServer (client : ℕ → Client) (pollfd : ℕ → Pollfd) : Server where
  client := client
  clientSize := 0
  pollfd := pollfd
  numfd := 1
  maxfd := NALLOC

/-- The server when it enters the endless loop; `client` and `pollfd` are what the allocated memory
holds before. -/
def start (listenfd : ℤ) (client : ℕ → Client) (pollfd : ℕ → Pollfd) : State where
  srv :=
    let s := (emptyServer client pollfd).clientAdd listenfd 0
    { s with
      pollfd := fun i => if i = 0 then ⟨listenfd, noEvents⟩ else if i < NALLOC then ⟨-1, noEvents⟩
        else pollfd i }
  pc := .poll
  reported _ := 0

/-! ## The two arrays -/

namespace Server

@[simp] lemma setClient_self (s : Server) (i : ℕ) (c : Client) : (s.setClient i c).client i = c :=
  update_self ..

lemma setClient_of_ne (s : Server) {i j : ℕ} (c : Client) (h : j ≠ i) :
    (s.setClient i c).client j = s.client j :=
  update_of_ne h ..

variable {n : ℕ} {fd : ℤ} {s : Server}

lemma findClient_eq_some (hn : n < s.clientSize) (hfd : (s.client n).fd = fd)
    (hbefore : ∀ i < n, (s.client i).fd ≠ fd) : s.findClient fd = some n := by
  rw [findClient, List.find?_range_eq_some]
  exact ⟨by simpa using hfd, by simpa using hn, fun i hi => by simpa using hbefore i hi⟩

lemma findClient_eq_none (h : ∀ i < s.clientSize, (s.client i).fd ≠ fd) :
    s.findClient fd = none := by
  rw [findClient, List.find?_eq_none]
  intro i hi
  simpa using h i (by simpa using hi)

/-- The entries of `client` from `n` on are available, and those before are not. -/
structure UsedTo (s : Server) (n : ℕ) : Prop where
  le : n ≤ s.clientSize
  used : ∀ i < n, (s.client i).fd ≠ -1
  free : ∀ i, n ≤ i → i < s.clientSize → (s.client i).fd = -1

lemma UsedTo.clientAdd (h : s.UsedTo n) (hfd : fd ≠ -1) (uid : ℕ) :
    (s.clientAdd fd uid).UsedTo (n + 1) ∧ (s.clientAdd fd uid).client n = ⟨fd, uid⟩ ∧
      ∀ i < n, (s.clientAdd fd uid).client i = s.client i := by
  -- it is enough to look at the array with room for it
  have key : ∀ s' : Server, s'.UsedTo n → n < s'.clientSize →
      (∀ i < n, s'.client i = s.client i) →
      (s'.setClient n ⟨fd, uid⟩).UsedTo (n + 1) ∧ (s'.setClient n ⟨fd, uid⟩).client n = ⟨fd, uid⟩ ∧
        ∀ i < n, (s'.setClient n ⟨fd, uid⟩).client i = s.client i := by
    intro s' h' hlt hsame
    refine ⟨⟨hlt, fun i hi => ?_, fun i hi hi' => ?_⟩, setClient_self .., fun i hi => ?_⟩
    · rcases Nat.lt_succ_iff_lt_or_eq.mp hi with hi | rfl
      · rw [setClient_of_ne _ _ (Nat.ne_of_lt hi)]
        exact h'.used i hi
      · rw [setClient_self]
        exact hfd
    · rw [setClient_of_ne _ _ (by omega)]
      exact h'.free i (by omega) hi'
    · rw [setClient_of_ne _ _ (Nat.ne_of_lt hi), hsame i hi]
  by_cases hlt : n < s.clientSize
  · have hfind := findClient_eq_some hlt (h.free n le_rfl hlt) h.used
    rw [Server.clientAdd, hfind]
    exact key s h hlt fun i _ => rfl
  · have hn : n = s.clientSize := Nat.le_antisymm h.le (Nat.le_of_not_lt hlt)
    have hold : ∀ i < n, s.clientAlloc.client i = s.client i := by
      intro i hi
      exact if_neg (by omega)
    have halloc : s.clientAlloc.UsedTo n := by
      refine ⟨hn ▸ Nat.le_add_right _ _, fun i hi => ?_, fun i hi hi' => ?_⟩
      · rw [hold i hi]
        exact h.used i hi
      · have hi'' : i < s.clientSize + NALLOC := hi'
        change Client.fd (if s.clientSize ≤ i ∧ i < s.clientSize + NALLOC then _ else _) = -1
        rw [if_pos ⟨hn ▸ hi, hi''⟩]
    have hroom : n < s.clientAlloc.clientSize := by
      change n < s.clientSize + 10
      omega
    have hnone : s.findClient (-1) = none := findClient_eq_none (hn ▸ h.used)
    have hfind := findClient_eq_some hroom (halloc.free n le_rfl hroom) halloc.used
    rw [Server.clientAdd, hnone, hfind]
    exact key _ halloc hroom hold

lemma UsedTo.clientDel (h : s.UsedTo (n + 1)) (hfd : (s.client n).fd = fd)
    (hbefore : ∀ i < n, (s.client i).fd ≠ fd) :
    ∃ s', s.clientDel fd = some s' ∧ s'.UsedTo n ∧ (∀ i < n, s'.client i = s.client i) ∧
      s'.pollfd = s.pollfd ∧ s'.numfd = s.numfd ∧ s'.maxfd = s.maxfd := by
  have hfind := findClient_eq_some h.le hfd hbefore
  refine ⟨s.setClient n { s.client n with fd := -1 }, ?_, ⟨?_, ?_, ?_⟩, ?_, rfl, rfl, rfl⟩
  · rw [Server.clientDel, hfind, map_some]
  · exact Nat.le_of_succ_le h.le
  · intro i hi
    rw [setClient_of_ne _ _ (Nat.ne_of_lt hi)]
    exact h.used i (Nat.lt_succ_of_lt hi)
  · intro i hi hi'
    by_cases heq : i = n
    · rw [heq, setClient_self]
    · rw [setClient_of_ne _ _ heq]
      exact h.free i (by omega) hi'
  · intro i hi
    exact setClient_of_ne _ _ (Nat.ne_of_lt hi)

lemma clientAdd_pollfd (s : Server) (fd : ℤ) (uid : ℕ) :
    (s.clientAdd fd uid).pollfd = s.pollfd ∧ (s.clientAdd fd uid).numfd = s.numfd ∧
      (s.clientAdd fd uid).maxfd = s.maxfd := by
  unfold clientAdd
  split
  · exact ⟨rfl, rfl, rfl⟩
  · split
    · exact ⟨rfl, rfl, rfl⟩
    · exact ⟨rfl, rfl, rfl⟩

lemma addPollfd_spec (s : Server) (clifd : ℤ) (hle : s.numfd ≤ s.maxfd) :
    ((s.addPollfd clifd).pollfd s.numfd).fd = clifd ∧
      (∀ i < s.numfd, (s.addPollfd clifd).pollfd i = s.pollfd i) ∧
      (s.addPollfd clifd).numfd = s.numfd + 1 ∧ s.numfd + 1 ≤ (s.addPollfd clifd).maxfd ∧
      (s.addPollfd clifd).client = s.client ∧ (s.addPollfd clifd).clientSize = s.clientSize := by
  unfold addPollfd
  by_cases hfull : s.numfd = s.maxfd
  · rw [if_pos hfull]
    refine ⟨?_, fun i hi => ?_, rfl, ?_, rfl, rfl⟩
    · simp [growPollfd]
    · have hnot : ¬ (s.maxfd ≤ i ∧ i < s.maxfd + NALLOC) := by omega
      calc update s.growPollfd.pollfd s.growPollfd.numfd _ i = s.growPollfd.pollfd i :=
            update_of_ne (Nat.ne_of_lt hi) ..
        _ = s.pollfd i := if_neg hnot
    · change s.numfd + 1 ≤ s.maxfd + 10
      omega
  · rw [if_neg hfull]
    refine ⟨?_, fun i hi => ?_, rfl, ?_, rfl, rfl⟩
    · simp
    · exact update_of_ne (Nat.ne_of_lt hi) ..
    · exact Nat.lt_of_le_of_ne hle hfull

end Server

/-! ## The invariant -/

/-- The two arrays agree: the entries in use are the same in both, and `client` has the user ID of
each connection. -/
structure InSync (srv : Server) (reported : ℤ → ℕ) : Prop where
  used : srv.UsedTo srv.numfd
  room : srv.numfd ≤ srv.maxfd
  same : ∀ i < srv.numfd, (srv.client i).fd = (srv.pollfd i).fd
  distinct : ∀ i < srv.numfd, ∀ j < srv.numfd, (srv.pollfd i).fd = (srv.pollfd j).fd → i = j
  listening : 0 < srv.numfd
  uids : ∀ i, 0 < i → i < srv.numfd → (srv.client i).uid = reported (srv.pollfd i).fd

/-- A connection that ends is the last one in `pollfd`. -/
def LastCloses (s : State) : Action → Prop
  | .hungup => ∀ i, s.pc = .scan i → i + 1 = s.srv.numfd
  | _ => True

lemma inSync_start {listenfd : ℤ} (hfd : 0 ≤ listenfd) (client : ℕ → Client)
    (pollfd : ℕ → Pollfd) : InSync (start listenfd client pollfd).srv fun _ => 0 := by
  have hempty : (emptyServer client pollfd).UsedTo 0 :=
    ⟨Nat.zero_le _, fun i hi => absurd hi (Nat.not_lt_zero i),
      fun i _ hi => absurd hi (Nat.not_lt_zero i)⟩
  have hne : listenfd ≠ -1 := by omega
  obtain ⟨hused, hclient, -⟩ := hempty.clientAdd hne 0
  obtain ⟨-, hnum, hmax⟩ := (emptyServer client pollfd).clientAdd_pollfd listenfd 0
  have hone : (start listenfd client pollfd).srv.numfd = 1 := hnum
  refine ⟨?_, ?_, ?_, ?_, ?_, ?_⟩
  · rw [hone]
    exact ⟨hused.le, hused.used, hused.free⟩
  · rw [hone]
    exact hmax ▸ (by decide : 1 ≤ NALLOC)
  · intro i hi
    obtain rfl : i = 0 := by omega
    exact congrArg Client.fd hclient
  · intro i hi j hj _
    omega
  · rw [hone]
    exact Nat.one_pos
  · intro i hi hi'
    omega

variable {reported : ℤ → ℕ} {srv : Server}

lemma InSync.congr (h : InSync srv reported) {pollfd : ℕ → Pollfd}
    (hfd : ∀ i, (pollfd i).fd = (srv.pollfd i).fd) :
    InSync { srv with pollfd := pollfd } reported := by
  refine ⟨⟨h.used.le, h.used.used, h.used.free⟩, h.room, ?_, ?_, h.listening, ?_⟩
  · intro i hi
    exact (h.same i hi).trans (hfd i).symm
  · intro i hi j hj heq
    exact h.distinct i hi j hj ((hfd i).symm.trans (heq.trans (hfd j)))
  · intro i hi hi'
    exact (h.uids i hi hi').trans (congrArg reported (hfd i).symm)

lemma InSync.accept (h : InSync srv reported) {clifd : ℤ} (hpos : 0 ≤ clifd)
    (hfresh : ∀ i < srv.numfd, (srv.pollfd i).fd ≠ clifd) (uid : ℕ) :
    InSync ((srv.clientAdd clifd uid).addPollfd clifd) (update reported clifd uid) := by
  have hne : clifd ≠ -1 := by omega
  obtain ⟨hused, hnew, hold⟩ := h.used.clientAdd hne uid
  obtain ⟨hpoll, hnum, hmax⟩ := srv.clientAdd_pollfd clifd uid
  obtain ⟨hfd, hentries, hnum', hmax', hclient, hsize⟩ :=
    (srv.clientAdd clifd uid).addPollfd_spec clifd (by rw [hnum, hmax]; exact h.room)
  rw [hnum] at hfd hentries hnum' hmax'
  rw [hpoll] at hentries
  -- the entries before the new one
  have hlt : ∀ {i}, i < srv.numfd + 1 → i ≠ srv.numfd → i < srv.numfd := by
    intro i hi hi'
    omega
  refine ⟨?_, ?_, ?_, ?_, ?_, ?_⟩
  · rw [hnum']
    refine ⟨?_, ?_, ?_⟩
    · rw [hsize]
      exact hused.le
    · rw [hclient]
      exact hused.used
    · rw [hclient, hsize]
      exact hused.free
  · rw [hnum']
    exact hmax'
  · intro i hi
    rw [hnum'] at hi
    rw [hclient]
    by_cases heq : i = srv.numfd
    · rw [heq, hnew, hfd]
    · rw [hold i (hlt hi heq), hentries i (hlt hi heq)]
      exact h.same i (hlt hi heq)
  · intro i hi j hj
    rw [hnum'] at hi hj
    by_cases hi' : i = srv.numfd
    · by_cases hj' : j = srv.numfd
      · exact fun _ => hi'.trans hj'.symm
      · rw [hi', hfd, hentries j (hlt hj hj')]
        exact fun heq => absurd heq.symm (hfresh j (hlt hj hj'))
    · by_cases hj' : j = srv.numfd
      · rw [hj', hfd, hentries i (hlt hi hi')]
        exact fun heq => absurd heq (hfresh i (hlt hi hi'))
      · rw [hentries i (hlt hi hi'), hentries j (hlt hj hj')]
        exact h.distinct i (hlt hi hi') j (hlt hj hj')
  · rw [hnum']
    exact Nat.succ_pos _
  · intro i hi hi'
    rw [hnum'] at hi'
    rw [hclient]
    by_cases heq : i = srv.numfd
    · rw [heq, hnew, hfd, update_self]
    · rw [hold i (hlt hi' heq), hentries i (hlt hi' heq), update_of_ne (hfresh i (hlt hi' heq))]
      exact h.uids i hi (hlt hi' heq)

lemma InSync.hungup {srv' : Server} (h : InSync srv reported) {i : ℕ} (hi : 0 < i)
    (hlast : i + 1 = srv.numfd) (hdel : srv.clientDel (srv.pollfd i).fd = some srv') :
    InSync (srv'.removePollfd i) reported := by
  have hlt : i < srv.numfd := hlast ▸ Nat.lt_succ_self i
  have hused := h.used
  rw [← hlast] at hused
  obtain ⟨_, hdel', hused', hclient, hpoll, hnum, hmax⟩ := hused.clientDel (h.same i hlt)
    fun j hj heq => by
      rw [h.same j (by omega)] at heq
      have := h.distinct j (by omega) i hlt heq
      omega
  obtain rfl := some.inj (hdel.symm.trans hdel')
  have hnum' : (srv'.removePollfd i).numfd = i := by
    rw [Server.removePollfd, hnum, ← hlast, Nat.add_sub_cancel]
  have hpoll' : (srv'.removePollfd i).pollfd = srv.pollfd := by
    rw [Server.removePollfd, hnum, ← hlast, Nat.add_sub_cancel, if_neg (Nat.lt_irrefl i), hpoll]
  have hclient' : ∀ j < i, (srv'.removePollfd i).client j = srv.client j := hclient
  refine ⟨?_, ?_, ?_, ?_, ?_, ?_⟩
  · rw [hnum']
    exact ⟨hused'.le, hused'.used, hused'.free⟩
  · rw [hnum', Server.removePollfd, hmax]
    exact (Nat.le_of_lt hlt).trans h.room
  · intro j hj
    rw [hnum'] at hj
    rw [hclient' j hj, hpoll']
    exact h.same j (by omega)
  · intro j hj k hk
    rw [hnum'] at hj hk
    rw [hpoll']
    exact h.distinct j (by omega) k (by omega)
  · rw [hnum']
    exact hi
  · intro j hj hj'
    rw [hnum'] at hj'
    rw [hclient' j hj', hpoll']
    exact h.uids j hj (by omega)

/-- What holds in every state of a run. -/
structure Running (s : State) : Prop where
  inSync : InSync s.srv s.reported
  scanning : ∀ i, s.pc = .scan i → 0 < i

lemma Running.next {s : State} (h : Running s) (i : ℕ) :
    Running { s with pc := .scan (i + 1) } where
  inSync := h.inSync
  scanning j hj := by
    cases hj
    exact Nat.succ_pos i

lemma Running.step {s s' : State} {l : Action} (h : Running s) (hst : step s l = some s')
    (hC : LastCloses s l) : Running s' := by
  revert hst
  fun_cases Opend.step s l with
  | case1 =>
    rintro ⟨⟩
    refine ⟨h.inSync.congr fun i => ?_, fun i hi => by cases hi⟩
    split
    · rfl
    · rfl
  | case3 => exact fun hst => some.inj hst ▸ h.next 0
  | case5 clifd uid hin =>
    rintro ⟨⟩
    refine ⟨h.inSync.accept hin.2.2.1 hin.2.2.2 uid, fun i hi => ?_⟩
    cases hi
    exact Nat.one_pos
  | case7 i | case13 _ i => exact fun hst => some.inj hst ▸ h.next i
  | case10 i hpc =>
    intro hst
    obtain ⟨srv, hdel, rfl⟩ := map_eq_some_iff.mp hst
    have hlast := hC i hpc
    refine ⟨h.inSync.hungup (h.scanning i hpc) hlast hdel, fun j hj => ?_⟩
    have hnot : ¬ i < s.srv.numfd - 1 := by omega
    simp only [if_neg hnot] at hj
    cases hj
    exact Nat.succ_pos i
  | case17 => exact fun hst => some.inj hst ▸ ⟨h.inSync, fun j hj => by cases hj⟩
  | _ => simp

/-- In every run in which only last connections end, `handle_request` is called with the user ID
that was reported for the connection. -/
theorem loop_uid_of_lastCloses {listenfd : ℤ} (hfd : 0 ≤ listenfd) {client : ℕ → Client}
    {pollfd : ℕ → Pollfd} {ls : List Action} {s s' : State} {i : ℕ} {buf : Bytes}
    (hrun : RunWhen step LastCloses (start listenfd client pollfd) ls s)
    (hreq : step s (.request buf) = some s') (hpc : s.pc = .scan i) :
    (handleRequestArgs s.srv i).2 = s.reported (handleRequestArgs s.srv i).1 := by
  have h : Running s := hrun.invariant ⟨inSync_start hfd client pollfd, fun i hi => by cases hi⟩
    fun s l s' h hst hC => h.step hst hC
  simp only [step, hpc, ite_none_right_eq_some] at hreq
  exact h.inSync.uids i (h.scanning i hpc) hreq.1.1

/-! ## Two connections -/

def zeroServer : State := start 3 (fun _ => ⟨0, 0⟩) fun _ => ⟨0, noEvents⟩

def readable (is : List ℕ) : Action := .poll fun i => ⟨is.contains i, false⟩

def twoConnect : List Action :=
  [readable [0], .accept 4 100, .pass, .done, readable [0], .accept 5 200, .pass, .pass, .done]

def lastLeaves : List Action :=
  twoConnect ++ [readable [2], .quiet, .pass, .hungup, .done, readable [1], .quiet]

def firstLeaves : List Action :=
  twoConnect ++ [readable [1], .quiet, .hungup, .pass, .done, readable [1], .quiet]

def closesLast (s : State) : Action → Bool
  | .hungup => match s.pc with
    | .scan i => i + 1 = s.srv.numfd
    | _ => true
  | _ => true

/-- When the last client has left, the request of the other one is handled for the right user. -/
theorem loop_uid_of_lastCloses_two :
    ∃ s s', step s (.request [0]) = some s' ∧ s.pc = .scan 1 ∧
      handleRequestArgs s.srv 1 = (4, 100) ∧ (handleRequestArgs s.srv 1).2 = s.reported 4 := by
  obtain ⟨s, hrun, hpc, hargs, hready, hnum⟩ :=
    exists_runFrom (guarded step closesLast) zeroServer lastLeaves
      (fun s => s.pc = .scan 1 ∧ handleRequestArgs s.srv 1 = (4, 100) ∧
        (s.srv.pollfd 1).revents = ⟨true, false⟩ ∧ s.srv.numfd = 2) (by decide +kernel)
  have hreq : step s (.request [0]) = some { s with pc := .scan 2 } := by
    simp [step, hpc, hready, hnum]
  have hrun' : RunWhen step LastCloses zeroServer lastLeaves s := by
    refine runWhen_of_guarded (fun s l hc => ?_) hrun
    cases l with
    | hungup =>
      intro i hi
      simpa [closesLast, hi] using hc
    | _ => trivial
  have huid := loop_uid_of_lastCloses (by decide) hrun' hreq hpc
  rw [hargs] at huid
  exact ⟨s, _, hreq, hpc, hargs, by rw [hargs]; exact huid⟩

/-- When the first client has left, the second one has moved to its entry in `pollfd`, and its
request is handled for the user of the first one. -/
theorem loop_wrong_uid :
    ∃ s s', RunFrom step zeroServer firstLeaves s ∧ step s (.request [0]) = some s' ∧
      s.pc = .scan 1 ∧ handleRequestArgs s.srv 1 = (5, 100) ∧ s.reported 5 = 200 := by
  obtain ⟨s, hrun, hpc, hargs, hrep, hready, hnum⟩ := exists_runFrom step zeroServer firstLeaves
    (fun s => s.pc = .scan 1 ∧ handleRequestArgs s.srv 1 = (5, 100) ∧ s.reported 5 = 200 ∧
      (s.srv.pollfd 1).revents = ⟨true, false⟩ ∧ s.srv.numfd = 2) (by decide +kernel)
  refine ⟨s, { s with pc := .scan 2 }, hrun, ?_, hpc, hargs, hrep⟩
  simp [step, hpc, hready, hnum]

end UnixPrograms.Opend
