import UnixPrograms.Lib.Mailbox
import UnixPrograms.SmiShm.Model

/-!
# The segments are mailboxes

Each segment with its two semaphores is a mailbox for one message (`Refines`), taken by the process
that is between get-address and release on it.  So every message is received once and as it was
sent, and a reply gets to the client that has sent the request (`smi_shm_correct`).
-/

namespace UnixPrograms.SmiShm

open Function List Option

variable {C : Type}

abbrev Boxes (C : Type) := Party C → Mailbox (Party C) (Sent C)

def semiRead : Phase (Party C) (Sent C) → ℕ
  | .full _ => 1
  | _ => 0

def semiWrite : Phase (Party C) (Sent C) → ℕ
  | .empty => 1
  | _ => 0

/-- The semaphores have the values of the phase. -/
structure Matches (set : SemSet (Party C)) (φ : Phase (Party C) (Sent C)) : Prop where
  nsems : set.nsems = 2
  read : set.val SEMI_READ = semiRead φ
  write : set.val SEMI_WRITE = semiWrite φ

/-- The server has waited for the semaphore of the client. -/
def ServerSend.holding : ServerSend → Bool
  | .idle | .waiting => false
  | .address | .inUse _ => true

/-- The process is about to send a message to `r` and has waited for the semaphore. -/
def State.Holds (ids : Ids C) (s : State C) : Party C → Party C → Prop
  | .server, r =>
    s.serverSend.holding = true ∧ ∃ c, r = .client c ∧ s.sqClient = ids.client c
  | .client c, r => r = .server ∧ s.clientSend c ≠ .idle

/-- The phases of the mailboxes are those of the semaphores and of the processes. -/
structure Phases (ids : Ids C) (s : State C) (box : Boxes C) : Prop where
  sems : ∀ r, Matches (s.sem (ids.sem r)) (box r).phase
  opened : ∀ r, s.opening r = .opened ↔ (box r).phase ≠ .closed
  receiving : ∀ r, s.receiving r = true ↔ ∃ m, (box r).phase = .reading m
  holds : ∀ p r, s.Holds ids p r ↔ (box r).phase = .writing p

/-- A message that is in a mailbox is in the segment, and a client leaves its identification. -/
structure Contents (ids : Ids C) (s : State C) (box : Boxes C) : Prop where
  pending : ∀ r, ∀ m ∈ (box r).phase.pending, s.seg (ids.shm r) = m.msg
  cId1 : ∀ c, s.clientSend c = .id2 ∨ s.clientSend c = .inUse →
    (s.seg (ids.shm .server)).smiClient.cId1 = ids.shm (.client c)
  cId2 : ∀ c, s.clientSend c = .inUse →
    (s.seg (ids.shm .server)).smiClient.cId2 = ids.sem (.client c)

/-- What has been sent and received is what went through the mailboxes. -/
structure Logs (ids : Ids C) (s : State C) (box : Boxes C) : Prop where
  sent : ∀ r, s.sent (ids.sem r) = (box r).sent
  sent_nil : ∀ i, (∀ r, i ≠ ids.sem r) → s.sent i = []
  received : ∀ r, s.received r = (box r).received.map Sent.msg
  requests : ∀ x ∈ (box .server).sent, ∃ c, x.sender = .client c ∧ x.named = none ∧
    x.msg.smiClient = ids.client c
  replies : ∀ c, ∀ x ∈ (box (.client c)).sent, x.named = some (.client c)

/-- The identifications that the server has copied are those of the clients whose requests they come
from, and it writes to the segment of the client. -/
structure ServerData (ids : Ids C) (s : State C) : Prop where
  copies : ∀ x ∈ s.copies, ∃ c, x = (ids.client c, .client c)
  current : s.serverSend ≠ .idle → ∃ c, s.sqClient = ids.client c ∧ s.named = .client c
  address : ∀ addr, s.serverSend = .inUse addr → s.mapped.attached addr = some s.sqClient.cId1
  mapped : s.mapped.Sound
  fault : s.fault = false

/-- The segments are mailboxes. -/
structure Refines (ids : Ids C) (s : State C) (box : Boxes C) : Prop where
  phases : Phases ids s box
  contents : Contents ids s box
  logs : Logs ids s box
  server : ServerData ids s

/-! ## Operations on the semaphores -/

section Semaphores

variable {ids : Ids C} {s s' : State C} {p : Party C} {i : ℤ} {φ : Phase (Party C) (Sent C)}

lemma Matches.setval {semNum : ℕ} (h : Matches (s.sem i) .closed) :
    Matches ((s.sem i).setval semNum 0) .closed := by
  have hval : ∀ j, (s.sem i).val j = 0 → ((s.sem i).setval semNum 0).val j = 0 := by
    intro j hj
    by_cases hjn : j = semNum
    · subst hjn
      exact update_self ..
    · exact (update_of_ne hjn ..).trans hj
  exact ⟨h.nsems, hval SEMI_READ h.read, hval SEMI_WRITE h.write⟩

variable [DecidableEq C]

def State.putSem (s : State C) (i : ℤ) (set : SemSet (Party C)) : State C :=
  { s with sem := update s.sem i set }

lemma Matches.opSemi {semNum : ℕ} {semOp : ℤ} (h : Matches (s.sem i) φ)
    (hop : s.opSemi p i semNum semOp = some s') : ∃ set, s' = s.putSem i set ∧ set.nsems = 2 ∧
      (set.val SEMI_READ : ℤ) = semiRead φ + (if semNum = SEMI_READ then semOp else 0) ∧
      (set.val SEMI_WRITE : ℤ) = semiWrite φ + if semNum = SEMI_WRITE then semOp else 0 := by
  unfold State.opSemi at hop
  split at hop
  · next set hset =>
    have hchanged := SemSet.changed_semop hset
    have hread := hchanged.val SEMI_READ
    have hwrite := hchanged.val SEMI_WRITE
    rw [h.read] at hread
    rw [h.write] at hwrite
    simp only [change, Sembuf.change, List.map_cons, List.map_nil, sum_cons, sum_nil,
      add_zero] at hread hwrite
    exact ⟨set, (some.inj hop).symm, hchanged.nsems.trans h.nsems, hread, hwrite⟩
  · cases hop

lemma Matches.wait_read (h : Matches (s.sem i) φ)
    (hop : s.opSemi p i SEMI_READ SEMI_WAIT = some s') :
    ∃ set m, s' = s.putSem i set ∧ φ = .full m ∧ Matches set (.reading m) := by
  obtain ⟨set, rfl, hn, hread, hwrite⟩ := h.opSemi hop
  cases φ with
  | full m =>
    refine ⟨set, m, rfl, rfl, hn, ?_, ?_⟩
    · simpa [semiRead, SEMI_WAIT] using hread
    · simpa [semiWrite, SEMI_READ, SEMI_WRITE] using hwrite
  | closed | empty | writing q | reading m =>
    simp only [semiRead, SEMI_WAIT, if_true] at hread
    omega

lemma Matches.wait_write (h : Matches (s.sem i) φ)
    (hop : s.opSemi p i SEMI_WRITE SEMI_WAIT = some s') (q : Party C) :
    ∃ set, s' = s.putSem i set ∧ φ = .empty ∧ Matches set (.writing q) := by
  obtain ⟨set, rfl, hn, hread, hwrite⟩ := h.opSemi hop
  cases φ with
  | empty =>
    refine ⟨set, rfl, rfl, hn, ?_, ?_⟩
    · simpa [semiRead, SEMI_READ, SEMI_WRITE] using hread
    · simpa [semiWrite, SEMI_WAIT] using hwrite
  | closed | full m | writing q | reading m =>
    simp only [semiWrite, SEMI_WAIT, if_true] at hwrite
    omega

lemma Matches.post_read {q : Party C} (h : Matches (s.sem i) (.writing q))
    (hop : s.opSemi p i SEMI_READ SEMI_POST = some s') (m : Sent C) :
    ∃ set, s' = s.putSem i set ∧ Matches set (.full m) := by
  obtain ⟨set, rfl, hn, hread, hwrite⟩ := h.opSemi hop
  refine ⟨set, rfl, hn, ?_, ?_⟩
  · simpa [semiRead, SEMI_POST] using hread
  · simpa [semiWrite, SEMI_READ, SEMI_WRITE] using hwrite

lemma Matches.post_write (h : Matches (s.sem i) φ) (hread₀ : semiRead φ = 0)
    (hwrite₀ : semiWrite φ = 0) (hop : s.opSemi p i SEMI_WRITE SEMI_POST = some s') :
    ∃ set, s' = s.putSem i set ∧ Matches set .empty := by
  obtain ⟨set, rfl, hn, hread, hwrite⟩ := h.opSemi hop
  rw [hread₀] at hread
  rw [hwrite₀] at hwrite
  refine ⟨set, rfl, hn, ?_, ?_⟩
  · simpa [semiRead, SEMI_READ, SEMI_WRITE] using hread
  · simpa [semiWrite, SEMI_POST] using hwrite

lemma Matches.wait_read_isSome {m : Sent C} (h : Matches (s.sem i) (.full m)) :
    (s.opSemi p i SEMI_READ SEMI_WAIT).isSome = true := by
  have hval : (s.sem i).val SEMI_READ = 1 := h.read
  have hlt : SEMI_READ < (s.sem i).nsems := by
    rw [h.nsems]
    decide
  unfold State.opSemi
  simp [SemSet.semop, SemSet.performAll, SemSet.perform, hlt, hval, SEMI_WAIT]

end Semaphores

/-! ## One mailbox moves -/

section Moves

variable {ids : Ids C} {s s' : State C} {box : Boxes C} {r : Party C}
  {b : Mailbox (Party C) (Sent C)} {c : C}

section

variable (h : Phases ids s box)
include h

lemma Phases.closed_of_ne (hr : s.opening r ≠ .opened) : (box r).phase = .closed := by
  by_contra hne
  exact hr ((h.opened r).mpr hne)

lemma Phases.not_receiving (hr : ∀ m, (box r).phase ≠ .reading m) : ¬ s.receiving r = true := by
  intro hreads
  obtain ⟨m, hm⟩ := (h.receiving r).mp hreads
  exact hr m hm

lemma Phases.not_holds (hr : ∀ p, (box r).phase ≠ .writing p) (p : Party C) : ¬ s.Holds ids p r :=
  fun hholds => hr p ((h.holds p r).mp hholds)

lemma Phases.phase_server (hc : s.clientSend c ≠ .idle) :
    (box .server).phase = .writing (.client c) :=
  (h.holds (.client c) .server).mp ⟨rfl, hc⟩

lemma Phases.client_unique {c' : C} (hc : s.clientSend c ≠ .idle)
    (hc' : s.clientSend c' ≠ .idle) : c = c' := by
  have hphase := h.phase_server hc
  rw [h.phase_server hc'] at hphase
  exact (Party.client.inj (Phase.writing.inj hphase)).symm

lemma Phases.phase_client (hs : s.serverSend.holding = true)
    (hc : s.sqClient = ids.client c) : (box (.client c)).phase = .writing .server :=
  (h.holds .server (.client c)).mp ⟨hs, c, rfl, hc⟩

end

lemma Ids.client_injective (ids : Ids C) : Function.Injective ids.client := by
  intro c c' h
  exact Party.client.inj (ids.shm_injective (congrArg ClientId.cId1 h))

lemma Phases.idle_of_ne (h : Phases ids s box)
    (hphase : ∀ p, (box .server).phase ≠ .writing p) (c : C) : s.clientSend c = .idle := by
  by_contra hc
  exact hphase _ (h.phase_server hc)

variable [DecidableEq C]

lemma Phases.update (h : Phases ids s box) {set : SemSet (Party C)}
    (hsem : s'.sem = update s.sem (ids.sem r) set) (hset : Matches set b.phase)
    (hopening : ∀ r', r' ≠ r → s'.opening r' = s.opening r')
    (hopened : s'.opening r = .opened ↔ b.phase ≠ .closed)
    (hreceiving : ∀ r', r' ≠ r → s'.receiving r' = s.receiving r')
    (hreads : s'.receiving r = true ↔ ∃ m, b.phase = .reading m)
    (hholding : ∀ p r', r' ≠ r → (s'.Holds ids p r' ↔ s.Holds ids p r'))
    (hholds : ∀ p, s'.Holds ids p r ↔ b.phase = .writing p) :
    Phases ids s' (update box r b) where
  sems := by
    apply (forall_update_iff box fun r' b' => Matches (s'.sem (ids.sem r')) b'.phase).mpr
    constructor
    · rw [hsem, update_self]
      exact hset
    · intro r' hr'
      rw [hsem, update_of_ne fun heq => hr' (ids.sem_injective heq)]
      exact h.sems r'
  opened := by
    apply (forall_update_iff box fun r' b' => s'.opening r' = .opened ↔ b'.phase ≠ .closed).mpr
    refine ⟨hopened, fun r' hr' => ?_⟩
    rw [hopening r' hr']
    exact h.opened r'
  receiving := by
    apply (forall_update_iff box
      fun r' b' => s'.receiving r' = true ↔ ∃ m, b'.phase = .reading m).mpr
    refine ⟨hreads, fun r' hr' => ?_⟩
    rw [hreceiving r' hr']
    exact h.receiving r'
  holds p := by
    apply (forall_update_iff box fun r' b' => s'.Holds ids p r' ↔ b'.phase = .writing p).mpr
    exact ⟨hholds p, fun r' hr' => (hholding p r' hr').trans (h.holds p r')⟩

lemma Logs.update (h : Logs ids s box) (hsent : b.sent = (box r).sent)
    (hlog : s'.sent = s.sent) (hreceived : s'.received r = b.received.map Sent.msg)
    (hother : ∀ r', r' ≠ r → s'.received r' = s.received r') :
    Logs ids s' (Function.update box r b) := by
  have hsent' : ∀ r', (Function.update box r b r').sent = (box r').sent := by
    apply (forall_update_iff box fun r' b' => b'.sent = (box r').sent).mpr
    exact ⟨hsent, fun _ _ => rfl⟩
  constructor
  · intro r'
    rw [hsent', hlog]
    exact h.sent r'
  · rw [hlog]
    exact h.sent_nil
  · apply (forall_update_iff box fun r' b' => s'.received r' = b'.received.map Sent.msg).mpr
    exact ⟨hreceived, fun r' hr' => (hother r' hr').trans (h.received r')⟩
  · rw [hsent']
    exact h.requests
  · intro c
    rw [hsent']
    exact h.replies c

lemma Logs.keep (h : Logs ids s box) (hsent : b.sent = (box r).sent)
    (hreceived : b.received = (box r).received) : Logs ids s (Function.update box r b) :=
  h.update hsent rfl (hreceived ▸ h.received r) fun _ _ => rfl

lemma Contents.update (h : Contents ids s box)
    (hpending : ∀ m ∈ b.phase.pending, s.seg (ids.shm r) = m.msg) :
    Contents ids s (update box r b) where
  pending := by
    apply (forall_update_iff box
      fun r' b' => ∀ m ∈ b'.phase.pending, s.seg (ids.shm r') = m.msg).mpr
    exact ⟨hpending, fun r' _ => h.pending r'⟩
  cId1 := h.cId1
  cId2 := h.cId2

lemma Contents.store_pending (h : Contents ids s box) {p : Party C}
    (hphase : (box r).phase = .writing p) (m : Msg) :
    ∀ r', ∀ x ∈ (box r').phase.pending,
      Function.update s.seg (ids.shm r) m (ids.shm r') = x.msg := by
  intro r' x hx
  by_cases hr' : r' = r
  · rw [hr', hphase] at hx
    cases hx
  · rw [update_of_ne fun heq => hr' (ids.shm_injective heq)]
    exact h.pending r' x hx

end Moves

/-! ## Every step is a step of the mailboxes -/

section Steps

variable {ids : Ids C} {s s' : State C} {box : Boxes C} {p : Party C} {addr : ℕ} {c : C}

lemma refines_start (ids : Ids C) : Refines ids (start C) fun _ => Mailbox.closed where
  phases := {
    sems := fun _ => ⟨rfl, rfl, rfl⟩
    opened := fun _ => iff_of_false nofun (not_not.mpr rfl)
    receiving := fun _ => iff_of_false nofun nofun
    holds := by
      rintro (_ | c) r
      · exact iff_of_false (fun hholds => nomatch hholds.1) nofun
      · exact iff_of_false (fun hholds => hholds.2 rfl) nofun }
  contents := ⟨fun _ _ hm => absurd hm not_mem_nil, nofun, nofun⟩
  logs := ⟨fun _ => rfl, fun _ _ => rfl, fun _ => rfl, nofun, nofun⟩
  server := ⟨nofun, fun hne => absurd rfl hne, nofun, Mapped.sound_start, rfl⟩

lemma Refines.copyClient (h : Refines ids s box) (hs' : copyClient ids s = some s') :
    Refines ids s' box := by
  unfold SmiShm.copyClient at hs'
  split_ifs at hs' with hreceiving
  obtain rfl := some.inj hs'
  obtain ⟨m, hm⟩ := (h.phases.receiving .server).mp hreceiving
  have hpending : m ∈ (box .server).phase.pending := by
    rw [hm]
    exact mem_singleton_self m
  have hlast := (box .server).getElem?_sent hpending
  have hauthor : author ids s = some m.sender := by
    rw [author, h.logs.sent, h.logs.received, length_map, hlast, map_some]
  obtain ⟨c, hsender, -, hclient⟩ := h.logs.requests m (mem_of_getElem? hlast)
  refine ⟨{ h.phases with }, { h.contents with }, { h.logs with }, { h.server with copies := ?_ }⟩
  intro x hx
  rcases mem_append.mp hx with hold | hnew
  · exact h.server.copies x hold
  · refine ⟨c, ?_⟩
    rw [mem_singleton.mp hnew, h.contents.pending .server m hpending, hclient, hauthor, hsender]
    rfl

lemma Refines.sendTo {n : ℕ} (h : Refines ids s box) (hs' : sendTo s n = some s') :
    Refines ids s' box := by
  unfold SmiShm.sendTo at hs'
  split_ifs at hs' with hs
  obtain ⟨x, hx, rfl⟩ := map_eq_some_iff.mp hs'
  obtain ⟨c, rfl⟩ := h.server.copies x (mem_of_getElem? hx)
  refine ⟨{ h.phases with holds := ?_ }, { h.contents with }, { h.logs with },
    { h.server with current := fun _ => ⟨c, rfl, rfl⟩, address := nofun }⟩
  rintro (_ | c') r
  · -- It has not waited yet, neither before nor after the step.
    have hidle : ¬ s.Holds ids .server r := by
      rintro ⟨hholding, -⟩
      rw [hs.2] at hholding
      cases hholding
    refine Iff.trans ?_ (h.phases.holds .server r)
    exact iff_of_false (fun hholds => nomatch hholds.1) hidle
  · exact h.phases.holds (.client c') r

lemma Refines.serverAddress (h : Refines ids s box) (haddress : s.serverSend = .address)
    (hs' : (s.mapped.getaddr s.sqClient.cId1 addr).map
      (fun x => { s with mapped := x.1, serverSend := .inUse x.2 }) = some s') :
    Refines ids s' box := by
  obtain ⟨c, hc, hnamed⟩ := h.server.current (by rw [haddress]; nofun)
  obtain ⟨⟨t, a⟩, hget, rfl⟩ := map_eq_some_iff.mp hs'
  have hne : s.sqClient.cId1 ≠ -1 := by
    rw [hc]
    exact ids.shm_ne (.client c)
  obtain ⟨hsound, hattached⟩ := h.server.mapped.getaddr hne hget
  refine ⟨{ h.phases with holds := ?_ }, { h.contents with }, { h.logs with }, { h.server with
      current := fun _ => ⟨c, hc, hnamed⟩
      address := ?_
      mapped := hsound }⟩
  · rintro (_ | c') r
    · refine Iff.trans ?_ (h.phases.holds .server r)
      have hholding : s.serverSend.holding = true := by
        rw [haddress]
        rfl
      exact ⟨fun hholds => ⟨hholding, hholds.2⟩, fun hholds => ⟨rfl, hholds.2⟩⟩
    · exact h.phases.holds (.client c') r
  · rintro _ ⟨⟩
    exact hattached

variable [DecidableEq C]

lemma Logs.returns (h : Logs ids s box) {m : Sent C} (hm : (box p).phase = .reading m) :
    Logs ids (s.logReceived p m.msg) (Function.update box p ((box p).returns hm)) := by
  refine h.update rfl rfl ?_ fun r hr => update_of_ne hr ..
  rw [Mailbox.returns_received, map_append, ← h.received p]
  exact update_self ..

lemma Logs.sends (h : Logs ids s box) {r : Party C} (hr : (box r).phase = .writing p) {x : Sent C}
    (hrequest : r = .server → ∃ c, x.sender = .client c ∧ x.named = none ∧
      x.msg.smiClient = ids.client c)
    (hreply : ∀ c, r = .client c → x.named = some (.client c)) :
    Logs ids (s.logSent (ids.sem r) x) (Function.update box r ((box r).sends hr x)) := by
  constructor
  · apply (forall_update_iff box
      fun r' b => Function.update s.sent (ids.sem r) (s.sent (ids.sem r) ++ [x]) (ids.sem r') =
        b.sent).mpr
    constructor
    · rw [update_self, Mailbox.sends_sent, h.sent r]
    · intro r' hr'
      rw [update_of_ne fun heq => hr' (ids.sem_injective heq)]
      exact h.sent r'
  · intro i hi
    exact (update_of_ne (hi r) ..).trans (h.sent_nil i hi)
  · apply (forall_update_iff box fun r' b => s.received r' = b.received.map Sent.msg).mpr
    exact ⟨h.received r, fun r' _ => h.received r'⟩
  · intro y hy
    by_cases hserver : r = .server
    · subst hserver
      rw [update_self, Mailbox.sends_sent] at hy
      rcases mem_append.mp hy with hold | hnew
      · exact h.requests y hold
      · rw [mem_singleton.mp hnew]
        exact hrequest rfl
    · rw [update_of_ne (Ne.symm hserver)] at hy
      exact h.requests y hy
  · intro c y hy
    by_cases hclient : r = .client c
    · subst hclient
      rw [update_self, Mailbox.sends_sent] at hy
      rcases mem_append.mp hy with hold | hnew
      · exact h.replies c y hold
      · rw [mem_singleton.mp hnew]
        exact hreply c rfl
    · rw [update_of_ne (Ne.symm hclient)] at hy
      exact h.replies c y hy

lemma setClientSend_self {pc : ClientSend} (h : s.clientSend c = pc) :
    s.setClientSend c pc = s := by
  rw [State.setClientSend, update_eq_self_iff.mpr h.symm]

section

variable (h : Refines ids s box)
include h

lemma Refines.setval (hp : s.opening p ≠ .opened) {semNum : ℕ} {pc : OpenPc} (hpc : pc ≠ .opened) :
    Refines ids ((s.setval (ids.sem p) semNum 0).setOpening p pc) box := by
  have hclosed := h.phases.closed_of_ne hp
  have hsem := h.phases.sems p
  rw [hclosed] at hsem
  have hphases : Phases ids ((s.setval (ids.sem p) semNum 0).setOpening p pc)
      (update box p (box p)) := by
    apply h.phases.update rfl
    · rw [hclosed]
      exact hsem.setval
    · exact fun r' hr' => update_of_ne hr' ..
    · refine iff_of_false ?_ (not_not.mpr hclosed)
      change ¬ update s.opening p pc p = .opened
      rw [update_self]
      exact hpc
    · exact fun _ _ => rfl
    · exact h.phases.receiving p
    · exact fun _ _ _ => Iff.rfl
    · exact fun q => h.phases.holds q p
  rw [update_eq_self] at hphases
  exact ⟨hphases, { h.contents with }, { h.logs with }, { h.server with }⟩

lemma Refines.opens (hp : s.opening p ≠ .opened)
    (hs' : (s.opSemi p (ids.sem p) SEMI_WRITE SEMI_POST).map (State.setOpening p .opened) =
      some s') : ∃ box', Refines ids s' box' := by
  have hclosed := h.phases.closed_of_ne hp
  have hsem := h.phases.sems p
  rw [hclosed] at hsem
  obtain ⟨s₁, hs₁, rfl⟩ := map_eq_some_iff.mp hs'
  obtain ⟨set, rfl, hset⟩ := hsem.post_write rfl rfl hs₁
  have hcontents := h.contents.update (r := p) (b := (box p).opens hclosed)
    fun m hm => absurd hm not_mem_nil
  have hlogs := h.logs.keep (r := p) (b := (box p).opens hclosed) rfl rfl
  refine ⟨update box p ((box p).opens hclosed), ?_, { hcontents with }, { hlogs with },
    { h.server with }⟩
  apply h.phases.update rfl hset
  · exact fun r' hr' => update_of_ne hr' ..
  · exact iff_of_true (update_self ..) nofun
  · exact fun _ _ => rfl
  · exact iff_of_false (h.phases.not_receiving (by rw [hclosed]; nofun)) nofun
  · exact fun _ _ _ => Iff.rfl
  · exact fun q => iff_of_false (h.phases.not_holds (by rw [hclosed]; nofun) q) nofun

lemma Refines.init (hs' : init ids s p = some s') : ∃ box', Refines ids s' box' := by
  unfold SmiShm.init at hs'
  split at hs'
  · next hp =>
    obtain rfl := some.inj hs'
    exact ⟨box, h.setval (by rw [hp]; nofun) nofun⟩
  · next hp =>
    obtain rfl := some.inj hs'
    exact ⟨box, h.setval (by rw [hp]; nofun) nofun⟩
  · next hp => exact h.opens (by rw [hp]; nofun) hs'
  · cases hs'

lemma Refines.receiveGetaddr (hs' : smiReceiveGetaddr ids s p = some s') :
    ∃ box', Refines ids s' box' := by
  unfold smiReceiveGetaddr at hs'
  split_ifs at hs' with hp
  obtain ⟨s₁, hs₁, rfl⟩ := map_eq_some_iff.mp hs'
  obtain ⟨set, m, rfl, hfull, hset⟩ := (h.phases.sems p).wait_read hs₁
  have hpending := h.contents.pending p
  rw [hfull] at hpending
  have hcontents := h.contents.update (r := p) (b := (box p).takes hfull) hpending
  have hlogs := h.logs.keep (r := p) (b := (box p).takes hfull) rfl rfl
  refine ⟨update box p ((box p).takes hfull), ?_, { hcontents with }, { hlogs with },
    { h.server with }⟩
  apply h.phases.update rfl hset
  · exact fun _ _ => rfl
  · exact iff_of_true hp.1 nofun
  · exact fun r' hr' => update_of_ne hr' ..
  · exact iff_of_true (update_self ..) ⟨m, rfl⟩
  · exact fun _ _ _ => Iff.rfl
  · exact fun q => iff_of_false (h.phases.not_holds (by rw [hfull]; nofun) q) nofun

lemma Refines.receiveRelease (hs' : smiReceiveRelease ids s p = some s') :
    ∃ box', Refines ids s' box' := by
  unfold smiReceiveRelease at hs'
  split_ifs at hs' with hp
  obtain ⟨m, hm⟩ := (h.phases.receiving p).mp hp
  have hsem := h.phases.sems p
  rw [hm] at hsem
  obtain ⟨s₁, hs₁, rfl⟩ := map_eq_some_iff.mp hs'
  obtain ⟨set, rfl, hset⟩ := hsem.post_write rfl rfl hs₁
  have hmsg : s.seg (ids.shm p) = m.msg := by
    apply h.contents.pending p
    rw [hm]
    exact mem_singleton_self m
  have hcontents := h.contents.update (r := p) (b := (box p).returns hm)
    fun m hm => absurd hm not_mem_nil
  have hlogs := h.logs.returns hm
  rw [← hmsg] at hlogs
  refine ⟨update box p ((box p).returns hm), ?_, { hcontents with }, { hlogs with },
    { h.server with }⟩
  apply h.phases.update rfl hset
  · exact fun _ _ => rfl
  · exact iff_of_true ((h.phases.opened p).mpr (by rw [hm]; nofun)) nofun
  · exact fun r' hr' => update_of_ne hr' ..
  · refine iff_of_false ?_ nofun
    change ¬ update s.receiving p false p = true
    rw [update_self]
    nofun
  · exact fun _ _ _ => Iff.rfl
  · exact fun q => iff_of_false (h.phases.not_holds (by rw [hm]; nofun) q) nofun

lemma Refines.serverWait (hwaiting : s.serverSend = .waiting)
    (hs' : (s.opSemi .server s.sqClient.cId2 SEMI_WRITE SEMI_WAIT).map
      (State.setServerSend .address) = some s') : ∃ box', Refines ids s' box' := by
  obtain ⟨c, hc, hnamed⟩ := h.server.current (by rw [hwaiting]; nofun)
  obtain ⟨s₁, hs₁, rfl⟩ := map_eq_some_iff.mp hs'
  rw [hc] at hs₁
  obtain ⟨set, rfl, hempty, hset⟩ := (h.phases.sems (.client c)).wait_write hs₁ .server
  have hcontents := h.contents.update (r := .client c)
    (b := (box (.client c)).begins hempty .server) fun m hm => absurd hm not_mem_nil
  have hlogs := h.logs.keep (r := .client c)
    (b := (box (.client c)).begins hempty .server) rfl rfl
  refine ⟨update box (.client c) ((box (.client c)).begins hempty .server), ?_,
    { hcontents with }, { hlogs with },
    { h.server with current := fun _ => ⟨c, hc, hnamed⟩, address := nofun }⟩
  have hopened : s.opening (.client c) = .opened := by
    apply (h.phases.opened (.client c)).mpr
    rw [hempty]
    nofun
  apply h.phases.update rfl hset
  · exact fun _ _ => rfl
  · exact iff_of_true hopened nofun
  · exact fun _ _ => rfl
  · exact iff_of_false (h.phases.not_receiving (by rw [hempty]; nofun)) nofun
  · rintro (_ | c') r hr
    · refine iff_of_false ?_ ?_
      · rintro ⟨-, c', rfl, hc'⟩
        exact hr (congrArg Party.client (ids.client_injective (hc'.symm.trans hc)))
      · rintro ⟨hholding, -⟩
        rw [hwaiting] at hholding
        cases hholding
    · exact Iff.rfl
  · rintro (_ | c')
    · exact iff_of_true ⟨rfl, c, rfl, hc⟩ rfl
    · exact iff_of_false (fun hholds => nomatch hholds.1) nofun

lemma Refines.clientWait (hs' : (s.opSemi (.client c) (ids.sem .server) SEMI_WRITE SEMI_WAIT).map
    (State.setClientSend c .id1) = some s') : ∃ box', Refines ids s' box' := by
  obtain ⟨s₁, hs₁, rfl⟩ := map_eq_some_iff.mp hs'
  obtain ⟨set, rfl, hempty, hset⟩ := (h.phases.sems .server).wait_write hs₁ (.client c)
  have hidle := h.phases.idle_of_ne (by rw [hempty]; nofun)
  have hcontents := h.contents.update (r := .server) (b := (box .server).begins hempty (.client c))
    fun m hm => absurd hm not_mem_nil
  have hlogs := h.logs.keep (r := .server) (b := (box .server).begins hempty (.client c)) rfl rfl
  have hopened : s.opening .server = .opened := by
    apply (h.phases.opened .server).mpr
    rw [hempty]
    nofun
  -- No client has stored its identification.
  have hnone : ∀ c', update s.clientSend c .id1 c' ≠ .id2 ∧
      update s.clientSend c .id1 c' ≠ .inUse := by
    apply (forall_update_iff s.clientSend fun _ pc => pc ≠ .id2 ∧ pc ≠ .inUse).mpr
    refine ⟨⟨nofun, nofun⟩, fun c' _ => ?_⟩
    rw [hidle c']
    exact ⟨nofun, nofun⟩
  refine ⟨update box .server ((box .server).begins hempty (.client c)), ?_,
    { hcontents with cId1 := ?_, cId2 := ?_ }, { hlogs with }, { h.server with }⟩
  · apply h.phases.update rfl hset
    · exact fun _ _ => rfl
    · exact iff_of_true hopened nofun
    · exact fun _ _ => rfl
    · exact iff_of_false (h.phases.not_receiving (by rw [hempty]; nofun)) nofun
    · rintro (_ | c') r hr
      · exact Iff.rfl
      · exact iff_of_false (fun hholds => hr hholds.1) fun hholds => hr hholds.1
    · rintro (_ | c')
      · exact iff_of_false (h.phases.not_holds (by rw [hempty]; nofun) .server) nofun
      · by_cases hc' : c' = c
        · subst hc'
          refine iff_of_true ⟨rfl, ?_⟩ rfl
          change update s.clientSend c' .id1 c' ≠ .idle
          rw [update_self]
          nofun
        · refine iff_of_false (fun hholds => hholds.2 ?_) fun heq => ?_
          · exact (update_of_ne hc' ..).trans (hidle c')
          · exact hc' (Party.client.inj (Phase.writing.inj heq)).symm
  · rintro c' (hid2 | hinUse)
    · exact absurd hid2 (hnone c').1
    · exact absurd hinUse (hnone c').2
  · exact fun c' hinUse => absurd hinUse (hnone c').2

lemma Refines.clientStore {pc : ClientSend} {f : Msg → Msg} (hc : s.clientSend c ≠ .idle)
    (hpc : pc ≠ .idle)
    (hcId1 : pc = .id2 ∨ pc = .inUse → (f (s.seg (ids.shm .server))).smiClient.cId1 = ids.shm
      (.client c))
    (hcId2 : pc = .inUse → (f (s.seg (ids.shm .server))).smiClient.cId2 = ids.sem (.client c)) :
    Refines ids ((s.store (ids.shm .server) f).setClientSend c pc) box := by
  have hidle : ∀ c', c' ≠ c → s.clientSend c' = .idle := by
    intro c' hne
    by_contra hc'
    exact hne (h.phases.client_unique hc' hc)
  have hseg : ((s.store (ids.shm .server) f).setClientSend c pc).seg (ids.shm .server) =
      f (s.seg (ids.shm .server)) := update_self ..
  refine ⟨{ h.phases with holds := ?_ }, ⟨?_, ?_, ?_⟩, { h.logs with }, { h.server with }⟩
  · rintro (_ | c') r
    · exact h.phases.holds .server r
    · refine Iff.trans ?_ (h.phases.holds (.client c') r)
      change r = .server ∧ update s.clientSend c pc c' ≠ .idle ↔
        r = .server ∧ s.clientSend c' ≠ .idle
      by_cases hc' : c' = c
      · subst hc'
        rw [update_self]
        exact and_congr_right fun _ => iff_of_true hpc hc
      · rw [update_of_ne hc']
  · exact h.contents.store_pending (h.phases.phase_server hc) _
  · rw [hseg]
    apply (forall_update_iff s.clientSend fun c' pc => pc = .id2 ∨ pc = .inUse →
      (f (s.seg (ids.shm .server))).smiClient.cId1 = ids.shm (.client c')).mpr
    refine ⟨hcId1, fun c' hne hstored => ?_⟩
    rw [hidle c' hne] at hstored
    rcases hstored with hstored | hstored <;> cases hstored
  · rw [hseg]
    apply (forall_update_iff s.clientSend fun c' pc => pc = .inUse →
      (f (s.seg (ids.shm .server))).smiClient.cId2 = ids.sem (.client c')).mpr
    refine ⟨hcId2, fun c' hne hstored => ?_⟩
    rw [hidle c' hne] at hstored
    cases hstored

lemma Refines.sendGetaddr (hs' : smiSendGetaddr ids s p addr = some s') :
    ∃ box', Refines ids s' box' := by
  cases p with
  | server =>
    unfold smiSendGetaddr at hs'
    dsimp only at hs'
    cases hpc : s.serverSend with (rw [hpc] at hs'; dsimp only at hs')
    | idle => cases hs'
    | waiting => exact h.serverWait hpc hs'
    | address => exact ⟨box, h.serverAddress hpc hs'⟩
    | inUse a => cases hs'
  | client c =>
    unfold smiSendGetaddr at hs'
    dsimp only at hs'
    cases hpc : s.clientSend c with (rw [hpc] at hs'; dsimp only at hs')
    | idle =>
      split_ifs at hs' with hopened
      exact h.clientWait hs'
    | id1 =>
      obtain rfl := some.inj hs'
      exact ⟨box, h.clientStore (by rw [hpc]; nofun) nofun (fun _ => rfl) nofun⟩
    | id2 =>
      obtain rfl := some.inj hs'
      have hcId1 := h.contents.cId1 c (.inl hpc)
      exact ⟨box, h.clientStore (by rw [hpc]; nofun) nofun (fun _ => hcId1) fun _ => rfl⟩
    | inUse => cases hs'

lemma Refines.serverStore {i : ℤ} {f : Msg → Msg} (hs : s.serverSend = .inUse addr)
    (hi : s.mapped.attached addr = some i) :
    Refines ids (s.store i f) box := by
  obtain ⟨c, hc, -⟩ := h.server.current (by rw [hs]; nofun)
  have hshm : i = ids.shm (.client c) := by
    have haddress := h.server.address addr hs
    rw [hi, some.injEq, hc] at haddress
    exact haddress
  subst hshm
  have hphase := h.phases.phase_client (by rw [hs]; rfl) hc
  have hseg : (s.store (ids.shm (.client c)) f).seg (ids.shm .server) =
      s.seg (ids.shm .server) := by
    apply update_of_ne
    exact fun heq => nomatch ids.shm_injective heq
  refine ⟨{ h.phases with }, ⟨h.contents.store_pending hphase _, ?_, ?_⟩, { h.logs with },
    { h.server with }⟩
  · rw [hseg]
    exact h.contents.cId1
  · rw [hseg]
    exact h.contents.cId2

lemma Refines.write {data : List UInt8} (hs' : write ids s p data = some s') :
    Refines ids s' box := by
  cases p with
  | server =>
    unfold SmiShm.write at hs'
    dsimp only at hs'
    split at hs'
    · next addr hpc =>
      have haddress := h.server.address addr hpc
      rw [haddress] at hs'
      obtain rfl := some.inj hs'
      exact h.serverStore hpc haddress
    · cases hs'
  | client c =>
    unfold SmiShm.write at hs'
    dsimp only at hs'
    split_ifs at hs' with hpc
    obtain rfl := some.inj hs'
    have hstore : Refines ids ((s.store (ids.shm .server) fun m =>
        { m with smiData := data }).setClientSend c .inUse) box :=
      h.clientStore (by rw [hpc]; nofun) nofun (fun _ => h.contents.cId1 c (.inr hpc))
        fun _ => h.contents.cId2 c hpc
    rwa [setClientSend_self (s := s.store _ _) hpc] at hstore

lemma Refines.serverRelease (hs : s.serverSend = .inUse addr)
    (hs' : (s.opSemi .server s.sqClient.cId2 SEMI_READ SEMI_POST).map (fun t => (t.setServerSend
      .idle).logSent t.sqClient.cId2 ⟨.server, some t.named, t.seg s.sqClient.cId1⟩) = some s') :
    ∃ box', Refines ids s' box' := by
  obtain ⟨c, hc, hnamed⟩ := h.server.current (by rw [hs]; nofun)
  have hphase := h.phases.phase_client (by rw [hs]; rfl) hc
  have hsem := h.phases.sems (.client c)
  rw [hphase] at hsem
  obtain ⟨t, ht, rfl⟩ := map_eq_some_iff.mp hs'
  rw [hc] at ht
  obtain ⟨x, hx⟩ : ∃ x : Sent C, x = ⟨.server, some (.client c), s.seg (ids.shm (.client c))⟩ :=
    ⟨_, rfl⟩
  obtain ⟨set, rfl, hset⟩ := hsem.post_read ht x
  have hcontents := h.contents.update (r := .client c) (b := (box (.client c)).sends hphase x)
    fun m hm => by rw [mem_singleton.mp hm, hx]
  have hlogs := h.logs.sends hphase (x := x) nofun fun c' hc' => by rw [hx, hc']
  refine ⟨update box (.client c) ((box (.client c)).sends hphase x), ?_, { hcontents with }, ?_,
    { h.server with current := fun hne => absurd rfl hne, address := nofun }⟩
  · apply h.phases.update rfl hset
    · exact fun _ _ => rfl
    · exact iff_of_true ((h.phases.opened (.client c)).mpr (by rw [hphase]; nofun)) nofun
    · exact fun _ _ => rfl
    · exact iff_of_false (h.phases.not_receiving (by rw [hphase]; nofun)) nofun
    · rintro (_ | c') r hr
      · refine iff_of_false (fun hholds => nomatch hholds.1) ?_
        rintro ⟨-, c', rfl, hc'⟩
        exact hr (congrArg Party.client (ids.client_injective (hc'.symm.trans hc)))
      · exact Iff.rfl
    · rintro (_ | c')
      · exact iff_of_false (fun hholds => nomatch hholds.1) nofun
      · exact iff_of_false (fun hholds => nomatch hholds.1) nofun
  · have hlog : x = ⟨.server, some s.named, s.seg s.sqClient.cId1⟩ := by
      rw [hx, hnamed, hc]
      rfl
    change Logs ids (((s.putSem _ set).setServerSend .idle).logSent s.sqClient.cId2
      ⟨.server, some s.named, s.seg s.sqClient.cId1⟩) _
    rw [← hlog, hc]
    exact { hlogs with }

lemma Refines.clientRelease (hs : s.clientSend c = .inUse)
    (hs' : (s.opSemi (.client c) (ids.sem .server) SEMI_READ SEMI_POST).map (fun t =>
      (t.setClientSend c .idle).logSent (ids.sem .server) ⟨.client c, none, t.seg (ids.shm
      .server)⟩) = some s') : ∃ box', Refines ids s' box' := by
  have hne : s.clientSend c ≠ .idle := by
    rw [hs]
    nofun
  have hphase := h.phases.phase_server hne
  have hsem := h.phases.sems .server
  rw [hphase] at hsem
  obtain ⟨t, ht, rfl⟩ := map_eq_some_iff.mp hs'
  obtain ⟨x, hx⟩ : ∃ x : Sent C, x = ⟨.client c, none, s.seg (ids.shm .server)⟩ := ⟨_, rfl⟩
  obtain ⟨set, rfl, hset⟩ := hsem.post_read ht x
  have hclient : x.msg.smiClient = ids.client c := by
    rw [hx]
    exact ClientId.ext (h.contents.cId1 c (.inr hs)) (h.contents.cId2 c hs)
  -- Afterwards no client is sending.
  have hidle : ∀ c', update s.clientSend c .idle c' = .idle := by
    apply (forall_update_iff s.clientSend fun _ pc => pc = .idle).mpr
    refine ⟨rfl, fun c' hc' => ?_⟩
    by_contra hsending
    exact hc' (h.phases.client_unique hsending hne)
  have hcontents := h.contents.update (r := .server) (b := (box .server).sends hphase x)
    fun m hm => by rw [mem_singleton.mp hm, hx]
  have hlogs := h.logs.sends hphase (x := x) (fun _ => ⟨c, by rw [hx], by rw [hx], hclient⟩) nofun
  refine ⟨update box .server ((box .server).sends hphase x), ?_,
    { hcontents with cId1 := ?_, cId2 := ?_ }, ?_, { h.server with }⟩
  · apply h.phases.update rfl hset
    · exact fun _ _ => rfl
    · exact iff_of_true ((h.phases.opened .server).mpr (by rw [hphase]; nofun)) nofun
    · exact fun _ _ => rfl
    · exact iff_of_false (h.phases.not_receiving (by rw [hphase]; nofun)) nofun
    · rintro (_ | c') r hr
      · exact Iff.rfl
      · exact iff_of_false (fun hholds => hr hholds.1) fun hholds => hr hholds.1
    · rintro (_ | c')
      · refine iff_of_false ?_ nofun
        rintro ⟨-, c', hserver, -⟩
        cases hserver
      · exact iff_of_false (fun hholds => hholds.2 (hidle c')) nofun
  · rintro c' (hstored | hstored)
    · cases (hidle c').symm.trans hstored
    · cases (hidle c').symm.trans hstored
  · intro c' hstored
    cases (hidle c').symm.trans hstored
  · change Logs ids (((s.putSem _ set).setClientSend c .idle).logSent (ids.sem .server)
      ⟨.client c, none, s.seg (ids.shm .server)⟩) _
    rw [← hx]
    exact { hlogs with }

lemma Refines.sendRelease (hs' : smiSendRelease ids s p = some s') :
    ∃ box', Refines ids s' box' := by
  cases p with
  | server =>
    unfold smiSendRelease at hs'
    dsimp only at hs'
    split at hs'
    · next addr hpc =>
      rw [h.server.address addr hpc] at hs'
      exact h.serverRelease hpc hs'
    · cases hs'
  | client c =>
    unfold smiSendRelease at hs'
    dsimp only at hs'
    split_ifs at hs' with hpc
    exact h.clientRelease hpc hs'

lemma Refines.step {l : Action C} (hs' : step ids s l = some s') : ∃ box', Refines ids s' box' := by
  cases l with
  | init p => exact h.init hs'
  | receiveGetaddr p => exact h.receiveGetaddr hs'
  | copyClient => exact ⟨box, h.copyClient hs'⟩
  | receiveRelease p => exact h.receiveRelease hs'
  | sendTo n => exact ⟨box, h.sendTo hs'⟩
  | sendGetaddr p addr => exact h.sendGetaddr hs'
  | write p data => exact ⟨box, h.write hs'⟩
  | sendRelease p => exact h.sendRelease hs'

end

lemma exists_refines {ls : List (Action C)} (hrun : RunFrom (SmiShm.step ids) (start C) ls s) :
    ∃ box, Refines ids s box := by
  apply hrun.invariant ⟨_, refines_start ids⟩
  rintro s l s' ⟨box, h⟩ hs' -
  exact h.step hs'

end Steps

/-! ## What the mailboxes say about the segments -/

section Results

variable {ids : Ids C} {s : State C} {box : Boxes C} {r : Party C}

inductive Side where
  | sending
  | receiving
  deriving DecidableEq

/-- The process is between get-address and release on the segment of `r`. -/
def State.Uses (ids : Ids C) (s : State C) (r : Party C) : Party C × Side → Prop
  | (p, .receiving) => p = r ∧ s.receiving p = true
  | (.client c, .sending) => r = .server ∧ s.clientSend c ≠ .idle
  | (.server, .sending) =>
    match s.serverSend with
    | .idle | .waiting => False
    | .address => s.sqClient.cId1 = ids.shm r
    | .inUse addr => s.mapped.attached addr = some (ids.shm r)

lemma Refines.holds_server (h : Refines ids s box) (huses : s.Uses ids r (.server, .sending)) :
    s.Holds ids .server r := by
  have hcase : s.serverSend.holding = true ∧ s.sqClient.cId1 = ids.shm r := by
    unfold State.Uses at huses
    dsimp only at huses
    cases hpc : s.serverSend with (rw [hpc] at huses; dsimp only at huses)
    | address => exact ⟨rfl, huses⟩
    | inUse addr =>
      rw [h.server.address addr hpc] at huses
      exact ⟨rfl, some.inj huses⟩
  obtain ⟨hholding, hshm⟩ := hcase
  obtain ⟨c, hc, -⟩ := h.server.current (fun hidle => by rw [hidle] at hholding; cases hholding)
  rw [hc] at hshm
  exact ⟨hholding, c, (ids.shm_injective hshm).symm, hc⟩

lemma Refines.phase_of_uses (h : Refines ids s box) {t : Party C × Side} (huses : s.Uses ids r t) :
    (t.2 = .sending ∧ (box r).phase = .writing t.1) ∨
      (t = (r, .receiving) ∧ ∃ m, (box r).phase = .reading m) := by
  match t with
  | (p, .receiving) =>
    obtain ⟨rfl, hreceiving⟩ := huses
    exact .inr ⟨rfl, (h.phases.receiving p).mp hreceiving⟩
  | (.client c, .sending) =>
    exact .inl ⟨rfl, (h.phases.holds (.client c) r).mp huses⟩
  | (.server, .sending) =>
    exact .inl ⟨rfl, (h.phases.holds .server r).mp (h.holds_server huses)⟩

lemma Refines.uses_unique (h : Refines ids s box) {t t' : Party C × Side}
    (ht : s.Uses ids r t) (ht' : s.Uses ids r t') : t = t' := by
  rcases h.phase_of_uses ht with ⟨hside, hphase⟩ | ⟨rfl, m, hphase⟩ <;>
    rcases h.phase_of_uses ht' with ⟨hside', hphase'⟩ | ⟨rfl, m', hphase'⟩
  · rw [hphase'] at hphase
    exact Prod.ext (Phase.writing.inj hphase).symm (hside.trans hside'.symm)
  · rw [hphase'] at hphase
    cases hphase
  · rw [hphase'] at hphase
    cases hphase
  · rfl

lemma Refines.receivable [DecidableEq C] (h : Refines ids s box) {m : Sent C}
    (hm : m ∈ (box r).phase.pending) :
    s.receiving r = true ∨ (SmiShm.step ids s (.receiveGetaddr r)).isSome = true := by
  have hphase : (∃ m', (box r).phase = .reading m') ∨ (box r).phase = .full m := by
    cases hbox : (box r).phase with rw [hbox] at hm
    | full m' =>
      rw [mem_singleton.mp hm]
      exact .inr rfl
    | reading m' => exact .inl ⟨m', rfl⟩
    | closed | empty | writing q => cases hm
  rcases hphase with hreading | hfull
  · exact .inl ((h.phases.receiving r).mpr hreading)
  · have hopened : s.opening r = .opened := (h.phases.opened r).mpr (by rw [hfull]; nofun)
    have hreceiving : s.receiving r = false := by
      rw [← Bool.not_eq_true, h.phases.receiving, hfull]
      nofun
    have hsem := h.phases.sems r
    rw [hfull] at hsem
    refine .inr ?_
    change (smiReceiveGetaddr ids s r).isSome = true
    unfold smiReceiveGetaddr
    rw [if_pos ⟨hopened, hreceiving⟩, isSome_map]
    exact hsem.wait_read_isSome

/-- In every state reached at most one process is between get-address and release on a segment.
What a process has received is what was released to it, in order, up to one message, which is in the
segment as it was left there until its receiver releases it; the receiver has it or can take it.  A
reply is released to the client whose request named it, and every request names the client that sent
it.  The server never writes to an address at which nothing is attached. -/
theorem smi_shm_correct [DecidableEq C] {ls : List (Action C)}
    (hrun : RunFrom (step ids) (start C) ls s) :
    (∀ r t t', s.Uses ids r t → s.Uses ids r t' → t = t') ∧
    (∀ r, ∃ pending : List Msg, pending.length ≤ 1 ∧
      (s.sent (ids.sem r)).map Sent.msg = s.received r ++ pending ∧
      (∀ m ∈ pending, s.seg (ids.shm r) = m ∧
        (s.receiving r = true ∨ (step ids s (.receiveGetaddr r)).isSome = true)) ∧
      (s.receiving r = true → pending = [s.seg (ids.shm r)])) ∧
    (∀ i, ∀ x ∈ s.sent i, ∀ c, x.named = some (.client c) ↔ i = ids.sem (.client c)) ∧
    (∀ x ∈ s.sent (ids.sem .server), ∃ c, x.sender = .client c ∧ x.msg.smiClient = ids.client c) ∧
    s.fault = false := by
  obtain ⟨box, h⟩ := exists_refines hrun
  refine ⟨fun r t t' => h.uses_unique, fun r => ?_, ?_, ?_, h.server.fault⟩
  · refine ⟨(box r).phase.pending.map Sent.msg, ?_, ?_, ?_, ?_⟩
    · rw [length_map]
      exact (box r).phase.length_pending_le
    · rw [h.logs.sent, h.logs.received, ← map_append, (box r).consistent]
    · intro m hm
      obtain ⟨x, hx, rfl⟩ := List.mem_map.mp hm
      exact ⟨h.contents.pending r x hx, h.receivable hx⟩
    · intro hreceiving
      obtain ⟨m, hm⟩ := (h.phases.receiving r).mp hreceiving
      have hpending : m ∈ (box r).phase.pending := by
        rw [hm]
        exact mem_singleton_self m
      rw [h.contents.pending r m hpending, hm]
      rfl
  · intro i x hx c
    by_cases hi : ∃ r, i = ids.sem r
    · obtain ⟨r, rfl⟩ := hi
      rw [h.logs.sent] at hx
      cases r with
      | server =>
        obtain ⟨c', -, hnone, -⟩ := h.logs.requests x hx
        rw [hnone]
        exact iff_of_false nofun fun heq => nomatch ids.sem_injective heq
      | client c' =>
        rw [h.logs.replies c' x hx, some.injEq]
        exact ids.sem_injective.eq_iff.symm
    · rw [h.logs.sent_nil i fun r hr => hi ⟨r, hr⟩] at hx
      cases hx
  · intro x hx
    rw [h.logs.sent] at hx
    obtain ⟨c, hsender, -, hclient⟩ := h.logs.requests x hx
    exact ⟨c, hsender, hclient⟩

end Results

def oneClient : Ids Unit where
  shm p := if p = .server then 0 else 1
  sem p := if p = .server then 0 else 1
  shm_injective := by
    rintro (_ | _) (_ | _) h
    all_goals first | rfl | cases h
  sem_injective := by
    rintro (_ | _) (_ | _) h
    all_goals first | rfl | cases h
  shm_ne p := by
    split
    · decide
    · decide

def requestReply : List (Action Unit) :=
  List.replicate 3 (.init .server) ++ List.replicate 3 (.init (.client ())) ++
    List.replicate 3 (.sendGetaddr (.client ()) 0) ++
    [.write (.client ()) [6], .sendRelease (.client ()), .receiveGetaddr .server, .copyClient,
      .sendTo 0, .sendGetaddr .server 0, .sendGetaddr .server 5, .write .server [7],
      .sendRelease .server, .receiveRelease .server, .receiveGetaddr (.client ())]

/-- In the end the client is receiving the reply, and the message is still in the segment. -/
theorem smi_shm_correct_requestReply : ∃ s : State Unit,
    RunFrom (step oneClient) (start Unit) requestReply s ∧
      (s.sent 1).map Sent.msg = [s.seg 1] ∧ s.fault = false := by
  obtain ⟨s, hrun, hreceiving, hreceived⟩ :=
    exists_runFrom (step oneClient) (start Unit) requestReply
      (fun s => s.receiving (.client ()) = true ∧ s.received (.client ()) = []) (by decide)
  obtain ⟨-, hpending, -, -, hfault⟩ := smi_shm_correct hrun
  obtain ⟨pending, -, hsent, -, hlast⟩ := hpending (.client ())
  rw [hreceived, hlast hreceiving] at hsent
  exact ⟨s, hrun, hsent, hfault⟩

end UnixPrograms.SmiShm
