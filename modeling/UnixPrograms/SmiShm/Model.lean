import UnixPrograms.Lib.Runs
import UnixPrograms.Lib.SysVSem
import UnixPrograms.SmiShm.Getaddr

/-!
# Messages in shared memory: smi_shm.c

The server and each client have a segment with room for one message and two semaphores: `SEMI_WRITE`
says that a message may be left in it, `SEMI_READ` that there is one.  A request has the identifiers
of the client, which the server copies and may use in any order and any number of times.

A step is one operation on a semaphore or one access to shared memory.  All identifiers are
different (`Ids`), no queue is closed, and `semop` and `shmat` succeed.
-/

namespace UnixPrograms.SmiShm

open Function

def SEMI_READ : ℕ := 0
def SEMI_WRITE : ℕ := 1
def SEMI_POST : ℤ := 1
def SEMI_WAIT : ℤ := -1

inductive Party (C : Type) where
  | server
  | client (c : C)
  deriving DecidableEq

@[ext]
structure ClientId where
  cId1 : ℤ
  cId2 : ℤ
  deriving DecidableEq

/-- `struct smi_msg`; the data are all bytes but the client identification. -/
structure Msg where
  smiClient : ClientId
  smiData : List UInt8
  deriving DecidableEq

structure Ids (C : Type) where
  shm : Party C → ℤ
  sem : Party C → ℤ
  shm_injective : Function.Injective shm
  sem_injective : Function.Injective sem
  shm_ne : ∀ p, shm p ≠ -1

def Ids.client {C : Type} (ids : Ids C) (c : C) : ClientId :=
  ⟨ids.shm (.client c), ids.sem (.client c)⟩

inductive OpenPc where
  | setWrite
  | setRead
  | post
  | opened
  deriving DecidableEq

/-- Where a client is between `smi_send_getaddr` and `smi_send_release`. -/
inductive ClientSend where
  | idle
  | id1
  | id2
  | inUse
  deriving DecidableEq

/-- Where the server is between `smi_send_getaddr` and `smi_send_release`. -/
inductive ServerSend where
  | idle
  /-- In front of the operation on the semaphore of the client. -/
  | waiting
  /-- In front of `getaddr`. -/
  | address
  | inUse (addr : ℕ)
  deriving DecidableEq

/-- A message that has been released: who sent it, whose request named its receiver if it is a
reply, and what was left in the segment. -/
structure Sent (C : Type) where
  sender : Party C
  named : Option (Party C)
  msg : Msg

/-- The semaphores and segments by their identifiers, the processes, and what has been sent and
received. -/
structure State (C : Type) where
  sem : ℤ → SemSet (Party C)
  seg : ℤ → Msg
  opening : Party C → OpenPc
  /-- Between `smi_receive_getaddr` and `smi_receive_release`. -/
  receiving : Party C → Bool
  clientSend : C → ClientSend
  serverSend : ServerSend
  sqClient : ClientId
  /-- The client whose request had the identification in `sq_client`. -/
  named : Party C
  /-- The identifications that the server has copied, each with the client whose request it was. -/
  copies : List (ClientId × Party C)
  mapped : Mapped
  /-- What has been released, by the semaphore set. -/
  sent : ℤ → List (Sent C)
  received : Party C → List Msg
  /-- The server has used an address at which nothing is attached. -/
  fault : Bool

/-- The segments and the semaphores have been created. -/
def start (C : Type) : State C where
  sem _ := SemSet.new 2
  seg _ := ⟨⟨0, 0⟩, []⟩
  opening _ := .setWrite
  receiving _ := false
  clientSend _ := .idle
  serverSend := .idle
  sqClient := ⟨0, 0⟩
  named := .server
  copies := []
  mapped := .start
  sent _ := []
  received _ := []
  fault := false

inductive Action (C : Type) where
  | init (p : Party C)
  | receiveGetaddr (p : Party C)
  /-- The server copies the client identification from the request. -/
  | copyClient
  | receiveRelease (p : Party C)
  /-- The server calls `smi_send_getaddr` with the `n`-th identification that it has copied. -/
  | sendTo (n : ℕ)
  /-- The next step of `smi_send_getaddr`; the address is the one that `shmat` returns. -/
  | sendGetaddr (p : Party C) (addr : ℕ)
  | write (p : Party C) (data : List UInt8)
  | sendRelease (p : Party C)

section Step

variable {C : Type} [DecidableEq C]

/-- `op_semi`; `none` while it blocks. -/
def State.opSemi (s : State C) (p : Party C) (semid : ℤ) (semNum : ℕ) (semOp : ℤ) :
    Option (State C) :=
  match (s.sem semid).semop p [⟨semNum, semOp, false⟩] with
  | .done set => some { s with sem := update s.sem semid set }
  | _ => none

def State.setval (s : State C) (semid : ℤ) (semNum val : ℕ) : State C :=
  { s with sem := update s.sem semid ((s.sem semid).setval semNum val) }

def State.setOpening (p : Party C) (pc : OpenPc) (s : State C) : State C :=
  { s with opening := update s.opening p pc }

def State.setReceiving (p : Party C) (b : Bool) (s : State C) : State C :=
  { s with receiving := update s.receiving p b }

def State.setClientSend (c : C) (pc : ClientSend) (s : State C) : State C :=
  { s with clientSend := update s.clientSend c pc }

def State.setServerSend (pc : ServerSend) (s : State C) : State C :=
  { s with serverSend := pc }

def State.store (shmid : ℤ) (f : Msg → Msg) (s : State C) : State C :=
  { s with seg := update s.seg shmid (f (s.seg shmid)) }

/-- The message in the segment is released by means of the semaphore set. -/
def State.logSent (semid : ℤ) (x : Sent C) (s : State C) : State C :=
  { s with sent := update s.sent semid (s.sent semid ++ [x]) }

def State.logReceived (p : Party C) (m : Msg) (s : State C) : State C :=
  { s with received := update s.received p (s.received p ++ [m]) }

def init (ids : Ids C) (s : State C) (p : Party C) : Option (State C) :=
  match s.opening p with
  | .setWrite => some ((s.setval (ids.sem p) SEMI_WRITE 0).setOpening p .setRead)
  | .setRead => some ((s.setval (ids.sem p) SEMI_READ 0).setOpening p .post)
  | .post => (s.opSemi p (ids.sem p) SEMI_WRITE SEMI_POST).map (State.setOpening p .opened)
  | .opened => none

def smiReceiveGetaddr (ids : Ids C) (s : State C) (p : Party C) : Option (State C) :=
  if s.opening p = .opened ∧ s.receiving p = false then
    (s.opSemi p (ids.sem p) SEMI_READ SEMI_WAIT).map (State.setReceiving p true)
  else none

/-- The request that the server is receiving is the first one that it has not received yet. -/
def author (ids : Ids C) (s : State C) : Option (Party C) :=
  (s.sent (ids.sem .server))[(s.received .server).length]?.map Sent.sender

def copyClient (ids : Ids C) (s : State C) : Option (State C) :=
  if s.receiving .server then
    some { s with
      copies := s.copies ++
        [((s.seg (ids.shm .server)).smiClient, (author ids s).getD .server)] }
  else none

def smiReceiveRelease (ids : Ids C) (s : State C) (p : Party C) : Option (State C) :=
  if s.receiving p then
    (s.opSemi p (ids.sem p) SEMI_WRITE SEMI_POST).map fun s =>
      (s.setReceiving p false).logReceived p (s.seg (ids.shm p))
  else none

/-- `smi_send_getaddr_shm` of the server, up to the operation on the semaphore. -/
def sendTo (s : State C) (n : ℕ) : Option (State C) :=
  if s.opening .server = .opened ∧ s.serverSend = .idle then
    s.copies[n]?.map fun x => { s with serverSend := .waiting, sqClient := x.1, named := x.2 }
  else none

def smiSendGetaddr (ids : Ids C) (s : State C) (p : Party C) (addr : ℕ) : Option (State C) :=
  match p with
  | .server =>
    match s.serverSend with
    | .idle => none
    | .waiting =>
      (s.opSemi .server s.sqClient.cId2 SEMI_WRITE SEMI_WAIT).map (State.setServerSend .address)
    | .address =>
      (s.mapped.getaddr s.sqClient.cId1 addr).map fun x =>
        { s with mapped := x.1, serverSend := .inUse x.2 }
    | .inUse _ => none
  | .client c =>
    match s.clientSend c with
    | .idle =>
      if s.opening (.client c) = .opened then
        (s.opSemi (.client c) (ids.sem .server) SEMI_WRITE SEMI_WAIT).map
          (State.setClientSend c .id1)
      else none
    | .id1 =>
      some ((s.store (ids.shm .server) fun m =>
        { m with smiClient := ⟨ids.shm (.client c), m.smiClient.cId2⟩ }).setClientSend c .id2)
    | .id2 =>
      some ((s.store (ids.shm .server) fun m =>
        { m with smiClient := ⟨m.smiClient.cId1, ids.sem (.client c)⟩ }).setClientSend c .inUse)
    | .inUse => none

/-- A sender writes to the segment at the address that it has got. -/
def write (ids : Ids C) (s : State C) (p : Party C) (data : List UInt8) : Option (State C) :=
  match p with
  | .server =>
    match s.serverSend with
    | .inUse addr =>
      match s.mapped.attached addr with
      | some shmid => some (s.store shmid fun m => { m with smiData := data })
      | none => some { s with fault := true }
    | _ => none
  | .client c =>
    if s.clientSend c = .inUse then
      some (s.store (ids.shm .server) fun m => { m with smiData := data })
    else none

def smiSendRelease (ids : Ids C) (s : State C) (p : Party C) : Option (State C) :=
  match p with
  | .server =>
    match s.serverSend with
    | .inUse addr =>
      match s.mapped.attached addr with
      | some shmid =>
        (s.opSemi .server s.sqClient.cId2 SEMI_READ SEMI_POST).map fun s =>
          (s.setServerSend .idle).logSent s.sqClient.cId2 ⟨.server, some s.named, s.seg shmid⟩
      | none => some { s with fault := true }
    | _ => none
  | .client c =>
    if s.clientSend c = .inUse then
      (s.opSemi (.client c) (ids.sem .server) SEMI_READ SEMI_POST).map fun s =>
        (s.setClientSend c .idle).logSent (ids.sem .server)
          ⟨.client c, none, s.seg (ids.shm .server)⟩
    else none

def step (ids : Ids C) (s : State C) : Action C → Option (State C)
  | .init p => init ids s p
  | .receiveGetaddr p => smiReceiveGetaddr ids s p
  | .copyClient => copyClient ids s
  | .receiveRelease p => smiReceiveRelease ids s p
  | .sendTo n => sendTo s n
  | .sendGetaddr p addr => smiSendGetaddr ids s p addr
  | .write p data => write ids s p data
  | .sendRelease p => smiSendRelease ids s p

end Step

end UnixPrograms.SmiShm
