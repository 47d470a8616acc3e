import UnixPrograms.Lib.Memory
import UnixPrograms.Lib.Monitor

/-!
# The message queues of `my_pxmsg_mmap`

A queue is one mapped file: a `struct mymq_hdr`, then `mq_maxmsg` slots, each a `struct mymsg_hdr`
with room for a message behind it.  Messages and free slots are two lists, linked through the byte
offset `msg_next`.  The file is a byte memory with the layout of the 64-bit Linux ABI; `mqMonitor`
puts the critical sections of the calls together.
-/

namespace UnixPrograms.Mymq

/-! ## The layout of the file -/

def MQI_MAGIC : ℤ := 0x98765432

def O_NONBLOCK : ℕ := 0o4000

def EBADF : ℤ := 9

def EAGAIN : ℤ := 11

def EBUSY : ℤ := 16

def EMSGSIZE : ℤ := 90

def SIGEV_SIGNAL : ℤ := 0

def INT_MAX : ℤ := 2 ^ 31 - 1

def sizeofLong : ℕ := 8

/-- `sizeof(struct mymsg_hdr)`: a `long`, an `ssize_t` and an `unsigned int`, with padding. -/
def sizeofMymsgHdr : ℕ := 24

def sizeofMymqHdr : ℕ := 216

/-- The fields of `struct mymq_hdr` that the functions use; the last three are those of
`mqh_event`. -/
inductive HdrField where
  | mqFlags
  | mqMaxmsg
  | mqMsgsize
  | mqCurmsgs
  | mqhHead
  | mqhFree
  | mqhNwait
  | mqhPid
  | sigevValue
  | sigevSigno
  | sigevNotify
  deriving DecidableEq

def HdrField.addr : HdrField → ℕ
  | .mqFlags => 0
  | .mqMaxmsg => 8
  | .mqMsgsize => 16
  | .mqCurmsgs => 24
  | .mqhHead => 32
  | .mqhFree => 40
  | .mqhNwait => 48
  | .mqhPid => 56
  | .sigevValue => 64
  | .sigevSigno => 72
  | .sigevNotify => 76

def HdrField.size : HdrField → ℕ
  | .mqhPid | .sigevSigno | .sigevNotify => 4
  | _ => 8

def getHdr (m : Mem) (f : HdrField) : ℤ := getSigned f.size m f.addr

def setHdr (m : Mem) (f : HdrField) (v : ℤ) : Mem := setSigned f.size m f.addr v

/-- `msg_next` of the slot at `o`, or the heading cell of a list: the byte offset of a slot. -/
def getNext (m : Mem) (o : ℕ) : ℕ := getField sizeofLong m o

def setNext (m : Mem) (o v : ℕ) : Mem := setField sizeofLong m o v

def getLen (m : Mem) (o : ℕ) : ℤ := getSigned 8 m (o + 8)

def setLen (m : Mem) (o : ℕ) (v : ℤ) : Mem := setSigned 8 m (o + 8) v

def getPrio (m : Mem) (o : ℕ) : ℕ := getField 4 m (o + 16)

def setPrio (m : Mem) (o v : ℕ) : Mem := setField 4 m (o + 16) v

def getBody (m : Mem) (o : ℕ) (len : ℤ) : List UInt8 := readBytes m (o + sizeofMymsgHdr) len.toNat

/-! ## `mymq_open` -/

structure MymqAttr where
  mqMaxmsg : ℤ
  mqMsgsize : ℤ

def defattr : MymqAttr where
  mqMaxmsg := 128
  mqMsgsize := 1024

def toULong (v : ℤ) : ℕ := ofSigned 8 v

/-- `MSGSIZE(i)`, in the arithmetic of `unsigned long`. -/
def msgSizeMacro (i : ℤ) : ℕ :=
  ((toULong i + (sizeofLong - 1)) % 2 ^ 64 / sizeofLong * sizeofLong) % 2 ^ 64

def filesize (attr : MymqAttr) : ℤ :=
  toSigned 8 ((sizeofMymqHdr + toULong attr.mqMaxmsg *
    ((sizeofMymsgHdr + msgSizeMacro attr.mqMsgsize) % 2 ^ 64)) % 2 ^ 64)

/-- The loop of `mymq_open` that links `n` slots from the offset `index` on to their successors,
`step` bytes apart, and the end of the list behind them. -/
def linkFree (step : ℕ) : ℕ → Mem → ℕ → Mem
  | 0, m, index => setNext m index 0
  | n + 1, m, index => linkFree step n (setNext m index (index + step)) (index + step)

def initHdr (attr : MymqAttr) : Mem :=
  let m : Mem := fun _ => 0
  let m := setHdr m .mqFlags 0
  let m := setHdr m .mqMaxmsg attr.mqMaxmsg
  let m := setHdr m .mqMsgsize attr.mqMsgsize
  let m := setHdr m .mqCurmsgs 0
  let m := setHdr m .mqhNwait 0
  let m := setHdr m .mqhPid 0
  let m := setHdr m .mqhHead 0
  setHdr m .mqhFree sizeofMymqHdr

/-- The file that `mymq_open` creates, unless the attributes are refused with `EINVAL`, or
`mq_maxmsg` is so great that the `int` which counts the slots overflows. -/
def mymqOpen (attr : MymqAttr) : Option Mem :=
  if attr.mqMaxmsg ≤ 0 ∨ attr.mqMsgsize ≤ 0 then none
  else if attr.mqMaxmsg - 1 > INT_MAX then none
  else
    some (linkFree (sizeofMymsgHdr + msgSizeMacro attr.mqMsgsize) (attr.mqMaxmsg - 1).toNat
      (initHdr attr) sizeofMymqHdr)

/-! ## The critical sections -/

structure MymqInfo where
  mqiMagic : ℤ
  mqiFlags : ℕ

def MymqInfo.nonblock (info : MymqInfo) : Bool := info.mqiFlags &&& O_NONBLOCK != 0

structure Sigevent where
  sigevNotify : ℤ
  sigevSigno : ℤ
  sigevValue : ℤ

structure Sigqueued where
  pid : ℤ
  signo : ℤ
  value : ℤ

structure Queue where
  mem : Mem
  /-- The calls of `sigqueue`, in order. -/
  sent : List Sigqueued

inductive Reply where
  | ok
  /-- `mymq_receive` returns `len`, with the message and its priority stored for the caller. -/
  | received (len : ℤ) (body : List UInt8) (prio : ℕ)
  | failed (errno : ℤ)

/-- The points at which a thread takes `mqh_lock`: the three calls, and the ends of the two waits.
For `mymq_notify`, `alive` is what `kill` says about the process registered so far: no error, or
another one than `ESRCH`. -/
inductive Point where
  | send (info : MymqInfo) (msg : List UInt8) (prio : UInt32)
  | sendWait (msg : List UInt8) (prio : UInt32)
  | receive (info : MymqInfo) (maxlen : ℕ)
  | receiveWait
  | notify (info : MymqInfo) (pid : ℤ) (notification : Option Sigevent) (alive : Bool)

/-- A critical section of the queue; `mqh_wait` is its only condition variable. -/
abbrev QueueSection := Section Point Unit Reply Queue

def fail (q : Queue) (errno : ℤ) : QueueSection where
  shared := q
  wake := none
  exit := .ret (.failed errno)

/-- The loop of `mymq_send` that finds the place for the new slot: `p` is the cell that leads to
`index`, at first `mqh_head`.  The new slot goes in front of the first slot of strictly lower
priority, else to the end.  `none` if the list has more than `fuel` slots. -/
def insertLoop (prio : UInt32) (freeindex : ℕ) : ℕ → Mem → ℕ → ℕ → Option Mem
  | 0, _, _, _ => none
  | fuel + 1, m, index, p =>
      if index = 0 then some (setNext (setNext m p freeindex) freeindex 0)
      else if prio.toNat > getPrio m index then
        some (setNext (setNext m freeindex index) p freeindex)
      else insertLoop prio freeindex fuel m (getNext m index) index

/-- The second half of `mymq_send`: take a slot from the free list, fill it, link it into the list
of messages, wake up a thread if the queue was empty.  An empty free list ends the process by
`err_dump`; so does here a list of messages without an end. -/
def sendPut (msg : List UInt8) (prio : UInt32) (q : Queue) : QueueSection :=
  let freeindex := getNext q.mem HdrField.mqhFree.addr
  if freeindex = 0 then { shared := q, wake := none, exit := .crash }
  else
    let m := setPrio q.mem freeindex prio.toNat
    let m := setLen m freeindex msg.length
    let m := writeBytes m (freeindex + sizeofMymsgHdr) msg
    let m := setNext m HdrField.mqhFree.addr (getNext m freeindex)
    match insertLoop prio freeindex ((getHdr m .mqMaxmsg).toNat + 1) m
        (getNext m HdrField.mqhHead.addr) HdrField.mqhHead.addr with
    | none => { shared := { q with mem := m }, wake := none, exit := .crash }
    | some m =>
        { shared := { q with mem := setHdr m .mqCurmsgs (getHdr m .mqCurmsgs + 1) }
          wake := if getHdr m .mqCurmsgs = 0 then some (.signal ()) else none
          exit := .ret .ok }

def sendWaitLoop (msg : List UInt8) (prio : UInt32) (q : Queue) : QueueSection :=
  if getHdr q.mem .mqCurmsgs ≥ getHdr q.mem .mqMaxmsg then
    { shared := q, wake := none, exit := .wait () (.sendWait msg prio) }
  else sendPut msg prio q

/-- The signal that is due to the registered process. -/
def registeredSignal (m : Mem) : Sigqueued where
  pid := getHdr m .mqhPid
  signo := getHdr m .sigevSigno
  value := getHdr m .sigevValue

/-- The notification of `mymq_send`: a process that is registered, while no thread waits for a
message, is sent its signal and removed. -/
def sendNotify (q : Queue) : Queue :=
  if getHdr q.mem .mqhPid ≠ 0 ∧ getHdr q.mem .mqhNwait = 0 then
    { mem := setHdr q.mem .mqhPid 0
      sent := if getHdr q.mem .sigevNotify = SIGEV_SIGNAL then q.sent ++ [registeredSignal q.mem]
        else q.sent }
  else q

def mymqSend (info : MymqInfo) (msg : List UInt8) (prio : UInt32) (q : Queue) : QueueSection :=
  if info.mqiMagic ≠ MQI_MAGIC then fail q EBADF
  else if msg.length > toULong (getHdr q.mem .mqMsgsize) then fail q EMSGSIZE
  else if getHdr q.mem .mqCurmsgs = 0 then sendPut msg prio (sendNotify q)
  else if getHdr q.mem .mqCurmsgs ≥ getHdr q.mem .mqMaxmsg then
    if info.nonblock then fail q EAGAIN else sendWaitLoop msg prio q
  else sendPut msg prio q

/-- The second half of `mymq_receive`: take the first message, put its slot in front of the free
list, wake up a thread if the queue was full. -/
def receiveTake (q : Queue) : QueueSection :=
  let index := getNext q.mem HdrField.mqhHead.addr
  if index = 0 then { shared := q, wake := none, exit := .crash }
  else
    let m := setNext q.mem HdrField.mqhHead.addr (getNext q.mem index)
    let len := getLen m index
    let body := getBody m index len
    let prio := getPrio m index
    let m := setNext m index (getNext m HdrField.mqhFree.addr)
    let m := setNext m HdrField.mqhFree.addr index
    { shared := { q with mem := setHdr m .mqCurmsgs (getHdr m .mqCurmsgs - 1) }
      wake := if getHdr m .mqCurmsgs = getHdr m .mqMaxmsg then some (.signal ()) else none
      exit := .ret (.received len body prio) }

def receiveWaitLoop (q : Queue) : QueueSection :=
  if getHdr q.mem .mqCurmsgs = 0 then { shared := q, wake := none, exit := .wait () .receiveWait }
  else receiveTake { q with mem := setHdr q.mem .mqhNwait (getHdr q.mem .mqhNwait - 1) }

def mymqReceive (info : MymqInfo) (maxlen : ℕ) (q : Queue) : QueueSection :=
  if info.mqiMagic ≠ MQI_MAGIC then fail q EBADF
  else if maxlen < toULong (getHdr q.mem .mqMsgsize) then fail q EMSGSIZE
  else if getHdr q.mem .mqCurmsgs = 0 then
    if info.nonblock then fail q EAGAIN
    else receiveWaitLoop { q with mem := setHdr q.mem .mqhNwait (getHdr q.mem .mqhNwait + 1) }
  else receiveTake q

def mymqNotify (info : MymqInfo) (pid : ℤ) (notification : Option Sigevent) (alive : Bool)
    (q : Queue) : QueueSection :=
  if info.mqiMagic ≠ MQI_MAGIC then fail q EBADF
  else
    match notification with
    | none =>
        { shared := if getHdr q.mem .mqhPid = pid then
          { q with mem := setHdr q.mem .mqhPid 0 } else q
          wake := none
          exit := .ret .ok }
    | some ev =>
        if getHdr q.mem .mqhPid ≠ 0 ∧ alive = true then fail q EBUSY
        else
          let m := setHdr q.mem .mqhPid pid
          let m := setHdr m .sigevValue ev.sigevValue
          let m := setHdr m .sigevSigno ev.sigevSigno
          let m := setHdr m .sigevNotify ev.sigevNotify
          { shared := { q with mem := m }, wake := none, exit := .ret .ok }

def criticalSection : Point → Queue → QueueSection
  | .send info msg prio => mymqSend info msg prio
  | .sendWait msg prio => sendWaitLoop msg prio
  | .receive info maxlen => mymqReceive info maxlen
  | .receiveWait => receiveWaitLoop
  | .notify info pid notification alive => mymqNotify info pid notification alive

def IsEntry : Point → Prop
  | .sendWait _ _ | .receiveWait => False
  | _ => True

def mqMonitor (ι : Type) : Monitor ι Point Unit Reply Queue where
  entry := IsEntry
  sect _ := criticalSection

abbrev MqState (ι : Type) := MState ι Point Unit Queue

def mqStart (ι : Type) (m : Mem) : MqState ι := MState.start { mem := m, sent := [] }

end UnixPrograms.Mymq
