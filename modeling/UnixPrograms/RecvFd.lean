import UnixPrograms.Lib.Arrivals
import UnixPrograms.Lib.Memory
import Mathlib.Data.List.Basic

/-!
# Error messages over a stream: send_err and recv_fd

`send_err` writes a message, a null byte and a status.  `recv_fd` asks that the null byte be the
last byte but one of what a `recvmsg` returns, and otherwise ends the process: the trailer has to
arrive in one chunk, and the length of the message has to be an `int` (`recvFd_sendErr_iff`).
-/

namespace UnixPrograms.RecvFd

open List Option

def MAXLINE : ℕ := 4096

/-! ## Sending -/

structure Sent where
  ret : Option ℤ
  sent : Bytes
  fd : List Departure

/-- The loop of `writen`, with the `nleft` bytes at `ptr`, after so many bytes. -/
def writenLoop : List Departure → (ptr : Bytes) → (nsent : ℕ) → Sent
  | fd, [], nsent => ⟨some nsent, [], fd⟩
  | [], _ :: _, _ => ⟨none, [], []⟩
  | d :: fd, b :: bs, nsent =>
    match writeFd (b :: bs) d with
    | .error _ => ⟨some (if nsent = 0 then -1 else nsent), [], fd⟩
    | .ok 0 => ⟨some nsent, [], fd⟩
    | .ok (k + 1) =>
      let s := writenLoop fd ((b :: bs).drop (k + 1)) (nsent + (k + 1))
      ⟨s.ret, (b :: bs).take (k + 1) ++ s.sent, s.fd⟩

def writen (fd : List Departure) (ptr : Bytes) : Sent := writenLoop fd ptr 0

/-- The status byte for what is to be sent: 0 for a descriptor, and otherwise the error code without
its sign, as a character. -/
def status (fdToSend : ℤ) : UInt8 :=
  if fdToSend < 0 then
    if UInt8.ofInt (-fdToSend) = 0 then 1 else UInt8.ofInt (-fdToSend)
  else 0

/-- `send_fd`, for a descriptor or, if it is negative, an error code.  The descriptor itself goes
with the bytes as control data; `malloc` says whether there is memory for them. -/
def sendFd (fd : List Departure) (malloc : Bool) (fdToSend : ℤ) : Sent :=
  if 0 ≤ fdToSend ∧ ¬ malloc then ⟨some (-1), [], fd⟩
  else
    match fd with
    | [] => ⟨none, [], []⟩
    | d :: fd =>
      match writeFd [0, status fdToSend] d with
      | .error _ => ⟨some (-1), [], fd⟩
      | .ok k => ⟨some (if k = 2 then 0 else -1), [0, status fdToSend].take k, fd⟩

def sendCode (fd : List Departure) (errcode : ℤ) : Sent :=
  let s := sendFd fd false (if 0 ≤ errcode then -1 else errcode)
  ⟨s.ret.map fun r => if r < 0 then -1 else 0, s.sent, s.fd⟩

/-- `send_err`; the length of the message is kept in an `int`. -/
def sendErr (fd : List Departure) (errcode : ℤ) (msg : Bytes) : Sent :=
  let n := wrapSigned 4 msg.length
  if 0 < n then
    let s := writen fd (msg.take n.toNat)
    match s.ret with
    | none => s
    | some r =>
      if r ≠ n then ⟨some (-1), s.sent, s.fd⟩
      else
        let t := sendCode s.fd errcode
        ⟨t.ret, s.sent ++ t.sent, t.fd⟩
  else sendCode fd errcode

/-! ## Receiving -/

inductive Recvmsg
  | error
  | closed
  /-- Some bytes, with a descriptor if the control data have one. -/
  | data (buf : Bytes) (control : Option ℤ)

/-- How a call of `recv_fd` ends. -/
inductive Outcome
  | returned (newfd : ℤ)
  /-- The message is printed, and the call returns -1. -/
  | failed (message : String)
  /-- The message is printed, and the process ends. -/
  | dumped (message : String)
  | waiting
  deriving DecidableEq

def formatError : String := "message format error"

/-- The loop over the buffer, at the place `ptr` of it, with the bytes from there on: the number of
bytes for the user function, `status` and `newfd`. -/
def scan (control : Option ℤ) (nr ptr : ℕ) (status newfd : ℤ) :
    Bytes → Except String (ℕ × ℤ × ℤ)
  | [] => .ok (nr, status, newfd)
  | b :: bs =>
    if nr ≤ ptr then .ok (nr, status, newfd)
    else if b = 0 then
      if ptr + 1 ≠ nr - 1 then .error formatError
      else
        let status : ℤ := (bs.headD 0).toNat
        if status = 0 then
          match control with
          | none => .error "status = 0 but no fd"
          | some fd => scan control (nr - 2) (ptr + 1) status fd bs
        else scan control (nr - 2) (ptr + 1) status (-status) bs
    else scan control nr (ptr + 1) status newfd bs

/-- What `(*userfunc)(STDERR_FILENO, buf, n)` returns, after the calls made before. -/
abbrev Userfunc := (calls : List Bytes) → (buf : Bytes) → ℤ

/-- The outer loop of `recv_fd`: how it ends, and what has been passed to the user function. -/
def recvLoop (userfunc : Userfunc) (calls : List Bytes) (status newfd : ℤ) :
    List Recvmsg → Outcome × List Bytes
  | [] => (.waiting, calls)
  | .error :: _ => (.failed "recvmsg error", calls)
  | .closed :: _ => (.failed "connection closed by server", calls)
  | .data buf control :: rest =>
    match scan control buf.length 0 status newfd buf with
    | .error message => (.dumped message, calls)
    | .ok (nr, status, newfd) =>
      if 0 < nr ∧ userfunc calls (buf.take nr) ≠ nr then (.returned (-1), calls ++ [buf.take nr])
      else
        let calls := if 0 < nr then calls ++ [buf.take nr] else calls
        if 0 ≤ status then (.returned newfd, calls)
        else recvLoop userfunc calls status newfd rest

/-- `recv_fd`; `malloc` says whether there is memory for the control data. -/
def recvFd (malloc : Bool) (userfunc : Userfunc) (arrivals : List Recvmsg) :
    Outcome × List Bytes :=
  if malloc then recvLoop userfunc [] (-1) 0 arrivals else (.returned (-1), [])

/-! ## What is on the stream -/

variable {fd : List Departure} {errcode : ℤ} {msg a : Bytes} {chunks pre : List Bytes} {s : UInt8}
  {userfunc : Userfunc}

lemma writenLoop_spec {ptr : Bytes} {nsent n : ℕ}
    (h : (writenLoop fd ptr nsent).ret = some (n : ℤ)) (hn : n = nsent + ptr.length) :
    (writenLoop fd ptr nsent).sent = ptr := by
  induction fd generalizing ptr nsent with
  | nil =>
    cases ptr with
    | nil => rfl
    | cons b bs => cases h
  | cons d fd ih =>
    cases ptr with
    | nil => rfl
    | cons b bs =>
      rw [length_cons] at hn
      rw [writenLoop] at h ⊢
      split at h
      · have h := some.inj h
        split_ifs at h
        omega
      · have h := some.inj h
        omega
      · rename_i k hk
        have hlen : ((b :: bs).drop (k + 1)).length = bs.length - k := by simp
        have hle : k ≤ bs.length := by
          cases d with
          | error errno => cases hk
          | bytes m =>
            have hmin := Except.ok.inj hk
            rw [length_cons] at hmin
            omega
        have hrest := ih h (by omega)
        simp only [hrest, take_append_drop]

lemma sent_sendFd {malloc : Bool} {fdToSend r : ℤ} (h : (sendFd fd malloc fdToSend).ret = some r)
    (hr : ¬ r < 0) : (sendFd fd malloc fdToSend).sent = [0, status fdToSend] := by
  unfold sendFd at h ⊢
  split at h
  · obtain rfl := some.inj h
    omega
  · rename_i hmem
    rw [if_neg hmem]
    cases fd with
    | nil => cases h
    | cons d fd =>
      cases d with
      | error errno =>
        obtain rfl := some.inj h
        omega
      | bytes k =>
        by_cases hk : min k [0, status fdToSend].length = 2
        · exact take_of_length_le (Nat.le_of_eq hk.symm)
        · have hfail := some.inj h
          rw [if_neg hk] at hfail
          omega

lemma sent_sendCode (hcode : errcode < 0) (h : (sendCode fd errcode).ret = some 0) :
    (sendCode fd errcode).sent = [0, status errcode] := by
  simp only [sendCode, if_neg (Int.not_le.mpr hcode)] at h ⊢
  obtain ⟨r, hret, hr⟩ := map_eq_some_iff.mp h
  refine sent_sendFd hret ?_
  intro hneg
  rw [if_pos hneg] at hr
  omega

lemma take_wrapSigned_eq_iff : msg.take (wrapSigned 4 msg.length).toNat = msg ↔
    msg.length < 2 ^ 31 := by
  have hlt := wrapSigned_lt (n := 4) msg.length
  constructor
  · intro h
    have hlen := congrArg length h
    rw [length_take] at hlen
    omega
  · intro h
    rw [wrapSigned_natCast h, Int.toNat_natCast, take_length]

/-- As much of the message as the `int` says is sent. -/
lemma sent_sendErr (hcode : errcode < 0) (h : (sendErr fd errcode msg).ret = some 0) :
    (sendErr fd errcode msg).sent =
      msg.take (wrapSigned 4 msg.length).toNat ++ [0, status errcode] := by
  have hle := wrapSigned_natCast_le (n := 4) msg.length
  rw [sendErr] at h ⊢
  dsimp only at h ⊢
  split at h
  · rename_i hpos
    rw [if_pos hpos]
    cases hret : (writen fd (msg.take (wrapSigned 4 msg.length).toNat)).ret with
    | none => simp [hret] at h
    | some r =>
      simp only [hret] at h ⊢
      by_cases hr : r = wrapSigned 4 msg.length
      · have hn : r = (wrapSigned 4 msg.length).toNat := by omega
        have hwhole : (writen fd (msg.take (wrapSigned 4 msg.length).toNat)).sent = _ :=
          writenLoop_spec (hret.trans (congrArg some hn)) (by rw [length_take]; omega)
        rw [if_neg (not_not_intro hr)] at h ⊢
        rw [hwhole, sent_sendCode hcode h]
      · rw [if_pos hr] at h
        cases h
  · rename_i hpos
    rw [if_neg hpos, Int.toNat_of_nonpos (Int.not_lt.mp hpos), take_zero]
    exact sent_sendCode hcode h

/-! ## Chunks of the stream -/

section Receive

variable {calls : List Bytes} {newfd stat : ℤ} {rest : List Recvmsg} {control : Option ℤ}

lemma scan_append {nr ptr : ℕ} {b : Bytes} (ha : 0 ∉ a) (hle : ptr + a.length ≤ nr) :
    scan control nr ptr stat newfd (a ++ b) =
      scan control nr (ptr + a.length) stat newfd b := by
  induction a generalizing ptr with
  | nil => rfl
  | cons c a ih =>
    rw [mem_cons, not_or] at ha
    rw [length_cons] at hle
    rw [cons_append, scan, if_neg (by omega), if_neg (Ne.symm ha.1), ih ha.2 (by omega),
      length_cons, Nat.add_right_comm, Nat.add_assoc]

lemma scan_message {buf : Bytes} (hbuf : 0 ∉ buf) :
    scan control buf.length 0 stat newfd buf = .ok (buf.length, stat, newfd) := by
  have h : scan control buf.length 0 stat newfd (buf ++ []) =
      scan control buf.length (0 + buf.length) stat newfd [] := scan_append hbuf (by omega)
  rwa [append_nil] at h

lemma scan_trailer (ha : 0 ∉ a) {s : UInt8} {fd : ℤ}
    (hfd : if s = 0 then control = some fd else fd = -s.toNat) :
    scan control (a ++ [0, s]).length 0 stat newfd (a ++ [0, s]) =
      .ok (a.length, (s.toNat : ℤ), fd) := by
  have hlen : (a ++ [0, s]).length = a.length + 2 := length_append
  rw [hlen, scan_append ha (by omega), scan, if_neg (by omega), if_pos rfl, if_neg (by omega)]
  by_cases hs : s = 0
  · rw [if_pos hs] at hfd
    subst hs hfd
    simp [scan]
  · have hstat : ¬ (([s].headD 0).toNat : ℤ) = 0 := by
      intro hzero
      exact hs (UInt8.toNat_inj.mp (by simpa using hzero))
    rw [if_neg hs] at hfd
    rw [if_neg hstat, scan, if_pos (by omega), hfd]
    rfl

lemma scan_cut (ha : 0 ∉ a) :
    scan control (a ++ [0]).length 0 stat newfd (a ++ [0]) = .error formatError := by
  have hlen : (a ++ [0]).length = a.length + 1 := length_append
  rw [hlen, scan_append ha (by omega), scan, if_neg (by omega), if_pos rfl, if_pos (by omega)]

/-- `userfunc` accepts what it is given. -/
def Accepts (userfunc : Userfunc) : Prop := ∀ calls buf, userfunc calls buf = buf.length

lemma recvLoop_messages (huser : Accepts userfunc) {pre : List Bytes}
    (hpre : ∀ c ∈ pre, c ≠ [] ∧ 0 ∉ c) :
    recvLoop userfunc calls (-1) newfd (pre.map (.data · none) ++ rest) =
      recvLoop userfunc (calls ++ pre) (-1) newfd rest := by
  induction pre generalizing calls with
  | nil => simp
  | cons c pre ih =>
    obtain ⟨hne, hc⟩ := hpre c mem_cons_self
    have hpos : 0 < c.length := length_pos_iff.mpr hne
    rw [map_cons, cons_append, recvLoop, scan_message hc]
    simp only [take_length]
    rw [if_neg (by rw [huser]; simp), if_pos hpos, if_neg (by omega),
      ih fun b hb => hpre b (mem_cons_of_mem _ hb), append_assoc]
    rfl

lemma recvLoop_trailer (huser : Accepts userfunc) (ha : 0 ∉ a) {s : UInt8} {fd : ℤ}
    (hfd : if s = 0 then control = some fd else fd = -s.toNat) :
    recvLoop userfunc calls (-1) newfd (.data (a ++ [0, s]) control :: rest) =
      (.returned fd, if a = [] then calls else calls ++ [a]) := by
  rw [recvLoop, scan_trailer ha hfd]
  simp only [take_left]
  rw [if_neg (by rw [huser]; simp), if_pos (Int.natCast_nonneg _)]
  cases a with
  | nil => rfl
  | cons b a => simp

lemma recvLoop_cut (ha : 0 ∉ a) :
    recvLoop userfunc calls (-1) newfd (.data (a ++ [0]) control :: rest) =
      (.dumped formatError, calls) := by
  rw [recvLoop, scan_cut ha]

end Receive

lemma eq_nil_of_flatten (hne : ∀ c ∈ chunks, c ≠ []) (h : chunks.flatten = []) : chunks = [] := by
  cases chunks with
  | nil => rfl
  | cons c cs =>
    rw [flatten_cons, append_eq_nil_iff] at h
    exact absurd h.1 (hne c mem_cons_self)

lemma eq_singleton_of_flatten (hne : ∀ c ∈ chunks, c ≠ []) (h : chunks.flatten = [s]) :
    chunks = [[s]] := by
  cases chunks with
  | nil => cases h
  | cons c cs =>
    rw [flatten_cons, append_eq_singleton_iff] at h
    rcases h with ⟨hc, -⟩ | ⟨rfl, hcs⟩
    · exact absurd hc (hne c mem_cons_self)
    · rw [eq_nil_of_flatten (fun d hd => hne d (mem_cons_of_mem _ hd)) hcs]

/-- The chunks of a message with its trailer: chunks of the message, and then the rest of it with
the trailer, in one chunk or cut between the two bytes of the trailer. -/
lemma exists_split (hne : ∀ c ∈ chunks, c ≠ []) (h : chunks.flatten = msg ++ [0, s]) :
    ∃ pre a, pre.flatten ++ a = msg ∧
      (chunks = pre ++ [a ++ [0, s]] ∨ chunks = pre ++ [a ++ [0], [s]]) := by
  induction chunks generalizing msg with
  | nil => simp at h
  | cons c cs ih =>
    have hcs : ∀ d ∈ cs, d ≠ [] := fun d hd => hne d (mem_cons_of_mem _ hd)
    rw [flatten_cons, append_eq_append_iff] at h
    rcases h with ⟨msg', rfl, hrest⟩ | ⟨tail, rfl, htail⟩
    · obtain ⟨pre, a, hmsg, hsplit⟩ := ih hcs hrest
      refine ⟨c :: pre, a, ?_, ?_⟩
      · rw [flatten_cons, append_assoc, hmsg]
      · rw [cons_append, cons_append, cons_inj_right, cons_inj_right]
        exact hsplit
    · match tail, htail with
      | [], htail =>
        have hrest : cs.flatten = [] ++ [0, s] := htail.symm
        obtain ⟨pre, a, hmsg, hsplit⟩ := ih hcs hrest
        refine ⟨msg :: pre, a, ?_, ?_⟩
        · rw [flatten_cons, append_assoc, hmsg, append_nil]
        · rw [append_nil, cons_append, cons_append, cons_inj_right, cons_inj_right]
          exact hsplit
      | [x], htail =>
        obtain ⟨rfl, hlast⟩ := cons_eq_cons.mp htail
        refine ⟨[], msg, rfl, .inr ?_⟩
        rw [nil_append, eq_singleton_of_flatten hcs hlast.symm]
      | [x, y], htail =>
        simp only [cons_append, nil_append, List.cons.injEq] at htail
        obtain ⟨rfl, rfl, hnil⟩ := htail
        refine ⟨[], msg, rfl, .inl ?_⟩
        rw [eq_nil_of_flatten hcs hnil.symm, nil_append]
      | x :: y :: z :: tail, htail => simp at htail

/-! ## Messages and descriptors -/

lemma toNat_status (hlo : -255 ≤ errcode) (hhi : errcode ≤ -1) :
    (-(status errcode).toNat : ℤ) = errcode ∧ status errcode ≠ 0 := by
  obtain ⟨n, hn⟩ : ∃ n : ℕ, -errcode = n := ⟨(-errcode).toNat, by omega⟩
  have hbyte : (UInt8.ofInt (-errcode)).toNat = n := by
    rw [hn, UInt8.ofInt, UInt8.toNat_ofNat']
    omega
  have hne : UInt8.ofInt (-errcode) ≠ 0 := by
    intro hzero
    rw [hzero] at hbyte
    have hn0 : n = 0 := hbyte.symm
    omega
  rw [status, if_pos (by omega), if_neg hne, hbyte]
  exact ⟨by omega, hne⟩

lemma recvFd_trailer (huser : Accepts userfunc) (hpre : ∀ c ∈ pre, c ≠ [])
    (hmsg : pre.flatten ++ a = msg) (hnul : 0 ∉ msg) {control : Option ℤ} {fd : ℤ}
    (hfd : if s = 0 then control = some fd else fd = -s.toNat) :
    ∃ calls, recvFd true userfunc (pre.map (.data · none) ++ [.data (a ++ [0, s]) control]) =
      (.returned fd, calls) ∧ calls.flatten = msg := by
  subst hmsg
  rw [mem_append, not_or] at hnul
  have hpre' : ∀ c ∈ pre, c ≠ [] ∧ 0 ∉ c := fun c hc =>
    ⟨hpre c hc, fun hzero => hnul.1 (mem_flatten.mpr ⟨c, hc, hzero⟩)⟩
  refine ⟨if a = [] then pre else pre ++ [a], ?_, ?_⟩
  · rw [recvFd, if_pos rfl, recvLoop_messages huser hpre', recvLoop_trailer huser hnul.2 hfd,
      nil_append]
  · split_ifs with ha
    · rw [ha, append_nil]
    · rw [flatten_append, flatten_singleton]

lemma recvFd_cut (huser : Accepts userfunc) (hpre : ∀ c ∈ pre, c ≠ [])
    (hnul : 0 ∉ pre.flatten ++ a) :
    recvFd true userfunc ((pre ++ [a ++ [0], [s]]).map (.data · none)) =
      (.dumped formatError, pre) := by
  rw [mem_append, not_or] at hnul
  have hpre' : ∀ c ∈ pre, c ≠ [] ∧ 0 ∉ c := fun c hc =>
    ⟨hpre c hc, fun hzero => hnul.1 (mem_flatten.mpr ⟨c, hc, hzero⟩)⟩
  rw [recvFd, if_pos rfl, map_append, recvLoop_messages huser hpre', map_cons,
    recvLoop_cut hnul.2, nil_append]

/-- A message and an error code that `send_err` has sent arrive whatever the chunks are, if the
length of the message is an `int` and the last chunk has both bytes of the trailer, and only
then. -/
theorem recvFd_sendErr_iff (fd : List Departure) (msg : Bytes) (hmsg : 0 ∉ msg) (errcode : ℤ)
    (hcode : -255 ≤ errcode ∧ errcode ≤ -1) (hsent : (sendErr fd errcode msg).ret = some 0)
    (chunks : List Bytes) (hchunks : chunks.flatten = (sendErr fd errcode msg).sent)
    (hsize : ∀ c ∈ chunks, c ≠ [] ∧ c.length ≤ MAXLINE) (userfunc : Userfunc)
    (huser : Accepts userfunc) :
    (∃ calls, recvFd true userfunc (chunks.map (.data · none)) = (.returned errcode, calls) ∧
      calls.flatten = msg) ↔ msg.length < 2 ^ 31 ∧ ∀ c ∈ chunks.getLast?, 2 ≤ c.length := by
  obtain ⟨hstatus, hne⟩ := toNat_status hcode.1 hcode.2
  rw [sent_sendErr (by omega) hsent] at hchunks
  obtain ⟨pre, a, hpre, hsplit⟩ := exists_split (fun c hc => (hsize c hc).1) hchunks
  have hnul : 0 ∉ msg.take (wrapSigned 4 msg.length).toNat := fun h => hmsg (mem_of_mem_take h)
  have hpre' : ∀ c ∈ pre, c ≠ [] := by
    intro c hc
    refine (hsize c ?_).1
    rcases hsplit with rfl | rfl
    · exact mem_append_left _ hc
    · exact mem_append_left _ hc
  rcases hsplit with rfl | rfl
  · have hlast : ∀ c ∈ (pre ++ [a ++ [0, status errcode]]).getLast?, 2 ≤ c.length := by
      rw [List.getLast?_concat]
      rintro c ⟨rfl⟩
      simp
    rw [and_iff_left hlast, ← take_wrapSigned_eq_iff, map_append, map_singleton]
    have hfd : if status errcode = 0 then (none : Option ℤ) = some errcode
        else errcode = -(status errcode).toNat := by
      rw [if_neg hne, hstatus]
    obtain ⟨calls, hrecv, hcalls⟩ := recvFd_trailer huser hpre' hpre hnul hfd
    rw [hrecv, ← hcalls]
    constructor
    · rintro ⟨calls', heq, rfl⟩
      rw [(Prod.mk.inj heq).2]
    · intro h
      exact ⟨calls, rfl, h⟩
  · have hlast : ¬ ∀ c ∈ (pre ++ [a ++ [0], [status errcode]]).getLast?, 2 ≤ c.length := by
      intro h
      have htwo := h [status errcode] (by simp)
      simp at htwo
    refine iff_of_false ?_ fun h => hlast h.2
    rintro ⟨calls, hrecv, -⟩
    rw [recvFd_cut huser hpre' (hpre ▸ hnul)] at hrecv
    cases hrecv

/-- The message `no` with the error code -2, of which the first byte arrives alone. -/
theorem recvFd_sendErr_iff_sample :
    ∃ calls, recvFd true (fun _ buf => buf.length) [.data [110] none, .data [111, 0, 2] none] =
      (.returned (-2), calls) ∧ calls.flatten = [110, 111] := by
  let fd : List Departure := [.bytes 1, .bytes 10, .bytes 2]
  exact (recvFd_sendErr_iff fd [110, 111] (by decide) (-2) (by decide) rfl [[110], [111, 0, 2]]
    (by decide) (by decide) _ fun _ _ => rfl).mpr ⟨by decide, by decide⟩

lemma ret_sendErr (hne : msg ≠ []) (hlen : msg.length < 2 ^ 31) {k : ℕ} (hk : msg.length ≤ k)
    (hcode : errcode < 0) : (sendErr [.bytes k, .bytes 2] errcode msg).ret = some 0 := by
  have hwritten : writen [.bytes k, .bytes 2] msg = ⟨some msg.length, msg, [.bytes 2]⟩ := by
    obtain ⟨b, bs, rfl⟩ := exists_cons_of_ne_nil hne
    have hmin : min k (b :: bs).length = bs.length + 1 := by
      rw [length_cons] at hk ⊢
      omega
    simp only [writen, writenLoop, writeFd, hmin]
    simp [writenLoop]
  have hpos : (0 : ℤ) < msg.length := Int.natCast_pos.mpr (length_pos_iff.mpr hne)
  simp only [sendErr, wrapSigned_natCast hlen, if_pos hpos, Int.toNat_natCast, take_length,
    hwritten]
  simp [sendCode, sendFd, writeFd, Int.not_le.mpr hcode]

/-- A message of `MAXLINE - 1` bytes fills the buffer of `recv_fd` together with the null byte. -/
theorem recvFd_fullBuffer : let msg : Bytes := List.replicate (MAXLINE - 1) 101
    let chunks := [msg ++ [0], [1]]
    (sendErr [.bytes MAXLINE, .bytes 2] (-1) msg).ret = some 0 ∧
      chunks.flatten = (sendErr [.bytes MAXLINE, .bytes 2] (-1) msg).sent ∧
      (∀ c ∈ chunks, c ≠ [] ∧ c.length ≤ MAXLINE) ∧
      recvFd true (fun _ buf => buf.length) (chunks.map (.data · none)) =
        (.dumped formatError, []) := by
  intro msg chunks
  have hlen : msg.length = MAXLINE - 1 := length_replicate
  have hne : msg ≠ [] := length_pos_iff.mp (by rw [hlen]; decide)
  have hnul : 0 ∉ msg := fun h => absurd (eq_of_mem_replicate h) (by decide)
  have hint : msg.length < 2 ^ 31 := by rw [hlen]; decide
  have hret := ret_sendErr hne hint (k := MAXLINE) (by omega) (show (-1 : ℤ) < 0 by decide)
  refine ⟨hret, ?_, ?_, @recvFd_cut msg [] 1 _ (fun _ _ => rfl) nofun hnul⟩
  · rw [sent_sendErr (by decide) hret, wrapSigned_natCast hint, Int.toNat_natCast, take_length]
    simp only [chunks, flatten_cons, flatten_nil, append_nil, append_assoc]
    rfl
  · intro c hc
    rcases mem_cons.mp hc with rfl | hc
    · rw [length_append, hlen]
      exact ⟨by simp, by decide⟩
    · rw [mem_singleton.mp hc]
      exact ⟨by decide, by decide⟩

end UnixPrograms.RecvFd
