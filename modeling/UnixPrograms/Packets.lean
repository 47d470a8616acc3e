import UnixPrograms.Restart
import UnixPrograms.Lib.Memory

/-!
# Packets on a byte stream

Whatever pieces the packets of `putpacket` arrive in, and with interruptions and short counts,
`getpacket` gives those that have arrived as a whole and then fails at the end of the stream
(`getpackets_of_putpackets`).
-/

namespace UnixPrograms.Packets

open List

open Restart

/-! ## The functions of `putpacket.c` and `getpacket.c` -/

def MAX_PACK_SIZE : ℕ := 1024

/-- `taskpacket_t`; the type of a packet, a `packet_t`, is stored as an `unsigned int`. -/
structure Header where
  compid : Int32
  taskid : Int32
  type : UInt32
  length : Int32
  deriving DecidableEq

def headlen : ℕ := 16

def Header.encode (h : Header) : Bytes :=
  encodeLE 4 h.compid.toUInt32.toNat ++ encodeLE 4 h.taskid.toUInt32.toNat ++
    encodeLE 4 h.type.toNat ++ encodeLE 4 h.length.toUInt32.toNat

def field (bs : Bytes) (i : ℕ) : UInt32 := UInt32.ofNat (decodeLE ((bs.drop (4 * i)).take 4))

def Header.decode (bs : Bytes) : Header where
  compid := (field bs 0).toInt32
  taskid := (field bs 1).toInt32
  type := field bs 2
  length := (field bs 3).toInt32

structure Put where
  /-- The return value, or `none` if the process does not get to the end of the call. -/
  ret : Option ℤ
  sent : Bytes
  fd : List Departure

def putpacket (fd : List Departure) (compId taskId : Int32) (type : UInt32) (length : Int32)
    (buf : Bytes) : Put :=
  if length.toInt < 0 ∨ MAX_PACK_SIZE < length.toInt then ⟨some (-1), [], fd⟩
  else
    let header : Header := ⟨compId, taskId, type, length⟩
    let w := rWrite fd header.encode
    match w.ret with
    | none => ⟨none, w.sent, w.fd⟩
    | some r =>
      if r ≠ headlen then ⟨some (-1), w.sent, w.fd⟩
      else
        let w' := rWrite w.fd (buf.take length.toInt.toNat)
        match w'.ret with
        | none => ⟨none, w.sent ++ w'.sent, w'.fd⟩
        | some r' => ⟨some (if r' ≠ length.toInt then -1 else 0), w.sent ++ w'.sent, w'.fd⟩

/-- What a call of `getpacket` leaves: the values stored for the caller if it returns 0, `none` if
it returns -1, and the caller's buffer. -/
structure Got where
  header : Option Header
  buf : Bytes
  fd : List Arrival

def getpacket (fd : List Arrival) (buf : Bytes) : Got :=
  let b := readblock fd headlen
  if b.ret ≠ headlen then ⟨none, buf, b.fd⟩
  else
    let header := Header.decode b.got
    if header.length.toInt < 0 ∨ MAX_PACK_SIZE < header.length.toInt then ⟨none, buf, b.fd⟩
    else
      let d := readblock b.fd header.length.toInt.toNat
      ⟨if d.ret ≠ header.length.toInt then none else some header, writeAt buf 0 d.got, d.fd⟩

/-! ## Sequences of packets -/

structure Fields where
  compid : Int32
  taskid : Int32
  type : UInt32
  data : Bytes
  deriving DecidableEq

def Got.seen (g : Got) : Option Fields :=
  g.header.map fun h => ⟨h.compid, h.taskid, h.type, g.buf.take h.length.toInt.toNat⟩

structure Packet extends Fields where
  fits : data.length ≤ MAX_PACK_SIZE

def Packet.header (p : Packet) : Header := ⟨p.compid, p.taskid, p.type, Int32.ofNat p.data.length⟩

def Packet.bytes (p : Packet) : Bytes := p.header.encode ++ p.data

def stream (ps : List Packet) : Bytes := ps.flatMap Packet.bytes

def Packet.put (fd : List Departure) (p : Packet) : Put :=
  putpacket fd p.compid p.taskid p.type p.header.length p.data

/-- Calls of `putpacket` for the packets one after the other, up to the first that does not return
0: the values returned, and the bytes that were written. -/
def putpackets : List Departure → List Packet → List ℤ × Bytes
  | _, [] => ([], [])
  | fd, p :: ps =>
    match p.put fd with
    | ⟨some r, sent, fd'⟩ =>
      if r = 0 then (0 :: (putpackets fd' ps).1, sent ++ (putpackets fd' ps).2) else ([r], sent)
    | ⟨none, sent, _⟩ => ([], sent)

/-- `k` calls of `getpacket` one after the other: what the caller sees of each, and what is left of
the stream after it. -/
def getpackets : (k : ℕ) → List Arrival → (buf : Bytes) → List (Option Fields × List Arrival)
  | 0, _, _ => []
  | k + 1, fd, buf =>
    ((getpacket fd buf).seen, (getpacket fd buf).fd) ::
      getpackets k (getpacket fd buf).fd (getpacket fd buf).buf

/-- The number of packets at the front of the list that lie as a whole in the first `n` bytes of
their stream. -/
def whole : (n : ℕ) → List Packet → ℕ
  | _, [] => 0
  | n, p :: ps => if p.bytes.length ≤ n then whole (n - p.bytes.length) ps + 1 else 0

/-! ## The header -/

@[simp] lemma length_encode (h : Header) : h.encode.length = headlen := by
  simp [Header.encode, headlen]

lemma ofNat_decodeLE_encodeLE (x : UInt32) : UInt32.ofNat (decodeLE (encodeLE 4 x.toNat)) = x := by
  rw [decodeLE_encodeLE (by simpa using x.toNat_lt), UInt32.ofNat_toNat]

lemma field_append (pre post : Bytes) {i : ℕ} (hpre : pre.length = 4 * i) (x : UInt32) :
    field (pre ++ encodeLE 4 x.toNat ++ post) i = x := by
  rw [field, append_assoc, ← hpre, drop_left, take_left' (length_encodeLE 4 _),
    ofNat_decodeLE_encodeLE]

lemma decode_encode (h : Header) : Header.decode h.encode = h := by
  obtain ⟨compid, taskid, type, length⟩ := h
  have h0 := field_append (i := 0) [] (encodeLE 4 taskid.toUInt32.toNat ++ encodeLE 4 type.toNat ++
    encodeLE 4 length.toUInt32.toNat) rfl compid.toUInt32
  have h1 := field_append (i := 1) (encodeLE 4 compid.toUInt32.toNat) (encodeLE 4 type.toNat ++
    encodeLE 4 length.toUInt32.toNat) (length_encodeLE 4 _) taskid.toUInt32
  have h2 := field_append (i := 2) (encodeLE 4 compid.toUInt32.toNat ++
    encodeLE 4 taskid.toUInt32.toNat) (encodeLE 4 length.toUInt32.toNat) (by simp) type
  have h3 := field_append (i := 3) (encodeLE 4 compid.toUInt32.toNat ++
    encodeLE 4 taskid.toUInt32.toNat ++ encodeLE 4 type.toNat) [] (by simp) length.toUInt32
  simp only [append_assoc, nil_append, append_nil] at h0 h1 h2 h3
  simp only [Header.decode, Header.encode, append_assoc, h0, h1, h2, h3]
  rfl

lemma toInt_length (p : Packet) : p.header.length.toInt = p.data.length := by
  have hfits : p.data.length ≤ 1024 := p.fits
  have hsize : Int32.size = 4294967296 := rfl
  rw [Packet.header, Int32.toInt_ofNat', hsize]
  apply Int.bmod_eq_of_le
  · omega
  · omega

lemma length_in_range (p : Packet) :
    ¬ (p.header.length.toInt < 0 ∨ (MAX_PACK_SIZE : ℤ) < p.header.length.toInt) := by
  have hfits := p.fits
  rw [toInt_length]
  omega

/-! ## Sending -/

lemma length_bytes (p : Packet) : p.bytes.length = headlen + p.data.length := by
  rw [Packet.bytes, length_append, length_encode]

lemma put_spec {fd : List Departure} (h : Interrupted fd) (p : Packet) :
    Interrupted (p.put fd).fd ∧
      ((p.put fd).ret = some 0 ∧ (p.put fd).sent = p.bytes ∨
        (p.put fd).ret = none ∧ (p.put fd).sent <+: p.bytes) := by
  obtain ⟨hint, hw⟩ := rWrite_spec h p.header.encode
  rw [Packet.put, putpacket, if_neg (length_in_range p)]
  have hheader : (⟨p.compid, p.taskid, p.type, p.header.length⟩ : Header) = p.header := rfl
  have htake : p.data.take p.header.length.toInt.toNat = p.data := by
    rw [toInt_length, Int.toNat_natCast, take_length]
  simp only [hheader, htake]
  rcases hw with ⟨hret, hsent⟩ | ⟨hret, hsent⟩
  · obtain ⟨hint', hw'⟩ := rWrite_spec hint p.data
    simp only [hret, length_encode, ne_eq, not_true_eq_false, if_false, hsent]
    rcases hw' with ⟨hret', hsent'⟩ | ⟨hret', hsent'⟩
    · simp only [hret', toInt_length, not_true_eq_false, if_false, hsent']
      exact ⟨hint', .inl ⟨trivial, rfl⟩⟩
    · simp only [hret']
      exact ⟨hint', .inr ⟨trivial, (prefix_append_right_inj _).mpr hsent'⟩⟩
  · simp only [hret]
    exact ⟨hint, .inr ⟨trivial, hsent.trans (prefix_append _ _)⟩⟩

lemma putpackets_spec {fd : List Departure} (h : Interrupted fd) (ps : List Packet) :
    (∀ r ∈ (putpackets fd ps).1, r = 0) ∧ (putpackets fd ps).2 <+: stream ps ∧
      ((putpackets fd ps).1.length = ps.length → (putpackets fd ps).2 = stream ps) := by
  induction ps generalizing fd with
  | nil => exact ⟨by simp [putpackets], prefix_rfl, fun _ => rfl⟩
  | cons p ps ih =>
    obtain ⟨hint, hput⟩ := put_spec h p
    rw [putpackets]
    rcases hw : p.put fd with ⟨ret, sent, fd'⟩
    rw [hw] at hint hput
    rcases hput with ⟨rfl, rfl⟩ | ⟨rfl, hsent⟩
    · obtain ⟨hrets, hprefix, hall⟩ := ih hint
      simp only [if_pos]
      refine ⟨?_, ?_, ?_⟩
      · intro r hr
        rcases mem_cons.mp hr with rfl | hr
        · rfl
        · exact hrets r hr
      · exact (prefix_append_right_inj _).mpr hprefix
      · intro hlen
        rw [hall (Nat.succ.inj hlen), stream, stream, flatMap_cons]
    · refine ⟨by simp, hsent.trans (prefix_append _ _), fun hlen => ?_⟩
      cases hlen

/-! ## Receiving -/

lemma take_writeAt_zero (buf bs : Bytes) : (writeAt buf 0 bs).take bs.length = bs := by
  simp [writeAt]

variable {p : Packet} {fd : List Arrival}

lemma getpacket_of_header (hret : (readblock fd headlen).ret = headlen)
    (hgot : (readblock fd headlen).got = p.header.encode) (buf : Bytes) :
    getpacket fd buf =
      ⟨if (readblock (readblock fd headlen).fd p.data.length).ret ≠ p.data.length then none
        else some p.header, writeAt buf 0 (readblock (readblock fd headlen).fd p.data.length).got,
        (readblock (readblock fd headlen).fd p.data.length).fd⟩ := by
  unfold getpacket
  simp only [hret, ne_eq, not_true_eq_false, if_false, hgot, decode_encode]
  rw [if_neg (length_in_range p), toInt_length, Int.toNat_natCast]

lemma getpacket_of_prefix (h : Steady fd) {rest : Bytes} (hun : unread fd = p.bytes ++ rest)
    (buf : Bytes) :
    (getpacket fd buf).seen = some p.toFields ∧ unread (getpacket fd buf).fd = rest ∧
      Steady (getpacket fd buf).fd := by
  have hlen : (unread fd).length = headlen + p.data.length + rest.length := by
    rw [hun, length_append, length_bytes]
  rw [Packet.bytes, append_assoc] at hun
  -- the header
  obtain ⟨hret, hgot, hrest, hst⟩ := readblock_of_le h headlen (by omega)
  rw [hun, take_left' (length_encode _)] at hgot
  rw [hun, drop_left' (length_encode _)] at hrest
  -- the data
  obtain ⟨hret', hgot', hrest', hst'⟩ := readblock_of_le hst p.data.length
    (by rw [hrest, length_append]; omega)
  rw [hrest, take_left] at hgot'
  rw [hrest, drop_left] at hrest'
  rw [getpacket_of_header hret hgot, hgot', if_neg (not_not.mpr hret')]
  refine ⟨?_, hrest', hst'⟩
  rw [Got.seen, Option.map_some, toInt_length, Int.toNat_natCast, take_writeAt_zero]
  rfl

lemma getpacket_of_short (h : Steady fd) (hun : unread fd <+: p.bytes)
    (hlt : (unread fd).length < p.bytes.length) (buf : Bytes) :
    (getpacket fd buf).seen = none ∧ (getpacket fd buf).fd = [] := by
  rw [length_bytes] at hlt
  by_cases hhead : (unread fd).length < headlen
  · obtain ⟨hret, hfd⟩ := readblock_of_lt h headlen hhead
    rw [getpacket, if_pos hret]
    exact ⟨rfl, hfd⟩
  · obtain ⟨hret, hgot, hrest, hst⟩ := readblock_of_le h headlen (by omega)
    -- the header is there, the data is not
    have htake : (unread fd).take headlen = p.header.encode := by
      obtain ⟨t, ht⟩ := hun
      have htakes := congrArg (List.take headlen) ht
      rwa [take_append_of_le_length (by omega), Packet.bytes,
        take_left' (length_encode _)] at htakes
    obtain ⟨hret', hfd'⟩ := readblock_of_lt hst p.data.length
      (by rw [hrest, length_drop]; omega)
    rw [getpacket_of_header hret (hgot.trans htake), if_pos hret']
    exact ⟨rfl, hfd'⟩

lemma getpacket_of_nil (h : Steady fd) (hun : unread fd = []) (buf : Bytes) :
    (getpacket fd buf).seen = none ∧ (getpacket fd buf).fd = [] := by
  obtain ⟨hret, hfd⟩ := readblock_of_lt h headlen (by rw [hun]; decide)
  rw [getpacket, if_pos hret]
  exact ⟨rfl, hfd⟩

lemma steady_nil : Steady [] := ⟨by simp [Arriving], by simp⟩

lemma getpackets_nil (k : ℕ) (buf : Bytes) : getpackets k [] buf = List.replicate k (none, []) := by
  induction k generalizing buf with
  | zero => rfl
  | succ k ih =>
    obtain ⟨hseen, hfd⟩ := getpacket_of_nil steady_nil rfl buf
    rw [getpackets, hseen, hfd, ih, replicate_succ]

/-! ## The packets that come out -/

lemma whole_spec (n : ℕ) (ps : List Packet) :
    whole n ps ≤ ps.length ∧ (stream (ps.take (whole n ps))).length ≤ n ∧
      (whole n ps < ps.length → n < (stream (ps.take (whole n ps + 1))).length) := by
  induction ps generalizing n with
  | nil => exact ⟨Nat.le_refl 0, Nat.zero_le n, fun h => absurd h (Nat.lt_irrefl 0)⟩
  | cons p ps ih =>
    unfold whole
    split
    · rename_i hle
      obtain ⟨hlen, hfront, hnext⟩ := ih (n - p.bytes.length)
      simp only [take_succ_cons, stream, flatMap_cons, length_append, length_cons] at hfront hnext ⊢
      exact ⟨by omega, by omega, fun h => by have := hnext (by omega); omega⟩
    · rename_i hgt
      refine ⟨Nat.zero_le _, Nat.zero_le n, fun _ => ?_⟩
      simp only [take_succ_cons, take_zero, stream, flatMap_cons, flatMap_nil, append_nil]
      omega

lemma whole_stream (ps : List Packet) : whole (stream ps).length ps = ps.length := by
  induction ps with
  | nil => rfl
  | cons p ps ih =>
    have hlen : (stream (p :: ps)).length = p.bytes.length + (stream ps).length := by
      rw [stream, flatMap_cons, length_append, stream]
    rw [whole, hlen, if_pos (Nat.le_add_right _ _), Nat.add_sub_cancel_left, ih, length_cons]

lemma getpackets_spec (h : Steady fd) {ps : List Packet} (hun : unread fd <+: stream ps) (k : ℕ)
    (buf : Bytes) :
    (getpackets k fd buf).map Prod.fst =
        ((ps.take (whole (unread fd).length ps)).map (fun p : Packet => some p.toFields) ++
          List.replicate k none).take k ∧
      ∀ r ∈ getpackets k fd buf, r.1 = none → r.2 = [] := by
  induction k generalizing fd ps buf with
  | zero => simp [getpackets]
  | succ k ih =>
    by_cases hwhole : whole (unread fd).length ps = 0
    · -- no further packet has arrived as a whole
      have hfail : (getpacket fd buf).seen = none ∧ (getpacket fd buf).fd = [] := by
        cases ps with
        | nil => exact getpacket_of_nil h (prefix_nil.mp hun) buf
        | cons p ps =>
          have hlt : (unread fd).length < p.bytes.length := by
            by_contra hge
            rw [whole, if_pos (by omega)] at hwhole
            omega
          exact getpacket_of_short h
            (prefix_of_prefix_length_le hun (prefix_append _ _) hlt.le) hlt buf
      obtain ⟨hseen, hfd⟩ := hfail
      rw [getpackets, hseen, hfd, getpackets_nil, hwhole]
      constructor
      · simp [replicate_succ]
      · simp
    · -- the next packet is there
      cases ps with
      | nil => exact absurd rfl hwhole
      | cons p ps =>
        have hle : p.bytes.length ≤ (unread fd).length := by
          by_contra hlt
          rw [whole, if_neg hlt] at hwhole
          exact hwhole rfl
        obtain ⟨rest, hrest⟩ := prefix_of_prefix_length_le (prefix_append _ _) hun hle
        obtain ⟨hseen, hunread, hst⟩ := getpacket_of_prefix h hrest.symm buf
        have hlen : (unread fd).length - p.bytes.length = rest.length := by
          rw [← hrest, length_append, Nat.add_sub_cancel_left]
        have hprefix : unread (getpacket fd buf).fd <+: stream ps := by
          rw [hunread]
          rw [← hrest] at hun
          exact (prefix_append_right_inj _).mp hun
        obtain ⟨hmap, hends⟩ := ih hst hprefix (getpacket fd buf).buf
        rw [hunread] at hmap
        rw [whole, if_pos hle, hlen]
        constructor
        · -- one failing call more or less does not show among the first `k`
          have htake (l : List (Option Fields)) : (l ++ List.replicate (k + 1) none).take k =
              (l ++ List.replicate k none).take k := by
            rw [replicate_succ', ← append_assoc, take_append_of_le_length (by simp)]
          rw [getpackets, map_cons, hmap, hseen, take_succ_cons, map_cons,
            cons_append, take_succ_cons, htake]
        · intro r hr hnone
          rw [getpackets] at hr
          rcases mem_cons.mp hr with rfl | hr
          · rw [hseen] at hnone
            cases hnone
          · exact hends r hr hnone

/-- Packets are sent with `putpacket`, the stream is cut anywhere and arrives in any pieces, with
short counts and interruptions anywhere.  Then `putpacket` returns 0 or does not return; `k` calls
of `getpacket` return the packets that have arrived as a whole, in order, and then fail, each at the
end of the stream; and these are all if all of them were sent and the stream was not cut. -/
theorem getpackets_of_putpackets (ps : List Packet) {out : List Departure} (hout : Interrupted out)
    {fd : List Arrival} (hfd : Steady fd) (hstream : unread fd <+: (putpackets out ps).2) (k : ℕ)
    (buf : Bytes) :
    (∀ r ∈ (putpackets out ps).1, r = 0) ∧
      (getpackets k fd buf).map Prod.fst =
        ((ps.take (whole (unread fd).length ps)).map (fun p : Packet => some p.toFields) ++
          List.replicate k none).take k ∧
      (∀ r ∈ getpackets k fd buf, r.1 = none → r.2 = []) ∧
      ((putpackets out ps).1.length = ps.length → unread fd = (putpackets out ps).2 →
        whole (unread fd).length ps = ps.length) := by
  obtain ⟨hrets, hprefix, hall⟩ := putpackets_spec hout ps
  obtain ⟨hmap, hends⟩ := getpackets_spec hfd (hstream.trans hprefix) k buf
  refine ⟨hrets, hmap, hends, fun hlen hun => ?_⟩
  rw [hun, hall hlen]
  exact whole_stream ps

lemma two_le_MAX_PACK_SIZE : ([65, 66] : Bytes).length ≤ MAX_PACK_SIZE := by decide

def samplePacket : Packet where
  compid := 3
  taskid := -1
  type := 1
  data := [65, 66]
  fits := two_le_MAX_PACK_SIZE

/-- Two packets, the second of which is cut off in its data: three calls of `getpacket` return the
first packet and fail twice. -/
theorem getpackets_of_putpackets_cut : (getpackets 3
        [.bytes [3, 0, 0, 0, 255, 255], .error 4, .bytes [255, 255, 1, 0, 0, 0, 2, 0, 0, 0, 65],
          .bytes [66, 3, 0, 0, 0, 255, 255, 255, 255, 1, 0, 0, 0, 2, 0, 0, 0, 65]]
        (List.replicate 1024 0)).map Prod.fst =
      [some ⟨3, -1, 1, [65, 66]⟩, none, none] := by
  have hout : Interrupted [.bytes 7, .error 4, .bytes 100, .bytes 100, .bytes 100, .bytes 100] := by
    simp [Interrupted, EINTR]
  have hfd : Steady [.bytes [3, 0, 0, 0, 255, 255], .error 4,
      .bytes [255, 255, 1, 0, 0, 0, 2, 0, 0, 0, 65],
      .bytes [66, 3, 0, 0, 0, 255, 255, 255, 255, 1, 0, 0, 0, 2, 0, 0, 0, 65]] :=
    ⟨by simp [Arriving], by simp [EINTR]⟩
  obtain ⟨-, hmap, -⟩ := getpackets_of_putpackets [samplePacket, samplePacket] hout hfd
    (by decide) 3 (List.replicate 1024 0)
  rw [hmap]
  decide

end UnixPrograms.Packets
