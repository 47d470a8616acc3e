import UnixPrograms.Lib.Memory

/-!
# The attributes of a netlink message (`netlink_user.c`)

The walk of `genlmsg_recv` over the attributes is bounded by the length in the header, which is not
compared with the number of bytes received.  Where the two leave no room for an attribute that goes
beyond these bytes (`Harmless`), none is printed; otherwise some content has one that is.
-/

namespace UnixPrograms.NetlinkUser

open Function List

def nlmsgHdrlen : ℕ := 16

def genlHdrlen : ℕ := 4

/-- The size of `nl_response_msg`, which is taken to stand at the address 0. -/
def responseSize : ℕ := nlmsgHdrlen + genlHdrlen + 256

def lenField (m : Mem) (nla : ℕ) : ℕ := getField 2 m nla

/-- `nla_type`; the two highest bits are flags. -/
def nlaType (m : Mem) (nla : ℕ) : ℕ := getField 2 m (nla + 2) % 2 ^ 14

/-- `nla_ok`.  The first comparison is one of unsigned numbers, the last one is signed. -/
def nlaOk (m : Mem) (nla : ℕ) (remaining : ℤ) : Prop :=
  4 ≤ ofSigned 8 remaining ∧ 4 ≤ lenField m nla ∧ (lenField m nla : ℤ) ≤ remaining

instance (m : Mem) (nla : ℕ) (remaining : ℤ) : Decidable (nlaOk m nla remaining) :=
  inferInstanceAs (Decidable (_ ∧ _ ∧ _))

/-- `NLA_ALIGN` of the length, by which `nla_next` goes on. -/
def totlen (m : Mem) (nla : ℕ) : ℕ := (lenField m nla + 3) / 4 * 4

/-- The loop of `nla_parse` without a policy; `tb` leads to the last attribute of each type. -/
def nlaParse (m : Mem) (maxtype nla : ℕ) (rem : ℤ) (tb : ℕ → Option ℕ) : ℕ → Option ℕ :=
  if nlaOk m nla rem then
    let type := nlaType m nla
    nlaParse m maxtype (nla + totlen m nla) (rem - totlen m nla)
      (if type > maxtype then tb else update tb type (some nla))
  else tb
termination_by rem.toNat
decreasing_by
  rename_i h
  obtain ⟨-, hlen, hrem⟩ := h
  have : 4 ≤ totlen m nla := by
    unfold totlen
    omega
  omega

structure Datagram where
  bytes : List UInt8
  length_le : bytes.length ≤ responseSize

def received (m : Mem) (d : Datagram) : Mem :=
  writeBytes (writeBytes m 0 (replicate responseSize 0)) 0 d.bytes

/-- The attributes that are printed of the message, with their addresses and declared lengths. -/
def printed (m : Mem) : List (ℕ × ℕ) :=
  let nlaLength := wrapSigned 4 (getField 4 m 0 - genlHdrlen - nlmsgHdrlen)
  let tb := nlaParse m 2 (nlmsgHdrlen + genlHdrlen) nlaLength fun _ => none
  ([1, 2].filterMap tb).map fun nla => (nla, lenField m nla)

/-- The loop of `genlmsg_recv`, which ends when `recv` fails. -/
def genlmsgRecv (m : Mem) : List Datagram → List (List (ℕ × ℕ))
  | [] => []
  | d :: ds => printed (received m d) :: genlmsgRecv (received m d) ds

/-- The length in the header of the datagram, where bytes that are missing are zero. -/
def Datagram.nlmsgLen (d : Datagram) : ℕ := decodeLE ((d.bytes ++ replicate 4 0).take 4)

/-! ## Where the attributes lie -/

variable {m : Mem} {d : Datagram} {a n nla : ℕ} {rem : ℤ} {tb : ℕ → Option ℕ}

lemma received_inside (m : Mem) (d : Datagram) (h : a < responseSize) :
    received m d a = d.bytes.getD a 0 := by
  rcases lt_or_ge a d.bytes.length with hlt | hge
  · simp [received, writeBytes, hlt]
  · simp [received, writeBytes, hge.not_gt, h]

/-- What lies behind the buffer is left alone. -/
lemma received_behind (m : Mem) (d : Datagram) (h : responseSize ≤ a) : received m d a = m a := by
  have hd := d.length_le
  simp [received, writeBytes, h.not_gt, (hd.trans h).not_gt]

lemma getField_received (m : Mem) (d : Datagram) : getField 4 (received m d) 0 = d.nlmsgLen := by
  have hread : readBytes (received m d) 0 4 = (d.bytes ++ replicate 4 0).take 4 := by
    refine ext_getElem (by simp) fun i hi _ => ?_
    have hi : i < 4 := by simpa using hi
    have hsize : i < responseSize := hi.trans (by decide)
    simp only [readBytes, getElem_map, getElem_range, Nat.zero_add, getElem_take,
      received_inside m d hsize]
    rcases lt_or_ge i d.bytes.length with hlt | hge
    · rw [getElem_append_left hlt, getD_eq_getElem?_getD, getElem?_eq_getElem hlt, Option.getD_some]
    · rw [getElem_append_right hge, getElem_replicate, getD_eq_getElem?_getD,
        getElem?_eq_none hge, Option.getD_none]
  rw [getField, hread, Datagram.nlmsgLen]

lemma lenField_eq (m : Mem) (nla : ℕ) :
    lenField m nla = (m nla).toNat + 256 * (m (nla + 1)).toNat := by
  simp [lenField, getField, readBytes, range_succ, decodeLE]

lemma nlaType_eq (m : Mem) (nla : ℕ) :
    nlaType m nla = ((m (nla + 2)).toNat + 256 * (m (nla + 3)).toNat) % 2 ^ 14 := by
  simp [nlaType, getField, readBytes, range_succ, decodeLE]

lemma decodeLE_lt (bs : List UInt8) : decodeLE bs < 256 ^ bs.length := by
  induction bs with
  | nil => simp [decodeLE]
  | cons b bs ih =>
    have hb := b.toNat_lt
    rw [decodeLE, length_cons, pow_succ]
    omega

lemma nlmsgLen_lt (d : Datagram) : d.nlmsgLen < 2 ^ 32 := by
  have h := decodeLE_lt ((d.bytes ++ replicate 4 0).take 4)
  rwa [length_take, min_eq_left (by simp)] at h

/-- `nla_length`: the length in the header without the two headers, as an `int`. -/
def Datagram.nlaLength (d : Datagram) : ℤ :=
  if d.nlmsgLen < 2 ^ 31 + 20 then d.nlmsgLen - 20 else d.nlmsgLen - 20 - 2 ^ 32

lemma nlaLength_received (m : Mem) (d : Datagram) :
    wrapSigned 4 (getField 4 (received m d) 0 - genlHdrlen - nlmsgHdrlen) = d.nlaLength := by
  have hlt := nlmsgLen_lt d
  rw [getField_received]
  unfold wrapSigned toSigned ofSigned genlHdrlen nlmsgHdrlen Datagram.nlaLength
  norm_num
  split_ifs <;> omega

lemma mem_printed {p : ℕ × ℕ} : p ∈ printed (received m d) ↔ ∃ nla,
    (nlaParse (received m d) 2 20 d.nlaLength (fun _ => none) 1 = some nla ∨
      nlaParse (received m d) 2 20 d.nlaLength (fun _ => none) 2 = some nla) ∧
      (nla, lenField (received m d) nla) = p := by
  simp only [printed, nlaLength_received]
  simp [nlmsgHdrlen, genlHdrlen]

/-- Each attribute lies, with its declared length, inside the bytes received. -/
def Inside (d : Datagram) (attrs : List (ℕ × ℕ)) : Prop :=
  ∀ a ∈ attrs, a.1 + a.2 ≤ d.bytes.length

/-- No attribute can go beyond `n` bytes received with the length `len` in the header: `len` does
not go beyond them, or there is no room for an attribute, or all that is read of its header are
zeros. -/
def Harmless (n len : ℕ) : Prop :=
  len ≤ n ∨ len < 24 ∨ 2 ^ 31 + 20 ≤ len ∨ n ≤ 20 ∨ n ≤ 22 ∧ len < 280

/-! ## Harmless datagrams -/

lemma end_le_of_nlaParse {maxtype type q : ℕ}
    (h : nlaParse m maxtype nla rem tb type = some q) :
    tb type = some q ∨ (q + lenField m q : ℤ) ≤ nla + rem := by
  fun_induction nlaParse m maxtype nla rem tb with
  | case1 nla rem tb hok t ih =>
    obtain ⟨-, -, hlen⟩ := hok
    rcases ih h with htb | hle
    · split_ifs at htb
      · exact .inl htb
      by_cases htype : type = t
      · rw [htype, update_self] at htb
        obtain rfl := Option.some.inj htb
        exact .inr (by omega)
      · exact .inl (by rwa [update_of_ne htype] at htb)
    · exact .inr (by push_cast at hle; omega)
  | case2 nla rem tb _ => exact .inl h

lemma nlaParse_of_lt {maxtype : ℕ} (h : rem < 4 ∨ lenField m nla < 4) :
    nlaParse m maxtype nla rem tb = tb := by
  rw [nlaParse, if_neg]
  rintro ⟨-, hlen, hrem⟩
  omega

lemma lenField_received (m : Mem) (hd : d.bytes.length ≤ nla) (h : nla + 1 < responseSize) :
    lenField (received m d) nla = 0 := by
  rw [lenField_eq, received_inside m d (by omega), received_inside m d h]
  simp [getElem?_eq_none hd, getElem?_eq_none (hd.trans (Nat.le_succ nla))]

/-- Of an attribute whose type has not been received nothing is printed: the type is 0, and the
next one has the length 0 or no room. -/
lemma nlaParse_cut (m : Mem) (hd : d.bytes.length ≤ 22) (hlen : d.nlmsgLen < 280) {type : ℕ}
    (htype : type ≠ 0) :
    nlaParse (received m d) 2 20 d.nlaLength (fun _ => none) type = none := by
  have hzero : nlaType (received m d) 20 = 0 := by
    rw [nlaType_eq, received_inside m d (by decide), received_inside m d (by decide)]
    simp [getElem?_eq_none hd, getElem?_eq_none (hd.trans (Nat.le_succ 22))]
  have hrem : d.nlaLength = d.nlmsgLen - 20 := if_pos (by omega)
  rw [nlaParse]
  split
  · have hnext : d.nlaLength - totlen (received m d) 20 < 4 ∨
        lenField (received m d) (20 + totlen (received m d) 20) < 4 := by
      rcases lt_or_ge (totlen (received m d) 20) 256 with hlt | hge
      · refine .inr ?_
        rename_i hok
        obtain ⟨-, h4, -⟩ := hok
        have hmul : totlen (received m d) 20 % 4 = 0 := Nat.mul_mod_left _ 4
        have hpos : 4 ≤ totlen (received m d) 20 := by
          unfold totlen
          omega
        rw [lenField_received m (by omega) (by unfold responseSize nlmsgHdrlen genlHdrlen; omega)]
        decide
      · exact .inl (by omega)
    simp only [hzero]
    rw [nlaParse_of_lt hnext, if_neg (by decide), update_of_ne htype]
  · rfl

lemma inside_printed (m : Mem) (h : Harmless d.bytes.length d.nlmsgLen) :
    Inside d (printed (received m d)) := by
  intro p hp
  obtain ⟨nla, htype, rfl⟩ := mem_printed.mp hp
  have hsize : d.bytes.length ≤ 276 := d.length_le
  have hlt := nlmsgLen_lt d
  -- unless the length is within the bytes received, the index is empty
  have hnone (hi : nlaParse (received m d) 2 20 d.nlaLength (fun _ => none) = fun _ => none) :
      nla + lenField (received m d) nla ≤ d.bytes.length := by
    rw [hi] at htype
    simp at htype
  have hshort (hrem : d.nlaLength < 4) : nla + lenField (received m d) nla ≤ d.bytes.length :=
    hnone (nlaParse_of_lt (.inl hrem))
  rcases h with hle | hlen | hlen | hn | ⟨hn, hlen⟩
  · have hrem : d.nlaLength = d.nlmsgLen - 20 := if_pos (by omega)
    have hend : ((nla + lenField (received m d) nla : ℕ) : ℤ) ≤ 20 + d.nlaLength := by
      rcases htype with h | h <;> simpa using end_le_of_nlaParse h
    dsimp only
    omega
  · exact hshort (by unfold Datagram.nlaLength; split_ifs <;> omega)
  · exact hshort (by unfold Datagram.nlaLength; split_ifs <;> omega)
  · have hzero := lenField_received m hn (by decide)
    exact hnone (nlaParse_of_lt (.inr (by omega)))
  · rcases htype with h | h
    · rw [nlaParse_cut m hn hlen one_ne_zero] at h
      contradiction
    · rw [nlaParse_cut m hn hlen two_ne_zero] at h
      contradiction

/-! ## Attributes that go beyond -/

lemma outside_of_nlaParse (htb : ∃ q, tb 1 = some q ∧ n < q + lenField m q) (hn : n ≤ nla) :
    ∃ q, nlaParse m 2 nla rem tb 1 = some q ∧ n < q + lenField m q := by
  fun_induction nlaParse m 2 nla rem tb with
  | case1 nla rem tb hok t ih =>
    refine ih ?_ (by omega)
    obtain ⟨-, hlen, -⟩ := hok
    obtain ⟨q, hq, hout⟩ := htb
    split_ifs
    · exact ⟨q, hq, hout⟩
    by_cases ht : 1 = t
    · exact ⟨nla, by rw [← ht, update_self], by omega⟩
    · exact ⟨q, by rwa [update_of_ne ht], hout⟩
  | case2 nla rem tb _ => exact htb

lemma nlaOk_of_le (hlen : 4 ≤ lenField m nla) (hle : (lenField m nla : ℤ) ≤ rem)
    (hrem : rem < 2 ^ 32) : nlaOk m nla rem := by
  refine ⟨?_, hlen, hle⟩
  unfold ofSigned
  rw [Int.emod_eq_of_lt (by omega) (hrem.trans (by norm_num))]
  omega

/-- An attribute of the type 1 that ends behind `n`: it is printed, or a later one is. -/
lemma outside_of_nlaOk (hok : nlaOk m nla rem) (htype : nlaType m nla = 1)
    (hn : n < nla + lenField m nla) :
    ∃ q, nlaParse m 2 nla rem tb 1 = some q ∧ n < q + lenField m q := by
  have hnext : n ≤ nla + totlen m nla := by
    unfold totlen
    omega
  rw [nlaParse, if_pos hok]
  simp only [htype]
  exact outside_of_nlaParse ⟨nla, by rw [if_neg (by decide), update_self], hn⟩ hnext

/-- The datagram with another attribute of the type 1 and the length `len`, as far as it goes. -/
def Datagram.withAttr (d : Datagram) (len : ℕ) : Datagram where
  bytes := (d.bytes.take 20 ++ (encodeLE 2 len ++ (1 :: replicate responseSize 0))).take
    d.bytes.length
  length_le := (length_take_le ..).trans d.length_le

/-- An attribute of the type 1 in the memory behind the buffer. -/
def Behind (m : Mem) : Prop := lenField m 276 = 4 ∧ nlaType m 276 = 1

lemma Behind.received (h : Behind m) (d : Datagram) : Behind (received m d) := by
  unfold Behind at *
  rw [lenField_eq, nlaType_eq] at *
  rwa [received_behind m d (by decide), received_behind m d (by decide),
    received_behind m d (by decide), received_behind m d (by decide)]

def Datagram.counts (d : Datagram) : ℕ × ℕ := (d.bytes.length, d.nlmsgLen)

lemma counts_withAttr (h : 20 ≤ d.bytes.length) (len : ℕ) : (d.withAttr len).counts = d.counts := by
  have hsize : d.bytes.length ≤ 276 := d.length_le
  have hlength : (d.withAttr len).bytes.length = d.bytes.length := by
    simp only [Datagram.withAttr, length_take, length_append, length_cons, length_replicate,
      length_encodeLE]
    unfold responseSize nlmsgHdrlen genlHdrlen
    omega
  refine Prod.ext hlength ?_
  unfold Datagram.counts Datagram.nlmsgLen
  dsimp only
  rw [take_append_of_le_length (by omega), take_append_of_le_length (by omega)]
  unfold Datagram.withAttr
  rw [take_take, min_eq_left (by omega), take_append_of_le_length (by simp; omega), take_take,
    min_eq_left (by decide)]

lemma received_withAttr (m : Mem) (len i : ℕ) (hd : 20 ≤ d.bytes.length) (hi : i < 256) :
    received m (d.withAttr len) (20 + i) = if 20 + i < d.bytes.length then
      (encodeLE 2 len ++ (1 :: replicate responseSize 0)).getD i 0 else 0 := by
  rw [received_inside _ _ (by unfold responseSize nlmsgHdrlen genlHdrlen; omega)]
  unfold Datagram.withAttr
  rw [getD_eq_getElem?_getD, getElem?_take]
  split
  · rw [getElem?_append_right (by simp), length_take, min_eq_left hd, Nat.add_sub_cancel_left,
      getD_eq_getElem?_getD]
  · rfl

lemma lenField_withAttr (m : Mem) (len : ℕ) (hd : 20 < d.bytes.length) (hlen : len < 2 ^ 16)
    (h : 22 ≤ d.bytes.length ∨ len < 256) : lenField (received m (d.withAttr len)) 20 = len := by
  have h₀ := received_withAttr m len 0 hd.le (by decide)
  have h₁ := received_withAttr m len 1 hd.le (by decide)
  rw [if_pos hd] at h₀
  rw [lenField_eq, h₀, h₁]
  split_ifs
  · simp [encodeLE]
    omega
  · simp [encodeLE]
    omega

lemma nlaType_withAttr (m : Mem) (len : ℕ) (hd : 20 ≤ d.bytes.length) :
    nlaType (received m (d.withAttr len)) 20 = if 22 < d.bytes.length then 1 else 0 := by
  have h₂ := received_withAttr m len 2 hd (by decide)
  have h₃ := received_withAttr m len 3 hd (by decide)
  rw [nlaType_eq, h₂, h₃]
  have hpos : 0 < responseSize := by decide
  split_ifs <;> simp [encodeLE, hpos]

/-- A datagram that is not harmless has another content of which an attribute is printed that goes
beyond the bytes received. -/
lemma exists_outside (h : ¬ Harmless d.bytes.length d.nlmsgLen) :
    ∃ d' : Datagram, d'.counts = d.counts ∧
      ∀ m, Behind m → ¬ Inside d' (printed (received m d')) := by
  have hsize : d.bytes.length ≤ 276 := d.length_le
  have hd : 20 < d.bytes.length := by
    unfold Harmless at h
    omega
  have hrem : d.nlaLength = d.nlmsgLen - 20 := if_pos (by unfold Harmless at h; omega)
  -- the address of an attribute of the index is that of one that is printed
  have hprinted {m : Mem} {len : ℕ} (hout : ∃ q,
      nlaParse (received m (d.withAttr len)) 2 20 d.nlaLength (fun _ => none) 1 = some q ∧
        d.bytes.length < q + lenField (received m (d.withAttr len)) q) :
      ¬ Inside (d.withAttr len) (printed (received m (d.withAttr len))) := by
    obtain ⟨hlength, hlen⟩ : (d.withAttr len).bytes.length = d.bytes.length ∧
        (d.withAttr len).nlmsgLen = d.nlmsgLen := Prod.ext_iff.mp (counts_withAttr hd.le len)
    obtain ⟨q, hq, hlt⟩ := hout
    have hnla : (d.withAttr len).nlaLength = d.nlaLength := by
      unfold Datagram.nlaLength
      rw [hlen]
    intro hin
    have hle := hin _ (mem_printed.mpr ⟨q, .inl (by rwa [hnla]), rfl⟩)
    rw [hlength] at hle
    exact absurd hlt hle.not_gt
  have hlt := nlmsgLen_lt d
  rcases lt_or_ge 22 d.bytes.length with hn | hn
  · -- the header of the attribute has been received: it ends one byte behind the last one
    refine ⟨d.withAttr (d.bytes.length - 19), counts_withAttr hd.le _, fun m _ => hprinted ?_⟩
    have hlen := lenField_withAttr m (d.bytes.length - 19) hd (by omega) (.inl hn.le)
    have htype := nlaType_withAttr m (d.bytes.length - 19) hd.le
    rw [if_pos hn] at htype
    refine outside_of_nlaOk (nlaOk_of_le ?_ ?_ ?_) htype ?_ <;> unfold Harmless at h <;> omega
  · -- its type is 0, and the next one lies behind the buffer
    refine ⟨d.withAttr 253, counts_withAttr hd.le _, fun m hm => hprinted ?_⟩
    have hlen := lenField_withAttr m 253 hd (by decide) (.inr (by decide))
    have htype := nlaType_withAttr m 253 hd.le
    obtain ⟨hlen', htype'⟩ := hm.received (d.withAttr 253)
    have htotlen : totlen (received m (d.withAttr 253)) 20 = 256 := by rw [totlen, hlen]
    rw [if_neg hn.not_gt] at htype
    rw [nlaParse, if_pos (nlaOk_of_le ?_ ?_ ?_), htotlen, show 20 + 256 = 276 from rfl]
    · refine outside_of_nlaOk (nlaOk_of_le ?_ ?_ ?_) htype' ?_ <;> unfold Harmless at h <;> omega
    all_goals unfold Harmless at h; omega

/-! ## Sequences of datagrams -/

lemma genlmsgRecv_inside {ds : List Datagram}
    (h : ∀ d ∈ ds, Harmless d.bytes.length d.nlmsgLen) (m : Mem) :
    Forall₂ Inside ds (genlmsgRecv m ds) := by
  induction ds generalizing m with
  | nil => exact .nil
  | cons d ds ih =>
    exact .cons (inside_printed m (h d (mem_cons_self ..)))
      (ih (fun d' hd' => h d' (mem_cons_of_mem _ hd')) _)

lemma exists_genlmsgRecv_outside {ds : List Datagram} (hd : d ∈ ds)
    (h : ¬ Harmless d.bytes.length d.nlmsgLen) (hm : Behind m) :
    ∃ ds' : List Datagram, ds'.map Datagram.counts = ds.map Datagram.counts ∧
      ¬ Forall₂ Inside ds' (genlmsgRecv m ds') := by
  induction ds generalizing m with
  | nil => exact absurd hd not_mem_nil
  | cons e ds ih =>
    rcases mem_cons.mp hd with rfl | hd
    · obtain ⟨d', hcounts, hout⟩ := exists_outside h
      refine ⟨d' :: ds, by rw [map_cons, map_cons, hcounts], fun hall => ?_⟩
      exact hout m hm (forall₂_cons.mp hall).1
    · obtain ⟨ds', hcounts, hout⟩ := ih hd (hm.received e)
      refine ⟨e :: ds', by rw [map_cons, map_cons, hcounts], fun hall => ?_⟩
      exact hout (forall₂_cons.mp hall).2

/-- Whatever else is in the datagrams and behind the buffer, every attribute printed lies inside the
bytes received in its datagram exactly if every datagram is harmless by the number of bytes received
and the length in its header. -/
theorem genlmsgRecv_inside_iff (ds : List Datagram) :
    (∀ (m : Mem) (ds' : List Datagram), ds'.map Datagram.counts = ds.map Datagram.counts →
      Forall₂ Inside ds' (genlmsgRecv m ds')) ↔
    ∀ d ∈ ds, Harmless d.bytes.length d.nlmsgLen := by
  constructor
  · intro hall d hd
    by_contra h
    have hm : Behind (update (update (fun _ => 0) 276 4) 278 1) := ⟨by decide, by decide⟩
    obtain ⟨ds', hcounts, hout⟩ := exists_genlmsgRecv_outside hd h hm
    exact hout (hall _ ds' hcounts)
  · intro h m ds' hcounts
    refine genlmsgRecv_inside (fun d' hd' => ?_) m
    have hmem : d'.counts ∈ ds.map Datagram.counts := hcounts ▸ mem_map_of_mem hd'
    obtain ⟨d, hd, heq⟩ := mem_map.mp hmem
    obtain ⟨hn, hlen⟩ : d.bytes.length = d'.bytes.length ∧ d.nlmsgLen = d'.nlmsgLen :=
      Prod.ext_iff.mp heq
    exact hn ▸ hlen ▸ h d hd

def overstated : Datagram where
  bytes := 120 :: (replicate 19 0 ++ [100, 0, 1, 0])
  length_le := by decide

/-- The attribute is printed, and ends at 120. -/
theorem genlmsgRecv_overstated : ∃ attrs, genlmsgRecv (fun _ => 0) [overstated] = [attrs] ∧
    (20, 100) ∈ attrs ∧ overstated.bytes.length < 20 + 100 := by
  refine ⟨_, rfl, ?_, by decide⟩
  have hfirst : nlaOk (received (fun _ => 0) overstated) 20 100 := by decide
  have hlast : ¬ nlaOk (received (fun _ => 0) overstated) 120 0 := by decide
  have htotlen : totlen (received (fun _ => 0) overstated) 20 = 100 := by decide
  have htb : nlaParse (received (fun _ => 0) overstated) 2 20 100 (fun _ => none) =
      update (fun _ => none) 1 (some 20) := by
    rw [nlaParse, if_pos hfirst, htotlen]
    exact (nlaParse.eq_1 ..).trans (if_neg hlast)
  exact mem_map.mpr ⟨20, mem_filterMap.mpr ⟨1, by simp, congrFun htb 1⟩, rfl⟩

end UnixPrograms.NetlinkUser
