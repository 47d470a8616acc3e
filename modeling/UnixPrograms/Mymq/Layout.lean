import UnixPrograms.Lib.LinkedCells
import UnixPrograms.Mymq.Model

/-!
# The slots of a message queue do not overlap

The queue functions store into a field of the header or a pointer cell, or fill a slot with a
message.  For each of these stores this file says what every other part of the file reads
afterwards.
-/

namespace UnixPrograms.Mymq

/-- The bytes that one slot takes: its header, and the message size rounded up to a multiple of
`sizeof(long)`. -/
def slotSize (msgsize : ℕ) : ℕ :=
  sizeofMymsgHdr + (msgsize + (sizeofLong - 1)) / sizeofLong * sizeofLong

def slots (maxmsg msgsize : ℕ) : List ℕ :=
  (List.range maxmsg).map fun i => sizeofMymqHdr + i * slotSize msgsize

/-- A queue of this size fits into a file: its size does not overflow a `long`. -/
def Fits (maxmsg msgsize : ℕ) : Prop := sizeofMymqHdr + maxmsg * slotSize msgsize < 2 ^ 63

/-- The pointer cells: the heads of the two lists, and `msg_next` of each slot. -/
def IsCell (maxmsg msgsize a : ℕ) : Prop :=
  a = HdrField.mqhHead.addr ∨ a = HdrField.mqhFree.addr ∨ a ∈ slots maxmsg msgsize

def NextCell (m : Mem) (a v : ℕ) : Prop := getNext m a = v

@[ext] structure Msg where
  prio : ℕ
  body : List UInt8
  deriving DecidableEq

def msgAt (m : Mem) (o : ℕ) : Msg where
  prio := getPrio m o
  body := getBody m o (getLen m o)

@[simp] lemma msgAt_prio (m : Mem) (o : ℕ) : (msgAt m o).prio = getPrio m o := rfl

@[simp] lemma msgAt_body (m : Mem) (o : ℕ) : (msgAt m o).body = getBody m o (getLen m o) := by
  rw [msgAt]

def fillSlot (m : Mem) (o : ℕ) (msg : List UInt8) (prio : ℕ) : Mem :=
  writeBytes (setLen (setPrio m o prio) o msg.length) (o + sizeofMymsgHdr) msg

variable {N Z : ℕ}

lemma le_slotSize (Z : ℕ) : sizeofMymsgHdr + Z ≤ slotSize Z := by
  unfold slotSize sizeofLong
  omega

variable {o a : ℕ} {f : HdrField}

lemma slot_bounds (ho : o ∈ slots N Z) :
    sizeofMymqHdr ≤ o ∧ o + slotSize Z ≤ sizeofMymqHdr + N * slotSize Z := by
  obtain ⟨i, hi, rfl⟩ := List.mem_map.mp ho
  have hle : (i + 1) * slotSize Z ≤ N * slotSize Z :=
    Nat.mul_le_mul_right _ (List.mem_range.mp hi)
  rw [Nat.add_mul, Nat.one_mul] at hle
  exact ⟨Nat.le_add_right _ _, by omega⟩

lemma slot_range (hfit : Fits N Z) (ho : o ∈ slots N Z) : o ≠ 0 ∧ o < 256 ^ 8 := by
  obtain ⟨h1, h2⟩ := slot_bounds ho
  unfold Fits at hfit
  unfold sizeofMymqHdr at *
  exact ⟨by omega, by norm_num; omega⟩

lemma nodup_slots (N Z : ℕ) : (slots N Z).Nodup := by
  refine List.nodup_range.map fun i j h => ?_
  have hpos : 0 < slotSize Z := by
    have := le_slotSize Z
    unfold sizeofMymsgHdr at this
    omega
  exact Nat.eq_of_mul_eq_mul_right hpos (Nat.add_left_cancel h)

lemma slots_apart {n : ℕ} (ho : o ∈ slots N Z) (hn : n ∈ slots N Z) (hne : o ≠ n) :
    o + slotSize Z ≤ n ∨ n + slotSize Z ≤ o := by
  obtain ⟨i, -, rfl⟩ := List.mem_map.mp ho
  obtain ⟨j, -, rfl⟩ := List.mem_map.mp hn
  rcases lt_trichotomy i j with h | rfl | h
  · have hle : (i + 1) * slotSize Z ≤ j * slotSize Z := Nat.mul_le_mul_right _ h
    rw [Nat.add_mul, Nat.one_mul] at hle
    exact .inl (by omega)
  · exact absurd rfl hne
  · have hle : (j + 1) * slotSize Z ≤ i * slotSize Z := Nat.mul_le_mul_right _ h
    rw [Nat.add_mul, Nat.one_mul] at hle
    exact .inr (by omega)

lemma hdrField_end (f : HdrField) : f.addr + f.size ≤ sizeofMymqHdr := by
  cases f <;> decide

lemma hdrField_apart {g : HdrField} (h : f ≠ g) : Apart f.addr f.size g.addr g.size := by
  cases f <;> cases g <;>
    first | exact absurd rfl h | exact .inl (by decide) | exact .inr (by decide)

lemma isCell_apart {b : ℕ} (ha : IsCell N Z a) (hb : IsCell N Z b) (hne : a ≠ b) :
    Apart a sizeofLong b sizeofLong := by
  have hsize := le_slotSize Z
  have hslot : ∀ {o}, o ∈ slots N Z → sizeofMymqHdr ≤ o := fun h => (slot_bounds h).1
  unfold Apart sizeofLong
  unfold sizeofMymsgHdr at hsize
  unfold sizeofMymqHdr at hslot
  rcases ha with rfl | rfl | ha <;> rcases hb with rfl | rfl | hb
  · exact absurd rfl hne
  · exact .inl (by decide)
  · have := hslot hb
    exact .inl (by change 32 + 8 ≤ b; omega)
  · exact .inr (by decide)
  · exact absurd rfl hne
  · have := hslot hb
    exact .inl (by change 40 + 8 ≤ b; omega)
  · have := hslot ha
    exact .inr (by change 32 + 8 ≤ a; omega)
  · have := hslot ha
    exact .inr (by change 40 + 8 ≤ a; omega)
  · rcases slots_apart ha hb hne with h | h
    · exact .inl (by omega)
    · exact .inr (by omega)

/-! ## Stores into the header -/

/-- The values that a header field of this size can hold. -/
def HdrField.InRange (f : HdrField) (v : ℤ) : Prop :=
  -(256 ^ f.size : ℕ) ≤ 2 * v ∧ 2 * v < (256 ^ f.size : ℕ)

lemma getHdr_setHdr (m : Mem) {v : ℤ} (h : f.InRange v) : getHdr (setHdr m f v) f = v :=
  getSigned_setSigned m _ h.1 h.2

lemma getHdr_setHdr_of_ne (m : Mem) {g : HdrField} (v : ℤ) (h : g ≠ f) :
    getHdr (setHdr m f v) g = getHdr m g := by
  rw [getHdr, getSigned, setHdr, setSigned, getField_setField_of_apart m (hdrField_apart h)]
  rfl

lemma getNext_setHdr (m : Mem) (v : ℤ) (ha : IsCell N Z a) (hf : f ≠ .mqhHead ∧ f ≠ .mqhFree) :
    getNext (setHdr m f v) a = getNext m a := by
  refine getField_setField_of_apart m ?_
  rcases ha with rfl | rfl | ha
  · exact hdrField_apart hf.1.symm
  · exact hdrField_apart hf.2.symm
  · exact .inr ((hdrField_end f).trans (slot_bounds ha).1)

lemma msgAt_setHdr (m : Mem) (f : HdrField) (v : ℤ) (ho : o ∈ slots N Z) :
    msgAt (setHdr m f v) o = msgAt m o ∧ getLen (setHdr m f v) o = getLen m o := by
  have hlt : ∀ {k n}, Apart (o + k) n f.addr f.size := fun {k n} =>
    .inr ((hdrField_end f).trans ((slot_bounds ho).1.trans (Nat.le_add_right o k)))
  have hlen : getLen (setHdr m f v) o = getLen m o := by
    rw [getLen, getSigned, setHdr, setSigned, getField_setField_of_apart m hlt]
    rfl
  refine ⟨Msg.ext ?_ ?_, hlen⟩
  · exact getField_setField_of_apart m hlt
  · rw [msgAt_body, msgAt_body, hlen]
    exact readBytes_setField_of_apart m hlt

/-! ## Stores into a pointer cell -/

lemma getNext_setNext (m : Mem) (a : ℕ) {v : ℕ} (hv : v < 256 ^ 8) :
    getNext (setNext m a v) a = v :=
  getField_setField m a hv

lemma getNext_setNext_of_ne (m : Mem) {b : ℕ} (v : ℕ) (ha : IsCell N Z a) (hb : IsCell N Z b)
    (hne : a ≠ b) : getNext (setNext m b v) a = getNext m a :=
  getField_setField_of_apart m (isCell_apart ha hb hne)

lemma getHdr_setNext (m : Mem) (v : ℕ) (ha : IsCell N Z a) (hf : f ≠ .mqhHead ∧ f ≠ .mqhFree) :
    getHdr (setNext m a v) f = getHdr m f := by
  rw [getHdr, getSigned, setNext, getField_setField_of_apart m ?_]
  · rfl
  · rcases ha with rfl | rfl | ha
    · exact hdrField_apart hf.1
    · exact hdrField_apart hf.2
    · exact .inl ((hdrField_end f).trans (slot_bounds ha).1)

lemma slot_rest_apart {k n : ℕ} (ho : o ∈ slots N Z) (ha : IsCell N Z a) (hk : sizeofLong ≤ k)
    (hn : k + n ≤ slotSize Z) : Apart (o + k) n a sizeofLong := by
  have hsize := le_slotSize Z
  have hb := (slot_bounds ho).1
  unfold sizeofLong at *
  unfold sizeofMymsgHdr at hsize
  unfold sizeofMymqHdr at hb
  rcases ha with rfl | rfl | ha
  · exact .inr (by change 32 + 8 ≤ o + k; omega)
  · exact .inr (by change 40 + 8 ≤ o + k; omega)
  · by_cases hne : a = o
    · exact .inr (by omega)
    · rcases slots_apart ha ho hne with h | h
      · exact .inr (by omega)
      · exact .inl (by omega)

lemma msgAt_setNext (m : Mem) (v : ℕ) (ho : o ∈ slots N Z) (ha : IsCell N Z a)
    (hlen : (getLen m o).toNat ≤ Z) :
    msgAt (setNext m a v) o = msgAt m o ∧ getLen (setNext m a v) o = getLen m o := by
  have hsize := le_slotSize Z
  unfold sizeofMymsgHdr at hsize
  have hlen' : getLen (setNext m a v) o = getLen m o := by
    rw [getLen, getSigned, setNext, getField_setField_of_apart m
      (slot_rest_apart ho ha (by decide) (by omega))]
    rfl
  refine ⟨Msg.ext ?_ ?_, hlen'⟩
  · exact getField_setField_of_apart m (slot_rest_apart ho ha (by decide) (by omega))
  · rw [msgAt_body, msgAt_body, hlen']
    exact readBytes_setField_of_apart m
      (slot_rest_apart ho ha (by decide) (by unfold sizeofMymsgHdr; omega))

/-! ## Filling a slot -/

section FillSlot

variable {n : ℕ} {msg : List UInt8} {prio : ℕ}

lemma getField_fillSlot (m : Mem) {a k : ℕ} (hmsg : msg.length ≤ Z)
    (hap : ∀ i j, 8 ≤ i → i + j ≤ slotSize Z → Apart a k (n + i) j) :
    getField k (fillSlot m n msg prio) a = getField k m a := by
  have hsize := le_slotSize Z
  have hbody := hap sizeofMymsgHdr msg.length (by decide) (by omega)
  unfold sizeofMymsgHdr at hsize
  rw [fillSlot, getField_writeBytes_of_apart _ hbody, setLen, setSigned,
    getField_setField_of_apart _ (hap 8 8 (by omega) (by omega)), setPrio,
    getField_setField_of_apart _ (hap 16 4 (by omega) (by omega))]

lemma getHdr_fillSlot (m : Mem) (f : HdrField) (hn : n ∈ slots N Z) (hmsg : msg.length ≤ Z) :
    getHdr (fillSlot m n msg prio) f = getHdr m f := by
  have hb := (slot_bounds hn).1
  have hf := hdrField_end f
  rw [getHdr, getSigned, getField_fillSlot m hmsg fun i j _ _ => .inl (by omega)]
  rfl

lemma getNext_fillSlot (m : Mem) {a : ℕ} (ha : IsCell N Z a) (hn : n ∈ slots N Z)
    (hmsg : msg.length ≤ Z) : getNext (fillSlot m n msg prio) a = getNext m a := by
  refine getField_fillSlot m hmsg fun i j hi hj => ?_
  have h := slot_rest_apart hn ha hi hj
  exact h.symm

lemma msgAt_fillSlot_of_ne (m : Mem) (prio : ℕ) {o : ℕ} (ho : o ∈ slots N Z) (hn : n ∈ slots N Z)
    (hne : o ≠ n) (hmsg : msg.length ≤ Z) (hlen : (getLen m o).toNat ≤ Z) :
    msgAt (fillSlot m n msg prio) o = msgAt m o ∧
      getLen (fillSlot m n msg prio) o = getLen m o := by
  have hsize := le_slotSize Z
  have hap := slots_apart ho hn hne
  unfold sizeofMymsgHdr at hsize
  have hlen' : getLen (fillSlot m n msg prio) o = getLen m o := by
    rw [getLen, getSigned, getField_fillSlot m hmsg fun i j hi hj => by unfold Apart; omega]
    rfl
  refine ⟨Msg.ext ?_ ?_, hlen'⟩
  · exact getField_fillSlot m hmsg fun i j hi hj => by unfold Apart; omega
  · rw [msgAt_body, msgAt_body, hlen']
    have hother : ∀ i j, 8 ≤ i → i + j ≤ slotSize Z →
        Apart (o + sizeofMymsgHdr) (getLen m o).toNat (n + i) j := by
      intro i j hi hj
      unfold Apart sizeofMymsgHdr
      omega
    unfold getBody
    rw [fillSlot, readBytes_writeBytes_of_apart _
        (hother sizeofMymsgHdr msg.length (by decide) (by unfold sizeofMymsgHdr; omega)),
      setLen, setSigned, readBytes_setField_of_apart _ (hother 8 8 (by omega) (by omega)), setPrio,
      readBytes_setField_of_apart _ (hother 16 4 (by omega) (by omega))]

lemma msgAt_fillSlot (m : Mem) (n : ℕ) (hmsg : 2 * msg.length < 256 ^ 8) (hprio : prio < 256 ^ 4) :
    msgAt (fillSlot m n msg prio) n = { prio := prio, body := msg } ∧
      getLen (fillSlot m n msg prio) n = msg.length := by
  have hlen : getLen (fillSlot m n msg prio) n = msg.length := by
    rw [getLen, getSigned, fillSlot, getField_writeBytes_of_apart _ (.inl (by
      unfold sizeofMymsgHdr; omega))]
    exact getSigned_setSigned _ _ (by push_cast; omega) (by push_cast; omega)
  refine ⟨Msg.ext ?_ ?_, hlen⟩
  · rw [msgAt_prio, getPrio, fillSlot,
      getField_writeBytes_of_apart _ (.inl (by unfold sizeofMymsgHdr; omega)), setLen,
      setSigned, getField_setField_of_apart _ (.inr (by omega)), setPrio,
      getField_setField _ _ hprio]
  · rw [msgAt_body, hlen]
    exact readBytes_writeBytes _ _ msg

end FillSlot

end UnixPrograms.Mymq
