import UnixPrograms.Mymq.Sections

/-!
# The size of a new message queue

`mymq_open` computes the size of the file in 64-bit arithmetic, without a bound on its arguments,
and counts the slots with an `int`.  The slots lie in the file one behind the other if and only if
the true size is below `2 ^ 63` and there are at most `2 ^ 31` of them (`mymqOpen_laidOut_iff`).
-/

namespace UnixPrograms.Mymq

open List

/-! ## The loop of `mymq_open` -/

/-- `index += sizeof(struct mymsg_hdr) + msgsize`: a sum of `unsigned long`s, stored in a `long`. -/
def addSlot (step : ℕ) (index : ℤ) : ℤ := toSigned 8 ((toULong index + step) % 2 ^ 64)

/-- The values of `index` in the loop of `mymq_open` with `n` rounds to go, and behind it. -/
def slotLoop (step : ℕ) : ℕ → ℤ → List ℤ
  | 0, index => [index]
  | n + 1, index => index :: slotLoop step n (addSlot step index)

/-- The offsets of the slots that `mymq_open` lays out.  As for `mymqOpen`, there are none if the
attributes are refused, nor if the `int` which counts the slots overflows. -/
def slotOffsets (attr : MymqAttr) : Option (List ℤ) :=
  if attr.mqMaxmsg ≤ 0 ∨ attr.mqMsgsize ≤ 0 then none
  else if attr.mqMaxmsg - 1 > INT_MAX then none
  else
    some (slotLoop ((sizeofMymsgHdr + msgSizeMacro attr.mqMsgsize) % 2 ^ 64)
      (attr.mqMaxmsg - 1).toNat sizeofMymqHdr)

/-- The slots at `os` are all there, aligned, apart and inside the file. -/
structure LaidOut (attr : MymqAttr) (os : List ℤ) : Prop where
  size : SizeExact attr
  length : (os.length : ℤ) = attr.mqMaxmsg
  disjoint : os.Pairwise fun o o' => o + sizeofMymsgHdr + attr.mqMsgsize ≤ o' ∨
    o' + sizeofMymsgHdr + attr.mqMsgsize ≤ o
  aligned : ∀ o ∈ os, (sizeofLong : ℤ) ∣ o
  /-- A header and a message have room behind the header of the queue and before the end of the
  file. -/
  inside : ∀ o ∈ os, sizeofMymqHdr ≤ o ∧ o + sizeofMymsgHdr + attr.mqMsgsize ≤ filesize attr

/-! ## Sizes without an overflow -/

variable {N Z : ℕ} {attr : MymqAttr}

lemma toSigned_mod_of_lt {v : ℕ} (h : v < 2 ^ 63) : toSigned 8 (v % 2 ^ 64) = v := by
  have hmod : v % 2 ^ 64 = v := Nat.mod_eq_of_lt (h.trans (by norm_num))
  rw [hmod, toSigned, if_pos (by norm_num; omega)]

lemma toULong_of_lt {v : ℕ} (h : v < 2 ^ 63) : toULong v = v := by
  unfold toULong ofSigned
  norm_num
  omega

/-- The loop goes from slot to slot as long as the last one is below `2 ^ 63`. -/
lemma slotLoop_eq {step n index : ℕ} (h : index + n * step < 2 ^ 63) :
    slotLoop step n index = (range (n + 1)).map fun i => ((index + i * step : ℕ) : ℤ) := by
  induction n generalizing index with
  | zero => simp [slotLoop]
  | succ n ih =>
    have hmul : (n + 1) * step = n * step + step := Nat.succ_mul n step
    have hadd : addSlot step index = (index + step : ℕ) := by
      rw [addSlot, toULong_of_lt (by omega), toSigned_mod_of_lt (by omega)]
    rw [slotLoop, hadd, ih (by omega), range_succ_eq_map (n := n + 1), map_cons,
      map_map]
    refine congrArg₂ _ (by simp) (map_congr_left fun i _ => ?_)
    simp only [Function.comp_apply, Nat.succ_mul]
    congr 1
    omega

lemma Fits.slotSize_lt (hN : 0 < N) (hfit : Fits N Z) : slotSize Z < 2 ^ 63 := by
  have hone : 1 * slotSize Z ≤ N * slotSize Z := Nat.mul_le_mul_right _ hN
  unfold Fits at hfit
  omega

lemma Fits.sizeExact (hmax : 0 < attr.mqMaxmsg) (hsize : 0 < attr.mqMsgsize)
    (hfit : Fits attr.mqMaxmsg.toNat attr.mqMsgsize.toNat) : SizeExact attr := by
  have hstep := step_eq_slotSize hmax hsize hfit
  obtain ⟨N, hN⟩ := Int.eq_ofNat_of_zero_le hmax.le
  obtain ⟨Z, hZ⟩ := Int.eq_ofNat_of_zero_le hsize.le
  rw [hN, hZ, Int.toNat_natCast, Int.toNat_natCast] at hfit
  have hslot := hfit.slotSize_lt (by omega)
  have hpos : 0 < slotSize Z := (Nat.lt_add_right Z (by decide)).trans_le (le_slotSize Z)
  have hmul : N * 1 ≤ N * slotSize Z := Nat.mul_le_mul_left _ hpos
  unfold Fits at hfit
  rw [SizeExact, filesize, hstep, hN, hZ, Int.toNat_natCast,
    Nat.mod_eq_of_lt (hslot.trans (by norm_num)), toULong_of_lt (by omega),
    toSigned_mod_of_lt hfit]
  push_cast
  rfl

lemma Fits.slotOffsets_eq (hmax : 0 < attr.mqMaxmsg) (hsize : 0 < attr.mqMsgsize)
    (hfit : Fits attr.mqMaxmsg.toNat attr.mqMsgsize.toNat) (hint : attr.mqMaxmsg ≤ 2 ^ 31) :
    slotOffsets attr = some ((slots attr.mqMaxmsg.toNat attr.mqMsgsize.toNat).map Nat.cast) := by
  have hstep := step_eq_slotSize hmax hsize hfit
  obtain ⟨n, hn⟩ : ∃ n : ℕ, attr.mqMaxmsg = n + 1 := ⟨(attr.mqMaxmsg - 1).toNat, by omega⟩
  have hcount : attr.mqMaxmsg.toNat = n + 1 := by omega
  have hrounds : (attr.mqMaxmsg - 1).toNat = n := by omega
  rw [hcount] at hfit
  have hslot := hfit.slotSize_lt (Nat.succ_pos n)
  have hlast : n * slotSize attr.mqMsgsize.toNat ≤ (n + 1) * slotSize attr.mqMsgsize.toNat :=
    Nat.mul_le_mul_right _ (Nat.le_succ n)
  unfold Fits at hfit
  rw [slotOffsets, if_neg (by omega), if_neg (by unfold INT_MAX; omega), hstep,
    Nat.mod_eq_of_lt (hslot.trans (by norm_num)), hrounds, slotLoop_eq (by omega), hcount, slots,
    map_map]
  rfl

lemma sizeofLong_dvd_slot {o : ℕ} (ho : o ∈ slots N Z) : sizeofLong ∣ o := by
  obtain ⟨i, -, rfl⟩ := mem_map.mp ho
  have hslot : sizeofLong ∣ slotSize Z := Dvd.dvd.add (by decide) (Nat.dvd_mul_left _ _)
  exact Dvd.dvd.add (by decide) (hslot.mul_left i)

lemma Fits.laidOut (hmax : 0 < attr.mqMaxmsg) (hsize : 0 < attr.mqMsgsize)
    (hfit : Fits attr.mqMaxmsg.toNat attr.mqMsgsize.toNat) :
    LaidOut attr ((slots attr.mqMaxmsg.toNat attr.mqMsgsize.toNat).map Nat.cast) := by
  have hexact := hfit.sizeExact hmax hsize
  have hroom := le_slotSize attr.mqMsgsize.toNat
  refine ⟨hexact, ?_, ?_, ?_, ?_⟩
  · rw [length_map, slots, length_map, length_range]
    omega
  · rw [pairwise_map]
    refine (nodup_slots _ _).imp_of_mem fun {o o'} ho ho' hne => ?_
    rcases slots_apart ho ho' hne with h | h
    · exact .inl (by omega)
    · exact .inr (by omega)
  · intro _ hmem
    obtain ⟨o, ho, rfl⟩ := mem_map.mp hmem
    exact Int.natCast_dvd_natCast.mpr (sizeofLong_dvd_slot ho)
  · intro _ hmem
    obtain ⟨o, ho, rfl⟩ := mem_map.mp hmem
    obtain ⟨hlo, hhi⟩ := slot_bounds ho
    have hsum : filesize attr = (sizeofMymqHdr + attr.mqMaxmsg.toNat *
        slotSize attr.mqMsgsize.toNat : ℕ) := by
      rw [hexact]
      push_cast
      rw [Int.toNat_of_nonneg hmax.le]
    rw [hsum]
    exact ⟨by exact_mod_cast hlo, by omega⟩

/-! ## The result -/

/-- `mymq_open` computes the true size and lays the slots out as it should exactly if the size is
below `2 ^ 63` and the slots can be counted with an `int`. -/
theorem mymqOpen_laidOut_iff (hmax : 0 < attr.mqMaxmsg) (hsize : 0 < attr.mqMsgsize) :
    (∃ os, slotOffsets attr = some os ∧ LaidOut attr os) ↔
      Fits attr.mqMaxmsg.toNat attr.mqMsgsize.toNat ∧ attr.mqMaxmsg ≤ 2 ^ 31 := by
  constructor
  · rintro ⟨os, hos, hout⟩
    refine ⟨hout.size.fits hmax, ?_⟩
    by_contra hlarge
    rw [slotOffsets, if_neg (by omega), if_pos (by unfold INT_MAX; omega)] at hos
    cases hos
  · rintro ⟨hfit, hint⟩
    exact ⟨_, hfit.slotOffsets_eq hmax hsize hint, hfit.laidOut hmax hsize⟩

theorem mymqOpen_laidOut_iff_defattr : (0 < defattr.mqMaxmsg ∧ 0 < defattr.mqMsgsize) ∧
    ∃ os, slotOffsets defattr = some os ∧ LaidOut defattr os := by
  have hpos : 0 < defattr.mqMaxmsg ∧ 0 < defattr.mqMsgsize := by decide
  refine ⟨hpos, (mymqOpen_laidOut_iff hpos.1 hpos.2).mpr ⟨?_, by decide⟩⟩
  unfold Fits
  decide

def hugeAttr : MymqAttr where
  mqMaxmsg := 2 ^ 31
  mqMsgsize := 2 ^ 33 - 24

/-- The slots of this queue take `2 ^ 64` bytes, and the file gets the size of the header.  The
second slot is laid out far behind its end. -/
theorem mymqOpen_size_wraps : (0 < hugeAttr.mqMaxmsg ∧ 0 < hugeAttr.mqMsgsize) ∧
    filesize hugeAttr = sizeofMymqHdr ∧
    ∃ os, slotOffsets hugeAttr = some os ∧ (sizeofMymqHdr + 2 ^ 33 : ℤ) ∈ os ∧
      ¬ LaidOut hugeAttr os := by
  have hfile : filesize hugeAttr = sizeofMymqHdr := by decide
  have hfirst : addSlot (2 ^ 33) sizeofMymqHdr = sizeofMymqHdr + 2 ^ 33 := by decide
  have hstep : (sizeofMymsgHdr + msgSizeMacro hugeAttr.mqMsgsize) % 2 ^ 64 = 2 ^ 33 := by decide
  have hrounds : (hugeAttr.mqMaxmsg - 1).toNat = 2 ^ 31 - 2 + 1 := by decide
  have hmem : (sizeofMymqHdr + 2 ^ 33 : ℤ) ∈ slotLoop (2 ^ 33) (2 ^ 31 - 2 + 1) sizeofMymqHdr := by
    rw [slotLoop, hfirst]
    refine mem_cons_of_mem _ ?_
    cases hn : 2 ^ 31 - 2 with
    | zero => cases hn
    | succ n =>
      rw [slotLoop]
      exact mem_cons_self
  refine ⟨by decide, hfile, _, ?_, hmem, fun hout => ?_⟩
  · rw [slotOffsets, if_neg (by decide), if_neg (by decide), hstep, hrounds]
  · have hend := (hout.inside _ hmem).2
    rw [hfile] at hend
    revert hend
    decide

end UnixPrograms.Mymq
