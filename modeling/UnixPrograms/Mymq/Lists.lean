import UnixPrograms.Lib.PriorityQueue
import UnixPrograms.Mymq.Layout

/-!
# The two lists of a message queue

`TwoLists` says that two headed lists and some slots on neither make up all the slots, and
`WellFormed` adds the header and the messages.  `sendPut_spec` and `receiveTake_spec` are what the
second halves of `mymq_send` and `mymq_receive` do.
-/

namespace UnixPrograms.Mymq

open List HdrField

variable {N Z : ℕ}

/-- The list headed by `a` has the slots `L`, that headed by `b` the slots `F`, the slots `D` are on
neither list, and there are no others. -/
structure TwoLists (N Z : ℕ) (m : Mem) (a b : ℕ) (L F D : List ℕ) : Prop where
  /-- The heading cells are `mqh_head` and `mqh_free`. -/
  heads : (a = mqhHead.addr ∧ b = mqhFree.addr) ∨
    (a = mqhFree.addr ∧ b = mqhHead.addr)
  fst : Linked (NextCell m) a L
  snd : Linked (NextCell m) b F
  perm : (L ++ F ++ D).Perm (slots N Z)

variable {m' m : Mem} {L F : List ℕ} {n : ℕ} {msg : List UInt8}

lemma linked_congr {a : ℕ} {os : List ℕ} (h : Linked (NextCell m) a os)
    (hc : ∀ x ∈ a :: os, getNext m' x = getNext m x) : Linked (NextCell m') a os :=
  h.congr fun x hx _ hv => (hc x hx).trans hv

namespace TwoLists

variable {m m' : Mem} {a b n : ℕ} {L F D : List ℕ}

lemma symm (h : TwoLists N Z m a b L F D) : TwoLists N Z m b a F L D where
  heads := by
    rcases h.heads with ⟨ha, hb⟩ | ⟨ha, hb⟩
    · exact .inr ⟨hb, ha⟩
    · exact .inl ⟨hb, ha⟩
  fst := h.snd
  snd := h.fst
  perm := (perm_append_comm.append_right D).trans h.perm

variable {x : ℕ}

section

variable (h : TwoLists N Z m a b L F D)
include h

lemma mem_slots (hx : x ∈ L ++ F ++ D) : x ∈ slots N Z :=
  h.perm.mem_iff.mp hx

lemma isCell (hx : x ∈ a :: b :: (L ++ F ++ D)) : IsCell N Z x := by
  have hab : IsCell N Z a ∧ IsCell N Z b := by
    rcases h.heads with ⟨ha, hb⟩ | ⟨ha, hb⟩
    · exact ⟨.inl ha, .inr (.inl hb)⟩
    · exact ⟨.inr (.inl ha), .inl hb⟩
  rcases mem_cons.mp hx with rfl | hx
  · exact hab.1
  · rcases mem_cons.mp hx with rfl | hx
    · exact hab.2
    · exact .inr (.inr (h.mem_slots hx))

lemma congr (hc : ∀ x, IsCell N Z x → getNext m' x = getNext m x) : TwoLists N Z m' a b L F D where
  heads := h.heads
  fst := linked_congr h.fst fun x hx => hc x (h.isCell (by grind))
  snd := linked_congr h.snd fun x hx => hc x (h.isCell (by grind))
  perm := h.perm

lemma nodup : (a :: b :: (L ++ F ++ D)).Nodup := by
  have hhead : ∀ x ∈ L ++ F ++ D, sizeofMymqHdr ≤ x := fun x hx => (slot_bounds (h.mem_slots hx)).1
  have hnd : (L ++ F ++ D).Nodup := h.perm.nodup_iff.mpr (nodup_slots N Z)
  have hsmall : a < sizeofMymqHdr ∧ b < sizeofMymqHdr ∧ a ≠ b := by
    rcases h.heads with ⟨rfl, rfl⟩ | ⟨rfl, rfl⟩ <;> decide
  refine nodup_cons.mpr ⟨fun ha => ?_, nodup_cons.mpr ⟨fun hb => ?_, hnd⟩⟩
  · rcases mem_cons.mp ha with hab | ha
    · exact hsmall.2.2 hab
    · exact absurd (hhead a ha) (Nat.not_le.mpr hsmall.1)
  · exact absurd (hhead b hb) (Nat.not_le.mpr hsmall.2.1)

lemma nodup_fst : (a :: L).Nodup :=
  h.nodup.sublist (by simp [append_assoc])

lemma ne_of_mem {y : ℕ} (hx : x ∈ a :: (L ++ D)) (hy : y ∈ b :: F) : x ≠ y := by
  have hnd := h.nodup
  rintro rfl
  simp only [nodup_cons, nodup_append, mem_cons, mem_append] at hnd hx hy
  grind

end

lemma ne_of_mem_rest (h : TwoLists N Z m a b L F (n :: D)) (hx : x ∈ a :: b :: (L ++ F)) :
    x ≠ n := by
  have hnd := h.nodup
  rintro rfl
  simp only [nodup_cons, nodup_append, mem_cons, mem_append] at hnd hx
  grind

lemma headAddr_lt (h : TwoLists N Z m a b L F D) (hfit : Fits N Z) {V R : List ℕ}
    (hL : L = V ++ R) : headAddr R < 256 ^ 8 := by
  cases R with
  | nil => decide
  | cons x xs => exact (slot_range hfit (h.mem_slots (by simp [hL]))).2

lemma unlinkHead {o : ℕ} (h : TwoLists N Z m a b (o :: L) F D) (hfit : Fits N Z) :
    TwoLists N Z (setNext m a (getNext m o)) a b L F (o :: D) := by
  have hnext : getNext m o = headAddr L := h.fst.2.2.cell_head
  have ha : IsCell N Z a := h.isCell mem_cons_self
  refine ⟨h.heads, ?_, ?_, ?_⟩
  · refine @Linked.unlink (NextCell m) _ [] L a o h.fst ?_ (fun x hx hxa v hv => ?_) h.nodup_fst
    · rw [hnext]
      exact getNext_setNext m a (h.headAddr_lt hfit (V := [o]) rfl)
    · exact (getNext_setNext_of_ne m _ (h.isCell (by grind)) ha hxa).trans hv
  · refine linked_congr h.snd fun x hx => ?_
    exact getNext_setNext_of_ne m _ (h.isCell (by grind)) ha (h.ne_of_mem (by simp) hx).symm
  · refine List.Perm.trans ?_ h.perm
    rw [cons_append, cons_append]
    exact perm_middle

/-- Link a slot that is on neither list into the first one, behind the slots `V`. -/
lemma link {V R : List ℕ} (h : TwoLists N Z m a b (V ++ R) F (n :: D)) (hfit : Fits N Z) :
    TwoLists N Z (setNext (setNext m n (headAddr R)) (lastCell a V) n) a b (V ++ n :: R) F D := by
  have hn : n ∈ slots N Z := h.mem_slots (by simp)
  have hncell : IsCell N Z n := .inr (.inr hn)
  have hlast : lastCell a V ∈ a :: (V ++ R) := by
    have := lastCell_mem a V
    grind
  have hlastcell : IsCell N Z (lastCell a V) := h.isCell (by grind)
  have hother : ∀ x ∈ a :: b :: (V ++ R ++ F), x ≠ lastCell a V →
      getNext (setNext (setNext m n (headAddr R)) (lastCell a V) n) x = getNext m x := by
    intro x hx hxl
    have hxcell : IsCell N Z x := h.isCell (by grind)
    rw [getNext_setNext_of_ne _ _ hxcell hlastcell hxl,
      getNext_setNext_of_ne m _ hxcell hncell (h.ne_of_mem_rest hx)]
  refine ⟨h.heads, ?_, ?_, ?_⟩
  · refine h.fst.insert (slot_range hfit hn).1 ?_ ?_ (fun x hx hxl v hv => ?_) h.nodup_fst
    · exact getNext_setNext _ _ (slot_range hfit hn).2
    · have hne : n ≠ lastCell a V := (h.ne_of_mem_rest (by grind)).symm
      exact (getNext_setNext_of_ne _ _ hncell hlastcell hne).trans
        (getNext_setNext m n (h.headAddr_lt hfit rfl))
    · exact (hother x (by grind) hxl).trans hv
  · refine linked_congr h.snd fun x hx => hother x (by grind) ?_
    exact (h.ne_of_mem (by grind) hx).symm
  · refine List.Perm.trans ?_ h.perm
    have hmid : (V ++ n :: R).Perm (n :: (V ++ R)) := perm_middle
    exact ((hmid.append_right F).append_right D).trans perm_middle.symm

end TwoLists

/-! ## Changes of pointer cells only -/

/-- The two memories differ in pointer cells only, as far as the queue can tell. -/
structure Rewired (N Z : ℕ) (m m' : Mem) : Prop where
  hdr : ∀ f, f ≠ .mqhHead ∧ f ≠ .mqhFree → getHdr m' f = getHdr m f
  msg : ∀ o ∈ slots N Z, (getLen m o).toNat ≤ Z →
    msgAt m' o = msgAt m o ∧ getLen m' o = getLen m o

lemma rewired_setNext (m : Mem) (v : ℕ) {a : ℕ} (ha : IsCell N Z a) :
    Rewired N Z m (setNext m a v) where
  hdr _ hf := getHdr_setNext m v ha hf
  msg _ ho hlen := msgAt_setNext m v ho ha hlen

lemma Rewired.trans {m₁ m₂ m₃ : Mem} (h : Rewired N Z m₁ m₂) (h' : Rewired N Z m₂ m₃) :
    Rewired N Z m₁ m₃ where
  hdr f hf := (h'.hdr f hf).trans (h.hdr f hf)
  msg o ho hlen := by
    obtain ⟨hm, hl⟩ := h.msg o ho hlen
    obtain ⟨hm', hl'⟩ := h'.msg o ho (by rwa [hl])
    exact ⟨hm'.trans hm, hl'.trans hl⟩

/-! ## Well-formed queues -/

def messages (m : Mem) (os : List ℕ) : List Msg := os.map (msgAt m)

lemma messages_setHdr (f : HdrField) (v : ℤ) (hL : ∀ o ∈ L, o ∈ slots N Z) :
    messages (setHdr m f v) L = messages m L :=
  map_congr_left fun o ho => (msgAt_setHdr m f v (hL o ho)).1

/-- A queue for `N` messages of `Z` bytes with messages in the slots `L` and free slots `F`. -/
structure WellFormed (N Z : ℕ) (m : Mem) (L F : List ℕ) : Prop where
  maxmsg : getHdr m .mqMaxmsg = N
  msgsize : getHdr m .mqMsgsize = Z
  curmsgs : getHdr m .mqCurmsgs = L.length
  lists : TwoLists N Z m mqhHead.addr mqhFree.addr L F []
  len : ∀ o ∈ L, 0 ≤ getLen m o ∧ (getLen m o).toNat ≤ Z
  sorted : (messages m L).Pairwise fun x y => y.prio ≤ x.prio

namespace WellFormed

variable {m : Mem} {L F : List ℕ}

section

variable (h : WellFormed N Z m L F)
include h

lemma length_add : L.length + F.length = N := by
  have hp := h.lists.perm.length_eq
  simpa [slots] using hp

lemma getNext_free : getNext m mqhFree.addr = headAddr F :=
  h.lists.snd.cell_head

lemma getNext_head : getNext m mqhHead.addr = headAddr L :=
  h.lists.fst.cell_head

lemma setHdr (f : HdrField) (v : ℤ)
    (hf : f ∉ [mqMaxmsg, .mqMsgsize, .mqCurmsgs, .mqhHead, .mqhFree]) :
    WellFormed N Z (setHdr m f v) L F := by
  simp only [mem_cons, not_mem_nil, or_false, not_or] at hf
  have hslot : ∀ o ∈ L, o ∈ slots N Z := fun o ho => h.lists.mem_slots (by simp [ho])
  refine ⟨?_, ?_, ?_, ?_, fun o ho => ?_, ?_⟩
  · rw [getHdr_setHdr_of_ne m v (Ne.symm hf.1), h.maxmsg]
  · rw [getHdr_setHdr_of_ne m v (Ne.symm hf.2.1), h.msgsize]
  · rw [getHdr_setHdr_of_ne m v (Ne.symm hf.2.2.1), h.curmsgs]
  · exact h.lists.congr fun x hx => getNext_setHdr m v hx hf.2.2.2
  · rw [(msgAt_setHdr m f v (hslot o ho)).2]
    exact h.len o ho
  · rw [messages_setHdr f v hslot]
    exact h.sorted

end

end WellFormed

lemma wellFormed_setCurmsgs {k : ℤ} (hmax : getHdr m .mqMaxmsg = N)
    (hsize : getHdr m .mqMsgsize = Z)
    (hlists : TwoLists N Z m mqhHead.addr mqhFree.addr L F [])
    (hlen : ∀ o ∈ L, 0 ≤ getLen m o ∧ (getLen m o).toNat ≤ Z)
    (hsorted : (messages m L).Pairwise fun x y => y.prio ≤ x.prio) (hk : k = L.length)
    (hfit : Fits N Z) : WellFormed N Z (setHdr m .mqCurmsgs k) L F := by
  have hslot : ∀ o ∈ L, o ∈ slots N Z := fun o ho => hlists.mem_slots (by simp [ho])
  have hlong : 2 * (L.length + 1) < 256 ^ 8 := by
    have hp := hlists.perm.length_eq
    have hle : N * 24 ≤ N * slotSize Z :=
      Nat.mul_le_mul_left N ((Nat.le_add_right _ _).trans (le_slotSize Z))
    simp only [slots, length_append, length_map, length_range, length_nil] at hp
    unfold Fits at hfit
    norm_num
    omega
  refine ⟨?_, ?_, ?_, ?_, fun o ho => ?_, ?_⟩
  · rw [getHdr_setHdr_of_ne m k (by decide), hmax]
  · rw [getHdr_setHdr_of_ne m k (by decide), hsize]
  · rw [getHdr_setHdr m (f := .mqCurmsgs) ⟨by norm_num [size]; omega,
      by norm_num [size]; omega⟩, hk]
  · exact hlists.congr fun x hx => getNext_setHdr m k hx (by decide)
  · rw [(msgAt_setHdr m .mqCurmsgs k (hslot o ho)).2]
    exact hlen o ho
  · rw [messages_setHdr .mqCurmsgs k hslot]
    exact hsorted

/-! ## The second half of `mymq_send` -/

/-- The insertion loop, entered behind the slots `V` with the slots `R` ahead, links the new slot in
behind the slots of at least its priority. -/
lemma insertLoop_eq {D R : List ℕ} (prio : UInt32) :
    ∀ {V : List ℕ} {fuel : ℕ},
      TwoLists N Z m mqhHead.addr mqhFree.addr (V ++ R) F (n :: D) →
      R.length < fuel →
      insertLoop prio n fuel m (headAddr R) (lastCell mqhHead.addr V) =
        some (setNext (setNext m n (headAddr (R.dropWhile fun o => prio.toNat ≤ getPrio m o)))
          (lastCell mqhHead.addr (V ++ R.takeWhile fun o => prio.toNat ≤ getPrio m o)) n)
    := by
  induction R with
  | nil =>
    intro V fuel h hfuel
    obtain ⟨fuel, rfl⟩ := Nat.exists_eq_succ_of_ne_zero (Nat.ne_of_gt hfuel)
    have hlast : lastCell mqhHead.addr V ∈ mqhHead.addr :: V := lastCell_mem _ V
    have hap : Apart n sizeofLong (lastCell mqhHead.addr V) sizeofLong :=
      isCell_apart (h.isCell (by grind)) (h.isCell (by grind)) (h.ne_of_mem_rest (by grind)).symm
    rw [insertLoop, headAddr_nil, if_pos rfl, takeWhile_nil, dropWhile_nil,
      append_nil, headAddr_nil]
    exact congrArg some (setField_comm m hap)
  | cons o R ih =>
    intro V fuel h hfuel
    obtain ⟨fuel, rfl⟩ := Nat.exists_eq_succ_of_ne_zero (Nat.ne_of_gt (Nat.zero_lt_of_lt hfuel))
    have htail := h.fst.drop_prefix
    rw [insertLoop, headAddr_cons, if_neg htail.2.1]
    by_cases hp : prio.toNat > getPrio m o
    · rw [if_pos hp, takeWhile_cons_of_neg (by simpa using hp),
        dropWhile_cons_of_neg (by simpa using hp), append_nil, headAddr_cons]
    · have hV : V ++ o :: R = V ++ [o] ++ R := by simp
      have hnext : getNext m o = headAddr R := htail.2.2.cell_head
      have hrec := @ih (V ++ [o]) fuel (by rwa [← hV]) (Nat.lt_of_succ_lt_succ hfuel)
      rw [lastCell_append_singleton] at hrec
      rw [if_neg hp, hnext, hrec, takeWhile_cons_of_pos (by simpa using hp),
        dropWhile_cons_of_pos (by simpa using hp), append_assoc, singleton_append]

/-- The header is the same but for the two lists and their count. -/
def SameAttr (m m' : Mem) : Prop :=
  ∀ f, f ∉ [mqCurmsgs, .mqhHead, .mqhFree] → getHdr m' f = getHdr m f

/-- The slot `n` holds the new message `x` and is on neither list; nothing else has changed. -/
structure Taken (N Z : ℕ) (m m' : Mem) (L F : List ℕ) (n : ℕ) (x : Msg) : Prop where
  lists : TwoLists N Z m' mqhHead.addr mqhFree.addr L F [n]
  hdr : ∀ f, f ≠ .mqhHead ∧ f ≠ .mqhFree → getHdr m' f = getHdr m f
  msg : ∀ o ∈ L, msgAt m' o = msgAt m o ∧ getLen m' o = getLen m o
  new : msgAt m' n = x ∧ 0 ≤ getLen m' n ∧ (getLen m' n).toNat ≤ Z

lemma taken_fillSlot (prio : UInt32) (h : WellFormed N Z m L (n :: F)) (hfit : Fits N Z)
    (hmsg : msg.length ≤ Z) :
    Taken N Z m (setNext (fillSlot m n msg prio.toNat) mqhFree.addr
      (getNext (fillSlot m n msg prio.toNat) n)) L F n { prio := prio.toNat, body := msg } := by
  have hn : n ∈ slots N Z := h.lists.mem_slots (by simp)
  have hlists : TwoLists N Z (fillSlot m n msg prio.toNat) mqhHead.addr
      mqhFree.addr L (n :: F) [] :=
    h.lists.congr fun x hx => getNext_fillSlot m hx hn hmsg
  have hrew : Rewired N Z (fillSlot m n msg prio.toNat) _ :=
    rewired_setNext _ (getNext (fillSlot m n msg prio.toNat) n) (.inr (.inl rfl))
  have hlong : 2 * msg.length < 256 ^ 8 := by
    have hb := slot_bounds hn
    have hs := le_slotSize Z
    unfold Fits at hfit
    norm_num
    omega
  have hnew := msgAt_fillSlot m n hlong prio.toNat_lt
  refine ⟨(hlists.symm.unlinkHead hfit).symm, fun f hf => ?_, fun o ho => ?_, ?_⟩
  · rw [hrew.hdr f hf, getHdr_fillSlot m f hn hmsg]
  · have hos : o ∈ slots N Z := h.lists.mem_slots (by simp [ho])
    have hon : o ≠ n := h.lists.ne_of_mem (by simp [ho]) (by simp)
    obtain ⟨hm, hl⟩ := msgAt_fillSlot_of_ne m prio.toNat hos hn hon hmsg (h.len o ho).2
    obtain ⟨hm', hl'⟩ := hrew.msg o hos (by rw [hl]; exact (h.len o ho).2)
    exact ⟨hm'.trans hm, hl'.trans hl⟩
  · obtain ⟨hm, hl⟩ := hrew.msg n hn (by rw [hnew.2]; exact hmsg)
    rw [hm, hl, hnew.1, hnew.2]
    exact ⟨rfl, Int.natCast_nonneg _, hmsg⟩

/-- The slots `L'` hold the messages of `L` and the new one in its place. -/
structure Inserted (N Z : ℕ) (m m' : Mem) (L L' F : List ℕ) (x : Msg) : Prop where
  lists : TwoLists N Z m' mqhHead.addr mqhFree.addr L' F []
  hdr : ∀ f, f ≠ .mqhHead ∧ f ≠ .mqhFree → getHdr m' f = getHdr m f
  len : ∀ o ∈ L', 0 ≤ getLen m' o ∧ (getLen m' o).toNat ≤ Z
  messages_eq : messages m' L' = insertPrio Msg.prio x (messages m L)

/-- Linking the new slot in between `V` and `R` inserts the message, if the messages in `V` are
those of at least its priority. -/
lemma Taken.link {x : Msg} (h : Taken N Z m m' L F n x) (hfit : Fits N Z)
    (hlen : ∀ o ∈ L, 0 ≤ getLen m o ∧ (getLen m o).toNat ≤ Z) {V R : List ℕ}
    (hV : V = L.takeWhile fun o => x.prio ≤ getPrio m' o)
    (hR : R = L.dropWhile fun o => x.prio ≤ getPrio m' o) :
    Inserted N Z m (setNext (setNext m' n (headAddr R)) (lastCell mqhHead.addr V) n) L
      (V ++ n :: R) F x := by
  have hsplit : L = V ++ R := by rw [hV, hR, takeWhile_append_dropWhile]
  have hlists := h.lists
  rw [hsplit] at hlists
  have hlast : IsCell N Z (lastCell mqhHead.addr V) := hlists.isCell (by
    have := lastCell_mem mqhHead.addr V
    grind)
  have hrew : Rewired N Z m' (setNext (setNext m' n (headAddr R))
      (lastCell mqhHead.addr V) n) :=
    (rewired_setNext m' _ (hlists.isCell (by simp))).trans (rewired_setNext _ n hlast)
  have hmsg : ∀ o ∈ V ++ n :: R, 0 ≤ getLen m' o ∧ (getLen m' o).toNat ≤ Z := by
    intro o ho
    rcases mem_cons.mp (perm_middle.mem_iff.mp ho) with rfl | ho
    · exact h.new.2
    · rw [← hsplit] at ho
      rw [(h.msg o ho).2]
      exact hlen o ho
  have hslot : ∀ o ∈ V ++ n :: R, o ∈ slots N Z := fun o ho => hlists.mem_slots (by grind)
  refine ⟨hlists.link hfit, fun f hf => (hrew.hdr f hf).trans (h.hdr f hf), fun o ho => ?_, ?_⟩
  · rw [(hrew.msg o (hslot o ho) (hmsg o ho).2).2]
    exact hmsg o ho
  · have hsame : messages m L = messages m' L :=
      map_congr_left fun o ho => ((h.msg o ho).1).symm
    have hnew : messages (setNext (setNext m' n (headAddr R)) (lastCell mqhHead.addr V) n)
        (V ++ n :: R) = messages m' (V ++ n :: R) :=
      map_congr_left fun o ho => (hrew.msg o (hslot o ho) (hmsg o ho).2).1
    rw [hnew, hsame, messages, messages, map_append, map_cons, h.new.1, insertPrio,
      takeWhile_map, dropWhile_map, hV, hR]
    rfl

lemma Taken.insertLoop {fuel : ℕ} {prio : UInt32}
    (h : Taken N Z m m' L F n { prio := prio.toNat, body := msg }) (hfit : Fits N Z)
    (hlen : ∀ o ∈ L, 0 ≤ getLen m o ∧ (getLen m o).toNat ≤ Z) (hfuel : L.length < fuel) :
    ∃ m₁ L', Mymq.insertLoop prio n fuel m' (getNext m' mqhHead.addr)
        mqhHead.addr = some m₁ ∧
      Inserted N Z m m₁ L L' F { prio := prio.toNat, body := msg } := by
  have hloop := insertLoop_eq (R := L) (V := []) prio h.lists hfuel
  have hhead : getNext m' mqhHead.addr = headAddr L := h.lists.fst.cell_head
  rw [nil_append, lastCell_nil, ← hhead] at hloop
  exact ⟨_, _, hloop, h.link hfit hlen rfl rfl⟩

lemma sendPut_spec {q : Queue} (prio : UInt32) (h : WellFormed N Z q.mem L F) (hfit : Fits N Z)
    (hmsg : msg.length ≤ Z) (hroom : L.length < N) :
    ∃ m' L' F', sendPut msg prio q =
        { shared := { q with mem := m' }
          wake := if L.length = 0 then some (.signal ()) else none
          exit := .ret .ok } ∧
      WellFormed N Z m' L' F' ∧ SameAttr q.mem m' ∧
      messages m' L' =
        insertPrio Msg.prio { prio := prio.toNat, body := msg } (messages q.mem L) := by
  obtain ⟨n, F, rfl⟩ : ∃ n F', F = n :: F' := by
    have := h.length_add
    exact exists_cons_of_length_pos (by omega)
  have htaken := taken_fillSlot prio h hfit hmsg
  obtain ⟨m₁, L', hloop, hins⟩ := htaken.insertLoop hfit h.len (Nat.lt_succ_of_lt hroom)
  have hfuel := htaken.hdr .mqMaxmsg (by decide)
  rw [h.maxmsg] at hfuel
  have hcur : getHdr m₁ .mqCurmsgs = L.length := by rw [hins.hdr _ (by decide), h.curmsgs]
  have hdel : Delivers Msg.prio (messages q.mem L) (messages q.mem L) := ⟨h.sorted, fun _ => rfl⟩
  have hdel' := hdel.insert { prio := prio.toNat, body := msg }
  rw [← hins.messages_eq] at hdel'
  have hlength := congrArg length hins.messages_eq
  rw [length_insertPrio, messages, messages, length_map, length_map] at hlength
  refine ⟨setHdr m₁ .mqCurmsgs (getHdr m₁ .mqCurmsgs + 1), L', F, ?_, ?_, fun f hf => ?_, ?_⟩
  · rw [fillSlot] at hloop hfuel
    simp only [sendPut, h.getNext_free, headAddr_cons, if_neg h.lists.snd.2.1, hfuel,
      Int.toNat_natCast, hloop]
    simp only [hcur, Int.natCast_eq_zero]
  · refine wellFormed_setCurmsgs ?_ ?_ hins.lists hins.len hdel'.sorted ?_ hfit
    · rw [hins.hdr _ (by decide), h.maxmsg]
    · rw [hins.hdr _ (by decide), h.msgsize]
    · rw [hcur, hlength, Nat.cast_succ]
  · simp only [mem_cons, not_mem_nil, or_false, not_or] at hf
    rw [getHdr_setHdr_of_ne m₁ _ hf.1, hins.hdr f hf.2]
  · rw [messages_setHdr _ _ fun o ho => hins.lists.mem_slots (by simp [ho]), hins.messages_eq]

/-! ## The second half of `mymq_receive` -/

lemma receiveTake_spec {q : Queue} {o : ℕ} (h : WellFormed N Z q.mem (o :: L) F) (hfit : Fits N Z) :
    ∃ m', receiveTake q =
        { shared := { q with mem := m' }
          wake := if L.length + 1 = N then some (.signal ()) else none
          exit := .ret (.received (msgAt q.mem o).body.length (msgAt q.mem o).body
            (msgAt q.mem o).prio) } ∧
      WellFormed N Z m' L (o :: F) ∧ SameAttr q.mem m' ∧ messages m' L = messages q.mem L := by
  have ho : o ∈ slots N Z := h.lists.mem_slots (by simp)
  have hslot : ∀ x ∈ L, x ∈ slots N Z := fun x hx => h.lists.mem_slots (by simp [hx])
  -- off the list of messages
  have hlists₁ := h.lists.unlinkHead hfit
  have hrew₁ : Rewired N Z q.mem (setNext q.mem mqhHead.addr (getNext q.mem o)) :=
    rewired_setNext _ _ (.inl rfl)
  obtain ⟨m₁, hm₁⟩ : ∃ m₁, m₁ = setNext q.mem mqhHead.addr (getNext q.mem o) := ⟨_, rfl⟩
  rw [← hm₁] at hlists₁ hrew₁
  have hfirst : getNext m₁ mqhFree.addr = headAddr F := hlists₁.snd.cell_head
  obtain ⟨hmsg₁, hlen₁⟩ := hrew₁.msg o ho (h.len o (by simp)).2
  -- and to the front of the free list
  have hlists := (hlists₁.symm.link (V := []) hfit).symm
  rw [lastCell_nil, nil_append] at hlists
  have hrew : Rewired N Z q.mem (setNext (setNext m₁ o (headAddr F)) mqhFree.addr o) :=
    hrew₁.trans ((rewired_setNext m₁ _ (.inr (.inr ho))).trans
      (rewired_setNext _ _ (.inr (.inl rfl))))
  obtain ⟨m₂, hm₂⟩ :
    ∃ m₂, m₂ = setNext (setNext m₁ o (headAddr F)) mqhFree.addr o := ⟨_, rfl⟩
  rw [← hm₂] at hlists hrew
  have hcur : getHdr m₂ .mqCurmsgs = L.length + 1 := by
    rw [hrew.hdr _ (by decide), h.curmsgs, length_cons, Nat.cast_succ]
  have hmax : getHdr m₂ .mqMaxmsg = N := by rw [hrew.hdr _ (by decide), h.maxmsg]
  have hkept : ∀ x ∈ L, msgAt m₂ x = msgAt q.mem x ∧ getLen m₂ x = getLen q.mem x :=
    fun x hx => hrew.msg x (hslot x hx) (h.len x (mem_cons_of_mem o hx)).2
  have hmsgs : messages m₂ L = messages q.mem L := map_congr_left fun x hx => (hkept x hx).1
  have hlen : ((msgAt q.mem o).body.length : ℤ) = getLen q.mem o := by
    rw [msgAt_body, getBody, length_readBytes]
    exact Int.toNat_of_nonneg (h.len o (by simp)).1
  have hbody : getBody m₁ o (getLen q.mem o) = (msgAt q.mem o).body := by
    rw [← hmsg₁, msgAt_body, hlen₁]
  refine ⟨setHdr m₂ .mqCurmsgs (getHdr m₂ .mqCurmsgs - 1), ?_, ?_, fun f hf => ?_, ?_⟩
  · simp only [receiveTake, h.getNext_head, headAddr_cons, if_neg h.lists.fst.2.1, ← hm₁, hfirst,
      ← hm₂, ← msgAt_prio, hmsg₁, hlen₁, hbody, hlen]
    simp only [hcur, hmax, ← Nat.cast_succ, Nat.cast_inj, Nat.succ_eq_add_one]
  · refine wellFormed_setCurmsgs hmax ?_ hlists (fun x hx => ?_) ?_ (by rw [hcur]; omega) hfit
    · rw [hrew.hdr _ (by decide), h.msgsize]
    · rw [(hkept x hx).2]
      exact h.len x (mem_cons_of_mem o hx)
    · rw [hmsgs]
      exact (pairwise_cons.mp h.sorted).2
  · simp only [mem_cons, not_mem_nil, or_false, not_or] at hf
    rw [getHdr_setHdr_of_ne m₂ _ hf.1, hrew.hdr f hf.2]
  · rw [messages_setHdr _ _ hslot, hmsgs]

end UnixPrograms.Mymq
