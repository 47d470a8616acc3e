import UnixPrograms.Mymq.Lists

/-!
# The critical sections of a message queue on well-formed queues

`mymqOpen` makes a well-formed queue, and `Outcome` lists all that a critical section can do to one.
-/

namespace UnixPrograms.Mymq

open List HdrField

variable {N Z : ℕ}

/-! ## A new queue -/

lemma getField_linkFree {step k a : ℕ} :
    ∀ {n : ℕ} {m : Mem} {index : ℕ}, (∀ i ≤ n, Apart a k (index + i * step) sizeofLong) →
      getField k (linkFree step n m index) a = getField k m a := by
  intro n
  induction n with
  | zero =>
    intro m index h
    exact getField_setField_of_apart m (by simpa using h 0 le_rfl)
  | succ n ih =>
    intro m index h
    have hrest : ∀ i ≤ n, Apart a k (index + step + i * step) sizeofLong := by
      intro i hi
      have := h (i + 1) (by omega)
      rwa [Nat.add_mul, Nat.one_mul, Nat.add_comm (i * step), ← Nat.add_assoc] at this
    rw [linkFree, ih hrest]
    exact getField_setField_of_apart m (by simpa using h 0 (Nat.zero_le _))

lemma linked_linkFree {step : ℕ} (hstep : sizeofLong ≤ step) :
    ∀ {n : ℕ} {m : Mem} {index : ℕ}, index + n * step < 256 ^ 8 →
      Linked (NextCell (linkFree step n m index)) index
        ((range n).map fun i => index + (i + 1) * step) := by
  intro n
  induction n with
  | zero =>
    intro m index _
    exact getNext_setNext m index (by norm_num)
  | succ n ih =>
    intro m index hlt
    rw [Nat.add_mul, Nat.one_mul] at hlt
    have hmap : (range (n + 1)).map (fun i => index + (i + 1) * step) =
        (index + step) :: (range n).map fun i => index + step + (i + 1) * step := by
      rw [range_succ_eq_map, map_cons, map_map]
      refine congrArg₂ _ (by ring) (map_congr_left fun i _ => ?_)
      simp only [Function.comp_apply, Nat.succ_eq_add_one]
      ring
    rw [hmap]
    refine ⟨?_, by unfold sizeofLong at hstep; omega, ih (by omega)⟩
    -- the stores that follow are behind this cell
    have hkeep : getField sizeofLong (linkFree step n (setNext m index (index + step))
        (index + step)) index = getField sizeofLong (setNext m index (index + step)) index :=
      getField_linkFree fun i _ => .inl (by have := Nat.zero_le (i * step); omega)
    exact hkeep.trans (getNext_setNext m index (by omega))

/-- The size of the file does not overflow. -/
def SizeExact (attr : MymqAttr) : Prop :=
  filesize attr = sizeofMymqHdr + attr.mqMaxmsg * slotSize attr.mqMsgsize.toNat

instance (attr : MymqAttr) : Decidable (SizeExact attr) := inferInstanceAs (Decidable (_ = _))

variable {attr : MymqAttr}

lemma SizeExact.fits (h : SizeExact attr) (hpos : 0 < attr.mqMaxmsg) :
    Fits attr.mqMaxmsg.toNat attr.mqMsgsize.toNat := by
  have hlt : filesize attr < 2 ^ 63 := by
    unfold filesize toSigned
    split
    · omega
    · have := Nat.mod_lt (sizeofMymqHdr + toULong attr.mqMaxmsg *
        ((sizeofMymsgHdr + msgSizeMacro attr.mqMsgsize) % 2 ^ 64)) (show 0 < 2 ^ 64 by norm_num)
      norm_num at this ⊢
      omega
  rw [h] at hlt
  obtain ⟨n, hn⟩ := Int.eq_ofNat_of_zero_le hpos.le
  rw [hn] at hlt ⊢
  unfold Fits
  exact_mod_cast hlt

lemma step_eq_slotSize (hmax : 0 < attr.mqMaxmsg) (hsize : 0 < attr.mqMsgsize)
    (hfit : Fits attr.mqMaxmsg.toNat attr.mqMsgsize.toNat) :
    sizeofMymsgHdr + msgSizeMacro attr.mqMsgsize = slotSize attr.mqMsgsize.toNat := by
  obtain ⟨N, hN⟩ := Int.eq_ofNat_of_zero_le hmax.le
  obtain ⟨Z, hZ⟩ := Int.eq_ofNat_of_zero_le hsize.le
  rw [hN, hZ] at hfit
  rw [hZ]
  have hone : 1 * slotSize Z ≤ N * slotSize Z := Nat.mul_le_mul_right _ (by omega)
  have hZs := le_slotSize Z
  have hULong : toULong (Z : ℤ) = Z := by
    unfold toULong ofSigned
    unfold Fits sizeofMymqHdr at hfit
    simp only [Int.toNat_natCast] at hfit
    norm_num
    omega
  unfold Fits at hfit
  simp only [Int.toNat_natCast, slotSize, sizeofMymsgHdr, sizeofMymqHdr, sizeofLong] at *
  rw [msgSizeMacro, hULong]
  simp only [sizeofLong]
  omega

lemma slots_succ (n Z : ℕ) : slots (n + 1) Z =
    sizeofMymqHdr :: (range n).map fun i => sizeofMymqHdr + (i + 1) * slotSize Z := by
  rw [slots, range_succ_eq_map, map_cons, map_map, Nat.zero_mul, Nat.add_zero]
  rfl

lemma linkFree_spec {n : ℕ} {m : Mem} (hfit : Fits (n + 1) Z)
    (hfree : getNext m mqhFree.addr = sizeofMymqHdr) :
    Linked (NextCell (linkFree (slotSize Z) n m sizeofMymqHdr)) mqhFree.addr
        (slots (n + 1) Z) ∧
      ∀ a k, a + k ≤ sizeofMymqHdr →
        getField k (linkFree (slotSize Z) n m sizeofMymqHdr) a = getField k m a := by
  have hkeep : ∀ a k, a + k ≤ sizeofMymqHdr →
      getField k (linkFree (slotSize Z) n m sizeofMymqHdr) a = getField k m a :=
    fun a k h => getField_linkFree fun i _ => .inl (h.trans (Nat.le_add_right _ _))
  refine ⟨?_, hkeep⟩
  rw [slots_succ]
  refine ⟨(hkeep _ _ (by decide)).trans hfree, by decide, linked_linkFree ?_ ?_⟩
  · have := le_slotSize Z
    unfold sizeofMymsgHdr at this
    unfold sizeofLong
    omega
  · unfold Fits at hfit
    rw [Nat.add_mul, Nat.one_mul] at hfit
    norm_num
    omega

lemma initHdr_spec (attr : MymqAttr) (hmax : mqMaxmsg.InRange attr.mqMaxmsg)
    (hsize : mqMsgsize.InRange attr.mqMsgsize) :
    getHdr (initHdr attr) .mqMaxmsg = attr.mqMaxmsg ∧
      getHdr (initHdr attr) .mqMsgsize = attr.mqMsgsize ∧
      getHdr (initHdr attr) .mqCurmsgs = 0 ∧ getHdr (initHdr attr) .mqhNwait = 0 ∧
      getHdr (initHdr attr) .mqhPid = 0 ∧ getNext (initHdr attr) mqhHead.addr = 0 ∧
      getNext (initHdr attr) mqhFree.addr = sizeofMymqHdr := by
  have hzero : ∀ f : HdrField, f.InRange 0 := by
    intro f
    cases f <;> exact ⟨by decide, by decide⟩
  unfold initHdr
  refine ⟨?_, ?_, ?_, ?_, ?_, ?_, getField_setField _ _ (ofSigned_lt 8 216)⟩
  · simp (disch := decide) only [getHdr_setHdr_of_ne]
    exact getHdr_setHdr _ hmax
  · simp (disch := decide) only [getHdr_setHdr_of_ne]
    exact getHdr_setHdr _ hsize
  · simp (disch := decide) only [getHdr_setHdr_of_ne]
    exact getHdr_setHdr _ (hzero _)
  · simp (disch := decide) only [getHdr_setHdr_of_ne]
    exact getHdr_setHdr _ (hzero _)
  · simp (disch := decide) only [getHdr_setHdr_of_ne]
    exact getHdr_setHdr _ (hzero _)
  · have hap : Apart mqhHead.addr 8 mqhFree.addr 8 := .inl (by decide)
    exact (getField_setField_of_apart _ hap).trans (getField_setField _ _ (ofSigned_lt 8 0))

lemma mymqOpen_spec {m : Mem} (hopen : mymqOpen attr = some m) (hexact : SizeExact attr) :
    Fits attr.mqMaxmsg.toNat attr.mqMsgsize.toNat ∧ 0 < attr.mqMaxmsg.toNat ∧
      WellFormed attr.mqMaxmsg.toNat attr.mqMsgsize.toNat m []
        (slots attr.mqMaxmsg.toNat attr.mqMsgsize.toNat) ∧
      getHdr m .mqhNwait = 0 ∧ getHdr m .mqhPid = 0 := by
  unfold mymqOpen at hopen
  split at hopen
  · exact absurd hopen (by simp)
  split at hopen
  · exact absurd hopen (by simp)
  rename_i hpos _
  have hmax : 0 < attr.mqMaxmsg := by omega
  have hsize : 0 < attr.mqMsgsize := by omega
  have hfit := hexact.fits hmax
  rw [step_eq_slotSize hmax hsize hfit] at hopen
  obtain ⟨n, hn⟩ : ∃ n, attr.mqMaxmsg.toNat = n + 1 := ⟨_, (Nat.succ_pred (by omega)).symm⟩
  have hloop : (attr.mqMaxmsg - 1).toNat = n := by omega
  rw [hloop] at hopen
  rw [hn] at hfit ⊢
  -- both attributes are below the size of the file
  have hone : 1 * slotSize attr.mqMsgsize.toNat ≤ (n + 1) * slotSize attr.mqMsgsize.toNat :=
    Nat.mul_le_mul_right _ (by omega)
  have hmany : (n + 1) * 24 ≤ (n + 1) * slotSize attr.mqMsgsize.toNat :=
    Nat.mul_le_mul_left _ ((Nat.le_add_right _ _).trans (le_slotSize _))
  have hZs := le_slotSize attr.mqMsgsize.toNat
  have hlt := hfit
  unfold Fits sizeofMymqHdr at hlt
  unfold sizeofMymsgHdr at hZs
  obtain ⟨h1, h2, h3, h4, h5, h6, h7⟩ := initHdr_spec attr
    ⟨by norm_num [size]; omega, by norm_num [size]; omega⟩
    ⟨by norm_num [size]; omega, by norm_num [size]; omega⟩
  obtain ⟨hlinked, hkeep⟩ := linkFree_spec hfit h7
  obtain rfl : linkFree (slotSize attr.mqMsgsize.toNat) n (initHdr attr) sizeofMymqHdr = m := by
    simpa using hopen
  have hhdr : ∀ f, getHdr (linkFree (slotSize attr.mqMsgsize.toNat) n (initHdr attr)
      sizeofMymqHdr) f = getHdr (initHdr attr) f := by
    intro f
    rw [getHdr, getSigned, hkeep _ _ (hdrField_end f)]
    rfl
  refine ⟨hfit, Nat.succ_pos n, ⟨?_, ?_, ?_, ⟨.inl ⟨rfl, rfl⟩, ?_, hlinked, ?_⟩, by simp, ?_⟩,
    (hhdr _).trans h4, (hhdr _).trans h5⟩
  · rw [hhdr, h1]
    omega
  · rw [hhdr, h2]
    omega
  · rw [hhdr, h3]
    rfl
  · exact (hkeep _ _ (by decide)).trans h6
  · simp
  · exact List.Pairwise.nil

/-! ## What a critical section can do -/

/-- A critical section of `mymq_send`. -/
def Sends (k : Point) (msg : List UInt8) (prio : UInt32) : Prop :=
  (∃ info, k = .send info msg prio) ∨ k = .sendWait msg prio

/-- A critical section of `mymq_receive`. -/
def Receives (k : Point) : Prop := (∃ info maxlen, k = .receive info maxlen) ∨ k = .receiveWait

def Notifies (k : Point) : Prop := ∃ info pid ev alive, k = .notify info pid ev alive

def isSendWait : Point → Bool
  | .sendWait _ _ => true
  | _ => false

def isReceiveWait : Point → Bool
  | .receiveWait => true
  | _ => false

@[simp] lemma isReceiveWait_sendWait (msg : List UInt8) (prio : UInt32) :
    isReceiveWait (.sendWait msg prio) = false := rfl

@[simp] lemma isSendWait_receiveWait : isSendWait .receiveWait = false := rfl

@[simp] lemma isReceiveWait_receiveWait : isReceiveWait .receiveWait = true := rfl

/-- A message whose sender waits for room is not too long for the queue. -/
def LengthOk (Z : ℕ) : Point → Prop
  | .sendWait msg _ => msg.length ≤ Z
  | _ => True

/-- The section from `k` puts a message on the queue: the checks of the call pass, and there is
room. -/
def PlacesMessage (q : Queue) : Point → Prop
  | .send info msg _ => info.mqiMagic = MQI_MAGIC ∧ msg.length ≤ toULong (getHdr q.mem .mqMsgsize) ∧
      getHdr q.mem .mqCurmsgs < getHdr q.mem .mqMaxmsg
  | .sendWait _ _ => getHdr q.mem .mqCurmsgs < getHdr q.mem .mqMaxmsg
  | _ => False

/-- The section from `k` takes a message off the queue: the checks of the call pass, and there is
one. -/
def TakesMessage (q : Queue) : Point → Prop
  | .receive info maxlen => info.mqiMagic = MQI_MAGIC ∧ toULong (getHdr q.mem .mqMsgsize) ≤ maxlen ∧
      getHdr q.mem .mqCurmsgs ≠ 0
  | .receiveWait => getHdr q.mem .mqCurmsgs ≠ 0
  | _ => False

/-- The queue when `mymq_send` puts its message on it.  A process is notified only if the call finds
the queue empty when it starts; a thread that has waited for room does not look again. -/
def beforePut (L : List ℕ) (k : Point) (q : Queue) : Queue :=
  if L.length = 0 ∧ isSendWait k = false then sendNotify q else q

/-- The queue when `mymq_receive` takes a message off it: a thread that has waited is no longer
counted in `mqh_nwait`. -/
def leaveWait (k : Point) (q : Queue) : Queue :=
  if isReceiveWait k = true then
    { q with mem := setHdr q.mem .mqhNwait (getHdr q.mem .mqhNwait - 1) }
  else q

/-- The queue when `mymq_receive` waits: a thread that has not waited before is counted. -/
def enterWait (k : Point) (q : Queue) : Queue :=
  if isReceiveWait k = true then q
  else { q with mem := setHdr q.mem .mqhNwait (getHdr q.mem .mqhNwait + 1) }

/-- What a critical section can do to a well-formed queue with messages in the slots `L` and free
slots `F`. -/
inductive Outcome (N Z : ℕ) (q : Queue) (L F : List ℕ) (k : Point) : QueueSection → Prop
  | failed (errno : ℤ) (hk : IsEntry k) : Outcome N Z q L F k (fail q errno)
  | placed {msg : List UInt8} {prio : UInt32} {m' : Mem} {L' F' : List ℕ} (hk : Sends k msg prio)
      (hp : PlacesMessage q k) (hroom : L.length < N) (hwf : WellFormed N Z m' L' F')
      (hattr : SameAttr (beforePut L k q).mem m')
      (hmsgs : messages m' L' =
        insertPrio Msg.prio { prio := prio.toNat, body := msg } (messages q.mem L)) :
      Outcome N Z q L F k
        { shared := { mem := m', sent := (beforePut L k q).sent }
          wake := if L.length = 0 then some (.signal ()) else none
          exit := .ret .ok }
  | sendSleeps {msg : List UInt8} {prio : UInt32} (hk : Sends k msg prio) (hlen : msg.length ≤ Z)
      (hfull : L.length = N) :
      Outcome N Z q L F k { shared := q, wake := none, exit := .wait () (.sendWait msg prio) }
  | taken {o : ℕ} {L₁ : List ℕ} {m' : Mem} (hk : Receives k) (hp : TakesMessage q k)
      (hL : L = o :: L₁) (hwf : WellFormed N Z m' L₁ (o :: F))
      (hattr : SameAttr (leaveWait k q).mem m')
      (hmsgs : messages m' L₁ = messages q.mem L₁) :
      Outcome N Z q L F k
        { shared := { mem := m', sent := q.sent }
          wake := if L.length = N then some (.signal ()) else none
          exit := .ret (.received (msgAt q.mem o).body.length (msgAt q.mem o).body
            (msgAt q.mem o).prio) }
  | receiveSleeps (hk : Receives k) (hempty : L = []) :
      Outcome N Z q L F k
        { shared := enterWait k q, wake := none, exit := .wait () .receiveWait }
  | notified {m' : Mem} (hk : Notifies k) (hwf : WellFormed N Z m' L F)
      (hmsgs : messages m' L = messages q.mem L)
      (hnwait : getHdr m' .mqhNwait = getHdr q.mem .mqhNwait) :
      Outcome N Z q L F k
        { shared := { mem := m', sent := q.sent }, wake := none, exit := .ret .ok }

section Outcome

variable {q : Queue} {L F : List ℕ} {k : Point}

section

variable (h : WellFormed N Z q.mem L F)
include h

lemma sendNotify_spec :
    WellFormed N Z (sendNotify q).mem L F ∧ messages (sendNotify q).mem L = messages q.mem L := by
  unfold sendNotify
  split
  · exact ⟨h.setHdr _ _ (by decide), messages_setHdr _ _ fun o ho =>
      h.lists.mem_slots (by simp [ho])⟩
  · exact ⟨h, rfl⟩

lemma beforePut_spec (k : Point) :
    WellFormed N Z (beforePut L k q).mem L F ∧
      messages (beforePut L k q).mem L = messages q.mem L := by
  unfold beforePut
  split
  · exact sendNotify_spec h
  · exact ⟨h, rfl⟩

lemma leaveWait_spec (k : Point) :
    WellFormed N Z (leaveWait k q).mem L F ∧
      messages (leaveWait k q).mem L = messages q.mem L ∧ (leaveWait k q).sent = q.sent := by
  unfold leaveWait
  split
  · exact ⟨h.setHdr _ _ (by decide),
      messages_setHdr _ _ fun o ho => h.lists.mem_slots (by simp [ho]), rfl⟩
  · exact ⟨h, rfl, rfl⟩

lemma enterWait_spec (k : Point) :
    WellFormed N Z (enterWait k q).mem L F ∧
      messages (enterWait k q).mem L = messages q.mem L ∧ (enterWait k q).sent = q.sent := by
  unfold enterWait
  split
  · exact ⟨h, rfl, rfl⟩
  · exact ⟨h.setHdr _ _ (by decide),
      messages_setHdr _ _ fun o ho => h.lists.mem_slots (by simp [ho]), rfl⟩

end

variable {msg : List UInt8} {info : MymqInfo}

lemma outcome_sendPut (prio : UInt32) (hfit : Fits N Z) (h : WellFormed N Z q.mem L F)
    (hk : Sends k msg prio) (hp : PlacesMessage q k) (hmsg : msg.length ≤ Z)
    (hroom : L.length < N) : Outcome N Z q L F k (sendPut msg prio (beforePut L k q)) := by
  obtain ⟨hwf, hmsgs⟩ := beforePut_spec h k
  obtain ⟨m', L', F', he, hwf', hattr, hput⟩ := sendPut_spec prio hwf hfit hmsg hroom
  rw [he]
  exact .placed hk hp hroom hwf' hattr (by rw [hput, hmsgs])

section

variable (hfit : Fits N Z)
include hfit

lemma outcome_sendWaitLoop {prio : UInt32} (h : WellFormed N Z q.mem L F) (hk : Sends k msg prio)
    (hmsg : msg.length ≤ Z)
    (hp : getHdr q.mem .mqCurmsgs < getHdr q.mem .mqMaxmsg → PlacesMessage q k)
    (hq : beforePut L k q = q) : Outcome N Z q L F k (sendWaitLoop msg prio q) := by
  have hcount := h.length_add
  unfold sendWaitLoop
  rw [h.curmsgs, h.maxmsg] at hp ⊢
  split
  · exact .sendSleeps hk hmsg (by omega)
  · have := outcome_sendPut prio hfit h hk (hp (by omega)) hmsg (by omega)
    rwa [hq] at this

lemma outcome_receiveTake {o : ℕ} {L : List ℕ} (h : WellFormed N Z q.mem (o :: L) F)
    (hk : Receives k) (hp : TakesMessage q k) :
    Outcome N Z q (o :: L) F k (receiveTake (leaveWait k q)) := by
  obtain ⟨hwf, hmsgs, hsent⟩ := leaveWait_spec h k
  obtain ⟨m', he, hwf', hattr, hrest⟩ := receiveTake_spec hwf hfit
  obtain ⟨ho, hL⟩ := cons_eq_cons.mp hmsgs
  rw [he, ho, hsent]
  exact .taken hk hp rfl hwf' hattr (hrest.trans hL)

lemma toULong_msgsize (hN : 0 < N) (h : WellFormed N Z q.mem L F) :
    toULong (getHdr q.mem .mqMsgsize) = Z := by
  have hone : 1 * slotSize Z ≤ N * slotSize Z := Nat.mul_le_mul_right _ hN
  have hZ := le_slotSize Z
  unfold Fits at hfit
  rw [h.msgsize]
  unfold toULong ofSigned
  norm_num
  omega

lemma outcome_mymqSend {prio : UInt32} (hN : 0 < N) (h : WellFormed N Z q.mem L F) :
    Outcome N Z q L F (.send info msg prio) (mymqSend info msg prio q) := by
  have hk : Sends (.send info msg prio) msg prio := .inl ⟨info, rfl⟩
  unfold mymqSend
  split
  · exact .failed _ trivial
  split
  · exact .failed _ trivial
  rename_i hmagic hlen
  have hmsg := Nat.le_of_not_lt hlen
  have hp : getHdr q.mem .mqCurmsgs < getHdr q.mem .mqMaxmsg →
      PlacesMessage q (.send info msg prio) := fun hroom => ⟨not_not.mp hmagic, hmsg, hroom⟩
  have hp' := hp
  rw [toULong_msgsize hfit hN h] at hmsg
  rw [h.curmsgs, h.maxmsg] at hp ⊢
  split
  · have hempty : L.length = 0 := by omega
    have hput := outcome_sendPut prio hfit h hk (hp (by omega)) hmsg (by omega)
    rwa [beforePut, if_pos ⟨hempty, rfl⟩] at hput
  · have hsame : beforePut L (.send info msg prio) q = q := if_neg fun hc => by omega
    split
    · split
      · exact .failed _ trivial
      · exact outcome_sendWaitLoop hfit h hk hmsg hp' hsame
    · have hput := outcome_sendPut prio hfit h hk (hp (by omega)) hmsg (by omega)
      rwa [hsame] at hput

lemma outcome_mymqReceive {maxlen : ℕ} (h : WellFormed N Z q.mem L F) :
    Outcome N Z q L F (.receive info maxlen) (mymqReceive info maxlen q) := by
  have hk : Receives (.receive info maxlen) := .inl ⟨info, maxlen, rfl⟩
  unfold mymqReceive
  split
  · exact .failed _ trivial
  split
  · exact .failed _ trivial
  rename_i hmagic hlen
  rw [h.curmsgs]
  split
  · have hempty : L = [] := length_eq_zero_iff.mp (by omega)
    split
    · exact .failed _ trivial
    · have hwait := enterWait_spec h (.receive info maxlen)
      have hzero : getHdr (enterWait (.receive info maxlen) q).mem .mqCurmsgs = 0 := by
        rw [hwait.1.curmsgs, hempty]
        rfl
      change Outcome N Z q L F _ (receiveWaitLoop (enterWait (.receive info maxlen) q))
      rw [receiveWaitLoop, if_pos hzero]
      exact .receiveSleeps hk hempty
  · cases L with
    | nil => exact absurd rfl ‹_›
    | cons o L =>
      refine outcome_receiveTake hfit h hk ⟨not_not.mp hmagic, Nat.le_of_not_lt hlen, ?_⟩
      rwa [h.curmsgs]

lemma outcome_receiveWaitLoop (h : WellFormed N Z q.mem L F) :
    Outcome N Z q L F .receiveWait (receiveWaitLoop q) := by
  unfold receiveWaitLoop
  rw [h.curmsgs]
  split
  · exact .receiveSleeps (.inr rfl) (length_eq_zero_iff.mp (by omega))
  · rename_i hne
    rw [← h.curmsgs] at hne
    cases L with
    | nil => exact absurd h.curmsgs hne
    | cons o L => exact outcome_receiveTake hfit h (.inr rfl) hne

end

lemma outcome_mymqNotify {pid : ℤ} {ev : Option Sigevent} {alive : Bool}
    (h : WellFormed N Z q.mem L F) :
    Outcome N Z q L F (.notify info pid ev alive) (mymqNotify info pid ev alive q) := by
  have hk : Notifies (.notify info pid ev alive) := ⟨info, pid, ev, alive, rfl⟩
  have hslot : ∀ o ∈ L, o ∈ slots N Z := fun o ho => h.lists.mem_slots (by simp [ho])
  unfold mymqNotify
  split
  · exact .failed _ trivial
  cases ev with
  | none =>
    dsimp only
    split
    · exact .notified hk (h.setHdr _ _ (by decide)) (messages_setHdr _ _ hslot)
        (getHdr_setHdr_of_ne _ _ (by decide))
    · exact .notified hk h rfl rfl
  | some ev =>
    dsimp only
    split
    · exact .failed _ trivial
    · refine .notified hk ((((h.setHdr _ _ ?_).setHdr _ _ ?_).setHdr _ _ ?_).setHdr _ _ ?_) ?_ ?_
      · decide
      · decide
      · decide
      · decide
      · simp only [messages_setHdr _ _ hslot]
      · simp (disch := decide) only [getHdr_setHdr_of_ne]

lemma outcome (hfit : Fits N Z) (hN : 0 < N) (h : WellFormed N Z q.mem L F)
    (hk : LengthOk Z k) : Outcome N Z q L F k (criticalSection k q) := by
  cases k with
  | send info msg prio => exact outcome_mymqSend hfit hN h
  | sendWait msg prio =>
    exact outcome_sendWaitLoop hfit h (.inr rfl) hk id (if_neg fun hc => Bool.noConfusion hc.2)
  | receive info maxlen => exact outcome_mymqReceive hfit h
  | receiveWait => exact outcome_receiveWaitLoop hfit h
  | notify info pid ev alive => exact outcome_mymqNotify h

end Outcome

end UnixPrograms.Mymq
