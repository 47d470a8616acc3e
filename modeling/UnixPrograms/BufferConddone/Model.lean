import UnixPrograms.Lib.CircularBuffer
import UnixPrograms.Lib.Runs
import Mathlib.Data.Fintype.Basic

/-!
# The bounded buffer with a done flag

Any number of threads call `getitem`, `putitem`, `getdone` and `setdone`, which share a ring of
`BUFSIZE` slots and a flag under `bufferlock`.  A step goes from one pthread call to the next.  A
signal wakes at least one of the threads blocked on its condition, and a thread may wake without
one.

`Effect` says what a step can do, and `Told` what the calls that have returned gave their callers.
-/

namespace UnixPrograms.BufferConddone

open Function List Option

def BUFSIZE : ℕ := 8

inductive Cond where
  | items
  | slots
  deriving DecidableEq

inductive Call (α : Type) where
  | getitem
  | putitem (item : α)
  | getdone
  | setdone

def Call.waits {α : Type} : Call α → Option Cond
  | .getitem => some .items
  | .putitem _ => some .slots
  | _ => none

def Call.signals {α : Type} : Call α → Option Cond
  | .getitem => some .slots
  | .putitem _ => some .items
  | _ => none

inductive Reply (α : Type) where
  /-- 0, from `putitem` and `setdone`. -/
  | zero
  /-- 0, with the item in `*itemp`. -/
  | item (x : α)
  /-- 0, with the flag in `*flag`. -/
  | flag (b : Bool)
  | ecanceled

inductive Place (α : Type) where
  | outside
  | entering (k : Call α)
  | asleep (k : Call α)
  /-- In `pthread_cond_wait`, woken up, but still without the mutex. -/
  | awakened (k : Call α)
  /-- Behind the `pthread_mutex_lock` or `pthread_cond_wait`, with the mutex. -/
  | inside (k : Call α)
  | signal (k : Call α) (r : Reply α)
  /-- In `setdone`, before the first broadcast. -/
  | broadcastItems
  /-- In `setdone`, before the second broadcast. -/
  | broadcastSlots
  | unlock (k : Call α) (r : Reply α)

namespace Place

variable {α : Type}

/-- The thread has the mutex. -/
def holds : Place α → Bool
  | inside _ | signal _ _ | broadcastItems | broadcastSlots | unlock _ _ => true
  | _ => false

def asleepOn (c : Cond) : Place α → Bool
  | asleep k => decide (k.waits = some c)
  | _ => false

def awaken : Place α → Place α
  | asleep k => awakened k
  | p => p

end Place

/-- The variables, the owner of the mutex, the places of the threads, the items that have entered
and left the buffer so far, and the calls that have returned, with what they returned. -/
structure State (ι α : Type) where
  buffer : ℕ → α
  bufin : ℕ
  bufout : ℕ
  doneflag : Bool
  totalitems : ℤ
  owner : Option ι
  thread : ι → Place α
  entered : List α
  left : List α
  replies : List (Call α × Reply α)

inductive Action (ι α : Type) where
  | call (t : ι) (k : Call α)
  | lock (t : ι)
  /-- The thread wakes although nobody woke it. -/
  | spurious (t : ι)
  | run (t : ι)
  /-- The thread signals, which reaches the threads of `W`. -/
  | signal (t : ι) (W : Finset ι)
  | broadcast (t : ι)
  | unlock (t : ι)

section Machine

variable {ι α : Type} [DecidableEq ι]

def State.move (s : State ι α) (t : ι) (p : Place α) : State ι α :=
  { s with thread := update s.thread t p }

/-- `getitem` behind the `pthread_mutex_lock` or the `pthread_cond_wait`. -/
def getitem (s : State ι α) (t : ι) : State ι α :=
  if s.totalitems ≤ 0 ∧ s.doneflag = false then
    { s.move t (.asleep .getitem) with owner := none }
  else if s.doneflag = true ∧ s.totalitems ≤ 0 then s.move t (.unlock .getitem .ecanceled)
  else
    { s.move t (.signal .getitem (.item (s.buffer s.bufout))) with
      bufout := (s.bufout + 1) % BUFSIZE
      totalitems := s.totalitems - 1
      left := s.left ++ [s.buffer s.bufout] }

def putitem (s : State ι α) (t : ι) (item : α) : State ι α :=
  if s.totalitems ≥ BUFSIZE ∧ s.doneflag = false then
    { s.move t (.asleep (.putitem item)) with owner := none }
  else if s.doneflag = true then
    -- consumers may be gone, don't put item in
    s.move t (.unlock (.putitem item) .ecanceled)
  else
    { s.move t (.signal (.putitem item) .zero) with
      buffer := update s.buffer s.bufin item
      bufin := (s.bufin + 1) % BUFSIZE
      totalitems := s.totalitems + 1
      entered := s.entered ++ [item] }

def runCall (s : State ι α) (t : ι) : Call α → State ι α
  | .getitem => getitem s t
  | .putitem item => putitem s t item
  | .getdone => s.move t (.unlock .getdone (.flag s.doneflag))
  | .setdone => { s.move t .broadcastItems with doneflag := true }

def wakeUp (W : Finset ι) (thread : ι → Place α) (i : ι) : Place α :=
  if i ∈ W then (thread i).awaken else thread i

variable [Fintype ι]

/-- A signal reaches only threads blocked on the condition, and at least one if there is one. -/
def Reaches (thread : ι → Place α) (c : Option Cond) (W : Finset ι) : Prop :=
  (∀ i ∈ W, ∃ d ∈ c, (thread i).asleepOn d = true) ∧
    ((∃ d ∈ c, ∃ i, (thread i).asleepOn d = true) → W.Nonempty)

instance (thread : ι → Place α) (c : Option Cond) (W : Finset ι) :
    Decidable (Reaches thread c W) :=
  inferInstanceAs (Decidable (_ ∧ _))

def sleepers (c : Cond) (thread : ι → Place α) : Finset ι :=
  Finset.univ.filter fun i => (thread i).asleepOn c = true

def step (s : State ι α) : Action ι α → Option (State ι α)
  | .call t k =>
    match s.thread t with
    | .outside => some (s.move t (.entering k))
    | _ => none
  | .lock t =>
    match s.owner, s.thread t with
    | none, .entering k | none, .awakened k => some { s.move t (.inside k) with owner := some t }
    | _, _ => none
  | .spurious t =>
    match s.thread t with
    | .asleep k => some (s.move t (.awakened k))
    | _ => none
  | .run t =>
    match s.thread t with
    | .inside k => some (runCall s t k)
    | _ => none
  | .signal t W =>
    match s.thread t with
    | .signal k r =>
      if Reaches s.thread k.signals W then
        some { s with thread := update (wakeUp W s.thread) t (.unlock k r) }
      else none
    | _ => none
  | .broadcast t =>
    match s.thread t with
    | .broadcastItems =>
      some { s with
        thread := update (wakeUp (sleepers .items s.thread) s.thread) t .broadcastSlots }
    | .broadcastSlots =>
      some { s with
        thread := update (wakeUp (sleepers .slots s.thread) s.thread) t
          (.unlock .setdone .zero) }
    | _ => none
  | .unlock t =>
    match s.thread t with
    | .unlock k r =>
      some { s.move t .outside with owner := none, replies := s.replies ++ [(k, r)] }
    | _ => none

end Machine

def start (ι : Type) {α : Type} (buffer : ℕ → α) : State ι α where
  buffer := buffer
  bufin := 0
  bufout := 0
  doneflag := false
  totalitems := 0
  owner := none
  thread _ := .outside
  entered := []
  left := []
  replies := []

/-! ## What a step does -/

/-- The number of items, or of free slots: what the threads blocked on a condition wait for. -/
def surplus (c : Cond) (totalitems : ℤ) : ℤ :=
  match c with
  | .items => totalitems
  | .slots => BUFSIZE - totalitems

section Effects

variable {ι α : Type} [DecidableEq ι] [Fintype ι]

/-- What a step does to the state. -/
inductive Effect (s : State ι α) : State ι α → Prop
  | call {t : ι} (k : Call α) (ht : s.thread t = .outside) : Effect s (s.move t (.entering k))
  | lock {t : ι} {k : Call α} (hfree : s.owner = none)
      (ht : s.thread t = .entering k ∨ s.thread t = .awakened k) :
      Effect s { s.move t (.inside k) with owner := some t }
  | spurious {t : ι} {k : Call α} (ht : s.thread t = .asleep k) :
      Effect s (s.move t (.awakened k))
  | sleep {t : ι} {k : Call α} {c : Cond} (ht : s.thread t = .inside k) (hk : k.waits = some c)
      (hnone : surplus c s.totalitems ≤ 0) (hdone : s.doneflag = false) :
      Effect s { s.move t (.asleep k) with owner := none }
  | cancel {t : ι} {k : Call α} (ht : s.thread t = .inside k) (hdone : s.doneflag = true)
      (hk : k = .getitem → s.totalitems ≤ 0) : Effect s (s.move t (.unlock k .ecanceled))
  | get {t : ι} (ht : s.thread t = .inside .getitem) (hpos : 0 < s.totalitems) :
      Effect s { s.move t (.signal .getitem (.item (s.buffer s.bufout))) with
        bufout := (s.bufout + 1) % BUFSIZE
        totalitems := s.totalitems - 1
        left := s.left ++ [s.buffer s.bufout] }
  | put {t : ι} {item : α} (ht : s.thread t = .inside (.putitem item))
      (hlt : s.totalitems < BUFSIZE) (hdone : s.doneflag = false) :
      Effect s { s.move t (.signal (.putitem item) .zero) with
        buffer := update s.buffer s.bufin item
        bufin := (s.bufin + 1) % BUFSIZE
        totalitems := s.totalitems + 1
        entered := s.entered ++ [item] }
  | getdone {t : ι} (ht : s.thread t = .inside .getdone) :
      Effect s (s.move t (.unlock .getdone (.flag s.doneflag)))
  | setdone {t : ι} (ht : s.thread t = .inside .setdone) :
      Effect s { s.move t .broadcastItems with doneflag := true }
  | signal {t : ι} {k : Call α} {r : Reply α} {W : Finset ι} (ht : s.thread t = .signal k r)
      (hW : Reaches s.thread k.signals W) :
      Effect s { s with thread := update (wakeUp W s.thread) t (.unlock k r) }
  | broadcastItems {t : ι} (ht : s.thread t = .broadcastItems) :
      Effect s { s with
        thread := update (wakeUp (sleepers .items s.thread) s.thread) t .broadcastSlots }
  | broadcastSlots {t : ι} (ht : s.thread t = .broadcastSlots) :
      Effect s { s with
        thread := update (wakeUp (sleepers .slots s.thread) s.thread) t
          (.unlock .setdone .zero) }
  | unlock {t : ι} {k : Call α} {r : Reply α} (ht : s.thread t = .unlock k r) :
      Effect s { s.move t .outside with owner := none, replies := s.replies ++ [(k, r)] }

variable {s s' : State ι α} {t : ι}

lemma effect_getitem (ht : s.thread t = .inside .getitem) : Effect s (getitem s t) := by
  unfold getitem
  split_ifs with hsleep hcancel
  · exact .sleep ht rfl hsleep.1 hsleep.2
  · exact .cancel ht hcancel.1 fun _ => hcancel.2
  · refine .get ht ?_
    by_contra hle
    cases hdone : s.doneflag with
    | false => exact hsleep ⟨not_lt.mp hle, hdone⟩
    | true => exact hcancel ⟨hdone, not_lt.mp hle⟩

lemma effect_putitem {item : α} (ht : s.thread t = .inside (.putitem item)) :
    Effect s (putitem s t item) := by
  unfold putitem
  split_ifs with hsleep hcancel
  · exact .sleep ht rfl (sub_nonpos.mpr hsleep.1) hsleep.2
  · exact .cancel ht hcancel fun hk => by cases hk
  · have hdone : s.doneflag = false := Bool.eq_false_of_not_eq_true hcancel
    exact .put ht (not_le.mp fun hle => hsleep ⟨hle, hdone⟩) hdone

lemma effect_of_step {a : Action ι α} (h : step s a = some s') : Effect s s' := by
  revert h
  fun_cases step s a with
  | case1 t k ht => exact fun h => some.inj h ▸ .call k ht
  | case3 t k ht hfree => exact fun h => some.inj h ▸ .lock hfree (.inl ht)
  | case4 t k ht hfree => exact fun h => some.inj h ▸ .lock hfree (.inr ht)
  | case6 t k ht => exact fun h => some.inj h ▸ .spurious ht
  | case8 t k ht =>
    rintro ⟨⟩
    cases k with
    | getitem => exact effect_getitem ht
    | putitem item => exact effect_putitem ht
    | getdone => exact .getdone ht
    | setdone => exact .setdone ht
  | case10 t W k r ht hW => exact fun h => some.inj h ▸ .signal ht hW
  | case13 t ht => exact fun h => some.inj h ▸ .broadcastItems ht
  | case14 t ht => exact fun h => some.inj h ▸ .broadcastSlots ht
  | case16 t k r ht => exact fun h => some.inj h ▸ .unlock ht
  | _ => simp

/-! ## The mutex -/

/-- A thread at a point where the mutex is held owns it. -/
def Exclusive (s : State ι α) : Prop := ∀ i, (s.thread i).holds = true → s.owner = some i

omit [Fintype ι] in
@[simp] lemma holds_wakeUp (W : Finset ι) (thread : ι → Place α) (i : ι) :
    (wakeUp W thread i).holds = (thread i).holds := by
  unfold wakeUp
  split
  · cases thread i <;> rfl
  · rfl

variable {p : Place α}

omit [Fintype ι] in
lemma Exclusive.update {W : Finset ι} (h : Exclusive s) (hp : p.holds = (s.thread t).holds) :
    ∀ i, (update (wakeUp W s.thread) t p i).holds = true → s.owner = some i := by
  intro i hi
  by_cases hit : i = t
  · subst hit
    rw [update_self, hp] at hi
    exact h i hi
  · rw [update_of_ne hit, holds_wakeUp] at hi
    exact h i hi

omit [Fintype ι] in
lemma wakeUp_empty (thread : ι → Place α) : wakeUp ∅ thread = thread := by
  funext i
  simp [wakeUp]

omit [Fintype ι] in
lemma Exclusive.move (h : Exclusive s) (hp : p.holds = (s.thread t).holds) :
    ∀ i, (Function.update s.thread t p i).holds = true → s.owner = some i := by
  have hupdate := h.update (W := ∅) hp
  rwa [wakeUp_empty] at hupdate

omit [Fintype ι] in
lemma Exclusive.release (h : Exclusive s) (ht : (s.thread t).holds = true) (hp : p.holds = false) :
    ∀ i, (Function.update s.thread t p i).holds = true → none = some i := by
  intro i hi
  by_cases hit : i = t
  · subst hit
    rw [update_self, hp] at hi
    cases hi
  · rw [update_of_ne hit] at hi
    exact absurd (some.inj ((h i hi).symm.trans (h t ht))) hit

lemma Exclusive.effect (h : Exclusive s) (he : Effect s s') : Exclusive s' := by
  cases he with
  | call k ht | spurious ht | cancel ht | get ht | put ht | getdone ht | setdone ht =>
    exact h.move (by rw [ht]; rfl)
  | signal ht | broadcastItems ht | broadcastSlots ht => exact h.update (by rw [ht]; rfl)
  | sleep ht | unlock ht => exact h.release (by rw [ht]; rfl) rfl
  | @lock t k hfree ht =>
    intro i hi
    by_cases hit : i = t
    · exact congrArg some hit.symm
    · simp only [State.move, update_of_ne hit] at hi
      have := h i hi
      rw [hfree] at this
      cases this

/-! ## The ring -/

/-- The buffer holds the items that have entered and not left, in their order. -/
structure Ring (s : State ι α) : Prop where
  left : s.left <+: s.entered
  total : s.totalitems = s.entered.length - s.left.length
  total_le : s.totalitems ≤ BUFSIZE
  bufin : s.bufin = s.entered.length % BUFSIZE
  bufout : s.bufout = s.left.length % BUFSIZE
  slots : RingHolds BUFSIZE s.buffer s.entered s.left.length

lemma Ring.effect (h : Ring s) (he : Effect s s') : Ring s' := by
  have htotal := h.total
  cases he with
  | call | lock | spurious | sleep | cancel | getdone | setdone | signal | broadcastItems
  | broadcastSlots | unlock => exact { h with }
  | get ht hpos =>
    have hlt : s.left.length < s.entered.length := by omega
    have hitem : s.buffer s.bufout = s.entered[s.left.length] := by
      rw [h.bufout]
      exact h.slots.head hlt
    refine ⟨?_, ?_, ?_, h.bufin, ?_, ?_⟩
    · rw [hitem]
      exact concat_get_prefix h.left hlt
    · simp only [length_append, length_singleton, State.move]
      push_cast
      omega
    · have := h.total_le
      show s.totalitems - 1 ≤ BUFSIZE
      omega
    · simp only [length_append, length_singleton, h.bufout]
      exact Nat.mod_add_mod _ _ _
    · simp only [length_append, length_singleton]
      exact h.slots.drop
  | put ht hlt =>
    refine ⟨h.left.trans (prefix_append _ _), ?_, ?_, ?_, h.bufout, ?_⟩
    · simp only [length_append, length_singleton, State.move]
      push_cast
      omega
    · show s.totalitems + 1 ≤ BUFSIZE
      omega
    · simp only [length_append, length_singleton, h.bufin]
      exact Nat.mod_add_mod _ _ _
    · rw [h.bufin]
      exact h.slots.put (by omega) _

/-! ## The replies -/

/-- The item that a `getitem` has given its caller. -/
def handed : Call α × Reply α → Option α
  | (.getitem, .item x) => some x
  | _ => none

/-- The item that a `putitem` has accepted. -/
def accepted : Call α × Reply α → Option α
  | (.putitem x, .zero) => some x
  | _ => none

/-- What the call is about to return. -/
def Place.reply : Place α → Option (Call α × Reply α)
  | signal k r | unlock k r => some (k, r)
  | _ => none

/-- The call about to return with the mutex. -/
def State.due (s : State ι α) : List (Call α × Reply α) :=
  (s.owner.bind fun t => (s.thread t).reply).toList

/-- The items that have left are those given to the callers of `getitem`, and the items that have
entered are those accepted by `putitem`, up to the call about to return. -/
structure Told (s : State ι α) : Prop where
  left : s.left = (s.replies ++ s.due).filterMap handed
  entered : s.entered = (s.replies ++ s.due).filterMap accepted
  left_le : s.left <+: s.replies.filterMap accepted

omit [DecidableEq ι] [Fintype ι] in
lemma due_of_owner (howner : s.owner = some t) : s.due = (s.thread t).reply.toList := by
  rw [State.due, howner]
  rfl

omit [DecidableEq ι] [Fintype ι] in
lemma due_of_free (howner : s.owner = none) : s.due = [] := by
  rw [State.due, howner]
  rfl

omit [Fintype ι] in
lemma due_move {p : Place α} (ht : (s.thread t).reply = none) (hp : p.reply = none) :
    (s.move t p).due = s.due := by
  cases howner : s.owner with
  | none => rw [due_of_free howner, due_of_free (s := s.move t p) howner]
  | some i =>
    rw [due_of_owner howner, due_of_owner (s := s.move t p) howner]
    by_cases hit : i = t
    · simp [State.move, hit, ht, hp]
    · simp [State.move, hit]

omit [DecidableEq ι] [Fintype ι] in
lemma due_step {new : List (Call α × Reply α)} (howner : s.owner = some t)
    (howner' : s'.owner = some t)
    (h : (s'.thread t).reply.toList = (s.thread t).reply.toList ++ new) :
    s'.due = s.due ++ new := by
  rw [due_of_owner howner, due_of_owner howner', h]

/-- A step adds the replies `new` to those given or due, and to the items what they say. -/
structure Adds (new : List (Call α × Reply α)) (s s' : State ι α) : Prop where
  replies : s'.replies ++ s'.due = s.replies ++ s.due ++ new
  left : s'.left = s.left ++ new.filterMap handed
  entered : s'.entered = s.entered ++ new.filterMap accepted

omit [DecidableEq ι] [Fintype ι] in
lemma Adds.of_due {new : List (Call α × Reply α)} (hreplies : s'.replies = s.replies)
    (hdue : s'.due = s.due ++ new) (hleft : s'.left = s.left ++ new.filterMap handed)
    (hentered : s'.entered = s.entered ++ new.filterMap accepted) : Adds new s s' :=
  ⟨by rw [hreplies, hdue, append_assoc], hleft, hentered⟩

omit [DecidableEq ι] [Fintype ι] in
lemma Adds.of_reply {e : Call α × Reply α} (howner : s.owner = some t) (howner' : s'.owner = some t)
    (ht : (s.thread t).reply = none) (ht' : (s'.thread t).reply = some e)
    (hreplies : s'.replies = s.replies) (hleft : s'.left = s.left ++ [e].filterMap handed)
    (hentered : s'.entered = s.entered ++ [e].filterMap accepted) : Adds [e] s s' :=
  .of_due hreplies (due_step howner howner' (by rw [ht, ht']; rfl)) hleft hentered

lemma exists_adds (h : Exclusive s) (he : Effect s s') : ∃ new, Adds new s s' := by
  cases he with
  | call k ht | spurious ht =>
    refine ⟨[], .of_due rfl ?_ (append_nil _).symm (append_nil _).symm⟩
    rw [append_nil]
    exact due_move (by rw [ht]; rfl) rfl
  | @lock t k hfree ht =>
    refine ⟨[], .of_due rfl ?_ (append_nil _).symm (append_nil _).symm⟩
    rw [due_of_free hfree, due_of_owner (t := t) rfl]
    simp [State.move, Place.reply]
  | @sleep t k c ht =>
    refine ⟨[], .of_due rfl ?_ (append_nil _).symm (append_nil _).symm⟩
    rw [due_of_owner (h t (by rw [ht]; rfl)), due_of_free rfl, ht]
    rfl
  | @setdone t ht | @signal t k r W ht | @broadcastItems t ht =>
    have howner := h t (by rw [ht]; rfl)
    refine ⟨[], .of_due rfl (due_step howner howner ?_) (append_nil _).symm (append_nil _).symm⟩
    simp [ht, State.move, Place.reply]
  | @cancel t k ht | @getdone t ht | @broadcastSlots t ht | @get t ht | @put t item ht =>
    refine ⟨_, .of_reply (h t (by rw [ht]; rfl)) (h t (by rw [ht]; rfl)) (by rw [ht]; rfl)
      (by simp only [State.move, update_self]; rfl) rfl ?_ ?_⟩
    · simp [State.move, filterMap_cons, handed]
    · simp [State.move, filterMap_cons, accepted]
  | @unlock t k r ht =>
    refine ⟨[], ?_, (append_nil _).symm, (append_nil _).symm⟩
    rw [due_of_owner (h t (by rw [ht]; rfl)), due_of_free rfl, ht, append_nil, append_nil]
    rfl

lemma Told.effect (h : Told s) (hex : Exclusive s) (hring : Ring s) (he : Effect s s') :
    Told s' := by
  obtain ⟨new, hadds⟩ := exists_adds hex he
  have hentered : s'.entered = (s'.replies ++ s'.due).filterMap accepted := by
    rw [hadds.entered, hadds.replies, h.entered, ← filterMap_append]
  refine ⟨by rw [hadds.left, hadds.replies, h.left, ← filterMap_append], hentered, ?_⟩
  have hring' := hring.effect he
  cases he with
  | @get t ht hpos =>
    -- the mutex is with the `getitem`, so no `putitem` is about to return
    have hnone : s.due = [] := by rw [due_of_owner (hex t (by rw [ht]; rfl)), ht]; rfl
    have hall := h.entered
    rw [hnone, append_nil] at hall
    show _ <+: s.replies.filterMap accepted
    rw [← hall]
    exact hring'.left
  | unlock ht => exact h.left_le.trans ((prefix_append _ _).filterMap _)
  | _ => exact h.left_le

end Effects

end UnixPrograms.BufferConddone
