import UnixPrograms.Lib.LinkedCells
import UnixPrograms.Lib.Runs
import Mathlib.Data.List.Infix

/-!
# The event queue of the Unified Event Manager

`queue_event` and `uem_wait` work on the list under `uem_mtx`, so that a run is a list of calls.
The search for an equal error ends before the last event is compared: the queue holds an error twice
only if it has been queued right behind an equal one (`queueEvent_iff`).
-/

namespace UnixPrograms.Uem

open Function List

inductive UemType where
  | svmsg | pxmsg | svsem | pxsem | fdRead | fdWrite | fdError | sig | process | heartbeat | none
  deriving DecidableEq

/-- `struct uem_event`: the type of its registration, its error number, and whatever else comes with
the event. -/
structure UemEvent (β : Type) where
  /-- `ue_reg->ur_type`. -/
  urType : UemType
  ueErrno : ℤ
  rest : β
  deriving DecidableEq

variable {β : Type}

/-- The event repeats the error of `cur`: the test in the loop of `queue_event`. -/
def UemEvent.Repeats (e cur : UemEvent β) : Prop :=
  e.ueErrno ≠ 0 ∧ cur.urType = e.urType ∧ cur.ueErrno = e.ueErrno

instance (e cur : UemEvent β) : Decidable (e.Repeats cur) :=
  inferInstanceAs (Decidable (_ ∧ _ ∧ _))

/-- The loop of `queue_event`, from `cur` on: `true` if it meets an equal error.  It stops at the
event whose `ue_next` is `NULL`, without a look at it. -/
def walk (e : UemEvent β) : List (UemEvent β) → Bool
  | cur :: next :: q => if e.Repeats cur then true else walk e (next :: q)
  | _ => false

/-- The events from `event_head` on, and those that `uem_wait` has returned. -/
structure State (β : Type) where
  queue : List (UemEvent β)
  delivered : List (UemEvent β)
  deriving DecidableEq

inductive Call (β : Type) where
  | queueEvent (e : UemEvent β)
  | uemWait

/-- `queue_event`: an event that repeats an error is freed. -/
def queueEvent (q : List (UemEvent β)) (e : UemEvent β) : List (UemEvent β) :=
  if walk e q then q else q ++ [e]

/-- One call; `uem_wait` does not return while the queue is empty. -/
def step (s : State β) : Call β → Option (State β)
  | .queueEvent e => some { s with queue := queueEvent s.queue e }
  | .uemWait =>
    match s.queue with
    | [] => none
    | e :: q => some { queue := q, delivered := s.delivered ++ [e] }

def start (β : Type) : State β := ⟨[], []⟩

def called (cs : List (Call β)) : List (UemEvent β) :=
  cs.filterMap fun
    | .queueEvent e => some e
    | .uemWait => none

/-- No two events of the queue have the same type and the same nonzero error number. -/
def NoRepeats (s : State β) : Prop := s.queue.Pairwise fun cur e => ¬ e.Repeats cur

instance (s : State β) : Decidable (NoRepeats s) := inferInstanceAs (Decidable (Pairwise _ _))

/-- The call does not queue the error of the last event again. -/
def UnlikeLast (s : State β) : Call β → Prop
  | .queueEvent e => ∀ cur ∈ s.queue.getLast?, ¬ e.Repeats cur
  | .uemWait => True

/-! ## The walk -/

variable {e : UemEvent β} {q : List (UemEvent β)} {s s' : State β} {c : Call β}

lemma walk_eq_true_iff : walk e q = true ↔ ∃ cur ∈ q.dropLast, e.Repeats cur := by
  fun_induction walk e q with
  | case1 cur next q h => simp [h]
  | case2 cur next q h ih => simp [h, ih]
  | case3 q h =>
    match q with
    | [] | [_] => simp
    | cur :: next :: q => exact (h cur next q rfl).elim

lemma repeats_iff : (∃ cur ∈ q, e.Repeats cur) ↔
    walk e q = true ∨ ∃ cur ∈ q.getLast?, e.Repeats cur := by
  rw [walk_eq_true_iff]
  induction q using reverseRecOn with
  | nil => simp
  | append_singleton q last => simp [or_and_right, exists_or]

lemma noRepeats_append_iff {d : List (UemEvent β)} (h : NoRepeats s) :
    NoRepeats ⟨s.queue ++ [e], d⟩ ↔ ¬ ∃ cur ∈ s.queue, e.Repeats cur := by
  simp only [NoRepeats, pairwise_append, mem_singleton, forall_eq, not_exists, not_and]
  exact ⟨fun hp => hp.2.2, fun hp => ⟨h, pairwise_singleton .., hp⟩⟩

lemma NoRepeats.step (h : NoRepeats s) (hst : step s c = some s') (hc : UnlikeLast s c) :
    NoRepeats s' := by
  revert hst
  fun_cases Uem.step s c with
  | case1 e =>
    rintro ⟨⟩
    rw [queueEvent]
    split
    · exact h
    · rename_i hw
      rw [noRepeats_append_iff h, repeats_iff]
      rintro (hw' | ⟨cur, hcur, hr⟩)
      · exact hw hw'
      · exact hc cur hcur hr
  | case2 => nofun
  | case3 e q hq =>
    rintro ⟨⟩
    rw [NoRepeats, hq] at h
    exact h.of_cons

/-- A call that queues the error of the last event links it a second time: no event before the last
one has this error, so the walk does not find it. -/
lemma NoRepeats.not_step (h : NoRepeats s) (hst : Uem.step s c = some s')
    (hc : ¬ UnlikeLast s c) : ¬ NoRepeats s' := by
  cases c with
  | uemWait => exact absurd trivial hc
  | queueEvent e =>
    obtain rfl := Option.some.inj hst
    simp only [UnlikeLast, not_forall, not_not] at hc
    obtain ⟨last, hlast, hr⟩ := hc
    have hw : walk e s.queue = false := by
      rw [Bool.eq_false_iff, ne_eq, walk_eq_true_iff]
      rintro ⟨cur, hcur, hr'⟩
      rw [NoRepeats, ← dropLast_append_getLast? last hlast, pairwise_append] at h
      refine h.2.2 cur hcur last (mem_singleton_self last) ?_
      exact ⟨hr.2.2.trans_ne hr.1, hr'.2.1.trans hr.2.1.symm, hr'.2.2.trans hr.2.2.symm⟩
    rw [queueEvent, if_neg (by simp [hw]), noRepeats_append_iff h, not_not]
    exact ⟨last, mem_of_mem_getLast? hlast, hr⟩

/-! ## What is delivered -/

/-- The events that were delivered or are in the queue are events that were queued, in the order of
the calls, with all that carry no error among them. -/
def Ordered (cs : List (Call β)) (s : State β) : Prop :=
  s.delivered ++ s.queue <+ called cs ∧
    (s.delivered ++ s.queue).filter (·.ueErrno = 0) = (called cs).filter (·.ueErrno = 0)

lemma Ordered.step {cs : List (Call β)} (h : Ordered cs s) (hst : Uem.step s c = some s') :
    Ordered (cs ++ [c]) s' := by
  obtain ⟨hsub, hfilter⟩ := h
  revert hst
  fun_cases Uem.step s c with
  | case1 e =>
    rintro ⟨⟩
    have hcalled : called (cs ++ [.queueEvent e]) = called cs ++ [e] := by simp [called]
    rw [Ordered, hcalled, queueEvent]
    split
    · rename_i hw
      obtain ⟨_, -, hr⟩ := walk_eq_true_iff.mp hw
      refine ⟨hsub.trans (sublist_append_left ..), ?_⟩
      rw [hfilter, filter_append, filter_singleton]
      simp [hr.1]
    · rw [← append_assoc, filter_append, hfilter, filter_append]
      exact ⟨hsub.append (.refl _), rfl⟩
  | case2 => nofun
  | case3 e q hq =>
    rintro ⟨⟩
    have hcalled : called (cs ++ [.uemWait]) = called cs := by simp [called]
    rw [Ordered, hcalled, append_assoc, singleton_append, ← hq]
    exact ⟨hsub, hfilter⟩

lemma ordered_of_run {cs : List (Call β)} (hrun : RunFrom step (start β) cs s) : Ordered cs s := by
  induction hrun with
  | nil => exact ⟨.refl _, rfl⟩
  | snoc _ hst _ ih => exact ih.step hst

lemma drains (q d : List (UemEvent β)) :
    replay step ⟨q, d⟩ (replicate q.length .uemWait) = some ⟨[], d ++ q⟩ := by
  induction q generalizing d with
  | nil => simp [replay]
  | cons e q ih => simp [replay, replicate_succ, step, ih]

/-- In every run the events are delivered in order, those without error exactly once each, and the
queue holds no error twice at any time if and only if no call queues an error that equals the last
event. -/
theorem queueEvent_iff {cs : List (Call β)} {s : State β} (hrun : RunFrom step (start β) cs s) :
    (Throughout step NoRepeats (start β) cs s ↔ RunWhen step UnlikeLast (start β) cs s) ∧
      Ordered cs s ∧
      RunFrom step s (replicate s.queue.length .uemWait) ⟨[], s.delivered ++ s.queue⟩ := by
  refine ⟨throughout_iff (I := NoRepeats) .nil (fun _ => id) (fun _ _ _ h hst hc => h.step hst hc)
    fun _ _ _ h hst hc => h.not_step hst hc, ordered_of_run hrun, ?_⟩
  exact runFrom_of_replay (drains s.queue s.delivered)

def unread : UemEvent Unit := { urType := .svmsg, ueErrno := 22, rest := () }

def ready : UemEvent Unit := { urType := .fdRead, ueErrno := 0, rest := () }

/-- An event without error between two equal errors, of which one is delivered. -/
theorem queueEvent_iff_unread :
    ∃ s : State Unit, RunFrom step (start Unit)
        [.queueEvent unread, .queueEvent ready, .queueEvent unread, .uemWait] s ∧
      (s.delivered ++ s.queue).filter (·.ueErrno = 0) = [ready] := by
  obtain ⟨s, hrun, -⟩ := exists_runFrom step (start Unit)
    [.queueEvent unread, .queueEvent ready, .queueEvent unread, .uemWait] (fun _ => True) rfl
  exact ⟨s, hrun, (queueEvent_iff hrun).2.1.2⟩

/-- The same error is queued twice, the second time right behind the first. -/
theorem queueEvent_twice : ∃ s : State Unit,
    RunFrom step (start Unit) [.queueEvent unread, .queueEvent unread] s ∧ ¬ NoRepeats s :=
  exists_runFrom _ _ _ _ (by decide)

/-! ## The events of a registration are removed -/

section Dequeue

variable {ρ : Type} [DecidableEq ρ]

/-- The loop of `dequeue_event`.  An event is known by the address of its `ue_next`, and `head` is
the address of `event_head`.  The events that are freed are given in order; `none` if there are more
than `fuel` rounds. -/
def dequeueLoop (reg : ℕ → ρ) (p : ρ) (head : ℕ) :
    ℕ → (ℕ → ℕ) → ℕ → ℕ → Option ((ℕ → ℕ) × List ℕ)
  | 0, _, _, _ => none
  | fuel + 1, mem, prev, cur =>
    if cur = 0 then some (mem, [])
    else
      let next := mem cur
      if reg cur = p then
        let mem := update mem (if prev = 0 then head else prev) next
        (dequeueLoop reg p head fuel mem prev next).map fun r => (r.1, cur :: r.2)
      else dequeueLoop reg p head fuel mem cur next

structure Queue where
  mem : ℕ → ℕ
  head : ℕ
  events : List ℕ
  linked : Linked (fun x v => mem x = v) head events
  nodup : (head :: events).Nodup

/-- `dequeue_event (p)`, where `prev` is what the variable holds before it is set. -/
def Queue.dequeueEvent (q : Queue) (reg : ℕ → ρ) (p : ρ) (prev fuel : ℕ) :
    Option ((ℕ → ℕ) × List ℕ) :=
  dequeueLoop reg p q.head fuel q.mem prev (q.mem q.head)

/-- The events of other registrations stay in the queue, and those of `p` are freed once each. -/
def Queue.Removes (q : Queue) (reg : ℕ → ρ) (p : ρ) (prev : ℕ) : Prop :=
  ∃ fuel mem, q.dequeueEvent reg p prev fuel = some (mem, q.events.filter (reg · = p)) ∧
    Linked (fun x v => mem x = v) q.head (q.events.filter (reg · ≠ p))

variable {reg : ℕ → ρ} {p : ρ} {head prev : ℕ} {mem : ℕ → ℕ}

/-- The loop behind the events `V` that stay, when `prev` leads to the events `R` ahead. -/
lemma dequeueLoop_eq (reg : ℕ → ρ) (p : ρ) (R : List ℕ) :
    ∀ (V : List ℕ) (prev : ℕ) {mem : ℕ → ℕ}, Linked (fun x v => mem x = v) head (V ++ R) →
    (head :: (V ++ R)).Nodup →
    (if prev = 0 then head else prev) = lastCell head V →
    ∃ mem', dequeueLoop reg p head (R.length + 1) mem prev (headAddr R) =
        some (mem', R.filter (reg · = p)) ∧
      Linked (fun x v => mem' x = v) head (V ++ R.filter (reg · ≠ p)) := by
  induction R with
  | nil =>
    intro V prev mem h _ _
    exact ⟨mem, by simp [dequeueLoop], by simpa using h⟩
  | cons o R ih =>
    intro V prev mem h hnd hprev
    obtain ⟨-, ho, hrest⟩ := h.drop_prefix
    have hnext : mem o = headAddr R := hrest.cell_head
    rw [length_cons, dequeueLoop, headAddr_cons, if_neg ho, hnext]
    by_cases hreg : reg o = p
    · have hlinked : Linked (fun x v => update mem (lastCell head V) (headAddr R) x = v) head
          (V ++ R) :=
        h.unlink (update_self ..) (fun x _ hx v hv => (update_of_ne hx ..).trans hv) hnd
      have hnd' : (head :: (V ++ R)).Nodup := hnd.sublist (by simp)
      obtain ⟨mem', hloop, hmem'⟩ := ih V prev hlinked hnd' hprev
      exact ⟨mem', by simp [hreg, hprev, hloop], by simpa [hreg] using hmem'⟩
    · have happend : V ++ o :: R = V ++ [o] ++ R := by simp
      rw [happend] at h hnd
      obtain ⟨mem', hloop, hmem'⟩ := ih _ o h hnd (by simp [ho])
      exact ⟨mem', by simp [hreg, hloop], by simpa [hreg] using hmem'⟩

lemma dequeueLoop_head {fuel cur : ℕ} {os freed : List ℕ} {mem' : ℕ → ℕ}
    (hloop : dequeueLoop reg p head fuel mem prev cur = some (mem', freed)) (hhead : head ∉ os)
    (hmem : ∀ x ∈ os, mem x ∈ 0 :: os) (hcur : cur ∈ 0 :: os) (h0 : prev ≠ 0)
    (hprev : prev ≠ head) : mem' head = mem head := by
  induction fuel generalizing mem prev cur freed with
  | zero => cases hloop
  | succ fuel ih =>
    rw [dequeueLoop, if_neg h0] at hloop
    split_ifs at hloop with hz hreg
    · obtain ⟨rfl, -⟩ := Prod.mk.inj (Option.some.inj hloop)
      rfl
    · obtain ⟨⟨mem₁, freed₁⟩, hrest, heq⟩ := Option.map_eq_some_iff.mp hloop
      obtain ⟨rfl, -⟩ := Prod.mk.inj heq
      have hnext := hmem cur ((mem_cons.mp hcur).resolve_left hz)
      refine (ih hrest (fun x hx => ?_) hnext h0 hprev).trans (update_of_ne hprev.symm ..)
      rcases eq_or_ne x prev with rfl | hx'
      · rwa [update_self]
      · rw [update_of_ne hx']
        exact hmem x hx
    · have hcur := (mem_cons.mp hcur).resolve_left hz
      exact ih hloop hmem (hmem cur hcur) hz fun he => hhead (he ▸ hcur)

lemma mem_of_linked {a : ℕ} {os : List ℕ} (h : Linked (fun x v => mem x = v) a os) :
    ∀ x ∈ a :: os, mem x ∈ 0 :: os := by
  induction os generalizing a with
  | nil =>
    have ha : mem a = 0 := h
    simp [ha]
  | cons o os ih =>
    obtain ⟨ha, -, hrest⟩ := h
    have := ih hrest
    rintro x (_ | ⟨_, hx⟩)
    · simp [ha]
    · simpa using (mem_cons.mp (this x hx)).imp_right .inr

/-- `dequeue_event` does what it should if and only if the event at the head is not one of `p`, or
`prev` happens to be `NULL` or to lead to `event_head`. -/
theorem dequeueEvent_iff (q : Queue) (reg : ℕ → ρ) (p : ρ) (prev : ℕ) :
    q.Removes reg p prev ↔ prev = 0 ∨ prev = q.head ∨ ∀ e ∈ q.events.head?, reg e ≠ p := by
  obtain ⟨mem, head, os, hlinked, hnodup⟩ := q
  have hcell : mem head = headAddr os := hlinked.cell_head
  constructor
  · rintro ⟨fuel, mem', hloop, hmem'⟩
    by_contra! hnot
    obtain ⟨h0, hne, o, ho, hreg⟩ := hnot
    obtain ⟨R, rfl⟩ := head?_eq_some_iff.mp ho
    have hkeep : mem' head = mem head := dequeueLoop_head hloop (nodup_cons.mp hnodup).1
      (fun x hx => mem_of_linked hlinked x (mem_cons_of_mem _ hx))
      (mem_of_linked hlinked head mem_cons_self) h0 hne
    have hstay := mem_of_linked hmem' head mem_cons_self
    -- `event_head` still leads to the event, which has been freed
    rw [hkeep, hcell, headAddr_cons] at hstay
    have ho0 : o ≠ 0 := hlinked.2.1
    simp [ho0, hreg] at hstay
  · intro h
    rcases os with - | ⟨o, R⟩
    · exact ⟨1, mem, by simp [Queue.dequeueEvent, dequeueLoop, hcell], by simpa using hlinked⟩
    have ho0 : o ≠ 0 := hlinked.2.1
    rw [← or_assoc] at h
    rcases h with hprev | hreg
    · obtain ⟨mem', hloop, hmem'⟩ := dequeueLoop_eq reg p (o :: R) [] prev hlinked hnodup
        (by grind [lastCell])
      exact ⟨_, mem', by simpa [Queue.dequeueEvent, hcell] using hloop, hmem'⟩
    · have hreg : reg o ≠ p := hreg o rfl
      have hnext : mem o = headAddr R := hlinked.2.2.cell_head
      obtain ⟨mem', hloop, hmem'⟩ := dequeueLoop_eq reg p R [o] o hlinked hnodup (by simp [ho0])
      refine ⟨R.length + 2, mem', ?_, by simpa [hreg] using hmem'⟩
      change dequeueLoop reg p head (R.length + 2) mem prev (mem head) = _
      rw [hcell, headAddr_cons, dequeueLoop, if_neg ho0, hnext]
      simpa [hreg] using hloop

def oneQueued : Queue where
  mem := fun x => if x = 1 then 2 else 0
  head := 1
  events := [2]
  linked := ⟨rfl, Nat.succ_ne_zero 1, rfl⟩
  nodup := by decide

/-- Its registration is removed while `prev` holds a stray address: the event is freed, and
`event_head` still leads to it. -/
theorem dequeueEvent_stray : ∃ mem,
    oneQueued.dequeueEvent (fun _ => ()) () 5 2 = some (mem, [2]) ∧ mem oneQueued.head = 2 :=
  ⟨_, rfl, rfl⟩

end Dequeue

end UnixPrograms.Uem
