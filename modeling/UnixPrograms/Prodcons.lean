import UnixPrograms.Lib.Runs
import UnixPrograms.Lib.Tokens
import Mathlib.Data.Fintype.Sum

/-!
# Producers and consumers: prodcons4.c

Any number of producers put `nitems` items into `NBUFF` slots and any number of consumers take them
out, with the semaphores `mutex`, `nempty` and `nstored`.  When all items are stored or fetched, a
unit of `nstored` is passed on to wake the next consumer.  The code between a wait for `mutex` and
the post is one step (`mutex_excludes`).  The items come out in order, and the threads never get
stuck (`prodcons_correct`).
-/

namespace UnixPrograms.Prodcons

open Function List Option

def NBUFF : ℕ := 10

def slot (n : ℕ) : Fin NBUFF := ⟨n % NBUFF, Nat.mod_lt n (by decide)⟩

inductive Sem where
  | mutex
  | nempty
  | nstored
  deriving DecidableEq

inductive ProducePc where
  | waitNempty
  | waitMutex
  | test
  | postMutex
  | postNstored
  /-- In front of `*((int *) arg) += 1`. -/
  | count
  /-- All items are stored: the three posts of the last round. -/
  | endNstored
  | endNempty
  | endMutex
  | returned
  deriving DecidableEq

/-- Where a consumer is in `consume`. -/
inductive ConsumePc where
  | waitNstored
  | waitMutex
  | test
  | postMutex
  | postNempty
  /-- In front of `*((int *) arg) += 1`. -/
  | count
  /-- All items are fetched: the two posts of the last round. -/
  | endNstored
  | endMutex
  | returned
  deriving DecidableEq

/-- A thread, with what its argument points to. -/
structure Thread (π : Type) where
  pc : π
  arg : ℕ

/-- The shared data, the semaphores and the threads, with the values that have been stored and
fetched so far, and the slots and values of the error messages. -/
structure State (P C : Type) where
  sem : Sem → ℕ
  buff : Fin NBUFF → ℕ
  nput : ℕ
  nputval : ℕ
  nget : ℕ
  ngetval : ℕ
  producer : P → Thread ProducePc
  consumer : C → Thread ConsumePc
  stored : List ℕ
  fetched : List ℕ
  errors : List (Fin NBUFF × ℕ)

def semInit : Sem → ℕ
  | .mutex => 1
  | .nempty => NBUFF
  | .nstored => 0

def start (P C : Type) : State P C where
  sem := semInit
  buff _ := 0
  nput := 0
  nputval := 0
  nget := 0
  ngetval := 0
  producer _ := ⟨.waitNempty, 0⟩
  consumer _ := ⟨.waitNstored, 0⟩
  stored := []
  fetched := []
  errors := []

section Step

variable {P C : Type}

def State.semWait (k : Sem) (s : State P C) : Option (State P C) :=
  if s.sem k = 0 then none else some { s with sem := update s.sem k (s.sem k - 1) }

@[simps]
def State.semPost (k : Sem) (s : State P C) : State P C :=
  { s with sem := update s.sem k (s.sem k + 1) }

@[simps]
def State.store (s : State P C) : State P C :=
  { s with
    buff := update s.buff (slot s.nput) s.nputval
    nput := s.nput + 1
    nputval := s.nputval + 1
    stored := s.stored ++ [s.nputval] }

/-- A consumer compares the next item with the value that it should have. -/
@[simps]
def State.fetch (s : State P C) : State P C :=
  { s with
    nget := s.nget + 1
    ngetval := s.ngetval + 1
    fetched := s.fetched ++ [s.buff (slot s.nget)]
    errors :=
      if s.buff (slot s.nget) ≠ s.ngetval then
        s.errors ++ [(slot s.nget, s.buff (slot s.nget))]
      else s.errors }

variable [DecidableEq P] [DecidableEq C]

@[simps]
def State.putProducer (p : P) (x : Thread ProducePc) (s : State P C) : State P C :=
  { s with producer := update s.producer p x }

@[simps]
def State.putConsumer (c : C) (x : Thread ConsumePc) (s : State P C) : State P C :=
  { s with consumer := update s.consumer c x }

def produce (nitems : ℕ) (s : State P C) (p : P) : Option (State P C) :=
  let go (pc : ProducePc) : State P C → State P C := State.putProducer p ⟨pc, (s.producer p).arg⟩
  match (s.producer p).pc with
  | .waitNempty => (s.semWait .nempty).map (go .waitMutex)
  | .waitMutex => (s.semWait .mutex).map (go .test)
  | .test =>
    if nitems ≤ s.nput then some (go .endNstored s) else some (go .postMutex s.store)
  | .postMutex => some (go .postNstored (s.semPost .mutex))
  | .postNstored => some (go .count (s.semPost .nstored))
  | .count => some (s.putProducer p ⟨.waitNempty, (s.producer p).arg + 1⟩)
  | .endNstored => some (go .endNempty (s.semPost .nstored))
  | .endNempty => some (go .endMutex (s.semPost .nempty))
  | .endMutex => some (go .returned (s.semPost .mutex))
  | .returned => none

def consume (nitems : ℕ) (s : State P C) (c : C) : Option (State P C) :=
  let go (pc : ConsumePc) : State P C → State P C := State.putConsumer c ⟨pc, (s.consumer c).arg⟩
  match (s.consumer c).pc with
  | .waitNstored => (s.semWait .nstored).map (go .waitMutex)
  | .waitMutex => (s.semWait .mutex).map (go .test)
  | .test =>
    if nitems ≤ s.nget then some (go .endNstored s) else some (go .postMutex s.fetch)
  | .postMutex => some (go .postNempty (s.semPost .mutex))
  | .postNempty => some (go .count (s.semPost .nempty))
  | .count => some (s.putConsumer c ⟨.waitNstored, (s.consumer c).arg + 1⟩)
  | .endNstored => some (go .endMutex (s.semPost .nstored))
  | .endMutex => some (go .returned (s.semPost .mutex))
  | .returned => none

def step (nitems : ℕ) (s : State P C) : P ⊕ C → Option (State P C)
  | .inl p => produce nitems s p
  | .inr c => consume nitems s c

end Step

/-! ## Where the units of the semaphores are -/

/-- The units that a producer holds.  In its last round it posts `nstored` without having waited. -/
def ProducePc.held : ProducePc → Sem → ℤ
  | .test, .mutex | .postMutex, .mutex | .endNstored, .mutex | .endNempty, .mutex
  | .endMutex, .mutex => 1
  | .waitMutex, .nempty | .test, .nempty | .endNstored, .nempty | .endNempty, .nempty => 1
  | .postMutex, .nstored | .postNstored, .nstored => 1
  | .endNempty, .nstored | .endMutex, .nstored | .returned, .nstored => -1
  | _, _ => 0

def ConsumePc.held : ConsumePc → Sem → ℤ
  | .test, .mutex | .postMutex, .mutex | .endNstored, .mutex | .endMutex, .mutex => 1
  | .postMutex, .nempty | .postNempty, .nempty => 1
  | .waitMutex, .nstored | .test, .nstored | .endNstored, .nstored => 1
  | _, _ => 0

def ProducePc.uncounted : ProducePc → ℕ
  | .postMutex | .postNstored | .count => 1
  | _ => 0

def ConsumePc.uncounted : ConsumePc → ℕ
  | .postMutex | .postNempty | .count => 1
  | _ => 0

def ProducePc.ending : ProducePc → Bool
  | .endNstored | .endNempty | .endMutex | .returned => true
  | _ => false

def ConsumePc.ending : ConsumePc → Bool
  | .endNstored | .endMutex | .returned => true
  | _ => false

section Invariant

variable {P C : Type}

/-- The items that the threads have counted or will still count. -/
def counted {ι π : Type} [Fintype ι] (uncounted : π → ℕ) (f : ι → Thread π) : ℕ :=
  ∑ i, ((f i).arg + uncounted (f i).pc)

lemma counted_update {ι π : Type} [Fintype ι] [DecidableEq ι] (uncounted : π → ℕ)
    (f : ι → Thread π) (i : ι) (x : Thread π) :
    counted uncounted (update f i x) + ((f i).arg + uncounted (f i).pc) =
      counted uncounted f + (x.arg + uncounted x.pc) :=
  sum_update_add (fun y : Thread π => y.arg + uncounted y.pc) f i x

lemma counted_succ {ι π : Type} [Fintype ι] [DecidableEq ι] {uncounted : π → ℕ} {f : ι → Thread π}
    {i : ι} {pc : π} (hold : uncounted (f i).pc = 0) (hnew : uncounted pc = 1) :
    counted uncounted (update f i ⟨pc, (f i).arg⟩) = counted uncounted f + 1 := by
  have hsum := counted_update uncounted f i ⟨pc, (f i).arg⟩
  dsimp only at hsum
  rw [hold, hnew] at hsum
  omega

def State.held (s : State P C) : P ⊕ C → Sem → ℤ :=
  Sum.elim (fun p => (s.producer p).pc.held) fun c => (s.consumer c).pc.held

/-- The units that there are.  A slot without an item counts for `nempty`, one with an item for
`nstored`. -/
def State.total (s : State P C) : Sem → ℤ
  | .mutex => 1
  | .nempty => NBUFF + s.nget - s.nput
  | .nstored => s.nput - s.nget

lemma held_mutex_nonneg (s : State P C) (i : P ⊕ C) : 0 ≤ s.held i .mutex := by
  rcases i with p | c
  · change 0 ≤ (s.producer p).pc.held .mutex
    cases (s.producer p).pc <;> decide
  · change 0 ≤ (s.consumer c).pc.held .mutex
    cases (s.consumer c).pc <;> decide

lemma held_nempty_nonneg (s : State P C) (i : P ⊕ C) : 0 ≤ s.held i .nempty := by
  rcases i with p | c
  · change 0 ≤ (s.producer p).pc.held .nempty
    cases (s.producer p).pc <;> decide
  · change 0 ≤ (s.consumer c).pc.held .nempty
    cases (s.consumer c).pc <;> decide

section Held

variable [DecidableEq P] [DecidableEq C]

lemma held_putProducer (s : State P C) (p : P) (x : Thread ProducePc) :
    (s.putProducer p x).held = update s.held (.inl p) x.pc.held := by
  have hpc : (fun q => ((s.putProducer p x).producer q).pc.held) =
      update (fun q => (s.producer q).pc.held) p x.pc.held :=
    comp_update (fun y : Thread ProducePc => y.pc.held) s.producer p x
  rw [State.held, hpc, ← Sum.update_elim_inl]
  rfl

lemma held_putConsumer (s : State P C) (c : C) (x : Thread ConsumePc) :
    (s.putConsumer c x).held = update s.held (.inr c) x.pc.held := by
  have hpc : (fun q => ((s.putConsumer c x).consumer q).pc.held) =
      update (fun q => (s.consumer q).pc.held) c x.pc.held :=
    comp_update (fun y : Thread ConsumePc => y.pc.held) s.consumer c x
  rw [State.held, hpc, ← Sum.update_elim_inr]
  rfl

end Held

/-- What holds in every state of a run. -/
structure Inv [Fintype P] [Fintype C] (nitems : ℕ) (s : State P C) : Prop where
  balanced : Balanced s.sem s.held s.total
  putval : s.nputval = s.nput
  getval : s.ngetval = s.nget
  put_le : s.nput ≤ nitems
  get_le : s.nget ≤ s.nput
  buff : ∀ n, s.nget ≤ n → n < s.nput → s.buff (slot n) = n
  producer_ending : ∀ p, (s.producer p).pc.ending = true → nitems ≤ s.nput
  consumer_ending : ∀ c, (s.consumer c).pc.ending = true → nitems ≤ s.nget
  prodcount : counted ProducePc.uncounted s.producer = s.nput
  conscount : counted ConsumePc.uncounted s.consumer = s.nget
  stored : s.stored = range s.nput
  fetched : s.fetched = range s.nget
  errors : s.errors = []

variable [Fintype P] [Fintype C] {nitems : ℕ} {s : State P C}

lemma Inv.start (nitems : ℕ) : Inv nitems (start P C) where
  balanced := by
    intro k
    have hzero : ∀ i, (Prodcons.start P C).held i k = 0 := by
      rintro (p | c) <;> cases k <;> rfl
    rw [Finset.sum_eq_zero fun i _ => hzero i, add_zero]
    cases k <;> rfl
  putval := rfl
  getval := rfl
  put_le := Nat.zero_le _
  get_le := le_rfl
  buff n _ hn := absurd hn (Nat.not_lt_zero n)
  producer_ending p hp := by cases hp
  consumer_ending c hc := by cases hc
  prodcount := Finset.sum_eq_zero fun _ _ => rfl
  conscount := Finset.sum_eq_zero fun _ _ => rfl
  stored := rfl
  fetched := rfl
  errors := rfl

/-! ## What the invariant says about a thread in the critical section -/

lemma Inv.held_nstored_nonneg (h : Inv nitems s) (hlt : s.nput < nitems) (i : P ⊕ C) :
    0 ≤ s.held i .nstored := by
  rcases i with p | c
  · have hp := mt (h.producer_ending p) (not_le.mpr hlt)
    change 0 ≤ (s.producer p).pc.held .nstored
    revert hp
    cases (s.producer p).pc <;> decide
  · change 0 ≤ (s.consumer c).pc.held .nstored
    cases (s.consumer c).pc <;> decide

lemma Inv.lt_of_test (h : Inv nitems s) {p : P} (hpc : (s.producer p).pc = .test) :
    s.nput < s.nget + NBUFF := by
  have hone : s.held (.inl p) .nempty = 1 := by
    change (s.producer p).pc.held .nempty = 1
    rw [hpc]
    rfl
  have hle := h.balanced.held_le (held_nempty_nonneg s) (.inl p)
  rw [hone] at hle
  change (1 : ℤ) ≤ NBUFF + s.nget - s.nput at hle
  omega

lemma Inv.get_lt_of_test (h : Inv nitems s) {c : C} (hpc : (s.consumer c).pc = .test)
    (hget : s.nget < nitems) : s.nget < s.nput := by
  by_contra hput
  have hlt : s.nput < nitems := by omega
  have hone : s.held (.inr c) .nstored = 1 := by
    change (s.consumer c).pc.held .nstored = 1
    rw [hpc]
    rfl
  have hle := h.balanced.held_le (h.held_nstored_nonneg hlt) (.inr c)
  rw [hone] at hle
  change (1 : ℤ) ≤ s.nput - s.nget at hle
  omega

lemma slot_ne_of_lt {m n : ℕ} (hmn : m < n) (hlt : n < m + NBUFF) : slot m ≠ slot n := by
  intro h
  have hmod : m % NBUFF = n % NBUFF := congrArg Fin.val h
  unfold NBUFF at hlt hmod
  omega

/-! ## Every step keeps the invariant -/

variable [DecidableEq P] [DecidableEq C] {p : P} {c : C} {k : Sem} {pc pc' : ProducePc}
  {s' : State P C}

omit [Fintype P] [Fintype C] [DecidableEq P] [DecidableEq C] in
lemma semWait_map_eq_some {f : State P C → State P C} (h : (s.semWait k).map f = some s') :
    s.sem k ≠ 0 ∧ s' = f { s with sem := update s.sem k (s.sem k - 1) } := by
  obtain ⟨t, ht, rfl⟩ := map_eq_some_iff.mp h
  obtain ⟨hsem, ht⟩ := ite_none_left_eq_some.mp ht
  exact ⟨hsem, congrArg f (some.inj ht).symm⟩

section

variable (h : Inv nitems s)
include h

lemma Inv.move_producer {arg : ℕ} {sem : Sem → ℕ}
    (hpc : (s.producer p).pc = pc) (hheld : ∀ k, (sem k : ℤ) + pc'.held k = s.sem k + pc.held k)
    (hending : pc'.ending = true → nitems ≤ s.nput)
    (hcount : arg + pc'.uncounted = (s.producer p).arg + pc.uncounted) :
    Inv nitems ({ s with sem := sem }.putProducer p ⟨pc', arg⟩) :=
  { h with
    balanced := by
      rw [held_putProducer]
      apply h.balanced.update
      intro k
      subst hpc
      exact congrArg (· + s.total k) (hheld k)
    producer_ending := by
      apply (forall_update_iff s.producer fun _ y => y.pc.ending = true → nitems ≤ s.nput).mpr
      exact ⟨hending, fun q _ => h.producer_ending q⟩
    prodcount := by
      have hsum := counted_update ProducePc.uncounted s.producer p ⟨pc', arg⟩
      rw [hpc, hcount, h.prodcount] at hsum
      exact Nat.add_right_cancel hsum }

lemma Inv.store (hpc : (s.producer p).pc = .test) (hlt : s.nput < nitems) :
    Inv nitems (s.store.putProducer p ⟨.postMutex, (s.producer p).arg⟩) :=
  { h with
    balanced := by
      rw [held_putProducer]
      apply h.balanced.update
      intro k
      have hheld : s.held (.inl p) = ProducePc.test.held := congrArg ProducePc.held hpc
      rw [hheld]
      cases k with
      | mutex => rfl
      | nempty =>
        change (s.sem .nempty : ℤ) + 0 + (NBUFF + s.nget - s.nput) =
          s.sem .nempty + 1 + (NBUFF + s.nget - (s.nput + 1 : ℕ))
        omega
      | nstored =>
        change (s.sem .nstored : ℤ) + 1 + (s.nput - s.nget) =
          s.sem .nstored + 0 + ((s.nput + 1 : ℕ) - s.nget)
        omega
    putval := congrArg (· + 1) h.putval
    put_le := hlt
    get_le := h.get_le.trans (Nat.le_succ _)
    buff n hget hput := by
      rcases Nat.lt_succ_iff_lt_or_eq.mp hput with hn | rfl
      · have hne : slot n ≠ slot s.nput := slot_ne_of_lt hn (by
          have := h.lt_of_test hpc
          change s.nget ≤ n at hget
          omega)
        change update s.buff (slot s.nput) s.nputval (slot n) = n
        rw [update_of_ne hne]
        exact h.buff n hget hn
      · change update s.buff (slot s.nput) s.nputval (slot s.nput) = s.nput
        rw [update_self, h.putval]
    producer_ending := by
      apply (forall_update_iff s.producer fun _ y => y.pc.ending = true → nitems ≤ s.nput + 1).mpr
      exact ⟨nofun, fun q _ hq => (h.producer_ending q hq).trans (Nat.le_succ _)⟩
    prodcount := by
      have hold : (s.producer p).pc.uncounted = 0 := congrArg ProducePc.uncounted hpc
      exact (counted_succ hold rfl).trans (congrArg (· + 1) h.prodcount)
    stored := by
      change s.stored ++ [s.nputval] = range (s.nput + 1)
      rw [h.stored, h.putval, range_succ] }

lemma Inv.produce (hs' : produce nitems s p = some s') : Inv nitems s' := by
  have hending := h.producer_ending p
  unfold Prodcons.produce at hs'
  dsimp only at hs'
  cases hpc : (s.producer p).pc with (rw [hpc] at hs' hending; dsimp only at hs')
  | waitNempty | waitMutex =>
    obtain ⟨hsem, rfl⟩ := semWait_map_eq_some hs'
    exact h.move_producer hpc (sem_wait_add hsem fun j => by cases j <;> rfl) nofun rfl
  | test =>
    split_ifs at hs' with hle
    · obtain rfl := some.inj hs'
      exact h.move_producer hpc (fun k => by cases k <;> rfl) (fun _ => hle) rfl
    · obtain rfl := some.inj hs'
      exact h.store hpc (not_le.mp hle)
  | postMutex | postNstored =>
    obtain rfl := some.inj hs'
    exact h.move_producer hpc (sem_post_add fun j => by cases j <;> rfl) nofun rfl
  | count =>
    obtain rfl := some.inj hs'
    exact h.move_producer hpc (fun k => by cases k <;> rfl) nofun rfl
  | endNstored | endNempty | endMutex =>
    obtain rfl := some.inj hs'
    exact h.move_producer hpc (sem_post_add fun j => by cases j <;> rfl) hending rfl
  | returned => cases hs'

lemma Inv.move_consumer {pc pc' : ConsumePc} {arg : ℕ} {sem : Sem → ℕ}
    (hpc : (s.consumer c).pc = pc) (hheld : ∀ k, (sem k : ℤ) + pc'.held k = s.sem k + pc.held k)
    (hending : pc'.ending = true → nitems ≤ s.nget)
    (hcount : arg + pc'.uncounted = (s.consumer c).arg + pc.uncounted) :
    Inv nitems ({ s with sem := sem }.putConsumer c ⟨pc', arg⟩) :=
  { h with
    balanced := by
      rw [held_putConsumer]
      apply h.balanced.update
      intro k
      subst hpc
      exact congrArg (· + s.total k) (hheld k)
    consumer_ending := by
      apply (forall_update_iff s.consumer fun _ y => y.pc.ending = true → nitems ≤ s.nget).mpr
      exact ⟨hending, fun q _ => h.consumer_ending q⟩
    conscount := by
      have hsum := counted_update ConsumePc.uncounted s.consumer c ⟨pc', arg⟩
      rw [hpc, hcount, h.conscount] at hsum
      exact Nat.add_right_cancel hsum }

lemma Inv.fetch (hpc : (s.consumer c).pc = .test) (hlt : s.nget < nitems) :
    Inv nitems (s.fetch.putConsumer c ⟨.postMutex, (s.consumer c).arg⟩) := by
  have hput : s.nget < s.nput := h.get_lt_of_test hpc hlt
  have hitem : s.buff (slot s.nget) = s.nget := h.buff s.nget le_rfl hput
  exact { h with
    balanced := by
      rw [held_putConsumer]
      apply h.balanced.update
      intro k
      have hheld : s.held (.inr c) = ConsumePc.test.held := congrArg ConsumePc.held hpc
      rw [hheld]
      cases k with
      | mutex => rfl
      | nempty =>
        change (s.sem .nempty : ℤ) + 1 + (NBUFF + s.nget - s.nput) =
          s.sem .nempty + 0 + (NBUFF + (s.nget + 1 : ℕ) - s.nput)
        omega
      | nstored =>
        change (s.sem .nstored : ℤ) + 0 + (s.nput - s.nget) =
          s.sem .nstored + 1 + (s.nput - (s.nget + 1 : ℕ))
        omega
    getval := congrArg (· + 1) h.getval
    get_le := hput
    buff := fun n hn => h.buff n ((Nat.le_succ _).trans hn)
    consumer_ending := by
      apply (forall_update_iff s.consumer
        fun _ y => y.pc.ending = true → nitems ≤ s.nget + 1).mpr
      exact ⟨nofun, fun q _ hq => (h.consumer_ending q hq).trans (Nat.le_succ _)⟩
    conscount := by
      have hold : (s.consumer c).pc.uncounted = 0 := congrArg ConsumePc.uncounted hpc
      exact (counted_succ hold rfl).trans (congrArg (· + 1) h.conscount)
    fetched := by
      change s.fetched ++ [s.buff (slot s.nget)] = range (s.nget + 1)
      rw [h.fetched, hitem, range_succ]
    errors := by
      have hval : ¬ s.buff (slot s.nget) ≠ s.ngetval := by rw [hitem, h.getval, not_not]
      change (if s.buff (slot s.nget) ≠ s.ngetval then _ else s.errors) = []
      rw [if_neg hval, h.errors] }

lemma Inv.consume (hs' : consume nitems s c = some s') : Inv nitems s' := by
  have hending := h.consumer_ending c
  unfold Prodcons.consume at hs'
  dsimp only at hs'
  cases hpc : (s.consumer c).pc with (rw [hpc] at hs' hending; dsimp only at hs')
  | waitNstored | waitMutex =>
    obtain ⟨hsem, rfl⟩ := semWait_map_eq_some hs'
    exact h.move_consumer hpc (sem_wait_add hsem fun j => by cases j <;> rfl) nofun rfl
  | test =>
    split_ifs at hs' with hle
    · obtain rfl := some.inj hs'
      exact h.move_consumer hpc (fun k => by cases k <;> rfl) (fun _ => hle) rfl
    · obtain rfl := some.inj hs'
      exact h.fetch hpc (not_le.mp hle)
  | postMutex | postNempty =>
    obtain rfl := some.inj hs'
    exact h.move_consumer hpc (sem_post_add fun j => by cases j <;> rfl) nofun rfl
  | count =>
    obtain rfl := some.inj hs'
    exact h.move_consumer hpc (fun k => by cases k <;> rfl) nofun rfl
  | endNstored | endMutex =>
    obtain rfl := some.inj hs'
    exact h.move_consumer hpc (sem_post_add fun j => by cases j <;> rfl) hending rfl
  | returned => cases hs'

end

lemma Inv.of_run {ls : List (P ⊕ C)} (hrun : RunFrom (step nitems) (Prodcons.start P C) ls s) :
    Inv nitems s := by
  apply hrun.invariant (Inv.start nitems)
  rintro s (p | c) s' h hs' -
  · exact h.produce hs'
  · exact h.consume hs'

end Invariant

/-! ## The threads do not get stuck -/

section Progress

variable {P C : Type} {nitems : ℕ} {s : State P C} {p : P} {c : C}

lemma semWait_map_eq_none {k : Sem} {f : State P C → State P C} (h : (s.semWait k).map f = none) :
    s.sem k = 0 := by
  by_contra hk
  rw [State.semWait, if_neg hk] at h
  cases h

def State.Returned (s : State P C) : P ⊕ C → Prop
  | .inl p => (s.producer p).pc = .returned
  | .inr c => (s.consumer c).pc = .returned

variable [DecidableEq P] [DecidableEq C]

/-- Some thread has not returned, and no thread can take a step. -/
def Stuck (nitems : ℕ) (s : State P C) : Prop :=
  (∃ t, ¬ s.Returned t) ∧ ∀ t, step nitems s t = none

omit [DecidableEq C] in
lemma produce_eq_none (h : produce nitems s p = none) :
    ((s.producer p).pc = .waitNempty ∧ s.sem .nempty = 0) ∨
      ((s.producer p).pc = .waitMutex ∧ s.sem .mutex = 0) ∨ (s.producer p).pc = .returned := by
  unfold produce at h
  dsimp only at h
  cases hpc : (s.producer p).pc with (rw [hpc] at h; dsimp only at h)
  | waitNempty => exact .inl ⟨rfl, semWait_map_eq_none h⟩
  | waitMutex => exact .inr (.inl ⟨rfl, semWait_map_eq_none h⟩)
  | returned => exact .inr (.inr rfl)
  | test => split_ifs at h
  | postMutex | postNstored | count | endNstored | endNempty | endMutex => cases h

omit [DecidableEq P] in
lemma consume_eq_none (h : consume nitems s c = none) :
    ((s.consumer c).pc = .waitNstored ∧ s.sem .nstored = 0) ∨
      ((s.consumer c).pc = .waitMutex ∧ s.sem .mutex = 0) ∨ (s.consumer c).pc = .returned := by
  unfold consume at h
  dsimp only at h
  cases hpc : (s.consumer c).pc with (rw [hpc] at h; dsimp only at h)
  | waitNstored => exact .inl ⟨rfl, semWait_map_eq_none h⟩
  | waitMutex => exact .inr (.inl ⟨rfl, semWait_map_eq_none h⟩)
  | returned => exact .inr (.inr rfl)
  | test => split_ifs at h
  | postMutex | postNempty | count | endNstored | endMutex => cases h

variable [Fintype P] [Fintype C]

lemma Inv.mutex_ne_zero (h : Inv nitems s) (hnone : ∀ t, step nitems s t = none) :
    s.sem .mutex ≠ 0 := by
  intro hzero
  obtain ⟨i, hi⟩ := h.balanced.exists_holder hzero Int.one_pos
  rcases i with p | c
  · change 0 < (s.producer p).pc.held .mutex at hi
    rcases produce_eq_none (hnone (.inl p)) with ⟨hpc, -⟩ | ⟨hpc, -⟩ | hpc
    all_goals
      rw [hpc] at hi
      exact absurd hi (by decide)
  · change 0 < (s.consumer c).pc.held .mutex at hi
    rcases consume_eq_none (hnone (.inr c)) with ⟨hpc, -⟩ | ⟨hpc, -⟩ | hpc
    all_goals
      rw [hpc] at hi
      exact absurd hi (by decide)

lemma Inv.blocked (h : Inv nitems s) (hnone : ∀ t, step nitems s t = none) :
    (∀ p, ((s.producer p).pc = .waitNempty ∧ s.sem .nempty = 0) ∨ (s.producer p).pc = .returned) ∧
    ∀ c, ((s.consumer c).pc = .waitNstored ∧ s.sem .nstored = 0) ∨
      (s.consumer c).pc = .returned := by
  have hmutex := h.mutex_ne_zero hnone
  constructor
  · intro p
    rcases produce_eq_none (hnone (.inl p)) with hwait | ⟨-, hzero⟩ | hret
    · exact .inl hwait
    · exact absurd hzero hmutex
    · exact .inr hret
  · intro c
    rcases consume_eq_none (hnone (.inr c)) with hwait | ⟨-, hzero⟩ | hret
    · exact .inl hwait
    · exact absurd hzero hmutex
    · exact .inr hret

lemma Inv.held_blocked (h : Inv nitems s) (hnone : ∀ t, step nitems s t = none) (i : P ⊕ C) :
    s.held i .nempty = 0 ∧ s.held i .nstored ≤ 0 := by
  obtain ⟨hproducer, hconsumer⟩ := h.blocked hnone
  rcases i with p | c
  · change (s.producer p).pc.held .nempty = 0 ∧ (s.producer p).pc.held .nstored ≤ 0
    rcases hproducer p with ⟨hpc, -⟩ | hpc <;> rw [hpc] <;> decide
  · change (s.consumer c).pc.held .nempty = 0 ∧ (s.consumer c).pc.held .nstored ≤ 0
    rcases hconsumer c with ⟨hpc, -⟩ | hpc <;> rw [hpc] <;> decide

lemma Inv.not_stuck [Nonempty P] [Nonempty C] (h : Inv nitems s) : ¬ Stuck nitems s := by
  rintro ⟨⟨t, ht⟩, hnone⟩
  obtain ⟨hproducer, hconsumer⟩ := h.blocked hnone
  have hheld := h.held_blocked hnone
  have hget := h.get_le
  -- With a unit in `nstored`, the consumers have returned.
  have hconsumers : s.sem .nstored ≠ 0 → ∀ c, (s.consumer c).pc = .returned := by
    intro hne c
    exact (hconsumer c).resolve_left fun hwait => hne hwait.2
  have hproducers : ∀ p, (s.producer p).pc = .returned := by
    intro p
    refine (hproducer p).resolve_left ?_
    rintro ⟨-, hempty⟩
    -- All slots are full, so the consumers have returned, but not all items are fetched.
    have hfull : (s.sem .nempty : ℤ) = NBUFF + s.nget - s.nput :=
      h.balanced.sem_eq fun i => (hheld i).1
    have hstored : (s.nput : ℤ) - s.nget - s.held (.inl p) .nstored ≤ s.sem .nstored :=
      h.balanced.le_sem (fun i => (hheld i).2) (.inl p)
    have hneg := (hheld (.inl p)).2
    unfold NBUFF at hfull
    obtain ⟨c⟩ := ‹Nonempty C›
    have hc := hconsumers (by omega) c
    have hdone := h.consumer_ending c (by rw [hc]; rfl)
    have hput := h.put_le
    omega
  obtain ⟨p⟩ := ‹Nonempty P›
  have hextra : s.held (.inl p) .nstored = -1 := congrArg (·.held .nstored) (hproducers p)
  have hstored : (s.nput : ℤ) - s.nget - s.held (.inl p) .nstored ≤ s.sem .nstored :=
    h.balanced.le_sem (fun i => (hheld i).2) (.inl p)
  rcases t with q | c
  · exact ht (hproducers q)
  · exact ht (hconsumers (by omega) c)

omit [DecidableEq P] [DecidableEq C] in
lemma Inv.counts [Nonempty P] [Nonempty C] (h : Inv nitems s) (hret : ∀ t, s.Returned t) :
    s.nput = nitems ∧ s.nget = nitems ∧ ∑ p, (s.producer p).arg = nitems ∧
      ∑ c, (s.consumer c).arg = nitems := by
  have hproducer : ∀ p, (s.producer p).pc = .returned := fun p => hret (.inl p)
  have hconsumer : ∀ c, (s.consumer c).pc = .returned := fun c => hret (.inr c)
  obtain ⟨p⟩ := ‹Nonempty P›
  obtain ⟨c⟩ := ‹Nonempty C›
  have hput : s.nput = nitems :=
    le_antisymm h.put_le (h.producer_ending p (by rw [hproducer p]; rfl))
  have hget : s.nget = nitems :=
    le_antisymm (h.get_le.trans h.put_le) (h.consumer_ending c (by rw [hconsumer c]; rfl))
  refine ⟨hput, hget, ?_, ?_⟩
  · rw [← hput, ← h.prodcount]
    exact Finset.sum_congr rfl fun q _ => by rw [hproducer q]; rfl
  · rw [← hget, ← h.conscount]
    exact Finset.sum_congr rfl fun q _ => by rw [hconsumer q]; rfl

/-- No run gets two threads between a wait for `mutex` and its post. -/
theorem mutex_excludes (nitems : ℕ) : ¬ ∃ (ls : List (P ⊕ C)) (s : State P C),
    RunFrom (step nitems) (Prodcons.start P C) ls s ∧
      ∃ i j, i ≠ j ∧ s.held i .mutex = 1 ∧ s.held j .mutex = 1 := by
  rintro ⟨ls, s, hrun, i, j, hij, hi, hj⟩
  have hle := (Inv.of_run hrun).balanced.add_held_le (held_mutex_nonneg s) hij
  change s.held i .mutex + s.held j .mutex ≤ 1 at hle
  omega

/-- With at least one producer and one consumer, in every state reached: each value fetched is the
one stored at the same place, and no error has been reported; a producer that is about to store an
item does not write to the slot of one that has yet to be fetched; the threads are not stuck; and if
all have returned, exactly `nitems` items have been stored, fetched, counted. -/
theorem prodcons_correct [Nonempty P] [Nonempty C] {ls : List (P ⊕ C)}
    (hrun : RunFrom (step nitems) (Prodcons.start P C) ls s) :
    ((∀ i v : ℕ, s.fetched[i]? = some v → s.stored[i]? = some v) ∧ s.errors = []) ∧
    (∀ p, (s.producer p).pc = .test → s.nput < nitems →
      ∀ n, s.nget ≤ n → n < s.nput → slot n ≠ slot s.nput) ∧
    ¬ Stuck nitems s ∧
    ((∀ t, s.Returned t) → s.stored.length = nitems ∧ s.fetched.length = nitems ∧
        ∑ p, (s.producer p).arg = nitems ∧ ∑ c, (s.consumer c).arg = nitems) := by
  have h := Inv.of_run hrun
  refine ⟨⟨?_, h.errors⟩, ?_, h.not_stuck, ?_⟩
  · intro i v hv
    rw [h.fetched] at hv
    obtain ⟨hi, rfl⟩ := List.getElem?_eq_some_iff.mp hv
    have hlt : i < s.nput := (length_range ▸ hi).trans_le h.get_le
    rw [h.stored, getElem_range, getElem?_range hlt]
  · intro p hpc _ n hget hput
    have hroom := h.lt_of_test hpc
    exact slot_ne_of_lt hput (by omega)
  · intro hret
    obtain ⟨hput, hget, hcounts⟩ := h.counts hret
    rw [h.stored, h.fetched, length_range, length_range]
    exact ⟨hput, hget, hcounts⟩

def oneItem : List (Unit ⊕ Unit) :=
  replicate 6 (.inl ()) ++ replicate 6 (.inr ()) ++ replicate 6 (.inl ()) ++
    replicate 5 (.inr ())

theorem prodcons_correct_oneItem : ∃ s : State Unit Unit,
    RunFrom (step 1) (Prodcons.start Unit Unit) oneItem s ∧ s.errors = [] ∧
      s.stored.length = 1 ∧ s.fetched.length = 1 := by
  obtain ⟨s, hrun, hproducer, hconsumer⟩ :=
    exists_runFrom (step 1) (Prodcons.start Unit Unit) oneItem
      (fun s => (s.producer ()).pc = .returned ∧ (s.consumer ()).pc = .returned) (by decide)
  obtain ⟨⟨-, herrors⟩, -, -, hreturned⟩ := prodcons_correct hrun
  have hret : ∀ t, s.Returned t := by
    rintro (_ | _)
    · exact hproducer
    · exact hconsumer
  obtain ⟨hstored, hfetched, -⟩ := hreturned hret
  exact ⟨s, hrun, herrors, hstored, hfetched⟩

end Progress

end UnixPrograms.Prodcons
