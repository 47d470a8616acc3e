import UnixPrograms.Lib.Runs
import UnixPrograms.Lib.Sums
import Mathlib.Data.Fintype.Card

/-!
# A web client with nonblocking connects

At most `maxnconn` connections are watched by one `select`.  Flags, counters and descriptor sets
agree whenever it is called, and every file is requested and read to its end once (`web_correct`).
-/

namespace UnixPrograms.Web

open Function List Option

inductive Flags where
  | zero
  | connecting
  | reading
  | done
  deriving DecidableEq

/-- A `struct file`, with the number of requests that have been written for it, and of the ends of
file that have been read. -/
structure File where
  fd : ℕ
  flags : Flags
  requests : ℕ
  ends : ℕ

inductive Point (n : ℕ) where
  /-- `while (nlefttoread > 0)`. -/
  | outer
  /-- `while (nconn < maxnconn && nlefttoconn > 0)`. -/
  | connect
  | select
  /-- In the `for` loop behind `Select`, with the files that are left. -/
  | scan (left : List (Fin n))
  | exited
  | quit
  deriving DecidableEq

structure State (n : ℕ) where
  pc : Point n
  file : Fin n → File
  nconn : ℤ
  nlefttoconn : ℤ
  nlefttoread : ℤ
  rset : Finset ℕ
  wset : Finset ℕ
  maxfd : ℤ
  rs : Finset ℕ
  ws : Finset ℕ

/-- What the system calls of a step return. -/
structure Replies where
  socket : ℕ
  /-- `connect` has succeeded, or is in progress. -/
  connected : Bool
  /-- What `select` leaves in `rs` and `ws`. -/
  rs : Finset ℕ
  ws : Finset ℕ
  nread : ℕ

variable {n : ℕ}

def State.put (s : State n) (i : Fin n) (f : File) : State n :=
  { s with file := update s.file i f }

def writeGetCmd (s : State n) (i : Fin n) : State n :=
  let f := s.file i
  { s.put i { f with flags := .reading, requests := f.requests + 1 } with
    rset := insert f.fd s.rset
    maxfd := max s.maxfd f.fd }

def startConnect (s : State n) (i : Fin n) (fd : ℕ) (connected : Bool) : State n :=
  let s := s.put i { s.file i with fd := fd }
  if connected then writeGetCmd s i
  else
    { s.put i { s.file i with flags := .connecting } with
      rset := insert fd s.rset
      wset := insert fd s.wset
      maxfd := max s.maxfd fd }

/-- One round of the `for` loop behind `Select`; no connect fails. -/
def look (s : State n) (i : Fin n) (nread : ℕ) : State n :=
  let f := s.file i
  match f.flags with
  | .zero | .done => s
  | .connecting =>
    if f.fd ∈ s.rs ∨ f.fd ∈ s.ws then writeGetCmd { s with wset := s.wset.erase f.fd } i else s
  | .reading =>
    if f.fd ∈ s.rs ∧ nread = 0 then
      { s.put i { f with flags := .done, ends := f.ends + 1 } with
        rset := s.rset.erase f.fd
        nconn := s.nconn - 1
        nlefttoread := s.nlefttoread - 1 }
    else s

def Flags.active : Flags → Bool
  | .connecting | .reading => true
  | .zero | .done => false

/-- One step of `main`.  A new socket has a descriptor that no open connection has. -/
def step (maxnconn : ℤ) (s : State n) (r : Replies) : Option (State n) :=
  match s.pc with
  | .outer => some { s with pc := if 0 < s.nlefttoread then .connect else .exited }
  | .connect =>
    if s.nconn < maxnconn ∧ 0 < s.nlefttoconn then
      match (finRange n).find? fun i => (s.file i).flags = .zero with
      | none => some { s with pc := .quit }
      | some i =>
        if ∀ j, (s.file j).flags.active = true → (s.file j).fd ≠ r.socket then
          some { startConnect s i r.socket r.connected with
            nconn := s.nconn + 1
            nlefttoconn := s.nlefttoconn - 1 }
        else none
    else some { s with pc := .select }
  | .select =>
    if r.rs ⊆ s.rset ∧ r.ws ⊆ s.wset then
      some { s with rs := r.rs, ws := r.ws, pc := .scan (finRange n) }
    else none
  | .scan [] => some { s with pc := .outer }
  | .scan (i :: left) => some { look s i r.nread with pc := .scan left }
  | .exited | .quit => none

def start (fd : Fin n → ℕ) : State n where
  pc := .outer
  file i := ⟨fd i, .zero, 0, 0⟩
  nconn := 0
  nlefttoconn := n
  nlefttoread := n
  rset := ∅
  wset := ∅
  maxfd := -1
  rs := ∅
  ws := ∅

def count (p : Flags → Bool) (file : Fin n → File) : ℕ := ∑ i, (p (file i).flags).toNat

/-- The set of the descriptors of the files with such flags. -/
def IsFds (p : Flags → Bool) (file : Fin n → File) (set : Finset ℕ) : Prop :=
  ∀ fd, fd ∈ set ↔ ∃ i, p (file i).flags = true ∧ fd = (file i).fd

/-- The counters are those of the flags. -/
structure Consistent (maxnconn : ℤ) (s : State n) : Prop where
  nconn : s.nconn = count Flags.active s.file
  nconn_le : s.nconn ≤ maxnconn
  nlefttoconn : s.nlefttoconn = count (· = .zero) s.file
  nlefttoread : s.nlefttoread = count (· ≠ .done) s.file
  rset : IsFds Flags.active s.file s.rset
  wset : IsFds (· = .connecting) s.file s.wset
  maxfd : ∀ i, (s.file i).flags.active = true → (s.file i).fd ≤ s.maxfd

/-- How often a file with these flags has been requested and read to its end. -/
def Flags.once : Flags → ℕ × ℕ
  | .zero | .connecting => (0, 0)
  | .reading => (1, 0)
  | .done => (1, 1)

structure Inv (maxnconn : ℤ) (s : State n) : Prop extends Consistent maxnconn s where
  unique : ∀ i j, (s.file i).flags.active = true → (s.file j).flags.active = true →
    (s.file i).fd = (s.file j).fd → i = j
  once : ∀ i, ((s.file i).requests, (s.file i).ends) = (s.file i).flags.once
  pc : s.pc ≠ .quit
  exited : s.pc = .exited → s.nlefttoread ≤ 0

variable {maxnconn : ℤ} {s s' : State n} {i : Fin n} {f : File} {file : Fin n → File}
  {p : Flags → Bool}

lemma count_update (p : Flags → Bool) (file : Fin n → File) (i : Fin n) (f : File) :
    (count p (update file i f) : ℤ) =
      count p file + ((p f.flags).toNat - (p (file i).flags).toNat) := by
  have hsum : count p (update file i f) + _ = count p file + _ :=
    sum_update_add (fun f : File => (p f.flags).toNat) file i f
  omega

lemma count_eq_zero_iff : count p file = 0 ↔ ∀ i, p (file i).flags = false := by
  simp [count]

lemma IsFds.update {set set' : Finset ℕ} (h : IsFds p file set)
    (hunique : ∀ j, p (file j).flags = true → p (file i).flags = true →
      (file j).fd = (file i).fd → j = i)
    (hset : ∀ fd, fd ∈ set' ↔ (p f.flags = true ∧ fd = f.fd) ∨
      (¬ (p (file i).flags = true ∧ fd = (file i).fd) ∧ fd ∈ set)) :
    IsFds p (update file i f) set' := by
  intro fd
  rw [exists_update_iff file fun _ f => p f.flags = true ∧ fd = f.fd, hset, h fd]
  refine or_congr_right ⟨?_, ?_⟩
  · rintro ⟨hold, j, hp, hfd⟩
    refine ⟨j, ?_, hp, hfd⟩
    rintro rfl
    exact hold ⟨hp, hfd⟩
  · rintro ⟨j, hj, hp, hfd⟩
    exact ⟨fun hold => hj (hunique j hp hold.1 (hfd.symm.trans hold.2)), j, hp, hfd⟩

section

variable (h : Inv maxnconn s)
include h

lemma Inv.put (hfile : s'.file = update s.file i f)
    (honce : (f.requests, f.ends) = f.flags.once) (hpc : s'.pc ≠ .quit ∧ s'.pc ≠ .exited)
    (hle : s'.nconn ≤ maxnconn)
    (hnconn : s'.nconn = s.nconn + (f.flags.active.toNat - (s.file i).flags.active.toNat))
    (hleft : s'.nlefttoconn = s.nlefttoconn +
      ((decide (f.flags = .zero)).toNat - (decide ((s.file i).flags = .zero)).toNat))
    (hread : s'.nlefttoread = s.nlefttoread +
      ((decide (f.flags ≠ .done)).toNat - (decide ((s.file i).flags ≠ .done)).toNat))
    (hrset : ∀ fd, fd ∈ s'.rset ↔ (f.flags.active = true ∧ fd = f.fd) ∨
      (¬ ((s.file i).flags.active = true ∧ fd = (s.file i).fd) ∧ fd ∈ s.rset))
    (hwset : ∀ fd, fd ∈ s'.wset ↔ (f.flags = .connecting ∧ fd = f.fd) ∨
      (¬ ((s.file i).flags = .connecting ∧ fd = (s.file i).fd) ∧ fd ∈ s.wset))
    (hmax : s.maxfd ≤ s'.maxfd) (hfd : f.flags.active = true → f.fd ≤ s'.maxfd)
    (hnew : f.flags.active = true → ∀ j, (s.file j).flags.active = true →
      (s.file j).fd = f.fd → j = i) :
    Inv maxnconn s' := by
  have hunique : ∀ j, (s.file j).flags.active = true → (s.file i).flags.active = true →
      (s.file j).fd = (s.file i).fd → j = i := fun j => h.unique j i
  have hactive : ∀ g : Flags, decide (g = .connecting) = true → g.active = true :=
    fun g hg => of_decide_eq_true hg ▸ rfl
  refine ⟨⟨?_, hle, ?_, ?_, ?_, ?_, ?_⟩, ?_, ?_, hpc.1, fun he => absurd he hpc.2⟩
  all_goals rw [hfile]
  · rw [count_update, ← h.nconn, hnconn]
  · rw [count_update, ← h.nlefttoconn, hleft]
  · rw [count_update, ← h.nlefttoread, hread]
  · exact h.rset.update hunique hrset
  · exact h.wset.update (fun j hj hi => hunique j (hactive _ hj) (hactive _ hi))
      (by simpa using hwset)
  · refine (forall_update_iff s.file
      fun _ f => f.flags.active = true → (f.fd : ℤ) ≤ s'.maxfd).mpr ?_
    exact ⟨hfd, fun j _ hj => (h.maxfd j hj).trans hmax⟩
  · intro j k hj hk heq
    rcases eq_or_ne j i with rfl | hji
    · rcases eq_or_ne k j with rfl | hkj
      · rfl
      · rw [update_self] at hj heq
        rw [update_of_ne hkj] at hk heq
        exact (hnew hj k hk heq.symm).symm
    · rw [update_of_ne hji] at hj heq
      rcases eq_or_ne k i with rfl | hki
      · rw [update_self] at hk heq
        exact hnew hk j hj heq
      · rw [update_of_ne hki] at hk heq
        exact h.unique j k hj hk heq
  · refine (forall_update_iff s.file fun _ f => (f.requests, f.ends) = f.flags.once).mpr ?_
    exact ⟨honce, fun j _ => h.once j⟩

lemma Inv.connecting (hpc : s.pc = .connect) (hlt : s.nconn < maxnconn)
    (hzero : (s.file i).flags = .zero) {fd : ℕ}
    (hfree : ∀ j, (s.file j).flags.active = true → (s.file j).fd ≠ fd) :
    Inv maxnconn { startConnect s i fd false with
      nconn := s.nconn + 1
      nlefttoconn := s.nlefttoconn - 1 } := by
  have honce := h.once i
  rw [hzero] at honce
  have hfile : (startConnect s i fd false).file =
      update s.file i { s.file i with fd := fd, flags := .connecting } := by
    simp [startConnect, State.put]
  refine h.put hfile honce ⟨?_, ?_⟩ hlt ?_ ?_ ?_ (fun d => ?_) (fun d => ?_) (le_max_left ..)
    (fun _ => le_max_right ..) fun _ j hj heq => absurd heq (hfree j hj)
  all_goals simp [hzero, hpc, startConnect, State.put, Flags.active, Int.sub_eq_add_neg]

lemma Inv.writeGetCmd (hpc : s.pc ≠ .exited) (hconn : (s.file i).flags = .connecting) :
    Inv maxnconn (writeGetCmd { s with wset := s.wset.erase (s.file i).fd } i) := by
  have honce := h.once i
  rw [hconn, Flags.once, Prod.mk.injEq] at honce
  refine h.put (i := i) rfl ?_ ⟨h.pc, hpc⟩ h.nconn_le ?_ ?_ ?_ (fun d => ?_) (fun d => ?_)
    (le_max_left ..) (fun _ => le_max_right ..) fun _ j hj heq => h.unique j i hj ?_ heq
  all_goals simp [hconn, honce, Web.writeGetCmd, State.put, Flags.active, Flags.once]
  tauto

lemma Inv.done (hpc : s.pc ≠ .exited) (hreading : (s.file i).flags = .reading) :
    Inv maxnconn { s.put i { s.file i with flags := .done, ends := (s.file i).ends + 1 } with
      rset := s.rset.erase (s.file i).fd
      nconn := s.nconn - 1
      nlefttoread := s.nlefttoread - 1 } := by
  have honce := h.once i
  rw [hreading, Flags.once, Prod.mk.injEq] at honce
  refine h.put (i := i) rfl ?_ ⟨h.pc, hpc⟩ (Int.sub_one_lt_of_le h.nconn_le).le ?_ ?_ ?_
    (fun d => ?_) (fun d => ?_) (Int.le_refl _) nofun nofun
  all_goals simp [hreading, honce, State.put, Flags.active, Flags.once, Int.sub_eq_add_neg]

lemma Inv.startConnect (hpc : s.pc = .connect) (hlt : s.nconn < maxnconn)
    (hzero : (s.file i).flags = .zero) {fd : ℕ}
    (hfree : ∀ j, (s.file j).flags.active = true → (s.file j).fd ≠ fd) (connected : Bool) :
    Inv maxnconn { startConnect s i fd connected with
      nconn := s.nconn + 1
      nlefttoconn := s.nlefttoconn - 1 } := by
  have hconn := h.connecting hpc hlt hzero hfree
  cases connected with
  | false => exact hconn
  | true =>
    -- as if the connection came after a connect in progress
    have hwset : fd ∉ s.wset := by
      rw [h.wset fd]
      rintro ⟨j, hj, rfl⟩
      exact hfree j (of_decide_eq_true hj ▸ rfl) rfl
    have hget := hconn.writeGetCmd (i := i) (by simp [Web.startConnect, State.put, hpc])
      (by simp [Web.startConnect, State.put])
    convert hget using 1
    simp [Web.startConnect, Web.writeGetCmd, State.put, Finset.erase_insert hwset]

lemma Inv.look (i : Fin n) {left left' : List (Fin n)} (hpc : s.pc = .scan left) (nread : ℕ) :
    Inv maxnconn { look s i nread with pc := .scan left' } := by
  suffices hlook : Inv maxnconn (Web.look s i nread) from
    { hlook with pc := by simp, exited := by simp }
  have hexited : s.pc ≠ .exited := by simp [hpc]
  fun_cases Web.look s i nread with
  | case3 f hconn => exact h.writeGetCmd hexited hconn
  | case5 f hreading => exact h.done hexited hreading
  | _ => exact h

lemma Inv.step {r : Replies} (hst : step maxnconn s r = some s') : Inv maxnconn s' := by
  revert hst
  fun_cases Web.step maxnconn s r with
  | case1 hpc =>
    rintro ⟨⟩
    refine { h with pc := ?_, exited := ?_ }
    · dsimp only
      split <;> simp
    · dsimp only
      split <;> simp_all
  | case2 hpc hleft hfind =>
    -- a file is left to connect to, so one is found
    have hnone : count (· = .zero) s.file = 0 :=
      count_eq_zero_iff.mpr fun i => by simpa using find?_eq_none.mp hfind i (mem_finRange i)
    have hpos := hleft.2
    rw [h.nlefttoconn, hnone] at hpos
    exact absurd hpos (by decide)
  | case3 hpc hlt i hfind hfree =>
    rintro ⟨⟩
    exact h.startConnect hpc hlt.1 (of_decide_eq_true (find?_some hfind :)) hfree r.connected
  | case5 => exact fun hst => some.inj hst ▸ { h with pc := by simp, exited := by simp }
  | case6 => exact fun hst => some.inj hst ▸ { h with pc := by simp, exited := by simp }
  | case8 => exact fun hst => some.inj hst ▸ { h with pc := by simp, exited := by simp }
  | case9 i left hpc => exact fun hst => some.inj hst ▸ h.look i hpc r.nread
  | _ => simp

end

lemma inv_start (fd : Fin n → ℕ) (hmax : 1 ≤ maxnconn) : Inv maxnconn (start fd) where
  nconn := by simp [start, count, Flags.active]
  nconn_le := by simp only [start]; omega
  nlefttoconn := by simp [start, count]
  nlefttoread := by simp [start, count]
  rset := by simp [start, IsFds, Flags.active]
  wset := by simp [start, IsFds]
  maxfd := by simp [start, Flags.active]
  unique := by simp [start, Flags.active]
  once _ := rfl
  pc := by simp [start]
  exited := by simp [start]

/-- Whenever `select` is called, the counters and the sets agree with the flags; the search for a
file finds one; and at the end every file has been requested and read to its end once. -/
theorem web_correct (fd : Fin n → ℕ) (hmax : 1 ≤ maxnconn) {ls : List Replies}
    (hrun : RunFrom (step maxnconn) (start fd) ls s) :
    (s.pc = .select → Consistent maxnconn s) ∧ s.pc ≠ .quit ∧
      (s.pc = .exited → ∀ i, (s.file i).requests = 1 ∧ (s.file i).ends = 1) := by
  have h : Inv maxnconn s := hrun.invariant (inv_start fd hmax) fun _ _ _ h hst _ => h.step hst
  refine ⟨fun _ => h.toConsistent, h.pc, fun hexit i => ?_⟩
  have hcount : count (· ≠ .done) s.file = 0 := by
    have := h.exited hexit
    have := h.nlefttoread
    omega
  have hdone : (s.file i).flags = .done := by simpa using count_eq_zero_iff.mp hcount i
  have honce := h.once i
  rw [hdone] at honce
  exact Prod.mk.inj honce

def oneFile : List Replies :=
  [⟨0, false, ∅, ∅, 0⟩, ⟨3, false, ∅, ∅, 0⟩, ⟨0, false, ∅, ∅, 0⟩, ⟨0, false, ∅, {3}, 0⟩,
    ⟨0, false, ∅, ∅, 0⟩, ⟨0, false, ∅, ∅, 0⟩, ⟨0, false, ∅, ∅, 0⟩, ⟨0, false, ∅, ∅, 0⟩,
    ⟨0, false, {3}, ∅, 0⟩, ⟨0, false, ∅, ∅, 0⟩, ⟨0, false, ∅, ∅, 0⟩, ⟨0, false, ∅, ∅, 0⟩]

theorem web_correct_oneFile :
    ∃ s, RunFrom (step 1) (start fun _ : Fin 1 => 0) oneFile s ∧ s.pc = .exited ∧
      ∀ i, (s.file i).requests = 1 ∧ (s.file i).ends = 1 := by
  obtain ⟨s, hrun, hexit⟩ := exists_runFrom (step 1) (start fun _ : Fin 1 => 0) oneFile
    (·.pc = .exited) (by decide)
  exact ⟨s, hrun, hexit, (web_correct (fun _ => 0) (by decide) hrun).2.2 hexit⟩

end UnixPrograms.Web
