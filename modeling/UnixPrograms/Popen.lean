import UnixPrograms.Lib.Runs
import UnixPrograms.Lib.Text

/-!
# The descriptors of a child of `popen`

`childpid` remembers the parent's ends of the pipes, and a later child closes them, after it has
moved its own end to descriptor 0 or 1.  If the parent uses that number for an earlier pipe, the
child closes its own end; and a pipe left open by a failed call is not remembered.  Otherwise the
child has the descriptors it should have (`popen_child_iff`).
-/

namespace UnixPrograms.Popen

open Function List Option

inductive Mode where
  | r
  | w
  deriving DecidableEq

inductive End where
  | read
  | write
  deriving DecidableEq

def Mode.parentEnd : Mode → End
  | .r => .read
  | .w => .write

def Mode.childEnd : Mode → End
  | .r => .write
  | .w => .read

def Mode.target : Mode → ℕ
  | .r => 1
  | .w => 0

inductive File where
  /-- A file that the parent had open before. -/
  | other (n : ℕ)
  /-- An end of the pipe number `k` of `popen`, which was called with the type. -/
  | pipe (mode : Mode) (k : ℕ) (e : End)
  deriving DecidableEq

/-- The descriptors of a process. -/
abbrev Table := ℕ → Option File

def close (t : Table) (fd : ℕ) : Table := update t fd none

def dup2 (t : Table) (fd fd' : ℕ) : Table := update t fd' (t fd)

def lowest (limit : ℕ) (t : Table) : Option ℕ := (List.range limit).find? fun fd => (t fd).isNone

structure State where
  fds : Table
  /-- The number of descriptors that the system allows. -/
  limit : ℕ
  maxfd : ℕ
  /-- The array `childpid`, once it is allocated. -/
  childpid : Option (ℕ → ℕ)
  pipes : ℕ

def start (files : ℕ → Option ℕ) (limit maxfd : ℕ) : State where
  fds fd := (files fd).map .other
  limit := limit
  maxfd := maxfd
  childpid := none
  pipes := 0

/-- The child that is remembered for a descriptor, or 0. -/
def State.pid (s : State) (fd : ℕ) : ℕ := s.childpid.elim 0 (· fd)

structure Call where
  type : Bytes
  callocFails : Bool
  pipeFails : Bool
  forkFails : Bool
  fdopenFails : Bool
  pid : { n : ℕ // 0 < n }

/-- Only allow "r" or "w". -/
def mode (type : Bytes) : Option Mode :=
  if type = ascii "r" then some .r else if type = ascii "w" then some .w else none

structure Child where
  mode : Mode
  k : ℕ
  fds : Table

/-- The descriptors of the pipe: the parent's and the child's. -/
structure Pfd where
  parent : ℕ
  child : ℕ

def Mode.pfd : Mode → ℕ → ℕ → Pfd
  | .r, p₀, p₁ => ⟨p₀, p₁⟩
  | .w, p₀, p₁ => ⟨p₁, p₀⟩

def rearrange (m : Mode) (pfd : Pfd) (t : Table) : Table :=
  let t := close t pfd.parent
  if pfd.child ≠ m.target then close (dup2 t pfd.child m.target) pfd.child else t

def closeRemembered (maxfd : ℕ) (childpid : ℕ → ℕ) (t : Table) : Table :=
  (List.range maxfd).foldl (fun t i => if 0 < childpid i then close t i else t) t

def pipe (m : Mode) (s : State) : Option (ℕ × ℕ × State) :=
  (lowest s.limit s.fds).bind fun p₀ =>
    let t := update s.fds p₀ (some (.pipe m s.pipes .read))
    (lowest s.limit t).map fun p₁ =>
      (p₀, p₁, { s with
        fds := update t p₁ (some (.pipe m s.pipes .write))
        pipes := s.pipes + 1 })

def popenFork (m : Mode) (pfd : Pfd) (childpid : ℕ → ℕ) (c : Call) (s : State) :
    State × Option Child :=
  if c.forkFails then (s, none)
  else
    let child : Child :=
      ⟨m, s.pipes - 1, closeRemembered s.maxfd childpid (rearrange m pfd s.fds)⟩
    -- parent continues...
    let s := { s with fds := close s.fds pfd.child }
    if c.fdopenFails then (s, none)
    else ({ s with childpid := some (update childpid pfd.parent c.pid) }, some child)

/-- `popen`: the parent after the call, and the child if the call has not returned `NULL`. -/
def popen (c : Call) (s : State) : State × Option Child :=
  match mode c.type with
  | none => (s, none)
  | some m =>
    if s.childpid = none ∧ c.callocFails then (s, none)
    else
      -- first time through: zeroed out array
      let childpid := s.childpid.getD fun _ => 0
      let s := { s with childpid := some childpid }
      if c.pipeFails then (s, none)
      else
        match pipe m s with
        | none => (s, none)
        | some (p₀, p₁, s) =>
          if p₀ ≥ s.maxfd ∨ p₁ ≥ s.maxfd then
            ({ s with fds := close (close s.fds p₀) p₁ }, none)
          else popenFork m (m.pfd p₀ p₁) childpid c s

def pclose (fd : ℕ) (s : State) : State :=
  match s.childpid with
  | none => s
  | some childpid =>
    if fd ≥ s.maxfd then s
    else if childpid fd = 0 then s
    else { s with childpid := some (update childpid fd 0), fds := close s.fds fd }

inductive Action where
  | popen (c : Call)
  | pclose (fd : ℕ)

def step (s : State) : Action → Option State
  | .popen c => some (popen c s).1
  | .pclose fd => some (pclose fd s)

/-- The child has its end of the pipe where it should be, and no descriptor for the parent's end of
a pipe. -/
structure Child.Ok (c : Child) : Prop where
  target : c.fds c.mode.target = some (.pipe c.mode c.k c.mode.childEnd)
  parents : ∀ fd m k, c.fds fd ≠ some (.pipe m k m.parentEnd)

/-- The descriptor is the parent's end of a pipe and is not remembered. -/
def State.Forgotten (s : State) (fd : ℕ) : Prop :=
  s.pid fd = 0 ∧ ∃ m k, s.fds fd = some (.pipe m k m.parentEnd)

/-! ## The child -/

lemma closeRemembered_apply (maxfd : ℕ) (childpid : ℕ → ℕ) (t : Table) (fd : ℕ) :
    closeRemembered maxfd childpid t fd =
      if fd < maxfd ∧ 0 < childpid fd then none else t fd := by
  induction maxfd with
  | zero => simp [closeRemembered]
  | succ n ih =>
    rw [closeRemembered, range_succ, foldl_append, ← closeRemembered]
    simp only [foldl_cons, foldl_nil]
    by_cases hfd : fd = n
    · subst hfd
      by_cases hpid : 0 < childpid fd
      · simp [hpid, close]
      · simp [hpid, ih]
    · have hlt : fd < n + 1 ↔ fd < n := by omega
      simp only [hlt, ← ih]
      split
      · exact update_of_ne hfd ..
      · rfl

variable {m : Mode} {s s' : State} {p₁ p₀ : ℕ}

lemma rearrange_apply {pfd : Pfd} {t : Table} {f : File} (hne : pfd.child ≠ pfd.parent)
    (hchild : t pfd.child = some f) (fd : ℕ) :
    rearrange m pfd t fd =
      if fd = m.target then some f
      else if fd = pfd.parent ∨ fd = pfd.child then none else t fd := by
  have hkept : close t pfd.parent pfd.child = some f := (update_of_ne hne ..).trans hchild
  unfold rearrange
  by_cases htarget : pfd.child = m.target
  · rw [if_neg (not_not.mpr htarget)]
    by_cases hfd : fd = m.target
    · rw [if_pos hfd, hfd, ← htarget, hkept]
    · rw [if_neg hfd, close, update_apply]
      simp [htarget, hfd]
  · simp only [ne_eq, htarget, not_false_eq_true, if_true]
    by_cases hfd : fd = pfd.child
    · simp [hfd, htarget, close]
    · rw [close, update_of_ne hfd, dup2, update_apply, hkept, close, update_apply]
      simp [hfd]

/-! ## The pipe -/

lemma isNone_of_lowest {limit fd : ℕ} {t : Table} (h : lowest limit t = some fd) : t fd = none := by
  simpa using List.find?_some h

/-- What `pipe` does. -/
structure Piped (m : Mode) (s : State) (p₀ p₁ : ℕ) (s' : State) : Prop where
  free₀ : s.fds p₀ = none
  free₁ : s.fds p₁ = none
  ne : p₁ ≠ p₀
  eq : s' = { s with
    fds := update (update s.fds p₀ (some (.pipe m s.pipes .read))) p₁
      (some (.pipe m s.pipes .write))
    pipes := s.pipes + 1 }

lemma piped_of_pipe (h : pipe m s = some (p₀, p₁, s')) : Piped m s p₀ p₁ s' := by
  obtain ⟨q₀, hq₀, h⟩ := bind_eq_some_iff.mp h
  obtain ⟨q₁, hq₁, h⟩ := map_eq_some_iff.mp h
  simp only [Prod.mk.injEq] at h
  obtain ⟨rfl, rfl, rfl⟩ := h
  have hfree := isNone_of_lowest hq₁
  have hne : q₁ ≠ q₀ := by
    rintro rfl
    simp at hfree
  exact ⟨isNone_of_lowest hq₀, by rwa [update_of_ne hne] at hfree, hne, rfl⟩

/-- The table has the two ends of the new pipe. -/
structure Ends (m : Mode) (s : State) (pfd : Pfd) (t : Table) : Prop where
  freeParent : s.fds pfd.parent = none
  freeChild : s.fds pfd.child = none
  ne : pfd.child ≠ pfd.parent
  parent : t pfd.parent = some (.pipe m s.pipes m.parentEnd)
  child : t pfd.child = some (.pipe m s.pipes m.childEnd)
  others : ∀ fd, fd ≠ pfd.parent → fd ≠ pfd.child → t fd = s.fds fd

lemma Piped.ends (h : Piped m s p₀ p₁ s') : Ends m s (m.pfd p₀ p₁) s'.fds := by
  obtain ⟨hfree₀, hfree₁, hne, rfl⟩ := h
  have h₀ : update (update s.fds p₀ (some (.pipe m s.pipes .read))) p₁
      (some (.pipe m s.pipes .write)) p₀ = some (.pipe m s.pipes .read) := by
    rw [update_of_ne hne.symm, update_self]
  cases m with
  | r =>
    refine ⟨hfree₀, hfree₁, hne, h₀, update_self .., fun fd hp hc => ?_⟩
    exact (update_of_ne hc ..).trans (update_of_ne hp ..)
  | w =>
    refine ⟨hfree₁, hfree₀, hne.symm, update_self .., h₀, fun fd hp hc => ?_⟩
    exact (update_of_ne hp ..).trans (update_of_ne hc ..)

/-! ## All calls -/

structure Inv (s : State) : Prop where
  pipes : ∀ fd m k e, s.fds fd = some (.pipe m k e) → k < s.pipes
  /-- What is remembered is the parent's end of a pipe. -/
  remembered : ∀ fd, 0 < s.pid fd →
    fd < s.maxfd ∧ ∃ m k, s.fds fd = some (.pipe m k m.parentEnd)

/-- Every pipe is remembered. -/
def Complete (s : State) : Prop := ∀ fd m k e, s.fds fd = some (.pipe m k e) → 0 < s.pid fd

/-- `fork` and `fdopen` do not fail. -/
def Succeeds (_ : State) : Action → Prop
  | .popen c => c.forkFails = false ∧ c.fdopenFails = false
  | .pclose _ => True

lemma inv_start (files : ℕ → Option ℕ) (limit maxfd : ℕ) : Inv (start files limit maxfd) := by
  refine ⟨fun fd m k e h => ?_, fun fd h => ?_⟩
  · simp [start] at h
  · simp [start, State.pid] at h

lemma complete_start (files : ℕ → Option ℕ) (limit maxfd : ℕ) :
    Complete (start files limit maxfd) := by
  intro fd m k e h
  simp [start] at h

lemma getD_childpid (s : State) : (s.childpid.getD fun _ => 0) = s.pid := by
  funext fd
  cases h : s.childpid <;> simp [State.pid, h]

/-- How `popen` ends. -/
inductive Outcome (c : Call) (s : State) : State × Option Child → Prop
  /-- Nothing is left open. -/
  | nothing {s' : State} (hfds : s'.fds = s.fds) (hpid : s'.pid = s.pid)
      (hmaxfd : s'.maxfd = s.maxfd) (hpipes : s.pipes ≤ s'.pipes) : Outcome c s (s', none)
  /-- `fork` has failed, and both ends of the pipe are open. -/
  | both {s' : State} {m : Mode} {pfd : Pfd} (hfork : c.forkFails = true)
      (hends : Ends m s pfd s'.fds) (hpid : s'.pid = s.pid) (hmaxfd : s'.maxfd = s.maxfd)
      (hpipes : s'.pipes = s.pipes + 1) : Outcome c s (s', none)
  /-- `fdopen` has failed, and the parent's end is open. -/
  | one {s' : State} {m : Mode} {pfd : Pfd} {t : Table} (hfdopen : c.fdopenFails = true)
      (hends : Ends m s pfd t) (hfds : s'.fds = close t pfd.child) (hpid : s'.pid = s.pid)
      (hmaxfd : s'.maxfd = s.maxfd) (hpipes : s'.pipes = s.pipes + 1) : Outcome c s (s', none)
  | stream {s' : State} {m : Mode} {pfd : Pfd} {t : Table} (hends : Ends m s pfd t)
      (hlt : pfd.parent < s.maxfd) (hfds : s'.fds = close t pfd.child)
      (hpid : s'.pid = update s.pid pfd.parent c.pid) (hmaxfd : s'.maxfd = s.maxfd)
      (hpipes : s'.pipes = s.pipes + 1) :
      Outcome c s (s', some ⟨m, s.pipes, closeRemembered s.maxfd s.pid (rearrange m pfd t)⟩)

lemma Mode.pfd_parent_lt {n : ℕ} (h₀ : p₀ < n) (h₁ : p₁ < n) : (m.pfd p₀ p₁).parent < n := by
  cases m
  · exact h₀
  · exact h₁

lemma Piped.close_close (h : Piped m s p₀ p₁ s') : close (close s'.fds p₀) p₁ = s.fds := by
  obtain ⟨hfree₀, hfree₁, hne, rfl⟩ := h
  funext fd
  by_cases h₁ : fd = p₁
  · simp [h₁, close, hfree₁]
  · by_cases h₀ : fd = p₀
    · simp [h₀, close, hne.symm, hfree₀]
    · simp [close, h₀, h₁]

lemma outcome_popen (c : Call) (s : State) : Outcome c s (popen c s) := by
  unfold popen
  split
  · exact .nothing rfl rfl rfl le_rfl
  · rename_i m _
    split
    · exact .nothing rfl rfl rfl le_rfl
    · simp only [getD_childpid]
      have hpid : ({ s with childpid := some s.pid } : State).pid = s.pid := rfl
      split
      · exact .nothing rfl hpid rfl le_rfl
      · cases hpipe : pipe m { s with childpid := some s.pid } with
        | none => exact .nothing rfl hpid rfl le_rfl
        | some r =>
          obtain ⟨p₀, p₁, s₁⟩ := r
          have hpiped := piped_of_pipe hpipe
          have hends : Ends m s (m.pfd p₀ p₁) s₁.fds := by
            obtain ⟨h₁, h₂, h₃, h₄, h₅, h₆⟩ := hpiped.ends
            exact ⟨h₁, h₂, h₃, h₄, h₅, h₆⟩
          have hclose := hpiped.close_close
          obtain ⟨-, -, -, rfl⟩ := hpiped
          simp only
          split
          · exact .nothing hclose rfl rfl (Nat.le_succ _)
          · rename_i hlt
            unfold popenFork
            split
            · exact .both ‹_› hends rfl rfl rfl
            · split
              · exact .one ‹_› hends rfl rfl rfl rfl
              · exact .stream hends (Mode.pfd_parent_lt (by omega) (by omega)) rfl rfl rfl rfl

section Calls

variable {s s' : State} {m : Mode} {pfd : Pfd} {t : Table} {fd : ℕ}

lemma Ends.pipes (h : Ends m s pfd t) (hs : Inv s) {k : ℕ} {m' : Mode} {e : End}
    (hfd : t fd = some (.pipe m' k e)) : k < s.pipes + 1 := by
  by_cases hp : fd = pfd.parent
  · rw [hp, h.parent] at hfd
    cases hfd
    exact Nat.lt_succ_self _
  · by_cases hc : fd = pfd.child
    · rw [hc, h.child] at hfd
      cases hfd
      exact Nat.lt_succ_self _
    · rw [h.others fd hp hc] at hfd
      exact Nat.lt_succ_of_lt (hs.pipes fd m' k e hfd)

lemma Ends.remembered (h : Ends m s pfd t) (hs : Inv s) (hpid : 0 < s.pid fd) :
    fd ≠ pfd.parent ∧ fd ≠ pfd.child ∧ t fd = s.fds fd := by
  obtain ⟨-, m', k, hk⟩ := hs.remembered fd hpid
  have hp : fd ≠ pfd.parent := by
    rintro rfl
    rw [h.freeParent] at hk
    cases hk
  have hc : fd ≠ pfd.child := by
    rintro rfl
    rw [h.freeChild] at hk
    cases hk
  exact ⟨hp, hc, h.others fd hp hc⟩

lemma close_eq_some {i : ℕ} {f : File} (h : close t fd i = some f) : i ≠ fd ∧ t i = some f := by
  have hne : i ≠ fd := by
    rintro rfl
    simp [close] at h
  exact ⟨hne, (update_of_ne hne ..).symm.trans h⟩

lemma Inv.popen (h : Inv s) (c : Call) : Inv (popen c s).1 := by
  have ho := outcome_popen c s
  generalize Popen.popen c s = r at ho
  cases ho with
  | nothing hfds hpid hmaxfd hpipes =>
    refine ⟨fun fd m k e hfd => ?_, ?_⟩
    · rw [hfds] at hfd
      exact (h.pipes fd m k e hfd).trans_le hpipes
    · rw [hpid, hfds, hmaxfd]
      exact h.remembered
  | both hfork hends hpid hmaxfd hpipes =>
    refine ⟨fun fd m k e hfd => ?_, fun fd hfd => ?_⟩
    · rw [hpipes]
      exact hends.pipes h hfd
    · rw [hpid] at hfd
      rw [hmaxfd, (hends.remembered h hfd).2.2]
      exact h.remembered fd hfd
  | one hfdopen hends hfds hpid hmaxfd hpipes =>
    refine ⟨fun fd m k e hfd => ?_, fun fd hfd => ?_⟩
    · rw [hfds] at hfd
      rw [hpipes]
      exact hends.pipes h (close_eq_some hfd).2
    · rw [hpid] at hfd
      obtain ⟨-, hc, hsame⟩ := hends.remembered h hfd
      rw [hmaxfd, hfds, close, update_of_ne hc, hsame]
      exact h.remembered fd hfd
  | @stream _ m pfd t hends hlt hfds hpid hmaxfd hpipes =>
    refine ⟨fun fd m k e hfd => ?_, fun fd hfd => ?_⟩
    · rw [hfds] at hfd
      rw [hpipes]
      exact hends.pipes h (close_eq_some hfd).2
    · rw [hmaxfd, hfds]
      by_cases hp : fd = pfd.parent
      · subst hp
        exact ⟨hlt, m, s.pipes, (update_of_ne hends.ne.symm ..).trans hends.parent⟩
      · rw [hpid, update_of_ne hp] at hfd
        obtain ⟨-, hc, hsame⟩ := hends.remembered h hfd
        rw [close, update_of_ne hc, hsame]
        exact h.remembered fd hfd

lemma pclose_eq (fd : ℕ) (s : State) :
    pclose fd s = s ∨ 0 < s.pid fd ∧ (pclose fd s).fds = close s.fds fd ∧
      (pclose fd s).pid = update s.pid fd 0 ∧ (pclose fd s).maxfd = s.maxfd ∧
      (pclose fd s).pipes = s.pipes := by
  unfold pclose
  split
  · exact .inl rfl
  · rename_i childpid hchildpid
    have hpid : s.pid = childpid := by
      unfold State.pid
      rw [hchildpid]
      rfl
    split
    · exact .inl rfl
    · split
      · exact .inl rfl
      · refine .inr ⟨?_, rfl, ?_, rfl, rfl⟩
        · rw [hpid]
          omega
        · rw [hpid]
          rfl

lemma Inv.pclose (h : Inv s) (fd : ℕ) : Inv (pclose fd s) := by
  rcases pclose_eq fd s with heq | ⟨-, hfds, hpid, hmaxfd, hpipes⟩
  · rw [heq]
    exact h
  · refine ⟨fun i m k e hi => ?_, fun i hi => ?_⟩
    · rw [hfds] at hi
      rw [hpipes]
      exact h.pipes i m k e (close_eq_some hi).2
    · have hne : i ≠ fd := by
        rintro rfl
        rw [hpid, update_self] at hi
        exact absurd hi (Nat.lt_irrefl 0)
      rw [hpid, update_of_ne hne] at hi
      rw [hmaxfd, hfds, close, update_of_ne hne]
      exact h.remembered i hi

lemma inv_of_run {files : ℕ → Option ℕ} {limit maxfd : ℕ} {as : List Action}
    (hrun : RunFrom step (start files limit maxfd) as s) : Inv s := by
  apply hrun.invariant (inv_start files limit maxfd)
  intro s a s' h hst _
  cases a with
  | popen c =>
    obtain rfl := some.inj hst
    exact h.popen c
  | pclose fd =>
    obtain rfl := some.inj hst
    exact h.pclose fd

/-! ## The child of a call that succeeds -/

lemma childFds_apply (h : Inv s) (hends : Ends m s pfd t) (fd : ℕ) :
    closeRemembered s.maxfd s.pid (rearrange m pfd t) fd =
      if 0 < s.pid fd then none
      else if fd = m.target then some (.pipe m s.pipes m.childEnd) else s.fds fd := by
  rw [closeRemembered_apply, rearrange_apply hends.ne hends.child]
  by_cases hpid : 0 < s.pid fd
  · rw [if_pos ⟨(h.remembered fd hpid).1, hpid⟩, if_pos hpid]
  · rw [if_neg (fun hand => hpid hand.2), if_neg hpid]
    by_cases htarget : fd = m.target
    · rw [if_pos htarget, if_pos htarget]
    · rw [if_neg htarget, if_neg htarget]
      split
      · -- both descriptors of the pipe were free
        rename_i hpipe
        rcases hpipe with rfl | rfl
        · exact hends.freeParent.symm
        · exact hends.freeChild.symm
      · rename_i hpipe
        rw [not_or] at hpipe
        exact hends.others fd hpipe.1 hpipe.2

lemma Mode.childEnd_ne (m : Mode) : m.childEnd ≠ m.parentEnd := by cases m <;> decide

lemma child_ok_iff (h : Inv s) (hends : Ends m s pfd t) :
    Child.Ok ⟨m, s.pipes, closeRemembered s.maxfd s.pid (rearrange m pfd t)⟩ ↔
      s.pid m.target = 0 ∧ ∀ fd, fd ≠ m.target → ¬ s.Forgotten fd := by
  have hfds := childFds_apply h hends
  generalize closeRemembered s.maxfd s.pid (rearrange m pfd t) = u at hfds
  constructor
  · intro hok
    have htarget : u m.target = some (.pipe m s.pipes m.childEnd) := hok.target
    refine ⟨?_, ?_⟩
    · by_contra hpid
      rw [hfds, if_pos (Nat.pos_of_ne_zero hpid)] at htarget
      cases htarget
    · rintro fd hne ⟨hpid, m', k, hk⟩
      have hparent : u fd = some (.pipe m' k m'.parentEnd) := by
        rw [hfds, if_neg (by omega), if_neg hne, hk]
      exact hok.parents fd m' k hparent
  · rintro ⟨hpid, hnone⟩
    refine ⟨?_, fun fd m' k hfd => ?_⟩
    · exact (hfds m.target).trans (by rw [if_neg (by omega), if_pos rfl])
    · have hfd' := (hfds fd).symm.trans hfd
      split at hfd'
      · cases hfd'
      · rename_i hpid'
        split at hfd'
        · obtain ⟨rfl, -, hend⟩ := File.pipe.inj (some.inj hfd')
          exact m.childEnd_ne hend
        · exact hnone fd ‹_› ⟨by omega, m', k, hfd'⟩

/-- In the child of a `popen` that succeeds, the new end of the pipe is the standard input or output
and no descriptor is the parent's end of a pipe, if and only if the parent has no stream of `popen`
on that descriptor, and no other pipe that a failed call has left open. -/
theorem popen_child_iff (files : ℕ → Option ℕ) (limit maxfd : ℕ) {as : List Action} {s s' : State}
    (hrun : RunFrom step (start files limit maxfd) as s) {c : Call} {child : Child}
    (hpopen : popen c s = (s', some child)) :
    (child.Ok ↔ s.pid child.mode.target = 0 ∧ ∀ fd, fd ≠ child.mode.target → ¬ s.Forgotten fd) ∧
      ∀ fd m e, s.fds fd ≠ some (.pipe m child.k e) := by
  have h := inv_of_run hrun
  have ho := outcome_popen c s
  rw [hpopen] at ho
  cases ho with
  | stream hends =>
    refine ⟨child_ok_iff h hends, fun fd m e hfd => ?_⟩
    exact absurd (h.pipes fd m _ e hfd) (Nat.lt_irrefl _)

lemma not_forgotten_of_succeeds {files : ℕ → Option ℕ} {limit maxfd : ℕ} {as : List Action}
    (hrun : RunWhen step Succeeds (start files limit maxfd) as s) (fd : ℕ) : ¬ s.Forgotten fd := by
  suffices hall : Complete s by
    rintro ⟨hpid, m, k, hk⟩
    have hpos := hall fd m k _ hk
    omega
  apply hrun.invariant (complete_start files limit maxfd)
  intro s a s' h hst hsucceeds
  cases a with
  | popen c =>
    obtain rfl := some.inj hst
    have ho := outcome_popen c s
    generalize popen c s = r at ho
    cases ho with
    | nothing hfds hpid =>
      intro fd m k e hfd
      rw [hfds] at hfd
      rw [hpid]
      exact h fd m k e hfd
    | both hfork => simp [hsucceeds.1] at hfork
    | one hfdopen => simp [hsucceeds.2] at hfdopen
    | @stream _ m pfd t hends _ hfds hpid =>
      intro fd m' k e hfd
      rw [hfds] at hfd
      obtain ⟨hc, hfd⟩ := close_eq_some hfd
      rw [hpid]
      by_cases hp : fd = pfd.parent
      · subst hp
        rw [update_self]
        exact c.pid.property
      · rw [update_of_ne hp]
        rw [hends.others fd hp hc] at hfd
        exact h fd m' k e hfd
  | pclose fd =>
    obtain rfl := some.inj hst
    rcases pclose_eq fd s with heq | ⟨-, hfds, hpid, -⟩
    · rw [heq]
      exact h
    · intro i m k e hi
      rw [hfds] at hi
      obtain ⟨hne, hi⟩ := close_eq_some hi
      rw [hpid, update_of_ne hne]
      exact h i m k e hi

end Calls

def call (type : Bytes) (pid : { n : ℕ // 0 < n }) : Call := ⟨type, false, false, false, false, pid⟩

def usual : ℕ → Option ℕ := fun fd => if fd < 3 then some fd else none

def noStdout : ℕ → Option ℕ := fun fd => if fd = 0 ∨ fd = 2 then some fd else none

/-- Two calls in a usual parent. -/
theorem popen_child_iff_usual : ∃ s s' child,
    RunFrom step (start usual 16 16) [.popen (call (ascii "w") ⟨100, by decide⟩)] s ∧
      popen (call (ascii "r") ⟨101, by decide⟩) s = (s', some child) ∧ child.Ok := by
  have hrun : RunWhen step Succeeds (start usual 16 16)
      [.popen (call (ascii "w") ⟨100, by decide⟩)] _ := RunWhen.nil.snoc rfl ⟨rfl, rfl⟩
  have hrun' : RunFrom step (start usual 16 16)
      [.popen (call (ascii "w") ⟨100, by decide⟩)] _ := RunWhen.nil.snoc rfl trivial
  obtain ⟨s', t, hpopen⟩ : ∃ s' t, popen (call (ascii "r") ⟨101, by decide⟩)
      (popen (call (ascii "w") ⟨100, by decide⟩) (start usual 16 16)).1 =
        (s', some ⟨.r, 1, t⟩) := ⟨_, _, rfl⟩
  refine ⟨_, s', _, hrun', hpopen, (popen_child_iff usual 16 16 hrun' hpopen).1.mpr ⟨rfl, ?_⟩⟩
  exact fun fd _ => not_forgotten_of_succeeds hrun fd

/-- The parent has closed its standard output.  Its first stream is on descriptor 1, and the second
child has no standard output. -/
theorem popen_noStdout : ∃ s s' child,
    RunFrom step (start noStdout 16 16) [.popen (call (ascii "r") ⟨100, by decide⟩)] s ∧
      popen (call (ascii "r") ⟨101, by decide⟩) s = (s', some child) ∧ child.fds 1 = none :=
  ⟨_, _, ⟨.r, 1, _⟩, RunWhen.nil.snoc rfl trivial, rfl, rfl⟩

end UnixPrograms.Popen
