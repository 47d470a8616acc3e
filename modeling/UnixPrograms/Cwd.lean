import UnixPrograms.Lib.DirTree

/-!
# The current directory from below (`cwd.c`)

`getcwdx` climbs to the root and looks in each parent for the inode it came from.  It finds the path
of every directory and comes back whatever fails, but `sp` is overwritten by each `opendir`, so that
only the last stream is closed: from two levels below the root on, one is left open.
-/

namespace UnixPrograms.Cwd

open List DirTree

abbrev Name := List UInt8

def dot : Name := [46]

def dotdot : Name := [46, 46]

/-- A tree with what `readdir` and `lstat` give in each directory, in some order.  An inode stands
for the device and inode numbers. -/
structure Tree extends DirTree Name where
  entries : List Name → List (Name × ℕ)
  mem_entries : ∀ p ∈ toDirTree.paths, ∀ i ∈ toDirTree.inodes, ∀ n, (n, i) ∈ entries p ↔
    n = dot ∧ toDirTree.inode p = some i ∨ n = dotdot ∧ toDirTree.inode p.dropLast = some i ∨
      (p ++ [n], i) ∈ dirs

inductive Outcome
  | ok | enoent | error
  deriving DecidableEq

structure Proc where
  cwd : List Name
  /-- How many descriptors the call has opened and not closed. -/
  opened : ℕ
  deriving DecidableEq

/-- The loop over the entries of a directory, from the `k`th call on whose outcome `o` gives:
the name that is pushed on the list. -/
def findChild (o : ℕ → Outcome) (child : Option ℕ) : List (Name × ℕ) → ℕ → Option Name × ℕ
  | [], k => (none, k + 1)
  | (name, ino) :: es, k =>
    if o k ≠ .ok then (none, k + 1)
    else if o (k + 1) ≠ .ok then (none, k + 2)
    else if child = some ino then (if o (k + 2) = .ok then some name else none, k + 3)
    else findChild o child es (k + 2)

def getPathlist (head : List Name) : Name := head.flatMap fun name => 47 :: name

/-- The loop of `getcwdx` from the `k`th call on: the path, whether `sp` is set, the process. -/
def climb (t : Tree) (o : ℕ → Outcome) :
    ℕ → ℕ → Proc → Option ℕ → Bool → List Name → Option (Option Name × Bool × Proc)
  | 0, _, _, _, _, _ => none
  | fuel + 1, k, s, child, sp, head =>
    if o k ≠ .ok then some (none, sp, s)
    else
      let parent := t.inode s.cwd.dropLast
      let rtn := o (k + 1)
      let s := { s with cwd := if rtn = .ok then s.cwd.dropLast else s.cwd }
      if rtn = .enoent ∨ child = parent then
        -- the empty name is pushed first if there is none
        if head = [] then
          if o (k + 2) = .ok ∧ o (k + 3) = .ok then some (some (getPathlist [[]]), sp, s)
          else some (none, sp, s)
        else if o (k + 2) = .ok then some (some (getPathlist head), sp, s)
        else some (none, sp, s)
      else if rtn ≠ .ok then some (none, sp, s)
      else if o (k + 2) ≠ .ok then some (none, false, s)
      else
        let s := { s with opened := s.opened + 1 }
        match findChild o child (t.entries s.cwd) (k + 3) with
        | (none, _) => some (none, true, s)
        | (some name, k) => climb t o fuel k s parent true (name :: head)

/-- The last part of `getcwdx`; `dirfd` is open on `cwd`. -/
def cleanup (cwd : List Name) : Option Name × Bool × Proc → Option Name × Proc
  | (path, sp, s) => (path, { s with cwd, opened := s.opened - sp.toNat - 1 })

def getcwdx (t : Tree) (o : ℕ → Outcome) (fuel : ℕ) (cwd : List Name) :
    Option (Option Name × Proc) :=
  if o 0 ≠ .ok then some (none, ⟨cwd, 0⟩)
  else if o 1 ≠ .ok then some (cleanup cwd (none, false, ⟨cwd, 1⟩))
  else (climb t o fuel 2 ⟨cwd, 1⟩ (t.inode cwd) false []).map (cleanup cwd)

/-! ## The path -/

variable {t : Tree}

lemma findChild_eq {ino : ℕ} {name : Name} {es : List (Name × ℕ)} (h : (name, ino) ∈ es)
    (hunique : ∀ n, (n, ino) ∈ es → n = name) (k : ℕ) :
    ∃ k', findChild (fun _ => .ok) (some ino) es k = (some name, k') := by
  induction es generalizing k with
  | nil => cases h
  | cons e es ih =>
    obtain ⟨n, i⟩ := e
    by_cases hi : i = ino
    · obtain rfl := hunique n (hi ▸ mem_cons_self)
      exact ⟨k + 3, by simp [findChild, hi]⟩
    · have hmem : (name, ino) ∈ es := (mem_cons.mp h).resolve_left (by simp [Ne.symm hi])
      obtain ⟨k', hk'⟩ := ih hmem (fun n hn => hunique n (mem_cons_of_mem _ hn)) (k + 2)
      exact ⟨k', by simpa [findChild, Ne.symm hi] using hk'⟩

lemma eq_of_mem_entries {q : List Name} {n m : Name} {i : ℕ} (hi : (q ++ [n], i) ∈ t.dirs)
    (hm : (m, i) ∈ t.entries q) : m = n := by
  have hq := mem_paths_of_entry (mem_paths.mpr ⟨i, hi⟩)
  have hpath : ∀ p, (p, i) ∈ t.dirs → p = q ++ [n] := fun p hp =>
    congrArg Prod.fst (eq_of_inode_eq hp hi rfl)
  rcases (t.mem_entries q hq i (mem_inodes_of_mem hi) m).mp hm with
    ⟨-, hdot⟩ | ⟨-, hdotdot⟩ | hdir
  · simpa using congrArg length (hpath q (inode_eq_some.mp hdot))
  · have := congrArg length (hpath q.dropLast (inode_eq_some.mp hdotdot))
    rw [length_dropLast, length_append, length_singleton] at this
    omega
  · simpa using hpath _ hdir

/-- Only the root is its own parent. -/
lemma inode_dropLast {p : List Name} (hp : p ∈ t.paths) :
    t.inode p = t.inode p.dropLast ↔ p = [] := by
  constructor
  · intro h
    obtain ⟨i, hi⟩ := mem_paths.mp hp
    rw [inode_eq_some.mpr hi] at h
    have hpath := eq_of_inode_eq hi (inode_eq_some.mp h.symm) rfl
    have hlen := congrArg length (congrArg Prod.fst hpath)
    rw [length_dropLast] at hlen
    exact length_eq_zero_iff.mp (by change p.length = p.length - 1 at hlen; omega)
  · rintro rfl
    rfl

lemma climb_path {p : List Name} (hp : p ∈ t.paths) (k opened : ℕ) (sp : Bool)
    (head : List Name) : ∃ sp' s, climb t (fun _ => .ok) (p.length + 1) k ⟨p, opened⟩
      (t.inode p) sp head =
        some (some (getPathlist (if p ++ head = [] then [[]] else p ++ head)), sp', s) := by
  induction p using reverseRecOn generalizing k opened sp head with
  | nil => by_cases hhead : head = [] <;> simp [climb, hhead]
  | append_singleton q n ih =>
    obtain ⟨i, hi⟩ := mem_paths.mp hp
    have hq := mem_paths_of_entry hp
    have hino : t.inode (q ++ [n]) = some i := inode_eq_some.mpr hi
    have hne : some i ≠ t.inode q := by
      simpa [hino] using (inode_dropLast hp).not.mpr (concat_ne_nil n q)
    have hmem : (n, i) ∈ t.entries q :=
      (t.mem_entries q hq i (mem_inodes_of_mem hi) n).mpr (.inr (.inr hi))
    obtain ⟨k', hfind⟩ := findChild_eq hmem (fun m hm => eq_of_mem_entries hi hm) (k + 3)
    obtain ⟨sp', s, hclimb⟩ := ih hq k' (opened + 1) true (n :: head)
    refine ⟨sp', s, ?_⟩
    rw [length_append, length_singleton, climb]
    simpa [hino, hne, hfind] using hclimb

/-- In every directory of a tree `getcwdx` returns the names on the way to it. -/
theorem getcwdx_path {cwd : List Name} (h : cwd ∈ t.paths) :
    ∃ s, getcwdx t (fun _ => .ok) (cwd.length + 1) cwd =
      some (some (if cwd = [] then [47] else cwd.flatMap fun name => 47 :: name), s) := by
  obtain ⟨sp, s, hclimb⟩ := climb_path h 2 1 false []
  refine ⟨(cleanup cwd (none, sp, s)).2, ?_⟩
  rw [append_nil] at hclimb
  simp only [getcwdx, hclimb, ne_eq, not_true, if_false, Option.map_some, cleanup]
  split_ifs <;> rfl

def aAndB : Tree where
  dirs := [([], 2), ([[97]], 3), ([[97], [98]], 4)]
  paths_nodup := by decide
  inodes_nodup := by decide
  closed d hd p hp := by
    have hinits : ∀ d ∈ [([], 2), ([[97]], 3), ([[97], [98]], 4)], ∀ p ∈ d.1.inits,
        p ∈ ([[], [[97]], [[97], [98]]] : List (List Name)) := by decide
    exact hinits d hd p ((mem_inits p d.1).mpr hp)
  entries
    | [] => [(dot, 2), (dotdot, 2), ([97], 3)]
    | [_] => [(dot, 3), (dotdot, 2), ([98], 4)]
    | _ => [(dot, 4), (dotdot, 3)]
  mem_entries p hp i hi n := by
    simp only [paths, inodes, map_cons, map_nil, mem_cons, not_mem_nil,
      or_false] at hp hi
    rcases hp with rfl | rfl | rfl <;> rcases hi with rfl | rfl | rfl <;> simp [inode]

theorem getcwdx_path_deep : ∃ s,
    getcwdx aAndB (fun _ => .ok) 3 [[97], [98]] = some (some [47, 97, 47, 98], s) :=
  getcwdx_path (t := aAndB) (by decide)

/-! ## What the call leaves -/

/-- The place of the directory among the entries of its parent. -/
def childIdx (t : Tree) (cwd : List Name) : ℕ :=
  (t.entries cwd.dropLast).findIdx fun e => t.inode cwd = some e.2

/-- The number of calls before the second `opendir`, if there is one: five with the first, two for
each entry of the parent up to the child, one for its name and two in the next round. -/
def callsToSecond (t : Tree) (cwd : List Name) : ℕ := 2 * childIdx t cwd + 10

variable {o : ℕ → Outcome} {k fuel : ℕ} {s : Proc} {child : Option ℕ} {sp : Bool}
  {head : List Name} {es : List (Name × ℕ)}

/-- The child is found if every call up to its entry succeeds. -/
lemma findChild_spec (h : ∃ e ∈ es, child = some e.2) (k : ℕ) :
    (∀ i < 2 * es.findIdx (fun e => child = some e.2) + 3, o (k + i) = .ok) ∧
        (∃ name, findChild o child es k =
          (some name, k + (2 * es.findIdx (fun e => child = some e.2) + 3))) ∨
      (∃ i < 2 * es.findIdx (fun e => child = some e.2) + 3, o (k + i) ≠ .ok) ∧
        ∃ k', findChild o child es k = (none, k') := by
  induction es generalizing k with
  | nil => simp at h
  | cons e es ih =>
    obtain ⟨name, ino⟩ := e
    rw [findChild, findIdx_cons]
    by_cases h₀ : o k = .ok
    swap
    · exact .inr ⟨⟨0, by omega, h₀⟩, _, if_pos h₀⟩
    by_cases h₁ : o (k + 1) = .ok
    swap
    · exact .inr ⟨⟨1, by omega, h₁⟩, _, by rw [if_neg (not_not_intro h₀), if_pos h₁]⟩
    rw [if_neg (not_not_intro h₀), if_neg (not_not_intro h₁)]
    by_cases hchild : child = some ino
    · rw [if_pos hchild, decide_eq_true hchild, cond_true]
      by_cases h₂ : o (k + 2) = .ok
      · refine .inl ⟨fun i hi => ?_, name, by rw [if_pos h₂]⟩
        match i, hi with
        | 0, _ => exact h₀
        | 1, _ => exact h₁
        | 2, _ => exact h₂
      · exact .inr ⟨⟨2, by omega, h₂⟩, _, by rw [if_neg h₂]⟩
    · have hrest : ∃ e ∈ es, child = some e.2 := by simpa [hchild] using h
      rw [if_neg hchild, decide_eq_false hchild, cond_false]
      obtain ⟨hall, name, heq⟩ | ⟨⟨i, hi, hbad⟩, k', heq⟩ := ih hrest (k + 2)
      · refine .inl ⟨fun i hi => ?_, name, by rw [heq]; congr 1; omega⟩
        match i, hi with
        | 0, _ => exact h₀
        | 1, _ => exact h₁
        | i + 2, hi =>
          rw [show k + (i + 2) = k + 2 + i by omega]
          exact hall i (by omega)
      · refine .inr ⟨⟨i + 2, by omega, ?_⟩, k', heq⟩
        rwa [show k + (i + 2) = k + 2 + i by omega]

/-- A round in which `opendir` is not called ends the loop. -/
lemma climb_ends (h : ¬ (o k = .ok ∧ o (k + 1) = .ok ∧ child ≠ t.inode s.cwd.dropLast)) :
    ∃ path s', climb t o (fuel + 1) k s child sp head = some (path, sp, s') ∧
      s'.opened = s.opened := by
  rw [climb]
  dsimp only
  by_cases h₀ : o k = .ok
  swap
  · exact ⟨_, _, if_pos h₀, rfl⟩
  rw [if_neg (not_not_intro h₀)]
  by_cases hroot : o (k + 1) = .enoent ∨ child = t.inode s.cwd.dropLast
  · rw [if_pos hroot]
    split_ifs <;> exact ⟨_, _, rfl, rfl⟩
  rw [not_or] at hroot
  have h₁ : o (k + 1) ≠ .ok := fun h₁ => h ⟨h₀, h₁, hroot.2⟩
  rw [if_neg (not_or.mpr hroot), if_pos h₁]
  exact ⟨_, _, rfl, rfl⟩

/-- A round in which it is called. -/
lemma climb_opens (h₀ : o k = .ok) (h₁ : o (k + 1) = .ok) (hroot : child ≠ t.inode s.cwd.dropLast) :
    climb t o (fuel + 1) k s child sp head =
      if o (k + 2) ≠ .ok then some (none, false, ⟨s.cwd.dropLast, s.opened⟩)
      else match findChild o child (t.entries s.cwd.dropLast) (k + 3) with
        | (none, _) => some (none, true, ⟨s.cwd.dropLast, s.opened + 1⟩)
        | (some name, k) => climb t o fuel k ⟨s.cwd.dropLast, s.opened + 1⟩
            (t.inode s.cwd.dropLast) true (name :: head) := by
  rw [climb]
  simp [h₀, h₁, hroot]

/-- What is left open behind the last part. -/
def left (sp : Bool) (s : Proc) : ℕ := s.opened - sp.toNat - 1

/-- The loop ends.  With a stream open it leaves that one open if and only if it opens another. -/
lemma climb_frame (t : Tree) (o : ℕ → Outcome) {s : Proc} {fuel : ℕ} (hfuel : s.cwd.length < fuel)
    (k : ℕ) (head : List Name) (hopened : 2 ≤ s.opened) :
    ∃ path sp s', climb t o fuel k s (t.inode s.cwd) true head = some (path, sp, s') ∧
      s.opened - 2 ≤ left sp s' ∧ (left sp s' = s.opened - 2 ↔
        ¬ (o k = .ok ∧ o (k + 1) = .ok ∧ t.inode s.cwd ≠ t.inode s.cwd.dropLast)) := by
  induction fuel generalizing s k head with
  | zero => cases hfuel
  | succ fuel ih =>
    by_cases h : o k = .ok ∧ o (k + 1) = .ok ∧ t.inode s.cwd ≠ t.inode s.cwd.dropLast
    swap
    · obtain ⟨path, s', hclimb, hs'⟩ := @climb_ends t o k fuel s _ true head h
      refine ⟨path, true, s', hclimb, ?_, ?_⟩
      · unfold left; rw [hs']; rfl
      · simp only [h, not_false_iff, iff_true, left, hs']; rfl
    obtain ⟨h₀, h₁, hroot⟩ := h
    rw [climb_opens h₀ h₁ hroot]
    have hmore {sp : Bool} {s' : Proc} (hlt : s.opened - 2 < left sp s') :
        s.opened - 2 ≤ left sp s' ∧ (left sp s' = s.opened - 2 ↔
          ¬ (o k = .ok ∧ o (k + 1) = .ok ∧ t.inode s.cwd ≠ t.inode s.cwd.dropLast)) :=
      ⟨hlt.le, by simp [h₀, h₁, hroot, hlt.ne']⟩
    split
    · exact ⟨_, _, _, rfl, hmore (by simp only [left, Bool.toNat_false]; omega)⟩
    split
    · exact ⟨_, _, _, rfl, hmore (by simp only [left, Bool.toNat_true]; omega)⟩
    · have hcwd : s.cwd ≠ [] := by
        rintro h
        rw [h] at hroot
        exact hroot rfl
      have hlen : s.cwd.dropLast.length < fuel := by
        have := length_pos_iff.mpr hcwd
        rw [length_dropLast]
        omega
      obtain ⟨path, sp, s', hclimb, hle, -⟩ :=
        ih (s := ⟨s.cwd.dropLast, s.opened + 1⟩) hlen _ _ (by dsimp only; omega)
      exact ⟨path, sp, s', hclimb, hmore (by dsimp only at hle; omega)⟩

lemma exists_entry {cwd : List Name} (h : cwd ∈ t.paths) (hne : cwd ≠ []) :
    ∃ e ∈ t.entries cwd.dropLast, t.inode cwd = some e.2 := by
  obtain ⟨i, hi⟩ := mem_paths.mp h
  rw [← dropLast_concat_getLast hne] at h hi
  have hq := mem_paths_of_entry h
  refine ⟨(cwd.getLast hne, i), ?_, ?_⟩
  · exact (t.mem_entries _ hq i (mem_inodes_of_mem hi) _).mpr (.inr (.inr hi))
  · rw [dropLast_concat_getLast hne] at hi
    exact inode_eq_some.mpr hi

/-- Whatever fails, `getcwdx` ends in the directory where it began, and it has closed what it has
opened if and only if that is the root or a child of it, or one of the calls up to the second
`opendir` fails. -/
theorem getcwdx_frame (o : ℕ → Outcome) {cwd : List Name} (h : cwd ∈ t.paths) :
    ∃ path s, getcwdx t o (cwd.length + 1) cwd = some (path, s) ∧ s.cwd = cwd ∧
      (s.opened = 0 ↔ cwd.length < 2 ∨ ∃ i < callsToSecond t cwd, o i ≠ .ok) := by
  have hfails {i : ℕ} (hi : i < callsToSecond t cwd) (hbad : o i ≠ .ok) :
      0 = 0 ↔ cwd.length < 2 ∨ ∃ i < callsToSecond t cwd, o i ≠ .ok :=
    iff_of_true rfl (.inr ⟨i, hi, hbad⟩)
  have hten : 10 ≤ callsToSecond t cwd := Nat.le_add_left ..
  rw [getcwdx]
  by_cases h₀ : o 0 = .ok
  swap
  · exact ⟨_, _, if_pos h₀, rfl, hfails (by omega) h₀⟩
  by_cases h₁ : o 1 = .ok
  swap
  · exact ⟨_, _, by rw [if_neg (not_not_intro h₀), if_pos h₁], rfl, hfails (by omega) h₁⟩
  rw [if_neg (not_not_intro h₀), if_neg (not_not_intro h₁)]
  by_cases hfirst : o 2 = .ok ∧ o 3 = .ok ∧ t.inode cwd ≠ t.inode cwd.dropLast
  swap
  · obtain ⟨path, s, hclimb, hs⟩ := @climb_ends t o 2 cwd.length ⟨cwd, 1⟩ _ false [] hfirst
    refine ⟨_, _, by rw [hclimb]; rfl, rfl, iff_of_true (by simp [hs]) ?_⟩
    by_cases h₂ : o 2 = .ok
    swap
    · exact .inr ⟨2, by omega, h₂⟩
    by_cases h₃ : o 3 = .ok
    swap
    · exact .inr ⟨3, by omega, h₃⟩
    have hroot : cwd = [] := by simpa [h₂, h₃, inode_dropLast h] using hfirst
    exact .inl (by rw [hroot]; decide)
  obtain ⟨h₂, h₃, hroot⟩ := hfirst
  have hne : cwd ≠ [] := fun hnil => hroot ((inode_dropLast h).mpr hnil)
  rw [climb_opens (s := ⟨cwd, 1⟩) h₂ h₃ hroot]
  by_cases h₄ : o 4 = .ok
  swap
  · exact ⟨_, _, by rw [if_pos h₄]; rfl, rfl, hfails (by omega) h₄⟩
  rw [if_neg (not_not_intro h₄)]
  obtain ⟨hall, name, heq⟩ | ⟨⟨i, hi, hbad⟩, k', heq⟩ := findChild_spec (exists_entry h hne) 5
  swap
  · exact ⟨_, _, by rw [heq]; rfl, rfl, hfails (by unfold callsToSecond childIdx; omega) hbad⟩
  -- the second round: `opendir` is called unless one of the two calls before it fails
  change ∀ i < 2 * childIdx t cwd + 3, _ at hall
  change _ = (some name, 5 + (2 * childIdx t cwd + 3)) at heq
  have hlen : cwd.dropLast.length < cwd.length := by
    have := length_pos_iff.mpr hne
    rw [length_dropLast]
    omega
  obtain ⟨path, sp, s, hclimb, -, hiff⟩ := climb_frame t o (s := ⟨cwd.dropLast, 2⟩) hlen
    (5 + (2 * childIdx t cwd + 3)) [name] le_rfl
  refine ⟨path, (cleanup cwd (path, sp, s)).2, ?_, rfl, hiff.trans ?_⟩
  · rw [heq]
    exact congrArg (Option.map (cleanup cwd)) hclimb
  have hparent : cwd.dropLast ∈ t.paths := by
    rw [← dropLast_concat_getLast hne] at h
    exact mem_paths_of_entry h
  have htwo : cwd.dropLast = [] ↔ cwd.length < 2 := by
    rw [← length_eq_zero_iff, length_dropLast]
    omega
  rw [ne_eq, inode_dropLast hparent, htwo]
  constructor
  · intro hnot
    by_contra hok
    push Not at hok
    exact hnot ⟨hok.2 _ (by unfold callsToSecond; omega), hok.2 _ (by unfold callsToSecond; omega),
      by omega⟩
  · rintro (hlt | ⟨i, hi, hbad⟩) ⟨h₈, h₉, hlen⟩
    · exact hlen hlt
    · have hcall : i = 0 ∨ i = 1 ∨ i = 2 ∨ i = 3 ∨ i = 4 ∨
          i = 5 + (i - 5) ∧ i - 5 < 2 * childIdx t cwd + 3 ∨
          i = 5 + (2 * childIdx t cwd + 3) ∨ i = 5 + (2 * childIdx t cwd + 3) + 1 := by
        unfold callsToSecond at hi
        omega
      rcases hcall with rfl | rfl | rfl | rfl | rfl | ⟨h, hj⟩ | rfl | rfl
      exacts [hbad h₀, hbad h₁, hbad h₂, hbad h₃, hbad h₄, hbad (h ▸ hall _ hj), hbad h₈, hbad h₉]

/-- Called in `/a/b`, where the second `readdir` fails. -/
theorem getcwdx_frame_readdir_fails : ∃ path s,
    getcwdx aAndB (fun i => if i = 7 then .error else .ok) 3 [[97], [98]] = some (path, s) ∧
      s.cwd = [[97], [98]] ∧ s.opened = 0 := by
  have hmem : [[97], [98]] ∈ aAndB.paths := by decide
  obtain ⟨path, s, hs, hcwd, hiff⟩ := getcwdx_frame (fun i => if i = 7 then .error else .ok) hmem
  exact ⟨path, s, hs, hcwd, hiff.mpr (.inr ⟨7, by decide, by decide⟩)⟩

/-- Called in `/a/b`, where no call fails, it leaves a directory open. -/
theorem getcwdx_leaves_open : ∃ path s,
    getcwdx aAndB (fun _ => .ok) 3 [[97], [98]] = some (path, s) ∧ s.opened = 1 :=
  ⟨_, _, rfl, rfl⟩

end UnixPrograms.Cwd
