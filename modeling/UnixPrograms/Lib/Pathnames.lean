import UnixPrograms.Lib.Files
import Mathlib.Data.List.DropRight
import Mathlib.Data.List.Infix

/-!
# Pathnames

A directory below a given one is named by the list of the names on the way to it.  If the given
pathname does not end in a slash, the names can be read off its `pathname`, and `isUnder`, which
compares bytes, is the test for a prefix of the list of names (`isUnder_pathname`).
-/

namespace UnixPrograms

open List

def slash : UInt8 := 47

abbrev Name : Type := { b : Bytes // b ≠ [] ∧ slash ∉ b }

/-- The pathname of an entry of a directory.  A slash at the end of that of the directory is not
written twice. -/
def joinPath (dir name : Bytes) : Bytes :=
  if dir.getLast? = some slash then dir ++ name else dir ++ slash :: name

/-- The pathname without the slashes at its end.  The first byte stays. -/
def stripSlashes : Bytes → Bytes
  | [] => []
  | c :: cs => c :: cs.rdropWhile (· = slash)

def pathname (root : Bytes) (p : List Name) : Bytes := p.foldl (fun dir n => joinPath dir n.1) root

/-- The path is `dir` or below it: it begins with `dir`, and a slash or nothing follows. -/
def isUnder (dir path : Bytes) : Bool :=
  dir.isPrefixOf path && (path.drop dir.length).head?.all (· = slash)

/-- `isUnder` as a statement about the bytes. -/
def AtOrBelow (dir path : Bytes) : Prop := path = dir ∨ ∃ rest, path = dir ++ slash :: rest

/-- The names in a pathname, behind the bytes `word` of the first one. -/
def componentsFrom (word : Bytes) : Bytes → List Bytes
  | [] => if word = [] then [] else [word]
  | c :: cs =>
    if c = slash then (if word = [] then [] else [word]) ++ componentsFrom [] cs
    else componentsFrom (word ++ [c]) cs

def components (path : Bytes) : List Bytes := componentsFrom [] path

/-! ## The bytes behind the root -/

def tailBytes (p : List Name) : Bytes := (p.map fun n => slash :: n.1).flatten

@[simp] lemma tailBytes_nil : tailBytes [] = [] := rfl

@[simp] lemma tailBytes_cons (n : Name) (p : List Name) :
    tailBytes (n :: p) = slash :: (n.1 ++ tailBytes p) := rfl

lemma tailBytes_append (p q : List Name) : tailBytes (p ++ q) = tailBytes p ++ tailBytes q := by
  rw [tailBytes, map_append, flatten_append]
  rfl

lemma joinPath_of_ne {dir : Bytes} (h : dir.getLast? ≠ some slash) (name : Bytes) :
    joinPath dir name = dir ++ slash :: name := if_neg h

lemma stripSlashes_of_ne {path : Bytes} (h : path.getLast? ≠ some slash) :
    stripSlashes path = path := by
  cases path with
  | nil => rfl
  | cons c cs =>
    rw [stripSlashes, rdropWhile_eq_self_iff.mpr]
    intro hne heq
    rw [List.getLast?_cons_of_ne_nil hne, List.getLast?_eq_getLast_of_ne_nil hne] at h
    exact h (congrArg some (of_decide_eq_true heq))

lemma getLast?_append_name (dir : Bytes) (n : Name) :
    (dir ++ slash :: n.1).getLast? ≠ some slash := by
  rw [List.getLast?_append_of_ne_nil _ (cons_ne_nil _ _), List.getLast?_cons_of_ne_nil n.2.1]
  exact fun h => n.2.2 (mem_of_getLast? h)

variable {root : Bytes}

section

variable (hroot : root.getLast? ≠ some slash)
include hroot

lemma pathname_eq (p : List Name) : pathname root p = root ++ tailBytes p := by
  induction p generalizing root with
  | nil => rw [tailBytes_nil, append_nil]; rfl
  | cons n p ih =>
    have hnext : pathname root (n :: p) = pathname (joinPath root n.1) p := rfl
    rw [hnext, joinPath_of_ne hroot, ih (getLast?_append_name root n)]
    simp

lemma pathname_append (p q : List Name) :
    pathname root (p ++ q) = pathname root p ++ tailBytes q := by
  rw [pathname_eq hroot, pathname_eq hroot, tailBytes_append, append_assoc]

lemma pathname_concat (p : List Name) (n : Name) :
    pathname root (p ++ [n]) = pathname root p ++ slash :: n.1 := by
  rw [pathname_append hroot, tailBytes_cons, tailBytes_nil, append_nil]

lemma getLast?_pathname (p : List Name) : (pathname root p).getLast? ≠ some slash := by
  induction p using List.reverseRecOn with
  | nil => exact hroot
  | append_singleton p n => rw [pathname_concat hroot]; exact getLast?_append_name _ n

end

lemma pathname_pathname (root : Bytes) (p q : List Name) :
    pathname (pathname root p) q = pathname root (p ++ q) :=
  (foldl_append ..).symm

/-! ## The names can be read off -/

lemma append_slash_inj {m n x y : Bytes} (hm : slash ∉ m) (hn : slash ∉ n)
    (hx : ∀ c ∈ x.head?, c = slash) (hy : ∀ c ∈ y.head?, c = slash) (h : m ++ x = n ++ y) :
    m = n ∧ x = y := by
  induction m generalizing n with
  | nil =>
    cases n with
    | nil => exact ⟨rfl, h⟩
    | cons b n =>
      rw [nil_append] at h
      have hb : b = slash := hx b (by rw [h]; rfl)
      exact absurd (hb ▸ mem_cons_self) hn
  | cons a m ih =>
    cases n with
    | nil =>
      rw [nil_append] at h
      have ha : a = slash := hy a (by rw [← h]; rfl)
      exact absurd (ha ▸ mem_cons_self) hm
    | cons b n =>
      obtain ⟨rfl, htail⟩ := List.cons.inj h
      obtain ⟨rfl, hxy⟩ := ih (fun hmem => hm (mem_cons_of_mem a hmem))
        (fun hmem => hn (mem_cons_of_mem a hmem)) htail
      exact ⟨rfl, hxy⟩

lemma head?_tailBytes (p : List Name) : ∀ c ∈ (tailBytes p).head?, c = slash := by
  cases p with
  | nil | cons n p => simp

lemma exists_of_tailBytes_eq {p d : List Name} {x : Bytes} (hx : ∀ c ∈ x.head?, c = slash)
    (h : tailBytes d = tailBytes p ++ x) : ∃ q, d = p ++ q ∧ tailBytes q = x := by
  induction p generalizing d with
  | nil => exact ⟨d, rfl, h⟩
  | cons n p ih =>
    cases d with
    | nil => cases h
    | cons m d =>
      rw [tailBytes_cons, tailBytes_cons, cons_append, append_assoc] at h
      have hrest : ∀ c ∈ (tailBytes p ++ x).head?, c = slash := by
        cases p with
        | nil => exact hx
        | cons n' p => simp
      obtain ⟨hname, htail⟩ :=
        append_slash_inj m.2.2 n.2.2 (head?_tailBytes d) hrest (List.cons.inj h).2
      obtain ⟨q, rfl, hq⟩ := ih htail
      exact ⟨q, by rw [Subtype.ext hname]; rfl, hq⟩

lemma isUnder_append {dir rest : Bytes} :
    isUnder dir (dir ++ rest) = rest.head?.all (· = slash) := by
  simp [isUnder]

lemma isUnder_iff {dir path : Bytes} : isUnder dir path = true ↔ AtOrBelow dir path := by
  constructor
  · intro h
    obtain ⟨rest, rfl⟩ := isPrefixOf_iff_prefix.mp (Bool.and_eq_true_iff.mp h).1
    rw [isUnder_append] at h
    cases rest with
    | nil => exact .inl (append_nil dir)
    | cons c rest => exact .inr ⟨rest, by rw [of_decide_eq_true h]⟩
  · rintro (rfl | ⟨rest, rfl⟩)
    · simp [isUnder]
    · rw [isUnder_append]; rfl

instance (dir path : Bytes) : Decidable (AtOrBelow dir path) := decidable_of_iff _ isUnder_iff

lemma isUnder_pathname (hroot : root.getLast? ≠ some slash) (p d : List Name) :
    isUnder (pathname root p) (pathname root d) = true ↔ p <+: d := by
  rw [isUnder, Bool.and_eq_true, isPrefixOf_iff_prefix]
  simp only [Option.all_eq_true, decide_eq_true_eq]
  constructor
  · rintro ⟨⟨x, hx⟩, hhead⟩
    rw [← hx, drop_left] at hhead
    rw [pathname_eq hroot, pathname_eq hroot, append_assoc, append_cancel_left_eq] at hx
    obtain ⟨q, rfl, -⟩ := exists_of_tailBytes_eq hhead hx.symm
    exact prefix_append p q
  · rintro ⟨q, rfl⟩
    rw [pathname_append hroot, drop_left]
    exact ⟨prefix_append _ _, head?_tailBytes q⟩

lemma pathname_injective (hroot : root.getLast? ≠ some slash) :
    Function.Injective (pathname root) := by
  intro p d h
  have hp : p <+: d :=
    (isUnder_pathname hroot p d).mp (h ▸ (isUnder_pathname hroot p p).mpr prefix_rfl)
  have hd : d <+: p :=
    (isUnder_pathname hroot d p).mp (h ▸ (isUnder_pathname hroot d d).mpr prefix_rfl)
  exact hp.eq_of_length (Nat.le_antisymm hp.length_le hd.length_le)

/-! ## The names in a pathname -/

lemma componentsFrom_append_slash (word s t : Bytes) :
    componentsFrom word (s ++ slash :: t) = componentsFrom word s ++ componentsFrom [] t := by
  induction s generalizing word with
  | nil => simp [componentsFrom]
  | cons c s ih =>
    rw [cons_append, componentsFrom, componentsFrom, ih, ih]
    split
    · rw [append_assoc]
    · rfl

lemma componentsFrom_of_not_mem (word : Bytes) {s : Bytes} (hs : slash ∉ s) (hne : word ++ s ≠ []) :
    componentsFrom word s = [word ++ s] := by
  induction s generalizing word with
  | nil =>
    rw [append_nil] at hne ⊢
    rw [componentsFrom, if_neg hne]
  | cons c s ih =>
    rw [mem_cons, not_or] at hs
    rw [componentsFrom, if_neg (Ne.symm hs.1), ih _ hs.2 (by simp), append_assoc]
    rfl

lemma components_pathname (hroot : root.getLast? ≠ some slash) (p : List Name) :
    components (pathname root p) = components root ++ p.map Subtype.val := by
  induction p using List.reverseRecOn with
  | nil => exact (append_nil _).symm
  | append_singleton p n ih =>
    rw [pathname_concat hroot, components, componentsFrom_append_slash,
      componentsFrom_of_not_mem [] n.2.2 n.2.1, map_append, ← append_assoc, ← ih]
    rfl

end UnixPrograms
