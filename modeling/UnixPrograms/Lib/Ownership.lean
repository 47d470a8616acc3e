import UnixPrograms.Lib.Blocks

/-!
# Who may touch which block

As long as nobody holds the lock of a resource `r` for writing, its cells satisfy `inv r g`, where
`g` is what they represent.  A process that takes the write lock gets the cells, and has to give
back cells that satisfy the invariant; a read lock lets it look at them.

`Protocol.Allows` gives for each system call what the process must have and what it has afterwards.
`Safe` extends this to programs, and is inductive, so that a safe program ends.
-/

namespace UnixPrograms

open Function (update)

/-- The locks of a family of resources `R`.  A process takes locks in the order of their ranks. -/
structure Protocol (F R γ : Type) where
  file : R → F
  start : R → ℕ
  len : R → ℕ
  rank : R → ℕ
  /-- The cells of a resource that nobody is writing, and what they represent. -/
  inv : R → γ → Multiset (Cell F) → Prop
  /-- Different resources have different bytes for their locks. -/
  apart : ∀ r r' b, file r = file r' → InRange (start r) (len r) b →
    InRange (start r') (len r') b → r = r'

/-- What one process has at a moment: cells it may write, cells it may only read, its file offsets,
its locks with what their cells represented when they were taken, the files whose end it has looked
up and not yet moved, and the places it has taken in this call. -/
structure Holding (F R γ : Type) where
  own : Multiset (Cell F)
  view : Multiset (Cell F)
  pos : F → ℕ
  held : R → Option (LockMode × γ)
  atEnd : F → Bool
  noted : List (F × ℕ)

def Holding.empty {F R γ : Type} (pos : F → ℕ) : Holding F R γ :=
  ⟨0, 0, pos, fun _ => none, fun _ => false, []⟩

section Rules

variable {F R γ E α : Type} [DecidableEq F] [DecidableEq R]

def Protocol.At (P : Protocol F R γ) (r : R) (fd : F) (start len : ℕ) : Prop :=
  P.file r = fd ∧ P.start r = start ∧ P.len r = len

/-- A process that holds `h` may make the system call, whatever the other processes do, and will
then satisfy `Q` together with the reply. -/
def Protocol.Allows (P : Protocol F R γ) (h : Holding F R γ) :
    (c : Sys F) → (c.Reply → Holding F R γ → Prop) → Prop
  | .lseek fd offset .seekSet, Q =>
    0 ≤ offset ∧ Q offset { h with pos := update h.pos fd offset.toNat }
  | .lseek fd offset .seekCur, Q =>
    0 ≤ (h.pos fd : ℤ) + offset ∧
      Q ((h.pos fd : ℤ) + offset)
        { h with pos := update h.pos fd ((h.pos fd : ℤ) + offset).toNat }
  | .lseek fd offset .seekEnd, Q =>
    offset = 0 ∧ ∃ n : ℕ, .eof fd n ∈ h.own ∧ h.atEnd fd = false ∧
      Q (n : ℤ) { h with pos := update h.pos fd n, atEnd := update h.atEnd fd true }
  | .read fd n, Q =>
    ∃ o b i, .block fd o b ∈ h.own + h.view ∧ h.pos fd = o + i ∧ i + n ≤ b.length ∧
      Q (readAt b i n) { h with pos := update h.pos fd (h.pos fd + n) }
  | .write fd bs, Q =>
    (∃ o b i rest, h.own = .block fd o b ::ₘ rest ∧ h.pos fd = o + i ∧ i + bs.length ≤ b.length ∧
      Q bs.length { h with
        own := .block fd o (writeAt b i bs) ::ₘ rest
        pos := update h.pos fd (h.pos fd + bs.length) }) ∨
    (∃ n rest, h.own = .eof fd n ::ₘ rest ∧ h.pos fd = n ∧ bs ≠ [] ∧ Q bs.length { h with
        own := .eof fd (n + bs.length) ::ₘ .block fd n bs ::ₘ rest
        pos := update h.pos fd (n + bs.length)
        atEnd := update h.atEnd fd false })
  | .fstat _, _ => False
  | .setlkw fd mode start len, Q =>
    ∃ r, P.At r fd start len ∧ (∀ r', h.held r' ≠ none → P.rank r' < P.rank r) ∧
      (mode = .read → ∀ r' g, h.held r' ≠ some (.read, g)) ∧
      ∀ g cs, P.inv r g cs →
        Q () { h with
          own := if mode = .write then cs + h.own else h.own
          view := if mode = .read then cs else h.view
          held := update h.held r (some (mode, g)) }
  | .unlck fd start len, Q =>
    ∃ r g g' cs rest, P.At r fd start len ∧ h.held r = some (.write, g) ∧
      (∃ r', r' ≠ r ∧ h.held r' ≠ none) ∧
      (∀ r', r' ≠ r → h.held r' ≠ none → P.rank r' < P.rank r) ∧
      (∀ fd, h.atEnd fd = false) ∧ h.own = cs + rest ∧ P.inv r g' cs ∧
      (∀ x ∈ h.noted, ∃ b, .block x.1 x.2 b ∈ rest) ∧
      Q () { h with own := rest, held := update h.held r none }
  | .note fd o, Q => (∃ b, .block fd o b ∈ h.own) ∧ Q () { h with noted := (fd, o) :: h.noted }

/-- The last lock of a call may be given back: its cells are all that the process has left, and they
satisfy the invariant, with `g'` for what they represent now. -/
def Protocol.Returns (P : Protocol F R γ) (h : Holding F R γ) (r : R) (g g' : γ) : Prop :=
  (∀ r', r' ≠ r → h.held r' = none) ∧ (∀ fd, h.atEnd fd = false) ∧
    (h.held r = some (.write, g) ∧ P.inv r g' h.own ∨
      h.held r = some (.read, g) ∧ h.own = 0 ∧ g' = g)

/-- A program that keeps to the protocol from `h` on, and ends: with a value that satisfies `Φ`,
when it gives its last lock back (or has never had one), or with an error that satisfies `Ψ`. -/
inductive Safe (P : Protocol F R γ) (Φ : α → Option (R × γ × γ) → Prop)
    (Ψ : E → Holding F R γ → Prop) : FileProg F E α → Holding F R γ → Prop
  | ret {a : α} {h : Holding F R γ} (hidle : ∀ r, h.held r = none) (ha : Φ a none) :
      Safe P Φ Ψ (.ret a) h
  | fail {e : E} {h : Holding F R γ} (he : Ψ e h) : Safe P Φ Ψ (.fail e) h
  | call {c : Sys F} {k : c.Reply → FileProg F E α} {h : Holding F R γ}
      (Q : c.Reply → Holding F R γ → Prop) (hc : P.Allows h c Q)
      (hk : ∀ r h', Q r h' → Safe P Φ Ψ (k r) h') : Safe P Φ Ψ (.call c k) h
  | loop {σ β : Type} {body : σ → FileProg F E (σ ⊕ β)} {x : σ} {k : β → FileProg F E α}
      {h : Holding F R γ} (hr : Safe P Φ Ψ (.unroll body x k) h) : Safe P Φ Ψ (.loop body x k) h
  | finish {fd : F} {start len : ℕ} {a : α} {h : Holding F R γ} {r : R} {g g' : γ}
      (hat : P.At r fd start len) (hr : P.Returns h r g g') (ha : Φ a (some (r, g, g'))) :
      Safe P Φ Ψ (.call (.unlck fd start len) fun _ => .ret a) h

namespace Safe

variable {P : Protocol F R γ} {Φ : α → Option (R × γ × γ) → Prop} {Ψ : E → Holding F R γ → Prop}
  {fd : F} {own view rest : Multiset (Cell F)} {pos : F → ℕ} {held : R → Option (LockMode × γ)}
  {atEnd : F → Bool} {noted : List (F × ℕ)}

/-! ### One rule for each system call -/

lemma lseekSet {offset : ℤ} {whence : Whence} {k : ℤ → FileProg F E α} (hoff : 0 ≤ offset)
    (hw : whence = .seekSet)
    (hk : Safe P Φ Ψ (k offset) ⟨own, view, update pos fd offset.toNat, held, atEnd, noted⟩) :
    Safe P Φ Ψ (.call (.lseek fd offset whence) k) ⟨own, view, pos, held, atEnd, noted⟩ := by
  subst hw
  exact .call (fun r h' => Safe P Φ Ψ (k r) h') ⟨hoff, hk⟩ fun _ _ => id

variable {n o len start : ℕ} {b : Bytes} {k : Unit → FileProg F E α}

lemma lseekEnd {k : ℤ → FileProg F E α} (hn : .eof fd n ∈ own) (hat : atEnd fd = false)
    (hk : Safe P Φ Ψ (k n) ⟨own, view, update pos fd n, held, update atEnd fd true, noted⟩) :
    Safe P Φ Ψ (.call (.lseek fd 0 .seekEnd) k) ⟨own, view, pos, held, atEnd, noted⟩ :=
  .call (fun r h' => Safe P Φ Ψ (k r) h') ⟨rfl, n, hn, hat, hk⟩ fun _ _ => id

lemma read {i : ℕ} {v : Bytes} {k : Bytes → FileProg F E α} (hb : .block fd o b ∈ own + view)
    (hpos : pos fd = o + i) (hin : i + n ≤ b.length) (hv : readAt b i n = v)
    (hk : Safe P Φ Ψ (k v) ⟨own, view, update pos fd (pos fd + n), held, atEnd, noted⟩) :
    Safe P Φ Ψ (.call (.read fd n) k) ⟨own, view, pos, held, atEnd, noted⟩ :=
  .call (fun r h' => Safe P Φ Ψ (k r) h') ⟨o, b, i, hb, hpos, hin, hv ▸ hk⟩ fun _ _ => id

lemma write {i : ℕ} {b' bs : Bytes} {k : ℕ → FileProg F E α} (hpos : pos fd = o + i)
    (hin : i + bs.length ≤ b.length) (hb' : writeAt b i bs = b')
    (hk : Safe P Φ Ψ (k bs.length) ⟨.block fd o b' ::ₘ rest, view, update pos fd (pos fd +
      bs.length), held, atEnd, noted⟩) :
    Safe P Φ Ψ (.call (.write fd bs) k)
      ⟨.block fd o b ::ₘ rest, view, pos, held, atEnd, noted⟩ :=
  .call (fun r h' => Safe P Φ Ψ (k r) h') (.inl ⟨o, b, i, rest, rfl, hpos, hin, hb' ▸ hk⟩)
    fun _ _ => id

lemma append {bs d : Bytes} {k : ℕ → FileProg F E α} (hpos : pos fd = n) (hbs : bs ≠ [])
    (hd : bs = d)
    (hk : Safe P Φ Ψ (k bs.length) ⟨.eof fd (n + d.length) ::ₘ .block fd n d ::ₘ rest, view, update
      pos fd (n + d.length), held, update atEnd fd false, noted⟩) :
    Safe P Φ Ψ (.call (.write fd bs) k) ⟨.eof fd n ::ₘ rest, view, pos, held, atEnd, noted⟩ :=
  .call (fun r h' => Safe P Φ Ψ (k r) h') (.inr ⟨n, rest, rfl, hpos, hbs, hd ▸ hk⟩) fun _ _ => id

lemma lockWrite (r : R) (hat : P.At r fd start len)
    (hrank : ∀ r', held r' ≠ none → P.rank r' < P.rank r)
    (hk : ∀ g cs, P.inv r g cs → Safe P Φ Ψ (k ()) ⟨cs + own, view, pos, update held r (some
      (.write, g)), atEnd, noted⟩) :
    Safe P Φ Ψ (.call (.setlkw fd .write start len) k) ⟨own, view, pos, held, atEnd, noted⟩ :=
  .call (fun r h' => Safe P Φ Ψ (k r) h')
    ⟨r, hat, hrank, nofun, fun g cs hinv => by simpa using hk g cs hinv⟩ fun _ _ => id

lemma lockRead (r : R) (hat : P.At r fd start len)
    (hrank : ∀ r', held r' ≠ none → P.rank r' < P.rank r) (hro : ∀ r' g, held r' ≠ some (.read, g))
    (hk : ∀ g cs, P.inv r g cs → Safe P Φ Ψ (k ()) ⟨own, cs, pos, update held r (some (.read, g)),
      atEnd, noted⟩) :
    Safe P Φ Ψ (.call (.setlkw fd .read start len) k) ⟨own, view, pos, held, atEnd, noted⟩ :=
  .call (fun r h' => Safe P Φ Ψ (k r) h')
    ⟨r, hat, hrank, fun _ => hro, fun g cs hinv => by simpa using hk g cs hinv⟩ fun _ _ => id

lemma unlock {g : γ} {cs : Multiset (Cell F)} (r : R) (g' : γ) (hat : P.At r fd start len)
    (hheld : held r = some (.write, g)) (hother : ∃ r', r' ≠ r ∧ held r' ≠ none)
    (hrank : ∀ r', r' ≠ r → held r' ≠ none → P.rank r' < P.rank r) (hend : ∀ fd, atEnd fd = false)
    (hown : own = cs + rest) (hinv : P.inv r g' cs)
    (hnoted : ∀ x ∈ noted, ∃ b, .block x.1 x.2 b ∈ rest)
    (hk : Safe P Φ Ψ (k ()) ⟨rest, view, pos, update held r none, atEnd, noted⟩) :
    Safe P Φ Ψ (.call (.unlck fd start len) k) ⟨own, view, pos, held, atEnd, noted⟩ :=
  .call (fun r h' => Safe P Φ Ψ (k r) h')
    ⟨r, g, g', cs, rest, hat, hheld, hother, hrank, hend, hown, hinv, hnoted, hk⟩ fun _ _ => id

lemma note (hb : .block fd o b ∈ own)
    (hk : Safe P Φ Ψ (k ()) ⟨own, view, pos, held, atEnd, (fd, o) :: noted⟩) :
    Safe P Φ Ψ (.call (.note fd o) k) ⟨own, view, pos, held, atEnd, noted⟩ :=
  .call (fun r h' => Safe P Φ Ψ (k r) h') ⟨⟨b, hb⟩, hk⟩ fun _ _ => id

/-- A loop that goes along a list: `I pre x h` says that it has passed the elements `pre`. -/
lemma walk {σ β A : Type} {body : σ → FileProg F E (σ ⊕ β)} {k : β → FileProg F E α}
    (as : List A) (I : List A → σ → Holding F R γ → Prop)
    (hstep : ∀ pre a post x h, as = pre ++ a :: post → I pre x h →
      (∀ y h', I (pre ++ [a]) y h' → Safe P Φ Ψ (.loop body y k) h') →
      Safe P Φ Ψ (.unroll body x k) h)
    (hdone : ∀ x h, I as x h → Safe P Φ Ψ (.unroll body x k) h) :
    ∀ {x h}, I [] x h → Safe P Φ Ψ (.loop body x k) h := by
  have hsuffix : ∀ post pre x h, as = pre ++ post → I pre x h → Safe P Φ Ψ (.loop body x k) h := by
    intro post
    induction post with
    | nil =>
      intro pre x h has hI
      rw [List.append_nil] at has
      exact .loop (hdone x h (has ▸ hI))
    | cons a post ih =>
      intro pre x h has hI
      refine .loop (hstep pre a post x h has hI fun y h' hy => ih (pre ++ [a]) y h' ?_ hy)
      rw [has, List.append_assoc, List.singleton_append]
  intro x h hI
  exact hsuffix as [] x h rfl hI

end Safe

end Rules

end UnixPrograms
