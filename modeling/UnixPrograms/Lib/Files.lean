import UnixPrograms.Lib.Program
import Mathlib.Data.Int.Notation
import Mathlib.Logic.Function.Basic

/-!
# Processes that share files

`lseek`, `read` and `write` on shared files, each process with an offset of its own, and advisory
record locks.  `World.perform` is the effect of one system call; a step of a `Machine` is one call
of one process, so that all interleavings are runs.
-/

namespace UnixPrograms

open Function List

abbrev Bytes := List UInt8

def readAt (f : Bytes) (o n : ℕ) : Bytes := (f.drop o).take n

/-- `f` with the bytes from the offset `o` on overwritten by `bs`.  A hole reads as zeros. -/
def writeAt (f : Bytes) (o : ℕ) (bs : Bytes) : Bytes :=
  f.take o ++ replicate (o - f.length) 0 ++ bs ++ f.drop (o + bs.length)

inductive Whence
  | seekSet
  | seekCur
  | seekEnd
  deriving DecidableEq

inductive LockMode
  | read
  | write
  deriving DecidableEq

/-- Two locks of different processes on one byte are compatible only if both are read locks. -/
def LockMode.Compatible (m m' : LockMode) : Prop := m = .read ∧ m' = .read

instance (m m' : LockMode) : Decidable (m.Compatible m') :=
  inferInstanceAs (Decidable (_ ∧ _))

/-- The byte `b` is in the range of a lock; a length of 0 stands for "to the end of the file". -/
def InRange (start len b : ℕ) : Prop := start ≤ b ∧ (len = 0 ∨ b < start + len)

instance (start len b : ℕ) : Decidable (InRange start len b) :=
  inferInstanceAs (Decidable (_ ∧ _))

lemma inRange_start (start len : ℕ) : InRange start len start :=
  ⟨Nat.le_refl _, by omega⟩

/-- The system calls on the files `F`.  `note` is no system call: it has no effect, and marks a
place of a file that the call in progress has taken for itself. -/
inductive Sys (F : Type)
  | lseek (fd : F) (offset : ℤ) (whence : Whence)
  | read (fd : F) (n : ℕ)
  | write (fd : F) (bs : Bytes)
  | fstat (fd : F)
  | setlkw (fd : F) (mode : LockMode) (start len : ℕ)
  | unlck (fd : F) (start len : ℕ)
  | note (fd : F) (offset : ℕ)

/-- What a system call gives back: the new offset or -1, the bytes read, the number of bytes
written, the size of the file. -/
abbrev Sys.Reply {F : Type} : Sys F → Type
  | .lseek .. => ℤ
  | .read .. => Bytes
  | .write .. => ℕ
  | .fstat _ => ℕ
  | .setlkw .. => Unit
  | .unlck .. => Unit
  | .note .. => Unit

def Sys.noted {F : Type} : Sys F → List (F × ℕ)
  | .note fd offset => [(fd, offset)]
  | _ => []

structure World (ι F : Type) where
  file : F → Bytes
  pos : ι → F → ℕ
  lock : ι → F → ℕ → Option LockMode

namespace World

variable {ι F : Type} [DecidableEq ι] [DecidableEq F]

def seek (p : ι) (fd : F) (n : ℕ) (w : World ι F) : World ι F :=
  { w with pos := update w.pos p (update (w.pos p) fd n) }

def setLock (p : ι) (fd : F) (start len : ℕ) (m : Option LockMode) (w : World ι F) : World ι F :=
  { w with
    lock := update w.lock p (update (w.lock p) fd fun b =>
      if InRange start len b then m else w.lock p fd b) }

def target (p : ι) (fd : F) (offset : ℤ) (w : World ι F) : Whence → ℤ
  | .seekSet => offset
  | .seekCur => w.pos p fd + offset
  | .seekEnd => (w.file fd).length + offset

/-- The effect of one system call of the process `p`.  A lock is set whatever the others hold: it
is up to the machine to perform this call only when it is not blocked. -/
def perform (p : ι) : (c : Sys F) → World ι F → c.Reply × World ι F
  | .lseek fd offset whence, w =>
    if w.target p fd offset whence < 0 then ((-1 : ℤ), w)
    else (w.target p fd offset whence, w.seek p fd (w.target p fd offset whence).toNat)
  | .read fd n, w =>
    let bs := readAt (w.file fd) (w.pos p fd) n
    (bs, w.seek p fd (w.pos p fd + bs.length))
  | .write fd bs, w =>
    (bs.length, { w.seek p fd (w.pos p fd + bs.length) with
      file := update w.file fd (writeAt (w.file fd) (w.pos p fd) bs) })
  | .fstat fd, w => ((w.file fd).length, w)
  | .setlkw fd mode start len, w => ((), w.setLock p fd start len (some mode))
  | .unlck fd start len, w => ((), w.setLock p fd start len none)
  | .note _ _, w => ((), w)

@[simp] lemma file_perform_lseek (p : ι) (fd : F) (offset : ℤ) (whence : Whence) (w : World ι F) :
    (w.perform p (.lseek fd offset whence)).2.file = w.file := by
  rw [perform]
  split <;> rfl

@[simp] lemma lock_perform_lseek (p : ι) (fd : F) (offset : ℤ) (whence : Whence) (w : World ι F) :
    (w.perform p (.lseek fd offset whence)).2.lock = w.lock := by
  rw [perform]
  split <;> rfl

/-- The process `q` holds a lock that the lock asked for by `p` is not compatible with. -/
def Hinders (w : World ι F) (q p : ι) (fd : F) (mode : LockMode) (start len : ℕ) : Prop :=
  q ≠ p ∧ ∃ b m, InRange start len b ∧ w.lock q fd b = some m ∧ ¬ mode.Compatible m

/-- The system call has to wait for a lock. -/
def Blocked (w : World ι F) (p : ι) : Sys F → Prop
  | .setlkw fd mode start len => ∃ q, w.Hinders q p fd mode start len
  | _ => False

/-- All locks of `p` are gone and its file offsets are 0, as for a process that has ended. -/
def exit (p : ι) (w : World ι F) : World ι F :=
  { w with
    pos := update w.pos p fun _ => 0
    lock := update w.lock p fun _ _ => none }

end World

abbrev FileProg (F E : Type) := Prog (Sys F) Sys.Reply E

section Exec

variable {ι F E α : Type} [DecidableEq ι] [DecidableEq F] {p : ι} {fd : F} {w : World ι F} {m n : ℕ}

lemma exec_lseek {whence : Whence} (hw : whence = .seekSet) (k : ℤ → FileProg F E α) :
    Prog.exec (World.perform p) (m + 1) (.call (.lseek fd (n : ℤ) whence) k) w =
      Prog.exec (World.perform p) m (k n) (w.seek p fd n) := by
  subst hw
  have hn : ¬ w.target p fd n .seekSet < 0 := Int.not_lt.mpr (Int.natCast_nonneg n)
  rw [Prog.exec, World.perform, if_neg hn]
  rfl

lemma exec_read {bs : Bytes} (hv : readAt (w.file fd) (w.pos p fd) n = bs)
    (k : Bytes → FileProg F E α) : Prog.exec (World.perform p) (m + 1) (.call (.read fd n) k) w =
      Prog.exec (World.perform p) m (k bs) (w.seek p fd (w.pos p fd + bs.length)) := by
  subst hv
  rfl

end Exec

/-- Calls of a library of functions on shared files: what the call `o` does with the private data
`d` of the process, and gives as value and new private data. -/
abbrev Library (F E O δ V : Type) := O → δ → FileProg F E (V × δ)

/-- A process between two calls, in the middle of a call, or ended by an error. -/
inductive Proc (F E O δ V : Type) : Type 1
  | idle (d : δ)
  | busy (o : O) (q : FileProg F E (V × δ))
  | dead (e : E)

inductive Event (ι F E O V : Type)
  | call (p : ι) (o : O)
  | sys (p : ι) (c : Sys F) (r : c.Reply)
  | ret (p : ι) (o : O) (v : V)
  | abort (p : ι) (o : O) (e : E)

/-- The processes, the files, and the places each call in progress has taken. -/
structure Machine (ι F E O δ V : Type) : Type 1 where
  world : World ι F
  proc : ι → Proc F E O δ V
  noted : ι → List (F × ℕ)

namespace Machine

variable {ι F E O δ V : Type} [DecidableEq ι] [DecidableEq F]

def settle (o : O) : FileProg F E (V × δ) → Proc F E O δ V
  | .ret a => .idle a.2
  | .fail e => .dead e
  | q => .busy o q

def ended (p : ι) (o : O) : FileProg F E (V × δ) → List (Event ι F E O V)
  | .ret a => [.ret p o a.1]
  | .fail e => [.abort p o e]
  | _ => []

def resume (s : Machine ι F E O δ V) (p : ι) (o : O) (q : FileProg F E (V × δ))
    (w : World ι F) (noted : List (F × ℕ)) : Machine ι F E O δ V where
  world := w
  proc := update s.proc p (settle o q)
  noted := update s.noted p noted

/-- One step of the machine: a process begins a call, or makes one system call, or goes round a
loop.  The call returns together with its last system call. -/
inductive Step (lib : Library F E O δ V) :
    Machine ι F E O δ V → List (Event ι F E O V) → Machine ι F E O δ V → Prop
  | call {s : Machine ι F E O δ V} {p : ι} {d : δ} (o : O) (hidle : s.proc p = .idle d) :
      Step lib s (.call p o :: ended p o (lib o d)) (s.resume p o (lib o d) s.world [])
  | sys {s : Machine ι F E O δ V} {p : ι} {o : O} {c : Sys F}
      {k : c.Reply → FileProg F E (V × δ)} (hbusy : s.proc p = .busy o (.call c k))
      (hfree : ¬ s.world.Blocked p c) :
      Step lib s (.sys p c (s.world.perform p c).1 :: ended p o (k (s.world.perform p c).1))
        (s.resume p o (k (s.world.perform p c).1) (s.world.perform p c).2 (c.noted ++ s.noted p))
  | round {s : Machine ι F E O δ V} {p : ι} {o : O} {σ β : Type}
      {body : σ → FileProg F E (σ ⊕ β)} {x : σ} {k : β → FileProg F E (V × δ)}
      (hbusy : s.proc p = .busy o (.loop body x k)) :
      Step lib s (ended p o (.unroll body x k))
        (s.resume p o (.unroll body x k) s.world (s.noted p))

/-- The runs from `s₀`, with all their events. -/
inductive Run (lib : Library F E O δ V) (s₀ : Machine ι F E O δ V) :
    List (Event ι F E O V) → Machine ι F E O δ V → Prop
  | start : Run lib s₀ [] s₀
  | next {evs es : List (Event ι F E O V)} {s s' : Machine ι F E O δ V}
      (hrun : Run lib s₀ evs s) (hstep : Step lib s es s') : Run lib s₀ (evs ++ es) s'

/-- `p` waits for a lock that `q` holds. -/
def WaitsFor (s : Machine ι F E O δ V) (p q : ι) : Prop :=
  ∃ (o : O) (fd : F) (mode : LockMode) (start len : ℕ) (k : Unit → FileProg F E (V × δ)),
    s.proc p = .busy o (.call (.setlkw fd mode start len) k) ∧
      s.world.Hinders q p fd mode start len

end Machine

/-! ## Lemmas on reading and writing -/

variable {o : ℕ} {f bs : Bytes}

lemma length_readAt {n : ℕ} (h : o + n ≤ f.length) : (readAt f o n).length = n := by
  rw [readAt, length_take, length_drop]
  omega

lemma length_writeAt (h : o + bs.length ≤ f.length) : (writeAt f o bs).length = f.length := by
  simp only [writeAt, length_append, length_take, length_replicate, length_drop]
  omega

lemma writeAt_length (f bs : Bytes) : writeAt f f.length bs = f ++ bs := by
  have hdrop : f.drop (f.length + bs.length) = [] := drop_eq_nil_of_le (by omega)
  rw [writeAt, take_length, Nat.sub_self, replicate_zero, append_nil, hdrop, append_nil]

lemma writeAt_append (a b bs : Bytes) (h : a.length = bs.length) :
    writeAt (a ++ b) 0 bs = bs ++ b := by
  simp [writeAt, ← h]

lemma writeAt_whole (a bs : Bytes) (h : a.length = bs.length) : writeAt a 0 bs = bs := by
  simpa using writeAt_append a [] bs h

lemma getElem?_writeAt_of_lt (f : Bytes) (o : ℕ) {i : ℕ} (hi : i < bs.length) :
    (writeAt f o bs)[o + i]? = bs[i]? := by
  have hfront : (f.take o ++ replicate (o - f.length) 0).length = o := by
    rw [length_append, length_take, length_replicate]
    omega
  rw [writeAt, append_assoc (f.take o ++ _), getElem?_append_right (by omega), hfront,
    Nat.add_sub_cancel_left, getElem?_append_left hi]

lemma getElem?_writeAt_of_outside {i : ℕ} (ho : o ≤ f.length) (hi : i < o ∨ o + bs.length ≤ i) :
    (writeAt f o bs)[i]? = f[i]? := by
  have hfront : (f.take o).length = o := by
    rw [length_take]
    omega
  rw [writeAt, Nat.sub_eq_zero_of_le ho, replicate_zero, append_nil, append_assoc]
  rcases hi with hi | hi
  · rw [getElem?_append_left (by omega), getElem?_take_of_lt hi]
  · rw [getElem?_append_right (by omega), getElem?_append_right (by omega), hfront,
      getElem?_drop]
    congr 1
    omega

/-! ## Bytes that stand in a file -/

/-- The bytes `b` stand in the file at the offset `o`. -/
def Stands (f : Bytes) (o : ℕ) (b : Bytes) : Prop := ∀ i < b.length, f[o + i]? = b[i]?

namespace Stands

variable {f a b : Bytes} {o : ℕ}

lemma readAt_eq (h : Stands f o b) : readAt f o b.length = b := by
  refine ext_getElem? fun i => ?_
  rw [readAt, getElem?_take]
  split
  · rw [getElem?_drop]
    exact h i ‹_›
  · exact (getElem?_eq_none (by omega)).symm

lemma of_readAt (h : readAt f o b.length = b) : Stands f o b := by
  intro i hi
  have hi' : (readAt f o b.length)[i]? = b[i]? := congrArg (fun bs : Bytes => bs[i]?) h
  rwa [readAt, getElem?_take_of_lt hi, getElem?_drop] at hi'

lemma left (h : Stands f o (a ++ b)) : Stands f o a := by
  intro i hi
  have hi' : i < (a ++ b).length := by
    rw [length_append]
    omega
  rw [h i hi', getElem?_append_left hi]

lemma right (h : Stands f o (a ++ b)) : Stands f (o + a.length) b := by
  intro i hi
  have hi' : a.length + i < (a ++ b).length := by
    rw [length_append]
    omega
  rw [Nat.add_assoc, h _ hi', getElem?_append_right (by omega), Nat.add_sub_cancel_left]

lemma of_writeAt (f : Bytes) (o : ℕ) (b : Bytes) : Stands (writeAt f o b) o b :=
  fun _ hi => getElem?_writeAt_of_lt f o hi

lemma writeAt_left {a' : Bytes} (h : Stands f o (a ++ b)) (ho : o ≤ f.length)
    (hlen : a'.length = a.length) : Stands (writeAt f o a') o (a' ++ b) := by
  intro i hi
  by_cases hfront : i < a'.length
  · rw [getElem?_writeAt_of_lt f o hfront, getElem?_append_left hfront]
  · rw [length_append] at hi
    have hi' : i < (a ++ b).length := by
      rw [length_append]
      omega
    rw [getElem?_writeAt_of_outside ho (.inr (by omega)), h i hi',
      getElem?_append_right (by omega), getElem?_append_right (by omega), hlen]

lemma le_length (h : Stands f o b) (hb : b ≠ []) : o + b.length ≤ f.length := by
  have hpos := length_pos_iff.mpr hb
  have hlast := h (b.length - 1) (by omega)
  rw [List.getElem?_eq_getElem (l := b) (by omega)] at hlast
  have := (List.getElem?_eq_some_iff.mp hlast).1
  omega

end Stands

/-! ## Programs that return -/

section Returns

variable {ι F E α : Type} [DecidableEq ι] [DecidableEq F] {p : ι} {fd : F} {w : World ι F} {n : ℕ}
  {Q : α → World ι F → Prop}

@[simp] lemma World.file_seek (p : ι) (fd : F) (n : ℕ) (w : World ι F) :
    (w.seek p fd n).file = w.file := rfl

@[simp] lemma World.pos_seek (p : ι) (fd : F) (n : ℕ) (w : World ι F) :
    (w.seek p fd n).pos p fd = n := by
  simp [World.seek]

lemma returns_lseek {offset : ℤ} {whence : Whence} (hn : w.target p fd offset whence = n)
    {k : ℤ → FileProg F E α} (h : (k n).Returns (World.perform p) (w.seek p fd n) Q) :
    Prog.Returns (World.perform p) (.call (.lseek fd offset whence) k) w Q := by
  apply Prog.Returns.call
  have hnonneg : ¬ w.target p fd offset whence < 0 := by omega
  rw [World.perform, if_neg hnonneg, hn, Int.toNat_natCast]
  exact h

lemma returns_read {b : Bytes} {o : ℕ} (hpos : w.pos p fd = o) (h : Stands (w.file fd) o b)
    (hlen : b.length = n) {k : Bytes → FileProg F E α}
    (hk : (k b).Returns (World.perform p) (w.seek p fd (o + b.length)) Q) :
    Prog.Returns (World.perform p) (.call (.read fd n) k) w Q := by
  subst hpos hlen
  obtain ⟨m, a, w', hm, hQ⟩ := hk
  exact ⟨m + 1, a, w', (exec_read h.readAt_eq k).trans hm, hQ⟩

lemma returns_write {bs : Bytes} {o : ℕ} (hpos : w.pos p fd = o) {k : ℕ → FileProg F E α}
    (hk : ∀ w', w'.file = update w.file fd (writeAt (w.file fd) o bs) →
      (k bs.length).Returns (World.perform p) w' Q) :
    Prog.Returns (World.perform p) (.call (.write fd bs) k) w Q := by
  subst hpos
  exact Prog.Returns.call (hk _ rfl)

variable {start len : ℕ} {k : Unit → FileProg F E α}

section

variable (hk : ∀ w', w'.file = w.file → w'.pos = w.pos → (k ()).Returns (World.perform p) w' Q)
include hk

lemma returns_setlkw {mode : LockMode} :
    Prog.Returns (World.perform p) (.call (.setlkw fd mode start len) k) w Q :=
  Prog.Returns.call (hk _ rfl rfl)

lemma returns_unlck : Prog.Returns (World.perform p) (.call (.unlck fd start len) k) w Q :=
  Prog.Returns.call (hk _ rfl rfl)

lemma returns_setlkw_ite {c : Prop} [Decidable c] {mode : LockMode} :
    Prog.Returns (World.perform p) (if c then .call (.setlkw fd mode start len) k else k ()) w
      Q := by
  split
  · exact returns_setlkw hk
  · exact hk w rfl rfl

lemma returns_unlck_ite {c : Prop} [Decidable c] :
    Prog.Returns (World.perform p) (if c then .call (.unlck fd start len) k else k ()) w Q := by
  split
  · exact returns_unlck hk
  · exact hk w rfl rfl

end

end Returns

end UnixPrograms
