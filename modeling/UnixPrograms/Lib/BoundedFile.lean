import UnixPrograms.Lib.Files

/-!
# Files of bounded length

A file whose content cannot grow beyond a limit, with a position for reading and writing.  In append
mode every write goes to the end of the content.
-/

namespace UnixPrograms

structure BoundedFile where
  content : Bytes
  pos : ℕ
  limit : ℕ
  append : Bool
  pos_le : pos ≤ content.length
  length_le : content.length ≤ limit

namespace BoundedFile

def readable (f : BoundedFile) (n : ℕ) : Bytes := readAt f.content f.pos n

section

variable (f : BoundedFile)
include f

lemma pos_add_readable_le (n : ℕ) : f.pos + (f.readable n).length ≤ f.content.length := by
  have hpos := f.pos_le
  simp only [readable, readAt, List.length_take, List.length_drop]
  omega

def read (f : BoundedFile) (n : ℕ) : BoundedFile :=
  { f with pos := f.pos + (f.readable n).length, pos_le := f.pos_add_readable_le n }

def offset (f : BoundedFile) : ℕ := if f.append then f.content.length else f.pos

def written (f : BoundedFile) (bs : Bytes) : Bytes := bs.take (f.limit - f.offset)

def overwritten (f : BoundedFile) (bs : Bytes) : Bytes :=
  f.content.take f.offset ++ f.written bs ++ f.content.drop (f.offset + (f.written bs).length)

lemma offset_le : f.offset ≤ f.content.length := by
  unfold offset
  split
  · exact Nat.le_refl _
  · exact f.pos_le

lemma offset_add_written_le (bs : Bytes) : f.offset + (f.written bs).length ≤ f.limit := by
  have hoff := f.offset_le
  have hlen := f.length_le
  rw [written, List.length_take]
  omega

lemma length_overwritten (bs : Bytes) :
    (f.overwritten bs).length = max f.content.length (f.offset + (f.written bs).length) := by
  have hoff := f.offset_le
  simp only [overwritten, List.length_append, List.length_take, List.length_drop]
  omega

lemma offset_add_written_le_length (bs : Bytes) :
    f.offset + (f.written bs).length ≤ (f.overwritten bs).length := by
  rw [length_overwritten]
  exact Nat.le_max_right _ _

lemma length_overwritten_le (bs : Bytes) : (f.overwritten bs).length ≤ f.limit := by
  rw [length_overwritten]
  exact Nat.max_le.mpr ⟨f.length_le, f.offset_add_written_le bs⟩

end

def write (f : BoundedFile) (bs : Bytes) : BoundedFile :=
  { f with
    content := f.overwritten bs
    pos := f.offset + (f.written bs).length
    pos_le := f.offset_add_written_le_length bs
    length_le := f.length_overwritten_le bs }

def target (f : BoundedFile) (offset : ℤ) : Whence → ℤ
  | .seekSet => offset
  | .seekCur => f.pos + offset
  | .seekEnd => f.content.length + offset

lemma toNat_le {n : ℕ} {t : ℤ} (h : 0 ≤ t ∧ t ≤ n) : t.toNat ≤ n := by omega

/-- The file after a seek to the place `t`, which fails outside the content. -/
def seek (f : BoundedFile) (t : ℤ) : Option BoundedFile :=
  if h : 0 ≤ t ∧ t ≤ f.content.length then some { f with pos := t.toNat, pos_le := toNat_le h }
  else none

end BoundedFile

end UnixPrograms
