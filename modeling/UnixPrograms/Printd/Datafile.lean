import UnixPrograms.Lib.Datagrams
import UnixPrograms.Printd.Status

/-!
# The data file of a print job

`client_thread` copies what the client sends into the data file, and compares the front of its first
buffer with `%!PS`.  When a `read` gives fewer than four bytes and these agree with the marker, the
comparison goes on with whatever the stack held (`correct_cons_iff`).  The data file is always right
(`correct_iff`).
-/

namespace UnixPrograms.Datafile

open List

open Status (IOBUFSZ)

def PR_TEXT : UInt32 := 0x01

def EIO : UInt32 := 5

def marker : Bytes := ascii "%!PS"

/-- `strncmp`: at most `n` bytes are compared, and none behind a null byte. -/
def strncmp : Bytes → Bytes → ℕ → ℤ
  | a :: s, b :: t, n + 1 =>
    if a ≠ b then (a.toNat : ℤ) - b.toNat else if a = 0 then 0 else strncmp s t n
  | _, _, _ => 0

abbrev Chunk := { c : Bytes // c ≠ [] ∧ c.length ≤ IOBUFSZ }

abbrev Buffer := { b : Bytes // b.length = IOBUFSZ }

inductive Written where
  | all
  | short
  | failed (errno : UInt32)

/-- The loop over the chunks, up to a `tread` that returns 0 or less: the flags of the request and
the data file.  After a `write` of less than the chunk the data file is removed and the client gets
an error number. -/
def copyLoop (buf : Bytes) (first : Bool) (flags : UInt32) (data : Bytes) :
    List (Chunk × Written) → Except UInt32 (UInt32 × Bytes)
  | [] => .ok (flags, data)
  | (c, w) :: turns =>
    let buf := overwrite buf c.val
    let flags := if first ∧ strncmp buf marker 4 ≠ 0 then flags ||| PR_TEXT else flags
    match w with
    | .all => copyLoop buf false flags (data ++ buf.take c.val.length) turns
    | .short => .error EIO
    | .failed errno => .error errno

/-- The part of `client_thread` from `creat` for the data file to its `close`. -/
def clientThread (stale : Buffer) (flags : UInt32) (turns : List (Chunk × Written)) :
    Except UInt32 (UInt32 × Bytes) :=
  copyLoop stale.val true flags [] turns

def stream (chunks : List Chunk) : Bytes := (chunks.map Subtype.val).flatten

def written (chunks : List Chunk) : List (Chunk × Written) := chunks.map (·, .all)

/-- The data file is what the client sends, and `PR_TEXT` is set if and only if that is not empty
and does not begin as a PostScript file does. -/
def Correct (stale : Buffer) (chunks : List Chunk) : Prop :=
  ∀ flags, clientThread stale flags (written chunks) =
    .ok (if stream chunks ≠ [] ∧ ¬ marker <+: stream chunks then flags ||| PR_TEXT else flags,
      stream chunks)

/-! ## The comparison -/

lemma strncmp_self : ∀ s t : Bytes, strncmp (s ++ t) s s.length = 0
  | [], _ => by simp [strncmp]
  | a :: s, t => by simp [strncmp, strncmp_self s t]

lemma isPrefix_of_strncmp : ∀ {s t : Bytes}, 0 ∉ t → t.length ≤ s.length →
    strncmp s t t.length = 0 → t <+: s
  | s, [], _, _, _ => nil_prefix
  | a :: s, b :: t, h0, hl, h => by
    have hab : a = b := by
      by_contra hne
      rw [length_cons, strncmp, if_pos hne, sub_eq_zero, Nat.cast_inj] at h
      exact hne (UInt8.toNat_inj.mp h)
    subst hab
    have ha : a ≠ 0 := fun h => h0 (by simp [h])
    rw [length_cons, strncmp, if_neg (not_not.mpr rfl), if_neg ha] at h
    refine cons_prefix_cons.mpr ⟨rfl, isPrefix_of_strncmp ?_ ?_ h⟩
    · exact fun hm => h0 (mem_cons_of_mem _ hm)
    · simpa using hl

lemma strncmp_eq_zero_iff {s t : Bytes} (h0 : 0 ∉ t) (hl : t.length ≤ s.length) :
    strncmp s t t.length = 0 ↔ t <+: s := by
  constructor
  · exact isPrefix_of_strncmp h0 hl
  · rintro ⟨u, rfl⟩
    exact strncmp_self t u

lemma length_overwrite_buffer (stale : Buffer) (c : Chunk) :
    (overwrite stale.val c.val).length = IOBUFSZ := by
  have h := c.property.2
  rw [overwrite, length_append, length_drop, stale.property]
  omega

lemma strncmp_overwrite (stale : Buffer) (c : Chunk) :
    strncmp (overwrite stale.val c.val) marker 4 = 0 ↔ marker <+: overwrite stale.val c.val := by
  refine strncmp_eq_zero_iff (t := marker) (by decide) ?_
  rw [length_overwrite_buffer]
  decide

/-! ## The loop -/

lemma stream_cons (c : Chunk) (chunks : List Chunk) :
    stream (c :: chunks) = c.val ++ stream chunks := rfl

lemma copyLoop_written (buf : Bytes) (flags : UInt32) (data : Bytes) (chunks : List Chunk) :
    copyLoop buf false flags data (written chunks) = .ok (flags, data ++ stream chunks) := by
  induction chunks generalizing buf data with
  | nil => simp [written, stream, copyLoop]
  | cons c chunks ih =>
    have hturn : copyLoop buf false flags data (written (c :: chunks)) =
        copyLoop (overwrite buf c.val) false flags
          (data ++ (overwrite buf c.val).take c.val.length) (written chunks) := by
      simp [written, copyLoop]
    rw [hturn, ih, take_overwrite, stream_cons, append_assoc]

lemma clientThread_nil (stale : Buffer) (flags : UInt32) :
    clientThread stale flags (written []) = .ok (flags, []) := rfl

lemma clientThread_cons (stale : Buffer) (flags : UInt32) (c : Chunk) (chunks : List Chunk) :
    clientThread stale flags (written (c :: chunks)) =
      .ok (if marker <+: overwrite stale.val c.val then flags else flags ||| PR_TEXT,
        stream (c :: chunks)) := by
  have hturn : clientThread stale flags (written (c :: chunks)) =
      copyLoop (overwrite stale.val c.val) false
        (if marker <+: overwrite stale.val c.val then flags else flags ||| PR_TEXT)
        ((overwrite stale.val c.val).take c.val.length) (written chunks) := by
    simp [clientThread, written, copyLoop, ← strncmp_overwrite]
  rw [hturn, copyLoop_written, take_overwrite, stream_cons]

/-! ## The flag -/

/-- Setting `PR_TEXT` unless `p`, and setting it if `q` does not hold, are the same for all flags
only if `p` and `q` are. -/
lemma setText_iff (p q : Prop) [Decidable p] [Decidable q] :
    (∀ flags : UInt32, (if p then flags else flags ||| PR_TEXT) =
      if ¬ q then flags ||| PR_TEXT else flags) ↔ (p ↔ q) := by
  constructor
  · intro h
    have hbit : (0 : UInt32) ||| PR_TEXT ≠ 0 := by decide
    have h0 := h 0
    by_cases hp : p
    · rw [if_pos hp] at h0
      exact iff_of_true hp (by_contra fun hq => hbit (h0.trans (if_pos hq)).symm)
    · rw [if_neg hp] at h0
      exact iff_of_false hp fun hq => hbit (h0.trans (if_neg (not_not.mpr hq)))
  · intro h flags
    simp only [h, ite_not]

lemma correct_cons_iff (stale : Buffer) (c : Chunk) (chunks : List Chunk) :
    Correct stale (c :: chunks) ↔
      (marker <+: overwrite stale.val c.val ↔ marker <+: stream (c :: chunks)) := by
  have hne : stream (c :: chunks) ≠ [] := by
    rw [stream_cons]
    exact append_ne_nil_of_left_ne_nil c.property.1 _
  simp only [Correct, clientThread_cons, Except.ok.injEq, Prod.mk.injEq, and_true, ne_eq, hne,
    not_false_eq_true, true_and, setText_iff]

lemma marker_isPrefix_append_iff {c : Bytes} (h : c.length < 4 → ¬ c <+: marker) (s t : Bytes) :
    marker <+: c ++ s ↔ marker <+: c ++ t := by
  have hmarker : marker.length = 4 := rfl
  have hfront : ∀ u : Bytes, marker <+: c ++ u ↔ marker <+: c := by
    intro u
    constructor
    · intro hm
      rcases Nat.lt_or_ge c.length 4 with hlt | hge
      · have hc := prefix_of_prefix_length_le (prefix_append c u) hm (by omega)
        exact absurd hc (h hlt)
      · exact prefix_of_prefix_length_le hm (prefix_append c u) (by omega)
    · exact fun hm => hm.trans (prefix_append c u)
  rw [hfront s, hfront t]

def filled (b : UInt8) : Buffer := ⟨replicate IOBUFSZ b, length_replicate⟩

def markerLeft : Buffer := ⟨marker ++ replicate (IOBUFSZ - 4) 0, by
  rw [length_append, length_replicate]; rfl⟩

lemma not_marker_filled {c : Chunk} (hc : c.val.length < 4) :
    ¬ marker <+: overwrite (filled 0).val c.val := by
  intro h
  have hlast : (overwrite (filled 0).val c.val)[3]? = some (chr 'S') := by
    obtain ⟨t, ht⟩ := h
    rw [← ht]
    rfl
  rw [overwrite, getElem?_append_right (by omega), getElem?_drop] at hlast
  have h0 : chr 'S' = 0 := eq_of_mem_replicate (mem_of_getElem? hlast)
  exact absurd h0 (by decide)

lemma marker_markerLeft {c : Chunk} (hc : c.val <+: marker) :
    marker <+: overwrite markerLeft.val c.val := by
  obtain ⟨t, ht⟩ := hc
  have hleft : markerLeft.val = c.val ++ (t ++ replicate (IOBUFSZ - 4) 0) := by
    rw [← append_assoc, ht]
    rfl
  rw [hleft, overwrite, drop_left, ← append_assoc, ht]
  exact prefix_append _ _

/-- The data file and the flag are right, whatever the buffer held before, if and only if the first
chunk is not a part of the marker. -/
theorem correct_iff (chunks : List Chunk) :
    (∀ stale, Correct stale chunks) ↔
      ∀ c ∈ chunks.head?, ¬ (c.val.length < 4 ∧ c.val <+: marker) := by
  match chunks with
  | [] =>
    constructor
    · intro _ c hc
      exact absurd hc (by simp)
    · exact fun _ stale flags => clientThread_nil stale flags
  | c :: chunks =>
    simp only [correct_cons_iff, head?_cons, Option.mem_some_iff, forall_eq']
    constructor
    · rintro h ⟨hlt, hm⟩
      -- one stale buffer completes the marker and the other does not
      exact not_marker_filled hlt ((h (filled 0)).mpr ((h markerLeft).mp (marker_markerLeft hm)))
    · intro h stale
      rw [stream_cons]
      exact marker_isPrefix_append_iff (fun hlt hm => h ⟨hlt, hm⟩) _ _

/-- A PostScript file whose first two bytes come alone.  The buffer held zeros before. -/
theorem clientThread_split : clientThread (filled 0) 0
        (written [⟨ascii "%!", by decide⟩, ⟨ascii "PS-Adobe-3.0", by decide⟩]) =
      .ok (PR_TEXT, ascii "%!PS-Adobe-3.0") := by
  rw [clientThread_cons, if_neg (not_marker_filled (by decide))]
  rfl

end UnixPrograms.Datafile
