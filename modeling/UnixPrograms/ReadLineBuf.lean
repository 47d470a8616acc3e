import UnixPrograms.Lib.Text
import UnixPrograms.Readline

/-!
# Lines with and without a buffer (`read_line.c`, `read_line_buf.c`)

`readLine` stores up to `n - 1` bytes of a line and a NUL, `readLineBuf` up to `n` bytes and no NUL.
They agree as long as each line is shorter than its buffer and a NUL happens to follow it there.
-/

namespace UnixPrograms.ReadLineBuf

open List
open Readline (MyRead newline readOne Yields Split byteOf yields_readOne)

/-- The loop of both functions: bytes are got by `next` up to a newline, and the first `bound` of
them are stored.  With the last result of `next`; `none` if there are `fuel` bytes in the line. -/
def storeLoop {ρ : Type} (next : ρ → MyRead × ρ) (bound : ℕ) :
    ℕ → Bytes → ρ → Option (MyRead × Bytes × ρ)
  | 0, _, _ => none
  | fuel + 1, line, r =>
    match next r with
    | (.byte c, r') =>
      let line := if line.length < bound then line ++ [c] else line
      if c = newline then some (.byte c, line, r') else storeLoop next bound fuel line r'
    | (res, r') => some (res, line, r')

/-- `readLine`, where `n` is the size of the buffer and not 0. -/
def readLine (fuel : ℕ) (buffer : Bytes) (fd : List Arrival) :
    Option ((ℤ × Bytes) × List Arrival) :=
  (storeLoop readOne (buffer.length - 1) fuel [] fd).map fun
    | (.error, line, fd) => ((-1, writeAt buffer 0 line), fd)
    | (.eof, [], fd) => ((0, buffer), fd)
    | (_, line, fd) => ((line.length, writeAt buffer 0 (line ++ [0])), fd)

/-- `struct ReadLineBuf` with the `len` bytes that were read last. -/
structure Rlbuf where
  buf : Bytes
  next : ℕ
  fd : List Arrival

def readLineBufInit (fd : List Arrival) : Rlbuf := ⟨[], 0, fd⟩

/-- The first part of the loop: the buffer is filled if it is used up. -/
def nextByte (r : Rlbuf) : MyRead × Rlbuf :=
  if r.buf.length ≤ r.next then
    match readFd 10 r.fd with
    | (.error _, fd) => (.error, { r with buf := [], fd })
    | (.ok [], fd) => (.eof, { r with buf := [], fd })
    | (.ok (c :: cs), fd) => (.byte c, ⟨c :: cs, 1, fd⟩)
  else (.byte (r.buf.getD r.next 0), { r with next := r.next + 1 })

def readLineBuf (fuel : ℕ) (buffer : Bytes) (r : Rlbuf) : Option ((ℤ × Bytes) × Rlbuf) :=
  (storeLoop nextByte buffer.length fuel [] r).map fun
    | (.error, line, r) => ((-1, writeAt buffer 0 line), r)
    | (_, line, r) => ((line.length, writeAt buffer 0 line), r)

/-- One call after the other, with the buffers given: the counts, and the strings in the buffers. -/
def calls {ρ : Type} (f : Bytes → ρ → Option ((ℤ × Bytes) × ρ)) :
    List Bytes → ρ → Option (List (ℤ × Bytes))
  | [], _ => some []
  | buffer :: buffers, r => do
    let (res, r) ← f buffer r
    let rest ← calls f buffers r
    some ((res.1, cstr res.2) :: rest)

def firstLine : Bytes → Bytes
  | [] => []
  | c :: cs => if c = newline then [c] else c :: firstLine cs

/-- The line is shorter than the buffer, and ends there with a NUL or has one inside. -/
def Fits (line buffer : Bytes) : Prop :=
  line.length < buffer.length ∧ (line = [] ∨ 0 ∈ line ∨ buffer[line.length]? = some 0)

/-- Each line fits its buffer. -/
def EachFits : Bytes → List Bytes → Prop
  | _, [] => True
  | s, buffer :: buffers =>
    Fits (firstLine s) buffer ∧ EachFits (s.drop (firstLine s).length) buffers

/-! ## What a call stores -/

variable {s : Bytes}

lemma firstLine_eq_nil (h : firstLine s = []) : s = [] := by
  cases s with
  | nil => rfl
  | cons c cs =>
    rw [firstLine] at h
    split at h <;> cases h

lemma storeLoop_eq {ρ : Type} {next : ρ → MyRead × ρ} {P : ρ → Bytes → Prop} {r : ρ}
    (hnext : Yields next P) (h : P r s) (bound : ℕ) {fuel : ℕ} (hfuel : s.length < fuel)
    (line : Bytes) : ∃ res r', storeLoop next bound fuel line r =
        some (res, line ++ (firstLine s).take (bound - line.length), r') ∧
      P r' (s.drop (firstLine s).length) ∧ res ≠ .error ∧ (s = [] → res = .eof) := by
  induction fuel generalizing r s line with
  | zero => cases hfuel
  | succ fuel ih =>
    obtain ⟨hbyte, hrest⟩ := hnext h
    rw [storeLoop]
    generalize next r = x at hbyte hrest ⊢
    obtain ⟨b, r'⟩ := x
    cases s with
    | nil =>
      obtain rfl : b = .eof := hbyte
      exact ⟨.eof, r', by simp [firstLine], hrest, nofun, fun _ => rfl⟩
    | cons c cs =>
      obtain rfl : b = .byte c := hbyte
      have hrest : P r' cs := hrest
      have hline : (if line.length < bound then line ++ [c] else line) =
          line ++ [c].take (bound - line.length) := by
        split
        · rw [take_of_length_le (by simp; omega)]
        · rw [Nat.sub_eq_zero_of_le (by omega), take_zero, append_nil]
      dsimp only
      rw [hline]
      by_cases hc : c = newline
      · exact ⟨.byte c, r', by simp [hc, firstLine], by simpa [firstLine, hc] using hrest, nofun,
          nofun⟩
      · obtain ⟨res, r'', hloop, hP, herr, -⟩ := ih hrest (by simpa using hfuel)
          (line ++ [c].take (bound - line.length))
        refine ⟨res, r'', ?_, by simpa [firstLine, hc] using hP, herr, nofun⟩
        rw [if_neg hc, hloop, firstLine, if_neg hc]
        rcases Nat.eq_zero_or_pos (bound - line.length) with h0 | hpos
        · simp [h0]
        · obtain ⟨k, hk⟩ := Nat.exists_eq_succ_of_ne_zero hpos.ne'
          have hk' : bound - (line.length + 1) = k := by omega
          simp [hk, hk']

/-- The bytes that have not been taken yet. -/
def Left (r : Rlbuf) (s : Bytes) : Prop :=
  ∃ pieces : List Bytes, [] ∉ pieces ∧ r.fd = pieces.map .bytes ∧
    s = r.buf.drop r.next ++ pieces.flatten

lemma yields_nextByte : Yields nextByte Left := by
  rintro ⟨buf, next, fd⟩ s ⟨pieces, hne, rfl, rfl⟩
  dsimp only
  by_cases hused : buf.length ≤ next
  · rw [drop_eq_nil_of_le hused, nil_append, nextByte, if_pos hused]
    cases pieces with
    | nil => exact ⟨rfl, [], hne, rfl, by simp [byteOf, readFd]⟩
    | cons p pieces =>
      obtain ⟨pieces', hread, hne', hp, hflat⟩ := readFd_map_bytes (n := 10) (by omega) hne
      obtain ⟨c, cs, hcs⟩ := exists_cons_of_ne_nil hp
      rw [hflat, hread, hcs]
      exact ⟨rfl, pieces', hne', rfl, rfl⟩
  · rw [nextByte, if_neg hused, drop_eq_getElem_cons (not_le.mp hused), cons_append,
      getD_eq_getElem _ _ (not_le.mp hused)]
    exact ⟨rfl, pieces, hne, rfl, rfl⟩

/-! ## Where the functions agree -/

lemma writeAt_zero (buffer line : Bytes) :
    writeAt buffer 0 line = line ++ buffer.drop line.length := by
  simp [writeAt]

lemma cstr_append_eq_iff (line a b : Bytes) :
    cstr (line ++ a) = cstr (line ++ b) ↔ 0 ∈ line ∨ cstr a = cstr b := by
  induction line with
  | nil => simp
  | cons c line ih =>
    by_cases hc : c = 0
    · simp [cstr, hc]
    · have hne : ¬ 0 = c := Ne.symm hc
      simpa [cstr, takeWhile_cons, hc, hne] using ih

variable {fuel : ℕ} {buffer : Bytes} {fd : List Arrival} {r : Rlbuf}

lemma readLine_spec (h : Split fd s) (hfuel : s.length < fuel) (buffer : Bytes) :
    ∃ res fd', readLine fuel buffer fd = some (res, fd') ∧
      Split fd' (s.drop (firstLine s).length) ∧
      res.1 = ((firstLine s).take (buffer.length - 1)).length ∧
      (firstLine s = [] → res.2 = buffer) ∧
      (firstLine s ≠ [] → (firstLine s).length < buffer.length →
        res.2 = writeAt buffer 0 (firstLine s ++ [0])) := by
  obtain ⟨res, fd', hloop, hsplit, herr, heof⟩ :=
    storeLoop_eq yields_readOne h (buffer.length - 1) hfuel []
  rw [nil_append, length_nil, Nat.sub_zero] at hloop
  rw [readLine, hloop]
  have hwhole (hlt : (firstLine s).length < buffer.length) :
      (firstLine s).take (buffer.length - 1) = firstLine s := take_of_length_le (by omega)
  cases res with
  | error => exact absurd rfl herr
  | byte c =>
    refine ⟨_, fd', rfl, hsplit, rfl, fun hnil => ?_, fun _ hlt => by rw [hwhole hlt]⟩
    cases heof (firstLine_eq_nil hnil)
  | eof =>
    -- if nothing is stored, no NUL is either
    cases hline : (firstLine s).take (buffer.length - 1) with
    | nil =>
      refine ⟨_, fd', rfl, hsplit, rfl, fun _ => rfl, fun hne hlt => ?_⟩
      exact absurd ((hwhole hlt).symm.trans hline) hne
    | cons c cs =>
      refine ⟨_, fd', rfl, hsplit, rfl, fun hnil => ?_, fun _ hlt => ?_⟩
      · simp [hnil] at hline
      · rw [← hline, hwhole hlt]

lemma readLineBuf_spec (h : Left r s) (hfuel : s.length < fuel) (buffer : Bytes) :
    ∃ r', readLineBuf fuel buffer r = some (((((firstLine s).take buffer.length).length : ℤ),
        writeAt buffer 0 ((firstLine s).take buffer.length)), r') ∧
      Left r' (s.drop (firstLine s).length) := by
  obtain ⟨res, r', hloop, hleft, herr, -⟩ := storeLoop_eq yields_nextByte h buffer.length hfuel []
  refine ⟨r', ?_, hleft⟩
  rw [readLineBuf, hloop]
  cases res with
  | error => exact absurd rfl herr
  | byte c | eof => simp

lemma agree_iff {line : Bytes} {res : ℤ × Bytes} (hroom : 0 < buffer.length)
    (hcount : res.1 = (line.take (buffer.length - 1)).length) (hnil : line = [] → res.2 = buffer)
    (hstored : line ≠ [] → line.length < buffer.length →
      res.2 = writeAt buffer 0 (line ++ [0])) :
    (res.1, cstr res.2) = (((line.take buffer.length).length : ℤ),
        cstr (writeAt buffer 0 (line.take buffer.length))) ↔ Fits line buffer := by
  rw [Prod.mk.injEq, hcount, Nat.cast_inj, length_take, length_take, Fits]
  by_cases hlt : line.length < buffer.length
  · have hcounts : min (buffer.length - 1) line.length = min buffer.length line.length := by omega
    rw [take_of_length_le hlt.le, and_iff_right hcounts, and_iff_right hlt]
    rcases eq_or_ne line [] with rfl | hne
    · simp [hnil rfl, writeAt]
    · rw [hstored hne hlt, writeAt_zero, writeAt_zero, append_assoc, cstr_append_eq_iff,
        drop_eq_getElem_cons hlt, or_iff_right hne, getElem?_eq_getElem hlt]
      generalize buffer[line.length] = x, buffer.drop (line.length + 1) = rest
      by_cases h0 : x = 0 <;> simp [cstr, h0]
  · have hcounts : min (buffer.length - 1) line.length ≠ min buffer.length line.length := by omega
    exact iff_of_false (fun h => hcounts h.1) fun h => hlt h.1

lemma calls_agree_iff {buffers : List Bytes} (hroom : ∀ buffer ∈ buffers, 0 < buffer.length)
    (h₁ : Split fd s) (h₂ : Left r s) (hfuel : s.length < fuel) :
    ∃ rs₁ rs₂, calls (readLine fuel) buffers fd = some rs₁ ∧
      calls (readLineBuf fuel) buffers r = some rs₂ ∧ (rs₁ = rs₂ ↔ EachFits s buffers) := by
  induction buffers generalizing fd r s with
  | nil => exact ⟨[], [], rfl, rfl, by simp [EachFits]⟩
  | cons buffer buffers ih =>
    rw [forall_mem_cons] at hroom
    obtain ⟨res, fd', hline, hsplit, hcount, hnil, hstored⟩ := readLine_spec h₁ hfuel buffer
    obtain ⟨r', hbuf, hleft⟩ := readLineBuf_spec h₂ hfuel buffer
    have hfuel' : (s.drop (firstLine s).length).length < fuel := by
      rw [length_drop]
      omega
    obtain ⟨rs₁, rs₂, hrs₁, hrs₂, hiff⟩ := ih hroom.2 hsplit hleft hfuel'
    refine ⟨(res.1, cstr res.2) :: rs₁, (((firstLine s).take buffer.length).length,
        cstr (writeAt buffer 0 ((firstLine s).take buffer.length))) :: rs₂,
      by simp [calls, hline, hrs₁], by simp [calls, hbuf, hrs₂], ?_⟩
    rw [cons.injEq, hiff, agree_iff hroom.1 hcount hnil hstored, EachFits]

/-- On a stream that arrives in any pieces, the calls give the same counts and strings if and only
if each line fits into the buffer of its call. -/
theorem readLineBuf_agrees_iff (pieces : List Bytes) (hne : [] ∉ pieces) (buffers : List Bytes)
    (hroom : ∀ buffer ∈ buffers, 0 < buffer.length) {fuel : ℕ}
    (hfuel : pieces.flatten.length < fuel) :
    ∃ rs₁ rs₂, calls (readLine fuel) buffers (pieces.map .bytes) = some rs₁ ∧
      calls (readLineBuf fuel) buffers (readLineBufInit (pieces.map .bytes)) = some rs₂ ∧
      (rs₁ = rs₂ ↔ EachFits pieces.flatten buffers) := by
  have hunread : unread (pieces.map .bytes) = pieces.flatten := by
    clear hne hfuel
    induction pieces with
    | nil => rfl
    | cons p pieces ih => rw [map_cons, unread, ih, flatten_cons]
  refine calls_agree_iff hroom ⟨?_, ?_, hunread⟩ ⟨pieces, hne, rfl, by simp [readLineBufInit]⟩ hfuel
  · simpa [Arriving] using hne
  · simp

/-- Two lines, of which the first is cut and the second does not fit. -/
theorem readLineBuf_agrees_iff_cut :
    ∃ rs₁ rs₂, calls (readLine 6) [[0, 0, 0], [0, 0]] [.bytes [97], .bytes [10, 98, 10]] =
        some rs₁ ∧
      calls (readLineBuf 6) [[0, 0, 0], [0, 0]]
        (readLineBufInit [.bytes [97], .bytes [10, 98, 10]]) = some rs₂ ∧
      (rs₁ = rs₂ ↔ EachFits [97, 10, 98, 10] [[0, 0, 0], [0, 0]]) :=
  readLineBuf_agrees_iff [[97], [10, 98, 10]] (by decide) [[0, 0, 0], [0, 0]] (by decide)
    (by decide)

/-- The line is as long as the buffer: one call stores and counts one byte more than the other. -/
theorem readLineBuf_full :
    calls (readLine 3) [[0, 0]] [.bytes [97, 10]] = some [(1, [97])] ∧
      calls (readLineBuf 3) [[0, 0]] (readLineBufInit [.bytes [97, 10]]) =
        some [(2, [97, 10])] := by
  decide

end UnixPrograms.ReadLineBuf
