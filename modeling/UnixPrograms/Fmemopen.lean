import UnixPrograms.Lib.BoundedFile
import UnixPrograms.Lib.Memory
import UnixPrograms.Lib.Text

/-!
# Memory streams

A function gives `none` if it touches a byte outside the buffer.  The conversions between `size_t`
and `int` are written out.  For a mode with `+` the stream is a file of bounded length: its content
is the first `vsize` bytes of the buffer (`fmemopen_refines`).
-/

namespace UnixPrograms.Fmemopen

open List Option BoundedFile

def EBADF : ℤ := 9

def ENOMEM : ℤ := 12

def EINVAL : ℤ := 22

def INT_MAX : ℕ := 2 ^ 31 - 1

def sizeT (v : ℤ) : ℕ := ofSigned 8 v

def toInt (v : ℤ) : ℤ := wrapSigned 4 v

/-- The macro `MIN` for an `int` and a `size_t`. -/
def minSize (a : ℤ) (b : ℕ) : ℕ := if sizeT a < b then sizeT a else b

structure Flags where
  read : Bool
  write : Bool
  append : Bool
  truncate : Bool
  mybuf : Bool
  deriving DecidableEq

def Flags.zero : Flags := ⟨false, false, false, false, false⟩

/-- `struct memstream`, with the bytes that `buf` points to. -/
structure Memstream where
  buf : Bytes
  rsize : ℕ
  vsize : ℕ
  curpos : ℕ
  flags : Flags

def load (buf : Bytes) (off n : ℕ) : Option Bytes :=
  if off + n ≤ buf.length then some (readAt buf off n) else none

def store (buf : Bytes) (off : ℕ) (bs : Bytes) : Option Bytes :=
  if off + bs.length ≤ buf.length then some (writeAt buf off bs) else none

/-! ## Opening a stream -/

def typeStep (flags : Flags) (c : UInt8) : Option Flags :=
  if c = chr 'r' then if flags ≠ .zero then none else some { flags with read := true }
  else if c = chr 'w' then
    if flags ≠ .zero then none else some { flags with write := true, truncate := true }
  else if c = chr 'a' then if flags ≠ .zero then none else some { flags with append := true }
  else if c = chr '+' then
    if flags = .zero then none else some { flags with read := true, write := true }
  else if c = chr 'b' then if flags = .zero then none else some flags
  else none

def typeToFlags (type : Bytes) : Flags := (type.foldlM typeStep .zero).getD .zero

def findEndLoop (buf : Bytes) : (left off : ℕ) → Option ℕ
  | 0, off => some off
  | left + 1, off => do
    let c ← buf[off]?
    if c = 0 then some off else findEndLoop buf left (off + 1)

def findEnd (buf : Bytes) (len : ℕ) : Option ℕ := findEndLoop buf len 0

structure Allocs where
  ms : Bool
  /-- The block of `size` bytes, with what is in it, if there is room. -/
  block : Option Bytes
  fp : Bool

inductive Opened where
  /-- `NULL`, with the `errno` if the function sets it. -/
  | null (errno : Option ℤ)
  | stream (ms : Memstream)

/-- The end of `fmemopen`, from the choice of `vsize` on. -/
def openStream (fp : Bool) (buf : Bytes) (size curpos : ℕ) (flags : Flags) : Opened :=
  if fp then
    .stream
      { buf := buf
        rsize := size
        vsize := if flags.append then curpos else if flags.truncate then 0 else size
        curpos := curpos
        flags := flags }
  else .null none

def fmemopen (env : Allocs) (buf : Option Bytes) (size : ℕ) (type : Bytes) : Option Opened :=
  if size = 0 then some (.null (some EINVAL))
  else if ¬ env.ms then some (.null (some ENOMEM))
  else if typeToFlags type = .zero then some (.null (some EINVAL))
  else
    match buf with
    | none =>
      if ¬ ((typeToFlags type).read ∧ (typeToFlags type).write) then
        some (.null (some EINVAL))
      else
        match env.block with
        | none => some (.null (some ENOMEM))
        | some block =>
          some (openStream env.fp block size 0 { typeToFlags type with mybuf := true })
    | some buf =>
      if (typeToFlags type).append then
        (findEnd buf size).map fun curpos => openStream env.fp buf size curpos (typeToFlags type)
      else some (openStream env.fp buf size 0 (typeToFlags type))

/-! ## The functions of the stream -/

/-- What a function returns, with the bytes stored for the caller and the `errno` if it is set. -/
structure Reply where
  ret : ℤ
  out : Bytes
  errno : Option ℤ
  deriving DecidableEq

def fail (errno : ℤ) : Reply := ⟨-1, [], some errno⟩

def mstreamRead (ms : Memstream) (len : ℤ) : Option (Reply × Memstream) :=
  if ¬ ms.flags.read then some (fail EBADF, ms)
  else if ms.vsize ≤ ms.curpos then some (⟨0, [], none⟩, ms)
  else do
    let nr := toInt (minSize len (sizeT (ms.vsize - ms.curpos)))
    let bs ← load ms.buf ms.curpos (sizeT nr)
    return (⟨nr, bs, none⟩, { ms with curpos := sizeT (ms.curpos + nr) })

/-- The null byte behind the content that a growing write stores. -/
def terminate (ms : Memstream) : Option Memstream :=
  if ms.vsize < ms.curpos then
    let ms' := { ms with vsize := ms.curpos }
    if ms.flags.read ∧ ms.flags.write ∧ ms'.vsize < ms.rsize then
      (store ms.buf ms'.vsize [0]).map fun buf => { ms' with buf := buf }
    else some ms'
  else some ms

/-- The null byte that a stream without `+` gets after every write. -/
def terminateWriteOnly (ms : Memstream) : Option Memstream :=
  if (ms.flags.write ∨ ms.flags.append) ∧ ¬ ms.flags.read then
    if ms.curpos < ms.rsize then
      (store ms.buf ms.curpos [0]).map fun buf => { ms with buf := buf }
    else (store ms.buf (sizeT (ms.rsize - 1)) [0]).map fun buf => { ms with buf := buf }
  else some ms

def mstreamWrite (ms : Memstream) (data : Bytes) : Option (Reply × Memstream) :=
  if ¬ (ms.flags.append ∨ ms.flags.write) then some (fail EBADF, ms)
  else do
    let off := toInt (if ms.flags.append then ms.vsize else ms.curpos)
    let nw := toInt (minSize data.length (sizeT (ms.rsize - off)))
    let bs ← load data 0 (sizeT nw)
    let buf ← store ms.buf (sizeT off) bs
    let ms₁ ← terminate { ms with buf := buf, curpos := sizeT (toInt (off + nw)) }
    let ms₂ ← terminateWriteOnly ms₁
    return (⟨nw, [], none⟩, ms₂)

def seekOff (ms : Memstream) (pos : ℤ) : Whence → ℤ
  | .seekSet => toInt pos
  | .seekEnd => toInt (sizeT (ms.vsize + pos))
  | .seekCur => toInt (sizeT (ms.curpos + pos))

def mstreamSeek (ms : Memstream) (pos : ℤ) (whence : Whence) : Reply × Memstream :=
  let off := seekOff ms pos whence
  if off < 0 ∨ ms.vsize < sizeT off then (fail EINVAL, ms)
  else (⟨off, [], none⟩, { ms with curpos := sizeT off })

inductive Op where
  | read (len : ℤ)
  | write (data : Bytes)
  | seek (pos : ℤ) (whence : Whence)

def perform (ms : Memstream) : Op → Option (Reply × Memstream)
  | .read len => mstreamRead ms len
  | .write data => mstreamWrite ms data
  | .seek pos whence => some (mstreamSeek ms pos whence)

def session : Memstream → List Op → Option (List Reply × Memstream)
  | ms, [] => some ([], ms)
  | ms, op :: ops => do
    let (r, ms₁) ← perform ms op
    let (rs, ms₂) ← session ms₁ ops
    return (r :: rs, ms₂)

/-! ## What the calls should do -/

def expected (f : BoundedFile) : Op → Reply × BoundedFile
  | .read len => (⟨(f.readable len.toNat).length, f.readable len.toNat, none⟩, f.read len.toNat)
  | .write data => (⟨(f.written data).length, [], none⟩, f.write data)
  | .seek pos whence =>
    match f.seek (f.target pos whence) with
    | some f' => (⟨f.target pos whence, [], none⟩, f')
    | none => (fail EINVAL, f)

def expectedSession : BoundedFile → List Op → List Reply × BoundedFile
  | f, [] => ([], f)
  | f, op :: ops =>
    ((expected f op).1 :: (expectedSession (expected f op).2 ops).1,
      (expectedSession (expected f op).2 ops).2)

/-- The lengths are `int`s that are not negative, and the target of a seek is an `int`. -/
def Admissible (f : BoundedFile) : Op → Prop
  | .read len => 0 ≤ len ∧ len ≤ INT_MAX
  | .write data => data.length ≤ INT_MAX
  | .seek pos whence => -(2 ^ 31) ≤ f.target pos whence ∧ f.target pos whence ≤ INT_MAX

/-- Each operation is admissible where it is made. -/
def AllAdmissible : BoundedFile → List Op → Prop
  | _, [] => True
  | f, op :: ops => Admissible f op ∧ AllAdmissible (expected f op).2 ops

/-! ## Conversions -/

variable {n off size : ℕ} {bs buf : Bytes}

lemma sizeT_natCast (h : n ≤ INT_MAX) : sizeT n = n := by
  have hmax : INT_MAX = 2147483647 := rfl
  have hpow : (256 : ℕ) ^ 8 = 18446744073709551616 := by norm_num
  unfold sizeT ofSigned
  rw [hpow]
  omega

lemma toInt_of_mem {v : ℤ} (hlo : -(2 ^ 31) ≤ v) (hhi : v ≤ INT_MAX) : toInt v = v := by
  have hmax : INT_MAX = 2147483647 := rfl
  apply toSigned_ofSigned
  · norm_num
    omega
  · norm_num
    omega

lemma toInt_natCast (h : n ≤ INT_MAX) : toInt n = n :=
  toInt_of_mem (by omega) (by omega)

lemma toInt_minSize {len b : ℕ} (hlen : len ≤ INT_MAX) :
    toInt (minSize len b) = ((min len b : ℕ) : ℤ) := by
  have hmin : minSize len b = min len b := by
    rw [minSize, sizeT_natCast hlen]
    split <;> omega
  rw [hmin, toInt_natCast (by omega)]

lemma toInt_sizeT {v : ℤ} (hlo : -(2 ^ 31) ≤ v) (hhi : v ≤ INT_MAX) : toInt (sizeT v) = v := by
  have hmax : INT_MAX = 2147483647 := rfl
  have hpow8 : (256 : ℕ) ^ 8 = 18446744073709551616 := by norm_num
  have hpow4 : (256 : ℕ) ^ 4 = 4294967296 := by norm_num
  have hmod : ((sizeT v : ℕ) : ℤ) % (256 ^ 4 : ℕ) = v % (256 ^ 4 : ℕ) := by
    unfold sizeT ofSigned
    rw [hpow8, hpow4]
    omega
  calc toInt (sizeT v) = toInt v := by rw [toInt, wrapSigned, ofSigned, hmod]; rfl
    _ = v := toInt_of_mem hlo hhi

lemma sizeT_sub {a b : ℕ} (hab : b ≤ a) (ha : a ≤ INT_MAX) : sizeT ((a : ℤ) - (b : ℤ)) = a - b := by
  rw [← Nat.cast_sub hab, sizeT_natCast (by omega)]

/-! ## A stream and its file -/

/-- The stream in memory is the file `f`. -/
structure Represents (ms : Memstream) (f : BoundedFile) : Prop where
  length_buf : ms.buf.length = ms.rsize
  rsize_le : ms.rsize ≤ INT_MAX
  limit : f.limit = ms.rsize
  vsize_le : ms.vsize ≤ ms.rsize
  content : f.content = ms.buf.take ms.vsize
  pos : f.pos = ms.curpos
  append : f.append = ms.flags.append
  read : ms.flags.read = true
  write : ms.flags.write = true

variable {ms : Memstream} {f : BoundedFile}

lemma Represents.length_content (h : Represents ms f) : f.content.length = ms.vsize := by
  have hle := h.vsize_le
  rw [h.content, length_take, h.length_buf]
  omega

lemma Represents.curpos_le (h : Represents ms f) : ms.curpos ≤ ms.vsize := by
  rw [← h.pos, ← h.length_content]
  exact f.pos_le

lemma Represents.mstreamRead (h : Represents ms f) {len : ℤ} (hlen : 0 ≤ len)
    (hmax : len ≤ INT_MAX) :
    ∃ ms', mstreamRead ms len = some ((expected f (.read len)).1, ms') ∧
      Represents ms' (expected f (.read len)).2 := by
  obtain ⟨n, rfl⟩ := Int.eq_ofNat_of_zero_le hlen
  have hn : n ≤ INT_MAX := by omega
  have hcur := h.curpos_le
  have hv := h.vsize_le
  have hr := h.rsize_le
  -- the bytes that are read, in the buffer
  have hreadable : f.readable n = readAt ms.buf ms.curpos (min n (ms.vsize - ms.curpos)) := by
    rw [readable, readAt, readAt, h.content, h.pos, drop_take, take_take]
  have hlength : (f.readable n).length = min n (ms.vsize - ms.curpos) := by
    rw [hreadable, readAt, length_take, length_drop, h.length_buf]
    omega
  unfold Fmemopen.mstreamRead
  rw [if_neg (by simp [h.read])]
  simp only [expected, Int.toNat_natCast]
  by_cases hend : ms.vsize ≤ ms.curpos
  · have hnil : f.readable n = [] := eq_nil_of_length_eq_zero (by omega)
    rw [if_pos hend, hnil]
    refine ⟨ms, rfl, ?_⟩
    exact { h with pos := by simp [BoundedFile.read, hnil, h.pos] }
  · rw [if_neg hend, sizeT_sub hcur (by omega), toInt_minSize hn, ← hlength,
      sizeT_natCast (by omega), load, if_pos (by rw [h.length_buf]; omega)]
    have hcurpos : sizeT ((ms.curpos : ℤ) + ((f.readable n).length : ℤ)) =
        ms.curpos + (f.readable n).length := by
      rw [← Nat.cast_add, sizeT_natCast (by omega)]
    refine ⟨{ ms with curpos := ms.curpos + (f.readable n).length }, ?_, ?_⟩
    · simp only [bind_eq_bind, bind_some, hcurpos]
      rw [hlength, ← hreadable]
      rfl
    · exact { h with pos := by simp [BoundedFile.read, h.pos] }

lemma length_writeAt (h : off + bs.length ≤ buf.length) :
    (writeAt buf off bs).length = buf.length := by
  simp only [writeAt, length_append, length_take, length_replicate, length_drop]
  omega

lemma take_writeAt_of_le (hn : n ≤ off) (h : off + bs.length ≤ buf.length) :
    (writeAt buf off bs).take n = buf.take n := by
  rw [writeAt, Nat.sub_eq_zero_of_le (by omega), replicate_zero, append_nil,
    append_assoc, take_append_of_le_length (by rw [length_take]; omega),
    take_take, Nat.min_eq_left hn]

lemma take_writeAt (hn : off ≤ n) (h : off + bs.length ≤ buf.length) :
    (writeAt buf off bs).take (max n (off + bs.length)) =
      (buf.take n).take off ++ bs ++ (buf.take n).drop (off + bs.length) := by
  have hlen : (buf.take off ++ bs).length = off + bs.length := by
    rw [length_append, length_take]
    omega
  rw [writeAt, Nat.sub_eq_zero_of_le (by omega), replicate_zero, append_nil,
    take_append, take_of_length_le (by omega), hlen, take_take, Nat.min_eq_left hn,
    drop_take]
  congr 2
  omega

lemma terminate_eq (ms : Memstream) (hread : ms.flags.read = true)
    (hwrite : ms.flags.write = true) (hbuf : ms.buf.length = ms.rsize) :
    ∃ buf, terminate ms = some { ms with buf := buf, vsize := max ms.vsize ms.curpos } ∧
      buf.length = ms.rsize ∧
      buf.take (max ms.vsize ms.curpos) = ms.buf.take (max ms.vsize ms.curpos) := by
  unfold terminate
  by_cases hgrow : ms.vsize < ms.curpos
  · have hmax : max ms.vsize ms.curpos = ms.curpos := by omega
    simp only [if_pos hgrow, hmax]
    by_cases hroom : ms.curpos < ms.rsize
    · have hfit : ms.curpos + ([0] : Bytes).length ≤ ms.buf.length := by simpa [hbuf] using hroom
      rw [if_pos ⟨hread, hwrite, hroom⟩, store, if_pos hfit]
      exact ⟨_, rfl, (length_writeAt hfit).trans hbuf, take_writeAt_of_le (Nat.le_refl _) hfit⟩
    · rw [if_neg (by simp [hroom])]
      exact ⟨ms.buf, rfl, hbuf, rfl⟩
  · have hmax : max ms.vsize ms.curpos = ms.vsize := by omega
    rw [if_neg hgrow, hmax]
    exact ⟨ms.buf, rfl, hbuf, rfl⟩

section

variable (h : Represents ms f)
include h

lemma Represents.mstreamWrite {data : Bytes} (hdata : data.length ≤ INT_MAX) :
    ∃ ms', mstreamWrite ms data = some ((expected f (.write data)).1, ms') ∧
      Represents ms' (expected f (.write data)).2 := by
  have hv := h.vsize_le
  have hr := h.rsize_le
  have hoff : f.offset = if ms.flags.append then ms.vsize else ms.curpos := by
    rw [offset, h.append, h.length_content, h.pos]
  have hoffle : f.offset ≤ ms.vsize := h.length_content ▸ f.offset_le
  have hwritten : (f.written data).length = min data.length (ms.rsize - f.offset) := by
    rw [written, length_take, h.limit, Nat.min_comm]
  -- what is copied, and where to
  have hload : load data 0 (f.written data).length = some (f.written data) := by
    rw [load, if_pos (by omega), readAt, drop_zero, hwritten, written, h.limit,
      some.injEq, take_eq_take_iff]
    omega
  have hfit : f.offset + (f.written data).length ≤ ms.buf.length := by
    rw [h.length_buf]
    omega
  obtain ⟨buf, hterm, hlen, htake⟩ := terminate_eq
    { ms with
      buf := writeAt ms.buf f.offset (f.written data)
      curpos := f.offset + (f.written data).length }
    h.read h.write ((length_writeAt hfit).trans h.length_buf)
  refine ⟨{ ms with
    buf := buf
    vsize := max ms.vsize (f.offset + (f.written data).length)
    curpos := f.offset + (f.written data).length }, ?_, ?_⟩
  · have hcast : (if ms.flags.append then (ms.vsize : ℤ) else (ms.curpos : ℤ)) = f.offset := by
      rw [hoff]
      split <;> rfl
    have hint : toInt (f.offset : ℤ) = f.offset := toInt_natCast (by omega)
    have hnw : toInt (minSize data.length (sizeT ((ms.rsize : ℤ) - (f.offset : ℤ)))) =
        (f.written data).length := by
      rw [sizeT_sub (by omega) hr, toInt_minSize hdata, hwritten]
    have hend : sizeT (toInt ((f.offset : ℤ) + ((f.written data).length : ℤ))) =
        f.offset + (f.written data).length := by
      rw [← Nat.cast_add, toInt_natCast (by omega), sizeT_natCast (by omega)]
    have hsizes : sizeT (f.offset : ℤ) = f.offset ∧
        sizeT ((f.written data).length : ℤ) = (f.written data).length :=
      ⟨sizeT_natCast (by omega), sizeT_natCast (by omega)⟩
    unfold Fmemopen.mstreamWrite
    rw [if_neg (by simp [h.write])]
    simp only [hcast, hint, hnw, hend, hsizes, hload, bind_eq_bind, bind_some, store,
      if_pos hfit, hterm]
    rw [terminateWriteOnly, if_neg (by simp [h.read])]
    rfl
  · refine { h with length_buf := hlen, vsize_le := ?_, content := ?_, pos := rfl }
    · exact Nat.max_le.mpr ⟨hv, h.length_buf ▸ hfit⟩
    · rw [htake, take_writeAt hoffle hfit, ← h.content]
      rfl

lemma Represents.seekOff {pos : ℤ} {whence : Whence}
    (hlo : -(2 ^ 31) ≤ f.target pos whence) (hhi : f.target pos whence ≤ INT_MAX) :
    seekOff ms pos whence = f.target pos whence := by
  cases whence with
  | seekSet => exact toInt_of_mem hlo hhi
  | seekCur =>
    simp only [target, h.pos, Fmemopen.seekOff] at hlo hhi ⊢
    exact toInt_sizeT hlo hhi
  | seekEnd =>
    simp only [target, h.length_content, Fmemopen.seekOff] at hlo hhi ⊢
    exact toInt_sizeT hlo hhi

lemma Represents.mstreamSeek {pos : ℤ} {whence : Whence}
    (hlo : -(2 ^ 31) ≤ f.target pos whence) (hhi : f.target pos whence ≤ INT_MAX) :
    ∃ ms', mstreamSeek ms pos whence = ((expected f (.seek pos whence)).1, ms') ∧
      Represents ms' (expected f (.seek pos whence)).2 := by
  have hv := h.vsize_le
  have hr := h.rsize_le
  unfold Fmemopen.mstreamSeek
  simp only [h.seekOff hlo hhi, expected, seek, h.length_content]
  generalize f.target pos whence = t at hlo hhi ⊢
  by_cases hin : 0 ≤ t ∧ t ≤ ms.vsize
  · obtain ⟨n, rfl⟩ := Int.eq_ofNat_of_zero_le hin.1
    have hn : n ≤ ms.vsize := by omega
    rw [dif_pos hin, sizeT_natCast (by omega), if_neg (by omega)]
    exact ⟨_, rfl, { h with pos := rfl }⟩
  · have hout : t < 0 ∨ ms.vsize < sizeT t := by
      rcases lt_or_ge t 0 with hneg | hpos
      · exact .inl hneg
      · obtain ⟨n, rfl⟩ := Int.eq_ofNat_of_zero_le hpos
        rw [sizeT_natCast (by omega)]
        exact .inr (by omega)
    rw [dif_neg hin, if_pos hout]
    exact ⟨ms, rfl, h⟩

lemma Represents.perform {op : Op} (hop : Admissible f op) :
    ∃ ms', perform ms op = some ((expected f op).1, ms') ∧ Represents ms' (expected f op).2 := by
  cases op with
  | read len => exact h.mstreamRead hop.1 hop.2
  | write data => exact h.mstreamWrite hop
  | seek pos whence =>
    obtain ⟨ms', heq, hrep⟩ := h.mstreamSeek hop.1 hop.2
    exact ⟨ms', congrArg some heq, hrep⟩

lemma Represents.session {ops : List Op} (hops : AllAdmissible f ops) :
    ∃ ms', session ms ops = some ((expectedSession f ops).1, ms') ∧
      Represents ms' (expectedSession f ops).2 := by
  induction ops generalizing ms f with
  | nil => exact ⟨ms, rfl, h⟩
  | cons op ops ih =>
    obtain ⟨ms₁, hop, hrep⟩ := h.perform hops.1
    obtain ⟨ms₂, hrest, hrep'⟩ := ih hrep hops.2
    refine ⟨ms₂, ?_, hrep'⟩
    unfold Fmemopen.session
    simp only [hop, hrest, bind_eq_bind, bind_some]
    rfl

end

/-! ## Opening -/

lemma findEndLoop_eq (buf : Bytes) {left : ℕ} (h : off + left = buf.length) :
    findEndLoop buf left off = some (off + ((buf.drop off).takeWhile (· ≠ 0)).length) := by
  induction left generalizing off with
  | zero =>
    rw [drop_of_length_le (by omega)]
    rfl
  | succ left ih =>
    have hlt : off < buf.length := by omega
    unfold findEndLoop
    rw [List.getElem?_eq_getElem hlt, drop_eq_getElem_cons hlt]
    simp only [bind_eq_bind, bind_some]
    by_cases hc : buf[off] = 0
    · rw [if_pos hc, takeWhile_cons_of_neg (by simp [hc])]
      rfl
    · rw [if_neg hc, ih (by omega), takeWhile_cons_of_pos (by simp [hc]), length_cons]
      congr 1
      omega

lemma findEnd_eq (h : buf.length = size) :
    findEnd buf size = some (buf.takeWhile (· ≠ 0)).length := by
  rw [findEnd, findEndLoop_eq buf (by omega), drop_zero, Nat.zero_add]

lemma typeStep_spec {flags flags' : Flags} {c : UInt8} (h : typeStep flags c = some flags') :
    (flags.read → flags'.read) ∧ (flags.write → flags'.write) ∧
      (c = chr '+' → flags'.read ∧ flags'.write) := by
  revert h
  fun_cases typeStep flags c with
  | case2 hc =>
    rintro ⟨⟩
    exact ⟨fun _ => rfl, id, fun hplus => absurd (hc.symm.trans hplus) (by decide)⟩
  | case4 _ hc =>
    rintro ⟨⟩
    exact ⟨id, fun _ => rfl, fun hplus => absurd (hc.symm.trans hplus) (by decide)⟩
  | case6 _ _ hc =>
    rintro ⟨⟩
    exact ⟨id, id, fun hplus => absurd (hc.symm.trans hplus) (by decide)⟩
  | case8 =>
    rintro ⟨⟩
    exact ⟨fun _ => rfl, fun _ => rfl, fun _ => ⟨rfl, rfl⟩⟩
  | case10 _ _ _ hplus =>
    rintro ⟨⟩
    exact ⟨id, id, fun heq => absurd heq hplus⟩
  | _ => simp

lemma typeToFlags_plus {type : Bytes} (hplus : chr '+' ∈ type) (hne : typeToFlags type ≠ .zero) :
    (typeToFlags type).read = true ∧ (typeToFlags type).write = true := by
  have hloop : ∀ (type : Bytes) (flags flags' : Flags), type.foldlM typeStep flags = some flags' →
      (flags.read → flags'.read) ∧ (flags.write → flags'.write) ∧
        (chr '+' ∈ type → flags'.read ∧ flags'.write) := by
    intro type
    induction type with
    | nil =>
      intro flags flags' h
      cases h
      exact ⟨id, id, by simp⟩
    | cons c type ih =>
      intro flags flags' h
      rw [foldlM_cons] at h
      obtain ⟨flags₁, hstep, hrest⟩ := bind_eq_some_iff.mp h
      obtain ⟨hr, hw, hp⟩ := typeStep_spec hstep
      obtain ⟨hr', hw', hp'⟩ := ih flags₁ flags' hrest
      refine ⟨fun hx => hr' (hr hx), fun hx => hw' (hw hx), fun hmem => ?_⟩
      rcases mem_cons.mp hmem with rfl | hmem
      · obtain ⟨hx, hy⟩ := hp rfl
        exact ⟨hr' hx, hw' hy⟩
      · exact hp' hmem
  unfold typeToFlags at hne ⊢
  cases hf : type.foldlM typeStep .zero with
  | none =>
    rw [hf] at hne
    exact absurd rfl hne
  | some flags => exact (hloop type .zero flags hf).2.2 hplus

/-- The content of a stream that was just opened: what the buffer holds for `r`, nothing for `w`,
and the string in the caller's buffer for `a`. -/
def initialContent (flags : Flags) (buf block : Option Bytes) : Bytes :=
  if flags.append then (buf.map fun b => b.takeWhile (· ≠ 0)).getD []
  else if flags.truncate then []
  else (buf.or block).getD []

/-- The file that `fmemopen` opens. -/
structure Initial (flags : Flags) (buf block : Option Bytes) (size : ℕ) (f : BoundedFile) :
    Prop where
  content : f.content = initialContent flags buf block
  pos : f.pos = if flags.append then f.content.length else 0
  limit : f.limit = size
  append : f.append = flags.append

lemma exists_represents {flags : Flags} {b : Bytes} {curpos : ℕ} (hb : b.length = size)
    (hmax : size ≤ INT_MAX) (hread : flags.read = true) (hwrite : flags.write = true)
    (hcur : curpos ≤ size) (hstart : flags.append = false → curpos = 0) {fp : Bool} {ms : Memstream}
    (hms : openStream fp b size curpos flags = .stream ms) :
    ∃ f : BoundedFile, Represents ms f ∧
      f.content = (if flags.append then b.take curpos else if flags.truncate then [] else b) ∧
      f.pos = (if flags.append then f.content.length else 0) ∧ f.limit = size ∧
      f.append = flags.append := by
  unfold openStream at hms
  split at hms
  · cases hms
    cases happ : flags.append with
    | true =>
      have hlen : (b.take curpos).length = curpos := by
        rw [length_take]
        omega
      refine ⟨⟨b.take curpos, curpos, size, true, hlen.ge, by omega⟩, ?_, rfl, hlen.symm, rfl, rfl⟩
      exact ⟨hb, hmax, rfl, by simpa using hcur, by simp, rfl, happ.symm, hread, hwrite⟩
    | false =>
      obtain rfl := hstart happ
      cases htr : flags.truncate with
      | true =>
        refine ⟨⟨[], 0, size, false, Nat.le_refl 0, Nat.zero_le size⟩, ?_, rfl, rfl, rfl, rfl⟩
        exact ⟨hb, hmax, rfl, by simp, by simp, rfl, happ.symm, hread, hwrite⟩
      | false =>
        refine ⟨⟨b, 0, size, false, Nat.zero_le _, hb.le⟩, ?_, rfl, rfl, rfl, rfl⟩
        exact ⟨hb, hmax, rfl, by simp, by simp [hb], rfl, happ.symm, hread, hwrite⟩
  · cases hms

lemma fmemopen_spec (env : Allocs) (buf : Option Bytes) {type : Bytes} (hmax : size ≤ INT_MAX)
    (hbuf : ∀ b ∈ buf, b.length = size) (hblock : ∀ b ∈ env.block, b.length = size)
    (hplus : chr '+' ∈ type) :
    ∃ res, fmemopen env buf size type = some res ∧ ∀ ms, res = .stream ms →
      ∃ f, Initial (typeToFlags type) buf env.block size f ∧ Represents ms f := by
  unfold fmemopen
  split
  · exact ⟨_, rfl, by simp⟩
  split
  · exact ⟨_, rfl, by simp⟩
  split
  · exact ⟨_, rfl, by simp⟩
  rename_i hne
  obtain ⟨hread, hwrite⟩ := typeToFlags_plus hplus hne
  cases buf with
  | none =>
    simp only [hread, hwrite, and_self, not_true_eq_false, if_false]
    cases hb : env.block with
    | none => exact ⟨_, rfl, by simp⟩
    | some b =>
      refine ⟨_, rfl, fun ms hms => ?_⟩
      obtain ⟨f, hrep, hcontent, hpos, hlimit, happ⟩ := exists_represents (hblock b hb) hmax rfl
        rfl (Nat.zero_le size) (fun _ => rfl) hms
      refine ⟨f, ⟨hcontent.trans ?_, hpos, hlimit, happ⟩, hrep⟩
      simp [initialContent]
  | some b =>
    have hb : b.length = size := hbuf b rfl
    cases happ : (typeToFlags type).append with
    | true =>
      simp only [findEnd_eq hb, if_true, map_some]
      refine ⟨_, rfl, fun ms hms => ?_⟩
      obtain ⟨f, hrep, hcontent, hpos, hlimit, happ'⟩ := exists_represents hb hmax hread hwrite
        (hb ▸ (takeWhile_sublist _).length_le) (by simp [happ]) hms
      refine ⟨f, ⟨hcontent.trans ?_, hpos, hlimit, happ'⟩, hrep⟩
      have htake : b.take (b.takeWhile (· ≠ 0)).length = b.takeWhile (· ≠ 0) :=
        (prefix_iff_eq_take.mp ( takeWhile_prefix _)).symm
      rw [initialContent, if_pos happ, if_pos happ, htake]
      rfl
    | false =>
      simp only [Bool.false_eq_true, if_false]
      refine ⟨_, rfl, fun ms hms => ?_⟩
      obtain ⟨f, hrep, hcontent, hpos, hlimit, happ'⟩ := exists_represents hb hmax hread hwrite
        (Nat.zero_le size) (fun _ => rfl) hms
      refine ⟨f, ⟨hcontent.trans ?_, hpos, hlimit, happ'⟩, hrep⟩
      simp [initialContent, happ]

lemma limit_expectedSession (f : BoundedFile) (ops : List Op) :
    (expectedSession f ops).2.limit = f.limit := by
  induction ops generalizing f with
  | nil => rfl
  | cons op ops ih =>
    rw [expectedSession, ih]
    cases op with
    | read len => rfl
    | write data => rfl
    | seek pos whence =>
      simp only [expected, seek]
      split <;> rename_i heq
      · split at heq
        · cases heq
          rfl
        · cases heq
      · rfl

/-- With a mode with `+` a stream behaves as a file bounded by the size of the buffer: no byte
outside the buffer is touched, the content of the file is the first `vsize` bytes of the buffer and
its position is `curpos`. -/
theorem fmemopen_refines (env : Allocs) (buf : Option Bytes) {size : ℕ} {type : Bytes}
    (hmax : size ≤ INT_MAX) (hbuf : ∀ b ∈ buf, b.length = size)
    (hblock : ∀ b ∈ env.block, b.length = size) (hplus : chr '+' ∈ type) :
    ∃ res, fmemopen env buf size type = some res ∧ ∀ ms, res = .stream ms →
      ∃ f, Initial (typeToFlags type) buf env.block size f ∧ ∀ ops, AllAdmissible f ops →
        ∃ ms', session ms ops = some ((expectedSession f ops).1, ms') ∧
          ms'.curpos ≤ ms'.vsize ∧ ms'.vsize ≤ ms'.rsize ∧ ms'.rsize = size ∧
          ms'.buf.length = size ∧ (expectedSession f ops).2.content = ms'.buf.take ms'.vsize ∧
          (expectedSession f ops).2.pos = ms'.curpos := by
  obtain ⟨res, hres, hstream⟩ := fmemopen_spec env buf hmax hbuf hblock hplus
  refine ⟨res, hres, fun ms hms => ?_⟩
  obtain ⟨f, hinit, hrep⟩ := hstream ms hms
  refine ⟨f, hinit, fun ops hops => ?_⟩
  obtain ⟨ms', hsession, hrep'⟩ := hrep.session hops
  have hsize : ms'.rsize = size := by
    rw [← hrep'.limit, limit_expectedSession, hinit.limit]
  exact ⟨ms', hsession, hrep'.curpos_le, hrep'.vsize_le, hsize, hrep'.length_buf.trans hsize,
    hrep'.content, hrep'.pos⟩

/-- A buffer with the string `ab` is opened for appending; a byte is written, and the whole content
is read from the start. -/
theorem fmemopen_refines_append :
    ∃ ms f ms', fmemopen ⟨true, none, true⟩ (some [97, 98, 0, 100]) 4 (ascii "a+") =
        some (.stream ms) ∧ f.content = [97, 98] ∧
      session ms [.write [99], .seek 0 .seekSet, .read 10] =
        some ([⟨1, [], none⟩, ⟨0, [], none⟩, ⟨3, [97, 98, 99], none⟩], ms') ∧
      (expectedSession f [.write [99], .seek 0 .seekSet, .read 10]).2.content =
        ms'.buf.take ms'.vsize := by
  obtain ⟨res, hres, hstream⟩ := fmemopen_refines ⟨true, none, true⟩ (some [97, 98, 0, 100])
    (show 4 ≤ INT_MAX by decide) (by simp) (by simp) (show chr '+' ∈ ascii "a+" by decide)
  obtain ⟨ms, rfl⟩ : ∃ ms, res = .stream ms := ⟨_, (some.inj hres).symm⟩
  obtain ⟨f, hinit, hops⟩ := hstream ms rfl
  obtain ⟨content, pos, limit, append, hle, hlen⟩ := f
  obtain ⟨hcontent, hpos, hlimit, happend⟩ := hinit
  simp only at hcontent hpos hlimit happend
  subst hcontent hlimit happend
  obtain rfl : pos = 2 := hpos
  obtain ⟨ms', hsession, -, -, -, -, hfinal, -⟩ := hops [.write [99], .seek 0 .seekSet, .read 10]
    ⟨show ([99] : Bytes).length ≤ INT_MAX by decide,
      ⟨show -(2 ^ 31) ≤ (0 : ℤ) by decide, show (0 : ℤ) ≤ INT_MAX by decide⟩,
      ⟨show (0 : ℤ) ≤ 10 by decide, show (10 : ℤ) ≤ INT_MAX by decide⟩, trivial⟩
  exact ⟨ms, _, ms', hres, rfl, hsession, hfinal⟩

end UnixPrograms.Fmemopen
