import UnixPrograms.Db.Functions

/-!
# The functions run alone

What the functions that touch the files return and leave in them when no other process interferes.
`Rec.Legible` says what `dbReadidx` asks of a record; an index record is read back as it was written
(`dbReadidx_dbWriteidx`).
-/

namespace UnixPrograms.Db

open Prog World

open Function (update)

/-- The record is read back as it was written. -/
structure Rec.Legible (r : Rec) : Prop where
  key_nul : (0 : UInt8) ∉ r.key
  key_sep : sep ∉ r.key
  le_len : idxlenMin ≤ r.text.length
  len_le : r.text.length ≤ idxlenMax
  datlen_le : r.data.length + 1 ≤ datlenMax

lemma Rec.Valid.legible {r : Rec} (hr : r.Valid) (hsep : sep ∉ r.key) : r.Legible :=
  ⟨hr.key_nul, hsep, hr.le_len, hr.len_le, hr.datlen_le⟩

section Alone

variable {ι : Type} [DecidableEq ι] {p : ι} {w : World ι DbFile} {db : DB} {r : Rec} {next : ℕ}

/-! ## Pointers -/

variable {o : ℕ} {offset : ℤ}

lemma returns_dbReadptr {n : ℕ} (h : Stands (w.file .idx) o (ptrField n)) (hn : (n : ℤ) ≤ ptrMax) :
    (dbReadptr o).Returns (perform p) w fun v w' => v = n ∧ w'.file = w.file := by
  have hlen : (ptrField n).length = ptrSz := length_ptrField hn
  have ho : (o : ℤ) ≠ -1 := by omega
  simp only [dbReadptr, lseek, read, bind_eq, perform_bind]
  apply returns_lseek rfl
  rw [require_bind_of_true _ ho]
  apply returns_read (pos_seek ..) h hlen
  rw [require_bind_of_true _ hlen, atol_ptrField]
  exact .ret ⟨rfl, rfl⟩

lemma returns_dbWriteptr {n : ℕ} (hn : (n : ℤ) ≤ ptrMax) :
    (dbWriteptr o n).Returns (perform p) w fun _ w' =>
      w'.file = update w.file .idx (writeAt (w.file .idx) o (ptrField n)) := by
  have hlen : (ptrField n).length = ptrSz := length_ptrField hn
  have hfield : padLeft ptrSz (decimalInt n) = ptrField n := by rw [decimalInt_natCast, ptrField]
  have ho : (o : ℤ) ≠ -1 := by omega
  simp only [dbWriteptr, lseek, write, bind_eq, perform_bind]
  rw [require_bind_of_true _ ⟨Int.natCast_nonneg n, hn⟩]
  apply returns_lseek rfl
  rw [require_bind_of_true _ ho, hfield]
  apply returns_write (pos_seek ..)
  intro w' hfile
  rw [Prog.require, if_pos hlen]
  exact .ret hfile

/-! ## Index records -/

lemma returns_dbReadidx (hr : r.Legible)
    (h : Stands (w.file .idx) r.off (ptrField next ++ r.tail)) (hnext : (next : ℤ) ≤ ptrMax)
    (hoff : offset = r.off ∧ 0 < r.off ∨ offset = 0 ∧ w.pos p .idx = r.off) :
    (dbReadidx db offset).Returns (perform p) w fun x w' =>
      x = ((next : ℤ), db.atRec r next) ∧ w'.file = w.file ∧
        w'.pos p .idx = r.off + (ptrSz + idxlenSz + r.text.length) := by
  have htarget : w.target p .idx offset (if offset = 0 then .seekCur else .seekSet) = r.off := by
    rcases hoff with ⟨rfl, hpos⟩ | ⟨rfl, hpos⟩
    · rw [if_neg (by omega)]
      rfl
    · rw [if_pos rfl, target, hpos, add_zero]
  have hheader := r.length_header hnext hr.len_le
  have hne : (r.off : ℤ) ≠ -1 := by omega
  have hrange : (idxlenMin : ℤ) ≤ (r.text.length : ℕ) ∧ ((r.text.length : ℕ) : ℤ) ≤ idxlenMax :=
    ⟨by exact_mod_cast hr.le_len, by exact_mod_cast hr.len_le⟩
  rw [Rec.tail, ← List.append_assoc, ← Rec.header] at h
  simp only [dbReadidx, lseek, read, bind_eq, perform_bind]
  apply returns_lseek htarget
  rw [require_bind_of_true _ hne]
  apply returns_read (pos_seek ..) h.left hheader
  rw [if_neg (not_not_intro hheader), r.atol_take_header hnext, r.atol_drop_header hnext,
    require_bind_of_true _ hrange]
  simp only [Int.toNat_natCast]
  refine returns_read (b := r.text) (pos_seek ..) ?_ rfl ?_
  · exact h.right
  rw [require_bind_of_true _ rfl, require_bind_of_true _ r.getLast?_text,
    splitRecord_text hr.key_nul hr.key_sep hr.datlen_le]
  refine .ret ⟨rfl, rfl, ?_⟩
  rw [pos_seek, hheader, Nat.add_assoc]

lemma returns_dbReadidx_eof (h : w.pos p .idx = (w.file .idx).length) :
    (dbReadidx db 0).Returns (perform p) w fun x w' => x.1 = -1 ∧ w'.file = w.file := by
  have hne : (w.pos p .idx : ℤ) ≠ -1 := by omega
  have hread : readAt (w.file .idx) (w.pos p .idx) (ptrSz + idxlenSz) = [] := by
    rw [readAt, h, List.drop_length, List.take_nil]
  simp only [dbReadidx, lseek, read, bind_eq, perform_bind]
  apply returns_lseek (n := w.pos p .idx) (by simp [target])
  rw [require_bind_of_true _ hne]
  apply Prog.Returns.call
  simp only [World.perform, World.pos_seek, World.file_seek, hread]
  rw [if_pos (by decide), if_pos ⟨rfl, trivial⟩]
  exact .ret ⟨rfl, rfl⟩

lemma returns_dbWriteidx {whence : Whence} (hlo : idxlenMin ≤ r.text.length)
    (hhi : r.text.length ≤ idxlenMax) (hnext : (next : ℤ) ≤ ptrMax) (hoff : db.datoff = r.datoff)
    (hlen : db.datlen = r.data.length + 1) (hplace : w.target p .idx offset whence = r.off) :
    (dbWriteidx db r.key offset whence next).Returns (perform p) w fun db' w' =>
      db' = { db with ptrval := next, idxbuf := r.text ++ [0], idxoff := r.off } ∧
        w'.file = update w.file .idx (writeAt (w.file .idx) r.off (ptrField next ++ r.tail)) := by
  have htotal := length_idxBlock hnext hhi
  have hne : (r.off : ℤ) ≠ -1 := by omega
  simp only [dbWriteidx, lseek, write, writewLock, unLock, bind_eq, perform_bind]
  rw [text_eq hoff hlen, require_bind_of_true _ ⟨Int.natCast_nonneg next, hnext⟩,
    require_bind_of_true _ ⟨hlo, hhi⟩, fields_eq]
  apply returns_setlkw_ite
  intro w₁ hfile₁ hpos₁
  have hplace₁ : w₁.target p .idx offset whence = r.off := by
    rw [← hplace]
    cases whence <;> simp only [target, hfile₁, hpos₁]
  apply returns_lseek hplace₁
  rw [require_bind_of_true _ hne]
  apply returns_write (pos_seek ..)
  intro w₂ hfile₂
  rw [require_bind_of_true _ htotal]
  apply returns_unlck_ite
  intro w₃ hfile₃ _
  refine .ret ⟨rfl, ?_⟩
  rw [hfile₃, hfile₂, file_seek, hfile₁]

/-! ## Data records -/

lemma returns_dbReaddat {data : Bytes} (hoff : db.datoff = o) (hlen : db.datlen = data.length + 1)
    (hnul : (0 : UInt8) ∉ data) (h : Stands (w.file .dat) o (data ++ [newline])) :
    (dbReaddat db).Returns (perform p) w fun x w' =>
      x = (data, { db with datbuf := data ++ [0] }) ∧ w'.file = w.file ∧
        w'.pos p .idx = w.pos p .idx := by
  have hne : db.datoff ≠ -1 := by omega
  have htotal : (data ++ [newline]).length = db.datlen := by rw [hlen, List.length_append]; rfl
  have hbuf : (data ++ [newline]).dropLast ++ [0] = data ++ [0] := by rw [List.dropLast_concat]
  simp only [dbReaddat, lseek, read, bind_eq, perform_bind]
  apply returns_lseek (show w.target p .dat db.datoff .seekSet = o from hoff)
  rw [← hoff, require_bind_of_true _ hne]
  apply returns_read (pos_seek ..) h htotal
  rw [require_bind_of_true _ htotal, require_bind_of_true _ List.getLast?_concat, hbuf,
    cstr_append hnul]
  exact .ret ⟨rfl, rfl, by simp [seek]⟩

lemma returns_dbWritedat {data : Bytes} {whence : Whence}
    (hplace : w.target p .dat offset whence = o) :
    (dbWritedat db data offset whence).Returns (perform p) w fun db' w' =>
      db' = { db with datoff := o, datlen := data.length + 1 } ∧
        w'.file = update w.file .dat (writeAt (w.file .dat) o (data ++ [newline])) := by
  have hne : (o : ℤ) ≠ -1 := by omega
  have htotal : (data ++ [newline]).length = data.length + 1 := List.length_append
  simp only [dbWritedat, lseek, write, writewLock, unLock, bind_eq, perform_bind]
  apply returns_setlkw_ite
  intro w₁ hfile₁ hpos₁
  have hplace₁ : w₁.target p .dat offset whence = o := by
    rw [← hplace]
    cases whence <;> simp only [target, hfile₁, hpos₁]
  apply returns_lseek hplace₁
  rw [require_bind_of_true _ hne]
  apply returns_write (pos_seek ..)
  intro w₂ hfile₂
  rw [require_bind_of_true _ htotal]
  apply returns_unlck_ite
  intro w₃ hfile₃ _
  refine .ret ⟨rfl, ?_⟩
  rw [hfile₃, hfile₂, file_seek, hfile₁]

end Alone

/-! ## Written and read back -/

/-- Every process that reads an index record at the offset `o` of the index file `f`, which it may
find by its file offset, finds this key, chain pointer and data record, and has read `len` bytes. -/
def ReadsBack (f : Bytes) (o len : ℕ) (key : Bytes) (ptrval datoff : ℤ) (datlen : ℕ) : Prop :=
  ∀ {ι : Type} [DecidableEq ι] (p : ι) (w : World ι DbFile) (db : DB) (offset : ℤ),
    w.file .idx = f → (offset = o ∧ 0 < o ∨ offset = 0 ∧ w.pos p .idx = o) →
    (dbReadidx db offset).Returns (perform p) w fun x w' =>
      cstr x.2.idxbuf = key ∧ x.1 = ptrval ∧ x.2.ptrval = ptrval ∧ x.2.datoff = datoff ∧
        x.2.datlen = datlen ∧ x.2.idxoff = o ∧ w'.pos p .idx = o + len

lemma readsBack_of_stands {f : Bytes} {r : Rec} {next : ℕ} (hr : r.Legible)
    (h : Stands f r.off (ptrField next ++ r.tail)) (hnext : (next : ℤ) ≤ ptrMax) :
    ReadsBack f r.off (ptrSz + idxlenSz + r.text.length) r.key next r.datoff
      (r.data.length + 1) := by
  intro ι _ p w db offset hfile hoff
  subst hfile
  refine (returns_dbReadidx hr h hnext hoff).mono ?_
  rintro x w' ⟨rfl, -, hpos⟩
  refine ⟨?_, rfl, rfl, rfl, rfl, rfl, hpos⟩
  rw [DB.atRec, Rec.buf, cstr_append hr.key_nul]

def idxLine (key : Bytes) (datoff : ℤ) (datlen : ℕ) : Bytes :=
  key ++ sep :: decimalInt datoff ++ sep :: decimal datlen ++ [newline]

/-- What `dbWriteidx` writes, `dbReadidx` gives back; and after a pointer has been written over it,
with that pointer and otherwise the same. -/
theorem dbReadidx_dbWriteidx {ι : Type} [DecidableEq ι] (p : ι) (w : World ι DbFile) (db : DB)
    (key : Bytes) (offset : ℤ) (whence : Whence) (ptrval : ℤ) (o : ℕ)
    (hplace : w.target p .idx offset whence = o)
    (hnul : (0 : UInt8) ∉ key) (hsep : sep ∉ key) (hptr : 0 ≤ ptrval ∧ ptrval ≤ ptrMax)
    (hoff : 0 ≤ db.datoff) (hlen : 1 ≤ db.datlen ∧ db.datlen ≤ datlenMax)
    (hline : idxlenMin ≤ (idxLine key db.datoff db.datlen).length ∧
      (idxLine key db.datoff db.datlen).length ≤ idxlenMax) :
    let len := ptrSz + idxlenSz + (idxLine key db.datoff db.datlen).length
    (dbWriteidx db key offset whence ptrval).Returns (perform p) w fun db₁ w₁ =>
      db₁.idxoff = o ∧ ReadsBack (w₁.file .idx) o len key ptrval db.datoff db.datlen ∧
        ∀ (q : ι) (w₂ : World ι DbFile) (ptrval' : ℤ), w₂.file .idx = w₁.file .idx →
          0 ≤ ptrval' → ptrval' ≤ ptrMax →
          (dbWriteptr o ptrval').Returns (perform q) w₂ fun _ w₃ =>
            ReadsBack (w₃.file .idx) o len key ptrval' db.datoff db.datlen := by
  obtain ⟨next, rfl⟩ := Int.eq_ofNat_of_zero_le hptr.1
  obtain ⟨datoff, hdatoff⟩ := Int.eq_ofNat_of_zero_le hoff
  let r : Rec := ⟨o, key, datoff, List.replicate (db.datlen - 1) space⟩
  have hdatlen : db.datlen = r.data.length + 1 := by
    rw [List.length_replicate]
    omega
  have htext : idxLine key db.datoff db.datlen = r.text := text_eq hdatoff hdatlen
  rw [htext] at hline ⊢
  have hr : r.Legible := ⟨hnul, hsep, hline.1, hline.2, hdatlen ▸ hlen.2⟩
  intro len
  refine (returns_dbWriteidx (r := r) hline.1 hline.2 hptr.2 hdatoff hdatlen hplace).mono ?_
  rintro db₁ w₁ ⟨rfl, hfile⟩
  have hstands : Stands (w₁.file .idx) r.off (ptrField next ++ r.tail) := by
    rw [hfile, Function.update_self]
    exact .of_writeAt _ _ _
  rw [hdatoff, hdatlen]
  refine ⟨rfl, readsBack_of_stands hr hstands hptr.2, ?_⟩
  intro q w₂ ptrval' hfile₂ hnonneg hmax
  obtain ⟨next', rfl⟩ := Int.eq_ofNat_of_zero_le hnonneg
  refine (returns_dbWriteptr hmax).mono ?_
  intro _ w₃ hfile₃
  refine readsBack_of_stands hr ?_ hmax
  have hne : ptrField next ++ r.tail ≠ [] := by simp [Rec.tail, Rec.text]
  have hlength : (ptrField next').length = (ptrField next).length := by
    rw [length_ptrField hmax, length_ptrField hptr.2]
  rw [hfile₃, Function.update_self, hfile₂]
  exact hstands.writeAt_left (by have := hstands.le_length hne; omega) hlength

/-- A record for the key `a` at the end of an index file, and its pointer written over. -/
theorem dbReadidx_dbWriteidx_sample :
    let w : World Unit DbFile := ⟨fun _ => [newline], fun _ _ => 0, fun _ _ _ => none⟩
    (dbWriteidx { freshDB with datlen := 2 } [97] 0 .seekEnd 42).Returns (perform ()) w
      fun _ w₁ => ReadsBack (w₁.file .idx) 1 17 [97] 42 0 2 ∧
        (dbWriteptr 1 5).Returns (perform ()) w₁ fun _ w₂ =>
          ReadsBack (w₂.file .idx) 1 17 [97] 5 0 2 := by
  intro w
  refine (dbReadidx_dbWriteidx () w { freshDB with datlen := 2 } [97] 0 .seekEnd 42 1
    (by decide) (by decide) (by decide) (by decide) (by decide) (by decide) (by decide)).mono ?_
  rintro db₁ w₁ ⟨-, hread, hptr⟩
  exact ⟨hread, hptr () w₁ 5 rfl (by decide) (by decide)⟩

end UnixPrograms.Db
