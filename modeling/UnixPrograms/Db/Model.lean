import UnixPrograms.Lib.Text

/-!
# The database library

A model of `apue.3e/db/db.c`.  The index file begins with a table of ASCII pointers, the heads of
the free list and of `nhash` hash chains; then come index records, each with a pointer to the next
one of its chain, its length and a line `key:datoff:datlen`.  The data file holds the data records.

Every function is a program of system calls, with the structure `DB` passed along; `err_dump` and
`err_quit` end it.  Left out are the counters `cnt_*`, failures of system calls that the library
does not cause, and the names of the files.  Buffers are as long as what is in them: a record of
more than `IDXLEN_MAX + 1` bytes overruns `idxbuf` before its length is checked, and lengths of
2 GiB do not fit in an `int`; neither is modelled.
-/

namespace UnixPrograms.Db

/-! ## Constants -/

def idxlenSz : ℕ := 4
def sep : UInt8 := 58
def space : UInt8 := 32
def newline : UInt8 := 10
def ptrSz : ℕ := 7
def ptrMax : ℤ := 9999999
def nhashDef : ℕ := 137
def freeOff : ℕ := 0
def hashOff : ℕ := ptrSz
def idxlenMin : ℕ := 6
def idxlenMax : ℕ := 1024
def datlenMin : ℕ := 2
def datlenMax : ℕ := 1024
def dbInsert : ℤ := 1
def dbReplace : ℤ := 2
def dbStoreFlag : ℤ := 3

inductive DbFile
  | idx
  | dat
  deriving DecidableEq

instance : Fintype DbFile := ⟨{.idx, .dat}, fun fd => by cases fd <;> decide⟩

inductive DbError
  | openInitWrite
  | rewindLseek
  | readptrLseek
  | readptrRead
  | readidxLseek
  | readidxReadv
  | readidxIdxlen
  | readidxRead
  | readidxNewline
  | readidxFirstSep
  | readidxSecondSep
  | readidxTooManySeps
  | readidxDatoff
  | readidxDatlen
  | readdatLseek
  | readdatRead
  | readdatNewline
  | writedatLseek
  | writedatWritev
  | writeidxPtr (ptrval : ℤ)
  | writeidxLength
  | writeidxLseek
  | writeidxWritev
  | writeptrPtr (ptrval : ℤ)
  | writeptrLseek
  | writeptrWrite
  | storeDatlen
  deriving DecidableEq

/-- The library's private representation of the database, as far as it is read. -/
structure DB where
  idxbuf : Bytes
  datbuf : Bytes
  /-- Offset in the index file of the index record. -/
  idxoff : ℤ
  idxlen : ℕ
  datoff : ℤ
  /-- Length of the data record, with the newline at its end. -/
  datlen : ℕ
  /-- Contents of the chain pointer in the index record. -/
  ptrval : ℤ
  /-- Offset of the chain pointer that points to this index record. -/
  ptroff : ℤ
  /-- Offset of the hash chain for this index record. -/
  chainoff : ℕ
  hashoff : ℕ
  nhash : ℕ
  deriving DecidableEq

/-- The programs of this library. -/
abbrev DbProg := FileProg DbFile DbError

/-! ## System calls -/

def lseek (fd : DbFile) (offset : ℤ) (whence : Whence) : DbProg ℤ :=
  .perform (Sys.lseek fd offset whence)

def read (fd : DbFile) (n : ℕ) : DbProg Bytes := .perform (Sys.read fd n)

def write (fd : DbFile) (bs : Bytes) : DbProg ℕ := .perform (Sys.write fd bs)

def fstat (fd : DbFile) : DbProg ℕ := .perform (Sys.fstat fd)

def readwLock (fd : DbFile) (start len : ℕ) : DbProg Unit :=
  .perform (Sys.setlkw fd .read start len)

def writewLock (fd : DbFile) (start len : ℕ) : DbProg Unit :=
  .perform (Sys.setlkw fd .write start len)

def unLock (fd : DbFile) (start len : ℕ) : DbProg Unit := .perform (Sys.unlck fd start len)

/-! ## Internal functions -/

/-- The sum in `dbHash`: each character, as a signed one, times its index. -/
def hashLoop (i : ℤ) (hval : UInt64) : Bytes → UInt64
  | [] => hval
  | c :: cs => hashLoop (i + 1) (hval + UInt64.ofInt (c.toInt8.toInt * i)) cs

def dbHash (nhash : ℕ) (key : Bytes) : ℕ := (hashLoop 1 0 key).toNat % nhash

def dbReadptr (offset : ℤ) : DbProg ℤ := do
  let pos ← lseek .idx offset .seekSet
  .require (pos ≠ -1) .readptrLseek
  let asciiptr ← read .idx ptrSz
  .require (asciiptr.length = ptrSz) .readptrRead
  return atol asciiptr

/-- The index record in the buffer `buf`, cut into strings by null bytes, with the offset and the
length of its data record. -/
def splitRecord (db : DB) (buf : Bytes) : DbProg DB := do
  match strchr buf sep with
  | none => .fail .readidxFirstSep
  | some i =>
    let buf := buf.set i 0
    let ptr1 := i + 1
    match strchr (buf.drop ptr1) sep with
    | none => .fail .readidxSecondSep
    | some j =>
      let buf := buf.set (ptr1 + j) 0
      let ptr2 := ptr1 + j + 1
      .require (strchr (buf.drop ptr2) sep = none) .readidxTooManySeps
      let datoff := atol (buf.drop ptr1)
      .require (0 ≤ datoff) .readidxDatoff
      let datlen := atol (buf.drop ptr2)
      -- as a `size_t`, a negative length is above the limit
      .require (0 < datlen ∧ datlen ≤ datlenMax) .readidxDatlen
      return { db with idxbuf := buf, datoff := datoff, datlen := datlen.toNat }

/-- Read an index record, the one at `offset` or, for an offset of 0, the next one in the file; give
the offset of the next record on the chain, or -1 at the end of the file. -/
def dbReadidx (db : DB) (offset : ℤ) : DbProg (ℤ × DB) := do
  let idxoff ← lseek .idx offset (if offset = 0 then .seekCur else .seekSet)
  .require (idxoff ≠ -1) .readidxLseek
  let db := { db with idxoff := idxoff }
  let front ← read .idx (ptrSz + idxlenSz)
  if front.length ≠ ptrSz + idxlenSz then
    if front.length = 0 ∧ offset = 0 then return (-1, db) else .fail .readidxReadv
  else
    let db := { db with ptrval := atol (front.take ptrSz) }
    let idxlen := atol (front.drop ptrSz)
    .require (idxlenMin ≤ idxlen ∧ idxlen ≤ idxlenMax) .readidxIdxlen
    let db := { db with idxlen := idxlen.toNat }
    let buf ← read .idx db.idxlen
    .require (buf.length = db.idxlen) .readidxRead
    .require (buf.getLast? = some newline) .readidxNewline
    let db ← splitRecord db (buf.dropLast ++ [0])
    return (db.ptrval, db)

def findStep (key : CString) : ℤ × DB → DbProg ((ℤ × DB) ⊕ (ℤ × DB))
  | (offset, db) => do
    if offset = 0 then return .inr (offset, db)
    let (nextoffset, db) ← dbReadidx db offset
    if cstr db.idxbuf = key then return .inr (offset, db)
    return .inl (nextoffset, { db with ptroff := offset })

/-- Find the record with the given key, and return with the hash chain locked. -/
def dbFindAndLock (db : DB) (key : CString) (writelock : Bool) : DbProg (ℤ × DB) := do
  let chainoff := dbHash db.nhash key * ptrSz + db.hashoff
  let db := { db with chainoff := chainoff, ptroff := chainoff }
  if writelock then writewLock .idx db.chainoff 1 else readwLock .idx db.chainoff 1
  let offset ← dbReadptr db.ptroff
  let (offset, db) ← Prog.repeatFrom (offset, db) (findStep key)
  return (if offset = 0 then -1 else 0, db)

def dbReaddat (db : DB) : DbProg (Bytes × DB) := do
  let pos ← lseek .dat db.datoff .seekSet
  .require (pos ≠ -1) .readdatLseek
  let buf ← read .dat db.datlen
  .require (buf.length = db.datlen) .readdatRead
  .require (buf.getLast? = some newline) .readdatNewline
  let db := { db with datbuf := buf.dropLast ++ [0] }
  return (cstr db.datbuf, db)

def dbWritedat (db : DB) (data : Bytes) (offset : ℤ) (whence : Whence) : DbProg DB := do
  if whence = .seekEnd then writewLock .dat 0 0
  let datoff ← lseek .dat offset whence
  .require (datoff ≠ -1) .writedatLseek
  let db := { db with datoff := datoff, datlen := data.length + 1 }
  let n ← write .dat (data ++ [newline])
  .require (n = db.datlen) .writedatWritev
  if whence = .seekEnd then unLock .dat 0 0
  return db

/-- Write an index record for the data record that `db` speaks of, over an existing one or at the
end of the file. -/
def dbWriteidx (db : DB) (key : Bytes) (offset : ℤ) (whence : Whence) (ptrval : ℤ) : DbProg DB := do
  .require (0 ≤ ptrval ∧ ptrval ≤ ptrMax) (.writeidxPtr ptrval)
  let text := key ++ sep :: decimalInt db.datoff ++ sep :: decimal db.datlen ++ [newline]
  let len := text.length
  .require (idxlenMin ≤ len ∧ len ≤ idxlenMax) .writeidxLength
  let asciiptrlen := padLeft ptrSz (decimalInt ptrval) ++ padLeft idxlenSz (decimal len)
  if whence = .seekEnd then writewLock .idx ((db.nhash + 1) * ptrSz + 1) 0
  let idxoff ← lseek .idx offset whence
  .require (idxoff ≠ -1) .writeidxLseek
  let n ← write .idx (asciiptrlen ++ text)
  .require (n = ptrSz + idxlenSz + len) .writeidxWritev
  if whence = .seekEnd then unLock .idx ((db.nhash + 1) * ptrSz + 1) 0
  return { db with ptrval := ptrval, idxbuf := text ++ [0], idxoff := idxoff }

def dbWriteptr (offset ptrval : ℤ) : DbProg Unit := do
  .require (0 ≤ ptrval ∧ ptrval ≤ ptrMax) (.writeptrPtr ptrval)
  let asciiptr := padLeft ptrSz (decimalInt ptrval)
  let pos ← lseek .idx offset .seekSet
  .require (pos ≠ -1) .writeptrLseek
  let n ← write .idx asciiptr
  .require (n = ptrSz) .writeptrWrite

def blankString (buf : Bytes) : Bytes :=
  List.replicate (cstr buf).length space ++ buf.drop (cstr buf).length

/-- Delete the current record: blank it, put it on the free list, take it off its chain.  The source
prints the blanked key into the buffer it stands in; this is taken to leave it in place. -/
def dbDodelete (db : DB) : DbProg DB := do
  let db := { db with
    datbuf := List.replicate (db.datlen - 1) space ++ 0 :: db.datbuf.drop db.datlen
    idxbuf := blankString db.idxbuf }
  writewLock .idx freeOff 1
  let db ← dbWritedat db (cstr db.datbuf) db.datoff .seekSet
  let freeptr ← dbReadptr freeOff
  let saveptr := db.ptrval
  let db ← dbWriteidx db (cstr db.idxbuf) db.idxoff .seekSet freeptr
  dbWriteptr freeOff db.idxoff
  dbWriteptr db.ptroff saveptr
  unLock .idx freeOff 1
  return db

def freeStep (keylen datlen : ℕ) : ℤ × ℤ × DB → DbProg ((ℤ × ℤ × DB) ⊕ (ℤ × ℤ × DB))
  | (saveoffset, offset, db) => do
    if offset = 0 then return .inr (saveoffset, offset, db)
    let (nextoffset, db) ← dbReadidx db offset
    if (cstr db.idxbuf).length = keylen ∧ db.datlen = datlen then
      return .inr (saveoffset, offset, db)
    return .inl (offset, nextoffset, db)

/-- Take a free record with a key and data of these lengths off the free list. -/
def dbFindfree (db : DB) (keylen datlen : ℕ) : DbProg (ℤ × DB) := do
  writewLock .idx freeOff 1
  let offset ← dbReadptr freeOff
  let (saveoffset, offset, db) ← Prog.repeatFrom ((freeOff : ℤ), offset, db)
    (freeStep keylen datlen)
  let rc ← if offset = 0 then pure (-1) else do
    dbWriteptr saveoffset db.ptrval
    -- no system call of the source: the record now belongs to this call
    .perform (Sys.note .idx db.idxoff.toNat)
    pure 0
  unLock .idx freeOff 1
  return (rc, db)

/-! ## The functions of the library -/

def dbRewind (db : DB) : DbProg DB := do
  let offset := (db.nhash + 1) * ptrSz
  let idxoff ← lseek .idx (offset + 1 : ℕ) .seekSet
  .require (idxoff ≠ -1) .rewindLseek
  return { db with idxoff := idxoff }

def emptyTable : Bytes :=
  (List.replicate (nhashDef + 1) (padLeft ptrSz (decimal 0))).flatten ++ [newline]

def freshDB : DB where
  idxbuf := []
  datbuf := []
  idxoff := 0
  idxlen := 0
  datoff := 0
  datlen := 0
  ptrval := 0
  ptroff := 0
  chainoff := 0
  hashoff := hashOff
  nhash := nhashDef

/-- Open a database whose files are open; `create` is `O_CREAT | O_TRUNC`, where the `open` itself
has truncated the files. -/
def dbOpen (create : Bool) : DbProg DB := do
  if create then
    writewLock .idx 0 0
    let size ← fstat .idx
    if size = 0 then
      let n ← write .idx emptyTable
      .require (n = emptyTable.length) .openInitWrite
    unLock .idx 0 0
  dbRewind freshDB

def dbFetch (db : DB) (key : CString) : DbProg (Option Bytes × DB) := do
  let (rc, db) ← dbFindAndLock db key false
  let (ptr, db) ← if rc < 0 then pure (none, db) else do
    let (buf, db) ← dbReaddat db
    pure (some buf, db)
  unLock .idx db.chainoff 1
  return (ptr, db)

def dbDelete (db : DB) (key : CString) : DbProg (ℤ × DB) := do
  let (rc, db) ← dbFindAndLock db key true
  let (rc, db) ← if rc = 0 then do
      let db ← dbDodelete db
      pure (0, db)
    else pure (-1, db)
  unLock .idx db.chainoff 1
  return (rc, db)

def appendRecord (db : DB) (key data : CString) (ptrval : ℤ) : DbProg (ℤ × DB) := do
  let db ← dbWritedat db data 0 .seekEnd
  let db ← dbWriteidx db key 0 .seekEnd ptrval
  dbWriteptr db.chainoff db.idxoff
  return (0, db)

def storeNew (db : DB) (key data : CString) (flag : ℤ) : DbProg (ℤ × DB) := do
  if flag = dbReplace then return (-1, db)
  let ptrval ← dbReadptr db.chainoff
  let (rc, db) ← dbFindfree db key.val.length (data.val.length + 1)
  if rc < 0 then appendRecord db key data ptrval
  else do
    -- reuse the record that `dbFindfree` has found
    let db ← dbWritedat db data db.datoff .seekSet
    let db ← dbWriteidx db key db.idxoff .seekSet ptrval
    dbWriteptr db.chainoff db.idxoff
    return (0, db)

def storeOld (db : DB) (key data : CString) (flag : ℤ) : DbProg (ℤ × DB) := do
  if flag = dbInsert then return (1, db)
  if data.val.length + 1 ≠ db.datlen then
    let db ← dbDodelete db
    let ptrval ← dbReadptr db.chainoff
    appendRecord db key data ptrval
  else do
    let db ← dbWritedat db data db.datoff .seekSet
    return (0, db)

/-- Store a record: 0, or 1 if there is one and the flag is `dbInsert`, or -1 if there is none and
the flag is `dbReplace`, or if the flag is none of the three. -/
def dbStore (db : DB) (key data : CString) (flag : ℤ) : DbProg (ℤ × DB) := do
  if flag ≠ dbInsert ∧ flag ≠ dbReplace ∧ flag ≠ dbStoreFlag then return (-1, db)
  .require (datlenMin ≤ data.val.length + 1 ∧ data.val.length + 1 ≤ datlenMax) .storeDatlen
  let (rc, db) ← dbFindAndLock db key true
  let (rc, db) ← if rc < 0 then storeNew db key data flag else storeOld db key data flag
  unLock .idx db.chainoff 1
  return (rc, db)

def nextStep (db : DB) : DbProg (DB ⊕ (Bool × DB)) := do
  let (rc, db) ← dbReadidx db 0
  if rc < 0 then return .inr (false, db)
  if (cstr db.idxbuf).all (· == space) then return .inl db
  return .inr (true, db)

/-- Go to the next record in the index file that is not empty: its key and its data, or `none` at
the end of the file. -/
def dbNextrec (db : DB) : DbProg (Option (Bytes × Bytes) × DB) := do
  readwLock .idx freeOff 1
  let (found, db) ← Prog.repeatFrom db nextStep
  let (ptr, db) ← if found then do
      let key := cstr db.idxbuf
      let (buf, db) ← dbReaddat db
      pure (some (key, buf), db)
    else pure (none, db)
  unLock .idx freeOff 1
  return (ptr, db)

/-! ## Calls of the library -/

inductive Op
  | fetch (key : CString)
  | delete (key : CString)
  | store (key data : CString) (flag : ℤ)
  deriving DecidableEq

inductive Val
  | data (ptr : Option Bytes)
  | status (rc : ℤ)
  deriving DecidableEq

def library : Library DbFile DbError Op DB Val
  | .fetch key, db => do
    let (ptr, db) ← dbFetch db key
    return (.data ptr, db)
  | .delete key, db => do
    let (rc, db) ← dbDelete db key
    return (.status rc, db)
  | .store key data flag, db => do
    let (rc, db) ← dbStore db key data flag
    return (.status rc, db)

end UnixPrograms.Db
