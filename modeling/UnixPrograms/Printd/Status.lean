import UnixPrograms.Lib.Arrivals
import UnixPrograms.Lib.Endings
import UnixPrograms.Lib.Text

/-!
# The printer's response

`printer_status` reads an HTTP header and an IPP header into a buffer and looks through it from the
start; when there is not enough, more is read behind it.  `datsz` is to be the number of bytes read
so far.

The buffer has not been cleared.  A load or store outside of it ends the program with an error here,
and so does a conversion in the printer's bytes where these are used as a format.
-/

namespace UnixPrograms.Status

def IOBUFSZ : ℕ := 8192

def httpInfo (code : ℤ) : Bool := 100 ≤ code ∧ code ≤ 199

def httpSuccess (code : ℤ) : Bool := 200 ≤ code ∧ code ≤ 299

def statclassOk (status : ℕ) : Bool := status ≤ 0xff

/-! ## The machine -/

structure Mem where
  buf : ℕ → UInt8
  size : ℕ
  fd : List Arrival
  datsz : ℕ
  received : ℕ
  /-- The values that were given to `datsz`, each with the number of bytes read by then. -/
  log : List (ℕ × ℕ)

/-- The memory with the bytes `bs` at `a`. -/
def putBytes (buf : ℕ → UInt8) : ℕ → Bytes → ℕ → UInt8
  | _, [] => buf
  | a, b :: bs => Function.update (putBytes buf (a + 1) bs) a b

inductive Cmd where
  | load (a : ℕ)
  | store (a : ℕ) (b : UInt8)
  | realloc (size : ℕ)
  /-- `tread` of at most `n` bytes to the address `a`. -/
  | tread (a n : ℕ)
  | getDatsz
  | setDatsz (n : ℕ)

/-- What it gets back. -/
abbrev Reply : Cmd → Type
  | .load _ => Option UInt8
  | .store _ _ => Bool
  | .realloc _ => Unit
  | .tread _ _ => ℤ
  | .getDatsz => ℕ
  | .setDatsz _ => Unit

inductive Fault where
  | undefined

def run : (c : Cmd) → Mem → Reply c × Mem
  | .load a, m => (if a < m.size then some (m.buf a) else none, m)
  | .store a b, m =>
    if a < m.size then (true, { m with buf := Function.update m.buf a b }) else (false, m)
  | .realloc size, m => ((), { m with size := size })
  | .tread a n, m =>
    match readFd n m.fd with
    | (.ok bs, fd) =>
      ((bs.length : ℤ),
        { m with buf := putBytes m.buf a bs, fd := fd, received := m.received + bs.length })
    | (.error _, fd) => ((-1 : ℤ), { m with fd := fd })
  | .getDatsz, m => (m.datsz, m)
  | .setDatsz n, m => ((), { m with datsz := n, log := (n, m.received) :: m.log })

abbrev Code := Prog Cmd Reply Fault

/-! ## The program -/

def loadByte (cp : ℕ) : Code UInt8 :=
  .call (.load cp) fun (r : Option UInt8) =>
    match r with
    | some b => .ret b
    | none => .fail .undefined

def storeByte (cp : ℕ) (b : UInt8) : Code Unit :=
  .call (.store cp b) fun (inside : Bool) => if inside then .ret () else .fail .undefined

def tread (a n : ℕ) : Code ℤ := .call (.tread a n) fun (nr : ℤ) => .ret nr

def getDatsz : Code ℕ := .call .getDatsz fun (n : ℕ) => .ret n

def setDatsz (n : ℕ) : Code Unit := .call (.setDatsz n) fun _ => .ret ()

def realloc (size : ℕ) : Code Unit := .call (.realloc size) fun _ => .ret ()

def skipWhile (p : UInt8 → Bool) (cp : ℕ) : Code ℕ :=
  .repeatFrom cp fun cp => do
    let c ← loadByte cp
    if p c then return .inl (cp + 1) else return .inr cp

def loadString (cp : ℕ) : Code Bytes :=
  .repeatFrom (cp, []) fun (cp, s) => do
    let c ← loadByte cp
    if c = 0 then return .inr s else return .inl (cp + 1, s ++ [c])

/-- The value that `atoi` gives, `(int) strtol(s, NULL, 10)`: a number out of the range of a `long`
is the limit, and the lower half is kept. -/
def atoiValue (s : Bytes) : ℤ := (Int64.ofIntClamp (atol s)).toInt32.toInt

def atoi (cp : ℕ) : Code ℤ := do return atoiValue (← loadString cp)

/-- The format has no conversion, for which an argument would be missing. -/
def plainFormat : Bytes → Bool
  | 37 :: c :: cs => c = 37 && plainFormat cs
  | c :: cs => c ≠ 37 && plainFormat cs
  | [] => true

/-- `log_msg(bp)`: the bytes at `fmt` are the format. -/
def logMsg (fmt : ℕ) : Code Unit := do
  if plainFormat (← loadString fmt) then return () else .fail .undefined

def tolower (c : UInt8) : UInt8 := if 65 ≤ c ∧ c ≤ 90 then c + 32 else c

/-- `strncasecmp` with a text in lower case, of its length: whether they are equal. -/
def strncasecmp (cp : ℕ) : Bytes → Code Bool
  | [] => return true
  | c :: cs => do
    let b ← loadByte cp
    if tolower b = c then strncasecmp (cp + 1) cs else return false

def contentLength : Bytes := ascii "content-length:"

/-- `readmore`: the offset of the end of the data or `none` on failure, and the size of the
buffer. -/
def readmore (off bufsz : ℕ) : Code (Option ℕ × ℕ) := do
  let bsz ←
    if off ≥ bufsz then do
      realloc (bufsz + IOBUFSZ)
      pure (bufsz + IOBUFSZ)
    else pure bufsz
  let nr ← tread off (bsz - off)
  if nr > 0 then return (some (off + nr.toNat), bsz) else return (none, bsz)

/-- Get more: the size of the buffer, or `none` for `goto out`.  Then `cp` is `&bp[i]`. -/
def getMore (i bufsz : ℕ) : Code (Option ℕ) := do
  match ← readmore i bufsz with
  | (none, _) => return none
  | (some nr, bufsz) =>
    let datsz ← getDatsz
    setDatsz (datsz + nr)
    return some bufsz

def skipToC (cp i : ℕ) : Code (ℕ × ℕ) :=
  .repeatFrom (cp, i) fun (cp, i) => do
    let c ← loadByte cp
    let datsz ← getDatsz
    if c ≠ 67 ∧ c ≠ 99 ∧ i < datsz then return .inl (cp + 1, i + 1) else return .inr (cp, i)

/-- The number behind `Content-Length:`: `cp` and the number. -/
def getLength (cp : ℕ) : Code (ℕ × ℤ) := do
  let contentlen ← skipWhile isSpace (cp + 15)
  let cp ← skipWhile isDigit contentlen
  storeByte cp 0
  let len ← atoi contentlen
  return (cp + 1, len)

/-- The search for `Content-Length:`: `cp`, `i`, `len` and `bufsz`, or `none` for `goto out`. -/
def findLength (cp i bufsz : ℕ) : Code (Option (ℕ × ℕ × ℤ × ℕ)) :=
  .repeatFrom (cp, i, bufsz) fun (cp, i, bufsz) => do
    let (cp, i) ← skipToC cp i
    let datsz ← getDatsz
    let more ← if i ≥ datsz then do
        match ← getMore i bufsz with
        | none => pure none
        | some bufsz => pure (some (i, bufsz))
      else pure (some (cp, bufsz))
    match more with
    | none => return .inr none
    | some (cp, bufsz) =>
      if ← strncasecmp cp contentLength then do
        let (cp, len) ← getLength cp
        return .inr (some (cp, cp, len, bufsz))
      else return .inl (cp + 1, i + 1, bufsz)

/-- Get more header if `i` is behind the data: `cp` and `bufsz`, or `none` for `goto out`. -/
def moreHeader (cp i bufsz : ℕ) : Code (Option (ℕ × ℕ)) := do
  let datsz ← getDatsz
  if i ≥ datsz then do
    match ← getMore i bufsz with
    | none => return none
    | some bufsz => return some (i, bufsz)
  else return some (cp, bufsz)

/-- `*cp == '\n' && *(cp + 1) == '\r' && *(cp + 2) == '\n'`. -/
def atHeaderEnd (cp : ℕ) : Code Bool := do
  let c ← loadByte cp
  if c = 10 then do
    let c ← loadByte (cp + 1)
    if c = 13 then do
      let c ← loadByte (cp + 2)
      return decide (c = 10)
    else return false
  else return false

/-- The inner loop of the search for the end of the header: `found`, `cp` and `i`. -/
def scanEnd (cp i : ℕ) : Code (Bool × ℕ × ℕ) :=
  .repeatFrom (cp, i) fun (cp, i) => do
    let datsz ← getDatsz
    if i + 2 < datsz then do
      if ← atHeaderEnd cp then return .inr (true, cp + 3, i + 3) else return .inl (cp + 1, i + 1)
    else return .inr (false, cp, i)

/-- The search for the end of the header: `cp`, `i` and `bufsz`, or `none` for `goto out`. -/
def findEnd (cp i bufsz : ℕ) : Code (Option (ℕ × ℕ × ℕ)) :=
  .repeatFrom (cp, i, bufsz) fun (cp, i, bufsz) => do
    let (found, cp, i) ← scanEnd cp i
    match ← moreHeader cp i bufsz with
    | none => return .inr none
    | some (cp, bufsz) =>
      if found then return .inr (some (cp, i, bufsz)) else return .inl (cp, i, bufsz)

/-- `ntohs(hp->status)` and `ntohl(hp->request_id)`. -/
def loadIpp (hp : ℕ) : Code (ℕ × ℕ) := do
  let s₀ ← loadByte (hp + 2)
  let s₁ ← loadByte (hp + 3)
  let r₀ ← loadByte (hp + 4)
  let r₁ ← loadByte (hp + 5)
  let r₂ ← loadByte (hp + 6)
  let r₃ ← loadByte (hp + 7)
  return (s₀.toNat * 2 ^ 8 + s₁.toNat,
    r₀.toNat * 2 ^ 24 + r₁.toNat * 2 ^ 16 + r₂.toNat * 2 ^ 8 + r₃.toNat)

/-- Get more if less than `len` bytes are behind `i`: `cp`, or `none` for `goto out`. -/
def moreBody (cp i : ℕ) (len : ℤ) (bufsz : ℕ) : Code (Option ℕ) := do
  let datsz ← getDatsz
  if (datsz : ℤ) - i < len then do
    match ← getMore i bufsz with
    | none => return none
    | some _ => return some i
  else return some cp

/-- The verdict on the IPP header at `hp`: `success`. -/
def ippSuccess (jobid hp : ℕ) : Code Bool := do
  let (status, id) ← loadIpp hp
  if id ≠ jobid then return false else return statclassOk status

/-- The part of `printer_status` behind a status code for success, from the end of the status
line on. -/
def ippStatus (jobid cp bufsz : ℕ) : Code Bool := do
  match ← findLength cp cp bufsz with
  | none => return false
  | some (cp, i, len, bufsz) =>
    match ← moreHeader cp i bufsz with
    | none => return false
    | some (cp, bufsz) =>
      match ← findEnd cp i bufsz with
      | none => return false
      | some (cp, i, bufsz) =>
        match ← moreBody cp i len bufsz with
        | none => return false
        | some cp => ippSuccess jobid cp

/-- The status code and the end of the status line, or `none` if there is no status code.  A NUL is
put behind each. -/
def statusCode : Code (Option (ℤ × ℕ)) := do
  let statcode ← skipWhile isSpace 8
  let cp ← skipWhile isDigit statcode
  if cp = statcode then return none
  else do
    storeByte cp 0
    let cp ← skipWhile (fun c => c ≠ 13 ∧ c ≠ 10) (cp + 1)
    storeByte cp 0
    let code ← atoi statcode
    return some (code, cp)

/-- `printer_status` for the job with the ID `jobid`, from the `while` on. -/
def printerStatus (jobid : ℕ) : Code Bool :=
  .repeatFrom () fun () => do
    let nr ← tread 0 IOBUFSZ
    if nr > 0 then do
      setDatsz nr.toNat
      match ← statusCode with
      -- bad format; log it and move on
      | none => do
        logMsg 0
        return .inl ()
      | some (code, cp) =>
        if httpInfo code then return .inl ()
        else if httpSuccess code then return .inr (← ippStatus jobid cp IOBUFSZ)
        else do
          let datsz ← getDatsz
          storeByte datsz 0
          return .inr false
    else return .inr false

end UnixPrograms.Status
