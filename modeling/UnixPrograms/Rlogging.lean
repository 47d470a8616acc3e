import UnixPrograms.Lib.Frames

/-!
# Messages to a log: rlogging.c

A message is sent as one frame: its length, a colon, a time stamp if `lsendtime` has been called,
the generator, a semicolon and the text.  What has been sent can be read in one way only, if the
time stamp fits its 20 bytes (`log_parses_iff`).

`Env` is what a call gets from outside.  A `write` sends the whole buffer or nothing.  Left out are
the messages on `stderr`, null pointers and the mutexes.
-/

namespace UnixPrograms.Rlogging

open List Option

def LOGGING_BUFSIZE : ℕ := 4096
def LOGGING_GENMAX : ℕ := 50
def LFILE_GENLENGTH : ℕ := 16
def TIMESBUF : ℕ := 20

structure Build where
  LUSETHREAD : Bool
  NOTHREADID : Bool

structure LFILE where
  tmode : Bool
  gen : CString
  gen_lt : gen.val.length < LFILE_GENLENGTH

structure Env where
  pid : ℤ
  self : ℤ
  /-- Seconds and microseconds, unless `gettimeofday` fails. -/
  times : Option (UInt64 × Fin 1000000)
  /-- The string that `make_time_string` makes of them.  It reads what `ctime` returns, which is a
  null pointer if the year is too large: then there is none. -/
  timeString : Option { s : CString // s.val.length = 12 }
  /-- What `vsnprintf` makes of a format and the arguments, unless it fails. -/
  vsnprintf : Bytes → Option Bytes
  /-- The `write` to the pipe succeeds. -/
  write : Bool

/-- The first place of the string `pat` in `s`. -/
def strstr (s pat : Bytes) : Option ℕ :=
  (List.range (s.length + 1)).find? fun i => pat.isPrefixOf (s.drop i)

def getThreadid (b : Build) (env : Env) : ℤ :=
  if b.NOTHREADID then 0 else if b.LUSETHREAD then env.self else 1

def expanded (b : Build) (env : Env) (genFmt : Bytes) : Bytes :=
  let pid := decimalInt env.pid
  let tid := decimalInt (getThreadid b env)
  if genFmt = [] then
    if b.LUSETHREAD ∧ ¬ b.NOTHREADID then pid ++ ascii "." ++ tid else pid
  else
    match strstr genFmt (ascii "%p"), strstr genFmt (ascii "%t") with
    | none, none => genFmt
    | some pp, none => genFmt.take pp ++ pid ++ genFmt.drop (pp + 2)
    | none, some pt => genFmt.take pt ++ tid ++ genFmt.drop (pt + 2)
    | some pp, some pt =>
      if pp < pt then
        genFmt.take pp ++ pid ++ (genFmt.drop (pp + 2)).take (pt - pp - 2) ++ tid ++
          genFmt.drop (pt + 2)
      else
        genFmt.take pt ++ tid ++ (genFmt.drop (pt + 2)).take (pp - pt - 2) ++ pid ++
          genFmt.drop (pp + 2)

/-- `expand_gen`: whether the generator does not fit, and the string in the buffer. -/
def expandGen (b : Build) (env : Env) (genFmt : Bytes) (gensize : ℕ) : ℤ × Bytes :=
  (if gensize ≤ (expanded b env genFmt).length then 1 else 0,
    (expanded b env genFmt).take (gensize - 1))

/-- What is in front of a message: seconds and microseconds, or nothing. -/
def timestamp (tmode : Bool) (env : Env) : Bytes :=
  if tmode then
    let (sec, usec) := env.times.getD (0, 0)
    decimal sec.toNat ++ ascii ";" ++ decimal usec.val ++ ascii ";"
  else []

/-- What `vsnprintf` makes of the format with the time in place of `%t`, or `some none` after an
error; `none` if `make_time_string` reads a null pointer. -/
def format (env : Env) (fmt : Bytes) : Option (Option Bytes) :=
  match strstr fmt (ascii "%t") with
  | none => some (env.vsnprintf fmt)
  | some timep =>
    env.timeString.map fun timebuf =>
      if LOGGING_BUFSIZE ≤ fmt.length + 13 then none
      else env.vsnprintf (fmt.take timep ++ timebuf.val.val ++ fmt.drop (timep + 2))

/-- The second half of `lprintfgen`, with the time stamp in `timesbuf` and the text in
`buftemp`: the return value, and what has been written. -/
def sendFrame (b : Build) (env : Env) (gen timesbuf buftemp : Bytes) : ℤ × Bytes :=
  let genbuf := (expandGen b env gen LOGGING_GENMAX).2
  let blen := buftemp.length + genbuf.length + timesbuf.length
  let buf := decimal (blen + 1) ++ ascii ":" ++ timesbuf ++ genbuf ++ ascii ";" ++ buftemp
  if LOGGING_BUFSIZE ≤ buf.length then (-1, [])
  else if env.write then (0, buf) else (-1, [])

/-- `lprintfgen`: the return value, and what has been written.  It is `none` if `sprintf` runs over
the end of `timesbuf` or `make_time_string` reads a null pointer. -/
def lprintfgen (b : Build) (mf : LFILE) (gen fmt : Bytes) (env : Env) : Option (ℤ × Bytes) :=
  if (mf.tmode ∨ (strstr fmt (ascii "%t")).isSome) ∧ env.times = none then some (-1, [])
  else
    let timesbuf := timestamp mf.tmode env
    if TIMESBUF < timesbuf.length + 1 then none
    else
      match format env fmt with
      | none => none
      | some none => some (-1, [])
      | some (some text) =>
        if LOGGING_BUFSIZE ≤ text.length then some (-1, [])
        else some (sendFrame b env gen timesbuf (cstr text))

inductive Call
  | lprintf (fmt : CString) (env : Env)
  | lprintfg (gen fmt : CString) (env : Env)
  | lgenerator (gen : CString)
  /-- The `write` of the mark succeeds or fails. -/
  | lsendtime (write : Bool)

/-- The log after a call. -/
def LFILE.next (mf : LFILE) : Call → LFILE
  | .lprintf .. | .lprintfg .. => mf
  | .lgenerator gen =>
    if h : LFILE_GENLENGTH ≤ gen.val.length then mf else ⟨mf.tmode, gen, not_le.mp h⟩
  | .lsendtime _ => ⟨true, mf.gen, mf.gen_lt⟩

def perform (b : Build) (mf : LFILE) : Call → Option (ℤ × Bytes)
  | .lprintf fmt env => lprintfgen b mf mf.gen fmt env
  | .lprintfg gen fmt env => lprintfgen b mf gen fmt env
  | .lgenerator gen => some (if LFILE_GENLENGTH ≤ gen.val.length then -1 else 0, [])
  | .lsendtime write => some (if write then (0, ascii "-") else (-1, []))

structure Done where
  mf : LFILE
  call : Call
  ret : ℤ
  out : Bytes

def run (b : Build) (mf : LFILE) : List Call → Option (List Done)
  | [] => some []
  | c :: cs =>
    match perform b mf c, run b (mf.next c) cs with
    | some (ret, out), some ds => some (⟨mf, c, ret, out⟩ :: ds)
    | _, _ => none

def output (ds : List Done) : Bytes := ds.flatMap Done.out

def text (env : Env) (fmt : Bytes) : Bytes :=
  match format env fmt with
  | some (some text) => cstr text
  | _ => []

def body (b : Build) (tmode : Bool) (gen fmt : Bytes) (env : Env) : Bytes :=
  timestamp tmode env ++ ((expanded b env gen).take (LOGGING_GENMAX - 1) ++ ascii ";" ++
    text env fmt)

/-- What a reader should find of a call: a mark, a frame, or nothing if it failed. -/
def Done.items (b : Build) (d : Done) : List Item :=
  if d.ret ≠ 0 then []
  else
    match d.call with
    | .lprintf fmt env => [.frame (body b d.mf.tmode d.mf.gen fmt env)]
    | .lprintfg gen fmt env => [.frame (body b d.mf.tmode gen fmt env)]
    | .lgenerator _ => []
    | .lsendtime _ => [.mark]

/-- The time can be written where the code puts it: the time stamp fits its buffer, and `ctime`
knows the time if the format asks for it. -/
def Printable (tmode : Bool) (fmt : Bytes) (env : Env) : Prop :=
  env.times ≠ none →
    (timestamp tmode env).length < TIMESBUF ∧
      ((strstr fmt (ascii "%t")).isSome → env.timeString ≠ none)

def Call.Printable (tmode : Bool) : Call → Prop
  | .lprintf fmt env | .lprintfg _ fmt env => Rlogging.Printable tmode fmt env
  | .lgenerator _ | .lsendtime _ => True

def AllPrintable (mf : LFILE) : List Call → Prop
  | [] => True
  | c :: cs => c.Printable mf.tmode ∧ AllPrintable (mf.next c) cs

section Frame

variable {b : Build} {mf : LFILE} {env : Env} {gen fmt : Bytes} {ret : ℤ} {out : Bytes}

lemma format_eq_none_iff :
    format env fmt = none ↔ (strstr fmt (ascii "%t")).isSome ∧ env.timeString = none := by
  unfold format
  cases strstr fmt (ascii "%t") with
  | none => simp
  | some timep => simp

lemma Printable.of_no_time (env : Env) (htmode : mf.tmode = false)
    (hfmt : ¬ (strstr fmt (ascii "%t")).isSome) :
    (timestamp mf.tmode env).length < TIMESBUF ∧
      ((strstr fmt (ascii "%t")).isSome → env.timeString ≠ none) := by
  constructor
  · simp [timestamp, htmode, TIMESBUF]
  · intro h
    exact absurd h hfmt

lemma lprintfgen_isSome_iff :
    (lprintfgen b mf gen fmt env).isSome ↔ Printable mf.tmode fmt env := by
  unfold lprintfgen
  by_cases htimes : (mf.tmode ∨ (strstr fmt (ascii "%t")).isSome) ∧ env.times = none
  · simp [htimes, Printable]
  · have hprintable : Printable mf.tmode fmt env ↔ (timestamp mf.tmode env).length < TIMESBUF ∧
        ((strstr fmt (ascii "%t")).isSome → env.timeString ≠ none) := by
      by_cases hnone : env.times = none
      · -- then the code has not looked at the clock
        obtain ⟨htmode, hfmt⟩ := not_or.mp fun h => htimes ⟨h, hnone⟩
        have hgood := Printable.of_no_time env (by simpa using htmode) hfmt
        exact iff_of_true (fun _ => hgood) hgood
      · exact ⟨fun h => h hnone, fun h _ => h⟩
    have hformat : (format env fmt).isSome ↔
        ((strstr fmt (ascii "%t")).isSome → env.timeString ≠ none) := by
      rw [← ne_none_iff_isSome, Ne, format_eq_none_iff, not_and]
    rw [if_neg htimes, hprintable, ← hformat]
    by_cases hlong : TIMESBUF < (timestamp mf.tmode env).length + 1
    · simp [hlong, show ¬ (timestamp mf.tmode env).length < TIMESBUF by omega]
    · have hfits : (timestamp mf.tmode env).length < TIMESBUF := by omega
      simp only [hlong, if_false, hfits, true_and]
      cases format env fmt with
      | none => simp
      | some r =>
        cases r with
        | none => simp
        | some text => by_cases h : LOGGING_BUFSIZE ≤ text.length <;> simp [h]

lemma sendFrame_cases (b : Build) (env : Env) (gen timesbuf buftemp : Bytes) :
    sendFrame b env gen timesbuf buftemp = (-1, []) ∨
      ∃ bs, bs = timesbuf ++ ((expanded b env gen).take (LOGGING_GENMAX - 1) ++ ascii ";" ++
          buftemp) ∧
        sendFrame b env gen timesbuf buftemp = (0, decimal bs.length ++ chr ':' :: bs) := by
  unfold sendFrame
  dsimp only
  split_ifs with hlong hwrite
  · exact .inl rfl
  · refine .inr ⟨_, rfl, ?_⟩
    have hlen : (timesbuf ++ ((expanded b env gen).take (LOGGING_GENMAX - 1) ++ ascii ";" ++
        buftemp)).length =
        buftemp.length + (expandGen b env gen LOGGING_GENMAX).2.length + timesbuf.length + 1 := by
      simp only [expandGen, length_append, show (ascii ";").length = 1 from rfl]
      omega
    rw [hlen]
    simp only [expandGen, append_assoc, show ascii ":" = [chr ':'] from rfl,
      cons_append, nil_append]
  · exact .inl rfl

lemma lprintfgen_cases (h : lprintfgen b mf gen fmt env = some (ret, out)) :
    (ret = -1 ∧ out = []) ∨
      (ret = 0 ∧ out = decimal (body b mf.tmode gen fmt env).length ++
        chr ':' :: body b mf.tmode gen fmt env) := by
  have hfail : some (-1, []) = some (ret, out) → ret = -1 ∧ out = [] := by
    intro heq
    obtain ⟨rfl, rfl⟩ := Prod.mk.inj (some.inj heq)
    exact ⟨rfl, rfl⟩
  unfold lprintfgen at h
  split_ifs at h with htimes
  · exact .inl (hfail h)
  · dsimp only at h
    split_ifs at h with hlong
    split at h
    · cases h
    · exact .inl (hfail h)
    · next full hformat =>
      split_ifs at h with hfull
      · exact .inl (hfail h)
      · have htext : text env fmt = cstr full := by rw [text, hformat]
        obtain hsend | ⟨bs, hbs, hsend⟩ :=
          sendFrame_cases b env gen (timestamp mf.tmode env) (cstr full)
        · rw [hsend] at h
          exact .inl (hfail h)
        · rw [← htext] at hbs
          rw [hsend] at h
          obtain ⟨rfl, rfl⟩ := Prod.mk.inj (some.inj h)
          exact .inr ⟨rfl, by rw [body, hbs]⟩

end Frame

section Log

variable {b : Build} {mf : LFILE} {ret : ℤ} {out bs : Bytes} {xs : List Item}

lemma lprintfgen_parses {gen fmt : Bytes} {env : Env}
    (h : lprintfgen b mf gen fmt env = some (ret, out)) (hbs : Parses (chr '-') (chr ':') bs xs) :
    Parses (chr '-') (chr ':') (out ++ bs)
      ((if ret ≠ 0 then [] else [.frame (body b mf.tmode gen fmt env)]) ++ xs) := by
  obtain ⟨rfl, rfl⟩ | ⟨rfl, rfl⟩ := lprintfgen_cases h
  · exact hbs
  · rw [append_assoc, cons_append]
    exact hbs.decimal

lemma perform_parses {c : Call} (h : perform b mf c = some (ret, out))
    (hbs : Parses (chr '-') (chr ':') bs xs) :
    Parses (chr '-') (chr ':') (out ++ bs) ((Done.mk mf c ret out).items b ++ xs) := by
  cases c with
  | lprintf fmt env => exact lprintfgen_parses h hbs
  | lprintfg gen fmt env => exact lprintfgen_parses h hbs
  | lgenerator gen =>
    obtain ⟨-, rfl⟩ := Prod.mk.inj (some.inj h)
    simpa [Done.items] using hbs
  | lsendtime write =>
    cases write with
    | true =>
      obtain ⟨rfl, rfl⟩ := Prod.mk.inj (some.inj h)
      exact hbs.mark
    | false =>
      obtain ⟨rfl, rfl⟩ := Prod.mk.inj (some.inj h)
      exact hbs

lemma run_cons {c : Call} {cs : List Call} {ds : List Done} (h : run b mf (c :: cs) = some ds) :
    ∃ ret out ds', perform b mf c = some (ret, out) ∧ run b (mf.next c) cs = some ds' ∧
      ds = ⟨mf, c, ret, out⟩ :: ds' := by
  rw [run] at h
  split at h
  · next ret out ds' hc hcs =>
    exact ⟨ret, out, ds', hc, hcs, (some.inj h).symm⟩
  · cases h

lemma run_parses {cs : List Call} {ds : List Done} (h : run b mf cs = some ds) :
    Parses (chr '-') (chr ':') (output ds) (ds.flatMap (Done.items b)) := by
  induction cs generalizing mf ds with
  | nil =>
    cases h
    exact .nil
  | cons c cs ih =>
    obtain ⟨ret, out, ds, hc, hcs, rfl⟩ := run_cons h
    exact perform_parses hc (ih hcs)

lemma perform_isSome_iff (c : Call) : (perform b mf c).isSome ↔ c.Printable mf.tmode := by
  cases c with
  | lprintf fmt env => exact lprintfgen_isSome_iff
  | lprintfg gen fmt env => exact lprintfgen_isSome_iff
  | lgenerator gen => simp [perform, Call.Printable]
  | lsendtime write => simp [perform, Call.Printable]

lemma run_isSome_iff (cs : List Call) : (run b mf cs).isSome ↔ AllPrintable mf cs := by
  induction cs generalizing mf with
  | nil => simp [run, AllPrintable]
  | cons c cs ih =>
    rw [AllPrintable, ← ih, ← perform_isSome_iff (b := b), run]
    cases perform b mf c <;> cases run b (mf.next c) cs <;> simp

/-- What the calls write can be read in exactly one way, as the marks and frames of those that
returned zero, in order, if the time of every message can be written; otherwise some call runs over
the end of its buffer or reads a null pointer. -/
theorem log_parses_iff (b : Build) (mf : LFILE) (cs : List Call) :
    (∃ ds, run b mf cs = some ds ∧
      ∀ xs, Parses (chr '-') (chr ':') (output ds) xs ↔ xs = ds.flatMap (Done.items b)) ↔
    AllPrintable mf cs := by
  rw [← run_isSome_iff (b := b), isSome_iff_exists]
  constructor
  · rintro ⟨ds, h, -⟩
    exact ⟨ds, h⟩
  · rintro ⟨ds, h⟩
    refine ⟨ds, h, fun xs => ?_⟩
    constructor
    · intro hxs
      exact hxs.unique rfl rfl (run_parses h)
    · rintro rfl
      exact run_parses h

def sentAt (sec : UInt64) : Env where
  pid := 17
  self := 1
  times := some (sec, 100000)
  timeString := some ⟨⟨ascii "09:46:40.100", by decide⟩, rfl⟩
  vsnprintf := some
  write := true

def opened : LFILE := ⟨false, ⟨[], by simp⟩, by decide⟩

example :
    (run ⟨false, false⟩ opened
      [.lsendtime true, .lprintf ⟨ascii "3:a;-", by decide⟩ (sentAt 1700000000)]).map output =
      some (ascii "-26:1700000000;100000;17;3:a;-") := by
  rfl

/-- In the year 5138 the seconds get their twelfth digit. -/
theorem log_timesbuf_overrun :
    run ⟨false, false⟩ opened [.lsendtime true, .lprintf ⟨[], by simp⟩ (sentAt 100000000000)] =
      none := by
  rfl

end Log

end UnixPrograms.Rlogging
