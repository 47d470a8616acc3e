import UnixPrograms.Lib.Text
import UnixPrograms.Lib.Words

/-!
# The arguments in a buffer: bufargs.c

`buf_args` cuts a string at its white space with `strtok` and passes the tokens on, at most 49 of
them.  The first element of `argv` is the buffer itself, so that the tokens are right exactly if the
string does not begin with white space (`bufArgs_iff`).  Pointers are offsets into the buffer.
-/

namespace UnixPrograms.BufArgs

open Function List

def MAXARGC : ℕ := 50

def white (c : UInt8) : Bool := c ∈ ascii " \t\n"

/-- `strtok` from the offset `s` on: the token, if there is one, the buffer, and where to go on.  It
is `none` if the end of the string is not in the buffer. -/
def strtok (buf : Bytes) (s : ℕ) : Option (Option ℕ × Bytes × ℕ) :=
  let token := s + ((buf.drop s).takeWhile white).length
  match buf[token]? with
  | none => none
  | some c =>
    if c = 0 then some (none, buf, token)
    else
      let stop := token + ((buf.drop token).takeWhile fun c => !white c && c ≠ 0).length
      match buf[stop]? with
      | none => none
      | some c =>
        if c = 0 then some (some token, buf, stop)
        else some (some token, buf.set stop 0, stop + 1)

inductive Outcome where
  | fails
  /-- It calls the function of the user. -/
  | optfunc (argc : ℕ) (argv : ℕ → Option ℕ) (buf : Bytes)

/-- The loop of `buf_args`.  It is `none` if memory is used that is not there, or after `fuel`
rounds. -/
def argsLoop (buf : Bytes) (save : ℕ) (argv : ℕ → Option ℕ) (argc : ℕ) : ℕ → Option Outcome
  | 0 => none
  | fuel + 1 =>
    match strtok buf save with
    | none => none
    | some (none, buf, _) =>
      if argc + 1 < MAXARGC then
        some (.optfunc (argc + 1) (update argv (argc + 1) none) buf)
      else none
    | some (some ptr, buf, save) =>
      -- room for the null pointer at the end
      if argc + 1 ≥ MAXARGC - 1 then some .fails
      else argsLoop buf save (update argv (argc + 1) (some ptr)) (argc + 1) fuel

def bufArgs (buf : Bytes) (argv : ℕ → Option ℕ) : Option Outcome :=
  match strtok buf 0 with
  | none => none
  | some (none, _, _) => some .fails
  | some (some _, buf, save) => argsLoop buf save (update argv 0 (some 0)) 0 MAXARGC

/-! ## One token -/

section Strtok

variable (done rest : Bytes) {ws word : Bytes}

lemma white_zero : white 0 = false := by decide

lemma strtok_end (hws : ∀ c ∈ ws, white c = true) :
    strtok (done ++ (ws ++ 0 :: rest)) done.length =
      some (none, done ++ (ws ++ 0 :: rest), done.length + ws.length) := by
  have htake : ((done ++ (ws ++ 0 :: rest)).drop done.length).takeWhile white = ws := by
    rw [drop_left]
    exact takeWhile_append_stop hws white_zero rest
  have hget : (done ++ (ws ++ 0 :: rest))[done.length + ws.length]? = some 0 := by
    rw [← append_assoc, ← length_append]
    simp
  simp only [strtok, htake, hget, if_true]

lemma strtok_token {c : UInt8} (hws : ∀ d ∈ ws, white d = true)
    (hword : ∀ d ∈ word, white d = false) (hnul : (0 : UInt8) ∉ word) (hne : word ≠ [])
    (hc : white c = true ∨ c = 0) :
    strtok (done ++ (ws ++ (word ++ c :: rest))) done.length =
      some (some (done.length + ws.length),
        if c = 0 then
          (done ++ (ws ++ (word ++ c :: rest)), done.length + ws.length + word.length)
        else
          (done ++ (ws ++ (word ++ 0 :: rest)), done.length + ws.length + word.length + 1)) := by
  obtain ⟨d, word', rfl⟩ := exists_cons_of_ne_nil hne
  have htake : ((done ++ (ws ++ (d :: word' ++ c :: rest))).drop done.length).takeWhile white =
      ws := by
    rw [drop_left]
    exact takeWhile_append_stop hws (hword d mem_cons_self) _
  have hfront : done ++ (ws ++ (d :: word' ++ c :: rest)) =
      (done ++ ws) ++ (d :: word' ++ c :: rest) := (append_assoc ..).symm
  have hget : (done ++ (ws ++ (d :: word' ++ c :: rest)))[done.length + ws.length]? = some d := by
    rw [hfront, ← length_append]
    simp
  have hd : d ≠ 0 := fun h => hnul (h ▸ mem_cons_self)
  have hstop : ((done ++ (ws ++ (d :: word' ++ c :: rest))).drop
      (done.length + ws.length)).takeWhile (fun c => !white c && c ≠ 0) = d :: word' := by
    rw [hfront, ← length_append, drop_left]
    refine takeWhile_append_stop (fun a ha => ?_) ?_ rest
    · rw [hword a ha, Bool.not_false, Bool.true_and, decide_eq_true_eq]
      exact fun h => hnul (h ▸ ha)
    · rcases hc with hc | rfl
      · rw [hc]
        rfl
      · rfl
  have hlast : done ++ (ws ++ (d :: word' ++ c :: rest)) =
      (done ++ (ws ++ d :: word')) ++ c :: rest := by simp
  have hlen : (done ++ (ws ++ d :: word')).length =
      done.length + ws.length + (d :: word').length := by simp [Nat.add_assoc]
  have hgetc : (done ++ (ws ++ (d :: word' ++ c :: rest)))[done.length + ws.length +
      (d :: word').length]? = some c := by
    rw [hlast, ← hlen]
    simp
  simp only [strtok, htake, hget, if_neg hd, hstop, hgetc]
  by_cases hc0 : c = 0
  · rw [if_pos hc0, if_pos hc0]
  · rw [if_neg hc0, if_neg hc0, hlast, ← hlen, set_append_right _ _ le_rfl, Nat.sub_self,
      set_cons_zero]
    simp

end Strtok

/-! ## All tokens -/

section Tokens

variable {s rest : Bytes}

/-- The strings at the places `ps` of the buffer are the words of `s` that begin there. -/
def Terminated (s buf : Bytes) (ps : List ℕ) : Prop :=
  ∀ p ∈ ps, cstr (buf.drop p) = wordAt white s p

/-- The buffer is `done`, a string as long as `t`, a null byte and `rest`. -/
def Frame (done t rest buf : Bytes) : Prop :=
  ∃ u : Bytes, u.length = t.length ∧ buf = done ++ (u ++ 0 :: rest)

/-- A call of `strtok` has found the token at `p` of the string `s = done₀ ++ t`: the buffer, of
which `done` has been looked at, goes on with `done'` instead. -/
structure Next (s done₀ done t rest : Bytes) (p : ℕ) (done₀' done' t' : Bytes) : Prop where
  split : s = done₀' ++ t'
  length_eq : done'.length = done₀'.length
  last : t' = [] ∨ ∀ c ∈ done₀'.getLast?, white c = true
  starts : startsFrom white s done₀.length = p :: startsFrom white s done₀'.length
  strtok : strtok (done ++ (t ++ 0 :: rest)) done.length =
    some (some p, done' ++ (t' ++ 0 :: rest), done'.length)
  /-- The token stays as it is while what is behind it is looked at. -/
  token : ∀ buf, Frame done' t' rest buf → cstr (buf.drop p) = wordAt white s p
  frame : ∀ buf, Frame done' t' rest buf → Frame done t rest buf

variable {t done done₀ : Bytes}

lemma exists_next (hs : (0 : UInt8) ∉ s) (rest : Bytes) (hst : s = done₀ ++ t)
    (hlen : done.length = done₀.length) (hlast : t = [] ∨ ∀ c ∈ done₀.getLast?, white c = true)
    (ht : ¬ ∀ c ∈ t, white c = true) :
    ∃ p done₀' done' t', Next s done₀ done t rest p done₀' done' t' := by
  have hlast' : ∀ c ∈ done₀.getLast?, white c = true := by
    refine hlast.resolve_left ?_
    rintro rfl
    exact ht nofun
  obtain hall | ⟨ws, word, after, rfl, hws, hword, hne, hafter⟩ := exists_first_word white t
  · exact absurd hall ht
  · have hnul : (0 : UInt8) ∉ word := fun h => hs (by simp [hst, h])
    have hstarts := startsFrom_next hst hws hword hne hlast'
    have hwordAt : wordAt white s (done₀.length + ws.length) = word := by
      have hfront := wordAt_of_split (done₀ ++ ws) hword hafter
      rwa [append_assoc, ← hst, length_append] at hfront
    have htoken : ∀ rest', cstr ((done ++ (ws ++ (word ++ 0 :: rest'))).drop
        (done₀.length + ws.length)) = wordAt white s (done₀.length + ws.length) := by
      intro rest'
      rw [hwordAt, ← hlen, ← length_append, ← append_assoc, drop_left]
      exact cstr_append hnul rest'
    cases after with
    | nil =>
      refine ⟨done₀.length + ws.length, done₀ ++ (ws ++ word), done ++ (ws ++ word), [], ?_, ?_,
        .inl rfl, ?_, ?_, ?_, ?_⟩
      · simp [hst]
      · simp [hlen]
      · rw [hstarts]
        simp [Nat.add_assoc]
      · have h := strtok_token done rest hws hword hnul hne (.inr rfl)
        rw [if_pos rfl] at h
        simpa [Nat.add_assoc, hlen] using h
      · rintro buf ⟨u, hu, rfl⟩
        obtain rfl := eq_nil_of_length_eq_zero hu
        simpa using htoken rest
      · rintro buf ⟨u, hu, rfl⟩
        obtain rfl := eq_nil_of_length_eq_zero hu
        exact ⟨ws ++ word, by simp, by simp⟩
    | cons c after =>
      have hc : white c = true := hafter c rfl
      have hc0 : c ≠ 0 := by
        rintro rfl
        exact absurd hc (by decide)
      -- the place of the separator is skipped
      have hskip : startsFrom white s (done₀.length + ws.length + word.length) =
          startsFrom white s (done₀.length + ws.length + word.length + 1) := by
        refine startsFrom_skip (Nat.le_succ _) (by simp [hst]; omega) fun i hi hlt => ?_
        obtain rfl : i = done₀.length + ws.length + word.length := by omega
        refine startsAt_of_sep (c := c) ?_ hc
        have hsplit : s = (done₀ ++ (ws ++ word)) ++ c :: after := by simp [hst]
        have hfront : (done₀ ++ (ws ++ word)).length =
            done₀.length + ws.length + word.length := by simp [Nat.add_assoc]
        rw [hsplit, ← hfront]
        simp
      refine ⟨done₀.length + ws.length, done₀ ++ (ws ++ (word ++ [c])),
        done ++ (ws ++ (word ++ [0])), after, ?_, ?_, .inr ?_, ?_, ?_, ?_, ?_⟩
      · simp [hst]
      · simp [hlen]
      · intro d hd
        obtain rfl : c = d := by simpa using hd
        exact hc
      · rw [hstarts, hskip]
        simp [Nat.add_assoc]
      · have h := strtok_token done (after ++ 0 :: rest) hws hword hnul hne (.inl hc)
        rw [if_neg hc0] at h
        simpa [Nat.add_assoc, hlen] using h
      · rintro buf ⟨u, -, rfl⟩
        simpa using htoken (u ++ 0 :: rest)
      · rintro buf ⟨u, hu, rfl⟩
        exact ⟨ws ++ (word ++ 0 :: u), by simp [hu], by simp⟩

/-- What the loop makes of the words `ps` that are still to come, if there is room for them. -/
structure Collects (s done t rest : Bytes) (argv : ℕ → Option ℕ) (argc : ℕ) (ps : List ℕ)
    (argv' : ℕ → Option ℕ) (buf : Bytes) : Prop where
  kept : ∀ i ≤ argc, argv' i = argv i
  found : ∀ j ≤ ps.length, argv' (argc + 1 + j) = ps[j]?
  terminated : Terminated s buf ps
  frame : Frame done t rest buf

lemma collects_nil (s done t rest : Bytes) (argv : ℕ → Option ℕ) (argc : ℕ) :
    Collects s done t rest argv argc [] (update argv (argc + 1) none)
      (done ++ (t ++ 0 :: rest)) where
  kept i hi := update_of_ne (by omega) ..
  found j hj := by
    obtain rfl := Nat.le_zero.mp hj
    exact update_self ..
  terminated := nofun
  frame := ⟨t, rfl, rfl⟩

lemma Next.collects {done₀' done' t' : Bytes} {p : ℕ}
    (h : Next s done₀ done t rest p done₀' done' t') {argv argv' : ℕ → Option ℕ} {argc : ℕ}
    {ps : List ℕ} {buf : Bytes}
    (hrest : Collects s done' t' rest (update argv (argc + 1) (some p)) (argc + 1) ps
      argv' buf) : Collects s done t rest argv argc (p :: ps) argv' buf where
  kept i hi := by
    rw [hrest.kept i (by omega), update_of_ne (by omega)]
  found j hj := by
    cases j with
    | zero =>
      rw [Nat.add_zero, hrest.kept _ le_rfl, update_self]
      rfl
    | succ j =>
      rw [← Nat.add_assoc, Nat.add_right_comm, hrest.found j (Nat.le_of_succ_le_succ hj)]
      rfl
  terminated := by
    intro q hq
    rcases mem_cons.mp hq with rfl | hq
    · exact h.token buf hrest.frame
    · exact hrest.terminated q hq
  frame := h.frame buf hrest.frame

lemma argsLoop_eq (rest : Bytes) (hs : (0 : UInt8) ∉ s) (fuel : ℕ) (hst : s = done₀ ++ t)
    (hlen : done.length = done₀.length) (hlast : t = [] ∨ ∀ c ∈ done₀.getLast?, white c = true)
    (argv : ℕ → Option ℕ) (argc : ℕ) (hargc : argc + 1 < MAXARGC) (hfuel : MAXARGC ≤ argc + fuel) :
    let ps := startsFrom white s done₀.length
    if argc + 1 + ps.length < MAXARGC then
      ∃ argv' buf, argsLoop (done ++ (t ++ 0 :: rest)) done.length argv argc fuel =
          some (.optfunc (argc + 1 + ps.length) argv' buf) ∧
        Collects s done t rest argv argc ps argv' buf
    else argsLoop (done ++ (t ++ 0 :: rest)) done.length argv argc fuel = some .fails := by
  induction fuel generalizing done₀ t done argv argc with
  | zero => omega
  | succ fuel ih =>
    intro ps
    by_cases ht : ∀ c ∈ t, white c = true
    · have hps : ps = [] := by
        change startsFrom white s done₀.length = []
        rw [hst]
        exact startsFrom_end done₀ ht
      rw [hps, length_nil, Nat.add_zero, if_pos hargc]
      refine ⟨_, _, ?_, collects_nil s done t rest argv argc⟩
      rw [argsLoop, strtok_end done rest ht]
      exact if_pos hargc
    · obtain ⟨p, done₀', done', t', hnext⟩ := exists_next hs rest hst hlen hlast ht
      have hps : ps = p :: startsFrom white s done₀'.length := hnext.starts
      have hround : argsLoop (done ++ (t ++ 0 :: rest)) done.length argv argc (fuel + 1) =
          if argc + 1 ≥ MAXARGC - 1 then some .fails
          else argsLoop (done' ++ (t' ++ 0 :: rest)) done'.length
            (update argv (argc + 1) (some p)) (argc + 1) fuel := by
        rw [argsLoop, hnext.strtok]
      rw [hround, hps, length_cons]
      by_cases hfull : argc + 1 ≥ MAXARGC - 1
      · have hmax : MAXARGC = 50 := rfl
        rw [if_pos hfull, if_neg (by omega)]
      · rw [if_neg hfull]
        have hmax : MAXARGC = 50 := rfl
        have htail := ih hnext.split hnext.length_eq hnext.last
          (update argv (argc + 1) (some p)) (argc + 1) (by omega) (by omega)
        dsimp only at htail
        have hcount : argc + 1 + 1 + (startsFrom white s done₀'.length).length =
            argc + 1 + ((startsFrom white s done₀'.length).length + 1) := by omega
        rw [hcount] at htail
        split_ifs at htail ⊢ with hroom
        · obtain ⟨argv', buf, hloop, hcollects⟩ := htail
          exact ⟨argv', buf, hloop, hnext.collects hcollects⟩
        · exact htail

/-- What `buf_args` is to do with a string: it returns -1 if there are no words or too many, and
passes them on otherwise. -/
def Correct (s : Bytes) : Option Outcome → Prop
  | none => False
  | some .fails => starts white s = [] ∨ MAXARGC ≤ (starts white s).length
  | some (.optfunc argc argv buf) =>
    starts white s ≠ [] ∧ (starts white s).length < MAXARGC ∧ argc = (starts white s).length ∧
      (∀ i < argc, argv i = (starts white s)[i]?) ∧ Terminated s buf (starts white s) ∧
        argv argc = none

lemma startsAt_zero_iff (hne : s ≠ []) :
    startsAt white s 0 = true ↔ ∀ c ∈ s.head?, white c = false := by
  obtain ⟨c, s, rfl⟩ := exists_cons_of_ne_nil hne
  simp [startsAt]

lemma bufArgs_eq (hs : (0 : UInt8) ∉ s) (rest : Bytes) (argv : ℕ → Option ℕ)
    (hword : ¬ ∀ c ∈ s, white c = true) :
    if (starts white s).length < MAXARGC then
      ∃ argv' buf, bufArgs (s ++ 0 :: rest) argv =
          some (.optfunc (starts white s).length argv' buf) ∧
        argv' 0 = some 0 ∧ (∀ i ≤ (starts white s).length, i ≠ 0 → argv' i = (starts white s)[i]?) ∧
          Terminated s buf (starts white s)
    else bufArgs (s ++ 0 :: rest) argv = some .fails := by
  have hlast : s = [] ∨ ∀ c ∈ ([] : Bytes).getLast?, white c = true := .inr nofun
  obtain ⟨p, done₀', done', t', hnext⟩ := exists_next hs rest rfl rfl hlast hword
  have hstarts : starts white s = p :: startsFrom white s done₀'.length := hnext.starts
  have hbuf : bufArgs (s ++ 0 :: rest) argv = argsLoop (done' ++ (t' ++ 0 :: rest)) done'.length
      (update argv 0 (some 0)) 0 MAXARGC := by
    have h := hnext.strtok
    rw [nil_append, length_nil] at h
    rw [bufArgs, h]
  have hloop := argsLoop_eq rest hs MAXARGC hnext.split hnext.length_eq hnext.last
    (update argv 0 (some 0)) 0 (by decide) (by decide)
  dsimp only at hloop
  rw [Nat.zero_add, Nat.add_comm, ← hbuf] at hloop
  rw [hstarts, length_cons]
  split_ifs at hloop ⊢ with hroom
  · obtain ⟨argv', buf, heq, hcollects⟩ := hloop
    refine ⟨argv', buf, heq, ?_, ?_, ?_⟩
    · rw [hcollects.kept 0 le_rfl, update_self]
    · intro i hi hne
      obtain ⟨j, rfl⟩ := Nat.exists_eq_succ_of_ne_zero hne
      have hfound := hcollects.found j (Nat.le_of_succ_le_succ hi)
      rw [Nat.zero_add, Nat.add_comm] at hfound
      exact hfound
    · intro q hq
      rcases mem_cons.mp hq with rfl | hq
      · exact hnext.token buf hcollects.frame
      · exact hcollects.terminated q hq
  · exact hloop

/-- `buf_args` does what it is to do exactly if there are no words, or too many, or the string does
not begin with white space. -/
theorem bufArgs_iff (s : CString) (rest : Bytes) (argv : ℕ → Option ℕ) :
    Correct s.val (bufArgs (s.val ++ 0 :: rest) argv) ↔
      starts white s.val = [] ∨ MAXARGC ≤ (starts white s.val).length ∨
        ∀ c ∈ s.val.head?, white c = false := by
  obtain ⟨s, hs⟩ := s
  dsimp only
  by_cases hall : ∀ c ∈ s, white c = true
  · have hstarts : starts white s = [] := startsFrom_end [] hall
    have hfails : bufArgs (s ++ 0 :: rest) argv = some .fails := by
      have h := strtok_end [] rest hall
      rw [nil_append, length_nil] at h
      rw [bufArgs, h]
    rw [hfails]
    exact iff_of_true (.inl hstarts) (.inl hstarts)
  · have hne : s ≠ [] := by
      rintro rfl
      exact hall nofun
    have hbuf := bufArgs_eq hs rest argv hall
    split_ifs at hbuf with hroom
    · obtain ⟨argv', buf, heq, hfirst, hothers, hterm⟩ := hbuf
      have hstart := startsAt_zero_iff hne
      rw [heq, ← hstart]
      have hex : starts white s ≠ [] := starts_ne_nil hall
      constructor
      · rintro ⟨-, -, -, hargv, -, -⟩
        have hzero := hargv 0 (length_pos_iff.mpr hex)
        rw [hfirst] at hzero
        exact .inr (.inr (startsAt_of_mem_starts (mem_of_getElem? hzero.symm)))
      · intro hcond
        have hzero : startsAt white s 0 = true :=
          (hcond.resolve_left hex).resolve_left (Nat.not_le_of_lt hroom)
        refine ⟨hex, hroom, rfl, fun i hi => ?_, hterm, ?_⟩
        · cases i with
          | zero =>
            rw [hfirst, starts, startsFrom_cons hzero]
            rfl
          | succ i => exact hothers _ hi.le (Nat.succ_ne_zero i)
        · rw [hothers _ le_rfl (length_pos_iff.mpr hex).ne', List.getElem?_eq_none le_rfl]
    · have hmany := Nat.le_of_not_lt hroom
      rw [hbuf]
      exact iff_of_true (.inr hmany) (.inr (.inl hmany))

/-- A blank in front of the command becomes a part of the first argument. -/
theorem bufArgs_leadingBlank :
    starts white (ascii " ls") = [1] ∧
      ∃ argv buf, bufArgs (ascii " ls" ++ [0]) (fun _ => none) = some (.optfunc 1 argv buf) ∧
        argv 0 = some 0 ∧ cstr (buf.drop 0) = ascii " ls" :=
  ⟨by decide, _, _, rfl, rfl, by decide⟩

end Tokens

end UnixPrograms.BufArgs
