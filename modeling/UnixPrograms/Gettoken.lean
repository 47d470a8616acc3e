import UnixPrograms.Lib.Text

/-!
# The lexer of the shell

`gettoken` of `sh3` is a machine with four states and one character of pushback.  Whatever spelling
of a list of tokens is chosen, with bare and quoted words and blanks (`Rendering`), the calls give
back the tokens and the words (`gettokens_rendering`).
-/

namespace UnixPrograms.Gettoken

open List hiding Vector

inductive Token where
  | word
  | bar
  | amp
  | semi
  | gt
  | gtgt
  | lt
  | nl
  | eof
  | error
  deriving DecidableEq

inductive LexState where
  | neutral
  | gtgt
  | inquote
  | inword

abbrev WordBuf (maxword : ℕ) := Vector UInt8 maxword

variable {maxword : ℕ}

/-- `store_char`: the buffer and the new value of `*np`, or failure with `E2BIG`. -/
def storeChar (word : WordBuf maxword) (c : UInt8) (np : ℕ) : Option (WordBuf maxword × ℕ) :=
  if h : np < maxword then some (word.set np c h, np + 1) else none

structure Gotten (maxword : ℕ) where
  token : Token
  word : WordBuf maxword
  stdin : Bytes

/-- The loop of `gettoken`, with `ferror` the error indicator of the standard input. -/
def gettokenLoop (ferror : Bool) :
    LexState → WordBuf maxword → (wordn : ℕ) → (stdin : Bytes) → Gotten maxword
  | _, word, _, [] => ⟨if ferror then .error else .eof, word, []⟩
  | .neutral, word, wordn, c :: cs =>
    if c = chr ';' then ⟨.semi, word, cs⟩
    else if c = chr '&' then ⟨.amp, word, cs⟩
    else if c = chr '|' then ⟨.bar, word, cs⟩
    else if c = chr '<' then ⟨.lt, word, cs⟩
    else if c = chr '\n' then ⟨.nl, word, cs⟩
    else if c = chr ' ' ∨ c = chr '\t' then gettokenLoop ferror .neutral word wordn cs
    else if c = chr '>' then gettokenLoop ferror .gtgt word wordn cs
    else if c = chr '"' then gettokenLoop ferror .inquote word wordn cs
    else
      match storeChar word c wordn with
      | some (word', wordn') => gettokenLoop ferror .inword word' wordn' cs
      | none => ⟨.error, word, cs⟩
  | .gtgt, word, _, c :: cs =>
    if c = chr '>' then ⟨.gtgt, word, cs⟩
    -- `ungetc`
    else ⟨.gt, word, c :: cs⟩
  | .inquote, word, wordn, c :: cs =>
    if c = chr '\\' then
      match cs with
      -- a backslash before the end of the file stands for itself
      | [] =>
        match storeChar word (chr '\\') wordn with
        | some (word', _) => ⟨if ferror then .error else .eof, word', []⟩
        | none => ⟨.error, word, []⟩
      | c' :: cs' =>
        match storeChar word c' wordn with
        | some (word', wordn') => gettokenLoop ferror .inquote word' wordn' cs'
        | none => ⟨.error, word, cs'⟩
    else if c = chr '"' then
      match storeChar word 0 wordn with
      | some (word', _) => ⟨.word, word', cs⟩
      | none => ⟨.error, word, cs⟩
    else
      match storeChar word c wordn with
      | some (word', wordn') => gettokenLoop ferror .inquote word' wordn' cs
      | none => ⟨.error, word, cs⟩
  | .inword, word, wordn, c :: cs =>
    if c = chr ';' ∨ c = chr '&' ∨ c = chr '|' ∨ c = chr '<' ∨ c = chr '>' ∨ c = chr '\n' ∨
        c = chr ' ' ∨ c = chr '\t' then
      -- `ungetc`
      match storeChar word 0 wordn with
      | some (word', _) => ⟨.word, word', c :: cs⟩
      | none => ⟨.error, word, c :: cs⟩
    else
      match storeChar word c wordn with
      | some (word', wordn') => gettokenLoop ferror .inword word' wordn' cs
      | none => ⟨.error, word, cs⟩

def gettoken (ferror : Bool) (word : WordBuf maxword) (stdin : Bytes) : Gotten maxword :=
  gettokenLoop ferror .neutral word 0 stdin

def Gotten.seen (g : Gotten maxword) : Token × Option Bytes :=
  (g.token, if g.token = .word then some (cstr g.word.toList) else none)

/-- `k` calls of `gettoken`, one after the other: what the caller sees, and what is left to read. -/
def gettokens (ferror : Bool) : (k : ℕ) → WordBuf maxword → (stdin : Bytes) →
    List (Token × Option Bytes) × Bytes
  | 0, _, stdin => ([], stdin)
  | k + 1, word, stdin =>
    let g := gettoken ferror word stdin
    let later := gettokens ferror k g.word g.stdin
    (g.seen :: later.1, later.2)

/-! ## How tokens are written -/

abbrev IsBlank (c : UInt8) : Prop := c = chr ' ' ∨ c = chr '\t'

/-- The characters that end a word outside of quotes. -/
abbrev EndsWord (c : UInt8) : Prop :=
  c = chr ';' ∨ c = chr '&' ∨ c = chr '|' ∨ c = chr '<' ∨ c = chr '>' ∨ c = chr '\n' ∨
    c = chr ' ' ∨ c = chr '\t'

inductive Operator where
  | semi
  | amp
  | bar
  | lt
  | gt
  | gtgt
  | nl

def Operator.text : Operator → Bytes
  | .semi => [chr ';']
  | .amp => [chr '&']
  | .bar => [chr '|']
  | .lt => [chr '<']
  | .gt => [chr '>']
  | .gtgt => [chr '>', chr '>']
  | .nl => [chr '\n']

def Operator.token : Operator → Token
  | .semi => .semi
  | .amp => .amp
  | .bar => .bar
  | .lt => .lt
  | .gt => .gt
  | .gtgt => .gtgt
  | .nl => .nl

inductive Item where
  | word (w : Bytes)
  | op (o : Operator)

def Item.seen : Item → Token × Option Bytes
  | .word w => (.word, some w)
  | .op o => (o.token, none)

/-- A word that the buffer holds as a string. -/
def Item.Fits (maxword : ℕ) : Item → Prop
  | .word w => (0 : UInt8) ∉ w ∧ w.length < maxword
  | .op _ => True

/-- A word that needs no quotes. -/
def Bare (w : Bytes) : Prop := w ≠ [] ∧ (∀ c ∈ w, ¬ EndsWord c) ∧ w.head? ≠ some (chr '"')

def escape (c : UInt8) : Bytes := if c = chr '"' ∨ c = chr '\\' then [chr '\\', c] else [c]

/-- The ways of writing a token. -/
inductive Spelling : Item → Bytes → Prop
  | op (o : Operator) : Spelling (.op o) o.text
  | bare {w : Bytes} (hw : Bare w) : Spelling (.word w) w
  | quoted (w : Bytes) : Spelling (.word w) (chr '"' :: (w.flatMap escape ++ [chr '"']))

/-- The items written one after the other, with blanks and tabs between them and a newline at the
end.  There may be blanks before the first item and before the newline too. -/
inductive Rendering : List Item → Bytes → Prop
  | done {sep : Bytes} (hsep : ∀ c ∈ sep, IsBlank c) : Rendering [] (sep ++ [chr '\n'])
  | cons {t : Item} {ts : List Item} {sep text rest : Bytes} (hsep : ∀ c ∈ sep, IsBlank c)
      (htext : Spelling t text) (hrest : Rendering ts rest)
      (hapart : ts ≠ [] → ∃ c ∈ rest.head?, IsBlank c) : Rendering (t :: ts) (sep ++ text ++ rest)

/-! ## The loops of `gettoken` -/

variable (ferror : Bool) {n : ℕ} {w rest text : Bytes}

lemma storeChar_of_lt (word : WordBuf maxword) (c : UInt8) (h : n < maxword) :
    ∃ word' : WordBuf maxword, storeChar word c n = some (word', n + 1) ∧
      word'.toList.take (n + 1) = word.toList.take n ++ [c] := by
  refine ⟨word.set n c h, dif_pos h, ?_⟩
  rw [Vector.toList_set, take_add_one, take_set_of_le (Nat.le_refl n),
    getElem?_set_self (by simpa using h)]
  rfl

lemma gettokenLoop_blanks (word : WordBuf maxword) (n : ℕ) {sep : Bytes}
    (hsep : ∀ c ∈ sep, IsBlank c) (rest : Bytes) :
    gettokenLoop ferror .neutral word n (sep ++ rest) =
      gettokenLoop ferror .neutral word n rest := by
  induction sep with
  | nil => rfl
  | cons c sep ih =>
    have hc : IsBlank c := hsep c mem_cons_self
    rw [cons_append, gettokenLoop, ih fun d hd => hsep d (mem_cons_of_mem c hd)]
    rcases hc with rfl | rfl
    · rfl
    · rfl

lemma gettokenLoop_inword (hw : ∀ c ∈ w, ¬ EndsWord c) {d : UInt8} (hd : EndsWord d)
    (rest : Bytes) (word : WordBuf maxword) (hfit : n + w.length < maxword) :
    ∃ word' : WordBuf maxword,
      gettokenLoop ferror .inword word n (w ++ d :: rest) = ⟨.word, word', d :: rest⟩ ∧
        word'.toList.take (n + w.length + 1) = word.toList.take n ++ w ++ [0] := by
  induction w generalizing word n with
  | nil =>
    obtain ⟨word', hstore, htake⟩ := storeChar_of_lt word 0 (show n < maxword from hfit)
    refine ⟨word', ?_, by simpa using htake⟩
    rw [nil_append, gettokenLoop, if_pos hd, hstore]
  | cons c w ih =>
    have hc : ¬ EndsWord c := hw c mem_cons_self
    rw [length_cons] at hfit
    obtain ⟨word₁, hstore, htake₁⟩ := storeChar_of_lt word c (show n < maxword by omega)
    obtain ⟨word', hloop, htake⟩ := ih (fun d hd => hw d (mem_cons_of_mem c hd)) word₁
      (show n + 1 + w.length < maxword by omega)
    refine ⟨word', ?_, ?_⟩
    · rw [cons_append, gettokenLoop, if_neg hc, hstore]
      exact hloop
    · rw [length_cons, show n + (w.length + 1) + 1 = n + 1 + w.length + 1 by omega, htake,
        htake₁]
      simp

lemma gettokenLoop_escape (c : UInt8) (rest : Bytes) {word word' : WordBuf maxword}
    (hstore : storeChar word c n = some (word', n + 1)) :
    gettokenLoop ferror .inquote word n (escape c ++ rest) =
      gettokenLoop ferror .inquote word' (n + 1) rest := by
  by_cases hc : c = chr '"' ∨ c = chr '\\'
  · rw [escape, if_pos hc, List.cons_append, List.singleton_append, gettokenLoop, if_pos rfl]
    simp only [hstore]
  · obtain ⟨hquote, hback⟩ := not_or.mp hc
    rw [escape, if_neg hc, List.singleton_append, gettokenLoop.eq_def]
    simp only [if_neg hback, if_neg hquote, hstore]

lemma gettokenLoop_inquote (w rest : Bytes) (word : WordBuf maxword)
    (hfit : n + w.length < maxword) :
    ∃ word' : WordBuf maxword,
      gettokenLoop ferror .inquote word n (w.flatMap escape ++ chr '"' :: rest) =
          ⟨.word, word', rest⟩ ∧
        word'.toList.take (n + w.length + 1) = word.toList.take n ++ w ++ [0] := by
  induction w generalizing word n with
  | nil =>
    obtain ⟨word', hstore, htake⟩ := storeChar_of_lt word 0 (show n < maxword from hfit)
    refine ⟨word', ?_, by simpa using htake⟩
    have hquote : chr '"' ≠ chr '\\' := by decide
    rw [List.flatMap_nil, List.nil_append, gettokenLoop.eq_def]
    simp only [if_neg hquote, if_pos, hstore]
  | cons c w ih =>
    rw [List.length_cons] at hfit
    obtain ⟨word₁, hstore, htake₁⟩ := storeChar_of_lt word c (show n < maxword by omega)
    obtain ⟨word', hloop, htake⟩ := ih word₁ (show n + 1 + w.length < maxword by omega)
    refine ⟨word', ?_, ?_⟩
    · rw [List.flatMap_cons, List.append_assoc, gettokenLoop_escape ferror c _ hstore, hloop]
    · rw [List.length_cons, show n + (w.length + 1) + 1 = n + 1 + w.length + 1 by omega, htake,
        htake₁]
      simp

/-! ## One call reads one token -/

/-- A blank or a newline comes next. -/
def Delimited (rest : Bytes) : Prop := ∃ d tl, rest = d :: tl ∧ (IsBlank d ∨ d = chr '\n')

lemma endsWord_of_isBlank_or {d : UInt8} (h : IsBlank d ∨ d = chr '\n') : EndsWord d := by
  rcases h with (rfl | rfl) | rfl
  · decide
  · decide
  · decide

lemma seen_word {word' : WordBuf maxword} (hw : (0 : UInt8) ∉ w)
    (htake : word'.toList.take (w.length + 1) = w ++ [0]) :
    (⟨.word, word', rest⟩ : Gotten maxword).seen = (.word, some w) := by
  have hlist : word'.toList = w ++ 0 :: word'.toList.drop (w.length + 1) := by
    rw [← List.take_append_drop (w.length + 1) word'.toList, htake]
    simp
  rw [Gotten.seen, if_pos rfl, hlist, cstr_append hw]

lemma gettoken_op (o : Operator) (hrest : Delimited rest) (word : WordBuf maxword) :
    gettoken ferror word (o.text ++ rest) = ⟨o.token, word, rest⟩ := by
  obtain ⟨d, tl, rfl, hd⟩ := hrest
  cases o with
  | gt =>
    -- the character behind `>` is pushed back
    have hne : d ≠ chr '>' := by
      rintro rfl
      revert hd
      decide
    change gettokenLoop ferror .gtgt word 0 (d :: tl) = _
    rw [gettokenLoop, if_neg hne]
    rfl
  | _ => rfl

lemma gettoken_bare (hw : Bare w) (hfit : w.length < maxword) (hrest : Delimited rest)
    (word : WordBuf maxword) :
    ∃ word' : WordBuf maxword, gettoken ferror word (w ++ rest) = ⟨.word, word', rest⟩ ∧
      word'.toList.take (w.length + 1) = w ++ [0] := by
  obtain ⟨d, tl, rfl, hd⟩ := hrest
  obtain ⟨hne, hall, hhead⟩ := hw
  obtain ⟨c, w, rfl⟩ := List.exists_cons_of_ne_nil hne
  have hc : ¬ EndsWord c := hall c List.mem_cons_self
  have hquote : c ≠ chr '"' := by simpa using hhead
  rw [length_cons] at hfit
  obtain ⟨word₁, hstore, htake₁⟩ := storeChar_of_lt word c (show 0 < maxword by omega)
  obtain ⟨word', hloop, htake⟩ := gettokenLoop_inword ferror
    (fun x hx => hall x (mem_cons_of_mem c hx)) (endsWord_of_isBlank_or hd) tl word₁
    (show 0 + 1 + w.length < maxword by omega)
  refine ⟨word', ?_, ?_⟩
  · simp only [EndsWord, not_or] at hc
    rw [cons_append, gettoken, gettokenLoop, if_neg hc.1, if_neg hc.2.1, if_neg hc.2.2.1,
      if_neg hc.2.2.2.1, if_neg hc.2.2.2.2.2.1, if_neg (not_or.mpr hc.2.2.2.2.2.2),
      if_neg hc.2.2.2.2.1, if_neg hquote, hstore]
    exact hloop
  · rw [show (c :: w).length + 1 = 0 + 1 + w.length + 1 by simp; omega, htake, htake₁]
    simp

lemma gettoken_quoted (hfit : w.length < maxword) (rest : Bytes) (word : WordBuf maxword) :
    ∃ word' : WordBuf maxword,
      gettoken ferror word (chr '"' :: (w.flatMap escape ++ [chr '"']) ++ rest) =
          ⟨.word, word', rest⟩ ∧
        word'.toList.take (w.length + 1) = w ++ [0] := by
  obtain ⟨word', hloop, htake⟩ := gettokenLoop_inquote ferror w rest word
    (show 0 + w.length < maxword by omega)
  refine ⟨word', ?_, ?_⟩
  · rw [cons_append, append_assoc, singleton_append]
    exact hloop
  · rw [Nat.zero_add] at htake
    simpa using htake

lemma gettoken_spelling {t : Item} (ht : t.Fits maxword) {sep : Bytes}
    (hsep : ∀ c ∈ sep, IsBlank c) (htext : Spelling t text) (hrest : Delimited rest)
    (word : WordBuf maxword) :
    (gettoken ferror word (sep ++ text ++ rest)).seen = t.seen ∧
      (gettoken ferror word (sep ++ text ++ rest)).stdin = rest := by
  have hskip :
      gettoken ferror word (sep ++ text ++ rest) = gettoken ferror word (text ++ rest) := by
    rw [gettoken, append_assoc, gettokenLoop_blanks ferror word 0 hsep, gettoken]
  rw [hskip]
  cases htext with
  | op o =>
    rw [gettoken_op ferror o hrest]
    refine ⟨?_, rfl⟩
    cases o <;> rfl
  | bare hw =>
    obtain ⟨word', hgot, htake⟩ := gettoken_bare ferror hw ht.2 hrest word
    rw [hgot]
    exact ⟨seen_word ht.1 htake, rfl⟩
  | quoted w =>
    obtain ⟨word', hgot, htake⟩ := gettoken_quoted ferror ht.2 rest word
    rw [hgot]
    exact ⟨seen_word ht.1 htake, rfl⟩

/-! ## The whole list -/

lemma Rendering.delimited {ts : List Item} (h : Rendering ts text)
    (hapart : ts ≠ [] → ∃ c ∈ text.head?, IsBlank c) (after : Bytes) :
    Delimited (text ++ after) := by
  cases h with
  | @done sep hsep =>
    cases sep with
    | nil => exact ⟨chr '\n', after, rfl, .inr rfl⟩
    | cons c sep => exact ⟨c, sep ++ [chr '\n'] ++ after, rfl, .inl (hsep c mem_cons_self)⟩
  | cons hsep htext hrest hap =>
    obtain ⟨c, hc, hblank⟩ := hapart (cons_ne_nil _ _)
    obtain ⟨tl, htl⟩ := head?_eq_some_iff.mp hc
    exact ⟨c, tl ++ after, by rw [htl]; rfl, .inl hblank⟩

/-- However a list of tokens is written, the calls of `gettoken` return the tokens with their words,
then the newline token, and what follows the newline is left. -/
theorem gettokens_rendering {ts : List Item} (hfits : ∀ t ∈ ts, t.Fits maxword) {text : Bytes}
    (h : Rendering ts text) (word : WordBuf maxword) (after : Bytes) :
    gettokens ferror (ts.length + 1) word (text ++ after) =
      (ts.map Item.seen ++ [(.nl, none)], after) := by
  induction h generalizing word with
  | @done sep hsep =>
    have hnl : gettoken ferror word (sep ++ [chr '\n'] ++ after) = ⟨.nl, word, after⟩ := by
      rw [gettoken, append_assoc, gettokenLoop_blanks ferror word 0 hsep]
      rfl
    simp only [length_nil, gettokens, hnl]
    rfl
  | @cons t ts sep text rest hsep htext hrest hapart ih =>
    obtain ⟨hseen, hstdin⟩ := gettoken_spelling ferror (hfits t mem_cons_self) hsep
      htext (hrest.delimited hapart after) word
    have hlater := ih (fun x hx => hfits x (mem_cons_of_mem t hx))
    rw [append_assoc, length_cons, gettokens]
    simp only [hseen, hstdin, hlater]
    rfl

lemma forall_mem_of_all {q : UInt8 → Prop} [DecidablePred q]
    (h : (text.all fun c => decide (q c)) = true) : ∀ c ∈ text, q c :=
  fun c hc => of_decide_eq_true (all_eq_true.mp h c hc)

/-- The tokens of `sort <  "a b" >> c` with a buffer of eight bytes. -/
theorem gettokens_rendering_sort : gettokens false 6 (Vector.replicate 8 0 : WordBuf 8)
        (ascii "sort <  \"a b\" >> c\n" ++ []) =
      ([(.word, some (ascii "sort")), (.lt, none), (.word, some (ascii "a b")), (.gtgt, none),
        (.word, some (ascii "c"))] ++ [(.nl, none)], []) := by
  have hc : Rendering [.word (ascii "c")] (ascii " " ++ ascii "c" ++ ([] ++ [chr '\n'])) :=
    .cons (forall_mem_of_all (by decide))
      (.bare ⟨by decide, forall_mem_of_all (by decide), by decide⟩) (.done (by simp)) (by simp)
  have hgtgt : Rendering [.op .gtgt, .word (ascii "c")] (ascii " " ++ _ ++ _) :=
    .cons (forall_mem_of_all (by decide)) (.op .gtgt) hc fun _ => ⟨chr ' ', rfl, by decide⟩
  have hab : Rendering [.word (ascii "a b"), .op .gtgt, .word (ascii "c")] (ascii "  " ++ _ ++ _) :=
    .cons (forall_mem_of_all (by decide)) (.quoted _) hgtgt fun _ => ⟨chr ' ', rfl, by decide⟩
  have hlt : Rendering [.op .lt, .word (ascii "a b"), .op .gtgt, .word (ascii "c")]
      (ascii " " ++ _ ++ _) :=
    .cons (forall_mem_of_all (by decide)) (.op .lt) hab fun _ => ⟨chr ' ', rfl, by decide⟩
  have hsort : Rendering [.word (ascii "sort"), .op .lt, .word (ascii "a b"), .op .gtgt,
      .word (ascii "c")] ([] ++ ascii "sort" ++ _) :=
    .cons (by simp) (.bare ⟨by decide, forall_mem_of_all (by decide), by decide⟩) hlt
      fun _ => ⟨chr ' ', rfl, by decide⟩
  refine gettokens_rendering false ?_ hsort (Vector.replicate 8 0 : WordBuf 8) []
  intro t ht
  simp only [mem_cons, not_mem_nil, or_false] at ht
  rcases ht with rfl | rfl | rfl | rfl | rfl
  · exact ⟨by decide, by decide⟩
  · trivial
  · exact ⟨by decide, by decide⟩
  · trivial
  · exact ⟨by decide, by decide⟩

end UnixPrograms.Gettoken
