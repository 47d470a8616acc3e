import UnixPrograms.Printd.Status
import Mathlib.Data.List.TakeWhile

/-!
# Well-formed responses

What `printer_status` looks for, as functions of the bytes: the number behind the first
`Content-Length:`, and what follows the first empty line after it (`scan`).  In a well-formed
response that is the body (`scan_response`), unless another field contains the same text before it.
-/

namespace UnixPrograms.Status

open List Option

/-! ## The response -/

/-- A header field with the content length `n`. -/
def IsLengthField (f : Bytes) (n : ℕ) : Prop :=
  ∃ name blanks digits rest : Bytes, f = name ++ blanks ++ digits ++ rest ∧
    name.map tolower = contentLength ∧ (∀ c ∈ blanks, c = 32 ∨ c = 9) ∧ digits ≠ [] ∧
    (∀ c ∈ digits, isDigit c = true) ∧ digitsValue digits = n ∧ (∀ c ∈ rest, c = 32 ∨ c = 9)

/-- A response of the printer: an HTTP header with a status line and a `Content-Length` field, and
an IPP body. -/
structure Response where
  /-- The two digits of the HTTP version. -/
  version : UInt8 × UInt8
  code : ℕ
  reason : Bytes
  /-- The header fields, without the ends of their lines. -/
  fields : List Bytes
  body : Bytes
  three_digits : 100 ≤ code ∧ code ≤ 999
  reason_line : 13 ∉ reason ∧ 10 ∉ reason
  field_lines : ∀ f ∈ fields, f ≠ [] ∧ 13 ∉ f ∧ 10 ∉ f
  length_field : ∃ f ∈ fields, IsLengthField f body.length
  /-- An IPP message has a version, a status and a request ID. -/
  ipp_body : 8 ≤ body.length

namespace Response

/-- The status line, up to its end. -/
def statusLine (r : Response) : Bytes :=
  [72, 84, 84, 80, 47, r.version.1, 46, r.version.2] ++ 32 :: decimal r.code ++ 32 :: r.reason

def afterStatus (body : Bytes) : List Bytes → Bytes
  | [] => 13 :: 10 :: body
  | f :: fs => f ++ 13 :: 10 :: afterStatus body fs

def bytes (r : Response) : Bytes := r.statusLine ++ 13 :: 10 :: afterStatus r.body r.fields

end Response

def ippOk (jobid : ℕ) : Bytes → Bool
  | _ :: _ :: s₀ :: s₁ :: r₀ :: r₁ :: r₂ :: r₃ :: _ =>
    statclassOk (s₀.toNat * 2 ^ 8 + s₁.toNat) &&
      decide (r₀.toNat * 2 ^ 24 + r₁.toNat * 2 ^ 16 + r₂.toNat * 2 ^ 8 + r₃.toNat = jobid)
  | _ => false

def verdict (jobid : ℕ) (r : Response) : Bool := httpSuccess r.code && ippOk jobid r.body

/-! ## What is looked for -/

/-- The bytes begin with the text, whatever the case of their letters. -/
def beginsWith : (text : Bytes) → Bytes → Bool
  | [], _ => true
  | _ :: _, [] => false
  | t :: ts, b :: bs => decide (tolower b = t) && beginsWith ts bs

/-- The number at the front, after white space, as `atoi` has it, and what is behind the byte that
ends it. -/
def number (bs : Bytes) : Option (ℤ × Bytes) :=
  let ds := bs.dropWhile isSpace
  match ds.dropWhile isDigit with
  | [] => none
  | _ :: rest => some (atoiValue (ds.takeWhile isDigit), rest)

/-- The number behind the first `Content-Length:`, and what is behind the byte that ends it. -/
def lengthField : Bytes → Option (ℤ × Bytes)
  | [] => none
  | c :: cs =>
    if beginsWith contentLength (c :: cs) then number ((c :: cs).drop 15) else lengthField cs

def headerEnd : Bytes → Option Bytes
  | [] => none
  | c :: cs => if c = 10 ∧ cs.take 2 = [13, 10] then some (cs.drop 2) else headerEnd cs

/-- The number behind the first `Content-Length:`, and what is behind the header. -/
def scan (bs : Bytes) : Option (ℤ × Bytes) :=
  (lengthField bs).bind fun (len, rest) => (headerEnd rest).map fun known => (len, known)

@[simp] lemma length_contentLength : contentLength.length = 15 := by decide

/-! ## A part of a response -/

variable {bs text rest known f : Bytes} {p : UInt8 → Bool} {len : ℤ}

/-- A number below 2 ^ 31 has this value. -/
lemma atoiValue_decimal {n : ℕ} (h : n < 2 ^ 31) : atoiValue (decimal n) = n := by
  have hvalue : atol (decimal n) = n := by simpa using @atol_decimal [] n nofun
  have hmin : Int64.minValue.toInt ≤ (n : ℤ) := le_trans (by decide) (Int.natCast_nonneg n)
  have hmax : (n : ℤ) ≤ Int64.maxValue.toInt :=
    le_trans (by omega) (by decide : (2147483648 : ℤ) ≤ Int64.maxValue.toInt)
  rw [atoiValue, hvalue, Int64.toInt_toInt32, Int64.toInt_ofIntClamp hmin hmax]
  exact Int.bmod_eq_of_le (by omega) (by omega)

lemma beginsWith_append (h : text.length ≤ bs.length) (x : Bytes) :
    beginsWith text (bs ++ x) = beginsWith text bs := by
  induction text generalizing bs with
  | nil => rfl
  | cons t ts ih =>
    cases bs with
    | nil => simp at h
    | cons b bs =>
      rw [cons_append, beginsWith, beginsWith, ih (Nat.le_of_succ_le_succ h)]

lemma length_le_of_beginsWith (h : beginsWith text bs = true) : text.length ≤ bs.length := by
  induction text generalizing bs with
  | nil => exact Nat.zero_le _
  | cons t ts ih =>
    cases bs with
    | nil => cases h
    | cons b bs =>
      rw [beginsWith, Bool.and_eq_true] at h
      exact Nat.succ_le_succ (ih h.2)

lemma dropWhile_append_of_ne_nil (h : bs.dropWhile p ≠ []) (x : Bytes) :
    (bs ++ x).dropWhile p = bs.dropWhile p ++ x ∧
      (bs ++ x).takeWhile p = bs.takeWhile p := by
  induction bs with
  | nil => exact absurd rfl h
  | cons b bs ih =>
    by_cases hb : p b = true
    · simp only [cons_append, dropWhile_cons_of_pos hb, takeWhile_cons_of_pos hb] at h ⊢
      exact ⟨(ih h).1, congrArg (b :: ·) (ih h).2⟩
    · simp only [cons_append, dropWhile_cons_of_neg hb, takeWhile_cons_of_neg hb, and_self]

lemma not_of_dropWhile {cs : Bytes} {c : UInt8} (h : bs.dropWhile p = c :: cs) : p c = false := by
  have hhead := List.head?_dropWhile_not p bs
  rw [h] at hhead
  simpa using hhead

lemma number_append (h : number bs = some (len, rest)) (x : Bytes) :
    number (bs ++ x) = some (len, rest ++ x) := by
  rw [number] at h ⊢
  cases hds : (bs.dropWhile isSpace).dropWhile isDigit with
  | nil =>
    rw [hds] at h
    cases h
  | cons c cs =>
    rw [hds] at h
    obtain ⟨rfl, rfl⟩ := Prod.mk.inj (some.inj h)
    have hne : bs.dropWhile isSpace ≠ [] := by
      intro hnil
      rw [hnil] at hds
      cases hds
    obtain ⟨hspace, -⟩ := dropWhile_append_of_ne_nil hne x
    obtain ⟨hdrop, htake⟩ := dropWhile_append_of_ne_nil (by rw [hds]; exact cons_ne_nil c cs) x
    rw [hspace, hdrop, htake, hds]
    rfl

lemma exists_of_number (h : number bs = some (len, rest)) :
    ∃ sp ds w, bs = sp ++ (ds ++ w :: rest) ∧ (∀ b ∈ sp, isSpace b = true) ∧
      (∀ b ∈ ds, isDigit b = true) ∧ isDigit w = false ∧ (ds = [] → isSpace w = false) ∧
      len = atoiValue ds := by
  rw [number] at h
  split at h
  · cases h
  · rename_i w rest' hds
    obtain ⟨rfl, rfl⟩ := Prod.mk.inj (some.inj h)
    have hdigits := takeWhile_append_dropWhile (p := isDigit) (l := bs.dropWhile isSpace)
    have hspaces := takeWhile_append_dropWhile (p := isSpace) (l := bs)
    rw [hds] at hdigits
    refine ⟨bs.takeWhile isSpace, (bs.dropWhile isSpace).takeWhile isDigit, w, ?_,
      fun b hb => mem_takeWhile_imp hb, fun b hb => mem_takeWhile_imp hb, ?_, fun hnil => ?_, rfl⟩
    · rw [hdigits, hspaces]
    · exact not_of_dropWhile hds
    · rw [hnil, nil_append] at hdigits
      exact not_of_dropWhile hdigits.symm

lemma exists_of_number_none (h : number bs = none) :
    ∃ sp ds, bs = sp ++ ds ∧ (∀ b ∈ sp, isSpace b = true) ∧ ∀ b ∈ ds, isDigit b = true := by
  rw [number] at h
  split at h
  · rename_i hds
    exact ⟨bs.takeWhile isSpace, bs.dropWhile isSpace, takeWhile_append_dropWhile.symm,
      fun b hb => mem_takeWhile_imp hb, dropWhile_eq_nil_iff.mp hds⟩
  · cases h

lemma length_le_of_lengthField (h : lengthField bs = some (len, rest)) : 15 ≤ bs.length := by
  induction bs with
  | nil => cases h
  | cons c cs ih =>
    rw [lengthField] at h
    split at h
    · exact length_contentLength ▸ length_le_of_beginsWith ‹_›
    · exact (ih h).trans (Nat.le_succ _)

lemma lengthField_append (h : lengthField bs = some (len, rest)) (x : Bytes) :
    lengthField (bs ++ x) = some (len, rest ++ x) := by
  have hlen := length_le_of_lengthField h
  induction bs with
  | nil => cases h
  | cons c cs ih =>
    rw [cons_append, lengthField, ← cons_append,
      beginsWith_append (length_contentLength.trans_le hlen)]
    rw [lengthField] at h
    split at h
    · rename_i hbegins
      rw [if_pos hbegins, drop_append_of_le_length hlen]
      exact number_append h x
    · rename_i hbegins
      rw [if_neg hbegins]
      exact ih h (length_le_of_lengthField h)

lemma length_of_headerEnd (h : headerEnd bs = some known) : known.length + 3 ≤ bs.length := by
  induction bs with
  | nil => cases h
  | cons c cs ih =>
    rw [headerEnd] at h
    split at h
    · rename_i hend
      have hlen := congrArg List.length hend.2
      have hknown := congrArg List.length (some.inj h)
      simp only [length_take, length_cons, length_nil, length_drop]
        at hlen hknown ⊢
      omega
    · exact (ih h).trans (Nat.le_succ _)

lemma headerEnd_append (h : headerEnd bs = some known) (x : Bytes) :
    headerEnd (bs ++ x) = some (known ++ x) := by
  induction bs with
  | nil => cases h
  | cons c cs ih =>
    have hlen := length_of_headerEnd h
    rw [length_cons] at hlen
    have htwo : 2 ≤ cs.length := by omega
    rw [cons_append, headerEnd, take_append_of_le_length htwo, drop_append_of_le_length htwo]
    rw [headerEnd] at h
    split at h
    · rename_i hend
      rw [if_pos hend, ← some.inj h]
    · rename_i hend
      rw [if_neg hend]
      exact ih h

lemma scan_append (h : scan bs = some (len, known)) (x : Bytes) :
    scan (bs ++ x) = some (len, known ++ x) := by
  rw [scan] at h ⊢
  obtain ⟨⟨len', rest⟩, hlen, hend⟩ := bind_eq_some_iff.mp h
  obtain ⟨known', hknown, heq⟩ := map_eq_some_iff.mp hend
  obtain ⟨rfl, rfl⟩ := Prod.mk.inj heq
  rw [lengthField_append hlen x]
  simp [headerEnd_append hknown x]

/-! ## A whole response -/

lemma exists_dropWhile (bs : Bytes) {y : UInt8} (hy : p y = false) (ys : Bytes) :
    ∃ z, (bs ++ y :: ys).dropWhile p = z ++ y :: ys := by
  induction bs with
  | nil => exact ⟨[], by simp [hy]⟩
  | cons b bs ih =>
    by_cases hb : p b = true
    · obtain ⟨z, hz⟩ := ih
      exact ⟨z, by rw [cons_append, dropWhile_cons_of_pos hb, hz]⟩
    · exact ⟨b :: bs, by rw [cons_append, dropWhile_cons_of_neg hb]⟩

/-- A number ends at the latest at a byte `w` that is not a digit and that does not come in the
white space in front of the number. -/
lemma number_ends (bs vs : Bytes) {w : UInt8} (ys : Bytes)
    (hhead : ∀ y ∈ (vs ++ [w]).head?, isSpace y = false) (hw : isDigit w = false) :
    ∃ len z, number (bs ++ (vs ++ w :: ys)) = some (len, z ++ ys) := by
  have hspace : ∃ z, (bs ++ (vs ++ w :: ys)).dropWhile isSpace = z ++ w :: ys := by
    cases vs with
    | nil => exact exists_dropWhile bs (hhead w rfl) ys
    | cons v vs =>
      obtain ⟨z, hz⟩ := exists_dropWhile bs (hhead v rfl) (vs ++ w :: ys)
      exact ⟨z ++ v :: vs, by simpa using hz⟩
  obtain ⟨z, hz⟩ := hspace
  obtain ⟨z', hz'⟩ := exists_dropWhile z hw ys
  rw [number, hz, hz']
  cases z' with
  | nil => exact ⟨_, [], rfl⟩
  | cons c cs => exact ⟨atoiValue ((z ++ w :: ys).takeWhile isDigit), cs ++ [w], by simp⟩

lemma length_le_of_beginsWith_line {ys : Bytes} (htext : 10 ∉ text)
    (h : beginsWith text (bs ++ 10 :: ys) = true) : text.length ≤ bs.length := by
  induction text generalizing bs with
  | nil => exact Nat.zero_le _
  | cons t ts ih =>
    cases bs with
    | nil =>
      rw [nil_append, beginsWith, Bool.and_eq_true] at h
      have ht : tolower 10 = t := of_decide_eq_true h.1
      exact absurd (ht ▸ mem_cons_self) htext
    | cons b bs =>
      rw [cons_append, beginsWith, Bool.and_eq_true] at h
      exact Nat.succ_le_succ (ih (fun hmem => htext (mem_cons_of_mem t hmem)) h.2)

lemma beginsWith_of_map {name : Bytes} (h : name.map tolower = text) (x : Bytes) :
    beginsWith text (name ++ x) = true := by
  induction text generalizing name with
  | nil => rfl
  | cons t ts ih =>
    cases name with
    | nil => cases h
    | cons b bs =>
      obtain ⟨rfl, hbs⟩ := List.cons.inj h
      simp [beginsWith, ih hbs]

lemma not_space_of_tolower {c : UInt8} (h : tolower c = 99) :
    isSpace c = false ∧ isDigit c = false := by
  unfold tolower at h
  split at h
  · have hc : c = 67 := by
      have := congrArg (· - 32) h
      simpa using this
    subst hc
    decide
  · subst h
    decide

lemma lengthField_of_isLengthField {n : ℕ} (hf : IsLengthField f n) (ys : Bytes) :
    (∃ c cs, f = c :: cs ∧ tolower c = 99) ∧
      ∃ len z, lengthField (f ++ 13 :: 10 :: ys) = some (len, z ++ 10 :: ys) := by
  obtain ⟨name, blanks, digits, rest, rfl, hname, -, hne, hdigits, -, hrest⟩ := hf
  have hlen : name.length = 15 := by rw [← length_contentLength, ← hname, length_map]
  obtain ⟨c, cs, rfl⟩ := exists_cons_of_length_pos (l := name) (by omega)
  obtain ⟨d, ds, rfl⟩ := exists_cons_of_ne_nil hne
  have hc : tolower c = 99 := (List.cons.inj hname).1
  refine ⟨⟨c, _, rfl, hc⟩, ?_⟩
  have hd : isSpace d = false := isSpace_of_isDigit (hdigits d mem_cons_self)
  have hbegins : beginsWith contentLength
      ((c :: cs) ++ (blanks ++ (d :: ds ++ (rest ++ 13 :: 10 :: ys)))) = true :=
    beginsWith_of_map hname _
  have hfield : c :: cs ++ blanks ++ d :: ds ++ rest ++ 13 :: 10 :: ys =
      (c :: cs) ++ (blanks ++ (d :: ds ++ (rest ++ 13 :: 10 :: ys))) := by simp
  rw [hfield]
  rw [cons_append] at hbegins ⊢
  rw [lengthField, if_pos hbegins, ← cons_append, drop_left' hlen]
  -- the byte behind the digits ends the number
  cases rest with
  | nil => exact number_ends blanks (d :: ds) (10 :: ys) (by simpa using hd) (by decide)
  | cons w rest =>
    have hw : isDigit w = false := by
      rcases hrest w mem_cons_self with rfl | rfl
      · decide
      · decide
    obtain ⟨len, z, hz⟩ :=
      number_ends blanks (d :: ds) (rest ++ 13 :: 10 :: ys) (by simpa using hd) hw
    refine ⟨len, z ++ rest ++ [13], ?_⟩
    simpa using hz

lemma lengthField_of_header {n : ℕ} (hf : IsLengthField f n) (ys : Bytes) {before : Bytes}
    (hbefore : before = [] ∨ ∃ bs, before = bs ++ [10]) :
    ∃ len z, lengthField (before ++ (f ++ 13 :: 10 :: ys)) = some (len, z ++ 10 :: ys) := by
  obtain ⟨⟨c, cs, hc, hlower⟩, hlast⟩ := lengthField_of_isLengthField hf ys
  obtain ⟨hspace, hdigit⟩ := not_space_of_tolower hlower
  induction before with
  | nil => exact hlast
  | cons b before ih =>
    rw [cons_append, lengthField]
    split
    · rename_i hbegins
      -- the text is found within an earlier line, and the number ends before the field
      obtain hnil | ⟨bs, hbs⟩ := hbefore
      · cases hnil
      · have hwhole : b :: (before ++ (f ++ 13 :: 10 :: ys)) =
          bs ++ 10 :: (f ++ 13 :: 10 :: ys) := by
          rw [← cons_append, hbs]
          simp
        rw [hwhole] at hbegins ⊢
        have hlen := length_le_of_beginsWith_line (by decide) hbegins
        rw [length_contentLength] at hlen
        obtain ⟨len, z, hz⟩ := number_ends (bs.drop 15 ++ [10]) [] (cs ++ 13 :: 10 :: ys)
          (by simpa using hspace) hdigit
        refine ⟨len, z ++ cs ++ [13], ?_⟩
        rw [drop_append_of_le_length hlen, hc]
        simpa using hz
    · refine ih ?_
      obtain hnil | ⟨bs, hbs⟩ := hbefore
      · cases hnil
      · cases bs with
        | nil => exact .inl (List.cons.inj hbs).2
        | cons b' bs => exact .inr ⟨bs, (List.cons.inj hbs).2⟩

lemma suffix_of_lengthField (h : lengthField bs = some (len, rest)) : rest <:+ bs := by
  induction bs with
  | nil => cases h
  | cons c cs ih =>
    rw [lengthField] at h
    split at h
    · rw [number] at h
      split at h
      · cases h
      · rename_i hds
        obtain ⟨-, rfl⟩ := Prod.mk.inj (some.inj h)
        have hdigits := (suffix_cons _ _).trans (hds ▸ dropWhile_suffix isDigit)
        exact (hdigits.trans (dropWhile_suffix isSpace)).trans (drop_suffix 15 _)
    · exact (ih h).trans (suffix_cons c cs)

lemma length_of_scan (h : scan bs = some (len, known)) : known.length + 3 ≤ bs.length := by
  rw [scan] at h
  obtain ⟨⟨len', rest⟩, hlen, hend⟩ := bind_eq_some_iff.mp h
  obtain ⟨known', hknown, heq⟩ := map_eq_some_iff.mp hend
  obtain ⟨rfl, rfl⟩ := Prod.mk.inj heq
  exact (length_of_headerEnd hknown).trans (suffix_of_lengthField hlen).length_le

lemma headerEnd_skip {g : Bytes} (hg : 10 ∉ g) (ys : Bytes) :
    headerEnd (g ++ ys) = headerEnd ys := by
  induction g with
  | nil => rfl
  | cons c g ih =>
    rw [mem_cons, not_or] at hg
    rw [cons_append, headerEnd, if_neg fun h => hg.1 h.1.symm, ih hg.2]

lemma headerEnd_suffix_skip {g : Bytes} (hg : 10 ∉ g) {s ys : Bytes} (h : s <:+ g ++ ys) :
    s <:+ ys ∨ headerEnd s = headerEnd ys := by
  induction g with
  | nil => exact .inl h
  | cons c g ih =>
    rcases suffix_cons_iff.mp h with rfl | h
    · exact .inr (headerEnd_skip hg ys)
    · exact ih (fun hmem => hg (mem_cons_of_mem c hmem)) h

lemma headerEnd_line (hne : f ≠ []) (hcr : 13 ∉ f) (ys : Bytes) :
    headerEnd (10 :: (f ++ ys)) = headerEnd (f ++ ys) := by
  obtain ⟨c, cs, rfl⟩ := exists_cons_of_ne_nil hne
  rw [headerEnd, if_neg]
  rintro ⟨-, htake⟩
  exact hcr ((List.cons.inj htake).1 ▸ mem_cons_self)

lemma Response.length_body_le (body : Bytes) (fs : List Bytes) :
    body.length + 2 ≤ (afterStatus body fs).length := by
  induction fs with
  | nil => exact le_rfl
  | cons f fs ih =>
    rw [afterStatus, length_append, length_cons, length_cons]
    omega

lemma Response.exists_afterStatus (body : Bytes) (gs hs : List Bytes) :
    ∃ bs, 13 :: 10 :: afterStatus body (gs ++ hs) = bs ++ 10 :: afterStatus body hs := by
  induction gs with
  | nil => exact ⟨[13], rfl⟩
  | cons g gs ih =>
    obtain ⟨bs, hbs⟩ := ih
    refine ⟨13 :: 10 :: g ++ bs, ?_⟩
    rw [cons_append, afterStatus, hbs]
    simp

lemma headerEnd_of_suffix {body : Bytes} {fs : List Bytes}
    (hfs : ∀ f ∈ fs, f ≠ [] ∧ 13 ∉ f ∧ 10 ∉ f) {s : Bytes}
    (hs : s <:+ 10 :: Response.afterStatus body fs) (hlen : body.length + 3 ≤ s.length) :
    headerEnd s = some body := by
  induction fs generalizing s with
  | nil =>
    have hall : s = 10 :: Response.afterStatus body [] := hs.eq_of_length_le hlen
    rw [hall, Response.afterStatus, headerEnd, if_pos ⟨rfl, rfl⟩]
    rfl
  | cons f fs ih =>
    obtain ⟨hne, hcr, hlf⟩ := hfs f mem_cons_self
    have hfs' := fun g hg => hfs g (mem_cons_of_mem f hg)
    have hg : 10 ∉ f ++ [13] := by simpa using hlf
    have hwhole : headerEnd (10 :: Response.afterStatus body fs) = some body := by
      refine ih hfs' suffix_rfl ?_
      rw [length_cons]
      exact Nat.succ_le_succ (Response.length_body_le body fs)
    have hline : Response.afterStatus body (f :: fs) =
        (f ++ [13]) ++ 10 :: Response.afterStatus body fs := by simp [Response.afterStatus]
    have hrest : headerEnd (Response.afterStatus body (f :: fs)) = some body := by
      rw [hline, headerEnd_skip hg, hwhole]
    rcases suffix_cons_iff.mp hs with rfl | hs
    · rw [Response.afterStatus, headerEnd_line hne hcr]
      exact hrest
    · rw [hline] at hs
      rcases headerEnd_suffix_skip hg hs with hs | hs
      · exact ih hfs' hs hlen
      · rw [hs, hwhole]

lemma scan_response (r : Response) :
    ∃ len, scan (13 :: 10 :: Response.afterStatus r.body r.fields) = some (len, r.body) := by
  obtain ⟨f, hmem, hf⟩ := r.length_field
  obtain ⟨before, fs, hfields⟩ := append_of_mem hmem
  obtain ⟨bs, hbs⟩ := Response.exists_afterStatus r.body before (f :: fs)
  rw [← hfields, Response.afterStatus] at hbs
  have hheader : 13 :: 10 :: Response.afterStatus r.body r.fields =
      (bs ++ [10]) ++ (f ++ 13 :: 10 :: Response.afterStatus r.body fs) := by
    rw [hbs]
    simp
  obtain ⟨len, z, hz⟩ := lengthField_of_header hf (Response.afterStatus r.body fs) (.inr ⟨bs, rfl⟩)
  rw [← hheader] at hz
  have hlen : r.body.length + 3 ≤ (z ++ 10 :: Response.afterStatus r.body fs).length := by
    have := Response.length_body_le r.body fs
    rw [length_append, length_cons]
    omega
  -- the header ends where the body begins, wherever the search for its end begins
  have hend : headerEnd (z ++ 10 :: Response.afterStatus r.body fs) = some r.body := by
    rcases suffix_cons_iff.mp (suffix_of_lengthField hz) with heq | hs
    · rw [heq]
      exact (headerEnd_skip (g := [13]) (by decide) _).trans
        (headerEnd_of_suffix r.field_lines suffix_rfl
          (Nat.succ_le_succ (Response.length_body_le r.body r.fields)))
    · exact headerEnd_of_suffix r.field_lines hs hlen
  exact ⟨len, by simp [scan, hz, hend]⟩

lemma body_of_scan {r : Response} {first : Bytes}
    (hall : first ++ rest = 13 :: 10 :: Response.afterStatus r.body r.fields)
    (h : scan first = some (len, known)) : r.body = known ++ rest := by
  obtain ⟨len', hscan⟩ := scan_response r
  have hwhole := scan_append h rest
  rw [hall, hscan] at hwhole
  exact (Prod.mk.inj (some.inj hwhole)).2

end UnixPrograms.Status
