import UnixPrograms.Lib.Bindings
import UnixPrograms.Lib.Text

/-!
# The environment: setenv.c

`setenv` writes a new value over the old one if it is not longer; otherwise it allocates a string,
and for a new name first a larger array.  As long as no call gets the array and then not the string,
every call that succeeds updates the map that `environ` represents (`Represents`) and every other
one changes nothing (`faithful_iff`).

Strings and arguments lie in blocks of their own.
-/

namespace UnixPrograms.Setenv

open Function List Option

def equals : UInt8 := chr '='

inductive Cell where
  | null
  /-- The string at the front of a block. -/
  | ptr (block : ℕ)
  /-- Memory from `malloc` that has not been written. -/
  | junk
  deriving DecidableEq

/-- The blocks of the strings, and the array that `environ` points to. -/
structure State where
  strings : List Bytes
  environ : List Cell

/-- What a call returns: 0, -1 with `errno` set to `EINVAL`, or -1 after a failure of `malloc`. -/
inductive Ret where
  | zero
  | einval
  | nomem
  deriving DecidableEq

/-- The name that the calls refuse: `var[0] == '\0' || strchr(var, '=') != NULL`. -/
def Invalid (var : CString) : Prop := var.val = [] ∨ equals ∈ var.val

instance : DecidablePred Invalid := fun _ => inferInstanceAs (Decidable (_ ∨ _))

/-- `strncmp(entry, var, varlen) == 0 && entry[varlen] == '='`. -/
def isEntryOf (entry var : Bytes) : Bool :=
  (cstr entry).take var.length = var ∧ entry[var.length]? = some equals

/-- The loop of `setenv`: the index at which it ends, and the block of the string there if there is
one. It is `none` if the loop runs into memory that has not been written or over the end of the
array. -/
def search (strings : List Bytes) (var : Bytes) : List Cell → ℕ → Option (ℕ × Option ℕ)
  | [], _ => none
  | .null :: _, i => some (i, none)
  | .junk :: _, _ => none
  | .ptr b :: cells, i =>
    match strings[b]? with
    | none => none
    | some entry =>
      if isEntryOf entry var then some (i, some b) else search strings var cells (i + 1)

/-- The loop of `unsetenv`: the index of the null pointer, and the last index found. -/
def scan (strings : List Bytes) (var : Bytes) :
    List Cell → ℕ → Option ℕ → Option (ℕ × Option ℕ)
  | [], _, _ => none
  | .null :: _, i, found => some (i, found)
  | .junk :: _, _, _ => none
  | .ptr b :: cells, i, found =>
    match strings[b]? with
    | none => none
    | some entry =>
      scan strings var cells (i + 1) (if isEntryOf entry var then some i else found)

/-- `strcpy` to a place in a block; `none` if it writes over the end. -/
def strcpy (block : Bytes) (off : ℕ) (src : Bytes) : Option Bytes :=
  if off + src.length + 1 ≤ block.length then
    some (block.take off ++ (src ++ 0 :: block.drop (off + src.length + 1)))
  else none

def setnew (s : State) (i : ℕ) (var val : Bytes) (malloc : Bool) : Ret × State :=
  if malloc then
    (.zero, { strings := s.strings ++ [var ++ equals :: (val ++ [0])]
              environ := s.environ.set i (.ptr s.strings.length) })
  else (.nomem, s)

/-- `setenv`; the two calls of `malloc`, for an array and for a string, succeed or fail. -/
def setenv (s : State) (var val : Option CString) (overwrite mallocArray mallocString : Bool) :
    Option (Ret × State) :=
  match var, val with
  | some var, some val =>
    if Invalid var then some (.einval, s)
    else
      match search s.strings var s.environ 0 with
      | none => none
      | some (i, none) =>
        if mallocArray then
          let e := s.environ.take i ++ [.junk, .null]
          some (setnew { s with environ := e } i var val mallocString)
        else some (.nomem, s)
      | some (i, some b) =>
        if overwrite then
          let entry := s.strings.getD b []
          if val.val.length ≤ (cstr (entry.drop (var.val.length + 1))).length then
            (strcpy entry (var.val.length + 1) val).map fun entry =>
              (.zero, { s with strings := s.strings.set b entry })
          else some (setnew s i var val mallocString)
        else some (.zero, s)
  | _, _ => some (.einval, s)

def unsetenv (s : State) (var : Option CString) : Option (Ret × State) :=
  match var with
  | some var =>
    if Invalid var then some (.einval, s)
    else
      match scan s.strings var s.environ 0 none with
      | none => none
      | some (_, none) => some (.zero, s)
      | some (i, some found) =>
        -- `memmove` of the elements from `found + 1` to `i`
        let environ := s.environ.take found ++ ((s.environ.drop (found + 1)).take (i - found) ++
          s.environ.drop i)
        some (.zero, { s with environ := environ })
  | none => some (.einval, s)

inductive Call where
  | setenv (var val : Option CString) (overwrite mallocArray mallocString : Bool)
  | unsetenv (var : Option CString)

def perform (s : State) : Call → Option (Ret × State)
  | .setenv var val overwrite mallocArray mallocString =>
    setenv s var val overwrite mallocArray mallocString
  | .unsetenv var => unsetenv s var

/-! ## The environment as a map -/

structure Entry where
  block : ℕ
  name : Bytes
  value : Bytes
  name_eq : equals ∉ name
  name_nul : (0 : UInt8) ∉ name
  value_nul : (0 : UInt8) ∉ value

def Entry.text (e : Entry) : Bytes := e.name ++ equals :: e.value

/-- The string of an entry is at the front of its block. -/
def Stands (strings : List Bytes) (e : Entry) : Prop :=
  ∃ rest, strings[e.block]? = some (e.text ++ 0 :: rest)

def cells (es : List Entry) : List Cell := es.map fun e => .ptr e.block

/-- The array has the entries `es` and then a null pointer, and no name occurs twice. -/
structure Holds (s : State) (es : List Entry) : Prop where
  array : ∃ rest, s.environ = cells es ++ .null :: rest
  stands : ∀ e ∈ es, Stands s.strings e
  names : (es.map Entry.name).Nodup

abbrev Map := Bytes → Option Bytes

/-- The environment is in order, and it is the map `m`. -/
def Represents (s : State) (m : Map) : Prop :=
  ∃ es, Holds s es ∧ m = bindings Entry.name Entry.value es

def Call.effect (m : Map) : Call → Map
  | .setenv (some var) (some val) overwrite _ _ =>
    if overwrite = false ∧ m var ≠ none then m else update m var (some val.val)
  | .unsetenv (some var) => update m var none
  | _ => m

/-- Every call updates the map if it returns 0, and changes nothing if it returns -1. -/
def Faithful (s : State) (m : Map) : List Call → Prop
  | [] => True
  | c :: cs => ∃ ret s', perform s c = some (ret, s') ∧
    if ret = .zero then Represents s' (c.effect m) ∧ Faithful s' (c.effect m) cs
    else s' = s ∧ Faithful s m cs

/-- What a call returns, as far as the map says. -/
def Call.result (m : Map) : Call → Ret
  | .setenv (some var) (some val) overwrite mallocArray mallocString =>
    if Invalid var then .einval
    else
      match m var with
      | none => if mallocArray ∧ mallocString then .zero else .nomem
      | some old =>
        if overwrite = false ∨ val.val.length ≤ old.length ∨ mallocString then .zero else .nomem
  | .unsetenv (some var) => if Invalid var then .einval else .zero
  | _ => .einval

/-- A call with a new name gets an array and no string. -/
def Call.GetsOnlyArray (m : Map) : Call → Prop
  | .setenv (some var) (some _) _ mallocArray mallocString =>
    ¬ Invalid var ∧ m var = none ∧ mallocArray = true ∧ mallocString = false
  | _ => False

/-- No call gets an array and no string. -/
def Complete (m : Map) : List Call → Prop
  | [] => True
  | c :: cs => ¬ c.GetsOnlyArray m ∧
    Complete (if c.result m = .zero then c.effect m else m) cs

/-! ## The loops -/

section Loops

variable {strings : List Bytes} {var : Bytes} {e : Entry} {l : List Entry}

lemma Entry.text_nul (e : Entry) : (0 : UInt8) ∉ e.text := by
  rw [Entry.text, mem_append, mem_cons, not_or, not_or]
  exact ⟨e.name_nul, by decide, e.value_nul⟩

lemma isEntryOf_iff (hvar : equals ∉ var) (e : Entry) (rest : Bytes) :
    isEntryOf (e.text ++ 0 :: rest) var = true ↔ e.name = var := by
  rw [isEntryOf, decide_eq_true_iff, cstr_append e.text_nul]
  constructor
  · rintro ⟨htake, hchar⟩
    have hle : var.length ≤ e.text.length := by
      rw [← htake, length_take]
      exact min_le_right _ _
    rcases hle.lt_or_eq with hlt | heq
    · rw [getElem?_append_left hlt] at hchar
      obtain ⟨hlen, hget⟩ := List.getElem?_eq_some_iff.mp hchar
      have hsplit : e.text = var ++ equals :: e.text.drop (var.length + 1) := by
        conv_lhs => rw [← take_append_drop var.length e.text, htake, drop_eq_getElem_cons hlt, hget]
      exact (append_sep_inj e.name_eq hvar hsplit).1
    · rw [heq, getElem?_append_right le_rfl, Nat.sub_self] at hchar
      exact absurd (some.inj hchar) (by decide)
  · rintro rfl
    constructor
    · rw [Entry.text, take_left]
    · rw [Entry.text, append_assoc, getElem?_append_right le_rfl, Nat.sub_self]
      rfl

lemma isEntryOf_of_ne (hvar : equals ∉ var) (hne : e.name ≠ var) (rest : Bytes) :
    isEntryOf (e.text ++ 0 :: rest) var = false := by
  rw [Bool.eq_false_iff, Ne, isEntryOf_iff hvar]
  exact hne

lemma cells_append (l₁ l₂ : List Entry) : cells (l₁ ++ l₂) = cells l₁ ++ cells l₂ :=
  map_append

/-- A loop that passes over the entries of other names. -/
lemma loop_append {β : Type} (loop : List Cell → ℕ → β)
    (hloop : ∀ e ∈ l, ∀ tail i, loop (.ptr e.block :: tail) i = loop tail (i + 1))
    (tail : List Cell) (i : ℕ) : loop (cells l ++ tail) i = loop tail (i + l.length) := by
  induction l generalizing i with
  | nil => rfl
  | cons e l ih =>
    have htail := ih (fun e he => hloop e (mem_cons_of_mem _ he)) (i + 1)
    rw [length_cons, Nat.add_comm l.length, ← Nat.add_assoc, ← htail]
    exact hloop e mem_cons_self (cells l ++ tail) i

lemma search_append (hvar : equals ∉ var) (hstands : ∀ e ∈ l, Stands strings e)
    (hne : ∀ e ∈ l, e.name ≠ var) (tail : List Cell) (i : ℕ) :
    search strings var (cells l ++ tail) i = search strings var tail (i + l.length) := by
  refine loop_append (search strings var) (fun e he tail i => ?_) tail i
  obtain ⟨rest, hrest⟩ := hstands e he
  rw [search, hrest]
  dsimp only
  rw [isEntryOf_of_ne hvar (hne e he), if_neg Bool.false_ne_true]

lemma search_found (hvar : equals ∉ var) (hstands : Stands strings e) (hname : e.name = var)
    (tail : List Cell) (i : ℕ) :
    search strings var (.ptr e.block :: tail) i = some (i, some e.block) := by
  obtain ⟨rest, he⟩ := hstands
  rw [search, he]
  dsimp only
  rw [if_pos ((isEntryOf_iff hvar e rest).mpr hname)]

lemma scan_append (hvar : equals ∉ var) (hstands : ∀ e ∈ l, Stands strings e)
    (hne : ∀ e ∈ l, e.name ≠ var) (tail : List Cell) (i : ℕ) (found : Option ℕ) :
    scan strings var (cells l ++ tail) i found = scan strings var tail (i + l.length) found := by
  refine loop_append (scan strings var · · found) (fun e he tail i => ?_) tail i
  obtain ⟨rest, hrest⟩ := hstands e he
  rw [scan, hrest]
  dsimp only
  rw [isEntryOf_of_ne hvar (hne e he), if_neg Bool.false_ne_true]

lemma scan_found (hvar : equals ∉ var) (hstands : Stands strings e) (hname : e.name = var)
    (tail : List Cell) (i : ℕ) (found : Option ℕ) :
    scan strings var (.ptr e.block :: tail) i found = scan strings var tail (i + 1) (some i) := by
  obtain ⟨rest, he⟩ := hstands
  rw [scan, he]
  dsimp only
  rw [if_pos ((isEntryOf_iff hvar e rest).mpr hname)]

end Loops

/-! ## What the calls do to the entries -/

section Entries

variable {strings : List Bytes} {e e' : Entry}

lemma Stands.append (h : Stands strings e) (block : Bytes) : Stands (strings ++ [block]) e := by
  obtain ⟨rest, he⟩ := h
  exact ⟨rest, by rw [getElem?_append_left (List.getElem?_eq_some_iff.mp he).1, he]⟩

lemma Stands.set_of_ne (h : Stands strings e) {b : ℕ} (hne : b ≠ e.block) (block : Bytes) :
    Stands (strings.set b block) e := by
  obtain ⟨rest, he⟩ := h
  exact ⟨rest, by rw [getElem?_set_ne hne, he]⟩

lemma Stands.block_ne (h : Stands strings e) (h' : Stands strings e') (hne : e.name ≠ e'.name) :
    e'.block ≠ e.block := by
  intro hblock
  obtain ⟨rest, he⟩ := h
  obtain ⟨rest', he'⟩ := h'
  rw [hblock, he, some.injEq] at he'
  have htext : e.text = e'.text := (append_sep_inj e.text_nul e'.text_nul he').1
  exact hne (append_sep_inj e.name_eq e'.name_eq htext).1

variable {s : State} {es l₁ l₂ : List Entry} {var val : CString}

lemma length_cells (es : List Entry) : (cells es).length = es.length := length_map _

lemma Holds.search_none (h : Holds s es) (hvar : equals ∉ var.val) (hne : ∀ e ∈ es, e.name ≠ var) :
    search s.strings var s.environ 0 = some (es.length, none) := by
  obtain ⟨rest, harray⟩ := h.array
  rw [harray, search_append hvar h.stands hne, Nat.zero_add, search]

lemma Holds.scan_none (h : Holds s es) (hvar : equals ∉ var.val) (hne : ∀ e ∈ es, e.name ≠ var) :
    scan s.strings var s.environ 0 none = some (es.length, none) := by
  obtain ⟨rest, harray⟩ := h.array
  rw [harray, scan_append hvar h.stands hne, Nat.zero_add, scan]

def newEntry (block : ℕ) (var val : CString) (hvar : equals ∉ var.val) : Entry :=
  ⟨block, var, val, hvar, var.property, val.property⟩

lemma stands_newEntry (strings : List Bytes) (hvar : equals ∉ var.val) :
    Stands (strings ++ [var.val ++ equals :: (val.val ++ [0])])
      (newEntry strings.length var val hvar) := by
  refine ⟨[], ?_⟩
  change (strings ++ [_])[strings.length]? = _
  rw [getElem?_concat_length]
  simp [Entry.text, newEntry]

lemma Holds.append (h : Holds s es) (hvar : equals ∉ var.val) (hne : ∀ e ∈ es, e.name ≠ var) :
    Holds (setnew { s with environ := s.environ.take es.length ++ [.junk, .null] } es.length var val
      true).2 (es ++ [newEntry s.strings.length var val hvar]) where
  array := by
    obtain ⟨rest, harray⟩ := h.array
    refine ⟨[], ?_⟩
    change (s.environ.take es.length ++ [Cell.junk, Cell.null]).set es.length _ = _
    rw [harray, ← length_cells es, take_left, set_append_right _ _ le_rfl, Nat.sub_self,
      cells_append, append_assoc]
    rfl
  stands := by
    intro e he
    rcases mem_append.mp he with hes | hnew
    · exact (h.stands e hes).append _
    · rw [mem_singleton.mp hnew]
      exact stands_newEntry _ hvar
  names := by
    rw [nodup_keys_middle, append_nil]
    exact ⟨hne, h.names⟩

section

variable (h : Holds s (l₁ ++ e :: l₂))
include h

lemma Holds.name_ne : ∀ e' ∈ l₁ ++ l₂, e'.name ≠ e.name :=
  (nodup_keys_middle.mp h.names).1

lemma Holds.stands_middle :
    Stands s.strings e ∧ ∀ e' ∈ l₁ ++ l₂, Stands s.strings e' :=
  forall_mem_middle.mp h.stands

lemma Holds.array_middle :
    ∃ rest, s.environ = cells l₁ ++ .ptr e.block :: (cells l₂ ++ .null :: rest) := by
  obtain ⟨rest, harray⟩ := h.array
  refine ⟨rest, ?_⟩
  rw [harray, cells_append, append_assoc]
  rfl

lemma Holds.remove :
    Holds { s with
      environ := s.environ.take l₁.length ++ ((s.environ.drop (l₁.length + 1)).take
        (l₁.length + 1 + l₂.length - l₁.length) ++
          s.environ.drop (l₁.length + 1 + l₂.length)) } (l₁ ++ l₂) where
  array := by
    obtain ⟨rest, harray⟩ := h.array_middle
    have htake : s.environ.take l₁.length = cells l₁ := by
      rw [harray, ← length_cells l₁, take_left]
    have hdrop : s.environ.drop (l₁.length + 1) = cells l₂ ++ .null :: rest := by
      rw [harray, ← length_cells l₁, drop_length_add_append]
      rfl
    have hmove : (cells l₂ ++ Cell.null :: rest).take (l₁.length + 1 + l₂.length - l₁.length) =
        cells l₂ ++ [.null] := by
      rw [show l₁.length + 1 + l₂.length - l₁.length = (cells l₂).length + 1 by
        rw [length_cells]; omega, take_length_add_append]
      rfl
    refine ⟨s.environ.drop (l₁.length + 1 + l₂.length), ?_⟩
    change s.environ.take l₁.length ++ ((s.environ.drop (l₁.length + 1)).take
      (l₁.length + 1 + l₂.length - l₁.length) ++ _) = _
    rw [htake, hdrop, hmove, cells_append, append_assoc, append_assoc]
    rfl
  stands := h.stands_middle.2
  names := (nodup_keys_middle.mp h.names).2

variable (hvar : equals ∉ var.val) (hname : e.name = var)
include hname

lemma Holds.name_ne_var : ∀ e' ∈ l₁ ++ l₂, e'.name ≠ var :=
  fun e' he' => hname ▸ h.name_ne e' he'

include hvar

lemma Holds.search_some :
    search s.strings var s.environ 0 = some (l₁.length, some e.block) := by
  obtain ⟨rest, harray⟩ := h.array_middle
  have hl₁ : ∀ e' ∈ l₁, e' ∈ l₁ ++ l₂ := fun e' he' => mem_append_left _ he'
  rw [harray, search_append hvar (fun e' he' => h.stands_middle.2 e' (hl₁ e' he'))
    (fun e' he' => h.name_ne_var hname e' (hl₁ e' he')), Nat.zero_add,
    search_found hvar h.stands_middle.1 hname]

lemma Holds.scan_some :
    scan s.strings var s.environ 0 none =
      some (l₁.length + 1 + l₂.length, some l₁.length) := by
  obtain ⟨rest, harray⟩ := h.array_middle
  have hl₁ : ∀ e' ∈ l₁, e' ∈ l₁ ++ l₂ := fun e' he' => mem_append_left _ he'
  have hl₂ : ∀ e' ∈ l₂, e' ∈ l₁ ++ l₂ := fun e' he' => mem_append_right _ he'
  rw [harray, scan_append hvar (fun e' he' => h.stands_middle.2 e' (hl₁ e' he'))
    (fun e' he' => h.name_ne_var hname e' (hl₁ e' he')), Nat.zero_add,
    scan_found hvar h.stands_middle.1 hname,
    scan_append hvar (fun e' he' => h.stands_middle.2 e' (hl₂ e' he'))
      (fun e' he' => h.name_ne_var hname e' (hl₂ e' he')), scan]

lemma Holds.replace :
    Holds (setnew s l₁.length var val true).2
      (l₁ ++ newEntry s.strings.length var val hvar :: l₂) where
  array := by
    obtain ⟨rest, harray⟩ := h.array_middle
    refine ⟨rest, ?_⟩
    change s.environ.set l₁.length _ = _
    rw [harray, ← length_cells l₁, set_append_right _ _ le_rfl, Nat.sub_self, cells_append,
      append_assoc]
    rfl
  stands :=
    forall_mem_middle.mpr
      ⟨stands_newEntry _ hvar, fun e' he' => (h.stands_middle.2 e' he').append _⟩
  names := nodup_keys_middle.mpr ⟨h.name_ne_var hname, (nodup_keys_middle.mp h.names).2⟩

lemma Holds.overwrite (rest : Bytes) :
    Holds { s with strings := s.strings.set e.block (var.val ++ equals :: val.val ++ 0 :: rest) }
      (l₁ ++ newEntry e.block var val hvar :: l₂) where
  array := by
    obtain ⟨rest, harray⟩ := h.array_middle
    refine ⟨rest, ?_⟩
    rw [harray, cells_append, append_assoc]
    rfl
  stands := by
    obtain ⟨hstands, hrest⟩ := h.stands_middle
    obtain ⟨old, hold⟩ := hstands
    have hlt : e.block < s.strings.length := (List.getElem?_eq_some_iff.mp hold).1
    refine forall_mem_middle.mpr ⟨⟨rest, getElem?_set_self hlt⟩, fun e' he' => ?_⟩
    exact (hrest e' he').set_of_ne ((hrest e' he').block_ne ⟨old, hold⟩ (h.name_ne e' he')) _
  names := nodup_keys_middle.mpr ⟨h.name_ne_var hname, (nodup_keys_middle.mp h.names).2⟩

end

end Entries

/-! ## What the calls do to the map -/

section Calls

variable {s : State} {m : Map} {es l₁ l₂ : List Entry} {e : Entry} {var val : CString}

lemma exists_split (es : List Entry) (name : Bytes) :
    (∀ e ∈ es, e.name ≠ name) ∨ ∃ l₁ e l₂, es = l₁ ++ e :: l₂ ∧ e.name = name := by
  by_cases h : ∃ e ∈ es, e.name = name
  · obtain ⟨e, he, hname⟩ := h
    obtain ⟨l₁, l₂, rfl⟩ := append_of_mem he
    exact .inr ⟨l₁, e, l₂, rfl, hname⟩
  · exact .inl fun e he hname => h ⟨e, he, hname⟩

lemma Holds.bindings_eq (h : Holds s (l₁ ++ e :: l₂)) (hname : e.name = var) :
    bindings Entry.name Entry.value (l₁ ++ e :: l₂) var = some e.value := by
  rw [bindings_middle h.name_ne, ← hname, Function.update_self]

lemma Holds.exists_strcpy (h : Holds s (l₁ ++ e :: l₂)) (hname : e.name = var) (val : CString) :
    (cstr ((s.strings.getD e.block []).drop (var.val.length + 1))).length = e.value.length ∧
      (val.val.length ≤ e.value.length →
        ∃ rest, strcpy (s.strings.getD e.block []) (var.val.length + 1) val =
          some (var.val ++ equals :: val.val ++ 0 :: rest)) := by
  obtain ⟨rest, he⟩ := h.stands_middle.1
  have hblock : s.strings.getD e.block [] = var.val ++ equals :: (e.value ++ 0 :: rest) := by
    rw [getD_eq_getElem?_getD, he, getD_some, Entry.text, hname, append_assoc]
    rfl
  rw [hblock]
  constructor
  · rw [drop_length_add_append, drop_one, tail_cons, cstr_append e.value_nul]
  · intro hle
    refine ⟨(var.val ++ equals :: (e.value ++ 0 :: rest)).drop
      (var.val.length + 1 + val.val.length + 1), ?_⟩
    have hfits : var.val.length + 1 + val.val.length + 1 ≤
        (var.val ++ equals :: (e.value ++ 0 :: rest)).length := by
      simp only [length_append, length_cons]
      omega
    rw [strcpy, if_pos hfits, take_length_add_append]
    simp

lemma setenv_unbound (h : Holds s es) (hvalid : ¬ Invalid var) (hne : ∀ e ∈ es, e.name ≠ var)
    (overwrite mallocArray mallocString : Bool) :
    setenv s (some var) (some val) overwrite mallocArray mallocString =
      if mallocArray then
        some (setnew { s with environ := s.environ.take es.length ++ [.junk, .null] } es.length var
          val mallocString)
      else some (.nomem, s) := by
  have hvar : equals ∉ var.val := fun hmem => hvalid (.inr hmem)
  rw [setenv, if_neg hvalid, h.search_none hvar hne]

lemma setenv_bound (h : Holds s (l₁ ++ e :: l₂)) (hvalid : ¬ Invalid var) (hname : e.name = var)
    (val : CString) (overwrite mallocArray mallocString : Bool) :
    ∃ rest, setenv s (some var) (some val) overwrite mallocArray mallocString =
      if overwrite then
        if val.val.length ≤ e.value.length then
          some (.zero, { s with
            strings := s.strings.set e.block (var.val ++ equals :: val.val ++ 0 :: rest) })
        else some (setnew s l₁.length var val mallocString)
      else some (.zero, s) := by
  have hvar : equals ∉ var.val := fun hmem => hvalid (.inr hmem)
  obtain ⟨hlen, hcopy⟩ := h.exists_strcpy hname val
  rw [setenv, if_neg hvalid, h.search_some hvar hname]
  dsimp only
  rw [hlen]
  by_cases hle : val.val.length ≤ e.value.length
  · obtain ⟨rest, hrest⟩ := hcopy hle
    exact ⟨rest, by rw [if_pos hle, if_pos hle, hrest, map_some]⟩
  · exact ⟨[], by rw [if_neg hle, if_neg hle]⟩

lemma unsetenv_bound (h : Holds s (l₁ ++ e :: l₂)) (hvalid : ¬ Invalid var) (hname : e.name = var) :
    ∃ s', unsetenv s (some var) = some (.zero, s') ∧ Holds s' (l₁ ++ l₂) := by
  have hvar : equals ∉ var.val := fun hmem => hvalid (.inr hmem)
  exact ⟨_, by rw [unsetenv, if_neg hvalid, h.scan_some hvar hname], h.remove⟩

/-- A call returns what the map says, and updates the map if it returns 0 and changes nothing
otherwise. -/
def Conforms (s : State) (m : Map) (c : Call) : Prop :=
  ∃ s', perform s c = some (c.result m, s') ∧
    if c.result m = .zero then Represents s' (c.effect m) else s' = s

variable {c : Call}

lemma Conforms.succeeds {s' : State} (hresult : c.result m = .zero)
    (hperform : perform s c = some (.zero, s')) (h : Represents s' (c.effect m)) :
    Conforms s m c := by
  refine ⟨s', ?_, ?_⟩
  · rw [hresult, hperform]
  · rw [if_pos hresult]
    exact h

lemma Conforms.fails {ret : Ret} (hresult : c.result m = ret) (hne : ret ≠ .zero)
    (hperform : perform s c = some (ret, s)) : Conforms s m c := by
  subst hresult
  exact ⟨s, hperform, by rw [if_neg hne]⟩

lemma conforms_unbound (h : Holds s es) (hvalid : ¬ Invalid var) (hne : ∀ e ∈ es, e.name ≠ var)
    {overwrite mallocArray mallocString : Bool} (hboth : mallocArray = true → mallocString = true) :
    Conforms s (bindings Entry.name Entry.value es)
      (.setenv (some var) (some val) overwrite mallocArray mallocString) := by
  have hvar : equals ∉ var.val := fun hmem => hvalid (.inr hmem)
  have hnone : bindings Entry.name Entry.value es var = none := bindings_eq_none hne
  cases mallocArray with
  | false =>
    have hresult : (Call.setenv (some var) (some val) overwrite false mallocString).result
        (bindings Entry.name Entry.value es) = .nomem := by
      rw [Call.result, if_neg hvalid, hnone]
      rfl
    exact Conforms.fails hresult nofun (setenv_unbound h hvalid hne overwrite false mallocString)
  | true =>
    obtain rfl := hboth rfl
    have hresult : (Call.setenv (some var) (some val) overwrite true true).result
        (bindings Entry.name Entry.value es) = .zero := by
      rw [Call.result, if_neg hvalid, hnone]
      rfl
    refine Conforms.succeeds hresult (setenv_unbound h hvalid hne overwrite true true) ?_
    refine ⟨es ++ [newEntry s.strings.length var val hvar], h.append hvar hne, ?_⟩
    have hne' : ∀ e ∈ es ++ [], e.name ≠ (newEntry s.strings.length var val hvar).name := by
      rw [append_nil]
      exact hne
    rw [Call.effect, if_neg fun hand => hand.2 hnone, bindings_middle hne', append_nil]
    rfl

lemma conforms_bound (h : Holds s (l₁ ++ e :: l₂)) (hvalid : ¬ Invalid var)
    (hname : e.name = var) (overwrite mallocArray mallocString : Bool) :
    Conforms s (bindings Entry.name Entry.value (l₁ ++ e :: l₂))
      (.setenv (some var) (some val) overwrite mallocArray mallocString) := by
  have hvar : equals ∉ var.val := fun hmem => hvalid (.inr hmem)
  have hsome := h.bindings_eq hname
  obtain ⟨rest, hperform⟩ := setenv_bound h hvalid hname val overwrite mallocArray mallocString
  have hresult : (Call.setenv (some var) (some val) overwrite mallocArray mallocString).result
      (bindings Entry.name Entry.value (l₁ ++ e :: l₂)) =
        if overwrite = false ∨ val.val.length ≤ e.value.length ∨ mallocString then .zero
        else .nomem := by
    rw [Call.result, if_neg hvalid, hsome]
  cases overwrite with
  | false =>
    rw [if_pos (.inl rfl)] at hresult
    refine Conforms.succeeds hresult hperform ⟨l₁ ++ e :: l₂, h, ?_⟩
    rw [Call.effect, if_pos ⟨rfl, by rw [hsome]; nofun⟩]
  | true =>
    -- The new entry has the name and the new value, wherever its string is.
    have heffect : ∀ block, (Call.setenv (some var) (some val) true mallocArray mallocString).effect
        (bindings Entry.name Entry.value (l₁ ++ e :: l₂)) =
          bindings Entry.name Entry.value (l₁ ++ newEntry block var val hvar :: l₂) := by
      intro block
      rw [bindings_replace h.name_ne (show (newEntry block var val hvar).name = e.name from
        hname.symm), Call.effect, if_neg (by simp), hname]
      rfl
    rw [if_pos rfl] at hperform
    by_cases hle : val.val.length ≤ e.value.length
    · rw [if_pos hle] at hperform
      rw [if_pos (.inr (.inl hle))] at hresult
      exact Conforms.succeeds hresult hperform ⟨_, h.overwrite hvar hname rest, heffect _⟩
    · rw [if_neg hle] at hperform
      cases mallocString with
      | true =>
        rw [if_pos (.inr (.inr rfl))] at hresult
        exact Conforms.succeeds hresult hperform ⟨_, h.replace hvar hname, heffect _⟩
      | false =>
        rw [if_neg (by simp [hle])] at hresult
        exact Conforms.fails hresult nofun hperform

lemma conforms_unsetenv (h : Represents s m) (hvalid : ¬ Invalid var) :
    Conforms s m (.unsetenv (some var)) := by
  have hvar : equals ∉ var.val := fun hmem => hvalid (.inr hmem)
  have hresult : (Call.unsetenv (some var)).result m = .zero := by
    rw [Call.result, if_neg hvalid]
  obtain ⟨es, hes, rfl⟩ := h
  rcases exists_split es var with hne | ⟨l₁, e, l₂, rfl, hname⟩
  · have hperform : unsetenv s (some var) = some (.zero, s) := by
      rw [unsetenv, if_neg hvalid, hes.scan_none hvar hne]
    have hsame : update (bindings Entry.name Entry.value es) var none =
        bindings Entry.name Entry.value es :=
      Function.update_eq_self_iff.mpr (bindings_eq_none hne).symm
    exact Conforms.succeeds hresult hperform ⟨es, hes, hsame⟩
  · obtain ⟨s', hperform, hs'⟩ := unsetenv_bound hes hvalid hname
    refine Conforms.succeeds hresult hperform ⟨l₁ ++ l₂, hs', ?_⟩
    rw [Call.effect, ← hname, ← bindings_remove hes.name_ne]

lemma conforms (h : Represents s m) (hc : ¬ c.GetsOnlyArray m) : Conforms s m c := by
  have hnull : ∀ {c : Call}, c.result m = .einval → perform s c = some (.einval, s) →
      Conforms s m c := fun hresult hperform => Conforms.fails hresult nofun hperform
  match c with
  | .setenv none _ _ _ _ => exact hnull rfl rfl
  | .setenv (some _) none _ _ _ => exact hnull rfl rfl
  | .setenv (some var) (some val) overwrite mallocArray mallocString =>
    by_cases hinvalid : Invalid var
    · exact hnull (if_pos hinvalid) (if_pos hinvalid)
    · obtain ⟨es, hes, rfl⟩ := h
      rcases exists_split es var with hne | ⟨l₁, e, l₂, rfl, hname⟩
      · apply conforms_unbound hes hinvalid hne
        intro harray
        by_contra hstring
        exact hc ⟨hinvalid, bindings_eq_none hne, harray, by simpa using hstring⟩
      · exact conforms_bound hes hinvalid hname overwrite mallocArray mallocString
  | .unsetenv none => exact hnull rfl rfl
  | .unsetenv (some var) =>
    by_cases hinvalid : Invalid var
    · exact hnull (if_pos hinvalid) (if_pos hinvalid)
    · exact conforms_unsetenv h hinvalid

lemma perform_of_getsOnlyArray (h : Represents s m) (hc : c.GetsOnlyArray m) :
    ∃ s', perform s c = some (.nomem, s') ∧ s' ≠ s := by
  match c with
  | .setenv (some var) (some val) overwrite mallocArray mallocString =>
    obtain ⟨hvalid, hnone, rfl, rfl⟩ := hc
    obtain ⟨es, hes, rfl⟩ := h
    rcases exists_split es var with hne | ⟨l₁, e, l₂, rfl, hname⟩
    · refine ⟨_, setenv_unbound hes hvalid hne overwrite true false, fun hsame => ?_⟩
      obtain ⟨rest, harray⟩ := hes.array
      have henviron := congrArg State.environ hsame
      change s.environ.take es.length ++ [Cell.junk, Cell.null] = s.environ at henviron
      rw [harray, ← length_cells es, take_left] at henviron
      cases (cons_eq_cons.mp (append_cancel_left henviron)).1
    · rw [hes.bindings_eq hname] at hnone
      cases hnone

lemma faithful_cons_iff {cs : List Call} {ret : Ret} {s' : State}
    (hperform : perform s c = some (ret, s')) : Faithful s m (c :: cs) ↔
      if ret = .zero then Represents s' (c.effect m) ∧ Faithful s' (c.effect m) cs
      else s' = s ∧ Faithful s m cs := by
  rw [Faithful, hperform]
  constructor
  · rintro ⟨ret', s'', heq, hdone⟩
    obtain ⟨rfl, rfl⟩ := Prod.mk.inj (some.inj heq)
    exact hdone
  · intro hdone
    exact ⟨ret, s', rfl, hdone⟩

/-- Starting from an environment in order, every call updates the map if it returns 0 and changes
nothing if it returns -1, if and only if no call gets an array and then no string. -/
theorem faithful_iff (h : Represents s m) (cs : List Call) : Faithful s m cs ↔ Complete m cs := by
  induction cs generalizing s m with
  | nil => exact Iff.rfl
  | cons c cs ih =>
    rw [Complete]
    by_cases hc : c.GetsOnlyArray m
    · obtain ⟨s', hperform, hne⟩ := perform_of_getsOnlyArray h hc
      rw [faithful_cons_iff hperform, if_neg nofun]
      exact iff_of_false (fun hdone => hne hdone.1) (fun hcomplete => hcomplete.1 hc)
    · obtain ⟨s', hperform, hdone⟩ := conforms h hc
      rw [faithful_cons_iff hperform]
      by_cases hzero : c.result m = .zero
      · rw [if_pos hzero] at hdone
        rw [if_pos hzero, if_pos hzero, ih hdone]
        exact and_congr_left' (iff_of_true hdone hc)
      · rw [if_neg hzero] at hdone
        rw [if_neg hzero, if_neg hzero, ih h]
        exact and_congr_left' (iff_of_true hdone hc)

def nameA : CString := ⟨ascii "A", by decide⟩

def entryA : Entry := ⟨0, ascii "A", ascii "1", by decide, by decide, by decide⟩

lemma represents_entryA :
    Represents ⟨[ascii "A=1" ++ [0]], [.ptr 0, .null]⟩
      (bindings Entry.name Entry.value [entryA]) := by
  refine ⟨[entryA], ⟨⟨[], rfl⟩, ?_, nodup_singleton _⟩, rfl⟩
  intro e he
  rw [mem_singleton.mp he]
  exact ⟨[], rfl⟩

/-- A longer value for `A`, and then no `A`. -/
theorem faithful_iff_entryA :
    Faithful ⟨[ascii "A=1" ++ [0]], [.ptr 0, .null]⟩ (bindings Entry.name Entry.value [entryA])
      [.setenv (some nameA) (some ⟨ascii "22", by decide⟩) true false true,
        .unsetenv (some nameA)] := by
  apply (faithful_iff represents_entryA _).mpr
  refine ⟨?_, fun h => h, trivial⟩
  rintro ⟨-, hnone, -⟩
  cases hnone

/-- A first entry, with memory for the array and none for the string: `setenv` returns -1, and the
array begins with memory that has not been written. -/
theorem setenv_leaves_junk :
    Represents ⟨[], [.null]⟩ (fun _ => none) ∧
      perform ⟨[], [.null]⟩ (.setenv (some nameA) (some ⟨ascii "1", by decide⟩) true true false) =
        some (.nomem, ⟨[], [.junk, .null]⟩) ∧
      ¬ Faithful ⟨[], [.null]⟩ (fun _ => none)
        [.setenv (some nameA) (some ⟨ascii "1", by decide⟩) true true false] := by
  refine ⟨⟨[], ⟨⟨[], rfl⟩, nofun, nodup_nil⟩, rfl⟩, rfl, ?_⟩
  rintro ⟨ret, s', hperform, hdone⟩
  obtain ⟨rfl, rfl⟩ := Prod.mk.inj (some.inj hperform)
  rw [if_neg nofun] at hdone
  cases hdone.1

end Calls

end UnixPrograms.Setenv
