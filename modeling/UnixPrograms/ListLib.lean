import UnixPrograms.Lib.Cursors
import UnixPrograms.Lib.Files
import UnixPrograms.Lib.Memory

/-!
# The list library with traversal keys

`adddata` appends to a linked list, `accessdata` gives a key for a traversal, `getdata` the next
item under a key, and `freekey` ends a traversal.  A key is an index into the table `travptrs`,
where `NULL` marks a free slot; a full table is doubled, and the new part is not initialised.

Every log of calls is one of a growing list with cursors (`accept_log_of_run`,
`traversals_correct`), unless the size of a node does not fit into the `int` `nodesize`
(`adddata_overruns`).  `getdata` may also serve a key that was never opened (`getdata_refuses_iff`).
-/

namespace UnixPrograms.ListLib

open List Option Listing

def TRAV_INIT_SIZE : ℕ := 8

/-- `sizeof(list_t)`: a `time_t` and two pointers. -/
def sizeofList : ℕ := 24

/-- The number of nonnegative values of an `int`. -/
def intRange : ℕ := 2 ^ 31

/-- A `data_t`, with the bytes of its string before the terminating one. -/
structure Data where
  time : ℤ
  string : Bytes
  noNul : 0 ∉ string
  deriving DecidableEq

/-- A pointer to a node: the nodes are numbered in the order of their allocation. -/
inductive Ptr where
  | null
  | endlist
  | node (i : ℕ)
  | stray
  deriving DecidableEq

structure Node where
  item : Data
  next : Ptr
  deriving DecidableEq

inductive Status where
  | running
  /-- It has used a pointer to no node. -/
  | crashed
  /-- It has written behind an allocated block, so that anything can happen. -/
  | overrun
  deriving DecidableEq

/-- What the calls have done, with their replies. -/
abbrev Event := ListEvent ℤ Data

/-- The static variables, the nodes that have been allocated, and the log of the calls. -/
structure State where
  nodes : List Node
  headptr : Ptr
  tailptr : Ptr
  travptrs : ℕ → Ptr
  travptrsSize : ℕ
  status : Status
  log : List Event

/-- A call with what the environment does: `alloc` says whether the allocator has memory, and `junk`
what uninitialised memory holds. -/
inductive Action where
  | adddata (data : Data) (alloc : Bool)
  | accessdata (alloc : Bool) (junk : ℕ → Ptr)
  | getdata (key : ℤ) (alloc : Bool) (junk : Option (Data × Ptr))
  | freekey (key : ℤ)
  /-- Any call with any reply, after memory has been overwritten. -/
  | anything (e : Event)

def State.record (s : State) (e : Event) : State := { s with log := s.log ++ [e] }

def Data.nodeBytes (data : Data) : ℕ := sizeofList + data.string.length + 1

/-- The string is so long that `nodesize` is a smaller number, which is not negative. -/
def Data.Overflows (data : Data) : Prop :=
  intRange ≤ data.nodeBytes ∧ data.nodeBytes % (2 * intRange) < intRange

/-- `p->next = next`. -/
def storeNext (nodes : List Node) (p next : Ptr) : List Node :=
  match p with
  | .node i => nodes.modify i fun n => { n with next := next }
  | _ => nodes

def link (s : State) (data : Data) : State :=
  let newnode := Ptr.node s.nodes.length
  if s.headptr = .null then
    { s with nodes := s.nodes ++ [⟨data, .null⟩], headptr := newnode, tailptr := newnode }
  else
    { s with
      nodes := storeNext s.nodes s.tailptr newnode ++ [⟨data, .null⟩]
      tailptr := newnode }

def adddata (s : State) (data : Data) (alloc : Bool) : State :=
  let nodesize := wrapSigned 4 data.nodeBytes
  -- a negative size becomes a number that no allocator can serve
  if nodesize < 0 ∨ alloc = false then s.record .fail
  else if nodesize < data.nodeBytes then { s.record (.add data) with status := .overrun }
  else (link s data).record (.add data)

def State.setSlot (s : State) (i : ℕ) (p : Ptr) : State :=
  { s with travptrs := Function.update s.travptrs i p }

def State.emptySlot (s : State) : Option ℕ :=
  (range s.travptrsSize).find? fun i => s.travptrs i = .null

def accessdata (s : State) (alloc : Bool) (junk : ℕ → Ptr) : State :=
  if s.headptr = .null then s.record .fail
  else if s.travptrsSize = 0 then
    if alloc then
      ({ s with travptrs := fun _ => .null, travptrsSize := TRAV_INIT_SIZE }.setSlot 0
        s.headptr).record (.access 0)
    else s.record .fail
  else
    match s.emptySlot with
    | some i => (s.setSlot i s.headptr).record (.access i)
    | none =>
      -- the size of a table of `2 ^ 31` slots is computed as a negative `int`
      if alloc ∧ 2 * s.travptrsSize < intRange then
        ({ s with
            travptrs := fun i => if i < s.travptrsSize then s.travptrs i else junk i
            travptrsSize := 2 * s.travptrsSize }.setSlot s.travptrsSize s.headptr).record
          (.access s.travptrsSize)
      else s.record .fail

def slotAfter (next : Ptr) : Ptr := if next = .null then .endlist else next

def State.deref (s : State) (junk : Option (Data × Ptr)) : Ptr → Option (Data × Ptr)
  | .node j => (s.nodes[j]?).elim junk fun n => some (n.item, n.next)
  | _ => junk

def getdata (s : State) (key : ℤ) (alloc : Bool) (junk : Option (Data × Ptr)) : State :=
  if key < 0 ∨ key ≥ s.travptrsSize ∨ s.travptrs key.toNat = .null then
    s.record (.get key .refused)
  else if s.travptrs key.toNat = .endlist then
    (s.setSlot key.toNat .null).record (.get key .endMark)
  else
    match s.deref junk (s.travptrs key.toNat) with
    | none => { s with status := .crashed }
    | some (item, next) =>
      if alloc then (s.setSlot key.toNat (slotAfter next)).record (.get key (.item item))
      else s.record (.get key .refused)

def freekey (s : State) (key : ℤ) : State :=
  if key < 0 ∨ key ≥ s.travptrsSize then s.record .fail
  else (s.setSlot key.toNat .null).record (.free key)

def step (s : State) (a : Action) : Option State :=
  match s.status, a with
  | .running, .adddata data alloc => some (adddata s data alloc)
  | .running, .accessdata alloc junk => some (accessdata s alloc junk)
  | .running, .getdata key alloc junk => some (getdata s key alloc junk)
  | .running, .freekey key => some (freekey s key)
  | .overrun, .anything e => some (s.record e)
  | _, _ => none

/-- The allocations of the call succeed. -/
def Allocates : Action → Prop
  | .adddata _ alloc => alloc = true
  | .accessdata alloc _ => alloc = true
  | .getdata _ alloc _ => alloc = true
  | _ => True

/-- The size of the node that the call allocates fits into 32 bits. -/
def Short : Action → Prop
  | .adddata data _ => data.nodeBytes < 2 ^ 32
  | _ => True

def start : State where
  nodes := []
  headptr := .null
  tailptr := .null
  travptrs _ := .null
  travptrsSize := 0
  status := .running
  log := []

/-! ## The list with cursors behind the variables -/

def cursorPtr (c : Cursor) : Ptr := if c.ended then .endlist else .node c.pos

def InRange (s : State) (k : ℤ) : Prop := 0 ≤ k ∧ k < s.travptrsSize

/-- The slot of a key in a list of `n` items. -/
def SlotOk (n : ℕ) (p : Ptr) : KeyState → Prop
  | .unknown => True
  | .closed => p = .null
  | .opened c => c.Valid n ∧ p = cursorPtr c

/-- The state holds the listing. -/
structure Holds (s : State) (l : Listing ℤ Data) : Prop where
  status : s.status ≠ .overrun
  items : s.nodes.map Node.item = l.items
  next : ∀ i n, s.nodes[i]? = some n →
    n.next = if i + 1 < s.nodes.length then .node (i + 1) else .null
  headptr : s.headptr = if s.nodes = [] then .null else .node 0
  tailptr : s.nodes ≠ [] → s.tailptr = .node (s.nodes.length - 1)
  range : ∀ k, l.key k ≠ .unknown → InRange s k
  slot : ∀ k, SlotOk l.items.length (s.travptrs k.toNat) (l.key k)

lemma cursorPtr_ne_null (c : Cursor) : cursorPtr c ≠ .null := by
  unfold cursorPtr
  split
  · exact Ptr.noConfusion
  · exact Ptr.noConfusion

lemma SlotOk.mono {n m : ℕ} {p : Ptr} {x : KeyState} (h : SlotOk n p x) (hle : n ≤ m) :
    SlotOk m p x := by
  cases x with
  | unknown | closed => exact h
  | opened c => exact ⟨h.1.mono hle, h.2⟩

lemma getElem?_concat {nodes : List Node} {a n : Node} {i : ℕ}
    (h : (nodes ++ [a])[i]? = some n) : nodes[i]? = some n ∨ i = nodes.length ∧ n = a := by
  rcases Nat.lt_or_ge i nodes.length with hlt | hge
  · rw [getElem?_append_left hlt] at h
    exact .inl h
  · rw [getElem?_append_right hge, getElem?_singleton] at h
    obtain ⟨hzero, h⟩ := ite_none_right_eq_some.mp h
    exact .inr ⟨by omega, (some.inj h).symm⟩

lemma length_storeNext (nodes : List Node) (p next : Ptr) :
    (storeNext nodes p next).length = nodes.length := by
  cases p <;> simp [storeNext]

lemma getElem?_storeNext (nodes : List Node) (i j : ℕ) (next : Ptr) :
    (storeNext nodes (.node i) next)[j]? =
      if i = j then (nodes[j]?).map (fun n => { n with next := next }) else nodes[j]? := by
  rw [storeNext, getElem?_modify]
  split <;> simp

lemma map_item_storeNext (nodes : List Node) (p next : Ptr) :
    (storeNext nodes p next).map Node.item = nodes.map Node.item := by
  cases p with
  | node i =>
    refine ext_getElem? fun j => ?_
    rw [getElem?_map, getElem?_map, getElem?_storeNext]
    split
    · cases nodes[j]? <;> rfl
    · rfl
  | null | endlist | stray => rfl

namespace Holds

variable {s : State} {l : Listing ℤ Data} {k : ℤ} {p : Ptr}

section

variable (h : Holds s l)
include h

lemma length_nodes : s.nodes.length = l.items.length := by
  rw [← h.items, length_map]

lemma record (e : Event) : Holds (s.record e) l := { h with }

lemma setSlot (hk : InRange s k) {x : KeyState} (hx : SlotOk l.items.length p x) :
    Holds (s.setSlot k.toNat p) (l.setKey k x) where
  status := h.status
  items := h.items
  next := h.next
  headptr := h.headptr
  tailptr := h.tailptr
  range j hj := by
    by_cases hjk : j = k
    · rw [hjk]
      exact hk
    · rw [setKey_key_of_ne (Ne.symm hjk)] at hj
      exact h.range j hj
  slot j := by
    by_cases hjk : j = k
    · subst hjk
      rw [setKey_key]
      simpa [State.setSlot] using hx
    · rw [setKey_key_of_ne (Ne.symm hjk)]
      cases hkey : l.key j with
      | unknown => trivial
      | closed | opened =>
        have hj := h.range j (by rw [hkey]; exact KeyState.noConfusion)
        have hne : j.toNat ≠ k.toNat := by
          have := hj.1
          have := hk.1
          omega
        have hslot := h.slot j
        rw [hkey] at hslot
        simpa [State.setSlot, Function.update_of_ne hne] using hslot

lemma grow (travptrs : ℕ → Ptr) {n : ℕ} (hle : s.travptrsSize ≤ n)
    (hsame : ∀ i, i < s.travptrsSize → travptrs i = s.travptrs i) :
    Holds { s with travptrs := travptrs, travptrsSize := n } l where
  status := h.status
  items := h.items
  next := h.next
  headptr := h.headptr
  tailptr := h.tailptr
  range j hj := by
    have := h.range j hj
    exact ⟨this.1, lt_of_lt_of_le this.2 (Int.ofNat_le.mpr hle)⟩
  slot j := by
    cases hkey : l.key j with
    | unknown => trivial
    | closed | opened =>
      obtain ⟨hnn, hlt⟩ := h.range j (by rw [hkey]; exact KeyState.noConfusion)
      have hslot := h.slot j
      rw [hkey] at hslot
      simp only [hsame j.toNat (by omega)]
      exact hslot

lemma not_opened (hk : ¬ InRange s k ∨ s.travptrs k.toNat = .null) (c : Cursor) :
    l.key k ≠ .opened c := by
  intro hc
  have hslot := h.slot k
  rw [hc] at hslot
  rcases hk with hrange | hnull
  · exact hrange (h.range k (by rw [hc]; exact KeyState.noConfusion))
  · exact cursorPtr_ne_null c (hslot.2.symm.trans hnull)

lemma headptr_eq (hhead : s.headptr ≠ .null) : s.headptr = .node 0 ∧ l.items ≠ [] := by
  have hptr := h.headptr
  split at hptr
  · exact absurd hptr hhead
  · next hne =>
    refine ⟨hptr, ?_⟩
    rw [← h.items]
    exact fun hnil => hne (map_eq_nil_iff.mp hnil)

lemma link (data : Data) : Holds (link s data) { l with items := l.items ++ [data] } := by
  have hslot : ∀ j, SlotOk (l.items ++ [data]).length (s.travptrs j.toNat) (l.key j) := by
    intro j
    refine (h.slot j).mono ?_
    rw [length_append]
    exact Nat.le_add_right _ _
  unfold ListLib.link
  by_cases hnil : s.nodes = []
  · -- the first node
    have hhead : s.headptr = .null := by
      rw [h.headptr, if_pos hnil]
    have hitems : l.items = [] := by
      rw [← h.items, hnil]
      rfl
    rw [if_pos hhead]
    refine ⟨h.status, ?_, ?_, ?_, ?_, h.range, hslot⟩
    · simp [hnil, hitems]
    · intro i n hn
      rw [hnil] at hn ⊢
      rcases getElem?_concat hn with hn | ⟨rfl, rfl⟩
      · cases hn
      · rfl
    · simp [hnil]
    · simp [hnil]
  · have hhead : s.headptr = .node 0 := by
      rw [h.headptr, if_neg hnil]
    have hlen : 0 < s.nodes.length := length_pos_iff.mpr hnil
    rw [if_neg (by rw [hhead]; exact Ptr.noConfusion), h.tailptr hnil]
    refine ⟨h.status, ?_, ?_, ?_, ?_, h.range, hslot⟩
    · rw [map_append, map_item_storeNext, h.items]
      rfl
    · intro i n hn
      rw [length_append, length_storeNext, length_singleton]
      rcases getElem?_concat hn with hn | ⟨rfl, rfl⟩
      · rw [getElem?_storeNext] at hn
        by_cases hlast : s.nodes.length - 1 = i
        · -- the node that was the last one
          rw [if_pos hlast] at hn
          obtain ⟨m, -, rfl⟩ := map_eq_some_iff.mp hn
          rw [if_pos (by omega), show i + 1 = s.nodes.length by omega]
        · rw [if_neg hlast] at hn
          have hlt := (List.getElem?_eq_some_iff.mp hn).1
          rw [h.next i n hn, if_pos (by omega), if_pos (by omega)]
      · rw [length_storeNext, if_neg (by omega)]
    · simp [hhead]
    · simp [length_storeNext]

lemma access (hhead : s.headptr ≠ .null) (hk : InRange s k) (hkey : ∀ c, l.key k ≠ .opened c) :
    ∃ l', l.accept (.access k) = some l' ∧ Holds (s.setSlot k.toNat s.headptr) l' := by
  obtain ⟨hptr, hne⟩ := h.headptr_eq hhead
  exact ⟨_, accept_access_of_not_opened hne hkey,
    h.setSlot hk ⟨fun _ => length_pos_iff.mpr hne, hptr⟩⟩

end

end Holds

/-- A call records an event that the list with cursors accepts. -/
def Follows (s s' : State) (l : Listing ℤ Data) : Prop :=
  ∃ e l', s'.log = s.log ++ [e] ∧ l.accept e = some l' ∧ Holds s' l'

@[simp] lemma link_log (s : State) (data : Data) : (link s data).log = s.log := by
  unfold link
  simp only
  split <;> rfl

lemma overflows_iff (data : Data) : data.Overflows ↔
    0 ≤ wrapSigned 4 data.nodeBytes ∧ wrapSigned 4 data.nodeBytes < data.nodeBytes := by
  have hmod : ofSigned 4 data.nodeBytes = data.nodeBytes % 2 ^ 32 := by
    exact congrArg Int.toNat (Int.natCast_mod _ _).symm
  unfold Data.Overflows intRange wrapSigned toSigned
  rw [hmod]
  split <;> omega

namespace Holds

variable {s : State} {l : Listing ℤ Data} {k : ℤ}

lemma fail (h : Holds s l) : Follows s (s.record .fail) l := ⟨.fail, l, rfl, rfl, h.record _⟩

lemma adddata (h : Holds s l) {data : Data} (hfit : data.nodeBytes < 2 ^ 32) (alloc : Bool) :
    Follows s (adddata s data alloc) l := by
  unfold ListLib.adddata
  simp only
  split_ifs with hfail hshort
  · exact h.fail
  · have hover := (overflows_iff data).mpr ⟨not_lt.mp (not_or.mp hfail).1, hshort⟩
    unfold Data.Overflows intRange at hover
    omega
  · exact ⟨.add data, _, by rw [State.record, link_log], rfl, (h.link data).record _⟩

lemma accessdata (h : Holds s l) (alloc : Bool) (junk : ℕ → Ptr) :
    Follows s (accessdata s alloc junk) l := by
  unfold ListLib.accessdata
  by_cases hhead : s.headptr = .null
  · rw [if_pos hhead]
    exact h.fail
  rw [if_neg hhead]
  by_cases hzero : s.travptrsSize = 0
  · -- the first traversal
    rw [if_pos hzero]
    split
    · have hgrow := h.grow (fun _ => .null) (n := TRAV_INIT_SIZE) (by omega)
        (fun i hi => by omega)
      obtain ⟨l', hacc, hholds⟩ := hgrow.access (k := 0) hhead
        ⟨le_refl _, Int.ofNat_lt.mpr (Nat.succ_pos 7)⟩ (hgrow.not_opened (.inr rfl))
      exact ⟨.access 0, l', rfl, hacc, hholds.record _⟩
    · exact h.fail
  rw [if_neg hzero]
  split
  next i hi =>
    -- an empty slot
    have hmem := mem_range.mp (mem_of_find?_eq_some hi)
    have hnull : s.travptrs i = .null := by
      unfold State.emptySlot at hi
      simpa using find?_some hi
    obtain ⟨l', hacc, hholds⟩ := h.access (k := i) hhead
      ⟨Int.natCast_nonneg i, Int.ofNat_lt.mpr hmem⟩ (h.not_opened (.inr hnull))
    exact ⟨.access i, l', rfl, hacc, hholds.record _⟩
  next hnone =>
    split
    · -- the table is doubled
      have hgrow := h.grow (fun i => if i < s.travptrsSize then s.travptrs i else junk i)
        (n := 2 * s.travptrsSize) (by omega)
        (fun i hi => if_pos hi)
      have hout : ¬ InRange s s.travptrsSize := fun hr => absurd hr.2 (lt_irrefl _)
      obtain ⟨l', hacc, hholds⟩ := hgrow.access (k := s.travptrsSize) hhead
        ⟨Int.natCast_nonneg _, Int.ofNat_lt.mpr (by simp only; omega)⟩ (h.not_opened (.inl hout))
      exact ⟨.access s.travptrsSize, l', rfl, hacc, hholds.record _⟩
    · exact h.fail

lemma node_of_lt (h : Holds s l) {i : ℕ} (hlt : i < l.items.length) :
    ∃ n, s.nodes[i]? = some n ∧ n.item = l.items[i] ∧
      n.next = if i + 1 < l.items.length then .node (i + 1) else .null := by
  have hlt' : i < s.nodes.length := h.length_nodes ▸ hlt
  have hn : s.nodes[i]? = some s.nodes[i] := getElem?_eq_getElem hlt'
  refine ⟨s.nodes[i], hn, ?_, ?_⟩
  · simp [← h.items]
  · rw [h.next i _ hn, h.length_nodes]

lemma slotAfter_next {c : Cursor} {n : ℕ} (hlt : c.pos < n) :
    slotAfter (if c.pos + 1 < n then .node (c.pos + 1) else .null) = cursorPtr (c.next n) := by
  unfold slotAfter cursorPtr Cursor.next
  by_cases hlast : c.pos + 1 = n
  · simp [hlast]
  · have hlt' : c.pos + 1 < n := by omega
    simp [hlt', hlast]

lemma get_opened (h : Holds s l) {c : Cursor} (hc : l.key k = .opened c)
    (junk : Option (Data × Ptr)) :
    ∃ l', (getdata s k true junk).log = s.log ++ [.get k (c.reply l.items)] ∧
      l.accept (.get k (c.reply l.items)) = some l' ∧ Holds (getdata s k true junk) l' := by
  have hrange := h.range k (by rw [hc]; exact KeyState.noConfusion)
  have hslot := h.slot k
  rw [hc] at hslot
  obtain ⟨hvalid, hptr⟩ := hslot
  have hin : ¬ (k < 0 ∨ k ≥ s.travptrsSize ∨ s.travptrs k.toNat = .null) := by
    rintro (hneg | hge | hnull)
    · exact absurd hrange.1 (not_le.mpr hneg)
    · exact absurd hrange.2 (not_lt.mpr hge)
    · exact cursorPtr_ne_null c (hptr.symm.trans hnull)
  cases hended : c.ended with
  | true =>
    have hend : s.travptrs k.toNat = .endlist := by
      rw [hptr, cursorPtr, if_pos hended]
    have hget : getdata s k true junk =
        (s.setSlot k.toNat .null).record (.get k (c.reply l.items)) := by
      rw [getdata, if_neg hin, if_pos hend, Cursor.reply_of_ended _ hended]
    refine ⟨_, by rw [hget]; rfl, accept_get hc, ?_⟩
    rw [hget, if_pos hended]
    exact (h.setSlot (x := .closed) hrange rfl).record _
  | false =>
    have hlt := hvalid hended
    obtain ⟨n, hn, hitem, hnext⟩ := h.node_of_lt hlt
    have hnode : s.travptrs k.toNat = .node c.pos := by
      rw [hptr, cursorPtr, if_neg (by rw [hended]; exact Bool.noConfusion)]
    have hget : getdata s k true junk =
        (s.setSlot k.toNat (slotAfter n.next)).record (.get k (c.reply l.items)) := by
      rw [getdata, if_neg hin, hnode, if_neg Ptr.noConfusion, State.deref, hn,
        Cursor.reply_of_not_ended hended hlt, ← hitem]
      rfl
    refine ⟨_, by rw [hget]; rfl, accept_get hc, ?_⟩
    rw [hget, if_neg (by rw [hended]; exact Bool.noConfusion), hnext, slotAfter_next hlt]
    exact (h.setSlot (x := .opened _) hrange ⟨Cursor.valid_next hlt, rfl⟩).record _

lemma setSlot_unknown (h : Holds s l) (hk : InRange s k) (hkey : l.key k = .unknown) (p : Ptr) :
    Holds (s.setSlot k.toNat p) l := by
  have hset := h.setSlot (p := p) (x := .unknown) hk trivial
  have hsame : l.setKey k .unknown = l := by
    unfold setKey
    rw [← hkey, Function.update_eq_self]
  rwa [hsame] at hset

lemma get_not_opened (h : Holds s l) (hkey : ∀ c, l.key k ≠ .opened c) (alloc : Bool)
    (junk : Option (Data × Ptr)) :
    Follows s (getdata s k alloc junk) l ∨
      ((getdata s k alloc junk).log = s.log ∧ Holds (getdata s k alloc junk) l) := by
  have hrefused : Follows s (s.record (.get k .refused)) l := by
    refine ⟨_, l, rfl, ?_, h.record _⟩
    cases hk : l.key k with
    | opened c => exact absurd hk (hkey c)
    | unknown | closed => simp [accept, hk]
  unfold getdata
  by_cases hin : k < 0 ∨ k ≥ s.travptrsSize ∨ s.travptrs k.toNat = .null
  · rw [if_pos hin]
    exact .inl hrefused
  rw [if_neg hin]
  have hrange : InRange s k := ⟨by omega, by omega⟩
  -- the slot of a closed key is empty
  have hunknown : l.key k = .unknown := by
    cases hk : l.key k with
    | unknown => rfl
    | opened c => exact absurd hk (hkey c)
    | closed =>
      have hslot := h.slot k
      rw [hk] at hslot
      exact absurd (.inr (.inr hslot)) hin
  have haccept : ∀ r, l.accept (.get k r) = some l := fun r => by simp [accept, hunknown]
  split
  · exact .inl ⟨_, l, rfl, haccept _, (h.setSlot_unknown hrange hunknown _).record _⟩
  · split
    · exact .inr ⟨rfl, { h with status := Status.noConfusion }⟩
    · split
      · exact .inl ⟨_, l, rfl, haccept _, (h.setSlot_unknown hrange hunknown _).record _⟩
      · exact .inl hrefused

lemma freekey (h : Holds s l) (k : ℤ) : Follows s (freekey s k) l := by
  unfold ListLib.freekey
  split
  · exact h.fail
  · next hin =>
    have hrange : InRange s k := ⟨by omega, by omega⟩
    exact ⟨.free k, _, rfl, rfl, (h.setSlot (x := .closed) hrange rfl).record _⟩

variable {s' : State} {a : Action}

lemma step (h : Holds s l) (hstep : step s a = some s') (halloc : Allocates a)
    (hshort : Short a) : Follows s s' l ∨ s'.log = s.log ∧ Holds s' l := by
  unfold ListLib.step at hstep
  split at hstep
  case h_1 =>
    cases hstep
    exact .inl (h.adddata hshort _)
  case h_2 =>
    cases hstep
    exact .inl (h.accessdata _ _)
  case h_3 key alloc junk hrunning =>
    cases hstep
    obtain rfl : alloc = true := halloc
    by_cases hopen : ∃ c, l.key key = .opened c
    · obtain ⟨c, hc⟩ := hopen
      obtain ⟨l', hget⟩ := h.get_opened hc junk
      exact .inl ⟨_, l', hget⟩
    · exact h.get_not_opened (not_exists.mp hopen) _ _
  case h_4 =>
    cases hstep
    exact .inl (h.freekey _)
  case h_5 e hover => exact absurd hover h.status
  case h_6 => cases hstep

end Holds

lemma holds_start : Holds start empty where
  status := Status.noConfusion
  items := rfl
  next i n hn := by cases hn
  headptr := rfl
  tailptr hne := absurd rfl hne
  range k hk := absurd rfl hk
  slot k := trivial

variable {ls : List Action} {s : State}

lemma accept_log_of_run (hrun : RunWhen step (fun _ a => Allocates a ∧ Short a) start ls s) :
    ∃ l, replay accept empty s.log = some l ∧ Holds s l := by
  refine hrun.invariant
    (I := fun s => ∃ l, replay accept empty s.log = some l ∧ Holds s l)
    ⟨_, rfl, holds_start⟩ ?_
  rintro s a s' ⟨l, hlog, h⟩ hstep ⟨halloc, hshort⟩
  rcases h.step hstep halloc hshort with ⟨e, l', hlog', hacc, h'⟩ | ⟨hlog', h'⟩
  · refine ⟨l', ?_, h'⟩
    rw [hlog', replay_append, hlog, bind_some]
    exact bind_eq_some_iff.mpr ⟨l', hacc, rfl⟩
  · exact ⟨l, hlog' ▸ hlog, h'⟩

/-! ## Traversals -/

/-- A traversal under the key `k` that is opened after the calls `pre`, with the calls `mid` while
it is open.  Its replies are the items of the list in the order of insertion, from the first one on.
If the end mark comes next, all items added before the traversal was opened are among them.  Once
the traversal has been closed, requests are refused.  As long as it is open, the reply `r` that
comes next is not changed by a call under another key. -/
theorem traversals_correct
    (hrun : RunWhen step (fun _ a => Allocates a ∧ Short a) start ls s) {k : ℤ}
    {pre mid post : List Event} (hlog : s.log = pre ++ .access k :: (mid ++ post))
    (hopen : ∀ e ∈ mid, ¬ e.Closes k) :
    (∃ xs, gets k mid = xs.map .item ∧ xs <+: added (pre ++ mid) ∧
        (post.head? = some (.get k .endMark) → added pre <+: xs)) ∧
      (∀ e rest, post = e :: rest → e.Closes k → (∀ e' ∈ rest, e' ≠ .access k) →
        ∀ r ∈ gets k rest, r = .refused) ∧
      (post = [] → ∃ r, r ≠ .refused ∧ (∀ junk, (getdata s k true junk).log = s.log ++ [.get k r]) ∧
        ∀ a s' e, step s a = some s' → Allocates a → Short a → s'.log = s.log ++ [e] →
          ¬ e.About k → ∀ junk, (getdata s' k true junk).log = s'.log ++ [.get k r]) := by
  obtain ⟨l, hreplay, hholds⟩ := accept_log_of_run hrun
  rw [hlog, replay_append] at hreplay
  obtain ⟨l₀, hpre, hreplay⟩ := bind_eq_some_iff.mp hreplay
  obtain ⟨l₁, hacc, hreplay⟩ := bind_eq_some_iff.mp hreplay
  rw [replay_append] at hreplay
  obtain ⟨l₂, hmid, hpost⟩ := bind_eq_some_iff.mp hreplay
  obtain ⟨xs, c, hc, hvalid, hpos, hgets, hprefix, hended⟩ :=
    traverse_first hacc hmid hopen
  have hitems₀ : l₀.items = added pre := items_replay hpre
  have hitems₂ : l₂.items = added (pre ++ mid) := by
    rw [items_replay hmid, (accept_access hacc).2, setKey_items, hitems₀]
    exact filterMap_append.symm
  refine ⟨⟨xs, hgets, hitems₂ ▸ hprefix, ?_⟩, ?_, ?_⟩
  · intro hhead
    obtain ⟨rest, rfl⟩ : ∃ rest, post = .get k .endMark :: rest :=
      ⟨post.tail, (cons_head?_tail hhead).symm⟩
    obtain ⟨l₃, hend, -⟩ := bind_eq_some_iff.mp hpost
    obtain ⟨hr, -⟩ := accept_get_of_opened hc hend
    exact hitems₀ ▸ hended (Cursor.ended_of_reply hr.symm)
  · rintro e rest rfl hcl hnot
    obtain ⟨l₃, hclose, hrest⟩ := bind_eq_some_iff.mp hpost
    exact gets_of_closed (key_of_closes hc hcl hclose) hrest hnot
  · rintro rfl
    cases hpost
    refine ⟨c.reply l.items, Cursor.reply_ne_refused hvalid, ?_, ?_⟩
    · intro junk
      obtain ⟨-, hget, -⟩ := hholds.get_opened hc junk
      exact hget
    · intro a s' e hstep halloc hshort hlog' habout junk
      rcases hholds.step hstep halloc hshort with ⟨e', l', hlog₁, hacc', hholds'⟩ | ⟨hsame, -⟩
      · obtain rfl : e = e' := by
          have := hlog'.symm.trans hlog₁
          simpa using this
        have hc' := (key_accept_of_not_about hacc' habout).trans hc
        obtain ⟨-, hget, -⟩ := hholds'.get_opened hc' junk
        rwa [items_accept hacc', Cursor.reply_append hvalid] at hget
      · rw [hsame] at hlog'
        simp at hlog'

lemma zero_notMem_hi : (0 : UInt8) ∉ [104, 105] := by decide

lemma zero_notMem_ho : (0 : UInt8) ∉ [104, 111] := by decide

def hi : Data := ⟨0, [104, 105], zero_notMem_hi⟩

def ho : Data := ⟨0, [104, 111], zero_notMem_ho⟩

def hiCalls : List Action :=
  [.adddata hi true, .accessdata true fun _ => .stray, .adddata ho true, .getdata 0 true none,
    .getdata 0 true none, .getdata 0 true none]

/-- The calls of `hiCalls` while the traversal is open. -/
def hiMid : List Event := [.add ho, .get 0 (.item hi), .get 0 (.item ho)]

def admits : Action → Bool
  | .adddata data alloc => alloc && decide (data.nodeBytes < 2 ^ 32)
  | .accessdata alloc _ => alloc
  | .getdata _ alloc _ => alloc
  | _ => true

lemma admits_spec (a : Action) (h : admits a = true) : Allocates a ∧ Short a := by
  cases a with
  | adddata data alloc =>
    obtain ⟨halloc, hshort⟩ := Bool.and_eq_true_iff.mp h
    have hshort' : data.nodeBytes < 2 ^ 32 := of_decide_eq_true hshort
    exact ⟨halloc, hshort'⟩
  | accessdata alloc junk | getdata key alloc junk => exact ⟨h, trivial⟩
  | freekey key | anything e => exact ⟨trivial, trivial⟩

/-- A traversal of a list to which an item is added meanwhile. -/
theorem traversals_correct_hi :
    ∃ s, RunWhen step (fun _ a => Allocates a ∧ Short a) start hiCalls s ∧
      s.log = [.add hi] ++ .access 0 :: (hiMid ++ [.get 0 .endMark]) ∧
      ∃ xs, gets 0 hiMid = xs.map .item ∧ xs <+: [hi, ho] ∧ [hi] <+: xs := by
  obtain ⟨s, hrun, hlog⟩ := exists_runFrom (guarded step fun _ a => admits a) start hiCalls
    (·.log = [.add hi] ++ .access 0 :: (hiMid ++ [.get 0 .endMark])) (by decide)
  have hrun' : RunWhen step (fun _ a => Allocates a ∧ Short a) start hiCalls s :=
    runWhen_of_guarded (fun _ a h => admits_spec a h) hrun
  obtain ⟨⟨xs, hgets, hprefix, hall⟩, -⟩ := traversals_correct hrun' hlog
    (by simp [hiMid, ListEvent.Closes])
  exact ⟨s, hrun', hlog, xs, hgets, hprefix, hall rfl⟩

/-! ## Keys that are not open -/

/-- Whether the key `k` is open after an event, if `o` says whether it was before. -/
def openAfter (k : ℤ) (o : Bool) : Event → Bool
  | .access j => decide (j = k) || o
  | .get j .endMark | .free j => !decide (j = k) && o
  | _ => o

/-- A traversal under the key has been opened, and has neither ended nor been freed since. -/
def IsOpen (s : State) (k : ℤ) : Prop := s.log.foldl (openAfter k) false = true

instance (s : State) (k : ℤ) : Decidable (IsOpen s k) := inferInstanceAs (Decidable (_ = _))

/-- The slot of `k` is in use. -/
def Marked (s : State) (k : ℤ) : Prop := InRange s k ∧ s.travptrs k.toNat ≠ .null

/-- The call doubles the table, and the slot of `k`, which is not the key that it returns, is not
`NULL` then. -/
def Grown (s : State) : Action → ℤ → Prop
  | .accessdata alloc junk, k =>
    s.headptr ≠ .null ∧ s.travptrsSize ≠ 0 ∧ s.emptySlot = none ∧ alloc = true ∧
      2 * s.travptrsSize < intRange ∧ s.travptrsSize < k ∧ k < 2 * s.travptrsSize ∧
      junk k.toNat ≠ .null
  | _, _ => False

/-- Nothing has been written behind an allocated block, and under every key that is not open
`getdata` fails with `EINVAL` and changes nothing. -/
def Refuses (s : State) : Prop :=
  s.status ≠ .overrun ∧ ∀ k, ¬ IsOpen s k → ∀ alloc junk,
    getdata s k alloc junk = s.record (.get k .refused)

/-- The call does not allocate less than it needs, and the slots that it adds are `NULL`. -/
def Cleared (s : State) (a : Action) : Prop :=
  (∀ data, a = .adddata data true → ¬ data.Overflows) ∧ ∀ k, ¬ Grown s a k

section Keys

variable {s s' : State} {a : Action} {i k : ℤ} {p : Ptr} {e : Event}

lemma isOpen_record : IsOpen (s.record e) k ↔
    openAfter k (s.log.foldl (openAfter k) false) e = true := by
  simp [IsOpen, State.record]

lemma marked_setSlot (hi : InRange s i) :
    Marked (s.setSlot i.toNat p) k ↔ if i = k then p ≠ .null else Marked s k := by
  split
  · subst i
    rw [Marked, and_iff_right (show InRange (s.setSlot k.toNat p) k from hi)]
    simp [State.setSlot]
  · refine and_congr_right fun hk => ?_
    have htoNat : k.toNat ≠ i.toNat := by
      have := hk.1
      have := hi.1
      omega
    simp [State.setSlot, Function.update_of_ne htoNat]

/-- Whether `k` is open and whether its slot is in use is settled by the call, or stays as it was,
unless the table is doubled. -/
def Settles (s : State) (a : Action) (s' : State) (k : ℤ) : Prop :=
  (¬ Grown s a k ∧ (IsOpen s' k ↔ Marked s' k)) ∨
    (IsOpen s' k ↔ IsOpen s k) ∧ (Marked s' k ↔ Marked s k ∨ Grown s a k)

lemma settles_record (hg : ¬ Grown s a k) (he : ∀ o, openAfter k o e = o) :
    Settles s a (s.record e) k := by
  refine .inr ⟨?_, (or_iff_left hg).symm⟩
  rw [isOpen_record, he]
  rfl

lemma settles_setSlot {s₀ : State} (hlog : s₀.log = s.log) (hi : InRange s₀ i) (hg : ¬ Grown s a i)
    (he : ∀ o, openAfter k o e = if i = k then decide (p ≠ .null) else o)
    (hmarked : i ≠ k → (Marked s₀ k ↔ Marked s k ∨ Grown s a k)) :
    Settles s a ((s₀.setSlot i.toNat p).record e) k := by
  have hmark : Marked ((s₀.setSlot i.toNat p).record e) k ↔ _ := marked_setSlot hi
  rw [Settles, isOpen_record, he, hmark, State.setSlot, hlog]
  by_cases hik : i = k
  · simp [hik, hik ▸ hg]
  · simp only [if_neg hik]
    exact .inr ⟨Iff.rfl, hmarked hik⟩

lemma emptySlot_spec {i : ℕ} (hi : s.emptySlot = some i) : InRange s i ∧ s.travptrs i = .null := by
  have hnull := find?_some hi
  exact ⟨⟨Int.natCast_nonneg i, Int.ofNat_lt.mpr (mem_range.mp (mem_of_find?_eq_some hi))⟩,
    of_decide_eq_true hnull⟩

lemma settles_accessdata (alloc : Bool) (junk : ℕ → Ptr) :
    Settles s (.accessdata alloc junk) (accessdata s alloc junk) k := by
  have hopens : ∀ {i : ℤ} o, s.headptr ≠ .null → openAfter k o (.access i) =
      if i = k then decide (s.headptr ≠ .null) else o := by
    intro i o h
    by_cases hik : i = k <;> simp [openAfter, hik, h]
  fun_cases accessdata s alloc junk with
  | case1 h => exact settles_record (fun hg => hg.1 h) fun _ => rfl
  | case2 h hzero =>
    refine settles_setSlot (i := 0) rfl ⟨le_refl _, Int.natCast_pos.mpr (Nat.succ_pos 7)⟩
      (fun hg => hg.2.1 hzero) (fun o => hopens o h) fun _ => ?_
    simp [Marked, InRange, Grown, hzero]
  | case3 h hzero => exact settles_record (fun hg => hg.2.1 hzero) fun _ => rfl
  | case4 h hzero i hi =>
    refine settles_setSlot (i := i) rfl (emptySlot_spec hi).1 (by simp [Grown, hi])
      (fun o => hopens o h) fun _ => ?_
    simp [Grown, hi]
  | case5 h hzero hnone hal =>
    refine settles_setSlot (i := s.travptrsSize) rfl ⟨by omega, ?_⟩ (by simp [Grown])
      (fun o => hopens o h) fun hne => ?_
    · simp only
      omega
    · simp only [Marked, InRange, Grown]
      grind
  | case6 h hzero hnone hal =>
    exact settles_record (fun hg => hal ⟨hg.2.2.2.1, hg.2.2.2.2.1⟩) fun _ => rfl

lemma settles_getdata (key : ℤ) (alloc : Bool) (junk : Option (Data × Ptr)) :
    Settles s (.getdata key alloc junk) (getdata s key alloc junk) k := by
  fun_cases getdata s key alloc junk with
  | case1 | case5 => exact settles_record id fun _ => rfl
  | case2 h =>
    refine settles_setSlot rfl (i := key) ⟨by omega, by omega⟩ id (fun o => ?_) fun _ => ?_
    · by_cases hk : key = k <;> simp [openAfter, hk]
    · simp [Grown]
  | case3 => exact .inr ⟨Iff.rfl, (or_iff_left id).symm⟩
  | case4 h hend item next =>
    have hrange : InRange s key := ⟨by omega, by omega⟩
    refine .inr ⟨isOpen_record, (marked_setSlot hrange).trans ?_⟩
    split
    · subst key
      have hused : s.travptrs k.toNat ≠ .null := fun hnull => h (.inr (.inr hnull))
      have hafter : slotAfter next ≠ .null := by
        unfold slotAfter
        split <;> simp_all
      simp [hafter, Marked, hrange, hused]
    · simp [Grown]

lemma adddata_status_eq_overrun_iff (hs : s.status ≠ .overrun) {data : Data} {alloc : Bool} :
    (adddata s data alloc).status = .overrun ↔ alloc = true ∧ data.Overflows := by
  have hlink : (link s data).status = s.status := by
    unfold link
    simp only
    split <;> rfl
  rw [overflows_iff]
  unfold adddata
  simp only
  split_ifs with hfail hshort
  · refine iff_of_false hs ?_
    rintro ⟨rfl, hnn, -⟩
    exact absurd hnn (by simpa using hfail)
  · obtain ⟨hnn, halloc⟩ := not_or.mp hfail
    exact iff_of_true rfl ⟨by simpa using halloc, not_lt.mp hnn, hshort⟩
  · exact iff_of_false (hlink.trans_ne hs) fun h => hshort h.2.2

lemma settles_step (hst : step s a = some s') (hover : s'.status ≠ .overrun) :
    Settles s a s' k := by
  revert hst
  fun_cases ListLib.step s a with
  | case1 data alloc =>
    rintro ⟨⟩
    revert hover
    fun_cases adddata s data alloc with
    | case1 => exact fun _ => settles_record id fun _ => rfl
    | case2 => exact fun hover => absurd rfl hover
    | case3 =>
      refine fun _ => .inr ⟨?_, ?_⟩
      · rw [isOpen_record, link_log]
        rfl
      · unfold link
        simp only [Grown, or_false]
        split <;> rfl
  | case2 alloc junk =>
    rintro ⟨⟩
    exact settles_accessdata alloc junk
  | case3 key alloc junk =>
    rintro ⟨⟩
    exact settles_getdata key alloc junk
  | case4 key =>
    rintro ⟨⟩
    rw [freekey]
    split
    · exact settles_record id fun _ => rfl
    · refine settles_setSlot rfl (i := key) ⟨by omega, by omega⟩ id (fun o => ?_) fun _ => ?_
      · by_cases hk : key = k <;> simp [openAfter, hk]
      · simp [Grown]
  | case5 e h =>
    rintro ⟨⟩
    exact absurd h hover
  | case6 => nofun

lemma not_marked_iff : ¬ Marked s k ↔ k < 0 ∨ k ≥ s.travptrsSize ∨ s.travptrs k.toNat = .null := by
  simp only [Marked, InRange, not_and_or, not_le, not_lt, not_not]
  tauto

lemma getdata_eq_iff : (∀ alloc junk, getdata s k alloc junk = s.record (.get k .refused)) ↔
    ¬ Marked s k := by
  rw [not_marked_iff]
  constructor
  · intro h
    have hlog := congrArg State.log (h true none)
    revert hlog
    fun_cases getdata s k true none with
    | case1 hout => exact fun _ => hout
    | _ => simp [State.record, State.setSlot] at *
  · intro h alloc junk
    rw [getdata, if_pos h]

lemma marked_of_isOpen (hrun : RunFrom step start ls s) :
    s.status ≠ .overrun → ∀ k, IsOpen s k → Marked s k := by
  refine hrun.invariant (I := fun s => s.status ≠ .overrun → ∀ k, IsOpen s k → Marked s k)
    (fun _ k hk => by cases hk) fun s a s' ih hst _ hover k hk => ?_
  have hover' : s.status ≠ .overrun := by
    intro h
    cases a <;> simp [ListLib.step, h] at hst
    exact hover (hst ▸ h)
  rcases settles_step hst hover (k := k) with ⟨-, h⟩ | ⟨hopen, hmark⟩
  · exact h.mp hk
  · exact hmark.mpr (.inl (ih hover' k (hopen.mp hk)))

lemma not_marked_of_access {alloc : Bool} {junk : ℕ → Ptr}
    (h : (accessdata s alloc junk).log = s.log ++ [.access k]) : ¬ Marked s k := by
  have hkey : ∀ {s₀ : State} {j : ℤ}, (s₀.record (.access j)).log = s₀.log ++ [.access k] → j = k :=
    fun h => by simpa [State.record] using h
  rw [not_marked_iff]
  revert h
  fun_cases accessdata s alloc junk with
  | case1 | case3 | case6 => simp [State.record]
  | case2 _ hzero =>
    intro h
    obtain rfl := hkey h
    exact .inr (.inl (by omega))
  | case4 _ _ i hi =>
    intro h
    obtain rfl := hkey h
    exact .inr (.inr (emptySlot_spec hi).2)
  | case5 =>
    intro h
    obtain rfl := hkey h
    exact .inr (.inl (le_refl _))

lemma status_step (hs : s.status ≠ .overrun) (hst : step s a = some s')
    (ha : ∀ data, a = .adddata data true → ¬ data.Overflows) : s'.status ≠ .overrun := by
  revert hst
  fun_cases ListLib.step s a with
  | case1 data alloc =>
    rintro ⟨⟩
    rw [Ne, adddata_status_eq_overrun_iff hs]
    rintro ⟨rfl, hover⟩
    exact ha data rfl hover
  | case2 alloc junk =>
    rintro ⟨⟩
    fun_cases accessdata s alloc junk <;> exact hs
  | case3 key alloc junk =>
    rintro ⟨⟩
    fun_cases getdata s key alloc junk <;> first | exact hs | exact Status.noConfusion
  | case4 key =>
    rintro ⟨⟩
    rw [freekey]
    split <;> exact hs
  | case5 e h => exact absurd h hs
  | case6 => nofun

end Keys

/-- `accessdata` does not return an open key.  Along a run, `getdata` refuses every key that is not
open and changes nothing then, if and only if no block is allocated too small and all slots by which
the table is enlarged happen to be `NULL`. -/
theorem getdata_refuses_iff (hrun : RunFrom step start ls s) :
    (Throughout step Refuses start ls s ↔ RunWhen step Cleared start ls s) ∧
      (s.status ≠ .overrun → ∀ alloc junk k,
        (accessdata s alloc junk).log = s.log ++ [.access k] → ¬ IsOpen s k) := by
  refine ⟨throughout_iff (I := fun s => s.status ≠ .overrun ∧ ∀ k, IsOpen s k ↔ Marked s k)
    ?_ ?_ ?_ ?_, ?_⟩
  · exact ⟨Status.noConfusion, fun k => by simp [IsOpen, start, Marked, InRange]⟩
  · exact fun s hI => ⟨hI.1, fun k hk => getdata_eq_iff.mpr (mt (hI.2 k).mpr hk)⟩
  · rintro s a s' ⟨hs, hI⟩ hst ⟨hfit, hnull⟩
    have hs' := status_step hs hst hfit
    refine ⟨hs', fun k => ?_⟩
    rcases settles_step hst hs' (k := k) with ⟨-, h⟩ | ⟨hopen, hmark⟩
    · exact h
    · rw [hopen, hmark, hI k, or_iff_left (hnull k)]
  · rintro s a s' ⟨hs, hI⟩ hst hC ⟨hs', hrefuses⟩
    -- nothing is overwritten, so a slot that is not `NULL` has come into the table
    have hgrown : ∃ k, Grown s a k := by
      by_contra hnone
      refine hC ⟨?_, not_exists.mp hnone⟩
      rintro data rfl hover
      cases hstat : s.status with
      | running =>
        simp only [ListLib.step, hstat, some.injEq] at hst
        exact hs' (hst ▸ (adddata_status_eq_overrun_iff hs).mpr ⟨rfl, hover⟩)
      | crashed | overrun => simp [ListLib.step, hstat] at hst
    obtain ⟨k, hk⟩ := hgrown
    rcases settles_step hst hs' (k := k) with ⟨hg, -⟩ | ⟨hopen, hmark⟩
    · exact hg hk
    · refine getdata_eq_iff.mp (hrefuses k ?_) (hmark.mpr (.inr hk))
      rw [hopen, hI k, not_marked_iff]
      cases a with
      | accessdata alloc junk => exact .inr (.inl hk.2.2.2.2.2.1.le)
      | _ => exact hk.elim
  · intro hs alloc junk k hlog hk
    exact not_marked_of_access hlog (marked_of_isOpen hrun hs k hk)

def nineCalls : List Action :=
  .adddata hi true :: replicate 9 (.accessdata true fun _ => .endlist)

/-- The ninth traversal has the key 8. -/
theorem getdata_refuses_iff_nine : ∃ s, RunFrom step start nineCalls s ∧
    ∀ alloc junk k, (accessdata s alloc junk).log = s.log ++ [.access k] → ¬ IsOpen s k := by
  obtain ⟨s, hrun, hs⟩ := exists_runFrom step start nineCalls
    (·.status ≠ .overrun) (by decide)
  exact ⟨s, hrun, (getdata_refuses_iff hrun).2 hs⟩

/-- Then `getdata` with the key 9, under which nothing was opened, is not refused. -/
theorem getdata_nine : ∃ s, RunFrom step start nineCalls s ∧ ¬ IsOpen s 9 ∧
    (getdata s 9 true none).log = s.log ++ [.get 9 .endMark] :=
  exists_runFrom _ _ _ _ (by decide)

/-! ## A string that is too long -/

lemma adddata_overruns (s : State) {data : Data} (hlen : data.string.length = 2 ^ 32) :
    adddata s data true = { s.record (.add data) with status := .overrun } := by
  have hbytes : data.nodeBytes = 2 ^ 32 + 25 := by
    unfold Data.nodeBytes sizeofList
    rw [hlen]
    norm_num
  have hsize : wrapSigned 4 data.nodeBytes = 25 := by
    rw [hbytes]
    decide
  unfold adddata
  simp only [hsize]
  rw [if_neg (by simp), if_pos (by rw [hbytes]; norm_num)]

lemma exists_long : ∃ data : Data, data.string.length = 2 ^ 32 :=
  ⟨⟨0, replicate (2 ^ 32) 97, fun h => absurd (eq_of_mem_replicate h) (by decide)⟩,
    length_replicate⟩

def opened : State :=
  accessdata (adddata start hi true) true fun _ => .null

/-- After a string of `2 ^ 32` bytes has been added, a traversal can give an item that is not in the
list. -/
theorem traversal_gives_stray_item :
    ∃ ls s, RunWhen step (fun _ a => Allocates a) start ls s ∧
      ∃ pre mid, s.log = pre ++ .access 0 :: mid ∧ (∀ e ∈ mid, ¬ e.Closes 0) ∧
        ¬ ∃ xs, gets 0 mid = xs.map .item ∧ xs <+: added (pre ++ mid) := by
  obtain ⟨data, hlen⟩ := exists_long
  have hnil : RunWhen step (fun _ a => Allocates a) start [] start := .nil
  have hadd : step start (.adddata hi true) = some (adddata start hi true) := rfl
  have haccess : step (adddata start hi true) (.accessdata true fun _ => .null) = some opened := rfl
  have hlong : step opened (.adddata data true) =
      some { opened.record (.add data) with status := .overrun } :=
    congrArg some (adddata_overruns opened hlen)
  have hstray : step { opened.record (.add data) with status := .overrun }
      (.anything (.get 0 (.item ho))) =
      some ({ opened.record (.add data) with status := .overrun }.record (.get 0 (.item ho))) := rfl
  have hrun := (((hnil.snoc hadd rfl).snoc haccess rfl).snoc hlong rfl).snoc hstray trivial
  refine ⟨_, _, hrun, [.add hi], [.add data, .get 0 (.item ho)], rfl, ?_, ?_⟩
  · simp [ListEvent.Closes]
  · rintro ⟨xs, hgets, hprefix⟩
    have hxs : [Got.item ho] = xs.map Got.item := hgets
    obtain ⟨x, rest, rfl⟩ := exists_cons_of_ne_nil (l := xs) (fun hnil => by
      rw [hnil] at hxs
      cases hxs)
    have hho : ho = x := Got.item.inj (cons.inj hxs).1
    have hhi : x = hi := (cons_prefix_cons.mp hprefix).1
    exact absurd (hho.trans hhi) (by decide)

end UnixPrograms.ListLib
