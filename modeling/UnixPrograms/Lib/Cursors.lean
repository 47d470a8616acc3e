import Mathlib.Data.List.Infix
import UnixPrograms.Lib.Runs

/-!
# A growing list with cursors

Items are added at the end of a list, and cursors go through it, each under a key.  A cursor that
has given the last item gives an end mark next.  A log is accepted if every reply is the one that
the cursor of its key has to give (`accept`), and its traversals then give the items in order
(`traverse`).
-/

namespace UnixPrograms

open List Option

inductive Got (α : Type) where
  | item (a : α)
  | endMark
  | refused
  deriving DecidableEq

inductive ListEvent (κ α : Type) where
  | add (a : α)
  | access (k : κ)
  | get (k : κ) (r : Got α)
  | free (k : κ)
  | fail
  deriving DecidableEq

structure Cursor where
  pos : ℕ
  /-- The last item has been given. -/
  ended : Bool
  deriving DecidableEq

inductive KeyState where
  | unknown
  | closed
  | opened (c : Cursor)
  deriving DecidableEq

/-- A list with cursors. -/
structure Listing (κ α : Type) where
  items : List α
  key : κ → KeyState

namespace Cursor

variable {α : Type}

def first : Cursor := ⟨0, false⟩

def reply (items : List α) (c : Cursor) : Got α :=
  if c.ended then .endMark else (items[c.pos]?).elim .refused .item

def next (n : ℕ) (c : Cursor) : Cursor := ⟨c.pos + 1, decide (c.pos + 1 = n)⟩

/-- The cursor is at an item, unless it has ended. -/
def Valid (n : ℕ) (c : Cursor) : Prop := c.ended = false → c.pos < n

variable {c : Cursor} {items : List α}

lemma Valid.mono {n m : ℕ} (h : c.Valid n) (hle : n ≤ m) : c.Valid m :=
  fun hended => lt_of_lt_of_le (h hended) hle

lemma valid_next {n : ℕ} (h : c.pos < n) : (c.next n).Valid n := by
  intro hended
  have hne : c.pos + 1 ≠ n := of_decide_eq_false hended
  show c.pos + 1 < n
  omega

lemma reply_of_not_ended (hended : c.ended = false) (hlt : c.pos < items.length) :
    c.reply items = .item items[c.pos] := by
  simp [reply, hended, hlt]

lemma reply_of_ended (items : List α) (hended : c.ended = true) : c.reply items = .endMark := by
  simp [reply, hended]

lemma ended_of_reply (h : c.reply items = .endMark) : c.ended = true := by
  by_contra hended
  unfold reply at h
  rw [if_neg hended] at h
  cases hitem : items[c.pos]? <;> rw [hitem] at h <;> cases h

lemma reply_ne_refused (h : c.Valid items.length) : c.reply items ≠ .refused := by
  cases hended : c.ended with
  | true =>
    rw [reply_of_ended _ hended]
    exact fun heq => by cases heq
  | false =>
    rw [reply_of_not_ended hended (h hended)]
    exact fun heq => by cases heq

lemma reply_append (h : c.Valid items.length) (rest : List α) :
    c.reply (items ++ rest) = c.reply items := by
  cases hended : c.ended with
  | true => rw [reply_of_ended _ hended, reply_of_ended _ hended]
  | false =>
    unfold reply
    rw [List.getElem?_append_left (h hended)]

end Cursor

namespace Listing

variable {κ α : Type} [DecidableEq κ]

def setKey (l : Listing κ α) (k : κ) (x : KeyState) : Listing κ α :=
  { l with key := Function.update l.key k x }

variable [DecidableEq α]

def accept (l : Listing κ α) : ListEvent κ α → Option (Listing κ α)
  | .add a => some { l with items := l.items ++ [a] }
  | .access k =>
    match l.key k with
    | .opened _ => none
    | _ => if l.items = [] then none else some (l.setKey k (.opened .first))
  | .get k r =>
    match l.key k with
    | .unknown => some l
    | .closed => if r = .refused then some l else none
    | .opened c =>
      if r = c.reply l.items then
        some (l.setKey k (if c.ended then .closed else .opened (c.next l.items.length)))
      else none
  | .free k => some (l.setKey k .closed)
  | .fail => some l

def empty : Listing κ α := ⟨[], fun _ => .unknown⟩

end Listing

namespace ListEvent

variable {κ α : Type}

/-- The event ends the traversal of the key. -/
def Closes (k : κ) (e : ListEvent κ α) : Prop := e = .get k .endMark ∨ e = .free k

/-- The event is a call with the key. -/
def About (k : κ) : ListEvent κ α → Prop
  | .access j | .get j _ | .free j => j = k
  | _ => False

def added? : ListEvent κ α → Option α
  | .add a => some a
  | _ => none

def got? [DecidableEq κ] (k : κ) : ListEvent κ α → Option (Got α)
  | .get j r => if j = k then some r else none
  | _ => none

end ListEvent

variable {κ α : Type}

def added (es : List (ListEvent κ α)) : List α := es.filterMap ListEvent.added?

def gets [DecidableEq κ] (k : κ) (es : List (ListEvent κ α)) : List (Got α) :=
  es.filterMap (ListEvent.got? k)

section Gets

variable [DecidableEq κ] {k : κ}

lemma gets_cons_get (r : Got α) (es : List (ListEvent κ α)) :
    gets k (.get k r :: es) = r :: gets k es := by
  simp [gets, ListEvent.got?]

lemma gets_cons_of_not_about {e : ListEvent κ α} (es : List (ListEvent κ α))
    (h : ¬ e.About k) : gets k (e :: es) = gets k es := by
  refine filterMap_cons_none ?_
  cases e with
  | get j r => exact if_neg h
  | add | access | free | fail => rfl

end Gets

namespace Listing

variable [DecidableEq κ] [DecidableEq α] {l l' : Listing κ α} {e : ListEvent κ α}
  {es : List (ListEvent κ α)} {k : κ} {c : Cursor} {l₁ : Listing κ α}

omit [DecidableEq α] in
@[simp] lemma setKey_items (k : κ) (x : KeyState) : (l.setKey k x).items = l.items := rfl

omit [DecidableEq α] in
lemma setKey_key_of_ne {j : κ} (hne : j ≠ k) (x : KeyState) : (l.setKey j x).key k = l.key k :=
  Function.update_of_ne hne.symm _ _

omit [DecidableEq α] in
lemma setKey_key (k : κ) (x : KeyState) : (l.setKey k x).key k = x := Function.update_self _ _ _

lemma accept_cases (h : l.accept e = some l') :
    (∃ a, e = .add a ∧ l' = { l with items := l.items ++ [a] }) ∨
      (added [e] = [] ∧ (l' = l ∨ ∃ j x, e.About j ∧ l' = l.setKey j x)) := by
  cases e with
  | add a => exact .inl ⟨a, rfl, (some.inj h).symm⟩
  | access j =>
    refine .inr ⟨rfl, .inr ⟨j, .opened .first, rfl, ?_⟩⟩
    simp only [accept] at h
    split at h
    · cases h
    · exact (some.inj (ite_none_left_eq_some.mp h).2).symm
  | get j r =>
    refine .inr ⟨rfl, ?_⟩
    simp only [accept] at h
    split at h
    · exact .inl (some.inj h).symm
    · exact .inl (some.inj (ite_none_right_eq_some.mp h).2).symm
    · exact .inr ⟨j, _, rfl, (some.inj (ite_none_right_eq_some.mp h).2).symm⟩
  | free j => exact .inr ⟨rfl, .inr ⟨j, .closed, rfl, (some.inj h).symm⟩⟩
  | fail => exact .inr ⟨rfl, .inl (some.inj h).symm⟩

lemma items_accept (h : l.accept e = some l') : l'.items = l.items ++ added [e] := by
  rcases accept_cases h with ⟨a, rfl, rfl⟩ | ⟨hadded, rfl | ⟨j, x, -, rfl⟩⟩
  · rfl
  · rw [hadded, append_nil]
  · rw [hadded, append_nil]
    rfl

lemma key_accept_of_not_about (h : l.accept e = some l') (hk : ¬ e.About k) :
    l'.key k = l.key k := by
  rcases accept_cases h with ⟨a, rfl, rfl⟩ | ⟨-, rfl | ⟨j, x, hj, rfl⟩⟩
  · rfl
  · rfl
  · exact setKey_key_of_ne (fun hjk : j = k => hk (hjk ▸ hj)) x

lemma accept_get_of_opened {r : Got α} (hc : l.key k = .opened c)
    (h : l.accept (.get k r) = some l') : r = c.reply l.items ∧
      l' = l.setKey k (if c.ended then .closed else .opened (c.next l.items.length)) := by
  simp only [accept, hc] at h
  obtain ⟨hr, h⟩ := ite_none_right_eq_some.mp h
  exact ⟨hr, (some.inj h).symm⟩

lemma accept_get (hc : l.key k = .opened c) : l.accept (.get k (c.reply l.items)) =
    some (l.setKey k (if c.ended then .closed else .opened (c.next l.items.length))) := by
  simp only [accept, hc, if_true]

lemma accept_access_of_not_opened (hne : l.items ≠ []) (hkey : ∀ c, l.key k ≠ .opened c) :
    l.accept (.access k) = some (l.setKey k (.opened .first)) := by
  cases hk : l.key k with
  | opened c => exact absurd hk (hkey c)
  | unknown | closed => simp only [accept, hk, if_neg hne]

lemma key_of_closes (hc : l.key k = .opened c) (hcl : e.Closes k) (h : l.accept e = some l') :
    l'.key k = .closed := by
  rcases hcl with rfl | rfl
  · obtain ⟨hr, rfl⟩ := accept_get_of_opened hc h
    rw [setKey_key, if_pos (Cursor.ended_of_reply hr.symm)]
  · cases h
    exact setKey_key k _

lemma not_accept_access (hc : l.key k = .opened c) : l.accept (.access k) = none := by
  simp only [accept, hc]

lemma accept_access (h : l.accept (.access k) = some l') :
    l.items ≠ [] ∧ l' = l.setKey k (.opened .first) := by
  simp only [accept] at h
  split at h
  · cases h
  · obtain ⟨hne, h⟩ := ite_none_left_eq_some.mp h
    exact ⟨hne, (some.inj h).symm⟩

lemma items_replay (h : replay accept l es = some l') : l'.items = l.items ++ added es := by
  induction es generalizing l with
  | nil =>
    cases h
    exact (append_nil _).symm
  | cons e es ih =>
    obtain ⟨l₁, h₁, h⟩ := bind_eq_some_iff.mp h
    rw [ih h, items_accept h₁, append_assoc]
    exact congrArg (l.items ++ ·) (filterMap_append).symm

omit [DecidableEq κ] [DecidableEq α] in
lemma drop_append_of_lt {items : List α} {i : ℕ} (hlt : i < items.length) (rest : List α) :
    (items ++ rest).drop i = items[i] :: (items ++ rest).drop (i + 1) := by
  have hlt' : i < (items ++ rest).length := by
    rw [length_append]
    omega
  rw [drop_eq_getElem_cons hlt', getElem_append_left hlt]

lemma traverse (hc : l.key k = .opened c) (hvalid : c.Valid l.items.length)
    (hes : replay accept l es = some l') (hopen : ∀ e ∈ es, ¬ e.Closes k) :
    ∃ xs c', l'.key k = .opened c' ∧ c'.Valid l'.items.length ∧ c'.pos = c.pos + xs.length ∧
      gets k es = xs.map .item ∧ xs <+: l'.items.drop c.pos ∧
      (c'.ended = true → c.ended = true ∨ l.items.length ≤ c'.pos) := by
  induction es generalizing l c with
  | nil =>
    cases hes
    exact ⟨[], c, hc, hvalid, rfl, rfl, nil_prefix, .inl⟩
  | cons e es ih =>
    obtain ⟨l₁, h₁, hes⟩ := bind_eq_some_iff.mp hes
    have hrest : ∀ e ∈ es, ¬ e.Closes k := fun e he => hopen e (mem_cons_of_mem _ he)
    have hitems := items_accept h₁
    by_cases habout : e.About k
    · -- the key is open, so the event is a reply, and the reply is an item
      cases e with
      | add | fail => cases habout
      | access j =>
        cases habout
        rw [not_accept_access hc] at h₁
        cases h₁
      | free j => exact absurd (.inr (congrArg ListEvent.free habout)) (hopen _ mem_cons_self)
      | get j r =>
        cases habout
        obtain ⟨hr, rfl⟩ := accept_get_of_opened hc h₁
        cases hend : c.ended with
        | true =>
          rw [Cursor.reply_of_ended _ hend] at hr
          exact absurd (.inl (congrArg (ListEvent.get k) hr)) (hopen _ mem_cons_self)
        | false =>
          have hlt := hvalid hend
          rw [Cursor.reply_of_not_ended hend hlt] at hr
          simp only [hend, Bool.false_eq_true, if_false] at hes
          obtain ⟨xs, c', hc', hvalid', hpos, hgets, hprefix, hended⟩ :=
            ih (setKey_key k _) (Cursor.valid_next hlt) hes hrest
          have hgrow := items_replay hes
          refine ⟨l.items[c.pos] :: xs, c', hc', hvalid', ?_, ?_, ?_, ?_⟩
          · rw [hpos, length_cons]
            simp only [Cursor.next]
            omega
          · rw [hr, gets_cons_get, hgets, map_cons]
          · have hsplit : l'.items.drop c.pos = l.items[c.pos] :: l'.items.drop (c.pos + 1) := by
              rw [hgrow]
              exact drop_append_of_lt hlt _
            rw [hsplit]
            exact prefix_cons_inj _ |>.mpr hprefix
          · intro he
            rcases hended he with hlast | hle
            · have hlast' : c.pos + 1 = l.items.length := of_decide_eq_true hlast
              simp only [Cursor.next] at hpos
              exact .inr (by omega)
            · exact .inr hle
    · -- another event
      have hlen : l.items.length ≤ l₁.items.length := by
        rw [hitems, length_append]
        omega
      obtain ⟨xs, c', hc', hvalid', hpos, hgets, hprefix, hended⟩ :=
        ih ((key_accept_of_not_about h₁ habout).trans hc) (hvalid.mono hlen) hes hrest
      refine ⟨xs, c', hc', hvalid', hpos, ?_, hprefix, fun he => (hended he).imp_right hlen.trans⟩
      rw [gets_cons_of_not_about es habout, hgets]

lemma gets_of_closed (hk : l.key k = .closed) (hes : replay accept l es = some l')
    (hnot : ∀ e ∈ es, e ≠ .access k) : ∀ r ∈ gets k es, r = .refused := by
  induction es generalizing l with
  | nil =>
    intro r hr
    cases hr
  | cons e es ih =>
    obtain ⟨l₁, h₁, hes⟩ := bind_eq_some_iff.mp hes
    have hrest : ∀ e ∈ es, e ≠ .access k := fun e he => hnot e (mem_cons_of_mem _ he)
    by_cases habout : e.About k
    · cases e with
      | add | fail => cases habout
      | access j => exact absurd (congrArg ListEvent.access habout) (hnot _ mem_cons_self)
      | free j =>
        cases habout
        cases h₁
        rw [show gets k (.free k :: es) = gets k es from rfl]
        exact ih (setKey_key k _) hes hrest
      | get j r =>
        cases habout
        simp only [accept, hk] at h₁
        obtain ⟨rfl, h₁⟩ := ite_none_right_eq_some.mp h₁
        cases h₁
        rw [gets_cons_get]
        exact forall_mem_cons.mpr ⟨rfl, ih hk hes hrest⟩
    · rw [gets_cons_of_not_about es habout]
      exact ih ((key_accept_of_not_about h₁ habout).trans hk) hes hrest

lemma traverse_first (hacc : l.accept (.access k) = some l₁)
    (hes : replay accept l₁ es = some l') (hopen : ∀ e ∈ es, ¬ e.Closes k) :
    ∃ xs c, l'.key k = .opened c ∧ c.Valid l'.items.length ∧ c.pos = xs.length ∧
      gets k es = xs.map .item ∧ xs <+: l'.items ∧
      (c.ended = true → l.items <+: xs) := by
  obtain ⟨hne, rfl⟩ := accept_access hacc
  have hvalid : Cursor.first.Valid l.items.length := fun _ => length_pos_iff.mpr hne
  obtain ⟨xs, c, hc, hvalid', hpos, hgets, hprefix, hended⟩ :=
    traverse (setKey_key k _) hvalid hes hopen
  have hpos' : c.pos = xs.length := hpos.trans (Nat.zero_add _)
  refine ⟨xs, c, hc, hvalid', hpos', hgets, hprefix, fun he => ?_⟩
  have hle : l.items.length ≤ xs.length := by
    rcases hended he with hfirst | hle
    · cases hfirst
    · exact hle.trans_eq hpos'
  have hgrow : l.items <+: l'.items := ⟨_, (items_replay hes).symm⟩
  exact prefix_of_prefix_length_le hgrow hprefix hle

end Listing

end UnixPrograms
