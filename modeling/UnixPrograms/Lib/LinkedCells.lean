import Mathlib.Data.List.Nodup

/-!
# Linked lists through pointer cells

`cell a v` says that the pointer cell at `a` holds the address `v`; 0 ends a list.  The pointer that
heads a list is a cell like the others, so that its head is treated like its middle.  `Linked cell a
os` says that the list headed by the cell at `a` visits the nodes `os` in order.
-/

namespace UnixPrograms

open List

variable {cell cell' : ℕ → ℕ → Prop}

/-- The list headed by the cell at `a` visits the nodes in order. -/
def Linked (cell : ℕ → ℕ → Prop) : ℕ → List ℕ → Prop
  | a, [] => cell a 0
  | a, o :: os => cell a o ∧ o ≠ 0 ∧ Linked cell o os

/-- The address of the node that a list starts with, 0 for the empty list. -/
def headAddr : List ℕ → ℕ
  | [] => 0
  | o :: _ => o

/-- The cell through which the list headed at `a` goes on after the nodes `os`. -/
def lastCell : ℕ → List ℕ → ℕ
  | a, [] => a
  | _, o :: os => lastCell o os

@[simp] lemma headAddr_nil : headAddr [] = 0 := rfl

@[simp] lemma headAddr_cons (o : ℕ) (os : List ℕ) : headAddr (o :: os) = o := rfl

@[simp] lemma lastCell_nil (a : ℕ) : lastCell a [] = a := rfl

@[simp] lemma lastCell_cons (a o : ℕ) (os : List ℕ) : lastCell a (o :: os) = lastCell o os := rfl

@[simp] lemma lastCell_append_singleton (a o : ℕ) (os : List ℕ) : lastCell a (os ++ [o]) = o := by
  induction os generalizing a with
  | nil => rfl
  | cons b bs ih => exact ih b

lemma lastCell_mem (a : ℕ) (os : List ℕ) : lastCell a os ∈ a :: os := by
  induction os generalizing a with
  | nil => exact mem_singleton.mpr rfl
  | cons o os ih => exact mem_cons_of_mem a (ih o)

variable {os ps : List ℕ} {a : ℕ}

lemma Linked.cell_head (h : Linked cell a os) : cell a (headAddr os) := by
  cases os with
  | nil => exact h
  | cons o os => exact h.1

lemma Linked.congr (h : Linked cell a os) (hc : ∀ x ∈ a :: os, ∀ v, cell x v → cell' x v) :
    Linked cell' a os := by
  induction os generalizing a with
  | nil => exact hc a (by simp) 0 h
  | cons o os ih =>
    exact ⟨hc a (by simp) o h.1, h.2.1, ih h.2.2 fun x hx => hc x (mem_cons_of_mem a hx)⟩

def walk (next : ℕ → ℕ) : ℕ → ℕ → List ℕ
  | 0, _ => []
  | fuel + 1, a => if next a = 0 then [] else next a :: walk next fuel (next a)

lemma Linked.walk_eq {next : ℕ → ℕ} {fuel : ℕ} (h : Linked (fun x v => next x = v) a os)
    (hle : os.length ≤ fuel) : walk next fuel a = os := by
  induction os generalizing a fuel with
  | nil =>
    have ha : next a = 0 := h
    cases fuel with
    | zero => rfl
    | succ fuel => rw [walk, if_pos ha]
  | cons o os ih =>
    obtain ⟨ha, ho, hrest⟩ := h
    obtain ⟨fuel, rfl⟩ := Nat.exists_eq_succ_of_ne_zero (Nat.ne_of_gt (Nat.lt_of_lt_of_le
      (Nat.succ_pos os.length) hle))
    rw [walk, ha, if_neg ho, ih hrest (Nat.le_of_succ_le_succ hle)]

lemma Linked.drop_prefix (h : Linked cell a (os ++ ps)) : Linked cell (lastCell a os) ps := by
  induction os generalizing a with
  | nil => exact h
  | cons o os ih => exact ih h.2.2

/-- Putting a node in: the cell behind `os` is made to hold `n`, the cell at `n` takes what that
cell held, and the others stay. -/
lemma Linked.insert {n : ℕ} (h : Linked cell a (os ++ ps)) (hn0 : n ≠ 0)
    (hp : cell' (lastCell a os) n) (hn : cell' n (headAddr ps))
    (hc : ∀ x ∈ a :: (os ++ ps), x ≠ lastCell a os → ∀ v, cell x v → cell' x v)
    (hnd : (a :: (os ++ ps)).Nodup) : Linked cell' a (os ++ n :: ps) := by
  induction os generalizing a with
  | nil =>
    refine ⟨hp, hn0, ?_⟩
    cases ps with
    | nil => exact hn
    | cons p ps =>
      obtain ⟨-, hp0, hrest⟩ := h
      refine ⟨hn, hp0, hrest.congr fun x hx => ?_⟩
      have hxa : x ≠ a := by
        rintro rfl
        exact (nodup_cons.mp hnd).1 hx
      exact hc x (mem_cons_of_mem a hx) hxa
  | cons o os ih =>
    obtain ⟨ha, ho0, hrest⟩ := h
    have hnd' : (o :: (os ++ ps)).Nodup := (nodup_cons.mp hnd).2
    have hne : a ≠ lastCell a (o :: os) := by
      intro he
      refine (nodup_cons.mp hnd).1 ?_
      rw [he]
      exact mem_append_left ps (lastCell_mem o os)
    exact ⟨hc a (by simp) hne o ha, ho0,
      ih hrest hp (fun x hx hxl => hc x (mem_cons_of_mem a hx) hxl) hnd'⟩

/-- Taking a node out: the cell behind `os` is made to hold what the cell at the node `o` held, and
the cells of the other nodes stay. -/
lemma Linked.unlink {o : ℕ} (h : Linked cell a (os ++ o :: ps))
    (hp : cell' (lastCell a os) (headAddr ps))
    (hc : ∀ x ∈ a :: (os ++ ps), x ≠ lastCell a os → ∀ v, cell x v → cell' x v)
    (hnd : (a :: (os ++ o :: ps)).Nodup) : Linked cell' a (os ++ ps) := by
  induction os generalizing a with
  | nil =>
    cases ps with
    | nil => exact hp
    | cons p ps =>
      obtain ⟨-, -, -, hp0, hrest⟩ := h
      refine ⟨hp, hp0, hrest.congr fun x hx => ?_⟩
      have hxa : x ≠ a := by
        rintro rfl
        exact (nodup_cons.mp hnd).1 (mem_cons_of_mem o hx)
      exact hc x (mem_cons_of_mem a hx) hxa
  | cons b bs ih =>
    obtain ⟨ha, hb0, hrest⟩ := h
    have hnd' : (b :: (bs ++ o :: ps)).Nodup := (nodup_cons.mp hnd).2
    have hne : a ≠ lastCell a (b :: bs) := by
      intro he
      refine (nodup_cons.mp hnd).1 ?_
      rw [he]
      exact mem_append_left (o :: ps) (lastCell_mem b bs)
    exact ⟨hc a (by simp) hne b ha, hb0,
      ih hrest hp (fun x hx hxl => hc x (mem_cons_of_mem a hx) hxl) hnd'⟩

end UnixPrograms
