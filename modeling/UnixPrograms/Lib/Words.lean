import Mathlib.Data.List.Basic
import Mathlib.Data.List.TakeWhile

/-!
# The words of a text

The words of a list are its maximal runs of elements that are no separators, given by where they
begin (`starts`).  A reader that goes from one word to the next meets them in order
(`startsFrom_next`, `startsFrom_end`).
-/

namespace UnixPrograms

open List Option

variable {α : Type} {sep : α → Bool} {l : List α}

/-- A word begins at the place `i`: the element there is no separator, and in front of it is one or
nothing. -/
def startsAt (sep : α → Bool) (l : List α) (i : ℕ) : Bool :=
  l[i]?.any (fun c => !sep c) && (i == 0 || l[i - 1]?.any sep)

def startsFrom (sep : α → Bool) (l : List α) (a : ℕ) : List ℕ :=
  (range' a (l.length - a)).filter (startsAt sep l)

def starts (sep : α → Bool) (l : List α) : List ℕ := startsFrom sep l 0

def wordAt (sep : α → Bool) (l : List α) (i : ℕ) : List α := (l.drop i).takeWhile fun c => !sep c

lemma startsFrom_skip {a b : ℕ} (hab : a ≤ b) (hb : b ≤ l.length)
    (h : ∀ i, a ≤ i → i < b → startsAt sep l i = false) :
    startsFrom sep l a = startsFrom sep l b := by
  have hlen : l.length - a = (b - a) + (l.length - b) := by omega
  have hnone : (range' a (b - a)).filter (startsAt sep l) = [] := by
    rw [filter_eq_nil_iff]
    intro i hi
    rw [mem_range'_1] at hi
    simp [h i hi.1 (by omega)]
  rw [startsFrom, hlen, ← range'_append_1, filter_append, hnone, nil_append,
    Nat.add_sub_cancel' hab, startsFrom]

lemma startsFrom_cons {a : ℕ} (h : startsAt sep l a = true) :
    startsFrom sep l a = a :: startsFrom sep l (a + 1) := by
  have ha : a < l.length := by
    by_contra hge
    rw [startsAt, getElem?_eq_none (Nat.le_of_not_lt hge)] at h
    cases h
  have hlen : l.length - a = (l.length - (a + 1)) + 1 := by omega
  rw [startsFrom, hlen, range'_succ, filter_cons_of_pos h, startsFrom]

variable {i : ℕ}

lemma startsAt_of_mem_starts (hi : i ∈ starts sep l) : startsAt sep l i = true :=
  (mem_filter.mp hi).2

lemma startsAt_of_sep {c : α} (hi : l[i]? = some c) (hc : sep c = true) :
    startsAt sep l i = false := by
  simp [startsAt, hi, hc]

lemma startsAt_of_inside {c : α} (hi : l[i]? = some c) (hc : sep c = false) :
    startsAt sep l (i + 1) = false := by
  simp [startsAt, hi, hc]

lemma exists_first_word (sep : α → Bool) (l : List α) :
    (∀ c ∈ l, sep c = true) ∨ ∃ ws word rest, l = ws ++ (word ++ rest) ∧
      (∀ c ∈ ws, sep c = true) ∧ (∀ c ∈ word, sep c = false) ∧ word ≠ [] ∧
        ∀ c ∈ rest.head?, sep c = true := by
  cases hdrop : l.dropWhile sep with
  | nil => exact .inl (dropWhile_eq_nil_iff.mp hdrop)
  | cons c cs =>
    have hc : sep c = false := by
      have hhead := head?_dropWhile_not sep l
      rw [hdrop] at hhead
      exact hhead
    refine .inr ⟨l.takeWhile sep, (c :: cs).takeWhile (fun c => !sep c),
      (c :: cs).dropWhile (fun c => !sep c), ?_, fun d hd => mem_takeWhile_imp hd,
      fun d hd => ?_, ?_, fun d hd => ?_⟩
    · rw [takeWhile_append_dropWhile, ← hdrop, takeWhile_append_dropWhile]
    · simpa using mem_takeWhile_imp hd
    · rw [takeWhile_cons_of_pos (by simp [hc])]
      exact cons_ne_nil _ _
    · have hhead := head?_dropWhile_not (fun c => !sep c) (c :: cs)
      rw [mem_def.mp hd] at hhead
      simpa using hhead

section Split

/-! A list in front of whose place `done.length` nothing or a separator stands, and what is behind
it: separators `ws`, a word and the rest. -/

variable {done ws word rest : List α}

lemma startsFrom_end (done : List α) (hws : ∀ c ∈ ws, sep c = true) :
    startsFrom sep (done ++ ws) done.length = [] := by
  rw [startsFrom, filter_eq_nil_iff]
  intro i hi
  rw [mem_range'_1, length_append] at hi
  obtain ⟨c, hc⟩ : ∃ c, ws[i - done.length]? = some c :=
    ⟨_, getElem?_eq_getElem (by omega)⟩
  have hget : (done ++ ws)[i]? = some c := by rw [getElem?_append_right hi.1, hc]
  simp [startsAt_of_sep hget (hws c (mem_of_getElem? hc))]

lemma startsAt_of_split {front : List α} {c : α} (rest : List α)
    (hfront : ∀ d ∈ front.getLast?, sep d = true) (hc : sep c = false) :
    startsAt sep (front ++ c :: rest) front.length = true := by
  have hget : (front ++ c :: rest)[front.length]? = some c := by simp
  rw [startsAt, hget, any_some, hc, Bool.not_false, Bool.true_and, Bool.or_eq_true, beq_iff_eq]
  rcases eq_nil_or_concat' front with rfl | ⟨front, d, rfl⟩
  · exact .inl rfl
  · refine .inr ?_
    have hlast : (front ++ [d] ++ c :: rest)[(front ++ [d]).length - 1]? = some d := by simp
    rw [hlast, any_some]
    exact hfront d (by simp)

lemma startsFrom_next (hl : l = done ++ (ws ++ (word ++ rest))) (hws : ∀ c ∈ ws, sep c = true)
    (hword : ∀ c ∈ word, sep c = false) (hne : word ≠ [])
    (hdone : ∀ c ∈ done.getLast?, sep c = true) :
    startsFrom sep l done.length = (done.length + ws.length) ::
      startsFrom sep l (done.length + ws.length + word.length) := by
  have hlen : l.length = done.length + (ws.length + (word.length + rest.length)) := by simp [hl]
  have hpos := length_pos_iff.mpr hne
  have hskip : startsFrom sep l done.length = startsFrom sep l (done.length + ws.length) := by
    refine startsFrom_skip (by omega) (by omega) fun i hi hlt => ?_
    obtain ⟨c, hc⟩ : ∃ c, ws[i - done.length]? = some c :=
      ⟨_, getElem?_eq_getElem (by omega)⟩
    refine startsAt_of_sep (c := c) ?_ (hws c (mem_of_getElem? hc))
    rw [hl, getElem?_append_right hi, getElem?_append_left (by omega), hc]
  have hstart : startsAt sep l (done.length + ws.length) = true := by
    obtain ⟨c, word, rfl⟩ := exists_cons_of_ne_nil hne
    have hfront : ∀ d ∈ (done ++ ws).getLast?, sep d = true := by
      intro d hd
      rw [getLast?_append, mem_def, or_eq_some_iff] at hd
      rcases hd with hd | ⟨-, hd⟩
      · exact hws d (mem_of_getLast? hd)
      · exact hdone d hd
    have h := startsAt_of_split (word ++ rest) hfront (hword c mem_cons_self)
    rwa [length_append, append_assoc, ← cons_append, ← hl] at h
  rw [hskip, startsFrom_cons hstart]
  congr 1
  refine startsFrom_skip (by omega) (by omega) fun i hi hlt => ?_
  -- in front of the place is an element of the word
  obtain ⟨j, rfl⟩ : ∃ j, i = done.length + (ws.length + j) + 1 :=
    ⟨i - 1 - (done.length + ws.length), by omega⟩
  obtain ⟨c, hc⟩ : ∃ c, word[j]? = some c := ⟨_, getElem?_eq_getElem (by omega)⟩
  refine startsAt_of_inside (c := c) ?_ (hword c (mem_of_getElem? hc))
  rw [hl, getElem?_append_right (by omega), Nat.add_sub_cancel_left,
    getElem?_append_right (by omega), Nat.add_sub_cancel_left,
    getElem?_append_left (by omega), hc]

lemma starts_ne_nil (h : ¬ ∀ c ∈ l, sep c = true) : starts sep l ≠ [] := by
  obtain hall | ⟨ws, word, rest, hl, hws, hword, hne, -⟩ := exists_first_word sep l
  · exact absurd hall h
  · have hnext := startsFrom_next (hl.trans (nil_append _).symm) hws hword hne nofun
    rw [starts, ← length_nil, hnext]
    exact cons_ne_nil _ _

lemma wordAt_of_split (front : List α) (hword : ∀ c ∈ word, sep c = false)
    (hrest : ∀ c ∈ rest.head?, sep c = true) :
    wordAt sep (front ++ (word ++ rest)) front.length = word := by
  rw [wordAt, drop_left, takeWhile_append_of_pos (by simpa using hword)]
  cases rest with
  | nil => rw [takeWhile_nil, append_nil]
  | cons c rest =>
    rw [takeWhile_cons_of_neg (by simp [hrest c rfl]), append_nil]

end Split

end UnixPrograms
