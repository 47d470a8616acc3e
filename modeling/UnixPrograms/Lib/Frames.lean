import UnixPrograms.Lib.Text

/-!
# Frames with a length in front

A stream of single marks and of frames: a number of bytes in decimal digits, a colon and the bytes.
There is at most one way to read it (`Parses.unique`), since neither the mark nor the colon is a
digit.
-/

namespace UnixPrograms

/-- What a stream is made of. -/
inductive Item where
  | mark
  | frame (body : Bytes)
  deriving DecidableEq

/-- The items of which the bytes are made. -/
inductive Parses (mark colon : UInt8) : Bytes → List Item → Prop
  | nil : Parses mark colon [] []
  | mark {bs : Bytes} {xs : List Item} (h : Parses mark colon bs xs) :
      Parses mark colon (mark :: bs) (.mark :: xs)
  /-- The digits say how many bytes belong to the frame. -/
  | frame {ds body bs : Bytes} {xs : List Item} (hne : ds ≠ []) (hds : ∀ c ∈ ds, isDigit c = true)
      (hlen : digitsValue ds = body.length) (h : Parses mark colon bs xs) :
      Parses mark colon (ds ++ colon :: (body ++ bs)) (.frame body :: xs)

section Frames

variable {mark colon : UInt8}

lemma ne_append_colon (hmark : isDigit mark = false) {ds bs bs' : Bytes} (hne : ds ≠ [])
    (hds : ∀ c ∈ ds, isDigit c = true) : mark :: bs ≠ ds ++ colon :: bs' := by
  obtain ⟨d, ds, rfl⟩ := List.exists_cons_of_ne_nil hne
  intro h
  obtain ⟨rfl, -⟩ := List.cons_eq_cons.mp h
  rw [hds mark List.mem_cons_self] at hmark
  cases hmark

lemma Parses.unique (hmark : isDigit mark = false) (hcolon : isDigit colon = false) {bs : Bytes}
    {xs ys : List Item} (hx : Parses mark colon bs xs) (hy : Parses mark colon bs ys) :
    xs = ys := by
  induction hx generalizing ys with
  | nil =>
    generalize hbs : ([] : Bytes) = bs at hy
    cases hy with
    | nil => rfl
    | mark h => cases hbs
    | frame hne hds hlen h => simp at hbs
  | @mark bs xs h ih =>
    generalize hbs : mark :: bs = bs' at hy
    cases hy with
    | nil => cases hbs
    | mark h' =>
      obtain ⟨-, rfl⟩ := List.cons_eq_cons.mp hbs
      rw [ih h']
    | frame hne hds hlen h' => exact absurd hbs (ne_append_colon hmark hne hds)
  | @frame ds body bs xs hne hds hlen h ih =>
    generalize hbs : ds ++ colon :: (body ++ bs) = bs' at hy
    cases hy with
    | nil => simp at hbs
    | mark h' => exact absurd hbs.symm (ne_append_colon hmark hne hds)
    | frame hne' hds' hlen' h' =>
      obtain ⟨rfl, hrest⟩ := append_stop_inj hds hds' hcolon hbs
      obtain ⟨rfl, rfl⟩ := List.append_inj hrest (hlen.symm.trans hlen')
      rw [ih h']

/-- A frame with its length as `sprintf` writes it. -/
lemma Parses.decimal {body bs : Bytes} {xs : List Item} (h : Parses mark colon bs xs) :
    Parses mark colon (decimal body.length ++ colon :: (body ++ bs)) (.frame body :: xs) := by
  have hvalue : digitsValue (UnixPrograms.decimal body.length) = body.length := by
    simpa using @digitsValue_decimal [] body.length nofun
  exact .frame (decimal_ne_nil _) (fun c hc => isDigit_of_mem_decimal hc) hvalue h

end Frames

end UnixPrograms
