import Mathlib.Data.List.Flatten

/-!
# Shortened texts

A text from which characters may have been left out, with the condition under which none
has been.  The condition of a text that is put together from parts is the conjunction of
the conditions of the parts, whatever the parts are and whatever stands between them.

Main results:

- Theorem {lit}`Shortened.append`: parts one after the other.
- Theorem {lit}`Shortened.flatMap`: an encoding of every character.
- Theorem {lit}`Shortened.intercalate_cons`: parts with a separator between them.
-/

section

variable {α β : Type*} {kept kept' : Prop} {short long short' long' : List α}

/-- The first list is the second with elements left out, and none is exactly if
{lit}`kept` holds. -/
structure Shortened (kept : Prop) (short long : List α) : Prop where
  sublist : short.Sublist long
  same_iff : short = long ↔ kept

namespace Shortened

/-- Nothing is left out. -/
theorem refl (text : List α) : Shortened True text text where
  sublist := .refl text
  same_iff := iff_of_true rfl trivial

/-- One more element is left out. -/
theorem leaveOut (h : Shortened kept short long) (element : α) :
    Shortened False short (element :: long) where
  sublist := h.sublist.cons element
  same_iff := by
    refine iff_of_false (fun hsame => ?_) not_false
    have hle := h.sublist.length_le
    rw [hsame, List.length_cons] at hle
    omega

/-- A condition may be replaced by an equivalent one. -/
theorem congr (h : Shortened kept short long) (hiff : kept ↔ kept') :
    Shortened kept' short long where
  sublist := h.sublist
  same_iff := h.same_iff.trans hiff

/-- A shortened text is the whole text exactly if it is as long. -/
theorem length_eq_iff (h : Shortened kept short long) : short.length = long.length ↔ kept := by
  rw [← h.same_iff]
  exact ⟨h.sublist.eq_of_length, congrArg List.length⟩

/-- Of two parts one after the other nothing is left out exactly if nothing is of either. -/
theorem append (h : Shortened kept short long) (h' : Shortened kept' short' long') :
    Shortened (kept ∧ kept') (short ++ short') (long ++ long') where
  sublist := h.sublist.append h'.sublist
  same_iff := by
    have hle := h.sublist.length_le
    have hle' := h'.sublist.length_le
    rw [← h.length_eq_iff, ← h'.length_eq_iff]
    constructor
    · intro hsame
      have hlength := congrArg List.length hsame
      rw [List.length_append, List.length_append] at hlength
      omega
    · intro hboth
      rcases hboth with ⟨hsame, hsame'⟩
      rw [h.sublist.eq_of_length hsame, h'.sublist.eq_of_length hsame']

/-- A part behind which the same text stands. -/
theorem append_same (h : Shortened kept short long) (text : List α) :
    Shortened kept (short ++ text) (long ++ text) :=
  (h.append (.refl text)).congr (and_iff_left trivial)

/-- A part in front of which the same text stands. -/
theorem same_append (text : List α) (h : Shortened kept short long) :
    Shortened kept (text ++ short) (text ++ long) :=
  ((Shortened.refl text).append h).congr (and_iff_right trivial)

/-- An encoding that encodes no element by nothing keeps the condition. -/
theorem flatMap {encode : α → List β} (hencode : ∀ element, encode element ≠ [])
    (h : Shortened kept short long) :
    Shortened kept (short.flatMap encode) (long.flatMap encode) where
  sublist := h.sublist.flatMap encode
  same_iff := by
    rw [← h.same_iff]
    refine ⟨fun hsame => ?_, fun hsame => by rw [hsame]⟩
    have hsublist := h.sublist
    clear h
    induction hsublist with
    | slnil => rfl
    | @cons short long element hrest ih =>
        -- what encodes the element left out is missing from the encoded text
        have hle := (hrest.flatMap encode).length_le
        have hlength := congrArg List.length hsame
        have hpos := List.length_pos_iff.mpr (hencode element)
        rw [List.flatMap_cons, List.length_append] at hlength
        omega
    | cons_cons element hrest ih =>
        rw [List.flatMap_cons, List.flatMap_cons, List.append_cancel_left_eq] at hsame
        rw [ih hsame]

/-- One more part in front of parts that a separator joins. -/
theorem intercalate_cons (separator : List α) {shorts longs : List (List α)}
    (hlength : shorts.length = longs.length) (h : Shortened kept short long)
    (hrest : Shortened kept' (separator.intercalate shorts) (separator.intercalate longs)) :
    Shortened (kept ∧ kept') (separator.intercalate (short :: shorts))
      (separator.intercalate (long :: longs)) := by
  cases shorts with
  | nil =>
      cases List.length_eq_zero_iff.mp hlength.symm
      rw [List.intercalate_singleton, List.intercalate_singleton]
      exact h.congr (and_iff_left (hrest.same_iff.mp rfl)).symm
  | cons first rest =>
      cases longs with
      | nil => cases hlength
      | cons first' rest' =>
          rw [List.intercalate_cons_cons, List.intercalate_cons_cons, List.append_assoc,
            List.append_assoc]
          exact h.append (hrest.same_append separator)

end Shortened

end
