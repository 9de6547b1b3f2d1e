import Mathlib.Data.List.Infix
import Mathlib.Data.List.Basic

/-!
# Replacing words in texts

Replacing a word by a mask, from left to right and without overlaps, over any
alphabet.  A word that shares no symbol with the mask occurs in the result only where
it occurs in the text between two masks, so replacing one word after the other never
brings an earlier word back.

Main results:

- Theorem {lit}`Replaces.occurs`: words apart from the mask occur in the text already.
- Theorem {lit}`Replaces.removed`: the replaced word is gone.
- Theorem {lit}`ReplacesAll.removed`: after a series of replacements all words are
  gone.
- Theorem {lit}`ReplacesAll.eq_of_absent`: a series of replacements leaves a text
  alone in which none of the words occurs.
-/

namespace TextReplacement

variable {α : Type}

/-- The result of replacing a word in a text, from left to right. -/
inductive Replaces (word mask : List α) : List α → List α → Prop where
  | nil : Replaces word mask [] []
  | hit (rest out : List α) (h : Replaces word mask rest out) :
      Replaces word mask (word ++ rest) (mask ++ out)
  | keep (c : α) (rest out : List α) (hmiss : ¬ word <+: c :: rest)
      (h : Replaces word mask rest out) : Replaces word mask (c :: rest) (c :: out)

/-- The result of replacing one word after the other. -/
inductive ReplacesAll (mask : List α) : List (List α) → List α → List α → Prop where
  | nil (text : List α) : ReplacesAll mask [] text text
  | cons (word : List α) (words : List (List α)) (text between out : List α)
      (hfirst : Replaces word mask text between) (hrest : ReplacesAll mask words between out) :
      ReplacesAll mask (word :: words) text out

variable {word mask text out w : List α}

/-- A nonempty word apart from the mask does not begin inside it. -/
theorem infix_of_infix_mask_append (hw : w ≠ []) (hapart : w.Disjoint mask)
    (h : w <:+: mask ++ out) : w <:+: out := by
  induction mask with
  | nil => exact h
  | cons c mask ih =>
      rw [List.cons_append, List.infix_cons_iff] at h
      rcases h with hstart | hlater
      · cases w with
        | nil => exact absurd rfl hw
        | cons a w =>
            have hac := (List.cons_prefix_cons.mp hstart).1
            exact absurd List.mem_cons_self (hac ▸ hapart List.mem_cons_self)
      · exact ih (List.disjoint_of_disjoint_cons_right hapart) hlater

/-- At the start of the result such a word is at the start of the text. -/
theorem Replaces.initial (h : Replaces word mask text out) (hmask : mask ≠ [])
    (hapart : w.Disjoint mask) (hw : w <+: out) : w <+: text := by
  induction h generalizing w with
  | nil => exact hw
  | hit rest out _ _ =>
      cases w with
      | nil => exact List.nil_prefix
      | cons a w =>
          cases mask with
          | nil => exact absurd rfl hmask
          | cons c mask =>
              have hac := (List.cons_prefix_cons.mp hw).1
              exact absurd List.mem_cons_self (hac ▸ hapart List.mem_cons_self)
  | keep c rest out _ _ ih =>
      cases w with
      | nil => exact List.nil_prefix
      | cons a w =>
          rcases List.cons_prefix_cons.mp hw with ⟨rfl, hrest⟩
          exact List.cons_prefix_cons.mpr
            ⟨rfl, ih (List.disjoint_of_disjoint_cons_left hapart) hrest⟩

/-- A word apart from the mask occurs in the result only where it occurs in the
text. -/
theorem Replaces.occurs (h : Replaces word mask text out) (hmask : mask ≠ []) (hne : w ≠ [])
    (hapart : w.Disjoint mask) (hw : w <:+: out) : w <:+: text := by
  induction h with
  | nil => exact hw
  | hit rest out _ ih =>
      exact (ih (infix_of_infix_mask_append hne hapart hw)).trans (List.suffix_append _ _).isInfix
  | keep c rest out hmiss hrest ih =>
      rw [List.infix_cons_iff] at hw ⊢
      rcases hw with hstart | hlater
      · exact Or.inl ((Replaces.keep c rest out hmiss hrest).initial hmask hapart hstart)
      · exact Or.inr (ih hlater)

/-- The replaced word is gone, if it is apart from the mask. -/
theorem Replaces.removed (h : Replaces word mask text out) (hmask : mask ≠ [])
    (hne : word ≠ []) (hapart : word.Disjoint mask) : ¬ word <:+: out := by
  induction h with
  | nil => simpa using hne
  | hit rest out _ ih => exact fun hw => ih (infix_of_infix_mask_append hne hapart hw)
  | keep c rest out hmiss hrest ih =>
      rw [List.infix_cons_iff]
      rintro (hstart | hlater)
      · exact hmiss ((Replaces.keep c rest out hmiss hrest).initial hmask hapart hstart)
      · exact ih hlater

/-- A text without the word stays as it is. -/
theorem Replaces.eq_of_absent (h : Replaces word mask text out) (habsent : ¬ word <:+: text) :
    out = text := by
  induction h with
  | nil => rfl
  | hit rest out _ _ => exact absurd (List.prefix_append _ _).isInfix habsent
  | keep c rest out _ _ ih =>
      rw [List.infix_cons_iff, not_or] at habsent
      rw [ih habsent.2]

/-! ## Series of replacements -/

variable {words : List (List α)}

/-- A word apart from the mask occurs in the result only where it occurs in the
text. -/
theorem ReplacesAll.occurs (h : ReplacesAll mask words text out) (hmask : mask ≠ [])
    (hne : w ≠ []) (hapart : w.Disjoint mask) (hw : w <:+: out) : w <:+: text := by
  induction h with
  | nil text => exact hw
  | cons word words text between out hfirst _ ih => exact hfirst.occurs hmask hne hapart (ih hw)

/-- All words are gone, if they are apart from the mask. -/
theorem ReplacesAll.removed (h : ReplacesAll mask words text out) (hmask : mask ≠ [])
    (hwords : ∀ word ∈ words, word ≠ [] ∧ word.Disjoint mask) :
    ∀ word ∈ words, ¬ word <:+: out := by
  induction h with
  | nil text => nofun
  | cons first words text between out hfirst hrest ih =>
      rw [List.forall_mem_cons] at hwords ⊢
      refine ⟨fun hw => ?_, ih hwords.2⟩
      have hbetween := hrest.occurs hmask hwords.1.1 hwords.1.2 hw
      exact hfirst.removed hmask hwords.1.1 hwords.1.2 hbetween

/-- A text without any of the words stays as it is. -/
theorem ReplacesAll.eq_of_absent (h : ReplacesAll mask words text out)
    (habsent : ∀ word ∈ words, ¬ word <:+: text) : out = text := by
  induction h with
  | nil text => rfl
  | cons first words text between out hfirst hrest ih =>
      rw [List.forall_mem_cons] at habsent
      have hsame := hfirst.eq_of_absent habsent.1
      rw [ih (by rw [hsame]; exact habsent.2), hsame]

end TextReplacement
