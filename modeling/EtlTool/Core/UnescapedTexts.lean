import EtlTool.Core.ReferenceTemplates
import EtlTool.Foundations.ShortenedTexts

/-!
# The texts of unescaped values

A run takes one dollar away from every escaped string of a config.  What is printed of a
value, alone or inside another one, gets shorter by these dollars and stays the same where
no string is escaped.

Main results:

- Theorem {lit}`shortened_pyRepr`: the {lit}`repr` of an unescaped value.
- Theorem {lit}`shortened_pyStr`: its {lit}`str`.
-/

namespace EtlTool

/-! ## Strings -/

/-- What a run makes of a string without references. -/
def unescapeText (text : String) : String :=
  if isEscaped text then String.ofList (text.toList.drop 1) else text

@[simp]
theorem unescaped_str (text : String) :
    (Value.str text).unescaped = .str (unescapeText text) :=
  rfl

/-- An escaped string begins with two dollars, of which one is left. -/
theorem toList_of_isEscaped {text : String} (h : isEscaped text = true) :
    ∃ rest, text.toList = '$' :: '$' :: rest ∧ (unescapeText text).toList = '$' :: rest := by
  have hescaped := h
  rw [isEscaped, Option.isSome_iff_exists] at hescaped
  rcases hescaped with ⟨rest, hrest⟩
  have htext : text.toList = '$' :: '$' :: rest := stripLiteral_eq_some_iff.mp hrest
  refine ⟨rest, htext, ?_⟩
  rw [unescapeText, if_pos h, htext]
  simp

theorem unescapeText_of_not_isEscaped {text : String} (h : isEscaped text = false) :
    unescapeText text = text := by
  rw [unescapeText, if_neg (by simp [h])]

/-- A string gets shorter exactly if it is escaped. -/
theorem shortened_unescapeText (text : String) :
    Shortened (isEscaped text = false) (unescapeText text).toList text.toList := by
  cases hescaped : isEscaped text with
  | false =>
      rw [unescapeText_of_not_isEscaped hescaped]
      exact (Shortened.refl _).congr (by simp)
  | true =>
      rcases toList_of_isEscaped hescaped with ⟨rest, htext, hrest⟩
      rw [htext, hrest]
      exact ((Shortened.refl _).leaveOut '$').congr (by simp)

theorem unescapeText_eq_iff (text : String) :
    unescapeText text = text ↔ isEscaped text = false := by
  rw [← (shortened_unescapeText text).same_iff, String.toList_inj]

/-! ## Printed values -/

section

variable (rt : Runtime)

/-- A dollar decides nothing about the quotes, and is printed as it is. -/
theorem shortened_reprStr (text : String) :
    Shortened (isEscaped text = false) (rt.reprStr (unescapeText text)).toList
      (rt.reprStr text).toList := by
  have hquote : ∀ c : Char, c ≠ '$' →
      (unescapeText text).toList.contains c = text.toList.contains c := by
    intro c hc
    cases hescaped : isEscaped text with
    | false => rw [unescapeText_of_not_isEscaped hescaped]
    | true =>
        rcases toList_of_isEscaped hescaped with ⟨rest, htext, hrest⟩
        rw [htext, hrest]
        simp [hc]
  have hchar : ∀ quote c, rt.reprChar quote c ≠ [] := by
    intro quote c
    unfold Runtime.reprChar
    repeat' split
    all_goals simp
  simp only [Runtime.reprStr, hquote '\'' (by decide), hquote '"' (by decide),
    String.toList_ofList]
  exact (((shortened_unescapeText text).flatMap (hchar _)).same_append _).append_same _

mutual

/-- The {lit}`repr` of an unescaped value is that of the value with dollars left out, and
none is left out exactly if no string in it is escaped. -/
theorem shortened_pyRepr : ∀ (v : Value) {text : String}, rt.pyRepr v = some text →
    ∃ text', rt.pyRepr v.unescaped = some text' ∧
      Shortened v.EscapeFree text'.toList text.toList
  | .str s, _, h => by
      cases h
      exact ⟨_, rfl, shortened_reprStr rt s⟩
  | .list items, _, h => by
      rw [Runtime.pyRepr, Option.map_eq_some_iff] at h
      rcases h with ⟨texts, htexts, rfl⟩
      rcases shortened_reprItems items htexts with ⟨texts', htexts', _, hshort⟩
      refine ⟨_, by rw [Value.unescaped, Runtime.pyRepr, htexts', Option.map_some], ?_⟩
      simp only [String.toList_append, String.toList_intercalate]
      exact (hshort.same_append _).append_same _
  | .dict fields, _, h => by
      rw [Runtime.pyRepr, Option.map_eq_some_iff] at h
      rcases h with ⟨texts, htexts, rfl⟩
      rcases shortened_reprFields fields htexts with ⟨texts', htexts', _, hshort⟩
      refine ⟨_, by rw [Value.unescaped, Runtime.pyRepr, htexts', Option.map_some], ?_⟩
      simp only [String.toList_append, String.toList_intercalate]
      exact (hshort.same_append _).append_same _
  | .none, text, h => ⟨text, h, .refl _⟩
  | .bool _, text, h => ⟨text, h, .refl _⟩
  | .int _, text, h => ⟨text, h, .refl _⟩
  | .float _, text, h => ⟨text, h, .refl _⟩
  | .foreign _ _ _, text, h => ⟨text, h, .refl _⟩

private theorem shortened_reprItems : ∀ (items : List Value) {texts : List String},
    rt.reprItems items = some texts →
      ∃ texts', rt.reprItems (Value.unescapedItems items) = some texts' ∧
        texts'.length = texts.length ∧
        Shortened (Value.EscapeFreeItems items)
          (", ".toList.intercalate (texts'.map String.toList))
          (", ".toList.intercalate (texts.map String.toList))
  | [], _, h => by
      cases h
      exact ⟨[], rfl, rfl, .refl _⟩
  | v :: rest, _, h => by
      rw [Runtime.reprItems] at h
      cases hv : rt.pyRepr v with
      | none => simp [hv] at h
      | some text =>
          cases hrest : rt.reprItems rest with
          | none => simp [hv, hrest] at h
          | some texts =>
              simp only [hv, hrest, Option.some.injEq] at h
              subst h
              rcases shortened_pyRepr v hv with ⟨text', htext', hshort⟩
              rcases shortened_reprItems rest hrest with ⟨texts', htexts', hlength, hshorts⟩
              refine ⟨text' :: texts', ?_, congrArg Nat.succ hlength, ?_⟩
              · simp only [Value.unescapedItems, Runtime.reprItems, htext', htexts']
              · exact Shortened.intercalate_cons _ (by simpa using hlength) hshort hshorts

private theorem shortened_reprFields : ∀ (fields : Fields) {texts : List String},
    rt.reprFields fields = some texts →
      ∃ texts', rt.reprFields (Value.unescapedFields fields) = some texts' ∧
        texts'.length = texts.length ∧
        Shortened (Value.EscapeFreeFields fields)
          (", ".toList.intercalate (texts'.map String.toList))
          (", ".toList.intercalate (texts.map String.toList))
  | [], _, h => by
      cases h
      exact ⟨[], rfl, rfl, .refl _⟩
  | (key, v) :: rest, _, h => by
      rw [Runtime.reprFields] at h
      cases hv : rt.pyRepr v with
      | none => simp [hv] at h
      | some text =>
          cases hrest : rt.reprFields rest with
          | none => simp [hv, hrest] at h
          | some texts =>
              simp only [hv, hrest, Option.some.injEq] at h
              subst h
              rcases shortened_pyRepr v hv with ⟨text', htext', hshort⟩
              rcases shortened_reprFields rest hrest with ⟨texts', htexts', hlength, hshorts⟩
              refine ⟨(rt.reprStr key ++ ": " ++ text') :: texts', ?_,
                congrArg Nat.succ hlength, ?_⟩
              · simp only [Value.unescapedFields, Runtime.reprFields, htext', htexts']
              · refine Shortened.intercalate_cons _ (by simpa using hlength) ?_ hshorts
                simp only [String.toList_append]
                exact hshort.same_append _

end

/-- The same of {lit}`str`. -/
theorem shortened_pyStr {v : Value} {text : String} (h : rt.pyStr v = some text) :
    ∃ text', rt.pyStr v.unescaped = some text' ∧
      Shortened v.EscapeFree text'.toList text.toList := by
  cases v with
  | str s =>
      cases Option.some.inj h
      exact ⟨_, rfl, shortened_unescapeText _⟩
  | foreign name str repr => exact ⟨text, h, .refl _⟩
  | _ => exact shortened_pyRepr rt _ h

end

/-! ## Dictionaries -/

theorem unescapedFields_eq_map (fields : Fields) :
    Value.unescapedFields fields = fields.map fun field => (field.1, field.2.unescaped) := by
  induction fields with
  | nil => rfl
  | cons field rest ih =>
      rcases field with ⟨key, v⟩
      rw [Value.unescapedFields, List.map_cons, ih]

/-- A key leads to the unescaped value. -/
theorem lookup_unescapedFields (fields : Fields) (key : String) :
    (Value.unescapedFields fields).lookup key = (fields.lookup key).map Value.unescaped := by
  induction fields with
  | nil => rfl
  | cons field rest ih =>
      rcases field with ⟨name, v⟩
      rw [Value.unescapedFields, List.lookup_cons, List.lookup_cons]
      split
      · rfl
      · exact ih

end EtlTool
