import EtlTool.Engine.Samples
import Mathlib.Algebra.Group.Nat.Defs

/-!
# Configs as templates

What validation sees of the references in a config and what resolution does with them,
through a middle form: the config with holes where references stand.  The holes are found
before any value is known, and filling them in copies the values.

Main results:

- Theorem {lit}`references_template`: the holes are the references that validation collects.
- Theorem {lit}`resolveConfig_eq_fill`: resolution fills the holes in with the values that
  the context gives, and does nothing else.
- Theorem {lit}`resolveConfig_of_no_references`: without references only escapes change.
- Theorem {lit}`viewsAgree_iff`: the two views agree exactly when no reference inside a text
  leads to a value that cannot be printed.
-/

namespace EtlTool

/-! ## Templates -/

/-- A config with holes for the references: a hole takes the place of a whole value, or
stands inside a text. -/
inductive Template where
  | literal (value : Value)
  | hole (kind : RefKind) (path : String)
  | text (pieces : List Piece)
  | list (items : List Template)
  | dict (fields : List (String × Template))

/-- The template of a string. -/
def textTemplate (text : String) : Template :=
  if isEscaped text then .literal (.str (String.ofList (text.toList.drop 1)))
  else
    match wholeReference? text with
    | some (kind, path) => .hole kind path
    | none => .text (pieces text)

mutual

/-- The template of a raw config value. -/
def Value.template : Value → Template
  | .str text => textTemplate text
  | .list items => .list (itemTemplates items)
  | .dict fields => .dict (fieldTemplates fields)
  | value => .literal value

/-- The templates of the items of a list. -/
def Value.itemTemplates : List Value → List Template
  | [] => []
  | v :: rest => v.template :: itemTemplates rest

/-- The templates of the values of a dict. -/
def Value.fieldTemplates : Fields → List (String × Template)
  | [] => []
  | (key, v) :: rest => (key, v.template) :: fieldTemplates rest

end

mutual

/-- The holes of a template. -/
def Template.references : Template → List (RefKind × String)
  | .literal _ => []
  | .hole kind path => [(kind, path)]
  | .text pieces => pieces.filterMap Piece.reference?
  | .list items => itemReferences items
  | .dict fields => fieldReferences fields

/-- The holes of the items of a list. -/
def Template.itemReferences : List Template → List (RefKind × String)
  | [] => []
  | t :: rest => t.references ++ itemReferences rest

/-- The holes of the values of a dict. -/
def Template.fieldReferences : List (String × Template) → List (RefKind × String)
  | [] => []
  | (_, t) :: rest => t.references ++ fieldReferences rest

end

section

variable (print : Value → Option String)
variable (lookup : RefKind → String → Except ReferenceError Value)

/-- Fill a text in: a hole becomes the printed value, which is not looked at again. -/
def fillText : List Piece → Except ReferenceError String
  | [] => .ok ""
  | .text c :: rest => (fillText rest).map fun text => String.ofList [c] ++ text
  | .ref kind path :: rest =>
      match lookup kind path with
      | .error e => .error e
      | .ok value =>
          match print value with
          | none => .error (.other intConversionError)
          | some text => (fillText rest).map fun text' => text ++ text'

mutual

/-- Fill a template in: a hole in place of a value becomes the value itself. -/
def Template.fill : Template → Except ReferenceError Value
  | .literal value => .ok value
  | .hole kind path => lookup kind path
  | .text pieces => (fillText print lookup pieces).map .str
  | .list items => (fillItems items).map .list
  | .dict fields => (fillFields fields).map .dict

/-- Fill the items of a list in. -/
def Template.fillItems : List Template → Except ReferenceError (List Value)
  | [] => .ok []
  | t :: rest =>
      match t.fill with
      | .error e => .error e
      | .ok v => (fillItems rest).map fun vs => v :: vs

/-- Fill the values of a dict in. -/
def Template.fillFields : List (String × Template) → Except ReferenceError Fields
  | [] => .ok []
  | (key, t) :: rest =>
      match t.fill with
      | .error e => .error e
      | .ok v => (fillFields rest).map fun vs => (key, v) :: vs

end

end

/-! ## The static view -/

private theorem references_textTemplate (text : String) :
    (textTemplate text).references = findInString text := by
  unfold textTemplate findInString
  split
  · rfl
  · cases wholeReference? text with
    | some reference => rfl
    | none => rfl

mutual

/-- The holes of the template are the references that validation collects. -/
theorem references_template : ∀ v : Value, v.template.references = findReferences v
  | .str text => references_textTemplate text
  | .list items => by
      rw [Value.template, Template.references, findReferences, references_itemTemplates items]
  | .dict fields => by
      rw [Value.template, Template.references, findReferences, references_fieldTemplates fields]
  | .none => rfl
  | .bool _ => rfl
  | .int _ => rfl
  | .float _ => rfl
  | .foreign _ _ _ => rfl

private theorem references_itemTemplates : ∀ items : List Value,
    Template.itemReferences (Value.itemTemplates items) = findInItems items
  | [] => rfl
  | v :: rest => by
      rw [Value.itemTemplates, Template.itemReferences, findInItems, references_template v,
        references_itemTemplates rest]

private theorem references_fieldTemplates : ∀ fields : Fields,
    Template.fieldReferences (Value.fieldTemplates fields) = findInFields fields
  | [] => rfl
  | (key, v) :: rest => by
      rw [Value.fieldTemplates, Template.fieldReferences, findInFields, references_template v,
        references_fieldTemplates rest]

end

/-! ## The view of resolution -/

section

variable (rt : Runtime) (ctx : ReferenceContext)

private theorem resolvePieces_eq_fillText (ps : List Piece) :
    rt.resolvePieces ctx ps = fillText rt.pyStr (rt.resolveReference ctx) ps := by
  induction ps with
  | nil => rfl
  | cons piece rest ih =>
      cases piece with
      | text c =>
          rw [Runtime.resolvePieces, fillText, ih]
          cases fillText rt.pyStr (rt.resolveReference ctx) rest <;> rfl
      | ref kind path =>
          rw [Runtime.resolvePieces, fillText, Runtime.interpolate, ih]
          cases rt.resolveReference ctx kind path with
          | error e => rfl
          | ok value =>
              dsimp only
              cases rt.pyStr value with
              | none => rfl
              | some text => cases fillText rt.pyStr (rt.resolveReference ctx) rest <;> rfl

private theorem resolveString_eq_fill (text : String) :
    rt.resolveString ctx text = (textTemplate text).fill rt.pyStr (rt.resolveReference ctx) := by
  unfold Runtime.resolveString textTemplate
  split
  · rfl
  · cases wholeReference? text with
    | some reference => rfl
    | none =>
        dsimp only
        rw [Template.fill, resolvePieces_eq_fillText]
        cases fillText rt.pyStr (rt.resolveReference ctx) (pieces text) <;> rfl

mutual

/-- Resolution fills the template in with the values that the context gives. -/
theorem resolveConfig_eq_fill : ∀ v : Value,
    rt.resolveConfig ctx v = v.template.fill rt.pyStr (rt.resolveReference ctx)
  | .str text => resolveString_eq_fill rt ctx text
  | .list items => by
      rw [Runtime.resolveConfig, Value.template, Template.fill, resolveItems_eq_fillItems items]
      cases Template.fillItems rt.pyStr (rt.resolveReference ctx) (Value.itemTemplates items) <;>
        rfl
  | .dict fields => by
      rw [Runtime.resolveConfig, Value.template, Template.fill, resolveFields_eq_fillFields fields]
      cases Template.fillFields rt.pyStr (rt.resolveReference ctx) (Value.fieldTemplates fields) <;>
        rfl
  | .none => rfl
  | .bool _ => rfl
  | .int _ => rfl
  | .float _ => rfl
  | .foreign _ _ _ => rfl

private theorem resolveItems_eq_fillItems : ∀ items : List Value,
    rt.resolveItems ctx items =
      Template.fillItems rt.pyStr (rt.resolveReference ctx) (Value.itemTemplates items)
  | [] => rfl
  | v :: rest => by
      rw [Runtime.resolveItems, Value.itemTemplates, Template.fillItems, resolveConfig_eq_fill v,
        resolveItems_eq_fillItems rest]
      cases v.template.fill rt.pyStr (rt.resolveReference ctx) with
      | error e => rfl
      | ok v' =>
          cases Template.fillItems rt.pyStr (rt.resolveReference ctx) (Value.itemTemplates rest) <;>
            rfl

private theorem resolveFields_eq_fillFields : ∀ fields : Fields,
    rt.resolveFields ctx fields =
      Template.fillFields rt.pyStr (rt.resolveReference ctx) (Value.fieldTemplates fields)
  | [] => rfl
  | (key, v) :: rest => by
      rw [Runtime.resolveFields, Value.fieldTemplates, Template.fillFields, resolveConfig_eq_fill v,
        resolveFields_eq_fillFields rest]
      cases v.template.fill rt.pyStr (rt.resolveReference ctx) with
      | error e => rfl
      | ok v' =>
          cases Template.fillFields rt.pyStr (rt.resolveReference ctx) (Value.fieldTemplates rest) <;>
            rfl

end

end

/-! ## Configs without references -/

mutual

/-- The value with one dollar less in front of every escaped string. -/
def Value.unescaped : Value → Value
  | .str text => .str (if isEscaped text then String.ofList (text.toList.drop 1) else text)
  | .list items => .list (unescapedItems items)
  | .dict fields => .dict (unescapedFields fields)
  | value => value

/-- The same for the items of a list. -/
def Value.unescapedItems : List Value → List Value
  | [] => []
  | v :: rest => v.unescaped :: unescapedItems rest

/-- The same for the values of a dict. -/
def Value.unescapedFields : Fields → Fields
  | [] => []
  | (key, v) :: rest => (key, v.unescaped) :: unescapedFields rest

end

private theorem resolveString_of_no_references (rt : Runtime) (ctx : ReferenceContext)
    {text : String}
    (h : findInString text = []) :
    rt.resolveString ctx text = .ok (Value.str text).unescaped := by
  rw [Value.unescaped]
  cases hescaped : isEscaped text with
  | true =>
      rw [Runtime.resolveString, hescaped]
      rfl
  | false => exact resolveString_plain rt ctx ⟨hescaped, h⟩

mutual

/-- A config without references resolves to itself, but for its escapes. -/
theorem resolveConfig_of_no_references (rt : Runtime) (ctx : ReferenceContext) : ∀ v : Value,
    findReferences v = [] → rt.resolveConfig ctx v = .ok v.unescaped
  | .str text, h => resolveString_of_no_references rt ctx h
  | .list items, h => by
      rw [Runtime.resolveConfig, resolveItems_of_no_references rt ctx items h]
      rfl
  | .dict fields, h => by
      rw [Runtime.resolveConfig, resolveFields_of_no_references rt ctx fields h]
      rfl
  | .none, _ => rfl
  | .bool _, _ => rfl
  | .int _, _ => rfl
  | .float _, _ => rfl
  | .foreign _ _ _, _ => rfl

private theorem resolveItems_of_no_references (rt : Runtime) (ctx : ReferenceContext) :
    ∀ items : List Value, findInItems items = [] →
      rt.resolveItems ctx items = .ok (Value.unescapedItems items)
  | [], _ => rfl
  | v :: rest, h => by
      rw [findInItems, List.append_eq_nil_iff] at h
      rw [Runtime.resolveItems, resolveConfig_of_no_references rt ctx v h.1,
        resolveItems_of_no_references rt ctx rest h.2]
      rfl

theorem resolveFields_of_no_references (rt : Runtime) (ctx : ReferenceContext) :
    ∀ fields : Fields, findInFields fields = [] →
      rt.resolveFields ctx fields = .ok (Value.unescapedFields fields)
  | [], _ => rfl
  | (key, v) :: rest, h => by
      rw [findInFields, List.append_eq_nil_iff] at h
      rw [Runtime.resolveFields, resolveConfig_of_no_references rt ctx v h.1,
        resolveFields_of_no_references rt ctx rest h.2]
      rfl

end

/-! ## When the views agree -/

section

variable (rt : Runtime) (ctx : ReferenceContext) (config : Value)

/-- Every reference that validation collects resolves. -/
def Runtime.ReferencesResolve : Prop :=
  ∀ reference ∈ findReferences config,
    ∃ value, rt.resolveReference ctx reference.1 reference.2 = .ok value

/-- Both contexts give every reference that validation collects the same value. -/
def Runtime.GiveSameValues (ctx' : ReferenceContext) : Prop :=
  ∀ reference ∈ findReferences config,
    ∃ value, rt.resolveReference ctx reference.1 reference.2 = .ok value ∧
      rt.resolveReference ctx' reference.1 reference.2 = .ok value

/-- What validation collects is what resolution depends on. -/
structure Runtime.ViewsAgree : Prop where
  succeeds : rt.ReferencesResolve ctx config → ∃ value, rt.resolveConfig ctx config = .ok value
  determined : ∀ ctx', rt.GiveSameValues ctx config ctx' →
    rt.resolveConfig ctx config = rt.resolveConfig ctx' config
  plain : findReferences config = [] → rt.resolveConfig ctx config = .ok config.unescaped
  /-- The holes are known before the values, and the values are copied into them. -/
  copied : config.template.references = findReferences config ∧
    rt.resolveConfig ctx config = config.template.fill rt.pyStr (rt.resolveReference ctx)

/-- If all references resolve, those inside texts lead to values that can be printed. -/
def Runtime.PrintsReferences : Prop :=
  rt.ReferencesResolve ctx config → ∀ o ∈ occurrences config, o.embedded = true →
    ∀ value, rt.resolveReference ctx o.kind o.path = .ok value → rt.Printable value

end

private theorem occurrenceError?_eq_none_iff {rt : Runtime} {ctx : ReferenceContext}
    {o : Occurrence} :
    rt.occurrenceError? ctx o = none ↔
      ∃ value, rt.resolveReference ctx o.kind o.path = .ok value ∧
        (o.embedded = true → rt.Printable value) := by
  unfold Runtime.occurrenceError? Runtime.interpolate
  cases hvalue : rt.resolveReference ctx o.kind o.path with
  | error e =>
      by_cases hembedded : o.embedded = true
      · simp [hembedded]
      · simp [hembedded]
  | ok value =>
      have hprint := pyStr_isSome_iff rt value
      by_cases hembedded : o.embedded = true
      · cases htext : rt.pyStr value with
        | none =>
            rw [htext] at hprint
            simpa [hembedded, htext] using hprint
        | some text =>
            rw [htext] at hprint
            simpa [hembedded, htext] using hprint
      · simp [hembedded]

/-- Resolution succeeds exactly when every occurrence resolves and, inside a text, can be
printed. -/
theorem resolveConfig_ok_iff {rt : Runtime} {ctx : ReferenceContext} {config : Value} :
    (∃ value, rt.resolveConfig ctx config = .ok value) ↔
      ∀ o ∈ occurrences config, ∃ value, rt.resolveReference ctx o.kind o.path = .ok value ∧
        (o.embedded = true → rt.Printable value) := by
  have herror := resolveConfig_error_iff rt ctx config
  have hnone : (∃ value, rt.resolveConfig ctx config = .ok value) ↔
      rt.firstError? ctx (occurrences config) = none := by
    rw [Option.eq_none_iff_forall_ne_some]
    cases hresult : rt.resolveConfig ctx config with
    | ok value =>
        refine iff_of_true ⟨value, rfl⟩ fun e he => ?_
        rw [← herror, hresult] at he
        cases he
    | error e =>
        refine iff_of_false (by simp) fun hall => ?_
        exact hall e ((herror e).mp hresult)
  rw [hnone, Runtime.firstError?, List.findSome?_eq_none_iff]
  exact forall₂_congr fun o _ => occurrenceError?_eq_none_iff

private theorem mem_findReferences_of_mem {config : Value} {o : Occurrence}
    (h : o ∈ occurrences config) :
    (o.kind, o.path) ∈ findReferences config := by
  rw [findReferences_eq_occurrences]
  exact List.mem_map.mpr ⟨o, h, rfl⟩

/-- The two views agree exactly when no reference inside a text leads to a value that cannot
be printed. -/
theorem viewsAgree_iff (rt : Runtime) (ctx : ReferenceContext) (config : Value) :
    rt.ViewsAgree ctx config ↔ rt.PrintsReferences ctx config := by
  constructor
  · intro h hresolve o ho hembedded value hvalue
    rcases resolveConfig_ok_iff.mp (h.succeeds hresolve) o ho with ⟨found, hfound, hprint⟩
    rw [hvalue] at hfound
    cases hfound
    exact hprint hembedded
  · intro h
    refine ⟨fun hresolve => ?_, fun ctx' hsame => ?_, ?_, ?_⟩
    · refine resolveConfig_ok_iff.mpr fun o ho => ?_
      rcases hresolve _ (mem_findReferences_of_mem ho) with ⟨value, hvalue⟩
      exact ⟨value, hvalue, fun hembedded => h hresolve o ho hembedded value hvalue⟩
    · refine resolveConfig_congr_of_occurrences rt config fun o ho => ?_
      rcases hsame _ (mem_findReferences_of_mem ho) with ⟨value, hvalue, hvalue'⟩
      rw [hvalue, hvalue']
    · exact resolveConfig_of_no_references rt ctx config
    · exact ⟨references_template config, resolveConfig_eq_fill rt ctx config⟩

namespace TemplateSamples

/-- The smallest number with more digits than a limit. -/
def longNumber (limit : Nat) : Value :=
  .int ((10 ^ limit : Nat) : Int)

/-- The first iteration, over a value. -/
def iteration (value : Value) : ReferenceContext where
  upstream := fun _ => none
  iter := some ⟨value, 0⟩

/-- A text with the value of the iteration in it. -/
def numbered : Value :=
  .str "no. $\x7biter.value\x7d"

private theorem occurrences_numbered : occurrences numbered = [⟨.iter, "value", true⟩] := by
  decide +kernel

private theorem resolveReference_iteration (rt : Runtime) (value : Value) :
    rt.resolveReference (iteration value) .iter "value" = .ok value := by
  have hsplit : splitPath "value" = ["value"] := by
    decide +kernel
  simp [Runtime.resolveReference, hsplit, iteration, IterContext.head?, Runtime.navigate,
    Runtime.getPath, Runtime.walk]

private theorem longNumber_not_printable {rt : Runtime} {limit : Nat}
    (hlimit : rt.maxStrDigits = some limit)
    (hpos : 0 < limit) : ¬ rt.Printable (longNumber limit) := by
  have hlength : ¬ (Nat.repr (10 ^ limit)).length ≤ limit := by
    rw [Nat.length_repr_le_iff hpos]
    exact lt_irrefl _
  intro hprintable
  rw [longNumber, Runtime.Printable, Runtime.printableInt, Int.natAbs_natCast] at hprintable
  simp only [Runtime.convertible, hlimit, decide_eq_true_eq] at hprintable
  exact hlength hprintable

end TemplateSamples

open TemplateSamples

/-- The value of an iteration has too many digits for the text that it should go into. -/
theorem unprintable_value :
    ¬ ∀ (rt : Runtime) (ctx : ReferenceContext) (config : Value), rt.ViewsAgree ctx config := by
  intro h
  have hviews := h Samples.runtime (iteration (longNumber 4300)) numbered
  have hvalue := resolveReference_iteration Samples.runtime (longNumber 4300)
  have hresolve : Samples.runtime.ReferencesResolve (iteration (longNumber 4300)) numbered := by
    intro reference hreference
    rw [findReferences_eq_occurrences, occurrences_numbered] at hreference
    rw [List.mem_singleton.mp hreference]
    exact ⟨_, hvalue⟩
  have hoccurs : ⟨.iter, "value", true⟩ ∈ occurrences numbered := by
    rw [occurrences_numbered]
    exact List.mem_singleton_self _
  rcases resolveConfig_ok_iff.mp (hviews.succeeds hresolve) _ hoccurs with ⟨value, hfound, hprint⟩
  have hsame : longNumber 4300 = value := Except.ok.inj (hvalue.symm.trans hfound)
  exact longNumber_not_printable rfl (by omega) (hsame ▸ hprint rfl)

end EtlTool
