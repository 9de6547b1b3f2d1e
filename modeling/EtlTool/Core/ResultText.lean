import EtlTool.Core.JsonDocuments
import EtlTool.Core.RedactionComplete

/-!
# The redacted JSON of a run

The command line writes the result of a run as a JSON text and redacts the text, where the
engine redacts the objects that it logs text by text.  The two agree as long as the
replaced occurrences are those in the string values.

An occurrence of a secret may also stand in a name, in a number or in the punctuation, and
it may begin inside an escape sequence; and a secret with characters that JSON escapes
does not occur in the text in the way in which it occurs in the value.

Main results:

- Theorem {lit}`redactText_documentText`: the redacted text of a string is the text of the
  redacted string, unless a replaced occurrence begins inside an escape sequence.
- Theorem {lit}`resultJson_keeps_iff`: the redacted JSON text is the JSON text of the
  redacted document exactly when only string values are hit.
-/

namespace EtlTool

open TextReplacement

/-! ## Plain variants -/

/-- Every character of the variant is written as it is in a JSON string. -/
def IsPlainVariant (value : List Char) : Prop :=
  ∀ c ∈ value, escapeTail? c = none

/-- The redactor has variants of the required length only, without characters that JSON
escapes. -/
structure Redactor.Plain (redactor : Redactor) : Prop where
  long : ∀ value ∈ redactor.values, minRedactableLength ≤ value.length
  plain : ∀ value ∈ redactor.values, IsPlainVariant value

private theorem redactionMask_plain {c : Char} (h : c ∈ redactionMask) : escapeTail? c = none := by
  rw [eq_star_of_mem_redactionMask h]
  rfl

/-- No occurrence that redaction replaces begins inside an escape sequence of the string. -/
def Redactor.KeepsEscapes (redactor : Redactor) (text : List Char) : Prop :=
  ∀ before c after tail, text = before ++ c :: after → escapeTail? c = some tail →
    ¬ StartsBeforeAny redactionMask redactor.values (tail ++ documentText after) tail.length

private theorem keepsEscapes_nil (redactor : Redactor) : redactor.KeepsEscapes [] := by
  intro before c after tail h
  simp at h

private theorem keepsEscapes_cons_iff {redactor : Redactor} {c : Char} {text : List Char} :
    redactor.KeepsEscapes (c :: text) ↔
      (∀ tail, escapeTail? c = some tail →
        ¬ StartsBeforeAny redactionMask redactor.values (tail ++ documentText text)
          tail.length) ∧ redactor.KeepsEscapes text := by
  constructor
  · intro h
    refine ⟨fun tail => h [] c text tail rfl, fun before d after tail htext => ?_⟩
    exact h (c :: before) d after tail (by rw [htext, List.cons_append])
  · rintro ⟨hfirst, hrest⟩ before d after tail htext
    cases before with
    | nil =>
        cases htext
        exact hfirst tail
    | cons e before =>
        cases htext
        exact hrest before d after tail rfl

private theorem documentText_cons (c : Char) (text : List Char) :
    documentText (c :: text) = documentChar c ++ documentText text := by
  rw [documentText, List.flatMap_cons, ← documentText]

private theorem documentText_append (s t : List Char) :
    documentText (s ++ t) = documentText s ++ documentText t := by
  rw [documentText, List.flatMap_append, ← documentText, ← documentText]

namespace Redactor.Plain

variable {redactor : Redactor} (h : redactor.Plain)

include h

theorem ne_nil : ∀ value ∈ redactor.values, value ≠ [] := by
  intro value hvalue hnil
  have hlength := h.long value hvalue
  rw [hnil] at hlength
  exact absurd hlength (by decide)

theorem replacesAll (text : List Char) :
    ReplacesAll redactionMask redactor.values text (redactor.redactText text) :=
  redactText_replacesAll h.ne_nil text

private theorem eq_redactText {text out : List Char}
    (hout : ReplacesAll redactionMask redactor.values text out) :
    redactor.redactText text = out :=
  eq_redactText_of_replacesAll h.ne_nil hout

private theorem mask_shorter : ∀ value ∈ redactor.values, redactionMask.length < value.length :=
  fun value hvalue => lt_of_lt_of_le (by decide) (h.long value hvalue)

/-- An escaped character is in no variant. -/
theorem free {c : Char} (hc : escapeTail? c ≠ none) :
    ∀ value ∈ redactor.values, value ≠ [] ∧ c ∉ value :=
  fun value hvalue => ⟨h.ne_nil value hvalue, fun hmem => hc (h.plain value hvalue c hmem)⟩

/-- The sides of an escaped character are redacted on their own. -/
theorem redactText_append {c : Char} (hc : escapeTail? c ≠ none) (left right : List Char) :
    redactor.redactText (left ++ c :: right) =
      redactor.redactText left ++ c :: redactor.redactText right :=
  redactText_append_symbol (h.free hc) left right

/-- Redaction brings no escaped character into a text. -/
theorem redactText_plain {text : List Char} (htext : ∀ c ∈ text, escapeTail? c = none) :
    ∀ c ∈ redactor.redactText text, escapeTail? c = none := by
  intro c hc
  by_contra hescaped
  have hmask : c ∉ redactionMask := fun hmem => hescaped (redactionMask_plain hmem)
  exact hescaped (htext c ((h.replacesAll text).mem_of_mem hmask hc))

/-- Redacting the text of a string behind characters that are written as they are. -/
theorem redactText_documentText_append {text plain : List Char}
    (hplain : ∀ c ∈ plain, escapeTail? c = none) (hkeeps : redactor.KeepsEscapes text) :
    redactor.redactText (plain ++ documentText text) =
      documentText (redactor.redactText (plain ++ text)) := by
  induction text generalizing plain with
  | nil =>
      rw [documentText, List.flatMap_nil, List.append_nil,
        documentText_of_plain (h.redactText_plain hplain)]
  | cons c text ih =>
      rcases keepsEscapes_cons_iff.mp hkeeps with ⟨hfirst, hrest⟩
      rw [documentText_cons]
      cases htail : escapeTail? c with
      | none =>
          have hmore : ∀ d ∈ plain ++ [c], escapeTail? d = none :=
            List.forall_mem_append.mpr ⟨hplain, List.forall_mem_singleton.mpr htail⟩
          have hlater := ih hmore hrest
          rw [List.append_assoc, List.append_assoc] at hlater
          rw [documentChar_of_plain htail, hlater, List.singleton_append]
      | some tail =>
          have hslash : escapeTail? '\\' ≠ none := by decide
          have hc : escapeTail? c ≠ none := by
            rw [htail]
            exact Option.some_ne_none tail
          rcases (h.replacesAll (tail ++ documentText text)).keeps_start (hfirst tail htail) with
            ⟨right, hright, hreplaces⟩
          have hlater := ih (List.forall_mem_nil _) hrest
          rw [List.nil_append, List.nil_append, h.eq_redactText hreplaces] at hlater
          rw [documentChar_of_escaped htail, List.cons_append, h.redactText_append hslash, hright,
            hlater, h.redactText_append hc, documentText_append, documentText_cons,
            documentChar_of_escaped htail, documentText_of_plain (h.redactText_plain hplain),
            List.cons_append]

/-- The redacted text of a string is the text of the redacted string, unless a replaced
occurrence begins inside an escape sequence. -/
theorem redactText_documentText {text : List Char} (hkeeps : redactor.KeepsEscapes text) :
    redactor.redactText (documentText text) = documentText (redactor.redactText text) :=
  h.redactText_documentText_append (List.forall_mem_nil _) hkeeps

/-- A replaced occurrence that begins inside an escape sequence breaks it. -/
theorem redactText_breaks {text plain : List Char}
    (hplain : ∀ c ∈ plain, escapeTail? c = none) (hbreaks : ¬ redactor.KeepsEscapes text) :
    ∃ before behind, (∀ rest, readEscape (behind ++ rest) = none) ∧
      redactor.redactText (plain ++ documentText text) =
        documentText before ++ '\\' :: behind := by
  induction text generalizing plain with
  | nil => exact absurd (keepsEscapes_nil redactor) hbreaks
  | cons c text ih =>
      rw [keepsEscapes_cons_iff] at hbreaks
      rw [documentText_cons]
      cases htail : escapeTail? c with
      | none =>
          have hmore : ∀ d ∈ plain ++ [c], escapeTail? d = none :=
            List.forall_mem_append.mpr ⟨hplain, List.forall_mem_singleton.mpr htail⟩
          have hrest : ¬ redactor.KeepsEscapes text := by
            refine fun hkeeps => hbreaks ⟨fun tail htail' => ?_, hkeeps⟩
            rw [htail] at htail'
            cases htail'
          rcases ih hmore hrest with ⟨before, behind, hbehind, hlater⟩
          rw [List.append_assoc] at hlater
          exact ⟨before, behind, hbehind, by rw [documentChar_of_plain htail, ← hlater]⟩
      | some tail =>
          have hslash : escapeTail? '\\' ≠ none := by decide
          have htext := documentText_of_plain (h.redactText_plain hplain)
          rw [documentChar_of_escaped htail, List.cons_append, h.redactText_append hslash]
          by_cases hstart : StartsBeforeAny redactionMask redactor.values
              (tail ++ documentText text) tail.length
          · rcases ReplacesAll.breaks_start
              (h.replacesAll (tail ++ documentText text)) h.ne_nil hstart with ⟨k, hk, more, hmore⟩
            rw [List.take_append_of_le_length hk.le, List.append_assoc] at hmore
            refine ⟨redactor.redactText plain, tail.take k ++ '*' :: more, fun rest => ?_, ?_⟩
            · rw [List.append_assoc]
              exact readEscape_of_star htail hk _
            · rw [htext, ← hmore]
              rfl
          · rcases (h.replacesAll (tail ++ documentText text)).keeps_start hstart with
              ⟨right, hright, hreplaces⟩
            have hrest : ¬ redactor.KeepsEscapes text := by
              refine fun hkeeps => hbreaks ⟨fun tail' htail' => ?_, hkeeps⟩
              rw [htail] at htail'
              cases htail'
              exact hstart
            rcases ih (List.forall_mem_nil _) hrest with
              ⟨before, behind, hbehind, hlater⟩
            rw [List.nil_append, h.eq_redactText hreplaces] at hlater
            refine ⟨redactor.redactText plain ++ c :: before, behind, hbehind, ?_⟩
            rw [hright, hlater, documentText_append, documentText_cons,
              documentChar_of_escaped htail, htext]
            simp

/-- The text of a string ends at its quote, also after redaction. -/
theorem starOutside_redactText {text plain : List Char}
    (hplain : ∀ c ∈ plain, escapeTail? c = none) (rest : List Char) :
    starOutside .inside (redactor.redactText (plain ++ documentText text) ++ '"' :: rest) =
        starOutside .outside rest ∧
      (plain ≠ [] →
        starOutside .escaped (redactor.redactText (plain ++ documentText text) ++ '"' :: rest) =
          starOutside .outside rest) := by
  have hunescaped : ∀ {s : List Char}, (∀ c ∈ s, escapeTail? c = none) →
      ∀ c ∈ s, c ≠ '"' ∧ c ≠ '\\' := fun hs c hc =>
    have hcases := escapeTail?_eq_none_iff.mp (hs c hc)
    ⟨hcases.1, hcases.2.1⟩
  induction text generalizing plain with
  | nil =>
      have hout := hunescaped (h.redactText_plain hplain)
      rw [documentText, List.flatMap_nil, List.append_nil]
      refine ⟨by rw [starOutside_inside_append _ hout, starOutside, if_pos rfl], fun hne => ?_⟩
      cases htext : redactor.redactText plain with
      | nil => exact absurd htext ((h.replacesAll plain).ne_nil redactionMask_ne_nil hne)
      | cons d out =>
          rw [htext, List.forall_mem_cons] at hout
          rw [List.cons_append, starOutside, starOutside_inside_append _ hout.2, starOutside,
            if_pos rfl]
  | cons c text ih =>
      rw [documentText_cons]
      cases htail : escapeTail? c with
      | none =>
          have hmore : ∀ d ∈ plain ++ [c], escapeTail? d = none :=
            List.forall_mem_append.mpr ⟨hplain, List.forall_mem_singleton.mpr htail⟩
          have hlater := ih hmore
          rw [documentChar_of_plain htail, ← List.append_assoc]
          exact ⟨hlater.1, fun _ => hlater.2 (by simp)⟩
      | some tail =>
          have hslash : escapeTail? '\\' ≠ none := by decide
          have hc : escapeTail? c ≠ none := by
            rw [htail]
            exact Option.some_ne_none tail
          have hfirst := hunescaped (h.redactText_plain hplain)
          -- behind the backslash of the escape
          have hescaped : starOutside .escaped
              (redactor.redactText (tail ++ documentText text) ++ '"' :: rest) =
                starOutside .outside rest := by
            rcases escapeTail?_cases htail with rfl | ⟨hne, htailPlain⟩
            · have hsplit := h.redactText_append hc [] (documentText text)
              have hlater := ih (List.forall_mem_nil _)
              rw [List.nil_append] at hsplit
              rw [List.singleton_append, hsplit,
                (h.replacesAll []).eq_of_absent fun value hvalue hoccurs =>
                  h.ne_nil value hvalue (List.infix_nil.mp hoccurs)]
              exact hlater.1
            · exact (ih htailPlain).2 hne
          rw [documentChar_of_escaped htail, List.cons_append, h.redactText_append hslash,
            List.append_assoc, List.cons_append]
          constructor
          · rw [starOutside_inside_append _ hfirst, starOutside, if_neg (by decide), if_pos rfl,
              hescaped]
          · intro hne
            cases htext : redactor.redactText plain with
            | nil => exact absurd htext ((h.replacesAll plain).ne_nil redactionMask_ne_nil hne)
            | cons d out =>
                rw [htext, List.forall_mem_cons] at hfirst
                rw [List.cons_append, starOutside, starOutside_inside_append _ hfirst.2, starOutside,
                  if_neg (by decide), if_pos rfl, hescaped]

/-- A variant that occurs outside the strings of a document leaves an asterisk there. -/
theorem starOutside_fill (tokens : Quoted String Char) {plain : List Char}
    (hplain : ∀ c ∈ plain, c ≠ '"') (htokens : ∀ c, .inl c ∈ tokens → c ≠ '"')
    (hoccurs : ∃ value ∈ redactor.values,
      value <:+: plain ++ Quoted.fill '"' (fun _ => []) tokens) :
    starOutside .outside (redactor.redactText (plain ++
      Quoted.fill '"' (fun text => documentText text.toList) tokens)) = true := by
  have hquote : escapeTail? '"' ≠ none := by decide
  have hunquoted : ∀ {s : List Char}, (∀ c ∈ s, c ≠ '"') →
      ∀ c ∈ redactor.redactText s, c ≠ '"' := by
    rintro s hs c hc rfl
    exact hs '"' ((h.replacesAll s).mem_of_mem (by decide) hc) rfl
  have hstar : ∀ {s : List Char}, (∃ value ∈ redactor.values, value <:+: s) →
      (redactor.redactText s).contains '*' = true := fun hs =>
    List.contains_iff_mem.mpr ((h.replacesAll _).mask_mem_of_occurs (by decide) h.ne_nil hs)
  induction tokens generalizing plain with
  | nil =>
      rw [Quoted.fill, List.append_nil] at hoccurs ⊢
      have hmem := hstar hoccurs
      have hscan := starOutside_outside_append (hunquoted hplain) []
      rw [List.append_nil] at hscan
      rw [hscan, hmem, Bool.true_or]
  | cons token tokens ih =>
      have hrest : ∀ c, .inl c ∈ tokens → c ≠ '"' := fun c hc =>
        htokens c (List.mem_cons_of_mem _ hc)
      cases token with
      | inl c =>
          have hmore : ∀ d ∈ plain ++ [c], d ≠ '"' :=
            List.forall_mem_append.mpr
              ⟨hplain, List.forall_mem_singleton.mpr (htokens c List.mem_cons_self)⟩
          simpa [Quoted.fill] using ih hmore hrest (by simpa [Quoted.fill] using hoccurs)
      | inr text =>
          have hinside := fun rest =>
            (@starOutside_redactText redactor h text.toList [] (List.forall_mem_nil _) rest).1
          rw [Quoted.fill, h.redactText_append hquote, h.redactText_append hquote,
            starOutside_outside_append (hunquoted hplain), starOutside, if_pos rfl,
            ← List.nil_append (documentText text.toList), hinside, Bool.or_eq_true]
          rcases hoccurs with ⟨value, hvalue, hoccurs⟩
          have hfree := (h.free hquote value hvalue).2
          rw [Quoted.fill, infix_append_symbol_iff hfree, List.nil_append] at hoccurs
          rcases hoccurs with hhere | hlater
          · exact Or.inl (hstar ⟨value, hvalue, hhere⟩)
          · refine Or.inr (ih (List.forall_mem_nil _) hrest ⟨value, hvalue, ?_⟩)
            rw [← List.nil_append ('"' :: _), infix_append_symbol_iff hfree] at hlater
            rcases hlater with hnil | hlater
            · exact absurd (List.infix_nil.mp hnil) (h.ne_nil value hvalue)
            · exact hlater

end Redactor.Plain

/-! ## Strings of a redacted document -/

private theorem length_le_documentText (text : List Char) :
    text.length ≤ (documentText text).length := by
  induction text with
  | nil => exact Nat.zero_le _
  | cons c text ih =>
      have hchar : 0 < (documentChar c).length := by
        unfold documentChar
        split <;> simp
      rw [documentText_cons, List.length_cons, List.length_append]
      omega

open Classical in
/-- What is read of a redacted string: the redacted text, unless an escape is broken. -/
noncomputable def Redactor.readRedacted (redactor : Redactor) (text : String) : Option String :=
  if redactor.KeepsEscapes text.toList then some (redactor.redact text) else none

private theorem readRedacted_eq_redact_iff {redactor : Redactor} (text : String) :
    redactor.readRedacted text = some (redactor.redact text) ↔
      redactor.KeepsEscapes text.toList := by
  unfold Redactor.readRedacted
  split
  · rename_i hkeeps
    exact iff_of_true rfl hkeeps
  · rename_i hbreaks
    exact iff_of_false (fun heq => nomatch heq) hbreaks

namespace Redactor.Plain

variable {redactor : Redactor} (h : redactor.Plain)

include h

/-- The redacted text of a string is read as the redacted string, or it is not read. -/
theorem readString_redactText (text : String) (rest : List Char) :
    readString (redactor.redactText (documentText text.toList) ++ '"' :: rest).length
        (redactor.redactText (documentText text.toList) ++ '"' :: rest) =
      (redactor.readRedacted text).map fun t => (t.toList, rest) := by
  unfold Redactor.readRedacted
  split
  · rename_i hkeeps
    have hlength := length_le_documentText (redactor.redactText text.toList)
    rw [h.redactText_documentText hkeeps, Option.map_some, toList_redact]
    refine readString_documentText _ rest ?_
    rw [List.length_append, List.length_cons]
    omega
  · rename_i hbreaks
    rcases h.redactText_breaks (List.forall_mem_nil _) hbreaks with
      ⟨before, behind, hbehind, hredacted⟩
    rw [List.nil_append] at hredacted
    rw [hredacted, List.append_assoc, List.cons_append]
    exact readString_broken before (hbehind _) _

/-- A name is read back exactly when no variant occurs in its text. -/
theorem readRedacted_eq_self_iff (name : String) :
    redactor.readRedacted name = some name ↔
      ∀ value ∈ redactor.values, ¬ value <:+: documentText name.toList := by
  constructor
  · intro hread
    unfold Redactor.readRedacted at hread
    split at hread
    · rename_i hkeeps
      have hself := congrArg String.toList (Option.some.inj hread)
      rw [toList_redact] at hself
      have htext := h.replacesAll (documentText name.toList)
      rw [h.redactText_documentText hkeeps, hself] at htext
      exact htext.absent_of_eq h.mask_shorter
    · cases hread
  · intro habsent
    have hself := (h.replacesAll (documentText name.toList)).eq_of_absent habsent
    have hread := h.readString_redactText name []
    rw [hself, readString_documentText name.toList [] (by
      have hlength := length_le_documentText name.toList
      rw [List.length_append, List.length_cons]
      omega)] at hread
    rcases Option.map_eq_some_iff.mp hread.symm with ⟨t, ht, heq⟩
    rw [ht, String.toList_inj.mp (congrArg Prod.fst heq)]

end Redactor.Plain

/-! ## Redacted documents -/

section

variable {redactor : Redactor} {read : String → Option String}

mutual

/-- The texts of a document are read as redacted and its names as they are. -/
theorem withTexts_eq_redactObj_iff : ∀ v : Value,
    v.withTexts read = some (redactor.redactObj v) ↔
      (∀ text ∈ v.documentTexts, read text = some (redactor.redact text)) ∧
        ∀ name ∈ v.documentNames, read name = some name
  | .none => by simp [Value.withTexts, Redactor.redactObj, Value.documentTexts,
      Value.documentNames]
  | .bool _ => by simp [Value.withTexts, Redactor.redactObj, Value.documentTexts,
      Value.documentNames]
  | .int _ => by simp [Value.withTexts, Redactor.redactObj, Value.documentTexts,
      Value.documentNames]
  | .float _ => by simp [Value.withTexts, Redactor.redactObj, Value.documentTexts,
      Value.documentNames]
  | .foreign _ _ _ => by simp [Value.withTexts, Redactor.redactObj, Value.documentTexts,
      Value.documentNames]
  | .str text => by
      simp [Value.withTexts, Redactor.redactObj, Value.documentTexts, Value.documentNames]
  | .list items => by
      simpa [Value.withTexts, Redactor.redactObj, Value.documentTexts, Value.documentNames]
        using itemsWithTexts_eq_redactItems_iff items
  | .dict fields => by
      simpa [Value.withTexts, Redactor.redactObj, Value.documentTexts, Value.documentNames]
        using fieldsWithTexts_eq_redactFields_iff fields

private theorem itemsWithTexts_eq_redactItems_iff : ∀ items : List Value,
    Value.itemsWithTexts read items = some (redactor.redactItems items) ↔
      (∀ text ∈ Value.itemTexts items, read text = some (redactor.redact text)) ∧
        ∀ name ∈ Value.itemNames items, read name = some name
  | [] => by simp [Value.itemsWithTexts, Redactor.redactItems, Value.itemTexts, Value.itemNames]
  | value :: items => by
      have hvalue := withTexts_eq_redactObj_iff value
      have hitems := itemsWithTexts_eq_redactItems_iff items
      simp only [Value.itemsWithTexts, Redactor.redactItems, Value.itemTexts, Value.itemNames,
        Option.bind_eq_some_iff, Option.map_eq_some_iff, List.cons.injEq,
        List.forall_mem_append]
      constructor
      · rintro ⟨v, hv, vs, hvs, rfl, rfl⟩
        exact ⟨⟨(hvalue.mp hv).1, (hitems.mp hvs).1⟩, (hvalue.mp hv).2, (hitems.mp hvs).2⟩
      · rintro ⟨⟨htexts, htexts'⟩, hnames, hnames'⟩
        exact ⟨_, hvalue.mpr ⟨htexts, hnames⟩, _, hitems.mpr ⟨htexts', hnames'⟩, rfl, rfl⟩

private theorem fieldsWithTexts_eq_redactFields_iff : ∀ fields : List (String × Value),
    Value.fieldsWithTexts read fields = some (redactor.redactFields fields) ↔
      (∀ text ∈ Value.fieldTexts fields, read text = some (redactor.redact text)) ∧
        ∀ name ∈ Value.fieldNames fields, read name = some name
  | [] => by
      simp [Value.fieldsWithTexts, Redactor.redactFields, Value.fieldTexts, Value.fieldNames]
  | (key, value) :: fields => by
      have hvalue := withTexts_eq_redactObj_iff value
      have hfields := fieldsWithTexts_eq_redactFields_iff fields
      simp only [Value.fieldsWithTexts, Redactor.redactFields, Value.fieldTexts, Value.fieldNames,
        Option.bind_eq_some_iff, Option.map_eq_some_iff, List.cons.injEq, Prod.mk.injEq,
        List.forall_mem_append, List.forall_mem_cons]
      constructor
      · rintro ⟨name, hname, v, hv, vs, hvs, ⟨rfl, rfl⟩, rfl⟩
        exact ⟨⟨(hvalue.mp hv).1, (hfields.mp hvs).1⟩, hname, (hvalue.mp hv).2,
          (hfields.mp hvs).2⟩
      · rintro ⟨⟨htexts, htexts'⟩, hname, hnames, hnames'⟩
        exact ⟨_, hname, _, hvalue.mpr ⟨htexts, hnames⟩, _, hfields.mpr ⟨htexts', hnames'⟩,
          ⟨rfl, rfl⟩, rfl⟩

end

end

/-! ## The result of a run -/

section

variable (sp : FloatSpelling) (redactor : Redactor) (result : Value)

/-- The text that the command line prints and writes. -/
def resultJson : String :=
  redactor.redact (dumpJson sp result)

/-- The text is a JSON document, and it is read as the redacted result. -/
def KeepsJson : Prop :=
  parseJson sp (resultJson sp redactor result).toList = some (redactor.redactObj result)

private theorem isPlainVariant_iff_all {value : List Char} :
    (value.all fun c => (escapeTail? c).isNone) = true ↔ IsPlainVariant value := by
  simp [IsPlainVariant]

instance : DecidablePred IsPlainVariant := fun _ =>
  decidable_of_iff _ isPlainVariant_iff_all

/-- The redactor with the variants without characters that JSON escapes. -/
def Redactor.plainVariants : Redactor where
  values := redactor.values.filter (decide <| IsPlainVariant ·)

/-- The variant is replaced in the text: it occurs in what the variants in front of it leave. -/
def Redactor.Hits (redactor : Redactor) (value text : List Char) : Prop :=
  ∃ before after, redactor.values = before ++ value :: after ∧
    value <:+: (Redactor.mk before).redactText text

/-- No variant with a character that JSON escapes is replaced, neither in a string value of the
document nor in its text. -/
def Redactor.MissesEscaped : Prop :=
  ∀ value ∈ redactor.values, ¬ IsPlainVariant value →
    ¬ redactor.Hits value (dumpJson sp result).toList ∧
      ∀ text ∈ result.documentTexts, ¬ redactor.Hits value text.toList

/-- Redacting the JSON text hits the string values only, and these at their characters. -/
structure Redactor.HitsTextsOnly : Prop where
  escaped : redactor.MissesEscaped sp result
  punctuation : ∀ value ∈ redactor.values, IsPlainVariant value →
    ¬ value <:+: Quoted.fill '"' (fun _ => []) (result.documentTokens sp 0)
  names : ∀ value ∈ redactor.values, IsPlainVariant value → ∀ name ∈ result.documentNames,
    ¬ value <:+: documentText name.toList
  escapes : ∀ text ∈ result.documentTexts, redactor.plainVariants.KeepsEscapes text.toList

end

section

variable {sp : FloatSpelling} {redactor : Redactor} {result : Value}

mutual

/-- Redactors that redact the texts of a document alike redact the document alike. -/
theorem redactObj_congr {r r' : Redactor} : ∀ v : Value,
    (∀ text ∈ v.documentTexts, r.redact text = r'.redact text) → r.redactObj v = r'.redactObj v
  | .none, _ => rfl
  | .bool _, _ => rfl
  | .int _, _ => rfl
  | .float _, _ => rfl
  | .foreign _ _ _, _ => rfl
  | .str text, h => congrArg Value.str (h text List.mem_cons_self)
  | .list items, h => congrArg Value.list (redactItems_congr items h)
  | .dict fields, h => congrArg Value.dict (redactFields_congr fields h)

private theorem redactItems_congr {r r' : Redactor} : ∀ items : List Value,
    (∀ text ∈ Value.itemTexts items, r.redact text = r'.redact text) →
      r.redactItems items = r'.redactItems items
  | [], _ => rfl
  | value :: items, h => by
      rw [Value.itemTexts, List.forall_mem_append] at h
      rw [Redactor.redactItems, Redactor.redactItems, redactObj_congr value h.1,
        redactItems_congr items h.2]

private theorem redactFields_congr {r r' : Redactor} : ∀ fields : List (String × Value),
    (∀ text ∈ Value.fieldTexts fields, r.redact text = r'.redact text) →
      r.redactFields fields = r'.redactFields fields
  | [], _ => rfl
  | (key, value) :: fields, h => by
      rw [Value.fieldTexts, List.forall_mem_append] at h
      rw [Redactor.redactFields, Redactor.redactFields, redactObj_congr value h.1,
        redactFields_congr fields h.2]

end

private theorem toList_resultJson : (resultJson sp redactor result).toList = redactor.redactText
    (Quoted.fill '"' (fun text => documentText text.toList) (result.documentTokens sp 0)) := by
  rw [resultJson, toList_redact, dumpJson, String.toList_ofList]

private theorem plainVariants_plain
    (hlong : ∀ value ∈ redactor.values, minRedactableLength ≤ value.length) :
    redactor.plainVariants.Plain where
  long := fun _ hvalue => hlong _ (List.mem_filter.mp hvalue).1
  plain := fun _ hvalue => of_decide_eq_true (List.mem_filter.mp hvalue).2

/-- Where the other variants are not replaced, redaction uses the plain ones only. -/
theorem redactText_plainVariants
    (hlong : ∀ value ∈ redactor.values, minRedactableLength ≤ value.length) {text : List Char}
    (hmisses : ∀ value ∈ redactor.values, ¬ IsPlainVariant value → ¬ redactor.Hits value text) :
    redactor.redactText text = redactor.plainVariants.redactText text := by
  have hne : ∀ value ∈ redactor.values, value ≠ [] := by
    rintro value hvalue rfl
    exact absurd (hlong [] hvalue) (by decide)
  have hplain := plainVariants_plain hlong
  refine (hplain.eq_redactText ((redactText_replacesAll hne text).of_filter ?_)).symm
  intro before value after between hvalues hescaped hbefore hoccurs
  have hvalue : value ∈ redactor.values := by
    rw [hvalues]
    exact List.mem_append_right _ List.mem_cons_self
  have hnonempty : ∀ earlier ∈ before, earlier ≠ [] := fun earlier hearlier =>
    hne earlier (by rw [hvalues]; exact List.mem_append_left _ hearlier)
  refine hmisses value hvalue (of_decide_eq_false hescaped) ⟨before, after, hvalues, ?_⟩
  have hleaves : (Redactor.mk before).redactText text = between :=
    eq_redactText_of_replacesAll hnonempty hbefore
  rwa [hleaves]

/-- With plain variants only, the redacted text is read as the redacted document exactly
when redaction hits the string values only. -/
theorem keepsJson_iff_of_plain (hplain : redactor.Plain) (hsp : sp.Lawful)
    (hresult : result.Document) :
    KeepsJson sp redactor result ↔
      (∀ value ∈ redactor.values,
        ¬ value <:+: Quoted.fill '"' (fun _ => []) (result.documentTokens sp 0)) ∧
      (∀ value ∈ redactor.values, ∀ name ∈ result.documentNames,
        ¬ value <:+: documentText name.toList) ∧
      ∀ text ∈ result.documentTexts, redactor.KeepsEscapes text.toList := by
  rw [KeepsJson, toList_resultJson]
  by_cases houtside : ∀ value ∈ redactor.values,
      ¬ value <:+: Quoted.fill '"' (fun _ => []) (result.documentTokens sp 0)
  · have hquote : escapeTail? '"' ≠ none := by decide
    have hfill := Quoted.replacesAll (result.documentTokens sp 0) (hplain.free hquote) houtside
      fun (text : String) _ => hplain.replacesAll (documentText text.toList)
    rw [hplain.eq_redactText hfill, parseJson_fill hsp hplain.readString_redactText hresult,
      withTexts_eq_redactObj_iff]
    simp only [readRedacted_eq_redact_iff, hplain.readRedacted_eq_self_iff]
    constructor
    · rintro ⟨htexts, hnames⟩
      exact ⟨houtside, fun value hvalue name hname => hnames name hname value hvalue, htexts⟩
    · rintro ⟨_, hnames, htexts⟩
      exact ⟨htexts, fun name hname value hvalue => hnames value hvalue name hname⟩
  · refine iff_of_false (fun hparse => ?_) fun hhits => houtside hhits.1
    push Not at houtside
    have hstar := hplain.starOutside_fill (result.documentTokens sp 0) (List.forall_mem_nil _)
      (documentTokens_free hsp result hresult 0) houtside
    rw [List.nil_append, noStar_of_parseJson hparse] at hstar
    cases hstar

/-- Where no variant with an escaped character occurs, only the plain ones matter. -/
theorem keepsJson_plainVariants
    (hlong : ∀ value ∈ redactor.values, minRedactableLength ≤ value.length)
    (hescaped : redactor.MissesEscaped sp result) :
    KeepsJson sp redactor result ↔ KeepsJson sp redactor.plainVariants result := by
  have hdump := redactText_plainVariants hlong fun value hvalue hvariant =>
    (hescaped value hvalue hvariant).1
  have htexts : ∀ text ∈ result.documentTexts,
      redactor.redact text = redactor.plainVariants.redact text := by
    intro text htext
    have hsame := redactText_plainVariants hlong fun value hvalue hvariant =>
      (hescaped value hvalue hvariant).2 text htext
    rw [← toList_redact, ← toList_redact] at hsame
    exact String.toList_inj.mp hsame
  rw [KeepsJson, KeepsJson, resultJson, resultJson, toList_redact, toList_redact, hdump,
    redactObj_congr result htexts]

end

/-- Secrets of characters that JSON writes as they are have such variants only. -/
theorem missesEscaped_of_plain {secrets : List PyText} {built redactor : Redactor}
    (hbuilt : Redactor.ofSecrets secrets = .ok built)
    (horder : redactor.values.Perm built.values)
    (hplain : ∀ secret ∈ secrets, ∀ c, .scalar c ∈ secret → escapeTail? c = none)
    (sp : FloatSpelling) (result : Value) : redactor.MissesEscaped sp result := by
  have hascii : ∀ n < 128, isUnreserved (Char.ofNat n) = true ∨ isBase64 (Char.ofNat n) = true ∨
      Char.ofNat n = '%' → escapeTail? (Char.ofNat n) = none := by
    decide
  have hunreserved : ∀ c, isUnreserved c = true ∨ isBase64 c = true ∨ c = '%' →
      escapeTail? c = none := by
    intro c hc
    rcases Nat.lt_or_ge c.toNat 128 with hlt | hge
    · have hchar := hascii c.toNat hlt
      rw [Char.ofNat_toNat] at hchar
      exact hchar hc
    · refine escapeTail?_eq_none_iff.mpr ⟨?_, ?_, by omega⟩ <;>
        · rintro rfl
          exact absurd hge (by decide)
  intro value hvalue hescaped
  refine absurd (fun c hc => ?_) hescaped
  rcases (mem_ofSecrets_iff hbuilt).mp (horder.mem_iff.mp hvalue) with
    ⟨secret, hsecret, _, scalars, hscalars, hform⟩
  simp only [secretForms, List.mem_cons, List.not_mem_nil, or_false] at hform
  rcases hform with rfl | rfl | rfl
  · exact hplain secret hsecret c (mem_of_scalars? hscalars hc)
  · rcases mem_percentQuote hc with hc | hc
    · exact hunreserved c (Or.inl hc)
    · exact hunreserved c (Or.inr (Or.inr hc))
  · exact hunreserved c (Or.inr (Or.inl (mem_base64Encode hc)))

/-- The redacted JSON of a result is the JSON of the redacted result if only string values
are hit.  This is necessary as long as no variant with a character that JSON escapes is
replaced, as for secrets without such characters; what such a variant misses, another one may
hit by accident. -/
theorem resultJson_keeps_iff (sp : FloatSpelling) (hsp : sp.Lawful) (secrets : List PyText)
    (built redactor : Redactor) (hbuilt : Redactor.ofSecrets secrets = .ok built)
    (horder : redactor.values.Perm built.values) (result : Value) (hresult : result.Document) :
    (redactor.HitsTextsOnly sp result → KeepsJson sp redactor result) ∧
      (redactor.MissesEscaped sp result →
        (KeepsJson sp redactor result ↔ redactor.HitsTextsOnly sp result)) ∧
      ((∀ secret ∈ secrets, ∀ c, .scalar c ∈ secret → escapeTail? c = none) →
        (KeepsJson sp redactor result ↔ redactor.HitsTextsOnly sp result)) := by
  have hlong : ∀ value ∈ redactor.values, minRedactableLength ≤ value.length :=
    fun value hvalue => minRedactableLength_le_length hbuilt value (horder.mem_iff.mp hvalue)
  have hiff : redactor.MissesEscaped sp result →
      (KeepsJson sp redactor result ↔ redactor.HitsTextsOnly sp result) := by
    intro hescaped
    rw [keepsJson_plainVariants hlong hescaped,
      keepsJson_iff_of_plain (plainVariants_plain hlong) hsp hresult]
    constructor
    · rintro ⟨houtside, hnames, htexts⟩
      exact ⟨hescaped,
        fun value hvalue hplain =>
          houtside value (List.mem_filter.mpr ⟨hvalue, decide_eq_true hplain⟩),
        fun value hvalue hplain =>
          hnames value (List.mem_filter.mpr ⟨hvalue, decide_eq_true hplain⟩), htexts⟩
    · intro hhits
      exact ⟨fun value hvalue => hhits.punctuation value (List.mem_filter.mp hvalue).1
          (of_decide_eq_true (List.mem_filter.mp hvalue).2),
        fun value hvalue => hhits.names value (List.mem_filter.mp hvalue).1
          (of_decide_eq_true (List.mem_filter.mp hvalue).2), hhits.escapes⟩
  exact ⟨fun hhits => (hiff hhits.escaped).mpr hhits, hiff, fun hplain =>
    hiff (missesEscaped_of_plain hbuilt horder hplain sp result)⟩

/-! ## An account number -/

private theorem keepsEscapes_of_plain {redactor : Redactor} {text : List Char}
    (h : ∀ c ∈ text, escapeTail? c = none) : redactor.KeepsEscapes text := by
  rintro before c after tail rfl htail
  rw [h c (by simp)] at htail
  cases htail

namespace ResultSamples

/-- Whole floats as they are written in JSON, others as a fraction. -/
def writeFloat (q : ℚ) : List Char :=
  (toString q.num).toList ++ '.' :: '0' :: if q.den = 1 then [] else 'e' :: Nat.toDigits 10 q.den

/-- The number that {lean}`writeFloat` writes. -/
def readFloat (text : List Char) : PyFloat :=
  let den := (text.dropWhile (· != '.')).drop 3
  .finite (mkRat (intValue (text.takeWhile (· != '.')))
    (if den = [] then 1 else Nat.ofDigitChars 10 den 0))

def spelling : FloatSpelling where
  write := writeFloat
  read := readFloat

/-- A number with a fraction is a number. -/
theorem isJsonNumber_fraction (z : Int) {c : Char} {rest : List Char} (hc : c.isDigit = false)
    (hrest : isFraction (c :: rest) = true) :
    isJsonNumber ((toString z).toList ++ c :: rest) = true := by
  have hunsigned : ∀ n : Nat, isUnsigned (Nat.toDigits 10 n ++ c :: rest) = true := by
    intro n
    have hdigits : ∀ d ∈ Nat.toDigits 10 n, d.isDigit = true := fun d hd =>
      Nat.isDigit_of_mem_toDigits (by decide) (by decide) hd
    have halone := isUnsigned_toDigits n
    rw [isUnsigned, List.takeWhile_eq_self_iff.mpr hdigits,
      List.dropWhile_eq_nil_iff.mpr hdigits, isFraction, Bool.and_true] at halone
    rw [isUnsigned, List.takeWhile_append_of_pos hdigits, List.dropWhile_append_of_pos hdigits,
      List.takeWhile_cons_of_neg (by simp [hc]), List.dropWhile_cons_of_neg (by simp [hc]),
      List.append_nil, hrest, Bool.and_true, halone]
  rw [intText_eq]
  split
  · cases htext : Nat.toDigits 10 z.toNat with
    | nil => exact absurd htext Nat.toDigits_ne_nil
    | cons d digits =>
        rw [List.cons_append, isJsonNumber, if_neg (toDigits_head_ne_minus htext),
          ← List.cons_append, ← htext]
        exact hunsigned _
  · rw [List.cons_append, isJsonNumber, if_pos rfl]
    exact hunsigned _

private theorem isExponent_toDigits (n : Nat) : isExponent ('e' :: Nat.toDigits 10 n) = true := by
  have hdigits : ∀ c ∈ Nat.toDigits 10 n, c.isDigit = true := fun c hc =>
    Nat.isDigit_of_mem_toDigits (by decide) (by decide) hc
  have hsome : isDigits (Nat.toDigits 10 n) = true := by
    rw [isDigits, List.isEmpty_eq_false_iff.mpr Nat.toDigits_ne_nil,
      List.all_eq_true.mpr hdigits]
    rfl
  cases htext : Nat.toDigits 10 n with
  | nil => exact absurd htext Nat.toDigits_ne_nil
  | cons d digits =>
      have hsign : ¬ (d = '+' ∨ d = '-') := by
        have hdigit := hdigits d (htext ▸ List.mem_cons_self)
        rintro (rfl | rfl) <;> exact absurd hdigit (by decide)
      rw [isExponent, if_neg hsign, ← htext, hsome]
      rfl

private theorem isFraction_zero {rest : List Char} (h : isExponent rest = true)
    (hrest : ∀ c ∈ rest.head?, c.isDigit = false) : isFraction ('.' :: '0' :: rest) = true := by
  cases rest with
  | nil => rfl
  | cons c rest =>
      have hc := hrest c rfl
      rw [isFraction, if_pos rfl, List.takeWhile_cons_of_pos (by decide),
        List.dropWhile_cons_of_pos (by decide), List.takeWhile_cons_of_neg (by simp [hc]),
        List.dropWhile_cons_of_neg (by simp [hc]), h]
      rfl

private theorem spelling_lawful : spelling.Lawful where
  number := by
    intro q
    refine isJsonNumber_fraction q.num (by decide) ?_
    split
    · exact isFraction_zero rfl (by simp)
    · exact isFraction_zero (isExponent_toDigits q.den) (by simp)
  chars := by
    intro q c hc
    have hdigits : ∀ d ∈ Nat.toDigits 10 q.den, isNumberChar d = true := fun d hd =>
      isNumberChar_of_digit (Nat.isDigit_of_mem_toDigits (by decide) (by decide) hd)
    simp only [spelling, writeFloat, List.mem_append, List.mem_cons] at hc
    rcases hc with hc | rfl | rfl | hc
    · rcases intText_chars q.num c hc with h | rfl
      · exact isNumberChar_of_digit h
      · rfl
    · rfl
    · rfl
    · split at hc
      · cases hc
      · rcases List.mem_cons.mp hc with rfl | hc
        · rfl
        · exact hdigits c hc
  fraction := fun q => ⟨'.', by simp [spelling, writeFloat], by decide, by decide⟩
  reads := by
    intro q
    have hpoint : ∀ c ∈ (toString q.num).toList, (c != '.') = true := by
      intro c hc
      rcases intText_chars q.num c hc with h | rfl
      · exact bne_iff_ne.mpr fun heq => absurd (heq ▸ h) (by decide)
      · rfl
    simp only [spelling, writeFloat, readFloat]
    rw [List.takeWhile_append_of_pos hpoint, List.dropWhile_append_of_pos hpoint,
      List.takeWhile_cons_of_neg (by decide), List.dropWhile_cons_of_neg (by decide),
      List.append_nil, intValue_intText]
    congr 1
    split
    · rename_i hden
      rw [List.drop_succ_cons, List.drop_succ_cons, List.drop_nil, if_pos rfl, ← hden,
        Rat.mkRat_self]
    · rw [List.drop_succ_cons, List.drop_succ_cons, List.drop_succ_cons, List.drop_zero,
        if_neg Nat.toDigits_ne_nil, Nat.ofDigitChars_ten_toDigits, Rat.mkRat_self]

/-- The secret, of digits only. -/
def secrets : List PyText :=
  [PyText.ofString "12345678"]

def variants : List (List Char) :=
  ["MTIzNDU2Nzg=".toList, "12345678".toList]

/-- The result of a run with one record. -/
def resultOf (account : Value) : Value :=
  .dict [("pipeline_id", .str "accounts"), ("status", .str "succeeded"),
    ("started_at", .str "2024-05-01T08:00:00Z"), ("finished_at", .str "2024-05-01T08:00:01Z"),
    ("node_results", .dict [("source", .dict [("node_id", .str "source"),
      ("node_type", .str "json_source"), ("status", .str "succeeded"), ("records_out", .int 1),
      ("duration_ms", .float (.finite 12)), ("iterations", .none), ("error", .none)])]),
    ("errors", .list []), ("logs", .list []),
    ("outputs", .dict [("source", .list [.dict [("account", account)]])])]

/-- A number with the digits of the secret. -/
def numberResult : Value :=
  resultOf (.int 12345678)

/-- A text with the secret. -/
def textResult : Value :=
  resultOf (.str "no. 12345678")

private theorem resultOf_document {account : Value} (h : account.Document) :
    (resultOf account).Document := by
  simp [resultOf, Value.Document, Value.DocumentFields, Value.DocumentItems, h]

theorem ofSecrets_ok : Redactor.ofSecrets secrets = .ok ⟨variants⟩ := by
  have hcheck : (Redactor.ofSecrets secrets).toOption = some ⟨variants⟩ := by
    decide +kernel
  cases hsecrets : Redactor.ofSecrets secrets with
  | error exc => simp [hsecrets, Except.toOption] at hcheck
  | ok built =>
      rw [hsecrets] at hcheck
      exact congrArg Except.ok (Option.some.inj hcheck)

end ResultSamples

open ResultSamples

/-- A number in a record with the digits of a secret: the printed text is no JSON. -/
theorem resultJson_breaks_number :
    Redactor.ofSecrets secrets = .ok ⟨variants⟩ ∧ numberResult.Document ∧
      "\"account\": ***".toList <:+: (resultJson spelling ⟨variants⟩ numberResult).toList ∧
      parseJson spelling (resultJson spelling ⟨variants⟩ numberResult).toList = none ∧
      ¬ KeepsJson spelling ⟨variants⟩ numberResult := by
  have htext : "\"account\": ***".toList <:+:
      (resultJson spelling ⟨variants⟩ numberResult).toList := by
    rw [toList_resultJson]
    decide +kernel
  have hparse : parseJson spelling (resultJson spelling ⟨variants⟩ numberResult).toList = none := by
    rw [toList_resultJson, ← Option.isNone_iff_eq_none]
    decide +kernel
  refine ⟨ofSecrets_ok, resultOf_document trivial, htext, hparse, fun hkeeps => ?_⟩
  rw [KeepsJson, hparse] at hkeeps
  cases hkeeps

theorem resultJson_keeps_text :
    "\"account\": \"no. ***\"".toList <:+: (resultJson spelling ⟨variants⟩ textResult).toList ∧
      KeepsJson spelling ⟨variants⟩ textResult := by
  have htext : "\"account\": \"no. ***\"".toList <:+:
      (resultJson spelling ⟨variants⟩ textResult).toList := by
    rw [toList_resultJson]
    decide +kernel
  have hplain : ∀ value ∈ variants, IsPlainVariant value := by
    decide +kernel
  have htexts : ∀ text ∈ textResult.documentTexts, IsPlainVariant text.toList := by
    decide +kernel
  have houtside : ∀ value ∈ variants,
      ¬ value <:+: Quoted.fill '"' (fun _ => []) (textResult.documentTokens spelling 0) := by
    decide +kernel
  have hnames : ∀ value ∈ variants, ∀ name ∈ textResult.documentNames,
      ¬ value <:+: documentText name.toList := by
    decide +kernel
  have hkeeps := resultJson_keeps_iff spelling spelling_lawful secrets ⟨variants⟩ ⟨variants⟩
    ofSecrets_ok (.refl _) textResult (resultOf_document trivial)
  exact ⟨htext, hkeeps.1
    { escaped := fun value hvalue hescaped => absurd (hplain value hvalue) hescaped
      punctuation := fun value hvalue _ => houtside value hvalue
      names := fun value hvalue _ => hnames value hvalue
      escapes := fun text htext => keepsEscapes_of_plain (htexts text htext) }⟩

end EtlTool
