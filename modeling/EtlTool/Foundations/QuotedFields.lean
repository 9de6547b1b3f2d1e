import Mathlib.Data.List.Basic

/-!
# Lines of quoted fields

Fields are joined to lines by a separator, and every line ends with a symbol of its own.  A
field with other than plain symbols is quoted, and a quote in it is doubled.  A text is cut
at symbols outside quotes, so that where a line ends does not depend on the separator.

Main results:

- Theorem {lit}`readLines_writeLines`: the separator that has joined lines reads them back.
- Theorem {lit}`readLines_length`: every separator reads as many lines.
- Theorem {lit}`readLines_other`: another separator reads one field from every line.
- Theorem {lit}`field_lineText_ne`: it is not the first one of the line.
-/

namespace QuotedFields

variable {α : Type*} [DecidableEq α]

/-- The symbols that have a meaning, and those that need no quotes. -/
structure Marks (α : Type*) where
  quote : α
  stop : α
  plain : α → Bool
  quote_special : plain quote = false
  stop_special : plain stop = false
  stop_ne_quote : stop ≠ quote

/-! ## Cutting texts -/

/-- The text, cut at every occurrence of a symbol outside quotes. -/
def cut (quote mark : α) : Bool → List α → List (List α)
  | _, [] => [[]]
  | quoted, c :: rest =>
      if quoted = false ∧ c = mark then [] :: cut quote mark false rest
      else (cut quote mark (if c = quote then !quoted else quoted) rest).modifyHead (c :: ·)

/-- A text that is not cut, and that leaves no quotes open. -/
def Whole (quote mark : α) (text : List α) : Prop :=
  ∀ rest, cut quote mark false (text ++ rest) =
    (cut quote mark false rest).modifyHead (text ++ ·)

section

variable {quote mark c : α} {text other rest : List α}

theorem Whole.nil : Whole quote mark [] := by
  intro rest
  exact (congrFun List.modifyHead_id _).symm

theorem Whole.append (h : Whole quote mark text) (hother : Whole quote mark other) :
    Whole quote mark (text ++ other) := by
  intro rest
  rw [List.append_assoc, h, hother, List.modifyHead_modifyHead]
  simp [Function.comp_def]

/-- One symbol that is neither the quote nor the mark. -/
theorem whole_singleton (hquote : c ≠ quote) (hmark : c ≠ mark) : Whole quote mark [c] := by
  intro rest
  simp [cut, hquote, hmark]

private theorem whole_of_forall (h : ∀ c ∈ text, c ≠ quote ∧ c ≠ mark) : Whole quote mark text := by
  induction text with
  | nil => exact Whole.nil
  | cons c text ih =>
      rw [List.forall_mem_cons] at h
      exact (whole_singleton h.1.1 h.1.2).append (ih h.2)

/-- A whole text in front of the mark is cut off. -/
theorem Whole.cut_mark (h : Whole quote mark text) :
    cut quote mark false (text ++ mark :: rest) = text :: cut quote mark false rest := by
  rw [h]
  simp [cut]

private theorem Whole.cut_eq (h : Whole quote mark text) : cut quote mark false text = [text] := by
  have hend := h []
  rw [List.append_nil] at hend
  rw [hend]
  simp [cut]

end

/-! ## Fields -/

section

variable {quote mark c : α} {text rest : List α}

/-- The symbols of a text, with every quote doubled. -/
def double (quote : α) : List α → List α
  | [] => []
  | c :: rest => if c = quote then quote :: quote :: double quote rest else c :: double quote rest

/-- What stands behind an opening quote. -/
def unquote (quote : α) : List α → List α
  | [] => []
  | [c] => if c = quote then [] else [c]
  | c :: d :: rest =>
      if c = quote then if d = quote then quote :: unquote quote rest else d :: rest
      else c :: unquote quote (d :: rest)

private theorem unquote_cons (hc : c ≠ quote) (rest : List α) :
    unquote quote (c :: rest) = c :: unquote quote rest := by
  cases rest <;> simp [unquote, hc]

/-- Doubled quotes do not close what they stand in. -/
theorem cut_double (hmark : mark ≠ quote) (text rest : List α) :
    cut quote mark true (double quote text ++ quote :: rest) =
      (cut quote mark false rest).modifyHead (double quote text ++ quote :: ·) := by
  induction text with
  | nil => simp [double, cut]
  | cons c text ih =>
      by_cases hc : c = quote
      · subst hc
        simp [double, cut, ih, hmark.symm, List.modifyHead_modifyHead, Function.comp_def]
      · simp [double, cut, ih, hc, List.modifyHead_modifyHead, Function.comp_def]

/-- A quoted text is not cut. -/
theorem whole_quoted (hmark : mark ≠ quote) (text : List α) :
    Whole quote mark (quote :: (double quote text ++ [quote])) := by
  intro rest
  have hbody := cut_double hmark text rest
  simp [cut, hmark.symm, hbody, List.modifyHead_modifyHead, Function.comp_def]

/-- A quoted text is read up to the quote that closes it. -/
theorem unquote_double (text : List α) (hrest : rest.head? ≠ some quote) :
    unquote quote (double quote text ++ quote :: rest) = text ++ rest := by
  induction text with
  | nil =>
      cases rest with
      | nil => simp [double, unquote]
      | cons d more =>
          have hd : d ≠ quote := by simpa using hrest
          simp [double, unquote, hd]
  | cons c text ih =>
      by_cases hc : c = quote
      · subst hc
        simp [double, unquote, ih]
      · simp [double, unquote_cons, ih, hc]

end

namespace Marks

variable (m : Marks α)

/-- A symbol that can stand between fields. -/
def IsSeparator (sep : α) : Prop :=
  sep ≠ m.quote ∧ sep ≠ m.stop ∧ m.plain sep = false

/-- A field as it is written: nothing, a plain text, or a quoted one. -/
def fieldText : Option (List α) → List α
  | none => []
  | some text =>
      if text ≠ [] ∧ text.all m.plain then text
      else m.quote :: (double m.quote text ++ [m.quote])

/-- The field that is read from a text. -/
def field : List α → Option (List α)
  | [] => none
  | c :: rest => if c = m.quote then some (unquote m.quote rest) else some (c :: rest)

/-- The fields of a line, with the separator between them. -/
def joinFields (sep : α) : List (List α) → List α
  | [] => []
  | [text] => text
  | text :: rest => text ++ sep :: joinFields sep rest

/-- A line as it is written. -/
def lineText (sep : α) (line : List (Option (List α))) : List α :=
  joinFields sep (line.map m.fieldText)

/-- The text of some lines. -/
def writeLines (sep : α) (lines : List (List (Option (List α)))) : List α :=
  lines.flatMap fun line => m.lineText sep line ++ [m.stop]

/-- The fields of a line that is read. -/
def readLine (sep : α) (text : List α) : List (Option (List α)) :=
  (cut m.quote sep false text).map m.field

/-- The lines of a text. -/
def readLines (sep : α) (text : List α) : List (List (Option (List α))) :=
  (cut m.quote m.stop false text).dropLast.map (m.readLine sep)

variable {m} {sep other mark : α} {field : Option (List α)} {line : List (Option (List α))}
variable {lines : List (List (Option (List α)))}

omit [DecidableEq α] in
private theorem ne_of_plain {text : List α} {c : α} (htext : text.all m.plain = true)
    (hc : c ∈ text)
    (hmark : m.plain mark = false) : c ≠ mark := by
  rintro rfl
  rw [List.all_eq_true.mp htext c hc] at hmark
  cases hmark

/-- A field is not cut at a symbol that is not plain. -/
theorem whole_fieldText (hmark : mark ≠ m.quote) (hspecial : m.plain mark = false)
    (field : Option (List α)) : Whole m.quote mark (m.fieldText field) := by
  cases field with
  | none => exact Whole.nil
  | some text =>
      rw [fieldText]
      split_ifs with hplain
      · exact whole_of_forall fun c hc =>
          ⟨ne_of_plain hplain.2 hc m.quote_special, ne_of_plain hplain.2 hc hspecial⟩
      · exact whole_quoted hmark text

/-- A field is read as it was written. -/
theorem field_fieldText (field : Option (List α)) : m.field (m.fieldText field) = field := by
  cases field with
  | none => rfl
  | some text =>
      rw [fieldText]
      split_ifs with hplain
      · cases text with
        | nil => exact absurd rfl hplain.1
        | cons c rest =>
            have hc := ne_of_plain hplain.2 List.mem_cons_self m.quote_special
            simp [Marks.field, hc]
      · rw [Marks.field, if_pos rfl, unquote_double text (by simp), List.append_nil]

/-- With something behind it, it is read as another one. -/
theorem field_longer (hsep : sep ≠ m.quote) (text rest : List α) :
    m.field (m.fieldText (some text) ++ sep :: rest) ≠ some text := by
  have hlonger : some (text ++ sep :: rest) ≠ some text := by
    intro h
    have hlength := congrArg List.length (Option.some.inj h)
    simp at hlength
  rw [fieldText]
  split_ifs with hplain
  · cases text with
    | nil => exact absurd rfl hplain.1
    | cons c more =>
        have hc := ne_of_plain hplain.2 List.mem_cons_self m.quote_special
        rw [List.cons_append, Marks.field, if_neg hc]
        exact hlonger
  · rw [List.cons_append, List.append_assoc, List.singleton_append, Marks.field, if_pos rfl,
      unquote_double text (by simpa using hsep)]
    exact hlonger

/-! ## Lines -/

private theorem whole_joinFields {texts : List (List α)} (hquote : sep ≠ m.quote)
    (hsep : sep ≠ mark)
    (h : ∀ text ∈ texts, Whole m.quote mark text) :
    Whole m.quote mark (joinFields sep texts) := by
  induction texts with
  | nil => exact Whole.nil
  | cons text rest ih =>
      rw [List.forall_mem_cons] at h
      cases rest with
      | nil => exact h.1
      | cons next rest =>
          exact h.1.append ((whole_singleton hquote hsep).append (ih h.2))

/-- Texts that are not cut at the separator are the fields of their line. -/
theorem cut_joinFields {texts : List (List α)} (hne : texts ≠ [])
    (h : ∀ text ∈ texts, Whole m.quote sep text) :
    cut m.quote sep false (joinFields sep texts) = texts := by
  induction texts with
  | nil => exact absurd rfl hne
  | cons text rest ih =>
      rw [List.forall_mem_cons] at h
      cases rest with
      | nil => exact h.1.cut_eq
      | cons next rest =>
          change cut m.quote sep false (text ++ sep :: joinFields sep (next :: rest)) = _
          rw [h.1.cut_mark, ih (List.cons_ne_nil next rest) h.2]

private theorem whole_lineText (hsep : m.IsSeparator sep) (hmark : mark ≠ m.quote)
    (hspecial : m.plain mark = false) (hne : sep ≠ mark) :
    Whole m.quote mark (m.lineText sep line) := by
  refine whole_joinFields hsep.1 hne fun text htext => ?_
  rcases List.mem_map.mp htext with ⟨field, _, rfl⟩
  exact whole_fieldText hmark hspecial field

private theorem readLine_lineText (hsep : m.IsSeparator sep) (hne : line ≠ []) :
    m.readLine sep (m.lineText sep line) = line := by
  have hwhole : ∀ text ∈ line.map m.fieldText, Whole m.quote sep text := by
    intro text htext
    rcases List.mem_map.mp htext with ⟨field, _, rfl⟩
    exact whole_fieldText hsep.1 hsep.2.2 field
  rw [readLine, lineText, cut_joinFields (by simpa using hne) hwhole, List.map_map]
  calc
    line.map (m.field ∘ m.fieldText) = line.map id :=
      List.map_congr_left fun field _ => field_fieldText field
    _ = line := List.map_id line

/-- Another separator reads one field from a line. -/
theorem readLine_other (hsep : m.IsSeparator sep) (hother : m.IsSeparator other)
    (hne : sep ≠ other) : m.readLine other (m.lineText sep line) =
      [m.field (m.lineText sep line)] := by
  rw [readLine, (whole_lineText hsep hother.1 hother.2.2 hne).cut_eq]
  rfl

/-- The lines of a text are the ones it was made of. -/
theorem cut_writeLines (hsep : m.IsSeparator sep) :
    (cut m.quote m.stop false (m.writeLines sep lines)).dropLast =
      lines.map (m.lineText sep) := by
  have hcut : cut m.quote m.stop false (m.writeLines sep lines) =
      lines.map (m.lineText sep) ++ [[]] := by
    induction lines with
    | nil => rfl
    | cons line rest ih =>
        have hwhole : Whole m.quote m.stop (m.lineText sep line) :=
          whole_lineText hsep m.stop_ne_quote m.stop_special hsep.2.1
        rw [writeLines, List.flatMap_cons, List.append_assoc, List.singleton_append,
          hwhole.cut_mark]
        exact congrArg (m.lineText sep line :: ·) ih
  rw [hcut, List.dropLast_concat]

/-- The separator that has joined lines reads them back. -/
theorem readLines_writeLines (hsep : m.IsSeparator sep) (hne : ∀ line ∈ lines, line ≠ []) :
    m.readLines sep (m.writeLines sep lines) = lines := by
  rw [readLines, cut_writeLines hsep, List.map_map]
  calc
    lines.map (m.readLine sep ∘ m.lineText sep) = lines.map id :=
      List.map_congr_left fun line hline => readLine_lineText hsep (hne line hline)
    _ = lines := List.map_id lines

/-- Every separator reads as many lines as there are. -/
theorem readLines_length (hsep : m.IsSeparator sep) (other : α) :
    (m.readLines other (m.writeLines sep lines)).length = lines.length := by
  rw [readLines, cut_writeLines hsep, List.length_map, List.length_map]

/-- Another separator reads one field from every line. -/
theorem readLines_other (hsep : m.IsSeparator sep) (hother : m.IsSeparator other)
    (hne : sep ≠ other) : m.readLines other (m.writeLines sep lines) =
      lines.map fun line => [m.field (m.lineText sep line)] := by
  rw [readLines, cut_writeLines hsep, List.map_map]
  exact List.map_congr_left fun line _ => readLine_other hsep hother hne

/-- Lines of one field are read by every separator. -/
theorem readLines_single (hsep : m.IsSeparator sep) (hother : m.IsSeparator other)
    (hsingle : ∀ line ∈ lines, line.length = 1) :
    m.readLines other (m.writeLines sep lines) = lines := by
  by_cases hne : sep = other
  · subst hne
    refine readLines_writeLines hsep fun line hline hnil => ?_
    have hlength := hsingle line hline
    rw [hnil] at hlength
    cases hlength
  · rw [readLines_other hsep hother hne]
    calc
      lines.map (fun line => [m.field (m.lineText sep line)]) = lines.map id := by
        refine List.map_congr_left fun line hline => ?_
        rcases List.length_eq_one_iff.mp (hsingle line hline) with ⟨field, rfl⟩
        exact congrArg (fun field => [field]) (field_fieldText field)
      _ = lines := List.map_id lines

/-- What another separator reads from a line of several fields is not the first of them. -/
theorem field_lineText_ne (hsep : m.IsSeparator sep) (text : List α) (hne : line ≠ []) :
    m.field (m.lineText sep (some text :: line)) ≠ some text := by
  cases line with
  | nil => exact absurd rfl hne
  | cons next rest => exact field_longer hsep.1 text _

end Marks

end QuotedFields
