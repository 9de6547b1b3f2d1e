import EtlTool.Core.PercentEncoding
import EtlTool.Foundations.UriParts
import EtlTool.Nodes.ApiRequests

/-!
# Path parameters

The path parameters of an API source are quoted before they are filled into the URL, so
that a value from upstream data cannot bring a delimiter into it.  A full stop is not
quoted.  The client removes the path segments that consist of one or two full stops before
it sends a request, and with {lit}`..` also the segment in front of it, so a value may
address another endpoint all the same.

Here a URL is what the client requests before it adds query parameters.  What it does with
every URL alike is left out: the letter case of scheme and host, and escapes for characters
of the template.

Main results:

- Theorem {lit}`fillTemplate_eq`: the filled URL is a substitution into the template.
- Theorem {lit}`requestedUrl_keeps_structure_iff`: when the URL requested is the template
  with its placeholders replaced.
- Theorem {lit}`dots_request_other_endpoint`: a user whose id is two full stops.
-/

namespace EtlTool

open UriParts

/-! ## Symbols of a template -/

/-- A character of a URL template outside placeholders, or a placeholder. -/
inductive TemplateSymbol where
  | literal (c : Char)
  | param (name : List Char)
deriving DecidableEq

/-- The symbols of a template that {lit}`string.Formatter().parse` accepts. -/
def templateSymbols : Nat → List Char → List TemplateSymbol
  | 0, _ => []
  | _ + 1, [] => []
  | turns + 1, text =>
      match scanLiteral text with
      | .error _ => []
      | .ok (literal, false, rest) =>
          literal.map TemplateSymbol.literal ++ templateSymbols turns rest
      | .ok (literal, true, rest) =>
          match scanField rest with
          | .error _ => []
          | .ok (field, rest') =>
              literal.map TemplateSymbol.literal ++
                .param field.name :: templateSymbols turns rest'

/-- The text of a path parameter. -/
def Runtime.paramText (rt : Runtime) (pathParams : OrderedDict String Value)
    (name : List Char) : List Char :=
  match (pathParams.get? (String.ofList name)).bind rt.pyStr with
  | none => []
  | some text => text.toList

/-- A symbol with the quoted text of its value. -/
def Runtime.fillSymbol (rt : Runtime) (pathParams : OrderedDict String Value) :
    TemplateSymbol → List Char
  | .literal c => [c]
  | .param name => percentQuote (rt.paramText pathParams name)

/-- A symbol with the text of its value as it is. -/
def Runtime.rawSymbol (rt : Runtime) (pathParams : OrderedDict String Value) :
    TemplateSymbol → List Char
  | .literal c => [c]
  | .param name => rt.paramText pathParams name

section

variable {rt : Runtime} {pathParams : OrderedDict String Value}

private theorem flatMap_fillSymbol_literal (literal : List Char) :
    (literal.map TemplateSymbol.literal).flatMap (rt.fillSymbol pathParams) = literal := by
  induction literal with
  | nil => rfl
  | cons c rest ih =>
      rw [List.map_cons, List.flatMap_cons, ih]
      rfl

/-- What a turn of the loop fills in: a literal, and perhaps a field behind it. -/
theorem fillTemplate_turn {turns : Nat} {c : Char} {text filled : List Char}
    (h : rt.fillTemplate pathParams (turns + 1) (c :: text) = .ok filled) :
    (∃ literal rest tail, scanLiteral (c :: text) = .ok (literal, false, rest) ∧
      rt.fillTemplate pathParams turns rest = .ok tail ∧ filled = literal ++ tail) ∨
    ∃ literal rest field rest' tail, scanLiteral (c :: text) = .ok (literal, true, rest) ∧
      scanField rest = .ok (field, rest') ∧ rt.fillTemplate pathParams turns rest' = .ok tail ∧
      ((pathParams.get? (String.ofList field.name)).bind rt.pyStr).isSome = true ∧
      filled = literal ++ percentQuote (rt.paramText pathParams field.name) ++ tail := by
  unfold Runtime.fillTemplate at h
  split at h
  · cases h
  · rename_i literal rest hscan
    rcases exceptMap_eq_ok h with ⟨tail, htail, rfl⟩
    exact Or.inl ⟨literal, rest, tail, hscan, htail, rfl⟩
  · rename_i literal rest hscan
    split at h
    · cases h
    · rename_i field rest' hfield
      split at h
      · cases h
      · split at h
        · cases h
        · rename_i value hget
          split at h
          · cases h
          · rename_i param hstr
            rcases exceptMap_eq_ok h with ⟨tail, htail, rfl⟩
            have hparam : (pathParams.get? (String.ofList field.name)).bind rt.pyStr =
                some param := by
              rw [hget, Option.bind_some, hstr]
            have htext : rt.paramText pathParams field.name = param.toList := by
              rw [Runtime.paramText, hparam]
            exact Or.inr ⟨literal, rest, field, rest', tail, hscan, hfield, htail,
              by rw [hparam, Option.isSome_some], by rw [htext]⟩

/-- The filled URL is a substitution into the symbols of the template. -/
theorem fillTemplate_eq (turns : Nat) : ∀ {text filled : List Char},
    rt.fillTemplate pathParams turns text = .ok filled →
      filled = (templateSymbols turns text).flatMap (rt.fillSymbol pathParams) := by
  induction turns with
  | zero =>
      intro text filled h
      cases h
      rfl
  | succ turns ih =>
      intro text filled h
      cases text with
      | nil =>
          cases h
          rfl
      | cons c text =>
          unfold templateSymbols
          rcases fillTemplate_turn h with ⟨literal, rest, tail, hscan, htail, rfl⟩ |
            ⟨literal, rest, field, rest', tail, hscan, hfield, htail, _, rfl⟩
          · simp only [hscan, List.flatMap_append, flatMap_fillSymbol_literal, ← ih htail]
          · simp only [hscan, hfield, List.flatMap_append, flatMap_fillSymbol_literal,
              List.flatMap_cons, Runtime.fillSymbol, ← ih htail, List.append_assoc]

/-- Every placeholder of a filled URL has a value with a text. -/
theorem param_of_fillTemplate (turns : Nat) : ∀ {text filled : List Char},
    rt.fillTemplate pathParams turns text = .ok filled → ∀ name,
      .param name ∈ templateSymbols turns text →
        ((pathParams.get? (String.ofList name)).bind rt.pyStr).isSome = true := by
  induction turns with
  | zero =>
      intro text filled _ name hname
      cases hname
  | succ turns ih =>
      intro text filled h name hname
      cases text with
      | nil => cases hname
      | cons c text =>
          unfold templateSymbols at hname
          rcases fillTemplate_turn h with ⟨literal, rest, tail, hscan, htail, rfl⟩ |
            ⟨literal, rest, field, rest', tail, hscan, hfield, htail, hparam, rfl⟩
          · simp only [hscan, List.mem_append, List.mem_map, reduceCtorEq, and_false,
              exists_false, false_or] at hname
            exact ih htail name hname
          · simp only [hscan, hfield, List.mem_append, List.mem_map, reduceCtorEq, and_false,
              exists_false, false_or, List.mem_cons, TemplateSymbol.param.injEq] at hname
            rcases hname with rfl | hname
            · exact hparam
            · exact ih htail name hname

end

/-! ## Scanning a template -/

/-- A literal uses up a part of the template. -/
theorem length_scanLiteral {text literal rest : List Char} {field : Bool}
    (h : scanLiteral text = .ok (literal, field, rest)) (hne : text ≠ []) :
    rest.length < text.length := by
  induction text generalizing literal with
  | nil => exact absurd rfl hne
  | cons c text ih =>
      unfold scanLiteral at h
      split at h
      · cases text with
        | nil => cases h
        | cons d text =>
            dsimp only at h
            split at h
            · cases h
              simp only [List.length_cons]
              omega
            · split at h
              · cases h
              · cases h
                simp
      · split at h
        · cases h
        · rename_i literal' field' rest' hscan
          cases h
          cases text with
          | nil =>
              cases hscan
              simp
          | cons d text =>
              have hlt := ih hscan (List.cons_ne_nil d text)
              rw [List.length_cons]
              omega

private theorem length_scanFieldName {inBrackets : Bool} {text name rest : List Char} {stop : Char}
    (h : scanFieldName inBrackets text = .ok (name, stop, rest)) :
    rest.length < text.length := by
  induction text generalizing inBrackets name with
  | nil => cases h
  | cons c text ih =>
      unfold scanFieldName at h
      dsimp only at h
      split at h
      · split at h
        · cases h
        · rename_i hscan
          cases h
          exact Nat.lt_succ_of_lt (ih hscan)
      · split at h
        · cases h
        · split at h
          · cases h
            exact Nat.lt_succ_self _
          · split at h
            · cases h
            · rename_i hscan
              cases h
              exact Nat.lt_succ_of_lt (ih hscan)

private theorem length_scanFormatSpec {depth : Nat} {text spec rest : List Char}
    (h : scanFormatSpec depth text = .ok (spec, rest)) : rest.length < text.length := by
  induction text generalizing depth spec with
  | nil => cases h
  | cons c text ih =>
      have hmore : ∀ {depth found after}, scanFormatSpec depth text = .ok (found, after) →
          after = rest → rest.length < (c :: text).length := by
        intro depth found after hscan hrest
        exact Nat.lt_succ_of_lt (ih (hrest ▸ hscan))
      unfold scanFormatSpec at h
      dsimp only at h
      split at h
      · split at h
        · cases h
        · rename_i hscan
          cases h
          exact hmore hscan rfl
      · split at h
        · cases depth with
          | zero =>
              cases h
              exact Nat.lt_succ_self _
          | succ depth =>
              dsimp only at h
              split at h
              · cases h
              · rename_i hscan
                cases h
                exact hmore hscan rfl
        · split at h
          · cases h
          · rename_i hscan
            cases h
            exact hmore hscan rfl

/-- A field uses up a part of the template. -/
theorem length_scanField {text rest : List Char} {field : TemplateField}
    (h : scanField text = .ok (field, rest)) : rest.length < text.length := by
  unfold scanField at h
  dsimp only at h
  split at h
  · cases h
  · rename_i name stop after hname
    have hshort := length_scanFieldName hname
    split at h
    · cases h
      exact hshort
    · split at h
      · split at h
        · cases h
        · rename_i hscan
          cases h
          exact (length_scanFormatSpec hscan).trans hshort
      · split at h
        · cases h
        · simp [scanFormatSpec] at h
        · simp only [List.length_cons] at hshort
          split at h
          · cases h
            omega
          · split at h
            · split at h
              · cases h
              · rename_i hscan
                cases h
                have hrest := length_scanFormatSpec hscan
                omega
            · cases h

/-- As many turns as the template has characters are enough. -/
theorem templateSymbols_turns (turns : Nat) : ∀ (turns' : Nat) (text : List Char),
    text.length ≤ turns → text.length ≤ turns' →
      templateSymbols turns text = templateSymbols turns' text := by
  induction turns with
  | zero =>
      intro turns' text hturns _
      cases List.length_eq_zero_iff.mp (Nat.le_zero.mp hturns)
      cases turns' <;> rfl
  | succ turns ih =>
      intro turns' text hturns hturns'
      cases text with
      | nil => cases turns' <;> rfl
      | cons c text =>
          cases turns' with
          | zero => cases hturns'
          | succ turns' =>
              rw [List.length_cons] at hturns hturns'
              unfold templateSymbols
              cases hscan : scanLiteral (c :: text) with
              | error message => rfl
              | ok scanned =>
                  rcases scanned with ⟨literal, field, rest⟩
                  have hrest := length_scanLiteral hscan (List.cons_ne_nil c text)
                  rw [List.length_cons] at hrest
                  cases field with
                  | false => simp only [ih turns' rest (by omega) (by omega)]
                  | true =>
                      dsimp only
                      cases hfield : scanField rest with
                      | error message => rfl
                      | ok found =>
                          rcases found with ⟨field, rest'⟩
                          have hrest' := length_scanField hfield
                          simp only [ih turns' rest' (by omega) (by omega)]

section

variable {rt : Runtime} {pathParams : OrderedDict String Value}

private theorem scanLiteral_cons {c : Char} (hbrace : ¬ (c = '\x7b' ∨ c = '\x7d'))
    (text : List Char) :
    scanLiteral (c :: text) = (scanLiteral text).map fun scanned =>
      (c :: scanned.1, scanned.2) := by
  rw [scanLiteral.eq_def]
  refine (if_neg hbrace).trans ?_
  cases scanLiteral text <;> rfl

/-- A character that is no brace is a symbol of its own in a template that can be filled. -/
theorem templateSymbols_literal {c : Char} (hbrace : ¬ (c = '\x7b' ∨ c = '\x7d'))
    {text filled : List Char}
    (h : rt.fillTemplate pathParams (text.length + 1) (c :: text) = .ok filled) :
    templateSymbols (text.length + 1) (c :: text) =
      .literal c :: templateSymbols text.length text := by
  have hturn := fillTemplate_turn h
  have hcons := scanLiteral_cons hbrace text
  unfold templateSymbols
  cases text with
  | nil =>
      rw [hcons]
      rfl
  | cons d text =>
      cases hscan : scanLiteral (d :: text) with
      | error message =>
          rw [hscan] at hcons
          rw [hcons] at hturn
          simp [Except.map] at hturn
      | ok scanned =>
          rcases scanned with ⟨literal, field, rest⟩
          rw [hscan] at hcons
          rw [hcons] at hturn ⊢
          have hrest := length_scanLiteral hscan (List.cons_ne_nil d text)
          simp only [List.length_cons] at hrest ⊢
          cases field with
          | false =>
              simp only [Except.map, hscan, List.map_cons, List.cons_append,
                templateSymbols_turns (text.length + 1) text.length rest (by omega) (by omega)]
          | true =>
              cases hfield : scanField rest with
              | error message => simp [Except.map, hfield] at hturn
              | ok found =>
                  rcases found with ⟨field, rest'⟩
                  have hrest' := length_scanField hfield
                  simp only [Except.map, hscan, hfield, List.map_cons, List.cons_append,
                    templateSymbols_turns (text.length + 1) text.length rest' (by omega) (by omega)]

end

/-! ## Delimiters -/

/-- The delimiters of a URL. -/
def urlDelimiter? (c : Char) : Option Delimiter :=
  if c = ':' then some .colon
  else if c = '/' then some .slash
  else if c = '?' then some .question
  else if c = '#' then some .hash
  else none

/-- The delimiters of a template: a placeholder is none. -/
def templateDelimiter? : TemplateSymbol → Option Delimiter
  | .literal c => urlDelimiter? c
  | .param _ => none

private theorem urlDelimiter?_eq_none {c : Char} (h : isUnreserved c = true ∨ c = '%') :
    urlDelimiter? c = none := by
  unfold urlDelimiter?
  rcases h with hplain | rfl
  · have hne : ∀ d : Char, isUnreserved d = false → c ≠ d := by
      rintro d hreserved rfl
      rw [hplain] at hreserved
      cases hreserved
    rw [if_neg (hne _ (by decide)), if_neg (hne _ (by decide)), if_neg (hne _ (by decide)),
      if_neg (hne _ (by decide))]
  · decide

/-- A quoted text brings no delimiter into a URL. -/
theorem fillSymbol_respects (rt : Runtime) (pathParams : OrderedDict String Value) :
    Respects templateDelimiter? urlDelimiter? (rt.fillSymbol pathParams) where
  delimiter := by
    intro symbol d h
    cases symbol with
    | literal c => exact ⟨c, rfl, h⟩
    | param name => cases h
  plain := by
    intro symbol h c hc
    cases symbol with
    | literal d =>
        rw [List.mem_singleton.mp hc]
        exact h
    | param name => exact urlDelimiter?_eq_none (mem_percentQuote hc)

/-! ## The URL requested -/

/-- The segments that the client removes. -/
def dotSegments : List (List Char) :=
  [['.'], ['.', '.']]

/-- A normalisation of paths that removes the dot segments and changes nothing else. -/
structure RemovesDotSegments (normalize : List (List Char) → List (List Char)) : Prop where
  removed : ∀ segments, ∀ segment ∈ normalize segments, segment ∉ dotSegments
  unchanged : ∀ segments, (∀ segment ∈ segments, segment ∉ dotSegments) →
    normalize segments = segments

/-- The parts of a URL template. -/
def templateParts (url : String) : Parts TemplateSymbol :=
  split templateDelimiter? (templateSymbols url.toList.length url.toList)

/-- The URL that the client requests for a filled URL: it only sends requests for absolute
URLs with the scheme {lit}`http` or {lit}`https`. -/
def requestedUrl (normalize : List (List Char) → List (List Char)) (filled : String) :
    Option (Parts Char) :=
  let parts := split urlDelimiter? filled.toList
  let scheme := parts.scheme.map (List.map Char.toLower)
  if (scheme = some "http".toList ∨ scheme = some "https".toList) ∧
      parts.authority.isSome = true then
    some { parts with segments := normalize parts.segments }
  else none

private theorem requestedUrl_eq_some {normalize : List (List Char) → List (List Char)}
    {filled : String}
    {requested : Parts Char} (h : requestedUrl normalize filled = some requested) :
    (split urlDelimiter? filled.toList).IsAbsolute ∧
      requested = { split urlDelimiter? filled.toList with
        segments := normalize (split urlDelimiter? filled.toList).segments } := by
  unfold requestedUrl at h
  dsimp only at h
  split at h
  · rename_i hsent
    refine ⟨⟨?_, hsent.2⟩, (Option.some.inj h).symm⟩
    rcases hsent.1 with hscheme | hscheme <;>
      · rw [Option.map_eq_some_iff] at hscheme
        rcases hscheme with ⟨name, hname, _⟩
        exact Option.isSome_of_mem hname
  · cases h

/-! ## Dot segments -/

private theorem mem_dotSegments_iff (segment : List Char) :
    segment ∈ dotSegments ↔
      (∀ c ∈ segment, c = '.') ∧ (segment.length = 1 ∨ segment.length = 2) := by
  unfold dotSegments
  constructor
  · intro h
    rcases List.mem_pair.mp h with rfl | rfl <;> simp
  · rintro ⟨hdots, hlength⟩
    rw [List.eq_replicate_of_mem hdots]
    rcases hlength with hlength | hlength <;>
      · rw [hlength]
        decide

section

variable {rt : Runtime} {pathParams : OrderedDict String Value}

/-- Full stops, and only they, are filled in as they are. -/
theorem fillSymbol_dots_iff (symbol : TemplateSymbol) :
    (∀ c ∈ rt.fillSymbol pathParams symbol, c = '.') ↔
      ∀ c ∈ rt.rawSymbol pathParams symbol, c = '.' := by
  cases symbol with
  | literal c => rfl
  | param name => exact percentQuote_dots_iff _

private theorem fillSymbol_of_dots {symbol : TemplateSymbol}
    (h : ∀ c ∈ rt.rawSymbol pathParams symbol, c = '.') :
    rt.fillSymbol pathParams symbol = rt.rawSymbol pathParams symbol := by
  cases symbol with
  | literal c => rfl
  | param name => exact percentQuote_of_dots h

/-- Quoting neither makes nor removes a dot segment. -/
theorem fill_mem_dotSegments_iff (segment : List TemplateSymbol) :
    segment.flatMap (rt.fillSymbol pathParams) ∈ dotSegments ↔
      segment.flatMap (rt.rawSymbol pathParams) ∈ dotSegments := by
  have hdots : (∀ c ∈ segment.flatMap (rt.fillSymbol pathParams), c = '.') ↔
      ∀ c ∈ segment.flatMap (rt.rawSymbol pathParams), c = '.' := by
    simp only [List.forall_mem_flatMap, fillSymbol_dots_iff]
  rw [mem_dotSegments_iff, mem_dotSegments_iff, hdots]
  refine and_congr_right fun hraw => ?_
  have hsame : segment.flatMap (rt.fillSymbol pathParams) =
      segment.flatMap (rt.rawSymbol pathParams) := by
    apply List.flatMap_congr
    intro symbol hsymbol
    apply fillSymbol_of_dots
    intro c hc
    exact hraw c (List.mem_flatMap.mpr ⟨symbol, hsymbol, hc⟩)
  rw [hsame]

end

/-! ## When the structure is kept -/

/-- The URL requested is the template, part by part and segment by segment, with every
placeholder replaced by the quoted text of its value, exactly when the template as it is
written is absolute and no segment of its path becomes one or two full stops. -/
theorem requestedUrl_keeps_structure_iff (rt : Runtime)
    (normalize : List (List Char) → List (List Char)) (hnormalize : RemovesDotSegments normalize)
    (url : String) (pathParams : OrderedDict String Value) (filled : String)
    (hfilled : rt.formatUrl url pathParams = .ok filled) (requested : Parts Char)
    (hrequested : requestedUrl normalize filled = some requested) :
    requested = (templateParts url).subst (rt.fillSymbol pathParams) ↔
      (templateParts url).IsAbsolute ∧ ∀ segment ∈ (templateParts url).segments,
        segment.flatMap (rt.rawSymbol pathParams) ∉ dotSegments := by
  rcases exceptMap_eq_ok hfilled with ⟨chars, hchars, rfl⟩
  rcases requestedUrl_eq_some hrequested with ⟨habs, rfl⟩
  rw [String.toList_ofList, fillTemplate_eq _ hchars] at habs ⊢
  have hrespects := fillSymbol_respects rt pathParams
  have hiff := split_subst_iff hrespects habs
  constructor
  · intro hsame
    -- scheme and authority are those of the template, so it is absolute
    have habsolute : (templateParts url).IsAbsolute := by
      have hscheme := congrArg Parts.scheme hsame
      have hauthority := congrArg Parts.authority hsame
      simp only [Parts.subst] at hscheme hauthority
      rcases habs with ⟨hscheme', hauthority'⟩
      rw [hscheme, Option.isSome_map] at hscheme'
      rw [hauthority, Option.isSome_map] at hauthority'
      exact ⟨hscheme', hauthority'⟩
    refine ⟨habsolute, fun segment hsegment => ?_⟩
    have hsegments : normalize _ = (templateParts url).segments.map _ :=
      congrArg Parts.segments hsame
    rw [← fill_mem_dotSegments_iff]
    apply hnormalize.removed
    rw [hsegments]
    exact List.mem_map_of_mem hsegment
  · rintro ⟨habsolute, hsegments⟩
    have hsplit : split urlDelimiter? ((templateSymbols url.toList.length url.toList).flatMap
        (rt.fillSymbol pathParams)) = (templateParts url).subst (rt.fillSymbol pathParams) :=
      hiff.mpr habsolute
    have hunchanged : normalize ((templateParts url).subst (rt.fillSymbol pathParams)).segments =
        ((templateParts url).subst (rt.fillSymbol pathParams)).segments := by
      apply hnormalize.unchanged
      intro filledSegment hfilledSegment
      rcases List.mem_map.mp hfilledSegment with ⟨segment, hsegment, rfl⟩
      rw [fill_mem_dotSegments_iff]
      exact hsegments segment hsegment
    rw [hsplit, hunchanged]

/-! ## Removal of dot segments -/

/-- The segments kept so far, in reverse, without the last one; the empty segment in front
of the first slash stays. -/
def dropSegment : List (List Char) → List (List Char)
  | [] => []
  | [segment] => [segment]
  | _ :: kept => kept

/-- The removal of dot segments as RFC 3986 describes it, for a path that is empty or begins
with a slash: a dot segment at the end leaves an empty segment. -/
def removeDotSegments (kept : List (List Char)) : List (List Char) → List (List Char)
  | [] => kept.reverse
  | segment :: rest =>
      if segment = ['.'] then removeDotSegments (if rest = [] then [] :: kept else kept) rest
      else if segment = ['.', '.'] then
        removeDotSegments (if rest = [] then [] :: dropSegment kept else dropSegment kept) rest
      else removeDotSegments (segment :: kept) rest

private theorem removeDotSegments_unchanged (segments : List (List Char)) :
    ∀ kept, (∀ segment ∈ segments, segment ∉ dotSegments) →
      removeDotSegments kept segments = kept.reverse ++ segments := by
  induction segments with
  | nil =>
      intro kept _
      rw [removeDotSegments, List.append_nil]
  | cons segment rest ih =>
      intro kept hplain
      rw [List.forall_mem_cons] at hplain
      simp only [dotSegments, List.mem_cons, List.not_mem_nil, or_false, not_or] at hplain
      rw [removeDotSegments, if_neg hplain.1.1, if_neg hplain.1.2, ih _ (by simpa [dotSegments] using
        hplain.2), List.reverse_cons, List.append_assoc]
      rfl

private theorem mem_dropSegment {segment : List Char} {kept : List (List Char)}
    (h : segment ∈ dropSegment kept) : segment ∈ kept := by
  match kept with
  | [] => exact h
  | [_] => exact h
  | _ :: _ :: _ => exact List.mem_cons_of_mem _ h

private theorem removeDotSegments_removed (segments : List (List Char)) :
    ∀ kept, (∀ segment ∈ kept, segment ∉ dotSegments) →
      ∀ segment ∈ removeDotSegments kept segments, segment ∉ dotSegments := by
  have hempty : ([] : List Char) ∉ dotSegments := by decide
  induction segments with
  | nil =>
      intro kept hkept segment hsegment
      exact hkept segment (List.mem_reverse.mp hsegment)
  | cons first rest ih =>
      intro kept hkept
      have hdropped : ∀ segment ∈ dropSegment kept, segment ∉ dotSegments :=
        fun segment hsegment => hkept segment (mem_dropSegment hsegment)
      unfold removeDotSegments
      split
      · apply ih
        split
        · exact List.forall_mem_cons.mpr ⟨hempty, hkept⟩
        · exact hkept
      · rename_i hdot
        split
        · apply ih
          split
          · exact List.forall_mem_cons.mpr ⟨hempty, hdropped⟩
          · exact hdropped
        · rename_i hdots
          apply ih
          exact List.forall_mem_cons.mpr ⟨by simp [dotSegments, hdot, hdots], hkept⟩

private theorem removeDotSegments_removes : RemovesDotSegments (removeDotSegments []) where
  removed := fun segments => removeDotSegments_removed segments [] nofun
  unchanged := fun segments hplain => removeDotSegments_unchanged segments [] hplain

/-! ## A user whose id is two full stops -/

namespace UrlSamples

/-- The items of a user. -/
def itemsUrl : String := "https://api.example.com/users/{id}/items"

/-- The path parameters with this id. -/
def userId (id : String) : OrderedDict String Value :=
  OrderedDict.empty.set "id" (.str id)

end UrlSamples

open UrlSamples

/-- The URL requested for the id {lit}`..` is that of all items. -/
theorem dots_request_other_endpoint :
    ∃ filled requested,
      decimalRuntime.formatUrl itemsUrl (userId "..") = .ok filled ∧
      requestedUrl (removeDotSegments []) filled = some requested ∧
      requested.segments = [[], "items".toList] ∧
      (templateParts itemsUrl).segments.length = 4 ∧
      requested ≠ (templateParts itemsUrl).subst (decimalRuntime.fillSymbol (userId "..")) := by
  refine ⟨"https://api.example.com/users/../items",
    ⟨some "https".toList, some "api.example.com".toList, [[], "items".toList], none, none⟩,
    by rfl, by decide +kernel, rfl, by decide +kernel, by decide +kernel⟩

theorem requestedUrl_keeps_structure_iff_escaped :
    ∃ filled requested,
      decimalRuntime.formatUrl itemsUrl (userId "../a") = .ok filled ∧
      requestedUrl (removeDotSegments []) filled = some requested ∧
      (requested = (templateParts itemsUrl).subst
          (decimalRuntime.fillSymbol (userId "../a")) ↔
        (templateParts itemsUrl).IsAbsolute ∧ ∀ segment ∈ (templateParts itemsUrl).segments,
          segment.flatMap (decimalRuntime.rawSymbol (userId "../a")) ∉ dotSegments) := by
  have hfilled : decimalRuntime.formatUrl itemsUrl (userId "../a") =
      .ok "https://api.example.com/users/..%2Fa/items" := by
    rfl
  have hrequested : requestedUrl (removeDotSegments []) "https://api.example.com/users/..%2Fa/items" =
      some ⟨some "https".toList, some "api.example.com".toList,
        [[], "users".toList, "..%2Fa".toList, "items".toList], none, none⟩ := by
    decide +kernel
  exact ⟨_, _, hfilled, hrequested, requestedUrl_keeps_structure_iff decimalRuntime
    (removeDotSegments []) removeDotSegments_removes itemsUrl (userId "../a") _ hfilled _ hrequested⟩

end EtlTool
