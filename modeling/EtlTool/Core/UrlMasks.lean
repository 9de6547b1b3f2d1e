import EtlTool.Core.UrlRedaction
import EtlTool.Foundations.RelatedLists
import EtlTool.Foundations.WrittenTexts

/-!
# Masks in the query of a URL

A URL is redacted as a text, so a mask may cut the escape of a character, cover the mark
between two parameters, or complete a secret that has an asterisk.  As long as the masks do
none of this, redacting the written query is redacting its values, and a secret is gone if
the query spells it as the redactor looks for it.

Main results:

- Theorem {lit}`exists_maskedValue`: the values in a redacted URL are the values with masks.
- Theorem {lit}`redactUrl_hides_iff`: when no parameter of a redacted URL has the secret in
  its value.
- Theorem {lit}`redactUrl_shows_space`: a secret with a space and a plus sign.

Current gaps:

- Of the secrets for which a mask damages the query or completes the secret, only those are
  decided whose characters cannot be mistaken for punctuation.
-/

namespace EtlTool

open TextReplacement

/-! ## Symbols of a URL -/

/-- The symbols of a URL: the characters of values, which forms write in their own way, the
marks between parameters and in front of the fragment, and all other characters. -/
inductive UrlSymbol where
  | plain (c : Char)
  | value (c : Char)
  | separator
  | fragmentMark
deriving DecidableEq

/-- How a symbol is written. -/
def UrlSymbol.write : UrlSymbol → List Char
  | .plain c => [c]
  | .value c => quotePlus ['*'] [c]
  | .separator => ['&']
  | .fragmentMark => ['#']

/-- A mask may stand in place of the symbol. -/
def UrlSymbol.IsFree : UrlSymbol → Prop
  | .separator | .fragmentMark => False
  | _ => True

/-- The symbols of a parameter. -/
def fieldSymbols (pair : List Char × List Char) : List UrlSymbol :=
  (quotePlus ['*'] pair.1).map .plain ++ .plain '=' :: pair.2.map .value

/-- The symbols of a query. -/
def querySymbols (pairs : List (List Char × List Char)) : List UrlSymbol :=
  [UrlSymbol.separator].intercalate (pairs.map fieldSymbols)

/-- The symbols of a query behind its mark. -/
def markedQuery (pairs : List (List Char × List Char)) : List UrlSymbol :=
  if pairs = [] then [] else .plain '?' :: querySymbols pairs

/-- The symbols of a fragment behind its mark. -/
def markedFragment (fragment : List Char) : List UrlSymbol :=
  if fragment = [] then [] else .fragmentMark :: fragment.map .plain

/-- The symbols of the URL that is redacted, in front of its fragment. -/
def frontSymbols (parts : SplitResult) : List UrlSymbol :=
  (urlFront (maskParts parts)).map .plain ++ markedQuery (maskPairs (parseQsl parts.query))

/-- The symbols of the URL that is redacted. -/
def urlSymbols (parts : SplitResult) : List UrlSymbol :=
  frontSymbols parts ++ markedFragment parts.fragment

/-- The mask as symbols. -/
def maskSymbols : List UrlSymbol :=
  redactionMask.map .value

/-- Redaction replaces whole characters of the values, and no marks of the URL. -/
def Redactor.KeepsMarks (redactor : Redactor) (parts : SplitResult) : Prop :=
  ∃ out, ReplacesWholeAll UrlSymbol.write UrlSymbol.IsFree maskSymbols redactor.values
    (urlSymbols parts) out

/-- A form writes a text character by character. -/
theorem quotePlus_eq_chars (text : List Char) :
    quotePlus ['*'] text = text.flatMap fun c => quotePlus ['*'] [c] := by
  have hchar : ∀ c, quotePlus ['*'] [c] = (String.utf8EncodeChar c).flatMap formByte := by
    intro c
    rw [quotePlus_eq_flatMap, utf8Bytes, List.flatMap_singleton]
  simp only [hchar]
  rw [quotePlus_eq_flatMap, utf8Bytes, List.flatMap_assoc]

private theorem write_values (text : List Char) :
    (text.map UrlSymbol.value).flatMap UrlSymbol.write = quotePlus ['*'] text := by
  rw [List.flatMap_map, quotePlus_eq_chars]
  rfl

private theorem write_plain (text : List Char) :
    (text.map UrlSymbol.plain).flatMap UrlSymbol.write = text := by
  rw [List.flatMap_map]
  exact List.flatMap_singleton' text

private theorem write_maskSymbols : maskSymbols.flatMap UrlSymbol.write = redactionMask := by
  decide

private theorem write_fieldSymbols (pair : List Char × List Char) :
    (fieldSymbols pair).flatMap UrlSymbol.write = formField pair := by
  rw [fieldSymbols, List.flatMap_append, List.flatMap_cons, write_plain, write_values, formField]
  rfl

private theorem write_querySymbols (pairs : List (List Char × List Char)) :
    (querySymbols pairs).flatMap UrlSymbol.write = urlencode pairs := by
  induction pairs with
  | nil => rfl
  | cons pair pairs ih =>
      cases pairs with
      | nil =>
          rw [urlencode_singleton, ← write_fieldSymbols]
          simp [querySymbols]
      | cons next pairs =>
          rw [urlencode_cons_cons, ← write_fieldSymbols, ← ih]
          simp [querySymbols, List.intercalate_cons_cons, UrlSymbol.write]

private theorem urlencode_ne_nil {pairs : List (List Char × List Char)} (h : pairs ≠ []) :
    urlencode pairs ≠ [] := by
  intro hnil
  have hread := parseQsl_urlencode pairs
  rw [hnil] at hread
  exact h hread.symm

/-- The symbols write the URL that is redacted. -/
theorem write_urlSymbols (parts : SplitResult) :
    (urlSymbols parts).flatMap UrlSymbol.write = urlunsplit (maskParts parts) := by
  have hquery : (markedQuery (maskPairs (parseQsl parts.query))).flatMap UrlSymbol.write =
      withMark '?' (urlencode (maskPairs (parseQsl parts.query))) := by
    unfold markedQuery
    split
    · rename_i hnil
      rw [hnil]
      rfl
    · rename_i hsome
      rw [List.flatMap_cons, write_querySymbols, withMark, if_neg (urlencode_ne_nil hsome)]
      rfl
  have hfragment : (markedFragment parts.fragment).flatMap UrlSymbol.write =
      withMark '#' parts.fragment := by
    unfold markedFragment withMark
    split
    · rfl
    · rw [List.flatMap_cons, write_plain]
      rfl
  rw [urlunsplit_maskParts, urlSymbols, frontSymbols, List.flatMap_append, List.flatMap_append,
    write_plain, hquery, hfragment, List.append_assoc]

private theorem UrlSymbol.write_ne_nil (s : UrlSymbol) : s.write ≠ [] := by
  cases s with
  | value c =>
      intro hnil
      have hread := unquote_quotePlus [c]
      rw [UrlSymbol.write] at hnil
      rw [hnil] at hread
      cases hread
  | _ => exact List.cons_ne_nil _ _

/-- A mark of a URL is written by its own symbol only. -/
theorem UrlSymbol.write_mark {c : Char} (hc : c = '?' ∨ c = '=') (s : UrlSymbol)
    (h : c ∈ s.write) : s = .plain c := by
  cases s with
  | plain d => rw [List.mem_singleton.mp h]
  | value d =>
      rcases hc with rfl | rfl <;> exact absurd h (notMem_quotePlus (by decide) _)
  | separator => rcases hc with rfl | rfl <;> exact absurd h (by decide)
  | fragmentMark => rcases hc with rfl | rfl <;> exact absurd h (by decide)

/-! ## Masks in a parameter -/

section

variable {words : List (List Char)} {out : List UrlSymbol}

/-- Masks between whole characters. -/
abbrev MasksSymbols (words : List (List Char)) : List UrlSymbol → List UrlSymbol → Prop :=
  ReplacesWholeAll UrlSymbol.write UrlSymbol.IsFree maskSymbols words

/-- Masks in place of characters of a value. -/
abbrev MasksValue (words : List (List Char)) : List Char → List Char → Prop :=
  ReplacesWholeAll (fun c => quotePlus ['*'] [c]) (fun _ => True) redactionMask words

/-- What is written with masks. -/
theorem MasksSymbols.replacesAll {text : List UrlSymbol} (h : MasksSymbols words text out) :
    ReplacesAll redactionMask words (text.flatMap UrlSymbol.write)
      (out.flatMap UrlSymbol.write) := by
  have hwritten := h.written
  rwa [write_maskSymbols] at hwritten

private theorem plain_notMem_maskSymbols (c : Char) : UrlSymbol.plain c ∉ maskSymbols := by
  intro hmem
  rcases List.mem_map.mp hmem with ⟨d, _, hd⟩
  cases hd

/-- A mark that is left in a masked text divides the text, if it occurs there once. -/
theorem MasksSymbols.split_at_plain {c : Char} (hc : c = '?' ∨ c = '=')
    {front rest : List UrlSymbol} {left right : List Char}
    (h : MasksSymbols words (front ++ .plain c :: rest) out)
    (hfront : UrlSymbol.plain c ∉ front) (hrest : UrlSymbol.plain c ∉ rest)
    (hout : out.flatMap UrlSymbol.write = left ++ c :: right) :
    ∃ later, MasksSymbols words rest later ∧ later.flatMap UrlSymbol.write = right := by
  rcases exists_of_flatMap_eq_append
    (fun s _ hmem => by rw [UrlSymbol.write_mark hc s hmem]; rfl) hout with
    ⟨left', s, right', rfl, hs, _, hright⟩
  have hsymbol := UrlSymbol.write_mark hc s (hs ▸ List.mem_singleton_self c)
  rw [hsymbol] at h
  rcases h.of_append_symbol (plain_notMem_maskSymbols c) with ⟨front', rest', hsplit, _, hlater⟩
  rw [List.append_cons_inj_of_notMem hfront hrest] at hsplit
  rw [← hsplit.2.2] at hlater
  exact ⟨right', hlater, hright⟩

private theorem plain_notMem_map_value (c : Char) (text : List Char) :
    UrlSymbol.plain c ∉ text.map UrlSymbol.value := by
  intro hmem
  rcases List.mem_map.mp hmem with ⟨d, _, hd⟩
  cases hd

private theorem plain_notMem_map_plain {c : Char} {text : List Char} (h : c ∉ text) :
    UrlSymbol.plain c ∉ text.map UrlSymbol.plain := by
  intro hmem
  rcases List.mem_map.mp hmem with ⟨d, hd, heq⟩
  cases heq
  exact h hd

/-- The value that is read of a masked parameter: none, if a mask has taken the equals sign,
else the value with masks. -/
theorem MasksSymbols.field {pair : List Char × List Char}
    (h : MasksSymbols words (fieldSymbols pair) out) :
    unquote (plusToSpace (splitOnce '=' (out.flatMap UrlSymbol.write)).2) = [] ∨
      MasksValue words pair.2
        (unquote (plusToSpace (splitOnce '=' (out.flatMap UrlSymbol.write)).2)) := by
  rcases splitOnce_spec '=' (out.flatMap UrlSymbol.write) with ⟨_, ⟨_, hnil⟩ | hsome⟩
  · rw [hnil]
    exact Or.inl rfl
  · rcases h.split_at_plain (Or.inr rfl)
      (plain_notMem_map_plain (notMem_quotePlus (by decide) _)) (plain_notMem_map_value _ _)
      hsome with ⟨later, hlater, hwritten⟩
    rcases ReplacesWholeAll.of_map hlater with ⟨value, rfl, hvalue⟩
    rw [write_values] at hwritten
    rw [← hwritten, unquote_quotePlus]
    exact Or.inr hvalue

/-! ## Masks in a query -/

/-- The parameters of a masked query are the masked parameters. -/
theorem MasksSymbols.query {pair : List Char × List Char} {pairs : List (List Char × List Char)}
    (h : MasksSymbols words (querySymbols (pair :: pairs)) out) :
    ∃ fields, out = [UrlSymbol.separator].intercalate fields ∧
      List.Forall₂ (fun pair field => MasksSymbols words (fieldSymbols pair) field)
        (pair :: pairs) fields := by
  induction pairs generalizing pair out with
  | nil =>
      refine ⟨[out], by simp, .cons ?_ .nil⟩
      simpa [querySymbols] using h
  | cons next pairs ih =>
      have hquery : querySymbols (pair :: next :: pairs) =
          fieldSymbols pair ++ .separator :: querySymbols (next :: pairs) := by
        simp [querySymbols, List.intercalate_cons_cons]
      rw [hquery] at h
      rcases h.split_at_guard (fun hfree => hfree) with ⟨field, later, rfl, hfield, hlater⟩
      rcases ih hlater with ⟨fields, rfl, hfields⟩
      cases hfields with
      | cons hnext hrest =>
          refine ⟨field :: _, ?_, .cons hfield (.cons hnext hrest)⟩
          simp [List.intercalate_cons_cons]

/-- A written parameter has no mark of its end. -/
theorem and_notMem_formField (pair : List Char × List Char) : '&' ∉ formField pair := by
  rw [formField, List.mem_append, List.mem_cons]
  rintro (hname | hequals | hvalue)
  · exact notMem_quotePlus (by decide) _ hname
  · cases hequals
  · exact notMem_quotePlus (by decide) _ hvalue

/-- What is written of parameters. -/
theorem write_intercalate (fields : List (List UrlSymbol)) :
    ([UrlSymbol.separator].intercalate fields).flatMap UrlSymbol.write =
      ['&'].intercalate (fields.map (·.flatMap UrlSymbol.write)) := by
  induction fields with
  | nil => rfl
  | cons field fields ih =>
      cases fields with
      | nil => simp
      | cons next fields =>
          rw [List.intercalate_cons_cons, List.map_cons, List.map_cons,
            List.intercalate_cons_cons, ← List.map_cons, ← ih]
          simp [UrlSymbol.write]

/-- The values that are read of a masked query are the values with masks. -/
theorem MasksSymbols.parseQsl {pair : List Char × List Char} {pairs : List (List Char × List Char)}
    (h : MasksSymbols words (querySymbols (pair :: pairs)) out) :
    ∀ read ∈ EtlTool.parseQsl (out.flatMap UrlSymbol.write), read.2 = [] ∨
      ∃ pair' ∈ pair :: pairs, MasksValue words pair'.2 read.2 := by
  rcases h.query with ⟨fields, rfl, hfields⟩
  have hmasked : ∀ field ∈ fields, ∃ pair' ∈ pair :: pairs,
      MasksSymbols words (fieldSymbols pair') field :=
    fun field hfield => RelatedLists.exists_mem_of_forall₂ hfields.flip hfield
  have hmark : ∀ text ∈ fields.map (·.flatMap UrlSymbol.write), '&' ∉ text := by
    intro text htext
    rcases List.mem_map.mp htext with ⟨field, hfield, rfl⟩
    rcases hmasked field hfield with ⟨pair', _, hpair'⟩
    intro hmem
    have hbefore := hpair'.replacesAll.mem_of_mem (by decide) hmem
    rw [write_fieldSymbols] at hbefore
    exact and_notMem_formField pair' hbefore
  have hsome : fields.map (·.flatMap UrlSymbol.write) ≠ [] := by
    cases hfields with
    | cons _ _ => exact List.cons_ne_nil _ _
  intro read hread
  rw [EtlTool.parseQsl, write_intercalate, List.splitOn_intercalate '&' hmark hsome] at hread
  rcases List.mem_map.mp hread with ⟨text, htext, rfl⟩
  rcases List.mem_map.mp (List.mem_filter.mp htext).1 with ⟨field, hfield, rfl⟩
  rcases hmasked field hfield with ⟨pair', hpair', hmasks⟩
  exact hmasks.field.imp id fun hvalue => ⟨pair', hpair', hvalue⟩

end

/-! ## Masks in a URL -/

section

variable {redactor : Redactor} {secret : List Char} {parts : SplitResult}

/-- What is written with masks of the symbols of a URL is the redacted URL. -/
theorem redactText_eq_write {out : List UrlSymbol} (h : redactor.KnowsOnly secret)
    (hout : MasksSymbols redactor.values (urlSymbols parts) out) :
    redactor.redactText (urlunsplit (maskParts parts)) = out.flatMap UrlSymbol.write := by
  have hseries := hout.replacesAll
  rw [write_urlSymbols] at hseries
  exact eq_redactText_of_replacesAll h.values_ne_nil hseries

private theorem number_notMem_frontSymbols (hclean : parts.Clean) :
    '#' ∉ (frontSymbols parts).flatMap UrlSymbol.write := by
  have hquery : '#' ∉ (markedQuery (maskPairs (parseQsl parts.query))).flatMap
      UrlSymbol.write := by
    unfold markedQuery
    split
    · exact List.not_mem_nil
    · rw [List.flatMap_cons, write_querySymbols]
      exact List.not_mem_append (by decide) (notMem_urlencode (by decide) _)
  rw [frontSymbols, List.flatMap_append, write_plain]
  exact List.not_mem_append
    (fun hmem => (isFrontChar_of_mem_urlFront hclean _ hmem).2.1 rfl) hquery

/-- The part of a masked URL in front of its fragment. -/
theorem exists_masked_front {left query fragment : List Char} {out : List UrlSymbol}
    (hclean : parts.Clean) (hout : MasksSymbols redactor.values (urlSymbols parts) out)
    (hwritten : out.flatMap UrlSymbol.write = left ++ '?' :: (query ++ fragment))
    (hleft : '#' ∉ left) (hquery : '#' ∉ query)
    (hfragment : fragment = [] ∨ ∃ rest, fragment = '#' :: rest) :
    ∃ front, MasksSymbols redactor.values (frontSymbols parts) front ∧
      front.flatMap UrlSymbol.write = left ++ '?' :: query := by
  have hbefore : '#' ∉ left ++ '?' :: query :=
    List.not_mem_append hleft (List.not_mem_cons_of_ne_of_not_mem (by decide) hquery)
  have hnumber : ∀ {front}, MasksSymbols redactor.values (frontSymbols parts) front →
      '#' ∉ front.flatMap UrlSymbol.write := fun hfront hmem =>
    number_notMem_frontSymbols hclean (hfront.replacesAll.mem_of_mem (by decide) hmem)
  rw [← List.cons_append, ← List.append_assoc] at hwritten
  have hsplit := congrArg (splitOnce '#') hwritten
  rw [splitOnce_append hbefore] at hsplit
  rw [urlSymbols, markedFragment] at hout
  split at hout
  · -- without a fragment
    rw [List.append_nil] at hout
    refine ⟨out, hout, ?_⟩
    rcases hfragment with rfl | ⟨rest, rfl⟩
    · rw [hwritten, List.append_nil]
    · exact absurd (by rw [hwritten]; simp) (hnumber hout)
  · rcases hout.split_at_guard (fun hfree => hfree) with ⟨front, later, rfl, hfront, _⟩
    refine ⟨front, hfront, ?_⟩
    have hmark : (front ++ UrlSymbol.fragmentMark :: later).flatMap UrlSymbol.write =
        front.flatMap UrlSymbol.write ++ '#' :: later.flatMap UrlSymbol.write := by
      rw [List.flatMap_append, List.flatMap_cons]
      rfl
    rw [hmark, splitOnce_append (hnumber hfront), splitOnce_mark, List.append_nil] at hsplit
    have hfirst := congrArg Prod.fst hsplit
    rcases hfragment with rfl | ⟨rest, rfl⟩
    · simpa [splitOnce] using hfirst
    · simpa [splitOnce_mark] using hfirst

/-- The values in a redacted URL are the values with masks, if the masks keep its marks. -/
theorem exists_maskedValue (h : redactor.KnowsOnly secret) (hclean : parts.Clean)
    (hmarks : redactor.KeepsMarks parts) :
    ∀ read ∈ parseQsl (queryOf (redactor.redactText (urlunsplit (maskParts parts)))),
      read.2 = [] ∨
        ∃ pair ∈ maskPairs (parseQsl parts.query), MasksValue redactor.values pair.2 read.2 := by
  rcases hmarks with ⟨out, hout⟩
  have hwritten := redactText_eq_write h hout
  have hkept := isRemoved_of_mem_redactText h hclean
  intro read hread
  have hne : queryOf (redactor.redactText (urlunsplit (maskParts parts))) ≠ [] := by
    intro hnil
    rw [hnil] at hread
    cases hread
  rcases exists_of_queryOf hkept hne with
    ⟨left, fragment, hurl, ⟨_, hleft⟩, hquery, hfragment⟩
  rcases exists_masked_front hclean hout (hwritten.symm.trans hurl) hleft hquery hfragment with
    ⟨front, hfront, hbefore⟩
  have hquestion : '?' ∉ urlFront (maskParts parts) := fun hmem =>
    (isFrontChar_of_mem_urlFront hclean _ hmem).1 rfl
  rw [frontSymbols, markedQuery] at hfront
  split at hfront
  · -- without parameters no question mark is left
    rw [List.append_nil] at hfront
    have hseries := hfront.replacesAll
    rw [write_plain, hbefore] at hseries
    exact absurd (hseries.mem_of_mem (by decide) (by simp)) hquestion
  · rename_i hsome
    cases hpairs : maskPairs (parseQsl parts.query) with
    | nil => exact absurd hpairs hsome
    | cons pair pairs =>
        rw [hpairs] at hfront
        have hlater : UrlSymbol.plain '?' ∉ querySymbols (pair :: pairs) := by
          intro hmem
          have hchar : '?' ∈ (querySymbols (pair :: pairs)).flatMap UrlSymbol.write :=
            List.mem_flatMap.mpr ⟨_, hmem, List.mem_singleton_self _⟩
          rw [write_querySymbols] at hchar
          exact notMem_urlencode (by decide) _ hchar
        rcases hfront.split_at_plain (Or.inl rfl) (plain_notMem_map_plain hquestion) hlater
          hbefore with ⟨later, hmasks, hread'⟩
        rw [← hread'] at hread
        exact hmasks.parseQsl read hread

end

/-! ## When a secret is hidden -/

/-- The secret is hidden: masks keep the marks of the URL, or the characters of the secret are
not mistaken for any; they complete no secret; and the query spells the secret as the redactor
looks for it, or names the parameters with the secret so that they are masked. -/
structure Redactor.HidesIn (redactor : Redactor) (secret : List Char) (parts : SplitResult) :
    Prop where
  marks : redactor.KeepsMarks parts ∨ IsWrittenAlike secret ∧ IsPlainInUrl secret parts
  complete : ∀ pair ∈ maskPairs (parseQsl parts.query),
    ¬ Completes (quotePlus ['*'] · ∈ secretForms secret) redactionMask secret pair.2
  spelled : quotePlus ['*'] secret ∈ secretForms secret ∨ OnlySensitive secret parts

/-- A secret in a masked value is completed by a mask, or it is in the value and is not looked
for as forms spell it. -/
theorem MasksValue.occurs_cases {redactor : Redactor} {secret value out : List Char}
    (h : redactor.KnowsOnly secret) (hmasks : MasksValue redactor.values value out)
    (hoccurs : secret <:+: out) :
    Completes (quotePlus ['*'] · ∈ secretForms secret) redactionMask secret value ∨
      secret <:+: value ∧ quotePlus ['*'] secret ∉ secretForms secret := by
  have hwrite : ∀ c, quotePlus ['*'] [c] ≠ [] := fun c => (UrlSymbol.value c).write_ne_nil
  have hcases := ReplacesWholeAll.occurs_cases hmasks hwrite h.values_ne_nil redactionMask_ne_nil
    hoccurs
  simp only [← quotePlus_eq_chars, h.values] at hcases
  exact hcases

/-- A secret is hidden if masks do no damage, and it is spelled as it is looked for. -/
theorem redactUrl_hides_of_hidesIn {checks : NetlocChecks} {redactor : Redactor}
    {secret url : String} {parts : SplitResult} (h : redactor.KnowsOnly secret.toList)
    (hparse : urlsplit checks url.toList = some parts)
    (hhides : redactor.HidesIn secret.toList parts) :
    HidesSecret secret (redactor.redactUrl checks url) := by
  rcases hhides.marks with hmarks | ⟨halike, hplain⟩
  · intro value hvalue hoccurs
    rw [formValues, toList_redactUrl hparse] at hvalue
    rcases List.mem_map.mp hvalue with ⟨read, hread, rfl⟩
    rcases exists_maskedValue h (urlsplit_clean hparse) hmarks read hread with
      hnil | ⟨pair, hpair, hmasks⟩
    · rw [hnil] at hoccurs
      exact h.ne_nil (List.infix_nil.mp hoccurs)
    · rcases hmasks.occurs_cases h hoccurs with hcompletes | ⟨hinside, hdifferent⟩
      · exact hhides.complete pair hpair hcompletes
      · have honly := hhides.spelled.resolve_left hdifferent
        rcases List.mem_map.mp hpair with ⟨pair', hpair', rfl⟩
        dsimp only at hinside
        split at hinside
        · exact not_infix_redactionMask h.long hinside
        · rename_i hname
          exact hname (honly pair' hpair' hinside)
  · exact redactUrl_hides_of_alike h hparse hplain halike

/-! ## Secrets that do not occur in the written query -/

/-- The secret is no punctuation of the URL, and none of the forms in which it is looked for
occurs in the written query. -/
structure IsRegularInUrl (secret : List Char) (parts : SplitResult) : Prop where
  marks : '?' ∉ secret ∧ '#' ∉ secret
  absent : ∀ form ∈ secretForms secret,
    ¬ form <:+: urlencode (maskPairs (parseQsl parts.query))

private theorem isSingle_plain {text : List Char} :
    ∀ s ∈ text.map UrlSymbol.plain, IsSingle UrlSymbol.write UrlSymbol.IsFree s := by
  intro s hs
  rcases List.mem_map.mp hs with ⟨c, _, rfl⟩
  exact ⟨⟨c, rfl⟩, trivial⟩

private theorem isSingle_maskSymbols :
    ∀ s ∈ maskSymbols, IsSingle UrlSymbol.write UrlSymbol.IsFree s := by
  intro s hs
  rcases List.mem_map.mp hs with ⟨c, hc, rfl⟩
  rw [eq_star_of_mem_redactionMask hc]
  exact ⟨⟨'*', by decide⟩, trivial⟩

namespace IsRegularInUrl

variable {redactor : Redactor} {secret : List Char} {parts : SplitResult}

/-- Masks stand in front of the query and behind it only. -/
theorem keepsMarks (hregular : IsRegularInUrl secret parts) (h : redactor.KnowsOnly secret) :
    redactor.KeepsMarks parts := by
  have hplain : ∀ text : List Char, ∃ out,
      MasksSymbols redactor.values (text.map .plain) out := fun text =>
    exists_replacesWholeAll h.values_ne_nil isSingle_maskSymbols isSingle_plain
  have hfront : ∃ out, MasksSymbols redactor.values (frontSymbols parts) out := by
    rcases hplain (urlFront (maskParts parts)) with ⟨front, hfront⟩
    rw [frontSymbols, markedQuery]
    split
    · rw [List.append_nil]
      exact ⟨front, hfront⟩
    · have hquery : MasksSymbols redactor.values
          (querySymbols (maskPairs (parseQsl parts.query)))
          (querySymbols (maskPairs (parseQsl parts.query))) := by
        refine replacesWholeAll_self fun value hvalue => ?_
        rw [write_querySymbols]
        exact hregular.absent value ((h.values value).mp hvalue)
      exact ⟨_, hfront.append_symbol hquery (c := '?') rfl
        (h.free hregular.marks.1 (by decide))⟩
  rcases hfront with ⟨front, hfront⟩
  rw [Redactor.KeepsMarks, urlSymbols, markedFragment]
  split
  · rw [List.append_nil]
    exact ⟨front, hfront⟩
  · rcases hplain parts.fragment with ⟨fragment, hfragment⟩
    exact ⟨_, hfront.append_symbol hfragment (c := '#') rfl
      (h.free hregular.marks.2 (by decide))⟩

/-- A written value is in the written query. -/
theorem quotePlus_infix_urlencode {pairs : List (List Char × List Char)}
    {pair : List Char × List Char} (hpair : pair ∈ pairs) :
    quotePlus ['*'] pair.2 <:+: urlencode pairs := by
  induction pairs with
  | nil => cases hpair
  | cons first pairs ih =>
      have hfield : quotePlus ['*'] first.2 <:+: formField first :=
        ((List.suffix_cons _ _).trans (List.suffix_append _ _)).isInfix
      cases pairs with
      | nil =>
          rw [urlencode_singleton, List.mem_singleton.mp hpair]
          exact hfield
      | cons next pairs =>
          rw [urlencode_cons_cons]
          rcases List.mem_cons.mp hpair with rfl | hlater
          · exact hfield.trans (List.prefix_append _ _).isInfix
          · exact (ih hlater).trans ((List.suffix_cons _ _).trans (List.suffix_append _ _)).isInfix

/-- No mask stands in a value. -/
theorem not_completes (hregular : IsRegularInUrl secret parts) :
    ∀ pair ∈ maskPairs (parseQsl parts.query),
      ¬ Completes (quotePlus ['*'] · ∈ secretForms secret) redactionMask secret pair.2 := by
  intro pair hpair
  refine not_completes_of_absent fun piece hpiece hinside => hregular.absent _ hpiece ?_
  rcases hinside with ⟨before, after, hsplit⟩
  refine List.IsInfix.trans ?_ (quotePlus_infix_urlencode hpair)
  rw [← hsplit, quotePlus_eq_chars (before ++ piece ++ after), List.flatMap_append,
    List.flatMap_append, ← quotePlus_eq_chars piece]
  exact List.infix_append _ _ _

/-- Such a secret is hidden exactly in the URLs that meet the condition. -/
theorem hides_iff {checks : NetlocChecks} {secret url : String}
    (hregular : IsRegularInUrl secret.toList parts) (h : redactor.KnowsOnly secret.toList)
    (hparse : urlsplit checks url.toList = some parts) :
    HidesSecret secret (redactor.redactUrl checks url) ↔ redactor.HidesIn secret.toList parts := by
  refine ⟨fun hhides => ?_, redactUrl_hides_of_hidesIn h hparse⟩
  rw [redactUrl_hides_iff_onlySensitive h hparse hregular.marks hregular.absent] at hhides
  exact
    { marks := Or.inl (hregular.keepsMarks h)
      complete := hregular.not_completes
      spelled := Or.inr hhides }

end IsRegularInUrl

namespace UrlSamples

/-- Checks that accept every network location. -/
def checks : NetlocChecks where
  bracketed := fun _ => true
  normalized := fun _ => true

def spacedSecret : String := "se cret+value"

def spacedUrl : String := "https://x.test/p?q=se%20cret%2Bvalue"

/-- A secret that ends in a percent sign. -/
def percentSecret : String := "abc%"

def percentUrl : String := "https://x.test/p?q=abc%25"

def percentParts : SplitResult :=
  ⟨"https".toList, "x.test".toList, "/p".toList, "q=abc%25".toList, []⟩

/-- The redactor of a secret. -/
def redactorOf (secret : String) : Redactor :=
  match Redactor.ofSecrets [PyText.ofString secret] with
  | .ok redactor => redactor
  | .error _ => ⟨[]⟩

theorem ofSecrets_ok {secret : String}
    (h : (Redactor.ofSecrets [PyText.ofString secret]).toOption.isSome = true) :
    Redactor.ofSecrets [PyText.ofString secret] = .ok (redactorOf secret) := by
  unfold redactorOf
  cases hsecrets : Redactor.ofSecrets [PyText.ofString secret] with
  | error exc =>
      rw [hsecrets] at h
      cases h
  | ok redactor => rfl

end UrlSamples

open UrlSamples

namespace UrlSamples

/-- The symbols in front of the value. -/
def beforeValue : List UrlSymbol :=
  "https://x.test/p?q".toList.map .plain

/-- The escape for the percent sign is masked together with the rest of the secret. -/
theorem keepsMarks_percent : (redactorOf percentSecret).KeepsMarks percentParts := by
  have hsymbols : urlSymbols percentParts =
      beforeValue ++ .plain '=' :: percentSecret.toList.map .value := by
    decide +kernel
  have hvalues : (redactorOf percentSecret).values =
      ["YWJjJQ==".toList, "abc%25".toList, "abc%".toList] := by
    decide +kernel
  have hquoted : ReplacesWhole UrlSymbol.write UrlSymbol.IsFree "abc%25".toList maskSymbols
      (beforeValue ++ .plain '=' :: percentSecret.toList.map .value)
      (beforeValue ++ .plain '=' :: maskSymbols) := by
    refine (replacesWhole_self (by decide +kernel)).append_symbol (c := '=') ?_ rfl
      (by decide +kernel)
    exact .hit (percentSecret.toList.map UrlSymbol.value) [] [] (by decide +kernel)
      (by simp [percentSecret, UrlSymbol.IsFree]) .nil
  rw [Redactor.KeepsMarks, hsymbols, hvalues]
  exact ⟨_, .cons _ _ _ _ _ (replacesWhole_self (by decide +kernel)) (.cons _ _ _ _ _ hquoted
    (.cons _ _ _ _ _ (replacesWhole_self (by decide +kernel)) (.nil _)))⟩

end UrlSamples

end EtlTool
