import EtlTool.Core.PercentEncoding
import EtlTool.Foundations.QuotedTexts

/-!
# Redaction is complete

A redactor replaces one variant after the other, each in what the replacements before
it have left.  Secrets without the mask character have variants without it, so a mask
never starts, ends or joins an occurrence of a variant, whatever the order in which
the variants are replaced.

Main results:

- Theorem {lit}`mem_ofSecrets_iff`: the variants of a redactor are the forms of its
  long secrets.
- Theorem {lit}`redact_replacesAll`: redaction is a series of replacements.
- Theorem {lit}`redact_removes`: no variant occurs in a redacted text.
- Theorem {lit}`redaction_complete`: no long secret, nor its percent-quoted or Base64
  form, occurs in a redacted text, and redacting it again changes nothing.
-/

namespace EtlTool

open TextReplacement

/-! ## Forms of a secret -/

/-- The forms under which a secret may appear: itself, percent-quoted, in Base64. -/
def secretForms (secret : List Char) : List (List Char) :=
  [secret, percentQuote secret, base64Encode secret]

/-- A non-empty text has bytes. -/
theorem utf8Bytes_ne_nil {text : List Char} (h : text ≠ []) : utf8Bytes text ≠ [] := by
  cases text with
  | nil => exact absurd rfl h
  | cons c rest =>
      intro hnil
      have hlength := congrArg List.length hnil
      have hpos := Char.utf8Size_pos c
      simp only [utf8Bytes, List.flatMap_cons, List.length_append, String.length_utf8EncodeChar,
        List.length_nil] at hlength
      omega

/-- The length of a Base64 text. -/
theorem length_base64Encode (text : List Char) :
    (base64Encode text).length = 4 * (((utf8Bytes text).length + 2) / 3) := by
  rw [base64Encode]
  generalize utf8Bytes text = bytes
  induction bytes using base64Bytes.induct with
  | case1 => rfl
  | case2 a => simp [base64Bytes]
  | case3 a b => simp [base64Bytes]
  | case4 a b c rest ih =>
      rw [base64Bytes, List.length_append, ih]
      simp only [List.length_cons, List.length_nil]
      omega

/-- The Base64 text of a non-empty text is long enough to be redacted. -/
theorem four_le_length_base64Encode {text : List Char} (h : text ≠ []) :
    4 ≤ (base64Encode text).length := by
  have hpos := List.length_pos_of_ne_nil (utf8Bytes_ne_nil h)
  rw [length_base64Encode]
  omega

/-- A character of a Base64 text. -/
def isBase64 (c : Char) : Bool :=
  c.isAlphanum || ['+', '/', '='].contains c

/-- Base64 digits are of the alphabet and no padding. -/
theorem base64Char_spec (n : Nat) : isBase64 (base64Char n) = true ∧ base64Char n ≠ '=' := by
  have hupper : ∀ n < 26, isBase64 (Char.ofNat ('A'.toNat + n)) = true ∧
      Char.ofNat ('A'.toNat + n) ≠ '=' := by decide
  have hlower : ∀ n < 26, isBase64 (Char.ofNat ('a'.toNat + n)) = true ∧
      Char.ofNat ('a'.toNat + n) ≠ '=' := by decide
  have hdigit : ∀ n < 10, isBase64 (Char.ofNat ('0'.toNat + n)) = true ∧
      Char.ofNat ('0'.toNat + n) ≠ '=' := by decide
  unfold base64Char
  split
  · exact hupper n (by omega)
  · split
    · exact hlower (n - 26) (by omega)
    · split
      · exact hdigit (n - 52) (by omega)
      · split <;> decide

/-- A Base64 text consists of characters of the Base64 alphabet. -/
theorem mem_base64Encode {text : List Char} {c : Char} (h : c ∈ base64Encode text) :
    isBase64 c = true := by
  have hpad : isBase64 '=' = true := rfl
  have hbytes : ∀ bytes, ∀ c ∈ base64Bytes bytes, isBase64 c = true := by
    intro bytes
    induction bytes using base64Bytes.induct with
    | case1 => simp [base64Bytes]
    | case2 a => simp [base64Bytes, base64Char_spec, hpad]
    | case3 a b => simp [base64Bytes, base64Char_spec, hpad]
    | case4 a b c rest ih =>
        rw [base64Bytes, List.forall_mem_append]
        exact ⟨by simp [base64Char_spec], ih⟩
  exact hbytes _ c h

/-- The padding is at the end of a Base64 text. -/
theorem base64Encode_start {text : List Char} (h : text ≠ []) :
    ∃ m n rest, base64Encode text = base64Char m :: base64Char n :: rest := by
  have hbytes := utf8Bytes_ne_nil h
  unfold base64Encode
  generalize utf8Bytes text = bytes at hbytes
  match bytes with
  | [] => exact absurd rfl hbytes
  | [_] => exact ⟨_, _, _, rfl⟩
  | [_, _] => exact ⟨_, _, _, rfl⟩
  | _ :: _ :: _ :: _ => exact ⟨_, _, _, rfl⟩

private theorem mask_notMem_base64Encode (text : List Char) : '*' ∉ base64Encode text := by
  intro hmem
  exact absurd (mem_base64Encode hmem) (by decide)

private theorem mask_notMem_percentQuote (text : List Char) : '*' ∉ percentQuote text := by
  intro hmem
  exact absurd (mem_percentQuote hmem) (by decide)

/-- The forms of a secret without the mask character are words apart from the mask. -/
theorem secretForms_apart {secret : List Char} (hne : secret ≠ []) (hmask : '*' ∉ secret) :
    ∀ form ∈ secretForms secret, form ≠ [] ∧ form.Disjoint redactionMask := by
  have happart : ∀ form : List Char, '*' ∉ form → form.Disjoint redactionMask := by
    intro form hform c hc hcmask
    exact hform (eq_star_of_mem_redactionMask hcmask ▸ hc)
  have hquoted : percentQuote secret ≠ [] := by
    have hbytes := utf8Bytes_ne_nil hne
    unfold percentQuote
    generalize utf8Bytes secret = bytes at hbytes
    cases bytes with
    | nil => exact absurd rfl hbytes
    | cons byte rest =>
        simp only [List.flatMap_cons]
        split <;> simp
  have hencoded : base64Encode secret ≠ [] := by
    intro hnil
    have hlength := four_le_length_base64Encode hne
    rw [hnil] at hlength
    simp at hlength
  intro form hform
  simp only [secretForms, List.mem_cons, List.not_mem_nil, or_false] at hform
  rcases hform with rfl | rfl | rfl
  · exact ⟨hne, happart _ hmask⟩
  · exact ⟨hquoted, happart _ (mask_notMem_percentQuote secret)⟩
  · exact ⟨hencoded, happart _ (mask_notMem_base64Encode secret)⟩

/-! ## Variants of a redactor -/

private theorem mem_addVariant {variants : List (List Char)} {variant form : List Char} :
    form ∈ addVariant variants variant ↔ form ∈ variants ∨ form = variant := by
  unfold addVariant
  split
  · rename_i hmem
    exact ⟨Or.inl, fun h => h.elim id fun heq => heq ▸ hmem⟩
  · simp

/-- A secret adds its forms. -/
theorem mem_addSecretVariants {variants : List (List Char)} {secret form : List Char}
    (hne : secret ≠ []) :
    form ∈ addSecretVariants variants secret ↔ form ∈ variants ∨ form ∈ secretForms secret := by
  have hlong : minRedactableLength ≤ (base64Encode secret).length := four_le_length_base64Encode hne
  unfold addSecretVariants
  simp only [hlong, if_true, mem_addVariant, secretForms, List.mem_cons, List.not_mem_nil, or_false]
  split
  · simp only [mem_addVariant]
    tauto
  · rename_i hsame
    rw [not_not] at hsame
    rw [hsame]
    simp only [mem_addVariant]
    tauto

private theorem length_of_scalars? {text : PyText} {scalars : List Char}
    (h : text.scalars? = some scalars) : scalars.length = text.length := by
  induction text generalizing scalars with
  | nil =>
      cases h
      rfl
  | cons point rest ih =>
      cases point with
      | surrogate _ => cases h
      | scalar c =>
          rcases Option.map_eq_some_iff.mp h with ⟨tail, htail, rfl⟩
          rw [List.length_cons, List.length_cons, ih htail]

/-- The scalars of a text are its characters. -/
theorem mem_of_scalars? {text : PyText} {scalars : List Char} {c : Char}
    (h : text.scalars? = some scalars) (hc : c ∈ scalars) : .scalar c ∈ text := by
  induction text generalizing scalars with
  | nil =>
      cases h
      cases hc
  | cons point rest ih =>
      cases point with
      | surrogate _ => cases h
      | scalar d =>
          rcases Option.map_eq_some_iff.mp h with ⟨tail, htail, rfl⟩
          rcases List.mem_cons.mp hc with rfl | hmem
          · exact List.mem_cons_self
          · exact List.mem_cons_of_mem _ (ih htail hmem)

private theorem mem_collectVariants_iff {secrets : List PyText} {result : List (List Char)}
    {form : List Char} : ∀ {variants}, collectVariants variants secrets = .ok result →
      (form ∈ result ↔ form ∈ variants ∨ ∃ secret ∈ secrets, minRedactableLength ≤ secret.length ∧
        ∃ scalars, secret.scalars? = some scalars ∧ form ∈ secretForms scalars) := by
  induction secrets with
  | nil =>
      intro variants h
      cases h
      simp
  | cons secret rest ih =>
      intro variants h
      unfold collectVariants at h
      rw [List.exists_mem_cons_iff]
      by_cases hshort : secret.length < minRedactableLength
      · rw [if_pos hshort] at h
        simp [ih h, Nat.not_le.mpr hshort]
      · rw [if_neg hshort] at h
        cases hscalars : secret.scalars? with
        | none => simp [hscalars] at h
        | some scalars =>
            rw [hscalars] at h
            have hne : scalars ≠ [] := by
              intro hnil
              have hlength := length_of_scalars? hscalars
              rw [hnil, List.length_nil] at hlength
              exact hshort (hlength ▸ (by decide : 0 < minRedactableLength))
            rw [ih h, mem_addSecretVariants hne]
            simp only [Nat.not_lt.mp hshort, true_and, Option.some.injEq, exists_eq_left', or_assoc]

/-- The variants of a redactor are the forms of its long secrets. -/
theorem mem_ofSecrets_iff {secrets : List PyText} {redactor : Redactor}
    (h : Redactor.ofSecrets secrets = .ok redactor) {form : List Char} :
    form ∈ redactor.values ↔ ∃ secret ∈ secrets, minRedactableLength ≤ secret.length ∧
      ∃ scalars, secret.scalars? = some scalars ∧ form ∈ secretForms scalars := by
  unfold Redactor.ofSecrets at h
  cases hcollect : collectVariants [] secrets with
  | error exc => simp [hcollect] at h
  | ok variants =>
      rw [hcollect] at h
      cases h
      rw [(List.perm_insertionSort _ _).mem_iff, mem_collectVariants_iff hcollect]
      simp

/-- Every variant has at least the length of the shortest secret. -/
theorem minRedactableLength_le_length {secrets : List PyText} {redactor : Redactor}
    (h : Redactor.ofSecrets secrets = .ok redactor) :
    ∀ value ∈ redactor.values, minRedactableLength ≤ value.length := by
  intro value hvalue
  rcases (mem_ofSecrets_iff h).mp hvalue with ⟨secret, _, hlong, scalars, hscalars, hform⟩
  rw [← length_of_scalars? hscalars] at hlong
  have hne : scalars ≠ [] := by
    rintro rfl
    exact absurd hlong (by decide)
  simp only [secretForms, List.mem_cons, List.not_mem_nil, or_false] at hform
  rcases hform with rfl | rfl | rfl
  · exact hlong
  · exact hlong.trans (length_le_length_percentQuote scalars)
  · exact four_le_length_base64Encode hne

/-! ## Redaction as a series of replacements -/

/-- Enough fuel replaces the whole text. -/
theorem replaceAll_replaces {value : List Char} (hne : value ≠ []) (fuel : Nat) :
    ∀ text : List Char, text.length ≤ fuel →
      Replaces value redactionMask text (replaceAll value fuel text) := by
  induction fuel with
  | zero =>
      intro text hlength
      rw [List.eq_nil_of_length_eq_zero (Nat.le_zero.mp hlength)]
      exact .nil
  | succ fuel ih =>
      intro text hlength
      cases text with
      | nil => exact .nil
      | cons c rest =>
          rw [List.length_cons] at hlength
          unfold replaceAll
          cases hstrip : stripLiteral value (c :: rest) with
          | none =>
              refine .keep c rest _ ?_ (ih rest (by omega))
              rintro ⟨after, hafter⟩
              rw [stripLiteral_eq_some_iff.mpr hafter.symm] at hstrip
              cases hstrip
          | some after =>
              have htext := stripLiteral_eq_some_iff.mp hstrip
              have hvalue := List.length_pos_of_ne_nil hne
              have htotal := congrArg List.length htext
              rw [List.length_append, List.length_cons] at htotal
              rw [htext]
              exact .hit after _ (ih after (by omega))

/-- Redaction is a series of replacements. -/
theorem redact_replacesAll {values : List (List Char)} (hvalues : ∀ value ∈ values, value ≠ [])
    (text : List Char) :
    ReplacesAll redactionMask values text
      (values.foldl (fun text value => replaceAll value text.length text) text) := by
  induction values generalizing text with
  | nil => exact .nil text
  | cons value rest ih =>
      rw [List.forall_mem_cons] at hvalues
      exact .cons value rest text _ _ (replaceAll_replaces hvalues.1 text.length text le_rfl)
        (ih hvalues.2 _)

/-- Redaction replaces every occurrence from left to right. -/
theorem redactText_replacesAll {redactor : Redactor}
    (hne : ∀ value ∈ redactor.values, value ≠ []) (text : List Char) :
    ReplacesAll redactionMask redactor.values text (redactor.redactText text) :=
  redact_replacesAll hne text

/-- Redaction is the only such replacement. -/
theorem eq_redactText_of_replacesAll {redactor : Redactor} {text out : List Char}
    (hne : ∀ value ∈ redactor.values, value ≠ [])
    (hout : ReplacesAll redactionMask redactor.values text out) :
    redactor.redactText text = out :=
  (redactText_replacesAll hne text).unique hne hout

/-- The sides of a character in no variant are redacted on their own. -/
theorem redactText_append_symbol {redactor : Redactor} {c : Char}
    (hfree : ∀ value ∈ redactor.values, value ≠ [] ∧ c ∉ value) (left right : List Char) :
    redactor.redactText (left ++ c :: right) =
      redactor.redactText left ++ c :: redactor.redactText right := by
  have hne : ∀ value ∈ redactor.values, value ≠ [] := fun value hvalue => (hfree value hvalue).1
  exact eq_redactText_of_replacesAll hne
    ((redactText_replacesAll hne left).append_symbol (redactText_replacesAll hne right) hfree)

/-- The variants of a redactor are words apart from the mask. -/
def Redactor.Apart (redactor : Redactor) : Prop :=
  ∀ value ∈ redactor.values, value ≠ [] ∧ value.Disjoint redactionMask

/-- The mask is not empty. -/
theorem redactionMask_ne_nil : redactionMask ≠ [] := by
  decide

/-- A redactor with words apart replaces every occurrence. -/
theorem Redactor.Apart.replacesAll {redactor : Redactor} (h : redactor.Apart) (text : String) :
    ReplacesAll redactionMask redactor.values text.toList (redactor.redact text).toList := by
  have hseries := redact_replacesAll (fun value hvalue => (h value hvalue).1) text.toList
  rwa [Redactor.redact, String.toList_ofList]

/-- No variant occurs in a redacted text. -/
theorem redact_removes {redactor : Redactor} (h : redactor.Apart) (text : String) :
    ∀ value ∈ redactor.values, ¬ value <:+: (redactor.redact text).toList :=
  (h.replacesAll text).removed redactionMask_ne_nil h

/-- A text in which no variant occurs is not changed. -/
theorem redact_of_absent {redactor : Redactor} (h : redactor.Apart) {text : String}
    (habsent : ∀ value ∈ redactor.values, ¬ value <:+: text.toList) :
    redactor.redact text = text :=
  String.toList_inj.mp ((h.replacesAll text).eq_of_absent habsent)

/-- Secrets without the mask character make variants apart from the mask. -/
theorem ofSecrets_apart {secrets : List PyText} {redactor : Redactor}
    (h : Redactor.ofSecrets secrets = .ok redactor)
    (hmask : ∀ secret ∈ secrets, CodePoint.scalar '*' ∉ secret) : redactor.Apart := by
  intro value hvalue
  rcases (mem_ofSecrets_iff h).mp hvalue with ⟨secret, hsecret, hlong, scalars, hscalars, hform⟩
  have hlength := length_of_scalars? hscalars
  refine secretForms_apart ?_ ?_ value hform
  · intro hnil
    rw [hnil, List.length_nil] at hlength
    rw [← hlength] at hlong
    exact absurd hlong (by decide)
  · intro hstar
    exact hmask secret hsecret (mem_of_scalars? hscalars hstar)

/-- Redaction is complete, in whatever order the variants are replaced: no secret that
is long enough, nor one of its forms, occurs in a redacted text, and redacting it again
changes nothing. -/
theorem redaction_complete (secrets : List PyText)
    (hmask : ∀ secret ∈ secrets, CodePoint.scalar '*' ∉ secret) (built redactor : Redactor)
    (hbuilt : Redactor.ofSecrets secrets = .ok built)
    (horder : redactor.values.Perm built.values) (text : String) :
    (∀ secret ∈ secrets, minRedactableLength ≤ secret.length →
      ∃ scalars, secret.scalars? = some scalars ∧
        ∀ form ∈ secretForms scalars, ¬ form <:+: (redactor.redact text).toList) ∧
    redactor.redact (redactor.redact text) = redactor.redact text := by
  have hapart : redactor.Apart := fun value hvalue =>
    ofSecrets_apart hbuilt hmask value (horder.mem_iff.mp hvalue)
  have hremoved := redact_removes hapart text
  refine ⟨fun secret hsecret hlong => ?_, redact_of_absent hapart hremoved⟩
  have hclean := (ofSecrets_isOk_iff secrets).mp ⟨built, hbuilt⟩ secret hsecret hlong
  rw [← scalars?_eq_none_iff, ← ne_eq, Option.ne_none_iff_exists'] at hclean
  rcases hclean with ⟨scalars, hscalars⟩
  refine ⟨scalars, hscalars, fun form hform => hremoved form (horder.mem_iff.mpr ?_)⟩
  exact (mem_ofSecrets_iff hbuilt).mpr ⟨secret, hsecret, hlong, scalars, hscalars, hform⟩

/-- Two secrets that overlap. -/
def overlappingSecrets : List PyText :=
  ["hunter22".toList.map .scalar, "22+top".toList.map .scalar]

/-- Overlapping forms of two secrets in one text. -/
theorem redaction_complete_overlapping :
    ∃ redactor, Redactor.ofSecrets overlappingSecrets = .ok redactor ∧
      redactor.redact "hunter22+top 22%2Btop" = "***+top ***" ∧
      (∀ secret ∈ overlappingSecrets, minRedactableLength ≤ secret.length →
        ∃ scalars, secret.scalars? = some scalars ∧ ∀ form ∈ secretForms scalars,
          ¬ form <:+: (redactor.redact "hunter22+top 22%2Btop").toList) ∧
      redactor.redact (redactor.redact "hunter22+top 22%2Btop") =
        redactor.redact "hunter22+top 22%2Btop" := by
  have hcheck : (Redactor.ofSecrets overlappingSecrets).toOption.map
      (fun redactor => redactor.redact "hunter22+top 22%2Btop") = some "***+top ***" := by
    decide +kernel
  rcases Option.map_eq_some_iff.mp hcheck with ⟨redactor, hbuilt, hredacted⟩
  have hok : Redactor.ofSecrets overlappingSecrets = .ok redactor := by
    cases hsecrets : Redactor.ofSecrets overlappingSecrets with
    | error exc => simp [hsecrets, Except.toOption] at hbuilt
    | ok built =>
        rw [hsecrets] at hbuilt
        exact congrArg Except.ok (Option.some.inj hbuilt)
  exact ⟨redactor, hok, hredacted,
    redaction_complete overlappingSecrets (by decide +kernel) redactor redactor hok (.refl _) _⟩

end EtlTool
