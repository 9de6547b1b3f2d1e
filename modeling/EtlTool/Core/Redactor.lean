import Mathlib.Data.List.Sort
import EtlTool.Core.References

/-!
# Secret redaction

A redactor is built once per run from the resolved secret values.  It masks
every secret of at least four code points, its percent-quoted form and its
Base64 form, longest first.

Secrets come from the environment or a store and are arbitrary Python strings,
so they may contain lone surrogates, which have no UTF-8 encoding; every other
text of the model is a sequence of Unicode scalar values.

Main results:

- Theorem {lit}`ofSecrets_isOk_iff`: a redactor can be built exactly when no
  secret long enough to be redacted contains a lone surrogate.

Current gaps:

- Variants of equal length are tried in insertion order, where the source
  leaves the order to the iteration of a set.
-/

namespace EtlTool

/-! ## Secret texts -/

/-- A code point of a Python string. -/
inductive CodePoint where
  | scalar (c : Char)
  | surrogate (offset : Fin 0x800)
deriving DecidableEq

/-- Scalar values are told apart. -/
theorem CodePoint.scalar_injective : Function.Injective CodePoint.scalar :=
  fun _ _ h => CodePoint.scalar.inj h

/-- A Python string that may contain lone surrogates. -/
abbrev PyText := List CodePoint

/-- The Python string with the given scalar values. -/
def PyText.ofString (text : String) : PyText :=
  text.toList.map CodePoint.scalar

/-- The scalar values of a string without lone surrogates. -/
def PyText.scalars? : PyText → Option (List Char)
  | [] => some []
  | .scalar c :: rest => (PyText.scalars? rest).map (c :: ·)
  | .surrogate _ :: _ => none

/-- The string contains a lone surrogate. -/
def PyText.HasSurrogate (text : PyText) : Prop :=
  ∃ offset, CodePoint.surrogate offset ∈ text

theorem scalars?_eq_none_iff (text : PyText) : text.scalars? = none ↔ text.HasSurrogate := by
  unfold PyText.HasSurrogate
  induction text with
  | nil => simp [PyText.scalars?]
  | cons point rest ih =>
      cases point with
      | scalar c => simp [PyText.scalars?, ih]
      | surrogate offset => simp [PyText.scalars?]

/-! ## Encodings -/

/-- {lit}`value.encode()`: UTF-8. -/
def utf8Bytes (text : List Char) : List UInt8 :=
  text.flatMap String.utf8EncodeChar

/-- One digit of an uppercase hexadecimal numeral. -/
def upperHexDigit (n : Nat) : Char :=
  (Nat.digitChar n).toUpper

/-- {lit}`urllib.parse.quote(value, safe="")`. -/
def percentQuote (text : List Char) : List Char :=
  (utf8Bytes text).flatMap fun byte =>
    let c := Char.ofNat byte.toNat
    if c.isAlphanum || ['_', '.', '-', '~'].contains c then [c]
    else ['%', upperHexDigit (byte.toNat / 16), upperHexDigit (byte.toNat % 16)]

/-- The ASCII ranges of the digits and the letters. -/
theorem ranges_of_isAlphanum {c : Char} (h : c.isAlphanum = true) :
    (48 ≤ c.toNat ∧ c.toNat ≤ 57) ∨ (65 ≤ c.toNat ∧ c.toNat ≤ 90) ∨
      (97 ≤ c.toNat ∧ c.toNat ≤ 122) := by
  unfold Char.isAlphanum Char.isAlpha Char.isUpper Char.isLower Char.isDigit at h
  simp only [Bool.or_eq_true, Bool.and_eq_true, decide_eq_true_eq, ge_iff_le,
    UInt32.le_iff_toNat_le] at h
  change ((65 ≤ c.toNat ∧ c.toNat ≤ 90) ∨ (97 ≤ c.toNat ∧ c.toNat ≤ 122)) ∨
    (48 ≤ c.toNat ∧ c.toNat ≤ 57) at h
  omega

/-- A character of the Base64 alphabet. -/
def base64Char (n : Nat) : Char :=
  if n < 26 then Char.ofNat ('A'.toNat + n)
  else if n < 52 then Char.ofNat ('a'.toNat + (n - 26))
  else if n < 62 then Char.ofNat ('0'.toNat + (n - 52))
  else if n = 62 then '+'
  else '/'

/-- Base64 with padding, three bytes at a time. -/
def base64Bytes : List UInt8 → List Char
  | [] => []
  | [a] =>
      let n := a.toNat * 16
      [base64Char (n / 64), base64Char (n % 64), '=', '=']
  | [a, b] =>
      let n := (a.toNat * 256 + b.toNat) * 4
      [base64Char (n / 4096), base64Char (n / 64 % 64), base64Char (n % 64), '=']
  | a :: b :: c :: rest =>
      let n := (a.toNat * 256 + b.toNat) * 256 + c.toNat
      [base64Char (n / 262144), base64Char (n / 4096 % 64), base64Char (n / 64 % 64),
        base64Char (n % 64)] ++ base64Bytes rest

/-- {lit}`base64.b64encode(value.encode()).decode()`. -/
def base64Encode (text : List Char) : List Char :=
  base64Bytes (utf8Bytes text)

/-! ## The redactor -/

/-- {lit}`MASK`. -/
def redactionMask : List Char :=
  "***".toList

theorem eq_star_of_mem_redactionMask {c : Char} (h : c ∈ redactionMask) : c = '*' := by
  simpa [redactionMask] using h

/-- {lit}`MIN_REDACTABLE_LENGTH`: shorter secrets are not replaced in texts. -/
def minRedactableLength : Nat := 4

/-- The texts to mask, longest first. -/
structure Redactor where
  values : List (List Char)
deriving DecidableEq

/-- The {lit}`UnicodeEncodeError` of a string with a lone surrogate. -/
def surrogateEncodeError : PyException where
  typeName := "UnicodeEncodeError"
  text := some "'utf-8' codec can't encode character: surrogates not allowed"

instance lawfulBEq_chars : LawfulBEq (List Char) :=
  inferInstance

/-- Add one variant to a set of variants. -/
def addVariant (variants : List (List Char)) (variant : List Char) : List (List Char) :=
  if variant ∈ variants then variants else variants ++ [variant]

/-- The variants under which one secret value may appear. -/
def addSecretVariants (variants : List (List Char)) (value : List Char) : List (List Char) :=
  let quoted := percentQuote value
  let encoded := base64Encode value
  let variants := addVariant variants value
  let variants := if quoted ≠ value then addVariant variants quoted else variants
  if minRedactableLength ≤ encoded.length then addVariant variants encoded else variants

/-- The loop of {lit}`Redactor.__init__` over the secret values. -/
def collectVariants : List (List Char) → List PyText → Except PyException (List (List Char))
  | variants, [] => .ok variants
  | variants, value :: rest =>
      if value.length < minRedactableLength then collectVariants variants rest
      else
        match value.scalars? with
        | none => .error surrogateEncodeError
        | some scalars => collectVariants (addSecretVariants variants scalars) rest

/-- {lit}`Redactor(secrets)`. -/
def Redactor.ofSecrets (secrets : List PyText) : Except PyException Redactor :=
  match collectVariants [] secrets with
  | .error exc => .error exc
  | .ok variants => .ok ⟨variants.insertionSort fun a b => b.length ≤ a.length⟩

/-- {lit}`text.replace(value, MASK)`; the fuel bounds the text length. -/
def replaceAll (value : List Char) : Nat → List Char → List Char
  | 0, text => text
  | _ + 1, [] => []
  | fuel + 1, c :: rest =>
      match stripLiteral value (c :: rest) with
      | some rest' => redactionMask ++ replaceAll value fuel rest'
      | none => c :: replaceAll value fuel rest

/-- {lit}`Redactor.redact`. -/
def Redactor.redact (redactor : Redactor) (text : String) : String :=
  String.ofList (redactor.values.foldl
    (fun text value => replaceAll value text.length text) text.toList)

/-- {lit}`Redactor.redact` on the characters of a text. -/
def Redactor.redactText (redactor : Redactor) (text : List Char) : List Char :=
  redactor.values.foldl (fun text value => replaceAll value text.length text) text

theorem toList_redact (redactor : Redactor) (text : String) :
    (redactor.redact text).toList = redactor.redactText text.toList := by
  rw [Redactor.redact, String.toList_ofList, Redactor.redactText]

mutual

/-- {lit}`Redactor.redact_obj`: the texts of an object are redacted, its keys are not. -/
def Redactor.redactObj (redactor : Redactor) : Value → Value
  | .str text => .str (redactor.redact text)
  | .dict fields => .dict (redactFields redactor fields)
  | .list items => .list (redactItems redactor items)
  | obj => obj

/-- The items of a list, redacted. -/
def Redactor.redactItems (redactor : Redactor) : List Value → List Value
  | [] => []
  | item :: rest => redactObj redactor item :: redactItems redactor rest

/-- The members of a dict, redacted. -/
def Redactor.redactFields (redactor : Redactor) : List (String × Value) → List (String × Value)
  | [] => []
  | (key, value) :: rest => (key, redactObj redactor value) :: redactFields redactor rest

end

private theorem collectVariants_isOk_iff (secrets : List PyText) :
    ∀ variants, (∃ result, collectVariants variants secrets = .ok result) ↔
      ∀ value ∈ secrets, minRedactableLength ≤ value.length → ¬ value.HasSurrogate := by
  induction secrets with
  | nil => intro variants; simp [collectVariants]
  | cons value rest ih =>
      intro variants
      unfold collectVariants
      by_cases hshort : value.length < minRedactableLength
      · rw [if_pos hshort, ih]
        have hnot : ¬ minRedactableLength ≤ value.length := by omega
        simp [hnot]
      · rw [if_neg hshort]
        have hlong : minRedactableLength ≤ value.length := by omega
        cases hscalars : value.scalars? with
        | none =>
            have hsurrogate := (scalars?_eq_none_iff value).mp hscalars
            simp [hlong, hsurrogate]
        | some scalars =>
            have hclean : ¬ value.HasSurrogate := by
              rw [← scalars?_eq_none_iff, hscalars]
              simp
            simp [ih, hlong, hclean]

/-- A redactor can be built exactly when no secret that is long enough to be
redacted contains a lone surrogate. -/
theorem ofSecrets_isOk_iff (secrets : List PyText) :
    (∃ redactor, Redactor.ofSecrets secrets = .ok redactor) ↔
      ∀ value ∈ secrets, minRedactableLength ≤ value.length → ¬ value.HasSurrogate := by
  rw [← collectVariants_isOk_iff secrets []]
  unfold Redactor.ofSecrets
  cases collectVariants [] secrets <;> simp

end EtlTool
