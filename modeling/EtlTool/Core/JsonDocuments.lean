import EtlTool.Core.JsonText
import EtlTool.Core.PercentEncoding
import EtlTool.Foundations.QuotedTexts
import Mathlib.Data.List.TakeWhile

/-!
# JSON documents

The indented text of a JSON document, as the models of the engine are written, and a reader
of JSON texts.  A document is a text with holes for its strings: member names and string
values are the only places that depend on the texts in it.

The reader gives back what was written, also where the strings were changed on the way, as
long as each of them still ends at its quote.

Main results:

- Theorem {lit}`readString_documentText`: the text of a string is read back.
- Theorem {lit}`parseJson_fill`: a document with other texts in its strings.
- Theorem {lit}`noStar_of_parseJson`: a text that can be read has no asterisk outside its
  strings.

Current gaps:

- The spelling of floats is the serializer's; what is used of it are the assumptions
  {lit}`FloatSpelling.Lawful`.
- Escapes of surrogates, which the serializer does not write, are not read.
- Members with the same name are all kept by the reader.
-/

namespace EtlTool

open TextReplacement

/-! ## Strings -/

/-- What stands behind the backslash of an escaped character; {lean}`none` if the character
is written as it is. -/
def escapeTail? (c : Char) : Option (List Char) :=
  if c = '"' then some ['"']
  else if c = '\\' then some ['\\']
  else if c = '\n' then some ['n']
  else if c = '\r' then some ['r']
  else if c = '\t' then some ['t']
  else if c.toNat = 0x0c then some ['f']
  else if c.toNat = 0x08 then some ['b']
  else if c.toNat < 0x20 then
    some ['u', '0', '0', Nat.digitChar (c.toNat / 16), Nat.digitChar (c.toNat % 16)]
  else none

/-- How a character of a string is written. -/
def documentChar (c : Char) : List Char :=
  match escapeTail? c with
  | some tail => '\\' :: tail
  | none => [c]

/-- The characters of a string between its quotes. -/
def documentText (text : List Char) : List Char :=
  text.flatMap documentChar

/-- The character that a letter behind a backslash stands for. -/
def escapeLetter? (c : Char) : Option Char :=
  if c = '"' then some '"'
  else if c = '\\' then some '\\'
  else if c = '/' then some '/'
  else if c = 'b' then some (Char.ofNat 0x08)
  else if c = 'f' then some (Char.ofNat 0x0c)
  else if c = 'n' then some '\n'
  else if c = 'r' then some '\r'
  else if c = 't' then some '\t'
  else none

/-- Read four hexadecimal digits. -/
def readUnicode : List Char → Option (Char × List Char)
  | a :: b :: c :: d :: rest =>
      match hexDigit? a, hexDigit? b, hexDigit? c, hexDigit? d with
      | some w, some x, some y, some z =>
          let n := ((w * 16 + x) * 16 + y) * 16 + z
          if 0xd800 ≤ n ∧ n < 0xe000 then none else some (Char.ofNat n, rest)
      | _, _, _, _ => none
  | _ => none

/-- Read what stands behind a backslash. -/
def readEscape : List Char → Option (Char × List Char)
  | [] => none
  | c :: rest =>
      if c = 'u' then readUnicode rest else (escapeLetter? c).map fun letter => (letter, rest)

/-- Read a string up to its quote. -/
def readString : Nat → List Char → Option (List Char × List Char)
  | 0, _ => none
  | _ + 1, [] => none
  | fuel + 1, c :: rest =>
      if c = '"' then some ([], rest)
      else if c = '\\' then
        match readEscape rest with
        | none => none
        | some (letter, rest') => (readString fuel rest').map fun p => (letter :: p.1, p.2)
      else if c.toNat < 0x20 then none
      else (readString fuel rest).map fun p => (c :: p.1, p.2)

/-! ## Numbers -/

/-- The characters of numbers. -/
def isNumberChar (c : Char) : Bool :=
  c.isDigit || c == '-' || c == '+' || c == '.' || c == 'e' || c == 'E'

/-- Digits, at least one. -/
def isDigits (text : List Char) : Bool :=
  !text.isEmpty && text.all Char.isDigit

/-- Nothing, or an exponent. -/
def isExponent : List Char → Bool
  | [] => true
  | c :: rest =>
      (c == 'e' || c == 'E') &&
        match rest with
        | [] => false
        | sign :: digits =>
            if sign = '+' ∨ sign = '-' then isDigits digits else isDigits (sign :: digits)

/-- A fraction and an exponent, if any. -/
def isFraction : List Char → Bool
  | [] => true
  | c :: rest =>
      if c = '.' then
        isDigits (rest.takeWhile Char.isDigit) && isExponent (rest.dropWhile Char.isDigit)
      else isExponent (c :: rest)

/-- A number without sign; there are no leading zeros. -/
def isUnsigned (text : List Char) : Bool :=
  let digits := text.takeWhile Char.isDigit
  isDigits digits && (digits.length == 1 || digits.head? != some '0') &&
    isFraction (text.dropWhile Char.isDigit)

/-- A JSON number. -/
def isJsonNumber : List Char → Bool
  | [] => false
  | c :: rest => if c = '-' then isUnsigned rest else isUnsigned (c :: rest)

/-- How the serializer writes finite floats, and how numbers with a fraction or an exponent
are read. -/
structure FloatSpelling where
  write : ℚ → List Char
  read : List Char → PyFloat

/-- Finite floats are written as JSON numbers with a fraction or an exponent, and read
back. -/
structure FloatSpelling.Lawful (sp : FloatSpelling) : Prop where
  number : ∀ q, isJsonNumber (sp.write q) = true
  chars : ∀ q, ∀ c ∈ sp.write q, isNumberChar c = true
  fraction : ∀ q, ∃ c ∈ sp.write q, c ≠ '-' ∧ c.isDigit = false
  reads : ∀ q, sp.read (sp.write q) = .finite q

/-- The integer that a sign and digits write. -/
def intValue : List Char → Int
  | [] => 0
  | c :: rest =>
      if c = '-' then -(Nat.ofDigitChars 10 rest 0 : Int)
      else (Nat.ofDigitChars 10 (c :: rest) 0 : Int)

/-- The number that a JSON number writes. -/
def numberValue (sp : FloatSpelling) (text : List Char) : Value :=
  if text.all fun c => c.isDigit || c == '-' then .int (intValue text)
  else .float (sp.read text)

/-- Read a number. -/
def readNumber (sp : FloatSpelling) (text : List Char) : Option (Value × List Char) :=
  let number := text.takeWhile isNumberChar
  if isJsonNumber number then some (numberValue sp number, text.dropWhile isNumberChar) else none

/-! ## Reading -/

/-- White space between tokens. -/
def isJsonSpace (c : Char) : Bool :=
  c == ' ' || c == '\n' || c == '\r' || c == '\t'

def skipSpace (text : List Char) : List Char :=
  text.dropWhile isJsonSpace

/-- Read one punctuation mark, behind white space. -/
def expect (mark : Char) (text : List Char) : Option (List Char) :=
  stripLiteral [mark] (skipSpace text)

/-- Read the rest of a literal name. -/
def readName (name : String) (v : Value) (text : List Char) : Option (Value × List Char) :=
  (stripLiteral name.toList text).map fun rest => (v, rest)

section

variable (sp : FloatSpelling)

mutual

/-- Read a value. -/
def readValue : Nat → List Char → Option (Value × List Char)
  | 0, _ => none
  | _ + 1, [] => none
  | fuel + 1, c :: rest =>
      if c = '"' then
        (readString rest.length rest).map fun p => (.str (String.ofList p.1), p.2)
      else if c = '[' then
        match expect ']' rest with
        | some rest' => some (.list [], rest')
        | none => (readItems fuel (skipSpace rest)).map fun p => (.list p.1, p.2)
      else if c = '\x7b' then
        match expect '\x7d' rest with
        | some rest' => some (.dict [], rest')
        | none => (readMembers fuel (skipSpace rest)).map fun p => (.dict p.1, p.2)
      else if c = 'n' then readName "ull" .none rest
      else if c = 't' then readName "rue" (.bool true) rest
      else if c = 'f' then readName "alse" (.bool false) rest
      else readNumber sp (c :: rest)

/-- Read the items of a list and the closing bracket. -/
def readItems : Nat → List Char → Option (List Value × List Char)
  | 0, _ => none
  | fuel + 1, text =>
      match readValue fuel text with
      | none => none
      | some (v, rest) =>
          match expect ',' rest with
          | some rest' => (readItems fuel (skipSpace rest')).map fun p => (v :: p.1, p.2)
          | none => (expect ']' rest).map fun rest' => ([v], rest')

/-- Read the members of an object and the closing brace. -/
def readMembers : Nat → List Char → Option (List (String × Value) × List Char)
  | 0, _ => none
  | fuel + 1, text =>
      match expect '"' text with
      | none => none
      | some name =>
          match readString name.length name with
          | none => none
          | some (key, rest) =>
              match expect ':' rest with
              | none => none
              | some rest' =>
                  match readValue fuel (skipSpace rest') with
                  | none => none
                  | some (v, last) =>
                      match expect ',' last with
                      | some last' =>
                          (readMembers fuel (skipSpace last')).map fun p =>
                            ((String.ofList key, v) :: p.1, p.2)
                      | none =>
                          (expect '\x7d' last).map fun last' =>
                            ([(String.ofList key, v)], last')

end

/-- {lit}`json.loads`; {lean}`none` if the text is no JSON document. -/
def parseJson (text : List Char) : Option Value :=
  match readValue sp (text.length + 1) (skipSpace text) with
  | none => none
  | some (v, rest) => if skipSpace rest = [] then some v else none

/-! ## Writing -/

/-- Characters without holes. -/
def plainTokens (text : List Char) : Quoted String Char :=
  text.map .inl

/-- A new line at a depth. -/
def lineBreak (depth : Nat) : List Char :=
  '\n' :: List.replicate (2 * depth) ' '

mutual

/-- The text of a value at a depth, with a hole for each string. -/
def Value.documentTokens (depth : Nat) : Value → Quoted String Char
  | .none => plainTokens "null".toList
  | .bool b => plainTokens (if b then "true".toList else "false".toList)
  | .int z => plainTokens (toString z).toList
  | .float (.finite q) => plainTokens (sp.write q)
  | .float _ => plainTokens "null".toList
  | .str text => [.inr text]
  | .list items => .inl '[' :: itemTokens depth true items
  | .dict fields => .inl '\x7b' :: fieldTokens depth true fields
  | .foreign _ text _ => [.inr text]

/-- The items of a list, each on its line, and the closing bracket. -/
def Value.itemTokens (depth : Nat) (first : Bool) : List Value → Quoted String Char
  | [] => plainTokens ((if first then [] else lineBreak depth) ++ [']'])
  | value :: rest =>
      plainTokens ((if first then [] else [',']) ++ lineBreak (depth + 1)) ++
        (documentTokens (depth + 1) value ++ itemTokens depth false rest)

/-- The members of an object, each on its line, and the closing brace. -/
def Value.fieldTokens (depth : Nat) (first : Bool) :
    List (String × Value) → Quoted String Char
  | [] => plainTokens ((if first then [] else lineBreak depth) ++ ['\x7d'])
  | (key, value) :: rest =>
      plainTokens ((if first then [] else [',']) ++ lineBreak (depth + 1)) ++
        (.inr key :: (plainTokens [':', ' '] ++
          (documentTokens (depth + 1) value ++ fieldTokens depth false rest)))

end

/-- {lit}`model_dump_json(indent=2)` of a document. -/
def dumpJson (v : Value) : String :=
  String.ofList (Quoted.fill '"' (fun text => documentText text.toList) (v.documentTokens sp 0))

end

/-! ## Strings are read back -/

/-- A character that is written as it is. -/
theorem escapeTail?_eq_none_iff {c : Char} :
    escapeTail? c = none ↔ c ≠ '"' ∧ c ≠ '\\' ∧ 0x20 ≤ c.toNat := by
  have hcontrol : 0x20 ≤ c.toNat → c ≠ '\n' ∧ c ≠ '\r' ∧ c ≠ '\t' := by
    intro h
    refine ⟨?_, ?_, ?_⟩ <;>
      · rintro rfl
        revert h
        decide
  unfold escapeTail?
  constructor
  · intro h
    repeat' split at h
    all_goals try cases h
    exact ⟨by assumption, by assumption, by omega⟩
  · rintro ⟨hquote, hslash, hlow⟩
    rcases hcontrol hlow with ⟨hnewline, hreturn, htab⟩
    simp only [hquote, hslash, hnewline, hreturn, htab, if_false]
    rw [if_neg (by omega), if_neg (by omega), if_neg (by omega)]

/-- What stands behind a backslash: the escaped character itself, or letters and digits. -/
theorem escapeTail?_cases {c : Char} {tail : List Char} (h : escapeTail? c = some tail) :
    tail = [c] ∨ tail ≠ [] ∧ ∀ d ∈ tail, escapeTail? d = none := by
  have hdigit : ∀ n < 32, escapeTail? (Nat.digitChar n) = none := by decide
  unfold escapeTail? at h
  split at h
  · cases h
    rename_i hc
    exact Or.inl (by rw [hc])
  split at h
  · cases h
    rename_i hc
    exact Or.inl (by rw [hc])
  · refine Or.inr ?_
    repeat' split at h
    all_goals cases h
    all_goals refine ⟨List.cons_ne_nil _ _, ?_⟩
    all_goals simp only [List.forall_mem_cons, List.not_mem_nil, false_imp_iff, implies_true,
      and_true]
    all_goals first
      | decide
      | exact ⟨rfl, rfl, rfl, hdigit _ (by omega), hdigit _ (by omega)⟩

/-- A character without an escape is written as it is. -/
theorem documentChar_of_plain {c : Char} (h : escapeTail? c = none) : documentChar c = [c] := by
  rw [documentChar, h]

/-- A character with an escape is written as a backslash and its tail. -/
theorem documentChar_of_escaped {c : Char} {tail : List Char} (h : escapeTail? c = some tail) :
    documentChar c = '\\' :: tail := by
  rw [documentChar, h]

/-- A text without a character to escape is written as it is. -/
theorem documentText_of_plain {text : List Char} (h : ∀ c ∈ text, escapeTail? c = none) :
    documentText text = text := by
  induction text with
  | nil => rfl
  | cons c text ih =>
      rw [List.forall_mem_cons] at h
      rw [documentText, List.flatMap_cons, documentChar_of_plain h.1, ← documentText, ih h.2]
      rfl

private theorem hexDigit?_digitChar {n : Nat} (h : n < 16) :
    hexDigit? (Nat.digitChar n) = some n := by
  revert n
  decide

/-- An escape is read back. -/
theorem readEscape_tail {c : Char} {tail : List Char} (h : escapeTail? c = some tail)
    (rest : List Char) : readEscape (tail ++ rest) = some (c, rest) := by
  have hself : Char.ofNat c.toNat = c := c.ofNat_toNat
  unfold escapeTail? at h
  split at h
  · cases h
    rename_i hc
    rw [hc]
    rfl
  split at h
  · cases h
    rename_i hc
    rw [hc]
    rfl
  split at h
  · cases h
    rename_i hc
    rw [hc]
    rfl
  split at h
  · cases h
    rename_i hc
    rw [hc]
    rfl
  split at h
  · cases h
    rename_i hc
    rw [hc]
    rfl
  split at h
  · cases h
    rename_i hc
    rw [← hself, hc]
    rfl
  split at h
  · cases h
    rename_i hc
    rw [← hself, hc]
    rfl
  split at h
  · cases h
    have hhigh := hexDigit?_digitChar (n := c.toNat / 16) (by omega)
    have hlow := hexDigit?_digitChar (n := c.toNat % 16) (by omega)
    have hzero : hexDigit? '0' = some 0 := by decide
    have hsum : ((0 * 16 + 0) * 16 + c.toNat / 16) * 16 + c.toNat % 16 = c.toNat := by omega
    simp only [List.cons_append, List.nil_append, readEscape, if_true, readUnicode, hhigh, hlow,
      hzero, hsum]
    rw [if_neg (by omega), hself]
  · cases h

private theorem readString_plain {c : Char} (h : escapeTail? c = none) (fuel : Nat)
    (rest : List Char) :
    readString (fuel + 1) (c :: rest) =
      (readString fuel rest).map fun p => (c :: p.1, p.2) := by
  rcases escapeTail?_eq_none_iff.mp h with ⟨hquote, hslash, hlow⟩
  rw [readString, if_neg hquote, if_neg hslash, if_neg (by omega)]

private theorem readString_escape {c : Char} {tail : List Char} (h : escapeTail? c = some tail)
    (fuel : Nat) (rest : List Char) :
    readString (fuel + 1) ('\\' :: (tail ++ rest)) =
      (readString fuel rest).map fun p => (c :: p.1, p.2) := by
  rw [readString, if_neg (by decide), if_pos rfl, readEscape_tail h]

/-- The text of a string is read back up to its quote. -/
theorem readString_documentText (text rest : List Char) {fuel : Nat}
    (hfuel : text.length < fuel) :
    readString fuel (documentText text ++ '"' :: rest) = some (text, rest) := by
  induction text generalizing fuel with
  | nil =>
      cases fuel with
      | zero => exact absurd hfuel (Nat.not_lt_zero _)
      | succ fuel => rfl
  | cons c text ih =>
      cases fuel with
      | zero => exact absurd hfuel (Nat.not_lt_zero _)
      | succ fuel =>
          rw [List.length_cons] at hfuel
          have hrest := @ih fuel (by omega)
          rw [documentText, List.flatMap_cons, List.append_assoc, ← documentText]
          cases htail : escapeTail? c with
          | none =>
              rw [documentChar_of_plain htail, List.singleton_append, readString_plain htail, hrest]
              rfl
          | some tail =>
              rw [documentChar_of_escaped htail, List.cons_append, readString_escape htail, hrest]
              rfl

/-- A string with a broken escape is not read. -/
theorem readString_broken (text : List Char) {behind : List Char}
    (hbroken : readEscape behind = none) (fuel : Nat) :
    readString fuel (documentText text ++ '\\' :: behind) = none := by
  induction text generalizing fuel with
  | nil =>
      cases fuel with
      | zero => rfl
      | succ fuel =>
          rw [documentText, List.flatMap_nil, List.nil_append, readString, if_neg (by decide),
            if_pos rfl, hbroken]
  | cons c text ih =>
      cases fuel with
      | zero => rfl
      | succ fuel =>
          rw [documentText, List.flatMap_cons, List.append_assoc, ← documentText]
          cases htail : escapeTail? c with
          | none =>
              rw [documentChar_of_plain htail, List.singleton_append, readString_plain htail, ih]
              rfl
          | some tail =>
              rw [documentChar_of_escaped htail, List.cons_append, readString_escape htail, ih]
              rfl

/-- Four hexadecimal digits with an asterisk among them are not read. -/
theorem readUnicode_of_star {digits : List Char} (hlength : digits.length < 4)
    (rest : List Char) : readUnicode (digits ++ '*' :: rest) = none := by
  have hstar : hexDigit? '*' = none := by decide
  unfold readUnicode
  split
  · rename_i a b c d rest' htext
    have hmem : '*' = a ∨ '*' = b ∨ '*' = c ∨ '*' = d := by
      match digits, hlength with
      | [], _ => exact Or.inl (List.cons.inj htext).1
      | [_], _ => exact Or.inr (Or.inl (List.cons.inj (List.cons.inj htext).2).1)
      | [_, _], _ =>
          simp only [List.cons_append, List.nil_append, List.cons.injEq] at htext
          exact Or.inr (Or.inr (Or.inl htext.2.2.1))
      | [_, _, _], _ =>
          simp only [List.cons_append, List.nil_append, List.cons.injEq] at htext
          exact Or.inr (Or.inr (Or.inr htext.2.2.2.1))
    split
    · rename_i ha hb hc hd
      rcases hmem with rfl | rfl | rfl | rfl
      · cases hstar.symm.trans ha
      · cases hstar.symm.trans hb
      · cases hstar.symm.trans hc
      · cases hstar.symm.trans hd
    · rfl
  · rfl

/-- An escape in which an asterisk takes the place of one of its characters is broken. -/
theorem readEscape_of_star {c : Char} {tail : List Char} (h : escapeTail? c = some tail)
    {k : Nat} (hk : k < tail.length) (rest : List Char) :
    readEscape (tail.take k ++ '*' :: rest) = none := by
  have hletter : readEscape ('*' :: rest) = none := rfl
  have hshape : tail.length = 1 ∨ ∃ digits, tail = 'u' :: digits ∧ digits.length = 4 := by
    unfold escapeTail? at h
    repeat' split at h
    all_goals cases h
    all_goals simp
  cases k with
  | zero => exact hletter
  | succ k =>
      rcases hshape with hone | ⟨digits, rfl, hfour⟩
      · omega
      · rw [List.length_cons] at hk
        rw [List.take_succ_cons, List.cons_append, readEscape, if_pos rfl]
        exact readUnicode_of_star (by rw [List.length_take]; omega) rest

/-! ## Numbers are read back -/

/-- Digits are characters of a number. -/
theorem isNumberChar_of_digit {c : Char} (h : c.isDigit = true) : isNumberChar c = true := by
  simp [isNumberChar, h]

/-- The digits of a number have no leading zero. -/
theorem head?_toDigits {n : Nat} (h : 0 < n) : (Nat.toDigits 10 n).head? ≠ some '0' := by
  induction n using Nat.strong_induction_on with
  | _ n ih =>
      rw [Nat.toDigits_eq_if (by decide)]
      split
      · rename_i hsmall
        have hdigit : ∀ m < 10, 0 < m → Nat.digitChar m ≠ '0' := by decide
        simpa using hdigit n hsmall h
      · rename_i hlarge
        rw [List.head?_append_of_ne_nil _ Nat.toDigits_ne_nil]
        exact ih (n / 10) (by omega) (by omega)

/-- The digits of a natural number are an unsigned number. -/
theorem isUnsigned_toDigits (n : Nat) : isUnsigned (Nat.toDigits 10 n) = true := by
  have hdigits : ∀ c ∈ Nat.toDigits 10 n, c.isDigit = true := fun c hc =>
    Nat.isDigit_of_mem_toDigits (by decide) (by decide) hc
  have hall : (Nat.toDigits 10 n).all Char.isDigit = true := List.all_eq_true.mpr hdigits
  have htake := List.takeWhile_eq_self_iff.mpr hdigits
  have hdrop := List.dropWhile_eq_nil_iff.mpr hdigits
  have hzero : (Nat.toDigits 10 n).length = 1 ∨ (Nat.toDigits 10 n).head? ≠ some '0' := by
    rcases Nat.eq_zero_or_pos n with rfl | hpos
    · exact Or.inl rfl
    · exact Or.inr (head?_toDigits hpos)
  have hnonempty : (Nat.toDigits 10 n).isEmpty = false :=
    List.isEmpty_eq_false_iff.mpr Nat.toDigits_ne_nil
  rw [isUnsigned, htake, hdrop, isDigits, hall, hnonempty, isFraction]
  simpa using hzero

/-- No natural number is written with a leading minus. -/
theorem toDigits_head_ne_minus {n : Nat} {c : Char} {rest : List Char}
    (h : Nat.toDigits 10 n = c :: rest) : c ≠ '-' := by
  rintro rfl
  have hdigit := Nat.isDigit_of_mem_toDigits (b := 10) (n := n) (by decide) (by decide)
    (h ▸ List.mem_cons_self)
  revert hdigit
  decide

private theorem isJsonNumber_intText (z : Int) : isJsonNumber (toString z).toList = true := by
  rw [intText_eq]
  split
  · cases htext : Nat.toDigits 10 z.toNat with
    | nil => exact absurd htext Nat.toDigits_ne_nil
    | cons c rest =>
        rw [isJsonNumber, if_neg (toDigits_head_ne_minus htext), ← htext]
        exact isUnsigned_toDigits _
  · rw [isJsonNumber, if_pos rfl]
    exact isUnsigned_toDigits _

/-- The text of an integer is read back as the integer. -/
theorem intValue_intText (z : Int) : intValue (toString z).toList = z := by
  rw [intText_eq]
  split
  · cases htext : Nat.toDigits 10 z.toNat with
    | nil => exact absurd htext Nat.toDigits_ne_nil
    | cons c rest =>
        rw [intValue, if_neg (toDigits_head_ne_minus htext), ← htext,
          Nat.ofDigitChars_ten_toDigits]
        omega
  · rw [intValue, if_pos rfl, Nat.ofDigitChars_ten_toDigits]
    omega

private theorem numberValue_intText (sp : FloatSpelling) (z : Int) :
    numberValue sp (toString z).toList = .int z := by
  have hall : ((toString z).toList.all fun c => c.isDigit || c == '-') = true := by
    refine List.all_eq_true.mpr fun c hc => ?_
    rcases intText_chars z c hc with h | h <;> simp [h]
  rw [numberValue, hall, if_pos rfl, intValue_intText]

private theorem numberValue_float {sp : FloatSpelling} (hsp : sp.Lawful) (q : ℚ) :
    numberValue sp (sp.write q) = .float (.finite q) := by
  have hall : ((sp.write q).all fun c => c.isDigit || c == '-') = false := by
    rcases hsp.fraction q with ⟨c, hc, hminus, hdigit⟩
    exact List.all_eq_false.mpr ⟨c, hc, by simp [hminus, hdigit]⟩
  rw [numberValue, hall, if_neg Bool.false_ne_true, hsp.reads]

/-- The characters of a number in front of a text that does not go on like a number. -/
theorem readNumber_append {sp : FloatSpelling} {number rest : List Char}
    (hnumber : isJsonNumber number = true) (hchars : ∀ c ∈ number, isNumberChar c = true)
    (hends : SelfDelimiting.Ends isNumberChar rest) :
    readNumber sp (number ++ rest) = some (numberValue sp number, rest) := by
  have htake : (number ++ rest).takeWhile isNumberChar = number := by
    rw [List.takeWhile_append_of_pos hchars]
    cases rest with
    | nil => simp
    | cons c rest => simp [hends c rest rfl]
  have hdrop : (number ++ rest).dropWhile isNumberChar = rest := by
    rw [List.dropWhile_append_of_pos hchars]
    cases rest with
    | nil => rfl
    | cons c rest => simp [hends c rest rfl]
  rw [readNumber, htake, hdrop, hnumber, if_pos rfl]

/-- The first character of a number is a digit or a minus sign. -/
theorem isJsonNumber_head {c : Char} {rest : List Char} (h : isJsonNumber (c :: rest) = true) :
    c.isDigit = true ∨ c = '-' := by
  by_cases hminus : c = '-'
  · exact Or.inr hminus
  · rw [isJsonNumber, if_neg hminus, isUnsigned] at h
    refine Or.inl ?_
    by_contra hdigit
    simp [hdigit, isDigits] at h

/-- A number is read as a value. -/
theorem readValue_number {sp : FloatSpelling} {number rest : List Char} {fuel : Nat}
    (hnumber : isJsonNumber number = true) (hchars : ∀ c ∈ number, isNumberChar c = true)
    (hends : SelfDelimiting.Ends isNumberChar rest) :
    readValue sp (fuel + 1) (number ++ rest) = some (numberValue sp number, rest) := by
  cases number with
  | nil => cases hnumber
  | cons c number =>
      have hc : c ≠ '"' ∧ c ≠ '[' ∧ c ≠ '\x7b' ∧ c ≠ 'n' ∧ c ≠ 't' ∧ c ≠ 'f' := by
        refine ⟨?_, ?_, ?_, ?_, ?_, ?_⟩ <;>
          · rintro rfl
            have hhead := isJsonNumber_head hnumber
            revert hhead
            decide
      rw [List.cons_append, readValue, if_neg hc.1, if_neg hc.2.1, if_neg hc.2.2.1,
        if_neg hc.2.2.2.1, if_neg hc.2.2.2.2.1, if_neg hc.2.2.2.2.2, ← List.cons_append,
        readNumber_append hnumber hchars hends]

/-! ## Documents are read back -/

mutual

/-- A document: JSON values with finite numbers. -/
def Value.Document : Value → Prop
  | .float (.finite _) => True
  | .float _ => False
  | .list items => DocumentItems items
  | .dict fields => DocumentFields fields
  | .foreign _ _ _ => False
  | _ => True

/-- Every item is a document. -/
def Value.DocumentItems : List Value → Prop
  | [] => True
  | value :: rest => Document value ∧ DocumentItems rest

/-- Every member is a document. -/
def Value.DocumentFields : List (String × Value) → Prop
  | [] => True
  | (_, value) :: rest => Document value ∧ DocumentFields rest

end

mutual

/-- The value with its texts and names replaced; {lean}`none` if one of them has no
replacement. -/
def Value.withTexts (read : String → Option String) : Value → Option Value
  | .str text => (read text).map .str
  | .list items => (itemsWithTexts read items).map .list
  | .dict fields => (fieldsWithTexts read fields).map .dict
  | value => some value

/-- The items with their texts replaced. -/
def Value.itemsWithTexts (read : String → Option String) : List Value → Option (List Value)
  | [] => some []
  | value :: rest =>
      (withTexts read value).bind fun v => (itemsWithTexts read rest).map fun vs => v :: vs

/-- The members with their names and texts replaced. -/
def Value.fieldsWithTexts (read : String → Option String) :
    List (String × Value) → Option (List (String × Value))
  | [] => some []
  | (key, value) :: rest =>
      (read key).bind fun name => (withTexts read value).bind fun v =>
        (fieldsWithTexts read rest).map fun vs => (name, v) :: vs

end

mutual

/-- The string values of a document. -/
def Value.documentTexts : Value → List String
  | .str text => [text]
  | .list items => itemTexts items
  | .dict fields => fieldTexts fields
  | _ => []

/-- The string values of the items. -/
def Value.itemTexts : List Value → List String
  | [] => []
  | value :: rest => documentTexts value ++ itemTexts rest

/-- The string values of the members. -/
def Value.fieldTexts : List (String × Value) → List String
  | [] => []
  | (_, value) :: rest => documentTexts value ++ fieldTexts rest

end

mutual

/-- The names of the members of a document, at all depths. -/
def Value.documentNames : Value → List String
  | .list items => itemNames items
  | .dict fields => fieldNames fields
  | _ => []

/-- The names inside the items. -/
def Value.itemNames : List Value → List String
  | [] => []
  | value :: rest => documentNames value ++ itemNames rest

/-- The names of the members and those inside them. -/
def Value.fieldNames : List (String × Value) → List String
  | [] => []
  | (key, value) :: rest => key :: (documentNames value ++ fieldNames rest)

end

private theorem fill_plainTokens {write : String → List Char} (text : List Char) :
    Quoted.fill '"' write (plainTokens text) = text :=
  Quoted.fill_map_inl text

private theorem skipSpace_of_head {c : Char} (h : isJsonSpace c = false) (rest : List Char) :
    skipSpace (c :: rest) = c :: rest := by
  rw [skipSpace, List.dropWhile_cons_of_neg (by simp [h])]

private theorem skipSpace_lineBreak (depth : Nat) (rest : List Char) :
    skipSpace (lineBreak depth ++ rest) = skipSpace rest := by
  have hspaces : ∀ c ∈ lineBreak depth, isJsonSpace c = true := by
    intro c hc
    rcases List.mem_cons.mp hc with rfl | hc
    · rfl
    · rw [List.eq_of_mem_replicate hc]
      rfl
  rw [skipSpace, List.dropWhile_append_of_pos hspaces, ← skipSpace]

private theorem expect_of_head {mark c : Char} (hspace : isJsonSpace c = false) (rest : List Char) :
    expect mark (c :: rest) = if mark = c then some rest else none := by
  rw [expect, skipSpace_of_head hspace]
  rfl

private theorem expect_lineBreak (mark : Char) (depth : Nat) (rest : List Char) :
    expect mark (lineBreak depth ++ rest) = expect mark rest := by
  rw [expect, skipSpace_lineBreak, ← expect]

section

variable {sp : FloatSpelling} {write : String → List Char} {read : String → Option String}

variable (write) in
/-- How a value starts. -/
theorem documentTokens_head (hsp : sp.Lawful) {v : Value} (hv : v.Document) (depth : Nat) :
    ∃ c rest, Quoted.fill '"' write (v.documentTokens sp depth) = c :: rest ∧
      isJsonSpace c = false ∧ c ≠ ']' := by
  have hnumber : ∀ number : List Char, isJsonNumber number = true →
      ∃ c rest, number = c :: rest ∧ isJsonSpace c = false ∧ c ≠ ']' := by
    intro number hnumber
    cases number with
    | nil => cases hnumber
    | cons c rest =>
        refine ⟨c, rest, rfl, ?_⟩
        rcases isJsonNumber_head hnumber with hdigit | rfl
        · constructor
          · by_contra hspace
            rw [Bool.not_eq_false] at hspace
            simp only [isJsonSpace, Bool.or_eq_true, beq_iff_eq] at hspace
            rcases hspace with ((rfl | rfl) | rfl) | rfl <;>
              · revert hdigit
                decide
          · rintro rfl
            revert hdigit
            decide
        · decide
  cases v with
  | none => exact ⟨'n', _, rfl, rfl, by decide⟩
  | bool b =>
      cases b with
      | true => exact ⟨'t', _, rfl, rfl, by decide⟩
      | false => exact ⟨'f', _, rfl, rfl, by decide⟩
  | int z =>
      rw [Value.documentTokens, fill_plainTokens]
      exact hnumber _ (isJsonNumber_intText z)
  | float x =>
      cases x with
      | finite q =>
          rw [Value.documentTokens, fill_plainTokens]
          exact hnumber _ (hsp.number q)
      | _ => exact hv.elim
  | str text => exact ⟨'"', _, rfl, rfl, by decide⟩
  | list items => exact ⟨'[', _, rfl, rfl, by decide⟩
  | dict fields => exact ⟨'\x7b', _, rfl, rfl, by decide⟩
  | foreign name text repr => exact hv.elim

variable (write) in
private theorem skipSpace_documentTokens (hsp : sp.Lawful) {v : Value} (hv : v.Document)
    (depth : Nat)
    (rest : List Char) :
    skipSpace (Quoted.fill '"' write (v.documentTokens sp depth) ++ rest) =
      Quoted.fill '"' write (v.documentTokens sp depth) ++ rest := by
  rcases documentTokens_head write hsp hv depth with ⟨c, tail, htext, hspace, _⟩
  rw [htext, List.cons_append, skipSpace_of_head hspace]

/-- What follows an item of a list. -/
theorem itemTokens_cases (depth : Nat) (items : List Value) :
    Quoted.fill '"' write (Value.itemTokens sp depth false items) =
      match items with
      | [] => lineBreak depth ++ [']']
      | value :: rest =>
          ',' :: (lineBreak (depth + 1) ++
            (Quoted.fill '"' write (value.documentTokens sp (depth + 1)) ++
              Quoted.fill '"' write (Value.itemTokens sp depth false rest))) := by
  cases items with
  | nil => rw [Value.itemTokens, fill_plainTokens, if_neg Bool.false_ne_true]
  | cons value rest =>
      rw [Value.itemTokens, Quoted.fill_append, Quoted.fill_append, fill_plainTokens,
        if_neg Bool.false_ne_true]
      rfl

/-- What follows a member of an object. -/
theorem fieldTokens_cases (depth : Nat) (fields : List (String × Value)) :
    Quoted.fill '"' write (Value.fieldTokens sp depth false fields) =
      match fields with
      | [] => lineBreak depth ++ ['\x7d']
      | (key, value) :: rest =>
          ',' :: (lineBreak (depth + 1) ++ ('"' :: (write key ++ '"' :: ':' :: ' ' ::
            (Quoted.fill '"' write (value.documentTokens sp (depth + 1)) ++
              Quoted.fill '"' write (Value.fieldTokens sp depth false rest))))) := by
  cases fields with
  | nil => rw [Value.fieldTokens, fill_plainTokens, if_neg Bool.false_ne_true]
  | cons field rest =>
      rcases field with ⟨key, value⟩
      rw [Value.fieldTokens, Quoted.fill_append, Quoted.fill, Quoted.fill_append,
        Quoted.fill_append, fill_plainTokens, fill_plainTokens, if_neg Bool.false_ne_true]
      rfl

private theorem ends_itemTokens (depth : Nat) (items : List Value) (rest : List Char) :
    SelfDelimiting.Ends isNumberChar
      (Quoted.fill '"' write (Value.itemTokens sp depth false items) ++ rest) := by
  intro c text h
  rw [itemTokens_cases] at h
  cases items with
  | nil =>
      cases h
      rfl
  | cons value items =>
      cases h
      rfl

private theorem ends_fieldTokens (depth : Nat) (fields : List (String × Value)) (rest : List Char) :
    SelfDelimiting.Ends isNumberChar
      (Quoted.fill '"' write (Value.fieldTokens sp depth false fields) ++ rest) := by
  intro c text h
  rw [fieldTokens_cases] at h
  cases fields with
  | nil =>
      cases h
      rfl
  | cons field fields =>
      rcases field with ⟨key, value⟩
      cases h
      rfl

variable (sp) (write) in
private theorem length_itemTokens_pos (depth : Nat) (items : List Value) :
    0 < (Quoted.fill '"' write (Value.itemTokens sp depth false items)).length := by
  rw [itemTokens_cases]
  cases items <;> simp

variable (sp) (write) in
private theorem length_fieldTokens_pos (depth : Nat) (fields : List (String × Value)) :
    0 < (Quoted.fill '"' write (Value.fieldTokens sp depth false fields)).length := by
  rw [fieldTokens_cases]
  cases fields <;> simp

end

section

variable {sp : FloatSpelling} {write : String → List Char} {read : String → Option String}

mutual

/-- A value with other texts in its strings is read back with these texts. -/
theorem readValue_documentTokens (hsp : sp.Lawful)
    (hread : ∀ text rest, readString (write text ++ '"' :: rest).length
      (write text ++ '"' :: rest) = (read text).map fun t => (t.toList, rest)) :
    ∀ v : Value, v.Document → ∀ (depth fuel : Nat) (rest : List Char),
      (Quoted.fill '"' write (v.documentTokens sp depth)).length ≤ fuel →
      SelfDelimiting.Ends isNumberChar rest →
      readValue sp fuel (Quoted.fill '"' write (v.documentTokens sp depth) ++ rest) =
        (v.withTexts read).map fun v' => (v', rest)
  | .foreign _ _ _, hv, _, _, _, _, _ => hv.elim
  | .float .posInf, hv, _, _, _, _, _ => hv.elim
  | .float .negInf, hv, _, _, _, _, _ => hv.elim
  | .float .nan, hv, _, _, _, _, _ => hv.elim
  | v, hv, depth, 0, rest, hfuel, _ => by
      rcases documentTokens_head write hsp hv depth with ⟨c, tail, htext, _⟩
      rw [htext, List.length_cons] at hfuel
      omega
  | .none, _, depth, fuel + 1, rest, _, _ => by
      rw [Value.documentTokens, fill_plainTokens]
      rfl
  | .bool b, _, depth, fuel + 1, rest, _, _ => by
      rw [Value.documentTokens, fill_plainTokens]
      cases b <;> rfl
  | .int z, _, depth, fuel + 1, rest, _, hends => by
      have hchars : ∀ c ∈ (toString z).toList, isNumberChar c = true := by
        intro c hc
        rcases intText_chars z c hc with h | rfl
        · exact isNumberChar_of_digit h
        · rfl
      rw [Value.documentTokens, fill_plainTokens,
        readValue_number (isJsonNumber_intText z) hchars hends, numberValue_intText]
      rfl
  | .float (.finite q), _, depth, fuel + 1, rest, _, hends => by
      rw [Value.documentTokens, fill_plainTokens,
        readValue_number (hsp.number q) (hsp.chars q) hends, numberValue_float hsp]
      rfl
  | .str text, _, depth, fuel + 1, rest, _, _ => by
      rw [Value.documentTokens, Quoted.fill, Quoted.fill, List.cons_append, readValue, if_pos rfl,
        List.append_assoc, List.cons_append, List.nil_append, hread, Value.withTexts]
      cases read text with
      | none => rfl
      | some t => simp
  | .list [], _, depth, fuel + 1, rest, _, _ => by
      rw [Value.documentTokens, Quoted.fill, Value.itemTokens, fill_plainTokens]
      rfl
  | .list (value :: items), hv, depth, fuel + 1, rest, hfuel, _ => by
      rw [Value.documentTokens, Quoted.fill, Value.itemTokens, Quoted.fill_append,
        Quoted.fill_append, fill_plainTokens, if_pos rfl, List.nil_append] at hfuel ⊢
      rw [List.length_cons, List.length_append] at hfuel
      have hitems := readItems_itemTokens hsp hread (value :: items) hv value items rfl depth fuel
        rest (by omega)
      rcases documentTokens_head write hsp hv.1 (depth + 1) with
        ⟨c, tail, htext, hspace, hbracket⟩
      have hfirst : expect ']' (lineBreak (depth + 1) ++
          (Quoted.fill '"' write (value.documentTokens sp (depth + 1)) ++
            Quoted.fill '"' write (Value.itemTokens sp depth false items)) ++ rest) = none := by
        rw [List.append_assoc, expect_lineBreak, htext, List.cons_append, List.cons_append,
          expect_of_head hspace, if_neg (Ne.symm hbracket)]
      rw [List.cons_append, readValue, if_neg (by decide), if_pos rfl, hfirst]
      dsimp only
      rw [List.append_assoc, skipSpace_lineBreak, List.append_assoc,
        skipSpace_documentTokens write hsp hv.1, hitems, Value.withTexts, Option.map_map,
        Option.map_map]
      rfl
  | .dict [], _, depth, fuel + 1, rest, _, _ => by
      rw [Value.documentTokens, Quoted.fill, Value.fieldTokens, fill_plainTokens]
      rfl
  | .dict ((key, value) :: fields), hv, depth, fuel + 1, rest, hfuel, _ => by
      rw [Value.documentTokens, Quoted.fill, Value.fieldTokens, Quoted.fill_append, Quoted.fill,
        Quoted.fill_append, Quoted.fill_append, fill_plainTokens, fill_plainTokens, if_pos rfl,
        List.nil_append] at hfuel ⊢
      have hmembers := readMembers_fieldTokens hsp hread ((key, value) :: fields) hv key value
        fields rfl depth fuel rest (by
          simp only [List.length_cons, List.length_append, List.length_nil] at hfuel ⊢
          omega)
      rw [List.cons_append, readValue, if_neg (by decide), if_neg (by decide), if_pos rfl,
        List.append_assoc, expect_lineBreak, skipSpace_lineBreak, List.cons_append,
        expect_of_head rfl, if_neg (by decide), skipSpace_of_head rfl]
      simp only [List.append_assoc, List.cons_append, List.nil_append] at hmembers ⊢
      rw [hmembers, Value.withTexts, Option.map_map, Option.map_map]
      rfl

private theorem readItems_itemTokens (hsp : sp.Lawful)
    (hread : ∀ text rest, readString (write text ++ '"' :: rest).length
      (write text ++ '"' :: rest) = (read text).map fun t => (t.toList, rest)) :
    ∀ all : List Value, Value.DocumentItems all → ∀ value items, all = value :: items →
      ∀ (depth fuel : Nat) (rest : List Char),
      (Quoted.fill '"' write (value.documentTokens sp (depth + 1)) ++
        Quoted.fill '"' write (Value.itemTokens sp depth false items)).length ≤ fuel →
      readItems sp fuel (Quoted.fill '"' write (value.documentTokens sp (depth + 1)) ++
        (Quoted.fill '"' write (Value.itemTokens sp depth false items) ++ rest)) =
          (Value.itemsWithTexts read all).map fun vs => (vs, rest)
  | [], _, _, _, hall, _, _, _, _ => by cases hall
  | value :: items, hdoc, _, _, rfl, depth, 0, rest, hfuel => by
      have hpos := length_itemTokens_pos sp write depth items
      rw [List.length_append] at hfuel
      omega
  | value :: items, hdoc, _, _, rfl, depth, fuel + 1, rest, hfuel => by
      have hpos := length_itemTokens_pos sp write depth items
      rw [List.length_append] at hfuel
      have hvalue := readValue_documentTokens hsp hread value hdoc.1 (depth + 1) fuel
        (Quoted.fill '"' write (Value.itemTokens sp depth false items) ++ rest) (by omega)
        (ends_itemTokens depth items rest)
      rw [readItems, hvalue, Value.itemsWithTexts]
      cases hfirst : value.withTexts read with
      | none => rfl
      | some v =>
          rw [itemTokens_cases]
          cases items with
          | nil =>
              simp only [Option.map_some, Option.bind_some, List.append_assoc, expect_lineBreak,
                List.cons_append, List.nil_append]
              rw [expect_of_head rfl, expect_of_head rfl]
              rfl
          | cons next items =>
              rw [itemTokens_cases] at hfuel
              have hitems := readItems_itemTokens hsp hread (next :: items) hdoc.2 next items rfl
                depth fuel rest (by
                  simp only [List.length_cons, List.length_append] at hfuel ⊢
                  omega)
              simp only [Option.map_some, Option.bind_some, List.cons_append]
              rw [expect_of_head rfl, if_pos rfl]
              dsimp only
              rw [List.append_assoc, skipSpace_lineBreak, List.append_assoc,
                skipSpace_documentTokens write hsp hdoc.2.1, hitems, Option.map_map, Option.map_map]
              rfl

private theorem readMembers_fieldTokens (hsp : sp.Lawful)
    (hread : ∀ text rest, readString (write text ++ '"' :: rest).length
      (write text ++ '"' :: rest) = (read text).map fun t => (t.toList, rest)) :
    ∀ all : List (String × Value), Value.DocumentFields all →
      ∀ key value fields, all = (key, value) :: fields →
      ∀ (depth fuel : Nat) (rest : List Char),
      ('"' :: (write key ++ '"' :: ':' :: ' ' ::
        (Quoted.fill '"' write (value.documentTokens sp (depth + 1)) ++
          Quoted.fill '"' write (Value.fieldTokens sp depth false fields)))).length ≤ fuel →
      readMembers sp fuel ('"' :: (write key ++ '"' :: ':' :: ' ' ::
        (Quoted.fill '"' write (value.documentTokens sp (depth + 1)) ++
          (Quoted.fill '"' write (Value.fieldTokens sp depth false fields) ++ rest)))) =
            (Value.fieldsWithTexts read all).map fun vs => (vs, rest)
  | [], _, _, _, _, hall, _, _, _, _ => by cases hall
  | (key, value) :: fields, hdoc, _, _, _, rfl, depth, 0, rest, hfuel => by
      rw [List.length_cons] at hfuel
      omega
  | (key, value) :: fields, hdoc, _, _, _, rfl, depth, fuel + 1, rest, hfuel => by
      have hpos := length_fieldTokens_pos sp write depth fields
      simp only [List.length_cons, List.length_append] at hfuel
      have hvalue := readValue_documentTokens hsp hread value hdoc.1 (depth + 1) fuel
        (Quoted.fill '"' write (Value.fieldTokens sp depth false fields) ++ rest) (by omega)
        (ends_fieldTokens depth fields rest)
      rw [readMembers, expect_of_head rfl, if_pos rfl]
      dsimp only
      rw [hread, Value.fieldsWithTexts]
      cases hkey : read key with
      | none => rfl
      | some name =>
          simp only [Option.map_some, Option.bind_some]
          rw [expect_of_head rfl, if_pos rfl]
          dsimp only
          rw [← List.singleton_append, skipSpace,
            List.dropWhile_append_of_pos (by simp [isJsonSpace]),
            ← skipSpace, skipSpace_documentTokens write hsp hdoc.1, hvalue]
          cases hfirst : value.withTexts read with
          | none => rfl
          | some v =>
              rw [fieldTokens_cases]
              cases fields with
              | nil =>
                  simp only [Option.map_some, Option.bind_some, List.append_assoc,
                    expect_lineBreak, List.cons_append, List.nil_append]
                  rw [expect_of_head rfl, expect_of_head rfl]
                  simp [Value.fieldsWithTexts]
              | cons next fields =>
                  rcases next with ⟨nextKey, next⟩
                  rw [fieldTokens_cases] at hfuel
                  have hmembers := readMembers_fieldTokens hsp hread ((nextKey, next) :: fields)
                    hdoc.2 nextKey next fields rfl depth fuel rest (by
                      simp only [List.length_cons, List.length_append] at hfuel ⊢
                      omega)
                  simp only [Option.map_some, Option.bind_some, List.cons_append]
                  rw [expect_of_head rfl, if_pos rfl]
                  dsimp only
                  rw [List.append_assoc, skipSpace_lineBreak, List.cons_append,
                    skipSpace_of_head rfl]
                  simp only [List.append_assoc, List.cons_append] at hmembers ⊢
                  rw [hmembers, Option.map_map, Option.map_map, String.ofList_toList]
                  rfl

end

/-- A document with other texts in its strings is read back with these texts. -/
theorem parseJson_fill (hsp : sp.Lawful)
    (hread : ∀ text rest, readString (write text ++ '"' :: rest).length
      (write text ++ '"' :: rest) = (read text).map fun t => (t.toList, rest))
    {v : Value} (hv : v.Document) :
    parseJson sp (Quoted.fill '"' write (v.documentTokens sp 0)) = v.withTexts read := by
  have hspace := skipSpace_documentTokens write hsp hv 0 []
  have hvalue := readValue_documentTokens hsp hread v hv 0
    ((Quoted.fill '"' write (v.documentTokens sp 0)).length + 1) [] (Nat.le_succ _)
    (fun c rest h => nomatch h)
  rw [List.append_nil] at hspace hvalue
  rw [parseJson, hspace, hvalue]
  cases v.withTexts read with
  | none => rfl
  | some v' => rfl

end

/-! ## No quote outside the holes -/

private theorem plainTokens_free {text : List Char} (h : '"' ∉ text) :
    ∀ c, .inl c ∈ plainTokens text → c ≠ '"' := by
  intro c hc
  rcases List.mem_map.mp hc with ⟨d, hd, heq⟩
  cases heq
  exact ne_of_mem_of_not_mem hd h

private theorem quote_notMem_lineBreak (depth : Nat) : '"' ∉ lineBreak depth := by
  intro hmem
  rcases List.mem_cons.mp hmem with h | h
  · exact absurd h (by decide)
  · exact absurd (List.eq_of_mem_replicate h) (by decide)

private theorem quote_notMem_of_numberChars {text : List Char}
    (h : ∀ c ∈ text, isNumberChar c = true) : '"' ∉ text := fun hmem =>
  absurd (h '"' hmem) (by decide)

section

variable {sp : FloatSpelling}

mutual

/-- The text of a document has quotes around its strings only. -/
theorem documentTokens_free (hsp : sp.Lawful) :
    ∀ v : Value, v.Document → ∀ (depth : Nat) (c : Char),
    .inl c ∈ v.documentTokens sp depth → c ≠ '"'
  | .none, _, _ => plainTokens_free (by decide)
  | .bool b, _, _ => plainTokens_free (by cases b <;> decide)
  | .int z, _, _ => plainTokens_free (quote_notMem_of_numberChars fun c hc => by
      rcases intText_chars z c hc with h | rfl
      · exact isNumberChar_of_digit h
      · rfl)
  | .float (.finite q), _, _ => plainTokens_free (quote_notMem_of_numberChars (hsp.chars q))
  | .float .posInf, hv, _ => hv.elim
  | .float .negInf, hv, _ => hv.elim
  | .float .nan, hv, _ => hv.elim
  | .str text, _, _ => fun c hc => by
      rw [Value.documentTokens, List.mem_singleton] at hc
      cases hc
  | .list items, hv, depth => fun c hc => by
      rw [Value.documentTokens, List.mem_cons] at hc
      rcases hc with heq | hc
      · cases heq
        decide
      · exact itemTokens_free hsp items hv depth true c hc
  | .dict fields, hv, depth => fun c hc => by
      rw [Value.documentTokens, List.mem_cons] at hc
      rcases hc with heq | hc
      · cases heq
        decide
      · exact fieldTokens_free hsp fields hv depth true c hc
  | .foreign _ _ _, hv, _ => hv.elim

private theorem itemTokens_free (hsp : sp.Lawful) :
    ∀ items : List Value, Value.DocumentItems items →
    ∀ (depth : Nat) (first : Bool) (c : Char),
      .inl c ∈ Value.itemTokens sp depth first items → c ≠ '"'
  | [], _, depth, first => by
      rw [Value.itemTokens]
      refine plainTokens_free (List.not_mem_append ?_ (by decide))
      cases first with
      | true => exact List.not_mem_nil
      | false => exact quote_notMem_lineBreak depth
  | value :: items, hdoc, depth, first => by
      intro c hc
      rw [Value.itemTokens, List.mem_append, List.mem_append] at hc
      rcases hc with hc | hc | hc
      · refine plainTokens_free (List.not_mem_append ?_ (quote_notMem_lineBreak _)) c hc
        cases first <;> decide
      · exact documentTokens_free hsp value hdoc.1 _ c hc
      · exact itemTokens_free hsp items hdoc.2 depth false c hc

private theorem fieldTokens_free (hsp : sp.Lawful) : ∀ fields : List (String × Value),
    Value.DocumentFields fields → ∀ (depth : Nat) (first : Bool) (c : Char),
      .inl c ∈ Value.fieldTokens sp depth first fields → c ≠ '"'
  | [], _, depth, first => by
      rw [Value.fieldTokens]
      refine plainTokens_free (List.not_mem_append ?_ (by decide))
      cases first with
      | true => exact List.not_mem_nil
      | false => exact quote_notMem_lineBreak depth
  | (key, value) :: fields, hdoc, depth, first => by
      intro c hc
      rw [Value.fieldTokens, List.mem_append, List.mem_cons, List.mem_append, List.mem_append] at hc
      rcases hc with hc | hc | hc | hc | hc
      · refine plainTokens_free (List.not_mem_append ?_ (quote_notMem_lineBreak _)) c hc
        cases first <;> decide
      · cases hc
      · exact plainTokens_free (by decide) c hc
      · exact documentTokens_free hsp value hdoc.1 _ c hc
      · exact fieldTokens_free hsp fields hdoc.2 depth false c hc

end

end

/-! ## No asterisk outside the strings -/

/-- Where a character of a JSON text stands. -/
inductive TextPlace where
  | outside
  | inside
  | escaped

/-- The text has an asterisk outside its strings, from a place on. -/
def starOutside : TextPlace → List Char → Bool
  | _, [] => false
  | .outside, c :: rest =>
      if c = '"' then starOutside .inside rest else c == '*' || starOutside .outside rest
  | .inside, c :: rest =>
      if c = '"' then starOutside .outside rest
      else if c = '\\' then starOutside .escaped rest
      else starOutside .inside rest
  | .escaped, _ :: rest => starOutside .inside rest

/-- Outside strings, text without quotes shows its own stars. -/
theorem starOutside_outside_append {plain : List Char} (h : ∀ c ∈ plain, c ≠ '"')
    (rest : List Char) :
    starOutside .outside (plain ++ rest) = (plain.contains '*' || starOutside .outside rest) := by
  induction plain with
  | nil => rfl
  | cons c plain ih =>
      rw [List.forall_mem_cons] at h
      rw [List.cons_append, starOutside, if_neg h.1, ih h.2, List.contains_cons, Bool.or_assoc,
        Bool.beq_comm]

/-- Inside a string, text without quotes and backslashes shows none. -/
theorem starOutside_inside_append (plain : List Char)
    (h : ∀ c ∈ plain, c ≠ '"' ∧ c ≠ '\\') (rest : List Char) :
    starOutside .inside (plain ++ rest) = starOutside .inside rest := by
  induction plain with
  | nil => rfl
  | cons c plain ih =>
      rw [List.forall_mem_cons] at h
      rw [List.cons_append, starOutside, if_neg h.1.1, if_neg h.1.2, ih h.2]

private theorem starOutside_dropWhile (run : Char → Bool) (hquote : run '"' = false)
    (hstar : run '*' = false) (text : List Char) :
    starOutside .outside (text.dropWhile run) = starOutside .outside text := by
  induction text with
  | nil => rfl
  | cons c text ih =>
      cases hrun : run c with
      | false => rw [List.dropWhile_cons_of_neg (by simp [hrun])]
      | true =>
          have hne : c ≠ '"' := by
            rintro rfl
            rw [hquote] at hrun
            cases hrun
          have hstarless : (c == '*') = false := by
            rw [beq_eq_false_iff_ne]
            rintro rfl
            rw [hstar] at hrun
            cases hrun
          rw [List.dropWhile_cons_of_pos hrun, ih, starOutside, if_neg hne, hstarless,
            Bool.false_or]

/-- Skipping white space hides no star. -/
@[simp]
theorem starOutside_skipSpace (text : List Char) :
    starOutside .outside (skipSpace text) = starOutside .outside text :=
  starOutside_dropWhile isJsonSpace rfl rfl text

private theorem starOutside_expect {mark : Char} {text rest : List Char}
    (h : expect mark text = some rest) :
    starOutside .outside text = starOutside .outside (mark :: rest) := by
  rw [expect, stripLiteral_eq_some_iff] at h
  rw [← starOutside_skipSpace text, h]
  rfl

private theorem starOutside_cons {mark : Char} (hquote : mark ≠ '"') (hstar : mark ≠ '*')
    (text : List Char) : starOutside .outside (mark :: text) = starOutside .outside text := by
  rw [starOutside, if_neg hquote, beq_eq_false_iff_ne.mpr hstar, Bool.false_or]

private theorem starOutside_mark {mark : Char} {text rest : List Char} (hquote : mark ≠ '"')
    (hstar : mark ≠ '*') (h : expect mark text = some rest) :
    starOutside .outside text = starOutside .outside rest := by
  rw [starOutside_expect h, starOutside_cons hquote hstar]

private theorem hexDigit?_ne_quote {c : Char} {n : Nat} (h : hexDigit? c = some n) :
    c ≠ '"' ∧ c ≠ '\\' := by
  constructor <;>
    · rintro rfl
      revert h
      simp [hexDigit?]

private theorem starOutside_readEscape {text rest : List Char} {letter : Char}
    (h : readEscape text = some (letter, rest)) :
    starOutside .escaped text = starOutside .inside rest := by
  cases text with
  | nil => cases h
  | cons c text =>
      rw [readEscape] at h
      rw [starOutside]
      split at h
      · unfold readUnicode at h
        split at h
        · rename_i a b c d rest'
          split at h
          · rename_i ha hb hc hd
            dsimp only at h
            split at h
            · cases h
            · cases h
              refine starOutside_inside_append [a, b, c, d] ?_ rest
              simp only [List.forall_mem_cons, List.not_mem_nil, false_imp_iff, implies_true,
                and_true]
              exact ⟨hexDigit?_ne_quote ha, hexDigit?_ne_quote hb, hexDigit?_ne_quote hc,
                hexDigit?_ne_quote hd⟩
          · cases h
        · cases h
      · rcases Option.map_eq_some_iff.mp h with ⟨found, _, heq⟩
        cases heq
        rfl

private theorem starOutside_readString {fuel : Nat} {text rest s : List Char}
    (h : readString fuel text = some (s, rest)) :
    starOutside .inside text = starOutside .outside rest := by
  induction fuel generalizing text s with
  | zero => cases h
  | succ fuel ih =>
      cases text with
      | nil => cases h
      | cons c text =>
          rw [readString] at h
          rw [starOutside]
          split at h
          · rename_i hquote
            cases h
            rw [if_pos hquote]
          · rename_i hquote
            rw [if_neg hquote]
            split at h
            · rename_i hslash
              rw [if_pos hslash]
              split at h
              · cases h
              · rename_i letter rest' hescape
                rcases Option.map_eq_some_iff.mp h with ⟨p, hp, heq⟩
                cases heq
                rw [starOutside_readEscape hescape, ih hp]
            · rename_i hslash
              rw [if_neg hslash]
              split at h
              · cases h
              · rcases Option.map_eq_some_iff.mp h with ⟨p, hp, heq⟩
                cases heq
                exact ih hp

private theorem starOutside_readName {name : String} {v v' : Value} {text rest : List Char}
    (hname : '"' ∉ name.toList ∧ '*' ∉ name.toList)
    (h : readName name v text = some (v', rest)) :
    starOutside .outside text = starOutside .outside rest := by
  rcases Option.map_eq_some_iff.mp h with ⟨found, hfound, heq⟩
  cases heq
  rw [stripLiteral_eq_some_iff.mp hfound,
    starOutside_outside_append fun c hc => ne_of_mem_of_not_mem hc hname.1]
  have hstar : name.toList.contains '*' = false := by
    rw [List.contains_eq_mem, decide_eq_false_iff_not]
    exact hname.2
  rw [hstar, Bool.false_or]

private theorem starOutside_readNumber {sp : FloatSpelling} {v : Value} {text rest : List Char}
    (h : readNumber sp text = some (v, rest)) :
    starOutside .outside text = starOutside .outside rest := by
  rw [readNumber] at h
  split at h
  · cases h
    rw [starOutside_dropWhile _ rfl rfl]
  · cases h

/-- The reader passes no asterisk outside of strings. -/
def PassesNoStar {α : Type} (read : List Char → Option (α × List Char)) : Prop :=
  ∀ text found rest, read text = some (found, rest) →
    starOutside .outside text = starOutside .outside rest

/-- The map of a read is a read of as much text. -/
theorem starOutside_map {α β : Type} {read : List Char → Option (α × List Char)} {g : α → β}
    (hread : PassesNoStar read) {text rest : List Char} {found : β}
    (h : (read (skipSpace text)).map (fun p => (g p.1, p.2)) = some (found, rest)) :
    starOutside .outside text = starOutside .outside rest := by
  rcases Option.map_eq_some_iff.mp h with ⟨p, hp, heq⟩
  cases heq
  rw [← starOutside_skipSpace, hread _ _ _ hp]

/-- What is between two brackets: nothing, or what the reader finds. -/
theorem starOutside_between {α : Type} {read : List Char → Option (α × List Char)}
    (hread : PassesNoStar read) {close : Char} (hquote : close ≠ '"') (hstar : close ≠ '*')
    {empty found : Value} {g : α → Value} {text rest : List Char}
    (h : (match expect close text with
      | some rest' => some (empty, rest')
      | none => (read (skipSpace text)).map fun p => (g p.1, p.2)) = some (found, rest)) :
    starOutside .outside text = starOutside .outside rest := by
  split at h
  · rename_i hclose
    cases h
    exact starOutside_mark hquote hstar hclose
  · exact starOutside_map hread h

/-- What follows an item: a comma and the further items, or the closing bracket. -/
theorem starOutside_further {α : Type} {read : List Char → Option (List α × List Char)}
    (hread : PassesNoStar read) {close : Char} (hquote : close ≠ '"') (hstar : close ≠ '*')
    {item : α} {found : List α} {text rest : List Char}
    (h : (match expect ',' text with
      | some rest' => (read (skipSpace rest')).map fun p => (item :: p.1, p.2)
      | none => (expect close text).map fun rest' => ([item], rest')) = some (found, rest)) :
    starOutside .outside text = starOutside .outside rest := by
  split at h
  · rename_i hcomma
    rw [starOutside_mark (by decide) (by decide) hcomma]
    exact starOutside_map hread h
  · rcases Option.map_eq_some_iff.mp h with ⟨last, hclose, heq⟩
    cases heq
    exact starOutside_mark hquote hstar hclose

private theorem readValue_passesNoStar {sp : FloatSpelling} {fuel : Nat}
    (hitems : PassesNoStar (readItems sp fuel)) (hmembers : PassesNoStar (readMembers sp fuel)) :
    PassesNoStar (readValue sp (fuel + 1)) := by
  intro text v rest h
  cases text with
  | nil => cases h
  | cons c text =>
      rw [readValue] at h
      split at h
      · rename_i hc
        rcases Option.map_eq_some_iff.mp h with ⟨p, hp, heq⟩
        cases heq
        rw [starOutside, if_pos hc, starOutside_readString hp]
      split at h
      · rename_i hc
        rw [hc, starOutside_cons (by decide) (by decide)]
        exact starOutside_between hitems (by decide) (by decide) h
      split at h
      · rename_i hc
        rw [hc, starOutside_cons (by decide) (by decide)]
        exact starOutside_between hmembers (by decide) (by decide) h
      split at h
      · rename_i hc
        rw [hc, starOutside_cons (by decide) (by decide)]
        exact starOutside_readName (by decide) h
      split at h
      · rename_i hc
        rw [hc, starOutside_cons (by decide) (by decide)]
        exact starOutside_readName (by decide) h
      split at h
      · rename_i hc
        rw [hc, starOutside_cons (by decide) (by decide)]
        exact starOutside_readName (by decide) h
      · exact starOutside_readNumber h

private theorem readItems_passesNoStar {sp : FloatSpelling} {fuel : Nat}
    (hvalue : PassesNoStar (readValue sp fuel)) (hitems : PassesNoStar (readItems sp fuel)) :
    PassesNoStar (readItems sp (fuel + 1)) := by
  intro text vs rest h
  rw [readItems] at h
  split at h
  · cases h
  · rename_i v rest' hv
    rw [hvalue _ _ _ hv]
    exact starOutside_further hitems (by decide) (by decide) h

private theorem readMembers_passesNoStar {sp : FloatSpelling} {fuel : Nat}
    (hvalue : PassesNoStar (readValue sp fuel)) (hmembers : PassesNoStar (readMembers sp fuel)) :
    PassesNoStar (readMembers sp (fuel + 1)) := by
  intro text kvs rest h
  rw [readMembers] at h
  split at h
  · cases h
  rename_i name hquote
  split at h
  · cases h
  rename_i key rest' hkey
  split at h
  · cases h
  rename_i text' hcolon
  split at h
  · cases h
  rename_i v last hv
  -- The key is a string: its characters are passed inside of the quotes.
  rw [starOutside_expect hquote, starOutside, if_pos rfl, starOutside_readString hkey,
    starOutside_mark (by decide) (by decide) hcolon, ← starOutside_skipSpace, hvalue _ _ _ hv]
  exact starOutside_further hmembers (by decide) (by decide) h

/-- Reading a value, the items of a list or the members of an object passes no asterisk
outside of strings. -/
theorem passesNoStar_read (sp : FloatSpelling) (fuel : Nat) :
    PassesNoStar (readValue sp fuel) ∧ PassesNoStar (readItems sp fuel) ∧
      PassesNoStar (readMembers sp fuel) := by
  induction fuel with
  | zero =>
      exact ⟨fun _ _ _ h => (nomatch h), fun _ _ _ h => (nomatch h), fun _ _ _ h => (nomatch h)⟩
  | succ fuel ih =>
      rcases ih with ⟨hvalue, hitems, hmembers⟩
      exact ⟨readValue_passesNoStar hitems hmembers, readItems_passesNoStar hvalue hitems,
        readMembers_passesNoStar hvalue hmembers⟩

/-- A text that can be read has no asterisk outside its strings. -/
theorem noStar_of_parseJson {sp : FloatSpelling} {text : List Char} {v : Value}
    (h : parseJson sp text = some v) : starOutside .outside text = false := by
  rw [parseJson] at h
  split at h
  · cases h
  · rename_i v' rest hvalue
    split at h
    · rename_i hrest
      rw [← starOutside_skipSpace, (passesNoStar_read sp _).1 _ _ _ hvalue,
        ← starOutside_skipSpace, hrest]
      rfl
    · cases h

end EtlTool
