import EtlTool.Core.PythonValues
import EtlTool.Foundations.SelfDelimiting
import Mathlib.Data.List.Sort

/-!
# JSON texts

The text that {lit}`json.dumps` writes: one line of ASCII, with {lit}`", "` and
{lit}`": "` between items, every other character of a string escaped, and objects that
are not JSON replaced by a text.  Two JSON values have the same text only if they are the
same value, spelled the same way; with {lit}`sort_keys` the order of members does not
count.

Main results:

- Theorem {lit}`jsonString_inj`: the text of a string and what follows it are determined.
- Theorem {lit}`jsonText_inj`: the text of a value determines the value.
- Theorem {lit}`jsonText_ascii`: the text is one line of printable ASCII characters.

Current gaps:

- The spelling of floats is the interpreter's; what is used of it are the assumptions
  {lit}`Runtime.FloatTexts`.
-/

namespace EtlTool

/-! ## Strings -/

/-- {lit}`\uXXXX`. -/
def unicodeEscape (n : Nat) : List Char :=
  ['\\', 'u', Nat.digitChar (n / 4096), Nat.digitChar (n / 256 % 16),
    Nat.digitChar (n / 16 % 16), Nat.digitChar (n % 16)]

/-- How {lit}`json.dumps` writes one character of a string; characters outside the basic
plane take two escapes. -/
def escapeChar (c : Char) : List Char :=
  if c = '"' then ['\\', '"']
  else if c = '\\' then ['\\', '\\']
  else if c = '\n' then ['\\', 'n']
  else if c = '\r' then ['\\', 'r']
  else if c = '\t' then ['\\', 't']
  else if c.toNat = 0x0c then ['\\', 'f']
  else if c.toNat = 0x08 then ['\\', 'b']
  else if 0x20 ≤ c.toNat ∧ c.toNat ≤ 0x7e then [c]
  else if c.toNat < 0x10000 then unicodeEscape c.toNat
  else
    unicodeEscape (0xd800 + (c.toNat - 0x10000) / 1024) ++
      unicodeEscape (0xdc00 + (c.toNat - 0x10000) % 1024)

/-- The text of a string. -/
def jsonString (text : String) : List Char :=
  '"' :: (text.toList.flatMap escapeChar ++ ['"'])

/-- The value of a lowercase hexadecimal digit. -/
def hexValue (c : Char) : Nat :=
  if c.toNat < 58 then c.toNat - 48 else c.toNat - 87

/-- The number written by four hexadecimal digits. -/
def hexNumber (a b c d : Char) : Nat :=
  ((hexValue a * 16 + hexValue b) * 16 + hexValue c) * 16 + hexValue d

/-- Read one character of a string. -/
def readChar : List Char → Option (Char × List Char)
  | [] => none
  | '"' :: _ => none
  | '\\' :: 'u' :: a :: b :: c :: d :: rest =>
      let n := hexNumber a b c d
      if 0xd800 ≤ n ∧ n < 0xdc00 then
        match rest with
        | '\\' :: 'u' :: a' :: b' :: c' :: d' :: rest' =>
            some (Char.ofNat (0x10000 + (n - 0xd800) * 1024 + (hexNumber a' b' c' d' - 0xdc00)),
              rest')
        | _ => none
      else some (Char.ofNat n, rest)
  | '\\' :: 'n' :: rest => some ('\n', rest)
  | '\\' :: 'r' :: rest => some ('\r', rest)
  | '\\' :: 't' :: rest => some ('\t', rest)
  | '\\' :: 'f' :: rest => some (Char.ofNat 0x0c, rest)
  | '\\' :: 'b' :: rest => some (Char.ofNat 0x08, rest)
  | '\\' :: c :: rest => some (c, rest)
  | c :: rest => some (c, rest)

private theorem hexValue_digitChar {n : Nat} (h : n < 16) : hexValue (Nat.digitChar n) = n := by
  revert n
  decide

private theorem hexNumber_unicodeEscape {n : Nat} (h : n < 0x10000) :
    hexNumber (Nat.digitChar (n / 4096)) (Nat.digitChar (n / 256 % 16))
      (Nat.digitChar (n / 16 % 16)) (Nat.digitChar (n % 16)) = n := by
  unfold hexNumber
  rw [hexValue_digitChar (by omega), hexValue_digitChar (by omega), hexValue_digitChar (by omega),
    hexValue_digitChar (by omega)]
  omega

private theorem readChar_of_plain {c : Char} (hquote : c ≠ '"') (hslash : c ≠ '\\')
    (rest : List Char) :
    readChar (c :: rest) = some (c, rest) := by
  unfold readChar
  split <;> simp_all

private theorem readChar_unicodeEscape {n : Nat} (hlt : n < 0x10000)
    (hlow : n < 0xd800 ∨ 0xdc00 ≤ n)
    (rest : List Char) : readChar (unicodeEscape n ++ rest) = some (Char.ofNat n, rest) := by
  have hnumber := hexNumber_unicodeEscape hlt
  have hnot : ¬ (0xd800 ≤ n ∧ n < 0xdc00) := by omega
  simp only [unicodeEscape, List.cons_append, List.nil_append, readChar, hnumber, if_neg hnot]

/-- The two escapes of a character outside the basic plane. -/
theorem readChar_surrogates {n : Nat} (hlt : n < 0x100000) (rest : List Char) :
    readChar (unicodeEscape (0xd800 + n / 1024) ++ unicodeEscape (0xdc00 + n % 1024) ++ rest) =
      some (Char.ofNat (0x10000 + n), rest) := by
  have hhigh := hexNumber_unicodeEscape (n := 0xd800 + n / 1024) (by omega)
  have hlow := hexNumber_unicodeEscape (n := 0xdc00 + n % 1024) (by omega)
  have hrange : 0xd800 ≤ 0xd800 + n / 1024 ∧ 0xd800 + n / 1024 < 0xdc00 := by omega
  have hsum : 0x10000 + (0xd800 + n / 1024 - 0xd800) * 1024 + (0xdc00 + n % 1024 - 0xdc00) =
      0x10000 + n := by omega
  simp only [unicodeEscape, List.cons_append, List.nil_append, readChar, hhigh, hlow,
    if_pos hrange, hsum]

/-- One character is read back, whatever follows. -/
theorem readChar_escapeChar : SelfDelimiting.ReadsBack escapeChar readChar := by
  intro c rest
  have hscalar : c.toNat < 0xd800 ∨ 0xdfff < c.toNat ∧ c.toNat < 0x110000 := c.valid
  have hself : Char.ofNat c.toNat = c := c.ofNat_toNat
  by_cases hquote : c = '"'
  · subst hquote
    rfl
  by_cases hslash : c = '\\'
  · subst hslash
    rfl
  by_cases hnewline : c = '\n'
  · subst hnewline
    rfl
  by_cases hreturn : c = '\r'
  · subst hreturn
    rfl
  by_cases htab : c = '\t'
  · subst htab
    rfl
  simp only [escapeChar, hquote, hslash, hnewline, hreturn, htab, if_false]
  split
  · rename_i hfeed
    rw [← hself, hfeed]
    rfl
  split
  · rename_i hback
    rw [← hself, hback]
    rfl
  split
  · exact readChar_of_plain hquote hslash rest
  split
  · rename_i hplane
    rw [readChar_unicodeEscape hplane (by omega), hself]
  · rename_i hplane
    have hsum : 0x10000 + (c.toNat - 0x10000) = c.toNat := by omega
    rw [readChar_surrogates (by omega), hsum, hself]

/-- The text of a string, and what follows it, are determined. -/
theorem jsonString_inj {a b : String} {s t : List Char}
    (h : jsonString a ++ s = jsonString b ++ t) : a = b ∧ s = t := by
  simp only [jsonString, List.cons_append, List.append_assoc, List.nil_append,
    List.cons.injEq, true_and] at h
  rcases SelfDelimiting.flatMap_inj readChar_escapeChar (fun rest => rfl) h with ⟨hsame, hrest⟩
  exact ⟨String.toList_inj.mp hsame, hrest⟩

/-! ## Numbers -/

/-- The characters of numbers. -/
def isNumeralChar (c : Char) : Bool :=
  c.isDigit || ['-', '+', '.', 'e', 'N', 'a', 'I', 'n', 'f', 'i', 't', 'y'].contains c

/-- The names of the floats that are not finite. -/
def floatName : PyFloat → List Char
  | .finite _ => []
  | .posInf => ['I', 'n', 'f', 'i', 'n', 'i', 't', 'y']
  | .negInf => ['-', 'I', 'n', 'f', 'i', 'n', 'i', 't', 'y']
  | .nan => ['N', 'a', 'N']

/-- How {lit}`json.dumps` writes a float. -/
def Runtime.jsonFloat (rt : Runtime) : PyFloat → List Char
  | .finite q => (rt.floatText (.finite q)).toList
  | x => floatName x

/-- What is used of {lit}`float.__repr__`: it distinguishes floats, writes them with
digits, signs, a point and an exponent, and leaves out at most one of the last two. -/
structure Runtime.FloatTexts (rt : Runtime) : Prop where
  injective : ∀ p q : ℚ, rt.floatText (.finite p) = rt.floatText (.finite q) → p = q
  numeral : ∀ q : ℚ, ∀ c ∈ (rt.floatText (.finite q)).toList,
    c.isDigit = true ∨ c = '-' ∨ c = '+' ∨ c = '.' ∨ c = 'e'
  fraction : ∀ q : ℚ, ∃ c ∈ (rt.floatText (.finite q)).toList, c = '.' ∨ c = 'e'

theorem natText_inj {m n : Nat} (h : Nat.toDigits 10 m = Nat.toDigits 10 n) : m = n := by
  rw [← Nat.ofDigitChars_ten_toDigits (n := m), h, Nat.ofDigitChars_ten_toDigits]

/-- The text of an integer: a sign and digits. -/
theorem intText_eq (z : Int) :
    (toString z).toList =
      if 0 ≤ z then Nat.toDigits 10 z.toNat else '-' :: Nat.toDigits 10 (-z).toNat := by
  rw [Int.toString_eq_repr, Int.repr_eq_if]
  split <;> simp

private theorem intText_inj {y z : Int} (h : (toString y).toList = (toString z).toList) :
    y = z := by
  rw [intText_eq, intText_eq] at h
  have hsign : ∀ m n : Nat, Nat.toDigits 10 m ≠ '-' :: Nat.toDigits 10 n := by
    intro m n heq
    have hdigit : ('-' : Char).isDigit = true := by
      refine Nat.isDigit_of_mem_toDigits (b := 10) (n := m) (by decide) (by decide) ?_
      rw [heq]
      exact List.mem_cons_self
    revert hdigit
    decide
  split at h
  · split at h
    · have := natText_inj h
      omega
    · exact absurd h (hsign _ _)
  · split at h
    · exact absurd h.symm (hsign _ _)
    · have := natText_inj (List.cons.inj h).2
      omega

theorem intText_chars (z : Int) : ∀ c ∈ (toString z).toList, c.isDigit = true ∨ c = '-' := by
  intro c hc
  rw [intText_eq] at hc
  split at hc
  · exact Or.inl (Nat.isDigit_of_mem_toDigits (by decide) (by decide) hc)
  · rcases List.mem_cons.mp hc with rfl | hc
    · exact Or.inr rfl
    · exact Or.inl (Nat.isDigit_of_mem_toDigits (by decide) (by decide) hc)

private theorem isNumeralChar_of_float {c : Char}
    (h : c.isDigit = true ∨ c = '-' ∨ c = '+' ∨ c = '.' ∨ c = 'e') : isNumeralChar c = true := by
  rcases h with h | rfl | rfl | rfl | rfl
  · simp [isNumeralChar, h]
  all_goals decide

/-- A float that is not finite has a name, with a capital letter. -/
theorem jsonFloat_cases (rt : Runtime) (x : PyFloat) :
    (∃ q, x = .finite q) ∨ rt.jsonFloat x = floatName x ∧
      ∃ c ∈ floatName x, c = 'I' ∨ c = 'N' := by
  cases x with
  | finite q => exact Or.inl ⟨q, rfl⟩
  | posInf => exact Or.inr ⟨rfl, 'I', by simp [floatName], Or.inl rfl⟩
  | negInf => exact Or.inr ⟨rfl, 'I', by simp [floatName], Or.inl rfl⟩
  | nan => exact Or.inr ⟨rfl, 'N', by simp [floatName], Or.inr rfl⟩

private theorem jsonFloat_numeral {rt : Runtime} (hfloat : rt.FloatTexts) (x : PyFloat) :
    ∀ c ∈ rt.jsonFloat x, isNumeralChar c = true := by
  have hname : ∀ c ∈ floatName x, isNumeralChar c = true := by
    cases x with
    | finite q => exact fun c hc => absurd hc List.not_mem_nil
    | posInf => exact List.all_eq_true.mp rfl
    | negInf => exact List.all_eq_true.mp rfl
    | nan => exact List.all_eq_true.mp rfl
  rcases jsonFloat_cases rt x with ⟨q, rfl⟩ | ⟨hx, _⟩
  · exact fun c hc => isNumeralChar_of_float (hfloat.numeral q c hc)
  · rw [hx]
    exact hname

private theorem intText_numeral (z : Int) : ∀ c ∈ (toString z).toList, isNumeralChar c = true := by
  intro c hc
  rcases intText_chars z c hc with h | h
  · exact isNumeralChar_of_float (Or.inl h)
  · exact isNumeralChar_of_float (Or.inr (Or.inl h))

/-- No finite float is written with a capital letter. -/
theorem floatText_ne_name {rt : Runtime} (hfloat : rt.FloatTexts) (q : ℚ) {text : List Char}
    (h : ∃ c ∈ text, c = 'I' ∨ c = 'N') : rt.jsonFloat (.finite q) ≠ text := by
  intro heq
  rcases h with ⟨c, hc, hcapital⟩
  rw [← heq] at hc
  have hchar := hfloat.numeral q c hc
  rcases hcapital with rfl | rfl
  all_goals
    revert hchar
    decide

private theorem floatName_inj {x y : PyFloat} (h : floatName x = floatName y)
    (hx : ∃ c ∈ floatName x, c = 'I' ∨ c = 'N') : x = y := by
  revert h hx
  cases x with
  | finite q => simp [floatName]
  | _ => cases y <;> simp [floatName]

private theorem jsonFloat_inj {rt : Runtime} (hfloat : rt.FloatTexts) {x y : PyFloat}
    (h : rt.jsonFloat x = rt.jsonFloat y) : x = y := by
  rcases jsonFloat_cases rt x with ⟨p, rfl⟩ | ⟨hx, hcapital⟩
  · rcases jsonFloat_cases rt y with ⟨q, rfl⟩ | ⟨hy, hcapital⟩
    · rw [hfloat.injective p q (String.toList_inj.mp h)]
    · exact absurd (h.trans hy) (floatText_ne_name hfloat p hcapital)
  · rcases jsonFloat_cases rt y with ⟨q, rfl⟩ | ⟨hy, _⟩
    · exact absurd (h.symm.trans hx) (floatText_ne_name hfloat q hcapital)
    · rw [hx, hy] at h
      exact floatName_inj h hcapital

/-- No float is written like an integer. -/
theorem jsonFloat_ne_intText {rt : Runtime} (hfloat : rt.FloatTexts) (x : PyFloat) (z : Int) :
    rt.jsonFloat x ≠ (toString z).toList := by
  intro heq
  have hchar : ∃ c ∈ rt.jsonFloat x, c = '.' ∨ c = 'e' ∨ c = 'I' ∨ c = 'N' := by
    rcases jsonFloat_cases rt x with ⟨q, rfl⟩ | ⟨hx, c, hc, hcapital⟩
    · rcases hfloat.fraction q with ⟨c, hc, hpoint | hexponent⟩
      · exact ⟨c, hc, Or.inl hpoint⟩
      · exact ⟨c, hc, Or.inr (Or.inl hexponent)⟩
    · exact ⟨c, hx ▸ hc, Or.inr (Or.inr hcapital)⟩
  rcases hchar with ⟨c, hc, hkind⟩
  have hint := intText_chars z c (heq ▸ hc)
  rcases hkind with rfl | rfl | rfl | rfl
  all_goals
    revert hint
    decide

/-! ## Values -/

section

variable (rt : Runtime) (onForeign : String → String → String)

mutual

/-- The text of a value, where {lit}`onForeign` gives the replacement of a foreign object
from its {lit}`str` and {lit}`repr`. -/
def Runtime.jsonText : Value → List Char
  | .none => "null".toList
  | .bool b => if b then "true".toList else "false".toList
  | .int z => (toString z).toList
  | .float x => rt.jsonFloat x
  | .str text => jsonString text
  | .list items => '[' :: jsonItems true items
  | .dict fields => '\x7b' :: jsonFields true fields
  | .foreign _ text repr => jsonString (onForeign text repr)

/-- The items of a list and the closing bracket; all but the first after a comma. -/
def Runtime.jsonItems (first : Bool) : List Value → List Char
  | [] => [']']
  | value :: rest =>
      (if first then [] else [',', ' ']) ++ (jsonText value ++ jsonItems false rest)

/-- The members of an object and the closing brace; all but the first after a comma. -/
def Runtime.jsonFields (first : Bool) : List (String × Value) → List Char
  | [] => ['\x7d']
  | (key, value) :: rest =>
      (if first then [] else [',', ' ']) ++
        (jsonString key ++ (':' :: ' ' :: (jsonText value ++ jsonFields false rest)))

end

end

mutual

/-- The value with the members of its objects ordered by key, at every depth. -/
def Value.sortKeys : Value → Value
  | .list items => .list (sortKeysItems items)
  | .dict fields => .dict ((sortKeysFields fields).insertionSort fun a b => a.1 ≤ b.1)
  | value => value

/-- The items with their members ordered. -/
def Value.sortKeysItems : List Value → List Value
  | [] => []
  | value :: rest => value.sortKeys :: sortKeysItems rest

/-- The members with the members of their values ordered. -/
def Value.sortKeysFields : List (String × Value) → List (String × Value)
  | [] => []
  | (key, value) :: rest => (key, value.sortKeys) :: sortKeysFields rest

end

/-- Integers too long for the interpreter are found by {lit}`repr` too. -/
instance (rt : Runtime) : DecidablePred rt.Printable := fun v =>
  decidable_of_iff _ (pyRepr_isSome_iff rt v)

/-- {lit}`json.dumps(value, sort_keys=..., default=...)`: it raises a {lit}`ValueError`
on an integer with too many digits. -/
def Runtime.jsonDumps (rt : Runtime) (sortKeys : Bool) (onForeign : String → String → String)
    (value : Value) : Except PyException String :=
  if rt.Printable value then
    .ok (String.ofList (rt.jsonText onForeign (if sortKeys then value.sortKeys else value)))
  else .error intConversionError

/-! ## What a text determines -/

mutual

/-- A JSON value: no foreign object, no NaN, and no object with a repeated member. -/
def Value.StrictJson : Value → Prop
  | .foreign _ _ _ => False
  | .float x => x ≠ .nan
  | .list items => StrictJsonItems items
  | .dict fields => (fields.map Prod.fst).Nodup ∧ StrictJsonFields fields
  | _ => True

/-- Every item is a JSON value. -/
def Value.StrictJsonItems : List Value → Prop
  | [] => True
  | value :: rest => value.StrictJson ∧ StrictJsonItems rest

/-- Every member is a JSON value. -/
def Value.StrictJsonFields : List (String × Value) → Prop
  | [] => True
  | (_, value) :: rest => value.StrictJson ∧ StrictJsonFields rest

end

/-- The kinds of JSON texts. -/
inductive JsonKind where
  | null
  | bool
  | number
  | string
  | array
  | object
deriving DecidableEq

/-- The kind of the text of a value. -/
def Value.jsonKind : Value → JsonKind
  | .none => .null
  | .bool _ => .bool
  | .int _ => .number
  | .float _ => .number
  | .str _ => .string
  | .list _ => .array
  | .dict _ => .object
  | .foreign _ _ _ => .string

/-- The kind of the texts that start with a character. -/
def kindOfChar (c : Char) : Option JsonKind :=
  if c = 'n' then some .null
  else if c = 't' ∨ c = 'f' then some .bool
  else if c = '"' then some .string
  else if c = '[' then some .array
  else if c = '\x7b' then some .object
  else if isNumeralChar c then some .number
  else none

private theorem kindOfChar_of_float {c : Char}
    (h : c.isDigit = true ∨ c = '-' ∨ c = '+' ∨ c = '.' ∨ c = 'e') :
    kindOfChar c = some .number := by
  rcases h with h | rfl | rfl | rfl | rfl
  · have hne : ∀ d : Char, d.isDigit = false → c ≠ d := by
      rintro d hd rfl
      rw [h] at hd
      cases hd
    simp [kindOfChar, hne 'n' (by decide), hne 't' (by decide), hne 'f' (by decide),
      hne '"' (by decide), hne '[' (by decide), hne '\x7b' (by decide), isNumeralChar, h]
  all_goals decide

private theorem intText_ne_nil (z : Int) : (toString z).toList ≠ [] := by
  rw [intText_eq]
  split
  · exact Nat.toDigits_ne_nil
  · exact List.cons_ne_nil _ _

private theorem ends_of_closing {s : List Char} (c : Char) (h : isNumeralChar c = false) :
    SelfDelimiting.Ends isNumeralChar (c :: s) := by
  intro d rest heq
  rw [← (List.cons.inj heq).1]
  exact h

/-- What follows a value in a list: a comma or the closing bracket. -/
theorem ends_jsonItems (rt : Runtime) (onForeign : String → String → String)
    (items : List Value) (s : List Char) :
    SelfDelimiting.Ends isNumeralChar (rt.jsonItems onForeign false items ++ s) := by
  cases items with
  | nil => exact ends_of_closing ']' (by decide)
  | cons value rest => exact ends_of_closing ',' (by decide)

/-- What follows a value in an object: a comma or the closing brace. -/
theorem ends_jsonFields (rt : Runtime) (onForeign : String → String → String)
    (fields : Fields) (s : List Char) :
    SelfDelimiting.Ends isNumeralChar (rt.jsonFields onForeign false fields ++ s) := by
  cases fields with
  | nil => exact ends_of_closing '\x7d' (by decide)
  | cons field rest => exact ends_of_closing ',' (by decide)

section

variable {rt : Runtime} (hfloat : rt.FloatTexts) (onForeign : String → String → String)

include hfloat

/-- The first character of a text tells its kind. -/
theorem jsonText_head (v : Value) :
    ∃ c rest, rt.jsonText onForeign v = c :: rest ∧ kindOfChar c = some v.jsonKind := by
  cases v with
  | none => exact ⟨'n', _, rfl, rfl⟩
  | bool b =>
      cases b with
      | true => exact ⟨'t', _, rfl, rfl⟩
      | false => exact ⟨'f', _, rfl, rfl⟩
  | int z =>
      rcases List.exists_cons_of_ne_nil (intText_ne_nil z) with ⟨c, rest, htext⟩
      have hc := intText_chars z c (htext ▸ List.mem_cons_self)
      refine ⟨c, rest, htext, kindOfChar_of_float ?_⟩
      rcases hc with hc | hc
      · exact Or.inl hc
      · exact Or.inr (Or.inl hc)
  | float x =>
      cases x with
      | finite q =>
          rcases hfloat.fraction q with ⟨d, hd, _⟩
          rcases List.exists_cons_of_ne_nil (List.ne_nil_of_mem hd) with ⟨c, rest, htext⟩
          have hkind := kindOfChar_of_float (hfloat.numeral q c (htext ▸ List.mem_cons_self))
          exact ⟨c, rest, htext, hkind⟩
      | posInf => exact ⟨'I', _, rfl, rfl⟩
      | negInf => exact ⟨'-', _, rfl, rfl⟩
      | nan => exact ⟨'N', _, rfl, rfl⟩
  | str text => exact ⟨'"', _, rfl, rfl⟩
  | list items => exact ⟨'[', _, rfl, rfl⟩
  | dict fields => exact ⟨'\x7b', _, rfl, rfl⟩
  | foreign name text repr => exact ⟨'"', _, rfl, rfl⟩

private theorem jsonKind_eq {v w : Value} {s t : List Char}
    (h : rt.jsonText onForeign v ++ s = rt.jsonText onForeign w ++ t) :
    v.jsonKind = w.jsonKind := by
  rcases jsonText_head hfloat onForeign v with ⟨c, rest, htext, hkind⟩
  rcases jsonText_head hfloat onForeign w with ⟨d, rest', htext', hkind'⟩
  rw [htext, htext', List.cons_append, List.cons_append, List.cons.injEq] at h
  rw [h.1, hkind'] at hkind
  exact (Option.some.inj hkind).symm

/-- A value does not start like a closing bracket. -/
theorem closing_ne_jsonText (v : Value) (s t : List Char) :
    ']' :: s ≠ rt.jsonText onForeign v ++ t := by
  intro heq
  rcases jsonText_head hfloat onForeign v with ⟨c, rest, htext, hkind⟩
  rw [htext, List.cons_append, List.cons.injEq] at heq
  rw [← heq.1] at hkind
  cases hkind

end

section

variable {rt : Runtime} (onForeign : String → String → String)

mutual

/-- The text of a value determines the value, and what follows it. -/
theorem jsonText_append_inj (hfloat : rt.FloatTexts) :
    ∀ v w : Value, v.StrictJson → w.StrictJson → ∀ s t : List Char,
    SelfDelimiting.Ends isNumeralChar s → SelfDelimiting.Ends isNumeralChar t →
    rt.jsonText onForeign v ++ s = rt.jsonText onForeign w ++ t → v = w ∧ s = t
  | .none, w, _, _, s, t, _, _, h => by
      have hkind := jsonKind_eq hfloat onForeign h
      cases w with
      | none => exact ⟨rfl, List.append_cancel_left h⟩
      | _ => cases hkind
  | .bool b, w, _, _, s, t, _, _, h => by
      have hkind := jsonKind_eq hfloat onForeign h
      cases w with
      | bool b' =>
          cases b <;> cases b'
          · exact ⟨rfl, List.append_cancel_left h⟩
          · cases (List.cons.inj h).1
          · cases (List.cons.inj h).1
          · exact ⟨rfl, List.append_cancel_left h⟩
      | _ => cases hkind
  | .int z, w, _, _, s, t, hs, ht, h => by
      have hkind := jsonKind_eq hfloat onForeign h
      cases w with
      | int z' =>
          rcases SelfDelimiting.run_inj (intText_numeral z) (intText_numeral z') hs ht h with
            ⟨htext, hrest⟩
          exact ⟨by rw [intText_inj htext], hrest⟩
      | float x =>
          rcases SelfDelimiting.run_inj (intText_numeral z) (jsonFloat_numeral hfloat x) hs ht h
            with
            ⟨htext, _⟩
          exact absurd htext.symm (jsonFloat_ne_intText hfloat x z)
      | _ => cases hkind
  | .float x, w, _, _, s, t, hs, ht, h => by
      have hkind := jsonKind_eq hfloat onForeign h
      cases w with
      | int z =>
          rcases SelfDelimiting.run_inj (jsonFloat_numeral hfloat x) (intText_numeral z) hs ht h
            with
            ⟨htext, _⟩
          exact absurd htext (jsonFloat_ne_intText hfloat x z)
      | float y =>
          rcases SelfDelimiting.run_inj (jsonFloat_numeral hfloat x) (jsonFloat_numeral hfloat y)
            hs ht h with ⟨htext, hrest⟩
          exact ⟨by rw [jsonFloat_inj hfloat htext], hrest⟩
      | _ => cases hkind
  | .str a, w, _, hw, s, t, _, _, h => by
      have hkind := jsonKind_eq hfloat onForeign h
      cases w with
      | str b =>
          rcases jsonString_inj h with ⟨rfl, hrest⟩
          exact ⟨rfl, hrest⟩
      | foreign name text repr => exact hw.elim
      | _ => cases hkind
  | .list xs, w, hv, hw, s, t, _, _, h => by
      have hkind := jsonKind_eq hfloat onForeign h
      cases w with
      | list ys =>
          rcases jsonItems_append_inj hfloat xs ys hv hw true s t (List.cons.inj h).2 with
            ⟨rfl, hrest⟩
          exact ⟨rfl, hrest⟩
      | _ => cases hkind
  | .dict fs, w, hv, hw, s, t, _, _, h => by
      have hkind := jsonKind_eq hfloat onForeign h
      cases w with
      | dict gs =>
          rcases jsonFields_append_inj hfloat fs gs hv.2 hw.2 true s t (List.cons.inj h).2 with
            ⟨rfl, hrest⟩
          exact ⟨rfl, hrest⟩
      | _ => cases hkind
  | .foreign _ _ _, _, hv, _, _, _, _, _, _ => hv.elim

private theorem jsonItems_append_inj (hfloat : rt.FloatTexts) :
    ∀ xs ys : List Value, Value.StrictJsonItems xs →
    Value.StrictJsonItems ys → ∀ (first : Bool) (s t : List Char),
    rt.jsonItems onForeign first xs ++ s = rt.jsonItems onForeign first ys ++ t → xs = ys ∧ s = t
  | [], [], _, _, _, s, t, h => ⟨rfl, (List.cons.inj h).2⟩
  | [], y :: ys, _, _, first, s, t, h => by
      cases first with
      | true =>
          simp only [Runtime.jsonItems, if_true, List.nil_append, List.append_assoc] at h
          exact absurd h (closing_ne_jsonText hfloat onForeign y s _)
      | false => cases (List.cons.inj h).1
  | x :: xs, [], _, _, first, s, t, h => by
      cases first with
      | true =>
          simp only [Runtime.jsonItems, if_true, List.nil_append, List.append_assoc] at h
          exact absurd h.symm (closing_ne_jsonText hfloat onForeign x t _)
      | false => cases (List.cons.inj h).1
  | x :: xs, y :: ys, hxs, hys, first, s, t, h => by
      simp only [Runtime.jsonItems, List.append_assoc, List.append_cancel_left_eq] at h
      rcases jsonText_append_inj hfloat x y hxs.1 hys.1 _ _ (ends_jsonItems rt onForeign xs s)
        (ends_jsonItems rt onForeign ys t) h with ⟨rfl, hrest⟩
      rcases jsonItems_append_inj hfloat xs ys hxs.2 hys.2 false s t hrest with ⟨rfl, hsame⟩
      exact ⟨rfl, hsame⟩

private theorem jsonFields_append_inj (hfloat : rt.FloatTexts) :
    ∀ fs gs : List (String × Value), Value.StrictJsonFields fs →
    Value.StrictJsonFields gs → ∀ (first : Bool) (s t : List Char),
    rt.jsonFields onForeign first fs ++ s = rt.jsonFields onForeign first gs ++ t →
      fs = gs ∧ s = t
  | [], [], _, _, _, s, t, h => ⟨rfl, (List.cons.inj h).2⟩
  | [], (k, y) :: gs, _, _, first, s, t, h => by
      cases first with
      | true => cases (List.cons.inj h).1
      | false => cases (List.cons.inj h).1
  | (k, x) :: fs, [], _, _, first, s, t, h => by
      cases first with
      | true => cases (List.cons.inj h).1
      | false => cases (List.cons.inj h).1
  | (k, x) :: fs, (l, y) :: gs, hfs, hgs, first, s, t, h => by
      simp only [Runtime.jsonFields, List.append_assoc, List.append_cancel_left_eq,
        List.cons_append] at h
      rcases jsonString_inj h with ⟨rfl, htail⟩
      simp only [List.cons.injEq, true_and] at htail
      rcases jsonText_append_inj hfloat x y hfs.1 hgs.1 _ _ (ends_jsonFields rt onForeign fs s)
        (ends_jsonFields rt onForeign gs t) htail with ⟨rfl, hrest⟩
      rcases jsonFields_append_inj hfloat fs gs hfs.2 hgs.2 false s t hrest with ⟨rfl, hsame⟩
      exact ⟨rfl, hsame⟩

end

/-- JSON values with one text are one value. -/
theorem jsonText_inj (hfloat : rt.FloatTexts) {v w : Value} (hv : v.StrictJson) (hw : w.StrictJson)
    (h : rt.jsonText onForeign v = rt.jsonText onForeign w) : v = w := by
  have hnil : SelfDelimiting.Ends isNumeralChar [] := fun _ _ heq => nomatch heq
  exact (jsonText_append_inj onForeign hfloat v w hv hw [] [] hnil hnil
    (by rw [List.append_nil, List.append_nil, h])).1

end

/-! ## One line of ASCII -/

/-- A printable ASCII character. -/
def isPrintableAscii (c : Char) : Bool :=
  decide (0x20 ≤ c.toNat) && decide (c.toNat ≤ 0x7e)

private theorem unicodeEscape_ascii {n : Nat} (h : n < 0x10000) :
    ∀ c ∈ unicodeEscape n, isPrintableAscii c = true := by
  have hdigit : ∀ m < 16, isPrintableAscii (Nat.digitChar m) = true := by decide
  intro c hc
  simp only [unicodeEscape, List.mem_cons, List.not_mem_nil, or_false] at hc
  rcases hc with rfl | rfl | rfl | rfl | rfl | rfl
  · decide
  · decide
  all_goals exact hdigit _ (by omega)

private theorem escapeChar_ascii (c : Char) : ∀ d ∈ escapeChar c, isPrintableAscii d = true := by
  have hscalar : c.toNat < 0xd800 ∨ 0xdfff < c.toNat ∧ c.toNat < 0x110000 := c.valid
  unfold escapeChar
  split
  · exact List.all_eq_true.mp rfl
  split
  · exact List.all_eq_true.mp rfl
  split
  · exact List.all_eq_true.mp rfl
  split
  · exact List.all_eq_true.mp rfl
  split
  · exact List.all_eq_true.mp rfl
  split
  · exact List.all_eq_true.mp rfl
  split
  · exact List.all_eq_true.mp rfl
  split
  · rename_i hprintable
    intro d hd
    rw [List.mem_singleton.mp hd]
    simpa [isPrintableAscii] using hprintable
  split
  · rename_i hplane
    exact unicodeEscape_ascii hplane
  · intro d hd
    rcases List.mem_append.mp hd with hd | hd
    · exact unicodeEscape_ascii (by omega) d hd
    · exact unicodeEscape_ascii (by omega) d hd

private theorem jsonString_ascii (text : String) :
    ∀ c ∈ jsonString text, isPrintableAscii c = true := by
  intro c hc
  simp only [jsonString, List.mem_cons, List.mem_append, List.mem_flatMap, List.not_mem_nil,
    or_false] at hc
  rcases hc with rfl | ⟨d, _, hd⟩ | rfl
  · decide
  · exact escapeChar_ascii d c hd
  · decide

private theorem isPrintableAscii_of_numeral {c : Char} (h : isNumeralChar c = true) :
    isPrintableAscii c = true := by
  have hothers : ['-', '+', '.', 'e', 'N', 'a', 'I', 'n', 'f', 'i', 't', 'y'].all
      isPrintableAscii = true := rfl
  rw [isNumeralChar, Bool.or_eq_true, List.contains_iff_mem] at h
  rcases h with h | h
  · simp only [Char.isDigit, Bool.and_eq_true, decide_eq_true_eq] at h
    simp only [isPrintableAscii, Bool.and_eq_true, decide_eq_true_eq]
    have hlow : 48 ≤ c.toNat := h.1
    have hhigh : c.toNat ≤ 57 := h.2
    omega
  · exact List.all_eq_true.mp hothers c h

section

variable {rt : Runtime} (onForeign : String → String → String)

private theorem separator_ascii (first : Bool) :
    ∀ c ∈ (if first then [] else [',', ' ']), isPrintableAscii c = true := by
  cases first with
  | false => exact List.all_eq_true.mp rfl
  | true => exact List.all_eq_true.mp rfl

mutual

/-- The text of a value is one line of printable ASCII characters. -/
theorem jsonText_ascii (hfloat : rt.FloatTexts) :
    ∀ (v : Value) (c : Char), c ∈ rt.jsonText onForeign v → isPrintableAscii c = true
  | .none, c, hc =>
      List.all_eq_true.mp (by decide : "null".toList.all isPrintableAscii = true) c hc
  | .bool true, c, hc =>
      List.all_eq_true.mp (by decide : "true".toList.all isPrintableAscii = true) c hc
  | .bool false, c, hc =>
      List.all_eq_true.mp (by decide : "false".toList.all isPrintableAscii = true) c hc
  | .int z, c, hc => isPrintableAscii_of_numeral (intText_numeral z c hc)
  | .float x, c, hc => isPrintableAscii_of_numeral (jsonFloat_numeral hfloat x c hc)
  | .str text, c, hc => jsonString_ascii text c hc
  | .list items, c, hc => by
      rcases List.mem_cons.mp hc with rfl | hc
      · decide
      · exact jsonItems_ascii hfloat items true c hc
  | .dict fields, c, hc => by
      rcases List.mem_cons.mp hc with rfl | hc
      · decide
      · exact jsonFields_ascii hfloat fields true c hc
  | .foreign _ text repr, c, hc => jsonString_ascii (onForeign text repr) c hc

private theorem jsonItems_ascii (hfloat : rt.FloatTexts) :
    ∀ (items : List Value) (first : Bool) (c : Char), c ∈ rt.jsonItems onForeign first items →
      isPrintableAscii c = true
  | [], _, c, hc => by
      rw [List.mem_singleton.mp hc]
      decide
  | value :: rest, first, c, hc => by
      rcases List.mem_append.mp hc with hc | hc
      · exact separator_ascii first c hc
      · rcases List.mem_append.mp hc with hc | hc
        · exact jsonText_ascii hfloat value c hc
        · exact jsonItems_ascii hfloat rest false c hc

private theorem jsonFields_ascii (hfloat : rt.FloatTexts) :
    ∀ (fields : List (String × Value)) (first : Bool) (c : Char),
      c ∈ rt.jsonFields onForeign first fields → isPrintableAscii c = true
  | [], _, c, hc => by
      rw [List.mem_singleton.mp hc]
      decide
  | (key, value) :: rest, first, c, hc => by
      rcases List.mem_append.mp hc with hc | hc
      · exact separator_ascii first c hc
      · rcases List.mem_append.mp hc with hc | hc
        · exact jsonString_ascii key c hc
        · rcases List.mem_cons.mp hc with rfl | hc
          · decide
          rcases List.mem_cons.mp hc with rfl | hc
          · decide
          rcases List.mem_append.mp hc with hc | hc
          · exact jsonText_ascii hfloat value c hc
          · exact jsonFields_ascii hfloat rest false c hc

end

end

/-! ## An interpreter -/

/-- An interpreter with the default limits.  A float that is a whole number is written with
a zero fraction; how others are written only needs to distinguish them. -/
def decimalRuntime : Runtime where
  maxStrDigits := some 4300
  maxListLength := 1000000
  floatText := fun x =>
    match x with
    | .finite q =>
        if q.den = 1 then toString q.num ++ ".0"
        else toString q.num ++ "e" ++ toString (q.den : Int)
    | _ => ""
  isPrintable := fun _ => true

private theorem decimalRuntime_floatText (q : ℚ) :
    (decimalRuntime.floatText (.finite q)).toList =
      if q.den = 1 then (toString q.num).toList ++ ['.', '0']
      else (toString q.num).toList ++ 'e' :: (toString (q.den : Int)).toList := by
  simp only [decimalRuntime]
  split <;> simp

theorem decimalRuntime_floatTexts : decimalRuntime.FloatTexts where
  injective := by
    intro p q h
    have hrun : ∀ c ∈ (toString p.num).toList, (c.isDigit || c == '-') = true := by
      intro c hc
      rcases intText_chars _ c hc with hdigit | rfl
      · simp [hdigit]
      · rfl
    have hrun' : ∀ c ∈ (toString q.num).toList, (c.isDigit || c == '-') = true := by
      intro c hc
      rcases intText_chars _ c hc with hdigit | rfl
      · simp [hdigit]
      · rfl
    have hends : ∀ (c : Char) (rest : List Char), (c.isDigit || c == '-') = false →
        SelfDelimiting.Ends (fun c : Char => c.isDigit || c == '-') (c :: rest) := by
      intro c rest hc d tail heq
      rw [← (List.cons.inj heq).1]
      exact hc
    rw [← String.toList_inj, decimalRuntime_floatText, decimalRuntime_floatText] at h
    split at h
    · rename_i hp
      split at h
      · rename_i hq
        rcases SelfDelimiting.run_inj hrun hrun' (hends '.' _ (by decide)) (hends '.' _ (by decide))
          h with ⟨hnum, _⟩
        exact Rat.ext (intText_inj hnum) (hp.trans hq.symm)
      · rcases SelfDelimiting.run_inj hrun hrun' (hends '.' _ (by decide)) (hends 'e' _ (by decide))
          h with ⟨_, hrest⟩
        cases (List.cons.inj hrest).1
    · split at h
      · rcases SelfDelimiting.run_inj hrun hrun' (hends 'e' _ (by decide)) (hends '.' _ (by decide))
          h with ⟨_, hrest⟩
        cases (List.cons.inj hrest).1
      · rcases SelfDelimiting.run_inj hrun hrun' (hends 'e' _ (by decide)) (hends 'e' _ (by decide))
          h with ⟨hnum, hrest⟩
        have hden := intText_inj (List.cons.inj hrest).2
        exact Rat.ext (intText_inj hnum) (by omega)
  numeral := by
    intro q c hc
    have hint : ∀ z : Int, c ∈ (toString z).toList →
        c.isDigit = true ∨ c = '-' ∨ c = '+' ∨ c = '.' ∨ c = 'e' := by
      intro z hz
      rcases intText_chars z c hz with h | h
      · exact Or.inl h
      · exact Or.inr (Or.inl h)
    rw [decimalRuntime_floatText] at hc
    split at hc
    · rcases List.mem_append.mp hc with hc | hc
      · exact hint _ hc
      · rcases List.mem_cons.mp hc with rfl | hc
        · decide
        · rw [List.mem_singleton.mp hc]
          decide
    · rcases List.mem_append.mp hc with hc | hc
      · exact hint _ hc
      · rcases List.mem_cons.mp hc with rfl | hc
        · decide
        · exact hint _ hc
  fraction := by
    intro q
    rw [decimalRuntime_floatText]
    split
    · exact ⟨'.', by simp, Or.inl rfl⟩
    · exact ⟨'e', by simp, Or.inr rfl⟩

end EtlTool
