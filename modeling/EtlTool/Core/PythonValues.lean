import Mathlib.Data.Rat.Defs
import Mathlib.Data.List.Basic

/-!
# Python values

The objects that flow along the edges of a pipeline and through node configs:
JSON values, plus the foreign objects (dates, decimals, bytes, ...) that a node
may put into a record.  Text is a sequence of Unicode scalar values.

The operations below are the partial ones of the interpreter on which the
engine and the server rely: {lit}`str.isdigit`, {lit}`int(...)`, {lit}`str(...)`,
{lit}`repr(...)` and {lit}`json.dumps(...)`.  All but the first fail on integers
with more decimal digits than the interpreter converts, {lit}`int(...)` also fails
on digits that are not decimal digits, and {lit}`json.dumps(...)` on foreign objects.

Main results:

- Theorem {lit}`Value.beq_iff`: structural equality of values is decidable.
- Theorem {lit}`pyRepr_isSome_iff`: {lit}`repr` of a value succeeds exactly when
  every integer inside it is printable.

Current gaps:

- A finite float is a rational number: there is no negative zero, whose texts and sign the
  interpreter keeps apart from those of zero.
- Texts with lone surrogates, except where a text is a {lit}`PyText`.
-/

namespace EtlTool

/-- A Python float. -/
inductive PyFloat where
  | finite (q : ℚ)
  | posInf
  | negInf
  | nan
deriving DecidableEq

/-- A Python object as the engine sees it.  A foreign object is known only by
its type name and the texts of {lit}`str` and {lit}`repr`. -/
inductive Value where
  | none
  | bool (b : Bool)
  | int (z : Int)
  | float (x : PyFloat)
  | str (s : String)
  | list (items : List Value)
  | dict (fields : List (String × Value))
  | foreign (typeName text repr : String)
deriving Inhabited

/-- A JSON object or a record: keys in insertion order. -/
abbrev Fields := List (String × Value)

namespace Value

mutual

/-- Structural equality of values. -/
def beq : Value → Value → Bool
  | none, none => true
  | bool a, bool b => a == b
  | int a, int b => a == b
  | float a, float b => decide (a = b)
  | str a, str b => a == b
  | list xs, list ys => beqItems xs ys
  | dict fs, dict gs => beqFields fs gs
  | foreign a b c, foreign a' b' c' => a == a' && b == b' && c == c'
  | _, _ => false

/-- Structural equality of item lists. -/
def beqItems : List Value → List Value → Bool
  | [], [] => true
  | x :: xs, y :: ys => beq x y && beqItems xs ys
  | _, _ => false

/-- Structural equality of field lists. -/
def beqFields : List (String × Value) → List (String × Value) → Bool
  | [], [] => true
  | (k, x) :: fs, (l, y) :: gs => k == l && beq x y && beqFields fs gs
  | _, _ => false

end

mutual

theorem beq_iff : ∀ a b : Value, beq a b = true ↔ a = b
  | none, b => by cases b <;> simp [beq]
  | bool x, b => by cases b <;> simp [beq]
  | int x, b => by cases b <;> simp [beq]
  | float x, b => by cases b <;> simp [beq]
  | str x, b => by cases b <;> simp [beq]
  | foreign x y z, b => by cases b <;> simp [beq, and_assoc]
  | list xs, b => by
      cases b with
      | list ys => simp [beq, beqItems_iff xs ys]
      | _ => simp [beq]
  | dict fs, b => by
      cases b with
      | dict gs => simp [beq, beqFields_iff fs gs]
      | _ => simp [beq]

private theorem beqItems_iff : ∀ xs ys : List Value, beqItems xs ys = true ↔ xs = ys
  | [], ys => by cases ys <;> simp [beqItems]
  | x :: xs, ys => by
      cases ys with
      | nil => simp [beqItems]
      | cons y ys => simp [beqItems, beq_iff x y, beqItems_iff xs ys]

private theorem beqFields_iff : ∀ fs gs : List (String × Value), beqFields fs gs = true ↔ fs = gs
  | [], gs => by cases gs <;> simp [beqFields]
  | (k, x) :: fs, gs => by
      cases gs with
      | nil => simp [beqFields]
      | cons g gs =>
          rcases g with ⟨l, y⟩
          simp [beqFields, beq_iff x y, beqFields_iff fs gs]

end

instance : DecidableEq Value := fun a b =>
  decidable_of_iff (beq a b = true) (beq_iff a b)

/-- {lit}`type(value).__name__`. -/
def typeName : Value → String
  | none => "NoneType"
  | bool _ => "bool"
  | int _ => "int"
  | float _ => "float"
  | str _ => "str"
  | list _ => "list"
  | dict _ => "dict"
  | foreign name _ _ => name

/-- An object or a list. -/
def isContainer : Value → Bool
  | list _ => true
  | dict _ => true
  | _ => false

end Value

/-! ## The interpreter -/

/-- What the engine's behaviour takes from the interpreter it runs in. -/
structure Runtime where
  /-- {lit}`sys.get_int_max_str_digits()`; {lean}`none` when the limit is off. -/
  maxStrDigits : Option Nat
  /-- The longest list that {lit}`list(range(...))` can build. -/
  maxListLength : Nat
  /-- The text of a float. -/
  floatText : PyFloat → String
  /-- {lit}`str.isprintable` on characters outside ASCII. -/
  isPrintable : Char → Bool

/-- An exception other than {lit}`NodeExecutionError`.  The text is absent when
{lit}`str()` of the exception raises in turn. -/
structure PyException where
  typeName : String
  text : Option String
deriving DecidableEq

/-- The {lit}`ValueError` of an integer conversion. -/
def intConversionError : PyException where
  typeName := "ValueError"
  text := some "integer string conversion"

/-- Whether a decimal numeral of this length can be converted. -/
def Runtime.convertible (rt : Runtime) (digits : Nat) : Bool :=
  match rt.maxStrDigits with
  | none => true
  | some limit => decide (digits ≤ limit)

/-! ## Digits and integers -/

/-- Code points of the decimal zeros (Unicode category Nd); each is followed by
the digits one to nine. -/
def decimalZeros : List Nat :=
  [0x30, 0x660, 0x6f0, 0x7c0, 0x966, 0x9e6, 0xa66, 0xae6, 0xb66, 0xbe6, 0xc66, 0xce6, 0xd66,
    0xde6, 0xe50, 0xed0, 0xf20, 0x1040, 0x1090, 0x17e0, 0x1810, 0x1946, 0x19d0, 0x1a80, 0x1a90,
    0x1b50, 0x1bb0, 0x1c40, 0x1c50, 0xa620, 0xa8d0, 0xa900, 0xa9d0, 0xa9f0, 0xaa50, 0xabf0,
    0xff10, 0x104a0, 0x10d30, 0x11066, 0x110f0, 0x11136, 0x111d0, 0x112f0, 0x11450, 0x114d0,
    0x11650, 0x116c0, 0x11730, 0x118e0, 0x11950, 0x11c50, 0x11d50, 0x11da0, 0x16a60, 0x16ac0,
    0x16b50, 0x1d7ce, 0x1d7d8, 0x1d7e2, 0x1d7ec, 0x1d7f6, 0x1e140, 0x1e2f0, 0x1e950, 0x1fbf0]

/-- Code point ranges of the digits that are not decimal: superscripts,
subscripts, circled digits and the like. -/
def otherDigits : List (Nat × Nat) :=
  [(0xb2, 0xb3), (0xb9, 0xb9), (0x1369, 0x1371), (0x19da, 0x19da), (0x2070, 0x2070),
    (0x2074, 0x2079), (0x2080, 0x2089), (0x2460, 0x2468), (0x2474, 0x247c), (0x2488, 0x2490),
    (0x24ea, 0x24ea), (0x24f5, 0x24fd), (0x24ff, 0x24ff), (0x2776, 0x277e), (0x2780, 0x2788),
    (0x278a, 0x2792), (0x10a40, 0x10a43), (0x10e60, 0x10e68), (0x11052, 0x1105a),
    (0x1f100, 0x1f10a)]

/-- Value of a decimal digit. -/
def decimalValue? (c : Char) : Option Nat :=
  (decimalZeros.find? fun base => decide (base ≤ c.toNat ∧ c.toNat ≤ base + 9)).map
    fun base => c.toNat - base

/-- {lit}`str.isdigit` on one character. -/
def isDigitChar (c : Char) : Bool :=
  (decimalValue? c).isSome || otherDigits.any fun range => decide (range.1 ≤ c.toNat ∧ c.toNat ≤ range.2)

/-- {lit}`text.lstrip("-").isdigit()`: the test for an integer-looking segment. -/
def looksLikeInt (text : String) : Bool :=
  let digits := text.toList.dropWhile (· = '-')
  !digits.isEmpty && digits.all isDigitChar

/-- The number written by decimal digits. -/
def decimalNumber? (digits : List Char) : Option Nat :=
  (digits.mapM decimalValue?).map fun values => values.foldl (fun n d => 10 * n + d) 0

/-- {lit}`int(text)` on a text that looks like an integer; {lean}`none` is its
{lit}`ValueError`: more than one sign, a digit that is not decimal, or too many
digits. -/
def Runtime.pyInt? (rt : Runtime) (text : String) : Option Int :=
  match text.toList with
  | '-' :: digits =>
      if digits.isEmpty || !rt.convertible digits.length then none
      else (decimalNumber? digits).map fun n => -(n : Int)
  | digits =>
      if digits.isEmpty || !rt.convertible digits.length then none
      else (decimalNumber? digits).map fun n => (n : Int)

/-! ## Texts of values -/

/-- Whether {lit}`str` of an integer succeeds. -/
def Runtime.printableInt (rt : Runtime) (z : Int) : Bool :=
  rt.convertible (toString z.natAbs).length

/-- Lowercase hexadecimal digits padded with zeros to a width. -/
def hexDigits (width n : Nat) : List Char :=
  let digits := Nat.toDigits 16 n
  List.replicate (width - digits.length) '0' ++ digits

/-- How {lit}`repr` writes one character of a string. -/
def Runtime.reprChar (rt : Runtime) (quote c : Char) : List Char :=
  if c = '\\' ∨ c = quote then ['\\', c]
  else if c = '\t' then ['\\', 't']
  else if c = '\n' then ['\\', 'n']
  else if c = '\r' then ['\\', 'r']
  else if (0x20 ≤ c.toNat ∧ c.toNat < 0x7f) ∨ (0x7f < c.toNat ∧ rt.isPrintable c = true) then [c]
  else if c.toNat < 0x100 then ['\\', 'x'] ++ hexDigits 2 c.toNat
  else if c.toNat < 0x10000 then ['\\', 'u'] ++ hexDigits 4 c.toNat
  else ['\\', 'U'] ++ hexDigits 8 c.toNat

/-- {lit}`repr` of a string. -/
def Runtime.reprStr (rt : Runtime) (s : String) : String :=
  let quote := if s.toList.contains '\'' && !s.toList.contains '"' then '"' else '\''
  String.ofList ([quote] ++ s.toList.flatMap (rt.reprChar quote) ++ [quote])

mutual

/-- {lit}`repr` of a value; {lean}`none` is the {lit}`ValueError` of an integer
with too many digits. -/
def Runtime.pyRepr (rt : Runtime) : Value → Option String
  | .none => some "None"
  | .bool b => some (if b then "True" else "False")
  | .int z => if rt.printableInt z then some (toString z) else none
  | .float x => some (rt.floatText x)
  | .str s => some (rt.reprStr s)
  | .list items => (reprItems rt items).map fun texts => "[" ++ ", ".intercalate texts ++ "]"
  | .dict fields => (reprFields rt fields).map fun texts => "\x7b" ++ ", ".intercalate texts ++ "\x7d"
  | .foreign _ _ repr => some repr

/-- {lit}`repr` of the items of a list. -/
def Runtime.reprItems (rt : Runtime) : List Value → Option (List String)
  | [] => some []
  | v :: rest =>
      match pyRepr rt v, reprItems rt rest with
      | some text, some texts => some (text :: texts)
      | _, _ => none

/-- {lit}`repr` of the entries of a dict. -/
def Runtime.reprFields (rt : Runtime) : List (String × Value) → Option (List String)
  | [] => some []
  | (key, v) :: rest =>
      match pyRepr rt v, reprFields rt rest with
      | some text, some texts => some ((rt.reprStr key ++ ": " ++ text) :: texts)
      | _, _ => none

end

/-- {lit}`str` of a value. -/
def Runtime.pyStr (rt : Runtime) : Value → Option String
  | .str s => some s
  | .foreign _ text _ => some text
  | v => rt.pyRepr v

mutual

/-- Every integer inside the value has few enough digits to be printed. -/
def Runtime.Printable (rt : Runtime) : Value → Prop
  | .int z => rt.printableInt z = true
  | .list items => PrintableItems rt items
  | .dict fields => PrintableFields rt fields
  | _ => True

/-- Every item is printable. -/
def Runtime.PrintableItems (rt : Runtime) : List Value → Prop
  | [] => True
  | v :: rest => Printable rt v ∧ PrintableItems rt rest

/-- Every field value is printable. -/
def Runtime.PrintableFields (rt : Runtime) : List (String × Value) → Prop
  | [] => True
  | (_, v) :: rest => Printable rt v ∧ PrintableFields rt rest

end

mutual

/-- {lit}`repr` of a value succeeds exactly when the value is printable. -/
theorem pyRepr_isSome_iff (rt : Runtime) : ∀ v : Value, (rt.pyRepr v).isSome ↔ rt.Printable v
  | .none => by simp [Runtime.pyRepr, Runtime.Printable]
  | .bool b => by simp [Runtime.pyRepr, Runtime.Printable]
  | .int z => by simp [Runtime.pyRepr, Runtime.Printable]
  | .float x => by simp [Runtime.pyRepr, Runtime.Printable]
  | .str s => by simp [Runtime.pyRepr, Runtime.Printable]
  | .foreign _ _ _ => by simp [Runtime.pyRepr, Runtime.Printable]
  | .list items => by
      simpa [Runtime.pyRepr, Runtime.Printable] using reprItems_isSome_iff rt items
  | .dict fields => by
      simpa [Runtime.pyRepr, Runtime.Printable] using reprFields_isSome_iff rt fields

private theorem reprItems_isSome_iff (rt : Runtime) :
    ∀ items : List Value, (rt.reprItems items).isSome ↔ rt.PrintableItems items
  | [] => by simp [Runtime.reprItems, Runtime.PrintableItems]
  | v :: rest => by
      rw [Runtime.PrintableItems, ← pyRepr_isSome_iff rt v, ← reprItems_isSome_iff rt rest,
        Runtime.reprItems]
      cases rt.pyRepr v <;> cases rt.reprItems rest <;> simp

private theorem reprFields_isSome_iff (rt : Runtime) :
    ∀ fields : List (String × Value),
      (rt.reprFields fields).isSome ↔ rt.PrintableFields fields
  | [] => by simp [Runtime.reprFields, Runtime.PrintableFields]
  | (key, v) :: rest => by
      rw [Runtime.PrintableFields, ← pyRepr_isSome_iff rt v, ← reprFields_isSome_iff rt rest,
        Runtime.reprFields]
      cases rt.pyRepr v <;> cases rt.reprFields rest <;> simp

end

/-- {lit}`str` of a value succeeds exactly when the value is printable. -/
theorem pyStr_isSome_iff (rt : Runtime) (v : Value) : (rt.pyStr v).isSome ↔ rt.Printable v := by
  cases v with
  | str s => simp [Runtime.pyStr, Runtime.Printable]
  | foreign n t r => simp [Runtime.pyStr, Runtime.Printable]
  | _ => exact pyRepr_isSome_iff rt _

/-! ## JSON -/

mutual

/-- {lit}`json.dumps(value)` succeeds: it writes JSON values only, and no integer
with too many digits. -/
def Runtime.dumpable (rt : Runtime) : Value → Bool
  | .none => true
  | .bool _ => true
  | .int z => rt.printableInt z
  | .float _ => true
  | .str _ => true
  | .list items => dumpableItems rt items
  | .dict fields => dumpableFields rt fields
  | .foreign _ _ _ => false

/-- Every item can be dumped. -/
def Runtime.dumpableItems (rt : Runtime) : List Value → Bool
  | [] => true
  | v :: rest => dumpable rt v && dumpableItems rt rest

/-- Every field value can be dumped. -/
def Runtime.dumpableFields (rt : Runtime) : List (String × Value) → Bool
  | [] => true
  | (_, v) :: rest => dumpable rt v && dumpableFields rt rest

end

theorem dumpableItems_iff (rt : Runtime) (items : List Value) :
    rt.dumpableItems items = true ↔ ∀ v ∈ items, rt.dumpable v = true := by
  induction items with
  | nil => simp [Runtime.dumpableItems]
  | cons v rest ih => simp [Runtime.dumpableItems, ih]

theorem dumpableFields_iff (rt : Runtime) (fields : Fields) :
    rt.dumpableFields fields = true ↔ ∀ field ∈ fields, rt.dumpable field.2 = true := by
  induction fields with
  | nil => simp [Runtime.dumpableFields]
  | cons field rest ih => simp [Runtime.dumpableFields, ih]

/-- A nullable JSON column accepts the value. -/
def Runtime.dumpableColumn (rt : Runtime) : Option Fields → Bool
  | none => true
  | some fields => rt.dumpable (.dict fields)

end EtlTool
