import EtlTool.Core.FileIo
import EtlTool.Core.PythonEquality
import EtlTool.Nodes.Sources
import Mathlib.Algebra.Group.Int.Defs

/-!
# Operators and functions of computed fields

The operators and functions that the expressions of computed fields may use, on Python
values.  They are Python's own, so their typing is Python's: numbers are of three kinds,
{lit}`bool`, {lit}`int` and {lit}`float`, texts and lists can be added and repeated, and
a text can be formatted by {lit}`%`.

On JSON values each of them raises or makes a JSON value, with one exception.  The power of
a negative number with a fractional exponent is a complex number.

Main results:

- Theorems {lit}`arith_isJson_iff` and {lit}`isJson_of_complexPower`: the arithmetic
  operators.
- Theorem {lit}`pySubscript_isJson`: subscripts.
- Theorem {lit}`applyFunction_isJson`: the functions.

Current gaps:

- The texts of the exceptions that the interpreter raises, and its limits on memory.
- The negative zero, and the shortcut by identity when lists are compared.
-/

namespace EtlTool

/-! ## Numbers -/

/-- The arithmetic operators. -/
inductive ArithOp where
  | add
  | sub
  | mult
  | div
  | floorDiv
  | mod
  | pow
deriving DecidableEq

/-- What the operators and functions take from the interpreter. -/
structure Numerics where
  /-- The float of an integer, or an {lit}`OverflowError`. -/
  ofInt : Int → Except PyException PyFloat
  /-- {lit}`y / z` for integers. -/
  trueDiv : Int → Int → Except PyException PyFloat
  /-- The operators on floats, where they make a float. -/
  floatOp : ArithOp → PyFloat → PyFloat → Except PyException PyFloat
  /-- The {lit}`str` and {lit}`repr` of a power that is a complex number. -/
  complexPower : PyFloat → PyFloat → Except PyException (String × String)
  /-- An operator or function applied to objects that are not JSON values. -/
  foreignOp : String → List Value → Except PyException Value
  /-- {lit}`text % value`. -/
  formatText : String → Value → Except PyException String
  /-- {lit}`int(text, base)`. -/
  parseInt : String → Int → Except PyException Int
  /-- {lit}`float(text)`. -/
  parseFloat : String → Except PyException PyFloat
  /-- {lit}`round(x)` and {lit}`round(x, digits)` for floats. -/
  roundFloat : PyFloat → Except PyException Int
  roundDigits : PyFloat → Int → Except PyException PyFloat
  /-- {lit}`round(z, digits)` for integers. -/
  roundInt : Int → Int → Int
  lower : String → String
  upper : String → String

/-- A {lit}`TypeError`. -/
def typeError (text : String) : PyException where
  typeName := "TypeError"
  text := some text

/-- A {lit}`ValueError`. -/
def valueError (text : String) : PyException where
  typeName := "ValueError"
  text := some text

def zeroDivisionError : PyException where
  typeName := "ZeroDivisionError"
  text := some "division by zero"

/-- A number: a {lit}`bool` counts as an integer. -/
inductive PyNumber where
  | int (z : Int)
  | float (x : PyFloat)

/-- The number that a value is. -/
def Value.pyNumber? : Value → Option PyNumber
  | .bool b => some (.int (if b then 1 else 0))
  | .int z => some (.int z)
  | .float x => some (.float x)
  | _ => .none

/-- What a number is worth. -/
def PyNumber.worth : PyNumber → PyFloat
  | .int z => .finite z
  | .float x => x

/-- The base is negative and the exponent is a fraction. -/
def PyFloat.isComplexPower : PyFloat → PyFloat → Bool
  | .finite base, .finite exponent => decide (base < 0) && decide (exponent.den ≠ 1)
  | _, _ => false

/-- A power that is a complex number in Python. -/
def Value.isComplexPower (base exponent : Value) : Bool :=
  match base.pyNumber?, exponent.pyNumber? with
  | some x, some y => x.worth.isComplexPower y.worth
  | _, _ => false

def Value.isForeign : Value → Bool
  | .foreign _ _ _ => true
  | _ => false

section

variable (nm : Numerics)

/-- The float that a number is converted to. -/
def Numerics.toFloat : PyNumber → Except PyException PyFloat
  | .int z => nm.ofInt z
  | .float x => .ok x

/-- The operators on integers. -/
def Numerics.intArith (op : ArithOp) (y z : Int) : Except PyException Value :=
  match op with
  | .add => .ok (.int (y + z))
  | .sub => .ok (.int (y - z))
  | .mult => .ok (.int (y * z))
  | .div => (nm.trueDiv y z).map .float
  | .floorDiv => if z = 0 then .error zeroDivisionError else .ok (.int (y.fdiv z))
  | .mod => if z = 0 then .error zeroDivisionError else .ok (.int (y.fmod z))
  | .pow =>
      if 0 ≤ z then .ok (.int (y ^ z.toNat))
      else
        match nm.ofInt y, nm.ofInt z with
        | .ok base, .ok exponent => (nm.floatOp .pow base exponent).map .float
        | .error exc, _ => .error exc
        | _, .error exc => .error exc

/-- The operators on floats. -/
def Numerics.floatArith (op : ArithOp) (x y : PyNumber) : Except PyException Value :=
  match nm.toFloat x, nm.toFloat y with
  | .ok a, .ok b =>
      if op = .pow ∧ x.worth.isComplexPower y.worth = true then
        (nm.complexPower a b).map fun texts => .foreign "complex" texts.1 texts.2
      else (nm.floatOp op a b).map .float
  | .error exc, _ => .error exc
  | _, .error exc => .error exc

/-- The operators on numbers. -/
def Numerics.numArith (op : ArithOp) : PyNumber → PyNumber → Except PyException Value
  | .int y, .int z => nm.intArith op y z
  | x, y => nm.floatArith op x y

/-- How often a sequence is repeated. -/
def Value.repetitions? : Value → Option Nat
  | .bool b => some (if b then 1 else 0)
  | .int z => some z.toNat
  | _ => .none

/-- {lit}`sequence * value`. -/
def repeatSequence (sequence count : Value) : Except PyException Value :=
  match sequence, count.repetitions? with
  | .str s, some n => .ok (.str (String.ofList (List.replicate n s.toList).flatten))
  | .list items, some n => .ok (.list (List.replicate n items).flatten)
  | _, _ => .error (typeError "unsupported operand type(s) for *")

/-- The operators on texts and lists. -/
def Numerics.sequenceArith (op : ArithOp) (a b : Value) : Except PyException Value :=
  match op, a, b with
  | .add, .str s, .str t => .ok (.str (s ++ t))
  | .add, .list xs, .list ys => .ok (.list (xs ++ ys))
  | .mult, .str s, count => repeatSequence (.str s) count
  | .mult, .list items, count => repeatSequence (.list items) count
  | .mult, count, sequence => repeatSequence sequence count
  | .mod, .str s, value => (nm.formatText s value).map .str
  | _, _, _ => .error (typeError "unsupported operand type(s)")

/-- {lit}`_ALLOWED_BINOPS`: the arithmetic operators. -/
def Numerics.arith (op : ArithOp) (a b : Value) : Except PyException Value :=
  match a.pyNumber?, b.pyNumber? with
  | some x, some y => nm.numArith op x y
  | _, _ =>
      if a.isForeign || b.isForeign then nm.foreignOp "operator" [a, b]
      else nm.sequenceArith op a b

/-- {lit}`-value`. -/
def Numerics.negate (value : Value) : Except PyException Value :=
  match value with
  | .foreign _ _ _ => nm.foreignOp "negate" [value]
  | .float (.finite q) => .ok (.float (.finite (-q)))
  | .float .posInf => .ok (.float .negInf)
  | .float .negInf => .ok (.float .posInf)
  | .float .nan => .ok (.float .nan)
  | _ =>
      match value.pyNumber? with
      | some (.int z) => .ok (.int (-z))
      | _ => .error (typeError "bad operand type for unary -")

/-- {lit}`+value`. -/
def Numerics.posate (value : Value) : Except PyException Value :=
  match value with
  | .foreign _ _ _ => nm.foreignOp "posate" [value]
  | .float x => .ok (.float x)
  | _ =>
      match value.pyNumber? with
      | some (.int z) => .ok (.int z)
      | _ => .error (typeError "bad operand type for unary +")

end

/-! ## Comparisons -/

/-- The order of two numbers, unless one of them is not a number. -/
def PyFloat.order? : PyFloat → PyFloat → Option Ordering
  | .nan, _ => none
  | _, .nan => none
  | .finite p, .finite q => some (if p < q then .lt else if p = q then .eq else .gt)
  | .posInf, .posInf => some .eq
  | .negInf, .negInf => some .eq
  | .posInf, _ => some .gt
  | _, .posInf => some .lt
  | .negInf, _ => some .lt
  | _, .negInf => some .gt

/-- The operators {lit}`<`, {lit}`<=`, {lit}`>` and {lit}`>=`. -/
inductive OrderOp where
  | lt
  | ltE
  | gt
  | gtE
deriving DecidableEq

/-- Whether a comparison holds in this order. -/
def OrderOp.holds : OrderOp → Ordering → Bool
  | .lt, o => o = .lt
  | .ltE, o => o ≠ .gt
  | .gt, o => o = .gt
  | .gtE, o => o ≠ .lt

/-- The order of texts by code points. -/
def textOrder (s t : String) : Ordering :=
  if s < t then .lt else if s = t then .eq else .gt

mutual

/-- An order comparison; {lean}`none` is its {lit}`TypeError`. -/
def Value.pyOrder? (op : OrderOp) : Value → Value → Option Bool
  | .str s, .str t => some (op.holds (textOrder s t))
  | .list xs, .list ys => pyOrderItems? op xs ys
  | v, w =>
      match v.number?, w.number? with
      | some x, some y => some ((x.order? y).any op.holds)
      | _, _ => .none

/-- The comparison of the first items that differ, or of the lengths. -/
def Value.pyOrderItems? (op : OrderOp) : List Value → List Value → Option Bool
  | [], [] => some (op.holds .eq)
  | [], _ :: _ => some (op.holds .lt)
  | _ :: _, [] => some (op.holds .gt)
  | x :: xs, y :: ys => if x.pyEq y then pyOrderItems? op xs ys else x.pyOrder? op y

end

/-- {lit}`item in container`; {lean}`none` is its {lit}`TypeError`. -/
def Value.pyIn? (item : Value) : Value → Option Bool
  | .list items => some (items.any fun other => item.pyEq other)
  | .str text =>
      match item with
      | .str part => some (decide (part.toList <:+: text.toList))
      | _ => .none
  | .dict fields =>
      match item with
      | .str key => some (fields.any fun field => field.1 == key)
      -- lists and dicts have no hash
      | .list _ => .none
      | .dict _ => .none
      | _ => some false
  | _ => .none

/-! ## Subscripts -/

/-- The position of an index in a sequence, counted from its end if it is negative. -/
def sequenceIndex? (length : Nat) (index : Int) : Option Nat :=
  if 0 ≤ index then if index.toNat < length then some index.toNat else none
  else if 0 ≤ length + index then some (length + index).toNat
  else none

/-- {lit}`base[index]` in a sequence of this length. -/
def itemAt (items : List Value) (index : Value) : Except PyException Value :=
  match index.pyNumber? with
  | some (.int z) =>
      match (sequenceIndex? items.length z).bind fun i => items[i]? with
      | some item => .ok item
      | none => .error ⟨"IndexError", some "index out of range"⟩
  | _ => .error (typeError "indices must be integers")

/-- The characters of a text as texts. -/
def textItems (text : String) : List Value :=
  text.toList.map fun c => .str (String.ofList [c])

/-- {lit}`base[index]`. -/
def pySubscript (base index : Value) : Except PyException Value :=
  match base with
  | .list items => itemAt items index
  | .str text => itemAt (textItems text) index
  | .dict fields =>
      match index with
      | .str key =>
          match OrderedDict.findPair key fields with
          | some value => .ok value
          | none => .error ⟨"KeyError", some key⟩
      | .list _ => .error (typeError "unhashable type: 'list'")
      | .dict _ => .error (typeError "unhashable type: 'dict'")
      | _ => .error ⟨"KeyError", none⟩
  | _ => .error (typeError "object is not subscriptable")

/-! ## Functions -/

/-- {lit}`_ALLOWED_FUNCTIONS`. -/
inductive AllowedFunction where
  | len
  | str
  | int
  | float
  | bool
  | round
  | abs
  | min
  | max
  | lower
  | upper
  | strip
deriving DecidableEq

/-- The keys of {lit}`_ALLOWED_FUNCTIONS`. -/
def allowedFunctions : List (String × AllowedFunction) :=
  [("len", .len), ("str", .str), ("int", .int), ("float", .float), ("bool", .bool),
    ("round", .round), ("abs", .abs), ("min", .min), ("max", .max), ("lower", .lower),
    ("upper", .upper), ("strip", .strip)]

/-- The items of an iterable. -/
def iterItems? : Value → Option (List Value)
  | .list items => some items
  | .str text => some (textItems text)
  | .dict fields => some (fields.map fun field => .str field.1)
  | _ => none

/-- {lit}`min` and {lit}`max` of values: the first one that no later one exceeds. -/
def extremum (op : OrderOp) (best : Value) : List Value → Except PyException Value
  | [] => .ok best
  | value :: rest =>
      match value.pyOrder? op best with
      | none => .error (typeError "'<' not supported between instances")
      | some true => extremum op value rest
      | some false => extremum op best rest

/-- {lit}`min` or {lit}`max` of the arguments, or of the items of the only one. -/
def extremumOf (op : OrderOp) : List Value → Except PyException Value
  | [] => .error (typeError "expected at least 1 argument, got 0")
  | [value] =>
      match iterItems? value with
      | none => .error (typeError "object is not iterable")
      | some [] => .error (valueError "iterable argument is empty")
      | some (first :: rest) => extremum op first rest
  | first :: rest => extremum op first rest

section

variable (rt : Runtime) (nm : Numerics)

/-- {lit}`str(value)`. -/
def Runtime.strOf (value : Value) : Except PyException String :=
  match rt.pyStr value with
  | some text => .ok text
  | none => .error intConversionError

/-- {lit}`int(x)` for floats. -/
def truncateFloat : PyFloat → Except PyException Int
  | .finite q => .ok (if 0 ≤ q then q.floor else -((-q).floor))
  | .nan => .error (valueError "cannot convert float NaN to integer")
  | _ => .error ⟨"OverflowError", some "cannot convert float infinity to integer"⟩

/-- {lit}`int(...)`. -/
def intOf : List Value → Except PyException Value
  | [] => .ok (.int 0)
  | [.str text] => (nm.parseInt text 10).map .int
  | [.float x] => (truncateFloat x).map .int
  | [value] =>
      match value.pyNumber? with
      | some (.int z) => .ok (.int z)
      | _ => .error (typeError "int() argument must be a string or a real number")
  | [.str text, base] =>
      match base.pyNumber? with
      | some (.int z) => (nm.parseInt text z).map .int
      | _ => .error (typeError "object cannot be interpreted as an integer")
  | _ => .error (typeError "int() takes other arguments")

/-- {lit}`float(...)`. -/
def floatOf : List Value → Except PyException Value
  | [] => .ok (.float (.finite 0))
  | [.str text] => (nm.parseFloat text).map .float
  | [value] =>
      match value.pyNumber? with
      | some x => (nm.toFloat x).map .float
      | none => .error (typeError "float() argument must be a string or a real number")
  | _ => .error (typeError "float expected at most 1 argument")

/-- {lit}`round(...)`. -/
def roundOf : List Value → Except PyException Value
  | [.float x] => (nm.roundFloat x).map .int
  | [.float x, .none] => (nm.roundFloat x).map .int
  | [.float x, digits] =>
      match digits.pyNumber? with
      | some (.int n) => (nm.roundDigits x n).map .float
      | _ => .error (typeError "object cannot be interpreted as an integer")
  | [value] =>
      match value.pyNumber? with
      | some (.int z) => .ok (.int z)
      | _ => .error (typeError "type doesn't define __round__ method")
  | [value, digits] =>
      match value.pyNumber?, digits with
      | some (.int z), .none => .ok (.int z)
      | some (.int z), digits =>
          match digits.pyNumber? with
          | some (.int n) => .ok (.int (nm.roundInt z n))
          | _ => .error (typeError "object cannot be interpreted as an integer")
      | _, _ => .error (typeError "type doesn't define __round__ method")
  | _ => .error (typeError "round() takes one or two arguments")

/-- {lit}`abs(...)`. -/
def absOf : List Value → Except PyException Value
  | [.float (.finite q)] => .ok (.float (.finite (if 0 ≤ q then q else -q)))
  | [.float .negInf] => .ok (.float .posInf)
  | [.float x] => .ok (.float x)
  | [value] =>
      match value.pyNumber? with
      | some (.int z) => .ok (.int z.natAbs)
      | _ => .error (typeError "bad operand type for abs()")
  | _ => .error (typeError "abs() takes exactly one argument")

/-- {lit}`len(...)`. -/
def lenOf : List Value → Except PyException Value
  | [.str text] => .ok (.int text.toList.length)
  | [.list items] => .ok (.int items.length)
  | [.dict fields] => .ok (.int fields.length)
  | _ => .error (typeError "object has no len()")

/-- A function of one argument on its text. -/
def onText (f : String → String) : List Value → Except PyException Value
  | [value] => (rt.strOf value).map fun text => .str (f text)
  | _ => .error (typeError "<lambda>() takes 1 positional argument")

/-- {lit}`_ALLOWED_FUNCTIONS[name](*args)`. -/
def applyFunction (function : AllowedFunction) (args : List Value) : Except PyException Value :=
  if args.any Value.isForeign then nm.foreignOp "call" args
  else
    match function with
    | .len => lenOf args
    | .str =>
        match args with
        | [] => .ok (.str "")
        | [value] => (rt.strOf value).map .str
        | _ => .error (typeError "decoding to str: need a bytes-like object")
    | .int => intOf nm args
    | .float => floatOf nm args
    | .bool =>
        match args with
        | [] => .ok (.bool false)
        | [value] => .ok (.bool value.truthy)
        | _ => .error (typeError "bool expected at most 1 argument")
    | .round => roundOf nm args
    | .abs => absOf args
    | .min => extremumOf .lt args
    | .max => extremumOf .gt args
    | .lower => onText rt nm.lower args
    | .upper => onText rt nm.upper args
    | .strip => onText rt (fun text => String.ofList (pyStrip text.toList)) args

end

/-! ## What they make of JSON values -/

private theorem isForeign_eq_false {value : Value} (h : value.isJson = true) :
    value.isForeign = false := by
  cases value with
  | foreign name text repr => cases h
  | _ => rfl

/-- A power of integers is no complex number. -/
theorem isComplexPower_int (y z : Int) :
    (PyNumber.int y).worth.isComplexPower (PyNumber.int z).worth = false := by
  simp [PyNumber.worth, PyFloat.isComplexPower]

section

variable {nm : Numerics} {op : ArithOp} {value : Value}

private theorem intArith_isJson {y z : Int} (h : nm.intArith op y z = .ok value) :
    value.isJson = true := by
  cases op with
  | add => cases h; rfl
  | sub => cases h; rfl
  | mult => cases h; rfl
  | div =>
      rcases exceptMap_eq_ok h with ⟨x, _, rfl⟩
      rfl
  | floorDiv =>
      rw [Numerics.intArith] at h
      split at h <;> cases h
      rfl
  | mod =>
      rw [Numerics.intArith] at h
      split at h <;> cases h
      rfl
  | pow =>
      rw [Numerics.intArith] at h
      split at h
      · cases h
        rfl
      · split at h
        · rcases exceptMap_eq_ok h with ⟨x, _, rfl⟩
          rfl
        · cases h
        · cases h

private theorem floatArith_isJson_iff {x y : PyNumber} (h : nm.floatArith op x y = .ok value) :
    value.isJson = true ↔ ¬(op = .pow ∧ x.worth.isComplexPower y.worth = true) := by
  unfold Numerics.floatArith at h
  split at h
  · split at h
    · rename_i hcomplex
      rcases exceptMap_eq_ok h with ⟨texts, _, rfl⟩
      simp [Value.isJson, hcomplex]
    · rename_i hreal
      rcases exceptMap_eq_ok h with ⟨z, _, rfl⟩
      simp [Value.isJson, hreal]
  · cases h
  · cases h

private theorem numArith_isJson_iff {x y : PyNumber} (h : nm.numArith op x y = .ok value) :
    value.isJson = true ↔ ¬(op = .pow ∧ x.worth.isComplexPower y.worth = true) := by
  cases x with
  | float a => exact floatArith_isJson_iff h
  | int a =>
      cases y with
      | float b => exact floatArith_isJson_iff h
      | int b =>
          rw [isComplexPower_int]
          simpa using intArith_isJson h

private theorem repeatSequence_isJson {sequence count : Value} (hsequence : sequence.isJson = true)
    (h : repeatSequence sequence count = .ok value) : value.isJson = true := by
  unfold repeatSequence at h
  split at h
  · cases h
    rfl
  · rename_i items n hcount
    cases h
    refine (itemsAreJson_iff _).mpr fun item hitem => ?_
    rcases List.mem_flatten.mp hitem with ⟨copy, hcopy, hmem⟩
    rw [List.eq_of_mem_replicate hcopy] at hmem
    exact (itemsAreJson_iff items).mp hsequence item hmem
  · cases h

private theorem sequenceArith_isJson {a b : Value} (ha : a.isJson = true) (hb : b.isJson = true)
    (h : nm.sequenceArith op a b = .ok value) : value.isJson = true := by
  unfold Numerics.sequenceArith at h
  split at h
  · cases h
    rfl
  · rename_i xs ys
    cases h
    refine (itemsAreJson_iff _).mpr fun item hitem => ?_
    rcases List.mem_append.mp hitem with hitem | hitem
    · exact (itemsAreJson_iff xs).mp ha item hitem
    · exact (itemsAreJson_iff ys).mp hb item hitem
  · exact repeatSequence_isJson ha h
  · exact repeatSequence_isJson ha h
  · exact repeatSequence_isJson hb h
  · rcases exceptMap_eq_ok h with ⟨text, _, rfl⟩
    rfl
  · cases h

/-- An arithmetic operator makes a JSON value of JSON values, unless it computes a power
that is a complex number. -/
theorem arith_isJson_iff {a b : Value} (ha : a.isJson = true) (hb : b.isJson = true)
    (h : nm.arith op a b = .ok value) :
    value.isJson = true ↔ ¬(op = .pow ∧ a.isComplexPower b = true) := by
  unfold Numerics.arith at h
  split at h
  · rename_i x y hx hy
    rw [Value.isComplexPower, hx, hy]
    exact numArith_isJson_iff h
  · rename_i hnumbers
    have hpower : a.isComplexPower b = false := by
      unfold Value.isComplexPower
      split
      · rename_i x y hx hy
        exact absurd hy (hnumbers x y hx)
      · rfl
    rw [isForeign_eq_false ha, isForeign_eq_false hb] at h
    rw [hpower]
    simpa using sequenceArith_isJson ha hb h

/-- A power that is a complex number is no JSON value. -/
theorem isJson_of_complexPower {a b : Value} (hpower : a.isComplexPower b = true)
    (h : nm.arith .pow a b = .ok value) : value.isJson = false := by
  unfold Value.isComplexPower at hpower
  split at hpower
  · rename_i x y hx hy
    have harith : nm.numArith .pow x y = .ok value := by
      rw [← h, Numerics.arith, hx, hy]
    simpa [hpower] using numArith_isJson_iff harith
  · cases hpower

theorem negate_isJson {operand : Value} (hoperand : operand.isJson = true)
    (h : nm.negate operand = .ok value) : value.isJson = true := by
  unfold Numerics.negate at h
  split at h
  · cases hoperand
  all_goals first
    | cases h
      rfl
    | split at h <;> cases h
      rfl

theorem posate_isJson {operand : Value} (hoperand : operand.isJson = true)
    (h : nm.posate operand = .ok value) : value.isJson = true := by
  unfold Numerics.posate at h
  split at h
  · cases hoperand
  · cases h
    rfl
  · split at h <;> cases h
    rfl

end

private theorem textItems_isJson (text : String) : ∀ item ∈ textItems text, item.isJson = true := by
  intro item hitem
  rcases List.mem_map.mp hitem with ⟨c, _, rfl⟩
  rfl

private theorem itemAt_isJson {items : List Value} {index value : Value}
    (hitems : ∀ item ∈ items, item.isJson = true) (h : itemAt items index = .ok value) :
    value.isJson = true := by
  unfold itemAt at h
  split at h
  · split at h
    · rename_i item hitem
      cases h
      rcases Option.bind_eq_some_iff.mp hitem with ⟨i, _, hget⟩
      exact hitems value (List.mem_of_getElem? hget)
    · cases h
  · cases h

/-- What a JSON object holds under a key. -/
theorem field_isJson {fields : Fields} {key : String} {value : Value}
    (hfields : (Value.dict fields).isJson = true)
    (h : OrderedDict.findPair key fields = some value) : value.isJson = true := by
  induction fields with
  | nil => cases h
  | cons field rest ih =>
      have hall := (fieldsAreJson_iff _).mp hfields
      rw [OrderedDict.findPair] at h
      split at h
      · cases h
        exact hall field List.mem_cons_self
      · exact ih ((fieldsAreJson_iff rest).mpr fun other hother =>
          hall other (List.mem_cons_of_mem _ hother)) h

/-- What a subscript takes out of a JSON value is a JSON value. -/
theorem pySubscript_isJson {base index value : Value} (hbase : base.isJson = true)
    (h : pySubscript base index = .ok value) : value.isJson = true := by
  cases base with
  | list items => exact itemAt_isJson ((itemsAreJson_iff items).mp hbase) h
  | str text => exact itemAt_isJson (textItems_isJson text) h
  | dict fields =>
      cases index with
      | str key =>
          rw [pySubscript] at h
          split at h
          · rename_i found hfound
            cases h
            exact field_isJson hbase hfound
          · cases h
      | _ => cases h
  | _ => cases h

private theorem iterItems_isJson {value : Value} {items : List Value} (hvalue : value.isJson = true)
    (h : iterItems? value = some items) : ∀ item ∈ items, item.isJson = true := by
  cases value with
  | list elements =>
      cases h
      exact (itemsAreJson_iff items).mp hvalue
  | str text =>
      cases h
      exact textItems_isJson text
  | dict fields =>
      cases h
      intro item hitem
      rcases List.mem_map.mp hitem with ⟨field, _, rfl⟩
      rfl
  | _ => cases h

/-- {lit}`min` and {lit}`max` give back one of the values. -/
theorem extremum_mem {op : OrderOp} {best value : Value} {rest : List Value}
    (h : extremum op best rest = .ok value) : value ∈ best :: rest := by
  induction rest generalizing best with
  | nil =>
      cases h
      exact List.mem_cons_self
  | cons next rest ih =>
      rw [extremum] at h
      split at h
      · cases h
      · exact List.mem_cons_of_mem _ (ih h)
      · rcases List.mem_cons.mp (ih h) with rfl | hmem
        · exact List.mem_cons_self
        · exact List.mem_cons_of_mem _ (List.mem_cons_of_mem _ hmem)

private theorem extremumOf_isJson {op : OrderOp} {args : List Value} {value : Value}
    (hargs : ∀ arg ∈ args, arg.isJson = true) (h : extremumOf op args = .ok value) :
    value.isJson = true := by
  unfold extremumOf at h
  split at h
  · cases h
  · rename_i only
    split at h
    · cases h
    · cases h
    · rename_i first rest hitems
      exact iterItems_isJson (hargs only List.mem_cons_self) hitems value (extremum_mem h)
  · exact hargs value (extremum_mem h)

section

variable {rt : Runtime} {nm : Numerics} {args : List Value} {value : Value}

private theorem lenOf_isJson (h : lenOf args = .ok value) : value.isJson = true := by
  unfold lenOf at h
  split at h <;> cases h <;> rfl

private theorem absOf_isJson (h : absOf args = .ok value) : value.isJson = true := by
  unfold absOf at h
  split at h
  · cases h
    rfl
  · cases h
    rfl
  · cases h
    rfl
  · split at h <;> cases h
    rfl
  · cases h

private theorem onText_isJson {f : String → String} (h : onText rt f args = .ok value) :
    value.isJson = true := by
  unfold onText at h
  split at h
  · rcases exceptMap_eq_ok h with ⟨text, _, rfl⟩
    rfl
  · cases h

private theorem intOf_isJson (h : intOf nm args = .ok value) : value.isJson = true := by
  unfold intOf at h
  split at h
  · cases h
    rfl
  · rcases exceptMap_eq_ok h with ⟨z, _, rfl⟩
    rfl
  · rcases exceptMap_eq_ok h with ⟨z, _, rfl⟩
    rfl
  · split at h <;> cases h
    rfl
  · split at h
    · rcases exceptMap_eq_ok h with ⟨z, _, rfl⟩
      rfl
    · cases h
  · cases h

private theorem floatOf_isJson (h : floatOf nm args = .ok value) : value.isJson = true := by
  unfold floatOf at h
  split at h
  · cases h
    rfl
  · rcases exceptMap_eq_ok h with ⟨x, _, rfl⟩
    rfl
  · split at h
    · rcases exceptMap_eq_ok h with ⟨x, _, rfl⟩
      rfl
    · cases h
  · cases h

private theorem roundOf_isJson (h : roundOf nm args = .ok value) : value.isJson = true := by
  unfold roundOf at h
  split at h
  · rcases exceptMap_eq_ok h with ⟨z, _, rfl⟩
    rfl
  · rcases exceptMap_eq_ok h with ⟨z, _, rfl⟩
    rfl
  · split at h
    · rcases exceptMap_eq_ok h with ⟨x, _, rfl⟩
      rfl
    · cases h
  · split at h <;> cases h
    rfl
  · split at h
    · cases h
      rfl
    · split at h <;> cases h
      rfl
    · cases h
  · cases h

/-- A whitelisted function makes a JSON value of JSON values. -/
theorem applyFunction_isJson {function : AllowedFunction}
    (hargs : ∀ arg ∈ args, arg.isJson = true)
    (h : applyFunction rt nm function args = .ok value) : value.isJson = true := by
  have hforeign : args.any Value.isForeign = false :=
    List.any_eq_false.mpr fun arg harg => by simp [isForeign_eq_false (hargs arg harg)]
  unfold applyFunction at h
  rw [hforeign, if_neg Bool.false_ne_true] at h
  cases function with
  | len => exact lenOf_isJson h
  | str =>
      dsimp only at h
      split at h
      · cases h
        rfl
      · rcases exceptMap_eq_ok h with ⟨text, _, rfl⟩
        rfl
      · cases h
  | int => exact intOf_isJson h
  | float => exact floatOf_isJson h
  | bool =>
      dsimp only at h
      split at h <;> cases h <;> rfl
  | round => exact roundOf_isJson h
  | abs => exact absOf_isJson h
  | min => exact extremumOf_isJson hargs h
  | max => exact extremumOf_isJson hargs h
  | lower => exact onText_isJson h
  | upper => exact onText_isJson h
  | strip => exact onText_isJson h

end

end EtlTool
