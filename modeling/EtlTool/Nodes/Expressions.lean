import EtlTool.Foundations.TracedRuns
import EtlTool.Nodes.ExpressionOperators

/-!
# Expressions of computed fields

The syntax of Python expressions, as far as the evaluator of computed fields looks at it,
and the evaluator itself.  It walks an expression over a record: operators, comparisons,
subscripts and a few functions, with the short circuits of Python.  Every other element of
an expression is refused when the walk comes to it, not before.

The evaluator makes a note of every value that it makes, so that intermediate values can be
spoken of.

Main results:

- Theorem {lit}`evaluate_guarantees`: what every step of an evaluation keeps, the
  evaluation of every expression keeps.
- Theorem {lit}`computeRecords_eq_error_iff`: a computed field fails on the first record
  on which its evaluation fails.

Current gaps:

- The parser is a parameter, and so is the message of its {lit}`SyntaxError`.
- The recursion limit of the interpreter.
-/

namespace EtlTool

open TracedRuns

/-! ## Syntax -/

/-- {lit}`ast.operator`. -/
inductive Operator where
  | add
  | sub
  | mult
  | matMult
  | div
  | mod
  | pow
  | lShift
  | rShift
  | bitOr
  | bitXor
  | bitAnd
  | floorDiv

/-- {lit}`ast.unaryop`. -/
inductive UnaryOp where
  | invert
  | not
  | uAdd
  | uSub
deriving DecidableEq

/-- {lit}`ast.boolop`. -/
inductive BoolOp where
  | and
  | or

/-- {lit}`ast.cmpop`. -/
inductive CmpOp where
  | eq
  | notEq
  | lt
  | ltE
  | gt
  | gtE
  | is
  | isNot
  | in
  | notIn

/-- The value of an {lit}`ast.Constant`. -/
inductive Literal where
  | none
  | bool (b : Bool)
  | int (z : Int)
  | float (x : PyFloat)
  | str (s : String)
  | complex (repr : String)
  | bytes (repr : String)
  | ellipsis

/-- The other kinds of nodes; the evaluator does not look into them. -/
inductive OtherNode where
  | namedExpr
  | lambda
  | dict
  | set
  | listComp
  | setComp
  | dictComp
  | generatorExp
  | await
  | yield
  | yieldFrom
  | formattedValue
  | joinedStr
  | starred
  | slice

/-- {lit}`ast.expr`. -/
inductive Expr where
  | constant (value : Literal)
  | name (id : String)
  | attribute (value : Expr) (attr : String)
  | subscript (value slice : Expr)
  | binOp (left : Expr) (op : Operator) (right : Expr)
  | unaryOp (op : UnaryOp) (operand : Expr)
  | boolOp (op : BoolOp) (values : List Expr)
  | compare (left : Expr) (comparators : List (CmpOp × Expr))
  | ifExp (test body orelse : Expr)
  | call (func : Expr) (args : List Expr) (keywords : List (Option String × Expr))
  | list (elts : List Expr)
  | tuple (elts : List Expr)
  | other (kind : OtherNode)

/-- The name of the operator's class. -/
def Operator.typeName : Operator → String
  | .add => "Add"
  | .sub => "Sub"
  | .mult => "Mult"
  | .matMult => "MatMult"
  | .div => "Div"
  | .mod => "Mod"
  | .pow => "Pow"
  | .lShift => "LShift"
  | .rShift => "RShift"
  | .bitOr => "BitOr"
  | .bitXor => "BitXor"
  | .bitAnd => "BitAnd"
  | .floorDiv => "FloorDiv"

/-- The name of the comparison's class. -/
def CmpOp.typeName : CmpOp → String
  | .eq => "Eq"
  | .notEq => "NotEq"
  | .lt => "Lt"
  | .ltE => "LtE"
  | .gt => "Gt"
  | .gtE => "GtE"
  | .is => "Is"
  | .isNot => "IsNot"
  | .in => "In"
  | .notIn => "NotIn"

/-- The name of the node's class. -/
def OtherNode.typeName : OtherNode → String
  | .namedExpr => "NamedExpr"
  | .lambda => "Lambda"
  | .dict => "Dict"
  | .set => "Set"
  | .listComp => "ListComp"
  | .setComp => "SetComp"
  | .dictComp => "DictComp"
  | .generatorExp => "GeneratorExp"
  | .await => "Await"
  | .yield => "Yield"
  | .yieldFrom => "YieldFrom"
  | .formattedValue => "FormattedValue"
  | .joinedStr => "JoinedStr"
  | .starred => "Starred"
  | .slice => "Slice"

/-! ## The whitelist -/

/-- {lit}`_ALLOWED_BINOPS.get(type(op))`. -/
def Operator.handler? : Operator → Option ArithOp
  | .add => some .add
  | .sub => some .sub
  | .mult => some .mult
  | .div => some .div
  | .floorDiv => some .floorDiv
  | .mod => some .mod
  | .pow => some .pow
  | _ => none

/-- The comparisons that are allowed. -/
inductive AllowedCmp where
  | eq
  | notEq
  | order (op : OrderOp)
  | in
  | notIn

/-- {lit}`_ALLOWED_CMPOPS.get(type(op))`. -/
def CmpOp.handler? : CmpOp → Option AllowedCmp
  | .eq => some .eq
  | .notEq => some .notEq
  | .lt => some (.order .lt)
  | .ltE => some (.order .ltE)
  | .gt => some (.order .gt)
  | .gtE => some (.order .gtE)
  | .in => some .in
  | .notIn => some .notIn
  | _ => none

/-- The value of a literal, if it is of an allowed kind. -/
def Literal.value? : Literal → Option Value
  | .none => some .none
  | .bool b => some (.bool b)
  | .int z => some (.int z)
  | .float x => some (.float x)
  | .str s => some (.str s)
  | _ => Option.none

/-- The {lit}`repr` of a literal that is not allowed. -/
def Literal.repr : Literal → String
  | .complex repr => repr
  | .bytes repr => repr
  | _ => "Ellipsis"

/-- The whitelisted function that a call names. -/
def Expr.function? : Expr → Option (String × AllowedFunction)
  | .name id => (OrderedDict.findPair id allowedFunctions).map fun function => (id, function)
  | _ => none

mutual

/-- The expression has an element outside the whitelist, at some depth: a node kind, an
operator, a literal, a called function, or a keyword or starred argument. -/
def Expr.forbidden : Expr → Bool
  | .constant literal => literal.value?.isNone
  | .name _ => false
  | .attribute value _ => forbidden value
  | .subscript value slice => forbidden value || forbidden slice
  | .binOp left op right => op.handler?.isNone || forbidden left || forbidden right
  | .unaryOp op operand => decide (op = .invert) || forbidden operand
  | .boolOp _ values => anyForbidden values
  | .compare left comparators => forbidden left || comparatorsForbidden comparators
  | .ifExp test body orelse => forbidden test || forbidden body || forbidden orelse
  | .call func args keywords => func.function?.isNone || !keywords.isEmpty || anyForbidden args
  | .list elts => anyForbidden elts
  | .tuple elts => anyForbidden elts
  | .other _ => true

/-- One of the expressions has such an element. -/
def Expr.anyForbidden : List Expr → Bool
  | [] => false
  | e :: rest => forbidden e || anyForbidden rest

/-- One of the comparisons or of their operands is such an element or has one. -/
def Expr.comparatorsForbidden : List (CmpOp × Expr) → Bool
  | [] => false
  | (op, e) :: rest => op.handler?.isNone || forbidden e || comparatorsForbidden rest

end

/-! ## Errors -/

/-- The cases of {lit}`ExpressionError`. -/
inductive ExpressionError where
  | invalid (expression msg : String)
  | literal (repr : String)
  | attribute (attr : String)
  | subscript (text : String)
  | operator (typeName : String)
  | comparison (typeName : String)
  | function
  | keywords
  | element (typeName : String)

/-- {lit}`str(exc)` of an {lit}`ExpressionError`. -/
def ExpressionError.text (rt : Runtime) : ExpressionError → String
  | .invalid expression msg => "invalid expression " ++ rt.reprStr expression ++ ": " ++ msg
  | .literal repr => "literal " ++ repr ++ " is not allowed"
  | .attribute attr => "attribute access '." ++ attr ++ "' is only allowed on objects (dicts)"
  | .subscript text => "subscript failed: " ++ text
  | .operator typeName => "operator " ++ typeName ++ " is not allowed"
  | .comparison typeName => "comparison " ++ typeName ++ " is not allowed"
  | .function =>
      "only these functions are allowed: " ++
        ", ".intercalate ((allowedFunctions.map Prod.fst).insertionSort (· ≤ ·))
  | .keywords => "keyword arguments are not allowed"
  | .element typeName => "expression element " ++ typeName ++ " is not allowed"

/-- The error reports an element outside the whitelist, and not a failure on the values of
a record. -/
def ExpressionError.reportsForbidden : ExpressionError → Bool
  | .invalid _ _ => false
  | .attribute _ => false
  | .subscript _ => false
  | _ => true

/-- What the evaluator raises. -/
inductive EvaluationError where
  | expression (error : ExpressionError)
  | other (exc : PyException)

/-! ## Evaluation -/

/-- What the evaluator makes on its way. -/
inductive Step where
  | value (v : Value)
  | attribute (base : Value) (attr : String) (v : Value)
  | operator (op : ArithOp) (a b v : Value)
  | function (name : String) (args : List Value) (v : Value)

/-- The value that a step makes. -/
def Step.made : Step → Value
  | .value v => v
  | .attribute _ _ v => v
  | .operator _ _ _ v => v
  | .function _ _ v => v

abbrev Evaluation := Traced Step EvaluationError

/-- Make a value. -/
def make (v : Value) : Evaluation Value :=
  .noted (.value v) v

/-- Raise an {lit}`ExpressionError`. -/
def refuse (error : ExpressionError) : Evaluation Value :=
  .fail (.expression error)

/-- {lit}`_ALLOWED_CMPOPS[type(op)](left, right)`. -/
def AllowedCmp.apply (op : AllowedCmp) (left right : Value) : Except EvaluationError Bool :=
  match op with
  | .eq => .ok (left.pyEq right)
  | .notEq => .ok (!left.pyEq right)
  | .order op =>
      match left.pyOrder? op right with
      | some holds => .ok holds
      | none => .error (.other (typeError "not supported between instances"))
  | .in =>
      match left.pyIn? right with
      | some holds => .ok holds
      | none => .error (.other (typeError "argument is not iterable"))
  | .notIn =>
      match left.pyIn? right with
      | some holds => .ok !holds
      | none => .error (.other (typeError "argument is not iterable"))

/-- The exceptions of a subscript that become {lit}`ExpressionError`s. -/
def subscriptError (exc : PyException) : EvaluationError :=
  if exc.typeName = "KeyError" ∨ exc.typeName = "IndexError" ∨ exc.typeName = "TypeError" then
    .expression (.subscript exc.message)
  else .other exc

/-- {lit}`base.attr`: only dicts have attributes. -/
def pyAttribute (attr : String) : Value → Evaluation Value
  | .dict fields =>
      let v := (OrderedDict.findPair attr fields).getD .none
      .noted (.attribute (.dict fields) attr v) v
  | _ => refuse (.attribute attr)

section

variable (rt : Runtime) (nm : Numerics)

/-- The unary operators. -/
def applyUnary (op : UnaryOp) (operand : Value) : Evaluation Value :=
  match op with
  | .uSub => .attempt .value ((nm.negate operand).mapError .other)
  | .uAdd => .attempt .value ((nm.posate operand).mapError .other)
  | .not => make (.bool !operand.truthy)
  | .invert => refuse (.operator "Invert")

/-- Whether a value ends the evaluation of {lit}`and` or {lit}`or`. -/
def BoolOp.stops : BoolOp → Value → Bool
  | .and, v => !v.truthy
  | .or, v => v.truthy

/-- What {lit}`and` and {lit}`or` start with. -/
def BoolOp.initial : BoolOp → Value
  | .and => .bool true
  | .or => .bool false

mutual

/-- {lit}`evaluate` of {lit}`compile_expression`. -/
def evaluate (record : Fields) : Expr → Evaluation Value
  | .constant literal =>
      match literal.value? with
      | some v => make v
      | none => refuse (.literal literal.repr)
  | .name id => make ((OrderedDict.findPair id record).getD .none)
  | .attribute value attr => (evaluate record value).bind fun base => pyAttribute attr base
  | .subscript value slice =>
      (evaluate record value).bind fun base =>
        (evaluate record slice).bind fun index =>
          .attempt .value ((pySubscript base index).mapError subscriptError)
  | .binOp left op right =>
      match op.handler? with
      | none => refuse (.operator op.typeName)
      | some handler =>
          (evaluate record left).bind fun a =>
            (evaluate record right).bind fun b =>
              .attempt (.operator handler a b) ((nm.arith handler a b).mapError .other)
  | .unaryOp op operand => (evaluate record operand).bind fun v => applyUnary nm op v
  | .boolOp op values => evaluateBool record op op.initial values
  | .compare left comparators =>
      (evaluate record left).bind fun v => evaluateCompare record v comparators
  | .ifExp test body orelse =>
      (evaluate record test).bind fun condition =>
        if condition.truthy then evaluate record body else evaluate record orelse
  | .call func args keywords =>
      match func.function? with
      | none => refuse .function
      | some (name, function) =>
          if keywords.isEmpty then
            (evaluateItems record args).bind fun values =>
              .attempt (.function name values)
                ((applyFunction rt nm function values).mapError .other)
          else refuse .keywords
  | .list elts => (evaluateItems record elts).bind fun items => make (.list items)
  | .tuple elts => (evaluateItems record elts).bind fun items => make (.list items)
  | .other kind => refuse (.element kind.typeName)

/-- The loops over the values of {lit}`and` and {lit}`or`. -/
def evaluateBool (record : Fields) (op : BoolOp) (result : Value) :
    List Expr → Evaluation Value
  | [] => .pure result
  | e :: rest =>
      (evaluate record e).bind fun v =>
        if op.stops v then .pure v else evaluateBool record op v rest

/-- The loop over the comparisons of a chain. -/
def evaluateCompare (record : Fields) (left : Value) : List (CmpOp × Expr) → Evaluation Value
  | [] => make (.bool true)
  | (op, e) :: rest =>
      match op.handler? with
      | none => refuse (.comparison op.typeName)
      | some handler =>
          (evaluate record e).bind fun right =>
            match handler.apply left right with
            | .error error => .fail error
            | .ok false => make (.bool false)
            | .ok true => evaluateCompare record right rest

/-- The arguments of a call, or the items of a list. -/
def evaluateItems (record : Fields) : List Expr → Evaluation (List Value)
  | [] => .pure []
  | e :: rest =>
      (evaluate record e).bind fun v =>
        (evaluateItems record rest).bind fun values => .pure (v :: values)

end

end

/-! ## Computed fields -/

/-- {lit}`ComputedOp`. -/
structure ComputedOp where
  target : String
  expression : String

/-- The loop over the records: an evaluation that fails ends it, at the index of its
record. -/
def computeRecords (evaluator : Fields → Evaluation Value) (target : String) :
    Nat → Records → Except (Nat × EvaluationError) Records
  | _, [] => .ok []
  | i, record :: rest =>
      match (evaluator record).result with
      | .error error => .error (i, error)
      | .ok v =>
          (computeRecords evaluator target (i + 1) rest).map
            fun records => OrderedDict.setPair target v record :: records

section

variable (rt : Runtime) (nm : Numerics) (parse : String → Except String Expr)

/-- {lit}`compile_expression`. -/
def compileExpression (expression : String) :
    Except ExpressionError (Fields → Evaluation Value) :=
  match parse expression with
  | .error msg => .error (.invalid expression msg)
  | .ok tree => .ok fun record => evaluate rt nm record tree

/-- The message of a computed field that fails on a record. -/
def computedMessage (target : String) (i : Nat) : EvaluationError → String
  | .expression error => "computed field " ++ rt.reprStr target ++ " failed: " ++ error.text rt
  | .other exc =>
      "computed field " ++ rt.reprStr target ++ " failed on record " ++ toString i ++ ": " ++
        exc.typeName ++ ": " ++ exc.message

/-- {lit}`TransformNode._apply` for a {lit}`ComputedOp`. -/
def applyComputed (ctx : NodeContext) (op : ComputedOp) (records : Records) :
    Except Raised Records :=
  match compileExpression rt nm parse op.expression with
  | .error error => .error (.node (ctx.error .config (error.text rt)))
  | .ok evaluator =>
      match computeRecords evaluator op.target 0 records with
      | .ok out => .ok out
      | .error (i, error) =>
          .error (.node { ctx.error .transform (computedMessage rt op.target i error) with
            details := some (ctx.run.redactor.redactFields
              [("expression", .str op.expression), ("record_index", .int i)]) })

end

/-- A computed field fails on the first record on which its evaluation fails. -/
theorem computeRecords_eq_error_iff {evaluator : Fields → Evaluation Value} {target : String}
    {records : Records} {i j : Nat} {error : EvaluationError} :
    computeRecords evaluator target i records = .error (j, error) ↔
      ∃ before record after, records = before ++ record :: after ∧ j = i + before.length ∧
        (∀ earlier ∈ before, ∃ v, (evaluator earlier).result = .ok v) ∧
        (evaluator record).result = .error error := by
  induction records generalizing i with
  | nil => simp [computeRecords]
  | cons record rest ih =>
      rw [computeRecords]
      cases hresult : (evaluator record).result with
      | error error' =>
          constructor
          · intro h
            cases h
            exact ⟨[], record, rest, rfl, rfl, by simp, hresult⟩
          · rintro ⟨before, record', after, heq, rfl, hbefore, hrecord⟩
            cases before with
            | nil =>
                cases heq
                cases hresult.symm.trans hrecord
                rfl
            | cons first others =>
                cases heq
                rcases hbefore _ List.mem_cons_self with ⟨v, hv⟩
                cases hresult.symm.trans hv
      | ok v =>
          have hmap : ((computeRecords evaluator target (i + 1) rest).map
                fun records => OrderedDict.setPair target v record :: records) =
                .error (j, error) ↔
              computeRecords evaluator target (i + 1) rest = .error (j, error) := by
            cases computeRecords evaluator target (i + 1) rest <;> simp [Except.map]
          rw [hmap, ih]
          constructor
          · rintro ⟨before, record', after, rfl, rfl, hbefore, hrecord⟩
            refine ⟨record :: before, record', after, rfl, ?_, ?_, hrecord⟩
            · simp only [List.length_cons]
              omega
            · exact List.forall_mem_cons.mpr ⟨⟨v, hresult⟩, hbefore⟩
          · rintro ⟨before, record', after, heq, rfl, hbefore, hrecord⟩
            cases before with
            | nil =>
                cases heq
                cases hresult.symm.trans hrecord
            | cons first others =>
                cases heq
                refine ⟨others, record', after, rfl, ?_, ?_, hrecord⟩
                · simp only [List.length_cons]
                  omega
                · exact fun earlier h => hbefore earlier (List.mem_cons_of_mem _ h)

/-- The records that a computed field is added to. -/
theorem mem_of_computeRecords {evaluator : Fields → Evaluation Value} {target : String}
    {records out : Records} {i : Nat}
    (h : computeRecords evaluator target i records = .ok out) :
    ∀ made ∈ out, ∃ record ∈ records, ∃ v, (evaluator record).result = .ok v ∧
      made = OrderedDict.setPair target v record := by
  induction records generalizing i out with
  | nil =>
      cases h
      exact fun made hmade => absurd hmade List.not_mem_nil
  | cons record rest ih =>
      rw [computeRecords] at h
      split at h
      · cases h
      · rename_i v hresult
        rcases exceptMap_eq_ok h with ⟨others, hothers, rfl⟩
        refine List.forall_mem_cons.mpr ⟨⟨record, List.mem_cons_self, v, hresult, rfl⟩, ?_⟩
        intro made hmade
        rcases ih hothers made hmade with ⟨other, hother, hv⟩
        exact ⟨other, List.mem_cons_of_mem _ hother, hv⟩

/-! ## What an evaluation keeps -/

/-- Each step of an evaluation keeps the values good and its note as guaranteed, and fails
only as allowed, as long as its note is as assumed. -/
structure StepsKeep (rt : Runtime) (nm : Numerics) (record : Fields)
    (Assumed Guaranteed : Step → Prop) (Good : Value → Prop) (Failure : EvaluationError → Prop) :
    Prop where
  value : ∀ v, Good v → Guaranteed (.value v)
  literal : ∀ (literal : Literal) (v : Value), literal.value? = some v → Good v
  field : ∀ id, Good ((OrderedDict.findPair id record).getD .none)
  bool : ∀ b, Good (.bool b)
  list : ∀ items : List Value, (∀ item ∈ items, Good item) → Good (.list items)
  member : ∀ fields attr, Good (.dict fields) →
    Good ((OrderedDict.findPair attr fields).getD .none)
  memberNote : ∀ fields attr v, Good v → Guaranteed (.attribute (.dict fields) attr v)
  subscript : ∀ base index v, Good base → pySubscript base index = .ok v → Good v
  operator : ∀ op a b v, Good a → Good b → nm.arith op a b = .ok v →
    Assumed (.operator op a b v) → Good v
  operatorNote : ∀ op a b v, nm.arith op a b = .ok v → Good v → Guaranteed (.operator op a b v)
  negate : ∀ operand v, Good operand → nm.negate operand = .ok v → Good v
  posate : ∀ operand v, Good operand → nm.posate operand = .ok v → Good v
  function : ∀ f args v, (∀ arg ∈ args, Good arg) → applyFunction rt nm f args = .ok v → Good v
  functionNote : ∀ name f args v, OrderedDict.findPair name allowedFunctions = some f →
    Good v → Guaranteed (.function name args v)
  exception : ∀ exc, Failure (.other exc)
  data : ∀ error : ExpressionError, error.reportsForbidden = false → Failure (.expression error)

namespace StepsKeep

variable {rt : Runtime} {nm : Numerics} {record : Fields} {Assumed Guaranteed : Step → Prop}
variable {Good : Value → Prop} {Failure : EvaluationError → Prop}

private theorem make (keeps : StepsKeep rt nm record Assumed Guaranteed Good Failure) {v : Value}
    (h : Good v) : Guarantees Assumed Guaranteed Good Failure (make v) :=
  Guarantees.noted (fun _ => keeps.value v h) fun _ => h

private theorem pyAttribute (keeps : StepsKeep rt nm record Assumed Guaranteed Good Failure)
    (attr : String) {base : Value} (h : Good base) :
    Guarantees Assumed Guaranteed Good Failure (pyAttribute attr base) := by
  cases base with
  | dict fields =>
      have hgood := keeps.member fields attr h
      exact Guarantees.noted (fun _ => keeps.memberNote fields attr _ hgood) fun _ => hgood
  | _ => exact Guarantees.fail (keeps.data (.attribute attr) rfl)

private theorem attemptSubscript (keeps : StepsKeep rt nm record Assumed Guaranteed Good Failure)
    {base : Value} (index : Value) (h : Good base) :
    Guarantees Assumed Guaranteed Good Failure
      (.attempt .value ((pySubscript base index).mapError subscriptError)) := by
  refine Guarantees.attempt_mapError
    (fun v hv _ => keeps.value v (keeps.subscript base index v h hv))
    (fun v hv _ => keeps.subscript base index v h hv) fun exc _ => ?_
  unfold subscriptError
  split
  · exact keeps.data _ rfl
  · exact keeps.exception exc

private theorem attemptArith (keeps : StepsKeep rt nm record Assumed Guaranteed Good Failure)
    (op : ArithOp) {a b : Value} (ha : Good a) (hb : Good b) :
    Guarantees Assumed Guaranteed Good Failure
      (.attempt (.operator op a b) ((nm.arith op a b).mapError .other)) :=
  Guarantees.attempt_mapError
    (fun v hv hassumed =>
      keeps.operatorNote op a b v hv (keeps.operator op a b v ha hb hv hassumed))
    (fun v hv hassumed => keeps.operator op a b v ha hb hv hassumed)
    fun exc _ => keeps.exception exc

/-- The unary operators other than {lit}`~`. -/
theorem applyUnary (keeps : StepsKeep rt nm record Assumed Guaranteed Good Failure)
    (op : UnaryOp) {operand : Value} (h : Good operand)
    (hop : op = .invert → ∀ error, Failure (.expression error)) :
    Guarantees Assumed Guaranteed Good Failure (applyUnary nm op operand) := by
  cases op with
  | uSub =>
      exact Guarantees.attempt_mapError
        (fun v hv _ => keeps.value v (keeps.negate operand v h hv))
        (fun v hv _ => keeps.negate operand v h hv) fun exc _ => keeps.exception exc
  | uAdd =>
      exact Guarantees.attempt_mapError
        (fun v hv _ => keeps.value v (keeps.posate operand v h hv))
        (fun v hv _ => keeps.posate operand v h hv) fun exc _ => keeps.exception exc
  | not => exact keeps.make (keeps.bool _)
  | invert => exact Guarantees.fail (hop rfl _)

private theorem attemptCall (keeps : StepsKeep rt nm record Assumed Guaranteed Good Failure)
    {name : String} {f : AllowedFunction}
    (hname : OrderedDict.findPair name allowedFunctions = some f) {args : List Value}
    (hargs : ∀ arg ∈ args, Good arg) :
    Guarantees Assumed Guaranteed Good Failure
      (.attempt (.function name args) ((applyFunction rt nm f args).mapError .other)) :=
  Guarantees.attempt_mapError
    (fun v hv _ => keeps.functionNote name f args v hname (keeps.function f args v hargs hv))
    (fun v hv _ => keeps.function f args v hargs hv) fun exc _ => keeps.exception exc

private theorem failure_of_apply (keeps : StepsKeep rt nm record Assumed Guaranteed Good Failure)
    {op : AllowedCmp} {left right : Value} {error : EvaluationError}
    (h : op.apply left right = .error error) : Failure error := by
  cases op with
  | eq => cases h
  | notEq => cases h
  | _ =>
      rw [AllowedCmp.apply] at h
      split at h <;> cases h
      exact keeps.exception _

end StepsKeep

/-- The function that a call names is in the whitelist under its name. -/
theorem function?_eq_some {func : Expr} {name : String} {f : AllowedFunction}
    (h : func.function? = some (name, f)) : OrderedDict.findPair name allowedFunctions = some f := by
  cases func with
  | name id =>
      rcases Option.map_eq_some_iff.mp h with ⟨f', hfind, heq⟩
      cases heq
      exact hfind
  | _ => cases h

section

variable {rt : Runtime} {nm : Numerics} {record : Fields} {Assumed Guaranteed : Step → Prop}
variable {Good : Value → Prop} {Failure : EvaluationError → Prop}

mutual

/-- What every step of an evaluation keeps, the evaluation of every expression keeps, where
an expression with an element outside the whitelist may fail in any way. -/
theorem evaluate_guarantees (keeps : StepsKeep rt nm record Assumed Guaranteed Good Failure) :
    ∀ e : Expr, (e.forbidden = true → ∀ error, Failure (.expression error)) →
      Guarantees Assumed Guaranteed Good Failure (evaluate rt nm record e)
  | .constant literal, h => by
      rw [evaluate]
      split
      · rename_i v hv
        exact keeps.make (keeps.literal literal v hv)
      · rename_i hnone
        exact Guarantees.fail (h (by rw [Expr.forbidden, hnone]; rfl) _)
  | .name id, _ => by
      rw [evaluate]
      exact keeps.make (keeps.field id)
  | .attribute value attr, h => by
      rw [evaluate]
      exact (evaluate_guarantees keeps value h).bind fun base hbase => keeps.pyAttribute attr hbase
  | .subscript value slice, h => by
      rw [evaluate]
      have hvalue := evaluate_guarantees keeps value fun hf => h (by simp [Expr.forbidden, hf])
      have hslice := evaluate_guarantees keeps slice fun hf => h (by simp [Expr.forbidden, hf])
      exact hvalue.bind fun base hbase => hslice.bind fun index _ =>
        keeps.attemptSubscript index hbase
  | .binOp left op right, h => by
      rw [evaluate]
      split
      · rename_i hnone
        exact Guarantees.fail (h (by simp [Expr.forbidden, hnone]) _)
      · rename_i handler hhandler
        have hleft := evaluate_guarantees keeps left fun hf => h (by simp [Expr.forbidden, hf])
        have hright := evaluate_guarantees keeps right fun hf => h (by simp [Expr.forbidden, hf])
        exact hleft.bind fun a ha => hright.bind fun b hb => keeps.attemptArith handler ha hb
  | .unaryOp op operand, h => by
      rw [evaluate]
      have hoperand := evaluate_guarantees keeps operand fun hf =>
        h (by simp [Expr.forbidden, hf])
      exact hoperand.bind fun v hv => keeps.applyUnary op hv fun hop =>
        h (by simp [Expr.forbidden, hop])
  | .boolOp op values, h => by
      rw [evaluate]
      refine evaluateBool_guarantees keeps op values h ?_
      cases op <;> exact keeps.bool _
  | .compare left comparators, h => by
      rw [evaluate]
      have hleft := evaluate_guarantees keeps left fun hf => h (by simp [Expr.forbidden, hf])
      exact hleft.bind fun v _ => evaluateCompare_guarantees keeps comparators
        (fun hf => h (by simp [Expr.forbidden, hf])) v
  | .ifExp test body orelse, h => by
      rw [evaluate]
      have htest := evaluate_guarantees keeps test fun hf => h (by simp [Expr.forbidden, hf])
      have hbody := evaluate_guarantees keeps body fun hf => h (by simp [Expr.forbidden, hf])
      have horelse := evaluate_guarantees keeps orelse fun hf =>
        h (by simp [Expr.forbidden, hf])
      refine htest.bind fun condition _ => ?_
      split
      · exact hbody
      · exact horelse
  | .call func args keywords, h => by
      rw [evaluate]
      split
      · rename_i hnone
        exact Guarantees.fail (h (by simp [Expr.forbidden, hnone]) _)
      · rename_i name f hfunc
        split
        · have hargs := evaluateItems_guarantees keeps args fun hf =>
            h (by simp [Expr.forbidden, hf])
          exact hargs.bind fun values hvalues =>
            keeps.attemptCall (function?_eq_some hfunc) hvalues
        · rename_i hkeywords
          exact Guarantees.fail (h (by simp [Expr.forbidden, hkeywords]) _)
  | .list elts, h => by
      rw [evaluate]
      exact (evaluateItems_guarantees keeps elts h).bind fun items hitems =>
        keeps.make (keeps.list items hitems)
  | .tuple elts, h => by
      rw [evaluate]
      exact (evaluateItems_guarantees keeps elts h).bind fun items hitems =>
        keeps.make (keeps.list items hitems)
  | .other kind, h => by
      rw [evaluate]
      exact Guarantees.fail (h rfl _)

private theorem evaluateBool_guarantees
    (keeps : StepsKeep rt nm record Assumed Guaranteed Good Failure)
    (op : BoolOp) : ∀ values : List Expr,
      (Expr.anyForbidden values = true → ∀ error, Failure (.expression error)) →
      ∀ {result : Value}, Good result →
        Guarantees Assumed Guaranteed Good Failure (evaluateBool rt nm record op result values)
  | [], _, _, hresult => by
      rw [evaluateBool]
      exact Guarantees.pure hresult
  | e :: rest, h, _, _ => by
      rw [evaluateBool]
      have hvalue := evaluate_guarantees keeps e fun hf => h (by simp [Expr.anyForbidden, hf])
      refine hvalue.bind fun v hv => ?_
      split
      · exact Guarantees.pure hv
      · exact evaluateBool_guarantees keeps op rest
          (fun hf => h (by simp [Expr.anyForbidden, hf])) hv

private theorem evaluateCompare_guarantees
    (keeps : StepsKeep rt nm record Assumed Guaranteed Good Failure) :
    ∀ comparators : List (CmpOp × Expr),
      (Expr.comparatorsForbidden comparators = true → ∀ error, Failure (.expression error)) →
      ∀ left : Value,
        Guarantees Assumed Guaranteed Good Failure
          (evaluateCompare rt nm record left comparators)
  | [], _, _ => by
      rw [evaluateCompare]
      exact keeps.make (keeps.bool true)
  | (op, e) :: rest, h, left => by
      rw [evaluateCompare]
      split
      · rename_i hnone
        exact Guarantees.fail (h (by simp [Expr.comparatorsForbidden, hnone]) _)
      · rename_i handler hhandler
        have hvalue := evaluate_guarantees keeps e fun hf =>
          h (by simp [Expr.comparatorsForbidden, hf])
        refine hvalue.bind fun right _ => ?_
        split
        · rename_i error herror
          exact Guarantees.fail (keeps.failure_of_apply herror)
        · exact keeps.make (keeps.bool false)
        · exact evaluateCompare_guarantees keeps rest
            (fun hf => h (by simp [Expr.comparatorsForbidden, hf])) right

private theorem evaluateItems_guarantees
    (keeps : StepsKeep rt nm record Assumed Guaranteed Good Failure) :
    ∀ items : List Expr,
      (Expr.anyForbidden items = true → ∀ error, Failure (.expression error)) →
      Guarantees Assumed Guaranteed (fun values => ∀ v ∈ values, Good v) Failure
        (evaluateItems rt nm record items)
  | [], _ => by
      rw [evaluateItems]
      exact Guarantees.pure fun v hv => absurd hv List.not_mem_nil
  | e :: rest, h => by
      rw [evaluateItems]
      have hvalue := evaluate_guarantees keeps e fun hf => h (by simp [Expr.anyForbidden, hf])
      have hrest := evaluateItems_guarantees keeps rest fun hf =>
        h (by simp [Expr.anyForbidden, hf])
      exact hvalue.bind fun v hv => hrest.bind fun values hvalues =>
        Guarantees.pure (List.forall_mem_cons.mpr ⟨hv, hvalues⟩)

end

end

end EtlTool
