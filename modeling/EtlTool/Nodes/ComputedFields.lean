import EtlTool.Nodes.Expressions

/-!
# Values and language of computed fields

Computed fields are meant to stay inside the JSON values, and to accept only the elements of
a whitelist.

The first holds with one exception.  Operators, functions, comparisons and subscripts keep
the JSON values, but the power of a negative number with a fractional exponent is a complex
number, which no later step can bring back and no document can hold.

The second is checked where the evaluation comes to, not where the expression is compiled.
A forbidden element in a branch that is not taken is never reported, and none is reported
where there are no records.

Main results:

- Theorem {lit}`evaluate_staysJson_iff`: an evaluation stays inside the JSON values exactly
  when it computes no power that is a complex number.
- Theorem {lit}`computeRecords_isJson`: the records with a computed field are then JSON.
- Theorem {lit}`rejectsForbidden_iff`: an expression is rejected as it should be, whatever
  the records, exactly when it has no forbidden element.
-/

namespace EtlTool

open TracedRuns

/-! ## Values -/

/-- The evaluation stays inside the JSON values: its result is one, all values on the way
are, and it takes members of dicts only and applies functions of the whitelist only. -/
structure StaysJson (x : Evaluation Value) : Prop where
  result : ∀ v, x.result = .ok v → v.isJson = true
  intermediate : ∀ step ∈ x.notes, step.made.isJson = true
  attributes : ∀ base attr v, .attribute base attr v ∈ x.notes → ∃ fields, base = .dict fields
  functions : ∀ name args v, .function name args v ∈ x.notes →
    name ∈ allowedFunctions.map Prod.fst

/-- The evaluation computes no power of a negative number with a fractional exponent. -/
def NoComplexPower (x : Evaluation Value) : Prop :=
  ∀ base exponent v, .operator .pow base exponent v ∈ x.notes →
    base.isComplexPower exponent = false

/-- The step is one of the operators, members and functions that are allowed. -/
def Step.Allowed (nm : Numerics) : Step → Prop
  | .value _ => True
  | .attribute base _ _ => ∃ fields, base = .dict fields
  | .operator op a b v => nm.arith op a b = .ok v
  | .function name _ _ => name ∈ allowedFunctions.map Prod.fst

/-- The step makes no complex number. -/
def Step.IsReal : Step → Prop
  | .operator op a b _ => ¬(op = .pow ∧ a.isComplexPower b = true)
  | _ => True

private theorem literal_isJson {literal : Literal} {v : Value} (h : literal.value? = some v) :
    v.isJson = true := by
  cases literal <;> cases h <;> rfl

private theorem field_getD_isJson {fields : Fields} (h : (Value.dict fields).isJson = true)
    (key : String) : ((OrderedDict.findPair key fields).getD .none).isJson = true := by
  cases hfind : OrderedDict.findPair key fields with
  | none => rfl
  | some v => exact field_isJson h hfind

section

variable (rt : Runtime) (nm : Numerics) (record : Fields)

/-- Whatever the record, an evaluation takes allowed steps only. -/
theorem stepsKeep_allowed :
    StepsKeep rt nm record (fun _ => True) (Step.Allowed nm) (fun _ => True) fun _ => True where
  value := fun _ _ => trivial
  literal := fun _ _ _ => trivial
  field := fun _ => trivial
  bool := fun _ => trivial
  list := fun _ _ => trivial
  member := fun _ _ _ => trivial
  memberNote := fun fields _ _ _ => ⟨fields, rfl⟩
  subscript := fun _ _ _ _ _ => trivial
  operator := fun _ _ _ _ _ _ _ _ => trivial
  operatorNote := fun _ _ _ _ h _ => h
  negate := fun _ _ _ _ => trivial
  posate := fun _ _ _ _ => trivial
  function := fun _ _ _ _ _ => trivial
  functionNote := fun name f _ _ h _ => by
    have hsome : (OrderedDict.findPair name allowedFunctions).isSome := by rw [h]; rfl
    exact (OrderedDict.findPair_isSome_iff name allowedFunctions).mp hsome
  exception := fun _ => trivial
  data := fun _ _ => trivial

/-- On a record of JSON values, steps that make no complex number make JSON values. -/
theorem stepsKeep_isJson (hrecord : (Value.dict record).isJson = true) :
    StepsKeep rt nm record Step.IsReal (fun step => step.made.isJson = true)
      (fun v => v.isJson = true) fun _ => True where
  value := fun _ h => h
  literal := fun _ _ => literal_isJson
  field := field_getD_isJson hrecord
  bool := fun _ => rfl
  list := fun items => (itemsAreJson_iff items).mpr
  member := fun _ attr h => field_getD_isJson h attr
  memberNote := fun _ _ _ h => h
  subscript := fun _ _ _ => pySubscript_isJson
  operator := fun _ _ _ _ ha hb h hreal => (arith_isJson_iff ha hb h).mpr hreal
  operatorNote := fun _ _ _ _ _ h => h
  negate := fun _ _ => negate_isJson
  posate := fun _ _ => posate_isJson
  function := fun _ _ _ => applyFunction_isJson
  functionNote := fun _ _ _ _ _ h => h
  exception := fun _ => trivial
  data := fun _ _ => trivial

end

/-- On a record of JSON values an evaluation without complex powers stays inside the JSON
values. -/
theorem staysJson_of_noComplexPower {rt : Runtime} {nm : Numerics} {record : Fields}
    (hrecord : (Value.dict record).isJson = true) {e : Expr}
    (h : NoComplexPower (evaluate rt nm record e)) : StaysJson (evaluate rt nm record e) := by
  have hallowed := (evaluate_guarantees (stepsKeep_allowed rt nm record) e
    fun _ _ => trivial).notes fun _ _ => trivial
  have hkeeps := evaluate_guarantees (stepsKeep_isJson rt nm record hrecord) e
    fun _ _ => trivial
  have hreal : ∀ step ∈ (evaluate rt nm record e).notes, step.IsReal := by
    intro step hstep
    cases step with
    | operator op a b v =>
        rintro ⟨rfl, hpower⟩
        rw [h a b v hstep] at hpower
        cases hpower
    | _ => trivial
  exact ⟨hkeeps.result hreal, hkeeps.notes hreal, fun base attr v => hallowed _,
    fun name args v => hallowed _⟩

/-- On a record of JSON values an evaluation stays inside the JSON values exactly when it
computes no power that is a complex number. -/
theorem evaluate_staysJson_iff (rt : Runtime) (nm : Numerics) {record : Fields}
    (hrecord : (Value.dict record).isJson = true) (e : Expr) :
    StaysJson (evaluate rt nm record e) ↔ NoComplexPower (evaluate rt nm record e) := by
  have hallowed := (evaluate_guarantees (stepsKeep_allowed rt nm record) e
    fun _ _ => trivial).notes fun _ _ => trivial
  refine ⟨?_, staysJson_of_noComplexPower hrecord⟩
  intro h base exponent v hmem
  have hjson := h.intermediate _ hmem
  by_contra hpower
  rw [Bool.not_eq_false] at hpower
  rw [Step.made, isJson_of_complexPower hpower (hallowed _ hmem)] at hjson
  cases hjson

private theorem setPair_isJson {fields : Fields} {key : String} {v : Value}
    (hfields : (Value.dict fields).isJson = true) (hv : v.isJson = true) :
    (Value.dict (OrderedDict.setPair key v fields)).isJson = true := by
  induction fields with
  | nil => exact (fieldsAreJson_iff _).mpr (List.forall_mem_singleton.mpr hv)
  | cons field rest ih =>
      have hall := (fieldsAreJson_iff _).mp hfields
      rcases List.forall_mem_cons.mp hall with ⟨hfield, hrest⟩
      rw [OrderedDict.setPair]
      split
      · exact (fieldsAreJson_iff _).mpr (List.forall_mem_cons.mpr ⟨hv, hrest⟩)
      · have hset := (fieldsAreJson_iff _).mp (ih ((fieldsAreJson_iff rest).mpr hrest))
        exact (fieldsAreJson_iff _).mpr (List.forall_mem_cons.mpr ⟨hfield, hset⟩)

/-- Records of JSON values keep their kind when a field is computed, as long as no
evaluation computes a complex number. -/
theorem computeRecords_isJson {rt : Runtime} {nm : Numerics} {e : Expr} {target : String}
    {records out : Records} {i : Nat}
    (hrecords : ∀ record ∈ records, (Value.dict record).isJson = true)
    (hreal : ∀ record ∈ records, NoComplexPower (evaluate rt nm record e))
    (h : computeRecords (fun record => evaluate rt nm record e) target i records = .ok out) :
    ∀ made ∈ out, (Value.dict made).isJson = true := by
  intro made hmade
  rcases mem_of_computeRecords h made hmade with ⟨record, hrecord, v, hresult, rfl⟩
  have hstays := staysJson_of_noComplexPower (hrecords record hrecord) (hreal record hrecord)
  exact setPair_isJson (hrecords record hrecord) (hstays.result v hresult)

/-! ## Language -/

section

variable (rt : Runtime) (nm : Numerics) (parse : String → Except String Expr)

/-- A computed field over these records fails because of an element outside the whitelist,
when its expression is compiled or when it is evaluated on a record. -/
def ReportsForbidden (op : ComputedOp) (records : Records) : Prop :=
  match compileExpression rt nm parse op.expression with
  | .error error => error.reportsForbidden = true
  | .ok evaluator => ∃ i error,
      computeRecords evaluator op.target 0 records = .error (i, .expression error) ∧
        error.reportsForbidden = true

/-- The language is checked: compiling raises exactly on the expressions with an element
outside the whitelist, and over all records such an element is reported exactly then. -/
structure RejectsForbidden (expression : String) (e : Expr) : Prop where
  compile : (∃ error, compileExpression rt nm parse expression = .error error) ↔
    e.forbidden = true
  records : ∀ (target : String) (records : Records),
    ReportsForbidden rt nm parse ⟨target, expression⟩ records ↔ e.forbidden = true

variable {rt nm parse}

/-- Evaluating an expression of the language never reports an element outside it. -/
theorem evaluate_reports_of_not_forbidden {record : Fields} {e : Expr}
    (he : e.forbidden = false) {error : ExpressionError}
    (h : (evaluate rt nm record e).result = .error (.expression error)) :
    error.reportsForbidden = false := by
  have hkeeps : StepsKeep rt nm record (fun _ => True) (Step.Allowed nm) (fun _ => True)
      (fun failure => ∀ error, failure = .expression error → error.reportsForbidden = false) :=
    { stepsKeep_allowed rt nm record with
      exception := fun _ _ heq => nomatch heq
      data := fun _ hdata _ heq => by
        cases heq
        exact hdata }
  have hguarantees := evaluate_guarantees hkeeps e fun hforbidden => by
    rw [he] at hforbidden
    cases hforbidden
  exact hguarantees.failure (fun _ _ => trivial) _ h error rfl

variable (rt nm) in
/-- Compiling an expression that can be parsed never raises. -/
theorem compileExpression_of_parse {expression : String} {e : Expr}
    (hparse : parse expression = .ok e) :
    compileExpression rt nm parse expression = .ok fun record => evaluate rt nm record e := by
  rw [compileExpression, hparse]

/-- An expression is rejected exactly when it should be, whatever the records, if and only
if it has no element outside the whitelist. -/
theorem rejectsForbidden_iff {expression : String} {e : Expr}
    (hparse : parse expression = .ok e) :
    RejectsForbidden rt nm parse expression e ↔ e.forbidden = false := by
  have hcompile := compileExpression_of_parse rt nm hparse
  constructor
  · intro h
    rw [← Bool.not_eq_true, ← h.compile, hcompile]
    rintro ⟨error, herror⟩
    cases herror
  · intro he
    refine ⟨?_, fun target records => ?_⟩
    · rw [hcompile, he]
      simp
    · rw [ReportsForbidden, hcompile, he]
      refine iff_of_false ?_ Bool.false_ne_true
      rintro ⟨i, error, herror, hreports⟩
      rcases computeRecords_eq_error_iff.mp herror with ⟨before, record, after, _, _, _, hresult⟩
      rw [evaluate_reports_of_not_forbidden he hresult] at hreports
      cases hreports

end

/-! ## Samples -/

namespace ExpressionSamples

/-- An interpreter that computes one square root of a negative number. -/
def numerics : Numerics where
  ofInt := fun z => .ok (.finite z)
  trueDiv := fun y z => if z = 0 then .error zeroDivisionError else .ok (.finite (y / z))
  floatOp := fun _ _ _ => .error zeroDivisionError
  complexPower := fun base exponent =>
    if base = .finite (-8) ∧ exponent = .finite (1 / 2) then
      .ok ("(1.7319121124709868e-16+2.8284271247461903j)",
        "(1.7319121124709868e-16+2.8284271247461903j)")
    else .error zeroDivisionError
  foreignOp := fun _ _ => .error (typeError "unsupported operand type(s)")
  formatText := fun text _ => .ok text
  parseInt := fun _ _ => .error (valueError "invalid literal for int()")
  parseFloat := fun _ => .error (valueError "could not convert string to float")
  roundFloat := fun _ => .ok 0
  roundDigits := fun x _ => .ok x
  roundInt := fun z _ => z
  lower := fun text => text
  upper := fun text => text

/-- A record with a negative balance. -/
def account : Fields :=
  [("balance", .int (-8))]

/-- {lit}`balance ** 0.5`. -/
def rootOfBalance : Expr :=
  .binOp (.name "balance") .pow (.constant (.float (.finite (1 / 2))))

/-- {lit}`balance ** 2`. -/
def squareOfBalance : Expr :=
  .binOp (.name "balance") .pow (.constant (.int 2))

/-- {lit}`1 if True else (lambda: 0)`. -/
def conditionalLambda : Expr :=
  .ifExp (.constant (.bool true)) (.constant (.int 1)) (.other .lambda)

/-- The parser on two expressions. -/
def parse (expression : String) : Except String Expr :=
  if expression = "1 if True else (lambda: 0)" then .ok conditionalLambda
  else if expression = "balance ** 2" then .ok squareOfBalance
  else .error "invalid syntax"

private theorem rootOfBalance_result :
    (evaluate Samples.runtime numerics account rootOfBalance).result.toOption =
      some (.foreign "complex" "(1.7319121124709868e-16+2.8284271247461903j)"
        "(1.7319121124709868e-16+2.8284271247461903j)") := by
  decide +kernel

end ExpressionSamples

open ExpressionSamples

theorem evaluate_staysJson_square :
    (Value.dict account).isJson = true ∧
      (StaysJson (evaluate Samples.runtime numerics account squareOfBalance) ↔
        NoComplexPower (evaluate Samples.runtime numerics account squareOfBalance)) :=
  ⟨rfl, evaluate_staysJson_iff Samples.runtime numerics rfl squareOfBalance⟩

/-- The square root of a negative balance is a complex number. -/
theorem evaluate_leaves_json :
    ¬ ∀ (record : Fields) (e : Expr), (Value.dict record).isJson = true →
      StaysJson (evaluate Samples.runtime numerics record e) := by
  intro h
  have hstays := h account rootOfBalance rfl
  have hroot := rootOfBalance_result
  cases hresult : (evaluate Samples.runtime numerics account rootOfBalance).result with
  | error failure =>
      rw [hresult] at hroot
      cases hroot
  | ok v =>
      rw [hresult] at hroot
      have hjson := hstays.result v hresult
      cases Option.some.inj hroot
      cases hjson

theorem rejectsForbidden_square :
    parse "balance ** 2" = .ok squareOfBalance ∧
      (RejectsForbidden Samples.runtime numerics parse "balance ** 2" squareOfBalance ↔
        squareOfBalance.forbidden = false) :=
  ⟨rfl, rejectsForbidden_iff rfl⟩

/-- A function literal in a branch that is never taken is accepted. -/
theorem conditionalLambda_accepted :
    ¬ ∀ (expression : String) (e : Expr), parse expression = .ok e →
      RejectsForbidden Samples.runtime numerics parse expression e := by
  intro h
  have hrejects := h "1 if True else (lambda: 0)" conditionalLambda rfl
  rcases hrejects.compile.mpr rfl with ⟨error, herror⟩
  have hparse : parse "1 if True else (lambda: 0)" = .ok conditionalLambda := rfl
  rw [compileExpression_of_parse _ _ hparse] at herror
  cases herror

end EtlTool
