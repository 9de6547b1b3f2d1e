import EtlTool.Foundations.RecordStages
import EtlTool.Nodes.Expressions
import EtlTool.Nodes.Selections

/-!
# The transform node

Every op of a transform works on the whole list of records before the next one begins.  The
node behaves as if each record went through all ops on its own, with one exception: which
of several errors is reported.

Main results:

- Theorem {lit}`applyOps_eq_runStages`: the loops of the node are stages over batches.
- Theorem {lit}`transform_recordwise`: a transform works record by record, and reports the
  first op that fails, at the first record on which it does.

Current gaps:

- The log event of the node, and the validation of its config.
-/

namespace EtlTool

open RecordStages

/-! ## Ops -/

/-- {lit}`TransformOp`. -/
inductive TransformOp where
  | select (fields : List String)
  | rename (mapping : OrderedDict String String)
  | filter (predicate : Predicate)
  | computed (op : ComputedOp)

/-- What the models of the ops check. -/
def TransformOp.Valid : TransformOp → Prop
  | .select fields => fields ≠ []
  | .rename mapping => mapping.entries ≠ []
  | .filter _ => True
  | .computed op => op.target ≠ "" ∧ op.expression ≠ ""

/-- {lit}`TransformConfig`. -/
structure TransformConfig where
  ops : List TransformOp
  ops_ne : ops ≠ []
  ops_valid : ∀ op ∈ ops, op.Valid

/-- The record that a {lit}`RenameOp` makes of a record: of two fields with one new name the
first gives the place and the last the value. -/
def renameRecord (mapping : OrderedDict String String) (record : Fields) : Fields :=
  record.foldl (fun made field =>
    OrderedDict.setPair ((mapping.get? field.1).getD field.1) field.2 made) []

/-- What the node takes from the interpreter. -/
structure TransformRuntime where
  rt : Runtime
  numerics : Numerics
  comparisons : Comparisons
  /-- {lit}`ast.parse`, with the message of a {lit}`SyntaxError`. -/
  parse : String → Except String Expr

section

variable (tr : TransformRuntime) (ctx : NodeContext)

/-- {lit}`TransformNode._apply`. -/
def applyOp : TransformOp → Records → Except Raised Records
  | .select fields, records => (tr.rt.applySelect fields records).mapError .other
  | .rename mapping, records => .ok (records.map (renameRecord mapping))
  | .filter predicate, records =>
      (tr.rt.applyFilter tr.comparisons predicate records).mapError .other
  | .computed op, records => applyComputed tr.rt tr.numerics tr.parse ctx op records

/-- The loop of {lit}`TransformNode.run`. -/
def applyOps : List TransformOp → Records → Except Raised Records
  | [], records => .ok records
  | op :: rest, records =>
      match applyOp tr ctx op records with
      | .error raised => .error raised
      | .ok records => applyOps rest records

/-- {lit}`TransformNode.run`. -/
def transformRun (cfg : TransformConfig) (inputs : NodeInputs) : Except Raised NodeOutputs :=
  match inputs.get? "in" with
  | none => .error (.other ⟨"KeyError", some "'in'"⟩)
  | some [] => .error (.other ⟨"IndexError", some "list index out of range"⟩)
  | some (records :: _) =>
      (applyOps tr ctx cfg.ops records).map fun records => .singleton "out" records

end

private theorem transformRun_ports (tr : TransformRuntime) (cfg : TransformConfig)
    (inputs : NodeInputs)
    (ctx : NodeContext) (outputs : NodeOutputs) (h : transformRun tr ctx cfg inputs = .ok outputs) :
    ∀ port ∈ ["out"], outputs.contains port = true := by
  intro port hport
  unfold transformRun at h
  split at h
  · cases h
  · cases h
  · rcases map_eq_ok_iff.mp h with ⟨records, _, rfl⟩
    simpa [OrderedDict.contains_iff] using hport

private theorem transformNode_ports :
    (none : Option (FanOutMethods TransformConfig)).isSome = true →
      ∀ port ∈ ["out"], port = "out" := by
  intro h
  cases h

/-- {lit}`TransformNode`, given the validation of its config model. -/
def transformNode (tr : TransformRuntime)
    (modelValidate : Fields → Except (List ConfigIssue) TransformConfig) : NodeClass where
  Config := TransformConfig
  inputPorts := ["in"]
  outputPorts := ["out"]
  allowMultiInput := false
  modelValidate := modelValidate
  requiredInputPorts := fun _ => ["in"]
  checkSpec := fun _ _ => []
  run := fun cfg inputs ctx => transformRun tr ctx cfg inputs
  fanOut := none
  run_outputs := transformRun_ports tr
  fanOut_ports := transformNode_ports

/-! ## Stages -/

/-- Why an op fails on a record. -/
inductive RecordFailure where
  | other (exc : PyException)
  | computed (op : ComputedOp) (error : EvaluationError)

section

variable (tr : TransformRuntime) (ctx : NodeContext)

/-- What an op does to one record, once its expression is compiled. -/
def opStage : TransformOp → Stage ExpressionError RecordFailure Fields
  | .select fields =>
      .ok fun record => ((tr.rt.selectRecord fields record).mapError .other).map some
  | .rename mapping => .ok fun record => .ok (some (renameRecord mapping record))
  | .filter predicate =>
      .ok fun record =>
        ((evalPredicate tr.rt tr.comparisons record predicate).mapError .other).map fun holds =>
          if holds then some record else none
  | .computed op =>
      match compileExpression tr.rt tr.numerics tr.parse op.expression with
      | .error error => .error error
      | .ok evaluator =>
          .ok fun record =>
            ((evaluator record).result.mapError (.computed op)).map fun v =>
              some (OrderedDict.setPair op.target v record)

/-- What the node raises for a failure at a record. -/
def raisedAt (i : Nat) : RecordFailure → Raised
  | .other exc => .other exc
  | .computed op error =>
      .node { ctx.error .transform (computedMessage tr.rt op.target i error) with
        details := some (ctx.run.redactor.redactFields
          [("expression", .str op.expression), ("record_index", .int i)]) }

/-- What the node raises for a failure. -/
def raisedFor : Failure ExpressionError RecordFailure → Raised
  | .preparation error => .node (ctx.error .config (error.text tr.rt))
  | .element i failure => raisedAt tr ctx i failure

end

section

variable {tr : TransformRuntime} {ctx : NodeContext}

private theorem applySelect_eq_sweep (fields : List String) (i : Nat) (records : Records) :
    (tr.rt.applySelect fields records).mapError RecordFailure.other =
      (sweep (fun record => ((tr.rt.selectRecord fields record).mapError .other).map some)
        i records).mapError Prod.snd := by
  induction records generalizing i with
  | nil => rfl
  | cons record rest ih =>
      rw [Runtime.applySelect, sweep]
      cases tr.rt.selectRecord fields record with
      | error exc => rfl
      | ok projected =>
          have hrest := ih (i + 1)
          revert hrest
          cases tr.rt.applySelect fields rest <;> cases sweep _ (i + 1) rest <;>
            simp [Except.map, Except.mapError]

private theorem applyFilter_eq_sweep (predicate : Predicate) (i : Nat) (records : Records) :
    (tr.rt.applyFilter tr.comparisons predicate records).mapError RecordFailure.other =
      (sweep (fun record =>
        ((evalPredicate tr.rt tr.comparisons record predicate).mapError .other).map fun holds =>
          if holds then some record else none) i records).mapError Prod.snd := by
  induction records generalizing i with
  | nil => rfl
  | cons record rest ih =>
      rw [Runtime.applyFilter, sweep]
      have hrest := ih (i + 1)
      cases evalPredicate tr.rt tr.comparisons record predicate with
      | error exc => rfl
      | ok holds =>
          revert hrest
          cases holds <;> cases tr.rt.applyFilter tr.comparisons predicate rest <;>
            cases sweep _ (i + 1) rest <;> simp [Except.map, Except.mapError]

private theorem sweep_rename (mapping : OrderedDict String String) (i : Nat) (records : Records) :
    sweep (fun record => (.ok (some (renameRecord mapping record)) :
      Except RecordFailure (Option Fields))) i records =
        .ok (records.map (renameRecord mapping)) := by
  induction records generalizing i with
  | nil => rfl
  | cons record rest ih =>
      rw [sweep]
      dsimp only
      rw [ih (i + 1)]
      rfl

private theorem computeRecords_eq_sweep (evaluator : Fields → Evaluation Value) (op : ComputedOp)
    (i : Nat) (records : Records) :
    (computeRecords evaluator op.target i records).mapError
        (fun failure => (failure.1, RecordFailure.computed op failure.2)) =
      sweep (fun record => ((evaluator record).result.mapError (.computed op)).map fun v =>
        some (OrderedDict.setPair op.target v record)) i records := by
  induction records generalizing i with
  | nil => rfl
  | cons record rest ih =>
      rw [computeRecords, sweep, ← ih (i + 1)]
      cases (evaluator record).result with
      | error error => rfl
      | ok v => cases computeRecords evaluator op.target (i + 1) rest <;> rfl

/-- The index of a failure is not in what a select or a filter raises. -/
theorem raisedFor_of_sweep {made : Except PyException Records}
    {swept : Except (Nat × RecordFailure) Records}
    (h : made.mapError RecordFailure.other = swept.mapError Prod.snd) :
    made.mapError Raised.other =
      (swept.mapError fun failure => .element failure.1 failure.2).mapError
        (raisedFor tr ctx) := by
  cases made with
  | error exc =>
      cases swept with
      | error failure =>
          have hsame : RecordFailure.other exc = failure.2 := Except.error.inj h
          simp only [Except.mapError, raisedFor, raisedAt, ← hsame]
      | ok out => cases h
  | ok out =>
      cases swept with
      | error failure => cases h
      | ok out' =>
          cases h
          rfl

/-- An op is a stage over the records. -/
theorem applyOp_eq_runStage (op : TransformOp) (records : Records) :
    applyOp tr ctx op records =
      (runStage (opStage tr op) records).mapError (raisedFor tr ctx) := by
  cases op with
  | select fields =>
      rw [applyOp, opStage, runStage]
      exact raisedFor_of_sweep (applySelect_eq_sweep fields 0 records)
  | rename mapping =>
      rw [applyOp, opStage, runStage, sweep_rename]
      rfl
  | filter predicate =>
      rw [applyOp, opStage, runStage]
      exact raisedFor_of_sweep (applyFilter_eq_sweep predicate 0 records)
  | computed op =>
      rw [applyOp, applyComputed, opStage]
      cases compileExpression tr.rt tr.numerics tr.parse op.expression with
      | error error => rfl
      | ok evaluator =>
          dsimp only
          rw [runStage, ← computeRecords_eq_sweep]
          cases computeRecords evaluator op.target 0 records <;> rfl

/-- The loop of the node runs the stages of its ops. -/
theorem applyOps_eq_runStages (ops : List TransformOp) (records : Records) :
    applyOps tr ctx ops records =
      (runStages (ops.map (opStage tr)) records).mapError (raisedFor tr ctx) := by
  induction ops generalizing records with
  | nil => rfl
  | cons op rest ih =>
      rw [applyOps, applyOp_eq_runStage, List.map_cons, runStages]
      cases runStage (opStage tr op) records with
      | error failure => rfl
      | ok made => exact ih made

theorem applyOps_eq_ok_iff {ops : List TransformOp} {records out : Records} :
    applyOps tr ctx ops records = .ok out ↔
      runStages (ops.map (opStage tr)) records = .ok out := by
  rw [applyOps_eq_runStages, mapError_eq_ok_iff]

end

/-! ## Record by record -/

section

variable (tr : TransformRuntime) (ctx : NodeContext)

/-- How an op fails on the records that reach it: its expression does not compile, whatever
the records, or it fails on a record, and on none before it. -/
inductive OpFails (op : TransformOp) (reached : Records) : Raised → Prop where
  | expression (error : ExpressionError) (hstage : opStage tr op = .error error) :
      OpFails op reached (.node (ctx.error .config (error.text tr.rt)))
  | record (work : Work RecordFailure Fields) (hstage : opStage tr op = .ok work)
      (earlier later : Records) (record : Fields) (failure : RecordFailure)
      (hreached : reached = earlier ++ record :: later)
      (hearlier : ∀ other ∈ earlier, ∃ made, work other = .ok made)
      (hfails : work record = .error failure) :
      OpFails op reached (raisedAt tr ctx earlier.length failure)

/-- Ops that work record by record. -/
structure Recordwise (ops : List TransformOp) : Prop where
  /-- Records may come in parts. -/
  append : ∀ first second out, applyOps tr ctx ops (first ++ second) = .ok out ↔
    ∃ left right, applyOps tr ctx ops first = .ok left ∧
      applyOps tr ctx ops second = .ok right ∧ left ++ right = out
  /-- A record makes one record or none. -/
  single : ∀ record out, applyOps tr ctx ops [record] = .ok out → out.length ≤ 1
  /-- The error is that of the first op that fails, on what the ops before it made. -/
  fails : ∀ records raised, applyOps tr ctx ops records = .error raised ↔
    ∃ before op after reached, ops = before ++ op :: after ∧
      applyOps tr ctx before records = .ok reached ∧ OpFails tr ctx op reached raised
  /-- Such an error comes from an expression that does not compile, or one of the records
  fails with it on its own, but for the index. -/
  blames : ∀ records raised, applyOps tr ctx ops records = .error raised →
    (∃ op ∈ ops, ∃ error, opStage tr op = .error error ∧
      raised = .node (ctx.error .config (error.text tr.rt))) ∨
    ∃ i failure, raised = raisedAt tr ctx i failure ∧ ∃ record ∈ records,
      applyOps tr ctx ops [record] = .error (raisedAt tr ctx 0 failure)

end

section

variable {tr : TransformRuntime} {ctx : NodeContext} {ops : List TransformOp}

private theorem runStage_eq_error_iff_opFails {op : TransformOp} {reached : Records}
    {raised : Raised} :
    (∃ failure, runStage (opStage tr op) reached = .error failure ∧
      raisedFor tr ctx failure = raised) ↔ OpFails tr ctx op reached raised := by
  constructor
  · intro h
    rcases h with ⟨failure, hfailure, rfl⟩
    cases failure with
    | preparation error => exact .expression error (runStage_eq_preparation_iff.mp hfailure)
    | element i failure =>
        rcases runStage_eq_element_iff.mp hfailure with ⟨work, hstage, hsweep⟩
        rcases sweep_eq_error_iff.mp hsweep with
          ⟨earlier, record, later, hreached, hi, hearlier, hfails⟩
        rw [Nat.zero_add] at hi
        subst hi
        exact .record work hstage earlier later record failure hreached hearlier hfails
  · intro h
    cases h with
    | expression error hstage =>
        exact ⟨.preparation error, runStage_eq_preparation_iff.mpr hstage, rfl⟩
    | record work hstage earlier later record failure hreached hearlier hfails =>
        refine ⟨.element earlier.length failure, ?_, rfl⟩
        exact runStage_eq_element_iff.mpr ⟨work, hstage, sweep_eq_error_iff.mpr
          ⟨earlier, record, later, hreached, (Nat.zero_add _).symm, hearlier, hfails⟩⟩

private theorem applyOps_eq_error_iff {records : Records} {raised : Raised} :
    applyOps tr ctx ops records = .error raised ↔
      ∃ before op after reached, ops = before ++ op :: after ∧
        applyOps tr ctx before records = .ok reached ∧ OpFails tr ctx op reached raised := by
  rw [applyOps_eq_runStages, mapError_eq_error_iff]
  constructor
  · intro h
    rcases h with ⟨failure, hfailure, hraised⟩
    rcases runStages_eq_error_iff.mp hfailure with
      ⟨stages, stage, later, reached, hstages, hreached, hfails⟩
    rcases List.map_eq_append_iff.mp hstages with ⟨before, others, rfl, rfl, hothers⟩
    rcases List.map_eq_cons_iff.mp hothers with ⟨op, after, rfl, rfl, rfl⟩
    exact ⟨before, op, after, reached, rfl, applyOps_eq_ok_iff.mpr hreached,
      runStage_eq_error_iff_opFails.mp ⟨failure, hfails, hraised⟩⟩
  · intro h
    rcases h with ⟨before, op, after, reached, rfl, hreached, hfails⟩
    rcases runStage_eq_error_iff_opFails.mpr hfails with ⟨failure, hfailure, hraised⟩
    refine ⟨failure, runStages_eq_error_iff.mpr ⟨before.map (opStage tr), opStage tr op,
      after.map (opStage tr), reached, ?_, applyOps_eq_ok_iff.mp hreached, hfailure⟩, hraised⟩
    rw [List.map_append, List.map_cons]

/-- A transform works record by record.  Of several errors it reports that of the first op
that fails, at the first record on which it does. -/
theorem transform_recordwise (tr : TransformRuntime) (ctx : NodeContext)
    (ops : List TransformOp) : Recordwise tr ctx ops where
  append := by
    intro first second out
    simp only [applyOps_eq_ok_iff]
    exact runStages_append_batch
  single := by
    intro record out h
    rcases runStages_eq_ok_iff.mp (applyOps_eq_ok_iff.mp h) with ⟨works, _, hsweep⟩
    exact length_le_of_sweep hsweep
  fails := by
    intro records raised
    exact applyOps_eq_error_iff
  blames := by
    intro records raised h
    rw [applyOps_eq_runStages, mapError_eq_error_iff] at h
    rcases h with ⟨failure, hfailure, rfl⟩
    cases failure with
    | preparation error =>
        rcases runStages_eq_error_iff.mp hfailure with
          ⟨stages, stage, later, reached, hstages, _, hfails⟩
        have hmem : stage ∈ ops.map (opStage tr) := by
          rw [hstages]
          exact List.mem_append_right _ List.mem_cons_self
        rcases List.mem_map.mp hmem with ⟨op, hop, rfl⟩
        exact .inl ⟨op, hop, error, runStage_eq_preparation_iff.mp hfails, rfl⟩
    | element i failure =>
        rcases runStages_blames hfailure with ⟨works, after, hstages, record, hrecord, hfails⟩
        refine .inr ⟨i, failure, rfl, record, hrecord, ?_⟩
        rw [applyOps_eq_runStages, hstages, runStages_singleton hfails after]
        rfl

end

end EtlTool
