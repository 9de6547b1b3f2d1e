import EtlTool.Nodes.Base

/-!
# The iterator node

The only control-flow class: it computes the values over which the engine fans
out the downstream subgraph.  Values come from a literal or resolved array, a
numeric range, or the records of the upstream edge, optionally through a dotted
field path.

Main results:

- Theorem {lit}`getValues_other_iff`: computing the value set raises something
  other than a structured error exactly when a range is too long to be built,
  or when the field path meets a list with a segment that only looks like an
  integer.
-/

namespace EtlTool

/-! ## Config -/

/-- {lit}`RangeSpec`; the end is exclusive. -/
structure RangeSpec where
  start : Int
  stop : Int
  step : Int
  step_not_zero : step ≠ 0
deriving DecidableEq

/-- Where the values come from. -/
inductive IteratorMode where
  | array
  | range
  | fromUpstream
deriving DecidableEq

/-- {lit}`IteratorConfig`, with what its validators check. -/
structure IteratorConfig where
  mode : IteratorMode
  array : Value
  range : Option RangeSpec
  field : Option String
  fanIn : FanIn
  maxConcurrency : Option Nat
  array_given : mode = .array → array ≠ .none
  range_given : mode = .range → range.isSome = true
  maxConcurrency_pos : ∀ n, maxConcurrency = some n → 1 ≤ n

/-! ## The value set -/

/-- {lit}`len(range(start, end, step))`. -/
def RangeSpec.count (range : RangeSpec) : Nat :=
  if 0 < range.step then
    if range.start < range.stop then ((range.stop - range.start - 1) / range.step + 1).toNat else 0
  else
    if range.stop < range.start then
      ((range.start - range.stop - 1) / (-range.step) + 1).toNat
    else 0

/-- The exception of building a list that is too long. -/
def listTooLongError : PyException where
  typeName := "OverflowError"
  text := some "Python int too large to convert to C ssize_t"

/-- {lit}`list(range(start, end, step))`. -/
def Runtime.rangeList (rt : Runtime) (range : RangeSpec) : Except PyException (List Value) :=
  if range.count ≤ rt.maxListLength then
    .ok ((List.range range.count).map fun i => .int (range.start + i * range.step))
  else .error listTooLongError

/-- The extraction loop of {lit}`from_upstream` mode; {lit}`i` is the index of
the first record. -/
def Runtime.extractValues (rt : Runtime) (field : String) (ctx : NodeContext) :
    Nat → Records → Except Raised (List Value)
  | _, [] => .ok []
  | i, record :: rest =>
      match rt.getPath? (.dict record) (splitPath field) with
      | .error exc => .error (.other exc)
      | .ok none =>
          .error (.node (ctx.error .validation
            ("field " ++ rt.reprStr field ++ " missing from upstream record " ++ toString i)))
      | .ok (some value) =>
          match rt.extractValues field ctx (i + 1) rest with
          | .error e => .error e
          | .ok values => .ok (value :: values)

/-- {lit}`IteratorNode.get_values`. -/
def Runtime.getValues (rt : Runtime) (config : IteratorConfig) (inputs : NodeInputs)
    (ctx : NodeContext) : Except Raised (List Value) :=
  match config.mode with
  | .array =>
      match config.array with
      | .list items => .ok items
      | other =>
          .error (.node (ctx.error .config
            ("iterator 'array' must be (or resolve to) a list, got " ++ other.typeName)))
  | .range =>
      match config.range with
      | none => .error (.other ⟨"AssertionError", some ""⟩)
      | some range =>
          match rt.rangeList range with
          | .ok values => .ok values
          | .error exc => .error (.other exc)
  | .fromUpstream =>
      match (inputs.get? "in").getD [] with
      | [] =>
          .error (.node (ctx.error .validation "from_upstream iterator has no connected input"))
      | records :: _ =>
          match config.field with
          | none => .ok (records.map Value.dict)
          | some field => rt.extractValues field ctx 0 records

/-! ## The class -/

/-- The record of one value on the output port of a standalone iterator. -/
def iterationRecord (value : Value) (index : Nat) : Fields :=
  [("value", value), ("index", .int index)]

/-- {lit}`IteratorNode.run`. -/
def Runtime.runIteratorNode (rt : Runtime) (config : IteratorConfig) (inputs : NodeInputs)
    (ctx : NodeContext) : Except Raised NodeOutputs :=
  match rt.getValues config inputs ctx with
  | .error e => .error e
  | .ok values => .ok (.singleton "out" (values.zipIdx.map fun pair => iterationRecord pair.1 pair.2))

/-- {lit}`IteratorNode.required_input_ports`. -/
def IteratorConfig.requiredInputPorts (config : Option IteratorConfig) : List String :=
  if config.map IteratorConfig.mode = some .fromUpstream then ["in"] else []

/-- The control-flow methods of {lit}`IteratorNode`. -/
def Runtime.iteratorMethods (rt : Runtime) : FanOutMethods IteratorConfig where
  getValues := rt.getValues
  fanIn := IteratorConfig.fanIn
  maxConcurrency := IteratorConfig.maxConcurrency
  maxConcurrency_pos := IteratorConfig.maxConcurrency_pos

/-- {lit}`IteratorNode`, given the validation of its config model. -/
def Runtime.iteratorNode (rt : Runtime)
    (modelValidate : Fields → Except (List ConfigIssue) IteratorConfig) : NodeClass where
  Config := IteratorConfig
  inputPorts := ["in"]
  outputPorts := ["out"]
  allowMultiInput := false
  modelValidate := modelValidate
  requiredInputPorts := IteratorConfig.requiredInputPorts
  checkSpec := fun _ _ => []
  run := rt.runIteratorNode
  fanOut := some rt.iteratorMethods
  run_outputs := by
    intro config inputs ctx outputs hrun port hport
    unfold Runtime.runIteratorNode at hrun
    split at hrun
    · cases hrun
    · cases hrun
      simpa [OrderedDict.contains_iff] using hport
  fanOut_ports := by simp

/-! ## Value sets that escape -/

/-- The extraction loop reaches a record whose field path meets a list with a
segment that only looks like an integer. -/
def Runtime.ExtractionEscapes (rt : Runtime) (field : String) (records : Records) : Prop :=
  ∃ before record after, records = before ++ record :: after ∧
    (∀ r ∈ before, ∃ value, rt.getPath? (.dict r) (splitPath field) = .ok (some value)) ∧
    rt.MeetsBadIndex (.dict record) (splitPath field)

/-- Computing the value set raises something other than a structured error. -/
def Runtime.ValuesEscape (rt : Runtime) (config : IteratorConfig) (inputs : NodeInputs) : Prop :=
  (config.mode = .range ∧ ∃ range, config.range = some range ∧ rt.maxListLength < range.count) ∨
    (config.mode = .fromUpstream ∧ ∃ records field,
      ((inputs.get? "in").getD []).head? = some records ∧ config.field = some field ∧
        rt.ExtractionEscapes field records)

private theorem extractValues_other_iff (rt : Runtime) (field : String) (ctx : NodeContext)
    (records : Records) : ∀ i, (∃ exc, rt.extractValues field ctx i records = .error (.other exc)) ↔
      rt.ExtractionEscapes field records := by
  unfold Runtime.ExtractionEscapes
  induction records with
  | nil => intro i; simp [Runtime.extractValues]
  | cons record rest ih =>
      intro i
      have hbad := getPath?_error_iff rt (.dict record) (splitPath field)
      unfold Runtime.extractValues
      cases hvalue : rt.getPath? (.dict record) (splitPath field) with
      | error exc =>
          have hmeets := hbad.mp ⟨exc, hvalue⟩
          refine iff_of_true ⟨exc, rfl⟩ ⟨[], record, rest, rfl, by simp, hmeets⟩
      | ok found =>
          have hmeets : ¬ rt.MeetsBadIndex (.dict record) (splitPath field) := by
            rw [← hbad, hvalue]
            simp
          cases found with
          | none =>
              refine iff_of_false (by simp) ?_
              rintro ⟨before, r, after, hsplit, hbefore, hr⟩
              cases before with
              | nil =>
                  simp only [List.nil_append, List.cons.injEq] at hsplit
                  exact hmeets (hsplit.1 ▸ hr)
              | cons b before =>
                  simp only [List.cons_append, List.cons.injEq] at hsplit
                  rcases hbefore b List.mem_cons_self with ⟨value, hv⟩
                  rw [← hsplit.1, hvalue] at hv
                  cases hv
          | some value =>
              have hrest : (∃ exc, (match rt.extractValues field ctx (i + 1) rest with
                  | .error e => Except.error e
                  | .ok values => .ok (value :: values)) = .error (.other exc)) ↔
                  ∃ exc, rt.extractValues field ctx (i + 1) rest = .error (.other exc) := by
                cases rt.extractValues field ctx (i + 1) rest <;> simp
              refine hrest.trans ((ih (i + 1)).trans ⟨?_, ?_⟩)
              · rintro ⟨before, r, after, rfl, hbefore, hr⟩
                refine ⟨record :: before, r, after, rfl, ?_, hr⟩
                intro r' hr'
                rcases List.mem_cons.mp hr' with rfl | hr'
                · exact ⟨value, hvalue⟩
                · exact hbefore r' hr'
              · rintro ⟨before, r, after, hsplit, hbefore, hr⟩
                cases before with
                | nil =>
                    simp only [List.nil_append, List.cons.injEq] at hsplit
                    exact absurd (hsplit.1 ▸ hr) hmeets
                | cons b before =>
                    simp only [List.cons_append, List.cons.injEq] at hsplit
                    exact ⟨before, r, after, hsplit.2,
                      fun r' hr' => hbefore r' (List.mem_cons_of_mem b hr'), hr⟩

/-- Computing the value set raises something other than a structured error
exactly for ranges that are too long and for field paths that meet a list with
a segment that only looks like an integer. -/
theorem getValues_other_iff (rt : Runtime) (config : IteratorConfig) (inputs : NodeInputs)
    (ctx : NodeContext) :
    (∃ exc, rt.getValues config inputs ctx = .error (.other exc)) ↔
      rt.ValuesEscape config inputs := by
  unfold Runtime.getValues Runtime.ValuesEscape
  cases hmode : config.mode with
  | array =>
      cases config.array <;> simp
  | range =>
      cases hrange : config.range with
      | none =>
          have hgiven := config.range_given hmode
          rw [hrange] at hgiven
          cases hgiven
      | some range =>
          by_cases hlong : range.count ≤ rt.maxListLength
          · simp [Runtime.rangeList, hlong]
          · simp [Runtime.rangeList, hlong, Nat.lt_of_not_le hlong]
  | fromUpstream =>
      cases hstreams : (inputs.get? "in").getD [] with
      | nil => simp
      | cons records streams =>
          cases hfield : config.field with
          | none => simp
          | some field =>
              simpa using extractValues_other_iff rt field ctx records 0

end EtlTool
