import EtlTool.Engine.Execution

/-!
# A small engine

Node classes and document builders on which later modules evaluate the engine:
a source, a node that concatenates its inputs, two nodes that fail, and the
iterator over a literal array.
-/

namespace EtlTool

namespace Samples

/-- An interpreter with the default limits. -/
def runtime : Runtime where
  maxStrDigits := some 4300
  maxListLength := 1000000
  floatText := fun _ => "0.0"
  isPrintable := fun _ => true

/-- A data node class without config, with a single output port. -/
def dataNode (inputPorts : List String)
    (run : NodeInputs → NodeContext → Except Raised Records) : NodeClass where
  Config := Unit
  inputPorts := inputPorts
  outputPorts := ["out"]
  allowMultiInput := true
  modelValidate := fun _ => .ok ()
  requiredInputPorts := fun _ => []
  checkSpec := fun _ _ => []
  run := fun _ inputs ctx =>
    match run inputs ctx with
    | .ok records => .ok (.singleton "out" records)
    | .error raised => .error raised
  fanOut := none
  run_outputs := by
    intro _ inputs ctx outputs hrun port hport
    split at hrun
    · cases hrun
      simpa [OrderedDict.contains_iff] using hport
    · cases hrun
  fanOut_ports := by simp

/-- One record. -/
def source : NodeClass :=
  dataNode [] fun _ _ => .ok [[("id", .int 1)]]

/-- The records of all inbound edges. -/
def collect : NodeClass :=
  dataNode ["in"] fun inputs _ => .ok ((inputs.get? "in").getD []).flatten

/-- Always fails. -/
def broken : NodeClass :=
  dataNode ["in"] fun _ ctx => .error (.node (ctx.error .transform "broken"))

/-- Fails in the first iteration of its iterator, and otherwise returns nothing. -/
def fragile : NodeClass :=
  dataNode ["in"] fun _ ctx =>
    if ctx.iterCtx.map IterContext.index = some 0 then
      .error (.node (ctx.error .transform "broken"))
    else .ok []

/-- The validation of an iterator over a literal array. -/
def arrayConfig (config : Fields) : Except (List ConfigIssue) IteratorConfig :=
  match config.lookup "array" with
  | some (.list items) =>
      .ok {
        mode := .array
        array := .list items
        range := none
        field := none
        fanIn := .concat
        maxConcurrency := none
        array_given := by simp
        range_given := by simp
        maxConcurrency_pos := by simp }
  | _ => .error [⟨["array"], "Input should be a valid list"⟩]

/-- The engine with these classes. -/
def engine : Engine where
  runtime := runtime
  registry := {
    entries := [("source", source), ("collect", collect), ("broken", broken),
      ("fragile", fragile), ("iterator", runtime.iteratorNode arrayConfig)]
    nodup_keys := by simp }

theorem source_nonempty : "source" ≠ "" := by decide

theorem collect_nonempty : "collect" ≠ "" := by decide

theorem fragile_nonempty : "fragile" ≠ "" := by decide

theorem iterator_nonempty : "iterator" ≠ "" := by decide

theorem apiSource_nonempty : "api_source" ≠ "" := by decide

/-- A node of a sample document. -/
def node (id type : String) (config : Fields)
    (hid : matchesNodeIdPattern id = true := by exact Eq.refl true)
    (htype : type ≠ "" := by
      first
      | exact EtlTool.Samples.source_nonempty
      | exact EtlTool.Samples.collect_nonempty
      | exact EtlTool.Samples.fragile_nonempty
      | exact EtlTool.Samples.apiSource_nonempty
      | decide) : NodeSpec :=
  ⟨id, type, config, hid, htype⟩

/-- An iterator over a literal array. -/
def iterator (id : String) (values : List Value)
    (hid : matchesNodeIdPattern id = true := by exact Eq.refl true) : NodeSpec :=
  node id "iterator" [("array", .list values)] hid iterator_nonempty

/-- An edge between the default ports. -/
def edge (fromNode toNode : String) : EdgeSpec :=
  ⟨fromNode, "out", toNode, "in"⟩

/-- A sample document. -/
def document (nodes : List NodeSpec) (edges : List EdgeSpec) : PipelineSpec :=
  ⟨"sample", nodes, edges, by decide⟩

/-- The options of a sample run. -/
def options (continueOnError : Bool) : ExecutionOptions :=
  ⟨8, continueOnError, by decide⟩

/-- Run a sample document without secrets; the scheduler takes no decision, so
iterations are settled one after another. -/
def execute (spec : PipelineSpec) (continueOnError : Bool) : Execution :=
  engine.executePipeline (fun _ => []) spec .empty (options continueOnError)

/-- The plan and the iterations of the first fan-out. -/
def firstGathered? : List Event → Option (String × FanOutPlan × List (Option IterationResult))
  | [] => none
  | .gathered iteratorId plan results :: _ => some (iteratorId, plan, results)
  | _ :: rest => firstGathered? rest

theorem mem_of_firstGathered? {events : List Event} {iteratorId : String} {plan : FanOutPlan}
    {results : List (Option IterationResult)}
    (h : firstGathered? events = some (iteratorId, plan, results)) :
    .gathered iteratorId plan results ∈ events := by
  induction events with
  | nil => cases h
  | cons event rest ih =>
      cases event with
      | gathered iteratorId' plan' results' =>
          cases h
          exact List.mem_cons_self
      | started place id view => exact List.mem_cons_of_mem _ (ih h)
      | ran place id view => exact List.mem_cons_of_mem _ (ih h)
      | failed place id error => exact List.mem_cons_of_mem _ (ih h)

end Samples

end EtlTool
