import EtlTool.Engine.Validation

/-!
# Executing one node

A node is prepared (references resolved, config validated, inputs collected from
the outputs that are visible to it) and then run.  Failures of the preparation
and exceptions of the run become structured errors; the exceptions that no
handler covers are kept apart, because they escape.

Main results:

- Theorem {lit}`executeNode_congr`: a node reads nothing but the iteration and
  the outputs of its sources and of the nodes its references name.
- Theorems {lit}`prepareNode_inputUnavailable` and
  {lit}`prepareNode_noAvailableOutput`: the two faults about missing outputs
  occur only when such an output is not visible.
- Theorem {lit}`prepareNode_other_iff`: the preparation escapes exactly when the
  first reference that does not resolve escapes.
- Theorem {lit}`executeNode_ok_contains`: a node that succeeds returns every
  declared port.
-/

namespace EtlTool

/-- The outputs visible to a node, by node id. -/
abbrev View := String → Option NodeOutputs

/-- One run of a document. -/
structure PipelineRun where
  engine : Engine
  spec : PipelineSpec
  ctx : RunContext

/-! ## Preparation -/

/-- Why a node cannot be prepared. -/
inductive PrepareFault where
  | reference (fault : ReferenceFault)
  | invalidConfig (issues : List ConfigIssue)
  | inputUnavailable (fromNode fromPort : String)
deriving DecidableEq

/-- The structured error of a fault. -/
def PrepareFault.error (rt : Runtime) (ctx : NodeContext) : PrepareFault → NodeError
  | reference fault => ctx.error .validation (fault.message rt)
  | invalidConfig issues => ctx.error .config (formatValidationError issues)
  | inputUnavailable fromNode fromPort =>
      ctx.error .validation
        ("input from " ++ rt.reprStr fromNode ++ "." ++ fromPort ++ " is unavailable")

/-- How a preparation ends without a node. -/
inductive PrepareError where
  | fault (fault : PrepareFault)
  | other (exc : PyException)
deriving DecidableEq

/-- A node that is ready to run. -/
structure Prepared where
  cls : NodeClass
  config : cls.Config
  inputs : NodeInputs
  ctx : NodeContext

/-- The {lit}`KeyError` of a missing dictionary key. -/
def keyError (key : String) : PyException where
  typeName := "KeyError"
  text := some key

/-- Records of one source port, when they are visible. -/
def View.port? (view : View) (edge : EdgeSpec) : Option Records :=
  (view edge.fromNode).bind (·.get? edge.fromPort)

/-- Collect the records of the inbound edges by target port. -/
def gatherInputs (view : View) : NodeInputs → List EdgeSpec → Except PrepareFault NodeInputs
  | inputs, [] => .ok inputs
  | inputs, edge :: rest =>
      match view.port? edge with
      | none => .error (.inputUnavailable edge.fromNode edge.fromPort)
      | some records =>
          gatherInputs view
            (inputs.set edge.toPort ((inputs.get? edge.toPort).getD [] ++ [records])) rest

namespace PipelineRun

/-- The type of the node with an id. -/
def nodeType (r : PipelineRun) (id : String) : String :=
  match r.spec.node? id with
  | some node => node.type
  | none => ""

/-- {lit}`NodeContext(ctx, id, type, iter_ctx)`. -/
def nodeContext (r : PipelineRun) (id : String) (iter : Option IterContext) : NodeContext where
  run := r.ctx
  nodeId := id
  nodeType := r.nodeType id
  iterCtx := iter

/-- What the references of a node can name. -/
def referenceContext (view : View) (iter : Option IterContext) : ReferenceContext where
  upstream := fun id => (view id).map primary
  iter := iter

/-- {lit}`_prepare_node`, for a node and its class. -/
def prepareWith (r : PipelineRun) (node : NodeSpec) (cls : NodeClass) (view : View)
    (iter : Option IterContext) : Except PrepareError Prepared :=
  match r.engine.runtime.resolveFields (referenceContext view iter) node.config with
  | .error (.other exc) => .error (.other exc)
  | .error (.fault fault) => .error (.fault (.reference fault))
  | .ok resolved =>
      match cls.modelValidate resolved with
      | .error issues => .error (.fault (.invalidConfig issues))
      | .ok config =>
          match gatherInputs view .empty (r.spec.inEdges node.id) with
          | .error fault => .error (.fault fault)
          | .ok inputs => .ok ⟨cls, config, inputs, r.nodeContext node.id iter⟩

/-- {lit}`_prepare_node`. -/
def prepareNode (r : PipelineRun) (id : String) (view : View) (iter : Option IterContext) :
    Except PrepareError Prepared :=
  match r.spec.node? id with
  | none => .error (.other (keyError id))
  | some node =>
      match r.engine.registry.get? node.type with
      | none => .error (.other (keyError node.type))
      | some cls => r.prepareWith node cls view iter

/-- What a failed preparation raises. -/
def prepareRaised (r : PipelineRun) (id : String) (iter : Option IterContext) :
    PrepareError → Raised
  | .fault fault => .node (fault.error r.engine.runtime (r.nodeContext id iter))
  | .other exc => .other exc

/-! ## Running -/

/-- The exception raised when {lit}`str` of another exception fails. -/
def strOfException (exc : PyException) : PyException where
  typeName := "str() of " ++ exc.typeName
  text := none

/-- The handlers around {lit}`node.run`: other exceptions become structured
errors of category {lit}`UNKNOWN`, unless their text cannot be computed. -/
def convertRaised (ctx : NodeContext) : Raised → Raised
  | .node error => .node error
  | .other exc =>
      match exc.text with
      | some text => .node (ctx.error .unknown (exc.typeName ++ ": " ++ text))
      | none => .other (strOfException exc)

/-- {lit}`_execute_node`. -/
def executeNode (r : PipelineRun) (id : String) (view : View) (iter : Option IterContext) :
    Except Raised NodeOutputs :=
  match r.prepareNode id view iter with
  | .error e => .error (r.prepareRaised id iter e)
  | .ok prepared =>
      match prepared.cls.run prepared.config prepared.inputs prepared.ctx with
      | .ok outputs => .ok outputs
      | .error raised => .error (convertRaised prepared.ctx raised)

end PipelineRun

/-! ## What a node reads -/

/-- The nodes whose outputs a node reads: the sources of its inbound edges and
the nodes its references name. -/
def PipelineSpec.reads (spec : PipelineSpec) (id : String) : List String :=
  (spec.inEdges id).map EdgeSpec.fromNode ++
    match spec.node? id with
    | some node => upstreamTargets node.config
    | none => []

theorem mem_reads_of_edge {spec : PipelineSpec} {id : String} {edge : EdgeSpec}
    (h : edge ∈ spec.inEdges id) : edge.fromNode ∈ spec.reads id :=
  List.mem_append_left _ (List.mem_map_of_mem h)

private theorem mem_reads_of_target {spec : PipelineSpec} {node : NodeSpec} {target : String}
    (hnode : spec.node? node.id = some node) (h : target ∈ upstreamTargets node.config) :
    target ∈ spec.reads node.id := by
  apply List.mem_append_right
  rw [hnode]
  exact h

/-- In a validated document a node reads only its ancestors. -/
theorem path_of_mem_reads {en : Engine} {spec : PipelineSpec} (hv : en.Validated spec)
    {id source : String} (h : source ∈ spec.reads id) : spec.Path source id := by
  rcases List.mem_append.mp h with hedges | htargets
  · rcases List.mem_map.mp hedges with ⟨edge, hedge, rfl⟩
    rcases (spec.mem_inEdges id edge).mp hedge with ⟨hmem, rfl⟩
    exact .single hmem
  · cases hnode : spec.node? id with
    | none => simp [hnode] at htargets
    | some node =>
        rw [hnode] at htargets
        rcases PipelineSpec.node?_mem hnode with ⟨hmem, rfl⟩
        exact hv.upstream_ancestors node hmem source htargets

private theorem gatherInputs_congr {view view' : View} {edges : List EdgeSpec}
    (h : ∀ edge ∈ edges, view edge.fromNode = view' edge.fromNode) (inputs : NodeInputs) :
    gatherInputs view inputs edges = gatherInputs view' inputs edges := by
  induction edges generalizing inputs with
  | nil => rfl
  | cons edge rest ih =>
      have hedge : view.port? edge = view'.port? edge := by
        unfold View.port?
        rw [h edge List.mem_cons_self]
      have hrest : ∀ inputs, gatherInputs view inputs rest = gatherInputs view' inputs rest :=
        ih fun e he => h e (List.mem_cons_of_mem edge he)
      simp only [gatherInputs, hedge, hrest]

namespace PipelineRun

variable {r : PipelineRun} {id : String} {view view' : View} {iter : Option IterContext}

theorem prepareNode_congr (h : ∀ source ∈ r.spec.reads id, view source = view' source) :
    r.prepareNode id view iter = r.prepareNode id view' iter := by
  unfold prepareNode
  cases hnode : r.spec.node? id with
  | none => rfl
  | some node =>
      cases hcls : r.engine.registry.get? node.type with
      | none => simp [hcls]
      | some cls =>
          simp only [hcls]
          rcases PipelineSpec.node?_mem hnode with ⟨_, rfl⟩
          have hresolve : r.engine.runtime.resolveFields (referenceContext view iter) node.config =
              r.engine.runtime.resolveFields (referenceContext view' iter) node.config := by
            apply resolveFields_congr
            refine ⟨rfl, fun target htarget => ?_⟩
            simp only [referenceContext, h target (mem_reads_of_target hnode htarget)]
          have hinputs : ∀ inputs, gatherInputs view inputs (r.spec.inEdges node.id) =
              gatherInputs view' inputs (r.spec.inEdges node.id) :=
            gatherInputs_congr fun edge hedge => h edge.fromNode (mem_reads_of_edge hedge)
          simp only [prepareWith, hresolve, hinputs]

/-- A node reads nothing but the iteration and the outputs it names. -/
theorem executeNode_congr (h : ∀ source ∈ r.spec.reads id, view source = view' source) :
    r.executeNode id view iter = r.executeNode id view' iter := by
  unfold executeNode
  rw [prepareNode_congr h]

end PipelineRun

/-! ## How a preparation ends -/

private theorem gatherInputs_error {view : View} {edges : List EdgeSpec} {inputs : NodeInputs}
    {fault : PrepareFault} (h : gatherInputs view inputs edges = .error fault) :
    ∃ edge ∈ edges, view.port? edge = none ∧
      fault = .inputUnavailable edge.fromNode edge.fromPort := by
  induction edges generalizing inputs with
  | nil => simp [gatherInputs] at h
  | cons edge rest ih =>
      unfold gatherInputs at h
      cases hport : view.port? edge with
      | none =>
          rw [hport] at h
          cases h
          exact ⟨edge, List.mem_cons_self, hport, rfl⟩
      | some records =>
          rw [hport] at h
          rcases ih h with ⟨e, he, hnone, hfault⟩
          exact ⟨e, List.mem_cons_of_mem edge he, hnone, hfault⟩

namespace PipelineRun

variable {r : PipelineRun} {id : String} {view : View} {iter : Option IterContext}

/-- The ways a preparation can end, with what each of them says about the node
and its view. -/
theorem prepareNode_cases {result : Except PrepareError Prepared}
    (h : r.prepareNode id view iter = result) :
    ((r.spec.node? id = none ∨ ∃ node, r.spec.node? id = some node ∧
        r.engine.registry.get? node.type = none) ∧ ∃ exc, result = .error (.other exc)) ∨
    ∃ node cls, r.spec.node? id = some node ∧ r.engine.registry.get? node.type = some cls ∧
      node.id = id ∧
      ((∃ e, r.engine.runtime.resolveFields (referenceContext view iter) node.config = .error e ∧
          result = .error (match e with
            | .fault fault => .fault (.reference fault)
            | .other exc => .other exc)) ∨
        (∃ issues, result = .error (.fault (.invalidConfig issues))) ∨
        (∃ edge ∈ r.spec.inEdges id, view.port? edge = none ∧
          result = .error (.fault (.inputUnavailable edge.fromNode edge.fromPort))) ∨
        (∃ config inputs, gatherInputs view .empty (r.spec.inEdges id) = .ok inputs ∧
          result = .ok ⟨cls, config, inputs, r.nodeContext id iter⟩)) := by
  subst h
  unfold prepareNode
  cases hnode : r.spec.node? id with
  | none => exact Or.inl ⟨Or.inl rfl, _, rfl⟩
  | some node =>
      rcases PipelineSpec.node?_mem hnode with ⟨_, rfl⟩
      cases hcls : r.engine.registry.get? node.type with
      | none => exact Or.inl ⟨Or.inr ⟨node, rfl, hcls⟩, _, by simp [hcls]; rfl⟩
      | some cls =>
          refine Or.inr ⟨node, cls, rfl, hcls, rfl, ?_⟩
          simp only [hcls, prepareWith]
          cases hresolve : r.engine.runtime.resolveFields (referenceContext view iter)
              node.config with
          | error e => cases e <;> exact Or.inl ⟨_, rfl, rfl⟩
          | ok resolved =>
              simp only
              cases hconfig : cls.modelValidate resolved with
              | error issues => exact Or.inr (Or.inl ⟨issues, rfl⟩)
              | ok config =>
                  simp only
                  cases hinputs : gatherInputs view .empty (r.spec.inEdges node.id) with
                  | error fault =>
                      rcases gatherInputs_error hinputs with ⟨edge, hedge, hnone, rfl⟩
                      exact Or.inr (Or.inr (Or.inl ⟨edge, hedge, hnone, rfl⟩))
                  | ok inputs => exact Or.inr (Or.inr (Or.inr ⟨config, inputs, rfl, rfl⟩))

/-- An input is reported unavailable only if its port is not visible. -/
theorem prepareNode_inputUnavailable {fromNode fromPort : String}
    (h : r.prepareNode id view iter = .error (.fault (.inputUnavailable fromNode fromPort))) :
    ∃ edge ∈ r.spec.inEdges id, edge.fromNode = fromNode ∧ edge.fromPort = fromPort ∧
      view.port? edge = none := by
  rcases prepareNode_cases h with ⟨_, exc, hbad⟩ | ⟨node, cls, _, _, _, hcases⟩
  · cases hbad
  · rcases hcases with ⟨e, _, hbad⟩ | ⟨issues, hbad⟩ | ⟨edge, hedge, hnone, heq⟩ | ⟨_, _, _, hbad⟩
    · cases e <;> cases hbad
    · cases hbad
    · cases heq
      exact ⟨edge, hedge, rfl, rfl, hnone⟩
    · cases hbad

/-- A missing upstream output is reported only for a referenced node whose
outputs are not visible. -/
theorem prepareNode_noAvailableOutput {target : String}
    (h : r.prepareNode id view iter = .error (.fault (.reference (.noAvailableOutput target)))) :
    target ∈ r.spec.reads id ∧ view target = none := by
  rcases prepareNode_cases h with ⟨_, exc, hbad⟩ | ⟨node, cls, hnode, _, rfl, hcases⟩
  · cases hbad
  · rcases hcases with ⟨e, hresolve, heq⟩ | ⟨issues, hbad⟩ | ⟨edge, _, _, hbad⟩ | ⟨_, _, _, hbad⟩
    · cases e with
      | other exc => cases heq
      | fault fault =>
          cases heq
          rcases resolveFields_noAvailableOutput hresolve with ⟨htarget, hnone⟩
          exact ⟨mem_reads_of_target hnode htarget, by simpa [referenceContext] using hnone⟩
    · cases hbad
    · cases hbad
    · cases hbad

/-- The preparation of a known node escapes exactly when the first reference
that does not resolve escapes. -/
theorem prepareNode_other_iff {node : NodeSpec} {cls : NodeClass}
    (hnode : r.spec.node? id = some node) (hcls : r.engine.registry.get? node.type = some cls) :
    (∃ exc, r.prepareNode id view iter = .error (.other exc)) ↔
      r.engine.runtime.ConfigEscapes (referenceContext view iter) node.config := by
  rw [← resolveFields_other_iff]
  unfold prepareNode
  simp only [hnode, hcls, prepareWith]
  cases hresolve : r.engine.runtime.resolveFields (referenceContext view iter) node.config with
  | error e => cases e <;> simp
  | ok resolved =>
      simp only
      cases cls.modelValidate resolved with
      | error issues => simp
      | ok config =>
          simp only
          cases gatherInputs view .empty (r.spec.inEdges node.id) <;> simp

/-- A node that succeeds has been run on its resolved and validated config and on the records
of its edges. -/
theorem executeNode_ok {outputs : NodeOutputs} {node : NodeSpec} {cls : NodeClass}
    (hnode : r.spec.node? id = some node) (hcls : r.engine.registry.get? node.type = some cls)
    (h : r.executeNode id view iter = .ok outputs) :
    ∃ resolved config inputs,
      r.engine.runtime.resolveFields (referenceContext view iter) node.config = .ok resolved ∧
      cls.modelValidate resolved = .ok config ∧
      gatherInputs view .empty (r.spec.inEdges node.id) = .ok inputs ∧
      cls.run config inputs (r.nodeContext node.id iter) = .ok outputs := by
  unfold executeNode at h
  rw [prepareNode, hnode] at h
  simp only [hcls, prepareWith] at h
  cases hresolve : r.engine.runtime.resolveFields (referenceContext view iter) node.config with
  | error e =>
      rw [hresolve] at h
      cases e <;> cases h
  | ok resolved =>
      simp only [hresolve] at h
      cases hvalidate : cls.modelValidate resolved with
      | error issues =>
          simp only [hvalidate] at h
          cases h
      | ok config =>
          simp only [hvalidate] at h
          cases hinputs : gatherInputs view .empty (r.spec.inEdges node.id) with
          | error fault =>
              simp only [hinputs] at h
              cases h
          | ok inputs =>
              simp only [hinputs] at h
              cases hrun : cls.run config inputs (r.nodeContext node.id iter) with
              | error raised =>
                  simp only [hrun] at h
                  cases h
              | ok made =>
                  simp only [hrun] at h
                  cases h
                  exact ⟨resolved, config, inputs, rfl, hvalidate, rfl, hrun⟩

/-- A node that succeeds returns every declared port. -/
theorem executeNode_ok_contains {outputs : NodeOutputs} {cls : NodeClass}
    (h : r.executeNode id view iter = .ok outputs)
    (hcls : r.engine.nodeClass? r.spec id = some cls) :
    ∀ port ∈ cls.outputPorts, outputs.contains port = true := by
  rcases Option.bind_eq_some_iff.mp hcls with ⟨node, hnode, hfound⟩
  rcases executeNode_ok hnode hfound h with ⟨_, _, _, _, _, _, hrun⟩
  exact cls.run_outputs _ _ _ _ hrun

end PipelineRun

end EtlTool
