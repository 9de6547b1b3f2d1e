import EtlTool.Engine.Adequacy
import EtlTool.Engine.GraphConditions
import EtlTool.Nodes.ComputedFields
import EtlTool.Nodes.Transform

/-!
# Transforms in a run

A transform of a document has one inbound edge, and takes the records on it through its ops.
Since the ops work record by record, the outputs of a call that succeeds tell of every record
on that edge what the transform has made of it, outside the scopes and in every iteration.

Main results:

- Theorem {lit}`transformed_of_executeNode`: a transform that succeeds has made its records
  one by one.
- Theorem {lit}`executePipeline_transforms`: this holds of every transform in a call that
  succeeds.
-/

namespace EtlTool

open PipelineRun RecordStages

/-! ## Record by record -/

section

variable {tr : TransformRuntime} {ctx : NodeContext} {ops : List TransformOp}

/-- What the ops make of records is made of each of them. -/
theorem applyOps_parts {records out : Records} (h : applyOps tr ctx ops records = .ok out) :
    ∃ parts, List.Forall₂ (fun record part => applyOps tr ctx ops [record] = .ok part ∧
      part.length ≤ 1) records parts ∧ parts.flatten = out := by
  rw [applyOps_eq_ok_iff] at h
  induction records generalizing out with
  | nil =>
      rcases runStages_eq_ok_iff.mp h with ⟨works, _, hsweep⟩
      have hempty : out = [] := List.eq_nil_of_length_eq_zero
        (Nat.le_zero.mp (length_le_of_sweep hsweep))
      exact ⟨[], .nil, hempty.symm⟩
  | cons record rest ih =>
      have happend : record :: rest = [record] ++ rest := rfl
      rw [happend] at h
      rcases runStages_append_batch.mp h with
        ⟨part, others, hpart, hothers, rfl⟩
      rcases ih hothers with ⟨parts, hparts, rfl⟩
      rcases runStages_eq_ok_iff.mp hpart with ⟨works, _, hsweep⟩
      exact ⟨part :: parts, .cons ⟨applyOps_eq_ok_iff.mpr hpart, length_le_of_sweep hsweep⟩
        hparts, rfl⟩

end

/-! ## One transform -/

/-- The outputs of a transform in a view: its config comes from its references, and every
record on its one edge goes through the ops on its own, to one record or none. -/
def PipelineRun.Transformed (r : PipelineRun) (tr : TransformRuntime)
    (modelValidate : Fields → Except (List ConfigIssue) TransformConfig) (node : NodeSpec)
    (view : View) (iter : Option IterContext) (outputs : NodeOutputs) : Prop :=
  ∃ edge records resolved cfg parts, r.spec.inEdges node.id = [edge] ∧
    view.port? edge = some records ∧
    r.engine.runtime.resolveFields (referenceContext view iter) node.config = .ok resolved ∧
    modelValidate resolved = .ok cfg ∧
    List.Forall₂ (fun record part =>
      applyOps tr (r.nodeContext node.id iter) cfg.ops [record] = .ok part ∧ part.length ≤ 1)
        records parts ∧
    outputs = .singleton "out" parts.flatten

section

variable {r : PipelineRun} {tr : TransformRuntime}
  {modelValidate : Fields → Except (List ConfigIssue) TransformConfig} {node : NodeSpec}

/-- At most one edge reaches a transform, and it reaches the port {lit}`in`. -/
theorem inEdges_of_transform (hgraph : r.engine.GraphConditions r.spec)
    (hnode : node ∈ r.spec.nodes)
    (hcls : r.engine.registry.get? node.type = some (transformNode tr modelValidate)) :
    r.spec.inEdges node.id = [] ∨
      ∃ edge, r.spec.inEdges node.id = [edge] ∧ edge.toPort = "in" := by
  have hport : ∀ edge ∈ r.spec.inEdges node.id, edge.toPort = "in" := by
    intro edge hedge
    rcases (r.spec.mem_inEdges node.id edge).mp hedge with ⟨hmem, hid⟩
    rcases (hgraph.edges_join edge hmem).2 with ⟨target, htarget, htargetId, cls, hcls', hin⟩
    have hsame : target = node :=
      List.inj_on_of_nodup_map hgraph.unique_ids htarget hnode (htargetId.trans hid)
    rw [hsame, hcls, Option.some.injEq] at hcls'
    rw [← hcls'] at hin
    exact List.mem_singleton.mp hin
  have hcount : (r.spec.inEdges node.id).length ≤ 1 := by
    have hsingle := hgraph.single_edges node hnode _ hcls rfl "in"
    have hall : (r.spec.inEdges node.id).countP (fun edge => edge.toPort = "in") =
        (r.spec.inEdges node.id).length := by
      rw [List.countP_eq_length]
      exact fun edge hedge => decide_eq_true (hport edge hedge)
    rw [Engine.edgesInto_eq_countP, hall] at hsingle
    exact hsingle
  cases hedges : r.spec.inEdges node.id with
  | nil => exact .inl rfl
  | cons edge rest =>
      rw [hedges] at hcount hport
      cases rest with
      | nil => exact .inr ⟨edge, rfl, hport edge List.mem_cons_self⟩
      | cons other others => simp at hcount

/-- A transform that succeeds has made its records one by one. -/
theorem transformed_of_executeNode (hgraph : r.engine.GraphConditions r.spec)
    (hnode : node ∈ r.spec.nodes)
    (hcls : r.engine.registry.get? node.type = some (transformNode tr modelValidate))
    {view : View} {iter : Option IterContext} {outputs : NodeOutputs}
    (h : r.executeNode node.id view iter = .ok outputs) :
    r.Transformed tr modelValidate node view iter outputs := by
  rcases executeNode_ok (Engine.node?_of_mem hgraph.unique_ids hnode) hcls h with
    ⟨resolved, cfg, inputs, hresolve, hvalidate, hinputs, hrun⟩
  rcases inEdges_of_transform hgraph hnode hcls with hedges | ⟨edge, hedges, hport⟩
  · -- without an edge there is no input to run on
    rw [hedges, gatherInputs] at hinputs
    cases hinputs
    cases hrun
  · rw [hedges, gatherInputs] at hinputs
    cases hrecords : view.port? edge with
    | none =>
        rw [hrecords] at hinputs
        cases hinputs
    | some records =>
        simp only [hrecords, gatherInputs, hport, Except.ok.injEq] at hinputs
        subst hinputs
        have hmade : (applyOps tr (r.nodeContext node.id iter) cfg.ops records).map
            (fun made => OrderedDict.singleton "out" made) = .ok outputs := hrun
        rcases map_eq_ok_iff.mp hmade with ⟨made, happly, rfl⟩
        rcases applyOps_parts happly with ⟨parts, hparts, rfl⟩
        exact ⟨edge, records, resolved, cfg, parts, hedges, hrecords, hresolve, hvalidate, hparts,
          rfl⟩

/-! ## Whole calls -/

/-- What a solution of the equations says of a transform: outside the scopes its outputs are
made of what the view shows, in a scope they are gathered from iterations that have made
theirs so. -/
structure PipelineRun.TransformsRecords (r : PipelineRun) (tr : TransformRuntime)
    (modelValidate : Fields → Except (List ConfigIssue) TransformConfig) (node : NodeSpec)
    (view : View) : Prop where
  outside : r.engine.Unscoped r.spec node.id → ∃ outputs, view node.id = some outputs ∧
    r.Transformed tr modelValidate node view none outputs
  inside : ∀ iteratorId, r.engine.IsIterator r.spec iteratorId →
    r.spec.Path iteratorId node.id → ∃ plan inners, r.planFanOut iteratorId view = .ok plan ∧
      List.Forall₂ (fun iter inner => ∃ outputs, inner.get? node.id = some outputs ∧
        r.Transformed tr modelValidate node (chainView inner view) (some iter) outputs)
        (iterContexts plan.values) inners ∧
      view node.id = some (r.gatheredOutputs plan inners node.id)

/-- A transform is no iterator. -/
theorem not_isIterator_of_transform (hids : (r.spec.nodes.map NodeSpec.id).Nodup)
    (hnode : node ∈ r.spec.nodes)
    (hcls : r.engine.registry.get? node.type = some (transformNode tr modelValidate)) :
    ¬ r.engine.IsIterator r.spec node.id := by
  rintro ⟨found, hfound, hfans⟩
  rw [Engine.node?_of_mem hids hnode, Option.some.injEq] at hfound
  rw [← hfound, Engine.fansOut, hcls] at hfans
  cases hfans

end

/-- In a call that succeeds, under whatever schedule, every transform has made of the records
on its edge what its ops make of each of them, outside the scopes and in every iteration. -/
theorem executePipeline_transforms (en : Engine) (schedule : String → List FanOut.Choice)
    (spec : PipelineSpec) (secrets : OrderedDict String PyText) (options : ExecutionOptions)
    (result : RunResult)
    (houtcome : (en.executePipeline schedule spec secrets options).outcome = .ok result)
    (hstatus : result.status = .succeeded) (tr : TransformRuntime)
    (modelValidate : Fields → Except (List ConfigIssue) TransformConfig) (node : NodeSpec)
    (hnode : node ∈ spec.nodes)
    (hcls : en.registry.get? node.type = some (transformNode tr modelValidate)) :
    ∃ redactor, Redactor.ofSecrets secrets.values = .ok redactor ∧
      (en.on spec ⟨secrets, options, redactor⟩).TransformsRecords tr modelValidate node
        (en.executePipeline schedule spec secrets options).state.view := by
  have hgraph := (Engine.validatePipeline_eq_nil_iff.mp
    (executePipeline_validates houtcome hstatus)).2
  rcases executePipeline_succeeded houtcome hstatus with
    ⟨topo, redactor, hsorted, hredactor, hstate, hcalm, _⟩
  have hdenotes : (en.on spec ⟨secrets, options, redactor⟩).Denotes
      (en.executePipeline schedule spec secrets options).state.view := by
    rw [hstate] at hcalm ⊢
    exact PipelineRun.run_denotes hsorted schedule hcalm
  have hmade : ∀ {view iter outputs},
      (en.on spec ⟨secrets, options, redactor⟩).executeNode node.id view iter = .ok outputs →
        (en.on spec ⟨secrets, options, redactor⟩).Transformed tr modelValidate node view iter
          outputs :=
    transformed_of_executeNode hgraph hnode hcls
  refine ⟨redactor, hredactor, ?_, ?_⟩
  · intro hunscoped
    have hkey : node.id ∈ spec.nodeMap.keys :=
      (spec.mem_nodeMap_keys node.id).mpr ⟨node, hnode, rfl⟩
    rcases hdenotes.node node.id hkey
      (not_isIterator_of_transform hgraph.unique_ids hnode hcls) hunscoped with
      ⟨outputs, hexec, hview⟩
    exact ⟨outputs, hview, hmade hexec⟩
  · intro iteratorId hiterator hpath
    rcases hdenotes.fanOut iteratorId hiterator with ⟨plan, inners, hfan⟩
    refine ⟨plan, inners, hfan.planned, hfan.iterations.imp ?_, hfan.gathered _ (.inr hpath)⟩
    intro iter inner hinner
    rcases hinner.member node.id hpath with ⟨outputs, hget, hexec⟩
    exact ⟨outputs, hget, hmade hexec⟩

/-! ## A renamed field -/

namespace Samples

/-- The transforms of an interpreter. -/
def transforms : TransformRuntime where
  rt := runtime
  numerics := ExpressionSamples.numerics
  comparisons := SelectSamples.comparisons
  parse := ExpressionSamples.parse

/-- A config that renames one field. -/
def renamingConfig (_ : Fields) : Except (List ConfigIssue) TransformConfig :=
  .ok ⟨[.rename (.singleton "id" "key")], by decide, by simp [TransformOp.Valid]; decide⟩

/-- An engine with a transform. -/
def transformEngine : Engine where
  runtime := runtime
  registry := .ofList [("source", source), ("transform", transformNode transforms renamingConfig)]

theorem transform_nonempty : "transform" ≠ "" := by decide

/-- The transform of the sample document. -/
def renamingNode : NodeSpec :=
  node "keyed" "transform" [] (Eq.refl true) transform_nonempty

/-- A source and a transform of its records. -/
def renamedSource : PipelineSpec :=
  document [node "first" "source" [], renamingNode] [edge "first" "keyed"]

end Samples

open Samples

theorem executePipeline_transforms_renamed :
    ∃ redactor, Redactor.ofSecrets [] = .ok redactor ∧
      (transformEngine.on renamedSource ⟨.empty, options false, redactor⟩).TransformsRecords
        transforms renamingConfig renamingNode
        (transformEngine.executePipeline (fun _ => []) renamedSource .empty
          (options false)).state.view := by
  have hstatus : (transformEngine.executePipeline (fun _ => []) renamedSource .empty
      (options false)).outcome.toOption.map RunResult.status = some .succeeded := by
    decide +kernel
  cases houtcome : (transformEngine.executePipeline (fun _ => []) renamedSource .empty
      (options false)).outcome with
  | error exc =>
      rw [houtcome] at hstatus
      cases hstatus
  | ok result =>
      rw [houtcome] at hstatus
      exact executePipeline_transforms transformEngine (fun _ => []) renamedSource .empty
        (options false) result houtcome (Option.some.inj hstatus) transforms renamingConfig _
        (List.mem_cons_of_mem _ List.mem_cons_self) rfl

end EtlTool
