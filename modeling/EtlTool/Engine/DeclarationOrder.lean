import EtlTool.Engine.Adequacy
import EtlTool.Engine.GraphConditions

/-!
# Declaration order

The declaration order of the nodes decides ties of the topological order, and with it
the order in which everything runs.  The equations of a document do not mention it, so
a document that succeeds still succeeds with the same outputs when its nodes are
declared in another order, as long as the new order visits the outside sources of
every scope before its iterator.

Main results:

- Theorem {lit}`Reordered.no_issues`: reordering keeps a document without issues.
- Theorem {lit}`Reordered.denotes_iff`: reordered documents have the same equations.
- Theorem {lit}`executePipeline_reordered`: the outputs of a reordered document.
- Theorem {lit}`executePipeline_reordered_fails`: without the condition a reordered
  document can fail.
-/

namespace EtlTool

/-- The same nodes in another order, and the same edges, also in another order except among
the edges into one node. -/
structure PipelineSpec.Reordered (spec spec' : PipelineSpec) : Prop where
  nodes : spec.nodes.Perm spec'.nodes
  edges : ∀ id, spec.inEdges id = spec'.inEdges id

namespace PipelineSpec.Reordered

variable {spec spec' : PipelineSpec} {en : Engine} {ctx : RunContext}

theorem symm (h : spec.Reordered spec') : spec'.Reordered spec where
  nodes := h.nodes.symm
  edges := fun id => (h.edges id).symm

/-! ## The graph -/

private theorem mem_edges_iff (h : spec.Reordered spec') (edge : EdgeSpec) :
    edge ∈ spec.edges ↔ edge ∈ spec'.edges := by
  have hinto := h.edges edge.toNode
  have hmem := spec.mem_inEdges edge.toNode edge
  have hmem' := spec'.mem_inEdges edge.toNode edge
  rw [hinto] at hmem
  exact ⟨fun hedge => (hmem'.mp (hmem.mpr ⟨hedge, rfl⟩)).1,
    fun hedge => (hmem.mp (hmem'.mpr ⟨hedge, rfl⟩)).1⟩

theorem path_iff (h : spec.Reordered spec') (a b : String) : spec.Path a b ↔ spec'.Path a b := by
  have hstep : (fun a b => ∃ edge ∈ spec.edges, edge.fromNode = a ∧ edge.toNode = b) =
      fun a b => ∃ edge ∈ spec'.edges, edge.fromNode = a ∧ edge.toNode = b := by
    ext a b
    simp only [h.mem_edges_iff]
  unfold PipelineSpec.Path
  rw [hstep]

theorem mem_keys_iff (h : spec.Reordered spec') (id : String) :
    id ∈ spec.nodeMap.keys ↔ id ∈ spec'.nodeMap.keys := by
  simp only [PipelineSpec.mem_nodeMap_keys, h.nodes.mem_iff]

private theorem outEdges_eq_nil_iff (h : spec.Reordered spec') (id : String) :
    spec.outEdges id = [] ↔ spec'.outEdges id = [] := by
  simp only [List.eq_nil_iff_forall_not_mem, PipelineSpec.mem_outEdges, h.mem_edges_iff]

private theorem node?_eq (h : spec.Reordered spec') (hids : (spec.nodes.map NodeSpec.id).Nodup)
    (id : String) : spec.node? id = spec'.node? id := by
  have hids' : (spec'.nodes.map NodeSpec.id).Nodup := (h.nodes.map _).nodup_iff.mp hids
  cases hnode : spec.node? id with
  | some node =>
      rcases PipelineSpec.node?_mem hnode with ⟨hmem, rfl⟩
      exact (Engine.node?_of_mem hids' (h.nodes.mem_iff.mp hmem)).symm
  | none =>
      cases hnode' : spec'.node? id with
      | none => rfl
      | some node =>
          rcases PipelineSpec.node?_mem hnode' with ⟨hmem, rfl⟩
          rw [Engine.node?_of_mem hids (h.nodes.mem_iff.mpr hmem)] at hnode
          cases hnode

/-! ## Validation -/

section Validation

variable (h : spec.Reordered spec')

include h

private theorem leavesPort (edge : EdgeSpec) (hleaves : en.LeavesPort spec edge) :
    en.LeavesPort spec' edge := by
  rcases hleaves with ⟨node, hnode, hrest⟩
  exact ⟨node, h.nodes.mem_iff.mp hnode, hrest⟩

private theorem reachesPort (edge : EdgeSpec) (hreaches : en.ReachesPort spec edge) :
    en.ReachesPort spec' edge := by
  rcases hreaches with ⟨node, hnode, hrest⟩
  exact ⟨node, h.nodes.mem_iff.mp hnode, hrest⟩

/-- As many edges reach every port. -/
theorem edgesInto_eq (id port : String) :
    Engine.edgesInto spec id port = Engine.edgesInto spec' id port := by
  rw [Engine.edgesInto_eq_countP, Engine.edgesInto_eq_countP, h.edges id]

/-- The conditions on the graph do not mention the order of the nodes. -/
theorem graphConditions (hgraph : en.GraphConditions spec) : en.GraphConditions spec' where
  nonempty := fun hempty => hgraph.nonempty (List.Perm.eq_nil (hempty ▸ h.nodes))
  unique_ids := (h.nodes.map _).nodup_iff.mp hgraph.unique_ids
  edges_join := by
    intro edge hedge
    rcases hgraph.edges_join edge ((h.mem_edges_iff edge).mpr hedge) with ⟨hleaves, hreaches⟩
    exact ⟨h.leavesPort edge hleaves, h.reachesPort edge hreaches⟩
  single_edges := by
    intro node hnode cls hcls hsingle port
    rw [← h.edgesInto_eq]
    exact hgraph.single_edges node (h.nodes.mem_iff.mpr hnode) cls hcls hsingle port
  acyclic := fun id hpath => hgraph.acyclic id ((h.path_iff id id).mpr hpath)
  scopes_disjoint := by
    intro iterator hiterator other hother hfans hfans' hne member
    rw [← h.path_iff, ← h.path_iff]
    exact hgraph.scopes_disjoint iterator (h.nodes.mem_iff.mpr hiterator) other
      (h.nodes.mem_iff.mpr hother) hfans hfans' hne member
  scopes_flat := by
    intro iterator hiterator other hother hfans hfans'
    rw [← h.path_iff]
    exact hgraph.scopes_flat iterator (h.nodes.mem_iff.mpr hiterator) other
      (h.nodes.mem_iff.mpr hother) hfans hfans'
  upstream_reaches := by
    intro node hnode path hreference
    rcases hgraph.upstream_reaches node (h.nodes.mem_iff.mpr hnode) path hreference with
      ⟨⟨target, htarget, hid⟩, hpath⟩
    exact ⟨⟨target, h.nodes.mem_iff.mp htarget, hid⟩, (h.path_iff _ _).mp hpath⟩
  iter_in_scope := by
    intro node hnode path hreference
    rcases hgraph.iter_in_scope node (h.nodes.mem_iff.mpr hnode) path hreference with
      ⟨iterator, hiterator, hfans, hpath⟩
    exact ⟨iterator, h.nodes.mem_iff.mp hiterator, hfans, (h.path_iff _ _).mp hpath⟩

/-- The edges into a node alone decide the counts of its ports. -/
theorem portCountsOf_eq (hids : (spec.nodes.map NodeSpec.id).Nodup) (id : String) :
    Engine.portCountsOf (en.portCounts spec) id = Engine.portCountsOf (en.portCounts spec') id := by
  have hclass : en.nodeClass? spec = en.nodeClass? spec' := by
    funext id
    rw [Engine.nodeClass?, Engine.nodeClass?, h.node?_eq hids]
  have hcount : en.countPort spec = en.countPort spec' := by
    funext counts edge
    rw [Engine.countPort, Engine.countPort, hclass]
  have hinto : ∀ spec : PipelineSpec, Engine.portCountsOf (en.portCounts spec) id =
      Engine.portCountsOf ((spec.inEdges id).foldl (en.countPort spec) .empty) id :=
    fun spec => Engine.portCountsOf_foldl_filter rfl
  rw [hinto spec, hinto spec', h.edges id, hcount]

/-- Reordering keeps a document without issues. -/
theorem no_issues (hvalid : en.validatePipeline spec = []) : en.validatePipeline spec' = [] := by
  rcases Engine.validatePipeline_eq_nil_iff.mp hvalid with ⟨hnodes, hgraph⟩
  have hids := hgraph.unique_ids
  refine Engine.validatePipeline_eq_nil_iff.mpr ⟨?_, h.graphConditions hgraph⟩
  intro node hnode'
  have hnode : node ∈ spec.nodes := h.nodes.mem_iff.mpr hnode'
  rcases hnodes node hnode with ⟨hconfig, hports⟩
  refine ⟨hconfig, ?_⟩
  rw [Engine.portIssues_eq_nil_iff hids hnode, h.portCountsOf_eq hids] at hports
  exact (Engine.portIssues_eq_nil_iff (h.graphConditions hgraph).unique_ids hnode').mpr hports

end Validation

/-! ## The equations -/

section Equations

variable (h : spec.Reordered spec') (hids : (spec.nodes.map NodeSpec.id).Nodup)

include h hids

private theorem sameAt (id : String) : spec.SameAt spec' id :=
  ⟨h.node?_eq hids id, h.edges id⟩

theorem unscoped_iff (id : String) : en.Unscoped spec id ↔ en.Unscoped spec' id := by
  simp only [Engine.Unscoped, (h.sameAt hids _).isIterator_iff, h.path_iff]

private theorem denotesIteration {iteratorId : String} {outer : View} {iter : IterContext}
    {inner : OrderedDict String NodeOutputs}
    (hinner : (en.on spec ctx).DenotesIteration iteratorId outer iter inner) :
    (en.on spec' ctx).DenotesIteration iteratorId outer iter inner where
  own := hinner.own
  member := by
    intro n hpath
    rcases hinner.member n ((h.path_iff iteratorId n).mpr hpath) with ⟨outputs, hget, hexec⟩
    exact ⟨outputs, hget, ((h.sameAt hids n).executeNode_eq _ _).symm.trans hexec⟩
  outside := fun n hne hpath =>
    hinner.outside n hne fun hinside => hpath ((h.path_iff iteratorId n).mp hinside)

/-- Reordering keeps a solution. -/
theorem denotes {view : View} (hview : (en.on spec ctx).Denotes view) :
    (en.on spec' ctx).Denotes view where
  unknown := fun n hn => hview.unknown n fun hmem => hn ((h.mem_keys_iff n).mp hmem)
  node := by
    intro n hn hplain hunscoped
    rcases hview.node n ((h.mem_keys_iff n).mpr hn)
      (fun hiter => hplain ((h.sameAt hids n).isIterator_iff.mp hiter))
      ((h.unscoped_iff hids n).mpr hunscoped) with ⟨outputs, hexec, hget⟩
    exact ⟨outputs, ((h.sameAt hids n).executeNode_eq _ _).symm.trans hexec, hget⟩
  fanOut := by
    intro iteratorId hiter
    rcases hview.fanOut iteratorId ((h.sameAt hids iteratorId).isIterator_iff.mpr hiter) with
      ⟨plan, inners, hfan⟩
    refine ⟨plan, inners, ((h.sameAt hids iteratorId).planFanOut_eq view).symm.trans hfan.planned,
      hfan.iterations.imp fun _ _ hinner => h.denotesIteration hids hinner, ?_⟩
    intro n hn
    rw [← (h.sameAt hids n).gatheredOutputs_eq]
    apply hfan.gathered n
    rcases hn with heq | hpath
    · exact Or.inl heq
    · exact Or.inr ((h.path_iff iteratorId n).mpr hpath)

end Equations

/-- Reordered documents have the same equations. -/
theorem denotes_iff (h : spec.Reordered spec') (hids : (spec.nodes.map NodeSpec.id).Nodup)
    (view : View) : (en.on spec ctx).Denotes view ↔ (en.on spec' ctx).Denotes view :=
  ⟨h.denotes hids, h.symm.denotes ((h.nodes.map _).nodup_iff.mp hids)⟩

end PipelineSpec.Reordered

/-! ## Whole calls -/

/-- A document that succeeds under some schedule succeeds under every schedule when its nodes
are declared in another order, with the same outputs of all nodes and of the pipeline, if
the new order visits the outside sources of every scope before its iterator. -/
theorem executePipeline_reordered (en : Engine) (spec spec' : PipelineSpec)
    (secrets : OrderedDict String PyText) (options : ExecutionOptions)
    (schedule schedule' : String → List FanOut.Choice) (hreordered : spec.Reordered spec')
    (hordered' : ∀ topo, spec'.topoOrder = some topo → en.ScopeSourcesPrecede spec' topo)
    (result : RunResult)
    (houtcome : (en.executePipeline schedule spec secrets options).outcome = .ok result)
    (hstatus : result.status = .succeeded) :
    (en.executePipeline schedule' spec' secrets options).state.view =
        (en.executePipeline schedule spec secrets options).state.view ∧
      ∃ result', (en.executePipeline schedule' spec' secrets options).outcome = .ok result' ∧
        result'.status = .succeeded ∧
        ∀ id, result'.outputs.get? id = result.outputs.get? id := by
  rcases executePipeline_succeeded houtcome hstatus with
    ⟨topo, redactor, hsorted, hredactor, hstate, hcalm, houtputs⟩
  have hdenotes : (en.on spec ⟨secrets, options, redactor⟩).Denotes
      (en.executePipeline schedule spec secrets options).state.view := by
    rw [hstate] at hcalm ⊢
    exact PipelineRun.run_denotes hsorted schedule hcalm
  have hdenotes' := hreordered.denotes hsorted.validated.nodup_ids hdenotes
  have hvalid' := hreordered.no_issues (executePipeline_validates houtcome hstatus)
  rcases executePipeline_of_valid hvalid' hredactor options with ⟨topo', hsorted', hcall⟩
  rcases PipelineRun.run_of_denotes hsorted' (hordered' topo' hsorted'.order) hdenotes'
    schedule' with ⟨hcalm', hview'⟩
  have hfinish := (PipelineRun.finish_succeeded_iff
    (r := en.on spec' ⟨secrets, options, redactor⟩)).mpr ⟨hcalm', rfl⟩
  rw [hcall]
  refine ⟨hview', _, hfinish.1, hfinish.2, fun id => ?_⟩
  simp only [PipelineRun.get?_terminalOutputs, hview', houtputs, hreordered.outEdges_eq_nil_iff]

/-- The scope node declared first, before both of its sources. -/
def workFirst : PipelineSpec :=
  Samples.document
    [Samples.node "work" "collect" [], Samples.node "lookup" "source" [],
      Samples.iterator "each" [.int 7]]
    [Samples.edge "each" "work", Samples.edge "lookup" "work"]

private theorem earlySource_reordered_workFirst : earlySource.Reordered workFirst where
  nodes := by
    apply List.Perm.symm
    exact (List.Perm.swap _ _ _).trans ((List.Perm.swap _ _ _).cons _)
  edges := fun _ => rfl

theorem executePipeline_reordered_workFirst :
    (Samples.engine.executePipeline overtaking workFirst .empty (Samples.options false)).state.view =
        (Samples.execute earlySource false).state.view ∧
      (Samples.engine.executePipeline overtaking workFirst .empty
        (Samples.options false)).Succeeded := by
  have hordered : ∀ topo, workFirst.topoOrder = some topo →
      Samples.engine.ScopeSourcesPrecede workFirst topo := by
    intro topo htopo
    have horder : workFirst.topoOrder = some ["lookup", "each", "work"] := by decide +kernel
    rw [horder, Option.some.injEq] at htopo
    subst htopo
    exact Engine.scopeSourcesPrecede_of_nodes (by decide +kernel) (by decide +kernel)
  rcases earlySource_succeeds with ⟨result, houtcome, hstatus⟩
  rcases executePipeline_reordered Samples.engine earlySource workFirst .empty
    (Samples.options false) (fun _ => []) overtaking earlySource_reordered_workFirst
    hordered result houtcome hstatus with ⟨hview, result', houtcome', hstatus', _⟩
  exact ⟨hview, result', houtcome', hstatus'⟩

/-- With the source declared last the same document has no issues, and fails. -/
theorem executePipeline_reordered_fails :
    earlySource.Reordered lateSource ∧ Samples.engine.validatePipeline lateSource = [] ∧
      (Samples.execute earlySource false).Succeeded ∧
      (Samples.execute lateSource false).outcome.toOption.map RunResult.status =
        some .failed := by
  refine ⟨⟨?_, fun _ => rfl⟩, by decide +kernel, earlySource_succeeds, by decide +kernel⟩
  exact (List.Perm.swap _ _ _).trans ((List.Perm.swap _ _ _).cons _)

end EtlTool
