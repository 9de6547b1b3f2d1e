import EtlTool.Engine.Graph
import EtlTool.Nodes.Base

/-!
# Static validation

The checks that run before anything is executed: unique ids, known types, valid
configs, connected ports, acyclicity, un-nested and disjoint iterator scopes,
and reference targets that are ancestors.

Main results:

- Theorem {lit}`validated_of_no_issues`: a document without issues is
  {lit}`Validated`, the facts on which the execution relies.

Current gaps:

- The members of a scope are visited in search order, where the source leaves
  the order to the iteration of a set.
-/

namespace EtlTool

namespace Engine

/-- The class of the node with an id. -/
def nodeClass? (en : Engine) (spec : PipelineSpec) (id : String) : Option NodeClass :=
  (spec.node? id).bind fun node => en.registry.get? node.type

/-! ## Nodes -/

/-- Repeated node ids, given the ids seen so far. -/
def duplicateIdIssues : List String → List NodeSpec → List ValidationIssue
  | _, [] => []
  | seen, node :: rest =>
      (if node.id ∈ seen then [⟨some node.id, "duplicate node id"⟩] else []) ++
        duplicateIdIssues (node.id :: seen) rest

/-- The registered type names in alphabetical order. -/
def knownTypes (en : Engine) : String :=
  ", ".intercalate (en.registry.keys.insertionSort fun a b => a ≤ b)

/-- Type and config of one node. -/
def configIssues (en : Engine) (node : NodeSpec) : List ValidationIssue :=
  match en.registry.get? node.type with
  | none =>
      [⟨some node.id, "unknown node type " ++ en.runtime.reprStr node.type ++ " (known: " ++
        en.knownTypes ++ ")"⟩]
  | some cls =>
      if hasReferences node.config then []
      else
        match cls.modelValidate node.config with
        | .ok _ => []
        | .error issues => [⟨some node.id, formatValidationError issues⟩]

/-! ## Edges -/

/-- {lit}`port_counts`: edges counted so far by target node and port. -/
abbrev PortCounts := OrderedDict String (OrderedDict String Nat)

/-- The counts of one node. -/
def portCountsOf (counts : PortCounts) (id : String) : OrderedDict String Nat :=
  (counts.get? id).getD .empty

/-- Count one edge if its target has the port. -/
def countPort (en : Engine) (spec : PipelineSpec) (counts : PortCounts) (edge : EdgeSpec) :
    PortCounts :=
  match en.nodeClass? spec edge.toNode with
  | none => counts
  | some cls =>
      if edge.toPort ∈ cls.inputPorts then
        let inner := portCountsOf counts edge.toNode
        counts.set edge.toNode (inner.set edge.toPort ((inner.get? edge.toPort).getD 0 + 1))
      else counts

/-- Endpoints that name no node. -/
def endpointIssues (en : Engine) (spec : PipelineSpec) (edge : EdgeSpec) :
    List ValidationIssue :=
  [("from", edge.fromNode), ("to", edge.toNode)].flatMap fun endpoint =>
    if endpoint.2 ∈ spec.nodeMap.keys then []
    else
      [⟨none, "edge " ++ en.runtime.reprStr endpoint.1 ++ " references unknown node " ++
        en.runtime.reprStr endpoint.2⟩]

/-- A source port that the source node does not have. -/
def outputPortIssues (en : Engine) (spec : PipelineSpec) (edge : EdgeSpec) :
    List ValidationIssue :=
  match en.nodeClass? spec edge.fromNode with
  | none => []
  | some cls =>
      if edge.fromPort ∈ cls.outputPorts then []
      else
        [⟨some edge.fromNode, "node has no output port " ++ en.runtime.reprStr edge.fromPort⟩]

/-- A target port that the target node does not have, or that is already
taken. -/
def inputPortIssues (en : Engine) (spec : PipelineSpec) (counts : PortCounts) (edge : EdgeSpec) :
    List ValidationIssue :=
  match en.nodeClass? spec edge.toNode with
  | none => []
  | some cls =>
      if edge.toPort ∉ cls.inputPorts then
        [⟨some edge.toNode, "node has no input port " ++ en.runtime.reprStr edge.toPort⟩]
      else if !cls.allowMultiInput &&
          decide (1 < ((portCountsOf (en.countPort spec counts edge) edge.toNode).get?
            edge.toPort).getD 0) then
        [⟨some edge.toNode, "port " ++ en.runtime.reprStr edge.toPort ++
          " accepts a single edge"⟩]
      else []

/-- The edge checks, in declaration order. -/
def edgeIssues (en : Engine) (spec : PipelineSpec) :
    PortCounts → List EdgeSpec → List ValidationIssue
  | _, [] => []
  | counts, edge :: rest =>
      en.endpointIssues spec edge ++ en.outputPortIssues spec edge ++
        en.inputPortIssues spec counts edge ++
          edgeIssues en spec (en.countPort spec counts edge) rest

/-- {lit}`port_counts` after all edges. -/
def portCounts (en : Engine) (spec : PipelineSpec) : PortCounts :=
  spec.edges.foldl (en.countPort spec) .empty

/-- Whether {lit}`validate_pipeline` parses the config of a node. -/
def parsesConfig (en : Engine) (node : NodeSpec) : Bool :=
  match en.registry.get? node.type with
  | none => false
  | some cls => !hasReferences node.config && (cls.modelValidate node.config).toBool

/-- {lit}`configs`: the nodes whose config is parsed, by id.  Of several nodes with one id the
last is kept. -/
def configs (en : Engine) (spec : PipelineSpec) : OrderedDict String NodeSpec :=
  .ofList ((spec.nodes.filter en.parsesConfig).map fun node => (node.id, node))

/-- The config that is kept for a node, as a class sees it that is registered for a type. -/
def configFor (cls : NodeClass) (type : String) (owner : NodeSpec) : Option cls.Config :=
  if owner.type = type then (cls.modelValidate owner.config).toOption else none

/-- Required ports and the checks of the class, for the config that is kept under the id. -/
def portIssues (en : Engine) (spec : PipelineSpec) (node : NodeSpec) : List ValidationIssue :=
  match en.registry.get? node.type, (en.configs spec).get? node.id with
  | some cls, some owner =>
      let config := configFor cls node.type owner
      let counts := portCountsOf (en.portCounts spec) node.id
      ((cls.requiredInputPorts config).filter fun port =>
          (counts.get? port).getD 0 = 0).map (fun port =>
        ⟨some node.id, "required input port " ++ en.runtime.reprStr port ++
          " has no inbound edge"⟩) ++
      (cls.checkSpec config counts).map fun message => ⟨some node.id, message⟩
  | _, _ => []

/-! ## Scopes and references -/

/-- The ids of the control-flow nodes. -/
def iteratorIds (en : Engine) (spec : PipelineSpec) : List String :=
  (spec.nodes.filter fun node => en.fansOut node.type).map NodeSpec.id

/-- {lit}`scopes`: the downstream subgraph of every iterator. -/
def scopes (en : Engine) (spec : PipelineSpec) : OrderedDict String (List String) :=
  .ofList ((en.iteratorIds spec).map fun id => (id, spec.descendants id))

/-- Iterators inside the scope of another one. -/
def nestedIssues (en : Engine) (spec : PipelineSpec) : List ValidationIssue :=
  (en.scopes spec).entries.flatMap fun scope =>
    ((en.iteratorIds spec).filter fun other => other ≠ scope.1 ∧ other ∈ scope.2).map fun other =>
      ⟨some other, "nested iterators are not supported (inside scope of " ++
        en.runtime.reprStr scope.1 ++ ")"⟩

/-- Members of one scope that another iterator owns already. -/
def memberIssues (en : Engine) (iteratorId : String) :
    OrderedDict String String → List String → List ValidationIssue
  | _, [] => []
  | owner, member :: rest =>
      (match owner.get? member with
        | none => []
        | some other =>
            if other = iteratorId then []
            else
              [⟨some member, "node is downstream of two iterators (" ++
                en.runtime.reprStr other ++ " and " ++ en.runtime.reprStr iteratorId ++
                "); iterator scopes must not overlap"⟩]) ++
        memberIssues en iteratorId (owner.set member iteratorId) rest

/-- {lit}`scope_owner` after one scope. -/
def ownScope (iteratorId : String) (owner : OrderedDict String String) (scope : List String) :
    OrderedDict String String :=
  scope.foldl (fun owner member => owner.set member iteratorId) owner

/-- Overlapping scopes. -/
def overlapIssues (en : Engine) :
    OrderedDict String String → List (String × List String) → List ValidationIssue
  | _, [] => []
  | owner, (iteratorId, scope) :: rest =>
      en.memberIssues iteratorId owner scope ++
        overlapIssues en (ownScope iteratorId owner scope) rest

/-- One reference in the config of a node. -/
def referenceIssues (en : Engine) (spec : PipelineSpec) (id : String) (kind : RefKind)
    (path : String) : List ValidationIssue :=
  match kind with
  | .iter =>
      if (en.scopes spec).values.any fun scope => id ∈ scope then []
      else
        [⟨some id, "$iter reference used outside of any iterator's downstream subgraph"⟩]
  | .upstream =>
      let target := referenceTarget path
      if target ∉ spec.nodeMap.keys then
        [⟨some id, "$upstream reference to unknown node " ++ en.runtime.reprStr target⟩]
      else if target ∉ spec.ancestors id then
        [⟨some id, "$upstream reference to " ++ en.runtime.reprStr target ++
          ", which is not an ancestor of this node (add an edge to order them)"⟩]
      else []

/-- The checks that need a graph without cycles. -/
def scopeIssues (en : Engine) (spec : PipelineSpec) : List ValidationIssue :=
  en.nestedIssues spec ++ en.overlapIssues .empty (en.scopes spec).entries ++
    spec.nodes.flatMap fun node =>
      (findInFields node.config).flatMap fun reference =>
        en.referenceIssues spec node.id reference.1 reference.2

/-- {lit}`validate_pipeline`. -/
def validatePipeline (en : Engine) (spec : PipelineSpec) : List ValidationIssue :=
  duplicateIdIssues [] spec.nodes ++
    (if spec.nodes = [] then [⟨none, "pipeline has no nodes"⟩] else []) ++
    spec.nodes.flatMap en.configIssues ++
    en.edgeIssues spec .empty spec.edges ++
    spec.nodes.flatMap (en.portIssues spec) ++
    match spec.topoOrder with
    | none => [⟨none, "pipeline graph contains a cycle"⟩]
    | some _ => en.scopeIssues spec

/-! ## What validation establishes -/

/-- A node that the engine fans out. -/
def IsIterator (en : Engine) (spec : PipelineSpec) (id : String) : Prop :=
  ∃ node, spec.node? id = some node ∧ en.fansOut node.type = true

/-- The facts about a document on which its execution relies. -/
structure Validated (en : Engine) (spec : PipelineSpec) : Prop where
  nodup_ids : (spec.nodes.map NodeSpec.id).Nodup
  types_known : ∀ node ∈ spec.nodes, ∃ cls, en.registry.get? node.type = some cls
  edges_known : spec.EdgesKnown
  output_ports : ∀ edge ∈ spec.edges, ∀ cls,
    en.nodeClass? spec edge.fromNode = some cls → edge.fromPort ∈ cls.outputPorts
  sorted : ∃ topo, spec.topoOrder = some topo
  not_nested : ∀ id other, en.IsIterator spec id → en.IsIterator spec other →
    ¬ spec.Path id other
  disjoint : ∀ id other member, en.IsIterator spec id → en.IsIterator spec other →
    spec.Path id member → spec.Path other member → id = other
  upstream_ancestors : ∀ node ∈ spec.nodes, ∀ target ∈ upstreamTargets node.config,
    spec.Path target node.id

theorem duplicateIdIssues_eq_nil {seen : List String} {nodes : List NodeSpec}
    (h : duplicateIdIssues seen nodes = []) :
    (nodes.map NodeSpec.id).Nodup ∧ ∀ node ∈ nodes, node.id ∉ seen := by
  induction nodes generalizing seen with
  | nil => simp
  | cons node rest ih =>
      unfold duplicateIdIssues at h
      rw [List.append_eq_nil_iff] at h
      rcases ih h.2 with ⟨hnodup, hseen⟩
      have hnode : node.id ∉ seen := by
        intro hmem
        simp [hmem] at h
      refine ⟨?_, ?_⟩
      · rw [List.map_cons, List.nodup_cons]
        refine ⟨?_, hnodup⟩
        intro hmem
        rcases List.mem_map.mp hmem with ⟨other, hother, heq⟩
        exact hseen other hother (heq ▸ List.mem_cons_self)
      · intro other hother
        rcases List.mem_cons.mp hother with rfl | hother
        · exact hnode
        · exact fun hmem => hseen other hother (List.mem_cons_of_mem _ hmem)

theorem configIssues_eq_nil {en : Engine} {node : NodeSpec} (h : en.configIssues node = []) :
    ∃ cls, en.registry.get? node.type = some cls := by
  unfold configIssues at h
  cases hcls : en.registry.get? node.type with
  | none => simp [hcls] at h
  | some cls => exact ⟨cls, rfl⟩

private theorem edgeIssues_eq_nil {en : Engine} {spec : PipelineSpec} {counts : PortCounts}
    {edges : List EdgeSpec} (h : en.edgeIssues spec counts edges = []) :
    ∀ edge ∈ edges, en.endpointIssues spec edge = [] ∧ en.outputPortIssues spec edge = [] := by
  induction edges generalizing counts with
  | nil => simp
  | cons edge rest ih =>
      unfold edgeIssues at h
      simp only [List.append_eq_nil_iff] at h
      intro other hother
      rcases List.mem_cons.mp hother with rfl | hother
      · exact h.1.1
      · exact ih h.2 other hother

theorem endpointIssues_eq_nil {en : Engine} {spec : PipelineSpec} {edge : EdgeSpec}
    (h : en.endpointIssues spec edge = []) :
    edge.fromNode ∈ spec.nodeMap.keys ∧ edge.toNode ∈ spec.nodeMap.keys := by
  unfold endpointIssues at h
  constructor
  · by_contra hnot
    simp [hnot] at h
  · by_contra hnot
    simp [hnot] at h

theorem memberIssues_eq_nil {en : Engine} {iteratorId : String} {scope : List String}
    {owner : OrderedDict String String} (h : en.memberIssues iteratorId owner scope = []) :
    ∀ member ∈ scope, ∀ other, owner.get? member = some other → other = iteratorId := by
  induction scope generalizing owner with
  | nil => simp
  | cons member rest ih =>
      unfold memberIssues at h
      rw [List.append_eq_nil_iff] at h
      have hhead : ∀ other, owner.get? member = some other → other = iteratorId := by
        intro other hother
        by_contra hne
        simp [hother, hne] at h
      intro m hm other hother
      rcases List.mem_cons.mp hm with rfl | hm
      · exact hhead other hother
      · by_cases hmm : m = member
        · exact hhead other (hmm ▸ hother)
        · exact ih h.2 m hm other (by rwa [owner.get?_set_of_ne hmm])

theorem get?_ownScope (iteratorId : String) (owner : OrderedDict String String)
    (scope : List String) (m : String) :
    (ownScope iteratorId owner scope).get? m =
      if m ∈ scope then some iteratorId else owner.get? m := by
  unfold ownScope
  induction scope generalizing owner with
  | nil => simp
  | cons member rest ih =>
      rw [List.foldl_cons, ih, OrderedDict.get?_set]
      by_cases hrest : m ∈ rest
      · simp [hrest]
      · simp [hrest]

/-- Without overlap issues, no member has an earlier owner and no two scopes
share a member. -/
theorem overlapIssues_eq_nil {en : Engine} {scopes : List (String × List String)}
    {owner : OrderedDict String String} (h : en.overlapIssues owner scopes = []) :
    (∀ scope ∈ scopes, ∀ member ∈ scope.2, ∀ other, owner.get? member = some other →
      other = scope.1) ∧
    scopes.Pairwise fun first second => ∀ member ∈ first.2, member ∈ second.2 →
      first.1 = second.1 := by
  induction scopes generalizing owner with
  | nil => simp
  | cons head rest ih =>
      rcases head with ⟨iteratorId, members⟩
      unfold overlapIssues at h
      rw [List.append_eq_nil_iff] at h
      rcases ih h.2 with ⟨howner, hpairwise⟩
      have hlater : ∀ scope ∈ rest, ∀ member ∈ members, member ∈ scope.2 →
          iteratorId = scope.1 := by
        intro scope hscope member hmember hmem
        exact howner scope hscope member hmem iteratorId (by simp [get?_ownScope, hmember])
      refine ⟨?_, List.pairwise_cons.mpr ⟨hlater, hpairwise⟩⟩
      intro scope hscope member hmember other hother
      rcases List.mem_cons.mp hscope with rfl | hscope
      · exact memberIssues_eq_nil h.1 member hmember other hother
      · by_cases hhead : member ∈ members
        · have hother' := memberIssues_eq_nil h.1 member hhead other hother
          exact hother'.trans (hlater scope hscope member hhead hmember)
        · exact howner scope hscope member hmember other (by simp [get?_ownScope, hhead, hother])

private theorem mem_iteratorIds {en : Engine} {spec : PipelineSpec} {id : String}
    (h : en.IsIterator spec id) : id ∈ en.iteratorIds spec := by
  rcases h with ⟨node, hnode, hfans⟩
  rcases PipelineSpec.node?_mem hnode with ⟨hmem, rfl⟩
  exact List.mem_map.mpr ⟨node, List.mem_filter.mpr ⟨hmem, hfans⟩, rfl⟩

private theorem get?_scopes {en : Engine} {spec : PipelineSpec} {id : String}
    (h : en.IsIterator spec id) :
    (en.scopes spec).get? id = some (spec.descendants id) := by
  have hkey : id ∈ (en.scopes spec).keys := by
    rw [scopes, OrderedDict.mem_keys_ofList]
    simpa using mem_iteratorIds h
  rcases OrderedDict.exists_get?_of_mem_keys hkey with ⟨scope, hscope⟩
  have hmem := OrderedDict.mem_of_get?_ofList hscope
  simp only [List.mem_map, Prod.mk.injEq] at hmem
  rcases hmem with ⟨_, _, rfl, rfl⟩
  exact hscope

private theorem not_nested_of_no_issues {en : Engine} {spec : PipelineSpec}
    (h : en.nestedIssues spec = []) {id other : String} (hid : en.IsIterator spec id)
    (hother : en.IsIterator spec other) (hne : id ≠ other) : ¬ spec.Path id other := by
  intro hpath
  have hentry := ((en.scopes spec).get?_eq_some_iff id _).mp (get?_scopes hid)
  unfold nestedIssues at h
  rw [List.flatMap_eq_nil_iff] at h
  have hnone := h _ hentry
  simp only [List.map_eq_nil_iff, List.filter_eq_nil_iff, decide_eq_true_eq] at hnone
  exact hnone other (mem_iteratorIds hother)
    ⟨Ne.symm hne, (spec.mem_descendants_iff id other).mpr hpath⟩

private theorem disjoint_of_no_issues {en : Engine} {spec : PipelineSpec}
    (h : en.overlapIssues .empty (en.scopes spec).entries = []) {id other member : String}
    (hid : en.IsIterator spec id) (hother : en.IsIterator spec other)
    (hmember : spec.Path id member) (hmember' : spec.Path other member) : id = other := by
  have hentry := ((en.scopes spec).get?_eq_some_iff id _).mp (get?_scopes hid)
  have hentry' := ((en.scopes spec).get?_eq_some_iff other _).mp (get?_scopes hother)
  have hsymm : ∀ first ∈ (en.scopes spec).entries, ∀ second ∈ (en.scopes spec).entries,
      ∀ member ∈ first.2, member ∈ second.2 → first.1 = second.1 := by
    have hpairwise := (overlapIssues_eq_nil h).2
    intro first hfirst second hsecond
    exact hpairwise.forall_of_forall_of_flip (fun _ _ _ _ _ => rfl)
      (hpairwise.imp fun hdisjoint member hm hm' => (hdisjoint member hm' hm).symm)
      hfirst hsecond
  exact hsymm _ hentry _ hentry' member ((spec.mem_descendants_iff id member).mpr hmember)
    ((spec.mem_descendants_iff other member).mpr hmember')

private theorem upstream_ancestor_of_no_issues {en : Engine} {spec : PipelineSpec} {node : NodeSpec}
    (h : ∀ reference ∈ findInFields node.config,
      en.referenceIssues spec node.id reference.1 reference.2 = [])
    {target : String} (htarget : target ∈ upstreamTargets node.config) :
    spec.Path target node.id := by
  rcases List.mem_filterMap.mp htarget with ⟨⟨kind, path⟩, hreference, hhead⟩
  have hissues := h _ hreference
  cases kind with
  | iter => cases hhead
  | upstream =>
      unfold referenceIssues at hissues
      by_cases hknown : referenceTarget path ∈ spec.nodeMap.keys
      · by_cases hancestor : referenceTarget path ∈ spec.ancestors node.id
        · rcases (spec.mem_nodeMap_keys _).mp hknown with ⟨named, _, hnamed⟩
          have hne : referenceTarget path ≠ "" :=
            hnamed ▸ ne_empty_of_matchesNodeIdPattern named.id_pattern
          have hfirst := splitPath_head?_of_target hne
          simp only [upstreamTarget?] at hhead
          rw [hfirst] at hhead
          cases hhead
          exact (spec.mem_ancestors_iff node.id _).mp hancestor
        · simp [hknown, hancestor] at hissues
      · simp [hknown] at hissues

/-- A document without issues is validated. -/
theorem validated_of_no_issues {en : Engine} {spec : PipelineSpec}
    (h : en.validatePipeline spec = []) : en.Validated spec := by
  unfold validatePipeline at h
  simp only [List.append_eq_nil_iff] at h
  rcases h with ⟨⟨⟨⟨⟨hdup, _⟩, hconfig⟩, hedges⟩, _⟩, hrest⟩
  rw [List.flatMap_eq_nil_iff] at hconfig
  have hknown : spec.EdgesKnown := fun edge hedge =>
    endpointIssues_eq_nil (edgeIssues_eq_nil hedges edge hedge).1
  cases htopo : spec.topoOrder with
  | none => simp [htopo] at hrest
  | some topo =>
      rw [htopo] at hrest
      simp only [scopeIssues, List.append_eq_nil_iff] at hrest
      rcases hrest with ⟨⟨hnested, hoverlap⟩, hreferences⟩
      refine ⟨(duplicateIdIssues_eq_nil hdup).1, fun node hnode =>
        configIssues_eq_nil (hconfig node hnode), hknown, ?_, ⟨topo, htopo⟩, ?_, ?_, ?_⟩
      · intro edge hedge cls hcls
        have hport := (edgeIssues_eq_nil hedges edge hedge).2
        unfold outputPortIssues at hport
        rw [hcls] at hport
        by_contra hnot
        simp [hnot] at hport
      · intro id other hid hother hpath
        by_cases hne : id = other
        · exact PipelineSpec.topoOrder_acyclic htopo hknown id (hne ▸ hpath)
        · exact not_nested_of_no_issues hnested hid hother hne hpath
      · intro id other member hid hother
        exact disjoint_of_no_issues hoverlap hid hother
      · intro node hnode target htarget
        rw [List.flatMap_eq_nil_iff] at hreferences
        have hnone := hreferences node hnode
        rw [List.flatMap_eq_nil_iff] at hnone
        exact upstream_ancestor_of_no_issues hnone htarget

end Engine

end EtlTool
