import EtlTool.Engine.Samples
import EtlTool.Engine.Validation

/-!
# What validation decides

The conditions on the graph of a document, stated without the algorithms that check
them, and the proof that validation finds nothing exactly if they hold.  Kahn's algorithm
decides acyclicity, the two closures decide reachability, and the loop that records the
owner of every member of a scope decides whether scopes overlap.

Main results:

- Theorem {lit}`edgeIssues_eq_nil_iff`: the checks of the edges, which count the edges
  into a port as they go.
- Theorem {lit}`scopeIssues_eq_nil_iff`: the checks of scopes and references.
- Theorem {lit}`validate_pipeline_iff`: a document whose nodes pass their own checks has
  no issue exactly if its graph meets the conditions.
-/

namespace EtlTool

namespace Engine

/-- The edge leaves its source through a port that the source has. -/
def LeavesPort (en : Engine) (spec : PipelineSpec) (edge : EdgeSpec) : Prop :=
  ∃ node ∈ spec.nodes, node.id = edge.fromNode ∧
    ∃ cls, en.registry.get? node.type = some cls ∧ edge.fromPort ∈ cls.outputPorts

/-- The edge reaches its target at a port that the target has. -/
def ReachesPort (en : Engine) (spec : PipelineSpec) (edge : EdgeSpec) : Prop :=
  ∃ node ∈ spec.nodes, node.id = edge.toNode ∧
    ∃ cls, en.registry.get? node.type = some cls ∧ edge.toPort ∈ cls.inputPorts

/-- The edges into a port. -/
def edgesInto (spec : PipelineSpec) (id port : String) : Nat :=
  spec.edges.countP fun edge => edge.toNode = id ∧ edge.toPort = port

theorem edgesInto_eq_countP (spec : PipelineSpec) (id port : String) :
    edgesInto spec id port = (spec.inEdges id).countP fun edge => edge.toPort = port := by
  unfold edgesInto PipelineSpec.inEdges
  rw [List.countP_filter]
  congr 1
  funext edge
  rw [Bool.decide_and, Bool.and_comm]

/-- The conditions on the graph of a document. -/
structure GraphConditions (en : Engine) (spec : PipelineSpec) : Prop where
  nonempty : spec.nodes ≠ []
  unique_ids : (spec.nodes.map NodeSpec.id).Nodup
  edges_join : ∀ edge ∈ spec.edges, en.LeavesPort spec edge ∧ en.ReachesPort spec edge
  single_edges : ∀ node ∈ spec.nodes, ∀ cls, en.registry.get? node.type = some cls →
    cls.allowMultiInput = false → ∀ port, edgesInto spec node.id port ≤ 1
  acyclic : ∀ id, ¬ spec.Path id id
  scopes_disjoint : ∀ iterator ∈ spec.nodes, ∀ other ∈ spec.nodes,
    en.fansOut iterator.type = true → en.fansOut other.type = true → iterator.id ≠ other.id →
      ∀ member, ¬ (spec.Path iterator.id member ∧ spec.Path other.id member)
  scopes_flat : ∀ iterator ∈ spec.nodes, ∀ other ∈ spec.nodes,
    en.fansOut iterator.type = true → en.fansOut other.type = true →
      ¬ spec.Path iterator.id other.id
  upstream_reaches : ∀ node ∈ spec.nodes, ∀ path,
    (RefKind.upstream, path) ∈ findInFields node.config →
      (∃ target ∈ spec.nodes, target.id = referenceTarget path) ∧
        spec.Path (referenceTarget path) node.id
  iter_in_scope : ∀ node ∈ spec.nodes, ∀ path,
    (RefKind.iter, path) ∈ findInFields node.config →
      ∃ iterator ∈ spec.nodes, en.fansOut iterator.type = true ∧
        spec.Path iterator.id node.id

/-! ## Nodes -/

private theorem duplicateIdIssues_eq_nil_iff {seen : List String} {nodes : List NodeSpec} :
    duplicateIdIssues seen nodes = [] ↔
      (nodes.map NodeSpec.id).Nodup ∧ ∀ node ∈ nodes, node.id ∉ seen := by
  refine ⟨duplicateIdIssues_eq_nil, ?_⟩
  induction nodes generalizing seen with
  | nil => exact fun _ => rfl
  | cons node rest ih =>
      rintro ⟨hnodup, hseen⟩
      rw [List.map_cons, List.nodup_cons] at hnodup
      rw [List.forall_mem_cons] at hseen
      unfold duplicateIdIssues
      rw [if_neg hseen.1, List.nil_append]
      refine ih ⟨hnodup.2, fun other hother => ?_⟩
      rw [List.mem_cons, not_or]
      exact ⟨fun heq => hnodup.1 (heq ▸ List.mem_map_of_mem hother), hseen.2 other hother⟩

section

variable {en : Engine} {spec : PipelineSpec}

/-- With unique ids, every node is found under its id. -/
theorem node?_of_mem (hids : (spec.nodes.map NodeSpec.id).Nodup) {node : NodeSpec}
    (h : node ∈ spec.nodes) : spec.node? node.id = some node := by
  refine OrderedDict.get?_ofList_of_mem ?_ (List.mem_map_of_mem h)
  rw [List.map_map]
  exact hids

theorem nodeClass?_eq_some_iff (hids : (spec.nodes.map NodeSpec.id).Nodup) {id : String}
    {cls : NodeClass} :
    en.nodeClass? spec id = some cls ↔
      ∃ node ∈ spec.nodes, node.id = id ∧ en.registry.get? node.type = some cls := by
  unfold nodeClass?
  constructor
  · intro h
    rcases Option.bind_eq_some_iff.mp h with ⟨node, hnode, hcls⟩
    rcases PipelineSpec.node?_mem hnode with ⟨hmem, hid⟩
    exact ⟨node, hmem, hid, hcls⟩
  · rintro ⟨node, hmem, rfl, hcls⟩
    rw [node?_of_mem hids hmem]
    exact hcls

private theorem parsesConfig_iff {node : NodeSpec} :
    en.parsesConfig node = true ↔ ∃ cls config, en.registry.get? node.type = some cls ∧
      hasReferences node.config = false ∧ cls.modelValidate node.config = .ok config := by
  unfold parsesConfig
  cases hcls : en.registry.get? node.type with
  | none => simp
  | some cls =>
      cases hvalidate : cls.modelValidate node.config with
      | error issues => simp [Except.toBool, hvalidate]
      | ok config => simp [Except.toBool, hvalidate]

/-- With unique ids, a node meets its own config again, if it has been parsed. -/
theorem get?_configs (hids : (spec.nodes.map NodeSpec.id).Nodup) {node : NodeSpec}
    (h : node ∈ spec.nodes) :
    (en.configs spec).get? node.id = if en.parsesConfig node then some node else none := by
  split
  · rename_i hparses
    refine OrderedDict.get?_ofList_of_mem ?_ (List.mem_map_of_mem (List.mem_filter.mpr
      ⟨h, hparses⟩))
    rw [List.map_map]
    exact hids.sublist (List.filter_sublist.map _)
  · rename_i hparses
    cases hget : (en.configs spec).get? node.id with
    | none => rfl
    | some owner =>
        rcases List.mem_map.mp (OrderedDict.mem_of_get?_ofList hget) with ⟨other, hother, heq⟩
        rcases List.mem_filter.mp hother with ⟨hmem, hvalid⟩
        rw [Prod.mk.injEq] at heq
        rw [List.inj_on_of_nodup_map hids hmem h heq.1] at hvalid
        exact absurd hvalid hparses

/-- With unique ids, the ports of a node pass exactly if those that its config requires have
edges and its class finds nothing. -/
theorem portIssues_eq_nil_iff (hids : (spec.nodes.map NodeSpec.id).Nodup) {node : NodeSpec}
    (h : node ∈ spec.nodes) :
    en.portIssues spec node = [] ↔
      ∀ cls config, en.registry.get? node.type = some cls → hasReferences node.config = false →
        cls.modelValidate node.config = .ok config →
          (∀ port ∈ cls.requiredInputPorts (some config),
            ((portCountsOf (en.portCounts spec) node.id).get? port).getD 0 ≠ 0) ∧
          cls.checkSpec (some config) (portCountsOf (en.portCounts spec) node.id) = [] := by
  unfold portIssues
  rw [get?_configs hids h]
  cases hparses : en.parsesConfig node with
  | false =>
      refine iff_of_true (by cases en.registry.get? node.type <;> rfl) ?_
      intro cls config hcls hreferences hvalidate
      rw [parsesConfig_iff.mpr ⟨cls, config, hcls, hreferences, hvalidate⟩] at hparses
      cases hparses
  | true =>
      rcases parsesConfig_iff.mp hparses with ⟨cls, config, hcls, hreferences, hvalidate⟩
      have hconfig : configFor cls node.type node = some config := by
        rw [configFor, if_pos rfl, hvalidate]
        rfl
      simp only [hcls, if_true, hconfig, List.append_eq_nil_iff, List.map_eq_nil_iff,
        List.filter_eq_nil_iff, decide_eq_true_eq, Option.some.injEq, hreferences]
      constructor
      · rintro hpass cls' config' rfl - hvalidate'
        rw [hvalidate, Except.ok.injEq] at hvalidate'
        exact hvalidate' ▸ hpass
      · intro hpass
        exact hpass cls config rfl trivial hvalidate

/-! ## Edges -/

/-- The edges counted so far for a port. -/
def countOf (counts : PortCounts) (id port : String) : Nat :=
  ((portCountsOf counts id).get? port).getD 0

/-- The edge is counted. -/
def Counted (en : Engine) (spec : PipelineSpec) (edge : EdgeSpec) : Prop :=
  ∃ cls, en.nodeClass? spec edge.toNode = some cls ∧ edge.toPort ∈ cls.inputPorts

private theorem countOf_countPort_self (counts : PortCounts) {edge : EdgeSpec}
    (h : en.Counted spec edge) :
    countOf (en.countPort spec counts edge) edge.toNode edge.toPort =
      countOf counts edge.toNode edge.toPort + 1 := by
  rcases h with ⟨cls, hcls, hport⟩
  simp [countPort, hcls, hport, countOf, portCountsOf]

private theorem countOf_countPort_of_ne {counts : PortCounts} {edge : EdgeSpec} {id port : String}
    (h : ¬ (edge.toNode = id ∧ edge.toPort = port)) :
    countOf (en.countPort spec counts edge) id port = countOf counts id port := by
  unfold countPort
  split
  · rfl
  · split
    · by_cases hid : id = edge.toNode
      · subst hid
        have hport : port ≠ edge.toPort := fun heq => h ⟨rfl, heq.symm⟩
        simp [countOf, portCountsOf, OrderedDict.get?_set_of_ne _ hport]
      · simp [countOf, portCountsOf, OrderedDict.get?_set_of_ne _ hid]
    · rfl

private theorem portCountsOf_countPort_of_ne {counts : PortCounts} {edge : EdgeSpec} {id : String}
    (h : edge.toNode ≠ id) :
    portCountsOf (en.countPort spec counts edge) id = portCountsOf counts id := by
  unfold countPort
  split
  · rfl
  · split
    · simp [portCountsOf, OrderedDict.get?_set_of_ne _ (Ne.symm h)]
    · rfl

private theorem portCountsOf_countPort_congr {counts counts' : PortCounts} {edge : EdgeSpec}
    (h : portCountsOf counts edge.toNode = portCountsOf counts' edge.toNode) :
    portCountsOf (en.countPort spec counts edge) edge.toNode =
      portCountsOf (en.countPort spec counts' edge) edge.toNode := by
  unfold countPort
  split
  · exact h
  · split
    · dsimp only
      rw [h]
      simp only [portCountsOf, OrderedDict.get?_set_self]
    · exact h

/-- Only the edges into a node count for its ports. -/
theorem portCountsOf_foldl_filter {edges : List EdgeSpec} {counts counts' : PortCounts}
    {id : String} (h : portCountsOf counts id = portCountsOf counts' id) :
    portCountsOf (edges.foldl (en.countPort spec) counts) id =
      portCountsOf ((edges.filter fun edge => edge.toNode = id).foldl (en.countPort spec)
        counts') id := by
  induction edges generalizing counts counts' with
  | nil => exact h
  | cons edge rest ih =>
      rw [List.foldl_cons]
      by_cases hinto : edge.toNode = id
      · subst hinto
        rw [List.filter_cons_of_pos (by simp), List.foldl_cons]
        exact ih (portCountsOf_countPort_congr h)
      · rw [List.filter_cons_of_neg (by simpa using hinto)]
        exact ih ((portCountsOf_countPort_of_ne hinto).trans h)

/-- The ports of an edge exist. -/
structure PortsExist (en : Engine) (spec : PipelineSpec) (edge : EdgeSpec) : Prop where
  endpoints : en.endpointIssues spec edge = []
  output : en.outputPortIssues spec edge = []
  input : ∀ cls, en.nodeClass? spec edge.toNode = some cls → edge.toPort ∈ cls.inputPorts

/-- The port that an edge reaches takes one edge. -/
def TakesOne (en : Engine) (spec : PipelineSpec) (edge : EdgeSpec) : Prop :=
  ∃ cls, en.nodeClass? spec edge.toNode = some cls ∧ edge.toPort ∈ cls.inputPorts ∧
    cls.allowMultiInput = false

private theorem inputPortIssues_eq_nil_iff {counts : PortCounts} {edge : EdgeSpec} :
    en.inputPortIssues spec counts edge = [] ↔
      (∀ cls, en.nodeClass? spec edge.toNode = some cls → edge.toPort ∈ cls.inputPorts) ∧
        (en.TakesOne spec edge → countOf counts edge.toNode edge.toPort = 0) := by
  unfold inputPortIssues TakesOne
  cases hcls : en.nodeClass? spec edge.toNode with
  | none => simp
  | some cls =>
      by_cases hport : edge.toPort ∈ cls.inputPorts
      · have hcount := countOf_countPort_self counts ⟨cls, hcls, hport⟩
        unfold countOf at hcount
        cases hmulti : cls.allowMultiInput with
        | true => simp [hport, hmulti]
        | false => simp [hport, hmulti, hcount, countOf]
      · simp [hport]

/-- The edges of a list into a port. -/
def listInto (edges : List EdgeSpec) (id port : String) : Nat :=
  edges.countP fun edge => edge.toNode = id ∧ edge.toPort = port

/-- The edges pass their checks exactly if their ports exist, and no port that takes one
edge has a second one, those counted before included. -/
theorem edgeIssues_eq_nil_iff {counts : PortCounts} {edges : List EdgeSpec} :
    en.edgeIssues spec counts edges = [] ↔
      (∀ edge ∈ edges, en.PortsExist spec edge) ∧
        ∀ edge ∈ edges, en.TakesOne spec edge →
          countOf counts edge.toNode edge.toPort + listInto edges edge.toNode edge.toPort ≤ 1 := by
  induction edges generalizing counts with
  | nil => simp [edgeIssues]
  | cons first rest ih =>
      unfold edgeIssues
      simp only [List.append_eq_nil_iff, ih, inputPortIssues_eq_nil_iff, List.forall_mem_cons]
      have hself : listInto (first :: rest) first.toNode first.toPort =
          listInto rest first.toNode first.toPort + 1 := by
        simp [listInto]
      constructor
      · rintro ⟨⟨⟨hendpoints, houtput⟩, hinput, hfirst⟩, hexist, hrest⟩
        refine ⟨⟨⟨hendpoints, houtput, hinput⟩, hexist⟩, ?_, ?_⟩
        · intro hone
          rw [hself, hfirst hone]
          by_contra hmore
          have hpos : 0 < listInto rest first.toNode first.toPort := by omega
          rcases List.countP_pos_iff.mp hpos with ⟨other, hother, hsame⟩
          rw [decide_eq_true_eq] at hsame
          rcases hone with ⟨cls, hcls, hport, hsingle⟩
          have hother' : en.TakesOne spec other := by
            refine ⟨cls, ?_, ?_, hsingle⟩
            · rw [hsame.1, hcls]
            · rw [hsame.2]
              exact hport
          have hle := hrest other hother hother'
          have hcounted := countOf_countPort_self counts ⟨cls, hcls, hport⟩
          rw [hsame.1, hsame.2, hcounted] at hle
          omega
        · intro edge hedge hone
          by_cases hsame : first.toNode = edge.toNode ∧ first.toPort = edge.toPort
          · have hle := hrest edge hedge hone
            rcases hone with ⟨cls, hcls, hport, _⟩
            rw [← hsame.1] at hcls
            rw [← hsame.2] at hport
            have hcounted := countOf_countPort_self counts ⟨cls, hcls, hport⟩
            rw [← hsame.1, ← hsame.2, hcounted] at hle
            rw [← hsame.1, ← hsame.2, hself]
            omega
          · have hle := hrest edge hedge hone
            rw [countOf_countPort_of_ne hsame] at hle
            have hskip : listInto (first :: rest) edge.toNode edge.toPort =
                listInto rest edge.toNode edge.toPort := by
              simp [listInto, hsame]
            rw [hskip]
            exact hle
      · rintro ⟨⟨⟨hendpoints, houtput, hinput⟩, hexist⟩, hfirst, hrest⟩
        refine ⟨⟨⟨hendpoints, houtput⟩, hinput, ?_⟩, hexist, ?_⟩
        · intro hone
          have hle := hfirst hone
          omega
        · intro edge hedge hone
          have hle := hrest edge hedge hone
          by_cases hsame : first.toNode = edge.toNode ∧ first.toPort = edge.toPort
          · rcases hone with ⟨cls, hcls, hport, _⟩
            rw [← hsame.1] at hcls
            rw [← hsame.2] at hport
            have hcounted := countOf_countPort_self counts ⟨cls, hcls, hport⟩
            rw [← hsame.1, ← hsame.2, hself] at hle
            rw [← hsame.1, ← hsame.2, hcounted]
            omega
          · have hskip : listInto (first :: rest) edge.toNode edge.toPort =
                listInto rest edge.toNode edge.toPort := by
              simp [listInto, hsame]
            rw [countOf_countPort_of_ne hsame]
            rw [hskip] at hle
            exact hle

private theorem endpointIssues_eq_nil_iff {edge : EdgeSpec} :
    en.endpointIssues spec edge = [] ↔
      edge.fromNode ∈ spec.nodeMap.keys ∧ edge.toNode ∈ spec.nodeMap.keys := by
  refine ⟨endpointIssues_eq_nil, fun h => ?_⟩
  simp [endpointIssues, h.1, h.2]

private theorem outputPortIssues_eq_nil_iff {edge : EdgeSpec} :
    en.outputPortIssues spec edge = [] ↔
      ∀ cls, en.nodeClass? spec edge.fromNode = some cls → edge.fromPort ∈ cls.outputPorts := by
  unfold outputPortIssues
  cases hcls : en.nodeClass? spec edge.fromNode with
  | none => simp
  | some cls => simp

/-- Among nodes of known types with unique ids, the ports of an edge exist exactly if it
leaves and reaches a port. -/
theorem portsExist_iff (hids : (spec.nodes.map NodeSpec.id).Nodup)
    (htypes : ∀ node ∈ spec.nodes, ∃ cls, en.registry.get? node.type = some cls)
    (edge : EdgeSpec) :
    en.PortsExist spec edge ↔ en.LeavesPort spec edge ∧ en.ReachesPort spec edge := by
  constructor
  · rintro ⟨hendpoints, houtput, hinput⟩
    rcases endpointIssues_eq_nil_iff.mp hendpoints with ⟨hfrom, hto⟩
    rcases (spec.mem_nodeMap_keys _).mp hfrom with ⟨source, hsource, hsourceId⟩
    rcases (spec.mem_nodeMap_keys _).mp hto with ⟨target, htarget, htargetId⟩
    rcases htypes source hsource with ⟨cls, hcls⟩
    rcases htypes target htarget with ⟨cls', hcls'⟩
    refine ⟨⟨source, hsource, hsourceId, cls, hcls, ?_⟩,
      ⟨target, htarget, htargetId, cls', hcls', ?_⟩⟩
    · exact outputPortIssues_eq_nil_iff.mp houtput cls
        ((nodeClass?_eq_some_iff hids).mpr ⟨source, hsource, hsourceId, hcls⟩)
    · exact hinput cls' ((nodeClass?_eq_some_iff hids).mpr ⟨target, htarget, htargetId, hcls'⟩)
  · rintro ⟨⟨source, hsource, hsourceId, cls, hcls, hout⟩,
      ⟨target, htarget, htargetId, cls', hcls', hin⟩⟩
    refine ⟨endpointIssues_eq_nil_iff.mpr ⟨?_, ?_⟩, outputPortIssues_eq_nil_iff.mpr ?_, ?_⟩
    · exact (spec.mem_nodeMap_keys _).mpr ⟨source, hsource, hsourceId⟩
    · exact (spec.mem_nodeMap_keys _).mpr ⟨target, htarget, htargetId⟩
    · intro found hfound
      rw [(nodeClass?_eq_some_iff hids).mpr ⟨source, hsource, hsourceId, hcls⟩,
        Option.some.injEq] at hfound
      exact hfound ▸ hout
    · intro found hfound
      rw [(nodeClass?_eq_some_iff hids).mpr ⟨target, htarget, htargetId, hcls'⟩,
        Option.some.injEq] at hfound
      exact hfound ▸ hin

/-- No port that takes one edge has a second one, node by node. -/
theorem single_iff (hids : (spec.nodes.map NodeSpec.id).Nodup)
    (hreach : ∀ edge ∈ spec.edges, en.ReachesPort spec edge) :
    (∀ edge ∈ spec.edges, en.TakesOne spec edge →
        countOf .empty edge.toNode edge.toPort + listInto spec.edges edge.toNode edge.toPort ≤ 1) ↔
      ∀ node ∈ spec.nodes, ∀ cls, en.registry.get? node.type = some cls →
        cls.allowMultiInput = false → ∀ port, edgesInto spec node.id port ≤ 1 := by
  have hempty : ∀ id port, countOf .empty id port = 0 := fun _ _ => rfl
  constructor
  · intro hall node hnode cls hcls hsingle port
    by_contra hmore
    have hpos : 0 < edgesInto spec node.id port := by omega
    rcases List.countP_pos_iff.mp hpos with ⟨edge, hedge, hinto⟩
    rw [decide_eq_true_eq] at hinto
    have hclass := (nodeClass?_eq_some_iff hids).mpr ⟨node, hnode, rfl, hcls⟩
    rcases hreach edge hedge with ⟨target, htarget, htargetId, cls', hcls', hin⟩
    have hsame : cls' = cls := by
      have hclass' := (nodeClass?_eq_some_iff hids).mpr ⟨target, htarget, htargetId, hcls'⟩
      rw [hinto.1, hclass, Option.some.injEq] at hclass'
      exact hclass'.symm
    subst hsame
    have hle := hall edge hedge ⟨cls', by rw [hinto.1, hclass], hin, hsingle⟩
    rw [hinto.1, hinto.2, hempty, Nat.zero_add] at hle
    exact hmore hle
  · rintro hall edge hedge ⟨cls, hclass, _, hsingle⟩
    rcases (nodeClass?_eq_some_iff hids).mp hclass with ⟨node, hnode, hid, hcls⟩
    rw [hempty, Nat.zero_add, ← hid]
    exact hall node hnode cls hcls hsingle edge.toPort

/-! ## Scopes -/

private theorem mem_iteratorIds_iff {id : String} :
    id ∈ en.iteratorIds spec ↔ ∃ node ∈ spec.nodes, en.fansOut node.type = true ∧ node.id = id := by
  unfold iteratorIds
  constructor
  · intro h
    rcases List.mem_map.mp h with ⟨node, hnode, rfl⟩
    rcases List.mem_filter.mp hnode with ⟨hmem, hfans⟩
    exact ⟨node, hmem, hfans, rfl⟩
  · rintro ⟨node, hmem, hfans, rfl⟩
    exact List.mem_map_of_mem (List.mem_filter.mpr ⟨hmem, hfans⟩)

/-- The scopes are the sets of nodes reachable from the iterators. -/
theorem mem_scopes_iff {scope : String × List String} :
    scope ∈ (en.scopes spec).entries ↔
      scope.1 ∈ en.iteratorIds spec ∧ scope.2 = spec.descendants scope.1 := by
  rw [← OrderedDict.get?_eq_some_iff, scopes, OrderedDict.get?_ofList_map]
  by_cases hmem : scope.1 ∈ en.iteratorIds spec
  · simp [hmem, eq_comm]
  · simp [hmem]

private theorem nestedIssues_eq_nil_iff :
    en.nestedIssues spec = [] ↔ ∀ id ∈ en.iteratorIds spec, ∀ other ∈ en.iteratorIds spec,
      other ≠ id → ¬ spec.Path id other := by
  unfold nestedIssues
  simp only [List.flatMap_eq_nil_iff, List.map_eq_nil_iff, List.filter_eq_nil_iff,
    decide_eq_true_eq, not_and]
  constructor
  · intro h id hid other hother hne hpath
    exact h (id, spec.descendants id) (mem_scopes_iff.mpr ⟨hid, rfl⟩) other hother hne
      ((spec.mem_descendants_iff id other).mpr hpath)
  · intro h scope hscope other hother hne hmem
    rcases mem_scopes_iff.mp hscope with ⟨hid, hdescendants⟩
    rw [hdescendants, spec.mem_descendants_iff] at hmem
    exact h scope.1 hid other hother hne hmem

private theorem memberIssues_eq_nil_iff {iteratorId : String} {scope : List String}
    {owner : OrderedDict String String} :
    en.memberIssues iteratorId owner scope = [] ↔
      ∀ member ∈ scope, ∀ other, owner.get? member = some other → other = iteratorId := by
  refine ⟨memberIssues_eq_nil, ?_⟩
  induction scope generalizing owner with
  | nil => exact fun _ => rfl
  | cons member rest ih =>
      intro h
      rw [List.forall_mem_cons] at h
      unfold memberIssues
      rw [List.append_eq_nil_iff]
      constructor
      · cases hget : owner.get? member with
        | none => rfl
        | some other => simp [h.1 other hget]
      · refine ih fun m hm other hother => ?_
        rw [OrderedDict.get?_set] at hother
        split at hother
        · exact (Option.some.inj hother).symm
        · exact h.2 m hm other hother

private theorem overlapIssues_eq_nil_iff {scopes : List (String × List String)}
    {owner : OrderedDict String String} :
    en.overlapIssues owner scopes = [] ↔
      (∀ scope ∈ scopes, ∀ member ∈ scope.2, ∀ other, owner.get? member = some other →
        other = scope.1) ∧
      scopes.Pairwise fun first second => ∀ member ∈ first.2, member ∈ second.2 →
        first.1 = second.1 := by
  refine ⟨overlapIssues_eq_nil, ?_⟩
  induction scopes generalizing owner with
  | nil => exact fun _ => rfl
  | cons head rest ih =>
      rcases head with ⟨iteratorId, members⟩
      rintro ⟨howner, hpairwise⟩
      rw [List.forall_mem_cons] at howner
      rw [List.pairwise_cons] at hpairwise
      unfold overlapIssues
      rw [List.append_eq_nil_iff]
      refine ⟨memberIssues_eq_nil_iff.mpr howner.1, ih ⟨?_, hpairwise.2⟩⟩
      intro scope hscope member hmember other hother
      rw [get?_ownScope] at hother
      split at hother
      · rename_i hmem
        rw [← Option.some.inj hother]
        exact hpairwise.1 scope hscope member hmem hmember
      · exact howner.2 scope hscope member hmember other hother

/-- Scopes do not overlap exactly if no node is reachable from two iterators. -/
theorem scopes_overlap_iff :
    en.overlapIssues .empty (en.scopes spec).entries = [] ↔
      ∀ id ∈ en.iteratorIds spec, ∀ other ∈ en.iteratorIds spec, ∀ member,
        spec.Path id member → spec.Path other member → id = other := by
  rw [overlapIssues_eq_nil_iff]
  constructor
  · rintro ⟨_, hpairwise⟩ id hid other hother member hmember hmember'
    have hsymm := hpairwise.forall_of_forall_of_flip (fun _ _ _ _ _ => rfl)
      (hpairwise.imp fun hdisjoint member hm hm' => (hdisjoint member hm' hm).symm)
    exact hsymm (mem_scopes_iff.mpr ⟨hid, rfl⟩ : (id, spec.descendants id) ∈ _)
      (mem_scopes_iff.mpr ⟨hother, rfl⟩ : (other, spec.descendants other) ∈ _) member
      ((spec.mem_descendants_iff id member).mpr hmember)
      ((spec.mem_descendants_iff other member).mpr hmember')
  · intro h
    refine ⟨nofun, List.pairwise_of_forall_mem_list fun first hfirst second hsecond => ?_⟩
    intro member hm hm'
    rcases mem_scopes_iff.mp hfirst with ⟨hid, hdescendants⟩
    rcases mem_scopes_iff.mp hsecond with ⟨hother, hdescendants'⟩
    rw [hdescendants, spec.mem_descendants_iff] at hm
    rw [hdescendants', spec.mem_descendants_iff] at hm'
    exact h first.1 hid second.1 hother member hm hm'

/-! ## References -/

private theorem upstreamIssues_eq_nil_iff {id path : String} :
    en.referenceIssues spec id .upstream path = [] ↔
      (∃ target ∈ spec.nodes, target.id = referenceTarget path) ∧
        spec.Path (referenceTarget path) id := by
  rw [← spec.mem_nodeMap_keys, ← spec.mem_ancestors_iff]
  simp only [referenceIssues]
  by_cases hknown : referenceTarget path ∈ spec.nodeMap.keys
  · by_cases hancestor : referenceTarget path ∈ spec.ancestors id
    · simp [hknown, hancestor]
    · simp [hknown, hancestor]
  · simp [hknown]

private theorem iterIssues_eq_nil_iff {id path : String} :
    en.referenceIssues spec id .iter path = [] ↔
      ∃ iterator ∈ spec.nodes, en.fansOut iterator.type = true ∧ spec.Path iterator.id id := by
  have hscope : ((en.scopes spec).values.any fun scope => decide (id ∈ scope)) = true ↔
      ∃ iterator ∈ spec.nodes, en.fansOut iterator.type = true ∧ spec.Path iterator.id id := by
    rw [List.any_eq_true]
    constructor
    · rintro ⟨members, hmembers, hmem⟩
      rcases List.mem_map.mp hmembers with ⟨scope, hscope, rfl⟩
      rcases mem_scopes_iff.mp hscope with ⟨hid, hdescendants⟩
      rcases mem_iteratorIds_iff.mp hid with ⟨iterator, hiterator, hfans, hsame⟩
      rw [decide_eq_true_eq, hdescendants, spec.mem_descendants_iff] at hmem
      exact ⟨iterator, hiterator, hfans, hsame ▸ hmem⟩
    · rintro ⟨iterator, hiterator, hfans, hpath⟩
      have hid := mem_iteratorIds_iff.mpr ⟨iterator, hiterator, hfans, rfl⟩
      refine ⟨spec.descendants iterator.id, List.mem_map.mpr ⟨(iterator.id, _),
        mem_scopes_iff.mpr ⟨hid, rfl⟩, rfl⟩, ?_⟩
      rw [decide_eq_true_eq, spec.mem_descendants_iff]
      exact hpath
  rw [← hscope]
  simp only [referenceIssues]
  split
  · rename_i hin
    exact iff_of_true rfl hin
  · rename_i hout
    exact iff_of_false nofun hout

/-- The checks of scopes and references find nothing exactly if scopes are flat and
disjoint and every reference has its target. -/
theorem scopeIssues_eq_nil_iff :
    en.scopeIssues spec = [] ↔
      ((∀ id ∈ en.iteratorIds spec, ∀ other ∈ en.iteratorIds spec, other ≠ id →
          ¬ spec.Path id other) ∧
        ∀ id ∈ en.iteratorIds spec, ∀ other ∈ en.iteratorIds spec, ∀ member,
          spec.Path id member → spec.Path other member → id = other) ∧
      ∀ node ∈ spec.nodes, ∀ reference ∈ findInFields node.config,
        en.referenceIssues spec node.id reference.1 reference.2 = [] := by
  rw [scopeIssues, List.append_eq_nil_iff, List.append_eq_nil_iff, nestedIssues_eq_nil_iff,
    scopes_overlap_iff, List.flatMap_eq_nil_iff]
  simp only [List.flatMap_eq_nil_iff]

end

end Engine

/-! ## The order -/

/-- A graph without directed cycles has a topological order. -/
theorem PipelineSpec.topoOrder_isSome_of_acyclic {spec : PipelineSpec}
    (h : ∀ id, ¬ spec.Path id id) : spec.topoOrder.isSome = true := by
  refine TopologicalSort.Graph.order?_isSome_of_acyclic spec.nodeMap.keys_nodup fun id hcycle => ?_
  refine h id (Relation.TransGen.mono ?_ id id hcycle)
  rintro a b ⟨hedge, _⟩
  rcases List.mem_map.mp hedge with ⟨edge, hmem, heq⟩
  rw [Prod.mk.injEq] at heq
  exact ⟨edge, hmem, heq⟩

namespace Engine

/-- A document has no issue exactly if its nodes pass their own checks and its graph meets the
conditions. -/
theorem validatePipeline_eq_nil_iff {en : Engine} {spec : PipelineSpec} :
    en.validatePipeline spec = [] ↔
      (∀ node ∈ spec.nodes, en.configIssues node = [] ∧ en.portIssues spec node = []) ∧
        en.GraphConditions spec := by
  have hsplit : en.validatePipeline spec = [] ↔
      (∀ node ∈ spec.nodes, en.configIssues node = [] ∧ en.portIssues spec node = []) ∧
        ((spec.nodes.map NodeSpec.id).Nodup ∧ spec.nodes ≠ []) ∧
          en.edgeIssues spec .empty spec.edges = [] ∧
            ∃ topo, spec.topoOrder = some topo ∧ en.scopeIssues spec = [] := by
    unfold validatePipeline
    simp only [List.append_eq_nil_iff, List.flatMap_eq_nil_iff, duplicateIdIssues_eq_nil_iff,
      List.not_mem_nil, not_false_eq_true, implies_true, and_true]
    have hnonempty : (if spec.nodes = [] then [(⟨none, "pipeline has no nodes"⟩ : ValidationIssue)]
        else []) = [] ↔ spec.nodes ≠ [] := by
      split <;> simp_all
    rw [hnonempty]
    constructor
    · rintro ⟨⟨⟨⟨hunique, hconfig⟩, hedges⟩, hports⟩, hrest⟩
      refine ⟨fun node hnode => ⟨hconfig node hnode, hports node hnode⟩, hunique, hedges, ?_⟩
      cases htopo : spec.topoOrder with
      | none => simp [htopo] at hrest
      | some topo => exact ⟨topo, rfl, by simpa [htopo] using hrest⟩
    · rintro ⟨hnodes, hunique, hedges, topo, htopo, hscopes⟩
      refine ⟨⟨⟨⟨hunique, fun node hnode => (hnodes node hnode).1⟩, hedges⟩,
        fun node hnode => (hnodes node hnode).2⟩, ?_⟩
      rw [htopo]
      exact hscopes
  rw [hsplit]
  refine and_congr_right fun hnodes => ?_
  have htypes : ∀ node ∈ spec.nodes, ∃ cls, en.registry.get? node.type = some cls :=
    fun node hnode => configIssues_eq_nil (hnodes node hnode).1
  constructor
  · rintro ⟨⟨hids, hnonempty⟩, hedges, topo, htopo, hscopes⟩
    rcases edgeIssues_eq_nil_iff.mp hedges with ⟨hexist, hsingle⟩
    have hjoin : ∀ edge ∈ spec.edges, en.LeavesPort spec edge ∧ en.ReachesPort spec edge :=
      fun edge hedge => (portsExist_iff hids htypes edge).mp (hexist edge hedge)
    have hknown : spec.EdgesKnown := fun edge hedge =>
      endpointIssues_eq_nil_iff.mp (hexist edge hedge).endpoints
    have hacyclic := PipelineSpec.topoOrder_acyclic htopo hknown
    rcases scopeIssues_eq_nil_iff.mp hscopes with ⟨⟨hflat, hdisjoint⟩, hreferences⟩
    refine ⟨hnonempty, hids, hjoin, (single_iff hids fun edge hedge => (hjoin edge hedge).2).mp
      hsingle, hacyclic, ?_, ?_, ?_, ?_⟩
    · rintro iterator hiterator other hother hfans hfans' hne member ⟨hpath, hpath'⟩
      exact hne (hdisjoint _ (mem_iteratorIds_iff.mpr ⟨iterator, hiterator, hfans, rfl⟩) _
        (mem_iteratorIds_iff.mpr ⟨other, hother, hfans', rfl⟩) member hpath hpath')
    · intro iterator hiterator other hother hfans hfans' hpath
      by_cases hsame : other.id = iterator.id
      · exact hacyclic iterator.id (hsame ▸ hpath)
      · exact hflat _ (mem_iteratorIds_iff.mpr ⟨iterator, hiterator, hfans, rfl⟩) _
          (mem_iteratorIds_iff.mpr ⟨other, hother, hfans', rfl⟩) hsame hpath
    · intro node hnode path hreference
      exact upstreamIssues_eq_nil_iff.mp (hreferences node hnode _ hreference)
    · intro node hnode path hreference
      exact iterIssues_eq_nil_iff.mp (hreferences node hnode _ hreference)
  · intro h
    have hids := h.unique_ids
    rcases Option.isSome_iff_exists.mp (PipelineSpec.topoOrder_isSome_of_acyclic h.acyclic) with
      ⟨topo, htopo⟩
    refine ⟨⟨hids, h.nonempty⟩, edgeIssues_eq_nil_iff.mpr ⟨?_, ?_⟩, topo, htopo,
      scopeIssues_eq_nil_iff.mpr ⟨⟨?_, ?_⟩, ?_⟩⟩
    · exact fun edge hedge => (portsExist_iff hids htypes edge).mpr (h.edges_join edge hedge)
    · exact (single_iff hids fun edge hedge => (h.edges_join edge hedge).2).mpr h.single_edges
    · intro id hid other hother _
      rcases mem_iteratorIds_iff.mp hid with ⟨iterator, hiterator, hfans, rfl⟩
      rcases mem_iteratorIds_iff.mp hother with ⟨inner, hinner, hfans', rfl⟩
      exact h.scopes_flat iterator hiterator inner hinner hfans hfans'
    · intro id hid other hother member hpath hpath'
      rcases mem_iteratorIds_iff.mp hid with ⟨iterator, hiterator, hfans, rfl⟩
      rcases mem_iteratorIds_iff.mp hother with ⟨second, hsecond, hfans', rfl⟩
      by_contra hne
      exact h.scopes_disjoint iterator hiterator second hsecond hfans hfans' hne member
        ⟨hpath, hpath'⟩
    · rintro node hnode ⟨kind, path⟩ hreference
      cases kind with
      | upstream => exact upstreamIssues_eq_nil_iff.mpr (h.upstream_reaches node hnode path hreference)
      | iter => exact iterIssues_eq_nil_iff.mpr (h.iter_in_scope node hnode path hreference)

/-- A document whose nodes have known types and pass their own checks has no issue, exactly
if its graph meets the conditions. -/
theorem validate_pipeline_iff (en : Engine) (spec : PipelineSpec)
    (hnodes : ∀ node ∈ spec.nodes, en.configIssues node = [] ∧ en.portIssues spec node = []) :
    en.validatePipeline spec = [] ↔ en.GraphConditions spec := by
  rw [validatePipeline_eq_nil_iff]
  exact and_iff_right hnodes

end Engine

/-! ## A document with a scope -/

namespace Samples

/-- A source, an iterator behind it, and a node in its scope that refers to both. -/
def scopedDocument : PipelineSpec :=
  document [node "first" "source" [], iterator "each" [.int 1, .int 2],
      node "last" "collect" [("id", .str "$upstream.first.id"), ("value", .str "$iter.value")]]
    [edge "first" "each", edge "each" "last"]

end Samples

open Samples

theorem Engine.validate_pipeline_iff_scoped :
    engine.validatePipeline scopedDocument = [] ∧
      (engine.validatePipeline scopedDocument = [] ↔ engine.GraphConditions scopedDocument) :=
  ⟨by decide +kernel, engine.validate_pipeline_iff scopedDocument (by decide +kernel)⟩

end EtlTool
