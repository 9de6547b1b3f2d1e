import EtlTool.Core.Schema
import EtlTool.Foundations.TopologicalSort
import EtlTool.Foundations.Worklist

/-!
# The pipeline graph

The graph helpers of the engine: nodes by id, edges by endpoint, the
deterministic topological order and the transitive closures in both directions.
Edges may name unknown nodes; the helpers run before validation has looked at
them.

Main results:

- Theorem {lit}`mem_descendants_iff` and {lit}`mem_ancestors_iff`: the closures
  are the nonempty paths along and against the edges.
- Theorem {lit}`topoOrder_mem_iff`, {lit}`topoOrder_nodup`: a topological order
  lists the nodes of the document, each once.
- Theorem {lit}`topoOrder_precedes`: ancestors precede their descendants.
- Theorem {lit}`topoOrder_least`: with unique ids the topological order is the least one
  by declaration index, and it is missing exactly if there is a cycle.
-/

namespace EtlTool

namespace PipelineSpec

/-- The nodes by id; of several nodes with one id the last is kept. -/
def nodeMap (spec : PipelineSpec) : OrderedDict String NodeSpec :=
  .ofList (spec.nodes.map fun node => (node.id, node))

/-- The node with an id. -/
def node? (spec : PipelineSpec) (id : String) : Option NodeSpec :=
  spec.nodeMap.get? id

/-- {lit}`in_edges[id]`, in declaration order. -/
def inEdges (spec : PipelineSpec) (id : String) : List EdgeSpec :=
  spec.edges.filter fun edge => edge.toNode = id

/-- {lit}`out_edges[id]`, in declaration order. -/
def outEdges (spec : PipelineSpec) (id : String) : List EdgeSpec :=
  spec.edges.filter fun edge => edge.fromNode = id

/-- {lit}`order_index`: declaration position of an id, the last one if it is
repeated. -/
def orderIndex (spec : PipelineSpec) (id : String) : Nat :=
  ((OrderedDict.ofList (spec.nodes.zipIdx.map fun pair => (pair.1.id, pair.2))).get? id).getD 0

/-- The graph that {lit}`topo_order` sorts. -/
def sortGraph (spec : PipelineSpec) : TopologicalSort.Graph String where
  vertices := spec.nodeMap.keys
  edges := spec.edges.map fun edge => (edge.fromNode, edge.toNode)
  rank := spec.orderIndex

/-- {lit}`topo_order`: Kahn's algorithm with ties broken by declaration order. -/
def topoOrder (spec : PipelineSpec) : Option (List String) :=
  spec.sortGraph.order?

/-- {lit}`descendants`. -/
def descendants (spec : PipelineSpec) (id : String) : List String :=
  Worklist.closure (fun n => (spec.outEdges n).map EdgeSpec.toNode) (spec.edges.length + 1) id

/-- {lit}`ancestors`. -/
def ancestors (spec : PipelineSpec) (id : String) : List String :=
  Worklist.closure (fun n => (spec.inEdges n).map EdgeSpec.fromNode) (spec.edges.length + 1) id

/-- A path of at least one edge from one node to another. -/
def Path (spec : PipelineSpec) : String → String → Prop :=
  Relation.TransGen fun a b => ∃ edge ∈ spec.edges, edge.fromNode = a ∧ edge.toNode = b

/-! ## Edges and nodes -/

/-- The edges into a node are the document's edges that end there. -/
theorem mem_inEdges (spec : PipelineSpec) (id : String) (edge : EdgeSpec) :
    edge ∈ spec.inEdges id ↔ edge ∈ spec.edges ∧ edge.toNode = id := by
  simp [inEdges]

/-- The edges out of a node are the document's edges that start there. -/
theorem mem_outEdges (spec : PipelineSpec) (id : String) (edge : EdgeSpec) :
    edge ∈ spec.outEdges id ↔ edge ∈ spec.edges ∧ edge.fromNode = id := by
  simp [outEdges]

/-- The node map has the ids of the document's nodes. -/
theorem mem_nodeMap_keys (spec : PipelineSpec) (id : String) :
    id ∈ spec.nodeMap.keys ↔ ∃ node ∈ spec.nodes, node.id = id := by
  simp [nodeMap]

/-- A node found by its id is one of the document, with that id. -/
theorem node?_mem {spec : PipelineSpec} {id : String} {node : NodeSpec}
    (h : spec.node? id = some node) : node ∈ spec.nodes ∧ node.id = id := by
  have hmem := OrderedDict.mem_of_get?_ofList h
  simp only [List.mem_map, Prod.mk.injEq] at hmem
  rcases hmem with ⟨n, hn, rfl, rfl⟩
  exact ⟨hn, rfl⟩

/-! ## Closures -/

/-- The descendants of a node are what its paths reach. -/
theorem mem_descendants_iff (spec : PipelineSpec) (id other : String) :
    other ∈ spec.descendants id ↔ spec.Path id other := by
  have hsub : ∀ a, (spec.outEdges a).map EdgeSpec.toNode ⊆ spec.edges.map EdgeSpec.toNode := by
    intro a b hb
    rcases List.mem_map.mp hb with ⟨edge, hedge, rfl⟩
    exact List.mem_map_of_mem ((mem_outEdges spec a edge).mp hedge).1
  have hedge : Worklist.Edge (fun a => (spec.outEdges a).map EdgeSpec.toNode) =
      fun a b => ∃ edge ∈ spec.edges, edge.fromNode = a ∧ edge.toNode = b := by
    funext a b
    simp [Worklist.Edge, mem_outEdges, and_assoc]
  unfold descendants
  rw [Worklist.mem_closure_iff hsub (by simp), hedge]
  rfl

/-- The ancestors of a node are what reaches it by a path. -/
theorem mem_ancestors_iff (spec : PipelineSpec) (id other : String) :
    other ∈ spec.ancestors id ↔ spec.Path other id := by
  have hsub : ∀ a, (spec.inEdges a).map EdgeSpec.fromNode ⊆ spec.edges.map EdgeSpec.fromNode := by
    intro a b hb
    rcases List.mem_map.mp hb with ⟨edge, hedge, rfl⟩
    exact List.mem_map_of_mem ((mem_inEdges spec a edge).mp hedge).1
  have hedge : Worklist.Edge (fun a => (spec.inEdges a).map EdgeSpec.fromNode) =
      Function.swap fun a b => ∃ edge ∈ spec.edges, edge.fromNode = a ∧ edge.toNode = b := by
    funext a b
    apply propext
    simp only [Worklist.Edge, List.mem_map, mem_inEdges, Function.swap]
    constructor
    · rintro ⟨edge, ⟨hmem, hto⟩, hfrom⟩
      exact ⟨edge, hmem, hfrom, hto⟩
    · rintro ⟨edge, hmem, hfrom, hto⟩
      exact ⟨edge, ⟨hmem, hto⟩, hfrom⟩
  unfold ancestors
  rw [Worklist.mem_closure_iff hsub (by simp), hedge, Relation.transGen_swap]
  rfl

/-- One edge is a path. -/
theorem Path.single {spec : PipelineSpec} {edge : EdgeSpec} (h : edge ∈ spec.edges) :
    spec.Path edge.fromNode edge.toNode :=
  Relation.TransGen.single ⟨edge, h, rfl, rfl⟩

/-- Paths compose. -/
theorem Path.trans {spec : PipelineSpec} {a b c : String} (hab : spec.Path a b)
    (hbc : spec.Path b c) : spec.Path a c :=
  Relation.TransGen.trans hab hbc

/-- The last edge of a path. -/
theorem Path.tail_edge {spec : PipelineSpec} {a b : String} (h : spec.Path a b) :
    ∃ edge ∈ spec.edges, edge.toNode = b ∧ (edge.fromNode = a ∨ spec.Path a edge.fromNode) := by
  rcases Relation.TransGen.tail'_iff.mp h with ⟨c, hac, edge, hedge, hfrom, hto⟩
  subst hfrom
  refine ⟨edge, hedge, hto, ?_⟩
  rcases Relation.reflTransGen_iff_eq_or_transGen.mp hac with heq | hpath
  · exact Or.inl heq
  · exact Or.inr hpath

/-! ## The topological order -/

/-- Every edge joins nodes of the document. -/
def EdgesKnown (spec : PipelineSpec) : Prop :=
  ∀ edge ∈ spec.edges, edge.fromNode ∈ spec.nodeMap.keys ∧ edge.toNode ∈ spec.nodeMap.keys

private theorem topoOrder_perm {spec : PipelineSpec} {topo : List String}
    (h : spec.topoOrder = some topo) : topo.Perm spec.nodeMap.keys :=
  TopologicalSort.Graph.order_perm (g := spec.sortGraph) spec.nodeMap.keys_nodup h

/-- An order lists no node twice. -/
theorem topoOrder_nodup {spec : PipelineSpec} {topo : List String}
    (h : spec.topoOrder = some topo) : topo.Nodup :=
  (topoOrder_perm h).nodup_iff.mpr spec.nodeMap.keys_nodup

/-- An order lists exactly the known nodes. -/
theorem topoOrder_mem_iff {spec : PipelineSpec} {topo : List String}
    (h : spec.topoOrder = some topo) (id : String) : id ∈ topo ↔ id ∈ spec.nodeMap.keys :=
  (topoOrder_perm h).mem_iff

/-- Ancestors precede their descendants. -/
theorem topoOrder_precedes {spec : PipelineSpec} {topo : List String}
    (h : spec.topoOrder = some topo) (hedges : spec.EdgesKnown) {a b : String}
    (hpath : spec.Path a b) : TopologicalSort.Precedes topo a b := by
  apply TopologicalSort.Graph.order_precedes_of_path (g := spec.sortGraph)
    spec.nodeMap.keys_nodup h
  refine Relation.TransGen.mono ?_ a b hpath
  rintro a b ⟨edge, hedge, rfl, rfl⟩
  exact ⟨List.mem_map.mpr ⟨edge, hedge, rfl⟩, (hedges edge hedge).1, (hedges edge hedge).2⟩

/-- A document with a topological order has no directed cycle. -/
theorem topoOrder_acyclic {spec : PipelineSpec} {topo : List String}
    (h : spec.topoOrder = some topo) (hedges : spec.EdgesKnown) (a : String) :
    ¬ spec.Path a a := fun hpath =>
  TopologicalSort.Precedes.irrefl (topoOrder_nodup h) a (topoOrder_precedes h hedges hpath)

/-! ## The least topological order -/

/-- The ids in declaration order. -/
def nodeIds (spec : PipelineSpec) : List String :=
  spec.nodes.map NodeSpec.id

/-- An edge between two nodes of the document. -/
def KnownEdge (spec : PipelineSpec) (a b : String) : Prop :=
  ∃ edge ∈ spec.edges, edge.fromNode = a ∧ edge.toNode = b ∧ a ∈ spec.nodeIds ∧ b ∈ spec.nodeIds

/-- Every node once, the source of every edge between nodes of the document before its
target. -/
structure TopologicalOrder (spec : PipelineSpec) (order : List String) : Prop where
  perm : order.Perm spec.nodeIds
  precedes : ∀ a b, spec.KnownEdge a b → TopologicalSort.Precedes order a b

section UniqueIds

variable {spec : PipelineSpec} (hids : spec.nodeIds.Nodup)

private theorem mem_nodeMap_keys_iff_nodeIds (spec : PipelineSpec) (id : String) :
    id ∈ spec.nodeMap.keys ↔ id ∈ spec.nodeIds := by
  rw [mem_nodeMap_keys, nodeIds, List.mem_map]

private theorem sortGraph_edge_iff (spec : PipelineSpec) (a b : String) :
    TopologicalSort.Graph.Edge spec.sortGraph a b ↔ spec.KnownEdge a b := by
  simp only [TopologicalSort.Graph.Edge, sortGraph, KnownEdge, mem_nodeMap_keys_iff_nodeIds,
    List.mem_map, Prod.mk.injEq]
  constructor
  · rintro ⟨⟨edge, hedge, hfrom, hto⟩, ha, hb⟩
    exact ⟨edge, hedge, hfrom, hto, ha, hb⟩
  · rintro ⟨edge, hedge, hfrom, hto, ha, hb⟩
    exact ⟨⟨edge, hedge, hfrom, hto⟩, ha, hb⟩

include hids

/-- The rank of a node is its declaration index. -/
theorem orderIndex_eq_idxOf {id : String} (hid : id ∈ spec.nodeIds) :
    spec.orderIndex id = spec.nodeIds.idxOf id := by
  have hkeys : (spec.nodes.zipIdx.map fun pair => (pair.1.id, pair.2)).map Prod.fst =
      spec.nodeIds := by
    have hfst : (spec.nodes.zipIdx.map Prod.fst).map NodeSpec.id = spec.nodeIds := by
      rw [List.zipIdx_map_fst, nodeIds]
    rw [← hfst, List.map_map, List.map_map]
    rfl
  have hmem : (id, spec.nodeIds.idxOf id) ∈
      spec.nodes.zipIdx.map fun pair => (pair.1.id, pair.2) := by
    have hat : spec.nodeIds[spec.nodeIds.idxOf id]? = some id := by
      rw [List.getElem?_eq_getElem (List.idxOf_lt_length_iff.mpr hid), List.getElem_idxOf]
    rw [nodeIds, List.getElem?_map] at hat
    rcases Option.map_eq_some_iff.mp hat with ⟨node, hnode, hsame⟩
    refine List.mem_map.mpr ⟨(node, spec.nodeIds.idxOf id), ?_, by rw [hsame]⟩
    exact List.mem_zipIdx_iff_getElem?.mpr hnode
  rw [orderIndex, OrderedDict.get?_ofList_of_mem (hkeys ▸ hids) hmem, Option.getD_some]

/-- The orders of the sorted graph are those of the document. -/
theorem isOrder_iff (order : List String) :
    TopologicalSort.Graph.IsOrder spec.sortGraph order ↔ spec.TopologicalOrder order := by
  have hperm : spec.nodeMap.keys.Perm spec.nodeIds :=
    (List.perm_ext_iff_of_nodup spec.nodeMap.keys_nodup hids).mpr
      spec.mem_nodeMap_keys_iff_nodeIds
  constructor
  · intro h
    exact ⟨h.perm.trans hperm, fun a b hedge =>
      h.precedes a b ((spec.sortGraph_edge_iff a b).mpr hedge)⟩
  · intro h
    exact ⟨h.perm.trans hperm.symm, fun a b hedge =>
      h.precedes a b ((spec.sortGraph_edge_iff a b).mp hedge)⟩

end UniqueIds

/-- With unique ids there is no topological order exactly if edges between nodes of the
document form a cycle; otherwise the order is the least one by declaration index. -/
theorem topoOrder_least (spec : PipelineSpec) (hids : spec.nodeIds.Nodup) :
    (spec.topoOrder = none ↔ ∃ id, Relation.TransGen spec.KnownEdge id id) ∧
    ∀ order, spec.topoOrder = some order → spec.TopologicalOrder order ∧
      ∀ other, spec.TopologicalOrder other →
        order.map (spec.nodeIds.idxOf ·) ≤ other.map (spec.nodeIds.idxOf ·) := by
  have hkeys := spec.nodeMap.keys_nodup
  have hedges : TopologicalSort.Graph.Edge spec.sortGraph = spec.KnownEdge := by
    ext a b
    exact spec.sortGraph_edge_iff a b
  have hrank : ∀ a ∈ spec.nodeMap.keys, ∀ b ∈ spec.nodeMap.keys,
      spec.orderIndex a = spec.orderIndex b → a = b := by
    intro a ha b hb hsame
    rw [mem_nodeMap_keys_iff_nodeIds] at ha hb
    rw [orderIndex_eq_idxOf hids ha, orderIndex_eq_idxOf hids hb] at hsame
    exact List.idxOf_inj ha |>.mp hsame
  have hindex : ∀ l, spec.TopologicalOrder l →
      l.map spec.orderIndex = l.map (spec.nodeIds.idxOf ·) := fun l hl =>
    List.map_congr_left fun id hid => orderIndex_eq_idxOf hids (hl.perm.mem_iff.mp hid)
  refine ⟨⟨fun hnone => ?_, ?_⟩, fun order horder => ?_⟩
  · by_contra hacyclic
    rw [not_exists, ← hedges] at hacyclic
    have hsome := TopologicalSort.Graph.order?_isSome_of_acyclic hkeys hacyclic
    rw [show spec.sortGraph.order? = none from hnone] at hsome
    cases hsome
  · rintro ⟨id, hcycle⟩
    cases horder : spec.topoOrder with
    | none => rfl
    | some order =>
        rw [← hedges] at hcycle
        exact absurd hcycle (TopologicalSort.Graph.order_acyclic hkeys horder id)
  · have hleast := (isOrder_iff hids order).mp
      (TopologicalSort.Graph.isOrder_of_order? hkeys horder)
    refine ⟨hleast, fun other hother => ?_⟩
    rw [← hindex order hleast, ← hindex other hother]
    exact TopologicalSort.Graph.order_least hkeys hrank horder ((isOrder_iff hids other).mpr hother)

/-- Two sources before a node, one of them with a repeated edge, and an edge to a node that
does not exist. -/
def forked : PipelineSpec where
  pipelineId := "forked"
  nodes := [⟨"last", "transform", [], by decide, by decide⟩,
    ⟨"second", "api_source", [], by decide, by decide⟩,
    ⟨"first", "api_source", [], by decide, by decide⟩]
  edges := [⟨"first", "out", "last", "in"⟩, ⟨"first", "out", "last", "in"⟩,
    ⟨"second", "out", "last", "in"⟩, ⟨"last", "out", "ghost", "in"⟩]
  pipelineId_nonempty := by decide

/-- Two sources into one node: the order is the one closest to the declarations. -/
theorem topoOrder_least_forked :
    forked.topoOrder = some ["second", "first", "last"] ∧ forked.nodeIds.Nodup ∧
      (forked.topoOrder = none ↔ ∃ id, Relation.TransGen forked.KnownEdge id id) ∧
      ∀ order, forked.topoOrder = some order → forked.TopologicalOrder order ∧
        ∀ other, forked.TopologicalOrder other →
          order.map (forked.nodeIds.idxOf ·) ≤ other.map (forked.nodeIds.idxOf ·) :=
  ⟨by decide +kernel, by decide, topoOrder_least forked (by decide)⟩

end PipelineSpec

end EtlTool
