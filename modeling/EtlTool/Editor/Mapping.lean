import EtlTool.Editor.Layout

/-!
# The editor's graph and the pipeline document

Opening a pipeline turns the stored document into the nodes and edges of the canvas,
and saving turns them back into a document.  The canvas does not keep the ports of an
edge: every built-in node uses {lit}`out` and {lit}`in`, so saving writes these.

A stored document is any document that the server accepts, which is more than the
editor itself writes: the ports can have other names, the key {lit}`edges` can be
missing, and the ends of an edge can go by {lit}`from_node` and {lit}`to_node`.

Main results:

- Theorem {lit}`parse_flowToSpec_specToFlow`: a document that lists its edges by
  {lit}`from` and {lit}`to` is laid out, opened and saved as the same pipeline with the
  ports {lit}`out` and {lit}`in`.
- Theorem {lit}`other_port_changed`: other port names do not survive.

Current gaps:

- The transport: numbers that a browser cannot represent, and the order of object keys
  that look like numbers.
-/

namespace EtlTool

/-! ## The canvas -/

/-- {lit}`EtlNode`, without the state of the last run. -/
structure EtlNode where
  id : String
  position : Position
  nodeType : String
  config : Fields
deriving DecidableEq

/-- An edge of the canvas; an end that the document does not give under its key is
undefined. -/
structure FlowEdge where
  id : String
  source : Option String
  target : Option String
deriving DecidableEq

/-- A name inside a template string. -/
def templateText (name : Option String) : String :=
  name.getD "undefined"

/-- The edge between two nodes, under the id that the editor gives it. -/
def FlowEdge.between (source target : Option String) : FlowEdge where
  id := templateText source ++ "->" ++ templateText target
  source := source
  target := target

/-- {lit}`node.config ?? {}`. -/
def configOrEmpty? (fields : Fields) : Option Fields :=
  match fields.lookup "config" with
  | none => some []
  | some .none => some []
  | some (.dict config) => some config
  | some _ => none

/-- The canvas node of a node of the document. -/
def nodeToFlow? (positions : OrderedDict String Position) (node : Value) : Option EtlNode :=
  match node with
  | .dict fields => do
      let id ← stringField? fields "id"
      let type ← stringField? fields "type"
      let config ← configOrEmpty? fields
      some ⟨id, (positions.get? id).getD ⟨0, 0⟩, type, config⟩
  | _ => none

/-- The canvas edge of an edge of the document. -/
def edgeToFlow (edge : Value) : FlowEdge :=
  .between (textOf? edge "from") (textOf? edge "to")

/-- {lit}`specToFlow`, for a document of its declared type but for missing edges and
missing ends of an edge. -/
def specToFlow (document : Fields) (positions : OrderedDict String Position) :
    Option (List EtlNode × List FlowEdge) := do
  let nodes ← arrayField? document "nodes"
  let flowNodes ← nodes.mapM (nodeToFlow? positions)
  let edges ← arrayField? document "edges"
  some (flowNodes, edges.map edgeToFlow)

/-- A field of the saved document; undefined fields are not written. -/
def writtenField (key : String) (text : Option String) : Fields :=
  match text with
  | none => []
  | some text => [(key, .str text)]

/-- The document of a canvas node. -/
def EtlNode.toSpec (node : EtlNode) : Value :=
  .dict [("id", .str node.id), ("type", .str node.nodeType), ("config", .dict node.config)]

/-- The document of a canvas edge, with the fixed port names. -/
def FlowEdge.toSpec (edge : FlowEdge) : Value :=
  .dict (writtenField "from" edge.source ++ [("from_port", .str "out")] ++
    writtenField "to" edge.target ++ [("to_port", .str "in")])

/-- {lit}`flowToSpec`. -/
def flowToSpec (pipelineId : String) (nodes : List EtlNode) (edges : List FlowEdge) : Value :=
  .dict [("pipeline_id", .str pipelineId), ("nodes", .list (nodes.map EtlNode.toSpec)),
    ("edges", .list (edges.map FlowEdge.toSpec))]

/-! ## Opening and saving -/

/-- The edge between the same nodes with the ports of the built-in nodes. -/
def EdgeSpec.withFixedPorts (edge : EdgeSpec) : EdgeSpec :=
  { edge with fromPort := "out", toPort := "in" }

/-- A document that lists its edges and names their ends by {lit}`from` and {lit}`to`, as
the editor's type of a document says. -/
def ListsEdges (document : Fields) : Prop :=
  ∃ edges, document.lookup "edges" = some (.list edges) ∧
    ∀ edge ∈ edges, ∀ fields, edge = .dict fields →
      (fields.lookup "from").isSome ∧ (fields.lookup "to").isSome

/-- An accepted node comes onto the canvas with its id, its type and its config. -/
theorem nodeToFlow?_accepted {document : Value} {node : NodeSpec}
    (h : parseNodeSpec? document = some node) (positions : OrderedDict String Position) :
    nodeToFlow? positions document =
      some ⟨node.id, (positions.get? node.id).getD ⟨0, 0⟩, node.type, node.config⟩ := by
  rcases parseNodeSpec?_document h with ⟨fields, rfl, hid, htype, hconfig⟩
  have hfield : configOrEmpty? fields = some node.config := by
    rcases hconfig with ⟨hnone, hempty⟩ | hsome
    · simp [configOrEmpty?, hnone, hempty]
    · simp [configOrEmpty?, hsome]
  simp [nodeToFlow?, stringField?_eq_some_iff.mpr hid, stringField?_eq_some_iff.mpr htype, hfield]

/-- An accepted edge with both keys comes onto the canvas between its nodes. -/
theorem edgeToFlow_accepted {fields : Fields} {edge : EdgeSpec}
    (h : parseEdgeSpec? (.dict fields) = some edge)
    (hkeys : (fields.lookup "from").isSome ∧ (fields.lookup "to").isSome) :
    edgeToFlow (.dict fields) = .between (some edge.fromNode) (some edge.toNode) := by
  rcases parseEdgeSpec?_document h hkeys.1 hkeys.2 with ⟨hfrom, hto⟩
  simp [edgeToFlow, textOf?, stringField?_eq_some_iff.mpr hfrom, stringField?_eq_some_iff.mpr hto]

/-- A saved canvas node is read back. -/
theorem parseNodeSpec?_toSpec (node : NodeSpec) (position : Position) :
    parseNodeSpec? (EtlNode.mk node.id position node.type node.config).toSpec = some node :=
  parseNodeSpec?_written node

/-- A saved canvas edge is read back with the fixed ports. -/
theorem parseEdgeSpec?_toSpec (edge : EdgeSpec) :
    parseEdgeSpec? (FlowEdge.between (some edge.fromNode) (some edge.toNode)).toSpec =
      some edge.withFixedPorts :=
  parseEdgeSpec?_written edge.withFixedPorts

/-- The nodes of an accepted document come onto the canvas, and saving them gives the
same nodes. -/
theorem nodes_opened {documents : List Value} {nodes : List NodeSpec}
    (h : documents.mapM parseNodeSpec? = some nodes) (positions : OrderedDict String Position) :
    ∃ flowNodes, documents.mapM (nodeToFlow? positions) = some flowNodes ∧
      (flowNodes.map EtlNode.toSpec).mapM parseNodeSpec? = some nodes := by
  induction documents generalizing nodes with
  | nil => exact ⟨[], rfl, h⟩
  | cons document documents ih =>
      simp only [List.mapM_cons, Option.bind_eq_bind, Option.bind_eq_some_iff, Option.pure_def,
        Option.some.injEq] at h
      rcases h with ⟨node, hnode, rest, hrest, rfl⟩
      rcases ih hrest with ⟨flowNodes, hflow, hsaved⟩
      have hopened := nodeToFlow?_accepted hnode positions
      exact ⟨_, by simp only [List.mapM_cons, hopened, hflow]; rfl, by
        simp [parseNodeSpec?_toSpec, hsaved]⟩

/-- The edges of an accepted document come onto the canvas, and saving them gives the
same edges with the fixed ports. -/
theorem edges_opened {documents : List Value} {edges : List EdgeSpec}
    (h : documents.mapM parseEdgeSpec? = some edges)
    (hkeys : ∀ edge ∈ documents, ∀ fields, edge = .dict fields →
      (fields.lookup "from").isSome ∧ (fields.lookup "to").isSome) :
    ((documents.map edgeToFlow).map FlowEdge.toSpec).mapM parseEdgeSpec? =
      some (edges.map EdgeSpec.withFixedPorts) := by
  induction documents generalizing edges with
  | nil =>
      cases h
      rfl
  | cons document documents ih =>
      simp only [List.mapM_cons, Option.bind_eq_bind, Option.bind_eq_some_iff, Option.pure_def,
        Option.some.injEq] at h
      rcases h with ⟨edge, hedge, rest, hrest, rfl⟩
      have hsaved := ih hrest fun edge hmem => hkeys edge (List.mem_cons_of_mem document hmem)
      cases document with
      | dict fields =>
          rw [List.map_cons, edgeToFlow_accepted hedge (hkeys _ List.mem_cons_self fields rfl)]
          simp only [List.map_cons, List.mapM_cons, parseEdgeSpec?_toSpec, hsaved]
          rfl
      | _ => cases hedge

/-- The ids of an accepted document's nodes. -/
theorem nodeIds?_accepted {documents : List Value} {nodes : List NodeSpec}
    (h : documents.mapM parseNodeSpec? = some nodes) :
    (documents.mapM fun node => textOf? node "id") = some (nodes.map (·.id)) := by
  induction documents generalizing nodes with
  | nil =>
      cases h
      rfl
  | cons document documents ih =>
      simp only [List.mapM_cons, Option.bind_eq_bind, Option.bind_eq_some_iff, Option.pure_def,
        Option.some.injEq] at h
      rcases h with ⟨node, hnode, rest, hrest, rfl⟩
      rcases parseNodeSpec?_document hnode with ⟨fields, rfl, hid, -, -⟩
      simp only [List.mapM_cons, textOf?_dict, stringField?_eq_some_iff.mpr hid, ih hrest]
      rfl

/-- An accepted document that lists its edges has a layout with a position for every
node. -/
theorem layeredLayout_accepted {document : Fields} {spec : PipelineSpec}
    (haccepted : parsePipelineSpec? (.dict document) = some spec)
    (hlists : ListsEdges document) :
    ∃ positions, layeredLayout document = some positions ∧
      ∀ node ∈ spec.nodes, node.id ∈ positions.keys := by
  rcases hlists with ⟨edges, hedges, -⟩
  rcases parsePipelineSpec?_document haccepted hedges with ⟨nodes, hnodes, hnodeSpecs, -⟩
  have hids : nodeIds? document = some (spec.nodes.map (·.id)) := by
    simpa [nodeIds?, arrayField?, hnodes] using nodeIds?_accepted hnodeSpecs
  have hdefined : (layeredLayout document).isSome := by
    rw [layeredLayout_isSome_iff, hids]
    simp [arrayField?, hedges]
  rcases Option.isSome_iff_exists.mp hdefined with ⟨positions, hpositions⟩
  refine ⟨positions, hpositions, ?_⟩
  intro node hnode
  rw [keys_layeredLayout hpositions]
  exact ⟨_, hids, List.mem_map.mpr ⟨node, hnode, rfl⟩⟩

/-- An accepted document that lists its edges by {lit}`from` and {lit}`to` comes onto the
canvas, and the canvas is saved as the same pipeline but for the ports. -/
theorem specToFlow_accepted {document : Fields} {spec : PipelineSpec}
    (haccepted : parsePipelineSpec? (.dict document) = some spec)
    (hlists : ListsEdges document) (positions : OrderedDict String Position) :
    ∃ nodes edges, specToFlow document positions = some (nodes, edges) ∧
      parsePipelineSpec? (flowToSpec spec.pipelineId nodes edges) =
        some { spec with edges := spec.edges.map EdgeSpec.withFixedPorts } := by
  rcases hlists with ⟨edges, hedges, hkeys⟩
  rcases parsePipelineSpec?_document haccepted hedges with ⟨nodes, hnodes, hnodeSpecs, hedgeSpecs⟩
  rcases nodes_opened hnodeSpecs positions with ⟨flowNodes, hflow, hsaved⟩
  refine ⟨flowNodes, edges.map edgeToFlow, ?_, ?_⟩
  · simp [specToFlow, arrayField?, hnodes, hedges, hflow]
  · exact parsePipelineSpec?_written
      { spec with edges := spec.edges.map EdgeSpec.withFixedPorts } hsaved
      (edges_opened hedgeSpecs hkeys)

/-- Opening and saving.  An accepted document that lists its edges by {lit}`from` and
{lit}`to` has a layout with a position for every node, comes onto the canvas under any
positions, and is saved as a document of the same pipeline, but for the ports. -/
theorem parse_flowToSpec_specToFlow {document : Fields} {spec : PipelineSpec}
    (haccepted : parsePipelineSpec? (.dict document) = some spec)
    (hlists : ListsEdges document) :
    (∃ positions, layeredLayout document = some positions ∧
      ∀ node ∈ spec.nodes, node.id ∈ positions.keys) ∧
    ∀ positions, ∃ nodes edges, specToFlow document positions = some (nodes, edges) ∧
      parsePipelineSpec? (flowToSpec spec.pipelineId nodes edges) =
        some { spec with edges := spec.edges.map EdgeSpec.withFixedPorts } := by
  constructor
  · exact layeredLayout_accepted haccepted hlists
  · exact specToFlow_accepted haccepted hlists

/-- The document with one edge between two nodes, with or without names for its ports. -/
def pairDocument (ports : Fields) : Fields :=
  [("pipeline_id", .str "demo"),
    ("nodes", .list [.dict [("id", .str "gen"), ("type", .str "iterator")],
      .dict [("id", .str "sink"), ("type", .str "file_sink"), ("config", .dict [])]]),
    ("edges", .list [.dict (("from", .str "gen") :: ("to", .str "sink") :: ports)])]

/-- The pipeline of {lit}`pairDocument`. -/
def pairSpec (fromPort toPort : String) : PipelineSpec where
  pipelineId := "demo"
  nodes := [⟨"gen", "iterator", [], by decide +kernel, by decide⟩,
    ⟨"sink", "file_sink", [], by decide +kernel, by decide⟩]
  edges := [⟨"gen", fromPort, "sink", toPort⟩]
  pipelineId_nonempty := by decide

theorem listsEdges_pairDocument (ports : Fields) : ListsEdges (pairDocument ports) := by
  refine ⟨_, rfl, ?_⟩
  intro edge hedge fields hfields
  rw [List.mem_singleton] at hedge
  subst hedge
  cases hfields
  exact ⟨rfl, rfl⟩

/-- A document without port names is saved with the names that stand for them. -/
theorem parse_flowToSpec_specToFlow_pair :
    (∃ positions, layeredLayout (pairDocument []) = some positions ∧
      ∀ node ∈ (pairSpec "out" "in").nodes, node.id ∈ positions.keys) ∧
    ∀ positions, ∃ nodes edges, specToFlow (pairDocument []) positions = some (nodes, edges) ∧
      parsePipelineSpec? (flowToSpec "demo" nodes edges) = some (pairSpec "out" "in") := by
  have haccepted : parsePipelineSpec? (.dict (pairDocument [])) = some (pairSpec "out" "in") := by
    decide +kernel
  exact parse_flowToSpec_specToFlow haccepted (listsEdges_pairDocument [])

/-- A document with another port name is accepted, and saved without it. -/
theorem other_port_changed :
    parsePipelineSpec? (.dict (pairDocument [("from_port", .str "data")])) =
        some (pairSpec "data" "in") ∧
      ¬ ∃ positions nodes edges,
        specToFlow (pairDocument [("from_port", .str "data")]) positions = some (nodes, edges) ∧
          parsePipelineSpec? (flowToSpec "demo" nodes edges) = some (pairSpec "data" "in") := by
  have haccepted : parsePipelineSpec? (.dict (pairDocument [("from_port", .str "data")])) =
      some (pairSpec "data" "in") := by decide +kernel
  refine ⟨haccepted, ?_⟩
  intro h
  rcases h with ⟨positions, nodes, edges, hflow, hsaved⟩
  rcases specToFlow_accepted haccepted (listsEdges_pairDocument _) positions with
    ⟨nodes', edges', hflow', hsaved'⟩
  cases hflow.symm.trans hflow'
  exact absurd (hsaved.symm.trans hsaved') (by decide)

end EtlTool
