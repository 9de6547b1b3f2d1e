import EtlTool.Core.Schema

/-!
# Reading a pipeline document

What the document models accept: a stored document is a JSON value, and
{lit}`PipelineSpec.model_validate` turns it into a pipeline or reports errors.
Unknown keys are errors, the config of a node and the edges of a pipeline may be
missing, and an edge names its ends by {lit}`from` and {lit}`to` or by the names of
the model's fields.

Main results:

- Theorem {lit}`parsePipelineSpec?_document`: the parts of an accepted document, as the
  pipeline that it stands for has them.
- Theorem {lit}`parseNodeSpec?_written` and {lit}`parseEdgeSpec?_written`: a node or an edge
  that is written with all its keys is read back.

Current gaps:

- The texts and positions of the errors; only whether a document is accepted.
-/

namespace EtlTool

/-! ## The models -/

/-- A required string field. -/
def stringField? (fields : Fields) (key : String) : Option String :=
  match fields.lookup key with
  | some (.str text) => some text
  | _ => none

/-- A string field with a default. -/
def stringFieldOr? (fields : Fields) (key default : String) : Option String :=
  match fields.lookup key with
  | none => some default
  | some (.str text) => some text
  | some _ => none

/-- A required string field that goes by an alias or by its own name.  The alias is
looked up first, and a document with both keys has one too many. -/
def aliasedField? (fields : Fields) (short name : String) : Option String :=
  match fields.lookup short, fields.lookup name with
  | some (.str text), none => some text
  | none, some (.str text) => some text
  | _, _ => none

/-- {lit}`extra="forbid"`: only these keys occur. -/
def onlyKeys (keys : List String) (fields : Fields) : Bool :=
  fields.all fun field => keys.contains field.1

/-- The config of a node, by default empty. -/
def configField? (fields : Fields) : Option Fields :=
  match fields.lookup "config" with
  | none => some []
  | some (.dict config) => some config
  | some _ => none

/-- {lit}`NodeSpec.model_validate`. -/
def parseNodeSpec? : Value → Option NodeSpec
  | .dict fields => do
      guard (onlyKeys ["id", "type", "config"] fields)
      let id ← stringField? fields "id"
      let type ← stringField? fields "type"
      let config ← configField? fields
      if h : matchesNodeIdPattern id = true ∧ type ≠ "" then
        some ⟨id, type, config, h.1, h.2⟩
      else
        none
  | _ => none

/-- {lit}`EdgeSpec.model_validate`. -/
def parseEdgeSpec? : Value → Option EdgeSpec
  | .dict fields => do
      guard (onlyKeys ["from", "from_node", "from_port", "to", "to_node", "to_port"] fields)
      let fromNode ← aliasedField? fields "from" "from_node"
      let fromPort ← stringFieldOr? fields "from_port" "out"
      let toNode ← aliasedField? fields "to" "to_node"
      let toPort ← stringFieldOr? fields "to_port" "in"
      some ⟨fromNode, fromPort, toNode, toPort⟩
  | _ => none

/-- The nodes of a pipeline. -/
def nodesField? (fields : Fields) : Option (List NodeSpec) :=
  match fields.lookup "nodes" with
  | some (.list items) => items.mapM parseNodeSpec?
  | _ => none

/-- The edges of a pipeline, by default none. -/
def edgesField? (fields : Fields) : Option (List EdgeSpec) :=
  match fields.lookup "edges" with
  | none => some []
  | some (.list items) => items.mapM parseEdgeSpec?
  | some _ => none

/-- {lit}`PipelineSpec.model_validate`. -/
def parsePipelineSpec? : Value → Option PipelineSpec
  | .dict fields => do
      guard (onlyKeys ["pipeline_id", "nodes", "edges"] fields)
      let pipelineId ← stringField? fields "pipeline_id"
      let nodes ← nodesField? fields
      let edges ← edgesField? fields
      if h : pipelineId ≠ "" then some ⟨pipelineId, nodes, edges, h⟩ else none
  | _ => none

/-! ## What an accepted document holds -/

theorem stringField?_eq_some_iff {fields : Fields} {key text : String} :
    stringField? fields key = some text ↔ fields.lookup key = some (.str text) := by
  unfold stringField?
  split
  · rename_i found hfound
    simp [hfound]
  · rename_i hnot
    constructor
    · intro h
      cases h
    · intro h
      exact absurd h (hnot text)

private theorem configField?_eq_some {fields config : Fields}
    (h : configField? fields = some config) :
    (fields.lookup "config" = none ∧ config = []) ∨
      fields.lookup "config" = some (.dict config) := by
  unfold configField? at h
  split at h
  · rename_i hnone
    exact Or.inl ⟨hnone, (Option.some.inj h).symm⟩
  · rename_i found hfound
    exact Or.inr (by rw [hfound, Option.some.inj h])
  · cases h

private theorem aliasedField?_eq_some {fields : Fields} {short name text : String}
    (h : aliasedField? fields short name = some text) (hshort : (fields.lookup short).isSome) :
    fields.lookup short = some (.str text) := by
  unfold aliasedField? at h
  split at h
  · rename_i found hfound _
    rw [hfound, Option.some.inj h]
  · rename_i hnone _
    rw [hnone] at hshort
    cases hshort
  · cases h

private theorem nodesField?_eq_some {fields : Fields} {nodes : List NodeSpec}
    (h : nodesField? fields = some nodes) :
    ∃ items, fields.lookup "nodes" = some (.list items) ∧
      items.mapM parseNodeSpec? = some nodes := by
  unfold nodesField? at h
  split at h
  · rename_i items hitems
    exact ⟨items, hitems, h⟩
  · cases h

/-- The parts of an accepted node document. -/
theorem parseNodeSpec?_document {document : Value} {node : NodeSpec}
    (h : parseNodeSpec? document = some node) :
    ∃ fields, document = .dict fields ∧ fields.lookup "id" = some (.str node.id) ∧
      fields.lookup "type" = some (.str node.type) ∧
      ((fields.lookup "config" = none ∧ node.config = []) ∨
        fields.lookup "config" = some (.dict node.config)) := by
  cases document with
  | dict fields =>
      simp only [parseNodeSpec?, Option.bind_eq_bind, Option.bind_eq_some_iff] at h
      rcases h with ⟨_, _, id, hid, type, htype, config, hconfig, hnode⟩
      split at hnode
      · cases hnode
        exact ⟨fields, rfl, stringField?_eq_some_iff.mp hid, stringField?_eq_some_iff.mp htype,
          configField?_eq_some hconfig⟩
      · cases hnode
  | _ => cases h

/-- The ends of an accepted edge document that uses the keys {lit}`from` and
{lit}`to`. -/
theorem parseEdgeSpec?_document {fields : Fields} {edge : EdgeSpec}
    (h : parseEdgeSpec? (.dict fields) = some edge)
    (hfrom : (fields.lookup "from").isSome) (hto : (fields.lookup "to").isSome) :
    fields.lookup "from" = some (.str edge.fromNode) ∧
      fields.lookup "to" = some (.str edge.toNode) := by
  simp only [parseEdgeSpec?, Option.bind_eq_bind, Option.bind_eq_some_iff,
    Option.some.injEq] at h
  rcases h with ⟨_, _, fromNode, hfromNode, _, _, toNode, htoNode, _, _, rfl⟩
  exact ⟨aliasedField?_eq_some hfromNode hfrom, aliasedField?_eq_some htoNode hto⟩

/-- The parts of an accepted document that has its edges listed. -/
theorem parsePipelineSpec?_document {fields : Fields} {edges : List Value} {spec : PipelineSpec}
    (h : parsePipelineSpec? (.dict fields) = some spec)
    (hedges : fields.lookup "edges" = some (.list edges)) :
    ∃ nodes, fields.lookup "nodes" = some (.list nodes) ∧
      nodes.mapM parseNodeSpec? = some spec.nodes ∧
      edges.mapM parseEdgeSpec? = some spec.edges := by
  simp only [parsePipelineSpec?, Option.bind_eq_bind, Option.bind_eq_some_iff] at h
  rcases h with ⟨_, _, pipelineId, _, nodes, hnodes, edgeSpecs, hedgeSpecs, hspec⟩
  split at hspec
  · cases hspec
    rcases nodesField?_eq_some hnodes with ⟨items, hitems, hparse⟩
    refine ⟨items, hitems, hparse, ?_⟩
    simpa only [edgesField?, hedges] using hedgeSpecs
  · cases hspec

theorem parsePipelineSpec?_pipelineId {fields : Fields} {pipelineId : String}
    {spec : PipelineSpec} (h : parsePipelineSpec? (.dict fields) = some spec)
    (hid : fields.lookup "pipeline_id" = some (.str pipelineId)) :
    pipelineId = spec.pipelineId := by
  simp only [parsePipelineSpec?, Option.bind_eq_bind, Option.bind_eq_some_iff] at h
  rcases h with ⟨_, _, found, hfound, nodes, _, edges, _, hspec⟩
  split at hspec
  · cases hspec
    exact Option.some.inj ((stringField?_eq_some_iff.mpr hid).symm.trans hfound)
  · cases hspec

/-! ## Documents with all their keys -/

/-- A node written with all its keys is read back. -/
theorem parseNodeSpec?_written (node : NodeSpec) :
    parseNodeSpec? (.dict [("id", .str node.id), ("type", .str node.type),
      ("config", .dict node.config)]) = some node := by
  simp [parseNodeSpec?, onlyKeys, stringField?, configField?, List.lookup_cons, node.id_pattern,
    node.type_nonempty, guard]

/-- An edge written with all its keys is read back. -/
theorem parseEdgeSpec?_written (edge : EdgeSpec) :
    parseEdgeSpec? (.dict [("from", .str edge.fromNode), ("from_port", .str edge.fromPort),
      ("to", .str edge.toNode), ("to_port", .str edge.toPort)]) = some edge := by
  simp [parseEdgeSpec?, onlyKeys, aliasedField?, stringFieldOr?, List.lookup_cons, guard]

/-- A document written with all its keys is read back when its nodes and edges are. -/
theorem parsePipelineSpec?_written (spec : PipelineSpec) {nodes edges : List Value}
    (hnodes : nodes.mapM parseNodeSpec? = some spec.nodes)
    (hedges : edges.mapM parseEdgeSpec? = some spec.edges) :
    parsePipelineSpec? (.dict [("pipeline_id", .str spec.pipelineId), ("nodes", .list nodes),
      ("edges", .list edges)]) = some spec := by
  simp [parsePipelineSpec?, onlyKeys, stringField?, nodesField?, edgesField?, List.lookup_cons,
    hnodes, hedges, spec.pipelineId_nonempty, guard]

end EtlTool
