import EtlTool.Editor.Mapping
import EtlTool.Engine.Renaming

/-!
# Renaming a node in the editor

The editor renames a node on its canvas: the node and the ends of its edges get the new
id.  The configs of the nodes stay as they are, so a reference to the old id now names no
node, and the server refuses the saved document.

Main results:

- Theorem {lit}`parse_renameNode`: the saved document is the old one with ids and edges
  renamed and the configs as they were.
- Theorem {lit}`renameNode_preserves_iff`: it is the renamed pipeline, without issues,
  exactly if no config refers to the node.
-/

namespace EtlTool

/-! ## The operation -/

/-- The nodes and edges on the canvas. -/
structure EditorState where
  nodes : List EtlNode
  edges : List FlowEdge
deriving DecidableEq

/-- The document that saving sends. -/
def EditorState.saved (state : EditorState) (pipelineId : String) : Value :=
  flowToSpec pipelineId state.nodes state.edges

/-- An edge after the renaming. -/
def FlowEdge.rename (oldId newId : String) (edge : FlowEdge) : FlowEdge :=
  let source := if edge.source = some oldId then some newId else edge.source
  let target := if edge.target = some oldId then some newId else edge.target
  .between source target

/-- A node after the renaming. -/
def EtlNode.rename (oldId newId : String) (node : EtlNode) : EtlNode :=
  if node.id = oldId then { node with id := newId } else node

/-- {lit}`renameNode`: {lean}`none` when the new id is refused. -/
def renameNode (oldId newId : String) (state : EditorState) : Option EditorState :=
  if !matchesNodeIdPattern newId then none
  else if state.nodes.any fun node => node.id = newId then none
  else
    some
      { nodes := state.nodes.map (EtlNode.rename oldId newId)
        edges := state.edges.map (FlowEdge.rename oldId newId) }

/-- What {lit}`renameNode` has checked when it renames. -/
theorem renameNode_eq_some {oldId newId : String} {state state' : EditorState}
    (h : renameNode oldId newId state = some state') :
    matchesNodeIdPattern newId = true ∧ (∀ node ∈ state.nodes, node.id ≠ newId) ∧
      state' = ⟨state.nodes.map (EtlNode.rename oldId newId),
        state.edges.map (FlowEdge.rename oldId newId)⟩ := by
  unfold renameNode at h
  split at h
  · cases h
  · rename_i hpattern
    split at h
    · cases h
    · rename_i htaken
      cases h
      refine ⟨by simpa using hpattern, ?_, rfl⟩
      simpa using htaken

/-! ## The saved document -/

theorem parseNodeSpec?_toSpec_iff (node : EtlNode) (spec : NodeSpec) :
    parseNodeSpec? node.toSpec = some spec ↔
      spec.id = node.id ∧ spec.type = node.nodeType ∧ spec.config = node.config := by
  constructor
  · intro h
    rcases parseNodeSpec?_document h with ⟨fields, hfields, hid, htype, hconfig⟩
    cases hfields
    have hconfig' : node.config = spec.config := by simpa [List.lookup_cons] using hconfig
    refine ⟨?_, ?_, hconfig'.symm⟩
    · simpa using hid.symm
    · simpa [List.lookup_cons] using htype.symm
  · intro h
    have hspec := parseNodeSpec?_written spec
    rw [h.1, h.2.1, h.2.2] at hspec
    exact hspec

theorem parseEdgeSpec?_toSpec_iff (edge : FlowEdge) (spec : EdgeSpec) :
    parseEdgeSpec? edge.toSpec = some spec ↔
      edge.source = some spec.fromNode ∧ edge.target = some spec.toNode ∧
        spec.fromPort = "out" ∧ spec.toPort = "in" := by
  rcases spec with ⟨fromNode, fromPort, toNode, toPort⟩
  cases hsource : edge.source with
  | none =>
      cases htarget : edge.target <;>
        simp [FlowEdge.toSpec, hsource, htarget, writtenField, parseEdgeSpec?, aliasedField?,
          List.lookup_cons]
  | some source =>
      cases htarget : edge.target with
      | none =>
          simp [FlowEdge.toSpec, hsource, htarget, writtenField, parseEdgeSpec?, aliasedField?,
            List.lookup_cons]
      | some target =>
          have hwritten := parseEdgeSpec?_written ⟨source, "out", target, "in"⟩
          have hsame : edge.toSpec = .dict [("from", .str source), ("from_port", .str "out"),
              ("to", .str target), ("to_port", .str "in")] := by
            simp [FlowEdge.toSpec, hsource, htarget, writtenField]
          rw [hsame, hwritten]
          simp [eq_comm, and_left_comm]

/-- The ids on the canvas are those of the saved document. -/
theorem ids_saved {nodes : List EtlNode} {specs : List NodeSpec}
    (h : (nodes.map EtlNode.toSpec).mapM parseNodeSpec? = some specs) :
    specs.map NodeSpec.id = nodes.map EtlNode.id := by
  induction nodes generalizing specs with
  | nil =>
      cases h
      rfl
  | cons node nodes ih =>
      simp only [List.map_cons, List.mapM_cons, Option.bind_eq_bind, Option.bind_eq_some_iff,
        Option.pure_def, Option.some.injEq] at h
      rcases h with ⟨spec, hspec, rest, hrest, rfl⟩
      rw [List.map_cons, List.map_cons, ih hrest,
        ((parseNodeSpec?_toSpec_iff node spec).mp hspec).1]

/-- Renamed nodes are saved as relabelled nodes. -/
theorem nodes_renamed (oldId : String) {newId : String}
    (hnew : matchesNodeIdPattern newId = true) {nodes : List EtlNode} {specs : List NodeSpec}
    (h : (nodes.map EtlNode.toSpec).mapM parseNodeSpec? = some specs) :
    ((nodes.map (EtlNode.rename oldId newId)).map EtlNode.toSpec).mapM parseNodeSpec? =
      some (specs.map (NodeSpec.relabel oldId newId hnew)) := by
  induction nodes generalizing specs with
  | nil =>
      cases h
      rfl
  | cons node nodes ih =>
      simp only [List.map_cons, List.mapM_cons, Option.bind_eq_bind, Option.bind_eq_some_iff,
        Option.pure_def, Option.some.injEq] at h
      rcases h with ⟨spec, hspec, rest, hrest, rfl⟩
      rcases (parseNodeSpec?_toSpec_iff node spec).mp hspec with ⟨hid, htype, hconfig⟩
      have hrenamed : parseNodeSpec? (node.rename oldId newId).toSpec =
          some (spec.relabel oldId newId hnew) := by
        apply (parseNodeSpec?_toSpec_iff _ _).mpr
        simp only [NodeSpec.relabel, renameId, EtlNode.rename, hid]
        split
        · exact ⟨rfl, htype, hconfig⟩
        · exact ⟨rfl, htype, hconfig⟩
      simp only [List.map_cons, List.mapM_cons, hrenamed, ih hrest]
      rfl

/-- Renamed edges are saved as relabelled edges. -/
theorem edges_renamed (oldId newId : String) {edges : List FlowEdge} {specs : List EdgeSpec}
    (h : (edges.map FlowEdge.toSpec).mapM parseEdgeSpec? = some specs) :
    ((edges.map (FlowEdge.rename oldId newId)).map FlowEdge.toSpec).mapM parseEdgeSpec? =
      some (specs.map (EdgeSpec.rename oldId newId)) := by
  induction edges generalizing specs with
  | nil =>
      cases h
      rfl
  | cons edge edges ih =>
      simp only [List.map_cons, List.mapM_cons, Option.bind_eq_bind, Option.bind_eq_some_iff,
        Option.pure_def, Option.some.injEq] at h
      rcases h with ⟨spec, hspec, rest, hrest, rfl⟩
      rcases (parseEdgeSpec?_toSpec_iff edge spec).mp hspec with ⟨hfrom, hto, hports⟩
      have hend : ∀ id, (if some id = some oldId then some newId else some id) =
          some (renameId oldId newId id) := by
        intro id
        by_cases hsame : id = oldId
        · simp [renameId, hsame]
        · simp [renameId, hsame]
      have hrenamed : parseEdgeSpec? (edge.rename oldId newId).toSpec =
          some (spec.rename oldId newId) := by
        apply (parseEdgeSpec?_toSpec_iff _ _).mpr
        simp only [FlowEdge.rename, FlowEdge.between, hfrom, hto, hend]
        exact ⟨rfl, rfl, hports⟩
      simp only [List.map_cons, List.mapM_cons, hrenamed, ih hrest]
      rfl

/-- What is saved after {lit}`renameNode`: the document with ids and edges renamed and the
configs as they were. -/
theorem parse_renameNode {pipelineId oldId newId : String} {state state' : EditorState}
    {spec : PipelineSpec} (hsaved : parsePipelineSpec? (state.saved pipelineId) = some spec)
    (hrename : renameNode oldId newId state = some state')
    (hnew : matchesNodeIdPattern newId = true) :
    parsePipelineSpec? (state'.saved pipelineId) = some (spec.relabel oldId newId hnew) := by
  rcases renameNode_eq_some hrename with ⟨-, -, rfl⟩
  rcases parsePipelineSpec?_document hsaved rfl with ⟨documents, hdocuments, hnodes, hedges⟩
  cases hdocuments
  have hid : pipelineId = spec.pipelineId := parsePipelineSpec?_pipelineId hsaved rfl
  subst hid
  exact parsePipelineSpec?_written (spec.relabel oldId newId hnew)
    (nodes_renamed oldId hnew hnodes) (edges_renamed oldId newId hedges)

/-- The new id is no node of the saved document. -/
theorem freshId_saved {pipelineId oldId newId : String} {state state' : EditorState}
    {spec : PipelineSpec} (hsaved : parsePipelineSpec? (state.saved pipelineId) = some spec)
    (hrename : renameNode oldId newId state = some state') : Engine.FreshId spec newId := by
  rcases renameNode_eq_some hrename with ⟨-, hfresh, -⟩
  rcases parsePipelineSpec?_document hsaved rfl with ⟨documents, hdocuments, hnodes, -⟩
  cases hdocuments
  intro node hnode hid
  have hmem := List.mem_map_of_mem (f := NodeSpec.id) hnode
  rw [ids_saved hnodes] at hmem
  rcases List.mem_map.mp hmem with ⟨canvasNode, hcanvas, hsame⟩
  exact hfresh canvasNode hcanvas (hsame.trans hid)

/-! ## When renaming preserves the pipeline -/

/-- A document in which a config still refers to the old id has an issue. -/
theorem Engine.not_valid_of_named (en : Engine) {spec : PipelineSpec} {old new : String}
    {hnew : matchesNodeIdPattern new = true} (hfresh : Engine.FreshId spec new)
    (hvalid : en.validatePipeline spec = []) {node : NodeSpec} (hnode : node ∈ spec.nodes)
    {path : String} (hreference : (RefKind.upstream, path) ∈ findInFields node.config)
    (htarget : referenceTarget path = old) :
    en.validatePipeline (spec.relabel old new hnew) ≠ [] := by
  intro hvalid'
  rcases (Engine.validatePipeline_eq_nil_iff.mp hvalid).2.upstream_reaches node hnode path
    hreference with ⟨⟨named, hnamed, hid⟩, -⟩
  have hne : old ≠ new := by
    rw [← htarget, ← hid]
    exact hfresh named hnamed
  rcases (Engine.validatePipeline_eq_nil_iff.mp hvalid').2.upstream_reaches _
    (List.mem_map_of_mem hnode) path hreference with ⟨⟨renamed, hrenamed, hid'⟩, -⟩
  rcases List.mem_map.mp hrenamed with ⟨other, hother, rfl⟩
  rw [htarget] at hid'
  simp only [NodeSpec.relabel, renameId] at hid'
  split at hid'
  · exact hne hid'.symm
  · rename_i hother
    exact hother hid'

/-- Renaming a node on the canvas gives the renamed pipeline, without issues, exactly if no
config refers to the node. -/
theorem renameNode_preserves_iff (en : Engine) {pipelineId oldId newId : String}
    {state state' : EditorState} {spec : PipelineSpec}
    (hsaved : parsePipelineSpec? (state.saved pipelineId) = some spec)
    (hvalid : en.validatePipeline spec = [])
    (hrename : renameNode oldId newId state = some state') :
    (∃ renamed, parsePipelineSpec? (state'.saved pipelineId) = some renamed ∧
        en.validatePipeline renamed = [] ∧
        renamed = spec.rename oldId newId (renameNode_eq_some hrename).1) ↔
      ∀ node ∈ spec.nodes, ∀ path, (RefKind.upstream, path) ∈ findInFields node.config →
        referenceTarget path ≠ oldId := by
  have hparse := parse_renameNode hsaved hrename (renameNode_eq_some hrename).1
  have hfresh := freshId_saved hsaved hrename
  constructor
  · intro h node hnode path hreference htarget
    rcases h with ⟨renamed, hparse', hvalid', -⟩
    rw [hparse, Option.some.injEq] at hparse'
    subst hparse'
    exact en.not_valid_of_named hfresh hvalid hnode hreference htarget hvalid'
  · intro hnamed
    have hsame := PipelineSpec.rename_eq_relabel (renameNode_eq_some hrename).1 hnamed
    refine ⟨_, hparse, ?_, hsame.symm⟩
    rw [← hsame]
    exact Engine.validatePipeline_rename hfresh hvalid

/-! ## A canvas of two nodes -/

namespace Samples

/-- A source and a node behind it with a config. -/
def canvas (config : Fields) : EditorState where
  nodes := [⟨"first", ⟨40, 40⟩, "source", []⟩, ⟨"last", ⟨300, 40⟩, "collect", config⟩]
  edges := [.between (some "first") (some "last")]

/-- The document of the canvas. -/
def canvasDocument (config : Fields) : PipelineSpec :=
  document [node "first" "source" [], node "last" "collect" config] [edge "first" "last"]

end Samples

open Samples

theorem renameNode_preserves_iff_plain :
    ∃ state', renameNode "first" "source_1" (canvas []) = some state' ∧
      ∃ renamed, parsePipelineSpec? (state'.saved "sample") = some renamed ∧
        engine.validatePipeline renamed = [] ∧
        renamed = (canvasDocument []).rename "first" "source_1" (by decide) := by
  have hsaved : parsePipelineSpec? ((canvas []).saved "sample") = some (canvasDocument []) := by
    decide +kernel
  have hvalid : engine.validatePipeline (canvasDocument []) = [] := by decide +kernel
  have hnone : ∀ node ∈ (canvasDocument []).nodes, findInFields node.config = [] := by decide
  refine ⟨_, rfl, (renameNode_preserves_iff engine hsaved hvalid rfl).mpr ?_⟩
  intro node hnode path hreference
  rw [hnone node hnode] at hreference
  cases hreference

/-- A reference to the renamed node is left behind, and the saved document is refused. -/
theorem reference_left_behind :
    parsePipelineSpec? ((canvas [("id", .str "$upstream.first.id")]).saved "sample") =
        some (canvasDocument [("id", .str "$upstream.first.id")]) ∧
      engine.validatePipeline (canvasDocument [("id", .str "$upstream.first.id")]) = [] ∧
      ∃ state' renamed,
        renameNode "first" "source_1" (canvas [("id", .str "$upstream.first.id")]) = some state' ∧
        parsePipelineSpec? (state'.saved "sample") = some renamed ∧
        engine.validatePipeline renamed =
          [⟨some "last", "$upstream reference to unknown node 'first'"⟩] := by
  refine ⟨by decide +kernel, by decide +kernel, _,
    (canvasDocument [("id", .str "$upstream.first.id")]).relabel "first" "source_1" (by decide),
    rfl, by decide +kernel, by decide +kernel⟩

end EtlTool
