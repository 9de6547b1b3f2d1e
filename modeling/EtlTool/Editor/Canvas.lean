import EtlTool.Core.JsonText
import EtlTool.Editor.Renaming
import EtlTool.Foundations.RelatedLists

/-!
# Edits of the canvas

The user adds, connects, configures, renames and deletes nodes.  The canvas is kept by React
Flow, which is a parameter here, with the behaviour that it documents.

Two properties of a canvas go through all edits.  It can be saved: its ids match the pattern,
its types are named and its edges have both ends.  And it is joined: no two nodes have one id,
and every edge joins two nodes.

Main results:

- Theorem {lit}`EditorState.saveable_iff`: the canvas can be saved exactly if the server
  accepts what is saved.
- Theorem {lit}`EditorState.joined_iff`: what is saved is joined exactly if the canvas is.
- Theorem {lit}`firstFree_free`: a new node gets an id that is free.

Current gaps:

- Positions are natural numbers.
- Changes of React Flow that no user makes.
-/

namespace EtlTool

open RelatedLists

/-! ## The palette -/

/-- {lit}`NodeType`, as far as the canvas uses it. -/
structure PaletteType where
  type : String
  defaultConfig : Fields

/-- {lit}`NODE_TYPES`. -/
def paletteTypes : List PaletteType :=
  [⟨"api_source", [("method", .str "GET"), ("url", .str "")]⟩,
    ⟨"file_source", [("path", .str ""), ("format", .str "auto")]⟩,
    ⟨"db_source", [("connection", .dict [("driver", .str "postgresql"), ("host", .str ""),
      ("database", .str "")]), ("query", .str "")]⟩,
    ⟨"iterator", [("mode", .str "array"), ("array", .list []), ("fan_in", .str "concat")]⟩,
    ⟨"merge", [("strategy", .str "concat")]⟩,
    ⟨"transform", [("ops", .list [])]⟩,
    ⟨"decrypt", [("algo", .str "fernet"), ("secret_ref", .str ""), ("fields", .list [])]⟩,
    ⟨"file_sink", [("path", .str ""), ("format", .str "auto"), ("mode", .str "overwrite")]⟩,
    ⟨"db_sink", [("connection", .dict [("driver", .str "postgresql"), ("host", .str ""),
      ("database", .str "")]), ("table", .str ""), ("create", .bool false)]⟩]

/-- {lit}`NODE_TYPE_MAP[type]`. -/
def paletteType? (type : String) : Option PaletteType :=
  paletteTypes.find? fun entry => entry.type = type

/-! ## What React Flow does -/

/-- {lit}`NodeChange`. -/
inductive NodeChange where
  | position (id : String) (position : Position)
  | dimensions (id : String)
  | select (id : String) (selected : Bool)
  | remove (id : String)

/-- {lit}`EdgeChange`. -/
inductive EdgeChange where
  | select (id : String) (selected : Bool)
  | remove (id : String)

/-- The ids of the removed nodes. -/
def removedNodes (changes : List NodeChange) : List String :=
  changes.filterMap fun
    | .remove id => some id
    | _ => none

/-- The ids of the removed edges. -/
def removedEdges (changes : List EdgeChange) : List String :=
  changes.filterMap fun
    | .remove id => some id
    | _ => none

/-- What the canvas takes from React Flow. -/
structure FlowLibrary where
  addEdge : FlowEdge → List FlowEdge → List FlowEdge
  applyNodeChanges : List NodeChange → List EtlNode → List EtlNode
  applyEdgeChanges : List EdgeChange → List FlowEdge → List FlowEdge

/-- Its documented behaviour: an edge is added unless it is there already, and changes of
nodes and edges remove them or leave their ids, ends and data alone. -/
structure FlowLibrary.Documented (lib : FlowLibrary) : Prop where
  addEdge : ∀ edge edges, lib.addEdge edge edges = edges ∨
    lib.addEdge edge edges = edges ++ [edge]
  applyNodeChanges : ∀ changes nodes, ∃ move : EtlNode → EtlNode,
    (∀ node, (move node).id = node.id ∧ (move node).nodeType = node.nodeType ∧
      (move node).config = node.config) ∧
      lib.applyNodeChanges changes nodes =
        (nodes.filter fun node => node.id ∉ removedNodes changes).map move
  applyEdgeChanges : ∀ changes edges, lib.applyEdgeChanges changes edges =
    edges.filter fun edge => edge.id ∉ removedEdges changes

/-! ## The canvas -/

/-- The id {lit}`${type}_${n}`. -/
def numberedId (type : String) (n : Nat) : String :=
  type ++ "_" ++ toString n

/-- The loop of {lit}`addNode` that looks for a number; with as many rounds as there are ids
it finds one. -/
def firstFree (taken : List String) (type : String) : Nat → Nat → Nat
  | 0, n => n
  | rounds + 1, n =>
      if numberedId type n ∈ taken then firstFree taken type rounds (n + 1) else n

/-- The node that {lit}`addNode` makes. -/
def newNode (entry : PaletteType) (position : Option Position) (nodes : List EtlNode) :
    EtlNode where
  id := numberedId entry.type (firstFree (nodes.map EtlNode.id) entry.type nodes.length 1)
  position := position.getD ⟨120 + nodes.length * 24, 100 + nodes.length * 24⟩
  nodeType := entry.type
  config := entry.defaultConfig

namespace EditorState

/-- {lit}`addNode`. -/
def addNode (entry : PaletteType) (position : Option Position) (state : EditorState) :
    EditorState :=
  { state with nodes := state.nodes ++ [newNode entry position state.nodes] }

/-- {lit}`onConnect`. -/
def connect (lib : FlowLibrary) (source target : String) (state : EditorState) : EditorState :=
  { state with edges := lib.addEdge (.between (some source) (some target)) state.edges }

/-- {lit}`updateConfig`. -/
def updateConfig (nodeId : String) (config : Fields) (state : EditorState) : EditorState :=
  { state with
    nodes := state.nodes.map fun node =>
      if node.id = nodeId then { node with config := config } else node }

/-- {lit}`deleteNode`. -/
def deleteNode (nodeId : String) (state : EditorState) : EditorState where
  nodes := state.nodes.filter fun node => node.id ≠ nodeId
  edges := state.edges.filter fun edge =>
    edge.source ≠ some nodeId ∧ edge.target ≠ some nodeId

/-- {lit}`onNodesChange`. -/
def changeNodes (lib : FlowLibrary) (changes : List NodeChange) (state : EditorState) :
    EditorState :=
  { state with nodes := lib.applyNodeChanges changes state.nodes }

/-- {lit}`onEdgesChange`. -/
def changeEdges (lib : FlowLibrary) (changes : List EdgeChange) (state : EditorState) :
    EditorState :=
  { state with edges := lib.applyEdgeChanges changes state.edges }

end EditorState

/-! ## Free ids -/

private theorem numberedId_inj {type : String} {m n : Nat}
    (h : numberedId type m = numberedId type n) :
    m = n := by
  have htext : toString m = toString n := (String.append_right_inj (type ++ "_")).mp h
  apply natText_inj
  simpa using congrArg String.toList htext

/-- If the loop ends at an id that is taken, it has met taken ids only. -/
theorem taken_of_firstFree {taken : List String} {type : String} {rounds n : Nat}
    (h : numberedId type (firstFree taken type rounds n) ∈ taken) :
    ∀ k ≤ rounds, numberedId type (n + k) ∈ taken := by
  induction rounds generalizing n with
  | zero =>
      intro k hk
      rw [Nat.le_zero.mp hk]
      exact h
  | succ rounds ih =>
      rw [firstFree] at h
      split at h
      · rename_i hnow
        intro k hk
        cases k with
        | zero => exact hnow
        | succ k =>
            have hlater := ih h k (Nat.le_of_succ_le_succ hk)
            rwa [Nat.add_assoc, Nat.add_comm 1] at hlater
      · rename_i hfree
        exact absurd h hfree

/-- The loop finds an id that is free: there are more numbers than ids. -/
theorem firstFree_free (taken : List String) (type : String) (n : Nat) :
    numberedId type (firstFree taken type taken.length n) ∉ taken := by
  intro h
  have htaken := taken_of_firstFree h
  have hnodup : ((List.range (taken.length + 1)).map fun k => numberedId type (n + k)).Nodup := by
    apply List.nodup_range.map
    intro j k hjk
    exact Nat.add_left_cancel (numberedId_inj hjk)
  have hsubset : ((List.range (taken.length + 1)).map fun k => numberedId type (n + k)) ⊆
      taken := by
    intro id hid
    rcases List.mem_map.mp hid with ⟨k, hk, rfl⟩
    exact htaken k (Nat.le_of_lt_succ (List.mem_range.mp hk))
  have hlength := (hnodup.subperm hsubset).length_le
  rw [List.length_map, List.length_range] at hlength
  omega

private theorem newNode_fresh (entry : PaletteType) (position : Option Position)
    (nodes : List EtlNode) : ∀ node ∈ nodes, node.id ≠ (newNode entry position nodes).id := by
  intro node hnode hid
  have hfree := firstFree_free (nodes.map EtlNode.id) entry.type 1
  rw [List.length_map] at hfree
  exact hfree (List.mem_map.mpr ⟨node, hnode, hid⟩)

private theorem matchesNodeIdPattern_numberedId {type : String}
    (h : matchesNodeIdPattern type = true)
    (n : Nat) : matchesNodeIdPattern (numberedId type n) = true := by
  have hdigits : ∀ c ∈ (toString n).toList, c.isAlphanum = true := by
    intro c hc
    have hdigit : c.isDigit = true := by
      apply Nat.isDigit_of_mem_toDigits (b := 10) (n := n) (by decide) (by decide)
      simpa using hc
    simp [Char.isAlphanum, hdigit]
  unfold matchesNodeIdPattern at h ⊢
  rw [numberedId, String.toList_append, String.toList_append]
  cases htype : type.toList with
  | nil =>
      rw [htype] at h
      cases h
  | cons c rest =>
      rw [htype] at h
      rw [Bool.and_eq_true] at h
      simp only [List.cons_append, List.append_assoc, List.all_append, Bool.and_eq_true]
      refine ⟨h.1, h.2, rfl, List.all_eq_true.mpr ?_⟩
      intro d hd
      rw [hdigits d hd]
      rfl

/-- Every type of the palette is a non-empty name that fits the id pattern. -/
theorem paletteTypes_named {type : String} {entry : PaletteType}
    (h : paletteType? type = some entry) :
    matchesNodeIdPattern entry.type = true ∧ entry.type ≠ "" := by
  have hall : ∀ entry ∈ paletteTypes,
      matchesNodeIdPattern entry.type = true ∧ entry.type ≠ "" := by
    decide +kernel
  exact hall entry (List.mem_of_find?_eq_some h)

/-! ## The saved document -/

/-- The node of a document that a canvas node is saved as. -/
def EtlNode.SavedAs (node : EtlNode) (spec : NodeSpec) : Prop :=
  spec.id = node.id ∧ spec.type = node.nodeType ∧ spec.config = node.config

/-- The edge of a document that a canvas edge is saved as. -/
def FlowEdge.SavedAs (edge : FlowEdge) (spec : EdgeSpec) : Prop :=
  edge.source = some spec.fromNode ∧ edge.target = some spec.toNode ∧
    spec.fromPort = "out" ∧ spec.toPort = "in"

private theorem ids_of_savedAs {nodes : List EtlNode} {specs : List NodeSpec}
    (h : List.Forall₂ EtlNode.SavedAs nodes specs) :
    specs.map NodeSpec.id = nodes.map EtlNode.id := by
  induction h with
  | nil => rfl
  | cons hfirst _ ih => rw [List.map_cons, List.map_cons, ih, hfirst.1]

namespace EditorState

variable {state : EditorState} {pipelineId : String} {spec : PipelineSpec}

/-- The canvas is saved as the document of a pipeline exactly if its nodes and edges are those
of the pipeline. -/
theorem parse_saved_iff : parsePipelineSpec? (state.saved pipelineId) = some spec ↔
    spec.pipelineId = pipelineId ∧ List.Forall₂ EtlNode.SavedAs state.nodes spec.nodes ∧
      List.Forall₂ FlowEdge.SavedAs state.edges spec.edges := by
  have hnodes : (state.nodes.map EtlNode.toSpec).mapM parseNodeSpec? = some spec.nodes ↔
      List.Forall₂ EtlNode.SavedAs state.nodes spec.nodes := by
    rw [mapM_eq_some_iff, List.forall₂_map_left_iff]
    simp only [parseNodeSpec?_toSpec_iff]
    rfl
  have hedges : (state.edges.map FlowEdge.toSpec).mapM parseEdgeSpec? = some spec.edges ↔
      List.Forall₂ FlowEdge.SavedAs state.edges spec.edges := by
    rw [mapM_eq_some_iff, List.forall₂_map_left_iff]
    simp only [parseEdgeSpec?_toSpec_iff]
    rfl
  constructor
  · intro h
    rcases parsePipelineSpec?_document h rfl with ⟨documents, hdocuments, hparsed, hedgeSpecs⟩
    cases hdocuments
    exact ⟨(parsePipelineSpec?_pipelineId h rfl).symm, hnodes.mp hparsed, hedges.mp hedgeSpecs⟩
  · intro h
    rcases h with ⟨rfl, hsavedNodes, hsavedEdges⟩
    exact parsePipelineSpec?_written spec (hnodes.mpr hsavedNodes) (hedges.mpr hsavedEdges)

/-- A canvas that can be saved. -/
structure Saveable (state : EditorState) : Prop where
  nodes : ∀ node ∈ state.nodes, matchesNodeIdPattern node.id = true ∧ node.nodeType ≠ ""
  edges : ∀ edge ∈ state.edges, edge.source.isSome ∧ edge.target.isSome

/-- A canvas on which every edge joins two nodes, and ids name nodes. -/
structure Joined (state : EditorState) : Prop where
  unique : (state.nodes.map EtlNode.id).Nodup
  ends : ∀ edge ∈ state.edges, ∀ id, edge.source = some id ∨ edge.target = some id →
    ∃ node ∈ state.nodes, node.id = id

/-- The server accepts what is saved exactly if the canvas can be saved. -/
theorem saveable_iff (hid : pipelineId ≠ "") :
    state.Saveable ↔ ∃ spec, parsePipelineSpec? (state.saved pipelineId) = some spec := by
  constructor
  · intro h
    have hnodes : ∀ node ∈ state.nodes, ∃ spec, node.SavedAs spec := by
      intro node hnode
      rcases h.nodes node hnode with ⟨hpattern, htype⟩
      exact ⟨⟨node.id, node.nodeType, node.config, hpattern, htype⟩, rfl, rfl, rfl⟩
    have hedges : ∀ edge ∈ state.edges, ∃ spec, edge.SavedAs spec := by
      intro edge hedge
      rcases h.edges edge hedge with ⟨hsource, htarget⟩
      rcases Option.isSome_iff_exists.mp hsource with ⟨source, hsource⟩
      rcases Option.isSome_iff_exists.mp htarget with ⟨target, htarget⟩
      exact ⟨⟨source, "out", target, "in"⟩, hsource, htarget, rfl, rfl⟩
    rcases exists_forall₂ hnodes with ⟨nodes, hnodes⟩
    rcases exists_forall₂ hedges with ⟨edges, hedges⟩
    exact ⟨⟨pipelineId, nodes, edges, hid⟩, parse_saved_iff.mpr ⟨rfl, hnodes, hedges⟩⟩
  · intro h
    rcases h with ⟨spec, hspec⟩
    rcases parse_saved_iff.mp hspec with ⟨_, hnodes, hedges⟩
    constructor
    · intro node hnode
      rcases exists_mem_of_forall₂ hnodes hnode with ⟨spec, _, hid, htype, _⟩
      exact ⟨hid ▸ spec.id_pattern, htype ▸ spec.type_nonempty⟩
    · intro edge hedge
      rcases exists_mem_of_forall₂ hedges hedge with ⟨spec, _, hsource, htarget, _⟩
      rw [hsource, htarget]
      exact ⟨rfl, rfl⟩

/-- The edges of a saved document join nodes, and its ids name nodes, exactly as on the
canvas. -/
theorem joined_iff (h : parsePipelineSpec? (state.saved pipelineId) = some spec) :
    state.Joined ↔ (spec.nodes.map NodeSpec.id).Nodup ∧ spec.EdgesKnown := by
  rcases parse_saved_iff.mp h with ⟨_, hnodes, hedges⟩
  have hids := ids_of_savedAs hnodes
  have hnamed : ∀ id, id ∈ spec.nodeMap.keys ↔ ∃ node ∈ state.nodes, node.id = id := by
    intro id
    rw [PipelineSpec.mem_nodeMap_keys, ← List.mem_map, hids, List.mem_map]
  constructor
  · intro hjoined
    refine ⟨hids ▸ hjoined.unique, ?_⟩
    intro edgeSpec hedgeSpec
    rcases exists_mem_of_forall₂ hedges.flip hedgeSpec with ⟨edge, hedge, hsource, htarget, _⟩
    exact ⟨(hnamed _).mpr (hjoined.ends edge hedge _ (.inl hsource)),
      (hnamed _).mpr (hjoined.ends edge hedge _ (.inr htarget))⟩
  · intro hspec
    refine ⟨hids ▸ hspec.1, ?_⟩
    intro edge hedge id hend
    rcases exists_mem_of_forall₂ hedges hedge with ⟨edgeSpec, hedgeSpec, hsource, htarget, _⟩
    rcases hspec.2 edgeSpec hedgeSpec with ⟨hfrom, hto⟩
    rcases hend with hend | hend
    · cases hsource.symm.trans hend
      exact (hnamed _).mp hfrom
    · cases htarget.symm.trans hend
      exact (hnamed _).mp hto

/-! ## Edits -/

/-- Nodes of known names and edges of the canvas are saved as before. -/
theorem Saveable.of_mem (h : state.Saveable) {state' : EditorState}
    (hnodes : ∀ node ∈ state'.nodes, ∃ other ∈ state.nodes,
      node.id = other.id ∧ node.nodeType = other.nodeType)
    (hedges : ∀ edge ∈ state'.edges, edge ∈ state.edges) : state'.Saveable where
  nodes := by
    intro node hnode
    rcases hnodes node hnode with ⟨other, hother, hid, htype⟩
    rw [hid, htype]
    exact h.nodes other hother
  edges := by
    intro edge hedge
    exact h.edges edge (hedges edge hedge)

/-- Nodes can be removed that no edge needs any more. -/
theorem Joined.of_removed (h : state.Joined) {state' : EditorState} (removed : List String)
    (hids : state'.nodes.map EtlNode.id = (state.nodes.map EtlNode.id).filter (· ∉ removed))
    (hedges : ∀ edge ∈ state'.edges, edge ∈ state.edges ∧
      ∀ id ∈ removed, edge.source ≠ some id ∧ edge.target ≠ some id) : state'.Joined where
  unique := by
    rw [hids]
    exact h.unique.filter _
  ends := by
    intro edge hedge id hend
    rcases hedges edge hedge with ⟨hold, hfree⟩
    have hkept : id ∉ removed := by
      intro hremoved
      rcases hfree id hremoved with ⟨hsource, htarget⟩
      exact hend.elim hsource htarget
    have hmem : id ∈ state.nodes.map EtlNode.id := List.mem_map.mpr (h.ends edge hold id hend)
    have hleft : id ∈ state'.nodes.map EtlNode.id := by
      rw [hids]
      exact List.mem_filter.mpr ⟨hmem, decide_eq_true hkept⟩
    exact List.mem_map.mp hleft

/-- The ids stay as they are, and so do the edges that are left. -/
theorem Joined.of_ids (h : state.Joined) {state' : EditorState}
    (hids : state'.nodes.map EtlNode.id = state.nodes.map EtlNode.id)
    (hedges : ∀ edge ∈ state'.edges, edge ∈ state.edges) : state'.Joined := by
  apply h.of_removed []
  · simpa using hids
  · intro edge hedge
    exact ⟨hedges edge hedge, fun _ hmem => nomatch hmem⟩

section

variable {entry : PaletteType} {position : Option Position}

/-- A node from the palette keeps the canvas saveable. -/
theorem Saveable.addNode (h : state.Saveable)
    (hentry : matchesNodeIdPattern entry.type = true ∧ entry.type ≠ "") :
    (state.addNode entry position).Saveable where
  nodes := by
    intro node hnode
    rcases List.mem_append.mp hnode with hold | hnew
    · exact h.nodes node hold
    · cases List.mem_singleton.mp hnew
      exact ⟨matchesNodeIdPattern_numberedId hentry.1 _, hentry.2⟩
  edges := h.edges

/-- A new node gets a fresh id and no edge. -/
theorem Joined.addNode (h : state.Joined) : (state.addNode entry position).Joined where
  unique := by
    rw [EditorState.addNode, List.map_append, List.map_singleton, List.nodup_append]
    refine ⟨h.unique, List.nodup_singleton _, ?_⟩
    intro id hid other hother
    rcases List.mem_map.mp hid with ⟨node, hnode, rfl⟩
    rw [List.mem_singleton.mp hother]
    exact newNode_fresh entry position state.nodes node hnode
  ends := by
    intro edge hedge id hend
    rcases h.ends edge hedge id hend with ⟨node, hnode, hid⟩
    exact ⟨node, List.mem_append_left _ hnode, hid⟩

end

section

variable {lib : FlowLibrary} (hlib : lib.Documented)

include hlib

/-- An edge is on the canvas after {lit}`onConnect` if it was before, or is the new one. -/
theorem mem_connect {source target : String} {edge : FlowEdge}
    (h : edge ∈ (state.connect lib source target).edges) :
    edge ∈ state.edges ∨ edge = .between (some source) (some target) := by
  rw [connect] at h
  rcases hlib.addEdge (.between (some source) (some target)) state.edges with hsame | hadded
  · rw [hsame] at h
    exact .inl h
  · rw [hadded] at h
    simpa using h

/-- A new edge keeps the canvas saveable. -/
theorem Saveable.connect (h : state.Saveable) (source target : String) :
    (state.connect lib source target).Saveable where
  nodes := h.nodes
  edges := by
    intro edge hedge
    rcases mem_connect hlib hedge with hold | rfl
    · exact h.edges edge hold
    · exact ⟨rfl, rfl⟩

/-- An edge between two nodes of the canvas keeps its edges joined. -/
theorem Joined.connect (h : state.Joined) {source target : String}
    (hsource : ∃ node ∈ state.nodes, node.id = source)
    (htarget : ∃ node ∈ state.nodes, node.id = target) :
    (state.connect lib source target).Joined where
  unique := h.unique
  ends := by
    intro edge hedge id hend
    rcases mem_connect hlib hedge with hold | rfl
    · exact h.ends edge hold id hend
    · rcases hend with hend | hend
      · cases hend
        exact hsource
      · cases hend
        exact htarget

/-- The canvas's edge changes only remove edges. -/
theorem mem_changeEdges {changes : List EdgeChange} {edge : FlowEdge}
    (h : edge ∈ (state.changeEdges lib changes).edges) : edge ∈ state.edges := by
  rw [changeEdges, hlib.applyEdgeChanges] at h
  exact (List.mem_filter.mp h).1

/-- The nodes that React Flow leaves. -/
theorem mem_changeNodes {changes : List NodeChange} {node : EtlNode}
    (h : node ∈ (state.changeNodes lib changes).nodes) :
    ∃ other ∈ state.nodes, node.id = other.id ∧ node.nodeType = other.nodeType := by
  rcases hlib.applyNodeChanges changes state.nodes with ⟨move, hmove, hnodes⟩
  rw [changeNodes, hnodes] at h
  rcases List.mem_map.mp h with ⟨other, hother, rfl⟩
  exact ⟨other, (List.mem_filter.mp hother).1, (hmove other).1, (hmove other).2.1⟩

/-- The canvas's node changes keep the ids that are not removed. -/
theorem ids_changeNodes (changes : List NodeChange) :
    (state.changeNodes lib changes).nodes.map EtlNode.id =
      (state.nodes.map EtlNode.id).filter (· ∉ removedNodes changes) := by
  rcases hlib.applyNodeChanges changes state.nodes with ⟨move, hmove, hnodes⟩
  have hids : EtlNode.id ∘ move = EtlNode.id := funext fun node => (hmove node).1
  rw [changeNodes, hnodes, List.map_map, hids, List.filter_map]
  rfl

end

/-- Editing a config keeps the ids. -/
theorem ids_updateConfig (nodeId : String) (config : Fields) :
    (state.updateConfig nodeId config).nodes.map EtlNode.id = state.nodes.map EtlNode.id := by
  rw [updateConfig, List.map_map]
  apply List.map_congr_left
  intro node _
  rw [Function.comp_apply]
  split
  · rfl
  · rfl

/-- Editing a config keeps the canvas saveable. -/
theorem Saveable.updateConfig (h : state.Saveable) (nodeId : String) (config : Fields) :
    (state.updateConfig nodeId config).Saveable := by
  apply h.of_mem
  · intro node hnode
    rcases List.mem_map.mp hnode with ⟨other, hother, rfl⟩
    refine ⟨other, hother, ?_⟩
    split
    · exact ⟨rfl, rfl⟩
    · exact ⟨rfl, rfl⟩
  · exact fun _ hedge => hedge

/-- Deleting a node keeps the canvas saveable. -/
theorem Saveable.deleteNode (h : state.Saveable) (nodeId : String) :
    (state.deleteNode nodeId).Saveable := by
  apply h.of_mem
  · intro node hnode
    exact ⟨node, (List.mem_filter.mp hnode).1, rfl, rfl⟩
  · intro edge hedge
    exact (List.mem_filter.mp hedge).1

/-- Deleting a node takes its edges with it. -/
theorem Joined.deleteNode (h : state.Joined) (nodeId : String) :
    (state.deleteNode nodeId).Joined := by
  apply h.of_removed [nodeId]
  · rw [EditorState.deleteNode, List.filter_map]
    simp [Function.comp_def]
  · intro edge hedge
    simpa [EditorState.deleteNode] using hedge

section

variable {oldId newId : String}

private theorem source_rename (edge : FlowEdge) :
    (edge.rename oldId newId).source = edge.source.map (renameId oldId newId) := by
  cases hsource : edge.source with
  | none => simp [FlowEdge.rename, FlowEdge.between, hsource]
  | some id =>
      by_cases hid : id = oldId <;>
        simp [FlowEdge.rename, FlowEdge.between, hsource, renameId, hid]

private theorem target_rename (edge : FlowEdge) :
    (edge.rename oldId newId).target = edge.target.map (renameId oldId newId) := by
  cases htarget : edge.target with
  | none => simp [FlowEdge.rename, FlowEdge.between, htarget]
  | some id =>
      by_cases hid : id = oldId <;>
        simp [FlowEdge.rename, FlowEdge.between, htarget, renameId, hid]

private theorem id_rename (node : EtlNode) :
    (node.rename oldId newId).id = renameId oldId newId node.id := by
  unfold EtlNode.rename renameId
  split
  · rfl
  · rfl

private theorem ids_rename (nodes : List EtlNode) :
    (nodes.map (EtlNode.rename oldId newId)).map EtlNode.id =
      (nodes.map EtlNode.id).map (renameId oldId newId) := by
  rw [List.map_map, List.map_map]
  apply List.map_congr_left
  intro node _
  exact id_rename node

end

/-- A rename that goes through keeps the canvas saveable. -/
theorem Saveable.renameNode (h : state.Saveable) {oldId newId : String} {state' : EditorState}
    (hrename : renameNode oldId newId state = some state') : state'.Saveable := by
  rcases renameNode_eq_some hrename with ⟨hpattern, _, rfl⟩
  constructor
  · intro node hnode
    rcases List.mem_map.mp hnode with ⟨other, hother, rfl⟩
    rcases h.nodes other hother with ⟨hid, htype⟩
    unfold EtlNode.rename
    split
    · exact ⟨hpattern, htype⟩
    · exact ⟨hid, htype⟩
  · intro edge hedge
    rcases List.mem_map.mp hedge with ⟨other, hother, rfl⟩
    rw [source_rename, target_rename, Option.isSome_map, Option.isSome_map]
    exact h.edges other hother

/-- A rename that goes through carries the edges along. -/
theorem Joined.renameNode (h : state.Joined) {oldId newId : String} {state' : EditorState}
    (hrename : renameNode oldId newId state = some state') : state'.Joined := by
  rcases renameNode_eq_some hrename with ⟨_, hfresh, rfl⟩
  constructor
  · rw [ids_rename]
    apply h.unique.map_on
    intro id hid other hother hsame
    have hne : ∀ id ∈ state.nodes.map EtlNode.id, id ≠ newId := by
      intro id hid
      rcases List.mem_map.mp hid with ⟨node, hnode, rfl⟩
      exact hfresh node hnode
    exact renameId_inj (hne id hid) (hne other hother) hsame
  · intro edge hedge id hend
    rcases List.mem_map.mp hedge with ⟨other, hother, rfl⟩
    rw [source_rename, target_rename, Option.map_eq_some_iff, Option.map_eq_some_iff] at hend
    have hbefore : ∃ old, (other.source = some old ∨ other.target = some old) ∧
        renameId oldId newId old = id := by
      rcases hend with ⟨old, hold, hid⟩ | ⟨old, hold, hid⟩
      · exact ⟨old, .inl hold, hid⟩
      · exact ⟨old, .inr hold, hid⟩
    rcases hbefore with ⟨old, hold, rfl⟩
    rcases h.ends other hother old hold with ⟨node, hnode, rfl⟩
    exact ⟨_, List.mem_map_of_mem hnode, id_rename node⟩

end EditorState

/-! ## What is saved after an edit -/

/-- What is saved depends on the specs of the nodes and on the edges only. -/
theorem EditorState.saved_eq {canvas canvas' : EditorState} (pipelineId : String)
    (hnodes : canvas'.nodes.map EtlNode.toSpec = canvas.nodes.map EtlNode.toSpec)
    (hedges : canvas'.edges = canvas.edges) :
    canvas'.saved pipelineId = canvas.saved pipelineId := by
  rw [EditorState.saved, EditorState.saved, flowToSpec, flowToSpec, hnodes, hedges]

/-- Without removed nodes React Flow leaves the saved nodes alone. -/
theorem EditorState.toSpec_changeNodes {lib : FlowLibrary} (hlib : lib.Documented)
    (canvas : EditorState) {changes : List NodeChange} (hnone : removedNodes changes = []) :
    (canvas.changeNodes lib changes).nodes.map EtlNode.toSpec =
      canvas.nodes.map EtlNode.toSpec := by
  rcases hlib.applyNodeChanges changes canvas.nodes with ⟨move, hmove, hnodes⟩
  have hsame : EtlNode.toSpec ∘ move = EtlNode.toSpec := by
    funext node
    rcases hmove node with ⟨hid, htype, hconfig⟩
    rw [Function.comp_apply, EtlNode.toSpec, EtlNode.toSpec, hid, htype, hconfig]
  rw [EditorState.changeNodes, hnodes, hnone, List.map_map, hsame]
  simp

end EtlTool
