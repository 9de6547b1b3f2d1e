import EtlTool.Editor.Canvas
import EtlTool.Foundations.EventHistories

/-!
# Editing sessions

Between opening a pipeline and leaving it, the user edits the canvas in any order and saves
now and then, and a save is under way while the user goes on.

Main results:

- Theorem {lit}`editorSession_keeps`: whatever is done, the server accepts what the editor
  saves, and edits make neither a second node of one id nor an edge without its nodes.
- Theorem {lit}`editorSession_indicates`: if nothing is edited while a save is under way, then
  without unsaved changes the server has the pipeline of the canvas, but for the ports.

Current gaps:

- Documents that do not list their edges with {lit}`from` and {lit}`to`, as the editor's type of
  a document says: the server accepts other spellings, which the editor does not read.
- The states of a run on the canvas, and the error that is shown.
- A request that the browser gave up and that the server handles later.
- Other clients that change the pipeline.
-/

namespace EtlTool

open Interleaving RelatedLists

/-! ## The session -/

/-- A save that is under way, and whether the server has stored the document. -/
structure SaveRequest where
  document : Value
  stored : Bool

/-- The editor, and the document that the server has. -/
structure EditorSession where
  canvas : EditorState
  selectedId : Option String
  dirty : Bool
  saveError : Option String
  /-- {lit}`saving` is whether there is one. -/
  request : Option SaveRequest
  server : Value

/-- {lit}`selectedNode`. -/
def EditorSession.selectedNode? (s : EditorSession) : Option EtlNode :=
  s.canvas.nodes.find? fun node => s.selectedId = some node.id

/-- The session that opens on a document. -/
def EditorSession.opened (document : Fields) (nodes : List EtlNode) (edges : List FlowEdge) :
    EditorSession where
  canvas := ⟨nodes, edges⟩
  selectedId := none
  dirty := false
  saveError := none
  request := none
  server := .dict document

/-- What happens in a session: what the user does, and what becomes of a save. -/
inductive EditorEvent where
  | addNode (type : String) (position : Option Position)
  | connect (source target : String)
  | nodesChange (changes : List NodeChange)
  | edgesChange (changes : List EdgeChange)
  | nodeClick (id : String)
  | paneClick
  | changeConfig (config : Fields)
  | rename (newId : String)
  | delete
  | save
  | serverStores
  | saveSucceeds
  | saveFails (message : String)

/-- The changes for which {lit}`markDirty` sets the flag. -/
def NodeChange.marks : NodeChange → Bool
  | .select _ _ => false
  | .dimensions _ => false
  | _ => true

/-- The changes for which {lit}`markDirty` sets the flag. -/
def EdgeChange.marks : EdgeChange → Bool
  | .select _ _ => false
  | .remove _ => true

namespace EditorSession

section

variable (lib : FlowLibrary) (pipelineId : String)

/-- One event; {lean}`none` when it cannot happen. -/
def next (s : EditorSession) : EditorEvent → Option EditorSession
  | .addNode type position =>
      match paletteType? type with
      | none => some s
      | some entry => some { s with canvas := s.canvas.addNode entry position, dirty := true }
  | .connect source target =>
      some { s with canvas := s.canvas.connect lib source target, dirty := true }
  | .nodesChange changes =>
      some
        { s with
          canvas := s.canvas.changeNodes lib changes
          dirty := s.dirty || changes.any NodeChange.marks }
  | .edgesChange changes =>
      some
        { s with
          canvas := s.canvas.changeEdges lib changes
          dirty := s.dirty || changes.any EdgeChange.marks }
  | .nodeClick id => some { s with selectedId := some id }
  | .paneClick => some { s with selectedId := none }
  | .changeConfig config =>
      match s.selectedNode? with
      | none => some s
      | some node => some { s with canvas := s.canvas.updateConfig node.id config, dirty := true }
  | .rename newId =>
      match s.selectedNode? with
      | none => some s
      | some node =>
          match renameNode node.id newId s.canvas with
          | none => some s
          | some canvas =>
              some { s with canvas := canvas, selectedId := some newId, dirty := true }
  | .delete =>
      match s.selectedNode? with
      | none => some s
      | some node =>
          some
            { s with
              canvas := s.canvas.deleteNode node.id
              selectedId := if s.selectedId = some node.id then none else s.selectedId
              dirty := true }
  | .save =>
      -- The button is disabled without changes, and while a save is under way.
      if s.dirty && s.request.isNone then
        some { s with saveError := none, request := some ⟨s.canvas.saved pipelineId, false⟩ }
      else none
  | .serverStores =>
      match s.request with
      | none => none
      | some request =>
          if !request.stored && (parsePipelineSpec? request.document).isSome then
            some
              { s with
                server := request.document
                request := some { request with stored := true } }
          else none
  | .saveSucceeds =>
      match s.request with
      | none => none
      | some request =>
          if request.stored then some { s with dirty := false, request := none } else none
  | .saveFails message =>
      match s.request with
      | none => none
      | some _ => some { s with saveError := some message, request := none }

end

/-- What React Flow delivers: a connection is drawn between nodes of the canvas, and the edges
at a node are removed before the node. -/
def Possible (s : EditorSession) : EditorEvent → Prop
  | .connect source target =>
      (∃ node ∈ s.canvas.nodes, node.id = source) ∧ ∃ node ∈ s.canvas.nodes, node.id = target
  | .nodesChange changes =>
      ∀ id ∈ removedNodes changes, ∀ edge ∈ s.canvas.edges,
        edge.source ≠ some id ∧ edge.target ≠ some id
  | _ => True

end EditorSession

instance decidablePossible (s : EditorSession) : ∀ event, Decidable (s.Possible event)
  | .connect _ _ => inferInstanceAs (Decidable (_ ∧ _))
  | .nodesChange _ => inferInstanceAs (Decidable (∀ _ ∈ _, ∀ _ ∈ _, _ ∧ _))
  | .addNode _ _ | .edgesChange _ | .nodeClick _ | .paneClick | .changeConfig _ | .rename _
  | .delete | .save | .serverStores | .saveSucceeds | .saveFails _ => isTrue trivial

/-! ## Steps -/

/-- What an event does to the canvas, if it does anything. -/
inductive CanvasEdit (lib : FlowLibrary) (canvas : EditorState) : EditorEvent → EditorState → Prop
  | addNode (type : String) (position : Option Position) (entry : PaletteType)
      (hentry : paletteType? type = some entry) :
      CanvasEdit lib canvas (.addNode type position) (canvas.addNode entry position)
  | connect (source target : String) :
      CanvasEdit lib canvas (.connect source target) (canvas.connect lib source target)
  | nodesChange (changes : List NodeChange) :
      CanvasEdit lib canvas (.nodesChange changes) (canvas.changeNodes lib changes)
  | edgesChange (changes : List EdgeChange) :
      CanvasEdit lib canvas (.edgesChange changes) (canvas.changeEdges lib changes)
  | changeConfig (config : Fields) (nodeId : String) :
      CanvasEdit lib canvas (.changeConfig config) (canvas.updateConfig nodeId config)
  | rename (newId oldId : String) (renamed : EditorState)
      (hrename : renameNode oldId newId canvas = some renamed) :
      CanvasEdit lib canvas (.rename newId) renamed
  | delete (nodeId : String) : CanvasEdit lib canvas .delete (canvas.deleteNode nodeId)

/-- Whether {lit}`dirty` is set with an edit. -/
def EditorEvent.marks : EditorEvent → Bool
  | .nodesChange changes => changes.any NodeChange.marks
  | .edgesChange changes => changes.any EdgeChange.marks
  | _ => true

namespace EditorSession

/-- What one event can do to a session. -/
inductive Step (lib : FlowLibrary) (pipelineId : String) (s : EditorSession) :
    EditorEvent → EditorSession → Prop
  | idle (event : EditorEvent) (selectedId : Option String) :
      Step lib pipelineId s event { s with selectedId := selectedId }
  | edit (event : EditorEvent) (canvas : EditorState) (selectedId : Option String)
      (hedit : CanvasEdit lib s.canvas event canvas) :
      Step lib pipelineId s event
        { s with canvas := canvas, selectedId := selectedId, dirty := s.dirty || event.marks }
  | save (hdirty : s.dirty = true) (hrequest : s.request = none) :
      Step lib pipelineId s .save
        { s with saveError := none, request := some ⟨s.canvas.saved pipelineId, false⟩ }
  | stores (request : SaveRequest) (hrequest : s.request = some request)
      (haccepted : (parsePipelineSpec? request.document).isSome) :
      Step lib pipelineId s .serverStores
        { s with server := request.document, request := some { request with stored := true } }
  | succeeds (request : SaveRequest) (hrequest : s.request = some request)
      (hstored : request.stored = true) :
      Step lib pipelineId s .saveSucceeds { s with dirty := false, request := none }
  | fails (message : String) (request : SaveRequest) (hrequest : s.request = some request) :
      Step lib pipelineId s (.saveFails message)
        { s with saveError := some message, request := none }

section

variable {lib : FlowLibrary} {pipelineId : String} {s s' : EditorSession} {event : EditorEvent}

/-- An event that edits the canvas always sets {lit}`dirty`, but for changes that React Flow
makes to nodes and edges. -/
theorem Step.edited {canvas : EditorState} {selectedId : Option String}
    (hedit : CanvasEdit lib s.canvas event canvas) (hmarks : event.marks = true) :
    Step lib pipelineId s event
      { s with canvas := canvas, selectedId := selectedId, dirty := true } := by
  have hstep : Step lib pipelineId s event _ := .edit event canvas selectedId hedit
  rw [hmarks, Bool.or_true] at hstep
  exact hstep

private theorem step_of_next (h : next lib pipelineId s event = some s') :
    Step lib pipelineId s event s' := by
  cases event with
  | addNode type position =>
      cases hentry : paletteType? type with
      | none =>
          simp only [next, hentry] at h
          cases h
          exact .idle _ s.selectedId
      | some entry =>
          simp only [next, hentry] at h
          cases h
          exact .edited (.addNode type position entry hentry) rfl
  | connect source target =>
      cases h
      exact .edited (.connect source target) rfl
  | nodesChange changes =>
      cases h
      exact .edit _ _ s.selectedId (.nodesChange changes)
  | edgesChange changes =>
      cases h
      exact .edit _ _ s.selectedId (.edgesChange changes)
  | nodeClick id =>
      cases h
      exact .idle _ (some id)
  | paneClick =>
      cases h
      exact .idle _ none
  | changeConfig config =>
      cases hselected : s.selectedNode? with
      | none =>
          simp only [next, hselected] at h
          cases h
          exact .idle _ s.selectedId
      | some node =>
          simp only [next, hselected] at h
          cases h
          exact .edited (.changeConfig config node.id) rfl
  | rename newId =>
      cases hselected : s.selectedNode? with
      | none =>
          simp only [next, hselected] at h
          cases h
          exact .idle _ s.selectedId
      | some node =>
          cases hrename : renameNode node.id newId s.canvas with
          | none =>
              simp only [next, hselected, hrename] at h
              cases h
              exact .idle _ s.selectedId
          | some canvas =>
              simp only [next, hselected, hrename] at h
              cases h
              exact .edited (.rename newId node.id canvas hrename) rfl
  | delete =>
      cases hselected : s.selectedNode? with
      | none =>
          simp only [next, hselected] at h
          cases h
          exact .idle _ s.selectedId
      | some node =>
          simp only [next, hselected] at h
          cases h
          exact .edited (.delete node.id) rfl
  | save =>
      simp only [next] at h
      split at h
      · rename_i hbutton
        cases h
        rw [Bool.and_eq_true, Option.isNone_iff_eq_none] at hbutton
        exact .save hbutton.1 hbutton.2
      · cases h
  | serverStores =>
      cases hrequest : s.request with
      | none =>
          simp only [next, hrequest] at h
          cases h
      | some request =>
          simp only [next, hrequest] at h
          split at h
          · rename_i haccepted
            cases h
            exact .stores request hrequest (Bool.and_eq_true_iff.mp haccepted).2
          · cases h
  | saveSucceeds =>
      cases hrequest : s.request with
      | none =>
          simp only [next, hrequest] at h
          cases h
      | some request =>
          simp only [next, hrequest] at h
          split at h
          · rename_i hstored
            cases h
            exact .succeeds request hrequest hstored
          · cases h
  | saveFails message =>
      cases hrequest : s.request with
      | none =>
          simp only [next, hrequest] at h
          cases h
      | some request =>
          simp only [next, hrequest] at h
          cases h
          exact .fails message request hrequest

end

end EditorSession

/-! ## What edits keep -/

section

variable {lib : FlowLibrary} {canvas canvas' : EditorState} {event : EditorEvent}

private theorem CanvasEdit.saveable (hlib : lib.Documented)
    (hedit : CanvasEdit lib canvas event canvas')
    (h : canvas.Saveable) : canvas'.Saveable := by
  cases hedit with
  | addNode type position entry hentry => exact h.addNode (paletteTypes_named hentry)
  | connect source target => exact h.connect hlib source target
  | nodesChange changes =>
      apply h.of_mem
      · exact fun node hnode => EditorState.mem_changeNodes hlib hnode
      · exact fun _ hedge => hedge
  | edgesChange changes =>
      apply h.of_mem
      · exact fun node hnode => ⟨node, hnode, rfl, rfl⟩
      · exact fun edge hedge => EditorState.mem_changeEdges hlib hedge
  | changeConfig config nodeId => exact h.updateConfig nodeId config
  | rename newId oldId renamed hrename => exact h.renameNode hrename
  | delete nodeId => exact h.deleteNode nodeId

end

private theorem CanvasEdit.joined {lib : FlowLibrary} {s : EditorSession} {canvas' : EditorState}
    {event : EditorEvent} (hlib : lib.Documented)
    (hedit : CanvasEdit lib s.canvas event canvas') (hpossible : s.Possible event)
    (h : s.canvas.Joined) : canvas'.Joined := by
  cases hedit with
  | addNode type position entry hentry => exact h.addNode
  | connect source target => exact h.connect hlib hpossible.1 hpossible.2
  | nodesChange changes =>
      apply h.of_removed (removedNodes changes) (EditorState.ids_changeNodes hlib changes)
      intro edge hedge
      exact ⟨hedge, fun id hid => hpossible id hid edge hedge⟩
  | edgesChange changes =>
      apply h.of_ids
      · rfl
      · exact fun edge hedge => EditorState.mem_changeEdges hlib hedge
  | changeConfig config nodeId =>
      apply h.of_ids
      · exact EditorState.ids_updateConfig nodeId config
      · exact fun _ hedge => hedge
  | rename newId oldId renamed hrename => exact h.renameNode hrename
  | delete nodeId => exact h.deleteNode nodeId

private theorem removedNodes_of_unmarked {changes : List NodeChange}
    (h : changes.any NodeChange.marks = false) : removedNodes changes = [] := by
  apply List.filterMap_eq_nil_iff.mpr
  intro change hchange
  have hunmarked := List.any_eq_false.mp h change hchange
  cases change with
  | remove id => exact absurd rfl hunmarked
  | _ => rfl

private theorem removedEdges_of_unmarked {changes : List EdgeChange}
    (h : changes.any EdgeChange.marks = false) : removedEdges changes = [] := by
  apply List.filterMap_eq_nil_iff.mpr
  intro change hchange
  have hunmarked := List.any_eq_false.mp h change hchange
  cases change with
  | remove id => exact absurd rfl hunmarked
  | select id selected => rfl

/-- An edit that does not set {lit}`dirty` changes nothing of the saved document. -/
theorem CanvasEdit.saved_of_unmarked {lib : FlowLibrary} {canvas canvas' : EditorState}
    {event : EditorEvent} (hlib : lib.Documented)
    (hedit : CanvasEdit lib canvas event canvas') (hmarks : event.marks = false)
    (pipelineId : String) : canvas'.saved pipelineId = canvas.saved pipelineId := by
  cases hedit with
  | nodesChange changes =>
      apply EditorState.saved_eq
      · exact canvas.toSpec_changeNodes hlib (removedNodes_of_unmarked hmarks)
      · rfl
  | edgesChange changes =>
      apply EditorState.saved_eq
      · rfl
      · rw [EditorState.changeEdges, hlib.applyEdgeChanges, removedEdges_of_unmarked hmarks]
        simp
  | _ => cases hmarks

/-! ## Every session -/

/-- The document has the pipeline of the canvas, but for the ports. -/
def HoldsCanvas (pipelineId : String) (document : Value) (canvas : EditorState) : Prop :=
  ∃ stored, parsePipelineSpec? document = some stored ∧
    parsePipelineSpec? (canvas.saved pipelineId) =
      some { stored with edges := stored.edges.map EdgeSpec.withFixedPorts }

/-- What is saved holds the canvas. -/
theorem holdsCanvas_saved {pipelineId : String} {canvas : EditorState} {spec : PipelineSpec}
    (h : parsePipelineSpec? (canvas.saved pipelineId) = some spec) :
    HoldsCanvas pipelineId (canvas.saved pipelineId) canvas := by
  refine ⟨spec, h, ?_⟩
  have hfixed : spec.edges.map EdgeSpec.withFixedPorts = spec.edges := by
    rcases EditorState.parse_saved_iff.mp h with ⟨_, _, hedges⟩
    rw [List.map_congr_left (g := id), List.map_id]
    intro edgeSpec hedgeSpec
    rcases exists_mem_of_forall₂ hedges.flip hedgeSpec with ⟨edge, _, _, _, hfrom, hto⟩
    rw [EdgeSpec.withFixedPorts, ← hfrom, ← hto]
    rfl
  rw [hfixed]
  exact h

namespace EditorSession

/-- The document was sent by a save of the session so far. -/
def Sent (lib : FlowLibrary) (pipelineId : String) (start : EditorSession)
    (past : List EditorEvent) (document : Value) : Prop :=
  ∃ before after t, past = before ++ .save :: after ∧
    exec (next lib pipelineId) start before = some t ∧ document = t.canvas.saved pipelineId

/-- What holds of a session, however it goes on. -/
structure Kept (lib : FlowLibrary) (spec : PipelineSpec) (start : EditorSession)
    (events : List EditorEvent) (s : EditorSession) : Prop where
  /-- The server accepts what would be saved now. -/
  accepted : ∃ saved, parsePipelineSpec? (s.canvas.saved spec.pipelineId) = some saved
  /-- If in the opened pipeline ids name nodes and edges join them, they still do. -/
  joined : (spec.nodes.map NodeSpec.id).Nodup → spec.EdgesKnown → ∀ saved,
    parsePipelineSpec? (s.canvas.saved spec.pipelineId) = some saved →
      (saved.nodes.map NodeSpec.id).Nodup ∧ saved.EdgesKnown
  /-- The server has the opened document or one that a save has sent. -/
  server : s.server = start.server ∨ Sent lib spec.pipelineId start events s.server

section

variable {lib : FlowLibrary} {pipelineId : String} {start s s' : EditorSession}
  {past : List EditorEvent} {event : EditorEvent}

theorem Sent.append {document : Value} (h : Sent lib pipelineId start past document) :
    Sent lib pipelineId start (past ++ [event]) document := by
  rcases h with ⟨before, after, t, rfl, ht, hdocument⟩
  exact ⟨before, after ++ [event], t, by simp, ht, hdocument⟩

private theorem saveable_step (hlib : lib.Documented) (h : s.canvas.Saveable)
    (hstep : Step lib pipelineId s event s') : s'.canvas.Saveable := by
  cases hstep with
  | edit event canvas selectedId hedit => exact hedit.saveable hlib h
  | _ => exact h

private theorem joined_step (hlib : lib.Documented) (h : s.canvas.Joined)
    (hpossible : s.Possible event)
    (hstep : Step lib pipelineId s event s') : s'.canvas.Joined := by
  cases hstep with
  | edit event canvas selectedId hedit => exact hedit.joined hlib hpossible h
  | _ => exact h

/-- Where the documents of the server and of the save under way come from. -/
structure Origins (lib : FlowLibrary) (pipelineId : String) (start : EditorSession)
    (past : List EditorEvent) (s : EditorSession) : Prop where
  run : exec (next lib pipelineId) start past = some s
  server : s.server = start.server ∨ Sent lib pipelineId start past s.server
  request : ∀ request, s.request = some request →
    Sent lib pipelineId start past request.document

private theorem origins_step (h : Origins lib pipelineId start past s)
    (hnext : next lib pipelineId s event = some s') :
    Origins lib pipelineId start (past ++ [event]) s' := by
  have hrun : exec (next lib pipelineId) start (past ++ [event]) = some s' :=
    exec_append h.run (exec_cons_eq_some.mpr ⟨s', hnext, rfl⟩)
  have hserver : s.server = start.server ∨
      Sent lib pipelineId start (past ++ [event]) s.server :=
    h.server.imp_right Sent.append
  have hrequest : ∀ request, s.request = some request →
      Sent lib pipelineId start (past ++ [event]) request.document :=
    fun request hrequest => (h.request request hrequest).append
  cases step_of_next hnext with
  | idle event selectedId => exact ⟨hrun, hserver, hrequest⟩
  | edit event canvas selectedId hedit => exact ⟨hrun, hserver, hrequest⟩
  | save hdirty hnone =>
      refine ⟨hrun, hserver, ?_⟩
      intro request hsame
      cases hsame
      exact ⟨past, [], s, rfl, h.run, rfl⟩
  | stores request hpending haccepted =>
      refine ⟨hrun, .inr (hrequest request hpending), ?_⟩
      intro request' hsame
      cases hsame
      exact hrequest request hpending
  | succeeds request hpending hstored =>
      exact ⟨hrun, hserver, fun _ hsame => nomatch hsame⟩
  | fails message request hpending =>
      exact ⟨hrun, hserver, fun _ hsame => nomatch hsame⟩

end

/-- Nothing is edited while a save is under way. -/
def Quiet (lib : FlowLibrary) (pipelineId : String) (s : EditorSession) (event : EditorEvent) :
    Prop :=
  s.request ≠ none → ∀ s' ∈ next lib pipelineId s event,
    s'.canvas.saved pipelineId = s.canvas.saved pipelineId

instance (lib : FlowLibrary) (pipelineId : String) (s : EditorSession) (event : EditorEvent) :
    Decidable (s.Quiet lib pipelineId event) :=
  inferInstanceAs (Decidable (_ → _))

/-- Without unsaved changes the server has the canvas, and so does the save under way. -/
structure Indicates (pipelineId : String) (s : EditorSession) : Prop where
  saveable : s.canvas.Saveable
  clean : s.dirty = false → HoldsCanvas pipelineId s.server s.canvas
  pending : ∀ request, s.request = some request →
    request.document = s.canvas.saved pipelineId ∧
      (request.stored = true → s.server = request.document)

section

variable {lib : FlowLibrary} {pipelineId : String} {s s' : EditorSession} {event : EditorEvent}

private theorem holdsCanvas_congr {document : Value} {canvas canvas' : EditorState}
    (hsame : canvas'.saved pipelineId = canvas.saved pipelineId)
    (h : HoldsCanvas pipelineId document canvas) : HoldsCanvas pipelineId document canvas' := by
  rw [HoldsCanvas, hsame]
  exact h

private theorem indicates_step (hlib : lib.Documented) (hid : pipelineId ≠ "")
    (h : Indicates pipelineId s) (hquiet : s.Quiet lib pipelineId event)
    (hnext : next lib pipelineId s event = some s') : Indicates pipelineId s' := by
  have hsaveable := saveable_step hlib h.saveable (step_of_next hnext)
  have hholds : HoldsCanvas pipelineId (s.canvas.saved pipelineId) s.canvas := by
    rcases (EditorState.saveable_iff hid).mp h.saveable with ⟨saved, hsaved⟩
    exact holdsCanvas_saved hsaved
  cases step_of_next hnext with
  | idle event selectedId => exact ⟨hsaveable, h.clean, h.pending⟩
  | edit event canvas selectedId hedit =>
      refine ⟨hsaveable, ?_, ?_⟩
      · intro hclean
        rcases Bool.or_eq_false_iff.mp hclean with ⟨hbefore, hmarks⟩
        have hsame := hedit.saved_of_unmarked hlib hmarks pipelineId
        exact holdsCanvas_congr hsame (h.clean hbefore)
      · intro request hrequest
        have hsame := hquiet (fun hnone => nomatch hnone.symm.trans hrequest) _ hnext
        rcases h.pending request hrequest with ⟨hdocument, hserver⟩
        exact ⟨hdocument.trans hsame.symm, hserver⟩
  | save hdirty hnone =>
      refine ⟨hsaveable, ?_, ?_⟩
      · intro hclean
        cases hdirty.symm.trans hclean
      · intro request hrequest
        cases hrequest
        exact ⟨rfl, fun hstored => nomatch hstored⟩
  | stores request hrequest haccepted =>
      rcases h.pending request hrequest with ⟨hdocument, _⟩
      refine ⟨hsaveable, ?_, ?_⟩
      · intro _
        exact hdocument ▸ hholds
      · intro request' hrequest'
        cases hrequest'
        exact ⟨hdocument, fun _ => rfl⟩
  | succeeds request hrequest hstored =>
      rcases h.pending request hrequest with ⟨hdocument, hserver⟩
      refine ⟨hsaveable, ?_, fun _ hsame => nomatch hsame⟩
      intro _
      exact (hserver hstored).trans hdocument ▸ hholds
  | fails message request hrequest =>
      exact ⟨hsaveable, h.clean, fun _ hsame => nomatch hsame⟩

end

end EditorSession

section

open EditorSession

variable {lib : FlowLibrary} (hlib : lib.Documented) {document : Fields} {spec : PipelineSpec}
  (haccepted : parsePipelineSpec? (.dict document) = some spec) (hlists : ListsEdges document)
  {positions : OrderedDict String Position} {nodes : List EtlNode} {edges : List FlowEdge}
  (hflow : specToFlow document positions = some (nodes, edges))

include haccepted hlists hflow

/-- The server has what it opened. -/
theorem holdsCanvas_opened : HoldsCanvas spec.pipelineId (.dict document) ⟨nodes, edges⟩ := by
  rcases specToFlow_accepted haccepted hlists positions with ⟨nodes', edges', hflow', hsaved⟩
  cases hflow.symm.trans hflow'
  exact ⟨spec, haccepted, hsaved⟩

private theorem saveable_opened : (EditorState.mk nodes edges).Saveable := by
  rcases holdsCanvas_opened haccepted hlists hflow with ⟨_, _, hsaved⟩
  exact (EditorState.saveable_iff spec.pipelineId_nonempty).mpr ⟨_, hsaved⟩

private theorem joined_opened (hids : (spec.nodes.map NodeSpec.id).Nodup)
    (hedges : spec.EdgesKnown) :
    (EditorState.mk nodes edges).Joined := by
  rcases holdsCanvas_opened haccepted hlists hflow with ⟨stored, hstored, hsaved⟩
  cases haccepted.symm.trans hstored
  refine (EditorState.joined_iff hsaved).mpr ⟨hids, ?_⟩
  intro edge hedge
  rcases List.mem_map.mp hedge with ⟨other, hother, rfl⟩
  exact hedges other hother

include hlib

/-- Whatever the user does with an opened document that lists its edges, the server accepts
what the editor saves.  Edits make neither a second node of one id nor an edge without its
nodes, and the server has the document that was opened or one that a save has sent. -/
theorem editorSession_keeps {events : List EditorEvent} {s : EditorSession}
    (hpossible : Guarded (next lib spec.pipelineId) Possible (opened document nodes edges) events)
    (hrun : exec (next lib spec.pipelineId) (opened document nodes edges) events = some s) :
    Kept lib spec (opened document nodes edges) events s := by
  have hsaveable : s.canvas.Saveable :=
    exec_invariant (fun t event t' ht hnext => saveable_step hlib ht (step_of_next hnext))
      (saveable_opened haccepted hlists hflow) hrun
  have hstart : Origins lib spec.pipelineId (opened document nodes edges) []
      (opened document nodes edges) :=
    ⟨rfl, .inl rfl, fun _ hsame => nomatch hsame⟩
  have horigins := exec_past _ (fun past t event t' ht hnext => origins_step ht hnext) hstart hrun
  refine ⟨(EditorState.saveable_iff spec.pipelineId_nonempty).mp hsaveable, ?_, horigins.server⟩
  intro hids hedges saved hsaved
  have hjoined : s.canvas.Joined :=
    guarded_invariant (fun t event t' ht hok hnext => joined_step hlib ht hok (step_of_next hnext))
      (joined_opened haccepted hlists hflow hids hedges) hpossible hrun
  exact (EditorState.joined_iff hsaved).mp hjoined

end

/-! ## A session on two nodes -/

namespace Samples

/-- Move the nodes that are dragged. -/
def applyPosition (node : EtlNode) : NodeChange → EtlNode
  | .position id position => if node.id = id then { node with position := position } else node
  | _ => node

/-- React Flow, as far as the sessions here need it. -/
def flowLibrary : FlowLibrary where
  addEdge := fun edge edges =>
    if edges.any fun other => other.source = edge.source ∧ other.target = edge.target then edges
    else edges ++ [edge]
  applyNodeChanges := fun changes nodes =>
    (nodes.filter fun node => node.id ∉ removedNodes changes).map fun node =>
      changes.foldl applyPosition node
  applyEdgeChanges := fun changes edges => edges.filter fun edge => edge.id ∉ removedEdges changes

private theorem foldl_applyPosition (changes : List NodeChange) (node : EtlNode) :
    (changes.foldl applyPosition node).id = node.id ∧
      (changes.foldl applyPosition node).nodeType = node.nodeType ∧
      (changes.foldl applyPosition node).config = node.config := by
  induction changes generalizing node with
  | nil => exact ⟨rfl, rfl, rfl⟩
  | cons change rest ih =>
      have hone : (applyPosition node change).id = node.id ∧
          (applyPosition node change).nodeType = node.nodeType ∧
          (applyPosition node change).config = node.config := by
        unfold applyPosition
        split
        · split <;> exact ⟨rfl, rfl, rfl⟩
        · exact ⟨rfl, rfl, rfl⟩
      rcases ih (applyPosition node change) with ⟨hid, htype, hconfig⟩
      exact ⟨hid.trans hone.1, htype.trans hone.2.1, hconfig.trans hone.2.2⟩

private theorem flowLibrary_documented : flowLibrary.Documented where
  addEdge := by
    intro edge edges
    unfold flowLibrary
    dsimp only
    split
    · exact .inl rfl
    · exact .inr rfl
  applyNodeChanges := by
    intro changes nodes
    exact ⟨_, foldl_applyPosition changes, rfl⟩
  applyEdgeChanges := fun _ _ => rfl

/-- The canvas of {lit}`pairDocument`. -/
def pairNodes : List EtlNode :=
  [⟨"gen", ⟨0, 0⟩, "iterator", []⟩, ⟨"sink", ⟨0, 0⟩, "file_sink", []⟩]

/-- The edges of this canvas. -/
def pairEdges : List FlowEdge :=
  [.between (some "gen") (some "sink")]

/-- A transform comes between the two nodes, one of them is renamed, and the pipeline is
saved. -/
def pairEvents : List EditorEvent :=
  [.addNode "transform" none, .connect "gen" "transform_1", .connect "transform_1" "sink",
    .edgesChange [.remove "gen->sink"], .nodeClick "gen", .rename "source", .save,
    .serverStores, .saveSucceeds]

/-- The session on {lit}`pairDocument`. -/
def pairSession : EditorSession :=
  .opened (pairDocument []) pairNodes pairEdges

end Samples

open Samples

theorem editorSession_keeps_pair :
    ∃ s, exec (EditorSession.next flowLibrary "demo") pairSession pairEvents = some s ∧
      EditorSession.Kept flowLibrary (pairSpec "out" "in") pairSession pairEvents s := by
  have haccepted : parsePipelineSpec? (.dict (pairDocument [])) = some (pairSpec "out" "in") := by
    decide +kernel
  have hflow : specToFlow (pairDocument []) .empty = some (pairNodes, pairEdges) := by
    decide +kernel
  have hpossible : Guarded (EditorSession.next flowLibrary "demo") EditorSession.Possible
      pairSession pairEvents := by
    decide +kernel
  have hsome : (exec (EditorSession.next flowLibrary "demo") pairSession pairEvents).isSome := by
    decide +kernel
  rcases Option.isSome_iff_exists.mp hsome with ⟨s, hrun⟩
  exact ⟨s, hrun, editorSession_keeps flowLibrary_documented haccepted
    (listsEdges_pairDocument []) hflow hpossible hrun⟩

section

open EditorSession

variable {lib : FlowLibrary} (hlib : lib.Documented) {document : Fields} {spec : PipelineSpec}
  (haccepted : parsePipelineSpec? (.dict document) = some spec) (hlists : ListsEdges document)
  {positions : OrderedDict String Position} {nodes : List EtlNode} {edges : List FlowEdge}
  (hflow : specToFlow document positions = some (nodes, edges))

include hlib haccepted hlists hflow

/-- If nothing is edited while a save is under way, then the server has the pipeline of the
canvas, but for the ports, whenever the editor shows no unsaved changes of an opened document
that lists its edges. -/
theorem editorSession_indicates {events : List EditorEvent} {s : EditorSession}
    (hquiet : Guarded (next lib spec.pipelineId) (Quiet lib spec.pipelineId)
      (opened document nodes edges) events)
    (hrun : exec (next lib spec.pipelineId) (opened document nodes edges) events = some s) :
    s.dirty = false → HoldsCanvas spec.pipelineId s.server s.canvas := by
  have hindicates : Indicates spec.pipelineId s := by
    refine guarded_invariant (fun t event t' ht hok hnext =>
      indicates_step hlib spec.pipelineId_nonempty ht hok hnext) ?_ hquiet hrun
    exact ⟨saveable_opened haccepted hlists hflow,
      fun _ => holdsCanvas_opened haccepted hlists hflow, fun _ hsame => nomatch hsame⟩
  exact hindicates.clean

end

theorem editorSession_indicates_pair :
    ∃ s, exec (EditorSession.next flowLibrary "demo") pairSession pairEvents = some s ∧
      s.dirty = false ∧ HoldsCanvas "demo" s.server s.canvas := by
  have haccepted : parsePipelineSpec? (.dict (pairDocument [])) = some (pairSpec "out" "in") := by
    decide +kernel
  have hflow : specToFlow (pairDocument []) .empty = some (pairNodes, pairEdges) := by
    decide +kernel
  have hquiet : Guarded (EditorSession.next flowLibrary "demo")
      (EditorSession.Quiet flowLibrary "demo") pairSession pairEvents := by
    decide +kernel
  have hdirty : (exec (EditorSession.next flowLibrary "demo") pairSession pairEvents).map
      EditorSession.dirty = some false := by
    decide +kernel
  rcases Option.map_eq_some_iff.mp hdirty with ⟨s, hrun, hclean⟩
  exact ⟨s, hrun, hclean, editorSession_indicates flowLibrary_documented haccepted
    (listsEdges_pairDocument []) hflow hquiet hrun hclean⟩

/-- A node that is added while a save is under way is neither saved nor marked as unsaved. -/
example : (exec (EditorSession.next flowLibrary "demo") pairSession
    [.addNode "merge" none, .save, .serverStores, .addNode "merge" none, .saveSucceeds]).any
      (fun s => !s.dirty && s.request.isNone && s.server ≠ s.canvas.saved "demo") = true := by
  decide +kernel

end EtlTool
