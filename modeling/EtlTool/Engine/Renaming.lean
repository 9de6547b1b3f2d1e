import EtlTool.Core.ReferenceRenaming
import EtlTool.Engine.GraphConditions

/-!
# Renaming a node of a document

What renaming a node means: its id, the ends of its edges and the references that name it
get the new id, and nothing else changes.  A document without issues stays without issues
when the new id is no node of it: the graph is relabelled along an injection, the port
counts move with their node, and a config is only checked when it has no references, in
which case the renaming leaves it alone.

Main results:

- Theorem {lit}`graphConditions_rename`: the conditions on the graph survive the renaming.
- Theorem {lit}`portCountsOf_rename`: so do the counts of the ports of every node.
- Theorem {lit}`validatePipeline_rename`: a renamed document has no issues if the document
  has none.
-/

namespace EtlTool

/-! ## The renamed document -/

/-- An id after the renaming. -/
def renameId (old new id : String) : String :=
  if id = old then new else id

private theorem renameId_pattern {old new id : String} (hnew : matchesNodeIdPattern new = true)
    (hid : matchesNodeIdPattern id = true) : matchesNodeIdPattern (renameId old new id) = true := by
  unfold renameId
  split
  · exact hnew
  · exact hid

/-- The renaming is injective on ids other than the new one. -/
theorem renameId_inj {old new a b : String} (ha : a ≠ new) (hb : b ≠ new)
    (h : renameId old new a = renameId old new b) : a = b := by
  unfold renameId at h
  split at h <;> split at h
  · rename_i hold hold'
    rw [hold, hold']
  · exact absurd h.symm hb
  · exact absurd h ha
  · exact h

/-- The node under its new id, with the config as it was. -/
def NodeSpec.relabel (old new : String) (hnew : matchesNodeIdPattern new = true)
    (node : NodeSpec) : NodeSpec :=
  { node with
    id := renameId old new node.id
    id_pattern := renameId_pattern hnew node.id_pattern }

/-- The node under its new id, with the references of its config renamed. -/
def NodeSpec.rename (old new : String) (hnew : matchesNodeIdPattern new = true)
    (node : NodeSpec) : NodeSpec :=
  { node.relabel old new hnew with config := renameFields old new node.config }

/-- The edge between the renamed nodes. -/
def EdgeSpec.rename (old new : String) (edge : EdgeSpec) : EdgeSpec :=
  { edge with
    fromNode := renameId old new edge.fromNode
    toNode := renameId old new edge.toNode }

/-- The document with node ids and edges renamed, and the configs as they were. -/
def PipelineSpec.relabel (old new : String) (hnew : matchesNodeIdPattern new = true)
    (spec : PipelineSpec) : PipelineSpec :=
  { spec with
    nodes := spec.nodes.map (NodeSpec.relabel old new hnew)
    edges := spec.edges.map (EdgeSpec.rename old new) }

/-- The document with node ids, edges and references renamed. -/
def PipelineSpec.rename (old new : String) (hnew : matchesNodeIdPattern new = true)
    (spec : PipelineSpec) : PipelineSpec :=
  { spec with
    nodes := spec.nodes.map (NodeSpec.rename old new hnew)
    edges := spec.edges.map (EdgeSpec.rename old new) }

/-- Without references to the node, only ids and edges are renamed. -/
theorem PipelineSpec.rename_eq_relabel {old new : String}
    (hnew : matchesNodeIdPattern new = true) {spec : PipelineSpec}
    (h : ∀ node ∈ spec.nodes, NotNamed old (findInFields node.config)) :
    spec.rename old new hnew = spec.relabel old new hnew := by
  have hnodes : spec.nodes.map (NodeSpec.rename old new hnew) =
      spec.nodes.map (NodeSpec.relabel old new hnew) := by
    apply List.map_congr_left
    intro node hnode
    unfold NodeSpec.rename
    rw [renameFields_of_not_named new node.config (h node hnode)]
    rfl
  simp only [PipelineSpec.rename, PipelineSpec.relabel, hnodes]

/-- The target of a renamed reference is the renamed target. -/
theorem referenceTarget_renamePath {old new : String} (hnew : matchesNodeIdPattern new = true)
    (path : String) :
    referenceTarget (renamePath old new .upstream path) =
      renameId old new (referenceTarget path) := by
  unfold renamePath renameId
  by_cases htarget : referenceTarget path = old
  · simp only [htarget, if_true]
    have hdot : ∀ c ∈ new.toList, decide (c ≠ '.') = true := by
      intro c hc
      rcases isAlphanum_of_matchesNodeIdPattern hnew c hc with hchar | rfl | rfl
      · rw [decide_eq_true_eq]
        rintro rfl
        revert hchar
        decide
      · rfl
      · rfl
    have hrest : (path.toList.dropWhile (· ≠ '.')).takeWhile (· ≠ '.') = [] := by
      cases hdrop : path.toList.dropWhile (· ≠ '.') with
      | nil => rfl
      | cons c rest =>
          have hhead := List.head?_dropWhile_not (fun c => decide (c ≠ '.')) path.toList
          rw [hdrop] at hhead
          simpa using hhead
    unfold referenceTarget
    rw [String.toList_ofList, List.takeWhile_append_of_pos hdot, hrest, List.append_nil,
      String.ofList_toList]
  · simp only [htarget, if_false]

private theorem hasReferences_rename (old : String) {new : String}
    (hnew : matchesNodeIdPattern new = true) (config : Fields) :
    hasReferences (renameFields old new config) = hasReferences config := by
  unfold hasReferences
  rw [findInFields_rename old hnew, List.isEmpty_map]

private theorem renameFields_of_no_references (old new : String) {config : Fields}
    (h : hasReferences config = false) : renameFields old new config = config := by
  apply renameFields_of_not_named
  intro path hmem
  rw [hasReferences, Bool.not_eq_false', List.isEmpty_iff] at h
  rw [h] at hmem
  cases hmem

namespace Engine

section

variable {en : Engine} {spec : PipelineSpec} {old new : String}
  {hnew : matchesNodeIdPattern new = true}

/-! ## The graph -/

/-- The new id is no node of the document. -/
def FreshId (spec : PipelineSpec) (new : String) : Prop :=
  ∀ node ∈ spec.nodes, node.id ≠ new

/-- Every edge of a document whose edges join nodes avoids a fresh id. -/
theorem edge_ne_fresh (hfresh : FreshId spec new)
    (hjoin : ∀ edge ∈ spec.edges, en.LeavesPort spec edge ∧ en.ReachesPort spec edge)
    {edge : EdgeSpec} (hedge : edge ∈ spec.edges) : edge.fromNode ≠ new ∧ edge.toNode ≠ new := by
  rcases hjoin edge hedge with ⟨⟨source, hsource, hfrom, -⟩, ⟨target, htarget, hto, -⟩⟩
  exact ⟨hfrom ▸ hfresh source hsource, hto ▸ hfresh target htarget⟩

private theorem path_rename {a b : String} (h : spec.Path a b) :
    (spec.rename old new hnew).Path (renameId old new a) (renameId old new b) := by
  refine Relation.TransGen.lift (renameId old new) ?_ _ _ h
  rintro a b ⟨edge, hedge, rfl, rfl⟩
  exact ⟨edge.rename old new, List.mem_map_of_mem hedge, rfl, rfl⟩

/-- A path of the renamed document is a renamed path. -/
theorem path_of_rename
    (hedges : ∀ edge ∈ spec.edges, edge.fromNode ≠ new ∧ edge.toNode ≠ new) {x y : String}
    (h : (spec.rename old new hnew).Path x y) :
    ∃ a b, renameId old new a = x ∧ renameId old new b = y ∧ a ≠ new ∧ b ≠ new ∧
      spec.Path a b := by
  have hinj : ∀ a b, a ≠ new → b ≠ new → renameId old new a = renameId old new b → a = b :=
    fun a b => renameId_inj
  refine Worklist.transGen_relabel ?_ hinj h
  intro x y hedge
  rcases hedge with ⟨renamed, hrenamed, rfl, rfl⟩
  rcases List.mem_map.mp hrenamed with ⟨edge, hedge, rfl⟩
  rcases hedges edge hedge with ⟨hfrom, hto⟩
  exact ⟨edge.fromNode, edge.toNode, rfl, rfl, hfrom, hto, edge, hedge, rfl, rfl⟩

/-- Between renamed nodes the paths are those between the nodes. -/
theorem path_rename_iff
    (hedges : ∀ edge ∈ spec.edges, edge.fromNode ≠ new ∧ edge.toNode ≠ new) {a b : String}
    (ha : a ≠ new) (hb : b ≠ new) :
    (spec.rename old new hnew).Path (renameId old new a) (renameId old new b) ↔
      spec.Path a b := by
  constructor
  · intro h
    rcases path_of_rename hedges h with ⟨a', b', hsame, hsame', ha', hb', hpath⟩
    rw [renameId_inj ha' ha hsame, renameId_inj hb' hb hsame'] at hpath
    exact hpath
  · exact path_rename

private theorem edgesInto_rename (hfresh : ∀ edge ∈ spec.edges, edge.toNode ≠ new) {id : String}
    (hid : id ≠ new) (port : String) :
    edgesInto (spec.rename old new hnew) (renameId old new id) port = edgesInto spec id port := by
  unfold edgesInto PipelineSpec.rename
  rw [List.countP_map]
  apply List.countP_congr
  intro edge hedge
  have hsame : renameId old new edge.toNode = renameId old new id ↔ edge.toNode = id :=
    ⟨renameId_inj (hfresh edge hedge) hid, fun heq => heq ▸ rfl⟩
  simp only [Function.comp_apply, EdgeSpec.rename, hsame]

/-- The conditions on the graph survive the renaming. -/
theorem graphConditions_rename (hfresh : FreshId spec new) (h : en.GraphConditions spec) :
    en.GraphConditions (spec.rename old new hnew) := by
  have hedges : ∀ edge ∈ spec.edges, edge.fromNode ≠ new ∧ edge.toNode ≠ new :=
    fun _ hedge => edge_ne_fresh hfresh h.edges_join hedge
  have hnode : ∀ renamed ∈ (spec.rename old new hnew).nodes,
      ∃ node ∈ spec.nodes, node.rename old new hnew = renamed := fun renamed hrenamed =>
    List.mem_map.mp hrenamed
  have hmem : ∀ {node}, node ∈ spec.nodes →
      node.rename old new hnew ∈ (spec.rename old new hnew).nodes := fun hmem =>
    List.mem_map_of_mem hmem
  constructor
  case nonempty =>
    intro hempty
    exact h.nonempty (List.map_eq_nil_iff.mp hempty)
  case unique_ids =>
    have hids : (spec.rename old new hnew).nodes.map NodeSpec.id =
        (spec.nodes.map NodeSpec.id).map (renameId old new) := by
      simp only [PipelineSpec.rename, List.map_map]
      rfl
    rw [hids]
    apply h.unique_ids.map_on
    intro a ha b hb hsame
    rcases List.mem_map.mp ha with ⟨node, hnode, rfl⟩
    rcases List.mem_map.mp hb with ⟨other, hother, rfl⟩
    exact renameId_inj (hfresh node hnode) (hfresh other hother) hsame
  case edges_join =>
    intro renamed hrenamed
    rcases List.mem_map.mp hrenamed with ⟨edge, hedge, rfl⟩
    rcases h.edges_join edge hedge with
      ⟨⟨source, hsource, hfrom, hout⟩, ⟨target, htarget, hto, hin⟩⟩
    exact ⟨⟨_, hmem hsource, congrArg (renameId old new) hfrom, hout⟩,
      ⟨_, hmem htarget, congrArg (renameId old new) hto, hin⟩⟩
  case single_edges =>
    intro renamed hrenamed cls hcls hsingle port
    rcases hnode renamed hrenamed with ⟨node, hnode, rfl⟩
    have hcount : edgesInto (spec.rename old new hnew) (renameId old new node.id) port =
        edgesInto spec node.id port :=
      edgesInto_rename (fun edge hedge => (hedges edge hedge).2) (hfresh node hnode) port
    exact hcount.symm ▸ h.single_edges node hnode cls hcls hsingle port
  case acyclic =>
    intro id hpath
    rcases path_of_rename hedges hpath with ⟨a, b, ha, hb, hna, hnb, hcycle⟩
    rw [renameId_inj hna hnb (ha.trans hb.symm)] at hcycle
    exact h.acyclic b hcycle
  case scopes_disjoint =>
    intro iterator hiterator other hother hfans hfans' hne member hpaths
    rcases hnode iterator hiterator with ⟨first, hfirst, rfl⟩
    rcases hnode other hother with ⟨second, hsecond, rfl⟩
    rcases path_of_rename hedges hpaths.1 with ⟨a, b, ha, hb, hna, hnb, hpath⟩
    rcases path_of_rename hedges hpaths.2 with ⟨a', b', ha', hb', hna', hnb', hpath'⟩
    rw [renameId_inj hna (hfresh first hfirst) ha] at hpath
    rw [renameId_inj hna' (hfresh second hsecond) ha', renameId_inj hnb' hnb (hb'.trans hb.symm)]
      at hpath'
    exact h.scopes_disjoint first hfirst second hsecond hfans hfans'
      (fun heq => hne (congrArg (renameId old new) heq)) b ⟨hpath, hpath'⟩
  case scopes_flat =>
    intro iterator hiterator other hother hfans hfans' hpath
    rcases hnode iterator hiterator with ⟨first, hfirst, rfl⟩
    rcases hnode other hother with ⟨second, hsecond, rfl⟩
    exact h.scopes_flat first hfirst second hsecond hfans hfans'
      ((path_rename_iff hedges (hfresh first hfirst) (hfresh second hsecond)).mp hpath)
  case upstream_reaches =>
    intro renamed hrenamed path hreference
    rcases hnode renamed hrenamed with ⟨node, hnode, rfl⟩
    have hreferences := findInFields_rename old hnew node.config
    have hreference' : (RefKind.upstream, path) ∈
        (findInFields node.config).map (renameReference old new) := hreferences ▸ hreference
    rcases List.mem_map.mp hreference' with ⟨⟨kind, path'⟩, hfound, heq⟩
    cases heq
    rcases h.upstream_reaches node hnode path' hfound with ⟨⟨target, htarget, hid⟩, hpath⟩
    rw [referenceTarget_renamePath hnew]
    exact ⟨⟨_, hmem htarget, congrArg (renameId old new) hid⟩, path_rename hpath⟩
  case iter_in_scope =>
    intro renamed hrenamed path hreference
    rcases hnode renamed hrenamed with ⟨node, hnode, rfl⟩
    have hreferences := findInFields_rename old hnew node.config
    have hreference' : (RefKind.iter, path) ∈
        (findInFields node.config).map (renameReference old new) := hreferences ▸ hreference
    rcases List.mem_map.mp hreference' with ⟨⟨kind, path'⟩, hfound, heq⟩
    cases heq
    rcases h.iter_in_scope node hnode path' hfound with ⟨iterator, hiterator, hfans, hpath⟩
    exact ⟨_, hmem hiterator, hfans, path_rename hpath⟩

/-! ## The ports -/

private theorem nodeClass?_rename (hids : (spec.nodes.map NodeSpec.id).Nodup)
    (hids' : ((spec.rename old new hnew).nodes.map NodeSpec.id).Nodup)
    (hfresh : FreshId spec new) {id : String} (hid : id ≠ new) :
    en.nodeClass? (spec.rename old new hnew) (renameId old new id) = en.nodeClass? spec id := by
  apply Option.ext
  intro cls
  rw [nodeClass?_eq_some_iff hids, nodeClass?_eq_some_iff hids']
  constructor
  · intro h
    rcases h with ⟨renamed, hrenamed, hsame, hcls⟩
    rcases List.mem_map.mp hrenamed with ⟨node, hnode, rfl⟩
    exact ⟨node, hnode, renameId_inj (hfresh node hnode) hid hsame, hcls⟩
  · intro h
    rcases h with ⟨node, hnode, rfl, hcls⟩
    exact ⟨_, List.mem_map_of_mem hnode, rfl, hcls⟩

/-- The counts of every node move with it. -/
def CountsRenamed (old new : String) (counts counts' : PortCounts) : Prop :=
  ∀ id, id ≠ new → portCountsOf counts' (renameId old new id) = portCountsOf counts id

theorem CountsRenamed.countPort (hids : (spec.nodes.map NodeSpec.id).Nodup)
    (hids' : ((spec.rename old new hnew).nodes.map NodeSpec.id).Nodup)
    (hfresh : FreshId spec new) {counts counts' : PortCounts}
    (h : CountsRenamed old new counts counts') {edge : EdgeSpec} (hedge : edge.toNode ≠ new) :
    CountsRenamed old new (en.countPort spec counts edge)
      (en.countPort (spec.rename old new hnew) counts' (edge.rename old new)) := by
  have hclass : en.nodeClass? (spec.rename old new hnew) (edge.rename old new).toNode =
      en.nodeClass? spec edge.toNode := nodeClass?_rename hids hids' hfresh hedge
  have hcounts : portCountsOf counts' (edge.rename old new).toNode =
      portCountsOf counts edge.toNode := h edge.toNode hedge
  have hport : (edge.rename old new).toPort = edge.toPort := rfl
  intro id hid
  unfold Engine.countPort
  rw [hclass, hport]
  cases en.nodeClass? spec edge.toNode with
  | none => exact h id hid
  | some cls =>
      dsimp only
      split
      · rw [hcounts]
        unfold portCountsOf
        rw [OrderedDict.get?_set, OrderedDict.get?_set]
        by_cases hsame : id = edge.toNode
        · subst hsame
          simp [EdgeSpec.rename]
        · have hother : renameId old new id ≠ (edge.rename old new).toNode := fun heq =>
            hsame (renameId_inj hid hedge heq)
          rw [if_neg hsame, if_neg hother]
          exact h id hid
      · exact h id hid

/-- The counts of the ports of every node survive the renaming. -/
theorem portCountsOf_rename (hids : (spec.nodes.map NodeSpec.id).Nodup)
    (hids' : ((spec.rename old new hnew).nodes.map NodeSpec.id).Nodup)
    (hfresh : FreshId spec new) (hedges : ∀ edge ∈ spec.edges, edge.toNode ≠ new) {id : String}
    (hid : id ≠ new) :
    portCountsOf (en.portCounts (spec.rename old new hnew)) (renameId old new id) =
      portCountsOf (en.portCounts spec) id := by
  have hfold : ∀ (edges : List EdgeSpec) (counts counts' : PortCounts),
      (∀ edge ∈ edges, edge.toNode ≠ new) → CountsRenamed old new counts counts' →
        CountsRenamed old new (edges.foldl (en.countPort spec) counts)
          ((edges.map (EdgeSpec.rename old new)).foldl
            (en.countPort (spec.rename old new hnew)) counts') := by
    intro edges
    induction edges with
    | nil => exact fun counts counts' _ h => h
    | cons edge edges ih =>
        intro counts counts' hfresh' h
        rw [List.forall_mem_cons] at hfresh'
        exact ih _ _ hfresh'.2 (h.countPort hids hids' hfresh hfresh'.1)
  exact hfold spec.edges .empty .empty hedges (fun _ _ => rfl) id hid

/-! ## Validation -/

private theorem configIssues_rename {node : NodeSpec} (h : en.configIssues node = []) :
    en.configIssues (node.rename old new hnew) = [] := by
  have htype : (node.rename old new hnew).type = node.type := rfl
  have hconfig : (node.rename old new hnew).config = renameFields old new node.config := rfl
  unfold configIssues at h ⊢
  rw [htype, hconfig, hasReferences_rename old hnew]
  cases hcls : en.registry.get? node.type with
  | none => simp [hcls] at h
  | some cls =>
      rw [hcls] at h
      dsimp only at h ⊢
      cases hreferences : hasReferences node.config with
      | true => rfl
      | false =>
          rw [renameFields_of_no_references old new hreferences]
          rw [hreferences] at h
          cases hvalidate : cls.modelValidate node.config with
          | ok config => rfl
          | error issues => simp [hvalidate] at h

private theorem portIssues_rename (hids : (spec.nodes.map NodeSpec.id).Nodup)
    (hids' : ((spec.rename old new hnew).nodes.map NodeSpec.id).Nodup) {node : NodeSpec}
    (hnode : node ∈ spec.nodes)
    (hcounts : portCountsOf (en.portCounts (spec.rename old new hnew))
      (renameId old new node.id) = portCountsOf (en.portCounts spec) node.id)
    (h : en.portIssues spec node = []) :
    en.portIssues (spec.rename old new hnew) (node.rename old new hnew) = [] := by
  have hconfig : (node.rename old new hnew).config = renameFields old new node.config := rfl
  have hid : (node.rename old new hnew).id = renameId old new node.id := rfl
  rw [portIssues_eq_nil_iff hids' (List.mem_map_of_mem hnode), hid, hconfig,
    hasReferences_rename old hnew, hcounts]
  intro cls config hcls hreferences hvalidate
  rw [renameFields_of_no_references old new hreferences] at hvalidate
  exact (portIssues_eq_nil_iff hids hnode).mp h cls config hcls hreferences hvalidate

/-- Renaming a node to an id that is not taken keeps a document without issues. -/
theorem validatePipeline_rename (hfresh : FreshId spec new) (h : en.validatePipeline spec = []) :
    en.validatePipeline (spec.rename old new hnew) = [] := by
  rcases validatePipeline_eq_nil_iff.mp h with ⟨hnodes, hgraph⟩
  have hgraph' : en.GraphConditions (spec.rename old new hnew) :=
    graphConditions_rename hfresh hgraph
  refine validatePipeline_eq_nil_iff.mpr ⟨?_, hgraph'⟩
  intro renamed hrenamed
  rcases List.mem_map.mp hrenamed with ⟨node, hnode, rfl⟩
  rcases hnodes node hnode with ⟨hconfig, hports⟩
  refine ⟨configIssues_rename hconfig,
    portIssues_rename hgraph.unique_ids hgraph'.unique_ids hnode ?_ hports⟩
  exact portCountsOf_rename hgraph.unique_ids hgraph'.unique_ids hfresh
    (fun edge hedge => (edge_ne_fresh hfresh hgraph.edges_join hedge).2) (hfresh node hnode)

end

end Engine

end EtlTool
