import EtlTool.Editor.Layout
import EtlTool.Foundations.VertexLayers

/-!
# Positions of the nodes

The layout of a document runs from left to right, and no two nodes lie on top of each other.
The loop of the layout is Kahn's sort without a ranking, and its columns are the layers of
that sort.  In a column every node stands below the ones that were placed before.

Main results:

- Theorem {lit}`layering_layerInv`: the loop keeps the layers of the sort.
- Theorem {lit}`placedApart_foldl`: no two nodes are placed at one position.
- Theorem {lit}`layeredLayout_leftToRight`: every node has a position of its own, and without
  cycles every edge leads to the right.
-/

namespace EtlTool

open TopologicalSort

/-! ## The graph of a document -/

/-- An edge of the document between two of its nodes. -/
def nodeLink? (ids : List String) (edge : Value) : Option (String × String) :=
  match textOf? edge "from", textOf? edge "to" with
  | some source, some target =>
      if source ∈ ids ∧ target ∈ ids then some (source, target) else none
  | _, _ => none

/-- The graph of a document; no node goes before another one by itself. -/
def layoutGraph (ids : List String) (edges : List Value) : TopologicalSort.Graph String where
  vertices := ids
  edges := edges.filterMap (nodeLink? ids)
  rank := fun _ => 0

/-- An edge of the document leads from one of its nodes to another. -/
def DocumentEdge (ids : List String) (edges : List Value) (source target : String) : Prop :=
  source ∈ ids ∧ target ∈ ids ∧
    ∃ edge ∈ edges, textOf? edge "from" = some source ∧ textOf? edge "to" = some target

private theorem nodeLink?_eq_some_iff {ids : List String} {edge : Value} {source target : String} :
    nodeLink? ids edge = some (source, target) ↔
      textOf? edge "from" = some source ∧ textOf? edge "to" = some target ∧
        source ∈ ids ∧ target ∈ ids := by
  unfold nodeLink?
  cases hsource : textOf? edge "from" with
  | none => simp
  | some a =>
      cases htarget : textOf? edge "to" with
      | none => simp
      | some b =>
          by_cases hmem : a ∈ ids ∧ b ∈ ids
          · simp only [if_pos hmem, Option.some.injEq, Prod.mk.injEq]
            constructor
            · rintro ⟨rfl, rfl⟩
              exact ⟨rfl, rfl, hmem⟩
            · rintro ⟨rfl, rfl, -⟩
              exact ⟨rfl, rfl⟩
          · simp only [if_neg hmem, Option.some.injEq]
            constructor
            · rintro ⟨⟩
            · rintro ⟨rfl, rfl, hboth⟩
              exact absurd hboth hmem

private theorem layoutGraph_edge_iff {ids : List String} {edges : List Value}
    {source target : String} :
    Graph.Edge (layoutGraph ids edges) source target ↔ DocumentEdge ids edges source target := by
  simp only [Graph.Edge, layoutGraph, DocumentEdge, List.mem_filterMap, nodeLink?_eq_some_iff]
  constructor
  · rintro ⟨⟨edge, hedge, hfrom, hto, -, -⟩, hsource, htarget⟩
    exact ⟨hsource, htarget, edge, hedge, hfrom, hto⟩
  · rintro ⟨hsource, htarget, edge, hedge, hfrom, hto⟩
    exact ⟨⟨edge, hedge, hfrom, hto, hsource, htarget⟩, hsource, htarget⟩

/-! ## The links -/

/-- The lists of predecessors and successors are those of the graph. -/
structure LinksOf (ids : List String) (linked : List (String × String))
    (links : OrderedDict String (List String) × OrderedDict String (List String)) : Prop where
  preds : ∀ id, links.1.get? id =
    if id ∈ ids then some ((linked.filter fun e => e.2 = id).map Prod.fst) else none
  succs : ∀ id, links.2.get? id =
    if id ∈ ids then some ((linked.filter fun e => e.1 = id).map Prod.snd) else none

private theorem linksOf_nil (ids : List String) :
    LinksOf ids [] (OrderedDict.ofList (ids.map fun id => (id, ([] : List String))),
      OrderedDict.ofList (ids.map fun id => (id, ([] : List String)))) where
  preds := fun id => OrderedDict.get?_ofList_map ids _ id
  succs := fun id => OrderedDict.get?_ofList_map ids _ id

section

variable {ids : List String} {linked : List (String × String)}
  {links : OrderedDict String (List String) × OrderedDict String (List String)}

/-- An edge between two nodes is entered into both lists. -/
theorem LinksOf.linkEdge_some (h : LinksOf ids linked links) {edge : Value}
    {source target : String} (hlink : nodeLink? ids edge = some (source, target)) :
    LinksOf ids (linked ++ [(source, target)]) (linkEdge links edge) := by
  rcases nodeLink?_eq_some_iff.mp hlink with ⟨hfrom, hto, hsource, htarget⟩
  rw [linkEdge, hfrom, hto]
  dsimp only
  rw [h.preds target, h.succs source, if_pos htarget, if_pos hsource]
  constructor
  · intro id
    dsimp only
    rw [OrderedDict.get?_set]
    by_cases hid : id = target
    · subst hid
      rw [if_pos rfl, if_pos htarget]
      simp
    · rw [if_neg hid, h.preds id]
      simp [Ne.symm hid]
  · intro id
    dsimp only
    rw [OrderedDict.get?_set]
    by_cases hid : id = source
    · subst hid
      rw [if_pos rfl, if_pos hsource]
      simp
    · rw [if_neg hid, h.succs id]
      simp [Ne.symm hid]

/-- Every other edge is ignored. -/
theorem LinksOf.linkEdge_none (h : LinksOf ids linked links) {edge : Value}
    (hlink : nodeLink? ids edge = none) : linkEdge links edge = links := by
  unfold linkEdge
  cases hfrom : textOf? edge "from" with
  | none => rfl
  | some source =>
      cases hto : textOf? edge "to" with
      | none => rfl
      | some target =>
          dsimp only
          rw [h.preds target, h.succs source]
          by_cases htarget : target ∈ ids
          · by_cases hsource : source ∈ ids
            · rw [nodeLink?_eq_some_iff.mpr ⟨hfrom, hto, hsource, htarget⟩] at hlink
              cases hlink
            · rw [if_pos htarget, if_neg hsource]
          · rw [if_neg htarget]

end

/-- The links of a document are those of its graph. -/
theorem linksOf_foldl (ids : List String) (edges : List Value) :
    LinksOf ids (edges.filterMap (nodeLink? ids)) (edges.foldl linkEdge
      (OrderedDict.ofList (ids.map fun id => (id, ([] : List String))),
        OrderedDict.ofList (ids.map fun id => (id, ([] : List String))))) := by
  induction edges using List.reverseRecOn with
  | nil => exact linksOf_nil ids
  | append_singleton edges edge ih =>
      rw [List.foldl_append, List.filterMap_append]
      cases hlink : nodeLink? ids edge with
      | none =>
          simpa [hlink, ih.linkEdge_none hlink] using ih
      | some link =>
          simpa [hlink] using ih.linkEdge_some hlink

/-! ## The loop -/

/-- The layer of a node, as the loop reads it. -/
def Layering.layerOf (s : Layering) (id : String) : Nat :=
  (s.layer.get? id).getD 0

/-- The number of open edges into a node, as the loop reads it. -/
def Layering.openEdges (s : Layering) (id : String) : Int :=
  (s.indeg.get? id).getD 0

private theorem layerOf_relax (id : String) (s : Layering) (next : String) :
    (relax id s next).layerOf =
      Function.update s.layerOf next (max (s.layerOf next) (s.layerOf id + 1)) := by
  ext other
  by_cases hother : other = next
  · subst hother
    simp [Layering.layerOf, relax]
  · simp [Layering.layerOf, relax, hother, OrderedDict.get?_set]

private theorem openEdges_relax (id : String) (s : Layering) (next : String) :
    (relax id s next).openEdges = Function.update s.openEdges next (s.openEdges next - 1) := by
  ext other
  by_cases hother : other = next
  · subst hother
    simp [Layering.openEdges, relax]
  · simp [Layering.openEdges, relax, hother, OrderedDict.get?_set]

private theorem queue_relax (id : String) (s : Layering) (next : String) :
    (relax id s next).queue =
      if s.openEdges next - 1 = 0 then s.queue ++ [next] else s.queue :=
  rfl

/-- The successors of a node are handled like the targets of a vertex. -/
theorem foldl_relax (g : TopologicalSort.Graph String) (id : String) {nexts : List String}
    (hnexts : ∀ next ∈ nexts, next ∈ g.vertices) (s : Layering) {queue newly : List String}
    (hqueue : s.queue = queue ++ newly) :
    (nexts.foldl (relax id) s).layerOf = Graph.pushBehind id s.layerOf nexts ∧
      (nexts.foldl (relax id) s).openEdges = (g.relax nexts s.openEdges newly).1 ∧
      (nexts.foldl (relax id) s).queue = queue ++ (g.relax nexts s.openEdges newly).2 ∧
      (nexts.foldl (relax id) s).ordered = s.ordered ∧
      ∀ node, node ∈ (nexts.foldl (relax id) s).layer.keys ↔
        node ∈ s.layer.keys ∨ node ∈ nexts := by
  induction nexts generalizing s newly with
  | nil => simp [Graph.pushBehind, Graph.relax, hqueue]
  | cons next rest ih =>
      rw [List.forall_mem_cons] at hnexts
      have hstep : (relax id s next).queue =
          queue ++ if s.openEdges next - 1 = 0 then newly ++ [next] else newly := by
        rw [queue_relax, hqueue]
        split
        · rw [List.append_assoc]
        · rfl
      rcases ih hnexts.2 (relax id s next) hstep with ⟨hlayer, hopen, hrest, hordered, hkeys⟩
      rw [layerOf_relax] at hlayer
      rw [openEdges_relax] at hopen hrest
      refine ⟨hlayer, ?_, ?_, hordered, ?_⟩
      · rw [List.foldl_cons, hopen, Graph.relax, if_pos hnexts.1]
      · rw [List.foldl_cons, hrest, Graph.relax, if_pos hnexts.1]
      · intro node
        rw [List.foldl_cons, hkeys node, relax]
        simp only [OrderedDict.mem_keys_set, List.mem_cons]
        tauto

/-- What the loop knows: the layers of Kahn's sort, and a layer for every node that it has
met. -/
structure LoopInv (g : TopologicalSort.Graph String) (s : Layering) : Prop where
  layers : g.LayerInv s.layerOf s.openEdges s.queue s.ordered
  met : ∀ id ∈ s.ordered ++ s.queue, id ∈ s.layer.keys

/-- One round of the loop. -/
theorem LoopInv.step {g : TopologicalSort.Graph String} (hrank : ∀ v w, g.rank v = g.rank w)
    (hinside : ∀ v, ∀ w ∈ g.targets v, w ∈ g.vertices) {s : Layering} {id : String}
    {rest : List String} (h : LoopInv g s) (hs : s.queue = id :: rest) :
    LoopInv g ((g.targets id).foldl (relax id)
      { s with queue := rest, ordered := s.ordered ++ [id] }) := by
  rcases foldl_relax g id (hinside id) { s with queue := rest, ordered := s.ordered ++ [id] }
    (List.append_nil rest).symm with ⟨hlayer, hopen, hqueue, hordered, hkeys⟩
  have hlayers := h.layers
  rw [hs] at hlayers
  have hafter := hlayers.step hrank
  constructor
  · rw [hlayer, hopen, hqueue, hordered]
    exact hafter
  · intro node hnode
    have hold : node ∈ s.ordered ++ s.queue ∨ node ∈ g.targets id := by
      rw [hs]
      rcases List.mem_append.mp hnode with hbefore | hbehind
      · rw [hordered] at hbefore
        exact Or.inl (by simpa [or_assoc] using Or.inl hbefore)
      · rcases mem_queue_foldl_relax hbehind with hrest | htarget
        · exact Or.inl (by simp [show node ∈ rest from hrest])
        · exact Or.inr htarget
    rw [hkeys]
    rcases hold with hold | htarget
    · exact Or.inl (h.met node hold)
    · exact Or.inr htarget

/-- What the loop knows when it ends. -/
theorem layering_layerInv {g : TopologicalSort.Graph String}
    (hrank : ∀ v w, g.rank v = g.rank w) (hinside : ∀ v, ∀ w ∈ g.targets v, w ∈ g.vertices)
    {succs : OrderedDict String (List String)}
    (hsuccs : ∀ id nexts, succs.get? id = some nexts → nexts = g.targets id) {fuel : Nat}
    {s last : Layering} (h : LoopInv g s) (hlast : layering succs fuel s = some last) :
    LoopInv g last ∧ last.queue = [] := by
  induction fuel generalizing s with
  | zero =>
      rw [layering] at hlast
      split at hlast
      · cases hlast
        exact ⟨h, ‹_›⟩
      · cases hlast
  | succ fuel ih =>
      rw [layering] at hlast
      cases hs : s.queue with
      | nil =>
          rw [hs] at hlast
          cases hlast
          exact ⟨h, hs⟩
      | cons id rest =>
          rw [hs] at hlast
          dsimp only at hlast
          cases hnexts : succs.get? id with
          | none =>
              rw [hnexts] at hlast
              cases hlast
          | some nexts =>
              rw [hnexts, hsuccs id nexts hnexts] at hlast
              exact ih (h.step hrank hinside hs) hlast

private theorem inside_layoutGraph (ids : List String) (edges : List Value) (v : String) :
    ∀ w ∈ (layoutGraph ids edges).targets v, w ∈ (layoutGraph ids edges).vertices := by
  intro w hw
  rcases List.mem_filterMap.mp (Graph.mem_targets.mp hw) with ⟨edge, -, hlink⟩
  exact (nodeLink?_eq_some_iff.mp hlink).2.2.2

/-- The number of open edges into a node is the length of its list of predecessors. -/
theorem remaining_layoutGraph (ids : List String) (edges : List Value) (id : String) :
    (layoutGraph ids edges).remaining [] id =
      ((edges.filterMap (nodeLink? ids)).filter fun e => e.2 = id).length := by
  rw [Graph.remaining, ← List.countP_eq_length_filter]
  refine List.countP_congr fun link hlink => ?_
  rcases List.mem_filterMap.mp hlink with ⟨edge, -, hedge⟩
  have hsource : link.1 ∈ (layoutGraph ids edges).vertices :=
    (nodeLink?_eq_some_iff.mp hedge).2.2.1
  simp [hsource]

/-- The loop starts with Kahn's sort before the first vertex is removed. -/
theorem loopInv_initialLayering {ids : List String} (hnodup : ids.Nodup) (edges : List Value)
    {links : OrderedDict String (List String) × OrderedDict String (List String)}
    (hlinks : LinksOf ids (edges.filterMap (nodeLink? ids)) links) :
    LoopInv (layoutGraph ids edges) (initialLayering ids links.1) := by
  have hindeg : ∀ id, (initialLayering ids links.1).indeg.get? id =
      if id ∈ ids then some ((layoutGraph ids edges).inDegree id) else none := by
    intro id
    rw [initialLayering, OrderedDict.get?_ofList_map]
    by_cases hid : id ∈ ids
    · rw [if_pos hid, if_pos hid, hlinks.preds id, if_pos hid, Option.getD_some, List.length_map,
        Graph.inDegree, remaining_layoutGraph]
    · rw [if_neg hid, if_neg hid]
  have hqueue : (initialLayering ids links.1).queue = (layoutGraph ids edges).sources := by
    rw [Graph.sources, Graph.sortByRank_of_rank_eq fun _ _ => rfl]
    refine List.filter_congr fun id hid => ?_
    have hget := hindeg id
    rw [if_pos hid] at hget
    rw [show (OrderedDict.ofList (ids.map fun id =>
      (id, (((links.1.get? id).getD []).length : Int)))).get? id = _ from hget]
    simp
  have hinit : Graph.Inv (layoutGraph ids edges) (layoutGraph ids edges).inDegree
      (layoutGraph ids edges).sources [] :=
    Graph.Inv.init hnodup
  constructor
  · refine Graph.LayerInv.init _ ?_
    rw [hqueue]
    refine ⟨hinit.nodup, hinit.subset, ?_, hinit.ready, hinit.placed⟩
    intro id hid
    have hmem : id ∈ ids := hid
    rw [Layering.openEdges, hindeg id, if_pos hmem]
    rfl
  · intro id hid
    refine (OrderedDict.mem_keys_ofList _ id).mpr ?_
    rw [List.map_map]
    exact List.mem_map.mpr ⟨id, hid, rfl⟩

/-! ## The nodes on a cycle -/

/-- Giving a last layer to the nodes that were never met does not move the others. -/
theorem get?_foldl_leftover (last : Nat) (ids : List String) (layer : OrderedDict String Nat)
    {id : String} (hid : id ∈ layer.keys) :
    (ids.foldl (fun layer id => if layer.contains id then layer else layer.set id last)
      layer).get? id = layer.get? id := by
  induction ids generalizing layer with
  | nil => rfl
  | cons other rest ih =>
      rw [List.foldl_cons]
      by_cases hother : layer.contains other
      · rw [if_pos hother]
        exact ih layer hid
      · rw [if_neg hother]
        have hne : id ≠ other := by
          intro heq
          exact hother ((OrderedDict.contains_iff layer other).mpr (heq ▸ hid))
        rw [ih _ ((OrderedDict.mem_keys_set layer other id _).mpr (Or.inr hid)),
          OrderedDict.get?_set_of_ne layer hne]

/-! ## Rows -/

/-- The positions that were given out: those of a column lie above its next row, and no two
nodes have the same. -/
structure PlacedApart (layer : OrderedDict String Nat)
    (placed : OrderedDict Nat Nat × OrderedDict String Position) : Prop where
  above : ∀ id p, placed.2.get? id = some p → ∃ row,
    p = ⟨40 + (layer.get? id).getD 0 * 260, 40 + row * 130⟩ ∧
      row < (placed.1.get? ((layer.get? id).getD 0)).getD 0
  apart : ∀ id other p, placed.2.get? id = some p → placed.2.get? other = some p → id = other

private theorem placedApart_empty (layer : OrderedDict String Nat) :
    PlacedApart layer (.empty, .empty) where
  above := by
    intro id p h
    rw [OrderedDict.get?_empty] at h
    cases h
  apart := by
    intro id other p h
    rw [OrderedDict.get?_empty] at h
    cases h

/-- The next row of a column is below every node that was placed. -/
theorem PlacedApart.next_apart {layer : OrderedDict String Nat}
    {placed : OrderedDict Nat Nat × OrderedDict String Position} (h : PlacedApart layer placed)
    (column : Nat) {other : String} {p : Position} (hother : placed.2.get? other = some p) :
    p ≠ ⟨40 + column * 260, 40 + (placed.1.get? column).getD 0 * 130⟩ := by
  rcases h.above other p hother with ⟨row, rfl, hrow⟩
  intro heq
  rw [Position.mk.injEq] at heq
  have hcolumn : (layer.get? other).getD 0 = column := by omega
  rw [hcolumn] at hrow
  omega

/-- One more node is placed apart from the others. -/
theorem PlacedApart.placeNode {layer : OrderedDict String Nat}
    {placed : OrderedDict Nat Nat × OrderedDict String Position} (h : PlacedApart layer placed)
    (id : String) : PlacedApart layer (placeNode layer placed id) := by
  unfold EtlTool.placeNode
  constructor
  · intro other p hother
    dsimp only at hother ⊢
    rw [OrderedDict.get?_set] at hother ⊢
    by_cases hid : other = id
    · subst hid
      rw [if_pos rfl] at hother ⊢
      cases hother
      exact ⟨_, rfl, Nat.lt_succ_self _⟩
    · rw [if_neg hid] at hother
      rcases h.above other p hother with ⟨row, hp, hrow⟩
      refine ⟨row, hp, ?_⟩
      by_cases hcolumn : (layer.get? other).getD 0 = (layer.get? id).getD 0
      · rw [if_pos hcolumn, ← hcolumn, Option.getD_some]
        omega
      · rw [if_neg hcolumn]
        exact hrow
  · intro first second p hfirst hsecond
    dsimp only at hfirst hsecond
    rw [OrderedDict.get?_set] at hfirst hsecond
    by_cases hone : first = id
    · by_cases htwo : second = id
      · rw [hone, htwo]
      · rw [if_pos hone, Option.some.injEq] at hfirst
        rw [if_neg htwo] at hsecond
        exact absurd hfirst.symm (h.next_apart _ hsecond)
    · rw [if_neg hone] at hfirst
      by_cases htwo : second = id
      · rw [if_pos htwo, Option.some.injEq] at hsecond
        exact absurd hsecond.symm (h.next_apart _ hfirst)
      · rw [if_neg htwo] at hsecond
        exact h.apart first second p hfirst hsecond

/-- No two nodes are placed at one position. -/
theorem placedApart_foldl (layer : OrderedDict String Nat) (ids : List String)
    {placed : OrderedDict Nat Nat × OrderedDict String Position} (h : PlacedApart layer placed) :
    PlacedApart layer (ids.foldl (placeNode layer) placed) := by
  induction ids generalizing placed with
  | nil => exact h
  | cons id rest ih => exact ih (h.placeNode id)

/-! ## The layout -/

/-- Every node has a position of its own, and without cycles every edge between nodes leads
to the right. -/
theorem layeredLayout_leftToRight (document : Fields) (ids : List String) (edges : List Value)
    (hids : nodeIds? document = some ids) (hnodup : ids.Nodup)
    (hedges : arrayField? document "edges" = some edges) :
    ∃ positions, layeredLayout document = some positions ∧
      (∀ id ∈ ids, (positions.get? id).isSome) ∧
      (∀ id ∈ ids, ∀ other ∈ ids, id ≠ other → positions.get? id ≠ positions.get? other) ∧
      ((∀ id, ¬ Relation.TransGen (DocumentEdge ids edges) id id) →
        ∀ source target, DocumentEdge ids edges source target → ∀ p q,
          positions.get? source = some p → positions.get? target = some q → p.x < q.x) := by
  have hdefined : (layeredLayout document).isSome := by
    rw [layeredLayout_isSome_iff, hids, hedges]
    exact ⟨rfl, rfl⟩
  rcases Option.isSome_iff_exists.mp hdefined with ⟨positions, hpositions⟩
  have hplaced : ∀ id ∈ ids, ∃ p, positions.get? id = some p := by
    intro id hid
    exact OrderedDict.exists_get?_of_mem_keys
      ((keys_layeredLayout hpositions id).mpr ⟨ids, hids, hid⟩)
  have hlayout := hpositions
  simp only [layeredLayout, hids, hedges, Option.bind_eq_bind, Option.bind_some,
    Option.bind_eq_some_iff, Option.some.injEq] at hlayout
  rcases hlayout with ⟨s, hs, rfl⟩
  have happart := placedApart_foldl (ids.foldl (fun layer id =>
    if layer.contains id then layer
    else layer.set id (s.ordered.foldl (fun m id => max m ((s.layer.get? id).getD 0)) 0 + 1))
    s.layer) ids (placedApart_empty _)
  refine ⟨_, hpositions, fun id hid => Option.isSome_iff_exists.mpr (hplaced id hid), ?_, ?_⟩
  · intro id hid other _ hne hsame
    rcases hplaced id hid with ⟨p, hp⟩
    exact hne (happart.apart id other p hp (hsame ▸ hp))
  · intro hacyclic source target hedge p q hp hq
    have hlinks := linksOf_foldl ids edges
    have hsuccs : ∀ id nexts, (edges.foldl linkEdge
        (OrderedDict.ofList (ids.map fun id => (id, ([] : List String))),
          OrderedDict.ofList (ids.map fun id => (id, ([] : List String))))).2.get? id =
        some nexts → nexts = (layoutGraph ids edges).targets id := by
      intro id nexts hget
      rw [hlinks.succs id] at hget
      split at hget
      · exact (Option.some.inj hget).symm
      · cases hget
    rcases layering_layerInv (fun _ _ => rfl) (inside_layoutGraph ids edges) hsuccs
      (loopInv_initialLayering hnodup edges hlinks) hs with ⟨hinv, hqueue⟩
    have hlayers := hinv.layers
    rw [hqueue] at hlayers
    have hgraph : ∀ v, ¬ Relation.TransGen (Graph.Edge (layoutGraph ids edges)) v v := by
      intro v hcycle
      refine hacyclic v (Relation.TransGen.mono ?_ v v hcycle)
      exact fun _ _ => layoutGraph_edge_iff.mp
    -- without cycles every node has been met, and keeps the layer that it has
    have hmet : ∀ id ∈ ids, id ∈ s.layer.keys := by
      intro id hid
      have hordered := hlayers.inv.mem_order_of_acyclic hgraph hid
      exact hinv.met id (List.mem_append_left _ hordered)
    have hcolumns := hlayers.lt_of_acyclic hgraph (layoutGraph_edge_iff.mpr hedge)
    rcases happart.above source p hp with ⟨_, rfl, -⟩
    rcases happart.above target q hq with ⟨_, rfl, -⟩
    rw [get?_foldl_leftover _ ids s.layer (hmet source hedge.1),
      get?_foldl_leftover _ ids s.layer (hmet target hedge.2.1)]
    have hlt : (s.layer.get? source).getD 0 < (s.layer.get? target).getD 0 := hcolumns
    dsimp only
    omega

namespace Samples

/-- The document of the editor's tests. -/
def genDouble : Fields :=
  [("nodes", .list [.dict [("id", .str "gen")], .dict [("id", .str "double")]]),
    ("edges", .list [.dict [("from", .str "gen"), ("to", .str "double")]])]

private theorem genDouble_acyclic (id : String) :
    ¬ Relation.TransGen (DocumentEdge ["gen", "double"]
    [.dict [("from", .str "gen"), ("to", .str "double")]]) id id := by
  have hedge : ∀ a b, DocumentEdge ["gen", "double"]
      [.dict [("from", .str "gen"), ("to", .str "double")]] a b → a = "gen" ∧ b = "double" := by
    intro a b h
    rcases h with ⟨-, -, edge, hmem, hfrom, hto⟩
    rw [List.mem_singleton] at hmem
    subst hmem
    exact ⟨(Option.some.inj hfrom).symm, (Option.some.inj hto).symm⟩
  intro hcycle
  have hends : ∀ b, Relation.TransGen (DocumentEdge ["gen", "double"]
      [.dict [("from", .str "gen"), ("to", .str "double")]]) id b → id = "gen" ∧ b = "double" := by
    intro b hpath
    induction hpath with
    | single h => exact hedge _ _ h
    | tail _ h ih => exact ⟨ih.1, (hedge _ _ h).2⟩
  rcases hends id hcycle with ⟨rfl, hdouble⟩
  revert hdouble
  decide

end Samples

open Samples

theorem layeredLayout_leftToRight_genDouble :
    ∃ positions, layeredLayout genDouble = some positions ∧
      ∀ p q, positions.get? "gen" = some p → positions.get? "double" = some q → p.x < q.x := by
  rcases layeredLayout_leftToRight genDouble ["gen", "double"]
    [.dict [("from", .str "gen"), ("to", .str "double")]] rfl (by decide) rfl with
    ⟨positions, hpositions, -, -, hright⟩
  refine ⟨positions, hpositions, hright genDouble_acyclic "gen" "double" ?_⟩
  exact ⟨by decide, by decide, _, List.mem_singleton_self _, rfl, rfl⟩

end EtlTool
