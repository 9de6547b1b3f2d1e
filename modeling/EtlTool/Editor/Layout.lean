import EtlTool.Core.Documents
import EtlTool.Foundations.OrderedDict

/-!
# The layout of a loaded document

The editor places the nodes of a stored document in columns: a node without
predecessors stands in the first column and every other node to the right of its
predecessors.  The columns come from a queue of nodes whose incoming edges have all
been seen; nodes on a cycle never get there and share one last column.

The loop is written with fuel.  A node enters the queue either at the start or when its
count of open incoming edges drops to zero, and the count never grows, so the queue and
the positive counts together bound the number of rounds.

Main results:

- Theorem {lit}`layering_isSome`: the loop ends, for any list of ids and edges.
- Theorem {lit}`layeredLayout_isSome_iff`: the layout is defined exactly on the documents
  that list nodes with ids and list edges.
- Theorem {lit}`keys_layeredLayout`: every node gets a position.

Current gaps:

- The node id {lit}`__proto__`, under which a plain object of the browser stores nothing.
-/

namespace EtlTool

/-! ## What the editor reads of a document -/

/-- An array of the document; the editor fails on a missing one. -/
def arrayField? (document : Fields) (key : String) : Option (List Value) :=
  match document.lookup key with
  | some (.list items) => some items
  | _ => none

/-- A string field of a part of the document; {lean}`none` when it is undefined. -/
def textOf? (part : Value) (key : String) : Option String :=
  match part with
  | .dict fields => stringField? fields key
  | _ => none

@[simp]
theorem textOf?_dict (fields : Fields) (key : String) :
    textOf? (.dict fields) key = stringField? fields key :=
  rfl

/-- {lit}`spec.nodes.map((n) => n.id)`, for a document of its declared type. -/
def nodeIds? (document : Fields) : Option (List String) := do
  let nodes ← arrayField? document "nodes"
  nodes.mapM fun node => textOf? node "id"

/-! ## The layers -/

/-- The variables of the layering loop. -/
structure Layering where
  layer : OrderedDict String Nat
  indeg : OrderedDict String Int
  queue : List String
  ordered : List String

/-- One edge of the document, entered into {lit}`preds` and {lit}`succs` when both of its
ends are nodes. -/
def linkEdge (links : OrderedDict String (List String) × OrderedDict String (List String))
    (edge : Value) : OrderedDict String (List String) × OrderedDict String (List String) :=
  match textOf? edge "from", textOf? edge "to" with
  | some source, some target =>
      match links.1.get? target, links.2.get? source with
      | some before, some after =>
          (links.1.set target (before ++ [source]), links.2.set source (after ++ [target]))
      | _, _ => links
  | _, _ => links

/-- One successor of the node that has left the queue. -/
def relax (id : String) (s : Layering) (next : String) : Layering :=
  let layer := max ((s.layer.get? next).getD 0) ((s.layer.get? id).getD 0 + 1)
  let indeg := (s.indeg.get? next).getD 0 - 1
  { s with
    layer := s.layer.set next layer
    indeg := s.indeg.set next indeg
    queue := if indeg = 0 then s.queue ++ [next] else s.queue }

/-- {lit}`while (queue.length)`; fails when a queued id has no successor list, or without
fuel. -/
def layering (succs : OrderedDict String (List String)) : Nat → Layering → Option Layering
  | 0, s => if s.queue = [] then some s else none
  | fuel + 1, s =>
      match s.queue with
      | [] => some s
      | id :: rest => do
          let nexts ← succs.get? id
          layering succs fuel
            (nexts.foldl (relax id) { s with queue := rest, ordered := s.ordered ++ [id] })

/-- The variables before the loop. -/
def initialLayering (ids : List String) (preds : OrderedDict String (List String)) : Layering :=
  let indeg := OrderedDict.ofList
    (ids.map fun id => (id, (((preds.get? id).getD []).length : Int)))
  let queue := ids.filter fun id => decide (indeg.get? id = some 0)
  { layer := OrderedDict.ofList (queue.map fun id => (id, 0))
    indeg := indeg
    queue := queue
    ordered := [] }

/-! ## Positions -/

/-- A point of the canvas. -/
structure Position where
  x : Nat
  y : Nat
deriving DecidableEq

/-- The next node of a column goes below the ones that are there. -/
def placeNode (layer : OrderedDict String Nat)
    (placed : OrderedDict Nat Nat × OrderedDict String Position) (id : String) :
    OrderedDict Nat Nat × OrderedDict String Position :=
  let column := (layer.get? id).getD 0
  let row := (placed.1.get? column).getD 0
  (placed.1.set column (row + 1), placed.2.set id ⟨40 + column * 260, 40 + row * 130⟩)

/-- {lit}`layeredLayout`, for a document of its declared type but for missing edges and
missing ends of an edge. -/
def layeredLayout (document : Fields) : Option (OrderedDict String Position) := do
  let ids ← nodeIds? document
  let edges ← arrayField? document "edges"
  let unlinked := OrderedDict.ofList (ids.map fun id => (id, ([] : List String)))
  let links := edges.foldl linkEdge (unlinked, unlinked)
  let s ← layering links.2 (2 * ids.length) (initialLayering ids links.1)
  let maxLayer := s.ordered.foldl (fun m id => max m ((s.layer.get? id).getD 0)) 0
  let layer := ids.foldl
    (fun layer id => if layer.contains id then layer else layer.set id (maxLayer + 1)) s.layer
  some (ids.foldl (placeNode layer) (.empty, .empty)).2

/-! ## The loop ends -/

/-- Rounds that are still possible: the queued nodes and the nodes with open incoming
edges. -/
def Layering.pending (s : Layering) : Nat :=
  s.queue.length + s.indeg.values.countP fun n => decide (0 < n)

/-- A successor that enters the queue had one open incoming edge. -/
theorem pending_relax_le (id : String) (s : Layering) (next : String) :
    (relax id s next).pending ≤ s.pending := by
  have hcount := s.indeg.countP_values_set (fun n => decide (0 < n)) next
    ((s.indeg.get? next).getD 0 - 1)
  simp only [Layering.pending, relax]
  cases hold : s.indeg.get? next with
  | none =>
      rw [hold] at hcount
      simp at hcount ⊢
      omega
  | some n =>
      rw [hold] at hcount
      simp only [Option.any_some, decide_eq_true_eq, Option.getD_some] at hcount ⊢
      by_cases hzero : n - 1 = 0
      · have hone : 0 < n := by omega
        simp [hzero, hone] at hcount ⊢
        omega
      · rw [if_neg hzero]
        split at hcount <;> split at hcount <;> omega

private theorem pending_foldl_relax_le (id : String) (nexts : List String) (s : Layering) :
    (nexts.foldl (relax id) s).pending ≤ s.pending := by
  induction nexts generalizing s with
  | nil => exact Nat.le_refl _
  | cons next nexts ih => exact (ih _).trans (pending_relax_le id s next)

/-- Only successors enter the queue. -/
theorem mem_queue_foldl_relax {id x : String} {nexts : List String} {s : Layering}
    (h : x ∈ (nexts.foldl (relax id) s).queue) : x ∈ s.queue ∨ x ∈ nexts := by
  induction nexts generalizing s with
  | nil => exact Or.inl h
  | cons next nexts ih =>
      rcases ih h with hqueue | hnexts
      · simp only [relax] at hqueue
        split at hqueue
        · rcases List.mem_append.mp hqueue with hold | hnew
          · exact Or.inl hold
          · exact Or.inr (List.mem_cons.mpr (Or.inl (List.mem_singleton.mp hnew)))
        · exact Or.inl hqueue
      · exact Or.inr (List.mem_cons_of_mem next hnexts)

/-- Every successor list holds nodes only. -/
def LinksInside (succs : OrderedDict String (List String)) : Prop :=
  ∀ id nexts, succs.get? id = some nexts → ∀ next ∈ nexts, next ∈ succs.keys

/-- The loop ends within the pending rounds when every queued id is a node. -/
theorem layering_isSome {succs : OrderedDict String (List String)} (hlinks : LinksInside succs)
    (fuel : Nat) (s : Layering) (hqueue : ∀ id ∈ s.queue, id ∈ succs.keys)
    (hfuel : s.pending ≤ fuel) : (layering succs fuel s).isSome := by
  induction fuel generalizing s with
  | zero =>
      have hempty : s.queue = [] := by
        apply List.eq_nil_of_length_eq_zero
        unfold Layering.pending at hfuel
        omega
      simp [layering, hempty]
  | succ fuel ih =>
      cases hs : s.queue with
      | nil => simp [layering, hs]
      | cons id rest =>
          rcases OrderedDict.exists_get?_of_mem_keys (hqueue id (by simp [hs])) with ⟨nexts, hnexts⟩
          simp only [layering, hs, hnexts, Option.bind_eq_bind, Option.bind_some]
          apply ih
          · intro x hx
            rcases mem_queue_foldl_relax hx with hrest | hnext
            · exact hqueue x (by simp [hs, hrest])
            · exact hlinks id nexts hnexts x hnext
          · refine (pending_foldl_relax_le id nexts _).trans ?_
            simp only [Layering.pending, hs, List.length_cons] at hfuel ⊢
            omega

private theorem pending_initialLayering_le (ids : List String)
    (preds : OrderedDict String (List String)) :
    (initialLayering ids preds).pending ≤ 2 * ids.length := by
  have hqueue : (initialLayering ids preds).queue.length ≤ ids.length := List.length_filter_le _ _
  have hvalues := OrderedDict.length_values_ofList_le
    (ids.map fun id => (id, (((preds.get? id).getD []).length : Int)))
  have hcount := List.countP_le_length (p := fun n : Int => decide (0 < n))
    (l := (initialLayering ids preds).indeg.values)
  rw [List.length_map] at hvalues
  have hindeg : (initialLayering ids preds).indeg.values.length ≤ ids.length := hvalues
  unfold Layering.pending
  omega

/-! ## The layout is defined -/

/-- The successor lists have the given keys, and hold keys only. -/
structure LinksOver (ids : List String)
    (links : OrderedDict String (List String) × OrderedDict String (List String)) : Prop where
  preds_keys : ∀ id, id ∈ links.1.keys ↔ id ∈ ids
  succs_keys : ∀ id, id ∈ links.2.keys ↔ id ∈ ids
  inside : LinksInside links.2

theorem LinksOver.init (ids : List String) :
    LinksOver ids (OrderedDict.ofList (ids.map fun id => (id, ([] : List String))),
      OrderedDict.ofList (ids.map fun id => (id, ([] : List String)))) where
  preds_keys := by simp
  succs_keys := by simp
  inside := by
    intro id nexts hget
    rw [OrderedDict.get?_ofList_map] at hget
    split at hget
    · cases hget
      simp
    · cases hget

theorem LinksOver.linkEdge {ids : List String}
    {links : OrderedDict String (List String) × OrderedDict String (List String)}
    (h : LinksOver ids links) (edge : Value) : LinksOver ids (linkEdge links edge) := by
  unfold EtlTool.linkEdge
  split
  · rename_i source target _ _
    split
    · rename_i before after hbefore hafter
      have htarget := OrderedDict.mem_keys_of_get? hbefore
      have hsource := OrderedDict.mem_keys_of_get? hafter
      refine ⟨fun id => ?_, fun id => ?_, ?_⟩
      · rw [OrderedDict.mem_keys_set, h.preds_keys]
        exact or_iff_right_of_imp fun hid => hid ▸ (h.preds_keys target).mp htarget
      · rw [OrderedDict.mem_keys_set, h.succs_keys]
        exact or_iff_right_of_imp fun hid => hid ▸ (h.succs_keys source).mp hsource
      · intro id nexts hget next hnext
        rw [OrderedDict.mem_keys_set]
        rw [OrderedDict.get?_set] at hget
        split at hget
        · cases hget
          rcases List.mem_append.mp hnext with hold | hnew
          · exact Or.inr (h.inside source after hafter next hold)
          · rw [List.mem_singleton.mp hnew, h.succs_keys]
            exact Or.inr ((h.preds_keys target).mp htarget)
        · exact Or.inr (h.inside id nexts hget next hnext)
    · exact h
  · exact h

theorem LinksOver.foldl {ids : List String}
    {links : OrderedDict String (List String) × OrderedDict String (List String)}
    (h : LinksOver ids links) (edges : List Value) :
    LinksOver ids (edges.foldl EtlTool.linkEdge links) := by
  induction edges generalizing links with
  | nil => exact h
  | cons edge edges ih => exact ih (h.linkEdge edge)

/-- The layout is defined exactly on the documents that list nodes with ids and list
edges. -/
theorem layeredLayout_isSome_iff (document : Fields) :
    (layeredLayout document).isSome ↔
      (nodeIds? document).isSome ∧ (arrayField? document "edges").isSome := by
  unfold layeredLayout
  cases hids : nodeIds? document with
  | none => simp
  | some ids =>
      cases hedges : arrayField? document "edges" with
      | none => simp
      | some edges =>
          have hover := (LinksOver.init ids).foldl edges
          have hqueue : ∀ id ∈ (initialLayering ids (edges.foldl linkEdge (OrderedDict.ofList
              (ids.map fun id => (id, ([] : List String))), OrderedDict.ofList
              (ids.map fun id => (id, ([] : List String))))).1).queue, id ∈ ids := fun id hid =>
            (List.mem_filter.mp hid).1
          have hloop := layering_isSome hover.inside (2 * ids.length) _
            (fun id hid => (hover.succs_keys id).mpr (hqueue id hid))
            (pending_initialLayering_le ids _)
          rcases Option.isSome_iff_exists.mp hloop with ⟨s, hs⟩
          simp [hs]

private theorem mem_keys_foldl_placeNode (layer : OrderedDict String Nat) (ids : List String)
    (placed : OrderedDict Nat Nat × OrderedDict String Position) (id : String) :
    id ∈ (ids.foldl (placeNode layer) placed).2.keys ↔ id ∈ ids ∨ id ∈ placed.2.keys := by
  induction ids generalizing placed with
  | nil => simp
  | cons head ids ih =>
      rw [List.foldl_cons, ih]
      simp only [placeNode, OrderedDict.mem_keys_set, List.mem_cons]
      tauto

/-- Every node gets a position, and nothing else does. -/
theorem keys_layeredLayout {document : Fields} {positions : OrderedDict String Position}
    (h : layeredLayout document = some positions) (id : String) :
    id ∈ positions.keys ↔ ∃ ids, nodeIds? document = some ids ∧ id ∈ ids := by
  simp only [layeredLayout, Option.bind_eq_bind, Option.bind_eq_some_iff, Option.some.injEq] at h
  rcases h with ⟨ids, hids, _, _, _, _, rfl⟩
  rw [mem_keys_foldl_placeNode]
  simp [hids]

/-- The example of the editor's tests: the downstream node stands to the right. -/
example : (layeredLayout
      [("nodes", .list [.dict [("id", .str "gen")], .dict [("id", .str "double")]]),
        ("edges", .list [.dict [("from", .str "gen"), ("to", .str "double")]])]).map
      (fun positions => positions.entries) =
    some [("gen", ⟨40, 40⟩), ("double", ⟨300, 40⟩)] := by
  decide +kernel

end EtlTool
