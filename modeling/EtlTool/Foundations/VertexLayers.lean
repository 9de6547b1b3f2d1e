import EtlTool.Foundations.TopologicalSort

/-!
# Layers along Kahn's sort

Every vertex gets a layer while the vertices of a graph are removed: when a vertex is
removed, the targets of its edges are pushed behind its own layer.  A vertex is removed
after its last predecessor, so that its layer is final by then.

Main results:

- Theorem {lit}`LayerInv.step`: removing a ready vertex keeps the layers of the removed
  vertices in front of their targets.
- Theorem {lit}`LayerInv.lt_of_acyclic`: once nothing is ready, a graph without cycles has
  every edge lead to a later layer.
-/

namespace TopologicalSort

variable {α : Type*} [DecidableEq α]

namespace Graph

/-- Push vertices, one after the other, behind the layer of a vertex. -/
def pushBehind (v : α) (layer : α → Nat) (targets : List α) : α → Nat :=
  targets.foldl (fun layer w => Function.update layer w (max (layer w) (layer v + 1))) layer

/-- A vertex that is not pushed behind itself keeps its layer, and so does every vertex that
is not pushed. -/
theorem pushBehind_of_notMem {v : α} {targets : List α} (hv : v ∉ targets) {w : α}
    (hw : w ∉ targets) (layer : α → Nat) : pushBehind v layer targets w = layer w := by
  induction targets generalizing layer with
  | nil => rfl
  | cons target rest ih =>
      rw [List.mem_cons, not_or] at hv hw
      rw [pushBehind, List.foldl_cons]
      exact (ih hv.2 hw.2 _).trans (Function.update_of_ne hw.1 _ _)

/-- No layer gets smaller. -/
theorem le_pushBehind (v : α) (targets : List α) (layer : α → Nat) (w : α) :
    layer w ≤ pushBehind v layer targets w := by
  induction targets generalizing layer with
  | nil => exact Nat.le_refl _
  | cons target rest ih =>
      rw [pushBehind, List.foldl_cons]
      refine le_trans ?_ (ih _)
      by_cases hw : w = target
      · subst hw
        rw [Function.update_self]
        omega
      · rw [Function.update_of_ne hw]

/-- A vertex that is pushed gets behind. -/
theorem lt_pushBehind {v : α} {targets : List α} (hv : v ∉ targets) {w : α} (hw : w ∈ targets)
    (layer : α → Nat) : layer v < pushBehind v layer targets w := by
  induction targets generalizing layer with
  | nil => exact absurd hw List.not_mem_nil
  | cons target rest ih =>
      rw [List.mem_cons, not_or] at hv
      rw [pushBehind, List.foldl_cons]
      rcases List.mem_cons.mp hw with rfl | hrest
      · refine lt_of_lt_of_le ?_ (le_pushBehind v rest _ w)
        rw [Function.update_self]
        omega
      · have hsame := ih hv.2 hrest (Function.update layer target (max (layer target) (layer v + 1)))
        rwa [Function.update_of_ne hv.1] at hsame

omit [DecidableEq α] in
/-- Without a ranking the vertices stay in the order in which they became ready. -/
theorem sortByRank_of_rank_eq {g : Graph α} (hrank : ∀ v w, g.rank v = g.rank w) (l : List α) :
    g.sortByRank l = l := by
  refine List.Pairwise.insertionSort_eq ?_
  exact List.pairwise_of_forall fun v w => (hrank v w).le

theorem mem_targets {g : Graph α} {v w : α} : w ∈ g.targets v ↔ (v, w) ∈ g.edges := by
  simp only [targets, List.mem_map, List.mem_filter, decide_eq_true_eq]
  constructor
  · rintro ⟨⟨u, x⟩, ⟨hedge, rfl⟩, rfl⟩
    exact hedge
  · exact fun h => ⟨(v, w), ⟨h, rfl⟩, rfl⟩

/-- What the main loop knows about the layers: those of the removed vertices are final. -/
structure LayerInv (g : Graph α) (layer : α → Nat) (degree : α → Int) (ready order : List α) :
    Prop where
  inv : Inv g degree ready order
  layered : ∀ u w, (u, w) ∈ g.edges → u ∈ order → w ∈ g.vertices → layer u < layer w

variable {g : Graph α}

theorem LayerInv.init (layer : α → Nat) {degree : α → Int} {ready : List α}
    (h : Inv g degree ready []) : LayerInv g layer degree ready [] where
  inv := h
  layered := fun _ _ _ hu => absurd hu List.not_mem_nil

/-- A vertex with an edge from a vertex that is still there is neither ready nor removed. -/
theorem Inv.notMem_of_edge {degree : α → Int} {ready order : List α} (h : Inv g degree ready order)
    {v w : α} (hedge : (v, w) ∈ g.edges) (hv : v ∈ g.vertices) (hopen : v ∉ order)
    (hw : w ∈ g.vertices) : w ∉ order ++ ready := by
  rw [← h.ready w hw, remaining, List.countP_eq_zero]
  intro hnone
  have hcounted := hnone (v, w) hedge
  simp [hv, hopen] at hcounted

/-- Removing a ready vertex keeps the layers of the removed vertices in front of their
targets. -/
theorem LayerInv.step (hrank : ∀ v w, g.rank v = g.rank w) {layer : α → Nat} {degree : α → Int}
    {v : α} {ready order : List α} (h : LayerInv g layer degree (v :: ready) order) :
    LayerInv g (pushBehind v layer (g.targets v)) (g.relax (g.targets v) degree []).1
      (ready ++ (g.relax (g.targets v) degree []).2) (order ++ [v]) := by
  have hv : v ∈ g.vertices := h.inv.subset v (by simp)
  have hnew : v ∉ order := by
    intro hmem
    exact (List.nodup_append.mp h.inv.nodup).2.2 v hmem v List.mem_cons_self rfl
  -- the vertices that are ready or removed are no targets of v, as their edges are used up
  have hfinal : ∀ u ∈ order ++ v :: ready, u ∉ g.targets v := by
    intro u hu htarget
    exact h.inv.notMem_of_edge (mem_targets.mp htarget) hv hnew (h.inv.subset u hu) hu
  have hself : v ∉ g.targets v := hfinal v (by simp)
  constructor
  · have hstep := h.inv.step
    rwa [sortByRank_of_rank_eq hrank, sortByRank_of_rank_eq hrank] at hstep
  · intro u w hedge hu hw
    rcases List.mem_append.mp hu with hu | hu
    · rw [pushBehind_of_notMem hself (hfinal u (List.mem_append_left _ hu))]
      exact lt_of_lt_of_le (h.layered u w hedge hu hw) (le_pushBehind v _ layer w)
    · rw [List.mem_singleton] at hu
      subst hu
      rw [pushBehind_of_notMem hself hself]
      exact lt_pushBehind hself (mem_targets.mpr hedge) layer

/-- Once nothing is ready, every edge of a graph without cycles leads to a later layer. -/
theorem LayerInv.lt_of_acyclic {layer : α → Nat} {degree : α → Int} {order : List α}
    (h : LayerInv g layer degree [] order) (hacyclic : ∀ v, ¬ Relation.TransGen (Edge g) v v)
    {u w : α} (hedge : Edge g u w) : layer u < layer w :=
  h.layered u w hedge.1 (h.inv.mem_order_of_acyclic hacyclic hedge.2.1) hedge.2.2

end Graph

end TopologicalSort
