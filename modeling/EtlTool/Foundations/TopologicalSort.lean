import Mathlib.Data.Fintype.Card
import Mathlib.Data.List.Count
import Mathlib.Data.List.Lex
import Mathlib.Data.List.Perm.Subperm
import Mathlib.Data.List.Sort
import Mathlib.Data.Set.Finite.Basic
import Mathlib.Logic.Function.Basic
import Mathlib.Logic.Relation
import Mathlib.Order.WellFounded

/-!
# Kahn's topological sort

Repeatedly remove a vertex without remaining predecessors, always the least one
in a given ranking.  Vertices that lie on or behind a cycle never become ready,
so the graph has a topological order only if every vertex was removed.

Edges may be parallel and may name vertices outside the graph; the latter are
ignored.

Main results:

- Theorem {lit}`order_perm`: a returned order lists every vertex exactly once.
- Theorem {lit}`order_precedes`: in a returned order the source of every edge
  precedes its target.
- Theorem {lit}`order_acyclic`: a graph for which an order is returned has no
  directed cycle.
- Theorem {lit}`order?_isSome_of_acyclic`: a graph without directed cycles has an order.
- Theorem {lit}`order_least`: if no two vertices have the same rank, a returned order is
  the lexicographically least one.
-/

namespace TopologicalSort

variable {α : Type*} [DecidableEq α]

/-- A finite graph together with the ranking that breaks ties. -/
structure Graph (α : Type*) where
  vertices : List α
  edges : List (α × α)
  rank : α → Nat

/-- Occurrence of one element strictly before an occurrence of another. -/
def Precedes (l : List α) (a b : α) : Prop :=
  ∃ before after, l = before ++ b :: after ∧ a ∈ before

namespace Graph

/-- Targets of the edges that leave a vertex, in edge order. -/
def targets (g : Graph α) (v : α) : List α :=
  (g.edges.filter fun e => e.1 = v).map Prod.snd

/-- Number of edges into a vertex from vertices of the graph that are not yet
removed. -/
def remaining (g : Graph α) (removed : List α) (v : α) : Nat :=
  g.edges.countP fun e => e.2 = v ∧ e.1 ∈ g.vertices ∧ e.1 ∉ removed

/-- The in-degrees before anything is removed. -/
def inDegree (g : Graph α) (v : α) : Int :=
  g.remaining [] v

/-- Sort by rank; equal ranks keep their order. -/
def sortByRank (g : Graph α) (l : List α) : List α :=
  l.insertionSort fun a b => g.rank a ≤ g.rank b

/-- Decrement the in-degree of each listed target in turn, collecting the
vertices whose in-degree reaches zero. -/
def relax (g : Graph α) : List α → (α → Int) → List α → (α → Int) × List α
  | [], degree, newly => (degree, newly)
  | v :: rest, degree, newly =>
      if v ∈ g.vertices then
        g.relax rest (Function.update degree v (degree v - 1))
          (if degree v - 1 = 0 then newly ++ [v] else newly)
      else g.relax rest degree newly

/-- The main loop; the fuel bounds the number of removed vertices. -/
def loop (g : Graph α) : Nat → (α → Int) → List α → List α → List α
  | 0, _, _, order => order
  | _ + 1, _, [], order => order
  | fuel + 1, degree, v :: ready, order =>
      g.loop fuel (g.relax (g.targets v) degree []).1
        (g.sortByRank (ready ++ g.sortByRank (g.relax (g.targets v) degree []).2)) (order ++ [v])

/-- The vertices that are ready from the start. -/
def sources (g : Graph α) : List α :=
  g.sortByRank (g.vertices.filter fun v => g.inDegree v = 0)

/-- A topological order, unless some vertex was never removed. -/
def order? (g : Graph α) : Option (List α) :=
  let order := g.loop (g.vertices.length + 1) g.inDegree g.sources []
  if order.length = g.vertices.length then some order else none

end Graph

/-! ## Precedence -/

omit [DecidableEq α] in
theorem Precedes.append {l : List α} {a b : α} (h : Precedes l a b) (l' : List α) :
    Precedes (l ++ l') a b := by
  rcases h with ⟨before, after, rfl, ha⟩
  exact ⟨before, after ++ l', by simp, ha⟩

omit [DecidableEq α] in
theorem Precedes.last {l : List α} {a : α} (ha : a ∈ l) (b : α) : Precedes (l ++ [b]) a b :=
  ⟨l, [], rfl, ha⟩

omit [DecidableEq α] in
theorem Precedes.mem_left {l : List α} {a b : α} (h : Precedes l a b) : a ∈ l := by
  rcases h with ⟨before, after, rfl, ha⟩
  exact List.mem_append_left _ ha

omit [DecidableEq α] in
/-- In a list without repetitions, what precedes an element is determined. -/
theorem Precedes.mem_initial {l before after : List α} {a b : α} (h : Precedes l a b)
    (hnodup : l.Nodup) (hsplit : l = before ++ b :: after) : a ∈ before := by
  rcases h with ⟨before', after', hsplit', ha⟩
  have hb : b ∉ before ∧ b ∉ before' := by
    constructor
    · intro hmem
      rw [hsplit, List.nodup_append] at hnodup
      exact hnodup.2.2 b hmem b List.mem_cons_self rfl
    · intro hmem
      rw [hsplit', List.nodup_append] at hnodup
      exact hnodup.2.2 b hmem b List.mem_cons_self rfl
  rw [hsplit] at hsplit'
  rcases List.append_eq_append_iff.mp hsplit' with ⟨mid, hmid, hrest⟩ | ⟨mid, hmid, hrest⟩
  · cases mid with
    | nil => simpa [hmid] using ha
    | cons c mid =>
        have hc : b = c := by simpa using congrArg List.head? hrest
        subst hc
        exact absurd (hmid ▸ List.mem_append_right before List.mem_cons_self) hb.2
  · cases mid with
    | nil => simpa [hmid] using ha
    | cons c mid => exact hmid ▸ List.mem_append_left _ ha

omit [DecidableEq α] in
/-- Precedence is irreflexive in a list without repetitions. -/
theorem Precedes.irrefl {l : List α} (hnodup : l.Nodup) (a : α) : ¬ Precedes l a a := by
  rintro ⟨before, after, rfl, ha⟩
  exact (List.nodup_append.mp hnodup).2.2 a ha a List.mem_cons_self rfl

omit [DecidableEq α] in
/-- Precedence is transitive in a list without repetitions. -/
theorem Precedes.trans {l : List α} {a b c : α} (hnodup : l.Nodup) (hab : Precedes l a b)
    (hbc : Precedes l b c) : Precedes l a c := by
  rcases hbc with ⟨before, after, hsplit, hb⟩
  rcases List.append_of_mem hb with ⟨s, t, hst⟩
  have hsplit' : l = s ++ b :: (t ++ c :: after) := by
    rw [hsplit, hst]
    simp
  have ha : a ∈ s := hab.mem_initial hnodup hsplit'
  exact ⟨before, after, hsplit, hst ▸ List.mem_append_left _ ha⟩

omit [DecidableEq α] in
/-- Filtering keeps the order of the elements it keeps. -/
theorem Precedes.filter {l : List α} {a b : α} (h : Precedes l a b) {p : α → Bool}
    (ha : p a = true) (hb : p b = true) : Precedes (l.filter p) a b := by
  rcases h with ⟨before, after, rfl, hmem⟩
  refine ⟨before.filter p, after.filter p, ?_, List.mem_filter.mpr ⟨hmem, ha⟩⟩
  rw [List.filter_append, List.filter_cons_of_pos hb]

/-- What comes before the first occurrence of a member precedes it. -/
theorem precedes_of_mem_takeWhile {l : List α} {a b : α} (hb : b ∈ l)
    (ha : a ∈ l.takeWhile fun x => decide (x ≠ b)) : Precedes l a b := by
  induction l with
  | nil => cases hb
  | cons head rest ih =>
      by_cases hhead : head = b
      · simp [hhead] at ha
      · rw [List.takeWhile_cons, if_pos (by simpa using hhead)] at ha
        have hrest : b ∈ rest := by simpa [Ne.symm hhead] using hb
        rcases List.mem_cons.mp ha with rfl | ha
        · rcases List.append_of_mem hrest with ⟨before, after, rfl⟩
          exact ⟨a :: before, after, rfl, List.mem_cons_self⟩
        · rcases ih hrest ha with ⟨before, after, rfl, hmem⟩
          exact ⟨head :: before, after, rfl, List.mem_cons_of_mem _ hmem⟩

/-! ## Relaxing the edges of one vertex -/

namespace Graph

variable {g : Graph α}

private theorem relax_degree (vs : List α) (degree : α → Int) (newly : List α) {w : α}
    (hw : w ∈ g.vertices) :
    (g.relax vs degree newly).1 w = degree w - vs.count w := by
  induction vs generalizing degree newly with
  | nil => simp [relax]
  | cons v rest ih =>
      unfold relax
      by_cases hv : v ∈ g.vertices
      · rw [if_pos hv, ih]
        by_cases hvw : w = v
        · subst hvw
          simp only [Function.update_self, List.count_cons_self]
          omega
        · rw [Function.update_of_ne hvw, List.count_cons_of_ne (Ne.symm hvw)]
      · rw [if_neg hv, ih]
        have hvw : v ≠ w := fun heq => hv (heq ▸ hw)
        rw [List.count_cons_of_ne hvw]

/-- With enough in-degree left, exactly the targets that use it up become
ready, each once. -/
theorem relax_newly (vs : List α) {degree : α → Int} {newly : List α}
    (hdegree : ∀ w ∈ g.vertices, (vs.count w : Int) ≤ degree w)
    (hnewly : newly.Nodup) (hzero : ∀ w ∈ newly, w ∈ g.vertices ∧ degree w = 0) :
    (g.relax vs degree newly).2.Nodup ∧
      ∀ w, w ∈ (g.relax vs degree newly).2 ↔
        w ∈ newly ∨ (w ∈ g.vertices ∧ w ∈ vs ∧ degree w = vs.count w) := by
  induction vs generalizing degree newly with
  | nil => simpa [relax] using hnewly
  | cons v rest ih =>
      unfold relax
      by_cases hv : v ∈ g.vertices
      · rw [if_pos hv]
        have hpos : (1 : Int) + rest.count v ≤ degree v := by
          have := hdegree v hv
          rw [List.count_cons_self] at this
          omega
        have hv' : v ∉ newly := by
          intro hmem
          have := (hzero v hmem).2
          omega
        have hdegree' : ∀ w ∈ g.vertices,
            (rest.count w : Int) ≤ Function.update degree v (degree v - 1) w := by
          intro w hw
          by_cases hwv : w = v
          · subst hwv
            rw [Function.update_self]
            omega
          · have := hdegree w hw
            rw [List.count_cons_of_ne (Ne.symm hwv)] at this
            rwa [Function.update_of_ne hwv]
        have hnodup' : (if degree v - 1 = 0 then newly ++ [v] else newly).Nodup := by
          split
          · rw [List.nodup_append]
            refine ⟨hnewly, List.nodup_singleton v, ?_⟩
            intro a ha b hb
            rw [List.mem_singleton] at hb
            subst hb
            exact fun heq => hv' (heq ▸ ha)
          · exact hnewly
        have hzero' : ∀ w ∈ (if degree v - 1 = 0 then newly ++ [v] else newly),
            w ∈ g.vertices ∧ Function.update degree v (degree v - 1) w = 0 := by
          have hold : ∀ w ∈ newly,
              w ∈ g.vertices ∧ Function.update degree v (degree v - 1) w = 0 := by
            intro w hw
            have hwv : w ≠ v := fun heq => hv' (heq ▸ hw)
            rw [Function.update_of_ne hwv]
            exact hzero w hw
          intro w hw
          split at hw
          · rename_i hz
            rcases List.mem_append.mp hw with hw | hw
            · exact hold w hw
            · rw [List.mem_singleton] at hw
              subst hw
              exact ⟨hv, by rw [Function.update_self]; exact hz⟩
          · exact hold w hw
        rcases ih hdegree' hnodup' hzero' with ⟨hnodup, hmem⟩
        refine ⟨hnodup, fun w => ?_⟩
        rw [hmem]
        by_cases hwv : w = v
        · subst hwv
          rw [Function.update_self, List.count_cons_self]
          by_cases hlast : degree w - 1 = 0
          · have hcount : rest.count w = 0 := by omega
            simp [hv, hcount, show degree w = 1 by omega]
          · have hiff : degree w - 1 = (rest.count w : Int) ↔
                degree w = ((rest.count w + 1 : Nat) : Int) := by omega
            simp only [hlast, if_false, hv, true_and, List.mem_cons, true_or, hiff]
            constructor
            · rintro (h | ⟨_, h⟩)
              · exact Or.inl h
              · exact Or.inr h
            · rintro (h | h)
              · exact Or.inl h
              · refine Or.inr ⟨?_, h⟩
                apply List.count_pos_iff.mp
                omega
        · rw [Function.update_of_ne hwv, List.count_cons_of_ne (Ne.symm hwv)]
          have hold : w ∈ (if degree v - 1 = 0 then newly ++ [v] else newly) ↔ w ∈ newly := by
            split <;> simp [hwv]
          rw [hold]
          simp [hwv]
      · rw [if_neg hv]
        have hcount : ∀ w ∈ g.vertices, (v :: rest).count w = rest.count w := by
          intro w hw
          have hvw : v ≠ w := fun heq => hv (heq ▸ hw)
          exact List.count_cons_of_ne hvw
        rcases ih (fun w hw => hcount w hw ▸ hdegree w hw) hnewly hzero with ⟨hnodup, hmem⟩
        refine ⟨hnodup, fun w => ?_⟩
        rw [hmem]
        refine or_congr_right (and_congr_right fun hw => ?_)
        have hwv : w ≠ v := fun heq => hv (heq ▸ hw)
        rw [hcount w hw]
        simp [hwv]

/-- Removing a vertex takes away its edges. -/
theorem remaining_append (removed : List α) {v : α} (hv : v ∈ g.vertices) (hnew : v ∉ removed)
    (w : α) : g.remaining removed w = g.remaining (removed ++ [v]) w + (g.targets v).count w := by
  unfold remaining targets
  rw [List.count_eq_countP, List.countP_map, List.countP_filter]
  induction g.edges with
  | nil => rfl
  | cons e rest ih =>
      simp only [List.countP_cons, ih]
      by_cases hw : e.2 = w
      · by_cases hev : e.1 = v
        · simp [hw, hev, hv, hnew]
          omega
        · simp [hw, hev]
          omega
      · simp [hw]

/-! ## The loop invariant -/

/-- What the main loop knows about in-degrees, ready vertices and the order
built so far. -/
structure Inv (g : Graph α) (degree : α → Int) (ready order : List α) : Prop where
  nodup : (order ++ ready).Nodup
  subset : ∀ v ∈ order ++ ready, v ∈ g.vertices
  degree : ∀ v ∈ g.vertices, degree v = g.remaining order v
  ready : ∀ v ∈ g.vertices, g.remaining order v = 0 ↔ v ∈ order ++ ready
  placed : ∀ u v, (u, v) ∈ g.edges → u ∈ g.vertices → v ∈ order → Precedes order u v

omit [DecidableEq α] in
private theorem perm_sortByRank (l : List α) : (g.sortByRank l).Perm l :=
  List.perm_insertionSort _ l

theorem Inv.init (hnodup : g.vertices.Nodup) : Inv g g.inDegree g.sources [] where
  nodup := by
    rw [List.nil_append]
    exact (perm_sortByRank _).nodup_iff.mpr (hnodup.filter _)
  subset := by
    intro v hv
    rw [List.nil_append, sources, (perm_sortByRank _).mem_iff] at hv
    exact (List.mem_filter.mp hv).1
  degree := fun _ _ => rfl
  ready := by
    intro v hv
    rw [List.nil_append, sources, (perm_sortByRank _).mem_iff, List.mem_filter]
    simp [hv, inDegree]
  placed := by
    intro u v _ _ hv
    exact absurd hv List.not_mem_nil

/-- Removing the first ready vertex preserves the invariant. -/
theorem Inv.step {degree : α → Int} {v : α} {ready order : List α}
    (h : Inv g degree (v :: ready) order) :
    Inv g (g.relax (g.targets v) degree []).1
      (g.sortByRank (ready ++ g.sortByRank (g.relax (g.targets v) degree []).2))
      (order ++ [v]) := by
  have hv : v ∈ g.vertices := h.subset v (by simp)
  have hnew : v ∉ order := by
    intro hmem
    exact (List.nodup_append.mp h.nodup).2.2 v hmem v List.mem_cons_self rfl
  have hsplit : ∀ w, g.remaining order w =
      g.remaining (order ++ [v]) w + (g.targets v).count w := remaining_append order hv hnew
  have henough : ∀ w ∈ g.vertices, ((g.targets v).count w : Int) ≤ degree w := by
    intro w hw
    rw [h.degree w hw, hsplit w]
    omega
  rcases relax_newly (g.targets v) henough List.nodup_nil (by simp) with ⟨hnodup, hmem⟩
  -- the newly ready vertices are those whose last open edge came from v
  have hnewly : ∀ w, w ∈ (g.relax (g.targets v) degree []).2 ↔
      w ∈ g.vertices ∧ w ∉ order ++ v :: ready ∧ g.remaining (order ++ [v]) w = 0 := by
    intro w
    rw [hmem]
    simp only [List.not_mem_nil, false_or]
    refine and_congr_right fun hw => ?_
    rw [← h.ready w hw, h.degree w hw, hsplit w, ← List.count_pos_iff]
    omega
  have hready : ∀ w, w ∈ g.sortByRank (ready ++ g.sortByRank (g.relax (g.targets v) degree []).2) ↔
      w ∈ ready ∨ w ∈ (g.relax (g.targets v) degree []).2 := by
    intro w
    rw [(perm_sortByRank _).mem_iff, List.mem_append, (perm_sortByRank _).mem_iff]
  constructor
  · have hperm : (g.sortByRank (ready ++ g.sortByRank (g.relax (g.targets v) degree []).2)).Perm
        (ready ++ (g.relax (g.targets v) degree []).2) :=
      (perm_sortByRank _).trans ((perm_sortByRank _).append_left ready)
    rw [(hperm.append_left (order ++ [v])).nodup_iff, ← List.append_assoc, List.nodup_append]
    have hold : (order ++ [v] ++ ready).Nodup := by simpa using h.nodup
    refine ⟨hold, hnodup, ?_⟩
    intro a ha b hb heq
    subst heq
    exact ((hnewly a).mp hb).2.1 (by simpa using ha)
  · intro w hw
    rw [List.mem_append, hready] at hw
    rcases hw with hw | hw | hw
    · exact h.subset w (by
        rcases List.mem_append.mp hw with hw | hw
        · exact List.mem_append_left _ hw
        · rw [List.mem_singleton] at hw
          simp [hw])
    · exact h.subset w (by simp [hw])
    · exact ((hnewly w).mp hw).1
  · intro w hw
    rw [relax_degree _ _ _ hw, h.degree w hw, hsplit w]
    omega
  · intro w hw
    have hopen := h.ready w hw
    have hsum := hsplit w
    rw [List.mem_append, hready, hnewly]
    constructor
    · intro hz
      by_cases hmem : w ∈ order ++ v :: ready
      · rcases List.mem_append.mp hmem with hmem | hmem
        · exact Or.inl (List.mem_append_left _ hmem)
        · rcases List.mem_cons.mp hmem with rfl | hmem
          · exact Or.inl (List.mem_append_right _ (List.mem_singleton_self w))
          · exact Or.inr (Or.inl hmem)
      · exact Or.inr (Or.inr ⟨hw, hmem, hz⟩)
    · rintro (hmem | hmem | ⟨_, _, hz⟩)
      · have : w ∈ order ++ v :: ready := by
          rcases List.mem_append.mp hmem with hmem | hmem
          · exact List.mem_append_left _ hmem
          · rw [List.mem_singleton] at hmem
            simp [hmem]
        have := hopen.mpr this
        omega
      · have := hopen.mpr (by simp [hmem])
        omega
      · exact hz
  · intro u w hedge hu hw
    rcases List.mem_append.mp hw with hw | hw
    · exact (h.placed u w hedge hu hw).append [v]
    · rw [List.mem_singleton] at hw
      subst hw
      -- a ready vertex has no open edge, so its predecessors are placed
      have hzero : g.remaining order w = 0 := (h.ready w hv).mpr (by simp)
      have hu' : u ∈ order := by
        by_contra hnot
        have hpos := List.countP_eq_zero.mp hzero (u, w) hedge
        simp [hu, hnot] at hpos
      exact Precedes.last hu' w

/-- The invariant holds of whatever the loop returns. -/
theorem Inv.loop (fuel : Nat) {degree : α → Int} {ready order : List α}
    (h : Inv g degree ready order) :
    ∃ degree' ready', Inv g degree' ready' (g.loop fuel degree ready order) := by
  induction fuel generalizing degree ready order with
  | zero => exact ⟨degree, ready, h⟩
  | succ fuel ih =>
      cases ready with
      | nil => exact ⟨degree, [], h⟩
      | cons v ready => exact ih h.step

/-! ## Correctness of the order -/

private theorem order?_inv (hnodup : g.vertices.Nodup) {order : List α}
    (h : g.order? = some order) :
    (∃ degree ready, Inv g degree ready order) ∧ order.length = g.vertices.length := by
  unfold order? at h
  simp only [Option.ite_none_right_eq_some, Option.some.injEq] at h
  rcases h with ⟨hlen, rfl⟩
  exact ⟨(Inv.init hnodup).loop _, hlen⟩

/-- A returned order lists every vertex exactly once. -/
theorem order_perm (hnodup : g.vertices.Nodup) {order : List α} (h : g.order? = some order) :
    order.Perm g.vertices := by
  rcases order?_inv hnodup h with ⟨⟨degree, ready, hinv⟩, hlen⟩
  have hord : order.Nodup := (List.nodup_append.mp hinv.nodup).1
  have hsub : order ⊆ g.vertices := fun v hv => hinv.subset v (List.mem_append_left _ hv)
  exact (hord.subperm hsub).perm_of_length_le (Nat.le_of_eq hlen.symm)

private theorem order_nodup (hnodup : g.vertices.Nodup) {order : List α}
    (h : g.order? = some order) :
    order.Nodup :=
  (order_perm hnodup h).nodup_iff.mpr hnodup

/-- In a returned order the source of every edge precedes its target. -/
theorem order_precedes (hnodup : g.vertices.Nodup) {order : List α} (h : g.order? = some order)
    {u v : α} (hedge : (u, v) ∈ g.edges) (hu : u ∈ g.vertices) (hv : v ∈ g.vertices) :
    Precedes order u v := by
  rcases order?_inv hnodup h with ⟨⟨degree, ready, hinv⟩, _⟩
  exact hinv.placed u v hedge hu ((order_perm hnodup h).mem_iff.mpr hv)

/-- One edge of the graph between vertices that belong to it. -/
def Edge (g : Graph α) (u v : α) : Prop :=
  (u, v) ∈ g.edges ∧ u ∈ g.vertices ∧ v ∈ g.vertices

/-- Paths follow the order. -/
theorem order_precedes_of_path (hnodup : g.vertices.Nodup) {order : List α}
    (h : g.order? = some order) {u v : α} (hpath : Relation.TransGen (Edge g) u v) :
    Precedes order u v := by
  induction hpath with
  | single hedge => exact order_precedes hnodup h hedge.1 hedge.2.1 hedge.2.2
  | tail _ hedge ih =>
      exact ih.trans (order_nodup hnodup h) (order_precedes hnodup h hedge.1 hedge.2.1 hedge.2.2)

/-- A graph for which an order is returned has no directed cycle. -/
theorem order_acyclic (hnodup : g.vertices.Nodup) {order : List α} (h : g.order? = some order)
    (v : α) : ¬ Relation.TransGen (Edge g) v v := fun hpath =>
  Precedes.irrefl (order_nodup hnodup h) v (order_precedes_of_path hnodup h hpath)

/-! ## Completeness of the order -/

/-- With enough fuel the loop returns when no vertex is ready. -/
theorem Inv.loop_drained (fuel : Nat) {degree : α → Int} {ready order : List α}
    (h : Inv g degree ready order) (hfuel : g.vertices.length < order.length + fuel) :
    ∃ degree', Inv g degree' [] (g.loop fuel degree ready order) := by
  induction fuel generalizing degree ready order with
  | zero =>
      have hle : (order ++ ready).length ≤ g.vertices.length :=
        (h.nodup.subperm h.subset).length_le
      rw [List.length_append] at hle
      omega
  | succ fuel ih =>
      cases ready with
      | nil => exact ⟨degree, h⟩
      | cons v ready =>
          refine ih h.step ?_
          rw [List.length_append, List.length_singleton]
          omega

/-- A vertex that is left over has a predecessor that is left over. -/
theorem Inv.open_predecessor {degree : α → Int} {order : List α} (h : Inv g degree [] order)
    {v : α} (hv : v ∈ g.vertices) (hleft : v ∉ order) : ∃ u, Edge g u v ∧ u ∉ order := by
  have hpos : g.remaining order v ≠ 0 := by
    rw [ne_eq, h.ready v hv, List.append_nil]
    exact hleft
  rw [remaining, ne_eq, List.countP_eq_zero] at hpos
  push Not at hpos
  rcases hpos with ⟨⟨u, w⟩, hedge, hopen⟩
  rw [decide_eq_true_eq] at hopen
  rcases hopen with ⟨rfl, hu, hnot⟩
  exact ⟨u, ⟨hedge, hu, hv⟩, hnot⟩

/-- Without cycles no vertex is left over: the vertices that are left over would have a
first one, and that one would have no predecessor among them. -/
theorem Inv.mem_order_of_acyclic {degree : α → Int} {order : List α} (h : Inv g degree [] order)
    (hacyclic : ∀ v, ¬ Relation.TransGen (Edge g) v v) {v : α} (hv : v ∈ g.vertices) :
    v ∈ order := by
  by_contra hleft
  have hfinite : Finite { v // v ∈ g.vertices } := g.vertices.finite_toSet.to_subtype
  let precedes : { v // v ∈ g.vertices } → { v // v ∈ g.vertices } → Prop :=
    fun a b => Relation.TransGen (Edge g) a.1 b.1
  have htrans : IsTrans _ precedes := ⟨fun _ _ _ hab hbc => hab.trans hbc⟩
  have hirrefl : Std.Irrefl precedes := ⟨fun a => hacyclic a.1⟩
  have hfounded : WellFounded precedes := Finite.wellFounded_of_trans_of_irrefl precedes
  rcases hfounded.has_min { a | a.1 ∉ order } ⟨⟨v, hv⟩, hleft⟩ with ⟨first, hfirst, hmin⟩
  rcases h.open_predecessor first.2 hfirst with ⟨u, hedge, hu⟩
  exact hmin ⟨u, hedge.2.1⟩ hu (.single hedge)

/-- A graph without cycles has an order. -/
theorem order?_isSome_of_acyclic (hnodup : g.vertices.Nodup)
    (hacyclic : ∀ v, ¬ Relation.TransGen (Edge g) v v) : g.order?.isSome = true := by
  rcases (Inv.init hnodup).loop_drained (g.vertices.length + 1) (by simp) with ⟨degree, hinv⟩
  have hall : ∀ v ∈ g.vertices, v ∈ g.loop (g.vertices.length + 1) g.inDegree g.sources [] :=
    fun v hv => hinv.mem_order_of_acyclic hacyclic hv
  have horder := (List.nodup_append.mp hinv.nodup).1
  have hlength : (g.loop (g.vertices.length + 1) g.inDegree g.sources []).length =
      g.vertices.length :=
    Nat.le_antisymm (horder.subperm fun v hv => hinv.subset v (List.mem_append_left _ hv)).length_le
      (hnodup.subperm hall).length_le
  simp [order?, hlength]

/-! ## The least order -/

/-- An order of the vertices in which the source of every edge precedes its target. -/
structure IsOrder (g : Graph α) (l : List α) : Prop where
  perm : l.Perm g.vertices
  precedes : ∀ u v, Edge g u v → Precedes l u v

/-- A returned order is one of them. -/
theorem isOrder_of_order? (hnodup : g.vertices.Nodup) {order : List α}
    (h : g.order? = some order) : IsOrder g order where
  perm := order_perm hnodup h
  precedes := fun _ _ hedge => order_precedes hnodup h hedge.1 hedge.2.1 hedge.2.2

omit [DecidableEq α] in
private theorem sortByRank_sorted (l : List α) :
    (g.sortByRank l).Pairwise fun a b => g.rank a ≤ g.rank b := by
  have htotal : Std.Total fun a b : α => g.rank a ≤ g.rank b := ⟨fun a b => Nat.le_total _ _⟩
  have htrans : IsTrans α fun a b : α => g.rank a ≤ g.rank b := ⟨fun _ _ _ => Nat.le_trans⟩
  exact List.pairwise_insertionSort _ l

/-- What has been placed stays in front. -/
theorem prefix_loop (g : Graph α) (fuel : Nat) (degree : α → Int) (ready order : List α) :
    order <+: g.loop fuel degree ready order := by
  induction fuel generalizing degree ready order with
  | zero => exact List.prefix_rfl
  | succ fuel ih =>
      cases ready with
      | nil => exact List.prefix_rfl
      | cons v ready => exact (List.prefix_append order [v]).trans (ih _ _ _)

/-- The next vertex of any order that agrees with what has been placed is ready. -/
theorem Inv.next_mem_ready {degree : α → Int} {ready order rest : List α} {w : α}
    (h : Inv g degree ready order) (hother : IsOrder g (order ++ w :: rest))
    (hnodup : g.vertices.Nodup) : w ∈ ready := by
  have hordered : (order ++ w :: rest).Nodup := hother.perm.nodup_iff.mpr hnodup
  have hw : w ∈ g.vertices := hother.perm.mem_iff.mp (by simp)
  have hnew : w ∉ order := fun hmem =>
    (List.nodup_append.mp hordered).2.2 w hmem w List.mem_cons_self rfl
  have hclosed : g.remaining order w = 0 := by
    refine List.countP_eq_zero.mpr fun edge hedge hopen => ?_
    simp only [decide_eq_true_eq] at hopen
    rcases hopen with ⟨rfl, hsource, hleft⟩
    exact hleft ((hother.precedes _ _ ⟨hedge, hsource, hw⟩).mem_initial hordered rfl)
  rcases List.mem_append.mp ((h.ready w hw).mp hclosed) with hmem | hmem
  · exact absurd hmem hnew
  · exact hmem

omit [DecidableEq α] in
/-- Lexicographically, a list is not above one that it begins. -/
theorem map_le_map_append (f : α → Nat) (front back : List α) :
    front.map f ≤ (front ++ back).map f := by
  apply not_lt.mp
  rw [List.map_append]
  exact List.le_append_left

/-- The loop stays below every order that agrees with what has been placed: it takes the
least ready vertex, and the next vertex of the other order is ready too. -/
theorem Inv.loop_least (hnodup : g.vertices.Nodup)
    (hrank : ∀ u ∈ g.vertices, ∀ v ∈ g.vertices, g.rank u = g.rank v → u = v) (fuel : Nat)
    {degree : α → Int} {ready order rest : List α} (h : Inv g degree ready order)
    (hsorted : ready.Pairwise fun a b => g.rank a ≤ g.rank b)
    (hother : IsOrder g (order ++ rest)) :
    (g.loop fuel degree ready order).map g.rank ≤ (order ++ rest).map g.rank := by
  induction fuel generalizing degree ready order rest with
  | zero => exact map_le_map_append g.rank order rest
  | succ fuel ih =>
      cases ready with
      | nil => exact map_le_map_append g.rank order rest
      | cons v ready =>
          have hv : v ∈ g.vertices := h.subset v (by simp)
          cases rest with
          | nil =>
              have hmem : v ∈ order := by
                simpa using hother.perm.mem_iff.mpr hv
              exact absurd rfl ((List.nodup_append.mp h.nodup).2.2 v hmem v List.mem_cons_self)
          | cons w rest =>
              by_cases hwv : w = v
              · subst hwv
                have hagree : order ++ w :: rest = order ++ [w] ++ rest := by simp
                rw [hagree] at hother ⊢
                exact ih h.step (sortByRank_sorted _) hother
              · have hw : w ∈ g.vertices := hother.perm.mem_iff.mp (by simp)
                have hready : w ∈ ready := by
                  simpa [hwv] using h.next_mem_ready hother hnodup
                have hle : g.rank v ≤ g.rank w := List.rel_of_pairwise_cons hsorted hready
                have hne : g.rank v ≠ g.rank w := fun heq => hwv (hrank v hv w hw heq).symm
                have hlt : g.rank v < g.rank w := by omega
                rcases g.prefix_loop fuel (g.relax (g.targets v) degree []).1
                  (g.sortByRank (ready ++ g.sortByRank (g.relax (g.targets v) degree []).2))
                  (order ++ [v]) with ⟨tail, htail⟩
                rw [Graph.loop, ← htail, List.append_assoc]
                simp only [List.map_append]
                apply le_of_lt
                exact List.Lex.append_left _ (List.Lex.rel hlt) (order.map g.rank)

/-- A returned order is the lexicographically least one. -/
theorem order_least (hnodup : g.vertices.Nodup)
    (hrank : ∀ u ∈ g.vertices, ∀ v ∈ g.vertices, g.rank u = g.rank v → u = v)
    {order other : List α} (h : g.order? = some order) (hother : IsOrder g other) :
    order.map g.rank ≤ other.map g.rank := by
  unfold order? at h
  simp only [Option.ite_none_right_eq_some, Option.some.injEq] at h
  rw [← h.2]
  exact (Inv.init hnodup).loop_least hnodup hrank _ (sortByRank_sorted _) hother

end Graph

end TopologicalSort
