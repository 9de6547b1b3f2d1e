import Mathlib.Data.List.Nodup
import Mathlib.Data.List.Perm.Subperm
import Mathlib.Logic.Relation

/-!
# Worklist reachability

Depth-first closure of one vertex under a successor function: pop a vertex,
mark and push every successor that is not yet marked.  The start vertex is not
marked, so it belongs to the result exactly when it lies on a cycle.

Main results:

- Theorem {lit}`mem_closure_iff`: with enough fuel the marked vertices are
  exactly those reachable from the start by a nonempty path.
- Theorem {lit}`transGen_relabel`: the paths of a relabelled graph.
-/

namespace Worklist

variable {α : Type*} [DecidableEq α]

/-- Mark and push the successors of one popped vertex. -/
def visit (found stack : List α) : List α → List α × List α
  | [] => (found, stack)
  | y :: ys => if y ∈ found then visit found stack ys else visit (found ++ [y]) (y :: stack) ys

/-- The search loop; the fuel bounds the number of pops. -/
def search (succ : α → List α) : Nat → List α → List α → List α
  | 0, _, found => found
  | _ + 1, [], found => found
  | fuel + 1, x :: stack, found =>
      search succ fuel (visit found stack (succ x)).2 (visit found stack (succ x)).1

/-- All vertices reached from {lit}`x` by a nonempty path. -/
def closure (succ : α → List α) (fuel : Nat) (x : α) : List α :=
  search succ fuel [x] []

/-- One edge of the graph given by a successor function. -/
def Edge (succ : α → List α) (a b : α) : Prop :=
  b ∈ succ a

/-! ## One visit -/

private theorem mem_visit_found (found stack ys : List α) (z : α) :
    z ∈ (visit found stack ys).1 ↔ z ∈ found ∨ z ∈ ys := by
  induction ys generalizing found stack with
  | nil => simp [visit]
  | cons y ys ih =>
      unfold visit
      split
      · rename_i hy
        rw [ih]
        constructor
        · rintro (h | h)
          · exact Or.inl h
          · exact Or.inr (List.mem_cons_of_mem y h)
        · rintro (h | h)
          · exact Or.inl h
          · rcases List.mem_cons.mp h with rfl | h
            · exact Or.inl hy
            · exact Or.inr h
      · rw [ih]
        simp [or_assoc]

private theorem nodup_visit_found {found : List α} (stack ys : List α) (h : found.Nodup) :
    (visit found stack ys).1.Nodup := by
  induction ys generalizing found stack with
  | nil => simpa [visit] using h
  | cons y ys ih =>
      unfold visit
      split
      · exact ih stack h
      · rename_i hy
        apply ih
        rw [List.nodup_append]
        refine ⟨h, List.nodup_singleton y, ?_⟩
        intro a ha b hb
        rw [List.mem_singleton] at hb
        subst hb
        exact fun heq => hy (heq ▸ ha)

/-- Marked vertices and stack entries grow by the same number. -/
theorem length_visit (found stack ys : List α) :
    (visit found stack ys).1.length + stack.length =
      (visit found stack ys).2.length + found.length := by
  induction ys generalizing found stack with
  | nil => simp [visit, Nat.add_comm]
  | cons y ys ih =>
      unfold visit
      split
      · exact ih found stack
      · have h := ih (found ++ [y]) (y :: stack)
        simp only [List.length_append, List.length_cons, List.length_nil] at h
        omega

/-- The new stack holds the old entries and the newly marked successors. -/
theorem mem_visit_stack_iff (found stack ys : List α) (z : α) :
    z ∈ (visit found stack ys).2 ↔ z ∈ stack ∨ (z ∈ ys ∧ z ∉ found) := by
  induction ys generalizing found stack with
  | nil => simp [visit]
  | cons y ys ih =>
      unfold visit
      split <;> rename_i hy
      · rw [ih]
        constructor
        · rintro (h | ⟨h, hn⟩)
          · exact Or.inl h
          · exact Or.inr ⟨List.mem_cons_of_mem y h, hn⟩
        · rintro (h | ⟨h, hn⟩)
          · exact Or.inl h
          · rcases List.mem_cons.mp h with rfl | h
            · exact absurd hy hn
            · exact Or.inr ⟨h, hn⟩
      · rw [ih]
        by_cases hzy : z = y
        · subst hzy
          simp [hy]
        · simp [hzy]

/-! ## The search loop -/

/-- What the loop knows about its marked vertices and its stack. -/
structure Inv (succ : α → List α) (x : α) (stack found : List α) : Prop where
  nodup : found.Nodup
  sound : ∀ y ∈ found, Relation.TransGen (Edge succ) x y
  stacked : ∀ y ∈ stack, y = x ∨ y ∈ found
  closed : ∀ y, y = x ∨ y ∈ found → y ∉ stack → ∀ z ∈ succ y, z ∈ found

omit [DecidableEq α] in
theorem Inv.init (succ : α → List α) (x : α) : Inv succ x [x] [] where
  nodup := List.nodup_nil
  sound := by simp
  stacked := by simp
  closed := by
    rintro y (rfl | hy) hnot
    · simp at hnot
    · simp at hy

/-- One pop preserves the loop invariant. -/
theorem Inv.step {succ : α → List α} {x y : α} {stack found : List α}
    (h : Inv succ x (y :: stack) found) :
    Inv succ x (visit found stack (succ y)).2 (visit found stack (succ y)).1 where
  nodup := nodup_visit_found stack (succ y) h.nodup
  sound := by
    intro z hz
    rcases (mem_visit_found found stack (succ y) z).mp hz with hz | hz
    · exact h.sound z hz
    · rcases h.stacked y List.mem_cons_self with rfl | hy
      · exact Relation.TransGen.single hz
      · exact (h.sound y hy).tail hz
  stacked := by
    intro z hz
    rcases (mem_visit_stack_iff found stack (succ y) z).mp hz with hz | ⟨hz, _⟩
    · rcases h.stacked z (List.mem_cons_of_mem y hz) with rfl | hz
      · exact Or.inl rfl
      · exact Or.inr ((mem_visit_found _ _ _ _).mpr (Or.inl hz))
    · exact Or.inr ((mem_visit_found _ _ _ _).mpr (Or.inr hz))
  closed := by
    intro z hz hnot w hw
    rw [mem_visit_found]
    by_cases hzy : z = y
    · subst hzy
      exact Or.inr hw
    · have hold : z = x ∨ z ∈ found := by
        rcases hz with rfl | hz
        · exact Or.inl rfl
        · by_contra hneg
          rw [not_or] at hneg
          have hys := ((mem_visit_found _ _ _ _).mp hz).resolve_left hneg.2
          exact hnot ((mem_visit_stack_iff _ _ _ _).mpr (Or.inr ⟨hys, hneg.2⟩))
      have hstack : z ∉ y :: stack := by
        intro hmem
        rcases List.mem_cons.mp hmem with rfl | hmem
        · exact hzy rfl
        · exact hnot ((mem_visit_stack_iff _ _ _ _).mpr (Or.inl hmem))
      exact Or.inl (h.closed z hold hstack w hw)

/-- The invariant at the end of the loop, when the fuel covers the stack and
every vertex not yet marked. -/
theorem Inv.search {succ : α → List α} {vertices : List α}
    (hsucc : ∀ a, succ a ⊆ vertices) {x : α} :
    ∀ (fuel : Nat) {stack found : List α}, Inv succ x stack found → found ⊆ vertices →
      stack.length + (vertices.length - found.length) ≤ fuel →
      Inv succ x [] (search succ fuel stack found) := by
  intro fuel
  induction fuel with
  | zero =>
      intro stack found hinv _ hfuel
      have hempty : stack = [] := List.eq_nil_of_length_eq_zero (by omega)
      subst hempty
      simpa [Worklist.search] using hinv
  | succ fuel ih =>
      intro stack found hinv hsub hfuel
      cases stack with
      | nil => simpa [Worklist.search] using hinv
      | cons y stack =>
          unfold Worklist.search
          have hsub' : (visit found stack (succ y)).1 ⊆ vertices := by
            intro z hz
            rcases (mem_visit_found found stack (succ y) z).mp hz with hz | hz
            · exact hsub hz
            · exact hsucc y hz
          apply ih hinv.step hsub'
          have hlen := length_visit found stack (succ y)
          have hbound : (visit found stack (succ y)).1.length ≤ vertices.length :=
            (hinv.step.nodup.subperm hsub').length_le
          rw [List.length_cons] at hfuel
          omega

/-- With enough fuel the closure is exactly the set of vertices reachable by a
nonempty path. -/
theorem mem_closure_iff {succ : α → List α} {vertices : List α}
    (hsucc : ∀ a, succ a ⊆ vertices) {fuel : Nat} (hfuel : vertices.length + 1 ≤ fuel)
    (x y : α) : y ∈ closure succ fuel x ↔ Relation.TransGen (Edge succ) x y := by
  have hinv : Inv succ x [] (closure succ fuel x) :=
    Inv.search hsucc fuel (Inv.init succ x) (List.nil_subset _)
      (by simpa [Nat.add_comm] using hfuel)
  constructor
  · exact hinv.sound y
  · intro hreach
    induction hreach with
    | single hedge => exact hinv.closed x (Or.inl rfl) List.not_mem_nil _ hedge
    | tail _ hedge ih => exact hinv.closed _ (Or.inr ih) List.not_mem_nil _ hedge

/-! ## Relabelled graphs -/

/-- A path of a relabelled graph comes from a path of the graph, when the labelling is
injective on the vertices that have edges. -/
theorem transGen_relabel {α β : Type*} {r : α → α → Prop} {r' : β → β → Prop} {label : α → β}
    {vertex : α → Prop}
    (hedge : ∀ x y, r' x y → ∃ a b, label a = x ∧ label b = y ∧ vertex a ∧ vertex b ∧ r a b)
    (hinj : ∀ a b, vertex a → vertex b → label a = label b → a = b) {x y : β}
    (h : Relation.TransGen r' x y) :
    ∃ a b, label a = x ∧ label b = y ∧ vertex a ∧ vertex b ∧ Relation.TransGen r a b := by
  induction h with
  | single hxy =>
      rcases hedge _ _ hxy with ⟨a, b, ha, hb, hva, hvb, hab⟩
      exact ⟨a, b, ha, hb, hva, hvb, Relation.TransGen.single hab⟩
  | tail _ hyz ih =>
      rcases ih with ⟨a, b, ha, hb, hva, hvb, hab⟩
      rcases hedge _ _ hyz with ⟨b', c, hb', hc, hvb', hvc, hbc⟩
      have hsame : b' = b := hinj b' b hvb' hvb (hb'.trans hb.symm)
      subst hsame
      exact ⟨a, c, ha, hc, hva, hvc, hab.tail hbc⟩

end Worklist
