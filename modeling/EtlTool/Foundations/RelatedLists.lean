import Mathlib.Data.List.Forall2

/-!
# Lists that are related item by item

What is known of two lists whose items are related one by one, and of a list of which every
item is related to something.

Main results:

- Theorem {lit}`exists_forall₂`: items with partners make a list with a partner.
- Theorem {lit}`mapM_eq_some_iff`: a partial function on all items relates the items to its
  values.

Current gaps:

- None for the rules that are used.
-/

namespace RelatedLists

variable {α β γ : Type*} {R : α → β → Prop} {xs : List α} {ys : List β}

theorem exists_forall₂ (h : ∀ x ∈ xs, ∃ y, R x y) : ∃ ys, List.Forall₂ R xs ys := by
  induction xs with
  | nil => exact ⟨[], .nil⟩
  | cons x xs ih =>
      rcases List.forall_mem_cons.mp h with ⟨⟨y, hy⟩, hrest⟩
      rcases ih hrest with ⟨ys, hys⟩
      exact ⟨y :: ys, .cons hy hys⟩

theorem exists_mem_of_forall₂ (h : List.Forall₂ R xs ys) {x : α} (hx : x ∈ xs) :
    ∃ y ∈ ys, R x y := by
  induction h with
  | nil => cases hx
  | cons hfirst _ ih =>
      rcases List.mem_cons.mp hx with rfl | hlater
      · exact ⟨_, List.mem_cons_self, hfirst⟩
      · rcases ih hlater with ⟨y, hy, hrelated⟩
        exact ⟨y, List.mem_cons_of_mem _ hy, hrelated⟩

/-- Two lists that are related to a third one are related to each other. -/
theorem forall₂_join {S : α → γ → Prop} {zs : List γ} (hfirst : List.Forall₂ R xs ys)
    (hsecond : List.Forall₂ S xs zs) : List.Forall₂ (fun y z => ∃ x, R x y ∧ S x z) ys zs := by
  induction hfirst generalizing zs with
  | nil =>
      cases hsecond
      exact .nil
  | cons hhead _ ih =>
      cases hsecond with
      | cons hhead' htail => exact .cons ⟨_, hhead, hhead'⟩ (ih htail)

theorem mapM_eq_some_iff {α β : Type} {f : α → Option β} {xs : List α} {ys : List β} :
    xs.mapM f = some ys ↔ List.Forall₂ (fun x y => f x = some y) xs ys := by
  induction xs generalizing ys with
  | nil => simp [eq_comm]
  | cons x xs ih =>
      rw [List.mapM_cons, List.forall₂_cons_left_iff]
      simp only [Option.bind_eq_bind, Option.bind_eq_some_iff, Option.pure_def, Option.some.injEq]
      constructor
      · intro h
        rcases h with ⟨y, hy, rest, hrest, rfl⟩
        exact ⟨y, rest, hy, ih.mp hrest, rfl⟩
      · intro h
        rcases h with ⟨y, rest, hy, hrest, rfl⟩
        exact ⟨y, hy, rest, ih.mpr hrest, rfl⟩

end RelatedLists
