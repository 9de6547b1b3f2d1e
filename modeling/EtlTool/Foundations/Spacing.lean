import Mathlib.Data.Rat.Floor
import Mathlib.Tactic.Linarith

/-!
# Spaced points in time

Points in time, in the order in which they come, each at least a given distance behind
those before it.  Spaced points cannot be dense: a window holds at most one more of them
than distances fit into it.

Main results:

- Theorem {lit}`Spaced.append_singleton`: a point behind all others may be added.
- Theorem {lit}`Spaced.length_window_le`: the number of points in a window.
-/

namespace Spacing

/-- Each point is at least this far behind those before it. -/
def Spaced (distance : ℚ) (points : List ℚ) : Prop :=
  points.Pairwise fun a b => a + distance ≤ b

instance (distance : ℚ) (points : List ℚ) : Decidable (Spaced distance points) :=
  inferInstanceAs (Decidable (points.Pairwise fun a b => a + distance ≤ b))

/-- The points in a window. -/
def window (start length : ℚ) (points : List ℚ) : List ℚ :=
  points.filter fun point => decide (start ≤ point ∧ point ≤ start + length)

variable {distance : ℚ} {points : List ℚ}

theorem spaced_nil : Spaced distance [] :=
  List.Pairwise.nil

theorem Spaced.append_singleton {point : ℚ} (h : Spaced distance points)
    (hbehind : ∀ a ∈ points, a + distance ≤ point) : Spaced distance (points ++ [point]) := by
  refine List.pairwise_append.mpr ⟨h, List.pairwise_singleton _ _, ?_⟩
  intro a ha b hb
  rw [List.mem_singleton.mp hb]
  exact hbehind a ha

theorem Spaced.of_append_left {rest : List ℚ} (h : Spaced distance (points ++ rest)) :
    Spaced distance points :=
  (List.pairwise_append.mp h).1

/-- The last of the points is a distance behind the start for each of the others. -/
theorem Spaced.length_mul_le {start stop : ℚ} (h : Spaced distance points) (hne : points ≠ [])
    (hstart : ∀ point ∈ points, start ≤ point) (hstop : ∀ point ∈ points, point ≤ stop) :
    start + (points.length - 1 : ℚ) * distance ≤ stop := by
  induction points generalizing start with
  | nil => exact absurd rfl hne
  | cons first rest ih =>
      have hfirst := hstart first List.mem_cons_self
      have hlast := hstop first List.mem_cons_self
      have hspaced := List.pairwise_cons.mp h
      by_cases hrest : rest = []
      · rw [hrest]
        simp only [List.length_singleton, Nat.cast_one]
        linarith
      · have hsteps := ih hspaced.2 hrest hspaced.1 fun point hpoint =>
          hstop point (List.mem_cons_of_mem _ hpoint)
        rw [List.length_cons]
        push_cast
        linarith

/-- A window holds at most one more point than distances fit into it. -/
theorem Spaced.length_window_le {rate : ℚ} (hrate : 0 < rate) (h : Spaced (1 / rate) points)
    (start length : ℚ) :
    (window start length points).length ≤ ⌊length * rate⌋₊ + 1 := by
  by_cases hne : window start length points = []
  · rw [hne]
    exact Nat.zero_le _
  have hmem : ∀ point ∈ window start length points, start ≤ point ∧ point ≤ start + length := by
    intro point hpoint
    exact of_decide_eq_true (List.mem_filter.mp hpoint).2
  have hspaced : Spaced (1 / rate) (window start length points) :=
    List.Pairwise.sublist List.filter_sublist h
  have hsteps := hspaced.length_mul_le hne (fun point hpoint => (hmem point hpoint).1)
    fun point hpoint => (hmem point hpoint).2
  have hfit : ((window start length points).length - 1 : ℚ) ≤ length * rate := by
    have hscaled : ((window start length points).length - 1 : ℚ) / rate ≤ length := by
      rw [mul_one_div] at hsteps
      linarith
    rwa [div_le_iff₀ hrate] at hscaled
  have hpos : 1 ≤ (window start length points).length := List.length_pos_of_ne_nil hne
  have hcast : (((window start length points).length - 1 : ℕ) : ℚ) ≤ length * rate := by
    rw [Nat.cast_sub hpos, Nat.cast_one]
    exact hfit
  have hfloor := Nat.le_floor hcast
  omega

end Spacing
