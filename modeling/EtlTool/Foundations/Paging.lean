import Mathlib.Data.List.Basic
import Mathlib.Data.List.Infix

/-!
# Fetching page by page

A loop that asks for one page after the other until a page is the last one, or until a
bound on the number of pages is reached.  A turn asks at a position and yields the items
of a page and the position of the next page, if it expects one.

If every turn hands out the front of what remains and expects no further page only when
nothing remains, the loop returns all items, or is stopped by the bound with a prefix.

Main results:

- Theorem {lit}`length_visited_le`: the bound holds for the number of pages.
- Theorem {lit}`fetch_of_hands`: the items are a prefix, and all of them unless the bound
  stopped the loop.
-/

namespace Paging

variable {σ α ε : Type*}

/-- What a loop over pages did: the positions it asked at, whether the bound stopped it,
and its result. -/
structure Fetched (σ α ε : Type*) where
  visited : List σ
  capped : Bool
  result : Except ε (List α)

/-- The loop, with the number of pages that may follow; turns are numbered. -/
def fetch (turn : Nat → σ → Except ε (List α × Option σ)) (left : Nat) (visited : List σ)
    (items : List α) (position : σ) : Fetched σ α ε :=
  match turn visited.length position with
  | .error exc => ⟨visited ++ [position], false, .error exc⟩
  | .ok (page, none) => ⟨visited ++ [position], false, .ok (items ++ page)⟩
  | .ok (page, some next) =>
      match left with
      | 0 => ⟨visited ++ [position], true, .ok (items ++ page)⟩
      | left + 1 => fetch turn left (visited ++ [position]) (items ++ page) next

/-- What remains at a position: a turn hands out its front, and ends the loop only with
the last item. -/
structure Hands (turn : Nat → σ → Except ε (List α × Option σ)) (Remains : σ → List α → Prop) :
    Prop where
  front : ∀ count position rest, Remains position rest →
    ∃ page next rest', turn count position = .ok (page, next) ∧ rest = page ++ rest' ∧
      (next = none → rest' = []) ∧ ∀ position', next = some position' → Remains position' rest'

variable {turn : Nat → σ → Except ε (List α × Option σ)}

variable (turn) in
theorem length_visited_le (left : Nat) : ∀ (visited : List σ) (items : List α) (position : σ),
    (fetch turn left visited items position).visited.length ≤ visited.length + left + 1 := by
  induction left with
  | zero =>
      intro visited items position
      unfold fetch
      split <;> simp
  | succ left ih =>
      intro visited items position
      unfold fetch
      split
      · simp
      · simp
      · rename_i page next _
        have hrest := ih (visited ++ [position]) (items ++ page) next
        rw [List.length_append, List.length_singleton] at hrest
        dsimp only
        omega

/-- The loop returns a prefix of what remains, and all of it unless the bound stopped it. -/
theorem fetch_of_hands {Remains : σ → List α → Prop} (h : Hands turn Remains) (left : Nat) :
    ∀ (visited : List σ) (items : List α) {position : σ} {rest : List α}, Remains position rest →
      ∃ got, (fetch turn left visited items position).result = .ok (items ++ got) ∧
        got <+: rest ∧ ((fetch turn left visited items position).capped = false → got = rest) := by
  induction left with
  | zero =>
      intro visited items position rest hremains
      rcases h.front visited.length position rest hremains with
        ⟨page, next, rest', hturn, rfl, hlast, _⟩
      refine ⟨page, ?_, List.prefix_append page rest', ?_⟩
      · unfold fetch
        cases next <;> simp [hturn]
      · unfold fetch
        cases next with
        | none => simp [hlast rfl]
        | some next => simp [hturn]
  | succ left ih =>
      intro visited items position rest hremains
      rcases h.front visited.length position rest hremains with
        ⟨page, next, rest', hturn, rfl, hlast, hnext⟩
      unfold fetch
      rw [hturn]
      cases next with
      | none =>
          rw [hlast rfl, List.append_nil]
          exact ⟨page, rfl, List.prefix_refl page, fun _ => rfl⟩
      | some next =>
          rcases ih (visited ++ [position]) (items ++ page) (hnext next rfl) with
            ⟨got, hresult, hprefix, hall⟩
          refine ⟨page ++ got, ?_, (List.prefix_append_right_inj page).mpr hprefix, fun hcapped => ?_⟩
          · rw [← List.append_assoc]
            exact hresult
          · rw [hall hcapped]

end Paging
