import Mathlib.Data.List.Basic

/-!
# Self-delimiting texts

When two texts that start with the code of an item can be equal.  A code that a reader
reads back from the front of any text determines the item and what follows it, and so
does a run of symbols that the following symbol cannot continue.  Sequences are cut at
the symbol that ends them.

Main results:

- Theorem {lit}`flatMap_inj`: a sequence of codes up to a symbol that no code starts with.
- Theorem {lit}`run_inj`: a run of symbols up to one that does not belong to it.
-/

namespace SelfDelimiting

variable {α γ : Type*}

/-- A reader gets back every item from the front of a text that starts with its code. -/
def ReadsBack (code : α → List γ) (read : List γ → Option (α × List γ)) : Prop :=
  ∀ a rest, read (code a ++ rest) = some (a, rest)

/-- The code of an item is determined by any text that it starts. -/
theorem ReadsBack.inj {code : α → List γ} {read : List γ → Option (α × List γ)}
    (h : ReadsBack code read) {a b : α} {s t : List γ} (heq : code a ++ s = code b ++ t) :
    a = b ∧ s = t := by
  have hread := congrArg read heq
  rw [h, h, Option.some.injEq, Prod.mk.injEq] at hread
  exact hread

/-- A sequence of codes that ends at a symbol with which the reader cannot start. -/
theorem flatMap_inj {code : α → List γ} {read : List γ → Option (α × List γ)}
    (h : ReadsBack code read) {stop : γ} (hstop : ∀ rest, read (stop :: rest) = none)
    {xs ys : List α} {s t : List γ}
    (heq : xs.flatMap code ++ stop :: s = ys.flatMap code ++ stop :: t) : xs = ys ∧ s = t := by
  induction xs generalizing ys with
  | nil =>
      cases ys with
      | nil => simpa using heq
      | cons y ys =>
          have hread := congrArg read heq
          rw [List.flatMap_cons, List.append_assoc, h, List.flatMap_nil, List.nil_append,
            hstop] at hread
          cases hread
  | cons x xs ih =>
      cases ys with
      | nil =>
          have hread := congrArg read heq
          rw [List.flatMap_cons, List.append_assoc, h, List.flatMap_nil, List.nil_append,
            hstop] at hread
          cases hread
      | cons y ys =>
          rw [List.flatMap_cons, List.flatMap_cons, List.append_assoc, List.append_assoc] at heq
          rcases h.inj heq with ⟨rfl, hrest⟩
          rcases ih hrest with ⟨rfl, hsame⟩
          exact ⟨rfl, hsame⟩

/-- No symbol of the run continues at the front of the text. -/
def Ends (run : γ → Bool) (text : List γ) : Prop :=
  ∀ c rest, text = c :: rest → run c = false

/-- A run of symbols up to one that does not belong to it. -/
theorem run_inj {run : γ → Bool} {xs ys s t : List γ} (hxs : ∀ c ∈ xs, run c = true)
    (hys : ∀ c ∈ ys, run c = true) (hs : Ends run s) (ht : Ends run t)
    (heq : xs ++ s = ys ++ t) : xs = ys ∧ s = t := by
  induction xs generalizing ys with
  | nil =>
      cases ys with
      | nil => exact ⟨rfl, heq⟩
      | cons y ys =>
          have hy := hys y List.mem_cons_self
          rw [hs y (ys ++ t) heq] at hy
          cases hy
  | cons x xs ih =>
      cases ys with
      | nil =>
          have hx := hxs x List.mem_cons_self
          rw [ht x (xs ++ s) heq.symm] at hx
          cases hx
      | cons y ys =>
          rw [List.cons_append, List.cons_append, List.cons.injEq] at heq
          rcases ih (fun c hc => hxs c (List.mem_cons_of_mem x hc))
            (fun c hc => hys c (List.mem_cons_of_mem y hc)) heq.2 with ⟨hsame, hrest⟩
          exact ⟨by rw [heq.1, hsame], hrest⟩

end SelfDelimiting
