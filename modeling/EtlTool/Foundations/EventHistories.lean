import EtlTool.Foundations.Interleaving

/-!
# Histories of events

Some steps of a concurrent system are events: what an observer of one part of the state
is told.  If every step changes this part by its event and by nothing else, then the part
is what the history of events makes of it, whatever else the system did in between.

An invariant may also speak about the actions of the past, as in: whatever is pending now
has been asked for before.

Main results:

- Theorem {lit}`exec_history`: a part of the state is the fold of its history.
- Theorem {lit}`exec_past`: invariants that speak about the past.
- Theorem {lit}`exists_of_mem_history`: when an event took place.
-/

namespace Interleaving

variable {σ α ε ν : Type} {next : σ → α → Option σ}

/-- The events of a run. -/
def history (next : σ → α → Option σ) (event : σ → α → Option ε) : σ → List α → List ε
  | _, [] => []
  | s, a :: rest =>
      match next s a with
      | none => []
      | some s' => (event s a).toList ++ history next event s' rest

/-- A part of the state that changes by events only is the fold of its history. -/
theorem exec_history (Inv : σ → Prop) (view : σ → ν) {event : σ → α → Option ε}
    {apply : ν → ε → ν}
    (hkeeps : ∀ s a s', Inv s → next s a = some s' → Inv s')
    (hview : ∀ s a s', Inv s → next s a = some s' →
      view s' = (event s a).elim (view s) (apply (view s)))
    {s s' : σ} {actions : List α} (hs : Inv s) (hrun : exec next s actions = some s') :
    view s' = (history next event s actions).foldl apply (view s) := by
  induction actions generalizing s with
  | nil =>
      cases hrun
      rfl
  | cons a rest ih =>
      rcases exec_cons_eq_some.mp hrun with ⟨t, ht, hrest⟩
      have htail := ih (hkeeps s a t hs ht) hrest
      rw [hview s a t hs ht] at htail
      simp only [history, ht]
      cases hevent : event s a with
      | none =>
          rw [hevent] at htail
          exact htail
      | some e =>
          rw [hevent] at htail
          exact htail

/-- What every step preserves of the state and the actions before it holds after every
interleaving. -/
theorem exec_past (Inv : List α → σ → Prop)
    (hstep : ∀ past s a s', Inv past s → next s a = some s' → Inv (past ++ [a]) s')
    {s s' : σ} {past actions : List α} (hs : Inv past s)
    (hrun : exec next s actions = some s') : Inv (past ++ actions) s' := by
  induction actions generalizing s past with
  | nil =>
      cases hrun
      rw [List.append_nil]
      exact hs
  | cons a rest ih =>
      rcases exec_cons_eq_some.mp hrun with ⟨t, ht, hrest⟩
      rw [List.append_cons]
      exact ih (hstep past s a t hs ht) hrest

/-- An event took place in a state that the run went through. -/
theorem exists_of_mem_history {event : σ → α → Option ε} {s s' : σ} {actions : List α} {e : ε}
    (hrun : exec next s actions = some s') (he : e ∈ history next event s actions) :
    ∃ before a after t, actions = before ++ a :: after ∧ exec next s before = some t ∧
      event t a = some e := by
  induction actions generalizing s with
  | nil => cases he
  | cons a rest ih =>
      rcases exec_cons_eq_some.mp hrun with ⟨t, ht, hrest⟩
      simp only [history, ht, List.mem_append, Option.mem_toList] at he
      rcases he with hnow | hlater
      · exact ⟨[], a, rest, s, rfl, rfl, hnow⟩
      · rcases ih hrest hlater with ⟨before, b, after, u, rfl, hbefore, hevent⟩
        exact ⟨a :: before, b, after, u, rfl, exec_cons_eq_some.mpr ⟨t, ht, hbefore⟩, hevent⟩

end Interleaving
