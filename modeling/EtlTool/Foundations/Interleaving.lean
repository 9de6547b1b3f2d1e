import Mathlib.Logic.Basic

/-!
# Interleavings of labelled steps

A concurrent system is a partial transition function: an action is a decision
of the scheduler about which party moves next, and {lit}`none` means that the
party cannot make that move now.  An interleaving is a list of actions, so a
statement about every interleaving quantifies over lists, and a concrete
interleaving can be executed.

Main results:

- Theorem {lit}`exec_invariant`: what every step preserves holds after every
  interleaving.
- Theorem {lit}`guarded_invariant`: the same for interleavings each of whose
  steps meets a condition on the state before it.
-/

namespace Interleaving

variable {σ α : Type} {next : σ → α → Option σ}

/-- Run a list of actions; {lit}`none` when one of them is not enabled. -/
def exec (next : σ → α → Option σ) : σ → List α → Option σ
  | s, [] => some s
  | s, a :: rest =>
      match next s a with
      | none => none
      | some s' => exec next s' rest

/-- Every action of the run is taken in a state that meets the condition. -/
def Guarded (next : σ → α → Option σ) (ok : σ → α → Prop) : σ → List α → Prop
  | _, [] => True
  | s, a :: rest =>
      ok s a ∧
        match next s a with
        | none => True
        | some s' => Guarded next ok s' rest

/-- Guardedness of a concrete run is decided by executing it. -/
instance decidableGuarded (next : σ → α → Option σ) (ok : σ → α → Prop)
    [∀ s a, Decidable (ok s a)] : ∀ (s : σ) (actions : List α),
      Decidable (Guarded next ok s actions)
  | _, [] => isTrue trivial
  | s, a :: rest =>
      match h : next s a with
      | none => decidable_of_iff (ok s a) (by simp [Guarded, h])
      | some s' =>
          have := decidableGuarded next ok s' rest
          decidable_of_iff (ok s a ∧ Guarded next ok s' rest) (by simp [Guarded, h])

@[simp]
theorem exec_nil (s : σ) : exec next s [] = some s :=
  rfl

theorem exec_cons_eq_some {s s' : σ} {a : α} {rest : List α} :
    exec next s (a :: rest) = some s' ↔
      ∃ t, next s a = some t ∧ exec next t rest = some s' := by
  simp only [exec]
  cases next s a with
  | none => simp
  | some t => simp

/-- Runs compose. -/
theorem exec_append {s s' s'' : σ} {first second : List α}
    (hfirst : exec next s first = some s') (hsecond : exec next s' second = some s'') :
    exec next s (first ++ second) = some s'' := by
  induction first generalizing s with
  | nil =>
      cases hfirst
      exact hsecond
  | cons a rest ih =>
      rcases exec_cons_eq_some.mp hfirst with ⟨t, ht, hrest⟩
      exact exec_cons_eq_some.mpr ⟨t, ht, ih hrest⟩

/-- What every step preserves holds after every interleaving. -/
theorem exec_invariant {Inv : σ → Prop}
    (hstep : ∀ s a s', Inv s → next s a = some s' → Inv s')
    {s s' : σ} {actions : List α} (hs : Inv s) (hrun : exec next s actions = some s') :
    Inv s' := by
  induction actions generalizing s with
  | nil =>
      cases hrun
      exact hs
  | cons a rest ih =>
      rcases exec_cons_eq_some.mp hrun with ⟨t, ht, hrest⟩
      exact ih (hstep s a t hs ht) hrest

/-- What every guarded step preserves holds after every guarded interleaving. -/
theorem guarded_invariant {Inv : σ → Prop} {ok : σ → α → Prop}
    (hstep : ∀ s a s', Inv s → ok s a → next s a = some s' → Inv s')
    {s s' : σ} {actions : List α} (hs : Inv s) (hok : Guarded next ok s actions)
    (hrun : exec next s actions = some s') : Inv s' := by
  induction actions generalizing s with
  | nil =>
      cases hrun
      exact hs
  | cons a rest ih =>
      rcases exec_cons_eq_some.mp hrun with ⟨t, ht, hrest⟩
      rcases hok with ⟨ha, hrest'⟩
      rw [ht] at hrest'
      exact ih (hstep s a t hs ha ht) hrest' hrest

end Interleaving
