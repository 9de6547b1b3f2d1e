import Mathlib.Data.List.Basic

/-!
# Runs that note what they do

A computation that may fail, together with the notes it makes on its way.  The notes of a
failed run are kept.

What a run guarantees is stated in the assume/guarantee style: if all its notes satisfy an
assumption, then all of them satisfy a guarantee, and so does the result.  A property of
this form goes through every composition, since the notes of a part are among the notes of
the whole.

Main results:

- Theorem {lit}`Guarantees.bind`: what two runs one after the other guarantee.
- Theorem {lit}`Guarantees.attempt_mapError`: what a step guarantees that can fail.
-/

namespace TracedRuns

/-- The notes of a run and how it ends. -/
structure Traced (ν ε α : Type) where
  notes : List ν
  result : Except ε α

namespace Traced

variable {ν ε α β : Type}

/-- A run that does nothing. -/
def pure (a : α) : Traced ν ε α where
  notes := []
  result := .ok a

/-- A run that fails at once. -/
def fail (e : ε) : Traced ν ε α where
  notes := []
  result := .error e

/-- A run that makes one note of its result. -/
def noted (note : ν) (a : α) : Traced ν ε α where
  notes := [note]
  result := .ok a

/-- One run after another. -/
def bind (x : Traced ν ε α) (f : α → Traced ν ε β) : Traced ν ε β :=
  match x.result with
  | .ok a =>
      { notes := x.notes ++ (f a).notes
        result := (f a).result }
  | .error e =>
      { notes := x.notes
        result := .error e }

/-- A step that may fail, with a note of what it makes. -/
def attempt (note : α → ν) : Except ε α → Traced ν ε α
  | .ok a => noted (note a) a
  | .error e => fail e

private theorem bind_of_ok {x : Traced ν ε α} {f : α → Traced ν ε β} {a : α}
    (h : x.result = .ok a) :
    x.bind f =
      { notes := x.notes ++ (f a).notes
        result := (f a).result } := by
  rw [bind, h]

private theorem bind_of_error {x : Traced ν ε α} {f : α → Traced ν ε β} {e : ε}
    (h : x.result = .error e) :
    x.bind f =
      { notes := x.notes
        result := .error e } := by
  rw [bind, h]

end Traced

/-! ## Guarantees -/

section

variable {ν ε α β : Type} {Assumed Guaranteed : ν → Prop}

/-- If all notes satisfy the assumption, then all of them satisfy the guarantee, a result
satisfies its own one, and so does a failure. -/
structure Guarantees (Assumed Guaranteed : ν → Prop) (Result : α → Prop) (Failure : ε → Prop)
    (x : Traced ν ε α) : Prop where
  notes : (∀ note ∈ x.notes, Assumed note) → ∀ note ∈ x.notes, Guaranteed note
  result : (∀ note ∈ x.notes, Assumed note) → ∀ a, x.result = .ok a → Result a
  failure : (∀ note ∈ x.notes, Assumed note) → ∀ e, x.result = .error e → Failure e

namespace Guarantees

variable {Result : α → Prop} {Final : β → Prop} {Failure : ε → Prop}

theorem pure {a : α} (h : Result a) :
    Guarantees Assumed Guaranteed Result Failure (Traced.pure a) where
  notes := fun _ note hnote => absurd hnote List.not_mem_nil
  result := fun _ b hb => by
    cases hb
    exact h
  failure := fun _ e he => nomatch he

theorem fail {e : ε} (h : Failure e) :
    Guarantees Assumed Guaranteed Result Failure (Traced.fail e) where
  notes := fun _ note hnote => absurd hnote List.not_mem_nil
  result := fun _ b hb => nomatch hb
  failure := fun _ e' he => by
    cases he
    exact h

theorem noted {note : ν} {a : α} (hnote : Assumed note → Guaranteed note)
    (h : Assumed note → Result a) :
    Guarantees Assumed Guaranteed Result Failure (Traced.noted note a) where
  notes := fun hassumed other hother => by
    cases List.mem_singleton.mp hother
    exact hnote (hassumed note hother)
  result := fun hassumed b hb => by
    cases hb
    exact h (hassumed note (List.mem_singleton.mpr rfl))
  failure := fun _ e he => nomatch he

/-- A step whose failures are those of another one, renamed. -/
theorem attempt_mapError {ε' : Type} {note : α → ν} {r : Except ε' α} {f : ε' → ε}
    (hnote : ∀ a, r = .ok a → Assumed (note a) → Guaranteed (note a))
    (h : ∀ a, r = .ok a → Assumed (note a) → Result a)
    (hfail : ∀ e, r = .error e → Failure (f e)) :
    Guarantees Assumed Guaranteed Result Failure (Traced.attempt note (r.mapError f)) := by
  cases r with
  | ok a => exact noted (hnote a rfl) (h a rfl)
  | error e => exact fail (hfail e rfl)

/-- One run after another: the second may rely on what the first guarantees of its result. -/
theorem bind {x : Traced ν ε α} {f : α → Traced ν ε β}
    (hx : Guarantees Assumed Guaranteed Result Failure x)
    (hf : ∀ a, Result a → Guarantees Assumed Guaranteed Final Failure (f a)) :
    Guarantees Assumed Guaranteed Final Failure (x.bind f) := by
  cases hresult : x.result with
  | error e =>
      rw [Traced.bind_of_error hresult]
      refine ⟨hx.notes, fun _ b hb => (nomatch hb), fun hassumed e' he => ?_⟩
      cases he
      exact hx.failure hassumed e hresult
  | ok a =>
      rw [Traced.bind_of_ok hresult]
      have hfirst : (∀ note ∈ x.notes ++ (f a).notes, Assumed note) →
          ∀ note ∈ x.notes, Assumed note :=
        fun hassumed note hnote => hassumed note (List.mem_append_left _ hnote)
      have hsecond : (∀ note ∈ x.notes ++ (f a).notes, Assumed note) →
          ∀ note ∈ (f a).notes, Assumed note :=
        fun hassumed note hnote => hassumed note (List.mem_append_right _ hnote)
      have hnext : (∀ note ∈ x.notes ++ (f a).notes, Assumed note) →
          Guarantees Assumed Guaranteed Final Failure (f a) :=
        fun hassumed => hf a (hx.result (hfirst hassumed) a hresult)
      refine ⟨fun hassumed note hnote => ?_, fun hassumed => ?_, fun hassumed => ?_⟩
      · rcases List.mem_append.mp hnote with hnote | hnote
        · exact hx.notes (hfirst hassumed) note hnote
        · exact (hnext hassumed).notes (hsecond hassumed) note hnote
      · exact (hnext hassumed).result (hsecond hassumed)
      · exact (hnext hassumed).failure (hsecond hassumed)

end Guarantees

end

end TracedRuns
