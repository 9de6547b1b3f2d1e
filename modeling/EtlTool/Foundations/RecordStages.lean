import Mathlib.Data.List.Basic

/-!
# Stages over batches

A batch goes through a list of stages, and every stage works on the whole batch before the
next one begins.  A stage is prepared once; then it works on one element after the other,
and passes an element on, changed or not, drops it, or fails.

Element by element, the same works can be done one after the other on each element alone.
A batch succeeds in stages exactly if it succeeds element by element, with the same result.
If it fails, the error is that of the first stage that fails, at the first element at which
it does.

Main results:

- Theorem {lit}`runStages_eq_ok_iff`: stages succeed exactly as their fusion.
- Theorem {lit}`runStages_append_batch`: a batch may be cut into parts.
- Theorem {lit}`runStages_eq_error_iff`, {lit}`runStages_blames`: which error is reported,
  and that an element of the batch fails with it on its own.
-/

namespace RecordStages

variable {φ ε α : Type}

/-- What becomes of one element. -/
abbrev Work (ε α : Type) := α → Except ε (Option α)

/-- A stage is prepared once for a whole batch. -/
abbrev Stage (φ ε α : Type) := Except φ (Work ε α)

/-- Why a batch fails: a stage cannot be prepared, or it fails at an element. -/
inductive Failure (φ ε : Type) where
  | preparation (error : φ)
  | element (i : Nat) (error : ε)

/-- Work on one element after the other, until one fails. -/
def sweep (work : Work ε α) : Nat → List α → Except (Nat × ε) (List α)
  | _, [] => .ok []
  | i, x :: rest =>
      match work x with
      | .error error => .error (i, error)
      | .ok y => (sweep work (i + 1) rest).map fun out => y.toList ++ out

/-- One stage over a batch. -/
def runStage (stage : Stage φ ε α) (xs : List α) : Except (Failure φ ε) (List α) :=
  match stage with
  | .error error => .error (.preparation error)
  | .ok work => (sweep work 0 xs).mapError fun failure => .element failure.1 failure.2

/-- One stage after the other. -/
def runStages : List (Stage φ ε α) → List α → Except (Failure φ ε) (List α)
  | [], xs => .ok xs
  | stage :: rest, xs =>
      match runStage stage xs with
      | .error failure => .error failure
      | .ok ys => runStages rest ys

/-- One work after the other on one element. -/
def through : List (Work ε α) → Work ε α
  | [], x => .ok (some x)
  | work :: rest, x =>
      match work x with
      | .error error => .error error
      | .ok none => .ok none
      | .ok (some y) => through rest y

/-! ## One stage -/

theorem map_eq_ok_iff {β γ δ : Type} {x : Except β γ} {f : γ → δ} {d : δ} :
    x.map f = .ok d ↔ ∃ c, x = .ok c ∧ f c = d := by
  cases x with
  | error error => simp [Except.map]
  | ok c => simp [Except.map]

private theorem map_eq_error_iff {β γ δ : Type} {x : Except β γ} {f : γ → δ} {error : β} :
    x.map f = .error error ↔ x = .error error := by
  cases x with
  | error error' => simp [Except.map]
  | ok c => simp [Except.map]

theorem mapError_eq_ok_iff {ε ε' β : Type} {x : Except ε β} {f : ε → ε'} {y : β} :
    x.mapError f = .ok y ↔ x = .ok y := by
  cases x with
  | error error => simp [Except.mapError]
  | ok z => simp [Except.mapError]

theorem mapError_eq_error_iff {ε ε' β : Type} {x : Except ε β} {f : ε → ε'} {error : ε'} :
    x.mapError f = .error error ↔ ∃ cause, x = .error cause ∧ f cause = error := by
  cases x with
  | error cause => simp [Except.mapError]
  | ok z => simp [Except.mapError]

/-- A sweep over a first element. -/
theorem sweep_cons_eq_ok_iff {work : Work ε α} {i : Nat} {x : α} {rest out : List α} :
    sweep work i (x :: rest) = .ok out ↔
      ∃ y others, work x = .ok y ∧ sweep work (i + 1) rest = .ok others ∧
        y.toList ++ others = out := by
  rw [sweep]
  cases work x with
  | error error => simp
  | ok y => simp [map_eq_ok_iff]

/-- Where a sweep begins to count matters to its errors only. -/
theorem sweep_index {work : Work ε α} {i : Nat} {xs out : List α} (h : sweep work i xs = .ok out)
    (j : Nat) : sweep work j xs = .ok out := by
  induction xs generalizing i j out with
  | nil => exact h
  | cons x rest ih =>
      rcases sweep_cons_eq_ok_iff.mp h with ⟨y, others, hwork, hrest, hout⟩
      exact sweep_cons_eq_ok_iff.mpr ⟨y, others, hwork, ih hrest (j + 1), hout⟩

/-- A sweep fails at the first element at which its work fails. -/
theorem sweep_eq_error_iff {work : Work ε α} {i j : Nat} {xs : List α} {error : ε} :
    sweep work i xs = .error (j, error) ↔ ∃ before x after, xs = before ++ x :: after ∧
      j = i + before.length ∧ (∀ earlier ∈ before, ∃ y, work earlier = .ok y) ∧
      work x = .error error := by
  induction xs generalizing i with
  | nil => simp [sweep]
  | cons x rest ih =>
      rw [sweep]
      cases hwork : work x with
      | error error' =>
          constructor
          · intro h
            cases h
            exact ⟨[], x, rest, rfl, rfl, (fun _ hmem => nomatch hmem), hwork⟩
          · intro h
            rcases h with ⟨before, x', after, heq, rfl, hbefore, hx⟩
            cases before with
            | nil =>
                cases heq
                cases hwork.symm.trans hx
                rfl
            | cons first others =>
                cases heq
                rcases hbefore _ List.mem_cons_self with ⟨y, hy⟩
                cases hwork.symm.trans hy
      | ok y =>
          dsimp only
          rw [map_eq_error_iff, ih]
          constructor
          · intro h
            rcases h with ⟨before, x', after, rfl, rfl, hbefore, hx⟩
            refine ⟨x :: before, x', after, rfl, ?_, ?_, hx⟩
            · rw [List.length_cons]
              omega
            · exact List.forall_mem_cons.mpr ⟨⟨y, hwork⟩, hbefore⟩
          · intro h
            rcases h with ⟨before, x', after, heq, rfl, hbefore, hx⟩
            cases before with
            | nil =>
                cases heq
                cases hwork.symm.trans hx
            | cons first others =>
                cases heq
                refine ⟨others, x', after, rfl, ?_, ?_, hx⟩
                · rw [List.length_cons]
                  omega
                · exact (List.forall_mem_cons.mp hbefore).2

/-- What a sweep leaves comes from an element. -/
theorem mem_of_sweep {work : Work ε α} {i : Nat} {xs out : List α}
    (h : sweep work i xs = .ok out) : ∀ y ∈ out, ∃ x ∈ xs, work x = .ok (some y) := by
  induction xs generalizing i out with
  | nil =>
      cases h
      exact fun _ hmem => nomatch hmem
  | cons x rest ih =>
      rcases sweep_cons_eq_ok_iff.mp h with ⟨made, others, hwork, hrest, rfl⟩
      intro y hy
      rcases List.mem_append.mp hy with hfirst | hlater
      · exact ⟨x, List.mem_cons_self, hwork.trans (congrArg _ (Option.mem_toList.mp hfirst))⟩
      · rcases ih hrest y hlater with ⟨other, hother, hsame⟩
        exact ⟨other, List.mem_cons_of_mem _ hother, hsame⟩

/-- A sweep leaves no more elements than there were. -/
theorem length_le_of_sweep {work : Work ε α} {i : Nat} {xs out : List α}
    (h : sweep work i xs = .ok out) : out.length ≤ xs.length := by
  induction xs generalizing i out with
  | nil =>
      cases h
      exact Nat.le_refl 0
  | cons x rest ih =>
      rcases sweep_cons_eq_ok_iff.mp h with ⟨y, others, _, hrest, rfl⟩
      have hothers := ih hrest
      cases y with
      | none =>
          rw [Option.toList_none, List.nil_append, List.length_cons]
          omega
      | some y =>
          rw [Option.toList_some, List.singleton_append, List.length_cons, List.length_cons]
          omega

/-- A sweep goes over one part of a batch after the other. -/
theorem sweep_append_eq_ok_iff {work : Work ε α} {i : Nat} {xs ys out : List α} :
    sweep work i (xs ++ ys) = .ok out ↔ ∃ first second, sweep work i xs = .ok first ∧
      sweep work (i + xs.length) ys = .ok second ∧ first ++ second = out := by
  induction xs generalizing i out with
  | nil => simp [sweep]
  | cons x rest ih =>
      rw [List.cons_append, sweep_cons_eq_ok_iff]
      have hlength : i + (x :: rest).length = i + 1 + rest.length := by
        rw [List.length_cons]
        omega
      rw [hlength]
      constructor
      · intro h
        rcases h with ⟨y, others, hwork, hothers, rfl⟩
        rcases ih.mp hothers with ⟨first, second, hfirst, hsecond, rfl⟩
        exact ⟨_, second, sweep_cons_eq_ok_iff.mpr ⟨y, first, hwork, hfirst, rfl⟩, hsecond,
          List.append_assoc ..⟩
      · intro h
        rcases h with ⟨first, second, hfirst, hsecond, rfl⟩
        rcases sweep_cons_eq_ok_iff.mp hfirst with ⟨y, others, hwork, hothers, rfl⟩
        exact ⟨y, _, hwork, ih.mpr ⟨others, second, hothers, hsecond, rfl⟩,
          (List.append_assoc ..).symm⟩

private theorem runStage_eq_ok_iff {stage : Stage φ ε α} {xs ys : List α} :
    runStage stage xs = .ok ys ↔ ∃ work, stage = .ok work ∧ sweep work 0 xs = .ok ys := by
  cases stage with
  | error error => simp [runStage]
  | ok work =>
      cases hsweep : sweep work 0 xs with
      | error failure => simp [runStage, hsweep, Except.mapError]
      | ok out => simp [runStage, hsweep, Except.mapError]

theorem runStage_eq_preparation_iff {stage : Stage φ ε α} {xs : List α} {error : φ} :
    runStage stage xs = .error (.preparation error) ↔ stage = .error error := by
  cases stage with
  | error error' => simp [runStage]
  | ok work => simp [runStage, mapError_eq_error_iff]

theorem runStage_eq_element_iff {stage : Stage φ ε α} {xs : List α} {i : Nat} {error : ε} :
    runStage stage xs = .error (.element i error) ↔
      ∃ work, stage = .ok work ∧ sweep work 0 xs = .error (i, error) := by
  cases stage with
  | error error => simp [runStage]
  | ok work =>
      cases hsweep : sweep work 0 xs with
      | error failure => simp [runStage, hsweep, Except.mapError, Prod.ext_iff]
      | ok out => simp [runStage, hsweep, Except.mapError]

/-! ## Fusion -/

/-- A work and the works after it, swept over a batch one after the other or together. -/
theorem sweep_through_cons {work : Work ε α} {works : List (Work ε α)} {i j k : Nat}
    {xs out : List α} :
    sweep (through (work :: works)) i xs = .ok out ↔
      ∃ ys, sweep work j xs = .ok ys ∧ sweep (through works) k ys = .ok out := by
  induction xs generalizing i j k out with
  | nil =>
      constructor
      · intro h
        exact ⟨[], rfl, h⟩
      · intro h
        rcases h with ⟨ys, hys, hout⟩
        cases hys
        exact hout
  | cons x rest ih =>
      rw [sweep_cons_eq_ok_iff]
      constructor
      · intro h
        rcases h with ⟨z, others, hthrough, hothers, rfl⟩
        rw [through] at hthrough
        cases hwork : work x with
        | error error =>
            rw [hwork] at hthrough
            cases hthrough
        | ok y? =>
            rw [hwork] at hthrough
            cases y? with
            | none =>
                cases hthrough
                rcases ih.mp hothers with ⟨ys, hys, hout⟩
                exact ⟨ys, sweep_cons_eq_ok_iff.mpr ⟨none, ys, hwork, hys, rfl⟩, hout⟩
            | some y =>
                rcases ih.mp hothers with ⟨ys, hys, hout⟩
                exact ⟨y :: ys, sweep_cons_eq_ok_iff.mpr ⟨some y, ys, hwork, hys, rfl⟩,
                  sweep_cons_eq_ok_iff.mpr ⟨z, others, hthrough, hout, rfl⟩⟩
      · intro h
        rcases h with ⟨ys, hys, hout⟩
        rcases sweep_cons_eq_ok_iff.mp hys with ⟨y?, kept, hwork, hkept, rfl⟩
        cases y? with
        | none =>
            refine ⟨none, out, ?_, ih.mpr ⟨kept, hkept, hout⟩, rfl⟩
            rw [through, hwork]
        | some y =>
            rcases sweep_cons_eq_ok_iff.mp hout with ⟨z, others, hthrough, hothers, rfl⟩
            refine ⟨z, others, ?_, ih.mpr ⟨kept, hkept, hothers⟩, rfl⟩
            rw [through, hwork]
            exact hthrough

private theorem sweep_through_nil (i : Nat) (xs : List α) :
    sweep (through ([] : List (Work ε α))) i xs = .ok xs := by
  induction xs generalizing i with
  | nil => rfl
  | cons x rest ih => exact sweep_cons_eq_ok_iff.mpr ⟨some x, rest, rfl, ih (i + 1), rfl⟩

/-- Stages succeed exactly if all of them can be prepared and every element goes through
their works on its own, with the same result. -/
theorem runStages_eq_ok_iff {stages : List (Stage φ ε α)} {xs out : List α} :
    runStages stages xs = .ok out ↔
      ∃ works, stages = works.map .ok ∧ sweep (through works) 0 xs = .ok out := by
  induction stages generalizing xs with
  | nil =>
      constructor
      · intro h
        cases h
        exact ⟨[], rfl, sweep_through_nil 0 _⟩
      · intro h
        rcases h with ⟨works, hworks, hout⟩
        cases List.map_eq_nil_iff.mp hworks.symm
        cases (sweep_through_nil 0 xs).symm.trans hout
        rfl
  | cons stage rest ih =>
      rw [runStages]
      constructor
      · intro h
        cases hstage : runStage stage xs with
        | error failure =>
            rw [hstage] at h
            cases h
        | ok ys =>
            rw [hstage] at h
            rcases runStage_eq_ok_iff.mp hstage with ⟨work, rfl, hwork⟩
            rcases ih.mp h with ⟨works, rfl, hout⟩
            exact ⟨work :: works, rfl, sweep_through_cons.mpr ⟨ys, hwork, hout⟩⟩
      · intro h
        rcases h with ⟨works, hworks, hout⟩
        cases works with
        | nil => cases hworks
        | cons work works =>
            cases hworks
            rcases sweep_through_cons.mp hout with ⟨ys, hwork, hrest⟩
            rw [runStage_eq_ok_iff.mpr ⟨work, rfl, hwork⟩]
            exact ih.mpr ⟨works, rfl, hrest⟩

/-- A batch may be cut into parts that go through the stages on their own. -/
theorem runStages_append_batch {stages : List (Stage φ ε α)} {xs ys out : List α} :
    runStages stages (xs ++ ys) = .ok out ↔ ∃ first second,
      runStages stages xs = .ok first ∧ runStages stages ys = .ok second ∧
        first ++ second = out := by
  rw [runStages_eq_ok_iff]
  constructor
  · intro h
    rcases h with ⟨works, hworks, hout⟩
    rcases sweep_append_eq_ok_iff.mp hout with ⟨first, second, hfirst, hsecond, heq⟩
    exact ⟨first, second, runStages_eq_ok_iff.mpr ⟨works, hworks, hfirst⟩,
      runStages_eq_ok_iff.mpr ⟨works, hworks, sweep_index hsecond 0⟩, heq⟩
  · intro h
    rcases h with ⟨first, second, hfirst, hsecond, heq⟩
    rcases runStages_eq_ok_iff.mp hfirst with ⟨works, hworks, hleft⟩
    rcases runStages_eq_ok_iff.mp hsecond with ⟨works', hworks', hright⟩
    have hsame : works = works' :=
      List.map_injective_iff.mpr (fun _ _ => Except.ok.inj) (hworks.symm.trans hworks')
    subst hsame
    exact ⟨works, hworks, sweep_append_eq_ok_iff.mpr
      ⟨first, second, hleft, sweep_index hright _, heq⟩⟩

/-! ## Failures -/

/-- Stages fail with the failure of the first of them that fails. -/
theorem runStages_eq_error_iff {stages : List (Stage φ ε α)} {xs : List α}
    {failure : Failure φ ε} :
    runStages stages xs = .error failure ↔ ∃ before stage after ys,
      stages = before ++ stage :: after ∧ runStages before xs = .ok ys ∧
        runStage stage ys = .error failure := by
  induction stages generalizing xs with
  | nil => simp [runStages]
  | cons stage rest ih =>
      rw [runStages]
      cases hstage : runStage stage xs with
      | error failure' =>
          constructor
          · intro h
            cases h
            exact ⟨[], stage, rest, xs, rfl, rfl, hstage⟩
          · intro h
            rcases h with ⟨before, stage', after, ys, heq, hbefore, hfails⟩
            cases before with
            | nil =>
                cases heq
                cases hbefore
                exact hstage.symm.trans hfails
            | cons first others =>
                cases heq
                rw [runStages, hstage] at hbefore
                cases hbefore
      | ok zs =>
          dsimp only
          rw [ih]
          constructor
          · intro h
            rcases h with ⟨before, stage', after, ys, rfl, hbefore, hfails⟩
            refine ⟨stage :: before, stage', after, ys, rfl, ?_, hfails⟩
            rw [runStages, hstage]
            exact hbefore
          · intro h
            rcases h with ⟨before, stage', after, ys, heq, hbefore, hfails⟩
            cases before with
            | nil =>
                cases heq
                cases hbefore
                cases hstage.symm.trans hfails
            | cons first others =>
                cases heq
                rw [runStages, hstage] at hbefore
                exact ⟨others, stage', after, ys, rfl, hbefore, hfails⟩

private theorem through_append {works : List (Work ε α)} {x y : α}
    (h : through works x = .ok (some y))
    (later : List (Work ε α)) : through (works ++ later) x = through later y := by
  induction works generalizing x with
  | nil =>
      cases h
      rfl
  | cons work rest ih =>
      rw [List.cons_append, through]
      rw [through] at h
      cases hwork : work x with
      | error error =>
          rw [hwork] at h
          cases h
      | ok z? =>
          rw [hwork] at h
          cases z? with
          | none => cases h
          | some z => exact ih h

/-- The error at an element is one with which an element of the batch fails on its own. -/
theorem runStages_blames {stages : List (Stage φ ε α)} {xs : List α} {i : Nat} {error : ε}
    (h : runStages stages xs = .error (.element i error)) :
    ∃ works after, stages = works.map .ok ++ after ∧
      ∃ x ∈ xs, through works x = .error error := by
  rcases runStages_eq_error_iff.mp h with ⟨before, stage, after, ys, rfl, hbefore, hfails⟩
  rcases runStages_eq_ok_iff.mp hbefore with ⟨works, rfl, hys⟩
  rcases runStage_eq_element_iff.mp hfails with ⟨work, rfl, hsweep⟩
  rcases sweep_eq_error_iff.mp hsweep with ⟨earlier, y, later, rfl, _, _, hy⟩
  rcases mem_of_sweep hys y (List.mem_append_right _ List.mem_cons_self) with ⟨x, hx, hthrough⟩
  refine ⟨works ++ [work], after, ?_, x, hx, ?_⟩
  · rw [List.map_append, List.append_assoc]
    rfl
  · rw [through_append hthrough, through, hy]

/-- An element that fails in the works of some stages fails in these stages. -/
theorem runStages_singleton {works : List (Work ε α)} {x : α} {error : ε}
    (h : through works x = .error error) (after : List (Stage φ ε α)) :
    runStages (works.map .ok ++ after) [x] = .error (.element 0 error) := by
  induction works generalizing x with
  | nil => cases h
  | cons work rest ih =>
      rw [List.map_cons, List.cons_append, runStages]
      rw [through] at h
      cases hwork : work x with
      | error error' =>
          rw [hwork] at h
          cases h
          simp [runStage, sweep, hwork, Except.mapError]
      | ok y? =>
          rw [hwork] at h
          cases y? with
          | none => cases h
          | some y =>
              have hstage : runStage (.ok work : Stage φ ε α) [x] = .ok [y] :=
                runStage_eq_ok_iff.mpr ⟨work, rfl, by simp [sweep, hwork, Except.map]⟩
              rw [hstage]
              exact ih h

end RecordStages
