import Mathlib.Data.List.Basic
import Mathlib.Data.List.Count
import Mathlib.Logic.Relation

/-!
# Bounded fan-out of deterministic jobs

A pool runs one deterministic job per slot.  A scheduler admits waiting jobs
while fewer than {lit}`cap` are active, lets any active job take its next step,
and - in a fail-fast pool, once some job has finished in failure - may cancel
any job that is still unfinished.  The trace records, in global order, which
job took a step and from which state.

Schedules are lists of choices; a choice that is not enabled changes nothing.
{lit}`Pool.complete` extends a schedule by a sequential one that settles every
slot, so that complete pools exist for every schedule prefix.

Main results:

- Theorem {lit}`Pool.complete_settled`: completion leaves no slot unfinished.
- Theorem {lit}`Pool.complete_gather`: a schedule that aborts no pool gives every
  job its own result.
- Theorem {lit}`Pool.complete_fails_iff`: whether some job fails does not
  depend on the schedule, cancellation included.
- Theorem {lit}`Pool.run_activeCount_le`: no schedule exceeds the cap.
-/

namespace FanOut

variable {σ ρ : Type}

/-! ## Jobs -/

/-- A deterministic job: each step continues in a smaller state or finishes. -/
structure Job (σ ρ : Type) where
  step : σ → σ ⊕ ρ
  size : σ → Nat
  size_lt : ∀ {s s' : σ}, step s = Sum.inl s' → size s' < size s

namespace Job

variable {J : Job σ ρ}

/-- Unfinished steps lead from one state to another. -/
def Reaches (J : Job σ ρ) : σ → σ → Prop :=
  Relation.ReflTransGen fun a b => J.step a = Sum.inl b

/-- Running the job from a state finishes with a result. -/
def Yields (J : Job σ ρ) (s : σ) (r : ρ) : Prop :=
  ∃ s', J.Reaches s s' ∧ J.step s' = Sum.inr r

theorem yields_of_step_inr {s : σ} {r : ρ} (h : J.step s = Sum.inr r) : J.Yields s r :=
  ⟨s, Relation.ReflTransGen.refl, h⟩

theorem Yields.head {s s' : σ} {r : ρ} (hstep : J.step s = Sum.inl s') (h : J.Yields s' r) :
    J.Yields s r := by
  rcases h with ⟨s'', hreach, hfin⟩
  exact ⟨s'', Relation.ReflTransGen.head hstep hreach, hfin⟩

/-- A step is inverted at the head of a run: the job is deterministic. -/
theorem Yields.of_step {s s' : σ} {r : ρ} (hstep : J.step s = Sum.inl s') (h : J.Yields s r) :
    J.Yields s' r := by
  rcases h with ⟨s'', hreach, hfin⟩
  rcases Relation.ReflTransGen.cases_head hreach with rfl | ⟨t, ht, hrest⟩
  · rw [hstep] at hfin
    cases hfin
  · rw [hstep] at ht
    cases ht
    exact ⟨s'', hrest, hfin⟩

theorem Yields.unique {s : σ} {r r' : ρ} (h : J.Yields s r) (h' : J.Yields s r') : r = r' := by
  rcases h with ⟨t, hreach, hfin⟩
  induction hreach using Relation.ReflTransGen.head_induction_on with
  | refl =>
      rcases h' with ⟨t', hreach', hfin'⟩
      rcases Relation.ReflTransGen.cases_head hreach' with rfl | ⟨u, hu, _⟩
      · rw [hfin] at hfin'
        exact Sum.inr.inj hfin'
      · rw [hfin] at hu
        cases hu
  | head hstep _ ih => exact ih (h'.of_step hstep)

end Job

/-! ## Pools and schedules -/

/-- The state of one job's slot. -/
inductive Slot (σ ρ : Type) where
  | waiting (s : σ)
  | active (s : σ)
  | finished (r : ρ)
  | cancelled

namespace Slot

/-- Whether the slot holds one of the pool's permits. -/
def isActive : Slot σ ρ → Bool
  | active _ => true
  | _ => false

/-- Whether the slot will not change any more. -/
def settled : Slot σ ρ → Bool
  | finished _ => true
  | cancelled => true
  | _ => false

/-- The result of a finished slot. -/
def result? : Slot σ ρ → Option ρ
  | finished r => some r
  | _ => none

end Slot

/-- Job slots together with the global order of the steps taken so far. -/
structure Pool (σ ρ : Type) where
  slots : List (Slot σ ρ)
  trace : List (Nat × σ)

/-- How a pool treats concurrency and failures. -/
structure Policy (ρ : Type) where
  cap : Nat
  cap_pos : 1 ≤ cap
  failFast : Bool
  fails : ρ → Bool

/-- One decision of the scheduler. -/
inductive Choice where
  | acquire (i : Nat)
  | advance (i : Nat)
  | cancel (i : Nat)
deriving DecidableEq, Repr

/-- A fail-fast pool aborts once a finished slot holds a failure. -/
def Policy.aborting (π : Policy ρ) (slots : List (Slot σ ρ)) : Bool :=
  π.failFast && slots.any fun slot => slot.result?.any π.fails

namespace Pool

/-- All jobs wait for a permit. -/
def initial (states : List σ) : Pool σ ρ where
  slots := states.map Slot.waiting
  trace := []

/-- Number of permits in use. -/
def activeCount (p : Pool σ ρ) : Nat :=
  p.slots.countP Slot.isActive

/-- Slot content after a job step. -/
def stepped (J : Job σ ρ) (s : σ) : Slot σ ρ :=
  match J.step s with
  | Sum.inl s' => Slot.active s'
  | Sum.inr r => Slot.finished r

/-- Give the permit to a waiting job when one is free. -/
def acquire (π : Policy ρ) (p : Pool σ ρ) (i : Nat) : Pool σ ρ :=
  match p.slots[i]? with
  | some (Slot.waiting s) =>
      if p.activeCount < π.cap then { p with slots := p.slots.set i (Slot.active s) } else p
  | _ => p

/-- Let an active job take one step. -/
def advance (J : Job σ ρ) (p : Pool σ ρ) (i : Nat) : Pool σ ρ :=
  match p.slots[i]? with
  | some (Slot.active s) =>
      { slots := p.slots.set i (stepped J s), trace := p.trace ++ [(i, s)] }
  | _ => p

/-- Cancel an unfinished job of an aborting pool. -/
def cancel (π : Policy ρ) (p : Pool σ ρ) (i : Nat) : Pool σ ρ :=
  match p.slots[i]? with
  | some (Slot.waiting _) | some (Slot.active _) =>
      if π.aborting p.slots then { p with slots := p.slots.set i Slot.cancelled } else p
  | _ => p

/-- Obey one scheduler choice. -/
def choose (J : Job σ ρ) (π : Policy ρ) (p : Pool σ ρ) : Choice → Pool σ ρ
  | Choice.acquire i => p.acquire π i
  | Choice.advance i => p.advance J i
  | Choice.cancel i => p.cancel π i

/-- Obey a whole schedule. -/
def run (J : Job σ ρ) (π : Policy ρ) (p : Pool σ ρ) (schedule : List Choice) : Pool σ ρ :=
  schedule.foldl (choose J π) p

/-- Enough steps for the job in a slot to finish. -/
def fuel (J : Job σ ρ) : Option (Slot σ ρ) → Nat
  | some (Slot.waiting s) => J.size s + 1
  | some (Slot.active s) => J.size s + 1
  | _ => 0

/-- Choices that settle one slot: cancel it if the pool aborts, otherwise run it
to its end. -/
def settleOne (J : Job σ ρ) (p : Pool σ ρ) (i : Nat) : List Choice :=
  Choice.cancel i :: Choice.acquire i :: List.replicate (fuel J p.slots[i]?) (Choice.advance i)

/-- Settle the listed slots one after another. -/
def settleAll (J : Job σ ρ) (π : Policy ρ) : List Nat → Pool σ ρ → Pool σ ρ
  | [], p => p
  | i :: rest, p => settleAll J π rest (p.run J π (settleOne J p i))

/-- The slots that still hold a permit, then the others, in index order. -/
def settleOrder (p : Pool σ ρ) : List Nat :=
  (List.range p.slots.length).filter (fun i => p.slots[i]?.any Slot.isActive) ++
    List.range p.slots.length

/-- Obey a schedule, then settle every slot sequentially. -/
def complete (J : Job σ ρ) (π : Policy ρ) (p : Pool σ ρ) (schedule : List Choice) : Pool σ ρ :=
  settleAll J π (settleOrder (p.run J π schedule)) (p.run J π schedule)

end Pool

/-! ## What one choice can do -/

namespace Pool

variable {J : Job σ ρ} {π : Policy ρ}

theorem aborting_iff (slots : List (Slot σ ρ)) :
    π.aborting slots = true ↔
      π.failFast = true ∧ ∃ (i : Nat) (r : ρ), slots[i]? = some (Slot.finished r) ∧ π.fails r = true := by
  unfold Policy.aborting
  rw [Bool.and_eq_true, List.any_eq_true]
  refine and_congr_right fun _ => ?_
  constructor
  · rintro ⟨slot, hmem, hfail⟩
    rcases List.mem_iff_getElem?.mp hmem with ⟨i, hi⟩
    cases slot with
    | finished r => exact ⟨i, r, hi, by simpa [Slot.result?] using hfail⟩
    | waiting s => simp [Slot.result?] at hfail
    | active s => simp [Slot.result?] at hfail
    | cancelled => simp [Slot.result?] at hfail
  · rintro ⟨i, r, hi, hfail⟩
    exact ⟨Slot.finished r, List.mem_of_getElem? hi, by simpa [Slot.result?] using hfail⟩

/-- Every choice is idle, admits a waiting job under the cap, steps an active
job, or cancels an unfinished job of an aborting pool. -/
theorem choose_cases (J : Job σ ρ) (π : Policy ρ) (p : Pool σ ρ) (c : Choice) :
    p.choose J π c = p ∨
    (∃ (i : Nat) (s : σ), p.slots[i]? = some (Slot.waiting s) ∧ p.activeCount < π.cap ∧
      p.choose J π c = { p with slots := p.slots.set i (Slot.active s) }) ∨
    (∃ (i : Nat) (s : σ), p.slots[i]? = some (Slot.active s) ∧
      p.choose J π c = { slots := p.slots.set i (stepped J s), trace := p.trace ++ [(i, s)] }) ∨
    (∃ (i : Nat) (slot : Slot σ ρ), p.slots[i]? = some slot ∧ slot.settled = false ∧ π.aborting p.slots = true ∧
      p.choose J π c = { p with slots := p.slots.set i Slot.cancelled }) := by
  cases c with
  | acquire i =>
      simp only [choose, acquire]
      split
      · rename_i s hs
        split
        · rename_i hcap
          exact Or.inr (Or.inl ⟨i, s, hs, hcap, rfl⟩)
        · exact Or.inl rfl
      · exact Or.inl rfl
  | advance i =>
      simp only [choose, advance]
      split
      · rename_i s hs
        exact Or.inr (Or.inr (Or.inl ⟨i, s, hs, rfl⟩))
      · exact Or.inl rfl
  | cancel i =>
      simp only [choose, cancel]
      split
      · rename_i s hs
        split
        · rename_i habort
          exact Or.inr (Or.inr (Or.inr ⟨i, _, hs, rfl, habort, rfl⟩))
        · exact Or.inl rfl
      · rename_i s hs
        split
        · rename_i habort
          exact Or.inr (Or.inr (Or.inr ⟨i, _, hs, rfl, habort, rfl⟩))
        · exact Or.inl rfl
      · exact Or.inl rfl

/-- Reading a list after one present position was overwritten. -/
theorem getElem?_set_cases {α : Type} {l : List α} {i j : Nat} {x y a : α}
    (hi : l[i]? = some x) (hj : (l.set i a)[j]? = some y) :
    (j = i ∧ y = a) ∨ (j ≠ i ∧ l[j]? = some y) := by
  have hlt : i < l.length := (List.getElem?_eq_some_iff.mp hi).1
  by_cases h : i = j
  · subst h
    left
    rw [List.getElem?_set_self hlt] at hj
    exact ⟨rfl, (Option.some.inj hj).symm⟩
  · right
    rw [List.getElem?_set_ne h] at hj
    exact ⟨fun heq => h heq.symm, hj⟩

/-- Overwriting an unsettled slot keeps an aborting pool aborting. -/
theorem aborting_set {slots : List (Slot σ ρ)} {i : Nat} {slot new : Slot σ ρ}
    (hi : slots[i]? = some slot) (hslot : slot.settled = false)
    (habort : π.aborting slots = true) : π.aborting (slots.set i new) = true := by
  rw [aborting_iff] at habort ⊢
  rcases habort with ⟨hff, j, r, hj, hfail⟩
  refine ⟨hff, j, r, ?_, hfail⟩
  have hne : i ≠ j := by
    rintro rfl
    rw [hj] at hi
    cases hi
    cases hslot
  rw [List.getElem?_set_ne hne]
  exact hj

/-- Overwriting an unsettled slot keeps every finished one. -/
theorem finished_set {slots : List (Slot σ ρ)} {i j : Nat} {slot new : Slot σ ρ} {r : ρ}
    (hi : slots[i]? = some slot) (hslot : slot.settled = false)
    (hj : slots[j]? = some (Slot.finished r)) :
    (slots.set i new)[j]? = some (Slot.finished r) := by
  have hne : i ≠ j := by
    rintro rfl
    rw [hj] at hi
    cases hi
    cases hslot
  rw [List.getElem?_set_ne hne]
  exact hj

/-! ## Every schedule tracks the jobs -/

/-- A slot agrees with the job started in {lit}`s₀`. -/
def SlotTracks (J : Job σ ρ) (s₀ : σ) : Slot σ ρ → Prop
  | Slot.waiting s => s = s₀
  | Slot.active s => J.Reaches s₀ s
  | Slot.finished r => J.Yields s₀ r
  | Slot.cancelled => True

/-- The pool agrees with the jobs started in the listed states. -/
structure Tracks (J : Job σ ρ) (π : Policy ρ) (states : List σ) (p : Pool σ ρ) : Prop where
  length : p.slots.length = states.length
  slot : ∀ (i : Nat) (s₀ : σ) (slot : Slot σ ρ),
    states[i]? = some s₀ → p.slots[i]? = some slot → SlotTracks J s₀ slot
  trace : ∀ (i : Nat) (s : σ), (i, s) ∈ p.trace → ∃ s₀, states[i]? = some s₀ ∧ J.Reaches s₀ s
  finished : ∀ (i : Nat) (r : ρ), p.slots[i]? = some (Slot.finished r) →
    ∃ s, (i, s) ∈ p.trace ∧ J.step s = Sum.inr r
  ended : ∀ (i : Nat) (s : σ) (r : ρ), (i, s) ∈ p.trace → J.step s = Sum.inr r →
    p.slots[i]? = some (Slot.finished r)
  cancelled : ∀ i : Nat, p.slots[i]? = some Slot.cancelled → π.aborting p.slots = true

theorem Tracks.initial (J : Job σ ρ) (π : Policy ρ) (states : List σ) :
    Tracks J π states (Pool.initial states) where
  length := by simp [Pool.initial]
  slot := by
    intro i s₀ slot hs hslot
    simp only [Pool.initial, List.getElem?_map, hs, Option.map_some, Option.some.injEq] at hslot
    subst hslot
    rfl
  trace := by simp [Pool.initial]
  finished := by
    intro i r h
    simp [Pool.initial, List.getElem?_map] at h
  ended := by simp [Pool.initial]
  cancelled := by
    intro i h
    simp [Pool.initial, List.getElem?_map] at h

/-- One choice keeps the pool in agreement with its jobs. -/
theorem Tracks.choose {states : List σ} {p : Pool σ ρ} (h : Tracks J π states p) (c : Choice) :
    Tracks J π states (p.choose J π c) := by
  rcases choose_cases J π p c with heq | ⟨i, s, hi, _, heq⟩ | ⟨i, s, hi, heq⟩ |
    ⟨i, old, hi, hunsettled, habort, heq⟩
  · rw [heq]
    exact h
  · rw [heq]
    refine ⟨by simpa using h.length, ?_, h.trace, ?_,
      fun j t r hmem hstep => finished_set hi rfl (h.ended j t r hmem hstep), ?_⟩
    · intro j s₀ slot hs hslot
      rcases getElem?_set_cases hi hslot with ⟨rfl, rfl⟩ | ⟨_, hslot⟩
      · have hws : s = s₀ := h.slot j s₀ _ hs hi
        subst hws
        exact Relation.ReflTransGen.refl
      · exact h.slot j s₀ slot hs hslot
    · intro j r hj
      rcases getElem?_set_cases hi hj with ⟨_, hbad⟩ | ⟨_, hj⟩
      · cases hbad
      · exact h.finished j r hj
    · intro j hj
      rcases getElem?_set_cases hi hj with ⟨_, hbad⟩ | ⟨_, hj⟩
      · cases hbad
      · exact aborting_set hi rfl (h.cancelled j hj)
  · rw [heq]
    refine ⟨by simpa using h.length, ?_, ?_, ?_, ?_, ?_⟩
    · intro j s₀ slot hs hslot
      rcases getElem?_set_cases hi hslot with ⟨rfl, rfl⟩ | ⟨_, hslot⟩
      · have hreach : J.Reaches s₀ s := h.slot j s₀ _ hs hi
        unfold stepped
        cases hstep : J.step s with
        | inl s' => exact hreach.tail hstep
        | inr r => exact ⟨s, hreach, hstep⟩
      · exact h.slot j s₀ slot hs hslot
    · intro j t hmem
      rcases List.mem_append.mp hmem with hmem | hmem
      · exact h.trace j t hmem
      · rw [List.mem_singleton] at hmem
        cases hmem
        have hlt : i < states.length := h.length ▸ (List.getElem?_eq_some_iff.mp hi).1
        have hs₀ : states[i]? = some states[i] := List.getElem?_eq_getElem hlt
        exact ⟨states[i], hs₀, h.slot i _ _ hs₀ hi⟩
    · intro j r hj
      rcases getElem?_set_cases hi hj with ⟨rfl, hr⟩ | ⟨_, hj⟩
      · refine ⟨s, by simp, ?_⟩
        unfold stepped at hr
        cases hstep : J.step s with
        | inl s' => rw [hstep] at hr; cases hr
        | inr r' => rw [hstep] at hr; cases hr; rfl
      · rcases h.finished j r hj with ⟨t, hmem, hfin⟩
        exact ⟨t, List.mem_append_left _ hmem, hfin⟩
    · intro j t r hmem hstep
      rcases List.mem_append.mp hmem with hmem | hmem
      · exact finished_set hi rfl (h.ended j t r hmem hstep)
      · rw [List.mem_singleton] at hmem
        cases hmem
        have hlt : i < p.slots.length := (List.getElem?_eq_some_iff.mp hi).1
        simp only [stepped, hstep]
        exact List.getElem?_set_self hlt
    · intro j hj
      rcases getElem?_set_cases hi hj with ⟨_, hbad⟩ | ⟨_, hj⟩
      · unfold stepped at hbad
        cases hstep : J.step s with
        | inl s' => rw [hstep] at hbad; cases hbad
        | inr r' => rw [hstep] at hbad; cases hbad
      · exact aborting_set hi rfl (h.cancelled j hj)
  · rw [heq]
    refine ⟨by simpa using h.length, ?_, h.trace, ?_,
      fun j t r hmem hstep => finished_set hi hunsettled (h.ended j t r hmem hstep), ?_⟩
    · intro j s₀ slot hs hslot
      rcases getElem?_set_cases hi hslot with ⟨rfl, rfl⟩ | ⟨_, hslot⟩
      · trivial
      · exact h.slot j s₀ slot hs hslot
    · intro j r hj
      rcases getElem?_set_cases hi hj with ⟨_, hbad⟩ | ⟨_, hj⟩
      · cases hbad
      · exact h.finished j r hj
    · intro j _
      exact aborting_set hi hunsettled habort

theorem Tracks.run {states : List σ} {p : Pool σ ρ} (h : Tracks J π states p)
    (schedule : List Choice) : Tracks J π states (p.run J π schedule) := by
  induction schedule generalizing p with
  | nil => exact h
  | cons c rest ih => exact ih (h.choose c)

private theorem Tracks.settleAll {states : List σ} {p : Pool σ ρ} (h : Tracks J π states p)
    (indices : List Nat) : Tracks J π states (p.settleAll J π indices) := by
  induction indices generalizing p with
  | nil => exact h
  | cons i rest ih => exact ih (h.run _)

/-- Completed pools agree with their jobs under every schedule. -/
theorem tracks_complete (J : Job σ ρ) (π : Policy ρ) (states : List σ) (schedule : List Choice) :
    Tracks J π states ((Pool.initial states).complete J π schedule) :=
  ((Tracks.initial J π states).run schedule).settleAll _

/-! ## Completion settles every slot -/

/-- Choices about a settled slot change nothing. -/
theorem run_eq_of_settled {p : Pool σ ρ} {i : Nat} {slot : Slot σ ρ}
    (hi : p.slots[i]? = some slot) (hslot : slot.settled = true) {choices : List Choice}
    (hall : ∀ c ∈ choices, c = Choice.acquire i ∨ c = Choice.advance i ∨ c = Choice.cancel i) :
    p.run J π choices = p := by
  induction choices with
  | nil => rfl
  | cons c rest ih =>
      have hidle : p.choose J π c = p := by
        cases slot with
        | waiting s => cases hslot
        | active s => cases hslot
        | finished r =>
            rcases hall c List.mem_cons_self with rfl | rfl | rfl <;>
              simp [choose, acquire, advance, cancel, hi]
        | cancelled =>
            rcases hall c List.mem_cons_self with rfl | rfl | rfl <;>
              simp [choose, acquire, advance, cancel, hi]
      have hrest := ih fun c' hc' => hall c' (List.mem_cons_of_mem c hc')
      rw [← hidle] at hrest
      simpa [run, hidle] using hrest

/-- Enough steps finish an active job. -/
theorem run_replicate_advance {p : Pool σ ρ} {i n : Nat} {s : σ}
    (hi : p.slots[i]? = some (Slot.active s)) (hn : J.size s < n) :
    ∃ r, (p.run J π (List.replicate n (Choice.advance i))).slots =
      p.slots.set i (Slot.finished r) := by
  induction n generalizing p s with
  | zero => omega
  | succ n ih =>
      have hlt : i < p.slots.length := (List.getElem?_eq_some_iff.mp hi).1
      have hhead : p.choose J π (Choice.advance i) =
          { slots := p.slots.set i (stepped J s), trace := p.trace ++ [(i, s)] } := by
        simp [choose, advance, hi]
      rw [List.replicate_succ]
      simp only [run, List.foldl_cons, hhead]
      cases hstep : J.step s with
      | inr r =>
          have hslot : (p.slots.set i (stepped J s))[i]? = some (Slot.finished r) := by
            simp [stepped, hstep, hlt]
          have hidle : Pool.run J π
              { slots := p.slots.set i (stepped J s), trace := p.trace ++ [(i, s)] }
              (List.replicate n (Choice.advance i)) =
              { slots := p.slots.set i (stepped J s), trace := p.trace ++ [(i, s)] } :=
            run_eq_of_settled hslot rfl
              fun c hc => Or.inr (Or.inl (List.eq_of_mem_replicate hc))
          refine ⟨r, ?_⟩
          simp only [run] at hidle
          rw [hidle]
          simp [stepped, hstep]
      | inl s' =>
          have hslot : (p.slots.set i (stepped J s))[i]? = some (Slot.active s') := by
            simp [stepped, hstep, hlt]
          have hsize : J.size s' < n := by
            have := J.size_lt hstep
            omega
          rcases ih (p := { slots := p.slots.set i (stepped J s), trace := p.trace ++ [(i, s)] })
            hslot hsize with ⟨r, hr⟩
          refine ⟨r, ?_⟩
          simp only [run] at hr
          rw [hr, List.set_set]

/-- Settling one slot overwrites just that slot, by a settled content. -/
theorem run_settleOne {p : Pool σ ρ} {i : Nat} {slot : Slot σ ρ} (hi : p.slots[i]? = some slot)
    (hfree : ∀ s, slot = Slot.waiting s → p.activeCount < π.cap) :
    ∃ x : Slot σ ρ, x.settled = true ∧
      (p.run J π (settleOne J p i)).slots = p.slots.set i x := by
  have hlt : i < p.slots.length := (List.getElem?_eq_some_iff.mp hi).1
  have habout : ∀ n, ∀ c ∈ Choice.acquire i :: List.replicate n (Choice.advance i),
      c = Choice.acquire i ∨ c = Choice.advance i ∨ c = Choice.cancel i := by
    intro n c hc
    rcases List.mem_cons.mp hc with rfl | hc
    · exact Or.inl rfl
    · exact Or.inr (Or.inl (List.eq_of_mem_replicate hc))
  by_cases hset : slot.settled = true
  · refine ⟨slot, hset, ?_⟩
    have hidle : p.run J π (settleOne J p i) = p := by
      apply run_eq_of_settled hi hset
      intro c hc
      rcases List.mem_cons.mp hc with rfl | hc
      · exact Or.inr (Or.inr rfl)
      · exact habout _ c hc
    rw [hidle]
    apply List.ext_getElem?
    intro j
    by_cases hij : i = j
    · subst hij
      rw [List.getElem?_set_self hlt, hi]
    · rw [List.getElem?_set_ne hij]
  · by_cases habort : π.aborting p.slots = true
    · -- the slot is cancelled first, and later choices about it are idle
      have hcancel : p.choose J π (Choice.cancel i) =
          { p with slots := p.slots.set i Slot.cancelled } := by
        cases slot <;> first
          | exact absurd rfl hset
          | simp [choose, cancel, hi, habort]
      refine ⟨Slot.cancelled, rfl, ?_⟩
      have hslot : ({ p with slots := p.slots.set i Slot.cancelled } : Pool σ ρ).slots[i]? =
          some Slot.cancelled := by simp [hlt]
      have hidle := run_eq_of_settled (J := J) (π := π) hslot rfl (habout (fuel J p.slots[i]?))
      simp only [run] at hidle
      simp only [settleOne, run, List.foldl_cons, hcancel]
      simp only [List.foldl_cons] at hidle
      rw [hidle]
    · have hcancel : p.choose J π (Choice.cancel i) = p := by
        cases slot <;> simp [choose, cancel, hi, habort]
      cases slot with
      | finished r => exact absurd rfl hset
      | cancelled => exact absurd rfl hset
      | active s =>
          have hacquire : p.choose J π (Choice.acquire i) = p := by simp [choose, acquire, hi]
          rcases run_replicate_advance (J := J) (π := π) hi (Nat.lt_succ_self (J.size s)) with
            ⟨r, hr⟩
          refine ⟨Slot.finished r, rfl, ?_⟩
          simp only [run] at hr
          simpa [settleOne, run, hcancel, hacquire, fuel, hi] using hr
      | waiting s =>
          have hacquire : p.choose J π (Choice.acquire i) =
              { p with slots := p.slots.set i (Slot.active s) } := by
            simp [choose, acquire, hi, hfree s rfl]
          have hi' : ({ p with slots := p.slots.set i (Slot.active s) } : Pool σ ρ).slots[i]? =
              some (Slot.active s) := by simp [hlt]
          rcases run_replicate_advance (J := J) (π := π) hi' (Nat.lt_succ_self (J.size s)) with
            ⟨r, hr⟩
          refine ⟨Slot.finished r, rfl, ?_⟩
          simp only [run, List.set_set] at hr
          simpa [settleOne, run, hcancel, hacquire, fuel, hi] using hr

private theorem activeCount_lt_cap_of_none_active {p : Pool σ ρ} (π : Policy ρ)
    (h : ∀ (j : Nat) (s : σ), p.slots[j]? ≠ some (Slot.active s)) : p.activeCount < π.cap := by
  have hzero : p.activeCount = 0 := by
    unfold activeCount
    rw [List.countP_eq_zero]
    intro slot hmem hactive
    rcases List.mem_iff_getElem?.mp hmem with ⟨j, hj⟩
    cases slot with
    | active s => exact h j s hj
    | waiting s => cases hactive
    | finished r => cases hactive
    | cancelled => cases hactive
  have := π.cap_pos
  omega

/-- Settling a list of slots, none of them waiting or while none is active. -/
theorem settleAll_getElem? {indices : List Nat} {p : Pool σ ρ}
    (hrange : ∀ i ∈ indices, i < p.slots.length)
    (hsafe : (∀ i ∈ indices, ∀ s, p.slots[i]? ≠ some (Slot.waiting s)) ∨
      (∀ (j : Nat) (s : σ), p.slots[j]? ≠ some (Slot.active s))) :
    (p.settleAll J π indices).slots.length = p.slots.length ∧
    ∀ (j : Nat) (x : Slot σ ρ), (p.settleAll J π indices).slots[j]? = some x →
      x.settled = true ∨ (j ∉ indices ∧ p.slots[j]? = some x) := by
  induction indices generalizing p with
  | nil =>
      refine ⟨rfl, ?_⟩
      intro j x hj
      exact Or.inr ⟨List.not_mem_nil, hj⟩
  | cons i rest ih =>
      have hlt : i < p.slots.length := hrange i List.mem_cons_self
      have hi : p.slots[i]? = some p.slots[i] := List.getElem?_eq_getElem hlt
      have hfree : ∀ s, p.slots[i] = Slot.waiting s → p.activeCount < π.cap := by
        intro s hs
        rcases hsafe with hsafe | hsafe
        · exact absurd (hs ▸ hi) (hsafe i List.mem_cons_self s)
        · exact activeCount_lt_cap_of_none_active π hsafe
      rcases run_settleOne (J := J) (π := π) hi hfree with ⟨y, hy, hslots⟩
      have hlen : (p.run J π (settleOne J p i)).slots.length = p.slots.length := by
        rw [hslots, List.length_set]
      have hkeep : ∀ (j : Nat) (x : Slot σ ρ),
          (p.run J π (settleOne J p i)).slots[j]? = some x →
            x.settled = true ∨ (j ≠ i ∧ p.slots[j]? = some x) := by
        intro j x hj
        rw [hslots] at hj
        rcases getElem?_set_cases hi hj with ⟨_, rfl⟩ | ⟨hne, hj⟩
        · exact Or.inl hy
        · exact Or.inr ⟨hne, hj⟩
      have hsafe' : (∀ k ∈ rest, ∀ s,
          (p.run J π (settleOne J p i)).slots[k]? ≠ some (Slot.waiting s)) ∨
          (∀ (j : Nat) (s : σ),
            (p.run J π (settleOne J p i)).slots[j]? ≠ some (Slot.active s)) := by
        rcases hsafe with hsafe | hsafe
        · left
          intro k hk s hbad
          rcases hkeep k _ hbad with hset | ⟨_, hk'⟩
          · cases hset
          · exact hsafe k (List.mem_cons_of_mem i hk) s hk'
        · right
          intro j s hbad
          rcases hkeep j _ hbad with hset | ⟨_, hj'⟩
          · cases hset
          · exact hsafe j s hj'
      rcases ih (fun k hk => hlen ▸ hrange k (List.mem_cons_of_mem i hk)) hsafe' with
        ⟨hlen', hrest⟩
      refine ⟨hlen'.trans hlen, ?_⟩
      intro j x hj
      rcases hrest j x hj with hset | ⟨hnot, hj⟩
      · exact Or.inl hset
      · rcases hkeep j x hj with hset | ⟨hne, hj⟩
        · exact Or.inl hset
        · exact Or.inr ⟨by simp [hne, hnot], hj⟩

private theorem settleAll_append (p : Pool σ ρ) (first second : List Nat) :
    p.settleAll J π (first ++ second) = (p.settleAll J π first).settleAll J π second := by
  induction first generalizing p with
  | nil => rfl
  | cons i rest ih => exact ih _

/-- Completion leaves no slot unfinished. -/
theorem complete_settled (J : Job σ ρ) (π : Policy ρ) (p : Pool σ ρ) (schedule : List Choice)
    {j : Nat} {x : Slot σ ρ} (hj : (p.complete J π schedule).slots[j]? = some x) :
    x.settled = true := by
  let q := p.run J π schedule
  let held := (List.range q.slots.length).filter fun i => q.slots[i]?.any Slot.isActive
  have hheld : ∀ i ∈ held, i < q.slots.length := by
    intro i hi
    exact List.mem_range.mp (List.mem_filter.mp hi).1
  have hnotWaiting : ∀ i ∈ held, ∀ s, q.slots[i]? ≠ some (Slot.waiting s) := by
    intro i hi s hbad
    have hactive := (List.mem_filter.mp hi).2
    simp [hbad, Slot.isActive] at hactive
  rcases settleAll_getElem? (J := J) (π := π) hheld (Or.inl hnotWaiting) with ⟨hlen, hfirst⟩
  have hnoneActive : ∀ (k : Nat) (s : σ),
      (q.settleAll J π held).slots[k]? ≠ some (Slot.active s) := by
    intro k s hbad
    rcases hfirst k _ hbad with hset | ⟨hnot, hk⟩
    · cases hset
    · apply hnot
      have hk' : k < q.slots.length := (List.getElem?_eq_some_iff.mp hk).1
      exact List.mem_filter.mpr ⟨List.mem_range.mpr hk', by simp [hk, Slot.isActive]⟩
  have hall : ∀ i ∈ List.range q.slots.length, i < (q.settleAll J π held).slots.length := by
    intro i hi
    rw [hlen]
    exact List.mem_range.mp hi
  rcases settleAll_getElem? (J := J) (π := π) hall (Or.inr hnoneActive) with ⟨hlen', hsecond⟩
  have hcomplete : p.complete J π schedule =
      (q.settleAll J π held).settleAll J π (List.range q.slots.length) :=
    settleAll_append q held (List.range q.slots.length)
  rw [hcomplete] at hj
  rcases hsecond j x hj with hset | ⟨hnot, hj'⟩
  · exact hset
  · have hlt : j < q.slots.length := hlen ▸ (List.getElem?_eq_some_iff.mp hj').1
    exact absurd (List.mem_range.mpr hlt) hnot

/-! ## Schedule independence -/

/-- A pool that does not abort has let every job finish. -/
theorem complete_finished {states : List σ} {schedule : List Choice}
    (hcalm : π.aborting ((Pool.initial states).complete J π schedule).slots = false)
    {i : Nat} {s₀ : σ} (hs : states[i]? = some s₀) :
    ∃ r, ((Pool.initial states).complete J π schedule).slots[i]? = some (Slot.finished r) ∧
      J.Yields s₀ r := by
  have htracks := tracks_complete J π states schedule
  have hlt : i < ((Pool.initial states).complete J π schedule).slots.length := by
    rw [htracks.length]
    exact (List.getElem?_eq_some_iff.mp hs).1
  have hslot := List.getElem?_eq_getElem hlt
  have hsettled := complete_settled J π (Pool.initial states) schedule hslot
  have hagree := htracks.slot i s₀ _ hs hslot
  cases hx : ((Pool.initial states).complete J π schedule).slots[i] with
  | finished r =>
      rw [hx] at hslot hagree
      exact ⟨r, hslot, hagree⟩
  | cancelled =>
      rw [hx] at hslot
      rw [htracks.cancelled i hslot] at hcalm
      cases hcalm
  | waiting s => rw [hx] at hsettled; cases hsettled
  | active s => rw [hx] at hsettled; cases hsettled

theorem aborting_of_not_failFast (hff : π.failFast = false) (slots : List (Slot σ ρ)) :
    π.aborting slots = false := by
  simp [Policy.aborting, hff]

/-- A pool that does not abort gives every job its own result. -/
theorem complete_gather {states : List σ} {schedule : List Choice}
    (hcalm : π.aborting ((Pool.initial states).complete J π schedule).slots = false)
    (result : σ → ρ) (hresult : ∀ s ∈ states, J.Yields s (result s)) :
    ((Pool.initial states).complete J π schedule).slots =
      states.map fun s => Slot.finished (result s) := by
  have htracks := tracks_complete J π states schedule
  apply List.ext_getElem?
  intro i
  cases hs : states[i]? with
  | none =>
      have hle : states.length ≤ i := List.getElem?_eq_none_iff.mp hs
      rw [List.getElem?_eq_none_iff.mpr (htracks.length ▸ hle), List.getElem?_map, hs]
      rfl
  | some s₀ =>
      rcases complete_finished hcalm hs with ⟨r, hslot, hyield⟩
      rw [hslot, List.getElem?_map, hs]
      have hr : r = result s₀ := hyield.unique (hresult s₀ (List.mem_of_getElem? hs))
      rw [hr]
      rfl

/-- In a fail-fast pool, whether a job fails does not depend on the schedule. -/
theorem complete_fails_iff (hff : π.failFast = true) (J : Job σ ρ) (states : List σ)
    (schedule : List Choice) :
    π.aborting ((Pool.initial states).complete J π schedule).slots = true ↔
      ∃ s ∈ states, ∃ r, J.Yields s r ∧ π.fails r = true := by
  have htracks := tracks_complete J π states schedule
  constructor
  · intro habort
    rcases (aborting_iff _).mp habort with ⟨_, i, r, hi, hfail⟩
    have hlt : i < states.length := htracks.length ▸ (List.getElem?_eq_some_iff.mp hi).1
    have hs : states[i]? = some states[i] := List.getElem?_eq_getElem hlt
    exact ⟨states[i], List.getElem_mem hlt, r, htracks.slot i _ _ hs hi, hfail⟩
  · rintro ⟨s, hmem, r, hyield, hfail⟩
    by_contra hcalm
    rw [Bool.not_eq_true] at hcalm
    rcases List.mem_iff_getElem?.mp hmem with ⟨i, hi⟩
    rcases complete_finished hcalm hi with ⟨r', hslot, hyield'⟩
    have hr : r' = r := hyield'.unique hyield
    subst hr
    have habort := (aborting_iff (π := π) _).mpr ⟨hff, i, r', hslot, hfail⟩
    rw [habort] at hcalm
    cases hcalm

/-! ## The cap -/

/-- Overwriting a slot changes the number of held permits by that slot alone. -/
theorem countP_set_le {slots : List (Slot σ ρ)} {i : Nat} {old new : Slot σ ρ}
    (hi : slots[i]? = some old) (hkeep : new.isActive = true → old.isActive = true) :
    (slots.set i new).countP Slot.isActive ≤ slots.countP Slot.isActive := by
  rcases List.getElem?_eq_some_iff.mp hi with ⟨hlt, hold⟩
  rw [List.countP_set hlt, hold]
  cases hn : new.isActive with
  | false => simp
  | true =>
      have hpos : 0 < slots.countP Slot.isActive :=
        List.countP_pos_iff.mpr ⟨old, List.mem_of_getElem? hi, hkeep hn⟩
      simp only [hkeep hn, if_true]
      omega

/-- No choice exceeds the cap. -/
theorem choose_activeCount_le {p : Pool σ ρ} (h : p.activeCount ≤ π.cap) (c : Choice) :
    (p.choose J π c).activeCount ≤ π.cap := by
  rcases choose_cases J π p c with heq | ⟨i, s, hi, hcap, heq⟩ | ⟨i, s, hi, heq⟩ |
    ⟨i, old, hi, _, _, heq⟩
  · rw [heq]
    exact h
  · rw [heq]
    rcases List.getElem?_eq_some_iff.mp hi with ⟨hlt, hold⟩
    unfold activeCount at hcap ⊢
    rw [List.countP_set hlt, hold]
    simp only [Slot.isActive, if_true]
    simp
    omega
  · rw [heq]
    exact Nat.le_trans (countP_set_le hi fun _ => rfl) h
  · rw [heq]
    exact Nat.le_trans (countP_set_le hi fun hbad => absurd hbad Bool.false_ne_true) h

/-- A pool starts without active jobs. -/
theorem initial_activeCount (states : List σ) : (Pool.initial states : Pool σ ρ).activeCount = 0 := by
  simp [activeCount, initial, Slot.isActive]

/-- No schedule exceeds the cap. -/
theorem run_activeCount_le {p : Pool σ ρ} (h : p.activeCount ≤ π.cap) (schedule : List Choice) :
    (p.run J π schedule).activeCount ≤ π.cap := by
  induction schedule generalizing p with
  | nil => exact h
  | cons c rest ih => exact ih (choose_activeCount_le h c)

end Pool

end FanOut
