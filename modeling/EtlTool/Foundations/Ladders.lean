import Mathlib.Data.List.Basic

/-!
# Ladders of checks

A ladder is a list of rungs that are climbed from the first one on.  A rung looks at what
the rungs below it have gathered, makes contact with the outside, and passes, is skipped
for a reason of its own, fails, or raises.  The first failure ends the climb, and a list
that belongs to the failed rung says which rungs are reported as skipped.

Main results:

- Theorem {lit}`climb_climbed`: at most one rung fails, and all rungs after it are skipped.
- Theorem {lit}`climb_names`: a labelled ladder reports every rung once, in order.
- Theorem {lit}`climb_contact`: every contact belongs to a rung that is not reported as
  skipped, and no rung before it failed.
- Theorem {lit}`climb_contacts`: what the steps keep of the state holds of every contact.
-/

namespace Ladders

/-- The status of a check. -/
inductive Status where
  | passed
  | failed
  | skipped
deriving DecidableEq

/-- What is reported of a rung. -/
structure Check (ρ : Type) where
  name : ρ
  status : Status
  text : String
deriving DecidableEq

/-- How a rung ends. -/
inductive Outcome (σ ε : Type) where
  | passed (text : String) (s : σ)
  | skipped (text : String) (s : σ)
  | failed (text : String)
  | raised (exc : ε)

/-- A rung: its contacts, how it ends, and the rungs that are reported as skipped if it
fails. -/
structure Rung (ρ σ κ ε : Type) where
  name : ρ
  contacts : σ → List κ
  step : σ → Outcome σ ε
  above : List ρ

/-- What comes of a climb; the final state is that before a failure. -/
structure Climb (ρ σ κ ε : Type) where
  checks : List (Check ρ)
  contacts : List κ
  final : Except ε σ

variable {ρ σ κ ε : Type}

/-- The check of a rung that is not reached. -/
def Check.unreached (text : String) (name : ρ) : Check ρ where
  name := name
  status := .skipped
  text := text

/-- A rung that has been left behind, and the climb from there. -/
def Climb.below (check : Check ρ) (contacts : List κ) (higher : Climb ρ σ κ ε) :
    Climb ρ σ κ ε where
  checks := check :: higher.checks
  contacts := contacts ++ higher.contacts
  final := higher.final

/-- Climb the rungs until one fails or raises. -/
def climb (text : String) : List (Rung ρ σ κ ε) → σ → Climb ρ σ κ ε
  | [], s => ⟨[], [], .ok s⟩
  | rung :: rest, s =>
      match rung.step s with
      | .passed detail s' =>
          (climb text rest s').below ⟨rung.name, .passed, detail⟩ (rung.contacts s)
      | .skipped detail s' =>
          (climb text rest s').below ⟨rung.name, .skipped, detail⟩ (rung.contacts s)
      | .failed error =>
          ⟨⟨rung.name, .failed, error⟩ :: rung.above.map (Check.unreached text), rung.contacts s,
            .ok s⟩
      | .raised exc => ⟨[], rung.contacts s, .error exc⟩

/-- What a climb does at its first rung. -/
inductive First (text : String) (rung : Rung ρ σ κ ε) (rest : List (Rung ρ σ κ ε)) (s : σ) :
    Climb ρ σ κ ε → Prop where
  | passed (detail : String) (s' : σ) (h : rung.step s = .passed detail s') :
      First text rung rest s
        ((climb text rest s').below ⟨rung.name, .passed, detail⟩ (rung.contacts s))
  | skipped (detail : String) (s' : σ) (h : rung.step s = .skipped detail s') :
      First text rung rest s
        ((climb text rest s').below ⟨rung.name, .skipped, detail⟩ (rung.contacts s))
  | failed (error : String) (h : rung.step s = .failed error) :
      First text rung rest s
        ⟨⟨rung.name, .failed, error⟩ :: rung.above.map (Check.unreached text), rung.contacts s,
          .ok s⟩
  | raised (exc : ε) (h : rung.step s = .raised exc) :
      First text rung rest s ⟨[], rung.contacts s, .error exc⟩

theorem climb_first (text : String) (rung : Rung ρ σ κ ε) (rest : List (Rung ρ σ κ ε)) (s : σ) :
    First text rung rest s (climb text (rung :: rest) s) := by
  rw [climb]
  cases hstep : rung.step s with
  | passed detail s' => exact .passed detail s' hstep
  | skipped detail s' => exact .skipped detail s' hstep
  | failed error => exact .failed error hstep
  | raised exc => exact .raised exc hstep

/-! ## The shape of a report -/

/-- Nothing fails, or one check does and everything after it is skipped. -/
def Climbed (checks : List (Check ρ)) : Prop :=
  (∀ check ∈ checks, check.status ≠ .failed) ∨
    ∃ below check above, checks = below ++ check :: above ∧
      (∀ other ∈ below, other.status ≠ .failed) ∧ check.status = .failed ∧
      ∀ other ∈ above, other.status = .skipped

theorem Climbed.cons {check : Check ρ} {checks : List (Check ρ)} (hcheck : check.status ≠ .failed)
    (h : Climbed checks) : Climbed (check :: checks) := by
  rcases h with hcalm | ⟨below, failed, above, rfl, hbelow, hfailed, habove⟩
  · exact .inl (List.forall_mem_cons.mpr ⟨hcheck, hcalm⟩)
  · exact .inr ⟨check :: below, failed, above, rfl, List.forall_mem_cons.mpr ⟨hcheck, hbelow⟩,
      hfailed, habove⟩

/-- At most one rung fails, and all rungs after it are skipped. -/
theorem climb_climbed (text : String) (rungs : List (Rung ρ σ κ ε)) (s : σ) :
    Climbed (climb text rungs s).checks := by
  induction rungs generalizing s with
  | nil => exact .inl fun _ hmem => nomatch hmem
  | cons rung rest ih =>
      have hfirst := climb_first text rung rest s
      generalize climb text (rung :: rest) s = result at hfirst ⊢
      cases hfirst with
      | passed detail s' hstep => exact (ih s').cons (fun heq => nomatch heq)
      | skipped detail s' hstep => exact (ih s').cons (fun heq => nomatch heq)
      | failed error hstep =>
          refine .inr ⟨[], _, _, rfl, (fun _ hmem => nomatch hmem), rfl, ?_⟩
          intro other hmem
          rcases List.mem_map.mp hmem with ⟨name, _, rfl⟩
          rfl
      | raised exc hstep => exact .inl fun _ hmem => nomatch hmem

/-- No check before one that is not skipped has failed. -/
theorem Climbed.before {checks : List (Check ρ)} (h : Climbed checks)
    {before after : List (Check ρ)} {check : Check ρ} (hsplit : checks = before ++ check :: after)
    (hcheck : check.status ≠ .skipped) : ∀ other ∈ before, other.status ≠ .failed := by
  rcases h with hcalm | ⟨below, failed, above, heq, hbelow, _, habove⟩
  · intro other hmem
    exact hcalm other (hsplit ▸ List.mem_append_left _ hmem)
  · rw [heq] at hsplit
    rcases List.append_eq_append_iff.mp hsplit with ⟨between, rfl, hrest⟩ | ⟨between, rfl, hrest⟩
    · -- the failed check stands at the check or before it
      cases between with
      | nil => simpa using hbelow
      | cons first others =>
          rw [List.cons_append, List.cons.injEq] at hrest
          have hmem : check ∈ above := by
            rw [hrest.2]
            exact List.mem_append_right _ List.mem_cons_self
          exact absurd (habove check hmem) hcheck
    · intro other hmem
      exact hbelow other (List.mem_append_left _ hmem)

/-! ## The rungs of a report -/

/-- The list of every rung names the rungs after it. -/
def Labelled : List (Rung ρ σ κ ε) → Prop
  | [] => True
  | rung :: rest => rung.above = rest.map Rung.name ∧ Labelled rest

/-- A labelled ladder reports every rung once, in order, unless a rung raises. -/
theorem climb_names {text : String} {rungs : List (Rung ρ σ κ ε)} (h : Labelled rungs) {s t : σ}
    (hfinal : (climb text rungs s).final = .ok t) :
    (climb text rungs s).checks.map Check.name = rungs.map Rung.name := by
  induction rungs generalizing s with
  | nil => rfl
  | cons rung rest ih =>
      rcases h with ⟨habove, hrest⟩
      have hfirst := climb_first text rung rest s
      generalize climb text (rung :: rest) s = result at hfirst hfinal ⊢
      cases hfirst with
      | passed detail s' hstep => exact congrArg (rung.name :: ·) (ih hrest hfinal)
      | skipped detail s' hstep => exact congrArg (rung.name :: ·) (ih hrest hfinal)
      | failed error hstep =>
          rw [List.map_cons, List.map_cons, List.map_map, ← habove]
          exact congrArg (rung.name :: ·) (List.map_id _)
      | raised exc hstep => cases hfinal

/-! ## Contacts -/

/-- A rung makes contacts of its own, and none when it is skipped. -/
structure Rung.Contacts (belongs : κ → ρ) (rung : Rung ρ σ κ ε) : Prop where
  own : ∀ s, ∀ contact ∈ rung.contacts s, belongs contact = rung.name
  skipped : ∀ s text s', rung.step s = .skipped text s' → rung.contacts s = []

/-- Every contact belongs to a rung that is not reported as skipped. -/
theorem climb_shown {text : String} {belongs : κ → ρ} {rungs : List (Rung ρ σ κ ε)}
    (h : ∀ rung ∈ rungs, rung.Contacts belongs) {s t : σ}
    (hfinal : (climb text rungs s).final = .ok t) {contact : κ}
    (hcontact : contact ∈ (climb text rungs s).contacts) :
    ∃ before check after, (climb text rungs s).checks = before ++ check :: after ∧
      check.name = belongs contact ∧ check.status ≠ .skipped := by
  induction rungs generalizing s with
  | nil => cases hcontact
  | cons rung rest ih =>
      rcases List.forall_mem_cons.mp h with ⟨hrung, hrest⟩
      have hown := hrung.own s contact
      have hfirst := climb_first text rung rest s
      generalize climb text (rung :: rest) s = result at hfirst hfinal hcontact ⊢
      cases hfirst with
      | passed detail s' hstep =>
          rcases List.mem_append.mp hcontact with hmine | hhigher
          · exact ⟨[], _, _, rfl, (hown hmine).symm, fun heq => nomatch heq⟩
          · rcases ih hrest hfinal hhigher with ⟨before, check, after, hsplit, hfacts⟩
            exact ⟨_ :: before, check, after, congrArg (_ :: ·) hsplit, hfacts⟩
      | skipped detail s' hstep =>
          rcases List.mem_append.mp hcontact with hmine | hhigher
          · rw [hrung.skipped s detail s' hstep] at hmine
            cases hmine
          · rcases ih hrest hfinal hhigher with ⟨before, check, after, hsplit, hfacts⟩
            exact ⟨_ :: before, check, after, congrArg (_ :: ·) hsplit, hfacts⟩
      | failed error hstep => exact ⟨[], _, _, rfl, (hown hcontact).symm, fun heq => nomatch heq⟩
      | raised exc hstep => cases hfinal

/-- Every contact belongs to a rung that is not reported as skipped, and no rung before it
failed. -/
theorem climb_contact {text : String} {belongs : κ → ρ} {rungs : List (Rung ρ σ κ ε)}
    (h : ∀ rung ∈ rungs, rung.Contacts belongs) {s t : σ}
    (hfinal : (climb text rungs s).final = .ok t) {contact : κ}
    (hcontact : contact ∈ (climb text rungs s).contacts) :
    ∃ before check after, (climb text rungs s).checks = before ++ check :: after ∧
      check.name = belongs contact ∧ check.status ≠ .skipped ∧
      ∀ other ∈ before, other.status ≠ .failed := by
  rcases climb_shown h hfinal hcontact with ⟨before, check, after, hsplit, hname, hstatus⟩
  exact ⟨before, check, after, hsplit, hname, hstatus,
    (climb_climbed text rungs s).before hsplit hstatus⟩

/-- Before a rung something holds of the state; then its contacts meet a condition, and
what the next rung relies on holds after it. -/
def Chained (Allowed : κ → Prop) : (σ → Prop) → List (Rung ρ σ κ ε) → Prop
  | _, [] => True
  | Before, rung :: rest =>
      (∀ s, Before s → ∀ contact ∈ rung.contacts s, Allowed contact) ∧
        ∃ After : σ → Prop,
          (∀ s text s', Before s →
            rung.step s = .passed text s' ∨ rung.step s = .skipped text s' → After s') ∧
          Chained Allowed After rest

/-- What the steps keep of the state holds of every contact. -/
theorem climb_contacts {text : String} {Allowed : κ → Prop} {Before : σ → Prop}
    {rungs : List (Rung ρ σ κ ε)} (h : Chained Allowed Before rungs) {s : σ} (hs : Before s) :
    ∀ contact ∈ (climb text rungs s).contacts, Allowed contact := by
  induction rungs generalizing Before s with
  | nil => exact fun _ hmem => nomatch hmem
  | cons rung rest ih =>
      rcases h with ⟨hown, After, hafter, hrest⟩
      have hmine := hown s hs
      have hfirst := climb_first text rung rest s
      generalize climb text (rung :: rest) s = result at hfirst ⊢
      cases hfirst with
      | passed detail s' hstep =>
          have hhigher := ih hrest (hafter s detail s' hs (.inl hstep))
          exact List.forall_mem_append.mpr ⟨hmine, hhigher⟩
      | skipped detail s' hstep =>
          have hhigher := ih hrest (hafter s detail s' hs (.inr hstep))
          exact List.forall_mem_append.mpr ⟨hmine, hhigher⟩
      | failed error hstep => exact hmine
      | raised exc hstep => exact hmine

end Ladders
