import EtlTool.Foundations.OrderedDict
import Mathlib.Data.List.Induction
import Mathlib.Data.List.Perm.Basic

/-!
# Hash joins

A join that indexes the right rows by key and probes the index with each left row, and
the nested loop that it replaces.  Keys are optional: a row without a key matches
nothing, and on the right such rows are kept in a list of their own.  The keys that were
found by some left row are collected on the way, and an outer join appends the right rows
under the other keys.

Main results:

- Theorem {lit}`get?_byKey_build`: the index holds the rows of a key in their order.
- Theorem {lit}`probe_build`: probing with the left rows gives what the nested loop gives.
- Theorem {lit}`unmatched_perm`: what an outer join appends are the right rows that match
  no left row, each as often as it occurs.
-/

namespace HashJoin

variable {α β γ κ : Type*} [DecidableEq κ]

/-- Right rows by key, in the order in which the keys were first seen, and the right rows
without a key. -/
structure Index (κ β : Type*) where
  byKey : OrderedDict κ (List β)
  keyless : List β

/-- The index of no rows. -/
def Index.empty : Index κ β where
  byKey := .empty
  keyless := []

/-- File one row under its key. -/
def Index.insert (index : Index κ β) (key? : Option κ) (row : β) : Index κ β :=
  match key? with
  | none => { index with keyless := index.keyless ++ [row] }
  | some key =>
      { index with byKey := index.byKey.set key ((index.byKey.get? key).getD [] ++ [row]) }

/-- The index of a list of rows. -/
def Index.build (key : β → Option κ) (rows : List β) : Index κ β :=
  rows.foldl (fun index row => index.insert (key row) row) .empty

/-- The right rows filed under the key of a left row. -/
def Index.matches (index : Index κ β) (key? : Option κ) : List β :=
  match key? with
  | none => []
  | some key => (index.byKey.get? key).getD []

/-- The right rows under keys that were not matched, and those without a key. -/
def Index.unmatched (index : Index κ β) (matched : List κ) : List β :=
  (index.byKey.entries.flatMap fun entry => if entry.1 ∈ matched then [] else entry.2) ++
    index.keyless

/-- The output of one left row with its matches. -/
def rowOutput (combine : α → β → γ) (alone : α → List γ) (row : α) (found : List β) : List γ :=
  if found = [] then alone row else found.map (combine row)

/-- The nested loop: every left row with the right rows that have the same key. -/
def nestedLoop (keyLeft : α → Option κ) (keyRight : β → Option κ) (combine : α → β → γ)
    (alone : α → List γ) (left : List α) (right : List β) : List γ :=
  left.flatMap fun row =>
    rowOutput combine alone row
      (right.filter fun other => (keyLeft row).isSome && decide (keyRight other = keyLeft row))

/-- The output of probing an index with every left row. -/
def probe (keyLeft : α → Option κ) (combine : α → β → γ) (alone : α → List γ)
    (index : Index κ β) (left : List α) : List γ :=
  left.flatMap fun row => rowOutput combine alone row (index.matches (keyLeft row))

/-- The keys of the left rows that found something. -/
def matchedKeys (keyLeft : α → Option κ) (index : Index κ β) (left : List α) : List κ :=
  left.filterMap fun row => if index.matches (keyLeft row) = [] then none else keyLeft row

/-! ## What the index holds -/

private theorem build_append_singleton (key : β → Option κ) (rows : List β) (row : β) :
    Index.build key (rows ++ [row]) = (Index.build key rows).insert (key row) row := by
  simp [Index.build]

private theorem keyless_build (key : β → Option κ) (rows : List β) :
    (Index.build key rows).keyless = rows.filter fun row => (key row).isNone := by
  induction rows using List.reverseRecOn with
  | nil => rfl
  | append_singleton rows row ih =>
      rw [build_append_singleton, List.filter_append, ← ih]
      cases hkey : key row with
      | none => simp [Index.insert, hkey]
      | some k => simp [Index.insert, hkey]

/-- The index holds the rows of a key in their order. -/
theorem get?_byKey_build (key : β → Option κ) (rows : List β) (k : κ) :
    ((Index.build key rows).byKey.get? k).getD [] =
      rows.filter fun row => decide (key row = some k) := by
  induction rows using List.reverseRecOn with
  | nil => rfl
  | append_singleton rows row ih =>
      rw [build_append_singleton, List.filter_append, ← ih]
      cases hkey : key row with
      | none => simp [Index.insert, hkey]
      | some k' =>
          by_cases hk : k' = k
          · subst hk
            simp [Index.insert, hkey]
          · have hframe : k ≠ k' := fun h => hk h.symm
            simp [Index.insert, hkey, hk, OrderedDict.get?_set_of_ne _ hframe]

private theorem matches_build (key : β → Option κ) (rows : List β) (key? : Option κ) :
    (Index.build key rows).matches key? =
      rows.filter fun row => key?.isSome && decide (key row = key?) := by
  cases key? with
  | none => simp [Index.matches]
  | some k => simp [Index.matches, get?_byKey_build]

/-- Probing the index gives what the nested loop gives. -/
theorem probe_build (keyLeft : α → Option κ) (keyRight : β → Option κ) (combine : α → β → γ)
    (alone : α → List γ) (left : List α) (right : List β) :
    probe keyLeft combine alone (Index.build keyRight right) left =
      nestedLoop keyLeft keyRight combine alone left right := by
  unfold probe nestedLoop
  simp only [matches_build]

/-! ## What an outer join appends -/

/-- Filing a row under a key adds it to the rows of the selected keys. -/
theorem flatMap_setPair_perm (p : κ → Bool) (k : κ) (row : β) (pairs : List (κ × List β)) :
    ((OrderedDict.setPair k ((OrderedDict.findPair k pairs).getD [] ++ [row]) pairs).flatMap
      fun entry => if p entry.1 then entry.2 else []).Perm
      ((pairs.flatMap fun entry => if p entry.1 then entry.2 else []) ++
        if p k then [row] else []) := by
  induction pairs with
  | nil => simp [OrderedDict.setPair, OrderedDict.findPair]
  | cons pair rest ih =>
      by_cases hk : pair.1 = k
      · simp only [OrderedDict.setPair, OrderedDict.findPair, hk, if_true, Option.getD_some,
          List.flatMap_cons]
        by_cases hp : p k = true
        · simp only [hp, if_true, List.append_assoc]
          exact List.perm_append_comm.append_left pair.2
        · simp [hp]
      · simp only [OrderedDict.setPair, OrderedDict.findPair, hk, if_false, List.flatMap_cons,
          List.append_assoc]
        exact ih.append_left _

/-- The rows under the selected keys are the rows with these keys. -/
theorem flatMap_byKey_perm (key : β → Option κ) (rows : List β) (p : κ → Bool) :
    ((Index.build key rows).byKey.entries.flatMap fun entry =>
      if p entry.1 then entry.2 else []).Perm (rows.filter fun row => (key row).any p) := by
  induction rows using List.reverseRecOn with
  | nil => exact List.Perm.refl _
  | append_singleton rows row ih =>
      rw [build_append_singleton, List.filter_append]
      cases hkey : key row with
      | none => simpa [Index.insert, hkey] using ih
      | some k =>
          have hstep := flatMap_setPair_perm p k row (Index.build key rows).byKey.entries
          have hlast : [row].filter (fun row => (key row).any p) = if p k then [row] else [] := by
            by_cases hp : p k = true <;> simp [hkey, hp]
          rw [hlast]
          exact hstep.trans (ih.append_right _)

/-- The keys that were found are the keys of left rows. -/
theorem mem_matchedKeys_iff {keyLeft : α → Option κ} {keyRight : β → Option κ} {left : List α}
    {right : List β} {other : β} {k : κ} (hother : other ∈ right) (hkey : keyRight other = some k) :
    k ∈ matchedKeys keyLeft (Index.build keyRight right) left ↔
      ∃ row ∈ left, keyLeft row = some k := by
  have hfound : (Index.build keyRight right).matches (some k) ≠ [] := by
    rw [matches_build]
    exact List.ne_nil_of_mem (List.mem_filter.mpr ⟨hother, by simp [hkey]⟩)
  simp only [matchedKeys, List.mem_filterMap]
  constructor
  · intro hboth
    rcases hboth with ⟨row, hrow, hif⟩
    refine ⟨row, hrow, ?_⟩
    split at hif
    · cases hif
    · exact hif
  · intro hboth
    rcases hboth with ⟨row, hrow, hsame⟩
    refine ⟨row, hrow, ?_⟩
    rw [hsame, if_neg hfound]

/-- The right rows that an outer join appends match no left row, and there are no others. -/
theorem unmatched_perm (keyLeft : α → Option κ) (keyRight : β → Option κ) (left : List α)
    (right : List β) :
    ((Index.build keyRight right).unmatched
      (matchedKeys keyLeft (Index.build keyRight right) left)).Perm
      (right.filter fun other =>
        !left.any fun row => (keyLeft row).isSome && decide (keyRight other = keyLeft row)) := by
  let matched := matchedKeys keyLeft (Index.build keyRight right) left
  let open? := fun other =>
    !left.any fun row => (keyLeft row).isSome && decide (keyRight other = keyLeft row)
  have hkeyed : right.filter (fun other => (keyRight other).any fun k => decide (k ∉ matched)) =
      (right.filter open?).filter fun other => (keyRight other).isSome := by
    rw [List.filter_filter]
    refine List.filter_congr fun other hother => ?_
    cases hkey : keyRight other with
    | none => simp
    | some k =>
        have hmem : k ∈ matched ↔ ∃ row ∈ left, keyLeft row = some k :=
          mem_matchedKeys_iff hother hkey
        simp only [Option.any_some, Option.isSome_some, Bool.true_and, open?, hmem, hkey]
        rw [decide_not, Bool.not_inj_iff, Bool.eq_iff_iff, decide_eq_true_eq, List.any_eq_true]
        refine exists_congr fun row => and_congr_right fun _ => ?_
        cases keyLeft row <;> simp [eq_comm]
  have hkeyless : right.filter (fun other => (keyRight other).isNone) =
      (right.filter open?).filter fun other => !(keyRight other).isSome := by
    rw [List.filter_filter]
    refine List.filter_congr fun other _ => ?_
    cases hkey : keyRight other with
    | none =>
        have hopen : open? other = true := by
          simp only [open?, hkey, Bool.not_eq_true', List.any_eq_false]
          intro row _
          cases keyLeft row <;> simp
        simp [hopen]
    | some k => simp
  have hbykey := flatMap_byKey_perm keyRight right fun k => decide (k ∉ matched)
  rw [hkeyed] at hbykey
  have hsame : ((Index.build keyRight right).byKey.entries.flatMap fun entry =>
      if entry.1 ∈ matched then [] else entry.2) =
      (Index.build keyRight right).byKey.entries.flatMap fun entry =>
        if decide (entry.1 ∉ matched) then entry.2 else [] := by
    congr 1
    funext entry
    by_cases hmem : entry.1 ∈ matched <;> simp [hmem]
  rw [Index.unmatched, keyless_build, hkeyless, hsame]
  exact (hbykey.append_right _).trans (List.filter_append_perm _ _)

end HashJoin
