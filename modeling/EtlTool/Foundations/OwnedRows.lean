import Mathlib.Data.List.Nodup

/-!
# Tables whose rows have owners

Every row of a table belongs to an owner, and most rows have a key.  The rows of one
owner make up a table of their own.  An operation that looks at the rows of one owner
only gives the same on the whole table as on this part of it, and leaves the parts of
the other owners as they are.

Main results:

- Theorem {lit}`find?_rowsOf`: a lookup finds the same row in the part of its owner.
- Theorem {lit}`localChange_append`, {lit}`localChange_edit`, {lit}`localChange_remove`:
  insertions, changes and deletions can be made in the part of an owner, and leave the
  parts of the others as they are.
- Theorem {lit}`filter_rowsUnder`: the same for rows that hang on rows with owners.
-/

namespace OwnedRows

variable {α κ ι : Type} {owner : α → κ} {key : α → ι} {rows : List α} {u v : κ}

/-- The rows with a key, if any, belong to one owner. -/
def KeyOwned (owner : α → κ) (key : α → ι) (rows : List α) (k : ι) (u : κ) : Prop :=
  ∀ row ∈ rows, key row = k → owner row = u

/-- A ledger gives a key one owner. -/
theorem owner_unique {ledger : List (ι × κ)} (hunique : (ledger.map Prod.fst).Nodup) {k : ι}
    (hu : (k, u) ∈ ledger) (hv : (k, v) ∈ ledger) : u = v :=
  congrArg Prod.snd (List.inj_on_of_nodup_map hunique hu hv rfl)

/-- If a ledger records the owner of every row, then it tells whose a key is. -/
theorem keyOwned_of_recorded {ledger : List (ι × κ)} (hunique : (ledger.map Prod.fst).Nodup)
    (hrows : ∀ row ∈ rows, (key row, owner row) ∈ ledger) {k : ι} (hk : (k, u) ∈ ledger) :
    KeyOwned owner key rows k u := by
  intro row hrow hkey
  have hrecorded := hrows row hrow
  rw [hkey] at hrecorded
  exact owner_unique hunique hrecorded hk

/-- A key that a ledger does not record is not taken. -/
theorem notMem_keys_of_fresh {ledger : List (ι × κ)}
    (hrows : ∀ row ∈ rows, (key row, owner row) ∈ ledger) {k : ι}
    (hk : k ∉ ledger.map Prod.fst) : k ∉ rows.map key := by
  intro htaken
  rcases List.mem_map.mp htaken with ⟨row, hrow, rfl⟩
  exact hk (List.mem_map_of_mem (hrows row hrow))

/-! ## The part of an owner -/

variable [DecidableEq κ]

/-- The rows of one owner. -/
def rowsOf (owner : α → κ) (u : κ) (rows : List α) : List α :=
  rows.filter fun row => decide (owner row = u)

@[simp]
theorem mem_rowsOf {row : α} : row ∈ rowsOf owner u rows ↔ row ∈ rows ∧ owner row = u := by
  simp [rowsOf]

/-- A key is taken in the part of its owner if it is taken at all. -/
theorem mem_keys_rowsOf {k : ι} (h : KeyOwned owner key rows k u) :
    k ∈ (rowsOf owner u rows).map key ↔ k ∈ rows.map key := by
  simp only [List.mem_map, mem_rowsOf]
  constructor
  · rintro ⟨row, ⟨hrow, _⟩, hkey⟩
    exact ⟨row, hrow, hkey⟩
  · rintro ⟨row, hrow, hkey⟩
    exact ⟨row, ⟨hrow, h row hrow hkey⟩, hkey⟩

/-! ## Lookups -/

section

variable [DecidableEq ι]

/-- A lookup finds the same row in the part of its owner. -/
theorem find?_rowsOf {k : ι} (h : KeyOwned owner key rows k u) :
    (rowsOf owner u rows).find? (fun row => decide (key row = k)) =
      rows.find? fun row => decide (key row = k) := by
  unfold rowsOf
  rw [List.find?_filter]
  induction rows with
  | nil => rfl
  | cons row rest ih =>
      have hrest := ih fun other hother => h other (List.mem_cons_of_mem _ hother)
      by_cases hkey : key row = k
      · have howner := h row List.mem_cons_self hkey
        simp [hkey, howner]
      · simpa [hkey] using hrest

/-- All rows with a key are in the part of its owner. -/
theorem filter_rowsOf {k : ι} (h : KeyOwned owner key rows k u) :
    (rowsOf owner u rows).filter (fun row => decide (key row = k)) =
      rows.filter fun row => decide (key row = k) := by
  rw [rowsOf, List.filter_comm, List.filter_eq_self]
  intro row hrow
  rw [List.mem_filter] at hrow
  simpa using h row hrow.1 (by simpa using hrow.2)

/-- A lookup in the part of an owner finds a row of theirs, or nothing. -/
theorem find?_rowsOf_of_recorded {ledger : List (ι × κ)} (hunique : (ledger.map Prod.fst).Nodup)
    (hrows : ∀ row ∈ rows, (key row, owner row) ∈ ledger) (k : ι) (u : κ) :
    (rowsOf owner u rows).find? (fun row => decide (key row = k)) =
      (rows.find? fun row => decide (key row = k)).filter fun row => decide (owner row = u) := by
  cases hfind : rows.find? fun row => decide (key row = k) with
  | none =>
      rw [List.find?_eq_none] at hfind
      rw [Option.filter_none, List.find?_eq_none]
      intro row hrow
      exact hfind row (mem_rowsOf.mp hrow).1
  | some found =>
      have hmem := List.mem_of_find?_eq_some hfind
      have hkey : key found = k := by simpa using List.find?_some hfind
      have howned : KeyOwned owner key rows k (owner found) :=
        keyOwned_of_recorded hunique hrows (hkey ▸ hrows found hmem)
      by_cases howner : owner found = u
      · rw [howner] at howned
        rw [find?_rowsOf howned, hfind, Option.filter_some_pos (by simpa using howner)]
      · have hnone : (rowsOf owner u rows).find? (fun row => decide (key row = k)) = none := by
          rw [List.find?_eq_none]
          intro row hrow
          rw [mem_rowsOf] at hrow
          simp only [decide_eq_true_eq]
          intro hother
          exact howner ((howned row hrow.1 hother).symm.trans hrow.2)
        rw [hnone, Option.filter_some_neg (by simpa using howner)]

end

/-! ## Changes to the rows of one owner -/

/-- The part of an owner is theirs altogether. -/
theorem rowsOf_rowsOf : rowsOf owner u (rowsOf owner u rows) = rowsOf owner u rows := by
  rw [rowsOf, List.filter_eq_self]
  intro row hrow
  simp [(mem_rowsOf.mp hrow).2]

/-- A change that can be made in the part of one owner, and that leaves the parts of the
others as they are. -/
structure LocalChange (owner : α → κ) (u : κ) (change : List α → List α) (rows : List α) :
    Prop where
  self : rowsOf owner u (change rows) = change (rowsOf owner u rows)
  others : ∀ v, v ≠ u → rowsOf owner v (change rows) = rowsOf owner v rows

/-- Insert a row of the owner. -/
theorem localChange_append {row : α} (h : owner row = u) :
    LocalChange owner u (· ++ [row]) rows := by
  constructor
  · simp [rowsOf, h]
  · intro v hv
    have hne : owner row ≠ v := fun heq => hv (heq.symm.trans h)
    simp [rowsOf, hne]

/-- Delete rows of the owner. -/
theorem localChange_filter {p : α → Bool} (h : ∀ row ∈ rows, p row = false → owner row = u) :
    LocalChange owner u (List.filter p) rows := by
  constructor
  · exact List.filter_comm _ _ rows
  · intro v hv
    have hcomm : rowsOf owner v (rows.filter p) = (rowsOf owner v rows).filter p :=
      List.filter_comm _ _ rows
    rw [hcomm, List.filter_eq_self]
    intro row hrow
    rw [mem_rowsOf] at hrow
    by_contra hdeleted
    have howner := h row hrow.1 (by simpa using hdeleted)
    exact hv (hrow.2.symm.trans howner)

/-- Change rows of the owner, who keeps them. -/
theorem localChange_map {f : α → α} (hkeeps : ∀ row ∈ rows, owner (f row) = owner row)
    (h : ∀ row ∈ rows, owner row ≠ u → f row = row) :
    LocalChange owner u (List.map f) rows := by
  have hmap : ∀ v, rowsOf owner v (rows.map f) = (rowsOf owner v rows).map f := by
    intro v
    rw [rowsOf, List.filter_map]
    refine congrArg (List.map f) (List.filter_congr fun row hrow => ?_)
    simp only [Function.comp_apply, hkeeps row hrow]
  constructor
  · exact hmap u
  · intro v hv
    rw [hmap]
    conv_rhs => rw [← List.map_id (rowsOf owner v rows)]
    apply List.map_congr_left
    intro row hrow
    rw [mem_rowsOf] at hrow
    exact h row hrow.1 fun howner => hv (hrow.2.symm.trans howner)

section

variable [DecidableEq ι]

/-- Delete the rows with a key of the owner. -/
theorem localChange_remove {k : ι} (h : KeyOwned owner key rows k u) :
    LocalChange owner u (List.filter fun row => decide ¬ key row = k) rows := by
  apply localChange_filter
  intro row hrow hdeleted
  exact h row hrow (by simpa using hdeleted)

/-- Change the row with a key of the owner. -/
theorem localChange_edit {k : ι} (h : KeyOwned owner key rows k u) (f : α → α)
    (hkeeps : ∀ row ∈ rows, key row = k → owner (f row) = owner row) :
    LocalChange owner u (List.map fun row => if key row = k then f row else row) rows := by
  apply localChange_map
  · intro row hrow
    split
    · rename_i hkey
      exact hkeeps row hrow hkey
    · rfl
  · intro row hrow howner
    exact if_neg fun hkey => howner (h row hrow hkey)

end

/-! ## Rows that hang on rows with owners -/

section

variable {β : Type} [DecidableEq ι] {parent : β → ι} {ids ids' : List ι} {children : List β}

/-- The rows whose parents are among those given. -/
def rowsUnder (parent : β → ι) (ids : List ι) (children : List β) : List β :=
  children.filter fun row => decide (parent row ∈ ids)

@[simp]
theorem mem_rowsUnder {row : β} :
    row ∈ rowsUnder parent ids children ↔ row ∈ children ∧ parent row ∈ ids := by
  simp [rowsUnder]

theorem rowsUnder_congr (h : ∀ row ∈ children, parent row ∈ ids ↔ parent row ∈ ids') :
    rowsUnder parent ids children = rowsUnder parent ids' children := by
  apply List.filter_congr
  intro row hrow
  simp only [h row hrow]

theorem rowsUnder_filter (p : β → Bool) :
    rowsUnder parent ids (children.filter p) = (rowsUnder parent ids children).filter p :=
  List.filter_comm _ _ children

theorem rowsUnder_append (more : List β) :
    rowsUnder parent ids (children ++ more) =
      rowsUnder parent ids children ++ rowsUnder parent ids more :=
  List.filter_append ..

theorem rowsUnder_eq_self (h : ∀ row ∈ children, parent row ∈ ids) :
    rowsUnder parent ids children = children := by
  rw [rowsUnder, List.filter_eq_self]
  intro row hrow
  simpa using h row hrow

theorem rowsUnder_eq_nil (h : ∀ row ∈ children, parent row ∉ ids) :
    rowsUnder parent ids children = [] := by
  rw [rowsUnder, List.filter_eq_nil_iff]
  intro row hrow
  simpa using h row hrow

/-- Nothing is lost of the rows under a parent that is among those given. -/
theorem filter_rowsUnder {k : ι} (h : ∀ row ∈ children, parent row = k → k ∈ ids) :
    (rowsUnder parent ids children).filter (fun row => decide (parent row = k)) =
      children.filter fun row => decide (parent row = k) := by
  rw [← rowsUnder_filter, rowsUnder, List.filter_eq_self]
  intro row hrow
  rw [List.mem_filter] at hrow
  have hk : parent row = k := by simpa using hrow.2
  simpa [hk] using h row hrow.1 hk

end

end OwnedRows
