import Mathlib.Data.List.Nodup
import Mathlib.Logic.Function.Basic

/-!
# Tables with keys as maps

A table is a list of rows.  When no two rows have the same key, the table is a map from
keys to the contents of its rows, and an insertion, an edit or a deletion of a row is one
write to this map.  A history of writes leaves behind the last write to each key.

Main results:

- Theorem {lit}`contents_eq_some_iff`: what a table with distinct keys holds.
- Theorem {lit}`contents_append`, {lit}`contents_edit`, {lit}`contents_remove`: the three
  operations on rows are writes.
- Theorem {lit}`foldl_apply`: a history leaves the last write to each key.
-/

namespace KeyedTables

variable {α κ β : Type} {key : α → κ} {value : α → β} {rows : List α}

/-! ## Keys -/

/-- The keys are distinct after a row with a new key. -/
theorem nodup_append {row : α} (h : (rows.map key).Nodup) (hnew : key row ∉ rows.map key) :
    ((rows ++ [row]).map key).Nodup := by
  rw [List.map_append, List.map_singleton, List.nodup_append']
  refine ⟨h, List.nodup_singleton _, ?_⟩
  intro k hold hk
  exact hnew (List.mem_singleton.mp hk ▸ hold)

/-- An edit that keeps the keys keeps them distinct. -/
theorem map_key_edit {f : α → α} (hkeys : ∀ row ∈ rows, key (f row) = key row) :
    (rows.map f).map key = rows.map key := by
  rw [List.map_map]
  exact List.map_congr_left hkeys

/-! ## Writes -/

variable [DecidableEq κ]

/-- A key is given a value, or loses the one that it has. -/
structure Write (κ β : Type) where
  key : κ
  value : Option β

/-- What a write leaves of a map. -/
def Write.apply (m : κ → Option β) (w : Write κ β) : κ → Option β :=
  Function.update m w.key w.value

/-- The last of the writes to a key, if there is one. -/
def lastWrite? (k : κ) : List (Write κ β) → Option (Write κ β)
  | [] => none
  | w :: rest => (lastWrite? k rest).or (if w.key = k then some w else none)

/-- What the writes leave at a key. -/
def standing (writes : List (Write κ β)) (k : κ) : Option β :=
  (lastWrite? k writes).bind Write.value

theorem mem_of_lastWrite? {k : κ} {w : Write κ β} {writes : List (Write κ β)}
    (h : lastWrite? k writes = some w) : w ∈ writes ∧ w.key = k := by
  induction writes with
  | nil => cases h
  | cons first rest ih =>
      rcases Option.or_eq_some_iff.mp h with hlater | ⟨_, hfirst⟩
      · rcases ih hlater with ⟨hmem, hkey⟩
        exact ⟨List.mem_cons_of_mem _ hmem, hkey⟩
      · split at hfirst
        · cases hfirst
          exact ⟨List.mem_cons_self, by assumption⟩
        · cases hfirst

/-- A history leaves the last write to each key, and elsewhere what there was. -/
theorem foldl_apply (writes : List (Write κ β)) (m : κ → Option β) (k : κ) :
    writes.foldl Write.apply m k = (lastWrite? k writes).elim (m k) Write.value := by
  induction writes generalizing m with
  | nil => rfl
  | cons w rest ih =>
      rw [List.foldl_cons, ih, lastWrite?]
      cases lastWrite? k rest with
      | some later => rfl
      | none =>
          by_cases hkey : w.key = k
          · rw [if_pos hkey, ← hkey]
            exact Function.update_self ..
          · rw [if_neg hkey]
            exact Function.update_of_ne (Ne.symm hkey) ..

/-- What a history leaves in an empty map. -/
theorem foldl_apply_none (writes : List (Write κ β)) :
    writes.foldl Write.apply (fun _ => none) = standing writes := by
  funext k
  rw [foldl_apply, standing]
  cases lastWrite? k writes <;> rfl

/-! ## Tables -/

/-- The content of the first row with a key. -/
def contents (key : α → κ) (value : α → β) (rows : List α) (k : κ) : Option β :=
  (rows.find? fun row => decide (key row = k)).map value

/-- What a table with distinct keys holds. -/
theorem contents_eq_some_iff (h : (rows.map key).Nodup) {k : κ} {v : β} :
    contents key value rows k = some v ↔ ∃ row ∈ rows, key row = k ∧ value row = v := by
  rw [contents, Option.map_eq_some_iff]
  constructor
  · rintro ⟨row, hfind, hvalue⟩
    exact ⟨row, List.mem_of_find?_eq_some hfind, by simpa using List.find?_some hfind, hvalue⟩
  · rintro ⟨row, hrow, hkey, hvalue⟩
    have hsome : (rows.find? fun row => decide (key row = k)).isSome := by
      rw [List.find?_isSome]
      exact ⟨row, hrow, by simpa using hkey⟩
    rcases Option.isSome_iff_exists.mp hsome with ⟨found, hfound⟩
    have hkey' : key found = k := by simpa using List.find?_some hfound
    have heq : found = row :=
      List.inj_on_of_nodup_map h (List.mem_of_find?_eq_some hfound) hrow (hkey'.trans hkey.symm)
    exact ⟨found, hfound, heq ▸ hvalue⟩

/-- Tables with distinct keys hold the same when they have the same rows. -/
theorem contents_eq_of_rows {m : κ → Option β} (h : (rows.map key).Nodup)
    (hm : ∀ k v, m k = some v ↔ ∃ row ∈ rows, key row = k ∧ value row = v) :
    contents key value rows = m := by
  funext k
  apply Option.ext
  intro v
  exact (contents_eq_some_iff h).trans (hm k v).symm

/-- A map after a write. -/
theorem apply_eq_some_iff {m : κ → Option β} {w : Write κ β} {k : κ} {v : β} :
    w.apply m k = some v ↔ (k = w.key ∧ w.value = some v) ∨ (k ≠ w.key ∧ m k = some v) := by
  by_cases hkey : k = w.key
  · rw [hkey, Write.apply, Function.update_self]
    simp
  · rw [Write.apply, Function.update_of_ne hkey]
    simp [hkey]

/-! ## Operations -/

/-- A row with a new key is a write. -/
theorem contents_append {row : α} (h : ((rows ++ [row]).map key).Nodup) :
    contents key value (rows ++ [row]) =
      Write.apply (contents key value rows) ⟨key row, some (value row)⟩ := by
  have hparts : (rows.map key).Nodup ∧ key row ∉ rows.map key := by
    rw [List.map_append, List.map_singleton, List.nodup_append'] at h
    exact ⟨h.1, fun hmem => h.2.2 hmem (List.mem_singleton_self _)⟩
  apply contents_eq_of_rows h
  intro k v
  rw [apply_eq_some_iff, contents_eq_some_iff hparts.1]
  constructor
  · rintro (⟨rfl, hvalue⟩ | ⟨_, found, hfound, hkey, hvalue⟩)
    · exact ⟨row, by simp, rfl, Option.some.inj hvalue⟩
    · exact ⟨found, List.mem_append_left _ hfound, hkey, hvalue⟩
  · rintro ⟨found, hfound, rfl, rfl⟩
    rcases List.mem_append.mp hfound with hold | hnew
    · right
      refine ⟨fun heq => hparts.2 ?_, found, hold, rfl, rfl⟩
      exact List.mem_map.mpr ⟨found, hold, heq⟩
    · left
      rw [List.mem_singleton.mp hnew]
      exact ⟨rfl, rfl⟩

/-- An edit of all rows with one key is a write. -/
theorem contents_edit {k : κ} {v : β} {f : α → α} (h : (rows.map key).Nodup)
    (hkeys : ∀ row ∈ rows, key (f row) = key row) (hk : k ∈ rows.map key)
    (hedited : ∀ row ∈ rows, key row = k → value (f row) = v)
    (hothers : ∀ row ∈ rows, key row ≠ k → value (f row) = value row) :
    contents key value (rows.map f) = Write.apply (contents key value rows) ⟨k, some v⟩ := by
  apply contents_eq_of_rows ((map_key_edit hkeys).symm ▸ h)
  intro k' v'
  rw [apply_eq_some_iff, contents_eq_some_iff h]
  constructor
  · rintro (⟨rfl, hvalue⟩ | ⟨hne, row, hrow, hkey, hvalue⟩)
    · rcases List.mem_map.mp hk with ⟨row, hrow, hkey⟩
      refine ⟨f row, List.mem_map_of_mem hrow, (hkeys row hrow).trans hkey, ?_⟩
      exact (hedited row hrow hkey).trans (Option.some.inj hvalue)
    · refine ⟨f row, List.mem_map_of_mem hrow, (hkeys row hrow).trans hkey, ?_⟩
      exact (hothers row hrow fun heq => hne (hkey.symm.trans heq)).trans hvalue
  · rintro ⟨edited, hedit, hkey, hvalue⟩
    rcases List.mem_map.mp hedit with ⟨row, hrow, rfl⟩
    rw [hkeys row hrow] at hkey
    by_cases heq : k' = k
    · left
      exact ⟨heq, congrArg some ((hedited row hrow (hkey.trans heq)).symm.trans hvalue)⟩
    · right
      refine ⟨heq, row, hrow, hkey, ?_⟩
      exact (hothers row hrow fun hsame => heq (hkey.symm.trans hsame)).symm.trans hvalue

/-- The deletion of all rows with one key is a write. -/
theorem contents_remove {k : κ} (h : (rows.map key).Nodup) :
    contents key value (rows.filter fun row => ¬ key row = k) =
      Write.apply (contents key value rows) ⟨k, none⟩ := by
  have hkept : ((rows.filter fun row => ¬ key row = k).map key).Nodup :=
    h.sublist (List.filter_sublist.map key)
  apply contents_eq_of_rows hkept
  intro k' v'
  rw [apply_eq_some_iff, contents_eq_some_iff h]
  simp only [List.mem_filter, decide_eq_true_eq]
  constructor
  · rintro (⟨_, hvalue⟩ | ⟨hne, row, hrow, hkey, hvalue⟩)
    · cases hvalue
    · exact ⟨row, ⟨hrow, fun heq => hne (hkey.symm.trans heq)⟩, hkey, hvalue⟩
  · rintro ⟨row, ⟨hrow, hne⟩, hkey, hvalue⟩
    right
    exact ⟨fun heq => hne (hkey.trans heq), row, hrow, hkey, hvalue⟩

end KeyedTables
