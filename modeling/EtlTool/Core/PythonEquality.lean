import EtlTool.Core.JsonText

/-!
# Equality of Python values

Python's {lit}`==` on the values of the model: numbers are compared by what they are worth
whatever their type, lists item by item, and dicts member by member in any order.  Equal
values need not be spelled alike: {lit}`1`, {lit}`1.0` and {lit}`True` are equal, and so
are objects whose members stand in different orders.

Main results:

- Theorem {lit}`pyEq_of_sortKeys_eq`: values that agree up to the order of members are equal.
- Theorem {lit}`sortKeys_strictJson`: ordering the members keeps a JSON value one.
-/

namespace EtlTool

/-- What a number is worth. -/
def Value.number? : Value → Option PyFloat
  | .bool b => some (.finite (if b then 1 else 0))
  | .int z => some (.finite z)
  | .float x => some x
  | _ => .none

mutual

/-- {lit}`v == w`. -/
def Value.pyEq : Value → Value → Bool
  | .none, .none => true
  | .str a, .str b => a == b
  | .list xs, .list ys => pyEqItems xs ys
  | .dict fs, .dict gs => fs.length == gs.length && pyEqFields fs gs
  | .foreign a b c, .foreign a' b' c' => a == a' && b == b' && c == c'
  | v, w =>
      match v.number?, w.number? with
      | some x, some y => decide (x = y) && decide (x ≠ .nan)
      | _, _ => false

/-- The items are equal one by one. -/
def Value.pyEqItems : List Value → List Value → Bool
  | [], [] => true
  | x :: xs, y :: ys => x.pyEq y && pyEqItems xs ys
  | _, _ => false

/-- Every member has an equal one under its key. -/
def Value.pyEqFields : List (String × Value) → List (String × Value) → Bool
  | [], _ => true
  | (key, x) :: rest, gs =>
      (match gs.lookup key with
        | some y => x.pyEq y
        | .none => false) && pyEqFields rest gs

end

/-! ## Members in any order -/

theorem strictJsonItems_iff (items : List Value) :
    Value.StrictJsonItems items ↔ ∀ item ∈ items, item.StrictJson := by
  induction items with
  | nil => simp [Value.StrictJsonItems]
  | cons item rest ih => simp [Value.StrictJsonItems, ih]

theorem strictJsonFields_iff (fields : Fields) :
    Value.StrictJsonFields fields ↔ ∀ field ∈ fields, field.2.StrictJson := by
  induction fields with
  | nil => simp [Value.StrictJsonFields]
  | cons field rest ih => simp [Value.StrictJsonFields, ih]

private theorem sortKeysFields_eq_map (fields : Fields) :
    Value.sortKeysFields fields = fields.map fun field => (field.1, field.2.sortKeys) := by
  induction fields with
  | nil => rfl
  | cons field rest ih => simp [Value.sortKeysFields, ih]

/-- The members of an object, each ordered, in some order. -/
theorem sortedFields_perm (fields : Fields) :
    ((Value.sortKeysFields fields).insertionSort fun a b => a.1 ≤ b.1).Perm
      (fields.map fun field => (field.1, field.2.sortKeys)) := by
  rw [← sortKeysFields_eq_map]
  exact List.perm_insertionSort _ _

theorem lookup_eq_some_of_mem {fields : Fields} (hnodup : (fields.map Prod.fst).Nodup)
    {key : String} {value : Value} (h : (key, value) ∈ fields) :
    fields.lookup key = some value := by
  induction fields with
  | nil => exact absurd h List.not_mem_nil
  | cons field rest ih =>
      rw [List.map_cons, List.nodup_cons] at hnodup
      rcases List.mem_cons.mp h with rfl | h
      · simp
      · have hne : key ≠ field.1 := by
          rintro rfl
          exact hnodup.1 (List.mem_map.mpr ⟨_, h, rfl⟩)
        rw [List.lookup_cons, beq_eq_false_iff_ne.mpr hne]
        exact ih hnodup.2 h

mutual

/-- Values that agree up to the order of members are equal. -/
theorem pyEq_of_sortKeys_eq : ∀ v w : Value, v.StrictJson → w.StrictJson →
    v.sortKeys = w.sortKeys → v.pyEq w = true
  | .none, w, _, _, h => by
      cases w <;> simp_all [Value.sortKeys, Value.pyEq]
  | .bool b, w, _, _, h => by
      cases w <;> simp_all [Value.sortKeys, Value.pyEq, Value.number?]
  | .int z, w, _, _, h => by
      cases w <;> simp_all [Value.sortKeys, Value.pyEq, Value.number?]
  | .float x, w, hv, _, h => by
      cases w with
      | float y =>
          cases h
          simpa [Value.pyEq, Value.number?, Value.StrictJson] using hv
      | _ => simp [Value.sortKeys] at h
  | .str a, w, _, _, h => by
      cases w <;> simp_all [Value.sortKeys, Value.pyEq]
  | .list xs, w, hv, hw, h => by
      cases w with
      | list ys =>
          rw [Value.sortKeys, Value.sortKeys, Value.list.injEq] at h
          exact pyEqItems_of_sortKeys_eq xs ys hv hw h
      | _ => simp [Value.sortKeys] at h
  | .dict fs, w, hv, hw, h => by
      cases w with
      | dict gs =>
          rw [Value.sortKeys, Value.sortKeys, Value.dict.injEq] at h
          have hperm : (fs.map fun field => (field.1, field.2.sortKeys)).Perm
              (gs.map fun field => (field.1, field.2.sortKeys)) := by
            have hsorted := sortedFields_perm fs
            rw [h] at hsorted
            exact hsorted.symm.trans (sortedFields_perm gs)
          have hlength : fs.length = gs.length := by
            simpa using hperm.length_eq
          rw [Value.pyEq, hlength, beq_self_eq_true, Bool.true_and]
          exact pyEqFields_of_sortKeys_eq fs gs hv.2 hw.1 hw.2 fun field hfield =>
            hperm.subset (List.mem_map_of_mem hfield)
      | _ => simp [Value.sortKeys] at h
  | .foreign _ _ _, _, hv, _, _ => hv.elim

private theorem pyEqItems_of_sortKeys_eq : ∀ xs ys : List Value, Value.StrictJsonItems xs →
    Value.StrictJsonItems ys → Value.sortKeysItems xs = Value.sortKeysItems ys →
    Value.pyEqItems xs ys = true
  | [], [], _, _, _ => rfl
  | [], y :: ys, _, _, h => by simp [Value.sortKeysItems] at h
  | x :: xs, [], _, _, h => by simp [Value.sortKeysItems] at h
  | x :: xs, y :: ys, hxs, hys, h => by
      rw [Value.sortKeysItems, Value.sortKeysItems, List.cons.injEq] at h
      rw [Value.pyEqItems, Bool.and_eq_true]
      exact ⟨pyEq_of_sortKeys_eq x y hxs.1 hys.1 h.1,
        pyEqItems_of_sortKeys_eq xs ys hxs.2 hys.2 h.2⟩

private theorem pyEqFields_of_sortKeys_eq : ∀ fs gs : List (String × Value),
    Value.StrictJsonFields fs → (gs.map Prod.fst).Nodup → Value.StrictJsonFields gs →
    (∀ field ∈ fs, (field.1, field.2.sortKeys) ∈
      gs.map fun field => (field.1, field.2.sortKeys)) →
    Value.pyEqFields fs gs = true
  | [], _, _, _, _, _ => rfl
  | (key, x) :: rest, gs, hfs, hkeys, hgs, h => by
      rcases List.mem_map.mp (h (key, x) List.mem_cons_self) with ⟨⟨key', y⟩, hmem, heq⟩
      rw [Prod.mk.injEq] at heq
      rcases heq with ⟨rfl, hsame⟩
      rw [Value.pyEqFields, lookup_eq_some_of_mem hkeys hmem, Bool.and_eq_true]
      exact ⟨pyEq_of_sortKeys_eq x y hfs.1 ((strictJsonFields_iff gs).mp hgs _ hmem) hsame.symm,
        pyEqFields_of_sortKeys_eq rest gs hfs.2 hkeys hgs fun field hfield =>
          h field (List.mem_cons_of_mem _ hfield)⟩

end

mutual

/-- Ordering the members keeps a JSON value one. -/
theorem sortKeys_strictJson : ∀ v : Value, v.StrictJson → v.sortKeys.StrictJson
  | .none, _ => trivial
  | .bool _, _ => trivial
  | .int _, _ => trivial
  | .float _, h => h
  | .str _, _ => trivial
  | .foreign _ _ _, h => h.elim
  | .list items, h => sortKeysItems_strictJson items h
  | .dict fields, h => by
      have hperm := sortedFields_perm fields
      have hkeys := hperm.map Prod.fst
      rw [List.map_map] at hkeys
      refine ⟨hkeys.nodup_iff.mpr h.1, (strictJsonFields_iff _).mpr fun field hfield => ?_⟩
      have hall := sortKeysFields_strictJson fields h.2
      rw [← sortKeysFields_eq_map] at hperm
      exact (strictJsonFields_iff _).mp hall field (hperm.mem_iff.mp hfield)

private theorem sortKeysItems_strictJson : ∀ items : List Value, Value.StrictJsonItems items →
    Value.StrictJsonItems (Value.sortKeysItems items)
  | [], _ => trivial
  | value :: rest, h => ⟨sortKeys_strictJson value h.1, sortKeysItems_strictJson rest h.2⟩

private theorem sortKeysFields_strictJson : ∀ fields : List (String × Value),
    Value.StrictJsonFields fields → Value.StrictJsonFields (Value.sortKeysFields fields)
  | [], _ => trivial
  | (_, value) :: rest, h => ⟨sortKeys_strictJson value h.1, sortKeysFields_strictJson rest h.2⟩

end

end EtlTool
