import EtlTool.Core.Paths
import EtlTool.Core.PythonEquality

/-!
# Identity up to the order of members

Two JSON values are identical if they have the same shape with the same scalars, where the
members of an object are told apart by their keys and may stand in any order, at every
depth.  Unlike for Python's {lit}`==`, numbers have to agree in kind.

Main results:

- Theorem {lit}`sortKeys_eq_iff_identical`: ordering the members makes exactly the
  identical values equal.
- Theorem {lit}`canonical_text_eq_iff`: identical values are those with one text.
-/

namespace EtlTool

mutual

/-- The values are the same up to the order of members. -/
def Value.identical : Value → Value → Bool
  | .none, .none => true
  | .bool a, .bool b => a == b
  | .int y, .int z => y == z
  | .float x, .float y => decide (x = y)
  | .str a, .str b => a == b
  | .list xs, .list ys => identicalItems xs ys
  | .dict fs, .dict gs => fs.length == gs.length && identicalFields fs gs
  | _, _ => false

/-- The items are identical one by one. -/
def Value.identicalItems : List Value → List Value → Bool
  | [], [] => true
  | x :: xs, y :: ys => x.identical y && identicalItems xs ys
  | _, _ => false

/-- Every member has an identical one under its key. -/
def Value.identicalFields : List (String × Value) → List (String × Value) → Bool
  | [], _ => true
  | (key, x) :: rest, gs =>
      (match gs.lookup key with
        | some y => x.identical y
        | .none => false) && identicalFields rest gs

end

/-! ## Ordering members -/

private theorem map_fst_sortKeys (fields : Fields) :
    (fields.map fun field => (field.1, field.2.sortKeys)).map Prod.fst = fields.map Prod.fst := by
  rw [List.map_map]
  rfl

/-- Members in different order are ordered alike. -/
theorem sortedFields_eq_of_perm {fs gs : Fields} (hkeys : (fs.map Prod.fst).Nodup)
    (hperm : (fs.map fun field => (field.1, field.2.sortKeys)).Perm
      (gs.map fun field => (field.1, field.2.sortKeys))) :
    ((Value.sortKeysFields fs).insertionSort fun a b => a.1 ≤ b.1) =
      (Value.sortKeysFields gs).insertionSort fun a b => a.1 ≤ b.1 := by
  have hfs := sortedFields_perm fs
  have hsame := hfs.trans (hperm.trans (sortedFields_perm gs).symm)
  have hnodup := (hfs.map Prod.fst).nodup_iff.mpr ((map_fst_sortKeys fs).symm ▸ hkeys)
  refine List.Perm.eq_of_pairwise ?_ (List.pairwise_insertionSort _ _)
    (List.pairwise_insertionSort _ _) hsame
  intro a b ha hb hab hba
  have hkey : a.1 = b.1 := String.le_antisymm hab hba
  exact List.inj_on_of_nodup_map hnodup ha (hsame.mem_iff.mpr hb) hkey

mutual

/-- Values that are equal when their members are ordered are identical. -/
theorem identical_of_sortKeys_eq : ∀ v w : Value, v.StrictJson → w.StrictJson →
    v.sortKeys = w.sortKeys → v.identical w = true
  | .none, w, _, _, h => by
      cases w <;> simp_all [Value.sortKeys, Value.identical]
  | .bool b, w, _, _, h => by
      cases w <;> simp_all [Value.sortKeys, Value.identical]
  | .int z, w, _, _, h => by
      cases w <;> simp_all [Value.sortKeys, Value.identical]
  | .float x, w, _, _, h => by
      cases w <;> simp_all [Value.sortKeys, Value.identical]
  | .str a, w, _, _, h => by
      cases w <;> simp_all [Value.sortKeys, Value.identical]
  | .list xs, w, hv, hw, h => by
      cases w with
      | list ys =>
          rw [Value.sortKeys, Value.sortKeys, Value.list.injEq] at h
          exact identicalItems_of_sortKeys_eq xs ys hv hw h
      | _ => simp [Value.sortKeys] at h
  | .dict fs, w, hv, hw, h => by
      cases w with
      | dict gs =>
          rw [Value.sortKeys, Value.sortKeys, Value.dict.injEq] at h
          have hperm := (sortedFields_perm fs).symm.trans (h ▸ sortedFields_perm gs)
          have hlength : fs.length = gs.length := by
            simpa using hperm.length_eq
          rw [Value.identical, hlength, beq_self_eq_true, Bool.true_and]
          exact identicalFields_of_sortKeys_eq fs gs hv.2 hw.1 hw.2 fun field hfield =>
            hperm.subset (List.mem_map_of_mem hfield)
      | _ => simp [Value.sortKeys] at h
  | .foreign _ _ _, _, hv, _, _ => hv.elim

private theorem identicalItems_of_sortKeys_eq : ∀ xs ys : List Value, Value.StrictJsonItems xs →
    Value.StrictJsonItems ys → Value.sortKeysItems xs = Value.sortKeysItems ys →
    Value.identicalItems xs ys = true
  | [], [], _, _, _ => rfl
  | [], y :: ys, _, _, h => by simp [Value.sortKeysItems] at h
  | x :: xs, [], _, _, h => by simp [Value.sortKeysItems] at h
  | x :: xs, y :: ys, hxs, hys, h => by
      rw [Value.sortKeysItems, Value.sortKeysItems, List.cons.injEq] at h
      rw [Value.identicalItems, Bool.and_eq_true]
      exact ⟨identical_of_sortKeys_eq x y hxs.1 hys.1 h.1,
        identicalItems_of_sortKeys_eq xs ys hxs.2 hys.2 h.2⟩

private theorem identicalFields_of_sortKeys_eq : ∀ fs gs : List (String × Value),
    Value.StrictJsonFields fs → (gs.map Prod.fst).Nodup → Value.StrictJsonFields gs →
    (∀ field ∈ fs, (field.1, field.2.sortKeys) ∈
      gs.map fun field => (field.1, field.2.sortKeys)) →
    Value.identicalFields fs gs = true
  | [], _, _, _, _, _ => rfl
  | (key, x) :: rest, gs, hfs, hkeys, hgs, h => by
      rcases List.mem_map.mp (h (key, x) List.mem_cons_self) with ⟨⟨key', y⟩, hmem, heq⟩
      rw [Prod.mk.injEq] at heq
      rcases heq with ⟨rfl, hsame⟩
      rw [Value.identicalFields, lookup_eq_some_of_mem hkeys hmem, Bool.and_eq_true]
      exact ⟨identical_of_sortKeys_eq x y hfs.1 ((strictJsonFields_iff gs).mp hgs _ hmem)
          hsame.symm,
        identicalFields_of_sortKeys_eq rest gs hfs.2 hkeys hgs fun field hfield =>
          h field (List.mem_cons_of_mem _ hfield)⟩

end

mutual

/-- Identical values are equal when their members are ordered. -/
theorem sortKeys_eq_of_identical : ∀ v w : Value, v.StrictJson → w.StrictJson →
    v.identical w = true → v.sortKeys = w.sortKeys
  | .none, w, _, _, h => by
      cases w <;> simp_all [Value.identical]
  | .bool b, w, _, _, h => by
      cases w <;> simp_all [Value.identical]
  | .int z, w, _, _, h => by
      cases w <;> simp_all [Value.identical]
  | .float x, w, _, _, h => by
      cases w <;> simp_all [Value.identical]
  | .str a, w, _, _, h => by
      cases w <;> simp_all [Value.identical]
  | .list xs, w, hv, hw, h => by
      cases w with
      | list ys =>
          rw [Value.sortKeys, Value.sortKeys, Value.list.injEq]
          exact sortKeysItems_eq_of_identical xs ys hv hw h
      | _ => simp [Value.identical] at h
  | .dict fs, w, hv, hw, h => by
      cases w with
      | dict gs =>
          rw [Value.identical, Bool.and_eq_true, beq_iff_eq] at h
          have hmem := sortKeysFields_mem_of_identical fs gs hv.2 hw.2 h.2
          have hnodup : (fs.map fun field => (field.1, field.2.sortKeys)).Nodup := by
            refine List.Nodup.of_map Prod.fst ?_
            rw [map_fst_sortKeys]
            exact hv.1
          have hsub : (fs.map fun field => (field.1, field.2.sortKeys)) ⊆
              gs.map fun field => (field.1, field.2.sortKeys) := by
            intro entry hentry
            rcases List.mem_map.mp hentry with ⟨field, hfield, rfl⟩
            exact hmem field hfield
          have hperm := (List.subperm_of_subset hnodup hsub).perm_of_length_le (by simp [h.1])
          rw [Value.sortKeys, Value.sortKeys, sortedFields_eq_of_perm hv.1 hperm]
      | _ => simp [Value.identical] at h
  | .foreign _ _ _, _, hv, _, _ => hv.elim

private theorem sortKeysItems_eq_of_identical : ∀ xs ys : List Value, Value.StrictJsonItems xs →
    Value.StrictJsonItems ys → Value.identicalItems xs ys = true →
    Value.sortKeysItems xs = Value.sortKeysItems ys
  | [], [], _, _, _ => rfl
  | [], y :: ys, _, _, h => by simp [Value.identicalItems] at h
  | x :: xs, [], _, _, h => by simp [Value.identicalItems] at h
  | x :: xs, y :: ys, hxs, hys, h => by
      rw [Value.identicalItems, Bool.and_eq_true] at h
      rw [Value.sortKeysItems, Value.sortKeysItems, sortKeys_eq_of_identical x y hxs.1 hys.1 h.1,
        sortKeysItems_eq_of_identical xs ys hxs.2 hys.2 h.2]

private theorem sortKeysFields_mem_of_identical : ∀ fs gs : List (String × Value),
    Value.StrictJsonFields fs → Value.StrictJsonFields gs →
    Value.identicalFields fs gs = true →
    ∀ field ∈ fs, (field.1, field.2.sortKeys) ∈ gs.map fun field => (field.1, field.2.sortKeys)
  | [], _, _, _, _ => nofun
  | (key, x) :: rest, gs, hfs, hgs, h => by
      rw [Value.identicalFields, Bool.and_eq_true] at h
      refine List.forall_mem_cons.mpr
        ⟨?_, sortKeysFields_mem_of_identical rest gs hfs.2 hgs h.2⟩
      cases hlookup : gs.lookup key with
      | none => simp [hlookup] at h
      | some y =>
          have hmem := mem_of_lookup_eq_some hlookup
          have hsame : x.identical y = true := by
            have hfirst := h.1
            rwa [hlookup] at hfirst
          rw [sortKeys_eq_of_identical x y hfs.1 ((strictJsonFields_iff gs).mp hgs _ hmem) hsame]
          exact List.mem_map_of_mem hmem

end

/-- Ordering the members makes exactly the identical values equal. -/
theorem sortKeys_eq_iff_identical {v w : Value} (hv : v.StrictJson) (hw : w.StrictJson) :
    v.sortKeys = w.sortKeys ↔ v.identical w = true :=
  ⟨identical_of_sortKeys_eq v w hv hw, sortKeys_eq_of_identical v w hv hw⟩

/-- Identical values are those with one text, when members are ordered. -/
theorem canonical_text_eq_iff {rt : Runtime} (hfloat : rt.FloatTexts)
    (onForeign : String → String → String) {v w : Value} (hv : v.StrictJson)
    (hw : w.StrictJson) :
    rt.jsonText onForeign v.sortKeys = rt.jsonText onForeign w.sortKeys ↔
      v.identical w = true := by
  rw [← sortKeys_eq_iff_identical hv hw]
  exact ⟨jsonText_inj onForeign hfloat (sortKeys_strictJson v hv) (sortKeys_strictJson w hw),
    fun h => by rw [h]⟩

end EtlTool
