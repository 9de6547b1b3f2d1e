import EtlTool.Nodes.Merge

/-!
# Join keys

When two JSON records have the same join key.  Scalars take part in a key as they are, but
objects and lists as the strings that {lit}`json.dumps` makes of them, with ordered
members for objects only.  So a string can stand for an object or a list, and equal lists
or objects that are spelled differently do not match.

Main results:

- Theorem {lit}`keyClass_eq_iff`: two values take part in a key alike exactly if they are
  equal and not respelled, or one of them is the text of the other.
- Theorem {lit}`joinKeys_match_iff`: when a key is missing exactly for an absent path, and
  two keys agree exactly on equal values.
- Theorem {lit}`string_matches_array`: a string that matches an array.
-/

namespace EtlTool

/-- A record of JSON values. -/
structure JsonRecord where
  fields : Fields
  strict : (Value.dict fields).StrictJson

/-! ## Values along key paths -/

/-- The value at a key path. -/
def Runtime.valueAt? (rt : Runtime) (record : Fields) (key : String) : Option Value :=
  match rt.walk (.dict record) [] (splitPath key) with
  | .found value => some value
  | _ => none

/-- The values at all key paths, if there are any. -/
def Runtime.valuesAt? (rt : Runtime) (record : Fields) : List String → Option (List Value)
  | [] => some []
  | key :: rest =>
      match rt.valueAt? record key, rt.valuesAt? record rest with
      | some value, some values => some (value :: values)
      | _, _ => none

/-- A key is missing exactly if a key path is absent, it is computed otherwise, and two
keys agree exactly if the values at every key path are equal. -/
structure KeysMatchValues (rt : Runtime) (foreign : ForeignKeys) (keys : List String)
    (left right : Fields) : Prop where
  missing_iff : ∀ record ∈ [left, right], rt.keyOf foreign record keys = .ok none ↔
    ∃ key ∈ keys, rt.valueAt? record key = none
  present : ∀ record ∈ [left, right], (∀ key ∈ keys, rt.valueAt? record key ≠ none) →
    ∃ joinKey, rt.keyOf foreign record keys = .ok (some joinKey)
  equal_iff : ∀ joinKey joinKey', rt.keyOf foreign left keys = .ok (some joinKey) →
    rt.keyOf foreign right keys = .ok (some joinKey') →
      (joinKey = joinKey' ↔ ∀ key ∈ keys, ∀ v w, rt.valueAt? left key = some v →
        rt.valueAt? right key = some w → v.pyEq w = true)

/-! ## When keys can be read -/

/-- Up to the first missing path, no path meets a list with a segment that only looks like
an integer, and every object and list found has a JSON text. -/
def Runtime.KeysReadable (rt : Runtime) (record : Fields) : List String → Prop
  | [] => True
  | key :: rest =>
      match rt.walk (.dict record) [] (splitPath key) with
      | .found value => (value.isContainer = true → rt.Printable value) ∧ rt.KeysReadable record rest
      | .missing _ => True
      | .badIndex _ => False

/-- The JSON text that takes part in a key. -/
def Runtime.keyText (rt : Runtime) (value : Value) : String :=
  String.ofList (rt.jsonText (fun _ repr => repr)
    (match value with
      | .dict _ => value.sortKeys
      | _ => value))

/-- How a value takes part in a key. -/
def Runtime.keyClass (rt : Runtime) (value : Value) : KeyPart :=
  match value with
  | .none => .none
  | .bool b => .number (.finite (if b then 1 else 0))
  | .int z => .number (.finite z)
  | .float x => .number x
  | .str s => .text s
  | .foreign name _ _ => .foreign name
  | value => .text (rt.keyText value)

/-- One string is the text of the other value, an object or a list. -/
def Runtime.Spells (rt : Runtime) (text value : Value) : Prop :=
  value.isContainer = true ∧ text = .str (rt.keyText value)

/-- A string and the object or list that it spells. -/
def Runtime.Collide (rt : Runtime) (v w : Value) : Prop :=
  rt.Spells v w ∨ rt.Spells w v

/-- Equal objects or lists that are spelled differently: a number is written in another
way, or, inside a list, the members of an object are in another order. -/
def Respelled : Value → Value → Prop
  | .dict fs, .dict gs =>
      (Value.dict fs).pyEq (.dict gs) = true ∧
        (Value.dict fs).sortKeys ≠ (Value.dict gs).sortKeys
  | .list xs, .list ys => (Value.list xs).pyEq (.list ys) = true ∧ xs ≠ ys
  | _, _ => False

/-- The values at the key paths do not deceive: either some pair plainly differs, or both
kinds of clash occur, or none does. -/
def Runtime.PairsAgree (rt : Runtime) (pairs : List (Value × Value)) : Prop :=
  (∃ pair ∈ pairs, pair.1.pyEq pair.2 = false ∧ ¬ rt.Collide pair.1 pair.2) ∨
    ((∃ pair ∈ pairs, rt.Collide pair.1 pair.2) ∧ ∃ pair ∈ pairs, Respelled pair.1 pair.2) ∨
    ∀ pair ∈ pairs, ¬ rt.Collide pair.1 pair.2 ∧ ¬ Respelled pair.1 pair.2

/-! ## Values inside JSON values -/

/-- The members of a JSON value are JSON values. -/
theorem hereditary_strictJson : Value.Hereditary Value.StrictJson where
  dict := fun fields h => (strictJsonFields_iff fields).mp h.2
  list := fun items => (strictJsonItems_iff items).mp

/-! ## Computing a key -/

section

variable (rt : Runtime) (foreign : ForeignKeys)

/-- The part that a value with a text becomes. -/
theorem keyValue_ok {value : Value} (hstrict : value.StrictJson)
    (htext : value.isContainer = true → rt.Printable value) :
    ∃ part, rt.keyValue value = .ok part ∧ keyPart foreign part = some (rt.keyClass value) := by
  cases value with
  | dict fields =>
      refine ⟨.str (rt.keyText (.dict fields)), ?_, rfl⟩
      rw [Runtime.keyValue, Runtime.canonical, Runtime.jsonDumps, if_pos (htext rfl)]
      rfl
  | list items =>
      refine ⟨.str (rt.keyText (.list items)), ?_, rfl⟩
      rw [Runtime.keyValue, Runtime.jsonDumps, if_pos (htext rfl)]
      rfl
  | foreign name text repr => exact hstrict.elim
  | _ => exact ⟨_, rfl, rfl⟩

private theorem keyValue_error {value : Value} (hcontainer : value.isContainer = true)
    (htext : ¬ rt.Printable value) : rt.keyValue value = .error intConversionError := by
  cases value with
  | dict fields =>
      rw [Runtime.keyValue, Runtime.canonical, Runtime.jsonDumps, if_neg htext]
      rfl
  | list items =>
      rw [Runtime.keyValue, Runtime.jsonDumps, if_neg htext]
      rfl
  | _ => cases hcontainer

variable {record : Fields} (hstrict : (Value.dict record).StrictJson)

include hstrict

/-- A readable key is made of the classes of the values at the key paths. -/
theorem keyOf_of_readable {keys : List String} (h : rt.KeysReadable record keys) :
    rt.keyOf foreign record keys =
      .ok ((rt.valuesAt? record keys).map (List.map rt.keyClass)) := by
  have hvalues : ∃ result, rt.keyValues record keys = .ok result ∧
      result.bind (List.mapM (keyPart foreign)) =
        (rt.valuesAt? record keys).map (List.map rt.keyClass) := by
    induction keys with
    | nil => exact ⟨some [], rfl, rfl⟩
    | cons key rest ih =>
        unfold Runtime.keyValues Runtime.getPath?
        unfold Runtime.valuesAt? Runtime.valueAt?
        unfold Runtime.KeysReadable at h
        cases hwalk : rt.walk (.dict record) [] (splitPath key) with
        | found value =>
            rw [hwalk] at h
            rcases ih h.2 with ⟨result, hrest, hclasses⟩
            rcases keyValue_ok rt foreign (hereditary_strictJson.walk hstrict hwalk) h.1 with
              ⟨part, hpart, hclass⟩
            simp only [hpart, hrest]
            cases result with
            | none =>
                refine ⟨none, rfl, ?_⟩
                cases hat : rt.valuesAt? record rest with
                | none => rfl
                | some values => simp [hat] at hclasses
            | some parts =>
                refine ⟨some (part :: parts), rfl, ?_⟩
                cases hat : rt.valuesAt? record rest with
                | none => simp_all
                | some values => simp_all
        | missing traversed => exact ⟨none, rfl, rfl⟩
        | badIndex segment =>
            rw [hwalk] at h
            exact h.elim
  rcases hvalues with ⟨result, hresult, hclasses⟩
  rw [Runtime.keyOf, hresult, ← hclasses]
  cases result <;> rfl

omit hstrict in
/-- A key that is not readable raises. -/
theorem keyOf_error {keys : List String} (h : ¬ rt.KeysReadable record keys) :
    ∃ exc, rt.keyOf foreign record keys = .error exc := by
  have hvalues : ∃ exc, rt.keyValues record keys = .error exc := by
    induction keys with
    | nil => exact absurd trivial h
    | cons key rest ih =>
        unfold Runtime.keyValues Runtime.getPath?
        unfold Runtime.KeysReadable at h
        cases hwalk : rt.walk (.dict record) [] (splitPath key) with
        | found value =>
            rw [hwalk] at h
            by_cases hreadable : rt.KeysReadable record rest
            · have hno : ¬ (value.isContainer = true → rt.Printable value) := fun htext =>
                h ⟨htext, hreadable⟩
              rw [Classical.not_imp] at hno
              exact ⟨intConversionError, by simp [keyValue_error rt hno.1 hno.2]⟩
            · rcases ih hreadable with ⟨exc, hexc⟩
              cases hpart : rt.keyValue value with
              | error exc' => exact ⟨exc', by simp [hpart]⟩
              | ok part => exact ⟨exc, by simp [hpart, hexc]⟩
        | missing traversed =>
            rw [hwalk] at h
            exact absurd trivial h
        | badIndex segment => exact ⟨_, rfl⟩
  rcases hvalues with ⟨exc, hexc⟩
  exact ⟨exc, by rw [Runtime.keyOf, hexc]⟩

end

/-- There are values at all key paths unless one is absent. -/
theorem valuesAt?_eq_none_iff (rt : Runtime) (record : Fields) (keys : List String) :
    rt.valuesAt? record keys = none ↔ ∃ key ∈ keys, rt.valueAt? record key = none := by
  induction keys with
  | nil => simp [Runtime.valuesAt?]
  | cons key rest ih =>
      simp only [Runtime.valuesAt?, List.exists_mem_cons_iff, ← ih]
      cases rt.valueAt? record key <;> cases rt.valuesAt? record rest <;> simp

/-- The values at the key paths, one for each. -/
theorem valuesAt?_zip {rt : Runtime} {left right : Fields} {keys : List String}
    {vs ws : List Value} (hvs : rt.valuesAt? left keys = some vs)
    (hws : rt.valuesAt? right keys = some ws) (P : Value → Value → Prop) :
    (∀ key ∈ keys, ∀ v w, rt.valueAt? left key = some v → rt.valueAt? right key = some w →
      P v w) ↔ ∀ pair ∈ vs.zip ws, P pair.1 pair.2 := by
  induction keys generalizing vs ws with
  | nil =>
      cases hvs
      cases hws
      simp
  | cons key rest ih =>
      cases hv : rt.valueAt? left key with
      | none => simp [Runtime.valuesAt?, hv] at hvs
      | some v =>
          cases hvs' : rt.valuesAt? left rest with
          | none => simp [Runtime.valuesAt?, hv, hvs'] at hvs
          | some vs' =>
              cases hw : rt.valueAt? right key with
              | none => simp [Runtime.valuesAt?, hw] at hws
              | some w =>
                  cases hws' : rt.valuesAt? right rest with
                  | none => simp [Runtime.valuesAt?, hw, hws'] at hws
                  | some ws' =>
                      simp only [Runtime.valuesAt?, hv, hvs', hw, hws', Option.some.injEq]
                        at hvs hws
                      subst hvs hws
                      rw [List.zip_cons_cons, List.forall_mem_cons, List.forall_mem_cons,
                        ih hvs' hws']
                      simp [hv, hw]

/-! ## When two values take part alike -/

section

variable {rt : Runtime} (hfloat : rt.FloatTexts)

private theorem keyText_inj {v w : Value} : rt.keyText v = rt.keyText w ↔
    rt.jsonText (fun _ repr => repr) (match v with | .dict _ => v.sortKeys | _ => v) =
      rt.jsonText (fun _ repr => repr) (match w with | .dict _ => w.sortKeys | _ => w) :=
  String.ofList_inj

private theorem keyClass_of_container {v : Value} (h : v.isContainer = true) :
    rt.keyClass v = .text (rt.keyText v) := by
  cases v <;> first | rfl | cases h

/-- Values that are no objects and no lists take part as they are. -/
theorem keyClass_eq_iff_of_scalars {v w : Value} (hv : v.StrictJson) (hw : w.StrictJson)
    (hscalar : v.isContainer = false) (hscalar' : w.isContainer = false) :
    rt.keyClass v = rt.keyClass w ↔ v.pyEq w = true := by
  cases v <;> cases w <;>
    simp_all [Runtime.keyClass, Value.pyEq, Value.number?, Value.isContainer, Value.StrictJson]

/-- A string takes part like an object or a list that it spells. -/
theorem keyClass_eq_text_iff {v w : Value} (hv : v.StrictJson) (hscalar : v.isContainer = false)
    (hcontainer : w.isContainer = true) :
    rt.keyClass v = rt.keyClass w ↔ v = .str (rt.keyText w) := by
  rw [keyClass_of_container hcontainer]
  cases v <;> simp_all [Runtime.keyClass, Value.isContainer, Value.StrictJson]

private theorem pyEq_of_scalar_container {v w : Value} (hscalar : v.isContainer = false)
    (hcontainer : w.isContainer = true) : v.pyEq w = false ∧ w.pyEq v = false := by
  cases v <;> cases w <;>
    simp_all [Value.isContainer, Value.pyEq, Value.number?]

private theorem not_respelled_of_scalar {v w : Value} (h : v.isContainer = false) :
    ¬ Respelled v w ∧ ¬ Respelled w v := by
  cases v <;> cases w <;> simp_all [Value.isContainer, Respelled]

private theorem collide_iff_of_containers {v w : Value} (hv : v.isContainer = true)
    (hw : w.isContainer = true) : ¬ rt.Collide v w := by
  intro heither
  rcases heither with ⟨_, rfl⟩ | ⟨_, rfl⟩
  · cases hv
  · cases hw

include hfloat

/-- Two objects, or two lists, take part alike exactly if they are spelled alike. -/
theorem keyClass_eq_iff_of_containers {v w : Value} (hv : v.StrictJson) (hw : w.StrictJson)
    (hcontainer : v.isContainer = true) (hcontainer' : w.isContainer = true) :
    rt.keyClass v = rt.keyClass w ↔ v.pyEq w = true ∧ ¬ Respelled v w := by
  cases v with
  | dict fs =>
      cases w with
      | dict gs =>
          have hsorted : rt.keyClass (.dict fs) = rt.keyClass (.dict gs) ↔
              (Value.dict fs).sortKeys = (Value.dict gs).sortKeys := by
            rw [keyClass_of_container rfl, keyClass_of_container rfl, KeyPart.text.injEq,
              keyText_inj]
            refine ⟨fun h => ?_, fun h => by rw [h]⟩
            exact jsonText_inj _ hfloat (sortKeys_strictJson _ hv) (sortKeys_strictJson _ hw) h
          rw [hsorted]
          constructor
          · intro h
            exact ⟨pyEq_of_sortKeys_eq _ _ hv hw h, fun hrespelled => hrespelled.2 h⟩
          · intro hboth
            rcases hboth with ⟨hequal, hspelled⟩
            by_contra hne
            exact hspelled ⟨hequal, hne⟩
      | list ys =>
          refine iff_of_false (fun h => ?_) (by simp [Value.pyEq, Value.number?])
          rw [keyClass_of_container rfl, keyClass_of_container rfl, KeyPart.text.injEq,
              keyText_inj] at h
          cases (List.cons.inj h).1
      | _ => cases hcontainer'
  | list xs =>
      cases w with
      | dict gs =>
          refine iff_of_false (fun h => ?_) (by simp [Value.pyEq, Value.number?])
          rw [keyClass_of_container rfl, keyClass_of_container rfl, KeyPart.text.injEq,
              keyText_inj] at h
          cases (List.cons.inj h).1
      | list ys =>
          have hsame : rt.keyClass (.list xs) = rt.keyClass (.list ys) ↔ xs = ys := by
            rw [keyClass_of_container rfl, keyClass_of_container rfl, KeyPart.text.injEq,
              keyText_inj]
            refine ⟨fun h => ?_, fun h => by rw [h]⟩
            exact Value.list.inj (jsonText_inj _ hfloat hv hw h)
          rw [hsame]
          constructor
          · rintro rfl
            exact ⟨pyEq_of_sortKeys_eq _ _ hv hw rfl, fun hrespelled => hrespelled.2 rfl⟩
          · intro hboth
            rcases hboth with ⟨hequal, hspelled⟩
            by_contra hne
            exact hspelled ⟨hequal, hne⟩
      | _ => cases hcontainer'
  | _ => cases hcontainer

/-- Two JSON values take part in a key alike exactly if they are equal and not respelled,
or one of them is a string that spells the other. -/
theorem keyClass_eq_iff {v w : Value} (hv : v.StrictJson) (hw : w.StrictJson) :
    rt.keyClass v = rt.keyClass w ↔
      (v.pyEq w = true ∧ ¬ Respelled v w) ∨ rt.Collide v w := by
  by_cases hcontainer : v.isContainer = true
  · by_cases hcontainer' : w.isContainer = true
    · rw [keyClass_eq_iff_of_containers hfloat hv hw hcontainer hcontainer']
      simp [collide_iff_of_containers hcontainer hcontainer']
    · have hscalar := Bool.eq_false_iff.mpr hcontainer'
      rw [eq_comm, keyClass_eq_text_iff hw hscalar hcontainer]
      simp [(pyEq_of_scalar_container hscalar hcontainer).2, Runtime.Collide, Runtime.Spells,
        hscalar, hcontainer]
  · have hscalar := Bool.eq_false_iff.mpr hcontainer
    by_cases hcontainer' : w.isContainer = true
    · rw [keyClass_eq_text_iff hv hscalar hcontainer']
      simp [(pyEq_of_scalar_container hscalar hcontainer').1, Runtime.Collide, Runtime.Spells,
        hscalar, hcontainer']
    · have hscalar' := Bool.eq_false_iff.mpr hcontainer'
      rw [keyClass_eq_iff_of_scalars hv hw hscalar hscalar']
      simp [(not_respelled_of_scalar hscalar).1, Runtime.Collide, Runtime.Spells, hscalar, hscalar']

omit hfloat in
/-- A string is not equal to what it spells. -/
theorem pyEq_of_collide {v w : Value} (h : rt.Collide v w) : v.pyEq w = false := by
  rcases h with ⟨hcontainer, rfl⟩ | ⟨hcontainer, rfl⟩
  · exact (pyEq_of_scalar_container rfl hcontainer).1
  · exact (pyEq_of_scalar_container rfl hcontainer).2

end

/-- Respelled values are equal. -/
theorem pyEq_of_respelled {v w : Value} (h : Respelled v w) : v.pyEq w = true := by
  cases v <;> cases w <;> first | exact h.1 | exact h.elim

/-! ## When keys match -/

section

variable {rt : Runtime} (hfloat : rt.FloatTexts)

private theorem valuesAt?_strictJson {record : Fields} (hstrict : (Value.dict record).StrictJson)
    {keys : List String} {values : List Value} (h : rt.valuesAt? record keys = some values) :
    ∀ value ∈ values, value.StrictJson := by
  induction keys generalizing values with
  | nil =>
      cases h
      simp
  | cons key rest ih =>
      unfold Runtime.valuesAt? Runtime.valueAt? at h
      cases hwalk : rt.walk (.dict record) [] (splitPath key) with
      | found value =>
          cases hrest : rt.valuesAt? record rest with
          | none => simp [hwalk, hrest] at h
          | some others =>
              simp only [hwalk, hrest, Option.some.injEq] at h
              subst h
              exact List.forall_mem_cons.mpr ⟨hereditary_strictJson.walk hstrict hwalk, ih hrest⟩
      | missing traversed => simp [hwalk] at h
      | badIndex segment => simp [hwalk] at h

private theorem valuesAt?_length {record : Fields} {keys : List String} {values : List Value}
    (h : rt.valuesAt? record keys = some values) : values.length = keys.length := by
  induction keys generalizing values with
  | nil =>
      cases h
      rfl
  | cons key rest ih =>
      unfold Runtime.valuesAt? at h
      split at h
      · rename_i hrest
        cases h
        rw [List.length_cons, List.length_cons, ih hrest]
      · cases h

/-- Two keys of one length are equal exactly if they agree at every place. -/
theorem keyClasses_eq_iff {vs ws : List Value} (hlength : vs.length = ws.length) :
    vs.map rt.keyClass = ws.map rt.keyClass ↔
      ∀ pair ∈ vs.zip ws, rt.keyClass pair.1 = rt.keyClass pair.2 := by
  induction vs generalizing ws with
  | nil =>
      cases ws with
      | nil => simp
      | cons w rest => cases hlength
  | cons v vs ih =>
      cases ws with
      | nil => cases hlength
      | cons w ws =>
          rw [List.map_cons, List.map_cons, List.cons.injEq, List.zip_cons_cons,
            List.forall_mem_cons, ih (Nat.succ.inj hlength)]

include hfloat

/-- Values take part alike exactly where they are equal if and only if they do not
deceive. -/
theorem pairsAgree_iff {pairs : List (Value × Value)}
    (hstrict : ∀ pair ∈ pairs, pair.1.StrictJson ∧ pair.2.StrictJson) :
    ((∀ pair ∈ pairs, rt.keyClass pair.1 = rt.keyClass pair.2) ↔
        ∀ pair ∈ pairs, pair.1.pyEq pair.2 = true) ↔ rt.PairsAgree pairs := by
  have hclass : ∀ pair ∈ pairs, (rt.keyClass pair.1 = rt.keyClass pair.2 ↔
      (pair.1.pyEq pair.2 = true ∧ ¬ Respelled pair.1 pair.2) ∨ rt.Collide pair.1 pair.2) :=
    fun pair hpair => keyClass_eq_iff hfloat (hstrict pair hpair).1 (hstrict pair hpair).2
  constructor
  · intro hiff
    by_contra hdeceive
    simp only [Runtime.PairsAgree, not_or, not_exists, not_and, not_not] at hdeceive
    rcases hdeceive with ⟨hplain, hboth, hclash⟩
    by_cases hcollide : ∃ pair ∈ pairs, rt.Collide pair.1 pair.2
    · -- a string spells the other value and nothing is respelled, so the keys agree
      have hagree : ∀ pair ∈ pairs, rt.keyClass pair.1 = rt.keyClass pair.2 := by
        intro pair hpair
        refine (hclass pair hpair).mpr ?_
        cases hequal : pair.1.pyEq pair.2 with
        | true => exact .inl ⟨rfl, hboth hcollide pair hpair⟩
        | false => exact .inr (hplain pair hpair hequal)
      rcases hcollide with ⟨pair, hpair, hspells⟩
      have hequal := hiff.mp hagree pair hpair
      rw [pyEq_of_collide hspells] at hequal
      cases hequal
    · -- every pair is equal, yet a respelled one keeps the keys apart
      have hnone : ∀ pair ∈ pairs, ¬ rt.Collide pair.1 pair.2 := fun pair hpair hspells =>
        hcollide ⟨pair, hpair, hspells⟩
      have hequal : ∀ pair ∈ pairs, pair.1.pyEq pair.2 = true := by
        intro pair hpair
        by_contra hne
        exact hnone pair hpair (hplain pair hpair (Bool.eq_false_iff.mpr hne))
      refine hclash fun pair hpair => ⟨hnone pair hpair, fun hrespelled => ?_⟩
      rcases (hclass pair hpair).mp (hiff.mpr hequal pair hpair) with hsame | hspells
      · exact hsame.2 hrespelled
      · exact hnone pair hpair hspells
  · rintro (⟨pair, hpair, hdiffer, hno⟩ | ⟨⟨pair, hpair, hspells⟩, pair', hpair', hrespelled⟩ |
      hnone)
    · refine iff_of_false (fun h => ?_) (fun h => ?_)
      · rcases (hclass pair hpair).mp (h pair hpair) with hsame | hspells
        · rw [hsame.1] at hdiffer
          cases hdiffer
        · exact hno hspells
      · rw [h pair hpair] at hdiffer
        cases hdiffer
    · have hequal := pyEq_of_respelled hrespelled
      refine iff_of_false (fun h => ?_) (fun h => ?_)
      · rcases (hclass pair' hpair').mp (h pair' hpair') with hsame | hspells'
        · exact hsame.2 hrespelled
        · rw [pyEq_of_collide hspells'] at hequal
          cases hequal
      · have hdiffer := h pair hpair
        rw [pyEq_of_collide hspells] at hdiffer
        cases hdiffer
    · refine forall₂_congr fun pair hpair => ?_
      rw [hclass pair hpair]
      simp [hnone pair hpair]

/-- Join keys match the values exactly if they can be computed and the values at the key
paths do not deceive. -/
theorem joinKeys_match_iff (foreign : ForeignKeys) (keys : List String)
    (left right : JsonRecord) :
    KeysMatchValues rt foreign keys left.fields right.fields ↔
      rt.KeysReadable left.fields keys ∧ rt.KeysReadable right.fields keys ∧
        ∀ vs ws, rt.valuesAt? left.fields keys = some vs →
          rt.valuesAt? right.fields keys = some ws → rt.PairsAgree (vs.zip ws) := by
  have hreadable : KeysMatchValues rt foreign keys left.fields right.fields →
      ∀ record ∈ [left.fields, right.fields], rt.KeysReadable record keys := by
    intro h record hrecord
    by_contra hno
    rcases keyOf_error rt foreign hno with ⟨exc, hexc⟩
    by_cases habsent : ∃ key ∈ keys, rt.valueAt? record key = none
    · rw [(h.missing_iff record hrecord).mpr habsent] at hexc
      cases hexc
    · rcases h.present record hrecord (fun key hkey hnone => habsent ⟨key, hkey, hnone⟩) with
        ⟨joinKey, hjoinKey⟩
      rw [hjoinKey] at hexc
      cases hexc
  have hpairs : rt.KeysReadable left.fields keys → rt.KeysReadable right.fields keys →
      ∀ vs ws, rt.valuesAt? left.fields keys = some vs →
        rt.valuesAt? right.fields keys = some ws →
          ((vs.map rt.keyClass = ws.map rt.keyClass ↔ ∀ key ∈ keys, ∀ v w,
            rt.valueAt? left.fields key = some v → rt.valueAt? right.fields key = some w →
              v.pyEq w = true) ↔ rt.PairsAgree (vs.zip ws)) := by
    intro hleft hright vs ws hvs hws
    have hlength : vs.length = ws.length := by
      rw [valuesAt?_length hvs, valuesAt?_length hws]
    rw [valuesAt?_zip hvs hws (fun v w => v.pyEq w = true), keyClasses_eq_iff hlength]
    refine pairsAgree_iff hfloat fun pair hpair => ?_
    have hmem := List.of_mem_zip hpair
    exact ⟨valuesAt?_strictJson left.strict hvs _ hmem.1,
      valuesAt?_strictJson right.strict hws _ hmem.2⟩
  constructor
  · intro h
    have hleft := hreadable h left.fields (by simp)
    have hright := hreadable h right.fields (by simp)
    refine ⟨hleft, hright, fun vs ws hvs hws => (hpairs hleft hright vs ws hvs hws).mp ?_⟩
    refine h.equal_iff _ _ ?_ ?_
    · rw [keyOf_of_readable rt foreign left.strict hleft, hvs, Option.map_some]
    · rw [keyOf_of_readable rt foreign right.strict hright, hws, Option.map_some]
  · intro hboth
    rcases hboth with ⟨hleft, hright, hagree⟩
    have hkey : ∀ record ∈ [left.fields, right.fields], rt.keyOf foreign record keys =
        .ok ((rt.valuesAt? record keys).map (List.map rt.keyClass)) := by
      rw [List.forall_mem_cons, List.forall_mem_singleton]
      exact ⟨keyOf_of_readable rt foreign left.strict hleft,
        keyOf_of_readable rt foreign right.strict hright⟩
    refine ⟨fun record hrecord => ?_, fun record hrecord hpresent => ?_, ?_⟩
    · rw [hkey record hrecord, ← valuesAt?_eq_none_iff]
      simp
    · cases hvalues : rt.valuesAt? record keys with
      | none =>
          rcases (valuesAt?_eq_none_iff rt record keys).mp hvalues with ⟨key, hmem, hnone⟩
          exact absurd hnone (hpresent key hmem)
      | some values => exact ⟨_, by rw [hkey record hrecord, hvalues, Option.map_some]⟩
    · intro joinKey joinKey' hjoin hjoin'
      rw [hkey _ (by simp), Except.ok.injEq, Option.map_eq_some_iff] at hjoin hjoin'
      rcases hjoin with ⟨vs, hvs, rfl⟩
      rcases hjoin' with ⟨ws, hws, rfl⟩
      exact (hpairs hleft hright vs ws hvs hws).mpr (hagree vs ws hvs hws)

end

namespace JoinKeySamples

/-- An order with a list of tags. -/
def tagged : JsonRecord where
  fields := [("id", .int 1), ("tags", .list [.str "a"])]
  strict := by simp [Value.StrictJson, Value.StrictJsonFields, Value.StrictJsonItems]

/-- The same values, the number as a float. -/
def taggedAgain : JsonRecord where
  fields := [("tags", .list [.str "a"]), ("id", .float (.finite 1))]
  strict := by simp [Value.StrictJson, Value.StrictJsonFields, Value.StrictJsonItems]

end JoinKeySamples

open JoinKeySamples

theorem joinKeys_match_iff_tagged : KeysMatchValues decimalRuntime (fun _ _ _ => none)
    ["id", "tags"] tagged.fields taggedAgain.fields := by
  refine (joinKeys_match_iff decimalRuntime_floatTexts _ _ tagged taggedAgain).mpr
    ⟨?_, ?_, fun vs ws hvs hws => .inr (.inr ?_)⟩
  · have hid : decimalRuntime.walk (.dict tagged.fields) [] (splitPath "id") = .found (.int 1) := by
      decide +kernel
    have htags : decimalRuntime.walk (.dict tagged.fields) [] (splitPath "tags") =
        .found (.list [.str "a"]) := by
      decide +kernel
    simp only [Runtime.KeysReadable, hid, htags]
    exact ⟨(fun h => nomatch h), fun _ => by decide +kernel, trivial⟩
  · have hid : decimalRuntime.walk (.dict taggedAgain.fields) [] (splitPath "id") =
        .found (.float (.finite 1)) := by
      decide +kernel
    have htags : decimalRuntime.walk (.dict taggedAgain.fields) [] (splitPath "tags") =
        .found (.list [.str "a"]) := by
      decide +kernel
    simp only [Runtime.KeysReadable, hid, htags]
    exact ⟨(fun h => nomatch h), fun _ => by decide +kernel, trivial⟩
  · have hleft : decimalRuntime.valuesAt? tagged.fields ["id", "tags"] =
        some [.int 1, .list [.str "a"]] := by
      decide +kernel
    have hright : decimalRuntime.valuesAt? taggedAgain.fields ["id", "tags"] =
        some [.float (.finite 1), .list [.str "a"]] := by
      decide +kernel
    cases hleft.symm.trans hvs
    cases hright.symm.trans hws
    simp [Runtime.Collide, Runtime.Spells, Respelled, Value.isContainer]

/-- The string {lit}`[1]` has the key of the list, and two equal lists of objects have
different keys. -/
theorem string_matches_array :
    (decimalRuntime.keyOf (fun _ _ _ => none) [("k", .str "[1]")] ["k"] =
        decimalRuntime.keyOf (fun _ _ _ => none) [("k", .list [.int 1])] ["k"] ∧
      ¬ KeysMatchValues decimalRuntime (fun _ _ _ => none) ["k"] [("k", .str "[1]")]
        [("k", .list [.int 1])]) ∧
    (decimalRuntime.keyOf (fun _ _ _ => none)
          [("k", .list [.dict [("a", .int 1), ("b", .int 2)]])] ["k"] ≠
        decimalRuntime.keyOf (fun _ _ _ => none)
          [("k", .list [.dict [("b", .int 2), ("a", .int 1)]])] ["k"] ∧
      ¬ KeysMatchValues decimalRuntime (fun _ _ _ => none) ["k"]
        [("k", .list [.dict [("a", .int 1), ("b", .int 2)]])]
        [("k", .list [.dict [("b", .int 2), ("a", .int 1)]])]) := by
  have htext : decimalRuntime.keyOf (fun _ _ _ => none) [("k", .str "[1]")] ["k"] =
      .ok (some [.text "[1]"]) := by
    decide +kernel
  have hlist : decimalRuntime.keyOf (fun _ _ _ => none) [("k", .list [.int 1])] ["k"] =
      .ok (some [.text "[1]"]) := by
    decide +kernel
  have hab : decimalRuntime.keyOf (fun _ _ _ => none)
      [("k", .list [.dict [("a", .int 1), ("b", .int 2)]])] ["k"] =
        .ok (some [.text "[\x7b\"a\": 1, \"b\": 2\x7d]"]) := by
    decide +kernel
  have hba : decimalRuntime.keyOf (fun _ _ _ => none)
      [("k", .list [.dict [("b", .int 2), ("a", .int 1)]])] ["k"] =
        .ok (some [.text "[\x7b\"b\": 2, \"a\": 1\x7d]"]) := by
    decide +kernel
  refine ⟨⟨htext.trans hlist.symm, fun h => ?_⟩, ?_, fun h => ?_⟩
  · have hequal := (h.equal_iff _ _ htext hlist).mp rfl "k" (by simp) (.str "[1]")
      (.list [.int 1]) (by decide +kernel) (by decide +kernel)
    revert hequal
    decide
  · rw [hab, hba]
    decide
  · have hsame := (h.equal_iff _ _ hab hba).mpr fun key hkey v w hv hw => ?_
    · revert hsame
      decide
    · cases List.mem_singleton.mp hkey
      have hv' : decimalRuntime.valueAt? [("k", .list [.dict [("a", .int 1), ("b", .int 2)]])] "k" =
          some (.list [.dict [("a", .int 1), ("b", .int 2)]]) := by
        decide +kernel
      have hw' : decimalRuntime.valueAt? [("k", .list [.dict [("b", .int 2), ("a", .int 1)]])] "k" =
          some (.list [.dict [("b", .int 2), ("a", .int 1)]]) := by
        decide +kernel
      cases hv'.symm.trans hv
      cases hw'.symm.trans hw
      decide

end EtlTool
