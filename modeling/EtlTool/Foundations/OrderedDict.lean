import Mathlib.Data.List.Basic
import Mathlib.Data.List.Nodup
import Mathlib.Data.List.Perm.Subperm

/-!
# Insertion-ordered dictionaries

A finite map that remembers the order in which its keys were first inserted.
Assigning to a present key overwrites the value in place and keeps the key's
position; assigning to a new key appends it.  Key uniqueness is a field of the
structure, so no later proof has to re-establish it.

Main results:

- Theorems {lit}`get?_set_self` and {lit}`get?_set_of_ne`: assignment reads
  back, and frames every other key.
- Theorem {lit}`keys_set`: assignment changes the key list only by appending a
  new key.
- Theorem {lit}`get?_isSome_iff`: lookup succeeds exactly on the listed keys.
- Theorem {lit}`get?_ofList_of_mem`: a dictionary built from pairs without
  repeated keys stores every pair.
- Theorem {lit}`countP_values_set`: an assignment replaces one value in every count.
- Theorem {lit}`update_eq_iff`: when two updates come to the same.
-/

variable {κ ν μ : Type*}

/-- An insertion-ordered dictionary. -/
structure OrderedDict (κ ν : Type*) where
  entries : List (κ × ν)
  nodup_keys : (entries.map Prod.fst).Nodup

namespace OrderedDict

instance [DecidableEq κ] [DecidableEq ν] : DecidableEq (OrderedDict κ ν) := fun a b =>
  decidable_of_iff (a.entries = b.entries) (by cases a; cases b; simp)

/-- The keys in insertion order. -/
def keys (d : OrderedDict κ ν) : List κ :=
  d.entries.map Prod.fst

/-- The values in insertion order of their keys. -/
def values (d : OrderedDict κ ν) : List ν :=
  d.entries.map Prod.snd

/-- The dictionary without entries. -/
def empty : OrderedDict κ ν where
  entries := []
  nodup_keys := List.nodup_nil

instance : Inhabited (OrderedDict κ ν) := ⟨empty⟩

/-- A dictionary with one entry. -/
def singleton (k : κ) (v : ν) : OrderedDict κ ν where
  entries := [(k, v)]
  nodup_keys := List.nodup_singleton k

/-- No key is listed twice. -/
theorem keys_nodup (d : OrderedDict κ ν) : d.keys.Nodup :=
  d.nodup_keys

/-- The empty dict has no keys. -/
@[simp]
theorem keys_empty : (empty : OrderedDict κ ν).keys = [] :=
  rfl

/-- The keys of a dict of one item. -/
@[simp]
theorem keys_singleton (k : κ) (v : ν) : (singleton k v).keys = [k] :=
  rfl

variable [DecidableEq κ]

/-- First value stored under a key in a list of pairs. -/
def findPair (k : κ) : List (κ × ν) → Option ν
  | [] => none
  | (k', v) :: rest => if k' = k then some v else findPair k rest

/-- Overwrite the value of a key in place, or append a new pair. -/
def setPair (k : κ) (v : ν) : List (κ × ν) → List (κ × ν)
  | [] => [(k, v)]
  | (k', v') :: rest => if k' = k then (k, v) :: rest else (k', v') :: setPair k v rest

/-- A key is found iff some pair carries it. -/
theorem findPair_isSome_iff (k : κ) (pairs : List (κ × ν)) :
    (findPair k pairs).isSome ↔ k ∈ pairs.map Prod.fst := by
  induction pairs with
  | nil => simp [findPair]
  | cons pair rest ih =>
      by_cases h : pair.1 = k
      · simp [findPair, h]
      · simp [findPair, h, ih, Ne.symm h]

/-- The key just set is found with its new value. -/
theorem findPair_setPair_self (k : κ) (v : ν) (pairs : List (κ × ν)) :
    findPair k (setPair k v pairs) = some v := by
  induction pairs with
  | nil => simp [setPair, findPair]
  | cons pair rest ih =>
      by_cases h : pair.1 = k
      · simp [setPair, findPair, h]
      · simp [setPair, findPair, h, ih]

private theorem findPair_setPair_of_ne {k k' : κ} (h : k' ≠ k) (v : ν) (pairs : List (κ × ν)) :
    findPair k' (setPair k v pairs) = findPair k' pairs := by
  induction pairs with
  | nil => simp [setPair, findPair, h.symm]
  | cons pair rest ih =>
      by_cases hp : pair.1 = k
      · simp [setPair, findPair, hp, h.symm]
      · simp [setPair, findPair, hp, ih]

/-- Assignment as {lit}`List.lookup` sees it. -/
theorem lookup_setPair (k k' : κ) (v : ν) (pairs : List (κ × ν)) :
    (setPair k v pairs).lookup k' = if k' = k then some v else pairs.lookup k' := by
  induction pairs with
  | nil =>
      by_cases h : k' = k
      · simp [setPair, h]
      · simp [setPair, h, List.lookup_cons, beq_eq_false_iff_ne.mpr h]
  | cons pair rest ih =>
      rcases pair with ⟨key, value⟩
      rw [setPair]
      split
      · rename_i hkey
        subst hkey
        by_cases h : k' = key
        · simp [h]
        · simp [h, List.lookup_cons, beq_eq_false_iff_ne.mpr h]
      · rename_i hkey
        rw [List.lookup_cons, List.lookup_cons, ih]
        by_cases h : k' = k
        · have hpair : k' ≠ key := by
            rw [h]
            exact Ne.symm hkey
          simp [h, beq_eq_false_iff_ne.mpr (h ▸ hpair)]
        · simp [h]

/-- {lit}`List.lookup` answers exactly the keys of the list. -/
theorem isSome_lookup_iff (k : κ) (pairs : List (κ × ν)) :
    (pairs.lookup k).isSome = true ↔ k ∈ pairs.map Prod.fst := by
  induction pairs with
  | nil => simp
  | cons pair rest ih =>
      rcases pair with ⟨key, value⟩
      by_cases h : k = key
      · simp [h]
      · rw [List.lookup_cons, beq_eq_false_iff_ne.mpr h]
        simp [h, ih]

/-- Assigning the value that is there changes nothing. -/
theorem setPair_of_lookup {k : κ} {v : ν} {pairs : List (κ × ν)} (h : pairs.lookup k = some v) :
    setPair k v pairs = pairs := by
  induction pairs with
  | nil => cases h
  | cons pair rest ih =>
      rcases pair with ⟨key, value⟩
      rw [setPair]
      by_cases hkey : key = k
      · subst hkey
        rw [List.lookup_cons_self] at h
        cases h
        rw [if_pos rfl]
      · rw [List.lookup_cons, beq_eq_false_iff_ne.mpr (Ne.symm hkey)] at h
        rw [if_neg hkey, ih h]

/-- Setting a key twice keeps the second value. -/
theorem setPair_setPair (k : κ) (v w : ν) (pairs : List (κ × ν)) :
    setPair k w (setPair k v pairs) = setPair k w pairs := by
  induction pairs with
  | nil => simp [setPair]
  | cons pair rest ih =>
      by_cases hkey : pair.1 = k
      · simp [setPair, hkey]
      · simp [setPair, hkey, ih]

/-- Assignments to different keys that are there commute. -/
theorem setPair_comm {k k' : κ} (hne : k ≠ k') (w w' : ν) {v v' : ν} {pairs : List (κ × ν)}
    (h : pairs.lookup k = some v) (h' : pairs.lookup k' = some v') :
    setPair k' w' (setPair k w pairs) = setPair k w (setPair k' w' pairs) := by
  induction pairs with
  | nil => cases h
  | cons pair rest ih =>
      rcases pair with ⟨key, value⟩
      by_cases hkey : key = k
      · subst hkey
        simp [setPair, hne]
      · by_cases hkey' : key = k'
        · subst hkey'
          simp [setPair, hkey]
        · rw [List.lookup_cons, beq_eq_false_iff_ne.mpr (Ne.symm hkey)] at h
          rw [List.lookup_cons, beq_eq_false_iff_ne.mpr (Ne.symm hkey')] at h'
          simp [setPair, hkey, hkey', ih h h']

/-- With distinct keys, finding a value is membership of the pair. -/
theorem findPair_eq_some_iff {pairs : List (κ × ν)} (hnodup : (pairs.map Prod.fst).Nodup)
    (k : κ) (v : ν) : findPair k pairs = some v ↔ (k, v) ∈ pairs := by
  induction pairs with
  | nil => simp [findPair]
  | cons pair rest ih =>
      rcases pair with ⟨k', v'⟩
      rw [List.map_cons, List.nodup_cons] at hnodup
      by_cases h : k' = k
      · subst h
        have hnot : (k', v) ∉ rest := fun hmem =>
          hnodup.1 (List.mem_map.mpr ⟨(k', v), hmem, rfl⟩)
        simp [findPair, hnot, eq_comm]
      · simp [findPair, h, ih hnodup.2, Ne.symm h]

/-- Setting a key keeps the order of the keys and appends a new one. -/
theorem map_fst_setPair (k : κ) (v : ν) (pairs : List (κ × ν)) :
    (setPair k v pairs).map Prod.fst =
      if k ∈ pairs.map Prod.fst then pairs.map Prod.fst else pairs.map Prod.fst ++ [k] := by
  induction pairs with
  | nil => simp [setPair]
  | cons pair rest ih =>
      by_cases h : pair.1 = k
      · simp [setPair, h]
      · have hne : k ≠ pair.1 := fun heq => h heq.symm
        simp only [setPair, h, if_false, List.map_cons, ih, List.mem_cons, hne, false_or]
        split <;> simp

/-- Value stored under a key. -/
def get? (d : OrderedDict κ ν) (k : κ) : Option ν :=
  findPair k d.entries

/-- Assign a value to a key. -/
def set (d : OrderedDict κ ν) (k : κ) (v : ν) : OrderedDict κ ν where
  entries := setPair k v d.entries
  nodup_keys := by
    rw [map_fst_setPair]
    split
    · exact d.nodup_keys
    · rename_i h
      exact List.nodup_append.mpr ⟨d.nodup_keys, List.nodup_singleton k, by
        intro a ha b hb
        rw [List.mem_singleton] at hb
        subst hb
        exact fun heq => h (heq ▸ ha)⟩

/-- Whether a key is present. -/
def contains (d : OrderedDict κ ν) (k : κ) : Bool :=
  (d.get? k).isSome

/-- The empty dict answers no key. -/
@[simp]
theorem get?_empty (k : κ) : (empty : OrderedDict κ ν).get? k = none :=
  rfl

/-- A dict of one item answers its key. -/
@[simp]
theorem get?_singleton_self (k : κ) (v : ν) : (singleton k v).get? k = some v := by
  simp [singleton, get?, findPair]

/-- A dict of one item answers no other key. -/
theorem get?_singleton_of_ne {k k' : κ} (h : k' ≠ k) (v : ν) :
    (singleton k v).get? k' = none := by
  simp [singleton, get?, findPair, h.symm]

/-- Reading the key just set. -/
@[simp]
theorem get?_set_self (d : OrderedDict κ ν) (k : κ) (v : ν) :
    (d.set k v).get? k = some v :=
  findPair_setPair_self k v d.entries

/-- Setting a key leaves the others as they are. -/
theorem get?_set_of_ne (d : OrderedDict κ ν) {k k' : κ} (h : k' ≠ k) (v : ν) :
    (d.set k v).get? k' = d.get? k' :=
  findPair_setPair_of_ne h v d.entries

/-- Lookup after an assignment, for every key at once. -/
theorem get?_set (d : OrderedDict κ ν) (k k' : κ) (v : ν) :
    (d.set k v).get? k' = if k' = k then some v else d.get? k' := by
  by_cases h : k' = k
  · subst h
    simp
  · simp [h, d.get?_set_of_ne h]

/-- Setting a key keeps the order of the keys and appends a new one. -/
theorem keys_set (d : OrderedDict κ ν) (k : κ) (v : ν) :
    (d.set k v).keys = if k ∈ d.keys then d.keys else d.keys ++ [k] :=
  map_fst_setPair k v d.entries

/-- The keys after setting one. -/
@[simp]
theorem mem_keys_set (d : OrderedDict κ ν) (k k' : κ) (v : ν) :
    k' ∈ (d.set k v).keys ↔ k' = k ∨ k' ∈ d.keys := by
  rw [keys_set]
  split
  · rename_i h
    constructor
    · exact Or.inr
    · rintro (rfl | hk)
      · exact h
      · exact hk
  · simp [or_comm]

/-- Lookup succeeds exactly on the listed keys. -/
theorem get?_isSome_iff (d : OrderedDict κ ν) (k : κ) :
    (d.get? k).isSome ↔ k ∈ d.keys :=
  findPair_isSome_iff k d.entries

private theorem get?_eq_none_iff (d : OrderedDict κ ν) (k : κ) :
    d.get? k = none ↔ k ∉ d.keys := by
  rw [← d.get?_isSome_iff k]
  simp

/-- A key that is answered is in the dict. -/
theorem mem_keys_of_get? {d : OrderedDict κ ν} {k : κ} {v : ν} (h : d.get? k = some v) :
    k ∈ d.keys :=
  (d.get?_isSome_iff k).mp (by simp [h])

/-- A key in the dict is answered. -/
theorem exists_get?_of_mem_keys {d : OrderedDict κ ν} {k : κ} (h : k ∈ d.keys) :
    ∃ v, d.get? k = some v :=
  Option.isSome_iff_exists.mp ((d.get?_isSome_iff k).mpr h)

/-- {lit}`contains` decides membership among the keys. -/
theorem contains_iff (d : OrderedDict κ ν) (k : κ) : d.contains k ↔ k ∈ d.keys :=
  d.get?_isSome_iff k

/-- Lookup returns exactly the pairs listed in the entries. -/
theorem get?_eq_some_iff (d : OrderedDict κ ν) (k : κ) (v : ν) :
    d.get? k = some v ↔ (k, v) ∈ d.entries :=
  findPair_eq_some_iff d.nodup_keys k v

/-- An assignment replaces one value in every count of the values. -/
theorem countP_values_set (p : ν → Bool) (d : OrderedDict κ ν) (k : κ) (v : ν) :
    (d.set k v).values.countP p + (if (d.get? k).any p then 1 else 0) =
      d.values.countP p + (if p v then 1 else 0) := by
  have hpairs : ∀ pairs : List (κ × ν),
      ((setPair k v pairs).map Prod.snd).countP p +
          (if (findPair k pairs).any p then 1 else 0) =
        (pairs.map Prod.snd).countP p + (if p v then 1 else 0) := by
    intro pairs
    induction pairs with
    | nil => simp [setPair, findPair, List.countP_cons]
    | cons pair rest ih =>
        by_cases h : pair.1 = k
        · simp only [setPair, findPair, h, if_true, List.map_cons, List.countP_cons,
            Option.any_some]
          omega
        · simp only [setPair, findPair, h, if_false, List.map_cons, List.countP_cons]
          omega
  exact hpairs d.entries

/-- Keep the entries on which {lit}`f` is defined, in order. -/
def filterMap (f : κ → ν → Option μ) (d : OrderedDict κ ν) : OrderedDict κ μ where
  entries := d.entries.filterMap fun pair => (f pair.1 pair.2).map fun v => (pair.1, v)
  nodup_keys := by
    refine d.nodup_keys.sublist ?_
    induction d.entries with
    | nil => simp
    | cons pair rest ih =>
        cases h : f pair.1 pair.2 with
        | none => simpa [List.filterMap_cons, h] using ih.trans (List.sublist_cons_self _ _)
        | some v => simpa [List.filterMap_cons, h] using ih.cons_cons pair.1

/-- Reading a dict after {lit}`filterMap` works on the value read before it. -/
theorem get?_filterMap (f : κ → ν → Option μ) (d : OrderedDict κ ν) (k : κ) :
    (d.filterMap f).get? k = (d.get? k).bind (f k) := by
  apply Option.ext
  intro w
  rw [get?_eq_some_iff]
  simp only [filterMap, List.mem_filterMap, Option.map_eq_some_iff, Prod.mk.injEq,
    Option.bind_eq_some_iff, get?_eq_some_iff, Prod.exists]
  constructor
  · rintro ⟨k', v, hmem, w', hw, rfl, rfl⟩
    exact ⟨v, hmem, hw⟩
  · rintro ⟨v, hmem, hw⟩
    exact ⟨k, v, hmem, w, hw, rfl, rfl⟩

/-- The same keys with other values. -/
def map (f : ν → μ) (d : OrderedDict κ ν) : OrderedDict κ μ where
  entries := d.entries.map fun pair => (pair.1, f pair.2)
  nodup_keys := by
    rw [List.map_map]
    exact d.nodup_keys

/-- The dictionary built by assigning the pairs in order. -/
def ofList (pairs : List (κ × ν)) : OrderedDict κ ν :=
  pairs.foldl (fun d pair => d.set pair.1 pair.2) empty

private theorem mem_keys_foldl_set (pairs : List (κ × ν)) (d : OrderedDict κ ν) (k : κ) :
    k ∈ (pairs.foldl (fun d pair => d.set pair.1 pair.2) d).keys ↔
      k ∈ pairs.map Prod.fst ∨ k ∈ d.keys := by
  induction pairs generalizing d with
  | nil => simp
  | cons pair rest ih =>
      rw [List.foldl_cons, ih, mem_keys_set, List.map_cons, List.mem_cons]
      tauto

private theorem mem_of_get?_foldl_set (pairs : List (κ × ν)) (d : OrderedDict κ ν) {k : κ} {v : ν}
    (h : (pairs.foldl (fun d pair => d.set pair.1 pair.2) d).get? k = some v) :
    (k, v) ∈ pairs ∨ d.get? k = some v := by
  induction pairs generalizing d with
  | nil => exact Or.inr h
  | cons pair rest ih =>
      rcases ih _ h with hmem | hget
      · exact Or.inl (List.mem_cons_of_mem pair hmem)
      · rw [get?_set] at hget
        split at hget
        · rename_i hk
          cases hget
          exact Or.inl (by simp [hk])
        · exact Or.inr hget

/-- Assign the pairs of another dictionary in order. -/
def update (d e : OrderedDict κ ν) : OrderedDict κ ν :=
  e.entries.foldl (fun d pair => d.set pair.1 pair.2) d

/-- Mapping the values commutes with setting a key. -/
theorem map_set (f : ν → μ) (d : OrderedDict κ ν) (k : κ) (v : ν) :
    (d.set k v).map f = (d.map f).set k (f v) := by
  have hentries : ∀ pairs : List (κ × ν),
      (setPair k v pairs).map (fun pair => (pair.1, f pair.2)) =
        setPair k (f v) (pairs.map fun pair => (pair.1, f pair.2)) := by
    intro pairs
    induction pairs with
    | nil => rfl
    | cons pair rest ih =>
        by_cases h : pair.1 = k
        · simp [setPair, h]
        · simp [setPair, h, ih]
  have hd := hentries d.entries
  simp only [set, map, hd]

private theorem map_foldl_set (f : ν → μ) (pairs : List (κ × ν)) (d : OrderedDict κ ν) :
    (pairs.foldl (fun d pair => d.set pair.1 pair.2) d).map f =
      (pairs.map fun pair => (pair.1, f pair.2)).foldl (fun d pair => d.set pair.1 pair.2)
        (d.map f) := by
  induction pairs generalizing d with
  | nil => rfl
  | cons pair rest ih => rw [List.foldl_cons, ih, map_set, List.map_cons, List.foldl_cons]

/-- Mapping the values commutes with building a dict from pairs. -/
theorem map_ofList (f : ν → μ) (pairs : List (κ × ν)) :
    (ofList pairs).map f = ofList (pairs.map fun pair => (pair.1, f pair.2)) :=
  map_foldl_set f pairs empty

/-- Mapping the values commutes with {lit}`update`. -/
theorem map_update (f : ν → μ) (d e : OrderedDict κ ν) :
    (d.update e).map f = (d.map f).update (e.map f) :=
  map_foldl_set f e.entries d

private theorem get?_update (d e : OrderedDict κ ν) (k : κ) :
    (d.update e).get? k = (e.get? k).or (d.get? k) := by
  have hfold : ∀ (pairs : List (κ × ν)), (pairs.map Prod.fst).Nodup → ∀ d : OrderedDict κ ν,
      (pairs.foldl (fun d pair => d.set pair.1 pair.2) d).get? k =
        (findPair k pairs).or (d.get? k) := by
    intro pairs
    induction pairs with
    | nil => exact fun _ d => rfl
    | cons pair rest ih =>
        intro hnodup d
        rw [List.map_cons, List.nodup_cons] at hnodup
        rw [List.foldl_cons, ih hnodup.2]
        by_cases h : pair.1 = k
        · subst h
          have hnone : findPair pair.1 rest = none := by
            rw [← Option.not_isSome_iff_eq_none, findPair_isSome_iff]
            exact hnodup.1
          simp [findPair, hnone, get?_set_self]
        · simp [findPair, h, get?_set_of_ne _ (Ne.symm h)]
  exact hfold e.entries e.nodup_keys d

/-- The keys after {lit}`update`. -/
theorem mem_keys_update (d e : OrderedDict κ ν) (k : κ) :
    k ∈ (d.update e).keys ↔ k ∈ e.keys ∨ k ∈ d.keys :=
  mem_keys_foldl_set e.entries d k

omit [DecidableEq κ] in
/-- Mapping the values keeps the keys and their order. -/
@[simp]
theorem keys_map (f : ν → μ) (d : OrderedDict κ ν) : (d.map f).keys = d.keys := by
  rw [keys, keys, map, List.map_map]
  rfl

/-- Reading a mapped dict maps the value read. -/
theorem get?_map (f : ν → μ) (d : OrderedDict κ ν) (k : κ) :
    (d.map f).get? k = (d.get? k).map f := by
  apply Option.ext
  intro v
  simp only [get?_eq_some_iff, Option.map_eq_some_iff, map, List.mem_map, Prod.mk.injEq,
    Prod.exists]
  constructor
  · intro h
    rcases h with ⟨k', v', hmem, rfl, rfl⟩
    exact ⟨v', hmem, rfl⟩
  · intro h
    rcases h with ⟨v', hmem, rfl⟩
    exact ⟨k, v', hmem, rfl, rfl⟩

omit [DecidableEq κ] in
/-- Two dicts are equal iff they list the same items in the same order. -/
theorem eq_iff_entries {d e : OrderedDict κ ν} : d = e ↔ d.entries = e.entries := by
  cases d
  cases e
  simp

/-- Dictionaries with the same keys in the same order are the same exactly if every key
leads to the same value. -/
theorem eq_iff_get? {d e : OrderedDict κ ν} (hkeys : d.keys = e.keys) :
    d = e ↔ ∀ k, d.get? k = e.get? k := by
  refine ⟨fun h k => by rw [h], fun h => ?_⟩
  have hentries : d.entries = e.entries := by
    apply List.ext_getElem
    · simpa [keys] using congrArg List.length hkeys
    · intro i hi hi'
      have hkey : d.entries[i].1 = e.entries[i].1 := by
        have hfst := congrArg (fun keys => keys[i]?) hkeys
        simpa [keys, hi, hi'] using hfst
      have hd : d.get? d.entries[i].1 = some d.entries[i].2 :=
        (get?_eq_some_iff d _ _).mpr (List.getElem_mem hi)
      have he : e.get? e.entries[i].1 = some e.entries[i].2 :=
        (get?_eq_some_iff e _ _).mpr (List.getElem_mem hi')
      rw [h, hkey, he, Option.some.injEq] at hd
      exact Prod.ext hkey hd.symm
  exact eq_iff_entries.mpr hentries

/-- The keys of an update are decided by the keys. -/
theorem keys_update_congr {d d' e e' : OrderedDict κ ν} (hd : d.keys = d'.keys)
    (he : e.keys = e'.keys) : (d.update e).keys = (d'.update e').keys := by
  have hmarked : ∀ {c c' : OrderedDict κ ν}, c.keys = c'.keys →
      c.map (fun _ => ()) = c'.map (fun _ => ()) := by
    intro c c' hkeys
    have hentries := congrArg (List.map fun key => (key, ())) hkeys
    simp only [keys, List.map_map, Function.comp_def] at hentries
    simp only [map, hentries]
  have hupdated : ((d.update e).map fun _ => ()) = (d'.update e').map fun _ => () := by
    rw [map_update, map_update, hmarked hd, hmarked he]
  rw [← keys_map (fun _ => ()) (d.update e), hupdated, keys_map]

/-- Two updates of the same keys are the same exactly if the same is assigned, and if no
key that nothing is assigned to had different values. -/
theorem update_eq_iff {d d' e e' : OrderedDict κ ν} (hd : d.keys = d'.keys)
    (he : e.keys = e'.keys) :
    d.update e = d'.update e' ↔ e = e' ∧ ∀ k, k ∉ e.keys → d.get? k = d'.get? k := by
  rw [eq_iff_get? (keys_update_congr hd he), eq_iff_get? he, ← forall_and]
  apply forall_congr'
  intro k
  rw [get?_update, get?_update]
  by_cases hk : k ∈ e.keys
  · rcases exists_get?_of_mem_keys hk with ⟨v, hv⟩
    rcases exists_get?_of_mem_keys (he ▸ hk) with ⟨v', hv'⟩
    simp [hv, hv', hk]
  · have hnone := (get?_eq_none_iff e k).mpr hk
    have hnone' := (get?_eq_none_iff e' k).mpr (he ▸ hk)
    simp [hnone, hnone', hk]

/-- The keys of a dict built from pairs are those of the pairs. -/
@[simp]
theorem mem_keys_ofList (pairs : List (κ × ν)) (k : κ) :
    k ∈ (ofList pairs).keys ↔ k ∈ pairs.map Prod.fst := by
  rw [ofList, mem_keys_foldl_set]
  simp

/-- A stored pair is one of the assigned pairs. -/
theorem mem_of_get?_ofList {pairs : List (κ × ν)} {k : κ} {v : ν}
    (h : (ofList pairs).get? k = some v) : (k, v) ∈ pairs := by
  rcases mem_of_get?_foldl_set pairs empty h with hmem | hget
  · exact hmem
  · simp at hget

/-- Without repeated keys every assigned pair is stored. -/
theorem get?_ofList_of_mem {pairs : List (κ × ν)} (hnodup : (pairs.map Prod.fst).Nodup)
    {k : κ} {v : ν} (h : (k, v) ∈ pairs) : (ofList pairs).get? k = some v := by
  have hkey : k ∈ (ofList pairs).keys :=
    (mem_keys_ofList pairs k).mpr (List.mem_map.mpr ⟨(k, v), h, rfl⟩)
  rcases exists_get?_of_mem_keys hkey with ⟨v', hv'⟩
  have hsame := List.inj_on_of_nodup_map hnodup (mem_of_get?_ofList hv') h rfl
  cases hsame
  exact hv'

/-- A dict built from pairs has at most as many values as there are pairs. -/
theorem length_values_ofList_le (pairs : List (κ × ν)) :
    (ofList pairs).values.length ≤ pairs.length := by
  have hsub : (ofList pairs).keys ⊆ pairs.map Prod.fst := fun k hk =>
    (mem_keys_ofList pairs k).mp hk
  have hle := ((ofList pairs).keys_nodup.subperm hsub).length_le
  simpa [keys, values] using hle

/-- A dictionary that tabulates a function on a list of keys. -/
theorem get?_ofList_map (keys : List κ) (f : κ → ν) (k : κ) :
    (ofList (keys.map fun k => (k, f k))).get? k = if k ∈ keys then some (f k) else none := by
  by_cases hk : k ∈ keys
  · have hkey : k ∈ (ofList (keys.map fun k => (k, f k))).keys := by
      rw [mem_keys_ofList]
      simpa using hk
    rcases exists_get?_of_mem_keys hkey with ⟨v, hv⟩
    have hmem := mem_of_get?_ofList hv
    simp only [List.mem_map, Prod.mk.injEq] at hmem
    rcases hmem with ⟨_, _, rfl, rfl⟩
    rw [hv, if_pos hk]
  · rw [if_neg hk, get?_eq_none_iff, mem_keys_ofList]
    simpa using hk

/-- Assign a function of the key to each of the listed keys. -/
def setAll (d : OrderedDict κ ν) (keys : List κ) (f : κ → ν) : OrderedDict κ ν :=
  keys.foldl (fun d k => d.set k (f k)) d

/-- Reading a dict after setting every key of a list. -/
theorem get?_setAll (d : OrderedDict κ ν) (keys : List κ) (f : κ → ν) (k : κ) :
    (d.setAll keys f).get? k = if k ∈ keys then some (f k) else d.get? k := by
  unfold setAll
  induction keys generalizing d with
  | nil => simp
  | cons head rest ih =>
      rw [List.foldl_cons, ih, get?_set]
      by_cases hrest : k ∈ rest
      · simp [hrest]
      · by_cases hk : k = head
        · simp [hk]
        · simp [hrest, hk]

end OrderedDict
