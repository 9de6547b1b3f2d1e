import EtlTool.Foundations.TopologicalSort
import EtlTool.Nodes.Merge

/-!
# Joined rows

What a joined row keeps of the two records it is made of.  A field of the right record
whose name is taken is written under the suffixed name, into the row that the later
fields still have to go into.  The suffixed name may be taken itself: by a field of the
left record, or by an earlier field of the right one.

Main results:

- Theorem {lit}`combine_keeps_iff`: a joined row loses no field exactly if no field that
  has to give way finds its suffixed name taken.
- Theorem {lit}`joined_row_loses_field`: a left record with a field {lit}`total_right`.
-/

namespace EtlTool

/-! ## Rows without loss -/

/-- The fields of a record that are no key fields. -/
def otherFields (keys : List String) (record : Fields) : Fields :=
  record.filter fun field => decide (field.1 ∉ keys)

/-- The row has the fields of the left record unchanged, every other field of the right
record under its own or its suffixed name, and nothing else. -/
structure KeepsFields (keys : List String) (suffix : String) (left right row : Fields) : Prop where
  left_kept : ∀ field ∈ left, row.lookup field.1 = some field.2
  right_kept : ∃ name : String → String,
    (∀ field ∈ otherFields keys right,
      (name field.1 = field.1 ∨ name field.1 = field.1 ++ suffix) ∧
        name field.1 ∉ left.map Prod.fst ∧ row.lookup (name field.1) = some field.2) ∧
    ∀ field ∈ otherFields keys right, ∀ other ∈ otherFields keys right,
      name field.1 = name other.1 → field.1 = other.1
  size : row.length = left.length + (otherFields keys right).length

/-! ## Fields that give way -/

/-- The fields of the right record that find their name taken: by a field of the left
record, or by an earlier field that was itself written under its suffixed name. -/
inductive GivesWay (suffix : String) (left right : List String) : String → Prop where
  | taken {name : String} : name ∈ right → name ∈ left → GivesWay suffix left right name
  | pushed {name : String} : GivesWay suffix left right name →
      TopologicalSort.Precedes right name (name ++ suffix) →
      GivesWay suffix left right (name ++ suffix)

/-- The suffixed name of every field that gives way is free: the left record does not have
it, and no earlier field of the right record does. -/
def SuffixesFree (suffix : String) (left right : List String) : Prop :=
  ∀ name, GivesWay suffix left right name →
    name ++ suffix ∉ left ∧ ¬ TopologicalSort.Precedes right (name ++ suffix) name

/-! ## Placing the fields -/

/-- The name under which a field is written into a row. -/
def landing (suffix : String) (row : Fields) (name : String) : String :=
  if name ∈ row.map Prod.fst then name ++ suffix else name

/-- Write one field of the right record. -/
def placeField (suffix : String) (row : Fields) (field : String × Value) : Fields :=
  OrderedDict.setPair (landing suffix row field.1) field.2 row

private theorem combine_eq_foldl (keys : List String) (suffix : String) (row record : Fields) :
    combine keys suffix row record = (otherFields keys record).foldl (placeField suffix) row := by
  induction record generalizing row with
  | nil => rfl
  | cons field rest ih =>
      rcases field with ⟨name, value⟩
      by_cases hkey : name ∈ keys
      · have hrest : otherFields keys ((name, value) :: rest) = otherFields keys rest := by
          simp [otherFields, hkey]
        rw [combine, if_pos hkey, ih, hrest]
      · have hrest : otherFields keys ((name, value) :: rest) =
            (name, value) :: otherFields keys rest := by
          simp [otherFields, hkey]
        rw [combine, if_neg hkey, hrest, List.foldl_cons]
        by_cases htaken : name ∈ row.map Prod.fst
        · rw [if_pos htaken, ih, placeField, landing, if_pos htaken]
        · rw [if_neg htaken, ih, placeField, landing, if_neg htaken]

private theorem setPair_of_not_mem {name : String} {row : Fields} (h : name ∉ row.map Prod.fst)
    (value : Value) : OrderedDict.setPair name value row = row ++ [(name, value)] := by
  induction row with
  | nil => rfl
  | cons field rest ih =>
      simp only [List.map_cons, List.mem_cons, not_or] at h
      rw [OrderedDict.setPair, if_neg (Ne.symm h.1), ih h.2, List.cons_append]

private theorem length_setPair (name : String) (value : Value) (row : Fields) :
    (OrderedDict.setPair name value row).length =
      if name ∈ row.map Prod.fst then row.length else row.length + 1 := by
  have hnames := congrArg List.length (OrderedDict.map_fst_setPair name value row)
  rw [List.length_map] at hnames
  rw [hnames]
  split <;> simp

/-- A row grows by at most one field at a time. -/
theorem length_foldl_le (suffix : String) (fields row : Fields) :
    (fields.foldl (placeField suffix) row).length ≤ row.length + fields.length := by
  induction fields generalizing row with
  | nil => simp
  | cons field rest ih =>
      have hstep : (placeField suffix row field).length ≤ row.length + 1 := by
        rw [placeField, length_setPair]
        split <;> omega
      have hrest := ih (placeField suffix row field)
      rw [List.foldl_cons, List.length_cons]
      omega

/-- The names of a row stay distinct. -/
theorem nodup_foldl_placeField (suffix : String) (fields : Fields) {row : Fields}
    (h : (row.map Prod.fst).Nodup) :
    ((fields.foldl (placeField suffix) row).map Prod.fst).Nodup := by
  induction fields generalizing row with
  | nil => exact h
  | cons field rest ih =>
      refine ih ?_
      exact (OrderedDict.set ⟨row, h⟩ (landing suffix row field.1) field.2).nodup_keys

/-- No field is written over another one. -/
def NoOverwrite (suffix : String) (left others : Fields) : Prop :=
  ∀ front field back, others = front ++ field :: back →
    landing suffix (front.foldl (placeField suffix) left) field.1 ∉
      (front.foldl (placeField suffix) left).map Prod.fst

/-- If the row has as many fields as were written, none was written over another one. -/
theorem noOverwrite_of_length {suffix : String} {left others : Fields}
    (h : (others.foldl (placeField suffix) left).length = left.length + others.length) :
    NoOverwrite suffix left others := by
  rintro front field back rfl hover
  have hfront := length_foldl_le suffix front left
  have hback := length_foldl_le suffix back
    (placeField suffix (front.foldl (placeField suffix) left) field)
  have hstep : (placeField suffix (front.foldl (placeField suffix) left) field).length =
      (front.foldl (placeField suffix) left).length := by
    rw [placeField, length_setPair, if_pos hover]
  rw [List.foldl_append, List.foldl_cons, List.length_append, List.length_cons] at h
  omega

/-! ## Where the fields land -/

section

variable {suffix : String} {left right : List String}

/-- A field gives way exactly if the left record has it or an earlier field was written
under its name. -/
theorem givesWay_iff {front back : List String} {name : String}
    (hsplit : right = front ++ name :: back) (hnodup : right.Nodup) :
    GivesWay suffix left right name ↔
      name ∈ left ∨ ∃ other ∈ front, GivesWay suffix left right other ∧ other ++ suffix = name := by
  constructor
  · intro h
    cases h with
    | taken _ hleft => exact Or.inl hleft
    | pushed hother hbefore =>
        exact Or.inr ⟨_, hbefore.mem_initial hnodup hsplit, hother, rfl⟩
  · intro heither
    rcases heither with hleft | ⟨other, hother, hgives, rfl⟩
    · exact .taken (by simp [hsplit]) hleft
    · exact .pushed hgives ⟨front, back, hsplit, hother⟩

open Classical in
/-- The name under which a field ends up. -/
noncomputable def placedName (suffix : String) (left right : List String) (name : String) :
    String :=
  if GivesWay suffix left right name then name ++ suffix else name

private theorem placedName_cases (suffix : String) (left right : List String) (name : String) :
    placedName suffix left right name = name ∧ ¬ GivesWay suffix left right name ∨
      placedName suffix left right name = name ++ suffix ∧ GivesWay suffix left right name := by
  unfold placedName
  split
  · rename_i hgives
    exact Or.inr ⟨rfl, hgives⟩
  · rename_i hkeeps
    exact Or.inl ⟨rfl, hkeeps⟩

/-- The names that are taken when a field is written are those for which it gives way. -/
theorem mem_placed_iff {front back : List String} {name : String}
    (hsplit : right = front ++ name :: back) (hnodup : right.Nodup) :
    name ∈ left ++ front.map (placedName suffix left right) ↔ GivesWay suffix left right name := by
  have hnew : name ∉ front := by
    intro hmem
    rw [hsplit] at hnodup
    exact (List.nodup_append.mp hnodup).2.2 name hmem name List.mem_cons_self rfl
  rw [givesWay_iff hsplit hnodup, List.mem_append, List.mem_map]
  refine or_congr_right (exists_congr fun other => and_congr_right fun hother => ?_)
  rcases placedName_cases suffix left right other with ⟨hname, hkeeps⟩ | ⟨hname, hgives⟩
  · rw [hname]
    refine iff_of_false (fun heq => hnew (heq ▸ hother)) fun h => hkeeps h.1
  · rw [hname]
    exact ⟨fun heq => ⟨hgives, heq⟩, And.right⟩

/-- The suffixed names are free exactly if no field is written over another one. -/
theorem suffixesFree_iff (hnodup : right.Nodup) :
    SuffixesFree suffix left right ↔ ∀ front name back, right = front ++ name :: back →
      placedName suffix left right name ∉ left ++ front.map (placedName suffix left right) := by
  constructor
  · intro hfree front name back hsplit hmem
    rcases placedName_cases suffix left right name with ⟨hname, hkeeps⟩ | ⟨hname, hgives⟩
    · rw [hname, mem_placed_iff hsplit hnodup] at hmem
      exact hkeeps hmem
    · rw [hname, List.mem_append, List.mem_map] at hmem
      rcases hmem with hleft | ⟨other, hother, hsame⟩
      · exact (hfree name hgives).1 hleft
      · rcases placedName_cases suffix left right other with ⟨hname', _⟩ | ⟨hname', _⟩
        · rw [hname'] at hsame
          exact (hfree name hgives).2 ⟨front, back, hsplit, hsame ▸ hother⟩
        · -- two fields with one suffixed name are one field
          rw [hname'] at hsame
          have heq : other = name := String.append_left_inj suffix |>.mp hsame
          rw [hsplit] at hnodup
          exact (List.nodup_append.mp hnodup).2.2 other hother other
            (heq ▸ List.mem_cons_self) rfl
  · intro hplaced name hgives
    have hmem : name ∈ right := by
      cases hgives with
      | taken hmem _ => exact hmem
      | pushed _ hbefore =>
          rcases hbefore with ⟨front, back, rfl, _⟩
          simp
    rcases List.append_of_mem hmem with ⟨front, back, hsplit⟩
    have hnew := hplaced front name back hsplit
    rcases placedName_cases suffix left right name with ⟨_, hkeeps⟩ | ⟨hname, _⟩
    · exact absurd hgives hkeeps
    rw [hname, List.mem_append, not_or] at hnew
    refine ⟨hnew.1, fun hbefore => ?_⟩
    have hfront := hbefore.mem_initial hnodup hsplit
    rcases placedName_cases suffix left right (name ++ suffix) with ⟨hsame, _⟩ | ⟨_, hgives'⟩
    · exact hnew.2 (List.mem_map.mpr ⟨_, hfront, hsame⟩)
    · -- the earlier field gives way itself, but only to a field that comes later
      rcases List.append_of_mem hfront with ⟨before, between, hbetween⟩
      have hsplit' : right = before ++ (name ++ suffix) :: (between ++ name :: back) := by
        rw [hsplit, hbetween]
        simp
      rcases (givesWay_iff hsplit' hnodup).mp hgives' with hleft | ⟨other, hother, _, hsame⟩
      · exact hnew.1 hleft
      · have heq : other = name := String.append_left_inj suffix |>.mp hsame
        rw [hsplit', List.nodup_append] at hnodup
        exact hnodup.2.2 other hother other (by simp [heq]) rfl

end

section

variable {suffix : String} {left others : Fields}

/-- The fields under the names under which they end up. -/
noncomputable def placed (suffix : String) (left others fields : Fields) : Fields :=
  fields.map fun field =>
    (placedName suffix (left.map Prod.fst) (others.map Prod.fst) field.1, field.2)

private theorem map_fst_placed (fields : Fields) :
    (placed suffix left others fields).map Prod.fst = (fields.map Prod.fst).map
      (placedName suffix (left.map Prod.fst) (others.map Prod.fst)) := by
  simp [placed, Function.comp_def]

variable (hnodup : (others.map Prod.fst).Nodup)

include hnodup

/-- A field lands under the name under which it ends up. -/
theorem landing_eq {front back : Fields} {field : String × Value}
    (hsplit : others = front ++ field :: back) :
    landing suffix (left ++ placed suffix left others front) field.1 =
      placedName suffix (left.map Prod.fst) (others.map Prod.fst) field.1 := by
  have hnames : others.map Prod.fst = front.map Prod.fst ++ field.1 :: back.map Prod.fst := by
    rw [hsplit, List.map_append, List.map_cons]
  have htaken : field.1 ∈ (left ++ placed suffix left others front).map Prod.fst ↔
      GivesWay suffix (left.map Prod.fst) (others.map Prod.fst) field.1 := by
    rw [List.map_append, map_fst_placed]
    exact mem_placed_iff hnames hnodup
  by_cases hgives : GivesWay suffix (left.map Prod.fst) (others.map Prod.fst) field.1
  · rw [landing, if_pos (htaken.mpr hgives), placedName, if_pos hgives]
  · rw [landing, if_neg fun h => hgives (htaken.mp h), placedName, if_neg hgives]

/-- The row after some fields, as long as none is written over another one. -/
theorem foldl_placeField_eq
    (hnew : ∀ front field back, others = front ++ field :: back →
      front.foldl (placeField suffix) left = left ++ placed suffix left others front →
      placedName suffix (left.map Prod.fst) (others.map Prod.fst) field.1 ∉
        (left ++ placed suffix left others front).map Prod.fst)
    (front back : Fields) (hsplit : others = front ++ back) :
    front.foldl (placeField suffix) left = left ++ placed suffix left others front := by
  induction front using List.reverseRecOn generalizing back with
  | nil => simp [placed]
  | append_singleton front field ih =>
      have hsplit' : others = front ++ field :: back := by
        rw [hsplit]
        simp
      have hfront := ih (field :: back) hsplit'
      have hfree := hnew front field back hsplit' hfront
      rw [List.foldl_append, List.foldl_cons, List.foldl_nil, hfront, placeField,
        landing_eq hnodup hsplit', setPair_of_not_mem hfree, List.append_assoc]
      simp [placed]

/-- No field is written over another one exactly if the suffixed names are free. -/
theorem noOverwrite_iff :
    NoOverwrite suffix left others ↔
      SuffixesFree suffix (left.map Prod.fst) (others.map Prod.fst) := by
  rw [suffixesFree_iff hnodup]
  constructor
  · intro hno names name names' hsplit
    rcases List.map_eq_append_iff.mp hsplit with ⟨front, rest, rfl, rfl, hrest⟩
    rcases List.map_eq_cons_iff.mp hrest with ⟨field, back, rfl, rfl, rfl⟩
    have hrow := foldl_placeField_eq hnodup (fun front field back hsplit hfront => by
      have hover := hno front field back hsplit
      rw [hfront, landing_eq hnodup hsplit] at hover
      exact hover) front (field :: back) rfl
    have hover := hno front field back rfl
    rw [hrow, landing_eq hnodup rfl, List.map_append, map_fst_placed] at hover
    exact hover
  · intro hfree front field back hsplit
    have hfree' : ∀ front field back, others = front ++ field :: back →
        placedName suffix (left.map Prod.fst) (others.map Prod.fst) field.1 ∉
          (left ++ placed suffix left others front).map Prod.fst := by
      intro front field back hsplit
      rw [List.map_append, map_fst_placed]
      exact hfree _ _ (back.map Prod.fst) (by rw [hsplit, List.map_append, List.map_cons])
    have hrow := foldl_placeField_eq hnodup (fun front field back hsplit _ =>
      hfree' front field back hsplit) front (field :: back) hsplit
    rw [hrow, landing_eq hnodup hsplit]
    exact hfree' front field back hsplit

end

/-- A joined row loses no field exactly if no field that has to give way finds its suffixed
name taken. -/
theorem combine_keeps_iff (keys : List String) (suffix : String)
    (left right : OrderedDict String Value) :
    KeepsFields keys suffix left.entries right.entries
        (combine keys suffix left.entries right.entries) ↔
      SuffixesFree suffix left.keys ((otherFields keys right.entries).map Prod.fst) := by
  have hnodup : ((otherFields keys right.entries).map Prod.fst).Nodup :=
    right.nodup_keys.sublist (List.filter_sublist.map Prod.fst)
  have hiff : NoOverwrite suffix left.entries (otherFields keys right.entries) ↔ _ :=
    noOverwrite_iff hnodup
  rw [show left.keys = left.entries.map Prod.fst from rfl, ← hiff, combine_eq_foldl]
  constructor
  · intro h
    exact noOverwrite_of_length h.size
  · intro hno
    have hrow : (otherFields keys right.entries).foldl (placeField suffix) left.entries =
        left.entries ++ placed suffix left.entries (otherFields keys right.entries)
          (otherFields keys right.entries) :=
      foldl_placeField_eq hnodup (fun front field back hsplit hfront => by
        have hover := hno front field back hsplit
        rw [hfront, landing_eq hnodup hsplit] at hover
        exact hover) _ [] (by simp)
    have hkeys := nodup_foldl_placeField suffix (otherFields keys right.entries) left.nodup_keys
    rw [hrow] at hkeys ⊢
    have hparts := hkeys
    rw [List.map_append, List.nodup_append] at hparts
    have hmem : ∀ field ∈ otherFields keys right.entries,
        (placedName suffix left.keys ((otherFields keys right.entries).map Prod.fst) field.1,
          field.2) ∈ placed suffix left.entries (otherFields keys right.entries)
            (otherFields keys right.entries) := fun field hfield => List.mem_map_of_mem hfield
    refine ⟨fun field hfield => ?_, ⟨placedName suffix left.keys
      ((otherFields keys right.entries).map Prod.fst), fun field hfield => ⟨?_, ?_, ?_⟩, ?_⟩, ?_⟩
    · exact lookup_eq_some_of_mem hkeys (List.mem_append_left _ hfield)
    · rcases placedName_cases suffix left.keys ((otherFields keys right.entries).map Prod.fst)
        field.1 with ⟨hname, _⟩ | ⟨hname, _⟩
      · exact Or.inl hname
      · exact Or.inr hname
    · intro hleft
      exact hparts.2.2 _ hleft _ (List.mem_map_of_mem (hmem field hfield)) rfl
    · exact lookup_eq_some_of_mem hkeys (List.mem_append_right _ (hmem field hfield))
    · intro field hfield other hother hsame
      have hinj := hparts.2.1
      rw [map_fst_placed] at hinj
      exact List.inj_on_of_nodup_map hinj (List.mem_map_of_mem hfield)
        (List.mem_map_of_mem hother) hsame
    · simp [placed]

/-! ## A taken suffix -/

theorem joined_row_loses_field :
    decimalRuntime.joinRecords (fun _ _ _ => none) ["id"] .inner "_right"
        [[("id", .int 1), ("total", .int 30), ("total_right", .int 4)]]
        [[("id", .int 1), ("total", .int 9)]] =
      .ok [[("id", .int 1), ("total", .int 30), ("total_right", .int 9)]] ∧
    ¬ KeepsFields ["id"] "_right" [("id", .int 1), ("total", .int 30), ("total_right", .int 4)]
      [("id", .int 1), ("total", .int 9)]
      [("id", .int 1), ("total", .int 30), ("total_right", .int 9)] := by
  refine ⟨by decide +kernel, fun h => ?_⟩
  have hkept := h.left_kept ("total_right", .int 4) (by simp)
  revert hkept
  decide

end EtlTool
