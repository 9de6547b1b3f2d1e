import EtlTool.Core.PathLookups
import EtlTool.Nodes.ExpressionOperators
import EtlTool.Nodes.Iterator
import EtlTool.Nodes.Merge

/-!
# Selected fields

The {lit}`select` and {lit}`filter` ops of the transform node.  A selected record holds the
value of a dotted path under the path itself, as one flat key, but everything downstream
splits a path at its dots.  So a path can be followed in the selected record as before only
if its first segment is itself a listed field.

Main results:

- Theorem {lit}`selectRecord_lookup`: the members of a selected record.
- Theorem {lit}`lookup_kept_iff`: the fields that lead to the same value as before.
- Theorem {lit}`readsAlike_of_lookups`: filters, selects, join keys and iterators see nothing
  of a record but what its paths lead to.
- Theorem {lit}`select_addressable`: what a select keeps addressable, and when a second
  select changes nothing.
- Theorem {lit}`applyFilter_applySelect`: a filter through kept paths commutes with the
  select of a stream.

Current gaps:

- The shortcut by identity when lists are compared.
-/

namespace EtlTool

/-! ## Predicates -/

/-- {lit}`Condition.op`. -/
inductive ConditionOp where
  | eq
  | ne
  | gt
  | gte
  | lt
  | lte
  | in
  | notIn
  | contains
  | regex
  | exists
  | notExists
deriving DecidableEq

/-- The name of an operator in a config. -/
def ConditionOp.name : ConditionOp → String
  | .eq => "eq"
  | .ne => "ne"
  | .gt => "gt"
  | .gte => "gte"
  | .lt => "lt"
  | .lte => "lte"
  | .in => "in"
  | .notIn => "not_in"
  | .contains => "contains"
  | .regex => "regex"
  | .exists => "exists"
  | .notExists => "not_exists"

/-- {lit}`Condition`. -/
structure Condition where
  field : String
  op : ConditionOp
  value : Value := .none

/-- {lit}`Predicate`: a condition, or one of the groups {lit}`AllOf`, {lit}`AnyOf` and
{lit}`NotOf`. -/
inductive Predicate where
  | condition (condition : Condition)
  | all (predicates : List Predicate)
  | any (predicates : List Predicate)
  | not (predicate : Predicate)

/-- What conditions take from the interpreter. -/
structure Comparisons where
  /-- Whether {lit}`re.search(pattern, text)` finds a match. -/
  search : String → String → Except PyException Bool
  /-- A comparison in which an object takes part that is not a JSON value. -/
  foreignOp : ConditionOp → Value → Value → Except PyException Bool

/-- The answer of an operator, or its {lit}`TypeError`. -/
def orTypeError : Option Bool → Except PyException Bool
  | some holds => .ok holds
  | none => .error (typeError "not supported between instances")

section

variable (rt : Runtime) (cs : Comparisons)

/-- The operators on JSON values. -/
def compareJson (op : ConditionOp) (left right : Value) : Except PyException Bool :=
  match op with
  | .eq => .ok (left.pyEq right)
  | .ne => .ok !left.pyEq right
  | .gt => orTypeError (left.pyOrder? .gt right)
  | .gte => orTypeError (left.pyOrder? .gtE right)
  | .lt => orTypeError (left.pyOrder? .lt right)
  | .lte => orTypeError (left.pyOrder? .ltE right)
  | .in => orTypeError (left.pyIn? right)
  | .notIn => orTypeError ((left.pyIn? right).map (!·))
  | .contains => orTypeError (right.pyIn? left)
  | op => .error (valueError ("unknown condition op " ++ rt.reprStr op.name))

/-- What {lit}`_compare` tries. -/
def tryCompare (op : ConditionOp) (left right : Value) : Except PyException Bool :=
  match op with
  | .regex =>
      match rt.strOf right, rt.strOf left with
      | .ok pattern, .ok text => cs.search pattern text
      | .error exc, _ => .error exc
      | _, .error exc => .error exc
  | op =>
      if left.isJson && right.isJson then compareJson rt op left right
      else cs.foreignOp op left right

/-- {lit}`_compare`: incomparable types fail the condition rather than the run. -/
def compareValues (op : ConditionOp) (left right : Value) : Except PyException Bool :=
  match tryCompare rt cs op left right with
  | .error exc => if exc.typeName = "TypeError" then .ok false else .error exc
  | .ok holds => .ok holds

/-- A condition on the value that its field leads to; {lean}`none` stands for the sentinel
{lit}`_MISSING`. -/
def evalCondition (condition : Condition) (found : Option Value) : Except PyException Bool :=
  match condition.op, found with
  | .exists, found => .ok found.isSome
  | .notExists, found => .ok found.isNone
  | _, none => .ok false
  | op, some value => compareValues rt cs op value condition.value

mutual

/-- {lit}`eval_predicate`. -/
def evalPredicate (record : Fields) : Predicate → Except PyException Bool
  | .condition condition =>
      match rt.getPath? (.dict record) (splitPath condition.field) with
      | .error exc => .error exc
      | .ok found => evalCondition rt cs condition found
  | .all predicates => evalAll record predicates
  | .any predicates => evalAny record predicates
  | .not predicate => (evalPredicate record predicate).map (!·)

/-- {lit}`all(...)` over the predicates: it stops at the first that fails. -/
def evalAll (record : Fields) : List Predicate → Except PyException Bool
  | [] => .ok true
  | predicate :: rest =>
      match evalPredicate record predicate with
      | .ok true => evalAll record rest
      | outcome => outcome

/-- {lit}`any(...)` over the predicates: it stops at the first that holds. -/
def evalAny (record : Fields) : List Predicate → Except PyException Bool
  | [] => .ok false
  | predicate :: rest =>
      match evalPredicate record predicate with
      | .ok false => evalAny record rest
      | outcome => outcome

end

end

mutual

/-- The fields of the conditions of a predicate. -/
def Predicate.fields : Predicate → List String
  | .condition test => [test.field]
  | .all predicates => fieldsOfAll predicates
  | .any predicates => fieldsOfAll predicates
  | .not predicate => predicate.fields

/-- The fields of the conditions of several predicates. -/
def Predicate.fieldsOfAll : List Predicate → List String
  | [] => []
  | predicate :: rest => predicate.fields ++ fieldsOfAll rest

end

/-! ## Select -/

/-- The loop of {lit}`_apply` over the fields of a {lit}`SelectOp`, for one record. -/
def Runtime.selectFields (rt : Runtime) (record projected : Fields) :
    List String → Except PyException Fields
  | [] => .ok projected
  | field :: rest =>
      match rt.getPath? (.dict record) (splitPath field) with
      | .error exc => .error exc
      | .ok none => rt.selectFields record projected rest
      | .ok (some value) =>
          rt.selectFields record (OrderedDict.setPair field value projected) rest

/-- The record that a {lit}`SelectOp` makes of a record. -/
def Runtime.selectRecord (rt : Runtime) (fields : List String) (record : Fields) :
    Except PyException Fields :=
  rt.selectFields record [] fields

/-- The branch of {lit}`_apply` for a {lit}`SelectOp`. -/
def Runtime.applySelect (rt : Runtime) (fields : List String) :
    Records → Except PyException Records
  | [] => .ok []
  | record :: rest =>
      match rt.selectRecord fields record with
      | .error exc => .error exc
      | .ok projected => (rt.applySelect fields rest).map (projected :: ·)

/-- The branch of {lit}`_apply` for a {lit}`FilterOp`. -/
def Runtime.applyFilter (rt : Runtime) (cs : Comparisons) (predicate : Predicate) :
    Records → Except PyException Records
  | [] => .ok []
  | record :: rest =>
      match evalPredicate rt cs record predicate with
      | .error exc => .error exc
      | .ok true => (rt.applyFilter cs predicate rest).map (record :: ·)
      | .ok false => rt.applyFilter cs predicate rest

/-! ## The members of a selected record -/

/-- A part of a text that is split does not hold the separator. -/
theorem not_mem_of_mem_splitOn {sep : Char} {text : List Char} :
    ∀ part ∈ text.splitOn sep, sep ∉ part := by
  induction text with
  | nil => simp
  | cons c text ih =>
      rw [List.splitOn_cons_eq_if_modifyHead]
      split
      · simpa using ih
      · rename_i hc
        cases hparts : text.splitOn sep with
        | nil => exact absurd hparts (List.splitOn_ne_nil sep text)
        | cons first others =>
            rw [hparts] at ih
            rcases List.forall_mem_cons.mp ih with ⟨hfirst, hothers⟩
            refine List.forall_mem_cons.mpr ⟨?_, hothers⟩
            intro hmem
            rcases List.mem_cons.mp hmem with rfl | hmem
            · exact hc (beq_self_eq_true sep)
            · exact hfirst hmem

/-- A segment of a path is a path of its own, with one segment. -/
theorem splitPath_segment {path segment : String} (h : segment ∈ splitPath path) :
    splitPath segment = [segment] := by
  rcases List.mem_filter.mp h with ⟨hpart, hne⟩
  rcases List.mem_map.mp hpart with ⟨part, hmem, rfl⟩
  have hdot := not_mem_of_mem_splitOn part hmem
  unfold splitPath
  rw [String.toList_ofList, List.splitOn_eq_singleton hdot, List.map_singleton,
    List.filter_singleton, hne, cond_true]

section

variable {rt : Runtime} {fields : List String} {record selected : Fields}

/-- What was traversed before does not matter. -/
theorem getPath?_eq_walk (rt : Runtime) (segments : List String) :
    ∀ (obj : Value) (traversed : List String), rt.getPath? obj segments =
      match rt.walk obj traversed segments with
      | .found value => .ok (some value)
      | .missing _ => .ok none
      | .badIndex _ => .error intConversionError := by
  induction segments with
  | nil => intro obj traversed; rfl
  | cons segment rest ih =>
      intro obj traversed
      rw [Runtime.getPath?, Runtime.walk, Runtime.walk]
      cases hhop : rt.hop obj segment with
      | reached value => exact (ih value _).symm.trans (ih value _)
      | nowhere => rfl
      | badIndex => rfl

/-- Only the member under the first segment matters. -/
theorem getPath?_dict_cons (rt : Runtime) (record : Fields) (segment : String)
    (rest : List String) : rt.getPath? (.dict record) (segment :: rest) =
      match record.lookup segment with
      | none => .ok none
      | some value => rt.getPath? value rest := by
  rw [Runtime.getPath?, Runtime.walk]
  cases hlookup : record.lookup segment with
  | none => simp [Runtime.hop, hlookup]
  | some value =>
      simp only [Runtime.hop, hlookup]
      exact (getPath?_eq_walk rt rest value _).symm

/-- A loop that starts with some members adds the values that its fields lead to. -/
theorem selectFields_lookup {projected : Fields}
    (h : rt.selectFields record projected fields = .ok selected) (name : String) (value : Value) :
    selected.lookup name = some value ↔
      (name ∈ fields ∧ rt.getPath? (.dict record) (splitPath name) = .ok (some value)) ∨
        (¬ (name ∈ fields ∧ ∃ other,
            rt.getPath? (.dict record) (splitPath name) = .ok (some other)) ∧
          projected.lookup name = some value) := by
  induction fields generalizing projected with
  | nil =>
      cases h
      simp
  | cons field rest ih =>
      rw [Runtime.selectFields] at h
      cases hfield : rt.getPath? (.dict record) (splitPath field) with
      | error exc => simp [hfield] at h
      | ok found =>
          cases found with
          | none =>
              simp only [hfield] at h
              rw [ih h]
              by_cases hname : name = field
              · subst hname
                simp [hfield]
              · simp [hname]
          | some member =>
              simp only [hfield] at h
              rw [ih h, OrderedDict.lookup_setPair]
              by_cases hname : name = field
              · subst hname
                by_cases hlater : name ∈ rest <;> simp [hfield, hlater]
              · simp [hname]

/-- The members of a selected record: under each listed path, the value that it leads to. -/
theorem selectRecord_lookup (h : rt.selectRecord fields record = .ok selected) (name : String)
    (value : Value) : selected.lookup name = some value ↔
      name ∈ fields ∧ rt.getPath? (.dict record) (splitPath name) = .ok (some value) := by
  rw [selectFields_lookup h]
  simp

/-- A select that returns has looked up every field. -/
theorem selectFields_found {projected : Fields}
    (h : rt.selectFields record projected fields = .ok selected) :
    ∀ field ∈ fields, ∃ found, rt.getPath? (.dict record) (splitPath field) = .ok found := by
  induction fields generalizing projected with
  | nil => exact List.forall_mem_nil _
  | cons field rest ih =>
      rw [Runtime.selectFields] at h
      cases hfield : rt.getPath? (.dict record) (splitPath field) with
      | error exc => simp [hfield] at h
      | ok found =>
          refine List.forall_mem_cons.mpr ⟨⟨found, hfield⟩, ?_⟩
          cases found with
          | none =>
              simp only [hfield] at h
              exact ih h
          | some value =>
              simp only [hfield] at h
              exact ih h

/-- A select sees nothing of a record but what its fields lead to. -/
theorem selectFields_congr {record' projected : Fields}
    (h : ∀ field ∈ fields, rt.getPath? (.dict record') (splitPath field) =
      rt.getPath? (.dict record) (splitPath field)) :
    rt.selectFields record' projected fields = rt.selectFields record projected fields := by
  induction fields generalizing projected with
  | nil => rfl
  | cons field rest ih =>
      rcases List.forall_mem_cons.mp h with ⟨hfield, hrest⟩
      rw [Runtime.selectFields, Runtime.selectFields, hfield]
      cases rt.getPath? (.dict record) (splitPath field) with
      | error exc => rfl
      | ok found =>
          cases found with
          | none => exact ih hrest
          | some value => exact ih hrest

end

/-! ## Fields that stay addressable -/

/-- A path that can be followed in the selected record as in the record itself: its first
segment is a listed field, or it leads nowhere in the record. -/
def Runtime.Kept (rt : Runtime) (fields : List String) (record : Fields) (field : String) : Prop :=
  match splitPath field with
  | [] => False
  | first :: _ =>
      first ∈ fields ∨ rt.getPath? (.dict record) (splitPath field) = .ok none

section

variable {rt : Runtime} {fields : List String} {record selected : Fields} {field : String}

/-- The selected record has the members of the record under the fields without dots. -/
theorem selectRecord_lookup_segment (h : rt.selectRecord fields record = .ok selected)
    {segment : String} (hsegment : segment ∈ splitPath field) :
    selected.lookup segment = if segment ∈ fields then record.lookup segment else none := by
  have hmember : ∀ value, rt.getPath? (.dict record) (splitPath segment) = .ok (some value) ↔
      record.lookup segment = some value := by
    intro value
    rw [splitPath_segment hsegment, getPath?_dict_cons]
    cases record.lookup segment with
    | none => simp
    | some member => simp [Runtime.getPath?, Runtime.walk]
  apply Option.ext
  intro value
  rw [selectRecord_lookup h, hmember]
  by_cases hlisted : segment ∈ fields
  · simp [hlisted]
  · simp [hlisted]

private theorem getPath?_kept (h : rt.selectRecord fields record = .ok selected)
    (hkept : rt.Kept fields record field) :
    rt.getPath? (.dict selected) (splitPath field) =
      rt.getPath? (.dict record) (splitPath field) := by
  unfold Runtime.Kept at hkept
  cases hpath : splitPath field with
  | nil => simp [hpath] at hkept
  | cons first rest =>
      have hfirst : first ∈ splitPath field := hpath ▸ List.mem_cons_self
      rw [hpath] at hkept
      rw [getPath?_dict_cons, selectRecord_lookup_segment h hfirst]
      by_cases hlisted : first ∈ fields
      · rw [if_pos hlisted, getPath?_dict_cons]
      · rw [if_neg hlisted, hkept.resolve_left hlisted]

/-- A listed path leads to the same value as before exactly if it is kept. -/
theorem lookup_kept_iff (h : rt.selectRecord fields record = .ok selected)
    (hfield : field ∈ fields) :
    (∀ value, rt.getPath? (.dict selected) (splitPath field) = .ok (some value) ↔
      rt.getPath? (.dict record) (splitPath field) = .ok (some value)) ↔
        rt.Kept fields record field := by
  constructor
  · intro hsame
    unfold Runtime.Kept
    cases hpath : splitPath field with
    | nil =>
        -- the selected record would be a member of itself
        have hself : rt.getPath? (.dict record) (splitPath field) = .ok (some (.dict record)) := by
          rw [hpath]
          rfl
        have hmember := mem_of_lookup_eq_some ((selectRecord_lookup h field _).mpr ⟨hfield, hself⟩)
        have hfound := (hsame (.dict record)).mpr hself
        rw [hpath] at hfound
        cases hfound
        have hsmaller := List.sizeOf_lt_of_mem hmember
        simp only [Prod.mk.sizeOf_spec, Value.dict.sizeOf_spec] at hsmaller
        omega
    | cons first rest =>
        by_cases hlisted : first ∈ fields
        · exact Or.inl hlisted
        · refine Or.inr ?_
          have hfirst : first ∈ splitPath field := hpath ▸ List.mem_cons_self
          have hnowhere : rt.getPath? (.dict selected) (splitPath field) = .ok none := by
            rw [hpath, getPath?_dict_cons, selectRecord_lookup_segment h hfirst, if_neg hlisted]
          rcases selectFields_found h field hfield with ⟨found, hfound⟩
          cases found with
          | none => rw [← hpath, hfound]
          | some value =>
              have hvalue := (hsame value).mpr hfound
              rw [hnowhere] at hvalue
              cases hvalue
  · intro hkept value
    rw [getPath?_kept h hkept]

/-- A second select changes nothing exactly if every listed path is kept. -/
theorem selectRecord_twice_iff (h : rt.selectRecord fields record = .ok selected) :
    rt.selectRecord fields selected = .ok selected ↔
      ∀ field ∈ fields, rt.Kept fields record field := by
  constructor
  · intro htwice field hfield
    refine (lookup_kept_iff h hfield).mp fun value => ?_
    have hfirst := selectRecord_lookup h field value
    rw [selectRecord_lookup htwice field value] at hfirst
    simpa [hfield] using hfirst
  · intro hkept
    rw [← h]
    exact selectFields_congr fun field hfield => getPath?_kept h (hkept field hfield)

end

/-! ## What reads a record through its paths -/

section

variable (rt : Runtime) (cs : Comparisons) (foreign : ForeignKeys) (names : String → Prop)
variable (record record' : Fields)

/-- Two records that nothing tells apart which reads them through these paths alone. -/
structure ReadsAlike : Prop where
  filter : ∀ predicate : Predicate, (∀ name ∈ predicate.fields, names name) →
    evalPredicate rt cs record' predicate = evalPredicate rt cs record predicate
  select : ∀ fields : List String, (∀ name ∈ fields, names name) →
    rt.selectRecord fields record' = rt.selectRecord fields record
  joinKey : ∀ keys : List String, (∀ name ∈ keys, names name) →
    rt.keyOf foreign record' keys = rt.keyOf foreign record keys
  iterator : ∀ name, names name → ∀ (ctx : NodeContext) (i : Nat) (before after : Records),
    rt.extractValues name ctx i (before ++ record' :: after) =
      rt.extractValues name ctx i (before ++ record :: after)

/-- The paths lead to the same values in both records. -/
def SameLookups : Prop :=
  ∀ name, names name → rt.getPath? (.dict record') (splitPath name) =
    rt.getPath? (.dict record) (splitPath name)

end

section

variable {rt : Runtime} {cs : Comparisons} {foreign : ForeignKeys} {names : String → Prop}
variable {record record' : Fields}

mutual

private theorem evalPredicate_congr (h : SameLookups rt names record record') :
    ∀ predicate : Predicate,
    (∀ name ∈ predicate.fields, names name) →
      evalPredicate rt cs record' predicate = evalPredicate rt cs record predicate
  | .condition test, hnames => by
      have hlookup := h test.field (hnames _ (List.mem_singleton.mpr rfl))
      rw [evalPredicate, evalPredicate, hlookup]
  | .all predicates, hnames => by
      rw [evalPredicate, evalPredicate]
      exact evalAll_congr h predicates hnames
  | .any predicates, hnames => by
      rw [evalPredicate, evalPredicate]
      exact evalAny_congr h predicates hnames
  | .not predicate, hnames => by
      rw [evalPredicate, evalPredicate, evalPredicate_congr h predicate hnames]

private theorem evalAll_congr (h : SameLookups rt names record record') :
    ∀ predicates : List Predicate,
    (∀ name ∈ Predicate.fieldsOfAll predicates, names name) →
      evalAll rt cs record' predicates = evalAll rt cs record predicates
  | [], _ => rfl
  | predicate :: rest, hnames => by
      rcases List.forall_mem_append.mp hnames with ⟨hfirst, hrest⟩
      rw [evalAll, evalAll, evalPredicate_congr h predicate hfirst, evalAll_congr h rest hrest]

private theorem evalAny_congr (h : SameLookups rt names record record') :
    ∀ predicates : List Predicate,
    (∀ name ∈ Predicate.fieldsOfAll predicates, names name) →
      evalAny rt cs record' predicates = evalAny rt cs record predicates
  | [], _ => rfl
  | predicate :: rest, hnames => by
      rcases List.forall_mem_append.mp hnames with ⟨hfirst, hrest⟩
      rw [evalAny, evalAny, evalPredicate_congr h predicate hfirst, evalAny_congr h rest hrest]

end

private theorem keyValues_congr (h : SameLookups rt names record record') {keys : List String}
    (hnames : ∀ name ∈ keys, names name) :
    rt.keyValues record' keys = rt.keyValues record keys := by
  induction keys with
  | nil => rfl
  | cons key rest ih =>
      rcases List.forall_mem_cons.mp hnames with ⟨hkey, hrest⟩
      rw [Runtime.keyValues, Runtime.keyValues, h key hkey, ih hrest]

private theorem extractValues_congr (h : SameLookups rt names record record') {name : String}
    (hname : names name) (ctx : NodeContext) (before after : Records) :
    ∀ i, rt.extractValues name ctx i (before ++ record' :: after) =
      rt.extractValues name ctx i (before ++ record :: after) := by
  induction before with
  | nil =>
      intro i
      rw [List.nil_append, List.nil_append, Runtime.extractValues, Runtime.extractValues,
        h name hname]
  | cons earlier before ih =>
      intro i
      rw [List.cons_append, List.cons_append, Runtime.extractValues, Runtime.extractValues, ih]

/-- Filters, selects, join keys and iterators see nothing of a record but what its paths
lead to. -/
theorem readsAlike_of_lookups (h : SameLookups rt names record record') :
    ReadsAlike rt cs foreign names record record' where
  filter := fun predicate hnames => evalPredicate_congr h predicate hnames
  select := fun _ hnames => selectFields_congr fun field hfield => h field (hnames field hfield)
  joinKey := by
    intro keys hnames
    rw [Runtime.keyOf, Runtime.keyOf, keyValues_congr h hnames]
  iterator := fun _ hname ctx i before after => extractValues_congr h hname ctx before after i

end

/-! ## Selects -/

section

variable (rt : Runtime) (cs : Comparisons) (foreign : ForeignKeys) (fields : List String)
variable (record selected : Fields)

/-- What a select keeps of a record.  Each value stands under its path as one flat key.  A
listed path leads to the same value as before exactly if it is kept, whatever reads the
record through kept paths sees no difference, and a second select changes nothing exactly
if all listed paths are kept. -/
structure SelectKeeps : Prop where
  members : ∀ name value, selected.lookup name = some value ↔
    name ∈ fields ∧ rt.getPath? (.dict record) (splitPath name) = .ok (some value)
  addressable_iff : ∀ field ∈ fields,
    (∀ value, rt.getPath? (.dict selected) (splitPath field) = .ok (some value) ↔
      rt.getPath? (.dict record) (splitPath field) = .ok (some value)) ↔
        rt.Kept fields record field
  reads : ReadsAlike rt cs foreign (fun field => field ∈ fields ∧ rt.Kept fields record field)
    record selected
  twice_iff : rt.selectRecord fields selected = .ok selected ↔
    ∀ field ∈ fields, rt.Kept fields record field

/-- A select keeps its fields as flat keys, and those addressable whose first segment is a
listed field. -/
theorem select_addressable (h : rt.selectRecord fields record = .ok selected) :
    SelectKeeps rt cs foreign fields record selected where
  members := selectRecord_lookup h
  addressable_iff := fun _ hfield => lookup_kept_iff h hfield
  reads := readsAlike_of_lookups fun _ hname => getPath?_kept h hname.2
  twice_iff := selectRecord_twice_iff h

end

/-! ## Streams of records -/

section

variable {rt : Runtime} {cs : Comparisons} {fields : List String} {records out : Records}

private theorem applySelect_eq_ok_iff :
    rt.applySelect fields records = .ok out ↔
      List.Forall₂ (fun record selected => rt.selectRecord fields record = .ok selected)
        records out := by
  induction records generalizing out with
  | nil => simp [Runtime.applySelect, eq_comm]
  | cons record rest ih =>
      rw [Runtime.applySelect, List.forall₂_cons_left_iff]
      cases hselect : rt.selectRecord fields record with
      | error exc => simp
      | ok selected =>
          cases hrest : rt.applySelect fields rest with
          | error exc =>
              simp only [Except.map, reduceCtorEq, false_iff]
              rintro ⟨_, others, _, hothers, _⟩
              rw [ih.mpr hothers] at hrest
              cases hrest
          | ok others =>
              simp only [Except.map, Except.ok.injEq]
              constructor
              · rintro rfl
                exact ⟨selected, others, rfl, ih.mp hrest, rfl⟩
              · rintro ⟨_, others', rfl, hothers, rfl⟩
                rw [ih.mpr hothers] at hrest
                cases hrest
                rfl

/-- A filter through kept paths may be applied before or after the select. -/
theorem applyFilter_applySelect {predicate : Predicate}
    (h : rt.applySelect fields records = .ok out)
    (hkept : ∀ record ∈ records, ∀ field ∈ predicate.fields, rt.Kept fields record field) :
    rt.applyFilter cs predicate out =
      (rt.applyFilter cs predicate records).bind (rt.applySelect fields) := by
  have hselects := applySelect_eq_ok_iff.mp h
  clear h
  induction hselects with
  | nil => rfl
  | @cons record selected rest others hselect _ ih =>
      rcases List.forall_mem_cons.mp hkept with ⟨hrecord, hrest⟩
      have hsame : SameLookups rt (fun field => rt.Kept fields record field) record selected :=
        fun _ hfield => getPath?_kept hselect hfield
      rw [Runtime.applyFilter, Runtime.applyFilter, evalPredicate_congr hsame predicate hrecord,
        ih hrest]
      cases evalPredicate rt cs record predicate with
      | error exc => rfl
      | ok holds =>
          cases holds with
          | false => rfl
          | true =>
              cases rt.applyFilter cs predicate rest with
              | error exc => rfl
              | ok kept => simp [Except.map, Except.bind, Runtime.applySelect, hselect]

end

namespace SelectSamples

/-- Comparisons with an engine that finds no match. -/
def comparisons : Comparisons where
  search := fun _ _ => .ok false
  foreignOp := fun _ _ _ => .ok false

/-- A record with a nested member. -/
def person : Fields :=
  [("id", .int 1), ("meta", .dict [("role", .str "admin")])]

end SelectSamples

open SelectSamples

/-- A path whose first segment is listed beside it. -/
theorem select_addressable_role :
    SelectKeeps Samples.runtime comparisons (fun _ _ _ => none) ["id", "meta", "meta.role"] person
      [("id", .int 1), ("meta", .dict [("role", .str "admin")]), ("meta.role", .str "admin")] :=
  select_addressable Samples.runtime comparisons (fun _ _ _ => none) ["id", "meta", "meta.role"]
    person _ (by decide)

/-- A dotted path alone cannot be followed any more. -/
theorem dotted_field_lost :
    ¬ ∀ (rt : Runtime) (fields : List String) (record selected : Fields),
      rt.selectRecord fields record = .ok selected → ∀ field ∈ fields, ∀ value,
        rt.getPath? (.dict selected) (splitPath field) = .ok (some value) ↔
          rt.getPath? (.dict record) (splitPath field) = .ok (some value) := by
  intro h
  have hselect : Samples.runtime.selectRecord ["meta.role"] person =
      .ok [("meta.role", .str "admin")] := by decide
  have hfound := (h Samples.runtime ["meta.role"] person _ hselect "meta.role"
    (List.mem_singleton.mpr rfl) (.str "admin")).mpr (by decide)
  have hlost : Samples.runtime.getPath? (.dict [("meta.role", .str "admin")])
      (splitPath "meta.role") = .ok none := by decide
  rw [hlost] at hfound
  cases hfound

end EtlTool
