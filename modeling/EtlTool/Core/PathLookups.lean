import EtlTool.Engine.Samples

/-!
# Looking up paths

One function looks a path up with a default and without one: the sentinel of the module
stands for no default.  The test for a path passes that very sentinel, so it runs the
form that raises.

Main results:

- Theorem {lit}`walk_found_iff`: the loop of {lit}`get_path` finds the value that the
  segments lead to.
- Theorem {lit}`getPathDefault_iff`: {lit}`get_path` returns or raises as it should unless it
  meets a list with a segment that only looks like an integer.
- Theorem {lit}`hasPath_ne_false`: {lit}`has_path` never returns false.
- Theorem {lit}`looksUp_iff`: lookups and the test are as they should be exactly for the
  paths that lead to a value.
-/

namespace EtlTool

/-! ## Lookups -/

/-- A path argument: a dotted text or a sequence of segments. -/
inductive PathArgument where
  | text (path : String)
  | sequence (segments : List String)

/-- {lit}`split_path(path) if isinstance(path, str) else list(path)`. -/
def PathArgument.segments : PathArgument → List String
  | .text path => splitPath path
  | .sequence segments => segments

/-- {lit}`get_path(obj, path, default)`, where {lean}`none` stands for the sentinel
{lit}`_MISSING` of the module. -/
def Runtime.getPathDefault (rt : Runtime) (obj : Value) (path : PathArgument)
    (default : Option Value) : Except PathError Value :=
  match rt.getPath obj path.segments, default with
  | .error (.notFound _), some value => .ok value
  | outcome, _ => outcome

/-- {lit}`has_path`. -/
def Runtime.hasPath (rt : Runtime) (obj : Value) (path : PathArgument) : Except PathError Bool :=
  -- a value that is returned is not the sentinel
  (rt.getPathDefault obj path none).map fun _ => true

/-! ## Where a path leads -/

/-- The segments lead from one value to another: a member of an object by its key, an
element of a list by an integer in range. -/
inductive Runtime.Reaches (rt : Runtime) : Value → List String → Value → Prop where
  | here (value : Value) : rt.Reaches value [] value
  | member {fields : Fields} {key : String} {value target : Value} {rest : List String}
      (hmember : fields.lookup key = some value) (hrest : rt.Reaches value rest target) :
      rt.Reaches (.dict fields) (key :: rest) target
  | element {items : List Value} {segment : String} {index : Int} {value target : Value}
      {rest : List String} (hindex : rt.pyInt? segment = some index)
      (hlow : -(items.length : Int) ≤ index) (hhigh : index < items.length)
      (hat : items[(if index < 0 then index + items.length else index).toNat]? = some value)
      (hrest : rt.Reaches value rest target) :
      rt.Reaches (.list items) (segment :: rest) target

private theorem isDigitChar_of_mapM {digits : List Char} {values : List Nat}
    (hvalues : digits.mapM decimalValue? = some values) : ∀ c ∈ digits, isDigitChar c = true := by
  induction digits generalizing values with
  | nil => exact List.forall_mem_nil _
  | cons c digits ih =>
      rw [List.mapM_cons] at hvalues
      rcases Option.bind_eq_some_iff.mp hvalues with ⟨value, hvalue, hrest⟩
      rcases Option.bind_eq_some_iff.mp hrest with ⟨values', hvalues', _⟩
      refine List.forall_mem_cons.mpr ⟨?_, ih hvalues'⟩
      rw [isDigitChar, hvalue]
      rfl

private theorem isDigitChar_of_decimalNumber {digits : List Char} {n : Nat}
    (h : decimalNumber? digits = some n) : ∀ c ∈ digits, isDigitChar c = true := by
  rcases Option.map_eq_some_iff.mp h with ⟨values, hvalues, _⟩
  exact isDigitChar_of_mapM hvalues

private theorem isDigitChar_minus : isDigitChar '-' = false := by
  decide

/-- What {lit}`int` accepts passes the test for an index. -/
theorem looksLikeInt_of_pyInt {rt : Runtime} {segment : String} {index : Int}
    (h : rt.pyInt? segment = some index) : looksLikeInt segment = true := by
  have hdigits : ∀ digits : List Char, digits ≠ [] → (∀ c ∈ digits, isDigitChar c = true) →
      (!digits.isEmpty && digits.all isDigitChar) = true := by
    intro digits hne hall
    rw [Bool.and_eq_true, List.all_eq_true, Bool.not_eq_true', List.isEmpty_eq_false_iff]
    exact ⟨hne, hall⟩
  have hstart : ∀ digits : List Char, (∀ c ∈ digits, isDigitChar c = true) →
      digits.dropWhile (· = '-') = digits := by
    intro digits hall
    cases digits with
    | nil => rfl
    | cons c digits =>
        refine List.dropWhile_cons_of_neg ?_
        rw [decide_eq_true_iff]
        rintro rfl
        have hminus := hall '-' List.mem_cons_self
        rw [isDigitChar_minus] at hminus
        cases hminus
  unfold Runtime.pyInt? at h
  unfold looksLikeInt
  split at h
  · rename_i digits htext
    split at h
    · cases h
    · rename_i hguard
      have hall : ∀ c ∈ digits, isDigitChar c = true := by
        cases hn : decimalNumber? digits with
        | none => simp [hn] at h
        | some n => exact isDigitChar_of_decimalNumber hn
      have hne : digits ≠ [] := by
        rintro rfl
        exact hguard rfl
      rw [htext, List.dropWhile_cons_of_pos (by decide), hstart digits hall]
      exact hdigits digits hne hall
  · split at h
    · cases h
    · rename_i hguard
      have hall : ∀ c ∈ segment.toList, isDigitChar c = true := by
        cases hn : decimalNumber? segment.toList with
        | none => simp [hn] at h
        | some n => exact isDigitChar_of_decimalNumber hn
      have hne : segment.toList ≠ [] := by
        intro hnil
        rw [hnil] at hguard
        exact hguard rfl
      rw [hstart _ hall]
      exact hdigits _ hne hall

theorem listIndex?_eq_some_iff {length : Nat} {index : Int} {position : Nat} :
    listIndex? length index = some position ↔
      (-(length : Int) ≤ index ∧ index < length) ∧
        (if index < 0 then index + length else index).toNat = position := by
  unfold listIndex?
  split
  · rename_i hrange
    rw [Option.some.injEq, apply_ite Int.toNat]
    constructor
    · intro h
      exact ⟨hrange, h⟩
    · intro h
      exact h.2
  · rename_i hrange
    constructor
    · intro h
      cases h
    · intro h
      exact absurd h.1 hrange

theorem listIndex?_lt {length : Nat} {index : Int} {position : Nat}
    (h : listIndex? length index = some position) : position < length := by
  rcases listIndex?_eq_some_iff.mp h with ⟨⟨hlow, hhigh⟩, rfl⟩
  split <;> omega

/-- One segment leads where the loop goes. -/
theorem hop_reached_iff {rt : Runtime} {current value : Value} {segment : String} :
    rt.hop current segment = .reached value ↔
      (∃ fields, current = .dict fields ∧ fields.lookup segment = some value) ∨
        ∃ items index, current = .list items ∧ rt.pyInt? segment = some index ∧
          -(items.length : Int) ≤ index ∧ index < items.length ∧
            items[(if index < 0 then index + items.length else index).toNat]? = some value := by
  cases current with
  | dict fields =>
      cases hlookup : fields.lookup segment <;> simp [Runtime.hop, hlookup]
  | list items =>
      simp only [reduceCtorEq, false_and, exists_false, false_or, Value.list.injEq,
        exists_eq_left', exists_and_left]
      constructor
      · intro h
        unfold Runtime.hop at h
        dsimp only at h
        split at h
        · split at h
          · cases h
          · rename_i index hindex
            cases hitem : (listIndex? items.length index).bind (items[·]?) with
            | none => simp [hitem] at h
            | some found =>
                simp only [hitem, Hop.reached.injEq] at h
                subst h
                rcases Option.bind_eq_some_iff.mp hitem with ⟨position, hposition, hat⟩
                rcases listIndex?_eq_some_iff.mp hposition with ⟨⟨hlow, hhigh⟩, rfl⟩
                exact ⟨index, hindex, hlow, hhigh, hat⟩
        · cases h
      · rintro ⟨index, hindex, hlow, hhigh, hat⟩
        have hposition := listIndex?_eq_some_iff.mpr ⟨⟨hlow, hhigh⟩, rfl⟩
        simp [Runtime.hop, looksLikeInt_of_pyInt hindex, hindex, hposition, hat]
  | none => simp [Runtime.hop]
  | bool b => simp [Runtime.hop]
  | int z => simp [Runtime.hop]
  | float x => simp [Runtime.hop]
  | str s => simp [Runtime.hop]
  | foreign name text repr => simp [Runtime.hop]

/-- The loop finds the value that the segments lead to. -/
theorem walk_found_iff {rt : Runtime} {segments : List String} :
    ∀ {current value : Value} {traversed : List String},
      rt.walk current traversed segments = .found value ↔ rt.Reaches current segments value := by
  induction segments with
  | nil =>
      intro current value traversed
      constructor
      · intro h
        cases h
        exact .here current
      · intro h
        cases h
        rfl
  | cons segment rest ih =>
      intro current value traversed
      constructor
      · intro h
        rw [Runtime.walk] at h
        cases hhop : rt.hop current segment with
        | reached next =>
            rw [hhop] at h
            have hrest := ih.mp h
            rcases hop_reached_iff.mp hhop with
              ⟨fields, rfl, hmember⟩ | ⟨items, index, rfl, hindex, hlow, hhigh, hat⟩
            · exact .member hmember hrest
            · exact .element hindex hlow hhigh hat hrest
        | nowhere => simp [hhop] at h
        | badIndex => simp [hhop] at h
      · intro h
        rw [Runtime.walk]
        cases h with
        | member hmember hrest =>
            rw [hop_reached_iff.mpr (Or.inl ⟨_, rfl, hmember⟩)]
            exact ih.mpr hrest
        | element hindex hlow hhigh hat hrest =>
            rw [hop_reached_iff.mpr (Or.inr ⟨_, _, rfl, hindex, hlow, hhigh, hat⟩)]
            exact ih.mpr hrest

theorem reaches_cons_iff {rt : Runtime} {current value : Value} {segment : String}
    {rest : List String} :
    rt.Reaches current (segment :: rest) value ↔
      ∃ member, rt.hop current segment = .reached member ∧ rt.Reaches member rest value := by
  have hwalk : rt.walk current [] (segment :: rest) = .found value ↔
      rt.Reaches current (segment :: rest) value := walk_found_iff
  rw [← hwalk, Runtime.walk]
  cases rt.hop current segment with
  | reached member => simp [walk_found_iff]
  | nowhere => simp
  | badIndex => simp

/-- A path leads to one value at most. -/
theorem Runtime.Reaches.unique {rt : Runtime} {obj value value' : Value} {segments : List String}
    (h : rt.Reaches obj segments value) (h' : rt.Reaches obj segments value') :
    value = value' := by
  have hwalk : rt.walk obj [] segments = .found value := walk_found_iff.mpr h
  rw [walk_found_iff.mpr h'] at hwalk
  exact (Walk.found.inj hwalk).symm

theorem getPath_ok_iff {rt : Runtime} {obj value : Value} {segments : List String} :
    rt.getPath obj segments = .ok value ↔ rt.Reaches obj segments value := by
  have hwalk : rt.walk obj [] segments = .found value ↔ rt.Reaches obj segments value :=
    walk_found_iff
  rw [← hwalk, Runtime.getPath]
  cases rt.walk obj [] segments <;> simp

/-! ## What a lookup should do -/

section

variable (rt : Runtime) (obj : Value) (path : PathArgument)

/-- A lookup without a default returns the value that the path leads to, or raises
{lit}`PathNotFoundError` if there is none. -/
def Runtime.Finds : Prop :=
  (∃ value, rt.Reaches obj path.segments value ∧
    rt.getPathDefault obj path none = .ok value) ∨
  ((¬ ∃ value, rt.Reaches obj path.segments value) ∧
    ∃ message, rt.getPathDefault obj path none = .error (.notFound message))

/-- A lookup with a default returns the value that the path leads to, or the default if
there is none. -/
def Runtime.FindsOr (default : Value) : Prop :=
  (∃ value, rt.Reaches obj path.segments value ∧
    rt.getPathDefault obj path (some default) = .ok value) ∨
  ((¬ ∃ value, rt.Reaches obj path.segments value) ∧
    rt.getPathDefault obj path (some default) = .ok default)

/-- {lit}`has_path` returns whether the lookup without a default succeeds. -/
def Runtime.Decides : Prop :=
  ∃ found, rt.hasPath obj path = .ok found ∧
    (found = true ↔ ∃ value, rt.getPathDefault obj path none = .ok value)

/-- What callers of the three forms may expect. -/
structure Runtime.LooksUp : Prop where
  finds : rt.Finds obj path
  findsOr : ∀ default, rt.FindsOr obj path default
  decides : rt.Decides obj path

end

section

variable {rt : Runtime} {obj : Value} {path : PathArgument}

theorem getPathDefault_none :
    rt.getPathDefault obj path none = rt.getPath obj path.segments := by
  unfold Runtime.getPathDefault
  split
  · rename_i hdefault
    cases hdefault
  · rfl

/-- A lookup does what it should unless it meets a list with a segment that only looks like
an integer. -/
theorem getPathDefault_iff :
    (rt.Finds obj path ∧ ∀ default, rt.FindsOr obj path default) ↔
      ¬ rt.MeetsBadIndex obj path.segments := by
  rw [← getPath_badIndex_iff]
  unfold Runtime.Finds Runtime.FindsOr
  simp only [getPathDefault_none, ← getPath_ok_iff]
  unfold Runtime.getPathDefault
  cases rt.getPath obj path.segments with
  | ok value => simp
  | error failure => cases failure <;> simp

/-- A path whose indices parse is looked up without an exception. -/
theorem not_meetsBadIndex {segments : List String}
    (h : ∀ segment ∈ segments, looksLikeInt segment = true → (rt.pyInt? segment).isSome = true) :
    ∀ obj : Value, ¬ rt.MeetsBadIndex obj segments := by
  induction segments with
  | nil =>
      intro obj hmeets
      exact hmeets
  | cons segment rest ih =>
      rcases List.forall_mem_cons.mp h with ⟨hsegment, hrest⟩
      rintro obj (⟨items, _, hlooks, hparse⟩ | ⟨member, _, hmeets⟩)
      · have hsome := hsegment hlooks
        rw [hparse] at hsome
        cases hsome
      · exact ih hrest member hmeets

/-- {lit}`has_path` never returns false: where it does not return true, it raises. -/
theorem hasPath_ne_false : rt.hasPath obj path ≠ .ok false := by
  unfold Runtime.hasPath
  cases rt.getPathDefault obj path none with
  | ok value => simp [Except.map]
  | error failure => simp [Except.map]

/-- Lookups and the test are as they should be exactly for the paths that lead to a
value. -/
theorem looksUp_iff (rt : Runtime) (obj : Value) (path : PathArgument) :
    rt.LooksUp obj path ↔ ∃ value, rt.Reaches obj path.segments value := by
  constructor
  · intro h
    rcases h.decides with ⟨found, hhas, hfound⟩
    cases found with
    | false => exact absurd hhas hasPath_ne_false
    | true =>
        rcases hfound.mp rfl with ⟨value, hvalue⟩
        rw [getPathDefault_none] at hvalue
        exact ⟨value, getPath_ok_iff.mp hvalue⟩
  · rintro ⟨value, hvalue⟩
    have hget := getPath_ok_iff.mpr hvalue
    have hbad : ¬ rt.MeetsBadIndex obj path.segments := by
      rw [← getPath_badIndex_iff, hget]
      rintro ⟨exc, hexc⟩
      cases hexc
    have hlookups := getPathDefault_iff.mpr hbad
    have hnone : rt.getPathDefault obj path none = .ok value := by
      rw [getPathDefault_none, hget]
    refine ⟨hlookups.1, hlookups.2, true, ?_, ?_⟩
    · rw [Runtime.hasPath, hnone]
      rfl
    · exact ⟨fun _ => ⟨value, hnone⟩, fun _ => rfl⟩

end

/-- The test for a member that is not there raises. -/
theorem hasPath_raises :
    ¬ ∀ (rt : Runtime) (obj : Value) (path : PathArgument), rt.LooksUp obj path := by
  intro h
  have hlooks := h Samples.runtime (.dict [("a", .int 1)]) (.sequence ["b"])
  rcases hlooks.decides with ⟨found, hhas, _⟩
  have hmissing : List.lookup "b" [("a", Value.int 1)] = none := rfl
  simp [Runtime.hasPath, Runtime.getPathDefault, Runtime.getPath, Runtime.walk, Runtime.hop,
    PathArgument.segments, Except.map, hmissing] at hhas

end EtlTool
