import EtlTool.Core.PythonValues

/-!
# Dotted paths

The path dialect shared by references, predicates, join keys, pagination and
iterators: dot-separated segments, empty segments dropped, where a segment that
looks like an integer indexes into a list.

Main results:

- Theorem {lit}`getPath_badIndex_iff`: navigation escapes with a
  {lit}`ValueError` exactly when it meets a list with a segment that looks like
  an integer and is not one.
- Theorem {lit}`getPath?_eq`: the sentinel form finds what the raising form
  returns.
- Theorem {lit}`Value.Hereditary.walk`: what a path leads to has every property that
  values hand on to their members.
-/

namespace EtlTool

/-- {lit}`split_path`: the nonempty segments between dots. -/
def splitPath (path : String) : List String :=
  ((path.toList.splitOn '.').map String.ofList).filter fun segment => segment ≠ ""

/-- How {lit}`get_path` ends without a value and without a default. -/
inductive PathError where
  /-- {lit}`PathNotFoundError` with its message. -/
  | notFound (message : String)
  /-- Any other exception: {lit}`int(segment)` failed. -/
  | other (exc : PyException)
deriving DecidableEq

/-- Where following the segments of a path ends. -/
inductive Walk where
  | found (value : Value)
  | missing (traversed : List String)
  | badIndex (segment : String)
deriving DecidableEq

/-- Position of an integer index in a list of the given length, negative indices
counting from the end. -/
def listIndex? (length : Nat) (index : Int) : Option Nat :=
  if -(length : Int) ≤ index ∧ index < length then
    some (if index < 0 then (index + length).toNat else index.toNat)
  else none

/-- One segment of a path: the member it selects. -/
inductive Hop where
  | reached (value : Value)
  | nowhere
  | badIndex

/-- Follow one segment from the current value. -/
def Runtime.hop (rt : Runtime) (current : Value) (segment : String) : Hop :=
  match current with
  | .dict fields =>
      match fields.lookup segment with
      | some value => .reached value
      | none => .nowhere
  | .list items =>
      if looksLikeInt segment then
        match rt.pyInt? segment with
        | none => .badIndex
        | some index =>
            match (listIndex? items.length index).bind (items[·]?) with
            | some value => .reached value
            | none => .nowhere
      else .nowhere
  | _ => .nowhere

/-- The loop of {lit}`get_path`. -/
def Runtime.walk (rt : Runtime) (current : Value) (traversed : List String) :
    List String → Walk
  | [] => .found current
  | segment :: rest =>
      match rt.hop current segment with
      | .reached value => rt.walk value (traversed ++ [segment]) rest
      | .nowhere => .missing (traversed ++ [segment])
      | .badIndex => .badIndex segment

/-- {lit}`get_path(obj, segments)` without a default. -/
def Runtime.getPath (rt : Runtime) (obj : Value) (segments : List String) :
    Except PathError Value :=
  match rt.walk obj [] segments with
  | .found value => .ok value
  | .missing traversed =>
      .error (.notFound ("path " ++ rt.reprStr (".".intercalate segments) ++
        " not found (failed at " ++ rt.reprStr (".".intercalate traversed) ++ ")"))
  | .badIndex _ => .error (.other intConversionError)

/-- {lit}`get_path(obj, segments, default=sentinel)`, where {lean}`none` stands
for the caller's sentinel. -/
def Runtime.getPath? (rt : Runtime) (obj : Value) (segments : List String) :
    Except PyException (Option Value) :=
  match rt.walk obj [] segments with
  | .found value => .ok (some value)
  | .missing _ => .ok none
  | .badIndex _ => .error intConversionError

/-- Following the segments meets a list with a segment that looks like an
integer but that {lit}`int` rejects. -/
def Runtime.MeetsBadIndex (rt : Runtime) : Value → List String → Prop
  | _, [] => False
  | current, segment :: rest =>
      (∃ items, current = .list items ∧ looksLikeInt segment = true ∧ rt.pyInt? segment = none) ∨
        ∃ value, rt.hop current segment = .reached value ∧ rt.MeetsBadIndex value rest

theorem hop_badIndex_iff (rt : Runtime) (current : Value) (segment : String) :
    rt.hop current segment = .badIndex ↔
      ∃ items, current = .list items ∧ looksLikeInt segment = true ∧
        rt.pyInt? segment = none := by
  cases current with
  | list items =>
      by_cases hint : looksLikeInt segment = true
      · cases hparse : rt.pyInt? segment with
        | none => simp [Runtime.hop, hint, hparse]
        | some index =>
            cases hitem : (listIndex? items.length index).bind (items[·]?) <;>
              simp [Runtime.hop, hint, hparse, hitem]
      · simp [Runtime.hop, hint]
  | dict fields =>
      cases hlookup : fields.lookup segment <;> simp [Runtime.hop, hlookup]
  | _ => simp [Runtime.hop]

private theorem walk_badIndex_iff (rt : Runtime) (segments : List String) :
    ∀ (current : Value) (traversed : List String),
      (∃ segment, rt.walk current traversed segments = .badIndex segment) ↔
        rt.MeetsBadIndex current segments := by
  induction segments with
  | nil => intro current traversed; simp [Runtime.walk, Runtime.MeetsBadIndex]
  | cons segment rest ih =>
      intro current traversed
      rw [Runtime.MeetsBadIndex, ← hop_badIndex_iff]
      cases hhop : rt.hop current segment with
      | reached value => simp [Runtime.walk, hhop, ih]
      | nowhere => simp [Runtime.walk, hhop]
      | badIndex => simp [Runtime.walk, hhop]

/-- Navigation raises something other than {lit}`PathNotFoundError` exactly when
it meets a list with a segment that only looks like an integer. -/
theorem getPath_badIndex_iff (rt : Runtime) (obj : Value) (segments : List String) :
    (∃ exc, rt.getPath obj segments = .error (.other exc)) ↔ rt.MeetsBadIndex obj segments := by
  rw [← walk_badIndex_iff rt segments obj []]
  unfold Runtime.getPath
  cases rt.walk obj [] segments <;> simp

/-- The sentinel form finds what the raising form returns. -/
theorem getPath?_eq (rt : Runtime) (obj : Value) (segments : List String) :
    rt.getPath? obj segments =
      match rt.getPath obj segments with
      | .ok value => .ok (some value)
      | .error (.notFound _) => .ok none
      | .error (.other exc) => .error exc := by
  unfold Runtime.getPath? Runtime.getPath
  cases rt.walk obj [] segments <;> rfl

theorem getPath?_error_iff (rt : Runtime) (obj : Value) (segments : List String) :
    (∃ exc, rt.getPath? obj segments = .error exc) ↔ rt.MeetsBadIndex obj segments := by
  rw [← getPath_badIndex_iff, getPath?_eq]
  cases h : rt.getPath obj segments with
  | ok value => simp
  | error e => cases e <;> simp

/-! ## Properties of members -/

theorem mem_of_lookup_eq_some {fields : Fields} {key : String} {value : Value}
    (h : fields.lookup key = some value) : (key, value) ∈ fields := by
  rcases List.lookup_eq_some_iff.mp h with ⟨before, after, rfl, _⟩
  simp

/-- A property that a dict or a list hands on to its members. -/
structure Value.Hereditary (p : Value → Prop) : Prop where
  dict : ∀ fields, p (.dict fields) → ∀ field ∈ fields, p field.2
  list : ∀ items, p (.list items) → ∀ item ∈ items, p item

/-- One segment of a path leads to a member. -/
theorem Value.Hereditary.hop {p : Value → Prop} (h : Value.Hereditary p) {rt : Runtime}
    {current value : Value} {segment : String} (hcurrent : p current)
    (hhop : rt.hop current segment = .reached value) : p value := by
  cases current with
  | dict fields =>
      cases hlookup : fields.lookup segment with
      | none => simp [Runtime.hop, hlookup] at hhop
      | some found =>
          simp only [Runtime.hop, hlookup, Hop.reached.injEq] at hhop
          subst hhop
          exact h.dict fields hcurrent _ (mem_of_lookup_eq_some hlookup)
  | list items =>
      simp only [Runtime.hop] at hhop
      split at hhop
      · split at hhop
        · cases hhop
        · split at hhop
          · rename_i found hfound
            cases hhop
            rcases Option.bind_eq_some_iff.mp hfound with ⟨position, _, hat⟩
            exact h.list items hcurrent _ (List.mem_of_getElem? hat)
          · cases hhop
      · cases hhop
  | _ => simp [Runtime.hop] at hhop

/-- What a path leads to has the property of the value where the path starts. -/
theorem Value.Hereditary.walk {p : Value → Prop} (h : Value.Hereditary p) {rt : Runtime}
    {segments : List String} {current value : Value} {traversed : List String}
    (hcurrent : p current) (hwalk : rt.walk current traversed segments = .found value) :
    p value := by
  induction segments generalizing current traversed with
  | nil =>
      cases hwalk
      exact hcurrent
  | cons segment rest ih =>
      cases hhop : rt.hop current segment with
      | reached next =>
          rw [Runtime.walk, hhop] at hwalk
          exact ih (h.hop hcurrent hhop) hwalk
      | nowhere => simp [Runtime.walk, hhop] at hwalk
      | badIndex => simp [Runtime.walk, hhop] at hwalk

end EtlTool
