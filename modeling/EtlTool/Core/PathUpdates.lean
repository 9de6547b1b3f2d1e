import EtlTool.Core.PathLookups
import EtlTool.Foundations.NestedUpdates
import EtlTool.Foundations.OrderedDict

/-!
# Assignment through paths

{lit}`set_path` navigates to the container that the parents of the last segment lead to and
assigns its member in place.  A path that leads to a value has a location: the keys and
positions that its segments select on the way, with list indices counted from the front.
Paths spelled differently can have one location.

Main results:

- Theorem {lit}`reaches_iff_locate`: a path leads to what is at its location.
- Theorem {lit}`setPath_of_locate`: assignment through a path that leads to a value replaces
  the value at its location, and nothing else.
- Theorem {lit}`locate?_put_str`: a text in place of a text does not move any location.

Current gaps:

- Objects that occur in a value more than once; {lit}`Core.PathObjects` is about assignment in
  memory.
-/

namespace EtlTool

/-! ## Locations -/

/-- One step into a value: to a member of an object or to an element of a list. -/
inductive PathStep where
  | key (name : String)
  | position (i : Nat)
deriving DecidableEq

/-- The member one step away. -/
def Value.child? (v : Value) (step : PathStep) : Option Value :=
  match v, step with
  | .dict fields, .key name => fields.lookup name
  | .list items, .position i => items[i]?
  | _, _ => Option.none

/-- {lit}`v[step] = w`. -/
def Value.assign (v : Value) (step : PathStep) (w : Value) : Value :=
  match v, step with
  | .dict fields, .key name => .dict (OrderedDict.setPair name w fields)
  | .list items, .position i => .list (items.set i w)
  | v, _ => v

/-- Values as nested objects and lists. -/
def nestedValues : NestedValues Value PathStep where
  child? := Value.child?
  assign := Value.assign
  child?_assign_self := by
    intro v m step w h
    cases v <;> cases step <;> try cases h
    · rename_i items i
      have hrange : i < items.length := (List.getElem?_eq_some_iff.mp h).1
      simp [Value.assign, Value.child?, hrange]
    · simp [Value.assign, Value.child?, OrderedDict.lookup_setPair]
  child?_assign_of_ne := by
    intro v step step' w hne
    cases v <;> cases step <;> try rfl
    · rename_i items i
      cases step' with
      | key name => rfl
      | position j =>
          have hij : i ≠ j := by
            rintro rfl
            exact hne rfl
          simp [Value.assign, Value.child?, List.getElem?_set_ne hij]
    · rename_i fields name
      cases step' with
      | key name' =>
          have hname : name' ≠ name := by
            rintro rfl
            exact hne rfl
          simp [Value.assign, Value.child?, OrderedDict.lookup_setPair, hname]
      | position j => rfl
  assign_child? := by
    intro v m step h
    cases v <;> cases step <;> try cases h
    · rename_i items i
      rcases List.getElem?_eq_some_iff.mp h with ⟨hrange, rfl⟩
      simp [Value.assign]
    · rw [Value.assign, OrderedDict.setPair_of_lookup h]
  assign_assign := by
    intro v step w w'
    cases v <;> cases step <;> try rfl
    · simp [Value.assign]
    · simp [Value.assign, OrderedDict.setPair_setPair]
  assign_comm := by
    intro v m m' step step' w w' hne h h'
    cases v <;> cases step <;> try cases h
    · rename_i items i
      cases step' with
      | key name => cases h'
      | position j =>
          have hij : i ≠ j := by
            rintro rfl
            exact hne rfl
          simp [Value.assign, List.set_comm w w' hij]
    · rename_i fields name
      cases step' with
      | key name' =>
          have hname : name ≠ name' := by
            rintro rfl
            exact hne rfl
          simp [Value.assign, OrderedDict.setPair_comm hname w w' h h']
      | position j => cases h'

theorem child?_assign_self {v m : Value} {step : PathStep} (h : v.child? step = some m)
    (w : Value) : (v.assign step w).child? step = some w :=
  nestedValues.child?_assign_self w h

theorem child?_assign_of_ne {step step' : PathStep} (hne : step' ≠ step) (v w : Value) :
    (v.assign step w).child? step' = v.child? step' :=
  nestedValues.child?_assign_of_ne w hne

theorem at?_step {v w : Value} {step : PathStep} {rest : List PathStep} :
    nestedValues.at? v (step :: rest) = some w ↔
      ∃ m, v.child? step = some m ∧ nestedValues.at? m rest = some w :=
  NestedValues.at?_cons_eq_some

theorem put_step {v m : Value} {step : PathStep} (h : v.child? step = some m)
    (rest : List PathStep) (w : Value) :
    nestedValues.put v (step :: rest) w = v.assign step (nestedValues.put m rest w) :=
  NestedValues.put_cons h rest w

/-- The step that a segment makes, if it leads to a member. -/
def Runtime.pathStep? (rt : Runtime) (current : Value) (segment : String) : Option PathStep :=
  match current with
  | .dict fields => (fields.lookup segment).map fun _ => .key segment
  | .list items =>
      ((rt.pyInt? segment).bind (listIndex? items.length)).map PathStep.position
  | _ => none

/-- The location that a path leads to. -/
def Runtime.locate? (rt : Runtime) (obj : Value) : List String → Option (List PathStep)
  | [] => some []
  | segment :: rest =>
      match rt.pathStep? obj segment with
      | none => none
      | some step =>
          match obj.child? step with
          | none => none
          | some member => (rt.locate? member rest).map (step :: ·)

/-! ## Assignment -/

/-- How an assignment to a member of a container ends. -/
inductive Assignment where
  | assigned (updated : Value)
  | refused
  | badIndex

/-- {lit}`current[leaf] = value`. -/
def Runtime.assignMember (rt : Runtime) (current : Value) (leaf : String) (value : Value) :
    Assignment :=
  match current with
  | .dict fields => .assigned (.dict (OrderedDict.setPair leaf value fields))
  | .list items =>
      if looksLikeInt leaf then
        match rt.pyInt? leaf with
        | none => .badIndex
        | some index =>
            match listIndex? items.length index with
            | some i => .assigned (.list (items.set i value))
            | none => .refused
      else .refused
  | _ => .refused

/-- What an object is after the container that a path leads to was updated in place. -/
def Runtime.updatedAt (rt : Runtime) (obj : Value) (segments : List String) (updated : Value) :
    Value :=
  match rt.locate? obj segments with
  | some location => nestedValues.put obj location updated
  | none => obj

/-- {lit}`set_path(obj, segments, value)`: the object after the assignment. -/
def Runtime.setPath (rt : Runtime) (obj : Value) (segments : List String) (value : Value) :
    Except PathError Value :=
  match segments.getLast? with
  | none => .error (.notFound "cannot set an empty path")
  | some leaf =>
      match rt.getPath obj segments.dropLast with
      | .error error => .error error
      | .ok current =>
          match rt.assignMember current leaf value with
          | .assigned updated => .ok (rt.updatedAt obj segments.dropLast updated)
          | .badIndex => .error (.other intConversionError)
          | .refused =>
              .error (.notFound ("cannot set path " ++ rt.reprStr (".".intercalate segments) ++
                " on " ++ current.typeName))

/-! ## Paths and locations -/

section

variable {rt : Runtime}

/-- One segment leads to the member that is one step away. -/
theorem hop_reached_iff_child {current member : Value} {segment : String} :
    rt.hop current segment = .reached member ↔
      ∃ step, rt.pathStep? current segment = some step ∧ current.child? step = some member := by
  rw [hop_reached_iff]
  cases current with
  | dict fields =>
      cases hlookup : fields.lookup segment with
      | none => simp [Runtime.pathStep?, hlookup]
      | some found => simp [Runtime.pathStep?, Value.child?, hlookup]
  | list items =>
      simp only [reduceCtorEq, false_and, exists_false, false_or, Value.list.injEq,
        exists_eq_left', exists_and_left, Runtime.pathStep?, Option.map_eq_some_iff,
        Option.bind_eq_some_iff]
      constructor
      · rintro ⟨index, hindex, hlow, hhigh, hat⟩
        exact ⟨_, ⟨_, ⟨index, hindex, listIndex?_eq_some_iff.mpr ⟨⟨hlow, hhigh⟩, rfl⟩⟩, rfl⟩, hat⟩
      · rintro ⟨_, ⟨i, ⟨index, hindex, hi⟩, rfl⟩, hat⟩
        rcases listIndex?_eq_some_iff.mp hi with ⟨⟨hlow, hhigh⟩, rfl⟩
        exact ⟨index, hindex, hlow, hhigh, hat⟩
  | _ => simp [Runtime.pathStep?]

theorem locate?_cons_eq_some {obj : Value} {segment : String} {rest : List String}
    {location : List PathStep} :
    rt.locate? obj (segment :: rest) = some location ↔
      ∃ step member others, rt.pathStep? obj segment = some step ∧
        obj.child? step = some member ∧ rt.locate? member rest = some others ∧
          location = step :: others := by
  rw [Runtime.locate?]
  cases rt.pathStep? obj segment with
  | none => simp
  | some step =>
      cases hchild : obj.child? step with
      | none => simp [hchild]
      | some member => simp [hchild, eq_comm]

/-- There is a value at every location of a path. -/
theorem at?_of_locate? {segments : List String} :
    ∀ {obj : Value} {location : List PathStep}, rt.locate? obj segments = some location →
      ∃ value, nestedValues.at? obj location = some value := by
  induction segments with
  | nil =>
      intro obj location h
      cases h
      exact ⟨obj, rfl⟩
  | cons segment rest ih =>
      intro obj location h
      rcases locate?_cons_eq_some.mp h with ⟨step, member, others, _, hchild, hothers, rfl⟩
      rcases ih hothers with ⟨value, hat⟩
      exact ⟨value, at?_step.mpr ⟨member, hchild, hat⟩⟩

/-- A path leads to what is at its location. -/
theorem reaches_iff_locate {segments : List String} :
    ∀ {obj value : Value}, rt.Reaches obj segments value ↔
      ∃ location, rt.locate? obj segments = some location ∧
        nestedValues.at? obj location = some value := by
  induction segments with
  | nil =>
      intro obj value
      constructor
      · intro h
        cases h
        exact ⟨[], rfl, rfl⟩
      · rintro ⟨location, hlocation, hat⟩
        cases hlocation
        cases hat
        exact .here obj
  | cons segment rest ih =>
      intro obj value
      rw [reaches_cons_iff]
      constructor
      · rintro ⟨member, hhop, hrest⟩
        rcases hop_reached_iff_child.mp hhop with ⟨step, hstep, hchild⟩
        rcases ih.mp hrest with ⟨others, hothers, hat⟩
        refine ⟨step :: others, locate?_cons_eq_some.mpr ?_, ?_⟩
        · exact ⟨step, member, others, hstep, hchild, hothers, rfl⟩
        · exact at?_step.mpr ⟨member, hchild, hat⟩
      · rintro ⟨location, hlocation, hat⟩
        rcases locate?_cons_eq_some.mp hlocation with
          ⟨step, member, others, hstep, hchild, hothers, rfl⟩
        rcases at?_step.mp hat with ⟨member', hchild', hat⟩
        cases hchild.symm.trans hchild'
        exact ⟨member, hop_reached_iff_child.mpr ⟨step, hstep, hchild⟩,
          ih.mpr ⟨others, hothers, hat⟩⟩

/-- Where a path of several segments leads, one segment before its end. -/
theorem locate?_concat {leaf : String} {parents : List String} :
    ∀ {obj : Value} {location : List PathStep},
      rt.locate? obj (parents ++ [leaf]) = some location →
        ∃ before current step member, rt.locate? obj parents = some before ∧
          nestedValues.at? obj before = some current ∧
            rt.pathStep? current leaf = some step ∧ current.child? step = some member ∧
              location = before ++ [step] := by
  induction parents with
  | nil =>
      intro obj location h
      rcases locate?_cons_eq_some.mp h with ⟨step, member, others, hstep, hchild, hothers, rfl⟩
      cases hothers
      exact ⟨[], obj, step, member, rfl, rfl, hstep, hchild, rfl⟩
  | cons segment rest ih =>
      intro obj location h
      rcases locate?_cons_eq_some.mp h with ⟨step, next, others, hstep, hchild, hothers, rfl⟩
      rcases ih hothers with ⟨before, current, last, member, hbefore, hat, hlast, hmember, rfl⟩
      refine ⟨step :: before, current, last, member, ?_, ?_, hlast, hmember, rfl⟩
      · exact locate?_cons_eq_some.mpr ⟨step, next, before, hstep, hchild, hbefore, rfl⟩
      · exact at?_step.mpr ⟨next, hchild, hat⟩

/-- The assignment to a member that is there. -/
theorem assignMember_of_pathStep {current : Value} {leaf : String} {step : PathStep}
    (h : rt.pathStep? current leaf = some step) (w : Value) :
    rt.assignMember current leaf w = .assigned (current.assign step w) := by
  cases current with
  | dict fields =>
      rcases Option.map_eq_some_iff.mp h with ⟨_, _, rfl⟩
      rfl
  | list items =>
      rcases Option.map_eq_some_iff.mp h with ⟨i, hi, rfl⟩
      rcases Option.bind_eq_some_iff.mp hi with ⟨index, hindex, hposition⟩
      simp [Runtime.assignMember, looksLikeInt_of_pyInt hindex, hindex, hposition, Value.assign]
  | _ => cases h

/-- Assignment through a path that leads to a value replaces the value at its location, and
nothing else. -/
theorem setPath_of_locate {obj : Value} {segments : List String} {location : List PathStep}
    (hne : segments ≠ []) (h : rt.locate? obj segments = some location) (w : Value) :
    rt.setPath obj segments w = .ok (nestedValues.put obj location w) := by
  rcases List.eq_nil_or_concat segments with rfl | ⟨parents, leaf, rfl⟩
  · exact absurd rfl hne
  · rw [List.concat_eq_append] at h ⊢
    rcases locate?_concat h with ⟨before, current, step, member, hbefore, hat, hstep, hchild, rfl⟩
    have hparents := getPath_ok_iff.mpr (reaches_iff_locate.mpr ⟨before, hbefore, hat⟩)
    have hput : nestedValues.put current [step] w = current.assign step w :=
      put_step hchild [] w
    rw [Runtime.setPath, List.getLast?_concat, List.dropLast_concat]
    simp only [hparents, assignMember_of_pathStep hstep, Runtime.updatedAt, hbefore]
    rw [NestedValues.put_append hat, hput]

/-- Assignment to a member that is there leaves all members where they are. -/
theorem pathStep?_assign {v m : Value} {step : PathStep} (h : v.child? step = some m) (w : Value)
    (segment : String) : rt.pathStep? (v.assign step w) segment = rt.pathStep? v segment := by
  cases v <;> cases step <;> try rfl
  · simp [Value.assign, Runtime.pathStep?]
  · rename_i fields name
    rw [Value.assign, Runtime.pathStep?, Runtime.pathStep?, OrderedDict.lookup_setPair]
    by_cases hname : segment = name
    · subst hname
      have hlookup : fields.lookup segment = some m := h
      rw [if_pos rfl, hlookup]
      rfl
    · rw [if_neg hname]

/-- A value with the same locations inside does not move any location. -/
theorem locate?_put {location : List PathStep} {m w : Value}
    (hsame : ∀ segments, rt.locate? w segments = rt.locate? m segments) :
    ∀ {obj : Value}, nestedValues.at? obj location = some m →
      ∀ segments, rt.locate? (nestedValues.put obj location w) segments =
        rt.locate? obj segments := by
  induction location with
  | nil =>
      intro obj hat segments
      cases hat
      exact hsame segments
  | cons step rest ih =>
      intro obj hat segments
      rcases at?_step.mp hat with ⟨next, hchild, hrest⟩
      rw [put_step hchild]
      cases segments with
      | nil => rfl
      | cons segment others =>
          rw [Runtime.locate?, Runtime.locate?, pathStep?_assign hchild]
          cases rt.pathStep? obj segment with
          | none => rfl
          | some step' =>
              by_cases hstep : step' = step
              · subst hstep
                simp only [child?_assign_self hchild, hchild, ih hrest]
              · simp only [child?_assign_of_ne hstep]

/-- A text has no members. -/
theorem locate?_str (s t : String) (segments : List String) :
    rt.locate? (.str s) segments = rt.locate? (.str t) segments := by
  cases segments with
  | nil => rfl
  | cons segment rest => rfl

/-- A text in place of a text does not move any location. -/
theorem locate?_put_str {obj : Value} {location : List PathStep} {s : String}
    (h : nestedValues.at? obj location = some (.str s)) (t : String) (segments : List String) :
    rt.locate? (nestedValues.put obj location (.str t)) segments = rt.locate? obj segments :=
  locate?_put (locate?_str t s) h segments

end

end EtlTool
