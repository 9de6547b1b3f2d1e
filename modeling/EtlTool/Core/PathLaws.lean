import EtlTool.Core.PathUpdates

/-!
# Laws of assignment through paths

What callers of {lit}`set_path` may expect: it assigns or raises, a value that was assigned
is read back, paths that lie apart see nothing of it, and the second of two assignments
wins.  Paths are compared as the steps that they make in an object, so that the spelling of
a list index or an empty segment makes no difference.

Main results:

- Theorem {lit}`setPath_ok_iff`: the container whose member {lit}`set_path` assigns.
- Theorem {lit}`setPath_badIndex_iff`: an assignment escapes with a {lit}`ValueError` exactly
  when its path meets a list with a segment that only looks like an integer.
- Theorem {lit}`setPath_laws`: the laws, for every path without such a segment.
-/

namespace EtlTool

/-! ## Paths as steps -/

/-- The place that a segment names in a container, whether or not there is a member. -/
def Runtime.place? (rt : Runtime) (current : Value) (segment : String) : Option PathStep :=
  match current with
  | .dict _ => some (.key segment)
  | .list items => ((rt.pyInt? segment).bind (listIndex? items.length)).map PathStep.position
  | _ => none

/-- The steps of a path in an object, with list indices counted from the front.  A segment
that names no place stands for itself. -/
def Runtime.normalPath (rt : Runtime) (obj : Value) : List String → List PathStep
  | [] => []
  | segment :: rest =>
      let step := (rt.place? obj segment).getD (.key segment)
      step :: match obj.child? step with
        | some member => rt.normalPath member rest
        | none => rest.map PathStep.key

/-- {lit}`set_path(obj, path, value)`: what the object is afterwards, and how the call
ends. -/
def Runtime.setPathCall (rt : Runtime) (obj : Value) (path : PathArgument) (value : Value) :
    Value × Except PathError Unit :=
  match rt.setPath obj path.segments value with
  | .ok updated => (updated, .ok ())
  | .error error => (obj, .error error)

section

variable {rt : Runtime}

/-- A place in a list is a position in range. -/
theorem place?_list {items : List Value} {segment : String} {step : PathStep}
    (h : rt.place? (.list items) segment = some step) :
    ∃ i, i < items.length ∧ step = .position i := by
  rcases Option.map_eq_some_iff.mp h with ⟨i, hi, rfl⟩
  rcases Option.bind_eq_some_iff.mp hi with ⟨index, _, hposition⟩
  exact ⟨i, listIndex?_lt hposition, rfl⟩

/-- A segment makes a step if there is a member at the place that it names. -/
theorem pathStep?_eq_some_iff {current : Value} {segment : String} {step : PathStep} :
    rt.pathStep? current segment = some step ↔
      rt.place? current segment = some step ∧ ∃ member, current.child? step = some member := by
  cases current with
  | dict fields =>
      cases hlookup : fields.lookup segment with
      | none =>
          simp only [Runtime.pathStep?, hlookup, Runtime.place?, Option.map_none, reduceCtorEq,
            Option.some.injEq, false_iff]
          rintro ⟨rfl, member, hmember⟩
          rw [Value.child?, hlookup] at hmember
          cases hmember
      | some found =>
          simp only [Runtime.pathStep?, hlookup, Runtime.place?, Option.map_some,
            Option.some.injEq]
          constructor
          · rintro rfl
            exact ⟨rfl, found, hlookup⟩
          · exact And.left
  | list items =>
      refine ⟨fun h => ⟨h, ?_⟩, And.left⟩
      rcases place?_list h with ⟨i, hi, rfl⟩
      exact ⟨items[i], List.getElem?_eq_getElem hi⟩
  | _ => simp [Runtime.pathStep?, Runtime.place?]

/-- A segment leads to the member at the place that it names. -/
theorem hop_reached_iff_place {current member : Value} {segment : String} :
    rt.hop current segment = .reached member ↔
      ∃ step, rt.place? current segment = some step ∧ current.child? step = some member := by
  rw [hop_reached_iff_child]
  refine exists_congr fun step => ?_
  rw [pathStep?_eq_some_iff]
  constructor
  · rintro ⟨⟨hplace, _⟩, hchild⟩
    exact ⟨hplace, hchild⟩
  · rintro ⟨hplace, hchild⟩
    exact ⟨⟨hplace, member, hchild⟩, hchild⟩

/-! ## One assignment -/

/-- An assignment leaves every place where it is. -/
theorem place?_assign (v w : Value) (step : PathStep) (segment : String) :
    rt.place? (v.assign step w) segment = rt.place? v segment := by
  cases v <;> cases step <;> try rfl
  simp [Value.assign, Runtime.place?]

/-- What is assigned at a place is there afterwards. -/
theorem child?_assign_place {current : Value} {segment : String} {step : PathStep}
    (h : rt.place? current segment = some step) (w : Value) :
    (current.assign step w).child? step = some w := by
  cases current with
  | dict fields =>
      cases h
      simp [Value.assign, Value.child?, OrderedDict.lookup_setPair]
  | list items =>
      rcases place?_list h with ⟨i, hi, rfl⟩
      simp [Value.assign, Value.child?, hi]
  | _ => cases h

/-- An assignment reaches the member at the place that the last segment names. -/
theorem assignMember_assigned_iff {current updated : Value} {leaf : String} {w : Value} :
    rt.assignMember current leaf w = .assigned updated ↔
      ∃ step, rt.place? current leaf = some step ∧ updated = current.assign step w := by
  cases current with
  | dict fields => simp [Runtime.assignMember, Runtime.place?, Value.assign, eq_comm]
  | list items =>
      simp only [Runtime.assignMember, Runtime.place?, Option.map_eq_some_iff,
        Option.bind_eq_some_iff]
      cases hindex : rt.pyInt? leaf with
      | none => cases looksLikeInt leaf <;> simp
      | some index =>
          rw [looksLikeInt_of_pyInt hindex]
          cases hposition : listIndex? items.length index with
          | none => simp [hposition]
          | some i => simp [hposition, Value.assign, eq_comm]
  | _ => simp [Runtime.assignMember, Runtime.place?]

/-- An assignment does not make a segment an index, nor an index no index. -/
theorem hop_assign_badIndex_iff (v w : Value) (step : PathStep) (segment : String) :
    rt.hop (v.assign step w) segment = .badIndex ↔ rt.hop v segment = .badIndex := by
  rw [hop_badIndex_iff, hop_badIndex_iff]
  cases v <;> cases step <;> simp [Value.assign]

/-- An assignment at another place does not change where a segment leads. -/
theorem hop_assign_of_ne {v : Value} {step : PathStep} {segment : String}
    (hne : rt.place? v segment ≠ some step) (w : Value) :
    rt.hop (v.assign step w) segment = rt.hop v segment := by
  have hreached : ∀ member, rt.hop (v.assign step w) segment = .reached member ↔
      rt.hop v segment = .reached member := by
    intro member
    rw [hop_reached_iff_place, hop_reached_iff_place, place?_assign]
    refine exists_congr fun step' => and_congr_right fun hplace => ?_
    have hother : step' ≠ step := by
      rintro rfl
      exact hne hplace
    rw [child?_assign_of_ne hother]
  have hbad : rt.hop (v.assign step w) segment = .badIndex ↔ rt.hop v segment = .badIndex :=
    hop_assign_badIndex_iff v w step segment
  cases hbefore : rt.hop v segment with
  | reached member => exact (hreached member).mpr hbefore
  | badIndex => exact hbad.mpr hbefore
  | nowhere =>
      cases hafter : rt.hop (v.assign step w) segment with
      | reached member =>
          rw [(hreached member).mp hafter] at hbefore
          cases hbefore
      | badIndex =>
          rw [hbad.mp hafter] at hbefore
          cases hbefore
      | nowhere => rfl

/-! ## Whole paths -/

/-- The first segment of a path, with what it leads to on the way to the container. -/
theorem locate?_cons_at? {obj current : Value} {segment : String} {rest : List String}
    {before : List PathStep} (hbefore : rt.locate? obj (segment :: rest) = some before)
    (hat : nestedValues.at? obj before = some current) :
    ∃ step next others, rt.pathStep? obj segment = some step ∧ obj.child? step = some next ∧
      rt.locate? next rest = some others ∧ nestedValues.at? next others = some current ∧
        before = step :: others := by
  rcases locate?_cons_eq_some.mp hbefore with ⟨step, next, others, hstep, hchild, hothers, rfl⟩
  rcases at?_step.mp hat with ⟨next', hchild', hrest⟩
  cases hchild.symm.trans hchild'
  exact ⟨step, next, others, hstep, hchild, hothers, hrest, rfl⟩

/-- The container that is updated stays where it is. -/
theorem locate?_put_self {segments : List String} :
    ∀ {obj : Value} {location : List PathStep}, rt.locate? obj segments = some location →
      ∀ w, rt.locate? (nestedValues.put obj location w) segments = some location := by
  induction segments with
  | nil =>
      intro obj location h w
      exact h
  | cons segment rest ih =>
      intro obj location h w
      rcases locate?_cons_eq_some.mp h with ⟨step, next, others, hstep, hchild, hothers, rfl⟩
      rw [put_step hchild]
      refine locate?_cons_eq_some.mpr ⟨step, _, others, ?_, child?_assign_self hchild _, ?_, rfl⟩
      · rw [pathStep?_assign hchild, hstep]
      · exact ih hothers w

/-- The container whose member {lit}`set_path` assigns. -/
theorem setPath_ok_iff {obj updated : Value} {parents : List String} {leaf : String} {w : Value} :
    rt.setPath obj (parents ++ [leaf]) w = .ok updated ↔
      ∃ before current step, rt.locate? obj parents = some before ∧
        nestedValues.at? obj before = some current ∧ rt.place? current leaf = some step ∧
          updated = nestedValues.put obj before (current.assign step w) := by
  rw [Runtime.setPath, List.getLast?_concat, List.dropLast_concat]
  cases hparents : rt.getPath obj parents with
  | error failure =>
      simp only [reduceCtorEq, false_iff]
      rintro ⟨before, current, step, hbefore, hat, _⟩
      rw [getPath_ok_iff.mpr (reaches_iff_locate.mpr ⟨before, hbefore, hat⟩)] at hparents
      cases hparents
  | ok current =>
      rcases reaches_iff_locate.mp (getPath_ok_iff.mp hparents) with ⟨before, hbefore, hat⟩
      dsimp only
      constructor
      · intro h
        cases hmember : rt.assignMember current leaf w with
        | assigned updated' =>
            rcases assignMember_assigned_iff.mp hmember with ⟨step, hplace, rfl⟩
            simp only [hmember, Runtime.updatedAt, hbefore, Except.ok.injEq] at h
            exact ⟨before, current, step, hbefore, hat, hplace, h.symm⟩
        | refused => simp [hmember] at h
        | badIndex => simp [hmember] at h
      · rintro ⟨before', current', step, hbefore', hat', hplace, rfl⟩
        cases hbefore.symm.trans hbefore'
        cases hat.symm.trans hat'
        have hmember : rt.assignMember current leaf w = .assigned (current.assign step w) :=
          assignMember_assigned_iff.mpr ⟨step, hplace, rfl⟩
        simp only [hmember, Runtime.updatedAt, hbefore]

private theorem setPath_of_place {obj current : Value} {parents : List String} {leaf : String}
    {before : List PathStep} {step : PathStep} (hbefore : rt.locate? obj parents = some before)
    (hat : nestedValues.at? obj before = some current)
    (hplace : rt.place? current leaf = some step) (w : Value) :
    rt.setPath obj (parents ++ [leaf]) w =
      .ok (nestedValues.put obj before (current.assign step w)) :=
  setPath_ok_iff.mpr ⟨before, current, step, hbefore, hat, hplace, rfl⟩

/-- An assignment succeeds only through a path with a last segment. -/
theorem setPath_ok_cases {obj updated : Value} {segments : List String} {w : Value}
    (h : rt.setPath obj segments w = .ok updated) :
    ∃ parents leaf before current step, segments = parents ++ [leaf] ∧
      rt.locate? obj parents = some before ∧ nestedValues.at? obj before = some current ∧
        rt.place? current leaf = some step ∧
          updated = nestedValues.put obj before (current.assign step w) := by
  rcases List.eq_nil_or_concat segments with rfl | ⟨parents, leaf, rfl⟩
  · cases h
  · rw [List.concat_eq_append] at h ⊢
    rcases setPath_ok_iff.mp h with ⟨before, current, step, hassigned⟩
    exact ⟨parents, leaf, before, current, step, rfl, hassigned⟩

/-- What is assigned is read back. -/
theorem reaches_put {leaf : String} {step : PathStep} {current : Value} {parents : List String}
    (hplace : rt.place? current leaf = some step) (w : Value) :
    ∀ {obj : Value} {before : List PathStep}, rt.locate? obj parents = some before →
      nestedValues.at? obj before = some current →
        rt.Reaches (nestedValues.put obj before (current.assign step w)) (parents ++ [leaf]) w := by
  induction parents with
  | nil =>
      intro obj before hbefore hat
      cases hbefore
      cases hat
      refine reaches_cons_iff.mpr ⟨w, hop_reached_iff_place.mpr ⟨step, ?_, ?_⟩, .here w⟩
      · exact (place?_assign _ _ _ _).trans hplace
      · exact child?_assign_place hplace w
  | cons segment rest ih =>
      intro obj before hbefore hat
      rcases locate?_cons_at? hbefore hat with
        ⟨first, next, others, hfirst, hchild, hothers, hrest, rfl⟩
      rw [put_step hchild]
      refine reaches_cons_iff.mpr ⟨_, hop_reached_iff_place.mpr ⟨first, ?_, ?_⟩, ih hothers hrest⟩
      · exact (place?_assign _ _ _ _).trans (pathStep?_eq_some_iff.mp hfirst).1
      · exact child?_assign_self hchild _

private theorem walk_congr {v v' : Value} {segment : String}
    (h : rt.hop v segment = rt.hop v' segment)
    (traversed rest : List String) :
    rt.walk v traversed (segment :: rest) = rt.walk v' traversed (segment :: rest) := by
  rw [Runtime.walk, Runtime.walk, h]

/-- Paths that lie apart from the assigned one see nothing of the assignment. -/
theorem walk_put_of_apart {step : PathStep} {current : Value} {before : List PathStep} (w : Value) :
    ∀ {obj : Value} {others : List String}, nestedValues.at? obj before = some current →
      Apart (before ++ [step]) (rt.normalPath obj others) → ∀ traversed,
        rt.walk (nestedValues.put obj before (current.assign step w)) traversed others =
          rt.walk obj traversed others := by
  -- the induction follows the other path down the location of the container
  induction before with
  | nil =>
      intro obj others hat happart traversed
      cases hat
      rcases happart.cases with ⟨_, _, step', rest', heq, hothers, hsame⟩
      cases heq
      cases others with
      | nil => cases hothers
      | cons segment others =>
          -- in the container itself the other path takes another member
          refine walk_congr (hop_assign_of_ne ?_ w) traversed others
          intro hplace
          rw [Runtime.normalPath, hplace, Option.getD_some] at hothers
          cases hothers
          exact (hsame rfl).1 List.nil_prefix
  | cons first rest ih =>
      intro obj others hat happart traversed
      rcases at?_step.mp hat with ⟨next, hchild, hrest⟩
      rw [put_step hchild]
      rcases happart.cases with ⟨_, _, step', rest', heq, hothers, hsame⟩
      cases heq
      cases others with
      | nil => cases hothers
      | cons segment others =>
          by_cases hplace : rt.place? obj segment = some first
          · -- both paths lead into the same member
            rw [Runtime.normalPath, hplace, Option.getD_some] at hothers
            simp only [hchild, List.cons.injEq] at hothers
            rcases hothers with ⟨rfl, rfl⟩
            have hbefore : rt.hop obj segment = .reached next :=
              hop_reached_iff_place.mpr ⟨_, hplace, hchild⟩
            have hafter : rt.hop (obj.assign first (nestedValues.put next rest
                (current.assign step w))) segment =
                  .reached (nestedValues.put next rest (current.assign step w)) :=
              hop_reached_iff_place.mpr
                ⟨_, (place?_assign _ _ _ _).trans hplace, child?_assign_self hchild _⟩
            rw [Runtime.walk, Runtime.walk, hbefore, hafter]
            exact ih hrest (hsame rfl) _
          · exact walk_congr (hop_assign_of_ne hplace _) traversed others

/-! ## Failures -/

private theorem meetsBadIndex_append {segments rest : List String} :
    ∀ {obj : Value}, rt.MeetsBadIndex obj (segments ++ rest) ↔
      rt.MeetsBadIndex obj segments ∨
        ∃ value, rt.Reaches obj segments value ∧ rt.MeetsBadIndex value rest := by
  induction segments with
  | nil =>
      intro obj
      simp only [List.nil_append, Runtime.MeetsBadIndex, false_or]
      constructor
      · intro h
        exact ⟨obj, .here obj, h⟩
      · rintro ⟨value, hreaches, h⟩
        cases hreaches
        exact h
  | cons segment others ih =>
      intro obj
      rw [List.cons_append, Runtime.MeetsBadIndex, Runtime.MeetsBadIndex, or_assoc]
      refine or_congr_right ?_
      simp only [ih, reaches_cons_iff]
      constructor
      · rintro ⟨member, hhop, hbad | ⟨value, hreaches, hbad⟩⟩
        · exact Or.inl ⟨member, hhop, hbad⟩
        · exact Or.inr ⟨value, ⟨member, hhop, hreaches⟩, hbad⟩
      · rintro (⟨member, hhop, hbad⟩ | ⟨value, ⟨member, hhop, hreaches⟩, hbad⟩)
        · exact ⟨member, hhop, Or.inl hbad⟩
        · exact ⟨member, hhop, Or.inr ⟨value, hreaches, hbad⟩⟩

private theorem assignMember_badIndex_iff {current : Value} {leaf : String} {w : Value} :
    rt.assignMember current leaf w = .badIndex ↔ rt.MeetsBadIndex current [leaf] := by
  simp only [Runtime.MeetsBadIndex, and_false, exists_false, or_false]
  cases current with
  | list items =>
      simp only [Runtime.assignMember, Value.list.injEq, exists_eq_left']
      cases looksLikeInt leaf with
      | false => simp
      | true =>
          cases hindex : rt.pyInt? leaf with
          | none => simp
          | some index => cases hposition : listIndex? items.length index <;> simp [hposition]
  | _ => simp [Runtime.assignMember]

/-- An assignment raises something other than {lit}`PathNotFoundError` exactly when its path
meets a list with a segment that only looks like an integer. -/
theorem setPath_badIndex_iff {obj : Value} {segments : List String} {w : Value} :
    (∃ exc, rt.setPath obj segments w = .error (.other exc)) ↔ rt.MeetsBadIndex obj segments := by
  rcases List.eq_nil_or_concat segments with rfl | ⟨parents, leaf, rfl⟩
  · simp [Runtime.setPath, Runtime.MeetsBadIndex]
  · rw [List.concat_eq_append, meetsBadIndex_append, ← getPath_badIndex_iff, Runtime.setPath,
      List.getLast?_concat, List.dropLast_concat]
    simp only [← getPath_ok_iff]
    cases hparents : rt.getPath obj parents with
    | error failure => simp
    | ok current =>
        have hmember := @assignMember_badIndex_iff rt current leaf w
        simp only [Except.ok.injEq, exists_eq_left', ← hmember, reduceCtorEq, exists_false,
          false_or]
        cases rt.assignMember current leaf w <;> simp

end

/-! ## The laws -/

/-- What callers of {lit}`set_path` may expect.  It assigns, or raises
{lit}`PathNotFoundError` and leaves the object as it is.  After an assignment the value is
read back, a path that neither aliases nor extends the assigned one, nor is a prefix of it,
is looked up as before, and only the last of two assignments counts.  A path that leads to a
value can be assigned. -/
structure Runtime.SetPathLaws (rt : Runtime) (obj : Value) (path : PathArgument) (value : Value) :
    Prop where
  ends : (∃ message, rt.setPathCall obj path value = (obj, .error (.notFound message))) ∨
    ∃ updated, rt.setPathCall obj path value = (updated, .ok ())
  reads : ∀ updated, rt.setPathCall obj path value = (updated, .ok ()) →
    rt.getPathDefault updated path none = .ok value
  frames : ∀ updated, rt.setPathCall obj path value = (updated, .ok ()) →
    ∀ other, Apart (rt.normalPath obj path.segments) (rt.normalPath obj other.segments) →
      ∀ default, rt.getPathDefault updated other default = rt.getPathDefault obj other default
  assigns : path.segments ≠ [] → (∃ found, rt.getPathDefault obj path none = .ok found) →
    ∃ updated, rt.setPathCall obj path value = (updated, .ok ())
  overwrites : ∀ updated, rt.setPathCall obj path value = (updated, .ok ()) →
    ∀ second, rt.setPathCall updated path second = rt.setPathCall obj path second

section

variable {rt : Runtime} {obj updated value : Value} {path : PathArgument}

private theorem setPathCall_ok_iff :
    rt.setPathCall obj path value = (updated, .ok ()) ↔
      rt.setPath obj path.segments value = .ok updated := by
  unfold Runtime.setPathCall
  cases rt.setPath obj path.segments value <;> simp

/-- The steps of a path up to the container that it leads to, and on from there. -/
theorem normalPath_append {segments rest : List String} :
    ∀ {obj : Value} {before : List PathStep} {current : Value},
      rt.locate? obj segments = some before → nestedValues.at? obj before = some current →
        rt.normalPath obj (segments ++ rest) = before ++ rt.normalPath current rest := by
  induction segments with
  | nil =>
      intro obj before current hbefore hat
      cases hbefore
      cases hat
      rfl
  | cons segment others ih =>
      intro obj before current hbefore hat
      rcases locate?_cons_at? hbefore hat with
        ⟨step, next, after, hstep, hchild, hafter, hrest, rfl⟩
      have hplace := (pathStep?_eq_some_iff.mp hstep).1
      rw [List.cons_append, Runtime.normalPath, hplace, Option.getD_some]
      simp only [hchild, ih hafter hrest, List.cons_append]

private theorem normalPath_leaf {current : Value} {leaf : String} {step : PathStep}
    (h : rt.place? current leaf = some step) : rt.normalPath current [leaf] = [step] := by
  rw [Runtime.normalPath, h, Option.getD_some]
  cases current.child? step <;> rfl

/-- The second of two assignments through a path wins. -/
theorem setPath_setPath {segments : List String} (h : rt.setPath obj segments value = .ok updated)
    (second : Value) : rt.setPath updated segments second = rt.setPath obj segments second := by
  rcases setPath_ok_cases h with
    ⟨parents, leaf, before, current, step, rfl, hbefore, hat, hplace, rfl⟩
  have htwice : (current.assign step value).assign step second = current.assign step second :=
    nestedValues.assign_assign current step value second
  rw [setPath_of_place (locate?_put_self hbefore _) (NestedValues.at?_put_self hat _)
    ((place?_assign _ _ _ _).trans hplace), setPath_of_place hbefore hat hplace,
    NestedValues.put_put hat, htwice]

end

/-- An assignment through a path obeys the laws, if no segment of the path looks like an
index without being an integer. -/
theorem setPath_laws (rt : Runtime) (obj : Value) (path : PathArgument) (value : Value)
    (hindices : ∀ segment ∈ path.segments, looksLikeInt segment = true →
      (rt.pyInt? segment).isSome = true) :
    rt.SetPathLaws obj path value := by
  constructor
  case ends =>
    have hbad : ¬ ∃ exc, rt.setPath obj path.segments value = .error (.other exc) := by
      rw [setPath_badIndex_iff]
      exact not_meetsBadIndex hindices obj
    cases hset : rt.setPath obj path.segments value with
    | ok updated => exact Or.inr ⟨updated, setPathCall_ok_iff.mpr hset⟩
    | error failure =>
        cases failure with
        | notFound message =>
            refine Or.inl ⟨message, ?_⟩
            rw [Runtime.setPathCall, hset]
        | other exc => exact absurd ⟨exc, hset⟩ hbad
  case reads =>
    intro updated hset
    rcases setPath_ok_cases (setPathCall_ok_iff.mp hset) with
      ⟨parents, leaf, before, current, step, hsegments, hbefore, hat, hplace, rfl⟩
    rw [getPathDefault_none, getPath_ok_iff, hsegments]
    exact reaches_put hplace value hbefore hat
  case frames =>
    intro updated hset other happart default
    rcases setPath_ok_cases (setPathCall_ok_iff.mp hset) with
      ⟨parents, leaf, before, current, step, hsegments, hbefore, hat, hplace, rfl⟩
    have hsteps : rt.normalPath obj path.segments = before ++ [step] := by
      rw [hsegments, normalPath_append hbefore hat, normalPath_leaf hplace]
    rw [hsteps] at happart
    have hwalk := walk_put_of_apart value hat happart []
    unfold Runtime.getPathDefault Runtime.getPath
    rw [hwalk]
  case assigns =>
    rintro hne ⟨found, hfound⟩
    rw [getPathDefault_none, getPath_ok_iff, reaches_iff_locate] at hfound
    rcases hfound with ⟨location, hlocation, _⟩
    exact ⟨_, setPathCall_ok_iff.mpr (setPath_of_locate hne hlocation value)⟩
  case overwrites =>
    intro updated hset second
    have hupdated := setPathCall_ok_iff.mp hset
    rcases setPath_ok_cases hupdated with
      ⟨parents, leaf, before, current, step, hsegments, hbefore, hat, hplace, _⟩
    unfold Runtime.setPathCall
    rw [setPath_setPath hupdated, hsegments, setPath_of_place hbefore hat hplace]

/-- The laws for a path that names the last item of a list, with an empty segment, and the
assignment that they are about. -/
theorem setPath_laws_lastItem :
    let obj := Value.dict [("items", .list [.dict [("id", .int 1)], .dict [("id", .int 2)]])]
    let path := PathArgument.text "items..-1.id"
    Samples.runtime.SetPathLaws obj path (.str "two") ∧
      Samples.runtime.setPathCall obj path (.str "two") = (.dict
        [("items", .list [.dict [("id", .int 1)], .dict [("id", .str "two")]])], .ok ()) := by
  refine ⟨setPath_laws Samples.runtime _ _ _ ?_, ?_⟩
  · decide
  · rfl

end EtlTool
