import EtlTool.Core.PathLaws
import EtlTool.Foundations.ObjectGraphs

/-!
# Assignment in place

Dicts and lists are objects in memory, and {lit}`set_path` writes into the one that the
parents of the last segment lead to.  If the object is a tree, as parsed JSON is, and the new
value is a tree of its own, what the object holds afterwards is what the assignment of values
gives.

Main results:

- Theorem {lit}`setPathIn_error`: a call that raises leaves the memory as it is.
- Theorem {lit}`setPathIn_refines`: the assignment in place refines the assignment of values.
- Theorem {lit}`setPathIn_unshared`: the object stays a tree.

Current gaps:

- Subclasses of {lit}`Mapping` and {lit}`Sequence` other than dicts and lists.
-/

namespace EtlTool

open ObjectKind

/-! ## Memory -/

/-- An immutable value. -/
abbrev Atom := {v : Value // v.isContainer = false}

private theorem eq_of_getElem?_set {α : Type*} {items : List α} {i : Nat} {x y : α}
    (h : (items.set i x)[i]? = some y) : y = x := by
  rcases List.getElem?_eq_some_iff.mp h with ⟨hrange, hat⟩
  rw [← hat, List.getElem_set_self]

/-- A dict or a list in memory. -/
inductive Container where
  | dict (members : List (String × Slot Atom))
  | list (items : List (Slot Atom))

namespace Container

/-- The slot one step away. -/
def slot? (c : Container) (step : PathStep) : Option (Slot Atom) :=
  match c, step with
  | .dict members, .key name => members.lookup name
  | .list items, .position i => items[i]?
  | _, _ => none

/-- {lit}`c[step] = slot`. -/
def store (c : Container) (step : PathStep) (slot : Slot Atom) : Container :=
  match c, step with
  | .dict members, .key name => .dict (OrderedDict.setPair name slot members)
  | .list items, .position i => .list (items.set i slot)
  | c, _ => c

/-- The container is a dict with the keys of the value, or a list of its length. -/
def Shape (c : Container) (v : Value) : Prop :=
  match c, v with
  | .dict members, .dict fields => members.map Prod.fst = fields.map Prod.fst
  | .list slots, .list items => slots.length = items.length
  | _, _ => False

section

variable {c : Container} {v m w : Value} {step step' : PathStep} {x y : Slot Atom}

theorem isSome_slot? (h : c.Shape v) (step : PathStep) :
    (c.slot? step).isSome = (v.child? step).isSome := by
  cases c <;> cases v <;> try cases h
  · rename_i members fields
    cases step with
    | key name =>
        have hkeys : members.map Prod.fst = fields.map Prod.fst := h
        rw [Bool.eq_iff_iff, slot?, Value.child?, OrderedDict.isSome_lookup_iff,
          OrderedDict.isSome_lookup_iff, hkeys]
    | position i => rfl
  · rename_i slots items
    cases step with
    | key name => rfl
    | position i =>
        have hlength : slots.length = items.length := h
        rw [slot?, Value.child?]
        by_cases hi : i < items.length
        · rw [List.getElem?_eq_getElem hi, List.getElem?_eq_getElem (hlength.symm ▸ hi)]
          rfl
        · rw [List.getElem?_eq_none (Nat.not_lt.mp hi),
            List.getElem?_eq_none (hlength.symm ▸ Nat.not_lt.mp hi)]
          rfl

theorem shape_store (h : c.Shape v) (step : PathStep) (x : Slot Atom) (w : Value) :
    (c.store step x).Shape (v.assign step w) := by
  cases c <;> cases v <;> try cases h
  · cases step with
    | key name =>
        simp only [store, Value.assign, Shape, OrderedDict.map_fst_setPair] at h ⊢
        rw [h]
    | position i => exact h
  · cases step with
    | key name => exact h
    | position i => simpa [store, Value.assign, Shape] using h

theorem shape_assign (h : c.Shape v) (hchild : v.child? step = some m) (w : Value) :
    c.Shape (v.assign step w) := by
  cases c <;> cases v <;> try cases h
  · rename_i members fields
    cases step with
    | key name =>
        have hkey : name ∈ fields.map Prod.fst :=
          List.mem_map.mpr ⟨_, mem_of_lookup_eq_some hchild, rfl⟩
        simpa [Value.assign, Shape, OrderedDict.map_fst_setPair, hkey] using h
    | position i => exact h
  · cases step with
    | key name => exact h
    | position i => simpa [Value.assign, Shape] using h

theorem slot?_store_self (h : (c.store step x).slot? step = some y) : y = x := by
  cases c <;> cases step <;> try cases h
  · simpa [store, slot?, OrderedDict.lookup_setPair, eq_comm] using h
  · exact eq_of_getElem?_set h

theorem slot?_store_of_ne (hne : step' ≠ step) (c : Container) (x : Slot Atom) :
    (c.store step x).slot? step' = c.slot? step' := by
  cases c <;> cases step <;> try rfl
  · rename_i members name
    cases step' with
    | key name' =>
        have hname : name' ≠ name := by
          rintro rfl
          exact hne rfl
        simp [store, slot?, OrderedDict.lookup_setPair, hname]
    | position i => rfl
  · rename_i items i
    cases step' with
    | key name => rfl
    | position j =>
        have hij : i ≠ j := by
          rintro rfl
          exact hne rfl
        simp [store, slot?, List.getElem?_set_ne hij]

end

end Container

private theorem child?_atom (a : Atom) (step : PathStep) : a.val.child? step = none := by
  rcases a with ⟨v, hatom⟩
  cases v with
  | dict fields => cases hatom
  | list items => cases hatom
  | _ => rfl

theorem eq_of_child?_assign {v m w : Value} {step : PathStep}
    (h : (v.assign step w).child? step = some m) : m = w := by
  cases v <;> cases step <;> try cases h
  · exact eq_of_getElem?_set h
  · simpa [Value.assign, Value.child?, OrderedDict.lookup_setPair, eq_comm] using h

/-- Values as objects in memory. -/
def objectKind : ObjectKind Value PathStep Atom Container where
  toNestedValues := nestedValues
  value := Subtype.val
  slot? := Container.slot?
  store := Container.store
  Shape := Container.Shape
  child?_value := child?_atom
  isSome_slot? := Container.isSome_slot?
  shape_store := Container.shape_store
  shape_assign := Container.shape_assign
  slot?_store_self := Container.slot?_store_self
  slot?_store_of_ne := fun c x hne => Container.slot?_store_of_ne hne c x
  eq_of_child?_assign := eq_of_child?_assign

/-! ## Paths in memory -/

/-- Where one segment of a path leads in memory. -/
inductive SlotHop where
  | reached (slot : Slot Atom)
  | nowhere
  | badIndex

/-- How an assignment to a member of a container object ends. -/
inductive SlotAssignment where
  | assigned (updated : Container)
  | refused
  | badIndex

section

variable (rt : Runtime) (objects : List Container)

/-- Follow one segment from the current object. -/
def Runtime.hopIn (current : Slot Atom) (segment : String) : SlotHop :=
  match current with
  | .atom _ => .nowhere
  | .object address =>
      match objects[address]? with
      | none => .nowhere
      | some (.dict members) =>
          match members.lookup segment with
          | some slot => .reached slot
          | none => .nowhere
      | some (.list items) =>
          if looksLikeInt segment then
            match rt.pyInt? segment with
            | none => .badIndex
            | some index =>
                match (listIndex? items.length index).bind (items[·]?) with
                | some slot => .reached slot
                | none => .nowhere
          else .nowhere

/-- The loop of {lit}`get_path`, with all segments for its message. -/
def Runtime.walkIn (segments : List String) (current : Slot Atom) (traversed : List String) :
    List String → Except PathError (Slot Atom)
  | [] => .ok current
  | segment :: rest =>
      match rt.hopIn objects current segment with
      | .reached slot => Runtime.walkIn segments slot (traversed ++ [segment]) rest
      | .nowhere =>
          .error (.notFound ("path " ++ rt.reprStr (".".intercalate segments) ++
            " not found (failed at " ++
              rt.reprStr (".".intercalate (traversed ++ [segment])) ++ ")"))
      | .badIndex => .error (.other intConversionError)

/-- {lit}`get_path(obj, segments)` without a default. -/
def Runtime.getPathIn (obj : Slot Atom) (segments : List String) : Except PathError (Slot Atom) :=
  rt.walkIn objects segments obj [] segments

/-- {lit}`current[leaf] = value` for a dict or a list. -/
def Runtime.assignMemberIn (current : Container) (leaf : String) (value : Slot Atom) :
    SlotAssignment :=
  match current with
  | .dict members => .assigned (.dict (OrderedDict.setPair leaf value members))
  | .list items =>
      if looksLikeInt leaf then
        match rt.pyInt? leaf with
        | none => .badIndex
        | some index =>
            match listIndex? items.length index with
            | some i => .assigned (.list (items.set i value))
            | none => .refused
      else .refused

/-- {lit}`type(current).__name__`. -/
def typeNameIn (current : Slot Atom) : String :=
  match current with
  | .atom a => a.val.typeName
  | .object address =>
      match objects[address]? with
      | none => "object"
      | some (.dict _) => "dict"
      | some (.list _) => "list"

/-- {lit}`set_path(obj, path, value)`: the memory afterwards, and how the call ends. -/
def Runtime.setPathIn (obj : Slot Atom) (path : PathArgument) (value : Slot Atom) :
    List Container × Except PathError Unit :=
  match path.segments.getLast? with
  | none => (objects, .error (.notFound "cannot set an empty path"))
  | some leaf =>
      match rt.getPathIn objects obj path.segments.dropLast with
      | .error error => (objects, .error error)
      | .ok current =>
          let refusal := PathError.notFound ("cannot set path " ++
            rt.reprStr (".".intercalate path.segments) ++ " on " ++ typeNameIn objects current)
          match current with
          | .atom _ => (objects, .error refusal)
          | .object address =>
              match objects[address]? with
              | none => (objects, .error refusal)
              | some container =>
                  match rt.assignMemberIn container leaf value with
                  | .assigned updated => (objects.set address updated, .ok ())
                  | .badIndex => (objects, .error (.other intConversionError))
                  | .refused => (objects, .error refusal)

end

/-- A call that raises leaves the memory as it is. -/
theorem setPathIn_error {rt : Runtime} {objects : List Container} {obj value : Slot Atom}
    {path : PathArgument} {error : PathError}
    (h : (rt.setPathIn objects obj path value).2 = .error error) :
    (rt.setPathIn objects obj path value).1 = objects := by
  revert h
  unfold Runtime.setPathIn
  split
  · exact fun _ => rfl
  · split
    · exact fun _ => rfl
    · dsimp only
      split
      · exact fun _ => rfl
      · split
        · exact fun _ => rfl
        · split
          · intro h
            cases h
          · exact fun _ => rfl
          · exact fun _ => rfl

/-! ## Paths in memory and in values -/

section

variable {rt : Runtime} {objects : List Container} {x : Slot Atom} {v : Value}

/-- A slot holds an immutable value, a dict or a list. -/
theorem holds_cases (h : objectKind.Holds objects x v) :
    (∃ a : Atom, x = .atom a ∧ v = a.val) ∨
      (∃ address members fields, x = .object address ∧ v = .dict fields ∧
        objects[address]? = some (.dict members) ∧
          members.map Prod.fst = fields.map Prod.fst) ∨
        ∃ address slots items, x = .object address ∧ v = .list items ∧
          objects[address]? = some (.list slots) ∧ slots.length = items.length := by
  cases h with
  | atom a => exact Or.inl ⟨a, rfl, rfl⟩
  | @object address c _ hobject hshape hmembers =>
      cases c <;> cases v <;> try cases hshape
      · rename_i members fields
        exact Or.inr (Or.inl ⟨address, members, fields, rfl, rfl, hobject, hshape⟩)
      · rename_i slots items
        exact Or.inr (Or.inr ⟨address, slots, items, rfl, rfl, hobject, hshape⟩)

/-- A segment that leads to a member leads to its slot. -/
theorem hopIn_of_reached (h : objectKind.Holds objects x v) {segment : String} {m : Value}
    (hhop : rt.hop v segment = .reached m) :
    ∃ step y, rt.pathStep? v segment = some step ∧ v.child? step = some m ∧
      objectKind.member? objects x step = some y ∧ rt.hopIn objects x segment = .reached y := by
  rcases hop_reached_iff_child.mp hhop with ⟨step, hstep, hchild⟩
  rcases h.member hchild with ⟨y, hy, _⟩
  refine ⟨step, y, hstep, hchild, hy, ?_⟩
  rcases holds_cases h with ⟨a, rfl, rfl⟩ | ⟨address, members, fields, rfl, rfl, hobject, _⟩ |
    ⟨address, slots, items, rfl, rfl, hobject, hlength⟩
  · cases hy
  · rcases Option.map_eq_some_iff.mp hstep with ⟨_, _, rfl⟩
    rw [member?_object hobject] at hy
    have hlookup : members.lookup segment = some y := hy
    simp [Runtime.hopIn, hobject, hlookup]
  · rcases Option.map_eq_some_iff.mp hstep with ⟨i, hi, rfl⟩
    rcases Option.bind_eq_some_iff.mp hi with ⟨index, hindex, hposition⟩
    rw [member?_object hobject] at hy
    have hat : slots[i]? = some y := hy
    simp [Runtime.hopIn, hobject, looksLikeInt_of_pyInt hindex, hindex, hlength, hposition, hat]

private theorem hopIn_of_nowhere (h : objectKind.Holds objects x v) {segment : String}
    (hhop : rt.hop v segment = .nowhere) : rt.hopIn objects x segment = .nowhere := by
  rcases holds_cases h with ⟨a, rfl, rfl⟩ | ⟨address, members, fields, rfl, rfl, hobject, hkeys⟩ |
    ⟨address, slots, items, rfl, rfl, hobject, hlength⟩
  · rfl
  · have habsent : fields.lookup segment = none := by
      cases hlookup : fields.lookup segment with
      | none => rfl
      | some found => simp [Runtime.hop, hlookup] at hhop
    have hshape : (Container.dict members).Shape (.dict fields) := hkeys
    have hmember := Container.isSome_slot? hshape (.key segment)
    simp only [Container.slot?, Value.child?, habsent] at hmember
    cases hlookup : members.lookup segment with
    | none => simp [Runtime.hopIn, hobject, hlookup]
    | some found => simp [hlookup] at hmember
  · cases hlooks : looksLikeInt segment with
    | false => simp [Runtime.hopIn, hobject, hlooks]
    | true =>
        cases hindex : rt.pyInt? segment with
        | none => simp [Runtime.hop, hlooks, hindex] at hhop
        | some index =>
            cases hposition : listIndex? items.length index with
            | none => simp [Runtime.hopIn, hobject, hlooks, hindex, hlength, hposition]
            | some i =>
                -- a position in range holds an item
                have hat := List.getElem?_eq_getElem (listIndex?_lt hposition)
                simp [Runtime.hop, hlooks, hindex, hposition, hat] at hhop

private theorem hopIn_of_badIndex (h : objectKind.Holds objects x v) {segment : String}
    (hhop : rt.hop v segment = .badIndex) : rt.hopIn objects x segment = .badIndex := by
  rcases (hop_badIndex_iff rt v segment).mp hhop with ⟨items, rfl, hlooks, hparse⟩
  rcases holds_cases h with ⟨⟨_, hatom⟩, rfl, rfl⟩ | ⟨address, members, fields, rfl, heq, _, _⟩ |
    ⟨address, slots, _, rfl, _, hobject, _⟩
  · cases hatom
  · cases heq
  · simp [Runtime.hopIn, hobject, hlooks, hparse]

/-- A path that leads to a location leads to the slot there. -/
theorem walkIn_of_locate (segments : List String) {rest : List String} :
    ∀ {x : Slot Atom} {v : Value} {location : List PathStep}, objectKind.Holds objects x v →
      rt.locate? v rest = some location → ∀ traversed,
        ∃ y, objectKind.slotAt? objects x location = some y ∧
          rt.walkIn objects segments x traversed rest = .ok y := by
  induction rest with
  | nil =>
      intro x v location _ hlocation traversed
      cases hlocation
      exact ⟨x, rfl, rfl⟩
  | cons segment rest ih =>
      intro x v location h hlocation traversed
      rcases locate?_cons_eq_some.mp hlocation with ⟨step, m, others, hstep, hchild, hothers, rfl⟩
      have hhop := hop_reached_iff_child.mpr ⟨step, hstep, hchild⟩
      rcases hopIn_of_reached h hhop with ⟨step', y, hstep', _, hy, hhopIn⟩
      cases hstep.symm.trans hstep'
      rcases h.member hchild with ⟨y', hy', hm⟩
      cases hy.symm.trans hy'
      rcases ih hm hothers (traversed ++ [segment]) with ⟨z, hz, hwalk⟩
      refine ⟨z, slotAt?_cons_eq_some.mpr ⟨y, hy, hz⟩, ?_⟩
      rw [Runtime.walkIn, hhopIn]
      exact hwalk

/-- A path that leads nowhere raises what it raises for the value. -/
theorem walkIn_of_error (segments : List String) {rest : List String} :
    ∀ {x : Slot Atom} {v : Value} {traversed : List String}, objectKind.Holds objects x v →
      (∀ failed, rt.walk v traversed rest = .missing failed →
        rt.walkIn objects segments x traversed rest =
          .error (.notFound ("path " ++ rt.reprStr (".".intercalate segments) ++
            " not found (failed at " ++ rt.reprStr (".".intercalate failed) ++ ")"))) ∧
      (∀ segment, rt.walk v traversed rest = .badIndex segment →
        rt.walkIn objects segments x traversed rest = .error (.other intConversionError)) := by
  induction rest with
  | nil =>
      intro x v traversed _
      constructor
      · intro failed hwalk
        cases hwalk
      · intro segment hwalk
        cases hwalk
  | cons segment rest ih =>
      intro x v traversed h
      rw [Runtime.walk, Runtime.walkIn]
      cases hhop : rt.hop v segment with
      | reached m =>
          rcases hopIn_of_reached h hhop with ⟨step, y, _, hchild, hy, hhopIn⟩
          rcases h.member hchild with ⟨y', hy', hm⟩
          cases hy.symm.trans hy'
          rw [hhopIn]
          exact ih hm
      | nowhere =>
          rw [hopIn_of_nowhere h hhop]
          constructor
          · intro failed hwalk
            cases hwalk
            rfl
          · intro other hwalk
            cases hwalk
      | badIndex =>
          rw [hopIn_of_badIndex h hhop]
          constructor
          · intro failed hwalk
            cases hwalk
          · intro other _
            rfl

private theorem getPathIn_of_error (h : objectKind.Holds objects x v) {segments : List String}
    {error : PathError} (herror : rt.getPath v segments = .error error) :
    rt.getPathIn objects x segments = .error error := by
  unfold Runtime.getPath at herror
  cases hwalk : rt.walk v [] segments with
  | found m => simp [hwalk] at herror
  | missing failed =>
      simp only [hwalk, Except.error.injEq] at herror
      rw [← herror]
      exact (walkIn_of_error segments h).1 failed hwalk
  | badIndex segment =>
      simp only [hwalk, Except.error.injEq] at herror
      rw [← herror]
      exact (walkIn_of_error segments h).2 segment hwalk

/-! ## Assignment in memory and of values -/

/-- An assignment to a container object is the assignment to the value that it holds. -/
theorem assignMemberIn_of_shape {c : Container} {current w : Value} (h : c.Shape current)
    (leaf : String) (value : Slot Atom) :
    (rt.assignMember current leaf w = .refused → rt.assignMemberIn c leaf value = .refused) ∧
    (rt.assignMember current leaf w = .badIndex → rt.assignMemberIn c leaf value = .badIndex) ∧
    ∀ updated, rt.assignMember current leaf w = .assigned updated →
      ∃ step, updated = current.assign step w ∧
        rt.assignMemberIn c leaf value = .assigned (c.store step value) := by
  cases c <;> cases current <;> try cases h
  · refine ⟨by simp [Runtime.assignMember], by simp [Runtime.assignMember], ?_⟩
    intro updated hassigned
    cases hassigned
    exact ⟨.key leaf, rfl, rfl⟩
  · rename_i slots items
    have hlength : slots.length = items.length := h
    rw [Runtime.assignMember, Runtime.assignMemberIn, hlength]
    cases looksLikeInt leaf with
    | false => simp
    | true =>
        cases rt.pyInt? leaf with
        | none => simp
        | some index =>
            dsimp only [if_true]
            cases listIndex? items.length index with
            | none => simp
            | some i =>
                refine ⟨by simp, by simp, ?_⟩
                intro updated hassigned
                cases hassigned
                exact ⟨.position i, rfl, rfl⟩

private theorem assignMember_atom (a : Atom) (leaf : String) (w : Value) :
    rt.assignMember a.val leaf w = .refused := by
  rcases a with ⟨v, hatom⟩
  cases v with
  | dict fields => cases hatom
  | list items => cases hatom
  | _ => rfl

private theorem typeNameIn_eq (h : objectKind.Holds objects x v) :
    typeNameIn objects x = v.typeName := by
  rcases holds_cases h with ⟨a, rfl, rfl⟩ | ⟨address, members, fields, rfl, rfl, hobject, _⟩ |
    ⟨address, slots, items, rfl, rfl, hobject, _⟩
  · rfl
  · simp [typeNameIn, hobject, Value.typeName]
  · simp [typeNameIn, hobject, Value.typeName]

/-- Both calls raise the same, or both assign at one location. -/
theorem setPathIn_cases (h : objectKind.Holds objects x v) (path : PathArgument)
    (value : Slot Atom) (w : Value) :
    (∃ error, rt.setPathIn objects x path value = (objects, .error error) ∧
      rt.setPathCall v path w = (v, .error error)) ∨
    ∃ before current step address c, nestedValues.at? v before = some current ∧
      objectKind.slotAt? objects x before = some (.object address) ∧
        objects[address]? = some c ∧
          rt.setPathIn objects x path value = (objects.set address (c.store step value), .ok ()) ∧
            rt.setPathCall v path w =
              (nestedValues.put v before (current.assign step w), .ok ()) := by
  unfold Runtime.setPathIn Runtime.setPathCall Runtime.setPath
  cases path.segments.getLast? with
  | none => exact Or.inl ⟨_, rfl, rfl⟩
  | some leaf =>
      dsimp only
      cases hparents : rt.getPath v path.segments.dropLast with
      | error error =>
          rw [getPathIn_of_error h hparents]
          exact Or.inl ⟨_, rfl, rfl⟩
      | ok current =>
          rcases reaches_iff_locate.mp (getPath_ok_iff.mp hparents) with ⟨before, hbefore, hat⟩
          rcases h.exists_slotAt? hat with ⟨y, hy, hcurrent⟩
          have hwalk : rt.getPathIn objects x path.segments.dropLast = .ok y := by
            rcases walkIn_of_locate path.segments.dropLast h hbefore [] with ⟨y', hy', hwalk⟩
            cases hy.symm.trans hy'
            exact hwalk
          rw [hwalk]
          dsimp only
          cases hcurrent with
          | atom a =>
              rw [show objectKind.value a = a.val from rfl, assignMember_atom]
              exact Or.inl ⟨_, rfl, rfl⟩
          | @object address c _ hobject hshape hmembers =>
              rcases assignMemberIn_of_shape hshape leaf value with ⟨hrefused, hbad, hassigned⟩
              simp only [hobject]
              cases hmember : rt.assignMember current leaf w with
              | refused =>
                  rw [hrefused hmember, typeNameIn_eq (.object hobject hshape hmembers)]
                  exact Or.inl ⟨_, rfl, rfl⟩
              | badIndex =>
                  rw [hbad hmember]
                  exact Or.inl ⟨_, rfl, rfl⟩
              | assigned updated =>
                  rcases hassigned updated hmember with ⟨step, rfl, hstored⟩
                  rw [hstored]
                  refine Or.inr ⟨before, current, step, address, c, hat, hy, hobject, rfl, ?_⟩
                  simp only [Runtime.updatedAt, hbefore]

/-- The assignment in place ends as the assignment of values does, and the object then holds
what that assignment gives. -/
theorem setPathIn_refines (hobj : objectKind.Holds objects x v)
    (hunshared : objectKind.Unshared objects x) {value : Slot Atom} {w : Value}
    (hvalue : objectKind.Holds objects value w) (hseparate : objectKind.Separate objects x value)
    (path : PathArgument) :
    objectKind.Holds (rt.setPathIn objects x path value).1 x (rt.setPathCall v path w).1 ∧
      (rt.setPathIn objects x path value).2 = (rt.setPathCall v path w).2 := by
  rcases setPathIn_cases hobj path value w with ⟨error, hmemory, hcall⟩ |
    ⟨before, current, step, address, c, hat, hslot, hobject, hmemory, hcall⟩
  · rw [hmemory, hcall]
    exact ⟨hobj, rfl⟩
  · rw [hmemory, hcall]
    have honly : ∀ l, objectKind.slotAt? objects x l = some (.object address) → l = before :=
      fun l hl => hunshared address l before hl hslot
    exact ⟨hvalue.write hobject (hseparate address ⟨before, hslot⟩) step hobj hslot honly hat, rfl⟩

/-- The object stays a tree. -/
theorem setPathIn_unshared (hobj : objectKind.Holds objects x v)
    (hunshared : objectKind.Unshared objects x) {value : Slot Atom}
    (hvalue : objectKind.Unshared objects value) (hseparate : objectKind.Separate objects x value)
    (path : PathArgument) :
    objectKind.Unshared (rt.setPathIn objects x path value).1 x := by
  rcases @setPathIn_cases rt objects x v hobj path value .none with ⟨error, hmemory, _⟩ |
    ⟨before, current, step, address, c, _, hslot, hobject, hmemory, _⟩
  · rw [hmemory]
    exact hunshared
  · rw [hmemory]
    exact hunshared.write hvalue hseparate hslot hobject step

end

/-- In an object that is no tree, an assignment through one path is seen through another. -/
example :
    let objects : List Container := [.dict [("a", .object 1), ("b", .object 1)], .dict []]
    let value : Slot Atom := .atom ⟨.int 7, rfl⟩
    let after := Samples.runtime.setPathIn objects (.object 0) (.text "a.k") value
    Samples.runtime.getPathIn after.1 (.object 0) ["b", "k"] = .ok value := rfl

end EtlTool
