import EtlTool.Foundations.NestedUpdates

/-!
# Nested values as objects in memory

A container is an object at an address, and its members are immutable values or other
containers.  A slot holds a nested value if the value is what following the addresses gives.
An assignment to a container is seen wherever the container is reached; for a container that
is reached in one way only, it is a write at one location.

Main results:

- Theorem {lit}`ObjectKind.Holds.exists_slotAt?`: what is inside a value is held by the slot
  at the same location.
- Theorem {lit}`ObjectKind.Holds.write`: an assignment in place writes at the location of its
  container.
- Theorem {lit}`ObjectKind.Unshared.write`: assignments in place do not make two ways to one
  container.
-/

variable {V S A C : Type*}

/-- What a member of a container is: an immutable value, or a container at an address. -/
inductive ObjectKind.Slot (A : Type*) where
  | atom (a : A)
  | object (address : Nat)

/-- Nested values with the containers that hold their members in memory. -/
structure ObjectKind (V S A C : Type*) extends NestedValues V S where
  value : A → V
  slot? : C → S → Option (ObjectKind.Slot A)
  store : C → S → ObjectKind.Slot A → C
  /-- The container has a slot for each member of the value, and no other. -/
  Shape : C → V → Prop
  child?_value : ∀ (a : A) (s : S), child? (value a) s = none
  isSome_slot? : ∀ {c : C} {v : V}, Shape c v → ∀ s, (slot? c s).isSome = (child? v s).isSome
  shape_store : ∀ {c : C} {v : V}, Shape c v → ∀ (s : S) (x : ObjectKind.Slot A) (w : V),
    Shape (store c s x) (assign v s w)
  shape_assign : ∀ {c : C} {v m : V} {s : S}, Shape c v → child? v s = some m →
    ∀ w, Shape c (assign v s w)
  slot?_store_self : ∀ {c : C} {s : S} {x y : ObjectKind.Slot A},
    slot? (store c s x) s = some y → y = x
  slot?_store_of_ne : ∀ {s s' : S} (c : C) (x : ObjectKind.Slot A), s' ≠ s →
    slot? (store c s x) s' = slot? c s'
  eq_of_child?_assign : ∀ {v m : V} {s : S} {w : V}, child? (assign v s w) s = some m → m = w

namespace ObjectKind

/-- The slot holds the value. -/
inductive Holds (kind : ObjectKind V S A C) (objects : List C) : Slot A → V → Prop where
  | atom (a : A) : kind.Holds objects (.atom a) (kind.value a)
  | object {address : Nat} {c : C} {v : V} (hobject : objects[address]? = some c)
      (hshape : kind.Shape c v)
      (hmembers : ∀ s x m, kind.slot? c s = some x → kind.child? v s = some m →
        kind.Holds objects x m) : kind.Holds objects (.object address) v

section

variable (kind : ObjectKind V S A C) (objects : List C)

/-- The slot of a member. -/
def member? (x : Slot A) (s : S) : Option (Slot A) :=
  match x with
  | .atom _ => none
  | .object address => objects[address]?.bind (kind.slot? · s)

/-- The slot at a location. -/
def slotAt? (x : Slot A) : List S → Option (Slot A)
  | [] => some x
  | s :: rest =>
      match kind.member? objects x s with
      | some y => slotAt? y rest
      | none => none

/-- A container is reached from a slot. -/
def Reaches (x : Slot A) (address : Nat) : Prop :=
  ∃ l, kind.slotAt? objects x l = some (.object address)

/-- Every container that is reached from a slot is reached in one way. -/
def Unshared (x : Slot A) : Prop :=
  ∀ address l l', kind.slotAt? objects x l = some (.object address) →
    kind.slotAt? objects x l' = some (.object address) → l = l'

/-- No container is reached from both slots. -/
def Separate (x y : Slot A) : Prop :=
  ∀ address, kind.Reaches objects x address → ¬ kind.Reaches objects y address

end

section

variable {kind : ObjectKind V S A C} {objects : List C} {x y : Slot A} {v w : V} {s : S}
variable {l : List S} {address : Nat} {c : C}

theorem slotAt?_cons_eq_some {rest : List S} :
    kind.slotAt? objects x (s :: rest) = some y ↔
      ∃ z, kind.member? objects x s = some z ∧ kind.slotAt? objects z rest = some y := by
  rw [slotAt?]
  cases kind.member? objects x s with
  | none => simp
  | some z => simp

theorem member?_object (h : objects[address]? = some c) (s : S) :
    kind.member? objects (.object address) s = kind.slot? c s := by
  rw [member?, h]
  rfl

private theorem reaches_of_member {z : Slot A} (h : kind.member? objects x s = some z)
    (hreaches : kind.Reaches objects z address) : kind.Reaches objects x address := by
  rcases hreaches with ⟨l, hl⟩
  exact ⟨s :: l, slotAt?_cons_eq_some.mpr ⟨z, h, hl⟩⟩

/-- A member of a value is held by the slot of the member. -/
theorem Holds.member (h : kind.Holds objects x v) {m : V} (hchild : kind.child? v s = some m) :
    ∃ z, kind.member? objects x s = some z ∧ kind.Holds objects z m := by
  cases h with
  | atom a =>
      rw [kind.child?_value] at hchild
      cases hchild
  | object hobject hshape hmembers =>
      have hsome := kind.isSome_slot? hshape s
      rw [hchild, Option.isSome_some] at hsome
      rcases Option.isSome_iff_exists.mp hsome with ⟨z, hz⟩
      exact ⟨z, (member?_object hobject s).trans hz, hmembers s z m hz hchild⟩

/-- What is inside a value is held by the slot at the same location. -/
theorem Holds.exists_slotAt? {m : V} :
    ∀ {x : Slot A} {v : V}, kind.Holds objects x v → kind.at? v l = some m →
      ∃ z, kind.slotAt? objects x l = some z ∧ kind.Holds objects z m := by
  induction l with
  | nil =>
      intro x v h hat
      cases hat
      exact ⟨x, rfl, h⟩
  | cons s rest ih =>
      intro x v h hat
      rcases NestedValues.at?_cons_eq_some.mp hat with ⟨next, hchild, hrest⟩
      rcases h.member hchild with ⟨z, hz, hnext⟩
      rcases ih hnext hrest with ⟨z', hz', hm⟩
      exact ⟨z', slotAt?_cons_eq_some.mpr ⟨z, hz, hz'⟩, hm⟩

/-! ## Assignments elsewhere -/

private theorem member?_set (hne : x ≠ .object address) (c : C) (s : S) :
    kind.member? (objects.set address c) x s = kind.member? objects x s := by
  cases x with
  | atom a => rfl
  | object address' =>
      have haddress : address ≠ address' := by
        rintro rfl
        exact hne rfl
      rw [member?, member?, List.getElem?_set_ne haddress]

/-- A container that is not reached from a slot may change. -/
theorem Holds.frame (h : kind.Holds objects x v) (hfree : ¬ kind.Reaches objects x address)
    (c : C) : kind.Holds (objects.set address c) x v := by
  induction h with
  | atom a => exact .atom a
  | @object address' c' v hobject hshape hmembers ih =>
      have haddress : address ≠ address' := by
        rintro rfl
        exact hfree ⟨[], rfl⟩
      refine .object ?_ hshape ?_
      · rw [List.getElem?_set_ne haddress, hobject]
      · intro s z m hz hm
        have hmember := (member?_object hobject s).trans hz
        exact ih s z m hz hm fun hreaches => hfree (reaches_of_member hmember hreaches)

private theorem slotAt?_frame :
    ∀ {x : Slot A}, ¬ kind.Reaches objects x address → ∀ c,
      kind.slotAt? (objects.set address c) x l = kind.slotAt? objects x l := by
  induction l with
  | nil =>
      intro x _ c
      rfl
  | cons s rest ih =>
      intro x hfree c
      have hne : x ≠ .object address := by
        rintro rfl
        exact hfree ⟨[], rfl⟩
      rw [slotAt?, slotAt?, member?_set hne]
      cases hmember : kind.member? objects x s with
      | none => rfl
      | some z => exact ih (fun hreaches => hfree (reaches_of_member hmember hreaches)) c

/-! ## Assignments in place -/

/-- The members of a container that is reached in one way do not reach it. -/
theorem not_reaches_member (honly : ∀ l', kind.slotAt? objects x l' = some (.object address) →
    l' = l) {z : Slot A} (hmember : kind.member? objects x s = some z)
    (hoff : ∀ rest, s :: rest ≠ l) : ¬ kind.Reaches objects z address := by
  rintro ⟨rest, hrest⟩
  exact hoff rest (honly _ (slotAt?_cons_eq_some.mpr ⟨z, hmember, hrest⟩))

/-- A container that is reached in one way is reached in one way from the member on the
way. -/
theorem only_of_member {first : S} {rest : List S} {z : Slot A}
    (honly : ∀ l', kind.slotAt? objects x l' = some (.object address) → l' = first :: rest)
    (hmember : kind.member? objects x first = some z) :
    ∀ l', kind.slotAt? objects z l' = some (.object address) → l' = rest := by
  intro l' hl'
  have hsame := honly (first :: l') (slotAt?_cons_eq_some.mpr ⟨z, hmember, hl'⟩)
  exact (List.cons.inj hsame).2

/-- An assignment in place writes at the location of its container. -/
theorem Holds.write {current : V} (hobject : objects[address]? = some c)
    (hy : kind.Holds objects y w) (hfree : ¬ kind.Reaches objects y address) (s : S) :
    ∀ {x : Slot A} {v : V}, kind.Holds objects x v →
      kind.slotAt? objects x l = some (.object address) →
        (∀ l', kind.slotAt? objects x l' = some (.object address) → l' = l) →
          kind.at? v l = some current →
            kind.Holds (objects.set address (kind.store c s y)) x
              (kind.put v l (kind.assign current s w)) := by
  have hrange : address < objects.length := (List.getElem?_eq_some_iff.mp hobject).1
  induction l with
  | nil =>
      intro x v h hslot honly hat
      cases hslot
      cases hat
      cases h with
      | @object _ c' _ hobject' hshape hmembers =>
          cases hobject.symm.trans hobject'
          refine .object (List.getElem?_set_self hrange) (kind.shape_store hshape s y w) ?_
          intro s' z m hz hm
          by_cases hs : s' = s
          · subst hs
            rw [kind.slot?_store_self hz, kind.eq_of_child?_assign hm]
            exact hy.frame hfree _
          · rw [kind.slot?_store_of_ne _ _ hs] at hz
            have hm' : kind.child? current s' = some m :=
              (kind.child?_assign_of_ne w hs).symm.trans hm
            have hmember := (member?_object hobject s').trans hz
            have hoff : ¬ kind.Reaches objects z address :=
              not_reaches_member honly hmember (List.cons_ne_nil s')
            exact (hmembers s' z m hz hm').frame hoff _
  | cons first rest ih =>
      intro x v h hslot honly hat
      rcases slotAt?_cons_eq_some.mp hslot with ⟨z, hz, hrest⟩
      rcases NestedValues.at?_cons_eq_some.mp hat with ⟨next, hchild, hnext⟩
      rw [NestedValues.put_cons hchild]
      cases h with
      | atom a => cases hz
      | @object address' c' _ hobject' hshape hmembers =>
          have haddress : address ≠ address' := by
            rintro rfl
            cases honly [] rfl
          have hstays : (objects.set address (kind.store c s y))[address']? = some c' := by
            rw [List.getElem?_set_ne haddress, hobject']
          refine .object hstays (kind.shape_assign hshape hchild _) ?_
          intro s' z' m hz' hm
          have hmember := (member?_object hobject' s').trans hz'
          by_cases hs : s' = first
          · subst hs
            cases hz.symm.trans hmember
            rw [kind.eq_of_child?_assign hm]
            exact ih (hmembers s' z next hz' hchild) hrest (only_of_member honly hz) hnext
          · have hm' : kind.child? v s' = some m :=
              (kind.child?_assign_of_ne _ hs).symm.trans hm
            have hoff : ¬ kind.Reaches objects z' address := by
              refine not_reaches_member honly hmember fun rest' hsame => hs ?_
              exact (List.cons.inj hsame).1
            exact (hmembers s' z' m hz' hm').frame hoff _

/-- After an assignment in place, a slot is found where it was, or behind the new member. -/
theorem slotAt?_write (hobject : objects[address]? = some c)
    (hfree : ¬ kind.Reaches objects y address) {s : S} {z : Slot A} :
    ∀ {x : Slot A} {l' : List S}, kind.slotAt? objects x l = some (.object address) →
      (∀ l'', kind.slotAt? objects x l'' = some (.object address) → l'' = l) →
        kind.slotAt? (objects.set address (kind.store c s y)) x l' = some z →
          kind.slotAt? objects x l' = some z ∨
            ∃ rest, l' = l ++ s :: rest ∧ kind.slotAt? objects y rest = some z := by
  have hrange : address < objects.length := (List.getElem?_eq_some_iff.mp hobject).1
  induction l with
  | nil =>
      intro x l' hslot honly hz
      cases hslot
      cases l' with
      | nil => exact Or.inl hz
      | cons s' rest =>
          rcases slotAt?_cons_eq_some.mp hz with ⟨first, hfirst, hrest⟩
          rw [member?_object (List.getElem?_set_self hrange)] at hfirst
          by_cases hs : s' = s
          · subst hs
            rw [kind.slot?_store_self hfirst, slotAt?_frame hfree] at hrest
            exact Or.inr ⟨rest, rfl, hrest⟩
          · rw [kind.slot?_store_of_ne _ _ hs, ← member?_object hobject] at hfirst
            rw [slotAt?_frame (not_reaches_member honly hfirst (List.cons_ne_nil s'))] at hrest
            exact Or.inl (slotAt?_cons_eq_some.mpr ⟨first, hfirst, hrest⟩)
  | cons first rest ih =>
      intro x l' hslot honly hz
      rcases slotAt?_cons_eq_some.mp hslot with ⟨next, hnext, hlocation⟩
      have hne : x ≠ .object address := by
        rintro rfl
        cases honly [] rfl
      cases l' with
      | nil => exact Or.inl hz
      | cons s' rest' =>
          rcases slotAt?_cons_eq_some.mp hz with ⟨other, hother, hrest⟩
          rw [member?_set hne] at hother
          by_cases hs : s' = first
          · subst hs
            cases hnext.symm.trans hother
            rcases ih hlocation (only_of_member honly hnext) hrest with
              hbefore | ⟨behind, rfl, hbehind⟩
            · exact Or.inl (slotAt?_cons_eq_some.mpr ⟨next, hnext, hbefore⟩)
            · exact Or.inr ⟨behind, rfl, hbehind⟩
          · have hoff : ¬ kind.Reaches objects other address := by
              refine not_reaches_member honly hother fun tail hsame => hs ?_
              exact (List.cons.inj hsame).1
            rw [slotAt?_frame hoff] at hrest
            exact Or.inl (slotAt?_cons_eq_some.mpr ⟨other, hother, hrest⟩)

/-- Assignments in place do not make two ways to one container. -/
theorem Unshared.write (hx : kind.Unshared objects x) (hy : kind.Unshared objects y)
    (hseparate : kind.Separate objects x y)
    (hslot : kind.slotAt? objects x l = some (.object address))
    (hobject : objects[address]? = some c) (s : S) :
    kind.Unshared (objects.set address (kind.store c s y)) x := by
  have hfree := hseparate address ⟨l, hslot⟩
  have honly : ∀ l', kind.slotAt? objects x l' = some (.object address) → l' = l :=
    fun l' hl' => hx address l' l hl' hslot
  intro address' l₁ l₂ h₁ h₂
  rcases slotAt?_write hobject hfree hslot honly h₁ with hold₁ | ⟨rest₁, rfl, hnew₁⟩
  · rcases slotAt?_write hobject hfree hslot honly h₂ with hold₂ | ⟨rest₂, rfl, hnew₂⟩
    · exact hx address' l₁ l₂ hold₁ hold₂
    · exact absurd ⟨rest₂, hnew₂⟩ (hseparate address' ⟨l₁, hold₁⟩)
  · rcases slotAt?_write hobject hfree hslot honly h₂ with hold₂ | ⟨rest₂, rfl, hnew₂⟩
    · exact absurd ⟨rest₁, hnew₁⟩ (hseparate address' ⟨l₂, hold₂⟩)
    · rw [hy address' rest₁ rest₂ hnew₁ hnew₂]

end

end ObjectKind
