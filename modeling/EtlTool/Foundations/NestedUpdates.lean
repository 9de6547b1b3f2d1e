import Mathlib.Data.List.Infix

/-!
# Updates of nested values

Values whose members are one step away: the members of an object under their keys, the
elements of a list at their positions.  A location is a list of steps.  Reading and writing
at a location obey the laws that hold for a single step.

Main results:

- Theorems {lit}`at?_put_self`, {lit}`put_at?` and {lit}`put_put`: writes read back, writing
  what is there changes nothing, and the second of two writes wins.
- Theorem {lit}`at?_put_of_apart`: a write frames what lies apart.
- Theorem {lit}`put_comm`: writes apart from each other commute.
- Theorem {lit}`putAll_perm`: several writes may come in any order.
-/

variable {V S : Type*}

/-- Members one step away, and their assignment. -/
structure NestedValues (V S : Type*) where
  child? : V → S → Option V
  assign : V → S → V → V
  child?_assign_self : ∀ {v m : V} {s : S} (w : V), child? v s = some m →
    child? (assign v s w) s = some w
  child?_assign_of_ne : ∀ {v : V} {s s' : S} (w : V), s' ≠ s →
    child? (assign v s w) s' = child? v s'
  assign_child? : ∀ {v m : V} {s : S}, child? v s = some m → assign v s m = v
  assign_assign : ∀ (v : V) (s : S) (w w' : V), assign (assign v s w) s w' = assign v s w'
  assign_comm : ∀ {v m m' : V} {s s' : S} (w w' : V), s ≠ s' → child? v s = some m →
    child? v s' = some m' → assign (assign v s w) s' w' = assign (assign v s' w') s w

/-- Neither location leads through the other. -/
def Apart (l l' : List S) : Prop :=
  ¬ l <+: l' ∧ ¬ l' <+: l

theorem Apart.symm {l l' : List S} (h : Apart l l') : Apart l' l :=
  ⟨h.2, h.1⟩

/-- Locations that lie apart have a first step, and go on apart if it is the same. -/
theorem Apart.cases {l l' : List S} (h : Apart l l') :
    ∃ s rest s' rest', l = s :: rest ∧ l' = s' :: rest' ∧ (s = s' → Apart rest rest') := by
  cases l with
  | nil => exact absurd (List.nil_prefix) h.1
  | cons s rest =>
      cases l' with
      | nil => exact absurd (List.nil_prefix) h.2
      | cons s' rest' =>
          refine ⟨s, rest, s', rest', rfl, rfl, ?_⟩
          rintro rfl
          rw [Apart, List.prefix_cons_inj, List.prefix_cons_inj] at h
          exact h

namespace NestedValues

variable (nv : NestedValues V S)

/-- The value at a location. -/
def at? (v : V) : List S → Option V
  | [] => some v
  | s :: rest =>
      match nv.child? v s with
      | some m => at? m rest
      | none => none

/-- Replace the value at a location, if there is one. -/
def put (v : V) : List S → V → V
  | [], w => w
  | s :: rest, w =>
      match nv.child? v s with
      | some m => nv.assign v s (put m rest w)
      | none => v

variable {nv}

/-! ## Laws of one location -/

theorem at?_cons_eq_some {v w : V} {s : S} {rest : List S} :
    nv.at? v (s :: rest) = some w ↔ ∃ m, nv.child? v s = some m ∧ nv.at? m rest = some w := by
  rw [at?]
  cases nv.child? v s with
  | none => simp
  | some m => simp

theorem put_cons {v m : V} {s : S} (h : nv.child? v s = some m) (rest : List S) (w : V) :
    nv.put v (s :: rest) w = nv.assign v s (nv.put m rest w) := by
  rw [put, h]

theorem put_append {v m : V} {l : List S} (h : nv.at? v l = some m) (l' : List S) (w : V) :
    nv.put v (l ++ l') w = nv.put v l (nv.put m l' w) := by
  induction l generalizing v with
  | nil =>
      cases h
      rfl
  | cons s rest ih =>
      rcases at?_cons_eq_some.mp h with ⟨next, hnext, hrest⟩
      rw [List.cons_append, put_cons hnext, put_cons hnext, ih hrest]

/-- A write reads back. -/
theorem at?_put_self {v m : V} {l : List S} (h : nv.at? v l = some m) (w : V) :
    nv.at? (nv.put v l w) l = some w := by
  induction l generalizing v with
  | nil => rfl
  | cons s rest ih =>
      rcases at?_cons_eq_some.mp h with ⟨next, hnext, hrest⟩
      rw [put_cons hnext, at?_cons_eq_some]
      exact ⟨_, nv.child?_assign_self _ hnext, ih hrest⟩

/-- Writing what is there changes nothing. -/
theorem put_at? {v m : V} {l : List S} (h : nv.at? v l = some m) : nv.put v l m = v := by
  induction l generalizing v with
  | nil =>
      cases h
      rfl
  | cons s rest ih =>
      rcases at?_cons_eq_some.mp h with ⟨next, hnext, hrest⟩
      rw [put_cons hnext, ih hrest]
      exact nv.assign_child? hnext

/-- The second of two writes wins. -/
theorem put_put {v m : V} {l : List S} (h : nv.at? v l = some m) (w w' : V) :
    nv.put (nv.put v l w) l w' = nv.put v l w' := by
  induction l generalizing v with
  | nil => rfl
  | cons s rest ih =>
      rcases at?_cons_eq_some.mp h with ⟨next, hnext, hrest⟩
      rw [put_cons hnext, put_cons hnext, put_cons (nv.child?_assign_self _ hnext), ih hrest,
        nv.assign_assign]

/-! ## Laws of two locations -/

section

variable {l l' : List S}

/-- A write frames what lies apart. -/
theorem at?_put_of_apart (h : Apart l l') (v w : V) :
    nv.at? (nv.put v l w) l' = nv.at? v l' := by
  induction l generalizing v l' with
  | nil => exact absurd List.nil_prefix h.1
  | cons s rest ih =>
      rcases h.cases with ⟨_, _, s', rest', heq, rfl, hsame⟩
      cases heq
      cases hchild : nv.child? v s with
      | none => rw [put, hchild]
      | some m =>
          rw [put_cons hchild, at?, at?]
          by_cases hstep : s' = s
          · subst hstep
            rw [nv.child?_assign_self _ hchild, hchild]
            exact ih (hsame rfl) m
          · rw [nv.child?_assign_of_ne _ hstep]

/-- Writes apart from each other commute. -/
theorem put_comm (h : Apart l l') {v m m' : V} (hl : nv.at? v l = some m)
    (hl' : nv.at? v l' = some m') (w w' : V) :
    nv.put (nv.put v l w) l' w' = nv.put (nv.put v l' w') l w := by
  induction l generalizing v l' with
  | nil => exact absurd List.nil_prefix h.1
  | cons s rest ih =>
      rcases h.cases with ⟨_, _, s', rest', heq, rfl, hsame⟩
      cases heq
      rcases at?_cons_eq_some.mp hl with ⟨next, hnext, hrest⟩
      rcases at?_cons_eq_some.mp hl' with ⟨next', hnext', hrest'⟩
      rw [put_cons hnext, put_cons hnext']
      by_cases hstep : s = s'
      · subst hstep
        cases hnext.symm.trans hnext'
        rw [put_cons (nv.child?_assign_self _ hnext), put_cons (nv.child?_assign_self _ hnext),
          ih (hsame rfl) hrest hrest', nv.assign_assign, nv.assign_assign]
      · have hframe := (nv.child?_assign_of_ne (nv.put next rest w) (Ne.symm hstep)).trans hnext'
        have hframe' := (nv.child?_assign_of_ne (nv.put next' rest' w') hstep).trans hnext
        rw [put_cons hframe, put_cons hframe']
        exact nv.assign_comm _ _ hstep hnext hnext'

end

/-! ## Several writes -/

/-- Write values at several locations, the first of them last. -/
def putAll (nv : NestedValues V S) (v : V) (writes : List (List S × V)) : V :=
  writes.foldr (fun write v => nv.put v write.1 write.2) v

/-- The locations of the writes lie apart, and there are values at all of them. -/
structure WritesApart (nv : NestedValues V S) (v : V) (writes : List (List S × V)) : Prop where
  apart : writes.Pairwise fun write write' => Apart write.1 write'.1
  present : ∀ write ∈ writes, ∃ m, nv.at? v write.1 = some m

theorem WritesApart.tail {v : V} {write : List S × V} {rest : List (List S × V)}
    (h : WritesApart nv v (write :: rest)) : WritesApart nv v rest where
  apart := h.apart.of_cons
  present := (List.forall_mem_cons.mp h.present).2

theorem WritesApart.perm {v : V} {writes writes' : List (List S × V)} (hperm : writes.Perm writes')
    (h : WritesApart nv v writes) : WritesApart nv v writes' where
  apart := (hperm.pairwise_iff fun happart => Apart.symm happart).mp h.apart
  present := fun write hwrite => h.present write (hperm.mem_iff.mpr hwrite)

/-- Several writes frame what lies apart from all of them. -/
theorem at?_putAll_of_apart {l : List S} {v : V} {writes : List (List S × V)}
    (h : ∀ write ∈ writes, Apart write.1 l) : nv.at? (nv.putAll v writes) l = nv.at? v l := by
  induction writes with
  | nil => rfl
  | cons write rest ih =>
      rcases List.forall_mem_cons.mp h with ⟨hwrite, hrest⟩
      exact (at?_put_of_apart hwrite _ _).trans (ih hrest)

/-- Several writes may come in any order. -/
theorem putAll_perm {v : V} {writes writes' : List (List S × V)} (hperm : writes.Perm writes')
    (h : WritesApart nv v writes) : nv.putAll v writes = nv.putAll v writes' := by
  induction hperm with
  | nil => rfl
  | cons write _ ih =>
      have hrest := ih h.tail
      unfold putAll at hrest ⊢
      rw [List.foldr_cons, List.foldr_cons, hrest]
  | swap first second rest =>
      have happart := (List.pairwise_cons.mp h.apart).1
      have hothers := (List.pairwise_cons.mp h.tail.apart).1
      rcases h.present first (by simp) with ⟨m, hm⟩
      rcases h.present second (by simp) with ⟨m', hm'⟩
      have hfirst : nv.at? (nv.putAll v rest) first.1 = some m := by
        rw [at?_putAll_of_apart fun write hwrite => (hothers write hwrite).symm]
        exact hm
      have hsecond : nv.at? (nv.putAll v rest) second.1 = some m' := by
        rw [at?_putAll_of_apart fun write hwrite =>
          (happart write (List.mem_cons_of_mem _ hwrite)).symm]
        exact hm'
      exact put_comm (happart first List.mem_cons_self).symm hfirst hsecond _ _
  | trans hperm₁ _ ih₁ ih₂ => exact (ih₁ h).trans (ih₂ (h.perm hperm₁))

end NestedValues
