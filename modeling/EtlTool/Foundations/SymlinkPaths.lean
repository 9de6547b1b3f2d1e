import Mathlib.Data.List.Infix

/-!
# Paths through symbolic links

A tree of files, directories and symbolic links.  An operating system follows a path
step by step and fails when a step does not exist; resolving a path does the same
where the tree has entries, and goes on by names where it has none.  Both give up
after too many links.

Main results:

- Theorem {lit}`resolve_of_follow`: where a path leads, there it resolves to.
- Theorem {lit}`Resolves.split`, {lit}`Resolves.append`: resolving in two stages.
- Theorem {lit}`Resolves.plain_location`: a resolved location has no link on its way.
- Theorem {lit}`Plain.follow`: such a location leads to itself or nowhere.
-/

namespace SymlinkPaths

variable {ν : Type*}

/-! ## Trees and paths -/

/-- One step of a path. -/
inductive Step (ν : Type*) where
  | up
  | down (name : ν)
deriving DecidableEq

/-- A path from the root or from the current directory. -/
structure Path (ν : Type*) where
  absolute : Bool
  steps : List (Step ν)
deriving DecidableEq

/-- What a location of a tree holds. -/
inductive Entry (ν : Type*) where
  | file
  | directory
  | link (target : Path ν)
deriving DecidableEq

/-- The entries by their location, the names from the root.  Only directories have
entries. -/
structure LinkTree (ν : Type*) where
  entry? : List ν → Option (Entry ν)
  root : entry? [] = some .directory
  parent : ∀ location name, entry? (location ++ [name]) ≠ none →
    entry? location = some .directory

/-- The tree with the listed entries below the root. -/
def LinkTree.ofList [DecidableEq ν] (entries : List (List ν × Entry ν))
    (hentries : ∀ entry ∈ entries, entry.1 ≠ [] ∧
      (entry.1.dropLast = [] ∨ entries.lookup entry.1.dropLast = some .directory)) :
    LinkTree ν where
  entry? := fun location => if location = [] then some .directory else entries.lookup location
  root := if_pos rfl
  parent := by
    intro location name hname
    rw [if_neg (by simp)] at hname
    rcases Option.ne_none_iff_exists'.mp hname with ⟨entry, hentry⟩
    rcases List.lookup_eq_some_iff.mp hentry with ⟨before, after, hsplit, _⟩
    have hmem : (location ++ [name], entry) ∈ entries := by simp [hsplit]
    have hparent := (hentries _ hmem).2
    rw [List.dropLast_concat] at hparent
    rcases hparent with hroot | hdirectory
    · rw [if_pos hroot]
    · split
      · rfl
      · exact hdirectory

/-- Where a path starts. -/
def Path.start (path : Path ν) (current : List ν) : List ν :=
  if path.absolute then [] else current

/-- The steps down to a location. -/
def descend (location : List ν) : List (Step ν) :=
  location.map .down

namespace LinkTree

/-! ## Following a path -/

/-- Follow a path, given how to go on after a link. -/
def followWith (t : LinkTree ν) (next : List ν → List (Step ν) → Option (List ν)) :
    List ν → List (Step ν) → Option (List ν)
  | current, [] => some current
  | current, .up :: rest => followWith t next current.dropLast rest
  | current, .down name :: rest =>
      match t.entry? (current ++ [name]) with
      | none => none
      | some .file => if rest.isEmpty then some (current ++ [name]) else none
      | some .directory => followWith t next (current ++ [name]) rest
      | some (.link target) => next (target.start current) (target.steps ++ rest)

/-- The location to which the steps lead from a directory, through at most so many
links. -/
def follow (t : LinkTree ν) : Nat → List ν → List (Step ν) → Option (List ν)
  | 0 => t.followWith fun _ _ => none
  | links + 1 => t.followWith (follow t links)

/-- Resolve a path, given how to go on after a link. -/
def resolveWith (t : LinkTree ν) (next : List ν → List (Step ν) → Option (List ν)) :
    List ν → List (Step ν) → Option (List ν)
  | current, [] => some current
  | current, .up :: rest => resolveWith t next current.dropLast rest
  | current, .down name :: rest =>
      match t.entry? (current ++ [name]) with
      | some (.link target) => next (target.start current) (target.steps ++ rest)
      | _ => resolveWith t next (current ++ [name]) rest

/-- The location that the steps name from a location, where links are followed as far
as there are entries, through at most so many of them. -/
def resolve (t : LinkTree ν) : Nat → List ν → List (Step ν) → Option (List ν)
  | 0 => t.resolveWith fun _ _ => none
  | links + 1 => t.resolveWith (resolve t links)

/-- What a location is reached through is no link. -/
def Plain (t : LinkTree ν) (location : List ν) : Prop :=
  ∀ before name, before ++ [name] <+: location → ∀ target,
    t.entry? (before ++ [name]) ≠ some (.link target)

variable {t : LinkTree ν} {current location : List ν} {steps rest : List (Step ν)} {links : Nat}

/-! ## How a path resolves -/

/-- The steps resolve to a location, step by step. -/
inductive Resolves (t : LinkTree ν) (location : List ν) : Nat → List ν → List (Step ν) → Prop
  | nil (links : Nat) : Resolves t location links location []
  | up {links : Nat} {current : List ν} {rest : List (Step ν)}
      (hrest : Resolves t location links current.dropLast rest) :
      Resolves t location links current (.up :: rest)
  | plain {links : Nat} {current : List ν} {name : ν} {rest : List (Step ν)}
      (hentry : ∀ target, t.entry? (current ++ [name]) ≠ some (.link target))
      (hrest : Resolves t location links (current ++ [name]) rest) :
      Resolves t location links current (.down name :: rest)
  | link {links : Nat} {current : List ν} {name : ν} {rest : List (Step ν)} {target : Path ν}
      (hentry : t.entry? (current ++ [name]) = some (.link target))
      (hrest : Resolves t location links (target.start current) (target.steps ++ rest)) :
      Resolves t location (links + 1) current (.down name :: rest)

private theorem resolveWith_iff {next : List ν → List (Step ν) → Option (List ν)} {links : Nat}
    (hnext : ∀ current name target rest, t.entry? (current ++ [name]) = some (.link target) →
      (next (target.start current) (target.steps ++ rest) = some location ↔
        t.Resolves location links current (.down name :: rest))) :
    t.resolveWith next current steps = some location ↔ t.Resolves location links current steps := by
  induction steps generalizing current with
  | nil =>
      rw [resolveWith, Option.some.injEq]
      constructor
      · intro heq
        exact heq ▸ .nil links
      · intro h
        cases h
        rfl
  | cons step rest ih =>
      cases step with
      | up =>
          rw [resolveWith, ih]
          constructor
          · exact .up
          · intro h
            cases h with
            | up hrest => exact hrest
      | down name =>
          by_cases hlink : ∃ target, t.entry? (current ++ [name]) = some (.link target)
          · rcases hlink with ⟨target, htarget⟩
            rw [resolveWith, htarget]
            exact hnext current name target rest htarget
          · rw [not_exists] at hlink
            have hgo : t.resolveWith next current (.down name :: rest) =
                t.resolveWith next (current ++ [name]) rest := by
              rw [resolveWith]
              split
              · rename_i target htarget
                exact absurd htarget (hlink target)
              · rfl
            rw [hgo, ih]
            constructor
            · exact .plain hlink
            · intro h
              cases h with
              | plain _ hrest => exact hrest
              | link htarget _ => exact absurd htarget (hlink _)

theorem resolve_eq_some_iff :
    t.resolve links current steps = some location ↔ t.Resolves location links current steps := by
  induction links generalizing current steps with
  | zero =>
      apply resolveWith_iff
      intro current name target rest htarget
      refine iff_of_false (by simp) fun h => ?_
      cases h with
      | plain hentry _ => exact hentry target htarget
  | succ fewer ih =>
      apply resolveWith_iff
      intro current name target rest htarget
      rw [ih]
      constructor
      · exact .link htarget
      · intro h
        cases h with
        | plain hentry _ => exact absurd htarget (hentry target)
        | link htarget' hrest =>
            rw [htarget, Option.some.injEq, Entry.link.injEq] at htarget'
            exact htarget' ▸ hrest

theorem Resolves.eq_of_nil (h : t.Resolves location links current []) : location = current := by
  cases h
  rfl

/-- Being allowed more links does not change a location. -/
theorem Resolves.mono {more : Nat} (h : t.Resolves location links current steps)
    (hle : links ≤ more) : t.Resolves location more current steps := by
  induction h generalizing more with
  | nil links => exact .nil more
  | up _ ih => exact .up (ih hle)
  | plain hentry _ ih => exact .plain hentry (ih hle)
  | @link links current name rest target hentry _ ih =>
      cases more with
      | zero => omega
      | succ fewer => exact .link hentry (ih (by omega))

/-- A path resolves to one location at most. -/
theorem Resolves.unique {more : Nat} {other : List ν}
    (h : t.Resolves location links current steps) (h' : t.Resolves other more current steps) :
    location = other := by
  have hmax := resolve_eq_some_iff.mpr (h.mono (Nat.le_max_left links more))
  rw [resolve_eq_some_iff.mpr (h'.mono (Nat.le_max_right links more))] at hmax
  exact (Option.some.inj hmax).symm

/-! ## Two stages -/

/-- Resolving goes through what a first part resolves to. -/
theorem Resolves.split {first second : List (Step ν)}
    (h : t.Resolves location links current (first ++ second)) :
    ∃ between, t.Resolves between links current first ∧
      t.Resolves location links between second := by
  generalize hsteps : first ++ second = steps at h
  induction h generalizing first with
  | nil links =>
      rcases List.append_eq_nil_iff.mp hsteps with ⟨rfl, rfl⟩
      exact ⟨location, .nil links, .nil links⟩
  | @up links current rest hrest ih =>
      cases first with
      | nil =>
          rw [List.nil_append] at hsteps
          exact ⟨current, .nil links, hsteps ▸ .up hrest⟩
      | cons step first =>
          rw [List.cons_append, List.cons.injEq] at hsteps
          rcases ih hsteps.2 with ⟨between, hfirst, hsecond⟩
          exact ⟨between, hsteps.1 ▸ .up hfirst, hsecond⟩
  | @plain links current name rest hentry hrest ih =>
      cases first with
      | nil =>
          rw [List.nil_append] at hsteps
          exact ⟨current, .nil links, hsteps ▸ .plain hentry hrest⟩
      | cons step first =>
          rw [List.cons_append, List.cons.injEq] at hsteps
          rcases ih hsteps.2 with ⟨between, hfirst, hsecond⟩
          exact ⟨between, hsteps.1 ▸ .plain hentry hfirst, hsecond⟩
  | @link links current name rest target hentry hrest ih =>
      cases first with
      | nil =>
          rw [List.nil_append] at hsteps
          exact ⟨current, .nil (links + 1), hsteps ▸ .link hentry hrest⟩
      | cons step first =>
          rw [List.cons_append, List.cons.injEq] at hsteps
          have hinner : (target.steps ++ first) ++ second = target.steps ++ rest := by
            rw [List.append_assoc, hsteps.2]
          rcases ih hinner with ⟨between, hfirst, hsecond⟩
          exact ⟨between, hsteps.1 ▸ .link hentry hfirst, hsecond.mono (Nat.le_succ links)⟩

/-- What two parts resolve to, their concatenation resolves to. -/
theorem Resolves.append {more : Nat} {between : List ν} {first second : List (Step ν)}
    (h : t.Resolves between links current first) (h' : t.Resolves location more between second) :
    t.Resolves location (links + more) current (first ++ second) := by
  induction h with
  | nil links => exact h'.mono (Nat.le_add_left more links)
  | up _ ih => exact .up ih
  | plain hentry _ ih => exact .plain hentry ih
  | @link links current name rest target hentry _ ih =>
      rw [show links + 1 + more = links + more + 1 by omega]
      rw [List.append_assoc] at ih
      exact .link hentry ih

/-! ## Following and resolving -/

private theorem followWith_resolveWith {next next' : List ν → List (Step ν) → Option (List ν)}
    (hnext : ∀ current steps location, next current steps = some location →
      next' current steps = some location)
    (h : t.followWith next current steps = some location) :
    t.resolveWith next' current steps = some location := by
  induction steps generalizing current with
  | nil => exact h
  | cons step rest ih =>
      cases step with
      | up => exact ih h
      | down name =>
          unfold followWith at h
          unfold resolveWith
          cases hentry : t.entry? (current ++ [name]) with
          | none => simp [hentry] at h
          | some entry =>
              cases entry with
              | file =>
                  cases rest with
                  | nil => simpa [hentry, resolveWith] using h
                  | cons _ _ => simp [hentry] at h
              | directory =>
                  rw [hentry] at h
                  exact ih h
              | link target =>
                  rw [hentry] at h
                  exact hnext _ _ _ h

/-- Where a path leads, there it resolves to. -/
theorem resolve_of_follow (h : t.follow links current steps = some location) :
    t.resolve links current steps = some location := by
  induction links generalizing current steps location with
  | zero => exact followWith_resolveWith (fun _ _ _ hnone => hnone) h
  | succ fewer ih => exact followWith_resolveWith (fun _ _ _ hfollow => ih hfollow) h

/-! ## Locations without links on their way -/

theorem plain_nil : t.Plain [] := by
  intro before name hprefix
  simp [List.prefix_nil] at hprefix

theorem Plain.of_part {other : List ν} (h : t.Plain location) (hpart : other <+: location) :
    t.Plain other :=
  fun before name hbefore => h before name (hbefore.trans hpart)

theorem Plain.snoc {name : ν} (h : t.Plain location)
    (hname : ∀ target, t.entry? (location ++ [name]) ≠ some (.link target)) :
    t.Plain (location ++ [name]) := by
  intro before last hprefix
  rcases List.prefix_concat_iff.mp hprefix with heq | hprefix
  · rw [heq]
    exact hname
  · exact h before last hprefix

theorem Plain.start {target : Path ν} (h : t.Plain current) : t.Plain (target.start current) := by
  unfold Path.start
  split
  · exact plain_nil
  · exact h

/-- A resolved location has no link on its way. -/
theorem Resolves.plain_location (h : t.Resolves location links current steps)
    (hplain : t.Plain current) : t.Plain location := by
  induction h with
  | nil links => exact hplain
  | up _ ih => exact ih (hplain.of_part (List.dropLast_prefix _))
  | plain hentry _ ih => exact ih (hplain.snoc hentry)
  | link _ _ ih => exact ih hplain.start

/-- Going down to such a location needs no link. -/
theorem Plain.resolves (h : t.Plain (current ++ location)) (links : Nat) :
    t.Resolves (current ++ location) links current (descend location) := by
  induction location generalizing current with
  | nil =>
      rw [List.append_nil]
      exact .nil links
  | cons name rest ih =>
      rw [List.append_cons] at h ⊢
      refine .plain (h current name ?_) (ih h)
      exact List.prefix_append _ _

theorem Plain.resolves_root (h : t.Plain location) (links : Nat) :
    t.Resolves location links [] (descend location) := by
  have hnil : t.Plain ([] ++ location) := h
  exact hnil.resolves links

/-- Such a location leads to itself or nowhere. -/
theorem Plain.follow {reached : List ν} (hplain : t.Plain location)
    (h : t.follow links [] (descend location) = some reached) : reached = location :=
  (resolve_eq_some_iff.mp (resolve_of_follow h)).unique (hplain.resolves_root links)

end LinkTree

end SymlinkPaths
