import Mathlib.Data.List.Basic

/-!
# Parts of a URI

The decomposition of a URI into scheme, authority, path, query and fragment by its
delimiters, over any alphabet in which some symbols are delimiters.  The alphabet may be
that of the characters, or of the literals and placeholders of a template.

A substitution that keeps delimiters, and replaces every other symbol by symbols that are
no delimiters, commutes with the decomposition where the URI is absolute.  It cannot change
the parts of such a URI, but it may turn a template that is not absolute into a URI that is.

Main results:

- Theorem {lit}`split_subst_of_isAbsolute`: the parts of the result are the results of
  the parts.
- Theorem {lit}`split_subst_iff`: where the result is absolute, this is so exactly for
  absolute templates.
-/

namespace UriParts

variable {α β : Type*}

/-- The delimiters between the parts. -/
inductive Delimiter where
  | colon
  | slash
  | question
  | hash
deriving DecidableEq

/-- The parts of a URI.  The path is given by its segments. -/
@[ext]
structure Parts (α : Type*) where
  scheme : Option (List α)
  authority : Option (List α)
  segments : List (List α)
  query : Option (List α)
  fragment : Option (List α)
deriving DecidableEq

/-- A URI with a scheme and an authority. -/
def Parts.IsAbsolute (parts : Parts α) : Prop :=
  parts.scheme.isSome = true ∧ parts.authority.isSome = true

/-! ## Decomposition -/

/-- A symbol that does not end a part with these ends. -/
def inside (delim : α → Option Delimiter) (ends : List Delimiter) (a : α) : Bool :=
  match delim a with
  | none => true
  | some d => !ends.contains d

/-- The text behind a delimiter. -/
def behind (delim : α → Option Delimiter) (d : Delimiter) : List α → Option (List α)
  | [] => none
  | a :: rest => if delim a = some d then some rest else none

/-- A nonempty name in front of a colon. -/
def splitScheme (delim : α → Option Delimiter) (text : List α) : Option (List α) × List α :=
  let name := text.takeWhile (inside delim [.colon, .slash, .question, .hash])
  match behind delim .colon (text.dropWhile (inside delim [.colon, .slash, .question, .hash])) with
  | none => (none, text)
  | some rest => if name = [] then (none, text) else (some name, rest)

/-- What follows two slashes. -/
def splitAuthority (delim : α → Option Delimiter) (text : List α) : Option (List α) × List α :=
  match (behind delim .slash text).bind (behind delim .slash) with
  | none => (none, text)
  | some rest =>
      (some (rest.takeWhile (inside delim [.slash, .question, .hash])),
        rest.dropWhile (inside delim [.slash, .question, .hash]))

/-- What follows a question mark. -/
def splitQuery (delim : α → Option Delimiter) (text : List α) : Option (List α) × List α :=
  match behind delim .question text with
  | none => (none, text)
  | some rest => (some (rest.takeWhile (inside delim [.hash])),
      rest.dropWhile (inside delim [.hash]))

/-- The segments between the slashes. -/
def pathSegments (delim : α → Option Delimiter) (path : List α) : List (List α) :=
  path.splitOnP fun a => decide (delim a = some .slash)

/-- The parts of the path, the query and the fragment. -/
def splitPath (delim : α → Option Delimiter) (scheme authority : Option (List α))
    (text : List α) : Parts α :=
  let path := text.takeWhile (inside delim [.question, .hash])
  let query := splitQuery delim (text.dropWhile (inside delim [.question, .hash]))
  ⟨scheme, authority, pathSegments delim path, query.1, behind delim .hash query.2⟩

/-- The parts of a URI. -/
def split (delim : α → Option Delimiter) (text : List α) : Parts α :=
  let scheme := splitScheme delim text
  let authority := splitAuthority delim scheme.2
  splitPath delim scheme.1 authority.1 authority.2

/-! ## Substitutions -/

/-- A substitution that keeps delimiters and introduces none. -/
structure Respects (delim : α → Option Delimiter) (delim' : β → Option Delimiter)
    (f : α → List β) : Prop where
  delimiter : ∀ a d, delim a = some d → ∃ b, f a = [b] ∧ delim' b = some d
  plain : ∀ a, delim a = none → ∀ b ∈ f a, delim' b = none

/-- A substitution applied to each part. -/
def Parts.subst (f : α → List β) (parts : Parts α) : Parts β where
  scheme := parts.scheme.map (List.flatMap f)
  authority := parts.authority.map (List.flatMap f)
  segments := parts.segments.map (List.flatMap f)
  query := parts.query.map (List.flatMap f)
  fragment := parts.fragment.map (List.flatMap f)

section

variable {delim : α → Option Delimiter} {delim' : β → Option Delimiter} {f : α → List β}

/-- The first part of a text is substituted by itself. -/
theorem takeWhile_flatMap (h : Respects delim delim' f) (ends : List Delimiter)
    (text : List α) :
    (text.flatMap f).takeWhile (inside delim' ends) =
      (text.takeWhile (inside delim ends)).flatMap f := by
  induction text with
  | nil => rfl
  | cons a rest ih =>
      rw [List.flatMap_cons]
      cases hdelim : delim a with
      | none =>
          have hinside : inside delim ends a = true := by simp [inside, hdelim]
          have hall : ∀ b ∈ f a, inside delim' ends b = true := by
            intro b hb
            simp [inside, h.plain a hdelim b hb]
          rw [List.takeWhile_append_of_pos hall, List.takeWhile_cons_of_pos hinside,
            List.flatMap_cons, ih]
      | some d =>
          rcases h.delimiter a d hdelim with ⟨b, hfa, hb⟩
          have hsame : inside delim' ends b = inside delim ends a := by
            simp [inside, hdelim, hb]
          rw [hfa, List.singleton_append, List.takeWhile_cons, List.takeWhile_cons, hsame]
          cases inside delim ends a with
          | true => simp [hfa, ih]
          | false => rfl

/-- And so is what remains. -/
theorem dropWhile_flatMap (h : Respects delim delim' f) (ends : List Delimiter)
    (text : List α) :
    (text.flatMap f).dropWhile (inside delim' ends) =
      (text.dropWhile (inside delim ends)).flatMap f := by
  have hsplit := congrArg (List.flatMap f)
    (List.takeWhile_append_dropWhile (p := inside delim ends) (l := text))
  rw [List.flatMap_append, ← takeWhile_flatMap h] at hsplit
  exact List.append_cancel_left
    ((List.takeWhile_append_dropWhile (p := inside delim' ends)).trans hsplit.symm)

/-- A text that begins with a delimiter still begins with it. -/
theorem behind_flatMap (h : Respects delim delim' f) {d : Delimiter} {text rest : List α}
    (hbehind : behind delim d text = some rest) :
    behind delim' d (text.flatMap f) = some (rest.flatMap f) := by
  cases text with
  | nil => cases hbehind
  | cons a text =>
      rw [behind, Option.ite_none_right_eq_some] at hbehind
      rcases hbehind with ⟨hdelim, hrest⟩
      rcases h.delimiter a d hdelim with ⟨b, hfa, hb⟩
      rw [List.flatMap_cons, hfa, List.singleton_append, behind, if_pos hb,
        Option.some.inj hrest]

/-- What remains behind a part begins with a delimiter, if at all. -/
theorem behind_dropWhile_flatMap (h : Respects delim delim' f) (ends : List Delimiter)
    (d : Delimiter) (text : List α) :
    behind delim' d ((text.dropWhile (inside delim ends)).flatMap f) =
      (behind delim d (text.dropWhile (inside delim ends))).map (List.flatMap f) := by
  cases hrest : text.dropWhile (inside delim ends) with
  | nil => rfl
  | cons a rest =>
      have houtside : ¬ inside delim ends a = true := by
        have hne : text.dropWhile (inside delim ends) ≠ [] := by simp [hrest]
        have hhead := List.head_dropWhile_not (inside delim ends) hne
        simp only [hrest, List.head_cons] at hhead
        rw [hhead]
        exact Bool.false_ne_true
      cases hdelim : delim a with
      | none => exact absurd (by simp [inside, hdelim]) houtside
      | some e =>
          rcases h.delimiter a e hdelim with ⟨b, hfa, hb⟩
          simp only [List.flatMap_cons, hfa, List.singleton_append, behind, hb, hdelim]
          split <;> rfl

/-- Symbols that are no delimiters go to the front of the first segment. -/
theorem pathSegments_append (front rest : List β) (hfront : ∀ b ∈ front, delim' b = none) :
    pathSegments delim' (front ++ rest) = (pathSegments delim' rest).modifyHead (front ++ ·) := by
  induction front with
  | nil =>
      have hid : (fun segment : List β => [] ++ segment) = id := rfl
      rw [List.nil_append, hid, List.modifyHead_id]
      rfl
  | cons b front ih =>
      rw [List.forall_mem_cons] at hfront
      have hplain : ¬ decide (delim' b = some .slash) = true := by simp [hfront.1]
      have hfirst : pathSegments delim' (b :: (front ++ rest)) =
          (pathSegments delim' (front ++ rest)).modifyHead (List.cons b) := by
        unfold pathSegments
        rw [List.splitOnP_cons_eq_if_modifyHead, if_neg hplain]
      rw [List.cons_append, hfirst, ih hfront.2, List.modifyHead_modifyHead]
      rfl

private theorem pathSegments_cons_slash {b : β} (hb : delim' b = some .slash) (rest : List β) :
    pathSegments delim' (b :: rest) = [] :: pathSegments delim' rest := by
  unfold pathSegments
  rw [List.splitOnP_cons_eq_if_modifyHead, if_pos (decide_eq_true hb)]

private theorem pathSegments_cons {b : β} (hb : delim' b ≠ some .slash) (rest : List β) :
    pathSegments delim' (b :: rest) = (pathSegments delim' rest).modifyHead (List.cons b) := by
  unfold pathSegments
  rw [List.splitOnP_cons_eq_if_modifyHead, if_neg (by simpa using hb)]

private theorem map_modifyHead_flatMap (a : α) (parts : List (List α)) :
    (parts.modifyHead (List.cons a)).map (List.flatMap f) =
      (parts.map (List.flatMap f)).modifyHead (f a ++ ·) := by
  cases parts with
  | nil => rfl
  | cons segment parts => simp

/-- The segments of a path are substituted one by one. -/
theorem pathSegments_flatMap (h : Respects delim delim' f) (path : List α) :
    pathSegments delim' (path.flatMap f) = (pathSegments delim path).map (List.flatMap f) := by
  induction path with
  | nil => rfl
  | cons a rest ih =>
      rw [List.flatMap_cons]
      cases hdelim : delim a with
      | none =>
          rw [pathSegments_append _ _ (h.plain a hdelim), ih,
            pathSegments_cons (by simp [hdelim]), map_modifyHead_flatMap]
      | some d =>
          rcases h.delimiter a d hdelim with ⟨b, hfa, hb⟩
          by_cases hslash : d = .slash
          · rw [hslash] at hdelim hb
            rw [hfa, List.singleton_append, pathSegments_cons_slash hb,
              pathSegments_cons_slash hdelim, ih]
            rfl
          · rw [pathSegments_cons (by simpa [hdelim] using hslash), map_modifyHead_flatMap, ← ih,
              hfa, List.singleton_append, pathSegments_cons (by simpa [hb] using hslash)]
            rfl

/-- Query and fragment are substituted one by one. -/
theorem splitQuery_flatMap (h : Respects delim delim' f) (ends : List Delimiter)
    (text : List α) :
    let rest := text.dropWhile (inside delim ends)
    (splitQuery delim' (rest.flatMap f)).1 = (splitQuery delim rest).1.map (List.flatMap f) ∧
      behind delim' .hash (splitQuery delim' (rest.flatMap f)).2 =
        (behind delim .hash (splitQuery delim rest).2).map (List.flatMap f) := by
  simp only [splitQuery, behind_dropWhile_flatMap h]
  cases behind delim .question (text.dropWhile (inside delim ends)) with
  | none => exact ⟨rfl, behind_dropWhile_flatMap h ends .hash text⟩
  | some query =>
      simp only [Option.map_some]
      rw [takeWhile_flatMap h, dropWhile_flatMap h]
      exact ⟨rfl, behind_dropWhile_flatMap h [.hash] .hash query⟩

private theorem splitPath_flatMap (h : Respects delim delim' f) (scheme authority : Option (List α))
    (text : List α) :
    splitPath delim' (scheme.map (List.flatMap f)) (authority.map (List.flatMap f))
        (text.flatMap f) =
      (splitPath delim scheme authority text).subst f := by
  rcases splitQuery_flatMap h [.question, .hash] text with ⟨hquery, hfragment⟩
  simp only [splitPath, Parts.subst]
  rw [takeWhile_flatMap h, dropWhile_flatMap h, pathSegments_flatMap h, hquery, hfragment]

/-! ## Absolute URIs -/

/-- An absolute URI is a nonempty name, a colon, two slashes, an authority and the rest. -/
theorem split_eq_of_absolute {name rest rest' text' : List α} {text : List α}
    (hname : text.takeWhile (inside delim [.colon, .slash, .question, .hash]) = name)
    (hne : name ≠ [])
    (hcolon : behind delim .colon
      (text.dropWhile (inside delim [.colon, .slash, .question, .hash])) = some rest)
    (hslash : behind delim .slash rest = some rest')
    (hslashes : behind delim .slash rest' = some text') :
    split delim text = splitPath delim (some name)
      (some (text'.takeWhile (inside delim [.slash, .question, .hash])))
      (text'.dropWhile (inside delim [.slash, .question, .hash])) := by
  simp only [split, splitScheme, hcolon, hname, if_neg hne, splitAuthority, hslash,
    Option.bind_some, hslashes]

/-- The symbols of an absolute URI. -/
theorem exists_of_isAbsolute {text : List α} (habs : (split delim text).IsAbsolute) :
    ∃ rest rest' text',
      text.takeWhile (inside delim [.colon, .slash, .question, .hash]) ≠ [] ∧
      behind delim .colon
        (text.dropWhile (inside delim [.colon, .slash, .question, .hash])) = some rest ∧
      behind delim .slash rest = some rest' ∧ behind delim .slash rest' = some text' := by
  rcases habs with ⟨hscheme, hauthority⟩
  simp only [split, splitPath, splitScheme] at hscheme hauthority
  cases hcolon : behind delim .colon
      (text.dropWhile (inside delim [.colon, .slash, .question, .hash])) with
  | none =>
      rw [hcolon] at hscheme
      cases hscheme
  | some rest =>
      rw [hcolon] at hscheme hauthority
      dsimp only at hscheme hauthority
      split at hscheme
      · cases hscheme
      · rename_i hname
        rw [if_neg hname] at hauthority
        simp only [splitAuthority] at hauthority
        cases hslashes : (behind delim .slash rest).bind (behind delim .slash) with
        | none =>
            rw [hslashes] at hauthority
            cases hauthority
        | some text' =>
            rcases Option.bind_eq_some_iff.mp hslashes with ⟨rest', hslash, hslash'⟩
            exact ⟨rest, rest', text', hname, rfl, hslash, hslash'⟩

/-- Where template and result are absolute, the parts of the result are the results of the
parts. -/
theorem split_subst_of_isAbsolute (h : Respects delim delim' f) {text : List α}
    (habs : (split delim text).IsAbsolute)
    (habs' : (split delim' (text.flatMap f)).IsAbsolute) :
    split delim' (text.flatMap f) = (split delim text).subst f := by
  rcases exists_of_isAbsolute habs with ⟨rest, rest', text', hname, hcolon, hslash, hslash'⟩
  rcases exists_of_isAbsolute habs' with ⟨_, _, _, hname', _⟩
  have hcolon' : behind delim' .colon ((text.flatMap f).dropWhile
      (inside delim' [.colon, .slash, .question, .hash])) = some (rest.flatMap f) := by
    rw [dropWhile_flatMap h]
    exact behind_flatMap h hcolon
  rw [split_eq_of_absolute rfl hname' hcolon' (behind_flatMap h hslash) (behind_flatMap h hslash'),
    split_eq_of_absolute rfl hname hcolon hslash hslash', takeWhile_flatMap h,
    takeWhile_flatMap h, dropWhile_flatMap h]
  exact splitPath_flatMap h (some _) (some _) _

/-- Where the result is absolute, a substitution commutes with the decomposition exactly
for absolute templates. -/
theorem split_subst_iff (h : Respects delim delim' f) {text : List α}
    (habs' : (split delim' (text.flatMap f)).IsAbsolute) :
    split delim' (text.flatMap f) = (split delim text).subst f ↔
      (split delim text).IsAbsolute := by
  constructor
  · intro hsame
    rw [hsame] at habs'
    rcases habs' with ⟨hscheme, hauthority⟩
    simp only [Parts.subst, Option.isSome_map] at hscheme hauthority
    exact ⟨hscheme, hauthority⟩
  · intro habs
    exact split_subst_of_isAbsolute h habs habs'

end

end UriParts
