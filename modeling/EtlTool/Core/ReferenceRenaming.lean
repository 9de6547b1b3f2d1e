import EtlTool.Core.Schema
import Mathlib.Data.List.TakeWhile

/-!
# Renaming a node in references

What a config should become when a node gets another id: every upstream reference whose
path starts with the old id starts with the new one, in whole references and in embedded
ones at any depth, and every other character stays.

Main results:

- Theorem {lit}`findReferences_rename`: the references of a renamed value are the renamed
  references of the value, in the same order.
- Theorem {lit}`renameFields_of_not_named`: a config that does not name the old id stays as
  it is.
-/

namespace EtlTool

/-! ## References as text -/

/-- The characters of a piece. -/
def Piece.chars : Piece → List Char
  | .text c => [c]
  | .ref kind path =>
      '$' :: '\x7b' :: (kind.name.toList ++ '.' :: (path.toList ++ ['\x7d']))

/-- The newline before which a whole reference may end. -/
def closingNewline (text : List Char) : List Char :=
  if text.getLast? = some '\n' then ['\n'] else []

/-- The literal in front of the path of a reference. -/
theorem stripNamespace_eq_some {opening text rest : List Char} {kind : RefKind}
    (h : stripNamespace opening text = some (kind, rest)) :
    text = opening ++ (kind.name.toList ++ '.' :: rest) := by
  unfold stripNamespace at h
  split at h
  · rename_i after hafter
    cases h
    rw [stripLiteral_eq_some_iff.mp hafter, List.append_assoc]
    rfl
  · rcases Option.map_eq_some_iff.mp h with ⟨after, hafter, heq⟩
    cases heq
    rw [stripLiteral_eq_some_iff.mp hafter, List.append_assoc]
    rfl

private theorem stripNamespace_append (opening rest : List Char) (kind : RefKind) :
    stripNamespace opening (opening ++ (kind.name.toList ++ '.' :: rest)) = some (kind, rest) := by
  cases kind with
  | upstream =>
      have hstrip : stripLiteral (opening ++ "upstream.".toList)
          (opening ++ (RefKind.upstream.name.toList ++ '.' :: rest)) = some rest := by
        rw [stripLiteral_eq_some_iff, List.append_assoc]
        rfl
      simp only [stripNamespace, hstrip]
  | iter =>
      have hother : stripLiteral (opening ++ "upstream.".toList)
          (opening ++ (RefKind.iter.name.toList ++ '.' :: rest)) = none := by
        induction opening with
        | nil => rfl
        | cons c opening ih => simpa [stripLiteral] using ih
      have hstrip : stripLiteral (opening ++ "iter.".toList)
          (opening ++ (RefKind.iter.name.toList ++ '.' :: rest)) = some rest := by
        rw [stripLiteral_eq_some_iff, List.append_assoc]
        rfl
      simp only [stripNamespace, hother, hstrip, Option.map_some]

/-- An embedded reference at the front of a text is its piece, followed by the rest. -/
theorem matchEmbedded?_eq_some_iff {text rest : List Char} {kind : RefKind} {path : String} :
    matchEmbedded? text = some (kind, path, rest) ↔
      text = (Piece.ref kind path).chars ++ rest ∧ path.toList ≠ [] ∧ '\x7d' ∉ path.toList := by
  constructor
  · intro h
    unfold matchEmbedded? at h
    split at h
    · cases h
    · rename_i found after hstrip
      split at h
      · cases h
      · rename_i stop rest' hdrop
        dsimp only at h
        split at h
        · cases h
        · rename_i hempty
          cases h
          have hstop : stop = '\x7d' := by
            have hhead := List.head?_dropWhile_not (p := fun c => decide (c ≠ '\x7d')) (l := after)
            rw [hdrop] at hhead
            simpa using hhead
          have hafter : after = after.takeWhile (· ≠ '\x7d') ++ '\x7d' :: rest := by
            have hsplit := List.takeWhile_append_dropWhile (p := (· ≠ '\x7d')) (l := after)
            rw [hdrop, hstop] at hsplit
            exact hsplit.symm
          refine ⟨?_, ?_, ?_⟩
          · rw [stripNamespace_eq_some hstrip]
            nth_rewrite 1 [hafter]
            simp [Piece.chars]
          · simpa using hempty
          · intro hmem
            rw [String.toList_ofList] at hmem
            simpa using List.mem_takeWhile_imp hmem
  · intro h
    rcases h with ⟨rfl, hpath, hbrace⟩
    have htext : (Piece.ref kind path).chars ++ rest =
        ['$', '\x7b'] ++ (kind.name.toList ++ '.' :: (path.toList ++ '\x7d' :: rest)) := by
      simp [Piece.chars]
    have htake : (path.toList ++ '\x7d' :: rest).takeWhile (· ≠ '\x7d') = path.toList := by
      rw [List.takeWhile_append_of_pos fun c hc => by
        simpa using fun heq : c = '\x7d' => hbrace (heq ▸ hc)]
      simp
    have hdrop : (path.toList ++ '\x7d' :: rest).dropWhile (· ≠ '\x7d') = '\x7d' :: rest := by
      rw [List.dropWhile_append_of_pos fun c hc => by
        simpa using fun heq : c = '\x7d' => hbrace (heq ▸ hc)]
      simp
    unfold matchEmbedded?
    rw [htext, stripNamespace_append]
    simp only [htake, hdrop]
    simp [hpath]

/-- The pieces of a text spell it. -/
theorem flatMap_chars_scanPieces : ∀ (fuel : Nat) (text : List Char), text.length ≤ fuel →
    (scanPieces fuel text).flatMap Piece.chars = text
  | 0, [], _ => rfl
  | 0, _ :: _, h => absurd h (Nat.not_succ_le_zero _)
  | _ + 1, [], _ => rfl
  | fuel + 1, c :: rest, h => by
      rw [scanPieces]
      cases hmatch : matchEmbedded? (c :: rest) with
      | none =>
          have hrest := flatMap_chars_scanPieces fuel rest (Nat.le_of_succ_le_succ h)
          simp only [List.flatMap_cons, Piece.chars, hrest, List.singleton_append]
      | some found =>
          rcases found with ⟨kind, path, rest'⟩
          rcases matchEmbedded?_eq_some_iff.mp hmatch with ⟨htext, -, -⟩
          have hlength : rest'.length ≤ fuel := by
            have hsame := congrArg List.length htext
            simp [Piece.chars] at hsame h
            omega
          simp only [List.flatMap_cons, flatMap_chars_scanPieces fuel rest' hlength, htext]

/-- What {lit}`WHOLE_RE` takes as the path, and the newline that it may leave. -/
theorem append_closingNewline (rest : List Char) :
    (if rest.getLast? = some '\n' then rest.dropLast else rest) ++ closingNewline rest = rest := by
  unfold closingNewline
  split
  · rename_i hnewline
    exact List.dropLast_append_getLast? _ hnewline
  · exact List.append_nil rest

/-- The characters of the path of a whole reference. -/
def isPathChar (c : Char) : Bool :=
  !isSpaceChar c && c != '\x7b' && c != '\x7d'

/-- A whole reference is its path behind the namespace, up to a closing newline. -/
theorem wholeReference?_eq_some {text path : String} {kind : RefKind}
    (h : wholeReference? text = some (kind, path)) :
    text.toList = '$' :: (kind.name.toList ++ '.' :: (path.toList ++ closingNewline text.toList)) ∧
      path.toList ≠ [] ∧ ∀ c ∈ path.toList, isPathChar c = true := by
  unfold wholeReference? at h
  split at h
  · cases h
  · rename_i found rest hstrip
    have htext := stripNamespace_eq_some hstrip
    simp only [Option.ite_none_right_eq_some, Option.some.injEq, Prod.mk.injEq,
      Bool.and_eq_true] at h
    rcases h with ⟨⟨hnonempty, hchars⟩, rfl, rfl⟩
    have hrest : rest ≠ [] := by
      intro hempty
      simp [hempty] at hnonempty
    have hlast : text.toList.getLast? = rest.getLast? := by
      have hsplit : text.toList = ('$' :: (found.name.toList ++ ['.'])) ++ rest := by
        rw [htext]
        simp
      rw [hsplit, List.getLast?_append]
      cases hend : rest.getLast? with
      | none => exact absurd (List.getLast?_eq_none_iff.mp hend) hrest
      | some c => rfl
    have hclosing : closingNewline text.toList = closingNewline rest := by
      unfold closingNewline
      rw [hlast]
    rw [String.toList_ofList, hclosing, append_closingNewline]
    refine ⟨htext, by simpa using hnonempty, ?_⟩
    intro c hc
    simpa [isPathChar] using List.all_eq_true.mp hchars c hc

/-- A path behind a namespace, up to a closing newline, is a whole reference. -/
theorem wholeReference?_of_text {text path : List Char} {kind : RefKind} {newline : List Char}
    (htext : text = '$' :: (kind.name.toList ++ '.' :: (path ++ newline)))
    (hnewline : newline = [] ∨ newline = ['\n']) (hpath : path ≠ [])
    (hchars : ∀ c ∈ path, isPathChar c = true) :
    wholeReference? (String.ofList text) = some (kind, String.ofList path) := by
  have hstrip : stripNamespace ['$'] text = some (kind, path ++ newline) := by
    rw [htext]
    exact stripNamespace_append ['$'] (path ++ newline) kind
  have hcut : (if (path ++ newline).getLast? = some '\n' then (path ++ newline).dropLast
      else path ++ newline) = path := by
    rcases hnewline with rfl | rfl
    · rw [List.append_nil, if_neg]
      intro hlast
      have hmem := hchars _ (List.mem_of_getLast? hlast)
      revert hmem
      decide
    · simp
  unfold wholeReference?
  rw [String.toList_ofList, hstrip]
  simp only [hcut]
  rw [if_pos]
  rw [Bool.and_eq_true]
  exact ⟨by simpa using hpath, List.all_eq_true.mpr fun c hc => by
    simpa [isPathChar] using hchars c hc⟩

/-! ## The renaming -/

/-- The path of a reference, with the new id in place of the old one before its first
dot. -/
def renamePath (old new : String) (kind : RefKind) (path : String) : String :=
  match kind with
  | .iter => path
  | .upstream =>
      if referenceTarget path = old then
        String.ofList (new.toList ++ path.toList.dropWhile (· ≠ '.'))
      else path

/-- A reference after the renaming. -/
def renameReference (old new : String) (reference : RefKind × String) : RefKind × String :=
  (reference.1, renamePath old new reference.1 reference.2)

/-- A piece after the renaming. -/
def Piece.rename (old new : String) : Piece → Piece
  | .text c => .text c
  | .ref kind path => .ref kind (renamePath old new kind path)

/-- A text after the renaming. -/
def renameText (old new text : String) : String :=
  if isEscaped text then text
  else
    match wholeReference? text with
    | some (kind, path) =>
        String.ofList ('$' :: (kind.name.toList ++ '.' ::
          ((renamePath old new kind path).toList ++ closingNewline text.toList)))
    | none => String.ofList (((pieces text).map (Piece.rename old new)).flatMap Piece.chars)

mutual

/-- A config value after the renaming. -/
def renameValue (old new : String) : Value → Value
  | .str text => .str (renameText old new text)
  | .dict fields => .dict (renameFields old new fields)
  | .list items => .list (renameItems old new items)
  | v => v

/-- The items of a list after the renaming. -/
def renameItems (old new : String) : List Value → List Value
  | [] => []
  | v :: rest => renameValue old new v :: renameItems old new rest

/-- The fields of a config after the renaming. -/
def renameFields (old new : String) : List (String × Value) → List (String × Value)
  | [] => []
  | (key, v) :: rest => (key, renameValue old new v) :: renameFields old new rest

end

/-! ## Configs that do not name the node -/

/-- No upstream reference of the list names the node. -/
def NotNamed (old : String) (references : List (RefKind × String)) : Prop :=
  ∀ path, (RefKind.upstream, path) ∈ references → referenceTarget path ≠ old

private theorem notNamed_append {old : String} {first second : List (RefKind × String)} :
    NotNamed old (first ++ second) ↔ NotNamed old first ∧ NotNamed old second := by
  unfold NotNamed
  constructor
  · intro h
    exact ⟨fun path hmem => h path (List.mem_append_left _ hmem),
      fun path hmem => h path (List.mem_append_right _ hmem)⟩
  · intro h path hmem
    rcases List.mem_append.mp hmem with hfirst | hsecond
    · exact h.1 path hfirst
    · exact h.2 path hsecond

private theorem renamePath_of_not_named {old : String} (new : String) {kind : RefKind}
    {path : String}
    (h : NotNamed old [(kind, path)]) : renamePath old new kind path = path := by
  cases kind with
  | iter => rfl
  | upstream => exact if_neg (h path List.mem_cons_self)

private theorem map_rename_of_not_named {old : String} (new : String) {ps : List Piece}
    (h : NotNamed old (ps.filterMap Piece.reference?)) : ps.map (Piece.rename old new) = ps := by
  induction ps with
  | nil => rfl
  | cons piece ps ih =>
      cases piece with
      | text c =>
          have hrest : NotNamed old (ps.filterMap Piece.reference?) := h
          rw [List.map_cons, ih hrest]
          rfl
      | ref kind path =>
          have hsplit : NotNamed old ([(kind, path)] ++ ps.filterMap Piece.reference?) := by
            simpa [Piece.reference?] using h
          rw [List.map_cons, ih (notNamed_append.mp hsplit).2, Piece.rename,
            renamePath_of_not_named new (notNamed_append.mp hsplit).1]

/-- A text that does not name the node stays as it is. -/
theorem renameText_of_not_named {old : String} (new : String) {text : String}
    (h : NotNamed old (findInString text)) : renameText old new text = text := by
  unfold renameText
  unfold findInString at h
  split
  · rfl
  · rename_i hescaped
    rw [if_neg hescaped] at h
    cases hwhole : wholeReference? text with
    | some reference =>
        rcases reference with ⟨kind, path⟩
        rw [hwhole] at h
        simp only [renamePath_of_not_named new h, ← (wholeReference?_eq_some hwhole).1,
          String.ofList_toList]
    | none =>
        rw [hwhole] at h
        simp only [map_rename_of_not_named new h]
        rw [pieces, flatMap_chars_scanPieces _ _ le_rfl, String.ofList_toList]

mutual

private theorem renameValue_of_not_named {old : String} (new : String) : ∀ v : Value,
    NotNamed old (findReferences v) → renameValue old new v = v
  | .str text, h => by rw [renameValue, renameText_of_not_named new h]
  | .dict fields, h => by rw [renameValue, renameFields_of_not_named new fields h]
  | .list items, h => by rw [renameValue, renameItems_of_not_named new items h]
  | .none, _ => rfl
  | .bool _, _ => rfl
  | .int _, _ => rfl
  | .float _, _ => rfl
  | .foreign _ _ _, _ => rfl

private theorem renameItems_of_not_named {old : String} (new : String) : ∀ items : List Value,
    NotNamed old (findInItems items) → renameItems old new items = items
  | [], _ => rfl
  | v :: rest, h => by
      rw [findInItems, notNamed_append] at h
      rw [renameItems, renameValue_of_not_named new v h.1, renameItems_of_not_named new rest h.2]

/-- A config that does not name the node stays as it is. -/
theorem renameFields_of_not_named {old : String} (new : String) :
    ∀ fields : List (String × Value), NotNamed old (findInFields fields) →
      renameFields old new fields = fields
  | [], _ => rfl
  | (key, v) :: rest, h => by
      rw [findInFields, notNamed_append] at h
      rw [renameFields, renameValue_of_not_named new v h.1, renameFields_of_not_named new rest h.2]

end

/-! ## The references of a renamed config -/

/-- The characters of a node id: letters, digits, underscores and hyphens. -/
theorem isAlphanum_of_matchesNodeIdPattern {id : String} (h : matchesNodeIdPattern id = true) :
    ∀ c ∈ id.toList, c.isAlphanum = true ∨ c = '_' ∨ c = '-' := by
  unfold matchesNodeIdPattern at h
  cases hid : id.toList with
  | nil => simp
  | cons first rest =>
      rw [hid] at h
      simp only [Bool.and_eq_true, Bool.or_eq_true, decide_eq_true_eq, List.all_eq_true] at h
      intro c hc
      rcases List.mem_cons.mp hc with hfirst | hrest
      · rw [hfirst]
        rcases h.1 with hletter | hunderscore
        · exact Or.inl (by simp [Char.isAlphanum, hletter])
        · exact Or.inr (Or.inl hunderscore)
      · exact or_assoc.mp (h.2 c hrest)

/-- The characters of a node id can stand in a path. -/
theorem isPathChar_of_matchesNodeIdPattern {id : String} (h : matchesNodeIdPattern id = true) :
    ∀ c ∈ id.toList, isPathChar c = true := by
  intro c hc
  rcases isAlphanum_of_matchesNodeIdPattern h c hc with hchar | rfl | rfl
  · have hrange := ranges_of_isAlphanum hchar
    have hspace : isSpaceChar c = false := by
      simp only [isSpaceChar, decide_eq_false_iff_not]
      omega
    have hopen : c ≠ '\x7b' := by
      rintro rfl
      revert hchar
      decide
    have hclose : c ≠ '\x7d' := by
      rintro rfl
      revert hchar
      decide
    simp [isPathChar, hspace, hopen, hclose]
  · decide
  · decide

private theorem mem_renamePath {old new path : String} {kind : RefKind} {c : Char}
    (h : c ∈ (renamePath old new kind path).toList) : c ∈ new.toList ∨ c ∈ path.toList := by
  unfold renamePath at h
  split at h
  · exact Or.inr h
  · split at h
    · rw [String.toList_ofList] at h
      rcases List.mem_append.mp h with hnew | hpath
      · exact Or.inl hnew
      · exact Or.inr ((List.dropWhile_sublist _).mem hpath)
    · exact Or.inr h

private theorem renamePath_ne_nil {old new path : String} {kind : RefKind} (hnew : new.toList ≠ [])
    (hpath : path.toList ≠ []) : (renamePath old new kind path).toList ≠ [] := by
  unfold renamePath
  split
  · exact hpath
  · split
    · rw [String.toList_ofList]
      exact List.append_ne_nil_of_left_ne_nil hnew _
    · exact hpath

private theorem filterMap_reference_rename (old new : String) (ps : List Piece) :
    (ps.map (Piece.rename old new)).filterMap Piece.reference? =
      (ps.filterMap Piece.reference?).map (renameReference old new) := by
  rw [List.filterMap_map, List.map_filterMap]
  congr 1
  funext piece
  cases piece with
  | text c => rfl
  | ref kind path => rfl

section Scanning

variable {old new : String}

/-- A literal without a dollar sign is found in front of the same pieces. -/
theorem stripLiteral_rename {literal : List Char} (h : '$' ∉ literal) (ps : List Piece) :
    (stripLiteral literal (ps.flatMap Piece.chars) = none ∧
      stripLiteral literal ((ps.map (Piece.rename old new)).flatMap Piece.chars) = none) ∨
    ∃ rest : List Piece,
      stripLiteral literal (ps.flatMap Piece.chars) = some (rest.flatMap Piece.chars) ∧
      stripLiteral literal ((ps.map (Piece.rename old new)).flatMap Piece.chars) =
        some ((rest.map (Piece.rename old new)).flatMap Piece.chars) := by
  induction literal generalizing ps with
  | nil => exact Or.inr ⟨ps, rfl, rfl⟩
  | cons d literal ih =>
      have hd : d ≠ '$' := fun heq => h (heq ▸ List.mem_cons_self)
      cases ps with
      | nil => exact Or.inl ⟨rfl, rfl⟩
      | cons piece ps =>
          cases piece with
          | ref kind path =>
              left
              simp [Piece.chars, Piece.rename, stripLiteral, hd]
          | text c =>
              by_cases hc : d = c
              · subst hc
                simpa [Piece.chars, Piece.rename, stripLiteral] using
                  ih (fun hmem => h (List.mem_cons_of_mem d hmem)) ps
              · left
                simp [Piece.chars, Piece.rename, stripLiteral, hc]

/-- The opening of an embedded reference is found in front of the same pieces. -/
theorem stripNamespace_rename (c : Char) (ps : List Piece) :
    (stripNamespace ['$', '\x7b'] (c :: ps.flatMap Piece.chars) = none ∧
      stripNamespace ['$', '\x7b']
        (c :: (ps.map (Piece.rename old new)).flatMap Piece.chars) = none) ∨
    ∃ (kind : RefKind) (rest : List Piece),
      stripNamespace ['$', '\x7b'] (c :: ps.flatMap Piece.chars) =
        some (kind, rest.flatMap Piece.chars) ∧
      stripNamespace ['$', '\x7b'] (c :: (ps.map (Piece.rename old new)).flatMap Piece.chars) =
        some (kind, (rest.map (Piece.rename old new)).flatMap Piece.chars) := by
  by_cases hc : c = '$'
  · subst hc
    have hstep : ∀ literal text, stripLiteral ('$' :: literal) ('$' :: text) =
        stripLiteral literal text := fun _ _ => if_pos rfl
    simp only [stripNamespace, List.cons_append, hstep]
    rcases @stripLiteral_rename old new ('\x7b' :: ([] ++ "upstream.".toList)) (by decide) ps with
      ⟨hnone, hnone'⟩ | ⟨rest, hsome, hsome'⟩
    · rw [hnone, hnone']
      rcases @stripLiteral_rename old new ('\x7b' :: ([] ++ "iter.".toList)) (by decide) ps with
        ⟨hnone, hnone'⟩ | ⟨rest, hsome, hsome'⟩
      · rw [hnone, hnone']
        exact Or.inl ⟨rfl, rfl⟩
      · rw [hsome, hsome']
        exact Or.inr ⟨.iter, rest, rfl, rfl⟩
    · rw [hsome, hsome']
      exact Or.inr ⟨.upstream, rest, rfl, rfl⟩
  · left
    have hstep : ∀ literal text, stripLiteral ('$' :: literal) (c :: text) = none :=
      fun _ _ => if_neg (Ne.symm hc)
    simp [stripNamespace, hstep]

/-- Without a brace there is no reference. -/
theorem no_references_of_no_brace {ps : List Piece} {brace : Char}
    (hbrace : brace = '\x7b' ∨ brace = '\x7d') (h : brace ∉ ps.flatMap Piece.chars) :
    ps.filterMap Piece.reference? = [] := by
  apply List.filterMap_eq_nil_iff.mpr
  intro piece hpiece
  cases piece with
  | text c => rfl
  | ref kind path =>
      exfalso
      apply h
      apply List.mem_flatMap.mpr
      refine ⟨_, hpiece, ?_⟩
      rcases hbrace with rfl | rfl <;> simp [Piece.chars]

private theorem rename_of_no_references {ps : List Piece} (h : ps.filterMap Piece.reference? = []) :
    ps.map (Piece.rename old new) = ps := by
  apply map_rename_of_not_named
  rw [h]
  exact fun path hmem => absurd hmem List.not_mem_nil

/-- Where no embedded reference starts, none starts after the renaming. -/
theorem matchEmbedded?_rename_none {c : Char} {ps : List Piece}
    (h : matchEmbedded? (c :: ps.flatMap Piece.chars) = none) :
    matchEmbedded? (c :: (ps.map (Piece.rename old new)).flatMap Piece.chars) = none := by
  unfold matchEmbedded? at h ⊢
  rcases @stripNamespace_rename old new c ps with
    ⟨-, hnone⟩ | ⟨kind, rest, hsome, hsome'⟩
  · rw [hnone]
  · rw [hsome] at h
    rw [hsome']
    dsimp only at h ⊢
    by_cases hbrace : '\x7d' ∈ rest.flatMap Piece.chars
    · -- A closing brace follows, so the path is empty, before and after.
      have hdrop : (rest.flatMap Piece.chars).dropWhile (· ≠ '\x7d') ≠ [] := by
        intro hempty
        simpa using List.dropWhile_eq_nil_iff.mp hempty '\x7d' hbrace
      have htake : (rest.flatMap Piece.chars).takeWhile (· ≠ '\x7d') = [] := by
        cases hrest : (rest.flatMap Piece.chars).dropWhile (· ≠ '\x7d') with
        | nil => exact absurd hrest hdrop
        | cons stop rest' =>
            rw [hrest] at h
            dsimp only at h
            split at h
            · rename_i hempty
              exact List.isEmpty_iff.mp hempty
            · cases h
      have htake' : ((rest.map (Piece.rename old new)).flatMap Piece.chars).takeWhile
          (· ≠ '\x7d') = [] := by
        cases rest with
        | nil => rfl
        | cons piece rest =>
            cases piece with
            | ref kind path => simp [Piece.chars] at htake
            | text d =>
                by_cases hd : d = '\x7d'
                · simp [Piece.rename, Piece.chars, hd]
                · simp [Piece.chars, hd] at htake
      simp only [htake', List.isEmpty_nil, if_true]
      split
      · rfl
      · rfl
    · rw [rename_of_no_references (no_references_of_no_brace (Or.inr rfl) hbrace)]
      exact h

/-- The pieces of a renamed text are the renamed pieces. -/
theorem scanPieces_rename (hnew : matchesNodeIdPattern new = true) :
    ∀ (fuel : Nat) (text : List Char), text.length ≤ fuel →
      ∀ fuel', (((scanPieces fuel text).map (Piece.rename old new)).flatMap
          Piece.chars).length ≤ fuel' →
        scanPieces fuel' (((scanPieces fuel text).map (Piece.rename old new)).flatMap
          Piece.chars) = (scanPieces fuel text).map (Piece.rename old new) := by
  intro fuel
  induction fuel with
  | zero =>
      intro text _ fuel' _
      cases fuel' <;> rfl
  | succ fuel ih =>
      intro text hlength fuel' hfuel'
      cases text with
      | nil => cases fuel' <;> rfl
      | cons c rest =>
          rw [scanPieces] at hfuel' ⊢
          cases hmatch : matchEmbedded? (c :: rest) with
          | none =>
              have hrest : rest.length ≤ fuel := Nat.le_of_succ_le_succ hlength
              rw [hmatch] at hfuel'
              simp only [List.map_cons, Piece.rename, List.flatMap_cons, Piece.chars,
                List.singleton_append, List.length_cons] at hfuel' ⊢
              cases fuel' with
              | zero => cases hfuel'
              | succ fuel'' =>
                  rw [scanPieces, matchEmbedded?_rename_none]
                  · simp only [ih rest hrest fuel'' (Nat.le_of_succ_le_succ hfuel')]
                  · rw [flatMap_chars_scanPieces fuel rest hrest]
                    exact hmatch
          | some found =>
              rcases found with ⟨kind, path, rest'⟩
              rw [hmatch] at hfuel'
              rcases matchEmbedded?_eq_some_iff.mp hmatch with ⟨htext, hpath, hbrace⟩
              have hrest' : rest'.length ≤ fuel := by
                have hsame := congrArg List.length htext
                simp [Piece.chars] at hsame hlength
                omega
              have hmatch' : matchEmbedded?
                  ((Piece.ref kind (renamePath old new kind path)).chars ++
                    ((scanPieces fuel rest').map (Piece.rename old new)).flatMap Piece.chars) =
                  some (kind, renamePath old new kind path,
                    ((scanPieces fuel rest').map (Piece.rename old new)).flatMap Piece.chars) := by
                apply matchEmbedded?_eq_some_iff.mpr
                refine ⟨rfl, renamePath_ne_nil ?_ hpath, ?_⟩
                · intro hempty
                  exact ne_empty_of_matchesNodeIdPattern hnew (String.toList_eq_nil_iff.mp hempty)
                · intro hmem
                  rcases mem_renamePath hmem with hid | hold
                  · exact absurd (isPathChar_of_matchesNodeIdPattern hnew _ hid) (by decide)
                  · exact hbrace hold
              have hpositive : 0 < (Piece.ref kind (renamePath old new kind path)).chars.length :=
                Nat.succ_pos _
              simp only [List.map_cons, Piece.rename, List.flatMap_cons, List.length_append]
                at hfuel' ⊢
              cases fuel' with
              | zero => omega
              | succ fuel'' =>
                  have hchars : (Piece.ref kind (renamePath old new kind path)).chars ++
                      ((scanPieces fuel rest').map (Piece.rename old new)).flatMap Piece.chars =
                      '$' :: ((Piece.ref kind (renamePath old new kind path)).chars.tail ++
                        ((scanPieces fuel rest').map (Piece.rename old new)).flatMap
                          Piece.chars) := rfl
                  rw [hchars] at hmatch' ⊢
                  rw [scanPieces, hmatch']
                  have hrest : (((scanPieces fuel rest').map (Piece.rename old new)).flatMap
                      Piece.chars).length ≤ fuel'' := by
                    omega
                  simp only [ih rest' hrest' fuel'' hrest]

/-- Renaming keeps the first two characters up to the opening of a reference. -/
theorem isEscaped_rename (ps : List Piece) :
    isEscaped (String.ofList ((ps.map (Piece.rename old new)).flatMap Piece.chars)) =
      isEscaped (String.ofList (ps.flatMap Piece.chars)) := by
  have hstep : ∀ (c d : Char) (tail tail' : List Char),
      isEscaped (String.ofList (c :: d :: tail)) = isEscaped (String.ofList (c :: d :: tail')) := by
    intro c d tail tail'
    simp only [isEscaped, String.toList_ofList, stripLiteral]
    split
    · split <;> rfl
    · rfl
  cases ps with
  | nil => rfl
  | cons piece ps =>
      cases piece with
      | ref kind path => exact hstep _ _ _ _
      | text c =>
          cases ps with
          | nil => rfl
          | cons piece ps =>
              cases piece with
              | text d => exact hstep _ _ _ _
              | ref kind path => exact hstep _ _ _ _

/-- A text that is no whole reference is none after the renaming. -/
theorem wholeReference?_rename_none {ps : List Piece}
    (h : wholeReference? (String.ofList (ps.flatMap Piece.chars)) = none) :
    wholeReference?
      (String.ofList ((ps.map (Piece.rename old new)).flatMap Piece.chars)) = none := by
  by_contra hsome
  rcases Option.ne_none_iff_exists'.mp hsome with ⟨⟨kind, path⟩, hwhole⟩
  rcases wholeReference?_eq_some hwhole with ⟨htext, -, hchars⟩
  have hbrace : '\x7b' ∉ (ps.map (Piece.rename old new)).flatMap Piece.chars := by
    rw [String.toList_ofList] at htext
    rw [htext]
    intro hmem
    have hname : '\x7b' ∉ kind.name.toList := by cases kind <;> decide
    have hclosing : ∀ text, '\x7b' ∉ closingNewline text := by
      intro text
      unfold closingNewline
      split <;> decide
    have hpath : '\x7b' ∉ path.toList := fun hmem => absurd (hchars _ hmem) (by decide)
    simp [hname, hclosing, hpath] at hmem
  have hnone := no_references_of_no_brace (Or.inl rfl) hbrace
  rw [filterMap_reference_rename, List.map_eq_nil_iff] at hnone
  rw [rename_of_no_references hnone] at hsome
  exact hsome h

end Scanning

private theorem findInString_of_pieces {text : String} (hescaped : isEscaped text = false)
    (hwhole : wholeReference? text = none) :
    findInString text = (pieces text).filterMap Piece.reference? := by
  simp [findInString, hescaped, hwhole]

private theorem toList_ne_nil_of_matchesNodeIdPattern {id : String}
    (h : matchesNodeIdPattern id = true) :
    id.toList ≠ [] := fun hempty =>
  ne_empty_of_matchesNodeIdPattern h (String.toList_eq_nil_iff.mp hempty)

/-- A renamed whole reference is the renamed reference. -/
theorem findInString_rename_whole (old : String) {new : String}
    (hnew : matchesNodeIdPattern new = true) {text path : String} {kind : RefKind}
    (hwhole : wholeReference? text = some (kind, path)) :
    findInString (String.ofList ('$' :: (kind.name.toList ++ '.' ::
        ((renamePath old new kind path).toList ++ closingNewline text.toList)))) =
      [(kind, renamePath old new kind path)] := by
  rcases wholeReference?_eq_some hwhole with ⟨-, hpath, hchars⟩
  have hclosing : closingNewline text.toList = [] ∨ closingNewline text.toList = ['\n'] := by
    unfold closingNewline
    split
    · exact Or.inr rfl
    · exact Or.inl rfl
  have hpath' : (renamePath old new kind path).toList ≠ [] :=
    renamePath_ne_nil (toList_ne_nil_of_matchesNodeIdPattern hnew) hpath
  have hwhole' := @wholeReference?_of_text _ _ kind _ rfl hclosing hpath'
    fun c hc => (mem_renamePath hc).elim (isPathChar_of_matchesNodeIdPattern hnew c) (hchars c)
  have hplain : isEscaped (String.ofList ('$' :: (kind.name.toList ++ '.' ::
      ((renamePath old new kind path).toList ++ closingNewline text.toList)))) = false := by
    cases kind <;> simp [isEscaped, stripLiteral, RefKind.name]
  rw [findInString, hplain, hwhole', String.ofList_toList]
  rfl

/-- The references of renamed pieces are the renamed references of the pieces. -/
theorem findInString_rename_pieces (old : String) {new : String}
    (hnew : matchesNodeIdPattern new = true) {text : String} (hescaped : isEscaped text = false)
    (hwhole : wholeReference? text = none) :
    findInString (String.ofList (((pieces text).map (Piece.rename old new)).flatMap Piece.chars)) =
      ((pieces text).filterMap Piece.reference?).map (renameReference old new) := by
  have hspell : String.ofList ((pieces text).flatMap Piece.chars) = text := by
    rw [pieces, flatMap_chars_scanPieces _ text.toList le_rfl, String.ofList_toList]
  have hscan : pieces (String.ofList (((pieces text).map (Piece.rename old new)).flatMap
      Piece.chars)) = (pieces text).map (Piece.rename old new) := by
    rw [pieces, String.toList_ofList]
    exact scanPieces_rename hnew _ text.toList le_rfl _ le_rfl
  rw [findInString_of_pieces]
  · rw [hscan, filterMap_reference_rename]
  · rw [isEscaped_rename, hspell]
    exact hescaped
  · apply wholeReference?_rename_none
    rw [hspell]
    exact hwhole

/-- The references of a renamed text are the renamed references of the text. -/
theorem findInString_rename (old : String) {new : String}
    (hnew : matchesNodeIdPattern new = true) (text : String) :
    findInString (renameText old new text) =
      (findInString text).map (renameReference old new) := by
  cases hescaped : isEscaped text with
  | true => simp [renameText, hescaped, findInString]
  | false =>
      cases hwhole : wholeReference? text with
      | some reference =>
          rcases reference with ⟨kind, path⟩
          simp only [renameText, hescaped, hwhole, Bool.false_eq_true, if_false]
          rw [findInString_rename_whole old hnew hwhole]
          simp [findInString, hescaped, hwhole, renameReference]
      | none =>
          simp only [renameText, hescaped, hwhole, Bool.false_eq_true, if_false]
          rw [findInString_rename_pieces old hnew hescaped hwhole,
            findInString_of_pieces hescaped hwhole]

mutual

/-- The references of a renamed value are the renamed references of the value. -/
theorem findReferences_rename (old : String) {new : String}
    (hnew : matchesNodeIdPattern new = true) : ∀ v : Value,
    findReferences (renameValue old new v) =
      (findReferences v).map (renameReference old new)
  | .str text => findInString_rename old hnew text
  | .dict fields => findInFields_rename old hnew fields
  | .list items => findInItems_rename old hnew items
  | .none => rfl
  | .bool _ => rfl
  | .int _ => rfl
  | .float _ => rfl
  | .foreign _ _ _ => rfl

private theorem findInItems_rename (old : String) {new : String}
    (hnew : matchesNodeIdPattern new = true) : ∀ items : List Value,
    findInItems (renameItems old new items) =
      (findInItems items).map (renameReference old new)
  | [] => rfl
  | v :: rest => by
      rw [renameItems, findInItems, findInItems, List.map_append,
        findReferences_rename old hnew v, findInItems_rename old hnew rest]

theorem findInFields_rename (old : String) {new : String}
    (hnew : matchesNodeIdPattern new = true) : ∀ fields : List (String × Value),
    findInFields (renameFields old new fields) =
      (findInFields fields).map (renameReference old new)
  | [] => rfl
  | (_, v) :: rest => by
      rw [renameFields, findInFields, findInFields, List.map_append,
        findReferences_rename old hnew v, findInFields_rename old hnew rest]

end

end EtlTool
