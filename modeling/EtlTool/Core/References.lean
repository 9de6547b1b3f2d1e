import EtlTool.Core.Paths

/-!
# Upstream and iterator references

References in raw node configs: whole-string references keep the type of the
value they name, embedded ones are interpolated into the text, and a leading
double dollar escapes.  Validation collects the references statically, the
engine resolves them against the outputs available when a node starts.

Main results:

- Theorem {lit}`findReferences_eq_occurrences`: validation sees exactly the
  occurrences that resolution evaluates, in the same order.
- Theorem {lit}`resolveConfig_error_iff`: resolution fails with the error of the
  first occurrence that does not resolve.
- Theorem {lit}`resolveFields_other_iff`: resolving a config escapes with a
  {lit}`ValueError` exactly when its first failing occurrence runs into an
  integer-looking segment that is not an integer, or into a value that cannot
  be printed.
- Theorem {lit}`resolveFields_congr`: resolution depends only on the iterator
  context and on the outputs of the referenced nodes.
- Theorem {lit}`resolveString_plain`, {lit}`resolveConfig_plain`: what has neither a
  reference nor an escape stays as it is.
- Theorem {lit}`lookup_resolveFields`: resolution acts on the values of a config and leaves
  its keys.
-/

namespace EtlTool

/-- The two reference namespaces. -/
inductive RefKind where
  | upstream
  | iter
deriving DecidableEq

/-- The name of a namespace as references spell it. -/
def RefKind.name : RefKind → String
  | upstream => "upstream"
  | iter => "iter"

/-! ## Recognising references in text -/

/-- Remove a literal from the front of a text. -/
def stripLiteral : List Char → List Char → Option (List Char)
  | [], text => some text
  | c :: literal, d :: text => if c = d then stripLiteral literal text else none
  | _ :: _, [] => none

theorem stripLiteral_eq_some_iff {literal text rest : List Char} :
    stripLiteral literal text = some rest ↔ text = literal ++ rest := by
  induction literal generalizing text with
  | nil => simp [stripLiteral]
  | cons c literal ih =>
      cases text with
      | nil => simp [stripLiteral]
      | cons d text =>
          by_cases hcd : c = d
          · subst hcd
            simp [stripLiteral, ih]
          · simp [stripLiteral, hcd, Ne.symm hcd]

/-- Remove one of {lit}`<opening>upstream.` and {lit}`<opening>iter.` from the
front of a text. -/
def stripNamespace (opening text : List Char) : Option (RefKind × List Char) :=
  match stripLiteral (opening ++ "upstream.".toList) text with
  | some rest => some (.upstream, rest)
  | none => (stripLiteral (opening ++ "iter.".toList) text).map fun rest => (.iter, rest)

/-- Whitespace as matched by the regular expression class for it. -/
def isSpaceChar (c : Char) : Bool :=
  let n := c.toNat
  decide ((9 ≤ n ∧ n ≤ 13) ∨ (28 ≤ n ∧ n ≤ 32) ∨ n = 0x85 ∨ n = 0xa0 ∨ n = 0x1680 ∨
    (0x2000 ≤ n ∧ n ≤ 0x200a) ∨ n = 0x2028 ∨ n = 0x2029 ∨ n = 0x202f ∨ n = 0x205f ∨ n = 0x3000)

/-- {lit}`WHOLE_RE`: the whole text is one reference.  As in the source, the
final anchor also matches before a trailing newline. -/
def wholeReference? (text : String) : Option (RefKind × String) :=
  match stripNamespace ['$'] text.toList with
  | none => none
  | some (kind, rest) =>
      let path := if rest.getLast? = some '\n' then rest.dropLast else rest
      if !path.isEmpty && path.all fun c => !isSpaceChar c && c != '\x7b' && c != '\x7d' then
        some (kind, String.ofList path)
      else none

/-- {lit}`EMBED_RE` at the front of a text: kind, path and remaining text. -/
def matchEmbedded? (text : List Char) : Option (RefKind × String × List Char) :=
  match stripNamespace ['$', '\x7b'] text with
  | none => none
  | some (kind, rest) =>
      let path := rest.takeWhile (· ≠ '\x7d')
      match rest.dropWhile (· ≠ '\x7d') with
      | [] => none
      | _ :: rest' => if path.isEmpty then none else some (kind, String.ofList path, rest')

/-- A text cut into plain characters and embedded references. -/
inductive Piece where
  | text (c : Char)
  | ref (kind : RefKind) (path : String)
deriving DecidableEq

/-- Left-to-right scan for {lit}`EMBED_RE`; the fuel bounds the text length. -/
def scanPieces : Nat → List Char → List Piece
  | 0, _ => []
  | _ + 1, [] => []
  | fuel + 1, c :: rest =>
      match matchEmbedded? (c :: rest) with
      | some (kind, path, rest') => .ref kind path :: scanPieces fuel rest'
      | none => .text c :: scanPieces fuel rest

/-- The pieces of a text. -/
def pieces (text : String) : List Piece :=
  scanPieces text.toList.length text.toList

/-- The escape: a leading double dollar. -/
def isEscaped (text : String) : Bool :=
  (stripLiteral ['$', '$'] text.toList).isSome

/-! ## Static collection -/

/-- The reference of a piece. -/
def Piece.reference? : Piece → Option (RefKind × String)
  | .text _ => none
  | .ref kind path => some (kind, path)

/-- {lit}`find_references` on a string. -/
def findInString (text : String) : List (RefKind × String) :=
  if isEscaped text then []
  else
    match wholeReference? text with
    | some reference => [reference]
    | none => (pieces text).filterMap Piece.reference?

mutual

/-- {lit}`find_references`: every reference of a raw config value, in order. -/
def findReferences : Value → List (RefKind × String)
  | .str text => findInString text
  | .dict fields => findInFields fields
  | .list items => findInItems items
  | _ => []

/-- References of the items of a list. -/
def findInItems : List Value → List (RefKind × String)
  | [] => []
  | v :: rest => findReferences v ++ findInItems rest

/-- References of the values of a dict. -/
def findInFields : List (String × Value) → List (RefKind × String)
  | [] => []
  | (_, v) :: rest => findReferences v ++ findInFields rest

end

/-- {lit}`has_references`. -/
def hasReferences (config : Fields) : Bool :=
  !(findInFields config).isEmpty

/-! ## Resolution -/

/-- The iterator value and position of the current iteration. -/
structure IterContext where
  value : Value
  index : Nat
deriving DecidableEq

/-- What references can name: primary records by node id, and the iteration. -/
structure ReferenceContext where
  upstream : String → Option (List Fields)
  iter : Option IterContext

/-- Why a reference raises {lit}`ReferenceResolutionError`. -/
inductive ReferenceFault where
  | emptyPath (kind : RefKind)
  | iterOutsideScope
  | unknownIterField (head : String)
  | noAvailableOutput (nodeId : String)
  | indexOutOfRange (path : String) (index : Int) (count : Nat)
  | noRecords (path nodeId : String)
  | pathNotFound (kind : RefKind) (path message : String)
deriving DecidableEq

/-- The message of a {lit}`ReferenceResolutionError`. -/
def ReferenceFault.message (rt : Runtime) : ReferenceFault → String
  | emptyPath kind => "empty $" ++ kind.name ++ " reference"
  | iterOutsideScope => "$iter reference used outside of an iterator scope"
  | unknownIterField head =>
      "unknown $iter field " ++ rt.reprStr head ++ " (expected 'value' or 'index')"
  | noAvailableOutput nodeId =>
      "$upstream reference to " ++ rt.reprStr nodeId ++
        ", which has no available output (not an upstream node of this one, or it has not run)"
  | indexOutOfRange path index count =>
      "$upstream." ++ path ++ ": record index " ++ toString index ++ " out of range (" ++
        toString count ++ " records)"
  | noRecords path nodeId =>
      "$upstream." ++ path ++ ": node " ++ rt.reprStr nodeId ++ " produced no records"
  | pathNotFound kind path message => "$" ++ kind.name ++ "." ++ path ++ ": " ++ message

/-- How resolving a reference fails. -/
inductive ReferenceError where
  | fault (fault : ReferenceFault)
  | other (exc : PyException)
deriving DecidableEq

/-- Navigate from a referenced value, converting {lit}`PathNotFoundError`. -/
def Runtime.navigate (rt : Runtime) (kind : RefKind) (path : String) (base : Value)
    (segments : List String) : Except ReferenceError Value :=
  match rt.getPath base segments with
  | .ok value => .ok value
  | .error (.notFound message) => .error (.fault (.pathNotFound kind path message))
  | .error (.other exc) => .error (.other exc)

/-- The value named by the first segment of an iterator reference. -/
def IterContext.head? (iter : IterContext) (head : String) : Option Value :=
  if head = "value" then some iter.value
  else if head = "index" then some (.int iter.index)
  else none

/-- Continue an upstream reference inside the records of the named node. -/
def Runtime.resolveInRecords (rt : Runtime) (path nodeId : String) (records : List Fields) :
    List String → Except ReferenceError Value
  | [] => .ok (.list (records.map Value.dict))
  | first :: rest =>
      if looksLikeInt first then
        match rt.pyInt? first with
        | none => .error (.other intConversionError)
        | some index =>
            match (listIndex? records.length index).bind (records[·]?) with
            | some record => rt.navigate .upstream path (.dict record) rest
            | none => .error (.fault (.indexOutOfRange path index records.length))
      else
        match records with
        | [] => .error (.fault (.noRecords path nodeId))
        | record :: _ => rt.navigate .upstream path (.dict record) (first :: rest)

/-- {lit}`_resolve_reference`. -/
def Runtime.resolveReference (rt : Runtime) (ctx : ReferenceContext) (kind : RefKind)
    (path : String) : Except ReferenceError Value :=
  match kind, splitPath path with
  | kind, [] => .error (.fault (.emptyPath kind))
  | .iter, head :: rest =>
      match ctx.iter with
      | none => .error (.fault .iterOutsideScope)
      | some iter =>
          match iter.head? head with
          | none => .error (.fault (.unknownIterField head))
          | some base => rt.navigate .iter path base rest
  | .upstream, nodeId :: rest =>
      match ctx.upstream nodeId with
      | none => .error (.fault (.noAvailableOutput nodeId))
      | some records => rt.resolveInRecords path nodeId records rest

/-- The text that replaces an embedded reference. -/
def Runtime.interpolate (rt : Runtime) (ctx : ReferenceContext) (kind : RefKind) (path : String) :
    Except ReferenceError String :=
  match rt.resolveReference ctx kind path with
  | .error e => .error e
  | .ok value =>
      match rt.pyStr value with
      | some text => .ok text
      | none => .error (.other intConversionError)

/-- {lit}`EMBED_RE.sub` with the interpolated texts. -/
def Runtime.resolvePieces (rt : Runtime) (ctx : ReferenceContext) :
    List Piece → Except ReferenceError String
  | [] => .ok ""
  | .text c :: rest =>
      match rt.resolvePieces ctx rest with
      | .ok text => .ok (String.ofList [c] ++ text)
      | .error e => .error e
  | .ref kind path :: rest =>
      match rt.interpolate ctx kind path with
      | .error e => .error e
      | .ok head =>
          match rt.resolvePieces ctx rest with
          | .ok text => .ok (head ++ text)
          | .error e => .error e

/-- {lit}`resolve_config` on a string. -/
def Runtime.resolveString (rt : Runtime) (ctx : ReferenceContext) (text : String) :
    Except ReferenceError Value :=
  if isEscaped text then .ok (.str (String.ofList (text.toList.drop 1)))
  else
    match wholeReference? text with
    | some (kind, path) => rt.resolveReference ctx kind path
    | none =>
        match rt.resolvePieces ctx (pieces text) with
        | .ok text' => .ok (.str text')
        | .error e => .error e

mutual

/-- {lit}`resolve_config`: resolve every reference of a raw config value. -/
def Runtime.resolveConfig (rt : Runtime) (ctx : ReferenceContext) :
    Value → Except ReferenceError Value
  | .str text => rt.resolveString ctx text
  | .dict fields =>
      match resolveFields rt ctx fields with
      | .ok fields' => .ok (.dict fields')
      | .error e => .error e
  | .list items =>
      match resolveItems rt ctx items with
      | .ok items' => .ok (.list items')
      | .error e => .error e
  | v => .ok v

/-- Resolve the items of a list in order. -/
def Runtime.resolveItems (rt : Runtime) (ctx : ReferenceContext) :
    List Value → Except ReferenceError (List Value)
  | [] => .ok []
  | v :: rest =>
      match resolveConfig rt ctx v with
      | .error e => .error e
      | .ok v' =>
          match resolveItems rt ctx rest with
          | .ok rest' => .ok (v' :: rest')
          | .error e => .error e

/-- Resolve the values of a dict in order. -/
def Runtime.resolveFields (rt : Runtime) (ctx : ReferenceContext) :
    List (String × Value) → Except ReferenceError (List (String × Value))
  | [] => .ok []
  | (key, v) :: rest =>
      match resolveConfig rt ctx v with
      | .error e => .error e
      | .ok v' =>
          match resolveFields rt ctx rest with
          | .ok rest' => .ok ((key, v') :: rest')
          | .error e => .error e

end

/-! ## Occurrences -/

/-- A reference together with whether it is interpolated into a text. -/
structure Occurrence where
  kind : RefKind
  path : String
  embedded : Bool
deriving DecidableEq

/-- The occurrence of a piece. -/
def Piece.occurrence? : Piece → Option Occurrence
  | .text _ => none
  | .ref kind path => some ⟨kind, path, true⟩

/-- Occurrences in a string. -/
def occurrencesInString (text : String) : List Occurrence :=
  if isEscaped text then []
  else
    match wholeReference? text with
    | some (kind, path) => [⟨kind, path, false⟩]
    | none => (pieces text).filterMap Piece.occurrence?

mutual

/-- The occurrences of references in a raw config value, in evaluation order. -/
def occurrences : Value → List Occurrence
  | .str text => occurrencesInString text
  | .dict fields => occurrencesInFields fields
  | .list items => occurrencesInItems items
  | _ => []

/-- Occurrences in the items of a list. -/
def occurrencesInItems : List Value → List Occurrence
  | [] => []
  | v :: rest => occurrences v ++ occurrencesInItems rest

/-- Occurrences in the values of a dict. -/
def occurrencesInFields : List (String × Value) → List Occurrence
  | [] => []
  | (_, v) :: rest => occurrences v ++ occurrencesInFields rest

end

/-- The error of evaluating one occurrence. -/
def Runtime.occurrenceError? (rt : Runtime) (ctx : ReferenceContext) (o : Occurrence) :
    Option ReferenceError :=
  if o.embedded then
    match rt.interpolate ctx o.kind o.path with
    | .ok _ => none
    | .error e => some e
  else
    match rt.resolveReference ctx o.kind o.path with
    | .ok _ => none
    | .error e => some e

/-- The error of the first occurrence that does not resolve. -/
def Runtime.firstError? (rt : Runtime) (ctx : ReferenceContext) (os : List Occurrence) :
    Option ReferenceError :=
  os.findSome? (rt.occurrenceError? ctx)

private theorem findInString_eq_occurrences (text : String) :
    findInString text = (occurrencesInString text).map fun o => (o.kind, o.path) := by
  unfold findInString occurrencesInString
  split
  · rfl
  · cases wholeReference? text with
    | some reference => rfl
    | none =>
        simp only [List.map_filterMap]
        congr 1
        funext piece
        cases piece <;> rfl

mutual

/-- Validation collects exactly the occurrences that resolution evaluates. -/
theorem findReferences_eq_occurrences : ∀ v : Value,
    findReferences v = (occurrences v).map fun o => (o.kind, o.path)
  | .str text => by
      simpa [findReferences, occurrences] using findInString_eq_occurrences text
  | .dict fields => by
      simpa [findReferences, occurrences] using findInFields_eq_occurrences fields
  | .list items => by
      simpa [findReferences, occurrences] using findInItems_eq_occurrences items
  | .none => rfl
  | .bool _ => rfl
  | .int _ => rfl
  | .float _ => rfl
  | .foreign _ _ _ => rfl

private theorem findInItems_eq_occurrences : ∀ items : List Value,
    findInItems items = (occurrencesInItems items).map fun o => (o.kind, o.path)
  | [] => rfl
  | v :: rest => by
      rw [findInItems, occurrencesInItems, List.map_append, findReferences_eq_occurrences v,
        findInItems_eq_occurrences rest]

theorem findInFields_eq_occurrences : ∀ fields : List (String × Value),
    findInFields fields = (occurrencesInFields fields).map fun o => (o.kind, o.path)
  | [] => rfl
  | (_, v) :: rest => by
      rw [findInFields, occurrencesInFields, List.map_append, findReferences_eq_occurrences v,
        findInFields_eq_occurrences rest]

end

private theorem firstError?_append (rt : Runtime) (ctx : ReferenceContext)
    (first second : List Occurrence) :
    rt.firstError? ctx (first ++ second) =
      (rt.firstError? ctx first).or (rt.firstError? ctx second) := by
  unfold Runtime.firstError?
  rw [List.findSome?_append]

private theorem resolvePieces_error_iff (rt : Runtime) (ctx : ReferenceContext)
    (e : ReferenceError) :
    ∀ ps : List Piece, rt.resolvePieces ctx ps = .error e ↔
      rt.firstError? ctx (ps.filterMap Piece.occurrence?) = some e
  | [] => by simp [Runtime.resolvePieces, Runtime.firstError?]
  | .text c :: rest => by
      have ih := resolvePieces_error_iff rt ctx e rest
      simp only [Runtime.resolvePieces, List.filterMap_cons, Piece.occurrence?]
      rw [← ih]
      cases rt.resolvePieces ctx rest <;> simp
  | .ref kind path :: rest => by
      have ih := resolvePieces_error_iff rt ctx e rest
      simp only [Runtime.resolvePieces, List.filterMap_cons, Piece.occurrence?]
      cases h : rt.interpolate ctx kind path with
      | error e' => simp [Runtime.firstError?, Runtime.occurrenceError?, h]
      | ok head =>
          have hskip : rt.firstError? ctx (⟨kind, path, true⟩ ::
              rest.filterMap Piece.occurrence?) =
              rt.firstError? ctx (rest.filterMap Piece.occurrence?) := by
            simp [Runtime.firstError?, Runtime.occurrenceError?, h]
          rw [hskip, ← ih]
          cases rt.resolvePieces ctx rest <;> simp

private theorem resolveString_error_iff (rt : Runtime) (ctx : ReferenceContext) (e : ReferenceError)
    (text : String) : rt.resolveString ctx text = .error e ↔
      rt.firstError? ctx (occurrencesInString text) = some e := by
  unfold Runtime.resolveString occurrencesInString
  split
  · simp [Runtime.firstError?]
  · cases wholeReference? text with
    | some reference =>
        cases h : rt.resolveReference ctx reference.1 reference.2 <;>
          simp [Runtime.firstError?, Runtime.occurrenceError?, h]
    | none =>
        rw [← resolvePieces_error_iff]
        cases rt.resolvePieces ctx (pieces text) <;> simp

mutual

/-- Resolution fails with the error of the first occurrence that does not
resolve. -/
theorem resolveConfig_error_iff (rt : Runtime) (ctx : ReferenceContext) :
    ∀ (v : Value) (e : ReferenceError), rt.resolveConfig ctx v = .error e ↔
      rt.firstError? ctx (occurrences v) = some e
  | .str text, e => by
      simpa [Runtime.resolveConfig, occurrences] using resolveString_error_iff rt ctx e text
  | .dict fields, e => by
      rw [occurrences, ← resolveFields_error_iff rt ctx fields e, Runtime.resolveConfig]
      cases rt.resolveFields ctx fields <;> simp
  | .list items, e => by
      rw [occurrences, ← resolveItems_error_iff rt ctx items e, Runtime.resolveConfig]
      cases rt.resolveItems ctx items <;> simp
  | .none, e => by simp [Runtime.resolveConfig, occurrences, Runtime.firstError?]
  | .bool _, e => by simp [Runtime.resolveConfig, occurrences, Runtime.firstError?]
  | .int _, e => by simp [Runtime.resolveConfig, occurrences, Runtime.firstError?]
  | .float _, e => by simp [Runtime.resolveConfig, occurrences, Runtime.firstError?]
  | .foreign _ _ _, e => by simp [Runtime.resolveConfig, occurrences, Runtime.firstError?]

private theorem resolveItems_error_iff (rt : Runtime) (ctx : ReferenceContext) :
    ∀ (items : List Value) (e : ReferenceError), rt.resolveItems ctx items = .error e ↔
      rt.firstError? ctx (occurrencesInItems items) = some e
  | [], e => by simp [Runtime.resolveItems, occurrencesInItems, Runtime.firstError?]
  | v :: rest, e => by
      have hv := resolveConfig_error_iff rt ctx v
      have hrest := resolveItems_error_iff rt ctx rest e
      rw [occurrencesInItems, firstError?_append, Runtime.resolveItems]
      cases h : rt.resolveConfig ctx v with
      | error e' => simp [(hv e').mp h]
      | ok v' =>
          have hnone : rt.firstError? ctx (occurrences v) = none := by
            rw [Option.eq_none_iff_forall_ne_some]
            intro e' he'
            rw [(hv e').mpr he'] at h
            cases h
          rw [hnone, Option.none_or, ← hrest]
          cases rt.resolveItems ctx rest <;> simp

theorem resolveFields_error_iff (rt : Runtime) (ctx : ReferenceContext) :
    ∀ (fields : List (String × Value)) (e : ReferenceError),
      rt.resolveFields ctx fields = .error e ↔
        rt.firstError? ctx (occurrencesInFields fields) = some e
  | [], e => by simp [Runtime.resolveFields, occurrencesInFields, Runtime.firstError?]
  | (key, v) :: rest, e => by
      have hv := resolveConfig_error_iff rt ctx v
      have hrest := resolveFields_error_iff rt ctx rest e
      rw [occurrencesInFields, firstError?_append, Runtime.resolveFields]
      cases h : rt.resolveConfig ctx v with
      | error e' => simp [(hv e').mp h]
      | ok v' =>
          have hnone : rt.firstError? ctx (occurrences v) = none := by
            rw [Option.eq_none_iff_forall_ne_some]
            intro e' he'
            rw [(hv e').mpr he'] at h
            cases h
          rw [hnone, Option.none_or, ← hrest]
          cases rt.resolveFields ctx rest <;> simp

end

/-! ## References that escape -/

/-- An upstream reference runs into a segment that only looks like an integer,
while selecting a record or below it. -/
def Runtime.RecordsEscape (rt : Runtime) (records : List Fields) : List String → Prop
  | [] => False
  | first :: rest =>
      if looksLikeInt first then
        match rt.pyInt? first with
        | none => True
        | some index => ∃ record, (listIndex? records.length index).bind (records[·]?) = some record ∧
            rt.MeetsBadIndex (.dict record) rest
      else ∃ record, records.head? = some record ∧ rt.MeetsBadIndex (.dict record) (first :: rest)

/-- A reference runs into a segment that only looks like an integer. -/
def Runtime.ReferenceEscapes (rt : Runtime) (ctx : ReferenceContext) (kind : RefKind)
    (path : String) : Prop :=
  match kind, splitPath path with
  | _, [] => False
  | .iter, head :: rest => ∃ iter base, ctx.iter = some iter ∧ iter.head? head = some base ∧
      rt.MeetsBadIndex base rest
  | .upstream, nodeId :: rest => ∃ records, ctx.upstream nodeId = some records ∧
      rt.RecordsEscape records rest

private theorem navigate_other_iff (rt : Runtime) (kind : RefKind) (path : String) (base : Value)
    (segments : List String) :
    (∃ exc, rt.navigate kind path base segments = .error (.other exc)) ↔
      rt.MeetsBadIndex base segments := by
  rw [← getPath_badIndex_iff]
  unfold Runtime.navigate
  cases h : rt.getPath base segments with
  | ok value => simp
  | error e => cases e <;> simp

private theorem resolveInRecords_other_iff (rt : Runtime) (path nodeId : String)
    (records : List Fields)
    (segments : List String) :
    (∃ exc, rt.resolveInRecords path nodeId records segments = .error (.other exc)) ↔
      rt.RecordsEscape records segments := by
  cases segments with
  | nil => simp [Runtime.resolveInRecords, Runtime.RecordsEscape]
  | cons first rest =>
      unfold Runtime.resolveInRecords Runtime.RecordsEscape
      by_cases hint : looksLikeInt first = true
      · simp only [hint, if_true]
        cases rt.pyInt? first with
        | none => simp
        | some index =>
            cases hrecord : (listIndex? records.length index).bind (records[·]?) with
            | none => simp [hrecord]
            | some record => simp [hrecord, navigate_other_iff]
      · simp only [hint]
        cases records with
        | nil => simp
        | cons record records => simp [navigate_other_iff]

/-- A reference raises something other than {lit}`ReferenceResolutionError`
exactly when it runs into a segment that only looks like an integer. -/
theorem resolveReference_other_iff (rt : Runtime) (ctx : ReferenceContext) (kind : RefKind)
    (path : String) :
    (∃ exc, rt.resolveReference ctx kind path = .error (.other exc)) ↔
      rt.ReferenceEscapes ctx kind path := by
  unfold Runtime.resolveReference Runtime.ReferenceEscapes
  cases splitPath path with
  | nil => simp
  | cons head rest =>
      cases kind with
      | iter =>
          cases ctx.iter with
          | none => simp
          | some iter =>
              cases hhead : iter.head? head with
              | none => simp [hhead]
              | some base => simp [hhead, navigate_other_iff]
      | upstream =>
          cases hrecords : ctx.upstream head with
          | none => simp [hrecords]
          | some records => simp [hrecords, resolveInRecords_other_iff]

/-- An occurrence raises something other than {lit}`ReferenceResolutionError`:
its path escapes, or the value to interpolate cannot be printed. -/
def Runtime.OccurrenceEscapes (rt : Runtime) (ctx : ReferenceContext) (o : Occurrence) : Prop :=
  rt.ReferenceEscapes ctx o.kind o.path ∨
    (o.embedded = true ∧ ∃ value, rt.resolveReference ctx o.kind o.path = .ok value ∧
      ¬ rt.Printable value)

private theorem occurrenceError?_other_iff (rt : Runtime) (ctx : ReferenceContext)
    (o : Occurrence) :
    (∃ exc, rt.occurrenceError? ctx o = some (.other exc)) ↔ rt.OccurrenceEscapes ctx o := by
  unfold Runtime.occurrenceError? Runtime.OccurrenceEscapes Runtime.interpolate
  rw [← resolveReference_other_iff]
  cases hvalue : rt.resolveReference ctx o.kind o.path with
  | error e => by_cases hembedded : o.embedded = true <;> simp [hembedded]
  | ok value =>
      have hprint := pyStr_isSome_iff rt value
      by_cases hembedded : o.embedded = true
      · cases htext : rt.pyStr value with
        | none =>
            rw [htext] at hprint
            simpa [hembedded, htext] using hprint
        | some text =>
            rw [htext] at hprint
            simpa [hembedded, htext] using hprint
      · simp [hembedded]

/-- The first occurrence of a config that does not resolve is one that escapes. -/
def Runtime.ConfigEscapes (rt : Runtime) (ctx : ReferenceContext) (config : Fields) : Prop :=
  ∃ before o after, occurrencesInFields config = before ++ o :: after ∧
    (∀ o' ∈ before, rt.occurrenceError? ctx o' = none) ∧ rt.OccurrenceEscapes ctx o

/-- Resolving a config raises something other than
{lit}`ReferenceResolutionError` exactly when its first failing occurrence
escapes. -/
theorem resolveFields_other_iff (rt : Runtime) (ctx : ReferenceContext) (config : Fields) :
    (∃ exc, rt.resolveFields ctx config = .error (.other exc)) ↔ rt.ConfigEscapes ctx config := by
  unfold Runtime.ConfigEscapes
  constructor
  · rintro ⟨exc, hexc⟩
    rw [resolveFields_error_iff, Runtime.firstError?, List.findSome?_eq_some_iff] at hexc
    rcases hexc with ⟨before, o, after, hsplit, ho, hbefore⟩
    exact ⟨before, o, after, hsplit, hbefore, (occurrenceError?_other_iff rt ctx o).mp ⟨exc, ho⟩⟩
  · rintro ⟨before, o, after, hsplit, hbefore, ho⟩
    rcases (occurrenceError?_other_iff rt ctx o).mpr ho with ⟨exc, hexc⟩
    refine ⟨exc, (resolveFields_error_iff rt ctx config _).mpr ?_⟩
    rw [Runtime.firstError?, List.findSome?_eq_some_iff]
    exact ⟨before, o, after, hsplit, hexc, hbefore⟩

/-! ## What resolution reads -/

/-- The node an upstream reference names. -/
def upstreamTarget? (kind : RefKind) (path : String) : Option String :=
  match kind with
  | .upstream => (splitPath path).head?
  | .iter => none

/-- The nodes named by the upstream references of a config. -/
def upstreamTargets (config : Fields) : List String :=
  (findInFields config).filterMap fun reference => upstreamTarget? reference.1 reference.2

/-- Two contexts agree on the iteration and on the listed nodes. -/
structure ReferenceContext.AgreeOn (targets : List String) (ctx ctx' : ReferenceContext) : Prop where
  iter : ctx.iter = ctx'.iter
  upstream : ∀ n ∈ targets, ctx.upstream n = ctx'.upstream n

private theorem mem_upstreamTargets {config : Fields} {o : Occurrence} {n : String}
    (ho : o ∈ occurrencesInFields config) (hn : upstreamTarget? o.kind o.path = some n) :
    n ∈ upstreamTargets config := by
  unfold upstreamTargets
  rw [findInFields_eq_occurrences, List.mem_filterMap]
  exact ⟨(o.kind, o.path), List.mem_map.mpr ⟨o, ho, rfl⟩, hn⟩

/-- A reference reads at most the iteration and the node it names. -/
theorem resolveReference_congr (rt : Runtime) {ctx ctx' : ReferenceContext} {kind : RefKind}
    {path : String} (hiter : ctx.iter = ctx'.iter)
    (hupstream : ∀ n, upstreamTarget? kind path = some n → ctx.upstream n = ctx'.upstream n) :
    rt.resolveReference ctx kind path = rt.resolveReference ctx' kind path := by
  unfold Runtime.resolveReference
  unfold upstreamTarget? at hupstream
  cases hsplit : splitPath path with
  | nil => rfl
  | cons head rest =>
      cases kind with
      | iter => simp [hiter]
      | upstream =>
          have hhead := hupstream head (by simp [hsplit])
          simp [hhead]

private theorem resolvePieces_congr (rt : Runtime) {ctx ctx' : ReferenceContext} (ps : List Piece)
    (h : ∀ o ∈ ps.filterMap Piece.occurrence?,
      rt.resolveReference ctx o.kind o.path = rt.resolveReference ctx' o.kind o.path) :
    rt.resolvePieces ctx ps = rt.resolvePieces ctx' ps := by
  induction ps with
  | nil => rfl
  | cons piece rest ih =>
      cases piece with
      | text c =>
          have hrest := ih (by simpa [List.filterMap_cons, Piece.occurrence?] using h)
          simp only [Runtime.resolvePieces, hrest]
      | ref kind path =>
          have hhead := h ⟨kind, path, true⟩ (by simp [Piece.occurrence?])
          have hrest := ih fun o ho => h o (by simp [Piece.occurrence?, ho])
          simp only [Runtime.resolvePieces, Runtime.interpolate, hhead, hrest]

private theorem resolveString_congr (rt : Runtime) {ctx ctx' : ReferenceContext} (text : String)
    (h : ∀ o ∈ occurrencesInString text,
      rt.resolveReference ctx o.kind o.path = rt.resolveReference ctx' o.kind o.path) :
    rt.resolveString ctx text = rt.resolveString ctx' text := by
  unfold Runtime.resolveString
  unfold occurrencesInString at h
  split
  · rfl
  · rename_i hescaped
    rw [if_neg hescaped] at h
    cases hwhole : wholeReference? text with
    | some reference =>
        rw [hwhole] at h
        exact h ⟨reference.1, reference.2, false⟩ (by simp)
    | none =>
        rw [hwhole] at h
        simp only [resolvePieces_congr rt (pieces text) h]

mutual

theorem resolveConfig_congr_of_occurrences (rt : Runtime) {ctx ctx' : ReferenceContext} :
    ∀ v : Value, (∀ o ∈ occurrences v,
      rt.resolveReference ctx o.kind o.path = rt.resolveReference ctx' o.kind o.path) →
      rt.resolveConfig ctx v = rt.resolveConfig ctx' v
  | .str text, h => by
      simpa [Runtime.resolveConfig] using resolveString_congr rt text h
  | .dict fields, h => by
      simp only [Runtime.resolveConfig, resolveFields_congr_of_occurrences rt fields h]
  | .list items, h => by
      simp only [Runtime.resolveConfig, resolveItems_congr_of_occurrences rt items h]
  | .none, _ => rfl
  | .bool _, _ => rfl
  | .int _, _ => rfl
  | .float _, _ => rfl
  | .foreign _ _ _, _ => rfl

private theorem resolveItems_congr_of_occurrences (rt : Runtime) {ctx ctx' : ReferenceContext} :
    ∀ items : List Value, (∀ o ∈ occurrencesInItems items,
      rt.resolveReference ctx o.kind o.path = rt.resolveReference ctx' o.kind o.path) →
      rt.resolveItems ctx items = rt.resolveItems ctx' items
  | [], _ => rfl
  | v :: rest, h => by
      have hv := resolveConfig_congr_of_occurrences rt v fun o ho =>
        h o (List.mem_append_left _ ho)
      have hrest := resolveItems_congr_of_occurrences rt rest fun o ho =>
        h o (List.mem_append_right _ ho)
      simp only [Runtime.resolveItems, hv, hrest]

private theorem resolveFields_congr_of_occurrences (rt : Runtime) {ctx ctx' : ReferenceContext} :
    ∀ fields : List (String × Value), (∀ o ∈ occurrencesInFields fields,
      rt.resolveReference ctx o.kind o.path = rt.resolveReference ctx' o.kind o.path) →
      rt.resolveFields ctx fields = rt.resolveFields ctx' fields
  | [], _ => rfl
  | (_, v) :: rest, h => by
      have hv := resolveConfig_congr_of_occurrences rt v fun o ho =>
        h o (List.mem_append_left _ ho)
      have hrest := resolveFields_congr_of_occurrences rt rest fun o ho =>
        h o (List.mem_append_right _ ho)
      simp only [Runtime.resolveFields, hv, hrest]

end

/-- Resolving a config reads only the iteration and the outputs of the nodes
its upstream references name. -/
theorem resolveFields_congr (rt : Runtime) {ctx ctx' : ReferenceContext} {config : Fields}
    (h : ReferenceContext.AgreeOn (upstreamTargets config) ctx ctx') :
    rt.resolveFields ctx config = rt.resolveFields ctx' config :=
  resolveFields_congr_of_occurrences rt config fun _ ho =>
    resolveReference_congr rt h.iter fun _ hn => h.upstream _ (mem_upstreamTargets ho hn)

/-- A missing output is reported only for a node that a reference names and
that has none. -/
theorem resolveReference_noAvailableOutput {rt : Runtime} {ctx : ReferenceContext} {kind : RefKind}
    {path n : String}
    (h : rt.resolveReference ctx kind path = .error (.fault (.noAvailableOutput n))) :
    upstreamTarget? kind path = some n ∧ ctx.upstream n = none := by
  have hnavigate : ∀ (kind : RefKind) (path : String) (base : Value) (segments : List String),
      rt.navigate kind path base segments ≠ .error (.fault (.noAvailableOutput n)) := by
    intro kind path base segments hbad
    unfold Runtime.navigate at hbad
    split at hbad <;> simp at hbad
  unfold Runtime.resolveReference at h
  split at h
  · simp at h
  · split at h
    · simp at h
    · split at h
      · simp at h
      · exact absurd h (hnavigate _ _ _ _)
  · rename_i nodeId rest hsplit
    split at h
    · rename_i hnone
      simp only [Except.error.injEq, ReferenceError.fault.injEq,
        ReferenceFault.noAvailableOutput.injEq] at h
      subst h
      exact ⟨by simp [upstreamTarget?, hsplit], hnone⟩
    · unfold Runtime.resolveInRecords at h
      repeat' split at h
      all_goals first | exact absurd h (hnavigate _ _ _ _) | simp at h

/-- The same for a whole config. -/
theorem resolveFields_noAvailableOutput {rt : Runtime} {ctx : ReferenceContext} {config : Fields}
    {n : String} (h : rt.resolveFields ctx config = .error (.fault (.noAvailableOutput n))) :
    n ∈ upstreamTargets config ∧ ctx.upstream n = none := by
  rw [resolveFields_error_iff, Runtime.firstError?] at h
  rcases List.exists_of_findSome?_eq_some h with ⟨o, ho, herror⟩
  have href : rt.resolveReference ctx o.kind o.path = .error (.fault (.noAvailableOutput n)) := by
    unfold Runtime.occurrenceError? Runtime.interpolate at herror
    cases hvalue : rt.resolveReference ctx o.kind o.path with
    | error e =>
        rw [hvalue] at herror
        by_cases hembedded : o.embedded = true <;> simp [hembedded] at herror <;> rw [herror]
    | ok value =>
        rw [hvalue] at herror
        by_cases hembedded : o.embedded = true
        · cases htext : rt.pyStr value <;> simp [hembedded, htext] at herror
        · simp [hembedded] at herror
  rcases resolveReference_noAvailableOutput href with ⟨htarget, hnone⟩
  exact ⟨mem_upstreamTargets ho htarget, hnone⟩

/-! ## Plain values -/

/-- A text that resolution leaves as it is: no reference and no escape. -/
def PlainText (text : String) : Prop :=
  isEscaped text = false ∧ findInString text = []

instance (text : String) : Decidable (PlainText text) :=
  inferInstanceAs (Decidable (_ ∧ _))

mutual

/-- No string inside the value is escaped. -/
def Value.EscapeFree : Value → Prop
  | .str text => isEscaped text = false
  | .dict fields => EscapeFreeFields fields
  | .list items => EscapeFreeItems items
  | _ => True

/-- No string inside the items is escaped. -/
def Value.EscapeFreeItems : List Value → Prop
  | [] => True
  | v :: rest => v.EscapeFree ∧ EscapeFreeItems rest

/-- No string inside the values is escaped. -/
def Value.EscapeFreeFields : List (String × Value) → Prop
  | [] => True
  | (_, v) :: rest => v.EscapeFree ∧ EscapeFreeFields rest

end

/-- A text in which no reference is found is scanned character by character. -/
theorem scanPieces_plain : ∀ (fuel : Nat) (text : List Char), text.length ≤ fuel →
    (scanPieces fuel text).filterMap Piece.reference? = [] →
      scanPieces fuel text = text.map Piece.text
  | 0, [], _, _ => rfl
  | 0, _ :: _, hlength, _ => absurd hlength (Nat.not_succ_le_zero _)
  | _ + 1, [], _, _ => rfl
  | fuel + 1, c :: rest, hlength, h => by
      rw [scanPieces] at h ⊢
      cases hmatch : matchEmbedded? (c :: rest) with
      | some found =>
          rw [hmatch] at h
          simp [Piece.reference?] at h
      | none =>
          rw [hmatch] at h
          have hrest := scanPieces_plain fuel rest (Nat.le_of_succ_le_succ hlength)
            (by simpa [Piece.reference?] using h)
          simp only [hrest, List.map_cons]

private theorem resolvePieces_texts (rt : Runtime) (ctx : ReferenceContext) (text : List Char) :
    rt.resolvePieces ctx (text.map Piece.text) = .ok (String.ofList text) := by
  induction text with
  | nil => rfl
  | cons c rest ih =>
      rw [List.map_cons, Runtime.resolvePieces, ih]
      simp

/-- A plain text resolves to itself. -/
theorem resolveString_plain (rt : Runtime) (ctx : ReferenceContext) {text : String}
    (h : PlainText text) : rt.resolveString ctx text = .ok (.str text) := by
  rcases h with ⟨hescaped, hfind⟩
  rw [findInString, hescaped, if_neg Bool.false_ne_true] at hfind
  cases hwhole : wholeReference? text with
  | some reference => simp [hwhole] at hfind
  | none =>
      rw [hwhole] at hfind
      have hpieces : pieces text = text.toList.map Piece.text :=
        scanPieces_plain _ _ le_rfl hfind
      simp [Runtime.resolveString, hescaped, hwhole, hpieces, resolvePieces_texts]

mutual

/-- A value without references and escapes resolves to itself. -/
theorem resolveConfig_plain (rt : Runtime) (ctx : ReferenceContext) : ∀ v : Value,
    v.EscapeFree → findReferences v = [] → rt.resolveConfig ctx v = .ok v
  | .str text, hescape, hfind => resolveString_plain rt ctx ⟨hescape, hfind⟩
  | .dict fields, hescape, hfind => by
      rw [Runtime.resolveConfig, resolveFields_plain rt ctx fields hescape hfind]
  | .list items, hescape, hfind => by
      rw [Runtime.resolveConfig, resolveItems_plain rt ctx items hescape hfind]
  | .none, _, _ => rfl
  | .bool _, _, _ => rfl
  | .int _, _, _ => rfl
  | .float _, _, _ => rfl
  | .foreign _ _ _, _, _ => rfl

private theorem resolveItems_plain (rt : Runtime) (ctx : ReferenceContext) : ∀ items : List Value,
    Value.EscapeFreeItems items → findInItems items = [] → rt.resolveItems ctx items = .ok items
  | [], _, _ => rfl
  | v :: rest, hescape, hfind => by
      rw [findInItems, List.append_eq_nil_iff] at hfind
      rw [Runtime.resolveItems, resolveConfig_plain rt ctx v hescape.1 hfind.1,
        resolveItems_plain rt ctx rest hescape.2 hfind.2]

private theorem resolveFields_plain (rt : Runtime) (ctx : ReferenceContext) :
    ∀ fields : List (String × Value), Value.EscapeFreeFields fields →
      findInFields fields = [] → rt.resolveFields ctx fields = .ok fields
  | [], _, _ => rfl
  | (key, v) :: rest, hescape, hfind => by
      rw [findInFields, List.append_eq_nil_iff] at hfind
      rw [Runtime.resolveFields, resolveConfig_plain rt ctx v hescape.1 hfind.1,
        resolveFields_plain rt ctx rest hescape.2 hfind.2]

end

/-- Resolution acts on the value under a key and leaves the key. -/
theorem lookup_resolveFields {rt : Runtime} {ctx : ReferenceContext} {fields resolved : Fields}
    (h : rt.resolveFields ctx fields = .ok resolved) (key : String) :
    match fields.lookup key with
    | none => resolved.lookup key = none
    | some v => ∃ v', rt.resolveConfig ctx v = .ok v' ∧ resolved.lookup key = some v' := by
  induction fields generalizing resolved with
  | nil =>
      cases h
      rfl
  | cons field rest ih =>
      rcases field with ⟨name, v⟩
      rw [Runtime.resolveFields] at h
      cases hv : rt.resolveConfig ctx v with
      | error e => simp [hv] at h
      | ok v' =>
          cases hrest : rt.resolveFields ctx rest with
          | error e => simp [hv, hrest] at h
          | ok rest' =>
              simp only [hv, hrest, Except.ok.injEq] at h
              subst h
              by_cases hkey : key = name
              · subst hkey
                simp [hv]
              · have hne : (key == name) = false := beq_false_of_ne hkey
                simp only [List.lookup_cons, hne]
                exact ih hrest

end EtlTool
