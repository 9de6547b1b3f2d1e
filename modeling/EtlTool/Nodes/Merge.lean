import EtlTool.Core.PythonEquality
import EtlTool.Foundations.HashJoin
import EtlTool.Nodes.Base

/-!
# The merge node

Combining input streams: {lit}`concat` appends them, {lit}`union` also drops exact
duplicates, and {lit}`join` matches the records of two streams on a list of key paths.
The join indexes the right records and probes the index with the left ones.

A key is known by what Python's hash and {lit}`==` see of it: the worth of a number, a
text, or the class of a foreign object, where a NaN is taken as one object, as the JSON
parser makes it.  Objects and lists are compared through their JSON texts.

Main results:

- Theorem {lit}`join_eq_nestedLoop`: a join returns exactly if all keys can be computed,
  and then what the nested loop over both streams returns.

Current gaps:

- The log events of the node.
-/

namespace EtlTool

/-! ## Configs -/

/-- {lit}`MergeConfig.strategy`. -/
inductive MergeStrategy where
  | concat
  | union
  | join
deriving DecidableEq

/-- {lit}`MergeConfig.how`. -/
inductive JoinHow where
  | inner
  | left
  | outer
deriving DecidableEq

/-- {lit}`MergeConfig`.  A join has keys. -/
structure MergeConfig where
  strategy : MergeStrategy := .concat
  keys : Option (List String) := none
  how : JoinHow := .inner
  suffix : String := "_right"
  suffix_nonempty : suffix ≠ "" := by decide
  keys_given : strategy = .join → keys.getD [] ≠ [] := by decide

/-- {lit}`MergeNode.check_spec`. -/
def MergeConfig.checkSpec (config : Option MergeConfig) (inEdgeCounts : OrderedDict String Nat) :
    List String :=
  let count := (inEdgeCounts.get? "in").getD 0
  if config.map MergeConfig.strategy = some .join then
    if count ≠ 2 then ["join merge requires exactly 2 inputs, found " ++ toString count] else []
  else if count < 2 then ["merge requires at least 2 inputs, found " ++ toString count]
  else []

/-! ## Keys -/

/-- {lit}`_canonical`. -/
def Runtime.canonical (rt : Runtime) (record : Fields) : Except PyException String :=
  rt.jsonDumps true (fun _ repr => repr) (.dict record)

/-- What hash and {lit}`==` see of one part of a key. -/
inductive KeyPart where
  | none
  | number (x : PyFloat)
  | text (s : String)
  | foreign (name : String)
deriving DecidableEq

/-- The part that a foreign object is, from its type and its texts; {lean}`none` if it has
no hash.  A decimal that equals a number is that number. -/
abbrev ForeignKeys := String → String → String → Option KeyPart

/-- The part that a value is; {lean}`none` if it has no hash. -/
def keyPart (foreign : ForeignKeys) : Value → Option KeyPart
  | .none => some .none
  | .bool b => some (.number (.finite (if b then 1 else 0)))
  | .int z => some (.number (.finite z))
  | .float x => some (.number x)
  | .str s => some (.text s)
  | .foreign name text repr => foreign name text repr
  | .list _ => Option.none
  | .dict _ => Option.none

/-- Objects and lists take part in a key by their JSON texts; only the members of objects
are ordered. -/
def Runtime.keyValue (rt : Runtime) (value : Value) : Except PyException Value :=
  match value with
  | .dict record => (rt.canonical record).map Value.str
  | .list _ => (rt.jsonDumps false (fun _ repr => repr) value).map Value.str
  | value => .ok value

/-- The loop of {lit}`_key_of`: the parts, unless a key path is missing. -/
def Runtime.keyValues (rt : Runtime) (record : Fields) :
    List String → Except PyException (Option (List Value))
  | [] => .ok (some [])
  | key :: rest =>
      match rt.getPath? (.dict record) (splitPath key) with
      | .error exc => .error exc
      | .ok none => .ok none
      | .ok (some value) =>
          match rt.keyValue value with
          | .error exc => .error exc
          | .ok part =>
              match rt.keyValues record rest with
              | .error exc => .error exc
              | .ok none => .ok none
              | .ok (some parts) => .ok (some (part :: parts))

/-- A tuple of key parts, as a dict key. -/
abbrev JoinKey := List KeyPart

/-- {lit}`_key_of`: missing also if a part has no hash. -/
def Runtime.keyOf (rt : Runtime) (foreign : ForeignKeys) (record : Fields) (keys : List String) :
    Except PyException (Option JoinKey) :=
  match rt.keyValues record keys with
  | .error exc => .error exc
  | .ok none => .ok none
  | .ok (some parts) => .ok (parts.mapM (keyPart foreign))

/-! ## Joins -/

/-- A left record with the fields of a right record; key fields are left out, and a field
that the row has already is written under the suffixed name. -/
def combine (keys : List String) (suffix : String) (row : Fields) : Fields → Fields
  | [] => row
  | (field, value) :: rest =>
      if field ∈ keys then combine keys suffix row rest
      else if field ∈ row.map Prod.fst then
        combine keys suffix (OrderedDict.setPair (field ++ suffix) value row) rest
      else combine keys suffix (OrderedDict.setPair field value row) rest

/-- Index the right records. -/
def indexRight (keyOf : Fields → Except PyException (Option JoinKey)) :
    HashJoin.Index JoinKey Fields → Records →
      Except PyException (HashJoin.Index JoinKey Fields)
  | index, [] => .ok index
  | index, record :: rest =>
      match keyOf record with
      | .error exc => .error exc
      | .ok key => indexRight keyOf (index.insert key record) rest

/-- What a left record without matches adds to the output. -/
def leftAlone (how : JoinHow) (record : Fields) : Records :=
  if how = .left ∨ how = .outer then [record] else []

/-- Probe the index with the left records: the matched keys and the output. -/
def probeLeft (keyOf : Fields → Except PyException (Option JoinKey)) (how : JoinHow)
    (merge : Fields → Fields → Fields) (index : HashJoin.Index JoinKey Fields) :
    List JoinKey → Records → Records → Except PyException (List JoinKey × Records)
  | matched, out, [] => .ok (matched, out)
  | matched, out, record :: rest =>
      match keyOf record with
      | .error exc => .error exc
      | .ok key =>
          match key, index.matches key with
          | some key, first :: others =>
              probeLeft keyOf how merge index (matched ++ [key])
                (out ++ (first :: others).map (merge record)) rest
          | _, _ => probeLeft keyOf how merge index matched (out ++ leftAlone how record) rest

/-- The body of {lit}`_join` on two streams. -/
def Runtime.joinRecords (rt : Runtime) (foreign : ForeignKeys) (keys : List String)
    (how : JoinHow) (suffix : String) (left right : Records) : Except PyException Records :=
  match indexRight (fun record => rt.keyOf foreign record keys) .empty right with
  | .error exc => .error exc
  | .ok index =>
      match probeLeft (fun record => rt.keyOf foreign record keys) how (combine keys suffix) index
          [] [] left with
      | .error exc => .error exc
      | .ok (matched, out) =>
          .ok (if how = .outer then out ++ index.unmatched matched else out)

/-- {lit}`MergeNode._join`. -/
def mergeJoin (rt : Runtime) (foreign : ForeignKeys) (ctx : NodeContext) (cfg : MergeConfig)
    (streams : List Records) : Except Raised Records :=
  match streams with
  | [left, right] =>
      match rt.joinRecords foreign (cfg.keys.getD []) cfg.how cfg.suffix left right with
      | .error exc => .error (.other exc)
      | .ok records => .ok records
  | _ =>
      .error (.node (ctx.error .validation
        ("join requires exactly 2 inputs, got " ++ toString streams.length)))

/-- The records whose canonical text has not been seen. -/
def dropDuplicates (rt : Runtime) (seen : List String) :
    Records → Except PyException Records
  | [] => .ok []
  | record :: rest =>
      match rt.canonical record with
      | .error exc => .error exc
      | .ok marker =>
          if marker ∈ seen then dropDuplicates rt seen rest
          else (dropDuplicates rt (marker :: seen) rest).map (record :: ·)

/-- {lit}`MergeNode.run`. -/
def mergeRun (rt : Runtime) (foreign : ForeignKeys) (ctx : NodeContext) (cfg : MergeConfig)
    (inputs : NodeInputs) : Except Raised NodeOutputs :=
  let streams := (inputs.get? "in").getD []
  let merged : Except Raised Records :=
    match cfg.strategy with
    | .concat => .ok streams.flatten
    | .union =>
        match dropDuplicates rt [] streams.flatten with
        | .error exc => .error (.other exc)
        | .ok records => .ok records
    | .join => mergeJoin rt foreign ctx cfg streams
  merged.map fun records => .singleton "out" records

/-! ## The nested loop -/

/-- The key of a record; missing also if it cannot be computed. -/
def keyOrNone (keyOf : Fields → Except PyException (Option JoinKey)) (record : Fields) :
    Option JoinKey :=
  match keyOf record with
  | .error _ => none
  | .ok key => key

/-- Both records have a key, and the keys are equal. -/
def matchesKey (keyOf : Fields → Except PyException (Option JoinKey)) (left right : Fields) :
    Bool :=
  match keyOf left, keyOf right with
  | .ok (some key), .ok (some key') => decide (key = key')
  | _, _ => false

/-- The nested loop: every left record with the right records that match it, in order. -/
def nestedLoopJoin (keyOf : Fields → Except PyException (Option JoinKey)) (how : JoinHow)
    (merge : Fields → Fields → Fields) (left right : Records) : Records :=
  left.flatMap fun record =>
    let found := right.filter (matchesKey keyOf record)
    if found = [] then leftAlone how record else found.map (merge record)

/-- The right records that match no left record. -/
def unmatchedRight (keyOf : Fields → Except PyException (Option JoinKey))
    (left right : Records) : Records :=
  right.filter fun other => !left.any fun record => matchesKey keyOf record other

section

variable {keyOf : Fields → Except PyException (Option JoinKey)}

private theorem matchesKey_eq (left right : Fields) :
    matchesKey keyOf left right = ((keyOrNone keyOf left).isSome &&
      decide (keyOrNone keyOf right = keyOrNone keyOf left)) := by
  unfold matchesKey keyOrNone
  cases keyOf left with
  | error exc => rfl
  | ok key =>
      cases key with
      | none => rfl
      | some key =>
          cases keyOf right with
          | error exc => rfl
          | ok key' => cases key' <;> simp [eq_comm]

/-- Indexing succeeds exactly if every key can be computed. -/
theorem indexRight_ok_iff (rows : Records) (index result : HashJoin.Index JoinKey Fields) :
    indexRight keyOf index rows = .ok result ↔
      (∀ row ∈ rows, ∃ key, keyOf row = .ok key) ∧
        result = rows.foldl (fun index row => index.insert (keyOrNone keyOf row) row) index := by
  induction rows generalizing index with
  | nil => simp [indexRight, eq_comm]
  | cons row rows ih =>
      cases hkey : keyOf row with
      | error exc => simp [indexRight, hkey]
      | ok key => simp [indexRight, hkey, ih, keyOrNone]

/-- Probing succeeds exactly if every key can be computed. -/
theorem probeLeft_ok_iff (how : JoinHow) (merge : Fields → Fields → Fields)
    (index : HashJoin.Index JoinKey Fields) (rows : Records) (matched : List JoinKey)
    (out : Records) (result : List JoinKey × Records) :
    probeLeft keyOf how merge index matched out rows = .ok result ↔
      (∀ row ∈ rows, ∃ key, keyOf row = .ok key) ∧
        result = (matched ++ HashJoin.matchedKeys (keyOrNone keyOf) index rows,
          out ++ HashJoin.probe (keyOrNone keyOf) merge (leftAlone how) index rows) := by
  induction rows generalizing matched out with
  | nil =>
      have hkeys : HashJoin.matchedKeys (keyOrNone keyOf) index ([] : Records) = [] := rfl
      have hrows : HashJoin.probe (keyOrNone keyOf) merge (leftAlone how) index [] = [] := rfl
      rw [probeLeft, hkeys, hrows, List.append_nil, List.append_nil, Except.ok.injEq]
      exact ⟨fun h => ⟨by simp, h.symm⟩, fun h => h.2.symm⟩
  | cons row rows ih =>
      cases hkey : keyOf row with
      | error exc => simp [probeLeft, hkey]
      | ok key =>
          have hsame : keyOrNone keyOf row = key := by
            rw [keyOrNone, hkey]
          cases hfound : index.matches key with
          | nil =>
              have hprobe : probeLeft keyOf how merge index matched out (row :: rows) =
                  probeLeft keyOf how merge index matched (out ++ leftAlone how row) rows := by
                cases key <;> simp [probeLeft, hkey, hfound]
              rw [hprobe, ih]
              simp [HashJoin.matchedKeys, HashJoin.probe, HashJoin.rowOutput, hsame, hfound, hkey]
          | cons first others =>
              cases key with
              | none => simp [HashJoin.Index.matches] at hfound
              | some key =>
                  simp [probeLeft, ih, HashJoin.matchedKeys, HashJoin.probe, HashJoin.rowOutput,
                    hsame, hfound, hkey]

end

/-- The records of a join, when all keys can be computed. -/
theorem joinRecords_ok_iff (rt : Runtime) (foreign : ForeignKeys) (keys : List String)
    (how : JoinHow) (suffix : String) (left right out : Records) :
    rt.joinRecords foreign keys how suffix left right = .ok out ↔
      (∀ record ∈ right ++ left, ∃ key, rt.keyOf foreign record keys = .ok key) ∧
        let key := keyOrNone fun record => rt.keyOf foreign record keys
        let index := HashJoin.Index.build key right
        let rows := HashJoin.probe key (combine keys suffix) (leftAlone how) index left
        out = if how = .outer then rows ++ index.unmatched (HashJoin.matchedKeys key index left)
          else rows := by
  have hindex := @indexRight_ok_iff (fun record => rt.keyOf foreign record keys) right .empty
  have hprobe := fun index => @probeLeft_ok_iff (fun record => rt.keyOf foreign record keys) how
    (combine keys suffix) index left [] []
  simp only [List.forall_mem_append, and_assoc]
  unfold Runtime.joinRecords
  cases hright : indexRight (fun record => rt.keyOf foreign record keys) .empty right with
  | error exc =>
      refine iff_of_false (by simp) fun h => ?_
      have hok := (hindex _).mpr ⟨h.1, rfl⟩
      rw [hright] at hok
      cases hok
  | ok index =>
      rcases (hindex index).mp hright with ⟨hkeys, hbuilt⟩
      have hsame : index = HashJoin.Index.build
          (keyOrNone fun record => rt.keyOf foreign record keys) right := hbuilt
      rw [← hsame]
      dsimp only
      cases hleft : probeLeft (fun record => rt.keyOf foreign record keys) how
          (combine keys suffix) index [] [] left with
      | error exc =>
          refine iff_of_false (by simp) fun h => ?_
          have hok := (hprobe index _).mpr ⟨h.2.1, rfl⟩
          rw [hleft] at hok
          cases hok
      | ok result =>
          rcases (hprobe index result).mp hleft with ⟨hkeys', hresult⟩
          rw [List.nil_append, List.nil_append] at hresult
          subst hresult
          exact ⟨fun h => ⟨hkeys, hkeys', (Except.ok.inj h).symm⟩, fun h => by rw [h.2.2]⟩

/-- A join fails exactly if a key cannot be computed.  Otherwise its output is that of the
nested loop, followed, for an outer join, by the right records that match no left record. -/
theorem join_eq_nestedLoop (rt : Runtime) (foreign : ForeignKeys) (keys : List String)
    (how : JoinHow) (suffix : String) (left right : Records) :
    ((∃ exc, rt.joinRecords foreign keys how suffix left right = .error exc) ↔
      ∃ record ∈ right ++ left, ∃ exc, rt.keyOf foreign record keys = .error exc) ∧
    ∀ out, rt.joinRecords foreign keys how suffix left right = .ok out →
      ∃ rest, out = nestedLoopJoin (fun record => rt.keyOf foreign record keys) how
          (combine keys suffix) left right ++ rest ∧
        (how ≠ .outer → rest = []) ∧
        (how = .outer →
          rest.Perm (unmatchedRight (fun record => rt.keyOf foreign record keys) left right)) := by
  have hok := joinRecords_ok_iff rt foreign keys how suffix left right
  refine ⟨?_, fun out hout => ?_⟩
  · have hall : (∃ out, rt.joinRecords foreign keys how suffix left right = .ok out) ↔
        ∀ record ∈ right ++ left, ∃ key, rt.keyOf foreign record keys = .ok key :=
      ⟨fun ⟨out, hout⟩ => ((hok out).mp hout).1, fun h => ⟨_, (hok _).mpr ⟨h, rfl⟩⟩⟩
    have herror : ∀ {ε α : Type} (result : Except ε α),
        (∃ exc, result = .error exc) ↔ ¬ ∃ value, result = .ok value := by
      intro ε α result
      cases result <;> simp
    simp only [herror, hall, not_forall, exists_prop]
  · rcases (hok out).mp hout with ⟨_, hrows⟩
    have hloop : HashJoin.nestedLoop (keyOrNone fun record => rt.keyOf foreign record keys)
        (keyOrNone fun record => rt.keyOf foreign record keys) (combine keys suffix)
        (leftAlone how) left right =
        nestedLoopJoin (fun record => rt.keyOf foreign record keys) how (combine keys suffix)
          left right := by
      unfold HashJoin.nestedLoop nestedLoopJoin
      simp only [HashJoin.rowOutput, ← matchesKey_eq]
    have hrest : unmatchedRight (fun record => rt.keyOf foreign record keys) left right =
        right.filter fun other => !left.any fun record =>
          (keyOrNone (fun record => rt.keyOf foreign record keys) record).isSome &&
            decide (keyOrNone (fun record => rt.keyOf foreign record keys) other =
              keyOrNone (fun record => rt.keyOf foreign record keys) record) := by
      simp only [unmatchedRight, matchesKey_eq]
    simp only [HashJoin.probe_build, hloop] at hrows
    by_cases houter : how = .outer
    · rw [if_pos houter] at hrows
      refine ⟨_, hrows, fun hne => absurd houter hne, fun _ => ?_⟩
      rw [hrest]
      exact HashJoin.unmatched_perm _ _ left right
    · rw [if_neg houter] at hrows
      exact ⟨[], by rw [hrows, List.append_nil], fun _ => rfl, fun h => absurd h houter⟩

/-! ## An outer join -/

namespace MergeSamples

/-- Orders: two of one customer, one of a customer without a name, one without a customer. -/
def orders : Records :=
  [[("customer", .int 1), ("total", .int 30)], [("total", .int 5)],
    [("customer", .int 2), ("total", .int 7)], [("customer", .int 1), ("total", .int 9)]]

/-- Names, one of them without a customer and one of a customer without orders. -/
def names : Records :=
  [[("name", .str "ghost")], [("customer", .int 3), ("name", .str "Cy")],
    [("customer", .float (.finite 1)), ("name", .str "Ada")]]

end MergeSamples

open MergeSamples

theorem join_eq_nestedLoop_outer :
    ∃ out, decimalRuntime.joinRecords (fun _ _ _ => none) ["customer"] .outer "_right" orders
        names = .ok out ∧
      ∃ rest, out = nestedLoopJoin
          (fun record => decimalRuntime.keyOf (fun _ _ _ => none) record ["customer"]) .outer
          (combine ["customer"] "_right") orders names ++ rest ∧
        (JoinHow.outer ≠ .outer → rest = []) ∧
        (JoinHow.outer = .outer → rest.Perm (unmatchedRight
          (fun record => decimalRuntime.keyOf (fun _ _ _ => none) record ["customer"]) orders
          names)) :=
  have hout : decimalRuntime.joinRecords (fun _ _ _ => none) ["customer"] .outer "_right" orders
      names = .ok
        [[("customer", .int 1), ("total", .int 30), ("name", .str "Ada")], [("total", .int 5)],
          [("customer", .int 2), ("total", .int 7)],
          [("customer", .int 1), ("total", .int 9), ("name", .str "Ada")],
          [("customer", .int 3), ("name", .str "Cy")], [("name", .str "ghost")]] := by
    decide +kernel
  ⟨_, hout, (join_eq_nestedLoop _ _ _ _ _ _ _).2 _ hout⟩

end EtlTool
