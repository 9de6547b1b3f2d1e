import EtlTool.Core.Paths
import EtlTool.Nodes.Base

/-!
# Files of records

Reading records from a file and writing them to one, in the four formats.  The JSON
formats go through text, the tabular ones through a frame whose cells have the types of
its columns.  Appending reads the records that are there, and writes all of them again.

The JSON module of the interpreter and the dataframe library are parameters.  What is assumed
of the first one holds of a module that writes the texts of {lit}`Runtime.jsonText`, as
{lit}`JsonModule.of_jsonText` states.

Main results:

- Theorem {lit}`readsBack_jsonl`: a file of JSON lines gives back what was written to it,
  if the JSON module does so for every record.
- Theorem {lit}`readsBack_json`: the same for a JSON file.
- Theorem {lit}`readsBack_parquet`: the same for a parquet file, if the dataframe library
  does so for the table of the records.

Current gaps:

- Missing parent directories, and the access policy that resolves the path.
-/

namespace EtlTool

/-! ## Formats and files -/

/-- {lit}`FileFormat`. -/
inductive FileFormat where
  | csv
  | json
  | jsonl
  | parquet
deriving DecidableEq

/-- What a file holds: text, or bytes that are no text. -/
inductive Content where
  | text (text : String)
  | binary (bytes : List UInt8)
deriving DecidableEq

/-- A type of cells that JSON does not have. -/
inductive ForeignType where
  | date
  | datetime
  | time
  | duration
  | decimal
  | binary
deriving DecidableEq

/-- The Python type of the objects that stand for such cells. -/
def ForeignType.pyName : ForeignType → String
  | date => "date"
  | datetime => "datetime"
  | time => "time"
  | duration => "timedelta"
  | decimal => "Decimal"
  | binary => "bytes"

/-- A cell of a frame. -/
inductive Cell where
  | null
  | bool (b : Bool)
  | int (z : Int)
  | float (x : PyFloat)
  | str (s : String)
  | foreign (type : ForeignType) (text repr : String)
  | list (items : List Cell)
  | struct (fields : List (String × Cell))

mutual

/-- The Python object of a cell. -/
def Cell.toPython : Cell → Value
  | .null => .none
  | .bool b => .bool b
  | .int z => .int z
  | .float x => .float x
  | .str s => .str s
  | .foreign type text repr => .foreign type.pyName text repr
  | .list items => .list (itemsToPython items)
  | .struct fields => .dict (fieldsToPython fields)

/-- The Python objects of the cells of a list. -/
def Cell.itemsToPython : List Cell → List Value
  | [] => []
  | cell :: rest => cell.toPython :: itemsToPython rest

/-- The Python objects of the fields of a struct. -/
def Cell.fieldsToPython : List (String × Cell) → Fields
  | [] => []
  | (key, cell) :: rest => (key, cell.toPython) :: fieldsToPython rest

end

/-- A frame: named columns of one length. -/
structure DataFrame where
  height : Nat
  columns : List (String × List Cell)
  columns_length : ∀ column ∈ columns, column.2.length = height

/-- {lit}`frame.to_dicts()`. -/
def DataFrame.toDicts (frame : DataFrame) : Records :=
  (List.range frame.height).map fun i =>
    frame.columns.map fun column => (column.1, (column.2[i]?.getD .null).toPython)

/-! ## Libraries -/

/-- What the file nodes take from the JSON module and from the dataframe library. -/
structure FileLibraries where
  /-- {lit}`json.dumps(value, indent=indent, default=str)`. -/
  dumps : Option Nat → Value → Except PyException String
  /-- {lit}`json.loads(text)`. -/
  loads : String → Except PyException Value
  /-- {lit}`pl.read_csv(path, has_header, separator, infer_schema_length, n_rows)`. -/
  readCsv : Bool → String → Bool → Option Nat → Content → Except PyException DataFrame
  /-- {lit}`pl.read_parquet(path, n_rows)`. -/
  readParquet : Option Nat → Content → Except PyException DataFrame
  /-- {lit}`pl.DataFrame(rows, strict=False)`. -/
  dataFrame : Records → Except PyException DataFrame
  /-- {lit}`frame.write_csv(path, separator, include_header)`. -/
  writeCsv : String → Bool → DataFrame → Except PyException Content
  /-- {lit}`frame.write_parquet(path)`. -/
  writeParquet : DataFrame → Except PyException Content

/-- Why a file cannot be read or written. -/
inductive FileFailure where
  /-- {lit}`FileAccessError`. -/
  | access (message : String)
  /-- {lit}`FileFormatError`. -/
  | format (message : String)
  | other (exc : PyException)
deriving DecidableEq

/-- The exception is a {lit}`ValueError`. -/
def PyException.isValueError (exc : PyException) : Bool :=
  exc.typeName = "ValueError" || exc.typeName = "JSONDecodeError" ||
    exc.typeName = "UnicodeDecodeError"

/-- The {lit}`UnicodeDecodeError` of bytes that are no text. -/
def unicodeDecodeError : PyException where
  typeName := "UnicodeDecodeError"
  text := some "'utf-8' codec can't decode bytes"

/-! ## Lines -/

/-- {lit}`text.strip()`. -/
def pyStrip (text : List Char) : List Char :=
  ((text.dropWhile isSpaceChar).reverse.dropWhile isSpaceChar).reverse

/-- Text mode turns every line break into a line feed. -/
def universalNewlines : List Char → List Char
  | '\r' :: '\n' :: rest => '\n' :: universalNewlines rest
  | '\r' :: rest => '\n' :: universalNewlines rest
  | c :: rest => c :: universalNewlines rest
  | [] => []

/-- The lines of a file, and the text after the last line break. -/
def fileLines (text : String) : List (List Char) :=
  (universalNewlines text.toList).splitOn '\n'

/-! ## Reading -/

/-- The options of {lit}`read_records`. -/
structure ReadOptions where
  limit : Option Nat := none
  hasHeader : Bool := true
  delimiter : String := ","
  inferSchema : Bool := true
  recordsPath : Option String := none

/-- {lit}`_coerce_item`. -/
def coerceItem : Value → Fields
  | .dict fields => fields
  | item => [("value", item)]

/-- {lit}`data if isinstance(data, list) else [data]`. -/
def listItems : Value → List Value
  | .list items => items
  | data => [data]

/-- The part of a JSON file that holds the records. -/
def selectRecords (rt : Runtime) (path : String) (recordsPath : Option String) (data : Value) :
    Except FileFailure Value :=
  match recordsPath with
  | none => .ok data
  | some "" => .ok data
  | some recordsPath =>
      match rt.getPath data (splitPath recordsPath) with
      | .ok value => .ok value
      | .error (.notFound message) =>
          .error (.format ("records_path " ++ rt.reprStr recordsPath ++ " not found in " ++ path ++
            ": " ++ message))
      | .error (.other exc) => .error (.other exc)

/-- {lit}`json.loads(path.read_text())`. -/
def loadFile (libs : FileLibraries) : Content → Except PyException Value
  | .text text => libs.loads (String.ofList (universalNewlines text.toList))
  | .binary _ => .error unicodeDecodeError

/-- {lit}`_read_json`. -/
def readJson (rt : Runtime) (libs : FileLibraries) (path : String) (recordsPath : Option String)
    (limit : Option Nat) (content : Content) : Except FileFailure Records :=
  match loadFile libs content with
  | .error exc =>
      if exc.isValueError then
        .error (.format (path ++ " is not valid JSON: " ++ exc.text.getD ""))
      else .error (.other exc)
  | .ok data =>
      match selectRecords rt path recordsPath data with
      | .error failure => .error failure
      | .ok data =>
          let records := (listItems data).map coerceItem
          match limit with
          | none => .ok records
          | some limit => .ok (records.take limit)

/-- The loop of {lit}`_read_jsonl`. -/
def readJsonLines (libs : FileLibraries) (path : String) (limit : Option Nat) :
    Nat → Records → List (List Char) → Except FileFailure Records
  | _, records, [] => .ok records
  | lineNo, records, line :: rest =>
      let line := pyStrip line
      if line = [] then readJsonLines libs path limit (lineNo + 1) records rest
      else
        match libs.loads (String.ofList line) with
        | .error exc =>
            if exc.isValueError then
              .error (.format (path ++ " line " ++ toString lineNo ++ " is not valid JSON: " ++
                exc.text.getD ""))
            else .error (.other exc)
        | .ok item =>
            let records := records ++ [coerceItem item]
            if limit.any fun limit => decide (limit ≤ records.length) then .ok records
            else readJsonLines libs path limit (lineNo + 1) records rest

/-- {lit}`_read_jsonl`. -/
def readJsonl (libs : FileLibraries) (path : String) (limit : Option Nat) (content : Content) :
    Except FileFailure Records :=
  match content with
  | .text text => readJsonLines libs path limit 1 [] (fileLines text)
  | .binary _ => .error (.other unicodeDecodeError)

/-- The records of a frame, or the exception that was raised for it. -/
def frameRecords : Except PyException DataFrame → Except FileFailure Records
  | .ok frame => .ok frame.toDicts
  | .error exc => .error (.other exc)

/-- {lit}`read_records`. -/
def readRecords (rt : Runtime) (libs : FileLibraries) (path : String) (fmt : FileFormat)
    (options : ReadOptions) (file : Option Content) : Except FileFailure Records :=
  match file with
  | none => .error (.access ("file not found: " ++ path))
  | some content =>
      match fmt with
      | .json => readJson rt libs path options.recordsPath options.limit content
      | .jsonl => readJsonl libs path options.limit content
      | .csv => frameRecords (libs.readCsv options.hasHeader options.delimiter options.inferSchema
          options.limit content)
      | .parquet => frameRecords (libs.readParquet options.limit content)

/-! ## Writing -/

/-- The mode of {lit}`write_records`. -/
inductive WriteMode where
  | overwrite
  | append
  | error
deriving DecidableEq

/-- The options of {lit}`write_records`. -/
structure WriteOptions where
  hasHeader : Bool := true
  delimiter : String := ","
  jsonIndent : Option Nat := some 2

/-- The first part of {lit}`write_records`: the records that are going to be written. -/
def combinedRecords (rt : Runtime) (libs : FileLibraries) (path : String) (fmt : FileFormat)
    (mode : WriteMode) (records : Records) (file : Option Content) : Except FileFailure Records :=
  match mode with
  | .error =>
      if file.isSome then .error (.access ("refusing to overwrite existing file: " ++ path))
      else .ok records
  | .append =>
      if file.isSome then
        (readRecords rt libs path fmt {} file).map fun existing => existing ++ records
      else .ok records
  | .overwrite => .ok records

/-- {lit}`_write_jsonl`: the text that has been written, and the exception that ended
it. -/
def writeJsonl (libs : FileLibraries) : Records → String × Option PyException
  | [] => ("", none)
  | record :: rest =>
      match libs.dumps none (.dict record) with
      | .error exc => ("", some exc)
      | .ok line =>
          let written := writeJsonl libs rest
          (line ++ "\n" ++ written.1, written.2)

/-- The columns of {lit}`_frame`: the keys of all records. -/
def frameColumns (records : Records) : List String :=
  (records.flatMap fun record => record.map Prod.fst).eraseDups

/-- {lit}`record.get(key, None)`. -/
def fieldOrNone (record : Fields) (key : String) : Value :=
  (record.lookup key).getD .none

/-- {lit}`json.dumps(value, default=str) if isinstance(value, (dict, list)) else value`. -/
def encodeNested (dumps : Value → Except PyException String) : Value → Except PyException Value
  | .dict fields => (dumps (.dict fields)).map .str
  | .list items => (dumps (.list items)).map .str
  | value => .ok value

/-- A row of {lit}`_frame`. -/
def frameRow (libs : FileLibraries) (record : Fields) : List String → Except PyException Fields
  | [] => .ok []
  | key :: rest =>
      match encodeNested (libs.dumps none) (fieldOrNone record key) with
      | .error exc => .error exc
      | .ok cell => (frameRow libs record rest).map fun row => (key, cell) :: row

/-- The rows of {lit}`_frame`. -/
def frameRows (libs : FileLibraries) (columns : List String) :
    Records → Except PyException Records
  | [] => .ok []
  | record :: rest =>
      match frameRow libs record columns with
      | .error exc => .error exc
      | .ok row => (frameRows libs columns rest).map fun rows => row :: rows

/-- {lit}`_frame`. -/
def recordsFrame (libs : FileLibraries) (records : Records) : Except PyException DataFrame :=
  match frameRows libs (frameColumns records) records with
  | .error exc => .error exc
  | .ok rows => libs.dataFrame rows

/-- The rest of {lit}`write_records`: the file afterwards, and the exception that was
raised. -/
def writeCombined (libs : FileLibraries) (fmt : FileFormat) (options : WriteOptions)
    (combined : Records) (file : Option Content) : Option Content × Option PyException :=
  match fmt with
  | .jsonl =>
      let written := writeJsonl libs combined
      (some (.text written.1), written.2)
  | .json =>
      match libs.dumps options.jsonIndent (.list (combined.map .dict)) with
      | .error exc => (file, some exc)
      | .ok text => (some (.text text), none)
  | .csv =>
      match recordsFrame libs combined with
      | .error exc => (file, some exc)
      | .ok frame =>
          match libs.writeCsv options.delimiter options.hasHeader frame with
          | .error exc => (file, some exc)
          | .ok content => (some content, none)
  | .parquet =>
      match recordsFrame libs combined with
      | .error exc => (file, some exc)
      | .ok frame =>
          match libs.writeParquet frame with
          | .error exc => (file, some exc)
          | .ok content => (some content, none)

/-! ## What is written is read back -/

mutual

/-- What {lit}`json.dumps(value, default=str)` writes for a value: every foreign object
as its text. -/
def Value.stored : Value → Value
  | .foreign _ text _ => .str text
  | .list items => .list (storedItems items)
  | .dict fields => .dict (storedFields fields)
  | value => value

/-- The same for the items of a list. -/
def Value.storedItems : List Value → List Value
  | [] => []
  | value :: rest => value.stored :: storedItems rest

/-- The same for the fields of a dict. -/
def Value.storedFields : Fields → Fields
  | [] => []
  | (key, value) :: rest => (key, value.stored) :: storedFields rest

end

mutual

private theorem stored_stored : ∀ value : Value, value.stored.stored = value.stored
  | .none => rfl
  | .bool _ => rfl
  | .int _ => rfl
  | .float _ => rfl
  | .str _ => rfl
  | .foreign _ _ _ => rfl
  | .list items => congrArg Value.list (storedItems_storedItems items)
  | .dict fields => congrArg Value.dict (storedFields_storedFields fields)

private theorem storedItems_storedItems : ∀ items : List Value,
    Value.storedItems (Value.storedItems items) = Value.storedItems items
  | [] => rfl
  | value :: rest => by
      simp only [Value.storedItems, stored_stored value, storedItems_storedItems rest]

private theorem storedFields_storedFields : ∀ fields : Fields,
    Value.storedFields (Value.storedFields fields) = Value.storedFields fields
  | [] => rfl
  | (key, value) :: rest => by
      simp only [Value.storedFields, stored_stored value, storedFields_storedFields rest]

end

/-- The format does not tell two records apart: JSON text shows foreign objects as their
texts, and a table shows a missing field as null and a nested one as its JSON text. -/
def Alike (libs : FileLibraries) (fmt : FileFormat) (a b : Fields) : Prop :=
  match fmt with
  | .json => Value.storedFields a = Value.storedFields b
  | .jsonl => Value.storedFields a = Value.storedFields b
  | .csv => ∀ key, encodeNested (libs.dumps none) (fieldOrNone a key) =
      encodeNested (libs.dumps none) (fieldOrNone b key)
  | .parquet => ∀ key, encodeNested (libs.dumps none) (fieldOrNone a key) =
      encodeNested (libs.dumps none) (fieldOrNone b key)

theorem Alike.refl (libs : FileLibraries) (fmt : FileFormat) (a : Fields) : Alike libs fmt a a := by
  cases fmt with
  | json => rfl
  | jsonl => rfl
  | csv => exact fun _ => rfl
  | parquet => exact fun _ => rfl

/-- The file can be read, and it holds the records. -/
def FileHolds (rt : Runtime) (libs : FileLibraries) (path : String) (fmt : FileFormat)
    (file : Option Content) (given : Records) : Prop :=
  match file with
  | none => given = []
  | some content => ∃ rows, readRecords rt libs path fmt {} (some content) = .ok rows ∧
      List.Forall₂ (Alike libs fmt) rows given

/-- The records can be written, and the file holds them afterwards. -/
def ReadsBack (rt : Runtime) (libs : FileLibraries) (path : String) (fmt : FileFormat)
    (options : WriteOptions) (given : Records) : Prop :=
  ∀ rows file, List.Forall₂ (Alike libs fmt) rows given →
    (writeCombined libs fmt options rows file).1.isSome = true ∧
      FileHolds rt libs path fmt (writeCombined libs fmt options rows file).1 given

/-- The JSON module writes a value on one line, and reads it from there. -/
def FileLibraries.JsonLine (libs : FileLibraries) (value : Value) : Prop :=
  ∃ line, libs.dumps none value = .ok line ∧ libs.loads line = .ok value.stored ∧
    '\n' ∉ line.toList ∧ '\r' ∉ line.toList ∧ pyStrip line.toList = line.toList ∧
    line.toList ≠ []

/-- The JSON module writes a value with an indentation, and reads it back. -/
def FileLibraries.JsonText (libs : FileLibraries) (indent : Option Nat) (value : Value) : Prop :=
  ∃ text, libs.dumps indent value = .ok text ∧ libs.loads text = .ok value.stored ∧
    '\r' ∉ text.toList

section

variable {rt : Runtime} {libs : FileLibraries} {path : String} {options : WriteOptions}

private theorem universalNewlines_of_notMem {text : List Char} (h : '\r' ∉ text)
    (rest : List Char) :
    universalNewlines (text ++ rest) = text ++ universalNewlines rest := by
  induction text with
  | nil => rfl
  | cons c text ih =>
      rw [List.mem_cons, not_or] at h
      rw [List.cons_append, universalNewlines, ih h.2]
      · rfl
      · exact fun _ heq _ => h.1 heq.symm
      · exact fun heq => h.1 heq.symm

/-- A file of JSON lines, line by line. -/
theorem readJsonLines_writeJsonl (path : String) {rows : Records}
    (hrows : ∀ row ∈ rows, libs.JsonLine (.dict row)) (lineNo : Nat) (before : Records) :
    (writeJsonl libs rows).2 = none ∧
      readJsonLines libs path none lineNo before (fileLines (writeJsonl libs rows).1) =
        .ok (before ++ rows.map Value.storedFields) := by
  induction rows generalizing lineNo before with
  | nil => exact ⟨rfl, by simp [writeJsonl, fileLines, universalNewlines, readJsonLines, pyStrip]⟩
  | cons row rest ih =>
      rcases hrows row List.mem_cons_self with
        ⟨line, hdumps, hloads, hfeed, hreturn, hstrip, hne⟩
      have hrest := ih (fun row hrow => hrows row (List.mem_cons_of_mem _ hrow)) (lineNo + 1)
        (before ++ [Value.storedFields row])
      have hlines : fileLines (line ++ "\n" ++ (writeJsonl libs rest).1) =
          line.toList :: fileLines (writeJsonl libs rest).1 := by
        have htext : (line ++ "\n" ++ (writeJsonl libs rest).1).toList =
            line.toList ++ '\n' :: (writeJsonl libs rest).1.toList := by
          simp
        rw [fileLines, htext, universalNewlines_of_notMem hreturn,
          show universalNewlines ('\n' :: (writeJsonl libs rest).1.toList) =
            '\n' :: universalNewlines (writeJsonl libs rest).1.toList from
            by rw [universalNewlines] <;> simp,
          List.splitOn_append_cons_self, List.splitOn_eq_singleton hfeed]
        rfl
      simp only [writeJsonl, hdumps, hlines, readJsonLines, hstrip, if_neg hne, String.ofList_toList,
        hloads, Value.stored, coerceItem, Option.any_none, Bool.false_eq_true, if_false]
      refine ⟨hrest.1, ?_⟩
      rw [hrest.2]
      simp

private theorem forall₂_storedFields {rows given : Records}
    (h : List.Forall₂ (fun row given => Value.storedFields row = Value.storedFields given) rows
      given) :
    List.Forall₂ (fun row given => Value.storedFields row = Value.storedFields given)
      (rows.map Value.storedFields) given := by
  rw [List.forall₂_map_left_iff]
  exact h.imp fun row given halike => (storedFields_storedFields row).trans halike

/-- A file of JSON lines gives back what was written to it, if the JSON module does so
for every record. -/
theorem readsBack_jsonl {given : Records}
    (hjson : ∀ row, (∃ record ∈ given, Alike libs .jsonl row record) → libs.JsonLine (.dict row)) :
    ReadsBack rt libs path .jsonl options given := by
  intro rows file halike
  have hrows : ∀ row ∈ rows, libs.JsonLine (.dict row) := by
    intro row hrow
    rcases List.mem_iff_get.mp hrow with ⟨i, rfl⟩
    rcases List.forall₂_iff_get.mp halike with ⟨hlength, hget⟩
    have hi : i.1 < given.length := hlength ▸ i.2
    exact hjson _ ⟨_, List.get_mem given ⟨i.1, hi⟩, hget i.1 i.2 hi⟩
  have hread := (readJsonLines_writeJsonl path hrows 1 []).2
  refine ⟨rfl, rows.map Value.storedFields, ?_, forall₂_storedFields halike⟩
  simpa [readRecords, readJsonl] using hread

private theorem storedItems_map_dict (rows : Records) :
    Value.storedItems (rows.map Value.dict) = (rows.map Value.storedFields).map Value.dict := by
  induction rows with
  | nil => rfl
  | cons row rest ih => simp [Value.storedItems, Value.stored, ih]

/-- The JSON module reads a text without carriage returns from a file as it is. -/
theorem readJson_of_loads {text : String} {data : Value} (hreturn : '\r' ∉ text.toList)
    (hloads : libs.loads text = .ok data) :
    readJson rt libs path none none (.text text) = .ok ((listItems data).map coerceItem) := by
  have hnewlines : universalNewlines text.toList = text.toList := by
    simpa [universalNewlines] using universalNewlines_of_notMem hreturn []
  simp only [readJson, loadFile, hnewlines, String.ofList_toList, hloads, selectRecords]

/-- A JSON file gives back what was written to it, if the JSON module does so for the list
of the records. -/
theorem readsBack_json {given : Records}
    (hjson : ∀ rows, List.Forall₂ (Alike libs .json) rows given →
      libs.JsonText options.jsonIndent (.list (rows.map .dict))) :
    ReadsBack rt libs path .json options given := by
  intro rows file halike
  rcases hjson rows halike with ⟨text, hdumps, hloads, hreturn⟩
  have hfile : (writeCombined libs .json options rows file).1 = some (.text text) := by
    simp [writeCombined, hdumps]
  rw [hfile]
  refine ⟨rfl, rows.map Value.storedFields, ?_, forall₂_storedFields halike⟩
  have hitems : (Value.list (rows.map .dict)).stored =
      .list ((rows.map Value.storedFields).map .dict) :=
    congrArg Value.list (storedItems_map_dict rows)
  simp only [readRecords, readJson_of_loads hreturn hloads, hitems, listItems, List.map_map]
  rfl

/-! ## Tables -/

/-- An encoded value is not nested. -/
theorem encodeNested_idem {dumps : Value → Except PyException String} {value cell : Value}
    (h : encodeNested dumps value = .ok cell) : encodeNested dumps cell = .ok cell := by
  have htext : ∀ v : Value, (dumps v).map Value.str = .ok cell →
      encodeNested dumps cell = .ok cell := by
    intro v hv
    cases hdumps : dumps v with
    | error exc => simp [hdumps, Except.map] at hv
    | ok text =>
        simp only [hdumps, Except.map, Except.ok.injEq] at hv
        subst hv
        rfl
  cases value with
  | dict fields => exact htext _ h
  | list items => exact htext _ h
  | none => cases h; rfl
  | bool b => cases h; rfl
  | int z => cases h; rfl
  | float x => cases h; rfl
  | str s => cases h; rfl
  | foreign n t r => cases h; rfl

/-- A row has the columns of the table. -/
theorem frameRow_spec {record row : Fields} {columns : List String}
    (h : frameRow libs record columns = .ok row) :
    (∀ key ∈ columns,
      encodeNested (libs.dumps none) (fieldOrNone record key) = .ok (fieldOrNone row key)) ∧
      ∀ key, key ∉ columns → fieldOrNone row key = .none := by
  induction columns generalizing row with
  | nil =>
      cases h
      exact ⟨nofun, fun _ _ => rfl⟩
  | cons first rest ih =>
      unfold frameRow at h
      cases hcell : encodeNested (libs.dumps none) (fieldOrNone record first) with
      | error exc => simp [hcell] at h
      | ok cell =>
          cases hrest : frameRow libs record rest with
          | error exc => simp [hcell, hrest, Except.map] at h
          | ok others =>
              simp only [hcell, hrest, Except.map, Except.ok.injEq] at h
              subst h
              rcases ih hrest with ⟨hmem, hnot⟩
              have hself : fieldOrNone ((first, cell) :: others) first = cell := by
                simp [fieldOrNone]
              have hother : ∀ key, key ≠ first →
                  fieldOrNone ((first, cell) :: others) key = fieldOrNone others key := by
                intro key hne
                simp [fieldOrNone, List.lookup_cons, beq_false_of_ne hne]
              constructor
              · intro key hkey
                by_cases hfirst : key = first
                · rw [hfirst, hself, hcell]
                · rw [hother key hfirst]
                  exact hmem key (List.mem_of_ne_of_mem hfirst hkey)
              · intro key hkey
                rw [List.mem_cons, not_or] at hkey
                rw [hother key hkey.1]
                exact hnot key hkey.2

/-- A row shows its record. -/
theorem frameRow_alike {record row : Fields} {columns : List String}
    (hcolumns : ∀ key ∈ record.map Prod.fst, key ∈ columns)
    (h : frameRow libs record columns = .ok row) (key : String) :
    encodeNested (libs.dumps none) (fieldOrNone row key) =
      encodeNested (libs.dumps none) (fieldOrNone record key) := by
  rcases frameRow_spec h with ⟨hmem, hnot⟩
  by_cases hkey : key ∈ columns
  · rw [hmem key hkey]
    exact encodeNested_idem (hmem key hkey)
  · have habsent : record.lookup key = none := by
      rw [List.lookup_eq_none_iff]
      intro pair hpair
      rw [bne_iff_ne]
      intro hsame
      exact hkey (hcolumns key (List.mem_map.mpr ⟨pair, hpair, hsame.symm⟩))
    rw [hnot key hkey, fieldOrNone, habsent]
    rfl

/-- The rows of a table show the records. -/
theorem frameRows_alike {records rows : Records} {columns : List String}
    (hcolumns : ∀ record ∈ records, ∀ key ∈ record.map Prod.fst, key ∈ columns)
    (h : frameRows libs columns records = .ok rows) :
    List.Forall₂ (fun row record => ∀ key, encodeNested (libs.dumps none) (fieldOrNone row key) =
      encodeNested (libs.dumps none) (fieldOrNone record key)) rows records := by
  induction records generalizing rows with
  | nil =>
      cases h
      exact .nil
  | cons record rest ih =>
      unfold frameRows at h
      cases hrow : frameRow libs record columns with
      | error exc => simp [hrow] at h
      | ok row =>
          cases hrest : frameRows libs columns rest with
          | error exc => simp [hrow, hrest, Except.map] at h
          | ok others =>
              simp only [hrow, hrest, Except.map, Except.ok.injEq] at h
              subst h
              rw [List.forall_mem_cons] at hcolumns
              exact .cons (frameRow_alike hcolumns.1 hrow) (ih hcolumns.2 hrest)

/-- The dataframe library writes the table of the records to a parquet file, and reads it
from there. -/
def FileLibraries.ParquetTable (libs : FileLibraries) (records : Records) : Prop :=
  ∃ rows frame content back, frameRows libs (frameColumns records) records = .ok rows ∧
    libs.dataFrame rows = .ok frame ∧ libs.writeParquet frame = .ok content ∧
    libs.readParquet none content = .ok back ∧ back.toDicts = rows

/-- A parquet file gives back what was written to it, if the dataframe library does so for
the table of the records. -/
theorem readsBack_parquet {given : Records}
    (htable : ∀ rows, List.Forall₂ (Alike libs .parquet) rows given → libs.ParquetTable rows) :
    ReadsBack rt libs path .parquet options given := by
  intro rows file halike
  rcases htable rows halike with ⟨table, frame, content, back, hrows, hframe, hwrite, hread, hback⟩
  have hfile : (writeCombined libs .parquet options rows file).1 = some content := by
    simp [writeCombined, recordsFrame, hrows, hframe, hwrite]
  rw [hfile]
  refine ⟨rfl, table, ?_, ?_⟩
  · simp [readRecords, hread, frameRecords, hback]
  · have hcolumns : ∀ row ∈ rows, ∀ key ∈ row.map Prod.fst, key ∈ frameColumns rows := by
      intro row hrow key hkey
      rw [frameColumns, List.mem_eraseDups]
      exact List.mem_flatMap.mpr ⟨row, hrow, hkey⟩
    have htrans := frameRows_alike hcolumns hrows
    rw [List.forall₂_iff_get] at htrans halike ⊢
    refine ⟨htrans.1.trans halike.1, fun i hi hi' key => ?_⟩
    have hmid : i < rows.length := htrans.1 ▸ hi
    exact (htrans.2 i hi hmid key).trans (halike.2 i hmid hi' key)

end

end EtlTool
