import EtlTool.Core.FileIo
import EtlTool.Core.PythonEquality

/-!
# Stores of records

A JSON file, or a file of JSON lines, that is written again and again, against a list that
is replaced or extended.  Every write reads the records that are there and writes all of
them again, so that a file and the list are compared after a whole history of writes.

Main results:

- Theorem {lit}`JsonModule.of_jsonText`: what is assumed of the JSON module follows from the
  text that it writes and from a round trip.
- Theorem {lit}`holds_write`: one write keeps the file and the list together.
- Theorem {lit}`holds_fileAfter`: so does every history of writes.
- Theorem {lit}`writeRecords_refines`: after every write of a history the file is read as the
  list, and a write fails only if it must not overwrite the file that is there.

Current gaps:

- The records are JSON values whose integers the interpreter prints.
- The line breaks that an indentation puts into a text.
-/

namespace EtlTool

/-! ## Writing -/

/-- {lit}`write_records`: the file afterwards, and the number of records or the failure. -/
def writeRecords (rt : Runtime) (libs : FileLibraries) (path : String) (fmt : FileFormat)
    (mode : WriteMode) (options : WriteOptions) (records : Records) (file : Option Content) :
    Option Content × Except FileFailure Nat :=
  match combinedRecords rt libs path fmt mode records file with
  | .error failure => (file, .error failure)
  | .ok combined =>
      let written := writeCombined libs fmt options combined file
      match written.2 with
      | some exc => (written.1, .error (.other exc))
      | none => (written.1, .ok records.length)

/-- The arguments of a call of {lit}`write_records`. -/
structure WriteCall where
  mode : WriteMode
  options : WriteOptions
  records : Records

/-- One call. -/
def WriteCall.run (rt : Runtime) (libs : FileLibraries) (path : String) (fmt : FileFormat)
    (file : Option Content) (call : WriteCall) : Option Content × Except FileFailure Nat :=
  writeRecords rt libs path fmt call.mode call.options call.records file

/-- The file after a history of calls on a path that did not exist. -/
def fileAfter (rt : Runtime) (libs : FileLibraries) (path : String) (fmt : FileFormat)
    (calls : List WriteCall) : Option Content :=
  calls.foldl (fun file call => (call.run rt libs path fmt file).1) none

/-! ## The list -/

/-- A call on a list that is absent before the first write. -/
def WriteCall.onList (list : Option Records) (call : WriteCall) : Option Records :=
  match list with
  | none => some call.records
  | some old =>
      match call.mode with
      | .overwrite => some call.records
      | .append => some (old ++ call.records)
      | .error => some old

/-- The list after a history of calls. -/
def listAfter (calls : List WriteCall) : Option Records :=
  calls.foldl WriteCall.onList none

/-! ## The JSON module -/

/-- A record that is a JSON value, and that the interpreter prints. -/
def Runtime.JsonRecord (rt : Runtime) (record : Fields) : Prop :=
  (Value.dict record).StrictJson ∧ rt.Printable (.dict record)

/-- What is assumed of the JSON module: it reads a JSON value from the text that it wrote,
without an indentation the text is one line, a carriage return is escaped, and the text of
an object stands between braces. -/
structure FileLibraries.JsonModule (rt : Runtime) (libs : FileLibraries) : Prop where
  loads_dumps : ∀ (indent : Option Nat) (value : Value), value.StrictJson → rt.Printable value →
    ∃ text, libs.dumps indent value = .ok text ∧ libs.loads text = .ok value
  no_return : ∀ (indent : Option Nat) (value : Value) (text : String),
    libs.dumps indent value = .ok text → '\r' ∉ text.toList
  one_line : ∀ (value : Value) (text : String),
    libs.dumps none value = .ok text → '\n' ∉ text.toList
  braces : ∀ (fields : Fields) (text : String), libs.dumps none (.dict fields) = .ok text →
    ∃ members, text.toList = '\x7b' :: (members ++ ['\x7d'])

private theorem toList_of_jsonDumps {rt : Runtime} {value : Value} {text : String}
    (h : rt.jsonDumps false (fun text _ => text) value = .ok text) :
    text.toList = rt.jsonText (fun text _ => text) value := by
  rw [Runtime.jsonDumps] at h
  split at h
  · cases h
    exact String.toList_ofList
  · cases h

/-- A character that is not printable ASCII is in no text that is written. -/
theorem jsonDumps_ascii {rt : Runtime} (hfloat : rt.FloatTexts) {value : Value} {text : String}
    (h : rt.jsonDumps false (fun text _ => text) value = .ok text) {c : Char}
    (hc : isPrintableAscii c = false) : c ∉ text.toList := by
  intro hmem
  rw [toList_of_jsonDumps h] at hmem
  rw [jsonText_ascii _ hfloat value c hmem] at hc
  cases hc

/-- The text of the members ends with the brace. -/
theorem jsonFields_closed (rt : Runtime) (first : Bool) (fields : Fields) :
    ∃ members, rt.jsonFields (fun text _ => text) first fields = members ++ ['\x7d'] := by
  induction fields generalizing first with
  | nil => exact ⟨[], rfl⟩
  | cons field rest ih =>
      rcases ih false with ⟨members, hmembers⟩
      refine ⟨(if first then [] else [',', ' ']) ++ (jsonString field.1 ++ (':' :: ' ' ::
        (rt.jsonText (fun text _ => text) field.2 ++ members))), ?_⟩
      rw [Runtime.jsonFields, hmembers]
      simp only [List.append_assoc, List.cons_append]

/-- A module that writes the text of a value, and reads a JSON value from what it wrote, is as
assumed; only of texts with an indentation it must be known that they have no carriage
return. -/
theorem FileLibraries.JsonModule.of_jsonText {rt : Runtime} {libs : FileLibraries}
    (hfloat : rt.FloatTexts)
    (hdumps : ∀ value, libs.dumps none value = rt.jsonDumps false (fun text _ => text) value)
    (hindent : ∀ (n : Nat) (value : Value) (text : String),
      libs.dumps (some n) value = .ok text → '\r' ∉ text.toList)
    (hloads : ∀ (indent : Option Nat) (value : Value), value.StrictJson → rt.Printable value →
      ∃ text, libs.dumps indent value = .ok text ∧ libs.loads text = .ok value) :
    libs.JsonModule rt where
  loads_dumps := hloads
  no_return := by
    intro indent value text h
    cases indent with
    | none => exact jsonDumps_ascii hfloat ((hdumps value).symm.trans h) rfl
    | some n => exact hindent n value text h
  one_line := by
    intro value text h
    exact jsonDumps_ascii hfloat ((hdumps value).symm.trans h) rfl
  braces := by
    intro fields text h
    rcases jsonFields_closed rt true fields with ⟨members, hmembers⟩
    refine ⟨members, ?_⟩
    rw [toList_of_jsonDumps ((hdumps _).symm.trans h), Runtime.jsonText, hmembers]

mutual

/-- A JSON value is written as it is. -/
theorem stored_of_strictJson : ∀ value : Value, value.StrictJson → value.stored = value
  | .none, _ => rfl
  | .bool _, _ => rfl
  | .int _, _ => rfl
  | .float _, _ => rfl
  | .str _, _ => rfl
  | .foreign _ _ _, h => h.elim
  | .list items, h => congrArg Value.list (storedItems_of_strictJson items h)
  | .dict fields, h => congrArg Value.dict (storedFields_of_strictJson fields h.2)

private theorem storedItems_of_strictJson : ∀ items : List Value, Value.StrictJsonItems items →
    Value.storedItems items = items
  | [], _ => rfl
  | value :: rest, h => by
      rw [Value.storedItems, stored_of_strictJson value h.1, storedItems_of_strictJson rest h.2]

private theorem storedFields_of_strictJson : ∀ fields : Fields, Value.StrictJsonFields fields →
    Value.storedFields fields = fields
  | [], _ => rfl
  | (key, value) :: rest, h => by
      rw [Value.storedFields, stored_of_strictJson value h.1, storedFields_of_strictJson rest h.2]

end

section

variable {rt : Runtime} {libs : FileLibraries} {path : String} {fmt : FileFormat}

/-- Records that are JSON values are one JSON value together. -/
theorem list_of_jsonRecords {records : Records} (h : ∀ record ∈ records, rt.JsonRecord record) :
    (Value.list (records.map .dict)).StrictJson ∧ rt.Printable (.list (records.map .dict)) := by
  induction records with
  | nil => exact ⟨trivial, trivial⟩
  | cons record rest ih =>
      rw [List.forall_mem_cons] at h
      have hrest := ih h.2
      exact ⟨⟨h.1.1, hrest.1⟩, ⟨h.1.2, hrest.2⟩⟩

/-- Nothing is stripped from a text between braces. -/
theorem pyStrip_braces (members : List Char) :
    pyStrip ('\x7b' :: (members ++ ['\x7d'])) = '\x7b' :: (members ++ ['\x7d']) := by
  have hopen : isSpaceChar '\x7b' = false := rfl
  have hclose : isSpaceChar '\x7d' = false := rfl
  rw [pyStrip, List.dropWhile_cons_of_neg (by rw [hopen]; exact Bool.false_ne_true),
    List.reverse_cons, List.reverse_append, List.reverse_singleton, List.singleton_append,
    List.cons_append, List.dropWhile_cons_of_neg (by rw [hclose]; exact Bool.false_ne_true)]
  simp

/-- The line of a record. -/
theorem jsonLine_of_jsonRecord (hjson : libs.JsonModule rt) {record : Fields}
    (h : rt.JsonRecord record) : libs.JsonLine (.dict record) := by
  rcases hjson.loads_dumps none _ h.1 h.2 with ⟨line, hdumps, hloads⟩
  rcases hjson.braces record line hdumps with ⟨members, hline⟩
  refine ⟨line, hdumps, ?_, hjson.one_line _ _ hdumps, hjson.no_return _ _ _ hdumps, ?_, ?_⟩
  · rw [hloads, stored_of_strictJson _ h.1]
  · rw [hline]
    exact pyStrip_braces members
  · rw [hline]
    exact List.cons_ne_nil _ _

/-- What is written is read. -/
theorem readRecords_writeCombined (hjson : libs.JsonModule rt) (hfmt : fmt = .json ∨ fmt = .jsonl)
    (options : WriteOptions) {records : Records} (h : ∀ record ∈ records, rt.JsonRecord record)
    (file : Option Content) :
    (writeCombined libs fmt options records file).2 = none ∧
      readRecords rt libs path fmt {} (writeCombined libs fmt options records file).1 =
        .ok records := by
  rcases hfmt with rfl | rfl
  · have hlist := list_of_jsonRecords h
    rcases hjson.loads_dumps options.jsonIndent _ hlist.1 hlist.2 with ⟨text, hdumps, hloads⟩
    have hread : readJson rt libs path none none (.text text) =
        .ok ((listItems (.list (records.map .dict))).map coerceItem) :=
      readJson_of_loads (hjson.no_return _ _ _ hdumps) hloads
    simp only [writeCombined, hdumps, readRecords, hread, listItems, List.map_map, true_and]
    exact congrArg Except.ok (List.map_id _)
  · have hlines := readJsonLines_writeJsonl path
      (fun record hrecord => jsonLine_of_jsonRecord hjson (h record hrecord)) 1 []
    have hstored : records.map Value.storedFields = records := by
      rw [List.map_congr_left fun record hrecord =>
        storedFields_of_strictJson record (h record hrecord).1.2]
      exact List.map_id' records
    rw [hstored] at hlines
    exact ⟨hlines.1, hlines.2⟩

/-! ## Histories -/

/-- The file holds the list: neither is there, or the list is read from the file. -/
def Holds (rt : Runtime) (libs : FileLibraries) (path : String) (fmt : FileFormat)
    (file : Option Content) (list : Option Records) : Prop :=
  match list with
  | none => file = none
  | some records => readRecords rt libs path fmt {} file = .ok records ∧
      ∀ record ∈ records, rt.JsonRecord record

/-- The file is there if the list is. -/
theorem Holds.isSome_eq {file : Option Content} {list : Option Records}
    (h : Holds rt libs path fmt file list) : file.isSome = list.isSome := by
  cases list with
  | none => exact congrArg Option.isSome h
  | some records =>
      cases file with
      | none => cases h.1
      | some content => rfl

/-- A write goes through unless it must not overwrite what is there. -/
theorem combinedRecords_of_holds {file : Option Content} {list : Option Records}
    (h : Holds rt libs path fmt file list) (call : WriteCall)
    (hgoes : ¬ (call.mode = .error ∧ file.isSome)) :
    ∃ combined, combinedRecords rt libs path fmt call.mode call.records file = .ok combined ∧
      call.onList list = some combined := by
  cases hmode : call.mode with
  | overwrite =>
      refine ⟨call.records, rfl, ?_⟩
      cases list with
      | none => rfl
      | some old => simp [WriteCall.onList, hmode]
  | append =>
      cases list with
      | none =>
          have hfile : file = none := h
          refine ⟨call.records, ?_, rfl⟩
          rw [hfile]
          rfl
      | some old =>
          have hsome : file.isSome = true := h.isSome_eq
          refine ⟨old ++ call.records, ?_, ?_⟩
          · rw [combinedRecords, if_pos hsome, h.1]
            rfl
          · simp [WriteCall.onList, hmode]
  | error =>
      cases list with
      | none =>
          have hfile : file = none := h
          refine ⟨call.records, ?_, rfl⟩
          rw [hfile]
          rfl
      | some old => exact (hgoes ⟨hmode, h.isSome_eq⟩).elim

/-- The write that must not overwrite leaves everything as it is. -/
theorem run_of_refused {file : Option Content} {call : WriteCall} (hmode : call.mode = .error)
    (hsome : file.isSome) :
    call.run rt libs path fmt file =
      (file, .error (.access ("refusing to overwrite existing file: " ++ path))) := by
  rw [WriteCall.run, writeRecords, hmode, combinedRecords, if_pos hsome]

/-- Every other write succeeds, and the file is read as the list afterwards. -/
theorem run_of_accepted (hjson : libs.JsonModule rt) (hfmt : fmt = .json ∨ fmt = .jsonl)
    {file : Option Content} {list : Option Records} (h : Holds rt libs path fmt file list)
    {call : WriteCall} (hcall : ∀ record ∈ call.records, rt.JsonRecord record)
    (hgoes : ¬ (call.mode = .error ∧ file.isSome)) :
    (call.run rt libs path fmt file).2 = .ok call.records.length ∧
      Holds rt libs path fmt (call.run rt libs path fmt file).1 (call.onList list) := by
  rcases combinedRecords_of_holds h call hgoes with ⟨combined, hcombined, hlist⟩
  have hrecords : ∀ record ∈ combined, rt.JsonRecord record := by
    intro record hrecord
    cases list with
    | none =>
        cases hlist
        exact hcall record hrecord
    | some old =>
        rw [WriteCall.onList] at hlist
        cases hmode : call.mode with
        | overwrite =>
            rw [hmode] at hlist
            cases hlist
            exact hcall record hrecord
        | append =>
            rw [hmode] at hlist
            cases hlist
            rcases List.mem_append.mp hrecord with hold | hnew
            · exact h.2 record hold
            · exact hcall record hnew
        | error => exact (hgoes ⟨hmode, h.isSome_eq⟩).elim
  have hwritten : (writeCombined libs fmt call.options combined file).2 = none ∧
      readRecords rt libs path fmt {} (writeCombined libs fmt call.options combined file).1 =
        .ok combined :=
    readRecords_writeCombined hjson hfmt call.options hrecords file
  have hrun : call.run rt libs path fmt file =
      ((writeCombined libs fmt call.options combined file).1, .ok call.records.length) := by
    rw [WriteCall.run, writeRecords, hcombined]
    dsimp only
    rw [hwritten.1]
  rw [hrun, hlist]
  exact ⟨rfl, hwritten.2, hrecords⟩

/-- One write keeps the file and the list together. -/
theorem holds_write (hjson : libs.JsonModule rt) (hfmt : fmt = .json ∨ fmt = .jsonl)
    {file : Option Content} {list : Option Records} (h : Holds rt libs path fmt file list)
    {call : WriteCall} (hcall : ∀ record ∈ call.records, rt.JsonRecord record) :
    Holds rt libs path fmt (call.run rt libs path fmt file).1 (call.onList list) := by
  by_cases hrefused : call.mode = .error ∧ file.isSome
  · rw [run_of_refused hrefused.1 hrefused.2]
    cases list with
    | none =>
        rw [h.isSome_eq] at hrefused
        cases hrefused.2
    | some old =>
        rw [WriteCall.onList, hrefused.1]
        exact h
  · exact (run_of_accepted hjson hfmt h hcall hrefused).2

/-- A whole history keeps the file and the list together. -/
theorem holds_fileAfter (hjson : libs.JsonModule rt) (hfmt : fmt = .json ∨ fmt = .jsonl)
    {calls : List WriteCall}
    (hcalls : ∀ call ∈ calls, ∀ record ∈ call.records, rt.JsonRecord record) :
    Holds rt libs path fmt (fileAfter rt libs path fmt calls) (listAfter calls) :=
  List.foldl_rel (r := Holds rt libs path fmt) rfl fun call hmem _ _ h =>
    holds_write hjson hfmt h (hcalls call hmem)

end

/-- After every call of a history the file is read as the list.  A call fails only if it must
not overwrite the file that is there, and then leaves it as it is. -/
theorem writeRecords_refines (rt : Runtime) (libs : FileLibraries) (hjson : libs.JsonModule rt)
    (path : String) (fmt : FileFormat) (hfmt : fmt = .json ∨ fmt = .jsonl)
    (calls : List WriteCall)
    (hcalls : ∀ call ∈ calls, ∀ record ∈ call.records, rt.JsonRecord record)
    (call : WriteCall) (hcall : ∀ record ∈ call.records, rt.JsonRecord record) :
    let file := fileAfter rt libs path fmt calls
    (∃ list, listAfter (calls ++ [call]) = some list ∧
      readRecords rt libs path fmt {} (call.run rt libs path fmt file).1 = .ok list) ∧
    (call.run rt libs path fmt file).2 =
      (if call.mode = .error ∧ file.isSome then
        .error (.access ("refusing to overwrite existing file: " ++ path))
      else .ok call.records.length) ∧
    (call.mode = .error ∧ file.isSome → (call.run rt libs path fmt file).1 = file) := by
  intro file
  have hbefore : Holds rt libs path fmt file (listAfter calls) :=
    holds_fileAfter hjson hfmt hcalls
  have hafter := holds_write hjson hfmt hbefore hcall
  have hlist : listAfter (calls ++ [call]) = call.onList (listAfter calls) := by
    rw [listAfter, List.foldl_append]
    rfl
  refine ⟨?_, ?_, ?_⟩
  · rw [hlist]
    cases honto : call.onList (listAfter calls) with
    | none =>
        cases hstart : listAfter calls with
        | none =>
            rw [hstart] at honto
            cases honto
        | some old =>
            rw [hstart, WriteCall.onList] at honto
            cases hmode : call.mode with
            | overwrite => simp [hmode] at honto
            | append => simp [hmode] at honto
            | error => simp [hmode] at honto
    | some list =>
        rw [honto] at hafter
        exact ⟨list, rfl, hafter.1⟩
  · split
    · rename_i hrefused
      rw [run_of_refused hrefused.1 hrefused.2]
    · rename_i hgoes
      exact (run_of_accepted hjson hfmt hbefore hcall hgoes).1
  · intro hrefused
    rw [run_of_refused hrefused.1 hrefused.2]

namespace Samples

open Classical in
/-- The JSON module on texts without an indentation. -/
noncomputable def plainJson : FileLibraries where
  dumps := fun _ value => decimalRuntime.jsonDumps false (fun text _ => text) value
  loads := fun text =>
    if h : ∃ value, value.StrictJson ∧
        decimalRuntime.jsonDumps false (fun text _ => text) value = .ok text then .ok h.choose
    else .error ⟨"JSONDecodeError", some "Expecting value"⟩
  readCsv := fun _ _ _ _ _ => .error intConversionError
  readParquet := fun _ _ => .error intConversionError
  dataFrame := fun _ => .error intConversionError
  writeCsv := fun _ _ _ => .error intConversionError
  writeParquet := fun _ => .error intConversionError

private theorem plainJson_module : plainJson.JsonModule decimalRuntime := by
  refine .of_jsonText decimalRuntime_floatTexts (fun _ => rfl) ?_ ?_
  · intro n value text h
    exact jsonDumps_ascii decimalRuntime_floatTexts h rfl
  · intro indent value hvalue hprintable
    refine ⟨_, if_pos hprintable, ?_⟩
    have hex : ∃ other : Value, other.StrictJson ∧
        decimalRuntime.jsonDumps false (fun text _ => text) other =
          .ok (String.ofList (decimalRuntime.jsonText (fun text _ => text) value)) :=
      ⟨value, hvalue, if_pos hprintable⟩
    have hsame : hex.choose = value := by
      refine jsonText_inj (fun text _ => text) decimalRuntime_floatTexts hex.choose_spec.1 hvalue ?_
      rw [← toList_of_jsonDumps hex.choose_spec.2, String.toList_ofList]
    exact (dif_pos hex).trans (congrArg Except.ok hsame)

/-- An overwriting write and an appending one. -/
def twoWrites : List WriteCall :=
  [⟨.overwrite, {}, [[("a", .int 1)]]⟩, ⟨.append, {}, [[("a", .int 2)], []]⟩]

end Samples

open Samples

theorem writeRecords_refines_twoWrites :
    readRecords decimalRuntime plainJson "out.jsonl" .jsonl {}
      (WriteCall.run decimalRuntime plainJson "out.jsonl" .jsonl
        (fileAfter decimalRuntime plainJson "out.jsonl" .jsonl twoWrites)
        ⟨.error, {}, [[("a", .int 3)]]⟩).1 =
      .ok [[("a", .int 1)], [("a", .int 2)], []] := by
  have hrefines := writeRecords_refines decimalRuntime plainJson plainJson_module "out.jsonl"
    .jsonl (Or.inr rfl) twoWrites ?_ ⟨.error, {}, [[("a", .int 3)]]⟩ ?_
  · rcases hrefines.1 with ⟨list, hlist, hread⟩
    cases hlist
    exact hread
  · simp [twoWrites, Runtime.JsonRecord, Value.StrictJson, Value.StrictJsonFields,
      Runtime.Printable, Runtime.PrintableFields]
    decide
  · simp [Runtime.JsonRecord, Value.StrictJson, Value.StrictJsonFields,
      Runtime.Printable, Runtime.PrintableFields]
    decide

end EtlTool
