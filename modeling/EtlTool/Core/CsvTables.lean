import EtlTool.Core.RecordStores
import EtlTool.Foundations.FirstOccurrences

/-!
# Tables in CSV files

Records with scalar cells, as the lines of a CSV file.  The dataframe library is a parameter.
What is assumed of it: a separator joins fields to lines and splits lines into fields, the
first line names the columns, cells are written as texts, and types are inferred column by
column.

Main results:

- Theorem {lit}`writeRecords_table`: a table of scalars is written as the lines of its texts.
- Theorem {lit}`readRecords_table`: a file that splits at commas into these lines gives the
  columns that are inferred from the texts.

Current gaps:

- Frames that the library cannot build.
-/

namespace EtlTool

/-! ## The dataframe library -/

/-- What the dataframe library does with CSV files. -/
structure CsvModel where
  /-- The separators that it takes. -/
  accepts : String → Bool
  /-- The column that a frame makes of Python values. -/
  typed : List Value → List Cell
  /-- The text as which a cell is written, if anything is written for it. -/
  cellText : Cell → Option String
  /-- The column that is made of the texts that are read, when types are inferred. -/
  infer : List (Option String) → List Cell
  /-- The text of some lines of fields. -/
  join : String → List (List (Option String)) → String
  /-- The lines of fields of a text. -/
  split : String → String → List (List (Option String))

/-- A value that is written into a cell as it is. -/
def Value.isScalar : Value → Bool
  | .list _ => false
  | .dict _ => false
  | _ => true

/-- The values of a column. -/
def columnValues (records : Records) (key : String) : List Value :=
  records.map fun record => fieldOrNone record key

namespace CsvModel

variable (csv : CsvModel)

/-- The texts of the rows of a frame. -/
def rowTexts (frame : DataFrame) : List (List (Option String)) :=
  (List.range frame.height).map fun i =>
    frame.columns.map fun column => csv.cellText (column.2[i]?.getD .null)

/-- The lines of a frame. -/
def lines (header : Bool) (frame : DataFrame) : List (List (Option String)) :=
  if header then (frame.columns.map Prod.fst).map some :: csv.rowTexts frame
  else csv.rowTexts frame

/-- The columns that are read from lines. -/
def readColumns (names : List String) (rows : List (List (Option String))) :
    List (String × List Cell) :=
  (List.range names.length).map fun j =>
    (names[j]?.getD "", csv.infer (rows.map fun row => row[j]?.getD none))

/-- The texts of a column of values. -/
def columnTexts (values : List Value) : List (Option String) :=
  (csv.typed values).map csv.cellText

/-- The values of a column after it was written and read. -/
def reread (values : List Value) : List Value :=
  (csv.infer (csv.columnTexts values)).map Cell.toPython

/-- The texts of the rows of a table. -/
def textTable (columns : List String) (records : Records) : List (List (Option String)) :=
  (List.range records.length).map fun i =>
    columns.map fun key => csv.cellText ((csv.typed (columnValues records key))[i]?.getD .null)

/-- The lines of a table. -/
def tableLines (header : Bool) (records : Records) : List (List (Option String)) :=
  if header then (frameColumns records).map some :: csv.textTable (frameColumns records) records
  else csv.textTable (frameColumns records) records

end CsvModel

/-- What is assumed of the dataframe library. -/
structure FileLibraries.CsvModule (libs : FileLibraries) (csv : CsvModel) : Prop where
  comma : csv.accepts "," = true
  typed_length : ∀ values, (csv.typed values).length = values.length
  infer_scalar : ∀ texts, ∀ cell ∈ csv.infer texts, cell.toPython.isScalar = true
  /-- A frame has the columns of its rows. -/
  dataFrame : ∀ (columns : List String) (rows : Records), rows ≠ [] → columns ≠ [] →
    columns.Nodup →
    (∀ row ∈ rows, row.map Prod.fst = columns ∧ ∀ field ∈ row, field.2.isScalar = true) →
      ∃ frame, libs.dataFrame rows = .ok frame ∧ frame.height = rows.length ∧
        frame.columns = columns.map fun key => (key, csv.typed (columnValues rows key))
  dataFrame_empty : ∀ rows : Records, (∀ row ∈ rows, row = []) →
    ∃ frame, libs.dataFrame rows = .ok frame ∧ frame.columns = []
  /-- The lines of a frame are joined by the separator. -/
  writeCsv : ∀ sep header frame, csv.accepts sep = true → frame.columns ≠ [] →
    libs.writeCsv sep header frame = .ok (.text (csv.join sep (csv.lines header frame)))
  writeCsv_refuses : ∀ sep header frame, csv.accepts sep = false →
    ∃ exc, libs.writeCsv sep header frame = .error exc
  /-- A file without columns has no data to be read. -/
  writeCsv_empty : ∀ sep header frame, csv.accepts sep = true → frame.columns = [] →
    ∃ content, libs.writeCsv sep header frame = .ok content ∧
      ∀ sep' frame', libs.readCsv true sep' true none content ≠ .ok frame'
  /-- The first line names the columns, and the others are the rows. -/
  readCsv : ∀ sep text names rows, csv.accepts sep = true →
    csv.split sep text = names.map some :: rows → names ≠ [] → names.Nodup →
    (∀ row ∈ rows, row.length = names.length) →
      ∃ frame, libs.readCsv true sep true none (.text text) = .ok frame ∧
        frame.height = rows.length ∧ frame.columns = csv.readColumns names rows
  /-- A frame that is read has columns, and a row for each line behind the first. -/
  readCsv_shape : ∀ sep text frame, libs.readCsv true sep true none (.text text) = .ok frame →
    frame.columns ≠ [] ∧ (csv.split sep text).length = frame.height + 1
  /-- The separator that has joined fields splits them. -/
  split_join : ∀ sep rows, csv.accepts sep = true → (∀ row ∈ rows, row ≠ []) →
    csv.split sep (csv.join sep rows) = rows
  /-- The separator does not say where a line ends. -/
  split_length : ∀ sep sep' rows, csv.accepts sep = true → csv.accepts sep' = true →
    (∀ row ∈ rows, row ≠ []) → (csv.split sep' (csv.join sep rows)).length = rows.length
  /-- What another separator has joined is split as it was joined, or is refused, or its first
  field is another one. -/
  split_other : ∀ sep sep' first names rows frame, csv.accepts sep = true →
    csv.accepts sep' = true → (∀ row ∈ rows, row.length = names.length + 1) →
      libs.readCsv true sep' true none (.text (csv.join sep ((some first :: names) :: rows))) =
        .ok frame →
      csv.split sep' (csv.join sep ((some first :: names) :: rows)) =
          (some first :: names) :: rows ∨
        (frame.columns.map Prod.fst).head? ≠ some first

/-! ## Tables of scalars -/

/-- Records with scalar cells over the same columns. -/
structure ScalarTable (columns : List String) (records : Records) : Prop where
  columns : ∀ record ∈ records, (record.map Prod.fst).Perm columns
  scalar : ∀ record ∈ records, ∀ field ∈ record, field.2.isScalar = true

section

variable {columns : List String} {records : Records}

private theorem frameColumns_cons (record : Fields) (rest : Records) :
    frameColumns (record :: rest) = (record.map Prod.fst ++
      rest.flatMap fun record => record.map Prod.fst).eraseDups := rfl

theorem ne_nil_of_frameColumns (h : frameColumns records ≠ []) : records ≠ [] := by
  rintro rfl
  exact h rfl

theorem mem_frameColumns {key : String} :
    key ∈ frameColumns records ↔ ∃ record ∈ records, key ∈ record.map Prod.fst := by
  rw [frameColumns, List.mem_eraseDups, List.mem_flatMap]

private theorem frameColumns_head? (field : String × Value) (record : Fields) (rest : Records) :
    (frameColumns ((field :: record) :: rest)).head? = some field.1 := by
  rw [frameColumns_cons, List.map_cons, List.cons_append, List.eraseDups_cons]
  rfl

/-- The columns of a table are the keys of its first record. -/
theorem frameColumns_eq_head {record : Fields} {rest : Records} (hnodup : columns.Nodup)
    (h : ScalarTable columns (record :: rest)) :
    frameColumns (record :: rest) = record.map Prod.fst := by
  rcases List.forall_mem_cons.mp h.columns with ⟨hrecord, hrest⟩
  have hkeys : (record.map Prod.fst).Nodup := hrecord.nodup_iff.mpr hnodup
  rw [frameColumns_cons, List.eraseDups_append, FirstOccurrences.eraseDups_of_nodup hkeys]
  have hnothing : (rest.flatMap fun record => record.map Prod.fst).removeAll
      (record.map Prod.fst) = [] := by
    rw [List.removeAll, List.filter_eq_nil_iff]
    intro key hkey
    rcases List.mem_flatMap.mp hkey with ⟨other, hother, hmem⟩
    have hlisted := hrecord.mem_iff.mpr ((hrest other hother).mem_iff.mp hmem)
    simp [hlisted]
  rw [hnothing, List.eraseDups_nil, List.append_nil]

theorem frameColumns_nodup (records : Records) : (frameColumns records).Nodup :=
  FirstOccurrences.nodup_eraseDups _

/-- The columns of a table, whichever of its records comes first. -/
theorem ScalarTable.frameColumns_perm (hnodup : columns.Nodup) (h : ScalarTable columns records)
    (hne : records ≠ []) : (frameColumns records).Perm columns := by
  cases records with
  | nil => exact absurd rfl hne
  | cons record rest =>
      rw [frameColumns_eq_head hnodup h]
      exact h.columns record List.mem_cons_self

theorem ScalarTable.left {more : Records} (h : ScalarTable columns (records ++ more)) :
    ScalarTable columns records :=
  ⟨fun record hrecord => h.columns record (List.mem_append_left more hrecord),
    fun record hrecord => h.scalar record (List.mem_append_left more hrecord)⟩

/-- More rows of a table do not change its columns. -/
theorem ScalarTable.frameColumns_append (hnodup : columns.Nodup) {more : Records}
    (h : ScalarTable columns (records ++ more)) (hne : records ≠ []) :
    frameColumns (records ++ more) = frameColumns records := by
  cases records with
  | nil => exact absurd rfl hne
  | cons record rest =>
      rw [frameColumns_eq_head hnodup h.left]
      exact frameColumns_eq_head hnodup h

/-- New rows of a table, behind rows over the columns of its old ones. -/
theorem ScalarTable.replaceRows (hnodup : columns.Nodup) {more rows : Records}
    (h : ScalarTable columns (records ++ more)) (hne : records ≠ [])
    (hrows : ∀ row ∈ rows, row.map Prod.fst = frameColumns records ∧
      ∀ field ∈ row, field.2.isScalar = true) :
    ScalarTable (frameColumns records) (rows ++ more) := by
  constructor
  · intro record hrecord
    rcases List.mem_append.mp hrecord with hrow | hmore
    · rw [(hrows record hrow).1]
    · exact (h.columns record (List.mem_append_right records hmore)).trans
        (h.left.frameColumns_perm hnodup hne).symm
  · intro record hrecord
    rcases List.mem_append.mp hrecord with hrow | hmore
    · exact (hrows record hrow).2
    · exact h.scalar record (List.mem_append_right records hmore)

end

/-! ## Frames of records -/

section

variable {libs : FileLibraries} {csv : CsvModel} {columns : List String} {records : Records}

private theorem encodeNested_scalar {dumps : Value → Except PyException String} {value : Value}
    (h : value.isScalar = true) : encodeNested dumps value = .ok value := by
  cases value with
  | list items => cases h
  | dict fields => cases h
  | _ => rfl

private theorem isScalar_of_encodeNested {dumps : Value → Except PyException String}
    {value cell : Value}
    (h : encodeNested dumps value = .ok cell) : cell.isScalar = true := by
  have htext : ∀ v : Value, (dumps v).map Value.str = .ok cell → cell.isScalar = true := by
    intro v hv
    cases hdumps : dumps v with
    | error exc => simp [hdumps, Except.map] at hv
    | ok text =>
        simp only [hdumps, Except.map, Except.ok.injEq] at hv
        rw [← hv]
        rfl
  cases value with
  | list items => exact htext _ h
  | dict fields => exact htext _ h
  | _ =>
      cases h
      rfl

/-- A row has the columns of the table, and scalars in them. -/
theorem frameRow_keys {record row : Fields} (h : frameRow libs record columns = .ok row) :
    row.map Prod.fst = columns ∧ ∀ field ∈ row, field.2.isScalar = true := by
  induction columns generalizing row with
  | nil =>
      cases h
      exact ⟨rfl, List.forall_mem_nil _⟩
  | cons key rest ih =>
      rw [frameRow] at h
      cases hcell : encodeNested (libs.dumps none) (fieldOrNone record key) with
      | error exc => simp [hcell] at h
      | ok cell =>
          cases hrest : frameRow libs record rest with
          | error exc => simp [hcell, hrest, Except.map] at h
          | ok others =>
              simp only [hcell, hrest, Except.map, Except.ok.injEq] at h
              subst h
              rcases ih hrest with ⟨hkeys, hscalar⟩
              rw [List.map_cons, hkeys]
              exact ⟨rfl, List.forall_mem_cons.mpr ⟨isScalar_of_encodeNested hcell, hscalar⟩⟩

private theorem frameRows_keys {rows : Records} (h : frameRows libs columns records = .ok rows) :
    rows.length = records.length ∧ ∀ row ∈ rows, row.map Prod.fst = columns ∧
      ∀ field ∈ row, field.2.isScalar = true := by
  induction records generalizing rows with
  | nil =>
      cases h
      exact ⟨rfl, List.forall_mem_nil _⟩
  | cons record rest ih =>
      rw [frameRows] at h
      cases hrow : frameRow libs record columns with
      | error exc => simp [hrow] at h
      | ok row =>
          cases hrest : frameRows libs columns rest with
          | error exc => simp [hrow, hrest, Except.map] at h
          | ok others =>
              simp only [hrow, hrest, Except.map, Except.ok.injEq] at h
              subst h
              rcases ih hrest with ⟨hlength, hothers⟩
              rw [List.length_cons, List.length_cons, hlength]
              exact ⟨rfl, List.forall_mem_cons.mpr ⟨frameRow_keys hrow, hothers⟩⟩

private theorem frameRows_ne {rows : Records} (hcolumns : frameColumns records ≠ [])
    (h : frameRows libs columns records = .ok rows) : rows ≠ [] := by
  rintro rfl
  exact ne_nil_of_frameColumns hcolumns (List.length_eq_zero_iff.mp (frameRows_keys h).1.symm)

/-- A frame of records has a row for each of them, and their columns. -/
theorem recordsFrame_shape (hcsv : libs.CsvModule csv) (hcolumns : frameColumns records ≠ [])
    {frame : DataFrame} (h : recordsFrame libs records = .ok frame) :
    frame.height = records.length ∧ frame.columns.map Prod.fst = frameColumns records := by
  unfold recordsFrame at h
  cases hrows : frameRows libs (frameColumns records) records with
  | error exc => simp [hrows] at h
  | ok rows =>
      rw [hrows] at h
      rcases frameRows_keys hrows with ⟨hlength, hkeys⟩
      rcases hcsv.dataFrame _ rows (frameRows_ne hcolumns hrows) hcolumns
        (frameColumns_nodup records) hkeys with ⟨frame', hframe, hheight, hframeColumns⟩
      change libs.dataFrame rows = .ok frame at h
      cases hframe.symm.trans h
      rw [hheight, hlength, hframeColumns, List.map_map]
      exact ⟨rfl, List.map_id _⟩

/-- The row of a record of scalars. -/
theorem frameRow_scalar {record : Fields} (h : ∀ field ∈ record, field.2.isScalar = true)
    (columns : List String) : frameRow libs record columns =
      .ok (columns.map fun key => (key, fieldOrNone record key)) := by
  have hcell : ∀ key, (fieldOrNone record key).isScalar = true := by
    intro key
    unfold fieldOrNone
    cases hlookup : record.lookup key with
    | none => rfl
    | some value => exact h _ (mem_of_lookup_eq_some hlookup)
  induction columns with
  | nil => rfl
  | cons key rest ih =>
      rw [frameRow, encodeNested_scalar (hcell key), ih]
      rfl

private theorem frameRows_scalar (h : ∀ record ∈ records, ∀ field ∈ record, field.2.isScalar = true)
    (columns : List String) : frameRows libs columns records =
      .ok (records.map fun record => columns.map fun key => (key, fieldOrNone record key)) := by
  induction records with
  | nil => rfl
  | cons record rest ih =>
      rcases List.forall_mem_cons.mp h with ⟨hrecord, hrest⟩
      rw [frameRows, frameRow_scalar hrecord, ih hrest]
      rfl

/-- What is found in a row that has one field for each key. -/
theorem fieldOrNone_map {f : String → Value} {key : String} (hkey : key ∈ columns) :
    fieldOrNone (columns.map fun key => (key, f key)) key = f key := by
  induction columns with
  | nil => cases hkey
  | cons first rest ih =>
      by_cases hfirst : key = first
      · subst hfirst
        simp [fieldOrNone]
      · have hrest := ih (List.mem_of_ne_of_mem hfirst hkey)
        unfold fieldOrNone at hrest ⊢
        rw [List.map_cons, List.lookup_cons, beq_eq_false_iff_ne.mpr hfirst]
        exact hrest

/-- The frame of a table of scalars. -/
theorem recordsFrame_scalar (hcsv : libs.CsvModule csv) (hcolumns : frameColumns records ≠ [])
    (h : ∀ record ∈ records, ∀ field ∈ record, field.2.isScalar = true) :
    ∃ frame, recordsFrame libs records = .ok frame ∧ frame.height = records.length ∧
      frame.columns = (frameColumns records).map fun key =>
        (key, csv.typed (columnValues records key)) := by
  have hrows : frameRows libs (frameColumns records) records = .ok _ := frameRows_scalar h _
  rcases frameRows_keys hrows with ⟨hlength, hkeys⟩
  rcases hcsv.dataFrame _ _ (frameRows_ne hcolumns hrows) hcolumns (frameColumns_nodup records)
    hkeys with ⟨frame, hframe, hheight, hframeColumns⟩
  refine ⟨frame, ?_, hheight.trans hlength, ?_⟩
  · rw [recordsFrame, hrows]
    exact hframe
  · rw [hframeColumns]
    refine List.map_congr_left fun key hkey => ?_
    have hvalues : columnValues (records.map fun record =>
        (frameColumns records).map fun key => (key, fieldOrNone record key)) key =
          columnValues records key := by
      rw [columnValues, columnValues, List.map_map]
      exact List.map_congr_left fun record _ => fieldOrNone_map hkey
    rw [hvalues]

/-- A frame of records is written as a line for each of them, behind the header. -/
theorem lines_length (hcsv : libs.CsvModule csv) (hcolumns : frameColumns records ≠ [])
    {frame : DataFrame} (h : recordsFrame libs records = .ok frame) (header : Bool) :
    (csv.lines header frame).length = records.length + header.toNat ∧
      ∀ line ∈ csv.lines header frame, line ≠ [] := by
  rcases recordsFrame_shape hcsv hcolumns h with ⟨hheight, hnames⟩
  have hframe : frame.columns ≠ [] := by
    intro hnil
    rw [hnil] at hnames
    exact hcolumns hnames.symm
  have hrows : ∀ line ∈ csv.rowTexts frame, line ≠ [] := by
    intro line hline
    rcases List.mem_map.mp hline with ⟨i, _, rfl⟩
    simpa using hframe
  cases header with
  | false =>
      refine ⟨?_, hrows⟩
      simp [CsvModel.lines, CsvModel.rowTexts, hheight]
  | true =>
      refine ⟨?_, List.forall_mem_cons.mpr ⟨?_, hrows⟩⟩
      · simp [CsvModel.lines, CsvModel.rowTexts, hheight]
      · rw [hnames]
        simpa using hcolumns

/-- The lines of the frame of a table of scalars. -/
theorem recordsFrame_lines (hcsv : libs.CsvModule csv) (hcolumns : frameColumns records ≠ [])
    (h : ∀ record ∈ records, ∀ field ∈ record, field.2.isScalar = true) :
    ∃ frame, recordsFrame libs records = .ok frame ∧ frame.columns ≠ [] ∧
      ∀ header, csv.lines header frame = csv.tableLines header records := by
  rcases recordsFrame_scalar hcsv hcolumns h with ⟨frame, hframe, hheight, hframeColumns⟩
  have hrows : csv.rowTexts frame = csv.textTable (frameColumns records) records := by
    unfold CsvModel.rowTexts CsvModel.textTable
    rw [hheight, hframeColumns]
    simp only [List.map_map]
    rfl
  have hnames : frame.columns.map Prod.fst = frameColumns records := by
    rw [hframeColumns, List.map_map]
    exact List.map_id _
  refine ⟨frame, hframe, ?_, fun header => ?_⟩
  · intro hnil
    rw [hnil] at hnames
    exact hcolumns hnames.symm
  · rw [CsvModel.lines, CsvModel.tableLines, hrows, hnames]

end

/-! ## Writing tables -/

section

variable {rt : Runtime} {libs : FileLibraries} {csv : CsvModel} {path : String}
variable {options : WriteOptions} {records : Records}

/-- A table of scalars is written as the lines of its texts. -/
theorem writeRecords_table (hcsv : libs.CsvModule csv)
    (haccepts : csv.accepts options.delimiter = true) (hcolumns : frameColumns records ≠ [])
    (h : ∀ record ∈ records, ∀ field ∈ record, field.2.isScalar = true) (file : Option Content) :
    writeRecords rt libs path .csv .overwrite options records file =
      (some (.text (csv.join options.delimiter (csv.tableLines options.hasHeader records))),
        .ok records.length) := by
  rcases recordsFrame_lines hcsv hcolumns h with ⟨frame, hframe, hne, hlines⟩
  have hwrite := hcsv.writeCsv options.delimiter options.hasHeader frame haccepts hne
  rw [hlines] at hwrite
  simp [writeRecords, combinedRecords, writeCombined, hframe, hwrite]

/-- Records with columns are written as the lines of their frame. -/
theorem writeRecords_lines (hcsv : libs.CsvModule csv)
    (haccepts : csv.accepts options.delimiter = true) (hcolumns : frameColumns records ≠ [])
    {file : Option Content}
    (h : (writeRecords rt libs path .csv .overwrite options records file).2.isOk = true) :
    ∃ frame, recordsFrame libs records = .ok frame ∧
      (writeRecords rt libs path .csv .overwrite options records file).1 =
        some (.text (csv.join options.delimiter (csv.lines options.hasHeader frame))) := by
  cases hframe : recordsFrame libs records with
  | error exc =>
      simp [writeRecords, combinedRecords, writeCombined, hframe, Except.isOk, Except.toBool] at h
  | ok frame =>
      have hne : frame.columns ≠ [] := by
        intro hnil
        have hnames := (recordsFrame_shape hcsv hcolumns hframe).2
        rw [hnil] at hnames
        exact hcolumns hnames.symm
      have hwrite := hcsv.writeCsv options.delimiter options.hasHeader frame haccepts hne
      refine ⟨frame, rfl, ?_⟩
      simp [writeRecords, combinedRecords, writeCombined, hframe, hwrite]

/-- Records without columns are written as a file that cannot be read. -/
theorem writeRecords_empty (rt : Runtime) (path : String) (hcsv : libs.CsvModule csv)
    (haccepts : csv.accepts options.delimiter = true) (hcolumns : frameColumns records = [])
    (file : Option Content) :
    ∃ content, writeRecords rt libs path .csv .overwrite options records file =
        (some content, .ok records.length) ∧
      ∀ sep frame, libs.readCsv true sep true none content ≠ .ok frame := by
  have hnil : ∀ record ∈ records, record = [] := by
    intro record hrecord
    rw [List.eq_nil_iff_forall_not_mem]
    intro field hfield
    have hkey := mem_frameColumns.mpr ⟨record, hrecord, List.mem_map.mpr ⟨field, hfield, rfl⟩⟩
    rw [hcolumns] at hkey
    exact List.not_mem_nil hkey
  have hrows : frameRows libs (frameColumns records) records =
      .ok (records.map fun _ => []) := by
    rw [hcolumns]
    refine frameRows_scalar (fun record hrecord => ?_) []
    rw [hnil record hrecord]
    exact List.forall_mem_nil _
  have hempty : ∀ row ∈ records.map fun _ => ([] : Fields), row = [] := by simp
  rcases hcsv.dataFrame_empty _ hempty with ⟨frame, hframe, hframeColumns⟩
  rcases hcsv.writeCsv_empty options.delimiter options.hasHeader frame haccepts hframeColumns
    with ⟨content, hwrite, hunreadable⟩
  refine ⟨content, ?_, hunreadable⟩
  have hrecords : recordsFrame libs records = .ok frame := by
    rw [recordsFrame, hrows]
    exact hframe
  simp [writeRecords, combinedRecords, writeCombined, hrecords, hwrite]

/-- Nothing is written with a delimiter that the library refuses. -/
theorem writeRecords_refused (rt : Runtime) (path : String) (hcsv : libs.CsvModule csv)
    (hrefuses : csv.accepts options.delimiter = false) (records : Records) :
    (writeRecords rt libs path .csv .overwrite options records none).1 = none ∧
      (writeRecords rt libs path .csv .overwrite options records none).2.isOk = false := by
  cases hframe : recordsFrame libs records with
  | error exc =>
      simp [writeRecords, combinedRecords, writeCombined, hframe, Except.isOk, Except.toBool]
  | ok frame =>
      rcases hcsv.writeCsv_refuses options.delimiter options.hasHeader frame hrefuses with
        ⟨exc, hwrite⟩
      simp [writeRecords, combinedRecords, writeCombined, hframe, hwrite, Except.isOk,
        Except.toBool]

/-- An append to a path without a file is a write. -/
theorem append_none : writeRecords rt libs path .csv .append options records none =
    writeRecords rt libs path .csv .overwrite options records none := rfl

/-- An append to a file that can be read writes the records of the file and the new ones. -/
theorem append_readable {existing : Records} {content : Content}
    (h : readRecords rt libs path .csv {} (some content) = .ok existing) :
    (writeRecords rt libs path .csv .append options records (some content)).1 =
        (writeRecords rt libs path .csv .overwrite options (existing ++ records)
          (some content)).1 ∧
      (writeRecords rt libs path .csv .append options records (some content)).2.isOk =
        (writeRecords rt libs path .csv .overwrite options (existing ++ records)
          (some content)).2.isOk := by
  have hcombined : combinedRecords rt libs path .csv .append records (some content) =
      .ok (existing ++ records) := by
    simp [combinedRecords, h, Except.map]
  rw [writeRecords, writeRecords, hcombined]
  simp only [combinedRecords]
  cases (writeCombined libs .csv options (existing ++ records) (some content)).2 with
  | none => exact ⟨rfl, rfl⟩
  | some exc => exact ⟨rfl, rfl⟩

/-- An append to a file that cannot be read raises. -/
theorem append_unreadable {exc : PyException} {content : Content}
    (h : libs.readCsv true "," true none content = .error exc) :
    (writeRecords rt libs path .csv .append options records (some content)).2.isOk = false := by
  simp [writeRecords, combinedRecords, readRecords, h, frameRecords, Except.map, Except.isOk,
    Except.toBool]

end

/-! ## Reading tables -/

section

variable {libs : FileLibraries} {csv : CsvModel} {text : String}
variable {columns : List String} {records others : Records}

private theorem columnTexts_eq_map (hcsv : libs.CsvModule csv) (values : List Value) :
    csv.columnTexts values = (List.range values.length).map fun i =>
      csv.cellText ((csv.typed values)[i]?.getD .null) := by
  refine List.ext_getElem ?_ fun i hi _ => ?_
  · simp [CsvModel.columnTexts, hcsv.typed_length]
  · have hlt : i < (csv.typed values).length := by simpa [CsvModel.columnTexts] using hi
    simp [CsvModel.columnTexts, hlt]

@[simp]
theorem columnValues_length (records : Records) (key : String) :
    (columnValues records key).length = records.length := List.length_map _

theorem columnValues_append (records others : Records) (key : String) :
    columnValues (records ++ others) key = columnValues records key ++ columnValues others key :=
  List.map_append

/-- Tables have the same texts if their columns have. -/
theorem textTable_eq_iff (hcsv : libs.CsvModule csv) (hlength : records.length = others.length) :
    csv.textTable columns records = csv.textTable columns others ↔ ∀ key ∈ columns,
      csv.columnTexts (columnValues records key) = csv.columnTexts (columnValues others key) := by
  simp only [CsvModel.textTable, columnTexts_eq_map hcsv, columnValues_length, hlength,
    List.map_inj_left]
  exact ⟨fun h key hkey i hi => h i hi key hkey, fun h i hi key hkey => h key hkey i hi⟩

/-- The columns that are read from the texts of a table. -/
theorem readColumns_textTable (hcsv : libs.CsvModule csv) (columns : List String)
    (records : Records) : csv.readColumns columns (csv.textTable columns records) =
      columns.map fun key => (key, csv.infer (csv.columnTexts (columnValues records key))) := by
  refine List.ext_getElem (by simp [CsvModel.readColumns]) fun j hj _ => ?_
  have hlt : j < columns.length := by simpa [CsvModel.readColumns] using hj
  simp [CsvModel.readColumns, CsvModel.textTable, columnTexts_eq_map hcsv, hlt, Function.comp_def]

/-- The values of a column of a frame. -/
theorem columnValues_toDicts {frame : DataFrame} {cells : String → List Cell} {key : String}
    (hframe : frame.columns = columns.map fun key => (key, cells key)) (hkey : key ∈ columns) :
    columnValues frame.toDicts key = (cells key).map Cell.toPython := by
  have hlength : (cells key).length = frame.height := by
    refine frame.columns_length (key, cells key) ?_
    rw [hframe]
    exact List.mem_map.mpr ⟨key, hkey, rfl⟩
  rw [columnValues, DataFrame.toDicts, List.map_map]
  refine List.ext_getElem (by simp [hlength]) fun i hi _ => ?_
  have hlt : i < (cells key).length := by simpa [hlength] using hi
  simp only [List.getElem_map, List.getElem_range, Function.comp_apply]
  rw [hframe, List.map_map]
  refine (fieldOrNone_map hkey).trans ?_
  rw [List.getElem?_eq_getElem hlt, Option.getD_some]

/-- The first column of a frame comes first among the keys of its records. -/
theorem frameColumns_toDicts_head? {frame : DataFrame} (hheight : frame.height ≠ 0)
    (hcolumns : frame.columns ≠ []) (more : Records) :
    (frameColumns (frame.toDicts ++ more)).head? = (frame.columns.map Prod.fst).head? := by
  obtain ⟨height, hsucc⟩ : ∃ height, frame.height = height + 1 :=
    Nat.exists_eq_succ_of_ne_zero hheight
  rw [DataFrame.toDicts, hsucc, List.range_succ_eq_map, List.map_cons, List.cons_append]
  cases hcolumn : frame.columns with
  | nil => exact absurd hcolumn hcolumns
  | cons column rest =>
      rw [List.map_cons, List.map_cons, frameColumns_head?]
      rfl

/-- The records of a file that splits at commas into the texts of a table. -/
theorem readRecords_table (rt : Runtime) (path : String) (hcsv : libs.CsvModule csv)
    (hcolumns : frameColumns records ≠ [])
    (hcommas : csv.split "," text = csv.tableLines true records) :
    ∃ existing, readRecords rt libs path .csv {} (some (.text text)) = .ok existing ∧
      existing.length = records.length ∧
      (∀ record ∈ existing, record.map Prod.fst = frameColumns records ∧
        ∀ field ∈ record, field.2.isScalar = true) ∧
      ∀ key ∈ frameColumns records,
        columnValues existing key = csv.reread (columnValues records key) := by
  have hwidth : ∀ row ∈ csv.textTable (frameColumns records) records,
      row.length = (frameColumns records).length := by
    intro row hrow
    rcases List.mem_map.mp hrow with ⟨i, _, rfl⟩
    exact List.length_map _
  rcases hcsv.readCsv "," text _ _ hcsv.comma hcommas hcolumns (frameColumns_nodup records)
    hwidth with ⟨frame, hread, hheight, hframe⟩
  have hrows : frame.height = records.length := by
    rw [hheight]
    simp [CsvModel.textTable]
  rw [readColumns_textTable hcsv] at hframe
  refine ⟨frame.toDicts, by simp [readRecords, hread, frameRecords], ?_, ?_, ?_⟩
  · simp [DataFrame.toDicts, hrows]
  · intro record hrecord
    rcases List.mem_map.mp hrecord with ⟨i, _, rfl⟩
    rw [hframe]
    refine ⟨by simp [Function.comp_def], ?_⟩
    intro field hfield
    rcases List.mem_map.mp hfield with ⟨column, hcolumn, rfl⟩
    rcases List.mem_map.mp hcolumn with ⟨key, _, rfl⟩
    cases hcell : (csv.infer (csv.columnTexts (columnValues records key)))[i]? with
    | none => simp [Cell.toPython, Value.isScalar]
    | some cell =>
        simpa [hcell] using hcsv.infer_scalar _ cell (List.mem_of_getElem? hcell)
  · intro key hkey
    exact columnValues_toDicts hframe hkey

end

end EtlTool
