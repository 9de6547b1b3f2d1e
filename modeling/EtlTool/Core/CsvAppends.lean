import EtlTool.Core.CsvTables
import EtlTool.Foundations.QuotedFields

/-!
# Appends to CSV files

An append reads the file that is there and writes all records again.  It reads with the
default dialect of {lit}`read_records`, a comma, a header and inferred types, whatever the
dialect of the sink is that wrote the file.

Main results:

- Theorem {lit}`append_table`: after a header and commas, what matters is that inference
  changes no text.
- Theorem {lit}`AppendIsOneWrite.header_commas`: an append that is one write has read a
  header, and the texts of the records between commas.
- Theorem {lit}`append_isOneWrite_iff`: when an append is one write.
-/

namespace EtlTool

/-! ## Appends -/

section

variable (rt : Runtime) (libs : FileLibraries) (csv : CsvModel) (path : String)
variable (options : WriteOptions) (first more : Records)

/-- Records are written to a fresh path, and then others are appended.  The append leaves the
file that a single write of all records makes, and returns if that write does. -/
def AppendIsOneWrite : Prop :=
  let appended := writeRecords rt libs path .csv .append options more
    (writeRecords rt libs path .csv .overwrite options first none).1
  let written := writeRecords rt libs path .csv .overwrite options (first ++ more) none
  appended.1 = written.1 ∧ appended.2.isOk = written.2.isOk

/-- There are a header and a column to be read, the file splits at commas into the texts of
the records, and in no column inference changes a text: what is read, with the new values
behind it, is written as the old values with the new ones behind them. -/
structure ReadsAsWritten : Prop where
  header : options.hasHeader = true
  columns : frameColumns first ≠ []
  commas : csv.split "," (csv.join options.delimiter (csv.tableLines true first)) =
    csv.tableLines true first
  texts : ∀ key ∈ frameColumns first,
    csv.columnTexts (csv.reread (columnValues first key) ++ columnValues more key) =
      csv.columnTexts (columnValues first key ++ columnValues more key)

end

section

variable {rt : Runtime} {libs : FileLibraries} {csv : CsvModel} {path : String}
variable {options : WriteOptions} {columns : List String} {first more records : Records}

private theorem tableLines_ne (header : Bool) (hcolumns : frameColumns records ≠ []) :
    ∀ line ∈ csv.tableLines header records, line ≠ [] := by
  have hrows : ∀ line ∈ csv.textTable (frameColumns records) records, line ≠ [] := by
    intro line hline
    rcases List.mem_map.mp hline with ⟨i, _, rfl⟩
    simpa using hcolumns
  cases header with
  | false => exact hrows
  | true => exact List.forall_mem_cons.mpr ⟨by simpa using hcolumns, hrows⟩

private theorem tableLines_length (header : Bool) :
    (csv.tableLines header records).length = records.length + header.toNat := by
  cases header <;> simp [CsvModel.tableLines, CsvModel.textTable]

/-- Lines are told apart by the text that is made of them. -/
theorem join_inj (hcsv : libs.CsvModule csv) {sep : String} (haccepts : csv.accepts sep = true)
    {lines others : List (List (Option String))} (hlines : ∀ line ∈ lines, line ≠ [])
    (hothers : ∀ line ∈ others, line ≠ []) (h : csv.join sep lines = csv.join sep others) :
    lines = others := by
  rw [← hcsv.split_join sep lines haccepts hlines, h, hcsv.split_join sep others haccepts hothers]

/-- An append to a file that splits at commas into its own texts: what matters is that
inference changes no text. -/
theorem append_table (hcsv : libs.CsvModule csv) (hnodup : columns.Nodup)
    (htable : ScalarTable columns (first ++ more))
    (haccepts : csv.accepts options.delimiter = true) (hheader : options.hasHeader = true)
    (hcolumns : frameColumns first ≠ [])
    (hcommas : csv.split "," (csv.join options.delimiter (csv.tableLines true first)) =
      csv.tableLines true first) :
    AppendIsOneWrite rt libs path options first more ↔ ∀ key ∈ frameColumns first,
      csv.columnTexts (csv.reread (columnValues first key) ++ columnValues more key) =
        csv.columnTexts (columnValues first key ++ columnValues more key) := by
  have hne := ne_nil_of_frameColumns hcolumns
  rcases readRecords_table rt path hcsv hcolumns hcommas with
    ⟨existing, hread, hlength, hexisting, hvalues⟩
  -- The records that are read and the new ones are a table over the columns of the file.
  have hcombined := htable.replaceRows hnodup hne hexisting
  have hnewColumns : frameColumns (existing ++ more) = frameColumns first := by
    cases existing with
    | nil => exact absurd (List.length_eq_zero_iff.mp hlength.symm) hne
    | cons record rest =>
        exact (frameColumns_eq_head (frameColumns_nodup first) hcombined).trans
          (hexisting record List.mem_cons_self).1
  have holdColumns := htable.frameColumns_append hnodup hne
  have hnew : frameColumns (existing ++ more) ≠ [] := hnewColumns ▸ hcolumns
  have hold : frameColumns (first ++ more) ≠ [] := holdColumns ▸ hcolumns
  have hlines : csv.tableLines true (existing ++ more) = csv.tableLines true (first ++ more) ↔
      ∀ key ∈ frameColumns first,
        csv.columnTexts (csv.reread (columnValues first key) ++ columnValues more key) =
          csv.columnTexts (columnValues first key ++ columnValues more key) := by
    have hheight : (existing ++ more).length = (first ++ more).length := by
      rw [List.length_append, List.length_append, hlength]
    simp only [CsvModel.tableLines, if_true, hnewColumns, holdColumns, List.cons.injEq, true_and,
      textTable_eq_iff hcsv hheight, columnValues_append]
    exact forall₂_congr fun key hkey => by rw [hvalues key hkey]
  rw [← hlines, AppendIsOneWrite, writeRecords_table hcsv haccepts hcolumns htable.left.scalar,
    hheader]
  dsimp only
  rw [(append_readable hread).1, (append_readable hread).2,
    writeRecords_table hcsv haccepts hnew hcombined.scalar,
    writeRecords_table hcsv haccepts hold htable.scalar, hheader]
  constructor
  · rintro ⟨hfile, -⟩
    simp only [Option.some.injEq, Content.text.injEq] at hfile
    exact join_inj hcsv haccepts (tableLines_ne true hnew) (tableLines_ne true hold) hfile
  · intro h
    rw [h]
    exact ⟨rfl, rfl⟩

/-- After records without columns nothing can be appended. -/
theorem AppendIsOneWrite.columns_ne (h : AppendIsOneWrite rt libs path options first more)
    (hcsv : libs.CsvModule csv) (htable : ScalarTable columns (first ++ more))
    (haccepts : csv.accepts options.delimiter = true) : frameColumns first ≠ [] := by
  intro hnil
  rcases writeRecords_empty rt path hcsv haccepts hnil none with
    ⟨content, hfirst, hunreadable⟩
  have hreturns : (writeRecords rt libs path .csv .overwrite options (first ++ more)
      none).2.isOk = true := by
    by_cases hcolumns : frameColumns (first ++ more) = []
    · rcases writeRecords_empty rt path hcsv haccepts hcolumns none with
        ⟨_, hwrite, _⟩
      rw [hwrite]
      rfl
    · rw [writeRecords_table hcsv haccepts hcolumns htable.scalar]
      rfl
  have hraises : (writeRecords rt libs path .csv .append options more
      (some content)).2.isOk = false := by
    cases hread : libs.readCsv true "," true none content with
    | ok frame => exact absurd hread (hunreadable "," frame)
    | error exc => exact append_unreadable hread
  have hsame := h.2
  rw [hfirst, hraises, hreturns] at hsame
  cases hsame

/-- What an append that is one write has read: with the new records it makes the same lines. -/
theorem AppendIsOneWrite.read (h : AppendIsOneWrite rt libs path options first more)
    (hcsv : libs.CsvModule csv) (hnodup : columns.Nodup)
    (htable : ScalarTable columns (first ++ more))
    (haccepts : csv.accepts options.delimiter = true) :
    ∃ frame combined, libs.readCsv true "," true none
        (.text (csv.join options.delimiter (csv.tableLines options.hasHeader first))) = .ok frame ∧
      recordsFrame libs (frame.toDicts ++ more) = .ok combined ∧
      frameColumns (frame.toDicts ++ more) ≠ [] ∧
      csv.lines options.hasHeader combined =
        csv.tableLines options.hasHeader (first ++ more) := by
  have hcolumns := h.columns_ne hcsv htable haccepts
  have hne := ne_nil_of_frameColumns hcolumns
  have hold : frameColumns (first ++ more) ≠ [] :=
    (htable.frameColumns_append hnodup hne).symm ▸ hcolumns
  rcases h with ⟨hfile, hsame⟩
  rw [writeRecords_table hcsv haccepts hcolumns htable.left.scalar,
    writeRecords_table hcsv haccepts hold htable.scalar] at hfile hsame
  cases hread : libs.readCsv true "," true none
      (.text (csv.join options.delimiter (csv.tableLines options.hasHeader first))) with
  | error exc =>
      rw [append_unreadable hread] at hsame
      cases hsame
  | ok frame =>
      have hrecords : readRecords rt libs path .csv {} (some (.text
          (csv.join options.delimiter (csv.tableLines options.hasHeader first)))) =
            .ok frame.toDicts := by
        simp [readRecords, hread, frameRecords]
      rw [(append_readable hrecords).1] at hfile
      rw [(append_readable hrecords).2] at hsame
      have hnew : frameColumns (frame.toDicts ++ more) ≠ [] := by
        intro hnil
        -- There are no new records, so the file without columns would be the one that was read.
        have hmore : more = [] := by
          rw [List.eq_nil_iff_forall_not_mem]
          intro record hrecord
          rcases List.exists_mem_of_ne_nil _ hcolumns with ⟨key, hkey⟩
          have hlisted : key ∈ record.map Prod.fst :=
            (htable.columns record (List.mem_append_right first hrecord)).mem_iff.mpr
              ((htable.left.frameColumns_perm hnodup hne).mem_iff.mp hkey)
          have hnone := mem_frameColumns.mpr
            ⟨record, List.mem_append_right frame.toDicts hrecord, hlisted⟩
          rw [hnil] at hnone
          exact List.not_mem_nil hnone
        rcases writeRecords_empty rt path hcsv haccepts hnil (some _) with
          ⟨content, hwrite, hunreadable⟩
        rw [hwrite, hmore, List.append_nil first] at hfile
        cases hfile
        exact hunreadable "," frame hread
      rcases writeRecords_lines hcsv haccepts hnew hsame with ⟨combined, hcombined, hwrite⟩
      refine ⟨frame, combined, rfl, hcombined, hnew, ?_⟩
      rw [hwrite] at hfile
      simp only [Option.some.injEq, Content.text.injEq] at hfile
      exact join_inj hcsv haccepts (lines_length hcsv hnew hcombined options.hasHeader).2
        (tableLines_ne options.hasHeader hold) hfile

/-- It has read a header, and the texts of the records between commas. -/
theorem AppendIsOneWrite.header_commas (h : AppendIsOneWrite rt libs path options first more)
    (hcsv : libs.CsvModule csv) (hnodup : columns.Nodup)
    (htable : ScalarTable columns (first ++ more))
    (haccepts : csv.accepts options.delimiter = true) :
    options.hasHeader = true ∧
      csv.split "," (csv.join options.delimiter (csv.tableLines true first)) =
        csv.tableLines true first := by
  have hcolumns := h.columns_ne hcsv htable haccepts
  have hne := ne_nil_of_frameColumns hcolumns
  rcases h.read hcsv hnodup htable haccepts with ⟨frame, combined, hread, hcombined, hnew, hlines⟩
  rcases hcsv.readCsv_shape "," _ frame hread with ⟨hframe, hsplit⟩
  -- The first line of the file is no record of the frame, but it has as many records.
  have hheight : frame.height = first.length := by
    have hcount := congrArg List.length hlines
    rw [(lines_length hcsv hnew hcombined options.hasHeader).1, tableLines_length,
      List.length_append, List.length_append] at hcount
    have htoDicts : frame.toDicts.length = frame.height := by simp [DataFrame.toDicts]
    omega
  have hheader : options.hasHeader = true := by
    rw [hcsv.split_length _ _ _ haccepts hcsv.comma (tableLines_ne _ hcolumns),
      tableLines_length, hheight] at hsplit
    cases hflag : options.hasHeader with
    | true => rfl
    | false => simp [hflag] at hsplit
  refine ⟨hheader, ?_⟩
  rw [hheader] at hread hlines
  have hnames : frameColumns (frame.toDicts ++ more) = frameColumns first := by
    simp only [CsvModel.lines, CsvModel.tableLines, if_true, List.cons.injEq] at hlines
    rw [← (recordsFrame_shape hcsv hnew hcombined).2,
      ← htable.frameColumns_append hnodup hne]
    exact List.map_injective_iff.mpr (Option.some_injective String) hlines.1
  have hhead : (frame.columns.map Prod.fst).head? = (frameColumns first).head? := by
    rw [← hnames, frameColumns_toDicts_head? (by simpa [hheight] using hne) hframe]
  cases hfirst : frameColumns first with
  | nil => exact absurd hfirst hcolumns
  | cons name names =>
      have hlinesFirst : csv.tableLines true first =
          (some name :: names.map some) :: csv.textTable (frameColumns first) first := by
        rw [CsvModel.tableLines, if_pos rfl, hfirst]
        rfl
      have hwidth : ∀ row ∈ csv.textTable (frameColumns first) first,
          row.length = (names.map some).length + 1 := by
        intro row hrow
        rcases List.mem_map.mp hrow with ⟨i, _, rfl⟩
        simp [hfirst]
      rw [hlinesFirst] at hread ⊢
      rcases hcsv.split_other _ _ _ _ _ frame haccepts hcsv.comma hwidth hread with
        hsame | hother
      · exact hsame
      · rw [hhead, hfirst] at hother
        exact absurd rfl hother

/-- An append of records to a CSV file is one write of all of them exactly if the library
refuses the delimiter, or the file is read as it was written. -/
theorem append_isOneWrite_iff (hcsv : libs.CsvModule csv) (hnodup : columns.Nodup)
    (htable : ScalarTable columns (first ++ more)) :
    AppendIsOneWrite rt libs path options first more ↔
      (csv.accepts options.delimiter = true → ReadsAsWritten csv options first more) := by
  cases haccepts : csv.accepts options.delimiter with
  | false =>
      rw [AppendIsOneWrite, (writeRecords_refused rt path hcsv haccepts first).1, append_none]
      rw [(writeRecords_refused rt path hcsv haccepts more).1,
        (writeRecords_refused rt path hcsv haccepts more).2,
        (writeRecords_refused rt path hcsv haccepts (first ++ more)).1,
        (writeRecords_refused rt path hcsv haccepts (first ++ more)).2]
      exact iff_of_true ⟨rfl, rfl⟩ fun h => absurd h Bool.false_ne_true
  | true =>
      constructor
      · intro h _
        rcases h.header_commas hcsv hnodup htable haccepts with ⟨hheader, hcommas⟩
        have hcolumns := h.columns_ne hcsv htable haccepts
        exact ⟨hheader, hcolumns, hcommas,
          (append_table hcsv hnodup htable haccepts hheader hcolumns hcommas).mp h⟩
      · intro h
        rcases h rfl with ⟨hheader, hcolumns, hcommas, htexts⟩
        exact (append_table hcsv hnodup htable haccepts hheader hcolumns hcommas).mpr htexts

end

namespace CsvSamples

open QuotedFields

/-- Double quotes and line feeds.  Letters and digits need no quotes. -/
def marks : Marks Char where
  quote := '"'
  stop := '\n'
  plain := Char.isAlphanum
  quote_special := by decide
  stop_special := by decide
  stop_ne_quote := by decide

instance (sep : Char) : Decidable (marks.IsSeparator sep) :=
  inferInstanceAs (Decidable (_ ∧ _ ∧ _))

/-- A separator is one symbol. -/
def separator? (sep : String) : Option Char :=
  match sep.toList with
  | [c] => if marks.IsSeparator c then some c else none
  | _ => none

def cellOf : Value → Cell
  | .bool b => .bool b
  | .int z => .int z
  | .float x => .float x
  | .str s => .str s
  | .foreign _ text _ => .str text
  | _ => .null

def cellText : Cell → Option String
  | .bool b => some (toString b)
  | .int z => some (toString z)
  | .float x => some (decimalRuntime.floatText x)
  | .str s => some s
  | .foreign _ text _ => some text
  | _ => none

/-- The number that some digits write. -/
def number? (text : String) : Option Nat :=
  if text.toList ≠ [] ∧ text.toList.all Char.isDigit then
    some (text.toList.foldl (fun n c => 10 * n + (c.toNat - 48)) 0)
  else none

/-- A column of digits is a column of numbers. -/
def infer (texts : List (Option String)) : List Cell :=
  if texts.all fun text => text.all fun text => (number? text).isSome then
    texts.map fun text => (text.bind number?).elim .null fun n => .int n
  else texts.map fun text => text.elim .null .str

def chars (lines : List (List (Option String))) : List (List (Option (List Char))) :=
  lines.map fun line => line.map fun field => field.map String.toList

def strings (lines : List (List (Option (List Char)))) : List (List (Option String)) :=
  lines.map fun line => line.map fun field => field.map String.ofList

/-- Columns are built and written cell by cell. -/
def quotedCsv : CsvModel where
  accepts sep := (separator? sep).isSome
  typed values := values.map cellOf
  cellText := cellText
  infer := infer
  join sep lines :=
    (separator? sep).elim "" fun c => String.ofList (marks.writeLines c (chars lines))
  split sep text := (separator? sep).elim [] fun c => strings (marks.readLines c text.toList)

def computeError : PyException where
  typeName := "ComputeError"
  text := some "found more fields than defined in 'Schema'"

/-- The frame of some lines. -/
def readFrame (names : List String) (rows : List (List (Option String))) : DataFrame where
  height := rows.length
  columns := quotedCsv.readColumns names rows
  columns_length := by
    intro column hcolumn
    rcases List.mem_map.mp hcolumn with ⟨j, _, rfl⟩
    simp only [quotedCsv, infer]
    split <;> simp

/-- The frame of rows with the columns of the first. -/
def rowsFrame (rows : Records) : DataFrame where
  height := rows.length
  columns := (rows.headD []).map fun field =>
    (field.1, quotedCsv.typed (columnValues rows field.1))
  columns_length := by
    intro column hcolumn
    rcases List.mem_map.mp hcolumn with ⟨field, _, rfl⟩
    simp [quotedCsv]

/-- Lines that are a table below a header. -/
def IsTable (header : List (Option String)) (rows : List (List (Option String))) : Prop :=
  header ≠ [] ∧ header.Nodup ∧ (∀ name ∈ header, name.isSome) ∧
    ∀ row ∈ rows, row.length = header.length

instance (header : List (Option String)) (rows : List (List (Option String))) :
    Decidable (IsTable header rows) :=
  inferInstanceAs (Decidable (_ ∧ _ ∧ _ ∧ _))

/-- A file is read with a header and inferred types, and all of it. -/
def readText (sep : String) : Content → Except PyException DataFrame
  | .binary _ => .error computeError
  | .text text =>
      match quotedCsv.split sep text with
      | [] => .error computeError
      | header :: rows =>
          if IsTable header rows then .ok (readFrame (header.map fun name => name.getD "") rows)
          else .error computeError

def csvLibraries : FileLibraries where
  dumps _ _ := .error computeError
  loads _ := .error computeError
  readCsv _ sep _ _ content := readText sep content
  readParquet _ _ := .error computeError
  dataFrame rows := .ok (rowsFrame rows)
  writeCsv sep header frame :=
    if quotedCsv.accepts sep then
      .ok (.text (if frame.columns = [] then ""
        else quotedCsv.join sep (quotedCsv.lines header frame)))
    else .error computeError
  writeParquet _ := .error computeError

private theorem strings_chars (lines : List (List (Option String))) :
    strings (chars lines) = lines := by
  simp [strings, chars, Function.comp_def]

private theorem chars_ne {lines : List (List (Option String))} (h : ∀ line ∈ lines, line ≠ []) :
    ∀ line ∈ chars lines, line ≠ [] := by
  intro line hline
  rcases List.mem_map.mp hline with ⟨other, hother, rfl⟩
  simpa using h other hother

/-- A text that is accepted as a separator is one. -/
theorem separator?_of_accepts {sep : String} (h : quotedCsv.accepts sep = true) :
    ∃ c, separator? sep = some c ∧ marks.IsSeparator c := by
  rcases Option.isSome_iff_exists.mp h with ⟨c, hc⟩
  refine ⟨c, hc, ?_⟩
  unfold separator? at hc
  split at hc
  · split_ifs at hc with hseparator
    cases hc
    exact hseparator
  · cases hc

private theorem readText_ok {sep text : String} {frame : DataFrame}
    (h : readText sep (.text text) = .ok frame) :
    ∃ header rows, quotedCsv.split sep text = header :: rows ∧ IsTable header rows ∧
      frame = readFrame (header.map fun name => name.getD "") rows := by
  rw [readText] at h
  split at h
  · cases h
  · next header rows hsplit =>
      split_ifs at h with htable
      cases h
      exact ⟨header, rows, hsplit, htable, rfl⟩

/-- A table with one column, whose name is another one. -/
theorem readFrame_head_ne {field : Option (List Char)} {rows : List (List (Option String))}
    {first : String} (htable : IsTable [field.map String.ofList] rows)
    (hne : field ≠ some first.toList) :
    ((readFrame ([field.map String.ofList].map fun name => name.getD "") rows).columns.map
      Prod.fst).head? ≠ some first := by
  intro hfirst
  cases field with
  | none => exact absurd (htable.2.2.1 none List.mem_cons_self) (by simp)
  | some text =>
      have htext : String.ofList text = first := by
        simpa [readFrame, CsvModel.readColumns] using hfirst
      rw [← htext, String.toList_ofList] at hne
      exact hne rfl

private theorem csvLibraries_module : csvLibraries.CsvModule quotedCsv where
  comma := by decide
  typed_length values := List.length_map _
  infer_scalar := by
    intro texts cell hcell
    simp only [quotedCsv, infer] at hcell
    split at hcell
    · rcases List.mem_map.mp hcell with ⟨text, _, rfl⟩
      cases text.bind number? <;> rfl
    · rcases List.mem_map.mp hcell with ⟨text, _, rfl⟩
      cases text <;> rfl
  dataFrame := by
    intro columns rows hrows _ _ hkeys
    refine ⟨rowsFrame rows, rfl, rfl, ?_⟩
    cases rows with
    | nil => exact absurd rfl hrows
    | cons row rest =>
        rw [← (hkeys row List.mem_cons_self).1, List.map_map]
        rfl
  dataFrame_empty := by
    intro rows hempty
    refine ⟨rowsFrame rows, rfl, ?_⟩
    cases rows with
    | nil => rfl
    | cons row rest =>
        have hrow := hempty row List.mem_cons_self
        subst hrow
        rfl
  writeCsv := by
    intro sep header frame haccepts hcolumns
    simp [csvLibraries, haccepts, hcolumns]
  writeCsv_refuses := by
    intro sep header frame hrefuses
    exact ⟨computeError, by simp [csvLibraries, hrefuses]⟩
  writeCsv_empty := by
    intro sep header frame haccepts hcolumns
    refine ⟨.text "", by simp [csvLibraries, haccepts, hcolumns], ?_⟩
    intro sep' frame' hread
    rcases readText_ok hread with ⟨first, rows, hsplit, _⟩
    cases hseparator : separator? sep' with
    | none => simp [quotedCsv, hseparator] at hsplit
    | some c => simp [quotedCsv, hseparator, strings, Marks.readLines, cut] at hsplit
  readCsv := by
    intro sep text names rows _ hsplit hne hnodup hwidth
    have htable : IsTable (names.map some) rows := by
      refine ⟨by simpa using hne, hnodup.map (Option.some_injective String), by simp, ?_⟩
      simpa using hwidth
    refine ⟨readFrame names rows, ?_, rfl, rfl⟩
    simp [csvLibraries, readText, hsplit, htable, Function.comp_def]
  readCsv_shape := by
    intro sep text frame hread
    rcases readText_ok hread with ⟨header, rows, hsplit, htable, rfl⟩
    refine ⟨?_, ?_⟩
    · simpa [readFrame, CsvModel.readColumns] using htable.1
    · rw [hsplit]
      rfl
  split_join := by
    intro sep rows haccepts hne
    rcases separator?_of_accepts haccepts with ⟨c, hc, hseparator⟩
    simp [quotedCsv, hc, Marks.readLines_writeLines hseparator (chars_ne hne), strings_chars]
  split_length := by
    intro sep sep' rows haccepts haccepts' _
    rcases separator?_of_accepts haccepts with ⟨c, hc, hseparator⟩
    rcases separator?_of_accepts haccepts' with ⟨d, hd, _⟩
    simp [quotedCsv, hc, hd, strings, chars, Marks.readLines_length hseparator]
  split_other := by
    intro sep sep' first names rows frame haccepts haccepts' hwidth hread
    rcases separator?_of_accepts haccepts with ⟨c, hc, hseparator⟩
    rcases separator?_of_accepts haccepts' with ⟨d, hd, hseparator'⟩
    have hsplit : ∀ lines, quotedCsv.split sep' (quotedCsv.join sep lines) =
        strings (marks.readLines d (marks.writeLines c (chars lines))) := by
      intro lines
      simp [quotedCsv, hc, hd]
    cases names with
    | nil =>
        left
        rw [hsplit, Marks.readLines_single hseparator hseparator' ?_, strings_chars]
        simpa [chars] using hwidth
    | cons name names =>
        by_cases hcd : c = d
        · subst hcd
          left
          rw [hsplit, Marks.readLines_writeLines hseparator (chars_ne ?_), strings_chars]
          refine List.forall_mem_cons.mpr ⟨List.cons_ne_nil _ _, fun row hrow hnil => ?_⟩
          have hlength := hwidth row hrow
          rw [hnil] at hlength
          cases hlength
        · right
          rcases readText_ok hread with ⟨header, others, hheader, htable, rfl⟩
          rw [hsplit, Marks.readLines_other hseparator hseparator' hcd] at hheader
          simp only [strings, chars, List.map_cons, List.map_nil, Option.map_some,
            List.cons.injEq] at hheader
          rw [← hheader.1] at htable ⊢
          exact readFrame_head_ne htable
            (Marks.field_lineText_ne hseparator first.toList (List.cons_ne_nil _ _))

/-- Names below a header. -/
def named (key name : String) : Records := [[(key, .str name)]]

private theorem named_table (key name other : String) :
    ScalarTable [key] (named key name ++ named key other) where
  columns := by simp [named]
  scalar := by simp [named, Value.isScalar]

end CsvSamples

open CsvSamples

theorem append_isOneWrite_names :
    AppendIsOneWrite decimalRuntime csvLibraries "names.csv" {} (named "name" "ada")
      (named "name" "bob") := by
  refine (append_isOneWrite_iff csvLibraries_module (List.nodup_singleton "name")
    (named_table "name" "ada" "bob")).mpr fun haccepts => ?_
  have hcolumns : frameColumns (named "name" "ada") ≠ [] := by decide
  refine ⟨rfl, hcolumns, ?_, ?_⟩
  · exact csvLibraries_module.split_join "," _ haccepts (tableLines_ne true hcolumns)
  · intro key hkey
    cases List.mem_singleton.mp hkey
    rfl

/-- Digits come back as numbers: the code 007 becomes 7 when another one is appended. -/
theorem append_changes_digits :
    csvLibraries.CsvModule quotedCsv ∧
      ScalarTable ["code"] (named "code" "007" ++ named "code" "008") ∧
      ¬ AppendIsOneWrite decimalRuntime csvLibraries "codes.csv" {} (named "code" "007")
        (named "code" "008") := by
  refine ⟨csvLibraries_module, named_table "code" "007" "008", fun h => ?_⟩
  have hcolumns : frameColumns (named "code" "007") ≠ [] := by decide
  have hcommas := csvLibraries_module.split_join "," (quotedCsv.tableLines true
    (named "code" "007")) csvLibraries_module.comma (tableLines_ne true hcolumns)
  have htexts := (@append_table _ _ _ _ {} _ _ _ csvLibraries_module
    (List.nodup_singleton "code") (named_table "code" "007" "008") csvLibraries_module.comma rfl
    hcolumns hcommas).mp h "code" (by decide)
  have hnew : quotedCsv.columnTexts (quotedCsv.reread (columnValues (named "code" "007") "code") ++
      columnValues (named "code" "008") "code") = [some "7", some "008"] := rfl
  have hold : quotedCsv.columnTexts (columnValues (named "code" "007") "code" ++
      columnValues (named "code" "008") "code") = [some "007", some "008"] := rfl
  rw [hnew, hold] at htexts
  exact absurd htexts (by decide)

end EtlTool
