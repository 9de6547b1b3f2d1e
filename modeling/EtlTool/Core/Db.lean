import EtlTool.Core.FileIo
import EtlTool.Engine.Samples
import EtlTool.Foundations.OrderedDict

/-!
# Tables of a database

Writing records to a table in one transaction: the columns are the keys of all records,
a missing table is created from them, and the rows are inserted with one statement whose
columns are those of the first row.  A field of a later record that the first one lacks
is not inserted.

Main results:

- Theorem {lit}`writeTable_isOk_iff`: when the call returns.
- Theorem {lit}`table_complete_iff`: the call stores every field of every record, unless
  a later record has a field that the first one lacks.
- Theorem {lit}`field_dropped`: a field that is not stored.

Current gaps:

- Conversions between the types of the columns and Python values.
-/

namespace EtlTool

/-! ## Tables -/

/-- The type of a column: one that {lit}`_infer_column_type` gives to a new column, or
the type of a column that exists. -/
inductive ColumnType where
  | boolean
  | bigInteger
  | float
  | text
  | reflected (name : String)
deriving DecidableEq

/-- A table with its rows. -/
structure DbTable where
  columns : List (String × ColumnType)
  rows : List Fields
deriving DecidableEq

/-- The names of the columns. -/
def DbTable.columnNames (table : DbTable) : List String :=
  table.columns.map Prod.fst

/-- The tables of a database, by schema and name. -/
abbrev UserDatabase := OrderedDict (Option String × String) DbTable

/-- What the database does on its own. -/
structure Dialect where
  /-- What a column gets in the row of the batch at a position when the statement does not
  name it: its default, or null. -/
  fill : List (String × ColumnType) → String → Nat → Value
  /-- The connection cannot be opened. -/
  connectFails : Option PyException
  /-- The database refuses the statement with these columns and rows. -/
  insertFails : DbTable → List String → Records → Option PyException

/-! ## Writing -/

/-- The mode of {lit}`write_table`. -/
inductive TableMode where
  | append
  | replace
deriving DecidableEq

/-- Why {lit}`write_table` raises. -/
inductive TableFailure where
  /-- {lit}`DbTableMissing`. -/
  | missing (message : String)
  | other (exc : PyException)
deriving DecidableEq

/-- {lit}`_prepare_row`. -/
def prepareRow (dumps : Value → Except PyException String) (columns : List String) :
    Fields → Except PyException Fields
  | [] => .ok []
  | (key, value) :: rest =>
      if key ∈ columns then
        match encodeNested dumps value with
        | .error exc => .error exc
        | .ok cell => (prepareRow dumps columns rest).map fun row => (key, cell) :: row
      else prepareRow dumps columns rest

/-- {lit}`[_prepare_row(record, columns) for record in records]`. -/
def prepareRows (dumps : Value → Except PyException String) (columns : List String) :
    Records → Except PyException Records
  | [] => .ok []
  | record :: rest =>
      match prepareRow dumps columns record with
      | .error exc => .error exc
      | .ok row => (prepareRows dumps columns rest).map fun rows => row :: rows

/-- {lit}`_infer_column_type`. -/
def inferColumnType (records : Records) (column : String) : ColumnType :=
  match (records.map fun record => fieldOrNone record column).find? fun value =>
      value ≠ .none with
  | some (.bool _) => .boolean
  | some (.int _) => .bigInteger
  | some (.float _) => .float
  | _ => .text

/-- The exception of a row that lacks a column of the statement. -/
def missingParameter : PyException where
  typeName := "StatementError"
  text := some "A value is required for bind parameter"

/-- The row that a statement with the given columns inserts. -/
def insertedRow (dialect : Dialect) (table : DbTable) (keys : List String) (i : Nat)
    (row : Fields) : Fields :=
  table.columnNames.map fun column =>
    (column, if column ∈ keys then fieldOrNone row column
      else dialect.fill table.columns column i)

/-- The keys of the first row. -/
def firstKeys (rows : Records) : List String :=
  (rows.headD []).map Prod.fst

/-- The rows that are inserted. -/
def insertedRows (dialect : Dialect) (table : DbTable) (rows : Records) : List Fields :=
  rows.mapIdx fun i row => insertedRow dialect table (firstKeys rows) i row

/-- The table after the rows have been inserted. -/
def insertedTable (dialect : Dialect) (table : DbTable) (rows : Records) : DbTable :=
  { table with rows := table.rows ++ insertedRows dialect table rows }

/-- {lit}`conn.execute(insert(table), rows)`: the columns of the statement are the keys of
the first row, further keys of later rows are ignored, and a later row without one of
them is refused. -/
def insertRows (dialect : Dialect) (table : DbTable) (rows : Records) :
    Except PyException DbTable :=
  if ∃ row ∈ rows, ∃ key ∈ firstKeys rows, row.lookup key = none then .error missingParameter
  else
    match dialect.insertFails table (firstKeys rows) rows with
    | some exc => .error exc
    | none => .ok (insertedTable dialect table rows)

/-- The table that {lit}`write_table` inserts into: the one that exists, emptied with
{lit}`mode=replace`, or a new one. -/
def openTable (rt : Runtime) (db : UserDatabase) (schema : Option String) (name : String)
    (mode : TableMode) (create : Bool) (records : Records) : Except TableFailure DbTable :=
  match db.get? (schema, name) with
  | some table =>
      match mode with
      | .append => .ok table
      | .replace => .ok { table with rows := [] }
  | none =>
      let message := "table " ++ rt.reprStr name ++ " does not exist"
      if create = false then
        .error (.missing (message ++ "; set create=true to create it from the records"))
      else if frameColumns records = [] then
        .error (.missing (message ++
          " (no rows to infer a schema from; create the table first)"))
      else .ok ⟨(frameColumns records).map fun column =>
        (column, inferColumnType records column), []⟩

/-- The transaction of {lit}`write_table`: the table that it leaves. -/
def tableTransaction (rt : Runtime) (dumps : Value → Except PyException String)
    (dialect : Dialect) (db : UserDatabase) (schema : Option String) (name : String)
    (mode : TableMode) (create : Bool) (records : Records) : Except TableFailure DbTable :=
  match dialect.connectFails with
  | some exc => .error (.other exc)
  | none =>
      match openTable rt db schema name mode create records with
      | .error failure => .error failure
      | .ok table =>
          if records = [] then .ok table
          else
            match prepareRows dumps table.columnNames records with
            | .error exc => .error (.other exc)
            | .ok rows =>
                match insertRows dialect table rows with
                | .error exc => .error (.other exc)
                | .ok table => .ok table

/-- {lit}`write_table`: the database afterwards, and the number of rows.  A transaction
that fails is rolled back. -/
def writeTable (rt : Runtime) (dumps : Value → Except PyException String) (dialect : Dialect)
    (db : UserDatabase) (schema : Option String) (name : String) (mode : TableMode)
    (create : Bool) (records : Records) : UserDatabase × Except TableFailure Nat :=
  match tableTransaction rt dumps dialect db schema name mode create records with
  | .error failure => (db, .error failure)
  | .ok table => (db.set (schema, name) table, .ok records.length)

/-! ## Rows -/

section

variable {dumps : Value → Except PyException String} {columns : List String}

/-- What a prepared row holds: the encoded fields of the record that are columns. -/
structure RowPrepared (dumps : Value → Except PyException String) (columns : List String)
    (record row : Fields) : Prop where
  keys : ∀ key, key ∈ row.map Prod.fst ↔ key ∈ columns ∧ key ∈ record.map Prod.fst
  cells : ∀ column ∈ columns, ∀ value, record.lookup column = some value →
    ∃ cell, encodeNested dumps value = .ok cell ∧ row.lookup column = some cell

private theorem prepareRow_spec {record row : Fields}
    (h : prepareRow dumps columns record = .ok row) :
    RowPrepared dumps columns record row := by
  induction record generalizing row with
  | nil =>
      cases h
      exact ⟨by simp, by simp⟩
  | cons field rest ih =>
      rcases field with ⟨key, value⟩
      unfold prepareRow at h
      by_cases hkey : key ∈ columns
      · rw [if_pos hkey] at h
        cases hcell : encodeNested dumps value with
        | error exc => simp [hcell] at h
        | ok cell =>
            cases hrest : prepareRow dumps columns rest with
            | error exc => simp [hcell, hrest, Except.map] at h
            | ok others =>
                simp only [hcell, hrest, Except.map, Except.ok.injEq] at h
                subst h
                rcases ih hrest with ⟨hkeys, hcells⟩
                constructor
                · intro other
                  rw [List.map_cons, List.map_cons, List.mem_cons, List.mem_cons, hkeys]
                  constructor
                  · rintro (rfl | ⟨hcolumn, hmem⟩)
                    · exact ⟨hkey, Or.inl rfl⟩
                    · exact ⟨hcolumn, Or.inr hmem⟩
                  · rintro ⟨hcolumn, rfl | hmem⟩
                    · exact Or.inl rfl
                    · exact Or.inr ⟨hcolumn, hmem⟩
                · intro column hcolumn found hfound
                  by_cases hsame : column = key
                  · subst hsame
                    simp only [List.lookup_cons_self, Option.some.injEq] at hfound ⊢
                    subst hfound
                    exact ⟨cell, hcell, rfl⟩
                  · rw [List.lookup_cons, beq_false_of_ne hsame] at hfound ⊢
                    exact hcells column hcolumn found hfound
      · rw [if_neg hkey] at h
        rcases ih h with ⟨hkeys, hcells⟩
        constructor
        · intro other
          rw [hkeys, List.map_cons, List.mem_cons]
          refine and_congr_right fun hcolumn => ?_
          have hne : other ≠ key := fun heq => hkey (heq ▸ hcolumn)
          simp [hne]
        · intro column hcolumn found hfound
          have hne : column ≠ key := fun heq => hkey (heq ▸ hcolumn)
          rw [List.lookup_cons, beq_false_of_ne hne] at hfound
          exact hcells column hcolumn found hfound

/-- Every field of the record that is a column can be encoded. -/
def FieldsEncodable (dumps : Value → Except PyException String) (columns : List String)
    (record : Fields) : Prop :=
  ∀ field ∈ record, field.1 ∈ columns → ∃ cell, encodeNested dumps field.2 = .ok cell

private theorem prepareRow_isOk_iff (record : Fields) :
    (∃ row, prepareRow dumps columns record = .ok row) ↔ FieldsEncodable dumps columns record := by
  induction record with
  | nil => simp [prepareRow, FieldsEncodable]
  | cons field rest ih =>
      rw [FieldsEncodable, List.forall_mem_cons, ← FieldsEncodable, ← ih, prepareRow]
      by_cases hkey : field.1 ∈ columns
      · cases hcell : encodeNested dumps field.2 with
        | error exc => simp [hkey]
        | ok cell =>
            cases hrest : prepareRow dumps columns rest with
            | error exc => simp [hkey, Except.map]
            | ok others => simp [hkey, Except.map]
      · simp [hkey]

private theorem prepareRows_spec {records rows : Records}
    (h : prepareRows dumps columns records = .ok rows) :
    List.Forall₂ (RowPrepared dumps columns) records rows := by
  induction records generalizing rows with
  | nil =>
      cases h
      exact .nil
  | cons record rest ih =>
      unfold prepareRows at h
      cases hrow : prepareRow dumps columns record with
      | error exc => simp [hrow] at h
      | ok row =>
          cases hrest : prepareRows dumps columns rest with
          | error exc => simp [hrow, hrest, Except.map] at h
          | ok others =>
              simp only [hrow, hrest, Except.map, Except.ok.injEq] at h
              subst h
              exact .cons (prepareRow_spec hrow) (ih hrest)

private theorem prepareRows_isOk_iff (records : Records) :
    (∃ rows, prepareRows dumps columns records = .ok rows) ↔
      ∀ record ∈ records, FieldsEncodable dumps columns record := by
  induction records with
  | nil => simp [prepareRows]
  | cons record rest ih =>
      rw [List.forall_mem_cons, ← ih, ← prepareRow_isOk_iff, prepareRows]
      cases hrow : prepareRow dumps columns record with
      | error exc => simp
      | ok row =>
          cases hrest : prepareRows dumps columns rest with
          | error exc => simp [Except.map]
          | ok others => simp [Except.map]

private theorem lookup_eq_none_iff_notMem {row : Fields} {key : String} :
    row.lookup key = none ↔ key ∉ row.map Prod.fst := by
  rw [List.lookup_eq_none_iff, List.mem_map, not_exists]
  refine forall_congr' fun field => ?_
  rw [not_and, bne_iff_ne]
  exact forall_congr' fun _ => ne_comm

private theorem lookup_map_pair (names : List String) (f : String → Value) {name : String}
    (h : name ∈ names) : (names.map fun n => (n, f n)).lookup name = some (f name) := by
  induction names with
  | nil => cases h
  | cons first rest ih =>
      rw [List.map_cons, List.lookup_cons]
      by_cases hfirst : name = first
      · rw [hfirst, beq_self_eq_true]
      · rw [beq_false_of_ne hfirst]
        exact ih (List.mem_of_ne_of_mem hfirst h)

end

/-! ## What is stored -/

section

variable (rt : Runtime) (dumps : Value → Except PyException String) (dialect : Dialect)
  (db : UserDatabase) (schema : Option String) (name : String) (mode : TableMode)
  (create : Bool) (records : Records)

/-- A row shows a record: its fields that are columns, and what the database fills in for
the others. -/
def RowShows (columns : List (String × ColumnType)) (i : Nat) (record row : Fields) : Prop :=
  ∀ column ∈ columns.map Prod.fst, ∃ cell, row.lookup column = some cell ∧
    match record.lookup column with
    | some value => encodeNested dumps value = .ok cell
    | none => cell = dialect.fill columns column i

/-- The rows that a call keeps. -/
def keptRows : List Fields :=
  match mode, db.get? (schema, name) with
  | .append, some table => table.rows
  | _, _ => []

/-- What a call promises: it adds one row for every record, or it raises and changes
nothing. -/
def TableComplete (result : UserDatabase × Except TableFailure Nat) : Prop :=
  match result.2 with
  | .error _ => result.1 = db
  | .ok _ => ∃ table rows, result.1 = db.set (schema, name) table ∧
      table.rows = keptRows db schema name mode ++ rows ∧ rows.length = records.length ∧
      ∀ (i : Nat) (record row : Fields), records[i]? = some record → rows[i]? = some row →
        RowShows dumps dialect table.columns i record row

/-- The call gets through: there is a table to insert into, every field can be encoded,
every record has the columns of the first one, and the database does not object. -/
structure Accepted (table : DbTable) : Prop where
  connects : dialect.connectFails = none
  opened : openTable rt db schema name mode create records = .ok table
  encodable : ∀ record ∈ records, FieldsEncodable dumps table.columnNames record
  covered : ∀ record ∈ records, ∀ column ∈ table.columnNames, column ∈ firstKeys records →
    column ∈ record.map Prod.fst
  inserts : ∀ rows, records ≠ [] → prepareRows dumps table.columnNames records = .ok rows →
    dialect.insertFails table (firstKeys rows) rows = none

/-- No record has a field which is a column and which the first record lacks, unless its
value is what the database fills in. -/
def NothingDropped (columns : List (String × ColumnType)) : Prop :=
  ∀ (i : Nat) (record : Fields), records[i]? = some record → ∀ column ∈ columns.map Prod.fst,
    ∀ value, record.lookup column = some value → column ∈ firstKeys records ∨
      encodeNested dumps value = .ok (dialect.fill columns column i)

end

section

variable {rt : Runtime} {dumps : Value → Except PyException String} {dialect : Dialect}
  {db : UserDatabase} {schema : Option String} {name : String} {mode : TableMode}
  {create : Bool} {records : Records} {table : DbTable}

/-- The columns of the statement are those of the first record. -/
theorem mem_firstKeys_iff {columns : List String} {rows : Records}
    (h : List.Forall₂ (RowPrepared dumps columns) records rows) (key : String) :
    key ∈ firstKeys rows ↔ key ∈ columns ∧ key ∈ firstKeys records := by
  cases h with
  | nil => simp [firstKeys]
  | cons hfirst _ => exact hfirst.keys key

/-- No row lacks a column of the statement if and only if no record lacks a column of the
first one. -/
theorem covered_iff {columns : List String} {rows : Records}
    (h : List.Forall₂ (RowPrepared dumps columns) records rows) :
    (¬ ∃ row ∈ rows, ∃ key ∈ firstKeys rows, row.lookup key = none) ↔
      ∀ record ∈ records, ∀ column ∈ columns, column ∈ firstKeys records →
        column ∈ record.map Prod.fst := by
  have hkeys := mem_firstKeys_iff h
  rw [List.forall₂_iff_get] at h
  constructor
  · intro hall record hrecord column hcolumn hfirst
    rcases List.mem_iff_get.mp hrecord with ⟨i, rfl⟩
    have hi : i.1 < rows.length := h.1 ▸ i.2
    by_contra hnot
    refine hall ⟨_, List.get_mem rows ⟨i.1, hi⟩, column, (hkeys column).mpr ⟨hcolumn, hfirst⟩, ?_⟩
    rw [lookup_eq_none_iff_notMem, (h.2 i.1 i.2 hi).keys]
    exact fun hmem => hnot hmem.2
  · rintro hall ⟨row, hrow, key, hkey, hnone⟩
    rcases List.mem_iff_get.mp hrow with ⟨i, rfl⟩
    have hi : i.1 < records.length := by
      rw [h.1]
      exact i.2
    rcases (hkeys key).mp hkey with ⟨hcolumn, hfirst⟩
    have hmem := hall _ (List.get_mem records ⟨i.1, hi⟩) key hcolumn hfirst
    rw [lookup_eq_none_iff_notMem, (h.2 i.1 hi i.2).keys] at hnone
    exact hnone ⟨hcolumn, hmem⟩

/-- A call that gets through inserts a row for every record. -/
theorem Accepted.transaction (h : Accepted rt dumps dialect db schema name mode create records table) :
    ∃ rows, List.Forall₂ (RowPrepared dumps table.columnNames) records rows ∧
      tableTransaction rt dumps dialect db schema name mode create records =
        .ok (insertedTable dialect table rows) := by
  rcases (prepareRows_isOk_iff records).mpr h.encodable with ⟨rows, hrows⟩
  have hprepared := prepareRows_spec hrows
  refine ⟨rows, hprepared, ?_⟩
  unfold tableTransaction
  simp only [h.connects, h.opened]
  by_cases hnil : records = []
  · subst hnil
    cases hprepared
    simp [insertedTable, insertedRows]
  · rw [if_neg hnil, hrows]
    have hcovered := (covered_iff hprepared).mpr h.covered
    have hinserts := h.inserts rows hnil hrows
    have hinsert : insertRows dialect table rows = .ok (insertedTable dialect table rows) := by
      rw [insertRows, if_neg hcovered, hinserts]
    simp only [hinsert]

/-- A call that returns has got through. -/
theorem accepted_of_transaction {final : DbTable}
    (h : tableTransaction rt dumps dialect db schema name mode create records = .ok final) :
    ∃ table, Accepted rt dumps dialect db schema name mode create records table := by
  unfold tableTransaction at h
  split at h
  · cases h
  · rename_i hconnects
    split at h
    · cases h
    · rename_i table hopened
      refine ⟨table, ?_⟩
      split at h
      · rename_i hnil
        subst hnil
        exact ⟨hconnects, hopened, nofun, nofun, fun _ hne => absurd rfl hne⟩
      · split at h
        · cases h
        · rename_i rows hrows
          have hprepared := prepareRows_spec hrows
          have hencodable := (prepareRows_isOk_iff records).mp ⟨rows, hrows⟩
          split at h
          · cases h
          · rename_i inserted hinsert
            unfold insertRows at hinsert
            split at hinsert
            · cases hinsert
            · rename_i hcovered
              refine ⟨hconnects, hopened, hencodable, (covered_iff hprepared).mp hcovered, ?_⟩
              intro rows' _ hrows'
              rw [hrows, Except.ok.injEq] at hrows'
              subst hrows'
              split at hinsert
              · cases hinsert
              · rename_i hnone
                exact hnone

/-- The call returns exactly if it gets through. -/
theorem writeTable_isOk_iff :
    (∃ n, (writeTable rt dumps dialect db schema name mode create records).2 = .ok n) ↔
      ∃ table, Accepted rt dumps dialect db schema name mode create records table := by
  unfold writeTable
  constructor
  · rintro ⟨n, hok⟩
    cases htransaction : tableTransaction rt dumps dialect db schema name mode create records with
    | error failure => simp [htransaction] at hok
    | ok final => exact accepted_of_transaction htransaction
  · rintro ⟨table, haccepted⟩
    rcases haccepted.transaction with ⟨rows, _, htransaction⟩
    exact ⟨records.length, by rw [htransaction]⟩

/-- An inserted row shows its record exactly if no field is dropped. -/
theorem rowShows_insertedRow_iff {rows : Records} {record row : Fields} (i : Nat)
    (hrows : List.Forall₂ (RowPrepared dumps table.columnNames) records rows)
    (hrow : RowPrepared dumps table.columnNames record row)
    (hcovered : ∀ column ∈ table.columnNames, column ∈ firstKeys records →
      column ∈ record.map Prod.fst) :
    RowShows dumps dialect table.columns i record
        (insertedRow dialect table (firstKeys rows) i row) ↔
      ∀ column ∈ table.columnNames, ∀ value, record.lookup column = some value →
        column ∈ firstKeys records ∨
          encodeNested dumps value = .ok (dialect.fill table.columns column i) := by
  refine forall₂_congr fun column hcolumn => ?_
  have hlookup := lookup_map_pair table.columnNames (fun column =>
    if column ∈ firstKeys rows then fieldOrNone row column
    else dialect.fill table.columns column i) hcolumn
  change (∃ cell, (List.map _ table.columnNames).lookup column = some cell ∧ _) ↔ _
  rw [hlookup]
  simp only [Option.some.injEq, exists_eq_left']
  have hkeys := mem_firstKeys_iff hrows column
  by_cases hfirst : column ∈ firstKeys records
  · rw [if_pos (hkeys.mpr ⟨hcolumn, hfirst⟩)]
    have hfound : record.lookup column ≠ none := by
      rw [ne_eq, lookup_eq_none_iff_notMem, not_not]
      exact hcovered column hcolumn hfirst
    cases hvalue : record.lookup column with
    | none => exact absurd hvalue hfound
    | some value =>
        rcases hrow.cells column hcolumn value hvalue with ⟨cell, hcell, hstored⟩
        simp [hcell, fieldOrNone, hstored, hfirst]
  · rw [if_neg fun hmem => hfirst (hkeys.mp hmem).2]
    cases hvalue : record.lookup column with
    | none => simp
    | some value => simp [hfirst]

end

/-- What a call keeps is what the table holds before the rows are inserted. -/
theorem openTable_rows {rt : Runtime} {db : UserDatabase} {schema : Option String} {name : String}
    {mode : TableMode} {create : Bool} {records : Records} {table : DbTable}
    (h : openTable rt db schema name mode create records = .ok table) :
    table.rows = keptRows db schema name mode := by
  unfold openTable at h
  unfold keptRows
  split at h
  · rename_i stored hstored
    rw [hstored]
    split at h
    · cases h
      rfl
    · cases h
      rfl
  · rename_i hmissing
    rw [hmissing]
    dsimp only at h
    split at h
    · cases h
    · split at h
      · cases h
      · cases h
        cases mode <;> rfl

section

variable {rt : Runtime} {dumps : Value → Except PyException String} {dialect : Dialect}
  {db : UserDatabase} {schema : Option String} {name : String} {mode : TableMode}
  {create : Bool} {records : Records} {table : DbTable}

/-- There is one table to insert into. -/
theorem Accepted.unique {other : DbTable}
    (h : Accepted rt dumps dialect db schema name mode create records table)
    (hother : Accepted rt dumps dialect db schema name mode create records other) :
    other = table := by
  have hsame := hother.opened
  rw [h.opened, Except.ok.injEq] at hsame
  exact hsame.symm

/-- The inserted rows, record by record. -/
theorem Accepted.rowShows_iff {rows : Records}
    (h : Accepted rt dumps dialect db schema name mode create records table)
    (hrows : List.Forall₂ (RowPrepared dumps table.columnNames) records rows)
    {i : Nat} {record row : Fields} (hrecord : records[i]? = some record)
    (hrow : (insertedRows dialect table rows)[i]? = some row) :
    RowShows dumps dialect table.columns i record row ↔
      ∀ column ∈ table.columnNames, ∀ value, record.lookup column = some value →
        column ∈ firstKeys records ∨
          encodeNested dumps value = .ok (dialect.fill table.columns column i) := by
  rw [insertedRows, List.getElem?_mapIdx, Option.map_eq_some_iff] at hrow
  rcases hrow with ⟨prepared, hprepared, rfl⟩
  rcases List.getElem?_eq_some_iff.mp hrecord with ⟨hi, rfl⟩
  rcases List.getElem?_eq_some_iff.mp hprepared with ⟨hi', rfl⟩
  exact rowShows_insertedRow_iff i hrows
    ((List.forall₂_iff_get.mp hrows).2 i hi hi') (h.covered _ (List.getElem_mem hi))

/-- A call that gets through stores every field exactly if no field is dropped. -/
theorem Accepted.complete_iff
    (h : Accepted rt dumps dialect db schema name mode create records table) :
    TableComplete dumps dialect db schema name mode records
        (writeTable rt dumps dialect db schema name mode create records) ↔
      NothingDropped dumps dialect records table.columns := by
  rcases h.transaction with ⟨rows, hrows, htransaction⟩
  have hlength := hrows.length_eq
  have hkept := openTable_rows h.opened
  rw [writeTable, htransaction]
  constructor
  · rintro ⟨stored, added, hdb, hadded, _, hall⟩
    have hsame : stored = insertedTable dialect table rows := by
      have hget := congrArg (fun d => d.get? (schema, name)) hdb
      simp only [OrderedDict.get?_set_self, Option.some.injEq] at hget
      exact hget.symm
    subst hsame
    rw [← hkept] at hadded
    have hinserted : insertedRows dialect table rows = added := List.append_cancel_left hadded
    subst hinserted
    intro i record hrecord
    rcases List.getElem?_eq_some_iff.mp hrecord with ⟨hi, _⟩
    have hi' : i < (insertedRows dialect table rows).length := by
      simpa [insertedRows, ← hlength] using hi
    have hrow := List.getElem?_eq_getElem hi'
    exact (h.rowShows_iff hrows hrecord hrow).mp (hall i record _ hrecord hrow)
  · intro hnothing
    refine ⟨_, insertedRows dialect table rows, rfl, ?_, ?_, ?_⟩
    · rw [← hkept]
      rfl
    · simp [insertedRows, hlength]
    · intro i record row hrecord hrow
      exact (h.rowShows_iff hrows hrecord hrow).mpr (hnothing i record hrecord)

end

/-- A call raises and changes nothing, or it stores every field of every record, if and
only if it raises or no later record has a field that the first one lacks. -/
theorem table_complete_iff (rt : Runtime) (dumps : Value → Except PyException String)
    (dialect : Dialect) (db : UserDatabase) (schema : Option String) (name : String)
    (mode : TableMode) (create : Bool) (records : Records) :
    TableComplete dumps dialect db schema name mode records
        (writeTable rt dumps dialect db schema name mode create records) ↔
      ∀ table, Accepted rt dumps dialect db schema name mode create records table →
        NothingDropped dumps dialect records table.columns := by
  cases htransaction : tableTransaction rt dumps dialect db schema name mode create records with
  | error failure =>
      have hcomplete : TableComplete dumps dialect db schema name mode records
          (writeTable rt dumps dialect db schema name mode create records) := by
        simp [writeTable, htransaction, TableComplete]
      refine iff_of_true hcomplete fun table haccepted => ?_
      rcases haccepted.transaction with ⟨rows, _, hok⟩
      rw [htransaction] at hok
      cases hok
  | ok final =>
      rcases accepted_of_transaction htransaction with ⟨table, haccepted⟩
      rw [haccepted.complete_iff]
      constructor
      · intro hnothing other hother
        rw [haccepted.unique hother]
        exact hnothing
      · exact fun hall => hall table haccepted

/-! ## Two records with different keys -/

namespace Samples

/-- A database that fills in null and refuses nothing. -/
def plainDialect : Dialect where
  fill := fun _ _ _ => .none
  connectFails := none
  insertFails := fun _ _ _ => none

/-- JSON text of nested values, of which the records below have none. -/
def scalarDumps : Value → Except PyException String :=
  fun _ => .error intConversionError

/-- The second record has a field that the first one lacks. -/
def widening : Records :=
  [[("a", .int 1)], [("a", .int 2), ("b", .int 3)]]

/-- The records are written to a table that is created from them. -/
def widened : UserDatabase × Except TableFailure Nat :=
  writeTable runtime scalarDumps plainDialect .empty none "t" .append true widening

end Samples

open Samples

/-- The call creates a column for the field, returns, and leaves the column null. -/
theorem field_dropped :
    widened.2 = .ok 2 ∧
      widened.1.get? (none, "t") = some ⟨[("a", .bigInteger), ("b", .bigInteger)],
        [[("a", .int 1), ("b", .none)], [("a", .int 2), ("b", .none)]]⟩ ∧
      ¬ TableComplete scalarDumps plainDialect .empty none "t" .append widening widened := by
  have hok : widened.2 = .ok 2 := by decide +kernel
  have hstored : widened.1.get? (none, "t") = some ⟨[("a", .bigInteger), ("b", .bigInteger)],
      [[("a", .int 1), ("b", .none)], [("a", .int 2), ("b", .none)]]⟩ := by
    decide +kernel
  refine ⟨hok, hstored, fun hcomplete => ?_⟩
  simp only [TableComplete, hok] at hcomplete
  rcases hcomplete with ⟨table, rows, hdb, hrows, _, hshows⟩
  rw [hdb, OrderedDict.get?_set_self, Option.some.injEq] at hstored
  subst hstored
  have hadded : rows = [[("a", .int 1), ("b", .none)], [("a", .int 2), ("b", .none)]] := hrows.symm
  subst hadded
  rcases hshows 1 _ _ rfl rfl "b" (by decide) with ⟨cell, hcell, hencoded⟩
  cases hcell
  cases hencoded

end EtlTool
