import EtlTool.Core.FileIo
import EtlTool.Engine.Samples

/-!
# Source nodes

The three nodes that bring records into a pipeline: from an API page by page, from the
rows of a query, and from a file.  Each of them makes records of what it gets in its own
way.  API bodies and JSON files are parsed, and the values of a row are coerced one by
one, but the cells of a tabular file are passed on as they are.

Main results:

- Theorem {lit}`jsonifyValue_isJson`: coerced values are JSON values.
- Theorem {lit}`fetchPages_isJson`: the records of an API are JSON values.
- Theorem {lit}`source_records_json_iff`: the records of a source are JSON values, unless
  it reads a tabular file with a cell of a type that JSON does not have.
- Theorem {lit}`date_in_record`: a record with a date.

Current gaps:

- What decides whether a source gets to its first request: the URL, the host check and
  the credential.
- The categories of database exceptions.
-/

namespace EtlTool

/-! ## JSON values -/

mutual

/-- A JSON value: nothing in it is a foreign object. -/
def Value.isJson : Value → Bool
  | .foreign _ _ _ => false
  | .list items => itemsAreJson items
  | .dict fields => fieldsAreJson fields
  | _ => true

/-- Every item is a JSON value. -/
def Value.itemsAreJson : List Value → Bool
  | [] => true
  | value :: rest => value.isJson && itemsAreJson rest

/-- Every field is a JSON value. -/
def Value.fieldsAreJson : Fields → Bool
  | [] => true
  | (_, value) :: rest => value.isJson && fieldsAreJson rest

end

theorem itemsAreJson_iff (items : List Value) :
    Value.itemsAreJson items = true ↔ ∀ value ∈ items, value.isJson = true := by
  induction items with
  | nil => simp [Value.itemsAreJson]
  | cons value rest ih => simp [Value.itemsAreJson, ih]

theorem fieldsAreJson_iff (fields : Fields) :
    Value.fieldsAreJson fields = true ↔ ∀ field ∈ fields, field.2.isJson = true := by
  induction fields with
  | nil => simp [Value.fieldsAreJson]
  | cons field rest ih => simp [Value.fieldsAreJson, ih]

/-- {lit}`bool(value)`. -/
def Value.truthy : Value → Bool
  | .none => false
  | .bool b => b
  | .int z => z ≠ 0
  | .float x => x ≠ .finite 0
  | .str s => s ≠ ""
  | .list items => !items.isEmpty
  | .dict fields => !fields.isEmpty
  | .foreign _ _ _ => true

/-! ## Records of an API -/

/-- {lit}`PaginationConfig.type`. -/
inductive PaginationType where
  | cursor
  | offset
  | page
deriving DecidableEq

/-- {lit}`PaginationConfig`.  Cursor pagination has a path and a parameter. -/
structure PaginationConfig where
  type : PaginationType
  itemsPath : Option String := none
  cursorPath : String := ""
  cursorParam : String := ""
  offsetParam : String := "offset"
  limitParam : Option String := none
  limit : Option Nat := none
  pageParam : String := "page"
  startPage : Int := 1
  pageSize : Option Nat := none
  maxPages : Nat := 100
  maxPages_pos : 1 ≤ maxPages := by decide

/-- What {lit}`ApiSourceConfig` says about the pages. -/
structure ApiSourceConfig where
  method : String := "GET"
  queryParams : OrderedDict String Value := .empty
  pagination : Option PaginationConfig := none
  itemsPath : Option String := none

/-- {lit}`RequestFailure`. -/
structure RequestFailure where
  category : ErrorCategory
  message : String
  httpStatus : Option Int
  attempts : Int

/-- A response: its status, whether it has a body, and what {lit}`response.json()` makes
of it. -/
structure HttpResponse where
  statusCode : Int
  hasContent : Bool
  json : Except PyException Value

/-- The HTTP client as the node uses it. -/
structure HttpExchange where
  /-- What happens before the first request. -/
  preflight : Except Raised Unit
  /-- {lit}`request_with_retry` with these query parameters. -/
  request : OrderedDict String Value → Except RequestFailure HttpResponse
  /-- {lit}`request_summary` of the URL with these query parameters. -/
  summary : OrderedDict String Value → String

/-- {lit}`NodeContext.error` with the fields of a request. -/
def NodeContext.requestError (ctx : NodeContext) (category : ErrorCategory) (message : String)
    (httpStatus : Option Int) (summary : String) (attempts : Int) : Raised :=
  .node { ctx.error category message with
    httpStatus := httpStatus
    requestSummary := if summary = "" then none else some (ctx.run.redactor.redact summary)
    attempts := attempts }

/-- {lit}`_request_json`: the body, and the summary of the request. -/
def requestJson (ctx : NodeContext) (http : HttpExchange) (method : String)
    (params : OrderedDict String Value) : Except Raised (Value × String) :=
  let summary := http.summary params
  match http.request params with
  | .error failure =>
      .error (ctx.requestError failure.category failure.message failure.httpStatus summary
        failure.attempts)
  | .ok response =>
      if method = "HEAD" ∨ response.statusCode = 204 ∨ response.hasContent = false then
        .ok (.none, summary)
      else
        match response.json with
        | .ok data => .ok (data, summary)
        | .error exc =>
            if exc.isValueError then
              .error (ctx.requestError .validation
                ("response body is not valid JSON: " ++ exc.message)
                (some response.statusCode) summary 1)
            else .error (.other exc)

/-- {lit}`_to_records`. -/
def toRecords (rt : Runtime) (ctx : NodeContext) (data : Value) (itemsPath : Option String)
    (summary : String) : Except Raised Records :=
  if data = .none then .ok []
  else
    match itemsPath with
    | none => .ok ((listItems data).map coerceItem)
    | some "" => .ok ((listItems data).map coerceItem)
    | some path =>
        match rt.getPath? data (splitPath path) with
        | .error exc => .error (.other exc)
        | .ok none =>
            .error (ctx.requestError .validation
              ("items_path " ++ rt.reprStr path ++ " not found in response") none summary 1)
        | .ok (some data) => .ok ((listItems data).map coerceItem)

/-- {lit}`params[key] = int(params[key]) + n` for a counter that the node has set. -/
def advanceParam (params : OrderedDict String Value) (key : String) (n : Int) :
    Except Raised (OrderedDict String Value) :=
  match params.get? key with
  | some (.int z) => .ok (params.set key (.int (z + n)))
  | _ => .error (.other intConversionError)

/-- The parameters of the next page, if there is one. -/
def nextPage (rt : Runtime) (pagination : PaginationConfig) (data : Value) (items : Records)
    (params : OrderedDict String Value) : Except Raised (Option (OrderedDict String Value)) :=
  match pagination.type with
  | .cursor =>
      match rt.getPath? data (splitPath pagination.cursorPath) with
      | .error exc => .error (.other exc)
      | .ok none => .ok none
      | .ok (some cursor) =>
          if cursor.truthy then .ok (some (params.set pagination.cursorParam cursor)) else .ok none
  | .offset =>
      if items = [] ∨ pagination.limit.any fun limit => decide (items.length < limit) then .ok none
      else (advanceParam params pagination.offsetParam items.length).map some
  | .page =>
      if items = [] ∨ pagination.pageSize.any fun size => decide (items.length < size) then .ok none
      else (advanceParam params pagination.pageParam 1).map some

/-- The loop of {lit}`_fetch_all`, with the number of pages that may follow. -/
def fetchPages (rt : Runtime) (ctx : NodeContext) (http : HttpExchange) (cfg : ApiSourceConfig)
    (itemsPath : Option String) (left : Nat) (records : Records)
    (params : OrderedDict String Value) : Except Raised Records :=
  match requestJson ctx http cfg.method params with
  | .error raised => .error raised
  | .ok (data, summary) =>
      match toRecords rt ctx data itemsPath summary with
      | .error raised => .error raised
      | .ok items =>
          match cfg.pagination with
          | none => .ok (records ++ items)
          | some pagination =>
              match nextPage rt pagination data items params with
              | .error raised => .error raised
              | .ok none => .ok (records ++ items)
              | .ok (some params) =>
                  match left with
                  | 0 => .ok (records ++ items)
                  | left + 1 => fetchPages rt ctx http cfg itemsPath left (records ++ items) params

/-- The parameters of the first page. -/
def firstPage (cfg : ApiSourceConfig) : OrderedDict String Value :=
  match cfg.pagination with
  | none => cfg.queryParams
  | some pagination =>
      match pagination.type with
      | .cursor => cfg.queryParams
      | .offset =>
          let params := cfg.queryParams.set pagination.offsetParam (.int 0)
          match pagination.limitParam, pagination.limit with
          | some limitParam, some limit =>
              if limitParam = "" then params else params.set limitParam (.int limit)
          | _, _ => params
      | .page => cfg.queryParams.set pagination.pageParam (.int pagination.startPage)

/-- {lit}`(pagination.items_path if pagination else None) or cfg.items_path`. -/
def ApiSourceConfig.recordsPath (cfg : ApiSourceConfig) : Option String :=
  match cfg.pagination.bind PaginationConfig.itemsPath with
  | none => cfg.itemsPath
  | some "" => cfg.itemsPath
  | some path => some path

/-- {lit}`ApiSourceNode.run`. -/
def apiSource (rt : Runtime) (ctx : NodeContext) (http : HttpExchange) (cfg : ApiSourceConfig) :
    Except Raised Records :=
  match http.preflight with
  | .error raised => .error raised
  | .ok () =>
      let maxPages := (cfg.pagination.map PaginationConfig.maxPages).getD 1
      fetchPages rt ctx http cfg cfg.recordsPath (maxPages - 1) [] (firstPage cfg)

/-! ## Records of a query -/

/-- A value of a row. -/
inductive DbValue where
  | none
  | bool (b : Bool)
  | int (z : Int)
  | float (x : PyFloat)
  | str (s : String)
  /-- A {lit}`Decimal`, with the nearest float. -/
  | decimal (nearest : PyFloat)
  /-- A datetime, a date or a time. -/
  | temporal (isoformat : String)
  | uuid (text : String)
  | bytes (bytes : List UInt8)
  | list (items : List DbValue)
  | dict (fields : List (String × DbValue))
  | other (text : String)

mutual

/-- {lit}`jsonify_value`. -/
def jsonifyValue : DbValue → Value
  | .none => .none
  | .bool b => .bool b
  | .int z => .int z
  | .float x => .float x
  | .str s => .str s
  | .decimal nearest => .float nearest
  | .temporal isoformat => .str isoformat
  | .uuid text => .str text
  | .bytes bytes => .str (String.ofList (base64Bytes bytes))
  | .list items => .list (jsonifyItems items)
  | .dict fields => .dict (OrderedDict.ofList (jsonifyFields fields)).entries
  | .other text => .str text

/-- {lit}`[jsonify_value(item) for item in value]`. -/
def jsonifyItems : List DbValue → List Value
  | [] => []
  | value :: rest => jsonifyValue value :: jsonifyItems rest

/-- The entries of a dict, with {lit}`str(key)` and {lit}`jsonify_value(item)`. -/
def jsonifyFields : List (String × DbValue) → Fields
  | [] => []
  | (key, value) :: rest => (key, jsonifyValue value) :: jsonifyFields rest

end

/-- {lit}`_row_to_record`. -/
def rowToRecord (row : List (String × DbValue)) : Fields :=
  (OrderedDict.ofList (jsonifyFields row)).entries

/-- {lit}`DbSourceConfig`. -/
structure DbSourceConfig where
  query : String
  params : OrderedDict String Value := .empty
  limit : Option Nat := none

/-- The database as the node uses it. -/
structure QueryRunner where
  /-- What happens before the query. -/
  preflight : Except Raised Unit
  /-- The rows of a statement, {lean}`none` if it returns none. -/
  execute : String → OrderedDict String Value →
    Except PyException (Option (List (List (String × DbValue))))
  /-- {lit}`categorize_db_exception`. -/
  categorize : PyException → ErrorCategory × String
  /-- {lit}`endpoint_summary`. -/
  summary : String

/-- {lit}`run_query`. -/
def runQuery (database : QueryRunner) (cfg : DbSourceConfig) : Except PyException Records :=
  (database.execute cfg.query cfg.params).map fun result =>
    match result, cfg.limit with
    | none, _ => []
    | some rows, none => rows.map rowToRecord
    | some rows, some limit => (rows.take limit).map rowToRecord

/-- {lit}`DbSourceNode.run`. -/
def dbSource (ctx : NodeContext) (database : QueryRunner) (cfg : DbSourceConfig) :
    Except Raised Records :=
  match database.preflight with
  | .error raised => .error raised
  | .ok () =>
      match runQuery database cfg with
      | .ok records => .ok records
      | .error exc =>
          let category := database.categorize exc
          .error (ctx.requestError category.1 ("query failed: " ++ category.2) none
            database.summary 1)

/-! ## Records of a file -/

/-- {lit}`FileSourceConfig`; the format is {lean}`none` for {lit}`auto`. -/
structure FileSourceConfig where
  path : String
  format : Option FileFormat := none
  options : ReadOptions := {}

/-- The files as the node sees them. -/
structure FileSystem where
  /-- {lit}`file_policy.resolve`. -/
  resolve : String → Except FileFailure String
  content : String → Option Content

/-- {lit}`Path(path).suffix`. -/
def pathSuffix (path : String) : String :=
  let parts := (path.toList.splitOn '/').filter fun part => part ≠ [] ∧ part ≠ ['.']
  let name := parts.getLastD []
  let stem := name.reverse.dropWhile fun c => c ≠ '.'
  let extension := name.drop (stem.length - 1)
  if stem.length ≤ 1 ∨ extension.length ≤ 1 then "" else String.ofList extension

/-- {lit}`infer_format`. -/
def inferFormat (rt : Runtime) (path : String) : Except FileFailure FileFormat :=
  match (pathSuffix path).toLower with
  | ".csv" => .ok .csv
  | ".json" => .ok .json
  | ".jsonl" => .ok .jsonl
  | ".ndjson" => .ok .jsonl
  | ".parquet" => .ok .parquet
  | ".pq" => .ok .parquet
  | _ => .error (.format ("cannot infer format from path " ++ rt.reprStr path ++
      "; set 'format' explicitly (one of csv, json, jsonl, parquet)"))

/-- The format of a file source. -/
def FileSourceConfig.fileFormat (rt : Runtime) (cfg : FileSourceConfig) :
    Except FileFailure FileFormat :=
  match cfg.format with
  | none => inferFormat rt cfg.path
  | some fmt => .ok fmt

/-- The error of a file failure, with the category that the node gives to unreadable
content. -/
def fileError (ctx : NodeContext) (unreadable : ErrorCategory) : FileFailure → Raised
  | .access message => .node (ctx.error .config message)
  | .format message => .node (ctx.error unreadable message)
  | .other exc => .other exc

/-- {lit}`FileSourceNode.run`. -/
def fileSource (rt : Runtime) (ctx : NodeContext) (libs : FileLibraries) (files : FileSystem)
    (cfg : FileSourceConfig) : Except Raised Records :=
  match cfg.fileFormat rt with
  | .error failure => .error (fileError ctx .config failure)
  | .ok fmt =>
      match files.resolve cfg.path with
      | .error failure => .error (fileError ctx .config failure)
      | .ok path =>
          match readRecords rt libs path fmt cfg.options (files.content path) with
          | .error failure => .error (fileError ctx .validation failure)
          | .ok records => .ok records

/-! ## What parsing and coercion make -/

theorem exceptMap_eq_ok {ε α β : Type} {x : Except ε α} {f : α → β} {b : β}
    (h : x.map f = .ok b) : ∃ a, x = .ok a ∧ f a = b := by
  cases x with
  | error exc => cases h
  | ok a => exact ⟨a, rfl, Except.ok.inj h⟩

private theorem coerceItem_isJson {item : Value} (h : item.isJson = true) :
    (Value.dict (coerceItem item)).isJson = true := by
  cases item with
  | dict fields => exact h
  | _ => exact (fieldsAreJson_iff _).mpr (List.forall_mem_singleton.mpr h)

private theorem listItems_isJson {data : Value} (h : data.isJson = true) :
    ∀ item ∈ listItems data, item.isJson = true := by
  cases data with
  | list items => exact (itemsAreJson_iff items).mp h
  | _ => exact List.forall_mem_singleton.mpr h

private theorem records_isJson {data : Value} (h : data.isJson = true) :
    ∀ record ∈ (listItems data).map coerceItem, (Value.dict record).isJson = true := by
  intro record hrecord
  rcases List.mem_map.mp hrecord with ⟨item, hitem, rfl⟩
  exact coerceItem_isJson (listItems_isJson h item hitem)

/-- The members of a JSON value are JSON values. -/
theorem hereditary_isJson : Value.Hereditary fun value => value.isJson = true where
  dict := fun fields => (fieldsAreJson_iff fields).mp
  list := fun items => (itemsAreJson_iff items).mp

private theorem getPath?_isJson {rt : Runtime} {data value : Value} {segments : List String}
    (h : data.isJson = true) (hpath : rt.getPath? data segments = .ok (some value)) :
    value.isJson = true := by
  unfold Runtime.getPath? at hpath
  split at hpath
  · rename_i found hwalk
    cases hpath
    exact hereditary_isJson.walk h hwalk
  · cases hpath
  · cases hpath

private theorem getPath_isJson {rt : Runtime} {data value : Value} {segments : List String}
    (h : data.isJson = true) (hpath : rt.getPath data segments = .ok value) :
    value.isJson = true := by
  unfold Runtime.getPath at hpath
  split at hpath
  · rename_i found hwalk
    cases hpath
    exact hereditary_isJson.walk h hwalk
  · cases hpath
  · cases hpath

/-- A dict that is built from JSON values is one. -/
theorem dictOf_isJson {fields : Fields} (h : ∀ field ∈ fields, field.2.isJson = true) :
    (Value.dict (OrderedDict.ofList fields).entries).isJson = true := by
  refine (fieldsAreJson_iff _).mpr fun field hfield => ?_
  have hget := (OrderedDict.get?_eq_some_iff (OrderedDict.ofList fields) field.1 field.2).mpr hfield
  exact h _ (OrderedDict.mem_of_get?_ofList hget)

mutual

/-- Coerced values are JSON values. -/
theorem jsonifyValue_isJson : ∀ value : DbValue, (jsonifyValue value).isJson = true
  | .none => rfl
  | .bool _ => rfl
  | .int _ => rfl
  | .float _ => rfl
  | .str _ => rfl
  | .decimal _ => rfl
  | .temporal _ => rfl
  | .uuid _ => rfl
  | .bytes _ => rfl
  | .other _ => rfl
  | .list items => (itemsAreJson_iff _).mpr (jsonifyItems_isJson items)
  | .dict fields => dictOf_isJson (jsonifyFields_isJson fields)

private theorem jsonifyItems_isJson : ∀ items : List DbValue,
    ∀ value ∈ jsonifyItems items, value.isJson = true
  | [] => nofun
  | item :: rest => List.forall_mem_cons.mpr ⟨jsonifyValue_isJson item, jsonifyItems_isJson rest⟩

private theorem jsonifyFields_isJson : ∀ fields : List (String × DbValue),
    ∀ field ∈ jsonifyFields fields, field.2.isJson = true
  | [] => nofun
  | (_, value) :: rest =>
      List.forall_mem_cons.mpr ⟨jsonifyValue_isJson value, jsonifyFields_isJson rest⟩

end

/-! ## What the sources emit -/

/-- The records are JSON values. -/
def AllJson (records : Records) : Prop :=
  ∀ record ∈ records, (Value.dict record).isJson = true

private theorem allJson_nil : AllJson [] := nofun

/-- The bodies that the client parses are JSON values. -/
def HttpExchange.ParsesJson (http : HttpExchange) : Prop :=
  ∀ params response data, http.request params = .ok response → response.json = .ok data →
    data.isJson = true

/-- The texts that the JSON module parses are JSON values. -/
def FileLibraries.ParsesJson (libs : FileLibraries) : Prop :=
  ∀ text data, libs.loads text = .ok data → data.isJson = true

section

variable {rt : Runtime} {ctx : NodeContext} {http : HttpExchange} {libs : FileLibraries}

private theorem requestJson_isJson (hjson : http.ParsesJson) {method summary : String}
    {params : OrderedDict String Value} {data : Value}
    (h : requestJson ctx http method params = .ok (data, summary)) : data.isJson = true := by
  unfold requestJson at h
  dsimp only at h
  split at h
  · cases h
  · rename_i response hresponse
    split at h
    · cases h
      rfl
    · split at h
      · rename_i parsed hparsed
        cases h
        exact hjson params response data hresponse hparsed
      · split at h <;> cases h

private theorem toRecords_isJson {data : Value} {itemsPath : Option String} {summary : String}
    {items : Records} (hdata : data.isJson = true)
    (h : toRecords rt ctx data itemsPath summary = .ok items) : AllJson items := by
  unfold toRecords at h
  split at h
  · cases h
    exact nofun
  · split at h
    · cases h
      exact records_isJson hdata
    · cases h
      exact records_isJson hdata
    · split at h
      · cases h
      · cases h
      · rename_i found hfound
        cases h
        exact records_isJson (getPath?_isJson hdata hfound)

/-- A call of the page loop ends with the items of one page, or goes on with them. -/
theorem fetchPages_cases {cfg : ApiSourceConfig} {itemsPath : Option String} {left : Nat}
    {before records : Records} {params : OrderedDict String Value}
    (h : fetchPages rt ctx http cfg itemsPath left before params = .ok records) :
    ∃ data summary items, requestJson ctx http cfg.method params = .ok (data, summary) ∧
      toRecords rt ctx data itemsPath summary = .ok items ∧
      (records = before ++ items ∨ ∃ left' params', left = left' + 1 ∧
        fetchPages rt ctx http cfg itemsPath left' (before ++ items) params' = .ok records) := by
  unfold fetchPages at h
  split at h
  · cases h
  · rename_i data summary hdata
    split at h
    · cases h
    · rename_i items hitems
      refine ⟨data, summary, items, hdata, hitems, ?_⟩
      split at h
      · exact .inl (Except.ok.inj h).symm
      · split at h
        · cases h
        · exact .inl (Except.ok.inj h).symm
        · rename_i next _
          cases left with
          | zero => exact .inl (Except.ok.inj h).symm
          | succ left => exact .inr ⟨left, next, rfl, h⟩

/-- The records of an API are JSON values: every page adds such records. -/
theorem fetchPages_isJson (hjson : http.ParsesJson) (cfg : ApiSourceConfig)
    (itemsPath : Option String) (left : Nat) :
    ∀ {before records : Records} {params : OrderedDict String Value}, AllJson before →
      fetchPages rt ctx http cfg itemsPath left before params = .ok records → AllJson records := by
  induction left with
  | zero =>
      intro before records params hbefore h
      rcases fetchPages_cases h with ⟨data, summary, items, hdata, hitems, rfl | ⟨_, _, hleft, _⟩⟩
      · exact List.forall_mem_append.mpr
          ⟨hbefore, toRecords_isJson (requestJson_isJson hjson hdata) hitems⟩
      · cases hleft
  | succ left ih =>
      intro before records params hbefore h
      rcases fetchPages_cases h with ⟨data, summary, items, hdata, hitems, hnext⟩
      have hall : AllJson (before ++ items) := List.forall_mem_append.mpr
        ⟨hbefore, toRecords_isJson (requestJson_isJson hjson hdata) hitems⟩
      rcases hnext with rfl | ⟨left', params', hleft, hrest⟩
      · exact hall
      · cases hleft
        exact ih hall hrest

private theorem apiSource_isJson (hjson : http.ParsesJson) {cfg : ApiSourceConfig}
    {records : Records}
    (h : apiSource rt ctx http cfg = .ok records) : AllJson records := by
  unfold apiSource at h
  split at h
  · cases h
  · exact fetchPages_isJson hjson cfg _ _ allJson_nil h

private theorem rowToRecord_isJson (row : List (String × DbValue)) :
    (Value.dict (rowToRecord row)).isJson = true :=
  dictOf_isJson (jsonifyFields_isJson row)

private theorem dbSource_isJson {database : QueryRunner} {cfg : DbSourceConfig} {records : Records}
    (h : dbSource ctx database cfg = .ok records) : AllJson records := by
  unfold dbSource at h
  split at h
  · cases h
  · split at h
    · rename_i found hquery
      cases h
      unfold runQuery at hquery
      cases hexecute : database.execute cfg.query cfg.params with
      | error exc => simp [hexecute, Except.map] at hquery
      | ok result =>
          simp only [hexecute, Except.map, Except.ok.injEq] at hquery
          subst hquery
          intro record hrecord
          split at hrecord
          · cases hrecord
          · rcases List.mem_map.mp hrecord with ⟨row, _, rfl⟩
            exact rowToRecord_isJson row
          · rcases List.mem_map.mp hrecord with ⟨row, _, rfl⟩
            exact rowToRecord_isJson row
    · cases h

private theorem selectRecords_isJson {path : String} {recordsPath : Option String}
    {data value : Value}
    (hdata : data.isJson = true) (h : selectRecords rt path recordsPath data = .ok value) :
    value.isJson = true := by
  unfold selectRecords at h
  split at h
  · cases h
    exact hdata
  · cases h
    exact hdata
  · split at h
    · rename_i hpath
      cases h
      exact getPath_isJson hdata hpath
    · cases h
    · cases h

private theorem readJson_isJson (hjson : libs.ParsesJson) {path : String}
    {recordsPath : Option String}
    {limit : Option Nat} {content : Content} {records : Records}
    (h : readJson rt libs path recordsPath limit content = .ok records) : AllJson records := by
  unfold readJson at h
  split at h
  · split at h <;> cases h
  · rename_i data hloaded
    have hdata : data.isJson = true := by
      cases content with
      | text text => exact hjson _ _ hloaded
      | binary bytes => cases hloaded
    split at h
    · cases h
    · rename_i value hselected
      have hall := records_isJson (selectRecords_isJson hdata hselected)
      dsimp only at h
      split at h
      · cases h
        exact hall
      · cases h
        exact fun record hrecord => hall record (List.mem_of_mem_take hrecord)

private theorem readJsonLines_isJson (hjson : libs.ParsesJson) {path : String} {limit : Option Nat}
    {lines : List (List Char)} : ∀ {lineNo : Nat} {before records : Records}, AllJson before →
      readJsonLines libs path limit lineNo before lines = .ok records → AllJson records := by
  induction lines with
  | nil =>
      intro lineNo before records hbefore h
      cases h
      exact hbefore
  | cons line rest ih =>
      intro lineNo before records hbefore h
      unfold readJsonLines at h
      dsimp only at h
      split at h
      · exact ih hbefore h
      · split at h
        · split at h <;> cases h
        · rename_i item hloaded
          have hall : AllJson (before ++ [coerceItem item]) := List.forall_mem_append.mpr
            ⟨hbefore, List.forall_mem_singleton.mpr (coerceItem_isJson (hjson _ _ hloaded))⟩
          split at h
          · cases h
            exact hall
          · exact ih hall h

end

/-! ## Tabular files -/

mutual

/-- A cell has a type that JSON has. -/
def Cell.plain : Cell → Bool
  | .foreign _ _ _ => false
  | .list items => itemsPlain items
  | .struct fields => fieldsPlain fields
  | _ => true

/-- Every item of a list has such a type. -/
def Cell.itemsPlain : List Cell → Bool
  | [] => true
  | cell :: rest => cell.plain && itemsPlain rest

/-- Every field of a struct has such a type. -/
def Cell.fieldsPlain : List (String × Cell) → Bool
  | [] => true
  | (_, cell) :: rest => cell.plain && fieldsPlain rest

end

mutual

/-- The object of a cell is a JSON value exactly if JSON has its type. -/
theorem toPython_isJson : ∀ cell : Cell, cell.toPython.isJson = cell.plain
  | .null => rfl
  | .bool _ => rfl
  | .int _ => rfl
  | .float _ => rfl
  | .str _ => rfl
  | .foreign _ _ _ => rfl
  | .list items => itemsToPython_isJson items
  | .struct fields => fieldsToPython_isJson fields

private theorem itemsToPython_isJson : ∀ items : List Cell,
    Value.itemsAreJson (Cell.itemsToPython items) = Cell.itemsPlain items
  | [] => rfl
  | cell :: rest => by
      simp only [Cell.itemsToPython, Value.itemsAreJson, Cell.itemsPlain, toPython_isJson cell,
        itemsToPython_isJson rest]

private theorem fieldsToPython_isJson : ∀ fields : List (String × Cell),
    Value.fieldsAreJson (Cell.fieldsToPython fields) = Cell.fieldsPlain fields
  | [] => rfl
  | (_, cell) :: rest => by
      simp only [Cell.fieldsToPython, Value.fieldsAreJson, Cell.fieldsPlain, toPython_isJson cell,
        fieldsToPython_isJson rest]

end

/-- No cell of the frame is a date, a datetime, a time, a duration, a decimal or bytes. -/
def DataFrame.Plain (frame : DataFrame) : Prop :=
  ∀ column ∈ frame.columns, ∀ cell ∈ column.2, cell.plain = true

/-- The records of a frame are JSON values exactly if it has no such cell. -/
theorem toDicts_allJson_iff (frame : DataFrame) : AllJson frame.toDicts ↔ frame.Plain := by
  have hcell : ∀ (i : Nat) (column : String × List Cell), column ∈ frame.columns →
      i < frame.height → ∃ hi : i < column.2.length, column.2[i]?.getD .null = column.2[i] := by
    intro i column hcolumn hi
    have hlt : i < column.2.length := by
      rw [frame.columns_length column hcolumn]
      exact hi
    exact ⟨hlt, by simp [hlt]⟩
  constructor
  · intro hall column hcolumn cell hmem
    rcases List.mem_iff_getElem.mp hmem with ⟨i, hi, rfl⟩
    have hheight : i < frame.height := by
      rw [← frame.columns_length column hcolumn]
      exact hi
    have hrecord := hall _ (List.mem_map.mpr ⟨i, List.mem_range.mpr hheight, rfl⟩)
    have hfield := (fieldsAreJson_iff _).mp hrecord _ (List.mem_map_of_mem hcolumn)
    rcases hcell i column hcolumn hheight with ⟨_, hget⟩
    simp only [hget] at hfield
    rwa [toPython_isJson] at hfield
  · intro hplain record hrecord
    rcases List.mem_map.mp hrecord with ⟨i, hi, rfl⟩
    refine (fieldsAreJson_iff _).mpr fun field hfield => ?_
    rcases List.mem_map.mp hfield with ⟨column, hcolumn, rfl⟩
    rcases hcell i column hcolumn (List.mem_range.mp hi) with ⟨hlt, hget⟩
    rw [hget, toPython_isJson]
    exact hplain column hcolumn _ (List.getElem_mem hlt)

/-! ## The record contract -/

/-- A source node with what it works on. -/
inductive SourceNode where
  | api (http : HttpExchange) (cfg : ApiSourceConfig)
  | db (database : QueryRunner) (cfg : DbSourceConfig)
  | file (libs : FileLibraries) (files : FileSystem) (cfg : FileSourceConfig)

namespace SourceNode

/-- {lit}`run`: the records on the output port. -/
def run (rt : Runtime) (ctx : NodeContext) : SourceNode → Except Raised Records
  | api http cfg => apiSource rt ctx http cfg
  | db database cfg => dbSource ctx database cfg
  | file libs files cfg => fileSource rt ctx libs files cfg

/-- Parsing yields JSON values. -/
def ParsesJson : SourceNode → Prop
  | api http _ => http.ParsesJson
  | db _ _ => True
  | file libs _ _ => libs.ParsesJson

/-- If the source reads a csv or a parquet file, then no cell of it is a date, a datetime,
a time, a duration, a decimal or bytes. -/
def PlainCells (rt : Runtime) : SourceNode → Prop
  | api _ _ => True
  | db _ _ => True
  | file libs files cfg => ∀ path content frame, files.resolve cfg.path = .ok path →
      files.content path = some content →
      (cfg.fileFormat rt = .ok .csv ∧ libs.readCsv cfg.options.hasHeader cfg.options.delimiter
          cfg.options.inferSchema cfg.options.limit content = .ok frame ∨
        cfg.fileFormat rt = .ok .parquet ∧
          libs.readParquet cfg.options.limit content = .ok frame) → frame.Plain

end SourceNode

private theorem frameRecords_eq_ok {read : Except PyException DataFrame} {records : Records}
    (h : frameRecords read = .ok records) : ∃ frame, read = .ok frame ∧ records = frame.toDicts := by
  cases read with
  | error exc => cases h
  | ok frame =>
      cases h
      exact ⟨frame, rfl, rfl⟩

/-- The records of a file are JSON values exactly if a tabular one has no cell of a type
that JSON does not have. -/
theorem fileSource_allJson_iff {rt : Runtime} {ctx : NodeContext} {libs : FileLibraries}
    {files : FileSystem} {cfg : FileSourceConfig} (hjson : libs.ParsesJson) {records : Records}
    (h : fileSource rt ctx libs files cfg = .ok records) :
    AllJson records ↔ (SourceNode.file libs files cfg).PlainCells rt := by
  unfold fileSource at h
  split at h
  · cases h
  · rename_i fmt hfmt
    split at h
    · cases h
    · rename_i path hpath
      split at h
      · cases h
      · rename_i found hread
        cases h
        cases hcontent : files.content path with
        | none => simp [hcontent, readRecords] at hread
        | some content =>
            have hsame : ∀ path' content', files.resolve cfg.path = .ok path' →
                files.content path' = some content' → content' = content := by
              intro path' content' hpath' hcontent'
              rw [hpath, Except.ok.injEq] at hpath'
              rw [← hpath', hcontent, Option.some.injEq] at hcontent'
              exact hcontent'.symm
            rw [hcontent] at hread
            cases fmt with
            | json =>
                refine iff_of_true (readJson_isJson hjson hread) ?_
                rintro path' content' frame _ _ (⟨hcsv, _⟩ | ⟨hparquet, _⟩)
                · rw [hfmt] at hcsv
                  cases hcsv
                · rw [hfmt] at hparquet
                  cases hparquet
            | jsonl =>
                have hall : AllJson records := by
                  cases content with
                  | text text => exact readJsonLines_isJson hjson allJson_nil hread
                  | binary bytes => cases hread
                refine iff_of_true hall ?_
                rintro path' content' frame _ _ (⟨hcsv, _⟩ | ⟨hparquet, _⟩)
                · rw [hfmt] at hcsv
                  cases hcsv
                · rw [hfmt] at hparquet
                  cases hparquet
            | csv =>
                rcases frameRecords_eq_ok hread with ⟨frame, hframe, rfl⟩
                rw [toDicts_allJson_iff]
                constructor
                · rintro hplain path' content' frame' hpath' hcontent' (⟨_, hcsv⟩ | ⟨hparquet, _⟩)
                  · rw [hsame path' content' hpath' hcontent', hframe, Except.ok.injEq] at hcsv
                    exact hcsv ▸ hplain
                  · rw [hfmt] at hparquet
                    cases hparquet
                · exact fun hplain => hplain path content frame hpath hcontent (Or.inl ⟨hfmt, hframe⟩)
            | parquet =>
                rcases frameRecords_eq_ok hread with ⟨frame, hframe, rfl⟩
                rw [toDicts_allJson_iff]
                constructor
                · rintro hplain path' content' frame' hpath' hcontent' (⟨hcsv, _⟩ | ⟨_, hparquet⟩)
                  · rw [hfmt] at hcsv
                    cases hcsv
                  · rw [hsame path' content' hpath' hcontent', hframe, Except.ok.injEq] at hparquet
                    exact hparquet ▸ hplain
                · exact fun hplain => hplain path content frame hpath hcontent (Or.inr ⟨hfmt, hframe⟩)

/-- The records that a source emits are JSON values, if and only if it does not read a
tabular file with a cell of a type that JSON does not have. -/
theorem source_records_json_iff (rt : Runtime) (ctx : NodeContext) (src : SourceNode)
    (hjson : src.ParsesJson) (records : Records) (hrun : src.run rt ctx = .ok records) :
    (∀ record ∈ records, (Value.dict record).isJson = true) ↔ src.PlainCells rt := by
  cases src with
  | api http cfg => exact iff_of_true (apiSource_isJson hjson hrun) trivial
  | db database cfg => exact iff_of_true (dbSource_isJson hrun) trivial
  | file libs files cfg => exact fileSource_allJson_iff hjson hrun

/-! ## A parquet file with a date -/

namespace Samples

/-- A frame with one row. -/
def oneRow (cell : Cell) : DataFrame where
  height := 1
  columns := [("id", [.int 1]), ("day", [cell])]
  columns_length := by simp

/-- Libraries that read this frame from every parquet file. -/
def parquetOf (cell : Cell) : FileLibraries where
  dumps := fun _ _ => .error intConversionError
  loads := fun _ => .error ⟨"JSONDecodeError", some "Expecting value"⟩
  readCsv := fun _ _ _ _ _ => .error intConversionError
  readParquet := fun _ _ => .ok (oneRow cell)
  dataFrame := fun _ => .error intConversionError
  writeCsv := fun _ _ _ => .error intConversionError
  writeParquet := fun _ => .error intConversionError

/-- One file. -/
def oneFile : FileSystem where
  resolve := fun path => .ok path
  content := fun path => if path = "days.parquet" then some (.binary [80, 65, 82, 49]) else none

/-- A source that reads it. -/
def parquetSource (cell : Cell) : SourceNode :=
  .file (parquetOf cell) oneFile { path := "days.parquet" }

/-- A date. -/
def someDay : Cell :=
  .foreign .date "2026-07-06" "datetime.date(2026, 7, 6)"

private theorem parquetSource_parsesJson (cell : Cell) : (parquetSource cell).ParsesJson := by
  intro text data h
  cases h

/-- The context of the source. -/
def sourceContext : NodeContext where
  run := ⟨.empty, ⟨4, false, by decide⟩, ⟨[]⟩⟩
  nodeId := "src"
  nodeType := "file_source"
  iterCtx := none

end Samples

open Samples

theorem source_records_json_iff_text :
    (parquetSource (.str "2026-07-06")).run runtime sourceContext =
        .ok [[("id", .int 1), ("day", .str "2026-07-06")]] ∧
      ((∀ record ∈ [[("id", Value.int 1), ("day", Value.str "2026-07-06")]],
          (Value.dict record).isJson = true) ↔
        (parquetSource (.str "2026-07-06")).PlainCells runtime) := by
  have hrun : (parquetSource (.str "2026-07-06")).run runtime sourceContext =
      .ok [[("id", .int 1), ("day", .str "2026-07-06")]] := by
    decide +kernel
  exact ⟨hrun, source_records_json_iff runtime sourceContext _ (parquetSource_parsesJson _) _ hrun⟩

/-- A parquet file with a date column: the record holds a date object. -/
theorem date_in_record :
    ∃ records, (parquetSource someDay).ParsesJson ∧
      (parquetSource someDay).run runtime sourceContext = .ok records ∧
      ¬ ∀ record ∈ records, (Value.dict record).isJson = true := by
  have hrun : (parquetSource someDay).run runtime sourceContext =
      .ok [[("id", .int 1), ("day", .foreign "date" "2026-07-06" "datetime.date(2026, 7, 6)")]] := by
    decide +kernel
  exact ⟨_, parquetSource_parsesJson someDay, hrun, by decide +kernel⟩

end EtlTool
