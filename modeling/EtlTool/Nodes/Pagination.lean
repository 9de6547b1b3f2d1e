import EtlTool.Core.JsonText
import EtlTool.Foundations.Paging
import EtlTool.Nodes.Sources

/-!
# Pagination

The loop in which an API source asks for one page after the other.  It stops at a page
without a cursor, at an empty page or at a short one, and only then at the bound
{lit}`max_pages`, where it warns that the results may be truncated.

A server serves a list of records if each request is answered with the part of the list
that its parameters ask for.  The answers may differ from one request to the next, where
the pagination leaves them open.

Main results:

- Theorem {lit}`fetchAll_result`: the loop returns what {lit}`fetchPages` returns.
- Theorems {lit}`offsets_hand`, {lit}`pages_hand`, {lit}`cursors_hand`: each turn hands out
  the front of what remains.
- Theorem {lit}`fetchAll_complete_or_warns`: the loop makes at most {lit}`max_pages`
  requests and returns the list, or a prefix of it with a warning.

Current gaps:

- The debug lines of the loop.
-/

namespace EtlTool

/-- The query parameters of a request. -/
abbrev QueryParams := OrderedDict String Value

/-- What a call of {lit}`_fetch_all` did: the parameters of its logical requests, its own
warnings, and its result. -/
structure FetchRun where
  requests : List QueryParams
  warnings : List String
  result : Except Raised Records

/-- The warning of the loop at its bound. -/
def maxPagesWarning (maxPages : Nat) : String :=
  "pagination stopped at max_pages=" ++ toString maxPages ++ "; results may be truncated"

section

variable (rt : Runtime) (ctx : NodeContext)

/-- One turn of the loop: the records of a page, and the parameters of the next one. -/
def pageTurn (server : Nat → HttpExchange) (cfg : ApiSourceConfig) (count : Nat)
    (params : QueryParams) : Except Raised (Records × Option QueryParams) :=
  match requestJson ctx (server count) cfg.method params with
  | .error raised => .error raised
  | .ok (data, summary) =>
      match toRecords rt ctx data cfg.recordsPath summary with
      | .error raised => .error raised
      | .ok items =>
          match cfg.pagination with
          | none => .ok (items, none)
          | some pagination =>
              (nextPage rt pagination data items params).map fun next => (items, next)

/-- {lit}`_fetch_all`.  Each logical request has its own exchange with the server;
{lit}`params` are the query parameters of the config and the credential. -/
def fetchAll (server : Nat → HttpExchange) (cfg : ApiSourceConfig) (params : QueryParams) :
    FetchRun :=
  let maxPages := (cfg.pagination.map PaginationConfig.maxPages).getD 1
  let fetched := Paging.fetch (pageTurn rt ctx server cfg) (maxPages - 1) [] []
    (firstPage { cfg with queryParams := params })
  { requests := fetched.visited
    warnings := if fetched.capped then [maxPagesWarning maxPages] else []
    result := fetched.result }

/-- The page loop, turn by turn. -/
theorem fetchPages_eq_turn (http : HttpExchange) (cfg : ApiSourceConfig) (count left : Nat)
    (records : Records) (params : QueryParams) :
    fetchPages rt ctx http cfg cfg.recordsPath left records params =
      match pageTurn rt ctx (fun _ => http) cfg count params with
      | .error raised => .error raised
      | .ok (items, none) => .ok (records ++ items)
      | .ok (items, some next) =>
          match left with
          | 0 => .ok (records ++ items)
          | left + 1 =>
              fetchPages rt ctx http cfg cfg.recordsPath left (records ++ items) next := by
  rw [fetchPages, pageTurn]
  cases requestJson ctx http cfg.method params with
  | error raised => rfl
  | ok body =>
      dsimp only
      cases toRecords rt ctx body.1 cfg.recordsPath body.2 with
      | error raised => rfl
      | ok items =>
          cases cfg.pagination with
          | none => rfl
          | some pagination =>
              dsimp only
              cases nextPage rt pagination body.1 items params with
              | error raised => rfl
              | ok next => cases next <;> cases left <;> rfl

/-- Of a server that always answers alike the loop returns what {lit}`fetchPages`
returns. -/
theorem fetchAll_result (http : HttpExchange) (cfg : ApiSourceConfig) :
    (fetchAll rt ctx (fun _ => http) cfg cfg.queryParams).result =
      fetchPages rt ctx http cfg cfg.recordsPath
        ((cfg.pagination.map PaginationConfig.maxPages).getD 1 - 1) [] (firstPage cfg) := by
  have hloop : ∀ (left : Nat) (visited : List QueryParams) (records : Records)
      (params : QueryParams),
      (Paging.fetch (pageTurn rt ctx (fun _ => http) cfg) left visited records params).result =
        fetchPages rt ctx http cfg cfg.recordsPath left records params := by
    intro left
    induction left with
    | zero =>
        intro visited records params
        rw [fetchPages_eq_turn rt ctx http cfg visited.length, Paging.fetch]
        split <;> simp_all
    | succ left ih =>
        intro visited records params
        rw [fetchPages_eq_turn rt ctx http cfg visited.length, Paging.fetch]
        split
        · simp_all
        · simp_all
        · rename_i page next hturn
          rw [hturn]
          exact ih _ _ _
  exact hloop _ [] [] (firstPage cfg)

end

/-! ## Servers -/

/-- The request is answered, and this is what the node reads of the answer. -/
def HttpExchange.Answers (http : HttpExchange) (method : String) (params : QueryParams)
    (data : Value) : Prop :=
  ∃ response, http.request params = .ok response ∧ method ≠ "HEAD" ∧
    response.statusCode ≠ 204 ∧ response.hasContent = true ∧ response.json = .ok data

/-- The list of records in a body, where the config says that it is. -/
def Carries (rt : Runtime) (itemsPath : Option String) (data : Value) (chunk : Records) : Prop :=
  match itemsPath with
  | none => data = .list (chunk.map .dict)
  | some "" => data = .list (chunk.map .dict)
  | some path => rt.getPath? data (splitPath path) = .ok (some (.list (chunk.map .dict)))

section

variable (rt : Runtime) (server : Nat → HttpExchange) (cfg : ApiSourceConfig)
variable (pagination : PaginationConfig)

/-- At an offset the server returns the next records from there: as many as the limit
allows, or, without a limit, at least one. -/
def ServesOffsets (items : Records) : Prop :=
  ∀ (count : Nat) (params : QueryParams) (offset : Nat),
    params.get? pagination.offsetParam = some (.int offset) →
    (∀ limitParam limit, pagination.limitParam = some limitParam → limitParam ≠ "" →
      pagination.limit = some limit → params.get? limitParam = some (.int limit)) →
    ∃ data chunk, (server count).Answers cfg.method params data ∧
      Carries rt cfg.recordsPath data chunk ∧ chunk <+: items.drop offset ∧
      match pagination.limit with
      | some limit => chunk.length = min limit (items.drop offset).length
      | none => items.drop offset ≠ [] → chunk ≠ []

/-- The server returns the chunk of a page, and nothing behind the last one.  Every chunk
but the last one has the size of a page, or is not empty if no size is set. -/
def ServesPages (items : Records) : Prop :=
  ∃ chunks : List Records, items = chunks.flatten ∧
    (∀ chunk ∈ chunks.dropLast,
      match pagination.pageSize with
      | some size => chunk.length = size
      | none => chunk ≠ []) ∧
    ∀ (count : Nat) (params : QueryParams) (index : Nat),
      params.get? pagination.pageParam = some (.int (pagination.startPage + index)) →
      ∃ data, (server count).Answers cfg.method params data ∧
        Carries rt cfg.recordsPath data ((chunks[index]?).getD [])

/-- The server returns the chunk of a cursor, with a cursor to the next chunk, and none at
the end.  The first chunk is that of the parameters without a cursor of the server. -/
def ServesCursors (first : QueryParams) (items : Records) : Prop :=
  ∃ (chunks : List Records) (cursor : Nat → String), chunks ≠ [] ∧ items = chunks.flatten ∧
    (∀ index, cursor index ≠ "") ∧
    ∀ (count : Nat) (params : QueryParams) (index : Nat) (hindex : index < chunks.length),
      (params.get? pagination.cursorParam =
        if index = 0 then first.get? pagination.cursorParam else some (.str (cursor index))) →
      ∃ data, (server count).Answers cfg.method params data ∧
        Carries rt cfg.recordsPath data chunks[index] ∧
        if index + 1 < chunks.length then
          rt.getPath? data (splitPath pagination.cursorPath) = .ok (some (.str (cursor (index + 1))))
        else
          ∃ found, rt.getPath? data (splitPath pagination.cursorPath) = .ok found ∧
            ∀ value, found = some value → value.truthy = false

/-- The server serves the list, in the way of the pagination. -/
def ServesFaithfully (first : QueryParams) (items : Records) : Prop :=
  match pagination.type with
  | .offset => ServesOffsets rt server cfg pagination items
  | .page => ServesPages rt server cfg pagination items
  | .cursor => ServesCursors rt server cfg pagination first items

end

/-- The bounds that the config model puts on its numbers. -/
structure PaginationConfig.Checked (pagination : PaginationConfig) : Prop where
  limit_pos : ∀ limit, pagination.limit = some limit → 0 < limit
  pageSize_pos : ∀ size, pagination.pageSize = some size → 0 < size

/-! ## One turn -/

section

variable {rt : Runtime} {ctx : NodeContext} {server : Nat → HttpExchange} {cfg : ApiSourceConfig}
variable {pagination : PaginationConfig}

private theorem requestJson_of_answers {http : HttpExchange} {method : String}
    {params : QueryParams}
    {data : Value} (h : http.Answers method params data) :
    requestJson ctx http method params = .ok (data, http.summary params) := by
  rcases h with ⟨response, hresponse, hmethod, hstatus, hcontent, hjson⟩
  simp [requestJson, hresponse, hmethod, hstatus, hcontent, hjson]

private theorem listItems_records (chunk : Records) :
    (listItems (.list (chunk.map .dict))).map coerceItem = chunk := by
  simp [listItems, coerceItem, Function.comp_def]

private theorem toRecords_of_carries {itemsPath : Option String} {data : Value} {chunk : Records}
    (h : Carries rt itemsPath data chunk) (summary : String) :
    toRecords rt ctx data itemsPath summary = .ok chunk := by
  cases itemsPath with
  | none =>
      have hdata : data = .list (chunk.map .dict) := h
      simp [toRecords, hdata, listItems_records]
  | some path =>
      by_cases hpath : path = ""
      · subst hpath
        have hdata : data = .list (chunk.map .dict) := h
        simp [toRecords, hdata, listItems_records]
      · have hfound : rt.getPath? data (splitPath path) =
            .ok (some (.list (chunk.map .dict))) := by
          simpa [Carries, hpath] using h
        have hne : data ≠ .none := by
          rintro rfl
          cases hsegments : splitPath path with
          | nil => simp [hsegments, Runtime.getPath?, Runtime.walk] at hfound
          | cons segment rest =>
              simp [hsegments, Runtime.getPath?, Runtime.walk, Runtime.hop] at hfound
        simp [toRecords, hne, hfound, listItems_records]

/-- A turn of which the server answers the request with a chunk. -/
theorem pageTurn_eq (hcfg : cfg.pagination = some pagination) {count : Nat}
    {params : QueryParams} {data : Value} {chunk : Records} {next : Option QueryParams}
    (hanswer : (server count).Answers cfg.method params data)
    (hcarries : Carries rt cfg.recordsPath data chunk)
    (hnext : nextPage rt pagination data chunk params = .ok next) :
    pageTurn rt ctx server cfg count params = .ok (chunk, next) := by
  rw [pageTurn, requestJson_of_answers hanswer]
  dsimp only
  rw [toRecords_of_carries hcarries, hcfg]
  dsimp only
  rw [hnext]
  rfl

private theorem advanceParam_eq {params : QueryParams} {key : String} {z : Int}
    (h : params.get? key = some (.int z)) (n : Int) :
    advanceParam params key n = .ok (params.set key (.int (z + n))) := by
  rw [advanceParam, h]

/-! ## Turns hand out what remains -/

/-- What remains at an offset. -/
def RemainsAtOffset (pagination : PaginationConfig) (items : Records) (params : QueryParams)
    (rest : Records) : Prop :=
  ∃ offset : Nat, params.get? pagination.offsetParam = some (.int offset) ∧
    (∀ limitParam limit, pagination.limitParam = some limitParam → limitParam ≠ "" →
      pagination.limit = some limit → params.get? limitParam = some (.int limit)) ∧
    rest = items.drop offset

theorem offsets_hand (hcfg : cfg.pagination = some pagination) (htype : pagination.type = .offset)
    (hchecked : pagination.Checked) (hnames : pagination.limitParam ≠ some pagination.offsetParam)
    {items : Records} (hserves : ServesOffsets rt server cfg pagination items) :
    Paging.Hands (pageTurn rt ctx server cfg) (RemainsAtOffset pagination items) where
  front := by
    rintro count params _ ⟨offset, hoffset, hlimit, rfl⟩
    rcases hserves count params offset hoffset hlimit with
      ⟨data, chunk, hanswer, hcarries, hprefix, hsize⟩
    have hsplit : items.drop offset = chunk ++ items.drop (offset + chunk.length) := by
      rcases hprefix with ⟨tail, htail⟩
      rw [← List.drop_drop, ← htail, List.drop_left]
    by_cases hstop : chunk = [] ∨ pagination.limit.any fun limit => decide (chunk.length < limit)
    · refine ⟨chunk, none, _, pageTurn_eq hcfg hanswer hcarries ?_, hsplit, fun _ => ?_, nofun⟩
      · rw [nextPage, htype]
        exact if_pos hstop
      · -- an empty or short chunk is the end of the list
        have hlength := congrArg List.length hsplit
        rw [List.length_append] at hlength
        refine List.eq_nil_of_length_eq_zero ?_
        cases hbound : pagination.limit with
        | none =>
            rw [hbound] at hsize hstop
            have hempty : chunk = [] := hstop.resolve_right (by simp)
            have hrest : items.drop offset = [] := by
              by_contra hne
              exact hsize hne hempty
            rw [hrest, List.length_nil] at hlength
            omega
        | some limit =>
            have hpos := hchecked.limit_pos limit hbound
            rw [hbound] at hsize hstop
            have hshort : chunk.length < limit := by
              rcases hstop with rfl | hstop
              · exact hpos
              · simpa using hstop
            dsimp only at hsize
            omega
    · refine ⟨chunk, some (params.set pagination.offsetParam (.int (offset + chunk.length))), _,
        pageTurn_eq hcfg hanswer hcarries ?_, hsplit, nofun, ?_⟩
      · rw [nextPage, htype]
        dsimp only
        rw [if_neg hstop, advanceParam_eq hoffset]
        rfl
      · rintro position ⟨⟩
        refine ⟨offset + chunk.length, ?_, fun limitParam limit hparam hgiven hbound => ?_, rfl⟩
        · rw [OrderedDict.get?_set_self, Int.natCast_add]
        · have hne : limitParam ≠ pagination.offsetParam := by
            rintro rfl
            exact hnames hparam
          rw [OrderedDict.get?_set_of_ne _ hne]
          exact hlimit limitParam limit hparam hgiven hbound

/-- What remains at a page. -/
def RemainsAtPage (pagination : PaginationConfig) (chunks : List Records) (params : QueryParams)
    (rest : Records) : Prop :=
  ∃ index : Nat, params.get? pagination.pageParam = some (.int (pagination.startPage + index)) ∧
    rest = (chunks.drop index).flatten

private theorem flatten_drop (chunks : List Records) (index : Nat) :
    (chunks.drop index).flatten =
      (chunks[index]?).getD [] ++ (chunks.drop (index + 1)).flatten := by
  rcases Nat.lt_or_ge index chunks.length with hlt | hge
  · rw [List.drop_eq_getElem_cons hlt, List.flatten_cons, List.getElem?_eq_getElem hlt,
      Option.getD_some]
  · rw [List.drop_eq_nil_of_le hge, List.drop_eq_nil_of_le (by omega),
      List.getElem?_eq_none hge]
    rfl

theorem pages_hand (hcfg : cfg.pagination = some pagination) (htype : pagination.type = .page)
    (hchecked : pagination.Checked) {chunks : List Records}
    (hsizes : ∀ chunk ∈ chunks.dropLast,
      match pagination.pageSize with
      | some size => chunk.length = size
      | none => chunk ≠ [])
    (hserves : ∀ (count : Nat) (params : QueryParams) (index : Nat),
      params.get? pagination.pageParam = some (.int (pagination.startPage + index)) →
      ∃ data, (server count).Answers cfg.method params data ∧
        Carries rt cfg.recordsPath data ((chunks[index]?).getD [])) :
    Paging.Hands (pageTurn rt ctx server cfg) (RemainsAtPage pagination chunks) where
  front := by
    rintro count params _ ⟨index, hpage, rfl⟩
    rcases hserves count params index hpage with ⟨data, hanswer, hcarries⟩
    by_cases hstop : (chunks[index]?).getD [] = [] ∨
        pagination.pageSize.any fun size => decide (((chunks[index]?).getD []).length < size)
    · refine ⟨_, none, _, pageTurn_eq hcfg hanswer hcarries ?_, flatten_drop chunks index,
        fun _ => ?_, nofun⟩
      · rw [nextPage, htype]
        exact if_pos hstop
      · -- a chunk that is not the last one would not have ended the loop
        rcases Nat.lt_or_ge (index + 1) chunks.length with hlt | hge
        · have hchunk : (chunks[index]?).getD [] ∈ chunks.dropLast := by
            rw [List.getElem?_eq_getElem (by omega), Option.getD_some]
            rw [← List.getElem_dropLast (by rw [List.length_dropLast]; omega)]
            exact List.getElem_mem _
          have hsize := hsizes _ hchunk
          cases hbound : pagination.pageSize with
          | none =>
              rw [hbound] at hsize hstop
              exact absurd (hstop.resolve_right (by simp)) hsize
          | some size =>
              have hpos := hchecked.pageSize_pos size hbound
              rw [hbound] at hsize hstop
              dsimp only at hsize
              rcases hstop with hempty | hshort
              · rw [hempty, List.length_nil] at hsize
                omega
              · rw [Option.any_some, decide_eq_true_eq] at hshort
                omega
        · rw [List.drop_eq_nil_of_le hge]
          rfl
    · refine ⟨_, some (params.set pagination.pageParam (.int (pagination.startPage + index + 1))),
        _, pageTurn_eq hcfg hanswer hcarries ?_, flatten_drop chunks index, nofun, ?_⟩
      · rw [nextPage, htype]
        dsimp only
        rw [if_neg hstop, advanceParam_eq hpage]
        rfl
      · rintro position ⟨⟩
        refine ⟨index + 1, ?_, rfl⟩
        rw [OrderedDict.get?_set_self, Int.natCast_add, Int.natCast_one, Int.add_assoc]

/-- What remains at a cursor. -/
def RemainsAtCursor (pagination : PaginationConfig) (first : QueryParams) (chunks : List Records)
    (cursor : Nat → String) (params : QueryParams) (rest : Records) : Prop :=
  ∃ index, index < chunks.length ∧
    (params.get? pagination.cursorParam =
      if index = 0 then first.get? pagination.cursorParam else some (.str (cursor index))) ∧
    rest = (chunks.drop index).flatten

theorem cursors_hand (hcfg : cfg.pagination = some pagination) (htype : pagination.type = .cursor)
    {first : QueryParams} {chunks : List Records} {cursor : Nat → String}
    (hcursor : ∀ index, cursor index ≠ "")
    (hserves : ∀ (count : Nat) (params : QueryParams) (index : Nat) (hindex : index < chunks.length),
      (params.get? pagination.cursorParam =
        if index = 0 then first.get? pagination.cursorParam else some (.str (cursor index))) →
      ∃ data, (server count).Answers cfg.method params data ∧
        Carries rt cfg.recordsPath data chunks[index] ∧
        if index + 1 < chunks.length then
          rt.getPath? data (splitPath pagination.cursorPath) = .ok (some (.str (cursor (index + 1))))
        else
          ∃ found, rt.getPath? data (splitPath pagination.cursorPath) = .ok found ∧
            ∀ value, found = some value → value.truthy = false) :
    Paging.Hands (pageTurn rt ctx server cfg)
      (RemainsAtCursor pagination first chunks cursor) where
  front := by
    rintro count params _ ⟨index, hindex, hparam, rfl⟩
    rcases hserves count params index hindex hparam with ⟨data, hanswer, hcarries, hfound⟩
    have hsplit : (chunks.drop index).flatten =
        chunks[index] ++ (chunks.drop (index + 1)).flatten := by
      rw [flatten_drop, List.getElem?_eq_getElem hindex, Option.getD_some]
    by_cases hmore : index + 1 < chunks.length
    · rw [if_pos hmore] at hfound
      refine ⟨_, some (params.set pagination.cursorParam (.str (cursor (index + 1)))), _,
        pageTurn_eq hcfg hanswer hcarries ?_, hsplit, by simp, ?_⟩
      · rw [nextPage, htype]
        dsimp only
        rw [hfound]
        simp [Value.truthy, hcursor]
      · rintro position ⟨⟩
        exact ⟨index + 1, hmore, by rw [OrderedDict.get?_set_self, if_neg (Nat.succ_ne_zero index)],
          rfl⟩
    · rw [if_neg hmore] at hfound
      rcases hfound with ⟨found, hpath, hfalsy⟩
      refine ⟨_, none, _, pageTurn_eq hcfg hanswer hcarries ?_, hsplit, fun _ => ?_, by simp⟩
      · rw [nextPage, htype]
        dsimp only
        rw [hpath]
        cases found with
        | none => rfl
        | some value => simp [hfalsy value rfl]
      · rw [List.drop_eq_nil_of_le (Nat.not_lt.mp hmore)]
        rfl

/-! ## The first page -/

/-- The parameters of the first page ask for the beginning of the list. -/
theorem firstPage_offset (cfg : ApiSourceConfig) (hcfg : cfg.pagination = some pagination)
    (htype : pagination.type = .offset)
    (hnames : pagination.limitParam ≠ some pagination.offsetParam) (items : Records) :
    RemainsAtOffset pagination items (firstPage cfg) items := by
  refine ⟨0, ?_, fun limitParam limit hparam hgiven hlimit => ?_, rfl⟩
  · simp only [firstPage, hcfg, htype]
    split
    · rename_i limitParam limit hparam _
      split
      · exact OrderedDict.get?_set_self _ _ _
      · have hne : pagination.offsetParam ≠ limitParam := by
          rintro hsame
          exact hnames (hparam.trans (congrArg some hsame.symm))
        rw [OrderedDict.get?_set_of_ne _ hne]
        exact OrderedDict.get?_set_self _ _ _
    · exact OrderedDict.get?_set_self _ _ _
  · simp only [firstPage, hcfg, htype, hparam, hlimit, if_neg hgiven]
    exact OrderedDict.get?_set_self _ _ _

private theorem firstPage_page (cfg : ApiSourceConfig) (hcfg : cfg.pagination = some pagination)
    (htype : pagination.type = .page) (chunks : List Records) :
    RemainsAtPage pagination chunks (firstPage cfg) chunks.flatten := by
  refine ⟨0, ?_, rfl⟩
  simp only [firstPage, hcfg, htype]
  rw [OrderedDict.get?_set_self, Int.natCast_zero, Int.add_zero]

private theorem firstPage_cursor {chunks : List Records} (hchunks : chunks ≠ [])
    (cursor : Nat → String) :
    RemainsAtCursor pagination (firstPage cfg) chunks cursor (firstPage cfg) chunks.flatten :=
  ⟨0, List.length_pos_of_ne_nil hchunks, (if_pos rfl).symm, rfl⟩

end

/-- Of a server that serves a list of records, the loop makes at most {lit}`max_pages`
logical requests and returns the list, or a prefix of it with the warning that the results
may be truncated. -/
theorem fetchAll_complete_or_warns (rt : Runtime) (ctx : NodeContext) (cfg : ApiSourceConfig)
    (pagination : PaginationConfig) (hcfg : cfg.pagination = some pagination)
    (hchecked : pagination.Checked) (hnames : pagination.limitParam ≠ some pagination.offsetParam)
    (params : QueryParams) (server : Nat → HttpExchange) (items : Records)
    (hserves : ServesFaithfully rt server cfg pagination
      (firstPage { cfg with queryParams := params }) items) :
    (fetchAll rt ctx server cfg params).requests.length ≤ pagination.maxPages ∧
      ∃ records, (fetchAll rt ctx server cfg params).result = .ok records ∧ records <+: items ∧
        (records ≠ items →
          maxPagesWarning pagination.maxPages ∈ (fetchAll rt ctx server cfg params).warnings) := by
  have hpages : (cfg.pagination.map PaginationConfig.maxPages).getD 1 = pagination.maxPages := by
    rw [hcfg]
    rfl
  have hpos := pagination.maxPages_pos
  have hremains : ∃ Remains, Paging.Hands (pageTurn rt ctx server cfg) Remains ∧
      Remains (firstPage { cfg with queryParams := params }) items := by
    unfold ServesFaithfully at hserves
    cases htype : pagination.type with
    | offset =>
        rw [htype] at hserves
        exact ⟨_, offsets_hand hcfg htype hchecked hnames hserves,
          firstPage_offset { cfg with queryParams := params } hcfg htype hnames items⟩
    | page =>
        rw [htype] at hserves
        rcases hserves with ⟨chunks, rfl, hsizes, hserves⟩
        exact ⟨_, pages_hand hcfg htype hchecked hsizes hserves,
          firstPage_page { cfg with queryParams := params } hcfg htype chunks⟩
    | cursor =>
        rw [htype] at hserves
        rcases hserves with ⟨chunks, cursor, hchunks, rfl, hcursor, hserves⟩
        exact ⟨_, cursors_hand hcfg htype hcursor hserves, firstPage_cursor hchunks cursor⟩
  rcases hremains with ⟨Remains, hhands, hfirst⟩
  have hlength := Paging.length_visited_le (pageTurn rt ctx server cfg)
    (pagination.maxPages - 1) [] [] (firstPage { cfg with queryParams := params })
  rcases Paging.fetch_of_hands hhands (pagination.maxPages - 1) [] [] hfirst with
    ⟨records, hresult, hprefix, hall⟩
  unfold fetchAll
  rw [hpages]
  refine ⟨?_, records, hresult, hprefix, fun hpart => ?_⟩
  · rw [List.length_nil] at hlength
    dsimp only
    omega
  · cases hcapped : (Paging.fetch (pageTurn rt ctx server cfg) (pagination.maxPages - 1) [] []
        (firstPage { cfg with queryParams := params })).capped with
    | false => exact absurd (hall hcapped) hpart
    | true => simp [hcapped]

/-! ## A server of three records -/

namespace Samples

/-- The records. -/
def threeRecords : Records :=
  [[("id", .int 1)], [("id", .int 2)], [("id", .int 3)]]

/-- A server that returns two of them at a time. -/
def pairServer : HttpExchange where
  preflight := .ok ()
  request := fun params =>
    match params.get? "offset" with
    | some (.int offset) =>
        .ok ⟨200, true, .ok (.list (((threeRecords.drop offset.toNat).take 2).map .dict))⟩
    | _ => .error ⟨.httpStatus, "HTTP 400 Bad Request", some 400, 1⟩
  summary := fun _ => "GET https://example.com/items"

/-- Pages of two records. -/
def pairs (maxPages : Nat) (h : 1 ≤ maxPages) : PaginationConfig where
  type := .offset
  limitParam := some "limit"
  limit := some 2
  maxPages := maxPages
  maxPages_pos := h

private theorem pairServer_serves (cfg : ApiSourceConfig) (hmethod : cfg.method = "GET")
    (hpath : cfg.recordsPath = none) (maxPages : Nat) (h : 1 ≤ maxPages) :
    ServesOffsets decimalRuntime (fun _ => pairServer) cfg (pairs maxPages h) threeRecords := by
  intro _ params offset hoffset _
  have hoffset' : params.get? "offset" = some (.int offset) := hoffset
  refine ⟨.list (((threeRecords.drop offset).take 2).map .dict), (threeRecords.drop offset).take 2,
    ⟨⟨200, true, .ok (.list (((threeRecords.drop offset).take 2).map .dict))⟩, ?_, ?_, ?_,
      rfl, rfl⟩, ?_, List.take_prefix _ _, List.length_take⟩
  · simp [pairServer, hoffset']
  · rw [hmethod]
    decide
  · change (200 : Int) ≠ 204
    decide
  · rw [hpath]
    rfl

end Samples

open Samples

theorem fetchAll_complete_or_warns_capped :
    let cfg : ApiSourceConfig := { pagination := some (pairs 1 le_rfl) }
    let run := fetchAll decimalRuntime sourceContext (fun _ => pairServer) cfg .empty
    run.result = .ok (threeRecords.take 2) ∧
      run.requests.length ≤ 1 ∧ ∃ records, run.result = .ok records ∧ records <+: threeRecords ∧
        (records ≠ threeRecords → maxPagesWarning 1 ∈ run.warnings) := by
  refine ⟨by rfl, ?_⟩
  exact fetchAll_complete_or_warns decimalRuntime sourceContext
    { pagination := some (pairs 1 le_rfl) } (pairs 1 le_rfl) rfl
    ⟨fun limit hlimit => by cases hlimit; decide, nofun⟩ (by decide) .empty (fun _ => pairServer)
    threeRecords (pairServer_serves _ rfl rfl 1 le_rfl)

end EtlTool
