import EtlTool.Core.HttpAuth
import EtlTool.Core.JsonText
import EtlTool.Nodes.Sources

/-!
# Requests of an API source and of its tester

An API source and the connectivity tester build the same request in two places.  Both fill
the path parameters into the URL and merge the credential into headers and query
parameters, but a run resolves its config first, passes JSON values as query parameters
and sends the body, while the tester turns all query parameters into strings and uses one
client for a request without and one with the credential.

Main results:

- Theorem {lit}`queryTexts_eq_iff`: for which values the two encodings agree.
- Theorem {lit}`requestHeaders_eq_iff`: when the headers of a cookie and of a body agree.

Current gaps:

- The fields of the config that do not reach the first request.
- What the client adds to every request, such as {lit}`User-Agent`, which is the same for
  both.
-/

namespace EtlTool

/-! ## URL templates -/

/-- A replacement field of {lit}`string.Formatter().parse`. -/
structure TemplateField where
  name : List Char
  formatSpec : List Char
  conversion : Option Char

/-- The text up to the next replacement field or doubled brace, whether a field follows,
and the text behind the brace or braces. -/
def scanLiteral : List Char → Except String (List Char × Bool × List Char)
  | [] => .ok ([], false, [])
  | c :: rest =>
      if c = '\x7b' ∨ c = '\x7d' then
        match rest with
        | [] => .error ("Single '" ++ String.ofList [c] ++ "' encountered in format string")
        | d :: rest' =>
            if d = c then .ok ([c], false, rest')
            else if c = '\x7d' then .error "Single '\x7d' encountered in format string"
            else .ok ([], true, d :: rest')
      else
        match scanLiteral rest with
        | .error message => .error message
        | .ok (literal, field, after) => .ok (c :: literal, field, after)

/-- The name of a field, the character that ends it, and what follows; inside brackets
only the closing bracket is special. -/
def scanFieldName (inBrackets : Bool) : List Char → Except String (List Char × Char × List Char)
  | [] => .error "expected '\x7d' before end of string"
  | c :: rest =>
      let more (inBrackets : Bool) :=
        match scanFieldName inBrackets rest with
        | .error message => .error message
        | .ok (name, stop, after) => .ok (c :: name, stop, after)
      if inBrackets then more (c ≠ ']')
      else if c = '\x7b' then .error "unexpected '\x7b' in field name"
      else if c = '\x7d' ∨ c = ':' ∨ c = '!' then .ok ([], c, rest)
      else more (c = '[')

/-- A format specifier up to the brace that closes the field. -/
def scanFormatSpec (depth : Nat) : List Char → Except String (List Char × List Char)
  | [] => .error "unmatched '\x7b' in format spec"
  | c :: rest =>
      let more (depth : Nat) :=
        match scanFormatSpec depth rest with
        | .error message => .error message
        | .ok (spec, after) => .ok (c :: spec, after)
      if c = '\x7b' then more (depth + 1)
      else if c = '\x7d' then
        match depth with
        | 0 => .ok ([], rest)
        | depth + 1 => more depth
      else more depth

/-- The field behind an opening brace. -/
def scanField (text : List Char) : Except String (TemplateField × List Char) :=
  let withSpec (name : List Char) (conversion : Option Char) (rest : List Char) :=
    match scanFormatSpec 0 rest with
    | .error message => .error message
    | .ok (spec, after) => .ok (⟨name, spec, conversion⟩, after)
  match scanFieldName false text with
  | .error message => .error message
  | .ok (name, stop, rest) =>
      if stop = '\x7d' then .ok (⟨name, [], none⟩, rest)
      else if stop = ':' then withSpec name none rest
      else
        match rest with
        | [] => .error "end of string while looking for conversion specifier"
        | [c] => withSpec name (some c) []
        | c :: d :: after =>
            if d = '\x7d' then .ok (⟨name, [], some c⟩, after)
            else if d = ':' then withSpec name (some c) after
            else .error "expected ':' after conversion specifier"

/-- Why a URL cannot be filled in. -/
inductive UrlFault where
  /-- The {lit}`ValueError` of a template that is not well formed. -/
  | malformed (message : String)
  | unsupportedPlaceholder
  | noEntry (name : String)
  /-- The {lit}`ValueError` of a parameter without a text. -/
  | noText

/-- The message of a fault. -/
def UrlFault.message (rt : Runtime) (url : String) : UrlFault → String
  | malformed message => message
  | unsupportedPlaceholder =>
      "unsupported URL placeholder in " ++ rt.reprStr url ++
        "; use named \x7bparam\x7d placeholders"
  | noEntry name =>
      "URL placeholder \x7b" ++ name ++ "\x7d has no matching path_params entry"
  | noText => "integer string conversion"

/-- The loop of {lit}`_format_url`; every turn uses up a part of the template. -/
def Runtime.fillTemplate (rt : Runtime) (pathParams : OrderedDict String Value) :
    Nat → List Char → Except UrlFault (List Char)
  | 0, _ => .ok []
  | _ + 1, [] => .ok []
  | turns + 1, text =>
      match scanLiteral text with
      | .error message => .error (.malformed message)
      | .ok (literal, false, rest) =>
          (rt.fillTemplate pathParams turns rest).map fun tail => literal ++ tail
      | .ok (literal, true, rest) =>
          match scanField rest with
          | .error message => .error (.malformed message)
          | .ok (field, rest') =>
              if field.name = [] ∨ field.formatSpec ≠ [] ∨ field.conversion ≠ none then
                .error .unsupportedPlaceholder
              else
                match pathParams.get? (String.ofList field.name) with
                | none => .error (.noEntry (String.ofList field.name))
                | some value =>
                    match rt.pyStr value with
                    | none => .error .noText
                    | some param =>
                        (rt.fillTemplate pathParams turns rest').map fun tail =>
                          literal ++ percentQuote param.toList ++ tail

/-- {lit}`_format_url`. -/
def Runtime.formatUrl (rt : Runtime) (url : String) (pathParams : OrderedDict String Value) :
    Except UrlFault String :=
  (rt.fillTemplate pathParams url.toList.length url.toList).map String.ofList

/-! ## The config -/

/-- What the first request takes from an {lit}`ApiSourceConfig` with the method GET and
without pagination. -/
structure ApiRequestConfig where
  url : String
  pathParams : OrderedDict String Value
  queryParams : OrderedDict String Value
  headers : OrderedDict String Value
  body : Value
  auth : Option AuthConfig

/-- A field of type {lit}`dict[str, Any]` that is empty by default. -/
def dictField? (config : Fields) (key : String) : Option (OrderedDict String Value) :=
  match config.lookup key with
  | none => some .empty
  | some (.dict fields) => some (.ofList fields)
  | some _ => none

/-- A required string. -/
def strField? (config : Fields) (key : String) : Option String :=
  match config.lookup key with
  | some (.str text) => some text
  | _ => none

/-- {lit}`AuthConfig.type`. -/
def authType? : String → Option AuthType
  | "bearer" => some .bearer
  | "api_key" => some .apiKey
  | "basic" => some .basic
  | _ => none

/-- {lit}`AuthConfig.location`, under its alias or its name. -/
def authLocation? (fields : Fields) : Option AuthLocation :=
  let read : Option Value → Option AuthLocation
    | none => some .header
    | some (.str "header") => some .header
    | some (.str "query") => some .query
    | some _ => none
  match fields.lookup "in", fields.lookup "location" with
  | some _, some _ => none
  | some value, none => read (some value)
  | none, other => read other

/-- {lit}`AuthConfig`. -/
def authConfig? (fields : Fields) : Option AuthConfig := do
  guard (fields.all fun field =>
    ["type", "secret_ref", "name", "in", "location", "username"].contains field.1)
  let type ← (strField? fields "type").bind authType?
  let secretRef ← strField? fields "secret_ref"
  let name ← match fields.lookup "name" with
    | none => some "X-API-Key"
    | some (.str name) => some name
    | some _ => none
  let location ← authLocation? fields
  let username ← match fields.lookup "username" with
    | none => some none
    | some .none => some none
    | some (.str username) => some (some username)
    | some _ => none
  some { type, secretRef, name, location, username }

/-- The optional field {lit}`auth`. -/
def authField? (config : Fields) : Option (Option AuthConfig) :=
  match config.lookup "auth" with
  | none => some none
  | some .none => some none
  | some (.dict fields) => (authConfig? fields).map some
  | some _ => none

/-- {lit}`ApiSourceConfig.model_validate` for a GET request without pagination. -/
def apiRequestConfig? (config : Fields) : Option ApiRequestConfig := do
  guard (config.all fun field =>
    ["method", "url", "path_params", "query_params", "headers", "body", "auth", "pagination",
      "retry", "rate_limit", "timeout_s", "items_path", "verify_tls"].contains field.1)
  guard (config.lookup "method" = none ∨ config.lookup "method" = some (.str "GET"))
  guard (config.lookup "pagination" = none ∨ config.lookup "pagination" = some .none)
  let url ← strField? config "url"
  let pathParams ← dictField? config "path_params"
  let queryParams ← dictField? config "query_params"
  let headers ← dictField? config "headers"
  let auth ← authField? config
  some { url, pathParams, queryParams, headers, body := (config.lookup "body").getD .none, auth }

/-! ## The HTTP client -/

/-- What the client makes of the URL and the parameters of a request, and of a JSON body. -/
structure Httpx (U : Type) where
  /-- The URL with its query string: a key and its values for every parameter. -/
  url : String → List (String × List PyText) → U
  /-- The length of the encoded body; {lean}`none` if it has no JSON text. -/
  contentLength : Value → Option PyText

/-- The query string tells what the values of its parameters are. -/
def Httpx.TellsParams {U : Type} (httpx : Httpx U) : Prop :=
  ∀ url params params', params.map Prod.fst = params'.map Prod.fst →
    (params.map Prod.fst).Nodup → httpx.url url params = httpx.url url params' →
      params = params'

/-- The part of a request that is compared. -/
structure HttpRequest (U : Type) where
  url : U
  headers : List (String × PyText)

/-- A query parameter: a value of the config or a credential. -/
inductive ParamValue where
  | json (value : Value)
  | credential (text : PyText)

/-- {lit}`str(value)`, where it has a text. -/
def Runtime.strText (rt : Runtime) (value : Value) : PyText :=
  PyText.ofString ((rt.pyStr value).getD "")

/-- The client's text of a single parameter value. -/
def Runtime.primitiveText (rt : Runtime) : Value → PyText
  | .bool true => PyText.ofString "true"
  | .bool false => PyText.ofString "false"
  | .none => []
  | value => rt.strText value

/-- The client's texts of a parameter: a list is repeated. -/
def Runtime.queryTexts (rt : Runtime) : ParamValue → List PyText
  | .json (.list items) => items.map rt.primitiveText
  | .json value => [rt.primitiveText value]
  | .credential text => [text]

/-- Names of headers do not depend on case. -/
def sameHeader (name other : String) : Bool :=
  name.toLower == other.toLower

/-- {lit}`headers.setdefault(name, value)`. -/
def setDefaultHeader (headers : List (String × PyText)) (header : String × PyText) :
    List (String × PyText) :=
  if headers.any fun given => sameHeader given.1 header.1 then headers else headers ++ [header]

/-- The headers of a request: those given, the cookies of the client, and the headers of
the body. -/
def requestHeaders (headers : OrderedDict String PyText) (cookie : Option PyText)
    (body : List (String × PyText)) : List (String × PyText) :=
  ((cookie.toList.map fun text => ("Cookie", text)) ++ body).foldl setDefaultHeader headers.entries

/-- The headers of a JSON body; a {lean}`Value.none` is no body. -/
def Httpx.bodyHeaders {U : Type} (httpx : Httpx U) : Value → Option (List (String × PyText))
  | .none => some []
  | body =>
      (httpx.contentLength body).map fun length =>
        [("Content-Length", length), ("Content-Type", PyText.ofString "application/json")]

/-- {lit}`\x7bstr(k): str(v) for k, v in ...\x7d`, which raises on a value without a text. -/
def Runtime.strDict (rt : Runtime) (values : OrderedDict String Value) :
    Option (OrderedDict String PyText) :=
  if values.values.all fun value => (rt.pyStr value).isSome then some (values.map rt.strText)
  else none

/-! ## The two requests -/

section

variable {U : Type} (rt : Runtime) (httpx : Httpx U) (secrets : String → Option PyText)

/-- The headers and parameters of the credential; {lean}`none` if the secret is missing or
cannot be encoded. -/
def credentials (auth : AuthConfig) : Option (WireValues × WireValues) :=
  (secrets auth.secretRef).bind fun value => (applyAuth auth value).toOption

/-- The first request of {lit}`ApiSourceNode.run`, from its config; {lit}`allowed` is the
outcome of the host check. -/
def runRequest (allowed : String → Bool) (cfg : ApiRequestConfig) : Option (HttpRequest U) := do
  let url ← (rt.formatUrl cfg.url cfg.pathParams).toOption
  guard (allowed url)
  let headers ← rt.strDict cfg.headers
  let (authHeaders, authParams) ← match cfg.auth with
    | none => some (.empty, .empty)
    | some auth => credentials secrets auth
  let params := (cfg.queryParams.map ParamValue.json).update (authParams.map .credential)
  -- the URL that the log shows has the texts of all parameters
  guard (params.values.all fun param =>
    match param with
    | .json value => (rt.pyStr value).isSome
    | .credential _ => true)
  let body ← httpx.bodyHeaders cfg.body
  some {
    url := httpx.url url (params.map rt.queryTexts).entries
    headers := requestHeaders (headers.update authHeaders) none body }

/-- The first request of a run: the references of the raw config are resolved. -/
def firstRunRequest (allowed : String → Bool) (ctx : ReferenceContext) (raw : Fields) :
    Option (HttpRequest U) := do
  let resolved ← (rt.resolveFields ctx raw).toOption
  let cfg ← apiRequestConfig? resolved
  runRequest rt httpx secrets allowed cfg

/-- The request with the credential in {lit}`_test_api_source`.  {lit}`reached` is the
outcome of the checks up to the TLS handshake, and {lit}`probe` that of the request
without the credential: {lean}`none` if it raises, else the cookie that it left for the
URL in the client. -/
def testerRequest (reached : String → Bool) (probe : Option (Option PyText)) (raw : Fields) :
    Option (HttpRequest U) := do
  guard (hasReferences raw = false)
  let cfg ← apiRequestConfig? raw
  let url ← (rt.formatUrl cfg.url cfg.pathParams).toOption
  guard (reached url)
  let headers ← rt.strDict cfg.headers
  let params ← rt.strDict cfg.queryParams
  let cookie ← probe
  let auth ← cfg.auth
  let (authHeaders, authParams) ← credentials secrets auth
  some {
    url := httpx.url url ((params.update authParams).map fun text => [text]).entries
    headers := requestHeaders (headers.update authHeaders) cookie [] }

end

/-! ## Parameters that are sent as they are -/

/-- A value whose {lit}`str` is what the client sends: no boolean, no null and no list. -/
def Value.sentAsText : Value → Bool
  | .none => false
  | .bool _ => false
  | .list _ => false
  | _ => true

theorem length_ofString (text : String) : (PyText.ofString text).length = text.toList.length := by
  rw [PyText.ofString, List.length_map]

/-- The {lit}`repr` of a string is longer. -/
theorem length_le_reprStr (rt : Runtime) (text : String) :
    text.toList.length ≤ (rt.reprStr text).toList.length := by
  have hchars : ∀ (quote : Char) (chars : List Char),
      chars.length ≤ (chars.flatMap (rt.reprChar quote)).length := by
    intro quote chars
    induction chars with
    | nil => simp
    | cons c rest ih =>
        have hc : 1 ≤ (rt.reprChar quote c).length := by
          unfold Runtime.reprChar
          repeat' split
          all_goals simp
        rw [List.length_cons, List.flatMap_cons, List.length_append]
        omega
  have hinner := hchars
    (if text.toList.contains '\'' && !text.toList.contains '"' then '"' else '\'')
    text.toList
  simp only [Runtime.reprStr, String.toList_ofList, List.length_append, List.length_cons,
    List.length_nil]
  omega

/-- The text of a list is longer than what the client sends for its only item. -/
theorem primitiveText_lt_list {rt : Runtime} {item : Value} (hjson : item.isJson = true)
    (hstr : (rt.pyStr (.list [item])).isSome = true) :
    (rt.primitiveText item).length < (rt.strText (.list [item])).length := by
  cases hrepr : rt.pyRepr item with
  | none => simp [Runtime.pyStr, Runtime.pyRepr, Runtime.reprItems, hrepr] at hstr
  | some text =>
      have hlist : rt.pyStr (.list [item]) = some ("[" ++ text ++ "]") := by
        rw [Runtime.pyStr, Runtime.pyRepr, Runtime.reprItems, hrepr, Runtime.reprItems]
        · rfl
        all_goals simp
      have hlong : (rt.strText (.list [item])).length = text.toList.length + 2 := by
        simp [Runtime.strText, hlist, length_ofString]
      have hshort : ∀ v, rt.primitiveText v = rt.strText v → rt.pyStr v = some text →
          (rt.primitiveText v).length < text.toList.length + 2 := fun v hv htext => by
        rw [hv, Runtime.strText, htext, Option.getD_some, length_ofString]
        omega
      rw [hlong]
      cases item with
      | none => simp [Runtime.primitiveText]
      | bool b =>
          cases hrepr
          cases b <;> simp [Runtime.primitiveText, length_ofString]
      | str s =>
          cases hrepr
          have hquoted := length_le_reprStr rt s
          have hsame : (rt.primitiveText (.str s)).length = s.toList.length :=
            length_ofString s
          omega
      | int z => exact hshort _ rfl hrepr
      | float x => exact hshort _ rfl hrepr
      | list items => exact hshort _ rfl hrepr
      | dict fields => exact hshort _ rfl hrepr
      | foreign name text repr => cases hjson

/-- The client sends the {lit}`str` of a value exactly if it is no boolean, no null and no
list. -/
theorem queryTexts_eq_iff {rt : Runtime} {value : Value} (hjson : value.isJson = true)
    (hstr : (rt.pyStr value).isSome = true) :
    rt.queryTexts (.json value) = [rt.strText value] ↔ value.sentAsText = true := by
  cases value with
  | none => simp [Runtime.queryTexts, Runtime.primitiveText, Runtime.strText, Value.sentAsText,
      Runtime.pyStr, Runtime.pyRepr, PyText.ofString]
  | bool b => cases b <;> simp [Runtime.queryTexts, Runtime.primitiveText, Runtime.strText,
      Value.sentAsText, Runtime.pyStr, Runtime.pyRepr, PyText.ofString]
  | list items =>
      refine iff_of_false (fun h => ?_) (by simp [Value.sentAsText])
      cases items with
      | nil => simp [Runtime.queryTexts] at h
      | cons item rest =>
          cases rest with
          | nil =>
              have hitem : item.isJson = true := by
                simpa [Value.isJson, Value.itemsAreJson] using hjson
              have hlt := primitiveText_lt_list hitem hstr
              simp only [Runtime.queryTexts, List.map_cons, List.map_nil, List.cons.injEq,
                and_true] at h
              rw [h] at hlt
              omega
          | cons other rest => simp [Runtime.queryTexts] at h
  | _ => simp [Runtime.queryTexts, Runtime.primitiveText, Value.sentAsText]

/-! ## Headers that are added -/

/-- The header under which a credential is sent. -/
def AuthConfig.headerName? (auth : AuthConfig) : Option String :=
  match auth.type with
  | .bearer => some "Authorization"
  | .basic => some "Authorization"
  | .apiKey =>
      match auth.location with
      | .header => some auth.name
      | .query => none

/-- The query parameter under which a credential is sent. -/
def AuthConfig.queryName? (auth : AuthConfig) : Option String :=
  match auth.type, auth.location with
  | .apiKey, .query => some auth.name
  | _, _ => none

/-- A credential is sent under one name. -/
theorem keys_applyAuth {auth : AuthConfig} {value : PyText} {wire : WireValues × WireValues}
    (h : applyAuth auth value = .ok wire) :
    wire.1.keys = auth.headerName?.toList ∧ wire.2.keys = auth.queryName?.toList := by
  unfold applyAuth at h
  unfold AuthConfig.headerName? AuthConfig.queryName?
  cases htype : auth.type with
  | bearer =>
      simp only [htype, Except.ok.injEq] at h
      rw [← h]
      exact ⟨rfl, rfl⟩
  | apiKey =>
      cases hlocation : auth.location with
      | header =>
          simp only [htype, hlocation, Except.ok.injEq] at h
          rw [← h]
          exact ⟨rfl, rfl⟩
      | query =>
          simp only [htype, hlocation, Except.ok.injEq] at h
          rw [← h]
          exact ⟨rfl, rfl⟩
  | basic =>
      simp only [htype] at h
      cases hencoded : b64encode (auth.userpass value) with
      | error exc => simp [hencoded] at h
      | ok encoded =>
          simp only [hencoded, Except.ok.injEq] at h
          rw [← h]
          exact ⟨rfl, rfl⟩

/-- A header of this name is given. -/
def Given (headers : List (String × PyText)) (name : String) : Bool :=
  headers.any fun given => sameHeader given.1 name

/-- The config or the credential gives a header of this name. -/
def ApiRequestConfig.NamesHeader (cfg : ApiRequestConfig) (auth : AuthConfig) (name : String) :
    Prop :=
  ∃ key, (key ∈ cfg.headers.keys ∨ auth.headerName? = some key) ∧ sameHeader key name = true

theorem given_iff (headers : OrderedDict String PyText) (name : String) :
    Given headers.entries name = true ↔ ∃ key ∈ headers.keys, sameHeader key name = true := by
  rw [Given, List.any_eq_true]
  constructor
  · intro hboth
    rcases hboth with ⟨entry, hentry, hsame⟩
    exact ⟨entry.1, List.mem_map_of_mem hentry, hsame⟩
  · intro hboth
    rcases hboth with ⟨key, hkey, hsame⟩
    rcases List.mem_map.mp hkey with ⟨entry, hentry, rfl⟩
    exact ⟨entry, hentry, hsame⟩

private theorem setDefaultHeader_eq (headers : List (String × PyText)) (header : String × PyText) :
    setDefaultHeader headers header =
      headers ++ if Given headers header.1 then [] else [header] := by
  unfold setDefaultHeader Given
  split <;> simp

/-- The two headers of a body are added each on its own. -/
theorem requestHeaders_body (headers : OrderedDict String PyText) (length type : PyText) :
    requestHeaders headers none [("Content-Length", length), ("Content-Type", type)] =
      headers.entries ++
        ((if Given headers.entries "Content-Length" then [] else [("Content-Length", length)]) ++
          if Given headers.entries "Content-Type" then [] else [("Content-Type", type)]) := by
  have hother : sameHeader "Content-Length" "Content-Type" = false := by decide +kernel
  have hgiven : ∀ extra : List (String × PyText),
      extra = [] ∨ extra = [("Content-Length", length)] →
      Given (headers.entries ++ extra) "Content-Type" = Given headers.entries "Content-Type" := by
    rintro extra (rfl | rfl)
    · rw [List.append_nil]
    · simp [Given, hother]
  simp only [requestHeaders, Option.toList_none, List.map_nil, List.nil_append, List.foldl_cons,
    List.foldl_nil, setDefaultHeader_eq]
  rw [hgiven _ (by split <;> simp), List.append_assoc]

private theorem requestHeaders_cookie (headers : OrderedDict String PyText) (cookie : PyText) :
    requestHeaders headers (some cookie) [] =
      headers.entries ++ if Given headers.entries "Cookie" then [] else [("Cookie", cookie)] := by
  simp only [requestHeaders, Option.toList_some, List.map_cons, List.map_nil, List.append_nil,
    List.foldl_cons, List.foldl_nil, setDefaultHeader_eq]

/-- Headers with the same names in the same order are the same, with a cookie and with a
body, exactly if their texts are and neither the cookie nor the body adds one. -/
theorem requestHeaders_eq_iff {U : Type} {httpx : Httpx U}
    {headers headers' : OrderedDict String PyText} (hkeys : headers.keys = headers'.keys)
    (cookie : Option PyText) {body : Value} {added : List (String × PyText)}
    (hbody : httpx.bodyHeaders body = some added) :
    requestHeaders headers cookie [] = requestHeaders headers' none added ↔
      headers = headers' ∧ (cookie = none ∨ Given headers.entries "Cookie" = true) ∧
        (body = .none ∨ Given headers.entries "Content-Length" = true ∧
          Given headers.entries "Content-Type" = true) := by
  have hcookie : ∃ extra : List (String × PyText),
      requestHeaders headers cookie [] = headers.entries ++ extra ∧
      (extra = [] ↔ cookie = none ∨ Given headers.entries "Cookie" = true) ∧
      (extra = [] ∨ extra.map Prod.fst = ["Cookie"]) := by
    cases cookie with
    | none => exact ⟨[], by simp [requestHeaders], by simp, Or.inl rfl⟩
    | some text =>
        refine ⟨_, requestHeaders_cookie headers text, ?_, ?_⟩
        · split <;> simp_all
        · split <;> simp
  have hadded : ∃ extra : List (String × PyText),
      requestHeaders headers' none added = headers'.entries ++ extra ∧
      (extra = [] ↔ body = .none ∨ Given headers.entries "Content-Length" = true ∧
        Given headers.entries "Content-Type" = true) ∧ "Cookie" ∉ extra.map Prod.fst := by
    by_cases hnone : body = .none
    · subst hnone
      cases hbody
      exact ⟨[], by simp [requestHeaders], by simp, by simp⟩
    · have hsome : ∃ length, added =
          [("Content-Length", length), ("Content-Type", PyText.ofString "application/json")] := by
        unfold Httpx.bodyHeaders at hbody
        split at hbody
        · exact absurd rfl hnone
        · rcases Option.map_eq_some_iff.mp hbody with ⟨length, _, rfl⟩
          exact ⟨length, rfl⟩
      rcases hsome with ⟨length, rfl⟩
      have hgiven : ∀ name, Given headers'.entries name = Given headers.entries name := by
        intro name
        rw [Bool.eq_iff_iff, given_iff, given_iff, hkeys]
      refine ⟨_, requestHeaders_body headers' length _, ?_, ?_⟩
      · simp only [hnone, false_or, hgiven]
        split <;> split <;> simp_all
      · split <;> split <;> simp
  rcases hcookie with ⟨extra, hextra, hempty, hnames⟩
  rcases hadded with ⟨extra', hextra', hempty', hnot⟩
  have hlength : headers.entries.length = headers'.entries.length := by
    simpa [OrderedDict.keys] using congrArg List.length hkeys
  rw [hextra, hextra', ← hempty, ← hempty']
  constructor
  · intro hsame
    rcases List.append_inj hsame hlength with ⟨hentries, rfl⟩
    have hheaders := OrderedDict.eq_iff_entries.mpr hentries
    rcases hnames with hnil | hnames
    · exact ⟨hheaders, hnil, hnil⟩
    · exact absurd (by rw [hnames]; exact List.mem_singleton_self _) hnot
  · intro h
    rcases h with ⟨rfl, rfl, rfl⟩
    rfl

end EtlTool
