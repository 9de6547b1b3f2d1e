import EtlTool.Core.UnescapedTexts
import EtlTool.Nodes.Ciphers
import EtlTool.Nodes.UrlPaths

/-!
# When the tester sends what a run sends

A run takes the escapes out of a config before it builds the request, the tester does not.
An escape matters only where it reaches the request: in the URL or a value that is filled
into it, in a parameter or header that the credential does not replace, and in the fields
that the authentication reads.

Main results:

- Theorem {lit}`shortened_formatUrl`: the URL that a run fills in.
- Theorem {lit}`applyAuth_eq_iff`: the credential that it sends.
- Theorem {lit}`testerRequest_alike_iff`: when both requests go to the same place under the
  same names, and when they are then the same.
- Theorem {lit}`tester_sends_other_url`: a boolean parameter.

Current gaps:

- Whether the client makes the same request of two different URLs.
-/

namespace EtlTool

/-! ## The config of a run -/

/-- The authentication of a config without its escapes. -/
def AuthConfig.unescaped (auth : AuthConfig) : AuthConfig where
  type := auth.type
  secretRef := unescapeText auth.secretRef
  name := unescapeText auth.name
  location := auth.location
  username := auth.username.map unescapeText

/-- The config without its escapes. -/
def ApiRequestConfig.unescaped (cfg : ApiRequestConfig) : ApiRequestConfig where
  url := unescapeText cfg.url
  pathParams := cfg.pathParams.map Value.unescaped
  queryParams := cfg.queryParams.map Value.unescaped
  headers := cfg.headers.map Value.unescaped
  body := cfg.body.unescaped
  auth := cfg.auth.map AuthConfig.unescaped

private theorem strField?_unescaped (config : Fields) (key : String) :
    strField? (Value.unescapedFields config) key = (strField? config key).map unescapeText := by
  unfold strField?
  rw [lookup_unescapedFields]
  cases config.lookup key with
  | none => rfl
  | some value => cases value <;> rfl

private theorem dictField?_unescaped (config : Fields) (key : String) :
    dictField? (Value.unescapedFields config) key =
      (dictField? config key).map fun values => values.map Value.unescaped := by
  unfold dictField?
  rw [lookup_unescapedFields]
  cases config.lookup key with
  | none => rfl
  | some value =>
      cases value with
      | dict fields =>
          simp only [Option.map_some, Value.unescaped, unescapedFields_eq_map,
            OrderedDict.map_ofList]
      | _ => rfl

/-- The names of the types of authentication are not escaped. -/
private theorem authType?_unescaped {name : String} {type : AuthType}
    (h : authType? name = some type) :
    authType? (unescapeText name) = some type := by
  have hname : unescapeText name = name := by
    unfold authType? at h
    split at h
    · decide
    · decide
    · decide
    · cases h
  rw [hname, h]

/-- {lit}`AuthConfig.name`. -/
def authName? (fields : Fields) : Option String :=
  match fields.lookup "name" with
  | none => some "X-API-Key"
  | some (.str name) => some name
  | some _ => none

/-- {lit}`AuthConfig.username`. -/
def authUsername? (fields : Fields) : Option (Option String) :=
  match fields.lookup "username" with
  | none => some none
  | some .none => some none
  | some (.str username) => some (some username)
  | some _ => none

private theorem authConfig?_eq_some_iff {fields : Fields} {auth : AuthConfig} :
    authConfig? fields = some auth ↔
      fields.all (fun field =>
        ["type", "secret_ref", "name", "in", "location", "username"].contains field.1) = true ∧
      (strField? fields "type").bind authType? = some auth.type ∧
      strField? fields "secret_ref" = some auth.secretRef ∧
      authName? fields = some auth.name ∧ authLocation? fields = some auth.location ∧
      authUsername? fields = some auth.username := by
  have hnamed : authConfig? fields = (do
      guard (fields.all fun field =>
        ["type", "secret_ref", "name", "in", "location", "username"].contains field.1)
      let type ← (strField? fields "type").bind authType?
      let secretRef ← strField? fields "secret_ref"
      let name ← authName? fields
      let location ← authLocation? fields
      let username ← authUsername? fields
      some { type, secretRef, name, location, username }) := by
    unfold authConfig? authName? authUsername?
    rcases hname : fields.lookup "name" with _ | value
    · rcases husername : fields.lookup "username" with _ | value
      · rfl
      · cases value <;> rfl
    · rcases husername : fields.lookup "username" with _ | value'
      · cases value <;> rfl
      · cases value <;> cases value' <;> rfl
  simp only [hnamed, Option.bind_eq_bind, Option.bind_eq_some_iff, Option.guard_eq_some',
    Option.some.injEq]
  constructor
  · intro h
    rcases h with ⟨_, hkeys, type, htype, secretRef, hsecretRef, name, hname, location, hlocation,
      username, husername, rfl⟩
    exact ⟨hkeys, htype, hsecretRef, hname, hlocation, husername⟩
  · intro h
    rcases h with ⟨hkeys, htype, hsecretRef, hname, hlocation, husername⟩
    exact ⟨(), hkeys, _, htype, _, hsecretRef, _, hname, _, hlocation, _, husername, rfl⟩

private theorem authName?_unescaped (fields : Fields) :
    authName? (Value.unescapedFields fields) = (authName? fields).map unescapeText := by
  unfold authName?
  rw [lookup_unescapedFields]
  cases fields.lookup "name" with
  | none => exact congrArg some (by decide)
  | some value => cases value <;> rfl

private theorem authUsername?_unescaped (fields : Fields) :
    authUsername? (Value.unescapedFields fields) =
      (authUsername? fields).map (Option.map unescapeText) := by
  unfold authUsername?
  rw [lookup_unescapedFields]
  cases fields.lookup "username" with
  | none => rfl
  | some value => cases value <;> rfl

private theorem authLocation?_unescaped {fields : Fields} {location : AuthLocation}
    (h : authLocation? fields = some location) :
    authLocation? (Value.unescapedFields fields) = some location := by
  have hread : ∀ value, authLocation? [("in", value)] = some location →
      value.unescaped = value := by
    intro value hvalue
    have hfield : List.lookup "in" [("in", value)] = some value := rfl
    have hother : List.lookup "location" [("in", value)] = none := rfl
    simp only [authLocation?, hfield, hother] at hvalue
    split at hvalue
    · rename_i heq
      cases heq
    · rename_i heq
      cases heq
      exact congrArg Value.str (by decide)
    · rename_i heq
      cases heq
      exact congrArg Value.str (by decide)
    · cases hvalue
  unfold authLocation? at h ⊢
  simp only [lookup_unescapedFields]
  cases hin : fields.lookup "in" with
  | none =>
      cases hlocation : fields.lookup "location" with
      | none =>
          rw [hin, hlocation] at h
          exact h
      | some value =>
          rw [hin, hlocation] at h
          rw [Option.map_none, Option.map_some, hread value h]
          exact h
  | some value =>
      cases hlocation : fields.lookup "location" with
      | none =>
          rw [hin, hlocation] at h
          rw [Option.map_none, Option.map_some, hread value h]
          exact h
      | some value' => simp [hin, hlocation] at h

private theorem authConfig?_unescaped {fields : Fields} {auth : AuthConfig}
    (h : authConfig? fields = some auth) :
    authConfig? (Value.unescapedFields fields) = some auth.unescaped := by
  rw [authConfig?_eq_some_iff] at h ⊢
  rcases h with ⟨hkeys, htype, hsecretRef, hname, hlocation, husername⟩
  refine ⟨?_, ?_, ?_, ?_, authLocation?_unescaped hlocation, ?_⟩
  · rw [unescapedFields_eq_map, List.all_map]
    exact hkeys
  · rcases Option.bind_eq_some_iff.mp htype with ⟨typeName, htypeName, htype⟩
    rw [strField?_unescaped, htypeName]
    exact authType?_unescaped htype
  · rw [strField?_unescaped, hsecretRef]
    rfl
  · rw [authName?_unescaped, hname]
    rfl
  · rw [authUsername?_unescaped, husername]
    rfl

private theorem authField?_unescaped {config : Fields} {auth : Option AuthConfig}
    (h : authField? config = some auth) :
    authField? (Value.unescapedFields config) = some (auth.map AuthConfig.unescaped) := by
  unfold authField? at h ⊢
  rw [lookup_unescapedFields]
  split at h
  · rename_i hlookup
    cases h
    rw [hlookup]
    rfl
  · rename_i hlookup
    cases h
    rw [hlookup]
    rfl
  · rename_i fields hlookup
    rcases Option.map_eq_some_iff.mp h with ⟨auth', hauth', rfl⟩
    have hunescaped := authConfig?_unescaped hauth'
    rw [hlookup]
    exact Option.map_eq_some_iff.mpr ⟨_, hunescaped, rfl⟩
  · cases h

/-- A config that the tester validates is validated by a run, without its escapes. -/
theorem apiRequestConfig?_unescaped {raw : Fields} {cfg : ApiRequestConfig}
    (h : apiRequestConfig? raw = some cfg) :
    apiRequestConfig? (Value.unescapedFields raw) = some cfg.unescaped := by
  simp only [apiRequestConfig?, Option.bind_eq_bind, Option.bind_eq_some_iff,
    Option.guard_eq_some', Option.some.injEq] at h ⊢
  rcases h with ⟨_, hkeys, _, hmethod, _, hpages, url, hurl, path, hpath, query, hquery,
    headers, hheaders, auth, hauth, rfl⟩
  simp only [strField?_unescaped, dictField?_unescaped, hurl, hpath, hquery, hheaders,
    authField?_unescaped hauth, Option.map_some, Option.some.injEq, exists_eq_left']
  refine ⟨(), ?_, (), ?_, (), ?_, ?_⟩
  · rw [unescapedFields_eq_map, List.all_map]
    exact hkeys
  · rw [lookup_unescapedFields]
    rcases hmethod with hnone | hget
    · rw [hnone]
      exact Or.inl rfl
    · rw [hget]
      exact Or.inr (congrArg some (congrArg Value.str (by decide)))
  · rw [lookup_unescapedFields]
    rcases hpages with hnone | hnull
    · rw [hnone]
      exact Or.inl rfl
    · rw [hnull]
      exact Or.inr rfl
  · rw [lookup_unescapedFields]
    cases raw.lookup "body" <;> rfl

/-! ## The URL -/

/-- The symbols of the URL template of a config. -/
def ApiRequestConfig.urlSymbols (cfg : ApiRequestConfig) : List TemplateSymbol :=
  templateSymbols cfg.url.toList.length cfg.url.toList

/-- No placeholder of the URL has an escaped value. -/
def ApiRequestConfig.PlainParams (cfg : ApiRequestConfig) : Prop :=
  ∀ name, .param name ∈ cfg.urlSymbols → ∀ value,
    cfg.pathParams.get? (String.ofList name) = some value → value.EscapeFree

section

variable {rt : Runtime} {pathParams : OrderedDict String Value}

/-- The quoted text of a parameter is shortened by its escapes. -/
theorem shortened_param {name : List Char}
    (hparam : ((pathParams.get? (String.ofList name)).bind rt.pyStr).isSome = true) :
    Shortened (∀ value, pathParams.get? (String.ofList name) = some value → value.EscapeFree)
      (rt.fillSymbol (pathParams.map Value.unescaped) (.param name))
      (rt.fillSymbol pathParams (.param name)) := by
  have hquote : ∀ c : Char, percentQuote [c] ≠ [] := by
    intro c hempty
    rw [percentQuote_eq_flatMap, List.flatMap_eq_nil_iff] at hempty
    have hbytes := utf8Bytes_ne_nil (List.cons_ne_nil c [])
    rcases List.exists_mem_of_ne_nil _ hbytes with ⟨byte, hbyte⟩
    have hbare := hempty byte hbyte
    unfold quoteByte at hbare
    split at hbare <;> cases hbare
  have hflat : ∀ text, percentQuote text = text.flatMap fun c => percentQuote [c] := by
    intro text
    induction text with
    | nil => rfl
    | cons c rest ih => rw [percentQuote_cons, List.flatMap_cons, ← ih]
  rcases Option.isSome_iff_exists.mp hparam with ⟨text, htext⟩
  rcases Option.bind_eq_some_iff.mp htext with ⟨value, hvalue, hstr⟩
  rcases shortened_pyStr rt hstr with ⟨text', hstr', hshort⟩
  simp only [Runtime.fillSymbol, Runtime.paramText, OrderedDict.get?_map, hvalue,
    Option.map_some, Option.bind_some, hstr, hstr', Option.some.injEq, forall_eq']
  rw [hflat text'.toList, hflat text.toList]
  exact hshort.flatMap hquote

/-- Of a filled template nothing is left out exactly if no value in it is escaped. -/
theorem shortened_symbols {symbols : List TemplateSymbol}
    (hparams : ∀ name, .param name ∈ symbols →
      ((pathParams.get? (String.ofList name)).bind rt.pyStr).isSome = true) :
    Shortened (∀ name, .param name ∈ symbols → ∀ value,
        pathParams.get? (String.ofList name) = some value → value.EscapeFree)
      (symbols.flatMap (rt.fillSymbol (pathParams.map Value.unescaped)))
      (symbols.flatMap (rt.fillSymbol pathParams)) := by
  induction symbols with
  | nil => exact (Shortened.refl _).congr (by simp)
  | cons symbol rest ih =>
      have hrest := ih fun name hname => hparams name (List.mem_cons_of_mem symbol hname)
      rw [List.flatMap_cons, List.flatMap_cons]
      cases symbol with
      | literal c =>
          refine (hrest.same_append [c]).congr ?_
          simp
      | param name =>
          refine ((shortened_param (hparams name List.mem_cons_self)).append hrest).congr ?_
          simp only [List.mem_cons, TemplateSymbol.param.injEq, or_imp, forall_and, forall_eq]

end

/-- The URL that a run fills in is the tester's with characters left out, and none is left
out exactly if neither the template nor a value that is filled into it is escaped. -/
theorem shortened_formatUrl {rt : Runtime} {cfg : ApiRequestConfig} {filled filled' : String}
    (h : rt.formatUrl cfg.url cfg.pathParams = .ok filled)
    (h' : rt.formatUrl cfg.unescaped.url cfg.unescaped.pathParams = .ok filled') :
    Shortened (isEscaped cfg.url = false ∧ cfg.PlainParams) filled'.toList filled.toList := by
  rcases exceptMap_eq_ok h with ⟨chars, hchars, rfl⟩
  rcases exceptMap_eq_ok h' with ⟨chars', hchars', rfl⟩
  rw [String.toList_ofList, String.toList_ofList, fillTemplate_eq _ hchars,
    fillTemplate_eq _ hchars']
  have hparams := shortened_symbols (param_of_fillTemplate _ hchars)
  cases hescaped : isEscaped cfg.url with
  | false =>
      simp only [ApiRequestConfig.unescaped, unescapeText_of_not_isEscaped hescaped]
      exact hparams.congr (by simp [ApiRequestConfig.PlainParams, ApiRequestConfig.urlSymbols])
  | true =>
      rcases toList_of_isEscaped hescaped with ⟨rest, hurl, hrest⟩
      -- the dollar that a run takes away is a literal of the template
      have hsymbols : templateSymbols cfg.url.toList.length cfg.url.toList =
          .literal '$' :: templateSymbols cfg.unescaped.url.toList.length
            cfg.unescaped.url.toList := by
        rw [hurl] at hchars ⊢
        rw [ApiRequestConfig.unescaped, hrest]
        exact templateSymbols_literal (by decide) hchars
      have htail : ∀ name, .param name ∈ templateSymbols cfg.unescaped.url.toList.length
          cfg.unescaped.url.toList →
            ((cfg.pathParams.get? (String.ofList name)).bind rt.pyStr).isSome = true := by
        intro name hname
        refine param_of_fillTemplate _ hchars name ?_
        rw [hsymbols]
        exact List.mem_cons_of_mem _ hname
      rw [hsymbols]
      exact ((shortened_symbols htail).leaveOut '$').congr (by simp)

/-! ## The credential -/

/-- Base64 tells texts apart. -/
theorem base64Encode_inj {text text' : List Char} (h : base64Encode text = base64Encode text') :
    text = text' := by
  have hbytes : utf8Bytes text = utf8Bytes text' := by
    have hdecoded := congrArg b64decode? h
    rw [base64Encode, base64Encode, b64decode?_base64Bytes, b64decode?_base64Bytes] at hdecoded
    exact Option.some.inj hdecoded
  have htext := fromUTF8?_utf8Bytes (String.ofList text)
  have htext' := fromUTF8?_utf8Bytes (String.ofList text')
  rw [String.toList_ofList] at htext htext'
  rw [hbytes, htext', Option.some.injEq] at htext
  exact String.ofList_injective htext.symm

private theorem b64encode_inj {text text' encoded : PyText} (h : b64encode text = .ok encoded)
    (h' : b64encode text' = .ok encoded) : text = text' := by
  unfold b64encode at h h'
  split at h
  · cases h
  · rename_i scalars hscalars
    split at h'
    · cases h'
    · rename_i scalars' hscalars'
      cases h
      have hsame := List.map_injective_iff.mpr CodePoint.scalar_injective (Except.ok.inj h')
      rw [eq_map_of_scalars? hscalars, eq_map_of_scalars? hscalars', base64Encode_inj hsame]

/-- A text in front of a mark cannot be told to begin with another element. -/
theorem cons_append_mark_ne {α : Type} {first mark : α} (hne : first ≠ mark) (word : List α)
    (rest rest' : List α) : first :: (word ++ mark :: rest) ≠ word ++ mark :: rest' := by
  induction word with
  | nil =>
      intro h
      exact hne (List.cons.inj h).1
  | cons letter word ih =>
      intro h
      rw [List.cons_append, List.cons_append, List.cons.injEq] at h
      rcases h with ⟨rfl, h⟩
      exact ih h

/-- A username shows in front of its colon. -/
theorem userpass_eq_iff (auth : AuthConfig) (value value' : PyText) :
    auth.userpass value = auth.unescaped.userpass value' ↔
      value = value' ∧ ∀ username, auth.username = some username →
        isEscaped username = false := by
  cases husername : auth.username with
  | none => simp [AuthConfig.userpass, AuthConfig.unescaped, husername]
  | some username =>
      simp only [AuthConfig.userpass, AuthConfig.unescaped, husername, Option.map_some,
        Option.some.injEq, forall_eq']
      cases hescaped : isEscaped username with
      | false => simp [unescapeText_of_not_isEscaped hescaped]
      | true =>
          refine iff_of_false (fun h => ?_) (by simp)
          rcases toList_of_isEscaped hescaped with ⟨rest, htext, hrest⟩
          simp only [PyText.ofString, htext, hrest, List.map_cons, List.append_assoc] at h
          have hne : CodePoint.scalar '$' ≠ .scalar ':' := by decide
          exact cons_append_mark_ne hne (.scalar '$' :: rest.map .scalar) value value' h

/-- The credential is sent under the same names. -/
def AuthConfig.SameNames (auth : AuthConfig) : Prop :=
  auth.unescaped.headerName? = auth.headerName? ∧ auth.unescaped.queryName? = auth.queryName?

/-- Only an API key is sent under a name of the config. -/
theorem sameNames_iff (auth : AuthConfig) :
    auth.SameNames ↔ (auth.type = .apiKey → isEscaped auth.name = false) := by
  unfold AuthConfig.SameNames AuthConfig.headerName? AuthConfig.queryName?
  rw [← unescapeText_eq_iff]
  cases htype : auth.type with
  | bearer => simp [AuthConfig.unescaped, htype]
  | basic => simp [AuthConfig.unescaped, htype]
  | apiKey => cases hlocation : auth.location <;> simp [AuthConfig.unescaped, htype, hlocation]

/-- Under the same names the same credential is sent exactly if the secrets are the same and
the username of basic authentication is not escaped. -/
theorem applyAuth_eq_iff {auth : AuthConfig} (hnames : auth.SameNames) {value value' : PyText}
    {wire wire' : WireValues × WireValues} (hwire : applyAuth auth value = .ok wire)
    (hwire' : applyAuth auth.unescaped value' = .ok wire') :
    wire.1 = wire'.1 ∧ wire.2 = wire'.2 ↔
      value = value' ∧ (auth.type = .basic → ∀ username, auth.username = some username →
        isEscaped username = false) := by
  have hsingleton : ∀ {name : String} {text text' : PyText},
      OrderedDict.singleton name text = .singleton name text' ↔ text = text' := by
    intro name text text'
    simp [OrderedDict.singleton]
  rw [sameNames_iff, ← unescapeText_eq_iff] at hnames
  have htype' : auth.unescaped.type = auth.type := rfl
  have hname' : auth.unescaped.name = unescapeText auth.name := rfl
  have hlocation' : auth.unescaped.location = auth.location := rfl
  unfold applyAuth at hwire hwire'
  rw [htype'] at hwire'
  cases htype : auth.type with
  | bearer =>
      simp only [htype, Except.ok.injEq] at hwire hwire'
      subst hwire hwire'
      simp [hsingleton]
  | apiKey =>
      rw [hname', hnames htype, hlocation'] at hwire'
      cases hlocation : auth.location with
      | header =>
          simp only [htype, hlocation, Except.ok.injEq] at hwire hwire'
          subst hwire hwire'
          simp [hsingleton]
      | query =>
          simp only [htype, hlocation, Except.ok.injEq] at hwire hwire'
          subst hwire hwire'
          simp [hsingleton]
  | basic =>
      simp only [htype] at hwire hwire'
      cases hencoded : b64encode (auth.userpass value) with
      | error exc => simp [hencoded] at hwire
      | ok encoded =>
          cases hencoded' : b64encode (auth.unescaped.userpass value') with
          | error exc => simp [hencoded'] at hwire'
          | ok encoded' =>
              simp only [hencoded, hencoded', Except.ok.injEq] at hwire hwire'
              subst hwire hwire'
              have hiff : encoded = encoded' ↔
                  auth.userpass value = auth.unescaped.userpass value' := by
                constructor
                · rintro rfl
                  exact b64encode_inj hencoded hencoded'
                · intro hsame
                  rw [hsame, hencoded'] at hencoded
                  exact (Except.ok.inj hencoded).symm
              simp only [hsingleton, List.append_cancel_left_eq, and_true, hiff,
                userpass_eq_iff, forall_const]

/-! ## Parameters and headers -/

mutual

private theorem isJson_unescaped : ∀ v : Value, v.unescaped.isJson = v.isJson
  | .str _ => rfl
  | .list items => itemsAreJson_unescaped items
  | .dict fields => fieldsAreJson_unescaped fields
  | .none => rfl
  | .bool _ => rfl
  | .int _ => rfl
  | .float _ => rfl
  | .foreign _ _ _ => rfl

private theorem itemsAreJson_unescaped : ∀ items : List Value,
    Value.itemsAreJson (Value.unescapedItems items) = Value.itemsAreJson items
  | [] => rfl
  | v :: rest => by
      rw [Value.unescapedItems, Value.itemsAreJson, Value.itemsAreJson, isJson_unescaped v,
        itemsAreJson_unescaped rest]

private theorem fieldsAreJson_unescaped : ∀ fields : Fields,
    Value.fieldsAreJson (Value.unescapedFields fields) = Value.fieldsAreJson fields
  | [] => rfl
  | (_, v) :: rest => by
      rw [Value.unescapedFields, Value.fieldsAreJson, Value.fieldsAreJson, isJson_unescaped v,
        fieldsAreJson_unescaped rest]

end

section

variable {rt : Runtime}

/-- A run sends the same text for a header exactly if nothing in it is escaped. -/
theorem strText_unescaped_iff {value : Value} (hstr : (rt.pyStr value).isSome = true) :
    rt.strText value = rt.strText value.unescaped ↔ value.EscapeFree := by
  rcases Option.isSome_iff_exists.mp hstr with ⟨text, htext⟩
  rcases shortened_pyStr rt htext with ⟨text', htext', hshort⟩
  rw [Runtime.strText, Runtime.strText, htext, htext', Option.getD_some, Option.getD_some,
    ← hshort.same_iff]
  constructor
  · intro h
    exact (List.map_injective_iff.mpr CodePoint.scalar_injective h).symm
  · intro h
    rw [PyText.ofString, ← h]
    rfl

/-- A list is never sent as the text that the tester sends for it: the text of its only item
is shorter. -/
theorem list_ne_queryTexts {items : List Value} (hjson : (Value.list items).isJson = true)
    (hstr : (rt.pyStr (.list items)).isSome = true) :
    [rt.strText (.list items)] ≠ rt.queryTexts (.json (Value.list items).unescaped) := by
  intro h
  rw [Value.unescaped, Runtime.queryTexts] at h
  have hlength := congrArg List.length h
  cases items with
  | nil => cases hlength
  | cons item rest =>
      cases rest with
      | cons other rest => simp [Value.unescapedItems] at hlength
      | nil =>
          rcases Option.isSome_iff_exists.mp hstr with ⟨text, htext⟩
          rcases shortened_pyStr rt htext with ⟨text', htext', hshort⟩
          have hitem : item.unescaped.isJson = true := by
            rw [isJson_unescaped]
            simpa [Value.isJson, Value.itemsAreJson] using hjson
          have hlt := primitiveText_lt_list hitem (congrArg Option.isSome htext')
          have hle : (rt.strText (.list [item.unescaped])).length ≤
              (rt.strText (.list [item])).length := by
            have htexts : rt.pyStr (.list [item.unescaped]) = some text' := htext'
            simp only [Runtime.strText, htext, htexts, Option.getD_some, length_ofString]
            exact hshort.sublist.length_le
          rw [Value.unescapedItems, Value.unescapedItems, List.map_cons, List.map_nil,
            List.cons.injEq] at h
          rw [← h.1] at hlt
          omega

/-- A run sends for a parameter the text that the tester sends exactly if the value is no
boolean, no null and no list, and nothing in it is escaped. -/
theorem queryTexts_unescaped_iff {value : Value} (hjson : value.isJson = true)
    (hstr : (rt.pyStr value).isSome = true) :
    [rt.strText value] = rt.queryTexts (.json value.unescaped) ↔
      value.sentAsText = true ∧ value.EscapeFree := by
  have hstr' : (rt.pyStr value.unescaped).isSome = true := by
    rcases Option.isSome_iff_exists.mp hstr with ⟨text, htext⟩
    rcases shortened_pyStr rt htext with ⟨text', htext', _⟩
    rw [htext']
    rfl
  have hkind : value.unescaped.sentAsText = value.sentAsText := by
    cases value <;> rfl
  have hjson' : value.unescaped.isJson = true := by rw [isJson_unescaped, hjson]
  have hsent := queryTexts_eq_iff hjson' hstr'
  rw [hkind] at hsent
  cases htext : value.sentAsText with
  | true =>
      rw [hsent.mpr htext, List.cons.injEq, and_iff_left rfl, strText_unescaped_iff hstr]
      simp
  | false =>
      refine iff_of_false (fun h => ?_) (by simp)
      rw [htext] at hsent
      cases value with
      | none => cases hsent.mp h.symm
      | bool b => cases hsent.mp h.symm
      | list items => exact list_ne_queryTexts hjson hstr h
      | _ => cases htext

end

/-- The query parameters of a JSON config are JSON values. -/
private theorem queryParams_isJson {raw : Fields} {cfg : ApiRequestConfig}
    (hjson : Value.fieldsAreJson raw = true) (hcfg : apiRequestConfig? raw = some cfg)
    {key : String} {v : Value} (hv : cfg.queryParams.get? key = some v) : v.isJson = true := by
  simp only [apiRequestConfig?, Option.bind_eq_bind, Option.bind_eq_some_iff,
    Option.guard_eq_some', Option.some.injEq] at hcfg
  rcases hcfg with ⟨_, _, _, _, _, _, url, _, path, _, query, hquery, headers, _, auth, _, rfl⟩
  unfold dictField? at hquery
  cases hlookup : raw.lookup "query_params" with
  | none =>
      simp only [hlookup, Option.some.injEq] at hquery
      subst hquery
      cases hv
  | some value =>
      cases value with
      | dict fields =>
          simp only [hlookup, Option.some.injEq] at hquery
          subst hquery
          have hfields : (Value.dict fields).isJson = true :=
            (fieldsAreJson_iff raw).mp hjson _ (mem_of_lookup_eq_some hlookup)
          exact (fieldsAreJson_iff fields).mp hfields _ (OrderedDict.mem_of_get?_ofList hv)
      | _ => simp [hlookup] at hquery

/-! ## When the requests are alike -/

/-- No escape is left in the URL that the tester fills in, nor in the name under which it
sends the credential. -/
structure ApiRequestConfig.PlainTarget (cfg : ApiRequestConfig) (auth : AuthConfig) :
    Prop where
  url : isEscaped cfg.url = false
  params : cfg.PlainParams
  name : auth.type = .apiKey → isEscaped auth.name = false

/-- What has to hold of a config, of the secrets and of the cookie that the tester's first
request left: every parameter that the credential does not replace is sent as a text, no
such parameter or header is escaped, nor is what the credential is made of; the headers give
a cookie if there is one, and they give both headers of the body if there is one. -/
structure RequestsAlike (secrets : String → Option PyText) (cfg : ApiRequestConfig)
    (auth : AuthConfig) (cookie : Option PyText) : Prop where
  params : ∀ key value, cfg.queryParams.get? key = some value → auth.queryName? ≠ some key →
    value.sentAsText = true ∧ value.EscapeFree
  headers : ∀ key value, cfg.headers.get? key = some value → auth.headerName? ≠ some key →
    value.EscapeFree
  secret : secrets auth.secretRef = secrets (unescapeText auth.secretRef)
  username : auth.type = .basic → ∀ username, auth.username = some username →
    isEscaped username = false
  cookie : cookie = none ∨ cfg.NamesHeader auth "Cookie"
  body : cfg.body = .none ∨
    cfg.NamesHeader auth "Content-Length" ∧ cfg.NamesHeader auth "Content-Type"

/-- Both requests have the same URL and the same headers. -/
def SameRequest {U : Type} (sent sent' : HttpRequest U) : Prop :=
  sent.url = sent'.url ∧ sent.headers = sent'.headers

/-- The tester and a run fill in the same URL and send the credential under the same name. -/
def SameTarget (rt : Runtime) (cfg : ApiRequestConfig) (auth : AuthConfig) : Prop :=
  rt.formatUrl cfg.url cfg.pathParams =
      rt.formatUrl cfg.unescaped.url cfg.unescaped.pathParams ∧ auth.SameNames

private theorem namesHeader_iff {cfg : ApiRequestConfig} {auth : AuthConfig} {value : PyText}
    {wire : WireValues × WireValues} (hwire : applyAuth auth value = .ok wire)
    {headers : OrderedDict String PyText} (hheaders : headers.keys = cfg.headers.keys)
    (name : String) :
    Given (headers.update wire.1).entries name = true ↔ cfg.NamesHeader auth name := by
  rw [given_iff]
  simp only [OrderedDict.mem_keys_update, (keys_applyAuth hwire).1, hheaders,
    Option.mem_toList, ApiRequestConfig.NamesHeader]
  exact exists_congr fun key => and_congr or_comm Iff.rfl

/-- What a dictionary of texts is made of. -/
private theorem strDict_eq_some {rt : Runtime} {values : OrderedDict String Value}
    {texts : OrderedDict String PyText} (h : rt.strDict values = some texts) :
    texts = values.map rt.strText ∧
      ∀ key value, values.get? key = some value → (rt.pyStr value).isSome = true := by
  unfold Runtime.strDict at h
  split at h
  · rename_i hall
    refine ⟨(Option.some.inj h).symm, fun key value hvalue => ?_⟩
    have hentry := (OrderedDict.get?_eq_some_iff _ _ _).mp hvalue
    exact List.all_eq_true.mp hall value (List.mem_map_of_mem (f := Prod.snd) hentry)
  · cases h

private theorem ok_of_toOption {ε α : Type} {result : Except ε α} {value : α}
    (h : result.toOption = some value) : result = .ok value := by
  cases result with
  | error e => cases h
  | ok value' =>
      cases h
      rfl

/-- The secret of a credential. -/
private theorem credentials_eq_some {secrets : String → Option PyText} {auth : AuthConfig}
    {wire : WireValues × WireValues} (h : credentials secrets auth = some wire) :
    ∃ value, secrets auth.secretRef = some value ∧ applyAuth auth value = .ok wire := by
  rcases Option.bind_eq_some_iff.mp h with ⟨value, hvalue, hwire⟩
  exact ⟨value, hvalue, ok_of_toOption hwire⟩

/-- The target is the same exactly if no escape is left in it. -/
theorem plainTarget_iff {rt : Runtime} {cfg : ApiRequestConfig} {auth : AuthConfig}
    {filled filled' : String} (h : rt.formatUrl cfg.url cfg.pathParams = .ok filled)
    (h' : rt.formatUrl cfg.unescaped.url cfg.unescaped.pathParams = .ok filled') :
    cfg.PlainTarget auth ↔ SameTarget rt cfg auth := by
  have hshort := shortened_formatUrl h h'
  have hfilled : rt.formatUrl cfg.url cfg.pathParams =
      rt.formatUrl cfg.unescaped.url cfg.unescaped.pathParams ↔
        isEscaped cfg.url = false ∧ cfg.PlainParams := by
    rw [h, h', ← hshort.same_iff, Except.ok.injEq, String.toList_inj, eq_comm]
  rw [SameTarget, hfilled, sameNames_iff]
  exact ⟨fun hplain => ⟨⟨hplain.url, hplain.params⟩, hplain.name⟩,
    fun hboth => ⟨hboth.1.1, hboth.1.2, hboth.2⟩⟩

private theorem unescaped_eq_none_iff (value : Value) : value.unescaped = .none ↔
    value = .none := by
  cases value <;> simp [Value.unescaped]

section

variable {rt : Runtime} {cfg : ApiRequestConfig} {auth : AuthConfig}
  {wire wire' : WireValues × WireValues} {value value' : PyText}
  (hwire : applyAuth auth value = .ok wire)
  (hwire' : applyAuth auth.unescaped value' = .ok wire') (hnames : auth.SameNames)

include hwire hwire' hnames

private theorem keys_wire : wire.1.keys = wire'.1.keys ∧ wire.2.keys = wire'.2.keys := by
  rw [(keys_applyAuth hwire).1, (keys_applyAuth hwire).2, (keys_applyAuth hwire').1,
    (keys_applyAuth hwire').2, hnames.1, hnames.2]
  exact ⟨rfl, rfl⟩

/-- The parameters of both requests have the same keys in the same order, and the same
texts exactly if the credential is the same and every other value is sent as a text that
has no escape. -/
theorem params_eq_iff (hjson : ∀ key v, cfg.queryParams.get? key = some v → v.isJson = true)
    (hstr : ∀ key v, cfg.queryParams.get? key = some v → (rt.pyStr v).isSome = true) :
    (((cfg.queryParams.map rt.strText).update wire.2).map fun text => [text]).keys =
        (((cfg.unescaped.queryParams.map ParamValue.json).update
          (wire'.2.map .credential)).map rt.queryTexts).keys ∧
      (((cfg.queryParams.map rt.strText).update wire.2).map (fun text => [text]) =
          ((cfg.unescaped.queryParams.map ParamValue.json).update
            (wire'.2.map .credential)).map rt.queryTexts ↔
        wire.2 = wire'.2 ∧ ∀ key v, cfg.queryParams.get? key = some v →
          auth.queryName? ≠ some key → v.sentAsText = true ∧ v.EscapeFree) := by
  have hkeys := (keys_wire hwire hwire' hnames).2
  have hquery : (cfg.queryParams.map rt.strText).map (fun text => [text]) =
      cfg.queryParams.map fun v => [rt.strText v] := by
    simp [OrderedDict.map, Function.comp_def]
  have hquery' : (cfg.unescaped.queryParams.map ParamValue.json).map rt.queryTexts =
      cfg.queryParams.map fun v => rt.queryTexts (.json v.unescaped) := by
    simp [ApiRequestConfig.unescaped, OrderedDict.map, Function.comp_def]
  have hcredential : (wire'.2.map ParamValue.credential).map rt.queryTexts =
      wire'.2.map fun text => [text] := by
    simp [OrderedDict.map, Function.comp_def, Runtime.queryTexts]
  have hmarked : wire.2.map (fun text => [text]) = wire'.2.map (fun text => [text]) ↔
      wire.2 = wire'.2 := by
    rw [OrderedDict.eq_iff_get? (by simpa using hkeys), OrderedDict.eq_iff_get? hkeys]
    simp only [OrderedDict.get?_map]
    exact forall_congr' fun key =>
      (Option.map_injective fun _ _ h => (List.cons.inj h).1).eq_iff
  rw [OrderedDict.map_update, OrderedDict.map_update, hquery, hquery', hcredential]
  refine ⟨OrderedDict.keys_update_congr (by simp) (by simpa using hkeys), ?_⟩
  rw [OrderedDict.update_eq_iff (by simp) (by simpa using hkeys), hmarked]
  refine and_congr_right fun _ => forall_congr' fun key => ?_
  rw [OrderedDict.keys_map, (keys_applyAuth hwire).2, Option.mem_toList]
  simp only [OrderedDict.get?_map]
  cases hv : cfg.queryParams.get? key with
  | none => simp
  | some v =>
      have hiff := queryTexts_unescaped_iff (hjson key v hv) (hstr key v hv)
      simp only [Option.map_some, Option.some.injEq, forall_eq', hiff, ne_eq]

/-- The same of the headers, before a cookie and the headers of the body. -/
theorem headers_eq_iff
    (hstr : ∀ key v, cfg.headers.get? key = some v → (rt.pyStr v).isSome = true) :
    (cfg.headers.map rt.strText).update wire.1 =
        (cfg.unescaped.headers.map rt.strText).update wire'.1 ↔
      wire.1 = wire'.1 ∧ ∀ key v, cfg.headers.get? key = some v →
        auth.headerName? ≠ some key → v.EscapeFree := by
  have hkeys := (keys_wire hwire hwire' hnames).1
  rw [OrderedDict.update_eq_iff (by simp [ApiRequestConfig.unescaped]) hkeys]
  refine and_congr_right fun _ => forall_congr' fun key => ?_
  rw [(keys_applyAuth hwire).1, Option.mem_toList]
  simp only [ApiRequestConfig.unescaped, OrderedDict.get?_map]
  cases hv : cfg.headers.get? key with
  | none => simp
  | some v =>
      simp only [Option.map_some, Option.some.injEq, forall_eq',
        strText_unescaped_iff (hstr key v hv), ne_eq]

end

/-- For a JSON config without references: the request with which the tester sends the
credential and the first request of a run go to the same URL and send the credential under
the same name exactly if no escape is left in either, and are then the same exactly if every
query parameter that the credential does not replace is no boolean, no null and no list, no
such parameter or header and nothing that the credential is made of is escaped, no cookie is
added, and no header of a body. -/
theorem testerRequest_alike_iff {U : Type} {rt : Runtime} {httpx : Httpx U}
    (htold : httpx.TellsParams) {secrets : String → Option PyText} {raw : Fields}
    (hjson : Value.fieldsAreJson raw = true) {cfg : ApiRequestConfig}
    (hcfg : apiRequestConfig? raw = some cfg) {auth : AuthConfig} (hauth : cfg.auth = some auth)
    {reached allowed : String → Bool} {cookie : Option PyText} {ctx : ReferenceContext}
    {sent sent' : HttpRequest U}
    (htest : testerRequest rt httpx secrets reached (some cookie) raw = some sent)
    (hrun : firstRunRequest rt httpx secrets allowed ctx raw = some sent') :
    (cfg.PlainTarget auth ↔ SameTarget rt cfg auth) ∧
      (cfg.PlainTarget auth →
        (SameRequest sent sent' ↔ RequestsAlike secrets cfg auth cookie)) := by
  simp only [testerRequest, hcfg, Option.bind_eq_bind, Option.bind_eq_some_iff,
    Option.guard_eq_some', Option.some.injEq] at htest
  rcases htest with ⟨_, hfree, _, rfl, url, hurl, _, _, headers, hheaders, params, hparams, _, rfl,
    auth', hauth', wire, hcredential, rfl⟩
  cases hauth.symm.trans hauth'
  have hfind : findInFields raw = [] := by simpa [hasReferences] using hfree
  simp only [firstRunRequest, resolveFields_of_no_references rt ctx raw hfind, Except.toOption,
    apiRequestConfig?_unescaped hcfg, Option.bind_eq_bind, Option.bind_some] at hrun
  have hauth'' : cfg.unescaped.auth = some auth.unescaped := by
    rw [ApiRequestConfig.unescaped, hauth]
    rfl
  simp only [runRequest, hauth'', Option.bind_eq_bind, Option.bind_eq_some_iff,
    Option.guard_eq_some', Option.some.injEq] at hrun
  rcases hrun with ⟨url', hurl', _, _, headers', hheaders', wire', hcredential', _, _, added,
    hadded, rfl⟩
  have hfilled := ok_of_toOption hurl
  have hfilled' := ok_of_toOption hurl'
  have htarget : cfg.PlainTarget auth ↔ SameTarget rt cfg auth := plainTarget_iff hfilled hfilled'
  refine ⟨htarget, fun hplain => ?_⟩
  rcases htarget.mp hplain with ⟨hsameUrl, hnames⟩
  rw [hfilled, hfilled', Except.ok.injEq] at hsameUrl
  subst hsameUrl
  rcases credentials_eq_some hcredential with ⟨value, hvalue, hwire⟩
  rcases credentials_eq_some hcredential' with ⟨value', hvalue', hwire'⟩
  rcases strDict_eq_some hheaders with ⟨rfl, hheaderStr⟩
  rcases strDict_eq_some hparams with ⟨rfl, hparamStr⟩
  rw [(strDict_eq_some hheaders').1]
  have hparamsIff := params_eq_iff hwire hwire' hnames
    (fun key v hv => queryParams_isJson hjson hcfg hv) hparamStr
  have hheadersIff := headers_eq_iff hwire hwire' hnames hheaderStr
  have hwires := applyAuth_eq_iff hnames hwire hwire'
  have hbothIff := requestHeaders_eq_iff (OrderedDict.keys_update_congr
    (by simp [ApiRequestConfig.unescaped]) (keys_wire hwire hwire' hnames).1 :
      ((cfg.headers.map rt.strText).update wire.1).keys =
        ((cfg.unescaped.headers.map rt.strText).update wire'.1).keys) cookie hadded
  rw [namesHeader_iff hwire (OrderedDict.keys_map _ _), namesHeader_iff hwire
    (OrderedDict.keys_map _ _), namesHeader_iff hwire (OrderedDict.keys_map _ _),
    show cfg.unescaped.body = cfg.body.unescaped from rfl, unescaped_eq_none_iff,
    hheadersIff] at hbothIff
  have hurlIff : httpx.url url ((((cfg.queryParams.map rt.strText).update wire.2).map
        fun text => [text]).entries) =
      httpx.url url (((cfg.unescaped.queryParams.map ParamValue.json).update
        (wire'.2.map .credential)).map rt.queryTexts).entries ↔
      wire.2 = wire'.2 ∧ ∀ key v, cfg.queryParams.get? key = some v →
        auth.queryName? ≠ some key → v.sentAsText = true ∧ v.EscapeFree := by
    rw [← hparamsIff.2, OrderedDict.eq_iff_entries]
    exact ⟨htold url _ _ hparamsIff.1 (OrderedDict.nodup_keys _), fun h => by rw [h]⟩
  rw [SameRequest, hurlIff, hbothIff]
  have hsecret : secrets auth.secretRef = secrets (unescapeText auth.secretRef) ↔
      value = value' := by
    rw [hvalue, show secrets (unescapeText auth.secretRef) = some value' from hvalue',
      Option.some.injEq]
  constructor
  · intro h
    rcases h with ⟨⟨hparamWire, hparams⟩, ⟨hheaderWire, hheaders⟩, hcookie, hbody⟩
    rcases hwires.mp ⟨hheaderWire, hparamWire⟩ with ⟨hvalues, husername⟩
    exact ⟨hparams, hheaders, hsecret.mpr hvalues, husername, hcookie, hbody⟩
  · intro h
    rcases hwires.mpr ⟨hsecret.mp h.secret, h.username⟩ with ⟨hheaderWire, hparamWire⟩
    exact ⟨⟨hparamWire, h.params⟩, ⟨hheaderWire, h.headers⟩, h.cookie, h.body⟩

/-! ## Two configs -/

namespace ApiRequestSamples

/-- A URL without a query of its own, with the items of the query string. -/
abbrev SampleUrl := String × List (String × PyText)

/-- A client that keeps URLs in this form. -/
def httpx : Httpx SampleUrl where
  url := fun url params =>
    (url, params.flatMap fun param => param.2.map fun text => (param.1, text))
  contentLength := fun body =>
    (decimalRuntime.jsonDumps false (fun text _ => text) body).toOption.map fun text =>
      PyText.ofString (toString text.length)

/-- The items of a query string tell the values of every key. -/
theorem httpx_tellsParams : httpx.TellsParams := by
  intro url params params' hkeys hnodup hurl
  have hitems := congrArg Prod.snd hurl
  simp only [httpx] at hitems
  clear hurl
  induction params generalizing params' with
  | nil => exact (List.map_eq_nil_iff.mp hkeys.symm).symm
  | cons param rest ih =>
      cases params' with
      | nil => cases hkeys
      | cons param' rest' =>
          rw [List.map_cons, List.map_cons, List.cons.injEq] at hkeys
          rw [List.map_cons, List.nodup_cons] at hnodup
          rw [List.flatMap_cons, List.flatMap_cons, ← hkeys.1] at hitems
          have hends : ∀ others : List (String × List PyText), param.1 ∉ others.map Prod.fst →
              SelfDelimiting.Ends (fun item : String × PyText => item.1 == param.1)
                (others.flatMap fun other => other.2.map fun text => (other.1, text)) := by
            intro others hnot item tail heq
            have hmem : item ∈
                others.flatMap fun other => other.2.map fun text => (other.1, text) := by
              rw [heq]
              exact List.mem_cons_self
            rcases List.mem_flatMap.mp hmem with ⟨other, hother, hitem⟩
            rcases List.mem_map.mp hitem with ⟨text, _, rfl⟩
            exact beq_false_of_ne fun hsame => hnot (hsame ▸ List.mem_map_of_mem hother)
          have hrun : ∀ texts : List PyText, ∀ item ∈ texts.map fun text => (param.1, text),
              (item.1 == param.1) = true := by
            intro texts item hitem
            rcases List.mem_map.mp hitem with ⟨text, _, rfl⟩
            exact beq_self_eq_true _
          rcases SelfDelimiting.run_inj (hrun param.2) (hrun param'.2) (hends rest hnodup.1)
            (hends rest' (hkeys.2 ▸ hnodup.1)) hitems with ⟨hfirst, hothers⟩
          have htexts : param.2 = param'.2 :=
            List.map_injective_iff.mpr (fun _ _ h => (Prod.mk.inj h).2) hfirst
          rw [ih rest' hkeys.2 hnodup.2 hothers, Prod.ext hkeys.1 htexts]

/-- Everything is reachable, and every reference names the same secret. -/
def secrets : String → Option PyText := fun _ => some (PyText.ofString "s3cret")

/-- A config with these path and query parameters. -/
def source (path query : Fields) : Fields :=
  [("url", .str "https://api.example.com/users/\x7bid\x7d"), ("path_params", .dict path),
    ("query_params", .dict query),
    ("auth", .dict [("type", .str "bearer"), ("secret_ref", .str "token")])]

/-- The request of the tester for such a config. -/
def tested (path query : Fields) : Option (HttpRequest SampleUrl) :=
  testerRequest decimalRuntime httpx secrets (fun _ => true) (some none) (source path query)

/-- The first request of a run. -/
def sentByRun (path query : Fields) : Option (HttpRequest SampleUrl) :=
  firstRunRequest decimalRuntime httpx secrets (fun _ => true) ⟨fun _ => none, none⟩
    (source path query)

/-- The authentication of these configs. -/
def tokenAuth : AuthConfig where
  type := .bearer
  secretRef := "token"

/-- Path parameters of which the escaped one has no placeholder. -/
def unusedPath : Fields :=
  [("id", .int 7), ("unused", .str "$$x")]

/-- The config with them and with a text as parameter. -/
def unusedConfig : ApiRequestConfig where
  url := "https://api.example.com/users/\x7bid\x7d"
  pathParams := .ofList unusedPath
  queryParams := .ofList [("q", .str "a b")]
  headers := .empty
  body := .none
  auth := some tokenAuth

end ApiRequestSamples

open ApiRequestSamples

theorem testerRequest_alike_iff_unused :
    ∃ sent sent', tested unusedPath [("q", .str "a b")] = some sent ∧
      sentByRun unusedPath [("q", .str "a b")] = some sent' ∧
      unusedConfig.PlainTarget tokenAuth ∧ SameRequest sent sent' := by
  have htested : (tested unusedPath [("q", .str "a b")]).isSome = true := by decide +kernel
  have hsent : (sentByRun unusedPath [("q", .str "a b")]).isSome = true := by decide +kernel
  rcases Option.isSome_iff_exists.mp htested with ⟨sent, htest⟩
  rcases Option.isSome_iff_exists.mp hsent with ⟨sent', hrun⟩
  have hcfg : apiRequestConfig? (source unusedPath [("q", .str "a b")]) = some unusedConfig := by
    rfl
  have halike := testerRequest_alike_iff httpx_tellsParams (by decide) hcfg rfl htest hrun
  have hsymbols : unusedConfig.urlSymbols =
      "https://api.example.com/users/".toList.map .literal ++ [.param "id".toList] := by
    decide +kernel
  have hplain : unusedConfig.PlainTarget tokenAuth := by
    refine ⟨by decide, ?_, ?_⟩
    · intro name hname value hvalue
      simp only [hsymbols, List.mem_append, List.mem_map, reduceCtorEq, and_false, exists_false,
        List.mem_singleton, TemplateSymbol.param.injEq, false_or] at hname
      subst hname
      cases hvalue
      trivial
    · intro htype
      cases htype
  refine ⟨sent, sent', htest, hrun, hplain,
    (halike.2 hplain).mpr ⟨?_, ?_, rfl, ?_, Or.inl rfl, Or.inl rfl⟩⟩
  · intro key value hvalue _
    cases List.mem_singleton.mp (OrderedDict.mem_of_get?_ofList hvalue)
    refine ⟨rfl, ?_⟩
    show isEscaped "a b" = false
    decide
  · intro key value hvalue _
    cases hvalue
  · intro htype
    cases htype

/-- The tester asks for {lit}`active=True`, a run for {lit}`active=true`. -/
theorem tester_sends_other_url :
    ∃ sent sent', tested [("id", .int 7)] [("active", .bool true)] = some sent ∧
      sentByRun [("id", .int 7)] [("active", .bool true)] = some sent' ∧
      ¬ SameRequest sent sent' := by
  have htested : (tested [("id", .int 7)] [("active", .bool true)]).map HttpRequest.url =
      some ("https://api.example.com/users/7", [("active", PyText.ofString "True")]) := by
    decide +kernel
  have hsent : (sentByRun [("id", .int 7)] [("active", .bool true)]).map HttpRequest.url =
      some ("https://api.example.com/users/7", [("active", PyText.ofString "true")]) := by
    decide +kernel
  rcases Option.map_eq_some_iff.mp htested with ⟨sent, htest, hurl⟩
  rcases Option.map_eq_some_iff.mp hsent with ⟨sent', hrun, hurl'⟩
  refine ⟨sent, sent', htest, hrun, fun hsame => ?_⟩
  have hquery := congrArg Prod.snd (hurl.symm.trans (hsame.1.trans hurl'))
  revert hquery
  decide

end EtlTool
