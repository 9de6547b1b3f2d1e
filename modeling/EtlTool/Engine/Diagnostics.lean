import EtlTool.Core.SsrfPolicy
import EtlTool.Core.UrlRedaction
import EtlTool.Engine.TruncatedTexts
import EtlTool.Foundations.Ladders
import EtlTool.Nodes.ApiRequests

/-!
# The connectivity tester

{lit}`test_connection` climbs a ladder of checks against a source and reports how far it
gets.  The resolver, the peers and the answers of servers are parameters; what the tester
does towards them is noted, one contact at a time, so that the report can be compared with
what has happened.

Main results:

- Theorem {lit}`Tester.send_allowed`: before every hop of a request its host is listed, or
  looked up and allowed.
- Theorem {lit}`testConnection_diagnosed`: the report of a test is in order and tells of
  every contact, and no contact goes past the SSRF policy.

Current gaps:

- The clients connect by name, so the name is looked up once more behind a check.  Here the
  resolver is a function: one that changes its answer during the test is left out, and so is
  a proxy that the clients may go through.
- Latencies, timeouts and the closing of connections.
- A Redactor that cannot be built is an exception of the whole test, as is everything that
  no handler of the source takes.
-/

namespace EtlTool

open Ladders

/-! ## Reports -/

/-- The names of the checks. -/
inductive RungName where
  | config
  | dns
  | ssrfPolicy
  | tcp
  | tls
  | http
  | auth
  | connect
  | query
deriving DecidableEq

/-- {lit}`DiagnosticCheck.name`. -/
def RungName.text : RungName → String
  | config => "config"
  | dns => "dns"
  | ssrfPolicy => "ssrf_policy"
  | tcp => "tcp"
  | tls => "tls"
  | http => "http"
  | auth => "auth"
  | connect => "connect"
  | query => "query"

/-- {lit}`DiagnosticCheck`. -/
structure DiagnosticCheck where
  name : RungName
  status : Status
  detail : Option String
  error : Option String
deriving DecidableEq

/-- {lit}`_Ladder.add`: the text of a failure is its error, any other text a detail. -/
def DiagnosticCheck.add (check : Check RungName) : DiagnosticCheck where
  name := check.name
  status := check.status
  detail := if check.status = .failed then none else some check.text
  error := if check.status = .failed then some check.text else none

/-- {lit}`DiagnosticReport`. -/
structure DiagnosticReport where
  sourceType : String
  target : String
  ok : Bool
  checks : List DiagnosticCheck
  sampleBody : Option String
deriving DecidableEq

/-- What the tester does towards the outside. -/
inductive Contact where
  | resolve (host : String) (port : Nat)
  /-- A connection to an address of the host. -/
  | connect (host ip : String) (port : Nat)
  /-- A connection to the host by its name. -/
  | handshake (host : String) (port : Nat)
  /-- One hop of the request with the credential, or of the one without it. -/
  | request (credential : Bool) (url : String)
  /-- A connection to a database, with the password. -/
  | database (host : Option String)
  | statement
deriving DecidableEq

/-- The check that a contact is made for. -/
def Contact.rung : Contact → RungName
  | resolve _ _ => .dns
  | connect _ _ _ => .tcp
  | handshake _ _ => .tls
  | request false _ => .http
  | request true _ => .auth
  | database _ => .connect
  | statement => .query

/-- The contacts of a test, and its report or what it raises. -/
structure Diagnosis where
  contacts : List Contact
  outcome : Except PyException DiagnosticReport

/-! ## The outside -/

/-- A request of the tester. -/
structure TesterRequest where
  url : String
  headers : OrderedDict String PyText
  params : OrderedDict String PyText

/-- What becomes of a request: the client goes to one URL after another, until there is an
answer or an exception. -/
inductive Exchange where
  | answered (status : Nat) (text : String)
  | raised (exc : PyException)
  | hop (url : String) (next : Exchange)

/-- What the tester takes from an {lit}`ApiSourceConfig`. -/
structure ApiTestConfig extends ApiRequestConfig where
  verifyTls : Bool

/-- What the tester takes from a {lit}`DbConnectionConfig`. -/
structure DbTestConfig where
  connection : DbConnectionConfig
  database : String
  user : Option String
  secretRef : Option String

/-- Libraries, peers and servers. -/
structure Outside where
  /-- {lit}`isinstance(exc, OSError)`, which takes in time-outs and failures of TLS. -/
  isOSError : PyException → Bool
  /-- {lit}`repr(exc)`. -/
  reprException : PyException → String
  /-- The scheme in lower case, and the parts of a URL. -/
  urlsplit : String → Except PyException (String × SplitUrl)
  netlocChecks : NetlocChecks
  /-- {lit}`redact_url` of a value that is no string. -/
  redactValue : Value → Except PyException String
  /-- {lit}`ApiSourceConfig.model_validate`. -/
  apiConfig : Fields → Except PyException ApiTestConfig
  /-- {lit}`DbSourceConfig.model_validate(config).connection`, and
  {lit}`DbConnectionConfig.model_validate`. -/
  dbConfig : Bool → Fields → Except PyException DbTestConfig
  openConnection : String → Nat → Except PyException Unit
  /-- The version of TLS that is agreed upon. -/
  handshake : String → Nat → Bool → Except PyException String
  exchange : Bool → TesterRequest → Exchange
  /-- The value of {lit}`categorize_exception`. -/
  category : PyException → String
  /-- {lit}`categorize_db_exception`. -/
  dbCategory : PyException → String × String
  openEngine : Except PyException Unit
  engineConnect : Except PyException Unit
  /-- The rows of the trivial query; the JSON text of them. -/
  selectOne : Except PyException (Except PyException String)
  engineClose : Except PyException Unit

/-- A call of the tester. -/
structure Tester (α ν : Type) where
  rt : Runtime
  libs : NetworkLibraries α ν
  outside : Outside
  policy : SsrfPolicy
  secrets : OrderedDict String PyText
  redactor : Redactor
  sampleBytes : Nat

/-- What the rungs have found so far. -/
structure TestState where
  ips : List String
  headers : OrderedDict String PyText
  params : OrderedDict String PyText
  status : Nat
  sample : Option String

/-- The state at the foot of a ladder. -/
def TestState.initial : TestState where
  ips := []
  headers := .empty
  params := .empty
  status := 0
  sample := none

/-- {lit}`text or None`. -/
def nonEmpty? (text : String) : Option String :=
  if text = "" then none else some text

/-- A rung of a tester. -/
abbrev TestRung := Rung RungName TestState Contact PyException

namespace Tester

variable {α ν : Type} (t : Tester α ν)

/-! ## Rungs of both ladders -/

/-- {lit}`dns`. -/
def dnsRung (host : String) (port : Nat) (above : List RungName) : TestRung where
  name := .dns
  contacts := fun _ => [.resolve host port]
  step := fun s =>
    match resolveHost t.libs host (some port) with
    | .error exc =>
        if t.outside.isOSError exc then .failed ("DNS resolution failed: " ++ exc.message)
        else .raised exc
    | .ok ips =>
        .passed (", ".intercalate (ips.take 5) ++ if ips.length > 5 then "…" else "")
          { s with ips := ips }
  above := above

/-- {lit}`ssrf_policy`. -/
def ssrfPolicyRung (host : String) (above : List RungName) : TestRung where
  name := .ssrfPolicy
  contacts := fun _ => []
  step := fun s =>
    match ssrfRung t.rt t.libs host s.ips t.policy with
    | (.failed, reason) => .failed reason
    | (.passed, detail) => .passed detail s
    | (.skipped, detail) => .skipped detail s
  above := above

/-- {lit}`tcp`. -/
def tcpRung (host : String) (port : Nat) (above : List RungName) : TestRung where
  name := .tcp
  contacts := fun s => (s.ips.head?.map fun ip => .connect host ip port).toList
  step := fun s =>
    match s.ips with
    | [] => .raised ⟨"IndexError", some "list index out of range"⟩
    | ip :: _ =>
        match t.outside.openConnection ip port with
        | .ok () => .passed (ip ++ ":" ++ toString port ++ " reachable") s
        | .error exc =>
            if t.outside.isOSError exc then
              .failed ("cannot connect to " ++ ip ++ ":" ++ toString port ++ ": " ++
                t.outside.reprException exc)
            else .raised exc
  above := above

/-- A rung that does not apply. -/
def skippedRung (name : RungName) (detail : String) : TestRung where
  name := name
  contacts := fun _ => []
  step := .skipped detail
  above := []

/-! ## Requests -/

/-- What the hook of the client raises. -/
def hookError : SsrfFailure → PyException
  | .blocked reason => ⟨"SSRFBlockedError", some reason⟩
  | .raised exc => exc

/-- The hook of {lit}`guarded_event_hooks`. -/
def checkHop (url : String) : Except SsrfFailure Unit :=
  if t.policy.enabled = false then .ok ()
  else
    match t.outside.urlsplit url with
    | .error exc => .error (.raised exc)
    | .ok (_, parts) => ensureUrlAllowed t.rt t.libs url parts t.policy

/-- Send a request: the URLs that it went to, and the answer.  The hook is called before
every hop. -/
def send : Exchange → List String × Except PyException (Nat × String)
  | .answered status text => ([], .ok (status, text))
  | .raised exc => ([], .error exc)
  | .hop url next =>
      match t.checkHop url with
      | .error failure => ([], .error (hookError failure))
      | .ok () => (url :: (send next).1, (send next).2)

/-- An endpoint that is tested over HTTP. -/
structure ApiTarget where
  cfg : ApiTestConfig
  url : String
  host : String
  https : Bool
  port : Nat

variable (target : ApiTarget)

/-- The request without the credential. -/
def probe? : Option TesterRequest := do
  let headers ← t.rt.strDict target.cfg.headers
  let params ← t.rt.strDict target.cfg.queryParams
  some ⟨target.url, headers, params⟩

/-- The request with the credential. -/
def authorized? (s : TestState) : Option TesterRequest := do
  let auth ← target.cfg.auth
  let value ← t.secrets.get? auth.secretRef
  let (authHeaders, authParams) ← (applyAuth auth value).toOption
  some ⟨target.url, s.headers.update authHeaders, s.params.update authParams⟩

/-- {lit}`tls`, for https only. -/
def tlsRung : TestRung where
  name := .tls
  contacts := fun _ => if target.https then [.handshake target.host target.port] else []
  step := fun s =>
    if target.https then
      match t.outside.handshake target.host target.port target.cfg.verifyTls with
      | .ok detail => .passed detail s
      | .error exc =>
          if t.outside.isOSError exc then .failed ("TLS handshake failed: " ++ exc.message)
          else .raised exc
    else .skipped "not https" s
  above := [.http, .auth]

/-- {lit}`http`, without credentials. -/
def httpRung : TestRung where
  name := .http
  contacts := fun _ =>
    match t.probe? target with
    | none => []
    | some request => (t.send (t.outside.exchange false request)).1.map (.request false)
  step := fun s =>
    match t.probe? target with
    | none => .raised ⟨"ValueError", some "integer string conversion"⟩
    | some request =>
        match (t.send (t.outside.exchange false request)).2 with
        | .error exc =>
            .failed (t.redactor.redact (t.outside.category exc ++ ": " ++ exc.typeName ++ ": " ++
              exc.message))
        | .ok (status, text) =>
            .passed ("HTTP " ++ toString status ++ " without credentials")
              { s with
                headers := request.headers
                params := request.params
                status := status
                sample := nonEmpty? (t.redactor.truncated text t.sampleBytes) }
  above := [.auth]

/-- {lit}`auth`. -/
def authRung : TestRung where
  name := .auth
  contacts := fun s =>
    match t.authorized? target s with
    | none => []
    | some request => (t.send (t.outside.exchange true request)).1.map (.request true)
  step := fun s =>
    match target.cfg.auth with
    | none =>
        .skipped ("no credentials configured" ++
          if s.status = 401 ∨ s.status = 403 then
            " (endpoint answered HTTP " ++ toString s.status ++ "; it likely requires auth)"
          else "") s
    | some auth =>
        match t.secrets.get? auth.secretRef with
        | none => .failed ("secret " ++ t.rt.reprStr auth.secretRef ++ " was not provided")
        | some value =>
            match applyAuth auth value with
            | .error exc => .raised exc
            | .ok (authHeaders, authParams) =>
                let request : TesterRequest :=
                  ⟨target.url, s.headers.update authHeaders, s.params.update authParams⟩
                match (t.send (t.outside.exchange true request)).2 with
                | .error exc =>
                    .failed (t.redactor.redact (exc.typeName ++ ": " ++ exc.message))
                | .ok (status, text) =>
                    if status = 401 ∨ status = 403 then
                      .failed ("HTTP " ++ toString status ++ ": credential was rejected")
                    else
                      .passed ("HTTP " ++ toString status ++ " with credentials")
                        { s with sample :=
                            (nonEmpty? (t.redactor.truncated text t.sampleBytes)).or s.sample }
  above := []

/-- The rungs of {lit}`_test_api_source`.  The list after a failed resolution leaves out
{lit}`ssrf_policy`. -/
def apiRungs : List TestRung :=
  [t.dnsRung target.host target.port [.tcp, .tls, .http, .auth],
    t.ssrfPolicyRung target.host [.tcp, .tls, .http, .auth],
    t.tcpRung target.host target.port [.tls, .http, .auth], t.tlsRung target, t.httpRung target,
    t.authRung target]

/-! ## Databases -/

variable (conn : DbTestConfig)

/-- {lit}`connect`. -/
def connectRung : TestRung where
  name := .connect
  contacts := fun _ =>
    match t.outside.openEngine with
    | .error _ => []
    | .ok () => [.database conn.connection.endpoint.1]
  step := fun s =>
    match t.outside.openEngine with
    | .error exc => .raised exc
    | .ok () =>
        match t.outside.engineConnect with
        | .error exc =>
            .failed (t.redactor.redact ((t.outside.dbCategory exc).1 ++ ": " ++
              (t.outside.dbCategory exc).2))
        | .ok () =>
            .passed ("connected" ++
              match conn.user.bind nonEmpty? with
              | none => ""
              | some user => " as " ++ user) s
  above := [.query]

/-- {lit}`query`, and the end of the connection. -/
def queryRung : TestRung where
  name := .query
  contacts := fun _ => [.statement]
  step := fun s =>
    match t.outside.selectOne with
    | .ok (.error exc) => .raised exc
    | .ok (.ok rows) =>
        match t.outside.engineClose with
        | .error exc => .raised exc
        | .ok () =>
            .passed "trivial query (SELECT 1) succeeded"
              { s with sample := nonEmpty? (t.redactor.truncated rows t.sampleBytes) }
    | .error exc =>
        match t.outside.engineClose with
        | .error exc => .raised exc
        | .ok () =>
            .failed (t.redactor.redact ((t.outside.dbCategory exc).1 ++ ": " ++
              (t.outside.dbCategory exc).2))
  above := []

/-- {lit}`DbConnectionConfig.driver`. -/
def driverName : DbDriver → String
  | .postgresql => "postgresql"
  | .sqlite => "sqlite"

/-- The rungs of {lit}`_test_db_source` before the connection. -/
def networkRungs : List TestRung :=
  match conn.connection.endpoint with
  | (some host, some port) =>
      [t.dnsRung host port [.ssrfPolicy, .tcp, .connect, .query],
        t.ssrfPolicyRung host [.tcp, .connect, .query], t.tcpRung host port [.connect, .query]]
  | _ =>
      [RungName.dns, .ssrfPolicy, .tcp].map fun name =>
        skippedRung name (driverName conn.connection.driver ++ " is not a network driver")

/-- The rungs of {lit}`_test_db_source`. -/
def dbRungs : List TestRung :=
  t.networkRungs conn ++ [t.connectRung conn, t.queryRung]

/-- {lit}`endpoint_summary`. -/
def endpointSummary : String :=
  match conn.connection.driver, conn.connection.endpoint with
  | .sqlite, _ => "sqlite:///" ++ conn.database
  | .postgresql, (host, port) =>
      "postgresql://" ++ host.getD "None" ++ ":" ++ (port.map toString).getD "None" ++ "/" ++
        conn.database

/-! ## Whole tests -/

/-- {lit}`_Ladder.ok`, and the rest of a report. -/
def report (sourceType target : String) (checks : List (Check RungName))
    (sample : Option String) : DiagnosticReport where
  sourceType := sourceType
  target := target
  ok := checks.all fun check => check.status ≠ .failed
  checks := checks.map DiagnosticCheck.add
  sampleBody := sample

/-- {lit}`_Ladder.skip_rest`. -/
def skipRest : String :=
  "skipped: earlier check failed"

/-- A test that ends at its config. -/
def configFailed (sourceType : String) (target : Except PyException String) (error : String) :
    Diagnosis where
  contacts := []
  outcome := target.map fun target => report sourceType target [⟨.config, .failed, error⟩] none

/-- A test that climbs a ladder. -/
def climbed (sourceType target : String) (rungs : List TestRung) : Diagnosis where
  contacts := (climb skipRest rungs .initial).contacts
  outcome := (climb skipRest rungs .initial).final.map fun s =>
    report sourceType target (climb skipRest rungs .initial).checks s.sample

/-- The message about references. -/
def referencesMessage : String :=
  "config contains $upstream/$iter references, which cannot be resolved outside a pipeline " ++
    "run; use literal values to test"

/-- The endpoint of a config, or what the handler reports. -/
def apiTarget (raw : Fields) : Except PyException ApiTarget :=
  match t.outside.apiConfig raw with
  | .error exc => .error exc
  | .ok cfg =>
      match t.rt.formatUrl cfg.url cfg.pathParams with
      | .error fault => .error ⟨"ValueError", some (fault.message t.rt cfg.url)⟩
      | .ok url =>
          match t.outside.urlsplit url with
          | .error exc => .error exc
          | .ok (scheme, parts) =>
              let unusable : PyException :=
                ⟨"ValueError", some ("URL must be http(s) with a host, got " ++ t.rt.reprStr url)⟩
              match parts.hostname.bind nonEmpty? with
              | none => .error unusable
              | some host =>
                  if scheme = "http" ∨ scheme = "https" then
                    match parts.port with
                    | .error exc => .error exc
                    | .ok port =>
                        .ok {
                          cfg := cfg
                          url := url
                          host := host
                          https := scheme = "https"
                          port :=
                            match port with
                            | some (port + 1) => port + 1
                            | _ => if scheme = "https" then 443 else 80 }
                  else .error unusable

/-- The target of a report about a config that is not usable. -/
def rawTarget (raw : Fields) : Except PyException String :=
  match raw.lookup "url" with
  | none => .ok (t.redactor.redactUrl t.outside.netlocChecks "")
  | some (.str url) => .ok (t.redactor.redactUrl t.outside.netlocChecks url)
  | some value => t.outside.redactValue value

/-- {lit}`_test_api_source`. -/
def testApiSource (raw : Fields) : Diagnosis :=
  if hasReferences raw then
    configFailed "api_source" (.ok (t.redactor.redactUrl t.outside.netlocChecks ""))
      referencesMessage
  else
    match t.apiTarget raw with
    | .error exc => configFailed "api_source" (t.rawTarget raw) (t.redactor.redact exc.message)
    | .ok target =>
        climbed "api_source" (t.redactor.redactUrl t.outside.netlocChecks target.url)
          (t.apiRungs target)

/-- {lit}`_test_db_source`. -/
def testDbSource (raw : Fields) : Diagnosis :=
  if hasReferences raw then
    configFailed "db_source" (.ok (t.redactor.redact "")) referencesMessage
  else
    match t.outside.dbConfig (raw.any fun field => field.1 = "connection") raw with
    | .error exc =>
        configFailed "db_source" (.ok (t.redactor.redact "")) (t.redactor.redact exc.message)
    | .ok conn =>
        match conn.secretRef.bind nonEmpty? with
        | none => climbed "db_source" (t.redactor.redact (endpointSummary conn)) (t.dbRungs conn)
        | some ref =>
            if (t.secrets.get? ref).isSome then
              climbed "db_source" (t.redactor.redact (endpointSummary conn)) (t.dbRungs conn)
            else
              configFailed "db_source" (.ok (t.redactor.redact (endpointSummary conn)))
                ("secret " ++ t.rt.reprStr ref ++ " was not provided")

end Tester

/-- {lit}`test_connection`, for the type and the config of a source. -/
def testConnection {α ν : Type} (rt : Runtime) (libs : NetworkLibraries α ν) (outside : Outside)
    (policy : SsrfPolicy) (secrets : OrderedDict String PyText) (sampleBytes : Nat)
    (sourceType : String) (config : Fields) : Diagnosis :=
  if sourceType = "api_source" ∨ sourceType = "db_source" then
    match Redactor.ofSecrets secrets.values with
    | .error exc => ⟨[], .error exc⟩
    | .ok redactor =>
        let t : Tester α ν := ⟨rt, libs, outside, policy, secrets, redactor, sampleBytes⟩
        if sourceType = "api_source" then t.testApiSource config else t.testDbSource config
  else
    Tester.configFailed ((nonEmpty? sourceType).getD "unknown") (.ok "")
      ("unsupported source type " ++ rt.reprStr sourceType ++
        "; supported: 'api_source', 'db_source'")

/-! ## What the policy allows -/

section

variable {α ν : Type} (libs : NetworkLibraries α ν) (outside : Outside) (policy : SsrfPolicy)

/-- The host has the addresses, and the policy allows them. -/
structure Cleared (host : String) (port : Option Nat) (ips : List String) : Prop where
  resolved : resolveHost libs host port = .ok ips
  allowed : policy.enabled = false ∨ policy.names libs host ∨ ∀ ip ∈ ips, policy.Passes libs ip

/-- The policy is off, the host of the URL is listed, or its addresses are allowed. -/
def HopAllowed (url : String) : Prop :=
  policy.enabled = false ∨ ∃ scheme parts host, outside.urlsplit url = .ok (scheme, parts) ∧
    parts.hostname = some host ∧ host ≠ "" ∧
    (libs.lower host ∈ policy.allowedNames libs ∨
      ∃ port ips, parts.port = .ok port ∧ Cleared libs policy host port ips)

/-- A contact that the policy allows. -/
def Contact.Guarded : Contact → Prop
  | resolve _ _ => True
  | connect host ip port => ∃ ips, Cleared libs policy host (some port) ips ∧ ip ∈ ips
  | handshake host port => ∃ ips, Cleared libs policy host (some port) ips
  | request _ url => HopAllowed libs outside policy url
  | database none => True
  | database (some host) => ∃ port ips, Cleared libs policy host port ips
  | statement => True

variable {libs outside policy} {rt : Runtime}

private theorem ensureHostAllowed_cleared {host : String} {port : Except PyException (Option Nat)}
    (h : ensureHostAllowed rt libs host port policy = .ok ()) :
    libs.lower host ∈ policy.allowedNames libs ∨
      ∃ found ips, port = .ok found ∧ Cleared libs policy host found ips := by
  rw [ensureHostAllowed] at h
  by_cases hname : libs.lower host ∈ policy.allowedNames libs
  · exact .inl hname
  rw [if_neg hname] at h
  cases port with
  | error exc => cases h
  | ok found =>
      cases hips : resolveHost libs host found with
      | error exc => simp [hips, Except.bind] at h
      | ok ips =>
          simp only [Except.bind, hips] at h
          cases hblocked : findBlocked rt libs host ips policy with
          | some reason =>
              rw [hblocked] at h
              cases h
          | none => exact .inr ⟨found, ips, rfl, hips, findBlocked_eq_none_iff.mp hblocked⟩

end

namespace Tester

variable {α ν : Type} {t : Tester α ν}

/-- The hook lets through what the policy allows. -/
theorem checkHop_allowed {url : String} (h : t.checkHop url = .ok ()) :
    HopAllowed t.libs t.outside t.policy url := by
  rw [checkHop] at h
  by_cases hoff : t.policy.enabled = false
  · exact .inl hoff
  rw [if_neg hoff] at h
  cases hsplit : t.outside.urlsplit url with
  | error exc =>
      rw [hsplit] at h
      cases h
  | ok found =>
      rcases found with ⟨scheme, parts⟩
      simp only [hsplit, ensureUrlAllowed, if_neg hoff] at h
      cases hhost : parts.hostname with
      | none =>
          rw [hhost] at h
          cases h
      | some host =>
          simp only [hhost] at h
          by_cases hempty : host = ""
          · rw [if_pos hempty] at h
            cases h
          · rw [if_neg hempty] at h
            exact .inr ⟨scheme, parts, host, hsplit, hhost, hempty, ensureHostAllowed_cleared h⟩

/-- Before every hop of a request its host is listed, or looked up and allowed, unless the policy
is off. -/
theorem send_allowed (exchange : Exchange) :
    ∀ url ∈ (t.send exchange).1, HopAllowed t.libs t.outside t.policy url := by
  induction exchange with
  | answered status text => exact fun _ hmem => nomatch hmem
  | raised exc => exact fun _ hmem => nomatch hmem
  | hop first next ih =>
      rw [send]
      cases hcheck : t.checkHop first with
      | error failure => exact fun _ hmem => nomatch hmem
      | ok allowed => exact List.forall_mem_cons.mpr ⟨checkHop_allowed hcheck, ih⟩

/-! ## What the rungs leave behind -/

/-- The addresses of the host have been found. -/
def Resolved (t : Tester α ν) (host : String) (port : Nat) (s : TestState) : Prop :=
  resolveHost t.libs host (some port) = .ok s.ips

private theorem dnsRung_after {host : String} {port : Nat} {above : List RungName}
    {s s' : TestState}
    {text : String} (h : (t.dnsRung host port above).step s = .passed text s' ∨
      (t.dnsRung host port above).step s = .skipped text s') : t.Resolved host port s' := by
  dsimp only [dnsRung] at h
  cases hips : resolveHost t.libs host (some port) with
  | error exc =>
      by_cases hos : t.outside.isOSError exc = true
      · simp [hips, hos] at h
      · simp [hips, hos] at h
  | ok ips =>
      simp only [hips, Outcome.passed.injEq, reduceCtorEq, or_false] at h
      rw [Resolved, ← h.2]
      exact hips

private theorem ssrfPolicyRung_after {host : String} {port : Nat} {above : List RungName}
    {s s' : TestState} {text : String} (hs : t.Resolved host port s)
    (h : (t.ssrfPolicyRung host above).step s = .passed text s' ∨
      (t.ssrfPolicyRung host above).step s = .skipped text s') :
    Cleared t.libs t.policy host (some port) s'.ips := by
  have hverdict : (ssrfRung t.rt t.libs host s.ips t.policy).1 ≠ .failed ↔
      findBlocked t.rt t.libs host s.ips t.policy = none :=
    ssrfRung_failed_iff t.policy host s.ips
  dsimp only [ssrfPolicyRung] at h
  rcases hrung : ssrfRung t.rt t.libs host s.ips t.policy with ⟨status, detail⟩
  rw [hrung] at h hverdict
  cases status with
  | failed => simp at h
  | passed =>
      simp only [Outcome.passed.injEq, reduceCtorEq, or_false] at h
      rw [← h.2]
      exact ⟨hs, findBlocked_eq_none_iff.mp (hverdict.mp fun heq => nomatch heq)⟩
  | skipped =>
      simp only [Outcome.skipped.injEq, reduceCtorEq, false_or] at h
      rw [← h.2]
      exact ⟨hs, findBlocked_eq_none_iff.mp (hverdict.mp fun heq => nomatch heq)⟩

private theorem tcpRung_after {host : String} {port : Nat} {above : List RungName}
    {s s' : TestState}
    {text : String} (h : (t.tcpRung host port above).step s = .passed text s' ∨
      (t.tcpRung host port above).step s = .skipped text s') : s' = s := by
  dsimp only [tcpRung] at h
  cases hips : s.ips with
  | nil => simp [hips] at h
  | cons ip rest =>
      simp only [hips] at h
      cases hopen : t.outside.openConnection ip port with
      | ok opened =>
          simp only [hopen, Outcome.passed.injEq, reduceCtorEq, or_false] at h
          exact h.2.symm
      | error exc =>
          by_cases hos : t.outside.isOSError exc = true
          · simp [hopen, hos] at h
          · simp [hopen, hos] at h

/-! ## The contacts of a rung -/

private theorem mem_tcpRung {host : String} {port : Nat} {above : List RungName} {s : TestState}
    {contact : Contact} (h : contact ∈ (t.tcpRung host port above).contacts s) :
    ∃ ip ∈ s.ips, contact = .connect host ip port := by
  cases hips : s.ips with
  | nil =>
      simp only [tcpRung, hips] at h
      cases h
  | cons ip rest =>
      simp only [tcpRung, hips] at h
      exact ⟨ip, List.mem_cons_self, List.mem_singleton.mp h⟩

private theorem mem_tlsRung {target : ApiTarget} {s : TestState} {contact : Contact}
    (h : contact ∈ (t.tlsRung target).contacts s) :
    contact = .handshake target.host target.port := by
  dsimp only [tlsRung] at h
  by_cases hhttps : target.https = true
  · rw [if_pos hhttps] at h
    exact List.mem_singleton.mp h
  · rw [if_neg hhttps] at h
    cases h

private theorem mem_send {credential : Bool} {exchange : Exchange} {contact : Contact}
    (h : contact ∈ (t.send exchange).1.map (.request credential)) :
    ∃ url, HopAllowed t.libs t.outside t.policy url ∧ contact = .request credential url := by
  rcases List.mem_map.mp h with ⟨url, hurl, heq⟩
  exact ⟨url, t.send_allowed exchange url hurl, heq.symm⟩

private theorem mem_httpRung {target : ApiTarget} {s : TestState} {contact : Contact}
    (h : contact ∈ (t.httpRung target).contacts s) :
    ∃ url, HopAllowed t.libs t.outside t.policy url ∧ contact = .request false url := by
  dsimp only [httpRung] at h
  cases hprobe : t.probe? target with
  | none =>
      rw [hprobe] at h
      cases h
  | some request =>
      rw [hprobe] at h
      exact mem_send h

private theorem mem_authRung {target : ApiTarget} {s : TestState} {contact : Contact}
    (h : contact ∈ (t.authRung target).contacts s) :
    ∃ url, HopAllowed t.libs t.outside t.policy url ∧ contact = .request true url := by
  dsimp only [authRung] at h
  cases hrequest : t.authorized? target s with
  | none =>
      rw [hrequest] at h
      cases h
  | some request =>
      rw [hrequest] at h
      exact mem_send h

private theorem mem_connectRung {conn : DbTestConfig} {s : TestState} {contact : Contact}
    (h : contact ∈ (t.connectRung conn).contacts s) :
    contact = .database conn.connection.endpoint.1 := by
  dsimp only [connectRung] at h
  cases hopen : t.outside.openEngine with
  | error exc =>
      rw [hopen] at h
      cases h
  | ok opened =>
      rw [hopen] at h
      exact List.mem_singleton.mp h

/-! ## What the policy has allowed -/

/-- Above the connection, every request is looked up on its own. -/
theorem httpRungs_chained (target : ApiTarget) :
    Chained (Contact.Guarded t.libs t.outside t.policy) (fun _ => True)
      [t.httpRung target, t.authRung target] := by
  refine ⟨fun s _ contact hmem => ?_, fun _ => True, fun _ _ _ _ _ => trivial,
    fun s _ contact hmem => ?_, fun _ => True, fun _ _ _ _ _ => trivial, trivial⟩
  · rcases mem_httpRung hmem with ⟨url, hallowed, rfl⟩
    exact hallowed
  · rcases mem_authRung hmem with ⟨url, hallowed, rfl⟩
    exact hallowed

/-- The rungs up to the connection clear the addresses for those above them. -/
theorem lowerRungs_chained {host : String} {port : Nat}
    {aboveDns abovePolicy aboveTcp : List RungName} {rest : List TestRung}
    (hrest : Chained (Contact.Guarded t.libs t.outside t.policy)
      (fun s => Cleared t.libs t.policy host (some port) s.ips) rest) :
    Chained (Contact.Guarded t.libs t.outside t.policy) (fun _ => True)
      (t.dnsRung host port aboveDns :: t.ssrfPolicyRung host abovePolicy ::
        t.tcpRung host port aboveTcp :: rest) := by
  refine ⟨fun s _ contact hmem => ?_, t.Resolved host port, fun s text s' _ => dnsRung_after, ?_⟩
  · cases List.mem_singleton.mp hmem
    trivial
  refine ⟨(fun s _ contact hmem => nomatch hmem),
    fun s => Cleared t.libs t.policy host (some port) s.ips,
    fun s text s' hs => ssrfPolicyRung_after hs, ?_⟩
  refine ⟨fun s hs contact hmem => ?_, fun s => Cleared t.libs t.policy host (some port) s.ips,
    fun s text s' hs hstep => ?_, hrest⟩
  · rcases mem_tcpRung hmem with ⟨ip, hip, rfl⟩
    exact ⟨s.ips, hs, hip⟩
  · rw [tcpRung_after hstep]
    exact hs

private theorem apiRungs_chained (target : ApiTarget) :
    Chained (Contact.Guarded t.libs t.outside t.policy) (fun _ => True) (t.apiRungs target) := by
  apply lowerRungs_chained
  refine ⟨fun s hs contact hmem => ?_, fun _ => True, fun _ _ _ _ _ => trivial,
    httpRungs_chained target⟩
  cases mem_tlsRung hmem
  exact ⟨s.ips, hs⟩

/-- The ladder of a database goes to the host of the connection, or to none. -/
theorem networkRungs_cases (conn : DbTestConfig) :
    (∃ host port, conn.connection.endpoint.1 = some host ∧ t.networkRungs conn =
      [t.dnsRung host port [.ssrfPolicy, .tcp, .connect, .query],
        t.ssrfPolicyRung host [.tcp, .connect, .query], t.tcpRung host port [.connect, .query]]) ∨
    conn.connection.endpoint.1 = none ∧ t.networkRungs conn =
      [RungName.dns, .ssrfPolicy, .tcp].map fun name =>
        skippedRung name (driverName conn.connection.driver ++ " is not a network driver") := by
  unfold networkRungs DbConnectionConfig.endpoint
  cases hdriver : conn.connection.driver with
  | sqlite => exact .inr ⟨rfl, rfl⟩
  | postgresql =>
      rcases conn.connection.host_required hdriver with ⟨host, hhost, _⟩
      rw [hhost]
      cases conn.connection.port with
      | none => exact .inl ⟨host, 5432, rfl, rfl⟩
      | some port =>
          cases port with
          | zero => exact .inl ⟨host, 5432, rfl, rfl⟩
          | succ port => exact .inl ⟨host, port + 1, rfl, rfl⟩

private theorem connectRung_chained (conn : DbTestConfig) {Before : TestState → Prop}
    (h : ∀ s, Before s →
      (Contact.database conn.connection.endpoint.1).Guarded t.libs t.outside t.policy) :
    Chained (Contact.Guarded t.libs t.outside t.policy) Before
      [t.connectRung conn, t.queryRung] := by
  refine ⟨fun s hs contact hmem => ?_, fun _ => True, fun _ _ _ _ _ => trivial,
    fun s _ contact hmem => ?_, fun _ => True, fun _ _ _ _ _ => trivial, trivial⟩
  · cases mem_connectRung hmem
    exact h s hs
  · cases List.mem_singleton.mp hmem
    trivial

private theorem dbRungs_chained (conn : DbTestConfig) :
    Chained (Contact.Guarded t.libs t.outside t.policy) (fun _ => True) (t.dbRungs conn) := by
  rw [dbRungs]
  rcases t.networkRungs_cases conn with ⟨host, port, hhost, heq⟩ | ⟨hhost, heq⟩
  · rw [heq]
    apply lowerRungs_chained
    apply connectRung_chained
    intro s hs
    rw [hhost]
    exact ⟨some port, s.ips, hs⟩
  · rw [heq]
    refine ⟨(fun _ _ _ hmem => nomatch hmem), fun _ => True, fun _ _ _ _ _ => trivial,
      (fun _ _ _ hmem => nomatch hmem), fun _ => True, fun _ _ _ _ _ => trivial,
      (fun _ _ _ hmem => nomatch hmem), fun _ => True, fun _ _ _ _ _ => trivial, ?_⟩
    apply connectRung_chained
    intro s _
    rw [hhost]
    trivial

/-! ## Rungs that are skipped -/

private theorem dnsRung_contacts (host : String) (port : Nat) (above : List RungName) :
    (t.dnsRung host port above).Contacts Contact.rung where
  own := fun s contact hmem => by
    cases List.mem_singleton.mp hmem
    rfl
  skipped := fun s text s' hstep => by
    dsimp only [dnsRung] at hstep
    cases hips : resolveHost t.libs host (some port) with
    | ok ips => simp [hips] at hstep
    | error exc =>
        by_cases hos : t.outside.isOSError exc = true
        · simp [hips, hos] at hstep
        · simp [hips, hos] at hstep

private theorem ssrfPolicyRung_contacts (host : String) (above : List RungName) :
    (t.ssrfPolicyRung host above).Contacts Contact.rung where
  own := fun _ _ hmem => nomatch hmem
  skipped := fun _ _ _ _ => rfl

private theorem tcpRung_contacts (host : String) (port : Nat) (above : List RungName) :
    (t.tcpRung host port above).Contacts Contact.rung where
  own := fun s contact hmem => by
    rcases mem_tcpRung hmem with ⟨ip, _, rfl⟩
    rfl
  skipped := fun s text s' hstep => by
    dsimp only [tcpRung] at hstep
    cases hips : s.ips with
    | nil => simp [hips] at hstep
    | cons ip rest =>
        simp only [hips] at hstep
        cases hopen : t.outside.openConnection ip port with
        | ok opened => simp [hopen] at hstep
        | error exc =>
            by_cases hos : t.outside.isOSError exc = true
            · simp [hopen, hos] at hstep
            · simp [hopen, hos] at hstep

private theorem tlsRung_contacts (target : ApiTarget) :
    (t.tlsRung target).Contacts Contact.rung where
  own := fun s contact hmem => by
    cases mem_tlsRung hmem
    rfl
  skipped := fun s text s' hstep => by
    dsimp only [tlsRung] at hstep ⊢
    by_cases hhttps : target.https = true
    · rw [if_pos hhttps] at hstep
      cases hshake : t.outside.handshake target.host target.port target.cfg.verifyTls with
      | ok detail => simp [hshake] at hstep
      | error exc =>
          by_cases hos : t.outside.isOSError exc = true
          · simp [hshake, hos] at hstep
          · simp [hshake, hos] at hstep
    · exact if_neg hhttps

private theorem httpRung_contacts (target : ApiTarget) :
    (t.httpRung target).Contacts Contact.rung where
  own := fun s contact hmem => by
    rcases mem_httpRung hmem with ⟨url, _, rfl⟩
    rfl
  skipped := fun s text s' hstep => by
    dsimp only [httpRung] at hstep
    cases hprobe : t.probe? target with
    | none => simp [hprobe] at hstep
    | some request =>
        cases hanswer : (t.send (t.outside.exchange false request)).2 with
        | error exc => simp [hprobe, hanswer] at hstep
        | ok answer => simp [hprobe, hanswer] at hstep

private theorem authRung_contacts (target : ApiTarget) :
    (t.authRung target).Contacts Contact.rung where
  own := fun s contact hmem => by
    rcases mem_authRung hmem with ⟨url, _, rfl⟩
    rfl
  skipped := fun s text s' hstep => by
    dsimp only [authRung] at hstep ⊢
    cases hauth : target.cfg.auth with
    | none => simp [authorized?, hauth]
    | some auth =>
        simp only [hauth] at hstep
        split at hstep
        · cases hstep
        · split at hstep
          · cases hstep
          · split at hstep
            · cases hstep
            · split at hstep
              · cases hstep
              · cases hstep

private theorem connectRung_contacts (conn : DbTestConfig) :
    (t.connectRung conn).Contacts Contact.rung where
  own := fun s contact hmem => by
    cases mem_connectRung hmem
    rfl
  skipped := fun s text s' hstep => by
    dsimp only [connectRung] at hstep
    cases hopen : t.outside.openEngine with
    | error exc => simp [hopen] at hstep
    | ok opened =>
        cases hconnect : t.outside.engineConnect with
        | error exc => simp [hopen, hconnect] at hstep
        | ok connected => simp [hopen, hconnect] at hstep

private theorem queryRung_contacts : t.queryRung.Contacts Contact.rung where
  own := fun s contact hmem => by
    cases List.mem_singleton.mp hmem
    rfl
  skipped := fun s text s' hstep => by
    dsimp only [queryRung] at hstep
    split at hstep <;> (try split at hstep) <;> cases hstep

private theorem skippedRung_contacts (name : RungName) (detail : String) :
    (skippedRung name detail).Contacts Contact.rung where
  own := fun _ _ hmem => nomatch hmem
  skipped := fun _ _ _ _ => rfl

private theorem apiRungs_contacts (target : ApiTarget) :
    ∀ rung ∈ t.apiRungs target, rung.Contacts Contact.rung := by
  simp only [apiRungs, List.forall_mem_cons]
  exact ⟨t.dnsRung_contacts _ _ _, t.ssrfPolicyRung_contacts _ _, t.tcpRung_contacts _ _ _,
    t.tlsRung_contacts _, t.httpRung_contacts _, t.authRung_contacts _, List.forall_mem_nil _⟩

private theorem dbRungs_contacts (conn : DbTestConfig) :
    ∀ rung ∈ t.dbRungs conn, rung.Contacts Contact.rung := by
  rw [dbRungs, List.forall_mem_append]
  constructor
  · rcases t.networkRungs_cases conn with ⟨host, port, _, heq⟩ | ⟨_, heq⟩
    · simp only [heq, List.forall_mem_cons]
      exact ⟨t.dnsRung_contacts _ _ _, t.ssrfPolicyRung_contacts _ _, t.tcpRung_contacts _ _ _,
        List.forall_mem_nil _⟩
    · intro rung hmem
      rw [heq] at hmem
      rcases List.mem_map.mp hmem with ⟨name, _, rfl⟩
      exact skippedRung_contacts _ _
  · simp only [List.forall_mem_cons]
    exact ⟨t.connectRung_contacts _, t.queryRung_contacts, List.forall_mem_nil _⟩

end Tester

/-! ## The report -/

/-- The rungs that a report shows: the config alone, or a whole ladder.  The policy is left
out of the ladder of an API whose host is not found. -/
inductive Shown : String → List (Check RungName) → Prop where
  | config (sourceType error : String) : Shown sourceType [⟨.config, .failed, error⟩]
  | api (checks : List (Check RungName))
      (names : checks.map Check.name = [.dns, .ssrfPolicy, .tcp, .tls, .http, .auth]) :
      Shown "api_source" checks
  | unresolved (error : String) (rest : List (Check RungName))
      (names : rest.map Check.name = [.tcp, .tls, .http, .auth]) :
      Shown "api_source" (⟨.dns, .failed, error⟩ :: rest)
  | db (checks : List (Check RungName))
      (names : checks.map Check.name = [.dns, .ssrfPolicy, .tcp, .connect, .query]) :
      Shown "db_source" checks

/-- A report about the contacts of a test: it shows a ladder with at most one failure, after
which all is skipped; its verdict is that of the checks; and every contact is that of a check
which is not skipped, with no failure before it. -/
structure DiagnosticReport.Tells (contacts : List Contact) (checks : List (Check RungName))
    (report : DiagnosticReport) : Prop where
  written : report.checks = checks.map DiagnosticCheck.add
  shown : Shown report.sourceType checks
  climbed : Climbed checks
  verdict : report.ok = true ↔ ∀ check ∈ checks, check.status ≠ .failed
  told : ∀ contact ∈ contacts, ∃ before check after, checks = before ++ check :: after ∧
    check.name = contact.rung ∧ check.status ≠ .skipped ∧
    ∀ other ∈ before, other.status ≠ .failed

/-- A test that keeps to the policy, also where it raises, and tells of what it has done. -/
structure Diagnosed {α ν : Type} (libs : NetworkLibraries α ν) (outside : Outside)
    (policy : SsrfPolicy) (diagnosis : Diagnosis) : Prop where
  guarded : ∀ contact ∈ diagnosis.contacts, contact.Guarded libs outside policy
  reported : ∀ report, diagnosis.outcome = .ok report →
    ∃ checks, DiagnosticReport.Tells diagnosis.contacts checks report

namespace Tester

variable {α ν : Type} {libs : NetworkLibraries α ν} {outside : Outside} {policy : SsrfPolicy}

private theorem verdict_iff {checks : List (Check RungName)} :
    (checks.all fun check => decide (check.status ≠ .failed)) = true ↔
      ∀ check ∈ checks, check.status ≠ .failed := by
  simp only [List.all_eq_true, decide_eq_true_eq]

/-- A test that ends at its config makes no contact. -/
theorem configFailed_diagnosed (sourceType : String) (target : Except PyException String)
    (error : String) : Diagnosed libs outside policy (configFailed sourceType target error) where
  guarded := fun _ hmem => nomatch hmem
  reported := fun result hresult => by
    cases target with
    | error exc => cases hresult
    | ok target =>
        cases hresult
        exact ⟨_, rfl, .config sourceType error,
          .inr ⟨[], _, [], rfl, (fun _ hmem => nomatch hmem), rfl, List.forall_mem_nil _⟩,
          verdict_iff, List.forall_mem_nil _⟩

/-- A test that climbs a ladder reports it. -/
theorem climbed_diagnosed {sourceType : String} {rungs : List TestRung}
    (hchained : Chained (Contact.Guarded libs outside policy) (fun _ => True) rungs)
    (hcontacts : ∀ rung ∈ rungs, rung.Contacts Contact.rung)
    (hshown : ∀ s, (climb skipRest rungs .initial).final = .ok s →
      Shown sourceType (climb skipRest rungs .initial).checks) (target : String) :
    Diagnosed libs outside policy (climbed sourceType target rungs) where
  guarded := climb_contacts hchained trivial
  reported := fun result hresult => by
    dsimp only [climbed] at hresult
    cases hfinal : (climb skipRest rungs .initial).final with
    | error exc =>
        rw [hfinal] at hresult
        cases hresult
    | ok s =>
        rw [hfinal] at hresult
        cases hresult
        exact ⟨_, rfl, hshown s hfinal, climb_climbed skipRest rungs .initial, verdict_iff,
          fun contact => climb_contact hcontacts hfinal⟩

variable {t : Tester α ν}

private theorem apiRungs_shown (target : ApiTarget) {s : TestState}
    (hfinal : (climb skipRest (t.apiRungs target) .initial).final = .ok s) :
    Shown "api_source" (climb skipRest (t.apiRungs target) .initial).checks := by
  have hlabelled : Labelled (t.apiRungs target).tail := ⟨rfl, rfl, rfl, rfl, rfl, trivial⟩
  have hfirst := climb_first skipRest (t.dnsRung target.host target.port [.tcp, .tls, .http, .auth])
    (t.apiRungs target).tail .initial
  change First _ _ _ _ (climb skipRest (t.apiRungs target) .initial) at hfirst
  generalize climb skipRest (t.apiRungs target) .initial = result at hfirst hfinal ⊢
  cases hfirst with
  | passed detail s' hstep =>
      exact .api _ (congrArg (RungName.dns :: ·) (climb_names hlabelled hfinal))
  | skipped detail s' hstep =>
      exact .api _ (congrArg (RungName.dns :: ·) (climb_names hlabelled hfinal))
  | failed error hstep => exact .unresolved error _ rfl
  | raised exc hstep => cases hfinal

/-- The rungs of a database are reported under all names, also for a local file. -/
theorem dbRungs_shown (conn : DbTestConfig) {s : TestState}
    (hfinal : (climb skipRest (t.dbRungs conn) .initial).final = .ok s) :
    Shown "db_source" (climb skipRest (t.dbRungs conn) .initial).checks := by
  apply Shown.db
  rcases t.networkRungs_cases conn with ⟨host, port, hhost, heq⟩ | ⟨hhost, heq⟩
  · have hlabelled : Labelled (t.dbRungs conn) := by
      rw [dbRungs, heq]
      exact ⟨rfl, rfl, rfl, rfl, rfl, trivial⟩
    rw [climb_names hlabelled hfinal, dbRungs, heq]
    rfl
  · have hlabelled : Labelled [t.connectRung conn, t.queryRung] := ⟨rfl, rfl, trivial⟩
    rw [dbRungs, heq] at hfinal ⊢
    exact congrArg ([RungName.dns, .ssrfPolicy, .tcp] ++ ·) (climb_names hlabelled hfinal)

private theorem testApiSource_diagnosed (raw : Fields) :
    Diagnosed t.libs t.outside t.policy (t.testApiSource raw) := by
  rw [testApiSource]
  by_cases hrefs : hasReferences raw = true
  · rw [if_pos hrefs]
    apply configFailed_diagnosed
  rw [if_neg hrefs]
  cases t.apiTarget raw with
  | error exc => apply configFailed_diagnosed
  | ok target =>
      exact climbed_diagnosed (apiRungs_chained target) (apiRungs_contacts target)
        (fun _ => apiRungs_shown target) _

private theorem dbRungs_diagnosed (conn : DbTestConfig) (target : String) :
    Diagnosed t.libs t.outside t.policy (climbed "db_source" target (t.dbRungs conn)) :=
  climbed_diagnosed (dbRungs_chained conn) (dbRungs_contacts conn) (fun _ => dbRungs_shown conn)
    target

private theorem testDbSource_diagnosed (raw : Fields) :
    Diagnosed t.libs t.outside t.policy (t.testDbSource raw) := by
  rw [testDbSource]
  by_cases hrefs : hasReferences raw = true
  · rw [if_pos hrefs]
    apply configFailed_diagnosed
  rw [if_neg hrefs]
  cases t.outside.dbConfig (raw.any fun field => field.1 = "connection") raw with
  | error exc => apply configFailed_diagnosed
  | ok conn =>
      dsimp only
      cases conn.secretRef.bind nonEmpty? with
      | none => exact dbRungs_diagnosed conn _
      | some ref =>
          dsimp only
          by_cases hsecret : (t.secrets.get? ref).isSome = true
          · rw [if_pos hsecret]
            exact dbRungs_diagnosed conn _
          · rw [if_neg hsecret]
            apply configFailed_diagnosed

end Tester

/-- Every test of a connection keeps to the policy: no connection to an address that it does
not allow, and no hop of a request unless the policy is off or the host is listed, or looked up
and allowed.  The report shows a whole ladder with at most one failure and nothing done after
it, and tells of every contact. -/
theorem testConnection_diagnosed {α ν : Type} (rt : Runtime) (libs : NetworkLibraries α ν)
    (outside : Outside) (policy : SsrfPolicy) (secrets : OrderedDict String PyText)
    (sampleBytes : Nat) (sourceType : String) (config : Fields) :
    Diagnosed libs outside policy
      (testConnection rt libs outside policy secrets sampleBytes sourceType config) := by
  rw [testConnection]
  by_cases htype : sourceType = "api_source" ∨ sourceType = "db_source"
  · rw [if_pos htype]
    cases Redactor.ofSecrets secrets.values with
    | error exc => exact ⟨(fun _ hmem => nomatch hmem), fun _ hresult => nomatch hresult⟩
    | ok redactor =>
        let t : Tester α ν := ⟨rt, libs, outside, policy, secrets, redactor, sampleBytes⟩
        dsimp only
        by_cases hapi : sourceType = "api_source"
        · rw [if_pos hapi]
          exact Tester.testApiSource_diagnosed (t := t) config
        · rw [if_neg hapi]
          exact Tester.testDbSource_diagnosed (t := t) config
  · rw [if_neg htype]
    apply Tester.configFailed_diagnosed

end EtlTool
