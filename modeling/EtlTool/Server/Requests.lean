import EtlTool.Foundations.OwnedRows
import EtlTool.Server.Schedules
import EtlTool.Server.Worker

/-!
# Requests

The routes of the server.  A request is authenticated, reads what it needs and answers,
or it prepares a change.  A change is committed in a second step, against the database
as it is then; after most commits the row is read once more for the response.

What a request uses of other components is a parameter: the document model, the cipher,
the password hash, the connection test, the queue, and what croniter says.

Main results:

- Theorem {lit}`currentUser_eq_ok`: whose request is carried out.
- Theorem {lit}`getOwnedRun_eq_ok`: what a lookup finds that is scoped to an owner.

Current gaps:

- The checks of the request models, the decoding of tokens, and timestamps other than
  those of schedules: a request carries what they leave.
- Values that the database cannot store, and locks.
-/

namespace EtlTool

open OwnedRows

/-! ## Requests and responses -/

/-- A request to a route that needs a user.  The ids are those of the rows that it may
create, and {lit}`nonce` is what the cipher draws. -/
inductive ApiRequest where
  | me
  | createPipeline (id : Uuid) (name : String) (spec : Fields)
  | listPipelines
  | getPipeline (pipelineId : Uuid)
  | updatePipeline (pipelineId : Uuid) (name : Option String) (spec : Option Fields)
  | deletePipeline (pipelineId : Uuid)
  | triggerRun (id pipelineId : Uuid) (params : Option Fields)
  | listRuns (pipelineId : Option Uuid) (limit : Nat)
  | getRun (runId : Uuid)
  | streamRunEvents (runId : Uuid)
  | setSecret (id : Uuid) (ref value nonce : String)
  | listSecrets
  | removeSecret (ref : String)
  | createSchedule (id : Uuid) (payload : ScheduleCreate) (now : Time)
  | listSchedules
  | getSchedule (scheduleId : Uuid)
  | updateSchedule (scheduleId : Uuid) (payload : ScheduleUpdate) (now : Time)
  | deleteSchedule (scheduleId : Uuid)
  | runTestConnection (type : String) (config : Fields)

/-- Whatever the server is asked to do.  The subject is the user id in a valid token. -/
inductive Request where
  | register (id : Uuid) (email password salt : String)
  | login (email password : String)
  | api (subject : Option Uuid) (request : ApiRequest)
  /-- The scheduler wakes up. -/
  | tick (now : Time) (ids : Nat → Uuid)

/-- What a request is answered with.  Rows are given as the handlers return them; the
response models leave out the owner of a row and the ciphertext of a secret. -/
inductive Response where
  | refused (reason : Refusal)
  | noContent
  | user (row : User)
  | token (subject : Uuid)
  | pipeline (row : Pipeline)
  | pipelines (rows : List Pipeline)
  | run (row : RunRow)
  | runs (rows : List RunRow)
  | runDetail (row : RunRow) (logs : List LogRow) (errors : List ErrorRow)
  | schedule (row : Schedule)
  | schedules (rows : List Schedule)
  | secret (row : Secret)
  | secrets (rows : List Secret)
  | report (report : Value)

/-- What a request is about to commit, or its answer. -/
inductive RequestWork where
  | answer (response : Response)
  /-- The stream of a run begins. -/
  | stream (userId runId : Uuid)
  | insertUser (row : User)
  | insertPipeline (row : Pipeline)
  | editPipeline (loaded assigned : Pipeline)
  | removePipeline (row : Pipeline)
  | insertRun (row : RunRow)
  | insertSecret (row : Secret)
  | editSecret (loaded assigned : Secret)
  | removeSecret (row : Secret)
  | schedule (work : ScheduleWork)

/-- A row that is read once more for the response. -/
inductive Target where
  | user (id : Uuid)
  | pipeline (id : Uuid)
  | run (id : Uuid)
  | schedule (id : Uuid)
  | secret (id : Uuid)

/-- How a request goes on after its commit. -/
inductive Followup where
  | answered (response : Response)
  | refreshing (target : Target)

/-- The components that the application works with. -/
structure App where
  worker : Deployment
  cron : Cron
  cipher : Cipher
  /-- {lit}`Cipher.encrypt`, with the nonce that it draws. -/
  encrypt : String → String → Except PyException String
  /-- {lit}`hash_password`, with the salt that it draws. -/
  hashPassword : String → String → String
  verifyPassword : String → String → Bool
  /-- {lit}`exc.error_count()` of the document model. -/
  errorCount : Fields → Nat
  /-- {lit}`test_connection`. -/
  testConnection : String → Fields → OrderedDict String PyText → Except PyException Value
  /-- What {lit}`queue.enqueue_run` raises. -/
  enqueueRun : Uuid → Option PyException

/-! ## Failures -/

/-- A violated constraint. -/
def integrityError : PyException where
  typeName := "IntegrityError"
  text := some "constraint failed"

/-- An {lit}`UPDATE` of a row that is gone. -/
def staleDataError (table : String) : PyException where
  typeName := "StaleDataError"
  text := some ("UPDATE statement on table '" ++ table ++
    "' expected to update 1 row(s); 0 were matched.")

/-- {lit}`session.refresh` of a row that is gone. -/
def invalidRequestError : PyException where
  typeName := "InvalidRequestError"
  text := some "Could not refresh instance"

/-! ## Lookups -/

/-- {lit}`session.get(User, id)`. -/
def Tables.user? (tables : Tables) (id : Uuid) : Option User :=
  tables.users.find? fun row => row.id = id

/-- {lit}`select(User).where(User.email == email)`. -/
def Tables.userByEmail? (tables : Tables) (email : String) : Option User :=
  tables.users.find? fun row => row.email = email

/-- {lit}`session.get(Secret, id)`. -/
def Tables.secret? (tables : Tables) (id : Uuid) : Option Secret :=
  tables.secrets.find? fun row => row.id = id

/-- {lit}`select(Secret).where(Secret.owner_id == owner_id, Secret.ref == ref)`. -/
def Tables.ownedSecret? (tables : Tables) (ownerId : Uuid) (ref : String) : Option Secret :=
  (rowsOf Secret.ownerId ownerId tables.secrets).find? fun row => row.ref = ref

/-- The stored ciphertexts of an owner, by reference. -/
def Tables.secretRows (tables : Tables) (ownerId : Uuid) : OrderedDict String String :=
  .ofList ((rowsOf Secret.ownerId ownerId tables.secrets).map fun row => (row.ref, row.ciphertext))

/-- {lit}`get_current_user`. -/
def currentUser (tables : Tables) (subject : Option Uuid) : Except Refusal User :=
  match subject.bind tables.user? with
  | none => .error .unauthenticated
  | some user => if user.isActive then .ok user else .error .unauthenticated

/-- {lit}`get_owned_run`. -/
def getOwnedRun (tables : Tables) (runId ownerId : Uuid) : Except Refusal RunRow :=
  getOwned "run" RunRow.ownerId (tables.run? runId) ownerId

theorem getOwnedRun_eq_ok {tables : Tables} {id userId : Uuid} {row : RunRow}
    (h : getOwnedRun tables id userId = .ok row) :
    row ∈ tables.runs ∧ row.id = id ∧ row.ownerId = userId := by
  rcases getOwned_eq_ok h with ⟨hstored, howner⟩
  rcases Tables.mem_of_run? hstored with ⟨hmem, hid⟩
  exact ⟨hmem, hid, howner⟩

/-- An authenticated user is the subject of the token. -/
theorem currentUser_eq_ok {tables : Tables} {subject : Option Uuid} {user : User}
    (h : currentUser tables subject = .ok user) : subject = some user.id := by
  unfold currentUser at h
  split at h
  · cases h
  · rename_i found hfound
    rcases Option.bind_eq_some_iff.mp hfound with ⟨id, hsubject, hid⟩
    split at h
    · cases h
      have hkey : user.id = id := by simpa using List.find?_some hid
      rw [hsubject, hkey]
    · cases h

/-! ## Routes -/

namespace Api

variable (app : App) (tables : Tables) (user : User)

/-- {lit}`register`. -/
def register (id : Uuid) (email password salt : String) : RequestWork :=
  match tables.userByEmail? email with
  | some _ => .answer (.refused (.conflict "email already registered"))
  | none => .insertUser ⟨id, email, app.hashPassword salt password, true⟩

/-- {lit}`login`. -/
def login (email password : String) : RequestWork :=
  match tables.userByEmail? email with
  | none => .answer (.refused .unauthenticated)
  | some user =>
      if app.verifyPassword password user.hashedPassword then .answer (.token user.id)
      else .answer (.refused .unauthenticated)

/-- {lit}`_validate_spec`. -/
def validateSpec (spec : Fields) : Except Refusal Unit :=
  match app.worker.modelValidate spec with
  | .ok _ => .ok ()
  | .error exc =>
      if exc.typeName = "ValidationError" then
        .error (.unprocessable ("invalid pipeline spec: " ++ toString (app.errorCount spec) ++
          " error(s)"))
      else .error (.raised exc)

/-- {lit}`create_pipeline`. -/
def createPipeline (id : Uuid) (name : String) (spec : Fields) : RequestWork :=
  match validateSpec app spec with
  | .error reason => .answer (.refused reason)
  | .ok () => .insertPipeline ⟨id, user.id, name, spec⟩

/-- {lit}`list_pipelines`: the newest first. -/
def listPipelines : RequestWork :=
  .answer (.pipelines (rowsOf Pipeline.ownerId user.id tables.pipelines).reverse)

/-- {lit}`get_pipeline`. -/
def getPipeline (pipelineId : Uuid) : RequestWork :=
  match getOwnedPipeline tables pipelineId user.id with
  | .error reason => .answer (.refused reason)
  | .ok row => .answer (.pipeline row)

/-- {lit}`update_pipeline`. -/
def updatePipeline (pipelineId : Uuid) (name : Option String) (spec : Option Fields) :
    RequestWork :=
  match getOwnedPipeline tables pipelineId user.id with
  | .error reason => .answer (.refused reason)
  | .ok row =>
      match (spec.elim (.ok ()) (validateSpec app) : Except Refusal Unit) with
      | .error reason => .answer (.refused reason)
      | .ok () =>
          .editPipeline row { row with name := name.getD row.name, spec := spec.getD row.spec }

/-- {lit}`delete_pipeline`. -/
def deletePipeline (pipelineId : Uuid) : RequestWork :=
  match getOwnedPipeline tables pipelineId user.id with
  | .error reason => .answer (.refused reason)
  | .ok row => .removePipeline row

/-- {lit}`trigger_run`. -/
def triggerRun (id pipelineId : Uuid) (params : Option Fields) : RequestWork :=
  match getOwnedPipeline tables pipelineId user.id with
  | .error reason => .answer (.refused reason)
  | .ok row => .insertRun (.queued id row.id user.id .manual params)

/-- {lit}`list_runs`: the newest first. -/
def listRuns (pipelineId : Option Uuid) (limit : Nat) : RequestWork :=
  let rows := rowsOf RunRow.ownerId user.id tables.runs
  let chosen := match pipelineId with
    | none => rows
    | some pipelineId => rows.filter fun row => row.pipelineId = pipelineId
  .answer (.runs (chosen.reverse.take limit))

/-- {lit}`get_run`. -/
def getRun (runId : Uuid) : RequestWork :=
  match getOwnedRun tables runId user.id with
  | .error reason => .answer (.refused reason)
  | .ok row =>
      .answer (.runDetail row (tables.logs.filter fun log => log.runId = runId)
        (tables.errors.filter fun error => error.runId = runId))

/-- {lit}`stream_run_events`, until its stream begins. -/
def streamRunEvents (runId : Uuid) : RequestWork :=
  match getOwnedRun tables runId user.id with
  | .error reason => .answer (.refused reason)
  | .ok _ => .stream user.id runId

/-- {lit}`upsert_secret`, until its flush. -/
def setSecret (id : Uuid) (ref value nonce : String) : RequestWork :=
  match app.encrypt nonce value with
  | .error exc => .answer (.refused (.raised exc))
  | .ok token =>
      match tables.ownedSecret? user.id ref with
      | none => .insertSecret ⟨id, user.id, ref, token⟩
      | some row => .editSecret row { row with ciphertext := token }

/-- {lit}`list_secrets`. -/
def listSecrets : RequestWork :=
  .answer (.secrets ((rowsOf Secret.ownerId user.id tables.secrets).mergeSort
    fun a b => decide (a.ref ≤ b.ref)))

/-- {lit}`remove_secret`: the deletion says how many rows it has found. -/
def removeSecret (ref : String) : RequestWork :=
  match tables.ownedSecret? user.id ref with
  | none => .answer (.refused (.notFound "secret"))
  | some row => .removeSecret row

/-- {lit}`list_schedules`: the newest first. -/
def listSchedules : RequestWork :=
  .answer (.schedules (rowsOf Schedule.ownerId user.id tables.schedules).reverse)

/-- {lit}`get_schedule`. -/
def getSchedule (scheduleId : Uuid) : RequestWork :=
  match getOwnedSchedule tables scheduleId user.id with
  | .error reason => .answer (.refused reason)
  | .ok row => .answer (.schedule row)

/-- A request that changes schedules. -/
def scheduleRequest (request : ScheduleRequest) (c : Calendar) : RequestWork :=
  match readSchedules app.cron app.worker.runtime request c with
  | .refused reason => .answer (.refused reason)
  | work => .schedule work

/-- The secrets among the references that the provider finds. -/
def configuredSecrets (provider : SecretsProvider) :
    List String → Except PyException (List (String × PyText))
  | [] => .ok []
  | ref :: rest =>
      match provider ref with
      | .error (.notFound _) => configuredSecrets provider rest
      | .error (.other exc) => .error exc
      | .ok value => (configuredSecrets provider rest).map fun found => (ref, value) :: found

/-- {lit}`run_test_connection`. -/
def runTestConnection (type : String) (config : Fields) : RequestWork :=
  match configuredSecrets (dbSecret app.cipher (tables.secretRows user.id))
      (collectRefsFromFields config).dedup with
  | .error exc => .answer (.refused (.raised exc))
  | .ok secrets =>
      match app.testConnection type config (.ofList secrets) with
      | .error exc => .answer (.refused (.raised exc))
      | .ok report => .answer (.report report)

/-- The route of a request. -/
def route (c : Calendar) : ApiRequest → RequestWork
  | .me => .answer (.user user)
  | .createPipeline id name spec => createPipeline app user id name spec
  | .listPipelines => listPipelines c.tables user
  | .getPipeline pipelineId => getPipeline c.tables user pipelineId
  | .updatePipeline pipelineId name spec => updatePipeline app c.tables user pipelineId name spec
  | .deletePipeline pipelineId => deletePipeline c.tables user pipelineId
  | .triggerRun id pipelineId params => triggerRun c.tables user id pipelineId params
  | .listRuns pipelineId limit => listRuns c.tables user pipelineId limit
  | .getRun runId => getRun c.tables user runId
  | .streamRunEvents runId => streamRunEvents c.tables user runId
  | .setSecret id ref value nonce => setSecret app c.tables user id ref value nonce
  | .listSecrets => listSecrets c.tables user
  | .removeSecret ref => removeSecret c.tables user ref
  | .createSchedule id payload now => scheduleRequest app (.create user.id id payload now) c
  | .listSchedules => listSchedules c.tables user
  | .getSchedule scheduleId => getSchedule c.tables user scheduleId
  | .updateSchedule scheduleId payload now =>
      scheduleRequest app (.update user.id scheduleId payload now) c
  | .deleteSchedule scheduleId => scheduleRequest app (.delete user.id scheduleId) c
  | .runTestConnection type config => runTestConnection app c.tables user type config

end Api

/-- Authenticate a request, and carry it out until it answers or commits: the user, and
what the request is about to do. -/
def readRequest (app : App) (c : Calendar) : Request → Option Uuid × RequestWork
  | .register id email password salt => (none, Api.register app c.tables id email password salt)
  | .login email password => (none, Api.login app c.tables email password)
  | .api subject request =>
      match currentUser c.tables subject with
      | .error reason => (none, .answer (.refused reason))
      | .ok user => (some user.id, Api.route app user c request)
  | .tick now ids => (none, .schedule (.tick (.start now ids (dueSchedules c.tables now))))

/-! ## Commits -/

/-- {lit}`ON DELETE CASCADE` from a pipeline to its runs and schedules, and from a run to
its log lines and errors. -/
def Tables.deletePipeline (tables : Tables) (id : Uuid) : Tables :=
  let gone := (tables.runs.filter fun row => row.pipelineId = id).map RunRow.id
  { tables with
    pipelines := tables.pipelines.filter fun row => ¬ row.id = id
    runs := tables.runs.filter fun row => ¬ row.pipelineId = id
    logs := tables.logs.filter fun row => row.runId ∉ gone
    errors := tables.errors.filter fun row => row.runId ∉ gone
    schedules := tables.schedules.filter fun row => ¬ row.pipelineId = id }

/-- Write the columns that a session has changed. -/
def writePipeline (loaded assigned stored : Pipeline) : Pipeline where
  id := stored.id
  ownerId := stored.ownerId
  name := ormWrite loaded.name assigned.name stored.name
  spec := ormWrite loaded.spec assigned.spec stored.spec

/-- Write the column that a session has changed. -/
def writeSecret (loaded assigned stored : Secret) : Secret :=
  { stored with ciphertext := ormWrite loaded.ciphertext assigned.ciphertext stored.ciphertext }

namespace Commit

variable (app : App) (c : Calendar)

/-- A commit that is rolled back. -/
def fail (exc : PyException) : Calendar × Followup :=
  (c, .answered (.refused (.raised exc)))

/-- A user id and an email are given once. -/
def insertUser (row : User) : Calendar × Followup :=
  if row.id ∈ c.tables.users.map User.id ∨ row.email ∈ c.tables.users.map User.email then
    fail c integrityError
  else
    ({ c with tables := { c.tables with users := c.tables.users ++ [row] } },
      .refreshing (.user row.id))

/-- A pipeline id is given once. -/
def insertPipeline (row : Pipeline) : Calendar × Followup :=
  if row.id ∈ c.tables.pipelines.map Pipeline.id then fail c integrityError
  else
    ({ c with tables := { c.tables with pipelines := c.tables.pipelines ++ [row] } },
      .refreshing (.pipeline row.id))

/-- A pipeline that nobody has deleted is changed. -/
def editPipeline (loaded assigned : Pipeline) : Calendar × Followup :=
  if assigned = loaded then (c, .refreshing (.pipeline loaded.id))
  else if loaded.id ∈ c.tables.pipelines.map Pipeline.id then
    ({ c with tables := { c.tables with pipelines := c.tables.pipelines.map fun stored =>
        if stored.id = loaded.id then writePipeline loaded assigned stored else stored } },
      .refreshing (.pipeline loaded.id))
  else fail c (staleDataError "pipelines")

/-- The pipeline of a new run exists; then the run is handed over to the queue. -/
def insertRun (row : RunRow) : Calendar × Followup :=
  if row.id ∈ c.tables.runs.map RunRow.id ∨
      row.pipelineId ∉ c.tables.pipelines.map Pipeline.id then fail c integrityError
  else
    ({ c with tables := { c.tables with runs := c.tables.runs ++ [row] } },
      match app.enqueueRun row.id with
      | some exc => .answered (.refused (.raised exc))
      | none => .refreshing (.run row.id))

/-- A reference is given once by an owner. -/
def insertSecret (row : Secret) : Calendar × Followup :=
  if row.id ∈ c.tables.secrets.map Secret.id ∨
      (c.tables.ownedSecret? row.ownerId row.ref).isSome then fail c integrityError
  else
    ({ c with tables := { c.tables with secrets := c.tables.secrets ++ [row] } },
      .refreshing (.secret row.id))

/-- A secret that nobody has deleted is changed. -/
def editSecret (loaded assigned : Secret) : Calendar × Followup :=
  if assigned = loaded then (c, .refreshing (.secret loaded.id))
  else if loaded.id ∈ c.tables.secrets.map Secret.id then
    ({ c with tables := { c.tables with secrets := c.tables.secrets.map fun stored =>
        if stored.id = loaded.id then writeSecret loaded assigned stored else stored } },
      .refreshing (.secret loaded.id))
  else fail c (staleDataError "secrets")

/-- {lit}`delete(Secret).where(Secret.owner_id == owner_id, Secret.ref == ref)`. -/
def removeSecret (row : Secret) : Calendar × Followup :=
  ({ c with tables := { c.tables with secrets := c.tables.secrets.filter fun stored =>
      ¬ (stored.ownerId = row.ownerId ∧ stored.ref = row.ref) } }, .answered .noContent)

/-- The pipeline of a new schedule exists. -/
def insertSchedule (row : Schedule) : Calendar × Followup :=
  if row.id ∈ c.tables.schedules.map Schedule.id ∨
      row.pipelineId ∉ c.tables.pipelines.map Pipeline.id then fail c integrityError
  else (commitSchedules (.insert row) c, .refreshing (.schedule row.id))

/-- A schedule that nobody has deleted is changed. -/
def editSchedule (loaded assigned : Schedule) : Calendar × Followup :=
  if assigned = loaded then (c, .refreshing (.schedule loaded.id))
  else if loaded.id ∈ c.tables.schedules.map Schedule.id then
    (commitSchedules (.edit loaded assigned) c, .refreshing (.schedule loaded.id))
  else fail c (staleDataError "schedules")

/-- The pipelines of the new runs exist. -/
def tick (t : Tick) : Calendar × Followup :=
  if ∀ run ∈ t.runs, run.pipelineId ∈ c.tables.pipelines.map Pipeline.id then
    (commitSchedules (.tick t) c, .answered .noContent)
  else fail c integrityError

end Commit

/-- Commit the change of a request. -/
def commitRequest (app : App) (c : Calendar) : RequestWork → Calendar × Followup
  | .answer response => (c, .answered response)
  | .stream _ _ => (c, .answered .noContent)
  | .insertUser row => Commit.insertUser c row
  | .insertPipeline row => Commit.insertPipeline c row
  | .editPipeline loaded assigned => Commit.editPipeline c loaded assigned
  | .removePipeline row =>
      ({ c with tables := c.tables.deletePipeline row.id }, .answered .noContent)
  | .insertRun row => Commit.insertRun app c row
  | .insertSecret row => Commit.insertSecret c row
  | .editSecret loaded assigned => Commit.editSecret c loaded assigned
  | .removeSecret row => Commit.removeSecret c row
  | .schedule (.insert row) => Commit.insertSchedule c row
  | .schedule (.edit loaded assigned) => Commit.editSchedule c loaded assigned
  | .schedule (.remove row) => (commitSchedules (.remove row) c, .answered .noContent)
  | .schedule (.refused reason) => (c, .answered (.refused reason))
  | .schedule (.tick t) => Commit.tick c t

/-- {lit}`session.refresh`, and the response. -/
def refreshed (tables : Tables) : Target → Response
  | .user id => (tables.user? id).elim (.refused (.raised invalidRequestError)) .user
  | .pipeline id => (tables.pipeline? id).elim (.refused (.raised invalidRequestError)) .pipeline
  | .run id => (tables.run? id).elim (.refused (.raised invalidRequestError)) .run
  | .schedule id => (tables.schedule? id).elim (.refused (.raised invalidRequestError)) .schedule
  | .secret id => (tables.secret? id).elim (.refused (.raised invalidRequestError)) .secret

end EtlTool
