import EtlTool.Server.LiveLogs
import EtlTool.Server.Requests

/-!
# The running server

The database together with everything that works on it at the same time: requests
between their reads and their commits, ticks of the scheduler, calls of the worker, and
streams of events.  One step is taken by one of them.  A queue may deliver any run id at
any time.

New ids are drawn by {lit}`uuid4`, which gives no id twice; the server remembers for
whom an id was drawn, which the source does not.

Main results:

- Theorem {lit}`Server.step_spec`: everything that one step can do.
- Theorem {lit}`Worker.stepResolving_secretRows`: a step of a worker looks at the secrets of one
  owner at most.

Current gaps:

- The secrets of a run are read in one step.
-/

namespace EtlTool

open OwnedRows

/-! ## Calls of the worker -/

/-- A call of {lit}`execute_run`, with the pipeline that it has loaded. -/
structure WorkerCall where
  runId : Uuid
  pipeline : Option Pipeline
  phase : Phase

/-- The flusher cannot store log lines of a run that is gone. -/
def Phase.unstored : Phase → Phase
  | flying outcome flight => .flying outcome { flight with flusher := .raised integrityError }
  | phase => phase

/-- One step of a worker; the document is parsed and its secrets are resolved at once. -/
def Worker.stepResolving (d : Deployment) (db : Database) (phase : Phase) (a : WorkerAction) :
    Option (Database × Phase) :=
  match Worker.step d db phase a with
  | some (db', .prepared spec provider) => some (db', Worker.resolve d spec provider)
  | next => next

private theorem Deployment.prepare_secretRows {d : Deployment}
    {f g : String → OrderedDict String String}
    {ownerId : String} (h : f ownerId = g ownerId) (spec : Fields) :
    Deployment.prepare { d with secretRows := f } ownerId spec =
      Deployment.prepare { d with secretRows := g } ownerId spec := by
  simp only [Deployment.prepare, h]

/-- A step of a worker looks at the secrets of one owner at most. -/
theorem Worker.stepResolving_secretRows {d : Deployment}
    {f g : String → OrderedDict String String} {db : Database} {phase : Phase} (a : WorkerAction)
    (h : ∀ ownerId spec, phase = .claimed ownerId spec → f ownerId = g ownerId) :
    Worker.stepResolving { d with secretRows := f } db phase a =
      Worker.stepResolving { d with secretRows := g } db phase a := by
  have hstep : Worker.step { d with secretRows := f } db phase a =
      Worker.step { d with secretRows := g } db phase a := by
    cases phase with
    | claimed ownerId spec =>
        cases a with
        | prepare =>
            simp only [Worker.step, Deployment.prepare_secretRows (h ownerId spec rfl)]
        | _ => rfl
    | sawPipeline loaded spec => cases spec <;> cases a <;> rfl
    | _ => cases a <;> rfl
  simp only [Worker.stepResolving, hstep]
  rfl

namespace WorkerCall

/-- The pipeline that a call has loaded after its next step. -/
def loads (tables : Tables) (call : WorkerCall) : WorkerAction → Option Pipeline
  | .readPipeline => (tables.run? call.runId).bind fun row => tables.pipeline? row.pipelineId
  | _ => call.pipeline

/-- One step of a call, on the rows of its run. -/
def step (d : Deployment) (tables : Tables) (call : WorkerCall) (a : WorkerAction) :
    Option (Tables × WorkerCall) :=
  match Worker.stepResolving { d with secretRows := tables.secretRows } (tables.view call.runId)
      call.phase a with
  | none => none
  | some (db, phase) =>
      if (tables.run? call.runId).isSome then
        some (tables.putBack call.runId db,
          { call with pipeline := call.loads tables a, phase := phase })
      else
        some (tables, {
          call with
          pipeline := call.loads tables a
          phase := if db.logs = [] then phase else phase.unstored })

end WorkerCall

/-! ## Sessions -/

/-- Something that works on the database. -/
inductive Session where
  /-- A request that has not been read. -/
  | arrived (request : Request)
  /-- A request between its read and its commit. -/
  | working (user : Option Uuid) (work : RequestWork)
  /-- A request after its commit. -/
  | refreshing (user : Option Uuid) (target : Target)
  | answered (user : Option Uuid) (response : Response)
  | executing (call : WorkerCall)
  | streaming (userId runId : Uuid) (client : Client)

/-- What a request has become when it has been read. -/
def Session.started (user : Option Uuid) : RequestWork → Session
  | .answer response => .answered user response
  | .stream userId runId => .streaming userId runId .initial
  | work => .working user work

/-- What a request has become when it has committed. -/
def Session.resumed (user : Option Uuid) : Followup → Session
  | .answered response => .answered user response
  | .refreshing target => .refreshing user target

/-- The user for whom a session works: a worker works for the owner of the pipeline that
it has loaded. -/
def Session.user? : Session → Option Uuid
  | arrived (.api subject _) => subject
  | arrived _ => none
  | working user _ => user
  | refreshing user _ => user
  | answered user _ => user
  | executing call => call.pipeline.map Pipeline.ownerId
  | streaming userId _ _ => some userId

/-- The ids of the rows that a commit creates, with their owners. -/
def RequestWork.newIds : RequestWork → List (Uuid × Uuid)
  | .insertUser row => [(row.id, row.id)]
  | .insertPipeline row => [(row.id, row.ownerId)]
  | .insertRun row => [(row.id, row.ownerId)]
  | .insertSecret row => [(row.id, row.ownerId)]
  | .schedule (.insert row) => [(row.id, row.ownerId)]
  | .schedule (.tick t) => t.runs.map fun row => (row.id, row.ownerId)
  | _ => []

/-- No step is left before the commit. -/
def RequestWork.ready (app : App) : RequestWork → Bool
  | .schedule work => (workSchedules app.cron app.worker.runtime work).isNone
  | _ => true

/-- {lit}`uuid4` gives new ids. -/
def NewIds (issued new : List (Uuid × Uuid)) : Prop :=
  (new.map Prod.fst).Nodup ∧ ∀ id ∈ new.map Prod.fst, id ∉ issued.map Prod.fst

instance (issued new : List (Uuid × Uuid)) : Decidable (NewIds issued new) :=
  inferInstanceAs (Decidable (_ ∧ _))

/-! ## The server -/

/-- The database, the ids that were drawn with the owners of their rows, and everything
that works on the database. -/
structure Server where
  calendar : Calendar
  issued : List (Uuid × Uuid)
  sessions : List Session

/-- What the server does next; a number says which session takes the step. -/
inductive ServerAction where
  | arrive (request : Request)
  /-- The queue delivers a run. -/
  | deliver (runId : Uuid)
  | read (i : Nat)
  | work (i : Nat)
  | commit (i : Nat)
  | refresh (i : Nat)
  | execute (i : Nat) (a : WorkerAction)
  | stream (i : Nat) (a : ClientAction)

/-- The session that takes a step. -/
def ServerAction.session? : ServerAction → Option Nat
  | arrive _ => none
  | deliver _ => none
  | read i => some i
  | work i => some i
  | commit i => some i
  | refresh i => some i
  | execute i _ => some i
  | stream i _ => some i

namespace Server

/-- The tables of the database. -/
def tables (s : Server) : Tables :=
  s.calendar.tables

/-- A database without rows, and nobody who works on it. -/
def initial : Server where
  calendar := ⟨Tables.empty, []⟩
  issued := []
  sessions := []

/-- A session has taken a step. -/
def become (s : Server) (i : Nat) (session : Session) : Server :=
  { s with sessions := s.sessions.set i session }

/-- One step. -/
def step (app : App) (s : Server) : ServerAction → Option Server
  | .arrive request => some { s with sessions := s.sessions ++ [.arrived request] }
  | .deliver runId => some { s with sessions := s.sessions ++ [.executing ⟨runId, none, .start⟩] }
  | .read i =>
      match s.sessions[i]? with
      | some (.arrived request) =>
          let next := readRequest app s.calendar request
          some (s.become i (.started next.1 next.2))
      | _ => none
  | .work i =>
      match s.sessions[i]? with
      | some (.working user (.schedule work)) =>
          (workSchedules app.cron app.worker.runtime work).map fun work =>
            s.become i (.working user (.schedule work))
      | _ => none
  | .commit i =>
      match s.sessions[i]? with
      | some (.working user work) =>
          if work.ready app ∧ NewIds s.issued work.newIds then
            let next := commitRequest app s.calendar work
            some {
              calendar := next.1
              issued := s.issued ++ work.newIds
              sessions := s.sessions.set i (.resumed user next.2) }
          else none
      | _ => none
  | .refresh i =>
      match s.sessions[i]? with
      | some (.refreshing user target) =>
          some (s.become i (.answered user (refreshed s.tables target)))
      | _ => none
  | .execute i a =>
      match s.sessions[i]? with
      | some (.executing call) =>
          (call.step app.worker s.tables a).map fun next => {
            s with
            calendar := { s.calendar with tables := next.1 }
            sessions := s.sessions.set i (.executing next.2) }
      | _ => none
  | .stream i a =>
      match s.sessions[i]? with
      | some (.streaming userId runId client) =>
          (client.step (s.tables.view runId) a).map fun client =>
            s.become i (.streaming userId runId client)
      | _ => none

/-- Everything that one step can do. -/
inductive Step (app : App) (s : Server) : ServerAction → Server → Prop where
  | arrive (request : Request) :
      Step app s (.arrive request) { s with sessions := s.sessions ++ [.arrived request] }
  | deliver (runId : Uuid) :
      Step app s (.deliver runId)
        { s with sessions := s.sessions ++ [.executing ⟨runId, none, .start⟩] }
  | read (i : Nat) (request : Request) (hsession : s.sessions[i]? = some (.arrived request)) :
      Step app s (.read i) (s.become i (.started (readRequest app s.calendar request).1
        (readRequest app s.calendar request).2))
  | work (i : Nat) (user : Option Uuid) (work work' : ScheduleWork)
      (hsession : s.sessions[i]? = some (.working user (.schedule work)))
      (hwork : workSchedules app.cron app.worker.runtime work = some work') :
      Step app s (.work i) (s.become i (.working user (.schedule work')))
  | commit (i : Nat) (user : Option Uuid) (work : RequestWork)
      (hsession : s.sessions[i]? = some (.working user work)) (hready : work.ready app = true)
      (hids : NewIds s.issued work.newIds) :
      Step app s (.commit i) {
        calendar := (commitRequest app s.calendar work).1
        issued := s.issued ++ work.newIds
        sessions := s.sessions.set i (.resumed user (commitRequest app s.calendar work).2) }
  | refresh (i : Nat) (user : Option Uuid) (target : Target)
      (hsession : s.sessions[i]? = some (.refreshing user target)) :
      Step app s (.refresh i) (s.become i (.answered user (refreshed s.tables target)))
  | execute (i : Nat) (a : WorkerAction) (call call' : WorkerCall) (tables : Tables)
      (hsession : s.sessions[i]? = some (.executing call))
      (hstep : call.step app.worker s.tables a = some (tables, call')) :
      Step app s (.execute i a) {
        s with
        calendar := { s.calendar with tables := tables }
        sessions := s.sessions.set i (.executing call') }
  | stream (i : Nat) (a : ClientAction) (userId runId : Uuid) (client client' : Client)
      (hsession : s.sessions[i]? = some (.streaming userId runId client))
      (hstep : client.step (s.tables.view runId) a = some client') :
      Step app s (.stream i a) (s.become i (.streaming userId runId client'))

theorem step_spec {app : App} {s s' : Server} {a : ServerAction} (h : s.step app a = some s') :
    Step app s a s' := by
  cases a with
  | arrive request =>
      cases h
      exact .arrive request
  | deliver runId =>
      cases h
      exact .deliver runId
  | read i =>
      simp only [step] at h
      split at h
      · rename_i request hsession
        cases h
        exact .read i request hsession
      · cases h
  | work i =>
      simp only [step] at h
      split at h
      · rename_i user work hsession
        rcases Option.map_eq_some_iff.mp h with ⟨work', hwork, rfl⟩
        exact .work i user work work' hsession hwork
      · cases h
  | commit i =>
      simp only [step] at h
      split at h
      · rename_i user work hsession
        split at h
        · rename_i hready
          cases h
          exact .commit i user work hsession hready.1 hready.2
        · cases h
      · cases h
  | refresh i =>
      simp only [step] at h
      split at h
      · rename_i user target hsession
        cases h
        exact .refresh i user target hsession
      · cases h
  | execute i a =>
      simp only [step] at h
      split at h
      · rename_i call hsession
        rcases Option.map_eq_some_iff.mp h with ⟨⟨tables, call'⟩, hstep, rfl⟩
        exact .execute i a call call' tables hsession hstep
      · cases h
  | stream i a =>
      simp only [step] at h
      split at h
      · rename_i userId runId client hsession
        rcases Option.map_eq_some_iff.mp h with ⟨client', hstep, rfl⟩
        exact .stream i a userId runId client client' hsession hstep
      · cases h

end Server

end EtlTool
