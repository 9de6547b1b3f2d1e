import EtlTool.Foundations.Interleaving
import EtlTool.Server.LiveLogs

/-!
# The run controller of the editor

The editor shows one run at a time.  Triggering a run, showing a stored one and clearing
the view are actions of the user; the first two ask the server and continue when it
responds, and a run that is not finished is followed over its event stream until the
stream ends and the run is fetched once more.  All continuations write the same view, and
only the stream that was opened last can be cancelled.

The model is the browser together with the server behind it.  Users act, workers store,
the server reads for a response or for a stream, and responses and events arrive, each as
a step of its own, so an interleaving is any order in which this can happen.  The server
keeps every state of a run that there has been, and an action of the user has a number;
both exist only in the model.

Main results:

- Definition {lit}`RunSystem.respond` and {lit}`RunSystem.onEvent`: what a response and an
  event do to the view.
- Definition {lit}`RunSystem.next`: one step of the system.

Current gaps:

- Runs are not deleted while the editor is open.
- A chunk that has been read when the end of another stream cancels its stream; the browser
  still handles its events.
- A node with the id {lit}`__proto__`, under which a plain object of the browser stores
  nothing.
-/

namespace EtlTool

/-! ## The view -/

/-- {lit}`NodeStates`. -/
abbrev NodeStates := OrderedDict String Value

/-- {lit}`RunView`; the status {lean}`none` is {lit}`"idle"`. -/
structure RunView where
  runId : Option String
  status : Option RunState
  running : Bool
  logs : List RunLog
  errors : List NodeError
  nodeStates : NodeStates
deriving DecidableEq

/-- {lit}`EMPTY`. -/
def RunView.empty : RunView where
  runId := none
  status := none
  running := false
  logs := []
  errors := []
  nodeStates := .empty

/-- {lit}`RunDetail`: the row of the run, its log rows and its errors. -/
structure RunDetail where
  run : Run
  logs : List RunLog
  errors : List NodeError
deriving DecidableEq

/-- {lit}`detail.result?.node_results ?? {}`. -/
def nodeResults (run : Run) : Fields :=
  match run.result with
  | some (.dict result) =>
      match result.lookup "node_results" with
      | some (.dict results) => results
      | _ => []
  | _ => []

/-- The status of a node result. -/
def resultStatus : Value → Value
  | .dict fields => (fields.lookup "status").getD .none
  | _ => .none

/-- {lit}`nodeStatesFromDetail`. -/
def nodeStatesFromDetail (detail : RunDetail) : NodeStates :=
  detail.errors.foldl (fun states error => states.set error.nodeId (.str "failed"))
    (.ofList ((nodeResults detail.run).map fun result => (result.1, resultStatus result.2)))

/-- {lit}`bumpRunning`. -/
def bumpRunning (states : NodeStates) (nodeId : String) : NodeStates :=
  let current := states.get? nodeId
  if current = some (.str "succeeded") ∨ current = some (.str "failed") ∨
      current = some (.str "skipped") then states
  else states.set nodeId (.str "running")

/-- The view after a log event. -/
def RunView.appendLog (view : RunView) (row : RunLog) : RunView :=
  { view with
    logs := view.logs ++ [row]
    nodeStates :=
      match row.event.nodeId with
      | none => view.nodeStates
      | some nodeId => if nodeId = "" then view.nodeStates else bumpRunning view.nodeStates nodeId }

/-- The view that {lit}`showRun` opens. -/
def RunView.ofDetail (runId : String) (detail : RunDetail) : RunView where
  runId := some runId
  status := some detail.run.status
  running := !detail.run.status.terminal
  logs := detail.logs
  errors := detail.errors
  nodeStates := nodeStatesFromDetail detail

/-- The view after {lit}`finalize`. -/
def RunView.finalized (view : RunView) (runId : String) (detail : RunDetail) : RunView where
  runId := some runId
  status := some detail.run.status
  running := false
  logs := if detail.logs = [] then view.logs else detail.logs
  errors := detail.errors
  nodeStates := nodeStatesFromDetail detail

/-- The error that stands for a run that could not be triggered. -/
def triggerError (message : String) : NodeError where
  nodeId := "__pipeline__"
  nodeType := "pipeline"
  category := .config
  message := message
  httpStatus := none
  requestSummary := none
  attempts := 1
  details := none

/-! ## Requests and streams -/

/-- How far the server is with the detail of a run: it reads the run, then the logs, then
the errors. -/
inductive DetailReply where
  | asked
  | sawRun (run : Run)
  | sawLogs (run : Run) (logs : List RunLog)
  | answered (detail : RunDetail)
  | failed
deriving DecidableEq

/-- One read of {lit}`get_run`.  The rows are stored in the order of their ids. -/
def DetailReply.read (db : Database) : DetailReply → Option DetailReply
  | asked => db.run.map sawRun
  | sawRun run => some (sawLogs run db.logs)
  | sawLogs run logs => some (answered ⟨run, logs, db.errors⟩)
  | _ => none

/-- How far the server is with a new run. -/
inductive TriggerReply where
  | asked
  | created (runId : String)
  | answered (runId : String) (status : RunState)
  | failed (message : String)
deriving DecidableEq

/-- A call to the server that the controller awaits. -/
inductive Call where
  | trigger (reply : TriggerReply)
  | showRun (runId : String) (reply : DetailReply)
  | finalize (runId : String) (reply : DetailReply)
deriving DecidableEq

/-- A call that fails. -/
def Call.fail (message : String) : Call → Call
  | trigger _ => trigger (.failed message)
  | showRun runId _ => showRun runId .failed
  | finalize runId _ => finalize runId .failed

/-- The calls whose response opens a view. -/
def Call.opens : Call → Bool
  | finalize _ _ => false
  | _ => true

/-- A pending call, with the number of the user's action that it was made for. -/
structure PendingCall where
  action : Nat
  call : Call
deriving DecidableEq

/-- An event stream: the server's end, and how many of the events that have left it the
browser has handled. -/
structure RunStream where
  runId : String
  action : Nat
  server : Client
  delivered : Nat
  closed : Bool
deriving DecidableEq

/-- A cancelled stream. -/
def RunStream.close (stream : RunStream) : RunStream :=
  { stream with closed := true }

/-- What the latest action of the user asked for. -/
inductive Requested where
  | nothing
  /-- A new run, which the server has not named yet. -/
  | newRun
  | failedTrigger (message : String)
  | run (runId : String)
deriving DecidableEq

/-- The controller and the server.  The states of each run are listed from the current one
back. -/
structure RunSystem where
  history : String → List Database
  view : RunView
  abortRef : Option Nat
  streams : List RunStream
  requests : List PendingCall
  latest : Nat
  requested : Requested

/-- The runs that are stored before the editor is opened. -/
structure StoredRuns where
  database : String → Option Database
  ids_increase : ∀ runId db, database runId = some db → IdsIncrease db.logs

namespace RunSystem

/-- The controller when the editor is opened. -/
def initial (stored : StoredRuns) : RunSystem where
  history := fun runId => (stored.database runId).toList
  view := .empty
  abortRef := none
  streams := []
  requests := []
  latest := 0
  requested := .nothing

/-! ## The browser -/

/-- {lit}`stop`: cancel the stream that was opened last. -/
def stop (s : RunSystem) : RunSystem :=
  { s with
    streams :=
      match s.abortRef with
      | none => s.streams
      | some i => s.streams.modify i RunStream.close
    abortRef := none }

/-- {lit}`attach`. -/
def attach (s : RunSystem) (runId : String) (action : Nat) : RunSystem :=
  { s with
    abortRef := some s.streams.length
    streams := s.streams ++ [⟨runId, action, .initial, 0, false⟩] }

/-- The request of {lit}`finalize`. -/
def finalize (s : RunSystem) (runId : String) (action : Nat) : RunSystem :=
  { s with requests := s.requests ++ [⟨action, .finalize runId .asked⟩] }

/-- The next action of the user. -/
def act (s : RunSystem) (requested : Requested) : RunSystem :=
  { s.stop with latest := s.latest + 1, requested := requested }

/-- {lit}`trigger`, up to its request. -/
def trigger (s : RunSystem) : RunSystem :=
  { s.act .newRun with
    view := { RunView.empty with status := some .queued, running := true }
    requests := s.requests ++ [⟨s.latest + 1, .trigger .asked⟩] }

/-- {lit}`showRun`, up to its request. -/
def showRun (s : RunSystem) (runId : String) : RunSystem :=
  { s.act (.run runId) with
    requests := s.requests ++ [⟨s.latest + 1, .showRun runId .asked⟩] }

/-- {lit}`clear`. -/
def clear (s : RunSystem) : RunSystem :=
  { s.act .nothing with view := .empty }

/-- What the latest action asked for, once the response to an action says more. -/
def learn (s : RunSystem) (action : Nat) (requested : Requested) : Requested :=
  if action = s.latest then requested else s.requested

/-- The continuation of a call; {lean}`none` while the server has not responded. -/
def respond (s : RunSystem) (action : Nat) : Call → Option RunSystem
  | .trigger (.answered runId status) =>
      some (attach
        { s with
          view := { s.view with runId := some runId, status := some status }
          requested := s.learn action (.run runId) } runId action)
  | .trigger (.failed message) =>
      some
        { s with
          view :=
            { RunView.empty with status := some .failed, errors := [triggerError message] }
          requested := s.learn action (.failedTrigger message) }
  | .showRun runId (.answered detail) =>
      let shown := { s with view := .ofDetail runId detail }
      some (if detail.run.status.terminal then shown else shown.attach runId action)
  | .showRun _ .failed => some s
  | .finalize runId (.answered detail) =>
      some { s with view := s.view.finalized runId detail }
  | .finalize _ .failed => some { s with view := { s.view with running := false } }
  | _ => none

/-- The handler of an event. -/
def onEvent (s : RunSystem) (runId : String) (action : Nat) : Frame → RunSystem
  | .log row => { s with view := s.view.appendLog row }
  | .status status => { s with view := { s.view with status := some status } }
  | .done _ _ => s.stop.finalize runId action
  | .timeout _ => s.stop.finalize runId action

/-! ## The server -/

/-- The current state of a run. -/
def current (s : RunSystem) (runId : String) : Option Database :=
  (s.history runId).head?

/-- A run that has just been created. -/
def createdRun (ownerId : String) (pipelineSpec : Option Fields) : Database where
  run := some ⟨ownerId, .queued, 0, none⟩
  pipelineSpec := pipelineSpec
  logs := []
  errors := []

/-- One step of the server for a call: a read for a detail, or the response of
{lit}`trigger_run` for the run that it has created. -/
def serve (s : RunSystem) : Call → Option Call
  | .trigger (.created runId) => do
      let db ← s.current runId
      let status ← db.status
      some (.trigger (.answered runId status))
  | .showRun runId reply => do
      let db ← s.current runId
      let reply ← reply.read db
      some (.showRun runId reply)
  | .finalize runId reply => do
      let db ← s.current runId
      let reply ← reply.read db
      some (.finalize runId reply)
  | _ => none

/-- A new state of a run. -/
def record (s : RunSystem) (runId : String) (db : Database) : RunSystem :=
  { s with history := Function.update s.history runId (db :: s.history runId) }

/-! ## The steps -/

/-- Everything that can happen next: an action of the user, a write of a worker, a step of
the server for the request or the stream at a position, or an arrival in the browser. -/
inductive Action where
  | trigger
  | showRun (runId : String)
  | clear
  | store (runId : String) (db : Database)
  | create (i : Nat) (runId ownerId : String) (pipelineSpec : Option Fields)
  | serve (i : Nat)
  | fail (i : Nat) (message : String)
  | deliver (i : Nat)
  | poll (i : Nat) (action : ClientAction)
  | frame (i : Nat)
  | streamError (i : Nat)

/-- One step of the system. -/
def next (s : RunSystem) : Action → Option RunSystem
  | .trigger => some s.trigger
  | .showRun runId => some (s.showRun runId)
  | .clear => some s.clear
  | .store runId db =>
      match s.current runId with
      | none => none
      | some before =>
          if before.logs <+: db.logs ∧ IdsIncrease db.logs then some (s.record runId db) else none
  | .create i runId ownerId pipelineSpec =>
      match s.requests[i]? with
      | some ⟨action, .trigger .asked⟩ =>
          if s.history runId = [] then
            some
              { s.record runId (createdRun ownerId pipelineSpec) with
                requests := s.requests.set i ⟨action, .trigger (.created runId)⟩ }
          else none
      | _ => none
  | .serve i => do
      let request ← s.requests[i]?
      let call ← s.serve request.call
      some { s with requests := s.requests.set i { request with call := call } }
  | .fail i message => do
      let request ← s.requests[i]?
      some
        { s with
          requests := s.requests.set i { request with call := request.call.fail message } }
  | .deliver i => do
      let request ← s.requests[i]?
      respond { s with requests := s.requests.eraseIdx i } request.action request.call
  | .poll i action => do
      let stream ← s.streams[i]?
      let db ← s.current stream.runId
      let server ← stream.server.step db action
      some { s with streams := s.streams.set i { stream with server := server } }
  | .frame i => do
      let stream ← s.streams[i]?
      let frame ← stream.server.received[stream.delivered]?
      if stream.closed then none
      else
        some (onEvent
          { s with streams := s.streams.set i { stream with delivered := stream.delivered + 1 } }
          stream.runId stream.action frame)
  | .streamError i => do
      let stream ← s.streams[i]?
      if stream.closed then none
      else
        some ((stop { s with streams := s.streams.set i stream.close }).finalize stream.runId
          stream.action)

end RunSystem

end EtlTool
