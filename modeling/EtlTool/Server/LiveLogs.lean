import EtlTool.Server.RunClaims

/-!
# Live logs

While a worker executes a run, a client reads its log lines over a stream of events.
The stream polls the database: it reads the status, then the rows behind the last row
that it has sent, and ends with the first status that is final.

Main results:

- Theorem {lit}`Stream.Inv.next`: the rows that were sent are the first stored ones,
  and all of them once {lit}`done` has been sent.
- Theorem {lit}`Client.Inv.drains`: from every state a poll of its own brings the client
  up to date.
- Theorem {lit}`live_logs_delivered`: the events of the engine are stored in order
  and sent exactly once, before the only {lit}`done`.

Current gaps:

- The rendering of the rows as text.
-/

namespace EtlTool

/-! ## The client -/

/-- One event of the stream. -/
inductive Frame where
  | log (row : RunLog)
  | status (status : RunState)
  | done (status : RunState) (errors : List NodeError)
  | timeout (status : RunState)
deriving DecidableEq

/-- The row of a log event. -/
def Frame.row? : Frame → Option RunLog
  | log row => some row
  | _ => none

/-- The event that ends a complete stream. -/
def Frame.isDone : Frame → Bool
  | done _ _ => true
  | _ => false

/-- The rows among the events of a stream. -/
def logRows (frames : List Frame) : List RunLog :=
  frames.filterMap Frame.row?

/-- Where the stream stands. -/
inductive ClientPhase where
  /-- About to read the run. -/
  | polling
  | sawRun (status : RunState)
  | sawLogs (status : RunState) (rows : List RunLog)
  /-- Events are sent; the stream ends after them or sleeps until the next poll. -/
  | sending (frames : List Frame) (closing : Bool)
  | closed
deriving DecidableEq

/-- {lit}`event_stream`, with the events that the client has received. -/
structure Client where
  lastLogId : Nat
  lastStatus : Option RunState
  polls : Nat
  phase : ClientPhase
  received : List Frame
deriving DecidableEq

/-- The next step of the stream. -/
inductive ClientAction where
  | disconnect
  | readRun
  | readLogs
  | readErrors
  | send
deriving DecidableEq

/-- {lit}`_SSE_MAX_POLLS`. -/
def sseMaxPolls : Nat := 4 * 60 * 15

namespace Client

/-- A client that has just connected. -/
def initial : Client where
  lastLogId := 0
  lastStatus := none
  polls := 0
  phase := .polling
  received := []

/-- The events that end a poll: {lit}`done` when the errors of a final status have
been read, {lit}`timeout` after the last poll. -/
def finalFrames (c : Client) (status : RunState) : Option (List NodeError) → List Frame
  | some errors => [.done status errors]
  | none => if sseMaxPolls ≤ c.polls + 1 then [.timeout status] else []

/-- What a poll sends, and what it leaves in the variables of the stream. -/
def respond (c : Client) (status : RunState) (rows : List RunLog)
    (errors : Option (List NodeError)) : Client where
  lastLogId := rows.foldl (fun _ row => row.id) c.lastLogId
  lastStatus := some status
  polls := if errors.isSome then c.polls else c.polls + 1
  phase := .sending
    (rows.map Frame.log ++ (if c.lastStatus = some status then [] else [.status status]) ++
      c.finalFrames status errors)
    (!(c.finalFrames status errors).isEmpty)
  received := c.received

/-- The rows behind a row, in the order of their ids. -/
def rowsBehind (logs : List RunLog) (lastLogId : Nat) : List RunLog :=
  (logs.filter fun row => lastLogId < row.id).mergeSort fun a b => a.id ≤ b.id

/-- One step of the stream. -/
def step (db : Database) (c : Client) : ClientAction → Option Client
  | .disconnect =>
      match c.phase with
      | .polling => some { c with phase := .closed }
      | _ => none
  | .readRun =>
      match c.phase with
      | .polling =>
          match db.status with
          | none => some { c with phase := .closed }
          | some status => some { c with phase := .sawRun status }
      | _ => none
  | .readLogs =>
      match c.phase with
      | .sawRun status =>
          let rows := rowsBehind db.logs c.lastLogId
          if status.terminal then some { c with phase := .sawLogs status rows }
          else some (c.respond status rows none)
      | _ => none
  | .readErrors =>
      match c.phase with
      | .sawLogs status rows => some (c.respond status rows (some db.errors))
      | _ => none
  | .send =>
      match c.phase with
      | .sending (frame :: rest) closing =>
          some { c with phase := .sending rest closing, received := c.received ++ [frame] }
      | .sending [] true => some { c with phase := .closed }
      | .sending [] false => some { c with phase := .polling }
      | _ => none

/-! ## What one step can do -/

/-- Everything that one step can do. -/
inductive Step (db : Database) (c : Client) : Client → Prop where
  | close (hphase : c.phase = .polling) : Step db c { c with phase := .closed }
  | readRun (status : RunState) (hphase : c.phase = .polling) (hstatus : db.status = some status) :
      Step db c { c with phase := .sawRun status }
  | readFinalLogs (status : RunState) (hphase : c.phase = .sawRun status)
      (hterminal : status.terminal = true) :
      Step db c { c with phase := .sawLogs status (rowsBehind db.logs c.lastLogId) }
  | readLogs (status : RunState) (hphase : c.phase = .sawRun status)
      (hterminal : status.terminal = false) :
      Step db c (c.respond status (rowsBehind db.logs c.lastLogId) none)
  | readErrors (status : RunState) (rows : List RunLog) (hphase : c.phase = .sawLogs status rows) :
      Step db c (c.respond status rows (some db.errors))
  | send (frame : Frame) (rest : List Frame) (closing : Bool)
      (hphase : c.phase = .sending (frame :: rest) closing) :
      Step db c { c with phase := .sending rest closing, received := c.received ++ [frame] }
  | finish (hphase : c.phase = .sending [] true) : Step db c { c with phase := .closed }
  | sleep (hphase : c.phase = .sending [] false) : Step db c { c with phase := .polling }

/-- Every move of the client is one of the cases of {lit}`Step`. -/
theorem step_spec {db : Database} {c c' : Client} {a : ClientAction}
    (h : c.step db a = some c') : Step db c c' := by
  cases a with
  | disconnect =>
      simp only [step] at h
      split at h
      · rename_i hphase
        cases h
        exact .close hphase
      · cases h
  | readRun =>
      simp only [step] at h
      split at h
      · rename_i hphase
        split at h
        · cases h
          exact .close hphase
        · rename_i status hstatus
          cases h
          exact .readRun status hphase hstatus
      · cases h
  | readLogs =>
      simp only [step] at h
      split at h
      · rename_i status hphase
        by_cases hterminal : status.terminal = true
        · rw [if_pos hterminal] at h
          cases h
          exact .readFinalLogs status hphase hterminal
        · rw [if_neg hterminal] at h
          cases h
          exact .readLogs status hphase (by simpa using hterminal)
      · cases h
  | readErrors =>
      simp only [step] at h
      split at h
      · rename_i status rows hphase
        cases h
        exact .readErrors status rows hphase
      · cases h
  | send =>
      simp only [step] at h
      split at h
      · rename_i frame rest closing hphase
        cases h
        exact .send frame rest closing hphase
      · rename_i hphase
        cases h
        exact .finish hphase
      · rename_i hphase
        cases h
        exact .sleep hphase
      · cases h

/-! ## The rows behind a row -/

/-- The id of the last row, or zero. -/
def lastRowId (rows : List RunLog) : Nat :=
  rows.foldl (fun _ row => row.id) 0

/-- The cursor after more rows goes on from the cursor before them. -/
theorem lastRowId_append (seen rows : List RunLog) :
    lastRowId (seen ++ rows) = rows.foldl (fun _ row => row.id) (lastRowId seen) :=
  List.foldl_append

private theorem lastRowId_mem (rows : List RunLog) : lastRowId rows ∈ 0 :: rows.map RunLog.id := by
  induction rows using List.reverseRecOn with
  | nil => exact List.mem_cons_self
  | append_singleton rows row _ =>
      rw [lastRowId_append]
      simp

private theorem le_lastRowId {rows : List RunLog} (h : IdsIncrease rows) :
    ∀ row ∈ rows, row.id ≤ lastRowId rows := by
  induction rows using List.reverseRecOn with
  | nil => simp
  | append_singleton rows last _ =>
      have hlast : lastRowId (rows ++ [last]) = last.id := lastRowId_append rows [last]
      have hpairwise : (0 :: rows.map RunLog.id ++ [last.id]).Pairwise (· < ·) := by
        simpa [IdsIncrease] using h
      rw [List.pairwise_append] at hpairwise
      intro row hrow
      rw [hlast]
      rw [List.mem_append, List.mem_singleton] at hrow
      rcases hrow with hmem | rfl
      · have hid : row.id ∈ 0 :: rows.map RunLog.id :=
          List.mem_cons_of_mem _ (List.mem_map_of_mem hmem)
        exact Nat.le_of_lt (hpairwise.2.2 row.id hid last.id (List.mem_singleton_self _))
      · exact Nat.le_refl _

/-- Behind the last row of an initial segment is the rest. -/
theorem rowsBehind_lastRowId {seen rest : List RunLog} (h : IdsIncrease (seen ++ rest)) :
    rowsBehind (seen ++ rest) (lastRowId seen) = rest := by
  have hpairwise : (0 :: seen.map RunLog.id ++ rest.map RunLog.id).Pairwise (· < ·) := by
    simpa [IdsIncrease] using h
  rw [List.pairwise_append] at hpairwise
  rcases hpairwise with ⟨hseen, hrest, hcross⟩
  have hbefore : seen.filter (fun row => decide (lastRowId seen < row.id)) = [] := by
    rw [List.filter_eq_nil_iff]
    intro row hrow
    have hle := le_lastRowId hseen row hrow
    simpa using hle
  have hbehind : rest.filter (fun row => decide (lastRowId seen < row.id)) = rest := by
    rw [List.filter_eq_self]
    intro row hrow
    have hlt := hcross _ (lastRowId_mem seen) row.id (List.mem_map_of_mem hrow)
    simpa using hlt
  unfold rowsBehind
  rw [List.filter_append, hbefore, hbehind, List.nil_append]
  apply List.mergeSort_of_pairwise
  rw [List.pairwise_map] at hrest
  refine hrest.imp fun hlt => ?_
  simpa using Nat.le_of_lt hlt

/-! ## What the client has been sent -/

/-- The log rows of two sequences of frames, one after the other. -/
@[simp]
theorem logRows_append (first second : List Frame) :
    logRows (first ++ second) = logRows first ++ logRows second :=
  List.filterMap_append

/-- Log frames carry exactly their rows. -/
@[simp]
theorem logRows_map_log (rows : List RunLog) : logRows (rows.map Frame.log) = rows := by
  induction rows with
  | nil => rfl
  | cons row rest ih => exact congrArg (row :: ·) ih

/-- The events of a phase that are still to be sent. -/
def pending : ClientPhase → List Frame
  | .sending frames _ => frames
  | _ => []

/-- The events that the client has received, and those on their way. -/
def frames (c : Client) : List Frame :=
  c.received ++ pending c.phase

/-- No {lit}`done` has been sent. -/
def Open (c : Client) : Prop :=
  ∀ frame ∈ c.frames, frame.isDone = false

/-- The last event is the only {lit}`done`, and the rows before it are all rows of a
finished run. -/
def Settled (db : Database) (c : Client) : Prop :=
  ∃ sent status errors, c.frames = sent ++ [.done status errors] ∧
    (∀ frame ∈ sent, frame.isDone = false) ∧ status.terminal = true ∧
    db.status = some status ∧ logRows sent = db.logs

/-- What each phase knows. -/
def Reads (db : Database) (c : Client) : ClientPhase → Prop
  | .polling => c.Open
  | .sawRun status => c.Open ∧ (status.terminal = true → db.status = some status)
  | .sawLogs status rows => c.Open ∧ status.terminal = true ∧ db.status = some status ∧
      logRows c.frames ++ rows = db.logs
  | .sending _ false => c.Open
  | .sending _ true => c.Open ∧ sseMaxPolls ≤ c.polls ∨ c.Settled db
  | .closed => c.Open ∨ c.Settled db

/-- The rows that were sent are the first stored ones. -/
structure Inv (db : Database) (c : Client) : Prop where
  cursor : c.lastLogId = lastRowId (logRows c.frames)
  sent : logRows c.frames <+: db.logs
  reads : c.Reads db c.phase

/-- The invariant holds when the client opens the stream. -/
theorem Inv.initial (db : Database) : Inv db Client.initial where
  cursor := rfl
  sent := List.nil_prefix
  reads := nofun

variable {db : Database} {c c' : Client}

/-- What a poll sends. -/
theorem frames_respond (c : Client) (status : RunState) (rows : List RunLog)
    (errors : Option (List NodeError)) :
    (c.respond status rows errors).frames = c.received ++ (rows.map Frame.log ++
      (if c.lastStatus = some status then [] else [.status status]) ++
        c.finalFrames status errors) :=
  rfl

private theorem logRows_finalFrames (c : Client) (status : RunState)
    (errors : Option (List NodeError)) :
    logRows (c.finalFrames status errors) = [] := by
  cases errors with
  | some errors => rfl
  | none =>
      simp only [finalFrames]
      split <;> rfl

/-- A poll sends the rows that it has read. -/
theorem logRows_respond (c : Client) (status : RunState) (rows : List RunLog)
    (errors : Option (List NodeError)) :
    logRows (c.respond status rows errors).frames = logRows c.received ++ rows := by
  have hstatus : logRows (if c.lastStatus = some status then [] else [.status status]) = [] := by
    split <;> rfl
  rw [frames_respond]
  simp only [logRows_append, logRows_map_log, logRows_finalFrames, hstatus, List.append_nil]

/-- The rows behind the cursor continue what has been sent. -/
theorem Inv.rowsBehind (h : Inv db c) (hids : IdsIncrease db.logs) :
    logRows c.frames ++ Client.rowsBehind db.logs c.lastLogId = db.logs := by
  rcases h.sent with ⟨rest, hrest⟩
  rw [← hrest] at hids
  rw [h.cursor, ← hrest, rowsBehind_lastRowId hids]

/-- A reply without an ending keeps the client open. -/
theorem Open.respond (h : c.Open) (hpending : pending c.phase = []) (status : RunState)
    (rows : List RunLog) : (c.respond status rows none).Open := by
  intro frame hframe
  simp only [frames_respond, finalFrames, List.mem_append, List.mem_map] at hframe
  rcases hframe with hold | (⟨row, _, rfl⟩ | hstatus) | hfinal
  · exact h frame (by simpa [frames, hpending] using hold)
  · rfl
  · split at hstatus
    · cases hstatus
    · rw [List.mem_singleton.mp hstatus]
      rfl
  · split at hfinal
    · rw [List.mem_singleton.mp hfinal]
      rfl
    · cases hfinal

/-- A poll that has read a final status settles the stream. -/
theorem Open.settled (h : c.Open) (hpending : pending c.phase = []) {status : RunState}
    (hterminal : status.terminal = true) (hstatus : db.status = some status)
    {rows : List RunLog} (hrows : logRows c.frames ++ rows = db.logs) :
    (c.respond status rows (some db.errors)).Settled db := by
  have hframes : c.frames = c.received := by simp [frames, hpending]
  refine ⟨c.received ++ (rows.map Frame.log ++
    (if c.lastStatus = some status then [] else [.status status])), status, db.errors, ?_, ?_,
    hterminal, hstatus, ?_⟩
  · simp [frames_respond, finalFrames]
  · intro frame hframe
    rw [List.mem_append, List.mem_append, List.mem_map] at hframe
    rcases hframe with hold | ⟨row, _, rfl⟩ | hnew
    · exact h frame (by rwa [hframes])
    · rfl
    · split at hnew
      · cases hnew
      · rw [List.mem_singleton.mp hnew]
        rfl
  · have hnone : logRows (if c.lastStatus = some status then [] else [.status status]) = [] := by
      split <;> rfl
    rw [hframes] at hrows
    simpa [hnone] using hrows

/-- Being open depends on the frames only. -/
theorem Open.congr (h : c.Open) (hframes : c'.frames = c.frames) : c'.Open := by
  intro frame hframe
  rw [hframes] at hframe
  exact h frame hframe

/-- Being settled depends on the frames only. -/
theorem Settled.congr (h : c.Settled db) (hframes : c'.frames = c.frames) : c'.Settled db := by
  unfold Settled
  rw [hframes]
  exact h

/-- A step that sends nothing new has to keep what its phase knows. -/
theorem Inv.congr (h : Inv db c) (hframes : c'.frames = c.frames)
    (hcursor : c'.lastLogId = c.lastLogId) (hreads : c'.Reads db c'.phase) : Inv db c' where
  cursor := by rw [hcursor, hframes, h.cursor]
  sent := by rw [hframes]; exact h.sent
  reads := hreads

/-- So has a poll that sends all rows behind the cursor. -/
theorem Inv.respond (h : Inv db c) (hpending : pending c.phase = []) {rows : List RunLog}
    (hrows : logRows c.frames ++ rows = db.logs) {status : RunState}
    {errors : Option (List NodeError)}
    (hreads : (c.respond status rows errors).Reads db (c.respond status rows errors).phase) :
    Inv db (c.respond status rows errors) := by
  have hframes : c.frames = c.received := by simp [frames, hpending]
  have hsent : logRows (c.respond status rows errors).frames = logRows c.frames ++ rows := by
    rw [logRows_respond, hframes]
  refine ⟨?_, ?_, hreads⟩
  · rw [hsent, lastRowId_append, ← h.cursor]
    rfl
  · rw [hsent, hrows]

/-- Every step of the stream keeps the invariant. -/
theorem Inv.step (h : Inv db c) (hids : IdsIncrease db.logs) (hstep : Step db c c') :
    Inv db c' := by
  have hreads := h.reads
  have hbehind := h.rowsBehind hids
  cases hstep with
  | close hphase =>
      rw [hphase] at hreads
      have hframes : Client.frames { c with phase := .closed } = c.frames := by
        simp [frames, hphase, pending]
      exact h.congr hframes rfl (Or.inl (Open.congr hreads hframes))
  | readRun status hphase hstatus =>
      rw [hphase] at hreads
      have hframes : Client.frames { c with phase := .sawRun status } = c.frames := by
        simp [frames, hphase, pending]
      exact h.congr hframes rfl ⟨Open.congr hreads hframes, fun _ => hstatus⟩
  | readFinalLogs status hphase hterminal =>
      rw [hphase] at hreads
      have hframes : Client.frames { c with
          phase := .sawLogs status (Client.rowsBehind db.logs c.lastLogId) } = c.frames := by
        simp [frames, hphase, pending]
      refine h.congr hframes rfl ⟨Open.congr hreads.1 hframes, hterminal, hreads.2 hterminal, ?_⟩
      rw [hframes]
      exact hbehind
  | readLogs status hphase hterminal =>
      rw [hphase] at hreads
      have hopen := hreads.1.respond (by simp [hphase, pending]) status
        (Client.rowsBehind db.logs c.lastLogId)
      refine h.respond (by simp [hphase, pending]) hbehind ?_
      by_cases hlast : sseMaxPolls ≤ c.polls + 1
      · have hclosing : (!(c.finalFrames status none).isEmpty) = true := by
          simp [finalFrames, hlast]
        simp only [Client.respond, hclosing]
        exact Or.inl ⟨hopen, hlast⟩
      · have hclosing : (!(c.finalFrames status none).isEmpty) = false := by
          simp [finalFrames, hlast]
        simp only [Client.respond, hclosing]
        exact hopen
  | readErrors status rows hphase =>
      rw [hphase] at hreads
      rcases hreads with ⟨hopen, hterminal, hstatus, hall⟩
      have hpending : pending c.phase = [] := by simp [hphase, pending]
      exact h.respond hpending hall (Or.inr (hopen.settled hpending hterminal hstatus hall))
  | send frame rest closing hphase =>
      rw [hphase] at hreads
      have hframes : Client.frames { c with
          phase := .sending rest closing, received := c.received ++ [frame] } = c.frames := by
        simp [frames, hphase, pending]
      refine h.congr hframes rfl ?_
      cases closing with
      | false => exact Open.congr hreads hframes
      | true => exact hreads.imp (fun h => ⟨h.1.congr hframes, h.2⟩) (Settled.congr · hframes)
  | finish hphase =>
      rw [hphase] at hreads
      have hframes : Client.frames { c with phase := .closed } = c.frames := by
        simp [frames, hphase, pending]
      exact h.congr hframes rfl (hreads.imp (fun h => h.1.congr hframes) (Settled.congr · hframes))
  | sleep hphase =>
      rw [hphase] at hreads
      have hframes : Client.frames { c with phase := .polling } = c.frames := by
        simp [frames, hphase, pending]
      exact h.congr hframes rfl (Open.congr hreads hframes)

/-- Once {lit}`done` has been sent, the stream is settled. -/
theorem Inv.settled (h : Inv db c) (hdone : ¬ c.Open) : c.Settled db := by
  have hreads := h.reads
  cases hphase : c.phase with
  | polling =>
      rw [hphase] at hreads
      exact absurd hreads hdone
  | sawRun _ =>
      rw [hphase] at hreads
      exact absurd hreads.1 hdone
  | sawLogs _ _ =>
      rw [hphase] at hreads
      exact absurd hreads.1 hdone
  | sending frames closing =>
      rw [hphase] at hreads
      cases closing with
      | false => exact absurd hreads hdone
      | true => exact hreads.resolve_left fun hopen => hdone hopen.1
  | closed =>
      rw [hphase] at hreads
      exact hreads.resolve_left hdone

/-- The database as a stream may find it later: rows are added, but none to a run
whose status is final. -/
structure Grows (db db' : Database) : Prop where
  logs : db.logs <+: db'.logs
  final : ∀ status, db.status = some status → status.terminal = true →
    db'.status = some status ∧ db'.logs = db.logs

/-- A settled client stays settled while the database grows. -/
theorem Settled.grow {db' : Database} (h : c.Settled db) (hgrows : Grows db db') :
    c.Settled db' := by
  rcases h with ⟨sent, status, errors, hframes, honly, hterminal, hstatus, hrows⟩
  rcases hgrows.final status hstatus hterminal with ⟨hstatus', hlogs⟩
  exact ⟨sent, status, errors, hframes, honly, hterminal, hstatus', by rw [hrows, hlogs]⟩

/-- What the client knows stays true while the database grows. -/
theorem Inv.grow {db' : Database} (h : Inv db c) (hgrows : Grows db db') : Inv db' c := by
  refine ⟨h.cursor, h.sent.trans hgrows.logs, ?_⟩
  have hreads := h.reads
  cases hphase : c.phase with
  | polling =>
      rw [hphase] at hreads
      exact hreads
  | sawRun status =>
      rw [hphase] at hreads
      exact ⟨hreads.1, fun hterminal => (hgrows.final status (hreads.2 hterminal) hterminal).1⟩
  | sawLogs status rows =>
      rw [hphase] at hreads
      rcases hreads with ⟨hopen, hterminal, hstatus, hall⟩
      rcases hgrows.final status hstatus hterminal with ⟨hstatus', hlogs⟩
      exact ⟨hopen, hterminal, hstatus', by rw [hall, hlogs]⟩
  | sending frames closing =>
      rw [hphase] at hreads
      cases closing with
      | false => exact hreads
      | true => exact hreads.imp id (·.grow hgrows)
  | closed =>
      rw [hphase] at hreads
      exact hreads.imp id (·.grow hgrows)

/-! ## Catching up -/

open Interleaving

/-- All stored rows have been received, and {lit}`done` if the run is finished. -/
structure UpToDate (db : Database) (c : Client) : Prop where
  rows : logRows c.received = db.logs
  done : ∀ status, db.status = some status → status.terminal = true →
    ∃ errors, .done status errors ∈ c.received

/-- Events on their way arrive. -/
theorem exec_send (db : Database) (frames : List Frame) (closing : Bool) (c : Client)
    (hphase : c.phase = .sending frames closing) :
    exec (step db) c (List.replicate frames.length .send) =
      some { c with phase := .sending [] closing, received := c.received ++ frames } := by
  induction frames generalizing c with
  | nil => simp [← hphase]
  | cons frame rest ih =>
      rw [List.length_cons, List.replicate_succ, exec_cons_eq_some]
      refine ⟨{ c with phase := .sending rest closing, received := c.received ++ [frame] }, ?_, ?_⟩
      · simp [step, hphase]
      · rw [ih _ rfl]
        simp

/-- A settled stream is up to date when its events have arrived. -/
theorem Settled.upToDate (h : c.Settled db) (hpending : pending c.phase = []) :
    UpToDate db c := by
  rcases h with ⟨sent, status, errors, hframes, _, _, hstatus, hrows⟩
  have hreceived : c.received = sent ++ [.done status errors] := by
    simpa [frames, hpending] using hframes
  refine ⟨?_, ?_⟩
  · rw [hreceived, logRows_append, hrows]
    exact List.append_nil _
  · intro status' hstatus' _
    rw [hstatus, Option.some.injEq] at hstatus'
    rw [← hstatus', hreceived]
    exact ⟨errors, by simp⟩

/-- A response brings the client up to date, if it says {lit}`done` for a final
status. -/
theorem respond_upToDate (hpending : pending c.phase = [])
    {rows : List RunLog} (hrows : logRows c.frames ++ rows = db.logs) {status : RunState}
    (hstatus : db.status = some status) (errors : Option (List NodeError))
    (herrors : status.terminal = true → ∃ list, errors = some list) :
    ∃ actions c', exec (step db) (c.respond status rows errors) actions = some c' ∧
      UpToDate db c' := by
  have hframes : c.frames = c.received := by simp [frames, hpending]
  have hsend := exec_send db _ _ (c.respond status rows errors) rfl
  refine ⟨_, _, hsend, ?_, ?_⟩
  · change logRows (c.respond status rows errors).frames = db.logs
    rw [logRows_respond, ← hframes, hrows]
  · intro status' hstatus' hterminal
    rw [hstatus, Option.some.injEq] at hstatus'
    subst hstatus'
    rcases herrors hterminal with ⟨list, rfl⟩
    exact ⟨list, by simp [finalFrames]⟩

/-- A poll brings the client up to date. -/
theorem poll_upToDate (h : Inv db c) (hids : IdsIncrease db.logs) (hphase : c.phase = .polling)
    {status : RunState} (hstatus : db.status = some status) :
    ∃ actions c', exec (step db) c actions = some c' ∧ UpToDate db c' := by
  have hread : step db c .readRun = some { c with phase := .sawRun status } := by
    simp [step, hphase, hstatus]
  have hsaw := h.step hids (step_spec hread)
  have hbehind := hsaw.rowsBehind hids
  by_cases hterminal : status.terminal = true
  · have hlogs : step db { c with phase := .sawRun status } .readLogs = some { c with
        phase := .sawLogs status (Client.rowsBehind db.logs c.lastLogId) } := by
      simp [step, hterminal]
    rcases respond_upToDate rfl hbehind hstatus (some db.errors)
      (fun _ => ⟨_, rfl⟩) with ⟨actions, c', hexec, hdone⟩
    refine ⟨.readRun :: .readLogs :: .readErrors :: actions, c', ?_, hdone⟩
    refine exec_cons_eq_some.mpr ⟨_, hread, exec_cons_eq_some.mpr ⟨_, hlogs, ?_⟩⟩
    exact exec_cons_eq_some.mpr ⟨_, rfl, hexec⟩
  · have hlogs : step db { c with phase := .sawRun status } .readLogs =
        some (Client.respond { c with phase := .sawRun status } status
          (Client.rowsBehind db.logs c.lastLogId) none) := by
      simp [step, hterminal]
    rcases respond_upToDate rfl hbehind hstatus none
      (fun h => absurd h hterminal) with ⟨actions, c', hexec, hdone⟩
    refine ⟨.readRun :: .readLogs :: actions, c', ?_, hdone⟩
    exact exec_cons_eq_some.mpr ⟨_, hread, exec_cons_eq_some.mpr ⟨_, hlogs, hexec⟩⟩

/-- After the events of a poll comes another poll. -/
theorem sending_upToDate (h : Inv db c) (hids : IdsIncrease db.logs) {frames : List Frame}
    (hphase : c.phase = .sending frames false) {status : RunState}
    (hstatus : db.status = some status) :
    ∃ actions c', exec (step db) c actions = some c' ∧ UpToDate db c' := by
  have hsend := exec_send db frames false c hphase
  have hsleep : exec (step db) { c with
      phase := .sending [] false, received := c.received ++ frames } [.send] =
      some { c with phase := .polling, received := c.received ++ frames } :=
    rfl
  have hrun := exec_append hsend hsleep
  have hinv : Inv db { c with phase := .polling, received := c.received ++ frames } :=
    exec_invariant (fun _ _ _ hinv hstep => hinv.step hids (step_spec hstep)) h hrun
  rcases poll_upToDate hinv hids rfl hstatus with ⟨actions, c', hexec, hdone⟩
  exact ⟨_, c', exec_append hrun hexec, hdone⟩

/-- From every state that is not at its last poll, steps of its own bring the client
up to date. -/
theorem Inv.drains (h : Inv db c) (hids : IdsIncrease db.logs) {status : RunState}
    (hstatus : db.status = some status) (hopen : c.phase ≠ .closed)
    (hpolls : c.polls + 1 < sseMaxPolls) :
    ∃ actions c', exec (Client.step db) c actions = some c' ∧ UpToDate db c' := by
  have hreads := h.reads
  have hbehind := h.rowsBehind hids
  cases hphase : c.phase with
  | polling => exact poll_upToDate h hids hphase hstatus
  | sawRun seen =>
      rw [hphase] at hreads
      have hpending : pending c.phase = [] := by simp [hphase, pending]
      by_cases hterminal : seen.terminal = true
      · have hlogs : Client.step db c .readLogs = some { c with
            phase := .sawLogs seen (Client.rowsBehind db.logs c.lastLogId) } := by
          simp [Client.step, hphase, hterminal]
        have herrors : Client.step db { c with
            phase := .sawLogs seen (Client.rowsBehind db.logs c.lastLogId) } .readErrors =
            some (c.respond seen (Client.rowsBehind db.logs c.lastLogId) (some db.errors)) :=
          rfl
        rcases respond_upToDate hpending hbehind (hreads.2 hterminal) _ (fun _ => ⟨db.errors, rfl⟩)
          with ⟨actions, c', hexec, hdone⟩
        refine ⟨.readLogs :: .readErrors :: actions, c', ?_, hdone⟩
        exact exec_cons_eq_some.mpr ⟨_, hlogs, exec_cons_eq_some.mpr ⟨_, herrors, hexec⟩⟩
      · have hlogs : Client.step db c .readLogs =
            some (c.respond seen (Client.rowsBehind db.logs c.lastLogId) none) := by
          simp [Client.step, hphase, hterminal]
        have hclosing : (!(c.finalFrames seen none).isEmpty) = false := by
          simp [finalFrames, Nat.not_le.mpr hpolls]
        have hsending : (c.respond seen (Client.rowsBehind db.logs c.lastLogId) none).phase =
            .sending _ false :=
          congrArg (ClientPhase.sending _) hclosing
        have hsent := h.step hids (step_spec hlogs)
        rcases sending_upToDate hsent hids hsending hstatus with ⟨actions, c', hexec, hdone⟩
        exact ⟨.readLogs :: actions, c', exec_cons_eq_some.mpr ⟨_, hlogs, hexec⟩, hdone⟩
  | sawLogs seen rows =>
      rw [hphase] at hreads
      rcases hreads with ⟨_, _, hseen, hall⟩
      have hpending : pending c.phase = [] := by simp [hphase, pending]
      have herrors : Client.step db c .readErrors = some (c.respond seen rows (some db.errors)) := by
        simp [Client.step, hphase]
      rcases respond_upToDate hpending hall hseen _ (fun _ => ⟨db.errors, rfl⟩) with
        ⟨actions, c', hexec, hdone⟩
      exact ⟨.readErrors :: actions, c', exec_cons_eq_some.mpr ⟨_, herrors, hexec⟩, hdone⟩
  | sending frames closing =>
      cases closing with
      | false => exact sending_upToDate h hids hphase hstatus
      | true =>
          rw [hphase] at hreads
          rcases hreads with ⟨_, hlast⟩ | hsettled
          · omega
          · have hsend := exec_send db frames true c hphase
            have hframes : Client.frames { c with
                phase := .sending [] true, received := c.received ++ frames } = c.frames := by
              simp [Client.frames, hphase, pending]
            exact ⟨_, _, hsend, (hsettled.congr hframes).upToDate rfl⟩
  | closed => exact absurd hphase hopen

end Client

/-! ## The call and its rows -/

/-- What a phase of the call knows about the stored rows, given the events that the
engine has logged. -/
def Phase.Recording (rt : Runtime) (logs : List RunLog) (emitted : List LogEvent) : Phase → Prop
  | flying _ flight => emitted = flight.buffer ∧ ∃ events,
      Flight.Inv rt events [] logs flight ∧ Flight.storable rt events = true
  | landed _ => Flight.Records logs emitted
  | finishing _ _ => Flight.Records logs emitted
  | returned => Flight.Records logs emitted
  | raised _ => Flight.Records logs emitted
  | _ => logs = [] ∧ emitted = []

/-- The events that the engine has logged when a phase is reached. -/
def Phase.emitted (before : List LogEvent) : Phase → List LogEvent
  | flying _ flight => flight.buffer
  | _ => before

private theorem records_nil {logs : List RunLog} {emitted : List LogEvent}
    (h : logs = [] ∧ emitted = []) : Flight.Records logs emitted := by
  rcases h with ⟨rfl, rfl⟩
  exact ⟨rfl, rfl⟩

namespace Worker

variable {d : Deployment} {db db' : Database} {p p' : Phase} {emitted : List LogEvent}

/-- All log data of the engine can be stored. -/
def LogsStorable (d : Deployment) : Prop :=
  ∀ spec secrets options, Flight.storable d.runtime (d.executePipeline spec secrets options).1 = true

private theorem commit_logs {loaded assigned : Run} {errors : List NodeError}
    (h : commit db loaded assigned errors = .ok db') : db'.logs = db.logs := by
  rcases commit_eq_ok.mp h with ⟨stored, _, rfl⟩
  rfl

private theorem finish_logs {loaded : Run} {result : RunResult}
    (h : finish d db loaded result = .ok db') : db'.logs = db.logs := by
  rcases finish_eq_ok.mp h with ⟨json, _, _, _, hcommit⟩
  exact commit_logs hcommit

/-- The rows of a phase that follows record the events that are logged by then. -/
theorem Step.recording (hstorable : LogsStorable d)
    (h : p.Recording d.runtime db.logs emitted) (hstep : Step d db p db' p') :
    p'.Recording d.runtime db'.logs (p'.emitted emitted) := by
  cases hstep with
  | ignored _ => exact records_nil h
  | found run _ _ => exact h
  | looked loaded => exact h
  | rejected loaded _ hcommit =>
      rw [commit_logs hcommit]
      exact records_nil h
  | claimed loaded spec _ hcommit =>
      rw [commit_logs hcommit]
      exact h
  | unclaimed loaded spec exc _ => exact records_nil h
  | unprepared ownerId spec exc _ => exact records_nil h
  | prepared ownerId fields spec provider _ => exact h
  | resolved spec provider =>
      rcases resolve_cases d spec provider with ⟨_, _, heq⟩ | ⟨_, _, heq⟩ |
        ⟨secrets, _, ⟨_, _, heq⟩ | ⟨options, _, heq⟩⟩
      · rw [heq]
        exact h
      · rw [heq]
        exact records_nil h
      · rw [heq]
        exact records_nil h
      · rw [heq]
        have hinitial := Flight.Inv.initial d.runtime (d.executePipeline spec secrets options).1 []
        rw [← h.1] at hinitial
        exact ⟨rfl, _, h.1 ▸ hinitial, hstorable spec secrets options⟩
  | failingGone ref _ => exact records_nil h
  | failingFound ref run _ => exact h
  | failed loaded ref _ hcommit =>
      rw [commit_logs hcommit]
      exact records_nil h
  | unfailed loaded ref exc _ => exact records_nil h
  | flew outcome flight flight' logs hflight =>
      rcases h with ⟨rfl, events, hinv, hevents⟩
      exact ⟨rfl, events, hinv.step hflight, hevents⟩
  | landed outcome flight phase hland =>
      rcases h with ⟨rfl, events, hinv, hevents⟩
      have hall : flight.flusher = .returned → Flight.Records db.logs flight.buffer := by
        intro hreturned
        rcases hinv.all_stored hreturned with ⟨hbuffer, rows, hrows, hrecords, _⟩
        rw [hbuffer, hrows]
        exact hrecords
      rcases land_cases hland with
        ⟨_, ⟨hreturned, result, _, rfl⟩ | ⟨hreturned, exc, _, rfl⟩ | ⟨exc, hraised, rfl⟩⟩
      · exact hall hreturned
      · exact hall hreturned
      · rw [hinv.not_storable hraised] at hevents
        cases hevents
  | finishingGone result _ => exact h
  | finishingFound result run _ => exact h
  | finished loaded result _ hfinish =>
      rw [finish_logs hfinish]
      exact h
  | unfinished loaded result exc _ => exact h

/-- A step adds rows, but none to a run whose status is final. -/
theorem Step.grows (hexpected : ∀ status, p.stage.expected = some status → db.status = some status)
    (h : Step d db p db' p') : Client.Grows db db' := by
  have hsame : Client.Grows db db := ⟨List.prefix_rfl, fun _ hstatus _ => ⟨hstatus, rfl⟩⟩
  have hbusy : ∀ {status}, p.stage.expected = some status → status.terminal = false →
      db.logs <+: db'.logs → Client.Grows db db' := by
    intro status hstage hopen hlogs
    refine ⟨hlogs, fun status' hstatus' hterminal => ?_⟩
    rw [hexpected status hstage, Option.some.injEq] at hstatus'
    rw [hstatus'] at hopen
    rw [hopen] at hterminal
    cases hterminal
  have hkept : db'.logs = db.logs → db.logs <+: db'.logs := by
    intro heq
    rw [heq]
  cases h with
  | rejected loaded _ hcommit => exact hbusy rfl rfl (hkept (commit_logs hcommit))
  | claimed loaded spec _ hcommit => exact hbusy rfl rfl (hkept (commit_logs hcommit))
  | failed loaded ref _ hcommit => exact hbusy rfl rfl (hkept (commit_logs hcommit))
  | finished loaded result _ hfinish => exact hbusy rfl rfl (hkept (finish_logs hfinish))
  | flew outcome flight flight' logs hflight =>
      refine hbusy rfl rfl ?_
      cases hflight with
      | commit ids first batch _ _ _ _ => exact List.prefix_append _ _
      | _ => exact List.prefix_rfl
  | _ => exact hsame

/-- Ids of rows keep increasing. -/
theorem Step.idsIncrease (hids : IdsIncrease db.logs) (h : Step d db p db' p') :
    IdsIncrease db'.logs := by
  cases h with
  | rejected loaded _ hcommit => rwa [commit_logs hcommit]
  | claimed loaded spec _ hcommit => rwa [commit_logs hcommit]
  | failed loaded ref _ hcommit => rwa [commit_logs hcommit]
  | finished loaded result _ hfinish => rwa [finish_logs hfinish]
  | flew outcome flight flight' logs hflight =>
      cases hflight with
      | commit ids first batch _ _ _ hnew => exact hnew
      | _ => exact hids
  | _ => exact hids

end Worker

/-- The only call of a run finds the status that it relies on. -/
theorem Lifecycle.expected {status status' : Option RunState} {stage stage' : Stage}
    (h : Lifecycle status stage status' stage')
    (hexpected : ∀ st, stage.expected = some st → status = some st) :
    ∀ st, stage'.expected = some st → status' = some st := by
  intro st hst
  cases h with
  | ignore _ => cases hst
  | read => exact hst
  | look _ => exact hexpected st hst
  | give _ => cases hst
  | reject _ => cases hst
  | claim _ => exact hst
  | go _ _ _ hnext =>
      cases hnext with
      | leave _ _ => cases hst
      | _ => exact hexpected st hst
  | settle _ _ _ => cases hst

/-- No call makes the run disappear. -/
theorem Lifecycle.isSome {status status' : Option RunState} {stage stage' : Stage}
    (h : Lifecycle status stage status' stage') (hsome : status.isSome = true) :
    status'.isSome = true := by
  cases h with
  | reject _ => rfl
  | claim _ => rfl
  | settle _ _ _ => rfl
  | _ => exact hsome

/-! ## One call and one client -/

/-- A call that executes the run beside a client that reads its stream.  The events
that the engine has logged exist only in the model. -/
structure Stream where
  db : Database
  call : Phase
  client : Client
  emitted : List LogEvent

namespace Stream

/-- A run before its only call, and a client that connects. -/
def initial (run : Run) (pipelineSpec : Option Fields) : Stream where
  db := { run := some run, pipelineSpec := pipelineSpec, logs := [], errors := [] }
  call := .start
  client := .initial
  emitted := []

/-- One step of the call or of the stream. -/
def next (d : Deployment) (s : Stream) : WorkerAction ⊕ ClientAction → Option Stream
  | .inl a =>
      (Worker.step d s.db s.call a).map fun result =>
        { s with db := result.1, call := result.2, emitted := result.2.emitted s.emitted }
  | .inr a => (s.client.step s.db a).map fun client => { s with client := client }

/-- The invariant of a call and its client. -/
structure Inv (d : Deployment) (s : Stream) : Prop where
  found : s.db.status.isSome = true
  sound : s.call.Sound
  expected : ∀ status, s.call.stage.expected = some status → s.db.status = some status
  ids : IdsIncrease s.db.logs
  recording : s.call.Recording d.runtime s.db.logs s.emitted
  client : Client.Inv s.db s.client

/-- The invariant holds before the first step of call and client. -/
theorem Inv.initial (d : Deployment) (run : Run) (pipelineSpec : Option Fields) :
    Inv d (Stream.initial run pipelineSpec) where
  found := rfl
  sound := trivial
  expected := nofun
  ids := List.pairwise_singleton _ _
  recording := ⟨rfl, rfl⟩
  client := Client.Inv.initial _

/-- Every step keeps the invariant. -/
theorem Inv.next {d : Deployment} {s s' : Stream} {a : WorkerAction ⊕ ClientAction}
    (hstorable : Worker.LogsStorable d) (h : Inv d s) (hnext : s.next d a = some s') :
    Inv d s' := by
  cases a with
  | inl a =>
      rcases Option.map_eq_some_iff.mp hnext with ⟨⟨db, call⟩, hstep, rfl⟩
      have hspec := Worker.step_spec hstep
      have hlife := hspec.lifecycle h.sound
      exact {
        found := hlife.isSome h.found
        sound := hspec.sound h.sound h.expected
        expected := hlife.expected h.expected
        ids := hspec.idsIncrease h.ids
        recording := hspec.recording hstorable h.recording
        client := h.client.grow (hspec.grows h.expected) }
  | inr a =>
      rcases Option.map_eq_some_iff.mp hnext with ⟨client, hstep, rfl⟩
      exact { h with client := h.client.step h.ids (Client.step_spec hstep) }

/-- In every state the stored rows are the first events of the engine. -/
theorem Inv.stored {d : Deployment} {s : Stream} (h : Inv d s) :
    ∃ k, Flight.Records s.db.logs (s.emitted.take k) := by
  have hrecording := h.recording
  have hall : Flight.Records s.db.logs s.emitted →
      ∃ k, Flight.Records s.db.logs (s.emitted.take k) := by
    intro hrecords
    exact ⟨s.emitted.length, by rwa [List.take_length]⟩
  cases hcall : s.call with
  | flying outcome flight =>
      rw [hcall] at hrecording
      rcases hrecording with ⟨hemitted, events, hinv, _⟩
      rcases hinv.stored with ⟨k, rows, _, hlogs, hrecords, _⟩
      rw [hemitted, hlogs]
      exact ⟨k, hrecords⟩
  | landed result =>
      rw [hcall] at hrecording
      exact hall hrecording
  | finishing loaded result =>
      rw [hcall] at hrecording
      exact hall hrecording
  | returned =>
      rw [hcall] at hrecording
      exact hall hrecording
  | raised exc =>
      rw [hcall] at hrecording
      exact hall hrecording
  | _ =>
      rw [hcall] at hrecording
      exact hall (records_nil hrecording)

/-- When the call is over, all events are stored. -/
theorem Inv.complete {d : Deployment} {s : Stream} (h : Inv d s)
    (hended : s.call.stage = .ended) : Flight.Records s.db.logs s.emitted := by
  have hrecording := h.recording
  cases hcall : s.call with
  | returned =>
      rw [hcall] at hrecording
      exact hrecording
  | raised exc =>
      rw [hcall] at hrecording
      exact hrecording
  | _ =>
      rw [hcall] at hended
      cases hended

/-- When the status is final, all events are stored. -/
theorem Inv.final {d : Deployment} {s : Stream} (h : Inv d s) {status : RunState}
    (hstatus : s.db.status = some status) (hterminal : status.terminal = true) :
    Flight.Records s.db.logs s.emitted := by
  have hidle : s.call.stage.expected = none := by
    cases hstage : s.call.stage.expected with
    | none => rfl
    | some st =>
        have hst := h.expected st hstage
        rw [hstatus, Option.some.injEq] at hst
        subst hst
        cases hcall : s.call.stage <;> rw [hcall] at hstage <;> cases hstage <;> cases hterminal
  cases hstage : s.call.stage with
  | fresh =>
      have hrecording := h.recording
      cases hcall : s.call with
      | start =>
          rw [hcall] at hrecording
          exact records_nil hrecording
      | _ =>
          rw [hcall] at hstage
          cases hstage
  | ended => exact h.complete hstage
  | _ =>
      rw [hstage] at hidle
      cases hidle

/-- The stored rows are the engine's events, numbered from zero, and the client gets
each of them once, in order and before the only {lit}`done`. -/
structure Delivered (d : Deployment) (s : Stream) : Prop where
  /-- Stored rows are the first events. -/
  stored : ∃ k, Flight.Records s.db.logs (s.emitted.take k)
  /-- All events are stored when the call is over. -/
  complete : s.call.stage = .ended → Flight.Records s.db.logs s.emitted
  /-- The rows that have been received are the first stored rows. -/
  inOrder : logRows s.client.received <+: s.db.logs
  once : (logRows s.client.received).Nodup
  /-- When {lit}`done` has been received, it is the last event and the only one of its
  kind, and all events of the engine have been received before it. -/
  done : ∀ status errors, .done status errors ∈ s.client.received →
    ∃ sent, s.client.received = sent ++ [.done status errors] ∧
      (∀ frame ∈ sent, frame.isDone = false) ∧ logRows sent = s.db.logs ∧
      Flight.Records (logRows sent) s.emitted
  /-- A client that is neither closed nor at its last poll can bring itself up to date. -/
  drains : s.client.phase ≠ .closed → s.client.polls + 1 < sseMaxPolls →
    ∃ (actions : List ClientAction) (s' : Stream),
      Interleaving.exec (next d) s (actions.map .inr) = some s' ∧
      s'.db = s.db ∧ s'.emitted = s.emitted ∧ Client.UpToDate s.db s'.client

private theorem nodup_of_idsIncrease {logs : List RunLog} (h : IdsIncrease logs) : logs.Nodup := by
  have hpairwise := (List.pairwise_cons.mp h).2
  rw [List.pairwise_map] at hpairwise
  refine hpairwise.imp fun hlt heq => ?_
  rw [heq] at hlt
  exact Nat.lt_irrefl _ hlt

/-- Steps of the stream leave the call alone. -/
theorem exec_client (d : Deployment) (s : Stream) {actions : List ClientAction} {c : Client}
    (h : Interleaving.exec (Client.step s.db) s.client actions = some c) :
    Interleaving.exec (next d) s (actions.map .inr) = some { s with client := c } := by
  induction actions generalizing s with
  | nil =>
      cases h
      rfl
  | cons a rest ih =>
      rcases Interleaving.exec_cons_eq_some.mp h with ⟨client, hstep, hrest⟩
      refine Interleaving.exec_cons_eq_some.mpr ⟨{ s with client := client }, ?_, ?_⟩
      · simp [next, hstep]
      · exact ih { s with client := client } hrest

/-- The closing frame comes last, after every stored row. -/
theorem Inv.done {d : Deployment} {s : Stream} (h : Inv d s) {status : RunState}
    {errors : List NodeError} (hmem : .done status errors ∈ s.client.received) :
    ∃ sent, s.client.received = sent ++ [.done status errors] ∧
      (∀ frame ∈ sent, frame.isDone = false) ∧ logRows sent = s.db.logs ∧
      Flight.Records (logRows sent) s.emitted := by
  have hframe : .done status errors ∈ s.client.frames := List.mem_append_left _ hmem
  have hnotOpen : ¬ s.client.Open := fun hopen => by cases hopen _ hframe
  rcases h.client.settled hnotOpen with ⟨sent, status', errors', hframes, honly, hterminal, hstatus, hrows⟩
  have hpending : Client.pending s.client.phase = [] ∧ s.client.received =
      sent ++ [.done status' errors'] := by
    rcases List.append_eq_append_iff.mp hframes with ⟨gap, hsent, _⟩ | ⟨gap, hreceived, hlast⟩
    · have hearly : .done status errors ∈ sent := hsent ▸ List.mem_append_left _ hmem
      cases honly _ hearly
    · cases gap with
      | nil =>
          rw [hreceived, List.append_nil] at hmem
          cases honly _ hmem
      | cons frame rest =>
          rw [List.cons_append, List.cons.injEq] at hlast
          have hnil := List.append_eq_nil_iff.mp hlast.2.symm
          rw [hnil.1, ← hlast.1] at hreceived
          exact ⟨hnil.2, hreceived⟩
  have hsame : Frame.done status errors = .done status' errors' := by
    rw [hpending.2, List.mem_append, List.mem_singleton] at hmem
    rcases hmem with hearly | hlast
    · cases honly _ hearly
    · exact hlast
  rw [hsame]
  exact ⟨sent, hpending.2, honly, hrows, hrows ▸ h.final hstatus hterminal⟩

/-- The invariant gives the statement about what was delivered. -/
theorem Inv.delivered {d : Deployment} {s : Stream} (h : Inv d s) : Delivered d s where
  stored := h.stored
  complete := h.complete
  inOrder := by
    have hsent := h.client.sent
    rw [Client.frames, Client.logRows_append] at hsent
    exact (List.prefix_append _ _).trans hsent
  once := by
    have hsent := h.client.sent
    rw [Client.frames, Client.logRows_append] at hsent
    have hprefix := (List.prefix_append _ _).trans hsent
    exact (nodup_of_idsIncrease h.ids).sublist hprefix.sublist
  done := fun _ _ hmem => h.done hmem
  drains := by
    intro hopen hpolls
    rcases Option.isSome_iff_exists.mp h.found with ⟨status, hstatus⟩
    rcases h.client.drains h.ids hstatus hopen hpolls with ⟨actions, c, hexec, hdone⟩
    exact ⟨actions, _, exec_client d s hexec, rfl, rfl, hdone⟩

end Stream

/-- In every interleaving of a call and a client, the engine's events are stored in
order and delivered exactly once. -/
theorem live_logs_delivered (d : Deployment) (hstorable : Worker.LogsStorable d) (run : Run)
    (pipelineSpec : Option Fields) (actions : List (WorkerAction ⊕ ClientAction)) (s : Stream)
    (hrun : Interleaving.exec (Stream.next d) (.initial run pipelineSpec) actions = some s) :
    s.Delivered d := by
  have hinv : s.Inv d := Interleaving.exec_invariant
    (fun _ _ _ hinv hnext => hinv.next hstorable hnext) (Stream.Inv.initial d run pipelineSpec) hrun
  exact hinv.delivered

/-- A client that polls while the engine runs and after the run has finished. -/
def watchedCall : List (WorkerAction ⊕ ClientAction) :=
  [.inl .readRun, .inl .readPipeline, .inl .commitClaim, .inr .readRun, .inl .prepare,
    .inl .resolve, .inl (.fly .emit), .inl (.fly .collect), .inl (.fly (.commit [1])),
    .inr .readLogs, .inr .send, .inl (.fly .engineEnds), .inr .send, .inr .send,
    .inl (.fly .check), .inl .land, .inl .readFinishing, .inl .commitFinishing, .inr .readRun,
    .inr .readLogs, .inr .readErrors, .inr .send, .inr .send, .inr .send]

/-- One call watched to its end: the start event, two states and the ending. -/
theorem live_logs_delivered_watched :
    ∃ s, Interleaving.exec (Stream.next (Samples.deployment Samples.engine onlySource))
        (.initial ⟨"owner", .queued, 0, none⟩ (some [])) watchedCall = some s ∧
      s.Delivered (Samples.deployment Samples.engine onlySource) ∧
      s.client.received = [.log ⟨1, 0, Samples.startEvent⟩, .status .running,
        .status .succeeded, .done .succeeded []] := by
  have hcheck : (Interleaving.exec (Stream.next (Samples.deployment Samples.engine onlySource))
      (.initial ⟨"owner", .queued, 0, none⟩ (some [])) watchedCall).map
        (fun s => s.client.received) = some [.log ⟨1, 0, Samples.startEvent⟩, .status .running,
          .status .succeeded, .done .succeeded []] := by
    decide +kernel
  rcases Option.map_eq_some_iff.mp hcheck with ⟨s, hrun, heq⟩
  exact ⟨s, hrun, live_logs_delivered _ (fun _ _ _ => rfl) _ _ _ s hrun, heq⟩

end EtlTool
