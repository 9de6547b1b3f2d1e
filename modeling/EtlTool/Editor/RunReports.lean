import EtlTool.Editor.RunController

/-!
# What the controller is told about a run

Status, errors and node states in the view of a run come from the row of the run, from its
errors and from its log rows.  A state of a run that has been read stays one that the run has
had, so what a view shows and what the server has answered stays true while workers write.

Main results:

- Theorem {lit}`BelongsTo.ofDetail`, {lit}`BelongsTo.finalized` and {lit}`BelongsTo.appendLog`:
  the views that the controller builds from what it is told about one run belong to it.
- Theorem {lit}`RunSystem.serve_spec`: the server answers a call about the run of the call.
-/

namespace EtlTool

/-! ## What belongs to a run -/

/-- The state of a node was reported for the run: by a node result, by an error, or by a log
row of the node. -/
def Reported (dbs : List Database) (nodeId : String) (state : Value) : Prop :=
  (∃ db ∈ dbs, ∃ run, db.run = some run ∧
    ∃ result, (nodeId, result) ∈ nodeResults run ∧ resultStatus result = state) ∨
  (state = .str "failed" ∧ ∃ db ∈ dbs, ∃ error ∈ db.errors, error.nodeId = nodeId) ∨
  (state = .str "running" ∧ ∃ db ∈ dbs, ∃ row ∈ db.logs, row.event.nodeId = some nodeId)

/-- Status, errors and node states of the view are those of a run, in one of its states. -/
structure BelongsTo (dbs : List Database) (runId : String) (view : RunView) : Prop where
  run : view.runId = some runId
  status : ∃ status, view.status = some status ∧ ∃ db ∈ dbs, db.status = some status
  errors : ∃ db ∈ dbs, db.errors = view.errors
  nodeStates : ∀ nodeId state, view.nodeStates.get? nodeId = some state →
    Reported dbs nodeId state

/-- A view without a run. -/
structure ShowsNoRun (view : RunView) (status : Option RunState) (errors : List NodeError) :
    Prop where
  run : view.runId = none
  status : view.status = status
  errors : view.errors = errors
  nodeStates : view.nodeStates = .empty

/-! ## Reports about a run -/

/-- What was reported stays reported. -/
theorem Reported.mono {dbs dbs' : List Database} (h : dbs ⊆ dbs') {nodeId : String} {state : Value}
    (hreported : Reported dbs nodeId state) : Reported dbs' nodeId state := by
  rcases hreported with ⟨db, hdb, hresult⟩ | ⟨hstate, db, hdb, herror⟩ | ⟨hstate, db, hdb, hrow⟩
  · exact Or.inl ⟨db, h hdb, hresult⟩
  · exact Or.inr (Or.inl ⟨hstate, db, h hdb, herror⟩)
  · exact Or.inr (Or.inr ⟨hstate, db, h hdb, hrow⟩)

/-- A view that belongs to a run still does as its history grows. -/
theorem BelongsTo.mono {dbs dbs' : List Database} (h : dbs ⊆ dbs') {runId : String} {view : RunView}
    (hview : BelongsTo dbs runId view) : BelongsTo dbs' runId view where
  run := hview.run
  status := by
    rcases hview.status with ⟨status, hstatus, db, hdb, hhad⟩
    exact ⟨status, hstatus, db, h hdb, hhad⟩
  errors := by
    rcases hview.errors with ⟨db, hdb, herrors⟩
    exact ⟨db, h hdb, herrors⟩
  nodeStates := fun nodeId state hstate => (hview.nodeStates nodeId state hstate).mono h

/-- A later error overwrites the state of its node only. -/
theorem get?_foldl_failed {errors : List NodeError} {states : NodeStates} {nodeId : String}
    {state : Value}
    (h : (errors.foldl (fun states error => states.set error.nodeId (.str "failed")) states).get?
      nodeId = some state) :
    (state = .str "failed" ∧ ∃ error ∈ errors, error.nodeId = nodeId) ∨
      states.get? nodeId = some state := by
  induction errors generalizing states with
  | nil => exact Or.inr h
  | cons error errors ih =>
      rcases ih h with ⟨hstate, other, hother, hid⟩ | hset
      · exact Or.inl ⟨hstate, other, List.mem_cons_of_mem error hother, hid⟩
      · rw [OrderedDict.get?_set] at hset
        split at hset
        · rename_i hid
          cases hset
          exact Or.inl ⟨rfl, error, List.mem_cons_self, hid.symm⟩
        · exact Or.inr hset

/-- How much of a detail has been read, each part from some state of the run. -/
def DetailReply.Read (dbs : List Database) : DetailReply → Prop
  | sawRun run => ∃ db ∈ dbs, db.run = some run
  | sawLogs run logs => (∃ db ∈ dbs, db.run = some run) ∧ ∃ db ∈ dbs, db.logs = logs
  | answered detail =>
      (∃ db ∈ dbs, db.run = some detail.run) ∧ (∃ db ∈ dbs, db.logs = detail.logs) ∧
        ∃ db ∈ dbs, db.errors = detail.errors
  | _ => True

/-- The node states of a detail were reported for its run. -/
theorem reported_of_detail {dbs : List Database} {detail : RunDetail}
    (h : (DetailReply.answered detail).Read dbs) {nodeId : String} {state : Value}
    (hstate : (nodeStatesFromDetail detail).get? nodeId = some state) :
    Reported dbs nodeId state := by
  rcases h with ⟨⟨db, hdb, hrun⟩, -, ⟨db', hdb', herrors⟩⟩
  rcases get?_foldl_failed hstate with ⟨hfailed, error, herror, hid⟩ | hresult
  · exact Or.inr (Or.inl ⟨hfailed, db', hdb', error, herrors ▸ herror, hid⟩)
  · rcases List.mem_map.mp (OrderedDict.mem_of_get?_ofList hresult) with ⟨result, hmem, heq⟩
    cases heq
    exact Or.inl ⟨db, hdb, detail.run, hrun, result.2, hmem, rfl⟩

/-- A view made from a run's detail belongs to the run. -/
theorem BelongsTo.ofDetail {dbs : List Database} {detail : RunDetail}
    (h : (DetailReply.answered detail).Read dbs) (runId : String) :
    BelongsTo dbs runId (.ofDetail runId detail) where
  run := rfl
  status := by
    rcases h.1 with ⟨db, hdb, hrun⟩
    exact ⟨detail.run.status, rfl, db, hdb, by simp [Database.status, hrun]⟩
  errors := h.2.2
  nodeStates := fun _ _ hstate => reported_of_detail h hstate

/-- A view finalized with a run's detail belongs to the run. -/
theorem BelongsTo.finalized {dbs : List Database} {detail : RunDetail}
    (h : (DetailReply.answered detail).Read dbs) (runId : String) (view : RunView) :
    BelongsTo dbs runId (view.finalized runId detail) where
  run := rfl
  status := (BelongsTo.ofDetail h runId).status
  errors := h.2.2
  nodeStates := fun _ _ hstate => reported_of_detail h hstate

/-- A log row of the run leaves its view with the run. -/
theorem BelongsTo.appendLog {dbs : List Database} {runId : String} {view : RunView}
    (h : BelongsTo dbs runId view) {row : RunLog} (hrow : ∃ db ∈ dbs, row ∈ db.logs) :
    BelongsTo dbs runId (view.appendLog row) where
  run := h.run
  status := h.status
  errors := h.errors
  nodeStates := by
    intro nodeId state hstate
    rcases hrow with ⟨db, hdb, hmem⟩
    simp only [RunView.appendLog] at hstate
    split at hstate
    · exact h.nodeStates nodeId state hstate
    · rename_i named hnamed
      split at hstate
      · exact h.nodeStates nodeId state hstate
      · simp only [bumpRunning] at hstate
        split at hstate
        · exact h.nodeStates nodeId state hstate
        · rw [OrderedDict.get?_set] at hstate
          split at hstate
          · rename_i hid
            cases hstate
            exact Or.inr (Or.inr ⟨rfl, db, hdb, row, hmem, hid ▸ hnamed⟩)
          · exact h.nodeStates nodeId state hstate

/-! ## What pending calls know -/

/-- What the server has answered so far is about the run of the call. -/
def Call.Read (history : String → List Database) : Call → Prop
  | trigger (.created runId) => ∃ db ∈ history runId, db.errors = []
  | trigger (.answered runId status) =>
      (∃ db ∈ history runId, db.errors = []) ∧ ∃ db ∈ history runId, db.status = some status
  | showRun runId reply => reply.Read (history runId)
  | finalize runId reply => reply.Read (history runId)
  | _ => True

/-- A reply read from a history is read from every longer one. -/
theorem DetailReply.Read.mono {dbs dbs' : List Database} (h : dbs ⊆ dbs') {reply : DetailReply}
    (hread : reply.Read dbs) : reply.Read dbs' := by
  have hexists : ∀ {p : Database → Prop}, (∃ db ∈ dbs, p db) → ∃ db ∈ dbs', p db := by
    intro p hp
    rcases hp with ⟨db, hdb, hdb'⟩
    exact ⟨db, h hdb, hdb'⟩
  cases reply with
  | sawRun run => exact hexists hread
  | sawLogs run logs => exact ⟨hexists hread.1, hexists hread.2⟩
  | answered detail => exact ⟨hexists hread.1, hexists hread.2.1, hexists hread.2.2⟩
  | asked => trivial
  | failed => trivial

/-- A call read from the histories is read from longer ones. -/
theorem Call.Read.mono {history history' : String → List Database}
    (h : ∀ runId, history runId ⊆ history' runId) {call : Call} (hread : call.Read history) :
    call.Read history' := by
  have hexists : ∀ {runId} {p : Database → Prop},
      (∃ db ∈ history runId, p db) → ∃ db ∈ history' runId, p db := by
    intro runId p hp
    rcases hp with ⟨db, hdb, hdb'⟩
    exact ⟨db, h runId hdb, hdb'⟩
  cases call with
  | trigger reply =>
      cases reply with
      | created runId => exact hexists hread
      | answered runId status => exact ⟨hexists hread.1, hexists hread.2⟩
      | asked => trivial
      | failed message => trivial
  | showRun runId reply => exact DetailReply.Read.mono (h runId) hread
  | finalize runId reply => exact DetailReply.Read.mono (h runId) hread

/-- Reading on at a later database keeps the reply one of the history. -/
theorem DetailReply.Read.read {dbs : List Database} {db : Database} (hdb : db ∈ dbs)
    {reply reply' : DetailReply} (h : reply.Read dbs) (hread : reply.read db = some reply') :
    reply'.Read dbs := by
  cases reply with
  | asked =>
      rcases Option.map_eq_some_iff.mp hread with ⟨run, hrun, rfl⟩
      exact ⟨db, hdb, hrun⟩
  | sawRun run =>
      cases hread
      exact ⟨h, db, hdb, rfl⟩
  | sawLogs run logs =>
      cases hread
      exact ⟨h.1, h.2, db, hdb, rfl⟩
  | answered detail => cases hread
  | failed => cases hread

/-- The rows of a detail are rows that the run had at one moment, so no id comes twice. -/
theorem DetailReply.Read.ids {dbs : List Database} {detail : RunDetail}
    (hread : (DetailReply.answered detail).Read dbs) (hids : ∀ db ∈ dbs, IdsIncrease db.logs) :
    (∀ row ∈ detail.logs, ∃ db ∈ dbs, row ∈ db.logs) ∧ (detail.logs.map RunLog.id).Nodup := by
  rcases hread.2.1 with ⟨db, hdb, hlogs⟩
  constructor
  · intro row hrow
    exact ⟨db, hdb, hlogs ▸ hrow⟩
  · rw [← hlogs]
    exact (List.pairwise_cons.mp (hids db hdb)).2.imp fun hlt => Nat.ne_of_lt hlt

/-- Two calls of one kind, for one run. -/
inductive Call.Alike : Call → Call → Prop where
  | trigger (reply reply' : TriggerReply) : Alike (.trigger reply) (.trigger reply')
  | showRun (runId : String) (reply reply' : DetailReply) :
      Alike (.showRun runId reply) (.showRun runId reply')
  | finalize (runId : String) (reply reply' : DetailReply) :
      Alike (.finalize runId reply) (.finalize runId reply')

/-- Calls alike open a run together. -/
theorem Call.Alike.opens {call call' : Call} (h : Alike call call') : call'.opens = call.opens := by
  cases h <;> rfl

/-- Every call is alike itself. -/
theorem Call.alike_refl (call : Call) : Alike call call := by
  cases call <;> constructor

/-- A failed call is alike the call it was. -/
theorem Call.alike_fail (call : Call) (message : String) : Alike call (call.fail message) := by
  cases call <;> constructor

/-- A failed call has read nothing. -/
theorem Call.read_fail (history : String → List Database) (call : Call) (message : String) :
    (call.fail message).Read history := by
  cases call <;> trivial

/-- The server answers the call that it was asked, from the current state of the run. -/
theorem RunSystem.serve_spec {s : RunSystem} {call call' : Call} (hread : call.Read s.history)
    (h : s.serve call = some call') : call.Alike call' ∧ call'.Read s.history := by
  have hcurrent : ∀ {runId db}, s.current runId = some db → db ∈ s.history runId :=
    fun hdb => List.mem_of_head? hdb
  unfold RunSystem.serve at h
  split at h
  · simp only [Option.bind_eq_bind, Option.bind_eq_some_iff, Option.some.injEq] at h
    rcases h with ⟨db, hdb, status, hstatus, rfl⟩
    exact ⟨.trigger _ _, hread, db, hcurrent hdb, hstatus⟩
  · simp only [Option.bind_eq_bind, Option.bind_eq_some_iff, Option.some.injEq] at h
    rcases h with ⟨db, hdb, reply', hreply', rfl⟩
    exact ⟨.showRun _ _ _, DetailReply.Read.read (hcurrent hdb) hread hreply'⟩
  · simp only [Option.bind_eq_bind, Option.bind_eq_some_iff, Option.some.injEq] at h
    rcases h with ⟨db, hdb, reply', hreply', rfl⟩
    exact ⟨.finalize _ _ _, DetailReply.Read.read (hcurrent hdb) hread hreply'⟩
  · cases h

end EtlTool
