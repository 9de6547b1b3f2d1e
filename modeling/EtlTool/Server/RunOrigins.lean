import EtlTool.Foundations.KeyedTables
import EtlTool.Server.Origins

/-!
# Where runs come from

A run is created by a request of its owner or by a tick of the scheduler, executed by
workers to whom a queue delivers it, and goes only with its pipeline.  All of this takes
several steps, between which everything else may happen.

Whatever the interleaving, every run can be traced back: to the request that asked for it,
or to a tick and to the request that created a schedule for its pipeline.  A run that was
never delivered is as it was created.

Main results:

- Theorem {lit}`commitRequest_runs`: how a commit changes the tables of runs and schedules.
- Theorem {lit}`Server.RunsInv.next`: no step loses track of what was asked for.
- Theorem {lit}`runs_accounted`: the runs of every state that the server can reach.
-/

namespace EtlTool

open Interleaving KeyedTables

variable {app : App} {c : Calendar}

/-! ## What was asked for -/

/-- What a run is for; nothing of it changes. -/
def RunRow.purpose (row : RunRow) : Uuid × Uuid × Uuid × RunTrigger × Option Fields :=
  (row.id, row.pipelineId, row.ownerId, row.trigger, row.params)

/-- The owner has created a schedule for the pipeline. -/
def ScheduledIn (past : List ServerAction) (pipelineId ownerId : Uuid) : Prop :=
  ∃ id payload now, .arrive (.api (some ownerId) (.createSchedule id payload now)) ∈ past ∧
    payload.pipelineId = pipelineId

/-- The owner has triggered the run, or the scheduler has woken up and the owner has created
a schedule for the pipeline. -/
structure RunRow.AskedIn (past : List ServerAction) (row : RunRow) : Prop where
  manual : row.trigger = .manual →
    .arrive (.api (some row.ownerId) (.triggerRun row.id row.pipelineId row.params)) ∈ past
  scheduled : row.trigger = .schedule → row.params = none ∧
    (∃ now ids k, .arrive (.tick now ids) ∈ past ∧ row.id = ids k) ∧
    ScheduledIn past row.pipelineId row.ownerId

/-- The run is as it was created. -/
def RunRow.Untouched (row : RunRow) : Prop :=
  row.run = ⟨row.ownerId, .queued, 0, none⟩

/-- The runs that a commit creates. -/
def RequestWork.newRuns : RequestWork → List RunRow
  | .insertRun row => [row]
  | .schedule (.tick t) => t.runs
  | _ => []

/-- The schedules that a commit creates. -/
def RequestWork.newSchedules : RequestWork → List Schedule
  | .schedule (.insert row) => [row]
  | _ => []

/-- The schedules that a change still has to work on. -/
def RequestWork.pending : RequestWork → List Schedule
  | .schedule (.tick t) => t.pending
  | _ => []

/-- What a change creates was asked for, and so was a deletion. -/
structure RequestWork.AskedIn (past : List ServerAction) (work : RequestWork) : Prop where
  runs : ∀ row ∈ work.newRuns, row.AskedIn past ∧ row.Untouched
  schedules : ∀ row ∈ work.newSchedules, ScheduledIn past row.pipelineId row.ownerId
  pending : ∀ row ∈ work.pending, ScheduledIn past row.pipelineId row.ownerId
  tick : ∀ t, work = .schedule (.tick t) → ∃ now, .arrive (.tick now t.ids) ∈ past
  deletion : ∀ row, work = .removePipeline row →
    .arrive (.api (some row.ownerId) (.deletePipeline row.id)) ∈ past

/-- A session makes changes that were asked for, or executes a run that was delivered. -/
def Session.AskedIn (past : List ServerAction) : Session → Prop
  | .working _ work => work.AskedIn past
  | .executing call => .deliver call.runId ∈ past
  | _ => True

section

variable {past : List ServerAction}

/-- What a schedule asked for stays asked for. -/
theorem ScheduledIn.mono {pipelineId ownerId : Uuid} (h : ScheduledIn past pipelineId ownerId)
    (a : ServerAction) : ScheduledIn (past ++ [a]) pipelineId ownerId := by
  rcases h with ⟨id, payload, now, hmem, heq⟩
  exact ⟨id, payload, now, List.mem_append_left _ hmem, heq⟩

/-- A run once asked for stays asked for. -/
theorem RunRow.AskedIn.mono {row : RunRow} (h : row.AskedIn past) (a : ServerAction) :
    row.AskedIn (past ++ [a]) where
  manual := fun htrigger => List.mem_append_left _ (h.manual htrigger)
  scheduled := by
    intro htrigger
    rcases h.scheduled htrigger with ⟨hparams, ⟨now, ids, k, hmem, hid⟩, hscheduled⟩
    exact ⟨hparams, ⟨now, ids, k, List.mem_append_left _ hmem, hid⟩, hscheduled.mono a⟩

/-- Only the purpose of a run matters. -/
theorem RunRow.AskedIn.congr {row row' : RunRow} (h : row.AskedIn past)
    (hpurpose : row'.purpose = row.purpose) : row'.AskedIn past := by
  simp only [purpose, Prod.mk.injEq] at hpurpose
  rcases hpurpose with ⟨hid, hpipeline, howner, htrigger, hparams⟩
  constructor
  · rw [hid, hpipeline, howner, htrigger, hparams]
    exact h.manual
  · rw [hid, hpipeline, howner, htrigger, hparams]
    exact h.scheduled

/-- What a request works on stays asked for. -/
theorem RequestWork.AskedIn.mono {work : RequestWork} (h : work.AskedIn past) (a : ServerAction) :
    work.AskedIn (past ++ [a]) where
  runs := fun row hrow => ⟨(h.runs row hrow).1.mono a, (h.runs row hrow).2⟩
  schedules := fun row hrow => (h.schedules row hrow).mono a
  pending := fun row hrow => (h.pending row hrow).mono a
  tick := by
    intro t ht
    rcases h.tick t ht with ⟨now, hmem⟩
    exact ⟨now, List.mem_append_left _ hmem⟩
  deletion := fun row hrow => List.mem_append_left _ (h.deletion row hrow)

/-- What a session works on stays asked for. -/
theorem Session.AskedIn.mono {session : Session} (h : session.AskedIn past) (a : ServerAction) :
    session.AskedIn (past ++ [a]) := by
  cases session with
  | working user work => exact RequestWork.AskedIn.mono h a
  | executing call => exact List.mem_append_left _ h
  | _ => trivial

end

/-! ## Requests -/

/-- Work on neither runs, schedules nor pipelines. -/
def RequestWork.bystander : RequestWork → Bool
  | .insertRun _ => false
  | .schedule (.insert _) => false
  | .schedule (.tick _) => false
  | .removePipeline _ => false
  | _ => true

private theorem RequestWork.AskedIn.of_bystander {past : List ServerAction} {work : RequestWork}
    (h : work.bystander = true) : work.AskedIn past := by
  have hnone : work.newRuns = [] ∧ work.newSchedules = [] ∧ work.pending = [] ∧
      (∀ t, work ≠ .schedule (.tick t)) ∧ ∀ row, work ≠ .removePipeline row := by
    cases work with
    | insertRun row => cases h
    | removePipeline row => cases h
    | schedule work =>
        cases work with
        | insert row => cases h
        | tick t => cases h
        | _ => exact ⟨rfl, rfl, rfl, (fun _ heq => nomatch heq), fun _ heq => nomatch heq⟩
    | _ => exact ⟨rfl, rfl, rfl, (fun _ heq => nomatch heq), fun _ heq => nomatch heq⟩
  rcases hnone with ⟨hruns, hschedules, hpending, htick, hremove⟩
  constructor
  · rw [hruns]
    exact fun _ hrow => nomatch hrow
  · rw [hschedules]
    exact fun _ hrow => nomatch hrow
  · rw [hpending]
    exact fun _ hrow => nomatch hrow
  · exact fun t ht => absurd ht (htick t)
  · exact fun row hrow => absurd hrow (hremove row)

section

variable {past : List ServerAction} {user : User}

private theorem triggerRun_asked {id pipelineId : Uuid} {params : Option Fields}
    (harrived : .arrive (.api (some user.id) (.triggerRun id pipelineId params)) ∈ past) :
    (Api.triggerRun c.tables user id pipelineId params).AskedIn past := by
  unfold Api.triggerRun
  split
  · exact .of_bystander rfl
  · rename_i row hrow
    rcases getOwnedPipeline_eq_ok hrow with ⟨_, rfl, _⟩
    constructor
    case runs =>
      intro other hmem
      cases List.mem_singleton.mp hmem
      exact ⟨⟨fun _ => harrived, fun htrigger => nomatch htrigger⟩, rfl⟩
    case schedules => exact fun _ hmem => nomatch hmem
    case pending => exact fun _ hmem => nomatch hmem
    case tick => exact fun _ heq => nomatch heq
    case deletion => exact fun _ heq => nomatch heq

private theorem deletePipeline_asked {id : Uuid}
    (harrived : .arrive (.api (some user.id) (.deletePipeline id)) ∈ past) :
    (Api.deletePipeline c.tables user id).AskedIn past := by
  unfold Api.deletePipeline
  split
  · exact .of_bystander rfl
  · rename_i row hrow
    rcases getOwnedPipeline_eq_ok hrow with ⟨_, rfl, howner⟩
    constructor
    case runs => exact fun _ hmem => nomatch hmem
    case schedules => exact fun _ hmem => nomatch hmem
    case pending => exact fun _ hmem => nomatch hmem
    case tick => exact fun _ heq => nomatch heq
    case deletion =>
      intro other heq
      cases heq
      rw [howner]
      exact harrived

private theorem createSchedule_asked {id : Uuid} {payload : ScheduleCreate} {now : Time}
    (harrived : .arrive (.api (some user.id) (.createSchedule id payload now)) ∈ past) :
    (Api.scheduleRequest app (.create user.id id payload now) c).AskedIn past := by
  unfold Api.scheduleRequest
  simp only [readSchedules]
  cases hpipeline : getOwnedPipeline c.tables payload.pipelineId user.id with
  | error reason => exact .of_bystander rfl
  | ok pipeline =>
      cases hcreate : createSchedule app.cron app.worker.runtime id user.id payload now with
      | error reason => exact .of_bystander rfl
      | ok row =>
          rcases createSchedule_keys hcreate with ⟨_, hpayload, howner⟩
          constructor
          case runs => exact List.forall_mem_nil _
          case schedules =>
            intro other hmem
            cases List.mem_singleton.mp hmem
            rw [hpayload, howner]
            exact ⟨id, payload, now, harrived, rfl⟩
          case pending => exact List.forall_mem_nil _
          case tick =>
            intro _ heq
            cases heq
          case deletion =>
            intro _ heq
            cases heq

/-- What is not about creating or deleting changes no run and no schedule of a pipeline. -/
theorem scheduleRequest_bystander {request : ScheduleRequest}
    (hcreate : ∀ userId id payload now, request ≠ .create userId id payload now)
    (htick : ∀ now ids, request ≠ .tick now ids) :
    (Api.scheduleRequest app request c).bystander = true := by
  unfold Api.scheduleRequest
  cases request with
  | create userId id payload now => exact absurd rfl (hcreate userId id payload now)
  | tick now ids => exact absurd rfl (htick now ids)
  | update userId id payload now =>
      simp only [readSchedules]
      cases getOwnedSchedule c.tables id userId with
      | error reason => rfl
      | ok loaded =>
          dsimp only
          cases updateSchedule app.cron app.worker.runtime loaded payload now with
          | error reason => rfl
          | ok assigned => rfl
  | delete userId id =>
      simp only [readSchedules]
      cases getOwnedSchedule c.tables id userId with
      | error reason => rfl
      | ok row => rfl

/-- Whatever a route creates or deletes, its request has asked for. -/
theorem route_asked {request : ApiRequest}
    (harrived : .arrive (.api (some user.id) request) ∈ past) :
    (Api.route app user c request).AskedIn past := by
  cases request with
  | triggerRun id pipelineId params => exact triggerRun_asked harrived
  | deletePipeline id => exact deletePipeline_asked harrived
  | createSchedule id payload now => exact createSchedule_asked harrived
  | updateSchedule id payload now =>
      apply RequestWork.AskedIn.of_bystander
      exact scheduleRequest_bystander (fun _ _ _ _ heq => nomatch heq) fun _ _ heq => nomatch heq
  | deleteSchedule id =>
      apply RequestWork.AskedIn.of_bystander
      exact scheduleRequest_bystander (fun _ _ _ _ heq => nomatch heq) fun _ _ heq => nomatch heq
  | createPipeline id name spec =>
      simp only [Api.route, Api.createPipeline]
      split <;> exact .of_bystander rfl
  | getPipeline id =>
      simp only [Api.route, Api.getPipeline]
      split <;> exact .of_bystander rfl
  | updatePipeline id name spec =>
      simp only [Api.route, Api.updatePipeline]
      split
      · exact .of_bystander rfl
      · split <;> exact .of_bystander rfl
  | getRun id =>
      simp only [Api.route, Api.getRun]
      split <;> exact .of_bystander rfl
  | streamRunEvents id =>
      simp only [Api.route, Api.streamRunEvents]
      split <;> exact .of_bystander rfl
  | setSecret id ref value nonce =>
      simp only [Api.route, Api.setSecret]
      split
      · exact .of_bystander rfl
      · split <;> exact .of_bystander rfl
  | removeSecret ref =>
      simp only [Api.route, Api.removeSecret]
      split <;> exact .of_bystander rfl
  | getSchedule id =>
      simp only [Api.route, Api.getSchedule]
      split <;> exact .of_bystander rfl
  | runTestConnection type config =>
      simp only [Api.route, Api.runTestConnection]
      split
      · exact .of_bystander rfl
      · split <;> exact .of_bystander rfl
  | _ => exact .of_bystander rfl

/-- A tick works on schedules that were asked for. -/
theorem tick_asked {now : Time} {ids : Nat → Uuid} (harrived : .arrive (.tick now ids) ∈ past)
    (h : ∀ row ∈ c.tables.schedules, ScheduledIn past row.pipelineId row.ownerId) :
    (RequestWork.schedule (.tick (.start now ids (dueSchedules c.tables now)))).AskedIn past where
  runs := fun _ hmem => nomatch hmem
  schedules := fun _ hmem => nomatch hmem
  pending := fun row hrow => h row (List.mem_filter.mp hrow).1
  tick := by
    intro t ht
    cases ht
    exact ⟨now, harrived⟩
  deletion := fun _ heq => nomatch heq

private theorem readRequest_asked
    (h : ∀ row ∈ c.tables.schedules, ScheduledIn past row.pipelineId row.ownerId)
    {request : Request} (harrived : .arrive request ∈ past) :
    (Session.started (readRequest app c request).1 (readRequest app c request).2).AskedIn past := by
  have hstarted : ∀ (user : Option Uuid) (work : RequestWork), work.AskedIn past →
      (Session.started user work).AskedIn past := by
    intro user work hwork
    cases work with
    | answer response => trivial
    | stream userId runId => trivial
    | _ => exact hwork
  apply hstarted
  cases request with
  | register id email password salt =>
      simp only [readRequest, Api.register]
      split <;> exact .of_bystander rfl
  | login email password =>
      simp only [readRequest, Api.login]
      split
      · exact .of_bystander rfl
      · split <;> exact .of_bystander rfl
  | tick now ids => exact tick_asked harrived h
  | api subject request =>
      simp only [readRequest]
      cases huser : currentUser c.tables subject with
      | error reason => exact .of_bystander rfl
      | ok user =>
          rw [currentUser_eq_ok huser] at harrived
          exact route_asked harrived

end

/-- A round of a tick creates the run of a schedule that was asked for. -/
theorem workSchedules_asked {past : List ServerAction} {work work' : ScheduleWork}
    (hwork : RequestWork.AskedIn past (.schedule work))
    (hstep : workSchedules app.cron app.worker.runtime work = some work') :
    RequestWork.AskedIn past (.schedule work') := by
  cases work with
  | tick t =>
      rcases Option.map_eq_some_iff.mp hstep with ⟨t', hflush, rfl⟩
      rcases hwork.tick t rfl with ⟨now, harrived⟩
      have hpending : ∀ row ∈ t.pending, ScheduledIn past row.pipelineId row.ownerId :=
        hwork.pending
      have hruns : ∀ row ∈ t.runs, row.AskedIn past ∧ row.Untouched := hwork.runs
      unfold Tick.flush at hflush
      cases hlist : t.pending with
      | nil => simp [hlist] at hflush
      | cons schedule rest =>
          rw [hlist] at hpending
          simp only [hlist] at hflush
          split at hflush
          · cases hflush
            constructor
            case runs => exact hruns
            case schedules => exact fun _ hmem => nomatch hmem
            case pending => exact fun _ hmem => nomatch hmem
            case tick =>
              intro other heq
              cases heq
              exact ⟨now, harrived⟩
            case deletion => exact fun _ heq => nomatch heq
          · cases hflush
            constructor
            case runs =>
              intro row hrow
              rcases List.mem_append.mp hrow with hold | hnew
              · exact hruns row hold
              · cases List.mem_singleton.mp hnew
                have hscheduled := hpending schedule List.mem_cons_self
                exact ⟨⟨(fun htrigger => nomatch htrigger),
                  fun _ => ⟨rfl, ⟨now, t.ids, t.runs.length, harrived, rfl⟩, hscheduled⟩⟩, rfl⟩
            case schedules => exact fun _ hmem => nomatch hmem
            case pending => exact fun row hrow => hpending row (List.mem_cons_of_mem _ hrow)
            case tick =>
              intro other heq
              cases heq
              exact ⟨now, harrived⟩
            case deletion => exact fun _ heq => nomatch heq
  | _ => cases hstep

/-! ## Commits -/

/-- What a commit can do to the tables of runs and schedules, and to what belongs to runs. -/
structure CommitsRuns (work : RequestWork) (before after : Tables) : Prop where
  origin : ∀ row ∈ after.runs, row ∈ before.runs ∨ row ∈ work.newRuns
  kept : ∀ row ∈ before.runs, row ∈ after.runs ∨
    ∃ pipeline, work = .removePipeline pipeline ∧ row.pipelineId = pipeline.id
  distinct : (before.runs.map RunRow.id).Nodup → (after.runs.map RunRow.id).Nodup
  schedules : ∀ row ∈ after.schedules, ∃ stored,
    (stored ∈ before.schedules ∨ stored ∈ work.newSchedules) ∧
      row.pipelineId = stored.pipelineId ∧ row.ownerId = stored.ownerId
  logs : after.logs ⊆ before.logs
  errors : after.errors ⊆ before.errors

/-- A commit that leaves runs and what belongs to them. -/
theorem CommitsRuns.of_schedules {work : RequestWork} {before after : Tables}
    (hruns : after.runs = before.runs) (hlogs : after.logs = before.logs)
    (herrors : after.errors = before.errors)
    (hschedules : ∀ row ∈ after.schedules, ∃ stored,
      (stored ∈ before.schedules ∨ stored ∈ work.newSchedules) ∧
        row.pipelineId = stored.pipelineId ∧ row.ownerId = stored.ownerId) :
    CommitsRuns work before after where
  origin := fun _ hrow => .inl (hruns ▸ hrow)
  kept := fun _ hrow => .inl (hruns ▸ hrow)
  distinct := fun h => hruns ▸ h
  schedules := hschedules
  logs := hlogs ▸ List.Subset.refl _
  errors := herrors ▸ List.Subset.refl _

/-- A commit that leaves all of it. -/
theorem CommitsRuns.refl {work : RequestWork} {before after : Tables}
    (hruns : after.runs = before.runs) (hlogs : after.logs = before.logs)
    (herrors : after.errors = before.errors) (hschedules : after.schedules = before.schedules) :
    CommitsRuns work before after :=
  .of_schedules hruns hlogs herrors fun row hrow => ⟨row, .inl (hschedules ▸ hrow), rfl, rfl⟩

private theorem insertRun_runs (row : RunRow) :
    CommitsRuns (.insertRun row) c.tables (Commit.insertRun app c row).1.tables := by
  unfold Commit.insertRun
  split
  · exact .refl rfl rfl rfl rfl
  · rename_i hnew
    rw [not_or] at hnew
    constructor
    case origin => exact fun other hother => List.mem_append.mp hother
    case kept => exact fun other hother => .inl (List.mem_append_left _ hother)
    case distinct => exact fun hids => nodup_append hids hnew.1
    case schedules => exact fun other hother => ⟨other, .inl hother, rfl, rfl⟩
    case logs => exact List.Subset.refl _
    case errors => exact List.Subset.refl _

private theorem deletePipeline_runs (pipeline : Pipeline) (tables : Tables) :
    CommitsRuns (.removePipeline pipeline) tables (tables.deletePipeline pipeline.id) where
  origin := fun row hrow => .inl (List.mem_filter.mp hrow).1
  kept := by
    intro row hrow
    by_cases hgone : row.pipelineId = pipeline.id
    · exact .inr ⟨pipeline, rfl, hgone⟩
    · exact .inl (List.mem_filter.mpr ⟨hrow, decide_eq_true hgone⟩)
  distinct := fun hids => hids.sublist (List.filter_sublist.map RunRow.id)
  schedules := fun row hrow => ⟨row, .inl (List.mem_filter.mp hrow).1, rfl, rfl⟩
  logs := List.filter_subset_self _
  errors := List.filter_subset_self _

private theorem commitSchedules_runs (work : ScheduleWork) :
    CommitsRuns (.schedule work) c.tables (commitSchedules work c).tables := by
  have hchanged : ∀ changed : List (Schedule × Schedule),
      ∀ row ∈ c.tables.schedules.map (writeChanged changed), ∃ stored,
        (stored ∈ c.tables.schedules ∨ stored ∈ (RequestWork.schedule work).newSchedules) ∧
          row.pipelineId = stored.pipelineId ∧ row.ownerId = stored.ownerId := by
    intro changed row hrow
    rcases List.mem_map.mp hrow with ⟨stored, hstored, rfl⟩
    exact ⟨stored, .inl hstored, (writeChanged_keys changed stored).2⟩
  cases work with
  | insert row =>
      unfold commitSchedules
      dsimp only
      split
      · exact .refl rfl rfl rfl rfl
      · refine .of_schedules rfl rfl rfl fun other hother => ?_
        exact ⟨other, List.mem_append.mp hother, rfl, rfl⟩
  | edit loaded assigned => exact .of_schedules rfl rfl rfl (hchanged _)
  | remove row =>
      refine .of_schedules rfl rfl rfl fun other hother => ?_
      exact ⟨other, .inl (List.mem_filter.mp hother).1, rfl, rfl⟩
  | refused reason => exact .refl rfl rfl rfl rfl
  | tick t =>
      unfold commitSchedules
      dsimp only
      split
      · rename_i hcommits
        rcases hcommits with ⟨_, _, hfresh, hnew⟩
        constructor
        case origin => exact fun row hrow => List.mem_append.mp hrow
        case kept => exact fun row hrow => .inl (List.mem_append_left _ hrow)
        case distinct =>
          intro hids
          rw [List.map_append, List.nodup_append]
          refine ⟨hids, hfresh, fun id hold other hother => ?_⟩
          rcases List.mem_map.mp hother with ⟨run, hrun, rfl⟩
          exact fun heq => hnew run hrun (heq ▸ hold)
        case schedules => exact hchanged _
        case logs => exact List.Subset.refl _
        case errors => exact List.Subset.refl _
      · exact .refl rfl rfl rfl rfl

/-- A commit creates the runs and schedules of its change and deletes its runs, or it does
less. -/
theorem commitRequest_runs (work : RequestWork) :
    CommitsRuns work c.tables (commitRequest app c work).1.tables := by
  cases work with
  | insertRun row => exact insertRun_runs row
  | removePipeline row => exact deletePipeline_runs row c.tables
  | schedule work =>
      cases work with
      | insert row =>
          unfold commitRequest Commit.insertSchedule
          dsimp only
          split
          · exact .refl rfl rfl rfl rfl
          · exact commitSchedules_runs _
      | edit loaded assigned =>
          unfold commitRequest Commit.editSchedule
          dsimp only
          split
          · exact .refl rfl rfl rfl rfl
          · split
            · exact commitSchedules_runs _
            · exact .refl rfl rfl rfl rfl
      | remove row => exact commitSchedules_runs _
      | refused reason => exact .refl rfl rfl rfl rfl
      | tick t =>
          unfold commitRequest Commit.tick
          dsimp only
          split
          · exact commitSchedules_runs _
          · exact .refl rfl rfl rfl rfl
  | insertUser row =>
      unfold commitRequest Commit.insertUser
      dsimp only
      split <;> exact .refl rfl rfl rfl rfl
  | insertPipeline row =>
      unfold commitRequest Commit.insertPipeline
      dsimp only
      split <;> exact .refl rfl rfl rfl rfl
  | editPipeline loaded assigned =>
      unfold commitRequest Commit.editPipeline
      dsimp only
      split
      · exact .refl rfl rfl rfl rfl
      · split <;> exact .refl rfl rfl rfl rfl
  | insertSecret row =>
      unfold commitRequest Commit.insertSecret
      dsimp only
      split <;> exact .refl rfl rfl rfl rfl
  | editSecret loaded assigned =>
      unfold commitRequest Commit.editSecret
      dsimp only
      split
      · exact .refl rfl rfl rfl rfl
      · split <;> exact .refl rfl rfl rfl rfl
  | _ => exact .refl rfl rfl rfl rfl

/-! ## Steps of a worker -/

/-- What a worker leaves of a run is for the same purpose. -/
theorem WorkerCall.settled_purpose {call : WorkerCall} {d : Deployment} {tables : Tables}
    {issued : List (Uuid × Uuid)} {db : Database} {a : WorkerAction}
    {phase : Phase} (h : tables.Sound issued) (hexists : (tables.run? call.runId).isSome)
    (hstep : Worker.stepResolving d (tables.view call.runId) call.phase a = some (db, phase)) :
    ∀ row ∈ tables.runs, (Tables.settled call.runId db row).purpose = row.purpose := by
  intro row hrow
  rcases Option.isSome_iff_exists.mp hexists with ⟨found, hfound⟩
  rcases Tables.mem_of_run? hfound with ⟨hmem, hkey⟩
  have hid : (call.runId, found.ownerId) ∈ issued := hkey ▸ h.runs found hmem
  have hkeeps := h.keeps hid hexists (Worker.stepResolving_ownerId hstep)
  have howner := hkeeps.owner row hrow
  unfold RunRow.purpose
  rw [howner]
  unfold Tables.settled
  split <;> rfl

/-! ## Runs of the server -/

namespace Server

variable {s s' : Server} {a : ServerAction}

/-- Runs, schedules and changes were asked for, and what is executed was delivered. -/
structure RunsInv (app : App) (past : List ServerAction) (s : Server) : Prop where
  inv : s.Inv
  origins : s.Origins app past
  distinct : (s.tables.runs.map RunRow.id).Nodup
  asked : ∀ row ∈ s.tables.runs, row.AskedIn past
  worked : ∀ row ∈ s.tables.runs, row.Untouched ∨ .deliver row.id ∈ past
  schedules : ∀ row ∈ s.tables.schedules, ScheduledIn past row.pipelineId row.ownerId
  logs : ∀ log ∈ s.tables.logs, .deliver log.runId ∈ past
  errors : ∀ error ∈ s.tables.errors, .deliver error.runId ∈ past
  sessions : ∀ session ∈ s.sessions, session.AskedIn past

namespace RunsInv

variable {past : List ServerAction}

/-- The invariant holds of the fresh server. -/
theorem initial : RunsInv app [] Server.initial where
  inv := Inv.initial
  origins := Origins.initial
  distinct := List.nodup_nil
  asked := fun _ hmem => nomatch hmem
  worked := fun _ hmem => nomatch hmem
  schedules := fun _ hmem => nomatch hmem
  logs := fun _ hmem => nomatch hmem
  errors := fun _ hmem => nomatch hmem
  sessions := fun _ hmem => nomatch hmem

/-- One session has taken a step. -/
theorem sessions_set (h : RunsInv app past s) {i : Nat} {session : Session}
    (hsession : session.AskedIn (past ++ [a])) :
    ∀ other ∈ s.sessions.set i session, other.AskedIn (past ++ [a]) := by
  intro other hmem
  rcases List.mem_or_eq_of_mem_set hmem with hold | rfl
  · exact (h.sessions other hold).mono a
  · exact hsession

/-- A session has been added. -/
theorem sessions_append (h : RunsInv app past s) {session : Session}
    (hsession : session.AskedIn (past ++ [a])) :
    ∀ other ∈ s.sessions ++ [session], other.AskedIn (past ++ [a]) := by
  intro other hmem
  rcases List.mem_append.mp hmem with hold | hnew
  · exact (h.sessions other hold).mono a
  · rw [List.mem_singleton.mp hnew]
    exact hsession

/-- The tables stay. -/
theorem keep (h : RunsInv app past s) (hstep : s.step app a = some s')
    (htables : s'.tables = s.tables)
    (hsessions : ∀ session ∈ s'.sessions, session.AskedIn (past ++ [a])) :
    RunsInv app (past ++ [a]) s' where
  inv := h.inv.next hstep
  origins := h.origins.next hstep
  distinct := htables ▸ h.distinct
  asked := htables ▸ fun row hrow => (h.asked row hrow).mono a
  worked := htables ▸ fun row hrow => (h.worked row hrow).imp id (List.mem_append_left _)
  schedules := htables ▸ fun row hrow => (h.schedules row hrow).mono a
  logs := htables ▸ fun log hlog => List.mem_append_left _ (h.logs log hlog)
  errors := htables ▸ fun error herror => List.mem_append_left _ (h.errors error herror)
  sessions := hsessions

/-- A change that was asked for is committed. -/
theorem commit (h : RunsInv app past s) (hstep : s.step app a = some s') {work : RequestWork}
    (hwork : work.AskedIn past) (hchange : CommitsRuns work s.tables s'.tables)
    (hsessions : ∀ session ∈ s'.sessions, session.AskedIn (past ++ [a])) :
    RunsInv app (past ++ [a]) s' where
  inv := h.inv.next hstep
  origins := h.origins.next hstep
  distinct := hchange.distinct h.distinct
  asked := by
    intro row hrow
    rcases hchange.origin row hrow with hold | hnew
    · exact (h.asked row hold).mono a
    · exact (hwork.runs row hnew).1.mono a
  worked := by
    intro row hrow
    rcases hchange.origin row hrow with hold | hnew
    · exact (h.worked row hold).imp id (List.mem_append_left _)
    · exact .inl (hwork.runs row hnew).2
  schedules := by
    intro row hrow
    rcases hchange.schedules row hrow with ⟨stored, hstored, hpipeline, howner⟩
    rw [hpipeline, howner]
    rcases hstored with hold | hnew
    · exact (h.schedules stored hold).mono a
    · exact (hwork.schedules stored hnew).mono a
  logs := fun log hlog => List.mem_append_left _ (h.logs log (hchange.logs hlog))
  errors := fun error herror => List.mem_append_left _ (h.errors error (hchange.errors herror))
  sessions := hsessions

/-- A worker leaves rows of a run that was delivered. -/
theorem execute (h : RunsInv app past s) (hstep : s.step app a = some s') {runId : Uuid}
    {db : Database} (hdelivered : .deliver runId ∈ past)
    (htables : s'.tables = s.tables.putBack runId db)
    (hpurpose : ∀ row ∈ s.tables.runs, (Tables.settled runId db row).purpose = row.purpose)
    (hsessions : ∀ session ∈ s'.sessions, session.AskedIn (past ++ [a])) :
    RunsInv app (past ++ [a]) s' where
  inv := h.inv.next hstep
  origins := h.origins.next hstep
  distinct := by
    rw [htables]
    change ((s.tables.runs.map (Tables.settled runId db)).map RunRow.id).Nodup
    rw [List.map_map]
    exact (List.map_congr_left fun row _ => (Tables.settled_keys runId db row).1) ▸ h.distinct
  asked := by
    rw [htables]
    intro row hrow
    rcases List.mem_map.mp hrow with ⟨stored, hstored, rfl⟩
    exact ((h.asked stored hstored).congr (hpurpose stored hstored)).mono a
  worked := by
    rw [htables]
    intro row hrow
    rcases List.mem_map.mp hrow with ⟨stored, hstored, rfl⟩
    by_cases hid : stored.id = runId
    · refine .inr (List.mem_append_left _ ?_)
      rw [(Tables.settled_keys runId db stored).1, hid]
      exact hdelivered
    · rw [Tables.settled, if_neg hid]
      exact (h.worked stored hstored).imp id (List.mem_append_left _)
  schedules := by
    rw [htables]
    exact fun row hrow => (h.schedules row hrow).mono a
  logs := by
    rw [htables]
    intro log hlog
    rcases List.mem_append.mp hlog with hold | hnew
    · exact List.mem_append_left _ (h.logs log (List.mem_filter.mp hold).1)
    · rcases List.mem_map.mp hnew with ⟨line, _, rfl⟩
      exact List.mem_append_left _ hdelivered
  errors := by
    rw [htables]
    intro error herror
    rcases List.mem_append.mp herror with hold | hnew
    · exact List.mem_append_left _ (h.errors error (List.mem_filter.mp hold).1)
    · rcases List.mem_map.mp hnew with ⟨found, _, rfl⟩
      exact List.mem_append_left _ hdelivered
  sessions := hsessions

/-- No step loses track of what was asked for. -/
theorem next (h : RunsInv app past s) (hstep : s.step app a = some s') :
    RunsInv app (past ++ [a]) s' := by
  cases step_spec hstep with
  | arrive request => exact h.keep hstep rfl (h.sessions_append trivial)
  | deliver runId =>
      apply h.keep hstep rfl (h.sessions_append _)
      exact List.mem_append_right _ (List.mem_singleton_self _)
  | read i request hsession =>
      have harrived := h.origins.arrived request (List.mem_of_getElem? hsession)
      exact h.keep hstep rfl (h.sessions_set ((readRequest_asked h.schedules harrived).mono _))
  | work i user work work' hsession hwork =>
      have hasked : RequestWork.AskedIn past (.schedule work) :=
        h.sessions _ (List.mem_of_getElem? hsession)
      exact h.keep hstep rfl (h.sessions_set ((workSchedules_asked hasked hwork).mono _))
  | commit i user work hsession hready hids =>
      have hasked : work.AskedIn past := h.sessions _ (List.mem_of_getElem? hsession)
      apply h.commit hstep hasked (commitRequest_runs work) (h.sessions_set _)
      cases (commitRequest app s.calendar work).2 with
      | answered response => trivial
      | refreshing target => trivial
  | refresh i user target hsession => exact h.keep hstep rfl (h.sessions_set trivial)
  | execute i b call call' tables hsession hcall =>
      have hdelivered : .deliver call.runId ∈ past := h.sessions _ (List.mem_of_getElem? hsession)
      rcases WorkerCall.step_eq_some hcall with ⟨db, phase, hworker, hrunId, _, htables⟩
      have hasked : (Session.executing call').AskedIn (past ++ [.execute i b]) := by
        rw [Session.AskedIn, hrunId]
        exact List.mem_append_left _ hdelivered
      rcases htables with ⟨hexists, rfl, _⟩ | ⟨rfl, _⟩
      · exact h.execute hstep hdelivered rfl
          (WorkerCall.settled_purpose h.inv.tables hexists hworker) (h.sessions_set hasked)
      · exact h.keep hstep rfl (h.sessions_set hasked)
  | stream i b userId runId client client' hsession hclient =>
      exact h.keep hstep rfl (h.sessions_set trivial)

/-- The invariant holds in every reachable state. -/
theorem of_exec {actions : List ServerAction}
    (h : exec (Server.step app) Server.initial actions = some s) : RunsInv app actions s := by
  have hpast : RunsInv app ([] ++ actions) s :=
    exec_past (fun past s => RunsInv app past s) (fun _ _ _ _ hs hstep => hs.next hstep) initial h
  rwa [List.nil_append] at hpast

/-- A run stays, for the same purpose, until a deletion that its owner has asked for. -/
theorem kept_next (h : RunsInv app past s) (hstep : s.step app a = some s') :
    ∀ row ∈ s.tables.runs, (∃ row' ∈ s'.tables.runs, row'.purpose = row.purpose) ∨
      .arrive (.api (some row.ownerId) (.deletePipeline row.pipelineId)) ∈ past := by
  intro row hrow
  cases step_spec hstep with
  | commit i user work hsession hready hids =>
      have hmem := List.mem_of_getElem? hsession
      have hasked : work.AskedIn past := h.sessions _ hmem
      have hsound : work.Sound s.issued user := h.inv.sessions _ hmem
      have hchange : CommitsRuns work s.tables (commitRequest app s.calendar work).1.tables :=
        commitRequest_runs work
      rcases hchange.kept row hrow with hkept | ⟨pipeline, rfl, hpipeline⟩
      · exact .inl ⟨row, hkept, rfl⟩
      · have hrefers := (h.inv.tables.runPipelines row hrow).1
        have hsame : (row.pipelineId, row.ownerId) = (pipeline.id, pipeline.ownerId) :=
          List.inj_on_of_nodup_map h.inv.tables.unique hrefers hsound.2 hpipeline
        rw [Prod.mk.injEq] at hsame
        rw [hsame.1, hsame.2]
        exact .inr (hasked.deletion pipeline rfl)
  | execute i b call call' tables hsession hcall =>
      rcases WorkerCall.step_eq_some hcall with ⟨db, phase, hworker, _, _, htables⟩
      rcases htables with ⟨hexists, rfl, _⟩ | ⟨rfl, _⟩
      · exact .inl ⟨_, List.mem_map_of_mem hrow,
          WorkerCall.settled_purpose h.inv.tables hexists hworker row hrow⟩
      · exact .inl ⟨row, hrow, rfl⟩
  | _ => exact .inl ⟨row, hrow, rfl⟩

/-- The same over any number of steps. -/
theorem kept_exec (h : RunsInv app past s) {row : RunRow} (hrow : row ∈ s.tables.runs)
    {more : List ServerAction} (hmore : exec (Server.step app) s more = some s') :
    (∃ row' ∈ s'.tables.runs, row'.purpose = row.purpose) ∨
      .arrive (.api (some row.ownerId) (.deletePipeline row.pipelineId)) ∈ past ++ more := by
  refine (exec_past (fun past s => RunsInv app past s ∧
    ((∃ row' ∈ s.tables.runs, row'.purpose = row.purpose) ∨
      .arrive (.api (some row.ownerId) (.deletePipeline row.pipelineId)) ∈ past))
    ?_ ⟨h, .inl ⟨row, hrow, rfl⟩⟩ hmore).2
  intro past s a s' hs hstep
  refine ⟨hs.1.next hstep, ?_⟩
  rcases hs.2 with ⟨row', hrow', hpurpose⟩ | hdeleted
  · rcases hs.1.kept_next hstep row' hrow' with ⟨later, hlater, hsame⟩ | hdeleted
    · exact .inl ⟨later, hlater, hsame.trans hpurpose⟩
    · simp only [RunRow.purpose, Prod.mk.injEq] at hpurpose
      rw [hpurpose.2.1, hpurpose.2.2.1] at hdeleted
      exact .inr (List.mem_append_left _ hdeleted)
  · exact .inr (List.mem_append_left _ hdeleted)

end RunsInv

end Server

/-- The runs of a server that has carried out some actions. -/
structure RunsAccounted (app : App) (actions : List ServerAction) (s : Server) : Prop where
  /-- The id of a run is given once. -/
  distinct : (s.tables.runs.map RunRow.id).Nodup
  /-- Every run goes back to its owner: to a request for it, or to a tick and a request for a
  schedule of its pipeline. -/
  asked : ∀ row ∈ s.tables.runs, row.AskedIn actions
  /-- A run that was never delivered is as it was created. -/
  worked : ∀ row ∈ s.tables.runs, row.Untouched ∨ .deliver row.id ∈ actions
  /-- Log lines and errors are those of runs that were delivered. -/
  logged : (∀ log ∈ s.tables.logs, .deliver log.runId ∈ actions) ∧
    ∀ error ∈ s.tables.errors, .deliver error.runId ∈ actions
  /-- Whatever happens later, a run stays, for the same purpose, unless its owner asks for
  the deletion of its pipeline. -/
  kept : ∀ more s', exec (Server.step app) s more = some s' → ∀ row ∈ s.tables.runs,
    (∃ row' ∈ s'.tables.runs, row'.purpose = row.purpose) ∨
      .arrive (.api (some row.ownerId) (.deletePipeline row.pipelineId)) ∈ actions ++ more

/-- However requests, ticks and workers interleave, every run can be accounted for. -/
theorem runs_accounted (app : App) (actions : List ServerAction) (s : Server)
    (h : exec (Server.step app) Server.initial actions = some s) :
    RunsAccounted app actions s := by
  have hinv := Server.RunsInv.of_exec h
  constructor
  case distinct => exact hinv.distinct
  case asked => exact hinv.asked
  case worked => exact hinv.worked
  case logged => exact ⟨hinv.logs, hinv.errors⟩
  case kept => exact fun more s' hmore row hrow => hinv.kept_exec hrow hmore

/-- A run asked for by hand and a run of a schedule. -/
theorem runs_accounted_twoUsers :
    ∃ s, exec (Server.step Samples.app) Server.initial Samples.twoUsers = some s ∧
      (s.tables.runs.map fun row => (row.ownerId, row.trigger, row.run.status)) =
        [("first", .manual, .succeeded), ("first", .schedule, .queued)] ∧
      RunsAccounted Samples.app Samples.twoUsers s := by
  have hcheck : (exec (Server.step Samples.app) Server.initial Samples.twoUsers).map
      (fun s => s.tables.runs.map fun row => (row.ownerId, row.trigger, row.run.status)) =
      some [("first", .manual, .succeeded), ("first", .schedule, .queued)] := by
    decide +kernel
  rcases Option.map_eq_some_iff.mp hcheck with ⟨s, hrun, heq⟩
  exact ⟨s, hrun, heq, runs_accounted Samples.app Samples.twoUsers s hrun⟩

end EtlTool
