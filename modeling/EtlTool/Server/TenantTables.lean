import EtlTool.Server.Sessions

/-!
# The tables of one user

{lit}`Tables.of` keeps the rows of one user: their pipelines, runs, schedules and
secrets, and the log lines and errors of their runs.  A request of a user answers and
commits on these rows what it answers and commits on the whole database, and leaves the
rows of everybody else as they are.

Main results:

- Theorem {lit}`route_of`: a request reads the rows of its user only.
- Theorem {lit}`commitRequest_actsFor`: a commit changes the rows of its user only.
- Theorem {lit}`commitRequest_sound`: every run and every schedule keeps belonging
  to the owner of its pipeline.
-/

namespace EtlTool

open OwnedRows

/-! ## The rows of a user -/

namespace Tables

/-- The ids of the runs of a user. -/
def runIds (tables : Tables) (u : Uuid) : List Uuid :=
  (rowsOf RunRow.ownerId u tables.runs).map RunRow.id

/-- The rows of a user. -/
def of (tables : Tables) (u : Uuid) : Tables :=
  { tables with
    pipelines := rowsOf Pipeline.ownerId u tables.pipelines
    runs := rowsOf RunRow.ownerId u tables.runs
    logs := rowsUnder LogRow.runId (tables.runIds u) tables.logs
    errors := rowsUnder ErrorRow.runId (tables.runIds u) tables.errors
    schedules := rowsOf Schedule.ownerId u tables.schedules
    secrets := rowsOf Secret.ownerId u tables.secrets }

/-- The tables agree with the ledger of ids about the owner of every row, and what a row
refers to exists and has the same owner. -/
structure Sound (issued : List (Uuid × Uuid)) (tables : Tables) : Prop where
  unique : (issued.map Prod.fst).Nodup
  pipelines : ∀ row ∈ tables.pipelines, (row.id, row.ownerId) ∈ issued
  runs : ∀ row ∈ tables.runs, (row.id, row.ownerId) ∈ issued
  runPipelines : ∀ row ∈ tables.runs, (row.pipelineId, row.ownerId) ∈ issued ∧
    row.pipelineId ∈ tables.pipelines.map Pipeline.id
  schedules : ∀ row ∈ tables.schedules, (row.id, row.ownerId) ∈ issued
  schedulePipelines : ∀ row ∈ tables.schedules, (row.pipelineId, row.ownerId) ∈ issued ∧
    row.pipelineId ∈ tables.pipelines.map Pipeline.id
  secrets : ∀ row ∈ tables.secrets, (row.id, row.ownerId) ∈ issued
  logs : ∀ row ∈ tables.logs, row.runId ∈ tables.runs.map RunRow.id
  errors : ∀ row ∈ tables.errors, row.runId ∈ tables.runs.map RunRow.id

variable {issued : List (Uuid × Uuid)} {tables : Tables} {u v : Uuid}

/-! ## Whose a row is -/

namespace Sound

variable (h : tables.Sound issued)

include h

/-- An id issued to a user is the key of no one else's pipeline. -/
theorem ownsPipeline {id : Uuid} (hid : (id, u) ∈ issued) :
    KeyOwned Pipeline.ownerId Pipeline.id tables.pipelines id u :=
  keyOwned_of_recorded h.unique h.pipelines hid

/-- An id issued to a user is the key of no one else's run. -/
theorem ownsRun {id : Uuid} (hid : (id, u) ∈ issued) :
    KeyOwned RunRow.ownerId RunRow.id tables.runs id u :=
  keyOwned_of_recorded h.unique h.runs hid

/-- An id issued to a user is the key of no one else's schedule. -/
theorem ownsSchedule {id : Uuid} (hid : (id, u) ∈ issued) :
    KeyOwned Schedule.ownerId Schedule.id tables.schedules id u :=
  keyOwned_of_recorded h.unique h.schedules hid

/-- An id issued to a user is the key of no one else's secret. -/
theorem ownsSecret {id : Uuid} (hid : (id, u) ∈ issued) :
    KeyOwned Secret.ownerId Secret.id tables.secrets id u :=
  keyOwned_of_recorded h.unique h.secrets hid

/-- A pipeline that is referred to is found, with the recorded owner. -/
theorem pipeline?_of_recorded {id : Uuid} (hid : (id, u) ∈ issued)
    (hexists : id ∈ tables.pipelines.map Pipeline.id) :
    ∃ pipeline, tables.pipeline? id = some pipeline ∧ u = pipeline.ownerId := by
  rcases List.mem_map.mp hexists with ⟨found, hfound, hkey⟩
  have hsome : (tables.pipeline? id).isSome := by
    rw [pipeline?, List.find?_isSome]
    exact ⟨found, hfound, by simpa using hkey⟩
  rcases Option.isSome_iff_exists.mp hsome with ⟨pipeline, hpipeline⟩
  rcases mem_of_pipeline? hpipeline with ⟨hmem, hkey'⟩
  exact ⟨pipeline, hpipeline, (h.ownsPipeline hid pipeline hmem hkey').symm⟩

end Sound

/-! ## Lookups in the rows of a user -/

/-- The ids of a user's runs. -/
theorem mem_runIds {id : Uuid} :
    id ∈ tables.runIds u ↔ ∃ row ∈ tables.runs, row.ownerId = u ∧ row.id = id := by
  simp [runIds, and_assoc]

namespace Sound

variable (h : tables.Sound issued)

include h

private theorem pipeline?_of (id u : Uuid) : (tables.of u).pipeline? id =
    (tables.pipeline? id).filter fun row => decide (row.ownerId = u) :=
  find?_rowsOf_of_recorded h.unique h.pipelines id u

private theorem run?_of (id u : Uuid) : (tables.of u).run? id =
    (tables.run? id).filter fun row => decide (row.ownerId = u) :=
  find?_rowsOf_of_recorded h.unique h.runs id u

private theorem schedule?_of (id u : Uuid) : (tables.of u).schedule? id =
    (tables.schedule? id).filter fun row => decide (row.ownerId = u) :=
  find?_rowsOf_of_recorded h.unique h.schedules id u

/-- A user's own part of the tables finds the user's pipelines. -/
theorem pipeline?_of_self {id : Uuid} (hid : (id, u) ∈ issued) :
    (tables.of u).pipeline? id = tables.pipeline? id :=
  find?_rowsOf (h.ownsPipeline hid)

/-- A user's own part of the tables finds the user's runs. -/
theorem run?_of_self {id : Uuid} (hid : (id, u) ∈ issued) :
    (tables.of u).run? id = tables.run? id :=
  find?_rowsOf (h.ownsRun hid)

/-- A user's own part of the tables finds the user's schedules. -/
theorem schedule?_of_self {id : Uuid} (hid : (id, u) ∈ issued) :
    (tables.of u).schedule? id = tables.schedule? id :=
  find?_rowsOf (h.ownsSchedule hid)

/-- A user's own part of the tables finds the user's secrets. -/
theorem secret?_of_self {id : Uuid} (hid : (id, u) ∈ issued) :
    (tables.of u).secret? id = tables.secret? id :=
  find?_rowsOf (h.ownsSecret hid)

/-- A run that has log lines or errors is there, and belongs to the recorded owner. -/
theorem mem_runIds_of_exists {runId : Uuid} (hid : (runId, u) ∈ issued)
    (hexists : runId ∈ tables.runs.map RunRow.id) : runId ∈ tables.runIds u := by
  rcases List.mem_map.mp hexists with ⟨row, hrow, hkey⟩
  exact mem_runIds.mpr ⟨row, hrow, h.ownsRun hid row hrow hkey, hkey⟩

private theorem logs_of_run {runId : Uuid} (hid : (runId, u) ∈ issued) :
    ((tables.of u).logs.filter fun row => row.runId = runId) =
      tables.logs.filter fun row => row.runId = runId := by
  apply filter_rowsUnder
  intro row hrow hkey
  exact h.mem_runIds_of_exists hid (hkey ▸ h.logs row hrow)

private theorem errors_of_run {runId : Uuid} (hid : (runId, u) ∈ issued) :
    ((tables.of u).errors.filter fun row => row.runId = runId) =
      tables.errors.filter fun row => row.runId = runId := by
  apply filter_rowsUnder
  intro row hrow hkey
  exact h.mem_runIds_of_exists hid (hkey ▸ h.errors row hrow)

/-- The pipeline over the row of a run is found among the rows of its owner. -/
theorem loaded_of {runId : Uuid} (hid : (runId, u) ∈ issued) :
    (((tables.of u).run? runId).bind fun row => (tables.of u).pipeline? row.pipelineId) =
      (tables.run? runId).bind fun row => tables.pipeline? row.pipelineId := by
  rw [h.run?_of_self hid]
  cases hrun : tables.run? runId with
  | none => rfl
  | some row =>
      rcases mem_of_run? hrun with ⟨hmem, hkey⟩
      have hpipeline := (h.runPipelines row hmem).1
      rw [h.ownsRun hid row hmem hkey] at hpipeline
      exact h.pipeline?_of_self hpipeline

/-- A worker or a stream sees the same of a run of the user. -/
theorem view_of {runId : Uuid} (hid : (runId, u) ∈ issued) :
    (tables.of u).view runId = tables.view runId := by
  have hspec := congrArg (Option.map Pipeline.spec) (h.loaded_of hid)
  simp only [Option.map_bind, Function.comp_def, h.run?_of_self hid] at hspec
  simp only [view, hspec, h.run?_of_self hid, h.logs_of_run hid, h.errors_of_run hid]

private theorem getOwnedPipeline_of (id u : Uuid) :
    getOwnedPipeline (tables.of u) id u = getOwnedPipeline tables id u := by
  rw [getOwnedPipeline, getOwnedPipeline, h.pipeline?_of, getOwned_filter]

private theorem getOwnedRun_of (id u : Uuid) :
    getOwnedRun (tables.of u) id u = getOwnedRun tables id u := by
  rw [getOwnedRun, getOwnedRun, h.run?_of, getOwned_filter]

private theorem getOwnedSchedule_of (id u : Uuid) :
    getOwnedSchedule (tables.of u) id u = getOwnedSchedule tables id u := by
  rw [getOwnedSchedule, getOwnedSchedule, h.schedule?_of, getOwned_filter]

end Sound

private theorem ownedSecret?_of (ref : String) :
    (tables.of u).ownedSecret? u ref = tables.ownedSecret? u ref := by
  simp only [ownedSecret?, of, rowsOf_rowsOf]

/-- A user's own part of the tables holds all of the user's secrets. -/
theorem secretRows_of : (tables.of u).secretRows u = tables.secretRows u := by
  simp only [secretRows, of, rowsOf_rowsOf]

end Tables

/-! ## Reads -/

/-- A database with the rows of one user. -/
def Calendar.of (c : Calendar) (u : Uuid) : Calendar :=
  { c with tables := c.tables.of u }

variable {issued : List (Uuid × Uuid)} {c : Calendar} {app : App}

/-- What a request about schedules reads belongs to its user. -/
theorem scheduleRequest_of (h : c.tables.Sound issued) {request : ScheduleRequest} {u : Uuid}
    (hrequest : (∃ id payload now, request = .create u id payload now) ∨
      (∃ id payload now, request = .update u id payload now) ∨ ∃ id, request = .delete u id) :
    Api.scheduleRequest app request (c.of u) = Api.scheduleRequest app request c := by
  rcases hrequest with ⟨id, payload, now, rfl⟩ | ⟨id, payload, now, rfl⟩ | ⟨id, rfl⟩
  · simp only [Api.scheduleRequest, readSchedules, Calendar.of, h.getOwnedPipeline_of]
  · simp only [Api.scheduleRequest, readSchedules, Calendar.of, h.getOwnedSchedule_of]
  · simp only [Api.scheduleRequest, readSchedules, Calendar.of, h.getOwnedSchedule_of]

/-- A request reads the rows of its user only. -/
theorem route_of (h : c.tables.Sound issued) (user : User) (request : ApiRequest) :
    Api.route app user (c.of user.id) request = Api.route app user c request := by
  cases request with
  | me => rfl
  | createPipeline id name spec => rfl
  | listPipelines =>
      simp only [Api.route, Api.listPipelines, Calendar.of, Tables.of, rowsOf_rowsOf]
  | getPipeline id => simp only [Api.route, Api.getPipeline, Calendar.of, h.getOwnedPipeline_of]
  | updatePipeline id name spec =>
      simp only [Api.route, Api.updatePipeline, Calendar.of, h.getOwnedPipeline_of]
  | deletePipeline id =>
      simp only [Api.route, Api.deletePipeline, Calendar.of, h.getOwnedPipeline_of]
  | triggerRun id pipelineId params =>
      simp only [Api.route, Api.triggerRun, Calendar.of, h.getOwnedPipeline_of]
  | listRuns pipelineId limit =>
      simp only [Api.route, Api.listRuns, Calendar.of, Tables.of, rowsOf_rowsOf]
  | getRun runId =>
      simp only [Api.route, Api.getRun, Calendar.of, h.getOwnedRun_of]
      cases hrow : getOwnedRun c.tables runId user.id with
      | error reason => rfl
      | ok row =>
          rcases getOwnedRun_eq_ok hrow with ⟨hmem, hkey, howner⟩
          have hid : (runId, user.id) ∈ issued := hkey ▸ howner ▸ h.runs row hmem
          simp only [h.logs_of_run hid, h.errors_of_run hid]
  | streamRunEvents runId =>
      simp only [Api.route, Api.streamRunEvents, Calendar.of, h.getOwnedRun_of]
  | setSecret id ref value nonce =>
      simp only [Api.route, Api.setSecret, Calendar.of, Tables.ownedSecret?_of]
  | listSecrets => simp only [Api.route, Api.listSecrets, Calendar.of, Tables.of, rowsOf_rowsOf]
  | removeSecret ref =>
      simp only [Api.route, Api.removeSecret, Calendar.of, Tables.ownedSecret?_of]
  | createSchedule id payload now =>
      exact scheduleRequest_of h (.inl ⟨id, payload, now, rfl⟩)
  | listSchedules =>
      simp only [Api.route, Api.listSchedules, Calendar.of, Tables.of, rowsOf_rowsOf]
  | getSchedule id => simp only [Api.route, Api.getSchedule, Calendar.of, h.getOwnedSchedule_of]
  | updateSchedule id payload now =>
      exact scheduleRequest_of h (.inr (.inl ⟨id, payload, now, rfl⟩))
  | deleteSchedule id => exact scheduleRequest_of h (.inr (.inr ⟨id, rfl⟩))
  | runTestConnection type config =>
      simp only [Api.route, Api.runTestConnection, Calendar.of, Tables.secretRows_of]

/-! ## Commits -/

/-- All rows of a response belong to one user. -/
def Response.OwnedBy (u : Uuid) : Response → Prop
  | user row => row.id = u
  | pipeline row => row.ownerId = u
  | pipelines rows => ∀ row ∈ rows, row.ownerId = u
  | run row => row.ownerId = u
  | runs rows => ∀ row ∈ rows, row.ownerId = u
  | runDetail row logs errors => row.ownerId = u ∧ (∀ log ∈ logs, log.runId = row.id) ∧
      ∀ error ∈ errors, error.runId = row.id
  | schedule row => row.ownerId = u
  | schedules rows => ∀ row ∈ rows, row.ownerId = u
  | secret row => row.ownerId = u
  | secrets rows => ∀ row ∈ rows, row.ownerId = u
  | _ => True

/-- What is about to be committed concerns rows of the user who has asked for it.  Only a
registration and a tick work for nobody in particular. -/
def RequestWork.Sound (issued : List (Uuid × Uuid)) (user : Option Uuid) : RequestWork → Prop
  | .answer response => ∀ u, user = some u → response.OwnedBy u
  | .stream userId runId => user = some userId ∧ (runId, userId) ∈ issued
  | .insertUser _ => user = none
  | .insertPipeline row => user = some row.ownerId
  | .editPipeline loaded _ => user = some loaded.ownerId ∧ (loaded.id, loaded.ownerId) ∈ issued
  | .removePipeline row => user = some row.ownerId ∧ (row.id, row.ownerId) ∈ issued
  | .insertRun row => user = some row.ownerId ∧ (row.pipelineId, row.ownerId) ∈ issued
  | .insertSecret row => user = some row.ownerId
  | .editSecret loaded _ => user = some loaded.ownerId ∧ (loaded.id, loaded.ownerId) ∈ issued
  | .removeSecret row => user = some row.ownerId
  | .schedule (.insert row) => user = some row.ownerId ∧ (row.pipelineId, row.ownerId) ∈ issued
  | .schedule (.edit loaded _) =>
      user = some loaded.ownerId ∧ (loaded.id, loaded.ownerId) ∈ issued
  | .schedule (.remove row) => user = some row.ownerId ∧ (row.id, row.ownerId) ∈ issued
  | .schedule (.refused _) => True
  | .schedule (.tick t) => user = none ∧
      (∀ schedule ∈ t.pending, (schedule.pipelineId, schedule.ownerId) ∈ issued) ∧
      ∀ run ∈ t.runs, (run.pipelineId, run.ownerId) ∈ issued

/-- What is carried out for a user: on their rows it leaves and answers the same as on all
rows, and the rows of everybody else stay as they are. -/
structure ActsFor (u : Uuid) (f : Calendar → Calendar × Followup) (c : Calendar) : Prop where
  within : f (c.of u) = ((f c).1.of u, (f c).2)
  others : ∀ v, v ≠ u → (f c).1.tables.of v = c.tables.of v

private theorem actsFor_unchanged (u : Uuid) (followup : Followup) (c : Calendar) :
    ActsFor u (fun c => (c, followup)) c :=
  ⟨rfl, fun _ _ => rfl⟩

section

variable {u : Uuid} {f g : Calendar → Calendar × Followup}

/-- Both branches are for the user, and the choice between them is the same. -/
theorem ActsFor.ite {p : Calendar → Prop} [DecidablePred p] (hp : p (c.of u) ↔ p c)
    (hf : p c → ActsFor u f c) (hg : ¬ p c → ActsFor u g c) :
    ActsFor u (fun c => if p c then f c else g c) c := by
  by_cases hc : p c
  · constructor
    · simp only [if_pos hc, if_pos (hp.mpr hc), (hf hc).within]
    · intro v hv
      simp only [if_pos hc, (hf hc).others v hv]
  · have hc' : ¬ p (c.of u) := fun h => hc (hp.mp h)
    constructor
    · simp only [if_neg hc, if_neg hc', (hg hc).within]
    · intro v hv
      simp only [if_neg hc, (hg hc).others v hv]

private theorem actsFor_pipelines {change : List Pipeline → List Pipeline}
    (h : LocalChange Pipeline.ownerId u change c.tables.pipelines) (followup : Followup) :
    ActsFor u (fun c => ({ c with tables := { c.tables with
      pipelines := change c.tables.pipelines } }, followup)) c := by
  constructor
  · simp only [Calendar.of, Tables.of, Tables.runIds, h.self]
  · intro v hv
    simp only [Tables.of, Tables.runIds, h.others v hv]

private theorem actsFor_schedules {change : List Schedule → List Schedule}
    (h : LocalChange Schedule.ownerId u change c.tables.schedules) (followup : Followup) :
    ActsFor u (fun c => ({ c with tables := { c.tables with
      schedules := change c.tables.schedules } }, followup)) c := by
  constructor
  · simp only [Calendar.of, Tables.of, Tables.runIds, h.self]
  · intro v hv
    simp only [Tables.of, Tables.runIds, h.others v hv]

private theorem actsFor_secrets {change : List Secret → List Secret}
    (h : LocalChange Secret.ownerId u change c.tables.secrets) (followup : Followup) :
    ActsFor u (fun c => ({ c with tables := { c.tables with
      secrets := change c.tables.secrets } }, followup)) c := by
  constructor
  · simp only [Calendar.of, Tables.of, Tables.runIds, h.self]
  · intro v hv
    simp only [Tables.of, Tables.runIds, h.others v hv]

end

variable {u : Uuid}

private theorem insertPipeline_actsFor (h : c.tables.Sound issued) {row : Pipeline}
    (howner : row.ownerId = u) (hnew : row.id ∉ issued.map Prod.fst) :
    ActsFor u (Commit.insertPipeline · row) c := by
  have hfresh := notMem_keys_of_fresh h.pipelines hnew
  refine .ite (iff_of_false (fun htaken => hfresh ?_) hfresh) (fun _ => actsFor_unchanged u _ c)
    fun _ => actsFor_pipelines (localChange_append howner) _
  exact (List.filter_sublist.map Pipeline.id).subset htaken

private theorem editPipeline_actsFor (h : c.tables.Sound issued) {loaded : Pipeline}
    (hid : (loaded.id, u) ∈ issued) (assigned : Pipeline) :
    ActsFor u (Commit.editPipeline · loaded assigned) c := by
  have howned := h.ownsPipeline hid
  refine .ite Iff.rfl (fun _ => actsFor_unchanged u _ c) fun _ => ?_
  refine .ite (mem_keys_rowsOf howned) (fun _ => ?_) fun _ => actsFor_unchanged u _ c
  exact actsFor_pipelines (localChange_edit howned (writePipeline loaded assigned) fun _ _ _ => rfl) _

/-- The log lines and errors of deleted runs go with them. -/
theorem mem_runIds_deletePipeline {tables : Tables} {id runId : Uuid}
    (hkept : runId ∉ (tables.runs.filter fun row => row.pipelineId = id).map RunRow.id)
    (v : Uuid) : runId ∈ (tables.deletePipeline id).runIds v ↔ runId ∈ tables.runIds v := by
  simp only [Tables.mem_runIds]
  constructor
  · rintro ⟨row, hrow, howner, hkey⟩
    exact ⟨row, (List.mem_filter.mp hrow).1, howner, hkey⟩
  · rintro ⟨row, hrow, howner, rfl⟩
    refine ⟨row, List.mem_filter.mpr ⟨hrow, ?_⟩, howner, rfl⟩
    by_contra hgone
    exact hkept (List.mem_map_of_mem (List.mem_filter.mpr ⟨hrow, by simpa using hgone⟩))

private theorem removePipeline_actsFor (h : c.tables.Sound issued) {id : Uuid}
    (hid : (id, u) ∈ issued) :
    ActsFor u (fun c => ({ c with tables := c.tables.deletePipeline id }, .answered .noContent))
      c := by
  have hruns : KeyOwned RunRow.ownerId RunRow.pipelineId c.tables.runs id u := by
    intro row hrow hkey
    exact owner_unique h.unique (hkey ▸ (h.runPipelines row hrow).1) hid
  have hschedules : KeyOwned Schedule.ownerId Schedule.pipelineId c.tables.schedules id u := by
    intro row hrow hkey
    exact owner_unique h.unique (hkey ▸ (h.schedulePipelines row hrow).1) hid
  have hpipelines := localChange_remove (h.ownsPipeline hid)
  have hchildren : ∀ {β : Type} (parent : β → Uuid) (children : List β) (v : Uuid),
      rowsUnder parent ((c.tables.deletePipeline id).runIds v) (children.filter fun row =>
        parent row ∉ (c.tables.runs.filter fun row => row.pipelineId = id).map RunRow.id) =
      (rowsUnder parent (c.tables.runIds v) children).filter fun row =>
        parent row ∉ (c.tables.runs.filter fun row => row.pipelineId = id).map RunRow.id := by
    intro β parent children v
    rw [← rowsUnder_filter]
    apply rowsUnder_congr
    intro row hrow
    have hkept := (List.mem_filter.mp hrow).2
    exact mem_runIds_deletePipeline (by simpa using hkept) v
  have hothers : ∀ {β : Type} (parent : β → Uuid) (children : List β) (v : Uuid), v ≠ u →
      ((rowsUnder parent (c.tables.runIds v) children).filter fun row =>
        parent row ∉ (c.tables.runs.filter fun row => row.pipelineId = id).map RunRow.id) =
      rowsUnder parent (c.tables.runIds v) children := by
    intro β parent children v hv
    rw [List.filter_eq_self]
    intro row hrow
    rcases Tables.mem_runIds.mp (mem_rowsUnder.mp hrow).2 with ⟨run, hrun, howner, hkey⟩
    simp only [List.mem_map, List.mem_filter, decide_eq_true_eq]
    rintro ⟨gone, ⟨hmem, hpipeline⟩, hsame⟩
    have hrecorded := h.runs gone hmem
    rw [hsame, ← hkey, hruns gone hmem hpipeline] at hrecorded
    have howner' := owner_unique h.unique hrecorded (h.runs run hrun)
    exact hv (howner.symm.trans howner'.symm)
  have hself : (c.tables.of u).deletePipeline id = (c.tables.deletePipeline id).of u := by
    have hgone := filter_rowsOf hruns
    apply Tables.ext
    · rfl
    · exact hpipelines.self.symm
    · exact (localChange_remove hruns).self.symm
    · simp only [Tables.deletePipeline, Tables.of, hgone]
      exact (hchildren LogRow.runId c.tables.logs u).symm
    · simp only [Tables.deletePipeline, Tables.of, hgone]
      exact (hchildren ErrorRow.runId c.tables.errors u).symm
    · exact (localChange_remove hschedules).self.symm
    · rfl
  constructor
  · simp only [Calendar.of, hself]
  · intro v hv
    apply Tables.ext
    · rfl
    · exact hpipelines.others v hv
    · exact (localChange_remove hruns).others v hv
    · exact (hchildren LogRow.runId c.tables.logs v).trans (hothers _ _ v hv)
    · exact (hchildren ErrorRow.runId c.tables.errors v).trans (hothers _ _ v hv)
    · exact (localChange_remove hschedules).others v hv
    · rfl

private theorem insertRun_actsFor (h : c.tables.Sound issued) {row : RunRow}
    (howner : row.ownerId = u)
    (hpipeline : (row.pipelineId, u) ∈ issued) (hnew : row.id ∉ issued.map Prod.fst) :
    ActsFor u (Commit.insertRun app · row) c := by
  have hfresh := notMem_keys_of_fresh h.runs hnew
  have hfresh' : row.id ∉ (c.of u).tables.runs.map RunRow.id := fun htaken =>
    hfresh ((List.filter_sublist.map RunRow.id).subset htaken)
  have hexists : row.pipelineId ∈ (c.of u).tables.pipelines.map Pipeline.id ↔
      row.pipelineId ∈ c.tables.pipelines.map Pipeline.id :=
    mem_keys_rowsOf (h.ownsPipeline hpipeline)
  have hruns : LocalChange RunRow.ownerId u (· ++ [row]) c.tables.runs := localChange_append howner
  have hchildren : ∀ {β : Type} (parent : β → Uuid) (children : List β) (v : Uuid),
      (∀ child ∈ children, parent child ∈ c.tables.runs.map RunRow.id) →
      rowsUnder parent ((rowsOf RunRow.ownerId v (c.tables.runs ++ [row])).map RunRow.id) children =
        rowsUnder parent (c.tables.runIds v) children := by
    intro β parent children v hexist
    apply rowsUnder_congr
    intro child hchild
    have hne : parent child ≠ row.id := fun heq => hfresh (heq ▸ hexist child hchild)
    by_cases hv : row.ownerId = v
    · simp [rowsOf, Tables.runIds, hv, hne]
    · simp [rowsOf, Tables.runIds, hv]
  refine .ite ?_ (fun _ => actsFor_unchanged u _ c) fun _ => ?_
  · simp only [hfresh, hfresh', false_or, hexists]
  · constructor
    · simp only [Calendar.of, Prod.mk.injEq, and_true]
      congr 1
      apply Tables.ext
      · rfl
      · rfl
      · exact hruns.self.symm
      · exact (hchildren _ _ u h.logs).symm
      · exact (hchildren _ _ u h.errors).symm
      · rfl
      · rfl
    · intro v hv
      apply Tables.ext
      · rfl
      · rfl
      · exact hruns.others v hv
      · exact hchildren _ _ v h.logs
      · exact hchildren _ _ v h.errors
      · rfl
      · rfl

private theorem insertSecret_actsFor (h : c.tables.Sound issued) {row : Secret}
    (howner : row.ownerId = u)
    (hnew : row.id ∉ issued.map Prod.fst) : ActsFor u (Commit.insertSecret · row) c := by
  have hfresh := notMem_keys_of_fresh h.secrets hnew
  have hfresh' : row.id ∉ (c.of u).tables.secrets.map Secret.id := fun htaken =>
    hfresh ((List.filter_sublist.map Secret.id).subset htaken)
  have hsame : (c.of u).tables.ownedSecret? row.ownerId row.ref =
      c.tables.ownedSecret? row.ownerId row.ref := by
    rw [howner]
    exact Tables.ownedSecret?_of row.ref
  refine .ite ?_ (fun _ => actsFor_unchanged u _ c) fun _ =>
    actsFor_secrets (localChange_append howner) _
  simp only [hfresh, hfresh', false_or, hsame]

private theorem editSecret_actsFor (h : c.tables.Sound issued) {loaded : Secret}
    (hid : (loaded.id, u) ∈ issued) (assigned : Secret) :
    ActsFor u (Commit.editSecret · loaded assigned) c := by
  have howned := h.ownsSecret hid
  refine .ite Iff.rfl (fun _ => actsFor_unchanged u _ c) fun _ => ?_
  refine .ite (mem_keys_rowsOf howned) (fun _ => ?_) fun _ => actsFor_unchanged u _ c
  exact actsFor_secrets (localChange_edit howned (writeSecret loaded assigned) fun _ _ _ => rfl) _

private theorem removeSecret_actsFor {row : Secret} (howner : row.ownerId = u) :
    ActsFor u (Commit.removeSecret · row) c := by
  refine actsFor_secrets (localChange_filter ?_) _
  intro stored _ hdeleted
  have hboth : stored.ownerId = row.ownerId ∧ stored.ref = row.ref := by simpa using hdeleted
  exact hboth.1.trans howner

/-- A commit keeps the columns that say what a schedule is for. -/
theorem writeChanged_keys (changed : List (Schedule × Schedule)) (stored : Schedule) :
    (writeChanged changed stored).id = stored.id ∧
      (writeChanged changed stored).pipelineId = stored.pipelineId ∧
      (writeChanged changed stored).ownerId = stored.ownerId := by
  unfold writeChanged
  split <;> exact ⟨rfl, rfl, rfl⟩

private theorem insertSchedule_actsFor (h : c.tables.Sound issued) {row : Schedule}
    (howner : row.ownerId = u) (hpipeline : (row.pipelineId, u) ∈ issued)
    (hnew : row.id ∉ issued.map Prod.fst) : ActsFor u (Commit.insertSchedule · row) c := by
  have hfresh := notMem_keys_of_fresh h.schedules hnew
  have hfresh' : row.id ∉ (c.of u).tables.schedules.map Schedule.id := fun htaken =>
    hfresh ((List.filter_sublist.map Schedule.id).subset htaken)
  have hexists : row.pipelineId ∈ (c.of u).tables.pipelines.map Pipeline.id ↔
      row.pipelineId ∈ c.tables.pipelines.map Pipeline.id :=
    mem_keys_rowsOf (h.ownsPipeline hpipeline)
  have hcommit : ∀ d : Calendar, row.id ∉ d.tables.schedules.map Schedule.id →
      commitSchedules (.insert row) d = { d with tables := { d.tables with
        schedules := d.tables.schedules ++ [row] } } := fun _ htaken => if_neg htaken
  refine .ite ?_ (fun _ => actsFor_unchanged u _ c) fun _ => ?_
  · simp only [hfresh, hfresh', false_or, hexists]
  · have hinsert := actsFor_schedules (localChange_append howner) (.refreshing (.schedule row.id))
      (c := c)
    constructor
    · simpa only [hcommit _ hfresh, hcommit _ hfresh'] using hinsert.within
    · simpa only [hcommit _ hfresh] using hinsert.others

private theorem editSchedule_actsFor (h : c.tables.Sound issued) {loaded : Schedule}
    (hid : (loaded.id, u) ∈ issued) (assigned : Schedule) :
    ActsFor u (Commit.editSchedule · loaded assigned) c := by
  have howned := h.ownsSchedule hid
  refine .ite Iff.rfl (fun _ => actsFor_unchanged u _ c) fun _ => ?_
  refine .ite (mem_keys_rowsOf howned) (fun _ => ?_) fun _ => actsFor_unchanged u _ c
  refine actsFor_schedules (localChange_map (fun row _ => (writeChanged_keys _ row).2.2) ?_) _
  intro row hrow howner
  have hne : ¬ loaded.id = row.id := fun hkey => howner (howned row hrow hkey.symm)
  simp [writeChanged, hne]

private theorem removeSchedule_actsFor (h : c.tables.Sound issued) {row : Schedule}
    (hid : (row.id, u) ∈ issued) :
    ActsFor u (fun c => (commitSchedules (.remove row) c, .answered .noContent)) c :=
  actsFor_schedules (localChange_remove (h.ownsSchedule hid)) _

/-- A commit changes the rows of its user only. -/
theorem commitRequest_actsFor (h : c.tables.Sound issued) {work : RequestWork}
    (hwork : work.Sound issued (some u)) (hids : NewIds issued work.newIds) :
    ActsFor u (commitRequest app · work) c := by
  have hnew : ∀ {id owner : Uuid}, (id, owner) ∈ work.newIds → id ∉ issued.map Prod.fst :=
    fun hmem => hids.2 _ (List.mem_map_of_mem hmem)
  cases work with
  | answer response => exact actsFor_unchanged u _ c
  | stream userId runId => exact actsFor_unchanged u _ c
  | insertUser row => cases hwork
  | insertPipeline row =>
      cases hwork
      exact insertPipeline_actsFor h rfl (hnew (List.mem_singleton_self _))
  | editPipeline loaded assigned =>
      rcases hwork with ⟨⟨⟩, hid⟩
      exact editPipeline_actsFor h hid assigned
  | removePipeline row =>
      rcases hwork with ⟨⟨⟩, hid⟩
      exact removePipeline_actsFor h hid
  | insertRun row =>
      rcases hwork with ⟨⟨⟩, hpipeline⟩
      exact insertRun_actsFor h rfl hpipeline (hnew (List.mem_singleton_self _))
  | insertSecret row =>
      cases hwork
      exact insertSecret_actsFor h rfl (hnew (List.mem_singleton_self _))
  | editSecret loaded assigned =>
      rcases hwork with ⟨⟨⟩, hid⟩
      exact editSecret_actsFor h hid assigned
  | removeSecret row =>
      cases hwork
      exact removeSecret_actsFor rfl
  | schedule work =>
      cases work with
      | insert row =>
          rcases hwork with ⟨⟨⟩, hpipeline⟩
          exact insertSchedule_actsFor h rfl hpipeline (hnew (List.mem_singleton_self _))
      | edit loaded assigned =>
          rcases hwork with ⟨⟨⟩, hid⟩
          exact editSchedule_actsFor h hid assigned
      | remove row =>
          rcases hwork with ⟨⟨⟩, hid⟩
          exact removeSchedule_actsFor h hid
      | refused reason => exact actsFor_unchanged u _ c
      | tick t => cases hwork.1

/-! ## Owners after a commit -/

namespace Tables.Sound

variable {tables : Tables}

/-- New ids can be recorded. -/
theorem extend (h : tables.Sound issued) {new : List (Uuid × Uuid)} (hids : NewIds issued new) :
    tables.Sound (issued ++ new) where
  unique := by
    rw [List.map_append, List.nodup_append']
    refine ⟨h.unique, hids.1, ?_⟩
    intro id hold hid
    exact hids.2 id hid hold
  pipelines := fun row hrow => List.mem_append_left _ (h.pipelines row hrow)
  runs := fun row hrow => List.mem_append_left _ (h.runs row hrow)
  runPipelines := fun row hrow =>
    ⟨List.mem_append_left _ (h.runPipelines row hrow).1, (h.runPipelines row hrow).2⟩
  schedules := fun row hrow => List.mem_append_left _ (h.schedules row hrow)
  schedulePipelines := fun row hrow =>
    ⟨List.mem_append_left _ (h.schedulePipelines row hrow).1, (h.schedulePipelines row hrow).2⟩
  secrets := fun row hrow => List.mem_append_left _ (h.secrets row hrow)
  logs := h.logs
  errors := h.errors

variable (h : tables.Sound issued)

include h

/-- Pipelines are added or changed; none is lost. -/
theorem setPipelines {rows : List Pipeline} (hrows : ∀ row ∈ rows, (row.id, row.ownerId) ∈ issued)
    (hkept : tables.pipelines.map Pipeline.id ⊆ rows.map Pipeline.id) :
    Sound issued { tables with pipelines := rows } :=
  { h with
    pipelines := hrows
    runPipelines := fun row hrow =>
      ⟨(h.runPipelines row hrow).1, hkept (h.runPipelines row hrow).2⟩
    schedulePipelines := fun row hrow =>
      ⟨(h.schedulePipelines row hrow).1, hkept (h.schedulePipelines row hrow).2⟩ }

private theorem setSecrets {rows : List Secret}
    (hrows : ∀ row ∈ rows, (row.id, row.ownerId) ∈ issued) :
    Sound issued { tables with secrets := rows } :=
  { h with secrets := hrows }

private theorem setSchedules {rows : List Schedule}
    (hrows : ∀ row ∈ rows, (row.id, row.ownerId) ∈ issued)
    (hpipelines : ∀ row ∈ rows, (row.pipelineId, row.ownerId) ∈ issued ∧
      row.pipelineId ∈ tables.pipelines.map Pipeline.id) :
    Sound issued { tables with schedules := rows } :=
  { h with schedules := hrows, schedulePipelines := hpipelines }

private theorem insertRuns {rows : List RunRow}
    (hrows : ∀ row ∈ rows, (row.id, row.ownerId) ∈ issued)
    (hpipelines : ∀ row ∈ rows, (row.pipelineId, row.ownerId) ∈ issued ∧
      row.pipelineId ∈ tables.pipelines.map Pipeline.id) :
    Sound issued { tables with runs := tables.runs ++ rows } :=
  { h with
    runs := List.forall_mem_append.mpr ⟨h.runs, hrows⟩
    runPipelines := List.forall_mem_append.mpr ⟨h.runPipelines, hpipelines⟩
    logs := fun row hrow => by
      rw [List.map_append]
      exact List.mem_append_left _ (h.logs row hrow)
    errors := fun row hrow => by
      rw [List.map_append]
      exact List.mem_append_left _ (h.errors row hrow) }

/-- Deleting a pipeline with what hangs on it keeps the tables sound. -/
theorem deletePipeline (id : Uuid) : (tables.deletePipeline id).Sound issued := by
  have hpipeline : ∀ pipelineId ≠ id, pipelineId ∈ tables.pipelines.map Pipeline.id →
      pipelineId ∈ (tables.deletePipeline id).pipelines.map Pipeline.id := by
    intro pipelineId hne hmem
    rcases List.mem_map.mp hmem with ⟨row, hrow, rfl⟩
    exact List.mem_map_of_mem (List.mem_filter.mpr ⟨hrow, by simpa using hne⟩)
  have hrun : ∀ runId, runId ∈ tables.runs.map RunRow.id →
      runId ∉ (tables.runs.filter fun row => row.pipelineId = id).map RunRow.id →
      runId ∈ (tables.deletePipeline id).runs.map RunRow.id := by
    intro runId hmem hkept
    rcases List.mem_map.mp hmem with ⟨row, hrow, rfl⟩
    refine List.mem_map_of_mem (List.mem_filter.mpr ⟨hrow, ?_⟩)
    by_contra hgone
    exact hkept (List.mem_map_of_mem (List.mem_filter.mpr ⟨hrow, by simpa using hgone⟩))
  constructor
  · exact h.unique
  · exact fun row hrow => h.pipelines row (List.mem_filter.mp hrow).1
  · exact fun row hrow => h.runs row (List.mem_filter.mp hrow).1
  · intro row hrow
    rcases List.mem_filter.mp hrow with ⟨hmem, hne⟩
    rcases h.runPipelines row hmem with ⟨hrecorded, hexists⟩
    exact ⟨hrecorded, hpipeline _ (by simpa using hne) hexists⟩
  · exact fun row hrow => h.schedules row (List.mem_filter.mp hrow).1
  · intro row hrow
    rcases List.mem_filter.mp hrow with ⟨hmem, hne⟩
    rcases h.schedulePipelines row hmem with ⟨hrecorded, hexists⟩
    exact ⟨hrecorded, hpipeline _ (by simpa using hne) hexists⟩
  · exact h.secrets
  · intro row hrow
    rcases List.mem_filter.mp hrow with ⟨hmem, hkept⟩
    exact hrun _ (h.logs row hmem) (by simpa using hkept)
  · intro row hrow
    rcases List.mem_filter.mp hrow with ⟨hmem, hkept⟩
    exact hrun _ (h.errors row hmem) (by simpa using hkept)

/-- A change of schedules keeps the columns that say what they are for. -/
theorem mapSchedules (changed : List (Schedule × Schedule)) :
    Sound issued { tables with schedules := tables.schedules.map (writeChanged changed) } := by
  apply h.setSchedules
  · intro row hrow
    rcases List.mem_map.mp hrow with ⟨stored, hstored, rfl⟩
    rcases writeChanged_keys changed stored with ⟨hid, _, howner⟩
    rw [hid, howner]
    exact h.schedules stored hstored
  · intro row hrow
    rcases List.mem_map.mp hrow with ⟨stored, hstored, rfl⟩
    rcases writeChanged_keys changed stored with ⟨_, hpipeline, howner⟩
    rw [hpipeline, howner]
    exact h.schedulePipelines stored hstored

end Tables.Sound

section

variable (h : c.tables.Sound issued)

include h

private theorem insertPipeline_sound {row : Pipeline} (hid : (row.id, row.ownerId) ∈ issued) :
    (Commit.insertPipeline c row).1.tables.Sound issued := by
  unfold Commit.insertPipeline
  split
  · exact h
  · apply h.setPipelines
    · exact List.forall_mem_append.mpr ⟨h.pipelines, List.forall_mem_singleton.mpr hid⟩
    · rw [List.map_append]
      exact List.subset_append_left ..

private theorem editPipeline_sound (loaded assigned : Pipeline) :
    (Commit.editPipeline c loaded assigned).1.tables.Sound issued := by
  have hkeys : ∀ row : Pipeline,
      (if row.id = loaded.id then writePipeline loaded assigned row else row).id = row.id ∧
      (if row.id = loaded.id then writePipeline loaded assigned row else row).ownerId =
        row.ownerId := by
    intro row
    split <;> exact ⟨rfl, rfl⟩
  unfold Commit.editPipeline
  split
  · exact h
  · split
    · apply h.setPipelines
      · intro row hrow
        rcases List.mem_map.mp hrow with ⟨stored, hstored, rfl⟩
        rw [(hkeys stored).1, (hkeys stored).2]
        exact h.pipelines stored hstored
      · rw [List.map_map]
        intro id hid
        rcases List.mem_map.mp hid with ⟨stored, hstored, rfl⟩
        exact List.mem_map.mpr ⟨stored, hstored, (hkeys stored).1⟩
    · exact h

private theorem insertRun_sound {row : RunRow} (hid : (row.id, row.ownerId) ∈ issued)
    (hpipeline : (row.pipelineId, row.ownerId) ∈ issued) :
    (Commit.insertRun app c row).1.tables.Sound issued := by
  unfold Commit.insertRun
  split
  · exact h
  · rename_i hok
    rw [not_or, not_not] at hok
    exact h.insertRuns (List.forall_mem_singleton.mpr hid)
      (List.forall_mem_singleton.mpr ⟨hpipeline, hok.2⟩)

private theorem insertSecret_sound {row : Secret} (hid : (row.id, row.ownerId) ∈ issued) :
    (Commit.insertSecret c row).1.tables.Sound issued := by
  unfold Commit.insertSecret
  split
  · exact h
  · exact h.setSecrets (List.forall_mem_append.mpr ⟨h.secrets, List.forall_mem_singleton.mpr hid⟩)

private theorem editSecret_sound (loaded assigned : Secret) :
    (Commit.editSecret c loaded assigned).1.tables.Sound issued := by
  unfold Commit.editSecret
  split
  · exact h
  · split
    · apply h.setSecrets
      intro row hrow
      rcases List.mem_map.mp hrow with ⟨stored, hstored, rfl⟩
      split <;> exact h.secrets stored hstored
    · exact h

private theorem insertSchedule_sound {row : Schedule} (hid : (row.id, row.ownerId) ∈ issued)
    (hpipeline : (row.pipelineId, row.ownerId) ∈ issued) :
    (Commit.insertSchedule c row).1.tables.Sound issued := by
  unfold Commit.insertSchedule
  split
  · exact h
  · rename_i hok
    rw [not_or, not_not] at hok
    simp only [commitSchedules, if_neg hok.1]
    apply h.setSchedules
    · exact List.forall_mem_append.mpr ⟨h.schedules, List.forall_mem_singleton.mpr hid⟩
    · exact List.forall_mem_append.mpr
        ⟨h.schedulePipelines, List.forall_mem_singleton.mpr ⟨hpipeline, hok.2⟩⟩

private theorem editSchedule_sound (loaded assigned : Schedule) :
    (Commit.editSchedule c loaded assigned).1.tables.Sound issued := by
  unfold Commit.editSchedule
  split
  · exact h
  · split
    · exact h.mapSchedules _
    · exact h

/-- The runs of a tick belong to the owners of their schedules. -/
theorem tick_sound {t : Tick} (hids : ∀ run ∈ t.runs, (run.id, run.ownerId) ∈ issued)
    (hpipelines : ∀ run ∈ t.runs, (run.pipelineId, run.ownerId) ∈ issued) :
    (Commit.tick c t).1.tables.Sound issued := by
  unfold Commit.tick
  split
  · rename_i hexist
    unfold commitSchedules
    dsimp only
    split
    · exact (h.mapSchedules t.changed).insertRuns hids
        fun run hrun => ⟨hpipelines run hrun, hexist run hrun⟩
    · exact h
  · exact h

end

/-- Every run and every schedule keeps belonging to the owner of its pipeline. -/
theorem commitRequest_sound (h : c.tables.Sound issued) {user : Option Uuid}
    {work : RequestWork} (hwork : work.Sound issued user) (hids : NewIds issued work.newIds) :
    (commitRequest app c work).1.tables.Sound (issued ++ work.newIds) := by
  have hnew := h.extend hids
  have hid : ∀ {entry : Uuid × Uuid}, entry ∈ work.newIds → entry ∈ issued ++ work.newIds :=
    fun hmem => List.mem_append_right _ hmem
  have hold : ∀ {entry : Uuid × Uuid}, entry ∈ issued → entry ∈ issued ++ work.newIds :=
    fun hmem => List.mem_append_left _ hmem
  cases work with
  | answer response => exact hnew
  | stream userId runId => exact hnew
  | insertUser row =>
      unfold commitRequest Commit.insertUser
      dsimp only
      split
      · exact hnew
      · exact { hnew with }
  | insertPipeline row => exact insertPipeline_sound hnew (hid (List.mem_singleton_self _))
  | editPipeline loaded assigned => exact editPipeline_sound hnew loaded assigned
  | removePipeline row => exact hnew.deletePipeline row.id
  | insertRun row => exact insertRun_sound hnew (hid (List.mem_singleton_self _)) (hold hwork.2)
  | insertSecret row => exact insertSecret_sound hnew (hid (List.mem_singleton_self _))
  | editSecret loaded assigned => exact editSecret_sound hnew loaded assigned
  | removeSecret row =>
      exact hnew.setSecrets fun stored hstored => hnew.secrets stored (List.mem_filter.mp hstored).1
  | schedule work =>
      cases work with
      | insert row =>
          exact insertSchedule_sound hnew (hid (List.mem_singleton_self _)) (hold hwork.2)
      | edit loaded assigned => exact editSchedule_sound hnew loaded assigned
      | remove row =>
          exact hnew.setSchedules
            (fun stored hstored => hnew.schedules stored (List.mem_filter.mp hstored).1)
            fun stored hstored => hnew.schedulePipelines stored (List.mem_filter.mp hstored).1
      | refused reason => exact hnew
      | tick t =>
          refine tick_sound hnew (fun run hrun => hid ?_) fun run hrun => hold (hwork.2.2 run hrun)
          exact List.mem_map.mpr ⟨run, hrun, rfl⟩

end EtlTool
