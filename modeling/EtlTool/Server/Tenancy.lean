import EtlTool.Server.ScheduleFiring
import EtlTool.Server.TenantTables

/-!
# Tenancy

Several users share one server.  Whatever they ask for, in any order and at the same
time as the scheduler ticks and workers execute their runs, every run and every schedule
belongs to the owner of its pipeline, a worker uses the secrets of the owner of the
pipeline that it executes, and a user sees and changes the rows of nobody else.

Main results:

- Theorem {lit}`Server.Inv.next`: every step keeps the rows and the sessions with their
  owners.
- Theorem {lit}`Server.Inv.confined`: a step for a user is a step on their rows, and
  leaves the rows of the others.
- Theorem {lit}`tenants_isolated`: the same in every state that the server can reach.
-/

namespace EtlTool

open OwnedRows Interleaving

variable {issued : List (Uuid × Uuid)} {tables : Tables} {u : Uuid}

/-! ## Steps of a worker -/

/-- A step of a worker leaves the owner of its run. -/
theorem Worker.Step.ownerId {d : Deployment} {db db' : Database} {p p' : Phase}
    (h : Worker.Step d db p db' p') : db'.run.map Run.ownerId = db.run.map Run.ownerId := by
  have hcommit : ∀ {loaded assigned : Run} {errors : List NodeError} {db' : Database},
      Worker.commit db loaded assigned errors = .ok db' →
      db'.run.map Run.ownerId = db.run.map Run.ownerId := by
    intro loaded assigned errors db' hok
    rcases Worker.commit_eq_ok.mp hok with ⟨stored, hrun, rfl⟩
    simp [hrun, Worker.writeRun]
  cases h with
  | rejected loaded _ hok => exact hcommit hok
  | claimed loaded spec _ hok => exact hcommit hok
  | failed loaded ref _ hok => exact hcommit hok
  | finished loaded result _ hok =>
      rcases Worker.finish_eq_ok.mp hok with ⟨json, _, _, _, hok⟩
      exact hcommit hok
  | _ => rfl

/-- A worker's step on the secrets keeps the owner of the run. -/
theorem Worker.stepResolving_ownerId {d : Deployment} {db db' : Database} {p p' : Phase}
    {a : WorkerAction} (h : Worker.stepResolving d db p a = some (db', p')) :
    db'.run.map Run.ownerId = db.run.map Run.ownerId := by
  unfold Worker.stepResolving at h
  split at h
  · rename_i hstep
    cases h
    exact (Worker.step_spec hstep).ownerId
  · exact (Worker.step_spec h).ownerId

namespace Tables

/-- A worker that keeps the owner of its run changes rows of this owner only. -/
structure Keeps (tables : Tables) (runId u : Uuid) (db : Database) : Prop where
  owned : ∀ row ∈ tables.runs, row.id = runId → row.ownerId = u
  owner : ∀ row ∈ tables.runs, (settled runId db row).ownerId = row.ownerId
  mine : runId ∈ tables.runIds u
  notTheirs : ∀ v, v ≠ u → runId ∉ tables.runIds v

/-- A database with the run's owner unchanged keeps the user's part of the tables. -/
theorem Sound.keeps (h : tables.Sound issued) {runId : Uuid} (hid : (runId, u) ∈ issued)
    {db : Database} (hexists : (tables.run? runId).isSome)
    (howner : db.run.map Run.ownerId = (tables.view runId).run.map Run.ownerId) :
    tables.Keeps runId u db := by
  have howned := h.ownsRun hid
  rcases Option.isSome_iff_exists.mp hexists with ⟨found, hfound⟩
  rcases mem_of_run? hfound with ⟨hmem, hkey⟩
  have hfoundOwner := howned found hmem hkey
  refine ⟨howned, ?_, mem_runIds.mpr ⟨found, hmem, hfoundOwner, hkey⟩, ?_⟩
  · intro row hrow
    unfold settled
    split
    · rename_i hrowKey
      simp only [view, hfound, Option.map_some] at howner
      rcases Option.map_eq_some_iff.mp howner with ⟨run, hrun, hsame⟩
      simp only [RunRow.ownerId, hrun, Option.getD_some, hsame]
      exact hfoundOwner.trans (howned row hrow hrowKey).symm
    · rfl
  · intro v hv htheirs
    rcases mem_runIds.mp htheirs with ⟨row, hrow, hrowOwner, hrowKey⟩
    exact hv (hrowOwner.symm.trans (howned row hrow hrowKey))

namespace Keeps

variable {runId : Uuid} {db : Database} (h : tables.Keeps runId u db)

include h

private theorem localChange :
    LocalChange RunRow.ownerId u (List.map (settled runId db)) tables.runs := by
  apply localChange_map h.owner
  intro row hrow howner
  exact if_neg fun hkey => howner (h.owned row hrow hkey)

private theorem runIds_putBack (v : Uuid) :
    (tables.putBack runId db).runIds v = tables.runIds v := by
  change (rowsOf RunRow.ownerId v (tables.runs.map (settled runId db))).map RunRow.id = _
  by_cases hv : v = u
  · subst hv
    rw [h.localChange.self, List.map_map]
    exact List.map_congr_left fun row _ => (settled_keys runId db row).1
  · rw [h.localChange.others v hv]
    rfl

/-- The rows that hang on the run are the worker's, in the part of its owner. -/
theorem rowsUnder_self {β : Type} (parent : β → Uuid) (children mine : List β)
    (hmine : ∀ row ∈ mine, parent row = runId) :
    rowsUnder parent (tables.runIds u)
        ((children.filter fun row => ¬ parent row = runId) ++ mine) =
      ((rowsUnder parent (tables.runIds u) children).filter fun row => ¬ parent row = runId) ++
        mine := by
  have hall : rowsUnder parent (tables.runIds u) mine = mine :=
    rowsUnder_eq_self fun row hrow => (hmine row hrow).symm ▸ h.mine
  rw [rowsUnder_append, rowsUnder_filter, hall]

/-- The parts of the others do not have rows that hang on the run. -/
theorem rowsUnder_others {β : Type} (parent : β → Uuid) (children mine : List β)
    (hmine : ∀ row ∈ mine, parent row = runId) {v : Uuid} (hv : v ≠ u) :
    rowsUnder parent (tables.runIds v)
        ((children.filter fun row => ¬ parent row = runId) ++ mine) =
      rowsUnder parent (tables.runIds v) children := by
  have hnone : rowsUnder parent (tables.runIds v) mine = [] :=
    rowsUnder_eq_nil fun row hrow => (hmine row hrow).symm ▸ h.notTheirs v hv
  rw [rowsUnder_append, rowsUnder_filter, hnone, List.append_nil, List.filter_eq_self]
  intro row hrow
  have hparent := (mem_rowsUnder.mp hrow).2
  simp only [decide_eq_true_eq]
  intro hkey
  exact h.notTheirs v hv (hkey ▸ hparent)

private theorem putBack_of : (tables.of u).putBack runId db = (tables.putBack runId db).of u := by
  apply Tables.ext
  · rfl
  · rfl
  · exact h.localChange.self.symm
  · simp only [of, h.runIds_putBack]
    exact (h.rowsUnder_self LogRow.runId tables.logs _ (by simp)).symm
  · simp only [of, h.runIds_putBack]
    exact (h.rowsUnder_self ErrorRow.runId tables.errors _ (by simp)).symm
  · rfl
  · rfl

private theorem putBack_others {v : Uuid} (hv : v ≠ u) :
    (tables.putBack runId db).of v = tables.of v := by
  apply Tables.ext
  · rfl
  · rfl
  · exact h.localChange.others v hv
  · simp only [of, h.runIds_putBack]
    exact h.rowsUnder_others LogRow.runId tables.logs _ (by simp) hv
  · simp only [of, h.runIds_putBack]
    exact h.rowsUnder_others ErrorRow.runId tables.errors _ (by simp) hv
  · rfl
  · rfl

end Keeps

end Tables

/-- What a worker leaves keeps its owners. -/
theorem Tables.Sound.putBack (h : tables.Sound issued) {runId : Uuid} {db : Database}
    (hkeeps : tables.Keeps runId u db) : (tables.putBack runId db).Sound issued := by
  have hids : (tables.putBack runId db).runs.map RunRow.id = tables.runs.map RunRow.id := by
    change (tables.runs.map (settled runId db)).map RunRow.id = _
    rw [List.map_map]
    exact List.map_congr_left fun row _ => (settled_keys runId db row).1
  have hexists : runId ∈ tables.runs.map RunRow.id := by
    rcases mem_runIds.mp hkeeps.mine with ⟨row, hrow, _, rfl⟩
    exact List.mem_map_of_mem hrow
  constructor
  · exact h.unique
  · exact h.pipelines
  · intro row hrow
    rcases List.mem_map.mp hrow with ⟨stored, hstored, rfl⟩
    rw [(settled_keys runId db stored).1, hkeeps.owner stored hstored]
    exact h.runs stored hstored
  · intro row hrow
    rcases List.mem_map.mp hrow with ⟨stored, hstored, rfl⟩
    rw [(settled_keys runId db stored).2, hkeeps.owner stored hstored]
    exact h.runPipelines stored hstored
  · exact h.schedules
  · exact h.schedulePipelines
  · exact h.secrets
  · rw [hids]
    refine List.forall_mem_append.mpr ⟨fun row hrow => ?_, ?_⟩
    · exact h.logs row (List.mem_filter.mp hrow).1
    · exact List.forall_mem_map.mpr fun _ _ => hexists
  · rw [hids]
    refine List.forall_mem_append.mpr ⟨fun row hrow => ?_, ?_⟩
    · exact h.errors row (List.mem_filter.mp hrow).1
    · exact List.forall_mem_map.mpr fun _ _ => hexists

/-! ## Calls of the worker -/

/-- What a phase knows about the run and the pipeline of its call. -/
def Phase.Owned (issued : List (Uuid × Uuid)) (runId : Uuid) (pipeline : Option Pipeline) :
    Phase → Prop
  | sawRun loaded => (runId, loaded.ownerId) ∈ issued
  | sawPipeline loaded spec =>
      (runId, loaded.ownerId) ∈ issued ∧ spec = pipeline.map Pipeline.spec
  | claimed ownerId spec => ∃ row, pipeline = some row ∧ row.spec = spec ∧ row.ownerId = ownerId
  | _ => True

/-- The pipeline of a call belongs to the owner of its run. -/
structure WorkerCall.Sound (issued : List (Uuid × Uuid)) (call : WorkerCall) : Prop where
  pipeline : ∀ row, call.pipeline = some row → (call.runId, row.ownerId) ∈ issued
  phase : call.phase.Owned issued call.runId call.pipeline

/-- Only {lit}`readPipeline` loads a pipeline, and it follows on the read of the run. -/
theorem Worker.stepResolving_sawRun {d : Deployment} {db : Database} {loaded : Run}
    {a : WorkerAction} {next : Database × Phase}
    (h : Worker.stepResolving d db (.sawRun loaded) a = some next) :
    a = .readPipeline ∧ next = (db, .sawPipeline loaded db.pipelineSpec) := by
  cases a with
  | readPipeline =>
      cases h
      exact ⟨rfl, rfl⟩
  | _ => cases h

private theorem Worker.readPipeline_sawRun {d : Deployment} {db : Database} {p : Phase}
    {next : Database × Phase} (h : Worker.stepResolving d db p .readPipeline = some next) :
    ∃ loaded, p = .sawRun loaded := by
  cases p with
  | sawRun loaded => exact ⟨loaded, rfl⟩
  | sawPipeline loaded spec => cases spec <;> cases h
  | _ => cases h

private theorem Worker.resolve_owned (d : Deployment) (spec : PipelineSpec)
    (provider : SecretsProvider)
    (runId : Uuid) (pipeline : Option Pipeline) :
    (Worker.resolve d spec provider).Owned issued runId pipeline := by
  unfold Worker.resolve
  split
  · trivial
  · trivial
  · split <;> trivial

private theorem Phase.unstored_owned {phase : Phase} {runId : Uuid} {pipeline : Option Pipeline}
    (h : phase.Owned issued runId pipeline) : phase.unstored.Owned issued runId pipeline := by
  unfold Phase.unstored
  split
  · trivial
  · exact h

/-- A later phase knows the owner of the run from the earlier ones. -/
theorem Worker.step_owned {d : Deployment} {db db' : Database} {p p' : Phase} {runId : Uuid}
    {pipeline : Option Pipeline} (hunique : (issued.map Prod.fst).Nodup)
    (hrun : ∀ run, db.run = some run → (runId, run.ownerId) ∈ issued)
    (hpipeline : ∀ row, pipeline = some row → (runId, row.ownerId) ∈ issued)
    (hp : p.Owned issued runId pipeline) (hother : ∀ loaded, p ≠ .sawRun loaded)
    (h : Worker.Step d db p db' p') : p'.Owned issued runId pipeline := by
  cases h with
  | found run hfound _ => exact hrun run hfound
  | looked loaded => exact absurd rfl (hother loaded)
  | claimed loaded spec _ _ =>
      rcases hp with ⟨hloaded, hspec⟩
      rcases Option.map_eq_some_iff.mp hspec.symm with ⟨row, hrow, hsame⟩
      exact ⟨row, hrow, hsame, owner_unique hunique (hpipeline row hrow) hloaded⟩
  | resolved spec provider => exact Worker.resolve_owned d spec provider runId pipeline
  | landed outcome flight phase hland =>
      unfold Worker.land at hland
      split at hland <;> cases hland <;> trivial
  | _ => trivial

/-- The pipeline that is found over the row of a run belongs to the owner of the run. -/
theorem Tables.Sound.loaded_owner (h : tables.Sound issued) {runId : Uuid} {row : Pipeline}
    (hrow : ((tables.run? runId).bind fun run => tables.pipeline? run.pipelineId) = some row) :
    (runId, row.ownerId) ∈ issued := by
  rcases Option.bind_eq_some_iff.mp hrow with ⟨run, hrun, hpipeline⟩
  rcases mem_of_run? hrun with ⟨hmem, hkey⟩
  rcases mem_of_pipeline? hpipeline with ⟨hpipelineMem, hpipelineKey⟩
  have howner := h.ownsPipeline (h.runPipelines run hmem).1 row hpipelineMem hpipelineKey
  rw [howner, ← hkey]
  exact h.runs run hmem

private theorem Tables.Sound.view_run (h : tables.Sound issued) {runId : Uuid} {run : Run}
    (hrun : (tables.view runId).run = some run) : (runId, run.ownerId) ∈ issued := by
  rcases Option.map_eq_some_iff.mp hrun with ⟨row, hrow, rfl⟩
  rcases mem_of_run? hrow with ⟨hmem, hkey⟩
  exact hkey ▸ h.runs row hmem

/-- The user for whom a call works, from the read of its run on. -/
def WorkerCall.WorksFor (issued : List (Uuid × Uuid)) (call : WorkerCall) (u : Uuid) : Prop :=
  (call.runId, u) ∈ issued ∧ ∀ ownerId spec, call.phase = .claimed ownerId spec → ownerId = u

namespace WorkerCall

variable {call call' : WorkerCall} {d : Deployment} {a : WorkerAction} {tables' : Tables}

/-- A call works for the owner of the pipeline that it has loaded. -/
theorem Sound.worksFor (h : call.Sound issued) {row : Pipeline}
    (hrow : call.pipeline = some row) : call.WorksFor issued row.ownerId := by
  refine ⟨h.pipeline row hrow, fun ownerId spec hphase => ?_⟩
  have hclaimed := h.phase
  rw [hphase] at hclaimed
  rcases hclaimed with ⟨other, hother, _, howner⟩
  rw [hrow, Option.some.injEq] at hother
  rw [hother, howner]

/-- A step of a call. -/
theorem step_eq_some (h : call.step d tables a = some (tables', call')) :
    ∃ db phase, Worker.stepResolving { d with secretRows := tables.secretRows }
        (tables.view call.runId) call.phase a = some (db, phase) ∧
      call'.runId = call.runId ∧ call'.pipeline = call.loads tables a ∧
      (((tables.run? call.runId).isSome ∧ tables' = tables.putBack call.runId db ∧
          call'.phase = phase) ∨
        (tables' = tables ∧ (call'.phase = phase ∨ call'.phase = phase.unstored))) := by
  unfold step at h
  split at h
  · cases h
  · rename_i db phase hstep
    refine ⟨db, phase, hstep, ?_⟩
    split at h
    · rename_i hexists
      cases h
      exact ⟨rfl, rfl, .inl ⟨hexists, rfl, rfl⟩⟩
    · cases h
      refine ⟨rfl, rfl, .inr ⟨rfl, ?_⟩⟩
      dsimp only
      split
      · exact .inl rfl
      · exact .inr rfl

/-- A step of a call leaves the rows of everybody but the owner of its run. -/
theorem step_others (h : tables.Sound issued) (hid : (call.runId, u) ∈ issued)
    (hstep : call.step d tables a = some (tables', call')) {v : Uuid} (hv : v ≠ u) :
    tables'.of v = tables.of v := by
  rcases step_eq_some hstep with ⟨db, phase, hworker, _, _, ⟨hexists, rfl, _⟩ | ⟨rfl, _⟩⟩
  · exact (h.keeps hid hexists (Worker.stepResolving_ownerId hworker)).putBack_others hv
  · rfl

/-- A step of a call keeps every row with its owner. -/
theorem step_tables_sound (h : tables.Sound issued)
    (hstep : call.step d tables a = some (tables', call')) : tables'.Sound issued := by
  rcases step_eq_some hstep with ⟨db, phase, hworker, _, _, ⟨hexists, rfl, _⟩ | ⟨rfl, _⟩⟩
  · rcases Option.isSome_iff_exists.mp hexists with ⟨row, hrow⟩
    rcases Tables.mem_of_run? hrow with ⟨hmem, hkey⟩
    have hid : (call.runId, row.ownerId) ∈ issued := hkey ▸ h.runs row hmem
    exact h.putBack (h.keeps hid hexists (Worker.stepResolving_ownerId hworker))
  · exact h

/-- A step keeps a call with the owner of its run. -/
theorem Sound.step (hcall : call.Sound issued) (h : tables.Sound issued)
    (hstep : call.step d tables a = some (tables', call')) : call'.Sound issued := by
  rcases step_eq_some hstep with ⟨db, phase, hworker, hrunId, hpipeline, hphase⟩
  have hloads : ∀ row, call.loads tables a = some row → (call.runId, row.ownerId) ∈ issued := by
    intro row hrow
    cases a with
    | readPipeline => exact h.loaded_owner hrow
    | _ => exact hcall.pipeline row hrow
  have howned : phase.Owned issued call.runId (call.loads tables a) := by
    by_cases hsaw : ∃ loaded, call.phase = .sawRun loaded
    · rcases hsaw with ⟨loaded, hsaw⟩
      rw [hsaw] at hworker
      rcases Worker.stepResolving_sawRun hworker with ⟨rfl, hnext⟩
      cases hnext
      have hloaded := hcall.phase
      rw [hsaw] at hloaded
      refine ⟨hloaded, ?_⟩
      simp only [Tables.view, loads, Option.map_bind]
      rfl
    · have hother : ∀ loaded, call.phase ≠ .sawRun loaded := fun loaded heq => hsaw ⟨loaded, heq⟩
      have hkept : call.loads tables a = call.pipeline := by
        cases a with
        | readPipeline => exact absurd (Worker.readPipeline_sawRun hworker) hsaw
        | _ => rfl
      rw [hkept]
      unfold Worker.stepResolving at hworker
      split at hworker
      · cases hworker
        exact Worker.resolve_owned _ _ _ _ _
      · exact Worker.step_owned h.unique (fun run => h.view_run) hcall.pipeline hcall.phase hother
          (Worker.step_spec hworker)
  constructor
  · rw [hrunId, hpipeline]
    exact hloads
  · rw [hrunId, hpipeline]
    rcases hphase with ⟨_, _, hsame⟩ | ⟨_, hsame | hsame⟩
    · rwa [hsame]
    · rwa [hsame]
    · rw [hsame]
      exact Phase.unstored_owned howned

/-- A step of a call looks at the rows of the owner of its run only. -/
theorem step_of (h : tables.Sound issued) (hcall : call.WorksFor issued u) :
    call.step d (tables.of u) a =
      (call.step d tables a).map fun next => (next.1.of u, next.2) := by
  rcases hcall with ⟨hid, hclaimed⟩
  have hsecrets : ∀ ownerId spec, call.phase = .claimed ownerId spec →
      (tables.of u).secretRows ownerId = tables.secretRows ownerId := by
    intro ownerId spec hphase
    rw [hclaimed ownerId spec hphase]
    exact Tables.secretRows_of
  have hloads : call.loads (tables.of u) a = call.loads tables a := by
    cases a with
    | readPipeline => exact h.loaded_of hid
    | _ => rfl
  unfold step
  rw [h.view_of hid, Worker.stepResolving_secretRows a hsecrets, h.run?_of_self hid, hloads]
  split
  · rfl
  · rename_i db phase hworker
    split
    · rename_i hexists
      have hkeeps := h.keeps hid hexists (Worker.stepResolving_ownerId hworker)
      simp only [Option.map_some, hkeeps.putBack_of]
    · rfl

end WorkerCall

/-! ## Sessions -/

/-- The row that is read once more belongs to the user. -/
def Target.Sound (issued : List (Uuid × Uuid)) (user : Option Uuid) : Target → Prop
  | .user _ => user = none
  | pipeline id => ∃ u, user = some u ∧ (id, u) ∈ issued
  | run id => ∃ u, user = some u ∧ (id, u) ∈ issued
  | schedule id => ∃ u, user = some u ∧ (id, u) ∈ issued
  | secret id => ∃ u, user = some u ∧ (id, u) ∈ issued

/-- A session works on rows of its user. -/
def Session.Sound (issued : List (Uuid × Uuid)) : Session → Prop
  | arrived _ => True
  | working user work => work.Sound issued user
  | refreshing user target => target.Sound issued user
  | answered user response => ∀ u, user = some u → response.OwnedBy u
  | executing call => call.Sound issued
  | streaming userId runId _ => (runId, userId) ∈ issued

section

variable {issued' : List (Uuid × Uuid)} (hsub : issued ⊆ issued')

include hsub

/-- Work that is sound stays so as more ids are issued. -/
theorem RequestWork.Sound.mono {user : Option Uuid} {work : RequestWork}
    (h : work.Sound issued user) : work.Sound issued' user := by
  cases work with
  | answer response => exact h
  | stream userId runId => exact ⟨h.1, hsub h.2⟩
  | insertUser row => exact h
  | insertPipeline row => exact h
  | editPipeline loaded assigned => exact ⟨h.1, hsub h.2⟩
  | removePipeline row => exact ⟨h.1, hsub h.2⟩
  | insertRun row => exact ⟨h.1, hsub h.2⟩
  | insertSecret row => exact h
  | editSecret loaded assigned => exact ⟨h.1, hsub h.2⟩
  | removeSecret row => exact h
  | schedule work =>
      cases work with
      | insert row => exact ⟨h.1, hsub h.2⟩
      | edit loaded assigned => exact ⟨h.1, hsub h.2⟩
      | remove row => exact ⟨h.1, hsub h.2⟩
      | refused reason => trivial
      | tick t =>
          exact ⟨h.1, fun row hrow => hsub (h.2.1 row hrow), fun run hrun => hsub (h.2.2 run hrun)⟩

/-- A target that is sound stays so as more ids are issued. -/
theorem Target.Sound.mono {user : Option Uuid} {target : Target}
    (h : target.Sound issued user) : target.Sound issued' user := by
  cases target with
  | user id => exact h
  | _ =>
      rcases h with ⟨u, huser, hid⟩
      exact ⟨u, huser, hsub hid⟩

/-- A phase stays the owner's as more ids are issued. -/
theorem Phase.Owned.mono {runId : Uuid} {pipeline : Option Pipeline} {phase : Phase}
    (h : phase.Owned issued runId pipeline) : phase.Owned issued' runId pipeline := by
  cases phase with
  | sawRun loaded => exact hsub h
  | sawPipeline loaded spec => exact ⟨hsub h.1, h.2⟩
  | claimed ownerId spec => exact h
  | _ => trivial

/-- New ids do not change whose the old ones are. -/
theorem Session.Sound.mono {session : Session} (h : session.Sound issued) :
    session.Sound issued' := by
  cases session with
  | arrived request => trivial
  | working user work => exact RequestWork.Sound.mono hsub h
  | refreshing user target => exact Target.Sound.mono hsub h
  | answered user response => exact h
  | executing call => exact ⟨fun row hrow => hsub (h.pipeline row hrow), h.phase.mono hsub⟩
  | streaming userId runId client => exact hsub h

end

/-! ## What a request reads -/

section

variable {c : Calendar} {app : App} {user : User}

private theorem answer_sound {response : Response} (h : response.OwnedBy u) :
    (Session.started (some u) (.answer response)).Sound issued := by
  intro v hv
  rw [Option.some.injEq] at hv
  exact hv ▸ h

private theorem getPipeline_sound (id : Uuid) :
    (Session.started (some user.id) (Api.getPipeline c.tables user id)).Sound issued := by
  unfold Api.getPipeline
  split
  · exact answer_sound trivial
  · rename_i row hrow
    exact answer_sound (getOwnedPipeline_eq_ok hrow).2.2

private theorem listRuns_sound (pipelineId : Option Uuid) (limit : Nat) :
    (Session.started (some user.id)
      (Api.listRuns c.tables user pipelineId limit)).Sound issued := by
  refine answer_sound fun row hrow => ?_
  have hchosen := List.mem_reverse.mp (List.mem_of_mem_take hrow)
  cases pipelineId with
  | none => exact (mem_rowsOf.mp hchosen).2
  | some pipelineId => exact (mem_rowsOf.mp (List.mem_filter.mp hchosen).1).2

private theorem getRun_sound (runId : Uuid) :
    (Session.started (some user.id) (Api.getRun c.tables user runId)).Sound issued := by
  unfold Api.getRun
  split
  · exact answer_sound trivial
  · rename_i row hrow
    rcases getOwnedRun_eq_ok hrow with ⟨_, hkey, howner⟩
    refine answer_sound ⟨howner, fun log hlog => ?_, fun error herror => ?_⟩
    · simpa [hkey] using (List.mem_filter.mp hlog).2
    · simpa [hkey] using (List.mem_filter.mp herror).2

private theorem removeSecret_sound (ref : String) :
    (Session.started (some user.id) (Api.removeSecret c.tables user ref)).Sound issued := by
  unfold Api.removeSecret
  split
  · exact answer_sound trivial
  · rename_i row hrow
    exact congrArg some (mem_rowsOf.mp (List.mem_of_find?_eq_some hrow)).2.symm

private theorem getSchedule_sound (id : Uuid) :
    (Session.started (some user.id) (Api.getSchedule c.tables user id)).Sound issued := by
  unfold Api.getSchedule
  split
  · exact answer_sound trivial
  · rename_i row hrow
    exact answer_sound (getOwnedSchedule_eq_ok hrow).2.2

variable (h : c.tables.Sound issued)

include h

private theorem updatePipeline_sound (id : Uuid) (name : Option String) (spec : Option Fields) :
    (Session.started (some user.id)
      (Api.updatePipeline app c.tables user id name spec)).Sound issued := by
  unfold Api.updatePipeline
  split
  · exact answer_sound trivial
  · rename_i row hrow
    rcases getOwnedPipeline_eq_ok hrow with ⟨hmem, _, howner⟩
    split
    · exact answer_sound trivial
    · exact ⟨congrArg some howner.symm, h.pipelines row hmem⟩

private theorem deletePipeline_sound (id : Uuid) :
    (Session.started (some user.id) (Api.deletePipeline c.tables user id)).Sound issued := by
  unfold Api.deletePipeline
  split
  · exact answer_sound trivial
  · rename_i row hrow
    rcases getOwnedPipeline_eq_ok hrow with ⟨hmem, _, howner⟩
    exact ⟨congrArg some howner.symm, h.pipelines row hmem⟩

private theorem triggerRun_sound (id pipelineId : Uuid) (params : Option Fields) :
    (Session.started (some user.id)
      (Api.triggerRun c.tables user id pipelineId params)).Sound issued := by
  unfold Api.triggerRun
  split
  · exact answer_sound trivial
  · rename_i row hrow
    rcases getOwnedPipeline_eq_ok hrow with ⟨hmem, _, howner⟩
    exact ⟨rfl, howner ▸ h.pipelines row hmem⟩

private theorem streamRunEvents_sound (runId : Uuid) :
    (Session.started (some user.id) (Api.streamRunEvents c.tables user runId)).Sound issued := by
  unfold Api.streamRunEvents
  split
  · exact answer_sound trivial
  · rename_i row hrow
    rcases getOwnedRun_eq_ok hrow with ⟨hmem, hkey, howner⟩
    exact hkey ▸ howner ▸ h.runs row hmem

private theorem setSecret_sound (id : Uuid) (ref value nonce : String) :
    (Session.started (some user.id)
      (Api.setSecret app c.tables user id ref value nonce)).Sound issued := by
  unfold Api.setSecret
  split
  · exact answer_sound trivial
  · split
    · rfl
    · rename_i row hrow
      rcases mem_rowsOf.mp (List.mem_of_find?_eq_some hrow) with ⟨hmem, howner⟩
      exact ⟨congrArg some howner.symm, h.secrets row hmem⟩

private theorem createSchedule_sound (id : Uuid) (payload : ScheduleCreate) (now : Time) :
    (Session.started (some user.id)
      (Api.scheduleRequest app (.create user.id id payload now) c)).Sound issued := by
  unfold Api.scheduleRequest
  simp only [readSchedules]
  cases hpipeline : getOwnedPipeline c.tables payload.pipelineId user.id with
  | error reason => exact answer_sound trivial
  | ok pipeline =>
      rcases getOwnedPipeline_eq_ok hpipeline with ⟨hmem, hkey, howner⟩
      cases hcreate : createSchedule app.cron app.worker.runtime id user.id payload now with
      | error reason => exact answer_sound trivial
      | ok row =>
          rcases createSchedule_keys hcreate with ⟨_, hpayload, hrowOwner⟩
          refine ⟨congrArg some hrowOwner.symm, ?_⟩
          rw [hpayload, hrowOwner, ← hkey, ← howner]
          exact h.pipelines pipeline hmem

private theorem updateSchedule_sound (id : Uuid) (payload : ScheduleUpdate) (now : Time) :
    (Session.started (some user.id)
      (Api.scheduleRequest app (.update user.id id payload now) c)).Sound issued := by
  unfold Api.scheduleRequest
  simp only [readSchedules]
  cases hfound : getOwnedSchedule c.tables id user.id with
  | error reason => exact answer_sound trivial
  | ok loaded =>
      rcases getOwnedSchedule_eq_ok hfound with ⟨hmem, _, howner⟩
      dsimp only
      cases hupdate : updateSchedule app.cron app.worker.runtime loaded payload now with
      | error reason => exact answer_sound trivial
      | ok assigned => exact ⟨congrArg some howner.symm, h.schedules loaded hmem⟩

private theorem deleteSchedule_sound (id : Uuid) :
    (Session.started (some user.id)
      (Api.scheduleRequest app (.delete user.id id) c)).Sound issued := by
  unfold Api.scheduleRequest
  simp only [readSchedules]
  cases hfound : getOwnedSchedule c.tables id user.id with
  | error reason => exact answer_sound trivial
  | ok row =>
      rcases getOwnedSchedule_eq_ok hfound with ⟨hmem, _, howner⟩
      exact ⟨congrArg some howner.symm, h.schedules row hmem⟩

/-- A request answers with rows of its user, or prepares a change of such rows. -/
theorem route_sound (request : ApiRequest) :
    (Session.started (some user.id) (Api.route app user c request)).Sound issued := by
  cases request with
  | me => exact answer_sound rfl
  | createPipeline id name spec =>
      simp only [Api.route, Api.createPipeline]
      split
      · exact answer_sound trivial
      · rfl
  | listPipelines =>
      exact answer_sound fun row hrow => (mem_rowsOf.mp (List.mem_reverse.mp hrow)).2
  | getPipeline id => exact getPipeline_sound id
  | updatePipeline id name spec => exact updatePipeline_sound h id name spec
  | deletePipeline id => exact deletePipeline_sound h id
  | triggerRun id pipelineId params => exact triggerRun_sound h id pipelineId params
  | listRuns pipelineId limit => exact listRuns_sound pipelineId limit
  | getRun runId => exact getRun_sound runId
  | streamRunEvents runId => exact streamRunEvents_sound h runId
  | setSecret id ref value nonce => exact setSecret_sound h id ref value nonce
  | listSecrets =>
      exact answer_sound fun row hrow => (mem_rowsOf.mp (List.mem_mergeSort.mp hrow)).2
  | removeSecret ref => exact removeSecret_sound ref
  | createSchedule id payload now => exact createSchedule_sound h id payload now
  | listSchedules =>
      exact answer_sound fun row hrow => (mem_rowsOf.mp (List.mem_reverse.mp hrow)).2
  | getSchedule id => exact getSchedule_sound id
  | updateSchedule id payload now => exact updateSchedule_sound h id payload now
  | deleteSchedule id => exact deleteSchedule_sound h id
  | runTestConnection type config =>
      simp only [Api.route, Api.runTestConnection]
      split
      · exact answer_sound trivial
      · split <;> exact answer_sound trivial

/-- Whatever is read, the session that it leads to works on rows of its user. -/
theorem readRequest_sound (request : Request) :
    (Session.started (readRequest app c request).1 (readRequest app c request).2).Sound
      issued := by
  cases request with
  | register id email password salt =>
      simp only [readRequest, Api.register]
      split
      · exact nofun
      · rfl
  | login email password =>
      simp only [readRequest, Api.login]
      split
      · exact nofun
      · split <;> exact nofun
  | api subject request =>
      simp only [readRequest]
      split
      · exact nofun
      · exact route_sound h request
  | tick now ids =>
      refine ⟨rfl, fun schedule hschedule => ?_, nofun⟩
      exact (h.schedulePipelines schedule (List.mem_filter.mp hschedule).1).1

end

/-! ## What a request becomes -/

section

variable {c : Calendar} {app : App} {user : Option Uuid}

private theorem resumed_fail (c : Calendar) (exc : PyException) :
    (Session.resumed user (Commit.fail c exc).2).Sound issued :=
  fun _ _ => trivial

/-- After its commit a request reads a row of its user once more, or is answered. -/
theorem commitRequest_resumed {work : RequestWork} (hwork : work.Sound issued user) :
    (Session.resumed user (commitRequest app c work).2).Sound (issued ++ work.newIds) := by
  have hnew : ∀ {entry : Uuid × Uuid}, entry ∈ work.newIds → entry ∈ issued ++ work.newIds :=
    fun hmem => List.mem_append_right _ hmem
  have hold : ∀ {entry : Uuid × Uuid}, entry ∈ issued → entry ∈ issued ++ work.newIds :=
    fun hmem => List.mem_append_left _ hmem
  cases work with
  | answer response => exact hwork
  | stream userId runId => exact fun _ _ => trivial
  | insertUser row =>
      simp only [commitRequest, Commit.insertUser]
      split
      · exact resumed_fail c _
      · exact hwork
  | insertPipeline row =>
      simp only [commitRequest, Commit.insertPipeline]
      split
      · exact resumed_fail c _
      · exact ⟨row.ownerId, hwork, hnew (List.mem_singleton_self _)⟩
  | editPipeline loaded assigned =>
      simp only [commitRequest, Commit.editPipeline]
      split
      · exact ⟨loaded.ownerId, hwork.1, hold hwork.2⟩
      · split
        · exact ⟨loaded.ownerId, hwork.1, hold hwork.2⟩
        · exact resumed_fail c _
  | removePipeline row => exact fun _ _ => trivial
  | insertRun row =>
      simp only [commitRequest, Commit.insertRun]
      split
      · exact resumed_fail c _
      · split
        · exact fun _ _ => trivial
        · exact ⟨row.ownerId, hwork.1, hnew (List.mem_singleton_self _)⟩
  | insertSecret row =>
      simp only [commitRequest, Commit.insertSecret]
      split
      · exact resumed_fail c _
      · exact ⟨row.ownerId, hwork, hnew (List.mem_singleton_self _)⟩
  | editSecret loaded assigned =>
      simp only [commitRequest, Commit.editSecret]
      split
      · exact ⟨loaded.ownerId, hwork.1, hold hwork.2⟩
      · split
        · exact ⟨loaded.ownerId, hwork.1, hold hwork.2⟩
        · exact resumed_fail c _
  | removeSecret row => exact fun _ _ => trivial
  | schedule work =>
      cases work with
      | insert row =>
          simp only [commitRequest, Commit.insertSchedule]
          split
          · exact resumed_fail c _
          · exact ⟨row.ownerId, hwork.1, hnew (List.mem_singleton_self _)⟩
      | edit loaded assigned =>
          simp only [commitRequest, Commit.editSchedule]
          split
          · exact ⟨loaded.ownerId, hwork.1, hold hwork.2⟩
          · split
            · exact ⟨loaded.ownerId, hwork.1, hold hwork.2⟩
            · exact resumed_fail c _
      | remove row => exact fun _ _ => trivial
      | refused reason => exact fun _ _ => trivial
      | tick t =>
          simp only [commitRequest, Commit.tick]
          split
          · exact fun _ _ => trivial
          · exact resumed_fail c _

private theorem elim_ownedBy {α : Type} {row? : Option α} {answer : α → Response}
    (h : ∀ row, row? = some row → (answer row).OwnedBy u) :
    (row?.elim (.refused (.raised invalidRequestError)) answer).OwnedBy u := by
  cases row? with
  | none => trivial
  | some row => exact h row rfl

/-- The row that is read once more belongs to the user. -/
theorem refreshed_sound (h : c.tables.Sound issued) {target : Target}
    (htarget : target.Sound issued user) :
    (Session.answered user (refreshed c.tables target)).Sound issued := by
  intro v hv
  cases target with
  | user id =>
      rw [htarget] at hv
      cases hv
  | pipeline id =>
      rcases htarget with ⟨u, rfl, hid⟩
      cases hv
      refine elim_ownedBy fun row hrow => ?_
      rcases Tables.mem_of_pipeline? hrow with ⟨hmem, hkey⟩
      exact h.ownsPipeline hid row hmem hkey
  | run id =>
      rcases htarget with ⟨u, rfl, hid⟩
      cases hv
      refine elim_ownedBy fun row hrow => ?_
      rcases Tables.mem_of_run? hrow with ⟨hmem, hkey⟩
      exact h.ownsRun hid row hmem hkey
  | schedule id =>
      rcases htarget with ⟨u, rfl, hid⟩
      cases hv
      refine elim_ownedBy fun row hrow => ?_
      rcases Tables.mem_of_schedule? hrow with ⟨hmem, hkey⟩
      exact h.ownsSchedule hid row hmem hkey
  | secret id =>
      rcases htarget with ⟨u, rfl, hid⟩
      cases hv
      refine elim_ownedBy fun row hrow => ?_
      exact h.ownsSecret hid row (List.mem_of_find?_eq_some hrow)
        (by simpa using List.find?_some hrow)

/-- It is found among the rows of the user. -/
theorem refreshed_of (h : c.tables.Sound issued) {target : Target}
    (htarget : target.Sound issued (some u)) :
    refreshed (c.tables.of u) target = refreshed c.tables target := by
  cases target with
  | user id => cases htarget
  | pipeline id =>
      rcases htarget with ⟨_, ⟨⟩, hid⟩
      simp only [refreshed, h.pipeline?_of_self hid]
  | run id =>
      rcases htarget with ⟨_, ⟨⟩, hid⟩
      simp only [refreshed, h.run?_of_self hid]
  | schedule id =>
      rcases htarget with ⟨_, ⟨⟩, hid⟩
      simp only [refreshed, h.schedule?_of_self hid]
  | secret id =>
      rcases htarget with ⟨_, ⟨⟩, hid⟩
      simp only [refreshed, h.secret?_of_self hid]

/-- The rounds of a tick stay with the owners of the schedules. -/
theorem workSchedules_sound {work work' : ScheduleWork}
    (hwork : RequestWork.Sound issued user (.schedule work))
    (hstep : workSchedules app.cron app.worker.runtime work = some work') :
    RequestWork.Sound issued user (.schedule work') := by
  cases work with
  | tick t =>
      rcases Option.map_eq_some_iff.mp hstep with ⟨t', hflush, rfl⟩
      rcases hwork with ⟨huser, hpending, hruns⟩
      unfold Tick.flush at hflush
      cases hlist : t.pending with
      | nil => simp [hlist] at hflush
      | cons schedule rest =>
          rw [hlist] at hpending
          simp only [hlist] at hflush
          split at hflush
          · cases hflush
            exact ⟨huser, nofun, hruns⟩
          · cases hflush
            refine ⟨huser, fun other hother => hpending other (List.mem_cons_of_mem _ hother), ?_⟩
            exact List.forall_mem_append.mpr
              ⟨hruns, List.forall_mem_singleton.mpr (hpending schedule List.mem_cons_self)⟩
  | _ => cases hstep

end

/-! ## The server -/

/-- A resource that a request names. -/
inductive Resource where
  | pipeline (id : Uuid)
  | run (id : Uuid)
  | schedule (id : Uuid)
  | secret (ref : String)
deriving DecidableEq

/-- The word for a resource in a {lit}`404`. -/
def Resource.kind : Resource → String
  | pipeline _ => "pipeline"
  | run _ => "run"
  | schedule _ => "schedule"
  | secret _ => "secret"

/-- The resource in the path of a request, or the pipeline of a new schedule. -/
def ApiRequest.resource? : ApiRequest → Option Resource
  | getPipeline id => some (.pipeline id)
  | updatePipeline id _ _ => some (.pipeline id)
  | deletePipeline id => some (.pipeline id)
  | triggerRun _ id _ => some (.pipeline id)
  | createSchedule _ payload _ => some (.pipeline payload.pipelineId)
  | getRun id => some (.run id)
  | streamRunEvents id => some (.run id)
  | getSchedule id => some (.schedule id)
  | updateSchedule id _ _ => some (.schedule id)
  | deleteSchedule id => some (.schedule id)
  | removeSecret ref => some (.secret ref)
  | _ => none

/-- The resource is stored, and belongs to the user. -/
def Tables.Owns (tables : Tables) (u : Uuid) : Resource → Prop
  | .pipeline id => ∃ row ∈ tables.pipelines, row.id = id ∧ row.ownerId = u
  | .run id => ∃ row ∈ tables.runs, row.id = id ∧ row.ownerId = u
  | .schedule id => ∃ row ∈ tables.schedules, row.id = id ∧ row.ownerId = u
  | .secret ref => ∃ row ∈ tables.secrets, row.ref = ref ∧ row.ownerId = u

section

variable {c : Calendar} {app : App} {user : User}

private theorem getOwnedPipeline_missing {id : Uuid} (h : ¬ tables.Owns u (.pipeline id)) :
    getOwnedPipeline tables id u = .error (.notFound "pipeline") := by
  apply getOwned_missing
  intro row hrow howner
  rcases Tables.mem_of_pipeline? hrow with ⟨hmem, hkey⟩
  exact h ⟨row, hmem, hkey, howner⟩

private theorem getOwnedRun_missing {id : Uuid} (h : ¬ tables.Owns u (.run id)) :
    getOwnedRun tables id u = .error (.notFound "run") := by
  apply getOwned_missing
  intro row hrow howner
  rcases Tables.mem_of_run? hrow with ⟨hmem, hkey⟩
  exact h ⟨row, hmem, hkey, howner⟩

private theorem getOwnedSchedule_missing {id : Uuid} (h : ¬ tables.Owns u (.schedule id)) :
    getOwnedSchedule tables id u = .error (.notFound "schedule") := by
  apply getOwned_missing
  intro row hrow howner
  rcases Tables.mem_of_schedule? hrow with ⟨hmem, hkey⟩
  exact h ⟨row, hmem, hkey, howner⟩

private theorem ownedSecret?_missing {ref : String} (h : ¬ tables.Owns u (.secret ref)) :
    tables.ownedSecret? u ref = none := by
  cases hfound : tables.ownedSecret? u ref with
  | none => rfl
  | some row =>
      rcases mem_rowsOf.mp (List.mem_of_find?_eq_some hfound) with ⟨hmem, howner⟩
      exact absurd ⟨row, hmem, by simpa using List.find?_some hfound, howner⟩ h

/-- A request that names a resource of somebody else is answered with {lit}`404`. -/
theorem route_missing {request : ApiRequest} {resource : Resource}
    (hresource : request.resource? = some resource) (h : ¬ c.tables.Owns user.id resource) :
    Api.route app user c request = .answer (.refused (.notFound resource.kind)) := by
  cases request with
  | getPipeline id =>
      cases hresource
      simp only [Api.route, Api.getPipeline, getOwnedPipeline_missing h, Resource.kind]
  | updatePipeline id name spec =>
      cases hresource
      simp only [Api.route, Api.updatePipeline, getOwnedPipeline_missing h, Resource.kind]
  | deletePipeline id =>
      cases hresource
      simp only [Api.route, Api.deletePipeline, getOwnedPipeline_missing h, Resource.kind]
  | triggerRun id pipelineId params =>
      cases hresource
      simp only [Api.route, Api.triggerRun, getOwnedPipeline_missing h, Resource.kind]
  | createSchedule id payload now =>
      cases hresource
      simp only [Api.route, Api.scheduleRequest, readSchedules, getOwnedPipeline_missing h,
        Resource.kind]
  | getRun id =>
      cases hresource
      simp only [Api.route, Api.getRun, getOwnedRun_missing h, Resource.kind]
  | streamRunEvents id =>
      cases hresource
      simp only [Api.route, Api.streamRunEvents, getOwnedRun_missing h, Resource.kind]
  | getSchedule id =>
      cases hresource
      simp only [Api.route, Api.getSchedule, getOwnedSchedule_missing h, Resource.kind]
  | updateSchedule id payload now =>
      cases hresource
      simp only [Api.route, Api.scheduleRequest, readSchedules, getOwnedSchedule_missing h,
        Resource.kind]
  | deleteSchedule id =>
      cases hresource
      simp only [Api.route, Api.scheduleRequest, readSchedules, getOwnedSchedule_missing h,
        Resource.kind]
  | removeSecret ref =>
      cases hresource
      simp only [Api.route, Api.removeSecret, ownedSecret?_missing h, Resource.kind]
  | _ => cases hresource

/-- A user's request is read on their rows. -/
theorem readRequest_of (h : c.tables.Sound issued) {request : ApiRequest} :
    readRequest app (c.of u) (.api (some u) request) =
      readRequest app c (.api (some u) request) := by
  have hsame : currentUser (c.of u).tables (some u) = currentUser c.tables (some u) := rfl
  simp only [readRequest, hsame]
  split
  · rfl
  · rename_i user huser
    have hid := currentUser_eq_ok huser
    rw [Option.some.injEq] at hid
    rw [hid, route_of h]

end

namespace Server

/-- The server, as if it held the rows of one user only. -/
def of (s : Server) (u : Uuid) : Server :=
  { s with calendar := s.calendar.of u }

/-- A step for a user: it is a step on their rows, and leaves the rows of the others. -/
structure Confined (app : App) (u : Uuid) (s : Server) (a : ServerAction) (s' : Server) :
    Prop where
  within : (s.of u).step app a = some (s'.of u)
  others : ∀ v, v ≠ u → s'.tables.of v = s.tables.of v

/-- All rows belong to their owners, and all sessions work on rows of their users. -/
structure Inv (s : Server) : Prop where
  tables : s.tables.Sound s.issued
  sessions : ∀ session ∈ s.sessions, session.Sound s.issued

variable {app : App} {s s' : Server} {a : ServerAction}

/-- The invariant holds of the fresh server. -/
theorem Inv.initial : Server.initial.Inv where
  tables := by
    constructor
    · exact List.nodup_nil
    all_goals exact fun _ hrow => absurd hrow List.not_mem_nil
  sessions := fun _ hsession => absurd hsession List.not_mem_nil

/-- A session that takes a step stays with its user. -/
theorem Inv.become (h : s.Inv) {i : Nat} {session : Session} (hsession : session.Sound s.issued) :
    (s.become i session).Inv := by
  refine ⟨h.tables, fun other hother => ?_⟩
  rcases List.mem_or_eq_of_mem_set hother with hold | rfl
  · exact h.sessions other hold
  · exact hsession

/-- Every step keeps the rows and the sessions with their owners. -/
theorem Inv.next (h : s.Inv) (hstep : s.step app a = some s') : s'.Inv := by
  cases step_spec hstep with
  | arrive request =>
      refine ⟨h.tables, List.forall_mem_append.mpr ⟨h.sessions, ?_⟩⟩
      exact List.forall_mem_singleton.mpr trivial
  | deliver runId =>
      refine ⟨h.tables, List.forall_mem_append.mpr ⟨h.sessions, ?_⟩⟩
      exact List.forall_mem_singleton.mpr ⟨nofun, trivial⟩
  | read i request hsession => exact h.become (readRequest_sound h.tables request)
  | work i user work work' hsession hwork =>
      have hsound := h.sessions _ (List.mem_of_getElem? hsession)
      exact h.become (workSchedules_sound hsound hwork)
  | commit i user work hsession hready hids =>
      have hsound := h.sessions _ (List.mem_of_getElem? hsession)
      refine ⟨commitRequest_sound h.tables hsound hids, fun other hother => ?_⟩
      rcases List.mem_or_eq_of_mem_set hother with hold | rfl
      · exact (h.sessions other hold).mono (List.subset_append_left ..)
      · exact commitRequest_resumed hsound
  | refresh i user target hsession =>
      have hsound := h.sessions _ (List.mem_of_getElem? hsession)
      exact h.become (refreshed_sound h.tables hsound)
  | execute i b call call' tables hsession hcall =>
      have hsound := h.sessions _ (List.mem_of_getElem? hsession)
      refine ⟨WorkerCall.step_tables_sound h.tables hcall, fun other hother => ?_⟩
      rcases List.mem_or_eq_of_mem_set hother with hold | rfl
      · exact h.sessions other hold
      · exact WorkerCall.Sound.step hsound h.tables hcall
  | stream i b userId runId client client' hsession hclient =>
      have hsound : (runId, userId) ∈ s.issued := h.sessions _ (List.mem_of_getElem? hsession)
      exact h.become hsound

/-- A step for a user is a step on their rows, and leaves the rows of the others. -/
theorem Inv.confined (h : s.Inv) {i : Nat} {session : Session} {u : Uuid}
    (hi : a.session? = some i) (hsession : s.sessions[i]? = some session)
    (huser : session.user? = some u) (hstep : s.step app a = some s') :
    s.Confined app u a s' := by
  have hsound := h.sessions session (List.mem_of_getElem? hsession)
  cases step_spec hstep with
  | arrive request => cases hi
  | deliver runId => cases hi
  | read j request hj =>
      cases hi
      rw [hsession, Option.some.injEq] at hj
      subst hj
      cases request with
      | api subject request =>
          cases huser
          refine ⟨?_, fun _ _ => rfl⟩
          simp only [step, of, hsession, readRequest_of h.tables, Server.become]
      | _ => cases huser
  | work j user work work' hj hwork =>
      cases hi
      refine ⟨?_, fun _ _ => rfl⟩
      simp only [step, of, hj, hwork, Option.map_some, Server.become]
  | commit j user work hj hready hids =>
      cases hi
      rw [hsession, Option.some.injEq] at hj
      subst hj
      cases huser
      have hacts : ActsFor u (commitRequest app · work) s.calendar :=
        commitRequest_actsFor h.tables hsound hids
      refine ⟨?_, hacts.others⟩
      simp only [step, of, hsession, if_pos (And.intro hready hids), hacts.within]
  | refresh j user target hj =>
      cases hi
      rw [hsession, Option.some.injEq] at hj
      subst hj
      cases huser
      refine ⟨?_, fun _ _ => rfl⟩
      have hsessions : (s.of u).sessions = s.sessions := rfl
      have hsame : refreshed (s.of u).tables target = refreshed s.tables target :=
        refreshed_of h.tables hsound
      simp only [step, hsessions, hsession, hsame]
      rfl
  | execute j b call call' tables' hj hcall =>
      cases hi
      rw [hsession, Option.some.injEq] at hj
      subst hj
      rcases Option.map_eq_some_iff.mp huser with ⟨row, hrow, rfl⟩
      have hworks := WorkerCall.Sound.worksFor hsound hrow
      have hwithin := WorkerCall.step_of (d := app.worker) (a := b) h.tables hworks
      rw [hcall] at hwithin
      refine ⟨?_, fun v hv => WorkerCall.step_others h.tables hworks.1 hcall hv⟩
      have hof : (s.of row.ownerId).tables = s.tables.of row.ownerId := rfl
      simp only [step, hof]
      simp only [of, hsession, hwithin, Option.map_some, Calendar.of]
  | stream j b userId runId client client' hj hclient =>
      cases hi
      rw [hsession, Option.some.injEq] at hj
      subst hj
      cases huser
      refine ⟨?_, fun _ _ => rfl⟩
      have hsessions : (s.of u).sessions = s.sessions := rfl
      have hview : (s.of u).tables.view runId = s.tables.view runId := h.tables.view_of hsound
      simp only [step, hsessions, hsession, hview, hclient, Option.map_some]
      rfl

/-- A request that names a resource of somebody else is answered with {lit}`404`, and
nothing else happens. -/
theorem read_missing {i : Nat} {user : User} {request : ApiRequest} {resource : Resource}
    {subject : Option Uuid} (hsession : s.sessions[i]? = some (.arrived (.api subject request)))
    (huser : currentUser s.tables subject = .ok user)
    (hresource : request.resource? = some resource)
    (hmissing : ¬ s.tables.Owns user.id resource) :
    s.step app (.read i) = some (s.become i
      (.answered (some user.id) (.refused (.notFound resource.kind)))) := by
  have hroute : Api.route app user s.calendar request =
      .answer (.refused (.notFound resource.kind)) := route_missing hresource hmissing
  have hcurrent : currentUser s.calendar.tables subject = .ok user := huser
  simp only [step, hsession, readRequest, hcurrent, hroute, Session.started]

/-- The owner of whatever refers to a pipeline is the owner of the pipeline. -/
theorem Inv.pipeline_owner (h : s.Inv) {id ownerId : Uuid}
    (hrefers : (id, ownerId) ∈ s.issued ∧ id ∈ s.tables.pipelines.map Pipeline.id) :
    ∃ pipeline, s.tables.pipeline? id = some pipeline ∧ ownerId = pipeline.ownerId :=
  h.tables.pipeline?_of_recorded hrefers.1 hrefers.2

/-- The database and the sessions are in this state after any sequence of steps. -/
theorem Inv.of_exec {actions : List ServerAction}
    (h : exec (Server.step app) Server.initial actions = some s) : s.Inv :=
  exec_invariant (fun _ _ _ hinv hstep => Inv.next hinv hstep) Inv.initial h

end Server

/-- The users of a server are isolated from each other. -/
structure TenantsIsolated (app : App) (s : Server) : Prop where
  /-- A run belongs to the owner of its pipeline. -/
  runs : ∀ run ∈ s.tables.runs, ∃ pipeline,
    s.tables.pipeline? run.pipelineId = some pipeline ∧ run.ownerId = pipeline.ownerId
  /-- A schedule belongs to the owner of its pipeline. -/
  schedules : ∀ schedule ∈ s.tables.schedules, ∃ pipeline,
    s.tables.pipeline? schedule.pipelineId = some pipeline ∧
      schedule.ownerId = pipeline.ownerId
  /-- A worker resolves secrets for the owner of the pipeline that it executes. -/
  workers : ∀ call, .executing call ∈ s.sessions → ∀ ownerId spec,
    call.phase = .claimed ownerId spec →
      ∃ pipeline, call.pipeline = some pipeline ∧ pipeline.spec = spec ∧
        pipeline.ownerId = ownerId
  /-- The stored secrets of anybody else do not matter to a worker. -/
  secrets : ∀ call, .executing call ∈ s.sessions → ∀ rows a,
    (∀ pipeline, call.pipeline = some pipeline →
      rows pipeline.ownerId = s.tables.secretRows pipeline.ownerId) →
    Worker.stepResolving { app.worker with secretRows := rows } (s.tables.view call.runId)
        call.phase a =
      Worker.stepResolving { app.worker with secretRows := s.tables.secretRows }
        (s.tables.view call.runId) call.phase a
  /-- All rows of a response belong to the user who gets it. -/
  responses : ∀ u response, .answered (some u) response ∈ s.sessions → response.OwnedBy u
  /-- A stream shows a run of the user who reads it. -/
  streams : ∀ u runId client, .streaming u runId client ∈ s.sessions →
    ∀ run ∈ s.tables.runs, run.id = runId → run.ownerId = u
  /-- A step for a user is a step on their rows, and leaves the rows of the others. -/
  confined : ∀ a s' i session u, a.session? = some i → s.sessions[i]? = some session →
    session.user? = some u → s.step app a = some s' → s.Confined app u a s'
  /-- A request for a resource of somebody else is answered with {lit}`404` and changes
  nothing. -/
  missing : ∀ i user subject request resource,
    s.sessions[i]? = some (.arrived (.api subject request)) →
    currentUser s.tables subject = .ok user → request.resource? = some resource →
    ¬ s.tables.Owns user.id resource →
      s.step app (.read i) = some (s.become i
        (.answered (some user.id) (.refused (.notFound resource.kind))))

/-- Whatever users ask for, whenever the scheduler ticks and whatever the workers execute:
the users are isolated from each other in every state that is reached. -/
theorem tenants_isolated (app : App) (actions : List ServerAction) (s : Server)
    (h : exec (Server.step app) Server.initial actions = some s) : TenantsIsolated app s := by
  have hinv : s.Inv := Server.Inv.of_exec h
  have hworkers : ∀ call, .executing call ∈ s.sessions → ∀ ownerId spec,
      call.phase = .claimed ownerId spec →
        ∃ pipeline, call.pipeline = some pipeline ∧ pipeline.spec = spec ∧
          pipeline.ownerId = ownerId := by
    intro call hcall ownerId spec hphase
    have hsound : call.Sound s.issued := hinv.sessions _ hcall
    have howned := hsound.phase
    rw [hphase] at howned
    exact howned
  constructor
  case runs =>
    exact fun run hrun => hinv.pipeline_owner (hinv.tables.runPipelines run hrun)
  case schedules =>
    exact fun schedule hschedule =>
      hinv.pipeline_owner (hinv.tables.schedulePipelines schedule hschedule)
  case workers =>
    exact hworkers
  case secrets =>
    intro call hcall rows a hrows
    apply Worker.stepResolving_secretRows a
    intro ownerId spec hphase
    rcases hworkers call hcall ownerId spec hphase with ⟨pipeline, hpipeline, _, rfl⟩
    exact hrows pipeline hpipeline
  case responses =>
    exact fun u response hmem => hinv.sessions _ hmem u rfl
  case streams =>
    intro u runId client hmem run hrun hkey
    exact hinv.tables.ownsRun (hinv.sessions _ hmem) run hrun hkey
  case confined =>
    exact fun a s' i session u hi hsession huser hstep => hinv.confined hi hsession huser hstep
  case missing =>
    exact fun i user subject request resource hsession huser hresource hmissing =>
      Server.read_missing hsession huser hresource hmissing

/-! ## Two users -/

namespace Samples

/-- An application whose tokens are the plain texts. -/
def app : App where
  worker := deployment engine onlySource
  cron := everyFive
  cipher := ⟨fun _ => .error ⟨"CryptoError", some "wrong key"⟩⟩
  encrypt := fun _ value => .ok value
  hashPassword := fun salt password => salt ++ password
  verifyPassword := fun password hashed => hashed = password
  errorCount := fun _ => 1
  testConnection := fun _ _ _ => .ok (.str "ok")
  enqueueRun := fun _ => none

/-- A request that is carried out until its commit. -/
def request (i : Nat) (request : Request) : List ServerAction :=
  [.arrive request, .read i, .commit i]

/-- A delivery of a run to a worker who works alone. -/
def execution (i : Nat) (runId : Uuid) : List ServerAction :=
  .deliver runId ::
    ([.readRun, .readPipeline, .commitClaim, .prepare, .fly .emit, .fly .engineEnds,
      .fly .collect, .fly (.commit [1]), .fly .check, .land, .readFinishing,
      .commitFinishing].map fun a => .execute i a)

/-- One user creates a pipeline, runs it by hand and puts it on a schedule; another user
asks for the run. -/
def twoUsers : List ServerAction :=
  request 0 (.register "first" "first@example.org" "secret" "salt") ++
  request 1 (.register "second" "second@example.org" "secret" "salt") ++
  request 2 (.api (some "first") (.createPipeline "pipeline" "daily" [])) ++
  request 3 (.api (some "first") (.triggerRun "run" "pipeline" none)) ++
  execution 4 "run" ++
  request 5 (.api (some "first") (.createSchedule "schedule"
    { pipelineId := "pipeline", cronExpr := "*/5 * * * *" } 2)) ++
  [.arrive (.tick 12 newId), .read 6, .work 6, .commit 6] ++
  [.arrive (.api (some "second") (.getRun "run")), .read 7]

/-- What a session has been refused with. -/
def refusal? : Session → Option Refusal
  | .answered _ (.refused reason) => some reason
  | _ => none

end Samples

/-- Two users on one server, the second asking for a run of the first. -/
theorem tenants_isolated_twoUsers :
    ∃ s, exec (Server.step Samples.app) Server.initial Samples.twoUsers = some s ∧
      (s.tables.runs.map fun run => (run.ownerId, run.run.status)) =
        [("first", .succeeded), ("first", .queued)] ∧
      s.sessions[7]?.bind Samples.refusal? = some (.notFound "run") ∧
      TenantsIsolated Samples.app s := by
  have hcheck : (exec (Server.step Samples.app) Server.initial Samples.twoUsers).map (fun s =>
      (s.tables.runs.map fun run => (run.ownerId, run.run.status),
        s.sessions[7]?.bind Samples.refusal?)) =
      some ([("first", .succeeded), ("first", .queued)], some (.notFound "run")) := by
    decide +kernel
  rcases Option.map_eq_some_iff.mp hcheck with ⟨s, hrun, heq⟩
  rw [Prod.mk.injEq] at heq
  exact ⟨s, hrun, heq.1, heq.2, tenants_isolated Samples.app Samples.twoUsers s hrun⟩

end EtlTool
