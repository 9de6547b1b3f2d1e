import EtlTool.Server.Origins

/-!
# Stored documents

A document is checked when a request brings it, and stored later, by a commit that writes
the columns which its session has changed.  Two edits of one pipeline may interleave, so
that a stored pipeline is a mixture of what several requests have sent.

Each of its columns was sent by its owner nevertheless, its document has passed the check,
and what passed the check when it came is what a worker parses.

Main results:

- Theorem {lit}`commitRequest_pipelines`: how a commit changes the table of pipelines.
- Theorem {lit}`Server.DocumentsInv.next`: no step loses track of what was sent.
- Theorem {lit}`documents_kept`: the documents of every state that the server can reach,
  stored, answered or about to be executed.

Current gaps:

- A document model that changes while the server is running.
-/

namespace EtlTool

open Interleaving

variable {app : App} {c : Calendar}

/-! ## What was sent -/

/-- {lit}`_validate_spec` accepts the document. -/
def App.Accepts (app : App) (spec : Fields) : Prop :=
  ∃ parsed, app.worker.modelValidate spec = .ok parsed

/-- Requests of the owner have created the pipeline and have sent its name and its document,
and the document has been accepted. -/
structure Pipeline.SentIn (app : App) (past : List ServerAction) (row : Pipeline) : Prop where
  created : ∃ name spec,
    .arrive (.api (some row.ownerId) (.createPipeline row.id name spec)) ∈ past
  name : (∃ spec,
      .arrive (.api (some row.ownerId) (.createPipeline row.id row.name spec)) ∈ past) ∨
    ∃ spec, .arrive (.api (some row.ownerId) (.updatePipeline row.id (some row.name) spec)) ∈ past
  spec : (∃ name,
      .arrive (.api (some row.ownerId) (.createPipeline row.id name row.spec)) ∈ past) ∨
    ∃ name, .arrive (.api (some row.ownerId) (.updatePipeline row.id name (some row.spec))) ∈ past
  accepted : app.Accepts row.spec

/-- All pipelines of a response were sent. -/
def Response.SentIn (app : App) (past : List ServerAction) : Response → Prop
  | pipeline row => row.SentIn app past
  | pipelines rows => ∀ row ∈ rows, row.SentIn app past
  | _ => True

/-- All pipelines that a change is about were sent. -/
def RequestWork.SentIn (app : App) (past : List ServerAction) : RequestWork → Prop
  | .answer response => response.SentIn app past
  | .insertPipeline row => row.SentIn app past
  | .editPipeline loaded assigned => assigned.SentIn app past ∧
      assigned.id = loaded.id ∧ assigned.ownerId = loaded.ownerId
  | _ => True

/-- All pipelines that a session works with were sent. -/
def Session.SentIn (app : App) (past : List ServerAction) : Session → Prop
  | .working _ work => work.SentIn app past
  | .answered _ response => response.SentIn app past
  | .executing call => ∀ row, call.pipeline = some row → row.SentIn app past
  | _ => True

section

variable {past : List ServerAction}

/-- What a pipeline holds stays sent. -/
theorem Pipeline.SentIn.mono {row : Pipeline} (h : row.SentIn app past) (a : ServerAction) :
    row.SentIn app (past ++ [a]) where
  created := by
    rcases h.created with ⟨name, spec, hmem⟩
    exact ⟨name, spec, List.mem_append_left _ hmem⟩
  name := by
    rcases h.name with ⟨spec, hmem⟩ | ⟨spec, hmem⟩
    · exact .inl ⟨spec, List.mem_append_left _ hmem⟩
    · exact .inr ⟨spec, List.mem_append_left _ hmem⟩
  spec := by
    rcases h.spec with ⟨name, hmem⟩ | ⟨name, hmem⟩
    · exact .inl ⟨name, List.mem_append_left _ hmem⟩
    · exact .inr ⟨name, List.mem_append_left _ hmem⟩
  accepted := h.accepted

/-- What a response shows stays sent. -/
theorem Response.SentIn.mono {response : Response} (h : response.SentIn app past)
    (a : ServerAction) : response.SentIn app (past ++ [a]) := by
  cases response with
  | pipeline row => exact Pipeline.SentIn.mono h a
  | pipelines rows => exact fun row hrow => (h row hrow).mono a
  | _ => trivial

/-- What a request works on stays sent. -/
theorem RequestWork.SentIn.mono {work : RequestWork} (h : work.SentIn app past)
    (a : ServerAction) : work.SentIn app (past ++ [a]) := by
  cases work with
  | answer response => exact Response.SentIn.mono h a
  | insertPipeline row => exact Pipeline.SentIn.mono h a
  | editPipeline loaded assigned => exact ⟨h.1.mono a, h.2⟩
  | _ => trivial

/-- What a session holds stays sent. -/
theorem Session.SentIn.mono {session : Session} (h : session.SentIn app past)
    (a : ServerAction) : session.SentIn app (past ++ [a]) := by
  cases session with
  | working user work => exact RequestWork.SentIn.mono h a
  | answered user response => exact Response.SentIn.mono h a
  | executing call => exact fun row hrow => (h row hrow).mono a
  | _ => trivial

end

/-! ## Requests -/

private theorem validateSpec_eq_ok {spec : Fields} (h : Api.validateSpec app spec = .ok ()) :
    app.Accepts spec := by
  unfold Api.validateSpec at h
  split at h
  · rename_i parsed hparsed
    exact ⟨parsed, hparsed⟩
  · split at h <;> cases h

/-- A new pipeline is as its request says. -/
theorem createPipeline_sent {past : List ServerAction} {user : User} {id : Uuid} {name : String}
    {spec : Fields}
    (harrived : .arrive (.api (some user.id) (.createPipeline id name spec)) ∈ past) :
    (Api.createPipeline app user id name spec).SentIn app past := by
  unfold Api.createPipeline
  split
  · trivial
  · rename_i hvalid
    exact ⟨⟨name, spec, harrived⟩, .inl ⟨spec, harrived⟩, .inl ⟨name, harrived⟩,
      validateSpec_eq_ok hvalid⟩

/-- An edit keeps what it finds in the columns that it does not write. -/
theorem updatePipeline_sent {past : List ServerAction} {tables : Tables}
    (h : ∀ row ∈ tables.pipelines, row.SentIn app past) {user : User} {id : Uuid}
    {name : Option String} {spec : Option Fields}
    (harrived : .arrive (.api (some user.id) (.updatePipeline id name spec)) ∈ past) :
    (Api.updatePipeline app tables user id name spec).SentIn app past := by
  unfold Api.updatePipeline
  split
  · trivial
  · rename_i row hrow
    rcases getOwnedPipeline_eq_ok hrow with ⟨hmem, rfl, howner⟩
    have hsent := h row hmem
    rw [← howner] at harrived
    split
    · trivial
    · rename_i hvalid
      refine ⟨⟨hsent.created, ?_, ?_, ?_⟩, rfl, rfl⟩
      · cases name with
        | none => exact hsent.name
        | some name => exact .inr ⟨spec, harrived⟩
      · cases spec with
        | none => exact hsent.spec
        | some spec => exact .inr ⟨name, harrived⟩
      · cases spec with
        | none => exact hsent.accepted
        | some spec => exact validateSpec_eq_ok hvalid

/-- Whatever is asked for, it is about pipelines that were sent. -/
theorem route_sent {past : List ServerAction} (h : ∀ row ∈ c.tables.pipelines, row.SentIn app past)
    {user : User} {request : ApiRequest}
    (harrived : .arrive (.api (some user.id) request) ∈ past) :
    (Api.route app user c request).SentIn app past := by
  have hschedule : ∀ request : ScheduleRequest,
      (Api.scheduleRequest app request c).SentIn app past := by
    intro request
    unfold Api.scheduleRequest
    split <;> trivial
  cases request with
  | createPipeline id name spec => exact createPipeline_sent harrived
  | updatePipeline id name spec => exact updatePipeline_sent h harrived
  | listPipelines =>
      intro row hrow
      exact h row (List.mem_filter.mp (List.mem_reverse.mp hrow)).1
  | getPipeline id =>
      simp only [Api.route, Api.getPipeline]
      split
      · trivial
      · rename_i row hrow
        exact h row (getOwnedPipeline_eq_ok hrow).1
  | deletePipeline id =>
      simp only [Api.route, Api.deletePipeline]
      split <;> trivial
  | triggerRun id pipelineId params =>
      simp only [Api.route, Api.triggerRun]
      split <;> trivial
  | getRun id =>
      simp only [Api.route, Api.getRun]
      split <;> trivial
  | streamRunEvents id =>
      simp only [Api.route, Api.streamRunEvents]
      split <;> trivial
  | setSecret id ref value nonce =>
      simp only [Api.route, Api.setSecret]
      split
      · trivial
      · split <;> trivial
  | removeSecret ref =>
      simp only [Api.route, Api.removeSecret]
      split <;> trivial
  | createSchedule id payload now => exact hschedule _
  | getSchedule id =>
      simp only [Api.route, Api.getSchedule]
      split <;> trivial
  | updateSchedule id payload now => exact hschedule _
  | deleteSchedule id => exact hschedule _
  | runTestConnection type config =>
      simp only [Api.route, Api.runTestConnection]
      split
      · trivial
      · split <;> trivial
  | _ => trivial

private theorem readRequest_sent {past : List ServerAction}
    (h : ∀ row ∈ c.tables.pipelines, row.SentIn app past) {request : Request}
    (harrived : .arrive request ∈ past) :
    (Session.started (readRequest app c request).1 (readRequest app c request).2).SentIn
      app past := by
  have hstarted : ∀ (user : Option Uuid) (work : RequestWork), work.SentIn app past →
      (Session.started user work).SentIn app past := by
    intro user work hwork
    cases work with
    | answer response => exact hwork
    | stream userId runId => trivial
    | _ => exact hwork
  apply hstarted
  cases request with
  | register id email password salt =>
      simp only [readRequest, Api.register]
      split <;> trivial
  | login email password =>
      simp only [readRequest, Api.login]
      split
      · trivial
      · split <;> trivial
  | tick now ids => trivial
  | api subject request =>
      simp only [readRequest]
      cases huser : currentUser c.tables subject with
      | error reason => trivial
      | ok user =>
          rw [currentUser_eq_ok huser] at harrived
          exact route_sent h harrived

/-! ## Commits -/

/-- What a commit can do to the table of pipelines. -/
inductive PipelineChange (rows : List Pipeline) : RequestWork → List Pipeline → Prop where
  | kept (work : RequestWork) : PipelineChange rows work rows
  | inserted (row : Pipeline) : PipelineChange rows (.insertPipeline row) (rows ++ [row])
  | edited (loaded assigned : Pipeline) :
      PipelineChange rows (.editPipeline loaded assigned) (rows.map fun stored =>
        if stored.id = loaded.id then writePipeline loaded assigned stored else stored)
  | removed (row : Pipeline) :
      PipelineChange rows (.removePipeline row) (rows.filter fun stored => ¬ stored.id = row.id)

private theorem commitSchedules_pipelines (work : ScheduleWork) (c : Calendar) :
    (commitSchedules work c).tables.pipelines = c.tables.pipelines := by
  cases work with
  | insert row =>
      unfold commitSchedules
      dsimp only
      split <;> rfl
  | tick t =>
      unfold commitSchedules
      dsimp only
      split <;> rfl
  | _ => rfl

/-- A commit makes its change to the pipelines, or none. -/
theorem commitRequest_pipelines (work : RequestWork) :
    PipelineChange c.tables.pipelines work (commitRequest app c work).1.tables.pipelines := by
  have hkept : ∀ rows, rows = c.tables.pipelines →
      PipelineChange c.tables.pipelines work rows := by
    rintro rows rfl
    exact .kept work
  cases work with
  | insertPipeline row =>
      unfold commitRequest Commit.insertPipeline
      dsimp only
      split
      · exact .kept _
      · exact .inserted row
  | editPipeline loaded assigned =>
      unfold commitRequest Commit.editPipeline
      dsimp only
      split
      · exact .kept _
      · split
        · exact .edited loaded assigned
        · exact .kept _
  | removePipeline row => exact .removed row
  | insertUser row =>
      apply hkept
      unfold commitRequest Commit.insertUser
      dsimp only
      split <;> rfl
  | insertRun row =>
      apply hkept
      unfold commitRequest Commit.insertRun
      dsimp only
      split <;> rfl
  | insertSecret row =>
      apply hkept
      unfold commitRequest Commit.insertSecret
      dsimp only
      split <;> rfl
  | editSecret loaded assigned =>
      apply hkept
      unfold commitRequest Commit.editSecret
      dsimp only
      split
      · rfl
      · split <;> rfl
  | schedule work =>
      apply hkept
      cases work with
      | insert row =>
          unfold commitRequest Commit.insertSchedule
          dsimp only
          split
          · rfl
          · exact commitSchedules_pipelines _ c
      | edit loaded assigned =>
          unfold commitRequest Commit.editSchedule
          dsimp only
          split
          · rfl
          · split
            · exact commitSchedules_pipelines _ c
            · rfl
      | remove row => exact commitSchedules_pipelines _ c
      | refused reason => rfl
      | tick t =>
          unfold commitRequest Commit.tick
          dsimp only
          split
          · exact commitSchedules_pipelines _ c
          · rfl
  | _ => exact .kept _

/-- A column that is written by two sessions holds what one of them has sent. -/
theorem writePipeline_sent {past : List ServerAction} {loaded assigned stored : Pipeline}
    (hassigned : assigned.SentIn app past) (hstored : stored.SentIn app past)
    (hid : assigned.id = stored.id) (howner : assigned.ownerId = stored.ownerId) :
    (writePipeline loaded assigned stored).SentIn app past := by
  have hname : (writePipeline loaded assigned stored).name = assigned.name ∨
      (writePipeline loaded assigned stored).name = stored.name := (ite_eq_or_eq ..).symm
  have hspec : (writePipeline loaded assigned stored).spec = assigned.spec ∨
      (writePipeline loaded assigned stored).spec = stored.spec := (ite_eq_or_eq ..).symm
  have hnames := hassigned.name
  have hspecs := hassigned.spec
  rw [hid, howner] at hnames hspecs
  constructor
  case created => exact hstored.created
  case name =>
    rcases hname with heq | heq
    · rw [heq]
      exact hnames
    · rw [heq]
      exact hstored.name
  case spec =>
    rcases hspec with heq | heq
    · rw [heq]
      exact hspecs
    · rw [heq]
      exact hstored.spec
  case accepted =>
    rcases hspec with heq | heq
    · rw [heq]
      exact hassigned.accepted
    · rw [heq]
      exact hstored.accepted

/-! ## Runs of the server -/

private theorem commitRequest_sent {issued : List (Uuid × Uuid)} {past : List ServerAction}
    {user : Option Uuid} (htables : c.tables.Sound issued)
    (hrows : ∀ row ∈ c.tables.pipelines, row.SentIn app past) {work : RequestWork}
    (hsound : work.Sound issued user) (hwork : work.SentIn app past) :
    ∀ row ∈ (commitRequest app c work).1.tables.pipelines, row.SentIn app past := by
  have hchange : PipelineChange c.tables.pipelines work
    (commitRequest app c work).1.tables.pipelines := commitRequest_pipelines work
  generalize (commitRequest app c work).1.tables.pipelines = rows at hchange
  cases hchange with
  | kept => exact hrows
  | inserted row => exact List.forall_mem_append.mpr ⟨hrows, List.forall_mem_singleton.mpr hwork⟩
  | removed row => exact fun stored hstored => hrows stored (List.mem_filter.mp hstored).1
  | edited loaded assigned =>
      rw [List.forall_mem_map]
      intro stored hstored
      split
      · rename_i hid
        rcases hwork with ⟨hassigned, hkey, howner⟩
        have hsame : stored.ownerId = loaded.ownerId :=
          htables.ownsPipeline hsound.2 stored hstored hid
        exact writePipeline_sent hassigned (hrows stored hstored) (hkey.trans hid.symm)
          (howner.trans hsame.symm)
      · exact hrows stored hstored

private theorem resumed_sent {past : List ServerAction} {user : Option Uuid} {work : RequestWork}
    (h : work.SentIn app past) :
    (Session.resumed user (commitRequest app c work).2).SentIn app past := by
  by_cases hanswer : ∃ response, work = .answer response
  · rcases hanswer with ⟨response, rfl⟩
    exact h
  · rw [not_exists] at hanswer
    have husual : (commitRequest app c work).2.Usual := commitRequest_usual hanswer
    generalize (commitRequest app c work).2 = followup at husual
    cases husual <;> trivial

private theorem refreshed_sent {past : List ServerAction} {tables : Tables}
    (h : ∀ row ∈ tables.pipelines, row.SentIn app past) (user : Option Uuid) (target : Target) :
    (Session.answered user (refreshed tables target)).SentIn app past := by
  have helim : ∀ {α : Type} (row? : Option α) (answer : α → Response),
      (∀ row, row? = some row → (answer row).SentIn app past) →
      (row?.elim (.refused (.raised invalidRequestError)) answer).SentIn app past := by
    intro α row? answer hanswer
    cases row? with
    | none => trivial
    | some row => exact hanswer row rfl
  cases target with
  | pipeline id => exact helim _ _ fun row hrow => h row (Tables.mem_of_pipeline? hrow).1
  | user id => exact helim _ _ fun _ _ => trivial
  | run id => exact helim _ _ fun _ _ => trivial
  | schedule id => exact helim _ _ fun _ _ => trivial
  | secret id => exact helim _ _ fun _ _ => trivial

namespace Server

variable {s s' : Server} {a : ServerAction}

/-- All pipelines were sent, stored and in all sessions. -/
structure DocumentsInv (app : App) (past : List ServerAction) (s : Server) : Prop where
  inv : s.Inv
  origins : s.Origins app past
  stored : ∀ row ∈ s.tables.pipelines, row.SentIn app past
  sessions : ∀ session ∈ s.sessions, session.SentIn app past

namespace DocumentsInv

variable {past : List ServerAction}

/-- The invariant holds of the fresh server. -/
theorem initial : DocumentsInv app [] Server.initial where
  inv := Inv.initial
  origins := Origins.initial
  stored := fun _ hmem => nomatch hmem
  sessions := fun _ hmem => nomatch hmem

/-- A session that has taken a step still works with pipelines that were sent. -/
theorem set (h : DocumentsInv app past s) (hstep : s.step app a = some s') {i : Nat}
    {session : Session} (hsessions : s'.sessions = s.sessions.set i session)
    (hsession : session.SentIn app past)
    (hstored : ∀ row ∈ s'.tables.pipelines, row.SentIn app past) :
    DocumentsInv app (past ++ [a]) s' where
  inv := h.inv.next hstep
  origins := h.origins.next hstep
  stored := fun row hrow => (hstored row hrow).mono a
  sessions := by
    intro other hmem
    rw [hsessions] at hmem
    rcases List.mem_or_eq_of_mem_set hmem with hold | heq
    · exact (h.sessions other hold).mono a
    · rw [heq]
      exact hsession.mono a

/-- A new session and unchanged tables keep the invariant. -/
theorem append (h : DocumentsInv app past s) (hstep : s.step app a = some s')
    {session : Session} (hsessions : s'.sessions = s.sessions ++ [session])
    (hsession : session.SentIn app past) (hstored : s'.tables = s.tables) :
    DocumentsInv app (past ++ [a]) s' where
  inv := h.inv.next hstep
  origins := h.origins.next hstep
  stored := by
    rw [hstored]
    exact fun row hrow => (h.stored row hrow).mono a
  sessions := by
    rw [hsessions, List.forall_mem_append]
    exact ⟨fun other hmem => (h.sessions other hmem).mono a,
      List.forall_mem_singleton.mpr (hsession.mono a)⟩

/-- No step loses track of what was sent. -/
theorem next (h : DocumentsInv app past s) (hstep : s.step app a = some s') :
    DocumentsInv app (past ++ [a]) s' := by
  cases step_spec hstep with
  | arrive request => exact h.append hstep rfl trivial rfl
  | deliver runId => exact h.append hstep rfl (fun _ hrow => nomatch hrow) rfl
  | read i request hsession =>
      have harrived := h.origins.arrived request (List.mem_of_getElem? hsession)
      exact h.set hstep rfl (readRequest_sent h.stored harrived) h.stored
  | work i user work work' hsession hwork => exact h.set hstep rfl trivial h.stored
  | commit i user work hsession hready hids =>
      have hmem := List.mem_of_getElem? hsession
      have hsent : work.SentIn app past := h.sessions _ hmem
      have hsound : work.Sound s.issued user := h.inv.sessions _ hmem
      exact h.set hstep rfl (resumed_sent hsent)
        (commitRequest_sent h.inv.tables h.stored hsound hsent)
  | refresh i user target hsession =>
      exact h.set hstep rfl (refreshed_sent h.stored user target) h.stored
  | execute i b call call' tables hsession hcall =>
      have hloaded := h.sessions _ (List.mem_of_getElem? hsession)
      rcases WorkerCall.step_eq_some hcall with ⟨db, phase, _, _, hloads, htables⟩
      have hkept : tables.pipelines = s.tables.pipelines := by
        rcases htables with ⟨_, rfl, _⟩ | ⟨rfl, _⟩
        · rfl
        · rfl
      apply h.set hstep rfl
      · intro row hrow
        rw [hloads] at hrow
        cases b with
        | readPipeline =>
            rcases Option.bind_eq_some_iff.mp hrow with ⟨run, _, hpipeline⟩
            exact h.stored row (Tables.mem_of_pipeline? hpipeline).1
        | _ => exact hloaded row hrow
      · intro row hrow
        exact h.stored row (hkept ▸ hrow)
  | stream i b userId runId client client' hsession hclient =>
      exact h.set hstep rfl trivial h.stored

/-- The invariant holds in every reachable state. -/
theorem of_exec {actions : List ServerAction}
    (h : exec (Server.step app) Server.initial actions = some s) :
    DocumentsInv app actions s := by
  have hpast : DocumentsInv app ([] ++ actions) s :=
    exec_past (fun past s => DocumentsInv app past s) (fun _ _ _ _ hs hstep => hs.next hstep)
      initial h
  rwa [List.nil_append] at hpast

end DocumentsInv

end Server

/-- The documents of a server that has carried out some actions. -/
structure DocumentsKept (app : App) (actions : List ServerAction) (s : Server) : Prop where
  /-- A stored pipeline is as its owner has sent it, and its document has been accepted. -/
  stored : ∀ row ∈ s.tables.pipelines, row.SentIn app actions
  /-- So are the pipelines that requests are answered with. -/
  answered : ∀ user response, .answered user response ∈ s.sessions → response.SentIn app actions
  /-- A worker that has claimed a run is about to parse a document of the owner of the run. -/
  executed : ∀ call ownerId spec, .executing call ∈ s.sessions →
    call.phase = .claimed ownerId spec → ∃ row : Pipeline, row.SentIn app actions ∧
      row.ownerId = ownerId ∧ row.spec = spec ∧ (call.runId, ownerId) ∈ s.issued
  /-- It can only fail to do so for want of a cipher. -/
  parsed : ∀ call ownerId spec, .executing call ∈ s.sessions →
    call.phase = .claimed ownerId spec → ∀ rows exc,
      Deployment.prepare { app.worker with secretRows := rows } ownerId spec = .error exc →
        app.worker.secretsCipher = .error exc

/-- However requests, edits and workers interleave: what is stored, shown or executed as a
pipeline was sent by its owner and has been accepted. -/
theorem documents_kept (app : App) (actions : List ServerAction) (s : Server)
    (h : exec (Server.step app) Server.initial actions = some s) :
    DocumentsKept app actions s := by
  have hinv := Server.DocumentsInv.of_exec h
  have hclaimed : ∀ call ownerId spec, .executing call ∈ s.sessions →
      call.phase = .claimed ownerId spec → ∃ row : Pipeline, row.SentIn app actions ∧
        row.ownerId = ownerId ∧ row.spec = spec ∧ (call.runId, ownerId) ∈ s.issued := by
    intro call ownerId spec hcall hphase
    have hsound : call.Sound s.issued := hinv.inv.sessions _ hcall
    have howned := hsound.phase
    rw [hphase] at howned
    rcases howned with ⟨row, hrow, hspec, howner⟩
    exact ⟨row, hinv.sessions _ hcall row hrow, howner, hspec, howner ▸ hsound.pipeline row hrow⟩
  constructor
  case stored => exact hinv.stored
  case answered => exact fun user response hmem => hinv.sessions _ hmem
  case executed => exact hclaimed
  case parsed =>
    intro call ownerId spec hcall hphase rows exc hprepare
    rcases hclaimed call ownerId spec hcall hphase with ⟨row, hsent, _, rfl, _⟩
    rcases hsent.accepted with ⟨parsed, hparsed⟩
    simp only [Deployment.prepare, hparsed] at hprepare
    split at hprepare
    · rename_i failure hcipher
      cases hprepare
      exact hcipher
    · cases hprepare

namespace Samples

/-- An application whose documents list their nodes. -/
def listingApp : App :=
  { Samples.app with
    worker := { Samples.app.worker with
      modelValidate := fun spec =>
        if spec.any fun field => field.1 = "nodes" then .ok onlySource
        else .error ⟨"ValidationError", none⟩ } }

/-- Three edits of one pipeline race: of the name, of the document, and with a document that
is refused. -/
def racingEdits : List ServerAction :=
  request 0 (.register "first" "first@example.org" "password" "salt") ++
  request 1 (.api (some "first") (.createPipeline "pipeline" "daily" [("nodes", .list [])])) ++
  [.arrive (.api (some "first") (.updatePipeline "pipeline" (some "weekly") none)),
    .arrive (.api (some "first") (.updatePipeline "pipeline" none
      (some [("nodes", .list []), ("edges", .list [])]))),
    .arrive (.api (some "first") (.updatePipeline "pipeline" none (some []))),
    .read 2, .read 3, .read 4, .commit 3, .commit 2]

end Samples

/-- Two of three racing edits are committed, and the third is refused. -/
theorem documents_kept_racing :
    ∃ s, exec (Server.step Samples.listingApp) Server.initial Samples.racingEdits = some s ∧
      s.tables.pipelines =
        [⟨"pipeline", "first", "weekly", [("nodes", .list []), ("edges", .list [])]⟩] ∧
      s.sessions[4]?.bind Samples.refusal? =
        some (.unprocessable "invalid pipeline spec: 1 error(s)") ∧
      DocumentsKept Samples.listingApp Samples.racingEdits s := by
  have hcheck : (exec (Server.step Samples.listingApp) Server.initial Samples.racingEdits).map
      (fun s => (s.tables.pipelines, s.sessions[4]?.bind Samples.refusal?)) =
      some ([⟨"pipeline", "first", "weekly", [("nodes", .list []), ("edges", .list [])]⟩],
        some (.unprocessable "invalid pipeline spec: 1 error(s)")) := by
    decide +kernel
  rcases Option.map_eq_some_iff.mp hcheck with ⟨s, hrun, heq⟩
  rw [Prod.mk.injEq] at heq
  exact ⟨s, hrun, heq.1, heq.2, documents_kept Samples.listingApp Samples.racingEdits s hrun⟩

end EtlTool
