import EtlTool.Foundations.EventHistories
import EtlTool.Server.Tenancy

/-!
# Where changes come from

A change waits between the read of its request and its commit.  Whatever waits has been
read for a request that arrived before; a commit either is refused and leaves the tables
of users and secrets, or makes the change that was waiting.

Main results:

- Theorem {lit}`Server.Origins.of_exec`: what is about to be committed has been asked for.
- Theorem {lit}`Server.step_kept`: only commits change users and secrets.
- Theorem {lit}`route_plain`, {lit}`commitRequest_plain`: which requests and which commits
  are about users or secrets.
-/

namespace EtlTool

open Interleaving

variable {app : App} {s s' : Server} {a : ServerAction}

/-! ## Origins -/

/-- The work has been read for a request that has arrived.  Work on schedules goes on
between its read and its commit. -/
def RequestWork.From (app : App) (past : List ServerAction) (user : Option Uuid)
    (work : RequestWork) : Prop :=
  (∃ scheduleWork, work = .schedule scheduleWork) ∨
    ∃ request c, .arrive request ∈ past ∧ readRequest app c request = (user, work)

namespace Server

/-- Every session goes back to a request that has arrived. -/
structure Origins (app : App) (past : List ServerAction) (s : Server) : Prop where
  arrived : ∀ request, .arrived request ∈ s.sessions → .arrive request ∈ past
  working : ∀ user work, .working user work ∈ s.sessions → work.From app past user

namespace Origins

variable {past : List ServerAction}

theorem initial : Server.initial.Origins app [] where
  arrived := fun _ hmem => nomatch hmem
  working := fun _ _ hmem => nomatch hmem

private theorem from_mono {user : Option Uuid} {work : RequestWork} (h : work.From app past user)
    (a : ServerAction) : work.From app (past ++ [a]) user := by
  rcases h with hschedule | ⟨request, c, harrived, hread⟩
  · exact .inl hschedule
  · exact .inr ⟨request, c, List.mem_append_left _ harrived, hread⟩

/-- The sessions stay, but for one that goes back to a request. -/
theorem become (h : s.Origins app past) {i : Nat} {session : Session} {calendar : Calendar}
    {issued : List (Uuid × Uuid)} (harrived : ∀ request, session ≠ .arrived request)
    (hworking : ∀ user work, session = .working user work → work.From app (past ++ [a]) user) :
    Origins app (past ++ [a]) ⟨calendar, issued, s.sessions.set i session⟩ where
  arrived := by
    intro request hmem
    rcases List.mem_or_eq_of_mem_set hmem with hold | hnew
    · exact List.mem_append_left _ (h.arrived request hold)
    · exact absurd hnew.symm (harrived request)
  working := by
    intro user work hmem
    rcases List.mem_or_eq_of_mem_set hmem with hold | hnew
    · exact from_mono (h.working user work hold) a
    · exact hworking user work hnew.symm

theorem arrive (h : s.Origins app past) (request : Request) :
    Origins app (past ++ [.arrive request])
      { s with sessions := s.sessions ++ [.arrived request] } where
  arrived := by
    intro other hmem
    rcases List.mem_append.mp hmem with hold | hnew
    · exact List.mem_append_left _ (h.arrived other hold)
    · cases List.mem_singleton.mp hnew
      exact List.mem_append_right _ (List.mem_singleton_self _)
  working := by
    intro user work hmem
    rcases List.mem_append.mp hmem with hold | hnew
    · exact from_mono (h.working user work hold) _
    · cases List.mem_singleton.mp hnew

theorem deliver (h : s.Origins app past) (runId : Uuid) :
    Origins app (past ++ [.deliver runId])
      { s with sessions := s.sessions ++ [.executing ⟨runId, none, .start⟩] } where
  arrived := by
    intro request hmem
    rcases List.mem_append.mp hmem with hold | hnew
    · exact List.mem_append_left _ (h.arrived request hold)
    · cases List.mem_singleton.mp hnew
  working := by
    intro user work hmem
    rcases List.mem_append.mp hmem with hold | hnew
    · exact from_mono (h.working user work hold) _
    · cases List.mem_singleton.mp hnew

/-- A request that has been read goes back to itself. -/
theorem started {user user' : Option Uuid} {work work' : RequestWork} {request : Request}
    {c : Calendar} (harrived : .arrive request ∈ past)
    (hread : readRequest app c request = (user, work))
    (h : Session.started user work = .working user' work') : work'.From app past user' := by
  have hsame : user' = user ∧ work' = work := by
    cases work with
    | answer response => cases h
    | stream userId runId => cases h
    | _ =>
        cases h
        exact ⟨rfl, rfl⟩
  rcases hsame with ⟨rfl, rfl⟩
  exact .inr ⟨request, c, harrived, hread⟩

private theorem started_ne_arrived (user : Option Uuid) (work : RequestWork) (request : Request) :
    Session.started user work ≠ .arrived request := by
  cases work <;> exact fun h => nomatch h

theorem next (h : s.Origins app past) (hstep : s.step app a = some s') :
    s'.Origins app (past ++ [a]) := by
  cases step_spec hstep with
  | arrive request => exact h.arrive request
  | deliver runId => exact h.deliver runId
  | read i request hsession =>
      have harrived := h.arrived request (List.mem_of_getElem? hsession)
      apply h.become
      · exact started_ne_arrived _ _
      · intro user work heq
        exact started (List.mem_append_left _ harrived) rfl heq
  | work i user work work' hsession hwork =>
      apply h.become
      · exact fun _ heq => nomatch heq
      · intro other later heq
        cases heq
        exact .inl ⟨work', rfl⟩
  | commit i user work hsession hready hids =>
      apply h.become
      · intro request heq
        cases hnext : (commitRequest app s.calendar work).2 with
        | answered response => rw [hnext] at heq; cases heq
        | refreshing target => rw [hnext] at heq; cases heq
      · intro other later heq
        cases hnext : (commitRequest app s.calendar work).2 with
        | answered response => rw [hnext] at heq; cases heq
        | refreshing target => rw [hnext] at heq; cases heq
  | refresh i user target hsession =>
      exact h.become (fun _ heq => nomatch heq) fun _ _ heq => nomatch heq
  | execute i b call call' tables hsession hcall =>
      exact h.become (fun _ heq => nomatch heq) fun _ _ heq => nomatch heq
  | stream i b userId runId client client' hsession hclient =>
      exact h.become (fun _ heq => nomatch heq) fun _ _ heq => nomatch heq

/-- What is about to be committed has been asked for. -/
theorem of_exec {actions : List ServerAction}
    (h : exec (Server.step app) Server.initial actions = some s) : s.Origins app actions := by
  have hpast : s.Origins app ([] ++ actions) :=
    exec_past (fun past s => Origins app past s) (fun _ _ _ _ hs hstep => hs.next hstep) initial h
  rwa [List.nil_append] at hpast

end Origins

/-! ## What commits change -/

/-- Only commits change users and secrets, and only they draw ids. -/
theorem step_kept (hstep : s.step app a = some s') (hcommit : ∀ i, a ≠ .commit i) :
    s'.tables.users = s.tables.users ∧ s'.tables.secrets = s.tables.secrets ∧
      s'.issued = s.issued := by
  cases step_spec hstep with
  | commit i user work hsession hready hids => exact absurd rfl (hcommit i)
  | execute i b call call' tables hsession hcall =>
      rcases WorkerCall.step_eq_some hcall with ⟨db, phase, _, _, _, ⟨_, rfl, _⟩ | ⟨rfl, _⟩⟩
      · exact ⟨rfl, rfl, rfl⟩
      · exact ⟨rfl, rfl, rfl⟩
  | _ => exact ⟨rfl, rfl, rfl⟩

end Server

/-- Whether the change of a request has been made. -/
def Followup.committed : Followup → Bool
  | .answered (.refused _) => false
  | _ => true

private theorem commitSchedules_kept (work : ScheduleWork) (c : Calendar) :
    (commitSchedules work c).tables.users = c.tables.users ∧
      (commitSchedules work c).tables.secrets = c.tables.secrets := by
  cases work with
  | insert row =>
      unfold commitSchedules
      dsimp only
      split <;> exact ⟨rfl, rfl⟩
  | tick t =>
      unfold commitSchedules
      dsimp only
      split <;> exact ⟨rfl, rfl⟩
  | _ => exact ⟨rfl, rfl⟩

/-- Work that is about neither users nor secrets, and that lets nobody in. -/
def RequestWork.plain : RequestWork → Bool
  | .answer (.token _) => false
  | .insertUser _ => false
  | .insertSecret _ => false
  | .editSecret _ _ => false
  | .removeSecret _ => false
  | _ => true

/-- Only requests for secrets lead to work on secrets, and no request of a user leads to
work on users or to a token. -/
theorem route_plain {c : Calendar} {user : User} {request : ApiRequest}
    (hset : ∀ id ref value nonce, request ≠ .setSecret id ref value nonce)
    (hremove : ∀ ref, request ≠ .removeSecret ref) :
    (Api.route app user c request).plain = true := by
  have hschedule : ∀ request : ScheduleRequest,
      (Api.scheduleRequest app request c).plain = true := by
    intro request
    unfold Api.scheduleRequest
    split <;> rfl
  cases request with
  | setSecret id ref value nonce => exact absurd rfl (hset id ref value nonce)
  | removeSecret ref => exact absurd rfl (hremove ref)
  | createPipeline id name spec =>
      simp only [Api.route, Api.createPipeline]
      split <;> rfl
  | getPipeline id =>
      simp only [Api.route, Api.getPipeline]
      split <;> rfl
  | updatePipeline id name spec =>
      simp only [Api.route, Api.updatePipeline]
      split
      · rfl
      · split <;> rfl
  | deletePipeline id =>
      simp only [Api.route, Api.deletePipeline]
      split <;> rfl
  | triggerRun id pipelineId params =>
      simp only [Api.route, Api.triggerRun]
      split <;> rfl
  | getRun id =>
      simp only [Api.route, Api.getRun]
      split <;> rfl
  | streamRunEvents id =>
      simp only [Api.route, Api.streamRunEvents]
      split <;> rfl
  | createSchedule id payload now => exact hschedule _
  | getSchedule id =>
      simp only [Api.route, Api.getSchedule]
      split <;> rfl
  | updateSchedule id payload now => exact hschedule _
  | deleteSchedule id => exact hschedule _
  | runTestConnection type config =>
      simp only [Api.route, Api.runTestConnection]
      split
      · rfl
      · split <;> rfl
  | _ => rfl

/-- Work that is about neither leaves both. -/
theorem commitRequest_plain {c : Calendar} {work : RequestWork} (h : work.plain = true) :
    (commitRequest app c work).1.tables.users = c.tables.users ∧
      (commitRequest app c work).1.tables.secrets = c.tables.secrets := by
  cases work with
  | answer response => exact ⟨rfl, rfl⟩
  | insertUser row => cases h
  | insertSecret row => cases h
  | editSecret loaded assigned => cases h
  | removeSecret row => cases h
  | insertPipeline row =>
      unfold commitRequest Commit.insertPipeline
      dsimp only
      split <;> exact ⟨rfl, rfl⟩
  | editPipeline loaded assigned =>
      unfold commitRequest Commit.editPipeline
      dsimp only
      split
      · exact ⟨rfl, rfl⟩
      · split <;> exact ⟨rfl, rfl⟩
  | insertRun row =>
      unfold commitRequest Commit.insertRun
      dsimp only
      split <;> exact ⟨rfl, rfl⟩
  | schedule work =>
      cases work with
      | insert row =>
          unfold commitRequest Commit.insertSchedule
          dsimp only
          split
          · exact ⟨rfl, rfl⟩
          · exact commitSchedules_kept _ c
      | edit loaded assigned =>
          unfold commitRequest Commit.editSchedule
          dsimp only
          split
          · exact ⟨rfl, rfl⟩
          · split
            · exact commitSchedules_kept _ c
            · exact ⟨rfl, rfl⟩
      | remove row => exact commitSchedules_kept _ c
      | refused reason => exact ⟨rfl, rfl⟩
      | tick t =>
          unfold commitRequest Commit.tick
          dsimp only
          split
          · exact commitSchedules_kept _ c
          · exact ⟨rfl, rfl⟩
  | _ => exact ⟨rfl, rfl⟩

/-! ## How requests go on -/

/-- How a request can go on after its commit. -/
inductive Followup.Usual : Followup → Prop
  | refused (reason : Refusal) : Usual (.answered (.refused reason))
  | noContent : Usual (.answered .noContent)
  | refreshing (target : Target) : Usual (.refreshing target)

/-- A commit says that it was refused or that it is done, or a row is read once more. -/
theorem commitRequest_usual {c : Calendar} {work : RequestWork}
    (h : ∀ response, work ≠ .answer response) :
    (commitRequest app c work).2.Usual := by
  cases work with
  | answer response => exact absurd rfl (h response)
  | insertUser row =>
      unfold commitRequest Commit.insertUser
      dsimp only
      split
      · exact .refused _
      · exact .refreshing _
  | insertPipeline row =>
      unfold commitRequest Commit.insertPipeline
      dsimp only
      split
      · exact .refused _
      · exact .refreshing _
  | editPipeline loaded assigned =>
      unfold commitRequest Commit.editPipeline
      dsimp only
      split
      · exact .refreshing _
      · split
        · exact .refreshing _
        · exact .refused _
  | insertRun row =>
      unfold commitRequest Commit.insertRun
      dsimp only
      split
      · exact .refused _
      · dsimp only
        split
        · exact .refused _
        · exact .refreshing _
  | insertSecret row =>
      unfold commitRequest Commit.insertSecret
      dsimp only
      split
      · exact .refused _
      · exact .refreshing _
  | editSecret loaded assigned =>
      unfold commitRequest Commit.editSecret
      dsimp only
      split
      · exact .refreshing _
      · split
        · exact .refreshing _
        · exact .refused _
  | schedule work =>
      cases work with
      | insert row =>
          unfold commitRequest Commit.insertSchedule
          dsimp only
          split
          · exact .refused _
          · exact .refreshing _
      | edit loaded assigned =>
          unfold commitRequest Commit.editSchedule
          dsimp only
          split
          · exact .refreshing _
          · split
            · exact .refreshing _
            · exact .refused _
      | remove row => exact .noContent
      | refused reason => exact .refused _
      | tick t =>
          unfold commitRequest Commit.tick
          dsimp only
          split
          · exact .noContent
          · exact .refused _
  | _ => exact .noContent

end EtlTool
