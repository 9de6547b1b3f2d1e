import Mathlib.Data.List.Basic
import EtlTool.Foundations.Transactions
import EtlTool.Server.Tables

/-!
# Schedules

Creating and editing schedules, and the tick that starts a run for every schedule that
is due.  Each of them is a transaction: it reads, works on what it has read, and
commits the columns that it has changed.  The tick works on one due schedule after the
other, and hands its runs over to the queue when it has committed.

What croniter and the timezone database say is a parameter.

Main results:

- Theorem {lit}`enqueueRuns_eq`: which runs are handed over when some calls raise.
- Theorem {lit}`atomic_tick`: what a tick leaves that nobody interrupts.
- Theorem {lit}`atomic_rows`: where every row comes from that is stored after a request
  that nobody interrupts.
-/

namespace EtlTool

/-! ## Timing -/

/-- What croniter and the timezone database say about an expression. -/
structure Cron where
  /-- {lit}`croniter.is_valid`. -/
  isValid : String → Bool
  /-- {lit}`ZoneInfo(name)` exists. -/
  knownZone : String → Bool
  /-- {lit}`croniter(expr, after).get_next(datetime)` in a timezone, in UTC. -/
  getNext : String → String → Time → Except PyException Time

/-- Why no next run can be computed. -/
inductive TimingFailure where
  /-- {lit}`ScheduleConfigError`. -/
  | config (message : String)
  | other (exc : PyException)
deriving DecidableEq

namespace Cron

variable (cron : Cron)

/-- {lit}`validate_cron`, then {lit}`validate_timezone`. -/
def validate (rt : Runtime) (cronExpr timezone : String) : Except String Unit :=
  if cron.isValid cronExpr then
    if cron.knownZone timezone then .ok ()
    else .error ("unknown timezone " ++ rt.reprStr timezone)
  else .error ("invalid cron expression " ++ rt.reprStr cronExpr)

/-- {lit}`compute_next_run`. -/
def computeNextRun (rt : Runtime) (cronExpr timezone : String) (after : Time) :
    Except TimingFailure Time :=
  match cron.validate rt cronExpr timezone with
  | .error message => .error (.config message)
  | .ok () =>
      match cron.getNext cronExpr timezone after with
      | .error exc => .error (.other exc)
      | .ok next => .ok next

end Cron

/-! ## Requests -/

/-- {lit}`ScheduleCreate`. -/
structure ScheduleCreate where
  pipelineId : Uuid
  cronExpr : String
  timezone : String := "UTC"
  enabled : Bool := true
deriving DecidableEq

/-- {lit}`ScheduleUpdate`. -/
structure ScheduleUpdate where
  cronExpr : Option String := none
  timezone : Option String := none
  enabled : Option Bool := none
deriving DecidableEq

/-- Why a request changes nothing. -/
inductive Refusal where
  /-- {lit}`404`. -/
  | notFound (kind : String)
  /-- {lit}`422`. -/
  | unprocessable (message : String)
  /-- {lit}`409`. -/
  | conflict (message : String)
  /-- {lit}`401`. -/
  | unauthenticated
  /-- An exception that nobody handles. -/
  | raised (exc : PyException)
deriving DecidableEq

/-- {lit}`refresh_next_run`. -/
def refreshNextRun (cron : Cron) (rt : Runtime) (schedule : Schedule) (now : Time) :
    Except Refusal Schedule :=
  match cron.computeNextRun rt schedule.cronExpr schedule.timezone now with
  | .error (.config message) => .error (.raised ⟨"ScheduleConfigError", some message⟩)
  | .error (.other exc) => .error (.raised exc)
  | .ok next => .ok { schedule with nextRun := some next }

/-- {lit}`create_schedule`, after the pipeline has been found: the new row. -/
def createSchedule (cron : Cron) (rt : Runtime) (id ownerId : Uuid) (payload : ScheduleCreate)
    (now : Time) : Except Refusal Schedule :=
  match cron.validate rt payload.cronExpr payload.timezone with
  | .error message => .error (.unprocessable message)
  | .ok () =>
      let schedule : Schedule := {
        id := id
        pipelineId := payload.pipelineId
        ownerId := ownerId
        cronExpr := payload.cronExpr
        timezone := payload.timezone
        enabled := payload.enabled
        lastRun := none
        nextRun := none }
      if schedule.enabled then refreshNextRun cron rt schedule now else .ok schedule

/-- The request gives a new timing. -/
def ScheduleUpdate.timingChanged (payload : ScheduleUpdate) : Bool :=
  payload.cronExpr.isSome || payload.timezone.isSome

/-- The row with the new timing and the new switch. -/
def ScheduleUpdate.assign (payload : ScheduleUpdate) (loaded : Schedule) : Schedule :=
  { loaded with
    cronExpr := payload.cronExpr.getD loaded.cronExpr
    timezone := payload.timezone.getD loaded.timezone
    enabled := payload.enabled.getD loaded.enabled }

/-- {lit}`update_schedule`, after the row has been found: the row that is committed. -/
def updateSchedule (cron : Cron) (rt : Runtime) (loaded : Schedule) (payload : ScheduleUpdate)
    (now : Time) : Except Refusal Schedule :=
  let assigned := payload.assign loaded
  let checked := if payload.timingChanged then
      cron.validate rt assigned.cronExpr assigned.timezone else .ok ()
  match checked with
  | .error message => .error (.unprocessable message)
  | .ok () =>
      if assigned.enabled &&
          (payload.timingChanged || !loaded.enabled || loaded.nextRun.isNone) then
        refreshNextRun cron rt assigned now
      else .ok assigned

/-! ## The tick -/

/-- The condition under which a tick selects a schedule. -/
def Schedule.isDue (schedule : Schedule) (now : Time) : Bool :=
  schedule.enabled && schedule.nextRun.any fun next => decide (next ≤ now)

/-- The schedules that a tick selects. -/
def dueSchedules (tables : Tables) (now : Time) : List Schedule :=
  tables.schedules.filter fun schedule => schedule.isDue now

/-- What the tick assigns to a due schedule. -/
def advance (cron : Cron) (rt : Runtime) (schedule : Schedule) (now : Time) :
    Except PyException Schedule :=
  match cron.computeNextRun rt schedule.cronExpr schedule.timezone now with
  | .ok next => .ok { schedule with lastRun := some now, nextRun := some next }
  | .error (.config _) => .ok { schedule with lastRun := some now, enabled := false }
  | .error (.other exc) => .error exc

/-- A run that a tick has created: for which schedule, and at which of its times the
schedule was due.  The source does not keep this. -/
structure Firing where
  scheduleId : Uuid
  dueAt : Option Time
  runId : Uuid
deriving DecidableEq

/-- The run of a due schedule. -/
def scheduledRun (id : Uuid) (schedule : Schedule) : RunRow :=
  .queued id schedule.pipelineId schedule.ownerId .schedule none

/-- A tick between its read and its commit: the schedules that it has not worked on yet,
those that it has changed, and the runs that it has created. -/
structure Tick where
  now : Time
  ids : Nat → Uuid
  pending : List Schedule
  changed : List (Schedule × Schedule)
  runs : List RunRow
  firings : List Firing
  failure : Option PyException

namespace Tick

/-- The tick has read. -/
def start (now : Time) (ids : Nat → Uuid) (due : List Schedule) : Tick where
  now := now
  ids := ids
  pending := due
  changed := []
  runs := []
  firings := []
  failure := none

/-- One round of the loop over the due schedules. -/
def flush (cron : Cron) (rt : Runtime) (t : Tick) : Option Tick :=
  match t.pending with
  | [] => none
  | schedule :: rest =>
      match advance cron rt schedule t.now with
      | .error exc => some { t with pending := [], failure := some exc }
      | .ok advanced =>
          let id := t.ids t.runs.length
          some { t with
            pending := rest
            changed := t.changed ++ [(schedule, advanced)]
            runs := t.runs ++ [scheduledRun id schedule]
            firings := t.firings ++ [⟨schedule.id, schedule.nextRun, id⟩] }

end Tick

/-- Write the columns that a session has changed. -/
def writeSchedule (loaded assigned stored : Schedule) : Schedule where
  id := stored.id
  pipelineId := stored.pipelineId
  ownerId := stored.ownerId
  cronExpr := ormWrite loaded.cronExpr assigned.cronExpr stored.cronExpr
  timezone := ormWrite loaded.timezone assigned.timezone stored.timezone
  enabled := ormWrite loaded.enabled assigned.enabled stored.enabled
  lastRun := ormWrite loaded.lastRun assigned.lastRun stored.lastRun
  nextRun := ormWrite loaded.nextRun assigned.nextRun stored.nextRun

/-- Write what has been changed about a row. -/
def writeChanged (changed : List (Schedule × Schedule)) (stored : Schedule) : Schedule :=
  match changed.find? fun change => change.1.id = stored.id with
  | some (loaded, assigned) => writeSchedule loaded assigned stored
  | none => stored

/-! ## Transactions on schedules -/

/-- The tables, and the runs that ticks have created. -/
structure Calendar where
  tables : Tables
  firings : List Firing

/-- A request that works on schedules. -/
inductive ScheduleRequest where
  | create (userId id : Uuid) (payload : ScheduleCreate) (now : Time)
  | update (userId id : Uuid) (payload : ScheduleUpdate) (now : Time)
  | delete (userId id : Uuid)
  | tick (now : Time) (ids : Nat → Uuid)

/-- What a request is about to commit. -/
inductive ScheduleWork where
  | insert (row : Schedule)
  | edit (loaded assigned : Schedule)
  | remove (row : Schedule)
  | refused (reason : Refusal)
  | tick (t : Tick)

/-- A lookup for a user: a row of somebody else is as good as missing. -/
def getOwned {α : Type} (kind : String) (ownerId : α → Uuid) (row? : Option α) (userId : Uuid) :
    Except Refusal α :=
  match row? with
  | none => .error (.notFound kind)
  | some row => if ownerId row = userId then .ok row else .error (.notFound kind)

/-- {lit}`get_owned_pipeline`. -/
def getOwnedPipeline (tables : Tables) (pipelineId ownerId : Uuid) : Except Refusal Pipeline :=
  getOwned "pipeline" Pipeline.ownerId (tables.pipeline? pipelineId) ownerId

/-- {lit}`get_owned_schedule`. -/
def getOwnedSchedule (tables : Tables) (scheduleId ownerId : Uuid) : Except Refusal Schedule :=
  getOwned "schedule" Schedule.ownerId (tables.schedule? scheduleId) ownerId

/-- What a request reads, and what it makes of it. -/
def readSchedules (cron : Cron) (rt : Runtime) (request : ScheduleRequest) (c : Calendar) :
    ScheduleWork :=
  match request with
  | .create userId id payload now =>
      match getOwnedPipeline c.tables payload.pipelineId userId with
      | .error reason => .refused reason
      | .ok _ =>
          match createSchedule cron rt id userId payload now with
          | .error reason => .refused reason
          | .ok row => .insert row
  | .update userId id payload now =>
      match getOwnedSchedule c.tables id userId with
      | .error reason => .refused reason
      | .ok loaded =>
          match updateSchedule cron rt loaded payload now with
          | .error reason => .refused reason
          | .ok assigned => .edit loaded assigned
  | .delete userId id =>
      match getOwnedSchedule c.tables id userId with
      | .error reason => .refused reason
      | .ok row => .remove row
  | .tick now ids => .tick (.start now ids (dueSchedules c.tables now))

/-- Only the tick works in several steps. -/
def workSchedules (cron : Cron) (rt : Runtime) : ScheduleWork → Option ScheduleWork
  | .tick t => (t.flush cron rt).map .tick
  | _ => none

/-- The ids of new runs are new. -/
def FreshIds (tables : Tables) (runs : List RunRow) : Prop :=
  (runs.map RunRow.id).Nodup ∧ ∀ run ∈ runs, run.id ∉ tables.runs.map RunRow.id

instance (tables : Tables) (runs : List RunRow) : Decidable (FreshIds tables runs) :=
  inferInstanceAs (Decidable (_ ∧ _))

/-- Every row that was changed still exists. -/
def RowsExist (tables : Tables) (changed : List (Schedule × Schedule)) : Prop :=
  ∀ change ∈ changed, change.1.id ∈ tables.schedules.map Schedule.id

instance (tables : Tables) (changed : List (Schedule × Schedule)) :
    Decidable (RowsExist tables changed) :=
  inferInstanceAs (Decidable (∀ change ∈ changed, _))

/-- What a request commits.  A commit that fails leaves the tables as they are: an
{lit}`INSERT` of an id that is taken, or an {lit}`UPDATE` of a row that is gone. -/
def commitSchedules (work : ScheduleWork) (c : Calendar) : Calendar :=
  match work with
  | .insert row =>
      if row.id ∈ c.tables.schedules.map Schedule.id then c
      else { c with tables := { c.tables with schedules := c.tables.schedules ++ [row] } }
  | .edit loaded assigned =>
      { c with tables := { c.tables with
        schedules := c.tables.schedules.map (writeChanged [(loaded, assigned)]) } }
  | .remove row =>
      { c with tables := { c.tables with
        schedules := c.tables.schedules.filter fun stored => ¬ stored.id = row.id } }
  | .refused _ => c
  | .tick t =>
      if t.failure = none ∧ RowsExist c.tables t.changed ∧ FreshIds c.tables t.runs then {
        tables := { c.tables with
          schedules := c.tables.schedules.map (writeChanged t.changed)
          runs := c.tables.runs ++ t.runs }
        firings := c.firings ++ t.firings }
      else c

/-- The protocol of the requests. -/
def scheduling (cron : Cron) (rt : Runtime) :
    Transactions.Protocol Calendar ScheduleRequest ScheduleWork where
  read := readSchedules cron rt
  work := workSchedules cron rt
  commit := commitSchedules

/-! ## The queue -/

/-- {lit}`for run_id in run_ids: await enqueue(run_id)`: the runs that are handed over,
and the one whose call raises and ends the loop. -/
def enqueueRuns (fails : Uuid → Bool) : List Uuid → List Uuid × Option Uuid
  | [] => ([], none)
  | id :: rest =>
      if fails id then ([], some id)
      else
        let handed := enqueueRuns fails rest
        (id :: handed.1, handed.2)

/-- The runs before the first call that raises are handed over. -/
theorem enqueueRuns_eq (fails : Uuid → Bool) (runIds : List Uuid) :
    (enqueueRuns fails runIds).1 = runIds.takeWhile fun id => !fails id := by
  induction runIds with
  | nil => rfl
  | cons id rest ih =>
      unfold enqueueRuns
      by_cases hfails : fails id = true
      · simp [hfails]
      · simp [hfails, ih]

/-! ## A tick that nobody interrupts -/

/-- A schedule is due iff it is enabled and its next run is not in the future. -/
theorem isDue_iff {schedule : Schedule} {now : Time} :
    schedule.isDue now = true ↔ schedule.enabled = true ∧
      ∃ next, schedule.nextRun = some next ∧ next ≤ now := by
  unfold Schedule.isDue
  cases schedule.nextRun with
  | none => simp
  | some next => simp

/-- The runs of due schedules. -/
def scheduledRuns (ids : Nat → Uuid) (due : List Schedule) : List RunRow :=
  due.mapIdx fun i schedule => scheduledRun (ids i) schedule

/-- The firings of due schedules. -/
def scheduledFirings (ids : Nat → Uuid) (due : List Schedule) : List Firing :=
  due.mapIdx fun i schedule => ⟨schedule.id, schedule.nextRun, ids i⟩

/-- What a tick has done, after it has worked on some of the due schedules. -/
structure Tick.Sound (cron : Cron) (rt : Runtime) (now : Time) (ids : Nat → Uuid)
    (due finished : List Schedule) (t : Tick) : Prop where
  now_eq : t.now = now
  ids_eq : t.ids = ids
  split : t.failure = none → finished ++ t.pending = due
  failed : t.failure ≠ none → ∃ schedule ∈ due, ∃ exc, advance cron rt schedule now = .error exc
  changed : List.Forall₂ (fun schedule change =>
    change.1 = schedule ∧ advance cron rt schedule now = .ok change.2) finished t.changed
  runs : t.runs = scheduledRuns ids finished
  firings : t.firings = scheduledFirings ids finished

variable {cron : Cron} {rt : Runtime} {now : Time} {ids : Nat → Uuid}

/-- A tick starts out sound. -/
theorem Tick.Sound.start (due : List Schedule) :
    Tick.Sound cron rt now ids due [] (.start now ids due) where
  now_eq := rfl
  ids_eq := rfl
  split := fun _ => rfl
  failed := nofun
  changed := .nil
  runs := rfl
  firings := rfl

/-- One round keeps the account of what has been done. -/
theorem Tick.Sound.flush {due finished : List Schedule} {t t' : Tick}
    (h : Tick.Sound cron rt now ids due finished t) (hfailure : t.failure = none)
    (hflush : t.flush cron rt = some t') :
    ∃ finished', Tick.Sound cron rt now ids due finished' t' ∧
      (t'.failure ≠ none → t'.pending = []) := by
  unfold Tick.flush at hflush
  cases hpending : t.pending with
  | nil => simp [hpending] at hflush
  | cons schedule rest =>
      have hsplit := h.split hfailure
      rw [hpending] at hsplit
      simp only [hpending, h.now_eq] at hflush
      cases hadvance : advance cron rt schedule now with
      | error exc =>
          simp only [hadvance, Option.some.injEq] at hflush
          subst hflush
          have hmem : schedule ∈ due := by simp [← hsplit]
          exact ⟨finished, { h with
            now_eq := rfl
            split := nofun
            failed := fun _ => ⟨schedule, hmem, exc, hadvance⟩ }, fun _ => rfl⟩
      | ok advanced =>
          simp only [hadvance, Option.some.injEq] at hflush
          subst hflush
          have hlength : t.runs.length = finished.length := by
            rw [h.runs, scheduledRuns, List.length_mapIdx]
          refine ⟨finished ++ [schedule], ⟨rfl, h.ids_eq, fun _ => ?_, ?_, ?_, ?_, ?_⟩, ?_⟩
          · simpa using hsplit
          · exact fun hne => absurd hfailure hne
          · exact List.rel_append h.changed (.cons ⟨rfl, hadvance⟩ .nil)
          · simp only [h.runs, h.ids_eq, scheduledRuns, List.mapIdx_concat, List.length_mapIdx]
          · simp only [h.firings, h.runs, h.ids_eq, scheduledFirings, scheduledRuns,
              List.mapIdx_concat, List.length_mapIdx]
          · exact fun hne => absurd hfailure hne

/-- What a tick is about to commit when it has no schedule left. -/
theorem tick_finished {due : List Schedule} {work : ScheduleWork}
    (hreach : Relation.ReflTransGen (fun w w' => workSchedules cron rt w = some w')
      (.tick (.start now ids due)) work) (hdone : workSchedules cron rt work = none) :
    ∃ t finished, work = .tick t ∧ Tick.Sound cron rt now ids due finished t ∧
      (t.failure = none → finished = due) := by
  have hsound : ∃ t finished, work = .tick t ∧ Tick.Sound cron rt now ids due finished t ∧
      (t.failure ≠ none → t.pending = []) := by
    clear hdone
    induction hreach with
    | refl => exact ⟨_, [], rfl, .start due, nofun⟩
    | tail _ hstep ih =>
        rcases ih with ⟨t, finished, rfl, hsound, hstopped⟩
        rcases Option.map_eq_some_iff.mp hstep with ⟨t', hflush, rfl⟩
        have hfailure : t.failure = none := by
          by_contra hne
          simp [Tick.flush, hstopped hne] at hflush
        rcases hsound.flush hfailure hflush with ⟨finished', hsound', hstopped'⟩
        exact ⟨t', finished', rfl, hsound', hstopped'⟩
  rcases hsound with ⟨t, finished, rfl, hsound, _⟩
  refine ⟨t, finished, rfl, hsound, fun hfailure => ?_⟩
  have hpending : t.pending = [] := by
    have hflush : t.flush cron rt = none := by simpa [workSchedules] using hdone
    unfold Tick.flush at hflush
    cases hpending : t.pending with
    | nil => rfl
    | cons schedule rest =>
        simp only [hpending] at hflush
        split at hflush <;> cases hflush
  have hsplit := hsound.split hfailure
  rwa [hpending, List.append_nil] at hsplit

/-- A session that has loaded the stored row writes what it has assigned. -/
theorem writeSchedule_self {stored assigned : Schedule} (hid : assigned.id = stored.id)
    (hpipeline : assigned.pipelineId = stored.pipelineId)
    (howner : assigned.ownerId = stored.ownerId) :
    writeSchedule stored assigned stored = assigned := by
  have hwrite : ∀ {α : Type} [DecidableEq α] (before after : α),
      ormWrite before after before = after := by
    intro α _ before after
    by_cases hsame : after = before
    · rw [hsame, ormWrite_self]
    · exact ormWrite_of_changed hsame before
  cases assigned
  simp only [writeSchedule, hwrite] at hid hpipeline howner ⊢
  simp [hid, hpipeline, howner]

/-- A tick leaves the columns of a row that say whose it is. -/
theorem advance_keys {schedule advanced : Schedule}
    (h : advance cron rt schedule now = .ok advanced) :
    advanced.id = schedule.id ∧ advanced.pipelineId = schedule.pipelineId ∧
      advanced.ownerId = schedule.ownerId := by
  unfold advance at h
  split at h
  · cases h
    exact ⟨rfl, rfl, rfl⟩
  · cases h
    exact ⟨rfl, rfl, rfl⟩
  · cases h

/-- What a tick makes of a row. -/
def advanceDue (cron : Cron) (rt : Runtime) (now : Time) (schedule : Schedule) : Schedule :=
  if schedule.isDue now then
    match advance cron rt schedule now with
    | .ok advanced => advanced
    | .error _ => schedule
  else schedule

/-- With distinct ids, a schedule is known by its id. -/
theorem eq_of_id_eq {schedules : List Schedule} (h : (schedules.map Schedule.id).Nodup)
    {a b : Schedule} (ha : a ∈ schedules) (hb : b ∈ schedules) (hid : a.id = b.id) : a = b :=
  List.inj_on_of_nodup_map h ha hb hid

/-- When a tick has worked on all due schedules, it writes what it has made of them. -/
theorem writeChanged_due {schedules : List Schedule} (hids : (schedules.map Schedule.id).Nodup)
    {changed : List (Schedule × Schedule)}
    (hchanged : List.Forall₂ (fun schedule change =>
      change.1 = schedule ∧ advance cron rt schedule now = .ok change.2)
      (schedules.filter fun schedule => schedule.isDue now) changed)
    {row : Schedule} (hrow : row ∈ schedules) :
    writeChanged changed row = advanceDue cron rt now row := by
  have hsource : ∀ change ∈ changed, change.1 ∈ schedules ∧ change.1.isDue now = true ∧
      advance cron rt change.1 now = .ok change.2 := by
    intro change hmem
    rcases List.forall₂_iff_get.mp hchanged with ⟨hlength, hget⟩
    rcases List.mem_iff_get.mp hmem with ⟨i, rfl⟩
    have hi : i.1 < (schedules.filter fun schedule => schedule.isDue now).length := by
      rw [hlength]
      exact i.2
    rcases hget i.1 hi i.2 with ⟨hfirst, hadvance⟩
    have hdue := List.get_mem _ (⟨i.1, hi⟩ : Fin _)
    rw [← hfirst] at hdue hadvance
    rw [List.mem_filter] at hdue
    exact ⟨hdue.1, hdue.2, hadvance⟩
  unfold writeChanged advanceDue
  cases hfind : changed.find? fun change => change.1.id = row.id with
  | some change =>
      rcases hsource change (List.mem_of_find?_eq_some hfind) with ⟨hmem, hdue, hadvance⟩
      have hid : change.1.id = row.id := by simpa using List.find?_some hfind
      have hsame := eq_of_id_eq hids hmem hrow hid
      rcases change with ⟨loaded, assigned⟩
      subst hsame
      rcases advance_keys hadvance with ⟨hid', hpipeline, howner⟩
      simp only [hdue, if_true, hadvance]
      exact writeSchedule_self hid' hpipeline howner
  | none =>
      by_cases hdue : row.isDue now = true
      · have hmem : row ∈ schedules.filter fun schedule => schedule.isDue now :=
          List.mem_filter.mpr ⟨hrow, hdue⟩
        rcases List.forall₂_iff_get.mp hchanged with ⟨hlength, hget⟩
        rcases List.mem_iff_get.mp hmem with ⟨i, hi⟩
        have hi' : i.1 < changed.length := hlength ▸ i.2
        rcases hget i.1 i.2 hi' with ⟨hfirst, _⟩
        have hnone := List.find?_eq_none.mp hfind _ (List.get_mem changed ⟨i.1, hi'⟩)
        rw [hfirst] at hnone
        exact absurd (congrArg Schedule.id hi) (by simpa using hnone)
      · simp [hdue]

/-! ## Requests that nobody interrupts -/

variable {c c' : Calendar}

/-- A tick that nobody interrupts advances the due schedules and creates their runs, or
leaves everything as it is because a next run cannot be computed or an id is taken. -/
theorem atomic_tick (hids : (c.tables.schedules.map Schedule.id).Nodup)
    (h : Transactions.Atomic (scheduling cron rt) (.tick now ids) c c') :
    (c' = c ∧ ((∃ schedule ∈ dueSchedules c.tables now, ∃ exc,
        advance cron rt schedule now = .error exc) ∨
      ¬ FreshIds c.tables (scheduledRuns ids (dueSchedules c.tables now)))) ∨
    (c' = {
        tables := { c.tables with
          schedules := c.tables.schedules.map (advanceDue cron rt now)
          runs := c.tables.runs ++ scheduledRuns ids (dueSchedules c.tables now) }
        firings := c.firings ++ scheduledFirings ids (dueSchedules c.tables now) } ∧
      FreshIds c.tables (scheduledRuns ids (dueSchedules c.tables now)) ∧
      ∀ schedule ∈ dueSchedules c.tables now, ∃ advanced,
        advance cron rt schedule now = .ok advanced) := by
  rcases h with ⟨work, hreach, hdone, rfl⟩
  rcases tick_finished hreach hdone with ⟨t, finished, rfl, hsound, hall⟩
  have hcommit : (scheduling cron rt).commit (.tick t) c = commitSchedules (.tick t) c := rfl
  rw [hcommit]
  by_cases hfailure : t.failure = none
  · have hfinished := hall hfailure
    subst hfinished
    have hadvanced : ∀ schedule ∈ dueSchedules c.tables now, ∃ advanced,
        advance cron rt schedule now = .ok advanced := by
      intro schedule hmem
      rcases List.forall₂_iff_get.mp hsound.changed with ⟨hlength, hget⟩
      rcases List.mem_iff_get.mp hmem with ⟨i, rfl⟩
      have hi : i.1 < t.changed.length := by
        rw [← hlength]
        exact i.2
      exact ⟨_, (hget i.1 i.2 hi).2⟩
    have hexist : RowsExist c.tables t.changed := by
      intro change hmem
      rcases List.forall₂_iff_get.mp hsound.changed with ⟨hlength, hget⟩
      rcases List.mem_iff_get.mp hmem with ⟨i, rfl⟩
      have hi : i.1 < (dueSchedules c.tables now).length := by
        rw [hlength]
        exact i.2
      rcases hget i.1 hi i.2 with ⟨hfirst, _⟩
      have hdue := List.get_mem _ (⟨i.1, hi⟩ : Fin _)
      rw [← hfirst] at hdue
      exact List.mem_map_of_mem (List.mem_of_mem_filter hdue)
    by_cases hfresh : FreshIds c.tables t.runs
    · refine Or.inr ⟨?_, hsound.runs ▸ hfresh, hadvanced⟩
      have hrows : c.tables.schedules.map (writeChanged t.changed) =
          c.tables.schedules.map (advanceDue cron rt now) :=
        List.map_congr_left fun row hrow => writeChanged_due hids hsound.changed hrow
      rw [commitSchedules, if_pos ⟨hfailure, hexist, hfresh⟩, hrows, hsound.runs, hsound.firings]
    · refine Or.inl ⟨?_, Or.inr (hsound.runs ▸ hfresh)⟩
      rw [commitSchedules, if_neg fun hok => hfresh hok.2.2]
  · refine Or.inl ⟨?_, Or.inl (hsound.failed hfailure)⟩
    rw [commitSchedules, if_neg fun hok => hfailure hok.1]

/-- The other requests commit what they have made of what they have read. -/
theorem atomic_of_not_tick {request : ScheduleRequest}
    (hrequest : ∀ now ids, request ≠ .tick now ids)
    (h : Transactions.Atomic (scheduling cron rt) request c c') :
    c' = commitSchedules (readSchedules cron rt request c) c := by
  have hstuck : workSchedules cron rt (readSchedules cron rt request c) = none := by
    cases request with
    | create userId id payload now =>
        simp only [readSchedules]
        split
        · rfl
        · split <;> rfl
    | update userId id payload now =>
        simp only [readSchedules]
        split
        · rfl
        · split <;> rfl
    | delete userId id =>
        simp only [readSchedules]
        split <;> rfl
    | tick now ids => exact absurd rfl (hrequest now ids)
  rcases h with ⟨work, hreach, _, rfl⟩
  rcases Relation.ReflTransGen.cases_head hreach with rfl | ⟨next, hstep, _⟩
  · rfl
  · have hnone : workSchedules cron rt (readSchedules cron rt request c) = some next := hstep
    rw [hstuck] at hnone
    cases hnone

/-- What a successful refresh changes: the next run and nothing else. -/
theorem refreshNextRun_eq_ok {schedule refreshed : Schedule}
    (h : refreshNextRun cron rt schedule now = .ok refreshed) :
    ∃ next, cron.computeNextRun rt schedule.cronExpr schedule.timezone now = .ok next ∧
      refreshed = { schedule with nextRun := some next } := by
  unfold refreshNextRun at h
  split at h
  · cases h
  · cases h
  · rename_i next hnext
    cases h
    exact ⟨next, hnext, rfl⟩

/-- A computed next run comes from a valid expression in a known zone. -/
theorem computeNextRun_eq_ok {cronExpr timezone : String} {after next : Time}
    (h : cron.computeNextRun rt cronExpr timezone after = .ok next) :
    cron.validate rt cronExpr timezone = .ok () ∧ cron.getNext cronExpr timezone after = .ok next := by
  unfold Cron.computeNextRun at h
  split at h
  · cases h
  · rename_i hvalid
    split at h
    · cases h
    · rename_i next' hnext
      cases h
      exact ⟨hvalid, hnext⟩

/-- Validation accepts exactly valid expressions in known zones. -/
theorem validate_eq_ok {cronExpr timezone : String} :
    cron.validate rt cronExpr timezone = .ok () ↔
      cron.isValid cronExpr = true ∧ cron.knownZone timezone = true := by
  unfold Cron.validate
  split
  · split <;> simp_all
  · simp_all

/-- What an accepted edit commits. -/
theorem updateSchedule_eq_ok {loaded assigned : Schedule} {payload : ScheduleUpdate}
    (h : updateSchedule cron rt loaded payload now = .ok assigned) :
    (payload.timingChanged = true → cron.validate rt (payload.assign loaded).cronExpr
        (payload.assign loaded).timezone = .ok ()) ∧
    ((((payload.assign loaded).enabled &&
          (payload.timingChanged || !loaded.enabled || loaded.nextRun.isNone)) = true ∧
        refreshNextRun cron rt (payload.assign loaded) now = .ok assigned) ∨
      (((payload.assign loaded).enabled &&
          (payload.timingChanged || !loaded.enabled || loaded.nextRun.isNone)) = false ∧
        assigned = payload.assign loaded)) := by
  unfold updateSchedule at h
  dsimp only at h
  split at h
  · cases h
  · rename_i hchecked
    refine ⟨fun hchanged => by rwa [if_pos hchanged] at hchecked, ?_⟩
    split at h
    · rename_i hrefresh
      exact Or.inl ⟨hrefresh, h⟩
    · rename_i hkeep
      cases h
      exact Or.inr ⟨Bool.eq_false_iff.mpr hkeep, rfl⟩

/-- A new schedule belongs to the user who has asked for it. -/
theorem createSchedule_keys {id ownerId : Uuid} {payload : ScheduleCreate} {row : Schedule}
    (h : createSchedule cron rt id ownerId payload now = .ok row) :
    row.id = id ∧ row.pipelineId = payload.pipelineId ∧ row.ownerId = ownerId := by
  unfold createSchedule at h
  split at h
  · cases h
  · dsimp only at h
    split at h
    · rcases refreshNextRun_eq_ok h with ⟨next, _, rfl⟩
      exact ⟨rfl, rfl, rfl⟩
    · cases h
      exact ⟨rfl, rfl, rfl⟩

/-- An edit leaves the columns that say whose the schedule is. -/
theorem updateSchedule_keys {loaded assigned : Schedule} {payload : ScheduleUpdate}
    (h : updateSchedule cron rt loaded payload now = .ok assigned) :
    assigned.id = loaded.id ∧ assigned.pipelineId = loaded.pipelineId ∧
      assigned.ownerId = loaded.ownerId := by
  rcases (updateSchedule_eq_ok h).2 with ⟨_, hrefresh⟩ | ⟨_, rfl⟩
  · rcases refreshNextRun_eq_ok hrefresh with ⟨next, _, rfl⟩
    exact ⟨rfl, rfl, rfl⟩
  · exact ⟨rfl, rfl, rfl⟩

/-- An edit of a stored row replaces it. -/
theorem commit_edit (hids : (c.tables.schedules.map Schedule.id).Nodup)
    {loaded assigned : Schedule} (hloaded : loaded ∈ c.tables.schedules)
    (hkeys : assigned.id = loaded.id ∧ assigned.pipelineId = loaded.pipelineId ∧
      assigned.ownerId = loaded.ownerId) :
    (commitSchedules (.edit loaded assigned) c).tables.schedules =
      c.tables.schedules.map fun row => if row.id = loaded.id then assigned else row := by
  refine List.map_congr_left fun row hrow => ?_
  by_cases hid : row.id = loaded.id
  · have hsame := eq_of_id_eq hids hrow hloaded hid
    subst hsame
    simp only [writeChanged, List.find?_cons, decide_true, if_true]
    exact writeSchedule_self hkeys.1 hkeys.2.1 hkeys.2.2
  · simp [writeChanged, hid, Ne.symm hid]

section

variable {α : Type} {kind : String} {ownerId : α → Uuid} {row? : Option α} {userId : Uuid}

/-- A row handed out exists and belongs to the user. -/
theorem getOwned_eq_ok {row : α} (h : getOwned kind ownerId row? userId = .ok row) :
    row? = some row ∧ ownerId row = userId := by
  unfold getOwned at h
  split at h
  · cases h
  · split at h
    · rename_i howner
      cases h
      exact ⟨rfl, howner⟩
    · cases h

/-- What is not found is reported by its kind. -/
theorem getOwned_missing (h : ∀ row, row? = some row → ownerId row ≠ userId) :
    getOwned kind ownerId row? userId = .error (.notFound kind) := by
  cases hfound : row? with
  | none => rfl
  | some row => simp only [getOwned, if_neg (h row hfound)]

/-- Rows of others make no difference. -/
theorem getOwned_filter :
    getOwned kind ownerId (row?.filter fun row => decide (ownerId row = userId)) userId =
      getOwned kind ownerId row? userId := by
  cases row? with
  | none => rfl
  | some row => by_cases howner : ownerId row = userId <;> simp [getOwned, Option.filter_some, howner]

end

/-- A schedule handed out is stored under the id and belongs to the user. -/
theorem getOwnedSchedule_eq_ok {tables : Tables} {id userId : Uuid} {row : Schedule}
    (h : getOwnedSchedule tables id userId = .ok row) :
    row ∈ tables.schedules ∧ row.id = id ∧ row.ownerId = userId := by
  rcases getOwned_eq_ok h with ⟨hstored, howner⟩
  rcases Tables.mem_of_schedule? hstored with ⟨hmem, hid⟩
  exact ⟨hmem, hid, howner⟩

/-- A pipeline handed out is stored under the id and belongs to the user. -/
theorem getOwnedPipeline_eq_ok {tables : Tables} {id userId : Uuid} {row : Pipeline}
    (h : getOwnedPipeline tables id userId = .ok row) :
    row ∈ tables.pipelines ∧ row.id = id ∧ row.ownerId = userId := by
  rcases getOwned_eq_ok h with ⟨hstored, howner⟩
  rcases Tables.mem_of_pipeline? hstored with ⟨hmem, hid⟩
  exact ⟨hmem, hid, howner⟩

/-- Everything that a request other than a tick can leave in the table of schedules when
nobody interrupts it. -/
inductive Committed (cron : Cron) (rt : Runtime) (c : Calendar) :
    ScheduleRequest → ScheduleWork → List Schedule → Prop where
  | refused (request : ScheduleRequest) (reason : Refusal) :
      Committed cron rt c request (.refused reason) c.tables.schedules
  | taken (userId id : Uuid) (payload : ScheduleCreate) (now : Time) (row : Schedule)
      (htaken : row.id ∈ c.tables.schedules.map Schedule.id) :
      Committed cron rt c (.create userId id payload now) (.insert row) c.tables.schedules
  | created (userId id : Uuid) (payload : ScheduleCreate) (now : Time) (pipeline : Pipeline)
      (row : Schedule) (hpipeline : getOwnedPipeline c.tables payload.pipelineId userId = .ok pipeline)
      (hcreate : createSchedule cron rt id userId payload now = .ok row)
      (hfree : row.id ∉ c.tables.schedules.map Schedule.id) :
      Committed cron rt c (.create userId id payload now) (.insert row)
        (c.tables.schedules ++ [row])
  | updated (userId id : Uuid) (payload : ScheduleUpdate) (now : Time) (loaded assigned : Schedule)
      (hloaded : loaded ∈ c.tables.schedules) (howner : loaded.ownerId = userId)
      (hupdate : updateSchedule cron rt loaded payload now = .ok assigned) :
      Committed cron rt c (.update userId id payload now) (.edit loaded assigned)
        (c.tables.schedules.map fun row => if row.id = loaded.id then assigned else row)
  | deleted (userId id : Uuid) (row : Schedule) :
      Committed cron rt c (.delete userId id) (.remove row)
        (c.tables.schedules.filter fun stored => ¬ stored.id = row.id)

/-- An atomic request other than a tick commits what it read. -/
theorem committed_of_atomic (hids : (c.tables.schedules.map Schedule.id).Nodup)
    {request : ScheduleRequest} (hrequest : ∀ now ids, request ≠ .tick now ids)
    (h : Transactions.Atomic (scheduling cron rt) request c c') :
    Committed cron rt c request (readSchedules cron rt request c) c'.tables.schedules := by
  rw [atomic_of_not_tick hrequest h]
  cases request with
  | create userId id payload now =>
      simp only [readSchedules]
      cases hpipeline : getOwnedPipeline c.tables payload.pipelineId userId with
      | error reason => exact .refused _ reason
      | ok pipeline =>
          cases hcreate : createSchedule cron rt id userId payload now with
          | error reason => exact .refused _ reason
          | ok row =>
              simp only [commitSchedules]
              by_cases htaken : row.id ∈ c.tables.schedules.map Schedule.id
              · rw [if_pos htaken]
                exact .taken userId id payload now row htaken
              · rw [if_neg htaken]
                exact .created userId id payload now pipeline row hpipeline hcreate htaken
  | update userId id payload now =>
      simp only [readSchedules]
      cases hfound : getOwnedSchedule c.tables id userId with
      | error reason => exact .refused _ reason
      | ok loaded =>
          dsimp only
          cases hupdate : updateSchedule cron rt loaded payload now with
          | error reason => exact .refused _ reason
          | ok assigned =>
              rcases getOwnedSchedule_eq_ok hfound with ⟨hloaded, _, howner⟩
              dsimp only
              rw [commit_edit hids hloaded (updateSchedule_keys hupdate)]
              exact .updated userId id payload now loaded assigned hloaded howner hupdate
  | delete userId id =>
      simp only [readSchedules]
      cases getOwnedSchedule c.tables id userId with
      | error reason => exact .refused _ reason
      | ok row => exact .deleted userId id row
  | tick now ids => exact absurd rfl (hrequest now ids)

/-- No id is given twice. -/
theorem Committed.nodup {request : ScheduleRequest} {work : ScheduleWork} {rows : List Schedule}
    (h : Committed cron rt c request work rows)
    (hids : (c.tables.schedules.map Schedule.id).Nodup) : (rows.map Schedule.id).Nodup := by
  cases h with
  | refused request reason => exact hids
  | taken userId id payload now row htaken => exact hids
  | created userId id payload now pipeline row hpipeline hcreate hfree =>
      simp only [List.map_append, List.map_singleton]
      exact List.nodup_append'.mpr
        ⟨hids, List.nodup_singleton _, List.disjoint_singleton.mpr hfree⟩
  | updated userId id payload now loaded assigned hloaded howner hupdate =>
      have hsame : (c.tables.schedules.map fun row =>
          if row.id = loaded.id then assigned else row).map Schedule.id =
            c.tables.schedules.map Schedule.id := by
        rw [List.map_map]
        refine List.map_congr_left fun row _ => ?_
        by_cases hid : row.id = loaded.id
        · simp [hid, (updateSchedule_keys hupdate).1]
        · simp [hid]
      rw [hsame]
      exact hids
  | deleted userId id row => exact hids.sublist (List.filter_sublist.map _)

/-- Where a row comes from that is stored after a request: it was there, or the request
has created it, or the request has edited or advanced a row that was there. -/
inductive RowOrigin (cron : Cron) (rt : Runtime) (c : Calendar) :
    ScheduleRequest → Schedule → Prop where
  | kept (request : ScheduleRequest) (row : Schedule) (hrow : row ∈ c.tables.schedules) :
      RowOrigin cron rt c request row
  | created (userId id : Uuid) (payload : ScheduleCreate) (now : Time) (pipeline : Pipeline)
      (row : Schedule) (hpipeline : getOwnedPipeline c.tables payload.pipelineId userId = .ok pipeline)
      (hcreate : createSchedule cron rt id userId payload now = .ok row) :
      RowOrigin cron rt c (.create userId id payload now) row
  | edited (userId id : Uuid) (payload : ScheduleUpdate) (now : Time) (loaded assigned : Schedule)
      (hloaded : loaded ∈ c.tables.schedules) (howner : loaded.ownerId = userId)
      (hupdate : updateSchedule cron rt loaded payload now = .ok assigned) :
      RowOrigin cron rt c (.update userId id payload now) assigned
  | advanced (now : Time) (ids : Nat → Uuid) (loaded assigned : Schedule)
      (hloaded : loaded ∈ c.tables.schedules) (hdue : loaded.isDue now = true)
      (hadvance : advance cron rt loaded now = .ok assigned) :
      RowOrigin cron rt c (.tick now ids) assigned

/-- Advancing a schedule keeps its id. -/
theorem advanceDue_id (row : Schedule) : (advanceDue cron rt now row).id = row.id := by
  unfold advanceDue
  split
  · cases hadvance : advance cron rt row now with
    | error exc => rfl
    | ok advanced => exact (advance_keys hadvance).1
  · rfl

/-- What a request that nobody interrupts leaves in the table of schedules. -/
structure RowsAccounted (cron : Cron) (rt : Runtime) (request : ScheduleRequest)
    (c c' : Calendar) : Prop where
  ids : (c'.tables.schedules.map Schedule.id).Nodup
  origin : ∀ row ∈ c'.tables.schedules, RowOrigin cron rt c request row

private theorem rowsAccounted_self (request : ScheduleRequest)
    (hids : (c.tables.schedules.map Schedule.id).Nodup) : RowsAccounted cron rt request c c :=
  ⟨hids, fun row hrow => .kept request row hrow⟩

/-- A committed request changes the schedules only as it says it does. -/
theorem Committed.accounted {request : ScheduleRequest} {work : ScheduleWork}
    (h : Committed cron rt c request work c'.tables.schedules)
    (hids : (c.tables.schedules.map Schedule.id).Nodup) : RowsAccounted cron rt request c c' := by
  refine ⟨h.nodup hids, ?_⟩
  generalize c'.tables.schedules = rows at h
  cases h with
  | refused request reason => exact fun row hrow => .kept _ row hrow
  | taken userId id payload now row htaken => exact fun row hrow => .kept _ row hrow
  | created userId id payload now pipeline row hpipeline hcreate hfree =>
      refine List.forall_mem_append.mpr ⟨fun before hbefore => .kept _ before hbefore, ?_⟩
      rw [List.forall_mem_singleton]
      exact .created userId id payload now pipeline row hpipeline hcreate
  | updated userId id payload now loaded assigned hloaded howner hupdate =>
      intro row hrow
      rcases List.mem_map.mp hrow with ⟨before, hbefore, rfl⟩
      split
      · exact .edited userId id payload now loaded assigned hloaded howner hupdate
      · exact .kept _ before hbefore
  | deleted userId id row => exact fun row hrow => .kept _ row (List.mem_filter.mp hrow).1

/-- A tick that has advanced the due schedules accounts for every row. -/
theorem rowsAccounted_of_tick (hids : (c.tables.schedules.map Schedule.id).Nodup)
    (hrows : c'.tables.schedules = c.tables.schedules.map (advanceDue cron rt now))
    (hadvanced : ∀ row ∈ dueSchedules c.tables now,
      ∃ advanced, advance cron rt row now = .ok advanced) :
    RowsAccounted cron rt (.tick now ids) c c' := by
  constructor
  · rw [hrows, List.map_map]
    rw [show Schedule.id ∘ advanceDue cron rt now = Schedule.id from
      funext fun row => advanceDue_id row]
    exact hids
  · intro row hrow
    rw [hrows] at hrow
    rcases List.mem_map.mp hrow with ⟨before, hbefore, rfl⟩
    by_cases hdue : before.isDue now = true
    · rcases hadvanced before (List.mem_filter.mpr ⟨hbefore, hdue⟩) with ⟨assigned, hok⟩
      have hsame : advanceDue cron rt now before = assigned := by
        simp [advanceDue, hdue, hok]
      rw [hsame]
      exact .advanced now ids before assigned hbefore hdue hok
    · have hsame : advanceDue cron rt now before = before := by
        simp [advanceDue, hdue]
      rw [hsame]
      exact .kept _ before hbefore

/-- Every row that is stored after a request that nobody interrupts is accounted for. -/
theorem atomic_rows (hids : (c.tables.schedules.map Schedule.id).Nodup)
    {request : ScheduleRequest} (h : Transactions.Atomic (scheduling cron rt) request c c') :
    RowsAccounted cron rt request c c' := by
  cases request with
  | tick now ids =>
      rcases atomic_tick hids h with ⟨rfl, _⟩ | ⟨hc', _, hadvanced⟩
      · exact rowsAccounted_self _ hids
      · exact rowsAccounted_of_tick hids (by rw [hc']) hadvanced
  | _ => exact (committed_of_atomic hids (by simp) h).accounted hids

end EtlTool
