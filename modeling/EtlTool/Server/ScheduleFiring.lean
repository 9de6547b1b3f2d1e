import Mathlib.Order.Bounds.Basic
import Mathlib.Logic.Function.Basic
import EtlTool.Engine.Samples
import EtlTool.Server.Schedules

/-!
# When a schedule fires

Requests and ticks that follow each other.  A schedule is armed when it is created
enabled, when it is enabled again, when its timing is edited while it is enabled, and
when it fires.  The next run of an enabled schedule is the first fire time after it was
armed, whatever has been edited while it was disabled, so a tick fires it exactly if a
fire time has passed since then, and once however many have.

Main results:

- Theorem {lit}`Armed.atomic`: every request keeps the next runs of enabled schedules.
- Theorem {lit}`schedule_fires_when_due`: a tick creates one run of a schedule if it is
  enabled and a fire time has passed since it was armed, and none otherwise.
- Theorem {lit}`all_enqueued_iff`: a tick hands over every run whose call does not raise,
  if and only if no such run comes after one whose call raises.
- Theorem {lit}`later_run_lost`: a failing call loses the run after it.
-/

namespace EtlTool

/-! ## Arming -/

/-- The fire times of an expression in a timezone. -/
abbrev FireTimes := String → String → Time → Prop

/-- {lit}`compute_next_run` of a valid expression in a known timezone is the first fire
time after the given one. -/
def Cron.NextIsLeast (cron : Cron) (fires : FireTimes) : Prop :=
  ∀ cronExpr timezone, cron.isValid cronExpr = true → cron.knownZone timezone = true →
    ∀ after, ∃ next, cron.getNext cronExpr timezone after = .ok next ∧
      IsLeast {time | fires cronExpr timezone time ∧ after < time} next

/-- The schedules, and when each of them was armed last. -/
structure Clocked where
  calendar : Calendar
  armed : Uuid → Time

/-- An accepted edit arms an enabled schedule when it gives a timing or enables it. -/
def ScheduleUpdate.arms (payload : ScheduleUpdate) (loaded : Schedule) : Bool :=
  (payload.assign loaded).enabled && (payload.timingChanged || !loaded.enabled)

/-- When the schedules are armed after a request. -/
def armedAfter (cron : Cron) (rt : Runtime) (request : ScheduleRequest) (s : Clocked)
    (c' : Calendar) : Uuid → Time :=
  match request, readSchedules cron rt request s.calendar with
  | .create _ _ _ now, .insert row =>
      if row.enabled ∧ row.id ∉ s.calendar.tables.schedules.map Schedule.id then
        Function.update s.armed row.id now else s.armed
  | .update _ _ payload now, .edit loaded _ =>
      if payload.arms loaded then Function.update s.armed loaded.id now else s.armed
  | .tick now _, _ => fun id =>
      if id ∈ (c'.firings.drop s.calendar.firings.length).map Firing.scheduleId then now
      else s.armed id
  | _, _ => s.armed

/-- Requests that follow each other, from a database without schedules. -/
inductive Clocked.Run (cron : Cron) (rt : Runtime) : List ScheduleRequest → Clocked → Prop where
  | start (tables : Tables) (armed : Uuid → Time) (hempty : tables.schedules = []) :
      Run cron rt [] ⟨⟨tables, []⟩, armed⟩
  | snoc (requests : List ScheduleRequest) (request : ScheduleRequest) (s : Clocked)
      (c' : Calendar) (hbefore : Run cron rt requests s)
      (hatomic : Transactions.Atomic (scheduling cron rt) request s.calendar c') :
      Run cron rt (requests ++ [request]) ⟨c', armedAfter cron rt request s c'⟩

/-- An enabled schedule has the next run that it was given when it was armed. -/
def Schedule.Timed (fires : FireTimes) (armed : Time) (row : Schedule) : Prop :=
  row.enabled = true → ∃ next, row.nextRun = some next ∧
    IsLeast {time | fires row.cronExpr row.timezone time ∧ armed < time} next

/-- What holds between requests. -/
structure Armed (cron : Cron) (fires : FireTimes) (s : Clocked) : Prop where
  ids : (s.calendar.tables.schedules.map Schedule.id).Nodup
  valid : ∀ row ∈ s.calendar.tables.schedules,
    cron.isValid row.cronExpr = true ∧ cron.knownZone row.timezone = true
  timed : ∀ row ∈ s.calendar.tables.schedules, row.Timed fires (s.armed row.id)

variable {cron : Cron} {rt : Runtime} {fires : FireTimes} {now : Time} {ids : Nat → Uuid}

/-- A next run that has just been computed. -/
theorem timed_of_refresh (hcron : cron.NextIsLeast fires) {row refreshed : Schedule}
    (h : refreshNextRun cron rt row now = .ok refreshed) :
    (cron.isValid refreshed.cronExpr = true ∧ cron.knownZone refreshed.timezone = true) ∧
      refreshed.Timed fires now := by
  rcases refreshNextRun_eq_ok h with ⟨next, hnext, rfl⟩
  rcases computeNextRun_eq_ok hnext with ⟨hvalidate, hget⟩
  rcases validate_eq_ok.mp hvalidate with ⟨hvalid, hzone⟩
  rcases hcron row.cronExpr row.timezone hvalid hzone now with ⟨next', hnext', hleast⟩
  rw [hget] at hnext'
  cases hnext'
  exact ⟨⟨hvalid, hzone⟩, fun _ => ⟨next, rfl, hleast⟩⟩

/-- A new schedule is armed if it is enabled. -/
theorem createSchedule_spec (hcron : cron.NextIsLeast fires) {id ownerId : Uuid}
    {payload : ScheduleCreate} {row : Schedule}
    (h : createSchedule cron rt id ownerId payload now = .ok row) :
    (cron.isValid row.cronExpr = true ∧ cron.knownZone row.timezone = true) ∧
      row.Timed fires now := by
  unfold createSchedule at h
  split at h
  · cases h
  · rename_i hvalidate
    dsimp only at h
    split at h
    · exact timed_of_refresh hcron h
    · rename_i hdisabled
      cases h
      exact ⟨validate_eq_ok.mp hvalidate, fun henabled => absurd henabled hdisabled⟩

/-- An edit keeps the next run of a schedule that it does not arm. -/
theorem updateSchedule_spec (hcron : cron.NextIsLeast fires) {loaded assigned : Schedule}
    {payload : ScheduleUpdate} {armed : Time}
    (hvalid : cron.isValid loaded.cronExpr = true ∧ cron.knownZone loaded.timezone = true)
    (htimed : loaded.Timed fires armed)
    (h : updateSchedule cron rt loaded payload now = .ok assigned) :
    (cron.isValid assigned.cronExpr = true ∧ cron.knownZone assigned.timezone = true) ∧
      assigned.Timed fires (if payload.arms loaded then now else armed) := by
  rcases updateSchedule_eq_ok h with ⟨hchecked, ⟨hrefresh, hok⟩ | ⟨hkeep, rfl⟩⟩
  · rcases timed_of_refresh hcron hok with ⟨hvalid', htimed'⟩
    refine ⟨hvalid', ?_⟩
    have harms : payload.arms loaded = true := by
      simp only [Bool.and_eq_true, Bool.or_eq_true] at hrefresh
      rcases hrefresh with ⟨henabled, (hchanged | hwas) | hnone⟩
      · simp [ScheduleUpdate.arms, henabled, hchanged]
      · simp [ScheduleUpdate.arms, henabled, hwas]
      · by_cases hwas : loaded.enabled = true
        · rcases htimed hwas with ⟨next, hnext, _⟩
          simp [hnext] at hnone
        · simp [ScheduleUpdate.arms, henabled, hwas]
    rwa [harms]
  · constructor
    · by_cases hchanged : payload.timingChanged = true
      · exact validate_eq_ok.mp (hchecked hchanged)
      · have hsame : payload.cronExpr = none ∧ payload.timezone = none := by
          simpa [ScheduleUpdate.timingChanged] using hchanged
        simpa [ScheduleUpdate.assign, hsame.1, hsame.2] using hvalid
    · intro henabled
      simp only [henabled, Bool.true_and, Bool.or_eq_false_iff, Bool.not_eq_false'] at hkeep
      rcases hkeep with ⟨⟨hchanged, hwas⟩, _⟩
      have harms : payload.arms loaded = false := by
        simp [ScheduleUpdate.arms, hchanged, hwas]
      have hsame : payload.cronExpr = none ∧ payload.timezone = none := by
        simpa [ScheduleUpdate.timingChanged] using hchanged
      rw [harms]
      simpa [ScheduleUpdate.assign, hsame.1, hsame.2] using htimed hwas

/-- A due schedule is advanced to the first fire time after the tick. -/
theorem advance_spec (rt : Runtime) (now : Time) (hcron : cron.NextIsLeast fires) {row : Schedule}
    (hvalid : cron.isValid row.cronExpr = true ∧ cron.knownZone row.timezone = true) :
    ∃ next, advance cron rt row now = .ok { row with lastRun := some now, nextRun := some next } ∧
      IsLeast {time | fires row.cronExpr row.timezone time ∧ now < time} next := by
  rcases hcron row.cronExpr row.timezone hvalid.1 hvalid.2 now with ⟨next, hnext, hleast⟩
  refine ⟨next, ?_, hleast⟩
  simp [advance, Cron.computeNextRun, validate_eq_ok.mpr hvalid, hnext]

/-! ## One request -/

theorem map_scheduledFirings (ids : Nat → Uuid) (due : List Schedule) :
    (scheduledFirings ids due).map Firing.scheduleId = due.map Schedule.id := by
  apply List.ext_getElem?
  intro i
  simp only [scheduledFirings, List.getElem?_map, List.getElem?_mapIdx, Option.map_map]
  rfl

theorem mem_due_iff {tables : Tables} (hids : (tables.schedules.map Schedule.id).Nodup)
    {row : Schedule} (hrow : row ∈ tables.schedules) :
    row.id ∈ (dueSchedules tables now).map Schedule.id ↔ row.isDue now = true := by
  constructor
  · intro hmem
    rcases List.mem_map.mp hmem with ⟨other, hother, hid⟩
    rw [dueSchedules, List.mem_filter] at hother
    rw [← eq_of_id_eq hids hother.1 hrow hid]
    exact hother.2
  · intro hdue
    exact List.mem_map_of_mem (List.mem_filter.mpr ⟨hrow, hdue⟩)

variable {s : Clocked} {c' : Calendar}

/-- After a tick that has advanced the due schedules, they are armed at its time. -/
theorem armedAfter_tick (hfirings : c'.firings =
      s.calendar.firings ++ scheduledFirings ids (dueSchedules s.calendar.tables now)) (id : Uuid) :
    armedAfter cron rt (.tick now ids) s c' id =
      if id ∈ (dueSchedules s.calendar.tables now).map Schedule.id then now else s.armed id := by
  simp only [armedAfter, hfirings, List.drop_left, map_scheduledFirings]

/-- A tick keeps the next runs of enabled schedules. -/
theorem Armed.tick (hcron : cron.NextIsLeast fires) (h : Armed cron fires s)
    (hatomic : Transactions.Atomic (scheduling cron rt) (.tick now ids) s.calendar c') :
    Armed cron fires ⟨c', armedAfter cron rt (.tick now ids) s c'⟩ := by
  rcases atomic_tick h.ids hatomic with ⟨rfl, _⟩ | ⟨hc', _⟩
  · have harmed : armedAfter cron rt (.tick now ids) s s.calendar = s.armed := by
      funext id
      simp [armedAfter]
    rw [harmed]
    exact h
  · have hrows : c'.tables.schedules = s.calendar.tables.schedules.map (advanceDue cron rt now) := by
      rw [hc']
    have harmed : ∀ id, armedAfter cron rt (.tick now ids) s c' id =
        if id ∈ (dueSchedules s.calendar.tables now).map Schedule.id then now else s.armed id :=
      fun id => armedAfter_tick (by rw [hc']) id
    have hids : c'.tables.schedules.map Schedule.id =
        s.calendar.tables.schedules.map Schedule.id := by
      rw [hrows, List.map_map]
      exact List.map_congr_left fun row _ => advanceDue_id row
    refine ⟨by rw [hids]; exact h.ids, ?_, ?_⟩
    · intro row hrow
      rw [hrows] at hrow
      rcases List.mem_map.mp hrow with ⟨before, hbefore, rfl⟩
      rcases advance_spec rt now hcron (h.valid before hbefore) with
        ⟨next, hadvance, _⟩
      unfold advanceDue
      rw [hadvance]
      split <;> exact h.valid before hbefore
    · intro row hrow
      rw [hrows] at hrow
      rcases List.mem_map.mp hrow with ⟨before, hbefore, rfl⟩
      change Schedule.Timed fires (armedAfter cron rt (.tick now ids) s c' _) _
      rw [harmed, advanceDue_id]
      simp only [mem_due_iff h.ids hbefore]
      rcases advance_spec rt now hcron (h.valid before hbefore) with
        ⟨next, hadvance, hleast⟩
      unfold advanceDue
      rw [hadvance]
      by_cases hdue : before.isDue now = true
      · rw [if_pos hdue, if_pos hdue]
        exact fun _ => ⟨next, rfl, hleast⟩
      · rw [if_neg hdue, if_neg hdue]
        exact h.timed before hbefore

/-- A request that nobody has carried out arms no schedule. -/
theorem armedAfter_of_unchanged {request : ScheduleRequest} {reason : Refusal}
    (hwork : readSchedules cron rt request s.calendar = .refused reason) :
    armedAfter cron rt request s c' = s.armed := by
  cases request with
  | tick now ids => cases hwork
  | _ => simp only [armedAfter, hwork]

/-- So does a new schedule. -/
theorem Armed.create (h : Armed cron fires s) {row : Schedule}
    (hfree : row.id ∉ s.calendar.tables.schedules.map Schedule.id)
    (hvalid : cron.isValid row.cronExpr = true ∧ cron.knownZone row.timezone = true)
    (htimed : row.Timed fires now) {armed : Uuid → Time}
    (hnew : row.enabled = true → armed row.id = now)
    (hold : ∀ id, id ≠ row.id → armed id = s.armed id)
    (hrows : c'.tables.schedules = s.calendar.tables.schedules ++ [row])
    (hids : (c'.tables.schedules.map Schedule.id).Nodup) : Armed cron fires ⟨c', armed⟩ := by
  refine ⟨hids, ?_, ?_⟩
  · rw [hrows]
    exact List.forall_mem_append.mpr ⟨h.valid, by simpa using hvalid⟩
  · rw [hrows]
    refine List.forall_mem_append.mpr ⟨fun before hbefore => ?_, ?_⟩
    · have hne : before.id ≠ row.id := fun hid => hfree (hid ▸ List.mem_map_of_mem hbefore)
      change before.Timed fires (armed before.id)
      rw [hold before.id hne]
      exact h.timed before hbefore
    · rw [List.forall_mem_singleton]
      intro henabled
      change ∃ next, row.nextRun = some next ∧ IsLeast {time |
        fires row.cronExpr row.timezone time ∧ armed row.id < time} next
      rw [hnew henabled]
      exact htimed henabled

/-- So does an edit. -/
theorem Armed.update (h : Armed cron fires s) {loaded assigned : Schedule}
    (hid : assigned.id = loaded.id)
    (hvalid : cron.isValid assigned.cronExpr = true ∧ cron.knownZone assigned.timezone = true)
    {armed : Uuid → Time} (htimed : assigned.Timed fires (armed loaded.id))
    (hold : ∀ id, id ≠ loaded.id → armed id = s.armed id)
    (hrows : c'.tables.schedules = s.calendar.tables.schedules.map fun row =>
      if row.id = loaded.id then assigned else row)
    (hids : (c'.tables.schedules.map Schedule.id).Nodup) : Armed cron fires ⟨c', armed⟩ := by
  refine ⟨hids, ?_, ?_⟩
  · rw [hrows, List.forall_mem_map]
    intro before hbefore
    split
    · exact hvalid
    · exact h.valid before hbefore
  · rw [hrows, List.forall_mem_map]
    intro before hbefore
    by_cases hsame : before.id = loaded.id
    · rw [if_pos hsame]
      change assigned.Timed fires (armed assigned.id)
      rw [hid]
      exact htimed
    · rw [if_neg hsame]
      change before.Timed fires (armed before.id)
      rw [hold before.id hsame]
      exact h.timed before hbefore

/-- So does every other request. -/
theorem Armed.commit (hcron : cron.NextIsLeast fires) (h : Armed cron fires s)
    {request : ScheduleRequest} {work : ScheduleWork} {rows : List Schedule}
    (hwork : readSchedules cron rt request s.calendar = work) (hrows : c'.tables.schedules = rows)
    (hcommitted : Committed cron rt s.calendar request work rows) :
    Armed cron fires ⟨c', armedAfter cron rt request s c'⟩ := by
  have hids : (c'.tables.schedules.map Schedule.id).Nodup := by
    rw [hrows]
    exact hcommitted.nodup h.ids
  cases hcommitted with
  | refused request reason =>
      rw [armedAfter_of_unchanged hwork]
      exact ⟨hids, by rw [hrows]; exact h.valid, by rw [hrows]; exact h.timed⟩
  | taken userId id payload now row htaken =>
      have harmed : armedAfter cron rt (.create userId id payload now) s c' = s.armed := by
        simp only [armedAfter, hwork]
        exact if_neg fun hnew => hnew.2 htaken
      rw [harmed]
      exact ⟨hids, by rw [hrows]; exact h.valid, by rw [hrows]; exact h.timed⟩
  | created userId id payload now pipeline row hpipeline hcreate hfree =>
      rcases createSchedule_spec hcron hcreate with ⟨hvalid, htimed⟩
      simp only [armedAfter, hwork]
      refine h.create hfree hvalid htimed (fun henabled => ?_) (fun other hother => ?_) hrows hids
      · rw [if_pos ⟨henabled, hfree⟩, Function.update_self]
      · split
        · exact Function.update_of_ne hother _ _
        · rfl
  | updated userId id payload now loaded assigned hloaded howner hupdate =>
      rcases updateSchedule_spec hcron (h.valid loaded hloaded) (h.timed loaded hloaded)
        hupdate with ⟨hvalid, htimed⟩
      simp only [armedAfter, hwork]
      refine h.update (updateSchedule_keys hupdate).1 hvalid ?_ (fun other hother => ?_) hrows hids
      · by_cases harms : payload.arms loaded = true
        · rw [if_pos harms] at htimed ⊢
          rwa [Function.update_self]
        · rw [if_neg harms] at htimed ⊢
          exact htimed
      · split
        · exact Function.update_of_ne hother _ _
        · rfl
  | deleted userId id row =>
      have harmed : armedAfter cron rt (.delete userId id) s c' = s.armed := by
        simp only [armedAfter]
      have hsub : ∀ row ∈ c'.tables.schedules, row ∈ s.calendar.tables.schedules := by
        rw [hrows]
        exact fun row hrow => (List.mem_filter.mp hrow).1
      rw [harmed]
      exact ⟨hids, fun row hrow => h.valid row (hsub row hrow),
        fun row hrow => h.timed row (hsub row hrow)⟩

/-- Every request keeps the next runs of enabled schedules. -/
theorem Armed.atomic (hcron : cron.NextIsLeast fires) (h : Armed cron fires s)
    {request : ScheduleRequest}
    (hatomic : Transactions.Atomic (scheduling cron rt) request s.calendar c') :
    Armed cron fires ⟨c', armedAfter cron rt request s c'⟩ := by
  cases request with
  | tick now ids => exact h.tick hcron hatomic
  | _ => exact h.commit hcron rfl rfl (committed_of_atomic h.ids (by simp) hatomic)

/-- What holds between requests, after any number of them. -/
theorem Clocked.Run.armed (hcron : cron.NextIsLeast fires) {requests : List ScheduleRequest}
    (h : Clocked.Run cron rt requests s) : Armed cron fires s := by
  induction h with
  | start tables armed hempty =>
      refine ⟨?_, ?_, ?_⟩
      · simp [hempty]
      · simp [hempty]
      · simp [hempty]
  | snoc requests request s c' _ hatomic ih => exact ih.atomic hcron hatomic

/-! ## A tick -/

/-- What a tick creates: one run of every enabled schedule of which a fire time has
passed since it was armed, and no other run. -/
structure FiresWhenDue (fires : FireTimes) (s : Clocked) (now : Time) (c' : Calendar)
    (runs : List RunRow) (firings : List Firing) : Prop where
  runs_eq : c'.tables.runs = s.calendar.tables.runs ++ runs
  firings_eq : c'.firings = s.calendar.firings ++ firings
  paired : List.Forall₂ (fun run firing => ∃ row ∈ s.calendar.tables.schedules,
    firing.scheduleId = row.id ∧ run = scheduledRun firing.runId row) runs firings
  once : ∀ row ∈ s.calendar.tables.schedules, (firings.map Firing.scheduleId).count row.id ≤ 1
  fires_iff : ∀ row ∈ s.calendar.tables.schedules, row.id ∈ firings.map Firing.scheduleId ↔
    row.enabled = true ∧ ∃ time, fires row.cronExpr row.timezone time ∧
      s.armed row.id < time ∧ time ≤ now

/-- An enabled schedule is due exactly if a fire time has passed since it was armed. -/
theorem Schedule.Timed.isDue_iff {row : Schedule} {armed : Time} (h : row.Timed fires armed) :
    row.isDue now = true ↔ row.enabled = true ∧
      ∃ time, fires row.cronExpr row.timezone time ∧ armed < time ∧ time ≤ now := by
  rw [EtlTool.isDue_iff]
  refine and_congr_right fun henabled => ?_
  rcases h henabled with ⟨next, hnext, hmem, hleast⟩
  constructor
  · rintro ⟨next', hnext', hle⟩
    rw [hnext, Option.some.injEq] at hnext'
    exact ⟨next, hmem.1, hmem.2, hnext' ▸ hle⟩
  · rintro ⟨time, hfires, hafter, hle⟩
    exact ⟨next, hnext, le_trans (hleast ⟨hfires, hafter⟩) hle⟩

private theorem forall₂_scheduled (ids : Nat → Uuid) {due schedules : List Schedule}
    (hsub : ∀ row ∈ due, row ∈ schedules) :
    List.Forall₂ (fun run firing => ∃ row ∈ schedules, firing.scheduleId = row.id ∧
      run = scheduledRun firing.runId row) (scheduledRuns ids due) (scheduledFirings ids due) := by
  rw [List.forall₂_iff_get]
  refine ⟨by simp [scheduledRuns, scheduledFirings], fun i hi hi' => ?_⟩
  have hlt : i < due.length := by simpa [scheduledRuns] using hi
  refine ⟨due[i], hsub _ (List.getElem_mem hlt), ?_, ?_⟩
  · simp [scheduledFirings]
  · simp [scheduledRuns, scheduledFirings]

/-- After any requests, a tick creates one run of a schedule if it is enabled and a fire
time has passed since it was armed, and none otherwise. -/
theorem schedule_fires_when_due (cron : Cron) (rt : Runtime) (fires : FireTimes)
    (hcron : cron.NextIsLeast fires) (requests : List ScheduleRequest) (s : Clocked)
    (hrun : Clocked.Run cron rt requests s) (now : Time) (ids : Nat → Uuid) (c' : Calendar)
    (hfresh : FreshIds s.calendar.tables (scheduledRuns ids (dueSchedules s.calendar.tables now)))
    (htick : Transactions.Atomic (scheduling cron rt) (.tick now ids) s.calendar c') :
    ∃ runs firings, FiresWhenDue fires s now c' runs firings := by
  have harmed := hrun.armed hcron
  have hdue : ∀ row ∈ dueSchedules s.calendar.tables now, row ∈ s.calendar.tables.schedules :=
    fun row hrow => List.mem_of_mem_filter hrow
  rcases atomic_tick harmed.ids htick with ⟨_, ⟨row, hrow, exc, hfailed⟩ | htaken⟩ | ⟨hc', _, _⟩
  · rcases advance_spec rt now hcron (harmed.valid row (hdue row hrow)) with
      ⟨next, hadvance, _⟩
    rw [hadvance] at hfailed
    cases hfailed
  · exact absurd hfresh htaken
  · refine ⟨scheduledRuns ids (dueSchedules s.calendar.tables now),
      scheduledFirings ids (dueSchedules s.calendar.tables now), ?_, ?_, ?_, ?_, ?_⟩
    · rw [hc']
    · rw [hc']
    · exact forall₂_scheduled ids hdue
    · intro row _
      rw [map_scheduledFirings]
      refine List.nodup_iff_count_le_one.mp ?_ row.id
      exact harmed.ids.sublist (List.filter_sublist.map _)
    · intro row hrow
      rw [map_scheduledFirings, mem_due_iff harmed.ids hrow]
      exact (harmed.timed row hrow).isDue_iff

/-! ## Handing runs over -/

/-- The runs that a tick has committed. -/
def committedRuns (c c' : Calendar) : List RunRow :=
  c'.tables.runs.drop c.tables.runs.length

/-- Every element that passes the test is taken exactly once, if and only if none comes
after one that fails it. -/
theorem count_takeWhile_iff {α : Type} [DecidableEq α] (fails : α → Bool) {list : List α}
    (hnodup : list.Nodup) :
    (∀ a ∈ list, fails a = false → (list.takeWhile fun a => !fails a).count a = 1) ↔
      list.Pairwise fun a b => fails a = true → fails b = true := by
  induction list with
  | nil => simp
  | cons first rest ih =>
      rw [List.nodup_cons] at hnodup
      rw [List.pairwise_cons, ← ih hnodup.2, List.forall_mem_cons]
      cases hfirst : fails first with
      | true =>
          simp only [List.takeWhile_cons, hfirst, Bool.not_true]
          constructor
          · rintro ⟨_, hrest⟩
            have hall : ∀ b ∈ rest, fails b = true := by
              intro b hb
              by_contra hok
              exact absurd (hrest b hb (by simpa using hok)) (by simp)
            refine ⟨fun b hb _ => hall b hb, fun a ha hok => ?_⟩
            rw [hall a ha] at hok
            cases hok
          · rintro ⟨hall, _⟩
            refine ⟨nofun, fun a ha hok => ?_⟩
            rw [hall a ha trivial] at hok
            cases hok
      | false =>
          have hnotTaken : first ∉ rest.takeWhile fun a => !fails a :=
            fun hmem => hnodup.1 ((List.takeWhile_sublist _).subset hmem)
          simp only [List.takeWhile_cons, hfirst, Bool.not_false, if_true, forall_const,
            List.count_cons_self, List.count_eq_zero.mpr hnotTaken]
          refine ⟨fun h => ⟨fun b _ hfalse => absurd hfalse (by simp), fun a ha hok => ?_⟩,
            fun h => ⟨trivial, fun a ha hok => ?_⟩⟩
          · have hne : first ≠ a := fun heq => hnodup.1 (heq ▸ ha)
            have hcount := h.2 a ha hok
            rwa [List.count_cons_of_ne hne] at hcount
          · have hne : first ≠ a := fun heq => hnodup.1 (heq ▸ ha)
            rw [List.count_cons_of_ne hne]
            exact h.2 a ha hok

/-- Every run that a tick has committed, and whose call does not raise, is handed over
exactly once, if and only if no such run comes after one whose call raises. -/
theorem all_enqueued_iff (cron : Cron) (rt : Runtime) (c c' : Calendar) (now : Time)
    (ids : Nat → Uuid) (hids : (c.tables.schedules.map Schedule.id).Nodup)
    (htick : Transactions.Atomic (scheduling cron rt) (.tick now ids) c c') (fails : Uuid → Bool) :
    (∀ run ∈ committedRuns c c', run.run.status = .queued → fails run.id = false →
      (enqueueRuns fails ((committedRuns c c').map RunRow.id)).1.count run.id = 1) ↔
    ((committedRuns c c').map RunRow.id).Pairwise fun a b => fails a = true → fails b = true := by
  have hcommitted : ((committedRuns c c').map RunRow.id).Nodup ∧
      ∀ run ∈ committedRuns c c', run.run.status = .queued := by
    rcases atomic_tick hids htick with ⟨rfl, _⟩ | ⟨hc', hfresh, _⟩
    · simp [committedRuns]
    · have hruns : committedRuns c c' = scheduledRuns ids (dueSchedules c.tables now) := by
        rw [committedRuns, hc']
        exact List.drop_left
      rw [hruns]
      refine ⟨hfresh.1, fun run hrun => ?_⟩
      rcases List.exists_of_mem_mapIdx hrun with ⟨i, hi, rfl⟩
      rfl
  rw [enqueueRuns_eq, ← count_takeWhile_iff fails hcommitted.1, List.forall_mem_map]
  exact forall₂_congr fun run hrun => ⟨fun h hok => h (hcommitted.2 run hrun) hok,
    fun h _ hok => h hok⟩

/-! ## Two schedules of one pipeline -/

namespace Samples

/-- Every expression fires at the multiples of five. -/
def everyFive : Cron where
  isValid := fun _ => true
  knownZone := fun _ => true
  getNext := fun _ _ after => .ok (5 * (after / 5 + 1))

/-- The multiples of five. -/
def multiplesOfFive : FireTimes := fun _ _ time => ∃ k : Int, time = 5 * k

private theorem everyFive_nextIsLeast : everyFive.NextIsLeast multiplesOfFive := by
  intro cronExpr timezone _ _ after
  have hafter : ∀ time : Int, time < 5 * (time / 5 + 1) := by
    intro time
    omega
  have hleast : ∀ time k : Int, time < 5 * k → 5 * (time / 5 + 1) ≤ 5 * k := by
    intro time k hlt
    omega
  refine ⟨5 * (after / 5 + 1), rfl, ⟨⟨after / 5 + 1, rfl⟩, hafter after⟩, ?_⟩
  rintro time ⟨⟨k, rfl⟩, hlt⟩
  exact hleast after k hlt

/-- The database of one user with one pipeline. -/
def office : Tables :=
  { Tables.empty with pipelines := [⟨"pipeline", "user", "daily", []⟩] }

/-- Ids of new runs. -/
def newId (i : Nat) : Uuid :=
  "run-" ++ toString i

/-- The user creates a schedule. -/
def firstRequest : ScheduleRequest :=
  .create "user" "schedule" { pipelineId := "pipeline", cronExpr := "*/5 * * * *" } 2

/-- A request that is carried out at once. -/
def carryOut (request : ScheduleRequest) (fuel : Nat) (c : Calendar) : Calendar :=
  let p := scheduling everyFive runtime
  p.commit (Transactions.settle p fuel (p.read request c)) c

/-- The calendar after the first request. -/
def scheduled : Calendar :=
  carryOut firstRequest 0 ⟨office, []⟩

/-- Two schedules that have been due for a while. -/
def twoDue : Calendar :=
  { scheduled with tables := { scheduled.tables with
    schedules := [
      ⟨"first", "pipeline", "user", "*/5 * * * *", "UTC", true, none, some 5⟩,
      ⟨"second", "pipeline", "user", "*/5 * * * *", "UTC", true, none, some 5⟩] } }

end Samples

open Samples

theorem schedule_fires_when_due_missed :
    ∃ s c' runs firings, Clocked.Run everyFive runtime [firstRequest] s ∧
      Transactions.Atomic (scheduling everyFive runtime) (.tick 12 newId) s.calendar c' ∧
      FiresWhenDue multiplesOfFive s 12 c' runs firings ∧
      c'.tables.runs.map RunRow.id = ["run-0"] := by
  have hcreate : Transactions.Atomic (scheduling everyFive runtime) firstRequest ⟨office, []⟩
      scheduled :=
    Transactions.atomic_of_settle 0 rfl
  have hrun := Clocked.Run.snoc [] firstRequest ⟨⟨office, []⟩, fun _ => 0⟩ scheduled
    (.start office _ rfl) hcreate
  have htick : Transactions.Atomic (scheduling everyFive runtime) (.tick 12 newId) scheduled
      (carryOut (.tick 12 newId) 1 scheduled) :=
    Transactions.atomic_of_settle 1 (by decide +kernel)
  rcases schedule_fires_when_due everyFive runtime multiplesOfFive everyFive_nextIsLeast _ _ hrun
    12 newId _ (by decide +kernel) htick with ⟨runs, firings, hfires⟩
  exact ⟨_, _, runs, firings, hrun, htick, hfires, by decide +kernel⟩

private theorem twoDue_tick :
    Transactions.Atomic (scheduling everyFive runtime) (.tick 12 newId) twoDue
      (carryOut (.tick 12 newId) 2 twoDue) :=
  Transactions.atomic_of_settle 2 (by decide +kernel)

theorem all_enqueued_iff_twoDue :
    (twoDue.tables.schedules.map Schedule.id).Nodup ∧
      ∀ fails : Uuid → Bool,
        (∀ run ∈ committedRuns twoDue (carryOut (.tick 12 newId) 2 twoDue),
          run.run.status = .queued → fails run.id = false →
          (enqueueRuns fails ((committedRuns twoDue (carryOut (.tick 12 newId) 2 twoDue)).map
            RunRow.id)).1.count run.id = 1) ↔
        ((committedRuns twoDue (carryOut (.tick 12 newId) 2 twoDue)).map RunRow.id).Pairwise
          fun a b => fails a = true → fails b = true :=
  ⟨by decide +kernel, fun fails =>
    all_enqueued_iff everyFive runtime _ _ 12 newId (by decide +kernel) twoDue_tick fails⟩

/-- The call for the first of two runs raises: the second one is committed and queued,
but it is not handed over, and no later tick finds its schedule due. -/
theorem later_run_lost :
    ∃ c', Transactions.Atomic (scheduling everyFive runtime) (.tick 12 newId) twoDue c' ∧
      (∃ run ∈ committedRuns twoDue c', run.run.status = .queued ∧
        decide (run.id = "run-0") = false ∧
        (enqueueRuns (fun id => decide (id = "run-0"))
          ((committedRuns twoDue c').map RunRow.id)).1.count run.id = 0) ∧
      dueSchedules c'.tables 12 = [] :=
  ⟨_, twoDue_tick, by decide +kernel, by decide +kernel⟩

end EtlTool
