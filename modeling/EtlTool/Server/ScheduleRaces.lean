import EtlTool.Server.ScheduleFiring

/-!
# Schedules under concurrency

Requests and ticks that overlap.  A tick creates the runs of the schedules that it has
read as due, and writes their next runs; an edit writes the columns that it has changed.
Neither locks what it has read, so two ticks can fire a schedule twice for one fire
time, and a tick can write a next run that belongs to a timing which has been edited
away.  Neither happens if nobody reads while somebody else is between the read and the
commit.

Main results:

- Theorem {lit}`fired_once`: separated ticks create one run for each time at which a
  schedule is due.
- Theorem {lit}`fired_twice`: two overlapping ticks create two.
- Theorem {lit}`next_run_belongs`: with separated requests the next run of an enabled
  schedule is a fire time of its timing.
- Theorem {lit}`next_run_stale`: an edit during a tick leaves a next run that is not.
-/

namespace EtlTool

open Interleaving Transactions

variable {cron : Cron} {rt : Runtime} {now : Time} {ids : Nat → Uuid} {c c' : Calendar}

/-! ## One run for each time -/

/-- The next run is strictly after the given time. -/
def Cron.NextIsLater (cron : Cron) : Prop :=
  ∀ cronExpr timezone after next, cron.getNext cronExpr timezone after = .ok next → after < next

/-- The schedule and the time for which a run was created. -/
def Firing.key (firing : Firing) : Uuid × Option Time :=
  (firing.scheduleId, firing.dueAt)

/-- The runs that ticks have added to the tables, one at most for each time at which a
schedule was due. -/
structure OncePerFire (tables : Tables) (c : Calendar) : Prop where
  accounted : ∃ created, c.tables.runs = tables.runs ++ created ∧
    created.map RunRow.id = c.firings.map Firing.runId
  once : (c.firings.map Firing.key).Nodup

/-- What holds between ticks: the next run of an enabled schedule is after all times for
which it has fired. -/
structure Fired (tables : Tables) (c : Calendar) : Prop where
  ids : (c.tables.schedules.map Schedule.id).Nodup
  oncePerFire : OncePerFire tables c
  passed : ∀ firing ∈ c.firings, ∀ row ∈ c.tables.schedules, row.id = firing.scheduleId →
    row.enabled = true → ∀ next, row.nextRun = some next →
      ∃ due, firing.dueAt = some due ∧ due < next

theorem Fired.initial {tables : Tables} (hids : (tables.schedules.map Schedule.id).Nodup) :
    Fired tables ⟨tables, []⟩ where
  ids := hids
  oncePerFire := ⟨⟨[], by simp⟩, List.nodup_nil⟩
  passed := nofun

private theorem map_key_scheduledFirings (ids : Nat → Uuid) (due : List Schedule) :
    (scheduledFirings ids due).map Firing.key = due.map fun row => (row.id, row.nextRun) := by
  apply List.ext_getElem?
  intro i
  simp only [scheduledFirings, List.getElem?_map, List.getElem?_mapIdx, Option.map_map]
  rfl

private theorem map_runId_scheduledFirings (ids : Nat → Uuid) (due : List Schedule) :
    (scheduledRuns ids due).map RunRow.id = (scheduledFirings ids due).map Firing.runId := by
  apply List.ext_getElem?
  intro i
  simp only [scheduledRuns, scheduledFirings, List.getElem?_map, List.getElem?_mapIdx,
    Option.map_map]
  rfl

/-- A fired schedule is disabled, or its next run is after the tick. -/
theorem advance_later (hcron : cron.NextIsLater) {row advanced : Schedule}
    (h : advance cron rt row now = .ok advanced) (henabled : advanced.enabled = true) :
    ∃ next, advanced.nextRun = some next ∧ now < next := by
  unfold advance at h
  split at h
  · rename_i next hnext
    cases h
    exact ⟨next, rfl, hcron _ _ _ _ (computeNextRun_eq_ok hnext).2⟩
  · cases h
    cases henabled
  · cases h

/-- A due schedule has not fired for its next run yet. -/
theorem Fired.disjoint_due {tables : Tables} (h : Fired tables c) (now : Time) :
    List.Disjoint (c.firings.map Firing.key)
      ((dueSchedules c.tables now).map fun row => (row.id, row.nextRun)) := by
  intro key hold hnew
  rcases List.mem_map.mp hold with ⟨firing, hfiring, rfl⟩
  rcases List.mem_map.mp hnew with ⟨row, hrow, hkey⟩
  rcases List.mem_filter.mp hrow with ⟨hmem, hdue⟩
  rcases isDue_iff.mp hdue with ⟨henabled, next, hnext, _⟩
  have hid : row.id = firing.scheduleId := congrArg Prod.fst hkey
  have hdueAt : row.nextRun = firing.dueAt := congrArg Prod.snd hkey
  rcases h.passed firing hfiring row hmem hid henabled next hnext with ⟨due, hat, hlt⟩
  rw [← hdueAt, hnext, Option.some.injEq] at hat
  exact absurd hlt (hat ▸ lt_irrefl next)

private theorem nodup_dueKeys (hids : (c.tables.schedules.map Schedule.id).Nodup) (now : Time) :
    ((dueSchedules c.tables now).map fun row => (row.id, row.nextRun)).Nodup := by
  have hnodup : ((dueSchedules c.tables now).map Schedule.id).Nodup :=
    hids.sublist (List.filter_sublist.map _)
  refine List.Nodup.of_map Prod.fst ?_
  rwa [List.map_map]

/-- A tick fires a schedule for the next run that it had. -/
theorem dueAt_of_scheduledFiring (hids : (c.tables.schedules.map Schedule.id).Nodup)
    {row : Schedule} (hrow : row ∈ c.tables.schedules) {firing : Firing}
    (hfiring : firing ∈ scheduledFirings ids (dueSchedules c.tables now))
    (hid : row.id = firing.scheduleId) : firing.dueAt = row.nextRun := by
  have hkey : firing.key ∈ (dueSchedules c.tables now).map fun row => (row.id, row.nextRun) := by
    rw [← map_key_scheduledFirings ids]
    exact List.mem_map_of_mem hfiring
  rcases List.mem_map.mp hkey with ⟨other, hother, heq⟩
  have hotherId : other.id = firing.scheduleId := congrArg Prod.fst heq
  have hotherAt : other.nextRun = firing.dueAt := congrArg Prod.snd heq
  rw [← hotherAt, eq_of_id_eq hids (List.mem_filter.mp hother).1 hrow (hotherId.trans hid.symm)]

/-- After a tick the next run of an enabled schedule is after all times for which it has
fired. -/
theorem Fired.passed_tick (hcron : cron.NextIsLater) {tables : Tables} (h : Fired tables c)
    (hadvance : ∀ row ∈ dueSchedules c.tables now,
      ∃ advanced, advance cron rt row now = .ok advanced)
    {firing : Firing}
    (hfiring : firing ∈ c.firings ++ scheduledFirings ids (dueSchedules c.tables now))
    {row : Schedule} (hrow : row ∈ c.tables.schedules) (hid : row.id = firing.scheduleId)
    (henabled : (advanceDue cron rt now row).enabled = true) {next : Time}
    (hnext : (advanceDue cron rt now row).nextRun = some next) :
    ∃ due, firing.dueAt = some due ∧ due < next := by
  rw [List.mem_append] at hfiring
  by_cases hisDue : row.isDue now = true
  · rcases hadvance row (List.mem_filter.mpr ⟨hrow, hisDue⟩) with ⟨advanced, hok⟩
    have hsame : advanceDue cron rt now row = advanced := by
      simp [advanceDue, hisDue, hok]
    rw [hsame] at henabled hnext
    rcases advance_later hcron hok henabled with ⟨later, hlater, hlt⟩
    rw [hnext, Option.some.injEq] at hlater
    subst hlater
    rcases isDue_iff.mp hisDue with ⟨hwas, before, hbefore, hle⟩
    have hpassed : before < next := lt_of_le_of_lt hle hlt
    rcases hfiring with hold | hnew
    · rcases h.passed firing hold row hrow hid hwas before hbefore with ⟨due, hat, hpast⟩
      exact ⟨due, hat, lt_trans hpast hpassed⟩
    · exact ⟨before, (dueAt_of_scheduledFiring h.ids hrow hnew hid).trans hbefore, hpassed⟩
  · have hsame : advanceDue cron rt now row = row := by
      simp [advanceDue, hisDue]
    rw [hsame] at henabled hnext
    rcases hfiring with hold | hnew
    · exact h.passed firing hold row hrow hid henabled next hnext
    · have hmem : firing.scheduleId ∈ (dueSchedules c.tables now).map Schedule.id := by
        rw [← map_scheduledFirings ids]
        exact List.mem_map_of_mem hnew
      rw [← hid, mem_due_iff h.ids hrow] at hmem
      exact absurd hmem hisDue

/-- A tick that nobody interrupts fires a schedule for a time that it has not fired for
yet. -/
theorem Fired.tick (hcron : cron.NextIsLater) {tables : Tables} (h : Fired tables c)
    (hatomic : Atomic (scheduling cron rt) (.tick now ids) c c') : Fired tables c' := by
  rcases atomic_tick h.ids hatomic with ⟨rfl, _⟩ | ⟨hc', _, hadvance⟩
  · exact h
  · have hrows : c'.tables.schedules = c.tables.schedules.map (advanceDue cron rt now) := by
      rw [hc']
    have hfirings : c'.firings = c.firings ++ scheduledFirings ids (dueSchedules c.tables now) := by
      rw [hc']
    refine ⟨(atomic_rows h.ids hatomic).ids, ⟨?_, ?_⟩, ?_⟩
    · rcases h.oncePerFire.accounted with ⟨created, hcreated, hrunIds⟩
      refine ⟨created ++ scheduledRuns ids (dueSchedules c.tables now), ?_, ?_⟩
      · rw [hc', ← List.append_assoc, ← hcreated]
      · rw [hfirings, List.map_append, List.map_append, hrunIds, map_runId_scheduledFirings]
    · rw [hfirings, List.map_append, map_key_scheduledFirings, List.nodup_append']
      exact ⟨h.oncePerFire.once, nodup_dueKeys h.ids now, h.disjoint_due now⟩
    · intro firing hfiring row' hrow' hid henabled next hnext
      rw [hfirings] at hfiring
      rw [hrows] at hrow'
      rcases List.mem_map.mp hrow' with ⟨row, hrow, rfl⟩
      rw [advanceDue_id] at hid
      exact h.passed_tick hcron hadvance hfiring hrow hid henabled hnext

/-- If no tick reads while another one is between its read and its commit, then one run
at most is created for each time at which a schedule is due. -/
theorem fired_once (cron : Cron) (rt : Runtime) (hcron : cron.NextIsLater) (tables : Tables)
    (hids : (tables.schedules.map Schedule.id).Nodup) (requests : List ScheduleRequest)
    (hticks : ∀ request ∈ requests, ∃ now ids, request = .tick now ids)
    (actions : List (Nat × Move)) (s : System Calendar ScheduleRequest ScheduleWork)
    (hapart : Guarded (Transactions.next (scheduling cron rt)) Apart
      (.initial ⟨tables, []⟩ requests) actions)
    (hrun : exec (Transactions.next (scheduling cron rt)) (.initial ⟨tables, []⟩ requests) actions =
      some s) : OncePerFire tables s.store := by
  have hinv := serial_of_apart hapart hrun
  have hpreserved : ∀ request ∈ s.committed, ∀ c c', Fired tables c →
      Atomic (scheduling cron rt) request c c' → Fired tables c' := by
    intro request hcommitted c c' hfired hatomic
    rcases hticks request (hinv.mem_requests hcommitted) with ⟨now, ids, rfl⟩
    exact hfired.tick hcron hatomic
  exact (hinv.serial.invariant hpreserved (Fired.initial hids)).oncePerFire

/-! ## The next run belongs to the timing -/

/-- {lit}`get_next` answers a fire time. -/
def Cron.NextFires (cron : Cron) (fires : FireTimes) : Prop :=
  ∀ cronExpr timezone after next, cron.getNext cronExpr timezone after = .ok next →
    fires cronExpr timezone next

/-- The next run of an enabled schedule is a fire time of its timing. -/
def Schedule.Belongs (fires : FireTimes) (row : Schedule) : Prop :=
  row.enabled = true → ∃ next, row.nextRun = some next ∧ fires row.cronExpr row.timezone next

/-- What holds between requests. -/
structure AllBelong (fires : FireTimes) (c : Calendar) : Prop where
  ids : (c.tables.schedules.map Schedule.id).Nodup
  belongs : ∀ row ∈ c.tables.schedules, row.Belongs fires

variable {fires : FireTimes}

/-- A next run that has just been computed belongs to the timing. -/
theorem belongs_of_refresh (hcron : cron.NextFires fires) {row refreshed : Schedule}
    (h : refreshNextRun cron rt row now = .ok refreshed) : refreshed.Belongs fires := by
  rcases refreshNextRun_eq_ok h with ⟨next, hnext, rfl⟩
  exact fun _ => ⟨next, rfl, hcron _ _ _ _ (computeNextRun_eq_ok hnext).2⟩

private theorem createSchedule_belongs (hcron : cron.NextFires fires) {id ownerId : Uuid}
    {payload : ScheduleCreate} {row : Schedule}
    (h : createSchedule cron rt id ownerId payload now = .ok row) : row.Belongs fires := by
  unfold createSchedule at h
  split at h
  · cases h
  · dsimp only at h
    split at h
    · exact belongs_of_refresh hcron h
    · rename_i hdisabled
      cases h
      exact fun henabled => absurd henabled hdisabled

/-- An edit that does not compute a next run leaves an enabled schedule its timing. -/
theorem updateSchedule_belongs (hcron : cron.NextFires fires) {loaded assigned : Schedule}
    {payload : ScheduleUpdate} (hloaded : loaded.Belongs fires)
    (h : updateSchedule cron rt loaded payload now = .ok assigned) : assigned.Belongs fires := by
  rcases (updateSchedule_eq_ok h).2 with ⟨_, hrefresh⟩ | ⟨hkeep, rfl⟩
  · exact belongs_of_refresh hcron hrefresh
  · intro henabled
    simp only [henabled, Bool.true_and, Bool.or_eq_false_iff, Bool.not_eq_false'] at hkeep
    rcases hkeep with ⟨⟨hchanged, hwas⟩, _⟩
    have hsame : payload.cronExpr = none ∧ payload.timezone = none := by
      simpa [ScheduleUpdate.timingChanged] using hchanged
    simpa [ScheduleUpdate.assign, hsame.1, hsame.2] using hloaded hwas

private theorem advance_belongs (hcron : cron.NextFires fires) {loaded assigned : Schedule}
    (h : advance cron rt loaded now = .ok assigned) : assigned.Belongs fires := by
  unfold advance at h
  split at h
  · rename_i next hnext
    cases h
    exact fun _ => ⟨next, rfl, hcron _ _ _ _ (computeNextRun_eq_ok hnext).2⟩
  · cases h
    exact fun henabled => absurd henabled (by simp)
  · cases h

/-- A request that nobody interrupts leaves every schedule a next run of its timing. -/
theorem AllBelong.atomic (hcron : cron.NextFires fires) (h : AllBelong fires c)
    {request : ScheduleRequest} (hatomic : Atomic (scheduling cron rt) request c c') :
    AllBelong fires c' := by
  have hrows := atomic_rows h.ids hatomic
  refine ⟨hrows.ids, fun row hrow => ?_⟩
  cases hrows.origin row hrow with
  | kept request row hbefore => exact h.belongs row hbefore
  | created userId id payload now pipeline row _ hcreate =>
      exact createSchedule_belongs hcron hcreate
  | edited userId id payload now loaded assigned hloaded _ hupdate =>
      exact updateSchedule_belongs hcron (h.belongs loaded hloaded) hupdate
  | advanced now ids loaded assigned _ _ hadvance => exact advance_belongs hcron hadvance

/-- If nobody reads while somebody else is between the read and the commit, then in every
committed state the next run of an enabled schedule is a fire time of its timing. -/
theorem next_run_belongs (cron : Cron) (rt : Runtime) (fires : FireTimes)
    (hcron : cron.NextFires fires) (tables : Tables) (htables : AllBelong fires ⟨tables, []⟩)
    (requests : List ScheduleRequest) (actions : List (Nat × Move))
    (s : System Calendar ScheduleRequest ScheduleWork)
    (hapart : Guarded (Transactions.next (scheduling cron rt)) Apart
      (.initial ⟨tables, []⟩ requests) actions)
    (hrun : exec (Transactions.next (scheduling cron rt)) (.initial ⟨tables, []⟩ requests) actions =
      some s) : ∀ row ∈ s.store.tables.schedules, row.Belongs fires := by
  have hinv := serial_of_apart hapart hrun
  have hpreserved : ∀ request ∈ s.committed, ∀ c c', AllBelong fires c →
      Atomic (scheduling cron rt) request c c' → AllBelong fires c' :=
    fun _ _ _ _ hall hatomic => hall.atomic hcron hatomic
  exact (hinv.serial.invariant hpreserved htables).belongs

/-! ## Overlapping transactions -/

namespace Samples

/-- Ids of the runs of another tick. -/
def otherId (i : Nat) : Uuid :=
  "run-again-" ++ toString i

/-- Two ticks. -/
def twoTicks : List ScheduleRequest :=
  [.tick 12 newId, .tick 12 otherId]

/-- One expression fires at the multiples of seven, the others at the multiples of
five. -/
def fiveOrSeven : Cron where
  isValid := fun _ => true
  knownZone := fun _ => true
  getNext := fun cronExpr _ after =>
    if cronExpr = "*/7 * * * *" then .ok (7 * (after / 7 + 1)) else .ok (5 * (after / 5 + 1))

/-- Its fire times. -/
def multiples : FireTimes := fun cronExpr _ time =>
  if cronExpr = "*/7 * * * *" then (7 : Int) ∣ time else (5 : Int) ∣ time

/-- A tick, and an edit of the timing. -/
def tickAndEdit : List ScheduleRequest :=
  [.tick 12 newId, .update "user" "schedule" { cronExpr := some "*/7 * * * *" } 12]

private theorem everyFive_nextIsLater : everyFive.NextIsLater := by
  intro cronExpr timezone after next hnext
  have hafter : ∀ time : Int, time < 5 * (time / 5 + 1) := by
    intro time
    omega
  cases hnext
  exact hafter after

private theorem fiveOrSeven_nextFires : fiveOrSeven.NextFires multiples := by
  intro cronExpr timezone after next hnext
  simp only [fiveOrSeven] at hnext
  simp only [multiples]
  split at hnext
  · rename_i hseven
    cases hnext
    rw [if_pos hseven]
    exact Int.dvd_mul_right _ _
  · rename_i hfive
    cases hnext
    rw [if_neg hfive]
    exact Int.dvd_mul_right _ _

private theorem scheduled_allBelong : AllBelong multiples ⟨scheduled.tables, []⟩ where
  ids := by decide +kernel
  belongs := by
    have hrows : scheduled.tables.schedules =
        [⟨"schedule", "pipeline", "user", "*/5 * * * *", "UTC", true, none, some 5⟩] := by
      decide +kernel
    intro row hrow
    rw [hrows, List.mem_singleton] at hrow
    subst hrow
    exact fun _ => ⟨5, rfl, by simp [multiples]⟩

end Samples

open Samples

theorem fired_once_twoTicks :
    ∃ s, exec (Transactions.next (scheduling everyFive runtime))
        (.initial ⟨scheduled.tables, []⟩ twoTicks)
        [(0, .read), (0, .work), (0, .commit), (1, .read), (1, .commit)] = some s ∧
      OncePerFire scheduled.tables s.store ∧
      s.store.firings.map Firing.key = [("schedule", some 5)] := by
  have hcheck : (exec (Transactions.next (scheduling everyFive runtime))
      (.initial ⟨scheduled.tables, []⟩ twoTicks)
      [(0, .read), (0, .work), (0, .commit), (1, .read), (1, .commit)]).map
        (fun s => s.store.firings.map Firing.key) = some [("schedule", some 5)] := by
    decide +kernel
  rcases Option.map_eq_some_iff.mp hcheck with ⟨s, hrun, hfirings⟩
  refine ⟨s, hrun, ?_, hfirings⟩
  refine fired_once everyFive runtime everyFive_nextIsLater scheduled.tables (by decide +kernel)
    twoTicks ?_ _ s (by decide +kernel) hrun
  simp [twoTicks]

/-- Two ticks read the due schedule before either of them commits: both create a run for
the same time, and both runs are handed over. -/
theorem fired_twice :
    ∃ actions s, exec (Transactions.next (scheduling everyFive runtime))
        (.initial ⟨scheduled.tables, []⟩ twoTicks) actions = some s ∧
      s.store.firings.map Firing.key = [("schedule", some 5), ("schedule", some 5)] ∧
      s.store.tables.runs.map (fun run => (run.id, run.run.status)) =
        [("run-0", .queued), ("run-again-0", .queued)] ∧
      ¬ OncePerFire scheduled.tables s.store := by
  have hcheck : (exec (Transactions.next (scheduling everyFive runtime))
      (.initial ⟨scheduled.tables, []⟩ twoTicks)
      [(0, .read), (1, .read), (0, .work), (0, .commit), (1, .work), (1, .commit)]).map
        (fun s => (s.store.firings.map Firing.key,
          s.store.tables.runs.map fun run => (run.id, run.run.status))) =
      some ([("schedule", some 5), ("schedule", some 5)],
        [("run-0", .queued), ("run-again-0", .queued)]) := by
    decide +kernel
  rcases Option.map_eq_some_iff.mp hcheck with ⟨s, hrun, heq⟩
  rw [Prod.mk.injEq] at heq
  refine ⟨_, s, hrun, heq.1, heq.2, fun honce => ?_⟩
  have hnodup := honce.once
  rw [heq.1] at hnodup
  simp at hnodup

theorem next_run_belongs_edited :
    ∃ s, exec (Transactions.next (scheduling fiveOrSeven runtime))
        (.initial ⟨scheduled.tables, []⟩ tickAndEdit)
        [(0, .read), (0, .work), (0, .commit), (1, .read), (1, .commit)] = some s ∧
      (∀ row ∈ s.store.tables.schedules, row.Belongs multiples) ∧
      s.store.tables.schedules.map (fun row => (row.cronExpr, row.nextRun)) =
        [("*/7 * * * *", some 14)] := by
  have hcheck : (exec (Transactions.next (scheduling fiveOrSeven runtime))
      (.initial ⟨scheduled.tables, []⟩ tickAndEdit)
      [(0, .read), (0, .work), (0, .commit), (1, .read), (1, .commit)]).map
        (fun s => s.store.tables.schedules.map fun row => (row.cronExpr, row.nextRun)) =
      some [("*/7 * * * *", some 14)] := by
    decide +kernel
  rcases Option.map_eq_some_iff.mp hcheck with ⟨s, hrun, hrows⟩
  exact ⟨s, hrun, next_run_belongs fiveOrSeven runtime multiples fiveOrSeven_nextFires
    scheduled.tables scheduled_allBelong tickAndEdit _ s (by decide +kernel) hrun, hrows⟩

/-- An edit is committed between the read and the commit of a tick: the tick writes the
next run of the timing that it has read, under the new timing. -/
theorem next_run_stale :
    ∃ actions s, exec (Transactions.next (scheduling fiveOrSeven runtime))
        (.initial ⟨scheduled.tables, []⟩ tickAndEdit) actions = some s ∧
      s.store.tables.schedules.map (fun row => (row.cronExpr, row.nextRun)) =
        [("*/7 * * * *", some 15)] ∧
      ¬ ∀ row ∈ s.store.tables.schedules, row.Belongs multiples := by
  have hcheck : (exec (Transactions.next (scheduling fiveOrSeven runtime))
      (.initial ⟨scheduled.tables, []⟩ tickAndEdit)
      [(0, .read), (1, .read), (1, .commit), (0, .work), (0, .commit)]).map
        (fun s => s.store.tables.schedules) =
      some [⟨"schedule", "pipeline", "user", "*/7 * * * *", "UTC", true, some 12, some 15⟩] := by
    decide +kernel
  rcases Option.map_eq_some_iff.mp hcheck with ⟨s, hrun, hrows⟩
  refine ⟨_, s, hrun, by rw [hrows]; rfl, fun hall => ?_⟩
  rw [hrows] at hall
  rcases hall _ (List.mem_singleton_self _) rfl with ⟨next, hnext, hfires⟩
  cases hnext
  simp [multiples] at hfires

end EtlTool
