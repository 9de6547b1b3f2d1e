import EtlTool.Server.Models

/-!
# The whole database

All tables of the server, with the rows of every user.  A worker that executes a run
works on the rows of this run only; {lit}`Tables.view` is what it sees of the database,
and {lit}`Tables.putBack` what it leaves there.

Main results:

- Theorem {lit}`view_putBack_self`: a worker finds again what it has left.
- Theorem {lit}`view_putBack_other`: rows of other runs are left alone.

Current gaps:

- Timestamps other than those of schedules; the order of a listing by creation time.
-/

namespace EtlTool

/-- A {lit}`uuid.UUID`. -/
abbrev Uuid := String

/-- An instant, in microseconds of UTC. -/
abbrev Time := Int

/-! ## Rows -/

/-- {lit}`User`. -/
structure User where
  id : Uuid
  email : String
  hashedPassword : String
  isActive : Bool
deriving DecidableEq

/-- {lit}`Pipeline`. -/
structure Pipeline where
  id : Uuid
  ownerId : Uuid
  name : String
  spec : Fields
deriving DecidableEq

/-- {lit}`RunTrigger`. -/
inductive RunTrigger where
  | manual
  | schedule
deriving DecidableEq

/-- {lit}`Run`, as a row: the columns that its worker uses, and the others. -/
structure RunRow where
  id : Uuid
  pipelineId : Uuid
  trigger : RunTrigger
  params : Option Fields
  run : Run
deriving DecidableEq

/-- {lit}`Run.owner_id`. -/
def RunRow.ownerId (row : RunRow) : Uuid :=
  row.run.ownerId

/-- A run that has just been created. -/
def RunRow.queued (id pipelineId ownerId : Uuid) (trigger : RunTrigger)
    (params : Option Fields) : RunRow where
  id := id
  pipelineId := pipelineId
  trigger := trigger
  params := params
  run := ⟨ownerId, .queued, 0, none⟩

/-- {lit}`RunLog`, as a row. -/
structure LogRow where
  runId : Uuid
  log : RunLog
deriving DecidableEq

/-- {lit}`RunError`, as a row. -/
structure ErrorRow where
  runId : Uuid
  error : NodeError

/-- {lit}`Schedule`. -/
structure Schedule where
  id : Uuid
  pipelineId : Uuid
  ownerId : Uuid
  cronExpr : String
  timezone : String
  enabled : Bool
  lastRun : Option Time
  nextRun : Option Time
deriving DecidableEq

/-- {lit}`Secret`. -/
structure Secret where
  id : Uuid
  ownerId : Uuid
  ref : String
  ciphertext : String
deriving DecidableEq

/-! ## Tables -/

/-- The tables of the server. -/
@[ext]
structure Tables where
  users : List User
  pipelines : List Pipeline
  runs : List RunRow
  logs : List LogRow
  errors : List ErrorRow
  schedules : List Schedule
  secrets : List Secret

namespace Tables

/-- A database without rows. -/
def empty : Tables where
  users := []
  pipelines := []
  runs := []
  logs := []
  errors := []
  schedules := []
  secrets := []

/-- {lit}`session.get(Pipeline, id)`. -/
def pipeline? (tables : Tables) (id : Uuid) : Option Pipeline :=
  tables.pipelines.find? fun row => row.id = id

/-- {lit}`session.get(Run, id)`. -/
def run? (tables : Tables) (id : Uuid) : Option RunRow :=
  tables.runs.find? fun row => row.id = id

/-- {lit}`session.get(Schedule, id)`. -/
def schedule? (tables : Tables) (id : Uuid) : Option Schedule :=
  tables.schedules.find? fun row => row.id = id

theorem mem_of_pipeline? {tables : Tables} {id : Uuid} {row : Pipeline}
    (h : tables.pipeline? id = some row) : row ∈ tables.pipelines ∧ row.id = id :=
  ⟨List.mem_of_find?_eq_some h, by simpa using List.find?_some h⟩

theorem mem_of_run? {tables : Tables} {id : Uuid} {row : RunRow}
    (h : tables.run? id = some row) : row ∈ tables.runs ∧ row.id = id :=
  ⟨List.mem_of_find?_eq_some h, by simpa using List.find?_some h⟩

theorem mem_of_schedule? {tables : Tables} {id : Uuid} {row : Schedule}
    (h : tables.schedule? id = some row) : row ∈ tables.schedules ∧ row.id = id :=
  ⟨List.mem_of_find?_eq_some h, by simpa using List.find?_some h⟩

/-! ## What a worker sees -/

/-- The rows of one run. -/
def view (tables : Tables) (runId : Uuid) : Database where
  run := (tables.run? runId).map RunRow.run
  pipelineSpec := (tables.run? runId).bind fun row =>
    (tables.pipeline? row.pipelineId).map Pipeline.spec
  logs := (tables.logs.filter fun row => row.runId = runId).map LogRow.log
  errors := (tables.errors.filter fun row => row.runId = runId).map ErrorRow.error

/-- What a worker has left of the row of its run. -/
def settled (runId : Uuid) (db : Database) (row : RunRow) : RunRow :=
  if row.id = runId then { row with run := db.run.getD row.run } else row

/-- The tables after a worker has left new rows of one run. -/
def putBack (tables : Tables) (runId : Uuid) (db : Database) : Tables :=
  { tables with
    runs := tables.runs.map (settled runId db)
    logs := (tables.logs.filter fun row => ¬ row.runId = runId) ++ db.logs.map (LogRow.mk runId)
    errors :=
      (tables.errors.filter fun row => ¬ row.runId = runId) ++ db.errors.map (ErrorRow.mk runId) }

theorem settled_keys (runId : Uuid) (db : Database) (row : RunRow) :
    (settled runId db row).id = row.id ∧ (settled runId db row).pipelineId = row.pipelineId := by
  unfold settled
  split <;> exact ⟨rfl, rfl⟩

private theorem run?_putBack (tables : Tables) (runId id : Uuid) (db : Database) :
    (tables.putBack runId db).run? id = (tables.run? id).map (settled runId db) := by
  have hkeys : ((fun row : RunRow => decide (row.id = id)) ∘ settled runId db) =
      fun row => decide (row.id = id) := by
    funext row
    simp only [Function.comp_apply, (settled_keys runId db row).1]
  simp only [run?, putBack, List.find?_map, hkeys]

/-- A worker finds again what it has left. -/
theorem view_putBack_self {tables : Tables} {runId : Uuid} {db : Database}
    (hstored : (tables.run? runId).isSome) (hleft : db.run.isSome) :
    (tables.putBack runId db).view runId =
      { db with pipelineSpec := (tables.view runId).pipelineSpec } := by
  rcases Option.isSome_iff_exists.mp hstored with ⟨row, hrow⟩
  rcases Option.isSome_iff_exists.mp hleft with ⟨run, hrun⟩
  have hown : settled runId db row = { row with run := run } := by
    simp only [settled, if_pos (mem_of_run? hrow).2, hrun, Option.getD_some]
  have hlogs : (((tables.logs.filter fun row => ¬ row.runId = runId) ++
      db.logs.map (LogRow.mk runId)).filter fun row => row.runId = runId).map LogRow.log =
        db.logs := by
    simp [List.filter_append, List.filter_filter, List.filter_map, Function.comp_def]
  have herrors : (((tables.errors.filter fun row => ¬ row.runId = runId) ++
      db.errors.map (ErrorRow.mk runId)).filter fun row => row.runId = runId).map
        ErrorRow.error = db.errors := by
    simp [List.filter_append, List.filter_filter, List.filter_map, Function.comp_def]
  simp only [view, run?_putBack, hrow, Option.map_some, Option.bind_some, hown, ← hrun]
  simp only [putBack, pipeline?, hlogs, herrors]

/-- Rows of other runs are left alone. -/
theorem view_putBack_other {tables : Tables} {runId id : Uuid} {db : Database}
    (h : id ≠ runId) : (tables.putBack runId db).view id = tables.view id := by
  have hrow : (tables.run? id).map (settled runId db) = tables.run? id := by
    cases hrow : tables.run? id with
    | none => rfl
    | some row =>
        have hkey : row.id ≠ runId := fun heq => h ((mem_of_run? hrow).2 ▸ heq)
        simp only [Option.map_some, settled, if_neg hkey]
  have hkept : ∀ {β : Type} (parent : β → Uuid) (children left : List β),
      (∀ row ∈ left, parent row = runId) →
      (((children.filter fun row => ¬ parent row = runId) ++ left).filter
        fun row => parent row = id) = children.filter fun row => parent row = id := by
    intro β parent children left hleft
    have hnone : (left.filter fun row => parent row = id) = [] := by
      rw [List.filter_eq_nil_iff]
      intro row hrow heq
      exact h ((of_decide_eq_true heq).symm.trans (hleft row hrow))
    rw [List.filter_append, hnone, List.append_nil, List.filter_filter]
    apply List.filter_congr
    intro row _
    by_cases heq : parent row = id
    · simp [heq, h]
    · simp [heq]
  simp only [view, run?_putBack, hrow]
  have hlogs := hkept LogRow.runId tables.logs (db.logs.map (LogRow.mk runId))
    (List.forall_mem_map.mpr fun _ _ => rfl)
  have herrors := hkept ErrorRow.runId tables.errors (db.errors.map (ErrorRow.mk runId))
    (List.forall_mem_map.mpr fun _ _ => rfl)
  simp only [putBack, pipeline?, hlogs, herrors]

end Tables

end EtlTool
