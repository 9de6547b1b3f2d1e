import EtlTool.Core.Schema

/-!
# Tables of the server

The rows that one run leaves in the database: its status, its trimmed result, its
log lines and its errors.  Sessions write an attribute back only when they have
changed it since they loaded the row.

Main results:

- Theorem {lit}`Advance.not_terminal`: no step leads out of a terminal status.
- Theorem {lit}`ormWrite_of_changed`, {lit}`ormWrite_self`: what a flush writes.

Current gaps:

- Timestamps.
-/

namespace EtlTool

/-! ## Runs -/

/-- {lit}`RunState`. -/
inductive RunState where
  | queued
  | running
  | succeeded
  | failed
deriving DecidableEq

/-- {lit}`RunState.terminal`. -/
def RunState.terminal : RunState → Bool
  | succeeded => true
  | failed => true
  | _ => false

/-- The steps forward of a run's status. -/
inductive RunState.Advance : RunState → RunState → Prop
  | claim : Advance queued running
  | reject : Advance queued failed
  | succeed : Advance running succeeded
  | fail : Advance running failed

theorem RunState.Advance.not_terminal {before after : RunState} (h : Advance before after) :
    before.terminal = false := by
  cases h <;> rfl

/-- {lit}`Run`. -/
structure Run where
  ownerId : String
  status : RunState
  errorCount : Nat
  result : Option Value
deriving DecidableEq

/-! ## Logs -/

/-- {lit}`LogLevel`. -/
inductive LogLevel where
  | debug
  | info
  | warning
  | error
deriving DecidableEq

/-- {lit}`LogEvent`. -/
structure LogEvent where
  level : LogLevel
  nodeId : Option String
  message : String
  data : Option Fields
deriving DecidableEq

/-- {lit}`RunLog`, the table. -/
structure RunLog where
  id : Nat
  seq : Nat
  event : LogEvent
deriving DecidableEq

/-- Row ids start above zero and increase in insertion order. -/
def IdsIncrease (logs : List RunLog) : Prop :=
  (0 :: logs.map RunLog.id).Pairwise (· < ·)

instance (logs : List RunLog) : Decidable (IdsIncrease logs) :=
  inferInstanceAs (Decidable (List.Pairwise _ _))

/-! ## The database -/

/-- What the database holds about one run: its row, the spec of its pipeline, its log
lines and its errors. -/
structure Database where
  run : Option Run
  pipelineSpec : Option Fields
  logs : List RunLog
  errors : List NodeError

/-- The status of the run, if it exists. -/
def Database.status (db : Database) : Option RunState :=
  db.run.map Run.status

/-- The column of an attribute that was loaded with one value and assigned another:
without a change the flush leaves the column out. -/
def ormWrite {α : Type} [DecidableEq α] (loaded assigned stored : α) : α :=
  if assigned = loaded then stored else assigned

theorem ormWrite_of_changed {α : Type} [DecidableEq α] {loaded assigned : α}
    (h : assigned ≠ loaded) (stored : α) : ormWrite loaded assigned stored = assigned :=
  if_neg h

theorem ormWrite_self {α : Type} [DecidableEq α] (loaded stored : α) :
    ormWrite loaded loaded stored = stored :=
  if_pos rfl

end EtlTool
