import EtlTool.Server.Models

/-!
# The log flusher

While the engine runs it appends log events to a buffer.  A second task copies the
buffer to {lit}`run_logs`: it adds what is new to its session, commits, and returns
when it has been told to stop and nothing is new; otherwise it waits for the stop
signal or a timeout.  Events can arrive between any two of these steps, also while
a commit is under way.

Main results:

- Theorem {lit}`Flight.step_spec`: everything that one step can do.
- Theorem {lit}`Flight.Inv.step`: the committed rows are a prefix of the events, with
  consecutive sequence numbers, and all of them once the flusher has returned.
-/

namespace EtlTool

/-- Where the flusher stands. -/
inductive Flusher where
  /-- About to look at the buffer. -/
  | ready
  /-- The rows of a batch, numbered from {lit}`first`, are being committed. -/
  | committing (first : Nat) (batch : List LogEvent)
  /-- The commit has returned. -/
  | committed
  /-- {lit}`wait_for(stop.wait(), timeout)`. -/
  | waiting
  | returned
  | raised (exc : PyException)
deriving DecidableEq

/-- The engine and the flusher side by side: the events that the engine is still to
emit, the buffer, the flusher's counter {lit}`written`, and the stop signal. -/
structure Flight where
  todo : List LogEvent
  buffer : List LogEvent
  written : Nat
  flusher : Flusher
  stop : Bool

/-- Steps of the engine, of the flusher, and of the database on its behalf. -/
inductive FlightAction where
  /-- The engine logs an event. -/
  | emit
  /-- The engine returns or raises, and the stop signal is set. -/
  | engineEnds
  /-- The flusher adds all new events to its session. -/
  | collect
  /-- The session is committed; new rows get the given ids. -/
  | commit (ids : List Nat)
  /-- The flusher returns or starts to wait. -/
  | check
  /-- The wait is over. -/
  | wake
deriving DecidableEq

namespace Flight

/-- The state in which the engine is called. -/
def initial (events : List LogEvent) : Flight where
  todo := events
  buffer := []
  written := 0
  flusher := .ready
  stop := false

/-- What a commit raises when a JSON column cannot be dumped. -/
def statementError : PyException where
  typeName := "StatementError"
  text := some "Object is not JSON serializable"

/-- The rows of a batch. -/
def logRows : List Nat → Nat → List LogEvent → List RunLog
  | id :: ids, seq, event :: events => ⟨id, seq, event⟩ :: logRows ids (seq + 1) events
  | _, _, _ => []

/-- Every event of the batch can be stored. -/
def storable (rt : Runtime) (batch : List LogEvent) : Bool :=
  batch.all fun event => rt.dumpableColumn event.data

/-- One step, with the stored log lines. -/
def step (rt : Runtime) (logs : List RunLog) (f : Flight) :
    FlightAction → Option (List RunLog × Flight)
  | .emit =>
      match f.stop, f.todo with
      | false, event :: rest => some (logs, { f with todo := rest, buffer := f.buffer ++ [event] })
      | _, _ => none
  | .engineEnds =>
      match f.stop, f.todo with
      | false, [] => some (logs, { f with stop := true })
      | _, _ => none
  | .collect =>
      match f.flusher with
      | .ready =>
          some (logs, { f with
            written := f.buffer.length
            flusher := .committing f.written (f.buffer.drop f.written) })
      | _ => none
  | .commit ids =>
      match f.flusher with
      | .committing first batch =>
          if storable rt batch then
            if ids.length = batch.length ∧ IdsIncrease (logs ++ logRows ids first batch) then
              some (logs ++ logRows ids first batch, { f with flusher := .committed })
            else none
          else some (logs, { f with flusher := .raised statementError })
      | _ => none
  | .check =>
      match f.flusher with
      | .committed =>
          some (logs, { f with
            flusher := if f.stop ∧ f.buffer.length ≤ f.written then .returned else .waiting })
      | _ => none
  | .wake =>
      match f.flusher with
      | .waiting => some (logs, { f with flusher := .ready })
      | _ => none

/-! ## What one step can do -/

/-- Everything that one step can do. -/
inductive Step (rt : Runtime) (logs : List RunLog) (f : Flight) : List RunLog → Flight → Prop where
  | emit (event : LogEvent) (rest : List LogEvent) (hstop : f.stop = false)
      (htodo : f.todo = event :: rest) :
      Step rt logs f logs { f with todo := rest, buffer := f.buffer ++ [event] }
  | engineEnds (hstop : f.stop = false) (htodo : f.todo = []) :
      Step rt logs f logs { f with stop := true }
  | collect (hflusher : f.flusher = .ready) :
      Step rt logs f logs { f with
        written := f.buffer.length
        flusher := .committing f.written (f.buffer.drop f.written) }
  | commit (ids : List Nat) (first : Nat) (batch : List LogEvent)
      (hflusher : f.flusher = .committing first batch) (hstorable : storable rt batch = true)
      (hlength : ids.length = batch.length)
      (hids : IdsIncrease (logs ++ logRows ids first batch)) :
      Step rt logs f (logs ++ logRows ids first batch) { f with flusher := .committed }
  | commitFails (first : Nat) (batch : List LogEvent)
      (hflusher : f.flusher = .committing first batch) (hstorable : storable rt batch = false) :
      Step rt logs f logs { f with flusher := .raised statementError }
  | returns (hflusher : f.flusher = .committed) (hstop : f.stop = true)
      (hwritten : f.buffer.length ≤ f.written) :
      Step rt logs f logs { f with flusher := .returned }
  | waits (hflusher : f.flusher = .committed)
      (hmore : ¬ (f.stop = true ∧ f.buffer.length ≤ f.written)) :
      Step rt logs f logs { f with flusher := .waiting }
  | wake (hflusher : f.flusher = .waiting) :
      Step rt logs f logs { f with flusher := .ready }

theorem step_spec {rt : Runtime} {logs logs' : List RunLog} {f f' : Flight} {a : FlightAction}
    (h : f.step rt logs a = some (logs', f')) : Step rt logs f logs' f' := by
  cases a with
  | emit =>
      simp only [step] at h
      split at h
      · rename_i event rest hstop htodo
        cases h
        exact .emit event rest hstop htodo
      · cases h
  | engineEnds =>
      simp only [step] at h
      split at h
      · rename_i hstop htodo
        cases h
        exact .engineEnds hstop htodo
      · cases h
  | collect =>
      simp only [step] at h
      split at h
      · rename_i hflusher
        cases h
        exact .collect hflusher
      · cases h
  | commit ids =>
      simp only [step] at h
      split at h
      · rename_i first batch hflusher
        by_cases hstorable : storable rt batch = true
        · rw [if_pos hstorable] at h
          split at h
          · rename_i hids
            cases h
            exact .commit ids first batch hflusher hstorable hids.1 hids.2
          · cases h
        · rw [if_neg hstorable] at h
          cases h
          exact .commitFails first batch hflusher (by simpa using hstorable)
      · cases h
  | check =>
      simp only [step] at h
      split at h
      · rename_i hflusher
        cases h
        by_cases hdone : f.stop = true ∧ f.buffer.length ≤ f.written
        · rw [if_pos hdone]
          exact .returns hflusher hdone.1 hdone.2
        · rw [if_neg hdone]
          exact .waits hflusher hdone
      · cases h
  | wake =>
      simp only [step] at h
      split at h
      · rename_i hflusher
        cases h
        exact .wake hflusher
      · cases h

/-! ## What is stored -/

/-- Rows hold events in order, numbered from zero. -/
structure Records (rows : List RunLog) (events : List LogEvent) : Prop where
  events_eq : rows.map RunLog.event = events
  seqs : rows.map RunLog.seq = List.range rows.length

variable {rows : List RunLog} {events : List LogEvent}

theorem Records.length (h : Records rows events) : rows.length = events.length := by
  rw [← h.events_eq, List.length_map]

private theorem map_logRows {ids : List Nat} {batch : List LogEvent} (h : ids.length = batch.length)
    (first : Nat) :
    (logRows ids first batch).map RunLog.event = batch ∧
      (logRows ids first batch).map RunLog.seq = List.range' first batch.length := by
  induction batch generalizing ids first with
  | nil => cases ids <;> simp [logRows]
  | cons event rest ih =>
      cases ids with
      | nil => simp at h
      | cons id ids =>
          rcases ih (by simpa using h) (first + 1) with ⟨hevents, hseqs⟩
          simp [logRows, hevents, hseqs, List.range'_succ]

/-- A batch that is numbered from the number of rows continues them. -/
theorem Records.append (h : Records rows events) {ids : List Nat} {batch : List LogEvent}
    (hlength : ids.length = batch.length) :
    Records (rows ++ logRows ids events.length batch) (events ++ batch) := by
  rcases map_logRows hlength events.length with ⟨hevents, hseqs⟩
  have hrows : (logRows ids events.length batch).length = batch.length := by
    rw [← List.length_map RunLog.event, hevents]
  constructor
  · rw [List.map_append, h.events_eq, hevents]
  · rw [List.map_append, h.seqs, hseqs, List.length_append, h.length, hrows, List.range_eq_range',
      List.range_eq_range']
    simpa using List.range'_append_1 (s := 0) (m := events.length) (n := batch.length)

/-- What the flusher's position says about the number of events that are stored. -/
def Stores (rt : Runtime) (f : Flight) (k : Nat) : Prop :=
  match f.flusher with
  | .committing first batch => k = first ∧ f.buffer.take f.written = f.buffer.take first ++ batch
  | .returned => k = f.written ∧ f.stop = true ∧ f.buffer.length ≤ f.written
  | .raised _ => ∃ event ∈ f.buffer, rt.dumpableColumn event.data = false
  | _ => k = f.written

/-- The engine's events pass through the buffer, and the stored rows are its first
ones, behind the rows that were there before. -/
structure Inv (rt : Runtime) (events : List LogEvent) (base logs : List RunLog) (f : Flight) :
    Prop where
  emitted : f.buffer ++ f.todo = events
  stopped : f.stop = true → f.todo = []
  written_le : f.written ≤ f.buffer.length
  stored : ∃ k rows, k ≤ f.buffer.length ∧ logs = base ++ rows ∧
    Records rows (f.buffer.take k) ∧ storable rt (f.buffer.take k) = true ∧ f.Stores rt k

theorem Inv.initial (rt : Runtime) (events : List LogEvent) (base : List RunLog) :
    Inv rt events base base (initial events) where
  emitted := rfl
  stopped := by simp [Flight.initial]
  written_le := Nat.le_refl 0
  stored := ⟨0, [], Nat.le_refl 0, by simp, ⟨rfl, rfl⟩, rfl, rfl⟩

/-- What is stored does not depend on events that arrive later. -/
theorem Stores.emit {rt : Runtime} {f : Flight} {k : Nat} (h : f.Stores rt k)
    (hk : k ≤ f.buffer.length) (hwritten : f.written ≤ f.buffer.length) (hstop : f.stop = false)
    (event : LogEvent) (rest : List LogEvent) :
    Stores rt { f with todo := rest, buffer := f.buffer ++ [event] } k := by
  unfold Stores at h ⊢
  cases hflusher : f.flusher with
  | ready => simpa [hflusher] using h
  | committed => simpa [hflusher] using h
  | waiting => simpa [hflusher] using h
  | returned => simp [hflusher, hstop] at h
  | committing first batch =>
      simp only [hflusher] at h ⊢
      rcases h with ⟨rfl, hbatch⟩
      rw [List.take_append_of_le_length hwritten, List.take_append_of_le_length hk]
      exact ⟨rfl, hbatch⟩
  | raised exc =>
      simp only [hflusher] at h ⊢
      rcases h with ⟨bad, hmem, hbad⟩
      exact ⟨bad, List.mem_append_left _ hmem, hbad⟩

/-- Every step keeps the invariant. -/
theorem Inv.step {rt : Runtime} {events : List LogEvent} {base logs logs' : List RunLog}
    {f f' : Flight} (h : Inv rt events base logs f) (hstep : Step rt logs f logs' f') :
    Inv rt events base logs' f' := by
  rcases h.stored with ⟨k, rows, hk, hlogs, hrecords, hstorable, hstores⟩
  cases hstep with
  | emit event rest hstop htodo =>
      refine ⟨?_, ?_, ?_, k, rows, ?_, hlogs, ?_, ?_, hstores.emit hk h.written_le hstop event rest⟩
      · rw [← h.emitted, htodo]
        simp
      · intro hstopped
        rw [hstop] at hstopped
        cases hstopped
      · have hle := h.written_le
        simp
        omega
      · simp
        omega
      · rwa [List.take_append_of_le_length hk]
      · rwa [List.take_append_of_le_length hk]
  | engineEnds hstop htodo =>
      refine ⟨h.emitted, fun _ => htodo, h.written_le, k, rows, hk, hlogs, hrecords, hstorable, ?_⟩
      unfold Stores at hstores ⊢
      cases hflusher : f.flusher with
      | returned => simp [hflusher, hstop] at hstores
      | _ => simpa [hflusher] using hstores
  | collect hflusher =>
      have hwritten : k = f.written := by simpa [Stores, hflusher] using hstores
      refine ⟨h.emitted, h.stopped, Nat.le_refl _, k, rows, hk, hlogs, hrecords, hstorable, ?_⟩
      simp [Stores, hwritten]
  | commit ids first batch hflusher hbatch hlength hids =>
      simp only [Stores, hflusher] at hstores
      rcases hstores with ⟨rfl, htake⟩
      have hfirst : (f.buffer.take k).length = k := by
        rw [List.length_take]
        omega
      refine ⟨h.emitted, h.stopped, h.written_le, f.written, rows ++ logRows ids k batch,
        h.written_le, ?_, ?_, ?_, rfl⟩
      · rw [hlogs, List.append_assoc]
      · have happend := hrecords.append hlength
        rw [hfirst] at happend
        simpa only [htake] using happend
      · simp only [htake]
        rw [storable, List.all_append, Bool.and_eq_true]
        exact ⟨hstorable, hbatch⟩
  | commitFails first batch hflusher hbad =>
      simp only [Stores, hflusher] at hstores
      rcases hstores with ⟨rfl, htake⟩
      refine ⟨h.emitted, h.stopped, h.written_le, k, rows, hk, hlogs, hrecords, hstorable, ?_⟩
      rw [storable, List.all_eq_false] at hbad
      rcases hbad with ⟨event, hmem, hevent⟩
      have htaken : event ∈ f.buffer.take f.written := by
        rw [htake]
        exact List.mem_append_right _ hmem
      exact ⟨event, List.mem_of_mem_take htaken, by simpa using hevent⟩
  | returns hflusher hstop hwritten =>
      have heq : k = f.written := by simpa [Stores, hflusher] using hstores
      exact ⟨h.emitted, h.stopped, h.written_le, k, rows, hk, hlogs, hrecords, hstorable,
        heq, hstop, hwritten⟩
  | waits hflusher hmore =>
      have heq : k = f.written := by simpa [Stores, hflusher] using hstores
      exact ⟨h.emitted, h.stopped, h.written_le, k, rows, hk, hlogs, hrecords, hstorable, heq⟩
  | wake hflusher =>
      have heq : k = f.written := by simpa [Stores, hflusher] using hstores
      exact ⟨h.emitted, h.stopped, h.written_le, k, rows, hk, hlogs, hrecords, hstorable, heq⟩

/-- Once the flusher has returned, all events are stored. -/
theorem Inv.all_stored {rt : Runtime} {events : List LogEvent} {base logs : List RunLog}
    {f : Flight} (h : Inv rt events base logs f) (hreturned : f.flusher = .returned) :
    f.buffer = events ∧ ∃ rows, logs = base ++ rows ∧ Records rows events ∧
      storable rt events = true := by
  rcases h.stored with ⟨k, rows, hk, hlogs, hrecords, hstorable, hstores⟩
  simp only [Stores, hreturned] at hstores
  rcases hstores with ⟨rfl, hstop, hwritten⟩
  have hall : f.buffer = events := by
    rw [← h.emitted, h.stopped hstop, List.append_nil]
  rw [List.take_of_length_le hwritten, hall] at hrecords hstorable
  exact ⟨hall, rows, hlogs, hrecords, hstorable⟩

/-- The flusher raises only if some event cannot be stored. -/
theorem Inv.not_storable {rt : Runtime} {events : List LogEvent} {base logs : List RunLog}
    {f : Flight} (h : Inv rt events base logs f) {exc : PyException}
    (hraised : f.flusher = .raised exc) : storable rt events = false := by
  rcases h.stored with ⟨k, rows, hk, hlogs, hrecords, hstorable, hstores⟩
  simp only [Stores, hraised] at hstores
  rcases hstores with ⟨event, hmem, hbad⟩
  rw [storable, List.all_eq_false]
  refine ⟨event, ?_, by simp [hbad]⟩
  rw [← h.emitted]
  exact List.mem_append_left _ hmem

end Flight

end EtlTool
