import EtlTool.Server.LiveLogs

/-!
# What a stream replays

A stream of events follows one run from its first log row.  The states of the run are
listed from the current one back, and all that is known of them is that rows are added:
then the stream has sent the first of the stored rows, and states that the run has had.

Main results:

- Theorem {lit}`Follows.step`: every step of the stream keeps it behind its run.
- Theorem {lit}`Follows.grow`: so does a new state of the run with more rows.
- Theorem {lit}`Follows.received_rows`: the rows received are stored rows, each once.
-/

namespace EtlTool

namespace Client

/-- What a stream of a run sends: the first stored rows, and states that the run has had. -/
structure Follows (dbs : List Database) (c : Client) : Prop where
  rows : ∃ db, dbs.head? = some db ∧ c.lastLogId = lastRowId (logRows c.frames) ∧
    logRows c.frames <+: db.logs ∧
    ∀ status rows, c.phase = .sawLogs status rows → logRows c.frames ++ rows <+: db.logs
  statuses : ∀ status, .status status ∈ c.frames → ∃ db ∈ dbs, db.status = some status
  read : ∀ status, (c.phase = .sawRun status ∨ ∃ rows, c.phase = .sawLogs status rows) →
    ∃ db ∈ dbs, db.status = some status

theorem Follows.initial {dbs : List Database} (h : dbs ≠ []) : Follows dbs Client.initial := by
  cases dbs with
  | nil => exact absurd rfl h
  | cons db rest =>
      constructor
      case rows => exact ⟨db, rfl, rfl, List.nil_prefix, nofun⟩
      case statuses => exact nofun
      case read =>
        intro status hphase
        rcases hphase with hphase | ⟨rows, hphase⟩
        · cases hphase
        · cases hphase

/-- The stream stays behind a run that gets more rows. -/
theorem Follows.grow {dbs : List Database} {c : Client} (h : Follows dbs c) {before db : Database}
    (hbefore : dbs.head? = some before) (hgrown : before.logs <+: db.logs) :
    Follows (db :: dbs) c := by
  rcases h.rows with ⟨db', hhead, hcursor, hsent, hread⟩
  cases hbefore.symm.trans hhead
  constructor
  case rows =>
    exact ⟨db, rfl, hcursor, hsent.trans hgrown,
      fun status rows hphase => (hread status rows hphase).trans hgrown⟩
  case statuses =>
    intro status hmem
    rcases h.statuses status hmem with ⟨found, hfound, hstatus⟩
    exact ⟨found, List.mem_cons_of_mem db hfound, hstatus⟩
  case read =>
    intro status hphase
    rcases h.read status hphase with ⟨found, hfound, hstatus⟩
    exact ⟨found, List.mem_cons_of_mem db hfound, hstatus⟩

/-- Behind the cursor of the stream are the rows that it has not sent. -/
theorem append_rowsBehind {db : Database} {c : Client} (hids : IdsIncrease db.logs)
    (hcursor : c.lastLogId = lastRowId (logRows c.frames)) (hsent : logRows c.frames <+: db.logs) :
    logRows c.frames ++ rowsBehind db.logs c.lastLogId = db.logs := by
  rcases hsent with ⟨rest, hrest⟩
  rw [← hrest] at hids
  rw [hcursor, ← hrest, rowsBehind_lastRowId hids]

/-- A step that sends nothing new. -/
theorem Follows.congr {dbs : List Database} {c c' : Client} (h : Follows dbs c)
    (hframes : c'.frames = c.frames) (hcursor : c'.lastLogId = c.lastLogId)
    (hrows : ∀ db, dbs.head? = some db → ∀ status rows, c'.phase = .sawLogs status rows →
      logRows c.frames ++ rows <+: db.logs)
    (hread : ∀ status, (c'.phase = .sawRun status ∨ ∃ rows, c'.phase = .sawLogs status rows) →
      ∃ db ∈ dbs, db.status = some status) : Follows dbs c' := by
  rcases h.rows with ⟨db, hhead, hlast, hsent, -⟩
  constructor
  case rows =>
    refine ⟨db, hhead, ?_, ?_, ?_⟩
    · rw [hcursor, hframes, hlast]
    · rw [hframes]
      exact hsent
    · rw [hframes]
      exact hrows db hhead
  case statuses =>
    rw [hframes]
    exact h.statuses
  case read => exact hread

/-- A step that sends nothing new and after which nothing is about to be sent. -/
theorem Follows.quiet {dbs : List Database} {c c' : Client} (h : Follows dbs c)
    (hframes : c'.frames = c.frames) (hcursor : c'.lastLogId = c.lastLogId)
    (hrun : ∀ status, c'.phase ≠ .sawRun status)
    (hlogs : ∀ status rows, c'.phase ≠ .sawLogs status rows) : Follows dbs c' := by
  apply h.congr hframes hcursor
  · intro db _ status rows hphase
    exact absurd hphase (hlogs status rows)
  · intro status hphase
    rcases hphase with hphase | ⟨rows, hphase⟩
    · exact absurd hphase (hrun status)
    · exact absurd hphase (hlogs status rows)

/-- A poll sends rows behind the cursor and a state that it has read. -/
theorem Follows.respond {dbs : List Database} {c : Client} (h : Follows dbs c)
    (hpending : pending c.phase = []) {rows : List RunLog} {status : RunState}
    (hrows : ∀ db, dbs.head? = some db → logRows c.frames ++ rows <+: db.logs)
    (hstatus : ∃ db ∈ dbs, db.status = some status) (errors : Option (List NodeError)) :
    Follows dbs (c.respond status rows errors) := by
  rcases h.rows with ⟨db, hhead, hlast, -, -⟩
  have hframes : c.frames = c.received := by simp [frames, hpending]
  have hsent : logRows (c.respond status rows errors).frames = logRows c.frames ++ rows := by
    rw [logRows_respond, hframes]
  constructor
  case rows =>
    refine ⟨db, hhead, ?_, ?_, fun _ _ hphase => by cases hphase⟩
    · rw [hsent, lastRowId_append, ← hlast]
      rfl
    · rw [hsent]
      exact hrows db hhead
  case statuses =>
    intro status' hmem
    rw [frames_respond, List.mem_append, List.mem_append, List.mem_append, ← hframes] at hmem
    rcases hmem with hold | (hrow | hnew) | hfinal
    · exact h.statuses status' hold
    · simp at hrow
    · split at hnew
      · cases hnew
      · rw [List.mem_singleton, Frame.status.injEq] at hnew
        rw [hnew]
        exact hstatus
    · unfold finalFrames at hfinal
      split at hfinal
      · simp at hfinal
      · split at hfinal
        · simp at hfinal
        · cases hfinal
  case read =>
    intro status' hphase
    rcases hphase with hphase | ⟨rows', hphase⟩
    · cases hphase
    · cases hphase

/-- Every step of the stream keeps it behind its run. -/
theorem Follows.step {dbs : List Database} {db : Database} {c c' : Client} (h : Follows dbs c)
    (hdb : dbs.head? = some db) (hids : IdsIncrease db.logs) (hstep : Step db c c') :
    Follows dbs c' := by
  have hmem : db ∈ dbs := List.mem_of_head? hdb
  rcases h.rows with ⟨db', hhead, hcursor, hsent, hsaw⟩
  cases hdb.symm.trans hhead
  have hbehind : ∀ db', dbs.head? = some db' →
      logRows c.frames ++ Client.rowsBehind db.logs c.lastLogId <+: db'.logs := by
    intro db' hdb'
    cases hdb.symm.trans hdb'
    rw [append_rowsBehind hids hcursor hsent]
  have hquiet : ∀ {phase}, pending phase = pending c.phase →
      Client.frames { c with phase := phase } = c.frames := by
    intro phase hsame
    simp only [frames, hsame]
  cases hstep with
  | close hphase => exact h.quiet (hquiet (by simp [hphase, pending])) rfl (by simp) (by simp)
  | readRun status hphase hstatus =>
      refine h.congr (hquiet (by simp [hphase, pending])) rfl (by simp) ?_
      intro status' hread
      rcases hread with hread | ⟨rows, hread⟩
      · cases hread
        exact ⟨db, hmem, hstatus⟩
      · cases hread
  | readFinalLogs status hphase hterminal =>
      refine h.congr (hquiet (by simp [hphase, pending])) rfl ?_ ?_
      · intro db' hdb' status' rows hrows
        cases hrows
        exact hbehind db' hdb'
      · intro status' hread
        rcases hread with hread | ⟨rows, hread⟩
        · cases hread
        · cases hread
          exact h.read status (Or.inl hphase)
  | readLogs status hphase hterminal =>
      exact h.respond (by simp [hphase, pending]) hbehind (h.read status (Or.inl hphase)) none
  | readErrors status rows hphase =>
      refine h.respond (by simp [hphase, pending]) ?_ (h.read status (Or.inr ⟨rows, hphase⟩)) _
      intro db' hdb'
      cases hdb.symm.trans hdb'
      exact hsaw status rows hphase
  | send frame rest closing hphase =>
      exact h.quiet (by simp [frames, hphase, pending]) rfl (by simp) (by simp)
  | finish hphase => exact h.quiet (hquiet (by simp [hphase, pending])) rfl (by simp) (by simp)
  | sleep hphase => exact h.quiet (hquiet (by simp [hphase, pending])) rfl (by simp) (by simp)

/-- What has been received stays received. -/
theorem Step.received {db : Database} {c c' : Client} (h : Step db c c') :
    c.received <+: c'.received := by
  cases h with
  | send frame rest closing _ => exact List.prefix_append _ _
  | _ => exact List.prefix_rfl

/-- The rows that have been received are stored rows, each once. -/
theorem Follows.received_rows {dbs : List Database} {c : Client} (h : Follows dbs c)
    (hids : ∀ db ∈ dbs, IdsIncrease db.logs) (n : Nat) :
    (∃ db ∈ dbs, ∀ row ∈ logRows (c.received.take n), row ∈ db.logs) ∧
      ((logRows (c.received.take n)).map RunLog.id).Nodup := by
  rcases h.rows with ⟨db, hhead, -, hsent, -⟩
  have hmem : db ∈ dbs := List.mem_of_head? hhead
  have htaken : logRows (c.received.take n) <+: db.logs := by
    refine List.IsPrefix.trans ?_ hsent
    have hframes : c.received.take n <+: c.frames :=
      (List.take_prefix n c.received).trans (List.prefix_append _ _)
    exact hframes.filterMap _
  refine ⟨⟨db, hmem, fun row hrow => htaken.subset hrow⟩, ?_⟩
  have hnodup : (db.logs.map RunLog.id).Nodup :=
    (List.pairwise_cons.mp (hids db hmem)).2.imp fun hlt => Nat.ne_of_lt hlt
  exact hnodup.sublist (htaken.sublist.map _)

end Client

end EtlTool
