import EtlTool.Foundations.Interleaving
import EtlTool.Server.Worker

/-!
# How a claimed run ends

After the claim a call parses the document, constructs the cipher, resolves the
secrets, runs the engine beside the flusher, and stores the result.  Each of these
steps can raise, and only a missing secret is handled.  So a claimed run is left
running exactly if some other step raises.

Main results:

- Theorem {lit}`finish_isOk_iff`: when the result can be stored.
- Theorem {lit}`Settling.step`: what each phase of a call on its own knows.
- Theorem {lit}`claimed_run_settles_iff`: when the call ends, the run has a final
  status if and only if the steps after the claim succeed or a secret is missing.
- Theorem {lit}`claimed_run_left_running`: a date in a record leaves the run running.
-/

namespace EtlTool

/-! ## Results that can be stored -/

/-- Everything that the final commit writes can be dumped: error details, node
results, and the records that are not trimmed. -/
structure Deployment.ResultStorable (d : Deployment) (result : RunResult) : Prop where
  errors : ∀ error ∈ result.errors, d.runtime.dumpableColumn error.details = true
  nodes : ∀ entry ∈ result.nodeResults.entries, ∃ fields,
    d.modelDump entry.2 = .ok fields ∧ d.runtime.dumpable (.dict fields) = true
  outputs : ∀ entry ∈ result.outputs.entries, ∀ record ∈ entry.2.take outputRecordCap,
    d.runtime.dumpable (.dict record) = true

/-- Dumping the values of pairs gives dumpable fields exactly if it does so for each
value. -/
theorem dumpPairs_dumpable_iff {α : Type} (rt : Runtime) (dump : α → Except PyException Value)
    (pairs : List (String × α)) :
    (∃ fields, dumpPairs dump pairs = .ok fields ∧ rt.dumpableFields fields = true) ↔
      ∀ pair ∈ pairs, ∃ value, dump pair.2 = .ok value ∧ rt.dumpable value = true := by
  induction pairs with
  | nil => simp [dumpPairs, Runtime.dumpableFields]
  | cons pair rest ih =>
      rw [List.forall_mem_cons, ← ih]
      cases hvalue : dump pair.2 with
      | error exc => simp [dumpPairs, hvalue]
      | ok value =>
          cases hrest : dumpPairs dump rest with
          | error exc => simp [dumpPairs, hvalue, hrest]
          | ok fields => simp [dumpPairs, hvalue, hrest, Runtime.dumpableFields]

/-- The trimmed result can be dumped exactly if its node results and its records can. -/
theorem trimmedResult_dumpable_iff (d : Deployment) (result : RunResult) :
    (∃ json, trimmedResult d result = .ok json ∧ d.runtime.dumpable json = true) ↔
      (∀ entry ∈ result.nodeResults.entries, ∃ fields,
        d.modelDump entry.2 = .ok fields ∧ d.runtime.dumpable (.dict fields) = true) ∧
      ∀ entry ∈ result.outputs.entries, ∀ record ∈ entry.2.take outputRecordCap,
        d.runtime.dumpable (.dict record) = true := by
  have hnodes : (∃ fields, dumpPairs (fun nr => (d.modelDump nr).map Value.dict)
      result.nodeResults.entries = .ok fields ∧ d.runtime.dumpableFields fields = true) ↔
      ∀ entry ∈ result.nodeResults.entries, ∃ fields,
        d.modelDump entry.2 = .ok fields ∧ d.runtime.dumpable (.dict fields) = true := by
    rw [dumpPairs_dumpable_iff]
    refine forall₂_congr fun entry _ => ?_
    cases d.modelDump entry.2 with
    | error exc => simp [Except.map]
    | ok fields => simp [Except.map]
  have houtputs : d.runtime.dumpableFields (result.outputs.entries.map fun entry =>
      (entry.1, .list ((entry.2.take outputRecordCap).map Value.dict))) = true ↔
      ∀ entry ∈ result.outputs.entries, ∀ record ∈ entry.2.take outputRecordCap,
        d.runtime.dumpable (.dict record) = true := by
    rw [dumpableFields_iff, List.forall_mem_map]
    refine forall₂_congr fun entry _ => ?_
    rw [Runtime.dumpable, dumpableItems_iff, List.forall_mem_map]
  rw [← hnodes, ← houtputs]
  unfold trimmedResult
  cases dumpPairs (fun nr => (d.modelDump nr).map Value.dict) result.nodeResults.entries with
  | error exc => simp
  | ok fields => simp [Runtime.dumpable, Runtime.dumpableFields]

namespace Worker

/-- The final commit succeeds exactly if the result can be stored. -/
theorem finish_isOk_iff (d : Deployment) {db : Database} {stored : Run}
    (hrun : db.run = some stored) (loaded : Run) (result : RunResult) :
    (∃ db', finish d db loaded result = .ok db') ↔ d.ResultStorable result := by
  have hcommit : ∀ assigned errors, ∃ db', commit db loaded assigned errors = .ok db' := by
    intro assigned errors
    exact ⟨_, commit_eq_ok.mpr ⟨stored, hrun, rfl⟩⟩
  constructor
  · rintro ⟨db', hfinish⟩
    rcases finish_eq_ok.mp hfinish with ⟨json, hjson, herrors, hdump, _⟩
    rcases (trimmedResult_dumpable_iff d result).mp ⟨json, hjson, hdump⟩ with ⟨hnodes, houtputs⟩
    exact ⟨by simpa using herrors, hnodes, houtputs⟩
  · intro h
    rcases (trimmedResult_dumpable_iff d result).mpr ⟨h.nodes, h.outputs⟩ with
      ⟨json, hjson, hdump⟩
    rcases hcommit _ _ with ⟨db', hdb'⟩
    exact ⟨db', finish_eq_ok.mpr ⟨json, hjson, by simpa using h.errors, hdump, hdb'⟩⟩

end Worker

/-! ## What the phases know -/

/-- The steps between the claim and the end succeed, or a secret is missing. -/
def Deployment.Settles (d : Deployment) (ownerId : String) (fields : Fields) : Prop :=
  ∃ document cipher, d.modelValidate fields = .ok document ∧ d.secretsCipher = .ok cipher ∧
    ((∃ ref, resolveSecrets document (dbSecret cipher (d.secretRows ownerId)) =
        .error (.notFound ref)) ∨
      ∃ secrets options result,
        resolveSecrets document (dbSecret cipher (d.secretRows ownerId)) = .ok secrets ∧
        d.executionOptions = .ok options ∧
        Flight.storable d.runtime (d.executePipeline document secrets options).1 = true ∧
        (d.executePipeline document secrets options).2 = .ok result ∧ d.ResultStorable result)

/-- The engine is called with what the steps before it have computed. -/
structure Launched (d : Deployment) (ownerId : String) (fields : Fields)
    (events : List LogEvent) (outcome : Except PyException RunResult) : Prop where
  settles_iff : d.Settles ownerId fields ↔ Flight.storable d.runtime events = true ∧
    ∃ result, outcome = .ok result ∧ d.ResultStorable result

/-- The run is marked running. -/
def Database.Running (db : Database) : Prop :=
  ∃ run, db.run = some run ∧ run.status = .running

/-- What a call on its own knows in each phase. -/
def Settling (d : Deployment) (ownerId : String) (fields : Fields) (db : Database) :
    Phase → Prop
  | .start => ∃ run, db.run = some run ∧ run.status = .queued ∧ run.ownerId = ownerId ∧
      db.pipelineSpec = some fields
  | .sawRun loaded => db.run = some loaded ∧ loaded.status = .queued ∧ loaded.ownerId = ownerId ∧
      db.pipelineSpec = some fields
  | .sawPipeline loaded spec => db.run = some loaded ∧ loaded.status = .queued ∧
      loaded.ownerId = ownerId ∧ spec = some fields
  | .claimed owner spec => db.Running ∧ owner = ownerId ∧ spec = fields
  | .prepared document provider => db.Running ∧ d.prepare ownerId fields = .ok (document, provider)
  | .missing _ => db.Running ∧ d.Settles ownerId fields
  | .failing loaded _ => db.Running ∧ d.Settles ownerId fields ∧ loaded.status = .running
  | .flying outcome flight => db.Running ∧ ∃ events base,
      Launched d ownerId fields events outcome ∧
      Flight.Inv d.runtime events base db.logs flight
  | .landed result => db.Running ∧ (d.Settles ownerId fields ↔ d.ResultStorable result)
  | .finishing loaded result => db.Running ∧ (d.Settles ownerId fields ↔ d.ResultStorable result) ∧
      loaded.status = .running
  | .returned => d.Settles ownerId fields ∧
      ∃ status, db.status = some status ∧ status.terminal = true
  | .raised _ => ¬ d.Settles ownerId fields ∧ db.Running

theorem Database.Running.status {db : Database} (h : db.Running) :
    db.status = some .running := by
  rcases h with ⟨run, hrun, hstatus⟩
  simp [Database.status, hrun, hstatus]

theorem Database.Running.stored {db : Database} (h : db.Running) : db.run ≠ none := by
  rcases h with ⟨run, hrun, _⟩
  simp [hrun]

namespace Deployment

variable {d : Deployment} {ownerId : String} {fields : Fields}

/-- A document that cannot be prepared does not settle. -/
theorem not_settles_of_prepare {exc : PyException} (h : d.prepare ownerId fields = .error exc) :
    ¬ d.Settles ownerId fields := by
  rintro ⟨document, cipher, hdocument, hcipher, _⟩
  simp [prepare, hdocument, hcipher] at h

/-- After the preparation the rest decides. -/
theorem settles_iff_of_prepare {document : PipelineSpec} {provider : SecretsProvider}
    (h : d.prepare ownerId fields = .ok (document, provider)) :
    d.Settles ownerId fields ↔
      (∃ ref, resolveSecrets document provider = .error (.notFound ref)) ∨
      ∃ secrets options result, resolveSecrets document provider = .ok secrets ∧
        d.executionOptions = .ok options ∧
        Flight.storable d.runtime (d.executePipeline document secrets options).1 = true ∧
        (d.executePipeline document secrets options).2 = .ok result ∧ d.ResultStorable result := by
  unfold prepare at h
  cases hdocument : d.modelValidate fields with
  | error exc => simp [hdocument] at h
  | ok document' =>
      cases hcipher : d.secretsCipher with
      | error exc => simp [hdocument, hcipher] at h
      | ok cipher =>
          simp only [hdocument, hcipher, Except.ok.injEq, Prod.mk.injEq] at h
          rcases h with ⟨rfl, rfl⟩
          simp [Settles, hdocument, hcipher]

end Deployment

/-! ## One call on its own -/

namespace Worker

variable {d : Deployment} {ownerId : String} {fields : Fields} {db db' : Database}
  {p p' : Phase}

/-- A commit of a session that has changed the status writes it. -/
theorem running_of_commit {loaded assigned : Run} {errors : List NodeError}
    (h : commit db loaded assigned errors = .ok db') (hchanged : assigned.status ≠ loaded.status)
    (hrunning : assigned.status = .running) : db'.Running := by
  rcases commit_eq_ok.mp h with ⟨stored, _, rfl⟩
  refine ⟨_, rfl, ?_⟩
  simp only [writeRun]
  rw [ormWrite_of_changed hchanged, hrunning]

/-- The secrets are resolved, and the engine is started with them. -/
theorem Settling.resolve {document : PipelineSpec} {provider : SecretsProvider}
    (hrunning : db.Running) (hprepare : d.prepare ownerId fields = .ok (document, provider)) :
    Settling d ownerId fields db (resolve d document provider) := by
  have hiff := Deployment.settles_iff_of_prepare hprepare
  rcases resolve_cases d document provider with ⟨ref, hsecrets, heq⟩ | ⟨exc, hsecrets, heq⟩ |
    ⟨secrets, hsecrets, ⟨exc, hoptions, heq⟩ | ⟨options, hoptions, heq⟩⟩
  · rw [heq]
    exact ⟨hrunning, hiff.mpr (Or.inl ⟨ref, hsecrets⟩)⟩
  · rw [heq]
    refine ⟨fun hsettles => ?_, hrunning⟩
    simp [hsecrets] at hiff
    exact hiff hsettles
  · rw [heq]
    refine ⟨fun hsettles => ?_, hrunning⟩
    simp [hsecrets, hoptions] at hiff
    exact hiff hsettles
  · rw [heq]
    refine ⟨hrunning, _, db.logs, ⟨?_⟩, Flight.Inv.initial d.runtime _ db.logs⟩
    rw [hiff]
    simp [hsecrets, hoptions]

/-- The engine has returned or raised, and its log lines are stored or cannot be. -/
theorem Settling.land {outcome : Except PyException RunResult} {flight : Flight}
    (h : Settling d ownerId fields db (.flying outcome flight))
    (hland : land outcome flight = some p') : Settling d ownerId fields db p' := by
  rcases h with ⟨hrunning, events, base, hlaunched, hinv⟩
  rcases land_cases hland with ⟨_, ⟨hreturned, result, rfl, rfl⟩ |
    ⟨hreturned, exc, rfl, rfl⟩ | ⟨exc, hraised, rfl⟩⟩
  · rcases (hinv.all_stored hreturned).2 with ⟨_, _, _, hstorable⟩
    refine ⟨hrunning, ?_⟩
    rw [hlaunched.settles_iff]
    simp [hstorable]
  · refine ⟨fun hsettles => ?_, hrunning⟩
    rcases (hlaunched.settles_iff.mp hsettles).2 with ⟨_, hok, _⟩
    cases hok
  · refine ⟨fun hsettles => ?_, hrunning⟩
    have hstorable := (hlaunched.settles_iff.mp hsettles).1
    rw [hinv.not_storable hraised] at hstorable
    cases hstorable

/-- Every step of a call on its own keeps what its phases know. -/
theorem Settling.step (h : Settling d ownerId fields db p) (hstep : Step d db p db' p') :
    Settling d ownerId fields db' p' := by
  cases hstep with
  | ignored hnot =>
      rcases h with ⟨run, hrun, hqueued, _⟩
      exact absurd hqueued (hnot run hrun)
  | found run hrun hqueued =>
      rcases h with ⟨run', hrun', _, howner, hspec⟩
      rw [hrun] at hrun'
      cases hrun'
      exact ⟨hrun, hqueued, howner, hspec⟩
  | looked loaded => exact ⟨h.1, h.2.1, h.2.2.1, h.2.2.2⟩
  | rejected loaded _ _ => cases h.2.2.2
  | claimed loaded spec _ hcommit =>
      rcases h with ⟨_, hqueued, howner, hspec⟩
      cases hspec
      exact ⟨running_of_commit hcommit (by simp [hqueued]) rfl, howner, rfl⟩
  | unclaimed loaded spec exc hrun =>
      have hfound := h.1
      rw [hrun] at hfound
      cases hfound
  | unprepared owner spec exc hprepare =>
      rcases h with ⟨hrunning, rfl, rfl⟩
      exact ⟨Deployment.not_settles_of_prepare hprepare, hrunning⟩
  | prepared owner spec document provider hprepare =>
      rcases h with ⟨hrunning, rfl, rfl⟩
      exact ⟨hrunning, hprepare⟩
  | resolved document provider => exact Settling.resolve h.1 h.2
  | failingGone ref hrun => exact absurd hrun h.1.stored
  | failingFound ref run hrun =>
      rcases h.1 with ⟨run', hfound, hrunning⟩
      rw [hrun] at hfound
      cases hfound
      exact ⟨h.1, h.2, hrunning⟩
  | failed loaded ref _ hcommit =>
      rcases commit_status hcommit (by simp [h.2.2]) with ⟨_, _, hafter⟩
      exact ⟨h.2.1, _, hafter, rfl⟩
  | unfailed loaded ref exc hrun => exact absurd hrun h.1.stored
  | flew outcome flight flight' logs hflight =>
      rcases h with ⟨hrunning, events, base, hlaunched, hinv⟩
      exact ⟨hrunning, events, base, hlaunched, hinv.step hflight⟩
  | landed outcome flight _ hland => exact Settling.land h hland
  | finishingGone result hrun => exact absurd hrun h.1.stored
  | finishingFound result run hrun =>
      rcases h.1 with ⟨run', hfound, hrunning⟩
      rw [hrun] at hfound
      cases hfound
      exact ⟨h.1, h.2, hrunning⟩
  | finished loaded result _ hfinish =>
      rcases h with ⟨⟨stored, hrun, _⟩, hiff, hloaded⟩
      have hstorable := (finish_isOk_iff d hrun loaded result).mp ⟨_, hfinish⟩
      rcases finish_eq_ok.mp hfinish with ⟨json, _, _, _, hcommit⟩
      have hchanged : result.status.state ≠ loaded.status := by
        rw [hloaded]
        cases result.status <;> simp [RunStatus.state]
      rcases commit_status hcommit hchanged with ⟨_, _, hafter⟩
      exact ⟨hiff.mpr hstorable, _, hafter, state_terminal result.status⟩
  | unfinished loaded result exc hfinish =>
      rcases h with ⟨⟨stored, hrun, hrunning⟩, hiff, _⟩
      refine ⟨fun hsettles => ?_, stored, hrun, hrunning⟩
      rcases (finish_isOk_iff d hrun loaded result).mpr (hiff.mp hsettles) with ⟨_, hok⟩
      rw [hfinish] at hok
      cases hok

end Worker

/-- One call of {lit}`execute_run` without other writers. -/
def soloNext (d : Deployment) (s : Database × Phase) (a : WorkerAction) :
    Option (Database × Phase) :=
  Worker.step d s.1 s.2 a

open Interleaving in
/-- When a call that claims a run ends, the run has a final status if and only if the
document parses, the cipher can be constructed, and either a secret is missing or
the secrets resolve, the options are valid, every log event can be stored, the
engine returns, and its result can be stored. -/
theorem claimed_run_settles_iff (d : Deployment) (db : Database) (run : Run) (fields : Fields)
    (hrun : db.run = some run) (hqueued : run.status = .queued)
    (hpipeline : db.pipelineSpec = some fields) (actions : List WorkerAction) (db' : Database)
    (phase : Phase) (hexec : exec (soloNext d) (db, .start) actions = some (db', phase))
    (hended : phase.stage = .ended) :
    (∃ status, db'.status = some status ∧ status.terminal = true) ↔
      d.Settles run.ownerId fields := by
  have hstart : Settling d run.ownerId fields db .start := ⟨run, hrun, hqueued, rfl, hpipeline⟩
  have hinv : Settling d run.ownerId fields db' phase := by
    refine @exec_invariant _ _ (soloNext d) (fun s => Settling d run.ownerId fields s.1 s.2)
      ?_ _ _ _ hstart hexec
    exact fun s a s' hs hnext => Worker.Settling.step hs (Worker.step_spec hnext)
  cases phase with
  | returned => exact iff_of_true hinv.2 hinv.1
  | raised exc =>
      refine iff_of_false ?_ hinv.1
      rintro ⟨status, hstatus, hterminal⟩
      rw [hinv.2.status] at hstatus
      cases hstatus
      cases hterminal
  | _ => cases hended

/-! ## A record that cannot be stored -/

/-- A source whose record holds a date, as a database column or a CSV column can. -/
def datedSource : NodeClass :=
  Samples.dataNode [] fun _ _ =>
    .ok [[("day", .foreign "date" "2024-01-31" "datetime.date(2024, 1, 31)")]]

/-- The engine with this source. -/
def datedEngine : Engine where
  runtime := Samples.runtime
  registry := { entries := [("source", datedSource)], nodup_keys := by simp }

/-- A document of one source. -/
def oneSource : PipelineSpec :=
  Samples.document [Samples.node "rows" "source" []] []

/-- All steps of a call. -/
def wholeCall : List WorkerAction :=
  [.readRun, .readPipeline] ++ Samples.claimedCall 1

theorem claimed_run_settles_oneSource :
    (Samples.deployment Samples.engine oneSource).Settles "owner" [] := by
  have hcheck : (Interleaving.exec (soloNext (Samples.deployment Samples.engine oneSource))
      (Samples.queuedRun, .start) wholeCall).map (fun s => (s.1.status, s.2.stage)) =
        some (some .succeeded, .ended) := by decide +kernel
  rcases Option.map_eq_some_iff.mp hcheck with ⟨⟨db', phase⟩, hexec, heq⟩
  rw [Prod.mk.injEq] at heq
  exact (claimed_run_settles_iff _ Samples.queuedRun _ [] rfl rfl rfl wholeCall db' phase hexec
    heq.2).mp ⟨_, heq.1, rfl⟩

/-- The final commit cannot dump the date: the call raises, and the run that it has
claimed stays running. -/
theorem claimed_run_left_running :
    ∃ db' phase, Interleaving.exec (soloNext (Samples.deployment datedEngine oneSource))
        (Samples.queuedRun, .start) wholeCall = some (db', phase) ∧
      phase.stage = .ended ∧ db'.status = some .running := by
  have hcheck : (Interleaving.exec (soloNext (Samples.deployment datedEngine oneSource))
      (Samples.queuedRun, .start) wholeCall).map (fun s => (s.1.status, s.2.stage)) =
        some (some .running, .ended) := by decide +kernel
  rcases Option.map_eq_some_iff.mp hcheck with ⟨⟨db', phase⟩, hexec, heq⟩
  rw [Prod.mk.injEq] at heq
  exact ⟨db', phase, hexec, heq.2, heq.1⟩

end EtlTool
