import EtlTool.Engine.Bookkeeping
import EtlTool.Engine.Samples

/-!
# Accounting of a run result

What a caller can rely on in the result of a validated document, in both modes
and under every schedule: one entry for each node, a status that agrees with the
errors and with the node statuses, errors behind every failed node, outputs of
exactly the terminal nodes that produced some, and a single failed node, after
which nothing else starts, without {lit}`continue_on_error`.

Main results:

- Theorem {lit}`executePipeline_accounts`: every result accounts for its run.
- Theorem {lit}`run_confined`: without {lit}`continue_on_error` only concurrent
  iterations of the failing iterator start a node after a failure.
-/

namespace EtlTool

/-! ## Failures that stop a run -/

/-- After a failure only iterations of the same fan-out start a node. -/
def ConfinedFailures (trace : List Event) : Prop :=
  ∀ before place id error after, trace = before ++ .failed place id error :: after →
    ∀ place' id' view', .started place' id' view' ∈ after →
      ∃ iteratorId iter iter', place = .iteration iteratorId iter ∧
        place' = .iteration iteratorId iter'

/-- The trace contains no failure. -/
def QuietTrace (trace : List Event) : Prop :=
  ∀ place id error, .failed place id error ∉ trace

theorem ConfinedFailures.append {first second : List Event} (hquiet : QuietTrace first)
    (hsecond : ConfinedFailures second) : ConfinedFailures (first ++ second) := by
  intro before place id error after hsplit
  rcases List.append_eq_append_iff.mp hsplit with ⟨mid, hbefore, hrest⟩ | ⟨mid, hfirst, hrest⟩
  · exact hsecond mid place id error after hrest
  · cases mid with
    | nil => exact hsecond [] place id error after hrest.symm
    | cons event mid =>
        have hevent : Event.failed place id error = event := by
          simpa using congrArg List.head? hrest
        exact absurd (hfirst ▸ List.mem_append_right before (hevent ▸ List.mem_cons_self))
          (hquiet place id error)

private theorem ConfinedFailures.of_quiet {trace : List Event} (h : QuietTrace trace) :
    ConfinedFailures trace := by
  intro before place id error after hsplit
  exact absurd (hsplit ▸ List.mem_append_right before List.mem_cons_self) (h place id error)

/-- A failure at the end is confined. -/
theorem confinedFailures_singleton (event : Event) : ConfinedFailures [event] := by
  intro before place id error after hsplit place' id' view' hmem
  have hlen := congrArg List.length hsplit
  simp only [List.length_append, List.length_cons, List.length_nil] at hlen
  have hafter : after = [] := List.eq_nil_of_length_eq_zero (by omega)
  simp [hafter] at hmem

theorem QuietTrace.append {first second : List Event} (hfirst : QuietTrace first)
    (hsecond : QuietTrace second) : QuietTrace (first ++ second) := by
  intro place id error hmem
  rcases List.mem_append.mp hmem with hmem | hmem
  · exact hfirst place id error hmem
  · exact hsecond place id error hmem

namespace PipelineRun

variable {r : PipelineRun} {topo visited rest : List String} {s : LoopState} {id : String}

private theorem quietTrace_nodeEvents (r : PipelineRun) (id : String) (view : View) :
    QuietTrace (r.nodeEvents id view) := by
  intro place n error hmem
  unfold nodeEvents at hmem
  split at hmem <;> simp at hmem

/-- The failures of a fan-out are confined to its iterations. -/
theorem confinedFailures_fanOutTrace {scope : List String} (hown : id ∉ scope)
    (plan : FanOutPlan) (schedule : List FanOut.Choice) :
    ConfinedFailures (r.fanOutTrace s id scope plan schedule) := by
  intro before place n error after hsplit place' n' view' hstarted
  cases before with
  | nil =>
      have hhead := congrArg List.head? hsplit
      simp [fanOutTrace] at hhead
  | cons event before =>
      unfold fanOutTrace at hsplit
      rw [List.cons_append, List.cons.injEq] at hsplit
      have hfailed : Event.failed place n error ∈ r.fanOutEvents id scope s.view plan schedule := by
        have hmem : Event.failed place n error ∈ r.fanOutEvents id scope s.view plan schedule ++
            [.gathered id plan (r.iterationResults id scope s.view plan schedule)] :=
          hsplit.2 ▸ List.mem_append_right before List.mem_cons_self
        simpa using hmem
      have hstarted' : Event.started place' n' view' ∈
          r.fanOutEvents id scope s.view plan schedule := by
        have hmem : Event.started place' n' view' ∈ r.fanOutEvents id scope s.view plan schedule ++
            [.gathered id plan (r.iterationResults id scope s.view plan schedule)] :=
          hsplit.2 ▸ List.mem_append_right before (List.mem_cons_of_mem _ hstarted)
        simpa using hmem
      rcases mem_fanOutEvents_failed hown hfailed with ⟨i, value, _, hplace, _⟩
      rcases mem_fanOutEvents_started hown hstarted' with ⟨j, value', _, _, _, _, _, hplace', _⟩
      exact ⟨id, _, _, hplace, hplace'⟩

/-- A fan-out without failed iterations is quiet. -/
theorem quietTrace_fanOutTrace {scope : List String} (hown : id ∉ scope) {plan : FanOutPlan}
    {schedule : List FanOut.Choice}
    (hnone : iterationFailures (r.iterationResults id scope s.view plan schedule) = []) :
    QuietTrace (r.fanOutTrace s id scope plan schedule) := by
  intro place n error hmem
  have hfailed : Event.failed place n error ∈ r.fanOutEvents id scope s.view plan schedule := by
    simpa [fanOutTrace] using hmem
  rcases mem_fanOutEvents_failed hown hfailed with ⟨i, _, _, _, hi⟩
  have hfailure := mem_iterationFailures.mpr ⟨i, hi⟩
  rw [hnone] at hfailure
  cases hfailure

/-- Without {lit}`continue_on_error`: failures are confined, and as long as the
run is live there was none. -/
structure Halts (s : LoopState) : Prop where
  confined : ConfinedFailures s.trace
  quiet : s.escaped = none → s.abort = false → QuietTrace s.trace

/-- Every visit keeps failures confined. -/
theorem Halts.visit (hsorted : r.Sorted topo) (hmode : r.ctx.options.continueOnError = false)
    (h : Halts s) {schedule : List FanOut.Choice} {s' : LoopState}
    (hvisit : r.Visit schedule (r.scopeTopo topo id) s id s') : Halts s' := by
  have hown := hsorted.not_mem_scope id
  have hnode : s.Ready id → ∀ event : Event,
      ConfinedFailures (s.trace ++ r.nodeEvents id s.view ++ [event]) := by
    intro hready event
    exact .append ((h.quiet hready.escaped hready.abort).append (quietTrace_nodeEvents r id s.view))
      (confinedFailures_singleton event)
  cases hvisit with
  | idle _ => exact h
  | aborted _ _ habort =>
      exact ⟨h.confined, fun _ hlive => by rw [habort] at hlive; cases hlive⟩
  | unknown hready _ => exact ⟨h.confined, fun hlive => by cases hlive⟩
  | succeeded hready _ outputs _ =>
      have hquiet := (h.quiet hready.escaped hready.abort).append (quietTrace_nodeEvents r id s.view)
      exact ⟨.of_quiet hquiet, fun _ _ => hquiet⟩
  | failed hready _ error _ =>
      refine ⟨hnode hready _, fun _ hlive => ?_⟩
      simp [failNode, hmode] at hlive
  | escaped hready _ exc _ =>
      have hquiet := (h.quiet hready.escaped hready.abort).append (quietTrace_nodeEvents r id s.view)
      exact ⟨.of_quiet hquiet, fun hlive => by cases hlive⟩
  | planFailed hready _ error _ =>
      refine ⟨?_, fun _ hlive => by simp [failPlan, hmode] at hlive⟩
      have hquiet : QuietTrace (s.trace ++ [Event.started .top id s.view]) :=
        (h.quiet hready.escaped hready.abort).append fun place n e hmem => by simp at hmem
      have hconfined := ConfinedFailures.append hquiet
        (confinedFailures_singleton (Event.failed .top id error))
      simpa [failPlan] using hconfined
  | planEscaped hready _ exc _ =>
      refine ⟨.of_quiet ?_, fun hlive => by cases hlive⟩
      exact (h.quiet hready.escaped hready.abort).append fun place n e hmem => by simp at hmem
  | iterationEscaped hready _ plan _ exc _ =>
      exact ⟨.append (h.quiet hready.escaped hready.abort)
        (confinedFailures_fanOutTrace hown plan schedule), fun hlive => by cases hlive⟩
  | iterationFailed hready _ plan _ _ _ first others _ =>
      exact ⟨.append (h.quiet hready.escaped hready.abort)
        (confinedFailures_fanOutTrace hown plan schedule), fun _ hlive => by cases hlive⟩
  | fannedIn hready _ plan _ _ hfanned =>
      rcases hfanned with hcontinue | hnone
      · rw [hmode] at hcontinue
        cases hcontinue
      · have hquiet := (h.quiet hready.escaped hready.abort).append
          (quietTrace_fanOutTrace hown hnone)
        exact ⟨.of_quiet hquiet, fun _ _ => hquiet⟩

/-- Without {lit}`continue_on_error` only concurrent iterations of the failing
iterator start a node after a failure. -/
theorem run_confined (hsorted : r.Sorted topo) (schedule : String → List FanOut.Choice)
    (hmode : r.ctx.options.continueOnError = false) :
    ConfinedFailures (r.run schedule topo .initial topo).trace := by
  have hhalts := @run_invariant_of_books r topo hsorted schedule (fun _ s => Halts s)
    (fun _ _ _ _ _ _ _ hvisit h => h.visit hsorted hmode hvisit)
    ⟨.of_quiet (by simp [QuietTrace, LoopState.initial]), by simp [QuietTrace, LoopState.initial]⟩
  exact hhalts.2.confined

end PipelineRun

/-! ## The accounting of a result -/

/-- A result accounts for the run of a document. -/
structure RunResult.Accounts (result : RunResult) (spec : PipelineSpec) (options : ExecutionOptions)
    (trace : List Event) : Prop where
  /-- One entry for each node and no other; keys of a dictionary do not repeat. -/
  entries : ∀ id, id ∈ result.nodeResults.keys ↔ ∃ node ∈ spec.nodes, node.id = id
  status_iff : result.status = .succeeded ↔ result.errors = []
  errors_iff : result.errors = [] ↔
    ∀ id nodeResult, result.nodeResults.get? id = some nodeResult → nodeResult.status = .succeeded
  reported : ∀ id nodeResult, result.nodeResults.get? id = some nodeResult →
    nodeResult.status = .failed → ∃ error, nodeResult.error = some error ∧ error ∈ result.errors
  /-- The outputs are those of the terminal nodes that produced outputs, which
  are the nodes that report a number of records. -/
  outputs_iff : ∀ id, id ∈ result.outputs.keys ↔ spec.outEdges id = [] ∧
    ∃ nodeResult, result.nodeResults.get? id = some nodeResult ∧ nodeResult.recordsOut ≠ none
  succeeded_outputs : ∀ id nodeResult, result.nodeResults.get? id = some nodeResult →
    nodeResult.status = .succeeded → spec.outEdges id = [] → id ∈ result.outputs.keys
  skipped_outputs : ∀ id nodeResult, result.nodeResults.get? id = some nodeResult →
    nodeResult.status = .skipped → id ∉ result.outputs.keys
  /-- Without continuing on error, a failed run has one failed node. -/
  single_failure : options.continueOnError = false → result.status = .failed →
    ∃ id, ∀ other, (∃ nodeResult, result.nodeResults.get? other = some nodeResult ∧
      nodeResult.status = .failed) ↔ other = id
  /-- Without continuing on error, only concurrent iterations of the failing
  iterator start after a failure. -/
  confined : options.continueOnError = false → ConfinedFailures trace

namespace PipelineRun

private theorem mem_terminalOutputs (r : PipelineRun) (s : LoopState) (id : String) :
    id ∈ (r.terminalOutputs s).keys ↔ r.spec.outEdges id = [] ∧ s.outputs.get? id ≠ none := by
  rw [← OrderedDict.get?_isSome_iff, terminalOutputs, OrderedDict.get?_filterMap]
  cases s.outputs.get? id with
  | none => simp
  | some outputs => by_cases hout : r.spec.outEdges id = [] <;> simp [hout]

/-- The books at the end of the loop are the accounts of the result. -/
theorem Books.accounts {r : PipelineRun} {topo : List String} {s : LoopState}
    (hsorted : r.Sorted topo) (hb : r.Books topo s) {result : RunResult}
    (hfinish : r.finish s = .ok result)
    (hconfined : r.ctx.options.continueOnError = false → ConfinedFailures s.trace) :
    result.Accounts r.spec r.ctx.options s.trace := by
  unfold finish at hfinish
  split at hfinish
  · cases hfinish
  · cases hfinish
    have hstatus : (if s.errors = [] then RunStatus.succeeded else .failed) = .succeeded ↔
        s.errors = [] := by
      split <;> simp_all
    have hproduced : ∀ id, id ∈ (r.terminalOutputs s).keys ↔ r.spec.outEdges id = [] ∧
        ∃ nodeResult, s.results.get? id = some nodeResult ∧ nodeResult.recordsOut ≠ none := by
      intro id
      rw [mem_terminalOutputs, hb.stored id]
    refine ⟨?_, hstatus, ?_, hb.reported, hproduced, ?_, ?_, ?_, hconfined⟩
    · intro id
      rw [← PipelineSpec.mem_nodeMap_keys]
      constructor
      · intro hid
        rcases OrderedDict.exists_get?_of_mem_keys hid with ⟨nodeResult, hresult⟩
        exact hb.known id (by simp [hresult])
      · intro hid
        rw [← OrderedDict.get?_isSome_iff, Option.isSome_iff_ne_none]
        exact hb.done id ((hsorted.mem_iff id).mpr hid)
    · constructor
      · exact hb.clean
      · intro hall
        by_contra hne
        rcases (hb.dirty hne).1 with ⟨id, nodeResult, hresult, hfailed⟩
        rw [hall id nodeResult hresult] at hfailed
        cases hfailed
    · intro id nodeResult hresult hsucceeded hterminal
      exact (hproduced id).mpr ⟨hterminal, nodeResult, hresult, hb.counted id _ hresult hsucceeded⟩
    · intro id nodeResult hresult hskipped hmem
      rcases ((hproduced id).mp hmem).2 with ⟨nodeResult', hresult', hcount⟩
      rw [hresult] at hresult'
      cases hresult'
      exact hcount (hb.uncounted id nodeResult hresult hskipped)
    · intro hmode hfailedRun
      have hne : s.errors ≠ [] := by
        intro hnil
        rw [hstatus.mpr hnil] at hfailedRun
        cases hfailedRun
      have habort := hb.aborts.mpr ⟨hmode, hne⟩
      rcases (hb.dirty hne).1 with ⟨id, nodeResult, hresult, hfailed⟩
      refine ⟨id, fun other => ⟨?_, ?_⟩⟩
      · rintro ⟨otherResult, hother, hfailed'⟩
        exact hb.single habort other id _ _ hother hresult hfailed' hfailed
      · rintro rfl
        exact ⟨nodeResult, hresult, hfailed⟩

end PipelineRun

/-- Every result of a validated document accounts for its run, in both modes and
under every schedule. -/
theorem executePipeline_accounts (en : Engine) (schedule : String → List FanOut.Choice)
    (spec : PipelineSpec) (secrets : OrderedDict String PyText) (options : ExecutionOptions)
    (hvalid : en.validatePipeline spec = []) {result : RunResult}
    (houtcome : (en.executePipeline schedule spec secrets options).outcome = .ok result) :
    result.Accounts spec options (en.executePipeline schedule spec secrets options).trace := by
  rcases executePipeline_cases en schedule spec secrets options with
    ⟨hissues, _⟩ | ⟨_, topo, htopo, ⟨exc, _, heq⟩ | ⟨redactor, _, heq⟩⟩
  · exact absurd hvalid hissues
  · rw [heq] at houtcome
    cases houtcome
  · rw [heq] at houtcome ⊢
    have hsorted : PipelineRun.Sorted ⟨en, spec, ⟨secrets, options, redactor⟩⟩ topo :=
      ⟨Engine.validated_of_no_issues hvalid, htopo⟩
    have hlive : (PipelineRun.run ⟨en, spec, ⟨secrets, options, redactor⟩⟩ schedule topo .initial
        topo).escaped = none := by
      simp only [PipelineRun.finish] at houtcome
      split at houtcome
      · cases houtcome
      · assumption
    exact (PipelineRun.run_books hsorted schedule hlive).accounts hsorted houtcome
      (PipelineRun.run_confined hsorted schedule)

/-- An iterator whose first of two iterations fails, with a second branch. -/
def partialFailure : PipelineSpec :=
  Samples.document
    [Samples.iterator "each" [.int 7, .int 8], Samples.node "work" "fragile" [],
      Samples.node "other" "source" []]
    [Samples.edge "each" "work"]

theorem executePipeline_accounts_partialFailure :
    ∃ result, (Samples.execute partialFailure true).outcome = .ok result ∧
      result.Accounts partialFailure (Samples.options true)
        (Samples.execute partialFailure true).trace := by
  have hreturns : (Samples.execute partialFailure true).outcome.toOption.isSome = true := by
    decide +kernel
  cases houtcome : (Samples.execute partialFailure true).outcome with
  | error exc =>
      rw [houtcome] at hreturns
      cases hreturns
  | ok result =>
      exact ⟨result, rfl, executePipeline_accounts Samples.engine _ partialFailure _ _
        (by decide +kernel) houtcome⟩

end EtlTool
