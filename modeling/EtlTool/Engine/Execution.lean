import EtlTool.Engine.Iterations

/-!
# Executing a pipeline

The main loop visits the nodes in topological order.  A visit leaves a node
alone that has a result already, skips it after an abort, executes it, or fans
it out.  The state of the loop carries the outputs, results and errors of the
source, and a trace of events that exists only in the model.

The scheduler of the concurrent iterations is a parameter: for every iterator a
list of choices.  Exceptions that no handler covers end the loop and are kept in
the state, so that a run that escapes still has a trace.

Main results:

- Theorem {lit}`visit_spec`: everything that one visit can do.
- Theorem {lit}`run_invariant`: what every visit preserves holds after the loop.
- Theorem {lit}`get?_skip`, {lit}`get?_fanIn_results`: what skipping and fanning
  in do to every single node.

Current gaps:

- Timestamps, durations and the log lines of the engine.
- The members of a set of descendants are skipped in search order, where the
  source leaves the order to the iteration of a set.
-/

namespace EtlTool

/-! ## Results -/

/-- {lit}`NodeStatus`. -/
inductive NodeStatus where
  | succeeded
  | failed
  | skipped
deriving DecidableEq

/-- {lit}`RunStatus`. -/
inductive RunStatus where
  | succeeded
  | failed
deriving DecidableEq

/-- {lit}`NodeResult`. -/
structure NodeResult where
  nodeId : String
  nodeType : String
  status : NodeStatus
  recordsOut : Option Nat
  iterations : Option Nat
  error : Option NodeError
deriving DecidableEq

/-- {lit}`RunResult`. -/
structure RunResult where
  pipelineId : String
  status : RunStatus
  nodeResults : OrderedDict String NodeResult
  errors : List NodeError
  outputs : OrderedDict String Records
deriving DecidableEq

/-- The state of the main loop: {lit}`_State`, the abort flag, an exception on
its way out, and the trace. -/
structure LoopState where
  outputs : OrderedDict String NodeOutputs
  results : OrderedDict String NodeResult
  errors : List NodeError
  abort : Bool
  escaped : Option PyException
  trace : List Event

/-- The state before the first visit. -/
def LoopState.initial : LoopState where
  outputs := .empty
  results := .empty
  errors := []
  abort := false
  escaped := none
  trace := []

/-- The outputs that a top-level node sees. -/
def LoopState.view (s : LoopState) : View :=
  s.outputs.get?

namespace PipelineRun

/-! ## Skipping -/

/-- The result of a skipped node. -/
def skippedResult (r : PipelineRun) (id : String) : NodeResult where
  nodeId := id
  nodeType := r.nodeType id
  status := .skipped
  recordsOut := none
  iterations := none
  error := none

/-- {lit}`_skip`: nodes that have no result yet are skipped. -/
def skip (r : PipelineRun) (results : OrderedDict String NodeResult) (ids : List String) :
    OrderedDict String NodeResult :=
  ids.foldl (fun results id =>
    if results.contains id then results else results.set id (r.skippedResult id)) results

/-- The result of a node that failed. -/
def failedResult (r : PipelineRun) (id : String) (error : NodeError) : NodeResult where
  nodeId := id
  nodeType := r.nodeType id
  status := .failed
  recordsOut := none
  iterations := none
  error := some error

/-! ## A data node -/

/-- What is observed of a top-level node before its outcome. -/
def nodeEvents (r : PipelineRun) (id : String) (view : View) : List Event :=
  .started .top id view ::
    match r.prepareNode id view none with
    | .ok _ => [.ran .top id view]
    | .error _ => []

/-- A top-level node returned. -/
def succeedNode (r : PipelineRun) (s : LoopState) (id : String) (outputs : NodeOutputs) :
    LoopState :=
  { s with
    outputs := s.outputs.set id outputs
    results := s.results.set id {
      nodeId := id
      nodeType := r.nodeType id
      status := .succeeded
      recordsOut := some (primary outputs).length
      iterations := none
      error := none }
    trace := s.trace ++ r.nodeEvents id s.view }

/-- A top-level node failed: skip its descendants, or abort. -/
def failNode (r : PipelineRun) (s : LoopState) (id : String) (error : NodeError) : LoopState :=
  let results := s.results.set id (r.failedResult id error)
  { s with
    results :=
      if r.ctx.options.continueOnError then r.skip results (r.spec.descendants id) else results
    errors := s.errors ++ [error]
    abort := !r.ctx.options.continueOnError
    trace := s.trace ++ r.nodeEvents id s.view ++ [.failed .top id error] }

/-- A top-level node raised something that no handler covers. -/
def escapeNode (r : PipelineRun) (s : LoopState) (id : String) (exc : PyException) : LoopState :=
  { s with
    escaped := some exc
    trace := s.trace ++ r.nodeEvents id s.view }

/-! ## An iterator -/

/-- Preparing an iterator or computing its values failed. -/
def failPlan (r : PipelineRun) (s : LoopState) (id : String) (scope : List String)
    (error : NodeError) : LoopState :=
  { s with
    results := r.skip (s.results.set id (r.failedResult id error)) scope
    errors := s.errors ++ [error]
    abort := !r.ctx.options.continueOnError
    trace := s.trace ++ [.started .top id s.view, .failed .top id error] }

/-- Preparing an iterator or computing its values raised something that no
handler covers. -/
def escapePlan (s : LoopState) (id : String) (exc : PyException) : LoopState :=
  { s with
    escaped := some exc
    trace := s.trace ++ [.started .top id s.view] }

/-- The observable part of a fan-out. -/
def fanOutTrace (r : PipelineRun) (s : LoopState) (id : String) (scope : List String)
    (plan : FanOutPlan) (schedule : List FanOut.Choice) : List Event :=
  .started .top id s.view :: (r.fanOutEvents id scope s.view plan schedule ++
    [.gathered id plan (r.iterationResults id scope s.view plan schedule)])

/-- What leaves a fan-out when an iteration escaped: the exception itself from
{lit}`gather`, an exception group from a task group. -/
def fanOutEscape (r : PipelineRun) (exc : PyException) : PyException :=
  if r.ctx.options.continueOnError then exc
  else ⟨"ExceptionGroup", some "unhandled errors in a TaskGroup"⟩

/-- An iteration raised something that no handler covers. -/
def escapeIterations (r : PipelineRun) (s : LoopState) (id : String) (scope : List String)
    (plan : FanOutPlan) (schedule : List FanOut.Choice) (exc : PyException) : LoopState :=
  { s with
    escaped := some (r.fanOutEscape exc)
    trace := s.trace ++ r.fanOutTrace s id scope plan schedule }

/-- Without {lit}`continue_on_error` the first failed iteration, in index order,
fails its node; the rest of the fan-out is skipped and the run aborts. -/
def abortIterations (r : PipelineRun) (s : LoopState) (id : String) (scope : List String)
    (plan : FanOutPlan) (schedule : List FanOut.Choice) (first : String × NodeError) : LoopState :=
  let results := r.iterationResults id scope s.view plan schedule
  { s with
    results := r.skip (s.results.set first.1 (r.failedResult first.1 first.2)) (id :: scope)
    errors := s.errors ++ (iterationFailures results).map Prod.snd
    abort := true
    trace := s.trace ++ r.fanOutTrace s id scope plan schedule }

/-- The declared output ports of a node. -/
def outputPorts (r : PipelineRun) (id : String) : List String :=
  match r.engine.nodeClass? r.spec id with
  | some cls => cls.outputPorts
  | none => []

/-- The fanned-in outputs of the iterator or a scope node. -/
def memberOutputs (r : PipelineRun) (plan : FanOutPlan) (results : List (Option IterationResult))
    (member : String) : NodeOutputs :=
  fanInOutputs plan (r.outputPorts member) (contributions results member)

/-- The result of the iterator or a scope node after the fan-in. -/
def memberResult (r : PipelineRun) (iteratorId : String) (plan : FanOutPlan)
    (results : List (Option IterationResult)) (member : String) : NodeResult where
  nodeId := member
  nodeType := r.nodeType member
  status :=
    if member ∈ (iterationFailures results).map Prod.fst then .failed else .succeeded
  recordsOut := some (primary (r.memberOutputs plan results member)).length
  iterations := some
    (if member = iteratorId then plan.values.length else (contributions results member).length)
  error := ((iterationFailures results).find? fun failure => failure.1 = member).map Prod.snd

/-- Fan the results of the iterations in. -/
def fanIn (r : PipelineRun) (s : LoopState) (id : String) (scope : List String)
    (plan : FanOutPlan) (schedule : List FanOut.Choice) : LoopState :=
  let results := r.iterationResults id scope s.view plan schedule
  { s with
    outputs := s.outputs.setAll (id :: scope) (r.memberOutputs plan results)
    results := s.results.setAll (id :: scope) (r.memberResult id plan results)
    errors := s.errors ++ (iterationFailures results).map Prod.snd
    trace := s.trace ++ r.fanOutTrace s id scope plan schedule }

/-! ## The loop -/

/-- The scope of an iterator in topological order. -/
def scopeTopo (r : PipelineRun) (topo : List String) (id : String) : List String :=
  topo.filter fun n => n ∈ r.spec.descendants id

/-- A top-level data node. -/
def visitNode (r : PipelineRun) (s : LoopState) (id : String) : LoopState :=
  match r.executeNode id s.view none with
  | .ok outputs => r.succeedNode s id outputs
  | .error (.node error) => r.failNode s id error
  | .error (.other exc) => r.escapeNode s id exc

/-- {lit}`_run_iterator`. -/
def visitIterator (r : PipelineRun) (schedule : List FanOut.Choice) (scope : List String)
    (s : LoopState) (id : String) : LoopState :=
  match r.planFanOut id s.view with
  | .error (.node error) => r.failPlan s id scope error
  | .error (.other exc) => escapePlan s id exc
  | .ok plan =>
      match firstEscape? (r.iterationResults id scope s.view plan schedule) with
      | some exc => r.escapeIterations s id scope plan schedule exc
      | none =>
          match iterationFailures (r.iterationResults id scope s.view plan schedule),
              r.ctx.options.continueOnError with
          | first :: _, false => r.abortIterations s id scope plan schedule first
          | _, _ => r.fanIn s id scope plan schedule

/-- One turn of the main loop. -/
def visit (r : PipelineRun) (schedule : String → List FanOut.Choice) (topo : List String)
    (s : LoopState) (id : String) : LoopState :=
  if s.escaped.isSome then s
  else if s.results.contains id then s
  else if s.abort then { s with results := r.skip s.results [id] }
  else
    match r.spec.node? id with
    | none => { s with escaped := some (keyError id) }
    | some node =>
        if r.engine.fansOut node.type then
          r.visitIterator (schedule id) (r.scopeTopo topo id) s id
        else r.visitNode s id

/-- The main loop over the nodes that are left. -/
def run (r : PipelineRun) (schedule : String → List FanOut.Choice) (topo : List String)
    (s : LoopState) (ids : List String) : LoopState :=
  ids.foldl (r.visit schedule topo) s

/-- Primary records of every terminal node that has outputs. -/
def terminalOutputs (r : PipelineRun) (s : LoopState) : OrderedDict String Records :=
  s.outputs.filterMap fun id outputs =>
    if r.spec.outEdges id = [] then some (primary outputs) else none

/-- The end of {lit}`execute_pipeline` after the loop. -/
def finish (r : PipelineRun) (s : LoopState) : Except PyException RunResult :=
  match s.escaped with
  | some exc => .error exc
  | none =>
      .ok {
        pipelineId := r.spec.pipelineId
        status := if s.errors = [] then .succeeded else .failed
        nodeResults := s.results
        errors := s.errors
        outputs := r.terminalOutputs s }

end PipelineRun

/-! ## The entry point -/

/-- One call of {lit}`execute_pipeline`: the state in which the loop ended, and
what the caller gets. -/
structure Execution where
  state : LoopState
  outcome : Except PyException RunResult

/-- The events of a call. -/
def Execution.trace (e : Execution) : List Event :=
  e.state.trace

/-- The error of a validation issue. -/
def issueError (spec : PipelineSpec) (issue : ValidationIssue) : NodeError where
  nodeId := (issue.nodeId.filter (· ≠ "")).getD "__pipeline__"
  nodeType := ((spec.node? (issue.nodeId.getD "")).map NodeSpec.type).getD "pipeline"
  category := .validation
  message := issue.message
  httpStatus := none
  requestSummary := none
  attempts := 1
  details := none

/-- The result of a document with issues. -/
def issuesResult (spec : PipelineSpec) (issues : List ValidationIssue) : RunResult where
  pipelineId := spec.pipelineId
  status := .failed
  nodeResults := .empty
  errors := issues.map (issueError spec)
  outputs := .empty

/-- {lit}`execute_pipeline`, under a schedule for every iterator. -/
def Engine.executePipeline (en : Engine) (schedule : String → List FanOut.Choice)
    (spec : PipelineSpec) (secrets : OrderedDict String PyText) (options : ExecutionOptions) :
    Execution :=
  match en.validatePipeline spec with
  | issue :: issues => ⟨.initial, .ok (issuesResult spec (issue :: issues))⟩
  | [] =>
      match spec.topoOrder with
      | none => ⟨.initial, .error ⟨"AssertionError", some ""⟩⟩
      | some topo =>
          match Redactor.ofSecrets secrets.values with
          | .error exc => ⟨.initial, .error exc⟩
          | .ok redactor =>
              let r : PipelineRun := ⟨en, spec, ⟨secrets, options, redactor⟩⟩
              let final := r.run schedule topo .initial topo
              ⟨final, r.finish final⟩

/-! ## What one visit can do -/

/-- The loop is going to execute a node: nothing has escaped, the run is not
aborting, and the node has no result yet. -/
structure LoopState.Ready (s : LoopState) (id : String) : Prop where
  escaped : s.escaped = none
  result : s.results.get? id = none
  abort : s.abort = false

namespace PipelineRun

/-- Everything that one visit can do. -/
inductive Visit (r : PipelineRun) (schedule : List FanOut.Choice) (scope : List String)
    (s : LoopState) (id : String) : LoopState → Prop where
  | idle (h : s.escaped ≠ none ∨ s.results.get? id ≠ none) : Visit r schedule scope s id s
  | aborted (hescaped : s.escaped = none) (hresult : s.results.get? id = none)
      (habort : s.abort = true) :
      Visit r schedule scope s id { s with results := r.skip s.results [id] }
  | unknown (hready : s.Ready id) (hnode : r.spec.node? id = none) :
      Visit r schedule scope s id { s with escaped := some (keyError id) }
  | succeeded (hready : s.Ready id) (hplain : ¬ r.engine.IsIterator r.spec id)
      (outputs : NodeOutputs) (hexec : r.executeNode id s.view none = .ok outputs) :
      Visit r schedule scope s id (r.succeedNode s id outputs)
  | failed (hready : s.Ready id) (hplain : ¬ r.engine.IsIterator r.spec id) (error : NodeError)
      (hexec : r.executeNode id s.view none = .error (.node error)) :
      Visit r schedule scope s id (r.failNode s id error)
  | escaped (hready : s.Ready id) (hplain : ¬ r.engine.IsIterator r.spec id) (exc : PyException)
      (hexec : r.executeNode id s.view none = .error (.other exc)) :
      Visit r schedule scope s id (r.escapeNode s id exc)
  | planFailed (hready : s.Ready id) (hiter : r.engine.IsIterator r.spec id) (error : NodeError)
      (hplan : r.planFanOut id s.view = .error (.node error)) :
      Visit r schedule scope s id (r.failPlan s id scope error)
  | planEscaped (hready : s.Ready id) (hiter : r.engine.IsIterator r.spec id) (exc : PyException)
      (hplan : r.planFanOut id s.view = .error (.other exc)) :
      Visit r schedule scope s id (escapePlan s id exc)
  | iterationEscaped (hready : s.Ready id) (hiter : r.engine.IsIterator r.spec id)
      (plan : FanOutPlan) (hplan : r.planFanOut id s.view = .ok plan) (exc : PyException)
      (hexc : firstEscape? (r.iterationResults id scope s.view plan schedule) = some exc) :
      Visit r schedule scope s id (r.escapeIterations s id scope plan schedule exc)
  | iterationFailed (hready : s.Ready id) (hiter : r.engine.IsIterator r.spec id)
      (plan : FanOutPlan) (hplan : r.planFanOut id s.view = .ok plan)
      (hcalm : firstEscape? (r.iterationResults id scope s.view plan schedule) = none)
      (hmode : r.ctx.options.continueOnError = false) (first : String × NodeError)
      (others : List (String × NodeError))
      (hfailures : iterationFailures (r.iterationResults id scope s.view plan schedule) =
        first :: others) :
      Visit r schedule scope s id (r.abortIterations s id scope plan schedule first)
  | fannedIn (hready : s.Ready id) (hiter : r.engine.IsIterator r.spec id)
      (plan : FanOutPlan) (hplan : r.planFanOut id s.view = .ok plan)
      (hcalm : firstEscape? (r.iterationResults id scope s.view plan schedule) = none)
      (hmode : r.ctx.options.continueOnError = true ∨
        iterationFailures (r.iterationResults id scope s.view plan schedule) = []) :
      Visit r schedule scope s id (r.fanIn s id scope plan schedule)

/-- The turn of the loop is one of the visits. -/
theorem visit_spec (r : PipelineRun) (schedule : String → List FanOut.Choice)
    (topo : List String) (s : LoopState) (id : String) :
    r.Visit (schedule id) (r.scopeTopo topo id) s id (r.visit schedule topo s id) := by
  unfold visit
  by_cases hescaped : s.escaped = none
  · rw [if_neg (by simp [hescaped])]
    by_cases hresult : s.results.get? id = none
    · rw [if_neg (by simp [OrderedDict.contains, hresult])]
      by_cases habort : s.abort = true
      · rw [if_pos habort]
        exact .aborted hescaped hresult habort
      · rw [if_neg habort]
        have hready : s.Ready id := ⟨hescaped, hresult, by simpa using habort⟩
        cases hnode : r.spec.node? id with
        | none => exact .unknown hready hnode
        | some node =>
            simp only
            by_cases hfans : r.engine.fansOut node.type = true
            · have hiter : r.engine.IsIterator r.spec id := ⟨node, hnode, hfans⟩
              rw [if_pos hfans]
              unfold visitIterator
              split
              · rename_i error hplan
                exact .planFailed hready hiter error hplan
              · rename_i exc hplan
                exact .planEscaped hready hiter exc hplan
              · rename_i plan hplan
                split
                · rename_i exc hexc
                  exact .iterationEscaped hready hiter plan hplan exc hexc
                · rename_i hcalm
                  split
                  · rename_i first others hfailures hmode
                    exact .iterationFailed hready hiter plan hplan hcalm hmode first others hfailures
                  · rename_i hnot
                    refine .fannedIn hready hiter plan hplan hcalm ?_
                    cases hmode : r.ctx.options.continueOnError with
                    | true => exact Or.inl rfl
                    | false =>
                        right
                        cases hfailures : iterationFailures
                            (r.iterationResults id (r.scopeTopo topo id) s.view plan (schedule id)) with
                        | nil => rfl
                        | cons first others => exact absurd hmode (hnot first others hfailures)
            · have hplain : ¬ r.engine.IsIterator r.spec id := by
                rintro ⟨node', hnode', hfans'⟩
                rw [hnode] at hnode'
                cases hnode'
                exact hfans hfans'
              rw [if_neg hfans]
              unfold visitNode
              split
              · rename_i outputs hexec
                exact .succeeded hready hplain outputs hexec
              · rename_i error hexec
                exact .failed hready hplain error hexec
              · rename_i exc hexec
                exact .escaped hready hplain exc hexec
    · rw [if_pos (by simpa [OrderedDict.contains, Option.isSome_iff_ne_none] using hresult)]
      exact .idle (Or.inr hresult)
  · rw [if_pos (by simpa [Option.isSome_iff_ne_none] using hescaped)]
    exact .idle (Or.inl hescaped)

/-! ## What the updates do to one node -/

variable {r : PipelineRun} {s : LoopState} {id : String}

/-- Skipping gives a result to exactly the listed nodes without one. -/
theorem get?_skip (r : PipelineRun) (results : OrderedDict String NodeResult) (ids : List String)
    (n : String) :
    (r.skip results ids).get? n =
      match results.get? n with
      | some result => some result
      | none => if n ∈ ids then some (r.skippedResult n) else none := by
  unfold skip
  induction ids generalizing results with
  | nil => cases hn : results.get? n <;> simp [hn]
  | cons head rest ih =>
      rw [List.foldl_cons, ih]
      by_cases hpresent : results.contains head = true
      · rw [if_pos hpresent]
        cases hn : results.get? n with
        | some result => rfl
        | none =>
            have hne : n ≠ head := by
              rintro rfl
              simp [OrderedDict.contains, hn] at hpresent
            simp [hne]
      · rw [if_neg hpresent, OrderedDict.get?_set]
        by_cases hne : n = head
        · subst hne
          have hnone : results.get? n = none := by
            simpa [OrderedDict.contains] using hpresent
          simp [hnone]
        · simp [hne]

theorem get?_fanIn_results (r : PipelineRun) (s : LoopState) (id : String) (scope : List String)
    (plan : FanOutPlan) (schedule : List FanOut.Choice) (n : String) :
    (r.fanIn s id scope plan schedule).results.get? n =
      if n ∈ id :: scope then
        some (r.memberResult id plan (r.iterationResults id scope s.view plan schedule) n)
      else s.results.get? n :=
  OrderedDict.get?_setAll _ _ _ _

theorem get?_fanIn_outputs (r : PipelineRun) (s : LoopState) (id : String) (scope : List String)
    (plan : FanOutPlan) (schedule : List FanOut.Choice) (n : String) :
    (r.fanIn s id scope plan schedule).outputs.get? n =
      if n ∈ id :: scope then
        some (r.memberOutputs plan (r.iterationResults id scope s.view plan schedule) n)
      else s.outputs.get? n :=
  OrderedDict.get?_setAll _ _ _ _

/-! ## Whole runs -/

variable {schedule : String → List FanOut.Choice} {topo : List String}

/-- What every visit preserves holds after the loop; the invariant may speak
about the nodes visited so far. -/
theorem run_invariant {Inv : List String → LoopState → Prop}
    (hstep : ∀ visited id rest s, topo = visited ++ id :: rest → Inv visited s →
      Inv (visited ++ [id]) (r.visit schedule topo s id))
    (hinit : Inv [] .initial) : Inv topo (r.run schedule topo .initial topo) := by
  have hgeneral : ∀ (ids visited : List String) (s : LoopState), topo = visited ++ ids →
      Inv visited s → Inv topo (r.run schedule topo s ids) := by
    intro ids
    induction ids with
    | nil =>
        intro visited s htopo hinv
        rw [List.append_nil] at htopo
        exact htopo ▸ hinv
    | cons id rest ih =>
        intro visited s htopo hinv
        exact ih (visited ++ [id]) _ (by simp [htopo]) (hstep visited id rest s htopo hinv)
  exact hgeneral topo [] .initial rfl hinit

theorem mem_scopeTopo (h : r.spec.topoOrder = some topo) (hedges : r.spec.EdgesKnown)
    (id n : String) : n ∈ r.scopeTopo topo id ↔ r.spec.Path id n := by
  unfold scopeTopo
  rw [List.mem_filter, decide_eq_true_eq, PipelineSpec.mem_descendants_iff]
  refine and_iff_right_of_imp fun hpath => ?_
  rcases hpath.tail_edge with ⟨edge, hedge, rfl, _⟩
  exact (PipelineSpec.topoOrder_mem_iff h _).mpr (hedges edge hedge).2

/-- The result of a loop from which nothing escapes. -/
theorem finish_fields {result : RunResult} (h : r.finish s = .ok result) :
    s.escaped = none ∧ result.nodeResults = s.results ∧ result.errors = s.errors := by
  unfold finish at h
  split at h
  · cases h
  · rename_i hlive
    cases h
    exact ⟨hlive, rfl, rfl⟩

end PipelineRun

/-- How a call ends: with issues, with an exception while building the redactor,
or after the loop. -/
theorem executePipeline_cases (en : Engine) (schedule : String → List FanOut.Choice)
    (spec : PipelineSpec) (secrets : OrderedDict String PyText) (options : ExecutionOptions) :
    (en.validatePipeline spec ≠ [] ∧ en.executePipeline schedule spec secrets options =
        ⟨.initial, .ok (issuesResult spec (en.validatePipeline spec))⟩) ∨
    (en.validatePipeline spec = [] ∧ ∃ topo, spec.topoOrder = some topo ∧
      ((∃ exc, Redactor.ofSecrets secrets.values = .error exc ∧
          en.executePipeline schedule spec secrets options = ⟨.initial, .error exc⟩) ∨
        ∃ redactor, Redactor.ofSecrets secrets.values = .ok redactor ∧
          en.executePipeline schedule spec secrets options =
            ⟨PipelineRun.run ⟨en, spec, ⟨secrets, options, redactor⟩⟩ schedule topo .initial topo,
              PipelineRun.finish ⟨en, spec, ⟨secrets, options, redactor⟩⟩
                (PipelineRun.run ⟨en, spec, ⟨secrets, options, redactor⟩⟩ schedule topo .initial
                  topo)⟩)) := by
  unfold Engine.executePipeline
  cases hissues : en.validatePipeline spec with
  | cons issue issues => exact Or.inl ⟨by simp, rfl⟩
  | nil =>
      right
      rcases (Engine.validated_of_no_issues hissues).sorted with ⟨topo, htopo⟩
      refine ⟨rfl, topo, htopo, ?_⟩
      rw [htopo]
      cases Redactor.ofSecrets secrets.values with
      | error exc => exact Or.inl ⟨exc, rfl, rfl⟩
      | ok redactor => exact Or.inr ⟨redactor, rfl, rfl⟩

end EtlTool
