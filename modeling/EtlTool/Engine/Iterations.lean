import EtlTool.Engine.NodeExecution
import EtlTool.Foundations.FanOut
import EtlTool.Nodes.Iterator

/-!
# Iterations of an iterator's scope

Fanning out executes the scope of an iterator once per value.  An iteration is a
job of the bounded fan-out library: one step prepares the next scope node, the
following step ends its run, so that other iterations can interleave between
the two.  Its outputs are local until the iteration has completed.

Main results:

- Theorem {lit}`iteration_yields`: whatever the scheduler does, an iteration that
  finishes has the result of {lit}`runIteration`, the same scope executed in one
  go.
- Theorem {lit}`Progress.step`: what an iteration has produced at every step.
- Theorem {lit}`activeCount_iterations_le`: never more iterations are active than allowed.
- Theorem {lit}`runIteration_failed`, {lit}`runIteration_completed`: which nodes
  an iteration fails at, and which outputs it has when it completes.
-/

namespace EtlTool

/-! ## Places and events -/

/-- Where a node is executed. -/
inductive Place where
  | top
  | iteration (iteratorId : String) (iter : IterContext)

/-- The iteration context that references see. -/
def Place.iter? : Place → Option IterContext
  | top => none
  | iteration _ iter => some iter

/-- What the engine needs to fan out one iterator. -/
structure FanOutPlan where
  fanIn : FanIn
  cap : Nat
  values : List Value
  cap_pos : 1 ≤ cap

/-- How an iteration ends: with the outputs of all scope nodes, with the
structured error of the scope node it failed at, or with another exception. -/
inductive IterationResult where
  | completed (outputs : OrderedDict String NodeOutputs)
  | failed (nodeId : String) (error : NodeError)
  | escaped (exc : PyException)

/-- What can be observed of a run, in the order in which it happens. -/
inductive Event where
  /-- A node is handed its view and about to be prepared. -/
  | started (place : Place) (id : String) (view : View)
  /-- A prepared node has been run to its end. -/
  | ran (place : Place) (id : String) (view : View)
  /-- A node has failed with a structured error. -/
  | failed (place : Place) (id : String) (error : NodeError)
  /-- The iterations of an iterator are over; cancelled ones have no result. -/
  | gathered (iteratorId : String) (plan : FanOutPlan) (results : List (Option IterationResult))

/-! ## One iteration -/

/-- The state of one iteration: the scope nodes still to execute, the outputs so
far, and whether the first remaining node is running. -/
structure IterationState where
  index : Nat
  value : Value
  remaining : List String
  outputs : OrderedDict String NodeOutputs
  running : Bool

/-- {lit}`ChainMap(local, outputs)`. -/
def chainView (inner : OrderedDict String NodeOutputs) (outer : View) : View := fun id =>
  match inner.get? id with
  | some outputs => some outputs
  | none => outer id

/-- The iteration context of an iteration. -/
def IterationState.iter (s : IterationState) : IterContext where
  value := s.value
  index := s.index

/-- The details that a failed iteration adds to an error. -/
def iterationDetails (rt : Runtime) (redactor : Redactor) (index : Nat) (value : Value)
    (details : Option Fields) : Option Fields :=
  (rt.pyRepr value).map fun text =>
    OrderedDict.setPair "iteration_value"
      (.str (redactor.redact (String.ofList (text.toList.take 200))))
      (OrderedDict.setPair "iteration_index" (.int index) (details.getD []))

namespace PipelineRun

/-- The end of an iteration in which a node raised.  Computing the text of the
value may raise in turn. -/
def iterationFailed (r : PipelineRun) (index : Nat) (value : Value) (id : String) :
    Raised → IterationResult
  | .other exc => .escaped exc
  | .node error =>
      match iterationDetails r.engine.runtime r.ctx.redactor index value error.details with
      | none => .escaped intConversionError
      | some details => .failed id { error with details := some details }

/-- The scope of an iteration executed in one go, from the outputs so far. -/
def runIteration (r : PipelineRun) (outer : View) (iter : IterContext) :
    OrderedDict String NodeOutputs → List String → IterationResult
  | outputs, [] => .completed outputs
  | outputs, id :: rest =>
      match r.executeNode id (chainView outputs outer) (some iter) with
      | .ok result => runIteration r outer iter (outputs.set id result) rest
      | .error raised => r.iterationFailed iter.index iter.value id raised

/-- One step of an iteration: prepare the next node, or end the running one. -/
def iterationStep (r : PipelineRun) (outer : View) (s : IterationState) :
    IterationState ⊕ IterationResult :=
  match s.remaining with
  | [] => .inr (.completed s.outputs)
  | id :: rest =>
      if s.running then
        match r.executeNode id (chainView s.outputs outer) (some s.iter) with
        | .ok result =>
            .inl { s with remaining := rest, outputs := s.outputs.set id result, running := false }
        | .error raised => .inr (r.iterationFailed s.index s.value id raised)
      else
        match r.prepareNode id (chainView s.outputs outer) (some s.iter) with
        | .ok _ => .inl { s with running := true }
        | .error e =>
            .inr (r.iterationFailed s.index s.value id (r.prepareRaised id (some s.iter) e))

/-- Steps that an iteration has left at most. -/
def iterationSize (s : IterationState) : Nat :=
  2 * s.remaining.length + if s.running then 0 else 1

/-- What one step of an iteration can do. -/
theorem iterationStep_cases (r : PipelineRun) (outer : View) (s : IterationState) :
    (s.remaining = [] ∧ r.iterationStep outer s = .inr (.completed s.outputs)) ∨
    ∃ id rest, s.remaining = id :: rest ∧
      ((s.running = false ∧ (∃ prepared,
          r.prepareNode id (chainView s.outputs outer) (some s.iter) = .ok prepared) ∧
          r.iterationStep outer s = .inl { s with running := true }) ∨
        (s.running = true ∧ ∃ result,
          r.executeNode id (chainView s.outputs outer) (some s.iter) = .ok result ∧
          r.iterationStep outer s =
            .inl { s with remaining := rest, outputs := s.outputs.set id result, running := false }) ∨
        (∃ raised, r.executeNode id (chainView s.outputs outer) (some s.iter) = .error raised ∧
          r.iterationStep outer s = .inr (r.iterationFailed s.index s.value id raised))) := by
  unfold iterationStep
  cases hremaining : s.remaining with
  | nil => exact Or.inl ⟨rfl, rfl⟩
  | cons id rest =>
      refine Or.inr ⟨id, rest, rfl, ?_⟩
      by_cases hrunning : s.running = true
      · simp only [hrunning, if_true]
        cases hexec : r.executeNode id (chainView s.outputs outer) (some s.iter) with
        | ok result => exact Or.inr (Or.inl ⟨trivial, result, rfl, rfl⟩)
        | error raised => exact Or.inr (Or.inr ⟨raised, rfl, rfl⟩)
      · simp only [hrunning]
        cases hprepare : r.prepareNode id (chainView s.outputs outer) (some s.iter) with
        | ok prepared =>
            exact Or.inl ⟨by simp, ⟨prepared, rfl⟩, by simp⟩
        | error e =>
            refine Or.inr (Or.inr ⟨r.prepareRaised id (some s.iter) e, ?_, by simp⟩)
            simp [executeNode, hprepare]

/-- An iteration as a job of the fan-out library. -/
def iterationJob (r : PipelineRun) (outer : View) : FanOut.Job IterationState IterationResult where
  step := r.iterationStep outer
  size := iterationSize
  size_lt := by
    intro s s' hstep
    rcases iterationStep_cases r outer s with ⟨_, heq⟩ | ⟨id, rest, hremaining, hcases⟩
    · rw [heq] at hstep
      cases hstep
    · rcases hcases with ⟨hrunning, _, heq⟩ | ⟨hrunning, result, _, heq⟩ | ⟨_, _, heq⟩
      · rw [heq] at hstep
        cases hstep
        simp [iterationSize, hrunning]
      · rw [heq] at hstep
        cases hstep
        simp [iterationSize, hrunning, hremaining]
        omega
      · rw [heq] at hstep
        cases hstep

/-- An iteration that finishes has the result of executing its remaining scope
in one go. -/
theorem iteration_yields (r : PipelineRun) (outer : View) (s : IterationState) :
    (r.iterationJob outer).Yields s (r.runIteration outer s.iter s.outputs s.remaining) := by
  induction hn : iterationSize s using Nat.strongRecOn generalizing s with
  | ind n ih =>
      subst hn
      have hsize : ∀ s', r.iterationStep outer s = .inl s' → iterationSize s' < iterationSize s :=
        fun s' hstep => (r.iterationJob outer).size_lt hstep
      rcases iterationStep_cases r outer s with ⟨hremaining, heq⟩ | ⟨id, rest, hremaining, hcases⟩
      · rw [hremaining]
        exact FanOut.Job.yields_of_step_inr heq
      · rcases hcases with ⟨_, _, heq⟩ | ⟨_, result, hexec, heq⟩ | ⟨raised, hexec, heq⟩
        · have hrest := ih _ (hsize _ heq) _ rfl
          exact FanOut.Job.Yields.head heq hrest
        · have hrest := ih _ (hsize _ heq) _ rfl
          rw [hremaining, runIteration, hexec]
          exact FanOut.Job.Yields.head heq hrest
        · rw [hremaining, runIteration, hexec]
          exact FanOut.Job.yields_of_step_inr heq

end PipelineRun

/-! ## The iterations of one fan-out -/

namespace PipelineRun

/-- The outputs with which an iteration starts. -/
def iterationOutputs (iteratorId : String) (iter : IterContext) :
    OrderedDict String NodeOutputs :=
  .singleton iteratorId (.singleton "out" [iterationRecord iter.value iter.index])

/-- The state in which an iteration starts. -/
def iterationStart (iteratorId : String) (scope : List String) (iter : IterContext) :
    IterationState where
  index := iter.index
  value := iter.value
  remaining := scope
  outputs := iterationOutputs iteratorId iter
  running := false

/-- {lit}`enumerate(values)` as iteration contexts. -/
def iterContexts (values : List Value) : List IterContext :=
  values.zipIdx.map fun pair => ⟨pair.1, pair.2⟩

/-- Prepare an iterator and compute its values. -/
def planFanOut (r : PipelineRun) (id : String) (view : View) : Except Raised FanOutPlan :=
  match r.prepareNode id view none with
  | .error e => .error (r.prepareRaised id none e)
  | .ok prepared =>
      match prepared.cls.fanOut with
      | none => .error (.other ⟨"AttributeError", some "get_values"⟩)
      | some methods =>
          match methods.getValues prepared.config prepared.inputs prepared.ctx with
          | .error raised => .error raised
          | .ok values =>
              .ok {
                fanIn := methods.fanIn prepared.config
                cap := (methods.maxConcurrency prepared.config).getD r.ctx.options.maxConcurrency
                values := values
                cap_pos := by
                  cases h : methods.maxConcurrency prepared.config with
                  | none => exact r.ctx.options.maxConcurrency_pos
                  | some n => exact methods.maxConcurrency_pos _ n h }

/-- A semaphore of {lit}`cap` permits; without {lit}`continue_on_error` a task
group that cancels the other iterations after a failure. -/
def fanOutPolicy (r : PipelineRun) (plan : FanOutPlan) : FanOut.Policy IterationResult where
  cap := plan.cap
  cap_pos := plan.cap_pos
  failFast := !r.ctx.options.continueOnError
  fails := fun
    | .completed _ => false
    | _ => true

/-- The iterations after the scheduler has let all of them end. -/
def iterate (r : PipelineRun) (iteratorId : String) (scope : List String) (outer : View)
    (plan : FanOutPlan) (schedule : List FanOut.Choice) : FanOut.Pool IterationState IterationResult :=
  (FanOut.Pool.initial ((iterContexts plan.values).map (iterationStart iteratorId scope))).complete
    (r.iterationJob outer) (r.fanOutPolicy plan) schedule

/-- What is observed of one step of an iteration. -/
def iterationEvents (r : PipelineRun) (iteratorId : String) (outer : View) (s : IterationState) :
    List Event :=
  match s.remaining with
  | [] => []
  | id :: _ =>
      let place := Place.iteration iteratorId s.iter
      let view := chainView s.outputs outer
      (if s.running then Event.ran place id view else Event.started place id view) ::
        match r.iterationStep outer s with
        | .inr (.failed failedId error) => [Event.failed place failedId error]
        | _ => []

/-- The results of the iterations, in index order. -/
def iterationResults (r : PipelineRun) (iteratorId : String) (scope : List String) (outer : View)
    (plan : FanOutPlan) (schedule : List FanOut.Choice) : List (Option IterationResult) :=
  (r.iterate iteratorId scope outer plan schedule).slots.map FanOut.Slot.result?

/-- What is observed of the iterations, in the order in which their steps are
interleaved. -/
def fanOutEvents (r : PipelineRun) (iteratorId : String) (scope : List String) (outer : View)
    (plan : FanOutPlan) (schedule : List FanOut.Choice) : List Event :=
  (r.iterate iteratorId scope outer plan schedule).trace.flatMap fun step =>
    r.iterationEvents iteratorId outer step.2

end PipelineRun

/-! ## Results of the iterations -/

/-- The exception of the first iteration that ended with one. -/
def firstEscape? (results : List (Option IterationResult)) : Option PyException :=
  results.findSome? fun
    | some (.escaped exc) => some exc
    | _ => none

/-- Failed node and error of every failed iteration, in index order. -/
def iterationFailures (results : List (Option IterationResult)) : List (String × NodeError) :=
  results.filterMap fun
    | some (.failed id error) => some (id, error)
    | _ => none

/-- Index and outputs of every completed iteration, in index order. -/
def completedIterations (results : List (Option IterationResult)) :
    List (Nat × OrderedDict String NodeOutputs) :=
  results.zipIdx.filterMap fun pair =>
    match pair.1 with
    | some (.completed outputs) => some (pair.2, outputs)
    | _ => none

/-- Index and outputs of one scope node in the completed iterations. -/
def contributions (results : List (Option IterationResult)) (member : String) :
    List (Nat × NodeOutputs) :=
  (completedIterations results).filterMap fun pair =>
    (pair.2.get? member).map fun outputs => (pair.1, outputs)

/-! ## Fan-in -/

/-- One fanned-in port. -/
def fanInPort (fanIn : FanIn) (values : List Value) (contributions : List (Nat × NodeOutputs))
    (port : String) : Records :=
  match fanIn with
  | .concat => contributions.flatMap fun pair => (pair.2.get? port).getD []
  | .keyed =>
      contributions.map fun pair =>
        [("key", values.getD pair.1 .none),
          ("records", .list (((pair.2.get? port).getD []).map Value.dict))]

/-- The fanned-in outputs of one node: its declared ports and those it used. -/
def fanInOutputs (plan : FanOutPlan) (declared : List String)
    (contributions : List (Nat × NodeOutputs)) : NodeOutputs :=
  .ofList ((declared ++ contributions.flatMap fun pair => pair.2.keys).map fun port =>
    (port, fanInPort plan.fanIn plan.values contributions port))

/-- The port read after a fan-in: every declared or contributed port is stored. -/
theorem get?_fanInOutputs (plan : FanOutPlan) (declared : List String)
    (contributions : List (Nat × NodeOutputs)) (port : String) :
    (fanInOutputs plan declared contributions).get? port =
      if port ∈ declared ++ contributions.flatMap (fun pair => pair.2.keys) then
        some (fanInPort plan.fanIn plan.values contributions port)
      else none :=
  OrderedDict.get?_ofList_map _ _ port

/-- Every declared port is stored after a fan-in. -/
theorem contains_fanInOutputs (plan : FanOutPlan) {declared : List String}
    (contributions : List (Nat × NodeOutputs)) {port : String} (h : port ∈ declared) :
    (fanInOutputs plan declared contributions).contains port = true := by
  unfold OrderedDict.contains
  rw [get?_fanInOutputs, if_pos (List.mem_append_left _ h)]
  rfl

/-! ## What an iteration has produced -/

namespace PipelineRun

/-- An iteration holds its own record and the outputs of the scope nodes it has
passed. -/
structure Progress (r : PipelineRun) (iteratorId : String) (scope : List String)
    (iter : IterContext) (s : IterationState) : Prop where
  same_iter : s.iter = iter
  own : s.outputs.get? iteratorId =
    some (.singleton "out" [iterationRecord iter.value iter.index])
  passed : ∃ passed, scope = passed ++ s.remaining ∧
    (∀ n ∈ passed, ∃ view outputs,
      s.outputs.get? n = some outputs ∧ r.executeNode n view (some iter) = .ok outputs) ∧
    ∀ n, n ≠ iteratorId → n ∉ passed → s.outputs.get? n = none

variable {r : PipelineRun} {iteratorId : String} {scope : List String} {outer : View}

/-- An iteration starts out with the progress invariant. -/
theorem Progress.start (iter : IterContext) :
    Progress r iteratorId scope iter (iterationStart iteratorId scope iter) where
  same_iter := rfl
  own := OrderedDict.get?_singleton_self _ _
  passed := ⟨[], rfl, by simp, fun _ hne _ => OrderedDict.get?_singleton_of_ne hne _⟩

/-- One step of an iteration keeps its progress. -/
theorem Progress.step (hown : iteratorId ∉ scope) {iter : IterContext} {s s' : IterationState}
    (h : Progress r iteratorId scope iter s) (hstep : r.iterationStep outer s = .inl s') :
    Progress r iteratorId scope iter s' := by
  rcases iterationStep_cases r outer s with ⟨_, heq⟩ | ⟨id, rest, hremaining, hcases⟩
  · rw [heq] at hstep
    cases hstep
  · rcases hcases with ⟨_, _, heq⟩ | ⟨_, result, hexec, heq⟩ | ⟨_, _, heq⟩
    · rw [heq] at hstep
      cases hstep
      exact ⟨h.same_iter, h.own, h.passed⟩
    · rw [heq] at hstep
      cases hstep
      rcases h.passed with ⟨passed, hscope, hpassed, honly⟩
      rw [hremaining] at hscope
      have hne : iteratorId ≠ id := by
        rintro rfl
        exact hown (by simp [hscope])
      refine ⟨h.same_iter, ?_, passed ++ [id], by simp [hscope], ?_, ?_⟩
      · rw [OrderedDict.get?_set_of_ne _ hne]
        exact h.own
      · intro n hn
        rw [OrderedDict.get?_set]
        by_cases hnid : n = id
        · subst hnid
          exact ⟨_, result, if_pos rfl, h.same_iter ▸ hexec⟩
        · have hold : n ∈ passed := by simpa [hnid] using hn
          rcases hpassed n hold with ⟨view, outputs, hget, hout⟩
          exact ⟨view, outputs, by rw [if_neg hnid]; exact hget, hout⟩
      · intro n hne hn
        rw [List.mem_append, List.mem_singleton, not_or] at hn
        rw [OrderedDict.get?_set_of_ne _ hn.2]
        exact honly n hne hn.1
    · rw [heq] at hstep
      cases hstep

/-- Every state an iteration reaches keeps the progress invariant. -/
theorem Progress.of_reaches (hown : iteratorId ∉ scope) {iter : IterContext} {s : IterationState}
    (h : (r.iterationJob outer).Reaches (iterationStart iteratorId scope iter) s) :
    Progress r iteratorId scope iter s := by
  induction h with
  | refl => exact Progress.start iter
  | tail _ hstep ih => exact ih.step hown hstep

/-! ## What an iteration results in -/

/-- A completed iteration adds the outputs of every scope node and of no other. -/
theorem runIteration_completed {iter : IterContext} {outputs final : OrderedDict String NodeOutputs}
    (h : r.runIteration outer iter outputs scope = .completed final) :
    (∀ n ∉ scope, final.get? n = outputs.get? n) ∧ ∀ n ∈ scope, (final.get? n).isSome := by
  induction scope generalizing outputs with
  | nil =>
      cases h
      simp
  | cons id rest ih =>
      unfold runIteration at h
      cases hexec : r.executeNode id (chainView outputs outer) (some iter) with
      | error raised =>
          rw [hexec] at h
          cases raised with
          | other exc => simp [iterationFailed] at h
          | node error =>
              simp only [iterationFailed] at h
              split at h <;> cases h
      | ok result =>
          rw [hexec] at h
          rcases ih h with ⟨hframe, hscope⟩
          constructor
          · intro n hn
            simp only [List.mem_cons, not_or] at hn
            rw [hframe n hn.2, OrderedDict.get?_set_of_ne _ hn.1]
          · intro n hn
            by_cases hrest : n ∈ rest
            · exact hscope n hrest
            · have hnid : n = id := by simpa [hrest] using hn
              subst hnid
              rw [hframe n hrest]
              simp

/-- An iteration fails at a scope node. -/
theorem runIteration_failed {iter : IterContext} {outputs : OrderedDict String NodeOutputs}
    {id : String} {error : NodeError}
    (h : r.runIteration outer iter outputs scope = .failed id error) : id ∈ scope := by
  induction scope generalizing outputs with
  | nil => cases h
  | cons head rest ih =>
      unfold runIteration at h
      cases hexec : r.executeNode head (chainView outputs outer) (some iter) with
      | ok result =>
          rw [hexec] at h
          exact List.mem_cons_of_mem head (ih h)
      | error raised =>
          rw [hexec] at h
          cases raised with
          | other exc => simp [iterationFailed] at h
          | node error =>
              simp only [iterationFailed] at h
              split at h
              · cases h
              · cases h
                exact List.mem_cons_self

/-- The iteration at an index, executed in one go. -/
def iterationAt (r : PipelineRun) (iteratorId : String) (scope : List String) (outer : View)
    (iter : IterContext) : IterationResult :=
  r.runIteration outer iter (iterationOutputs iteratorId iter) scope

/-- An iteration yields its result, in however many steps. -/
theorem iterationStart_yields (r : PipelineRun) (iteratorId : String) (scope : List String)
    (outer : View) (iter : IterContext) :
    (r.iterationJob outer).Yields (iterationStart iteratorId scope iter)
      (r.iterationAt iteratorId scope outer iter) :=
  iteration_yields r outer (iterationStart iteratorId scope iter)

/-- The contexts of the iterations carry value and index. -/
theorem iterContexts_getElem? (values : List Value) (i : Nat) :
    (iterContexts values)[i]? = values[i]?.map fun value => ⟨value, i⟩ := by
  unfold iterContexts
  rw [List.getElem?_map, List.getElem?_zipIdx]
  cases values[i]? <;> simp

private theorem length_iterContexts (values : List Value) :
    (iterContexts values).length = values.length := by
  simp [iterContexts]

variable {plan : FanOutPlan} {schedule : List FanOut.Choice}

/-- The pool of a fan-out agrees with its iterations. -/
theorem iterate_tracks (r : PipelineRun) (iteratorId : String) (scope : List String) (outer : View)
    (plan : FanOutPlan) (schedule : List FanOut.Choice) :
    FanOut.Pool.Tracks (r.iterationJob outer) (r.fanOutPolicy plan)
      ((iterContexts plan.values).map (iterationStart iteratorId scope))
      (r.iterate iteratorId scope outer plan schedule) :=
  FanOut.Pool.tracks_complete _ _ _ _

/-- Whatever the schedule, an iteration that has a result has the one of its
execution in one go. -/
theorem iterationResults_getElem? {i : Nat} {result : IterationResult}
    (h : (r.iterationResults iteratorId scope outer plan schedule)[i]? = some (some result)) :
    ∃ value, plan.values[i]? = some value ∧
      result = r.iterationAt iteratorId scope outer ⟨value, i⟩ := by
  have htracks := iterate_tracks r iteratorId scope outer plan schedule
  unfold iterationResults at h
  rw [List.getElem?_map, Option.map_eq_some_iff] at h
  rcases h with ⟨slot, hslot, hresult⟩
  have hlt : i < plan.values.length := by
    have := (List.getElem?_eq_some_iff.mp hslot).1
    rw [htracks.length, List.length_map, length_iterContexts] at this
    exact this
  have hvalue : plan.values[i]? = some plan.values[i] := List.getElem?_eq_getElem hlt
  have hstate : ((iterContexts plan.values).map (iterationStart iteratorId scope))[i]? =
      some (iterationStart iteratorId scope ⟨plan.values[i], i⟩) := by
    rw [List.getElem?_map, iterContexts_getElem?, hvalue]
    rfl
  have hagree := htracks.slot i _ _ hstate hslot
  cases slot with
  | finished res =>
      cases hresult
      exact ⟨plan.values[i], hvalue, hagree.unique (iterationStart_yields r _ _ _ _)⟩
  | waiting s => cases hresult
  | active s => cases hresult
  | cancelled => cases hresult

/-- There is one result for each value. -/
theorem length_iterationResults (r : PipelineRun) (iteratorId : String) (scope : List String)
    (outer : View) (plan : FanOutPlan) (schedule : List FanOut.Choice) :
    (r.iterationResults iteratorId scope outer plan schedule).length = plan.values.length := by
  have htracks := iterate_tracks r iteratorId scope outer plan schedule
  rw [iterationResults, List.length_map, htracks.length, List.length_map, length_iterContexts]

/-- A fan-out that was not aborted has every iteration's result. -/
theorem iterationResults_of_calm
    (hcalm : (r.fanOutPolicy plan).aborting
      (r.iterate iteratorId scope outer plan schedule).slots = false) :
    r.iterationResults iteratorId scope outer plan schedule =
      (iterContexts plan.values).map fun iter => some (r.iterationAt iteratorId scope outer iter) := by
  have hgather := FanOut.Pool.complete_gather hcalm
    (fun s => r.iterationAt iteratorId scope outer s.iter) (by
      intro s hs
      rcases List.mem_map.mp hs with ⟨iter, _, rfl⟩
      exact iterationStart_yields r iteratorId scope outer iter)
  rw [iterationResults, iterate, hgather, List.map_map, List.map_map]
  rfl

/-- With {lit}`continue_on_error` no iteration is cancelled. -/
theorem iterationResults_of_continue (hcontinue : r.ctx.options.continueOnError = true) :
    r.iterationResults iteratorId scope outer plan schedule =
      (iterContexts plan.values).map fun iter => some (r.iterationAt iteratorId scope outer iter) :=
  iterationResults_of_calm
    (FanOut.Pool.aborting_of_not_failFast (by simp [fanOutPolicy, hcontinue]) _)

/-- Never more iterations are active than the plan allows. -/
theorem activeCount_iterations_le (r : PipelineRun) (iteratorId : String) (scope : List String)
    (outer : View) (plan : FanOutPlan) (schedule : List FanOut.Choice) :
    ((FanOut.Pool.initial ((iterContexts plan.values).map (iterationStart iteratorId scope))).run
      (r.iterationJob outer) (r.fanOutPolicy plan) schedule).activeCount ≤ plan.cap := by
  apply FanOut.Pool.run_activeCount_le (π := r.fanOutPolicy plan)
  rw [FanOut.Pool.initial_activeCount]
  exact Nat.zero_le _

/-- Every observed step of an iteration belongs to a value and has its progress. -/
theorem iterate_trace (hown : iteratorId ∉ scope) {i : Nat} {s : IterationState}
    (h : (i, s) ∈ (r.iterate iteratorId scope outer plan schedule).trace) :
    ∃ value, plan.values[i]? = some value ∧ Progress r iteratorId scope ⟨value, i⟩ s := by
  have htracks := iterate_tracks r iteratorId scope outer plan schedule
  rcases htracks.trace i s h with ⟨s₀, hstart, hreach⟩
  rw [List.getElem?_map, iterContexts_getElem?] at hstart
  cases hvalue : plan.values[i]? with
  | none => simp [hvalue] at hstart
  | some value =>
      rw [hvalue] at hstart
      cases hstart
      exact ⟨value, rfl, Progress.of_reaches hown hreach⟩

/-! ## What is observed of the iterations -/

/-- A node that is started in an iteration gets the outputs so far over those of
the outer state. -/
theorem mem_fanOutEvents_started (hown : iteratorId ∉ scope) {place : Place} {n : String}
    {view : View} (h : .started place n view ∈ r.fanOutEvents iteratorId scope outer plan schedule) :
    ∃ (i : Nat) (value : Value) (s : IterationState) (rest : List String),
      plan.values[i]? = some value ∧ Progress r iteratorId scope ⟨value, i⟩ s ∧
      s.remaining = n :: rest ∧ place = .iteration iteratorId ⟨value, i⟩ ∧
      view = chainView s.outputs outer := by
  unfold fanOutEvents at h
  rw [List.mem_flatMap] at h
  rcases h with ⟨⟨i, s⟩, hmem, hevent⟩
  rcases iterate_trace hown hmem with ⟨value, hvalue, hprogress⟩
  unfold iterationEvents at hevent
  split at hevent
  · cases hevent
  · rename_i id rest hremaining
    rcases List.mem_cons.mp hevent with heq | hevent
    · split at heq
      · cases heq
      · cases heq
        exact ⟨i, value, s, rest, hvalue, hprogress, hremaining,
          by rw [hprogress.same_iter], rfl⟩
    · split at hevent <;> simp at hevent

/-- A node that is observed to fail in an iteration is the failed node of its
result. -/
theorem mem_fanOutEvents_failed (hown : iteratorId ∉ scope) {place : Place} {n : String}
    {error : NodeError}
    (h : .failed place n error ∈ r.fanOutEvents iteratorId scope outer plan schedule) :
    ∃ (i : Nat) (value : Value), plan.values[i]? = some value ∧
      place = .iteration iteratorId ⟨value, i⟩ ∧
      (r.iterationResults iteratorId scope outer plan schedule)[i]? =
        some (some (.failed n error)) := by
  have htracks := iterate_tracks r iteratorId scope outer plan schedule
  unfold fanOutEvents at h
  rw [List.mem_flatMap] at h
  rcases h with ⟨⟨i, s⟩, hmem, hevent⟩
  rcases iterate_trace hown hmem with ⟨value, hvalue, hprogress⟩
  unfold iterationEvents at hevent
  split at hevent
  · cases hevent
  · rcases List.mem_cons.mp hevent with heq | hevent
    · split at heq <;> cases heq
    · split at hevent
      · rename_i failedId failure hstep
        rw [List.mem_singleton] at hevent
        cases hevent
        have hslot := htracks.ended i s _ hmem hstep
        refine ⟨i, value, hvalue, by rw [hprogress.same_iter], ?_⟩
        rw [iterationResults, List.getElem?_map, hslot]
        rfl
      · cases hevent

/-- The failed node of an iteration's result was observed to fail. -/
theorem failed_mem_fanOutEvents (hown : iteratorId ∉ scope) {i : Nat} {n : String}
    {error : NodeError}
    (h : (r.iterationResults iteratorId scope outer plan schedule)[i]? =
      some (some (.failed n error))) :
    ∃ value, .failed (.iteration iteratorId ⟨value, i⟩) n error ∈
      r.fanOutEvents iteratorId scope outer plan schedule := by
  have htracks := iterate_tracks r iteratorId scope outer plan schedule
  unfold iterationResults at h
  rw [List.getElem?_map, Option.map_eq_some_iff] at h
  rcases h with ⟨slot, hslot, hresult⟩
  cases slot with
  | finished res =>
      cases hresult
      rcases htracks.finished i _ hslot with ⟨s, hmem, hstep⟩
      rcases iterate_trace hown hmem with ⟨value, _, hprogress⟩
      refine ⟨value, ?_⟩
      unfold fanOutEvents
      rw [List.mem_flatMap]
      refine ⟨(i, s), hmem, ?_⟩
      have hstep' : r.iterationStep outer s = .inr (.failed n error) := hstep
      unfold iterationEvents
      cases hremaining : s.remaining with
      | nil => simp [iterationStep, hremaining] at hstep'
      | cons id rest => simp [hstep', hprogress.same_iter]
  | waiting s => cases hresult
  | active s => cases hresult
  | cancelled => cases hresult

end PipelineRun

/-! ## Completed and failed iterations -/

/-- The completed iterations, by their index. -/
theorem mem_completedIterations {results : List (Option IterationResult)} {i : Nat}
    {outputs : OrderedDict String NodeOutputs} :
    (i, outputs) ∈ completedIterations results ↔ results[i]? = some (some (.completed outputs)) := by
  unfold completedIterations
  rw [List.mem_filterMap]
  constructor
  · rintro ⟨⟨result, j⟩, hmem, hsome⟩
    have hj := List.mem_zipIdx_iff_getElem?.mp hmem
    split at hsome
    · rename_i outputs' heq
      simp only at heq
      cases hsome
      rw [hj, heq]
    · cases hsome
  · intro h
    exact ⟨(some (.completed outputs), i), List.mem_zipIdx_iff_getElem?.mpr h, rfl⟩

/-- The failed iterations, by their index. -/
theorem mem_iterationFailures {results : List (Option IterationResult)} {id : String}
    {error : NodeError} :
    (id, error) ∈ iterationFailures results ↔
      ∃ i : Nat, results[i]? = some (some (.failed id error)) := by
  unfold iterationFailures
  rw [List.mem_filterMap]
  constructor
  · rintro ⟨result, hmem, hsome⟩
    split at hsome
    · cases hsome
      exact List.mem_iff_getElem?.mp hmem
    · cases hsome
  · rintro ⟨i, hi⟩
    exact ⟨_, List.mem_of_getElem? hi, rfl⟩

end EtlTool
