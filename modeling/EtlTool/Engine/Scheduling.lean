import EtlTool.Engine.Gathering

/-!
# Schedules of the iterations

Iterations are interleaved in any order that the semaphore allows, and they share
nothing but the outputs from before the fan-out.  So every schedule has the
results of the sequential execution, in index order.  Without
{lit}`continue_on_error` this holds as long as no iteration fails, and whether one
fails does not depend on the schedule either.

Main results:

- Theorem {lit}`iterationResults_eq_sequential`: a fan-out that is not aborted has
  the results of executing the iterations one after another.
- Theorem {lit}`run_agrees`: the states after the loop under two schedules differ
  in their traces only, or the loop has stopped early under both.
- Theorem {lit}`executePipeline_schedule_independent`: what callers see of this, and
  what the fanned-in outputs are made of.
-/

namespace EtlTool

open PipelineRun

namespace PipelineRun

/-! ## The sequential reference -/

/-- The iterations one after another in index order; without
{lit}`continue_on_error` nothing starts after the first that does not complete. -/
def sequentialIterations (r : PipelineRun) (iteratorId : String) (scope : List String)
    (outer : View) : List IterContext → List (Option IterationResult)
  | [] => []
  | iter :: rest =>
      match r.iterationAt iteratorId scope outer iter, r.ctx.options.continueOnError with
      | .completed final, _ =>
          some (.completed final) :: sequentialIterations r iteratorId scope outer rest
      | result, true => some result :: sequentialIterations r iteratorId scope outer rest
      | result, false => some result :: rest.map fun _ => none

variable {r : PipelineRun} {iteratorId id : String} {scope : List String} {outer : View}
  {plan : FanOutPlan} {schedule : List FanOut.Choice} {results : List (Option IterationResult)}

private theorem sequentialIterations_of_continue (hcontinue : r.ctx.options.continueOnError = true)
    (iters : List IterContext) :
    r.sequentialIterations iteratorId scope outer iters =
      iters.map fun iter => some (r.iterationAt iteratorId scope outer iter) := by
  induction iters with
  | nil => rfl
  | cons iter rest ih =>
      simp only [sequentialIterations, hcontinue, List.map_cons, ← ih]
      cases r.iterationAt iteratorId scope outer iter <;> rfl

private theorem sequentialIterations_of_completed {iters : List IterContext}
    (h : ∀ iter ∈ iters, ∃ final, r.iterationAt iteratorId scope outer iter = .completed final) :
    r.sequentialIterations iteratorId scope outer iters =
      iters.map fun iter => some (r.iterationAt iteratorId scope outer iter) := by
  induction iters with
  | nil => rfl
  | cons iter rest ih =>
      rcases h iter List.mem_cons_self with ⟨final, hfinal⟩
      simp only [sequentialIterations, hfinal, List.map_cons,
        ih fun other hother => h other (List.mem_cons_of_mem iter hother)]

/-! ## One fan-out -/

/-- No iteration has failed or escaped. -/
def CalmResults (results : List (Option IterationResult)) : Prop :=
  firstEscape? results = none ∧ iterationFailures results = []

/-- Without {lit}`continue_on_error` a fan-out aborts exactly when some iteration
does not complete, whatever the schedule. -/
theorem aborting_iff_not_completed (hmode : r.ctx.options.continueOnError = false)
    (plan : FanOutPlan) (schedule : List FanOut.Choice) :
    (r.fanOutPolicy plan).aborting (r.iterate iteratorId scope outer plan schedule).slots = true ↔
      ∃ iter ∈ iterContexts plan.values,
        ∀ final, r.iterationAt iteratorId scope outer iter ≠ .completed final := by
  have hfails : ∀ result : IterationResult, (r.fanOutPolicy plan).fails result = true ↔
      ∀ final, result ≠ .completed final := by
    intro result
    cases result <;> simp [fanOutPolicy]
  unfold iterate
  rw [FanOut.Pool.complete_fails_iff (by simp [fanOutPolicy, hmode])]
  constructor
  · rintro ⟨s, hmem, result, hyields, hfailed⟩
    rcases List.mem_map.mp hmem with ⟨iter, hiter, rfl⟩
    rw [hyields.unique (iterationStart_yields r iteratorId scope outer iter), hfails] at hfailed
    exact ⟨iter, hiter, hfailed⟩
  · rintro ⟨iter, hiter, hfailed⟩
    exact ⟨_, List.mem_map_of_mem hiter, _, iterationStart_yields r iteratorId scope outer iter,
      (hfails _).mpr hfailed⟩

/-- A fan-out that is not aborted has the results of the iterations one after
another. -/
theorem iterationResults_eq_sequential
    (hcalm : (r.fanOutPolicy plan).aborting
      (r.iterate iteratorId scope outer plan schedule).slots = false) :
    r.iterationResults iteratorId scope outer plan schedule =
      r.sequentialIterations iteratorId scope outer (iterContexts plan.values) := by
  rw [iterationResults_of_calm hcalm]
  cases hmode : r.ctx.options.continueOnError with
  | true => rw [sequentialIterations_of_continue hmode]
  | false =>
      rw [sequentialIterations_of_completed]
      intro iter hiter
      by_contra hnone
      have habort := (aborting_iff_not_completed hmode plan schedule).mpr
        ⟨iter, hiter, fun final hfinal => hnone ⟨final, hfinal⟩⟩
      rw [hcalm] at habort
      cases habort

/-- Calm results come from a fan-out that was not aborted. -/
theorem not_aborting_of_calm
    (hcalm : CalmResults (r.iterationResults iteratorId scope outer plan schedule)) :
    (r.fanOutPolicy plan).aborting (r.iterate iteratorId scope outer plan schedule).slots =
      false := by
  rw [Bool.eq_false_iff]
  intro habort
  rcases (FanOut.Pool.aborting_iff _).mp habort with ⟨_, i, result, hi, hfails⟩
  have hresult : (r.iterationResults iteratorId scope outer plan schedule)[i]? =
      some (some result) := by
    rw [iterationResults, List.getElem?_map, hi]
    rfl
  cases result with
  | completed final => simp [fanOutPolicy] at hfails
  | failed f error =>
      have hmem := mem_iterationFailures.mpr ⟨i, hresult⟩
      rw [hcalm.2] at hmem
      cases hmem
  | escaped exc =>
      have hnone := hcalm.1
      unfold firstEscape? at hnone
      rw [List.findSome?_eq_none_iff] at hnone
      cases hnone _ (List.mem_of_getElem? hresult)

/-- If one schedule has calm results, then every schedule has the same. -/
theorem iterationResults_eq_of_calm {schedule' : List FanOut.Choice}
    (hcalm : CalmResults (r.iterationResults iteratorId scope outer plan schedule)) :
    r.iterationResults iteratorId scope outer plan schedule' =
      r.iterationResults iteratorId scope outer plan schedule := by
  have hnot := not_aborting_of_calm hcalm
  have hnot' : (r.fanOutPolicy plan).aborting
      (r.iterate iteratorId scope outer plan schedule').slots = false := by
    cases hmode : r.ctx.options.continueOnError with
    | true => exact FanOut.Pool.aborting_of_not_failFast (by simp [fanOutPolicy, hmode]) _
    | false =>
        rw [Bool.eq_false_iff] at hnot ⊢
        intro habort
        exact hnot ((aborting_iff_not_completed hmode plan schedule).mpr
          ((aborting_iff_not_completed hmode plan schedule').mp habort))
  rw [iterationResults_eq_sequential hnot, iterationResults_eq_sequential hnot']

end PipelineRun

/-! ## Whole runs -/

/-- The state without its trace. -/
def LoopState.core (s : LoopState) : LoopState :=
  { s with trace := [] }

/-- An exception is on its way out, or the run aborts because of an error. -/
def LoopState.Stopped (s : LoopState) : Prop :=
  s.escaped ≠ none ∨ (s.abort = true ∧ s.errors ≠ [])

namespace PipelineRun

variable {r : PipelineRun} {topo visited rest : List String} {s t : LoopState} {id : String}
  {schedules schedules' : String → List FanOut.Choice}

/-- Visits under two schedules agree up to the trace if the iterations do. -/
theorem visit_core (hcore : s.core = t.core)
    (hsame : s.Ready id → r.engine.IsIterator r.spec id → ∀ plan,
      r.planFanOut id s.view = .ok plan →
      r.iterationResults id (r.scopeTopo topo id) s.view plan (schedules' id) =
        r.iterationResults id (r.scopeTopo topo id) s.view plan (schedules id)) :
    (r.visit schedules topo s id).core = (r.visit schedules' topo t id).core := by
  rcases s with ⟨outputs, results, errors, abort, escaped, events⟩
  rcases t with ⟨_, _, _, _, _, events'⟩
  simp only [LoopState.core, LoopState.mk.injEq, and_true] at hcore
  rcases hcore with ⟨rfl, rfl, rfl, rfl, rfl⟩
  unfold visit
  by_cases hescaped : escaped.isSome = true
  · simp [hescaped, LoopState.core]
  · by_cases hresult : results.contains id = true
    · simp [hescaped, hresult, LoopState.core]
    · by_cases habort : abort = true
      · simp [hescaped, hresult, habort, LoopState.core]
      · simp only [hescaped, hresult, habort]
        cases hnode : r.spec.node? id with
        | none => rfl
        | some node =>
            by_cases hfans : r.engine.fansOut node.type = true
            · have hready : LoopState.Ready ⟨outputs, results, errors, abort, escaped, events⟩ id :=
                ⟨by simpa using hescaped, by simpa [OrderedDict.contains] using hresult,
                  by simpa using habort⟩
              have hiter : r.engine.IsIterator r.spec id := ⟨node, hnode, hfans⟩
              simp only [hfans, if_true, visitIterator, LoopState.view] at hsame ⊢
              cases hplan : r.planFanOut id outputs.get? with
              | error raised => cases raised <;> rfl
              | ok plan =>
                  have hresults := hsame hready hiter plan hplan
                  simp only [hresults]
                  cases firstEscape? (r.iterationResults id (r.scopeTopo topo id) outputs.get? plan
                      (schedules id)) with
                  | some exc => rfl
                  | none =>
                      cases hfailures : iterationFailures (r.iterationResults id
                          (r.scopeTopo topo id) outputs.get? plan (schedules id)) <;>
                        cases r.ctx.options.continueOnError <;>
                        simp [LoopState.core, abortIterations, fanIn, LoopState.view, hresults,
                          hfailures]
            · simp only [hfans, Bool.false_eq_true, if_false, visitNode, LoopState.view]
              cases r.executeNode id outputs.get? none with
              | ok out => rfl
              | error raised => cases raised <;> rfl

/-! ## Loops that have stopped -/

/-- Stopped loops stay stopped and have no further outputs. -/
theorem Visit.stopped {schedule : List FanOut.Choice} {scope : List String} {s' : LoopState}
    (hvisit : r.Visit schedule scope s id s') (h : s.Stopped) :
    s'.Stopped ∧ s'.outputs = s.outputs := by
  have hbusy : ¬ s.Ready id := by
    intro hready
    rcases h with hescaped | ⟨habort, _⟩
    · exact hescaped hready.escaped
    · rw [hready.abort] at habort
      cases habort
  cases hvisit with
  | idle _ => exact ⟨h, rfl⟩
  | aborted _ _ _ => exact ⟨h, rfl⟩
  | unknown hready _ => exact absurd hready hbusy
  | succeeded hready _ _ _ => exact absurd hready hbusy
  | failed hready _ _ _ => exact absurd hready hbusy
  | escaped hready _ _ _ => exact absurd hready hbusy
  | planFailed hready _ _ _ => exact absurd hready hbusy
  | planEscaped hready _ _ _ => exact absurd hready hbusy
  | iterationEscaped hready _ _ _ _ _ => exact absurd hready hbusy
  | iterationFailed hready _ _ _ _ _ _ _ _ => exact absurd hready hbusy
  | fannedIn hready _ _ _ _ _ => exact absurd hready hbusy

/-- Without {lit}`continue_on_error` a fan-out with other than calm results stops the
loop and has no outputs. -/
theorem Visit.stops {schedule : List FanOut.Choice} {scope : List String} {s' : LoopState}
    (hvisit : r.Visit schedule scope s id s') (hmode : r.ctx.options.continueOnError = false)
    (hready : s.Ready id) (hiter : r.engine.IsIterator r.spec id) {plan : FanOutPlan}
    (hplan : r.planFanOut id s.view = .ok plan)
    (hresults : ¬ CalmResults (r.iterationResults id scope s.view plan schedule)) :
    s'.Stopped ∧ s'.outputs = s.outputs := by
  have hsame : ∀ {plan'}, r.planFanOut id s.view = .ok plan' → plan' = plan := by
    intro plan' hplan'
    rw [hplan] at hplan'
    cases hplan'
    rfl
  cases hvisit with
  | idle h =>
      rcases h with hescaped | hresult
      · exact absurd hready.escaped hescaped
      · exact absurd hready.result hresult
  | aborted _ _ habort =>
      rw [hready.abort] at habort
      cases habort
  | unknown _ hnode =>
      rcases hiter with ⟨node, hfound, _⟩
      rw [hnode] at hfound
      cases hfound
  | succeeded _ hplain _ _ => exact absurd hiter hplain
  | failed _ hplain _ _ => exact absurd hiter hplain
  | escaped _ hplain _ _ => exact absurd hiter hplain
  | planFailed _ _ _ hbad =>
      rw [hplan] at hbad
      cases hbad
  | planEscaped _ _ _ hbad =>
      rw [hplan] at hbad
      cases hbad
  | iterationEscaped _ _ plan' hplan' exc _ => exact ⟨Or.inl (by simp [escapeIterations]), rfl⟩
  | iterationFailed _ _ plan' hplan' _ _ first others hfailures =>
      refine ⟨Or.inr ⟨rfl, ?_⟩, rfl⟩
      simp [abortIterations, hfailures]
  | fannedIn _ _ plan' hplan' hcalm hfanned =>
      cases hsame hplan'
      rcases hfanned with hcontinue | hnone
      · rw [hmode] at hcontinue
        cases hcontinue
      · exact absurd ⟨hcalm, hnone⟩ hresults

/-! ## Two schedules -/

/-- States that two schedules lead to: equal up to the trace, or both stopped with
the same outputs, which needs fail-fast mode. -/
def Agree (r : PipelineRun) (s t : LoopState) : Prop :=
  s.core = t.core ∨
    (r.ctx.options.continueOnError = false ∧ s.Stopped ∧ t.Stopped ∧ s.outputs = t.outputs)

theorem Agree.outputs (h : r.Agree s t) : s.outputs = t.outputs := by
  rcases h with hcore | ⟨_, _, _, houtputs⟩
  · have heq : s.core.outputs = t.core.outputs := by rw [hcore]
    exact heq
  · exact houtputs

/-- Visits keep the agreement. -/
theorem Agree.visit (h : r.Agree s t) (topo : List String) (id : String) :
    r.Agree (r.visit schedules topo s id) (r.visit schedules' topo t id) := by
  have hvisit := visit_spec r schedules topo s id
  have hvisit' := visit_spec r schedules' topo t id
  rcases h with hcore | ⟨hmode, hs, ht, houtputs⟩
  · by_cases hsame : ∀ plan, s.Ready id → r.engine.IsIterator r.spec id →
        r.planFanOut id s.view = .ok plan →
        r.iterationResults id (r.scopeTopo topo id) s.view plan (schedules' id) =
          r.iterationResults id (r.scopeTopo topo id) s.view plan (schedules id)
    · exact Or.inl (visit_core hcore fun hready hiter plan => hsame plan hready hiter)
    · right
      push Not at hsame
      rcases hsame with ⟨plan, hready, hiter, hplan, hdiffer⟩
      have hmode : r.ctx.options.continueOnError = false := by
        rw [Bool.eq_false_iff]
        intro hcontinue
        rw [iterationResults_of_continue hcontinue, iterationResults_of_continue hcontinue]
          at hdiffer
        exact hdiffer rfl
      have houtputs := Agree.outputs (Or.inl hcore : r.Agree s t)
      have hview : t.view = s.view := by rw [LoopState.view, LoopState.view, houtputs]
      have hready' : t.Ready id :=
        ⟨(congrArg LoopState.escaped hcore).symm.trans hready.escaped,
          (congrArg (fun u => u.results.get? id) hcore).symm.trans hready.result,
          (congrArg LoopState.abort hcore).symm.trans hready.abort⟩
      rcases hvisit.stops hmode hready hiter hplan
        fun hcalm => hdiffer (iterationResults_eq_of_calm hcalm) with ⟨hstops, hkept⟩
      rcases hvisit'.stops hmode hready' hiter (hview ▸ hplan)
        fun hcalm => hdiffer (iterationResults_eq_of_calm (hview ▸ hcalm)).symm with
        ⟨hstops', hkept'⟩
      exact ⟨hmode, hstops, hstops', by rw [hkept, hkept', houtputs]⟩
  · right
    rcases hvisit.stopped hs with ⟨hstopped, hkept⟩
    rcases hvisit'.stopped ht with ⟨hstopped', hkept'⟩
    exact ⟨hmode, hstopped, hstopped', by rw [hkept, hkept', houtputs]⟩

/-- Loops under two schedules agree. -/
theorem run_agrees (r : PipelineRun) (schedules schedules' : String → List FanOut.Choice)
    (topo ids : List String) (h : r.Agree s t) :
    r.Agree (r.run schedules topo s ids) (r.run schedules' topo t ids) := by
  induction ids generalizing s t with
  | nil => exact h
  | cons id rest ih => exact ih (h.visit topo id)

/-! ## The end of the call -/

private theorem finish_core (r : PipelineRun) (hcore : s.core = t.core) :
    r.finish s = r.finish t := by
  rcases s with ⟨outputs, results, errors, abort, escaped, events⟩
  rcases t with ⟨_, _, _, _, _, events'⟩
  simp only [LoopState.core, LoopState.mk.injEq, and_true] at hcore
  rcases hcore with ⟨rfl, rfl, rfl, rfl, rfl⟩
  rfl

/-- A call returns the outputs of its last state, and a stopped one fails. -/
theorem finish_of_stopped (hstopped : s.Stopped) {result : RunResult}
    (h : r.finish s = .ok result) :
    result.status = .failed ∧ result.outputs = r.terminalOutputs s := by
  unfold finish at h
  split at h
  · cases h
  · rename_i hlive
    cases h
    rcases hstopped with hescaped | ⟨_, herrors⟩
    · exact absurd hlive hescaped
    · exact ⟨if_neg herrors, rfl⟩

/-- What callers see of two states that agree. -/
theorem Agree.finish (h : r.Agree s t) :
    (r.ctx.options.continueOnError = true → r.finish s = r.finish t) ∧
    ((∃ result, r.finish s = .ok result ∧ result.status = .succeeded) →
      r.finish s = r.finish t) ∧
    ∀ result result', r.finish s = .ok result → r.finish t = .ok result' →
      result.status = result'.status ∧ result.outputs = result'.outputs := by
  rcases h with hcore | ⟨hmode, hs, ht, houtputs⟩
  · have heq := r.finish_core hcore
    refine ⟨fun _ => heq, fun _ => heq, ?_⟩
    intro result result' hresult hresult'
    rw [heq, hresult'] at hresult
    cases hresult
    exact ⟨rfl, rfl⟩
  · refine ⟨?_, ?_, ?_⟩
    · intro hcontinue
      rw [hmode] at hcontinue
      cases hcontinue
    · rintro ⟨result, hresult, hstatus⟩
      rw [(finish_of_stopped hs hresult).1] at hstatus
      cases hstatus
    · intro result result' hresult hresult'
      rcases finish_of_stopped hs hresult with ⟨hstatus, hresultOutputs⟩
      rcases finish_of_stopped ht hresult' with ⟨hstatus', hresultOutputs'⟩
      rw [hstatus, hstatus', hresultOutputs, hresultOutputs', terminalOutputs, terminalOutputs,
        houtputs]
      exact ⟨rfl, rfl⟩

end PipelineRun

/-! ## What is fanned in -/

/-- Index and error of every failed iteration, in index order. -/
def failedIterations (results : List (Option IterationResult)) : List (Nat × NodeError) :=
  results.zipIdx.filterMap fun pair =>
    match pair.1 with
    | some (.failed _ error) => some (pair.2, error)
    | _ => none

/-- Picking from an indexed list keeps the order of the indices. -/
theorem pairwise_filterMap_zipIdx {α β : Type} (pick : α × Nat → Option (Nat × β))
    (hpick : ∀ pair picked, pick pair = some picked → picked.1 = pair.2) (xs : List α) (k : Nat) :
    ((xs.zipIdx k).filterMap pick).Pairwise (fun a b => a.1 < b.1) := by
  rw [List.pairwise_filterMap]
  induction xs generalizing k with
  | nil => exact List.Pairwise.nil
  | cons x rest ih =>
      rw [List.zipIdx_cons, List.pairwise_cons]
      refine ⟨?_, ih (k + 1)⟩
      intro later hlater a ha b hb
      have hle := List.le_snd_of_mem_zipIdx hlater
      rw [hpick _ _ ha, hpick _ _ hb]
      omega

private theorem pairwise_completedIterations (results : List (Option IterationResult)) :
    (completedIterations results).Pairwise (fun a b => a.1 < b.1) := by
  refine pairwise_filterMap_zipIdx _ ?_ results 0
  intro pair picked h
  split at h
  · cases h
    rfl
  · cases h

private theorem pairwise_failedIterations (results : List (Option IterationResult)) :
    (failedIterations results).Pairwise (fun a b => a.1 < b.1) := by
  refine pairwise_filterMap_zipIdx _ ?_ results 0
  intro pair picked h
  split at h
  · cases h
    rfl
  · cases h

/-- The errors that a fan-in reports are those of the failed iterations. -/
theorem map_snd_failedIterations (results : List (Option IterationResult)) :
    (failedIterations results).map Prod.snd = (iterationFailures results).map Prod.snd := by
  have hgeneral : ∀ (xs : List (Option IterationResult)) (k : Nat),
      ((xs.zipIdx k).filterMap fun pair =>
        match pair.1 with
        | some (.failed _ error) => some (pair.2, error)
        | _ => none).map Prod.snd = (iterationFailures xs).map Prod.snd := by
    intro xs
    induction xs with
    | nil => intro k; rfl
    | cons x rest ih =>
        intro k
        have hrest := ih (k + 1)
        unfold iterationFailures at hrest ⊢
        rcases x with _ | result
        · simpa using hrest
        · cases result with
          | completed final => simpa using hrest
          | failed id error => simpa using hrest
          | escaped exc => simpa using hrest
  exact hgeneral results 0

/-- What a fan-out has stored, in terms of the sequential execution of its
iterations in index order. -/
structure FannedInOrder (r : PipelineRun) (topo : List String) (s : LoopState)
    (iteratorId : String) (plan : FanOutPlan) (results : List (Option IterationResult)) :
    Prop where
  /-- The results are those of the iterations one after another. -/
  sequential : ∃ outer, .started .top iteratorId outer ∈ s.trace ∧
    r.planFanOut iteratorId outer = .ok plan ∧
    results = r.sequentialIterations iteratorId (r.scopeTopo topo iteratorId) outer
      (iterContexts plan.values)
  ordered : (completedIterations results).Pairwise (fun a b => a.1 < b.1)
  /-- The iterator and each scope node have the ports that their class declares or that a
  completed iteration has filled, no others, and these hold its iterations in index order. -/
  ports : ∀ n, n = iteratorId ∨ r.spec.Path iteratorId n → ∃ outputs,
    s.outputs.get? n = some outputs ∧
    ∀ port records, outputs.get? port = some records ↔
      (port ∈ r.outputPorts n ∨ ∃ pair ∈ completedIterations results, ∃ own,
        pair.2.get? n = some own ∧ port ∈ own.keys) ∧
      match plan.fanIn with
      | .concat => records = (completedIterations results).flatMap fun pair =>
          ((pair.2.get? n).bind (OrderedDict.get? · port)).getD []
      | .keyed => records = (completedIterations results).map fun pair =>
          [("key", plan.values.getD pair.1 .none),
            ("records", .list
              ((((pair.2.get? n).bind (OrderedDict.get? · port)).getD []).map Value.dict))]
  /-- The iteration errors stand together in index order. -/
  errors : ∃ before after, s.errors = before ++ (failedIterations results).map Prod.snd ++ after
  errors_ordered : (failedIterations results).Pairwise (fun a b => a.1 < b.1)

namespace PipelineRun

variable {r : PipelineRun} {topo : List String} {s : LoopState} {iteratorId : String}
  {plan : FanOutPlan} {results : List (Option IterationResult)}

/-- The iterator and every scope node have outputs in every completed iteration. -/
theorem FanOutRecord.contributions_eq (hsorted : r.Sorted topo)
    (h : r.FanOutRecord topo s iteratorId plan results) {n : String}
    (hn : n = iteratorId ∨ r.spec.Path iteratorId n) :
    contributions results n =
      (completedIterations results).map fun pair => (pair.1, (pair.2.get? n).getD .empty) := by
  have hsome : ∀ pair ∈ completedIterations results, (pair.2.get? n).isSome = true := by
    rintro ⟨i, final⟩ hmem
    have hi := mem_completedIterations.mp hmem
    rcases h.origin with ⟨outer, schedule, _, _, rfl⟩
    rcases iterationResults_getElem? hi with ⟨value, _, heq⟩
    rcases runIteration_completed heq.symm with ⟨hframe, hscope⟩
    rcases hn with rfl | hpath
    · rw [hframe n (hsorted.not_mem_scope n), iterationOutputs, OrderedDict.get?_singleton_self]
      rfl
    · exact hscope n ((hsorted.mem_scope iteratorId n).mpr hpath)
  unfold contributions
  rw [← List.filterMap_eq_map]
  refine List.filterMap_congr fun pair hmem => ?_
  rcases Option.isSome_iff_exists.mp (hsome pair hmem) with ⟨outputs, houtputs⟩
  simp [houtputs]

/-- The ports under which a completed iteration contributes are those that it has filled. -/
theorem FanOutRecord.mem_contributions_keys (hsorted : r.Sorted topo)
    (h : r.FanOutRecord topo s iteratorId plan results) {n : String}
    (hn : n = iteratorId ∨ r.spec.Path iteratorId n) (port : String) :
    port ∈ (contributions results n).flatMap (fun pair => pair.2.keys) ↔
      ∃ pair ∈ completedIterations results, ∃ own, pair.2.get? n = some own ∧ port ∈ own.keys := by
  rw [h.contributions_eq hsorted hn, List.flatMap_map, List.mem_flatMap]
  constructor
  · intro hport
    rcases hport with ⟨pair, hpair, hkey⟩
    cases hown : pair.2.get? n with
    | none =>
        rw [hown] at hkey
        cases hkey
    | some own =>
        rw [hown] at hkey
        exact ⟨pair, hpair, own, hown, hkey⟩
  · intro hport
    rcases hport with ⟨pair, hpair, own, hown, hkey⟩
    refine ⟨pair, hpair, ?_⟩
    rw [hown]
    exact hkey

/-- A fanned-in port gathers the completed iterations in index order. -/
theorem FanOutRecord.fanInPort_eq (hsorted : r.Sorted topo)
    (h : r.FanOutRecord topo s iteratorId plan results) {n : String}
    (hn : n = iteratorId ∨ r.spec.Path iteratorId n) (port : String) :
    fanInPort plan.fanIn plan.values (contributions results n) port =
      match plan.fanIn with
      | .concat => (completedIterations results).flatMap fun pair =>
          ((pair.2.get? n).bind (OrderedDict.get? · port)).getD []
      | .keyed => (completedIterations results).map fun pair =>
          [("key", plan.values.getD pair.1 .none),
            ("records", .list
              ((((pair.2.get? n).bind (OrderedDict.get? · port)).getD []).map Value.dict))] := by
  have hget : ∀ pair : Nat × OrderedDict String NodeOutputs,
      ((pair.2.get? n).getD OrderedDict.empty).get? port =
        (pair.2.get? n).bind (OrderedDict.get? · port) := by
    intro pair
    cases pair.2.get? n <;> rfl
  rw [h.contributions_eq hsorted hn]
  cases plan.fanIn with
  | concat => simp only [fanInPort, List.flatMap_map, hget]
  | keyed => simp only [fanInPort, List.map_map, Function.comp_def, hget]

/-- A record of a fan-out says what was fanned in. -/
theorem FanOutRecord.fannedInOrder (hsorted : r.Sorted topo)
    (h : r.FanOutRecord topo s iteratorId plan results) (hfans : r.FansIn results) :
    FannedInOrder r topo s iteratorId plan results where
  sequential := by
    rcases h.origin with ⟨outer, schedule, hstarted, hplan, rfl⟩
    refine ⟨outer, hstarted, hplan, iterationResults_eq_sequential ?_⟩
    rcases hfans.mode with hcontinue | hnone
    · exact FanOut.Pool.aborting_of_not_failFast (by simp [fanOutPolicy, hcontinue]) _
    · exact not_aborting_of_calm ⟨hfans.calm, hnone⟩
  ordered := pairwise_completedIterations results
  ports := by
    intro n hn
    refine ⟨_, h.outputs_of n hn, ?_⟩
    intro port records
    have hport := h.fanInPort_eq hsorted hn port
    rw [memberOutputs, get?_fanInOutputs, ← h.mem_contributions_keys hsorted hn, ← List.mem_append]
    split
    · rename_i hfilled
      rw [Option.some.injEq, hport]
      cases plan.fanIn <;> exact ⟨fun heq => ⟨hfilled, heq.symm⟩, fun heq => heq.2.symm⟩
    · rename_i hfilled
      constructor
      · intro heq
        cases heq
      · intro heq
        exact absurd heq.1 hfilled
  errors := by
    rw [map_snd_failedIterations]
    exact h.errors
  errors_ordered := pairwise_failedIterations results

end PipelineRun

/-! ## The whole call -/

/-- Two calls that differ in their traces only, as far as their mode allows. -/
structure SameForCallers (options : ExecutionOptions) (e e' : Execution) : Prop where
  /-- The outputs of all nodes, fanned in or not. -/
  node_outputs : e.state.outputs = e'.state.outputs
  continued : options.continueOnError = true → e.outcome = e'.outcome
  succeeded : (∃ result, e.outcome = .ok result ∧ result.status = .succeeded) →
    e.outcome = e'.outcome
  /-- Whether a run fails, also without {lit}`continue_on_error`. -/
  returned : ∀ result result', e.outcome = .ok result → e'.outcome = .ok result' →
    result.status = result'.status ∧ result.outputs = result'.outputs

/-- Calls under two schedules are the same for their callers. -/
theorem executePipeline_same (en : Engine) (schedules schedules' : String → List FanOut.Choice)
    (spec : PipelineSpec) (secrets : OrderedDict String PyText) (options : ExecutionOptions) :
    SameForCallers options (en.executePipeline schedules spec secrets options)
      (en.executePipeline schedules' spec secrets options) := by
  have hrefl : ∀ e : Execution, SameForCallers options e e := by
    intro e
    refine ⟨rfl, fun _ => rfl, fun _ => rfl, ?_⟩
    intro result result' hresult hresult'
    rw [hresult] at hresult'
    cases hresult'
    exact ⟨rfl, rfl⟩
  unfold Engine.executePipeline
  cases en.validatePipeline spec with
  | cons issue issues => exact hrefl _
  | nil =>
      cases spec.topoOrder with
      | none => exact hrefl _
      | some topo =>
          cases Redactor.ofSecrets secrets.values with
          | error exc => exact hrefl _
          | ok redactor =>
              have hagree := PipelineRun.run_agrees ⟨en, spec, ⟨secrets, options, redactor⟩⟩
                schedules schedules' topo topo (Or.inl rfl : PipelineRun.Agree _ .initial .initial)
              rcases hagree.finish with ⟨hcontinued, hsucceeded, hreturned⟩
              exact ⟨hagree.outputs, hcontinued, hsucceeded, hreturned⟩

/-- Whatever the order in which the iterations interleave and complete, callers see
the same, and every fan-in holds what the iterations have one after another. -/
theorem executePipeline_schedule_independent (en : Engine)
    (schedules : String → List FanOut.Choice) (spec : PipelineSpec)
    (secrets : OrderedDict String PyText) (options : ExecutionOptions)
    (hvalid : en.validatePipeline spec = []) :
    (∀ schedules', SameForCallers options (en.executePipeline schedules spec secrets options)
      (en.executePipeline schedules' spec secrets options)) ∧
    ∀ iteratorId plan results, .gathered iteratorId plan results ∈
        (en.executePipeline schedules spec secrets options).trace →
      ∃ topo redactor, spec.topoOrder = some topo ∧
        Redactor.ofSecrets secrets.values = .ok redactor ∧
        (PipelineRun.FansIn ⟨en, spec, ⟨secrets, options, redactor⟩⟩ results →
          FannedInOrder ⟨en, spec, ⟨secrets, options, redactor⟩⟩ topo
            (en.executePipeline schedules spec secrets options).state iteratorId plan results) ∧
        ∀ result, (en.executePipeline schedules spec secrets options).outcome = .ok result →
          options.continueOnError = true ∨ result.status = .succeeded →
          PipelineRun.FansIn ⟨en, spec, ⟨secrets, options, redactor⟩⟩ results := by
  refine ⟨fun schedules' => executePipeline_same en schedules schedules' spec secrets options, ?_⟩
  intro iteratorId plan results hgathered
  rcases executePipeline_cases en schedules spec secrets options with
    ⟨hissues, _⟩ | ⟨_, topo, htopo, ⟨exc, _, heq⟩ | ⟨redactor, hredactor, heq⟩⟩
  · exact absurd hvalid hissues
  · rw [heq] at hgathered
    cases hgathered
  · rw [heq] at hgathered ⊢
    have hsorted : PipelineRun.Sorted ⟨en, spec, ⟨secrets, options, redactor⟩⟩ topo :=
      ⟨Engine.validated_of_no_issues hvalid, htopo⟩
    have hgathers := PipelineRun.run_gathers hsorted schedules
    refine ⟨topo, redactor, htopo, hredactor, ?_, ?_⟩
    · intro hfans
      exact (hgathers.recorded iteratorId plan results hgathered hfans).fannedInOrder hsorted hfans
    · intro result houtcome hmode
      rcases PipelineRun.finish_fields houtcome with ⟨hlive, _, herrors⟩
      have hcalm := hgathers.calm hlive iteratorId plan results hgathered
      refine ⟨hcalm, hmode.imp_right fun hstatus => ?_⟩
      have hnone : result.errors = [] := by
        unfold PipelineRun.finish at houtcome
        rw [hlive] at houtcome
        cases houtcome
        by_contra hne
        simp [hne] at hstatus
      have hreported := hgathers.reported iteratorId plan results hgathered hcalm
      rw [← herrors, hnone, List.subset_nil, List.map_eq_nil_iff] at hreported
      exact hreported

/-- Two iterations over a scope of two nodes. -/
def twoStages : PipelineSpec :=
  Samples.document
    [Samples.iterator "each" [.int 7, .int 8], Samples.node "work" "collect" [],
      Samples.node "rest" "collect" []]
    [Samples.edge "each" "work", Samples.edge "work" "rest"]

/-- The second iteration overtakes the first between its two nodes. -/
def overtaking : String → List FanOut.Choice := fun _ =>
  [.acquire 0, .acquire 1, .advance 0, .advance 1, .advance 1, .advance 0, .advance 1, .advance 1,
    .advance 1, .advance 0, .advance 0, .advance 0]

theorem executePipeline_schedule_independent_overtaking :
    SameForCallers (Samples.options false)
      (Samples.engine.executePipeline overtaking twoStages .empty (Samples.options false))
      (Samples.execute twoStages false) ∧
    ∃ topo redactor plan results,
      FannedInOrder ⟨Samples.engine, twoStages, ⟨.empty, Samples.options false, redactor⟩⟩ topo
        (Samples.engine.executePipeline overtaking twoStages .empty (Samples.options false)).state
        "each" plan results ∧
      (completedIterations results).map Prod.fst = [0, 1] := by
  rcases executePipeline_schedule_independent Samples.engine overtaking twoStages .empty
    (Samples.options false) (by decide +kernel) with ⟨hsame, hfanIn⟩
  refine ⟨hsame _, ?_⟩
  have hgathered : (Samples.firstGathered? (Samples.engine.executePipeline overtaking twoStages
      .empty (Samples.options false)).trace).map (fun found =>
        (found.1, (completedIterations found.2.2).map Prod.fst)) = some ("each", [0, 1]) := by
    decide +kernel
  have hsucceeds : (Samples.engine.executePipeline overtaking twoStages .empty
      (Samples.options false)).outcome.toOption.map RunResult.status = some .succeeded := by
    decide +kernel
  rcases Option.map_eq_some_iff.mp hgathered with ⟨⟨iteratorId, plan, results⟩, hfound, heq⟩
  simp only [Prod.mk.injEq] at heq
  rcases heq with ⟨rfl, hcompleted⟩
  rcases hfanIn "each" plan results (Samples.mem_of_firstGathered? hfound) with
    ⟨topo, redactor, _, _, hordered, hfans⟩
  cases houtcome : (Samples.engine.executePipeline overtaking twoStages .empty
      (Samples.options false)).outcome with
  | error exc =>
      rw [houtcome] at hsucceeds
      cases hsucceeds
  | ok result =>
      rw [houtcome] at hsucceeds
      have hstatus : result.status = .succeeded := Option.some.inj hsucceeds
      exact ⟨topo, redactor, plan, results, hordered (hfans result houtcome (Or.inr hstatus)),
        hcompleted⟩

end EtlTool
