import EtlTool.Engine.Bookkeeping
import EtlTool.Engine.Samples

/-!
# What a run keeps of its fan-outs

An iterator is fanned out once, and what the fan-in stores for the iterator and
its scope is never touched again.  So the results and outputs at the end of a
run, and the failures that were observed in iterations, can be read off the
results of the iterations.

Main results:

- Theorem {lit}`Visit.frame`: a visit leaves the nodes alone that have a result and
  are not in the scope that it fans out.
- Theorem {lit}`run_gathers`: the records of all fan-outs at the end of a run.
-/

namespace EtlTool

/-- The iterator to whose fan-out an event belongs. -/
def Event.iterator? : Event → Option String
  | started (.iteration iteratorId _) _ _ => some iteratorId
  | ran (.iteration iteratorId _) _ _ => some iteratorId
  | failed (.iteration iteratorId _) _ _ => some iteratorId
  | gathered iteratorId _ _ => some iteratorId
  | _ => none

/-- A scope node has failed in the iteration with an index. -/
def FailedIn (events : List Event) (iteratorId : String) (index : Nat) (id : String) : Prop :=
  ∃ value error, .failed (.iteration iteratorId ⟨value, index⟩) id error ∈ events

namespace PipelineRun

variable {r : PipelineRun} {topo visited rest : List String} {s s' : LoopState} {id : String}

/-! ## Events of a visit -/

private theorem iterator?_of_mem_nodeEvents {view : View} {event : Event}
    (h : event ∈ r.nodeEvents id view) : event.iterator? = none := by
  unfold nodeEvents at h
  rcases List.mem_cons.mp h with rfl | h
  · rfl
  · split at h
    · rw [List.mem_singleton.mp h]
      rfl
    · cases h

private theorem iterator?_of_mem_iterationEvents {iteratorId : String} {outer : View}
    {st : IterationState}
    {event : Event} (h : event ∈ r.iterationEvents iteratorId outer st) :
    event.iterator? = some iteratorId := by
  unfold iterationEvents at h
  split at h
  · cases h
  · rcases List.mem_cons.mp h with heq | h
    · rw [heq]
      split <;> rfl
    · split at h
      · rw [List.mem_singleton.mp h]
        rfl
      · cases h

private theorem iterator?_of_mem_fanOutTrace {scope : List String} {plan : FanOutPlan}
    {schedule : List FanOut.Choice} {event : Event} {iteratorId : String}
    (h : event ∈ r.fanOutTrace s id scope plan schedule)
    (howner : event.iterator? = some iteratorId) : iteratorId = id := by
  rcases List.mem_cons.mp h with rfl | h
  · cases howner
  · rcases List.mem_append.mp h with h | h
    · rcases List.mem_flatMap.mp h with ⟨step, _, h⟩
      rw [iterator?_of_mem_iterationEvents h, Option.some.injEq] at howner
      exact howner.symm
    · rw [List.mem_singleton.mp h] at howner
      cases howner
      rfl

/-- A visit appends events, and those of a fan-out belong to the visited iterator,
which was ready. -/
theorem Visit.new_events {schedule : List FanOut.Choice} {scope : List String}
    (hvisit : r.Visit schedule scope s id s') :
    ∃ events, s'.trace = s.trace ++ events ∧ ∀ event ∈ events, ∀ iteratorId,
      event.iterator? = some iteratorId → iteratorId = id ∧ s.Ready id := by
  have hnode : ∀ {event}, event ∈ r.nodeEvents id s.view → ∀ iteratorId,
      event.iterator? = some iteratorId → iteratorId = id ∧ s.Ready id := by
    intro event hevent iteratorId howner
    rw [iterator?_of_mem_nodeEvents hevent] at howner
    cases howner
  cases hvisit with
  | idle _ => exact ⟨[], by simp, by simp⟩
  | aborted _ _ _ => exact ⟨[], by simp, by simp⟩
  | unknown _ _ => exact ⟨[], by simp, by simp⟩
  | succeeded _ _ _ _ => exact ⟨_, rfl, fun event hevent => hnode hevent⟩
  | failed _ _ error _ =>
      refine ⟨r.nodeEvents id s.view ++ [.failed .top id error], by simp [failNode], ?_⟩
      intro event hevent iteratorId howner
      rcases List.mem_append.mp hevent with hevent | hevent
      · exact hnode hevent iteratorId howner
      · rw [List.mem_singleton.mp hevent] at howner
        cases howner
  | escaped _ _ _ _ => exact ⟨_, rfl, fun event hevent => hnode hevent⟩
  | planFailed _ _ error _ =>
      refine ⟨_, rfl, ?_⟩
      intro event hevent iteratorId howner
      rcases List.mem_cons.mp hevent with rfl | hevent
      · cases howner
      · rw [List.mem_singleton.mp hevent] at howner
        cases howner
  | planEscaped _ _ _ _ =>
      refine ⟨_, rfl, ?_⟩
      intro event hevent iteratorId howner
      rw [List.mem_singleton.mp hevent] at howner
      cases howner
  | iterationEscaped hready _ _ _ _ _ =>
      exact ⟨_, rfl, fun _ hevent _ howner =>
        ⟨iterator?_of_mem_fanOutTrace hevent howner, hready⟩⟩
  | iterationFailed hready _ _ _ _ _ _ _ _ =>
      exact ⟨_, rfl, fun _ hevent _ howner =>
        ⟨iterator?_of_mem_fanOutTrace hevent howner, hready⟩⟩
  | fannedIn hready _ _ _ _ _ =>
      exact ⟨_, rfl, fun _ hevent _ howner =>
        ⟨iterator?_of_mem_fanOutTrace hevent howner, hready⟩⟩

/-! ## What a visit leaves alone -/

/-- A visit leaves the nodes alone that have a result and are not in the scope
that it fans out. -/
theorem Visit.frame (hsorted : r.Sorted topo) {schedule : List FanOut.Choice}
    (hvisit : r.Visit schedule (r.scopeTopo topo id) s id s') {n : String}
    (hresult : s.results.get? n ≠ none)
    (hscope : s.results.get? id = none → r.engine.IsIterator r.spec id → ¬ r.spec.Path id n) :
    s'.results.get? n = s.results.get? n ∧ s'.outputs.get? n = s.outputs.get? n := by
  have hskip : ∀ (results : OrderedDict String NodeResult) (ids : List String),
      results.get? n = s.results.get? n → (r.skip results ids).get? n = s.results.get? n := by
    intro results ids hsame
    rw [get?_skip, hsame]
    cases hfound : s.results.get? n with
    | none => exact absurd hfound hresult
    | some result => rfl
  have hne : s.Ready id → n ≠ id := by
    rintro hready rfl
    exact hresult hready.result
  cases hvisit with
  | idle _ => exact ⟨rfl, rfl⟩
  | aborted _ _ _ => exact ⟨hskip _ _ rfl, rfl⟩
  | unknown _ _ => exact ⟨rfl, rfl⟩
  | succeeded hready _ outputs _ =>
      exact ⟨OrderedDict.get?_set_of_ne _ (hne hready) _, OrderedDict.get?_set_of_ne _ (hne hready) _⟩
  | failed hready _ error _ =>
      refine ⟨?_, rfl⟩
      have hset := OrderedDict.get?_set_of_ne s.results (hne hready) (r.failedResult id error)
      simp only [failNode]
      split
      · exact hskip _ _ hset
      · exact hset
  | escaped _ _ _ _ => exact ⟨rfl, rfl⟩
  | planFailed hready _ error _ =>
      exact ⟨hskip _ _ (OrderedDict.get?_set_of_ne _ (hne hready) _), rfl⟩
  | planEscaped _ _ _ _ => exact ⟨rfl, rfl⟩
  | iterationEscaped _ _ _ _ _ _ => exact ⟨rfl, rfl⟩
  | iterationFailed hready hiter plan _ _ _ first others hfailures =>
      refine ⟨hskip _ _ (OrderedDict.get?_set_of_ne _ ?_ _), rfl⟩
      rintro rfl
      have hfirst : first ∈ iterationFailures
          (r.iterationResults id (r.scopeTopo topo id) s.view plan schedule) := by simp [hfailures]
      rcases mem_iterationFailures.mp hfirst with ⟨i, hi⟩
      rcases iterationResults_getElem? hi with ⟨value, _, heq⟩
      exact hscope hready.result hiter
        ((hsorted.mem_scope id first.1).mp (runIteration_failed heq.symm))
  | fannedIn hready hiter plan _ _ _ =>
      have hmem : n ∉ id :: r.scopeTopo topo id := by
        intro hmem
        rw [List.mem_cons, hsorted.mem_scope] at hmem
        rcases hmem with rfl | hpath
        · exact hne hready rfl
        · exact hscope hready.result hiter hpath
      rw [get?_fanIn_results, get?_fanIn_outputs, if_neg hmem, if_neg hmem]
      exact ⟨rfl, rfl⟩

/-! ## Records of fan-outs -/

/-- What the state keeps of one fan-out. -/
structure FanOutRecord (r : PipelineRun) (topo : List String) (s : LoopState) (iteratorId : String)
    (plan : FanOutPlan) (results : List (Option IterationResult)) : Prop where
  iterator : r.engine.IsIterator r.spec iteratorId
  origin : ∃ outer schedule, .started .top iteratorId outer ∈ s.trace ∧
    r.planFanOut iteratorId outer = .ok plan ∧
    results = r.iterationResults iteratorId (r.scopeTopo topo iteratorId) outer plan schedule
  calm : firstEscape? results = none
  results_of : ∀ n, n = iteratorId ∨ r.spec.Path iteratorId n →
    s.results.get? n = some (r.memberResult iteratorId plan results n)
  outputs_of : ∀ n, n = iteratorId ∨ r.spec.Path iteratorId n →
    s.outputs.get? n = some (r.memberOutputs plan results n)
  failures : ∀ i f, FailedIn s.trace iteratorId i f ↔
    ∃ error, results[i]? = some (some (.failed f error))
  errors : ∃ before after,
    s.errors = before ++ (iterationFailures results).map Prod.snd ++ after

/-- Iterations with these results are fanned in. -/
structure FansIn (r : PipelineRun) (results : List (Option IterationResult)) : Prop where
  calm : firstEscape? results = none
  mode : r.ctx.options.continueOnError = true ∨ iterationFailures results = []

/-- A run keeps the records of everything that it has fanned in, and that is
everything if it goes on to its end. -/
structure Gathers (r : PipelineRun) (topo visited : List String) (s : LoopState) : Prop where
  visited : ∀ event ∈ s.trace, ∀ iteratorId, event.iterator? = some iteratorId →
    iteratorId ∈ visited
  recorded : ∀ iteratorId plan results, .gathered iteratorId plan results ∈ s.trace →
    r.FansIn results → r.FanOutRecord topo s iteratorId plan results
  calm : s.escaped = none → ∀ iteratorId plan results,
    .gathered iteratorId plan results ∈ s.trace → firstEscape? results = none
  reported : ∀ iteratorId plan results, .gathered iteratorId plan results ∈ s.trace →
    firstEscape? results = none → (iterationFailures results).map Prod.snd ⊆ s.errors

theorem Gathers.initial (r : PipelineRun) (topo : List String) :
    r.Gathers topo [] .initial := by
  constructor <;> simp [LoopState.initial]

/-- The failures of an iterator that was not visited before are those of its
fan-out. -/
theorem failedIn_fanOutTrace (hown : id ∉ r.scopeTopo topo id)
    (hfresh : ∀ event ∈ s.trace, event.iterator? ≠ some id) (plan : FanOutPlan)
    (schedule : List FanOut.Choice) (i : Nat) (f : String) :
    FailedIn (s.trace ++ r.fanOutTrace s id (r.scopeTopo topo id) plan schedule) id i f ↔
      ∃ error, (r.iterationResults id (r.scopeTopo topo id) s.view plan schedule)[i]? =
        some (some (.failed f error)) := by
  constructor
  · rintro ⟨value, error, hevent⟩
    rcases List.mem_append.mp hevent with hold | hnew
    · exact absurd rfl (hfresh _ hold)
    · have hfailed : Event.failed (.iteration id ⟨value, i⟩) f error ∈
          r.fanOutEvents id (r.scopeTopo topo id) s.view plan schedule := by
        simpa [fanOutTrace] using hnew
      rcases mem_fanOutEvents_failed hown hfailed with ⟨j, value', _, hplace, hj⟩
      cases hplace
      exact ⟨error, hj⟩
  · rintro ⟨error, hi⟩
    rcases failed_mem_fanOutEvents hown hi with ⟨value, hevent⟩
    exact ⟨value, error, List.mem_append_right _ (by simp [fanOutTrace, hevent])⟩

/-- A fan-out is recorded when it is fanned in. -/
theorem fanIn_record (hsorted : r.Sorted topo) (hiter : r.engine.IsIterator r.spec id)
    (hfresh : ∀ event ∈ s.trace, event.iterator? ≠ some id) {plan : FanOutPlan}
    {schedule : List FanOut.Choice} (hplan : r.planFanOut id s.view = .ok plan)
    (hcalm : firstEscape? (r.iterationResults id (r.scopeTopo topo id) s.view plan schedule) =
      none) :
    r.FanOutRecord topo (r.fanIn s id (r.scopeTopo topo id) plan schedule) id plan
      (r.iterationResults id (r.scopeTopo topo id) s.view plan schedule) where
  iterator := hiter
  origin := ⟨s.view, schedule, List.mem_append_right _ List.mem_cons_self, hplan, rfl⟩
  calm := hcalm
  results_of := by
    intro n hn
    rw [get?_fanIn_results, if_pos]
    rwa [List.mem_cons, hsorted.mem_scope]
  outputs_of := by
    intro n hn
    rw [get?_fanIn_outputs, if_pos]
    rwa [List.mem_cons, hsorted.mem_scope]
  failures := failedIn_fanOutTrace (hsorted.not_mem_scope id) hfresh plan schedule
  errors := ⟨s.errors, [], by simp [fanIn]⟩

/-- A later visit keeps a record. -/
theorem FanOutRecord.visit (hsorted : r.Sorted topo) (hsplit : topo = visited ++ id :: rest)
    {iteratorId : String} {plan : FanOutPlan} {results : List (Option IterationResult)}
    (h : r.FanOutRecord topo s iteratorId plan results) (hvisited : iteratorId ∈ visited)
    {schedule : List FanOut.Choice}
    (hvisit : r.Visit schedule (r.scopeTopo topo id) s id s') :
    r.FanOutRecord topo s' iteratorId plan results := by
  have hne : iteratorId ≠ id := by
    rintro rfl
    exact hsorted.not_mem_visited hsplit hvisited
  have hframe : ∀ n, n = iteratorId ∨ r.spec.Path iteratorId n →
      s'.results.get? n = s.results.get? n ∧ s'.outputs.get? n = s.outputs.get? n := by
    intro n hn
    apply hvisit.frame hsorted (by simp [h.results_of n hn])
    intro _ hiter hpath
    rcases hn with rfl | hbelow
    · exact hsorted.validated.not_nested id n hiter h.iterator hpath
    · exact hne (hsorted.validated.disjoint iteratorId id n h.iterator hiter hbelow hpath)
  rcases hvisit.new_events with ⟨events, htrace, hevents⟩
  refine { h with origin := ?_, results_of := ?_, outputs_of := ?_, failures := ?_, errors := ?_ }
  · rcases h.origin with ⟨outer, sched, hstarted, horigin⟩
    exact ⟨outer, sched, by rw [htrace]; exact List.mem_append_left _ hstarted, horigin⟩
  · intro n hn
    rw [(hframe n hn).1]
    exact h.results_of n hn
  · intro n hn
    rw [(hframe n hn).2]
    exact h.outputs_of n hn
  · intro i f
    rw [← h.failures i f]
    unfold FailedIn
    rw [htrace]
    constructor
    · rintro ⟨value, error, hmem⟩
      rcases List.mem_append.mp hmem with hold | hnew
      · exact ⟨value, error, hold⟩
      · exact absurd (hevents _ hnew iteratorId rfl).1 hne
    · rintro ⟨value, error, hmem⟩
      exact ⟨value, error, List.mem_append_left _ hmem⟩
  · rcases h.errors with ⟨before, after, herrors⟩
    rcases hvisit.errors_grow with ⟨more, hmore⟩
    exact ⟨before, after ++ more, by rw [← hmore, herrors, List.append_assoc]⟩

/-- Iterations are gathered once they are all over. -/
theorem gathered_mem_fanOutTrace {scope : List String} {plan plan' : FanOutPlan}
    {schedule : List FanOut.Choice} {iteratorId : String}
    {results : List (Option IterationResult)}
    (h : .gathered iteratorId plan' results ∈ r.fanOutTrace s id scope plan schedule) :
    iteratorId = id ∧ plan' = plan ∧
      results = r.iterationResults id scope s.view plan schedule := by
  rcases List.mem_cons.mp h with heq | h
  · cases heq
  · rcases List.mem_append.mp h with h | h
    · rcases List.mem_flatMap.mp h with ⟨step, _, h⟩
      unfold iterationEvents at h
      split at h
      · cases h
      · rcases List.mem_cons.mp h with heq | h
        · split at heq <;> cases heq
        · split at h
          · cases List.mem_singleton.mp h
          · cases h
    · cases List.mem_singleton.mp h
      exact ⟨rfl, rfl, rfl⟩

/-- A fan-out that a visit gathers is the one of the visited iterator. -/
theorem Visit.gathered_cases {schedule : List FanOut.Choice} {scope : List String}
    (hvisit : r.Visit schedule scope s id s') {iteratorId : String} {plan : FanOutPlan}
    {results : List (Option IterationResult)}
    (hgathered : .gathered iteratorId plan results ∈ s'.trace) :
    .gathered iteratorId plan results ∈ s.trace ∨
    (iteratorId = id ∧ r.engine.IsIterator r.spec id ∧ r.planFanOut id s.view = .ok plan ∧
      results = r.iterationResults id scope s.view plan schedule ∧
      ((∃ exc, firstEscape? results = some exc ∧ s'.escaped ≠ none) ∨
        (¬ r.FansIn results ∧ firstEscape? results = none ∧
          ∃ first, s' = r.abortIterations s id scope plan schedule first) ∨
        (r.FansIn results ∧ s' = r.fanIn s id scope plan schedule))) := by
  have hnode : .gathered iteratorId plan results ∉ r.nodeEvents id s.view := by
    intro hmem
    cases iterator?_of_mem_nodeEvents hmem
  cases hvisit with
  | idle _ => exact Or.inl hgathered
  | aborted _ _ _ => exact Or.inl hgathered
  | unknown _ _ => exact Or.inl hgathered
  | succeeded _ _ _ _ => exact Or.inl ((List.mem_append.mp hgathered).resolve_right hnode)
  | failed _ _ error _ =>
      simp only [failNode, List.append_assoc, List.mem_append, List.mem_singleton, reduceCtorEq,
        or_false] at hgathered
      exact Or.inl (hgathered.resolve_right hnode)
  | escaped _ _ _ _ => exact Or.inl ((List.mem_append.mp hgathered).resolve_right hnode)
  | planFailed _ _ error _ =>
      simp only [failPlan, List.mem_append, List.mem_cons, reduceCtorEq, List.not_mem_nil,
        or_false] at hgathered
      exact Or.inl hgathered
  | planEscaped _ _ _ _ =>
      simp only [escapePlan, List.mem_append, List.mem_cons, reduceCtorEq, List.not_mem_nil,
        or_false] at hgathered
      exact Or.inl hgathered
  | iterationEscaped _ hiter plan' hplan exc hexc =>
      refine (List.mem_append.mp hgathered).imp_right fun hnew => ?_
      rcases gathered_mem_fanOutTrace hnew with ⟨rfl, rfl, rfl⟩
      exact ⟨rfl, hiter, hplan, rfl, Or.inl ⟨exc, hexc, by simp [escapeIterations]⟩⟩
  | iterationFailed _ hiter plan' hplan hcalm hmode first others hfailures =>
      refine (List.mem_append.mp hgathered).imp_right fun hnew => ?_
      rcases gathered_mem_fanOutTrace hnew with ⟨rfl, rfl, rfl⟩
      refine ⟨rfl, hiter, hplan, rfl, Or.inr (Or.inl ⟨?_, hcalm, first, rfl⟩)⟩
      intro hfans
      have hmode' := hfans.mode
      simp [hmode, hfailures] at hmode'
  | fannedIn _ hiter plan' hplan hcalm hmode =>
      refine (List.mem_append.mp hgathered).imp_right fun hnew => ?_
      rcases gathered_mem_fanOutTrace hnew with ⟨rfl, rfl, rfl⟩
      exact ⟨rfl, hiter, hplan, rfl, Or.inr (Or.inr ⟨⟨hcalm, hmode⟩, rfl⟩)⟩

/-- Every visit keeps the records. -/
theorem Gathers.visit (hsorted : r.Sorted topo) (hsplit : topo = visited ++ id :: rest)
    (h : r.Gathers topo visited s) {schedule : List FanOut.Choice}
    (hvisit : r.Visit schedule (r.scopeTopo topo id) s id s') :
    r.Gathers topo (visited ++ [id]) s' := by
  constructor
  · intro event hevent iteratorId howner
    rcases hvisit.new_events with ⟨events, htrace, hevents⟩
    rw [htrace] at hevent
    rcases List.mem_append.mp hevent with hold | hnew
    · exact List.mem_append_left _ (h.visited event hold iteratorId howner)
    · simp [(hevents event hnew iteratorId howner).1]
  · intro iteratorId plan results hgathered hfans
    rcases hvisit.gathered_cases hgathered with
      hold | ⟨rfl, hiter, hplan, rfl, ⟨exc, hexc, _⟩ | ⟨hnot, _⟩ | ⟨_, rfl⟩⟩
    · exact (h.recorded iteratorId plan results hold hfans).visit hsorted hsplit
        (h.visited _ hold iteratorId rfl) hvisit
    · rw [hfans.calm] at hexc
      cases hexc
    · exact absurd hfans hnot
    · refine fanIn_record hsorted hiter ?_ hplan hfans.calm
      intro event hevent howner
      exact hsorted.not_mem_visited hsplit (h.visited event hevent _ howner)
  · intro hlive iteratorId plan results hgathered
    rcases hvisit.gathered_cases hgathered with
      hold | ⟨_, _, _, _, ⟨_, _, hescaped⟩ | ⟨_, hcalm, _⟩ | ⟨hfans, _⟩⟩
    · exact h.calm (hvisit.escaped_eq_none hlive) iteratorId plan results hold
    · exact absurd hlive hescaped
    · exact hcalm
    · exact hfans.calm
  · intro iteratorId plan results hgathered hcalm
    rcases hvisit.gathered_cases hgathered with
      hold | ⟨_, _, _, rfl, ⟨_, hexc, _⟩ | ⟨_, _, _, rfl⟩ | ⟨_, rfl⟩⟩
    · exact fun error herror => hvisit.errors_grow.subset
        (h.reported iteratorId plan results hold hcalm herror)
    · rw [hcalm] at hexc
      cases hexc
    · exact List.subset_append_right _ _
    · exact List.subset_append_right _ _

/-- The records of all fan-outs at the end of a run. -/
theorem run_gathers (hsorted : r.Sorted topo) (schedule : String → List FanOut.Choice) :
    r.Gathers topo topo (r.run schedule topo .initial topo) := by
  refine @run_invariant r schedule topo (fun visited s => r.Gathers topo visited s) ?_
    (Gathers.initial r topo)
  intro visited id rest s hsplit h
  exact h.visit hsorted hsplit (visit_spec r schedule topo s id)

end PipelineRun

end EtlTool
