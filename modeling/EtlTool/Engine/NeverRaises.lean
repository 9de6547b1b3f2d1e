import EtlTool.Engine.Bookkeeping
import EtlTool.Engine.Samples

/-!
# What escapes from a run

Only the run of a node is inside a catch-all.  Reference resolution, the value
set of an iterator and the text of an iteration value are computed outside of
it, and an exception that they raise leaves {lit}`execute_pipeline`.  A hazard is
an event after which this happens; it is a condition on the node, its config and
its view.

Main results:

- Theorem {lit}`executePipeline_returns_iff`: a call returns a result if and only
  if the document has issues, or no long secret has a lone surrogate and no event
  of the run is a hazard.
- Theorem {lit}`executePipeline_raises`: a path segment that only looks like an
  integer is a hazard.

Current gaps:

- Exhaustion of the stack or of memory, and cancellation.
-/

namespace EtlTool

open PipelineRun

/-! ## Hazards -/

/-- Resolving the config of a node escapes. -/
def PipelineRun.ConfigHazard (r : PipelineRun) (id : String) (view : View)
    (iter : Option IterContext) : Prop :=
  ∃ node, r.spec.node? id = some node ∧
    r.engine.runtime.ConfigEscapes (referenceContext view iter) node.config

/-- Computing the value set of an iterator escapes. -/
def PipelineRun.ValuesHazard (r : PipelineRun) (id : String) (view : View) : Prop :=
  ∃ modelValidate config inputs ctx,
    r.prepareNode id view none =
      .ok ⟨r.engine.runtime.iteratorNode modelValidate, config, inputs, ctx⟩ ∧
    r.engine.runtime.ValuesEscape config inputs

/-- The text of the iteration value cannot be computed. -/
def PipelineRun.Unprintable (r : PipelineRun) : Place → Prop
  | .top => False
  | .iteration _ iter => ¬ r.engine.runtime.Printable iter.value

/-- An event after which something leaves the run that no handler covers. -/
def Event.Hazard (r : PipelineRun) : Event → Prop
  | started place id view =>
      r.ConfigHazard id view place.iter? ∨
      (place = .top ∧ r.engine.IsIterator r.spec id ∧ r.ValuesHazard id view) ∨
      ((∃ fault, r.prepareNode id view place.iter? = .error (.fault fault)) ∧ r.Unprintable place)
  | ran place id view =>
      ∃ prepared raised, r.prepareNode id view place.iter? = .ok prepared ∧
        prepared.cls.run prepared.config prepared.inputs prepared.ctx = .error raised ∧
        ((∃ exc, raised = .other exc ∧ exc.text = none) ∨ r.Unprintable place)
  | _ => False

/-- The only class that the engine fans out is the iterator. -/
def Engine.OnlyIterators (en : Engine) : Prop :=
  ∀ type cls, en.registry.get? type = some cls → cls.fanOut.isSome = true →
    ∃ modelValidate, cls = en.runtime.iteratorNode modelValidate

namespace PipelineRun

variable {r : PipelineRun} {topo visited rest : List String} {s s' : LoopState} {id : String}
  {view : View} {iter : Option IterContext}

/-! ## Data nodes -/

/-- Preparing a known node escapes exactly at a config hazard. -/
theorem prepareNode_configHazard_iff (hknown : id ∈ r.spec.nodeMap.keys)
    (hsorted : r.Sorted topo) :
    (∃ exc, r.prepareNode id view iter = .error (.other exc)) ↔ r.ConfigHazard id view iter := by
  rcases hsorted.exists_class hknown with ⟨node, cls, hnode, hcls, _⟩
  rw [prepareNode_other_iff hnode hcls]
  constructor
  · exact fun h => ⟨node, hnode, h⟩
  · rintro ⟨node', hnode', h⟩
    rw [hnode] at hnode'
    cases hnode'
    exact h

private theorem convertRaised_other_iff (ctx : NodeContext) (raised : Raised) :
    (∃ exc, convertRaised ctx raised = .other exc) ↔ ∃ exc, raised = .other exc ∧ exc.text = none := by
  cases raised with
  | node error => simp [convertRaised]
  | other exc => cases htext : exc.text <;> simp [convertRaised, htext]

/-- A top-level data node escapes exactly when one of its events is a hazard. -/
theorem nodeEvents_hazard_iff (view : View) (hknown : id ∈ r.spec.nodeMap.keys) (hsorted : r.Sorted topo)
    (hplain : ¬ r.engine.IsIterator r.spec id) :
    (∃ event ∈ r.nodeEvents id view, event.Hazard r) ↔
      ∃ exc, r.executeNode id view none = .error (.other exc) := by
  have hconfig := @prepareNode_configHazard_iff r topo id view none hknown hsorted
  unfold nodeEvents executeNode
  cases hprepare : r.prepareNode id view none with
  | error e =>
      rw [hprepare] at hconfig
      cases e with
      | other exc =>
          have hhazard : r.ConfigHazard id view none := hconfig.mp ⟨exc, rfl⟩
          simp [Event.Hazard, Place.iter?, hhazard, prepareRaised]
      | fault fault =>
          have hhazard : ¬ r.ConfigHazard id view none := fun h => by
            rcases hconfig.mpr h with ⟨exc, hexc⟩
            cases hexc
          simp [Event.Hazard, Place.iter?, hhazard, hplain, Unprintable, prepareRaised]
  | ok prepared =>
      rw [hprepare] at hconfig
      have hhazard : ¬ r.ConfigHazard id view none := fun h => by
        rcases hconfig.mpr h with ⟨exc, hexc⟩
        cases hexc
      have hran : (Event.ran .top id view).Hazard r ↔ ∃ raised,
          prepared.cls.run prepared.config prepared.inputs prepared.ctx = .error raised ∧
            ∃ exc, raised = .other exc ∧ exc.text = none := by
        simp [Event.Hazard, Place.iter?, hprepare, Unprintable]
      have hstarted : ¬ (Event.started .top id view).Hazard r := by
        simp [Event.Hazard, Place.iter?, hhazard, hplain, Unprintable]
      simp only [List.mem_cons, List.not_mem_nil, or_false, exists_eq_or_imp, exists_eq_left,
        hstarted, hran, false_or]
      cases hrun : prepared.cls.run prepared.config prepared.inputs prepared.ctx with
      | ok outputs => simp
      | error raised =>
          simpa using (convertRaised_other_iff prepared.ctx raised).symm

/-! ## Iterators -/

/-- Planning a fan-out escapes exactly when the start of the iterator is a hazard. -/
theorem planFanOut_hazard_iff (view : View) (honly : r.engine.OnlyIterators)
    (hsorted : r.Sorted topo) (hiter : r.engine.IsIterator r.spec id) :
    (Event.started .top id view).Hazard r ↔ ∃ exc, r.planFanOut id view = .error (.other exc) := by
  rcases hiter with ⟨node, hnode, hfans⟩
  have hknown : id ∈ r.spec.nodeMap.keys := OrderedDict.mem_keys_of_get? hnode
  have hconfig := @prepareNode_configHazard_iff r topo id view none hknown hsorted
  have hhazard : (Event.started .top id view).Hazard r ↔
      r.ConfigHazard id view none ∨ r.ValuesHazard id view := by
    have hiter : r.engine.IsIterator r.spec id := ⟨node, hnode, hfans⟩
    simp [Event.Hazard, Place.iter?, Unprintable, hiter]
  rw [hhazard, ← hconfig]
  unfold planFanOut
  cases hprepare : r.prepareNode id view none with
  | error e =>
      have hvalues : ¬ r.ValuesHazard id view := by
        rintro ⟨_, _, _, _, hok, _⟩
        rw [hprepare] at hok
        cases hok
      cases e <;> simp [prepareRaised, hvalues]
  | ok prepared =>
      rcases prepareNode_cases hprepare with ⟨_, exc, hbad⟩ | ⟨node', cls, hnode', hcls, _, hcases⟩
      · cases hbad
      · rw [hnode] at hnode'
        cases hnode'
        rcases hcases with ⟨e, _, hbad⟩ | ⟨issues, hbad⟩ | ⟨_, _, _, hbad⟩ | ⟨config, inputs, _, heq⟩
        · cases hbad
        · cases hbad
        · cases hbad
        · cases heq
          have hclsFans : cls.fanOut.isSome = true := by
            simpa [Engine.fansOut, hcls] using hfans
          rcases honly node.type cls hcls hclsFans with ⟨modelValidate, rfl⟩
          have hvalues : r.ValuesHazard id view ↔ r.engine.runtime.ValuesEscape config inputs := by
            constructor
            · rintro ⟨modelValidate', config', inputs', ctx', hok, hescape⟩
              rw [hprepare] at hok
              cases hok
              exact hescape
            · exact fun hescape => ⟨modelValidate, config, inputs, _, hprepare, hescape⟩
          rw [hvalues, ← getValues_other_iff r.engine.runtime config inputs (r.nodeContext id none)]
          have hmethods : (r.engine.runtime.iteratorNode modelValidate).fanOut =
              some r.engine.runtime.iteratorMethods := rfl
          simp only [hmethods]
          cases hget : r.engine.runtime.getValues config inputs (r.nodeContext id none) with
          | error raised => simp [Runtime.iteratorMethods, hget]
          | ok values => simp [Runtime.iteratorMethods, hget]

/-! ## Iterations -/

/-- A node that is running was prepared. -/
theorem running_prepared {iteratorId : String} {scope : List String} {outer : View}
    {iter : IterContext} {st : IterationState}
    (h : (r.iterationJob outer).Reaches (iterationStart iteratorId scope iter) st)
    (hrunning : st.running = true) : ∃ n others prepared, st.remaining = n :: others ∧
      r.prepareNode n (chainView st.outputs outer) (some st.iter) = .ok prepared := by
  cases h with
  | refl => cases hrunning
  | @tail before _ _ hstep =>
      rcases iterationStep_cases r outer before with ⟨_, heq⟩ | ⟨n, others, hremaining, hcases⟩
      · rw [show r.iterationStep outer before = .inl st from hstep] at heq
        cases heq
      · rcases hcases with ⟨_, ⟨prepared, hprepared⟩, heq⟩ | ⟨_, _, _, heq⟩ | ⟨_, _, heq⟩
        · rw [show r.iterationStep outer before = .inl st from hstep] at heq
          cases heq
          exact ⟨n, others, prepared, hremaining, hprepared⟩
        · rw [show r.iterationStep outer before = .inl st from hstep] at heq
          cases heq
          cases hrunning
        · rw [show r.iterationStep outer before = .inl st from hstep] at heq
          cases heq

private theorem iterationFailed_escaped_iff (r : PipelineRun) (index : Nat) (value : Value)
    (n : String)
    (raised : Raised) :
    (∃ exc, r.iterationFailed index value n raised = .escaped exc) ↔
      (∃ exc, raised = .other exc) ∨
        (∃ error, raised = .node error) ∧ ¬ r.engine.runtime.Printable value := by
  cases raised with
  | other exc => simp [iterationFailed]
  | node error =>
      rw [← pyRepr_isSome_iff]
      unfold iterationFailed iterationDetails
      cases r.engine.runtime.pyRepr value <;> simp

/-- Of the events of a step only the first can be a hazard. -/
theorem exists_hazard_iterationEvents {iteratorId n : String} {outer : View} {st : IterationState}
    {others : List String} (hremaining : st.remaining = n :: others) :
    (∃ event ∈ r.iterationEvents iteratorId outer st, event.Hazard r) ↔
      (if st.running = true
        then Event.ran (.iteration iteratorId st.iter) n (chainView st.outputs outer)
        else Event.started (.iteration iteratorId st.iter) n (chainView st.outputs outer)).Hazard
          r := by
  unfold iterationEvents
  rw [hremaining]
  constructor
  · rintro ⟨event, hevent, hhazard⟩
    rcases List.mem_cons.mp hevent with rfl | hevent
    · exact hhazard
    · split at hevent
      · rw [List.mem_singleton.mp hevent] at hhazard
        exact hhazard.elim
      · cases hevent
  · exact fun hhazard => ⟨_, List.mem_cons_self, hhazard⟩

/-- The end of a run escapes exactly when running the node is a hazard. -/
theorem ran_hazard_iff {iteratorId n : String} {outer : View} {st : IterationState}
    {others : List String} (hremaining : st.remaining = n :: others) (hrunning : st.running = true)
    {prepared : Prepared}
    (hprepared : r.prepareNode n (chainView st.outputs outer) (some st.iter) = .ok prepared) :
    (Event.ran (.iteration iteratorId st.iter) n (chainView st.outputs outer)).Hazard r ↔
      ∃ exc, r.iterationStep outer st = .inr (.escaped exc) := by
  have hhazard : (Event.ran (.iteration iteratorId st.iter) n
      (chainView st.outputs outer)).Hazard r ↔ ∃ raised,
        prepared.cls.run prepared.config prepared.inputs prepared.ctx = .error raised ∧
          ((∃ exc, raised = .other exc ∧ exc.text = none) ∨
            ¬ r.engine.runtime.Printable st.iter.value) := by
    simp [Event.Hazard, Place.iter?, hprepared, Unprintable]
  rw [hhazard, show st.iter.value = st.value from rfl]
  cases hrun : prepared.cls.run prepared.config prepared.inputs prepared.ctx with
  | ok outputs =>
      have hstep : r.iterationStep outer st = .inl { st with
          remaining := others, outputs := st.outputs.set n outputs, running := false } := by
        simp only [iterationStep, hremaining, hrunning, if_true, executeNode, hprepared, hrun]
      simp [hstep]
  | error raised =>
      have hstep : r.iterationStep outer st =
          .inr (r.iterationFailed st.index st.value n (convertRaised prepared.ctx raised)) := by
        simp only [iterationStep, hremaining, hrunning, if_true, executeNode, hprepared, hrun]
      have hescaped := iterationFailed_escaped_iff r st.index st.value n
        (convertRaised prepared.ctx raised)
      have hother := convertRaised_other_iff prepared.ctx raised
      rw [hstep]
      simp only [Sum.inr.injEq, hescaped, hother, Except.error.injEq, exists_eq_left']
      cases hconverted : convertRaised prepared.ctx raised with
      | node error => simp
      | other exc =>
          have htextless := hother.mp ⟨exc, hconverted⟩
          simp [htextless]

/-- The preparation of a node escapes exactly when starting the node is a hazard. -/
theorem started_hazard_iff {iteratorId n : String} {outer : View} {st : IterationState}
    {others : List String} (hknown : n ∈ r.spec.nodeMap.keys) (hsorted : r.Sorted topo)
    (hremaining : st.remaining = n :: others) (hrunning : ¬ st.running = true) :
    (Event.started (.iteration iteratorId st.iter) n (chainView st.outputs outer)).Hazard r ↔
      ∃ exc, r.iterationStep outer st = .inr (.escaped exc) := by
  have hconfig := @prepareNode_configHazard_iff r topo n (chainView st.outputs outer)
    (some st.iter) hknown hsorted
  have hhazard : (Event.started (.iteration iteratorId st.iter) n
      (chainView st.outputs outer)).Hazard r ↔
      (∃ exc, r.prepareNode n (chainView st.outputs outer) (some st.iter) =
        .error (.other exc)) ∨
      (∃ fault, r.prepareNode n (chainView st.outputs outer) (some st.iter) =
        .error (.fault fault)) ∧ ¬ r.engine.runtime.Printable st.iter.value := by
    simp [Event.Hazard, Place.iter?, Unprintable, hconfig]
  rw [hhazard, show st.iter.value = st.value from rfl]
  simp only [iterationStep, hremaining, hrunning, Bool.false_eq_true, if_false]
  cases hprepare : r.prepareNode n (chainView st.outputs outer) (some st.iter) with
  | ok prepared => simp
  | error e =>
      have hescaped := iterationFailed_escaped_iff r st.index st.value n
        (r.prepareRaised n (some st.iter) e)
      simp only [Sum.inr.injEq, hescaped]
      cases e <;> simp [prepareRaised]

/-- An iteration escapes in a step exactly when the observed event is a hazard. -/
theorem iterationEvents_hazard_iff (hsorted : r.Sorted topo) {iteratorId : String}
    {scope : List String} (hscope : ∀ n ∈ scope, n ∈ r.spec.nodeMap.keys) {outer : View}
    {iter : IterContext} {st : IterationState} (hown : iteratorId ∉ scope)
    (hreach : (r.iterationJob outer).Reaches (iterationStart iteratorId scope iter) st) :
    (∃ event ∈ r.iterationEvents iteratorId outer st, event.Hazard r) ↔
      ∃ exc, r.iterationStep outer st = .inr (.escaped exc) := by
  cases hremaining : st.remaining with
  | nil => simp [iterationEvents, iterationStep, hremaining]
  | cons n others =>
      rw [exists_hazard_iterationEvents hremaining]
      by_cases hrunning : st.running = true
      · rcases running_prepared hreach hrunning with ⟨n', others', prepared, hremaining', hprepared⟩
        rw [hremaining] at hremaining'
        cases hremaining'
        rw [if_pos hrunning]
        exact ran_hazard_iff hremaining hrunning hprepared
      · have hknown : n ∈ r.spec.nodeMap.keys := by
          rcases (Progress.of_reaches hown hreach).passed with ⟨passed, hsplit, _, _⟩
          exact hscope n (by simp [hsplit, hremaining])
        rw [if_neg hrunning]
        exact started_hazard_iff hknown hsorted hremaining hrunning

private theorem firstEscape?_isSome_iff (results : List (Option IterationResult)) :
    (∃ exc, firstEscape? results = some exc) ↔
      ∃ (i : Nat) (exc : PyException), results[i]? = some (some (.escaped exc)) := by
  rw [← Option.isSome_iff_exists, firstEscape?, List.findSome?_isSome_iff]
  constructor
  · rintro ⟨result, hmem, hsome⟩
    rcases List.mem_iff_getElem?.mp hmem with ⟨i, hi⟩
    split at hsome
    · rename_i exc
      exact ⟨i, exc, hi⟩
    · cases hsome
  · rintro ⟨i, exc, hi⟩
    exact ⟨_, List.mem_of_getElem? hi, rfl⟩

/-- The iterations escape exactly when one of their events is a hazard. -/
theorem fanOutEvents_hazard_iff (hsorted : r.Sorted topo) {iteratorId : String}
    {scope : List String} (hscope : ∀ n ∈ scope, n ∈ r.spec.nodeMap.keys)
    (hown : iteratorId ∉ scope) {outer : View} {plan : FanOutPlan}
    {schedule : List FanOut.Choice} :
    (∃ event ∈ r.fanOutEvents iteratorId scope outer plan schedule, event.Hazard r) ↔
      ∃ exc, firstEscape? (r.iterationResults iteratorId scope outer plan schedule) = some exc := by
  have htracks := iterate_tracks r iteratorId scope outer plan schedule
  have hreach : ∀ {i : Nat} {st : IterationState},
      (i, st) ∈ (r.iterate iteratorId scope outer plan schedule).trace →
      ∃ iter, (r.iterationJob outer).Reaches (iterationStart iteratorId scope iter) st := by
    intro i st hmem
    rcases htracks.trace i st hmem with ⟨s₀, hstart, hreach⟩
    rcases List.mem_map.mp (List.mem_of_getElem? hstart) with ⟨iter, _, rfl⟩
    exact ⟨iter, hreach⟩
  rw [firstEscape?_isSome_iff]
  constructor
  · rintro ⟨event, hevent, hhazard⟩
    unfold fanOutEvents at hevent
    rcases List.mem_flatMap.mp hevent with ⟨⟨i, st⟩, hmem, hevent⟩
    rcases hreach hmem with ⟨iter, hst⟩
    rcases (iterationEvents_hazard_iff hsorted hscope hown hst).mp ⟨event, hevent, hhazard⟩ with
      ⟨exc, hstep⟩
    refine ⟨i, exc, ?_⟩
    rw [iterationResults, List.getElem?_map, htracks.ended i st _ hmem hstep]
    rfl
  · rintro ⟨i, exc, hi⟩
    unfold iterationResults at hi
    rw [List.getElem?_map, Option.map_eq_some_iff] at hi
    rcases hi with ⟨slot, hslot, hresult⟩
    cases slot with
    | finished result =>
        cases hresult
        rcases htracks.finished i _ hslot with ⟨st, hmem, hstep⟩
        rcases hreach hmem with ⟨iter, hst⟩
        rcases (iterationEvents_hazard_iff hsorted hscope hown hst).mpr ⟨exc, hstep⟩ with
          ⟨event, hevent, hhazard⟩
        exact ⟨event, List.mem_flatMap.mpr ⟨(i, st), hmem, hevent⟩, hhazard⟩
    | waiting st => cases hresult
    | active st => cases hresult
    | cancelled => cases hresult

/-! ## Visits and runs -/

/-- Something has escaped exactly when some event so far was a hazard. -/
def EscapesByHazard (r : PipelineRun) (s : LoopState) : Prop :=
  s.escaped ≠ none ↔ ∃ event ∈ s.trace, event.Hazard r

/-- The events of a visit decide whether it escapes. -/
theorem EscapesByHazard.append (h : r.EscapesByHazard s) (hlive : s.escaped = none)
    (events : List Event) (htrace : s'.trace = s.trace ++ events)
    (hevents : s'.escaped ≠ none ↔ ∃ event ∈ events, event.Hazard r) : r.EscapesByHazard s' := by
  have hnone : ¬ ∃ event ∈ s.trace, event.Hazard r := fun hhazard => h.mpr hhazard hlive
  unfold EscapesByHazard
  rw [hevents, htrace]
  constructor
  · rintro ⟨event, hmem, hhazard⟩
    exact ⟨event, List.mem_append_right _ hmem, hhazard⟩
  · rintro ⟨event, hmem, hhazard⟩
    rcases List.mem_append.mp hmem with hmem | hmem
    · exact absurd ⟨event, hmem, hhazard⟩ hnone
    · exact ⟨event, hmem, hhazard⟩

/-- A fan-out escapes exactly when one of its events is a hazard. -/
theorem fanOutTrace_hazard_iff (honly : r.engine.OnlyIterators) (hsorted : r.Sorted topo)
    (hiter : r.engine.IsIterator r.spec id) {plan : FanOutPlan}
    (hplan : r.planFanOut id s.view = .ok plan) (schedule : List FanOut.Choice) :
    (∃ event ∈ r.fanOutTrace s id (r.scopeTopo topo id) plan schedule, event.Hazard r) ↔
      ∃ exc, firstEscape?
        (r.iterationResults id (r.scopeTopo topo id) s.view plan schedule) = some exc := by
  have hscope : ∀ n ∈ r.scopeTopo topo id, n ∈ r.spec.nodeMap.keys := fun n hn =>
    hsorted.known_of_path ((hsorted.mem_scope id n).mp hn)
  have hstart : ¬ (Event.started .top id s.view).Hazard r := by
    rw [planFanOut_hazard_iff s.view honly hsorted hiter, hplan]
    simp
  have hgathered : ∀ results, ¬ (Event.gathered id plan results).Hazard r := fun _ hfalse => hfalse
  rw [← fanOutEvents_hazard_iff hsorted hscope (hsorted.not_mem_scope id)]
  unfold fanOutTrace
  constructor
  · rintro ⟨event, hmem, hhazard⟩
    rcases List.mem_cons.mp hmem with rfl | hmem
    · exact absurd hhazard hstart
    · rcases List.mem_append.mp hmem with hmem | hmem
      · exact ⟨event, hmem, hhazard⟩
      · rw [List.mem_singleton.mp hmem] at hhazard
        exact absurd hhazard (hgathered _)
  · rintro ⟨event, hmem, hhazard⟩
    exact ⟨event, List.mem_cons_of_mem _ (List.mem_append_left _ hmem), hhazard⟩

/-- Every visit escapes exactly when one of its events is a hazard. -/
theorem EscapesByHazard.visit (honly : r.engine.OnlyIterators) (hsorted : r.Sorted topo)
    (hsplit : topo = visited ++ id :: rest) (h : r.EscapesByHazard s)
    {schedule : List FanOut.Choice}
    (hvisit : r.Visit schedule (r.scopeTopo topo id) s id s') : r.EscapesByHazard s' := by
  have hknown : id ∈ r.spec.nodeMap.keys := (hsorted.mem_iff id).mp (by simp [hsplit])
  cases hvisit with
  | idle _ => exact h
  | aborted _ _ _ => exact h
  | unknown hready hnode =>
      rcases hsorted.exists_class hknown with ⟨node, _, hfound, _⟩
      rw [hnode] at hfound
      cases hfound
  | succeeded hready hplain outputs hexec =>
      refine h.append hready.escaped _ rfl ?_
      rw [nodeEvents_hazard_iff s.view hknown hsorted hplain, hexec]
      simp [succeedNode, hready.escaped]
  | failed hready hplain error hexec =>
      refine h.append hready.escaped (r.nodeEvents id s.view ++ [.failed .top id error])
        (by simp [failNode]) ?_
      have hnode := nodeEvents_hazard_iff s.view hknown hsorted hplain
      rw [hexec] at hnode
      have hnone : ∀ event ∈ r.nodeEvents id s.view, ¬ event.Hazard r := by
        intro event hmem hhazard
        rcases hnode.mp ⟨event, hmem, hhazard⟩ with ⟨exc, hexc⟩
        cases hexc
      refine iff_of_false (by simp [failNode, hready.escaped]) ?_
      rintro ⟨event, hmem, hhazard⟩
      rcases List.mem_append.mp hmem with hmem | hmem
      · exact hnone event hmem hhazard
      · rw [List.mem_singleton.mp hmem] at hhazard
        exact hhazard
  | escaped hready hplain exc hexec =>
      refine h.append hready.escaped _ rfl ?_
      rw [nodeEvents_hazard_iff s.view hknown hsorted hplain, hexec]
      simp [escapeNode]
  | planFailed hready hiter error hplan =>
      refine h.append hready.escaped _ rfl ?_
      have hstart := planFanOut_hazard_iff s.view honly hsorted hiter
      rw [hplan] at hstart
      have hfailed : ¬ (Event.failed .top id error).Hazard r := fun hfalse => hfalse
      simp only [failPlan, hready.escaped, ne_eq, not_true_eq_false, List.mem_cons,
        List.not_mem_nil, or_false, exists_eq_or_imp, exists_eq_left, hstart, hfailed]
      simp
  | planEscaped hready hiter exc hplan =>
      refine h.append hready.escaped _ rfl ?_
      have hstart := planFanOut_hazard_iff s.view honly hsorted hiter
      rw [hplan] at hstart
      simp [escapePlan, hstart]
  | iterationEscaped hready hiter plan hplan exc hexc =>
      refine h.append hready.escaped _ rfl ?_
      rw [fanOutTrace_hazard_iff honly hsorted hiter hplan schedule, hexc]
      simp [escapeIterations]
  | iterationFailed hready hiter plan hplan hcalm _ first others _ =>
      refine h.append hready.escaped _ rfl ?_
      rw [fanOutTrace_hazard_iff honly hsorted hiter hplan schedule, hcalm]
      simp [abortIterations, hready.escaped]
  | fannedIn hready hiter plan hplan hcalm _ =>
      refine h.append hready.escaped _ rfl ?_
      rw [fanOutTrace_hazard_iff honly hsorted hiter hplan schedule, hcalm]
      simp [fanIn, hready.escaped]

/-- The loop escapes exactly when one of its events is a hazard. -/
theorem run_escapes_iff (honly : r.engine.OnlyIterators) (hsorted : r.Sorted topo)
    (schedule : String → List FanOut.Choice) :
    r.EscapesByHazard (r.run schedule topo .initial topo) := by
  refine @run_invariant r schedule topo (fun _ s => r.EscapesByHazard s) ?_ ?_
  · intro visited id rest s hsplit h
    exact h.visit honly hsorted hsplit (visit_spec r schedule topo s id)
  · simp [EscapesByHazard, LoopState.initial]

theorem finish_isOk_iff (r : PipelineRun) (s : LoopState) :
    (∃ result, r.finish s = .ok result) ↔ s.escaped = none := by
  unfold finish
  cases s.escaped <;> simp

end PipelineRun

/-! ## The whole call -/

/-- A call returns a result if and only if the document has issues, or no secret
that is long enough to be redacted has a lone surrogate and no event of the run
is a hazard. -/
theorem executePipeline_returns_iff (en : Engine) (schedule : String → List FanOut.Choice)
    (spec : PipelineSpec) (secrets : OrderedDict String PyText) (options : ExecutionOptions)
    (honly : en.OnlyIterators) :
    (∃ result, (en.executePipeline schedule spec secrets options).outcome = .ok result) ↔
      en.validatePipeline spec ≠ [] ∨
        ((∀ value ∈ secrets.values, minRedactableLength ≤ value.length → ¬ value.HasSurrogate) ∧
          ∀ redactor, Redactor.ofSecrets secrets.values = .ok redactor →
            ∀ event ∈ (en.executePipeline schedule spec secrets options).trace,
              ¬ event.Hazard ⟨en, spec, ⟨secrets, options, redactor⟩⟩) := by
  rw [← ofSecrets_isOk_iff]
  rcases executePipeline_cases en schedule spec secrets options with
    ⟨hissues, heq⟩ | ⟨hvalid, topo, htopo, ⟨exc, hredactor, heq⟩ | ⟨redactor, hredactor, heq⟩⟩
  · simp [heq, hissues]
  · simp [heq, hvalid, hredactor]
  · have hsorted : PipelineRun.Sorted ⟨en, spec, ⟨secrets, options, redactor⟩⟩ topo :=
      ⟨Engine.validated_of_no_issues hvalid, htopo⟩
    have hescapes := run_escapes_iff honly hsorted schedule
    rw [heq]
    simp only [hvalid, hredactor, ne_eq, not_true_eq_false, false_or, Except.ok.injEq,
      exists_eq', true_and, forall_eq']
    rw [finish_isOk_iff, ← not_iff_not]
    refine hescapes.trans ?_
    simp [Execution.trace]

private theorem samples_onlyIterators : Samples.engine.OnlyIterators := by
  intro type cls hcls hfans
  have hmem := (OrderedDict.findPair_eq_some_iff Samples.engine.registry.nodup_keys type cls).mp hcls
  simp only [Samples.engine, List.mem_cons, Prod.mk.injEq, List.not_mem_nil, or_false] at hmem
  rcases hmem with ⟨_, rfl⟩ | ⟨_, rfl⟩ | ⟨_, rfl⟩ | ⟨_, rfl⟩ | ⟨_, rfl⟩
  · cases hfans
  · cases hfans
  · cases hfans
  · cases hfans
  · exact ⟨Samples.arrayConfig, rfl⟩

/-- A node whose config refers to the records of another one. -/
def referring (reference : String) : PipelineSpec :=
  Samples.document
    [Samples.node "rows" "source" [], Samples.node "use" "collect" [("limit", .str reference)]]
    [Samples.edge "rows" "use"]

theorem executePipeline_returns_referring :
    ∃ redactor, Redactor.ofSecrets [] = .ok redactor ∧
      ∀ event ∈ (Samples.execute (referring "$upstream.rows.0.id") false).trace,
        ¬ event.Hazard ⟨Samples.engine, referring "$upstream.rows.0.id",
          ⟨.empty, Samples.options false, redactor⟩⟩ := by
  have hvalid : Samples.engine.validatePipeline (referring "$upstream.rows.0.id") = [] := by
    decide +kernel
  have hreturns : (Samples.execute (referring "$upstream.rows.0.id") false).outcome.toOption.isSome =
      true := by decide +kernel
  cases houtcome : (Samples.execute (referring "$upstream.rows.0.id") false).outcome with
  | error exc =>
      rw [houtcome] at hreturns
      cases hreturns
  | ok result =>
      have hcalm := (executePipeline_returns_iff Samples.engine (fun _ => [])
        (referring "$upstream.rows.0.id") .empty (Samples.options false) samples_onlyIterators).mp
        ⟨result, houtcome⟩
      rcases hcalm with hissues | hcalm
      · exact absurd hvalid hissues
      · exact ⟨_, rfl, hcalm.2 _ rfl⟩

/-- A segment of two signs and a digit is taken for an index, and the conversion
raises outside of every handler. -/
theorem executePipeline_raises :
    Samples.engine.validatePipeline (referring "$upstream.rows.--1") = [] ∧
    ∃ exc, (Samples.execute (referring "$upstream.rows.--1") false).outcome = .error exc ∧
      exc.typeName = "ValueError" := by
  refine ⟨by decide +kernel, ?_⟩
  have hraises : (match (Samples.execute (referring "$upstream.rows.--1") false).outcome with
      | .error exc => some exc.typeName
      | .ok _ => none) = some "ValueError" := by decide +kernel
  cases houtcome : (Samples.execute (referring "$upstream.rows.--1") false).outcome with
  | error exc =>
      rw [houtcome] at hraises
      exact ⟨exc, rfl, Option.some.inj hraises⟩
  | ok result =>
      rw [houtcome] at hraises
      cases hraises

end EtlTool
