import EtlTool.Engine.Accounting

/-!
# Dependency order

A node is handed the outputs that are visible when it starts.  At top level the
topological order alone makes all its sources visible.  Inside an iteration it
does not: fanning out pulls the whole scope forward to the position of the
iterator, past outside nodes that only the scope waits for.

Main results:

- Theorem {lit}`started_available`: if the outside sources of every scope precede
  its iterator, then every node that starts before the first failure sees all its
  sources, and no preparation reports a missing output.
- Theorem {lit}`started_available_fails`: without that condition a validated
  document starts a node whose source has not run.
-/

namespace EtlTool

open TopologicalSort (Precedes)

/-! ## Availability -/

/-- A node has failed. -/
def Event.isFailure : Event → Bool
  | failed _ _ _ => true
  | _ => false

/-- A given node starts. -/
def Event.isStartOf (id : String) : Event → Bool
  | started _ other _ => other = id
  | _ => false

/-- A node that starts sees the port of every inbound edge and the outputs of
every node its references name. -/
def Event.Available (spec : PipelineSpec) : Event → Prop
  | started _ id view =>
      (∀ edge ∈ spec.inEdges id, view.port? edge ≠ none) ∧
        ∀ source ∈ spec.reads id, view source ≠ none
  | _ => True

instance Event.decidableAvailable (spec : PipelineSpec) :
    (event : Event) → Decidable (event.Available spec)
  | started _ id view =>
      inferInstanceAs (Decidable ((∀ edge ∈ spec.inEdges id, view.port? edge ≠ none) ∧
        ∀ source ∈ spec.reads id, view source ≠ none))
  | ran _ _ _ => inferInstanceAs (Decidable True)
  | failed _ _ _ => inferInstanceAs (Decidable True)
  | gathered _ _ _ => inferInstanceAs (Decidable True)

/-- The preparation of a node that starts reports that an input or a referenced
output is missing. -/
def Event.ReportsMissing (r : PipelineRun) : Event → Prop
  | started place id view =>
      (∃ fromNode fromPort, r.prepareNode id view place.iter? =
        .error (.fault (.inputUnavailable fromNode fromPort))) ∨
      ∃ target, r.prepareNode id view place.iter? =
        .error (.fault (.reference (.noAvailableOutput target)))
  | _ => False

/-- A node that sees all its sources is prepared without such a report. -/
theorem Event.Available.not_reportsMissing {r : PipelineRun} {event : Event}
    (h : event.Available r.spec) : ¬ event.ReportsMissing r := by
  cases event with
  | started place id view =>
      rintro (⟨fromNode, fromPort, hfault⟩ | ⟨target, hfault⟩)
      · rcases PipelineRun.prepareNode_inputUnavailable hfault with ⟨edge, hedge, _, _, hnone⟩
        exact h.1 edge hedge hnone
      · rcases PipelineRun.prepareNode_noAvailableOutput hfault with ⟨hsource, hnone⟩
        exact h.2 target hsource hnone
  | ran place id view => exact fun hfalse => hfalse
  | failed place id error => exact fun hfalse => hfalse
  | gathered id plan results => exact fun hfalse => hfalse

/-- The outside sources of every scope precede its iterator. -/
def Engine.ScopeSourcesPrecede (en : Engine) (spec : PipelineSpec) (topo : List String) : Prop :=
  ∀ iteratorId, en.IsIterator spec iteratorId → ∀ member, spec.Path iteratorId member →
    ∀ source ∈ spec.reads member, source ≠ iteratorId → ¬ spec.Path iteratorId source →
      Precedes topo source iteratorId

/-- It is enough to look at the nodes of the document. -/
theorem Engine.scopeSourcesPrecede_of_nodes {en : Engine} {spec : PipelineSpec}
    {topo : List String} (hids : spec.nodeMap.keys ⊆ topo)
    (h : ∀ node ∈ spec.nodes, en.fansOut node.type = true → ∀ member ∈ spec.descendants node.id,
      ∀ source ∈ spec.reads member, source ≠ node.id → source ∉ spec.descendants node.id →
        source ∈ topo.takeWhile (· ≠ node.id)) :
    en.ScopeSourcesPrecede spec topo := by
  rintro iteratorId ⟨node, hnode, hfans⟩ member hmember source hsource hne hinside
  rcases PipelineSpec.node?_mem hnode with ⟨hmem, rfl⟩
  apply TopologicalSort.precedes_of_mem_takeWhile
  · exact hids ((spec.mem_nodeMap_keys node.id).mpr ⟨node, hmem, rfl⟩)
  · rw [← PipelineSpec.mem_descendants_iff] at hmember hinside
    exact h node hmem hfans member hmember source hsource hne hinside

/-- Every event up to the first failure is available. -/
def AvailableUntilFailure (spec : PipelineSpec) (events : List Event) : Prop :=
  ∀ (k : Nat) (event : Event), events[k]? = some event →
    (∀ earlier ∈ events.take k, earlier.isFailure = false) → event.Available spec

private theorem quietTrace_of_isFailure {trace : List Event}
    (h : ∀ event ∈ trace, event.isFailure = false) : QuietTrace trace := by
  intro place id error hmem
  have hbad := h _ hmem
  cases hbad

theorem AvailableUntilFailure.append {spec : PipelineSpec} {first second : List Event}
    (hfirst : AvailableUntilFailure spec first)
    (hsecond : QuietTrace first → ∀ event ∈ second, event.Available spec) :
    AvailableUntilFailure spec (first ++ second) := by
  intro k event hevent hearlier
  by_cases hk : k < first.length
  · rw [List.getElem?_append_left hk] at hevent
    apply hfirst k event hevent
    rwa [List.take_append_of_le_length (Nat.le_of_lt hk)] at hearlier
  · rw [Nat.not_lt] at hk
    rw [List.getElem?_append_right hk] at hevent
    refine hsecond (quietTrace_of_isFailure fun earlier hmem => ?_) event
      (List.mem_of_getElem? hevent)
    apply hearlier
    rw [List.take_append]
    exact List.mem_append_left _ (by rwa [List.take_of_length_le hk])

namespace PipelineRun

variable {r : PipelineRun} {topo visited rest : List String} {s : LoopState} {id : String}

/-! ## One visit -/

private theorem Sorted.declared_port (hsorted : r.Sorted topo) {edge : EdgeSpec}
    (hedge : edge ∈ r.spec.edges) : edge.fromPort ∈ r.outputPorts edge.fromNode := by
  rcases hsorted.exists_class (hsorted.validated.edges_known edge hedge).1 with
    ⟨_, cls, _, _, hcls⟩
  rw [outputPorts, hcls]
  exact hsorted.validated.output_ports edge hedge cls hcls

/-- Without a failure so far, every visited node has outputs on all its ports. -/
theorem Books.visited_outputs (hb : r.Books visited s) (hquiet : QuietTrace s.trace) {n : String}
    (hn : n ∈ visited) :
    ∃ outputs, s.outputs.get? n = some outputs ∧
      ∀ port ∈ r.outputPorts n, outputs.contains port = true := by
  have herrors : s.errors = [] := by
    by_contra hne
    rcases (hb.dirty hne).2 with ⟨place, m, error, hevent⟩
    exact hquiet place m error hevent
  cases hresult : s.results.get? n with
  | none => exact absurd hresult (hb.done n hn)
  | some result =>
      have hcount := hb.counted n result hresult (hb.clean herrors n result hresult)
      have hstored := (hb.stored n).mpr ⟨result, hresult, hcount⟩
      cases houtputs : s.outputs.get? n with
      | none => exact absurd houtputs hstored
      | some outputs => exact ⟨outputs, rfl, hb.ports n outputs houtputs⟩

private theorem port?_ne_none {view : View} {edge : EdgeSpec} {outputs : NodeOutputs}
    (hview : view edge.fromNode = some outputs) (hport : outputs.contains edge.fromPort = true) :
    view.port? edge ≠ none := by
  unfold View.port?
  rw [hview]
  simpa [OrderedDict.contains, Option.isSome_iff_ne_none] using hport

/-- What is visible and has its declared ports makes a start available. -/
theorem available_of_sources (hsorted : r.Sorted topo) {place : Place} {view : View}
    (h : ∀ source ∈ r.spec.reads id, ∃ outputs, view source = some outputs ∧
      ∀ port ∈ r.outputPorts source, outputs.contains port = true) :
    (Event.started place id view).Available r.spec := by
  constructor
  · intro edge hedge
    rcases h edge.fromNode (mem_reads_of_edge hedge) with ⟨outputs, hview, hports⟩
    exact port?_ne_none hview
      (hports _ (hsorted.declared_port ((r.spec.mem_inEdges id edge).mp hedge).1))
  · intro source hsource
    rcases h source hsource with ⟨outputs, hview, _⟩
    simp [hview]

/-- At top level a node starts with all its sources visible. -/
theorem top_available (hsorted : r.Sorted topo) (hsplit : topo = visited ++ id :: rest)
    (hb : r.Books visited s) (hquiet : QuietTrace s.trace) :
    (Event.started .top id s.view).Available r.spec := by
  apply available_of_sources hsorted
  intro source hsource
  exact hb.visited_outputs hquiet
    (hsorted.visited_of_path hsplit (path_of_mem_reads hsorted.validated hsource))

private theorem outputPorts_of_iterator (hiter : r.engine.IsIterator r.spec id) :
    ∀ port ∈ r.outputPorts id, port = "out" := by
  rcases hiter with ⟨node, hnode, hfans⟩
  intro port hport
  unfold Engine.fansOut at hfans
  unfold outputPorts Engine.nodeClass? at hport
  rw [hnode, Option.bind_some] at hport
  cases hcls : r.engine.registry.get? node.type with
  | none => simp [hcls] at hfans
  | some cls =>
      rw [hcls] at hport hfans
      exact cls.fanOut_ports hfans port hport

/-- A scope node that its iteration has passed has outputs on all its ports. -/
theorem Progress.passed_outputs (hsorted : r.Sorted topo) {iter : IterContext} {st : IterationState}
    {passed : List String} {n : String} (hpath : r.spec.Path id n)
    (hpassed : ∀ n ∈ passed, ∃ view outputs, st.outputs.get? n = some outputs ∧
      r.executeNode n view (some iter) = .ok outputs) (hn : n ∈ passed) (outer : View) :
    ∃ outputs, chainView st.outputs outer n = some outputs ∧
      ∀ port ∈ r.outputPorts n, outputs.contains port = true := by
  rcases hpassed n hn with ⟨view, outputs, hget, hexec⟩
  refine ⟨outputs, by simp [chainView, hget], ?_⟩
  rcases hsorted.exists_class (hsorted.known_of_path hpath) with ⟨_, cls, _, _, hcls⟩
  rw [outputPorts, hcls]
  exact executeNode_ok_contains hexec hcls

/-- Inside an iteration a node starts with all its sources visible, if the
outside sources of the scope precede the iterator. -/
theorem iteration_available (hsorted : r.Sorted topo) (hsplit : topo = visited ++ id :: rest)
    (hb : r.Books visited s) (hquiet : QuietTrace s.trace)
    (hiter : r.engine.IsIterator r.spec id)
    (hordered : r.engine.ScopeSourcesPrecede r.spec topo) {iter : IterContext}
    {st : IterationState} (hprogress : Progress r id (r.scopeTopo topo id) iter st) {n : String}
    {others : List String} (hremaining : st.remaining = n :: others) (place : Place) :
    (Event.started place n (chainView st.outputs s.view)).Available r.spec := by
  rcases hprogress.passed with ⟨passed, hscope, hpassed, honly⟩
  rw [hremaining] at hscope
  have hnscope : n ∈ r.scopeTopo topo id := by simp [hscope]
  have hnpath := (hsorted.mem_scope id n).mp hnscope
  apply available_of_sources hsorted
  intro source hsource
  have hsourcePath := path_of_mem_reads hsorted.validated hsource
  by_cases hown : source = id
  · -- the iterator itself is visible through its own record
    rw [hown]
    refine ⟨.singleton "out" [iterationRecord iter.value iter.index],
      by simp [chainView, hprogress.own], fun port hport => ?_⟩
    rw [outputPorts_of_iterator hiter port hport]
    simp [OrderedDict.contains]
  · by_cases hinside : r.spec.Path id source
    · -- a source inside the scope comes earlier in the iteration
      have hsourceScope := (hsorted.mem_scope id source).mpr hinside
      have hprecedes : Precedes (r.scopeTopo topo id) source n :=
        (hsorted.precedes hsourcePath).filter (List.mem_filter.mp hsourceScope).2
          (List.mem_filter.mp hnscope).2
      have hmem := hprecedes.mem_initial (hsorted.nodup.filter _) hscope
      exact Progress.passed_outputs hsorted hinside hpassed hmem s.view
    · -- a source outside the scope was visited before the iterator
      have hprecedes := hordered id hiter n hnpath source hsource hown hinside
      have hvisited := hprecedes.mem_initial hsorted.nodup hsplit
      have hnot : source ∉ passed := by
        intro hmem
        exact hinside ((hsorted.mem_scope id source).mp (by simp [hscope, hmem]))
      rcases hb.visited_outputs hquiet hvisited with ⟨outputs, hget, hports⟩
      exact ⟨outputs, by simpa [chainView, honly source hown hnot, LoopState.view] using hget, hports⟩

/-- What a fan-out starts before its first failure is available. -/
theorem fanOutTrace_available (hsorted : r.Sorted topo) (hsplit : topo = visited ++ id :: rest)
    (hb : r.Books visited s) (hquiet : QuietTrace s.trace)
    (hiter : r.engine.IsIterator r.spec id) (hordered : r.engine.ScopeSourcesPrecede r.spec topo)
    (plan : FanOutPlan) (schedule : List FanOut.Choice) :
    ∀ event ∈ r.fanOutTrace s id (r.scopeTopo topo id) plan schedule, event.Available r.spec := by
  intro event hevent
  rcases List.mem_cons.mp hevent with heq | hevent
  · rw [heq]
    exact top_available hsorted hsplit hb hquiet
  · cases event with
    | started place n view =>
        have hstarted : Event.started place n view ∈
            r.fanOutEvents id (r.scopeTopo topo id) s.view plan schedule := by
          simpa using hevent
        rcases mem_fanOutEvents_started (hsorted.not_mem_scope id) hstarted with
          ⟨i, value, st, others, _, hprogress, hremaining, _, rfl⟩
        exact iteration_available hsorted hsplit hb hquiet hiter hordered hprogress hremaining place
    | ran place n view => trivial
    | failed place n error => trivial
    | gathered iteratorId plan results => trivial

private theorem nodeEvents_available (hsorted : r.Sorted topo)
    (hsplit : topo = visited ++ id :: rest)
    (hb : r.Books visited s) (hquiet : QuietTrace s.trace) :
    ∀ event ∈ r.nodeEvents id s.view, event.Available r.spec := by
  intro event hevent
  rcases List.mem_cons.mp hevent with heq | hevent
  · rw [heq]
    exact top_available hsorted hsplit hb hquiet
  · split at hevent
    · rw [List.mem_singleton.mp hevent]
      trivial
    · cases hevent

/-- Every visit keeps what starts before the first failure available. -/
theorem Visit.available (hsorted : r.Sorted topo) (hsplit : topo = visited ++ id :: rest)
    (hordered : r.engine.ScopeSourcesPrecede r.spec topo)
    (hbooks : s.escaped = none → r.Books visited s) (h : AvailableUntilFailure r.spec s.trace)
    {schedule : List FanOut.Choice} {s' : LoopState}
    (hvisit : r.Visit schedule (r.scopeTopo topo id) s id s') :
    AvailableUntilFailure r.spec s'.trace := by
  have hnode : s.escaped = none →
      AvailableUntilFailure r.spec (s.trace ++ r.nodeEvents id s.view) := fun hlive =>
    h.append fun hquiet => nodeEvents_available hsorted hsplit (hbooks hlive) hquiet
  have hfan : s.escaped = none → r.engine.IsIterator r.spec id → ∀ plan,
      AvailableUntilFailure r.spec
        (s.trace ++ r.fanOutTrace s id (r.scopeTopo topo id) plan schedule) :=
    fun hlive hiter plan => h.append fun hquiet =>
      fanOutTrace_available hsorted hsplit (hbooks hlive) hquiet hiter hordered plan schedule
  cases hvisit with
  | idle _ => exact h
  | aborted _ _ _ => exact h
  | unknown _ _ => exact h
  | succeeded hready _ outputs _ => exact hnode hready.escaped
  | failed hready _ error _ =>
      refine (hnode hready.escaped).append fun _ event hevent => ?_
      rw [List.mem_singleton.mp hevent]
      trivial
  | escaped hready _ exc _ => exact hnode hready.escaped
  | planFailed hready _ error _ =>
      refine h.append fun hquiet event hevent => ?_
      rcases List.mem_cons.mp hevent with heq | hevent
      · rw [heq]
        exact top_available hsorted hsplit (hbooks hready.escaped) hquiet
      · rw [List.mem_singleton.mp hevent]
        trivial
  | planEscaped hready _ exc _ =>
      refine h.append fun hquiet event hevent => ?_
      rw [List.mem_singleton.mp hevent]
      exact top_available hsorted hsplit (hbooks hready.escaped) hquiet
  | iterationEscaped hready hiter plan _ exc _ => exact hfan hready.escaped hiter plan
  | iterationFailed hready hiter plan _ _ _ first others _ => exact hfan hready.escaped hiter plan
  | fannedIn hready hiter plan _ _ _ => exact hfan hready.escaped hiter plan

/-- After the loop, what started before the first failure was available. -/
theorem run_available (hsorted : r.Sorted topo) (schedule : String → List FanOut.Choice)
    (hordered : r.engine.ScopeSourcesPrecede r.spec topo) :
    AvailableUntilFailure r.spec (r.run schedule topo .initial topo).trace := by
  have hboth := @run_invariant_of_books r topo hsorted schedule
    (fun _ s => AvailableUntilFailure r.spec s.trace)
    (fun _ _ _ _ _ hsplit hbooks hvisit h => hvisit.available hsorted hsplit hordered hbooks h)
    (by simp [AvailableUntilFailure, LoopState.initial])
  exact hboth.2

end PipelineRun

/-! ## The order of a whole call -/

/-- If the outside sources of every scope precede its iterator, then every node
that starts before the first failure sees all its sources, and no preparation
reports a missing output. -/
theorem started_available (en : Engine) (schedule : String → List FanOut.Choice)
    (spec : PipelineSpec) (secrets : OrderedDict String PyText) (options : ExecutionOptions)
    (hvalid : en.validatePipeline spec = [])
    (hordered : ∀ topo, spec.topoOrder = some topo → en.ScopeSourcesPrecede spec topo)
    (k : Nat) (event : Event)
    (hevent : (en.executePipeline schedule spec secrets options).trace[k]? = some event)
    (hearlier : ∀ earlier ∈ (en.executePipeline schedule spec secrets options).trace.take k,
      earlier.isFailure = false) :
    event.Available spec ∧ ∀ ctx, ¬ event.ReportsMissing ⟨en, spec, ctx⟩ := by
  have havailable : AvailableUntilFailure spec
      (en.executePipeline schedule spec secrets options).trace := by
    rcases executePipeline_cases en schedule spec secrets options with
      ⟨hissues, _⟩ | ⟨_, topo, htopo, ⟨exc, _, heq⟩ | ⟨redactor, _, heq⟩⟩
    · exact absurd hvalid hissues
    · rw [heq]
      simp [AvailableUntilFailure, Execution.trace, LoopState.initial]
    · rw [heq]
      have hsorted : PipelineRun.Sorted ⟨en, spec, ⟨secrets, options, redactor⟩⟩ topo :=
        ⟨Engine.validated_of_no_issues hvalid, htopo⟩
      exact PipelineRun.run_available hsorted schedule (hordered topo htopo)
  have hnow := havailable k event hevent hearlier
  exact ⟨hnow, fun ctx => Event.Available.not_reportsMissing (r := ⟨en, spec, ctx⟩) hnow⟩

/-- A scope node with a second input from outside, which is declared first. -/
def earlySource : PipelineSpec :=
  Samples.document
    [Samples.node "lookup" "source" [], Samples.iterator "each" [.int 7],
      Samples.node "work" "collect" []]
    [Samples.edge "each" "work", Samples.edge "lookup" "work"]

theorem started_available_earlySource :
    ∃ event, (Samples.execute earlySource false).trace[3]? = some event ∧
      event.isStartOf "work" = true ∧ event.Available earlySource ∧
      ∀ ctx, ¬ event.ReportsMissing ⟨Samples.engine, earlySource, ctx⟩ := by
  have hwork : ((Samples.execute earlySource false).trace[3]?.map (Event.isStartOf "work")) =
      some true := by decide +kernel
  rcases Option.map_eq_some_iff.mp hwork with ⟨event, hevent, hstart⟩
  refine ⟨event, hevent, hstart, ?_⟩
  have hsources : ∀ topo, earlySource.topoOrder = some topo →
      Samples.engine.ScopeSourcesPrecede earlySource topo := by
    intro topo htopo
    have horder : earlySource.topoOrder = some ["lookup", "each", "work"] := by decide +kernel
    rw [horder, Option.some.injEq] at htopo
    subst htopo
    exact Engine.scopeSourcesPrecede_of_nodes (by decide +kernel) (by decide +kernel)
  exact started_available Samples.engine _ earlySource _ _ (by decide +kernel) hsources 3 event
    hevent (by decide +kernel)

/-- The same scope, but the outside source is declared last. -/
def lateSource : PipelineSpec :=
  Samples.document
    [Samples.iterator "each" [.int 7], Samples.node "work" "collect" [],
      Samples.node "lookup" "source" []]
    [Samples.edge "each" "work", Samples.edge "lookup" "work"]

/-- Fanning out pulls the scope forward past a source that only the scope waits
for: the document has no issues, nothing has failed, and yet the node starts
without its source and fails. -/
theorem started_available_fails :
    Samples.engine.validatePipeline lateSource = [] ∧
    (∃ event, (Samples.execute lateSource false).trace[1]? = some event ∧
      (∀ earlier ∈ (Samples.execute lateSource false).trace.take 1, earlier.isFailure = false) ∧
      event.isStartOf "work" = true ∧ ¬ event.Available lateSource) ∧
    ((Samples.execute lateSource false).outcome.toOption.map fun result =>
      result.errors.map NodeError.message) = some ["input from 'lookup'.out is unavailable"] := by
  refine ⟨by decide +kernel, ?_, by decide +kernel⟩
  have hwork : ((Samples.execute lateSource false).trace[1]?.map fun event =>
      event.isStartOf "work" && !decide (event.Available lateSource)) = some true := by
    decide +kernel
  rcases Option.map_eq_some_iff.mp hwork with ⟨event, hevent, hcheck⟩
  rw [Bool.and_eq_true, Bool.not_eq_true', decide_eq_false_iff_not] at hcheck
  exact ⟨event, hevent, by decide +kernel, hcheck.1, hcheck.2⟩

end EtlTool
