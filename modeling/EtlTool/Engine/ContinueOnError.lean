import EtlTool.Engine.Lockstep

/-!
# Continuing on error

With {lit}`continue_on_error` a failure outside the scopes is meant to skip its
descendants and nothing else.  Skipping is undone when a skipped node belongs to
the scope of an iterator that is still to come: the fan-out executes the whole
scope, and the node fails in every iteration because its input is missing.

Main results:

- Theorem {lit}`skips_descendants_iff`: exactly the descendants of the failures are
  skipped, and everything else is as in the healthy run, if and only if no live
  iterator has a scope node below a failing node.
- Theorem {lit}`skips_descendants_fails`: otherwise the scope node is executed,
  fails, and takes its whole iteration with it.
-/

namespace EtlTool

open PipelineRun

/-- Some node outside the scopes that has failed is an ancestor. -/
def RunResult.FailedAbove (result : RunResult) (en : Engine) (spec : PipelineSpec)
    (id : String) : Prop :=
  ∃ a nodeResult, result.nodeResults.get? a = some nodeResult ∧ nodeResult.status = .failed ∧
    en.Unscoped spec a ∧ spec.Path a id

/-- A node has not failed. -/
def RunResult.NotFailed (result : RunResult) (id : String) : Prop :=
  ∀ nodeResult, result.nodeResults.get? id = some nodeResult → nodeResult.status ≠ .failed

/-- A run skips exactly the descendants of its failures: they are never executed,
report nothing and end skipped, and what no failure precedes succeeds with the
outputs of the healthy run. -/
structure RunResult.SkipsDescendants (result : RunResult) (en : Engine) (spec : PipelineSpec)
    (state healthy : LoopState) : Prop where
  not_started : ∀ id, result.FailedAbove en spec id →
    ∀ place view, .started place id view ∉ state.trace
  not_reported : ∀ id, result.FailedAbove en spec id → ∀ error ∈ result.errors, error.nodeId ≠ id
  skipped : ∀ id, result.FailedAbove en spec id →
    ∃ nodeResult, result.nodeResults.get? id = some nodeResult ∧ nodeResult.status = .skipped
  succeeded : ∀ node ∈ spec.nodes, result.NotFailed node.id →
    (∀ a, spec.Path a node.id → result.NotFailed a) →
    (∃ nodeResult, result.nodeResults.get? node.id = some nodeResult ∧
      nodeResult.status = .succeeded) ∧
    state.outputs.get? node.id = healthy.outputs.get? node.id

/-! ## First failing ancestors -/

/-- Above a doomed node there is a failing node that is not doomed itself. -/
theorem PipelineSpec.Doomed.exists_first {spec : PipelineSpec} {failing : String → Prop}
    {topo : List String} (hnodup : topo.Nodup)
    (hprecedes : ∀ a b, spec.Path a b → TopologicalSort.Precedes topo a b) {id : String}
    (h : spec.Doomed failing id) :
    ∃ f, failing f ∧ ¬ spec.Doomed failing f ∧ spec.Path f id := by
  -- induction on the position in the topological order
  have hgeneral : ∀ (k : Nat) (before : List String) (f : String) (after : List String),
      before.length = k → topo = before ++ f :: after → failing f → spec.Path f id →
      ∃ g, failing g ∧ ¬ spec.Doomed failing g ∧ spec.Path g id := by
    intro k
    induction k using Nat.strongRecOn with
    | ind k ih =>
        intro before f after hlen hsplit hf hpath
        by_cases hdoomed : spec.Doomed failing f
        · rcases hdoomed with ⟨g, hg, hgf⟩
          rcases List.append_of_mem ((hprecedes g f hgf).mem_initial hnodup hsplit) with
            ⟨first, second, hbefore⟩
          have hsplit' : topo = first ++ g :: (second ++ f :: after) := by
            rw [hsplit, hbefore]
            simp
          have hlt : first.length < k := by
            rw [← hlen, hbefore]
            simp
          exact ih first.length hlt first g _ rfl hsplit' hg (hgf.trans hpath)
        · exact ⟨f, hf, hdoomed, hpath⟩
  rcases h with ⟨f, hf, hpath⟩
  rcases List.append_of_mem (hprecedes f id hpath).mem_left with ⟨before, after, hsplit⟩
  exact hgeneral before.length before f after rfl hsplit hf hpath

/-! ## From lockstep to the result -/

section Result

variable {healthy faulty : Engine} {spec : PipelineSpec} {ctx : RunContext}
  {failing : String → Prop} {final : View} {topo : List String} {s₀ s : LoopState}
  {result : RunResult}

private theorem Comparison.doomed_of_failedAbove
    (h : Comparison healthy faulty spec ctx failing final topo)
    (hl : Lockstep healthy spec failing topo s₀ s) (hscopes : healthy.ScopesClean spec failing)
    (hresults : result.nodeResults = s.results) {id : String}
    (habove : result.FailedAbove healthy spec id) : spec.Doomed failing id := by
  rcases habove with ⟨a, nodeResult, hfound, hstatus, hunscoped, hpath⟩
  rw [hresults] at hfound
  have hknown : ∀ {m}, spec.Path m a → m ∈ topo := fun hpath =>
    (h.sorted₀.precedes hpath).mem_left
  refine ⟨a, ?_, hpath⟩
  by_contra hsound
  have halive : ¬ spec.Doomed failing a := by
    rintro ⟨f, hf, hfa⟩
    rcases hl.doomed f (hknown hfa) hf a hfa with
      ⟨skippedResult, hskipped, hskippedStatus⟩ | ⟨iteratorId, _, hlive, hbelow⟩
    · rw [hfound] at hskipped
      cases hskipped
      rw [hstatus] at hskippedStatus
      cases hskippedStatus
    · exact hunscoped iteratorId hlive.iterator hbelow
  have hspared : healthy.Spared spec failing a := {
    sound := hsound
    alive := halive
    clean := by
      intro iteratorId hiter hmem
      rcases hmem with rfl | hbelow
      · exact hscopes a ⟨hiter, hsound, halive⟩
      · exact absurd hbelow (hunscoped iteratorId hiter) }
  rw [hl.spared a nodeResult hspared hfound] at hstatus
  cases hstatus

/-- With clean scopes, lockstep means that exactly the descendants are skipped. -/
theorem Comparison.skipsDescendants
    (h : Comparison healthy faulty spec ctx failing final topo)
    (hl : Lockstep healthy spec failing topo s₀ s)
    (hb : (faulty.on spec ctx).Books topo s) (hscopes : healthy.ScopesClean spec failing)
    (hresults : result.nodeResults = s.results) (herrors : result.errors = s.errors) :
    result.SkipsDescendants healthy spec s s₀ := by
  have hdoomed : ∀ {id}, result.FailedAbove healthy spec id → spec.Doomed failing id :=
    fun habove => h.doomed_of_failedAbove hl hscopes hresults habove
  have hspared : ∀ {id}, ¬ failing id → ¬ spec.Doomed failing id →
      healthy.Spared spec failing id := by
    intro id hsound halive
    refine ⟨hsound, halive, fun iteratorId hiter hmem => ?_⟩
    have hup : ∀ {f}, failing f → f = iteratorId ∨ spec.Path f iteratorId → False := by
      intro f hf habove
      rcases habove with rfl | hpath
      · rcases hmem with rfl | hbelow
        · exact hsound hf
        · exact halive ⟨f, hf, hbelow⟩
      · rcases hmem with rfl | hbelow
        · exact halive ⟨f, hf, hpath⟩
        · exact halive ⟨f, hf, hpath.trans hbelow⟩
    exact hscopes iteratorId ⟨hiter, fun hf => hup hf (Or.inl rfl),
      fun ⟨f, hf, hpath⟩ => hup hf (Or.inr hpath)⟩
  constructor
  · intro id habove place view hevent
    rcases hl.started place id view hevent (hdoomed habove) with ⟨iteratorId, hlive, hbelow⟩
    exact hscopes iteratorId hlive id hbelow (hdoomed habove)
  · intro id habove error herror hid
    rw [herrors] at herror
    rcases hl.errors error herror with ⟨_, halive⟩ | ⟨iteratorId, hlive, hunclean⟩
    · exact halive (hid ▸ hdoomed habove)
    · exact hunclean (hscopes iteratorId hlive)
  · intro id habove
    rw [hresults]
    rcases hdoomed habove with ⟨f, hf, hpath⟩
    rcases hl.doomed f (h.sorted₀.precedes hpath).mem_left hf id hpath with
      hskipped | ⟨iteratorId, _, hlive, hbelow⟩
    · exact hskipped
    · exact absurd ⟨f, hf, hpath⟩ (hscopes iteratorId hlive id hbelow)
  · intro node hnode hself habove
    have hfailed : ∀ f, failing f → ¬ spec.Doomed failing f → f ∈ topo → ¬ result.NotFailed f := by
      intro f hf halive hmem hnot
      rcases hl.failed f hmem hf halive with ⟨nodeResult, hfound, hstatus⟩
      exact hnot nodeResult (hresults ▸ hfound) hstatus
    have halive : ¬ spec.Doomed failing node.id := by
      intro hd
      rcases hd.exists_first h.sorted₀.nodup (fun a b => h.sorted₀.precedes) with
        ⟨f, hf, hfirst, hpath⟩
      exact hfailed f hf hfirst (h.sorted₀.precedes hpath).mem_left (habove f hpath)
    have hmem : node.id ∈ topo :=
      (h.sorted₀.mem_iff node.id).mpr ((spec.mem_nodeMap_keys node.id).mpr ⟨node, hnode, rfl⟩)
    have hsound : ¬ failing node.id := fun hf => hfailed node.id hf halive hmem hself
    have hs := hspared hsound halive
    refine ⟨?_, hl.outputs node.id hs⟩
    cases hfound : s.results.get? node.id with
    | none => exact absurd hfound (hb.done node.id hmem)
    | some nodeResult =>
        exact ⟨nodeResult, hresults ▸ hfound, hl.spared node.id nodeResult hs hfound⟩

/-- If exactly the descendants are skipped, then the scopes are clean: a scope
node of a live iterator is never skipped. -/
theorem Comparison.scopesClean
    (h : Comparison healthy faulty spec ctx failing final topo)
    (hl : Lockstep healthy spec failing topo s₀ s)
    (hresults : result.nodeResults = s.results)
    (hskips : result.SkipsDescendants healthy spec s s₀) : healthy.ScopesClean spec failing := by
  intro iteratorId hlive member hmember hdoomed
  rcases hdoomed.exists_first h.sorted₀.nodup (fun a b => h.sorted₀.precedes) with
    ⟨f, hf, hfirst, hpath⟩
  rcases hl.failed f (h.sorted₀.precedes hpath).mem_left hf hfirst with ⟨failure, hfound, hstatus⟩
  have habove : result.FailedAbove healthy spec member :=
    ⟨f, failure, hresults ▸ hfound, hstatus, h.outside f hf, hpath⟩
  rcases hskips.skipped member habove with ⟨skipped, hskipped, hskippedStatus⟩
  rcases hl.gathered iteratorId (h.sorted₀.precedes hmember).mem_left hlive member hmember with
    ⟨gathered, hgathered, hne⟩
  rw [hresults, hgathered] at hskipped
  cases hskipped
  exact hne hskippedStatus

end Result

/-! ## The whole call -/

/-- A call on a validated document that returns has run the loop. -/
theorem executePipeline_returned {en : Engine} {schedule : String → List FanOut.Choice}
    {spec : PipelineSpec} {secrets : OrderedDict String PyText} {options : ExecutionOptions}
    {redactor : Redactor} (hvalid : en.validatePipeline spec = []) {topo : List String}
    (htopo : spec.topoOrder = some topo) (hredactor : Redactor.ofSecrets secrets.values = .ok redactor) :
    en.executePipeline schedule spec secrets options =
      ⟨(en.on spec ⟨secrets, options, redactor⟩).run schedule topo .initial topo,
        (en.on spec ⟨secrets, options, redactor⟩).finish
          ((en.on spec ⟨secrets, options, redactor⟩).run schedule topo .initial topo)⟩ := by
  simp only [Engine.executePipeline, hvalid, htopo, hredactor]

/-- Nodes outside the scopes fail, the run continues, and no node fails in the
same run without these failures.  Then exactly the descendants of the failures
are skipped, and everything else is as in that run, if and only if no iterator
that is going to be fanned out has a scope node below a failing node. -/
theorem skips_descendants_iff (healthy faulty : Engine)
    (schedule₀ schedule : String → List FanOut.Choice) (spec : PipelineSpec)
    (secrets : OrderedDict String PyText) (options : ExecutionOptions) (failing : String → Prop)
    (hvalid₀ : healthy.validatePipeline spec = []) (hvalid : faulty.validatePipeline spec = [])
    (hcontinue : options.continueOnError = true)
    (houtside : ∀ f, failing f → healthy.Unscoped spec f) {result₀ : RunResult}
    (hhealthy : (healthy.executePipeline schedule₀ spec secrets options).outcome = .ok result₀)
    (hclean : result₀.errors = [])
    (hpattern : faulty.FailsAt healthy spec failing
      (healthy.executePipeline schedule₀ spec secrets options).state.view) :
    (∃ result, (faulty.executePipeline schedule spec secrets options).outcome = .ok result ∧
      result.SkipsDescendants healthy spec
        (faulty.executePipeline schedule spec secrets options).state
        (healthy.executePipeline schedule₀ spec secrets options).state) ↔
    ∀ iteratorId, healthy.IsIterator spec iteratorId → ¬ failing iteratorId →
      (¬ ∃ f, failing f ∧ spec.Path f iteratorId) →
      ∀ member, spec.Path iteratorId member → ¬ ∃ f, failing f ∧ spec.Path f member := by
  have hcondition : (∀ iteratorId, healthy.IsIterator spec iteratorId → ¬ failing iteratorId →
      (¬ ∃ f, failing f ∧ spec.Path f iteratorId) →
      ∀ member, spec.Path iteratorId member → ¬ ∃ f, failing f ∧ spec.Path f member) ↔
      healthy.ScopesClean spec failing :=
    ⟨fun hall iteratorId hlive => hall iteratorId hlive.iterator hlive.sound hlive.alive,
      fun hscopes iteratorId hiter hsound halive => hscopes iteratorId ⟨hiter, hsound, halive⟩⟩
  rw [hcondition]
  rcases executePipeline_cases healthy schedule₀ spec secrets options with
    ⟨hissues, _⟩ | ⟨_, topo, htopo, ⟨exc, _, heq⟩ | ⟨redactor, hredactor, heq⟩⟩
  · exact absurd hvalid₀ hissues
  · rw [heq] at hhealthy
    cases hhealthy
  · rw [heq] at hhealthy hpattern ⊢
    rw [executePipeline_returned hvalid htopo hredactor]
    rcases finish_fields hhealthy with ⟨hlive₀, _, herrors₀⟩
    have h : Comparison healthy faulty spec ⟨secrets, options, redactor⟩ failing
        ((healthy.on spec ⟨secrets, options, redactor⟩).run schedule₀ topo .initial topo).view
        topo := {
      pattern := hpattern
      outside := houtside
      sorted₀ := ⟨Engine.validated_of_no_issues hvalid₀, htopo⟩
      sorted := ⟨Engine.validated_of_no_issues hvalid, htopo⟩
      continues := hcontinue }
    have hrun := @Comparison.run _ _ _ _ _ _ _ [] .initial .initial h schedule₀ schedule topo rfl
      ⟨herrors₀ ▸ hclean, hlive₀⟩ rfl (Books.initial _)
      fun _ => ⟨Books.initial _, Lockstep.initial healthy spec failing⟩
    constructor
    · rintro ⟨result, houtcome, hskips⟩
      rcases finish_fields houtcome with ⟨hlive, hresults, _⟩
      exact h.scopesClean (hrun.1 hlive) hresults hskips
    · intro hscopes
      have hlive := hrun.2 hscopes rfl
      have hbooks := run_books h.sorted schedule hlive
      rcases hfinish : (faulty.on spec ⟨secrets, options, redactor⟩).finish
        ((faulty.on spec ⟨secrets, options, redactor⟩).run schedule topo .initial topo) with
        exc | result
      · simp only [finish, hlive] at hfinish
        cases hfinish
      · rcases finish_fields hfinish with ⟨_, hresults, herrors⟩
        exact ⟨result, rfl, h.skipsDescendants (hrun.1 hlive) hbooks hscopes hresults herrors⟩

/-! ## A class that fails -/

/-- The engine with another class for one type. -/
def Engine.withClass (en : Engine) (type : String) (cls : NodeClass) : Engine :=
  { en with registry := en.registry.set type cls }

section WithClass

variable {en : Engine} {spec : PipelineSpec} {ctx : RunContext} {type id : String}
  {cls old : NodeClass}

private theorem prepareNode_withClass (htype : ∀ node, spec.node? id = some node → node.type ≠ type)
    (view : View) (iter : Option IterContext) :
    ((en.withClass type cls).on spec ctx).prepareNode id view iter =
      (en.on spec ctx).prepareNode id view iter := by
  unfold prepareNode
  cases hnode : spec.node? id with
  | none => rfl
  | some node =>
      have hclass : (en.registry.set type cls).get? node.type = en.registry.get? node.type :=
        OrderedDict.get?_set_of_ne _ (htype node hnode) _
      simp only [Engine.withClass, hclass]
      rfl

/-- Replacing the class of failing nodes by one of the same shape that fails
makes an engine that fails at these nodes. -/
theorem Engine.failsAt_withClass (hold : en.registry.get? type = some old)
    (hfans : cls.fanOut.isSome = old.fanOut.isSome) (hports : cls.outputPorts = old.outputPorts)
    {failing : String → Prop} {outputs : View}
    (hfailing : ∀ id node, spec.node? id = some node → node.type = type → failing id)
    (hexecute : ∀ ctx id, failing id → ¬ en.IsIterator spec id → ∀ view,
      (∀ source ∈ spec.reads id, view source = outputs source) → ∃ error : NodeError,
        error.nodeId = id ∧
        ((en.withClass type cls).on spec ctx).executeNode id view none = .error (.node error))
    (hplan : ∀ ctx id, failing id → en.IsIterator spec id → ∀ view,
      (∀ source ∈ spec.reads id, view source = outputs source) → ∃ error : NodeError,
        error.nodeId = id ∧
        ((en.withClass type cls).on spec ctx).planFanOut id view = .error (.node error)) :
    (en.withClass type cls).FailsAt en spec failing outputs where
  runtime := rfl
  iterators := by
    intro id
    have hfansOut : ∀ t, (en.withClass type cls).fansOut t = en.fansOut t := by
      intro t
      unfold Engine.fansOut Engine.withClass
      simp only [OrderedDict.get?_set]
      by_cases ht : t = type
      · simp [ht, hold, hfans]
      · simp [ht]
    simp only [Engine.IsIterator, hfansOut]
  ports := by
    intro ctx id
    unfold outputPorts Engine.nodeClass? Engine.withClass
    cases hnode : spec.node? id with
    | none => rfl
    | some node =>
        simp only [Option.bind_some, OrderedDict.get?_set]
        by_cases ht : node.type = type
        · simp [ht, hold, hports]
        · simp [ht]
  same_execute := by
    intro ctx id hsound view iter
    unfold executeNode
    rw [prepareNode_withClass fun node hnode ht => hsound (hfailing id node hnode ht)]
    rfl
  same_plan := by
    intro ctx id hsound view
    unfold planFanOut
    rw [prepareNode_withClass fun node hnode ht => hsound (hfailing id node hnode ht)]
    rfl
  fail_execute := hexecute
  fail_plan := hplan

end WithClass

/-- A source that cannot be read. -/
def Samples.brokenSource : NodeClass :=
  dataNode [] fun _ ctx => .error (.node (ctx.error .transform "broken"))

/-- The sample engine, all of whose sources fail. -/
def Samples.faultyEngine : Engine :=
  engine.withClass "source" brokenSource

/-- A sample document whose source is {lit}`fetch`. -/
def fetchDocument (edges : List EdgeSpec) : PipelineSpec :=
  Samples.document
    [Samples.node "fetch" "source" [], Samples.node "report" "collect" [],
      Samples.iterator "each" [.int 7], Samples.node "work" "collect" []]
    edges

/-- In these documents the pattern of the faulty engine is the source. -/
theorem faultyEngine_failsAt {edges : List EdgeSpec}
    (hedges : (fetchDocument edges).inEdges "fetch" = []) (outputs : View) :
    Samples.faultyEngine.FailsAt Samples.engine (fetchDocument edges) (fun id => id = "fetch")
      outputs := by
  have hnode : (fetchDocument edges).node? "fetch" = some (Samples.node "fetch" "source" []) := rfl
  refine @Engine.failsAt_withClass Samples.engine _ "source" Samples.brokenSource Samples.source
    rfl rfl rfl _ outputs ?_ ?_ ?_
  · intro id node hfound htype
    rcases PipelineSpec.node?_mem hfound with ⟨hmem, rfl⟩
    have hall : ∀ n ∈ (fetchDocument []).nodes, n.type = "source" → n.id = "fetch" := by
      decide +kernel
    exact hall node hmem htype
  · intro ctx id hid _ view _
    subst hid
    refine ⟨NodeContext.error ⟨ctx, "fetch", "source", none⟩ .transform "broken", rfl, ?_⟩
    have hprepare : (Samples.faultyEngine.on (fetchDocument edges) ctx).prepareNode "fetch" view none =
        .ok ⟨Samples.brokenSource, (), .empty, ⟨ctx, "fetch", "source", none⟩⟩ := by
      unfold prepareNode
      simp only [hnode]
      have hclass : (Samples.engine.registry.set "source" Samples.brokenSource).get? "source" =
          some Samples.brokenSource := OrderedDict.get?_set_self _ _ _
      simp only [Samples.faultyEngine, Engine.withClass, Samples.node, hclass, prepareWith, hedges]
      rfl
    have hprepare' : ((Samples.engine.withClass "source" Samples.brokenSource).on
        (fetchDocument edges) ctx).prepareNode "fetch" view none = _ := hprepare
    unfold executeNode
    rw [hprepare']
    rfl
  · rintro ctx id rfl ⟨node, hfound, hfans⟩
    rw [hnode] at hfound
    cases hfound
    cases hfans

/-- The consumer of the source lies beside the scope. -/
def separateScope : PipelineSpec :=
  fetchDocument [Samples.edge "fetch" "report", Samples.edge "each" "work"]

theorem skips_descendants_separateScope :
    ∃ result, (Samples.faultyEngine.executePipeline (fun _ => []) separateScope .empty
        (Samples.options true)).outcome = .ok result ∧
      result.SkipsDescendants Samples.engine separateScope
        (Samples.faultyEngine.executePipeline (fun _ => []) separateScope .empty
          (Samples.options true)).state
        (Samples.execute separateScope true).state := by
  have hhealthy : (Samples.execute separateScope true).outcome.toOption.map RunResult.errors =
      some [] := by decide +kernel
  rcases Option.map_eq_some_iff.mp hhealthy with ⟨result₀, hresult₀, hclean⟩
  have houtcome : (Samples.execute separateScope true).outcome = .ok result₀ := by
    cases houtcome : (Samples.execute separateScope true).outcome with
    | error exc =>
        rw [houtcome] at hresult₀
        cases hresult₀
    | ok result =>
        rw [houtcome] at hresult₀
        cases hresult₀
        rfl
  have hedges : ∀ id, separateScope.Path id "fetch" → False := by
    intro id hpath
    rcases hpath.tail_edge with ⟨edge, hedge, hto, _⟩
    have hall : ∀ edge ∈ separateScope.edges, edge.toNode ≠ "fetch" := by decide +kernel
    exact hall edge hedge hto
  refine (skips_descendants_iff Samples.engine Samples.faultyEngine (fun _ => []) (fun _ => [])
    separateScope .empty (Samples.options true) (fun id => id = "fetch") (by decide +kernel)
    (by decide +kernel) rfl ?_ houtcome hclean (faultyEngine_failsAt rfl _)).mpr ?_
  · rintro f rfl iteratorId _ hpath
    exact hedges iteratorId hpath
  · rintro iteratorId ⟨node, hnode, hfans⟩ _ _ member hmember ⟨f, rfl, hpath⟩
    rcases PipelineSpec.node?_mem hnode with ⟨hmem, rfl⟩
    rw [← PipelineSpec.mem_descendants_iff] at hmember hpath
    have hall : ∀ node ∈ separateScope.nodes, Samples.engine.fansOut node.type = true →
        ∀ member ∈ separateScope.descendants node.id,
          member ∉ separateScope.descendants "fetch" := by decide +kernel
    exact hall node hmem hfans member hmember hpath

/-- The source has a second consumer, which is in the scope. -/
def sharedScope : PipelineSpec :=
  fetchDocument [Samples.edge "fetch" "report", Samples.edge "each" "work",
    Samples.edge "fetch" "work"]

/-- The statuses of a result. -/
def RunResult.statuses (result : RunResult) : List (String × NodeStatus) :=
  result.nodeResults.entries.map fun entry => (entry.1, entry.2.status)

/-- The status of one node of a result. -/
def RunResult.status? (result : RunResult) (id : String) : Option NodeStatus :=
  (result.nodeResults.get? id).map NodeResult.status

/-- The scope node below the failed source is executed and fails, although it was
skipped before, and in the same document no node fails without that failure. -/
theorem skips_descendants_fails :
    Samples.engine.validatePipeline sharedScope = [] ∧
    Samples.faultyEngine.validatePipeline sharedScope = [] ∧
    Samples.faultyEngine.FailsAt Samples.engine sharedScope (fun id => id = "fetch")
      (Samples.execute sharedScope true).state.view ∧
    Samples.engine.Unscoped sharedScope "fetch" ∧
    ((Samples.execute sharedScope true).outcome.toOption.map RunResult.errors) = some [] ∧
    ∃ result, (Samples.faultyEngine.executePipeline (fun _ => []) sharedScope .empty
        (Samples.options true)).outcome = .ok result ∧
      result.statuses = [("fetch", .failed), ("report", .skipped), ("work", .failed),
        ("each", .succeeded)] ∧
      result.errors.map NodeError.message = ["broken", "input from 'fetch'.out is unavailable"] ∧
      ¬ result.SkipsDescendants Samples.engine sharedScope
        (Samples.faultyEngine.executePipeline (fun _ => []) sharedScope .empty
          (Samples.options true)).state
        (Samples.execute sharedScope true).state := by
  have hunscoped : Samples.engine.Unscoped sharedScope "fetch" := by
    intro iteratorId _ hpath
    rcases hpath.tail_edge with ⟨edge, hedge, hto, _⟩
    have hall : ∀ edge ∈ sharedScope.edges, edge.toNode ≠ "fetch" := by decide +kernel
    exact hall edge hedge hto
  have hpath : sharedScope.Path "fetch" "work" := by
    rw [← PipelineSpec.mem_descendants_iff]
    decide +kernel
  refine ⟨by decide +kernel, by decide +kernel, faultyEngine_failsAt rfl _, hunscoped,
    by decide +kernel, ?_⟩
  have hfaulty : (Samples.faultyEngine.executePipeline (fun _ => []) sharedScope .empty
      (Samples.options true)).outcome.toOption.map (fun result =>
        (result.statuses, result.errors.map NodeError.message, result.status? "fetch",
          result.status? "work")) =
      some ([("fetch", .failed), ("report", .skipped), ("work", .failed), ("each", .succeeded)],
        ["broken", "input from 'fetch'.out is unavailable"], some .failed, some .failed) := by
    decide +kernel
  cases houtcome : (Samples.faultyEngine.executePipeline (fun _ => []) sharedScope .empty
      (Samples.options true)).outcome with
  | error exc =>
      rw [houtcome] at hfaulty
      cases hfaulty
  | ok result =>
      rw [houtcome] at hfaulty
      simp only [Except.toOption, Option.map_some, Option.some.injEq, Prod.mk.injEq] at hfaulty
      rcases hfaulty with ⟨hstatuses, hmessages, hfetch, hwork⟩
      refine ⟨result, rfl, hstatuses, hmessages, fun hskips => ?_⟩
      rcases Option.map_eq_some_iff.mp hfetch with ⟨fetch, hfound, hfailed⟩
      rcases hskips.skipped "work" ⟨"fetch", fetch, hfound, hfailed, hunscoped, hpath⟩ with
        ⟨work, hfoundWork, hskipped⟩
      simp [RunResult.status?, hfoundWork, hskipped] at hwork

end EtlTool
