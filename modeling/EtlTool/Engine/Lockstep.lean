import EtlTool.Engine.DependencyOrder

/-!
# A faulty run in lockstep with a healthy one

A run that continues on error is compared with a healthy run of the same
document, in which no node fails.  The faulty engine behaves like the healthy one
except that the nodes of a pattern, all of them outside the scopes, fail.  Both
runs visit the nodes in the same order, so they are compared visit by visit.

Main results:

- Theorem {lit}`Comparison.visit`: one visit of both runs keeps them in lockstep.
- Theorem {lit}`Comparison.run`: so does the whole loop, and nothing escapes from
  it if every live iterator has a clean scope.
-/

namespace EtlTool

/-- One run of a document on an engine. -/
abbrev Engine.on (en : Engine) (spec : PipelineSpec) (ctx : RunContext) : PipelineRun :=
  ⟨en, spec, ctx⟩

/-! ## Failure patterns -/

/-- The faulty engine behaves like the healthy one, except that the nodes of a
pattern fail when they are given certain outputs of their sources. -/
structure Engine.FailsAt (faulty healthy : Engine) (spec : PipelineSpec) (failing : String → Prop)
    (outputs : View) : Prop where
  runtime : faulty.runtime = healthy.runtime
  iterators : ∀ id, faulty.IsIterator spec id ↔ healthy.IsIterator spec id
  ports : ∀ ctx id, (faulty.on spec ctx).outputPorts id = (healthy.on spec ctx).outputPorts id
  same_execute : ∀ ctx id, ¬ failing id → ∀ view iter,
    (faulty.on spec ctx).executeNode id view iter = (healthy.on spec ctx).executeNode id view iter
  same_plan : ∀ ctx id, ¬ failing id → ∀ view,
    (faulty.on spec ctx).planFanOut id view = (healthy.on spec ctx).planFanOut id view
  fail_execute : ∀ ctx id, failing id → ¬ healthy.IsIterator spec id → ∀ view,
    (∀ source ∈ spec.reads id, view source = outputs source) → ∃ error : NodeError,
      error.nodeId = id ∧ (faulty.on spec ctx).executeNode id view none = .error (.node error)
  fail_plan : ∀ ctx id, failing id → healthy.IsIterator spec id → ∀ view,
    (∀ source ∈ spec.reads id, view source = outputs source) → ∃ error : NodeError,
      error.nodeId = id ∧ (faulty.on spec ctx).planFanOut id view = .error (.node error)

/-- Some ancestor of the node is in the pattern. -/
def PipelineSpec.Doomed (spec : PipelineSpec) (failing : String → Prop) (id : String) : Prop :=
  ∃ f, failing f ∧ spec.Path f id

/-- No node of the scope is below the pattern. -/
def PipelineSpec.CleanScope (spec : PipelineSpec) (failing : String → Prop)
    (iteratorId : String) : Prop :=
  ∀ member, spec.Path iteratorId member → ¬ spec.Doomed failing member

/-- An iterator that is going to be fanned out. -/
structure Engine.LiveIterator (en : Engine) (spec : PipelineSpec) (failing : String → Prop)
    (id : String) : Prop where
  iterator : en.IsIterator spec id
  sound : ¬ failing id
  alive : ¬ spec.Doomed failing id

/-- A node that the pattern does not touch, and that is in no scope with a node
below the pattern. -/
structure Engine.Spared (en : Engine) (spec : PipelineSpec) (failing : String → Prop)
    (id : String) : Prop where
  sound : ¬ failing id
  alive : ¬ spec.Doomed failing id
  clean : ∀ iteratorId, en.IsIterator spec iteratorId →
    id = iteratorId ∨ spec.Path iteratorId id → spec.CleanScope failing iteratorId

/-- No scope contains the node. -/
def Engine.Unscoped (en : Engine) (spec : PipelineSpec) (id : String) : Prop :=
  ∀ iteratorId, en.IsIterator spec iteratorId → ¬ spec.Path iteratorId id

/-- Every live iterator has a clean scope. -/
def Engine.ScopesClean (en : Engine) (spec : PipelineSpec) (failing : String → Prop) : Prop :=
  ∀ iteratorId, en.LiveIterator spec failing iteratorId → spec.CleanScope failing iteratorId

/-- What lies downstream of a doomed node is doomed. -/
theorem PipelineSpec.Doomed.path {spec : PipelineSpec} {failing : String → Prop} {a b : String}
    (h : spec.Doomed failing a) (hpath : spec.Path a b) : spec.Doomed failing b := by
  rcases h with ⟨f, hf, hfa⟩
  exact ⟨f, hf, hfa.trans hpath⟩

/-- What an untouched node outside the scopes reads is spared. -/
theorem Engine.spared_of_path {en : Engine} {spec : PipelineSpec} {failing : String → Prop}
    {source id : String} (halive : ¬ spec.Doomed failing id) (hunscoped : en.Unscoped spec id)
    (hpath : spec.Path source id) : en.Spared spec failing source where
  sound := fun hf => halive ⟨source, hf, hpath⟩
  alive := fun hdoomed => halive (hdoomed.path hpath)
  clean := by
    intro iteratorId hiter hmem
    rcases hmem with rfl | hbelow
    · exact absurd hpath (hunscoped source hiter)
    · exact absurd (hbelow.trans hpath) (hunscoped iteratorId hiter)

namespace PipelineRun

/-! ## The healthy run -/

variable {r : PipelineRun} {topo visited rest : List String} {s s' : LoopState} {id : String}

/-- What a visit does that leaves the run calm. -/
inductive CalmVisit (r : PipelineRun) (schedule : List FanOut.Choice) (scope : List String)
    (s : LoopState) (id : String) : LoopState → Prop where
  | idle (hresult : s.results.get? id ≠ none) : CalmVisit r schedule scope s id s
  | succeeded (hresult : s.results.get? id = none) (hplain : ¬ r.engine.IsIterator r.spec id)
      (outputs : NodeOutputs) (hexec : r.executeNode id s.view none = .ok outputs) :
      CalmVisit r schedule scope s id (r.succeedNode s id outputs)
  | fannedIn (hresult : s.results.get? id = none) (hiter : r.engine.IsIterator r.spec id)
      (plan : FanOutPlan) (hplan : r.planFanOut id s.view = .ok plan)
      (hcalm : firstEscape? (r.iterationResults id scope s.view plan schedule) = none)
      (hnone : iterationFailures (r.iterationResults id scope s.view plan schedule) = []) :
      CalmVisit r schedule scope s id (r.fanIn s id scope plan schedule)

/-- A visit that ends calm was calm throughout. -/
theorem Books.calmVisit (hb : r.Books visited s) {schedule : List FanOut.Choice}
    {scope : List String} (hvisit : r.Visit schedule scope s id s') (hcalm : Calm s') :
    r.CalmVisit schedule scope s id s' := by
  have hescaped := hvisit.escaped_eq_none hcalm.escaped
  have herrors := hcalm.errors
  have hlive := hcalm.escaped
  cases hvisit with
  | idle h =>
      rcases h with h | h
      · exact absurd hescaped h
      · exact .idle h
  | aborted _ _ habort => exact absurd herrors (hb.aborts.mp habort).2
  | unknown _ _ => cases hlive
  | succeeded hready hplain outputs hexec => exact .succeeded hready.result hplain outputs hexec
  | failed _ _ error _ => simp [PipelineRun.failNode] at herrors
  | escaped _ _ _ _ => cases hlive
  | planFailed _ _ error _ => simp [PipelineRun.failPlan] at herrors
  | planEscaped _ _ _ _ => cases hlive
  | iterationEscaped _ _ _ _ _ _ => cases hlive
  | iterationFailed _ _ _ _ _ _ first others hfailures =>
      simp [PipelineRun.abortIterations, hfailures] at herrors
  | fannedIn hready hiter plan hplan hescapes _ =>
      refine .fannedIn hready.result hiter plan hplan hescapes ?_
      simp only [PipelineRun.fanIn, List.append_eq_nil_iff, List.map_eq_nil_iff] at herrors
      exact herrors.2

/-- In a calm run every visited node has outputs. -/
theorem Books.calm_outputs (hb : r.Books visited s) (hcalm : Calm s) {n : String}
    (hn : n ∈ visited) : s.outputs.get? n ≠ none := by
  cases hresult : s.results.get? n with
  | none => exact absurd hresult (hb.done n hn)
  | some result =>
      have hcount := hb.counted n result hresult (hb.clean hcalm.errors n result hresult)
      exact (hb.stored n).mpr ⟨result, hresult, hcount⟩

/-- In a calm run a node has a result ahead of its visit only if its iterator has
been visited. -/
theorem Books.calm_ahead (hb : r.Books visited s) (hcalm : Calm s) {n : String}
    (hresult : s.results.get? n ≠ none) (hn : n ∉ visited) :
    ¬ r.engine.Unscoped r.spec n := by
  intro hunscoped
  cases hfound : s.results.get? n with
  | none => exact hresult hfound
  | some result =>
      have hclean := hb.clean hcalm.errors n result hfound
      rcases hb.ahead n result hfound hn with hskipped | ⟨iteratorId, _, hiter, hpath⟩
      · rw [hclean] at hskipped
        cases hskipped
      · exact hunscoped iteratorId hiter hpath

/-- A node without a result at its visit is in no scope. -/
theorem Books.unscoped (hsorted : r.Sorted topo) (hsplit : topo = visited ++ id :: rest)
    (hb : r.Books visited s) (habort : s.abort = false) (hresult : s.results.get? id = none) :
    r.engine.Unscoped r.spec id := by
  intro iteratorId hiter hpath
  have hdone := hb.done iteratorId (hsorted.visited_of_path hsplit hpath)
  exact hb.scopes habort iteratorId hiter hdone id hpath hresult

/-- A calm visit keeps the outputs that are there. -/
theorem CalmVisit.outputs_mono (hsorted : r.Sorted topo) (hsplit : topo = visited ++ id :: rest)
    (hb : r.Books visited s) {schedule : List FanOut.Choice}
    (hvisit : r.CalmVisit schedule (r.scopeTopo topo id) s id s') {n : String}
    {outputs : NodeOutputs} (h : s.outputs.get? n = some outputs) :
    s'.outputs.get? n = some outputs := by
  cases hvisit with
  | idle _ => exact h
  | succeeded hresult _ _ _ =>
      have hne : n ≠ id := by
        intro heq
        rw [heq, hb.outputs_eq_none hresult] at h
        cases h
      rw [succeedNode, OrderedDict.get?_set_of_ne _ hne, h]
  | fannedIn hresult hiter plan _ _ _ =>
      rw [get?_fanIn_outputs, if_neg, h]
      intro hmem
      rw [List.mem_cons, hsorted.mem_scope] at hmem
      rcases (hb.stored n).mp (by simp [h]) with ⟨result, hfound, hcount⟩
      have hskipped := hb.ahead_of_scope hsorted hsplit hiter hmem hfound hresult
      exact hcount (hb.uncounted n result hfound hskipped)

/-- A calm run keeps the outputs that are there. -/
theorem run_outputs_mono (hsorted : r.Sorted topo) {schedule : String → List FanOut.Choice}
    {ids : List String} (htopo : topo = visited ++ ids) (hb : r.Books visited s)
    (hcalm : Calm (r.run schedule topo s ids)) {n : String} {outputs : NodeOutputs}
    (h : s.outputs.get? n = some outputs) :
    (r.run schedule topo s ids).outputs.get? n = some outputs := by
  induction ids generalizing visited s with
  | nil => exact h
  | cons head tail ih =>
      have hnext : Calm (r.visit schedule topo s head) := Calm.of_run hcalm
      have hvisit := visit_spec r schedule topo s head
      have hb' := hb.visit hsorted htopo hvisit hnext.escaped
      exact ih (by simp [htopo]) hb' hcalm
        ((hb.calmVisit hvisit hnext).outputs_mono hsorted htopo hb h)

private theorem mem_nodeEvents_started {place : Place} {n : String} {view view' : View}
    (h : .started place n view' ∈ r.nodeEvents id view) : place = .top ∧ n = id ∧ view' = view := by
  unfold nodeEvents at h
  split at h <;> simpa using h

/-- What an iteration starts is a node of the scope. -/
theorem mem_scope_of_started {scope : List String} {outer : View} {plan : FanOutPlan}
    {schedule : List FanOut.Choice} (hown : id ∉ scope) {place : Place} {n : String} {view : View}
    (h : .started place n view ∈ r.fanOutEvents id scope outer plan schedule) : n ∈ scope := by
  rcases mem_fanOutEvents_started hown h with ⟨_, _, st, others, _, hprogress, hremaining, _, _⟩
  rcases hprogress.passed with ⟨passed, hscope, _, _⟩
  rw [hscope, hremaining]
  simp

/-! ## Iterations under equal views -/

/-- The plan of a fan-out depends on the outputs its iterator reads. -/
theorem planFanOut_congr {view view' : View}
    (h : ∀ source ∈ r.spec.reads id, view source = view' source) :
    r.planFanOut id view = r.planFanOut id view' := by
  unfold planFanOut
  rw [prepareNode_congr h]

/-- Two runs execute a scope alike when they execute its nodes alike and agree on
what these read. -/
theorem runIteration_congr {r' : PipelineRun} {scope : List String} {outer outer' : View}
    {iter : IterContext}
    (hexec : ∀ n ∈ scope, ∀ view, r'.executeNode n view (some iter) =
      r.executeNode n view (some iter))
    (hfailed : ∀ n raised, r'.iterationFailed iter.index iter.value n raised =
      r.iterationFailed iter.index iter.value n raised)
    (houter : ∀ n ∈ scope, ∀ source ∈ r.spec.reads n, outer' source = outer source)
    (outputs : OrderedDict String NodeOutputs) :
    r'.runIteration outer' iter outputs scope = r.runIteration outer iter outputs scope := by
  induction scope generalizing outputs with
  | nil => rfl
  | cons n others ih =>
      have hview : r'.executeNode n (chainView outputs outer') (some iter) =
          r.executeNode n (chainView outputs outer) (some iter) := by
        rw [hexec n List.mem_cons_self]
        apply executeNode_congr
        intro source hsource
        simp only [chainView, houter n List.mem_cons_self source hsource]
      have hrest := ih (fun m hm => hexec m (List.mem_cons_of_mem n hm))
        fun m hm => houter m (List.mem_cons_of_mem n hm)
      simp only [runIteration, hview, hfailed, hrest]

end PipelineRun

/-! ## Lockstep -/

section Lockstep

open PipelineRun

variable {healthy faulty : Engine} {spec : PipelineSpec} {ctx : RunContext}
  {failing : String → Prop} {final : View} {topo visited rest : List String}
  {s₀ s : LoopState} {id : String}

/-- How the faulty run relates to the healthy one after the same visits. -/
structure Lockstep (healthy : Engine) (spec : PipelineSpec) (failing : String → Prop)
    (visited : List String) (s₀ s : LoopState) : Prop where
  live : s.abort = false
  /-- Both runs store the same outputs of spared nodes. -/
  outputs : ∀ n, healthy.Spared spec failing n → s.outputs.get? n = s₀.outputs.get? n
  spared : ∀ n result, healthy.Spared spec failing n → s.results.get? n = some result →
    result.status = .succeeded
  /-- The first failing node of a path has failed. -/
  failed : ∀ n ∈ visited, failing n → ¬ spec.Doomed failing n →
    ∃ result, s.results.get? n = some result ∧ result.status = .failed
  /-- Descendants of a failing node are skipped, unless an iterator fans them out. -/
  doomed : ∀ f ∈ visited, failing f → ∀ n, spec.Path f n →
    (∃ result, s.results.get? n = some result ∧ result.status = .skipped) ∨
      ∃ iteratorId ∈ visited, healthy.LiveIterator spec failing iteratorId ∧
        spec.Path iteratorId n
  /-- A live iterator has succeeded, and no node of its scope is skipped. -/
  gathered : ∀ iteratorId ∈ visited, healthy.LiveIterator spec failing iteratorId →
    ∀ n, spec.Path iteratorId n → ∃ result, s.results.get? n = some result ∧
      result.status ≠ .skipped
  /-- A result ahead of the visit belongs to a doomed node or to a scope. -/
  ahead : ∀ n, n ∉ visited → s.results.get? n ≠ none →
    spec.Doomed failing n ∨ ¬ healthy.Unscoped spec n
  /-- A doomed node starts only in the iterations of a live iterator. -/
  started : ∀ place n view, .started place n view ∈ s.trace → spec.Doomed failing n →
    ∃ iteratorId, healthy.LiveIterator spec failing iteratorId ∧ spec.Path iteratorId n
  /-- Errors come from failing nodes that are not doomed, or from a scope that is
  not clean. -/
  errors : ∀ error ∈ s.errors, (failing error.nodeId ∧ ¬ spec.Doomed failing error.nodeId) ∨
    ∃ iteratorId, healthy.LiveIterator spec failing iteratorId ∧
      ¬ spec.CleanScope failing iteratorId

/-- The two runs start in lockstep. -/
theorem Lockstep.initial (healthy : Engine) (spec : PipelineSpec) (failing : String → Prop) :
    Lockstep healthy spec failing [] .initial .initial := by
  constructor <;> simp [LoopState.initial]

/-- What the comparison of a faulty with a healthy run relies on. -/
structure Comparison (healthy faulty : Engine) (spec : PipelineSpec) (ctx : RunContext)
    (failing : String → Prop) (final : View) (topo : List String) : Prop where
  pattern : faulty.FailsAt healthy spec failing final
  outside : ∀ f, failing f → healthy.Unscoped spec f
  sorted₀ : (healthy.on spec ctx).Sorted topo
  sorted : (faulty.on spec ctx).Sorted topo
  continues : ctx.options.continueOnError = true

/-- Both runs before the same visit. -/
structure Comparison.At (healthy faulty : Engine) (spec : PipelineSpec) (ctx : RunContext)
    (failing : String → Prop) (final : View) (visited : List String) (s₀ s : LoopState) : Prop where
  books₀ : (healthy.on spec ctx).Books visited s₀
  books : (faulty.on spec ctx).Books visited s
  calm₀ : Calm s₀
  final_of : ∀ n outputs, s₀.outputs.get? n = some outputs → final n = some outputs
  lockstep : Lockstep healthy spec failing visited s₀ s

namespace Comparison

variable {schedule₀ schedule : List FanOut.Choice} {s₀' s' : LoopState} {n : String}
  (h : Comparison healthy faulty spec ctx failing final topo)
  (hat : At healthy faulty spec ctx failing final visited s₀ s)
  (hsplit : topo = visited ++ id :: rest)

include h

/-- The two engines leave the same nodes outside the scopes. -/
theorem unscoped_iff (n : String) : faulty.Unscoped spec n ↔ healthy.Unscoped spec n := by
  unfold Engine.Unscoped
  simp only [h.pattern.iterators]

/-- An iterator lies in no scope. -/
theorem iterator_unscoped (hiter : healthy.IsIterator spec n) : healthy.Unscoped spec n :=
  fun iteratorId houter => h.sorted₀.validated.not_nested iteratorId n houter hiter

/-- A failing node below which an unscoped node lies is doomed by a visited one. -/
theorem mem_of_path (hsplit : topo = visited ++ id :: rest) {f : String}
    (hpath : spec.Path f id) : f ∈ visited :=
  h.sorted₀.visited_of_path hsplit hpath

include hat hsplit

private theorem unscoped_of_none₀ (hresult : s₀.results.get? id = none) :
    healthy.Unscoped spec id := by
  have habort : s₀.abort = false := by
    rw [Bool.eq_false_iff]
    intro habort
    exact (hat.books₀.aborts.mp habort).2 hat.calm₀.errors
  exact hat.books₀.unscoped h.sorted₀ hsplit habort hresult

private theorem none₀_of_unscoped (hunscoped : healthy.Unscoped spec id) :
    s₀.results.get? id = none := by
  by_contra hresult
  exact hat.books₀.calm_ahead hat.calm₀ hresult (h.sorted₀.not_mem_visited hsplit) hunscoped

private theorem unscoped_of_none (hresult : s.results.get? id = none) : healthy.Unscoped spec id :=
  (h.unscoped_iff id).mp (hat.books.unscoped h.sorted hsplit hat.lockstep.live hresult)

private theorem not_doomed_of_none (hresult : s.results.get? id = none) :
    ¬ spec.Doomed failing id := by
  rintro ⟨f, hf, hpath⟩
  rcases hat.lockstep.doomed f (h.mem_of_path hsplit hpath) hf id hpath with
    ⟨result, hfound, _⟩ | ⟨iteratorId, _, hlive, hbelow⟩
  · rw [hresult] at hfound
    cases hfound
  · exact h.unscoped_of_none hat hsplit hresult iteratorId hlive.iterator hbelow

omit hsplit in
/-- Both runs show a node outside the scopes the same outputs. -/
theorem reads_agree (hunscoped : healthy.Unscoped spec id) (halive : ¬ spec.Doomed failing id) :
    ∀ source ∈ spec.reads id, s.view source = s₀.view source := by
  intro source hsource
  have hpath := path_of_mem_reads h.sorted₀.validated hsource
  exact hat.lockstep.outputs source (Engine.spared_of_path halive hunscoped hpath)

/-- The healthy run shows a node the final outputs of its sources. -/
theorem reads_final : ∀ source ∈ spec.reads id, s₀.view source = final source := by
  intro source hsource
  have hpath := path_of_mem_reads h.sorted₀.validated hsource
  have hne := hat.books₀.calm_outputs hat.calm₀ (h.mem_of_path hsplit hpath)
  cases houtputs : s₀.outputs.get? source with
  | none => exact absurd houtputs hne
  | some outputs =>
      rw [LoopState.view, houtputs, hat.final_of source outputs houtputs]

private theorem execute_sound (hresult : s.results.get? id = none) (hsound : ¬ failing id) :
    (faulty.on spec ctx).executeNode id s.view none =
      (healthy.on spec ctx).executeNode id s₀.view none := by
  rw [h.pattern.same_execute ctx id hsound]
  exact executeNode_congr (r := healthy.on spec ctx)
    (h.reads_agree hat (h.unscoped_of_none hat hsplit hresult)
      (h.not_doomed_of_none hat hsplit hresult))

private theorem plan_sound (hresult : s.results.get? id = none) (hsound : ¬ failing id) :
    (faulty.on spec ctx).planFanOut id s.view = (healthy.on spec ctx).planFanOut id s₀.view := by
  rw [h.pattern.same_plan ctx id hsound]
  exact planFanOut_congr (r := healthy.on spec ctx)
    (h.reads_agree hat (h.unscoped_of_none hat hsplit hresult)
      (h.not_doomed_of_none hat hsplit hresult))

/-- A failing node is handed the outputs on which it fails. -/
theorem reads_failing (hresult : s.results.get? id = none) :
    ∀ source ∈ spec.reads id, s.view source = final source := by
  intro source hsource
  rw [h.reads_agree hat (h.unscoped_of_none hat hsplit hresult)
    (h.not_doomed_of_none hat hsplit hresult) source hsource]
  exact h.reads_final hat hsplit source hsource

/-- A data node fails as the pattern says, or succeeds as in the healthy run. -/
theorem execute_cases (hresult : s.results.get? id = none)
    (hplain : ¬ healthy.IsIterator spec id)
    (hvisit₀ : (healthy.on spec ctx).CalmVisit schedule₀
      ((healthy.on spec ctx).scopeTopo topo id) s₀ id s₀') :
    (failing id ∧ ∃ error : NodeError, error.nodeId = id ∧
      (faulty.on spec ctx).executeNode id s.view none = .error (.node error)) ∨
    (¬ failing id ∧ ∃ outputs, (faulty.on spec ctx).executeNode id s.view none = .ok outputs ∧
      s₀' = (healthy.on spec ctx).succeedNode s₀ id outputs) := by
  by_cases hfailing : failing id
  · exact Or.inl ⟨hfailing, h.pattern.fail_execute ctx id hfailing hplain s.view
      (h.reads_failing hat hsplit hresult)⟩
  · right
    rw [h.execute_sound hat hsplit hresult hfailing]
    cases hvisit₀ with
    | idle hbusy =>
        have hunscoped := h.unscoped_of_none hat hsplit hresult
        exact absurd (h.none₀_of_unscoped hat hsplit hunscoped) hbusy
    | succeeded _ _ outputs hexec₀ => exact ⟨hfailing, outputs, hexec₀, rfl⟩
    | fannedIn _ hiter _ _ _ _ => exact absurd hiter hplain

/-- An iterator fails as the pattern says, or is fanned in from the plan of the
healthy run. -/
theorem plan_cases (hresult : s.results.get? id = none) (hiter : healthy.IsIterator spec id)
    (hvisit₀ : (healthy.on spec ctx).CalmVisit schedule₀
      ((healthy.on spec ctx).scopeTopo topo id) s₀ id s₀') :
    (failing id ∧ ∃ error : NodeError, error.nodeId = id ∧
      (faulty.on spec ctx).planFanOut id s.view = .error (.node error)) ∨
    (¬ failing id ∧ ∃ plan, (faulty.on spec ctx).planFanOut id s.view = .ok plan ∧
      firstEscape? ((healthy.on spec ctx).iterationResults id
        ((healthy.on spec ctx).scopeTopo topo id) s₀.view plan schedule₀) = none ∧
      iterationFailures ((healthy.on spec ctx).iterationResults id
        ((healthy.on spec ctx).scopeTopo topo id) s₀.view plan schedule₀) = [] ∧
      s₀' = (healthy.on spec ctx).fanIn s₀ id ((healthy.on spec ctx).scopeTopo topo id) plan
        schedule₀) := by
  by_cases hfailing : failing id
  · exact Or.inl ⟨hfailing, h.pattern.fail_plan ctx id hfailing hiter s.view
      (h.reads_failing hat hsplit hresult)⟩
  · right
    rw [h.plan_sound hat hsplit hresult hfailing]
    cases hvisit₀ with
    | idle hbusy =>
        have hunscoped := h.unscoped_of_none hat hsplit hresult
        exact absurd (h.none₀_of_unscoped hat hsplit hunscoped) hbusy
    | succeeded _ hplain _ _ => exact absurd hiter hplain
    | fannedIn _ _ plan hplan₀ hcalm hnone =>
        exact ⟨hfailing, plan, hplan₀, hcalm, hnone, rfl⟩

/-- The visit of the healthy run changes no outputs of spared nodes that the
faulty run does not visit as well. -/
theorem outputs_of_not_spared (hvisit₀ : (healthy.on spec ctx).CalmVisit schedule₀
    ((healthy.on spec ctx).scopeTopo topo id) s₀ id s₀')
    (hspared : healthy.Unscoped spec id → ¬ healthy.Spared spec failing id)
    (hscope : healthy.IsIterator spec id → ∀ n, spec.Path id n → ¬ healthy.Spared spec failing n) :
    ∀ n, healthy.Spared spec failing n → s.outputs.get? n = s₀'.outputs.get? n := by
  intro n hn
  rw [hat.lockstep.outputs n hn]
  cases hvisit₀ with
  | idle _ => rfl
  | succeeded hresult _ outputs _ =>
      have hne : n ≠ id := by
        rintro rfl
        exact hspared (h.unscoped_of_none₀ hat hsplit hresult) hn
      rw [succeedNode, OrderedDict.get?_set_of_ne _ hne]
  | fannedIn hresult hiter plan _ _ _ =>
      rw [get?_fanIn_outputs, if_neg]
      intro hmem
      rw [List.mem_cons, h.sorted₀.mem_scope] at hmem
      rcases hmem with rfl | hpath
      · exact hspared (h.unscoped_of_none₀ hat hsplit hresult) hn
      · exact hscope hiter n hpath hn

/-! ## Visits of the faulty run -/

/-- A node with a result ahead of its visit is doomed if it is in no scope. -/
theorem doomed_of_busy (hresult : s.results.get? id ≠ none) (hunscoped : healthy.Unscoped spec id) :
    spec.Doomed failing id := by
  rcases hat.lockstep.ahead id (h.sorted₀.not_mem_visited hsplit) hresult with hdoomed | hscoped
  · exact hdoomed
  · exact absurd hunscoped hscoped

/-- A node that already has its result leaves the runs in lockstep. -/
theorem idle (hresult : s.results.get? id ≠ none)
    (hvisit₀ : (healthy.on spec ctx).CalmVisit schedule₀
      ((healthy.on spec ctx).scopeTopo topo id) s₀ id s₀') :
    Lockstep healthy spec failing (visited ++ [id]) s₀' s := by
  have hl := hat.lockstep
  have hdoomed := h.doomed_of_busy hat hsplit hresult
  have hmem : ∀ {m}, m ∈ visited ++ [id] → m ∈ visited ∨ m = id := by
    intro m hm
    simpa using hm
  refine { live := hl.live, outputs := ?_, spared := hl.spared, failed := ?_, doomed := ?_,
           gathered := ?_, ahead := ?_, started := hl.started, errors := hl.errors }
  · apply h.outputs_of_not_spared hat hsplit hvisit₀
    · exact fun hunscoped hspared => hspared.alive (hdoomed hunscoped)
    · exact fun hiter n hpath hspared =>
        hspared.alive ((hdoomed (h.iterator_unscoped hiter)).path hpath)
  · intro m hm hf halive
    rcases hmem hm with hm | rfl
    · exact hl.failed m hm hf halive
    · exact absurd (hdoomed (h.outside m hf)) halive
  · intro f hf hfailing m hpath
    have hkeep : ∀ f ∈ visited, failing f → spec.Path f m →
        (∃ result, s.results.get? m = some result ∧ result.status = .skipped) ∨
          ∃ iteratorId ∈ visited ++ [id], healthy.LiveIterator spec failing iteratorId ∧
            spec.Path iteratorId m := by
      intro f hf hfailing hpath
      rcases hl.doomed f hf hfailing m hpath with hskipped | ⟨iteratorId, hin, hlive, hbelow⟩
      · exact Or.inl hskipped
      · exact Or.inr ⟨iteratorId, List.mem_append_left _ hin, hlive, hbelow⟩
    rcases hmem hf with hf | rfl
    · exact hkeep f hf hfailing hpath
    · rcases hdoomed (h.outside f hfailing) with ⟨g, hg, hgf⟩
      exact hkeep g (h.mem_of_path hsplit hgf) hg (hgf.trans hpath)
  · intro iteratorId hin hlive m hpath
    rcases hmem hin with hin | rfl
    · exact hl.gathered iteratorId hin hlive m hpath
    · exact absurd (hdoomed (h.iterator_unscoped hlive.iterator)) hlive.alive
  · intro m hm hbusy
    rw [List.mem_append, not_or] at hm
    exact hl.ahead m hm.1 hbusy

/-- A data node outside the pattern succeeds in both runs. -/
theorem succeeds (hresult : s.results.get? id = none) (hplain : ¬ healthy.IsIterator spec id)
    (hsound : ¬ failing id) (outputs : NodeOutputs) :
    Lockstep healthy spec failing (visited ++ [id])
      ((healthy.on spec ctx).succeedNode s₀ id outputs)
      ((faulty.on spec ctx).succeedNode s id outputs) := by
  have hl := hat.lockstep
  have hunscoped := h.unscoped_of_none hat hsplit hresult
  have halive := h.not_doomed_of_none hat hsplit hresult
  have hmem : ∀ {m}, m ∈ visited ++ [id] → m ∈ visited ∨ m = id := by
    intro m hm
    simpa using hm
  have hnew : id ∉ visited := h.sorted₀.not_mem_visited hsplit
  have hold : ∀ {m}, m ≠ id →
      ((faulty.on spec ctx).succeedNode s id outputs).results.get? m = s.results.get? m := by
    intro m hm
    simp only [succeedNode, OrderedDict.get?_set_of_ne _ hm]
  refine { live := hl.live, outputs := ?_, spared := ?_, failed := ?_, doomed := ?_,
           gathered := ?_, ahead := ?_, started := ?_, errors := hl.errors }
  · intro m hm
    simp only [succeedNode, OrderedDict.get?_set, hl.outputs m hm]
  · intro m result hm hfound
    by_cases hmid : m = id
    · subst hmid
      simp only [succeedNode, OrderedDict.get?_set_self, Option.some.injEq] at hfound
      rw [← hfound]
    · rw [hold hmid] at hfound
      exact hl.spared m result hm hfound
  · intro m hm hf halive'
    rcases hmem hm with hm | rfl
    · have hne : m ≠ id := fun heq => hnew (heq ▸ hm)
      rw [hold hne]
      exact hl.failed m hm hf halive'
    · exact absurd hf hsound
  · intro f hf hfailing m hpath
    rcases hmem hf with hf | rfl
    · have hne : m ≠ id := by
        rintro rfl
        exact halive ⟨f, hfailing, hpath⟩
      rw [hold hne]
      rcases hl.doomed f hf hfailing m hpath with hskipped | ⟨iteratorId, hin, hlive, hbelow⟩
      · exact Or.inl hskipped
      · exact Or.inr ⟨iteratorId, List.mem_append_left _ hin, hlive, hbelow⟩
    · exact absurd hfailing hsound
  · intro iteratorId hin hlive m hpath
    rcases hmem hin with hin | rfl
    · have hne : m ≠ id := by
        rintro rfl
        exact hunscoped iteratorId hlive.iterator hpath
      rw [hold hne]
      exact hl.gathered iteratorId hin hlive m hpath
    · exact absurd hlive.iterator hplain
  · intro m hm hbusy
    rw [List.mem_append, List.mem_singleton, not_or] at hm
    rw [hold hm.2] at hbusy
    exact hl.ahead m hm.1 hbusy
  · intro place m view hevent hdoomed
    rcases List.mem_append.mp hevent with hevent | hevent
    · exact hl.started place m view hevent hdoomed
    · rw [(mem_nodeEvents_started hevent).2.1] at hdoomed
      exact absurd hdoomed halive

/-- A result below the node that is visited is a skip, is doomed by a visited node, or was
fanned in by a live iterator. -/
theorem ahead_cases {m : String} {result : NodeResult} (hpath : spec.Path id m)
    (hfound : s.results.get? m = some result) :
    result.status = .skipped ∨ (∃ g ∈ visited, failing g ∧ spec.Path g m) ∨
      ∃ iteratorId ∈ visited, healthy.LiveIterator spec failing iteratorId ∧
        spec.Path iteratorId m := by
  have hnot := h.sorted₀.not_visited_of_path hsplit hpath
  rcases hat.books.ahead m result hfound hnot with hskipped | ⟨iteratorId, hin, hiter, hbelow⟩
  · exact Or.inl hskipped
  · have hiter' := (h.pattern.iterators iteratorId).mp hiter
    by_cases hdead : spec.Doomed failing iteratorId
    · rcases hdead with ⟨g, hg, hgi⟩
      have hgvisited : g ∈ visited := by
        rcases List.append_of_mem hin with ⟨before, after, hbefore⟩
        have hsplit' : topo = before ++ iteratorId :: (after ++ id :: rest) := by
          rw [hsplit, hbefore]
          simp
        rw [hbefore]
        exact List.mem_append_left _ (h.mem_of_path hsplit' hgi)
      exact Or.inr (Or.inl ⟨g, hgvisited, hg, hgi.trans hbelow⟩)
    · by_cases hfails : failing iteratorId
      · exact Or.inr (Or.inl ⟨iteratorId, hin, hfails, hbelow⟩)
      · exact Or.inr (Or.inr ⟨iteratorId, hin, ⟨hiter', hfails, hdead⟩, hbelow⟩)

/-- A failing node fails, and its descendants are skipped. -/
theorem fails (hresult : s.results.get? id = none) (hfailing : failing id) {error : NodeError}
    (herror : error.nodeId = id) {ids : List String} (hids : ∀ m, m ∈ ids ↔ spec.Path id m)
    {events : List Event} (hevents : ∀ place m view, .started place m view ∈ events → m = id)
    (hvisit₀ : (healthy.on spec ctx).CalmVisit schedule₀
      ((healthy.on spec ctx).scopeTopo topo id) s₀ id s₀') :
    Lockstep healthy spec failing (visited ++ [id]) s₀'
      { s with
        results := (faulty.on spec ctx).skip
          (s.results.set id ((faulty.on spec ctx).failedResult id error)) ids
        errors := s.errors ++ [error]
        abort := !ctx.options.continueOnError
        trace := s.trace ++ events } := by
  have hl := hat.lockstep
  have hunscoped := h.unscoped_of_none hat hsplit hresult
  have halive := h.not_doomed_of_none hat hsplit hresult
  have hmem : ∀ {m}, m ∈ visited ++ [id] → m ∈ visited ∨ m = id := by
    intro m hm
    simpa using hm
  have hkeep : ∀ {m result}, s.results.get? m = some result →
      ((faulty.on spec ctx).skip
        (s.results.set id ((faulty.on spec ctx).failedResult id error)) ids).get? m =
          some result := by
    intro m result hfound
    have hne : m ≠ id := by
      rintro rfl
      rw [hresult] at hfound
      cases hfound
    rw [get?_skip, OrderedDict.get?_set_of_ne _ hne, hfound]
  refine { live := by simp [h.continues], outputs := ?_, spared := ?_, failed := ?_, doomed := ?_,
           gathered := ?_, ahead := ?_, started := ?_, errors := ?_ }
  · apply h.outputs_of_not_spared hat hsplit hvisit₀
    · exact fun _ hspared => hspared.sound hfailing
    · exact fun _ n hpath hspared => hspared.alive ⟨id, hfailing, hpath⟩
  · intro m result hm hfound
    rcases get?_skip_set_cases hfound with ⟨rfl, _⟩ | ⟨_, hold⟩ | ⟨_, _, hin, _⟩
    · exact absurd hfailing hm.sound
    · exact hl.spared m result hm hold
    · exact absurd ⟨id, hfailing, (hids m).mp hin⟩ hm.alive
  · intro m hm hf halive'
    rcases hmem hm with hm | rfl
    · rcases hl.failed m hm hf halive' with ⟨result, hfound, hstatus⟩
      exact ⟨result, hkeep hfound, hstatus⟩
    · refine ⟨(faulty.on spec ctx).failedResult m error, ?_, rfl⟩
      rw [get?_skip, OrderedDict.get?_set_self]
  · intro f hf hf' m hpath
    have hold : ∀ g ∈ visited, failing g → spec.Path g m →
        (∃ result, s.results.get? m = some result ∧ result.status = .skipped) ∨
          ∃ iteratorId ∈ visited ++ [id], healthy.LiveIterator spec failing iteratorId ∧
            spec.Path iteratorId m := by
      intro g hg hg' hgm
      rcases hl.doomed g hg hg' m hgm with hskipped | ⟨iteratorId, hin, hlive, hbelow⟩
      · exact Or.inl hskipped
      · exact Or.inr ⟨iteratorId, List.mem_append_left _ hin, hlive, hbelow⟩
    have hlift : ((∃ result, s.results.get? m = some result ∧ result.status = .skipped) ∨
          ∃ iteratorId ∈ visited ++ [id], healthy.LiveIterator spec failing iteratorId ∧
            spec.Path iteratorId m) →
        (∃ result, ((faulty.on spec ctx).skip (s.results.set id
            ((faulty.on spec ctx).failedResult id error)) ids).get? m = some result ∧
            result.status = .skipped) ∨
          ∃ iteratorId ∈ visited ++ [id], healthy.LiveIterator spec failing iteratorId ∧
            spec.Path iteratorId m := by
      rintro (⟨result, hfound, hstatus⟩ | hother)
      · exact Or.inl ⟨result, hkeep hfound, hstatus⟩
      · exact Or.inr hother
    rcases hmem hf with hf | rfl
    · exact hlift (hold f hf hf' hpath)
    · cases hfound : s.results.get? m with
      | none =>
          left
          refine ⟨(faulty.on spec ctx).skippedResult m, ?_, rfl⟩
          have hne : m ≠ f := fun heq => h.sorted₀.acyclic f (heq ▸ hpath)
          rw [get?_skip, OrderedDict.get?_set_of_ne _ hne, hfound]
          simp [(hids m).mpr hpath]
      | some result =>
          rcases h.ahead_cases hat hsplit hpath hfound with
            hskipped | ⟨g, hg, hgfails, hgm⟩ | ⟨iteratorId, hin, hlive, hbelow⟩
          · exact hlift (Or.inl ⟨result, hfound, hskipped⟩)
          · exact hlift (hold g hg hgfails hgm)
          · exact Or.inr ⟨iteratorId, List.mem_append_left _ hin, hlive, hbelow⟩
  · intro iteratorId hin hlive m hpath
    rcases hmem hin with hin | rfl
    · rcases hl.gathered iteratorId hin hlive m hpath with ⟨result, hfound, hstatus⟩
      exact ⟨result, hkeep hfound, hstatus⟩
    · exact absurd hfailing hlive.sound
  · intro m hm hbusy
    rw [List.mem_append, List.mem_singleton, not_or] at hm
    cases hfound : ((faulty.on spec ctx).skip (s.results.set id
        ((faulty.on spec ctx).failedResult id error)) ids).get? m with
    | none => exact absurd hfound hbusy
    | some result =>
        rcases get?_skip_set_cases hfound with ⟨heq, _⟩ | ⟨_, hold⟩ | ⟨_, _, hin, _⟩
        · exact absurd heq hm.2
        · exact hl.ahead m hm.1 (by simp [hold])
        · exact Or.inl ⟨id, hfailing, (hids m).mp hin⟩
  · intro place m view hevent hdoomed
    rcases List.mem_append.mp hevent with hevent | hevent
    · exact hl.started place m view hevent hdoomed
    · rw [hevents place m view hevent] at hdoomed
      exact absurd hdoomed halive
  · intro e he
    rcases List.mem_append.mp he with he | he
    · exact hl.errors e he
    · rw [List.mem_singleton.mp he, herror]
      exact Or.inl ⟨hfailing, halive⟩

omit hat hsplit in
/-- What the nodes of a clean scope read is spared. -/
theorem spared_of_scope (hlive : healthy.LiveIterator spec failing id)
    (hclean : spec.CleanScope failing id) (hn : spec.Path id n) {source : String}
    (hpath : spec.Path source n) : healthy.Spared spec failing source where
  sound := fun hf => hclean n hn ⟨source, hf, hpath⟩
  alive := fun hdoomed => hclean n hn (hdoomed.path hpath)
  clean := by
    intro iteratorId hiter hmem
    have hbelow : spec.Path iteratorId n := by
      rcases hmem with rfl | hbelow
      · exact hpath
      · exact hbelow.trans hpath
    rw [h.sorted₀.validated.disjoint iteratorId id n hiter hlive.iterator hbelow hn]
    exact hclean

omit hsplit in
/-- A clean scope has the same iterations in both runs. -/
theorem iterations_of_clean (schedule₀ schedule : List FanOut.Choice)
    (hlive : healthy.LiveIterator spec failing id) (hclean : spec.CleanScope failing id)
    (plan : FanOutPlan) :
    (faulty.on spec ctx).iterationResults id ((faulty.on spec ctx).scopeTopo topo id) s.view plan
        schedule =
      (healthy.on spec ctx).iterationResults id ((healthy.on spec ctx).scopeTopo topo id) s₀.view
        plan schedule₀ := by
  rw [iterationResults_of_continue h.continues, iterationResults_of_continue h.continues]
  apply List.map_congr_left
  intro iter _
  have hscope : ∀ n ∈ (healthy.on spec ctx).scopeTopo topo id, spec.Path id n := fun n hn =>
    (h.sorted₀.mem_scope id n).mp hn
  apply congrArg some
  apply @runIteration_congr (healthy.on spec ctx) (faulty.on spec ctx)
    ((healthy.on spec ctx).scopeTopo topo id) s₀.view s.view iter
  · intro n hn view
    apply h.pattern.same_execute
    exact fun hf => h.outside n hf id hlive.iterator (hscope n hn)
  · intro n raised
    cases raised with
    | other exc => rfl
    | node error => simp only [iterationFailed, h.pattern.runtime]
  · intro n hn source hsource
    apply hat.lockstep.outputs source
    exact h.spared_of_scope hlive hclean (hscope n hn)
      (path_of_mem_reads h.sorted₀.validated hsource)

private theorem live_of_none (hresult : s.results.get? id = none)
    (hiter : healthy.IsIterator spec id)
    (hsound : ¬ failing id) : healthy.LiveIterator spec failing id :=
  ⟨hiter, hsound, h.not_doomed_of_none hat hsplit hresult⟩

/-- A live iterator is fanned in, and if its scope is clean as in the healthy run. -/
theorem fansIn (hresult : s.results.get? id = none) (hiter : healthy.IsIterator spec id)
    (hsound : ¬ failing id) {plan : FanOutPlan}
    (hnone : iterationFailures ((healthy.on spec ctx).iterationResults id
        ((healthy.on spec ctx).scopeTopo topo id) s₀.view plan schedule₀) = []) :
    Lockstep healthy spec failing (visited ++ [id])
      ((healthy.on spec ctx).fanIn s₀ id ((healthy.on spec ctx).scopeTopo topo id) plan schedule₀)
      ((faulty.on spec ctx).fanIn s id ((faulty.on spec ctx).scopeTopo topo id) plan schedule) := by
  have hl := hat.lockstep
  have hlive := h.live_of_none hat hsplit hresult hiter hsound
  have hsame := h.iterations_of_clean hat schedule₀ schedule hlive
  have hunscoped := h.iterator_unscoped hiter
  have hmem : ∀ {m}, m ∈ visited ++ [id] → m ∈ visited ∨ m = id := by
    intro m hm
    simpa using hm
  have hin : ∀ m, m ∈ id :: (faulty.on spec ctx).scopeTopo topo id ↔ m = id ∨ spec.Path id m := by
    intro m
    rw [List.mem_cons, h.sorted.mem_scope]
  have hnot : ∀ {m}, m ∈ visited → ¬ (m = id ∨ spec.Path id m) := by
    rintro m hm (rfl | hpath)
    · exact h.sorted₀.not_mem_visited hsplit hm
    · exact h.sorted₀.not_visited_of_path hsplit hpath hm
  have hold : ∀ {m}, ¬ (m = id ∨ spec.Path id m) →
      ((faulty.on spec ctx).fanIn s id ((faulty.on spec ctx).scopeTopo topo id) plan
        schedule).results.get? m = s.results.get? m := by
    intro m hm
    rw [get?_fanIn_results, if_neg fun hmem => hm ((hin m).mp hmem)]
  have hnew : ∀ {m}, m = id ∨ spec.Path id m → ∃ result,
      ((faulty.on spec ctx).fanIn s id ((faulty.on spec ctx).scopeTopo topo id) plan
        schedule).results.get? m = some result ∧ result.status ≠ .skipped ∧
        (spec.CleanScope failing id → result.status = .succeeded) := by
    intro m hm
    refine ⟨_, by rw [get?_fanIn_results, if_pos ((hin m).mpr hm)], ?_, fun hscope => ?_⟩
    · simp only [memberResult]
      split <;> simp
    · simp [memberResult, hsame hscope plan, hnone]
  refine { live := hl.live, outputs := ?_, spared := ?_, failed := ?_, doomed := ?_,
           gathered := ?_, ahead := ?_, started := ?_, errors := ?_ }
  · intro m hm
    have hin₀ : m ∈ id :: (healthy.on spec ctx).scopeTopo topo id ↔ m = id ∨ spec.Path id m :=
      hin m
    rw [get?_fanIn_outputs, get?_fanIn_outputs]
    by_cases hmember : m = id ∨ spec.Path id m
    · rw [if_pos ((hin m).mpr hmember), if_pos (hin₀.mpr hmember),
        hsame (hm.clean id hiter hmember) plan]
      simp only [memberOutputs, h.pattern.ports ctx m]
    · rw [if_neg fun hmem => hmember ((hin m).mp hmem),
        if_neg fun hmem => hmember (hin₀.mp hmem)]
      exact hl.outputs m hm
  · intro m result hm hfound
    by_cases hmember : m = id ∨ spec.Path id m
    · rcases hnew hmember with ⟨result', hfound', _, hstatus⟩
      rw [hfound'] at hfound
      cases hfound
      exact hstatus (hm.clean id hiter hmember)
    · rw [hold hmember] at hfound
      exact hl.spared m result hm hfound
  · intro m hm hf halive
    rcases hmem hm with hm | rfl
    · rw [hold (hnot hm)]
      exact hl.failed m hm hf halive
    · exact absurd hf hlive.sound
  · intro f hf hfailing m hpath
    rcases hmem hf with hf | rfl
    · by_cases hmember : m = id ∨ spec.Path id m
      · rcases hmember with rfl | hbelow
        · exact absurd ⟨f, hfailing, hpath⟩ hlive.alive
        · exact Or.inr ⟨id, by simp, hlive, hbelow⟩
      · rw [hold hmember]
        rcases hl.doomed f hf hfailing m hpath with hskipped | ⟨iteratorId, hvisited, hother⟩
        · exact Or.inl hskipped
        · exact Or.inr ⟨iteratorId, List.mem_append_left _ hvisited, hother⟩
    · exact absurd hfailing hlive.sound
  · intro iteratorId hvisited hlive' m hpath
    by_cases hmember : m = id ∨ spec.Path id m
    · rcases hnew hmember with ⟨result, hfound, hstatus, _⟩
      exact ⟨result, hfound, hstatus⟩
    · rw [hold hmember]
      rcases hmem hvisited with hvisited | rfl
      · exact hl.gathered iteratorId hvisited hlive' m hpath
      · exact absurd (Or.inr hpath) hmember
  · intro m hm hbusy
    rw [List.mem_append, List.mem_singleton, not_or] at hm
    by_cases hmember : m = id ∨ spec.Path id m
    · rcases hmember with heq | hbelow
      · exact absurd heq hm.2
      · exact Or.inr fun hfree => hfree id hiter hbelow
    · rw [hold hmember] at hbusy
      exact hl.ahead m hm.1 hbusy
  · intro place m view hevent hdoomed
    rcases List.mem_append.mp hevent with hevent | hevent
    · exact hl.started place m view hevent hdoomed
    · refine ⟨id, hlive, ?_⟩
      rcases List.mem_cons.mp hevent with heq | hevent
      · cases heq
        exact absurd hdoomed hlive.alive
      · have hstarted : Event.started place m view ∈ (faulty.on spec ctx).fanOutEvents id
            ((faulty.on spec ctx).scopeTopo topo id) s.view plan schedule := by
          simpa using hevent
        exact (h.sorted.mem_scope id m).mp
          (mem_scope_of_started (h.sorted.not_mem_scope id) hstarted)
  · intro e he
    rcases List.mem_append.mp he with he | he
    · exact hl.errors e he
    · refine Or.inr ⟨id, hlive, fun hscope => ?_⟩
      rw [hsame hscope plan, hnone] at he
      cases he

/-- One visit of both runs keeps them in lockstep, and nothing escapes from clean
scopes. -/
theorem visit (hvisit₀ : (healthy.on spec ctx).CalmVisit schedule₀
      ((healthy.on spec ctx).scopeTopo topo id) s₀ id s₀')
    (hvisit : (faulty.on spec ctx).Visit schedule ((faulty.on spec ctx).scopeTopo topo id) s id s') :
    (s'.escaped = none → Lockstep healthy spec failing (visited ++ [id]) s₀' s') ∧
      (healthy.ScopesClean spec failing → s.escaped = none → s'.escaped = none) := by
  cases hvisit with
  | idle hbusy =>
      refine ⟨fun hlive => ?_, fun _ hlive => hlive⟩
      rcases hbusy with hescaped | hresult
      · exact absurd hlive hescaped
      · exact h.idle hat hsplit hresult hvisit₀
  | aborted _ _ habort =>
      rw [hat.lockstep.live] at habort
      cases habort
  | unknown hready hnode =>
      refine ⟨fun hlive => (by cases hlive), fun _ _ => ?_⟩
      have hknown := (h.sorted.mem_iff id).mp (by simp [hsplit])
      rcases h.sorted.exists_class hknown with ⟨node, _, hfound, _⟩
      rw [hnode] at hfound
      cases hfound
  | succeeded hready hplain outputs hexec =>
      have hplain₀ : ¬ healthy.IsIterator spec id :=
        fun hiter => hplain ((h.pattern.iterators id).mpr hiter)
      refine ⟨fun _ => ?_, fun _ hlive => hlive⟩
      rcases h.execute_cases hat hsplit hready.result hplain₀ hvisit₀ with
        ⟨_, error, _, hfails⟩ | ⟨hsound, outputs₀, hsucceeds, rfl⟩
      · rw [hexec] at hfails
        cases hfails
      · rw [hexec] at hsucceeds
        cases hsucceeds
        exact h.succeeds hat hsplit hready.result hplain₀ hsound outputs
  | failed hready hplain error hexec =>
      have hplain₀ : ¬ healthy.IsIterator spec id :=
        fun hiter => hplain ((h.pattern.iterators id).mpr hiter)
      refine ⟨fun _ => ?_, fun _ hlive => hlive⟩
      rcases h.execute_cases hat hsplit hready.result hplain₀ hvisit₀ with
        ⟨hfailing, error', hid, hfails⟩ | ⟨_, outputs, hsucceeds, _⟩
      · rw [hexec] at hfails
        cases hfails
        have hevents : ∀ place m view, Event.started place m view ∈
            (faulty.on spec ctx).nodeEvents id s.view ++ [.failed .top id error] → m = id := by
          intro place m view hevent
          have hnode : Event.started place m view ∈
              (faulty.on spec ctx).nodeEvents id s.view := by simpa using hevent
          exact (mem_nodeEvents_started hnode).2.1
        have hstep := h.fails hat hsplit hready.result hfailing hid
          (fun m => PipelineSpec.mem_descendants_iff spec id m) hevents hvisit₀
        simpa [failNode, h.continues, List.append_assoc] using hstep
      · rw [hexec] at hsucceeds
        cases hsucceeds
  | escaped hready hplain exc hexec =>
      have hplain₀ : ¬ healthy.IsIterator spec id :=
        fun hiter => hplain ((h.pattern.iterators id).mpr hiter)
      rcases h.execute_cases hat hsplit hready.result hplain₀ hvisit₀ with
        ⟨_, error, _, hother⟩ | ⟨_, outputs, hother, _⟩
      · rw [hexec] at hother
        cases hother
      · rw [hexec] at hother
        cases hother
  | planFailed hready hiter error hplan =>
      have hiter₀ := (h.pattern.iterators id).mp hiter
      refine ⟨fun _ => ?_, fun _ hlive => hlive⟩
      rcases h.plan_cases hat hsplit hready.result hiter₀ hvisit₀ with
        ⟨hfailing, error', hid, hfails⟩ | ⟨_, plan, hsucceeds, _⟩
      · rw [hplan] at hfails
        cases hfails
        have hevents : ∀ place m view, Event.started place m view ∈
            [.started .top id s.view, .failed .top id error] → m = id := by
          intro place m view hevent
          simp only [List.mem_cons, Event.started.injEq, reduceCtorEq, List.not_mem_nil,
            or_false] at hevent
          exact hevent.2.1
        exact h.fails hat hsplit hready.result hfailing hid (h.sorted.mem_scope id) hevents hvisit₀
      · rw [hplan] at hsucceeds
        cases hsucceeds
  | planEscaped hready hiter exc hplan =>
      have hiter₀ := (h.pattern.iterators id).mp hiter
      rcases h.plan_cases hat hsplit hready.result hiter₀ hvisit₀ with
        ⟨_, error, _, hother⟩ | ⟨_, plan, hother, _⟩
      · rw [hplan] at hother
        cases hother
      · rw [hplan] at hother
        cases hother
  | iterationEscaped hready hiter plan hplan exc hexc =>
      have hiter₀ := (h.pattern.iterators id).mp hiter
      refine ⟨fun hlive => (by cases hlive), fun hscopes _ => ?_⟩
      rcases h.plan_cases hat hsplit hready.result hiter₀ hvisit₀ with
        ⟨_, error, _, hfails⟩ | ⟨hsound, plan₀, hplan₀, hcalm, _, _⟩
      · rw [hplan] at hfails
        cases hfails
      · rw [hplan] at hplan₀
        cases hplan₀
        have hlive := h.live_of_none hat hsplit hready.result hiter₀ hsound
        rw [h.iterations_of_clean hat schedule₀ schedule hlive (hscopes id hlive) plan,
          hcalm] at hexc
        cases hexc
  | iterationFailed _ _ _ _ _ hmode _ _ _ =>
      have hcontinues := h.continues
      rw [show ctx.options.continueOnError = false from hmode] at hcontinues
      cases hcontinues
  | fannedIn hready hiter plan hplan _ _ =>
      have hiter₀ := (h.pattern.iterators id).mp hiter
      refine ⟨fun _ => ?_, fun _ hlive => hlive⟩
      rcases h.plan_cases hat hsplit hready.result hiter₀ hvisit₀ with
        ⟨_, error, _, hfails⟩ | ⟨hsound, plan₀, hplan₀, _, hnone, rfl⟩
      · rw [hplan] at hfails
        cases hfails
      · rw [hplan] at hplan₀
        cases hplan₀
        exact h.fansIn hat hsplit hready.result hiter₀ hsound hnone

omit hat hsplit in
/-- The whole loop of both runs keeps them in lockstep. -/
theorem run (schedules₀ schedules : String → List FanOut.Choice) {ids : List String}
    (htopo : topo = visited ++ ids)
    (hcalm : Calm ((healthy.on spec ctx).run schedules₀ topo s₀ ids))
    (hfinal : final = ((healthy.on spec ctx).run schedules₀ topo s₀ ids).view)
    (hbooks₀ : (healthy.on spec ctx).Books visited s₀)
    (hboth : s.escaped = none → (faulty.on spec ctx).Books visited s ∧
      Lockstep healthy spec failing visited s₀ s) :
    (((faulty.on spec ctx).run schedules topo s ids).escaped = none →
      Lockstep healthy spec failing topo ((healthy.on spec ctx).run schedules₀ topo s₀ ids)
        ((faulty.on spec ctx).run schedules topo s ids)) ∧
    (healthy.ScopesClean spec failing → s.escaped = none →
      ((faulty.on spec ctx).run schedules topo s ids).escaped = none) := by
  induction ids generalizing visited s₀ s with
  | nil =>
      rw [List.append_nil] at htopo
      exact ⟨fun hlive => htopo ▸ (hboth hlive).2, fun _ hlive => hlive⟩
  | cons head tail ih =>
      have hnext₀ : Calm ((healthy.on spec ctx).visit schedules₀ topo s₀ head) := Calm.of_run hcalm
      have hvisit₀ := visit_spec (healthy.on spec ctx) schedules₀ topo s₀ head
      have hvisit := visit_spec (faulty.on spec ctx) schedules topo s head
      have hstep : s.escaped = none →
          (((faulty.on spec ctx).visit schedules topo s head).escaped = none →
            Lockstep healthy spec failing (visited ++ [head])
              ((healthy.on spec ctx).visit schedules₀ topo s₀ head)
              ((faulty.on spec ctx).visit schedules topo s head)) ∧
          (healthy.ScopesClean spec failing → s.escaped = none →
            ((faulty.on spec ctx).visit schedules topo s head).escaped = none) := by
        intro hlive
        have hat : At healthy faulty spec ctx failing final visited s₀ s := {
          books₀ := hbooks₀
          books := (hboth hlive).1
          calm₀ := @Calm.of_run _ _ _ _ (head :: tail) hcalm
          final_of := by
            intro n outputs houtputs
            rw [hfinal]
            exact run_outputs_mono h.sorted₀ htopo hbooks₀ hcalm houtputs
          lockstep := (hboth hlive).2 }
        exact h.visit hat htopo (hbooks₀.calmVisit hvisit₀ hnext₀) hvisit
      have hrest := @ih (visited ++ [head]) _ _ (by simp [htopo]) hcalm hfinal
        (hbooks₀.visit h.sorted₀ htopo hvisit₀ hnext₀.escaped) fun hlive' => by
          have hlive := hvisit.escaped_eq_none hlive'
          exact ⟨(hboth hlive).1.visit h.sorted htopo hvisit hlive', (hstep hlive).1 hlive'⟩
      exact ⟨hrest.1, fun hscopes hlive => hrest.2 hscopes ((hstep hlive).2 hscopes hlive)⟩

end Comparison

end Lockstep

end EtlTool
