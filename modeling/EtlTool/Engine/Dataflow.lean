import EtlTool.Engine.Lockstep
import EtlTool.Foundations.RelatedLists

/-!
# What a document denotes

A document is a system of equations for the outputs of its nodes: a data node
outside the scopes is run on the outputs of what it reads, an iterator and its
scope are the fan-in of one local solution per value.  Nothing here mentions an
order, a scheduler or a state of the loop.

Main results:

- Theorem {lit}`executeNode_extends`, {lit}`planFanOut_extends`: a node that succeeds has
  seen outputs of all that it reads, so that it succeeds alike when more is visible.
- Theorem {lit}`Denotes.agree`: solutions of two documents agree on what the documents
  share.
- Theorem {lit}`Denotes.unique`: the equations have at most one solution.
-/

namespace EtlTool

open RelatedLists

/-! ## Views -/

/-- A view shows at least what another one shows. -/
def View.Extends (view' view : View) : Prop :=
  ∀ id outputs, view id = some outputs → view' id = some outputs

/-- Every view extends itself. -/
theorem View.Extends.refl (view : View) : view.Extends view :=
  fun _ _ h => h

/-- Extensions compose. -/
theorem View.Extends.trans {view view' view'' : View} (h : view''.Extends view')
    (h' : view'.Extends view) : view''.Extends view :=
  fun id outputs hview => h id outputs (h' id outputs hview)

/-- A larger view keeps what a smaller one has stored. -/
theorem View.Extends.eq_of_ne_none {view view' : View} (h : view'.Extends view) {id : String}
    (hid : view id ≠ none) : view' id = view id := by
  cases hview : view id with
  | none => exact absurd hview hid
  | some outputs => exact h id outputs hview

/-- Inside an iteration the iteration's own outputs come first. -/
theorem chainView_of_some {inner : OrderedDict String NodeOutputs} {id : String}
    {outputs : NodeOutputs} (h : inner.get? id = some outputs) (outer : View) :
    chainView inner outer id = some outputs := by
  simp [chainView, h]

/-- Where the iteration has nothing yet, the outer outputs are read. -/
theorem chainView_of_none {inner : OrderedDict String NodeOutputs} {id : String}
    (h : inner.get? id = none) (outer : View) : chainView inner outer id = outer id := by
  simp [chainView, h]

/-- The chained view grows with the iteration's outputs and with the outer ones. -/
theorem chainView_extends {inner inner' : OrderedDict String NodeOutputs} {outer outer' : View}
    (hinner : View.Extends inner'.get? inner.get?)
    (houter : ∀ id, inner.get? id = none → ∀ outputs, outer id = some outputs →
      chainView inner' outer' id = some outputs) :
    View.Extends (chainView inner' outer') (chainView inner outer) := by
  intro id outputs hview
  cases hget : inner.get? id with
  | none =>
      rw [chainView_of_none hget] at hview
      exact houter id hget outputs hview
  | some own =>
      rw [chainView_of_some hget] at hview
      rw [chainView_of_some (hinner id own hget)]
      exact hview

/-! ## A node that succeeds has seen its sources -/

private theorem resolveReference_ok_target {rt : Runtime} {ctx : ReferenceContext} {kind : RefKind}
    {path target : String} {value : Value}
    (h : rt.resolveReference ctx kind path = .ok value)
    (htarget : upstreamTarget? kind path = some target) : ctx.upstream target ≠ none := by
  intro hnone
  cases kind with
  | iter => cases htarget
  | upstream =>
      unfold upstreamTarget? at htarget
      unfold Runtime.resolveReference at h
      cases hsplit : splitPath path with
      | nil => simp [hsplit] at htarget
      | cons head rest =>
          rw [hsplit, List.head?_cons, Option.some.injEq] at htarget
          subst htarget
          simp [hsplit, hnone] at h

private theorem resolveFields_ok_target {rt : Runtime} {ctx : ReferenceContext}
    {config resolved : Fields}
    (h : rt.resolveFields ctx config = .ok resolved) {target : String}
    (htarget : target ∈ upstreamTargets config) : ctx.upstream target ≠ none := by
  unfold upstreamTargets at htarget
  rw [findInFields_eq_occurrences, List.mem_filterMap] at htarget
  rcases htarget with ⟨reference, hmem, hnamed⟩
  rcases List.mem_map.mp hmem with ⟨o, ho, rfl⟩
  cases hvalue : rt.resolveReference ctx o.kind o.path with
  | ok value => exact resolveReference_ok_target hvalue hnamed
  | error e =>
      -- the first occurrence that does not resolve would have ended the resolution
      have hsome : ∃ e', rt.firstError? ctx (occurrencesInFields config) = some e' := by
        rw [← Option.isSome_iff_exists, Runtime.firstError?, List.findSome?_isSome_iff]
        refine ⟨o, ho, ?_⟩
        unfold Runtime.occurrenceError? Runtime.interpolate
        by_cases hembedded : o.embedded = true <;> simp [hembedded, hvalue]
      rcases hsome with ⟨e', he'⟩
      rw [(resolveFields_error_iff rt ctx config e').mpr he'] at h
      cases h

private theorem gatherInputs_ok {view : View} {edges : List EdgeSpec} {inputs gathered : NodeInputs}
    (h : gatherInputs view inputs edges = .ok gathered) :
    ∀ edge ∈ edges, view.port? edge ≠ none := by
  induction edges generalizing inputs with
  | nil => simp
  | cons edge rest ih =>
      unfold gatherInputs at h
      cases hport : view.port? edge with
      | none => simp [hport] at h
      | some records =>
          rw [hport] at h
          intro other hother
          rcases List.mem_cons.mp hother with heq | hother
          · simp [heq, hport]
          · exact ih h other hother

namespace PipelineRun

variable {r : PipelineRun} {topo : List String} {id iteratorId : String} {view view' : View}
  {iter : Option IterContext}

private theorem prepareNode_ok_reads {prepared : Prepared}
    (h : r.prepareNode id view iter = .ok prepared) :
    ∀ source ∈ r.spec.reads id, view source ≠ none := by
  unfold prepareNode at h
  cases hnode : r.spec.node? id with
  | none => simp [hnode] at h
  | some node =>
      rcases PipelineSpec.node?_mem hnode with ⟨_, rfl⟩
      cases hcls : r.engine.registry.get? node.type with
      | none => simp [hnode, hcls] at h
      | some cls =>
          simp only [hnode, hcls, prepareWith] at h
          cases hresolve : r.engine.runtime.resolveFields (referenceContext view iter)
              node.config with
          | error e => cases e <;> simp [hresolve] at h
          | ok resolved =>
              simp only [hresolve] at h
              cases hconfig : cls.modelValidate resolved with
              | error issues => simp [hconfig] at h
              | ok config =>
                  simp only [hconfig] at h
                  cases hinputs : gatherInputs view .empty (r.spec.inEdges node.id) with
                  | error fault => simp [hinputs] at h
                  | ok inputs =>
                      intro source hsource hnone
                      rcases List.mem_append.mp hsource with hedges | htargets
                      · rcases List.mem_map.mp hedges with ⟨edge, hedge, rfl⟩
                        apply gatherInputs_ok hinputs edge hedge
                        simp [View.port?, hnone]
                      · rw [hnode] at htargets
                        apply resolveFields_ok_target hresolve htargets
                        simp [referenceContext, hnone]

/-- A node that succeeds has seen outputs of everything it reads. -/
theorem executeNode_ok_reads {outputs : NodeOutputs}
    (h : r.executeNode id view iter = .ok outputs) :
    ∀ source ∈ r.spec.reads id, view source ≠ none := by
  unfold executeNode at h
  cases hprepare : r.prepareNode id view iter with
  | error e => simp [hprepare] at h
  | ok prepared => exact prepareNode_ok_reads hprepare

private theorem planFanOut_ok_reads {plan : FanOutPlan} (h : r.planFanOut id view = .ok plan) :
    ∀ source ∈ r.spec.reads id, view source ≠ none := by
  unfold planFanOut at h
  cases hprepare : r.prepareNode id view none with
  | error e => simp [hprepare] at h
  | ok prepared => exact prepareNode_ok_reads hprepare

/-- Showing more does not change a success. -/
theorem executeNode_extends {outputs : NodeOutputs} (hext : view'.Extends view)
    (h : r.executeNode id view iter = .ok outputs) : r.executeNode id view' iter = .ok outputs := by
  rw [← h]
  apply executeNode_congr
  intro source hsource
  exact hext.eq_of_ne_none (executeNode_ok_reads h source hsource)

/-- The plan of a fan-out stays the same once more outputs are stored. -/
theorem planFanOut_extends {plan : FanOutPlan} (hext : view'.Extends view)
    (h : r.planFanOut id view = .ok plan) : r.planFanOut id view' = .ok plan := by
  rw [← h]
  apply planFanOut_congr
  intro source hsource
  exact hext.eq_of_ne_none (planFanOut_ok_reads h source hsource)

/-! ## The equations -/

/-- A local solution: the outputs of the iterator and of its scope in the iteration over one
value, where every node reads the local outputs over those of the outer view. -/
structure DenotesIteration (r : PipelineRun) (iteratorId : String) (outer : View)
    (iter : IterContext) (inner : OrderedDict String NodeOutputs) : Prop where
  own : inner.get? iteratorId = some (.singleton "out" [iterationRecord iter.value iter.index])
  member : ∀ n, r.spec.Path iteratorId n → ∃ outputs, inner.get? n = some outputs ∧
    r.executeNode n (chainView inner outer) (some iter) = .ok outputs
  outside : ∀ n, n ≠ iteratorId → ¬ r.spec.Path iteratorId n → inner.get? n = none

/-- The outputs of the iterator or a scope node, fanned in from local solutions. -/
def gatheredOutputs (r : PipelineRun) (plan : FanOutPlan)
    (inners : List (OrderedDict String NodeOutputs)) (member : String) : NodeOutputs :=
  r.memberOutputs plan (inners.map fun inner => some (.completed inner)) member

/-- The equations of an iterator and its scope. -/
structure DenotesFanOut (r : PipelineRun) (iteratorId : String) (view : View) (plan : FanOutPlan)
    (inners : List (OrderedDict String NodeOutputs)) : Prop where
  planned : r.planFanOut iteratorId view = .ok plan
  iterations : List.Forall₂ (r.DenotesIteration iteratorId view) (iterContexts plan.values) inners
  gathered : ∀ n, n = iteratorId ∨ r.spec.Path iteratorId n →
    view n = some (r.gatheredOutputs plan inners n)

/-- The equations of a document: the view shows what every node makes of it. -/
structure Denotes (r : PipelineRun) (view : View) : Prop where
  unknown : ∀ n, n ∉ r.spec.nodeMap.keys → view n = none
  node : ∀ n ∈ r.spec.nodeMap.keys, ¬ r.engine.IsIterator r.spec n →
    r.engine.Unscoped r.spec n → ∃ outputs, r.executeNode n view none = .ok outputs ∧
      view n = some outputs
  fanOut : ∀ iteratorId, r.engine.IsIterator r.spec iteratorId →
    ∃ plan inners, r.DenotesFanOut iteratorId view plan inners

private theorem contributions_completed (inners : List (OrderedDict String NodeOutputs))
    (member : String) :
    contributions (inners.map fun inner => some (.completed inner)) member =
      inners.zipIdx.filterMap fun pair =>
        (pair.1.get? member).map fun outputs => (pair.2, outputs) := by
  unfold contributions completedIterations
  rw [List.zipIdx_map, List.filterMap_map, List.filterMap_filterMap]
  rfl

/-- The fan-in of a node depends on its own outputs in the iterations only. -/
theorem gatheredOutputs_congr {plan : FanOutPlan} {member : String}
    {inners inners' : List (OrderedDict String NodeOutputs)}
    (h : List.Forall₂ (fun inner inner' => inner.get? member = inner'.get? member)
      inners inners') :
    r.gatheredOutputs plan inners member = r.gatheredOutputs plan inners' member := by
  have hzip : ∀ k, (inners.zipIdx k).filterMap (fun pair =>
        (pair.1.get? member).map fun outputs => (pair.2, outputs)) =
      (inners'.zipIdx k).filterMap fun pair =>
        (pair.1.get? member).map fun outputs => (pair.2, outputs) := by
    induction h with
    | nil => simp
    | cons hhead _ ih =>
        intro k
        simp only [List.zipIdx_cons, List.filterMap_cons, hhead, ih]
  simp only [gatheredOutputs, memberOutputs, contributions_completed, hzip 0]

/-! ## At most one solution -/

/-- Induction along the paths of a document. -/
theorem Sorted.path_induction (hsorted : r.Sorted topo) {motive : String → Prop}
    (step : ∀ n ∈ r.spec.nodeMap.keys, (∀ a, r.spec.Path a n → motive a) → motive n) :
    ∀ n ∈ r.spec.nodeMap.keys, motive n := by
  have hprefix : ∀ later earlier, topo = earlier ++ later → (∀ n ∈ earlier, motive n) →
      ∀ n ∈ topo, motive n := by
    intro later
    induction later with
    | nil =>
        intro earlier htopo hearlier n hn
        rw [htopo, List.append_nil] at hn
        exact hearlier n hn
    | cons head others ih =>
        intro earlier htopo hearlier
        apply ih (earlier ++ [head]) (by simp [htopo])
        intro n hn
        rcases List.mem_append.mp hn with hn | hn
        · exact hearlier n hn
        · rw [List.mem_singleton] at hn
          subst hn
          apply step n ((hsorted.mem_iff n).mp (by simp [htopo]))
          intro a hpath
          exact hearlier a (hsorted.visited_of_path htopo hpath)
  intro n hn
  exact hprefix topo [] rfl (by simp) n ((hsorted.mem_iff n).mpr hn)

end PipelineRun

/-! ## A part that two documents share -/

/-- Two documents declare a node and the edges into it alike. -/
structure PipelineSpec.SameAt (spec spec' : PipelineSpec) (id : String) : Prop where
  node : spec.node? id = spec'.node? id
  edges : spec.inEdges id = spec'.inEdges id

namespace PipelineSpec.SameAt

variable {spec spec' : PipelineSpec} {en : Engine} {ctx : RunContext} {id : String}

/-- Sharing one node is symmetric. -/
theorem symm (h : spec.SameAt spec' id) : spec'.SameAt spec id :=
  ⟨h.node.symm, h.edges.symm⟩

/-- Shared nodes are iterators in both documents or in neither. -/
theorem isIterator_iff (h : spec.SameAt spec' id) :
    en.IsIterator spec id ↔ en.IsIterator spec' id := by
  unfold Engine.IsIterator
  rw [h.node]

/-- Shared nodes are known in both documents or in neither. -/
theorem mem_keys_iff (h : spec.SameAt spec' id) :
    id ∈ spec.nodeMap.keys ↔ id ∈ spec'.nodeMap.keys := by
  have hnode := h.node
  rw [node?, node?] at hnode
  rw [← OrderedDict.get?_isSome_iff, ← OrderedDict.get?_isSome_iff, hnode]

private theorem prepareNode_eq (h : spec.SameAt spec' id) (view : View)
    (iter : Option IterContext) :
    (en.on spec ctx).prepareNode id view iter = (en.on spec' ctx).prepareNode id view iter := by
  unfold PipelineRun.prepareNode
  simp only [h.node]
  cases hnode : spec'.node? id with
  | none => rfl
  | some node =>
      rcases PipelineSpec.node?_mem hnode with ⟨_, rfl⟩
      simp only [PipelineRun.prepareWith, PipelineRun.nodeContext, PipelineRun.nodeType, h.node,
        h.edges]

/-- A shared node runs alike in both documents. -/
theorem executeNode_eq (h : spec.SameAt spec' id) (view : View) (iter : Option IterContext) :
    (en.on spec ctx).executeNode id view iter = (en.on spec' ctx).executeNode id view iter := by
  simp only [PipelineRun.executeNode, h.prepareNode_eq, PipelineRun.prepareRaised,
    PipelineRun.nodeContext, PipelineRun.nodeType, h.node]

/-- A shared iterator plans the same fan-out in both documents. -/
theorem planFanOut_eq (h : spec.SameAt spec' id) (view : View) :
    (en.on spec ctx).planFanOut id view = (en.on spec' ctx).planFanOut id view := by
  simp only [PipelineRun.planFanOut, h.prepareNode_eq, PipelineRun.prepareRaised,
    PipelineRun.nodeContext, PipelineRun.nodeType, h.node]

/-- A shared node gathers its iterations alike in both documents. -/
theorem gatheredOutputs_eq (h : spec.SameAt spec' id) (plan : FanOutPlan)
    (inners : List (OrderedDict String NodeOutputs)) :
    (en.on spec ctx).gatheredOutputs plan inners id =
      (en.on spec' ctx).gatheredOutputs plan inners id := by
  simp only [PipelineRun.gatheredOutputs, PipelineRun.memberOutputs, PipelineRun.outputPorts,
    Engine.nodeClass?, h.node]

end PipelineSpec.SameAt

/-- A part of two documents, closed under sources, that both declare alike. -/
structure PipelineSpec.Shares (spec spec' : PipelineSpec) (part : String → Prop) : Prop where
  same : ∀ id, part id → spec.SameAt spec' id
  closed : ∀ id, part id → ∀ edge ∈ spec.inEdges id, part edge.fromNode

namespace PipelineSpec.Shares

variable {spec spec' : PipelineSpec} {part : String → Prop} {a b : String}

/-- A document shares everything with itself. -/
theorem self (spec : PipelineSpec) : spec.Shares spec fun _ => True where
  same := fun _ _ => ⟨rfl, rfl⟩
  closed := fun _ _ _ _ => trivial

/-- Sharing a part is symmetric. -/
theorem symm (h : spec.Shares spec' part) : spec'.Shares spec part where
  same := fun id hid => (h.same id hid).symm
  closed := by
    intro id hid edge hedge
    rw [← (h.same id hid).edges] at hedge
    exact h.closed id hid edge hedge

/-- Whatever leads to a node of the part is in the part, and leads there in the other
document too. -/
theorem path (h : spec.Shares spec' part) (hpath : spec.Path a b) (hb : part b) :
    part a ∧ spec'.Path a b := by
  induction hpath using Relation.TransGen.head_induction_on with
  | single hstep =>
      rcases hstep with ⟨edge, hedge, rfl, rfl⟩
      have hinto := (spec.mem_inEdges edge.toNode edge).mpr ⟨hedge, rfl⟩
      refine ⟨h.closed _ hb edge hinto, ?_⟩
      rw [(h.same _ hb).edges] at hinto
      exact .single ((spec'.mem_inEdges _ edge).mp hinto).1
  | head hstep _ ih =>
      rcases ih with ⟨hpart, hrest⟩
      rcases hstep with ⟨edge, hedge, rfl, rfl⟩
      have hinto := (spec.mem_inEdges edge.toNode edge).mpr ⟨hedge, rfl⟩
      refine ⟨h.closed _ hpart edge hinto, ?_⟩
      rw [(h.same _ hpart).edges] at hinto
      exact Path.trans (.single ((spec'.mem_inEdges _ edge).mp hinto).1) hrest

/-- The paths into a shared part are those of both documents. -/
theorem path_iff (h : spec.Shares spec' part) (hb : part b) : spec.Path a b ↔ spec'.Path a b :=
  ⟨fun hpath => (h.path hpath hb).2, fun hpath => (h.symm.path hpath hb).2⟩

end PipelineSpec.Shares

namespace PipelineRun

variable {en : Engine} {spec spec' : PipelineSpec} {ctx : RunContext} {part : String → Prop}
  {topo : List String} {iteratorId : String} {view view' : View}

/-- Solutions of two documents agree on a node, in the document and in every iteration. -/
structure AgreeAt (en : Engine) (ctx : RunContext) (spec spec' : PipelineSpec)
    (view view' : View) (n : String) : Prop where
  outputs : view n = view' n
  iteration : ∀ iteratorId iter inner inner', spec.Path iteratorId n →
    (en.on spec ctx).DenotesIteration iteratorId view iter inner →
    (en.on spec' ctx).DenotesIteration iteratorId view' iter inner' →
      inner.get? n = inner'.get? n

/-- A node of a scope has the same outputs in two local solutions if all that it reads has. -/
theorem DenotesIteration.agree (hsorted : (en.on spec ctx).Sorted topo)
    (hshares : spec.Shares spec' part) {iter : IterContext} {n : String} (hn : part n)
    {inner inner' : OrderedDict String NodeOutputs} (hpath : spec.Path iteratorId n)
    (hinner : (en.on spec ctx).DenotesIteration iteratorId view iter inner)
    (hinner' : (en.on spec' ctx).DenotesIteration iteratorId view' iter inner')
    (hbefore : ∀ a, spec.Path a n → AgreeAt en ctx spec spec' view view' a) :
    inner.get? n = inner'.get? n := by
  rcases hinner.member n hpath with ⟨outputs, hget, hexec⟩
  rcases hinner'.member n ((hshares.path_iff hn).mp hpath) with ⟨outputs', hget', hexec'⟩
  have hsame : (en.on spec ctx).executeNode n (chainView inner view) (some iter) =
      (en.on spec ctx).executeNode n (chainView inner' view') (some iter) := by
    apply executeNode_congr
    intro source hsource
    have hearlier : spec.Path source n := path_of_mem_reads hsorted.validated hsource
    have hpart := (hshares.path hearlier hn).1
    by_cases hown : source = iteratorId
    · rw [hown, chainView_of_some hinner.own, chainView_of_some hinner'.own]
    · by_cases hinside : spec.Path iteratorId source
      · have hagree := (hbefore source hearlier).iteration iteratorId iter inner inner' hinside
          hinner hinner'
        rcases hinner.member source hinside with ⟨own, hmine, _⟩
        rw [chainView_of_some hmine, chainView_of_some (hagree ▸ hmine)]
      · have houtside : ¬ spec'.Path iteratorId source :=
          fun hinside' => hinside ((hshares.path_iff hpart).mpr hinside')
        rw [chainView_of_none (hinner.outside source hown hinside),
          chainView_of_none (hinner'.outside source hown houtside)]
        exact (hbefore source hearlier).outputs
  rw [hexec, (hshares.same n hn).executeNode_eq, hexec'] at hsame
  rw [hget, hget', Except.ok.inj hsame]

/-- The plan of a fan-out is the same in two solutions that agree on what precedes it. -/
theorem DenotesFanOut.plan_eq (hsorted : (en.on spec ctx).Sorted topo)
    (hsame : spec.SameAt spec' iteratorId) {plan plan' : FanOutPlan}
    {inners inners' : List (OrderedDict String NodeOutputs)}
    (h : (en.on spec ctx).DenotesFanOut iteratorId view plan inners)
    (h' : (en.on spec' ctx).DenotesFanOut iteratorId view' plan' inners')
    (hbefore : ∀ a, spec.Path a iteratorId → view a = view' a) : plan = plan' := by
  have hplan : (en.on spec ctx).planFanOut iteratorId view =
      (en.on spec ctx).planFanOut iteratorId view' := by
    apply planFanOut_congr
    intro source hsource
    exact hbefore source (path_of_mem_reads hsorted.validated hsource)
  rw [h.planned, hsame.planFanOut_eq, h'.planned] at hplan
  exact Except.ok.inj hplan

/-- Two denoted views agree on a shared node when they agree on all its ancestors. -/
theorem AgreeAt.step (hsorted : (en.on spec ctx).Sorted topo) (hshares : spec.Shares spec' part)
    (h : (en.on spec ctx).Denotes view) (h' : (en.on spec' ctx).Denotes view') {n : String}
    (hknown : n ∈ spec.nodeMap.keys) (hn : part n)
    (hbefore : ∀ a, spec.Path a n → AgreeAt en ctx spec spec' view view' a) :
    AgreeAt en ctx spec spec' view view' n := by
  have hiteration : ∀ iteratorId iter inner inner', spec.Path iteratorId n →
      (en.on spec ctx).DenotesIteration iteratorId view iter inner →
      (en.on spec' ctx).DenotesIteration iteratorId view' iter inner' →
        inner.get? n = inner'.get? n :=
    fun _ _ _ _ hpath hinner hinner' => hinner.agree hsorted hshares hn hpath hinner' hbefore
  refine ⟨?_, hiteration⟩
  by_cases hfanned : ∃ iteratorId, en.IsIterator spec iteratorId ∧
      (n = iteratorId ∨ spec.Path iteratorId n)
  · rcases hfanned with ⟨iteratorId, hiter, hmember⟩
    have hshared : part iteratorId := by
      rcases hmember with rfl | hbelow
      · exact hn
      · exact (hshares.path hbelow hn).1
    have hmember' : n = iteratorId ∨ spec'.Path iteratorId n :=
      hmember.imp id fun hbelow => (hshares.path hbelow hn).2
    rcases h.fanOut iteratorId hiter with ⟨plan, inners, hfan⟩
    rcases h'.fanOut iteratorId ((hshares.same _ hshared).isIterator_iff.mp hiter) with
      ⟨plan', inners', hfan'⟩
    have hplan : plan = plan' := by
      apply hfan.plan_eq hsorted (hshares.same _ hshared) hfan'
      intro a hpath
      rcases hmember with rfl | hbelow
      · exact (hbefore a hpath).outputs
      · exact (hbefore a (hpath.trans hbelow)).outputs
    subst hplan
    rw [hfan.gathered n hmember, hfan'.gathered n hmember', (hshares.same n hn).gatheredOutputs_eq]
    apply congrArg some
    apply gatheredOutputs_congr
    refine (forall₂_join hfan.iterations hfan'.iterations).imp ?_
    intro inner inner' hboth
    rcases hboth with ⟨iter, hinner, hinner'⟩
    rcases hmember with rfl | hbelow
    · rw [hinner.own, hinner'.own]
    · exact hiteration iteratorId iter inner inner' hbelow hinner hinner'
  · have hplain : ¬ en.IsIterator spec n := fun hiter => hfanned ⟨n, hiter, Or.inl rfl⟩
    have hunscoped : en.Unscoped spec n := fun iteratorId hiter hpath =>
      hfanned ⟨iteratorId, hiter, Or.inr hpath⟩
    have hunscoped' : en.Unscoped spec' n := by
      intro iteratorId hiter hpath
      rcases hshares.symm.path hpath hn with ⟨hshared, hback⟩
      exact hunscoped iteratorId ((hshares.same _ hshared).isIterator_iff.mpr hiter) hback
    rcases h.node n hknown hplain hunscoped with ⟨outputs, hexec, hview⟩
    rcases h'.node n ((hshares.same n hn).mem_keys_iff.mp hknown)
      (fun hiter => hplain ((hshares.same n hn).isIterator_iff.mpr hiter)) hunscoped' with
      ⟨outputs', hexec', hview'⟩
    have hsame : (en.on spec ctx).executeNode n view none =
        (en.on spec ctx).executeNode n view' none := by
      apply executeNode_congr
      intro source hsource
      exact (hbefore source (path_of_mem_reads hsorted.validated hsource)).outputs
    rw [hexec, (hshares.same n hn).executeNode_eq, hexec'] at hsame
    rw [hview, hview', Except.ok.inj hsame]

/-- Solutions of two documents agree on the part that the documents share. -/
theorem Denotes.agree (hsorted : (en.on spec ctx).Sorted topo) (hshares : spec.Shares spec' part)
    (h : (en.on spec ctx).Denotes view) (h' : (en.on spec' ctx).Denotes view') {n : String}
    (hn : part n) : view n = view' n := by
  by_cases hknown : n ∈ spec.nodeMap.keys
  · have hagree : part n → AgreeAt en ctx spec spec' view view' n := by
      refine hsorted.path_induction
        (motive := fun m => part m → AgreeAt en ctx spec spec' view view' m) ?_ n hknown
      intro m hm hbefore hshared
      apply AgreeAt.step hsorted hshares h h' hm hshared
      intro a hpath
      exact hbefore a hpath (hshares.path hpath hshared).1
    exact (hagree hn).outputs
  · have hknown' : n ∉ spec'.nodeMap.keys := fun hmem =>
      hknown ((hshares.same n hn).mem_keys_iff.mpr hmem)
    rw [h.unknown n hknown, h'.unknown n hknown']

/-- The equations of a document have at most one solution. -/
theorem Denotes.unique {r : PipelineRun} (hsorted : r.Sorted topo) (h : r.Denotes view)
    (h' : r.Denotes view') : view = view' := by
  ext1 n
  exact Denotes.agree hsorted (.self r.spec) h h' trivial

end PipelineRun

end EtlTool
