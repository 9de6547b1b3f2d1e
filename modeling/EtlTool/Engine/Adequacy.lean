import EtlTool.Engine.Dataflow
import EtlTool.Engine.Scheduling

/-!
# Runs compute what a document denotes

The loop executes the nodes one after another and fans whole scopes out under a
scheduler.  A run in which nothing fails leaves the solution of the equations of the
document; in the other direction a solution drives every run to it, if the outside
sources of every scope precede its iterator.

Main results:

- Theorem {lit}`run_denotes`: the outputs of a run without a failure solve the equations.
- Theorem {lit}`run_of_denotes`: under that condition a solution is what every run computes.
- Theorem {lit}`executePipeline_denotes`: a call that succeeds has computed the only solution.
- Theorem {lit}`executePipeline_adequate`: under that condition a call succeeds exactly
  when there is a solution.
-/

namespace EtlTool

open RelatedLists
open TopologicalSort (Precedes)

namespace PipelineRun

variable {r : PipelineRun} {topo visited rest : List String} {s s' : LoopState}
  {id iteratorId : String} {view view' : View} {plan : FanOutPlan}

/-! ## Iterations that complete -/

/-- A scope that completes leaves a local solution: every node would return its outputs
again if it saw the outputs of the whole scope. -/
theorem runIteration_denotes {outer : View} {iter : IterContext} {scope : List String}
    {outputs final : OrderedDict String NodeOutputs} (hnodup : scope.Nodup)
    (hfresh : ∀ n ∈ scope, outputs.get? n = none) (houter : ∀ n ∈ scope, outer n = none)
    (h : r.runIteration outer iter outputs scope = .completed final) :
    View.Extends final.get? outputs.get? ∧ ∀ n ∈ scope, ∃ result, final.get? n = some result ∧
      r.executeNode n (chainView final outer) (some iter) = .ok result := by
  induction scope generalizing outputs with
  | nil =>
      cases h
      exact ⟨View.Extends.refl _, by simp⟩
  | cons head others ih =>
      have hframe := (runIteration_completed h).1
      rw [List.nodup_cons] at hnodup
      unfold runIteration at h
      cases hexec : r.executeNode head (chainView outputs outer) (some iter) with
      | error raised =>
          rw [hexec] at h
          cases raised with
          | other exc => simp [iterationFailed] at h
          | node error =>
              simp only [iterationFailed] at h
              split at h <;> cases h
      | ok result =>
          rw [hexec] at h
          have hset : View.Extends (outputs.set head result).get? outputs.get? := by
            intro n own hown
            have hne : n ≠ head := by
              intro heq
              rw [heq, hfresh head List.mem_cons_self] at hown
              cases hown
            rw [OrderedDict.get?_set_of_ne _ hne, hown]
          have hfresh' : ∀ n ∈ others, (outputs.set head result).get? n = none := by
            intro n hn
            have hne : n ≠ head := fun heq => hnodup.1 (heq ▸ hn)
            rw [OrderedDict.get?_set_of_ne _ hne]
            exact hfresh n (List.mem_cons_of_mem head hn)
          rcases ih hnodup.2 hfresh' (fun n hn => houter n (List.mem_cons_of_mem head hn)) h with
            ⟨hext, hmembers⟩
          have hall : View.Extends final.get? outputs.get? := hext.trans hset
          refine ⟨hall, ?_⟩
          intro n hn
          rcases List.mem_cons.mp hn with rfl | hn
          · refine ⟨result, hext n result (OrderedDict.get?_set_self _ _ _), ?_⟩
            apply executeNode_extends (chainView_extends hall ?_) hexec
            -- what the outer view shows is hidden by no node of the scope
            intro m hnone own hown
            have hm : m ∉ n :: others := fun hmem => by
              rw [houter m hmem] at hown
              cases hown
            rw [chainView_of_none ((hframe m hm).trans hnone), hown]
          · exact hmembers n hn

/-- The iteration over one value leaves a local solution if it completes. -/
theorem iterationAt_denotes (hsorted : r.Sorted topo) {outer : View} {iter : IterContext}
    {final : OrderedDict String NodeOutputs} (houter : ∀ n, r.spec.Path id n → outer n = none)
    (h : r.iterationAt id (r.scopeTopo topo id) outer iter = .completed final) :
    r.DenotesIteration id outer iter final := by
  have hframe := (runIteration_completed h).1
  have hsolved := runIteration_denotes (hsorted.nodup.filter _)
    (by
      intro n hn
      have hne : n ≠ id := fun heq => hsorted.not_mem_scope id (heq ▸ hn)
      exact OrderedDict.get?_singleton_of_ne hne _)
    (fun n hn => houter n ((hsorted.mem_scope id n).mp hn)) h
  constructor
  · rw [hframe id (hsorted.not_mem_scope id)]
    exact OrderedDict.get?_singleton_self _ _
  · intro n hpath
    exact hsolved.2 n ((hsorted.mem_scope id n).mpr hpath)
  · intro n hne hpath
    rw [hframe n fun hmem => hpath ((hsorted.mem_scope id n).mp hmem)]
    exact OrderedDict.get?_singleton_of_ne hne _

/-- A local solution stays one when more is visible outside. -/
theorem DenotesIteration.extends {outer outer' : View} {iter : IterContext}
    {inner : OrderedDict String NodeOutputs} (hext : outer'.Extends outer)
    (h : r.DenotesIteration iteratorId outer iter inner) :
    r.DenotesIteration iteratorId outer' iter inner where
  own := h.own
  member := by
    intro n hpath
    rcases h.member n hpath with ⟨outputs, hget, hexec⟩
    refine ⟨outputs, hget, executeNode_extends (chainView_extends (View.Extends.refl _) ?_) hexec⟩
    intro m hnone own hown
    rw [chainView_of_none hnone, hext m own hown]
  outside := h.outside

/-- Iterations without failures have all completed. -/
theorem iterationResults_completed {scope : List String} {outer : View}
    {schedule : List FanOut.Choice}
    (hcalm : CalmResults (r.iterationResults iteratorId scope outer plan schedule)) :
    ∃ inners, r.iterationResults iteratorId scope outer plan schedule =
        inners.map (fun inner => some (.completed inner)) ∧
      List.Forall₂ (fun iter inner => r.iterationAt iteratorId scope outer iter = .completed inner)
        (iterContexts plan.values) inners := by
  have hall := iterationResults_of_calm (not_aborting_of_calm hcalm)
  have hcompleted : ∀ iter ∈ iterContexts plan.values, ∃ inner,
      r.iterationAt iteratorId scope outer iter = .completed inner := by
    intro iter hiter
    have hmem : some (r.iterationAt iteratorId scope outer iter) ∈
        r.iterationResults iteratorId scope outer plan schedule := by
      rw [hall]
      exact List.mem_map_of_mem hiter
    cases hresult : r.iterationAt iteratorId scope outer iter with
    | completed inner => exact ⟨inner, rfl⟩
    | failed n error =>
        rw [hresult] at hmem
        rcases List.mem_iff_getElem?.mp hmem with ⟨i, hi⟩
        have hfailed := mem_iterationFailures.mpr ⟨i, hi⟩
        rw [hcalm.2] at hfailed
        cases hfailed
    | escaped exc =>
        rw [hresult] at hmem
        have hnone := hcalm.1
        unfold firstEscape? at hnone
        rw [List.findSome?_eq_none_iff] at hnone
        cases hnone _ hmem
  rcases exists_forall₂ hcompleted with ⟨inners, hinners⟩
  refine ⟨inners, ?_, hinners⟩
  rw [hall, ← List.forall₂_eq_eq_eq, List.forall₂_map_left_iff, List.forall₂_map_right_iff]
  exact hinners.imp fun iter inner hinner => by rw [hinner]

/-! ## A calm run leaves a solution -/

/-- The visited part of a document is solved by the outputs so far. -/
structure SolvedSoFar (r : PipelineRun) (visited : List String) (s : LoopState) : Prop where
  node : ∀ n ∈ visited, ¬ r.engine.IsIterator r.spec n → r.engine.Unscoped r.spec n →
    ∃ outputs, r.executeNode n s.view none = .ok outputs ∧ s.view n = some outputs
  fanOut : ∀ n ∈ visited, r.engine.IsIterator r.spec n →
    ∃ plan inners, r.DenotesFanOut n s.view plan inners

/-- More outputs keep the solution of a fan-out. -/
theorem DenotesFanOut.extends {inners : List (OrderedDict String NodeOutputs)}
    (hext : view'.Extends view) (h : r.DenotesFanOut iteratorId view plan inners) :
    r.DenotesFanOut iteratorId view' plan inners where
  planned := planFanOut_extends hext h.planned
  iterations := h.iterations.imp fun _ _ hinner => hinner.extends hext
  gathered := fun n hn => hext n _ (h.gathered n hn)

/-- What the visited nodes have solved stays solved as outputs are added. -/
theorem SolvedSoFar.extends (hext : View.Extends s'.view s.view)
    (h : r.SolvedSoFar visited s) : r.SolvedSoFar visited s' where
  node := by
    intro n hn hplain hunscoped
    rcases h.node n hn hplain hunscoped with ⟨outputs, hexec, hview⟩
    exact ⟨outputs, executeNode_extends hext hexec, hext n outputs hview⟩
  fanOut := by
    intro n hn hiter
    rcases h.fanOut n hn hiter with ⟨plan, inners, hfan⟩
    exact ⟨plan, inners, hfan.extends hext⟩

/-- An iterator is in no scope. -/
theorem Sorted.iterator_unscoped (hsorted : r.Sorted topo)
    (hiter : r.engine.IsIterator r.spec id) : r.engine.Unscoped r.spec id :=
  fun other hother => hsorted.validated.not_nested other id hother hiter

/-- Before a calm fan-out its scope has no outputs. -/
theorem Books.scope_outputs_eq_none (hsorted : r.Sorted topo)
    (hsplit : topo = visited ++ id :: rest) (hb : r.Books visited s)
    (hiter : r.engine.IsIterator r.spec id) (hready : s.results.get? id = none) {n : String}
    (hpath : r.spec.Path id n) : s.view n = none := by
  by_contra hne
  rcases (hb.stored n).mp hne with ⟨result, hresult, hcount⟩
  have hskipped := hb.ahead_of_scope hsorted hsplit hiter (Or.inr hpath) hresult hready
  exact hcount (hb.uncounted n result hresult hskipped)

/-- Fanning in without failures solves the equations of the iterator and its scope. -/
theorem fanIn_denotes (hsorted : r.Sorted topo) (hsplit : topo = visited ++ id :: rest)
    (hb : r.Books visited s) (hready : s.results.get? id = none)
    (hiter : r.engine.IsIterator r.spec id) {schedule : List FanOut.Choice}
    (hplan : r.planFanOut id s.view = .ok plan)
    (hcalm : CalmResults (r.iterationResults id (r.scopeTopo topo id) s.view plan schedule))
    (hext : View.Extends (r.fanIn s id (r.scopeTopo topo id) plan schedule).view s.view) :
    ∃ inners, r.DenotesFanOut id (r.fanIn s id (r.scopeTopo topo id) plan schedule).view plan
      inners := by
  rcases iterationResults_completed hcalm with ⟨inners, hresults, hinners⟩
  refine ⟨inners, planFanOut_extends hext hplan, ?_, ?_⟩
  · refine hinners.imp fun iter inner hinner => ?_
    have hlocal := iterationAt_denotes hsorted
      (fun n hpath => hb.scope_outputs_eq_none hsorted hsplit hiter hready hpath) hinner
    exact hlocal.extends hext
  · intro n hn
    have hmem : n ∈ id :: r.scopeTopo topo id := by
      rw [List.mem_cons, hsorted.mem_scope]
      exact hn
    rw [LoopState.view, get?_fanIn_outputs, if_pos hmem, hresults]
    rfl

/-- A calm visit solves the equations of one more node. -/
theorem SolvedSoFar.visit (hsorted : r.Sorted topo) (hsplit : topo = visited ++ id :: rest)
    (hb : r.Books visited s) (hcalm : Calm s) {schedule : List FanOut.Choice}
    (hvisit : r.CalmVisit schedule (r.scopeTopo topo id) s id s') (h : r.SolvedSoFar visited s) :
    r.SolvedSoFar (visited ++ [id]) s' := by
  have hext : View.Extends s'.view s.view :=
    fun n outputs hget => hvisit.outputs_mono hsorted hsplit hb hget
  have hold := h.extends hext
  -- the earlier nodes stay solved, so that only the visited one is left
  have hnew : (¬ r.engine.IsIterator r.spec id → r.engine.Unscoped r.spec id →
        ∃ outputs, r.executeNode id s'.view none = .ok outputs ∧ s'.view id = some outputs) ∧
      (r.engine.IsIterator r.spec id → ∃ plan inners, r.DenotesFanOut id s'.view plan inners) := by
    cases hvisit with
    | idle hresult =>
        have hscoped := hb.calm_ahead hcalm hresult (hsorted.not_mem_visited hsplit)
        exact ⟨fun _ hunscoped => absurd hunscoped hscoped,
          fun hiter => absurd (hsorted.iterator_unscoped hiter) hscoped⟩
    | succeeded hresult hplain outputs hexec =>
        refine ⟨fun _ _ => ⟨outputs, executeNode_extends hext hexec, ?_⟩,
          fun hiter => absurd hiter hplain⟩
        exact OrderedDict.get?_set_self _ _ _
    | fannedIn hresult hiter plan hplan hescape hfailures =>
        refine ⟨fun hplain => absurd hiter hplain, fun _ => ⟨plan, ?_⟩⟩
        exact fanIn_denotes hsorted hsplit hb hresult hiter hplan ⟨hescape, hfailures⟩ hext
  constructor
  · intro n hn
    rcases List.mem_append.mp hn with hn | hn
    · exact hold.node n hn
    · rw [List.mem_singleton] at hn
      exact hn ▸ hnew.1
  · intro n hn
    rcases List.mem_append.mp hn with hn | hn
    · exact hold.fanOut n hn
    · rw [List.mem_singleton] at hn
      exact hn ▸ hnew.2

/-- The outputs of a run in which nothing fails solve the equations of the document. -/
theorem run_denotes (hsorted : r.Sorted topo) (schedule : String → List FanOut.Choice)
    (hcalm : Calm (r.run schedule topo .initial topo)) :
    r.Denotes (r.run schedule topo .initial topo).view := by
  have hsolved : ∀ (ids visited : List String) (s : LoopState), topo = visited ++ ids →
      r.Books visited s → r.SolvedSoFar visited s → Calm (r.run schedule topo s ids) →
      r.SolvedSoFar topo (r.run schedule topo s ids) := by
    intro ids
    induction ids with
    | nil =>
        intro visited s htopo _ hsolved _
        rw [List.append_nil] at htopo
        exact htopo ▸ hsolved
    | cons head tail ih =>
        intro visited s htopo hb hsolved hcalm
        have hnext : Calm (r.visit schedule topo s head) := Calm.of_run hcalm
        have hnow : Calm s :=
          Calm.of_run (show Calm (r.run schedule topo s (head :: tail)) from hcalm)
        have hvisit := visit_spec r schedule topo s head
        apply ih (visited ++ [head]) _ (by simp [htopo])
          (hb.visit hsorted htopo hvisit hnext.escaped) _ hcalm
        exact hsolved.visit hsorted htopo hb hnow (hb.calmVisit hvisit hnext)
  have hb := run_books hsorted schedule hcalm.escaped
  have hfinal := hsolved topo [] .initial rfl (Books.initial r) ⟨by simp, by simp⟩ hcalm
  constructor
  · intro n hn
    by_contra hne
    rcases (hb.stored n).mp hne with ⟨result, hresult, _⟩
    exact hn (hb.known n (by simp [hresult]))
  · intro n hn
    exact hfinal.node n ((hsorted.mem_iff n).mpr hn)
  · intro n hiter
    rcases hiter with ⟨node, hnode, hfans⟩
    rcases PipelineSpec.node?_mem hnode with ⟨hmem, hid⟩
    have hknown : n ∈ r.spec.nodeMap.keys := (r.spec.mem_nodeMap_keys n).mpr ⟨node, hmem, hid⟩
    exact hfinal.fanOut n ((hsorted.mem_iff n).mpr hknown) ⟨node, hnode, hfans⟩

/-! ## A solution drives every run -/

/-- An iteration completes with the local solution if its outside sources show what the
solution shows. -/
theorem iterationAt_of_denotes (hsorted : r.Sorted topo) {outer : View} {iter : IterContext}
    {inner : OrderedDict String NodeOutputs} (hinner : r.DenotesIteration id view iter inner)
    (houtside : ∀ n, r.spec.Path id n → ∀ source ∈ r.spec.reads n, source ≠ id →
      ¬ r.spec.Path id source → outer source = view source) :
    ∃ final, r.iterationAt id (r.scopeTopo topo id) outer iter = .completed final ∧
      ∀ n, final.get? n = inner.get? n := by
  have hgeneral : ∀ (remaining passed : List String) (outputs : OrderedDict String NodeOutputs),
      r.scopeTopo topo id = passed ++ remaining →
      (∀ n, n = id ∨ n ∈ passed → outputs.get? n = inner.get? n) →
      (∀ n, n ≠ id → n ∉ passed → outputs.get? n = none) →
      ∃ final, r.runIteration outer iter outputs remaining = .completed final ∧
        ∀ n, final.get? n = inner.get? n := by
    intro remaining
    induction remaining with
    | nil =>
        intro passed outputs hscope hsame hother
        refine ⟨outputs, rfl, fun n => ?_⟩
        rw [List.append_nil] at hscope
        by_cases hn : n = id ∨ n ∈ passed
        · exact hsame n hn
        · rw [not_or, ← hscope, hsorted.mem_scope] at hn
          rw [hinner.outside n hn.1 hn.2]
          exact hother n hn.1 fun hmem => hn.2 ((hsorted.mem_scope id n).mp (hscope ▸ hmem))
    | cons head others ih =>
        intro passed outputs hscope hsame hother
        have hhead : head ∈ r.scopeTopo topo id := by simp [hscope]
        have hpath := (hsorted.mem_scope id head).mp hhead
        rcases hinner.member head hpath with ⟨result, hget, hexec⟩
        have hview : r.executeNode head (chainView outputs outer) (some iter) = .ok result := by
          rw [← hexec]
          apply executeNode_congr
          intro source hsource
          by_cases hown : source = id
          · have hagree := hsame source (Or.inl hown)
            rw [hown] at hagree ⊢
            rw [chainView_of_some (hagree.trans hinner.own), chainView_of_some hinner.own]
          · by_cases hinside : r.spec.Path id source
            · -- a source inside the scope comes earlier in the iteration
              have hsourceScope := (hsorted.mem_scope id source).mpr hinside
              have hprecedes : Precedes (r.scopeTopo topo id) source head :=
                (hsorted.precedes (path_of_mem_reads hsorted.validated hsource)).filter
                  (List.mem_filter.mp hsourceScope).2 (List.mem_filter.mp hhead).2
              have hmem := hprecedes.mem_initial (hsorted.nodup.filter _) hscope
              rcases hinner.member source hinside with ⟨own, hmine, _⟩
              rw [chainView_of_some ((hsame source (Or.inr hmem)).trans hmine),
                chainView_of_some hmine]
            · have hnot : source ∉ passed := fun hmem =>
                hinside ((hsorted.mem_scope id source).mp (by simp [hscope, hmem]))
              rw [chainView_of_none (hother source hown hnot),
                chainView_of_none (hinner.outside source hown hinside)]
              exact houtside head hpath source hsource hown hinside
        rw [runIteration, hview]
        apply ih (passed ++ [head]) _ (by simp [hscope])
        · intro n hn
          rw [OrderedDict.get?_set]
          by_cases hne : n = head
          · rw [if_pos hne, hne, hget]
          · rw [if_neg hne]
            apply hsame
            simpa [hne] using hn
        · intro n hn hnot
          rw [List.mem_append, List.mem_singleton, not_or] at hnot
          rw [OrderedDict.get?_set_of_ne _ hnot.2]
          exact hother n hn hnot.1
  apply hgeneral (r.scopeTopo topo id) [] _ rfl
  · intro n hn
    have hid : n = id := by simpa using hn
    rw [hid, hinner.own]
    exact OrderedDict.get?_singleton_self _ _
  · intro n hn _
    exact OrderedDict.get?_singleton_of_ne hn _

/-- Iterations that all complete are calm under every schedule. -/
theorem iterationResults_calm {scope : List String} {outer : View}
    (h : ∀ iter ∈ iterContexts plan.values, ∃ final,
      r.iterationAt iteratorId scope outer iter = .completed final)
    (schedule : List FanOut.Choice) :
    CalmResults (r.iterationResults iteratorId scope outer plan schedule) := by
  have hslot : ∀ (i : Nat) (result : IterationResult),
      (r.iterationResults iteratorId scope outer plan schedule)[i]? = some (some result) →
        ∃ final, result = .completed final := by
    intro i result hi
    rcases iterationResults_getElem? hi with ⟨value, hvalue, heq⟩
    have hmem : (⟨value, i⟩ : IterContext) ∈ iterContexts plan.values := by
      apply List.mem_of_getElem? (i := i)
      rw [iterContexts_getElem?, hvalue]
      rfl
    rcases h _ hmem with ⟨final, hfinal⟩
    exact ⟨final, heq.trans hfinal⟩
  constructor
  · unfold firstEscape?
    rw [List.findSome?_eq_none_iff]
    intro slot hmem
    rcases List.mem_iff_getElem?.mp hmem with ⟨i, hi⟩
    cases slot with
    | none => rfl
    | some result =>
        rcases hslot i result hi with ⟨final, rfl⟩
        rfl
  · rw [List.eq_nil_iff_forall_not_mem]
    intro failure hmem
    rcases mem_iterationFailures.mp hmem with ⟨i, hi⟩
    rcases hslot i _ hi with ⟨final, hfinal⟩
    cases hfinal

/-- A run follows a solution: nothing has failed and all outputs are those of the solution. -/
structure Follows (view : View) (s : LoopState) : Prop where
  calm : Calm s
  outputs : view.Extends s.view

/-- What has been visited shows what the solution shows. -/
theorem Follows.visited_eq (hb : r.Books visited s) (h : Follows view s) {n : String}
    (hn : n ∈ visited) : s.view n = view n :=
  (h.outputs.eq_of_ne_none (hb.calm_outputs h.calm hn)).symm

/-- The iterations of a fan-out complete with their local solutions. -/
theorem Follows.iterations (hsorted : r.Sorted topo) (hsplit : topo = visited ++ id :: rest)
    (hordered : r.engine.ScopeSourcesPrecede r.spec topo) (hb : r.Books visited s)
    (h : Follows view s) (hiter : r.engine.IsIterator r.spec id)
    {inners : List (OrderedDict String NodeOutputs)}
    (hfan : r.DenotesFanOut id view plan inners) :
    List.Forall₂ (fun iter inner => ∃ final, r.iterationAt id (r.scopeTopo topo id) s.view iter =
      .completed final ∧ ∀ n, final.get? n = inner.get? n) (iterContexts plan.values) inners := by
  refine hfan.iterations.imp fun iter inner hinner => ?_
  apply iterationAt_of_denotes hsorted hinner
  intro n hpath source hsource hown hinside
  have hprecedes := hordered id hiter n hpath source hsource hown hinside
  exact h.visited_eq hb (hprecedes.mem_initial hsorted.nodup hsplit)

/-- Storing the outputs that the solution has for a node follows it. -/
theorem Follows.succeedNode (h : Follows view s) {outputs : NodeOutputs}
    (hview : view id = some outputs) : Follows view (r.succeedNode s id outputs) := by
  refine ⟨⟨h.calm.errors, h.calm.escaped⟩, fun n own hown => ?_⟩
  by_cases hne : n = id
  · subst hne
    have hself : (r.succeedNode s n outputs).view n = some outputs :=
      OrderedDict.get?_set_self _ _ _
    rw [hview, ← hself, hown]
  · apply h.outputs n own
    have hother : (r.succeedNode s id outputs).view n = s.view n :=
      OrderedDict.get?_set_of_ne _ hne _
    rw [← hother, hown]

/-- Fanning in what the local solutions contribute follows the solution. -/
theorem Follows.fanIn (hsorted : r.Sorted topo) (h : Follows view s)
    {inners : List (OrderedDict String NodeOutputs)} {schedule : List FanOut.Choice}
    (hfan : r.DenotesFanOut id view plan inners)
    (hlocal : List.Forall₂ (fun iter inner => ∃ final,
      r.iterationAt id (r.scopeTopo topo id) s.view iter = .completed final ∧
        ∀ n, final.get? n = inner.get? n) (iterContexts plan.values) inners)
    (hcalm : CalmResults (r.iterationResults id (r.scopeTopo topo id) s.view plan schedule)) :
    Follows view (r.fanIn s id (r.scopeTopo topo id) plan schedule) := by
  rcases iterationResults_completed hcalm with ⟨inners', hresults, hinners'⟩
  have hsame : List.Forall₂ (fun inner' inner => ∀ n, inner'.get? n = inner.get? n)
      inners' inners := by
    refine (forall₂_join hinners' hlocal).imp ?_
    intro inner' inner hboth
    rcases hboth with ⟨iter, hcompleted, final, hfinal, hget⟩
    rw [hcompleted] at hfinal
    cases hfinal
    exact hget
  refine ⟨⟨?_, h.calm.escaped⟩, fun n own hown => ?_⟩
  · simp [PipelineRun.fanIn, h.calm.errors, hcalm.2]
  · rw [LoopState.view, get?_fanIn_outputs] at hown
    by_cases hmem : n ∈ id :: r.scopeTopo topo id
    · rw [if_pos hmem, hresults, Option.some.injEq] at hown
      rw [List.mem_cons, hsorted.mem_scope] at hmem
      rw [hfan.gathered n hmem, ← hown]
      exact congrArg some (gatheredOutputs_congr (hsame.imp fun _ _ hget => hget n)).symm
    · rw [if_neg hmem] at hown
      exact h.outputs n own hown

/-- Every visit follows a solution. -/
theorem Follows.visit (hsorted : r.Sorted topo) (hsplit : topo = visited ++ id :: rest)
    (hordered : r.engine.ScopeSourcesPrecede r.spec topo) (hdenotes : r.Denotes view)
    (hb : r.Books visited s) (h : Follows view s) {schedule : List FanOut.Choice}
    (hvisit : r.Visit schedule (r.scopeTopo topo id) s id s') : Follows view s' := by
  have hsources : ∀ source ∈ r.spec.reads id, s.view source = view source := by
    intro source hsource
    exact h.visited_eq hb
      (hsorted.visited_of_path hsplit (path_of_mem_reads hsorted.validated hsource))
  have hknown : id ∈ r.spec.nodeMap.keys := (hsorted.mem_iff id).mp (by simp [hsplit])
  have hnode : s.Ready id → ¬ r.engine.IsIterator r.spec id →
      ∃ outputs, r.executeNode id s.view none = .ok outputs ∧ view id = some outputs := by
    intro hready hplain
    have hunscoped := hb.unscoped hsorted hsplit hready.abort hready.result
    rcases hdenotes.node id hknown hplain hunscoped with ⟨outputs, hexec, hview⟩
    exact ⟨outputs, (executeNode_congr hsources).trans hexec, hview⟩
  have hplanned : r.engine.IsIterator r.spec id →
      ∃ plan inners, r.planFanOut id s.view = .ok plan ∧ r.DenotesFanOut id view plan inners := by
    intro hiter
    rcases hdenotes.fanOut id hiter with ⟨plan, inners, hfan⟩
    exact ⟨plan, inners, (planFanOut_congr hsources).trans hfan.planned, hfan⟩
  have hquiet : r.engine.IsIterator r.spec id → ∀ plan, r.planFanOut id s.view = .ok plan →
      CalmResults (r.iterationResults id (r.scopeTopo topo id) s.view plan schedule) ∧
        Follows view (r.fanIn s id (r.scopeTopo topo id) plan schedule) := by
    intro hiter plan hplan
    rcases hplanned hiter with ⟨plan', inners, hplan', hfan⟩
    rw [hplan] at hplan'
    cases hplan'
    have hlocal := h.iterations hsorted hsplit hordered hb hiter hfan
    have hcalm : CalmResults
        (r.iterationResults id (r.scopeTopo topo id) s.view plan schedule) := by
      refine iterationResults_calm (fun iter hmem => ?_) schedule
      rcases exists_mem_of_forall₂ hlocal hmem with ⟨inner, _, final, hfinal, _⟩
      exact ⟨final, hfinal⟩
    exact ⟨hcalm, h.fanIn hsorted hfan hlocal hcalm⟩
  cases hvisit with
  | idle _ => exact h
  | aborted _ _ habort => exact absurd h.calm.errors (hb.aborts.mp habort).2
  | unknown hready hnone =>
      rcases hsorted.exists_class hknown with ⟨node, _, hsome, _⟩
      rw [hnone] at hsome
      cases hsome
  | succeeded hready hplain outputs hexec =>
      rcases hnode hready hplain with ⟨outputs', hexec', hview⟩
      rw [hexec] at hexec'
      cases hexec'
      exact h.succeedNode hview
  | failed hready hplain error hexec =>
      rcases hnode hready hplain with ⟨outputs, hexec', _⟩
      rw [hexec] at hexec'
      cases hexec'
  | escaped hready hplain exc hexec =>
      rcases hnode hready hplain with ⟨outputs, hexec', _⟩
      rw [hexec] at hexec'
      cases hexec'
  | planFailed hready hiter error hplan =>
      rcases hplanned hiter with ⟨plan, _, hplan', _⟩
      rw [hplan] at hplan'
      cases hplan'
  | planEscaped hready hiter exc hplan =>
      rcases hplanned hiter with ⟨plan, _, hplan', _⟩
      rw [hplan] at hplan'
      cases hplan'
  | iterationEscaped hready hiter plan hplan exc hexc =>
      rw [(hquiet hiter plan hplan).1.1] at hexc
      cases hexc
  | iterationFailed hready hiter plan hplan _ _ first others hfailures =>
      rw [(hquiet hiter plan hplan).1.2] at hfailures
      cases hfailures
  | fannedIn hready hiter plan hplan _ _ => exact (hquiet hiter plan hplan).2

/-- If the outside sources of every scope precede its iterator, then a solution of the
equations is what every run computes. -/
theorem run_of_denotes (hsorted : r.Sorted topo)
    (hordered : r.engine.ScopeSourcesPrecede r.spec topo) (hdenotes : r.Denotes view)
    (schedule : String → List FanOut.Choice) :
    Calm (r.run schedule topo .initial topo) ∧
      (r.run schedule topo .initial topo).view = view := by
  have hfollows := (@run_invariant_of_books r topo hsorted schedule (fun _ s => Follows view s)
    (fun visited id rest s s' hsplit hbooks hvisit h =>
      h.visit hsorted hsplit hordered hdenotes (hbooks h.calm.escaped) hvisit)
    ⟨⟨rfl, rfl⟩, by simp [View.Extends, LoopState.view, LoopState.initial]⟩).2
  refine ⟨hfollows.calm, ?_⟩
  have hb := run_books hsorted schedule hfollows.calm.escaped
  ext1 n
  by_cases hn : n ∈ r.spec.nodeMap.keys
  · exact hfollows.visited_eq hb ((hsorted.mem_iff n).mpr hn)
  · rw [hdenotes.unknown n hn]
    by_contra hne
    rcases (hb.stored n).mp hne with ⟨result, hresult, _⟩
    exact hn (hb.known n (by simp [hresult]))

end PipelineRun

/-! ## Whole calls -/

/-- A call succeeded: it returned a result without errors. -/
def Execution.Succeeded (e : Execution) : Prop :=
  ∃ result, e.outcome = .ok result ∧ result.status = .succeeded

namespace PipelineRun

/-- A call succeeds iff its loop ends calm. -/
theorem finish_succeeded_iff {r : PipelineRun} {s : LoopState} {result : RunResult} :
    (r.finish s = .ok result ∧ result.status = .succeeded) ↔ Calm s ∧ result = {
      pipelineId := r.spec.pipelineId
      status := .succeeded
      nodeResults := s.results
      errors := []
      outputs := r.terminalOutputs s } := by
  unfold finish
  constructor
  · intro h
    rcases h with ⟨hfinish, hstatus⟩
    cases hescaped : s.escaped with
    | some exc => simp [hescaped] at hfinish
    | none =>
        rw [hescaped] at hfinish
        cases hfinish
        by_cases herrors : s.errors = []
        · exact ⟨⟨herrors, hescaped⟩, by simp [herrors]⟩
        · simp [herrors] at hstatus
  · intro h
    rcases h with ⟨hcalm, rfl⟩
    simp [hcalm.escaped, hcalm.errors]

/-- The outputs of a call are the primary ports of the nodes without outbound edges. -/
theorem get?_terminalOutputs (r : PipelineRun) (s : LoopState) (id : String) :
    (r.terminalOutputs s).get? id =
      if r.spec.outEdges id = [] then (s.view id).map primary else none := by
  rw [terminalOutputs, OrderedDict.get?_filterMap, LoopState.view]
  cases s.outputs.get? id with
  | none => simp
  | some outputs => by_cases hterminal : r.spec.outEdges id = [] <;> simp [hterminal]

end PipelineRun

/-- A call that succeeds has gone through the loop and ended calm. -/
theorem executePipeline_succeeded {en : Engine} {schedule : String → List FanOut.Choice}
    {spec : PipelineSpec} {secrets : OrderedDict String PyText} {options : ExecutionOptions}
    {result : RunResult}
    (houtcome : (en.executePipeline schedule spec secrets options).outcome = .ok result)
    (hstatus : result.status = .succeeded) :
    ∃ topo redactor, PipelineRun.Sorted ⟨en, spec, ⟨secrets, options, redactor⟩⟩ topo ∧
      Redactor.ofSecrets secrets.values = .ok redactor ∧
      (en.executePipeline schedule spec secrets options).state =
        PipelineRun.run ⟨en, spec, ⟨secrets, options, redactor⟩⟩ schedule topo .initial topo ∧
      PipelineRun.Calm (en.executePipeline schedule spec secrets options).state ∧
      ∀ id, result.outputs.get? id = if spec.outEdges id = [] then
        ((en.executePipeline schedule spec secrets options).state.view id).map primary
        else none := by
  rcases executePipeline_cases en schedule spec secrets options with
    ⟨_, heq⟩ | ⟨hvalid, topo, htopo, ⟨exc, _, heq⟩ | ⟨redactor, hredactor, heq⟩⟩
  · rw [heq] at houtcome
    cases houtcome
    cases hstatus
  · rw [heq] at houtcome
    cases houtcome
  · rw [heq] at houtcome ⊢
    rcases PipelineRun.finish_succeeded_iff.mp ⟨houtcome, hstatus⟩ with ⟨hcalm, rfl⟩
    exact ⟨topo, redactor, ⟨Engine.validated_of_no_issues hvalid, htopo⟩, hredactor, rfl, hcalm,
      PipelineRun.get?_terminalOutputs _ _⟩

/-- A document whose call succeeds has no issues. -/
theorem executePipeline_validates {en : Engine} {schedule : String → List FanOut.Choice}
    {spec : PipelineSpec} {secrets : OrderedDict String PyText} {options : ExecutionOptions}
    {result : RunResult}
    (houtcome : (en.executePipeline schedule spec secrets options).outcome = .ok result)
    (hstatus : result.status = .succeeded) : en.validatePipeline spec = [] := by
  rcases executePipeline_cases en schedule spec secrets options with
    ⟨_, heq⟩ | ⟨hvalid, _⟩
  · rw [heq] at houtcome
    cases houtcome
    cases hstatus
  · exact hvalid

/-- A call that succeeds, under whatever schedule, has computed the only solution of the
equations of its document, and returns the primary records of the terminal nodes in it. -/
theorem executePipeline_denotes (en : Engine) (schedule : String → List FanOut.Choice)
    (spec : PipelineSpec) (secrets : OrderedDict String PyText) (options : ExecutionOptions)
    (result : RunResult)
    (houtcome : (en.executePipeline schedule spec secrets options).outcome = .ok result)
    (hstatus : result.status = .succeeded) :
    ∃ redactor view, Redactor.ofSecrets secrets.values = .ok redactor ∧
      (∀ view', PipelineRun.Denotes ⟨en, spec, ⟨secrets, options, redactor⟩⟩ view' ↔
        view' = view) ∧
      (en.executePipeline schedule spec secrets options).state.view = view ∧
      ∀ id, result.outputs.get? id =
        if spec.outEdges id = [] then (view id).map primary else none := by
  rcases executePipeline_succeeded houtcome hstatus with
    ⟨topo, redactor, hsorted, hredactor, hstate, hcalm, houtputs⟩
  refine ⟨redactor, _, hredactor, fun view' => ?_, rfl, houtputs⟩
  rw [hstate] at hcalm ⊢
  have hdenotes := PipelineRun.run_denotes hsorted schedule hcalm
  constructor
  · intro hview
    exact hview.unique hsorted hdenotes
  · intro hview
    exact hview ▸ hdenotes

/-- The sample call succeeds. -/
theorem earlySource_succeeds : (Samples.execute earlySource false).Succeeded := by
  have hstatus : (Samples.execute earlySource false).outcome.toOption.map RunResult.status =
      some .succeeded := by decide +kernel
  cases houtcome : (Samples.execute earlySource false).outcome with
  | error exc =>
      rw [houtcome] at hstatus
      cases hstatus
  | ok result =>
      rw [houtcome] at hstatus
      exact ⟨result, houtcome, Option.some.inj hstatus⟩

/-- The meaning of a document with an iterator and a second source. -/
theorem executePipeline_denotes_earlySource :
    ∃ redactor view, (∀ view', PipelineRun.Denotes
        ⟨Samples.engine, earlySource, ⟨.empty, Samples.options false, redactor⟩⟩ view' ↔
          view' = view) ∧
      (view "work").map primary =
        some [[("value", .int 7), ("index", .int 0)], [("id", .int 1)]] := by
  have houtputs : (Samples.execute earlySource false).outcome.toOption.map
      (fun result => result.outputs.get? "work") =
        some (some [[("value", .int 7), ("index", .int 0)], [("id", .int 1)]]) := by
    decide +kernel
  rcases earlySource_succeeds with ⟨result, houtcome, hstatus⟩
  rcases executePipeline_denotes Samples.engine (fun _ => []) earlySource .empty
    (Samples.options false) result houtcome hstatus with ⟨redactor, view, _, hunique, _, hterminal⟩
  refine ⟨redactor, view, hunique, ?_⟩
  have hwork := hterminal "work"
  rw [if_pos (by decide)] at hwork
  rw [houtcome] at houtputs
  exact hwork.symm.trans (Option.some.inj houtputs)

/-- The call goes through the loop, for a document without issues. -/
theorem executePipeline_of_valid {en : Engine} {spec : PipelineSpec}
    {secrets : OrderedDict String PyText} {redactor : Redactor}
    (hvalid : en.validatePipeline spec = [])
    (hredactor : Redactor.ofSecrets secrets.values = .ok redactor) (options : ExecutionOptions) :
    ∃ topo, PipelineRun.Sorted ⟨en, spec, ⟨secrets, options, redactor⟩⟩ topo ∧
      ∀ schedule, en.executePipeline schedule spec secrets options =
        ⟨PipelineRun.run ⟨en, spec, ⟨secrets, options, redactor⟩⟩ schedule topo .initial topo,
          PipelineRun.finish ⟨en, spec, ⟨secrets, options, redactor⟩⟩
            (PipelineRun.run ⟨en, spec, ⟨secrets, options, redactor⟩⟩ schedule topo .initial
              topo)⟩ := by
  have hvalidated := Engine.validated_of_no_issues hvalid
  rcases hvalidated.sorted with ⟨topo, htopo⟩
  refine ⟨topo, ⟨hvalidated, htopo⟩, fun schedule => ?_⟩
  simp only [Engine.executePipeline, hvalid, htopo, hredactor]

/-- If the outside sources of every scope precede its iterator, then a call succeeds with
given outputs, under whatever schedule, exactly if these outputs solve the equations of
the document. -/
theorem executePipeline_adequate (en : Engine) (spec : PipelineSpec)
    (secrets : OrderedDict String PyText) (options : ExecutionOptions) (redactor : Redactor)
    (hvalid : en.validatePipeline spec = [])
    (hordered : ∀ topo, spec.topoOrder = some topo → en.ScopeSourcesPrecede spec topo)
    (hredactor : Redactor.ofSecrets secrets.values = .ok redactor)
    (schedule : String → List FanOut.Choice) (view : View) :
    PipelineRun.Denotes ⟨en, spec, ⟨secrets, options, redactor⟩⟩ view ↔
      (en.executePipeline schedule spec secrets options).Succeeded ∧
        (en.executePipeline schedule spec secrets options).state.view = view := by
  rcases executePipeline_of_valid hvalid hredactor options with ⟨topo, hsorted, hcall⟩
  rw [hcall]
  constructor
  · intro hdenotes
    rcases PipelineRun.run_of_denotes hsorted (hordered topo hsorted.order) hdenotes schedule with
      ⟨hcalm, hview⟩
    exact ⟨⟨_, PipelineRun.finish_succeeded_iff.mpr ⟨hcalm, rfl⟩⟩, hview⟩
  · intro h
    rcases h with ⟨⟨result, hfinish, hstatus⟩, rfl⟩
    exact PipelineRun.run_denotes hsorted schedule
      (PipelineRun.finish_succeeded_iff.mp ⟨hfinish, hstatus⟩).1

/-- The same document under a scheduler that lets iterations overtake one another. -/
theorem executePipeline_adequate_earlySource :
    ∃ redactor, Redactor.ofSecrets [] = .ok redactor ∧
      PipelineRun.Denotes ⟨Samples.engine, earlySource, ⟨.empty, Samples.options false, redactor⟩⟩
        (Samples.execute earlySource false).state.view ∧
      (Samples.engine.executePipeline overtaking earlySource .empty
        (Samples.options false)).Succeeded := by
  have hordered : ∀ topo, earlySource.topoOrder = some topo →
      Samples.engine.ScopeSourcesPrecede earlySource topo := by
    intro topo htopo
    have horder : earlySource.topoOrder = some ["lookup", "each", "work"] := by decide +kernel
    rw [horder, Option.some.injEq] at htopo
    subst htopo
    exact Engine.scopeSourcesPrecede_of_nodes (by decide +kernel) (by decide +kernel)
  cases hredactor : Redactor.ofSecrets [] with
  | error exc => cases hredactor
  | ok redactor =>
      have hadequate := executePipeline_adequate Samples.engine earlySource .empty
        (Samples.options false) redactor (by decide +kernel) hordered hredactor
      have hdenotes := (hadequate (fun _ => []) _).mpr ⟨earlySource_succeeds, rfl⟩
      exact ⟨redactor, rfl, hdenotes, ((hadequate overtaking _).mp hdenotes).1⟩

end EtlTool
