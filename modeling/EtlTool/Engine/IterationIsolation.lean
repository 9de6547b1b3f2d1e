import EtlTool.Engine.Gathering

/-!
# Failures inside an iteration

An iteration ends at its first failed node, and only completed iterations take
part in the fan-in.  So a failure costs the whole iteration, also the branches of
the scope that do not depend on the failed node, and a node below a failure that
occurs in every iteration is reported as succeeded although it never ran.

Main results:

- Theorem {lit}`mem_contributions`: a scope node takes part with its outputs in the
  completed iterations.
- Theorem {lit}`iterations_isolated_iff`: failures cost no more than the descendants
  of the failed node if and only if every other scope node is its descendant, and
  no scope node is below a failure in every iteration.
- Theorem {lit}`iterations_isolated_fails`: a sibling branch loses its records.
-/

namespace EtlTool

/-- Failures of one fan-out cost exactly the descendants of the failed nodes. -/
structure IterationsIsolated (spec : PipelineSpec) (result : RunResult) (state : LoopState)
    (iteratorId : String) (plan : FanOutPlan) (results : List (Option IterationResult)) : Prop where
  /-- The fanned-in outputs hold the records of the iterations that take part. -/
  fanned_in : ∀ n, spec.Path iteratorId n → ∃ ports,
    state.outputs.get? n = some (fanInOutputs plan ports (contributions results n))
  contained : ∀ n, spec.Path iteratorId n → ∀ i < plan.values.length,
    ((∃ outputs, (i, outputs) ∈ contributions results n) ↔
      ∀ f, FailedIn state.trace iteratorId i f → f ≠ n ∧ ¬ spec.Path f n)
  not_succeeded : ∀ n, spec.Path iteratorId n → plan.values ≠ [] →
    (∀ i < plan.values.length, ∃ f, FailedIn state.trace iteratorId i f ∧ spec.Path f n) →
    ∀ nodeResult, result.nodeResults.get? n = some nodeResult → nodeResult.status ≠ .succeeded

/-- Every other node of the scope is a descendant of a node that fails in an
iteration, and no node of the scope is below a failure in every iteration. -/
structure FailuresLead (spec : PipelineSpec) (events : List Event) (iteratorId : String)
    (iterations : Nat) : Prop where
  leads : ∀ i f, FailedIn events iteratorId i f → ∀ n, spec.Path iteratorId n →
    n = f ∨ spec.Path f n
  spares : iterations = 0 ∨ ∀ n, spec.Path iteratorId n → ∃ i < iterations,
    ∀ f, FailedIn events iteratorId i f → ¬ spec.Path f n

/-! ## Contributions -/

/-- A scope node takes part with its outputs in the completed iterations. -/
theorem mem_contributions {results : List (Option IterationResult)} {n : String} {i : Nat}
    {outputs : NodeOutputs} :
    (i, outputs) ∈ contributions results n ↔ ∃ final,
      results[i]? = some (some (.completed final)) ∧ final.get? n = some outputs := by
  unfold contributions
  rw [List.mem_filterMap]
  constructor
  · rintro ⟨⟨j, final⟩, hmem, hsome⟩
    rcases Option.map_eq_some_iff.mp hsome with ⟨found, hfound, heq⟩
    cases heq
    exact ⟨final, mem_completedIterations.mp hmem, hfound⟩
  · rintro ⟨final, hi, hfound⟩
    exact ⟨(i, final), mem_completedIterations.mpr hi, by simp [hfound]⟩

namespace PipelineRun

variable {r : PipelineRun} {topo : List String} {s : LoopState} {iteratorId : String}
  {plan : FanOutPlan} {results : List (Option IterationResult)}

/-- With {lit}`continue_on_error` every iteration of a recorded fan-out has completed
or failed. -/
theorem FanOutRecord.result_cases (h : r.FanOutRecord topo s iteratorId plan results)
    (hcontinue : r.ctx.options.continueOnError = true) {i : Nat} (hi : i < plan.values.length) :
    (∃ final, results[i]? = some (some (.completed final)) ∧
      ∀ n ∈ r.scopeTopo topo iteratorId, (final.get? n).isSome) ∨
    ∃ f error, results[i]? = some (some (.failed f error)) := by
  rcases h.origin with ⟨outer, schedule, _, _, horigin⟩
  rw [iterationResults_of_continue hcontinue] at horigin
  have hvalue : plan.values[i]? = some plan.values[i] := List.getElem?_eq_getElem hi
  have hresult : results[i]? = some (some (r.iterationAt iteratorId
      (r.scopeTopo topo iteratorId) outer ⟨plan.values[i], i⟩)) := by
    rw [horigin, List.getElem?_map, iterContexts_getElem?, hvalue]
    rfl
  cases hat : r.iterationAt iteratorId (r.scopeTopo topo iteratorId) outer
      ⟨plan.values[i], i⟩ with
  | completed final => exact Or.inl ⟨final, by rw [hresult, hat], (runIteration_completed hat).2⟩
  | failed f error => exact Or.inr ⟨f, error, by rw [hresult, hat]⟩
  | escaped exc =>
      rw [hat] at hresult
      have hcalm := h.calm
      unfold firstEscape? at hcalm
      rw [List.findSome?_eq_none_iff] at hcalm
      have hbad := hcalm _ (List.mem_of_getElem? hresult)
      cases hbad

private theorem FanOutRecord.lt_of_failedIn (h : r.FanOutRecord topo s iteratorId plan results)
    {i : Nat}
    {f : String} (hfailed : FailedIn s.trace iteratorId i f) : i < plan.values.length := by
  rcases (h.failures i f).mp hfailed with ⟨error, hi⟩
  rcases h.origin with ⟨outer, schedule, _, _, horigin⟩
  have hlen := (List.getElem?_eq_some_iff.mp hi).1
  rwa [horigin, length_iterationResults] at hlen

/-- A scope node takes part in an iteration exactly when nothing fails in it. -/
theorem FanOutRecord.participates_iff (hsorted : r.Sorted topo)
    (h : r.FanOutRecord topo s iteratorId plan results)
    (hcontinue : r.ctx.options.continueOnError = true) {i : Nat} (hi : i < plan.values.length)
    {n : String} (hn : r.spec.Path iteratorId n) :
    (∃ outputs, (i, outputs) ∈ contributions results n) ↔
      ∀ f, ¬ FailedIn s.trace iteratorId i f := by
  rcases h.result_cases hcontinue hi with ⟨final, hresult, hscope⟩ | ⟨f, error, hresult⟩
  · have hsome := hscope n ((hsorted.mem_scope iteratorId n).mpr hn)
    rcases Option.isSome_iff_exists.mp hsome with ⟨outputs, houtputs⟩
    refine iff_of_true ⟨outputs, mem_contributions.mpr ⟨final, hresult, houtputs⟩⟩ ?_
    intro f hfailed
    rcases (h.failures i f).mp hfailed with ⟨error, hbad⟩
    rw [hresult] at hbad
    cases hbad
  · refine iff_of_false ?_ ?_
    · rintro ⟨outputs, hmem⟩
      rcases mem_contributions.mp hmem with ⟨final, hbad, _⟩
      rw [hresult] at hbad
      cases hbad
    · exact fun hnone => hnone f ((h.failures i f).mpr ⟨error, hresult⟩)

private theorem FanOutRecord.failedIn_unique (h : r.FanOutRecord topo s iteratorId plan results)
    {i : Nat}
    {f g : String} (hf : FailedIn s.trace iteratorId i f) (hg : FailedIn s.trace iteratorId i g) :
    f = g := by
  rcases (h.failures i f).mp hf with ⟨error, hi⟩
  rcases (h.failures i g).mp hg with ⟨error', hi'⟩
  rw [hi] at hi'
  cases hi'
  rfl

/-- A scope node is reported failed exactly when it has failed in some iteration. -/
theorem FanOutRecord.status_iff (h : r.FanOutRecord topo s iteratorId plan results) {n : String} :
    (r.memberResult iteratorId plan results n).status = .succeeded ↔
      ∀ i, ¬ FailedIn s.trace iteratorId i n := by
  have hmem : n ∈ (iterationFailures results).map Prod.fst ↔
      ∃ i, FailedIn s.trace iteratorId i n := by
    constructor
    · intro hn
      rcases List.mem_map.mp hn with ⟨⟨f, error⟩, hfailure, rfl⟩
      rcases mem_iterationFailures.mp hfailure with ⟨i, hi⟩
      exact ⟨i, (h.failures i f).mpr ⟨error, hi⟩⟩
    · rintro ⟨i, hfailed⟩
      rcases (h.failures i n).mp hfailed with ⟨error, hi⟩
      exact List.mem_map.mpr ⟨(n, error), mem_iterationFailures.mpr ⟨i, hi⟩, rfl⟩
  rw [← not_exists, ← hmem]
  simp only [memberResult]
  split <;> simp_all

/-- Failures of a recorded fan-out are isolated exactly when they lead the scope. -/
theorem FanOutRecord.isolated_iff (hsorted : r.Sorted topo)
    (h : r.FanOutRecord topo s iteratorId plan results)
    (hcontinue : r.ctx.options.continueOnError = true) {result : RunResult}
    (hresults : result.nodeResults = s.results) :
    IterationsIsolated r.spec result s iteratorId plan results ↔
      FailuresLead r.spec s.trace iteratorId plan.values.length := by
  constructor
  · intro hisolated
    constructor
    · intro i f hf n hn
      have hi := h.lt_of_failedIn hf
      by_contra hnot
      rw [not_or] at hnot
      have hpart : ∃ outputs, (i, outputs) ∈ contributions results n := by
        refine (hisolated.contained n hn i hi).mpr fun g hg => ?_
        rw [h.failedIn_unique hg hf]
        exact ⟨fun heq => hnot.1 heq.symm, hnot.2⟩
      exact (h.participates_iff hsorted hcontinue hi hn).mp hpart f hf
    · by_cases hempty : plan.values = []
      · exact Or.inl (by simp [hempty])
      · refine Or.inr fun n hn => ?_
        by_contra hall
        have hbelow : ∀ i < plan.values.length,
            ∃ f, FailedIn s.trace iteratorId i f ∧ r.spec.Path f n := by
          intro i hi
          by_contra hnone
          exact hall ⟨i, hi, fun f hf hpath => hnone ⟨f, hf, hpath⟩⟩
        have hfound := h.results_of n (Or.inr hn)
        refine hisolated.not_succeeded n hn hempty hbelow _ (by rw [hresults]; exact hfound) ?_
        rw [h.status_iff]
        intro i hfailed
        rcases hbelow i (h.lt_of_failedIn hfailed) with ⟨f, hf, hpath⟩
        rw [h.failedIn_unique hf hfailed] at hpath
        exact hsorted.acyclic n hpath
  · intro hleads
    constructor
    · exact fun n hn => ⟨_, h.outputs_of n (Or.inr hn)⟩
    · intro n hn i hi
      rw [h.participates_iff hsorted hcontinue hi hn]
      constructor
      · exact fun hnone f hf => absurd hf (hnone f)
      · intro hspared f hf
        rcases hleads.leads i f hf n hn with heq | hpath
        · exact (hspared f hf).1 heq.symm
        · exact (hspared f hf).2 hpath
    · intro n hn hne hbelow
      rcases hleads.spares with hempty | hspares
      · exact absurd (List.eq_nil_of_length_eq_zero hempty) hne
      · rcases hspares n hn with ⟨i, hi, hnone⟩
        rcases hbelow i hi with ⟨f, hf, hpath⟩
        exact absurd hpath (hnone f hf)

end PipelineRun

/-! ## The whole call -/

/-- The failures in the iterations of an iterator cost exactly their descendants
if and only if every other scope node is a descendant of a node that fails, and
no scope node is below a failure in every iteration. -/
theorem iterations_isolated_iff (en : Engine) (schedule : String → List FanOut.Choice)
    (spec : PipelineSpec) (secrets : OrderedDict String PyText) (options : ExecutionOptions)
    (hvalid : en.validatePipeline spec = []) (hcontinue : options.continueOnError = true)
    {result : RunResult}
    (houtcome : (en.executePipeline schedule spec secrets options).outcome = .ok result)
    (iteratorId : String) (plan : FanOutPlan) (results : List (Option IterationResult))
    (hgathered : .gathered iteratorId plan results ∈
      (en.executePipeline schedule spec secrets options).trace) :
    IterationsIsolated spec result (en.executePipeline schedule spec secrets options).state
        iteratorId plan results ↔
      FailuresLead spec (en.executePipeline schedule spec secrets options).trace iteratorId
        plan.values.length := by
  rcases executePipeline_cases en schedule spec secrets options with
    ⟨hissues, _⟩ | ⟨_, topo, htopo, ⟨exc, _, heq⟩ | ⟨redactor, _, heq⟩⟩
  · exact absurd hvalid hissues
  · rw [heq] at houtcome
    cases houtcome
  · rw [heq] at houtcome hgathered ⊢
    have hsorted : PipelineRun.Sorted ⟨en, spec, ⟨secrets, options, redactor⟩⟩ topo :=
      ⟨Engine.validated_of_no_issues hvalid, htopo⟩
    rcases PipelineRun.finish_fields houtcome with ⟨hlive, hresults, _⟩
    have hgathers := PipelineRun.run_gathers hsorted schedule
    have hrecord := hgathers.recorded iteratorId plan results hgathered
      ⟨hgathers.calm hlive iteratorId plan results hgathered, Or.inl hcontinue⟩
    exact hrecord.isolated_iff hsorted hcontinue hresults

/-- Two iterations over a fragile node, with or without a second branch. -/
def fragileScope (branches : List EdgeSpec) : PipelineSpec :=
  Samples.document
    [Samples.iterator "each" [.int 7, .int 8], Samples.node "work" "fragile" [],
      Samples.node "side" "collect" []]
    (Samples.edge "each" "work" :: branches)

/-- The second branch is outside the scope. -/
def singleBranch : PipelineSpec :=
  fragileScope []

/-- The second branch is in the scope. -/
def twoBranches : PipelineSpec :=
  fragileScope [Samples.edge "each" "side"]

/-- An event that is a failure is one of a given node in the first iteration. -/
def Event.isFirstFailureOf (id : String) : Event → Bool
  | failed (.iteration _ iter) other _ => other = id && iter.index = 0
  | failed .top _ _ => false
  | _ => true

private theorem failedIn_of_all {events : List Event} {id iteratorId f : String} {i : Nat}
    (h : events.all (Event.isFirstFailureOf id) = true) (hf : FailedIn events iteratorId i f) :
    f = id ∧ i = 0 := by
  rcases hf with ⟨value, error, hmem⟩
  simpa [Event.isFirstFailureOf] using List.all_eq_true.mp h _ hmem

theorem iterations_isolated_singleBranch :
    ∃ result plan results, (Samples.execute singleBranch true).outcome = .ok result ∧
      .gathered "each" plan results ∈ (Samples.execute singleBranch true).trace ∧
      IterationsIsolated singleBranch result (Samples.execute singleBranch true).state "each" plan
        results := by
  have hreturns : (Samples.execute singleBranch true).outcome.toOption.isSome = true := by
    decide +kernel
  have hgathered : (Samples.firstGathered? (Samples.execute singleBranch true).trace).map (fun found =>
      (found.1, found.2.1.values.length)) = some ("each", 2) := by decide +kernel
  rcases Option.map_eq_some_iff.mp hgathered with ⟨⟨iteratorId, plan, results⟩, hfound, heq⟩
  simp only [Prod.mk.injEq] at heq
  rcases heq with ⟨rfl, hlen⟩
  cases houtcome : (Samples.execute singleBranch true).outcome with
  | error exc =>
      rw [houtcome] at hreturns
      cases hreturns
  | ok result =>
      have hmem := Samples.mem_of_firstGathered? hfound
      have hfailures : (Samples.execute singleBranch true).trace.all
          (Event.isFirstFailureOf "work") = true := by decide +kernel
      have hscope : ∀ n, singleBranch.Path "each" n → n = "work" := by
        intro n hn
        rw [← PipelineSpec.mem_descendants_iff] at hn
        have hall : ∀ n ∈ singleBranch.descendants "each", n = "work" := by decide +kernel
        exact hall n hn
      have hacyclic : ¬ singleBranch.Path "work" "work" := by
        rw [← PipelineSpec.mem_descendants_iff]
        decide +kernel
      refine ⟨result, plan, results, rfl, hmem, (iterations_isolated_iff Samples.engine _
        singleBranch _ _ (by decide +kernel) rfl houtcome "each" plan results hmem).mpr ?_⟩
      constructor
      · intro i f hf n hn
        exact Or.inl ((hscope n hn).trans (failedIn_of_all hfailures hf).1.symm)
      · refine Or.inr fun n hn => ⟨1, by omega, fun f hf => ?_⟩
        cases (failedIn_of_all hfailures hf).2

/-- The failure of one branch in the first iteration takes the records of the
other branch with it, although nothing above that branch has failed. -/
theorem iterations_isolated_fails :
    Samples.engine.validatePipeline twoBranches = [] ∧
    ∃ result plan results, (Samples.execute twoBranches true).outcome = .ok result ∧
      .gathered "each" plan results ∈ (Samples.execute twoBranches true).trace ∧
      ((Samples.execute twoBranches true).state.outputs.get? "side").map primary =
        some [[("value", .int 8), ("index", .int 1)]] ∧
      ¬ IterationsIsolated twoBranches result (Samples.execute twoBranches true).state "each" plan
        results := by
  refine ⟨by decide +kernel, ?_⟩
  have hreturns : (Samples.execute twoBranches true).outcome.toOption.isSome = true := by
    decide +kernel
  have hgathered : (Samples.firstGathered? (Samples.execute twoBranches true).trace).map (fun found =>
      (found.1, found.2.1.values.length, (contributions found.2.2 "side").map Prod.fst)) =
        some ("each", 2, [1]) := by decide +kernel
  rcases Option.map_eq_some_iff.mp hgathered with ⟨⟨iteratorId, plan, results⟩, hfound, heq⟩
  simp only [Prod.mk.injEq] at heq
  rcases heq with ⟨rfl, hlen, hside⟩
  cases houtcome : (Samples.execute twoBranches true).outcome with
  | error exc =>
      rw [houtcome] at hreturns
      cases hreturns
  | ok result =>
      refine ⟨result, plan, results, rfl, Samples.mem_of_firstGathered? hfound, by decide +kernel,
        fun hisolated => ?_⟩
      have hfailures : (Samples.execute twoBranches true).trace.all
          (Event.isFirstFailureOf "work") = true := by decide +kernel
      have hpath : twoBranches.Path "each" "side" := by
        rw [← PipelineSpec.mem_descendants_iff]
        decide +kernel
      have hbeside : ¬ twoBranches.Path "work" "side" := by
        rw [← PipelineSpec.mem_descendants_iff]
        decide +kernel
      have hpart := (hisolated.contained "side" hpath 0 (by omega)).mpr fun f hf => by
        rw [(failedIn_of_all hfailures hf).1]
        exact ⟨by decide, hbeside⟩
      rcases hpart with ⟨outputs, hmem⟩
      have hzero : 0 ∈ (contributions results "side").map Prod.fst :=
        List.mem_map_of_mem hmem
      rw [hside] at hzero
      cases hzero with
      | tail _ hnil => cases hnil

end EtlTool
