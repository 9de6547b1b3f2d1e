import EtlTool.Engine.Adequacy

/-!
# What an edit can reach

The outputs of a node depend on how the node itself and its ancestors are declared, and
on nothing else of the document.  So an edit changes the outputs of the edited nodes and
of their descendants only: nodes and edges may come and go elsewhere, iterators and their
scopes included, and the schedule and the order of the visits may change with them.

Main results:

- Theorem {lit}`shares_upstream`: what lies upstream of a node is closed under sources.
- Theorem {lit}`executePipeline_local`: two documents that succeed have the same outputs
  wherever nothing upstream was edited.

Current gaps:

- Documents that fail: there the order of the visits decides what is skipped.
-/

namespace EtlTool

namespace PipelineSpec

variable {spec spec' : PipelineSpec}

/-- A node and everything that leads to it are declared alike in two documents. -/
def UneditedAt (spec spec' : PipelineSpec) (id : String) : Prop :=
  ∀ other, other = id ∨ spec.Path other id → spec.SameAt spec' other

/-- The unedited nodes of two documents are a part that the documents share. -/
theorem shares_upstream (spec spec' : PipelineSpec) :
    spec.Shares spec' (spec.UneditedAt spec') where
  same := fun id hid => hid id (.inl rfl)
  closed := by
    intro id hid edge hedge other hother
    rcases (spec.mem_inEdges id edge).mp hedge with ⟨hmem, rfl⟩
    apply hid other
    rcases hother with rfl | hpath
    · exact .inr (.single hmem)
    · exact .inr (hpath.trans (.single hmem))

end PipelineSpec

/-- A call that succeeds has solved the equations of its document. -/
theorem Execution.Succeeded.denotes {en : Engine} {schedule : String → List FanOut.Choice}
    {spec : PipelineSpec} {secrets : OrderedDict String PyText} {options : ExecutionOptions}
    {redactor : Redactor} (hredactor : Redactor.ofSecrets secrets.values = .ok redactor)
    (h : (en.executePipeline schedule spec secrets options).Succeeded) :
    (∃ topo, (en.on spec ⟨secrets, options, redactor⟩).Sorted topo) ∧
      (en.on spec ⟨secrets, options, redactor⟩).Denotes
        (en.executePipeline schedule spec secrets options).state.view := by
  rcases h with ⟨result, houtcome, hstatus⟩
  rcases executePipeline_succeeded houtcome hstatus with
    ⟨topo, redactor', hsorted, hredactor', hstate, hcalm, _⟩
  have hsame : redactor' = redactor := by
    rw [hredactor] at hredactor'
    exact (Except.ok.inj hredactor').symm
  subst hsame
  rw [hstate] at hcalm ⊢
  exact ⟨⟨topo, hsorted⟩, PipelineRun.run_denotes hsorted schedule hcalm⟩

/-- Two documents that succeed, under whatever schedules, have the same outputs at every
node that is declared alike in both together with everything that leads to it, and return
the same records for it when it is terminal in both. -/
theorem executePipeline_local (en : Engine) (spec spec' : PipelineSpec)
    (secrets : OrderedDict String PyText) (options : ExecutionOptions)
    (schedule schedule' : String → List FanOut.Choice) (result result' : RunResult)
    (houtcome : (en.executePipeline schedule spec secrets options).outcome = .ok result)
    (houtcome' : (en.executePipeline schedule' spec' secrets options).outcome = .ok result')
    (hstatus : result.status = .succeeded) (hstatus' : result'.status = .succeeded)
    (id : String) (hid : spec.UneditedAt spec' id) :
    (en.executePipeline schedule spec secrets options).state.view id =
        (en.executePipeline schedule' spec' secrets options).state.view id ∧
      (spec.outEdges id = [] → spec'.outEdges id = [] →
        result.outputs.get? id = result'.outputs.get? id) := by
  rcases executePipeline_succeeded houtcome hstatus with
    ⟨_, redactor, _, hredactor, _, _, houtputs⟩
  rcases executePipeline_succeeded houtcome' hstatus' with ⟨_, _, _, _, _, _, houtputs'⟩
  rcases Execution.Succeeded.denotes hredactor ⟨result, houtcome, hstatus⟩ with
    ⟨⟨topo, hsorted⟩, hdenotes⟩
  rcases Execution.Succeeded.denotes hredactor ⟨result', houtcome', hstatus'⟩ with ⟨_, hdenotes'⟩
  have hview := PipelineRun.Denotes.agree hsorted (PipelineSpec.shares_upstream spec spec')
    hdenotes hdenotes' hid
  refine ⟨hview, fun hterminal hterminal' => ?_⟩
  rw [houtputs, houtputs', if_pos hterminal, if_pos hterminal', hview]

/-- The document in which the scope node feeds another one, beside a new source. -/
def extendedWork : PipelineSpec :=
  Samples.document
    [Samples.node "extra" "source" [], Samples.node "lookup" "source" [],
      Samples.iterator "each" [.int 7], Samples.node "work" "collect" [],
      Samples.node "audit" "collect" []]
    [Samples.edge "extra" "audit", Samples.edge "each" "work", Samples.edge "lookup" "work",
      Samples.edge "work" "audit"]

theorem executePipeline_local_extendedWork :
    ∃ outputs, (Samples.execute earlySource false).state.view "work" = some outputs ∧
      (Samples.execute extendedWork false).state.view "work" = some outputs ∧
      primary outputs = [[("value", .int 7), ("index", .int 0)], [("id", .int 1)]] := by
  have hstatus : (Samples.execute extendedWork false).outcome.toOption.map RunResult.status =
      some .succeeded := by decide +kernel
  have hwork : ((Samples.execute earlySource false).state.view "work").map primary =
      some [[("value", .int 7), ("index", .int 0)], [("id", .int 1)]] := by decide +kernel
  have hunedited : earlySource.UneditedAt extendedWork "work" := by
    have hsame : ∀ other ∈ ["lookup", "each", "work"], earlySource.SameAt extendedWork other := by
      intro other hother
      simp only [List.mem_cons, List.not_mem_nil, or_false] at hother
      rcases hother with rfl | rfl | rfl <;> exact ⟨by decide +kernel, by decide +kernel⟩
    intro other hother
    apply hsame
    rcases hother with rfl | hpath
    · simp
    · have hancestor := (PipelineSpec.mem_ancestors_iff ..).mpr hpath
      have hall : earlySource.ancestors "work" ⊆ ["lookup", "each", "work"] := by decide +kernel
      exact hall hancestor
  rcases earlySource_succeeds with ⟨result, houtcome, hsucceeded⟩
  cases houtcome' : (Samples.execute extendedWork false).outcome with
  | error exc =>
      rw [houtcome'] at hstatus
      cases hstatus
  | ok result' =>
      rw [houtcome'] at hstatus
      have hview := (executePipeline_local Samples.engine earlySource extendedWork .empty
        (Samples.options false) (fun _ => []) (fun _ => []) result result' houtcome houtcome'
        hsucceeded (Option.some.inj hstatus) "work" hunedited).1
      rcases Option.map_eq_some_iff.mp hwork with ⟨outputs, houtputs, hrecords⟩
      exact ⟨outputs, houtputs, hview.symm.trans houtputs, hrecords⟩

end EtlTool
