import EtlTool.Engine.Execution

/-!
# The books of the main loop

Results are written by four paths: success and failure of a data node, failure
of an iterator's plan, and the end of its iterations, which overwrites what was
there.  The invariant {lit}`Books` says what the results, outputs and errors
have to do with each other and with the nodes visited so far, as long as nothing
has escaped.

The main point is that the overwrites are harmless: before an iterator is fanned
in, the nodes of its scope have no result or were skipped.

Main results:

- Theorem {lit}`Books.visit`: every visit keeps the books.
- Theorem {lit}`run_books`: the books after the loop.
-/

namespace EtlTool

open TopologicalSort (Precedes)

namespace PipelineRun

/-! ## The order of the loop -/

/-- The loop runs over a topological order of a validated document. -/
structure Sorted (r : PipelineRun) (topo : List String) : Prop where
  validated : r.engine.Validated r.spec
  order : r.spec.topoOrder = some topo

namespace Sorted

variable {r : PipelineRun} {topo : List String}

/-- The order lists no node twice. -/
theorem nodup (h : r.Sorted topo) : topo.Nodup :=
  PipelineSpec.topoOrder_nodup h.order

/-- The order lists exactly the known nodes. -/
theorem mem_iff (h : r.Sorted topo) (id : String) : id ∈ topo ↔ id ∈ r.spec.nodeMap.keys :=
  PipelineSpec.topoOrder_mem_iff h.order id

/-- Along a path the order goes forward. -/
theorem precedes (h : r.Sorted topo) {a b : String} (hpath : r.spec.Path a b) :
    Precedes topo a b :=
  PipelineSpec.topoOrder_precedes h.order h.validated.edges_known hpath

/-- A document with an order has no cycle. -/
theorem acyclic (h : r.Sorted topo) (a : String) : ¬ r.spec.Path a a :=
  PipelineSpec.topoOrder_acyclic h.order h.validated.edges_known a

/-- The scope of a node is what its paths reach. -/
theorem mem_scope (h : r.Sorted topo) (id n : String) :
    n ∈ r.scopeTopo topo id ↔ r.spec.Path id n :=
  mem_scopeTopo h.order h.validated.edges_known id n

/-- The ends of a path are nodes of the document. -/
theorem known_of_path (h : r.Sorted topo) {a b : String} (hpath : r.spec.Path a b) :
    b ∈ r.spec.nodeMap.keys := by
  rcases hpath.tail_edge with ⟨edge, hedge, rfl, _⟩
  exact (h.validated.edges_known edge hedge).2

/-- Ancestors are visited earlier. -/
theorem visited_of_path (h : r.Sorted topo) {visited rest : List String} {a id : String}
    (hsplit : topo = visited ++ id :: rest) (hpath : r.spec.Path a id) : a ∈ visited :=
  (h.precedes hpath).mem_initial h.nodup hsplit

/-- Descendants are visited later. -/
theorem not_visited_of_path (h : r.Sorted topo) {visited rest : List String} {id n : String}
    (hsplit : topo = visited ++ id :: rest) (hpath : r.spec.Path id n) : n ∉ visited := by
  intro hn
  rcases List.append_of_mem hn with ⟨before, after, hvisited⟩
  have hsplit' : topo = before ++ n :: (after ++ id :: rest) := by
    rw [hsplit, hvisited]
    simp
  have hid := h.visited_of_path hsplit' hpath
  have hnodup := h.nodup
  rw [hsplit', List.nodup_append] at hnodup
  exact hnodup.2.2 id hid id (by simp) rfl

/-- The node visited next has not been visited. -/
theorem not_mem_visited (h : r.Sorted topo) {visited rest : List String} {id : String}
    (hsplit : topo = visited ++ id :: rest) : id ∉ visited := by
  intro hmem
  have hnodup := h.nodup
  rw [hsplit, List.nodup_append] at hnodup
  exact hnodup.2.2 id hmem id List.mem_cons_self rfl

/-- An iterator is not in its own scope. -/
theorem not_mem_scope (h : r.Sorted topo) (id : String) : id ∉ r.scopeTopo topo id := fun hmem =>
  h.acyclic id ((h.mem_scope id id).mp hmem)

/-- A known id has a node and a class. -/
theorem exists_class (h : r.Sorted topo) {id : String} (hid : id ∈ r.spec.nodeMap.keys) :
    ∃ node cls, r.spec.node? id = some node ∧ r.engine.registry.get? node.type = some cls ∧
      r.engine.nodeClass? r.spec id = some cls := by
  rcases OrderedDict.exists_get?_of_mem_keys hid with ⟨node, hnode⟩
  rcases PipelineSpec.node?_mem hnode with ⟨hmem, _⟩
  rcases h.validated.types_known node hmem with ⟨cls, hcls⟩
  have hnode' : r.spec.node? id = some node := hnode
  exact ⟨node, cls, hnode', hcls, by simp [Engine.nodeClass?, hnode', hcls]⟩

end Sorted

/-! ## The invariant -/

/-- What results, outputs, errors and trace have to do with each other. -/
structure Books (r : PipelineRun) (visited : List String) (s : LoopState) : Prop where
  /-- Every visited node has a result. -/
  done : ∀ n ∈ visited, s.results.get? n ≠ none
  /-- Only nodes of the document have results. -/
  known : ∀ n, s.results.get? n ≠ none → n ∈ r.spec.nodeMap.keys
  /-- A result includes the results of the whole scope, unless the run aborts. -/
  scopes : s.abort = false → ∀ iteratorId, r.engine.IsIterator r.spec iteratorId →
    s.results.get? iteratorId ≠ none → ∀ n, r.spec.Path iteratorId n → s.results.get? n ≠ none
  /-- A result ahead of the visit is a skip or belongs to a fan-out. -/
  ahead : ∀ n result, s.results.get? n = some result → n ∉ visited →
    result.status = .skipped ∨ ∃ iteratorId ∈ visited, r.engine.IsIterator r.spec iteratorId ∧
      r.spec.Path iteratorId n
  /-- The error of a failed node is reported. -/
  reported : ∀ n result, s.results.get? n = some result → result.status = .failed →
    ∃ error, result.error = some error ∧ error ∈ s.errors
  /-- Without errors everything succeeded. -/
  clean : s.errors = [] → ∀ n result, s.results.get? n = some result → result.status = .succeeded
  /-- With errors some node failed, visibly. -/
  dirty : s.errors ≠ [] → (∃ n result, s.results.get? n = some result ∧ result.status = .failed) ∧
    ∃ place n error, .failed place n error ∈ s.trace
  /-- The run aborts exactly after a failure without {lit}`continue_on_error`. -/
  aborts : s.abort = true ↔ r.ctx.options.continueOnError = false ∧ s.errors ≠ []
  /-- An aborting run has a single failed node. -/
  single : s.abort = true → ∀ n n' result result', s.results.get? n = some result →
    s.results.get? n' = some result' → result.status = .failed → result'.status = .failed → n = n'
  /-- Outputs are stored for exactly the nodes that report a number of records. -/
  stored : ∀ n, s.outputs.get? n ≠ none ↔
    ∃ result, s.results.get? n = some result ∧ result.recordsOut ≠ none
  /-- A node that succeeded reports its records. -/
  counted : ∀ n result, s.results.get? n = some result → result.status = .succeeded →
    result.recordsOut ≠ none
  /-- A skipped node reports none. -/
  uncounted : ∀ n result, s.results.get? n = some result → result.status = .skipped →
    result.recordsOut = none
  /-- Stored outputs have every declared port. -/
  ports : ∀ n outputs, s.outputs.get? n = some outputs → ∀ port ∈ r.outputPorts n,
    outputs.contains port = true

/-- The books are in order before the first node. -/
theorem Books.initial (r : PipelineRun) : Books r [] .initial := by
  constructor <;> simp [LoopState.initial]

/-! ## Failures -/

variable {r : PipelineRun} {topo visited rest : List String} {s : LoopState} {id : String}

/-- Where a result comes from after one node failed and others were skipped. -/
theorem get?_skip_set_cases {results : OrderedDict String NodeResult} {m : String}
    {failure : NodeResult} {ids : List String} {n : String} {result : NodeResult}
    (h : (r.skip (results.set m failure) ids).get? n = some result) :
    (n = m ∧ result = failure) ∨ (n ≠ m ∧ results.get? n = some result) ∨
      (n ≠ m ∧ results.get? n = none ∧ n ∈ ids ∧ result = r.skippedResult n) := by
  rw [get?_skip, OrderedDict.get?_set] at h
  by_cases hnm : n = m
  · rw [if_pos hnm] at h
    cases h
    exact Or.inl ⟨hnm, rfl⟩
  · rw [if_neg hnm] at h
    cases hold : results.get? n with
    | some old =>
        rw [hold] at h
        exact Or.inr (Or.inl ⟨hnm, h⟩)
    | none =>
        rw [hold] at h
        by_cases hids : n ∈ ids
        · rw [if_pos hids] at h
          cases h
          exact Or.inr (Or.inr ⟨hnm, rfl, hids, rfl⟩)
        · rw [if_neg hids] at h
          cases h

private theorem get?_skip_set_ne_none {results : OrderedDict String NodeResult} {m : String}
    {failure : NodeResult} {ids : List String} {n : String}
    (h : n = m ∨ results.get? n ≠ none ∨ n ∈ ids) :
    (r.skip (results.set m failure) ids).get? n ≠ none := by
  rw [get?_skip, OrderedDict.get?_set]
  by_cases hnm : n = m
  · simp [hnm]
  · rw [if_neg hnm]
    rcases h with h | h | h
    · exact absurd h hnm
    · cases hold : results.get? n with
      | some old => simp
      | none => exact absurd hold h
    · cases results.get? n <;> simp [h]

/-- A live run that has not aborted has no errors unless it continues on error. -/
theorem Books.errors_eq_nil (hb : r.Books visited s) (habort : s.abort = false)
    (hmode : r.ctx.options.continueOnError = false) : s.errors = [] := by
  by_contra hne
  have := hb.aborts.mpr ⟨hmode, hne⟩
  rw [habort] at this
  cases this

/-- A node without result has no outputs. -/
theorem Books.outputs_eq_none (hb : r.Books visited s) {n : String}
    (hn : s.results.get? n = none) : s.outputs.get? n = none := by
  by_contra hne
  rcases (hb.stored n).mp hne with ⟨result, hresult, _⟩
  rw [hn] at hresult
  cases hresult

/-- A node without result fails, reports errors, and others are skipped. -/
theorem Books.fail (hb : r.Books visited s) (hready : s.Ready id) {m : String}
    (hm : s.results.get? m = none) (hmknown : m ∈ r.spec.nodeMap.keys) {ids : List String}
    (hids : ∀ n ∈ ids, n ∈ r.spec.nodeMap.keys) (hid : id = m ∨ id ∈ ids)
    (hclosed : ∀ iteratorId, r.engine.IsIterator r.spec iteratorId →
      iteratorId = m ∨ iteratorId ∈ ids → ∀ n, r.spec.Path iteratorId n → n = m ∨ n ∈ ids)
    {error : NodeError} {errors : List NodeError} (herror : error ∈ errors) {trace : List Event}
    (htrace : ∃ place n error, .failed place n error ∈ trace)
    (hahead : m = id ∨ (r.engine.IsIterator r.spec id ∧ r.spec.Path id m)) :
    r.Books (visited ++ [id])
      { s with
        results := r.skip (s.results.set m (r.failedResult m error)) ids
        errors := s.errors ++ errors
        abort := !r.ctx.options.continueOnError
        trace := trace } where
  done := by
    intro n hn
    apply get?_skip_set_ne_none
    rcases List.mem_append.mp hn with hn | hn
    · exact Or.inr (Or.inl (hb.done n hn))
    · rw [List.mem_singleton] at hn
      subst hn
      rcases hid with h | h
      · exact Or.inl h
      · exact Or.inr (Or.inr h)
  known := by
    intro n hn
    cases hresult : (r.skip (s.results.set m (r.failedResult m error)) ids).get? n with
    | none => exact absurd hresult hn
    | some result =>
        rcases get?_skip_set_cases hresult with ⟨rfl, _⟩ | ⟨_, hold⟩ | ⟨_, _, hn, _⟩
        · exact hmknown
        · exact hb.known n (by simp [hold])
        · exact hids n hn
  scopes := by
    intro _ iteratorId hiter hresult n hpath
    apply get?_skip_set_ne_none
    cases hfound : (r.skip (s.results.set m (r.failedResult m error)) ids).get? iteratorId with
    | none => exact absurd hfound hresult
    | some result =>
        rcases get?_skip_set_cases hfound with ⟨heq, _⟩ | ⟨_, hold⟩ | ⟨_, _, hmem, _⟩
        · rcases hclosed iteratorId hiter (Or.inl heq) n hpath with h | h
          · exact Or.inl h
          · exact Or.inr (Or.inr h)
        · exact Or.inr (Or.inl (hb.scopes hready.abort iteratorId hiter (by simp [hold]) n hpath))
        · rcases hclosed iteratorId hiter (Or.inr hmem) n hpath with h | h
          · exact Or.inl h
          · exact Or.inr (Or.inr h)
  ahead := by
    intro n result hresult hn
    rw [List.mem_append, List.mem_singleton, not_or] at hn
    rcases get?_skip_set_cases hresult with ⟨rfl, _⟩ | ⟨_, hold⟩ | ⟨_, _, _, rfl⟩
    · rcases hahead with h | ⟨hiter, hpath⟩
      · exact absurd h hn.2
      · exact Or.inr ⟨id, by simp, hiter, hpath⟩
    · rcases hb.ahead n result hold hn.1 with h | ⟨iteratorId, hmem, hiter, hpath⟩
      · exact Or.inl h
      · exact Or.inr ⟨iteratorId, List.mem_append_left _ hmem, hiter, hpath⟩
    · exact Or.inl rfl
  reported := by
    intro n result hresult hfailed
    rcases get?_skip_set_cases hresult with ⟨rfl, rfl⟩ | ⟨_, hold⟩ | ⟨_, _, _, rfl⟩
    · exact ⟨error, rfl, List.mem_append_right _ herror⟩
    · rcases hb.reported n result hold hfailed with ⟨e, he, hmem⟩
      exact ⟨e, he, List.mem_append_left _ hmem⟩
    · cases hfailed
  clean := by
    intro hnil
    rw [List.append_eq_nil_iff] at hnil
    rw [hnil.2] at herror
    cases herror
  dirty := by
    intro _
    refine ⟨⟨m, r.failedResult m error, ?_, rfl⟩, htrace⟩
    rw [get?_skip]
    simp
  aborts := by
    have hne : s.errors ++ errors ≠ [] := by
      intro hnil
      rw [List.append_eq_nil_iff] at hnil
      rw [hnil.2] at herror
      cases herror
    simp [hne]
  single := by
    intro habort n n' result result' hresult hresult' hfailed hfailed'
    have hclean := hb.clean (hb.errors_eq_nil hready.abort (by simpa using habort))
    have honly : ∀ k res, (r.skip (s.results.set m (r.failedResult m error)) ids).get? k = some res →
        res.status = .failed → k = m := by
      intro k res hk hfail
      rcases get?_skip_set_cases hk with ⟨heq, _⟩ | ⟨_, hold⟩ | ⟨_, _, _, rfl⟩
      · exact heq
      · rw [hclean k res hold] at hfail
        cases hfail
      · cases hfail
    rw [honly n result hresult hfailed, honly n' result' hresult' hfailed']
  stored := by
    intro n
    constructor
    · intro hn
      rcases (hb.stored n).mp hn with ⟨result, hresult, hcount⟩
      refine ⟨result, ?_, hcount⟩
      have hnm : n ≠ m := by
        rintro rfl
        rw [hm] at hresult
        cases hresult
      rw [get?_skip, OrderedDict.get?_set_of_ne _ hnm, hresult]
    · rintro ⟨result, hresult, hcount⟩
      rcases get?_skip_set_cases hresult with ⟨rfl, rfl⟩ | ⟨_, hold⟩ | ⟨_, _, _, rfl⟩
      · exact absurd rfl hcount
      · exact (hb.stored n).mpr ⟨result, hold, hcount⟩
      · exact absurd rfl hcount
  counted := by
    intro n result hresult hstatus
    rcases get?_skip_set_cases hresult with ⟨rfl, rfl⟩ | ⟨_, hold⟩ | ⟨_, _, _, rfl⟩
    · cases hstatus
    · exact hb.counted n result hold hstatus
    · cases hstatus
  uncounted := by
    intro n result hresult hstatus
    rcases get?_skip_set_cases hresult with ⟨rfl, rfl⟩ | ⟨_, hold⟩ | ⟨_, _, _, rfl⟩
    · rfl
    · exact hb.uncounted n result hold hstatus
    · rfl
  ports := hb.ports

/-- A data node that fails keeps the books. -/
theorem Books.failNode (hsorted : r.Sorted topo) (hsplit : topo = visited ++ id :: rest)
    (hb : r.Books visited s) (hready : s.Ready id) (hplain : ¬ r.engine.IsIterator r.spec id)
    (error : NodeError) : r.Books (visited ++ [id]) (r.failNode s id error) := by
  have hknown : id ∈ r.spec.nodeMap.keys := (hsorted.mem_iff id).mp (by simp [hsplit])
  have htrace : ∃ place n e, Event.failed place n e ∈
      s.trace ++ r.nodeEvents id s.view ++ [Event.failed .top id error] :=
    ⟨.top, id, error, by simp⟩
  cases hmode : r.ctx.options.continueOnError with
  | true =>
      have hclosed : ∀ iteratorId, r.engine.IsIterator r.spec iteratorId →
          iteratorId = id ∨ iteratorId ∈ r.spec.descendants id →
          ∀ n, r.spec.Path iteratorId n → n = id ∨ n ∈ r.spec.descendants id := by
        intro iteratorId hiter hmem n hpath
        rcases hmem with rfl | hmem
        · exact absurd hiter hplain
        · rw [PipelineSpec.mem_descendants_iff] at hmem ⊢
          exact Or.inr (hmem.trans hpath)
      have hids : ∀ n ∈ r.spec.descendants id, n ∈ r.spec.nodeMap.keys := by
        intro n hn
        exact hsorted.known_of_path ((r.spec.mem_descendants_iff id n).mp hn)
      have hfail := hb.fail hready hready.result hknown hids (Or.inl rfl) hclosed
        (List.mem_singleton_self error) htrace (Or.inl rfl)
      simpa [PipelineRun.failNode, hmode] using hfail
  | false =>
      have hids : ∀ n ∈ ([] : List String), n ∈ r.spec.nodeMap.keys := by simp
      have hclosed : ∀ iteratorId, r.engine.IsIterator r.spec iteratorId →
          iteratorId = id ∨ iteratorId ∈ ([] : List String) →
          ∀ n, r.spec.Path iteratorId n → n = id ∨ n ∈ ([] : List String) := by
        intro iteratorId hiter hmem
        simp only [List.not_mem_nil, or_false] at hmem
        exact absurd (hmem ▸ hiter) hplain
      have hfail := hb.fail hready hready.result hknown hids (Or.inl rfl) hclosed
        (List.mem_singleton_self error) htrace (Or.inl rfl)
      simpa [PipelineRun.failNode, hmode, skip] using hfail

/-- An iterator whose plan fails keeps the books. -/
theorem Books.failPlan (hsorted : r.Sorted topo) (hsplit : topo = visited ++ id :: rest)
    (hb : r.Books visited s) (hready : s.Ready id) (hiter : r.engine.IsIterator r.spec id)
    (error : NodeError) :
    r.Books (visited ++ [id]) (r.failPlan s id (r.scopeTopo topo id) error) := by
  have hknown : id ∈ r.spec.nodeMap.keys := (hsorted.mem_iff id).mp (by simp [hsplit])
  have hids : ∀ n ∈ r.scopeTopo topo id, n ∈ r.spec.nodeMap.keys := by
    intro n hn
    exact hsorted.known_of_path ((hsorted.mem_scope id n).mp hn)
  have hclosed : ∀ iteratorId, r.engine.IsIterator r.spec iteratorId →
      iteratorId = id ∨ iteratorId ∈ r.scopeTopo topo id →
      ∀ n, r.spec.Path iteratorId n → n = id ∨ n ∈ r.scopeTopo topo id := by
    intro iteratorId hiter' hmem n hpath
    rcases hmem with rfl | hmem
    · exact Or.inr ((hsorted.mem_scope iteratorId n).mpr hpath)
    · exact absurd ((hsorted.mem_scope id iteratorId).mp hmem)
        (hsorted.validated.not_nested id iteratorId hiter hiter')
  have htrace : ∃ place n e, Event.failed place n e ∈
      s.trace ++ [Event.started .top id s.view, Event.failed .top id error] :=
    ⟨.top, id, error, by simp⟩
  exact hb.fail hready hready.result hknown hids (Or.inl rfl) hclosed
    (List.mem_singleton_self error) htrace (Or.inl rfl)

/-- A node of a scope whose iterator has not been visited has no result or was
skipped. -/
theorem Books.ahead_of_scope (hsorted : r.Sorted topo) (hsplit : topo = visited ++ id :: rest)
    (hb : r.Books visited s) (hiter : r.engine.IsIterator r.spec id) {n : String}
    (hn : n = id ∨ r.spec.Path id n) {result : NodeResult}
    (hresult : s.results.get? n = some result) (hready : s.results.get? id = none) :
    result.status = .skipped := by
  rcases hn with rfl | hpath
  · rw [hready] at hresult
    cases hresult
  · rcases hb.ahead n result hresult (hsorted.not_visited_of_path hsplit hpath) with
      h | ⟨iteratorId, hmem, hiter', hpath'⟩
    · exact h
    · have heq := hsorted.validated.disjoint iteratorId id n hiter' hiter hpath' hpath
      exact absurd (heq ▸ hmem) (hsorted.not_mem_visited hsplit)

/-- A fan-out that aborts keeps the books. -/
theorem Books.abortIterations (hsorted : r.Sorted topo) (hsplit : topo = visited ++ id :: rest)
    (hb : r.Books visited s) (hready : s.Ready id) (hiter : r.engine.IsIterator r.spec id)
    (hmode : r.ctx.options.continueOnError = false) {plan : FanOutPlan}
    {schedule : List FanOut.Choice} {first : String × NodeError}
    {others : List (String × NodeError)}
    (hfailures : iterationFailures
      (r.iterationResults id (r.scopeTopo topo id) s.view plan schedule) = first :: others) :
    r.Books (visited ++ [id])
      (r.abortIterations s id (r.scopeTopo topo id) plan schedule first) := by
  have hfirst : first ∈ iterationFailures
      (r.iterationResults id (r.scopeTopo topo id) s.view plan schedule) := by
    rw [hfailures]
    exact List.mem_cons_self
  rcases mem_iterationFailures.mp hfirst with ⟨i, hi⟩
  have hpath : r.spec.Path id first.1 := by
    rcases iterationResults_getElem? hi with ⟨value, _, heq⟩
    exact (hsorted.mem_scope id first.1).mp (runIteration_failed heq.symm)
  have hnone : s.results.get? first.1 = none := by
    cases hresult : s.results.get? first.1 with
    | none => rfl
    | some result =>
        have hskipped := hb.ahead_of_scope hsorted hsplit hiter (Or.inr hpath) hresult hready.result
        have hclean := hb.clean (hb.errors_eq_nil hready.abort hmode) first.1 result hresult
        rw [hskipped] at hclean
        cases hclean
  have hids : ∀ n ∈ id :: r.scopeTopo topo id, n ∈ r.spec.nodeMap.keys := by
    intro n hn
    rcases List.mem_cons.mp hn with rfl | hn
    · exact (hsorted.mem_iff n).mp (by simp [hsplit])
    · exact hsorted.known_of_path ((hsorted.mem_scope id n).mp hn)
  have hclosed : ∀ iteratorId, r.engine.IsIterator r.spec iteratorId →
      iteratorId = first.1 ∨ iteratorId ∈ id :: r.scopeTopo topo id →
      ∀ n, r.spec.Path iteratorId n → n = first.1 ∨ n ∈ id :: r.scopeTopo topo id := by
    intro iteratorId hiter' hmem n hpath'
    rcases hmem with rfl | hmem
    · exact absurd hpath (hsorted.validated.not_nested id first.1 hiter hiter')
    · rcases List.mem_cons.mp hmem with rfl | hmem
      · exact Or.inr (List.mem_cons_of_mem _ ((hsorted.mem_scope iteratorId n).mpr hpath'))
      · exact absurd ((hsorted.mem_scope id iteratorId).mp hmem)
          (hsorted.validated.not_nested id iteratorId hiter hiter')
  have htrace : ∃ place n e, Event.failed place n e ∈
      s.trace ++ r.fanOutTrace s id (r.scopeTopo topo id) plan schedule := by
    rcases failed_mem_fanOutEvents (hsorted.not_mem_scope id) hi with ⟨value, hevent⟩
    exact ⟨.iteration id ⟨value, i⟩, first.1, first.2, by simp [fanOutTrace, hevent]⟩
  have herror : first.2 ∈ (iterationFailures
      (r.iterationResults id (r.scopeTopo topo id) s.view plan schedule)).map Prod.snd :=
    List.mem_map_of_mem hfirst
  have hfail := hb.fail hready hnone (hsorted.known_of_path hpath) hids
    (Or.inr List.mem_cons_self) hclosed herror htrace
    (Or.inr ⟨hiter, hpath⟩)
  simpa [PipelineRun.abortIterations, hmode] using hfail

/-! ## Successes -/

/-- What a visit that does not fail itself writes: results with records for the visited node
and, below an iterator, its whole scope; other nodes are left alone. -/
structure Produces (r : PipelineRun) (id : String) (s s' : LoopState)
    (produced : String → Prop) (errors : List NodeError) : Prop where
  visited : produced id
  within : ∀ n, produced n → n = id ∨ r.engine.IsIterator r.spec id ∧ r.spec.Path id n
  scope : r.engine.IsIterator r.spec id → ∀ n, r.spec.Path id n → produced n
  result : ∀ n, produced n → ∃ result, s'.results.get? n = some result ∧
    result.status ≠ .skipped ∧ result.recordsOut ≠ none
  failed : ∀ n, produced n → ∀ result, s'.results.get? n = some result →
    result.status = .failed → ∃ error ∈ errors, result.error = some error
  clean : errors = [] → ∀ n, produced n → ∀ result, s'.results.get? n = some result →
    result.status = .succeeded
  dirty : errors ≠ [] → r.ctx.options.continueOnError = true ∧
    (∃ n result, s'.results.get? n = some result ∧ result.status = .failed) ∧
      ∃ place n error, .failed place n error ∈ s'.trace
  outputs : ∀ n, produced n → ∃ outputs, s'.outputs.get? n = some outputs ∧
    ∀ port ∈ r.outputPorts n, outputs.contains port = true
  other_results : ∀ n, ¬ produced n → s'.results.get? n = s.results.get? n
  other_outputs : ∀ n, ¬ produced n → s'.outputs.get? n = s.outputs.get? n
  reported : s'.errors = s.errors ++ errors
  live : s'.abort = false
  trace : s.trace ⊆ s'.trace

/-- Writing these results keeps the books: what they overwrite has no result or was
skipped. -/
theorem Books.produce (hsorted : r.Sorted topo) (hsplit : topo = visited ++ id :: rest)
    (hb : r.Books visited s) (hready : s.Ready id) {s' : LoopState} {produced : String → Prop}
    {errors : List NodeError} (hp : r.Produces id s s' produced errors) :
    r.Books (visited ++ [id]) s' := by
  have hid : id ∈ r.spec.nodeMap.keys := (hsorted.mem_iff id).mp (by simp [hsplit])
  have hcases : ∀ {n result}, s'.results.get? n = some result →
      produced n ∨ ¬ produced n ∧ s.results.get? n = some result := by
    intro n result hresult
    by_cases hn : produced n
    · exact Or.inl hn
    · rw [hp.other_results n hn] at hresult
      exact Or.inr ⟨hn, hresult⟩
  have hwritten : ∀ {n}, produced n → s'.results.get? n ≠ none := by
    intro n hn
    rcases hp.result n hn with ⟨result, hresult, -⟩
    simp [hresult]
  have hkeep : ∀ {n}, s.results.get? n ≠ none → s'.results.get? n ≠ none := by
    intro n hold
    by_cases hn : produced n
    · exact hwritten hn
    · rw [hp.other_results n hn]
      exact hold
  constructor
  case done =>
    intro n hn
    rcases List.mem_append.mp hn with hn | hn
    · exact hkeep (hb.done n hn)
    · rw [List.mem_singleton] at hn
      subst hn
      exact hwritten hp.visited
  case known =>
    intro n hresult
    by_cases hn : produced n
    · rcases hp.within n hn with rfl | ⟨-, hpath⟩
      · exact hid
      · exact hsorted.known_of_path hpath
    · rw [hp.other_results n hn] at hresult
      exact hb.known n hresult
  case scopes =>
    intro _ iteratorId hiter hresult n hpath
    by_cases hproduced : produced iteratorId
    · rcases hp.within iteratorId hproduced with rfl | ⟨houter, hnested⟩
      · exact hwritten (hp.scope hiter n hpath)
      · exact absurd hnested (hsorted.validated.not_nested id iteratorId houter hiter)
    · rw [hp.other_results iteratorId hproduced] at hresult
      exact hkeep (hb.scopes hready.abort iteratorId hiter hresult n hpath)
  case ahead =>
    intro n result hresult hn
    rw [List.mem_append, List.mem_singleton, not_or] at hn
    rcases hcases hresult with hproduced | ⟨-, hold⟩
    · rcases hp.within n hproduced with heq | ⟨hiter, hpath⟩
      · exact absurd heq hn.2
      · exact Or.inr ⟨id, by simp, hiter, hpath⟩
    · rcases hb.ahead n result hold hn.1 with hskipped | ⟨iteratorId, hmem, hiter, hpath⟩
      · exact Or.inl hskipped
      · exact Or.inr ⟨iteratorId, List.mem_append_left _ hmem, hiter, hpath⟩
  case reported =>
    intro n result hresult hfailed
    rw [hp.reported]
    rcases hcases hresult with hproduced | ⟨-, hold⟩
    · rcases hp.failed n hproduced result hresult hfailed with ⟨error, hmem, herror⟩
      exact ⟨error, herror, List.mem_append_right _ hmem⟩
    · rcases hb.reported n result hold hfailed with ⟨error, herror, hmem⟩
      exact ⟨error, herror, List.mem_append_left _ hmem⟩
  case clean =>
    intro hnil n result hresult
    rw [hp.reported, List.append_eq_nil_iff] at hnil
    rcases hcases hresult with hproduced | ⟨-, hold⟩
    · exact hp.clean hnil.2 n hproduced result hresult
    · exact hb.clean hnil.1 n result hold
  case dirty =>
    intro hne
    rw [hp.reported] at hne
    by_cases hnew : errors = []
    · rw [hnew, List.append_nil] at hne
      rcases hb.dirty hne with ⟨⟨n, result, hresult, hfailed⟩, place, m, error, hevent⟩
      refine ⟨⟨n, result, ?_, hfailed⟩, place, m, error, hp.trace hevent⟩
      rw [hp.other_results n ?_]
      · exact hresult
      · -- a node that is overwritten was skipped, so it had not failed
        intro hproduced
        rcases hp.within n hproduced with rfl | ⟨hiter, hpath⟩
        · rw [hready.result] at hresult
          cases hresult
        · have hskipped := hb.ahead_of_scope hsorted hsplit hiter (Or.inr hpath) hresult
            hready.result
          rw [hskipped] at hfailed
          cases hfailed
    · exact (hp.dirty hnew).2
  case aborts =>
    rw [hp.live, hp.reported]
    refine iff_of_false Bool.false_ne_true ?_
    intro h
    have hold := hb.errors_eq_nil hready.abort h.1
    rw [hold, List.nil_append] at h
    rw [(hp.dirty h.2).1] at h
    cases h.1
  case single =>
    intro habort
    rw [hp.live] at habort
    cases habort
  case stored =>
    intro n
    by_cases hn : produced n
    · rcases hp.result n hn with ⟨result, hresult, -, hcount⟩
      rcases hp.outputs n hn with ⟨outputs, houtputs, -⟩
      exact iff_of_true (by simp [houtputs]) ⟨result, hresult, hcount⟩
    · rw [hp.other_results n hn, hp.other_outputs n hn]
      exact hb.stored n
  case counted =>
    intro n result hresult hsucceeded
    rcases hcases hresult with hproduced | ⟨-, hold⟩
    · rcases hp.result n hproduced with ⟨found, hfound, -, hcount⟩
      cases hresult.symm.trans hfound
      exact hcount
    · exact hb.counted n result hold hsucceeded
  case uncounted =>
    intro n result hresult hskipped
    rcases hcases hresult with hproduced | ⟨-, hold⟩
    · rcases hp.result n hproduced with ⟨found, hfound, hran, -⟩
      cases hresult.symm.trans hfound
      exact absurd hskipped hran
    · exact hb.uncounted n result hold hskipped
  case ports =>
    intro n found hfound port hport
    by_cases hn : produced n
    · rcases hp.outputs n hn with ⟨outputs, houtputs, hports⟩
      cases hfound.symm.trans houtputs
      exact hports port hport
    · rw [hp.other_outputs n hn] at hfound
      exact hb.ports n found hfound port hport

/-- A data node that succeeds keeps the books. -/
theorem Books.succeedNode (hsorted : r.Sorted topo) (hsplit : topo = visited ++ id :: rest)
    (hb : r.Books visited s) (hready : s.Ready id) (hplain : ¬ r.engine.IsIterator r.spec id)
    {outputs : NodeOutputs} (hexec : r.executeNode id s.view none = .ok outputs) :
    r.Books (visited ++ [id]) (r.succeedNode s id outputs) := by
  have hresult : ∀ {result}, (r.succeedNode s id outputs).results.get? id = some result →
      result.status = .succeeded := by
    intro result hresult
    simp only [PipelineRun.succeedNode, OrderedDict.get?_set_self, Option.some.injEq] at hresult
    rw [← hresult]
  have hknown : id ∈ r.spec.nodeMap.keys := (hsorted.mem_iff id).mp (by simp [hsplit])
  apply hb.produce hsorted hsplit hready (show r.Produces id s _ (fun n => n = id) [] from ?_)
  constructor
  case visited => rfl
  case within => exact fun n hn => Or.inl hn
  case scope => exact fun hiter => absurd hiter hplain
  case result =>
    intro n hn
    subst hn
    refine ⟨_, OrderedDict.get?_set_self _ _ _, ?_, ?_⟩
    · simp
    · simp
  case failed =>
    intro n hn result hfound hfailed
    subst hn
    rw [hresult hfound] at hfailed
    cases hfailed
  case clean =>
    intro _ n hn result hfound
    subst hn
    exact hresult hfound
  case dirty => exact fun hne => absurd rfl hne
  case outputs =>
    intro n hn
    subst hn
    refine ⟨outputs, OrderedDict.get?_set_self _ _ _, fun port hport => ?_⟩
    rcases hsorted.exists_class hknown with ⟨_, cls, _, _, hcls⟩
    rw [outputPorts, hcls] at hport
    exact executeNode_ok_contains hexec hcls port hport
  case other_results => exact fun n hn => OrderedDict.get?_set_of_ne _ hn _
  case other_outputs => exact fun n hn => OrderedDict.get?_set_of_ne _ hn _
  case reported => exact (List.append_nil _).symm
  case live => exact hready.abort
  case trace => exact List.subset_append_left _ _

/-- A member that is reported failed carries the error of a failed iteration. -/
theorem memberResult_failed {r : PipelineRun} {iteratorId member : String} {plan : FanOutPlan}
    {results : List (Option IterationResult)}
    (h : (r.memberResult iteratorId plan results member).status = .failed) :
    ∃ error, (r.memberResult iteratorId plan results member).error = some error ∧
      error ∈ (iterationFailures results).map Prod.snd := by
  have hmem : member ∈ (iterationFailures results).map Prod.fst := by
    by_contra hnot
    simp only [memberResult, if_neg hnot] at h
    cases h
  have hfound : ((iterationFailures results).find? fun failure => failure.1 = member).isSome := by
    rw [List.find?_isSome]
    rcases List.mem_map.mp hmem with ⟨failure, hfailure, heq⟩
    exact ⟨failure, hfailure, by simpa using heq⟩
  rcases Option.isSome_iff_exists.mp hfound with ⟨failure, hfailure⟩
  exact ⟨failure.2, by simp [memberResult, hfailure],
    List.mem_map_of_mem (List.mem_of_find?_eq_some hfailure)⟩

/-- Fanning in keeps the books. -/
theorem Books.fanIn (hsorted : r.Sorted topo) (hsplit : topo = visited ++ id :: rest)
    (hb : r.Books visited s) (hready : s.Ready id) (hiter : r.engine.IsIterator r.spec id)
    {plan : FanOutPlan} {schedule : List FanOut.Choice}
    (hmode : r.ctx.options.continueOnError = true ∨ iterationFailures
      (r.iterationResults id (r.scopeTopo topo id) s.view plan schedule) = []) :
    r.Books (visited ++ [id]) (r.fanIn s id (r.scopeTopo topo id) plan schedule) := by
  generalize hresults : r.iterationResults id (r.scopeTopo topo id) s.view plan schedule = results
    at hmode
  have hmember : ∀ n, n ∈ id :: r.scopeTopo topo id ↔ n = id ∨ r.spec.Path id n := by
    intro n
    rw [List.mem_cons, hsorted.mem_scope]
  have hfanned : ∀ {n}, n = id ∨ r.spec.Path id n →
      (r.fanIn s id (r.scopeTopo topo id) plan schedule).results.get? n =
        some (r.memberResult id plan results n) := by
    intro n hn
    rw [get?_fanIn_results, hresults, if_pos ((hmember n).mpr hn)]
  have hfound : ∀ {n result}, n = id ∨ r.spec.Path id n →
      (r.fanIn s id (r.scopeTopo topo id) plan schedule).results.get? n = some result →
        result = r.memberResult id plan results n := by
    intro n result hn hresult
    exact Option.some.inj (hresult.symm.trans (hfanned hn))
  apply hb.produce hsorted hsplit hready (show r.Produces id s _
    (fun n => n = id ∨ r.spec.Path id n) ((iterationFailures results).map Prod.snd) from ?_)
  constructor
  case visited => exact Or.inl rfl
  case within =>
    intro n hn
    rcases hn with heq | hpath
    · exact Or.inl heq
    · exact Or.inr ⟨hiter, hpath⟩
  case scope => exact fun _ n hpath => Or.inr hpath
  case result =>
    intro n hn
    refine ⟨_, hfanned hn, ?_, by simp [memberResult]⟩
    simp only [memberResult]
    split <;> simp
  case failed =>
    intro n hn result hresult hfailed
    rw [hfound hn hresult] at hfailed ⊢
    rcases memberResult_failed hfailed with ⟨error, herror, hmem⟩
    exact ⟨error, hmem, herror⟩
  case clean =>
    intro hnil n hn result hresult
    rw [List.map_eq_nil_iff] at hnil
    rw [hfound hn hresult]
    simp [memberResult, hnil]
  case dirty =>
    intro hne
    have hfailures : iterationFailures results ≠ [] := fun hnil => hne (by simp [hnil])
    refine ⟨hmode.resolve_right hfailures, ?_⟩
    rcases List.exists_mem_of_ne_nil _ hfailures with ⟨failure, hfailure⟩
    rcases mem_iterationFailures.mp hfailure with ⟨i, hi⟩
    rw [← hresults] at hi
    have hpath : r.spec.Path id failure.1 := by
      rcases iterationResults_getElem? hi with ⟨value, _, heq⟩
      exact (hsorted.mem_scope id failure.1).mp (runIteration_failed heq.symm)
    rcases failed_mem_fanOutEvents (hsorted.not_mem_scope id) hi with ⟨value, hevent⟩
    refine ⟨⟨failure.1, _, hfanned (Or.inr hpath), ?_⟩, .iteration id ⟨value, i⟩, failure.1,
      failure.2, ?_⟩
    · simp only [memberResult]
      rw [if_pos (List.mem_map_of_mem hfailure)]
    · simp [PipelineRun.fanIn, fanOutTrace, hevent]
  case outputs =>
    intro n hn
    refine ⟨r.memberOutputs plan results n, ?_, fun port hport => ?_⟩
    · rw [get?_fanIn_outputs, hresults, if_pos ((hmember n).mpr hn)]
    · exact contains_fanInOutputs plan _ hport
  case other_results =>
    intro n hn
    rw [get?_fanIn_results, if_neg fun h => hn ((hmember n).mp h)]
  case other_outputs =>
    intro n hn
    rw [get?_fanIn_outputs, if_neg fun h => hn ((hmember n).mp h)]
  case reported =>
    rw [← hresults]
    rfl
  case live => exact hready.abort
  case trace => exact List.subset_append_left _ _

/-! ## Visits and runs -/

/-- A visit to a node that has a result keeps the books. -/
theorem Books.idle (hb : r.Books visited s) (hresult : s.results.get? id ≠ none) :
    r.Books (visited ++ [id]) s :=
  { hb with
    done := by
      intro n hn
      rcases List.mem_append.mp hn with hn | hn
      · exact hb.done n hn
      · rw [List.mem_singleton] at hn
        exact hn ▸ hresult
    ahead := by
      intro n result hn hnot
      rw [List.mem_append, not_or] at hnot
      rcases hb.ahead n result hn hnot.1 with h | ⟨iteratorId, hmem, hiter, hpath⟩
      · exact Or.inl h
      · exact Or.inr ⟨iteratorId, List.mem_append_left _ hmem, hiter, hpath⟩ }

/-- Where a result comes from after some nodes were skipped. -/
theorem get?_skip_cases {results : OrderedDict String NodeResult} {ids : List String} {n : String}
    {result : NodeResult} (h : (r.skip results ids).get? n = some result) :
    results.get? n = some result ∨ (results.get? n = none ∧ n ∈ ids ∧ result = r.skippedResult n) := by
  rw [get?_skip] at h
  cases hold : results.get? n with
  | some old =>
      rw [hold] at h
      exact Or.inl h
  | none =>
      rw [hold] at h
      by_cases hids : n ∈ ids
      · rw [if_pos hids] at h
        cases h
        exact Or.inr ⟨rfl, hids, rfl⟩
      · rw [if_neg hids] at h
        cases h

/-- Skipping a node of an aborting run keeps the books. -/
theorem Books.aborted (hsorted : r.Sorted topo) (hsplit : topo = visited ++ id :: rest)
    (hb : r.Books visited s) (habort : s.abort = true) :
    r.Books (visited ++ [id]) { s with results := r.skip s.results [id] } where
  done := by
    intro n hn
    rw [get?_skip]
    rcases List.mem_append.mp hn with hn | hn
    · have hold := hb.done n hn
      cases hresult : s.results.get? n with
      | none => exact absurd hresult hold
      | some result => simp
    · rw [List.mem_singleton] at hn
      subst hn
      cases s.results.get? n <;> simp
  known := by
    intro n hn
    cases hresult : (r.skip s.results [id]).get? n with
    | none => exact absurd hresult hn
    | some result =>
        rcases get?_skip_cases hresult with hold | ⟨_, hmem, _⟩
        · exact hb.known n (by simp [hold])
        · rw [List.mem_singleton] at hmem
          exact (hsorted.mem_iff n).mp (by simp [hsplit, hmem])
  scopes := by
    intro hlive
    rw [habort] at hlive
    cases hlive
  ahead := by
    intro n result hresult hn
    rw [List.mem_append, List.mem_singleton, not_or] at hn
    rcases get?_skip_cases hresult with hold | ⟨_, hmem, _⟩
    · rcases hb.ahead n result hold hn.1 with h | ⟨iteratorId, hmem, hiter, hpath⟩
      · exact Or.inl h
      · exact Or.inr ⟨iteratorId, List.mem_append_left _ hmem, hiter, hpath⟩
    · exact absurd (List.mem_singleton.mp hmem) hn.2
  reported := by
    intro n result hresult hfailed
    rcases get?_skip_cases hresult with hold | ⟨_, _, rfl⟩
    · exact hb.reported n result hold hfailed
    · cases hfailed
  clean := fun hnil => absurd hnil (hb.aborts.mp habort).2
  dirty := by
    intro hne
    rcases hb.dirty hne with ⟨⟨n, result, hresult, hfailed⟩, htrace⟩
    exact ⟨⟨n, result, by rw [get?_skip, hresult], hfailed⟩, htrace⟩
  aborts := hb.aborts
  single := by
    intro _ n n' result result' hresult hresult' hfailed hfailed'
    rcases get?_skip_cases hresult with hold | ⟨_, _, rfl⟩
    · rcases get?_skip_cases hresult' with hold' | ⟨_, _, rfl⟩
      · exact hb.single habort n n' result result' hold hold' hfailed hfailed'
      · cases hfailed'
    · cases hfailed
  stored := by
    intro n
    constructor
    · intro hn
      rcases (hb.stored n).mp hn with ⟨result, hresult, hcount⟩
      exact ⟨result, by rw [get?_skip, hresult], hcount⟩
    · rintro ⟨result, hresult, hcount⟩
      rcases get?_skip_cases hresult with hold | ⟨_, _, rfl⟩
      · exact (hb.stored n).mpr ⟨result, hold, hcount⟩
      · exact absurd rfl hcount
  counted := by
    intro n result hresult hstatus
    rcases get?_skip_cases hresult with hold | ⟨_, _, rfl⟩
    · exact hb.counted n result hold hstatus
    · cases hstatus
  uncounted := by
    intro n result hresult hstatus
    rcases get?_skip_cases hresult with hold | ⟨_, _, rfl⟩
    · exact hb.uncounted n result hold hstatus
    · rfl
  ports := hb.ports

/-- Every visit after which nothing has escaped keeps the books. -/
theorem Books.visit (hsorted : r.Sorted topo) (hsplit : topo = visited ++ id :: rest)
    (hb : r.Books visited s) {schedule : List FanOut.Choice} {s' : LoopState}
    (hvisit : r.Visit schedule (r.scopeTopo topo id) s id s') (hlive : s'.escaped = none) :
    r.Books (visited ++ [id]) s' := by
  cases hvisit with
  | idle h =>
      rcases h with h | h
      · exact absurd hlive h
      · exact hb.idle h
  | aborted hescaped hresult habort => exact hb.aborted hsorted hsplit habort
  | unknown hready hnode => cases hlive
  | succeeded hready hplain outputs hexec => exact hb.succeedNode hsorted hsplit hready hplain hexec
  | failed hready hplain error hexec => exact hb.failNode hsorted hsplit hready hplain error
  | escaped hready hplain exc hexec => cases hlive
  | planFailed hready hiter error hplan => exact hb.failPlan hsorted hsplit hready hiter error
  | planEscaped hready hiter exc hplan => cases hlive
  | iterationEscaped hready hiter plan hplan exc hexc => cases hlive
  | iterationFailed hready hiter plan hplan hcalm hmode first others hfailures =>
      exact hb.abortIterations hsorted hsplit hready hiter hmode hfailures
  | fannedIn hready hiter plan hplan hcalm hmode => exact hb.fanIn hsorted hsplit hready hiter hmode

/-- Nothing escapes before a visit after which nothing has escaped. -/
theorem Visit.escaped_eq_none {schedule : List FanOut.Choice} {scope : List String}
    {s' : LoopState} (hvisit : r.Visit schedule scope s id s') (hlive : s'.escaped = none) :
    s.escaped = none := by
  cases hvisit with
  | idle _ => exact hlive
  | aborted hescaped _ _ => exact hescaped
  | unknown hready _ => exact hready.escaped
  | succeeded hready _ _ _ => exact hready.escaped
  | failed hready _ _ _ => exact hready.escaped
  | escaped hready _ _ _ => exact hready.escaped
  | planFailed hready _ _ _ => exact hready.escaped
  | planEscaped hready _ _ _ => exact hready.escaped
  | iterationEscaped hready _ _ _ _ _ => exact hready.escaped
  | iterationFailed hready _ _ _ _ _ _ _ _ => exact hready.escaped
  | fannedIn hready _ _ _ _ _ => exact hready.escaped

/-- What every visit preserves holds after the loop, where the books of the
state before the visit may be used. -/
theorem run_invariant_of_books (hsorted : r.Sorted topo) (schedule : String → List FanOut.Choice)
    {Inv : List String → LoopState → Prop}
    (hstep : ∀ visited id rest s s', topo = visited ++ id :: rest →
      (s.escaped = none → r.Books visited s) →
      r.Visit (schedule id) (r.scopeTopo topo id) s id s' → Inv visited s →
      Inv (visited ++ [id]) s')
    (hinit : Inv [] .initial) :
    ((r.run schedule topo .initial topo).escaped = none →
      r.Books topo (r.run schedule topo .initial topo)) ∧
    Inv topo (r.run schedule topo .initial topo) := by
  refine @run_invariant r schedule topo
    (fun visited s => (s.escaped = none → r.Books visited s) ∧ Inv visited s) ?_
    ⟨fun _ => Books.initial r, hinit⟩
  rintro visited id rest s hsplit ⟨hbooks, hinv⟩
  have hvisit := visit_spec r schedule topo s id
  refine ⟨fun hlive => ?_, hstep visited id rest s _ hsplit hbooks hvisit hinv⟩
  exact (hbooks (hvisit.escaped_eq_none hlive)).visit hsorted hsplit hvisit hlive

/-- The books after the loop, if nothing has escaped. -/
theorem run_books (hsorted : r.Sorted topo) (schedule : String → List FanOut.Choice)
    (hlive : (r.run schedule topo .initial topo).escaped = none) :
    r.Books topo (r.run schedule topo .initial topo) := by
  have hboth := @run_invariant_of_books r topo hsorted schedule (fun _ _ => True)
    (fun _ _ _ _ _ _ _ _ _ => trivial) trivial
  exact hboth.1 hlive

/-! ## Calm runs -/

/-- Visits only add errors. -/
theorem Visit.errors_grow {schedule : List FanOut.Choice} {scope : List String}
    (hvisit : r.Visit schedule scope s id s') : s.errors <+: s'.errors := by
  cases hvisit with
  | idle _ => exact List.prefix_rfl
  | aborted _ _ _ => exact List.prefix_rfl
  | unknown _ _ => exact List.prefix_rfl
  | succeeded _ _ _ _ => exact List.prefix_rfl
  | failed _ _ error _ => exact List.prefix_append _ _
  | escaped _ _ _ _ => exact List.prefix_rfl
  | planFailed _ _ error _ => exact List.prefix_append _ _
  | planEscaped _ _ _ _ => exact List.prefix_rfl
  | iterationEscaped _ _ _ _ _ _ => exact List.prefix_rfl
  | iterationFailed _ _ _ _ _ _ _ _ _ => exact List.prefix_append _ _
  | fannedIn _ _ _ _ _ _ => exact List.prefix_append _ _

/-- A run from which nothing escapes starts without an escape. -/
theorem run_escaped_eq_none {schedule : String → List FanOut.Choice} {ids : List String}
    (h : (r.run schedule topo s ids).escaped = none) : s.escaped = none := by
  induction ids generalizing s with
  | nil => exact h
  | cons head tail ih => exact (visit_spec r schedule topo s head).escaped_eq_none (ih h)

/-- Nothing has failed and nothing has escaped. -/
structure Calm (s : LoopState) : Prop where
  errors : s.errors = []
  escaped : s.escaped = none

/-- A run that ends calm has been calm all the time. -/
theorem Calm.of_run {schedule : String → List FanOut.Choice} {ids : List String}
    (h : Calm (r.run schedule topo s ids)) : Calm s := by
  refine ⟨?_, run_escaped_eq_none h.escaped⟩
  induction ids generalizing s with
  | nil => exact h.errors
  | cons head tail ih =>
      have hprefix := (visit_spec r schedule topo s head).errors_grow
      rw [ih h] at hprefix
      exact List.prefix_nil.mp hprefix

end PipelineRun

end EtlTool
