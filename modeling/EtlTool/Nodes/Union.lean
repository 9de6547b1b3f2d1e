import EtlTool.Core.JsonIdentity
import EtlTool.Foundations.FirstOccurrences
import EtlTool.Nodes.Merge

/-!
# Unions

The {lit}`union` strategy of the merge node drops a record if one with the same canonical
text has been emitted before.  Since the text of a JSON record determines it up to the
order of members, exactly the exact duplicates go.

Main results:

- Theorem {lit}`dropDuplicates_ok_iff`: a union returns exactly if all records have a
  text, and then the first record of every text.
- Theorem {lit}`union_drops_duplicates`: on JSON records these are the first records of
  every class of identical ones, and a second union changes nothing.
-/

namespace EtlTool

open FirstOccurrences

/-- The canonical text of a record, if it has one. -/
def Runtime.canonicalOrEmpty (rt : Runtime) (record : Fields) : String :=
  match rt.canonical record with
  | .error _ => ""
  | .ok text => text

/-- Records that are identical up to the order of members. -/
def identicalRecords (record other : Fields) : Bool :=
  (Value.dict record).identical (.dict other)

private theorem canonical_ok_iff (rt : Runtime) (record : Fields) (text : String) :
    rt.canonical record = .ok text ↔ rt.Printable (.dict record) ∧
      text = String.ofList (rt.jsonText (fun _ repr => repr) (Value.dict record).sortKeys) := by
  unfold Runtime.canonical Runtime.jsonDumps
  split
  · rename_i hprintable
    rw [Except.ok.injEq, if_pos rfl, eq_comm]
    exact (and_iff_right hprintable).symm
  · rename_i hprintable
    exact ⟨nofun, fun h => absurd h.1 hprintable⟩

/-- Two canonical texts are equal exactly for identical records. -/
theorem canonical_eq_iff {rt : Runtime} (hfloat : rt.FloatTexts) {record other : Fields}
    {text text' : String} (hrecord : (Value.dict record).StrictJson)
    (hother : (Value.dict other).StrictJson) (htext : rt.canonical record = .ok text)
    (htext' : rt.canonical other = .ok text') :
    text = text' ↔ identicalRecords record other = true := by
  rw [((canonical_ok_iff rt record text).mp htext).2, ((canonical_ok_iff rt other text').mp htext').2,
    String.ofList_inj, canonical_text_eq_iff hfloat _ hrecord hother]
  rfl

/-- The pass fails exactly if a record has no text, and otherwise drops every record whose
text has been seen. -/
theorem dropDuplicates_ok_iff (rt : Runtime) (records out : Records) (seen : List String) :
    dropDuplicates rt seen records = .ok out ↔
      (∀ record ∈ records, rt.Printable (.dict record)) ∧
        out = keepNew rt.canonicalOrEmpty seen records := by
  induction records generalizing seen out with
  | nil => simp [dropDuplicates, keepNew, eq_comm]
  | cons record rest ih =>
      rw [List.forall_mem_cons, dropDuplicates]
      cases htext : rt.canonical record with
      | error exc =>
          refine iff_of_false (by simp) fun h => ?_
          have hok := (canonical_ok_iff rt record _).mpr ⟨h.1.1, rfl⟩
          rw [htext] at hok
          cases hok
      | ok text =>
          have hprintable := ((canonical_ok_iff rt record text).mp htext).1
          have hmarker : rt.canonicalOrEmpty record = text := by
            rw [Runtime.canonicalOrEmpty, htext]
          rw [keepNew, hmarker]
          dsimp only
          by_cases hseen : text ∈ seen
          · rw [if_pos hseen, if_pos hseen, ih, and_iff_right hprintable]
          · rw [if_neg hseen, if_neg hseen, and_iff_right hprintable]
            constructor
            · intro h
              cases hrest : dropDuplicates rt (text :: seen) rest with
              | error exc => simp [hrest, Except.map] at h
              | ok kept =>
                  rcases (ih kept (text :: seen)).mp hrest with ⟨hall, hkept⟩
                  rw [hrest] at h
                  exact ⟨hall, by rw [← hkept]; exact (Except.ok.inj h).symm⟩
            · rintro ⟨hall, rfl⟩
              rw [(ih _ (text :: seen)).mpr ⟨hall, rfl⟩]
              rfl

/-- Among JSON records with texts, markers are equal for identical records. -/
theorem keepNew_eq_firsts_identical {rt : Runtime} (hfloat : rt.FloatTexts) {records : Records}
    (hstrict : ∀ record ∈ records, (Value.dict record).StrictJson)
    (hprintable : ∀ record ∈ records, rt.Printable (.dict record)) :
    keepNew rt.canonicalOrEmpty [] records = firsts identicalRecords records := by
  rw [keepNew_eq_firsts]
  refine firsts_congr fun record hrecord other hother => ?_
  have htext := (canonical_ok_iff rt record _).mpr ⟨hprintable record hrecord, rfl⟩
  have htext' := (canonical_ok_iff rt other _).mpr ⟨hprintable other hother, rfl⟩
  rw [Bool.eq_iff_iff, decide_eq_true_eq,
    ← canonical_eq_iff hfloat (hstrict record hrecord) (hstrict other hother) htext htext',
    Runtime.canonicalOrEmpty, Runtime.canonicalOrEmpty, htext, htext']

/-- A union returns exactly if all records have a text. -/
theorem mergeRun_union_ok_iff (rt : Runtime) (foreign : ForeignKeys) (ctx : NodeContext)
    {cfg : MergeConfig} (hcfg : cfg.strategy = .union) (inputs : NodeInputs)
    (outputs : NodeOutputs) :
    mergeRun rt foreign ctx cfg inputs = .ok outputs ↔
      (∀ record ∈ ((inputs.get? "in").getD []).flatten, rt.Printable (.dict record)) ∧
        outputs = .singleton "out"
          (keepNew rt.canonicalOrEmpty [] ((inputs.get? "in").getD []).flatten) := by
  have hpass := fun out => dropDuplicates_ok_iff rt ((inputs.get? "in").getD []).flatten out []
  simp only [mergeRun, hcfg]
  cases hdrop : dropDuplicates rt [] ((inputs.get? "in").getD []).flatten with
  | error exc =>
      refine iff_of_false (by simp [Except.map]) fun h => ?_
      have hok := (hpass _).mpr ⟨h.1, rfl⟩
      rw [hdrop] at hok
      cases hok
  | ok out =>
      rcases (hpass out).mp hdrop with ⟨hall, hout⟩
      rw [and_iff_right hall, ← hout]
      exact ⟨fun h => (Except.ok.inj h).symm, fun h => congrArg Except.ok h.symm⟩

/-- A union drops exactly the exact duplicates.  Two JSON records have one canonical text
exactly if they are identical up to the order of members.  A union of JSON records fails
exactly if one of them has no text, otherwise it emits the first record of every class of
identical ones, in order, and a union over what it emitted emits the same again. -/
theorem union_drops_duplicates (rt : Runtime) (hfloat : rt.FloatTexts) (foreign : ForeignKeys)
    (ctx : NodeContext) (cfg : MergeConfig) (hcfg : cfg.strategy = .union) :
    (∀ (record other : Fields) (text text' : String), (Value.dict record).StrictJson →
      (Value.dict other).StrictJson → rt.canonical record = .ok text →
      rt.canonical other = .ok text' →
        (text = text' ↔ identicalRecords record other = true)) ∧
    ∀ (inputs : NodeInputs) (streams : List Records), (inputs.get? "in").getD [] = streams →
      (∀ record ∈ streams.flatten, (Value.dict record).StrictJson) →
      (∀ outputs, mergeRun rt foreign ctx cfg inputs = .ok outputs ↔
        (∀ record ∈ streams.flatten, rt.Printable (.dict record)) ∧
          outputs = .singleton "out" (firsts identicalRecords streams.flatten)) ∧
      ∀ merged, mergeRun rt foreign ctx cfg inputs = .ok (.singleton "out" merged) →
        ∀ again : NodeInputs, ((again.get? "in").getD []).flatten = merged →
          mergeRun rt foreign ctx cfg again = .ok (.singleton "out" merged) := by
  refine ⟨fun record other text text' hrecord hother htext htext' =>
    canonical_eq_iff hfloat hrecord hother htext htext', ?_⟩
  rintro inputs streams rfl hstrict
  have hunion : ∀ outputs, mergeRun rt foreign ctx cfg inputs = .ok outputs ↔
      (∀ record ∈ ((inputs.get? "in").getD []).flatten, rt.Printable (.dict record)) ∧
        outputs = .singleton "out"
          (firsts identicalRecords ((inputs.get? "in").getD []).flatten) := by
    intro outputs
    rw [mergeRun_union_ok_iff rt foreign ctx hcfg]
    refine and_congr_right fun hprintable => ?_
    rw [keepNew_eq_firsts_identical hfloat hstrict hprintable]
  refine ⟨hunion, fun merged hmerged again hagain => ?_⟩
  rcases (hunion _).mp hmerged with ⟨hprintable, hsame⟩
  have hfirsts : merged = firsts identicalRecords ((inputs.get? "in").getD []).flatten := by
    simpa [OrderedDict.singleton] using hsame
  have hsub := (firsts_sublist identicalRecords ((inputs.get? "in").getD []).flatten).subset
  rw [mergeRun_union_ok_iff rt foreign ctx hcfg, hagain, hfirsts]
  refine ⟨fun record hrecord => hprintable record (hsub hrecord), ?_⟩
  rw [keepNew_eq_firsts_identical hfloat (fun record hrecord => hstrict record (hsub hrecord))
    fun record hrecord => hprintable record (hsub hrecord), firsts_firsts]

/-! ## Orders from two sources -/

namespace MergeSamples

/-- An order, and the same order with its members in another order. -/
def order : Fields :=
  [("id", .int 1), ("ship", .dict [("city", .str "Graz"), ("zip", .int 8010)])]

/-- The order of the other source. -/
def reordered : Fields :=
  [("ship", .dict [("zip", .int 8010), ("city", .str "Graz")]), ("id", .int 1)]

/-- A record that Python takes for equal, but whose number is of another kind. -/
def otherKind : Fields :=
  [("id", .float (.finite 1)), ("ship", .dict [("city", .str "Graz"), ("zip", .int 8010)])]

private theorem four_pos : 1 ≤ 4 := by decide

/-- The context of the node. -/
def unionContext : NodeContext where
  run := ⟨.empty, ⟨4, false, four_pos⟩, ⟨[]⟩⟩
  nodeId := "all"
  nodeType := "merge"
  iterCtx := none

end MergeSamples

open MergeSamples

theorem union_drops_duplicates_reordered :
    mergeRun decimalRuntime (fun _ _ _ => none) unionContext { strategy := .union }
        (.singleton "in" [[order], [reordered, otherKind]]) =
      .ok (.singleton "out" [order, otherKind]) := by
  have hstrict : ∀ record ∈ [[order], [reordered, otherKind]].flatten,
      (Value.dict record).StrictJson := by
    simp [order, reordered, otherKind, Value.StrictJson, Value.StrictJsonFields]
  have hprintable : ∀ record ∈ [[order], [reordered, otherKind]].flatten,
      decimalRuntime.Printable (.dict record) := by
    decide +kernel
  have hunion := union_drops_duplicates decimalRuntime decimalRuntime_floatTexts
    (fun _ _ _ => none) unionContext { strategy := .union } rfl
  exact ((hunion.2 (.singleton "in" [[order], [reordered, otherKind]]) _ rfl hstrict).1 _).mpr
    ⟨hprintable, by decide +kernel⟩

end EtlTool
