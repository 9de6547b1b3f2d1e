import EtlTool.Core.RedactionComplete
import EtlTool.Engine.Iterations
import EtlTool.Foundations.TextCuts

/-!
# Truncated texts

The sample body of the connectivity tester and the value that a failed iteration reports
are cut off before they are redacted.  A cut through an occurrence of a secret leaves a
part of the secret, which the redactor does not know.

Main results:

- Theorem {lit}`truncation_keeps_redaction`: when a truncated text shows no more than the
  redacted text does.
- Theorem {lit}`truncation_exposes_secret`: a cut through a token.

Current gaps:

- The other checks of the tester.
-/

namespace EtlTool

open TextReplacement

/-- {lit}`redactor.redact(text[:n])`. -/
def Redactor.truncated (redactor : Redactor) (text : String) (n : Nat) : String :=
  redactor.redact (String.ofList (text.toList.take n))

/-- The sample body of {lit}`_test_api_source`: of the response without credentials, or of
the one with them if there is one and its sample is not empty. -/
def testerSample (redactor : Redactor) (sampleBytes : Nat) (text : String)
    (authorized : Option String) : Option String :=
  let orNone (sample : String) : Option String := if sample = "" then none else some sample
  let sample := orNone (redactor.truncated text sampleBytes)
  match authorized with
  | none => sample
  | some text =>
      match orNone (redactor.truncated text sampleBytes) with
      | some sample => some sample
      | none => sample

/-- The sample body is the truncated text of a response. -/
theorem testerSample_eq_truncated {redactor : Redactor} {sampleBytes : Nat} {text sample : String}
    {authorized : Option String}
    (h : testerSample redactor sampleBytes text authorized = some sample) :
    sample = redactor.truncated text sampleBytes ∨
      ∃ text', authorized = some text' ∧ sample = redactor.truncated text' sampleBytes := by
  unfold testerSample at h
  dsimp only at h
  cases authorized with
  | none =>
      rw [Option.ite_none_left_eq_some] at h
      exact Or.inl (Option.some.inj h.2).symm
  | some text' =>
      dsimp only at h
      split at h
      · rename_i sample' hsample
        rw [Option.ite_none_left_eq_some] at hsample
        refine Or.inr ⟨text', rfl, ?_⟩
        rw [← Option.some.inj h, Option.some.inj hsample.2]
      · rw [Option.ite_none_left_eq_some] at h
        exact Or.inl (Option.some.inj h.2).symm

/-- The value that a failed iteration reports is the truncated text of {lit}`repr`. -/
theorem iterationDetails_value {rt : Runtime} {redactor : Redactor} {index : Nat} {value : Value}
    {details : Option Fields} {reported : Fields}
    (h : iterationDetails rt redactor index value details = some reported) :
    ∃ text, rt.pyRepr value = some text ∧
      OrderedDict.findPair "iteration_value" reported =
        some (.str (redactor.truncated text 200)) := by
  rcases Option.map_eq_some_iff.mp h with ⟨text, htext, rfl⟩
  exact ⟨text, htext, OrderedDict.findPair_setPair_self _ _ _⟩

/-! ## Cuts -/

/-- The truncated text shows no more than the redacted text. -/
def Redactor.KeepsRedaction (redactor : Redactor) (text : String) (n : Nat) : Prop :=
  (redactor.truncated text n).toList <+: (redactor.redact text).toList

/-- The cut lies inside an occurrence of a variant that redacting the text replaces. -/
def Redactor.CutsSecret (redactor : Redactor) (text : String) (n : Nat) : Prop :=
  SplitsAny redactionMask redactor.values text.toList n

/-- A text as a series of replacements, whole and truncated. -/
theorem redact_replacesAll_truncated {redactor : Redactor}
    (hne : ∀ value ∈ redactor.values, value ≠ []) (text : String) (n : Nat) :
    ReplacesAll redactionMask redactor.values text.toList (redactor.redact text).toList ∧
      ReplacesAll redactionMask redactor.values (text.toList.take n)
        (redactor.truncated text n).toList := by
  constructor
  · rw [Redactor.redact, String.toList_ofList]
    exact redact_replacesAll hne text.toList
  · rw [Redactor.truncated, Redactor.redact, String.toList_ofList, String.toList_ofList]
    exact redact_replacesAll hne (text.toList.take n)

/-- A truncated text shows no more than the redacted text if the cut lies in no occurrence of
a variant that redacting the whole text replaces.

For secrets without the mask character such a cut lies inside an occurrence of a variant in
the text.  The condition is necessary if no variant ends in the beginning of an earlier one,
as what is left of the secret may otherwise be redacted for another reason; and all cuts of
a text show no more than the redacted text exactly when no variant occurs in it. -/
theorem truncation_keeps_redaction (secrets : List PyText) (built redactor : Redactor)
    (hbuilt : Redactor.ofSecrets secrets = .ok built)
    (horder : redactor.values.Perm built.values) :
    (∀ text n, ¬ redactor.CutsSecret text n → redactor.KeepsRedaction text n) ∧
    ((∀ secret ∈ secrets, CodePoint.scalar '*' ∉ secret) →
      (∀ text n, redactor.CutsSecret text n →
        ∃ value ∈ redactor.values, Crosses value text.toList n) ∧
      (NoOverlap redactor.values →
        ∀ text n, redactor.KeepsRedaction text n ↔ ¬ redactor.CutsSecret text n) ∧
      ∀ text, (∀ n, redactor.KeepsRedaction text n) ↔
        ∀ value ∈ redactor.values, ¬ value <:+: text.toList) := by
  have hlong : ∀ value ∈ redactor.values, minRedactableLength ≤ value.length :=
    fun value hvalue => minRedactableLength_le_length hbuilt value (horder.mem_iff.mp hvalue)
  have hne : ∀ value ∈ redactor.values, value ≠ [] := by
    intro value hvalue hnil
    have hlength := hlong value hvalue
    rw [hnil] at hlength
    exact absurd hlength (by decide)
  constructor
  · intro text n hcut
    rcases redact_replacesAll_truncated hne text n with ⟨hwhole, htruncated⟩
    exact hwhole.prefix_of_not_splits hne htruncated hcut
  · intro hmask
    have hapart : redactor.Apart := fun value hvalue =>
      ofSecrets_apart hbuilt hmask value (horder.mem_iff.mp hvalue)
    refine ⟨fun text n hcut => hcut.crosses redactionMask_ne_nil hapart,
      fun hoverlap text n => ?_, fun text => ?_⟩
    · rcases redact_replacesAll_truncated hne text n with ⟨hwhole, htruncated⟩
      exact hwhole.prefix_iff redactionMask_ne_nil hapart hoverlap htruncated
    · have htwo : ∀ value ∈ redactor.values,
          2 ≤ value.length ∧ value.Disjoint redactionMask := fun value hvalue =>
        ⟨le_trans (by decide) (hlong value hvalue), (hapart value hvalue).2⟩
      rcases redact_replacesAll_truncated hne text 0 with ⟨hwhole, _⟩
      rw [← hwhole.prefix_all_iff redactionMask_ne_nil htwo]
      constructor
      · intro hkeeps n out hout
        rw [hout.unique hne (redact_replacesAll_truncated hne text n).2]
        exact hkeeps n
      · intro hprefix n
        exact hprefix n _ (redact_replacesAll_truncated hne text n).2

/-! ## A token in a response -/

namespace TruncationSamples

/-- The secret. -/
def secrets : List PyText :=
  [PyText.ofString "s3cretvalue"]

/-- A response with the secret. -/
def response : String := "token=s3cretvalue;ok"

theorem ofSecrets_ok : ∃ redactor, Redactor.ofSecrets secrets = .ok redactor ∧
    redactor.values = ["czNjcmV0dmFsdWU=".toList, "s3cretvalue".toList] := by
  have hcheck : (Redactor.ofSecrets secrets).toOption.map Redactor.values =
      some ["czNjcmV0dmFsdWU=".toList, "s3cretvalue".toList] := by
    decide +kernel
  rcases Option.map_eq_some_iff.mp hcheck with ⟨redactor, hbuilt, hvalues⟩
  refine ⟨redactor, ?_, hvalues⟩
  cases hsecrets : Redactor.ofSecrets secrets with
  | error exc => simp [hsecrets, Except.toOption] at hbuilt
  | ok built =>
      rw [hsecrets] at hbuilt
      exact congrArg Except.ok (Option.some.inj hbuilt)

end TruncationSamples

open TruncationSamples

/-- The first ten characters of the response show the beginning of the secret. -/
theorem truncation_exposes_secret :
    ∃ redactor, Redactor.ofSecrets secrets = .ok redactor ∧
      testerSample redactor 10 response none = some "token=s3cr" ∧
      redactor.redact response = "token=***;ok" ∧ ¬ redactor.KeepsRedaction response 10 := by
  rcases ofSecrets_ok with ⟨redactor, hbuilt, hvalues⟩
  have hredactor : redactor = ⟨["czNjcmV0dmFsdWU=".toList, "s3cretvalue".toList]⟩ := by
    rw [← hvalues]
  refine ⟨redactor, hbuilt, ?_⟩
  rw [hredactor]
  refine ⟨by decide +kernel, by decide +kernel, ?_⟩
  unfold Redactor.KeepsRedaction
  decide +kernel

theorem truncation_keeps_redaction_behind :
    ∃ redactor, Redactor.ofSecrets secrets = .ok redactor ∧
      redactor.truncated response 18 = "token=***;" ∧ redactor.KeepsRedaction response 18 := by
  rcases ofSecrets_ok with ⟨redactor, hbuilt, hvalues⟩
  have hkeeps := truncation_keeps_redaction secrets redactor redactor hbuilt (.refl _)
  have hmask : ∀ secret ∈ secrets, CodePoint.scalar '*' ∉ secret := by
    decide +kernel
  have hsplit : ¬ redactor.CutsSecret response 18 := by
    intro hcut
    rcases (hkeeps.2 hmask).1 response 18 hcut with ⟨value, hvalue, a, b, rfl, ha, hb, _, hstart⟩
    rw [hvalues] at hvalue
    -- what follows the cut is no end of a variant
    have hends : ∀ value ∈ ["czNjcmV0dmFsdWU=".toList, "s3cretvalue".toList],
        ∀ k < 16, k < value.length → ¬ value.drop k <+: response.toList.drop 18 := by
      decide +kernel
    have hlength : a.length < (a ++ b).length := by
      rw [List.length_append]
      have := List.length_pos_of_ne_nil hb
      omega
    have hbound : ∀ value ∈ ["czNjcmV0dmFsdWU=".toList, "s3cretvalue".toList],
        value.length ≤ 16 := by
      decide +kernel
    apply hends _ hvalue a.length (lt_of_lt_of_le hlength (hbound _ hvalue)) hlength
    rwa [List.drop_left]
  refine ⟨redactor, hbuilt, ?_, hkeeps.1 response 18 hsplit⟩
  have hredactor : redactor = ⟨["czNjcmV0dmFsdWU=".toList, "s3cretvalue".toList]⟩ := by
    rw [← hvalues]
  rw [hredactor]
  decide +kernel

end EtlTool
