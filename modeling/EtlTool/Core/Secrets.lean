import EtlTool.Core.Schema

/-!
# Secrets resolution

A document names its secrets by {lit}`secret_ref`; a provider turns the names into
values right before a run.  The references of all nodes are collected without
repetition, sorted, and looked up one after another until the first failure.

Main results:

- Theorem {lit}`keys_resolveSecrets`: the resolved mapping has exactly the collected
  references.

Current gaps:

- None for the resolution; the concrete providers stand beside their callers.
-/

namespace EtlTool

/-! ## References in a config -/

mutual

/-- {lit}`collect_refs_from_config`. -/
def collectRefsFromConfig : Value → List String
  | .list items => collectRefsFromItems items
  | .dict fields => collectRefsFromFields fields
  | _ => []

/-- The references in the items of a list. -/
def collectRefsFromItems : List Value → List String
  | [] => []
  | item :: rest => collectRefsFromConfig item ++ collectRefsFromItems rest

/-- The references in the fields of an object. -/
def collectRefsFromFields : Fields → List String
  | [] => []
  | (key, child) :: rest =>
      (match child with
        | .str ref => if key = "secret_ref" then [ref] else []
        | child => collectRefsFromConfig child) ++ collectRefsFromFields rest

end

/-- {lit}`sorted(collect_secret_refs(spec))`. -/
def collectSecretRefs (spec : PipelineSpec) : List String :=
  (spec.nodes.flatMap fun node => collectRefsFromFields node.config).dedup.mergeSort
    fun a b => decide (a ≤ b)

/-! ## Providers -/

/-- What a provider raises. -/
inductive SecretFailure where
  /-- {lit}`SecretNotFoundError(ref)`. -/
  | notFound (ref : String)
  | other (exc : PyException)
deriving DecidableEq

/-- {lit}`SecretsProvider.get`. -/
abbrev SecretsProvider := String → Except SecretFailure PyText

/-- {lit}`Cipher`. -/
structure Cipher where
  decrypt : String → Except PyException (List UInt8)

/-- Look references up one after another. -/
def resolveRefs (provider : SecretsProvider) :
    List String → Except SecretFailure (List (String × PyText))
  | [] => .ok []
  | ref :: rest =>
      match provider ref with
      | .error failure => .error failure
      | .ok value =>
          match resolveRefs provider rest with
          | .error failure => .error failure
          | .ok pairs => .ok ((ref, value) :: pairs)

/-- {lit}`resolve_secrets`. -/
def resolveSecrets (spec : PipelineSpec) (provider : SecretsProvider) :
    Except SecretFailure (OrderedDict String PyText) :=
  (resolveRefs provider (collectSecretRefs spec)).map OrderedDict.ofList

private theorem map_fst_resolveRefs {provider : SecretsProvider} {refs : List String}
    {pairs : List (String × PyText)} (h : resolveRefs provider refs = .ok pairs) :
    pairs.map Prod.fst = refs := by
  induction refs generalizing pairs with
  | nil =>
      cases h
      rfl
  | cons ref rest ih =>
      unfold resolveRefs at h
      cases hvalue : provider ref with
      | error failure => simp [hvalue] at h
      | ok value =>
          cases hrest : resolveRefs provider rest with
          | error failure => simp [hvalue, hrest] at h
          | ok others =>
              simp only [hvalue, hrest, Except.ok.injEq] at h
              rw [← h, List.map_cons, ih hrest]

/-- The resolved mapping has exactly the collected references. -/
theorem keys_resolveSecrets {spec : PipelineSpec} {provider : SecretsProvider}
    {secrets : OrderedDict String PyText} (h : resolveSecrets spec provider = .ok secrets)
    (ref : String) : ref ∈ secrets.keys ↔ ref ∈ collectSecretRefs spec := by
  unfold resolveSecrets at h
  cases hpairs : resolveRefs provider (collectSecretRefs spec) with
  | error failure =>
      rw [hpairs] at h
      cases h
  | ok pairs =>
      rw [hpairs] at h
      cases h
      rw [OrderedDict.mem_keys_ofList, map_fst_resolveRefs hpairs]

end EtlTool
