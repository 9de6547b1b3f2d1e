import EtlTool.Core.Secrets
import EtlTool.Engine.Samples

/-!
# Secrets that nodes ask for

The host collects the secret references of a document from the raw configs and gives the
run exactly these secrets, while a node asks for the reference that its config has after
resolution.  The two agree as long as the reference is written out where the node reads it.

Main results:

- Theorem {lit}`mem_collectRefsFromFields_iff`: the collection finds exactly the strings
  written under {lit}`secret_ref` at any depth.
- Theorem {lit}`refAt_resolveFields`: a reference that is written out survives resolution.
- Theorem {lit}`secretsProvided_iff`: no node of a run lacks a secret exactly if every
  reference for which a node asks is written in some config.
- Theorem {lit}`secretsProvided_of_spells`: so it is if every node that asks for a secret has
  its own reference written out.
- Theorem {lit}`secret_not_provided`: a run that lacks a secret.

Current gaps:

- The other fields of the configs that have a reference in them.
-/

namespace EtlTool

/-! ## What a collection finds -/

mutual

/-- The string stands under {lit}`secret_ref` somewhere inside the value. -/
def Value.WritesRef (ref : String) : Value → Prop
  | .list items => WritesRefItems ref items
  | .dict fields => WritesRefFields ref fields
  | _ => False

/-- The string stands under {lit}`secret_ref` somewhere inside the items. -/
def Value.WritesRefItems (ref : String) : List Value → Prop
  | [] => False
  | item :: rest => item.WritesRef ref ∨ WritesRefItems ref rest

/-- The string stands under {lit}`secret_ref` here or inside one of the values. -/
def Value.WritesRefFields (ref : String) : List (String × Value) → Prop
  | [] => False
  | (key, child) :: rest =>
      (key = "secret_ref" ∧ child = .str ref) ∨ child.WritesRef ref ∨ WritesRefFields ref rest

end

private theorem collectRefsFromFields_of_ne {key : String} {child : Value} {rest : Fields}
    (h : ∀ text, child ≠ .str text) : collectRefsFromFields ((key, child) :: rest) =
      collectRefsFromConfig child ++ collectRefsFromFields rest := by
  cases child with
  | str text => exact absurd rfl (h text)
  | _ => rfl

mutual

private theorem mem_collectRefsFromConfig_iff (ref : String) : ∀ v : Value,
    ref ∈ collectRefsFromConfig v ↔ v.WritesRef ref
  | .list items => mem_collectRefsFromItems_iff ref items
  | .dict fields => mem_collectRefsFromFields_iff ref fields
  | .none => by simp [collectRefsFromConfig, Value.WritesRef]
  | .bool _ => by simp [collectRefsFromConfig, Value.WritesRef]
  | .int _ => by simp [collectRefsFromConfig, Value.WritesRef]
  | .float _ => by simp [collectRefsFromConfig, Value.WritesRef]
  | .str _ => by simp [collectRefsFromConfig, Value.WritesRef]
  | .foreign _ _ _ => by simp [collectRefsFromConfig, Value.WritesRef]

private theorem mem_collectRefsFromItems_iff (ref : String) : ∀ items : List Value,
    ref ∈ collectRefsFromItems items ↔ Value.WritesRefItems ref items
  | [] => by simp [collectRefsFromItems, Value.WritesRefItems]
  | item :: rest => by
      rw [collectRefsFromItems, List.mem_append, mem_collectRefsFromConfig_iff ref item,
        mem_collectRefsFromItems_iff ref rest, Value.WritesRefItems]

/-- The collection finds exactly the strings under {lit}`secret_ref`. -/
theorem mem_collectRefsFromFields_iff (ref : String) : ∀ fields : List (String × Value),
    ref ∈ collectRefsFromFields fields ↔ Value.WritesRefFields ref fields
  | [] => by simp [collectRefsFromFields, Value.WritesRefFields]
  | (key, child) :: rest => by
      have hchild := mem_collectRefsFromConfig_iff ref child
      have hrest := mem_collectRefsFromFields_iff ref rest
      by_cases htext : ∃ text, child = .str text
      · rcases htext with ⟨text, rfl⟩
        have hinside : ¬ (Value.str text).WritesRef ref := id
        by_cases hkey : key = "secret_ref"
        · simp [collectRefsFromFields, Value.WritesRefFields, hkey, hinside, hrest,
            eq_comm (a := ref)]
        · simp [collectRefsFromFields, Value.WritesRefFields, hkey, hinside, hrest]
      · have hne : child ≠ .str ref := fun heq => htext ⟨ref, heq⟩
        rw [collectRefsFromFields_of_ne fun text heq => htext ⟨text, heq⟩]
        simp [Value.WritesRefFields, hchild, hrest, hne]

end

private theorem mem_collectSecretRefs_iff {spec : PipelineSpec} {ref : String} :
    ref ∈ collectSecretRefs spec ↔
      ∃ node ∈ spec.nodes, Value.WritesRefFields ref node.config := by
  simp [collectSecretRefs, mem_collectRefsFromFields_iff]

/-! ## What a node asks for -/

/-- The keys that lead to the reference in the config of a node type. -/
def secretPath? (type : String) : Option (List String) :=
  if type = "api_source" then some ["auth", "secret_ref"]
  else if type = "db_source" ∨ type = "db_sink" then some ["connection", "secret_ref"]
  else if type = "decrypt" then some ["secret_ref"]
  else none

/-- The string to which the keys lead through nested objects. -/
def refAt : List String → Fields → Option String
  | [], _ => none
  | [key], config =>
      match config.lookup key with
      | some (.str ref) => some ref
      | _ => none
  | key :: rest, config =>
      match config.lookup key with
      | some (.dict inner) => refAt rest inner
      | _ => none

/-- The reference for which a node asks, from its resolved config.  A database connection
with an empty reference has no password. -/
def requestedSecret? (type : String) (config : Fields) : Option String :=
  ((secretPath? type).bind fun path => refAt path config).filter fun ref =>
    !(ref == "" && (type == "db_source" || type == "db_sink"))

private theorem getSecret_ok_iff {rt : Runtime} {ctx : NodeContext} {ref : String} :
    (∃ value, ctx.getSecret rt ref = .ok value) ↔ ref ∈ ctx.run.secrets.keys := by
  rw [← OrderedDict.get?_isSome_iff, NodeContext.getSecret]
  cases ctx.run.secrets.get? ref <;> simp

/-- The secret for which a node asks once it has its config: its references resolve and
its class accepts the result. -/
def Engine.requestedSecret? (en : Engine) (spec : PipelineSpec) (place : Place) (id : String)
    (view : View) : Option String :=
  match spec.node? id with
  | none => none
  | some node =>
      match en.registry.get? node.type with
      | none => none
      | some cls =>
          match en.runtime.resolveFields (PipelineRun.referenceContext view place.iter?)
              node.config with
          | .error _ => none
          | .ok resolved =>
              match cls.modelValidate resolved with
              | .error _ => none
              | .ok _ => EtlTool.requestedSecret? node.type resolved

/-- No call of {lit}`get_secret` in a run fails: of every node that is started, whatever
it asks for is provided. -/
def SecretsProvided (en : Engine) (spec : PipelineSpec) (secrets : OrderedDict String PyText)
    (trace : List Event) : Prop :=
  ∀ place id view, .started place id view ∈ trace →
    ∀ ref, en.requestedSecret? spec place id view = some ref →
      ∀ ctx : NodeContext, ctx.run.secrets = secrets →
        ∃ value, ctx.getSecret en.runtime ref = .ok value

/-- The raw config of a node writes out the reference that the node reads. -/
def NodeSpec.SpellsRef (node : NodeSpec) : Prop :=
  ∃ ref, requestedSecret? node.type node.config = some ref ∧ PlainText ref

/-! ## References that are written out -/

theorem refAt_resolveFields {rt : Runtime} {ctx : ReferenceContext} {ref : String}
    (hplain : PlainText ref) : ∀ (path : List String) {config resolved : Fields},
      refAt path config = some ref → rt.resolveFields ctx config = .ok resolved →
        refAt path resolved = some ref
  | [], _, _, h, _ => nomatch h
  | [key], config, resolved, h, hresolve => by
      have hlookup := lookup_resolveFields hresolve key
      rw [refAt] at h ⊢
      cases hvalue : config.lookup key with
      | none => simp [hvalue] at h
      | some value =>
          rw [hvalue] at h hlookup
          rcases hlookup with ⟨value', hconfig, hfound⟩
          cases value with
          | str text =>
              cases h
              rw [Runtime.resolveConfig, resolveString_plain rt ctx hplain] at hconfig
              cases hconfig
              rw [hfound]
          | _ => simp at h
  | key :: next :: rest, config, resolved, h, hresolve => by
      have hlookup := lookup_resolveFields hresolve key
      rw [refAt] at h ⊢
      · cases hvalue : config.lookup key with
        | none => simp [hvalue] at h
        | some value =>
            rw [hvalue] at h hlookup
            rcases hlookup with ⟨value', hconfig, hfound⟩
            cases value with
            | dict inner =>
                rw [Runtime.resolveConfig] at hconfig
                cases hinner : rt.resolveFields ctx inner with
                | error e => simp [hinner] at hconfig
                | ok inner' =>
                    simp only [hinner, Except.ok.injEq] at hconfig
                    subst hconfig
                    rw [hfound]
                    exact refAt_resolveFields hplain (next :: rest) h hinner
            | _ => simp at h
      · exact List.cons_ne_nil next rest
      · exact List.cons_ne_nil next rest

private theorem writesRefFields_of_lookup {ref key : String} {config : Fields} {value : Value}
    (hlookup : config.lookup key = some value)
    (h : (key = "secret_ref" ∧ value = .str ref) ∨ value.WritesRef ref) :
    Value.WritesRefFields ref config := by
  induction config with
  | nil => cases hlookup
  | cons field rest ih =>
      rcases field with ⟨name, child⟩
      rw [List.lookup_cons] at hlookup
      split at hlookup
      · rename_i hname
        cases hlookup
        rw [← beq_iff_eq.mp hname]
        exact h.elim Or.inl fun hinside => Or.inr (Or.inl hinside)
      · exact Or.inr (Or.inr (ih hlookup))

/-- A reference at the end of a path to {lit}`secret_ref` is collected. -/
theorem writesRef_of_refAt {ref : String} : ∀ (path : List String) {config : Fields},
    refAt (path ++ ["secret_ref"]) config = some ref → Value.WritesRefFields ref config
  | [], config, h => by
      rw [List.nil_append, refAt] at h
      cases hvalue : config.lookup "secret_ref" with
      | none => simp [hvalue] at h
      | some value =>
          rw [hvalue] at h
          cases value with
          | str text =>
              cases h
              exact writesRefFields_of_lookup hvalue (Or.inl ⟨rfl, rfl⟩)
          | _ => simp at h
  | key :: rest, config, h => by
      rw [List.cons_append, refAt] at h
      · cases hvalue : config.lookup key with
        | none => simp [hvalue] at h
        | some value =>
            rw [hvalue] at h
            cases value with
            | dict inner =>
                exact writesRefFields_of_lookup hvalue (Or.inr (writesRef_of_refAt rest h))
            | _ => simp at h
      · simp

private theorem secretPath?_eq {type : String} {path : List String}
    (h : secretPath? type = some path) :
    ∃ outer, path = outer ++ ["secret_ref"] := by
  unfold secretPath? at h
  split at h
  · exact ⟨["auth"], (Option.some.inj h).symm⟩
  split at h
  · exact ⟨["connection"], (Option.some.inj h).symm⟩
  split at h
  · exact ⟨[], (Option.some.inj h).symm⟩
  · cases h

/-- A reference that the raw config of a node writes out is collected. -/
theorem writesRef_of_requested {type ref : String} {config : Fields}
    (h : requestedSecret? type config = some ref) : Value.WritesRefFields ref config := by
  rcases Option.filter_eq_some_iff.mp h with ⟨hbind, _⟩
  rcases Option.bind_eq_some_iff.mp hbind with ⟨path, hpath, href⟩
  rcases secretPath?_eq hpath with ⟨outer, rfl⟩
  exact writesRef_of_refAt outer href

/-- A node asks for the reference that its raw config writes out. -/
theorem requestedSecret?_resolve {rt : Runtime} {ctx : ReferenceContext} {type ref : String}
    {config resolved : Fields} (h : requestedSecret? type config = some ref)
    (hplain : PlainText ref) (hresolve : rt.resolveFields ctx config = .ok resolved) :
    requestedSecret? type resolved = some ref := by
  rcases Option.filter_eq_some_iff.mp h with ⟨hbind, hused⟩
  rcases Option.bind_eq_some_iff.mp hbind with ⟨path, hpath, href⟩
  refine Option.filter_eq_some_iff.mpr ⟨Option.bind_eq_some_iff.mpr ⟨path, hpath, ?_⟩, hused⟩
  exact refAt_resolveFields hplain path href hresolve

/-! ## Runs -/

section

variable {en : Engine} {spec : PipelineSpec}

/-- A node that writes its reference out asks for it, if it asks at all. -/
theorem requestedSecret?_of_spells {place : Place} {id ref : String} {view : View}
    {node : NodeSpec} (hnode : spec.node? id = some node) (hspells : node.SpellsRef)
    (h : en.requestedSecret? spec place id view = some ref) :
    Value.WritesRefFields ref node.config := by
  rcases hspells with ⟨spelled, hspelled, hplain⟩
  unfold Engine.requestedSecret? at h
  simp only [hnode] at h
  split at h
  · cases h
  split at h
  · cases h
  · rename_i resolved hresolve
    split at h
    · cases h
    · rw [requestedSecret?_resolve hspelled hplain hresolve] at h
      cases h
      exact writesRef_of_requested hspelled

/-- The run of a document with these secrets has a context in which nodes ask. -/
theorem exists_context_of_started {schedule : String → List FanOut.Choice}
    {secrets : OrderedDict String PyText} {options : ExecutionOptions} {event : Event}
    (h : event ∈ (en.executePipeline schedule spec secrets options).trace) :
    ∃ ctx : NodeContext, ctx.run.secrets = secrets := by
  rcases executePipeline_cases en schedule spec secrets options with
    ⟨_, heq⟩ | ⟨_, topo, _, ⟨exc, _, heq⟩ | ⟨redactor, _, heq⟩⟩
  · rw [heq] at h
    cases h
  · rw [heq] at h
    cases h
  · exact ⟨⟨⟨secrets, options, redactor⟩, "", "", none⟩, rfl⟩

/-- In a run with the collected secrets no node lacks a secret exactly if every reference for
which a started node asks is written in some config of the document. -/
theorem secretsProvided_iff {provider : SecretsProvider} {secrets : OrderedDict String PyText}
    (hsecrets : resolveSecrets spec provider = .ok secrets)
    (schedule : String → List FanOut.Choice) (options : ExecutionOptions) :
    SecretsProvided en spec secrets
        (en.executePipeline schedule spec secrets options).trace ↔
      ∀ place id view,
        .started place id view ∈ (en.executePipeline schedule spec secrets options).trace →
          ∀ ref, en.requestedSecret? spec place id view = some ref →
            ∃ other ∈ spec.nodes, Value.WritesRefFields ref other.config := by
  have hkeys : ∀ ref, ref ∈ secrets.keys ↔
      ∃ other ∈ spec.nodes, Value.WritesRefFields ref other.config := fun ref => by
    rw [keys_resolveSecrets hsecrets, mem_collectSecretRefs_iff]
  constructor
  · intro h place id view hstarted ref href
    rcases exists_context_of_started hstarted with ⟨ctx, hctx⟩
    have hprovided := getSecret_ok_iff.mp (h place id view hstarted ref href ctx hctx)
    rw [hctx] at hprovided
    exact (hkeys ref).mp hprovided
  · intro h place id view hstarted ref href ctx hctx
    rw [getSecret_ok_iff, hctx, hkeys]
    exact h place id view hstarted ref href

/-- In every run with the collected secrets in which each node that asks for one writes its
reference out, no node lacks a secret. -/
theorem secretsProvided_of_spells {provider : SecretsProvider}
    {secrets : OrderedDict String PyText}
    (hsecrets : resolveSecrets spec provider = .ok secrets)
    (schedule : String → List FanOut.Choice) (options : ExecutionOptions)
    (hspells : ∀ place id view,
      .started place id view ∈ (en.executePipeline schedule spec secrets options).trace →
        ∀ ref, en.requestedSecret? spec place id view = some ref →
          ∀ node, spec.node? id = some node → node.SpellsRef) :
    SecretsProvided en spec secrets
      (en.executePipeline schedule spec secrets options).trace := by
  rw [secretsProvided_iff hsecrets]
  intro place id view hstarted ref href
  cases hnode : spec.node? id with
  | none => simp [Engine.requestedSecret?, hnode] at href
  | some node =>
      have hwritten := hspells place id view hstarted ref href node hnode
      exact ⟨node, (PipelineSpec.node?_mem hnode).1,
        requestedSecret?_of_spells hnode hwritten href⟩

end

/-! ## Two runs -/

namespace SecretSamples

open Samples

/-- A node that asks for the secret of its config and returns nothing. -/
def asking (type : String) : NodeClass where
  Config := Option String
  inputPorts := ["in"]
  outputPorts := ["out"]
  allowMultiInput := false
  modelValidate := fun config => .ok (requestedSecret? type config)
  requiredInputPorts := fun _ => []
  checkSpec := fun _ _ => []
  run := fun ref _ ctx =>
    match ref.map (ctx.getSecret runtime) with
    | some (.error raised) => .error raised
    | _ => .ok (.singleton "out" [])
  fanOut := none
  run_outputs := by
    intro _ _ _ outputs hrun port hport
    split at hrun
    · cases hrun
    · cases hrun
      simpa [OrderedDict.contains_iff] using hport
  fanOut_ports := nofun

/-- The record of a file that holds credentials. -/
def credentials : NodeClass :=
  dataNode [] fun _ _ =>
    .ok [[("auth", .dict [("type", .str "bearer"), ("secret_ref", .str "token")])]]

/-- An engine with these classes. -/
def engine : Engine where
  runtime := runtime
  registry := {
    entries := [("api_source", asking "api_source"), ("file_source", credentials)]
    nodup_keys := by simp }

/-- A source whose credentials come from another node. -/
def referenced : PipelineSpec :=
  document
    [node "creds" "file_source" [],
      node "api" "api_source"
        [("url", .str "https://example.com"), ("auth", .str "$upstream.creds.auth")]]
    [edge "creds" "api"]

/-- A source with its own credentials. -/
def spelled : PipelineSpec :=
  document
    [node "api" "api_source"
      [("url", .str "https://example.com"),
        ("auth", .dict [("type", .str "bearer"), ("secret_ref", .str "token")])]]
    []

/-- A provider of one secret. -/
def provider : SecretsProvider := fun ref =>
  if ref = "token" then .ok (PyText.ofString "s3cret") else .error (.notFound ref)

/-- The secrets for which the started nodes ask. -/
def requests (en : Engine) (spec : PipelineSpec) (trace : List Event) : List String :=
  trace.filterMap fun event =>
    match event with
    | .started place id view => en.requestedSecret? spec place id view
    | _ => none

end SecretSamples

open SecretSamples

theorem secretsProvided_of_spells_token :
    SecretsProvided engine spelled (.singleton "token" (PyText.ofString "s3cret"))
      (engine.executePipeline (fun _ => []) spelled
        (.singleton "token" (PyText.ofString "s3cret")) (Samples.options false)).trace := by
  have hrefs : collectSecretRefs spelled = ["token"] := by
    simp [collectSecretRefs, spelled, Samples.document, Samples.node, collectRefsFromFields,
      collectRefsFromConfig]
  have hsecrets : resolveSecrets spelled provider =
      .ok (.singleton "token" (PyText.ofString "s3cret")) := by
    rw [resolveSecrets, hrefs]
    rfl
  apply secretsProvided_of_spells hsecrets
  intro place id view _ ref _ node hnode
  have hmem := (PipelineSpec.node?_mem hnode).1
  simp only [spelled, Samples.document, List.mem_singleton] at hmem
  rw [hmem]
  exact ⟨"token", by decide +kernel, by decide +kernel⟩

/-- The collection finds nothing in the config, so that the run has no secrets, but the
node gets its credentials through a reference and asks for one. -/
theorem secret_not_provided :
    engine.validatePipeline referenced = [] ∧
      resolveSecrets referenced provider = .ok .empty ∧
      ¬ SecretsProvided engine referenced .empty
        (engine.executePipeline (fun _ => []) referenced .empty (Samples.options false)).trace := by
  have hrefs : collectSecretRefs referenced = [] := by
    simp [collectSecretRefs, referenced, Samples.document, Samples.node, collectRefsFromFields]
  refine ⟨by decide +kernel, by rw [resolveSecrets, hrefs]; rfl, fun h => ?_⟩
  have hrequests : requests engine referenced
      (engine.executePipeline (fun _ => []) referenced .empty (Samples.options false)).trace =
        ["token"] := by
    decide +kernel
  have hmem := List.mem_singleton_self "token"
  rw [← hrequests, requests, List.mem_filterMap] at hmem
  rcases hmem with ⟨event, hevent, href⟩
  cases event with
  | started place id view =>
      rcases exists_context_of_started hevent with ⟨ctx, hctx⟩
      have hprovided := getSecret_ok_iff.mp (h place id view hevent "token" href ctx hctx)
      rw [hctx] at hprovided
      cases hprovided
  | _ => cases href

end EtlTool
