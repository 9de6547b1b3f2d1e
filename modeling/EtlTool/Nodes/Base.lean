import EtlTool.Core.Schema

/-!
# Node classes

The plugin interface through which the engine sees every node type: ports,
config validation, static checks and the run itself.  A control-flow class
additionally computes a value set and says how its scope is fanned in.

Configs are validated by models of a third-party library, so a node class takes
its validation as a function from raw configs to configs or issues.

Current gaps:

- Log events emitted by a running node.
- The SSRF and file policies of the options, which only concrete nodes read.
-/

namespace EtlTool

/-- A list of records. -/
abbrev Records := List Fields

/-- {lit}`NodeInputs`: for every input port the record streams of its edges. -/
abbrev NodeInputs := OrderedDict String (List Records)

/-- {lit}`NodeOutputs`: the records of every output port. -/
abbrev NodeOutputs := OrderedDict String Records

/-- {lit}`_primary`: the records that references and terminal outputs show. -/
def primary (outputs : NodeOutputs) : Records :=
  match outputs.get? "out" with
  | some records => records
  | none => outputs.values.headD []

/-! ## Contexts -/

/-- {lit}`ExecutionOptions`. -/
structure ExecutionOptions where
  maxConcurrency : Nat
  continueOnError : Bool
  maxConcurrency_pos : 1 ≤ maxConcurrency
deriving DecidableEq

/-- {lit}`RunContext`. -/
structure RunContext where
  secrets : OrderedDict String PyText
  options : ExecutionOptions
  redactor : Redactor

/-- {lit}`NodeContext`: the view of the run that one node execution gets. -/
structure NodeContext where
  run : RunContext
  nodeId : String
  nodeType : String
  iterCtx : Option IterContext

/-- {lit}`NodeContext.error(category, message)`: a structured, redacted error. -/
def NodeContext.error (ctx : NodeContext) (category : ErrorCategory) (message : String) :
    NodeError where
  nodeId := ctx.nodeId
  nodeType := ctx.nodeType
  category := category
  message := ctx.run.redactor.redact message
  httpStatus := none
  requestSummary := none
  attempts := 1
  details := none

/-- {lit}`NodeContext.get_secret`. -/
def NodeContext.getSecret (rt : Runtime) (ctx : NodeContext) (ref : String) :
    Except Raised PyText :=
  match ctx.run.secrets.get? ref with
  | some value => .ok value
  | none =>
      .error (.node (ctx.error .config
        ("secret " ++ rt.reprStr ref ++ " was not provided to this run")))

/-- The text of an exception. -/
def PyException.message (exc : PyException) : String :=
  exc.text.getD ""

/-! ## Config validation -/

/-- One entry of a {lit}`ValidationError`. -/
structure ConfigIssue where
  location : List String
  message : String
deriving DecidableEq

/-- {lit}`_format_validation_error`. -/
def formatValidationError (issues : List ConfigIssue) : String :=
  "invalid config: " ++ "; ".intercalate ((issues.take 5).map fun issue =>
    let location := ".".intercalate issue.location
    (if location = "" then "config" else location) ++ ": " ++ issue.message)

/-! ## Classes -/

/-- How an iterator combines the outputs of its iterations. -/
inductive FanIn where
  | concat
  | keyed
deriving DecidableEq

/-- What a class with {lit}`fan_out = True` adds for the engine. -/
structure FanOutMethods (Config : Type) where
  getValues : Config → NodeInputs → NodeContext → Except Raised (List Value)
  fanIn : Config → FanIn
  maxConcurrency : Config → Option Nat
  maxConcurrency_pos : ∀ config n, maxConcurrency config = some n → 1 ≤ n

/-- A node class.  A run that returns returns every declared output port, and a
control-flow class declares no port but {lit}`out`.  The checks of the ports can be given the
config of another class, which is {lean}`none` for them. -/
structure NodeClass where
  Config : Type
  inputPorts : List String
  outputPorts : List String
  allowMultiInput : Bool
  modelValidate : Fields → Except (List ConfigIssue) Config
  requiredInputPorts : Option Config → List String
  checkSpec : Option Config → OrderedDict String Nat → List String
  run : Config → NodeInputs → NodeContext → Except Raised NodeOutputs
  fanOut : Option (FanOutMethods Config)
  run_outputs : ∀ config inputs ctx outputs, run config inputs ctx = .ok outputs →
    ∀ port ∈ outputPorts, outputs.contains port = true
  fanOut_ports : fanOut.isSome = true → ∀ port ∈ outputPorts, port = "out"

/-- {lit}`NODE_REGISTRY`: the node classes by type name. -/
abbrev Registry := OrderedDict String NodeClass

/-- The engine: the interpreter it runs in and the node classes it knows. -/
structure Engine where
  runtime : Runtime
  registry : Registry

/-- Whether the engine fans out the nodes of a type. -/
def Engine.fansOut (en : Engine) (type : String) : Bool :=
  match en.registry.get? type with
  | none => false
  | some cls => cls.fanOut.isSome

end EtlTool
