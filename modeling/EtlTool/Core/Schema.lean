import EtlTool.Core.Redactor
import EtlTool.Foundations.OrderedDict

/-!
# Pipeline documents and structured errors

The pipeline graph as a document (nodes with a type and a raw config, edges
between ports), the issues static validation reports about it, and the
structured errors of a run.  What the document models check on construction is
a field of the structure: a node id matches its pattern, and type names and
pipeline ids are not empty.

Main results:

- Theorem {lit}`splitPath_head?_of_target`: the text before the first dot of a
  reference path, when it is a node id, is the first segment of the path.

Current gaps:

- Timestamps of errors.
-/

namespace EtlTool

/-! ## Documents -/

/-- {lit}`NODE_ID_PATTERN`: a letter or underscore, then letters, digits,
underscores and hyphens. -/
def matchesNodeIdPattern (id : String) : Bool :=
  match id.toList with
  | [] => false
  | c :: rest => (c.isAlpha || c = '_') && rest.all fun d => d.isAlphanum || d = '_' || d = '-'

/-- {lit}`NodeSpec`. -/
structure NodeSpec where
  id : String
  type : String
  config : Fields
  id_pattern : matchesNodeIdPattern id = true
  type_nonempty : type ≠ ""
deriving DecidableEq

/-- {lit}`EdgeSpec`. -/
structure EdgeSpec where
  fromNode : String
  fromPort : String
  toNode : String
  toPort : String
deriving DecidableEq

/-- {lit}`PipelineSpec`. -/
structure PipelineSpec where
  pipelineId : String
  nodes : List NodeSpec
  edges : List EdgeSpec
  pipelineId_nonempty : pipelineId ≠ ""
deriving DecidableEq

/-- {lit}`ValidationIssue`. -/
structure ValidationIssue where
  nodeId : Option String
  message : String
deriving DecidableEq

/-! ## Errors -/

/-- {lit}`ErrorCategory`. -/
inductive ErrorCategory where
  | dns
  | network
  | tls
  | timeout
  | httpStatus
  | auth
  | rateLimit
  | validation
  | transform
  | decryption
  | config
  | unknown
deriving DecidableEq

/-- {lit}`NodeError`. -/
structure NodeError where
  nodeId : String
  nodeType : String
  category : ErrorCategory
  message : String
  httpStatus : Option Int
  requestSummary : Option String
  attempts : Int
  details : Option Fields
deriving DecidableEq

/-- What a node's execution raises: a {lit}`NodeExecutionError` with its
structured error, or any other exception. -/
inductive Raised where
  | node (error : NodeError)
  | other (exc : PyException)
deriving DecidableEq

/-! ## Node ids in references -/

/-- The text of a reference path before its first dot. -/
def referenceTarget (path : String) : String :=
  String.ofList (path.toList.takeWhile (· ≠ '.'))

theorem ne_empty_of_matchesNodeIdPattern {id : String} (h : matchesNodeIdPattern id = true) :
    id ≠ "" := by
  rintro rfl
  simp [matchesNodeIdPattern] at h

/-- Splitting a text at a separator starts with what precedes it. -/
theorem splitOn_eq_takeWhile_cons (sep : Char) (text : List Char) :
    ∃ rest, text.splitOn sep = text.takeWhile (· ≠ sep) :: rest := by
  unfold List.splitOn
  induction text with
  | nil => exact ⟨[], rfl⟩
  | cons c text ih =>
      rw [List.splitOnP_cons_eq_if_modifyHead]
      rcases ih with ⟨rest, hrest⟩
      by_cases hc : c = sep
      · simp [hc]
      · exact ⟨rest, by simp [hc, hrest]⟩

/-- A nonempty text before the first dot is the first segment of the path. -/
theorem splitPath_head?_of_target {path : String} (h : referenceTarget path ≠ "") :
    (splitPath path).head? = some (referenceTarget path) := by
  rcases splitOn_eq_takeWhile_cons '.' path.toList with ⟨rest, hrest⟩
  unfold splitPath
  rw [hrest, List.map_cons, List.filter_cons_of_pos (by simpa [referenceTarget] using h)]
  rfl

end EtlTool
