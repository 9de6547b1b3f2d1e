import EtlTool.Core.FileIo
import EtlTool.Engine.Samples

/-!
# Reading the first records

A limit on the number of records that are read from a file.  A JSON file is parsed and its
records are cut.  A file of JSON lines is left as soon as enough records are there, which
is asked after a record only: the first record is read whatever the limit.

Main results:

- Theorem {lit}`readJson_limit`: a JSON file gives the first records.
- Theorem {lit}`readJsonl_limit`: a file of JSON lines gives the first records, but one at
  least.
- Theorem {lit}`readRecords_limit_iff`: a limit gives the first records unless it is zero, the
  file holds JSON lines and there is a record.
-/

namespace EtlTool

section

variable {rt : Runtime} {libs : FileLibraries} {path : String}

/-! ## JSON -/

theorem readJson_limit {recordsPath : Option String} {content : Content} {records : Records}
    (h : readJson rt libs path recordsPath none content = .ok records) (limit : Nat) :
    readJson rt libs path recordsPath (some limit) content = .ok (records.take limit) := by
  unfold readJson at h ⊢
  cases hload : loadFile libs content with
  | error exc =>
      rw [hload] at h
      dsimp only at h
      split at h <;> cases h
  | ok data =>
      rw [hload] at h
      dsimp only at h ⊢
      cases hselect : selectRecords rt path recordsPath data with
      | error failure =>
          rw [hselect] at h
          cases h
      | ok data' =>
          rw [hselect] at h
          cases h
          rfl

/-! ## JSON lines -/

/-- The loop keeps the records that it has read. -/
theorem prefix_of_readJsonLines {lineNo : Nat} {before records : Records}
    {lines : List (List Char)}
    (h : readJsonLines libs path none lineNo before lines = .ok records) : before <+: records := by
  induction lines generalizing lineNo before with
  | nil =>
      cases h
      exact List.prefix_rfl
  | cons line rest ih =>
      rw [readJsonLines] at h
      dsimp only at h
      split at h
      · exact ih h
      · split at h
        · split at h <;> cases h
        · rename_i item _
          rw [Option.any_none, if_neg Bool.false_ne_true] at h
          exact (List.prefix_append before [coerceItem item]).trans (ih h)

/-- With a limit the loop stops at the same record, but never before the first one. -/
theorem readJsonLines_limit {limit lineNo : Nat} {before records : Records}
    {lines : List (List Char)}
    (h : readJsonLines libs path none lineNo before lines = .ok records)
    (hleft : before.length < max limit 1) :
    readJsonLines libs path (some limit) lineNo before lines =
      .ok (records.take (max limit 1)) := by
  induction lines generalizing lineNo before with
  | nil =>
      cases h
      rw [readJsonLines, List.take_of_length_le hleft.le]
  | cons line rest ih =>
      rw [readJsonLines] at h ⊢
      dsimp only at h ⊢
      by_cases hblank : pyStrip line = []
      · rw [if_pos hblank] at h ⊢
        exact ih h hleft
      · rw [if_neg hblank] at h ⊢
        cases hload : libs.loads (String.ofList (pyStrip line)) with
        | error exc =>
            rw [hload] at h
            dsimp only at h
            split at h <;> cases h
        | ok item =>
            rw [hload] at h
            dsimp only at h ⊢
            rw [Option.any_none, if_neg Bool.false_ne_true] at h
            have hlength : (before ++ [coerceItem item]).length = before.length + 1 := by
              rw [List.length_append, List.length_singleton]
            rw [Option.any_some]
            by_cases hreached : limit ≤ (before ++ [coerceItem item]).length
            · -- the last record that the limit leaves room for
              rw [if_pos (decide_eq_true hreached)]
              have hsize : max limit 1 = (before ++ [coerceItem item]).length := by
                omega
              rw [hsize, List.prefix_iff_eq_take.mp (prefix_of_readJsonLines h)]
              simp
            · rw [if_neg (by simpa using hreached)]
              exact ih h (by omega)

theorem readJsonl_limit {content : Content} {records : Records}
    (h : readJsonl libs path none content = .ok records) (limit : Nat) :
    readJsonl libs path (some limit) content = .ok (records.take (max limit 1)) := by
  unfold readJsonl at h ⊢
  cases content with
  | text text =>
      refine readJsonLines_limit h ?_
      rw [List.length_nil]
      omega
  | binary bytes => cases h

end

/-! ## Both formats -/

/-- A limit gives the first records exactly in a JSON file, for a positive limit, or if there
is no record. -/
theorem readRecords_limit_iff (rt : Runtime) (libs : FileLibraries) (path : String)
    (fmt : FileFormat) (hfmt : fmt = .json ∨ fmt = .jsonl) (options : ReadOptions)
    (hlimit : options.limit = none) (file : Option Content) (records : Records)
    (h : readRecords rt libs path fmt options file = .ok records) (limit : Nat) :
    readRecords rt libs path fmt { options with limit := some limit } file =
        .ok (records.take limit) ↔
      fmt = .json ∨ 0 < limit ∨ records = [] := by
  cases file with
  | none => cases h
  | some content =>
      rcases hfmt with rfl | rfl
      · rw [readRecords] at h ⊢
        dsimp only at h ⊢
        rw [hlimit] at h
        rw [readJson_limit h limit]
        simp
      · rw [readRecords] at h ⊢
        dsimp only at h ⊢
        rw [hlimit] at h
        rw [readJsonl_limit h limit, Except.ok.injEq]
        by_cases hpos : 0 < limit
        · rw [max_eq_left (by omega)]
          simp [hpos]
        · have hzero : limit = 0 := by omega
          subst hzero
          cases records with
          | nil => simp
          | cons record rest => simp

namespace Samples

/-- Two lines, and a JSON module that reads them. -/
def twoLines : Option Content :=
  some (.text "[1]\n[2]\n")

/-- JSON text of the lines. -/
def lineJson : FileLibraries where
  dumps := fun _ _ => .error intConversionError
  loads := fun text =>
    if text = "[1]" then .ok (.list [.int 1])
    else if text = "[2]" then .ok (.list [.int 2])
    else .error ⟨"JSONDecodeError", some "Expecting value"⟩
  readCsv := fun _ _ _ _ _ => .error intConversionError
  readParquet := fun _ _ => .error intConversionError
  dataFrame := fun _ => .error intConversionError
  writeCsv := fun _ _ _ => .error intConversionError
  writeParquet := fun _ => .error intConversionError

private theorem readRecords_twoLines :
    readRecords runtime lineJson "data.jsonl" .jsonl {} twoLines =
      .ok [[("value", .list [.int 1])], [("value", .list [.int 2])]] := by
  decide +kernel

end Samples

open Samples

theorem readRecords_limit_one :
    readRecords runtime lineJson "data.jsonl" .jsonl { limit := some 1 } twoLines =
      .ok [[("value", .list [.int 1])]] :=
  (readRecords_limit_iff runtime lineJson "data.jsonl" .jsonl (Or.inr rfl) {} rfl twoLines _
    readRecords_twoLines 1).mpr (Or.inr (Or.inl Nat.one_pos))

/-- A limit of zero gives the first line. -/
theorem limit_zero_reads_record :
    ¬ ∀ (rt : Runtime) (libs : FileLibraries) (path : String) (fmt : FileFormat),
      fmt = .json ∨ fmt = .jsonl → ∀ (options : ReadOptions), options.limit = none →
        ∀ (file : Option Content) (records : Records),
          readRecords rt libs path fmt options file = .ok records → ∀ limit : Nat,
            readRecords rt libs path fmt { options with limit := some limit } file =
              .ok (records.take limit) := by
  intro h
  have hzero := h runtime lineJson "data.jsonl" .jsonl (Or.inr rfl) {} rfl twoLines _
    readRecords_twoLines 0
  have hone : readRecords runtime lineJson "data.jsonl" .jsonl { limit := some 0 } twoLines =
      .ok [[("value", .list [.int 1])]] := by
    decide +kernel
  rw [hone] at hzero
  cases hzero

end EtlTool
