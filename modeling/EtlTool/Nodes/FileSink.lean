import EtlTool.Core.FileIo
import EtlTool.Engine.Samples
import EtlTool.Foundations.Transactions

/-!
# Appending to one file

The iterations of an iterator write through one file sink.  Each of them appends in a
thread of its own: it reads the records that the file holds, and later writes them
again with its own records.  Nothing keeps another iteration from writing in between, so
its records are lost.  If no iteration reads while another one is between its read and
its rewrite, then all of them arrive.

Main results:

- Theorem {lit}`FileHolds.append`: one append adds its records.
- Theorem {lit}`appends_kept`: separated appends lose nothing, if the format reads back
  what it has written.
- Theorem {lit}`append_lost`: overlapping appends lose records.
-/

namespace EtlTool

open Interleaving Transactions

/-- {lit}`write_records` as the file sees it: the read of the records that are there, and
the rewrite. -/
def sinking (rt : Runtime) (libs : FileLibraries) (path : String) (fmt : FileFormat)
    (mode : WriteMode) (options : WriteOptions) :
    Protocol (Option Content) Records (Except FileFailure Records) where
  read := fun records file => combinedRecords rt libs path fmt mode records file
  work := fun _ => none
  commit := fun combined file =>
    match combined with
    | .error _ => file
    | .ok combined => (writeCombined libs fmt options combined file).1

variable {rt : Runtime} {libs : FileLibraries} {path : String} {fmt : FileFormat}
  {options : WriteOptions}

/-! ## One append -/

/-- An append that nobody interrupts adds its records. -/
theorem FileHolds.append {file file' : Option Content} {given records : Records}
    (hfile : FileHolds rt libs path fmt file given)
    (hreads : ReadsBack rt libs path fmt options (given ++ records))
    (hatomic : Atomic (sinking rt libs path fmt .append options) records file file') :
    FileHolds rt libs path fmt file' (given ++ records) := by
  rcases hatomic with ⟨loaded, hreach, _, rfl⟩
  have hloaded : combinedRecords rt libs path fmt .append records file = loaded := by
    rcases Relation.ReflTransGen.cases_head hreach with heq | ⟨next, hstep, _⟩
    · exact heq
    · cases hstep
  have hself : List.Forall₂ (Alike libs fmt) records records :=
    List.forall₂_same.mpr fun record _ => Alike.refl libs fmt record
  cases file with
  | none =>
      have hgiven : given = [] := hfile
      have hok : loaded = .ok records := hloaded.symm
      subst hgiven hok
      exact (hreads records none hself).2
  | some content =>
      rcases hfile with ⟨rows, hread, halike⟩
      have hok : loaded = .ok (rows ++ records) := by
        rw [← hloaded, combinedRecords, hread]
        rfl
      subst hok
      exact (hreads (rows ++ records) (some content) (List.rel_append halike hself)).2

/-- Appends that follow each other add the records of all of them. -/
theorem FileHolds.serial {file file' : Option Content} {given : Records} {calls : List Records}
    (hfile : FileHolds rt libs path fmt file given)
    (hserial : Serial (sinking rt libs path fmt .append options) file calls file')
    (hreads : ∀ done, done <+: calls → done ≠ [] →
      ReadsBack rt libs path fmt options (given ++ done.flatten)) :
    FileHolds rt libs path fmt file' (given ++ calls.flatten) := by
  induction hserial with
  | nil => simpa using hfile
  | snoc requests request between store' _ hlast ih =>
      have hbefore := ih fun done hdone =>
        hreads done (hdone.trans (List.prefix_append requests [request]))
      have hall : given ++ (requests ++ [request]).flatten =
          (given ++ requests.flatten) ++ request := by
        simp
      rw [hall]
      refine hbefore.append ?_ hlast
      rw [← hall]
      exact hreads _ List.prefix_rfl (by simp)

/-! ## All appends -/

/-- If no append reads the file while another one is between its read and its rewrite,
and the format reads back what it has written, then after all of them the file holds the
records that were there and the records of every append, each of them once. -/
theorem appends_kept (rt : Runtime) (libs : FileLibraries) (path : String) (fmt : FileFormat)
    (options : WriteOptions) (file : Option Content) (given : Records)
    (hfile : FileHolds rt libs path fmt file given) (calls : List Records)
    (hreads : ∀ done : List Records, done.Subperm calls → done ≠ [] →
      ReadsBack rt libs path fmt options (given ++ done.flatten))
    (actions : List (Nat × Move))
    (s : System (Option Content) Records (Except FileFailure Records))
    (hapart : Guarded (Transactions.next (sinking rt libs path fmt .append options)) Apart
      (.initial file calls) actions)
    (hrun : exec (Transactions.next (sinking rt libs path fmt .append options))
      (.initial file calls) actions = some s)
    (hfinished : ∀ party ∈ s.parties, party.closedRequest?.isSome = true) :
    ∃ stored, stored.Perm (given ++ calls.flatten) ∧ FileHolds rt libs path fmt s.store stored := by
  have hinv := serial_of_apart hapart hrun
  have hperm := hinv.committed_perm hfinished
  refine ⟨given ++ s.committed.flatten, hperm.flatten.append_left given, ?_⟩
  refine hfile.serial hinv.serial fun done hdone hne => hreads done ?_ hne
  exact hdone.sublist.subperm.trans hperm.subperm

/-! ## Overlapping appends -/

namespace Samples

/-- A record with one field. -/
def numbered (i : Int) : Fields :=
  [("i", .int i)]

/-- JSON text of such records. -/
def numberedJson : FileLibraries where
  dumps := fun _ value =>
    if value = .dict (numbered 0) then .ok "\x7b\"i\": 0\x7d"
    else if value = .dict (numbered 1) then .ok "\x7b\"i\": 1\x7d"
    else if value = .dict (numbered 2) then .ok "\x7b\"i\": 2\x7d"
    else .error intConversionError
  loads := fun text =>
    if text = "\x7b\"i\": 0\x7d" then .ok (.dict (numbered 0))
    else if text = "\x7b\"i\": 1\x7d" then .ok (.dict (numbered 1))
    else if text = "\x7b\"i\": 2\x7d" then .ok (.dict (numbered 2))
    else .error ⟨"JSONDecodeError", some "Expecting value"⟩
  readCsv := fun _ _ _ _ _ => .error intConversionError
  readParquet := fun _ _ => .error intConversionError
  dataFrame := fun _ => .error intConversionError
  writeCsv := fun _ _ _ => .error intConversionError
  writeParquet := fun _ => .error intConversionError

/-- A file with one record. -/
def oneLine : Option Content :=
  some (.text "\x7b\"i\": 0\x7d\n")

/-- Two iterations. -/
def twoCalls : List Records :=
  [[numbered 1], [numbered 2]]

private theorem eq_numbered {row : Fields} {i : Int}
    (h : Alike numberedJson .jsonl row (numbered i)) :
    row = numbered i := by
  have hstored : Value.storedFields row = numbered i := h
  match row with
  | [] => cases hstored
  | (key, value) :: rest =>
      simp only [Value.storedFields, numbered, List.cons.injEq, Prod.mk.injEq] at hstored
      rcases hstored with ⟨⟨rfl, hvalue⟩, hrest⟩
      have hnil : rest = [] := by
        cases rest with
        | nil => rfl
        | cons field rest => cases hrest
      have hint : value = .int i := by
        cases value <;> simp_all [Value.stored]
      rw [hnil, hint]
      rfl

private theorem numbered_jsonLine {i : Int} (h : i = 0 ∨ i = 1 ∨ i = 2) :
    numberedJson.JsonLine (.dict (numbered i)) := by
  rcases h with rfl | rfl | rfl
  · exact ⟨_, rfl, rfl, by decide +kernel⟩
  · exact ⟨_, rfl, rfl, by decide +kernel⟩
  · exact ⟨_, rfl, rfl, by decide +kernel⟩

private theorem oneLine_holds :
    FileHolds runtime numberedJson "data.jsonl" .jsonl oneLine [numbered 0] :=
  ⟨[numbered 0], by decide +kernel, .cons rfl .nil⟩

end Samples

open Samples

theorem appends_kept_twoCalls :
    ∃ s, exec (Transactions.next (sinking runtime numberedJson "data.jsonl" .jsonl .append {}))
        (.initial oneLine twoCalls) [(1, .read), (1, .commit), (0, .read), (0, .commit)] = some s ∧
      s.store = some (.text "\x7b\"i\": 0\x7d\n\x7b\"i\": 2\x7d\n\x7b\"i\": 1\x7d\n") ∧
      ∃ stored, stored.Perm ([numbered 0] ++ twoCalls.flatten) ∧
        FileHolds runtime numberedJson "data.jsonl" .jsonl s.store stored := by
  have hcheck : (exec (Transactions.next (sinking runtime numberedJson "data.jsonl" .jsonl .append
      {})) (.initial oneLine twoCalls) [(1, .read), (1, .commit), (0, .read), (0, .commit)]).map
        (fun s => (s.store, s.parties.all fun party => party.closedRequest?.isSome)) =
      some (some (.text "\x7b\"i\": 0\x7d\n\x7b\"i\": 2\x7d\n\x7b\"i\": 1\x7d\n"), true) := by
    decide +kernel
  rcases Option.map_eq_some_iff.mp hcheck with ⟨s, hrun, heq⟩
  rw [Prod.mk.injEq, List.all_eq_true] at heq
  refine ⟨s, hrun, heq.1, appends_kept runtime numberedJson "data.jsonl" .jsonl {} oneLine
    [numbered 0] oneLine_holds twoCalls ?_ _ s (by decide +kernel) hrun heq.2⟩
  intro done hdone _
  refine readsBack_jsonl fun row ⟨record, hrecord, halike⟩ => ?_
  have hsub : ∀ records ∈ done, records = [numbered 1] ∨ records = [numbered 2] := by
    intro records hrecords
    simpa [twoCalls] using hdone.subset hrecords
  have hnumber : ∃ i, record = numbered i ∧ (i = 0 ∨ i = 1 ∨ i = 2) := by
    rcases List.mem_append.mp hrecord with hgiven | hcalls
    · exact ⟨0, List.mem_singleton.mp hgiven, Or.inl rfl⟩
    · rcases List.mem_flatten.mp hcalls with ⟨records, hrecords, hmem⟩
      rcases hsub records hrecords with rfl | rfl
      · exact ⟨1, List.mem_singleton.mp hmem, Or.inr (Or.inl rfl)⟩
      · exact ⟨2, List.mem_singleton.mp hmem, Or.inr (Or.inr rfl)⟩
  rcases hnumber with ⟨i, rfl, hi⟩
  rw [eq_numbered halike]
  exact numbered_jsonLine hi

/-- Two appends read the file before either of them writes: the records of the first one
are lost. -/
theorem append_lost :
    ∃ actions s,
      exec (Transactions.next (sinking runtime numberedJson "data.jsonl" .jsonl .append {}))
        (.initial oneLine twoCalls) actions = some s ∧
      (∀ party ∈ s.parties, party.closedRequest?.isSome = true) ∧
      s.store = some (.text "\x7b\"i\": 0\x7d\n\x7b\"i\": 2\x7d\n") ∧
      ¬ ∃ stored, stored.Perm ([numbered 0] ++ twoCalls.flatten) ∧
        FileHolds runtime numberedJson "data.jsonl" .jsonl s.store stored := by
  have hcheck : (exec (Transactions.next (sinking runtime numberedJson "data.jsonl" .jsonl .append
      {})) (.initial oneLine twoCalls) [(0, .read), (1, .read), (0, .commit), (1, .commit)]).map
        (fun s => (s.store, s.parties.all fun party => party.closedRequest?.isSome)) =
      some (some (.text "\x7b\"i\": 0\x7d\n\x7b\"i\": 2\x7d\n"), true) := by
    decide +kernel
  rcases Option.map_eq_some_iff.mp hcheck with ⟨s, hrun, heq⟩
  rw [Prod.mk.injEq, List.all_eq_true] at heq
  refine ⟨_, s, hrun, heq.2, heq.1, ?_⟩
  rintro ⟨stored, hperm, hholds⟩
  rw [heq.1] at hholds
  rcases hholds with ⟨rows, hread, halike⟩
  have hrows : readRecords runtime numberedJson "data.jsonl" .jsonl {}
      (some (.text "\x7b\"i\": 0\x7d\n\x7b\"i\": 2\x7d\n")) = .ok [numbered 0, numbered 2] := by
    decide +kernel
  rw [hrows, Except.ok.injEq] at hread
  have hlength := halike.length_eq
  rw [← hread, hperm.length_eq] at hlength
  simp [twoCalls] at hlength

end EtlTool
