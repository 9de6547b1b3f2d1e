import Mathlib.Data.List.Basic
import Mathlib.Data.List.Infix

/-!
# Frames in a stream

A stream of frames, each followed by a separator, arrives in chunks.  The reader keeps
what it has not used yet, appends every chunk to it, and takes off frames up to the first
separator as long as there is one.  What it has read after some chunks depends on the
stream alone.

Main results:

- Theorem {lit}`drain_append`: a text can be drained in two parts.
- Theorem {lit}`readChunks_eq`: chunk boundaries do not matter.
- Theorem {lit}`readChunks_frames`: every frame is read once and in order.
-/

namespace Framing

variable {α : Type*} [DecidableEq α]

/-- Cut a text at the first separator in it. -/
def splitFrame (separator : List α) : List α → Option (List α × List α)
  | [] => none
  | x :: rest =>
      if separator <+: x :: rest then some ([], (x :: rest).drop separator.length)
      else (splitFrame separator rest).map fun cut => (x :: cut.1, cut.2)

/-- Take off frames as long as there is a separator; each turn makes the text shorter. -/
def drainTurns (separator : List α) : Nat → List α → List (List α) × List α
  | 0, text => ([], text)
  | turns + 1, text =>
      match splitFrame separator text with
      | none => ([], text)
      | some (frame, rest) =>
          let drained := drainTurns separator turns rest
          (frame :: drained.1, drained.2)

/-- The frames in a text and what is left. -/
def drain (separator : List α) (text : List α) : List (List α) × List α :=
  drainTurns separator text.length text

/-- Read one chunk: the frames read so far, and the text not used yet. -/
def readChunk (separator : List α) (state : List (List α) × List α) (chunk : List α) :
    List (List α) × List α :=
  let drained := drain separator (state.2 ++ chunk)
  (state.1 ++ drained.1, drained.2)

/-- Read all chunks. -/
def readChunks (separator : List α) (chunks : List (List α)) : List (List α) × List α :=
  chunks.foldl (readChunk separator) ([], [])

/-! ## The first separator -/

section

variable {separator : List α}

/-- A cut text is its frame, the separator and the rest. -/
theorem splitFrame_eq {text frame rest : List α}
    (h : splitFrame separator text = some (frame, rest)) :
    text = frame ++ (separator ++ rest) := by
  induction text generalizing frame rest with
  | nil => cases h
  | cons x text ih =>
      rw [splitFrame] at h
      split at h
      · rename_i hfirst
        rcases hfirst with ⟨tail, htail⟩
        rw [Option.some.injEq, Prod.mk.injEq] at h
        rw [← h.1, ← h.2, ← htail, List.drop_left, List.nil_append]
      · rcases Option.map_eq_some_iff.mp h with ⟨⟨frame', rest'⟩, hcut, heq⟩
        rw [Prod.mk.injEq] at heq
        rw [← heq.1, ← heq.2, List.cons_append, ← ih hcut]

/-- More text does not move the first separator. -/
theorem splitFrame_append {text frame rest : List α}
    (h : splitFrame separator text = some (frame, rest)) (more : List α) :
    splitFrame separator (text ++ more) = some (frame, rest ++ more) := by
  induction text generalizing frame rest with
  | nil => cases h
  | cons x text ih =>
      rw [splitFrame] at h
      rw [List.cons_append, splitFrame]
      split at h
      · rename_i hfirst
        have hlonger : separator <+: x :: (text ++ more) :=
          hfirst.trans ⟨more, List.cons_append⟩
        rw [Option.some.injEq, Prod.mk.injEq] at h
        rw [if_pos hlonger, ← h.1, ← h.2, ← List.cons_append,
          List.drop_append_of_le_length hfirst.length_le]
      · rename_i hfirst
        rcases Option.map_eq_some_iff.mp h with ⟨⟨frame', rest'⟩, hcut, heq⟩
        rw [Prod.mk.injEq] at heq
        have hlength : separator.length ≤ (x :: text).length := by
          rw [splitFrame_eq hcut]
          simp only [List.length_cons, List.length_append]
          omega
        -- a separator at the start would lie inside the shorter text already
        have hnot : ¬ separator <+: x :: (text ++ more) := fun hlonger =>
          hfirst (List.prefix_of_prefix_length_le hlonger ⟨more, List.cons_append⟩ hlength)
        rw [if_neg hnot, ih hcut, Option.map_some, ← heq.1, ← heq.2]

/-- No separator begins inside the frame, also when one follows it. -/
def Unambiguous (separator frame : List α) : Prop :=
  ∀ back, back ≠ [] → back <:+ frame → ¬ separator <+: back ++ separator

omit [DecidableEq α] in
private theorem unambiguous_cons_iff {x : α} {frame : List α} :
    Unambiguous separator (x :: frame) ↔
      ¬ separator <+: x :: (frame ++ separator) ∧ Unambiguous separator frame := by
  constructor
  · intro h
    exact ⟨h (x :: frame) (List.cons_ne_nil x frame) List.suffix_rfl, fun back hback hsuffix =>
      h back hback (hsuffix.trans (List.suffix_cons x frame))⟩
  · rintro ⟨hstart, hrest⟩ back hback hsuffix
    rcases List.suffix_cons_iff.mp hsuffix with rfl | hsuffix
    · exact hstart
    · exact hrest back hback hsuffix

/-- The first separator after an unambiguous frame ends it. -/
theorem splitFrame_frame (hne : separator ≠ []) {frame : List α}
    (h : Unambiguous separator frame) (rest : List α) :
    splitFrame separator (frame ++ (separator ++ rest)) = some (frame, rest) := by
  have hend : splitFrame separator (frame ++ separator) = some (frame, []) := by
    induction frame with
    | nil =>
        cases separator with
        | nil => exact absurd rfl hne
        | cons x tail => rw [List.nil_append, splitFrame, if_pos List.prefix_rfl, List.drop_length]
    | cons x frame ih =>
        rw [unambiguous_cons_iff] at h
        rw [List.cons_append, splitFrame, if_neg h.1, ih h.2, Option.map_some]
  rw [← List.append_assoc, splitFrame_append hend, List.nil_append]

omit [DecidableEq α] in
/-- A line without the mark that ends lines. -/
theorem unambiguous_line {mark : α} {line frame : List α} (hline : mark ∉ line)
    (h : Unambiguous (mark :: separator) frame) :
    Unambiguous (mark :: separator) (line ++ frame) := by
  induction line with
  | nil => exact h
  | cons x line ih =>
      rw [List.mem_cons, not_or] at hline
      rw [List.cons_append, unambiguous_cons_iff]
      exact ⟨fun hstart => hline.1 (List.cons_prefix_cons.mp hstart).1, ih hline.2⟩

omit [DecidableEq α] in
/-- Two lines, the second one not empty, before an empty line. -/
theorem unambiguous_two_lines {mark : α} {first second : List α} (hfirst : mark ∉ first)
    (hsecond : mark ∉ second) (hne : second ≠ []) :
    Unambiguous [mark, mark] (first ++ mark :: second) := by
  have hlast : Unambiguous [mark, mark] second := by
    have hempty : Unambiguous [mark, mark] ([] : List α) := fun back hback hsuffix =>
      absurd (List.suffix_nil.mp hsuffix) hback
    have hline := unambiguous_line hsecond hempty
    rwa [List.append_nil] at hline
  refine unambiguous_line hfirst (unambiguous_cons_iff.mpr ⟨fun hstart => ?_, hlast⟩)
  cases second with
  | nil => exact hne rfl
  | cons x second =>
      have hmark := (List.cons_prefix_cons.mp (List.cons_prefix_cons.mp hstart).2).1
      exact hsecond (hmark ▸ List.mem_cons_self)

end

/-! ## Draining -/

section

variable {separator : List α} (hne : separator ≠ [])

include hne

private theorem length_splitFrame {text frame rest : List α}
    (h : splitFrame separator text = some (frame, rest)) : rest.length < text.length := by
  have hpos := List.length_pos_iff.mpr hne
  rw [splitFrame_eq h]
  simp only [List.length_append]
  omega

/-- Turns that are not needed change nothing. -/
theorem drainTurns_eq {turns turns' : Nat} {text : List α} (h : text.length ≤ turns)
    (h' : text.length ≤ turns') :
    drainTurns separator turns text = drainTurns separator turns' text := by
  induction turns generalizing turns' text with
  | zero =>
      cases List.length_eq_zero_iff.mp (Nat.le_zero.mp h)
      cases turns' <;> rfl
  | succ turns ih =>
      cases hcut : splitFrame separator text with
      | none => cases turns' <;> simp only [drainTurns, hcut]
      | some cut =>
          have hshorter := length_splitFrame hne hcut
          cases turns' with
          | zero => omega
          | succ turns' =>
              have hrest : drainTurns separator turns cut.2 = drainTurns separator turns' cut.2 :=
                ih (by omega) (by omega)
              simp only [drainTurns, hcut, hrest]

omit hne in
private theorem drain_of_none {text : List α} (h : splitFrame separator text = none) :
    drain separator text = ([], text) := by
  unfold drain
  cases text.length <;> simp only [drainTurns, h]

private theorem drain_of_some {text frame rest : List α}
    (h : splitFrame separator text = some (frame, rest)) :
    drain separator text =
      (frame :: (drain separator rest).1, (drain separator rest).2) := by
  have hshorter := length_splitFrame hne h
  unfold drain
  cases hlength : text.length with
  | zero => omega
  | succ turns =>
      have hrest : drainTurns separator turns rest = drainTurns separator rest.length rest :=
        drainTurns_eq hne (by omega) le_rfl
      simp only [drainTurns, h, hrest]

/-- Draining a text and then what is left of it with more text gives the frames that
draining everything at once gives. -/
theorem drain_append (text more : List α) :
    drain separator (text ++ more) =
      ((drain separator text).1 ++ (drain separator ((drain separator text).2 ++ more)).1,
        (drain separator ((drain separator text).2 ++ more)).2) := by
  induction hlength : text.length using Nat.strong_induction_on generalizing text with
  | _ length ih =>
      cases hcut : splitFrame separator text with
      | none => rw [drain_of_none hcut, List.nil_append]
      | some cut =>
          have hshorter := length_splitFrame hne hcut
          rw [drain_of_some hne hcut, drain_of_some hne (splitFrame_append hcut more),
            ih cut.2.length (by omega) cut.2 rfl, List.cons_append]

/-- A text is its frames, each with the separator behind it, and what is left. -/
theorem drain_eq (text : List α) :
    text = ((drain separator text).1.flatMap fun frame => frame ++ separator) ++
      (drain separator text).2 := by
  induction hlength : text.length using Nat.strong_induction_on generalizing text with
  | _ length ih =>
      cases hcut : splitFrame separator text with
      | none => rw [drain_of_none hcut, List.flatMap_nil, List.nil_append]
      | some cut =>
          have hshorter := length_splitFrame hne hcut
          have hrest := ih cut.2.length (by omega) cut.2 rfl
          rw [drain_of_some hne hcut, List.flatMap_cons, List.append_assoc, List.append_assoc,
            ← hrest]
          exact splitFrame_eq hcut

/-- The frames of the first part of a text are the first frames of the text. -/
theorem drain_prefix {text whole : List α} (h : text <+: whole) :
    (drain separator text).1 <+: (drain separator whole).1 := by
  rcases h with ⟨more, rfl⟩
  rw [drain_append hne]
  exact List.prefix_append _ _

/-- What is left holds no further frame. -/
theorem drain_rest (text : List α) :
    drain separator (drain separator text).2 = ([], (drain separator text).2) := by
  induction hlength : text.length using Nat.strong_induction_on generalizing text with
  | _ length ih =>
      cases hcut : splitFrame separator text with
      | none => rw [drain_of_none hcut, drain_of_none hcut]
      | some cut =>
          have hshorter := length_splitFrame hne hcut
          rw [drain_of_some hne hcut]
          exact ih cut.2.length (by omega) cut.2 rfl

/-! ## Chunks -/

/-- Reading more chunks from a drained state. -/
theorem foldl_readChunk (chunks : List (List α)) (frames : List (List α)) {rest : List α}
    (h : drain separator rest = ([], rest)) :
    chunks.foldl (readChunk separator) (frames, rest) =
      (frames ++ (drain separator (rest ++ chunks.flatten)).1,
        (drain separator (rest ++ chunks.flatten)).2) := by
  induction chunks generalizing frames rest with
  | nil => simp [h]
  | cons chunk chunks ih =>
      have hdrained := drain_append hne (rest ++ chunk) chunks.flatten
      rw [List.append_assoc] at hdrained
      rw [List.foldl_cons, readChunk, ih _ (drain_rest hne _), List.flatten_cons, hdrained,
        List.append_assoc]

/-- The frames read depend on the stream alone, not on the chunks it comes in. -/
theorem readChunks_eq (chunks : List (List α)) :
    readChunks separator chunks = drain separator chunks.flatten := by
  have hempty : drain separator ([] : List α) = ([], []) := rfl
  rw [readChunks, foldl_readChunk hne chunks [] hempty]
  rfl

/-- Frames in front of their separators are cut apart, and nothing is left. -/
theorem drain_frames {frames : List (List α)}
    (h : ∀ frame ∈ frames, Unambiguous separator frame) :
    drain separator (frames.flatMap fun frame => frame ++ separator) = (frames, []) := by
  induction frames with
  | nil => rfl
  | cons frame frames ih =>
      rw [List.forall_mem_cons] at h
      have hcut : splitFrame separator
          ((frame :: frames).flatMap fun frame => frame ++ separator) =
            some (frame, frames.flatMap fun frame => frame ++ separator) := by
        rw [List.flatMap_cons, List.append_assoc]
        exact splitFrame_frame hne h.1 _
      rw [drain_of_some hne hcut, ih h.2]

/-- Every frame of the stream is read once, in order, and nothing is left. -/
theorem readChunks_frames {frames : List (List α)}
    (h : ∀ frame ∈ frames, Unambiguous separator frame) {chunks : List (List α)}
    (hchunks : chunks.flatten = frames.flatMap fun frame => frame ++ separator) :
    readChunks separator chunks = (frames, []) := by
  rw [readChunks_eq hne, hchunks, drain_frames hne h]

end

end Framing
