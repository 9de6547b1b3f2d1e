import EtlTool.Editor.RunController
import EtlTool.Editor.RunEvents

/-!
# How an event stream ends

An unfinished run is followed until its event stream ends, and then it is fetched once more.
The server ends the stream with {lit}`done` or {lit}`timeout`; it also ends it without either
when the row of the run is gone or the server stops.  The editor fetches the run when it is
told of one of the two events or of an error.

The stream is cut into chunks, and may break off anywhere.

Main results:

- Theorem {lit}`endsLast_of_reached`: the server sends one event at most that ends the stream,
  and sends it last.
- Theorem {lit}`finalizing_readTurns_of_final` and {lit}`finalizing_readTurns_of_none`: how often
  the run is fetched.
- Theorem {lit}`attachStream_finishes_iff`: the view is finished exactly if the stream ends
  with an error, or the whole response arrives and its last event ends the stream and can be
  parsed.

Current gaps:

- Other actions of the user while a run is followed.
-/

namespace EtlTool

/-! ## The server -/

/-- The value of a status. -/
def RunState.name : RunState → String
  | queued => "queued"
  | running => "running"
  | succeeded => "succeeded"
  | failed => "failed"

/-- The name under which an event is sent. -/
def Frame.type : Frame → StreamEventType
  | log _ => .log
  | status _ => .status
  | done _ _ => .done
  | timeout _ => .timeout

/-- The events that end a stream. -/
def StreamEventType.final : StreamEventType → Bool
  | done => true
  | timeout => true
  | _ => false

/-- The rows of the database as the response models render them. -/
structure RowPayloads where
  log : RunLog → Fields
  error : NodeError → Fields

/-- The data of an event. -/
def Frame.payload (rows : RowPayloads) : Frame → Fields
  | log row => rows.log row
  | status state => [("status", .str state.name)]
  | done state errors =>
      [("status", .str state.name),
        ("errors", .list (errors.map fun error => .dict (rows.error error)))]
  | timeout state => [("status", .str state.name)]

/-- The response body for the events that the server has sent. -/
def Runtime.framesBody (rt : Runtime) (rows : RowPayloads) (frames : List Frame) :
    Except PyException (List UInt8) :=
  rt.sseBody (frames.map fun frame => (frame.type, frame.payload rows))

/-- The states that the server's end of a stream can get to, while the run changes in any
way. -/
inductive Client.Reached : Client → Prop
  | initial : Reached .initial
  | step {c c' : Client} (db : Database) (a : ClientAction) (h : Reached c)
      (hstep : c.step db a = some c') : Reached c'

/-! ## The editor -/

/-- The reading of the data of an event as one of the declared types. -/
structure EventData (J : Type) where
  row : J → RunLog
  status : J → RunState

/-- A run that is followed: the view, whether its stream has been cancelled, and how often
{lit}`finalize` has been called. -/
structure Followed where
  view : RunView
  aborted : Bool
  finalizing : Nat

/-- {lit}`stop(); void finalize(runId);`. -/
def Followed.finish (s : Followed) : Followed :=
  { s with aborted := true, finalizing := s.finalizing + 1 }

/-- How a response body ends: the last read says so, or it is rejected. -/
inductive BodyEnd where
  | closed
  | broken
deriving DecidableEq

/-- What {lit}`fetch` gives: an error or a response that is not {lit}`ok`, or a body. -/
inductive StreamResponse where
  | refused
  | body (chunks : List (List UInt8)) (ending : BodyEnd)

section

variable {J : Type} (jsonParse : String → Option J) (data : EventData J)

/-- {lit}`onEvent`. -/
def Followed.onEvent (s : Followed) (event : RunStreamEvent J) : Followed :=
  match event.type with
  | .log => { s with view := s.view.appendLog (data.row event.data) }
  | .status => { s with view := { s.view with status := some (data.status event.data) } }
  | .done => s.finish
  | .timeout => s.finish

/-- The events of every turn of the loop. -/
def turnEvents : StreamLoop J → List (List UInt8) → List (List (RunStreamEvent J))
  | _, [] => []
  | loop, chunk :: rest =>
      let read := StreamLoop.onChunk jsonParse { loop with delivered := [] } chunk
      read.delivered :: turnEvents read rest

/-- The turns of the loop, and the end of the body.  After the stream has been cancelled
the next read is rejected, and nobody is told. -/
def Followed.readTurns (ending : BodyEnd) :
    Followed → List (List (RunStreamEvent J)) → Followed
  | s, [] =>
      if s.aborted then s
      else
        match ending with
        | .closed => s
        | .broken => s.finish
  | s, events :: rest =>
      if s.aborted then s else readTurns ending (events.foldl (Followed.onEvent data) s) rest

/-- {lit}`attach`: the run is followed to the end of its stream. -/
def attachStream (view : RunView) : StreamResponse → Followed
  | .refused => Followed.finish ⟨view, false, 0⟩
  | .body chunks ending =>
      Followed.readTurns data ending ⟨view, false, 0⟩
        (turnEvents jsonParse ⟨.fresh, [], []⟩ chunks)

end

/-- The view after a call of {lit}`finalize`, for the detail of the run or for an error. -/
def finalizeView (runId : String) (view : RunView) : Option RunDetail → RunView
  | some detail => view.finalized runId detail
  | none => { view with running := false }

/-- The view when all calls of {lit}`finalize` have been answered. -/
def Followed.settledView (s : Followed) (runId : String) (getRun : Nat → Option RunDetail) :
    RunView :=
  (List.range s.finalizing).foldl (fun view i => finalizeView runId view (getRun i)) s.view

/-! ## The last event -/

/-- No event ends the stream. -/
def NoneFinal (frames : List Frame) : Prop :=
  ∀ frame ∈ frames, frame.type.final = false

/-- Only the last event may end the stream. -/
def EndsLast (frames : List Frame) : Prop :=
  NoneFinal frames ∨ ∃ sent last, frames = sent ++ [last] ∧ NoneFinal sent ∧
    last.type.final = true

theorem NoneFinal.append {front back : List Frame} (hfront : NoneFinal front)
    (hback : NoneFinal back) : NoneFinal (front ++ back) := by
  intro frame hframe
  rcases List.mem_append.mp hframe with h | h
  · exact hfront frame h
  · exact hback frame h

/-- What each phase knows: nothing has ended the stream unless it is about to close. -/
def Client.EndKnown (c : Client) : Prop :=
  match c.phase with
  | .sending _ true => EndsLast c.frames
  | .closed => EndsLast c.frames
  | _ => NoneFinal c.frames

/-- A poll sends the event that ends the stream last. -/
theorem endKnown_respond {c : Client} (h : NoneFinal c.received) (status : RunState)
    (rows : List RunLog) (errors : Option (List NodeError)) :
    (c.respond status rows errors).EndKnown := by
  have hfront : NoneFinal (c.received ++ (rows.map Frame.log ++
      (if c.lastStatus = some status then [] else [.status status]))) := by
    refine h.append (NoneFinal.append ?_ ?_)
    · intro frame hframe
      rcases List.mem_map.mp hframe with ⟨row, -, rfl⟩
      rfl
    · intro frame hframe
      split at hframe
      · cases hframe
      · rw [List.mem_singleton.mp hframe]
        rfl
  have hframes : (c.respond status rows errors).frames =
      (c.received ++ (rows.map Frame.log ++
        (if c.lastStatus = some status then [] else [.status status]))) ++
        c.finalFrames status errors := by
    rw [Client.frames_respond]
    simp only [List.append_assoc]
  rw [Client.EndKnown, hframes]
  cases errors with
  | some errors => exact Or.inr ⟨_, .done status errors, rfl, hfront, rfl⟩
  | none =>
      by_cases hlast : sseMaxPolls ≤ c.polls + 1
      · simp only [Client.respond, Client.finalFrames, if_pos hlast]
        exact Or.inr ⟨_, .timeout status, rfl, hfront, rfl⟩
      · simp only [Client.respond, Client.finalFrames, if_neg hlast, List.append_nil]
        exact hfront

/-- One step of the server's end. -/
theorem endKnown_step {db : Database} {c c' : Client} (h : c.EndKnown)
    (hstep : Client.Step db c c') : c'.EndKnown := by
  unfold Client.EndKnown at h
  cases hstep with
  | close hphase =>
      rw [hphase] at h
      refine Or.inl ?_
      simpa [Client.frames, Client.pending, hphase] using h
  | readRun status hphase hstatus =>
      rw [hphase] at h
      show NoneFinal _
      simpa [Client.frames, Client.pending, hphase] using h
  | readFinalLogs status hphase hterminal =>
      rw [hphase] at h
      show NoneFinal _
      simpa [Client.frames, Client.pending, hphase] using h
  | readLogs status hphase hterminal =>
      rw [hphase] at h
      exact endKnown_respond (by simpa [Client.frames, Client.pending, hphase] using h) _ _ _
  | readErrors status rows hphase =>
      rw [hphase] at h
      exact endKnown_respond (by simpa [Client.frames, Client.pending, hphase] using h) _ _ _
  | send frame rest closing hphase =>
      have hframes : Client.frames { c with
          phase := .sending rest closing
          received := c.received ++ [frame] } = c.frames := by
        simp [Client.frames, Client.pending, hphase]
      rw [hphase] at h
      rw [Client.EndKnown, hframes]
      cases closing with
      | true => exact h
      | false => exact h
  | finish hphase =>
      rw [hphase] at h
      show EndsLast _
      simpa [Client.frames, Client.pending, hphase] using h
  | sleep hphase =>
      rw [hphase] at h
      show NoneFinal _
      simpa [Client.frames, Client.pending, hphase] using h

/-- The server sends one event at most that ends the stream, and sends it last. -/
theorem endsLast_of_reached {c : Client} (h : c.Reached) : EndsLast c.received := by
  have hknown : c.EndKnown := by
    induction h with
    | initial => exact fun frame hframe => absurd hframe List.not_mem_nil
    | step db a _ hstep ih => exact endKnown_step ih (Client.step_spec hstep)
  have hframes : EndsLast c.frames := by
    unfold Client.EndKnown at hknown
    split at hknown
    · exact hknown
    · exact hknown
    · exact Or.inl hknown
  -- what has been received is the first part of what is sent
  rcases hframes with hnone | ⟨sent, last, heq, hsent, hlast⟩
  · exact Or.inl fun frame hframe => hnone frame (List.mem_append_left _ hframe)
  · rw [Client.frames] at heq
    rcases List.eq_nil_or_concat (Client.pending c.phase) with hempty | ⟨rest, frame, hrest⟩
    · rw [hempty, List.append_nil] at heq
      exact Or.inr ⟨sent, last, heq, hsent, hlast⟩
    · rw [hrest, List.concat_eq_append, ← List.append_assoc] at heq
      have hreceived := List.append_inj_left' heq rfl
      refine Or.inl fun frame hframe => hsent frame ?_
      rw [← hreceived]
      exact List.mem_append_left _ hframe

/-! ## The events that arrive -/

section

variable {J : Type} {jsonParse : String → Option J} {data : EventData J}

/-- The turns of the loop hand over the events of the stream. -/
theorem flatten_turnEvents (loop : StreamLoop J) (chunks : List (List UInt8)) :
    (chunks.foldl (StreamLoop.onChunk jsonParse) loop).delivered =
      loop.delivered ++ (turnEvents jsonParse loop chunks).flatten := by
  induction chunks generalizing loop with
  | nil => exact (List.append_nil _).symm
  | cons chunk rest ih =>
      -- the events that have been delivered do not change what the next chunk gives
      have hturn : turnEvents jsonParse (loop.onChunk jsonParse chunk) rest =
          turnEvents jsonParse (StreamLoop.onChunk jsonParse { loop with delivered := [] } chunk)
            rest := by
        cases rest <;> rfl
      rw [List.foldl_cons, ih, hturn, turnEvents, List.flatten_cons, ← List.append_assoc]
      rfl

private theorem flatten_turnEvents_fresh (chunks : List (List UInt8)) :
    (turnEvents jsonParse ⟨.fresh, [], []⟩ chunks).flatten = streamRunEvents jsonParse chunks := by
  rw [streamRunEvents, flatten_turnEvents, List.nil_append]

/-- The frames of a stream are parsed as events of their own types. -/
theorem final_of_parseFrame {rt : Runtime} (hfloat : rt.FloatTexts) {frames : List (List Char)}
    {events : List (StreamEventType × Fields)} (hframes : List.Forall₂ rt.IsEventFrame frames events)
    (hnone : ∀ event ∈ events, event.1.final = false) :
    ∀ event ∈ frames.filterMap (parseFrame jsonParse), event.type.final = false := by
  induction hframes with
  | nil => exact fun event hevent => absurd hevent List.not_mem_nil
  | cons hframe _ ih =>
      rw [List.forall_mem_cons] at hnone
      rcases isEventFrame_spec hfloat hframe with ⟨-, -, json, -, hparsed⟩
      intro event hevent
      rcases List.mem_filterMap.mp hevent with ⟨frame, hmem, hparse⟩
      rcases List.mem_cons.mp hmem with rfl | hmem
      · rw [hparsed jsonParse] at hparse
        rcases Option.map_eq_some_iff.mp hparse with ⟨value, -, rfl⟩
        exact hnone.1
      · exact ih hnone.2 event (List.mem_filterMap.mpr ⟨frame, hmem, hparse⟩)

/-- From the first part of a response body the first of its frames are read, and all of them
only if it is the whole body. -/
theorem streamRunEvents_starts {rt : Runtime} (hfloat : rt.FloatTexts) {frames : List (List Char)}
    {events : List (StreamEventType × Fields)} (hframes : List.Forall₂ rt.IsEventFrame frames events)
    {chunks : List (List UInt8)}
    (hchunks : chunks.flatten <+: utf8Bytes (frames.flatMap fun frame => frame ++ ['\n', '\n'])) :
    ∃ read, read <+: frames ∧
      streamRunEvents jsonParse chunks = read.filterMap (parseFrame jsonParse) ∧
      (read = frames ↔
        chunks.flatten = utf8Bytes (frames.flatMap fun frame => frame ++ ['\n', '\n'])) := by
  have hne : ['\n', '\n'] ≠ [] := List.cons_ne_nil _ _
  have hframe := eventFrames_spec hfloat hframes
  have htext := framesText_ascii fun frame hmem => (hframe frame hmem).1
  have hwhole := Framing.drain_frames hne fun frame hmem => (hframe frame hmem).2
  have hbytes : ∀ byte ∈ chunks.flatten, byte.toNat ≤ 0x7f := by
    intro byte hbyte
    exact utf8Bytes_ascii_le htext byte (hchunks.subset hbyte)
  have hprefix : asciiText chunks.flatten <+:
      frames.flatMap fun frame => frame ++ ['\n', '\n'] := by
    have hmap := hchunks.map fun byte => Char.ofNat byte.toNat
    rwa [← asciiText, ← asciiText, asciiText_utf8Bytes htext] at hmap
  refine ⟨(Framing.drain ['\n', '\n'] (asciiText chunks.flatten)).1, ?_,
    streamRunEvents_ascii jsonParse hbytes, ?_⟩
  · have hfirst := Framing.drain_prefix hne hprefix
    rwa [hwhole] at hfirst
  · constructor
    · intro hread
      -- all frames together are as long as the whole body
      have hparts := Framing.drain_eq hne (asciiText chunks.flatten)
      rw [hread] at hparts
      have hsame : asciiText chunks.flatten =
          frames.flatMap fun frame => frame ++ ['\n', '\n'] := by
        refine hprefix.eq_of_length_le ?_
        rw [hparts, List.length_append]
        omega
      refine hchunks.eq_of_length ?_
      have hlength := congrArg List.length hsame
      rw [asciiText, List.length_map] at hlength
      rw [hlength, utf8Bytes_ascii htext, List.length_map]
    · intro hsame
      rw [hsame, asciiText_utf8Bytes htext, hwhole]

/-! ## The run is fetched -/

private theorem onEvent_of_not_final (s : Followed) {event : RunStreamEvent J}
    (h : event.type.final = false) :
    (s.onEvent data event).aborted = s.aborted ∧
      (s.onEvent data event).finalizing = s.finalizing := by
  cases htype : event.type with
  | log => simp [Followed.onEvent, htype]
  | status => simp [Followed.onEvent, htype]
  | done =>
      rw [htype] at h
      cases h
  | timeout =>
      rw [htype] at h
      cases h

private theorem onEvent_of_final (s : Followed) {event : RunStreamEvent J}
    (h : event.type.final = true) :
    s.onEvent data event = s.finish := by
  cases htype : event.type with
  | log =>
      rw [htype] at h
      cases h
  | status =>
      rw [htype] at h
      cases h
  | done => simp [Followed.onEvent, htype]
  | timeout => simp [Followed.onEvent, htype]

private theorem foldl_onEvent_of_not_final (s : Followed) {events : List (RunStreamEvent J)}
    (h : ∀ event ∈ events, event.type.final = false) :
    (events.foldl (Followed.onEvent data) s).aborted = s.aborted ∧
      (events.foldl (Followed.onEvent data) s).finalizing = s.finalizing := by
  induction events generalizing s with
  | nil => exact ⟨rfl, rfl⟩
  | cons event rest ih =>
      rw [List.forall_mem_cons] at h
      have hevent := @onEvent_of_not_final J data s _ h.1
      have hrest := ih (s.onEvent data event) h.2
      exact ⟨hrest.1.trans hevent.1, hrest.2.trans hevent.2⟩

/-- Without an event that ends the stream the run is fetched only after an error. -/
theorem finalizing_readTurns_of_none (ending : BodyEnd) {s : Followed}
    {turns : List (List (RunStreamEvent J))}
    (h : ∀ event ∈ turns.flatten, event.type.final = false) (hopen : s.aborted = false) :
    (s.readTurns data ending turns).finalizing =
      s.finalizing + if ending = .broken then 1 else 0 := by
  induction turns generalizing s with
  | nil =>
      cases ending with
      | closed => simp [Followed.readTurns]
      | broken => simp [Followed.readTurns, Followed.finish, hopen]
  | cons events rest ih =>
      rw [List.flatten_cons, List.forall_mem_append] at h
      have hevents := @foldl_onEvent_of_not_final J data s _ h.1
      rw [Followed.readTurns, hopen, if_neg Bool.false_ne_true,
        ih h.2 (hevents.1.trans hopen), hevents.2]

/-- After an event that ends the stream, and that is the last one, the run is fetched once. -/
theorem finalizing_readTurns_of_final (ending : BodyEnd) {s : Followed}
    {turns : List (List (RunStreamEvent J))} {front : List (RunStreamEvent J)}
    {last : RunStreamEvent J} (h : turns.flatten = front ++ [last])
    (hfront : ∀ event ∈ front, event.type.final = false) (hlast : last.type.final = true)
    (hopen : s.aborted = false) :
    (s.readTurns data ending turns).finalizing = s.finalizing + 1 := by
  induction turns generalizing s front with
  | nil => exact absurd h.symm (List.append_ne_nil_of_right_ne_nil _ (List.cons_ne_nil _ _))
  | cons events rest ih =>
      rw [Followed.readTurns, hopen, if_neg Bool.false_ne_true]
      rw [List.flatten_cons] at h
      rcases List.eq_nil_or_concat rest.flatten with hempty | ⟨back, event, hback⟩
      · -- the last event came in this turn, and the next read is rejected
        rw [hempty, List.append_nil] at h
        have hfold := @foldl_onEvent_of_not_final J data s _ hfront
        have hfinish : events.foldl (Followed.onEvent data) s =
            (front.foldl (Followed.onEvent data) s).finish := by
          rw [h, List.foldl_append, List.foldl_cons, List.foldl_nil, onEvent_of_final _ hlast]
        rw [hfinish]
        cases rest with
        | nil => simp [Followed.readTurns, Followed.finish, hfold.2]
        | cons next rest => simp [Followed.readTurns, Followed.finish, hfold.2]
      · rw [hback, List.concat_eq_append, ← List.append_assoc] at h
        have hsplit := List.append_inj' h rfl
        have hevents := @foldl_onEvent_of_not_final J data s events fun event hevent =>
          hfront event (hsplit.1 ▸ List.mem_append_left _ hevent)
        have hrest : rest.flatten = back ++ [last] := by
          rw [hback, List.concat_eq_append, hsplit.2]
        have hagain := ih hrest (fun event hevent =>
          hfront event (hsplit.1 ▸ List.mem_append_right _ hevent)) (hevents.1.trans hopen)
        rw [hagain, hevents.2]

end

/-! ## The view is finished -/

/-- The response brings the body, or the first part of it. -/
def StreamResponse.Carries (body : List UInt8) : StreamResponse → Prop
  | refused => True
  | .body chunks _ => chunks.flatten <+: body

/-- The stream ends with an error. -/
def StreamResponse.Fails : StreamResponse → Prop
  | refused => True
  | .body _ ending => ending = .broken

/-- The whole body arrives, its last event ends the stream, and its data can be parsed. -/
def StreamResponse.BringsEnd {J : Type} (rt : Runtime) (jsonParse : String → Option J)
    (rows : RowPayloads) (sent : List Frame) (body : List UInt8) : StreamResponse → Prop
  | refused => False
  | .body chunks _ => chunks.flatten = body ∧ ∃ before last json, sent = before ++ [last] ∧
      last.type.final = true ∧
      rt.jsonDumps false (fun text _ => text) (.dict (last.payload rows)) = .ok json ∧
      (jsonParse json).isSome

/-- The run is fetched once, and the view does not show it as running afterwards. -/
def Followed.Finished (s : Followed) (runId : String) (getRun : Nat → Option RunDetail) : Prop :=
  s.finalizing = 1 ∧ (s.settledView runId getRun).running = false

private theorem finished_iff (s : Followed) (runId : String) (getRun : Nat → Option RunDetail) :
    s.Finished runId getRun ↔ s.finalizing = 1 := by
  constructor
  · exact fun h => h.1
  · intro h
    refine ⟨h, ?_⟩
    rw [Followed.settledView, h, List.range_one, List.foldl_cons, List.foldl_nil]
    cases getRun 0 with
    | none => rfl
    | some detail => rfl

section

variable {J : Type} {jsonParse : String → Option J} {data : EventData J}

/-- The frames of some events and one more. -/
theorem isEventFrame_append {rt : Runtime} {frames : List (List Char)}
    {events : List (StreamEventType × Fields)} {event : StreamEventType × Fields}
    (h : List.Forall₂ rt.IsEventFrame frames (events ++ [event])) :
    ∃ front frame, frames = front ++ [frame] ∧ List.Forall₂ rt.IsEventFrame front events ∧
      rt.IsEventFrame frame event := by
  have hfront := List.forall₂_take_append frames events [event] h
  have hback := List.forall₂_drop_append frames events [event] h
  cases hdrop : frames.drop events.length with
  | nil =>
      rw [hdrop] at hback
      cases hback
  | cons frame rest =>
      rw [hdrop] at hback
      cases hback with
      | cons hframe hrest =>
          cases hrest
          refine ⟨_, frame, ?_, hfront, hframe⟩
          rw [← hdrop, List.take_append_drop]

/-- Without an event that ends the stream an error decides. -/
theorem finalizing_attachStream_of_none {chunks : List (List UInt8)} (ending : BodyEnd)
    (view : RunView) (h : ∀ event ∈ streamRunEvents jsonParse chunks, event.type.final = false) :
    (attachStream jsonParse data view (.body chunks ending)).finalizing = 1 ↔
      ending = .broken := by
  rw [attachStream, finalizing_readTurns_of_none ending (by rwa [flatten_turnEvents_fresh]) rfl]
  cases ending with
  | closed => simp
  | broken => simp

/-- The frames of events that do not end the stream. -/
theorem NoneFinal.parsed {rt : Runtime} (hfloat : rt.FloatTexts) {rows : RowPayloads}
    {sent : List Frame} (h : NoneFinal sent) {frames : List (List Char)}
    (hframes : List.Forall₂ rt.IsEventFrame frames
      (sent.map fun frame => (frame.type, frame.payload rows))) :
    ∀ event ∈ frames.filterMap (parseFrame jsonParse), event.type.final = false := by
  refine final_of_parseFrame hfloat hframes fun event hevent => ?_
  rcases List.mem_map.mp hevent with ⟨frame, hframe, rfl⟩
  exact h frame hframe

private theorem NoneFinal.not_bringsEnd {rt : Runtime} {rows : RowPayloads} {sent : List Frame}
    (h : NoneFinal sent) {body : List UInt8} (response : StreamResponse) :
    ¬ response.BringsEnd rt jsonParse rows sent body := by
  cases response with
  | refused => exact id
  | body chunks ending =>
      rintro ⟨-, before, last, json, rfl, hlast, -⟩
      rw [h last (by simp)] at hlast
      cases hlast

/-- The end of a stream is brought with the whole body, if the data of the last event can be
parsed. -/
theorem bringsEnd_concat_iff {rt : Runtime} {rows : RowPayloads} {before : List Frame}
    {last : Frame} (hlast : last.type.final = true) {json : String}
    (hdumps : rt.jsonDumps false (fun text _ => text) (.dict (last.payload rows)) = .ok json)
    {body : List UInt8} (chunks : List (List UInt8)) (ending : BodyEnd) :
    (StreamResponse.body chunks ending).BringsEnd rt jsonParse rows (before ++ [last]) body ↔
      chunks.flatten = body ∧ (jsonParse json).isSome := by
  constructor
  · rintro ⟨hall, before', last', json', heq, -, hdumps', hsome⟩
    have hlast' := (List.append_inj' heq rfl).2
    cases hlast'
    rw [hdumps] at hdumps'
    cases hdumps'
    exact ⟨hall, hsome⟩
  · rintro ⟨hall, hsome⟩
    exact ⟨hall, before, last, json, rfl, hlast, hdumps, hsome⟩

/-- The run is fetched once exactly if the stream ends with an error, or the event that ends
it arrives. -/
theorem finalizing_attachStream_iff {rt : Runtime} (hfloat : rt.FloatTexts) {rows : RowPayloads}
    {sent : List Frame} (hsent : EndsLast sent) {body : List UInt8}
    (hbody : rt.framesBody rows sent = .ok body) {response : StreamResponse}
    (hresponse : response.Carries body) (view : RunView) :
    (attachStream jsonParse data view response).finalizing = 1 ↔
      response.Fails ∨ response.BringsEnd rt jsonParse rows sent body := by
  cases response with
  | refused => simp [attachStream, Followed.finish, StreamResponse.Fails]
  | body chunks ending =>
      rcases sseBody_isEventFrame hbody with ⟨frames, hframes, rfl⟩
      rcases @streamRunEvents_starts J jsonParse rt hfloat frames _ hframes chunks hresponse with
        ⟨read, hread, hevents, hwhole⟩
      rcases hsent with hnone | ⟨before, last, rfl, hbefore, hlast⟩
      · have hquiet : ∀ event ∈ streamRunEvents jsonParse chunks, event.type.final = false := by
          rw [hevents]
          exact fun event hevent => hnone.parsed hfloat hframes event
            ((hread.filterMap _).subset hevent)
        rw [finalizing_attachStream_of_none ending view hquiet,
          or_iff_left (hnone.not_bringsEnd _)]
        rfl
      · rw [List.map_append, List.map_singleton] at hframes
        rcases isEventFrame_append hframes with ⟨front, frame, rfl, hfront, hframe⟩
        have hquiet := @NoneFinal.parsed J jsonParse rt hfloat rows before hbefore front hfront
        rcases isEventFrame_spec hfloat hframe with ⟨-, -, json, hdumps, hparsed⟩
        rw [bringsEnd_concat_iff hlast hdumps, ← hwhole]
        by_cases hall : read = front ++ [frame]
        · cases hvalue : jsonParse json with
          | none =>
              -- the event that ends the stream is dropped
              have hdropped : streamRunEvents jsonParse chunks =
                  front.filterMap (parseFrame jsonParse) := by
                have hnothing : parseFrame jsonParse frame = none := by
                  rw [hparsed jsonParse, hvalue, Option.map_none]
                rw [hevents, hall, List.filterMap_append, List.filterMap_cons_none hnothing,
                  List.filterMap_nil, List.append_nil]
              rw [finalizing_attachStream_of_none ending view (hdropped ▸ hquiet)]
              simp [StreamResponse.Fails]
          | some value =>
              have harrives : streamRunEvents jsonParse chunks =
                  front.filterMap (parseFrame jsonParse) ++
                    [(⟨last.type, value⟩ : RunStreamEvent J)] := by
                have hevent : parseFrame jsonParse frame = some ⟨last.type, value⟩ := by
                  rw [hparsed jsonParse, hvalue, Option.map_some]
                rw [hevents, hall, List.filterMap_append, List.filterMap_cons_some hevent,
                  List.filterMap_nil]
              have honce : (attachStream jsonParse data view (.body chunks ending)).finalizing =
                  1 := by
                rw [attachStream, finalizing_readTurns_of_final ending
                  ((flatten_turnEvents_fresh chunks).trans harrives) hquiet hlast rfl]
              exact iff_of_true honce (Or.inr ⟨hall, rfl⟩)
        · have hshort : read <+: front := by
            rcases List.prefix_concat_iff.mp hread with heq | hprefix
            · exact absurd heq hall
            · exact hprefix
          have hquietRead : ∀ event ∈ streamRunEvents jsonParse chunks,
              event.type.final = false := by
            rw [hevents]
            exact fun event hevent => hquiet event ((hshort.filterMap _).subset hevent)
          rw [finalizing_attachStream_of_none ending view hquietRead]
          simp [StreamResponse.Fails, hall]

end

/-- The view is finished exactly if the stream ends with an error, or the whole response
arrives and its last event ends the stream and can be parsed. -/
theorem attachStream_finishes_iff (rt : Runtime) (hfloat : rt.FloatTexts) (rows : RowPayloads)
    {J : Type} (jsonParse : String → Option J) (data : EventData J) (server : Client)
    (hserver : server.Reached) (body : List UInt8)
    (hbody : rt.framesBody rows server.received = .ok body) (response : StreamResponse)
    (hresponse : response.Carries body) (view : RunView) (runId : String)
    (getRun : Nat → Option RunDetail) :
    (attachStream jsonParse data view response).Finished runId getRun ↔
      response.Fails ∨ response.BringsEnd rt jsonParse rows server.received body := by
  rw [finished_iff]
  exact finalizing_attachStream_iff hfloat (endsLast_of_reached hserver) hbody hresponse view

namespace Samples

/-- A run that has finished without a log row. -/
def finishedRun : Database where
  run := some ⟨"u1", .succeeded, 0, none⟩
  pipelineSpec := none
  logs := []
  errors := []

/-- A run that has been deleted. -/
def deletedRun : Database where
  run := none
  pipelineSpec := none
  logs := []
  errors := []

/-- The server after its only poll of a finished run. -/
def doneSent : Client where
  lastLogId := 0
  lastStatus := some .succeeded
  polls := 0
  phase := .sending [] true
  received := [.status .succeeded, .done .succeeded []]

private theorem doneSent_reached : doneSent.Reached := by
  have hsteps : ∀ (actions : List ClientAction) (c c' : Client), c.Reached →
      actions.foldlM (fun c a => c.step finishedRun a) c = some c' → c'.Reached := by
    intro actions
    induction actions with
    | nil =>
        intro c c' hc hrun
        cases hrun
        exact hc
    | cons a rest ih =>
        intro c c' hc hrun
        rw [List.foldlM_cons, Option.bind_eq_bind, Option.bind_eq_some_iff] at hrun
        rcases hrun with ⟨next, hnext, hrest⟩
        exact ih next c' (hc.step finishedRun a hnext) hrest
  refine hsteps [.readRun, .readLogs, .readErrors, .send, .send] .initial doneSent .initial ?_
  decide +kernel

/-- Rows that show nothing. -/
def noRows : RowPayloads where
  log := fun _ => []
  error := fun _ => []

/-- {lit}`JSON.parse` on the data of the last event. -/
def parseDone (text : String) : Option Unit :=
  if text = "\x7b\"status\": \"succeeded\", \"errors\": []\x7d" then some () else none

/-- Nothing is read from the data. -/
def noData : EventData Unit where
  row := fun _ => ⟨0, 0, ⟨.info, none, "", none⟩⟩
  status := fun _ => .succeeded

/-- The view of a run that has been triggered. -/
def triggeredView : RunView :=
  { RunView.empty with runId := some "r1", status := some .queued, running := true }

end Samples

open Samples

theorem attachStream_finishes_doneSent :
    ∃ body, decimalRuntime.framesBody noRows doneSent.received = .ok body ∧
      (attachStream parseDone noData triggeredView (.body [body] .closed)).Finished "r1"
        fun _ => none := by
  cases hbody : decimalRuntime.framesBody noRows doneSent.received with
  | error exc =>
      have hok : (decimalRuntime.framesBody noRows doneSent.received).isOk = true := by
        decide +kernel
      rw [hbody] at hok
      cases hok
  | ok body =>
      have hwhole : [body].flatten = body := by simp
      refine ⟨body, rfl, (attachStream_finishes_iff decimalRuntime decimalRuntime_floatTexts noRows
        parseDone noData doneSent doneSent_reached body hbody _ ?_ triggeredView "r1" _).mpr
          (Or.inr ⟨hwhole, [.status .succeeded], .done .succeeded [], ?_⟩)⟩
      · rw [StreamResponse.Carries, hwhole]
      · refine ⟨"\x7b\"status\": \"succeeded\", \"errors\": []\x7d", rfl, rfl, ?_, rfl⟩
        decide +kernel

/-- The row of the run is deleted, and the view shows it as running for good. -/
theorem deleted_run_keeps_running :
    ¬ ∀ (rt : Runtime), rt.FloatTexts → ∀ (rows : RowPayloads) (jsonParse : String → Option Unit)
      (data : EventData Unit) (server : Client), server.Reached → ∀ body : List UInt8,
        rt.framesBody rows server.received = .ok body → ∀ response : StreamResponse,
          response.Carries body → ∀ (view : RunView) (runId : String)
            (getRun : Nat → Option RunDetail),
            (attachStream jsonParse data view response).Finished runId getRun := by
  intro h
  have hserver : Client.Reached { Client.initial with phase := .closed } :=
    Client.Reached.initial.step deletedRun .readRun rfl
  have hfinished := h decimalRuntime decimalRuntime_floatTexts noRows parseDone noData _ hserver []
    rfl (.body [] .closed) List.prefix_rfl triggeredView "r1" fun _ => none
  have hrunning : ((attachStream parseDone noData triggeredView (.body [] .closed)).settledView
      "r1" fun _ => none).running = true := rfl
  rw [hfinished.2] at hrunning
  cases hrunning

end EtlTool
