import EtlTool.Core.JsonText
import EtlTool.Core.Redactor
import EtlTool.Foundations.Framing

/-!
# Run events on the wire

The server writes the events of a run as frames of two lines, and the editor reads them
from a response body that the network cuts into chunks wherever it likes.  The editor
decodes every chunk, keeps the unfinished frame in a buffer, and parses a frame at each
empty line.

Main results:

- Theorem {lit}`decodeChunks_ascii`: chunks of ASCII text are decoded one by one.
- Theorem {lit}`parseFrame_eventFrame_eq`: the frame of an event is parsed as this event.
- Theorem {lit}`streamRunEvents_events`: the editor gets exactly the events written, in
  order, for every way of cutting the stream.

Current gaps:

- {lit}`JSON.parse` is a parameter; a result assumes that it reads what
  {lit}`json.dumps` writes.
-/

namespace EtlTool

/-! ## The server -/

/-- The types of events. -/
inductive StreamEventType where
  | log
  | status
  | done
  | timeout
deriving DecidableEq, Repr

/-- The name of a type in a frame. -/
def StreamEventType.name : StreamEventType → String
  | .log => "log"
  | .status => "status"
  | .done => "done"
  | .timeout => "timeout"

/-- The text of {lit}`_sse` before it is encoded. -/
def sseText (event json : String) : List Char :=
  "event: ".toList ++ event.toList ++ "\ndata: ".toList ++ json.toList ++ "\n\n".toList

/-- {lit}`_sse`. -/
def Runtime.sse (rt : Runtime) (event : String) (data : Fields) :
    Except PyException (List UInt8) :=
  match rt.jsonDumps false (fun text _ => text) (.dict data) with
  | .error exc => .error exc
  | .ok json => .ok (utf8Bytes (sseText event json))

/-- The response body of {lit}`event_stream` for some events. -/
def Runtime.sseBody (rt : Runtime) : List (StreamEventType × Fields) →
    Except PyException (List UInt8)
  | [] => .ok []
  | (event, data) :: rest =>
      match rt.sse event.name data, rt.sseBody rest with
      | .ok frame, .ok body => .ok (frame ++ body)
      | .error exc, _ => .error exc
      | _, .error exc => .error exc

/-! ## The text decoder -/

/-- The state of a {lit}`TextDecoder`: the unfinished character, how many bytes it still
needs, where the next one has to lie, and whether the stream has begun. -/
structure TextDecoder where
  codePoint : Nat
  needed : Nat
  lower : Nat
  upper : Nat
  started : Bool
deriving Repr

/-- {lit}`new TextDecoder()`. -/
def TextDecoder.fresh : TextDecoder where
  codePoint := 0
  needed := 0
  lower := 0x80
  upper := 0xbf
  started := false

/-- What stands for bytes that are no character. -/
def replacementCharacter : Char :=
  Char.ofNat 0xfffd

/-- The first byte of a character. -/
def TextDecoder.leadByte (decoder : TextDecoder) (byte : Nat) : TextDecoder × List Char :=
  if byte ≤ 0x7f then (decoder, [Char.ofNat byte])
  else if 0xc2 ≤ byte ∧ byte ≤ 0xdf then
    ({ decoder with codePoint := byte % 0x20, needed := 1 }, [])
  else if 0xe0 ≤ byte ∧ byte ≤ 0xef then
    ({ decoder with
        codePoint := byte % 0x10
        needed := 2
        lower := if byte = 0xe0 then 0xa0 else 0x80
        upper := if byte = 0xed then 0x9f else 0xbf }, [])
  else if 0xf0 ≤ byte ∧ byte ≤ 0xf4 then
    ({ decoder with
        codePoint := byte % 0x08
        needed := 3
        lower := if byte = 0xf0 then 0x90 else 0x80
        upper := if byte = 0xf4 then 0x8f else 0xbf }, [])
  else (decoder, [replacementCharacter])

/-- One byte. -/
def TextDecoder.decodeByte (decoder : TextDecoder) (byte : Nat) : TextDecoder × List Char :=
  let idle := { TextDecoder.fresh with started := decoder.started }
  if decoder.needed = 0 then decoder.leadByte byte
  else if byte < decoder.lower ∨ decoder.upper < byte then
    -- the byte is taken again as the first one of a character
    let next := idle.leadByte byte
    (next.1, replacementCharacter :: next.2)
  else if decoder.needed = 1 then
    (idle, [Char.ofNat (decoder.codePoint * 0x40 + byte % 0x40)])
  else
    ({ idle with
        codePoint := decoder.codePoint * 0x40 + byte % 0x40
        needed := decoder.needed - 1 }, [])

/-- A byte order mark at the beginning of the stream is dropped. -/
def TextDecoder.serialize (decoder : TextDecoder) (chars : List Char) : TextDecoder × List Char :=
  match chars with
  | [] => (decoder, [])
  | c :: rest =>
      ({ decoder with started := true },
        if decoder.started = false ∧ c = Char.ofNat 0xfeff then rest else c :: rest)

/-- {lit}`decoder.decode(value, { stream: true })`. -/
def TextDecoder.decode : TextDecoder → List UInt8 → TextDecoder × List Char
  | decoder, [] => (decoder, [])
  | decoder, byte :: rest =>
      let decoded := decoder.decodeByte byte.toNat
      let written := decoded.1.serialize decoded.2
      let after := written.1.decode rest
      (after.1, written.2 ++ after.2)

/-! ## The editor -/

/-- What {lit}`trim` removes. -/
def isJsSpace (c : Char) : Bool :=
  let n := c.toNat
  (0x09 ≤ n && n ≤ 0x0d) || n == 0x20 || n == 0xa0 || n == 0x1680 ||
    (0x2000 ≤ n && n ≤ 0x200a) || n == 0x2028 || n == 0x2029 || n == 0x202f || n == 0x205f ||
    n == 0x3000 || n == 0xfeff

/-- {lit}`trimStart`. -/
def jsTrimStart (text : List Char) : List Char :=
  text.dropWhile isJsSpace

/-- {lit}`trim`. -/
def jsTrim (text : List Char) : List Char :=
  ((jsTrimStart text).reverse.dropWhile isJsSpace).reverse

/-- {lit}`RunStreamEvent`. -/
structure RunStreamEvent (J : Type) where
  type : StreamEventType
  data : J
deriving DecidableEq, Repr

/-- The {lit}`switch` over the event's name. -/
def StreamEventType.ofName? (name : String) : Option StreamEventType :=
  if name = "log" then some .log
  else if name = "status" then some .status
  else if name = "done" then some .done
  else if name = "timeout" then some .timeout
  else none

/-- One line of a frame: it may name the event, or carry data. -/
def readFrameLine (found : List Char × List (List Char)) (line : List Char) :
    List Char × List (List Char) :=
  if "event:".toList.isPrefixOf line then (jsTrim (line.drop 6), found.2)
  else if "data:".toList.isPrefixOf line then
    (found.1, found.2 ++ [jsTrimStart (line.drop 5)])
  else found

section

variable {J : Type} (jsonParse : String → Option J)

/-- {lit}`parseFrame`; {lit}`jsonParse` gives {lean}`none` where {lit}`JSON.parse`
throws. -/
def parseFrame (frame : List Char) : Option (RunStreamEvent J) :=
  let found := (frame.splitOn '\n').foldl readFrameLine ("message".toList, [])
  if found.2 = [] then none
  else
    match jsonParse (String.ofList (['\n'].intercalate found.2)) with
    | none => none
    | some data =>
        (StreamEventType.ofName? (String.ofList found.1)).map fun type => ⟨type, data⟩

/-- The variables of the loop in {lit}`streamRunEvents`, and the calls of
{lit}`onEvent` so far. -/
structure StreamLoop (J : Type) where
  decoder : TextDecoder
  buffer : List Char
  delivered : List (RunStreamEvent J)

/-- One turn of the loop: a chunk is decoded, and every complete frame is taken off the
buffer. -/
def StreamLoop.onChunk (loop : StreamLoop J) (chunk : List UInt8) : StreamLoop J :=
  let decoded := loop.decoder.decode chunk
  let drained := Framing.drain ['\n', '\n'] (loop.buffer ++ decoded.2)
  { decoder := decoded.1
    buffer := drained.2
    delivered := loop.delivered ++ drained.1.filterMap (parseFrame jsonParse) }

/-- The calls of {lit}`onEvent` for a response body that arrives in chunks. -/
def streamRunEvents (chunks : List (List UInt8)) : List (RunStreamEvent J) :=
  (chunks.foldl (StreamLoop.onChunk jsonParse) ⟨.fresh, [], []⟩).delivered

end

/-! ## Decoding ASCII -/

theorem utf8Bytes_ascii {text : List Char} (h : ∀ c ∈ text, c.toNat ≤ 0x7f) :
    utf8Bytes text = text.map fun c => c.toNat.toUInt8 := by
  induction text with
  | nil => rfl
  | cons c rest ih =>
      rw [List.forall_mem_cons] at h
      have hc : String.utf8EncodeChar c = [c.toNat.toUInt8] := by
        unfold String.utf8EncodeChar
        rw [if_pos (by simpa using h.1)]
        rfl
      rw [utf8Bytes, List.flatMap_cons, hc, ← utf8Bytes, ih h.2]
      rfl

private theorem decodeByte_ascii {decoder : TextDecoder} (hidle : decoder.needed = 0) {byte : Nat}
    (h : byte ≤ 0x7f) : decoder.decodeByte byte = (decoder, [Char.ofNat byte]) := by
  rw [TextDecoder.decodeByte, if_pos hidle, TextDecoder.leadByte, if_pos h]

/-- An idle decoder turns ASCII bytes into their characters and is idle again. -/
theorem decode_ascii {decoder : TextDecoder} (hidle : decoder.needed = 0) {bytes : List UInt8}
    (h : ∀ byte ∈ bytes, byte.toNat ≤ 0x7f) :
    (decoder.decode bytes).1.needed = 0 ∧
      (decoder.decode bytes).2 = bytes.map fun byte => Char.ofNat byte.toNat := by
  induction bytes generalizing decoder with
  | nil => exact ⟨hidle, rfl⟩
  | cons byte rest ih =>
      rw [List.forall_mem_cons] at h
      have hmark : Char.ofNat byte.toNat ≠ Char.ofNat 0xfeff := by
        have hsmall : ∀ n ≤ 0x7f, Char.ofNat n ≠ Char.ofNat 0xfeff := by decide
        exact hsmall _ h.1
      have hrest := @ih { decoder with started := true } hidle h.2
      rw [TextDecoder.decode, decodeByte_ascii hidle h.1]
      simp only [TextDecoder.serialize, hmark, and_false, if_false, List.map_cons]
      exact ⟨hrest.1, by rw [hrest.2]; rfl⟩

private theorem utf8Bytes_append (front back : List Char) :
    utf8Bytes (front ++ back) = utf8Bytes front ++ utf8Bytes back :=
  List.flatMap_append

/-- The characters of ASCII bytes. -/
def asciiText (bytes : List UInt8) : List Char :=
  bytes.map fun byte => Char.ofNat byte.toNat

theorem asciiText_utf8Bytes {text : List Char} (h : ∀ c ∈ text, c.toNat ≤ 0x7f) :
    asciiText (utf8Bytes text) = text := by
  rw [utf8Bytes_ascii h, asciiText, List.map_map]
  refine (List.map_congr_left fun c hc => ?_).trans (List.map_id text)
  have hsmall : c.toNat.toUInt8.toNat = c.toNat := by
    have := h c hc
    simp
    omega
  rw [Function.comp, hsmall, Char.ofNat_toNat, id]

theorem utf8Bytes_ascii_le {text : List Char} (h : ∀ c ∈ text, c.toNat ≤ 0x7f) :
    ∀ byte ∈ utf8Bytes text, byte.toNat ≤ 0x7f := by
  rw [utf8Bytes_ascii h]
  intro byte hbyte
  rcases List.mem_map.mp hbyte with ⟨c, hc, rfl⟩
  have := h c hc
  simp
  omega

/-! ## The frame of an event -/

/-- A frame without the empty line that ends it. -/
def eventFrame (type : StreamEventType) (json : List Char) : List Char :=
  ("event: ".toList ++ type.name.toList) ++ '\n' :: ("data: ".toList ++ json)

private theorem sseText_eq (type : StreamEventType) (json : String) :
    sseText type.name json = eventFrame type json.toList ++ ['\n', '\n'] := by
  have hdata : "\ndata: ".toList = '\n' :: "data: ".toList := by decide
  have hend : "\n\n".toList = ['\n', '\n'] := by decide
  unfold sseText eventFrame
  rw [hdata, hend]
  simp only [List.append_assoc, List.cons_append]

private theorem newline_not_mem_eventLine (type : StreamEventType) :
    '\n' ∉ "event: ".toList ++ type.name.toList := by
  cases type <;> decide

private theorem newline_not_mem_dataLine {json : List Char} (h : '\n' ∉ json) :
    '\n' ∉ "data: ".toList ++ json := by
  rw [List.mem_append, not_or]
  exact ⟨by decide, h⟩

private theorem eventLine_ascii (type : StreamEventType) :
    ∀ c ∈ "event: ".toList ++ type.name.toList, c.toNat ≤ 0x7f := by
  have hall : ("event: ".toList ++ type.name.toList).all (fun c => decide (c.toNat ≤ 0x7f)) =
      true := by
    cases type <;> decide
  exact fun c hc => of_decide_eq_true (List.all_eq_true.mp hall c hc)

private theorem dataLabel_ascii : ∀ c ∈ "data: ".toList, c.toNat ≤ 0x7f := by
  have hall : "data: ".toList.all (fun c => decide (c.toNat ≤ 0x7f)) = true := by decide
  exact fun c hc => of_decide_eq_true (List.all_eq_true.mp hall c hc)

/-- The empty line that ends a frame is the first one. -/
theorem eventFrame_unambiguous (type : StreamEventType) {json : List Char} (h : '\n' ∉ json) :
    Framing.Unambiguous ['\n', '\n'] (eventFrame type json) := by
  exact Framing.unambiguous_two_lines (newline_not_mem_eventLine type)
    (newline_not_mem_dataLine h) (List.cons_ne_nil _ _)

/-- The frame of an event is parsed as this event, with what {lit}`JSON.parse` reads. -/
theorem parseFrame_eventFrame_eq {J : Type} (jsonParse : String → Option J)
    (type : StreamEventType) {json : List Char} (h : '\n' ∉ json)
    (hstart : jsTrimStart json = json) :
    parseFrame jsonParse (eventFrame type json) =
      (jsonParse (String.ofList json)).map fun data => ⟨type, data⟩ := by
  have hlines : (eventFrame type json).splitOn '\n' =
      ["event: ".toList ++ type.name.toList, "data: ".toList ++ json] := by
    unfold eventFrame
    rw [List.splitOn_append_cons_self_of_not_mem (newline_not_mem_eventLine type),
      List.splitOn_eq_singleton (newline_not_mem_dataLine h)]
  have hname : jsTrim (("event: ".toList ++ type.name.toList).drop 6) = type.name.toList := by
    cases type <;> decide
  have hdata : jsTrimStart (("data: ".toList ++ json).drop 5) = json := by
    have hline : ("data: ".toList ++ json).drop 5 = ' ' :: json := by simp
    rw [hline, jsTrimStart, List.dropWhile_cons_of_pos (by decide), ← jsTrimStart, hstart]
  have hread : readFrameLine ("message".toList, []) ("event: ".toList ++ type.name.toList) =
      (type.name.toList, []) := by
    unfold readFrameLine
    rw [if_pos (by cases type <;> decide), hname]
  have hread' : readFrameLine (type.name.toList, []) ("data: ".toList ++ json) =
      (type.name.toList, [json]) := by
    unfold readFrameLine
    rw [if_neg (by simp), if_pos (by simp), hdata]
    rfl
  have htype : StreamEventType.ofName? type.name = some type := by
    cases type <;> rfl
  unfold parseFrame
  simp only [hlines, List.foldl_cons, List.foldl_nil, hread, hread']
  cases hparse : jsonParse (String.ofList json) with
  | none => simp [hparse]
  | some data => simp [hparse, htype]

/-! ## The stream -/

/-- Chunks of ASCII bytes are decoded one by one. -/
theorem decodeChunks_ascii {chunks : List (List UInt8)}
    (h : ∀ byte ∈ chunks.flatten, byte.toNat ≤ 0x7f) {J : Type} (jsonParse : String → Option J)
    {loop : StreamLoop J} (hidle : loop.decoder.needed = 0) {frames : List (List Char)}
    (hdelivered : loop.delivered = frames.filterMap (parseFrame jsonParse)) :
    (chunks.foldl (StreamLoop.onChunk jsonParse) loop).delivered =
      ((chunks.map asciiText).foldl (Framing.readChunk ['\n', '\n'])
        (frames, loop.buffer)).1.filterMap (parseFrame jsonParse) := by
  induction chunks generalizing loop frames with
  | nil => exact hdelivered
  | cons chunk rest ih =>
      rw [List.flatten_cons, List.forall_mem_append] at h
      have hdecoded := decode_ascii hidle h.1
      have hread : (loop.onChunk jsonParse chunk).delivered = (Framing.readChunk ['\n', '\n']
          (frames, loop.buffer) (asciiText chunk)).1.filterMap (parseFrame jsonParse) := by
        rw [StreamLoop.onChunk, Framing.readChunk, List.filterMap_append, hdelivered,
          hdecoded.2]
        rfl
      have hchunk := ih h.2 hdecoded.1 hread
      rw [List.foldl_cons, List.map_cons, List.foldl_cons, hchunk, StreamLoop.onChunk,
        hdecoded.2]
      rfl

section

variable {rt : Runtime} (hfloat : rt.FloatTexts)

private theorem newline_not_ascii : isPrintableAscii '\n' = false := by
  decide

include hfloat

/-- The text that {lit}`json.dumps` writes for an object is one line, and nothing is trimmed
from it. -/
theorem jsonDumps_line {payload : Fields} {json : String}
    (h : rt.jsonDumps false (fun text _ => text) (.dict payload) = .ok json) :
    (∀ c ∈ json.toList, isPrintableAscii c = true) ∧ '\n' ∉ json.toList ∧
      jsTrimStart json.toList = json.toList := by
  have htext : json.toList = rt.jsonText (fun text _ => text) (.dict payload) := by
    rw [Runtime.jsonDumps] at h
    split at h
    · cases h
      simp
    · cases h
  have hascii : ∀ c ∈ json.toList, isPrintableAscii c = true := by
    rw [htext]
    exact jsonText_ascii _ hfloat _
  refine ⟨hascii, fun hmem => ?_, ?_⟩
  · have hprintable := hascii _ hmem
    rw [newline_not_ascii] at hprintable
    cases hprintable
  · rw [htext]
    exact List.dropWhile_cons_of_neg (by decide)

omit hfloat in
private theorem eventFrame_ascii (type : StreamEventType) {json : List Char}
    (h : ∀ c ∈ json, isPrintableAscii c = true) : ∀ c ∈ eventFrame type json, c.toNat ≤ 0x7f := by
  intro c hc
  unfold eventFrame at hc
  rcases List.mem_append.mp hc with hc | hc
  · exact eventLine_ascii type c hc
  rcases List.mem_cons.mp hc with rfl | hc
  · decide
  rcases List.mem_append.mp hc with hc | hc
  · exact dataLabel_ascii c hc
  · have hprintable := h c hc
    rw [isPrintableAscii, Bool.and_eq_true, decide_eq_true_eq, decide_eq_true_eq] at hprintable
    omega

/-- The frame is the one that {lit}`_sse` writes for an event, without the empty line behind
it. -/
def Runtime.IsEventFrame (rt : Runtime) (frame : List Char) (event : StreamEventType × Fields) :
    Prop :=
  ∃ json, rt.jsonDumps false (fun text _ => text) (.dict event.2) = .ok json ∧
    frame = eventFrame event.1 json.toList

/-- What is known of the frame of an event. -/
theorem isEventFrame_spec {frame : List Char} {event : StreamEventType × Fields}
    (h : rt.IsEventFrame frame event) :
    (∀ c ∈ frame, c.toNat ≤ 0x7f) ∧ Framing.Unambiguous ['\n', '\n'] frame ∧
      ∃ json, rt.jsonDumps false (fun text _ => text) (.dict event.2) = .ok json ∧
        ∀ {J : Type} (jsonParse : String → Option J), parseFrame jsonParse frame =
          (jsonParse json).map fun data => ⟨event.1, data⟩ := by
  rcases h with ⟨json, hdumps, rfl⟩
  rcases jsonDumps_line hfloat hdumps with ⟨hascii, hline, hstart⟩
  refine ⟨eventFrame_ascii _ hascii, eventFrame_unambiguous _ hline, json, hdumps, ?_⟩
  intro J jsonParse
  rw [parseFrame_eventFrame_eq jsonParse _ hline hstart, String.ofList_toList]

omit hfloat in
/-- The frames of a response body. -/
theorem sseBody_isEventFrame {events : List (StreamEventType × Fields)} {body : List UInt8}
    (h : rt.sseBody events = .ok body) :
    ∃ frames : List (List Char), List.Forall₂ rt.IsEventFrame frames events ∧
      body = utf8Bytes (frames.flatMap fun frame => frame ++ ['\n', '\n']) := by
  induction events generalizing body with
  | nil =>
      cases h
      exact ⟨[], .nil, rfl⟩
  | cons event rest ih =>
      rw [Runtime.sseBody, Runtime.sse] at h
      cases hdumps : rt.jsonDumps false (fun text _ => text) (.dict event.2) with
      | error exc =>
          rw [hdumps] at h
          cases h
      | ok json =>
          cases hbody : rt.sseBody rest with
          | error exc =>
              rw [hdumps, hbody] at h
              cases h
          | ok bytes =>
              rw [hdumps, hbody] at h
              rcases ih hbody with ⟨frames, hframes, hbytes⟩
              refine ⟨eventFrame event.1 json.toList :: frames,
                .cons ⟨json, hdumps, rfl⟩ hframes, ?_⟩
              rw [← Except.ok.inj h, sseText_eq, hbytes, List.flatMap_cons,
                utf8Bytes_append (eventFrame event.1 json.toList ++ _)]

/-- What is known of all frames of a stream. -/
theorem eventFrames_spec {frames : List (List Char)} {events : List (StreamEventType × Fields)}
    (h : List.Forall₂ rt.IsEventFrame frames events) :
    ∀ frame ∈ frames, (∀ c ∈ frame, c.toNat ≤ 0x7f) ∧
      Framing.Unambiguous ['\n', '\n'] frame := by
  induction h with
  | nil => exact List.forall_mem_nil _
  | cons hframe _ ih =>
      rcases isEventFrame_spec hfloat hframe with ⟨hascii, hclear, _⟩
      exact List.forall_mem_cons.mpr ⟨⟨hascii, hclear⟩, ih⟩

/-- The frames of a response body, and the events that are parsed from them. -/
theorem sseBody_frames {J : Type} {jsonParse : String → Option J} {value : Fields → J}
    {events : List (StreamEventType × Fields)} {body : List UInt8}
    (h : rt.sseBody events = .ok body)
    (hparse : ∀ event ∈ events, ∀ json,
      rt.jsonDumps false (fun text _ => text) (.dict event.2) = .ok json →
        jsonParse json = some (value event.2)) :
    ∃ frames : List (List Char),
      body = utf8Bytes (frames.flatMap fun frame => frame ++ ['\n', '\n']) ∧
      (∀ frame ∈ frames, ∀ c ∈ frame, c.toNat ≤ 0x7f) ∧
      (∀ frame ∈ frames, Framing.Unambiguous ['\n', '\n'] frame) ∧
      frames.filterMap (parseFrame jsonParse) =
        events.map fun event => ⟨event.1, value event.2⟩ := by
  rcases sseBody_isEventFrame h with ⟨frames, hframes, hbody⟩
  have hspec := eventFrames_spec hfloat hframes
  refine ⟨frames, hbody, fun frame hframe => (hspec frame hframe).1,
    fun frame hframe => (hspec frame hframe).2, ?_⟩
  clear hbody h hspec
  induction hframes with
  | nil => rfl
  | cons hframe _ ih =>
      rw [List.forall_mem_cons] at hparse
      rcases isEventFrame_spec hfloat hframe with ⟨-, -, json, hdumps, hparsed⟩
      have hevent := hparsed jsonParse
      rw [hparse.1 json hdumps, Option.map_some] at hevent
      rw [List.filterMap_cons_some hevent, ih hparse.2, List.map_cons]

omit hfloat in
theorem framesText_ascii {frames : List (List Char)}
    (h : ∀ frame ∈ frames, ∀ c ∈ frame, c.toNat ≤ 0x7f) :
    ∀ c ∈ frames.flatMap fun frame => frame ++ ['\n', '\n'], c.toNat ≤ 0x7f := by
  have hseparator : ∀ c ∈ ['\n', '\n'], c.toNat ≤ 0x7f := by simp
  intro c hc
  rcases List.mem_flatMap.mp hc with ⟨frame, hframe, hc⟩
  rcases List.mem_append.mp hc with hc | hc
  · exact h frame hframe c hc
  · exact hseparator c hc

omit hfloat in
/-- Chunks of ASCII bytes are read as the frames of the text that they make together. -/
theorem streamRunEvents_ascii {J : Type} (jsonParse : String → Option J)
    {chunks : List (List UInt8)} (h : ∀ byte ∈ chunks.flatten, byte.toNat ≤ 0x7f) :
    streamRunEvents jsonParse chunks =
      (Framing.drain ['\n', '\n'] (asciiText chunks.flatten)).1.filterMap
        (parseFrame jsonParse) := by
  have hdecoded : (chunks.foldl (StreamLoop.onChunk jsonParse) ⟨.fresh, [], []⟩).delivered =
      ((chunks.map asciiText).foldl (Framing.readChunk ['\n', '\n'])
        ([], [])).1.filterMap (parseFrame jsonParse) :=
    decodeChunks_ascii h jsonParse rfl rfl
  have hflatten : (chunks.map asciiText).flatten = asciiText chunks.flatten := by
    rw [asciiText, List.map_flatten]
    rfl
  have hread := Framing.readChunks_eq (List.cons_ne_nil '\n' ['\n']) (chunks.map asciiText)
  rw [Framing.readChunks, hflatten] at hread
  rw [streamRunEvents, hdecoded, hread]

/-- The editor gets exactly the events that the server wrote, in order and with the values
that {lit}`JSON.parse` gives for their payloads, for every way of cutting the response
body into chunks. -/
theorem streamRunEvents_events {J : Type} {jsonParse : String → Option J} {value : Fields → J}
    {events : List (StreamEventType × Fields)} {body : List UInt8}
    (hbody : rt.sseBody events = .ok body)
    (hparse : ∀ event ∈ events, ∀ json,
      rt.jsonDumps false (fun text _ => text) (.dict event.2) = .ok json →
        jsonParse json = some (value event.2))
    {chunks : List (List UInt8)} (hchunks : chunks.flatten = body) :
    streamRunEvents jsonParse chunks = events.map fun event => ⟨event.1, value event.2⟩ := by
  rcases sseBody_frames hfloat hbody hparse with ⟨frames, hbytes, hascii, hclear, hparsed⟩
  have htext := framesText_ascii hascii
  have hstream : chunks.flatten =
      utf8Bytes (frames.flatMap fun frame => frame ++ ['\n', '\n']) := hchunks.trans hbytes
  have hbytes' : ∀ byte ∈ chunks.flatten, byte.toNat ≤ 0x7f := by
    rw [hstream]
    exact utf8Bytes_ascii_le htext
  rw [streamRunEvents_ascii jsonParse hbytes', hstream, asciiText_utf8Bytes htext,
    Framing.drain_frames (List.cons_ne_nil '\n' ['\n']) hclear, hparsed]

end

namespace RunEventSamples

/-- A run that starts and says something. -/
def events : List (StreamEventType × Fields) :=
  [(.status, [("status", .str "running")]), (.log, [("id", .int 7), ("message", .str "a\n\nb")])]

/-- {lit}`JSON.parse` on the two payloads. -/
def jsonParse (text : String) : Option Fields :=
  if text = "\x7b\"status\": \"running\"\x7d" then some [("status", .str "running")]
  else if text = "\x7b\"id\": 7, \"message\": \"a\\n\\nb\"\x7d" then
    some [("id", .int 7), ("message", .str "a\n\nb")]
  else none

end RunEventSamples

theorem streamRunEvents_events_cut :
    ∃ body, decimalRuntime.sseBody RunEventSamples.events = .ok body ∧
      streamRunEvents RunEventSamples.jsonParse
          [body.take 9, (body.drop 9).take 32, [], body.drop 41] =
        [⟨.status, [("status", .str "running")]⟩,
          ⟨.log, [("id", .int 7), ("message", .str "a\n\nb")]⟩] := by
  have hparse : ∀ event ∈ RunEventSamples.events, ∀ json,
      decimalRuntime.jsonDumps false (fun text _ => text) (.dict event.2) = .ok json →
        RunEventSamples.jsonParse json = some (id event.2) := by
    have hread : ∀ event ∈ RunEventSamples.events,
        (decimalRuntime.jsonDumps false (fun text _ => text) (.dict event.2)).map
          RunEventSamples.jsonParse = .ok (some event.2) := by
      decide +kernel
    intro event hevent json hjson
    have := hread event hevent
    rw [hjson] at this
    exact Except.ok.inj this
  cases hbody : decimalRuntime.sseBody RunEventSamples.events with
  | error exc =>
      have hok : (decimalRuntime.sseBody RunEventSamples.events).isOk = true := by decide +kernel
      rw [hbody] at hok
      cases hok
  | ok body =>
      refine ⟨body, rfl, streamRunEvents_events decimalRuntime_floatTexts hbody hparse ?_⟩
      have htail : body.drop 9 = (body.drop 9).take 32 ++ body.drop 41 := by
        have hdrop : (body.drop 9).drop 32 = body.drop 41 := List.drop_drop
        rw [← hdrop, List.take_append_drop]
      simp only [List.flatten_cons, List.flatten_nil, List.append_nil, List.nil_append]
      rw [← htail, List.take_append_drop]

end EtlTool
