import EtlTool.Editor.RunInvariant

/-!
# What the run view shows

The controller does not check, when a response arrives, whether the user has gone on since,
and it follows an unfinished run from its first log row although it shows the rows that are
stored already.  Where neither matters, the view shows one run.

Main results:

- Theorem {lit}`Inv.next`: what every step keeps when no superseded response writes the view
  and an unfinished run is shown before its first log row.
- Theorem {lit}`runView_shows_one_run`: in every interleaving of such steps the view shows one
  run.
- Theorem {lit}`crossing_responses`: two responses that cross leave the wrong run in the view.
-/

namespace EtlTool

namespace RunSystem

/-- The steps on which the view relies: a response that writes the view was made for the
latest action of the user, {lit}`showRun` gets its detail, and the detail of a run that is not
finished has no log rows yet. -/
def Timely (s : RunSystem) : Action → Prop
  | .deliver i =>
      match s.requests[i]? with
      | none => True
      | some request =>
          match request.call with
          | .showRun _ (.answered detail) =>
              request.action = s.latest ∧ (detail.run.status.terminal = true ∨ detail.logs = [])
          | .showRun _ .failed => request.action ≠ s.latest
          | .finalize _ .failed => True
          | _ => request.action = s.latest
  | _ => True

instance (s : RunSystem) (a : Action) : Decidable (s.Timely a) := by
  unfold Timely
  split
  · split
    · infer_instance
    · split <;> infer_instance
  · infer_instance

/-! ## Responses -/

/-- No other pending call of the action opens a view. -/
theorem Inv.opening_ne {s : RunSystem} (h : s.Inv) {i : Nat} {request : PendingCall}
    (hi : s.requests[i]? = some request) (hopens : request.call.opens = true) :
    ∀ q ∈ s.requests.eraseIdx i, q.call.opens = true → q.action ≠ request.action := by
  intro q hq hqopens heq
  rcases List.getElem?_eq_some_iff.mp hi with ⟨hlt, rfl⟩
  have hperm := (List.getElem_cons_eraseIdx_perm hlt).filterMap RunSystem.opening
  have hnodup := hperm.nodup_iff.mpr h.opening
  have hsome : RunSystem.opening s.requests[i] = some s.requests[i].action := by
    simp [RunSystem.opening, hopens]
  rw [List.filterMap_cons_some hsome, List.nodup_cons] at hnodup
  refine hnodup.1 (List.mem_filterMap.mpr ⟨q, hq, ?_⟩)
  simp [RunSystem.opening, hqopens, heq]

/-- While a call for the latest action is pending, no stream is open. -/
theorem Inv.closed_of_pending {s : RunSystem} (h : s.Inv) {request : PendingCall}
    (hmem : request ∈ s.requests) (haction : request.action = s.latest) :
    ∀ stream ∈ s.streams, stream.closed = true := by
  intro stream hstream
  rcases List.mem_iff_getElem?.mp hstream with ⟨j, hj⟩
  by_contra hopen
  rw [Bool.not_eq_true] at hopen
  exact (h.live j stream hj hopen).alone request hmem haction

/-- Once the call that opens the view of the latest action is answered, none is pending for
this action. -/
theorem Inv.alone_of_opens {s : RunSystem} (h : s.Inv) {i : Nat} {request : PendingCall}
    (hi : s.requests[i]? = some request) (hopens : request.call.opens = true)
    (haction : request.action = s.latest) :
    ∀ q ∈ s.requests.eraseIdx i, q.action ≠ s.latest := by
  intro q hq hlatest
  by_cases hqopens : q.call.opens = true
  · exact h.opening_ne hi hopens q hq hqopens (hlatest.trans haction.symm)
  · have hwaits := h.waits q (List.mem_of_mem_eraseIdx hq) hlatest
    cases hcall : q.call with
    | trigger reply => exact hqopens (by rw [hcall]; rfl)
    | showRun runId reply => exact hqopens (by rw [hcall]; rfl)
    | finalize runId reply =>
        rw [hcall] at hwaits
        exact hwaits.2 request (List.mem_of_getElem? hi) hopens haction

/-- What the continuation of a response has to establish. -/
theorem Inv.deliver {s s' : RunSystem} (h : s.Inv) {i : Nat} (hhistory : s'.history = s.history)
    (hlatest : s'.latest = s.latest) (hrequests : s'.requests = s.requests.eraseIdx i)
    (hfollows : ∀ stream ∈ s'.streams, stream ∈ s.streams ∨
      Client.Follows (s.history stream.runId) stream.server ∧
        stream.delivered ≤ stream.server.received.length)
    (hlive : ∀ (j : Nat) (stream : RunStream), s'.streams[j]? = some stream →
      stream.closed = false → Live s' j stream)
    (hwaits : ∀ q ∈ s'.requests, q.action = s.latest → s'.Waits q.call)
    (hsettled : (∀ q ∈ s'.requests, q.call.opens = true → q.action ≠ s.latest) → s'.Belongs)
    (hlogs : s'.LogsOfRun) : s'.Inv := by
  have hmem : ∀ q ∈ s'.requests, q ∈ s.requests := by
    intro q hq
    rw [hrequests] at hq
    exact List.mem_of_mem_eraseIdx hq
  constructor
  case ids =>
    rw [hhistory]
    exact h.ids
  case calls =>
    rw [hhistory]
    exact fun q hq => h.calls q (hmem q hq)
  case follows =>
    intro stream hstream
    rw [hhistory]
    rcases hfollows stream hstream with hold | hnew
    · exact h.follows stream hold
    · exact hnew
  case actions =>
    rw [hlatest]
    exact fun q hq => h.actions q (hmem q hq)
  case opening =>
    rw [hrequests]
    exact h.opening.sublist ((List.eraseIdx_sublist _ _).filterMap _)
  case live => exact hlive
  case waits =>
    rw [hlatest]
    exact hwaits
  case settled =>
    rw [hlatest]
    exact hsettled
  case logs => exact hlogs

/-- The first response to the latest action sets the view, and follows the run when it is
not finished. -/
theorem Inv.deliver_opens {s s' : RunSystem} (h : s.Inv) {i : Nat} {request : PendingCall}
    (hi : s.requests[i]? = some request) (hopens : request.call.opens = true)
    (haction : request.action = s.latest) (hhistory : s'.history = s.history)
    (hlatest : s'.latest = s.latest) (hrequests : s'.requests = s.requests.eraseIdx i)
    (hstreams : s'.streams = s.streams ∨ ∃ runId, s.history runId ≠ [] ∧
      s'.requested = .run runId ∧ s'.view.logs = [] ∧ s'.abortRef = some s.streams.length ∧
        s'.streams = s.streams ++ [⟨runId, request.action, .initial, 0, false⟩])
    (hbelongs : s'.Belongs) (hlogs : s'.LogsOfRun) : s'.Inv := by
  have hclosed := h.closed_of_pending (List.mem_of_getElem? hi) haction
  have halone : ∀ q ∈ s'.requests, q.action ≠ s.latest := by
    rw [hrequests]
    exact h.alone_of_opens hi hopens haction
  refine h.deliver hhistory hlatest hrequests ?_ ?_ ?_ (fun _ => hbelongs) hlogs
  · intro stream hstream
    rcases hstreams with hsame | ⟨runId, hstored, -, -, -, hattached⟩
    · rw [hsame] at hstream
      exact Or.inl hstream
    · rw [hattached, List.mem_append, List.mem_singleton] at hstream
      rcases hstream with hold | rfl
      · exact Or.inl hold
      · exact Or.inr ⟨.initial hstored, Nat.zero_le _⟩
  · intro j stream hj hopen
    rcases hstreams with hsame | ⟨runId, hstored, hrequested, hnone, habort, hattached⟩
    · rw [hsame] at hj
      rw [hclosed stream (List.mem_of_getElem? hj)] at hopen
      cases hopen
    · rw [hattached] at hj
      by_cases hlt : j < s.streams.length
      · rw [List.getElem?_append_left hlt] at hj
        rw [hclosed stream (List.mem_of_getElem? hj)] at hopen
        cases hopen
      · rw [List.getElem?_append_right (Nat.le_of_not_lt hlt), List.getElem?_singleton,
          Option.ite_none_right_eq_some] at hj
        rcases hj with ⟨hj, heq⟩
        cases heq
        have hlast : j = s.streams.length := by omega
        rw [hlast]
        exact ⟨habort, haction.trans hlatest.symm, hrequested, hnone, hlatest ▸ halone⟩
  · intro q hq hqaction
    exact absurd hqaction (halone q hq)

/-- A response that the view does not need. -/
theorem Inv.deliver_unused {s : RunSystem} (h : s.Inv) {i : Nat} {request : PendingCall}
    (hi : s.requests[i]? = some request)
    (hunused : request.call.opens = true → request.action ≠ s.latest) (running : Bool) :
    Inv { s with
      requests := s.requests.eraseIdx i
      view := { s.view with running := running } } := by
  have hnone : (∀ q ∈ s.requests.eraseIdx i, q.call.opens = true → q.action ≠ s.latest) →
      ∀ q ∈ s.requests, q.call.opens = true → q.action ≠ s.latest := by
    intro hrest q hq hopens
    rcases List.getElem?_eq_some_iff.mp hi with ⟨hlt, hget⟩
    have hperm := List.getElem_cons_eraseIdx_perm hlt
    rcases List.mem_cons.mp (hperm.mem_iff.mpr hq) with rfl | hq
    · rw [hget] at hopens ⊢
      exact hunused hopens
    · exact hrest q hq hopens
  refine h.deliver rfl rfl rfl (fun stream hstream => Or.inl hstream) ?_ ?_ ?_ ?_
  · intro j stream hj hopen
    rcases h.live j stream hj hopen with ⟨habort, haction, hrequested, hlogs, halone⟩
    exact ⟨habort, haction, hrequested, hlogs, fun q hq => halone q (List.mem_of_mem_eraseIdx hq)⟩
  · intro q hq haction
    refine (h.waits q (List.mem_of_mem_eraseIdx hq) haction).congr q.call.alike_refl rfl
      ⟨rfl, rfl, rfl, rfl⟩ ?_
    exact fun hrest p hp => hrest p (List.mem_of_mem_eraseIdx hp)
  · intro hrest
    exact Belongs.mono (h.settled (hnone hrest)) rfl ⟨rfl, rfl, rfl, rfl⟩
      fun _ => List.Subset.refl _
  · exact ⟨h.logs.stored, h.logs.once⟩

/-- The run that was triggered: the view gets its id and its status, and follows it. -/
theorem Inv.deliver_triggered {s : RunSystem} (h : s.Inv) {i : Nat} {request : PendingCall}
    {runId : String} {status : RunState} (hi : s.requests[i]? = some request)
    (hcall : request.call = .trigger (.answered runId status))
    (haction : request.action = s.latest) :
    (attach
      { s with
        requests := s.requests.eraseIdx i
        view := { s.view with runId := some runId, status := some status }
        requested := s.learn request.action (.run runId) } runId request.action).Inv := by
  have hmem := List.mem_of_getElem? hi
  have hread := h.calls request hmem
  have hwaits := h.waits request hmem haction
  rw [hcall] at hread hwaits
  rcases hread with ⟨⟨db, hdb, hnoErrors⟩, hstatus⟩
  rcases hwaits with ⟨-, -, hlogs, herrors, hstates⟩
  have hrequested : s.learn request.action (.run runId) = .run runId := if_pos haction
  refine h.deliver_opens hi (by rw [hcall]; rfl) haction rfl rfl rfl ?_ ?_ ?_
  · exact Or.inr ⟨runId, List.ne_nil_of_mem hdb, hrequested, hlogs, rfl, rfl⟩
  · apply Belongs.of_run hrequested
    constructor
    case run => rfl
    case status => exact ⟨status, rfl, hstatus⟩
    case errors => exact ⟨db, hdb, hnoErrors.trans herrors.symm⟩
    case nodeStates =>
      intro nodeId state hstate
      simp only [attach, hstates] at hstate
      cases hstate
  · constructor
    case stored =>
      intro row hrow
      simp only [attach, hlogs] at hrow
      cases hrow
    case once => simp [attach, hlogs]

/-- The run that was not triggered: the view gets the error. -/
theorem Inv.deliver_triggerFailed {s : RunSystem} (h : s.Inv) {i : Nat} {request : PendingCall}
    {message : String} (hi : s.requests[i]? = some request)
    (hcall : request.call = .trigger (.failed message)) (haction : request.action = s.latest) :
    Inv { s with
      requests := s.requests.eraseIdx i
      view := { RunView.empty with status := some .failed, errors := [triggerError message] }
      requested := s.learn request.action (.failedTrigger message) } := by
  have hrequested : s.learn request.action (.failedTrigger message) = .failedTrigger message :=
    if_pos haction
  refine h.deliver_opens hi (by rw [hcall]; rfl) haction rfl rfl rfl (Or.inl rfl) ?_
    ⟨nofun, List.nodup_nil⟩
  unfold Belongs
  simp only [hrequested]
  exact ⟨rfl, rfl, rfl, rfl⟩

/-- The run that is shown: the view gets its detail, and follows it when it is not finished. -/
theorem Inv.deliver_shown {s : RunSystem} (h : s.Inv) {i : Nat} {request : PendingCall}
    {runId : String} {detail : RunDetail} (hi : s.requests[i]? = some request)
    (hcall : request.call = .showRun runId (.answered detail))
    (haction : request.action = s.latest)
    (hnew : detail.run.status.terminal = true ∨ detail.logs = []) {s' : RunSystem}
    (hs' : respond { s with requests := s.requests.eraseIdx i } request.action request.call =
      some s') : s'.Inv := by
  have hmem := List.mem_of_getElem? hi
  have hread := h.calls request hmem
  have hwaits := h.waits request hmem haction
  rw [hcall] at hread hwaits hs'
  have hrequested : s.requested = .run runId := hwaits
  have hopens : request.call.opens = true := by rw [hcall]; rfl
  rcases DetailReply.Read.ids hread (h.ids runId) with ⟨hstored, honce⟩
  have hbelongs : BelongsTo (s.history runId) runId (.ofDetail runId detail) :=
    .ofDetail hread runId
  simp only [respond, Option.some.injEq] at hs'
  split at hs'
  · subst hs'
    refine h.deliver_opens hi hopens haction rfl rfl rfl (Or.inl rfl) ?_ ?_
    · exact Belongs.of_run hrequested hbelongs
    · exact ⟨fun row hrow => ⟨runId, rfl, hstored row hrow⟩, honce⟩
  · rename_i hopen
    subst hs'
    have hstates : s.history runId ≠ [] := by
      rcases hread.1 with ⟨db, hdb, -⟩
      exact List.ne_nil_of_mem hdb
    refine h.deliver_opens hi hopens haction rfl rfl rfl ?_ ?_ ?_
    · exact Or.inr ⟨runId, hstates, hrequested, hnew.resolve_left hopen, rfl, rfl⟩
    · exact Belongs.of_run hrequested hbelongs
    · exact ⟨fun row hrow => ⟨runId, rfl, hstored row hrow⟩, honce⟩

/-- The run that has been followed: the view gets its detail. -/
theorem Inv.deliver_finalized {s : RunSystem} (h : s.Inv) {i : Nat} {request : PendingCall}
    {runId : String} {detail : RunDetail} (hi : s.requests[i]? = some request)
    (hcall : request.call = .finalize runId (.answered detail))
    (haction : request.action = s.latest) :
    Inv { s with
      requests := s.requests.eraseIdx i
      view := s.view.finalized runId detail } := by
  have hmem := List.mem_of_getElem? hi
  have hread := h.calls request hmem
  have hwaits := h.waits request hmem haction
  rw [hcall] at hread hwaits
  rcases hwaits with ⟨hrequested, hnone⟩
  have hclosed := h.closed_of_pending hmem haction
  have hshown : s.view.runId = some runId := by
    have hbelongs := h.settled hnone
    unfold Belongs at hbelongs
    rw [hrequested] at hbelongs
    exact hbelongs.run
  rcases DetailReply.Read.ids hread (h.ids runId) with ⟨hstored, honce⟩
  refine h.deliver rfl rfl rfl (fun stream hstream => Or.inl hstream) ?_ ?_ ?_ ?_
  · intro j stream hj hopen
    rw [hclosed stream (List.mem_of_getElem? hj)] at hopen
    cases hopen
  · intro q hq hqaction
    have hqmem := List.mem_of_mem_eraseIdx hq
    have hqwaits := h.waits q hqmem hqaction
    cases hqcall : q.call with
    | finalize other reply =>
        rw [hqcall] at hqwaits
        exact ⟨hqwaits.1, fun p hp => hqwaits.2 p (List.mem_of_mem_eraseIdx hp)⟩
    | trigger reply => exact absurd hqaction (hnone q hqmem (by rw [hqcall]; rfl))
    | showRun other reply => exact absurd hqaction (hnone q hqmem (by rw [hqcall]; rfl))
  · intro _
    exact Belongs.of_run hrequested (.finalized hread runId s.view)
  · constructor
    case stored =>
      intro row hrow
      refine ⟨runId, rfl, ?_⟩
      simp only [RunView.finalized] at hrow
      split at hrow
      · rcases h.logs.stored row hrow with ⟨id, hid, hrow⟩
        cases hshown.symm.trans hid
        exact hrow
      · exact hstored row hrow
    case once =>
      simp only [RunView.finalized]
      split
      · exact h.logs.once
      · exact honce

/-- Every response in time keeps the invariant. -/
theorem Inv.respond {s s' : RunSystem} (h : s.Inv) {i : Nat} {request : PendingCall}
    (hi : s.requests[i]? = some request) (htimely : s.Timely (.deliver i))
    (hs' : RunSystem.respond { s with requests := s.requests.eraseIdx i } request.action
      request.call = some s') : s'.Inv := by
  simp only [Timely, hi] at htimely
  cases hcall : request.call with
  | trigger reply =>
      rw [hcall] at hs' htimely
      cases reply with
      | answered runId status =>
          cases hs'
          exact h.deliver_triggered hi hcall htimely
      | failed message =>
          cases hs'
          exact h.deliver_triggerFailed hi hcall htimely
      | asked => cases hs'
      | created runId => cases hs'
  | showRun runId reply =>
      cases reply with
      | answered detail =>
          rw [hcall] at htimely
          exact h.deliver_shown hi hcall htimely.1 htimely.2 hs'
      | failed =>
          rw [hcall] at hs' htimely
          cases hs'
          exact h.deliver_unused hi (fun _ => htimely) s.view.running
      | asked => rw [hcall] at hs'; cases hs'
      | sawRun run => rw [hcall] at hs'; cases hs'
      | sawLogs run logs => rw [hcall] at hs'; cases hs'
  | finalize runId reply =>
      cases reply with
      | answered detail =>
          rw [hcall] at hs' htimely
          cases hs'
          exact h.deliver_finalized hi hcall htimely
      | failed =>
          rw [hcall] at hs'
          cases hs'
          refine h.deliver_unused hi (fun hopens => ?_) false
          rw [hcall] at hopens
          cases hopens
      | asked => rw [hcall] at hs'; cases hs'
      | sawRun run => rw [hcall] at hs'; cases hs'
      | sawLogs run logs => rw [hcall] at hs'; cases hs'

/-! ## Streams -/

private theorem Inv.belongsTo {s : RunSystem} (h : s.Inv) {i : Nat} {stream : RunStream}
    (hlive : Live s i stream) : BelongsTo (s.history stream.runId) stream.runId s.view := by
  have hbelongs := h.settled fun request hmem _ => hlive.alone request hmem
  unfold Belongs at hbelongs
  rw [hlive.requested] at hbelongs
  exact hbelongs

/-- What a step of a stream has to establish: the stream goes on, and its events change the
view only while it is open. -/
theorem Inv.stream {s : RunSystem} (h : s.Inv) {i : Nat} {stream stream' : RunStream}
    {view : RunView} (hi : s.streams[i]? = some stream) (hrun : stream'.runId = stream.runId)
    (haction : stream'.action = stream.action) (hclosed : stream'.closed = stream.closed)
    (hfollows : Client.Follows (s.history stream.runId) stream'.server ∧
      stream'.delivered ≤ stream'.server.received.length)
    (hview : view = s.view ∨ stream.closed = false ∧ LogsOfRun { s with view := view } ∧
      BelongsTo (s.history stream.runId) stream.runId view)
    (hrows : Live s i stream →
      view.logs = logRows (stream'.server.received.take stream'.delivered)) :
    Inv { s with streams := s.streams.set i stream', view := view } := by
  have hrequested : view = s.view ∨ ∃ runId, s.requested = .run runId ∧
      BelongsTo (s.history runId) runId view ∧ ∀ q ∈ s.requests, q.action ≠ s.latest := by
    rcases hview with hsame | ⟨hopen, -, hbelongs⟩
    · exact Or.inl hsame
    · have hlive := h.live i stream hi hopen
      exact Or.inr ⟨stream.runId, hlive.requested, hbelongs, hlive.alone⟩
  constructor
  case ids => exact h.ids
  case calls => exact h.calls
  case follows =>
    intro other hother
    rcases List.mem_or_eq_of_mem_set hother with hold | rfl
    · exact h.follows other hold
    · rw [hrun]
      exact hfollows
  case actions => exact h.actions
  case opening => exact h.opening
  case live =>
    intro j other hj hopen
    by_cases hij : i = j
    · subst hij
      have hlt := (List.getElem?_eq_some_iff.mp hi).1
      rw [List.getElem?_set_self hlt] at hj
      cases hj
      have hlive := h.live i stream hi (hclosed ▸ hopen)
      exact ⟨hlive.abort, haction.trans hlive.action, hrun ▸ hlive.requested, hrows hlive,
        hlive.alone⟩
    · have hj' : s.streams[j]? = some other := by
        rw [← hj]
        exact (List.getElem?_set_ne hij).symm
      have hlive := h.live j other hj' hopen
      rcases hview with rfl | ⟨hi', -, -⟩
      · exact ⟨hlive.abort, hlive.action, hlive.requested, hlive.logs, hlive.alone⟩
      · have hsame := (h.live i stream hi hi').abort.symm.trans hlive.abort
        exact absurd (Option.some.inj hsame) hij
  case waits =>
    intro q hq hqaction
    rcases hrequested with rfl | ⟨runId, -, -, halone⟩
    · exact (h.waits q hq hqaction).congr q.call.alike_refl rfl ⟨rfl, rfl, rfl, rfl⟩ id
    · exact absurd hqaction (halone q hq)
  case settled =>
    intro hnone
    rcases hrequested with rfl | ⟨runId, hrequested, hbelongs, -⟩
    · exact Belongs.mono (h.settled hnone) rfl ⟨rfl, rfl, rfl, rfl⟩ fun _ => List.Subset.refl _
    · exact Belongs.of_run hrequested hbelongs
  case logs =>
    rcases hview with rfl | ⟨-, hlogs, -⟩
    · exact ⟨h.logs.stored, h.logs.once⟩
    · exact ⟨hlogs.stored, hlogs.once⟩

/-- The server's end of a stream gets on. -/
theorem Inv.poll {s : RunSystem} (h : s.Inv) {i : Nat} {stream : RunStream} {db : Database}
    {server : Client} (hi : s.streams[i]? = some stream)
    (hdb : s.current stream.runId = some db) (hstep : Client.Step db stream.server server) :
    Inv { s with streams := s.streams.set i { stream with server := server } } := by
  rcases h.follows stream (List.mem_of_getElem? hi) with ⟨hfollows, hdelivered⟩
  have hgrown := hstep.received
  refine h.stream hi rfl rfl rfl ⟨?_, ?_⟩ (Or.inl rfl) ?_
  · exact hfollows.step hdb (h.ids stream.runId db (List.mem_of_head? hdb)) hstep
  · exact hdelivered.trans hgrown.length_le
  · intro hlive
    rcases hgrown with ⟨sent, hsent⟩
    rw [← hsent, List.take_append_of_le_length hdelivered]
    exact hlive.logs

/-- What the view shows when an open stream has delivered its next event. -/
theorem Inv.deliver_event {s : RunSystem} (h : s.Inv) {i : Nat} {stream : RunStream}
    {frame : Frame} {view : RunView} (hi : s.streams[i]? = some stream)
    (hopen : stream.closed = false)
    (hframe : stream.server.received[stream.delivered]? = some frame)
    (hlogs : view.logs = s.view.logs ++ logRows [frame])
    (hbelongs : BelongsTo (s.history stream.runId) stream.runId view) :
    Inv { s with
      streams := s.streams.set i { stream with delivered := stream.delivered + 1 }
      view := view } := by
  have hlive := h.live i stream hi hopen
  rcases h.follows stream (List.mem_of_getElem? hi) with ⟨hfollows, hdelivered⟩
  have hlt : stream.delivered < stream.server.received.length :=
    (List.getElem?_eq_some_iff.mp hframe).1
  have hrows : view.logs = logRows (stream.server.received.take (stream.delivered + 1)) := by
    rw [hlogs, hlive.logs, ← Client.logRows_append, List.take_add_one, hframe]
    rfl
  rcases hfollows.received_rows (h.ids stream.runId) (stream.delivered + 1) with
    ⟨⟨db, hdb, hstored⟩, honce⟩
  refine h.stream hi rfl rfl rfl ⟨hfollows, hlt⟩ (Or.inr ⟨hopen, ?_, hbelongs⟩)
    (fun _ => hrows)
  constructor
  case stored =>
    intro row hrow
    exact ⟨stream.runId, hbelongs.run, db, hdb, hstored row (hrows ▸ hrow)⟩
  case once =>
    show (view.logs.map RunLog.id).Nodup
    rw [hrows]
    exact honce

/-- The stream ends: it is cancelled, and the run is fetched once more. -/
theorem Inv.finish {s : RunSystem} (h : s.Inv) {i : Nat} {stream stream' : RunStream}
    (hi : s.streams[i]? = some stream) (hopen : stream.closed = false)
    (hrun : stream'.runId = stream.runId)
    (hfollows : Client.Follows (s.history stream.runId) stream'.server ∧
      stream'.delivered ≤ stream'.server.received.length) :
    ((stop { s with streams := s.streams.set i stream' }).finalize stream.runId
      stream.action).Inv := by
  have hlive := h.live i stream hi hopen
  have hclosed : ∀ other ∈ (stop { s with streams := s.streams.set i stream' }).streams,
      other.closed = true := by
    apply RunSystem.closed_of_stop
    intro j other hj hother
    by_cases hij : i = j
    · exact hij ▸ hlive.abort
    · have hj' : s.streams[j]? = some other := by
        rw [← hj]
        exact (List.getElem?_set_ne hij).symm
      exact (h.live j other hj' hother).abort
  have hrequests : ∀ q ∈ s.requests ++ [⟨stream.action, .finalize stream.runId .asked⟩],
      q ∈ s.requests ∨ q = ⟨stream.action, .finalize stream.runId .asked⟩ := by
    intro q hq
    rwa [List.mem_append, List.mem_singleton] at hq
  constructor
  case ids => exact h.ids
  case calls =>
    intro q hq
    rcases hrequests q hq with hold | rfl
    · exact h.calls q hold
    · trivial
  case follows =>
    refine forall_mem_stop ?_ fun _ hstream => hstream
    intro other hother
    rcases List.mem_or_eq_of_mem_set hother with hold | rfl
    · exact h.follows other hold
    · rw [hrun]
      exact hfollows
  case actions =>
    intro q hq
    rcases hrequests q hq with hold | rfl
    · exact h.actions q hold
    · exact Nat.le_of_eq hlive.action
  case opening =>
    have hnone : [(⟨stream.action, .finalize stream.runId .asked⟩ : PendingCall)].filterMap
        RunSystem.opening = [] := rfl
    simp only [finalize, stop]
    rw [List.filterMap_append, hnone, List.append_nil]
    exact h.opening
  case live =>
    intro j other hj hother
    rw [hclosed other (List.mem_of_getElem? hj)] at hother
    cases hother
  case waits =>
    intro q hq hqaction
    rcases hrequests q hq with hold | rfl
    · exact absurd hqaction (hlive.alone q hold)
    · refine ⟨hlive.requested, ?_⟩
      intro p hp hpopens
      rcases hrequests p hp with hold | rfl
      · exact hlive.alone p hold
      · cases hpopens
  case settled =>
    intro _
    exact Belongs.of_run hlive.requested (h.belongsTo hlive)
  case logs => exact ⟨h.logs.stored, h.logs.once⟩

/-- Every event of an open stream keeps the invariant. -/
theorem Inv.frame {s : RunSystem} (h : s.Inv) {i : Nat} {stream : RunStream} {frame : Frame}
    (hi : s.streams[i]? = some stream) (hopen : stream.closed = false)
    (hframe : stream.server.received[stream.delivered]? = some frame) :
    (onEvent
      { s with
        streams := s.streams.set i { stream with delivered := stream.delivered + 1 } }
      stream.runId stream.action frame).Inv := by
  have hbelongs := h.belongsTo (h.live i stream hi hopen)
  rcases h.follows stream (List.mem_of_getElem? hi) with ⟨hfollows, -⟩
  have hlt : stream.delivered < stream.server.received.length :=
    (List.getElem?_eq_some_iff.mp hframe).1
  cases frame with
  | log row =>
      refine h.deliver_event hi hopen hframe rfl (hbelongs.appendLog ?_)
      rcases hfollows.received_rows (h.ids stream.runId) (stream.delivered + 1) with
        ⟨⟨db, hdb, hstored⟩, -⟩
      refine ⟨db, hdb, hstored row ?_⟩
      rw [List.take_add_one, hframe, Client.logRows_append]
      exact List.mem_append_right _ List.mem_cons_self
  | status status =>
      refine h.deliver_event hi hopen hframe (List.append_nil _).symm ?_
      have hmem : .status status ∈ stream.server.frames :=
        List.mem_append_left _ (List.mem_of_getElem? hframe)
      exact ⟨hbelongs.run, ⟨status, rfl, hfollows.statuses status hmem⟩, hbelongs.errors,
        hbelongs.nodeStates⟩
  | done status errors => exact h.finish hi hopen rfl ⟨hfollows, hlt⟩
  | timeout status => exact h.finish hi hopen rfl ⟨hfollows, hlt⟩

/-! ## The system -/

/-- Every step of the system keeps the invariant, when responses are in time. -/
theorem Inv.next {s s' : RunSystem} {a : Action} (h : s.Inv) (htimely : s.Timely a)
    (hs' : s.next a = some s') : s'.Inv := by
  cases a with
  | trigger =>
      cases hs'
      exact h.trigger
  | showRun runId =>
      cases hs'
      exact h.showRun runId
  | clear =>
      cases hs'
      exact h.clear
  | store runId db =>
      simp only [RunSystem.next] at hs'
      split at hs'
      · cases hs'
      · rename_i before hbefore
        rw [Option.ite_none_right_eq_some, Option.some.injEq] at hs'
        rcases hs' with ⟨⟨hgrown, hids⟩, rfl⟩
        exact h.record hids (Or.inr ⟨before, hbefore, hgrown⟩)
  | create i runId ownerId pipelineSpec =>
      simp only [RunSystem.next] at hs'
      split at hs'
      · rename_i action hi
        rw [Option.ite_none_right_eq_some, Option.some.injEq] at hs'
        rcases hs' with ⟨hnew, rfl⟩
        have hids : IdsIncrease (createdRun ownerId pipelineSpec).logs :=
          List.pairwise_singleton _ _
        refine (h.record hids (Or.inl hnew)).progress hi (.trigger _ _)
          ⟨createdRun ownerId pipelineSpec, ?_, rfl⟩
        simp [RunSystem.record]
      · cases hs'
  | serve i =>
      simp only [RunSystem.next, Option.bind_eq_bind, Option.bind_eq_some_iff,
        Option.some.injEq] at hs'
      rcases hs' with ⟨request, hi, call, hcall, rfl⟩
      rcases serve_spec (h.calls request (List.mem_of_getElem? hi)) hcall with ⟨halike, hread⟩
      exact h.progress hi halike hread
  | fail i message =>
      simp only [RunSystem.next, Option.bind_eq_bind, Option.bind_eq_some_iff,
        Option.some.injEq] at hs'
      rcases hs' with ⟨request, hi, rfl⟩
      exact h.progress hi (request.call.alike_fail message)
        (request.call.read_fail s.history message)
  | deliver i =>
      simp only [RunSystem.next, Option.bind_eq_bind, Option.bind_eq_some_iff] at hs'
      rcases hs' with ⟨request, hi, hs'⟩
      exact h.respond hi htimely hs'
  | poll i action =>
      simp only [RunSystem.next, Option.bind_eq_bind, Option.bind_eq_some_iff,
        Option.some.injEq] at hs'
      rcases hs' with ⟨stream, hi, db, hdb, server, hserver, rfl⟩
      exact h.poll hi hdb (Client.step_spec hserver)
  | frame i =>
      simp only [RunSystem.next, Option.bind_eq_bind, Option.bind_eq_some_iff] at hs'
      rcases hs' with ⟨stream, hi, frame, hframe, hs'⟩
      split at hs'
      · cases hs'
      · rename_i hopen
        cases hs'
        exact h.frame hi (Bool.not_eq_true _ ▸ hopen) hframe
  | streamError i =>
      simp only [RunSystem.next, Option.bind_eq_bind, Option.bind_eq_some_iff] at hs'
      rcases hs' with ⟨stream, hi, hs'⟩
      split at hs'
      · cases hs'
      · rename_i hopen
        cases hs'
        exact h.finish hi (Bool.not_eq_true _ ▸ hopen) rfl
          (h.follows stream (List.mem_of_getElem? hi))

private theorem Inv.showsOneRun {s : RunSystem} (h : s.Inv) : s.ShowsOneRun where
  logs := h.logs.stored
  once := h.logs.once
  settled := by
    intro hpending
    apply h.settled
    rw [hpending.1]
    exact nofun

end RunSystem

/-- In every interleaving in which no superseded response writes the view and an unfinished
run is shown before its first log row, the view shows one run. -/
theorem runView_shows_one_run (stored : StoredRuns) (actions : List RunSystem.Action)
    (htimely : Interleaving.Guarded RunSystem.next RunSystem.Timely (.initial stored) actions)
    {s : RunSystem} (hrun : Interleaving.exec RunSystem.next (.initial stored) actions = some s) :
    s.ShowsOneRun :=
  (Interleaving.guarded_invariant (fun _ _ _ => RunSystem.Inv.next) (.initial stored) htimely
    hrun).showsOneRun

namespace Samples

/-- Stored runs in one state. -/
def storedRuns (runIds : List String) (db : Database) (hids : IdsIncrease db.logs) :
    StoredRuns where
  database := fun runId => if runId ∈ runIds then some db else none
  ids_increase := by
    intro runId db' hdb'
    rw [Option.ite_none_right_eq_some, Option.some.injEq] at hdb'
    exact hdb'.2 ▸ hids

/-- A run with a log row of its source. -/
def loggedRun (status : RunState) : Database where
  run := some ⟨"user", status, 0, none⟩
  pipelineSpec := none
  logs := [⟨1, 0, ⟨.info, some "src", "Executing source", none⟩⟩]
  errors := []

/-- A run is triggered, and followed until it is finished. -/
def followedRun : List RunSystem.Action :=
  [.trigger, .create 0 "run" "user" none, .serve 0, .deliver 0,
    .store "run" (loggedRun .running), .poll 0 .readRun, .poll 0 .readLogs, .poll 0 .send,
    .poll 0 .send, .frame 0, .frame 0, .poll 0 .send, .store "run" (loggedRun .succeeded),
    .poll 0 .readRun, .poll 0 .readLogs, .poll 0 .readErrors, .poll 0 .send, .poll 0 .send,
    .frame 0, .frame 0, .serve 0, .serve 0, .serve 0, .deliver 0]

/-- Two finished runs are shown one after the other, and the first response comes last. -/
def crossingResponses : List RunSystem.Action :=
  [.showRun "first", .showRun "second", .serve 0, .serve 0, .serve 0, .serve 1, .serve 1,
    .serve 1, .deliver 1, .deliver 0]

end Samples

theorem runView_shows_followed_run :
    ∃ s, Interleaving.exec RunSystem.next
        (.initial (Samples.storedRuns [] (Samples.loggedRun .queued) (by decide)))
        Samples.followedRun = some s ∧
      s.ShowsOneRun ∧ s.view = .ofDetail "run"
        ⟨⟨"user", .succeeded, 0, none⟩, (Samples.loggedRun .succeeded).logs, []⟩ := by
  have hcheck : (Interleaving.exec RunSystem.next
      (.initial (Samples.storedRuns [] (Samples.loggedRun .queued) (by decide)))
      Samples.followedRun).map RunSystem.view = some (.ofDetail "run"
        ⟨⟨"user", .succeeded, 0, none⟩, (Samples.loggedRun .succeeded).logs, []⟩) := by
    decide +kernel
  rcases Option.map_eq_some_iff.mp hcheck with ⟨s, hrun, hview⟩
  exact ⟨s, hrun, runView_shows_one_run _ _ (by decide +kernel) hrun, hview⟩

/-- Two responses that cross leave the wrong run in the view. -/
theorem crossing_responses :
    ∃ s, Interleaving.exec RunSystem.next
        (.initial (Samples.storedRuns ["first", "second"] (Samples.loggedRun .succeeded)
          (by decide))) Samples.crossingResponses = some s ∧
      s.NothingPending ∧ s.requested = .run "second" ∧ s.view.runId = some "first" ∧
        ¬ s.ShowsOneRun := by
  have hcheck : (Interleaving.exec RunSystem.next
      (.initial (Samples.storedRuns ["first", "second"] (Samples.loggedRun .succeeded)
        (by decide))) Samples.crossingResponses).map
          (fun s => (s.requests, s.streams, s.requested, s.view.runId)) =
        some ([], [], .run "second", some "first") := by
    decide +kernel
  rcases Option.map_eq_some_iff.mp hcheck with ⟨s, hrun, heq⟩
  simp only [Prod.mk.injEq] at heq
  rcases heq with ⟨hrequests, hstreams, hrequested, hshown⟩
  have hpending : s.NothingPending := by
    refine ⟨hrequests, ?_⟩
    rw [hstreams]
    exact nofun
  refine ⟨s, hrun, hpending, hrequested, hshown, fun hone => ?_⟩
  have hbelongs := hone.settled hpending
  unfold RunSystem.Belongs at hbelongs
  rw [hrequested] at hbelongs
  have hsecond := hshown.symm.trans hbelongs.run
  exact absurd hsecond (by decide)

/-- A run that is not finished is shown with its stored row twice: its stream starts with the
first row. -/
example : (Interleaving.exec RunSystem.next
    (.initial (Samples.storedRuns ["run"] (Samples.loggedRun .running) (by decide)))
    [.showRun "run", .serve 0, .serve 0, .serve 0, .deliver 0, .poll 0 .readRun,
      .poll 0 .readLogs, .poll 0 .send, .frame 0]).map (fun s => s.view.logs.map RunLog.id) =
    some [1, 1] := by decide +kernel

end EtlTool
