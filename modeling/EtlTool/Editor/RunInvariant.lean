import EtlTool.Editor.RunReports
import EtlTool.Server.StreamReplay

/-!
# The invariant of the run view

The view should show one run, each of its log rows once, and in the end the run that the
user asked for last.  What carries this through all steps: only the stream that can be
cancelled is open, it was opened for the latest action and shows the rows of the run of the
view, and while a call for this action is pending the view waits for its response.

Main results:

- Theorem {lit}`Inv.act`: what an action of the user has to establish.
- Theorem {lit}`Inv.record` and {lit}`Inv.progress`: the server's side keeps the invariant.
-/

namespace EtlTool

namespace RunSystem

/-- The view belongs to what the user asked for last. -/
def Belongs (s : RunSystem) : Prop :=
  match s.requested with
  | .nothing => ShowsNoRun s.view none []
  | .newRun => False
  | .failedTrigger message => ShowsNoRun s.view (some .failed) [triggerError message]
  | .run runId => BelongsTo (s.history runId) runId s.view

/-- Everything pending has been delivered: responses and the events of open streams. -/
def NothingPending (s : RunSystem) : Prop :=
  s.requests = [] ∧
    ∀ stream ∈ s.streams, stream.closed = false → stream.delivered = stream.server.received.length

/-- The view shows one run, each log row once, and in the end the run that was asked for
last. -/
structure ShowsOneRun (s : RunSystem) : Prop where
  logs : ∀ row ∈ s.view.logs, ∃ runId, s.view.runId = some runId ∧
    ∃ db ∈ s.history runId, row ∈ db.logs
  once : (s.view.logs.map RunLog.id).Nodup
  settled : s.NothingPending → s.Belongs

/-! ## The invariant -/

/-- An open stream is the one that can be cancelled.  It was opened for the latest action and
follows the run of the view, and no response to this action is pending. -/
structure Live (s : RunSystem) (i : Nat) (stream : RunStream) : Prop where
  abort : s.abortRef = some i
  action : stream.action = s.latest
  requested : s.requested = .run stream.runId
  logs : s.view.logs = logRows (stream.server.received.take stream.delivered)
  alone : ∀ request ∈ s.requests, request.action ≠ s.latest

/-- What holds while a call for the latest action is pending. -/
def Waits (s : RunSystem) : Call → Prop
  | .trigger _ =>
      s.requested = .newRun ∧ s.view.runId = none ∧ s.view.logs = [] ∧ s.view.errors = [] ∧
        s.view.nodeStates = .empty
  | .showRun runId _ => s.requested = .run runId
  | .finalize runId _ =>
      s.requested = .run runId ∧
        ∀ request ∈ s.requests, request.call.opens = true → request.action ≠ s.latest

/-- The action of a pending call that opens a view. -/
def opening (request : PendingCall) : Option Nat :=
  if request.call.opens then some request.action else none

/-- The log rows of the view are stored rows of its run, each once. -/
structure LogsOfRun (s : RunSystem) : Prop where
  stored : ∀ row ∈ s.view.logs, ∃ runId, s.view.runId = some runId ∧
    ∃ db ∈ s.history runId, row ∈ db.logs
  once : (s.view.logs.map RunLog.id).Nodup

/-- The invariant of the system. -/
structure Inv (s : RunSystem) : Prop where
  ids : ∀ runId, ∀ db ∈ s.history runId, IdsIncrease db.logs
  calls : ∀ request ∈ s.requests, request.call.Read s.history
  follows : ∀ stream ∈ s.streams, Client.Follows (s.history stream.runId) stream.server ∧
    stream.delivered ≤ stream.server.received.length
  actions : ∀ request ∈ s.requests, request.action ≤ s.latest
  opening : (s.requests.filterMap opening).Nodup
  live : ∀ (i : Nat) (stream : RunStream), s.streams[i]? = some stream → stream.closed = false →
    Live s i stream
  waits : ∀ request ∈ s.requests, request.action = s.latest → s.Waits request.call
  settled : (∀ request ∈ s.requests, request.call.opens = true → request.action ≠ s.latest) →
    s.Belongs
  logs : s.LogsOfRun

/-- The invariant holds before the first action. -/
theorem Inv.initial (stored : StoredRuns) : (RunSystem.initial stored).Inv where
  ids := by
    intro runId db hdb
    exact stored.ids_increase runId db (Option.mem_toList.mp hdb)
  calls := nofun
  follows := nofun
  actions := nofun
  opening := List.nodup_nil
  live := nofun
  waits := nofun
  settled := fun _ => ⟨rfl, rfl, rfl, rfl⟩
  logs := ⟨nofun, List.nodup_nil⟩

/-- Replacing an entry by one that looks alike. -/
theorem map_set_of_eq {α β : Type} {f : α → β} {l : List α} {i : Nat} {a b : α}
    (hi : l[i]? = some a) (h : f b = f a) : (l.set i b).map f = l.map f := by
  apply List.ext_getElem?
  intro j
  rw [List.getElem?_map, List.getElem?_map, List.getElem?_set]
  by_cases hij : i = j
  · subst hij
    rcases List.getElem?_eq_some_iff.mp hi with ⟨hlt, rfl⟩
    simp [h, hlt]
  · simp [hij]

/-- A call like one that waits does so too, while the request and the view stay. -/
theorem Waits.congr {s s' : RunSystem} {call call' : Call} (h : s.Waits call)
    (halike : call.Alike call') (hrequested : s'.requested = s.requested)
    (hview : s'.view.runId = s.view.runId ∧ s'.view.logs = s.view.logs ∧
      s'.view.errors = s.view.errors ∧ s'.view.nodeStates = s.view.nodeStates)
    (hopening : (∀ request ∈ s.requests, request.call.opens = true → request.action ≠ s.latest) →
      ∀ request ∈ s'.requests, request.call.opens = true → request.action ≠ s'.latest) :
    s'.Waits call' := by
  rcases hview with ⟨hrun, hlogs, herrors, hstates⟩
  cases halike with
  | trigger reply reply' =>
      unfold Waits at h ⊢
      rw [hrequested, hrun, hlogs, herrors, hstates]
      exact h
  | showRun runId reply reply' => exact hrequested.trans h
  | finalize runId reply reply' => exact ⟨hrequested.trans h.1, hopening h.2⟩

/-- A view that belongs to the requested run belongs on the page. -/
theorem Belongs.of_run {s : RunSystem} {runId : String} (hrequested : s.requested = .run runId)
    (h : BelongsTo (s.history runId) runId s.view) : s.Belongs := by
  unfold Belongs
  rw [hrequested]
  exact h

/-- What the view shows stays true of a run that gets on. -/
theorem Belongs.mono {s s' : RunSystem} (h : s.Belongs) (hrequested : s'.requested = s.requested)
    (hview : s'.view.runId = s.view.runId ∧ s'.view.status = s.view.status ∧
      s'.view.errors = s.view.errors ∧ s'.view.nodeStates = s.view.nodeStates)
    (hsub : ∀ id, s.history id ⊆ s'.history id) : s'.Belongs := by
  rcases hview with ⟨hrun, hstatus, herrors, hstates⟩
  have hshows : ∀ {status errors}, ShowsNoRun s.view status errors →
      ShowsNoRun s'.view status errors := by
    intro status errors hshows
    exact ⟨hrun.trans hshows.run, hstatus.trans hshows.status, herrors.trans hshows.errors,
      hstates.trans hshows.nodeStates⟩
  unfold Belongs at h ⊢
  rw [hrequested]
  cases hcase : s.requested with
  | nothing =>
      rw [hcase] at h
      exact hshows h
  | newRun =>
      rw [hcase] at h
      exact h
  | failedTrigger message =>
      rw [hcase] at h
      exact hshows h
  | run id =>
      rw [hcase] at h
      have hbelongs := BelongsTo.mono (hsub id) h
      constructor
      case run => exact hrun.trans hbelongs.run
      case status =>
        rw [hstatus]
        exact hbelongs.status
      case errors =>
        rw [herrors]
        exact hbelongs.errors
      case nodeStates =>
        rw [hstates]
        exact hbelongs.nodeStates

/-! ## Cancelling streams -/

/-- Stopping the streams keeps what closing one keeps. -/
theorem forall_mem_stop {s : RunSystem} {p : RunStream → Prop}
    (h : ∀ stream ∈ s.streams, p stream) (hclose : ∀ stream, p stream → p stream.close) :
    ∀ stream ∈ s.stop.streams, p stream := by
  intro stream hstream
  unfold stop at hstream
  cases habort : s.abortRef with
  | none =>
      rw [habort] at hstream
      exact h stream hstream
  | some i =>
      rw [habort] at hstream
      rcases List.mem_iff_getElem?.mp hstream with ⟨j, hj⟩
      rw [List.getElem?_modify] at hj
      rcases Option.map_eq_some_iff.mp hj with ⟨found, hfound, rfl⟩
      have hmem := h found (List.mem_of_getElem? hfound)
      split
      · exact hclose found hmem
      · exact hmem

/-- When only the stream that can be cancelled is open, none is open after {lit}`stop`. -/
theorem closed_of_stop {s : RunSystem}
    (h : ∀ (i : Nat) (stream : RunStream), s.streams[i]? = some stream → stream.closed = false →
      s.abortRef = some i) : ∀ stream ∈ s.stop.streams, stream.closed = true := by
  intro stream hstream
  rcases List.mem_iff_getElem?.mp hstream with ⟨j, hj⟩
  by_contra hopen
  rw [Bool.not_eq_true] at hopen
  unfold stop at hj
  cases habort : s.abortRef with
  | none =>
      rw [habort] at hj
      have hsome := h j stream hj hopen
      rw [habort] at hsome
      cases hsome
  | some i =>
      rw [habort] at hj
      simp only [List.getElem?_modify] at hj
      rcases Option.map_eq_some_iff.mp hj with ⟨found, hfound, heq⟩
      by_cases hij : i = j
      · rw [if_pos hij] at heq
        rw [← heq] at hopen
        cases hopen
      · rw [if_neg hij] at heq
        subst heq
        have hsome := h j found hfound hopen
        rw [habort] at hsome
        exact hij (Option.some.inj hsome)

/-- After a stop every stream is closed. -/
theorem Inv.closed_of_stop {s : RunSystem} (h : s.Inv) :
    ∀ stream ∈ s.stop.streams, stream.closed = true :=
  RunSystem.closed_of_stop fun i stream hi hopen => (h.live i stream hi hopen).abort

/-! ## Actions of the user -/

/-- What an action of the user has to establish: its own request, if it makes one, and the
view that it sets. -/
theorem Inv.act {s s' : RunSystem} (h : s.Inv) (hhistory : s'.history = s.history)
    (hstreams : s'.streams = s.stop.streams) (hlatest : s'.latest = s.latest + 1)
    (new : Option PendingCall) (hrequests : s'.requests = s.requests ++ new.toList)
    (hnew : ∀ request, new = some request → request.action = s.latest + 1 ∧
      request.call.opens = true ∧ request.call.Read s.history ∧ s'.Waits request.call)
    (hsettled : new = none → s'.Belongs) (hlogs : s'.LogsOfRun) : s'.Inv := by
  have hold : ∀ request ∈ s'.requests, request ∈ s.requests ∨ new = some request := by
    intro request hmem
    rw [hrequests, List.mem_append] at hmem
    exact hmem.imp id Option.mem_toList.mp
  constructor
  case ids =>
    rw [hhistory]
    exact h.ids
  case calls =>
    intro request hmem
    rw [hhistory]
    rcases hold request hmem with hmem | hsome
    · exact h.calls request hmem
    · exact (hnew request hsome).2.2.1
  case follows =>
    rw [hhistory, hstreams]
    exact forall_mem_stop h.follows fun _ hstream => hstream
  case actions =>
    intro request hmem
    rw [hlatest]
    rcases hold request hmem with hmem | hsome
    · exact (h.actions request hmem).trans (Nat.le_succ _)
    · exact Nat.le_of_eq (hnew request hsome).1
  case opening =>
    rw [hrequests, List.filterMap_append, List.nodup_append]
    refine ⟨h.opening, ?_, ?_⟩
    · cases new with
      | none => exact List.nodup_nil
      | some request =>
          simp only [Option.toList_some, List.filterMap_cons, List.filterMap_nil]
          split <;> simp
    · intro a ha b hb heq
      rcases List.mem_filterMap.mp ha with ⟨request, hmem, haction⟩
      rcases List.mem_filterMap.mp hb with ⟨request', hmem', haction'⟩
      have hlater := (hnew request' (Option.mem_toList.mp hmem')).1
      have hearlier := h.actions request hmem
      unfold RunSystem.opening at haction haction'
      rw [Option.ite_none_right_eq_some, Option.some.injEq] at haction haction'
      omega
  case live =>
    intro i stream hi hopen
    rw [hstreams] at hi
    rw [h.closed_of_stop stream (List.mem_of_getElem? hi)] at hopen
    cases hopen
  case waits =>
    intro request hmem haction
    rw [hlatest] at haction
    rcases hold request hmem with hmem | hsome
    · have hearlier := h.actions request hmem
      omega
    · exact (hnew request hsome).2.2.2
  case settled =>
    intro hnone
    apply hsettled
    rw [Option.eq_none_iff_forall_ne_some]
    intro request hsome
    refine hnone request ?_ (hnew request hsome).2.1 ?_
    · rw [hrequests, hsome]
      simp
    · rw [hlatest]
      exact (hnew request hsome).1
  case logs => exact hlogs

/-- Triggering a run keeps the invariant. -/
theorem Inv.trigger {s : RunSystem} (h : s.Inv) : s.trigger.Inv := by
  refine h.act rfl rfl rfl (some ⟨s.latest + 1, .trigger .asked⟩) rfl ?_ nofun
    ⟨nofun, List.nodup_nil⟩
  intro request hsome
  cases hsome
  exact ⟨rfl, rfl, trivial, rfl, rfl, rfl, rfl, rfl⟩

/-- Opening a run keeps the invariant. -/
theorem Inv.showRun {s : RunSystem} (h : s.Inv) (runId : String) : (s.showRun runId).Inv := by
  refine h.act rfl rfl rfl (some ⟨s.latest + 1, .showRun runId .asked⟩) rfl ?_ nofun
    ⟨h.logs.stored, h.logs.once⟩
  intro request hsome
  cases hsome
  exact ⟨rfl, rfl, trivial, rfl⟩

/-- Clearing the view keeps the invariant. -/
theorem Inv.clear {s : RunSystem} (h : s.Inv) : s.clear.Inv :=
  h.act rfl rfl rfl none (List.append_nil _).symm nofun (fun _ => ⟨rfl, rfl, rfl, rfl⟩)
    ⟨nofun, List.nodup_nil⟩

/-! ## Steps of the server -/

/-- A new state of a run with more rows. -/
theorem Inv.record {s : RunSystem} (h : s.Inv) {runId : String} {db : Database}
    (hids : IdsIncrease db.logs)
    (hgrows : s.history runId = [] ∨ ∃ before, s.current runId = some before ∧
      before.logs <+: db.logs) : (s.record runId db).Inv := by
  have hsub : ∀ id, s.history id ⊆ (s.record runId db).history id := by
    intro id
    simp only [RunSystem.record, Function.update_apply]
    split
    · rename_i hid
      subst hid
      exact List.subset_cons_self _ _
    · exact List.Subset.refl _
  constructor
  case ids =>
    intro id found hfound
    simp only [RunSystem.record, Function.update_apply] at hfound
    split at hfound
    · rename_i hid
      rcases List.mem_cons.mp hfound with rfl | hfound
      · exact hids
      · exact h.ids runId found hfound
    · exact h.ids id found hfound
  case calls =>
    intro request hmem
    exact (h.calls request hmem).mono hsub
  case follows =>
    intro stream hstream
    rcases h.follows stream hstream with ⟨hfollows, hdelivered⟩
    refine ⟨?_, hdelivered⟩
    simp only [RunSystem.record, Function.update_apply]
    split
    · rename_i hid
      subst hid
      rcases hgrows with hnone | ⟨before, hbefore, hgrown⟩
      · rcases hfollows.rows with ⟨found, hhead, -⟩
        rw [hnone] at hhead
        cases hhead
      · exact hfollows.grow hbefore hgrown
    · exact hfollows
  case actions => exact h.actions
  case opening => exact h.opening
  case live =>
    intro i stream hi hopen
    rcases h.live i stream hi hopen with ⟨habort, haction, hrequested, hlogs, halone⟩
    exact ⟨habort, haction, hrequested, hlogs, halone⟩
  case waits =>
    intro request hmem haction
    exact (h.waits request hmem haction).congr request.call.alike_refl rfl ⟨rfl, rfl, rfl, rfl⟩ id
  case settled =>
    intro hnone
    exact Belongs.mono (h.settled hnone) rfl ⟨rfl, rfl, rfl, rfl⟩ hsub
  case logs =>
    refine ⟨fun row hrow => ?_, h.logs.once⟩
    rcases h.logs.stored row hrow with ⟨id, hid, found, hfound, hmem⟩
    exact ⟨id, hid, found, hsub id hfound, hmem⟩

/-- A pending call that gets on, or fails. -/
theorem Inv.progress {s : RunSystem} (h : s.Inv) {i : Nat} {request : PendingCall} {call : Call}
    (hi : s.requests[i]? = some request) (halike : request.call.Alike call)
    (hread : call.Read s.history) :
    Inv { s with requests := s.requests.set i { request with call := call } } := by
  have hmem : ∀ q ∈ s.requests.set i { request with call := call },
      (q ∈ s.requests ∨ q = { request with call := call }) ∧
        ∃ q' ∈ s.requests, q'.action = q.action ∧ q'.call.Alike q.call := by
    intro q hq
    rcases List.mem_or_eq_of_mem_set hq with hold | rfl
    · exact ⟨Or.inl hold, q, hold, rfl, q.call.alike_refl⟩
    · exact ⟨Or.inr rfl, request, List.mem_of_getElem? hi, rfl, halike⟩
  have hopening : (∀ q ∈ s.requests, q.call.opens = true → q.action ≠ s.latest) →
      ∀ q ∈ s.requests.set i { request with call := call }, q.call.opens = true →
        q.action ≠ s.latest := by
    intro hnone q hq hopens
    rcases (hmem q hq).2 with ⟨q', hq', haction, halike'⟩
    rw [← haction]
    exact hnone q' hq' (halike'.opens ▸ hopens)
  constructor
  case ids => exact h.ids
  case calls =>
    intro q hq
    rcases (hmem q hq).1 with hold | rfl
    · exact h.calls q hold
    · exact hread
  case follows => exact h.follows
  case actions =>
    intro q hq
    rcases (hmem q hq).2 with ⟨q', hq', haction, -⟩
    exact haction ▸ h.actions q' hq'
  case opening =>
    have hsame : RunSystem.opening { request with call := call } = RunSystem.opening request := by
      simp only [RunSystem.opening, halike.opens]
    have hmap := map_set_of_eq hi hsame
    have hfilter : ∀ l : List PendingCall,
        l.filterMap RunSystem.opening = (l.map RunSystem.opening).filterMap id := by
      intro l
      rw [List.filterMap_map]
      rfl
    rw [hfilter, hmap, ← hfilter]
    exact h.opening
  case live =>
    intro j stream hj hopen
    rcases h.live j stream hj hopen with ⟨habort, haction, hrequested, hlogs, halone⟩
    refine ⟨habort, haction, hrequested, hlogs, ?_⟩
    intro q hq
    rcases (hmem q hq).2 with ⟨q', hq', hsame, -⟩
    rw [← hsame]
    exact halone q' hq'
  case waits =>
    intro q hq haction
    rcases (hmem q hq).2 with ⟨q', hq', hsame, halike'⟩
    exact (h.waits q' hq' (hsame.trans haction)).congr halike' rfl ⟨rfl, rfl, rfl, rfl⟩ hopening
  case settled =>
    intro hnone
    apply h.settled
    intro q hq hopens
    rcases List.mem_iff_getElem?.mp hq with ⟨j, hj⟩
    by_cases hij : i = j
    · subst hij
      cases hi.symm.trans hj
      have hlt : i < s.requests.length := (List.getElem?_eq_some_iff.mp hi).1
      have hset : (s.requests.set i { request with call := call })[i]? =
          some { request with call := call } := by simp [hlt]
      exact hnone { request with call := call } (List.mem_of_getElem? hset)
        (halike.opens.trans hopens)
    · have hset : (s.requests.set i { request with call := call })[j]? = some q := by
        rw [List.getElem?_set_ne hij]
        exact hj
      exact hnone q (List.mem_of_getElem? hset) hopens
  case logs => exact ⟨h.logs.stored, h.logs.once⟩

end RunSystem

end EtlTool
