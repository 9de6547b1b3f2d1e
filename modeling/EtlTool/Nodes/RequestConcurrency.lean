import EtlTool.Nodes.RateLimits

/-!
# Concurrent requests

The requests of a run share a semaphore, and those of a node share a limiter on top of it.
However the attempts of the node and the requests of the other nodes are interleaved, no more
requests run than there are permits, a request waits only while all permits are in use, and no
attempt is lost or made twice: after its slot it waits its turn and starts.

Main results:

- Theorem {lit}`requests_accounted`: what holds of the requests in every run.

Current gaps:

- The cancellation of attempts.
- Time is exact and a sleeper wakes at its slot.  Behind a blocked event loop an attempt that
  arrives can start before one whose slot has passed.
-/

namespace EtlTool

open Interleaving

/-! ## The permits -/

/-- The permits are free or in use, and none is free while a request waits. -/
structure PermitsAccounted (permits : Nat) (s : LimiterState) : Prop where
  total : s.ownRunning + s.otherRunning + s.semaphore.value = permits
  busy : s.semaphore.waiters ≠ [] → s.semaphore.value = 0

section

variable {s : LimiterState} {permits : Nat} {requester : Requester}

/-- A request that enters takes a free permit, or waits because there is none. -/
theorem enter_cases (s : LimiterState) (requester : Requester) :
    (s.semaphore.locked = true ∧ s.enter requester =
        { s with
          semaphore := ⟨s.semaphore.value, s.semaphore.waiters ++ [requester]⟩ }) ∨
      (s.semaphore.waiters = [] ∧ 0 < s.semaphore.value ∧ s.enter requester =
        { s with semaphore := ⟨s.semaphore.value - 1, []⟩ }.start requester) := by
  unfold LimiterState.enter Semaphore.acquire
  cases hlocked : s.semaphore.locked with
  | true => exact .inl ⟨rfl, rfl⟩
  | false =>
      unfold Semaphore.locked at hlocked
      rw [Bool.or_eq_false_iff, decide_eq_false_iff_not, Bool.not_eq_false',
        List.isEmpty_iff] at hlocked
      refine .inr ⟨hlocked.2, Nat.pos_of_ne_zero hlocked.1, ?_⟩
      simp [hlocked.2]

/-- A request that leaves hands its permit to the first that waits, or gives it back. -/
theorem leave_cases (s : LimiterState) :
    (s.semaphore.waiters = [] ∧
      s.leave = { s with semaphore := ⟨s.semaphore.value + 1, []⟩ }) ∨
    ∃ requester waiters, s.semaphore.waiters = requester :: waiters ∧
      s.leave = { s with semaphore := ⟨s.semaphore.value, waiters⟩ }.start requester := by
  unfold LimiterState.leave Semaphore.release
  cases hwaiters : s.semaphore.waiters with
  | nil => exact .inl ⟨rfl, by simp⟩
  | cons requester waiters => exact .inr ⟨requester, waiters, rfl, rfl⟩

/-- Starting a request takes one permit from those that are free. -/
theorem PermitsAccounted.start {free : Nat} {waiters : List Requester}
    (htotal : s.ownRunning + s.otherRunning + free + 1 = permits)
    (hbusy : waiters ≠ [] → free = 0) :
    PermitsAccounted permits ({ s with semaphore := ⟨free, waiters⟩ }.start requester) := by
  cases requester with
  | own =>
      refine ⟨?_, hbusy⟩
      simp only [LimiterState.start]
      omega
  | other =>
      refine ⟨?_, hbusy⟩
      simp only [LimiterState.start]
      omega

theorem PermitsAccounted.enter (h : PermitsAccounted permits s) :
    PermitsAccounted permits (s.enter requester) := by
  rcases enter_cases s requester with ⟨hlocked, hsame⟩ | ⟨hnone, hfree, hsame⟩
  · rw [hsame]
    refine ⟨h.total, ?_⟩
    intro _
    unfold Semaphore.locked at hlocked
    rw [Bool.or_eq_true, decide_eq_true_iff, Bool.not_eq_true', List.isEmpty_eq_false_iff]
      at hlocked
    exact hlocked.elim id h.busy
  · rw [hsame]
    have htotal := h.total
    apply PermitsAccounted.start
    · omega
    · exact fun hne => absurd rfl hne

/-- A request that has ended leaves. -/
theorem PermitsAccounted.leave
    (htotal : s.ownRunning + s.otherRunning + s.semaphore.value + 1 = permits)
    (hbusy : s.semaphore.waiters ≠ [] → s.semaphore.value = 0) :
    PermitsAccounted permits s.leave := by
  rcases leave_cases s with ⟨_, hsame⟩ | ⟨requester, waiters, hwaiters, hsame⟩
  · rw [hsame]
    refine ⟨?_, fun hne => absurd rfl hne⟩
    dsimp only
    omega
  · rw [hsame]
    apply PermitsAccounted.start htotal
    intro _
    apply hbusy
    rw [hwaiters]
    exact List.cons_ne_nil _ _

end

/-! ## The attempts -/

/-- The slots in the order in which they were handed out: those of the attempts that have
started, of those that wait for a permit, and of those that sleep. -/
structure SlotsInOrder (rps : ℚ) (s : LimiterState) (started waiting : List ℚ) : Prop where
  spaced : s.limiter.Spaced rps
  slots : s.limiter.slots = started ++ waiting ++ s.sleeping
  punctual : List.Forall₂ (· ≤ ·) started s.starts
  past : ∀ start ∈ s.starts, start ≤ s.now
  ordered : s.starts.Pairwise (· ≤ ·)
  waits : waiting.length = s.semaphore.waiters.count .own
  due : ∀ slot ∈ waiting, slot ≤ s.now
  sleeps : ∀ slot ∈ s.sleeping, s.now ≤ slot

section

variable {rps : ℚ} {s s' : LimiterState} {started waiting : List ℚ} {slot : ℚ}

/-- The attempt that has waited longest starts. -/
theorem SlotsInOrder.start (h : SlotsInOrder rps s started (slot :: waiting))
    {semaphore : Semaphore} (hwaits : waiting.length = semaphore.waiters.count .own) :
    SlotsInOrder rps ({ s with semaphore := semaphore }.start .own) (started ++ [slot])
      waiting where
  spaced := h.spaced
  slots := by
    rw [LimiterState.start, h.slots]
    simp
  punctual := List.rel_append h.punctual
    (.cons (h.due slot List.mem_cons_self) .nil)
  past := by
    intro start hstart
    rcases List.mem_append.mp hstart with hold | hnow
    · exact h.past start hold
    · exact le_of_eq (List.mem_singleton.mp hnow)
  ordered := by
    rw [LimiterState.start, List.pairwise_append]
    refine ⟨h.ordered, List.pairwise_singleton _ _, ?_⟩
    intro start hstart now hnow
    rw [List.mem_singleton.mp hnow]
    exact h.past start hstart
  waits := hwaits
  due := fun other hother => h.due other (List.mem_cons_of_mem _ hother)
  sleeps := h.sleeps

/-- A request of another node takes no turn of an attempt. -/
theorem SlotsInOrder.start_other (h : SlotsInOrder rps s started waiting)
    {semaphore : Semaphore} (hwaits : waiting.length = semaphore.waiters.count .own) :
    SlotsInOrder rps ({ s with semaphore := semaphore }.start .other) started waiting :=
  ⟨h.spaced, h.slots, h.punctual, h.past, h.ordered, hwaits, h.due, h.sleeps⟩

/-- An attempt whose slot has come starts or waits. -/
theorem SlotsInOrder.enter (started waiting : List ℚ) (slot : ℚ)
    (h : SlotsInOrder rps
      { s with semaphore := ⟨s.semaphore.value, s.semaphore.waiters ++ [.own]⟩ }
      started (waiting ++ [slot])) :
    ∃ started waiting, SlotsInOrder rps (s.enter .own) started waiting := by
  rcases enter_cases s .own with ⟨_, hsame⟩ | ⟨hnone, _, hsame⟩
  · rw [hsame]
    exact ⟨started, waiting ++ [slot], h⟩
  · rw [hsame]
    have hwaits := h.waits
    rw [hnone, List.length_append, List.length_singleton] at hwaits
    have hempty : waiting = [] := List.eq_nil_of_length_eq_zero (Nat.succ.inj hwaits)
    subst hempty
    exact ⟨started ++ [slot], [], h.start rfl⟩

theorem SlotsInOrder.enter_other (h : SlotsInOrder rps s started waiting) :
    SlotsInOrder rps (s.enter .other) started waiting := by
  rcases enter_cases s .other with ⟨_, hsame⟩ | ⟨hnone, _, hsame⟩
  · rw [hsame]
    refine ⟨h.spaced, h.slots, h.punctual, h.past, h.ordered, ?_, h.due, h.sleeps⟩
    rw [h.waits, List.count_append]
    rfl
  · rw [hsame]
    have hwaits := h.waits
    rw [hnone] at hwaits
    exact h.start_other hwaits

theorem SlotsInOrder.leave (h : SlotsInOrder rps s started waiting) :
    ∃ started waiting, SlotsInOrder rps s.leave started waiting := by
  rcases leave_cases s with ⟨hnone, hsame⟩ | ⟨requester, waiters, hwaiters, hsame⟩
  · rw [hsame]
    have hwaits := h.waits
    rw [hnone] at hwaits
    exact ⟨started, waiting, h.spaced, h.slots, h.punctual, h.past, h.ordered, hwaits, h.due,
      h.sleeps⟩
  · rw [hsame]
    have hwaits := h.waits
    rw [hwaiters] at hwaits
    cases requester with
    | other => exact ⟨started, waiting, h.start_other (by simpa using hwaits)⟩
    | own =>
        rw [List.count_cons_self] at hwaits
        rcases List.length_eq_succ_iff.mp hwaits with ⟨slot, rest, rfl, hrest⟩
        exact ⟨started ++ [slot], rest, h.start hrest⟩

/-- No attempt sleeps when the next slot has come. -/
theorem SlotsInOrder.sleeping_eq_nil (hrps : 0 < rps) (h : SlotsInOrder rps s started waiting)
    (hcome : s.limiter.nextSlot ≤ s.now) : s.sleeping = [] := by
  have hinterval : 0 < 1 / rps := one_div_pos.mpr hrps
  apply List.eq_nil_iff_forall_not_mem.mpr
  intro slot hslot
  have hmem : slot ∈ s.limiter.slots := by
    rw [h.slots]
    exact List.mem_append_right _ hslot
  have hbehind := h.spaced.behind slot hmem
  have hdue := h.sleeps slot hslot
  linarith

/-- One step keeps the slots in order. -/
theorem slotsInOrder_step (hrps : 0 < rps) {action : LimiterAction}
    (h : SlotsInOrder rps s started waiting) (hstep : limiterStep rps s action = some s') :
    ∃ started waiting, SlotsInOrder rps s' started waiting := by
  have hspaced := limiterStep_spaced hrps h.spaced hstep
  cases action with
  | advance delay =>
      rw [limiterStep, Option.ite_none_right_eq_some] at hstep
      rcases hstep with ⟨hpass, hstep⟩
      cases hstep
      refine ⟨started, waiting, hspaced, h.slots, h.punctual, ?_, h.ordered, h.waits, ?_, hpass.2⟩
      · intro start hstart
        have := h.past start hstart
        dsimp only
        linarith
      · intro slot hslot
        have := h.due slot hslot
        dsimp only
        linarith
  | arrive =>
      unfold limiterStep at hstep
      dsimp only [RateLimiter.acquire] at hstep
      split at hstep
      · -- the slot is still to come
        cases hstep
        refine ⟨started, waiting, hspaced, ?_, h.punctual, h.past, h.ordered, h.waits, h.due, ?_⟩
        · dsimp only
          rw [h.slots, List.append_assoc]
        · intro slot hslot
          rcases List.mem_append.mp hslot with hold | hnew
          · exact h.sleeps slot hold
          · rw [List.mem_singleton.mp hnew]
            exact le_max_left _ _
      · -- the slot is now, and no other attempt sleeps
        rename_i hnow
        have hcome : s.limiter.nextSlot ≤ s.now := by
          have := le_max_right s.now s.limiter.nextSlot
          linarith
        have hslot : max s.now s.limiter.nextSlot = s.now := max_eq_left hcome
        have hnone := h.sleeping_eq_nil hrps hcome
        rw [hslot] at hstep
        cases hstep
        refine SlotsInOrder.enter started waiting s.now
          ⟨?_, ?_, h.punctual, h.past, h.ordered, ?_, ?_, h.sleeps⟩
        · rw [← hslot]
          exact h.spaced.acquire hrps s.now
        · dsimp only
          rw [h.slots, hnone]
          simp
        · rw [List.length_append, h.waits, List.count_append]
          rfl
        · exact List.forall_mem_append.mpr
            ⟨h.due, fun slot hslot => le_of_eq (List.mem_singleton.mp hslot)⟩
  | wake =>
      unfold limiterStep at hstep
      dsimp only at hstep
      split at hstep
      · cases hstep
      · rename_i slot sleeping hsleeping
        rw [Option.ite_none_right_eq_some] at hstep
        rcases hstep with ⟨hcome, hstep⟩
        cases hstep
        have hsleeps := h.sleeps
        rw [hsleeping, List.forall_mem_cons] at hsleeps
        refine SlotsInOrder.enter started waiting slot
          ⟨h.spaced, ?_, h.punctual, h.past, h.ordered, ?_, ?_, hsleeps.2⟩
        · dsimp only
          rw [h.slots, hsleeping]
          simp
        · rw [List.length_append, h.waits, List.count_append]
          rfl
        · exact List.forall_mem_append.mpr
            ⟨h.due, fun other hother => (List.mem_singleton.mp hother).le.trans hcome⟩
  | finish =>
      rw [limiterStep, Option.ite_none_left_eq_some] at hstep
      rw [← Option.some.inj hstep.2]
      exact SlotsInOrder.leave
        ⟨h.spaced, h.slots, h.punctual, h.past, h.ordered, h.waits, h.due, h.sleeps⟩
  | otherArrive =>
      cases hstep
      exact ⟨started, waiting, h.enter_other⟩
  | otherFinish =>
      rw [limiterStep, Option.ite_none_left_eq_some] at hstep
      rw [← Option.some.inj hstep.2]
      exact SlotsInOrder.leave
        ⟨h.spaced, h.slots, h.punctual, h.past, h.ordered, h.waits, h.due, h.sleeps⟩

/-! ## Every run -/

/-- One step keeps the permits accounted for. -/
theorem permitsAccounted_step {permits : Nat} {action : LimiterAction}
    (h : PermitsAccounted permits s) (hstep : limiterStep rps s action = some s') :
    PermitsAccounted permits s' := by
  have htotal := h.total
  cases action with
  | advance delay =>
      rw [limiterStep, Option.ite_none_right_eq_some] at hstep
      cases hstep.2
      exact ⟨h.total, h.busy⟩
  | arrive =>
      unfold limiterStep at hstep
      dsimp only at hstep
      split at hstep
      · cases hstep
        exact ⟨h.total, h.busy⟩
      · cases hstep
        exact PermitsAccounted.enter ⟨h.total, h.busy⟩
  | wake =>
      unfold limiterStep at hstep
      dsimp only at hstep
      split at hstep
      · cases hstep
      · rw [Option.ite_none_right_eq_some] at hstep
        cases hstep.2
        exact PermitsAccounted.enter ⟨h.total, h.busy⟩
  | finish =>
      rw [limiterStep, Option.ite_none_left_eq_some] at hstep
      rcases hstep with ⟨hrunning, hstep⟩
      cases hstep
      apply PermitsAccounted.leave
      · dsimp only
        omega
      · exact h.busy
  | otherArrive =>
      cases hstep
      exact h.enter
  | otherFinish =>
      rw [limiterStep, Option.ite_none_left_eq_some] at hstep
      rcases hstep with ⟨hrunning, hstep⟩
      cases hstep
      apply PermitsAccounted.leave
      · dsimp only
        omega
      · exact h.busy

end

/-- What holds of the requests of a run with this many permits. -/
structure RequestsAccounted (permits : Nat) (s : LimiterState) : Prop where
  /-- No more requests run than there are permits. -/
  capped : s.ownRunning + s.otherRunning ≤ permits
  /-- A request waits only while all permits are in use. -/
  conserving : s.semaphore.waiters ≠ [] → s.ownRunning + s.otherRunning = permits
  /-- Every attempt with a slot sleeps, waits or has started. -/
  attempts : s.limiter.slots.length =
    s.starts.length + s.semaphore.waiters.count .own + s.sleeping.length
  /-- The attempts start in the order of their slots, and none before its slot. -/
  punctual : List.Forall₂ (· ≤ ·) (s.limiter.slots.take s.starts.length) s.starts
  ordered : s.starts.Pairwise (· ≤ ·)

/-- In every run the requests are capped by the permits, a request waits only while all of
them are in use, and every attempt starts once, in its turn and not before its slot. -/
theorem requests_accounted {rps : ℚ} (hrps : 0 < rps) (now : ℚ) (permits : Nat)
    {actions : List LimiterAction} {s : LimiterState}
    (hrun : exec (limiterStep rps) (.initial now permits) actions = some s) :
    RequestsAccounted permits s := by
  have hpermits : PermitsAccounted permits s := by
    refine exec_invariant (fun _ _ _ h hstep => permitsAccounted_step h hstep) ?_ hrun
    exact ⟨Nat.zero_add _, fun hne => absurd rfl hne⟩
  have hslots : ∃ started waiting, SlotsInOrder rps s started waiting := by
    have hinitial : SlotsInOrder rps (.initial now permits) [] [] :=
      ⟨⟨Spacing.spaced_nil, nofun⟩, rfl, .nil, nofun, .nil, rfl, nofun, nofun⟩
    have hstep : ∀ t action t', (∃ started waiting, SlotsInOrder rps t started waiting) →
        limiterStep rps t action = some t' →
          ∃ started waiting, SlotsInOrder rps t' started waiting := by
      intro t action t' h hnext
      rcases h with ⟨started, waiting, h⟩
      exact slotsInOrder_step hrps h hnext
    exact exec_invariant hstep ⟨[], [], hinitial⟩ hrun
  have htotal := hpermits.total
  rcases hslots with ⟨started, waiting, hslots⟩
  constructor
  · omega
  · intro hwaits
    have hnone := hpermits.busy hwaits
    omega
  · rw [hslots.slots, List.length_append, List.length_append, hslots.punctual.length_eq,
      hslots.waits]
  · rw [hslots.slots, ← hslots.punctual.length_eq, List.append_assoc, List.take_left]
    exact hslots.punctual
  · exact hslots.ordered

open RateSamples in
theorem requests_accounted_crowded :
    ∃ s, exec (limiterStep 1) (.initial 0 2) crowdedRun = some s ∧ RequestsAccounted 2 s := by
  have hrun : exec (limiterStep 1) (.initial 0 2) crowdedRun = some
      { now := 5, limiter := ⟨2, [0, 1]⟩, sleeping := [], semaphore := ⟨0, []⟩,
        ownRunning := 2, otherRunning := 0, starts := [5, 5] } := by
    decide +kernel
  exact ⟨_, hrun, requests_accounted one_pos 0 2 hrun⟩

end EtlTool
