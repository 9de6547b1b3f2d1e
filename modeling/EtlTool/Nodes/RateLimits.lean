import EtlTool.Foundations.Interleaving
import EtlTool.Foundations.Spacing

/-!
# Rate limits

The requests of one node share a limiter, which gives every attempt a slot, and the
requests of all nodes of a run share a semaphore.  An attempt first sleeps until its slot
and then waits for a permit, so what the limiter spaces are the slots and not yet the
requests.

A run is an interleaving of the attempts of the node with the requests of the other nodes,
over exact time: a sleeper wakes at its slot, and a permit that is released goes to the
first waiter at the same instant.

Main results:

- Theorem {lit}`slots_keep_rate`: the slots are spaced in every run.
- Theorem {lit}`starts_keep_rate`: the requests start at the rate of the limiter in every
  run in which no attempt finds the semaphore locked when its slot has come.
- Theorem {lit}`starts_exceed_rate`: two requests that start at the same instant.

Current gaps:

- The cancellation of attempts, and delays of the event loop.
-/

namespace EtlTool

open Interleaving Spacing

/-! ## The semaphore -/

/-- Whose request it is: one of the node with the limiter, or one of another node. -/
inductive Requester where
  | own
  | other
deriving DecidableEq

/-- {lit}`asyncio.Semaphore`: the free permits and the waiters, first come first served. -/
structure Semaphore where
  value : Nat
  waiters : List Requester
deriving DecidableEq

/-- {lit}`Semaphore.locked`. -/
def Semaphore.locked (semaphore : Semaphore) : Bool :=
  decide (semaphore.value = 0) || !semaphore.waiters.isEmpty

/-- {lit}`Semaphore.acquire`: take a permit or wait for one, and whether it was taken. -/
def Semaphore.acquire (semaphore : Semaphore) (requester : Requester) : Bool × Semaphore :=
  if semaphore.locked then
    (false, { semaphore with waiters := semaphore.waiters ++ [requester] })
  else (true, { semaphore with value := semaphore.value - 1 })

/-- {lit}`Semaphore.release`: the waiter that gets the permit, if there is one. -/
def Semaphore.release (semaphore : Semaphore) : Option Requester × Semaphore :=
  match semaphore.waiters with
  | [] => (none, { semaphore with value := semaphore.value + 1 })
  | requester :: waiters => (some requester, { semaphore with waiters := waiters })

/-! ## The limiter -/

/-- {lit}`RateLimiter`, with the slots that it has handed out. -/
structure RateLimiter where
  nextSlot : ℚ
  slots : List ℚ
deriving DecidableEq

/-- {lit}`RateLimiter.acquire` up to the sleep: the slot that it hands out. -/
def RateLimiter.acquire (rps now : ℚ) (limiter : RateLimiter) : ℚ × RateLimiter :=
  let slot := max now limiter.nextSlot
  (slot, { nextSlot := slot + 1 / rps, slots := limiter.slots ++ [slot] })

/-- The slots so far are spaced, and the next one is behind them. -/
structure RateLimiter.Spaced (rps : ℚ) (limiter : RateLimiter) : Prop where
  spaced : Spacing.Spaced (1 / rps) limiter.slots
  behind : ∀ slot ∈ limiter.slots, slot + 1 / rps ≤ limiter.nextSlot

/-- The slot that is handed out is spaced from those before it. -/
theorem RateLimiter.Spaced.acquire {rps : ℚ} (hrps : 0 < rps) {limiter : RateLimiter}
    (h : limiter.Spaced rps) (now : ℚ) : (limiter.acquire rps now).2.Spaced rps := by
  have hinterval : 0 < 1 / rps := one_div_pos.mpr hrps
  have hbehind : ∀ slot ∈ limiter.slots, slot + 1 / rps ≤ max now limiter.nextSlot :=
    fun slot hslot => (h.behind slot hslot).trans (le_max_right _ _)
  constructor
  · exact h.spaced.append_singleton hbehind
  · intro slot hslot
    rcases List.mem_append.mp hslot with hold | hnew
    · have hle := hbehind slot hold
      simp only [RateLimiter.acquire]
      linarith
    · rw [List.mem_singleton.mp hnew]
      exact le_rfl

/-! ## Steps of a run -/

/-- The state of a run as far as it concerns the limiter of one node. -/
structure LimiterState where
  now : ℚ
  limiter : RateLimiter
  /-- The slots of the attempts that sleep in {lit}`RateLimiter.acquire`, in order. -/
  sleeping : List ℚ
  /-- {lit}`RunContext.http_semaphore`. -/
  semaphore : Semaphore
  ownRunning : Nat
  otherRunning : Nat
  /-- When the node called {lit}`client.request`. -/
  starts : List ℚ
deriving DecidableEq

/-- The beginning of a run at this time, with this many permits. -/
def LimiterState.initial (now : ℚ) (permits : Nat) : LimiterState where
  now := now
  limiter := ⟨0, []⟩
  sleeping := []
  semaphore := ⟨permits, []⟩
  ownRunning := 0
  otherRunning := 0
  starts := []

/-- What may happen next. -/
inductive LimiterAction where
  /-- Time passes. -/
  | advance (delay : ℚ)
  /-- An attempt of the node calls {lit}`RateLimiter.acquire`. -/
  | arrive
  /-- The first sleeper wakes at its slot. -/
  | wake
  /-- A request of the node ends. -/
  | finish
  /-- A request of another node asks for a permit. -/
  | otherArrive
  | otherFinish
deriving DecidableEq

/-- A request with a permit starts. -/
def LimiterState.start (s : LimiterState) : Requester → LimiterState
  | .own => { s with ownRunning := s.ownRunning + 1, starts := s.starts ++ [s.now] }
  | .other => { s with otherRunning := s.otherRunning + 1 }

/-- {lit}`async with semaphore`: the request starts, or it waits. -/
def LimiterState.enter (s : LimiterState) (requester : Requester) : LimiterState :=
  match s.semaphore.acquire requester with
  | (true, semaphore) => { s with semaphore := semaphore }.start requester
  | (false, semaphore) => { s with semaphore := semaphore }

/-- A permit is released, and a waiter starts with it. -/
def LimiterState.leave (s : LimiterState) : LimiterState :=
  match s.semaphore.release with
  | (none, semaphore) => { s with semaphore := semaphore }
  | (some requester, semaphore) => { s with semaphore := semaphore }.start requester

/-- One step.  Time passes no slot of a sleeper. -/
def limiterStep (rps : ℚ) (s : LimiterState) : LimiterAction → Option LimiterState
  | .advance delay =>
      if 0 < delay ∧ ∀ slot ∈ s.sleeping, s.now + delay ≤ slot then
        some { s with now := s.now + delay }
      else none
  | .arrive =>
      match s.limiter.acquire rps s.now with
      | (slot, limiter) =>
          if 0 < slot - s.now then
            some { s with limiter := limiter, sleeping := s.sleeping ++ [slot] }
          else some ({ s with limiter := limiter }.enter .own)
  | .wake =>
      match s.sleeping with
      | [] => none
      | slot :: sleeping =>
          if slot ≤ s.now then some ({ s with sleeping := sleeping }.enter .own) else none
  | .finish =>
      if s.ownRunning = 0 then none
      else some { s with ownRunning := s.ownRunning - 1 }.leave
  | .otherArrive => some (s.enter .other)
  | .otherFinish =>
      if s.otherRunning = 0 then none
      else some { s with otherRunning := s.otherRunning - 1 }.leave

/-- No attempt of the node finds the semaphore locked when its slot has come. -/
def SlotIsFree (s : LimiterState) : LimiterAction → Prop
  | .arrive => s.limiter.nextSlot ≤ s.now → s.semaphore.locked = false
  | .wake => s.semaphore.locked = false
  | _ => True

instance (s : LimiterState) : ∀ action, Decidable (SlotIsFree s action)
  | .arrive =>
      inferInstanceAs (Decidable (s.limiter.nextSlot ≤ s.now → s.semaphore.locked = false))
  | .wake => inferInstanceAs (Decidable (s.semaphore.locked = false))
  | .advance _ => isTrue trivial
  | .finish => isTrue trivial
  | .otherArrive => isTrue trivial
  | .otherFinish => isTrue trivial

/-! ## Entering and leaving -/

section

variable (s : LimiterState) (requester : Requester)

/-- What a request does to the semaphore leaves the limiter and its sleepers alone. -/
theorem enter_frame :
    (s.enter requester).limiter = s.limiter ∧ (s.enter requester).sleeping = s.sleeping ∧
      (s.enter requester).now = s.now := by
  unfold LimiterState.enter
  split
  · cases requester <;> exact ⟨rfl, rfl, rfl⟩
  · exact ⟨rfl, rfl, rfl⟩

private theorem leave_frame :
    s.leave.limiter = s.limiter ∧ s.leave.sleeping = s.sleeping ∧ s.leave.now = s.now := by
  unfold LimiterState.leave
  split
  · exact ⟨rfl, rfl, rfl⟩
  · rename_i requester _ _
    cases requester <;> exact ⟨rfl, rfl, rfl⟩

variable {s}

/-- An attempt that finds the semaphore unlocked starts at once. -/
theorem enter_own_of_unlocked (h : s.semaphore.locked = false) :
    (s.enter .own).starts = s.starts ++ [s.now] ∧
      (s.enter .own).semaphore.waiters = s.semaphore.waiters := by
  have hacquire : s.semaphore.acquire .own =
      (true, { s.semaphore with value := s.semaphore.value - 1 }) := by
    rw [Semaphore.acquire, h]
    rfl
  rw [LimiterState.enter, hacquire]
  exact ⟨rfl, rfl⟩

/-- A request of another node starts none of the node. -/
theorem enter_other (h : Requester.own ∉ s.semaphore.waiters) :
    (s.enter .other).starts = s.starts ∧
      Requester.own ∉ (s.enter .other).semaphore.waiters := by
  unfold LimiterState.enter Semaphore.acquire
  cases s.semaphore.locked with
  | true => exact ⟨rfl, by simpa using h⟩
  | false => exact ⟨rfl, h⟩

/-- A permit that is released starts no request of the node if none waits. -/
theorem leave_of_notMem (h : Requester.own ∉ s.semaphore.waiters) :
    s.leave.starts = s.starts ∧ Requester.own ∉ s.leave.semaphore.waiters := by
  unfold LimiterState.leave Semaphore.release
  cases hwaiters : s.semaphore.waiters with
  | nil => exact ⟨rfl, List.not_mem_nil⟩
  | cons requester waiters =>
      rw [hwaiters, List.mem_cons, not_or] at h
      cases requester with
      | own => exact absurd rfl h.1
      | other => exact ⟨rfl, h.2⟩

end

/-! ## The rate of the slots -/

section

variable {rps : ℚ} {s s' : LimiterState}

/-- Only an arrival changes the limiter. -/
theorem limiterStep_limiter {action : LimiterAction}
    (hstep : limiterStep rps s action = some s') :
    s'.limiter = s.limiter ∨ s'.limiter = (s.limiter.acquire rps s.now).2 := by
  cases action with
  | advance delay =>
      rw [limiterStep, Option.ite_none_right_eq_some] at hstep
      rw [← Option.some.inj hstep.2]
      exact Or.inl rfl
  | arrive =>
      unfold limiterStep at hstep
      dsimp only at hstep
      split at hstep
      · rw [← Option.some.inj hstep]
        exact Or.inr rfl
      · rw [← Option.some.inj hstep]
        exact Or.inr (enter_frame _ _).1
  | wake =>
      unfold limiterStep at hstep
      dsimp only at hstep
      split at hstep
      · cases hstep
      · rw [Option.ite_none_right_eq_some] at hstep
        rw [← Option.some.inj hstep.2]
        exact Or.inl (enter_frame _ _).1
  | finish =>
      rw [limiterStep, Option.ite_none_left_eq_some] at hstep
      rw [← Option.some.inj hstep.2]
      exact Or.inl (leave_frame _).1
  | otherArrive =>
      rw [← Option.some.inj hstep]
      exact Or.inl (enter_frame _ _).1
  | otherFinish =>
      rw [limiterStep, Option.ite_none_left_eq_some] at hstep
      rw [← Option.some.inj hstep.2]
      exact Or.inl (leave_frame _).1

theorem limiterStep_spaced (hrps : 0 < rps) {action : LimiterAction}
    (h : s.limiter.Spaced rps) (hstep : limiterStep rps s action = some s') :
    s'.limiter.Spaced rps := by
  rcases limiterStep_limiter hstep with hsame | hacquired
  · rw [hsame]
    exact h
  · rw [hacquired]
    exact h.acquire hrps s.now

/-- The slots are spaced in every run, however the semaphore is held. -/
theorem slots_keep_rate (hrps : 0 < rps) {now : ℚ} {permits : Nat}
    {actions : List LimiterAction}
    (hrun : exec (limiterStep rps) (.initial now permits) actions = some s) :
    s.limiter.Spaced rps := by
  have hinitial : (LimiterState.initial now permits).limiter.Spaced rps := ⟨spaced_nil, nofun⟩
  exact exec_invariant (fun _ _ _ h hstep => limiterStep_spaced hrps h hstep) hinitial hrun

/-! ## The rate of the starts -/

/-- Every attempt started at its slot or is asleep until then. -/
structure StartsAtSlots (rps : ℚ) (s : LimiterState) : Prop where
  spaced : s.limiter.Spaced rps
  started : s.limiter.slots = s.starts ++ s.sleeping
  noneWaits : Requester.own ∉ s.semaphore.waiters
  due : ∀ slot ∈ s.sleeping, s.now ≤ slot

/-- No attempt sleeps when the next slot has come. -/
theorem StartsAtSlots.sleeping_eq_nil (hrps : 0 < rps) (h : StartsAtSlots rps s)
    (hcome : s.limiter.nextSlot ≤ s.now) : s.sleeping = [] := by
  have hinterval : 0 < 1 / rps := one_div_pos.mpr hrps
  apply List.eq_nil_iff_forall_not_mem.mpr
  intro slot hslot
  have hbehind := h.spaced.behind slot (by
    rw [h.started]
    exact List.mem_append_right _ hslot)
  have hdue := h.due slot hslot
  linarith

/-- An attempt starts at its slot if it finds the semaphore unlocked. -/
theorem startsAtSlots_enter (hspaced : s.limiter.Spaced rps)
    (hstarted : s.limiter.slots = s.starts ++ s.now :: s.sleeping)
    (hnone : Requester.own ∉ s.semaphore.waiters) (hdue : ∀ slot ∈ s.sleeping, s.now ≤ slot)
    (hfree : s.semaphore.locked = false) : StartsAtSlots rps (s.enter .own) := by
  rcases enter_frame s .own with ⟨hlimiter, hsleeping, hnow⟩
  rcases enter_own_of_unlocked hfree with ⟨hstarts, hwaiters⟩
  constructor
  · rw [hlimiter]
    exact hspaced
  · rw [hlimiter, hstarts, hsleeping, List.append_assoc]
    exact hstarted
  · rw [hwaiters]
    exact hnone
  · rw [hsleeping, hnow]
    exact hdue

private theorem startsAtSlots_leave {between : LimiterState} (h : StartsAtSlots rps s)
    (hlimiter : between.limiter = s.limiter) (hsleeping : between.sleeping = s.sleeping)
    (hnow : between.now = s.now) (hstarts : between.starts = s.starts)
    (hsemaphore : between.semaphore = s.semaphore) : StartsAtSlots rps between.leave := by
  rcases leave_frame between with ⟨hlimiter', hsleeping', hnow'⟩
  rcases leave_of_notMem (s := between) (by rw [hsemaphore]; exact h.noneWaits) with
    ⟨hstarts', hwaiters⟩
  constructor
  · rw [hlimiter', hlimiter]
    exact h.spaced
  · rw [hlimiter', hlimiter, hstarts', hstarts, hsleeping', hsleeping]
    exact h.started
  · exact hwaiters
  · rw [hsleeping', hsleeping, hnow', hnow]
    exact h.due

/-- One step keeps the starts at the slots, if an attempt whose slot has come finds the
semaphore unlocked. -/
theorem startsAtSlots_step (hrps : 0 < rps) {action : LimiterAction} (h : StartsAtSlots rps s)
    (hfree : SlotIsFree s action) (hstep : limiterStep rps s action = some s') :
    StartsAtSlots rps s' := by
  have hspaced := limiterStep_spaced hrps h.spaced hstep
  cases action with
  | advance delay =>
      rw [limiterStep, Option.ite_none_right_eq_some] at hstep
      rcases hstep with ⟨hpass, hstep⟩
      cases hstep
      exact ⟨hspaced, h.started, h.noneWaits, hpass.2⟩
  | arrive =>
      unfold limiterStep at hstep
      dsimp only [RateLimiter.acquire] at hstep
      split at hstep
      · -- the slot is still to come
        rename_i hlater
        cases hstep
        refine ⟨hspaced, ?_, h.noneWaits, fun slot hslot => ?_⟩
        · dsimp only
          rw [h.started, List.append_assoc]
        · rcases List.mem_append.mp hslot with hold | hnew
          · exact h.due slot hold
          · rw [List.mem_singleton.mp hnew]
            exact le_max_left _ _
      · -- the slot is now, and no other attempt sleeps
        rename_i hnow
        have hcome : s.limiter.nextSlot ≤ s.now := by
          have := le_max_right s.now s.limiter.nextSlot
          linarith
        have hslot : max s.now s.limiter.nextSlot = s.now := max_eq_left hcome
        have hnone := h.sleeping_eq_nil hrps hcome
        rw [hslot] at hstep
        cases hstep
        refine startsAtSlots_enter ?_ ?_ h.noneWaits h.due (hfree hcome)
        · rw [← hslot]
          exact h.spaced.acquire hrps s.now
        · dsimp only
          rw [h.started, hnone, List.append_nil]
  | wake =>
      unfold limiterStep at hstep
      dsimp only at hstep
      split at hstep
      · cases hstep
      · rename_i slot sleeping hsleeping
        rw [Option.ite_none_right_eq_some] at hstep
        rcases hstep with ⟨hcome, hstep⟩
        cases hstep
        have hdue := h.due
        rw [hsleeping, List.forall_mem_cons] at hdue
        have hslot : slot = s.now := le_antisymm hcome hdue.1
        refine startsAtSlots_enter h.spaced ?_ h.noneWaits hdue.2 hfree
        dsimp only
        rw [h.started, hsleeping, hslot]
  | finish =>
      rw [limiterStep, Option.ite_none_left_eq_some] at hstep
      rw [← Option.some.inj hstep.2]
      exact startsAtSlots_leave h rfl rfl rfl rfl rfl
  | otherArrive =>
      cases hstep
      rcases enter_frame s .other with ⟨hlimiter, hsleeping, hnow⟩
      rcases enter_other h.noneWaits with ⟨hstarts, hwaiters⟩
      refine ⟨hspaced, ?_, hwaiters, ?_⟩
      · rw [hlimiter, hstarts, hsleeping]
        exact h.started
      · rw [hsleeping, hnow]
        exact h.due
  | otherFinish =>
      rw [limiterStep, Option.ite_none_left_eq_some] at hstep
      rw [← Option.some.inj hstep.2]
      exact startsAtSlots_leave h rfl rfl rfl rfl rfl

/-- In every run in which no attempt finds the semaphore locked when its slot has come, the
requests of the node start at the rate of the limiter: they are spaced, and no window holds
more of them than the rate allows. -/
theorem starts_keep_rate (hrps : 0 < rps) (now : ℚ) (permits : Nat)
    (actions : List LimiterAction)
    (hfree : Guarded (limiterStep rps) SlotIsFree (.initial now permits) actions)
    (hrun : exec (limiterStep rps) (.initial now permits) actions = some s) :
    Spaced (1 / rps) s.starts ∧
      ∀ start length : ℚ, (window start length s.starts).length ≤ ⌊length * rps⌋₊ + 1 := by
  have hinitial : StartsAtSlots rps (.initial now permits) :=
    ⟨⟨spaced_nil, nofun⟩, rfl, List.not_mem_nil, nofun⟩
  have hslots := guarded_invariant
    (fun _ _ _ h hfree hstep => startsAtSlots_step hrps h hfree hstep) hinitial hfree hrun
  have hspaced : Spaced (1 / rps) (s.starts ++ s.sleeping) := by
    rw [← hslots.started]
    exact hslots.spaced.spaced
  exact ⟨hspaced.of_append_left, hspaced.of_append_left.length_window_le hrps⟩

end

/-! ## Two permits held by others -/

namespace RateSamples

/-- The other nodes hold both permits while two attempts get their slots, one second after
the other, and release them at the same instant. -/
def crowdedRun : List LimiterAction :=
  [.otherArrive, .otherArrive, .arrive, .arrive, .advance 1, .wake, .advance 4, .otherFinish,
    .otherFinish]

/-- The first attempt ends before the second one gets its slot. -/
def quietRun : List LimiterAction :=
  [.otherArrive, .arrive, .arrive, .advance (1 / 2), .finish, .advance (1 / 2), .wake]

end RateSamples

open RateSamples

/-- With one request per second, two requests start at the same instant. -/
theorem starts_exceed_rate :
    ∃ s, exec (limiterStep 1) (.initial 0 2) crowdedRun = some s ∧ s.starts = [5, 5] ∧
      ¬ Spaced (1 / 1) s.starts ∧ ⌊(0 : ℚ) * 1⌋₊ + 1 < (window 5 0 s.starts).length := by
  have hrun : exec (limiterStep 1) (.initial 0 2) crowdedRun = some
      { now := 5, limiter := ⟨2, [0, 1]⟩, sleeping := [], semaphore := ⟨0, []⟩,
        ownRunning := 2, otherRunning := 0, starts := [5, 5] } := by
    decide +kernel
  exact ⟨_, hrun, rfl, by decide +kernel, by decide +kernel⟩

theorem starts_keep_rate_quiet :
    ∃ s, exec (limiterStep 1) (.initial 0 2) quietRun = some s ∧ s.starts = [0, 1] ∧
      Spaced (1 / 1) s.starts ∧
      ∀ start length : ℚ, (window start length s.starts).length ≤ ⌊length * 1⌋₊ + 1 := by
  have hrun : exec (limiterStep 1) (.initial 0 2) quietRun = some
      { now := 1, limiter := ⟨2, [0, 1]⟩, sleeping := [], semaphore := ⟨0, []⟩,
        ownRunning := 1, otherRunning := 1, starts := [0, 1] } := by
    decide +kernel
  exact ⟨_, hrun, rfl, starts_keep_rate one_pos 0 2 quietRun (by decide +kernel) hrun⟩

end EtlTool
