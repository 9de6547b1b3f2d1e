import EtlTool.Nodes.Sources

/-!
# Retries of a request

One logical request of a node is a loop of attempts.  An attempt that ends in a transport
error, in status 429 or in a status from 500 on is made again after a pause, as often as
the config says.  The loop decides about that in two places, one for exceptions and one
for responses, and each of them leaves it in its own way.

A run of the loop is recorded as the events in the order in which they occur.  The pauses
are taken to end.

Main results:

- Theorem {lit}`attemptVerdict_again_iff`: an attempt is made again exactly when its
  outcome is retryable and a retry is left.
- Theorem {lit}`requestAttempts_last`: the events and the result of a loop whose last
  attempt is known.
- Theorem {lit}`requestWithRetry_makes_right_attempts`: requests, result, reported
  attempts, acquisitions of the limiter, callbacks and denials of the SSRF guard.
- Theorem {lit}`requestJson_reports_attempts`: the error of the node reports the number
  of requests sent.

Current gaps:

- The cancellation of the task, and delays that exceed the range of a float.
-/

namespace EtlTool

/-! ## Outcomes of an attempt -/

/-- The classes of exceptions that the loop tells apart. -/
inductive ExceptionClass where
  /-- {lit}`httpx.TimeoutException`, a transport error. -/
  | timeout
  /-- Another {lit}`httpx.TransportError`. -/
  | transport
  /-- Another {lit}`httpx.HTTPError`. -/
  | httpError
  /-- {lit}`socket.gaierror`. -/
  | gaierror
  /-- {lit}`ssl.SSLError`, of which {lit}`ssl.CertificateError` is a subclass. -/
  | ssl
  /-- Another {lit}`OSError`. -/
  | osError
  /-- {lit}`SSRFBlockedError`. -/
  | ssrfBlocked
  | other
deriving DecidableEq

/-- An exception of the client, with the classes of the exceptions that led to it: of its
{lit}`__cause__` or {lit}`__context__`, of the cause of that one, and so on. -/
structure RequestException where
  cls : ExceptionClass
  causes : List ExceptionClass
  typeName : String
  text : String

/-- A response with what the loop reads of it.  The header {lit}`Retry-After` is given by
the float that it reads as, or by the exception. -/
structure HttpReply extends HttpResponse where
  reasonPhrase : String
  retryAfter : Option (Except PyException PyFloat)

/-- What becomes of one request that is sent. -/
inductive AttemptOutcome where
  | response (reply : HttpReply)
  | raised (exc : RequestException)

/-- The category that the chain of causes determines. -/
def categorizeCauses : List ExceptionClass → Option ErrorCategory
  | [] => none
  | .gaierror :: _ => some .dns
  | .ssl :: _ => some .tls
  | _ :: causes => categorizeCauses causes

/-- {lit}`categorize_exception`. -/
def categorizeException (exc : RequestException) : ErrorCategory :=
  if exc.cls = .timeout then .timeout
  else
    match categorizeCauses (exc.cls :: exc.causes) with
    | some category => category
    | none =>
        match exc.cls with
        | .ssrfBlocked => .unknown
        | .other => .unknown
        | _ => .network

/-- {lit}`RATE_LIMIT_STATUS`. -/
def rateLimitStatus : Int := 429

/-- {lit}`RETRYABLE_STATUS_MIN`. -/
def retryableStatusMin : Int := 500

/-- {lit}`categorize_status`. -/
def categorizeStatus (statusCode : Int) : ErrorCategory :=
  if statusCode = 401 ∨ statusCode = 403 then .auth
  else if statusCode = rateLimitStatus then .rateLimit
  else .httpStatus

/-- {lit}`_is_retryable_exception`: a transport error. -/
def isRetryableException (exc : RequestException) : Bool :=
  match exc.cls with
  | .timeout => true
  | .transport => true
  | _ => false

/-- {lit}`_is_retryable_status`. -/
def isRetryableStatus (statusCode : Int) : Bool :=
  decide (statusCode = rateLimitStatus) || decide (retryableStatusMin ≤ statusCode)

/-- Whether an outcome is one of those that are retried. -/
def AttemptOutcome.isRetryable : AttemptOutcome → Bool
  | .response reply => isRetryableStatus reply.statusCode
  | .raised exc => isRetryableException exc

/-- Whether the SSRF guard denied the attempt. -/
def AttemptOutcome.isDenied : AttemptOutcome → Bool
  | .response _ => false
  | .raised exc => decide (exc.cls = .ssrfBlocked)

/-! ## The loop -/

/-- {lit}`x >= 0` for a float. -/
def PyFloat.nonneg : PyFloat → Bool
  | .finite q => decide (0 ≤ q)
  | .posInf => true
  | _ => false

/-- {lit}`RetryConfig`. -/
structure RetryConfig where
  max : Nat := 0
  backoff : PyFloat := .finite (1 / 2)
  max_le : max ≤ 10 := by decide
  backoff_ge : backoff.nonneg = true := by decide +kernel

/-- The arguments of {lit}`request_with_retry` that decide about the attempts. -/
structure RetriedRequest where
  retry : RetryConfig := {}
  hasLimiter : Bool := false
  hasSemaphore : Bool := false
  raiseForStatus : Bool := true
  hasOnRetry : Bool := false

/-- What the loop does. -/
inductive RetryEvent where
  /-- {lit}`limiter.acquire()`. -/
  | acquire
  /-- Entering the block of the semaphore. -/
  | enter
  /-- {lit}`client.request(...)`. -/
  | request
  /-- Leaving the block of the semaphore. -/
  | leave
  | onRetry (attempt : Nat) (reason : String)
  | sleep (delay : PyFloat)
deriving DecidableEq

/-- How a call ends: with a response and the number of attempts, or a failure. -/
abbrev RequestResult := Except RequestFailure (HttpReply × Nat)

/-- A run of the loop. -/
structure RequestRun where
  events : List RetryEvent
  result : RequestResult

/-- {lit}`a * 2 ** n` for a float. -/
def PyFloat.doubled : PyFloat → Nat → PyFloat
  | .finite q, n => .finite (q * 2 ^ n)
  | x, _ => x

/-- {lit}`y > x` for floats. -/
def PyFloat.exceeds : PyFloat → PyFloat → Bool
  | .finite q, .finite p => decide (p < q)
  | .finite _, .negInf => true
  | .posInf, .finite _ => true
  | .posInf, .negInf => true
  | _, _ => false

/-- {lit}`max(x, y)` for floats: the first one, unless the second one exceeds it. -/
def PyFloat.max (x y : PyFloat) : PyFloat :=
  if y.exceeds x then y else x

/-- {lit}`_retry_after_seconds`. -/
def retryAfterSeconds (reply : HttpReply) : Option PyFloat :=
  match reply.retryAfter with
  | none => none
  | some (.error _) => none
  | some (.ok seconds) => some (PyFloat.max (.finite 0) seconds)

/-- What follows an attempt. -/
inductive AttemptVerdict where
  | again (reason : String) (delay : PyFloat)
  | done (result : RequestResult)

/-- The pause after a response: {lit}`backoff * 2 ** (attempts - 1)`, or what the header
asks for if that exceeds it. -/
def responseDelay (call : RetriedRequest) (attempts : Nat) (reply : HttpReply) : PyFloat :=
  let delay := call.retry.backoff.doubled (attempts - 1)
  match retryAfterSeconds reply with
  | none => delay
  | some seconds => delay.max seconds

/-- The body of the loop after the request, for the attempt with this number. -/
def attemptVerdict (call : RetriedRequest) (attempts : Nat) : AttemptOutcome → AttemptVerdict
  | .raised exc =>
      if exc.cls = .ssrfBlocked then
        .done (.error ⟨.config, exc.text, none, attempts⟩)
      else
        let category := categorizeException exc
        if decide (attempts ≤ call.retry.max) && isRetryableException exc then
          .again (exc.typeName ++ ": " ++ exc.text) (call.retry.backoff.doubled (attempts - 1))
        else
          .done (.error ⟨category, "request failed: " ++ exc.typeName ++ ": " ++ exc.text, none,
            attempts⟩)
  | .response reply =>
      let status := reply.statusCode
      if decide (400 ≤ status) && isRetryableStatus status && decide (attempts ≤ call.retry.max)
      then
        .again ("HTTP " ++ toString status) (responseDelay call attempts reply)
      else if call.raiseForStatus && decide (400 ≤ status) then
        .done (.error ⟨categorizeStatus status,
          String.ofList
            (pyStrip ("HTTP " ++ toString status ++ " " ++ reply.reasonPhrase).toList),
          some status, attempts⟩)
      else .done (.ok (reply, attempts))

/-- The events of an attempt up to its outcome. -/
def RetriedRequest.attemptEvents (call : RetriedRequest) : List RetryEvent :=
  (if call.hasLimiter then [.acquire] else []) ++
    if call.hasSemaphore then [.enter, .request, .leave] else [.request]

/-- The events between an attempt and the next one. -/
def RetriedRequest.retryEvents (call : RetriedRequest) (attempts : Nat) (reason : String)
    (delay : PyFloat) : List RetryEvent :=
  (if call.hasOnRetry then [.onRetry attempts reason] else []) ++ [.sleep delay]

/-- Only an attempt that leaves a retry is made again. -/
theorem attemptVerdict_again_le {call : RetriedRequest} {attempts : Nat}
    {outcome : AttemptOutcome} {reason : String} {delay : PyFloat}
    (h : attemptVerdict call attempts outcome = .again reason delay) :
    attempts ≤ call.retry.max := by
  cases outcome with
  | raised exc =>
      simp only [attemptVerdict] at h
      split at h
      · cases h
      · split at h
        · rename_i hagain
          rw [Bool.and_eq_true, decide_eq_true_eq] at hagain
          exact hagain.1
        · cases h
  | response reply =>
      simp only [attemptVerdict] at h
      split at h
      · rename_i hagain
        rw [Bool.and_eq_true, decide_eq_true_eq] at hagain
        exact hagain.2
      · split at h <;> cases h

/-- The loop after this many attempts.  The outcomes are numbered from zero. -/
def requestAttempts (call : RetriedRequest) (outcomes : Nat → AttemptOutcome) (made : Nat) :
    RequestRun :=
  match _h : attemptVerdict call (made + 1) (outcomes made) with
  | .done result => ⟨call.attemptEvents, result⟩
  | .again reason delay =>
      let rest := requestAttempts call outcomes (made + 1)
      ⟨call.attemptEvents ++ call.retryEvents (made + 1) reason delay ++ rest.events, rest.result⟩
termination_by call.retry.max - made
decreasing_by
  have hle := attemptVerdict_again_le _h
  omega

/-- {lit}`request_with_retry`. -/
def requestWithRetry (call : RetriedRequest) (outcomes : Nat → AttemptOutcome) : RequestRun :=
  requestAttempts call outcomes 0

/-! ## The last attempt -/

/-- What a call makes of the outcome of its last attempt. -/
def finalResult (raiseForStatus : Bool) (attempts : Nat) : AttemptOutcome → RequestResult
  | .response reply =>
      if raiseForStatus = true ∧ 400 ≤ reply.statusCode then
        .error {
          category := categorizeStatus reply.statusCode
          message := String.ofList
            (pyStrip ("HTTP " ++ toString reply.statusCode ++ " " ++ reply.reasonPhrase).toList)
          httpStatus := some reply.statusCode
          attempts := attempts }
      else .ok (reply, attempts)
  | .raised exc =>
      .error {
        category := if exc.cls = .ssrfBlocked then .config else categorizeException exc
        message :=
          if exc.cls = .ssrfBlocked then exc.text
          else "request failed: " ++ exc.typeName ++ ": " ++ exc.text
        httpStatus := none
        attempts := attempts }

/-- The number of attempts that a result reports. -/
def reportedAttempts : RequestResult → Int
  | .ok (_, attempts) => attempts
  | .error failure => failure.attempts

private theorem reportedAttempts_finalResult (raiseForStatus : Bool) (attempts : Nat)
    (outcome : AttemptOutcome) :
    reportedAttempts (finalResult raiseForStatus attempts outcome) = attempts := by
  cases outcome with
  | raised exc => rfl
  | response reply =>
      simp only [finalResult]
      split <;> rfl

/-- A retryable status is an error status. -/
theorem le_of_isRetryableStatus {statusCode : Int} (h : isRetryableStatus statusCode = true) :
    400 ≤ statusCode := by
  unfold isRetryableStatus rateLimitStatus retryableStatusMin at h
  rw [Bool.or_eq_true, decide_eq_true_eq, decide_eq_true_eq] at h
  omega

private theorem ssrfBlocked_not_retryable {exc : RequestException} (h : exc.cls = .ssrfBlocked) :
    isRetryableException exc = false := by
  rw [isRetryableException, h]

/-- A retryable outcome is retried while a retry is left. -/
theorem attemptVerdict_again {call : RetriedRequest} {attempts : Nat} {outcome : AttemptOutcome}
    (hretry : outcome.isRetryable = true) (hleft : attempts ≤ call.retry.max) :
    ∃ reason delay, attemptVerdict call attempts outcome = .again reason delay := by
  cases outcome with
  | raised exc =>
      have hnot : exc.cls ≠ .ssrfBlocked := by
        intro hdenied
        rw [AttemptOutcome.isRetryable, ssrfBlocked_not_retryable hdenied] at hretry
        cases hretry
      have hexc : isRetryableException exc = true := hretry
      refine ⟨exc.typeName ++ ": " ++ exc.text, call.retry.backoff.doubled (attempts - 1), ?_⟩
      simp only [attemptVerdict, if_neg hnot, hexc, hleft, decide_true, Bool.and_self, if_true]
  | response reply =>
      have hstatus : isRetryableStatus reply.statusCode = true := hretry
      have herror := le_of_isRetryableStatus hstatus
      refine ⟨"HTTP " ++ toString reply.statusCode, responseDelay call attempts reply, ?_⟩
      simp only [attemptVerdict, hstatus, herror, hleft, decide_true, Bool.and_self, if_true]

/-- Any other outcome ends the loop, and it alone determines the result. -/
theorem attemptVerdict_done {call : RetriedRequest} {attempts : Nat} {outcome : AttemptOutcome}
    (hlast : outcome.isRetryable = true → call.retry.max < attempts) :
    attemptVerdict call attempts outcome =
      .done (finalResult call.raiseForStatus attempts outcome) := by
  cases outcome with
  | raised exc =>
      by_cases hdenied : exc.cls = .ssrfBlocked
      · simp [attemptVerdict, finalResult, hdenied]
      · have hagain : ¬(attempts ≤ call.retry.max ∧ isRetryableException exc = true) := by
          rintro ⟨hleft, hretry⟩
          exact absurd (hlast hretry) (Nat.not_lt.mpr hleft)
        simp [attemptVerdict, finalResult, hdenied, hagain]
  | response reply =>
      have hagain : ¬((400 ≤ reply.statusCode ∧ isRetryableStatus reply.statusCode = true) ∧
          attempts ≤ call.retry.max) := by
        rintro ⟨⟨_, hretry⟩, hleft⟩
        exact absurd (hlast hretry) (Nat.not_lt.mpr hleft)
      simp only [attemptVerdict, finalResult, Bool.and_eq_true, decide_eq_true_eq, if_neg hagain]
      split <;> rfl

/-- An attempt is made again exactly when its outcome is retryable and a retry is left. -/
theorem attemptVerdict_again_iff (call : RetriedRequest) (attempts : Nat)
    (outcome : AttemptOutcome) :
    (∃ reason delay, attemptVerdict call attempts outcome = .again reason delay) ↔
      outcome.isRetryable = true ∧ attempts ≤ call.retry.max := by
  constructor
  · rintro ⟨reason, delay, hagain⟩
    by_contra hnot
    have hdone : attemptVerdict call attempts outcome = _ := attemptVerdict_done
      fun hretry => Nat.lt_of_not_le fun hleft => hnot ⟨hretry, hleft⟩
    rw [hagain] at hdone
    cases hdone
  · rintro ⟨hretry, hleft⟩
    exact attemptVerdict_again hretry hleft

/-! ## Runs of the loop -/

/-- The number of the attempt that a callback reports. -/
def RetryEvent.retried : RetryEvent → Option Nat
  | .onRetry attempt _ => some attempt
  | _ => none

/-- A run whose last attempt is the one with this number, counted from zero, and whose first
one follows {lit}`made` others. -/
structure RequestRun.EndsAt (run : RequestRun) (call : RetriedRequest)
    (outcomes : Nat → AttemptOutcome) (made last : Nat) : Prop where
  requests : run.events.count .request = last + 1 - made
  acquires : run.events.count .acquire = if call.hasLimiter then last + 1 - made else 0
  callbacks : run.events.filterMap RetryEvent.retried =
    if call.hasOnRetry then List.range' (made + 1) (last - made) else []
  result : run.result = finalResult call.raiseForStatus (last + 1) (outcomes last)

section

variable (call : RetriedRequest)

/-- An attempt sends one request. -/
@[simp]
theorem attemptEvents_count_request : call.attemptEvents.count .request = 1 := by
  unfold RetriedRequest.attemptEvents
  cases call.hasLimiter <;> cases call.hasSemaphore <;> rfl

/-- An attempt acquires one slot where there is a limiter. -/
@[simp]
theorem attemptEvents_count_acquire :
    call.attemptEvents.count .acquire = if call.hasLimiter then 1 else 0 := by
  unfold RetriedRequest.attemptEvents
  cases call.hasLimiter <;> cases call.hasSemaphore <;> rfl

/-- An attempt itself reports no retry. -/
@[simp]
theorem attemptEvents_retried : call.attemptEvents.filterMap RetryEvent.retried = [] := by
  unfold RetriedRequest.attemptEvents
  cases call.hasLimiter <;> cases call.hasSemaphore <;> rfl

variable (attempts : Nat) (reason : String) (delay : PyFloat)

/-- A retry sends nothing before the next attempt. -/
@[simp]
theorem retryEvents_count_request :
    (call.retryEvents attempts reason delay).count .request = 0 := by
  unfold RetriedRequest.retryEvents
  cases call.hasOnRetry <;> simp

/-- A retry acquires no slot before the next attempt. -/
@[simp]
theorem retryEvents_count_acquire :
    (call.retryEvents attempts reason delay).count .acquire = 0 := by
  unfold RetriedRequest.retryEvents
  cases call.hasOnRetry <;> simp

/-- A retry is reported once, where there is a callback. -/
@[simp]
theorem retryEvents_retried :
    (call.retryEvents attempts reason delay).filterMap RetryEvent.retried =
      if call.hasOnRetry then [attempts] else [] := by
  unfold RetriedRequest.retryEvents
  cases call.hasOnRetry <;> rfl

end

/-- One attempt that is not made again. -/
theorem endsAt_of_done {call : RetriedRequest} {outcomes : Nat → AttemptOutcome} {last : Nat}
    (hlast : (outcomes last).isRetryable = true → call.retry.max ≤ last) :
    (requestAttempts call outcomes last).EndsAt call outcomes last last := by
  have hverdict : attemptVerdict call (last + 1) (outcomes last) = _ :=
    attemptVerdict_done fun hretry => Nat.lt_succ_of_le (hlast hretry)
  have hrun : requestAttempts call outcomes last =
      ⟨call.attemptEvents, finalResult call.raiseForStatus (last + 1) (outcomes last)⟩ := by
    rw [requestAttempts]
    split
    · rename_i result hdone
      rw [hverdict] at hdone
      cases hdone
      rfl
    · rename_i hagain
      rw [hverdict] at hagain
      cases hagain
  rw [hrun]
  constructor
  · rw [attemptEvents_count_request]
    omega
  · rw [attemptEvents_count_acquire]
    split <;> omega
  · rw [attemptEvents_retried, Nat.sub_self]
    split <;> rfl
  · rfl

/-- One attempt that is made again, before a run from the next one. -/
theorem endsAt_of_again {call : RetriedRequest} {outcomes : Nat → AttemptOutcome}
    {made last : Nat} (hretry : (outcomes made).isRetryable = true)
    (hleft : made < call.retry.max) (hmade : made < last)
    (hrest : (requestAttempts call outcomes (made + 1)).EndsAt call outcomes (made + 1) last) :
    (requestAttempts call outcomes made).EndsAt call outcomes made last := by
  rcases attemptVerdict_again hretry (Nat.succ_le_of_lt hleft) with ⟨reason, delay, hverdict⟩
  have hrun : requestAttempts call outcomes made =
      ⟨call.attemptEvents ++ call.retryEvents (made + 1) reason delay ++
        (requestAttempts call outcomes (made + 1)).events,
        (requestAttempts call outcomes (made + 1)).result⟩ := by
    rw [requestAttempts]
    split
    · rename_i hdone
      rw [hverdict] at hdone
      cases hdone
    · rename_i hagain
      rw [hverdict] at hagain
      cases hagain
      rfl
  rw [hrun]
  constructor
  · simp only [List.count_append, attemptEvents_count_request, retryEvents_count_request,
      hrest.requests]
    omega
  · simp only [List.count_append, attemptEvents_count_acquire, retryEvents_count_acquire,
      hrest.acquires]
    split <;> omega
  · simp only [List.filterMap_append, attemptEvents_retried, retryEvents_retried,
      hrest.callbacks]
    cases call.hasOnRetry with
    | false => rfl
    | true =>
        have hcount : last - made = (last - (made + 1)) + 1 := by omega
        simp [hcount, List.range'_succ]
  · exact hrest.result

/-- A loop makes attempts up to the first one that is not made again. -/
theorem requestAttempts_last {call : RetriedRequest} {outcomes : Nat → AttemptOutcome}
    {last : Nat} (hbefore : ∀ i < last, (outcomes i).isRetryable = true ∧ i < call.retry.max)
    (hlast : (outcomes last).isRetryable = true → call.retry.max ≤ last) (made : Nat)
    (hmade : made ≤ last) :
    (requestAttempts call outcomes made).EndsAt call outcomes made last := by
  -- by induction on the number of attempts that are still to come
  induction hleft : last - made generalizing made with
  | zero =>
      have hsame : made = last := by omega
      rw [hsame]
      exact endsAt_of_done hlast
  | succ left ih =>
      have hmore : made < last := by omega
      rcases hbefore made hmore with ⟨hretry, hmax⟩
      apply endsAt_of_again hretry hmax hmore
      apply ih (made + 1)
      · omega
      · omega

/-! ## Right attempts -/

/-- The position of the first outcome that is not retryable, counted from one. -/
def FirstFinal (outcomes : Nat → AttemptOutcome) (position : Nat) : Prop :=
  ∃ i, position = i + 1 ∧ (∀ j < i, (outcomes j).isRetryable = true) ∧
    (outcomes i).isRetryable = false

/-- A call sends this many requests, and everything else that it does agrees with that. -/
structure RightAttempts (call : RetriedRequest) (outcomes : Nat → AttemptOutcome)
    (sent : Nat) : Prop where
  requests : (requestWithRetry call outcomes).events.count .request = sent
  /-- The result is that of the last outcome. -/
  result : (requestWithRetry call outcomes).result =
    finalResult call.raiseForStatus sent (outcomes (sent - 1))
  reported : reportedAttempts (requestWithRetry call outcomes).result = sent
  acquires : (requestWithRetry call outcomes).events.count .acquire =
    if call.hasLimiter then sent else 0
  /-- The callbacks are those for attempt one, attempt two, and so on up to the one before
  the last. -/
  callbacks : (requestWithRetry call outcomes).events.filterMap RetryEvent.retried =
    if call.hasOnRetry then List.range' 1 (sent - 1) else []
  /-- No attempt follows a denial. -/
  denied : ∀ i < sent - 1, (outcomes i).isDenied = false

/-- A denial is not retryable. -/
theorem isDenied_eq_false {outcome : AttemptOutcome} (hretry : outcome.isRetryable = true) :
    outcome.isDenied = false := by
  cases outcome with
  | response reply => rfl
  | raised exc =>
      apply decide_eq_false
      intro hdenied
      rw [AttemptOutcome.isRetryable, ssrfBlocked_not_retryable hdenied] at hretry
      cases hretry

private theorem rightAttempts_of_last {call : RetriedRequest} {outcomes : Nat → AttemptOutcome}
    {last : Nat} (hbefore : ∀ i < last, (outcomes i).isRetryable = true ∧ i < call.retry.max)
    (hlast : (outcomes last).isRetryable = true → call.retry.max ≤ last) :
    RightAttempts call outcomes (last + 1) := by
  have hends := requestAttempts_last hbefore hlast 0 (Nat.zero_le last)
  have hresult : (requestWithRetry call outcomes).result = _ := hends.result
  constructor
  · exact hends.requests
  · exact hresult
  · rw [hresult, reportedAttempts_finalResult]
  · exact hends.acquires
  · exact hends.callbacks
  · intro i hi
    exact isDenied_eq_false (hbefore i hi).1

/-- The loop makes the right number of attempts: up to the first outcome that is not
retryable, or up to the last retry. -/
theorem requestWithRetry_makes_right_attempts (call : RetriedRequest)
    (outcomes : Nat → AttemptOutcome) :
    (∀ position, FirstFinal outcomes position →
        RightAttempts call outcomes (min position (call.retry.max + 1))) ∧
      ((∀ i, (outcomes i).isRetryable = true) →
        RightAttempts call outcomes (call.retry.max + 1)) := by
  have hexhausted : (∀ i < call.retry.max, (outcomes i).isRetryable = true) →
      RightAttempts call outcomes (call.retry.max + 1) := by
    intro hretry
    exact rightAttempts_of_last (fun i hi => ⟨hretry i hi, hi⟩) fun _ => le_rfl
  constructor
  · rintro position ⟨i, rfl, hbefore, hfinal⟩
    by_cases hmax : i < call.retry.max
    · have hsent : min (i + 1) (call.retry.max + 1) = i + 1 := by omega
      rw [hsent]
      apply rightAttempts_of_last
      · intro j hj
        exact ⟨hbefore j hj, by omega⟩
      · intro hretry
        rw [hfinal] at hretry
        cases hretry
    · have hsent : min (i + 1) (call.retry.max + 1) = call.retry.max + 1 := by omega
      rw [hsent]
      apply hexhausted
      intro j hj
      apply hbefore
      omega
  · intro hretry
    exact hexhausted fun i _ => hretry i

/-- When the call fails, the error of the node reports the number of requests sent, and the
category and status of the failure. -/
theorem requestJson_reports_attempts (ctx : NodeContext) (http : HttpExchange) (method : String)
    (params : OrderedDict String Value) (call : RetriedRequest)
    (outcomes : Nat → AttemptOutcome) {sent : Nat} (hright : RightAttempts call outcomes sent)
    (hhttp : http.request params =
      (requestWithRetry call outcomes).result.map fun answer => answer.1.toHttpResponse)
    {failure : RequestFailure} (hfailure : (requestWithRetry call outcomes).result = .error failure) :
    ∃ error : NodeError, requestJson ctx http method params = .error (.node error) ∧
      error.attempts = sent ∧ error.category = failure.category ∧
      error.httpStatus = failure.httpStatus := by
  have hreported := hright.reported
  rw [hfailure] at hreported hhttp
  rw [requestJson, hhttp]
  exact ⟨_, rfl, hreported, rfl, rfl⟩

/-! ## An outage -/

namespace Samples

/-- A response without a body. -/
def emptyReply (statusCode : Int) (reasonPhrase : String) : HttpReply where
  statusCode := statusCode
  hasContent := false
  json := .error intConversionError
  reasonPhrase := reasonPhrase
  retryAfter := none

/-- A server that is unavailable, times out, and then answers. -/
def shortOutage : Nat → AttemptOutcome
  | 0 => .response (emptyReply 503 "Service Unavailable")
  | 1 => .raised ⟨.timeout, [], "ConnectTimeout", "timed out"⟩
  | _ => .response (emptyReply 200 "OK")

/-- One retry, with a limiter. -/
def oneRetry : RetriedRequest where
  retry := { max := 1 }
  hasLimiter := true
  hasOnRetry := true

private theorem shortOutage_firstFinal : FirstFinal shortOutage 3 := by
  refine ⟨2, rfl, fun j hj => ?_, rfl⟩
  rcases Nat.lt_succ_iff_lt_or_eq.mp hj with hj | rfl
  · obtain rfl : j = 0 := by omega
    rfl
  · rfl

end Samples

open Samples

/-- A failed status, then a timeout: the call ends with the timeout. -/
theorem requestWithRetry_makes_right_attempts_timeout :
    RightAttempts oneRetry shortOutage 2 ∧
      finalResult true 2 (shortOutage 1) =
        .error ⟨.timeout, "request failed: ConnectTimeout: timed out", none, 2⟩ :=
  ⟨(requestWithRetry_makes_right_attempts oneRetry shortOutage).1 3 shortOutage_firstFinal, rfl⟩

end EtlTool
