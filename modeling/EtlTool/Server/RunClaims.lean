import Mathlib.Data.List.Chain
import EtlTool.Foundations.Interleaving
import EtlTool.Server.Worker

/-!
# Claiming a run

Any number of workers get a job with the same run id.  Each of them reads the status,
and later commits {lit}`running` if it has read {lit}`queued`.  Nothing locks the row
between the two, so two workers can claim the same run.  They cannot if no worker
reads the status while another one is between its read and its commit.

Main results:

- Theorem {lit}`Step.lifecycle`: the step of a worker as a step of the run's life
  cycle.
- Theorem {lit}`run_executed_once`: with separated claims a run is executed at most
  once and its status only moves forward.
- Theorem {lit}`run_executed_twice`: two overlapping claims execute the run twice, and
  a final status is overwritten.
-/

namespace EtlTool

/-! ## The life cycle of a call -/

/-- The status that a call relies on while it claims a run or works on it. -/
def Stage.expected : Stage → Option RunState
  | fresh => none
  | claiming => some .queued
  | waiting => some .running
  | flying => some .running
  | closing => some .running
  | ended => none

/-- Stages follow each other without a write of the status. -/
inductive Stage.Next : Stage → Stage → Prop where
  | wait : Next waiting waiting
  | fly : Next waiting flying
  | miss : Next waiting closing
  | soar : Next flying flying
  | close : Next flying closing
  | linger : Next closing closing
  | leave (stage : Stage) (h : stage.expected = some .running) : Next stage ended

/-- One step of a call, seen from the run: its status and the stage of the call. -/
inductive Lifecycle : Option RunState → Stage → Option RunState → Stage → Prop where
  | ignore (status : Option RunState) : Lifecycle status .fresh status .ended
  | read : Lifecycle (some .queued) .fresh (some .queued) .claiming
  | look (status : Option RunState) : Lifecycle status .claiming status .claiming
  | give (status : Option RunState) : Lifecycle status .claiming status .ended
  | reject (status : RunState) : Lifecycle (some status) .claiming (some .failed) .ended
  | claim (status : RunState) : Lifecycle (some status) .claiming (some .running) .waiting
  | go (status : Option RunState) (stage stage' : Stage) (h : stage.Next stage') :
      Lifecycle status stage status stage'
  | settle (before after : RunState) (h : after.terminal = true) :
      Lifecycle (some before) .closing (some after) .ended

/-- What a session that is going to write the status has loaded. -/
def Phase.Sound : Phase → Prop
  | sawRun loaded => loaded.status = .queued
  | sawPipeline loaded _ => loaded.status = .queued
  | failing loaded _ => loaded.status = .running
  | finishing loaded _ => loaded.status = .running
  | _ => True

namespace Worker

variable {d : Deployment} {db db' : Database} {p p' : Phase}

/-- The step of a call as a step of the run's life cycle. -/
theorem Step.lifecycle (hsound : p.Sound) (h : Step d db p db' p') :
    Lifecycle db.status p.stage db'.status p'.stage := by
  cases h with
  | ignored _ => exact .ignore _
  | found run hrun hqueued =>
      have hstatus : db.status = some .queued := by simp [Database.status, hrun, hqueued]
      rw [hstatus]
      exact .read
  | looked loaded => exact .look _
  | rejected loaded _ hcommit =>
      have hqueued : loaded.status = .queued := hsound
      rcases commit_status hcommit (by simp [hqueued]) with ⟨before, hbefore, hafter⟩
      rw [hbefore, hafter]
      exact .reject before
  | claimed loaded spec _ hcommit =>
      have hqueued : loaded.status = .queued := hsound
      rcases commit_status hcommit (by simp [hqueued]) with ⟨before, hbefore, hafter⟩
      rw [hbefore, hafter]
      exact .claim before
  | unclaimed loaded spec exc _ => exact .give _
  | unprepared ownerId spec exc _ => exact .go _ _ _ (.leave _ rfl)
  | prepared ownerId fields spec provider _ => exact .go _ _ _ .wait
  | resolved spec provider =>
      apply Lifecycle.go
      rcases resolve_cases d spec provider with ⟨_, _, heq⟩ | ⟨_, _, heq⟩ |
        ⟨_, _, ⟨_, _, heq⟩ | ⟨_, _, heq⟩⟩
      · rw [heq]
        exact .miss
      · rw [heq]
        exact .leave _ rfl
      · rw [heq]
        exact .leave _ rfl
      · rw [heq]
        exact .fly
  | failingGone ref _ => exact .go _ _ _ (.leave _ rfl)
  | failingFound ref run _ => exact .go _ _ _ .linger
  | failed loaded ref _ hcommit =>
      have hrunning : loaded.status = .running := hsound
      rcases commit_status hcommit (by simp [hrunning]) with ⟨before, hbefore, hafter⟩
      rw [hbefore, hafter]
      exact .settle before .failed rfl
  | unfailed loaded ref exc _ => exact .go _ _ _ (.leave _ rfl)
  | flew outcome flight flight' logs _ => exact .go _ _ _ .soar
  | landed outcome flight _ hland =>
      apply Lifecycle.go
      rcases land_cases hland with ⟨_, ⟨_, result, _, rfl⟩ | ⟨_, exc, _, rfl⟩ | ⟨exc, _, rfl⟩⟩
      · exact .close
      · exact .leave _ rfl
      · exact .leave _ rfl
  | finishingGone result _ => exact .go _ _ _ (.leave _ rfl)
  | finishingFound result run _ => exact .go _ _ _ .linger
  | finished loaded result _ hfinish =>
      have hrunning : loaded.status = .running := hsound
      rcases finish_eq_ok.mp hfinish with ⟨json, _, _, _, hcommit⟩
      have hchanged : result.status.state ≠ loaded.status := by
        rw [hrunning]
        cases result.status <;> simp [RunStatus.state]
      rcases commit_status hcommit hchanged with ⟨before, hbefore, hafter⟩
      rw [hbefore, hafter]
      exact .settle before _ (state_terminal result.status)
  | unfinished loaded result exc _ => exact .go _ _ _ (.leave _ rfl)

/-- Sessions load what the stage of their call promises. -/
theorem Step.sound (hsound : p.Sound)
    (hexpected : ∀ status, p.stage.expected = some status → db.status = some status)
    (h : Step d db p db' p') : p'.Sound := by
  have hloaded : ∀ {run : Run}, db.run = some run → p.stage.expected = some .running →
      run.status = .running := by
    intro run hrun hstage
    have hstatus := hexpected _ hstage
    simpa [Database.status, hrun] using hstatus
  cases h with
  | found run hrun hqueued => exact hqueued
  | looked loaded => exact hsound
  | failingFound ref run hrun => exact hloaded hrun rfl
  | finishingFound result run hrun => exact hloaded hrun rfl
  | resolved spec provider =>
      rcases resolve_cases d spec provider with ⟨_, _, heq⟩ | ⟨_, _, heq⟩ |
        ⟨_, _, ⟨_, _, heq⟩ | ⟨_, _, heq⟩⟩ <;> rw [heq] <;> trivial
  | landed outcome flight _ hland =>
      rcases land_cases hland with ⟨_, ⟨_, result, _, rfl⟩ | ⟨_, exc, _, rfl⟩ | ⟨exc, _, rfl⟩⟩ <;>
        trivial
  | ignored _ => trivial
  | rejected _ _ _ => trivial
  | claimed _ _ _ _ => trivial
  | unclaimed _ _ _ _ => trivial
  | unprepared _ _ _ _ => trivial
  | prepared _ _ _ _ _ => trivial
  | failingGone _ _ => trivial
  | failed _ _ _ _ => trivial
  | unfailed _ _ _ _ => trivial
  | flew _ _ _ _ _ => trivial
  | finishingGone _ _ => trivial
  | finished _ _ _ _ => trivial
  | unfinished _ _ _ _ => trivial

end Worker

/-! ## The run and its calls -/

private theorem RunState.Advance.status_ne {before after : RunState} (h : before.Advance after)
    {status : Option RunState} (hbefore : status = some before) : some after ≠ status := by
  rw [hbefore]
  intro heq
  cases heq
  cases h

/-- The run as its calls see it: its status, their stages, the history of committed
statuses, and the calls that have reached the engine. -/
structure Ledger where
  status : Option RunState
  stages : List Stage
  history : List RunState
  executed : List Nat

namespace Ledger

/-- One call takes a step. -/
def update (s : Ledger) (w : Nat) (stage : Stage) (status' : Option RunState) (stage' : Stage) :
    Ledger where
  status := status'
  stages := s.stages.set w stage'
  history := if status' = s.status then s.history else s.history ++ status'.toList
  executed := if stage' = .flying ∧ stage ≠ .flying then s.executed ++ [w] else s.executed

/-- At most one call has reached the engine, the status has only taken steps
forward, and a final one has not changed. -/
structure RunOnce (s : Ledger) : Prop where
  executed : s.executed.length ≤ 1
  forward : s.history.IsChain RunState.Advance
  settled : ∀ status ∈ s.history.dropLast, status.terminal = false

/-- The invariant of separated claims: the calls that claim the run or work on it are
one at most, and the run has the status that this one relies on. -/
structure Inv (s : Ledger) : Prop where
  expected : ∀ stage ∈ s.stages, ∀ status, stage.expected = some status → s.status = some status
  alone : ∀ (w w' : Nat) (stage stage' : Stage), s.stages[w]? = some stage →
    s.stages[w']? = some stage' → stage.expected ≠ none → stage'.expected ≠ none → w = w'
  unexecuted : s.executed ≠ [] → s.status ≠ some .queued ∧ .waiting ∉ s.stages
  once : s.executed.length ≤ 1
  forward : s.history.IsChain RunState.Advance
  current : s.history.getLast? = s.status

variable {s : Ledger} {w : Nat} {stage stage' : Stage} {status' : Option RunState}

/-- A status that changes by a step forward continues the history. -/
theorem Inv.advance (h : Inv s) {before after : RunState} (hbefore : s.status = some before)
    (hadvance : before.Advance after) :
    (s.history ++ [after]).IsChain RunState.Advance := by
  refine List.IsChain.append h.forward (List.isChain_singleton after) ?_
  intro last hlast first hfirst
  rw [h.current, hbefore, Option.mem_some_iff] at hlast
  rw [List.head?_cons, Option.mem_some_iff] at hfirst
  rw [← hlast, ← hfirst]
  exact hadvance

/-- The other calls neither claim the run nor work on it. -/
theorem Inv.others (h : Inv s) (hw : s.stages[w]? = some stage) (hbusy : stage.expected ≠ none)
    {v : Nat} {other : Stage} (hv : s.stages[v]? = some other) (hne : v ≠ w) :
    other.expected = none := by
  by_contra hother
  exact hne (h.alone v w other stage hv hw hother hbusy)

private theorem getElem?_update (hw : s.stages[w]? = some stage) (v : Nat) :
    (s.update w stage status' stage').stages[v]? = if v = w then some stage' else s.stages[v]? := by
  have hlt := (List.getElem?_eq_some_iff.mp hw).1
  rw [update, List.getElem?_set]
  by_cases hvw : v = w
  · simp [hvw, hlt]
  · simp [hvw, Ne.symm hvw]

/-- If the stepping call is the only one that claims the run or works on it, then it
still is, and the status is the one that it relies on. -/
theorem Inv.alone_update (hw : s.stages[w]? = some stage)
    (hothers : ∀ v other, s.stages[v]? = some other → v ≠ w → other.expected = none)
    (hexpected : ∀ status, stage'.expected = some status → status' = some status) :
    (∀ other ∈ (s.update w stage status' stage').stages, ∀ status,
      other.expected = some status → status' = some status) ∧
    ∀ (v v' : Nat) (a b : Stage), (s.update w stage status' stage').stages[v]? = some a →
      (s.update w stage status' stage').stages[v']? = some b → a.expected ≠ none →
      b.expected ≠ none → v = v' := by
  have hself : ∀ (v : Nat) (a : Stage), (s.update w stage status' stage').stages[v]? = some a →
      a.expected ≠ none → v = w ∧ a = stage' := by
    intro v a hv ha
    rw [getElem?_update hw] at hv
    by_cases hvw : v = w
    · rw [if_pos hvw] at hv
      cases hv
      exact ⟨hvw, rfl⟩
    · rw [if_neg hvw] at hv
      exact absurd (hothers v a hv hvw) ha
  constructor
  · intro other hother status hstatus
    rcases List.mem_iff_getElem?.mp hother with ⟨v, hv⟩
    rcases hself v other hv (by simp [hstatus]) with ⟨_, rfl⟩
    exact hexpected status hstatus
  · intro v v' a b hv hv' ha hb
    rw [(hself v a hv ha).1, (hself v' b hv' hb).1]

/-- The step of a call that claims the run or works on it. -/
theorem Inv.update_busy (h : Inv s) (hw : s.stages[w]? = some stage)
    (hbusy : stage.expected ≠ none)
    (hexpected : ∀ status, stage'.expected = some status → status' = some status)
    (hstatus : status' = s.status ∨
      ∃ before after, s.status = some before ∧ status' = some after ∧ before.Advance after)
    (hfly : stage' = .flying → stage = .waiting ∨ stage = .flying)
    (hwait : stage' = .waiting → s.executed = []) :
    Inv (s.update w stage status' stage') := by
  have hothers : ∀ v other, s.stages[v]? = some other → v ≠ w → other.expected = none :=
    fun v other hv hne => h.others hw hbusy hv hne
  rcases Inv.alone_update hw hothers hexpected with ⟨hall, halone⟩
  have hqueued : status' = some .queued → s.status = some .queued := by
    intro hq
    rcases hstatus with hsame | ⟨before, after, _, hafter, hadvance⟩
    · rw [← hsame, hq]
    · rw [hq, Option.some.injEq] at hafter
      rw [← hafter] at hadvance
      cases hadvance
  refine ⟨hall, halone, ?_, ?_, ?_, ?_⟩
  · intro hexecuted
    have hwaiting : .waiting ∈ (s.update w stage status' stage').stages → stage' = .waiting := by
      intro hmem
      rcases List.mem_iff_getElem?.mp hmem with ⟨v, hv⟩
      rw [getElem?_update hw] at hv
      by_cases hvw : v = w
      · rw [if_pos hvw] at hv
        exact Option.some.inj hv
      · rw [if_neg hvw] at hv
        have hnone := hothers v _ hv hvw
        cases hnone
    by_cases hnew : stage' = .flying ∧ stage ≠ .flying
    · constructor
      · intro hq
        have hrunning := hexpected .running (by rw [hnew.1]; rfl)
        have hsame : status' = some .queued := hq
        rw [hsame] at hrunning
        cases hrunning
      · intro hmem
        rw [hwaiting hmem] at hnew
        cases hnew.1
    · have hold : s.executed ≠ [] := by
        simpa [update, hnew] using hexecuted
      rcases h.unexecuted hold with ⟨hnotQueued, _⟩
      exact ⟨fun hq => hnotQueued (hqueued hq), fun hmem => hold (hwait (hwaiting hmem))⟩
  · by_cases hnew : stage' = .flying ∧ stage ≠ .flying
    · have hnil : s.executed = [] := by
        by_contra hne
        have hwaiting : stage = .waiting := (hfly hnew.1).resolve_right hnew.2
        exact (h.unexecuted hne).2 (hwaiting ▸ List.mem_of_getElem? hw)
      simp [update, hnew, hnil]
    · have honce := h.once
      simpa [update, hnew] using honce
  · rcases hstatus with hsame | ⟨before, after, hbefore, rfl, hadvance⟩
    · simpa [update, hsame] using h.forward
    · have hne := hadvance.status_ne hbefore
      have hchain := h.advance hbefore hadvance
      simpa [update, hne] using hchain
  · rcases hstatus with hsame | ⟨before, after, hbefore, rfl, hadvance⟩
    · simpa [update, hsame] using h.current
    · have hne := hadvance.status_ne hbefore
      simp [update, hne]

/-- The step of a call that ends and leaves the status alone. -/
theorem Inv.update_idle (h : Inv s) (hw : s.stages[w]? = some stage) (hended : stage' = .ended) :
    Inv (s.update w stage s.status stage') := by
  subst hended
  have hback : ∀ (v : Nat) (other : Stage), other.expected ≠ none →
      (s.update w stage s.status .ended).stages[v]? = some other → s.stages[v]? = some other := by
    intro v other hbusy hv
    rw [getElem?_update hw] at hv
    by_cases hvw : v = w
    · rw [if_pos hvw] at hv
      cases hv
      exact absurd rfl hbusy
    · rwa [if_neg hvw] at hv
  constructor
  · intro other hother status hstatus
    rcases List.mem_iff_getElem?.mp hother with ⟨v, hv⟩
    have hold := hback v other (by simp [hstatus]) hv
    exact h.expected other (List.mem_of_getElem? hold) status hstatus
  · intro v v' a b hv hv' ha hb
    exact h.alone v v' a b (hback v a ha hv) (hback v' b hb hv') ha hb
  · intro hexecuted
    have hold : s.executed ≠ [] := by simpa [update] using hexecuted
    refine ⟨(h.unexecuted hold).1, fun hmem => ?_⟩
    rcases List.mem_iff_getElem?.mp hmem with ⟨v, hv⟩
    exact (h.unexecuted hold).2 (List.mem_of_getElem? (hback v .waiting (by simp [Stage.expected]) hv))
  · simpa [update] using h.once
  · simpa [update] using h.forward
  · simpa [update] using h.current

/-- A call that reads the status while nobody else claims the run keeps the
invariant. -/
theorem Inv.update_read (h : Inv s) (hw : s.stages[w]? = some .fresh)
    (hqueued : s.status = some .queued) (hapart : .claiming ∉ s.stages) :
    Inv (s.update w .fresh s.status .claiming) := by
  have hothers : ∀ v other, s.stages[v]? = some other → v ≠ w → other.expected = none := by
    intro v other hv _
    have hmem := List.mem_of_getElem? hv
    have hexpected := h.expected other hmem
    rw [hqueued] at hexpected
    cases other with
    | claiming => exact absurd hmem hapart
    | fresh => rfl
    | ended => rfl
    | waiting => cases hexpected .running rfl
    | flying => cases hexpected .running rfl
    | closing => cases hexpected .running rfl
  have hclaiming : ∀ status, Stage.claiming.expected = some status → s.status = some status := by
    intro status hstatus
    rw [hqueued]
    exact hstatus
  rcases Inv.alone_update hw hothers hclaiming with ⟨hall, halone⟩
  refine ⟨hall, halone, ?_, ?_, ?_, ?_⟩
  · intro hexecuted
    have hold : s.executed ≠ [] := by simpa [update] using hexecuted
    exact absurd hqueued (h.unexecuted hold).1
  · simpa [update] using h.once
  · simpa [update] using h.forward
  · simpa [update] using h.current

/-- Every step of a life cycle keeps the invariant, if reads of a queued run are
apart from other claims. -/
theorem Inv.step (h : Inv s) (hw : s.stages[w]? = some stage)
    (hstep : Lifecycle s.status stage status' stage')
    (hapart : stage' = .claiming → stage = .fresh → .claiming ∉ s.stages) :
    Inv (s.update w stage status' stage') := by
  have hmem := List.mem_of_getElem? hw
  have hexpected := h.expected stage hmem
  generalize hstatus : s.status = status at hstep hexpected
  cases hstep with
  | ignore _ => exact hstatus ▸ h.update_idle hw rfl
  | read => exact hstatus ▸ h.update_read hw hstatus (hapart rfl rfl)
  | look _ =>
      exact h.update_busy hw nofun hexpected (Or.inl hstatus.symm) nofun nofun
  | give _ =>
      exact h.update_busy hw nofun nofun (Or.inl hstatus.symm) nofun nofun
  | reject before =>
      have hbefore := hexpected .queued rfl
      cases hbefore
      exact h.update_busy hw nofun nofun (Or.inr ⟨_, _, hstatus, rfl, .reject⟩) nofun nofun
  | claim before =>
      have hbefore := hexpected .queued rfl
      cases hbefore
      refine h.update_busy hw nofun (fun _ heq => heq) (Or.inr ⟨_, _, hstatus, rfl, .claim⟩) nofun ?_
      intro _
      by_contra hne
      exact (h.unexecuted hne).1 hstatus
  | go _ _ _ hnext =>
      have hsame := hstatus.symm
      cases hnext with
      | wait =>
          refine h.update_busy hw nofun hexpected (Or.inl hsame) nofun fun _ => ?_
          by_contra hne
          exact (h.unexecuted hne).2 hmem
      | fly => exact h.update_busy hw nofun hexpected (Or.inl hsame) (fun _ => Or.inl rfl) nofun
      | miss => exact h.update_busy hw nofun hexpected (Or.inl hsame) nofun nofun
      | soar => exact h.update_busy hw nofun hexpected (Or.inl hsame) (fun _ => Or.inr rfl) nofun
      | close => exact h.update_busy hw nofun hexpected (Or.inl hsame) nofun nofun
      | linger => exact h.update_busy hw nofun hexpected (Or.inl hsame) nofun nofun
      | leave _ hactive =>
          exact h.update_busy hw (by simp [hactive]) nofun (Or.inl hsame) nofun nofun
  | settle before after hterminal =>
      have hbefore := hexpected .running rfl
      cases hbefore
      refine h.update_busy hw nofun nofun (Or.inr ⟨_, _, hstatus, rfl, ?_⟩) nofun nofun
      cases after with
      | queued => cases hterminal
      | running => cases hterminal
      | succeeded => exact .succeed
      | failed => exact .fail

/-- No step forward leads out of a final status. -/
theorem settled_of_forward {history : List RunState} (h : history.IsChain RunState.Advance) :
    ∀ status ∈ history.dropLast, status.terminal = false := by
  induction history with
  | nil => simp
  | cons first rest ih =>
      cases rest with
      | nil => simp
      | cons second rest =>
          rw [List.isChain_cons_cons] at h
          intro status hmem
          rw [List.dropLast_cons_cons, List.mem_cons] at hmem
          rcases hmem with rfl | hmem
          · exact h.1.not_terminal
          · exact ih h.2 status hmem

private theorem Inv.runOnce (h : Inv s) : RunOnce s :=
  ⟨h.once, h.forward, settled_of_forward h.forward⟩

end Ledger

/-! ## Several workers -/

/-- Workers that execute the same run.  The history of committed statuses and the
workers that have called the engine exist only in the model. -/
structure Fleet where
  db : Database
  workers : List Phase
  history : List RunState
  executed : List Nat

namespace Fleet

/-- A number of workers before their first step. -/
def initial (db : Database) (size : Nat) : Fleet where
  db := db
  workers := List.replicate size .start
  history := db.status.toList
  executed := []

/-- One step of one worker. -/
def next (deployments : Nat → Deployment) (s : Fleet) (a : Nat × WorkerAction) : Option Fleet :=
  match s.workers[a.1]? with
  | none => none
  | some phase =>
      match Worker.step (deployments a.1) s.db phase a.2 with
      | none => none
      | some (db, phase') =>
          some {
            db := db
            workers := s.workers.set a.1 phase'
            history := if db.status = s.db.status then s.history
              else s.history ++ db.status.toList
            executed := if phase'.stage = .flying ∧ phase.stage ≠ .flying then s.executed ++ [a.1]
              else s.executed }

/-- What the run and its calls look like. -/
def ledger (s : Fleet) : Ledger where
  status := s.db.status
  stages := s.workers.map Phase.stage
  history := s.history
  executed := s.executed

/-- No worker reads the status while another one is between its read and its
commit. -/
def ClaimsApart (s : Fleet) (a : Nat × WorkerAction) : Prop :=
  a.2 = .readRun → .claiming ∉ s.ledger.stages

instance (s : Fleet) (a : Nat × WorkerAction) : Decidable (s.ClaimsApart a) :=
  inferInstanceAs (Decidable (_ → _))

/-- The invariant of separated claims. -/
structure Inv (s : Fleet) : Prop where
  sound : ∀ phase ∈ s.workers, phase.Sound
  ledger : s.ledger.Inv

theorem Inv.initial (db : Database) (size : Nat) : Inv (Fleet.initial db size) := by
  have hfresh : ∀ stage ∈ (Fleet.initial db size).ledger.stages, stage = .fresh := by
    intro stage hstage
    rcases List.mem_map.mp hstage with ⟨phase, hphase, rfl⟩
    rw [List.eq_of_mem_replicate hphase]
    rfl
  refine ⟨?_, ?_, ?_, nofun, Nat.zero_le 1, ?_, ?_⟩
  · intro phase hphase
    rw [List.eq_of_mem_replicate hphase]
    trivial
  · intro stage hstage status hstatus
    rw [hfresh stage hstage] at hstatus
    cases hstatus
  · intro w w' stage stage' hw _ hbusy _
    rw [hfresh stage (List.mem_of_getElem? hw)] at hbusy
    exact absurd rfl hbusy
  · change db.status.toList.IsChain RunState.Advance
    cases db.status <;> simp
  · change db.status.toList.getLast? = db.status
    cases db.status <;> rfl

/-- Only the read of the status starts a claim. -/
theorem claiming_of_fresh {d : Deployment} {db db' : Database} {phase phase' : Phase}
    {a : WorkerAction} (h : Worker.step d db phase a = some (db', phase'))
    (hfresh : phase.stage = .fresh) : a = .readRun := by
  cases phase with
  | start =>
      cases a with
      | readRun => rfl
      | _ => simp [Worker.step] at h
  | _ => cases hfresh

/-- Steps with separated claims keep the invariant. -/
theorem Inv.next {deployments : Nat → Deployment} {s s' : Fleet} {a : Nat × WorkerAction}
    (h : Inv s) (hapart : s.ClaimsApart a) (hnext : s.next deployments a = some s') : Inv s' := by
  unfold Fleet.next at hnext
  cases hphase : s.workers[a.1]? with
  | none => simp [hphase] at hnext
  | some phase =>
      cases hstep : Worker.step (deployments a.1) s.db phase a.2 with
      | none => simp [hphase, hstep] at hnext
      | some result =>
          rcases result with ⟨db, phase'⟩
          simp only [hphase, hstep, Option.some.injEq] at hnext
          have hspec := Worker.step_spec hstep
          have hsound := h.sound phase (List.mem_of_getElem? hphase)
          have hstage : s.ledger.stages[a.1]? = some phase.stage := by
            simp [Fleet.ledger, hphase]
          have hledger : s'.ledger = s.ledger.update a.1 phase.stage db.status phase'.stage := by
            rw [← hnext]
            simp only [Fleet.ledger, Ledger.update, List.map_set]
            congr
          constructor
          · intro other hother
            rw [← hnext] at hother
            rcases List.mem_or_eq_of_mem_set hother with hold | rfl
            · exact h.sound other hold
            · exact hspec.sound hsound (h.ledger.expected _ (List.mem_of_getElem? hstage))
          · rw [hledger]
            refine h.ledger.step hstage (hspec.lifecycle hsound) ?_
            exact fun _ hfresh => hapart (claiming_of_fresh hstep hfresh)

end Fleet

open Interleaving in
/-- If no worker reads the status while another one is between its read and its
commit, then the run is executed at most once, and its status only moves forward. -/
theorem run_executed_once (deployments : Nat → Deployment) (db : Database) (size : Nat)
    (actions : List (Nat × WorkerAction)) (s : Fleet)
    (hapart : Guarded (Fleet.next deployments) Fleet.ClaimsApart (.initial db size) actions)
    (hrun : exec (Fleet.next deployments) (.initial db size) actions = some s) :
    s.ledger.RunOnce := by
  have hinv : s.Inv := guarded_invariant (fun _ _ _ hinv hok hnext => hinv.next hok hnext)
    (Fleet.Inv.initial db size) hapart hrun
  exact hinv.ledger.runOnce

/-- A document that succeeds. -/
def onlySource : PipelineSpec :=
  Samples.document [Samples.node "rows" "source" []] []

/-- The steps of one worker. -/
def ofWorker (w : Nat) (actions : List WorkerAction) : List (Nat × WorkerAction) :=
  actions.map fun a => (w, a)

theorem run_executed_once_redelivered :
    ∃ s, Interleaving.exec
        (Fleet.next fun _ => Samples.deployment Samples.engine onlySource)
        (.initial Samples.queuedRun 2)
        (ofWorker 0 ([.readRun, .readPipeline] ++ Samples.claimedCall 1) ++ [(1, .readRun)]) =
          some s ∧
      s.ledger.RunOnce ∧ s.executed = [0] ∧ s.history = [.queued, .running, .succeeded] := by
  have hcheck : (Interleaving.exec (Fleet.next fun _ => Samples.deployment Samples.engine onlySource)
      (.initial Samples.queuedRun 2)
      (ofWorker 0 ([.readRun, .readPipeline] ++ Samples.claimedCall 1) ++ [(1, .readRun)])).map
        (fun s => (s.executed, s.history)) = some ([0], [.queued, .running, .succeeded]) := by
    decide +kernel
  rcases Option.map_eq_some_iff.mp hcheck with ⟨s, hrun, heq⟩
  rw [Prod.mk.injEq] at heq
  exact ⟨s, hrun, run_executed_once _ _ _ _ s (by decide +kernel) hrun, heq.1, heq.2⟩

/-- Two workers read the queued run before either of them claims it: both call the
engine, and the second claim takes the succeeded run back to running. -/
theorem run_executed_twice :
    ∃ actions s, Interleaving.exec (Fleet.next fun _ => Samples.deployment Samples.engine onlySource)
        (.initial Samples.queuedRun 2) actions = some s ∧
      s.executed = [0, 1] ∧
      s.history = [.queued, .running, .succeeded, .running, .succeeded] ∧
      ¬ s.ledger.RunOnce := by
  have hcheck : (Interleaving.exec (Fleet.next fun _ => Samples.deployment Samples.engine onlySource)
      (.initial Samples.queuedRun 2)
      (ofWorker 0 [.readRun, .readPipeline] ++ ofWorker 1 [.readRun, .readPipeline] ++
        ofWorker 0 (Samples.claimedCall 1) ++ ofWorker 1 (Samples.claimedCall 2))).map
          (fun s => (s.executed, s.history)) =
        some ([0, 1], [.queued, .running, .succeeded, .running, .succeeded]) := by
    decide +kernel
  rcases Option.map_eq_some_iff.mp hcheck with ⟨s, hrun, heq⟩
  rw [Prod.mk.injEq] at heq
  refine ⟨_, s, hrun, heq.1, heq.2, fun honce => ?_⟩
  have hle := honce.executed
  rw [show s.ledger.executed = [0, 1] from heq.1] at hle
  simp at hle

end EtlTool
