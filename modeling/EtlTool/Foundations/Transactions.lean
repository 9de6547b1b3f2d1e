import Mathlib.Logic.Relation
import Mathlib.Data.List.Basic
import EtlTool.Foundations.Interleaving

/-!
# Transactions without locks

Several parties work on one store.  Each of them reads the store, works on what it has
read, and commits; nothing keeps the store from changing in between.  If no party reads
while another one is between its read and its commit, then every commit meets the store
that its party has read, and the run is a serial one: the requests are carried out one
after the other, in the order of their commits.

Main results:

- Theorem {lit}`Inv.next`: with separated parties the store is the one that the working
  party has read.
- Theorem {lit}`serial_of_apart`: the store is the result of the committed requests, one
  after the other.
- Theorem {lit}`Serial.invariant`: what every request preserves on its own holds after a
  serial run.
-/

namespace Transactions

open Interleaving

variable {σ ρ κ : Type}

/-- What a request reads, the steps that it takes on what it has read, and what it
commits when no step is left. -/
structure Protocol (σ ρ κ : Type) where
  read : ρ → σ → κ
  work : κ → Option κ
  commit : κ → σ → σ

/-- Where a party stands. -/
inductive Party (ρ κ : Type) where
  | idle (request : ρ)
  | working (request : ρ) (loaded : κ)
  | closed (request : ρ) (loaded : κ)

/-- The request of a party. -/
def Party.request : Party ρ κ → ρ
  | idle request => request
  | working request _ => request
  | closed request _ => request

/-- The party has read and not committed yet. -/
def Party.isWorking : Party ρ κ → Bool
  | working _ _ => true
  | _ => false

/-- The request of a party that has committed. -/
def Party.closedRequest? : Party ρ κ → Option ρ
  | closed request _ => some request
  | _ => none

/-- The next step of a party. -/
inductive Move where
  | read
  | work
  | commit
deriving DecidableEq

/-- The store, the parties, and the committed requests in the order of their commits. -/
structure System (σ ρ κ : Type) where
  store : σ
  parties : List (Party ρ κ)
  committed : List ρ

/-- Requests that have not been started. -/
def System.initial (store : σ) (requests : List ρ) : System σ ρ κ where
  store := store
  parties := requests.map Party.idle
  committed := []

/-- One step of one party. -/
def next (p : Protocol σ ρ κ) (s : System σ ρ κ) (a : Nat × Move) : Option (System σ ρ κ) :=
  match s.parties[a.1]?, a.2 with
  | some (.idle request), .read =>
      some { s with parties := s.parties.set a.1 (.working request (p.read request s.store)) }
  | some (.working request loaded), .work =>
      (p.work loaded).map fun loaded' =>
        { s with parties := s.parties.set a.1 (.working request loaded') }
  | some (.working request loaded), .commit =>
      match p.work loaded with
      | some _ => none
      | none =>
          some {
            store := p.commit loaded s.store
            parties := s.parties.set a.1 (.closed request loaded)
            committed := s.committed ++ [request] }
  | _, _ => none

/-- No party reads while another one is between its read and its commit. -/
def Apart (s : System σ ρ κ) (a : Nat × Move) : Prop :=
  a.2 = .read → ∀ party ∈ s.parties, party.isWorking = false

instance (s : System σ ρ κ) (a : Nat × Move) : Decidable (Apart s a) :=
  inferInstanceAs (Decidable (_ → _))

/-! ## Everything that one step can do -/

/-- Everything that one step can do. -/
inductive Step (p : Protocol σ ρ κ) (s : System σ ρ κ) : Nat × Move → System σ ρ κ → Prop where
  | read (i : Nat) (request : ρ) (hparty : s.parties[i]? = some (.idle request)) :
      Step p s (i, .read)
        { s with parties := s.parties.set i (.working request (p.read request s.store)) }
  | work (i : Nat) (request : ρ) (loaded loaded' : κ)
      (hparty : s.parties[i]? = some (.working request loaded))
      (hwork : p.work loaded = some loaded') :
      Step p s (i, .work) { s with parties := s.parties.set i (.working request loaded') }
  | commit (i : Nat) (request : ρ) (loaded : κ)
      (hparty : s.parties[i]? = some (.working request loaded)) (hwork : p.work loaded = none) :
      Step p s (i, .commit) {
        store := p.commit loaded s.store
        parties := s.parties.set i (.closed request loaded)
        committed := s.committed ++ [request] }

private theorem next_spec {p : Protocol σ ρ κ} {s s' : System σ ρ κ} {a : Nat × Move}
    (h : next p s a = some s') : Step p s a s' := by
  rcases a with ⟨i, move⟩
  unfold next at h
  split at h
  · rename_i request hparty hmove
    cases hmove
    cases h
    exact .read i request hparty
  · rename_i request loaded hparty hmove
    cases hmove
    rcases Option.map_eq_some_iff.mp h with ⟨loaded', hwork, rfl⟩
    exact .work i request loaded loaded' hparty hwork
  · rename_i request loaded hparty hmove
    cases hmove
    split at h
    · cases h
    · rename_i hwork
      cases h
      exact .commit i request loaded hparty hwork
  · cases h

/-! ## Serial runs -/

/-- A request that is carried out without interruption. -/
def Atomic (p : Protocol σ ρ κ) (request : ρ) (store store' : σ) : Prop :=
  ∃ loaded, Relation.ReflTransGen (fun l l' => p.work l = some l') (p.read request store) loaded ∧
    p.work loaded = none ∧ store' = p.commit loaded store

/-- Work for a number of steps. -/
def settle (p : Protocol σ ρ κ) : Nat → κ → κ
  | 0, loaded => loaded
  | fuel + 1, loaded =>
      match p.work loaded with
      | none => loaded
      | some loaded' => settle p fuel loaded'

private theorem reaches_settle (p : Protocol σ ρ κ) (fuel : Nat) (loaded : κ) :
    Relation.ReflTransGen (fun l l' => p.work l = some l') loaded (settle p fuel loaded) := by
  induction fuel generalizing loaded with
  | zero => exact .refl
  | succ fuel ih =>
      unfold settle
      cases hwork : p.work loaded with
      | none => exact .refl
      | some loaded' => exact .head hwork (ih loaded')

/-- A request can be carried out by working until no step is left. -/
theorem atomic_of_settle {p : Protocol σ ρ κ} {request : ρ} {store : σ} (fuel : Nat)
    (h : (p.work (settle p fuel (p.read request store))).isNone = true) :
    Atomic p request store (p.commit (settle p fuel (p.read request store)) store) :=
  ⟨_, reaches_settle p fuel _, Option.isNone_iff_eq_none.mp h, rfl⟩

/-- Requests that are carried out one after the other. -/
inductive Serial (p : Protocol σ ρ κ) (store : σ) : List ρ → σ → Prop where
  | nil : Serial p store [] store
  | snoc (requests : List ρ) (request : ρ) (between store' : σ)
      (hbefore : Serial p store requests between) (hlast : Atomic p request between store') :
      Serial p store (requests ++ [request]) store'

/-- What every request preserves on its own holds after a serial run. -/
theorem Serial.invariant {p : Protocol σ ρ κ} {P : σ → Prop} {store store' : σ}
    {requests : List ρ} (h : Serial p store requests store')
    (hatomic : ∀ request ∈ requests, ∀ s s', P s → Atomic p request s s' → P s')
    (hstore : P store) : P store' := by
  induction h with
  | nil => exact hstore
  | snoc requests request between store' _ hlast ih =>
      have hbefore := ih fun r hr => hatomic r (List.mem_append_left _ hr)
      exact hatomic request (by simp) between store' hbefore hlast

/-! ## Separated parties -/

/-- The store is the one that the working party has read, and it is the result of the
committed requests. -/
structure Inv (p : Protocol σ ρ κ) (store : σ) (requests : List ρ) (s : System σ ρ κ) :
    Prop where
  fresh : ∀ (i : Nat) (request : ρ) (loaded : κ),
    s.parties[i]? = some (.working request loaded) →
      Relation.ReflTransGen (fun l l' => p.work l = some l') (p.read request s.store) loaded
  alone : ∀ (i j : Nat) (party party' : Party ρ κ), s.parties[i]? = some party →
    s.parties[j]? = some party' → party.isWorking = true → party'.isWorking = true → i = j
  serial : Serial p store s.committed s.store
  closed : (s.parties.filterMap Party.closedRequest?).Perm s.committed
  kept : s.parties.map Party.request = requests

theorem Inv.initial (p : Protocol σ ρ κ) (store : σ) (requests : List ρ) :
    Inv p store requests (System.initial store requests) := by
  have hidle : ∀ (i : Nat) (party : Party ρ κ),
      (requests.map (Party.idle (κ := κ)))[i]? = some party → party.isWorking = false := by
    intro i party hparty
    rw [List.getElem?_map, Option.map_eq_some_iff] at hparty
    rcases hparty with ⟨request, _, rfl⟩
    rfl
  refine ⟨?_, ?_, .nil, ?_, ?_⟩
  · intro i request loaded hparty
    cases hidle i _ hparty
  · intro i j party party' hi _ hworking _
    rw [hidle i party hi] at hworking
    cases hworking
  · have hnone : (requests.map (Party.idle (κ := κ))).filterMap Party.closedRequest? = [] := by
      rw [List.filterMap_map]
      exact List.filterMap_eq_nil_iff.mpr fun _ _ => rfl
    simp [System.initial, hnone]
  · change (requests.map (Party.idle (κ := κ))).map Party.request = requests
    rw [List.map_map]
    exact List.map_id requests

variable {p : Protocol σ ρ κ} {store : σ} {requests : List ρ} {s s' : System σ ρ κ}

private theorem getElem?_set_party {parties : List (Party ρ κ)} {i : Nat} {old : Party ρ κ}
    (hold : parties[i]? = some old) (new : Party ρ κ) (j : Nat) :
    (parties.set i new)[j]? = if j = i then some new else parties[j]? := by
  have hlt := (List.getElem?_eq_some_iff.mp hold).1
  rw [List.getElem?_set]
  by_cases hji : j = i
  · simp [hji, hlt]
  · simp [hji, Ne.symm hji]

/-- A party that moves on keeps its request. -/
theorem map_request_set {parties : List (Party ρ κ)} {i : Nat} {old : Party ρ κ}
    (hold : parties[i]? = some old) (new : Party ρ κ) (hrequest : new.request = old.request) :
    (parties.set i new).map Party.request = parties.map Party.request := by
  apply List.ext_getElem?
  intro j
  rw [List.getElem?_map, List.getElem?_map, getElem?_set_party hold]
  by_cases hji : j = i
  · rw [if_pos hji, hji, hold, Option.map_some, Option.map_some, hrequest]
  · rw [if_neg hji]

/-- The requests of the parties that have committed, when one party moves on. -/
theorem closed_set {parties : List (Party ρ κ)} {i : Nat} {old : Party ρ κ}
    (hold : parties[i]? = some old) (hopen : old.closedRequest? = none) (new : Party ρ κ) :
    ((parties.set i new).filterMap Party.closedRequest?).Perm
      (parties.filterMap Party.closedRequest? ++ new.closedRequest?.toList) := by
  induction parties generalizing i with
  | nil => simp at hold
  | cons first rest ih =>
      cases i with
      | zero =>
          simp only [List.getElem?_cons_zero, Option.some.injEq] at hold
          subst hold
          simp only [List.set_cons_zero, List.filterMap_cons, hopen]
          cases new.closedRequest? with
          | none => simp
          | some request => simpa using List.perm_append_singleton request _ |>.symm
      | succ i =>
          rw [List.getElem?_cons_succ] at hold
          have hrest := ih hold
          simp only [List.set_cons_succ, List.filterMap_cons]
          cases first.closedRequest? with
          | none => exact hrest
          | some request => exact hrest.cons request

/-- If a party that may work moves on, then it is the only one that works. -/
theorem alone_set {i : Nat} {old new : Party ρ κ} (hold : s.parties[i]? = some old)
    (hothers : ∀ (j : Nat) (party : Party ρ κ), s.parties[j]? = some party → j ≠ i →
      party.isWorking = false) :
    ∀ (j k : Nat) (party party' : Party ρ κ), (s.parties.set i new)[j]? = some party →
      (s.parties.set i new)[k]? = some party' → party.isWorking = true →
      party'.isWorking = true → j = k := by
  have hself : ∀ (j : Nat) (party : Party ρ κ), (s.parties.set i new)[j]? = some party →
      party.isWorking = true → j = i := by
    intro j party hj hworking
    by_contra hji
    rw [getElem?_set_party hold, if_neg hji] at hj
    rw [hothers j party hj hji] at hworking
    cases hworking
  intro j k party party' hj hk hworking hworking'
  rw [hself j party hj hworking, hself k party' hk hworking']

/-- Steps of separated parties keep the invariant. -/
theorem Inv.next {a : Nat × Move} (h : Inv p store requests s) (hapart : Apart s a)
    (hstep : Step p s a s') : Inv p store requests s' := by
  have hothers : ∀ (i : Nat) (request : ρ) (loaded : κ),
      s.parties[i]? = some (.working request loaded) → ∀ (j : Nat) (party : Party ρ κ),
        s.parties[j]? = some party → j ≠ i → party.isWorking = false := by
    intro i request loaded hparty j party hj hne
    by_contra hworking
    exact hne (h.alone j i party _ hj hparty (by simpa using hworking) rfl)
  cases hstep with
  | read i request hparty =>
      have hquiet : ∀ (j : Nat) (party : Party ρ κ), s.parties[j]? = some party → j ≠ i →
          party.isWorking = false :=
        fun j party hj _ => hapart rfl party (List.mem_of_getElem? hj)
      refine ⟨?_, alone_set hparty hquiet, h.serial, ?_, ?_⟩
      · intro j request' loaded' hj
        rw [getElem?_set_party hparty] at hj
        by_cases hji : j = i
        · rw [if_pos hji] at hj
          cases hj
          exact .refl
        · rw [if_neg hji] at hj
          exact h.fresh j request' loaded' hj
      · have hset := closed_set hparty rfl (.working request (p.read request s.store))
        simpa [Party.closedRequest?] using hset.trans (h.closed.append_right _)
      · exact (map_request_set hparty (.working request (p.read request s.store)) rfl).trans h.kept
  | work i request loaded loaded' hparty hwork =>
      refine ⟨?_, alone_set hparty (hothers i request loaded hparty), h.serial, ?_, ?_⟩
      · intro j request' last hj
        rw [getElem?_set_party hparty] at hj
        by_cases hji : j = i
        · rw [if_pos hji] at hj
          cases hj
          exact (h.fresh i request loaded hparty).tail hwork
        · rw [if_neg hji] at hj
          exact h.fresh j request' last hj
      · have hset := closed_set hparty rfl (.working request loaded')
        simpa [Party.closedRequest?] using hset.trans (h.closed.append_right _)
      · exact (map_request_set hparty (.working request loaded') rfl).trans h.kept
  | commit i request loaded hparty hwork =>
      have hquiet := hothers i request loaded hparty
      have hatomic : Atomic p request s.store (p.commit loaded s.store) :=
        ⟨loaded, h.fresh i request loaded hparty, hwork, rfl⟩
      refine ⟨?_, alone_set hparty hquiet, .snoc _ _ _ _ h.serial hatomic, ?_, ?_⟩
      · intro j request' last hj
        rw [getElem?_set_party hparty] at hj
        by_cases hji : j = i
        · rw [if_pos hji] at hj
          cases hj
        · rw [if_neg hji] at hj
          cases hquiet j _ hj hji
      · exact (closed_set hparty rfl _).trans (h.closed.append_right _)
      · exact (map_request_set hparty (.closed request loaded) rfl).trans h.kept

/-- Only requests of the run are carried out. -/
theorem Inv.mem_requests (h : Inv p store requests s) {request : ρ}
    (hrequest : request ∈ s.committed) : request ∈ requests := by
  rcases List.mem_filterMap.mp (h.closed.mem_iff.mpr hrequest) with ⟨party, hparty, hclosed⟩
  rw [← h.kept]
  refine List.mem_map.mpr ⟨party, hparty, ?_⟩
  cases party with
  | closed request' loaded => exact Option.some.inj hclosed
  | idle request' => cases hclosed
  | working request' loaded => cases hclosed

/-- When all parties have committed, every request has been carried out once. -/
theorem Inv.committed_perm (h : Inv p store requests s)
    (hclosed : ∀ party ∈ s.parties, party.closedRequest?.isSome = true) :
    s.committed.Perm requests := by
  have hall : s.parties.filterMap Party.closedRequest? = s.parties.map Party.request := by
    rw [← List.filterMap_eq_map]
    refine List.filterMap_congr fun party hparty => ?_
    have hsome := hclosed party hparty
    cases party with
    | closed request loaded => rfl
    | idle request => cases hsome
    | working request loaded => cases hsome
  rw [← h.kept, ← hall]
  exact h.closed.symm

/-- A run of separated parties carries out its requests one after the other. -/
theorem serial_of_apart {actions : List (Nat × Move)}
    (hapart : Guarded (Transactions.next p) Apart (.initial store requests) actions)
    (hrun : exec (Transactions.next p) (.initial store requests) actions = some s) :
    Inv p store requests s :=
  guarded_invariant (fun _ _ _ hinv hok hnext => hinv.next hok (next_spec hnext))
    (Inv.initial p store requests) hapart hrun

end Transactions
