import EtlTool.Foundations.KeyedTables
import EtlTool.Server.Origins

/-!
# Accounts

A registration looks for its email, and stores the new user in a second step; two
registrations with one email may both find none.  Whatever the interleaving, an email is
given once, a user that has been stored stays as they are, and a token is handed out to
those only who send the email and the password of the user that it names.

Main results:

- Theorem {lit}`commitRequest_users`: a commit stores its user, or changes no user.
- Theorem {lit}`accounts_kept`: the users, the logins and the tokens of every state that
  the server can reach.

Current gaps:

- The expiry of tokens, and the normal form of an email that a registration gives it.
-/

namespace EtlTool

open Interleaving KeyedTables

variable {app : App} {c : Calendar}

/-! ## Registrations -/

/-- The user that the commit of a request stores when it succeeds. -/
def RequestWork.newUser? : RequestWork → Option User
  | .insertUser row => some row
  | _ => none

/-- The user whom an answer lets in. -/
def RequestWork.token? : RequestWork → Option Uuid
  | .answer (.token id) => some id
  | _ => none

/-- The user that a step stores. -/
def Server.newUser? (app : App) (s : Server) : ServerAction → Option User
  | .commit i =>
      match s.sessions[i]? with
      | some (.working _ work) =>
          if (commitRequest app s.calendar work).2.committed then work.newUser? else none
      | _ => none
  | _ => none

private theorem token?_plain {work : RequestWork} (h : work.plain = true) : work.token? = none := by
  cases work with
  | answer response =>
      cases response with
      | token id => cases h
      | _ => rfl
  | _ => rfl

private theorem newUser?_plain {work : RequestWork} (h : work.plain = true) :
    work.newUser? = none := by
  cases work with
  | insertUser row => cases h
  | _ => rfl

/-- No request of a user leads to work on users or to a token. -/
theorem route_nobody (user : User) (request : ApiRequest) :
    (Api.route app user c request).newUser? = none ∧
      (Api.route app user c request).token? = none := by
  cases request with
  | setSecret newId ref value nonce =>
      simp only [Api.route, Api.setSecret]
      split
      · exact ⟨rfl, rfl⟩
      · split <;> exact ⟨rfl, rfl⟩
  | removeSecret ref =>
      simp only [Api.route, Api.removeSecret]
      split <;> exact ⟨rfl, rfl⟩
  | _ =>
      exact ⟨newUser?_plain (route_plain (by simp) (by simp)),
        token?_plain (route_plain (by simp) (by simp))⟩

/-- Only a registration leads to a new user. -/
theorem readRequest_newUser {request : Request} {row : User}
    (h : (readRequest app c request).2.newUser? = some row) :
    ∃ id email password salt, request = .register id email password salt ∧
      row = ⟨id, email, app.hashPassword salt password, true⟩ := by
  cases request with
  | register id email password salt =>
      simp only [readRequest, Api.register] at h
      split at h <;> cases h
      exact ⟨id, email, password, salt, rfl, rfl⟩
  | login email password =>
      simp only [readRequest, Api.login] at h
      split at h
      · cases h
      · split at h <;> cases h
  | tick now ids => cases h
  | api subject request =>
      simp only [readRequest] at h
      cases huser : currentUser c.tables subject with
      | error reason =>
          rw [huser] at h
          cases h
      | ok user =>
          simp only [huser, (route_nobody user request).1] at h
          cases h

/-- The ids and the emails of the stored users are distinct. -/
structure UsersDistinct (rows : List User) : Prop where
  ids : (rows.map User.id).Nodup
  emails : (rows.map User.email).Nodup

/-- What a commit can do to the table of users. -/
inductive UserChange (rows : List User) : Option User → List User → Prop where
  | kept : UserChange rows none rows
  | inserted (row : User) (hid : row.id ∉ rows.map User.id)
      (hemail : row.email ∉ rows.map User.email) : UserChange rows (some row) (rows ++ [row])

/-- A commit stores its user, or changes no user. -/
theorem commitRequest_users (work : RequestWork) :
    UserChange c.tables.users
      (if (commitRequest app c work).2.committed then work.newUser? else none)
      (commitRequest app c work).1.tables.users := by
  have hkept : ∀ work : RequestWork, work.newUser? = none →
      (commitRequest app c work).1.tables.users = c.tables.users →
      UserChange c.tables.users
        (if (commitRequest app c work).2.committed then work.newUser? else none)
        (commitRequest app c work).1.tables.users := by
    intro work hnone hrows
    rw [hrows, hnone, ite_self]
    exact .kept
  cases work with
  | insertUser row =>
      unfold commitRequest Commit.insertUser
      dsimp only
      split
      · exact .kept
      · rename_i hnew
        rw [not_or] at hnew
        exact .inserted row hnew.1 hnew.2
  | answer response => exact hkept _ rfl rfl
  | insertSecret row =>
      apply hkept _ rfl
      unfold commitRequest Commit.insertSecret
      dsimp only
      split <;> rfl
  | editSecret loaded assigned =>
      apply hkept _ rfl
      unfold commitRequest Commit.editSecret
      dsimp only
      split
      · rfl
      · split <;> rfl
  | removeSecret row => exact hkept _ rfl rfl
  | _ => exact hkept _ rfl (commitRequest_plain rfl).1

/-- A change of the users keeps ids and emails distinct. -/
theorem UserChange.distinct {rows rows' : List User} {new : Option User}
    (h : UserChange rows new rows') (hrows : UsersDistinct rows) : UsersDistinct rows' := by
  cases h with
  | kept => exact hrows
  | inserted row hid hemail =>
      exact ⟨nodup_append hrows.ids hid, nodup_append hrows.emails hemail⟩

/-- A commit appends its user, if any. -/
theorem UserChange.eq_append {rows rows' : List User} {new : Option User}
    (h : UserChange rows new rows') : rows' = rows ++ new.toList := by
  cases h with
  | kept => exact (List.append_nil rows).symm
  | inserted row => rfl

/-! ## Logins -/

/-- A token is handed out to those who know the password behind the stored hash. -/
theorem login_eq_token {tables : Tables} (h : UsersDistinct tables.users)
    {email password : String} {id : Uuid} :
    Api.login app tables email password = .answer (.token id) ↔
      ∃ row ∈ tables.users, row.email = email ∧ row.id = id ∧
        app.verifyPassword password row.hashedPassword = true := by
  unfold Api.login Tables.userByEmail?
  constructor
  · intro hlogin
    split at hlogin
    · cases hlogin
    · rename_i row hrow
      split at hlogin
      · rename_i hverified
        cases hlogin
        exact ⟨row, List.mem_of_find?_eq_some hrow, by simpa using List.find?_some hrow, rfl,
          hverified⟩
      · cases hlogin
  · rintro ⟨row, hrow, rfl, rfl, hverified⟩
    cases hfound : tables.users.find? fun other => other.email = row.email with
    | none =>
        rw [List.find?_eq_none] at hfound
        exact absurd (decide_eq_true rfl) (hfound row hrow)
    | some found =>
        have hemail : found.email = row.email := by simpa using List.find?_some hfound
        have hsame : found = row :=
          List.inj_on_of_nodup_map h.emails (List.mem_of_find?_eq_some hfound) hrow hemail
        simp only [hsame, hverified, if_true]

/-- A stored user who is active is the current user of whoever bears their token. -/
theorem currentUser_of_mem {tables : Tables} (h : UsersDistinct tables.users) {row : User}
    (hrow : row ∈ tables.users) (hactive : row.isActive = true) :
    currentUser tables (some row.id) = .ok row := by
  have hfound : tables.user? row.id = some row := by
    cases hfound : tables.user? row.id with
    | none =>
        rw [Tables.user?, List.find?_eq_none] at hfound
        exact absurd (decide_eq_true rfl) (hfound row hrow)
    | some found =>
        have hid : found.id = row.id := by simpa using List.find?_some hfound
        exact congrArg some
          (List.inj_on_of_nodup_map h.ids (List.mem_of_find?_eq_some hfound) hrow hid)
  simp only [currentUser, Option.bind_some, hfound, hactive, if_true]

/-! ## Where tokens come from -/

/-- The user whom a session lets in, or is about to. -/
def Session.token? : Session → Option Uuid
  | .answered _ (.token id) => some id
  | .working _ work => work.token?
  | _ => none

private theorem started_token (user : Option Uuid) (work : RequestWork) :
    (Session.started user work).token? = work.token? := by
  cases work with
  | answer response => cases response <;> rfl
  | _ => rfl

/-- Only a login leads to a token. -/
theorem readRequest_token {request : Request} {id : Uuid}
    (h : (readRequest app c request).2.token? = some id) :
    ∃ email password, request = .login email password ∧
      Api.login app c.tables email password = .answer (.token id) := by
  cases request with
  | register newId email password salt =>
      simp only [readRequest, Api.register] at h
      split at h <;> cases h
  | login email password =>
      refine ⟨email, password, rfl, ?_⟩
      simp only [readRequest] at h
      cases hwork : Api.login app c.tables email password with
      | answer response =>
          rw [hwork] at h
          cases response with
          | token other =>
              cases h
              rfl
          | _ => cases h
      | _ =>
          rw [hwork] at h
          cases h
  | tick now ids => cases h
  | api subject request =>
      simp only [readRequest] at h
      cases huser : currentUser c.tables subject with
      | error reason =>
          rw [huser] at h
          cases h
      | ok user =>
          simp only [huser, (route_nobody user request).2] at h
          cases h

/-- A commit answers with no token that was not there before. -/
theorem commitRequest_token {user : Option Uuid} {work : RequestWork} {id : Uuid}
    (h : (Session.resumed user (commitRequest app c work).2).token? = some id) :
    work.token? = some id := by
  by_cases hanswer : ∃ response, work = .answer response
  · rcases hanswer with ⟨response, rfl⟩
    cases response with
    | token other => exact h
    | _ => cases h
  · rw [not_exists] at hanswer
    cases hnext : (commitRequest app c work).2 with
    | answered response =>
        have husual : (commitRequest app c work).2.Usual := commitRequest_usual hanswer
        rw [hnext] at h husual
        cases husual <;> cases h
    | refreshing target =>
        rw [hnext] at h
        cases h

private theorem refreshed_token (tables : Tables) (target : Target) (user : Option Uuid) :
    (Session.answered user (refreshed tables target)).token? = none := by
  have helim : ∀ {α : Type} (row? : Option α) (answer : α → Response),
      (∀ row, (Session.answered user (answer row)).token? = none) →
      (Session.answered user (row?.elim (.refused (.raised invalidRequestError)) answer)).token? =
        none := by
    intro α row? answer hanswer
    cases row? with
    | none => rfl
    | some row => exact hanswer row
  cases target with
  | user id => exact helim _ _ fun _ => rfl
  | pipeline id => exact helim _ _ fun _ => rfl
  | run id => exact helim _ _ fun _ => rfl
  | schedule id => exact helim _ _ fun _ => rfl
  | secret id => exact helim _ _ fun _ => rfl

/-! ## Runs of the server -/

namespace Server

variable {s s' : Server} {a : ServerAction}

/-- The users who have registered. -/
def registrations (app : App) (actions : List ServerAction) : List User :=
  history (Server.step app) (Server.newUser? app) Server.initial actions

/-- The users stay distinct, and tokens name users whose password was sent. -/
structure AccountsInv (app : App) (past : List ServerAction) (s : Server) : Prop where
  distinct : UsersDistinct s.tables.users
  origins : s.Origins app past
  tokens : ∀ session ∈ s.sessions, ∀ id, session.token? = some id →
    ∃ email password, .arrive (.login email password) ∈ past ∧
      ∃ row ∈ s.tables.users, row.email = email ∧ row.id = id ∧
        app.verifyPassword password row.hashedPassword = true

/-- A step stores its user, or changes no user. -/
theorem users_next (hstep : s.step app a = some s') :
    UserChange s.tables.users (s.newUser? app a) s'.tables.users := by
  cases step_spec hstep with
  | commit i user work hsession hready hids =>
      have hnew : s.newUser? app (.commit i) =
          if (commitRequest app s.calendar work).2.committed then work.newUser? else none := by
        simp only [newUser?, hsession]
      rw [hnew]
      exact commitRequest_users work
  | execute i b call call' tables hsession hcall =>
      have hkept : tables.users = s.tables.users := (step_kept hstep fun _ heq => nomatch heq).1
      have hsame : UserChange s.tables.users none tables.users := hkept ▸ .kept
      exact hsame
  | _ => exact .kept

namespace AccountsInv

variable {past : List ServerAction}

/-- The invariant holds of the fresh server. -/
theorem initial : AccountsInv app [] Server.initial where
  distinct := ⟨List.nodup_nil, List.nodup_nil⟩
  origins := Origins.initial
  tokens := fun _ hmem => nomatch hmem

/-- Tokens of sessions that stay remain good. -/
theorem tokens_kept (h : AccountsInv app past s) (hstep : s.step app a = some s')
    {session : Session} (hmem : session ∈ s.sessions) {id : Uuid}
    (hid : session.token? = some id) :
    ∃ email password, .arrive (.login email password) ∈ past ++ [a] ∧
      ∃ row ∈ s'.tables.users, row.email = email ∧ row.id = id ∧
        app.verifyPassword password row.hashedPassword = true := by
  rcases h.tokens session hmem id hid with ⟨email, password, harrived, row, hrow, hfacts⟩
  refine ⟨email, password, List.mem_append_left _ harrived, row, ?_, hfacts⟩
  rw [(users_next hstep).eq_append]
  exact List.mem_append_left _ hrow

/-- Sessions that have taken a step bear no new tokens, but for logins. -/
theorem tokens_set (h : AccountsInv app past s) (hstep : s.step app a = some s') {i : Nat}
    {session : Session} (hsessions : s'.sessions = s.sessions.set i session)
    (hsession : ∀ id, session.token? = some id →
      ∃ email password, .arrive (.login email password) ∈ past ++ [a] ∧
        ∃ row ∈ s'.tables.users, row.email = email ∧ row.id = id ∧
          app.verifyPassword password row.hashedPassword = true) :
    AccountsInv app (past ++ [a]) s' where
  distinct := (users_next hstep).distinct h.distinct
  origins := h.origins.next hstep
  tokens := by
    intro other hmem id hid
    rw [hsessions] at hmem
    rcases List.mem_or_eq_of_mem_set hmem with hold | heq
    · exact h.tokens_kept hstep hold hid
    · rw [heq] at hid
      exact hsession id hid

private theorem tokens_append (h : AccountsInv app past s) (hstep : s.step app a = some s')
    {session : Session} (hsessions : s'.sessions = s.sessions ++ [session])
    (hsession : session.token? = none) : AccountsInv app (past ++ [a]) s' where
  distinct := (users_next hstep).distinct h.distinct
  origins := h.origins.next hstep
  tokens := by
    intro other hmem id hid
    rw [hsessions] at hmem
    rcases List.mem_append.mp hmem with hold | hlast
    · exact h.tokens_kept hstep hold hid
    · rw [List.mem_singleton.mp hlast, hsession] at hid
      cases hid

/-- Every step of the server keeps the invariant. -/
theorem next (h : AccountsInv app past s) (hstep : s.step app a = some s') :
    AccountsInv app (past ++ [a]) s' := by
  cases step_spec hstep with
  | arrive request => exact h.tokens_append hstep rfl rfl
  | deliver runId => exact h.tokens_append hstep rfl rfl
  | read i request hsession =>
      apply h.tokens_set hstep rfl
      intro id hid
      rw [started_token] at hid
      rcases readRequest_token hid with ⟨email, password, rfl, hlogin⟩
      have harrived := h.origins.arrived _ (List.mem_of_getElem? hsession)
      exact ⟨email, password, List.mem_append_left _ harrived,
        (login_eq_token h.distinct).mp hlogin⟩
  | work i user work work' hsession hwork =>
      exact h.tokens_set hstep rfl fun _ hid => nomatch hid
  | commit i user work hsession hready hids =>
      apply h.tokens_set hstep rfl
      intro id hid
      exact h.tokens_kept hstep (List.mem_of_getElem? hsession) (commitRequest_token hid)
  | refresh i user target hsession =>
      apply h.tokens_set hstep rfl
      intro id hid
      rw [refreshed_token] at hid
      cases hid
  | execute i b call call' tables hsession hcall =>
      exact h.tokens_set hstep rfl fun _ hid => nomatch hid
  | stream i b userId runId client client' hsession hclient =>
      exact h.tokens_set hstep rfl fun _ hid => nomatch hid

/-- The invariant holds in every reachable state. -/
theorem of_exec {actions : List ServerAction}
    (h : exec (Server.step app) Server.initial actions = some s) : AccountsInv app actions s := by
  have hpast : AccountsInv app ([] ++ actions) s :=
    exec_past (fun past s => AccountsInv app past s)
      (fun _ _ _ _ hs hstep => hs.next hstep) initial h
  rwa [List.nil_append] at hpast

end AccountsInv

/-- The users of a run are those of its beginning and those who have registered since. -/
theorem users_of_exec {actions : List ServerAction}
    (h : exec (Server.step app) s actions = some s') :
    s'.tables.users =
      s.tables.users ++ history (Server.step app) (Server.newUser? app) s actions := by
  have hfold : s'.tables.users =
      (history (Server.step app) (Server.newUser? app) s actions).foldl
        (fun rows row => rows ++ [row]) s.tables.users := by
    apply exec_history (fun _ => True) (fun s => s.tables.users)
      (fun _ _ _ _ _ => trivial) _ trivial h
    intro s a s' _ hstep
    rw [(users_next hstep).eq_append]
    cases s.newUser? app a with
    | none => exact List.append_nil _
    | some row => rfl
  rw [hfold, List.foldl_append_eq_append, ← List.flatMap_def, List.flatMap_singleton']

/-- A user has registered as a request says that has arrived. -/
theorem registered_of_history {actions : List ServerAction} {row : User}
    (h : exec (Server.step app) Server.initial actions = some s)
    (hrow : row ∈ registrations app actions) :
    ∃ password salt, .arrive (.register row.id row.email password salt) ∈ actions ∧
      row.hashedPassword = app.hashPassword salt password ∧ row.isActive = true := by
  rcases exists_of_mem_history h hrow with ⟨before, a, after, t, rfl, hbefore, hevent⟩
  have horigins : t.Origins app before := .of_exec hbefore
  cases a with
  | commit i =>
      simp only [newUser?] at hevent
      split at hevent
      · rename_i user work hsession
        rcases Option.ite_none_right_eq_some.mp hevent with ⟨_, hwork⟩
        rcases horigins.working user work (List.mem_of_getElem? hsession) with
          ⟨scheduleWork, rfl⟩ | ⟨request, c, harrived, hread⟩
        · cases hwork
        · have hnew : (readRequest app c request).2.newUser? = some row := by
            rw [hread]
            exact hwork
          rcases readRequest_newUser hnew with ⟨id, email, password, salt, rfl, rfl⟩
          exact ⟨password, salt, List.mem_append_left _ harrived, rfl, rfl⟩
      · cases hevent
  | _ => cases hevent

end Server

/-- The accounts of a server that has carried out some actions. -/
structure AccountsKept (app : App) (actions : List ServerAction) (s : Server) : Prop where
  /-- The users are those whose registrations were committed. -/
  stored : s.tables.users = Server.registrations app actions
  /-- An id and an email are given once. -/
  distinct : UsersDistinct s.tables.users
  /-- A user is as their registration says. -/
  registered : ∀ row ∈ s.tables.users, ∃ password salt,
    .arrive (.register row.id row.email password salt) ∈ actions ∧
      row.hashedPassword = app.hashPassword salt password
  /-- Whatever happens later, a user stays, and is who their tokens say. -/
  kept : ∀ more s', exec (Server.step app) s more = some s' → ∀ row ∈ s.tables.users,
    row ∈ s'.tables.users ∧ currentUser s'.tables (some row.id) = .ok row
  /-- A login is answered with the token of the user whose email and password it sends. -/
  login : ∀ email password id, Api.login app s.tables email password = .answer (.token id) ↔
    ∃ row ∈ s.tables.users, row.email = email ∧ row.id = id ∧
      app.verifyPassword password row.hashedPassword = true
  /-- Whoever got a token has sent the email and the password of its user. -/
  tokens : ∀ user id, .answered user (.token id) ∈ s.sessions →
    ∃ email password, .arrive (.login email password) ∈ actions ∧
      ∃ row ∈ s.tables.users, row.email = email ∧ row.id = id ∧
        app.verifyPassword password row.hashedPassword = true

/-- However registrations, logins and everything else interleave, accounts are kept. -/
theorem accounts_kept (app : App) (actions : List ServerAction) (s : Server)
    (h : exec (Server.step app) Server.initial actions = some s) :
    AccountsKept app actions s := by
  have hinv := Server.AccountsInv.of_exec h
  have hstored : s.tables.users = Server.registrations app actions := Server.users_of_exec h
  constructor
  case stored => exact hstored
  case distinct => exact hinv.distinct
  case registered =>
    intro row hrow
    rcases Server.registered_of_history h (hstored ▸ hrow) with
      ⟨password, salt, harrived, hhash, _⟩
    exact ⟨password, salt, harrived, hhash⟩
  case kept =>
    intro more s' hmore row hrow
    have hlater := Server.AccountsInv.of_exec (exec_append h hmore)
    have hmem : row ∈ s'.tables.users := by
      rw [Server.users_of_exec hmore]
      exact List.mem_append_left _ hrow
    rcases Server.registered_of_history h (hstored ▸ hrow) with ⟨_, _, _, _, hactive⟩
    exact ⟨hmem, currentUser_of_mem hlater.distinct hmem hactive⟩
  case login => exact fun email password id => login_eq_token hinv.distinct
  case tokens => exact fun user id hmem => hinv.tokens _ hmem id rfl

namespace Samples

/-- Two registrations race for one email: both find it free, and the second is refused.
Then each of the two tries to log in. -/
def racingRegistrations : List ServerAction :=
  [.arrive (.register "first" "shared@example.org" "swordfish" "salt"),
    .arrive (.register "second" "shared@example.org" "password" "salt"),
    .read 0, .read 1, .commit 0, .commit 1,
    .arrive (.login "shared@example.org" "swordfish"),
    .arrive (.login "shared@example.org" "password"), .read 2, .read 3]

/-- An application whose hashes begin with four characters of salt. -/
def saltedApp : App :=
  { Samples.app with
    verifyPassword := fun password hashed => hashed.toList.drop 4 = password.toList }

/-- The user of a token, and why there is none. -/
def loginAnswer? : Session → Option (Uuid ⊕ Refusal)
  | .answered _ (.token id) => some (.inl id)
  | .answered _ (.refused reason) => some (.inr reason)
  | _ => none

end Samples

/-- Two registrations of one email race, and the one committed first logs in. -/
theorem accounts_kept_racing :
    ∃ s, exec (Server.step Samples.saltedApp) Server.initial Samples.racingRegistrations = some s ∧
      s.sessions[2]?.bind Samples.loginAnswer? = some (.inl "first") ∧
      s.sessions[3]?.bind Samples.loginAnswer? = some (.inr .unauthenticated) ∧
      AccountsKept Samples.saltedApp Samples.racingRegistrations s := by
  have hcheck : (exec (Server.step Samples.saltedApp) Server.initial
      Samples.racingRegistrations).map (fun s =>
        (s.sessions[2]?.bind Samples.loginAnswer?, s.sessions[3]?.bind Samples.loginAnswer?)) =
      some (some (.inl "first"), some (.inr .unauthenticated)) := by
    decide +kernel
  rcases Option.map_eq_some_iff.mp hcheck with ⟨s, hrun, heq⟩
  rw [Prod.mk.injEq] at heq
  exact ⟨s, hrun, heq.1, heq.2, accounts_kept Samples.saltedApp Samples.racingRegistrations s hrun⟩

end EtlTool
