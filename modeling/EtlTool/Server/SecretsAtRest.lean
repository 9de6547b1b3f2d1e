import EtlTool.Foundations.KeyedTables
import EtlTool.Server.Origins

/-!
# Secrets at rest

The table of secrets is a map from an owner and a reference to a ciphertext.  Whatever
requests arrive, and however their reads and commits interleave, the map is what the
history of committed writes makes of it: a request that loses a race is refused and
writes nothing, and a commit that succeeds is seen by every later read.

Main results:

- Theorem {lit}`commitRequest_secrets`: a commit makes its write, or none.
- Theorem {lit}`secrets_at_rest`: what is stored, where it comes from, and what a run of
  its owner is given.

Current gaps:

- The master key is the same for the whole run.
-/

namespace EtlTool

open OwnedRows Interleaving KeyedTables

/-! ## The table as a map -/

/-- The columns of the unique constraint. -/
def Secret.key (row : Secret) : Uuid × String :=
  (row.ownerId, row.ref)

/-- The stored ciphertexts. -/
def Tables.secretMap (tables : Tables) : Uuid × String → Option String :=
  contents Secret.key Secret.ciphertext tables.secrets

/-- A write to the stored ciphertexts. -/
abbrev SecretWrite := Write (Uuid × String) String

private theorem Tables.ownedSecret?_eq (tables : Tables) (ownerId : Uuid) (ref : String) :
    tables.ownedSecret? ownerId ref =
      tables.secrets.find? fun row => decide (row.key = (ownerId, ref)) := by
  unfold ownedSecret? rowsOf
  rw [List.find?_filter]
  congr 1
  funext row
  simp [Secret.key]

private theorem Tables.ownedSecret?_isSome {tables : Tables} {row : Secret} :
    (tables.ownedSecret? row.ownerId row.ref).isSome ↔
      row.key ∈ tables.secrets.map Secret.key := by
  rw [ownedSecret?_eq, List.find?_isSome]
  simp [Secret.key]

/-- A provider sees what the map holds for its owner. -/
theorem Tables.get?_secretRows {tables : Tables} (h : (tables.secrets.map Secret.key).Nodup)
    (ownerId : Uuid) (ref : String) :
    (tables.secretRows ownerId).get? ref = tables.secretMap (ownerId, ref) := by
  have hrefs : (((rowsOf Secret.ownerId ownerId tables.secrets).map fun row =>
      (row.ref, row.ciphertext)).map Prod.fst).Nodup := by
    rw [List.map_map, List.nodup_map_iff_inj_on]
    · intro row hrow other hother heq
      rw [mem_rowsOf] at hrow hother
      exact List.inj_on_of_nodup_map h hrow.1 hother.1
        (Prod.ext (hrow.2.trans hother.2.symm) heq)
    · exact (List.Nodup.of_map _ h).sublist List.filter_sublist
  apply Option.ext
  intro ciphertext
  rw [secretMap, contents_eq_some_iff h]
  constructor
  · intro hget
    rcases List.mem_map.mp (OrderedDict.mem_of_get?_ofList hget) with ⟨row, hrow, heq⟩
    rw [mem_rowsOf] at hrow
    cases heq
    exact ⟨row, hrow.1, Prod.ext hrow.2 rfl, rfl⟩
  · rintro ⟨row, hrow, hkey, rfl⟩
    cases hkey
    exact OrderedDict.get?_ofList_of_mem hrefs
      (List.mem_map.mpr ⟨row, mem_rowsOf.mpr ⟨hrow, rfl⟩, rfl⟩)

/-! ## Writes -/

/-- What the commit of a request writes when it succeeds.  An edit of nothing leaves the
column out. -/
def RequestWork.secretWrite? : RequestWork → Option SecretWrite
  | .insertSecret row => some ⟨row.key, some row.ciphertext⟩
  | .editSecret loaded assigned =>
      if assigned = loaded then none else some ⟨loaded.key, some assigned.ciphertext⟩
  | .removeSecret row => some ⟨row.key, none⟩
  | _ => none

private theorem secretWrite?_plain {work : RequestWork} (h : work.plain = true) :
    work.secretWrite? = none := by
  cases work with
  | insertSecret row => cases h
  | editSecret loaded assigned => cases h
  | removeSecret row => cases h
  | _ => rfl

/-- What a step writes. -/
def Server.secretWrite? (app : App) (s : Server) : ServerAction → Option SecretWrite
  | .commit i =>
      match s.sessions[i]? with
      | some (.working _ work) =>
          if (commitRequest app s.calendar work).2.committed then work.secretWrite? else none
      | _ => none
  | _ => none

/-- An edit is of a row that was loaded, and of its ciphertext only. -/
structure Secret.Edits (rows : List Secret) (loaded assigned : Secret) : Prop where
  column : assigned = { loaded with ciphertext := assigned.ciphertext }
  stored : ∀ row ∈ rows, row.id = loaded.id → row.key = loaded.key

/-- What an edit that is committed makes of a row. -/
def writeLoaded (loaded assigned stored : Secret) : Secret :=
  if stored.id = loaded.id then writeSecret loaded assigned stored else stored

/-- What a commit can do to the table of secrets. -/
inductive SecretChange (rows : List Secret) : RequestWork → Option SecretWrite → List Secret → Prop
    where
  | kept (work : RequestWork) : SecretChange rows work none rows
  | inserted (row : Secret) (hid : row.id ∉ rows.map Secret.id)
      (hkey : row.key ∉ rows.map Secret.key) :
      SecretChange rows (.insertSecret row) (some ⟨row.key, some row.ciphertext⟩) (rows ++ [row])
  | edited (loaded assigned : Secret) (hne : assigned ≠ loaded)
      (hid : loaded.id ∈ rows.map Secret.id) :
      SecretChange rows (.editSecret loaded assigned) (some ⟨loaded.key, some assigned.ciphertext⟩)
        (rows.map (writeLoaded loaded assigned))
  | removed (row : Secret) :
      SecretChange rows (.removeSecret row) (some ⟨row.key, none⟩)
        (rows.filter fun stored => ¬ stored.key = row.key)

section

variable {app : App} {c : Calendar}

private theorem insertSecret_change (row : Secret) :
    SecretChange c.tables.secrets (.insertSecret row)
      (if (Commit.insertSecret c row).2.committed then
        some ⟨row.key, some row.ciphertext⟩ else none)
      (Commit.insertSecret c row).1.tables.secrets := by
  unfold Commit.insertSecret
  split
  · exact .kept _
  · rename_i hnew
    rw [not_or, Tables.ownedSecret?_isSome] at hnew
    exact .inserted row hnew.1 hnew.2

private theorem editSecret_change (loaded assigned : Secret) :
    SecretChange c.tables.secrets (.editSecret loaded assigned)
      (if (Commit.editSecret c loaded assigned).2.committed then
        (RequestWork.editSecret loaded assigned).secretWrite? else none)
      (Commit.editSecret c loaded assigned).1.tables.secrets := by
  have hwrite : (RequestWork.editSecret loaded assigned).secretWrite? =
      if assigned = loaded then none else some ⟨loaded.key, some assigned.ciphertext⟩ := rfl
  rw [hwrite]
  unfold Commit.editSecret
  by_cases hsame : assigned = loaded
  · rw [if_pos hsame, if_pos hsame, ite_self]
    exact .kept _
  · rw [if_neg hsame, if_neg hsame]
    by_cases hid : loaded.id ∈ c.tables.secrets.map Secret.id
    · rw [if_pos hid]
      exact .edited loaded assigned hsame hid
    · rw [if_neg hid]
      exact .kept _

private theorem removeSecret_change (row : Secret) :
    SecretChange c.tables.secrets (.removeSecret row) (some ⟨row.key, none⟩)
      (Commit.removeSecret c row).1.tables.secrets := by
  have hrows : (Commit.removeSecret c row).1.tables.secrets =
      c.tables.secrets.filter fun stored => ¬ stored.key = row.key := by
    apply List.filter_congr
    intro stored _
    simp [Secret.key]
  rw [hrows]
  exact .removed row

/-- A commit makes its write, or none. -/
theorem commitRequest_secrets (work : RequestWork) :
    SecretChange c.tables.secrets work
      (if (commitRequest app c work).2.committed then work.secretWrite? else none)
      (commitRequest app c work).1.tables.secrets := by
  have hkept : work.plain = true → SecretChange c.tables.secrets work
      (if (commitRequest app c work).2.committed then work.secretWrite? else none)
      (commitRequest app c work).1.tables.secrets := by
    intro hplain
    rw [(commitRequest_plain hplain).2, secretWrite?_plain hplain, ite_self]
    exact .kept work
  cases work with
  | answer response =>
      unfold commitRequest
      rw [show (RequestWork.answer response).secretWrite? = none from rfl, ite_self]
      exact .kept _
  | insertUser row =>
      have hrows : (Commit.insertUser c row).1.tables.secrets = c.tables.secrets := by
        unfold Commit.insertUser
        split <;> rfl
      unfold commitRequest
      rw [hrows, show (RequestWork.insertUser row).secretWrite? = none from rfl, ite_self]
      exact .kept _
  | insertSecret row => exact insertSecret_change row
  | editSecret loaded assigned => exact editSecret_change loaded assigned
  | removeSecret row => exact removeSecret_change row
  | _ => exact hkept rfl

end

/-! ## Changes as writes -/

/-- The ids and the keys of the stored secrets are distinct. -/
structure SecretsDistinct (rows : List Secret) : Prop where
  ids : (rows.map Secret.id).Nodup
  keys : (rows.map Secret.key).Nodup

private theorem writeLoaded_keys (loaded assigned stored : Secret) :
    (writeLoaded loaded assigned stored).id = stored.id ∧
      (writeLoaded loaded assigned stored).key = stored.key := by
  unfold writeLoaded
  split <;> exact ⟨rfl, rfl⟩

namespace SecretChange

variable {rows rows' : List Secret} {work : RequestWork} {write : Option SecretWrite}

/-- A change of the secrets keeps owner and name distinct. -/
theorem distinct (h : SecretChange rows work write rows') (hrows : SecretsDistinct rows) :
    SecretsDistinct rows' := by
  cases h with
  | kept => exact hrows
  | inserted row hid hkey => exact ⟨nodup_append hrows.ids hid, nodup_append hrows.keys hkey⟩
  | edited loaded assigned hne hid =>
      constructor
      · exact (map_key_edit fun row _ => (writeLoaded_keys loaded assigned row).1).symm ▸ hrows.ids
      · exact (map_key_edit fun row _ => (writeLoaded_keys loaded assigned row).2).symm ▸ hrows.keys
  | removed row =>
      exact ⟨hrows.ids.sublist (List.filter_sublist.map _),
        hrows.keys.sublist (List.filter_sublist.map _)⟩

/-- The rows with the key of a loaded row are the rows with its id. -/
theorem id_iff_key {loaded assigned row : Secret} (hrows : SecretsDistinct rows)
    (hedits : Secret.Edits rows loaded assigned) (hid : loaded.id ∈ rows.map Secret.id)
    (hrow : row ∈ rows) : row.id = loaded.id ↔ row.key = loaded.key := by
  constructor
  · exact hedits.stored row hrow
  · intro hkey
    rcases List.mem_map.mp hid with ⟨found, hfound, hsame⟩
    have hfoundKey := hedits.stored found hfound hsame
    rw [List.inj_on_of_nodup_map hrows.keys hrow hfound (hkey.trans hfoundKey.symm), hsame]

/-- A change of the table is one write to the map, or none. -/
theorem contents (h : SecretChange rows work write rows') (hrows : SecretsDistinct rows)
    (hedits : ∀ loaded assigned, work = .editSecret loaded assigned →
      Secret.Edits rows loaded assigned) :
    KeyedTables.contents Secret.key Secret.ciphertext rows' =
      write.elim (KeyedTables.contents Secret.key Secret.ciphertext rows)
        (Write.apply (KeyedTables.contents Secret.key Secret.ciphertext rows)) := by
  cases h with
  | kept => rfl
  | inserted row hid hkey => exact contents_append (nodup_append hrows.keys hkey)
  | edited loaded assigned hne hid =>
      have hloaded := hedits loaded assigned rfl
      have hcipher : assigned.ciphertext ≠ loaded.ciphertext := by
        intro heq
        exact hne (hloaded.column.trans (by rw [heq]))
      have hkey : loaded.key ∈ rows.map Secret.key := by
        rcases List.mem_map.mp hid with ⟨row, hrow, hsame⟩
        exact List.mem_map.mpr ⟨row, hrow, hloaded.stored row hrow hsame⟩
      apply contents_edit hrows.keys (fun row _ => (writeLoaded_keys loaded assigned row).2) hkey
      · intro row hrow hrowKey
        rw [writeLoaded, if_pos ((id_iff_key hrows hloaded hid hrow).mpr hrowKey)]
        exact ormWrite_of_changed hcipher _
      · intro row hrow hrowKey
        rw [writeLoaded, if_neg fun heq => hrowKey ((id_iff_key hrows hloaded hid hrow).mp heq)]
  | removed row => exact contents_remove hrows.keys

end SecretChange

/-! ## Requests for writes -/

/-- The owner of the secret has asked for the write. -/
def SecretWrite.AskedFor (app : App) (actions : List ServerAction) (write : SecretWrite) : Prop :=
  match write.value with
  | none => .arrive (.api (some write.key.1) (.removeSecret write.key.2)) ∈ actions
  | some ciphertext => ∃ id value nonce,
      .arrive (.api (some write.key.1) (.setSecret id write.key.2 value nonce)) ∈ actions ∧
        app.encrypt nonce value = .ok ciphertext

/-- A write once asked for stays asked for. -/
theorem SecretWrite.AskedFor.mono {app : App} {actions : List ServerAction} {write : SecretWrite}
    (h : write.AskedFor app actions) (more : List ServerAction) :
    write.AskedFor app (actions ++ more) := by
  unfold AskedFor at h ⊢
  split at h
  · exact List.mem_append_left _ h
  · rcases h with ⟨id, value, nonce, harrived, htoken⟩
    exact ⟨id, value, nonce, List.mem_append_left _ harrived, htoken⟩

section

variable {app : App} {c : Calendar} {tables : Tables} {user : User}

private theorem ownedSecret?_key {ownerId : Uuid} {ref : String} {row : Secret}
    (h : tables.ownedSecret? ownerId ref = some row) :
    row ∈ tables.secrets ∧ row.key = (ownerId, ref) := by
  rw [Tables.ownedSecret?_eq] at h
  exact ⟨List.mem_of_find?_eq_some h, by simpa using List.find?_some h⟩

/-- The request of a user that a write has been read for. -/
theorem route_secretWrite {request : ApiRequest} {write : SecretWrite}
    (h : (Api.route app user c request).secretWrite? = some write) :
    write.key.1 = user.id ∧
      ((request = .removeSecret write.key.2 ∧ write.value = none) ∨
        ∃ id value nonce ciphertext, request = .setSecret id write.key.2 value nonce ∧
          write.value = some ciphertext ∧ app.encrypt nonce value = .ok ciphertext) := by
  cases request with
  | setSecret id ref value nonce =>
      simp only [Api.route, Api.setSecret] at h
      cases htoken : app.encrypt nonce value with
      | error exc =>
          rw [htoken] at h
          cases h
      | ok ciphertext =>
          simp only [htoken] at h
          cases hrow : c.tables.ownedSecret? user.id ref with
          | none =>
              rw [hrow] at h
              cases h
              exact ⟨rfl, .inr ⟨id, value, nonce, ciphertext, rfl, rfl, htoken⟩⟩
          | some row =>
              rw [hrow] at h
              have hkey := (ownedSecret?_key hrow).2
              rcases Option.ite_none_left_eq_some.mp h with ⟨_, heq⟩
              cases heq
              refine ⟨congrArg Prod.fst hkey, .inr ⟨id, value, nonce, ciphertext, ?_, rfl, htoken⟩⟩
              exact congrArg (ApiRequest.setSecret id · value nonce) (congrArg Prod.snd hkey).symm
  | removeSecret ref =>
      simp only [Api.route, Api.removeSecret] at h
      cases hrow : c.tables.ownedSecret? user.id ref with
      | none =>
          rw [hrow] at h
          cases h
      | some row =>
          rw [hrow] at h
          cases h
          have hkey := (ownedSecret?_key hrow).2
          refine ⟨congrArg Prod.fst hkey, .inl ⟨?_, rfl⟩⟩
          exact congrArg ApiRequest.removeSecret (congrArg Prod.snd hkey).symm
  | _ =>
      rw [secretWrite?_plain (route_plain (by simp) (by simp))] at h
      cases h

/-- An edit is of a row that was stored when its request was read. -/
theorem readRequest_edit {request : Request} {user : Option Uuid} {loaded assigned : Secret}
    (h : readRequest app c request = (user, .editSecret loaded assigned)) :
    loaded ∈ c.tables.secrets ∧ assigned = { loaded with ciphertext := assigned.ciphertext } := by
  cases request with
  | register id email password salt =>
      simp only [readRequest, Api.register, Prod.mk.injEq] at h
      split at h <;> cases h.2
  | login email password =>
      simp only [readRequest, Api.login, Prod.mk.injEq] at h
      split at h
      · cases h.2
      · split at h <;> cases h.2
  | tick now ids => cases h
  | api subject request =>
      simp only [readRequest] at h
      cases huser : currentUser c.tables subject with
      | error reason =>
          rw [huser] at h
          cases h
      | ok user =>
          simp only [huser, Prod.mk.injEq] at h
          cases request with
          | setSecret id ref value nonce =>
              have hroute := h.2
              simp only [Api.route, Api.setSecret] at hroute
              cases htoken : app.encrypt nonce value with
              | error exc =>
                  rw [htoken] at hroute
                  cases hroute
              | ok ciphertext =>
                  simp only [htoken] at hroute
                  cases hrow : c.tables.ownedSecret? user.id ref with
                  | none =>
                      rw [hrow] at hroute
                      cases hroute
                  | some row =>
                      rw [hrow] at hroute
                      cases hroute
                      exact ⟨(ownedSecret?_key hrow).1, rfl⟩
          | removeSecret ref =>
              have hroute := h.2
              simp only [Api.route, Api.removeSecret] at hroute
              split at hroute <;> cases hroute
          | _ =>
              have hplain := congrArg RequestWork.plain h.2
              rw [route_plain (by simp) (by simp)] at hplain
              cases hplain

/-- The request that a write has been read for has asked for it. -/
theorem from_askedFor {actions : List ServerAction} {user : Option Uuid} {work : RequestWork}
    {write : SecretWrite} (hfrom : work.From app actions user)
    (h : work.secretWrite? = some write) : write.AskedFor app actions := by
  rcases hfrom with ⟨scheduleWork, rfl⟩ | ⟨request, c, harrived, hread⟩
  · cases h
  · cases request with
    | register id email password salt =>
        simp only [readRequest, Api.register, Prod.mk.injEq] at hread
        rw [← hread.2] at h
        split at h <;> cases h
    | login email password =>
        simp only [readRequest, Api.login, Prod.mk.injEq] at hread
        rw [← hread.2] at h
        split at h
        · cases h
        · split at h <;> cases h
    | tick now ids =>
        simp only [readRequest, Prod.mk.injEq] at hread
        rw [← hread.2] at h
        cases h
    | api subject request =>
        simp only [readRequest] at hread
        cases huser : currentUser c.tables subject with
        | error reason =>
            simp only [huser, Prod.mk.injEq] at hread
            rw [← hread.2] at h
            cases h
        | ok user =>
            simp only [huser, Prod.mk.injEq] at hread
            rw [← hread.2] at h
            have hsubject := currentUser_eq_ok huser
            rcases route_secretWrite h with ⟨howner, ⟨rfl, hvalue⟩ | hset⟩
            · rw [SecretWrite.AskedFor, hvalue, howner, ← hsubject]
              exact harrived
            · rcases hset with ⟨id, value, nonce, ciphertext, rfl, hvalue, htoken⟩
              rw [SecretWrite.AskedFor, hvalue, howner, ← hsubject]
              exact ⟨id, value, nonce, harrived, htoken⟩

end

/-! ## Runs of the server -/

namespace Server

variable {app : App} {s s' : Server} {a : ServerAction}

/-- Whoever waits to edit a row has loaded it. -/
def PendingEdits (rows : List Secret) (sessions : List Session) : Prop :=
  ∀ user loaded assigned, .working user (.editSecret loaded assigned) ∈ sessions →
    Secret.Edits rows loaded assigned

namespace PendingEdits

variable {rows : List Secret} {sessions : List Session}

/-- A new session that is not at work has no pending edit. -/
theorem append (h : PendingEdits rows sessions) {session : Session}
    (hnew : ∀ user work, session ≠ .working user work) :
    PendingEdits rows (sessions ++ [session]) := by
  intro user loaded assigned hmem
  rcases List.mem_append.mp hmem with hold | hlast
  · exact h user loaded assigned hold
  · exact absurd (List.mem_singleton.mp hlast).symm (hnew user _)

/-- A session that moves on keeps the pending edits, if its own is one of a stored row. -/
theorem set (h : PendingEdits rows sessions) {i : Nat} {session : Session}
    (hnew : ∀ user loaded assigned, session = .working user (.editSecret loaded assigned) →
      Secret.Edits rows loaded assigned) : PendingEdits rows (sessions.set i session) := by
  intro user loaded assigned hmem
  rcases List.mem_or_eq_of_mem_set hmem with hold | heq
  · exact h user loaded assigned hold
  · exact hnew user loaded assigned heq.symm

end PendingEdits

/-- The rows stay distinct, and whoever waits to edit a row has loaded it. -/
structure SecretsInv (s : Server) : Prop where
  owners : s.Inv
  distinct : SecretsDistinct s.tables.secrets
  edits : PendingEdits s.tables.secrets s.sessions

namespace SecretsInv

/-- The invariant holds of the fresh server. -/
theorem initial : Server.initial.SecretsInv where
  owners := Inv.initial
  distinct := ⟨List.nodup_nil, List.nodup_nil⟩
  edits := fun _ _ _ hmem => nomatch hmem

/-- A row that has been found is the row with its id. -/
theorem edits_of_mem {rows : List Secret} (h : SecretsDistinct rows) {loaded assigned : Secret}
    (hmem : loaded ∈ rows)
    (hcolumn : assigned = { loaded with ciphertext := assigned.ciphertext }) :
    Secret.Edits rows loaded assigned where
  column := hcolumn
  stored := fun row hrow hid => by rw [List.inj_on_of_nodup_map h.ids hrow hmem hid]

/-- An edit stays possible over a change of the table. -/
theorem edits_change {rows rows' : List Secret} {work : RequestWork} {write : Option SecretWrite}
    (h : SecretChange rows work write rows') {loaded assigned : Secret}
    (hedits : Secret.Edits rows loaded assigned)
    (hnew : ∀ row, work = .insertSecret row → row.id ≠ loaded.id) :
    Secret.Edits rows' loaded assigned := by
  refine ⟨hedits.column, ?_⟩
  cases h with
  | kept => exact hedits.stored
  | inserted row hid hkey =>
      intro stored hstored hsame
      rcases List.mem_append.mp hstored with hold | hfresh
      · exact hedits.stored stored hold hsame
      · rw [List.mem_singleton.mp hfresh] at hsame
        exact absurd hsame (hnew row rfl)
  | edited first second hne hid =>
      intro stored hstored hsame
      rcases List.mem_map.mp hstored with ⟨row, hrow, rfl⟩
      rw [(writeLoaded_keys first second row).1] at hsame
      rw [(writeLoaded_keys first second row).2]
      exact hedits.stored row hrow hsame
  | removed row => exact fun stored hstored => hedits.stored stored (List.mem_filter.mp hstored).1

/-- A request that has been read edits a row that it has found. -/
theorem edits_started (h : s.SecretsInv) {request : Request} {user : Option Uuid}
    {loaded assigned : Secret}
    (hstarted : Session.started (readRequest app s.calendar request).1
      (readRequest app s.calendar request).2 = .working user (.editSecret loaded assigned)) :
    Secret.Edits s.tables.secrets loaded assigned := by
  have hwork : (readRequest app s.calendar request).2 = .editSecret loaded assigned := by
    cases hwork : (readRequest app s.calendar request).2 <;> rw [hwork] at hstarted <;>
      cases hstarted
    rfl
  rcases readRequest_edit (Prod.ext_iff.mpr ⟨rfl, hwork⟩) with ⟨hloaded, hcolumn⟩
  exact edits_of_mem h.distinct hloaded hcolumn

/-- An edit outlives the commits of others. -/
theorem edits_commit (h : s.SecretsInv) {work : RequestWork} (hids : NewIds s.issued work.newIds) :
    PendingEdits (commitRequest app s.calendar work).1.tables.secrets s.sessions := by
  intro user loaded assigned hmem
  apply edits_change (commitRequest_secrets work) (h.edits user loaded assigned hmem)
  rintro row rfl hsame
  have hloaded : (loaded.id, loaded.ownerId) ∈ s.issued := (h.owners.sessions _ hmem).2
  apply hids.2 row.id (List.mem_singleton_self _)
  rw [hsame]
  exact List.mem_map_of_mem hloaded

/-- Every step of the server keeps the invariant. -/
theorem next (h : s.SecretsInv) (hstep : s.step app a = some s') : s'.SecretsInv := by
  have howners := h.owners.next hstep
  cases step_spec hstep with
  | arrive request => exact ⟨howners, h.distinct, h.edits.append fun _ _ heq => nomatch heq⟩
  | deliver runId => exact ⟨howners, h.distinct, h.edits.append fun _ _ heq => nomatch heq⟩
  | read i request hsession =>
      exact ⟨howners, h.distinct, h.edits.set fun _ _ _ heq => h.edits_started heq⟩
  | work i user work work' hsession hwork =>
      exact ⟨howners, h.distinct, h.edits.set fun _ _ _ heq => nomatch heq⟩
  | commit i user work hsession hready hids =>
      refine ⟨howners, (commitRequest_secrets work).distinct h.distinct, ?_⟩
      apply (h.edits_commit hids).set
      intro other loaded assigned heq
      cases hnext : (commitRequest app s.calendar work).2 <;> rw [hnext] at heq <;> cases heq
  | refresh i user target hsession =>
      exact ⟨howners, h.distinct, h.edits.set fun _ _ _ heq => nomatch heq⟩
  | execute i b call call' tables hsession hcall =>
      have hkept : tables.secrets = s.tables.secrets :=
        (step_kept hstep fun _ heq => nomatch heq).2.1
      have hedits : PendingEdits tables.secrets s.sessions := hkept ▸ h.edits
      have hdistinct : SecretsDistinct tables.secrets := hkept ▸ h.distinct
      exact ⟨howners, hdistinct, hedits.set fun _ _ _ heq => nomatch heq⟩
  | stream i b userId runId client client' hsession hclient =>
      exact ⟨howners, h.distinct, h.edits.set fun _ _ _ heq => nomatch heq⟩

/-- A step makes its write to the map, or none. -/
theorem secretMap_next (h : s.SecretsInv) (hstep : s.step app a = some s') :
    s'.tables.secretMap =
      (s.secretWrite? app a).elim s.tables.secretMap (Write.apply s.tables.secretMap) := by
  cases step_spec hstep with
  | commit i user work hsession hready hids =>
      have hwrite : s.secretWrite? app (.commit i) =
          if (commitRequest app s.calendar work).2.committed then work.secretWrite? else none := by
        simp only [secretWrite?, hsession]
      rw [hwrite]
      apply (commitRequest_secrets work).contents h.distinct
      rintro loaded assigned rfl
      exact h.edits user loaded assigned (List.mem_of_getElem? hsession)
  | execute i b call call' tables hsession hcall =>
      have hkept : tables.secrets = s.tables.secrets :=
        (step_kept hstep fun _ heq => nomatch heq).2.1
      simp only [Tables.secretMap, Server.tables, hkept]
      rfl
  | _ => rfl

/-- The invariant holds in every reachable state. -/
theorem of_exec {actions : List ServerAction}
    (h : exec (Server.step app) Server.initial actions = some s) : s.SecretsInv :=
  exec_invariant (fun _ _ _ hs hstep => next hs hstep) initial h

end SecretsInv

/-- The writes that were committed. -/
def secretHistory (app : App) (actions : List ServerAction) : List SecretWrite :=
  history (Server.step app) (Server.secretWrite? app) Server.initial actions

/-- The table is what the history makes of it. -/
theorem secretMap_of_exec {actions : List ServerAction}
    (h : exec (Server.step app) Server.initial actions = some s) :
    s.tables.secretMap = standing (secretHistory app actions) := by
  have hfold : s.tables.secretMap =
      (secretHistory app actions).foldl Write.apply Server.initial.tables.secretMap :=
    exec_history SecretsInv (fun s => s.tables.secretMap) (fun _ _ _ hs hstep => hs.next hstep)
      (fun _ _ _ hs hstep => hs.secretMap_next hstep) SecretsInv.initial h
  exact hfold.trans (foldl_apply_none _)

/-- Every write of the history has been asked for. -/
theorem askedFor_of_history {actions : List ServerAction} {write : SecretWrite}
    (h : exec (Server.step app) Server.initial actions = some s)
    (hwrite : write ∈ secretHistory app actions) : write.AskedFor app actions := by
  rcases exists_of_mem_history h hwrite with ⟨before, a, after, t, rfl, hbefore, hevent⟩
  have horigins : t.Origins app before := .of_exec hbefore
  have hasked : write.AskedFor app before := by
    cases a with
    | commit i =>
        simp only [secretWrite?] at hevent
        split at hevent
        · rename_i user work hsession
          rcases Option.ite_none_right_eq_some.mp hevent with ⟨_, hwork⟩
          exact from_askedFor (horigins.working user work (List.mem_of_getElem? hsession)) hwork
        · cases hevent
    | _ => cases hevent
  exact SecretWrite.AskedFor.mono hasked (a :: after)

/-- What is stored encrypts a value that the owner has sent. -/
theorem sent_of_secretMap {actions : List ServerAction} {ownerId : Uuid}
    {ref ciphertext : String} (h : exec (Server.step app) Server.initial actions = some s)
    (hstored : s.tables.secretMap (ownerId, ref) = some ciphertext) :
    ∃ id value nonce, .arrive (.api (some ownerId) (.setSecret id ref value nonce)) ∈ actions ∧
      app.encrypt nonce value = .ok ciphertext := by
  rw [secretMap_of_exec h] at hstored
  rcases Option.bind_eq_some_iff.mp hstored with ⟨write, hlast, hvalue⟩
  rcases mem_of_lastWrite? hlast with ⟨hmem, hkey⟩
  have hasked := askedFor_of_history h hmem
  rw [SecretWrite.AskedFor, hvalue, hkey] at hasked
  exact hasked

end Server

/-! ## What a provider gives -/

/-- A cipher, of a request or of a worker, undoes the encryption of the application. -/
def App.DecryptedBy (app : App) (cipher : Cipher) : Prop :=
  ∀ nonce value ciphertext, app.encrypt nonce value = .ok ciphertext →
    cipher.decrypt ciphertext = .ok value.toUTF8.data.toList

private theorem fromUTF8?_toUTF8 (text : String) :
    String.fromUTF8? ⟨text.toUTF8.data.toList.toArray⟩ = some text := by
  have hbytes : (⟨text.toUTF8.data.toList.toArray⟩ : ByteArray) = text.toByteArray := by
    rw [Array.toArray_toList]
    rfl
  rw [hbytes, String.fromUTF8?, dif_pos text.isValidUTF8]
  rfl

/-- A provider gives back what was encrypted. -/
theorem dbSecret_encrypted {app : App} {cipher : Cipher} (h : app.DecryptedBy cipher)
    {rows : OrderedDict String String} {ref nonce value ciphertext : String}
    (hrow : rows.get? ref = some ciphertext) (htoken : app.encrypt nonce value = .ok ciphertext) :
    dbSecret cipher rows ref = .ok (PyText.ofString value) := by
  simp only [dbSecret, hrow, h nonce value ciphertext htoken, fromUTF8?_toUTF8]

/-- What the server keeps of the secrets of its users. -/
structure SecretsAtRest (app : App) (actions : List ServerAction) (s : Server) : Prop where
  /-- An owner has at most one secret with a reference. -/
  unique : (s.tables.secrets.map Secret.key).Nodup
  /-- The last committed write to a secret stands. -/
  stored : s.tables.secretMap = standing (Server.secretHistory app actions)
  /-- The owner of a secret has asked for every write to it, and what is written is an
  encryption of the value that they sent. -/
  asked : ∀ write ∈ Server.secretHistory app actions, SecretWrite.AskedFor app actions write
  /-- A secret without a standing write is not found. -/
  missing : ∀ cipher ownerId ref,
    standing (Server.secretHistory app actions) (ownerId, ref) = none →
      dbSecret cipher (s.tables.secretRows ownerId) ref = .error (.notFound ref)
  /-- Whoever reads a secret for its owner is given the value of the standing write. -/
  provided : ∀ cipher, app.DecryptedBy cipher → ∀ ownerId ref ciphertext,
    standing (Server.secretHistory app actions) (ownerId, ref) = some ciphertext →
      ∃ id value nonce, .arrive (.api (some ownerId) (.setSecret id ref value nonce)) ∈ actions ∧
        app.encrypt nonce value = .ok ciphertext ∧
        dbSecret cipher (s.tables.secretRows ownerId) ref = .ok (PyText.ofString value)

/-- However requests interleave, the secrets at rest are those of the last committed
writes, and a run of their owner is given their values. -/
theorem secrets_at_rest (app : App) (actions : List ServerAction) (s : Server)
    (h : exec (Server.step app) Server.initial actions = some s) :
    SecretsAtRest app actions s := by
  have hdistinct := (Server.SecretsInv.of_exec h).distinct
  have hstored := Server.secretMap_of_exec h
  have hrows : ∀ ownerId ref, (s.tables.secretRows ownerId).get? ref =
      standing (Server.secretHistory app actions) (ownerId, ref) := by
    intro ownerId ref
    rw [Tables.get?_secretRows hdistinct.keys, hstored]
  constructor
  case unique => exact hdistinct.keys
  case stored => exact hstored
  case asked => exact fun write hwrite => Server.askedFor_of_history h hwrite
  case missing =>
    intro cipher ownerId ref hnone
    simp only [dbSecret, hrows, hnone]
  case provided =>
    intro cipher hdecrypts ownerId ref ciphertext hstanding
    have hkept : s.tables.secretMap (ownerId, ref) = some ciphertext := hstored ▸ hstanding
    rcases Server.sent_of_secretMap h hkept with ⟨id, value, nonce, harrived, htoken⟩
    refine ⟨id, value, nonce, harrived, htoken, ?_⟩
    exact dbSecret_encrypted hdecrypts ((hrows ownerId ref).trans hstanding) htoken

namespace Samples

/-- An application that stores its secrets as they are. -/
def openApp : App :=
  { app with cipher := ⟨fun ciphertext => .ok ciphertext.toUTF8.data.toList⟩ }

/-- Two requests of one user race for a new secret: both find none, and the second is
refused.  Then the secret is set once more. -/
def racingSecrets : List ServerAction :=
  request 0 (.register "first" "first@example.org" "password" "salt") ++
  [.arrive (.api (some "first") (.setSecret "one" "token" "old" "nonce")),
    .arrive (.api (some "first") (.setSecret "two" "token" "lost" "nonce")),
    .read 1, .read 2, .commit 1, .commit 2] ++
  request 3 (.api (some "first") (.setSecret "three" "token" "new" "nonce"))

end Samples

/-- Two requests race for a new secret, and what is set last is read. -/
theorem secrets_at_rest_racing :
    ∃ s, exec (Server.step Samples.openApp) Server.initial Samples.racingSecrets = some s ∧
      dbSecret Samples.openApp.cipher (s.tables.secretRows "first") "token" =
        .ok (PyText.ofString "new") ∧
      SecretsAtRest Samples.openApp Samples.racingSecrets s := by
  have hcheck : ((exec (Server.step Samples.openApp) Server.initial Samples.racingSecrets).isSome,
      standing (Server.secretHistory Samples.openApp Samples.racingSecrets) ("first", "token")) =
        (true, some "new") := by
    decide +kernel
  rw [Prod.mk.injEq] at hcheck
  rcases Option.isSome_iff_exists.mp hcheck.1 with ⟨s, hrun⟩
  have hrest := secrets_at_rest Samples.openApp Samples.racingSecrets s hrun
  have hdecrypts : Samples.openApp.DecryptedBy Samples.openApp.cipher := by
    intro nonce value ciphertext hcipher
    cases hcipher
    rfl
  rcases hrest.provided _ hdecrypts "first" "token" "new" hcheck.2 with
    ⟨id, value, nonce, _, hcipher, hvalue⟩
  cases hcipher
  exact ⟨s, hrun, hvalue, hrest⟩

end EtlTool
