import EtlTool.Core.FileIo
import EtlTool.Core.PathUpdates
import EtlTool.Core.Secrets
import EtlTool.Nodes.Base
import Mathlib.Data.List.Forall2

/-!
# The decrypt node

Field-level decryption: each record is copied, and in the copy the token at every listed
path is replaced by what it decrypts to.  Records are objects in memory, known by their
addresses, so that writing into a record can be told from writing into its copy.

Main results:

- Theorem {lit}`decryptRun_keeps`: no run writes into an object that was there before.
- Theorem {lit}`decryptRun_restores`: decryption undoes the encryption of the same fields,
  whatever their order.

Current gaps:

- The construction of a cipher from its key material, and the log events of the node.
- Objects that occur in a record more than once.
-/

namespace EtlTool

/-! ## Config -/

/-- {lit}`Algo`. -/
inductive CipherAlgo where
  | aesGcm
  | fernet
deriving DecidableEq

/-- {lit}`KeyEncoding`. -/
inductive KeyEncoding where
  | base64
  | hex
  | raw
deriving DecidableEq

/-- {lit}`TokenEncoding`. -/
inductive TokenEncoding where
  | base64
  | hex
deriving DecidableEq

/-- {lit}`DecryptConfig.output`. -/
inductive DecryptOutput where
  | text
  | json
  | bytesBase64
deriving DecidableEq

/-- {lit}`DecryptConfig.on_missing`. -/
inductive OnMissing where
  | error
  | skip
deriving DecidableEq

/-- {lit}`DecryptConfig`. -/
structure DecryptConfig where
  algo : CipherAlgo
  secretRef : String
  fields : List String
  keyEncoding : KeyEncoding := .base64
  tokenEncoding : TokenEncoding := .base64
  aad : Option String := none
  output : DecryptOutput := .text
  onMissing : OnMissing := .error
  fields_nonempty : fields ≠ []

/-- What the node calls. -/
structure DecryptLibraries where
  /-- {lit}`make_cipher(algo, key_material, key_encoding, token_encoding, aad)`. -/
  makeCipher : CipherAlgo → PyText → KeyEncoding → TokenEncoding → Option (List UInt8) →
    Except PyException Cipher
  /-- {lit}`json.loads(text)`. -/
  loads : String → Except PyException Value

/-! ## The node -/

/-- The record objects that exist, by their addresses. -/
abbrev RecordObjects := List Value

section

variable (rt : Runtime) (libs : DecryptLibraries) (cfg : DecryptConfig) (ctx : NodeContext)

/-- {lit}`ctx.error(ErrorCategory.DECRYPTION, message, details)` about a field of a record. -/
def fieldError (field : String) (index : Nat) (message : String) : Raised :=
  .node { ctx.error .decryption message with
    details := some (ctx.run.redactor.redactFields
      [("field", .str field), ("record_index", .int index)]) }

/-- {lit}`field 'f' in record i`. -/
def fieldInRecord (field : String) (index : Nat) : String :=
  "field " ++ rt.reprStr field ++ " in record " ++ toString index

/-- {lit}`_decrypt_value`. -/
def decryptValue (cipher : Cipher) (field : String) (token : Value) (index : Nat) :
    Except Raised Value :=
  match token with
  | .str token =>
      match cipher.decrypt token with
      | .error exc =>
          if exc.typeName = "CryptoError" then
            .error (fieldError ctx field index
              (fieldInRecord rt field index ++ ": " ++ exc.message))
          else .error (.other exc)
      | .ok plaintext =>
          if cfg.output = .bytesBase64 then .ok (.str (String.ofList (base64Bytes plaintext)))
          else
            match String.fromUTF8? plaintext.toByteArray with
            | none =>
                .error (fieldError ctx field index
                  (fieldInRecord rt field index ++ ": plaintext is not valid UTF-8 " ++
                    "(use output 'bytes_base64' for binary data)"))
            | some text =>
                if cfg.output = .json then
                  match libs.loads text with
                  | .ok value => .ok value
                  | .error exc =>
                      if exc.isValueError then
                        .error (fieldError ctx field index
                          (fieldInRecord rt field index ++
                            ": decrypted text is not valid JSON: " ++ exc.message))
                      else .error (.other exc)
                else .ok (.str text)
  | token =>
      .error (fieldError ctx field index
        (fieldInRecord rt field index ++ " is " ++ token.typeName ++
          ", not a string token to decrypt"))

/-- The exception of {lit}`set_path`. -/
def PathError.raised : PathError → Raised
  | .notFound message => .other ⟨"PathNotFoundError", some message⟩
  | .other exc => .other exc

/-- The loop over the fields of one record, for the copy at an address. -/
def decryptFields (cipher : Cipher) (index address : Nat) :
    List String → RecordObjects → RecordObjects × Except Raised Unit
  | [], objects => (objects, .ok ())
  | field :: rest, objects =>
      let newRecord := objects.getD address .none
      match rt.getPath? newRecord (splitPath field) with
      | .error exc => (objects, .error (.other exc))
      | .ok none =>
          if cfg.onMissing = .skip then decryptFields cipher index address rest objects
          else
            (objects, .error (fieldError ctx field index
              ("field " ++ rt.reprStr field ++ " is missing from record " ++ toString index)))
      | .ok (some token) =>
          match decryptValue rt libs cfg ctx cipher field token index with
          | .error raised => (objects, .error raised)
          | .ok value =>
              match rt.setPath newRecord (splitPath field) value with
              | .error error => (objects, .error error.raised)
              | .ok updated =>
                  decryptFields cipher index address rest (objects.set address updated)

/-- The loop over the records: the addresses of the new records. -/
def decryptRecords (cipher : Cipher) :
    Nat → List Nat → RecordObjects → RecordObjects × Except Raised (List Nat)
  | _, [], objects => (objects, .ok [])
  | index, record :: rest, objects =>
      -- the copy is a new object behind all others
      let address := objects.length
      let copied := objects ++ [objects.getD record .none]
      match decryptFields rt libs cfg ctx cipher index address cfg.fields copied with
      | (objects', .error raised) => (objects', .error raised)
      | (objects', .ok ()) =>
          match decryptRecords cipher (index + 1) rest objects' with
          | (objects'', .error raised) => (objects'', .error raised)
          | (objects'', .ok out) => (objects'', .ok (address :: out))

/-- {lit}`DecryptNode.run` on the records at some addresses. -/
def decryptRun (records : List Nat) (objects : RecordObjects) :
    RecordObjects × Except Raised (List Nat) :=
  match ctx.getSecret rt cfg.secretRef with
  | .error raised => (objects, .error raised)
  | .ok keyMaterial =>
      let aad := cfg.aad.map fun text => utf8Bytes text.toList
      match libs.makeCipher cfg.algo keyMaterial cfg.keyEncoding cfg.tokenEncoding aad with
      | .error exc =>
          if exc.typeName = "CryptoError" then
            (objects, .error (.node (ctx.error .decryption exc.message)))
          else (objects, .error (.other exc))
      | .ok cipher => decryptRecords rt libs cfg ctx cipher 0 records objects

end

/-! ## Encrypted records -/

/-- The text that a field leads to, with its location. -/
def Runtime.textAt? (rt : Runtime) (record : Value) (field : String) :
    Option (List PathStep × String) :=
  match rt.locate? record (splitPath field) with
  | none => none
  | some location =>
      match nestedValues.at? record location with
      | some (.str text) => some (location, text)
      | _ => none

/-- The tokens that replace the texts at the fields of a record. -/
def Runtime.tokenWrites (rt : Runtime) (token : String → String → String) (record : Value)
    (fields : List String) : List (List PathStep × Value) :=
  fields.filterMap fun field => (rt.textAt? record field).map fun found =>
    (found.1, .str (token field found.2))

/-- A record in which a token replaces each text at the fields. -/
def Runtime.encryptFields (rt : Runtime) (token : String → String → String)
    (fields : List String) (record : Value) : Value :=
  nestedValues.putAll record (rt.tokenWrites token record fields)

/-- Fields of which no two name one place of a record, or one a place inside the other, and
that hold texts where they are present. -/
structure Encryptable (rt : Runtime) (fields : List String) (record : Value) : Prop where
  apart : fields.Pairwise fun field field' => ∀ location location',
    rt.locate? record (splitPath field) = some location →
      rt.locate? record (splitPath field') = some location' → Apart location location'
  texts : ∀ field ∈ fields, ∀ value,
    rt.getPath? record (splitPath field) = .ok (some value) → ∃ text, value = .str text

/-- No segment of the fields looks like an index without being an integer. -/
def Runtime.IndicesParse (rt : Runtime) (fields : List String) : Prop :=
  ∀ field ∈ fields, ∀ segment ∈ splitPath field, looksLikeInt segment = true →
    (rt.pyInt? segment).isSome = true

section

variable {rt : Runtime} {record : Value} {field : String} {fields : List String}
variable {token : String → String → String}

private theorem textAt?_eq_some_iff {location : List PathStep} {text : String} :
    rt.textAt? record field = some (location, text) ↔
      rt.locate? record (splitPath field) = some location ∧
        nestedValues.at? record location = some (.str text) := by
  unfold Runtime.textAt?
  cases rt.locate? record (splitPath field) with
  | none => simp
  | some found =>
      simp only [Option.some.injEq]
      constructor
      · intro h
        split at h
        · rename_i text' hat
          cases h
          exact ⟨rfl, hat⟩
        · cases h
      · rintro ⟨rfl, hat⟩
        rw [hat]

private theorem tokenWrites_cons (rest : List String) :
    rt.tokenWrites token record (field :: rest) =
      match rt.textAt? record field with
      | none => rt.tokenWrites token record rest
      | some found =>
          (found.1, .str (token field found.2)) :: rt.tokenWrites token record rest := by
  unfold Runtime.tokenWrites
  rw [List.filterMap_cons]
  cases rt.textAt? record field <;> rfl

private theorem mem_tokenWrites {write : List PathStep × Value}
    (h : write ∈ rt.tokenWrites token record fields) :
    ∃ field ∈ fields, ∃ text, rt.textAt? record field = some (write.1, text) ∧
      write.2 = .str (token field text) := by
  rcases List.mem_filterMap.mp h with ⟨field, hfield, hwrite⟩
  rcases Option.map_eq_some_iff.mp hwrite with ⟨⟨location, text⟩, hfound, rfl⟩
  exact ⟨field, hfield, text, hfound, rfl⟩

private theorem Encryptable.writesApart (h : Encryptable rt fields record) :
    NestedValues.WritesApart nestedValues record (rt.tokenWrites token record fields) where
  apart := by
    refine h.apart.filterMap _ ?_
    intro field field' happart write hwrite write' hwrite'
    rcases Option.map_eq_some_iff.mp hwrite with ⟨⟨location, text⟩, hfound, rfl⟩
    rcases Option.map_eq_some_iff.mp hwrite' with ⟨⟨location', text'⟩, hfound', rfl⟩
    exact happart _ _ (textAt?_eq_some_iff.mp hfound).1 (textAt?_eq_some_iff.mp hfound').1
  present := by
    intro write hwrite
    rcases mem_tokenWrites hwrite with ⟨_, _, text, hfound, _⟩
    exact ⟨_, (textAt?_eq_some_iff.mp hfound).2⟩

/-- A record stays encryptable without the first path. -/
theorem Encryptable.tail {rest : List String} (h : Encryptable rt (field :: rest) record) :
    Encryptable rt rest record where
  apart := h.apart.of_cons
  texts := (List.forall_mem_cons.mp h.texts).2

/-- The order of the paths does not matter. -/
theorem Encryptable.perm {fields' : List String} (hperm : fields.Perm fields')
    (h : Encryptable rt fields record) : Encryptable rt fields' record where
  apart := by
    refine (hperm.pairwise_iff ?_).mp h.apart
    intro field field' happart location location' hlocation hlocation'
    exact (happart _ _ hlocation' hlocation).symm
  texts := fun field hfield => h.texts field (hperm.mem_iff.mpr hfield)

/-- The order of the fields does not matter for their encryption. -/
theorem encryptFields_perm {fields' : List String} (hperm : fields.Perm fields')
    (h : Encryptable rt fields record) :
    rt.encryptFields token fields record = rt.encryptFields token fields' record :=
  NestedValues.putAll_perm (hperm.filterMap _) h.writesApart

/-- Tokens in place of texts do not move any location. -/
theorem locate?_encryptFields (h : Encryptable rt fields record) (segments : List String) :
    rt.locate? (rt.encryptFields token fields record) segments = rt.locate? record segments := by
  induction fields with
  | nil => rfl
  | cons field rest ih =>
      have hrest := ih h.tail
      have happart : NestedValues.WritesApart nestedValues record
          (rt.tokenWrites token record (field :: rest)) := h.writesApart
      unfold Runtime.encryptFields at hrest ⊢
      rw [tokenWrites_cons] at happart ⊢
      cases hfound : rt.textAt? record field with
      | none => exact hrest
      | some found =>
          rw [hfound] at happart
          rcases found with ⟨location, text⟩
          have hat : nestedValues.at? (nestedValues.putAll record
              (rt.tokenWrites token record rest)) location = some (.str text) := by
            rw [NestedValues.at?_putAll_of_apart fun write hwrite =>
              ((List.pairwise_cons.mp happart.apart).1 write hwrite).symm]
            exact (textAt?_eq_some_iff.mp hfound).2
          exact (locate?_put_str hat _ segments).trans hrest

variable (token) in
/-- The first token is written over the text that is there in a record in which the others
are written already. -/
theorem encryptFields_cons {rest : List String} (h : Encryptable rt (field :: rest) record)
    {location : List PathStep} {text : String}
    (hfound : rt.textAt? record field = some (location, text)) :
    rt.encryptFields token (field :: rest) record = nestedValues.put
        (rt.encryptFields token rest record) location (.str (token field text)) ∧
      nestedValues.at? (rt.encryptFields token rest record) location = some (.str text) := by
  have happart : NestedValues.WritesApart nestedValues record
      (rt.tokenWrites token record (field :: rest)) := h.writesApart
  unfold Runtime.encryptFields
  rw [tokenWrites_cons, hfound] at happart ⊢
  refine ⟨rfl, ?_⟩
  rw [NestedValues.at?_putAll_of_apart fun write hwrite =>
    ((List.pairwise_cons.mp happart.apart).1 write hwrite).symm]
  exact (textAt?_eq_some_iff.mp hfound).2

private theorem encryptFields_cons_absent {rest : List String}
    (hfound : rt.textAt? record field = none) :
    rt.encryptFields token (field :: rest) record = rt.encryptFields token rest record := by
  unfold Runtime.encryptFields
  rw [tokenWrites_cons, hfound]

end

/-! ## Decryption of one record -/

section

variable {rt : Runtime}

/-- A lookup in terms of locations. -/
theorem getPath?_eq_at? {obj : Value} {segments : List String}
    (h : ¬ rt.MeetsBadIndex obj segments) :
    rt.getPath? obj segments =
      .ok ((rt.locate? obj segments).bind (nestedValues.at? obj)) := by
  rw [← getPath?_error_iff] at h
  have hfound : ∀ value, rt.getPath? obj segments = .ok (some value) ↔
      (rt.locate? obj segments).bind (nestedValues.at? obj) = some value := by
    intro value
    have hget : rt.getPath? obj segments = .ok (some value) ↔
        rt.getPath obj segments = .ok value := by
      rw [getPath?_eq]
      cases rt.getPath obj segments with
      | ok found => simp
      | error failure => cases failure <;> simp
    rw [hget, getPath_ok_iff, reaches_iff_locate, Option.bind_eq_some_iff]
  cases hlookup : rt.getPath? obj segments with
  | error exc => exact absurd ⟨exc, hlookup⟩ h
  | ok found =>
      rw [Except.ok.injEq]
      apply Option.ext
      intro value
      rw [← hfound value, hlookup]
      simp

variable {libs : DecryptLibraries} {cfg : DecryptConfig} {ctx : NodeContext} {cipher : Cipher}

/-- The bytes of a text are read back as the text. -/
theorem fromUTF8?_utf8Bytes (text : String) :
    String.fromUTF8? (utf8Bytes text.toList).toByteArray = some text := by
  have hbytes : (utf8Bytes text.toList).toByteArray = text.toByteArray :=
    String.utf8Encode_toList
  rw [hbytes, String.fromUTF8?, dif_pos text.isValidUTF8]
  rfl

/-- The token of a text decrypts to the text. -/
theorem decryptValue_of_token (houtput : cfg.output = .text) {secret text : String}
    (h : cipher.decrypt secret = .ok (utf8Bytes text.toList)) (field : String) (index : Nat) :
    decryptValue rt libs cfg ctx cipher field (.str secret) index = .ok (.str text) := by
  simp [decryptValue, h, houtput, fromUTF8?_utf8Bytes]

/-- A text that a field leads to keeps the field from naming the record itself. -/
theorem splitPath_ne_nil_of_textAt? {original : Fields} {field : String}
    {found : List PathStep × String} (h : rt.textAt? (.dict original) field = some found) :
    splitPath field ≠ [] := by
  intro hnil
  rcases found with ⟨location, text⟩
  rcases textAt?_eq_some_iff.mp h with ⟨hlocate, hat⟩
  rw [hnil] at hlocate
  cases hlocate
  cases hat

/-- Fields that lead to no text lead nowhere. -/
theorem Encryptable.locate?_eq_none {record : Value} {fields : List String} {field : String}
    (h : Encryptable rt fields record) (hfield : field ∈ fields)
    (hindices : ¬ rt.MeetsBadIndex record (splitPath field))
    (hfound : rt.textAt? record field = none) :
    rt.locate? record (splitPath field) = none := by
  cases hlocate : rt.locate? record (splitPath field) with
  | none => rfl
  | some location =>
      rcases at?_of_locate? hlocate with ⟨value, hat⟩
      have hlookup := getPath?_eq_at? hindices
      rw [hlocate, Option.bind_some, hat] at hlookup
      rcases h.texts field hfield value hlookup with ⟨text, rfl⟩
      rw [textAt?_eq_some_iff.mpr ⟨hlocate, hat⟩] at hfound
      cases hfound

/-- The loop over the fields restores a record: what is still to come of it stands in the
record as tokens. -/
theorem decryptFields_restores {token : String → String → String}
    (htoken : ∀ field text, cipher.decrypt (token field text) = .ok (utf8Bytes text.toList))
    (houtput : cfg.output = .text) (hskip : cfg.onMissing = .skip) {original : Fields}
    {fields : List String} (hindices : rt.IndicesParse fields)
    (hfields : Encryptable rt fields (.dict original)) (index address : Nat) :
    ∀ {objects : RecordObjects},
      objects[address]? = some (rt.encryptFields token fields (.dict original)) →
        decryptFields rt libs cfg ctx cipher index address fields objects =
          (objects.set address (.dict original), .ok ()) := by
  induction fields with
  | nil =>
      intro objects hobject
      rcases List.getElem?_eq_some_iff.mp hobject with ⟨hrange, hat⟩
      have hsame : objects.set address (.dict original) = objects := by
        change objects[address] = .dict original at hat
        rw [← hat, List.set_getElem_self]
      rw [decryptFields, hsame]
  | cons field rest ih =>
      intro objects hobject
      rcases List.forall_mem_cons.mp hindices with ⟨hsegments, hrest⟩
      have hget : objects.getD address .none =
          rt.encryptFields token (field :: rest) (.dict original) := by
        rw [List.getD_eq_getElem?_getD, hobject, Option.getD_some]
      have hbad : ∀ obj, ¬ rt.MeetsBadIndex obj (splitPath field) :=
        not_meetsBadIndex hsegments
      have hlookup := getPath?_eq_at? (hbad (rt.encryptFields token (field :: rest)
        (.dict original)))
      rw [locate?_encryptFields hfields] at hlookup
      rw [decryptFields, hget, hlookup]
      cases hfound : rt.textAt? (.dict original) field with
      | none =>
          rw [hfields.locate?_eq_none List.mem_cons_self (hbad _) hfound]
          rw [encryptFields_cons_absent hfound] at hobject
          simp only [Option.bind_none, hskip, if_true]
          exact ih hrest hfields.tail hobject
      | some found =>
          rcases found with ⟨location, text⟩
          have hlocate := (textAt?_eq_some_iff.mp hfound).1
          rcases encryptFields_cons token hfields hfound with ⟨heq, hat⟩
          have hself : nestedValues.at? (rt.encryptFields token (field :: rest) (.dict original))
              location = some (.str (token field text)) := by
            rw [heq]
            exact NestedValues.at?_put_self hat _
          have hset : rt.setPath (rt.encryptFields token (field :: rest) (.dict original))
              (splitPath field) (.str text) = .ok (rt.encryptFields token rest (.dict original)) := by
            rw [setPath_of_locate (splitPath_ne_nil_of_textAt? hfound)
              ((locate?_encryptFields hfields _).trans hlocate), heq, NestedValues.put_put hat,
              NestedValues.put_at? hat]
          have hrange : address < objects.length := (List.getElem?_eq_some_iff.mp hobject).1
          rw [hlocate, Option.bind_some, hself]
          simp only [decryptValue_of_token houtput (htoken field text), hset]
          rw [ih hrest hfields.tail (List.getElem?_set_self hrange), List.set_set]

end

/-! ## Whole runs -/

section

variable (rt : Runtime) (libs : DecryptLibraries) (cfg : DecryptConfig) (ctx : NodeContext)

section

variable (cipher : Cipher)

/-- The loop over the fields writes into one object only. -/
theorem decryptFields_writes (index address : Nat) (fields : List String) :
    ∀ objects : RecordObjects, address < objects.length →
      ∃ v, (decryptFields rt libs cfg ctx cipher index address fields objects).1 =
        objects.set address v := by
  induction fields with
  | nil =>
      intro objects hrange
      exact ⟨objects[address], (List.set_getElem_self hrange).symm⟩
  | cons field rest ih =>
      intro objects hrange
      have hstay : ∃ v, objects = objects.set address v :=
        ⟨objects[address], (List.set_getElem_self hrange).symm⟩
      rw [decryptFields]
      split
      · exact hstay
      · split
        · exact ih objects hrange
        · exact hstay
      · split
        · exact hstay
        · split
          · exact hstay
          · rename_i updated _
            have hrange' : address < (objects.set address updated).length := by
              rw [List.length_set]
              exact hrange
            rcases ih _ hrange' with ⟨v, hv⟩
            exact ⟨v, hv.trans (List.set_set ..)⟩

/-- The loop over the fields of a new object leaves the others as they are. -/
theorem decryptFields_copied (index : Nat) (fields : List String) (objects : RecordObjects)
    (copied : Value) : ∃ v, (decryptFields rt libs cfg ctx cipher index objects.length fields
      (objects ++ [copied])).1 = objects ++ [v] := by
  have hrange : objects.length < (objects ++ [copied]).length := by
    rw [List.length_append, List.length_singleton]
    omega
  rcases decryptFields_writes rt libs cfg ctx cipher index objects.length fields _ hrange with ⟨v, hv⟩
  exact ⟨v, hv.trans (by simp)⟩

/-- The loop over the records only adds objects. -/
theorem decryptRecords_keeps (records : List Nat) :
    ∀ (index : Nat) (objects : RecordObjects),
      objects <+: (decryptRecords rt libs cfg ctx cipher index records objects).1 := by
  induction records with
  | nil =>
      intro index objects
      exact List.prefix_rfl
  | cons record rest ih =>
      intro index objects
      rcases decryptFields_copied rt libs cfg ctx cipher index cfg.fields objects
        (objects.getD record .none) with ⟨v, hv⟩
      rw [decryptRecords]
      cases hloop : decryptFields rt libs cfg ctx cipher index objects.length cfg.fields
          (objects ++ [objects.getD record .none]) with
      | mk objects' outcome =>
          rw [hloop] at hv
          change objects' = objects ++ [v] at hv
          have hadds : objects <+: objects' := hv ▸ List.prefix_append objects [v]
          cases outcome with
          | error raised => exact hadds
          | ok _ =>
              have hrest := hadds.trans (ih (index + 1) objects')
              dsimp only
              cases hothers : decryptRecords rt libs cfg ctx cipher (index + 1) rest objects' with
              | mk objects'' outcome' =>
                  rw [hothers] at hrest
                  cases outcome' with
                  | error raised => exact hrest
                  | ok out => exact hrest

end

/-- No run writes into an object that was there before, whether or not it fails. -/
theorem decryptRun_keeps (records : List Nat) (objects : RecordObjects) :
    objects <+: (decryptRun rt libs cfg ctx records objects).1 := by
  unfold decryptRun
  split
  · exact List.prefix_rfl
  · dsimp only
    split
    · split <;> exact List.prefix_rfl
    · exact decryptRecords_keeps rt libs cfg ctx _ records 0 objects

/-- The object at an address is the original record, with a token of its UTF-8 bytes in
place of each text at the fields. -/
def HoldsEncrypted {Nonce : Type} (rt : Runtime) (encrypt : Nonce → List UInt8 → String)
    (fields : List String) (objects : RecordObjects) (original : Fields) (record : Nat) : Prop :=
  ∃ nonce : String → Nonce, objects[record]? = some (rt.encryptFields
    (fun field text => encrypt (nonce field) (utf8Bytes text.toList)) fields (.dict original))

section

variable {rt cfg}
variable {cipher : Cipher} {Nonce : Type} {encrypt : Nonce → List UInt8 → String}

/-- Objects that are there stay at their addresses when others are added. -/
theorem object_of_prefix {objects objects' : RecordObjects} (hadds : objects <+: objects')
    {address : Nat} {v : Value} (h : objects[address]? = some v) :
    objects'[address]? = some v := by
  rcases hadds with ⟨more, rfl⟩
  rw [List.getElem?_append_left (List.getElem?_eq_some_iff.mp h).1, h]

/-- New objects leave an encrypted record what it was. -/
theorem HoldsEncrypted.mono {fields : List String} {objects objects' : RecordObjects}
    {original : Fields} {record : Nat} (hadds : objects <+: objects')
    (h : HoldsEncrypted rt encrypt fields objects original record) :
    HoldsEncrypted rt encrypt fields objects' original record := by
  rcases h with ⟨nonce, hobject⟩
  exact ⟨nonce, object_of_prefix hadds hobject⟩

/-- Decrypting the records one after another restores each of them. -/
theorem decryptRecords_restores
    (hcipher : ∀ nonce bytes, cipher.decrypt (encrypt nonce bytes) = .ok bytes)
    (houtput : cfg.output = .text) (hskip : cfg.onMissing = .skip)
    (hindices : rt.IndicesParse cfg.fields) {originals : Records}
    (hfields : ∀ original ∈ originals, Encryptable rt cfg.fields (.dict original)) :
    ∀ {records : List Nat} {objects : RecordObjects} (index : Nat),
      List.Forall₂ (HoldsEncrypted rt encrypt cfg.fields objects) originals records →
        ∃ objects' out, decryptRecords rt libs cfg ctx cipher index records objects =
            (objects', .ok out) ∧
          out.map (objects'[·]?) = originals.map fun original => some (.dict original) := by
  induction originals with
  | nil =>
      intro records objects index hstored
      cases hstored
      exact ⟨objects, [], rfl, rfl⟩
  | cons original rest ih =>
      intro records objects index hstored
      rcases List.forall₂_cons_left_iff.mp hstored with
        ⟨record, others, ⟨nonce, hobject⟩, hothers, rfl⟩
      rcases List.forall_mem_cons.mp hfields with ⟨horiginal, hrest⟩
      have hcopied : (objects ++ [objects.getD record .none])[objects.length]? =
          some (rt.encryptFields (fun field text => encrypt (nonce field)
            (utf8Bytes text.toList)) cfg.fields (.dict original)) := by
        rw [List.getElem?_concat_length, List.getD_eq_getElem?_getD, hobject, Option.getD_some]
      have hwritten : (objects ++ [objects.getD record .none]).set objects.length
          (.dict original) = objects ++ [.dict original] := by simp
      have hloop : decryptFields rt libs cfg ctx cipher index objects.length cfg.fields
          (objects ++ [objects.getD record .none]) = (objects ++ [.dict original], .ok ()) := by
        rw [← hwritten]
        exact decryptFields_restores (fun field text => hcipher (nonce field) _) houtput hskip
          hindices horiginal index objects.length hcopied
      have hadds := List.prefix_append objects [Value.dict original]
      rcases ih hrest (index + 1) (hothers.imp fun _ _ h => h.mono hadds) with
        ⟨objects', out, hrun, hout⟩
      have hkeeps := decryptRecords_keeps rt libs cfg ctx cipher others (index + 1)
        (objects ++ [.dict original])
      rw [hrun] at hkeeps
      refine ⟨objects', objects.length :: out, ?_, ?_⟩
      · rw [decryptRecords]
        simp only [hloop, hrun]
      · have hat : objects'[objects.length]? = some (.dict original) :=
          object_of_prefix hkeeps List.getElem?_concat_length
        rw [List.map_cons, List.map_cons, hat, hout]

end

/-- Decryption undoes the encryption of the same fields, whatever their order: the new
objects are the original records, and the objects of the encrypted ones stay as they are. -/
theorem decryptRun_restores {Nonce : Type} (encrypt : Nonce → List UInt8 → String)
    (cipher : Cipher) (hcipher : ∀ nonce bytes, cipher.decrypt (encrypt nonce bytes) = .ok bytes)
    (keyMaterial : PyText) (hsecret : ctx.getSecret rt cfg.secretRef = .ok keyMaterial)
    (hmake : libs.makeCipher cfg.algo keyMaterial cfg.keyEncoding cfg.tokenEncoding
      (cfg.aad.map fun text => utf8Bytes text.toList) = .ok cipher)
    (houtput : cfg.output = .text) (hskip : cfg.onMissing = .skip) (fields : List String)
    (horder : fields.Perm cfg.fields) (hindices : rt.IndicesParse fields) (originals : Records)
    (hfields : ∀ original ∈ originals, Encryptable rt fields (.dict original))
    (records : List Nat) (objects : RecordObjects)
    (hstored : List.Forall₂ (HoldsEncrypted rt encrypt fields objects) originals records) :
    ∃ objects' out, decryptRun rt libs cfg ctx records objects = (objects', .ok out) ∧
      out.map (objects'[·]?) = originals.map (fun original => some (.dict original)) ∧
        objects <+: objects' := by
  have hindices' : rt.IndicesParse cfg.fields :=
    fun field hfield => hindices field (horder.mem_iff.mpr hfield)
  have hfields' : ∀ original ∈ originals, Encryptable rt cfg.fields (.dict original) :=
    fun original horiginal => (hfields original horiginal).perm horder
  have hstored' : List.Forall₂ (HoldsEncrypted rt encrypt cfg.fields objects) originals
      records := by
    refine ((List.forall₂_and_left originals records).mpr ⟨hfields, hstored⟩).imp ?_
    rintro original record ⟨hfield, nonce, hobject⟩
    rw [encryptFields_perm horder hfield] at hobject
    exact ⟨nonce, hobject⟩
  rcases decryptRecords_restores libs ctx hcipher houtput hskip hindices'
    hfields' 0 hstored' with ⟨objects', out, hrecords, hout⟩
  have hrun : decryptRun rt libs cfg ctx records objects = (objects', .ok out) := by
    simp only [decryptRun, hsecret, hmake, hrecords]
  have hkeeps := decryptRun_keeps rt libs cfg ctx records objects
  rw [hrun] at hkeeps
  exact ⟨objects', out, hrun, hout, hkeeps⟩

end

namespace DecryptSamples

/-- A cipher whose tokens are the nonce and the bytes. -/
def plainToken (nonce : Char) (bytes : List UInt8) : String :=
  String.ofList (nonce :: bytes.map fun byte => Char.ofNat byte.toNat)

/-- The inverse of {lit}`plainToken`. -/
def plainCipher : Cipher where
  decrypt := fun token =>
    match token.toList with
    | [] => .error ⟨"CryptoError", some "token too short"⟩
    | _ :: rest => .ok (rest.map fun c => c.toNat.toUInt8)

private theorem decrypt_plainToken (nonce : Char) (bytes : List UInt8) :
    plainCipher.decrypt (plainToken nonce bytes) = .ok bytes := by
  have hbyte : ∀ byte : UInt8, (Char.ofNat byte.toNat).toNat.toUInt8 = byte := by
    intro byte
    have hsmall := byte.toNat_lt
    have hvalid : byte.toNat.isValidChar := by
      unfold Nat.isValidChar
      omega
    have hnat : (Char.ofNat byte.toNat).toNat = byte.toNat := by
      rw [Char.ofNat, dif_pos hvalid]
      rfl
    rw [hnat]
    exact UInt8.ofNat_toNat
  simp [plainCipher, plainToken, Function.comp_def, hbyte]

/-- Libraries that make this cipher of any key. -/
def libraries : DecryptLibraries where
  makeCipher := fun _ _ _ _ _ => .ok plainCipher
  loads := fun _ => .ok .none

/-- A context with the key. -/
def decryptContext : NodeContext where
  run := {
    secrets := .singleton "KEY" (PyText.ofString "key")
    options := { maxConcurrency := 1, continueOnError := false, maxConcurrency_pos := by decide }
    redactor := ⟨[]⟩ }
  nodeId := "decrypt"
  nodeType := "decrypt"
  iterCtx := none

/-- Two fields of a record, and one that it does not have. -/
def decryptConfig : DecryptConfig where
  algo := .fernet
  secretRef := "KEY"
  fields := ["tags.-1", "absent", "user.ssn"]
  onMissing := .skip
  fields_nonempty := by decide

/-- The same fields in another order. -/
def encryptedFields : List String :=
  ["user.ssn", "tags.-1", "absent"]

/-- A record with texts at two of the fields. -/
def customer : Fields :=
  [("user", .dict [("ssn", .str "111")]), ("tags", .list [.str "a", .str "b"])]

/-- The record with tokens in place of the texts. -/
def encryptedCustomer : Value :=
  Samples.runtime.encryptFields (fun _ text => plainToken 'n' (utf8Bytes text.toList))
    encryptedFields (.dict customer)

/-- The paths of the sample record are encryptable. -/
theorem customer_encryptable :
    Encryptable Samples.runtime encryptedFields (.dict customer) where
  apart := by
    have hssn : Samples.runtime.locate? (.dict customer) (splitPath "user.ssn") =
        some [.key "user", .key "ssn"] := by decide
    have htag : Samples.runtime.locate? (.dict customer) (splitPath "tags.-1") =
        some [.key "tags", .position 1] := by decide
    have habsent : Samples.runtime.locate? (.dict customer) (splitPath "absent") = none := by
      decide
    simp [encryptedFields, hssn, htag, habsent, Apart]
  texts := by
    intro field hfield value hvalue
    have hssn : Samples.runtime.getPath? (.dict customer) (splitPath "user.ssn") =
        .ok (some (.str "111")) := by decide
    have htag : Samples.runtime.getPath? (.dict customer) (splitPath "tags.-1") =
        .ok (some (.str "b")) := by decide
    have habsent : Samples.runtime.getPath? (.dict customer) (splitPath "absent") = .ok none := by
      decide
    simp only [encryptedFields, List.mem_cons, List.not_mem_nil, or_false] at hfield
    rcases hfield with rfl | rfl | rfl
    · rw [hssn] at hvalue
      cases hvalue
      exact ⟨_, rfl⟩
    · rw [htag] at hvalue
      cases hvalue
      exact ⟨_, rfl⟩
    · rw [habsent] at hvalue
      cases hvalue

end DecryptSamples

open DecryptSamples

/-- A record encrypted in one order of the fields and decrypted in another. -/
theorem decryptRun_restores_customer :
    ∃ objects' out, decryptRun Samples.runtime libraries decryptConfig decryptContext [0]
        [encryptedCustomer] = (objects', .ok out) ∧
      out.map (objects'[·]?) = [customer].map (fun original => some (.dict original)) ∧
        [encryptedCustomer] <+: objects' :=
  decryptRun_restores Samples.runtime libraries decryptConfig decryptContext plainToken plainCipher
    decrypt_plainToken (PyText.ofString "key") rfl rfl rfl rfl encryptedFields (by decide)
    (by unfold Runtime.IndicesParse; decide) [customer]
    (List.forall_mem_singleton.mpr customer_encryptable) [0] [encryptedCustomer]
    (.cons ⟨fun _ => 'n', rfl⟩ .nil)

end EtlTool
