import EtlTool.Core.RedactionComplete
import EtlTool.Foundations.OrderedDict

/-!
# Credentials on the wire

What {lit}`apply_auth` puts into the headers and the query of a request, and whether
the redactor of the run recognises it in a text that echoes the request.  The redactor
knows the Base64 form of the bare secret; with a username the header holds the Base64
text of {lit}`username:secret`, in which that form is shifted unless the bytes of
{lit}`username:` come in groups of three.

Main results:

- Theorem {lit}`redacts_iff`: which texts a redactor removes wherever they occur.
- Theorem {lit}`credentials_redacted_iff`: the credential of a request is removed from
  every text if and only if it is not sent with a username or a form of the secret
  happens to occur in the header.
- Theorem {lit}`base64Bytes_append`, {lit}`credential_redacted_of_aligned`: an aligned
  username is such a case.
- Theorem {lit}`credentials_not_redacted`: a username of four letters is none.
-/

namespace EtlTool

/-! ## Authentication -/

/-- {lit}`AuthConfig.type`. -/
inductive AuthType where
  | bearer
  | apiKey
  | basic
deriving DecidableEq

/-- {lit}`AuthConfig.location`. -/
inductive AuthLocation where
  | header
  | query
deriving DecidableEq

/-- {lit}`AuthConfig`. -/
structure AuthConfig where
  type : AuthType
  secretRef : String
  name : String := "X-API-Key"
  location : AuthLocation := .header
  username : Option String := none

/-- Headers or query parameters. -/
abbrev WireValues := OrderedDict String PyText

/-- {lit}`base64.b64encode(text.encode()).decode()`. -/
def b64encode (text : PyText) : Except PyException PyText :=
  match text.scalars? with
  | none => .error surrogateEncodeError
  | some scalars => .ok ((base64Encode scalars).map .scalar)

/-- What basic authentication encodes. -/
def AuthConfig.userpass (auth : AuthConfig) (secretValue : PyText) : PyText :=
  match auth.username with
  | some username => PyText.ofString username ++ PyText.ofString ":" ++ secretValue
  | none => secretValue

/-- {lit}`apply_auth`: the headers and the query parameters. -/
def applyAuth (auth : AuthConfig) (secretValue : PyText) :
    Except PyException (WireValues × WireValues) :=
  match auth.type with
  | .bearer => .ok (.singleton "Authorization" (PyText.ofString "Bearer " ++ secretValue), .empty)
  | .apiKey =>
      match auth.location with
      | .header => .ok (.singleton auth.name secretValue, .empty)
      | .query => .ok (.empty, .singleton auth.name secretValue)
  | .basic =>
      match b64encode (auth.userpass secretValue) with
      | .error exc => .error exc
      | .ok encoded =>
          .ok (.singleton "Authorization" (PyText.ofString "Basic " ++ encoded), .empty)

/-! ## What a redactor removes -/

/-- A value is removed from every text in which it occurs. -/
def Redactor.Removes (redactor : Redactor) (value : PyText) : Prop :=
  ∀ text : String, value <:+: PyText.ofString text →
    ¬ value <:+: PyText.ofString (redactor.redact text)

private theorem infix_ofString_iff {scalars : List Char} {text : String} :
    scalars.map CodePoint.scalar <:+: PyText.ofString text ↔ scalars <:+: text.toList := by
  constructor
  · rintro ⟨before, after, htext⟩
    rcases List.map_eq_append_iff.mp htext.symm with ⟨front, back, heq, hfront, _⟩
    rcases List.map_eq_append_iff.mp hfront with ⟨first, middle, hsplit, _, hmiddle⟩
    have hsame := List.map_injective_iff.mpr CodePoint.scalar_injective hmiddle
    rw [heq, hsplit, hsame]
    exact ⟨first, back, rfl⟩
  · exact fun h => h.map CodePoint.scalar

/-- A redactor removes exactly the values that contain one of its variants. -/
theorem redacts_iff {redactor : Redactor} (h : redactor.Apart) (scalars : List Char) :
    redactor.Removes (scalars.map .scalar) ↔ ∃ form ∈ redactor.values, form <:+: scalars := by
  constructor
  · intro hremoves
    by_contra hnone
    rw [not_exists] at hnone
    have hsame : redactor.redact (String.ofList scalars) = String.ofList scalars := by
      refine redact_of_absent h fun value hvalue hinside => hnone value ⟨hvalue, ?_⟩
      rwa [String.toList_ofList] at hinside
    have hself : scalars.map CodePoint.scalar <:+: PyText.ofString (String.ofList scalars) := by
      rw [infix_ofString_iff, String.toList_ofList]
    refine hremoves (String.ofList scalars) hself ?_
    rw [hsame]
    exact hself
  · rintro ⟨form, hform, hinside⟩ text _ hleft
    rw [infix_ofString_iff] at hleft
    exact redact_removes h text form hform (hinside.trans hleft)

/-! ## Which credentials are removed -/

/-- The values that a request carries. -/
def wireValues (wire : WireValues × WireValues) : List PyText :=
  wire.1.values ++ wire.2.values

/-- Without a username the header shows the secret in one of its forms; with one it
does if such a form happens to occur. -/
def AuthConfig.ShowsForm (auth : AuthConfig) (secret : List Char) : Prop :=
  auth.type = .basic → ∀ username, auth.username = some username →
    ∃ form ∈ secretForms secret,
      form <:+: "Basic ".toList ++ base64Encode (username.toList ++ ":".toList ++ secret)

private theorem scalars?_map_scalar (scalars : List Char) :
    PyText.scalars? (scalars.map .scalar) = some scalars := by
  induction scalars with
  | nil => rfl
  | cons c rest ih => simp [PyText.scalars?, ih]

theorem eq_map_of_scalars? {text : PyText} {scalars : List Char}
    (h : text.scalars? = some scalars) : text = scalars.map .scalar := by
  induction text generalizing scalars with
  | nil =>
      cases h
      rfl
  | cons point rest ih =>
      cases point with
      | surrogate _ => cases h
      | scalar c =>
          rcases Option.map_eq_some_iff.mp h with ⟨tail, htail, rfl⟩
          rw [List.map_cons, ih htail]

/-- The text that is sent for a secret. -/
def AuthConfig.wireText (auth : AuthConfig) (secret : List Char) : List Char :=
  match auth.type, auth.username with
  | .bearer, _ => "Bearer ".toList ++ secret
  | .apiKey, _ => secret
  | .basic, none => "Basic ".toList ++ base64Encode secret
  | .basic, some username =>
      "Basic ".toList ++ base64Encode (username.toList ++ ":".toList ++ secret)

/-- Of a secret without lone surrogates one value is sent. -/
theorem applyAuth_wireText (auth : AuthConfig) (secret : List Char) :
    ∃ wire, applyAuth auth (secret.map .scalar) = .ok wire ∧
      wireValues wire = [(auth.wireText secret).map .scalar] := by
  unfold applyAuth AuthConfig.wireText
  cases auth.type with
  | bearer =>
      refine ⟨_, rfl, ?_⟩
      simp [wireValues, OrderedDict.values, OrderedDict.singleton, OrderedDict.empty,
        PyText.ofString]
  | apiKey =>
      cases auth.location with
      | header => exact ⟨_, rfl, rfl⟩
      | query => exact ⟨_, rfl, rfl⟩
  | basic =>
      cases husername : auth.username with
      | none =>
          have huserpass : auth.userpass (secret.map .scalar) = secret.map .scalar := by
            simp [AuthConfig.userpass, husername]
          rw [huserpass, b64encode, scalars?_map_scalar]
          refine ⟨_, rfl, ?_⟩
          simp [wireValues, OrderedDict.values, OrderedDict.singleton, OrderedDict.empty,
            PyText.ofString]
      | some username =>
          have huserpass : auth.userpass (secret.map .scalar) =
              (username.toList ++ ":".toList ++ secret).map .scalar := by
            simp [AuthConfig.userpass, husername, PyText.ofString]
          rw [huserpass, b64encode, scalars?_map_scalar]
          refine ⟨_, rfl, ?_⟩
          simp [wireValues, OrderedDict.values, OrderedDict.singleton, OrderedDict.empty,
            PyText.ofString]

/-- The text that is sent contains a form of the secret, unless a username shifts its
Base64 form. -/
theorem wireText_shows_iff (auth : AuthConfig) (secret : List Char) :
    (∃ form ∈ secretForms secret, form <:+: auth.wireText secret) ↔ auth.ShowsForm secret := by
  have hself : secret ∈ secretForms secret := List.mem_cons_self
  have hencoded : base64Encode secret ∈ secretForms secret := by simp [secretForms]
  unfold AuthConfig.ShowsForm AuthConfig.wireText
  cases auth.type with
  | bearer =>
      exact iff_of_true ⟨secret, hself, (List.suffix_append _ _).isInfix⟩ (by simp)
  | apiKey => exact iff_of_true ⟨secret, hself, List.infix_rfl⟩ (by simp)
  | basic =>
      cases auth.username with
      | none =>
          exact iff_of_true ⟨base64Encode secret, hencoded, (List.suffix_append _ _).isInfix⟩ (by simp)
      | some username => simp

/-- What is sent for a secret without lone surrogates contains a variant, exactly if it
shows a form of the secret. -/
theorem removes_iff_showsForm (auth : AuthConfig) {secret : List Char} {redactor : Redactor}
    (hapart : redactor.Apart)
    (hforms : ∀ form, form ∈ redactor.values ↔ form ∈ secretForms secret) :
    (∀ wire, applyAuth auth (secret.map .scalar) = .ok wire →
      ∀ value ∈ wireValues wire, redactor.Removes value) ↔ auth.ShowsForm secret := by
  rcases applyAuth_wireText auth secret with ⟨wire, hwire, hvalues⟩
  rw [← wireText_shows_iff, hwire]
  simp only [Except.ok.injEq, forall_eq', hvalues, List.mem_singleton, forall_eq,
    redacts_iff hapart, hforms]

/-- Every value that is sent for a secret is removed from every text, if and only if
it is not sent with a username, or a form of the secret happens to occur in it.  The
order in which the redactor replaces its variants does not matter. -/
theorem credentials_redacted_iff (auth : AuthConfig) (secret : PyText)
    (hlong : minRedactableLength ≤ secret.length) (hmask : CodePoint.scalar '*' ∉ secret)
    (built redactor : Redactor) (hbuilt : Redactor.ofSecrets [secret] = .ok built)
    (horder : redactor.values.Perm built.values) :
    (∀ wire, applyAuth auth secret = .ok wire →
      ∀ value ∈ wireValues wire, redactor.Removes value) ↔
    ∀ scalars, secret.scalars? = some scalars → auth.ShowsForm scalars := by
  have hclean := (ofSecrets_isOk_iff [secret]).mp ⟨built, hbuilt⟩ secret
    (List.mem_singleton_self secret) hlong
  rw [← scalars?_eq_none_iff, ← ne_eq, Option.ne_none_iff_exists'] at hclean
  rcases hclean with ⟨scalars, hscalars⟩
  have hapart : redactor.Apart := by
    refine fun value hvalue => ofSecrets_apart hbuilt (fun text htext => ?_) value
      (horder.mem_iff.mp hvalue)
    rw [List.mem_singleton.mp htext]
    exact hmask
  have hforms : ∀ form, form ∈ redactor.values ↔ form ∈ secretForms scalars := by
    intro form
    rw [horder.mem_iff, mem_ofSecrets_iff hbuilt]
    simp [hscalars, hlong]
  rw [eq_map_of_scalars? hscalars, removes_iff_showsForm auth hapart hforms]
  simp [scalars?_map_scalar]

/-! ## Aligned usernames -/

/-- Groups of three bytes are encoded one by one. -/
theorem base64Bytes_append {front : List UInt8} (h : 3 ∣ front.length) (back : List UInt8) :
    base64Bytes (front ++ back) = base64Bytes front ++ base64Bytes back := by
  induction front using base64Bytes.induct with
  | case1 => rfl
  | case2 a => simp at h
  | case3 a b => simp at h
  | case4 a b c rest ih =>
      have hrest : 3 ∣ rest.length := by
        simp only [List.length_cons] at h
        omega
      simp only [List.cons_append, base64Bytes, ih hrest, List.append_assoc]

/-- If the bytes of the username and the colon come in groups of three, the header
ends with the Base64 form of the secret. -/
theorem credential_redacted_of_aligned (auth : AuthConfig) (secret : List Char)
    (haligned : ∀ username, auth.username = some username →
      3 ∣ (utf8Bytes (username.toList ++ ":".toList)).length) : auth.ShowsForm secret := by
  intro _ username husername
  refine ⟨base64Encode secret, by simp [secretForms], ?_⟩
  have hbytes : utf8Bytes (username.toList ++ ":".toList ++ secret) =
      utf8Bytes (username.toList ++ ":".toList) ++ utf8Bytes secret :=
    List.flatMap_append
  have hsplit : base64Encode (username.toList ++ ":".toList ++ secret) =
      base64Encode (username.toList ++ ":".toList) ++ base64Encode secret := by
    rw [base64Encode, hbytes, base64Bytes_append (haligned username husername)]
    rfl
  rw [hsplit, ← List.append_assoc]
  exact (List.suffix_append _ _).isInfix

/-! ## A username of four letters -/

/-- Basic authentication with a username. -/
def namedAuth : AuthConfig where
  type := .basic
  secretRef := "API_PASSWORD"
  username := some "user"

/-- The redactor of {lit}`hunter22`. -/
def passwordRedactor : Redactor where
  values := ["aHVudGVyMjI=".toList, "hunter22".toList]

/-- {lit}`hunter22`, as a secret. -/
def password : PyText :=
  PyText.ofString "hunter22"

theorem credentials_redacted_iff_bearer :
    4 ≤ password.length ∧ CodePoint.scalar '*' ∉ password ∧
      Redactor.ofSecrets [password] = .ok passwordRedactor ∧
      ((∀ wire, applyAuth ⟨.bearer, "API_TOKEN", "", .header, none⟩ password = .ok wire →
        ∀ value ∈ wireValues wire, passwordRedactor.Removes value) ↔
        ∀ scalars, password.scalars? = some scalars →
          AuthConfig.ShowsForm ⟨.bearer, "API_TOKEN", "", .header, none⟩ scalars) :=
  have hlong : 4 ≤ password.length := by decide +kernel
  have hmask : CodePoint.scalar '*' ∉ password := by decide +kernel
  have hbuilt : Redactor.ofSecrets [password] = .ok passwordRedactor := by decide +kernel
  ⟨hlong, hmask, hbuilt, credentials_redacted_iff _ _ hlong hmask _ _ hbuilt (.refl _)⟩

/-- The header of {lit}`user:hunter22` passes the redactor of {lit}`hunter22`. -/
theorem credentials_not_redacted :
    ∃ wire, Redactor.ofSecrets [password] = .ok passwordRedactor ∧
      applyAuth namedAuth password = .ok wire ∧
      wireValues wire = [PyText.ofString "Basic dXNlcjpodW50ZXIyMg=="] ∧
      passwordRedactor.redact "echo: Basic dXNlcjpodW50ZXIyMg==" =
        "echo: Basic dXNlcjpodW50ZXIyMg==" ∧
      ¬ passwordRedactor.Removes (PyText.ofString "Basic dXNlcjpodW50ZXIyMg==") := by
  have hredacted : passwordRedactor.redact "echo: Basic dXNlcjpodW50ZXIyMg==" =
      "echo: Basic dXNlcjpodW50ZXIyMg==" := by
    decide +kernel
  have hechoed : PyText.ofString "Basic dXNlcjpodW50ZXIyMg==" <:+:
      PyText.ofString "echo: Basic dXNlcjpodW50ZXIyMg==" := by
    decide +kernel
  refine ⟨(.singleton "Authorization" (PyText.ofString "Basic dXNlcjpodW50ZXIyMg=="), .empty),
    by decide +kernel, by decide +kernel, by decide +kernel, hredacted, fun hremoves => ?_⟩
  have hgone := hremoves _ hechoed
  rw [hredacted] at hgone
  exact hgone hechoed

end EtlTool
