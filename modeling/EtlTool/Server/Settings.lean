import EtlTool.Nodes.Ciphers
import EtlTool.Server.SecretsAtRest

/-!
# The cipher of the settings

A request and a worker both build the cipher of the secrets from the settings.  The master key
is the same for both, so a worker reads what a request has encrypted.

Main results:

- Theorem {lit}`prepare_reads_secrets`: with one master key, a run is given the values that its
  owner has stored last.

Current gaps:

- A master key that is changed between two starts of the server.
- The provider reads all secrets in the state in which the run is prepared.
-/

namespace EtlTool

open Interleaving KeyedTables

/-- The fields of {lit}`Settings` that the cipher is built from. -/
structure Settings where
  secretsAlgo : CipherAlgo
  masterKey : PyText

/-- {lit}`Settings.secrets_cipher`. -/
def Settings.secretsCipher (settings : Settings) (lib : CryptoLibrary) :
    Except PyException (BuiltCipher lib) :=
  makeCipher lib settings.secretsAlgo settings.masterKey .base64 .base64 none

/-- The requests and the workers build their ciphers from the settings. -/
structure App.ConfiguredBy (app : App) (lib : CryptoLibrary) (settings : Settings) : Prop where
  /-- {lit}`get_cipher`, and what it encrypts with some draw. -/
  requests : ∃ built, settings.secretsCipher lib = .ok built ∧
      app.cipher = ⟨fun token => built.decrypt (.ofString token)⟩ ∧
    ∀ nonce value, ∃ draw, app.encrypt nonce value =
      .ok (built.encrypt draw value.toUTF8.data.toList)
  /-- The worker's {lit}`settings.secrets_cipher()`. -/
  workers : app.worker.secretsCipher =
    (settings.secretsCipher lib).map fun built =>
      ⟨fun token => built.decrypt (.ofString token)⟩

section

variable {app : App} {lib : CryptoLibrary} {settings : Settings}

/-- A worker's cipher is that of the requests. -/
theorem App.ConfiguredBy.workerCipher (h : app.ConfiguredBy lib settings) :
    app.worker.secretsCipher = .ok app.cipher := by
  rcases h.requests with ⟨built, hbuilt, hcipher, _⟩
  rw [h.workers, hbuilt, hcipher]
  rfl

private theorem App.ConfiguredBy.decryptedBy (hlib : lib.Documented)
    (h : app.ConfiguredBy lib settings) : app.DecryptedBy app.cipher := by
  rcases h.requests with ⟨built, _, hcipher, hencrypt⟩
  intro nonce value ciphertext htoken
  rcases hencrypt nonce value with ⟨draw, hdraw⟩
  rw [hdraw] at htoken
  cases htoken
  rw [hcipher]
  exact (built.kept hlib).restores draw _

/-- However requests interleave, a prepared run is given the values that its owner has sent with
the last committed writes and no others, whichever of the two algorithms encrypts them. -/
theorem prepare_reads_secrets (hlib : lib.Documented) (h : app.ConfiguredBy lib settings)
    (actions : List ServerAction) (s : Server)
    (hrun : exec (Server.step app) Server.initial actions = some s) (ownerId : Uuid)
    (spec : Fields) (document : PipelineSpec) (provider : SecretsProvider)
    (hprepared : Deployment.prepare { app.worker with secretRows := s.tables.secretRows } ownerId
      spec = .ok (document, provider)) :
    (∀ ref, standing (Server.secretHistory app actions) (ownerId, ref) = none →
      provider ref = .error (.notFound ref)) ∧
    ∀ ref ciphertext, standing (Server.secretHistory app actions) (ownerId, ref) =
        some ciphertext →
      ∃ id value nonce, .arrive (.api (some ownerId) (.setSecret id ref value nonce)) ∈ actions ∧
        app.encrypt nonce value = .ok ciphertext ∧ provider ref = .ok (PyText.ofString value) := by
  have hprovider : provider = dbSecret app.cipher (s.tables.secretRows ownerId) := by
    unfold Deployment.prepare at hprepared
    rw [h.workerCipher] at hprepared
    split at hprepared
    · cases hprepared
    · cases hprepared
      rfl
  have hrow : ∀ ref, (s.tables.secretRows ownerId).get? ref =
      standing (Server.secretHistory app actions) (ownerId, ref) := by
    intro ref
    rw [Tables.get?_secretRows (Server.SecretsInv.of_exec hrun).distinct.keys,
      Server.secretMap_of_exec hrun]
  rw [hprovider]
  constructor
  · intro ref hnone
    simp only [dbSecret, hrow, hnone]
  · intro ref ciphertext hstanding
    have hstored : s.tables.secretMap (ownerId, ref) = some ciphertext := by
      rw [Server.secretMap_of_exec hrun, hstanding]
    rcases Server.sent_of_secretMap hrun hstored with ⟨id, value, nonce, harrived, htoken⟩
    refine ⟨id, value, nonce, harrived, htoken, ?_⟩
    exact dbSecret_encrypted (h.decryptedBy hlib) ((hrow ref).trans hstanding) htoken

end

/-! ## A configured server -/

namespace Samples

open CipherSamples

/-- Settings that ask for Fernet. -/
def fernetSettings : Settings where
  secretsAlgo := .fernet
  masterKey := .ofString "master"

/-- The cipher of these settings. -/
def fernetCipher : BuiltCipher openLibrary :=
  .fernet ⟨utf8Bytes "master".toList, rfl⟩

/-- The application with these settings. -/
def fernetApp : App :=
  { app with
    worker := { app.worker with
      secretsCipher := .ok ⟨fun token => fernetCipher.decrypt (.ofString token)⟩ }
    cipher := ⟨fun token => fernetCipher.decrypt (.ofString token)⟩
    encrypt := fun _ value =>
      .ok (fernetCipher.encrypt openDraw value.toUTF8.data.toList) }

private theorem fernetApp_configured : fernetApp.ConfiguredBy openLibrary fernetSettings where
  requests := ⟨fernetCipher, rfl, rfl, fun _ _ => ⟨_, rfl⟩⟩
  workers := rfl

end Samples

open Samples in
theorem prepare_reads_secrets_fernet :
    ∃ s provider, exec (Server.step fernetApp) Server.initial racingSecrets = some s ∧
      Deployment.prepare { fernetApp.worker with secretRows := s.tables.secretRows } "first" [] =
        .ok (onlySource, provider) ∧
      ∃ id value nonce,
        .arrive (.api (some "first") (.setSecret id "token" value nonce)) ∈ racingSecrets ∧
          fernetApp.encrypt nonce value = .ok "bmV3" ∧
          provider "token" = .ok (PyText.ofString value) := by
  have hcheck : ((exec (Server.step fernetApp) Server.initial racingSecrets).isSome,
      standing (Server.secretHistory fernetApp racingSecrets) ("first", "token")) =
        (true, some "bmV3") := by
    decide +kernel
  rw [Prod.mk.injEq] at hcheck
  rcases Option.isSome_iff_exists.mp hcheck.1 with ⟨s, hrun⟩
  have hreads := prepare_reads_secrets CipherSamples.openLibrary_documented fernetApp_configured
    racingSecrets s hrun "first" [] onlySource _ rfl
  exact ⟨s, _, hrun, rfl, hreads.2 "token" "bmV3" hcheck.2⟩

end EtlTool
