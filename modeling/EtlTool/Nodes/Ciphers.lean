import EtlTool.Core.FileIo
import EtlTool.Core.HttpAuth
import EtlTool.Core.UrlRedaction
import EtlTool.Foundations.ByteTexts
import EtlTool.Nodes.Decryption

/-!
# Ciphers and their tokens

One module builds the ciphers of the decrypt node and of the secrets store.  An AES-GCM token
is the nonce and the sealed bytes, as one text in Base64 or hex; a Fernet token is what the
library makes of it.

The library {lit}`cryptography` is a parameter, with what it documents of the two algorithms.

Main results:

- Theorem {lit}`makeCipher_kept`: whatever cipher is built, it reads back its tokens, what it
  accepts was sealed with its key, and it fails in one way only, but for tokens that have no
  UTF-8 bytes.

Current gaps:

- Interpreters that reject padding behind a complete group of Base64.
-/

namespace EtlTool

open ByteTexts

/-! ## Texts of bytes -/

/-- The value of a character of the Base64 alphabet. -/
def base64Value? (c : Char) : Option Nat :=
  if 'A' ≤ c ∧ c ≤ 'Z' then some (c.toNat - 'A'.toNat)
  else if 'a' ≤ c ∧ c ≤ 'z' then some (c.toNat - 'a'.toNat + 26)
  else if '0' ≤ c ∧ c ≤ '9' then some (c.toNat - '0'.toNat + 52)
  else if c = '+' then some 62
  else if c = '/' then some 63
  else none

/-- The alphabet of {lit}`base64`. -/
def base64Alphabet : Digits 64 where
  digit := base64Char
  value? := base64Value?
  value?_digit := by decide

/-- The value of a hexadecimal digit of either case. -/
def hexValue? (c : Char) : Option Nat :=
  if '0' ≤ c ∧ c ≤ '9' then some (c.toNat - '0'.toNat)
  else if 'a' ≤ c ∧ c ≤ 'f' then some (c.toNat - 'a'.toNat + 10)
  else if 'A' ≤ c ∧ c ≤ 'F' then some (c.toNat - 'A'.toNat + 10)
  else none

/-- The digits of {lit}`bytes.hex`. -/
def hexAlphabet : Digits 16 where
  digit := Nat.digitChar
  value? := hexValue?
  value?_digit := by decide

/-- The blanks that {lit}`bytes.fromhex` skips. -/
def isHexBlank (c : Char) : Bool :=
  [' ', '\t', '\n', '\r', '\x0b', '\x0c'].contains c

/-- {lit}`base64.b64decode(value, validate=True)`; padding behind a complete group is no
error. -/
def b64decode? (text : List Char) : Option (List UInt8) :=
  decode64 base64Alphabet '=' text

/-- {lit}`bytes.fromhex(value.strip())`. -/
def fromHex? (text : List Char) : Option (List UInt8) :=
  decode16 hexAlphabet isHexBlank (pyStrip text)

/-- The name of an encoding in a config. -/
def KeyEncoding.name : KeyEncoding → String
  | .base64 => "base64"
  | .hex => "hex"
  | .raw => "raw"

/-- A token encoding as an encoding of bytes. -/
def TokenEncoding.toKeyEncoding : TokenEncoding → KeyEncoding
  | .base64 => .base64
  | .hex => .hex

/-- What {lit}`_decode` tries; {lean}`none` when it raises a {lit}`ValueError`. -/
def decodeBytes? (value : PyText) (encoding : KeyEncoding) : Option (List UInt8) :=
  match value.scalars? with
  | none => none
  | some text =>
      match encoding with
      | .base64 => b64decode? text
      | .hex => fromHex? text
      | .raw => some (utf8Bytes text)

/-! ## The library -/

/-- What the ciphers take from {lit}`cryptography` and from the interpreter. -/
structure CryptoLibrary where
  /-- {lit}`AESGCM(key).encrypt(nonce, plaintext, aad)`: the ciphertext and the tag. -/
  gcmEncrypt : List UInt8 → List UInt8 → List UInt8 → Option (List UInt8) → List UInt8
  /-- {lit}`AESGCM(key).decrypt(nonce, ciphertext, aad)`; {lean}`none` is an
  {lit}`InvalidTag`. -/
  gcmDecrypt : List UInt8 → List UInt8 → List UInt8 → Option (List UInt8) → Option (List UInt8)
  /-- What {lit}`Fernet(key)` raises, as a text. -/
  fernetKeyError? : List UInt8 → Option String
  /-- The time and the vector that {lit}`Fernet.encrypt` draws. -/
  FernetDraw : Type
  /-- {lit}`Fernet(key).encrypt(plaintext)`, as a text. -/
  fernetEncrypt : List UInt8 → FernetDraw → List UInt8 → String
  /-- {lit}`Fernet(key).decrypt(token)`; {lean}`none` is an {lit}`InvalidToken`. -/
  fernetDecrypt : List UInt8 → String → Option (List UInt8)
  /-- The text of the {lit}`ValueError` of a value that is not in an encoding. -/
  encodingErrorText : KeyEncoding → PyText → String

/-- The documented behaviour: both algorithms read back what they have sealed.  AES-GCM
accepts nothing else, and adds a tag of 16 bytes. -/
structure CryptoLibrary.Documented (lib : CryptoLibrary) : Prop where
  gcm_iff : ∀ key nonce ciphertext plaintext aad,
    lib.gcmDecrypt key nonce ciphertext aad = some plaintext ↔
      ciphertext = lib.gcmEncrypt key nonce plaintext aad
  gcm_length : ∀ key nonce plaintext aad,
    (lib.gcmEncrypt key nonce plaintext aad).length = plaintext.length + 16
  fernet : ∀ key draw plaintext,
    lib.fernetDecrypt key (lib.fernetEncrypt key draw plaintext) = some plaintext

/-! ## The ciphers -/

/-- {lit}`CryptoError(message)`. -/
def cryptoError (message : String) : PyException where
  typeName := "CryptoError"
  text := some message

/-- {lit}`_AESGCM_KEY_SIZES`. -/
def aesGcmKeySizes : List Nat := [16, 24, 32]

/-- {lit}`os.urandom(_AESGCM_NONCE_BYTES)`. -/
abbrev Nonce := { nonce : List UInt8 // nonce.length = 12 }

/-- {lit}`AesGcmCipher`. -/
structure AesGcmCipher where
  key : List UInt8
  tokenEncoding : TokenEncoding
  aad : Option (List UInt8)
  key_size : key.length ∈ aesGcmKeySizes

section

variable (lib : CryptoLibrary)

/-- {lit}`_decode`. -/
def decodeValue (value : PyText) (encoding : KeyEncoding) (what : String) :
    Except PyException (List UInt8) :=
  match decodeBytes? value encoding with
  | some bytes => .ok bytes
  | none =>
      .error (cryptoError (what ++ " is not valid " ++ encoding.name ++ ": " ++
        lib.encodingErrorText encoding value))

/-- {lit}`AesGcmCipher.__init__`. -/
def makeAesGcm (key : List UInt8) (tokenEncoding : TokenEncoding) (aad : Option (List UInt8)) :
    Except PyException AesGcmCipher :=
  if h : key.length ∈ aesGcmKeySizes then .ok ⟨key, tokenEncoding, aad, h⟩
  else
    .error (cryptoError ("AES-GCM key must be 16/24/32 bytes (got " ++ toString key.length ++
      "); check the key and its encoding"))

/-- {lit}`AesGcmCipher.decrypt`. -/
def AesGcmCipher.decrypt (cipher : AesGcmCipher) (token : PyText) :
    Except PyException (List UInt8) :=
  match decodeValue lib token cipher.tokenEncoding.toKeyEncoding "ciphertext token" with
  | .error exc => .error exc
  | .ok raw =>
      if raw.length < 12 + 16 then
        .error (cryptoError "AES-GCM token too short to contain a nonce, ciphertext and tag")
      else
        match lib.gcmDecrypt cipher.key (raw.take 12) (raw.drop 12) cipher.aad with
        | some plaintext => .ok plaintext
        | none =>
            .error (cryptoError
              "AES-GCM authentication failed: wrong key/AAD or corrupted ciphertext")

/-- {lit}`AesGcmCipher.encrypt`, with the nonce that it draws. -/
def AesGcmCipher.encrypt (cipher : AesGcmCipher) (nonce : Nonce) (plaintext : List UInt8) :
    String :=
  let raw := nonce.val ++ lib.gcmEncrypt cipher.key nonce.val plaintext cipher.aad
  match cipher.tokenEncoding with
  | .hex => String.ofList (encode16 hexAlphabet raw)
  | .base64 => String.ofList (base64Bytes raw)

/-- {lit}`FernetCipher`. -/
structure FernetCipher where
  key : List UInt8
  key_valid : lib.fernetKeyError? key = none

/-- {lit}`FernetCipher.__init__`. -/
def makeFernet (key : PyText) : Except PyException (FernetCipher lib) :=
  match key.scalars? with
  | none => .error (cryptoError ("invalid Fernet key: " ++ lib.encodingErrorText .raw key))
  | some text =>
      match h : lib.fernetKeyError? (utf8Bytes text) with
      | some error => .error (cryptoError ("invalid Fernet key: " ++ error))
      | none => .ok ⟨utf8Bytes text, h⟩

/-- {lit}`FernetCipher.decrypt`; a token with a lone surrogate cannot be encoded, and no
handler takes that exception. -/
def FernetCipher.decrypt (cipher : FernetCipher lib) (token : PyText) :
    Except PyException (List UInt8) :=
  match token.scalars? with
  | none => .error surrogateEncodeError
  | some text =>
      match lib.fernetDecrypt cipher.key (String.ofList text) with
      | some plaintext => .ok plaintext
      | none =>
          .error (cryptoError "Fernet decryption failed: wrong key or corrupted/expired token")

/-- The ciphers that {lit}`make_cipher` builds. -/
inductive BuiltCipher where
  | aesGcm (cipher : AesGcmCipher)
  | fernet (cipher : FernetCipher lib)

/-- {lit}`make_cipher`. -/
def makeCipher (algo : CipherAlgo) (keyMaterial : PyText) (keyEncoding : KeyEncoding)
    (tokenEncoding : TokenEncoding) (aad : Option (List UInt8)) :
    Except PyException (BuiltCipher lib) :=
  match algo with
  | .fernet => (makeFernet lib keyMaterial).map .fernet
  | .aesGcm =>
      match decodeValue lib keyMaterial keyEncoding "AES-GCM key" with
      | .error exc => .error exc
      | .ok key => (makeAesGcm key tokenEncoding aad).map .aesGcm

variable {lib}

/-- {lit}`Cipher.decrypt`. -/
def BuiltCipher.decrypt (cipher : BuiltCipher lib) (token : PyText) :
    Except PyException (List UInt8) :=
  match cipher with
  | .aesGcm cipher => cipher.decrypt lib token
  | .fernet cipher => cipher.decrypt lib token

/-- {lit}`Cipher.encrypt`, with what it draws. -/
def BuiltCipher.encrypt (cipher : BuiltCipher lib) (draw : Nonce × lib.FernetDraw)
    (plaintext : List UInt8) : String :=
  match cipher with
  | .aesGcm cipher => cipher.encrypt lib draw.1 plaintext
  | .fernet cipher => lib.fernetEncrypt cipher.key draw.2 plaintext

end

/-! ## What is written is read back -/

private theorem base64Bytes_eq (bytes : List UInt8) :
    base64Bytes bytes = encode64 base64Alphabet '=' bytes := by
  induction bytes using base64Bytes.induct with
  | case1 => rfl
  | case2 a => rfl
  | case3 a b => rfl
  | case4 a b c rest ih =>
      rw [base64Bytes, encode64, ih]
      rfl

theorem b64decode?_base64Bytes (bytes : List UInt8) :
    b64decode? (base64Bytes bytes) = some bytes := by
  have hpad : ∀ n < 64, base64Alphabet.digit n ≠ '=' := by decide
  rw [b64decode?, base64Bytes_eq]
  exact decode64_encode64 hpad bytes

private theorem pyStrip_of_forall {text : List Char} (h : ∀ c ∈ text, isSpaceChar c = false) :
    pyStrip text = text := by
  have hdrop : ∀ text : List Char, (∀ c ∈ text, isSpaceChar c = false) →
      text.dropWhile isSpaceChar = text := by
    intro text htext
    cases text with
    | nil => rfl
    | cons c rest => rw [List.dropWhile_cons, htext c List.mem_cons_self]; rfl
  rw [pyStrip, hdrop text h, hdrop text.reverse, List.reverse_reverse]
  intro c hc
  exact h c (List.mem_reverse.mp hc)

private theorem fromHex?_encode16 (bytes : List UInt8) :
    fromHex? (encode16 hexAlphabet bytes) = some bytes := by
  have hspace : ∀ n < 16, isSpaceChar (hexAlphabet.digit n) = false := by decide
  have hblank : ∀ n < 16, isHexBlank (hexAlphabet.digit n) = false := by decide
  have hfree : ∀ c ∈ encode16 hexAlphabet bytes, isSpaceChar c = false := by
    intro c hc
    rcases List.mem_flatMap.mp hc with ⟨byte, _, hdigit⟩
    have hbyte := byte.toNat_lt
    rcases List.mem_pair.mp hdigit with rfl | rfl
    · exact hspace _ (by omega)
    · exact hspace _ (by omega)
  rw [fromHex?, pyStrip_of_forall hfree]
  exact decode16_encode16 hblank bytes

section

variable {lib : CryptoLibrary}

private theorem decodeValue_eq_ok_iff {value : PyText} {encoding : KeyEncoding} {what : String}
    {bytes : List UInt8} :
    decodeValue lib value encoding what = .ok bytes ↔ decodeBytes? value encoding = some bytes := by
  unfold decodeValue
  cases decodeBytes? value encoding with
  | none => simp
  | some found => simp

private theorem decodeValue_error {value : PyText} {encoding : KeyEncoding} {what : String}
    {exc : PyException} (h : decodeValue lib value encoding what = .error exc) :
    exc.typeName = "CryptoError" := by
  unfold decodeValue at h
  split at h
  · cases h
  · cases h
    rfl

/-- The bytes of a token are the nonce and what is sealed under it. -/
theorem decodeBytes?_encrypt (cipher : AesGcmCipher) (nonce : Nonce) (plaintext : List UInt8) :
    decodeBytes? (.ofString (cipher.encrypt lib nonce plaintext))
        cipher.tokenEncoding.toKeyEncoding =
      some (nonce.val ++ lib.gcmEncrypt cipher.key nonce.val plaintext cipher.aad) := by
  rw [decodeBytes?, scalars?_ofString, AesGcmCipher.encrypt]
  cases cipher.tokenEncoding with
  | base64 =>
      simp only [TokenEncoding.toKeyEncoding, String.toList_ofList]
      exact b64decode?_base64Bytes _
  | hex =>
      simp only [TokenEncoding.toKeyEncoding, String.toList_ofList]
      exact fromHex?_encode16 _

/-- A token is accepted exactly if it is the text of a nonce and of what is sealed under
it. -/
theorem AesGcmCipher.decrypt_eq_ok_iff (hlib : lib.Documented) (cipher : AesGcmCipher)
    {token : PyText} {plaintext : List UInt8} :
    cipher.decrypt lib token = .ok plaintext ↔ ∃ nonce : Nonce,
      decodeBytes? token cipher.tokenEncoding.toKeyEncoding =
        some (nonce.val ++ lib.gcmEncrypt cipher.key nonce.val plaintext cipher.aad) := by
  constructor
  · intro h
    unfold AesGcmCipher.decrypt at h
    split at h
    · cases h
    · rename_i raw hraw
      split at h
      · cases h
      · rename_i hlong
        split at h
        · rename_i found hfound
          cases h
          have hnonce : (raw.take 12).length = 12 := by
            rw [List.length_take]
            omega
          refine ⟨⟨raw.take 12, hnonce⟩, ?_⟩
          rw [← (hlib.gcm_iff _ _ _ _ _).mp hfound, List.take_append_drop]
          exact decodeValue_eq_ok_iff.mp hraw
        · cases h
  · intro h
    rcases h with ⟨⟨nonce, hnonce⟩, hdecoded⟩
    have hvalue : decodeValue lib token cipher.tokenEncoding.toKeyEncoding "ciphertext token" =
          .ok (nonce ++ lib.gcmEncrypt cipher.key nonce plaintext cipher.aad) :=
      decodeValue_eq_ok_iff.mpr hdecoded
    have hlength := hlib.gcm_length cipher.key nonce plaintext cipher.aad
    have hlong : ¬ (nonce ++ lib.gcmEncrypt cipher.key nonce plaintext cipher.aad).length <
        12 + 16 := by
      rw [List.length_append, hnonce, hlength]
      omega
    have hopened := (hlib.gcm_iff cipher.key nonce _ plaintext cipher.aad).mpr rfl
    simp only [AesGcmCipher.decrypt, hvalue, if_neg hlong, List.take_left' hnonce,
      List.drop_left' hnonce, hopened]

private theorem AesGcmCipher.decrypt_error (cipher : AesGcmCipher) {token : PyText}
    {exc : PyException}
    (h : cipher.decrypt lib token = .error exc) : exc.typeName = "CryptoError" := by
  unfold AesGcmCipher.decrypt at h
  split at h
  · rename_i exc' hvalue
    cases h
    exact decodeValue_error hvalue
  · split at h
    · cases h
      rfl
    · split at h
      · cases h
      · cases h
        rfl

end

/-! ## What is built -/

/-- What holds of a cipher. -/
structure CipherKept {lib : CryptoLibrary} (cipher : BuiltCipher lib) : Prop where
  /-- It reads back its tokens. -/
  restores : ∀ draw plaintext,
    cipher.decrypt (.ofString (cipher.encrypt draw plaintext)) = .ok plaintext
  /-- It accepts the texts of a nonce and of what is sealed under it with its key and its
  additional data, and no others. -/
  accepts : ∀ gcm, cipher = .aesGcm gcm → ∀ token plaintext,
    cipher.decrypt token = .ok plaintext ↔ ∃ nonce : Nonce,
      decodeBytes? token gcm.tokenEncoding.toKeyEncoding =
        some (nonce.val ++ lib.gcmEncrypt gcm.key nonce.val plaintext gcm.aad)
  /-- The characters of a Base64 token besides padding tell the length of its plaintext. -/
  length : ∀ gcm, cipher = .aesGcm gcm → gcm.tokenEncoding = .base64 → ∀ token plaintext,
    cipher.decrypt token = .ok plaintext →
      token.countP (· != .scalar '=') = (4 * (12 + (plaintext.length + 16)) + 2) / 3
  /-- It raises nothing but {lit}`CryptoError`, unless a Fernet token has a lone surrogate. -/
  fails : ∀ token exc, cipher.decrypt token = .error exc →
    exc.typeName = "CryptoError" ∨
      (∃ made, cipher = .fernet made) ∧ token.scalars? = none ∧ exc = surrogateEncodeError
  /-- Such a token raises the exception of its encoding. -/
  surrogate : ∀ made, cipher = .fernet made → ∀ token, token.scalars? = none →
    cipher.decrypt token = .error surrogateEncodeError

section

variable {lib : CryptoLibrary}

private theorem cipherKept_aesGcm (hlib : lib.Documented) (gcm : AesGcmCipher) :
    CipherKept (.aesGcm gcm : BuiltCipher lib) where
  restores := by
    intro draw plaintext
    exact (gcm.decrypt_eq_ok_iff hlib).mpr ⟨draw.1, decodeBytes?_encrypt gcm draw.1 plaintext⟩
  accepts := by
    intro gcm' hsame token plaintext
    cases hsame
    exact gcm.decrypt_eq_ok_iff hlib
  length := by
    intro gcm' hsame hencoding token plaintext haccepted
    cases hsame
    rcases (gcm.decrypt_eq_ok_iff hlib).mp haccepted with ⟨nonce, hdecoded⟩
    rw [decodeBytes?, hencoding] at hdecoded
    cases hscalars : token.scalars? with
    | none => simp [hscalars] at hdecoded
    | some text =>
        rw [hscalars] at hdecoded
        have hlength := length_of_decode64 (by decide) hdecoded
        rw [List.length_append, nonce.property, hlib.gcm_length] at hlength
        rw [eq_map_of_scalars? hscalars, List.countP_map, ← hlength]
        congr 1
        funext c
        simp [bne]
  fails := fun token exc h => .inl (gcm.decrypt_error h)
  surrogate := fun made hsame => by cases hsame

private theorem cipherKept_fernet (hlib : lib.Documented) (cipher : FernetCipher lib) :
    CipherKept (.fernet cipher) where
  restores := by
    intro draw plaintext
    simp only [BuiltCipher.decrypt, BuiltCipher.encrypt, FernetCipher.decrypt, scalars?_ofString,
      String.ofList_toList, hlib.fernet]
  accepts := fun gcm hsame => by cases hsame
  length := fun gcm hsame => by cases hsame
  fails := by
    intro token exc h
    simp only [BuiltCipher.decrypt, FernetCipher.decrypt] at h
    split at h
    · rename_i hscalars
      cases h
      exact .inr ⟨⟨cipher, rfl⟩, hscalars, rfl⟩
    · split at h
      · cases h
      · cases h
        exact .inl rfl
  surrogate := by
    intro made hsame token hscalars
    cases hsame
    simp only [BuiltCipher.decrypt, FernetCipher.decrypt, hscalars]

private theorem makeAesGcm_error {key : List UInt8} {tokenEncoding : TokenEncoding}
    {aad : Option (List UInt8)} {exc : PyException}
    (h : makeAesGcm key tokenEncoding aad = .error exc) : exc.typeName = "CryptoError" := by
  unfold makeAesGcm at h
  split at h
  · cases h
  · cases h
    rfl

private theorem makeFernet_error {key : PyText} {exc : PyException}
    (h : makeFernet lib key = .error exc) : exc.typeName = "CryptoError" := by
  unfold makeFernet at h
  split at h
  · cases h
    rfl
  · split at h
    · cases h
      rfl
    · cases h

end

/-- The cipher is the one that was asked for, with the key in its encoding. -/
def BuiltCipher.MadeFrom {lib : CryptoLibrary} (cipher : BuiltCipher lib) (algo : CipherAlgo)
    (keyMaterial : PyText) (keyEncoding : KeyEncoding) (tokenEncoding : TokenEncoding)
    (aad : Option (List UInt8)) : Prop :=
  match cipher with
  | .aesGcm gcm =>
      algo = .aesGcm ∧ decodeBytes? keyMaterial keyEncoding = some gcm.key ∧
        gcm.tokenEncoding = tokenEncoding ∧ gcm.aad = aad
  | .fernet made => algo = .fernet ∧ decodeBytes? keyMaterial .raw = some made.key

section

variable {lib : CryptoLibrary}

private theorem madeFrom_fernet {key : PyText} {cipher : FernetCipher lib}
    (h : makeFernet lib key = .ok cipher) : decodeBytes? key .raw = some cipher.key := by
  unfold makeFernet at h
  split at h
  · cases h
  · rename_i text htext
    split at h
    · cases h
    · cases h
      simp only [decodeBytes?, htext]

private theorem madeFrom_aesGcm {key : List UInt8} {tokenEncoding : TokenEncoding}
    {aad : Option (List UInt8)} {cipher : AesGcmCipher}
    (h : makeAesGcm key tokenEncoding aad = .ok cipher) :
    cipher.key = key ∧ cipher.tokenEncoding = tokenEncoding ∧ cipher.aad = aad := by
  unfold makeAesGcm at h
  split at h
  · cases h
    exact ⟨rfl, rfl, rfl⟩
  · cases h

end

/-- What {lit}`make_cipher` builds is what was asked for; it reads back its tokens and accepts
nothing else.  Neither raises anything but {lit}`CryptoError`, except that a Fernet token with
a lone surrogate raises the exception of its encoding. -/
theorem makeCipher_kept {lib : CryptoLibrary} (hlib : lib.Documented) (algo : CipherAlgo)
    (keyMaterial : PyText) (keyEncoding : KeyEncoding) (tokenEncoding : TokenEncoding)
    (aad : Option (List UInt8)) :
    (∀ cipher, makeCipher lib algo keyMaterial keyEncoding tokenEncoding aad = .ok cipher →
      CipherKept cipher ∧ cipher.MadeFrom algo keyMaterial keyEncoding tokenEncoding aad) ∧
    ∀ exc, makeCipher lib algo keyMaterial keyEncoding tokenEncoding aad = .error exc →
      exc.typeName = "CryptoError" := by
  cases algo with
  | fernet =>
      rw [makeCipher]
      cases hmade : makeFernet lib keyMaterial with
      | error exc =>
          refine ⟨fun _ h => (nomatch h), ?_⟩
          intro exc' h
          cases h
          exact makeFernet_error hmade
      | ok made =>
          refine ⟨?_, fun _ h => (nomatch h)⟩
          intro cipher h
          cases h
          exact ⟨cipherKept_fernet hlib made, rfl, madeFrom_fernet hmade⟩
  | aesGcm =>
      rw [makeCipher]
      cases hkey : decodeValue lib keyMaterial keyEncoding "AES-GCM key" with
      | error exc =>
          refine ⟨fun _ h => (nomatch h), ?_⟩
          intro exc' h
          cases h
          exact decodeValue_error hkey
      | ok key =>
          dsimp only
          cases hmade : makeAesGcm key tokenEncoding aad with
          | error exc =>
              refine ⟨fun _ h => (nomatch h), ?_⟩
              intro exc' h
              cases h
              exact makeAesGcm_error hmade
          | ok gcm =>
              refine ⟨?_, fun _ h => (nomatch h)⟩
              intro cipher h
              cases h
              rcases madeFrom_aesGcm hmade with ⟨rfl, hencoding, haad⟩
              exact ⟨cipherKept_aesGcm hlib gcm, rfl, decodeValue_eq_ok_iff.mp hkey, hencoding,
                haad⟩

namespace CipherSamples

/-- Ciphers that seal by a tag of their own, whatever the key. -/
def openLibrary : CryptoLibrary where
  gcmEncrypt := fun _ _ plaintext _ => plaintext ++ List.replicate 16 0
  gcmDecrypt := fun _ _ ciphertext _ =>
    let plaintext := ciphertext.take (ciphertext.length - 16)
    if ciphertext = plaintext ++ List.replicate 16 0 then some plaintext else none
  fernetKeyError? := fun _ => none
  FernetDraw := Unit
  fernetEncrypt := fun _ _ plaintext => String.ofList (base64Bytes plaintext)
  fernetDecrypt := fun _ token => b64decode? token.toList
  encodingErrorText := fun _ _ => "Incorrect padding"

theorem openLibrary_documented : openLibrary.Documented where
  gcm_iff := by
    intro key nonce ciphertext plaintext aad
    simp only [openLibrary, Option.ite_none_right_eq_some, Option.some.injEq]
    constructor
    · intro h
      rcases h with ⟨hsealed, rfl⟩
      exact hsealed
    · intro h
      subst h
      simp
  gcm_length := by
    intro key nonce plaintext aad
    simp [openLibrary]
  fernet := by
    intro key draw plaintext
    simp only [openLibrary, String.toList_ofList]
    exact b64decode?_base64Bytes plaintext

/-- The Base64 text of a key of sixteen bytes. -/
def keyText : PyText :=
  .ofString "MDEyMzQ1Njc4OWFiY2RlZg=="

end CipherSamples

open CipherSamples in
theorem makeCipher_kept_open :
    ∃ cipher, makeCipher openLibrary .aesGcm keyText .base64 .hex none = .ok cipher ∧
      CipherKept cipher ∧ cipher.MadeFrom .aesGcm keyText .base64 .hex none := by
  have hbytes : decodeBytes? keyText .base64 = some (utf8Bytes "0123456789abcdef".toList) := by
    decide +kernel
  have hmade : ∃ cipher, makeCipher openLibrary .aesGcm keyText .base64 .hex none = .ok cipher := by
    have hsize : (utf8Bytes "0123456789abcdef".toList).length ∈ aesGcmKeySizes := by decide +kernel
    simp only [makeCipher, decodeValue_eq_ok_iff.mpr hbytes, makeAesGcm, dif_pos hsize]
    exact ⟨_, rfl⟩
  rcases hmade with ⟨cipher, hcipher⟩
  exact ⟨cipher, hcipher, (makeCipher_kept openLibrary_documented .aesGcm keyText .base64 .hex
    none).1 cipher hcipher⟩

/-! ## The decrypt node -/

/-- What the decrypt node calls, with the ciphers of this module. -/
def CryptoLibrary.decryptLibraries (lib : CryptoLibrary)
    (loads : String → Except PyException Value) : DecryptLibraries where
  makeCipher := fun algo keyMaterial keyEncoding tokenEncoding aad =>
    (makeCipher lib algo keyMaterial keyEncoding tokenEncoding aad).map fun built =>
      ⟨fun token => built.decrypt (.ofString token)⟩
  loads := loads

theorem BuiltCipher.kept {lib : CryptoLibrary} (hlib : lib.Documented) (built : BuiltCipher lib) :
    CipherKept built := by
  cases built with
  | aesGcm gcm => exact cipherKept_aesGcm hlib gcm
  | fernet made => exact cipherKept_fernet hlib made

namespace CipherSamples

/-- A Fernet cipher of the library. -/
def openCipher : BuiltCipher openLibrary :=
  .fernet ⟨utf8Bytes "key".toList, rfl⟩

/-- The nonce and the vector of every encryption. -/
def openDraw : Nonce × openLibrary.FernetDraw :=
  (⟨List.replicate 12 0, rfl⟩, ())

/-- A record with tokens of this cipher. -/
def sealedCustomer : Value :=
  Samples.runtime.encryptFields
    (fun _ text => openCipher.encrypt openDraw (utf8Bytes text.toList))
    DecryptSamples.decryptConfig.fields (.dict DecryptSamples.customer)

end CipherSamples

end EtlTool
