import Mathlib.Data.List.Infix

/-!
# UTF-8 with replacement characters

Decoding bytes of which some may not be UTF-8.  What cannot be decoded becomes a replacement
character, so decoding is total, and every other character of the result stands for exactly
the bytes of its encoding.

Main results:

- Theorem {lit}`decode_encode`: the encoding of a text is decoded to the text.
- Theorem {lit}`encode_infix_le`: a word without the replacement character occurs in the
  decoded text only where its encoding occurs in the bytes.
-/

namespace LossyUtf8

/-- The bytes of a text. -/
def encode (text : List Char) : List UInt8 :=
  text.flatMap String.utf8EncodeChar

/-- The character that stands for bytes that are not UTF-8. -/
def replacement : Char := '\uFFFD'

/-- The character that the bytes begin with, if they do. -/
def firstChar? (bytes : List UInt8) : Option Char :=
  bytes.toByteArray.utf8DecodeChar? 0

/-! ## Decoding -/

/-- A second byte that the encoding of some character has behind the first one. -/
def followsLead (lead second : UInt8) : Bool :=
  if lead = 0xE0 then 0xA0 ≤ second && second ≤ 0xBF
  else if lead = 0xED then 0x80 ≤ second && second ≤ 0x9F
  else if lead = 0xF0 then 0x90 ≤ second && second ≤ 0xBF
  else if lead = 0xF4 then 0x80 ≤ second && second ≤ 0x8F
  else 0x80 ≤ second && second ≤ 0xBF

/-- How many bytes one replacement character stands for: the longest beginning of an encoding
that the bytes begin with, or one byte. -/
def illFormedLength : List UInt8 → Nat
  | lead :: second :: rest =>
      if 0xE0 ≤ lead ∧ lead ≤ 0xF4 ∧ followsLead lead second = true then
        match rest with
        | third :: _ => if 0xF0 ≤ lead ∧ 0x80 ≤ third ∧ third ≤ 0xBF then 3 else 2
        | [] => 2
      else 1
  | _ => 1

/-- Decode bytes with replacement characters; the fuel bounds their number. -/
def decodeBytes : Nat → List UInt8 → List Char
  | 0, _ => []
  | _ + 1, [] => []
  | fuel + 1, byte :: rest =>
      match firstChar? (byte :: rest) with
      | some c => c :: decodeBytes fuel ((byte :: rest).drop c.utf8Size)
      | none => replacement :: decodeBytes fuel ((byte :: rest).drop (illFormedLength (byte :: rest)))

/-- Decode bytes with replacement characters. -/
def decode (bytes : List UInt8) : List Char :=
  decodeBytes bytes.length bytes

/-! ## Encodings -/

theorem encode_cons (c : Char) (text : List Char) :
    encode (c :: text) = String.utf8EncodeChar c ++ encode text := by
  rw [encode, List.flatMap_cons, ← encode]

private theorem firstChar?_encode (c : Char) (rest : List UInt8) :
    firstChar? (String.utf8EncodeChar c ++ rest) = some c := by
  rw [firstChar?, List.toByteArray_append]
  exact ByteArray.utf8DecodeChar?_utf8EncodeChar_append

/-- The first character takes the bytes of its encoding. -/
theorem encode_of_firstChar? {bytes : List UInt8} {c : Char} (h : firstChar? bytes = some c) :
    String.utf8EncodeChar c ++ bytes.drop c.utf8Size = bytes := by
  rcases ByteArray.exists_of_utf8DecodeChar?_eq_some h with ⟨rest, hrest⟩
  have hbytes : bytes = String.utf8EncodeChar c ++ rest.data.toList := by
    have hlist := congrArg (fun b : ByteArray => b.data.toList) hrest
    simpa using hlist
  rw [← String.length_utf8EncodeChar c]
  conv_lhs => rw [hbytes, List.drop_left]
  exact hbytes.symm

/-- The encoding of a text is decoded to the text. -/
theorem decodeBytes_encode (text : List Char) :
    ∀ fuel, (encode text).length ≤ fuel → decodeBytes fuel (encode text) = text := by
  induction text with
  | nil =>
      intro fuel _
      cases fuel <;> rfl
  | cons c text ih =>
      intro fuel hfuel
      have hpos := Char.utf8Size_pos c
      rw [encode_cons, List.length_append, String.length_utf8EncodeChar] at hfuel
      cases fuel with
      | zero => omega
      | succ fuel =>
          have hfirst := firstChar?_encode c (encode text)
          have hdrop : (encode (c :: text)).drop c.utf8Size = encode text := by
            rw [encode_cons, ← String.length_utf8EncodeChar c, List.drop_left]
          rw [← encode_cons] at hfirst
          cases hbytes : encode (c :: text) with
          | nil =>
              rw [encode_cons] at hbytes
              exact absurd (List.append_eq_nil_iff.mp hbytes).1 String.utf8EncodeChar_ne_nil
          | cons byte rest =>
              rw [hbytes] at hfirst hdrop
              rw [decodeBytes, hfirst]
              dsimp only
              rw [hdrop, ih fuel (by omega)]

theorem decode_encode (text : List Char) : decode (encode text) = text :=
  decodeBytes_encode text _ le_rfl

/-! ## Words -/

/-- A word without the replacement character at the start of the decoded text. -/
theorem encode_prefix_le {word : List Char} (hword : replacement ∉ word) :
    ∀ {fuel bytes}, word <+: decodeBytes fuel bytes → encode word <+: bytes := by
  induction word with
  | nil => exact fun _ => List.nil_prefix
  | cons c word ih =>
      intro fuel bytes h
      rw [List.mem_cons, not_or] at hword
      match fuel, bytes with
      | 0, _ => simp [decodeBytes] at h
      | _ + 1, [] => simp [decodeBytes] at h
      | fuel + 1, byte :: rest =>
          rw [decodeBytes] at h
          cases hfirst : firstChar? (byte :: rest) with
          | none =>
              rw [hfirst] at h
              exact absurd (List.cons_prefix_cons.mp h).1.symm hword.1
          | some d =>
              rw [hfirst] at h
              rcases List.cons_prefix_cons.mp h with ⟨rfl, hlater⟩
              rw [← encode_of_firstChar? hfirst, encode_cons]
              exact (List.prefix_append_right_inj _).mpr (ih hword.2 hlater)

/-- One character is decoded from some of the bytes. -/
theorem decodeBytes_cons (fuel : Nat) (byte : UInt8) (rest : List UInt8) :
    ∃ c n, decodeBytes (fuel + 1) (byte :: rest) =
      c :: decodeBytes fuel ((byte :: rest).drop n) := by
  rw [decodeBytes]
  cases firstChar? (byte :: rest) with
  | none => exact ⟨replacement, illFormedLength (byte :: rest), rfl⟩
  | some c => exact ⟨c, c.utf8Size, rfl⟩

/-- A word without the replacement character occurs in the decoded text only where its
encoding occurs in the bytes. -/
theorem encode_infix_le {word : List Char} (hword : replacement ∉ word)
    {bytes : List UInt8} (h : word <:+: decode bytes) : encode word <:+: bytes := by
  have hnil : ∀ bytes, word <:+: [] → encode word <:+: bytes := by
    intro bytes h
    rw [List.infix_nil.mp h]
    exact List.nil_infix
  have hgeneral : ∀ fuel bytes, word <:+: decodeBytes fuel bytes → encode word <:+: bytes := by
    intro fuel
    induction fuel with
    | zero => exact fun bytes h => hnil bytes h
    | succ fuel ih =>
        intro bytes h
        cases bytes with
        | nil => exact hnil [] h
        | cons byte rest =>
            rcases decodeBytes_cons fuel byte rest with ⟨c, n, hdecode⟩
            rw [hdecode, List.infix_cons_iff, ← hdecode] at h
            rcases h with hstart | hlater
            · exact (encode_prefix_le hword hstart).isInfix
            · exact (ih _ hlater).trans (List.drop_suffix _ _).isInfix
  exact hgeneral _ _ h

end LossyUtf8
