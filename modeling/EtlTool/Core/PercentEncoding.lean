import EtlTool.Core.Redactor

/-!
# Percent encoding

A quoted text consists of unreserved characters and escapes, so it has no delimiter of a
URL in it.  Each character is quoted by itself; the full stop stands for itself, and no
other character is quoted by one.

Main results:

- Theorem {lit}`mem_percentQuote`: the characters of a quoted text.
- Theorem {lit}`percentQuote_dots_iff`: which texts are quoted by full stops.
-/

namespace EtlTool

/-! ## Bytes -/

/-- A character that {lit}`quote` leaves alone. -/
def isUnreserved (c : Char) : Bool :=
  c.isAlphanum || ['_', '.', '-', '~'].contains c

/-- One byte of a quoted text. -/
def quoteByte (byte : UInt8) : List Char :=
  if isUnreserved (Char.ofNat byte.toNat) then [Char.ofNat byte.toNat]
  else ['%', upperHexDigit (byte.toNat / 16), upperHexDigit (byte.toNat % 16)]

/-- The value of a hexadecimal digit. -/
def hexDigit? (c : Char) : Option Nat :=
  if '0' ≤ c ∧ c ≤ '9' then some (c.toNat - 48)
  else if 'a' ≤ c ∧ c ≤ 'f' then some (c.toNat - 87)
  else if 'A' ≤ c ∧ c ≤ 'F' then some (c.toNat - 55)
  else none

theorem percentQuote_eq_flatMap (text : List Char) :
    percentQuote text = (utf8Bytes text).flatMap quoteByte :=
  rfl

/-- An ASCII character is one byte. -/
theorem utf8EncodeChar_ascii {c : Char} (h : c.toNat < 128) :
    String.utf8EncodeChar c = [UInt8.ofNat c.toNat] := by
  have hle : c.val.toNat ≤ 127 := Nat.le_of_lt_succ h
  unfold String.utf8EncodeChar
  rw [if_pos hle]
  rfl

/-- The bytes of any other character are not ASCII. -/
theorem utf8EncodeChar_nonAscii {c : Char} (h : ¬ c.toNat < 128) :
    ∀ byte ∈ String.utf8EncodeChar c, 128 ≤ byte.toNat := by
  have hgt : ¬ c.val.toNat ≤ 127 := fun hle => h (Nat.lt_succ_of_le hle)
  unfold String.utf8EncodeChar
  dsimp only
  rw [if_neg hgt]
  intro byte hbyte
  split at hbyte
  · simp only [List.mem_cons, List.not_mem_nil, or_false] at hbyte
    rcases hbyte with rfl | rfl <;> simp only [UInt8.toNat_ofNat'] <;> omega
  · split at hbyte
    · simp only [List.mem_cons, List.not_mem_nil, or_false] at hbyte
      rcases hbyte with rfl | rfl | rfl <;> simp only [UInt8.toNat_ofNat'] <;> omega
    · simp only [List.mem_cons, List.not_mem_nil, or_false] at hbyte
      rcases hbyte with rfl | rfl | rfl | rfl <;> simp only [UInt8.toNat_ofNat'] <;> omega

theorem isUnreserved_lt {c : Char} (h : isUnreserved c = true) : c.toNat < 128 := by
  simp only [isUnreserved, Bool.or_eq_true, List.contains_eq_mem, decide_eq_true_eq, List.mem_cons,
    List.not_mem_nil, or_false] at h
  rcases h with halnum | rfl | rfl | rfl | rfl
  · have hranges := ranges_of_isAlphanum halnum
    omega
  all_goals decide

/-- A byte that is not ASCII is escaped. -/
theorem quoteByte_nonAscii {byte : UInt8} (h : 128 ≤ byte.toNat) :
    quoteByte byte = ['%', upperHexDigit (byte.toNat / 16), upperHexDigit (byte.toNat % 16)] := by
  have hlt := byte.toNat_lt
  have hchars : ∀ n < 256, 128 ≤ n → isUnreserved (Char.ofNat n) = false := by decide +kernel
  rw [quoteByte, hchars byte.toNat hlt h]
  rfl

theorem isUnreserved_upperHexDigit {n : Nat} (h : n < 16) :
    isUnreserved (upperHexDigit n) = true := by
  have hdigits : ∀ n < 16, isUnreserved (upperHexDigit n) = true := by decide
  exact hdigits n h

/-- The characters of a quoted byte. -/
theorem mem_quoteByte {byte : UInt8} {c : Char} (h : c ∈ quoteByte byte) :
    isUnreserved c = true ∨ c = '%' := by
  have hbyte := byte.toNat_lt
  unfold quoteByte at h
  split at h
  · rename_i hplain
    rw [List.mem_singleton] at h
    exact Or.inl (h ▸ hplain)
  · simp only [List.mem_cons, List.not_mem_nil, or_false] at h
    rcases h with hpercent | hhigh | hlow
    · exact Or.inr hpercent
    · exact Or.inl (hhigh ▸ isUnreserved_upperHexDigit (by omega))
    · exact Or.inl (hlow ▸ isUnreserved_upperHexDigit (by omega))

/-! ## Characters -/

theorem percentQuote_cons (c : Char) (text : List Char) :
    percentQuote (c :: text) = percentQuote [c] ++ percentQuote text := by
  simp [percentQuote_eq_flatMap, utf8Bytes]

/-- A quoted text consists of unreserved characters and escapes. -/
theorem mem_percentQuote {text : List Char} {c : Char} (h : c ∈ percentQuote text) :
    isUnreserved c = true ∨ c = '%' := by
  rw [percentQuote_eq_flatMap, List.mem_flatMap] at h
  rcases h with ⟨byte, _, hmem⟩
  exact mem_quoteByte hmem

private theorem percentQuote_singleton (c : Char) :
    percentQuote [c] = (String.utf8EncodeChar c).flatMap quoteByte := by
  simp [percentQuote_eq_flatMap, utf8Bytes]

/-- An ASCII character is quoted as its byte. -/
theorem percentQuote_ascii {c : Char} (h : c.toNat < 128) :
    percentQuote [c] =
      if isUnreserved c then [c]
      else ['%', upperHexDigit (c.toNat / 16), upperHexDigit (c.toNat % 16)] := by
  have hbyte : (UInt8.ofNat c.toNat).toNat = c.toNat := by
    rw [UInt8.toNat_ofNat']
    omega
  rw [percentQuote_singleton, utf8EncodeChar_ascii h, List.flatMap_singleton, quoteByte, hbyte,
    Char.ofNat_toNat]

/-- An unreserved character stands for itself. -/
theorem percentQuote_unreserved {c : Char} (h : isUnreserved c = true) :
    percentQuote [c] = [c] := by
  rw [percentQuote_ascii (isUnreserved_lt h), if_pos h]

/-- Any other character is quoted by escapes. -/
theorem percent_mem_percentQuote {c : Char} (h : ¬ isUnreserved c = true) :
    '%' ∈ percentQuote [c] := by
  by_cases hascii : c.toNat < 128
  · rw [percentQuote_ascii hascii, if_neg h]
    exact List.mem_cons_self
  · rcases List.exists_mem_of_ne_nil _ (String.utf8EncodeChar_ne_nil (c := c)) with ⟨byte, hbyte⟩
    rw [percentQuote_singleton, List.mem_flatMap]
    refine ⟨byte, hbyte, ?_⟩
    rw [quoteByte_nonAscii (utf8EncodeChar_nonAscii hascii byte hbyte)]
    exact List.mem_cons_self

private theorem percentQuote_singleton_ne_nil (c : Char) : percentQuote [c] ≠ [] := by
  by_cases hplain : isUnreserved c = true
  · rw [percentQuote_unreserved hplain]
    exact List.cons_ne_nil c []
  · exact List.ne_nil_of_mem (percent_mem_percentQuote hplain)

/-- Quoting does not shorten a text. -/
theorem length_le_length_percentQuote (text : List Char) :
    text.length ≤ (percentQuote text).length := by
  induction text with
  | nil => exact Nat.zero_le _
  | cons c rest ih =>
      have hpos := List.length_pos_of_ne_nil (percentQuote_singleton_ne_nil c)
      rw [percentQuote_cons, List.length_append, List.length_cons]
      omega

/-- Full stops stand for themselves. -/
theorem percentQuote_of_dots {text : List Char} (h : ∀ c ∈ text, c = '.') :
    percentQuote text = text := by
  induction text with
  | nil => rfl
  | cons c rest ih =>
      rw [List.forall_mem_cons] at h
      rw [percentQuote_cons, ih h.2, h.1, percentQuote_unreserved (by decide)]
      rfl

/-- Only full stops are quoted by full stops. -/
theorem percentQuote_dots_iff (text : List Char) :
    (∀ c ∈ percentQuote text, c = '.') ↔ ∀ c ∈ text, c = '.' := by
  constructor
  · intro h
    induction text with
    | nil => nofun
    | cons c rest ih =>
        rw [percentQuote_cons, List.forall_mem_append] at h
        rw [List.forall_mem_cons]
        refine ⟨?_, ih h.2⟩
        by_cases hplain : isUnreserved c = true
        · rw [percentQuote_unreserved hplain] at h
          exact h.1 c (List.mem_singleton_self c)
        · exact absurd (h.1 '%' (percent_mem_percentQuote hplain)) (by decide)
  · intro h
    rwa [percentQuote_of_dots h]

end EtlTool
