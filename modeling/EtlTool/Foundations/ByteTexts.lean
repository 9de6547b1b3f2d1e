import Mathlib.Data.List.Basic

/-!
# Bytes as texts

Bytes written in a positional system: two digits of base 16 for every byte, or four digits of
base 64 for every three bytes, with padding at the end.  A reader of base 16 may accept several
digits of one value, and skips blanks between bytes; a reader of base 64 skips padding behind a
complete group.

Main results:

- Theorem {lit}`decode16_encode16` and {lit}`decode64_encode64`: what is written is read back.
- Theorem {lit}`length_of_decode64`: how many characters but padding a text in base 64 has.
-/

namespace ByteTexts

/-- The digits of a positional system, and the characters that are read as digits. -/
structure Digits (radix : Nat) where
  digit : Nat → Char
  value? : Char → Option Nat
  value?_digit : ∀ n < radix, value? (digit n) = some n

/-! ## Base 16 -/

section

variable (digits : Digits 16) (blank : Char → Bool)

/-- Two digits for every byte. -/
def encode16 (bytes : List UInt8) : List Char :=
  bytes.flatMap fun byte => [digits.digit (byte.toNat / 16), digits.digit (byte.toNat % 16)]

/-- Read two digits for every byte; blanks may stand before, between and after the bytes. -/
def decode16 : List Char → Option (List UInt8)
  | [] => some []
  | [c] => if blank c then some [] else none
  | c :: d :: rest =>
      if blank c then decode16 (d :: rest)
      else
        match digits.value? c, digits.value? d with
        | some high, some low => (decode16 rest).map (UInt8.ofNat (high * 16 + low) :: ·)
        | _, _ => none

variable {digits blank}

theorem decode16_encode16 (hblank : ∀ n < 16, blank (digits.digit n) = false)
    (bytes : List UInt8) : decode16 digits blank (encode16 digits bytes) = some bytes := by
  induction bytes with
  | nil => rfl
  | cons byte rest ih =>
      have hbyte := byte.toNat_lt
      have hhigh : byte.toNat / 16 < 16 := by omega
      have hlow : byte.toNat % 16 < 16 := by omega
      have hwhole : byte.toNat / 16 * 16 + byte.toNat % 16 = byte.toNat := by omega
      rw [encode16, List.flatMap_cons, List.cons_append, List.cons_append, List.nil_append,
        decode16, hblank _ hhigh, digits.value?_digit _ hhigh, digits.value?_digit _ hlow]
      rw [encode16] at ih
      simp only [Bool.false_eq_true, if_false, ih, hwhole, Option.map_some, UInt8.ofNat_toNat]

end

/-! ## Base 64 -/

section

variable (digits : Digits 64) (pad : Char)

/-- Four digits for every three bytes, and padding. -/
def encode64 : List UInt8 → List Char
  | [] => []
  | [a] =>
      let n := a.toNat * 16
      [digits.digit (n / 64), digits.digit (n % 64), pad, pad]
  | [a, b] =>
      let n := (a.toNat * 256 + b.toNat) * 4
      [digits.digit (n / 4096), digits.digit (n / 64 % 64), digits.digit (n % 64), pad]
  | a :: b :: c :: rest =>
      let n := (a.toNat * 256 + b.toNat) * 256 + c.toNat
      [digits.digit (n / 262144), digits.digit (n / 4096 % 64), digits.digit (n / 64 % 64),
        digits.digit (n % 64)] ++ encode64 rest

/-- Read four digits for every three bytes.  Only the last group may be padded; if it is
complete, padding may follow it. -/
def decode64 : List Char → Option (List UInt8)
  | [] => some []
  | a :: b :: c :: d :: rest =>
      match digits.value? a, digits.value? b with
      | some x, some y =>
          if c = pad ∧ d = pad ∧ rest = [] then some [UInt8.ofNat (x * 4 + y / 16)]
          else
            match digits.value? c with
            | none => none
            | some z =>
                if d = pad ∧ rest = [] then
                  some [UInt8.ofNat (x * 4 + y / 16), UInt8.ofNat (y % 16 * 16 + z / 4)]
                else
                  match digits.value? d with
                  | none => none
                  | some w =>
                      (if rest.all (· == pad) then some [] else decode64 rest).map fun bytes =>
                        UInt8.ofNat (x * 4 + y / 16) :: UInt8.ofNat (y % 16 * 16 + z / 4) ::
                          UInt8.ofNat (z % 4 * 64 + w) :: bytes
      | _, _ => none
  | _ => none

variable {digits pad}

/-- What is written begins with a digit. -/
theorem eq_nil_of_all_pad (hpad : ∀ n < 64, digits.digit n ≠ pad) {bytes : List UInt8}
    (h : (encode64 digits pad bytes).all (· == pad) = true) : bytes = [] := by
  have hhead : ∀ {n : Nat} {rest : List Char}, n < 64 →
      (digits.digit n :: rest).all (· == pad) = false := by
    intro n rest hn
    simp [hpad n hn]
  rw [encode64.eq_def] at h
  split at h
  · rfl
  · rename_i a
    have ha := a.toNat_lt
    rw [hhead (by omega)] at h
    cases h
  · rename_i a b
    have ha := a.toNat_lt
    have hb := b.toNat_lt
    rw [hhead (by omega)] at h
    cases h
  · rename_i a b c rest
    have ha := a.toNat_lt
    have hb := b.toNat_lt
    have hc := c.toNat_lt
    rw [List.cons_append, hhead (by omega)] at h
    cases h

theorem decode64_encode64 (hpad : ∀ n < 64, digits.digit n ≠ pad) (bytes : List UInt8) :
    decode64 digits pad (encode64 digits pad bytes) = some bytes := by
  induction bytes using encode64.induct with
  | case1 => rfl
  | case2 a =>
      have ha := a.toNat_lt
      have hx : a.toNat * 16 / 64 < 64 := by omega
      have hy : a.toNat * 16 % 64 < 64 := by omega
      have hbyte : a.toNat * 16 / 64 * 4 + a.toNat * 16 % 64 / 16 = a.toNat := by omega
      rw [encode64, decode64, digits.value?_digit _ hx, digits.value?_digit _ hy]
      simp only [and_self, if_true, hbyte, UInt8.ofNat_toNat]
  | case3 a b =>
      have ha := a.toNat_lt
      have hb := b.toNat_lt
      rw [encode64]
      generalize hn : (a.toNat * 256 + b.toNat) * 4 = n
      have hx : n / 4096 < 64 := by omega
      have hy : n / 64 % 64 < 64 := by omega
      have hz : n % 64 < 64 := by omega
      have hfirst : n / 4096 * 4 + n / 64 % 64 / 16 = a.toNat := by omega
      have hsecond : n / 64 % 64 % 16 * 16 + n % 64 / 4 = b.toNat := by omega
      rw [decode64, digits.value?_digit _ hx, digits.value?_digit _ hy,
        digits.value?_digit _ hz]
      simp only [hpad _ hz, false_and, if_false, and_self, if_true, hfirst, hsecond,
        UInt8.ofNat_toNat]
  | case4 a b c rest ih =>
      have ha := a.toNat_lt
      have hb := b.toNat_lt
      have hc := c.toNat_lt
      rw [encode64]
      generalize hn : (a.toNat * 256 + b.toNat) * 256 + c.toNat = n
      have hx : n / 262144 < 64 := by omega
      have hy : n / 4096 % 64 < 64 := by omega
      have hz : n / 64 % 64 < 64 := by omega
      have hw : n % 64 < 64 := by omega
      have hfirst : n / 262144 * 4 + n / 4096 % 64 / 16 = a.toNat := by omega
      have hsecond : n / 4096 % 64 % 16 * 16 + n / 64 % 64 / 4 = b.toNat := by omega
      have hthird : n / 64 % 64 % 4 * 64 + n % 64 = c.toNat := by omega
      simp only [List.cons_append, List.nil_append]
      rw [decode64, digits.value?_digit _ hx, digits.value?_digit _ hy,
        digits.value?_digit _ hz, digits.value?_digit _ hw]
      have hrest : (if (encode64 digits pad rest).all (· == pad) then some []
          else decode64 digits pad (encode64 digits pad rest)) = some rest := by
        split
        · rename_i hall
          rw [eq_nil_of_all_pad hpad hall]
        · exact ih
      simp only [hpad _ hz, hpad _ hw, false_and, if_false, hrest, hfirst, hsecond, hthird,
        Option.map_some, UInt8.ofNat_toNat]

/-- Besides padding a text has four characters for every three bytes, and two or three for one
or two bytes that are left. -/
theorem length_of_decode64 (hpad : digits.value? pad = none) :
    ∀ {text : List Char} {bytes : List UInt8}, decode64 digits pad text = some bytes →
      text.countP (· != pad) = (4 * bytes.length + 2) / 3
  | [], _, h => by
      cases h
      rfl
  | [_], _, h => by cases h
  | [_, _], _, h => by cases h
  | [_, _, _], _, h => by cases h
  | a :: b :: c :: d :: rest, bytes, h => by
      have hdigit : ∀ {c : Char} {n : Nat}, digits.value? c = some n → (c != pad) = true := by
        intro c n hc
        rw [bne_iff_ne]
        rintro rfl
        rw [hpad] at hc
        cases hc
      rw [decode64] at h
      split at h
      · rename_i x y hx hy
        split at h
        · rename_i hlast
          rcases hlast with ⟨rfl, rfl, rfl⟩
          cases h
          simp [hdigit hx, hdigit hy]
        · split at h
          · cases h
          · rename_i z hz
            split at h
            · rename_i hlast
              rcases hlast with ⟨rfl, rfl⟩
              cases h
              simp [hdigit hx, hdigit hy, hdigit hz]
            · split at h
              · cases h
              · rename_i w hw
                rcases Option.map_eq_some_iff.mp h with ⟨later, hlater, rfl⟩
                have hrest : rest.countP (· != pad) = (4 * later.length + 2) / 3 := by
                  split at hlater
                  · rename_i hall
                    cases hlater
                    rw [List.countP_eq_zero.mpr]
                    · rfl
                    · intro c hc
                      simpa using List.all_eq_true.mp hall c hc
                  · exact length_of_decode64 hpad hlater
                simp only [List.countP_cons, hdigit hx, hdigit hy, hdigit hz, hdigit hw, hrest,
                  List.length_cons, if_true]
                omega
      · cases h

end

end ByteTexts
