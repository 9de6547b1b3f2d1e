import EtlTool.Core.PercentEncoding
import EtlTool.Foundations.LossyUtf8
import EtlTool.Foundations.QuotedTexts
import Mathlib.Data.List.TakeWhile

/-!
# Form encoding

The query of a URL as names and values, read and written as an HTML form does: a space
becomes a plus sign, and an asterisk stays as it is if it is safe.  Percent encoding, under
which a secret is looked for, writes both as escapes.

Masks in a form-encoded text may cut an escape.  What is read from such a text is still
written in it in the one way in which forms are written, unless it comes from a cut escape.

Main results:

- Theorem {lit}`parseQsl_urlencode`: names and values are read back.
- Theorem {lit}`Encoded.replacesAll`: masks in a form-encoded text.
- Theorem {lit}`Encoded.quotePlus_infix`: a word that is read from such a text.
-/

namespace EtlTool

open TextReplacement

/-! ## Reading -/

/-- An ASCII character. -/
def isAscii (c : Char) : Bool :=
  c.toNat < 128

/-- The byte of an ASCII character. -/
def asciiByte (c : Char) : UInt8 :=
  UInt8.ofNat c.toNat

/-- The byte that two hexadecimal digits write. -/
def hexByte? (high low : Char) : Option UInt8 :=
  match hexDigit? high, hexDigit? low with
  | some x, some y => some (UInt8.ofNat (x * 16 + y))
  | _, _ => none

/-- {lit}`unquote_to_bytes` of ASCII characters. -/
def unquoteBytes : List Char → List UInt8
  | [] => []
  | '%' :: high :: low :: rest =>
      match hexByte? high low with
      | some byte => byte :: unquoteBytes rest
      | none => asciiByte '%' :: unquoteBytes (high :: low :: rest)
  | c :: rest => asciiByte c :: unquoteBytes rest

/-- {lit}`_generate_unquoted_parts`: runs of ASCII characters are decoded. -/
def unquoteParts : Nat → List Char → List Char
  | 0, _ => []
  | _ + 1, [] => []
  | fuel + 1, c :: rest =>
      if isAscii c then
        LossyUtf8.decode (unquoteBytes ((c :: rest).takeWhile isAscii)) ++
          unquoteParts fuel ((c :: rest).dropWhile isAscii)
      else c :: unquoteParts fuel rest

/-- {lit}`unquote(text)`. -/
def unquote (text : List Char) : List Char :=
  if '%' ∈ text then unquoteParts text.length text else text

/-- {lit}`text.replace("+", " ")`. -/
def plusToSpace (text : List Char) : List Char :=
  text.map fun c => if c = '+' then ' ' else c

/-- {lit}`text.split(mark, 1)`: what stands in front of and behind the first mark. -/
def splitOnce (mark : Char) (text : List Char) : List Char × List Char :=
  (text.takeWhile (· != mark), (text.dropWhile (· != mark)).tail)

/-- {lit}`parse_qsl(query, keep_blank_values=True)`. -/
def parseQsl (query : List Char) : List (List Char × List Char) :=
  ((query.splitOn '&').filter (· ≠ [])).map fun field =>
    (unquote (plusToSpace (splitOnce '=' field).1), unquote (plusToSpace (splitOnce '=' field).2))

/-! ## Writing -/

/-- {lit}`quote(text, safe)`. -/
def quoteSafe (safe text : List Char) : List Char :=
  (utf8Bytes text).flatMap fun byte =>
    let c := Char.ofNat byte.toNat
    if isUnreserved c || safe.contains c then [c]
    else ['%', upperHexDigit (byte.toNat / 16), upperHexDigit (byte.toNat % 16)]

/-- {lit}`quote_plus(text, safe)`. -/
def quotePlus (safe text : List Char) : List Char :=
  if ' ' ∈ text then (quoteSafe (safe ++ [' ']) text).map fun c => if c = ' ' then '+' else c
  else quoteSafe safe text

/-- A name and a value as a form writes them. -/
def formField (pair : List Char × List Char) : List Char :=
  quotePlus ['*'] pair.1 ++ '=' :: quotePlus ['*'] pair.2

/-- {lit}`urlencode(pairs, safe="*")`. -/
def urlencode (pairs : List (List Char × List Char)) : List Char :=
  ['&'].intercalate (pairs.map formField)

/-! ## Bytes -/

/-- A byte that a form writes as an escape. -/
def isFormEscaped (byte : UInt8) : Bool :=
  !isUnreserved (Char.ofNat byte.toNat) && byte != asciiByte '*' && byte != asciiByte ' '

/-- How a form writes a byte. -/
def formByte (byte : UInt8) : List Char :=
  if isFormEscaped byte then
    ['%', upperHexDigit (byte.toNat / 16), upperHexDigit (byte.toNat % 16)]
  else if byte = asciiByte ' ' then ['+'] else [Char.ofNat byte.toNat]

private theorem toNat_asciiByte {c : Char} (h : c.toNat < 128) : (asciiByte c).toNat = c.toNat := by
  rw [asciiByte, UInt8.toNat_ofNat']
  omega

private theorem asciiByte_inj {c d : Char} (hc : c.toNat < 128) (hd : d.toNat < 128)
    (h : asciiByte c = asciiByte d) : c = d := by
  have hnat := congrArg UInt8.toNat h
  rw [toNat_asciiByte hc, toNat_asciiByte hd] at hnat
  rw [← Char.ofNat_toNat c, hnat, Char.ofNat_toNat]

/-- An ASCII byte of a character is the character. -/
theorem eq_of_asciiByte_mem {c d : Char} (hc : c.toNat < 128)
    (h : asciiByte c ∈ String.utf8EncodeChar d) : d = c := by
  by_cases hd : d.toNat < 128
  · rw [utf8EncodeChar_ascii hd, List.mem_singleton] at h
    exact (asciiByte_inj hc hd h).symm
  · have hbyte := utf8EncodeChar_nonAscii hd _ h
    rw [toNat_asciiByte hc] at hbyte
    omega

/-- An ASCII character of a text is a byte of it. -/
theorem asciiByte_mem {c : Char} {text : List Char} (hc : c.toNat < 128) (h : c ∈ text) :
    asciiByte c ∈ utf8Bytes text := by
  refine List.mem_flatMap.mpr ⟨c, h, ?_⟩
  rw [utf8EncodeChar_ascii hc]
  exact List.mem_singleton_self _

/-- An ASCII byte of the UTF-8 form comes from the character itself. -/
theorem mem_of_asciiByte_mem {c : Char} {text : List Char} (hc : c.toNat < 128)
    (h : asciiByte c ∈ utf8Bytes text) : c ∈ text := by
  rcases List.mem_flatMap.mp h with ⟨d, hd, hbyte⟩
  rwa [eq_of_asciiByte_mem hc hbyte] at hd

/-- ASCII bytes at the end of a text are its last characters. -/
theorem suffix_of_asciiBytes {word : List Char} (hword : ∀ c ∈ word, c.toNat < 128) :
    ∀ {text : List Char}, word.map asciiByte <:+ utf8Bytes text → word <:+ text := by
  induction word using List.reverseRecOn with
  | nil => exact fun _ => List.nil_suffix
  | append_singleton word c ih =>
      intro text h
      rw [List.forall_mem_append, List.forall_mem_singleton] at hword
      rcases List.eq_nil_or_concat text with rfl | ⟨text, d, rfl⟩
      · simp [utf8Bytes] at h
      · have hbytes : utf8Bytes (text ++ [d]) = utf8Bytes text ++ String.utf8EncodeChar d := by
          simp [utf8Bytes]
        rw [List.concat_eq_append, hbytes, List.map_append, List.map_singleton] at h
        -- the last byte is one of the last character
        have hmem : asciiByte c ∈ String.utf8EncodeChar d := by
          rcases h with ⟨before, hbefore⟩
          have hlast := congrArg List.getLast? hbefore
          rw [← List.append_assoc, List.getLast?_concat,
            List.getLast?_append_of_ne_nil _ String.utf8EncodeChar_ne_nil] at hlast
          exact List.mem_of_getLast? hlast.symm
        have hd := eq_of_asciiByte_mem hword.2 hmem
        rw [hd, utf8EncodeChar_ascii hword.2] at h
        rw [List.concat_eq_append, hd]
        exact List.suffix_append_self_iff.mpr (ih hword.1 (List.suffix_append_self_iff.mp h))

/-! ## Quoted texts -/

private theorem formByte_space : formByte (asciiByte ' ') = ['+'] := by
  decide

/-- An unreserved character stands for itself. -/
theorem formByte_unreserved {c : Char} (h : isUnreserved c = true) :
    formByte (asciiByte c) = [c] := by
  have hlt := isUnreserved_lt h
  have hspace : c ≠ ' ' := by
    rintro rfl
    exact absurd h (by decide)
  rw [formByte, isFormEscaped, toNat_asciiByte hlt, Char.ofNat_toNat, h, Bool.not_true,
    Bool.false_and, Bool.false_and, if_neg Bool.false_ne_true,
    if_neg fun heq => hspace (asciiByte_inj hlt (by decide) heq)]

private theorem formByte_cases (byte : UInt8) :
    (isFormEscaped byte = true ∧ formByte byte =
      ['%', upperHexDigit (byte.toNat / 16), upperHexDigit (byte.toNat % 16)]) ∨
    (byte = asciiByte ' ' ∧ formByte byte = ['+']) ∨
    ∃ c, byte = asciiByte c ∧ (isUnreserved c = true ∨ c = '*') ∧ formByte byte = [c] := by
  have hall : ∀ n < 256, isFormEscaped (UInt8.ofNat n) = true ∨ n = 32 ∨
      (UInt8.ofNat n = asciiByte (Char.ofNat n) ∧
        (isUnreserved (Char.ofNat n) = true ∨ Char.ofNat n = '*') ∧ n ≠ 32) := by
    decide +kernel
  have hbyte := hall byte.toNat byte.toNat_lt
  rw [UInt8.ofNat_toNat] at hbyte
  rcases hbyte with hescaped | hspace | ⟨hself, hplain, hne⟩
  · exact Or.inl ⟨hescaped, by rw [formByte, if_pos hescaped]⟩
  · have hself : byte = asciiByte ' ' := UInt8.toNat_inj.mp hspace
    exact Or.inr (Or.inl ⟨hself, by rw [hself, formByte_space]⟩)
  · refine Or.inr (Or.inr ⟨Char.ofNat byte.toNat, hself, hplain, ?_⟩)
    rcases hplain with hunreserved | hstar
    · rw [hself, formByte_unreserved hunreserved, ← hself]
    · rw [hself, hstar]
      decide

/-- A form writes a text byte by byte. -/
theorem quotePlus_eq_flatMap (text : List Char) :
    quotePlus ['*'] text = (utf8Bytes text).flatMap formByte := by
  have hplus : ∀ n < 256,
      ((if isUnreserved (Char.ofNat n) || ['*', ' '].contains (Char.ofNat n) then [Char.ofNat n]
        else ['%', upperHexDigit (n / 16), upperHexDigit (n % 16)]).map
          fun c => if c = ' ' then '+' else c) = formByte (UInt8.ofNat n) := by
    decide +kernel
  have hquote : ∀ n < 256, n ≠ 32 →
      (if isUnreserved (Char.ofNat n) || ['*'].contains (Char.ofNat n) then [Char.ofNat n]
        else ['%', upperHexDigit (n / 16), upperHexDigit (n % 16)]) =
          formByte (UInt8.ofNat n) := by
    decide +kernel
  unfold quotePlus
  split
  · rw [quoteSafe, List.map_flatMap]
    refine List.flatMap_congr fun byte _ => ?_
    have hbyte := hplus byte.toNat byte.toNat_lt
    rwa [UInt8.ofNat_toNat] at hbyte
  · rename_i hspace
    refine List.flatMap_congr fun byte hmem => ?_
    have hne : byte.toNat ≠ 32 := by
      intro heq
      have hself : byte = asciiByte ' ' := UInt8.toNat_inj.mp heq
      exact hspace (mem_of_asciiByte_mem (by decide) (hself ▸ hmem))
    have hbyte := hquote byte.toNat byte.toNat_lt hne
    rwa [UInt8.ofNat_toNat] at hbyte

/-- Without spaces and asterisks a form writes what {lit}`quote` writes. -/
theorem quotePlus_eq_percentQuote {text : List Char} (hspace : ' ' ∉ text) (hstar : '*' ∉ text) :
    quotePlus ['*'] text = percentQuote text := by
  rw [quotePlus_eq_flatMap, percentQuote_eq_flatMap]
  refine List.flatMap_congr fun byte hmem => ?_
  have hne : ∀ c, c.toNat < 128 → c ∉ text → byte ≠ asciiByte c := by
    rintro c hc hnot rfl
    exact hnot (mem_of_asciiByte_mem hc hmem)
  have hescaped : isFormEscaped byte = !isUnreserved (Char.ofNat byte.toNat) := by
    rw [isFormEscaped, bne_iff_ne.mpr (hne '*' (by decide) hstar),
      bne_iff_ne.mpr (hne ' ' (by decide) hspace), Bool.and_true, Bool.and_true]
  rw [formByte, quoteByte, hescaped, if_neg (hne ' ' (by decide) hspace)]
  cases isUnreserved (Char.ofNat byte.toNat) <;> rfl

/-- A query of one pair is its field. -/
theorem urlencode_singleton (pair : List Char × List Char) : urlencode [pair] = formField pair := by
  simp [urlencode]

/-- A query of several pairs joins the fields by {lit}`&`. -/
theorem urlencode_cons_cons (pair next : List Char × List Char)
    (pairs : List (List Char × List Char)) :
    urlencode (pair :: next :: pairs) = formField pair ++ '&' :: urlencode (next :: pairs) := by
  simp [urlencode, List.intercalate_cons_cons]

/-! ## Form-encoded texts -/

/-- What masks leave behind the percent sign of an escape that they cut. -/
def IsCutTail (tail : List Char) : Prop :=
  tail = [] ∨ ∃ n < 16, tail = [upperHexDigit n]

/-- A character that stands for itself, or marks the parts of a form-encoded text. -/
def isFormChar (c : Char) : Bool :=
  isUnreserved c || ['*', '+', '&', '='].contains c

/-- A form-encoded text with masks. -/
inductive Encoded : List Char → Prop where
  | nil : Encoded []
  | plain (c : Char) (rest : List Char) (hc : isFormChar c = true) (h : Encoded rest) :
      Encoded (c :: rest)
  | escape (byte : UInt8) (rest : List Char) (hbyte : isFormEscaped byte = true)
      (h : Encoded rest) :
      Encoded ('%' :: upperHexDigit (byte.toNat / 16) :: upperHexDigit (byte.toNat % 16) :: rest)
  | cut (tail rest : List Char) (htail : IsCutTail tail) (h : Encoded (tail ++ '*' :: rest)) :
      Encoded ('%' :: (tail ++ '*' :: rest))

private theorem isFormChar_upperHexDigit {n : Nat} (h : n < 16) :
    isFormChar (upperHexDigit n) = true := by
  rw [isFormChar, isUnreserved_upperHexDigit h, Bool.true_or]

namespace Encoded

variable {text left right rest out word : List Char} {c : Char}

/-- Encoded texts compose. -/
theorem append (hleft : Encoded left) (hright : Encoded right) : Encoded (left ++ right) := by
  induction hleft with
  | nil => exact hright
  | plain c rest hc _ ih => exact .plain c _ hc ih
  | escape byte rest hbyte _ ih => exact .escape byte _ hbyte ih
  | cut tail rest htail _ ih =>
      rw [List.append_assoc] at ih
      rw [List.cons_append, List.append_assoc]
      exact .cut tail _ htail ih

private theorem ofBytes (bytes : List UInt8) : Encoded (bytes.flatMap formByte) := by
  induction bytes with
  | nil => exact .nil
  | cons byte bytes ih =>
      have hbyte := byte.toNat_lt
      rw [List.flatMap_cons]
      rcases formByte_cases byte with ⟨hescaped, hform⟩ | ⟨_, hform⟩ | ⟨c, _, hplain, hform⟩
      · rw [hform]
        exact .escape byte _ hescaped ih
      · rw [hform]
        exact .plain '+' _ (by decide) ih
      · rw [hform]
        refine .plain c _ ?_ ih
        rcases hplain with hunreserved | rfl
        · rw [isFormChar, hunreserved, Bool.true_or]
        · decide

private theorem ofQuotePlus (text : List Char) : Encoded (quotePlus ['*'] text) := by
  rw [quotePlus_eq_flatMap]
  exact ofBytes _

private theorem ofFormField (pair : List Char × List Char) : Encoded (formField pair) :=
  (ofQuotePlus _).append (.plain '=' _ (by decide) (ofQuotePlus _))

/-- The encoded query is an encoded text. -/
theorem ofUrlencode (pairs : List (List Char × List Char)) : Encoded (urlencode pairs) := by
  induction pairs with
  | nil => exact .nil
  | cons pair pairs ih =>
      cases pairs with
      | nil =>
          rw [urlencode_singleton]
          exact ofFormField pair
      | cons next pairs =>
          rw [urlencode_cons_cons]
          exact (ofFormField pair).append (.plain '&' _ (by decide) ih)

/-- What follows a character is form-encoded too. -/
theorem tail (h : Encoded (c :: rest)) : Encoded rest := by
  cases h with
  | plain _ _ _ h => exact h
  | escape byte rest _ h =>
      have hbyte := byte.toNat_lt
      exact .plain _ _ (isFormChar_upperHexDigit (by omega))
        (.plain _ _ (isFormChar_upperHexDigit (by omega)) h)
  | cut tail rest _ h => exact h

/-- Every suffix of an encoded text is encoded. -/
theorem of_append_left (left : List Char) (h : Encoded (left ++ right)) : Encoded right := by
  induction left with
  | nil => exact h
  | cons c left ih => exact ih h.tail

/-- What stands in front of a mark is form-encoded too. -/
theorem of_append_mark (h : Encoded (left ++ '&' :: right)) : Encoded left := by
  generalize htext : left ++ '&' :: right = text at h
  induction h generalizing left with
  | nil => simp at htext
  | plain c rest hc _ ih =>
      cases left with
      | nil => exact .nil
      | cons d left =>
          rcases List.cons.inj htext with ⟨rfl, hrest⟩
          exact .plain d left hc (ih hrest)
  | escape byte rest hbyte _ ih =>
      have hlt := byte.toNat_lt
      have hdigit : ∀ n < 16, upperHexDigit n ≠ '&' := by decide
      match left with
      | [] => cases htext
      | [_] =>
          simp only [List.cons_append, List.nil_append, List.cons.injEq] at htext
          exact absurd htext.2.1.symm (hdigit _ (by omega))
      | [_, _] =>
          simp only [List.cons_append, List.nil_append, List.cons.injEq] at htext
          exact absurd htext.2.2.1.symm (hdigit _ (by omega))
      | _ :: _ :: _ :: left =>
          simp only [List.cons_append, List.cons.injEq] at htext
          rcases htext with ⟨rfl, rfl, rfl, hrest⟩
          exact .escape byte left hbyte (ih hrest)
  | cut tail rest htail _ ih =>
      have hdigit : ∀ n < 16, upperHexDigit n ≠ '&' := by decide
      cases left with
      | nil => cases htext
      | cons d left =>
          rcases List.cons.inj htext with ⟨rfl, hrest⟩
          have hleft := ih hrest
          rcases htail with rfl | ⟨n, hn, rfl⟩
          · cases left with
            | nil => cases hrest
            | cons e left =>
                rcases List.cons.inj hrest with ⟨rfl, _⟩
                exact .cut [] left (Or.inl rfl) hleft
          · match left with
            | [] => exact absurd (List.cons.inj hrest).1.symm (hdigit n hn)
            | [_] => cases (List.cons.inj (List.cons.inj hrest).2).1
            | _ :: _ :: left =>
                rcases List.cons.inj hrest with ⟨rfl, hmore⟩
                rcases List.cons.inj hmore with ⟨rfl, _⟩
                exact .cut [upperHexDigit n] left (Or.inr ⟨n, hn, rfl⟩) hleft

/-- Masks in a form-encoded text. -/
theorem replaces (h : Encoded text) (hword : word ≠ [])
    (hout : Replaces word redactionMask text out) : Encoded out := by
  have hmask : ∀ {out}, Encoded out → Encoded (redactionMask ++ out) := fun h =>
    .plain '*' _ (by decide) (.plain '*' _ (by decide) (.plain '*' _ (by decide) h))
  -- the text behind a percent sign that is kept begins with an asterisk behind a cut tail
  have hcut : ∀ {tail rest out}, IsCutTail tail → Encoded out →
      Replaces word redactionMask (tail ++ '*' :: rest) out → Encoded ('%' :: out) := by
    intro tail rest out htail hencoded hout
    have hstar : ∀ {rest out}, Replaces word redactionMask ('*' :: rest) out →
        ∃ more, out = '*' :: more := by
      intro rest out hout
      rcases hout.cons_inv hword with ⟨more, rfl⟩ | ⟨more, rfl, _⟩
      · exact ⟨'*' :: '*' :: more, rfl⟩
      · exact ⟨more, rfl⟩
    rcases htail with rfl | ⟨n, hn, rfl⟩
    · rcases hstar hout with ⟨more, rfl⟩
      exact .cut [] more (Or.inl rfl) hencoded
    · rcases hout.cons_inv hword with ⟨more, rfl⟩ | ⟨more, rfl, hmore⟩
      · exact .cut [] ('*' :: '*' :: more) (Or.inl rfl) hencoded
      · rcases hstar hmore with ⟨more, rfl⟩
        exact .cut [upperHexDigit n] more (Or.inr ⟨n, hn, rfl⟩) hencoded
  -- induction on the length, as a hit skips a part of the text
  induction hlength : text.length using Nat.strong_induction_on generalizing text out with
  | _ n ih =>
      cases hout with
      | nil => exact .nil
      | hit rest out hrest =>
          have hpos := List.length_pos_of_ne_nil hword
          rw [List.length_append] at hlength
          exact hmask (ih rest.length (by omega) (h.of_append_left word) hrest rfl)
      | keep c rest out _ hrest =>
          rw [List.length_cons] at hlength
          have hlater := ih rest.length (by omega) h.tail hrest rfl
          cases h with
          | plain _ _ hc _ => exact .plain c out hc hlater
          | escape byte rest hbyte h =>
              have hlt := byte.toNat_lt
              -- the two digits are kept, or a mask stands in place of one of them
              rcases hrest.cons_inv hword with ⟨more, rfl⟩ | ⟨more, rfl, hmore⟩
              · exact .cut [] ('*' :: '*' :: more) (Or.inl rfl) hlater
              · rcases hmore.cons_inv hword with ⟨more, rfl⟩ | ⟨more, rfl, hlast⟩
                · exact .cut [upperHexDigit (byte.toNat / 16)] ('*' :: '*' :: more)
                    (Or.inr ⟨byte.toNat / 16, by omega, rfl⟩) hlater
                · simp only [List.length_cons] at hlength
                  exact .escape byte more hbyte (ih rest.length (by omega) h hlast rfl)
          | cut tail rest htail _ => exact hcut htail hlater hrest

/-- Masking keeps a text encoded. -/
theorem replacesAll {words : List (List Char)} (h : Encoded text)
    (hwords : ∀ word ∈ words, word ≠ [])
    (hout : ReplacesAll redactionMask words text out) : Encoded out := by
  induction hout with
  | nil text => exact h
  | cons word words text between out hfirst _ ih =>
      rw [List.forall_mem_cons] at hwords
      exact ih (h.replaces hwords.1 hfirst) hwords.2

end Encoded

/-! ## What is read -/

private theorem unquoteBytes_cons {c : Char} (h : c ≠ '%') (rest : List Char) :
    unquoteBytes (c :: rest) = asciiByte c :: unquoteBytes rest := by
  rw [unquoteBytes]
  exact fun _ _ _ hpercent _ => h hpercent

/-- A percent sign without two hexadecimal digits behind it stands for itself. -/
theorem unquoteBytes_percent {rest : List Char}
    (h : ∀ high low more, rest = high :: low :: more → hexByte? high low = none) :
    unquoteBytes ('%' :: rest) = asciiByte '%' :: unquoteBytes rest := by
  match rest with
  | [] => rfl
  | [_] => rfl
  | high :: low :: more => rw [unquoteBytes, h high low more rfl]

private theorem hexByte?_upperHexDigit (byte : UInt8) :
    hexByte? (upperHexDigit (byte.toNat / 16)) (upperHexDigit (byte.toNat % 16)) = some byte := by
  have hdigit : ∀ n < 16, hexDigit? (upperHexDigit n) = some n := by decide
  have hlt := byte.toNat_lt
  rw [hexByte?, hdigit _ (by omega), hdigit _ (by omega)]
  dsimp only
  rw [Nat.div_add_mod', UInt8.ofNat_toNat]

/-- An escape is read as its byte. -/
theorem unquoteBytes_escape (byte : UInt8) (rest : List Char) :
    unquoteBytes ('%' :: upperHexDigit (byte.toNat / 16) :: upperHexDigit (byte.toNat % 16) ::
      rest) = byte :: unquoteBytes rest := by
  rw [unquoteBytes, hexByte?_upperHexDigit]

private theorem plusToSpace_cons (c : Char) (rest : List Char) :
    plusToSpace (c :: rest) = (if c = '+' then ' ' else c) :: plusToSpace rest := by
  rw [plusToSpace, List.map_cons, ← plusToSpace]

private theorem plusToSpace_upperHexDigit {n : Nat} (h : n < 16) (rest : List Char) :
    plusToSpace (upperHexDigit n :: rest) = upperHexDigit n :: plusToSpace rest := by
  have hdigit : ∀ n < 16, upperHexDigit n ≠ '+' := by decide
  rw [plusToSpace_cons, if_neg (hdigit n h)]

private theorem unquoteBytes_plain {c : Char} (hc : isFormChar c = true) (rest : List Char) :
    unquoteBytes (plusToSpace (c :: rest)) =
      asciiByte (if c = '+' then ' ' else c) :: unquoteBytes (plusToSpace rest) := by
  rw [plusToSpace_cons, unquoteBytes_cons]
  split
  · decide
  · rintro rfl
    exact absurd hc (by decide)

/-- A cut escape is read as its characters. -/
theorem unquoteBytes_cut {tail : List Char} (htail : IsCutTail tail) (rest : List Char) :
    unquoteBytes (plusToSpace ('%' :: (tail ++ '*' :: rest))) =
      asciiByte '%' :: unquoteBytes (plusToSpace (tail ++ '*' :: rest)) := by
  have hstar : ∀ high low, high = '*' ∨ low = '*' → hexByte? high low = none := by
    have hnone : hexDigit? '*' = none := by decide
    rintro high low (rfl | rfl)
    · rw [hexByte?, hnone]
    · rw [hexByte?, hnone]
      cases hexDigit? high <;> rfl
  rw [plusToSpace_cons, if_neg (by decide)]
  refine unquoteBytes_percent fun high low more hmore => hstar high low ?_
  rcases htail with rfl | ⟨n, hn, rfl⟩
  · rw [List.nil_append, plusToSpace_cons, if_neg (by decide)] at hmore
    exact Or.inl (List.cons.inj hmore).1.symm
  · rw [List.singleton_append, plusToSpace_upperHexDigit hn, plusToSpace_cons,
      if_neg (by decide)] at hmore
    exact Or.inr (List.cons.inj (List.cons.inj hmore).2).1.symm

/-- Behind a cut escape stands an asterisk. -/
theorem unquoteBytes_cutTail {tail : List Char} (htail : IsCutTail tail) (rest : List Char) :
    unquoteBytes (plusToSpace (tail ++ '*' :: rest)) =
      tail.map asciiByte ++ asciiByte '*' :: unquoteBytes (plusToSpace rest) := by
  have hstar : unquoteBytes (plusToSpace ('*' :: rest)) =
      asciiByte '*' :: unquoteBytes (plusToSpace rest) := by
    rw [plusToSpace_cons, if_neg (by decide), unquoteBytes_cons (by decide)]
  rcases htail with rfl | ⟨n, hn, rfl⟩
  · exact hstar
  · have hpercent : ∀ n < 16, upperHexDigit n ≠ '%' := by decide
    rw [List.singleton_append, plusToSpace_upperHexDigit hn, unquoteBytes_cons (hpercent n hn),
      hstar]
    rfl

/-- A beginning of a cut tail is a cut tail. -/
theorem exists_cutTail_of_prefix {tail : List Char} (htail : IsCutTail tail) {bytes : List UInt8}
    (h : bytes <+: tail.map asciiByte) : ∃ tail', IsCutTail tail' ∧ bytes = tail'.map asciiByte := by
  rcases htail with rfl | ⟨n, hn, rfl⟩
  · exact ⟨[], Or.inl rfl, List.prefix_nil.mp h⟩
  · cases bytes with
    | nil => exact ⟨[], Or.inl rfl, rfl⟩
    | cons byte bytes =>
        rcases List.cons_prefix_cons.mp h with ⟨rfl, hrest⟩
        rw [List.prefix_nil.mp hrest]
        exact ⟨[upperHexDigit n], Or.inr ⟨n, hn, rfl⟩, rfl⟩

/-- The bytes of a word that can be told apart from what masks leave: no asterisk, no marks
of the text, and no escape that ends with the word. -/
structure Readable (text : List Char) (bytes : List UInt8) : Prop where
  star : asciiByte '*' ∉ bytes
  marks : ∀ c ∈ text, c = '&' ∨ c = '=' → asciiByte c ∉ bytes
  ends : ∀ tail, IsCutTail tail → ¬ ('%' :: tail).map asciiByte <:+ bytes

/-- Readability passes to fewer characters and to a suffix of the bytes. -/
theorem Readable.mono {text text' : List Char} {bytes bytes' : List UInt8}
    (h : Readable text bytes) (htext : text' ⊆ text) (hbytes : bytes' <:+ bytes) :
    Readable text' bytes' where
  star := fun hmem => h.star (hbytes.subset hmem)
  marks := fun c hc hmark hmem => h.marks c (htext hc) hmark (hbytes.subset hmem)
  ends := fun tail htail hsuffix => h.ends tail htail (hsuffix.trans hbytes)

namespace Encoded

variable {text : List Char} {bytes : List UInt8}

/-- A word that is read at the start of a form-encoded text is written there. -/
theorem formBytes_prefix (h : Encoded text) (hbytes : Readable text bytes)
    (hread : bytes <+: unquoteBytes (plusToSpace text)) : bytes.flatMap formByte <+: text := by
  induction h generalizing bytes with
  | nil =>
      rw [List.prefix_nil.mp hread]
      exact List.nil_prefix
  | plain c rest hc _ ih =>
      cases bytes with
      | nil => exact List.nil_prefix
      | cons byte bytes =>
          rw [unquoteBytes_plain hc, List.cons_prefix_cons] at hread
          rcases hread with ⟨rfl, hrest⟩
          have hwritten : formByte (asciiByte (if c = '+' then ' ' else c)) = [c] := by
            simp only [isFormChar, Bool.or_eq_true, List.contains_eq_mem, List.mem_cons,
              List.not_mem_nil, or_false, decide_eq_true_eq] at hc
            rcases hc with hplain | rfl | rfl | rfl | rfl
            · rw [if_neg (by rintro rfl; exact absurd hplain (by decide)),
                formByte_unreserved hplain]
            · exact absurd List.mem_cons_self hbytes.star
            · decide
            · exact absurd List.mem_cons_self (hbytes.marks '&' List.mem_cons_self (Or.inl rfl))
            · exact absurd List.mem_cons_self (hbytes.marks '=' List.mem_cons_self (Or.inr rfl))
          rw [List.flatMap_cons, hwritten]
          exact List.cons_prefix_cons.mpr ⟨rfl, ih (hbytes.mono (List.subset_cons_self _ _) (List.suffix_cons _ _)) hrest⟩
  | escape byte rest hbyte _ ih =>
      have hlt := byte.toNat_lt
      cases bytes with
      | nil => exact List.nil_prefix
      | cons first bytes =>
          rw [plusToSpace_cons, if_neg (by decide), plusToSpace_upperHexDigit (by omega),
            plusToSpace_upperHexDigit (by omega), unquoteBytes_escape,
            List.cons_prefix_cons] at hread
          rcases hread with ⟨rfl, hrest⟩
          have hlater : Readable rest bytes :=
            hbytes.mono (fun c hc => by simp [hc]) (List.suffix_cons _ _)
          rw [List.flatMap_cons, formByte, if_pos hbyte]
          exact (List.prefix_append_right_inj _).mpr (ih hlater hrest)
  | cut tail rest htail _ ih =>
      cases bytes with
      | nil => exact List.nil_prefix
      | cons byte bytes =>
          rw [unquoteBytes_cut htail, List.cons_prefix_cons] at hread
          rcases hread with ⟨rfl, hrest⟩
          -- the word ends in the cut escape, as there is no asterisk in it
          have hstar : asciiByte '*' ∉ bytes := fun hmem =>
            hbytes.star (List.mem_cons_of_mem _ hmem)
          rw [unquoteBytes_cutTail htail] at hrest
          rcases exists_cutTail_of_prefix htail (prefix_of_append_symbol _ hstar hrest) with
            ⟨tail', htail', rfl⟩
          exact absurd (List.suffix_refl _) (hbytes.ends tail' htail')

/-- One byte is read from the first characters. -/
theorem read_cons {c : Char} {rest : List Char} (h : Encoded (c :: rest)) :
    ∃ byte later, later <:+ rest ∧ Encoded later ∧
      unquoteBytes (plusToSpace (c :: rest)) = byte :: unquoteBytes (plusToSpace later) := by
  cases h with
  | plain _ _ hc h =>
      exact ⟨_, rest, List.suffix_refl rest, h, unquoteBytes_plain hc rest⟩
  | escape byte rest _ h =>
      have hlt := byte.toNat_lt
      refine ⟨byte, rest, (List.suffix_cons _ _).trans (List.suffix_cons _ _), h, ?_⟩
      rw [plusToSpace_cons, if_neg (by decide), plusToSpace_upperHexDigit (by omega),
        plusToSpace_upperHexDigit (by omega), unquoteBytes_escape]
  | cut tail rest htail h =>
      exact ⟨_, _, List.suffix_refl _, h, unquoteBytes_cut htail rest⟩

/-- A word that is read from a form-encoded text is written in it. -/
theorem formBytes_infix (h : Encoded text) (hbytes : Readable text bytes)
    (hread : bytes <:+: unquoteBytes (plusToSpace text)) : bytes.flatMap formByte <:+: text := by
  induction hlength : text.length using Nat.strong_induction_on generalizing text with
  | _ n ih =>
      cases text with
      | nil =>
          rw [List.infix_nil.mp hread]
          exact List.nil_infix
      | cons c rest =>
          rcases h.read_cons with ⟨byte, later, hlater, hencoded, hcons⟩
          rw [hcons, List.infix_cons_iff, ← hcons] at hread
          rcases hread with hstart | hmore
          · exact (h.formBytes_prefix hbytes hstart).isInfix
          · have hsuffix := hlater.trans (List.suffix_cons c rest)
            have hshorter := hlater.length_le
            rw [List.length_cons] at hlength
            exact (ih later.length (by omega) hencoded
              (hbytes.mono hsuffix.subset (List.suffix_refl _)) hmore rfl).trans hsuffix.isInfix

/-- An escape in a form-encoded text is that of a byte that forms escape. -/
theorem isFormEscaped_of_escape (h : Encoded text) (byte : UInt8)
    (hinside : ['%', upperHexDigit (byte.toNat / 16), upperHexDigit (byte.toNat % 16)] <:+: text) :
    isFormEscaped byte = true := by
  have hlt := byte.toNat_lt
  have hstar : ∀ n < 16, upperHexDigit n ≠ '*' := by decide
  induction h with
  | nil => simp at hinside
  | plain c rest hc _ ih =>
      rcases List.infix_cons_iff.mp hinside with hstart | hlater
      · rw [← (List.cons_prefix_cons.mp hstart).1] at hc
        exact absurd hc (by decide)
      · exact ih hlater
  | escape first rest hfirst hrest ih =>
      rcases List.infix_cons_iff.mp hinside with hstart | hlater
      · have hsame := hexByte?_upperHexDigit byte
        simp only [List.cons_prefix_cons] at hstart
        rw [hstart.2.1, hstart.2.2.1, hexByte?_upperHexDigit] at hsame
        exact Option.some.inj hsame ▸ hfirst
      · have hdigit : ∀ n < 16, upperHexDigit n ≠ '%' := by decide
        have hfirstLt := first.toNat_lt
        -- the digits of the escape are no percent signs
        rcases List.infix_cons_iff.mp hlater with hstart | hlater
        · exact absurd (List.cons_prefix_cons.mp hstart).1.symm (hdigit _ (by omega))
        · rcases List.infix_cons_iff.mp hlater with hstart | hlater
          · exact absurd (List.cons_prefix_cons.mp hstart).1.symm (hdigit _ (by omega))
          · exact ih hlater
  | cut tail rest htail _ ih =>
      rcases List.infix_cons_iff.mp hinside with hstart | hlater
      · have htailStart := (List.cons_prefix_cons.mp hstart).2
        rcases htail with rfl | ⟨n, hn, rfl⟩
        · exact absurd (List.cons_prefix_cons.mp htailStart).1 (hstar _ (by omega))
        · have hlast := (List.cons_prefix_cons.mp htailStart).2
          exact absurd (List.cons_prefix_cons.mp hlast).1 (hstar _ (by omega))
      · exact ih hlater

/-- The characters of a form-encoded text. -/
theorem isFormChar_of_mem (h : Encoded text) {c : Char} (hc : c ∈ text) :
    isFormChar c = true ∨ c = '%' := by
  induction h with
  | nil => exact absurd hc List.not_mem_nil
  | plain d rest hd _ ih =>
      rcases List.mem_cons.mp hc with rfl | hc
      · exact Or.inl hd
      · exact ih hc
  | escape byte rest _ _ ih =>
      have hlt := byte.toNat_lt
      simp only [List.mem_cons] at hc
      rcases hc with rfl | rfl | rfl | hc
      · exact Or.inr rfl
      · exact Or.inl (isFormChar_upperHexDigit (by omega))
      · exact Or.inl (isFormChar_upperHexDigit (by omega))
      · exact ih hc
  | cut tail rest _ _ ih =>
      rcases List.mem_cons.mp hc with rfl | hc
      · exact Or.inr rfl
      · exact ih hc

/-- A form-encoded text is ASCII. -/
theorem isAscii_of_mem (h : Encoded text) : ∀ c ∈ text, isAscii c = true := by
  intro c hc
  rcases h.isFormChar_of_mem hc with hform | rfl
  · simp only [isFormChar, Bool.or_eq_true, List.contains_eq_mem, List.mem_cons,
      List.not_mem_nil, or_false, decide_eq_true_eq] at hform
    rcases hform with hunreserved | rfl | rfl | rfl | rfl
    · exact decide_eq_true (isUnreserved_lt hunreserved)
    all_goals decide
  · decide

end Encoded

/-- The bytes of ASCII characters are decoded together. -/
theorem unquote_eq_decode {text : List Char} (h : ∀ c ∈ text, isAscii c = true) :
    unquote text = LossyUtf8.decode (unquoteBytes text) := by
  unfold unquote
  split
  · cases text with
    | nil => rfl
    | cons c rest =>
        rw [List.length_cons, unquoteParts, if_pos (h c List.mem_cons_self),
          List.takeWhile_eq_self_iff.mpr h, List.dropWhile_eq_nil_iff.mpr h]
        cases rest <;> simp [unquoteParts]
  · rename_i hpercent
    have hbytes : unquoteBytes text = LossyUtf8.encode text := by
      induction text with
      | nil => rfl
      | cons c rest ih =>
          rw [List.forall_mem_cons] at h
          rw [List.mem_cons, not_or] at hpercent
          rw [unquoteBytes_cons (Ne.symm hpercent.1), ih h.2 hpercent.2, LossyUtf8.encode_cons,
            utf8EncodeChar_ascii (of_decide_eq_true h.1)]
          rfl
    rw [hbytes, LossyUtf8.decode_encode]

private theorem isAscii_plusToSpace {text : List Char} (h : ∀ c ∈ text, isAscii c = true) :
    ∀ c ∈ plusToSpace text, isAscii c = true := by
  intro c hc
  rcases List.mem_map.mp hc with ⟨d, hd, rfl⟩
  split
  · decide
  · exact h d hd

/-- A word that is read from a form-encoded text is written in it as forms write it. -/
theorem Encoded.quotePlus_infix {text word : List Char} (h : Encoded text)
    (hword : LossyUtf8.replacement ∉ word) (hbytes : Readable text (utf8Bytes word))
    (hread : word <:+: unquote (plusToSpace text)) : quotePlus ['*'] word <:+: text := by
  rw [unquote_eq_decode (isAscii_plusToSpace h.isAscii_of_mem)] at hread
  rw [quotePlus_eq_flatMap]
  exact h.formBytes_infix hbytes (LossyUtf8.encode_infix_le hword hread)

/-! ## Round trips -/

private theorem unquoteBytes_flatMap_formByte (bytes : List UInt8) :
    unquoteBytes (plusToSpace (bytes.flatMap formByte)) = bytes := by
  induction bytes with
  | nil => rfl
  | cons byte bytes ih =>
      have hlt := byte.toNat_lt
      rw [List.flatMap_cons]
      rcases formByte_cases byte with ⟨_, hform⟩ | ⟨rfl, hform⟩ | ⟨c, rfl, hplain, hform⟩
      · rw [hform, List.cons_append, List.cons_append, List.singleton_append, plusToSpace_cons,
          if_neg (by decide), plusToSpace_upperHexDigit (by omega),
          plusToSpace_upperHexDigit (by omega), unquoteBytes_escape, ih]
      · rw [hform, List.singleton_append, unquoteBytes_plain (by decide), ih]
        rfl
      · have hc : isFormChar c = true := by
          rcases hplain with hunreserved | rfl
          · rw [isFormChar, hunreserved, Bool.true_or]
          · decide
        have hplus : c ≠ '+' := by
          rintro rfl
          exact absurd hplain (by decide)
        rw [hform, List.singleton_append, unquoteBytes_plain hc, if_neg hplus, ih]

/-- What a form writes is read back. -/
theorem unquote_quotePlus (text : List Char) :
    unquote (plusToSpace (quotePlus ['*'] text)) = text := by
  rw [unquote_eq_decode (isAscii_plusToSpace (Encoded.ofQuotePlus text).isAscii_of_mem),
    quotePlus_eq_flatMap, unquoteBytes_flatMap_formByte]
  exact LossyUtf8.decode_encode text

/-- The characters of a written text. -/
theorem mem_quotePlus {text : List Char} {c : Char} (h : c ∈ quotePlus ['*'] text) :
    isUnreserved c = true ∨ c = '%' ∨ c = '*' ∨ c = '+' := by
  rw [quotePlus_eq_flatMap, List.mem_flatMap] at h
  rcases h with ⟨byte, _, hmem⟩
  have hlt := byte.toNat_lt
  rcases formByte_cases byte with ⟨_, hform⟩ | ⟨_, hform⟩ | ⟨d, _, hplain, hform⟩
  · rw [hform] at hmem
    simp only [List.mem_cons, List.not_mem_nil, or_false] at hmem
    rcases hmem with rfl | rfl | rfl
    · exact Or.inr (Or.inl rfl)
    · exact Or.inl (isUnreserved_upperHexDigit (by omega))
    · exact Or.inl (isUnreserved_upperHexDigit (by omega))
  · rw [hform, List.mem_singleton] at hmem
    exact Or.inr (Or.inr (Or.inr hmem))
  · rw [hform, List.mem_singleton] at hmem
    rw [hmem]
    exact hplain.imp id fun hstar => Or.inr (Or.inl hstar)

/-- A reserved character does not occur in a quoted text. -/
theorem notMem_quotePlus {c : Char}
    (h : isUnreserved c = false ∧ c ≠ '%' ∧ c ≠ '*' ∧ c ≠ '+') (text : List Char) :
    c ∉ quotePlus ['*'] text := by
  intro hmem
  rcases mem_quotePlus hmem with hc | hc | hc | hc
  · rw [h.1] at hc
    cases hc
  · exact h.2.1 hc
  · exact h.2.2.1 hc
  · exact h.2.2.2 hc

/-- The first mark is behind a text without marks. -/
theorem splitOnce_append {mark : Char} {front : List Char} (h : mark ∉ front) (rest : List Char) :
    splitOnce mark (front ++ rest) =
      (front ++ (splitOnce mark rest).1, (splitOnce mark rest).2) := by
  have hfront : ∀ c ∈ front, (c != mark) = true := fun c hc =>
    bne_iff_ne.mpr fun heq => h (heq ▸ hc)
  rw [splitOnce, List.takeWhile_append_of_pos hfront, List.dropWhile_append_of_pos hfront,
    splitOnce]

/-- A text that begins with the mark is split before it. -/
theorem splitOnce_mark (mark : Char) (rest : List Char) :
    splitOnce mark (mark :: rest) = ([], rest) := by
  simp [splitOnce]

/-- A text without the mark is not split. -/
theorem splitOnce_of_notMem {mark : Char} {text : List Char} (h : mark ∉ text) :
    splitOnce mark text = (text, []) := by
  have hnil : splitOnce mark [] = ([], []) := rfl
  have hsplit := splitOnce_append h []
  rw [hnil, List.append_nil] at hsplit
  exact hsplit

/-- The two parts of a text at its first mark. -/
theorem splitOnce_spec (mark : Char) (text : List Char) :
    mark ∉ (splitOnce mark text).1 ∧
      (text = (splitOnce mark text).1 ∧ (splitOnce mark text).2 = [] ∨
        text = (splitOnce mark text).1 ++ mark :: (splitOnce mark text).2) := by
  by_cases hmark : mark ∈ text
  · rcases List.eq_append_cons_of_mem hmark with ⟨front, rest, rfl, hfront⟩
    rw [splitOnce_append hfront, splitOnce_mark, List.append_nil]
    exact ⟨hfront, Or.inr rfl⟩
  · rw [splitOnce_of_notMem hmark]
    exact ⟨hmark, Or.inl ⟨rfl, rfl⟩⟩

/-- Both parts of a split consist of characters of the text. -/
theorem splitOnce_subset (mark : Char) (text : List Char) :
    (splitOnce mark text).1 ⊆ text ∧ (splitOnce mark text).2 ⊆ text :=
  ⟨(List.takeWhile_prefix _).subset,
    fun _ hc => (List.dropWhile_suffix _).subset (List.tail_subset _ hc)⟩

/-- Names and values are read back. -/
theorem parseQsl_urlencode (pairs : List (List Char × List Char)) :
    parseQsl (urlencode pairs) = pairs := by
  cases pairs with
  | nil => rfl
  | cons pair pairs =>
      have hmark : ∀ field ∈ (pair :: pairs).map formField, '&' ∉ field := by
        intro field hfield
        rcases List.mem_map.mp hfield with ⟨p, _, rfl⟩
        rw [formField, List.mem_append, List.mem_cons]
        rintro (hname | hequals | hvalue)
        · exact notMem_quotePlus (by decide) _ hname
        · cases hequals
        · exact notMem_quotePlus (by decide) _ hvalue
      have hsome : ∀ field ∈ (pair :: pairs).map formField, field ≠ [] := by
        intro field hfield
        rcases List.mem_map.mp hfield with ⟨p, _, rfl⟩
        exact List.append_ne_nil_of_right_ne_nil _ (List.cons_ne_nil _ _)
      rw [parseQsl, urlencode, List.splitOn_intercalate '&' hmark (by simp),
        List.filter_eq_self.mpr fun field hfield => decide_eq_true (hsome field hfield),
        List.map_map]
      refine (List.map_congr_left fun p _ => ?_).trans (List.map_id _)
      rw [Function.comp_apply, formField, splitOnce_append (notMem_quotePlus (by decide) _),
        splitOnce_mark, List.append_nil, unquote_quotePlus, unquote_quotePlus]
      rfl

/-- A part of a written text without escapes takes one byte for each character, apart from
the digits of an escape in front of it. -/
theorem length_le_of_infix_formBytes {bytes : List UInt8} {word : List Char}
    (hpercent : '%' ∉ word) (h : word <:+: bytes.flatMap formByte) :
    word.length ≤ bytes.length + 1 := by
  have hstart : ∀ {bytes : List UInt8} {word : List Char}, '%' ∉ word →
      word <+: bytes.flatMap formByte → word.length ≤ bytes.length := by
    intro bytes
    induction bytes with
    | nil =>
        intro word _ h
        rw [List.prefix_nil.mp h]
        exact le_rfl
    | cons byte bytes ih =>
        intro word hpercent h
        cases word with
        | nil => exact Nat.zero_le _
        | cons c word =>
            rw [List.mem_cons, not_or] at hpercent
            rw [List.flatMap_cons] at h
            rcases formByte_cases byte with ⟨_, hform⟩ | ⟨_, hform⟩ | ⟨d, _, _, hform⟩
            · rw [hform] at h
              exact absurd (List.cons_prefix_cons.mp h).1.symm hpercent.1
            all_goals
              rw [hform] at h
              exact Nat.succ_le_succ (ih hpercent.2 (List.cons_prefix_cons.mp h).2)
  induction bytes with
  | nil =>
      rw [List.infix_nil.mp h]
      exact Nat.zero_le _
  | cons byte bytes ih =>
      rw [List.length_cons]
      have hlater : word <:+: bytes.flatMap formByte → word.length ≤ bytes.length + 1 + 1 :=
        fun hlater => (ih hlater).trans (Nat.le_succ _)
      have hwhole : word <+: (byte :: bytes).flatMap formByte →
          word.length ≤ bytes.length + 1 + 1 := fun hprefix =>
        (hstart hpercent hprefix).trans (Nat.le_succ _)
      -- at most two digits stand in front of the other bytes
      have hdigits : ∀ digits : List Char, digits.length ≤ 2 →
          word <+: digits ++ bytes.flatMap formByte → word.length ≤ bytes.length + 1 + 1 := by
        intro digits hdigits hprefix
        rcases List.prefix_or_prefix_of_prefix hprefix (List.prefix_append _ _) with
          hshort | ⟨more, rfl⟩
        · have hle := hshort.length_le
          omega
        · have hle := hstart (fun hmem => hpercent (List.mem_append_right _ hmem))
            ((List.prefix_append_right_inj digits).mp hprefix)
          rw [List.length_append]
          omega
      rw [List.flatMap_cons] at h hwhole
      rcases formByte_cases byte with ⟨_, hform⟩ | ⟨_, hform⟩ | ⟨d, _, _, hform⟩
      · rw [hform] at h hwhole
        rcases List.infix_cons_iff.mp h with hprefix | h
        · exact hwhole hprefix
        · rcases List.infix_cons_iff.mp h with hprefix | h
          · exact hdigits [_, _] le_rfl hprefix
          · rcases List.infix_cons_iff.mp h with hprefix | h
            · exact hdigits [_] (Nat.le_succ 1) hprefix
            · exact hlater h
      all_goals
        rw [hform] at h hwhole
        rcases List.infix_cons_iff.mp h with hprefix | h
        · exact hwhole hprefix
        · exact hlater h

/-! ## Fields -/

/-- A part between two marks. -/
theorem exists_of_mem_splitOn {mark : Char} {field text : List Char}
    (h : field ∈ text.splitOn mark) :
    mark ∉ field ∧ ∃ left right, text = left ++ (field ++ right) ∧
      (right = [] ∨ ∃ more, right = mark :: more) := by
  induction hlength : text.length using Nat.strong_induction_on generalizing text with
  | _ n ih =>
      by_cases hmark : mark ∈ text
      · rcases List.eq_append_cons_of_mem hmark with ⟨first, rest, rfl, hfirst⟩
        rw [List.splitOn_append_cons_self_of_not_mem hfirst, List.mem_cons] at h
        rw [List.length_append, List.length_cons] at hlength
        rcases h with rfl | hlater
        · exact ⟨hfirst, [], mark :: rest, rfl, Or.inr ⟨rest, rfl⟩⟩
        · rcases ih rest.length (by omega) hlater rfl with ⟨hfree, left, right, rfl, hright⟩
          exact ⟨hfree, first ++ mark :: left, right, by simp, hright⟩
      · rw [List.splitOn_eq_singleton hmark, List.mem_singleton] at h
        rw [h]
        exact ⟨hmark, [], [], by simp, Or.inl rfl⟩

/-- A value stands behind an equals sign and ends at a mark. -/
theorem exists_of_mem_parseQsl {pair : List Char × List Char} {query : List Char}
    (h : pair ∈ parseQsl query) (hvalue : pair.2 ≠ []) :
    ∃ left value right, query = left ++ '=' :: (value ++ right) ∧ '&' ∉ value ∧
      (right = [] ∨ ∃ more, right = '&' :: more) ∧ pair.2 = unquote (plusToSpace value) := by
  rcases List.mem_map.mp h with ⟨field, hfield, rfl⟩
  rcases exists_of_mem_splitOn (List.mem_filter.mp hfield).1 with
    ⟨hmark, left, right, rfl, hright⟩
  by_cases hequals : '=' ∈ field
  · rcases List.eq_append_cons_of_mem hequals with ⟨name, value, rfl, hname⟩
    refine ⟨left ++ name, value, right, by simp, fun hmem => hmark (by simp [hmem]), hright, ?_⟩
    rw [splitOnce_append hname, splitOnce_mark]
  · rw [splitOnce_of_notMem hequals] at hvalue
    exact absurd rfl hvalue

/-- A symbol is behind the parts of a text in which it is not. -/
theorem exists_of_append_eq {c : Char} {front rest left right : List Char} (hfront : c ∉ front)
    (h : front ++ rest = left ++ c :: right) :
    ∃ later, left = front ++ later ∧ rest = later ++ c :: right := by
  rcases List.append_eq_append_iff.mp h with ⟨later, hleft, hrest⟩ | ⟨later, hleft, hrest⟩
  · exact ⟨later, hleft, hrest⟩
  · cases later with
    | nil => exact ⟨[], by simpa using hleft.symm, hrest.symm⟩
    | cons d later =>
        rw [hleft, (List.cons.inj hrest).1] at hfront
        exact absurd (List.mem_append_right _ List.mem_cons_self) hfront

/-- Between two equals signs of a written query is a mark. -/
theorem mark_mem_urlencode {pairs : List (List Char × List Char)} {left between right : List Char}
    (h : urlencode pairs = left ++ '=' :: (between ++ '=' :: right)) : '&' ∈ between := by
  induction pairs generalizing left with
  | nil => simp [urlencode] at h
  | cons pair pairs ih =>
      -- behind the field is nothing, or a mark and the other fields
      have hfield : ∃ last, urlencode (pair :: pairs) = formField pair ++ last ∧
          (last = [] ∨ last = '&' :: urlencode pairs) := by
        cases pairs with
        | nil => exact ⟨[], by rw [urlencode_singleton, List.append_nil], Or.inl rfl⟩
        | cons next pairs => exact ⟨_, urlencode_cons_cons pair next pairs, Or.inr rfl⟩
      rcases hfield with ⟨last, hlast, hcases⟩
      have hbehind : ∀ {later rest}, last = later ++ '=' :: rest →
          ∃ more, later = '&' :: more ∧ urlencode pairs = more ++ '=' :: rest := by
        intro later rest hlater
        rcases hcases with hnil | hmark
        · simp [hnil] at hlater
        · rw [hmark] at hlater
          cases later with
          | nil => cases hlater
          | cons d later =>
              rcases List.cons.inj hlater with ⟨rfl, hrest⟩
              exact ⟨later, rfl, hrest⟩
      rw [hlast, formField, List.append_assoc, List.cons_append] at h
      rcases exists_of_append_eq (notMem_quotePlus (by decide) _) h with ⟨later, rfl, hname⟩
      cases later with
      | nil =>
          rcases exists_of_append_eq (notMem_quotePlus (by decide) _) (List.cons.inj hname).2 with
            ⟨more, rfl, hvalue⟩
          rcases hbehind hvalue with ⟨_, rfl, _⟩
          exact List.mem_append_right _ List.mem_cons_self
      | cons d later =>
          rcases exists_of_append_eq (notMem_quotePlus (by decide) _) (List.cons.inj hname).2 with
            ⟨more, rfl, hvalue⟩
          rcases hbehind hvalue with ⟨_, rfl, hrest⟩
          exact ih hrest

end EtlTool
