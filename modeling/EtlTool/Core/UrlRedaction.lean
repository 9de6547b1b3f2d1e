import EtlTool.Core.FormEncoding
import EtlTool.Core.RedactionComplete

/-!
# Redaction of URLs

A URL is taken apart, the values of parameters with sensitive names are masked, and the URL
is put together again before it is redacted as a text.  Putting it together writes the query
as a form does, with plus signs for spaces, while the redactor looks for secrets as
{lit}`quote` writes them.

Main results:

- Theorem {lit}`urlsplit_query`: the query of a URL.
- Theorem {lit}`redactUrl_hides_of_alike`: secrets that forms write as {lit}`quote` does.
- Theorem {lit}`redactUrl_hides_iff_onlySensitive`: secrets of which no form occurs in the
  written query.
- Theorem {lit}`redactUrl_shows_spaces`: a secret with a space is left in some URL.

Current gaps:

- What {lit}`urlsplit` checks of a network location in brackets, or with characters that are
  not ASCII, is a parameter.
- URLs without a network location are put together as in Python 3.11.
-/

namespace EtlTool

open TextReplacement

/-! ## Parts of a URL -/

/-- The parts of a URL; an empty part is missing. -/
structure SplitResult where
  scheme : List Char
  netloc : List Char
  path : List Char
  query : List Char
  fragment : List Char
deriving DecidableEq

/-- A character that {lit}`urlsplit` removes from a URL. -/
def isRemoved (c : Char) : Bool :=
  ['\t', '\r', '\n'].contains c

/-- A control character or a space. -/
def isBlank (c : Char) : Bool :=
  c.toNat ≤ 0x20

/-- The URL that {lit}`urlsplit` reads: without blanks in front, tabs and new lines. -/
def cleanUrl (url : List Char) : List Char :=
  (url.dropWhile isBlank).filter fun c => !isRemoved c

/-- A character of {lit}`scheme_chars`. -/
def isSchemeChar (c : Char) : Bool :=
  c.isAlphanum || ['+', '-', '.'].contains c

/-- The scheme of a URL and the rest. -/
def takeScheme (url : List Char) : List Char × List Char :=
  let name := url.takeWhile (· != ':')
  match url.dropWhile (· != ':') with
  | [] => ([], url)
  | _ :: rest =>
      if name.head?.any Char.isAlpha && name.all isSchemeChar then (name.map Char.toLower, rest)
      else ([], url)

/-- A character that does not end a network location. -/
def inNetloc (c : Char) : Bool :=
  !(['/', '?', '#'].contains c)

/-- {lit}`_splitnetloc` behind two slashes: the network location and the rest. -/
def takeNetloc : List Char → List Char × List Char
  | '/' :: '/' :: rest => (rest.takeWhile inNetloc, rest.dropWhile inNetloc)
  | url => ([], url)

/-- The checks of network locations with brackets ({lit}`_check_bracketed_netloc`) and with
other characters than ASCII ({lit}`_checknetloc`). -/
structure NetlocChecks where
  bracketed : List Char → Bool
  normalized : List Char → Bool

/-- {lit}`urlsplit` raises no {lit}`ValueError` for the network location. -/
def NetlocChecks.accepts (checks : NetlocChecks) (netloc : List Char) : Bool :=
  (netloc.contains '[' == netloc.contains ']') &&
    (!netloc.contains '[' || checks.bracketed netloc) &&
    (netloc.all isAscii || checks.normalized netloc)

/-- {lit}`urllib.parse.urlsplit(url)`; {lean}`none` for a {lit}`ValueError`. -/
def urlsplit (checks : NetlocChecks) (url : List Char) : Option SplitResult :=
  let scheme := takeScheme (cleanUrl url)
  let netloc := takeNetloc scheme.2
  if checks.accepts netloc.1 then
    let fragment := splitOnce '#' netloc.2
    let query := splitOnce '?' fragment.1
    some ⟨scheme.1, netloc.1, query.1, query.2, fragment.2⟩
  else none

/-- {lit}`uses_netloc`. -/
def usesNetloc : List (List Char) :=
  ["ftp", "http", "gopher", "nntp", "telnet", "imap", "wais", "file", "mms", "https", "shttp",
    "snews", "prospero", "rtsp", "rtspu", "rsync", "svn", "svn+ssh", "sftp", "nfs", "git",
    "git+ssh", "ws", "wss"].map String.toList

/-- A part behind its mark, if it is not missing. -/
def withMark (mark : Char) (part : List Char) : List Char :=
  if part = [] then [] else mark :: part

/-- {lit}`urllib.parse.urlunsplit(parts)`. -/
def urlunsplit (parts : SplitResult) : List Char :=
  let path :=
    if parts.netloc ≠ [] ∨ parts.scheme ∈ usesNetloc ∧ parts.path.take 2 ≠ ['/', '/'] then
      '/' :: '/' :: (parts.netloc ++
        if parts.path ≠ [] ∧ parts.path.head? ≠ some '/' then '/' :: parts.path else parts.path)
    else parts.path
  let scheme := if parts.scheme = [] then [] else parts.scheme ++ [':']
  scheme ++ path ++ (withMark '?' parts.query ++ withMark '#' parts.fragment)

/-! ## Redaction -/

/-- The letter that a character stands for in a search that ignores case. -/
def foldCase (c : Char) : Char :=
  if c = '\u017F' then 's'
  else if c = '\u212A' then 'k'
  else if c = '\u0130' ∨ c = '\u0131' then 'i'
  else c.toLower

/-- The alternatives of {lit}`SENSITIVE_PARAM_RE`. -/
def sensitiveWords : List (List Char) :=
  ["key", "token", "secret", "password", "passwd", "pwd", "auth", "signature", "credential",
    "session"].map String.toList

/-- {lit}`SENSITIVE_PARAM_RE.search(name)`. -/
def isSensitiveParam (name : List Char) : Bool :=
  sensitiveWords.any fun word => decide (word <:+: name.map foldCase)

/-- The mask in place of the credentials in a network location. -/
def maskUserinfo (netloc : List Char) : List Char :=
  if '@' ∈ netloc then
    redactionMask ++ '@' :: (netloc.reverse.takeWhile (· != '@')).reverse
  else netloc

/-- The mask in place of the values of parameters with sensitive names. -/
def maskPairs (pairs : List (List Char × List Char)) : List (List Char × List Char) :=
  pairs.map fun pair => (pair.1, if isSensitiveParam pair.1 then redactionMask else pair.2)

/-- The parts that {lit}`redact_url` puts together again. -/
def maskParts (parts : SplitResult) : SplitResult where
  scheme := parts.scheme
  netloc := maskUserinfo parts.netloc
  path := parts.path
  query :=
    if parts.query = [] then parts.query else urlencode (maskPairs (parseQsl parts.query))
  fragment := parts.fragment

/-- {lit}`Redactor.redact_url`. -/
def Redactor.redactUrl (redactor : Redactor) (checks : NetlocChecks) (url : String) : String :=
  match urlsplit checks url.toList with
  | none => redactor.redact url
  | some parts => redactor.redact (String.ofList (urlunsplit (maskParts parts)))

/-- The query of a URL. -/
def queryOf (url : List Char) : List Char :=
  (splitOnce '?' (splitOnce '#' (cleanUrl url)).1).2

/-- The values of the query parameters of a URL. -/
def formValues (url : String) : List (List Char) :=
  (parseQsl (queryOf url.toList)).map Prod.snd

/-- No query parameter of the URL has the secret in its value. -/
def HidesSecret (secret url : String) : Prop :=
  ∀ value ∈ formValues url, ¬ secret.toList <:+: value

/-! ## The query of a URL -/

/-- A character that {lit}`urlsplit` keeps, and that begins neither query nor fragment. -/
def IsFrontChar (c : Char) : Prop :=
  c ≠ '?' ∧ c ≠ '#' ∧ isRemoved c = false

instance : DecidablePred IsFrontChar := fun c =>
  inferInstanceAs (Decidable (c ≠ '?' ∧ c ≠ '#' ∧ isRemoved c = false))

/-- The characters in the parts of a URL. -/
structure SplitResult.Clean (parts : SplitResult) : Prop where
  scheme : ∀ c ∈ parts.scheme, IsFrontChar c
  netloc : ∀ c ∈ parts.netloc, IsFrontChar c
  path : ∀ c ∈ parts.path, IsFrontChar c
  fragment : ∀ c ∈ parts.fragment, isRemoved c = false

private theorem isRemoved_of_mem_cleanUrl {url : List Char} {c : Char} (h : c ∈ cleanUrl url) :
    isRemoved c = false := by
  simpa using (List.mem_filter.mp h).2

private theorem isFrontChar_of_schemeChar {c : Char} (h : isSchemeChar c = true) :
    IsFrontChar c ∧ IsFrontChar c.toLower := by
  have hascii : ∀ n < 128, isSchemeChar (Char.ofNat n) = true →
      IsFrontChar (Char.ofNat n) ∧ IsFrontChar (Char.ofNat n).toLower := by
    decide
  have hlt : c.toNat < 128 := by
    simp only [isSchemeChar, Bool.or_eq_true, List.contains_eq_mem, decide_eq_true_eq,
      List.mem_cons, List.not_mem_nil, or_false] at h
    rcases h with halnum | rfl | rfl | rfl
    · exact isUnreserved_lt (by rw [isUnreserved, halnum, Bool.true_or])
    all_goals decide
  have hchar := hascii c.toNat hlt
  rw [Char.ofNat_toNat] at hchar
  exact hchar h

/-- The scheme and its colon are in front of the rest. -/
theorem takeScheme_spec (url : List Char) :
    (∀ c ∈ (takeScheme url).1, IsFrontChar c) ∧
      ∃ front, url = front ++ (takeScheme url).2 ∧ ∀ c ∈ front, IsFrontChar c := by
  have hnone : ∃ front, url = front ++ url ∧ ∀ c ∈ front, IsFrontChar c :=
    ⟨[], rfl, fun c hc => absurd hc List.not_mem_nil⟩
  have hsplit := List.takeWhile_append_dropWhile (p := (· != ':')) (l := url)
  unfold takeScheme
  dsimp only
  split
  · exact ⟨fun c hc => absurd hc List.not_mem_nil, hnone⟩
  · rename_i colon rest hrest
    split
    · rename_i hscheme
      rw [Bool.and_eq_true, List.all_eq_true] at hscheme
      have hcolon : colon = ':' := by
        have hhead := List.head_dropWhile_not (· != ':') (l := url) (by simp [hrest])
        simpa [hrest] using hhead
      constructor
      · intro c hc
        rcases List.mem_map.mp hc with ⟨d, hd, rfl⟩
        exact (isFrontChar_of_schemeChar (hscheme.2 d hd)).2
      · refine ⟨url.takeWhile (· != ':') ++ [':'], ?_, ?_⟩
        · rw [hrest, hcolon] at hsplit
          rw [List.append_assoc, List.singleton_append, hsplit]
        · refine List.forall_mem_append.mpr ⟨fun c hc => ?_, ?_⟩
          · exact (isFrontChar_of_schemeChar (hscheme.2 c hc)).1
          · exact List.forall_mem_singleton.mpr ⟨by decide, by decide, by decide⟩
    · exact ⟨fun c hc => absurd hc List.not_mem_nil, hnone⟩

/-- The network location and its slashes are in front of the rest. -/
theorem takeNetloc_spec (url : List Char) :
    ∃ front, url = front ++ (takeNetloc url).2 ∧ (takeNetloc url).1 ⊆ url ∧
      (∀ c ∈ (takeNetloc url).1, c ≠ '?' ∧ c ≠ '#') ∧ ∀ c ∈ front, c ≠ '?' ∧ c ≠ '#' := by
  have hinside : ∀ {c}, inNetloc c = true → c ≠ '?' ∧ c ≠ '#' := by
    intro c hc
    constructor <;>
      · rintro rfl
        exact absurd hc (by decide)
  unfold takeNetloc
  split
  · rename_i rest
    refine ⟨'/' :: '/' :: rest.takeWhile inNetloc, ?_, ?_, ?_, ?_⟩
    · rw [List.cons_append, List.cons_append, List.takeWhile_append_dropWhile]
    · exact fun c hc => List.mem_cons_of_mem _
        (List.mem_cons_of_mem _ ((List.takeWhile_prefix _).subset hc))
    · exact fun c hc => hinside (List.mem_takeWhile_imp hc)
    · exact List.forall_mem_cons.mpr ⟨by decide, List.forall_mem_cons.mpr
        ⟨by decide, fun c hc => hinside (List.mem_takeWhile_imp hc)⟩⟩
  · exact ⟨[], rfl, List.nil_subset _, fun c hc => absurd hc List.not_mem_nil,
      fun c hc => absurd hc List.not_mem_nil⟩

/-- What {lit}`urlsplit` takes for the query. -/
theorem urlsplit_query {checks : NetlocChecks} {url : List Char} {parts : SplitResult}
    (h : urlsplit checks url = some parts) : parts.query = queryOf url := by
  rcases takeScheme_spec (cleanUrl url) with ⟨_, scheme, hscheme, hfront⟩
  rcases takeNetloc_spec (takeScheme (cleanUrl url)).2 with ⟨netloc, hnetloc, _, _, hfront'⟩
  have hclean : ∀ mark, mark = '?' ∨ mark = '#' → mark ∉ scheme ++ netloc := by
    rintro mark hmark hmem
    rcases List.mem_append.mp hmem with hc | hc
    · rcases hmark with rfl | rfl
      · exact (hfront _ hc).1 rfl
      · exact (hfront _ hc).2.1 rfl
    · rcases hmark with rfl | rfl
      · exact (hfront' _ hc).1 rfl
      · exact (hfront' _ hc).2 rfl
  have hquery : queryOf url =
      (splitOnce '?' (splitOnce '#' (takeNetloc (takeScheme (cleanUrl url)).2).2).1).2 := by
    rw [queryOf]
    conv_lhs => rw [hscheme, hnetloc, ← List.append_assoc]
    rw [splitOnce_append (hclean '#' (Or.inr rfl)), splitOnce_append (hclean '?' (Or.inl rfl))]
  rw [urlsplit, Option.ite_none_right_eq_some] at h
  rw [hquery, ← Option.some.inj h.2]

/-- The characters in the parts of a URL. -/
theorem urlsplit_clean {checks : NetlocChecks} {url : List Char} {parts : SplitResult}
    (h : urlsplit checks url = some parts) : parts.Clean := by
  rcases takeScheme_spec (cleanUrl url) with ⟨hschemeChars, scheme, hscheme, _⟩
  rcases takeNetloc_spec (takeScheme (cleanUrl url)).2 with
    ⟨netloc, hnetloc, hsubset, hnetlocChars, _⟩
  rw [urlsplit, Option.ite_none_right_eq_some] at h
  have hrest : (takeScheme (cleanUrl url)).2 ⊆ cleanUrl url := by
    conv_rhs => rw [hscheme]
    exact List.subset_append_right scheme _
  have hlast : (takeNetloc (takeScheme (cleanUrl url)).2).2 ⊆ cleanUrl url := by
    refine List.Subset.trans ?_ hrest
    conv_rhs => rw [hnetloc]
    exact List.subset_append_right netloc _
  rw [← Option.some.inj h.2]
  refine ⟨hschemeChars, fun c hc => ?_, fun c hc => ?_, fun c hc => ?_⟩
  · exact ⟨(hnetlocChars c hc).1, (hnetlocChars c hc).2,
      isRemoved_of_mem_cleanUrl (hrest (hsubset hc))⟩
  · have hinside := (splitOnce_subset _ _).1 hc
    refine ⟨?_, ?_, isRemoved_of_mem_cleanUrl (hlast ((splitOnce_subset _ _).1 hinside))⟩
    · rintro rfl
      exact (splitOnce_spec '?' _).1 hc
    · rintro rfl
      exact (splitOnce_spec '#' _).1 hinside
  · exact isRemoved_of_mem_cleanUrl (hlast ((splitOnce_subset _ _).2 hc))

private theorem maskUserinfo_subset (netloc : List Char) :
    ∀ c ∈ maskUserinfo netloc, c ∈ netloc ∨ c = '*' ∨ c = '@' := by
  intro c hc
  unfold maskUserinfo at hc
  split at hc
  · rw [List.mem_append, List.mem_cons, List.mem_reverse] at hc
    rcases hc with hc | hc | hc
    · exact Or.inr (Or.inl (eq_star_of_mem_redactionMask hc))
    · exact Or.inr (Or.inr hc)
    · exact Or.inl (List.mem_reverse.mp ((List.takeWhile_prefix _).subset hc))
  · exact Or.inl hc

private theorem query_maskParts (parts : SplitResult) :
    (maskParts parts).query = urlencode (maskPairs (parseQsl parts.query)) := by
  simp only [maskParts]
  split
  · rename_i hnil
    rw [hnil]
    rfl
  · rfl

/-- A URL without query and fragment. -/
def urlFront (parts : SplitResult) : List Char :=
  urlunsplit { parts with query := [], fragment := [] }

/-- Query and fragment are put behind the rest of a URL. -/
theorem urlunsplit_eq (parts : SplitResult) :
    urlunsplit parts =
      urlFront parts ++ (withMark '?' parts.query ++ withMark '#' parts.fragment) := by
  have hnone : ∀ mark, withMark mark [] = [] := fun mark => if_pos rfl
  rw [urlFront, urlunsplit, urlunsplit]
  dsimp only
  rw [hnone, hnone, List.append_nil, List.append_nil]

/-- No marks of a query or a fragment are in front of them. -/
theorem isFrontChar_of_mem_urlFront {parts : SplitResult} (h : parts.Clean) :
    ∀ c ∈ urlFront (maskParts parts), IsFrontChar c := by
  have hnetloc : ∀ c ∈ (maskParts parts).netloc, IsFrontChar c := by
    intro c hc
    rcases maskUserinfo_subset _ c hc with hc | rfl | rfl
    · exact h.netloc c hc
    · decide
    · decide
  have hslash : IsFrontChar '/' := by decide
  have hnone : ∀ mark, withMark mark [] = [] := fun mark => if_pos rfl
  rw [urlFront, urlunsplit]
  dsimp only
  rw [hnone, hnone, List.append_nil, List.append_nil]
  simp only [List.forall_mem_append]
  constructor
  · split
    · exact fun c hc => absurd hc List.not_mem_nil
    · exact List.forall_mem_append.mpr ⟨h.scheme, List.forall_mem_singleton.mpr (by decide)⟩
  · split
    · refine List.forall_mem_cons.mpr ⟨hslash, List.forall_mem_cons.mpr ⟨hslash,
        List.forall_mem_append.mpr ⟨hnetloc, ?_⟩⟩⟩
      split
      · exact List.forall_mem_cons.mpr ⟨hslash, h.path⟩
      · exact h.path
    · exact h.path

/-- The URL that is redacted: query and fragment behind a text without their marks. -/
theorem urlunsplit_maskParts (parts : SplitResult) :
    urlunsplit (maskParts parts) =
      urlFront (maskParts parts) ++ (withMark '?' (urlencode (maskPairs (parseQsl parts.query))) ++
        withMark '#' parts.fragment) := by
  rw [urlunsplit_eq, query_maskParts]
  rfl

/-- Blanks in front of a URL are not read. -/
theorem cleanUrl_append {front rest : List Char} {c : Char}
    (hkept : ∀ d ∈ front ++ c :: rest, isRemoved d = false) (hc : isBlank c = false) :
    ∃ front', front' <:+ front ∧ cleanUrl (front ++ c :: rest) = front' ++ c :: rest := by
  have hsuffix := List.dropWhile_suffix (l := front) isBlank
  have hdrop : (front ++ c :: rest).dropWhile isBlank = front.dropWhile isBlank ++ c :: rest := by
    rw [List.dropWhile_append, List.dropWhile_cons_of_neg (by simp [hc])]
    split
    · rename_i hempty
      rw [List.isEmpty_iff.mp hempty, List.nil_append]
    · rfl
  refine ⟨_, hsuffix, ?_⟩
  rw [cleanUrl, hdrop, List.filter_eq_self]
  intro d hd
  rcases List.mem_append.mp hd with hd | hd
  · rw [hkept d (List.mem_append_left _ (hsuffix.subset hd)), Bool.not_false]
  · rw [hkept d (List.mem_append_right _ hd), Bool.not_false]

/-- What stands between the first question mark and the number sign. -/
theorem queryOf_append {front query fragment : List Char}
    (hkept : ∀ c ∈ front ++ '?' :: (query ++ fragment), isRemoved c = false)
    (hfront : '?' ∉ front ∧ '#' ∉ front) (hquery : '#' ∉ query)
    (hfragment : fragment = [] ∨ ∃ rest, fragment = '#' :: rest) :
    queryOf (front ++ '?' :: (query ++ fragment)) = query := by
  rcases cleanUrl_append hkept (by decide) with ⟨front', hsuffix, hclean⟩
  have hquestion : '?' ∉ front' := fun hmem => hfront.1 (hsuffix.subset hmem)
  have hsplit : (splitOnce '#' (front' ++ '?' :: (query ++ fragment))).1 = front' ++ '?' :: query := by
    have hnumber : '#' ∉ front' ++ '?' :: query := by
      rw [List.mem_append, List.mem_cons]
      rintro (hmem | hmem | hmem)
      · exact hfront.2 (hsuffix.subset hmem)
      · cases hmem
      · exact hquery hmem
    rw [← List.cons_append, ← List.append_assoc, splitOnce_append hnumber]
    rcases hfragment with rfl | ⟨rest, rfl⟩
    · exact List.append_nil _
    · rw [splitOnce_mark, List.append_nil]
  rw [queryOf, hclean, hsplit, splitOnce_append hquestion, splitOnce_mark]

/-- Where a query is found. -/
theorem exists_of_queryOf {url : List Char} (hkept : ∀ c ∈ url, isRemoved c = false)
    (h : queryOf url ≠ []) :
    ∃ front fragment, url = front ++ '?' :: (queryOf url ++ fragment) ∧
      ('?' ∉ front ∧ '#' ∉ front) ∧ '#' ∉ queryOf url ∧
        (fragment = [] ∨ ∃ rest, fragment = '#' :: rest) := by
  have hblank : ∀ c ∈ url.takeWhile isBlank, c ≠ '?' ∧ c ≠ '#' := by
    intro c hc
    constructor <;>
      · rintro rfl
        exact absurd (List.mem_takeWhile_imp hc) (by decide)
  have hurl : url = url.takeWhile isBlank ++ cleanUrl url := by
    have hclean : cleanUrl url = url.dropWhile isBlank := by
      refine List.filter_eq_self.mpr fun c hc => ?_
      rw [hkept c ((List.dropWhile_suffix _).subset hc), Bool.not_false]
    rw [hclean, List.takeWhile_append_dropWhile]
  rcases splitOnce_spec '#' (cleanUrl url) with ⟨hnumber, hfragment⟩
  rcases splitOnce_spec '?' (splitOnce '#' (cleanUrl url)).1 with ⟨hquestion, ⟨_, hnil⟩ | hquery⟩
  · exact absurd hnil h
  · change _ = _ ++ '?' :: queryOf url at hquery
    have hsplit : ∃ fragment, cleanUrl url = (splitOnce '#' (cleanUrl url)).1 ++ fragment ∧
        (fragment = [] ∨ ∃ rest, fragment = '#' :: rest) := by
      rcases hfragment with ⟨hnone, _⟩ | hsome
      · exact ⟨[], by rw [List.append_nil, ← hnone], Or.inl rfl⟩
      · exact ⟨_, hsome, Or.inr ⟨_, rfl⟩⟩
    rcases hsplit with ⟨fragment, hfragment, hcases⟩
    rw [hquery] at hnumber
    refine ⟨url.takeWhile isBlank ++ (splitOnce '?' (splitOnce '#' (cleanUrl url)).1).1, fragment,
      ?_, ⟨?_, ?_⟩, ?_, hcases⟩
    · conv_lhs => rw [hurl, hfragment, hquery]
      simp
    · exact List.not_mem_append (fun hmem => (hblank _ hmem).1 rfl) hquestion
    · exact List.not_mem_append (fun hmem => (hblank _ hmem).2 rfl)
        fun hmem => hnumber (List.mem_append_left _ hmem)
    · exact fun hmem => hnumber (List.mem_append_right _ (List.mem_cons_of_mem _ hmem))

/-! ## Spellings of a secret -/

/-- A form writes the secret as {lit}`quote` does. -/
def IsWrittenAlike (secret : List Char) : Prop :=
  quotePlus ['*'] secret = percentQuote secret

instance : DecidablePred IsWrittenAlike := fun secret =>
  inferInstanceAs (Decidable (quotePlus ['*'] secret = percentQuote secret))

private theorem formByte_subset_quotePlus {secret : List Char} {c : Char} (hc : c.toNat < 128)
    (hmem : c ∈ secret) : formByte (asciiByte c) ⊆ quotePlus ['*'] secret := by
  rw [quotePlus_eq_flatMap]
  exact fun d hd => List.mem_flatMap.mpr ⟨asciiByte c, asciiByte_mem hc hmem, hd⟩

/-- Forms write spaces and asterisks in their own way. -/
theorem isWrittenAlike_iff (secret : List Char) :
    IsWrittenAlike secret ↔ ' ' ∉ secret ∧ '*' ∉ secret := by
  constructor
  · intro halike
    refine ⟨fun hspace => ?_, fun hstar => ?_⟩
    · have hplus := formByte_subset_quotePlus (by decide) hspace (a := '+') (by decide)
      rw [halike] at hplus
      exact absurd (mem_percentQuote hplus) (by decide)
    · have hmem := formByte_subset_quotePlus (by decide) hstar (a := '*') (by decide)
      rw [halike] at hmem
      exact absurd (mem_percentQuote hmem) (by decide)
  · rintro ⟨hspace, hstar⟩
    exact quotePlus_eq_percentQuote hspace hstar

/-- The secret ends in the beginning of an escape. -/
def EndsInEscape (secret : List Char) : Prop :=
  ∃ tail, IsCutTail tail ∧ '%' :: tail <:+ secret

/-- No characters of the secret are taken for punctuation of the URL, nor for what masks
leave of an escape. -/
structure IsPlainInUrl (secret : List Char) (parts : SplitResult) : Prop where
  replacement : LossyUtf8.replacement ∉ secret
  escape : ¬ EndsInEscape secret
  separators : '&' ∉ secret ∨ '=' ∉ secret
  fragment : '#' ∉ secret ∨ parts.fragment = []

/-- The redactor has one secret. -/
structure Redactor.KnowsOnly (redactor : Redactor) (secret : List Char) : Prop where
  long : minRedactableLength ≤ secret.length
  values : ∀ value, value ∈ redactor.values ↔ value ∈ secretForms secret

/-- A Lean string has its characters as scalars. -/
theorem scalars?_ofString (text : String) : (PyText.ofString text).scalars? = some text.toList := by
  have hmap : ∀ chars : List Char, PyText.scalars? (chars.map .scalar) = some chars := by
    intro chars
    induction chars with
    | nil => rfl
    | cons c chars ih => rw [List.map_cons, PyText.scalars?, ih, Option.map_some]
  exact hmap text.toList

/-- A redactor built from one long secret knows its forms only. -/
theorem knowsOnly_of_ofSecrets {secret : String} {built redactor : Redactor}
    (hlong : minRedactableLength ≤ secret.length)
    (hbuilt : Redactor.ofSecrets [PyText.ofString secret] = .ok built)
    (horder : redactor.values.Perm built.values) : redactor.KnowsOnly secret.toList where
  long := hlong
  values := by
    intro value
    have hlength : minRedactableLength ≤ (PyText.ofString secret).length := by
      rwa [PyText.ofString, List.length_map]
    rw [horder.mem_iff, mem_ofSecrets_iff hbuilt]
    simp [hlength, scalars?_ofString]

namespace Redactor.KnowsOnly

variable {redactor : Redactor} {secret : List Char} (h : redactor.KnowsOnly secret)

include h

/-- The secret is not empty. -/
theorem ne_nil : secret ≠ [] := by
  intro hnil
  have hlong := h.long
  rw [hnil] at hlong
  exact absurd hlong (by decide)

/-- No registered value is empty. -/
theorem values_ne_nil : ∀ value ∈ redactor.values, value ≠ [] := by
  intro value hvalue
  have hform := (h.values value).mp hvalue
  simp only [secretForms, List.mem_cons, List.not_mem_nil, or_false] at hform
  rcases hform with rfl | rfl | rfl
  · exact h.ne_nil
  · intro hnil
    have hlength := length_le_length_percentQuote secret
    rw [hnil] at hlength
    exact h.ne_nil (List.eq_nil_of_length_eq_zero (Nat.le_zero.mp hlength))
  · intro hnil
    have hlength := four_le_length_base64Encode h.ne_nil
    rw [hnil] at hlength
    exact absurd hlength (by decide)

/-- A character in no form of the secret. -/
theorem free {c : Char} (hsecret : c ∉ secret)
    (hc : isUnreserved c = false ∧ c ≠ '%' ∧ isBase64 c = false) :
    ∀ value ∈ redactor.values, value ≠ [] ∧ c ∉ value := by
  intro value hvalue
  refine ⟨h.values_ne_nil value hvalue, fun hmem => ?_⟩
  have hform := (h.values value).mp hvalue
  simp only [secretForms, List.mem_cons, List.not_mem_nil, or_false] at hform
  rcases hform with rfl | rfl | rfl
  · exact hsecret hmem
  · rcases mem_percentQuote hmem with hplain | hpercent
    · rw [hc.1] at hplain
      cases hplain
    · exact hc.2.1 hpercent
  · have hbase := mem_base64Encode hmem
    rw [hc.2.2] at hbase
    cases hbase

/-- A character in no form of the secret goes away nowhere. -/
theorem mem_of_mem {c : Char} {text out : List Char} (hsecret : c ∉ secret)
    (hc : isUnreserved c = false ∧ c ≠ '%' ∧ isBase64 c = false)
    (hout : ReplacesAll redactionMask redactor.values text out) (hmem : c ∈ text) : c ∈ out :=
  hout.mem_of_free (fun value hvalue => (h.free hsecret hc value hvalue).2) hmem

end Redactor.KnowsOnly

/-! ## The redacted query -/

/-- What stands behind the query. -/
theorem withMark_cases (mark : Char) (part : List Char) :
    (withMark mark part = [] ∧ part = []) ∨ withMark mark part = mark :: part := by
  unfold withMark
  split
  · rename_i hnil
    exact Or.inl ⟨rfl, hnil⟩
  · exact Or.inr rfl

/-- The query of a URL in parts is found by its marks. -/
theorem query_of_split {front query fragment left between rest : List Char}
    (hfront : '?' ∉ front ∧ '#' ∉ front) (hquery : '?' ∉ query ∧ '#' ∉ query)
    (hleft : '#' ∉ left) (hbetween : '#' ∉ between)
    (hrest : rest = [] ∨ ∃ more, rest = '#' :: more)
    (h : front ++ (withMark '?' query ++ withMark '#' fragment) = left ++ '?' :: (between ++ rest)) :
    query = between := by
  have hbehind : ∀ {text tail : List Char}, '#' ∉ text → (tail = [] ∨ ∃ more, tail = '#' :: more) →
      (splitOnce '#' (text ++ tail)).1 = text := by
    rintro text tail htext (rfl | ⟨more, rfl⟩)
    · rw [List.append_nil, splitOnce_of_notMem htext]
    · rw [splitOnce_append htext, splitOnce_mark, List.append_nil]
  have hmark : '#' ∉ withMark '?' query := by
    rcases withMark_cases '?' query with ⟨hnil, _⟩ | hsome
    · rw [hnil]
      exact List.not_mem_nil
    · rw [hsome]
      exact List.not_mem_cons_of_ne_of_not_mem (by decide) hquery.2
  -- both texts in front of the fragment
  have hsame : front ++ withMark '?' query = left ++ '?' :: between := by
    have hparts := congrArg (fun text => (splitOnce '#' text).1) h
    rw [← List.append_assoc, ← List.cons_append, ← List.append_assoc,
      hbehind (List.not_mem_append hfront.2 hmark) ((withMark_cases '#' fragment).imp
        (fun hnil => hnil.1) fun hsome => ⟨fragment, hsome⟩),
      hbehind (List.not_mem_append hleft
        (List.not_mem_cons_of_ne_of_not_mem (by decide) hbetween)) hrest] at hparts
    exact hparts
  rcases exists_of_append_eq hfront.1 hsame with ⟨later, _, hlater⟩
  rcases withMark_cases '?' query with ⟨hnil, _⟩ | hsome
  · simp [hnil] at hlater
  · rw [hsome] at hlater
    cases later with
    | nil => exact (List.cons.inj hlater).2
    | cons c later =>
        rw [(List.cons.inj hlater).2] at hquery
        exact absurd (List.mem_append_right _ List.mem_cons_self) hquery.1

/-- A character that is neither of the form nor escaped by it is not in an encoded query. -/
theorem notMem_urlencode {c : Char} (hc : isFormChar c = false ∧ c ≠ '%')
    (pairs : List (List Char × List Char)) : c ∉ urlencode pairs := by
  intro hmem
  rcases (Encoded.ofUrlencode pairs).isFormChar_of_mem hmem with hform | hpercent
  · rw [hc.1] at hform
    cases hform
  · exact hc.2 hpercent

/-- No tabs and new lines are in a URL that is put together from its parts. -/
theorem isRemoved_of_mem_urlunsplit {parts : SplitResult} (hclean : parts.Clean) :
    ∀ c ∈ urlunsplit (maskParts parts), isRemoved c = false := by
  have hfront := isFrontChar_of_mem_urlFront hclean
  have hurl := urlunsplit_maskParts parts
  intro c hc
  rw [hurl, List.mem_append, List.mem_append] at hc
  rcases hc with hc | hc | hc
  · exact (hfront c hc).2.2
  · rcases withMark_cases '?' (urlencode (maskPairs (parseQsl parts.query))) with ⟨hnil, _⟩ | hsome
    · simp [hnil] at hc
    · rw [hsome, List.mem_cons] at hc
      rcases hc with rfl | hc
      · decide
      · by_contra hremoved
        refine notMem_urlencode ?_ _ hc
        have hall : ∀ d, isRemoved d = true → isFormChar d = false ∧ d ≠ '%' := by
          intro d hd
          simp only [isRemoved, List.contains_eq_mem, List.mem_cons, List.not_mem_nil, or_false,
            decide_eq_true_eq] at hd
          rcases hd with rfl | rfl | rfl <;> decide
        exact hall c (Bool.not_eq_false _ ▸ hremoved)
  · rcases withMark_cases '#' parts.fragment with ⟨hnil, _⟩ | hsome
    · simp [hnil] at hc
    · rw [hsome, List.mem_cons] at hc
      rcases hc with rfl | hc
      · decide
      · exact hclean.fragment c hc

/-- The redacted URL has no character that the parser removes. -/
theorem isRemoved_of_mem_redactText {redactor : Redactor} {secret : List Char}
    {parts : SplitResult} (h : redactor.KnowsOnly secret) (hclean : parts.Clean) :
    ∀ c ∈ redactor.redactText (urlunsplit (maskParts parts)), isRemoved c = false := by
  have hseries := redactText_replacesAll h.values_ne_nil (urlunsplit (maskParts parts))
  intro c hc
  by_cases hmask : c ∈ redactionMask
  · rw [eq_star_of_mem_redactionMask hmask]
    rfl
  · exact isRemoved_of_mem_urlunsplit hclean c (hseries.mem_of_mem hmask hc)

/-- The query in a redacted URL is the query of the URL with masks. -/
theorem replacesAll_queryOf {redactor : Redactor} {secret : List Char} {parts : SplitResult}
    (h : redactor.KnowsOnly secret) (hclean : parts.Clean)
    (hfragment : '#' ∉ secret ∨ parts.fragment = [])
    (hne : queryOf (redactor.redactText (urlunsplit (maskParts parts))) ≠ []) :
    ReplacesAll redactionMask redactor.values (urlencode (maskPairs (parseQsl parts.query)))
        (queryOf (redactor.redactText (urlunsplit (maskParts parts)))) ∧
      queryOf (redactor.redactText (urlunsplit (maskParts parts))) <:+:
        redactor.redactText (urlunsplit (maskParts parts)) := by
  have hfront := isFrontChar_of_mem_urlFront hclean
  have hurl := urlunsplit_maskParts parts
  have hseries := redactText_replacesAll h.values_ne_nil (urlunsplit (maskParts parts))
  rcases exists_of_queryOf (isRemoved_of_mem_redactText h hclean) hne with ⟨left', fragment', hout, ⟨_, hleft'⟩, hbetween', hrest'⟩
  rw [hout] at hseries
  rcases hseries.of_append_symbol (by decide) with ⟨left, right, hwhole, hleft, hright⟩
  have hsplit : ∃ between rest, right = between ++ rest ∧
      ReplacesAll redactionMask redactor.values between
        (queryOf (redactor.redactText (urlunsplit (maskParts parts)))) ∧
      (rest = [] ∨ ∃ more, rest = '#' :: more) := by
    rcases hrest' with rfl | ⟨more, rfl⟩
    · rw [List.append_nil] at hright
      exact ⟨right, [], by rw [List.append_nil], hright, Or.inl rfl⟩
    · rcases hright.of_append_symbol (by decide) with ⟨between, rest, rfl, hbetween, _⟩
      exact ⟨between, '#' :: rest, rfl, hbetween, Or.inr ⟨rest, rfl⟩⟩
  rcases hsplit with ⟨between, rest, rfl, hbetween, hrest⟩
  -- the number sign of a fragment is not in a mask, nor in what stands in front of it
  have hnumber : ∀ {text out}, ReplacesAll redactionMask redactor.values text out → '#' ∉ out →
      text ⊆ urlunsplit (maskParts parts) → '#' ∉ text := by
    intro text out hseries hout hsubset hmem
    rcases hfragment with hsecret | hnil
    · exact hout (h.mem_of_mem hsecret (by decide) hseries hmem)
    · have hfree := hsubset hmem
      rw [hurl, hnil, List.mem_append, List.mem_append] at hfree
      rcases hfree with hfree | hfree | hfree
      · exact (hfront _ hfree).2.1 rfl
      · rcases withMark_cases '?' (urlencode (maskPairs (parseQsl parts.query))) with
          ⟨hnil, _⟩ | hsome
        · simp [hnil] at hfree
        · rw [hsome] at hfree
          exact notMem_urlencode (by decide) _ ((List.mem_cons.mp hfree).resolve_left (by decide))
      · simp [withMark] at hfree
  have hsame : urlencode (maskPairs (parseQsl parts.query)) = between := by
    refine query_of_split
      ⟨fun hmem => (hfront _ hmem).1 rfl, fun hmem => (hfront _ hmem).2.1 rfl⟩
      ⟨notMem_urlencode (by decide) _, notMem_urlencode (by decide) _⟩
      (hnumber hleft hleft' ?_) (hnumber hbetween hbetween' ?_) hrest (hurl.symm.trans hwhole)
    · exact fun c hc => hwhole ▸ List.mem_append_left _ hc
    · exact fun c hc => hwhole ▸ List.mem_append_right _
        (List.mem_cons_of_mem _ (List.mem_append_left _ hc))
  refine ⟨hsame ▸ hbetween, left' ++ ['?'], fragment', ?_⟩
  conv_rhs => rw [hout]
  simp

/-- A URL that parses is redacted after its parts are masked and joined again. -/
theorem toList_redactUrl {checks : NetlocChecks} {url : String} {parts : SplitResult}
    (hparse : urlsplit checks url.toList = some parts) (redactor : Redactor) :
    (redactor.redactUrl checks url).toList =
      redactor.redactText (urlunsplit (maskParts parts)) := by
  rw [Redactor.redactUrl, hparse]
  dsimp only
  rw [toList_redact, String.toList_ofList]

/-- A secret that is no punctuation can be told apart from what masks leave of a value. -/
theorem readable_of_plain {redactor : Redactor} {secret : List Char} {parts : SplitResult}
    (h : redactor.KnowsOnly secret) (hplain : IsPlainInUrl secret parts) (hstar : '*' ∉ secret)
    {pairs : List (List Char × List Char)} {left value right out : List Char}
    (hquery : urlencode pairs = left ++ '=' :: (value ++ right))
    (hout : ReplacesAll redactionMask redactor.values value out) (hmark : '&' ∉ out) :
    Readable out (utf8Bytes secret) where
  star := fun hmem => hstar (mem_of_asciiByte_mem (by decide) hmem)
  marks := by
    rintro c hc (rfl | rfl) hmem
    · exact hmark hc
    · have hequals := mem_of_asciiByte_mem (by decide) hmem
      -- two parameters have become one, so a mask has taken the mark between them
      have hand := hplain.separators.resolve_right fun hfree => hfree hequals
      rcases List.append_of_mem (hout.mem_of_mem (by decide) hc) with ⟨between, rest, rfl⟩
      rw [List.append_assoc, List.cons_append] at hquery
      exact hmark (h.mem_of_mem hand (by decide) hout
        (List.mem_append_left _ (mark_mem_urlencode hquery)))
  ends := by
    intro tail htail hsuffix
    refine hplain.escape ⟨tail, htail, suffix_of_asciiBytes (fun c hc => ?_) hsuffix⟩
    have hdigit : ∀ n < 16, (upperHexDigit n).toNat < 128 := by decide
    rcases List.mem_cons.mp hc with rfl | hc
    · decide
    · rcases htail with rfl | ⟨n, hn, rfl⟩
      · exact absurd hc List.not_mem_nil
      · rw [List.mem_singleton.mp hc]
        exact hdigit n hn

/-- A secret that forms write as {lit}`quote` does is hidden. -/
theorem redactUrl_hides_of_alike {checks : NetlocChecks} {redactor : Redactor}
    {secret url : String} {parts : SplitResult} (h : redactor.KnowsOnly secret.toList)
    (hparse : urlsplit checks url.toList = some parts) (hplain : IsPlainInUrl secret.toList parts)
    (halike : IsWrittenAlike secret.toList) :
    HidesSecret secret (redactor.redactUrl checks url) := by
  have hstar := ((isWrittenAlike_iff secret.toList).mp halike).2
  intro value hvalue hoccurs
  rw [formValues, toList_redactUrl hparse] at hvalue
  rcases List.mem_map.mp hvalue with ⟨pair, hpair, rfl⟩
  have hnonempty : pair.2 ≠ [] := fun hnil =>
    h.ne_nil (List.infix_nil.mp (hnil ▸ hoccurs))
  rcases exists_of_mem_parseQsl hpair hnonempty with
    ⟨left', value', right', hquery', hmark, hright', hvalue'⟩
  have hne : queryOf (redactor.redactText (urlunsplit (maskParts parts))) ≠ [] := by
    rw [hquery']
    simp
  rcases replacesAll_queryOf h (urlsplit_clean hparse) hplain.fragment hne with ⟨hseries, hinfix⟩
  have hencoded := (Encoded.ofUrlencode _).replacesAll h.values_ne_nil hseries
  rw [hquery'] at hseries hencoded hinfix
  -- the value in the query of the URL
  have hsplit : ∃ left value right,
      urlencode (maskPairs (parseQsl parts.query)) = left ++ '=' :: (value ++ right) ∧
        ReplacesAll redactionMask redactor.values value value' := by
    rcases hseries.of_append_symbol (by decide) with ⟨left, rest, hwhole, _, hrest⟩
    rcases hright' with rfl | ⟨more, rfl⟩
    · rw [List.append_nil] at hrest
      exact ⟨left, rest, [], by rw [hwhole, List.append_nil], hrest⟩
    · rcases hrest.of_append_symbol (by decide) with ⟨value, right, rfl, hvalue, _⟩
      exact ⟨left, value, '&' :: right, hwhole, hvalue⟩
  rcases hsplit with ⟨left, value, right, hquery, hreplaced⟩
  have hencoded' : Encoded value' := by
    have hbehind := (hencoded.of_append_left left').tail
    rcases hright' with rfl | ⟨more, rfl⟩
    · rwa [List.append_nil] at hbehind
    · exact hbehind.of_append_mark
  rw [hvalue'] at hoccurs
  have hwritten := hencoded'.quotePlus_infix hplain.replacement
    (readable_of_plain h hplain hstar hquery hreplaced hmark) hoccurs
  rw [halike] at hwritten
  -- the quoted secret is a variant, and redaction leaves no variant
  have hvariant : percentQuote secret.toList ∈ redactor.values :=
    (h.values _).mpr (by simp [secretForms])
  have hvalueInfix : value' <:+: left' ++ '=' :: (value' ++ right') :=
    ⟨left' ++ ['='], right', by simp⟩
  refine (redactText_replacesAll h.values_ne_nil (urlunsplit (maskParts parts))).removed
    redactionMask_ne_nil (fun value hvalue => ?_) _ hvariant
    (hwritten.trans (hvalueInfix.trans hinfix))
  exact secretForms_apart h.ne_nil hstar value ((h.values value).mp hvalue)

/-! ## Secrets that forms write in their own way -/

/-- A form writes the secret neither as it is nor as {lit}`quote` does. -/
def IsWrittenDifferently (secret : List Char) : Prop :=
  (' ' ∈ secret ∨ '*' ∈ secret) ∧ ∃ c ∈ secret, isFormChar c = false ∧ c ≠ '%'

/-- The parameters with the secret in their values have sensitive names. -/
def OnlySensitive (secret : List Char) (parts : SplitResult) : Prop :=
  ∀ pair ∈ parseQsl parts.query, secret <:+: pair.2 → isSensitiveParam pair.1 = true

private theorem isWrittenDifferently_of_space {secret : List Char} (h : ' ' ∈ secret) :
    IsWrittenDifferently secret :=
  ⟨Or.inl h, ' ', h, by decide, by decide⟩

/-- Neither the secret nor its quoted form occurs in a written query. -/
theorem IsWrittenDifferently.absent {secret : List Char} (h : IsWrittenDifferently secret)
    (pairs : List (List Char × List Char)) :
    ¬ secret <:+: urlencode pairs ∧ ¬ percentQuote secret <:+: urlencode pairs := by
  rcases h with ⟨hquoted, c, hc, hform⟩
  refine ⟨fun hoccurs => notMem_urlencode hform pairs (hoccurs.subset hc), fun hoccurs => ?_⟩
  -- an escape that forms do not write
  have hescape : ∀ d, d.toNat < 128 → d ∈ secret → quoteByte (asciiByte d) <:+: urlencode pairs := by
    intro d hd hmem
    rw [percentQuote_eq_flatMap, List.flatMap_def] at hoccurs
    exact (List.infix_of_mem_flatten (List.mem_map_of_mem (asciiByte_mem hd hmem))).trans hoccurs
  rcases hquoted with hspace | hstar
  · have hescaped := (Encoded.ofUrlencode pairs).isFormEscaped_of_escape (asciiByte ' ')
      (hescape ' ' (by decide) hspace)
    exact absurd hescaped (by decide)
  · have hescaped := (Encoded.ofUrlencode pairs).isFormEscaped_of_escape (asciiByte '*')
      (hescape '*' (by decide) hstar)
    exact absurd hescaped (by decide)

private theorem redactText_withMark {redactor : Redactor} {c : Char}
    (hfree : ∀ value ∈ redactor.values, value ≠ [] ∧ c ∉ value) (left part : List Char) :
    redactor.redactText (left ++ withMark c part) =
      redactor.redactText left ++ withMark c (redactor.redactText part) := by
  have hne : ∀ value ∈ redactor.values, value ≠ [] := fun value hvalue => (hfree value hvalue).1
  unfold withMark
  split
  · rename_i hnil
    have hempty : redactor.redactText [] = [] :=
      eq_redactText_of_replacesAll hne (replacesAll_self fun value hvalue hoccurs =>
        hne value hvalue (List.infix_nil.mp hoccurs))
    rw [hnil, hempty, if_pos rfl, List.append_nil, List.append_nil]
  · rename_i hsome
    rw [redactText_append_symbol hfree,
      if_neg ((redactText_replacesAll hne part).ne_nil redactionMask_ne_nil hsome)]

/-- A query in which no variant occurs stays as it is. -/
theorem queryOf_redactText {redactor : Redactor} {secret : List Char} {parts : SplitResult}
    (h : redactor.KnowsOnly secret) (hclean : parts.Clean)
    (hmarks : '?' ∉ secret ∧ '#' ∉ secret)
    (habsent : ∀ value ∈ redactor.values,
      ¬ value <:+: urlencode (maskPairs (parseQsl parts.query))) :
    queryOf (redactor.redactText (urlunsplit (maskParts parts))) =
      urlencode (maskPairs (parseQsl parts.query)) := by
  have hfront := isFrontChar_of_mem_urlFront hclean
  have hurl := urlunsplit_maskParts parts
  by_cases hnil : urlencode (maskPairs (parseQsl parts.query)) = []
  · rw [hnil]
    by_contra hne
    have hseries := (replacesAll_queryOf h hclean (Or.inl hmarks.2) hne).1
    rw [hnil] at hseries habsent
    exact hne (hseries.eq_of_absent habsent)
  · have hseries := redactText_replacesAll h.values_ne_nil (urlFront (maskParts parts))
    have hmark : ∀ {c}, c ∉ redactionMask → c ∉ urlFront (maskParts parts) →
        c ∉ redactor.redactText (urlFront (maskParts parts)) :=
      fun hmask hfree hmem => hfree (hseries.mem_of_mem hmask hmem)
    have hkept := isRemoved_of_mem_redactText h hclean
    have hquery := eq_redactText_of_replacesAll h.values_ne_nil (replacesAll_self habsent)
    rw [hurl, ← List.append_assoc, redactText_withMark (h.free hmarks.2 (by decide)),
      redactText_withMark (h.free hmarks.1 (by decide)), hquery, List.append_assoc, withMark,
      if_neg hnil, List.cons_append] at hkept ⊢
    refine queryOf_append hkept ⟨hmark (by decide) fun hmem => (hfront _ hmem).1 rfl,
      hmark (by decide) fun hmem => (hfront _ hmem).2.1 rfl⟩ (notMem_urlencode (by decide) _) ?_
    exact (withMark_cases _ _).imp (fun hnil => hnil.1) fun hsome => ⟨_, hsome⟩

/-- A mask is too short for a secret. -/
theorem not_infix_redactionMask {secret : List Char} (h : minRedactableLength ≤ secret.length) :
    ¬ secret <:+: redactionMask :=
  fun hoccurs => absurd (h.trans hoccurs.length_le) (by decide)

/-- Where no form of the secret occurs in the written query, the secret is hidden by the names
of its parameters only. -/
theorem redactUrl_hides_iff_onlySensitive {checks : NetlocChecks} {redactor : Redactor}
    {secret url : String} {parts : SplitResult} (h : redactor.KnowsOnly secret.toList)
    (hparse : urlsplit checks url.toList = some parts)
    (hmarks : '?' ∉ secret.toList ∧ '#' ∉ secret.toList)
    (hforms : ∀ form ∈ secretForms secret.toList,
      ¬ form <:+: urlencode (maskPairs (parseQsl parts.query))) :
    HidesSecret secret (redactor.redactUrl checks url) ↔ OnlySensitive secret.toList parts := by
  have habsent : ∀ value ∈ redactor.values,
      ¬ value <:+: urlencode (maskPairs (parseQsl parts.query)) :=
    fun value hvalue => hforms value ((h.values value).mp hvalue)
  have hmask := not_infix_redactionMask h.long
  have hvalues : formValues (redactor.redactUrl checks url) =
      (maskPairs (parseQsl parts.query)).map Prod.snd := by
    rw [formValues, toList_redactUrl hparse,
      queryOf_redactText h (urlsplit_clean hparse) hmarks habsent, parseQsl_urlencode]
  rw [HidesSecret, hvalues]
  simp only [maskPairs, List.map_map, List.forall_mem_map, Function.comp_apply]
  refine forall₂_congr fun pair _ => ?_
  cases isSensitiveParam pair.1 with
  | true => simpa using hmask
  | false => simp

/-! ## Secrets with a space -/

/-- The parts of a URL with the secret in the value of a parameter. -/
def secretParts (secret : List Char) : SplitResult where
  scheme := ['h', 't', 't', 'p', 's']
  netloc := ['h']
  path := ['/']
  query := formField (['q'], secret)
  fragment := []

def secretUrl (secret : List Char) : List Char :=
  ['h', 't', 't', 'p', 's', ':', '/', '/', 'h', '/'] ++ '?' :: formField (['q'], secret)

private theorem length_le_length_utf8Bytes (text : List Char) :
    text.length ≤ (utf8Bytes text).length := by
  induction text with
  | nil => exact Nat.zero_le _
  | cons c text ih =>
      have hpos := Char.utf8Size_pos c
      rw [utf8Bytes, List.flatMap_cons, List.length_append, String.length_utf8EncodeChar,
        List.length_cons, ← utf8Bytes]
      omega

private theorem notMem_formField {c : Char} (hc : isFormChar c = false ∧ c ≠ '%')
    (pair : List Char × List Char) : c ∉ formField pair := by
  rw [← urlencode_singleton]
  exact notMem_urlencode hc [pair]

private theorem parseQsl_secretParts (secret : List Char) :
    parseQsl (secretParts secret).query = [(['q'], secret)] := by
  rw [secretParts, ← urlencode_singleton, parseQsl_urlencode]

private theorem urlunsplit_secretParts (secret : List Char) :
    urlunsplit (maskParts (secretParts secret)) = secretUrl secret := by
  have hsome : formField (['q'], secret) ≠ [] := by simp [formField]
  have hname : isSensitiveParam ['q'] = false := by decide
  have hquery : (maskParts (secretParts secret)).query = formField (['q'], secret) := by
    rw [query_maskParts, parseQsl_secretParts, maskPairs, List.map_singleton, hname,
      if_neg Bool.false_ne_true, urlencode_singleton]
  have hfragment : withMark '#' (maskParts (secretParts secret)).fragment = [] := rfl
  rw [urlunsplit, hquery, hfragment, List.append_nil, withMark, if_neg hsome]
  rfl

private theorem urlsplit_secretUrl (checks : NetlocChecks) (secret : List Char) :
    urlsplit checks (secretUrl secret) = some (secretParts secret) := by
  have hparts : (secretParts secret).Clean :=
    { scheme := by simp [secretParts, IsFrontChar, isRemoved]
      netloc := by simp [secretParts, IsFrontChar, isRemoved]
      path := by simp [secretParts, IsFrontChar, isRemoved]
      fragment := fun c hc => absurd hc List.not_mem_nil }
  have hclean : cleanUrl (secretUrl secret) = secretUrl secret := by
    have hkept := isRemoved_of_mem_urlunsplit hparts
    rw [urlunsplit_secretParts] at hkept
    rcases @cleanUrl_append [] _ _ hkept (by decide) with ⟨front, hfront, hclean⟩
    rw [List.suffix_nil.mp hfront] at hclean
    exact hclean
  have hscheme : takeScheme (secretUrl secret) = (['h', 't', 't', 'p', 's'],
      ['/', '/', 'h', '/'] ++ '?' :: formField (['q'], secret)) :=
    rfl
  have hnetloc : takeNetloc (['/', '/', 'h', '/'] ++ '?' :: formField (['q'], secret)) =
      (['h'], '/' :: '?' :: formField (['q'], secret)) :=
    rfl
  have hfragment : splitOnce '#' ('/' :: '?' :: formField (['q'], secret)) =
      ('/' :: '?' :: formField (['q'], secret), []) := by
    refine splitOnce_of_notMem ?_
    simp [notMem_formField (c := '#') (by decide)]
  have hquery : splitOnce '?' ('/' :: '?' :: formField (['q'], secret)) =
      (['/'], formField (['q'], secret)) :=
    rfl
  have haccepts : checks.accepts ['h'] = true := rfl
  simp only [urlsplit, hclean, hscheme, hnetloc, hfragment, hquery, haccepts, if_true]
  rfl

private theorem percentQuote_notInfix_secretUrl {secret : List Char} (hspace : ' ' ∈ secret) :
    ¬ percentQuote secret <:+: secretUrl secret := by
  have habsent := ((isWrittenDifferently_of_space hspace).absent [(['q'], secret)]).2
  have hmark : '?' ∉ percentQuote secret := fun hmem =>
    absurd (mem_percentQuote hmem) (by decide)
  have hpercent : '%' ∈ percentQuote secret := by
    rw [percentQuote_eq_flatMap]
    exact List.mem_flatMap.mpr ⟨asciiByte ' ', asciiByte_mem (by decide) hspace, by decide⟩
  rw [urlencode_singleton] at habsent
  rw [secretUrl, infix_append_symbol_iff hmark]
  rintro (hoccurs | hoccurs)
  · exact absurd (hoccurs.subset hpercent) (by decide)
  · exact habsent hoccurs

/-- The Base64 form is too long to occur in a written secret. -/
theorem base64Encode_notInfix_secretUrl {secret : List Char}
    (hlong : minRedactableLength ≤ secret.length) :
    ¬ base64Encode secret <:+: secretUrl secret := by
  have hne : secret ≠ [] := by
    rintro rfl
    exact absurd hlong (by decide)
  have hfour : 4 ≤ secret.length := hlong
  have hbytes := length_le_length_utf8Bytes secret
  have hlength := length_base64Encode secret
  have hfree : ∀ c, isBase64 c = false → c ∉ base64Encode secret := by
    intro c hc hmem
    rw [mem_base64Encode hmem] at hc
    cases hc
  have hshort : ∀ text : List Char, text.length ≤ 5 → ¬ base64Encode secret <:+: text := by
    intro text htext hoccurs
    have hle := hoccurs.length_le
    omega
  have hfront : ['h', 't', 't', 'p', 's', ':', '/', '/', 'h', '/'] =
      ['h', 't', 't', 'p', 's'] ++ ':' :: ['/', '/', 'h', '/'] := rfl
  rw [secretUrl, infix_append_symbol_iff (hfree '?' (by decide)), hfront,
    infix_append_symbol_iff (hfree ':' (by decide))]
  rintro ((hoccurs | hoccurs) | hoccurs)
  · exact hshort _ (by decide) hoccurs
  · exact hshort _ (by decide) hoccurs
  · -- the padding is at the end, so the equals sign is in front of the occurrence
    have hname : quotePlus ['*'] ['q'] = ['q'] := by decide
    have hfield : formField (['q'], secret) = 'q' :: '=' :: quotePlus ['*'] secret := by
      rw [formField, hname, List.singleton_append]
    rcases base64Encode_start hne with ⟨m, n, rest, hstart⟩
    rw [hfield] at hoccurs
    rcases List.infix_cons_iff.mp hoccurs with hprefix | hoccurs
    · rw [hstart] at hprefix
      have hsecond := (List.cons_prefix_cons.mp hprefix).2
      exact (base64Char_spec n).2 (List.cons_prefix_cons.mp hsecond).1
    · rcases List.infix_cons_iff.mp hoccurs with hprefix | hoccurs
      · rw [hstart] at hprefix
        exact (base64Char_spec m).2 (List.cons_prefix_cons.mp hprefix).1
      · rw [quotePlus_eq_flatMap] at hoccurs
        have hle := length_le_of_infix_formBytes (hfree '%' (by decide)) hoccurs
        omega

/-- Every secret with a space is left in some URL. -/
theorem redactUrl_shows_spaces {redactor : Redactor} {secret : String}
    (h : redactor.KnowsOnly secret.toList) (hspace : ' ' ∈ secret.toList) (checks : NetlocChecks) :
    ∃ url parts, urlsplit checks url.toList = some parts ∧ ¬ OnlySensitive secret.toList parts ∧
      ¬ HidesSecret secret (redactor.redactUrl checks url) := by
  have hparse : urlsplit checks (String.ofList (secretUrl secret.toList)).toList =
      some (secretParts secret.toList) := by
    rw [String.toList_ofList, urlsplit_secretUrl]
  have habsent : ∀ value ∈ redactor.values, ¬ value <:+: secretUrl secret.toList := by
    intro value hvalue
    have hform := (h.values value).mp hvalue
    simp only [secretForms, List.mem_cons, List.not_mem_nil, or_false] at hform
    rcases hform with rfl | rfl | rfl
    · intro hoccurs
      rcases List.mem_append.mp (hoccurs.subset hspace) with hmem | hmem
      · exact absurd hmem (by decide)
      · exact notMem_formField (by decide) _ ((List.mem_cons.mp hmem).resolve_left (by decide))
    · exact percentQuote_notInfix_secretUrl hspace
    · exact base64Encode_notInfix_secretUrl h.long
  have hself : redactor.redactUrl checks (String.ofList (secretUrl secret.toList)) =
      String.ofList (secretUrl secret.toList) := by
    rw [← String.toList_inj, toList_redactUrl hparse, urlunsplit_secretParts,
      eq_redactText_of_replacesAll h.values_ne_nil (replacesAll_self habsent),
      String.toList_ofList]
  have hvalues : formValues (String.ofList (secretUrl secret.toList)) = [secret.toList] := by
    rw [formValues, ← urlsplit_query hparse, parseQsl_secretParts, List.map_singleton]
  refine ⟨String.ofList (secretUrl secret.toList), _, hparse, fun honly => ?_, fun hhides => ?_⟩
  · have hname : isSensitiveParam ['q'] = true :=
      honly (['q'], secret.toList) (by rw [parseQsl_secretParts]; exact List.mem_singleton_self _)
        (List.infix_refl _)
    exact absurd hname (by decide)
  · rw [hself, HidesSecret, hvalues] at hhides
    exact hhides _ (List.mem_singleton_self _) (List.infix_refl _)

end EtlTool
