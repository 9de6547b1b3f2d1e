import EtlTool.Foundations.TextReplacement

/-!
# Cutting a text before words are replaced in it

Words are replaced in the beginning of a text instead of the whole text.  The result is a
beginning of the replaced text unless the cut lies inside an occurrence that is replaced:
of such an occurrence only a part is left, which is no word.

Main results:

- Theorem {lit}`Replaces.cut`: a cut outside the replaced occurrences.
- Theorem {lit}`Splits.remains`: what a cut inside a replaced occurrence leaves of it.
- Theorem {lit}`ReplacesAll.prefix_of_not_splits`: a series of replacements.
- Theorem {lit}`ReplacesAll.prefix_iff`: the converse, for words that do not end in
  beginnings of earlier ones.
- Theorem {lit}`ReplacesAll.prefix_all_iff`: all cuts of a text.
-/

namespace TextReplacement

variable {α : Type} {word mask text out out' w : List α} {words : List (List α)} {n : Nat}

/-! ## Replacement is a function -/

private theorem Replaces.nil_inv (h : Replaces word mask [] out) (hne : word ≠ []) : out = [] := by
  generalize htext : ([] : List α) = text at h
  cases h with
  | nil => rfl
  | hit rest out h => exact absurd (List.append_eq_nil_iff.mp htext.symm).1 hne
  | keep c rest out hmiss h => cases htext

theorem Replaces.hit_inv (h : Replaces word mask (word ++ text) out) (hne : word ≠ []) :
    ∃ out', out = mask ++ out' ∧ Replaces word mask text out' := by
  generalize hwhole : word ++ text = whole at h
  cases h with
  | nil => exact absurd (List.append_eq_nil_iff.mp hwhole).1 hne
  | hit rest out h => exact ⟨out, rfl, List.append_cancel_left hwhole ▸ h⟩
  | keep c rest out hmiss h => exact absurd (hwhole ▸ List.prefix_append _ _) hmiss

theorem Replaces.keep_inv {c : α} (h : Replaces word mask (c :: text) out)
    (hmiss : ¬ word <+: c :: text) : ∃ out', out = c :: out' ∧ Replaces word mask text out' := by
  generalize hwhole : c :: text = whole at h hmiss
  cases h with
  | nil => cases hwhole
  | hit rest out h => exact absurd (List.prefix_append _ _) hmiss
  | keep d rest out _ h =>
      cases hwhole
      exact ⟨out, rfl, h⟩

theorem Replaces.unique (h : Replaces word mask text out) (hne : word ≠ [])
    (h' : Replaces word mask text out') : out = out' := by
  induction h generalizing out' with
  | nil => exact (h'.nil_inv hne).symm
  | hit rest out _ ih =>
      rcases h'.hit_inv hne with ⟨out', rfl, hrest⟩
      rw [ih hrest]
  | keep c rest out hmiss _ ih =>
      rcases h'.keep_inv hmiss with ⟨out', rfl, hrest⟩
      rw [ih hrest]

/-- A text without the word is replaced by itself. -/
theorem replaces_self (habsent : ¬ word <:+: text) : Replaces word mask text text := by
  induction text with
  | nil => exact .nil
  | cons c rest ih =>
      rw [List.infix_cons_iff, not_or] at habsent
      exact .keep c rest rest habsent.1 (ih habsent.2)

/-- Every text has a replacement. -/
theorem exists_replaces (mask : List α) (hne : word ≠ []) (text : List α) :
    ∃ out, Replaces word mask text out := by
  classical
  induction hlength : text.length using Nat.strong_induction_on generalizing text with
  | _ length ih =>
      by_cases hstart : word <+: text
      · rcases hstart with ⟨rest, rfl⟩
        have hpos := List.length_pos_of_ne_nil hne
        rw [List.length_append] at hlength
        rcases ih rest.length (by omega) rest rfl with ⟨out, hout⟩
        exact ⟨mask ++ out, .hit rest out hout⟩
      · cases text with
        | nil => exact ⟨[], .nil⟩
        | cons c rest =>
            rw [List.length_cons] at hlength
            rcases ih rest.length (by omega) rest rfl with ⟨out, hout⟩
            exact ⟨c :: out, .keep c rest out hstart hout⟩

private theorem exists_replacesAll (mask : List α) (hne : ∀ word ∈ words, word ≠ [])
    (text : List α) :
    ∃ out, ReplacesAll mask words text out := by
  induction words generalizing text with
  | nil => exact ⟨text, .nil text⟩
  | cons word words ih =>
      rw [List.forall_mem_cons] at hne
      rcases exists_replaces mask hne.1 text with ⟨between, hfirst⟩
      rcases ih hne.2 between with ⟨out, hrest⟩
      exact ⟨out, .cons word words text between out hfirst hrest⟩

theorem ReplacesAll.unique (h : ReplacesAll mask words text out) (hne : ∀ word ∈ words, word ≠ [])
    (h' : ReplacesAll mask words text out') : out = out' := by
  induction h with
  | nil text =>
      cases h'
      rfl
  | cons word words text between out hfirst _ ih =>
      rw [List.forall_mem_cons] at hne
      cases h' with
      | cons _ _ _ between' _ hfirst' hrest' =>
          rw [hfirst'.unique hne.1 hfirst] at hrest'
          exact ih hne.2 hrest'

/-! ## Cuts of one replacement -/

/-- The position lies inside an occurrence that is replaced. -/
inductive Splits (word : List α) : List α → Nat → Prop where
  | here (rest : List α) (n : Nat) (hpos : 0 < n) (hlt : n < word.length) :
      Splits word (word ++ rest) n
  | hit (rest : List α) (n : Nat) (h : Splits word rest n) :
      Splits word (word ++ rest) (word.length + n)
  | keep (c : α) (rest : List α) (n : Nat) (hmiss : ¬ word <+: c :: rest)
      (h : Splits word rest n) : Splits word (c :: rest) (n + 1)

/-- Outside the replaced occurrences a cut divides the result as it divides the text. -/
theorem Replaces.cut (h : Replaces word mask text out) (hsplit : ¬ Splits word text n) :
    ∃ first rest, out = first ++ rest ∧ Replaces word mask (text.take n) first ∧
      Replaces word mask (text.drop n) rest := by
  induction h generalizing n with
  | nil => exact ⟨[], [], rfl, by simpa using .nil, by simpa using .nil⟩
  | hit rest out h ih =>
      by_cases hlt : n < word.length
      · -- the cut is in front of the occurrence
        have hzero : n = 0 := by
          by_contra hpos
          exact hsplit (.here rest n (Nat.pos_of_ne_zero hpos) hlt)
        rw [hzero]
        exact ⟨[], mask ++ out, rfl, by simpa using .nil, .hit rest out h⟩
      · obtain ⟨m, rfl⟩ := Nat.exists_eq_add_of_le (Nat.not_lt.mp hlt)
        rcases ih fun hrest => hsplit (.hit rest m hrest) with ⟨first, last, rfl, hfirst, hlast⟩
        refine ⟨mask ++ first, last, by rw [List.append_assoc], ?_, ?_⟩
        · rw [List.take_length_add_append]
          exact .hit _ _ hfirst
        · rw [List.drop_length_add_append]
          exact hlast
  | keep c rest out hmiss h ih =>
      cases n with
      | zero => exact ⟨[], c :: out, rfl, .nil, .keep c rest out hmiss h⟩
      | succ n =>
          rcases ih fun hrest => hsplit (.keep c rest n hmiss hrest) with
            ⟨first, last, rfl, hfirst, hlast⟩
          refine ⟨c :: first, last, rfl, .keep c _ _ (fun hstart => hmiss ?_) hfirst, hlast⟩
          exact hstart.trans ((List.prefix_cons_inj c).mpr (List.take_prefix n rest))

/-- Inside a replaced occurrence, the cut leaves the beginning of a word where the whole
text has a mask. -/
theorem Splits.remains (h : Splits word text n) (hne : word ≠ [])
    (hout : Replaces word mask text out) :
    ∃ before head tail rest, word = head ++ tail ∧ head ≠ [] ∧ tail ≠ [] ∧
      out = before ++ mask ++ rest ∧ Replaces word mask (text.take n) (before ++ head) := by
  induction h generalizing out with
  | here rest n hpos hlt =>
      rcases hout.hit_inv hne with ⟨out', rfl, _⟩
      refine ⟨[], word.take n, word.drop n, out', (List.take_append_drop n word).symm, ?_, ?_, rfl,
        ?_⟩
      · exact List.ne_nil_of_length_pos (by rw [List.length_take]; omega)
      · exact List.ne_nil_of_length_pos (by rw [List.length_drop]; omega)
      · rw [List.take_append_of_le_length hlt.le]
        apply replaces_self
        intro hinside
        have hle := hinside.length_le
        rw [List.length_take] at hle
        omega
  | hit rest n h ih =>
      rcases hout.hit_inv hne with ⟨out', rfl, hrest⟩
      rcases ih hrest with ⟨before, head, tail, last, hword, hhead, htail, rfl, hcut⟩
      refine ⟨mask ++ before, head, tail, last, hword, hhead, htail, by simp, ?_⟩
      rw [List.take_length_add_append, List.append_assoc]
      exact .hit _ _ hcut
  | keep c rest n hmiss h ih =>
      rcases hout.keep_inv hmiss with ⟨out', rfl, hrest⟩
      rcases ih hrest with ⟨before, head, tail, last, hword, hhead, htail, rfl, hcut⟩
      refine ⟨c :: before, head, tail, last, hword, hhead, htail, by simp, ?_⟩
      refine .keep c _ _ (fun hstart => hmiss ?_) hcut
      exact hstart.trans ((List.prefix_cons_inj c).mpr (List.take_prefix n rest))

/-! ## A symbol that is not replaced -/

/-- A symbol in no occurrence of the word divides the result as it divides the text. -/
theorem Replaces.split_at_symbol {c : α} {left right : List α}
    (h : Replaces word mask (left ++ c :: right) out)
    (hfree : ∀ x y, word = x ++ c :: y → ¬ y <+: right) :
    ∃ left' right', out = left' ++ c :: right' ∧ Replaces word mask left left' ∧
      Replaces word mask right right' := by
  generalize htext : left ++ c :: right = text at h
  induction h generalizing left with
  | nil => simp at htext
  | hit rest out h ih =>
      rcases List.append_eq_append_iff.mp htext with ⟨inner, hword, hrest⟩ | ⟨inner, hleft, hrest⟩
      · -- the word would end behind the symbol
        cases inner with
        | nil =>
            rw [List.append_nil] at hword
            rcases @ih [] hrest with ⟨left', right', rfl, hleft', hright'⟩
            refine ⟨mask ++ left', right', by rw [List.append_assoc], ?_, hright'⟩
            rw [← hword]
            simpa using Replaces.hit [] left' hleft'
        | cons d inner =>
            rcases List.cons.inj hrest with ⟨rfl, hright⟩
            exact absurd (hright ▸ List.prefix_append inner rest) (hfree left inner hword)
      · rcases ih hrest.symm with ⟨left', right', rfl, hleft', hright'⟩
        refine ⟨mask ++ left', right', by rw [List.append_assoc], ?_, hright'⟩
        rw [hleft]
        exact .hit _ _ hleft'
  | keep d rest out hmiss h ih =>
      cases left with
      | nil =>
          rcases List.cons.inj htext with ⟨rfl, rfl⟩
          exact ⟨[], out, rfl, .nil, h⟩
      | cons e left =>
          rcases List.cons.inj htext with ⟨rfl, hrest⟩
          rcases ih hrest with ⟨left', right', rfl, hleft', hright'⟩
          refine ⟨e :: left', right', rfl, .keep e _ _ (fun hstart => hmiss ?_) hleft', hright'⟩
          rw [← hrest]
          exact hstart.trans (by simp)

/-- The same for a series of replacements. -/
theorem ReplacesAll.split_at_symbol {c : α} {left right : List α}
    (h : ReplacesAll mask words (left ++ c :: right) out) (hmask : mask ≠ [])
    (hwords : ∀ word ∈ words, word.Disjoint mask)
    (hfree : ∀ word ∈ words, ∀ x y, word = x ++ c :: y → ¬ y <+: right) :
    ∃ left' right', out = left' ++ c :: right' ∧ ReplacesAll mask words left left' := by
  generalize htext : left ++ c :: right = text at h
  induction h generalizing left right with
  | nil text => exact ⟨left, right, htext.symm, .nil left⟩
  | cons word words text between out hfirst hrest ih =>
      rw [List.forall_mem_cons] at hwords hfree
      rw [← htext] at hfirst
      rcases hfirst.split_at_symbol hfree.1 with ⟨left₁, right₁, rfl, hleft₁, hright₁⟩
      -- what begins behind the symbol afterwards began there before
      have hfree' : ∀ word ∈ words, ∀ x y, word = x ++ c :: y → ¬ y <+: right₁ := by
        rintro later hlater x y rfl hstart
        refine hfree.2 _ hlater x y rfl (hright₁.initial hmask ?_ hstart)
        intro a ha
        exact hwords.2 _ hlater (by simp [ha])
      rcases ih hwords.2 hfree' rfl with ⟨left', right', rfl, hleft'⟩
      exact ⟨left', right', rfl, .cons _ _ _ _ _ hleft₁ hleft'⟩

/-! ## Cuts of a series of replacements -/

/-- The position lies inside an occurrence that one of the replacements replaces. -/
inductive SplitsAny (mask : List α) : List (List α) → List α → Nat → Prop where
  | first (word : List α) (words : List (List α)) (text : List α) (n : Nat)
      (h : Splits word text n) : SplitsAny mask (word :: words) text n
  | later (word : List α) (words : List (List α)) (text between cut : List α) (n : Nat)
      (hwhole : Replaces word mask text between) (hcut : Replaces word mask (text.take n) cut)
      (h : SplitsAny mask words between cut.length) : SplitsAny mask (word :: words) text n

/-- Where the position is in no occurrence that the first word replaces, the rest of the
series replaces in a beginning of what the first word has left. -/
theorem Replaces.take_eq {between cut : List α} (hne : word ≠ [])
    (hwhole : Replaces word mask text between) (hcut : Replaces word mask (text.take n) cut)
    (hsplit : ¬ Splits word text n) :
    between.take cut.length = cut ∧ Replaces word mask (text.drop n) (between.drop cut.length) := by
  rcases hwhole.cut hsplit with ⟨first, rest, rfl, hfirst, hrest⟩
  rw [hcut.unique hne hfirst]
  simpa using hrest

/-- Outside the replaced occurrences, a cut leaves a beginning of the replaced text. -/
theorem ReplacesAll.prefix_of_not_splits (h : ReplacesAll mask words text out)
    (hne : ∀ word ∈ words, word ≠ []) (hcut : ReplacesAll mask words (text.take n) out')
    (hsplit : ¬ SplitsAny mask words text n) : out' <+: out := by
  induction h generalizing n with
  | nil text =>
      cases hcut
      exact List.take_prefix n text
  | cons word words text between out hwhole _ ih =>
      rw [List.forall_mem_cons] at hne
      cases hcut with
      | cons _ _ _ cut _ hfirst hrest =>
          have hnot : ¬ Splits word text n := fun hinside =>
            hsplit (.first word words text n hinside)
          rcases hwhole.take_eq hne.1 hfirst hnot with ⟨htake, _⟩
          apply ih hne.2 (n := cut.length)
          · rw [htake]
            exact hrest
          · exact fun hlater => hsplit (.later word words text between cut n hwhole hfirst hlater)

/-- No beginning of a word is the end of a later one. -/
def NoOverlap (words : List (List α)) : Prop :=
  words.Pairwise fun word later => ∀ part, part ≠ [] → part <+: word → part ≠ word →
    ¬ part <:+ later

/-- The beginning of a word that a cut leaves stays where the whole text has a mask, unless
a later word ends in it. -/
theorem Splits.not_prefix {between cut : List α} (h : Splits word text n)
    (hmask : mask ≠ []) (hword : word ≠ [] ∧ word.Disjoint mask)
    (hwords : ∀ later ∈ words, later ≠ [] ∧ later.Disjoint mask)
    (hoverlap : ∀ later ∈ words, ∀ part, part ≠ [] → part <+: word → part ≠ word →
      ¬ part <:+ later)
    (hwhole : Replaces word mask text between) (hrest : ReplacesAll mask words between out)
    (hcut : Replaces word mask (text.take n) cut) (hrest' : ReplacesAll mask words cut out') :
    ¬ out' <+: out := by
  intro hbegin
  rcases h.remains hword.1 hwhole with ⟨before, head, tail, last, heq, hhead, htail, rfl, hremains⟩
  rw [hcut.unique hword.1 hremains] at hrest'
  have hdisjoint : ∀ later ∈ words, later.Disjoint mask := fun later hlater =>
    (hwords later hlater).2
  cases mask with
  | nil => exact hmask rfl
  | cons m mask =>
      cases head with
      | nil => exact hhead rfl
      | cons c head =>
          have hfree : ∀ later ∈ words, ∀ x y, later = x ++ c :: y → ¬ y <+: head := by
            rintro later hlater x y rfl ⟨more, rfl⟩
            refine hoverlap _ hlater (c :: y) (List.cons_ne_nil c y) ?_ ?_ (List.suffix_append _ _)
            · rw [heq]
              exact ⟨more ++ tail, by simp⟩
            · rw [heq]
              intro hall
              have hlength := congrArg List.length hall
              have hpos := List.length_pos_of_ne_nil htail
              simp only [List.length_append, List.length_cons] at hlength
              omega
          have hmaskFree : ∀ later ∈ words, ∀ x y, later = x ++ m :: y →
              ¬ y <+: mask ++ last := by
            rintro later hlater x y rfl _
            exact hdisjoint _ hlater (by simp : m ∈ x ++ m :: y) List.mem_cons_self
          rcases hrest'.split_at_symbol hmask hdisjoint hfree with ⟨left, right, rfl, hleft⟩
          rw [List.append_assoc, List.cons_append] at hrest
          rcases hrest.split_at_symbol hmask hdisjoint hmaskFree with ⟨left', right', rfl, hleft'⟩
          have hsame := hleft.unique (fun later hlater => (hwords later hlater).1) hleft'
          rw [hsame, List.prefix_append_right_inj, List.cons_prefix_cons] at hbegin
          have hc : c ∈ word := by simp [heq]
          exact hword.2 hc (hbegin.1 ▸ List.mem_cons_self)

/-- For words without such overlaps, a cut leaves a beginning of the replaced text exactly
outside the replaced occurrences. -/
theorem ReplacesAll.prefix_iff (h : ReplacesAll mask words text out) (hmask : mask ≠ [])
    (hwords : ∀ word ∈ words, word ≠ [] ∧ word.Disjoint mask) (hoverlap : NoOverlap words)
    (hcut : ReplacesAll mask words (text.take n) out') :
    out' <+: out ↔ ¬ SplitsAny mask words text n := by
  refine ⟨fun hprefix hsplit => ?_, h.prefix_of_not_splits (fun word hword =>
    (hwords word hword).1) hcut⟩
  induction h generalizing n with
  | nil text => cases hsplit
  | cons word words text between out hwhole hrest ih =>
      rw [List.forall_mem_cons] at hwords
      rw [NoOverlap, List.pairwise_cons] at hoverlap
      cases hcut with
      | cons _ _ _ cut _ hfirst hrest' =>
          by_cases hinside : Splits word text n
          · exact hinside.not_prefix hmask hwords.1 hwords.2 hoverlap.1 hwhole hrest hfirst hrest'
              hprefix
          · rcases hwhole.take_eq hwords.1.1 hfirst hinside with ⟨htake, _⟩
            cases hsplit with
            | first _ _ _ _ hinside' => exact hinside hinside'
            | later _ _ _ between' cut' _ hwhole' hfirst' hlater =>
                rw [hwhole'.unique hwords.1.1 hwhole, hfirst'.unique hwords.1.1 hfirst] at hlater
                exact ih hwords.2 hoverlap.2 (by rw [htake]; exact hrest') hprefix hlater

/-! ## Cuts inside occurrences -/

/-- An occurrence of the word begins in front of the position and ends behind it. -/
def Crosses (word text : List α) (n : Nat) : Prop :=
  ∃ a b, word = a ++ b ∧ a ≠ [] ∧ b ≠ [] ∧ a <:+ text.take n ∧ b <+: text.drop n

theorem Splits.crosses (h : Splits word text n) : Crosses word text n := by
  induction h with
  | here rest n hpos hlt =>
      refine ⟨word.take n, word.drop n, (List.take_append_drop n word).symm, ?_, ?_, ?_, ?_⟩
      · exact List.ne_nil_of_length_pos (by rw [List.length_take]; omega)
      · exact List.ne_nil_of_length_pos (by rw [List.length_drop]; omega)
      · rw [List.take_append_of_le_length hlt.le]
      · rw [List.drop_append_of_le_length hlt.le]
        exact List.prefix_append _ _
  | hit rest n _ ih =>
      rcases ih with ⟨a, b, hword, ha, hb, hleft, hright⟩
      refine ⟨a, b, hword, ha, hb, ?_, ?_⟩
      · rw [List.take_length_add_append]
        exact hleft.trans (List.suffix_append _ _)
      · rwa [List.drop_length_add_append]
  | keep c rest n _ _ ih =>
      rcases ih with ⟨a, b, hword, ha, hb, hleft, hright⟩
      exact ⟨a, b, hword, ha, hb, hleft.trans (List.suffix_cons _ _), hright⟩

/-- A text without symbols of the mask results from itself only. -/
theorem Replaces.eq_of_disjoint (h : Replaces word mask text out) (hmask : mask ≠ [])
    (hapart : out.Disjoint mask) : text = out := by
  induction h with
  | nil => rfl
  | hit rest out _ _ =>
      cases mask with
      | nil => exact absurd rfl hmask
      | cons m mask => exact absurd List.mem_cons_self (hapart (List.mem_append_left _
          List.mem_cons_self))
  | keep c rest out _ _ ih =>
      rw [ih (List.disjoint_of_disjoint_cons_left hapart)]

/-- At the end of the result a word apart from the mask is at the end of the text. -/
theorem Replaces.final (h : Replaces word mask text out) (hmask : mask ≠ [])
    (hapart : w.Disjoint mask) (hw : w <:+ out) : w <:+ text := by
  induction h with
  | nil => exact hw
  | hit rest out h ih =>
      rcases List.suffix_or_suffix_of_suffix hw (List.suffix_append mask out) with hlater | hall
      · exact (ih hlater).trans (List.suffix_append _ _)
      · rcases hall with ⟨front, rfl⟩
        have hfront : front <:+ mask := by
          rcases hw with ⟨before, hbefore⟩
          rw [← List.append_assoc] at hbefore
          exact ⟨before, List.append_cancel_right hbefore⟩
        cases front with
        | nil => exact (ih (List.suffix_refl out)).trans (List.suffix_append _ _)
        | cons m front =>
            exact absurd (hfront.subset List.mem_cons_self) (hapart List.mem_cons_self)
  | keep c rest out hmiss h ih =>
      rcases List.suffix_cons_iff.mp hw with hall | hlater
      · rw [hall] at hapart ⊢
        rw [(Replaces.keep c rest out hmiss h).eq_of_disjoint hmask hapart]
      · exact (ih hlater).trans (List.suffix_cons c rest)

/-- A cut inside a replaced occurrence is inside an occurrence of the text, if the words are
apart from the mask. -/
theorem SplitsAny.crosses (h : SplitsAny mask words text n) (hmask : mask ≠ [])
    (hwords : ∀ word ∈ words, word ≠ [] ∧ word.Disjoint mask) :
    ∃ word ∈ words, Crosses word text n := by
  induction h with
  | first word words text n h => exact ⟨word, List.mem_cons_self, h.crosses⟩
  | later word words text between cut n hwhole hcut _ ih =>
      rw [List.forall_mem_cons] at hwords
      by_cases hinside : Splits word text n
      · exact ⟨word, List.mem_cons_self, hinside.crosses⟩
      · rcases hwhole.take_eq hwords.1.1 hcut hinside with ⟨htake, hdrop⟩
        rcases ih hwords.2 with ⟨later, hlater, a, b, rfl, ha, hb, hleft, hright⟩
        have hdisjoint := (hwords.2 _ hlater).2
        rw [htake] at hleft
        refine ⟨a ++ b, List.mem_cons_of_mem _ hlater, a, b, rfl, ha, hb, ?_, ?_⟩
        · exact hcut.final hmask (fun c hc => hdisjoint (List.mem_append_left _ hc)) hleft
        · exact hdrop.initial hmask (fun c hc => hdisjoint (List.mem_append_right _ hc)) hright

/-! ## All cuts of a text -/

/-- The first difference between a text and the result is a symbol of a word against the
beginning of a mask, and it is not the last symbol of the text. -/
theorem Replaces.first_difference {m : α} {mask : List α}
    (h : Replaces word (m :: mask) text out) (hlong : 2 ≤ word.length) :
    out = text ∨ ∃ before c rest rest', text = before ++ c :: rest ∧ out = before ++ m :: rest' ∧
      c ∈ word ∧ rest ≠ [] := by
  induction h with
  | nil => exact Or.inl rfl
  | hit rest out _ _ =>
      match word, hlong with
      | c :: d :: word, _ =>
          exact Or.inr ⟨[], c, d :: word ++ rest, mask ++ out, rfl, rfl, List.mem_cons_self,
            List.cons_ne_nil _ _⟩
  | keep d rest out _ _ ih =>
      rcases ih with rfl | ⟨before, c, last, last', rfl, rfl, hc, hne⟩
      · exact Or.inl rfl
      · exact Or.inr ⟨d :: before, c, last, last', rfl, rfl, hc, hne⟩

private theorem ReplacesAll.first_difference {m : α} {mask : List α}
    (h : ReplacesAll (m :: mask) words text out)
    (hwords : ∀ word ∈ words, 2 ≤ word.length ∧ m ∉ word) :
    out = text ∨ ∃ before c rest rest', text = before ++ c :: rest ∧ out = before ++ m :: rest' ∧
      c ≠ m ∧ rest ≠ [] := by
  induction h with
  | nil text => exact Or.inl rfl
  | cons word words text between out hfirst _ ih =>
      rw [List.forall_mem_cons] at hwords
      rcases hfirst.first_difference hwords.1.1 with
        rfl | ⟨before, c, rest, rest', rfl, rfl, hc, hne⟩
      · exact ih hwords.2
      · have hcm : c ≠ m := fun hsame => hwords.1.2 (hsame ▸ hc)
        rcases ih hwords.2 with rfl | ⟨before₂, d, rest₂, rest₂', htext, rfl, hdm, hne₂⟩
        · exact Or.inr ⟨before, c, rest, rest', rfl, rfl, hcm, hne⟩
        · -- the earlier of the two differences
          rcases List.append_eq_append_iff.mp htext with ⟨inner, rfl, hinner⟩ | ⟨inner, rfl, hinner⟩
          · cases inner with
            | nil => exact absurd (List.cons.inj hinner).1.symm hdm
            | cons e inner =>
                rcases List.cons.inj hinner with ⟨rfl, _⟩
                exact Or.inr ⟨before, c, rest, inner ++ m :: rest₂', rfl, by simp, hcm, hne⟩
          · cases inner with
            | nil => exact absurd (List.cons.inj hinner).1 hdm
            | cons e inner =>
                rcases List.cons.inj hinner with ⟨rfl, _⟩
                exact Or.inr ⟨before₂, d, inner ++ c :: rest, rest₂', by simp, rfl, hdm, by simp⟩

/-- Every cut leaves a beginning of the replaced text exactly when no word occurs in it. -/
theorem ReplacesAll.prefix_all_iff (h : ReplacesAll mask words text out) (hmask : mask ≠ [])
    (hwords : ∀ word ∈ words, 2 ≤ word.length ∧ word.Disjoint mask) :
    (∀ n out', ReplacesAll mask words (text.take n) out' → out' <+: out) ↔
      ∀ word ∈ words, ¬ word <:+: text := by
  have hapart : ∀ word ∈ words, word ≠ [] ∧ word.Disjoint mask := fun word hword =>
    ⟨List.ne_nil_of_length_pos (by have := (hwords word hword).1; omega), (hwords word hword).2⟩
  constructor
  · intro hprefix
    cases mask with
    | nil => exact absurd rfl hmask
    | cons m mask =>
        have hdiffer : ∀ word ∈ words, 2 ≤ word.length ∧ m ∉ word := fun word hword =>
          ⟨(hwords word hword).1, fun hm => (hwords word hword).2 hm List.mem_cons_self⟩
        rcases h.first_difference hdiffer with rfl | ⟨before, c, rest, rest', rfl, rfl, hcm, _⟩
        · exact h.removed hmask hapart
        · -- cut behind the first symbol that is replaced
          exfalso
          rcases exists_replacesAll (m :: mask) (fun word hword => (hapart word hword).1)
            ((before ++ c :: rest).take (before.length + 1)) with ⟨out', hout'⟩
          have hstart := hprefix (before.length + 1) out' hout'
          have htake : (before ++ c :: rest).take (before.length + 1) = before ++ [c] := by
            rw [List.take_length_add_append]
            rfl
          rw [htake] at hout'
          rcases hout'.first_difference hdiffer with
            rfl | ⟨before₂, d, rest₂, rest₂', htext, rfl, hdm, hne₂⟩
          · rw [List.prefix_append_right_inj, List.cons_prefix_cons] at hstart
            exact hcm hstart.1
          · rcases List.append_eq_append_iff.mp htext with ⟨inner, rfl, hinner⟩ | ⟨inner, rfl, hinner⟩
            · cases inner with
              | nil => exact hne₂ (List.cons.inj hinner).2.symm
              | cons e inner =>
                  have hlength := congrArg List.length hinner
                  simp at hlength
            · cases inner with
              | nil => exact hne₂ (List.cons.inj hinner).2
              | cons e inner =>
                  rcases List.cons.inj hinner with ⟨rfl, _⟩
                  rw [List.append_assoc, List.prefix_append_right_inj, List.cons_append,
                    List.cons_prefix_cons] at hstart
                  exact hdm hstart.1.symm
  · intro habsent n out' hout'
    have hcut : out' = text.take n := hout'.eq_of_absent fun word hword hinside =>
      habsent word hword (hinside.trans (List.take_prefix n text).isInfix)
    rw [hcut, h.eq_of_absent habsent]
    exact List.take_prefix n text

end TextReplacement
