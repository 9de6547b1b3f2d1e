import EtlTool.Foundations.TextCuts

/-!
# Replacing words in texts with quoted parts

A symbol that is in no word divides a text: what stands in front of it and behind it is
replaced on its own.  So a text with holes between such symbols is replaced hole by hole,
where none of the words occurs outside the holes.

Where a text stands behind a few symbols of its own, these are left alone as long as no
replaced occurrence begins among them.

Main results:

- Theorems {lit}`ReplacesAll.append_symbol` and {lit}`ReplacesAll.of_append_symbol`: both
  sides of a symbol in no word, and of a symbol that stays.
- Theorem {lit}`ReplacesAll.absent_of_eq`: shorter masks leave no text with a word alone.
- Theorems {lit}`ReplacesAll.keeps_start` and {lit}`ReplacesAll.breaks_start`: the first
  symbols of a text.
- Theorem {lit}`ReplacesAll.of_filter`: words that do not occur.
- Theorem {lit}`Quoted.replacesAll`: texts with quoted holes.
-/

namespace TextReplacement

variable {α : Type} {word mask text out left right left' right' w : List α}
variable {words : List (List α)} {c m : α} {n : Nat}

/-! ## A symbol in no word -/

/-- A prefix without the symbol ends before it. -/
theorem prefix_of_append_symbol (left : List α) (hfree : c ∉ w) (h : w <+: left ++ c :: right) :
    w <+: left := by
  induction left generalizing w with
  | nil =>
      cases w with
      | nil => exact List.nil_prefix
      | cons d w => exact absurd ((List.cons_prefix_cons.mp h).1 ▸ List.mem_cons_self) hfree
  | cons e left ih =>
      cases w with
      | nil => exact List.nil_prefix
      | cons d w =>
          rcases List.cons_prefix_cons.mp h with ⟨rfl, hrest⟩
          rw [List.mem_cons, not_or] at hfree
          exact List.cons_prefix_cons.mpr ⟨rfl, ih hfree.2 hrest⟩

/-- A word without the symbol occurs on one of its sides. -/
theorem infix_append_symbol_iff (hfree : c ∉ w) :
    w <:+: left ++ c :: right ↔ w <:+: left ∨ w <:+: right := by
  constructor
  · intro h
    induction left with
    | nil =>
        rcases List.infix_cons_iff.mp h with hstart | hright
        · exact Or.inl (prefix_of_append_symbol [] hfree hstart).isInfix
        · exact Or.inr hright
    | cons d left ih =>
        rcases List.infix_cons_iff.mp h with hstart | hlater
        · exact Or.inl (prefix_of_append_symbol (d :: left) hfree hstart).isInfix
        · rcases ih hlater with hleft | hright
          · exact Or.inl (hleft.trans (List.suffix_cons d left).isInfix)
          · exact Or.inr hright
  · rintro (hleft | hright)
    · exact hleft.trans (List.prefix_append _ _).isInfix
    · exact hright.trans ((List.suffix_cons c right).trans (List.suffix_append _ _)).isInfix

/-- Both sides of a symbol that is not in the word are replaced on their own. -/
theorem Replaces.append_symbol (hleft : Replaces word mask left left')
    (hright : Replaces word mask right right') (hne : word ≠ []) (hfree : c ∉ word) :
    Replaces word mask (left ++ c :: right) (left' ++ c :: right') := by
  induction hleft with
  | nil =>
      refine .keep c right right' (fun hstart => ?_) hright
      exact hne (List.prefix_nil.mp (prefix_of_append_symbol [] hfree hstart))
  | hit rest out _ ih =>
      rw [List.append_assoc, List.append_assoc]
      exact .hit _ _ ih
  | keep d rest out hmiss _ ih =>
      refine .keep d _ _ (fun hstart => hmiss ?_) ih
      exact prefix_of_append_symbol (d :: rest) hfree hstart

/-- Around a symbol that no word has, the two sides are replaced on their own. -/
theorem ReplacesAll.append_symbol (hleft : ReplacesAll mask words left left')
    (hright : ReplacesAll mask words right right')
    (hwords : ∀ word ∈ words, word ≠ [] ∧ c ∉ word) :
    ReplacesAll mask words (left ++ c :: right) (left' ++ c :: right') := by
  induction hleft generalizing right with
  | nil left =>
      cases hright
      exact .nil _
  | cons word words left between left' hfirst _ ih =>
      rw [List.forall_mem_cons] at hwords
      cases hright with
      | cons _ _ _ between' _ hfirst' hrest' =>
          exact .cons word words _ _ _
            (hfirst.append_symbol hfirst' hwords.1.1 hwords.1.2) (ih hrest' hwords.2)

/-- A result begins with a mask or with the first symbol of the text. -/
theorem Replaces.cons_inv (h : Replaces word mask (c :: text) out) (hne : word ≠ []) :
    (∃ more, out = mask ++ more) ∨ ∃ more, out = c :: more ∧ Replaces word mask text more := by
  by_cases hstart : word <+: c :: text
  · rcases hstart with ⟨rest, hrest⟩
    rw [← hrest] at h
    rcases h.hit_inv hne with ⟨more, hmore, _⟩
    exact Or.inl ⟨more, hmore⟩
  · exact Or.inr (h.keep_inv hstart)

/-- A symbol of the result that is not in the mask was there before, and both of its sides
were replaced on their own. -/
theorem Replaces.of_append_symbol (h : Replaces word mask text (left' ++ c :: right'))
    (hmask : c ∉ mask) :
    ∃ left right, text = left ++ c :: right ∧ Replaces word mask left left' ∧
      Replaces word mask right right' := by
  generalize hout : left' ++ c :: right' = out at h
  induction h generalizing left' with
  | nil => simp at hout
  | hit rest out _ ih =>
      have hsplit : ∃ later, left' = mask ++ later ∧ later ++ c :: right' = out := by
        rcases List.append_eq_append_iff.mp hout with ⟨later, hmore, hlater⟩ | ⟨later, hmore, hlater⟩
        · cases later with
          | nil => exact ⟨[], by rw [hmore, List.append_nil, List.append_nil], hlater⟩
          | cons d later =>
              refine absurd ?_ hmask
              rw [hmore, (List.cons.inj hlater).1]
              exact List.mem_append_right _ List.mem_cons_self
        · exact ⟨later, hmore, hlater.symm⟩
      rcases hsplit with ⟨later, rfl, hlater⟩
      rcases ih hlater with ⟨left, right, rfl, hleft, hright⟩
      exact ⟨word ++ left, right, by rw [List.append_assoc], .hit left later hleft, hright⟩
  | keep d rest out hmiss hrest ih =>
      cases left' with
      | nil =>
          cases hout
          exact ⟨[], rest, rfl, .nil, hrest⟩
      | cons e left' =>
          cases hout
          rcases ih rfl with ⟨left, right, rfl, hleft, hright⟩
          refine ⟨d :: left, right, rfl, .keep d left left' (fun hstart => hmiss ?_) hleft, hright⟩
          exact hstart.trans (List.prefix_append (d :: left) (c :: right))

/-- A symbol of the output that the mask lacks stood in the text, and its sides were replaced on
their own. -/
theorem ReplacesAll.of_append_symbol (h : ReplacesAll mask words text (left' ++ c :: right'))
    (hmask : c ∉ mask) :
    ∃ left right, text = left ++ c :: right ∧ ReplacesAll mask words left left' ∧
      ReplacesAll mask words right right' := by
  generalize hout : left' ++ c :: right' = out at h
  induction h generalizing left' right' with
  | nil text => exact ⟨left', right', hout.symm, .nil left', .nil right'⟩
  | cons word words text between out hfirst _ ih =>
      rcases ih hout with ⟨left₁, right₁, rfl, hleft, hright⟩
      rcases hfirst.of_append_symbol hmask with ⟨left, right, rfl, hleft₁, hright₁⟩
      exact ⟨left, right, rfl, .cons word words left left₁ left' hleft₁ hleft,
        .cons word words right right₁ right' hright₁ hright⟩

/-! ## What a replacement leaves -/

/-- Symbols outside the word and the mask come from the text. -/
theorem Replaces.mem_of_mem (h : Replaces word mask text out) (hmask : c ∉ mask)
    (hc : c ∈ out) : c ∈ text := by
  induction h with
  | nil => exact hc
  | hit rest out _ ih =>
      exact List.mem_append_right _ (ih ((List.mem_append.mp hc).resolve_left hmask))
  | keep d rest out _ _ ih =>
      rcases List.mem_cons.mp hc with rfl | hc
      · exact List.mem_cons_self
      · exact List.mem_cons_of_mem d (ih hc)

/-- A symbol of the output that the mask lacks stood in the text. -/
theorem ReplacesAll.mem_of_mem (h : ReplacesAll mask words text out) (hmask : c ∉ mask)
    (hc : c ∈ out) : c ∈ text := by
  induction h with
  | nil text => exact hc
  | cons word words text between out hfirst _ ih => exact hfirst.mem_of_mem hmask (ih hc)

/-- A symbol that is in no word stays. -/
theorem Replaces.mem_of_free (h : Replaces word mask text out) (hfree : c ∉ word)
    (hc : c ∈ text) : c ∈ out := by
  induction h with
  | nil => exact hc
  | hit rest out _ ih =>
      exact List.mem_append_right _ (ih ((List.mem_append.mp hc).resolve_left hfree))
  | keep d rest out _ _ ih =>
      rcases List.mem_cons.mp hc with rfl | hc
      · exact List.mem_cons_self
      · exact List.mem_cons_of_mem d (ih hc)

/-- A symbol that no word has stays in the output. -/
theorem ReplacesAll.mem_of_free (h : ReplacesAll mask words text out)
    (hfree : ∀ word ∈ words, c ∉ word) (hc : c ∈ text) : c ∈ out := by
  induction h with
  | nil text => exact hc
  | cons word words text between out hfirst _ ih =>
      rw [List.forall_mem_cons] at hfree
      exact ih hfree.2 (hfirst.mem_of_free hfree.1 hc)

/-- A replacement leaves something of a text. -/
theorem Replaces.ne_nil (h : Replaces word mask text out) (hmask : mask ≠ [])
    (htext : text ≠ []) : out ≠ [] := by
  cases h with
  | nil => exact htext
  | hit rest out _ => exact List.append_ne_nil_of_left_ne_nil hmask out
  | keep d rest out _ _ => exact List.cons_ne_nil d out

/-- Replacing never empties a text. -/
theorem ReplacesAll.ne_nil (h : ReplacesAll mask words text out) (hmask : mask ≠ [])
    (htext : text ≠ []) : out ≠ [] := by
  induction h with
  | nil text => exact htext
  | cons word words text between out hfirst _ ih => exact ih (hfirst.ne_nil hmask htext)

/-- A symbol of the mask does not go away. -/
theorem Replaces.mask_mem (h : Replaces word mask text out) (hm : m ∈ mask) (hc : m ∈ text) :
    m ∈ out := by
  induction h with
  | nil => exact hc
  | hit rest out _ _ => exact List.mem_append_left _ hm
  | keep d rest out _ _ ih =>
      rcases List.mem_cons.mp hc with rfl | hc
      · exact List.mem_cons_self
      · exact List.mem_cons_of_mem d (ih hc)

private theorem ReplacesAll.mask_mem (h : ReplacesAll mask words text out) (hm : m ∈ mask)
    (hc : m ∈ text) : m ∈ out := by
  induction h with
  | nil text => exact hc
  | cons word words text between out hfirst _ ih => exact ih (hfirst.mask_mem hm hc)

/-- Where a word occurs, a mask is left. -/
theorem Replaces.mask_mem_of_occurs (h : Replaces word mask text out) (hm : m ∈ mask)
    (hne : word ≠ []) (hoccurs : word <:+: text) : m ∈ out := by
  induction h with
  | nil => exact absurd (List.infix_nil.mp hoccurs) hne
  | hit rest out _ _ => exact List.mem_append_left _ hm
  | keep d rest out hmiss _ ih =>
      exact List.mem_cons_of_mem d (ih ((List.infix_cons_iff.mp hoccurs).resolve_left hmiss))

/-- Where a word occurs, the mask is written. -/
theorem ReplacesAll.mask_mem_of_occurs (h : ReplacesAll mask words text out) (hm : m ∈ mask)
    (hne : ∀ word ∈ words, word ≠ []) (hoccurs : ∃ word ∈ words, word <:+: text) : m ∈ out := by
  induction h with
  | nil text =>
      rcases hoccurs with ⟨word, hword, _⟩
      exact absurd hword List.not_mem_nil
  | cons word words text between out hfirst hrest ih =>
      rw [List.forall_mem_cons] at hne
      by_cases hhere : word <:+: text
      · exact hrest.mask_mem hm (hfirst.mask_mem_of_occurs hm hne.1 hhere)
      · rcases hoccurs with ⟨other, hother, hoccurs⟩
        rcases List.mem_cons.mp hother with rfl | hother
        · exact absurd hoccurs hhere
        · rw [hfirst.eq_of_absent hhere] at ih
          exact ih hne.2 ⟨other, hother, hoccurs⟩

/-- Replacing by a shorter mask makes a text shorter, if the word occurs in it. -/
theorem Replaces.length_le (h : Replaces word mask text out) (hshort : mask.length < word.length) :
    out.length ≤ text.length ∧ (out.length = text.length → ¬ word <:+: text) := by
  induction h with
  | nil =>
      refine ⟨le_rfl, fun _ hoccurs => ?_⟩
      rw [List.infix_nil.mp hoccurs] at hshort
      exact absurd hshort (Nat.not_lt_zero _)
  | hit rest out _ ih =>
      simp only [List.length_append]
      omega
  | keep d rest out hmiss _ ih =>
      simp only [List.length_cons, Nat.add_right_cancel_iff, Nat.add_le_add_iff_right,
        List.infix_cons_iff, not_or]
      exact ⟨ih.1, fun hlength => ⟨hmiss, ih.2 hlength⟩⟩

/-- With words longer than the mask no text grows, and only texts without a word keep their length.
-/
theorem ReplacesAll.length_le (h : ReplacesAll mask words text out)
    (hshort : ∀ word ∈ words, mask.length < word.length) :
    out.length ≤ text.length ∧
      (out.length = text.length → ∀ word ∈ words, ¬ word <:+: text) := by
  induction h with
  | nil text => exact ⟨le_rfl, fun _ => nofun⟩
  | cons word words text between out hfirst _ ih =>
      rw [List.forall_mem_cons] at hshort
      have hbetween := hfirst.length_le hshort.1
      have hlater := ih hshort.2
      refine ⟨hlater.1.trans hbetween.1, fun hlength => ?_⟩
      have habsent := hbetween.2 (by omega)
      rw [hfirst.eq_of_absent habsent] at hlater
      exact List.forall_mem_cons.mpr ⟨habsent, hlater.2 hlength⟩

/-- A text that shorter masks leave as it is has none of the words in it. -/
theorem ReplacesAll.absent_of_eq (h : ReplacesAll mask words text text)
    (hshort : ∀ word ∈ words, mask.length < word.length) :
    ∀ word ∈ words, ¬ word <:+: text :=
  (h.length_le hshort).2 rfl

/-! ## The first symbols of a text -/

/-- A replaced occurrence begins before the position. -/
inductive StartsBefore (word : List α) : List α → Nat → Prop where
  | here (rest : List α) (n : Nat) (hpos : 0 < n) : StartsBefore word (word ++ rest) n
  | keep (c : α) (rest : List α) (n : Nat) (hmiss : ¬ word <+: c :: rest)
      (h : StartsBefore word rest n) : StartsBefore word (c :: rest) (n + 1)

/-- An occurrence that one of the replacements replaces begins before the position. -/
inductive StartsBeforeAny (mask : List α) : List (List α) → List α → Nat → Prop where
  | first (word : List α) (words : List (List α)) (text : List α) (n : Nat)
      (h : StartsBefore word text n) : StartsBeforeAny mask (word :: words) text n
  | later (word : List α) (words : List (List α)) (text between : List α) (n : Nat)
      (hnot : ¬ StartsBefore word text n) (hfirst : Replaces word mask text between)
      (h : StartsBeforeAny mask words between n) : StartsBeforeAny mask (word :: words) text n

/-- The symbols before all replaced occurrences stay where they are. -/
theorem Replaces.keeps_start (h : Replaces word mask (left ++ right) out)
    (hnot : ¬ StartsBefore word (left ++ right) left.length) :
    ∃ right', out = left ++ right' ∧ Replaces word mask right right' := by
  generalize htext : left ++ right = text at h hnot
  induction h generalizing left with
  | nil =>
      rcases List.append_eq_nil_iff.mp htext with ⟨rfl, rfl⟩
      exact ⟨[], rfl, .nil⟩
  | hit rest out h _ =>
      cases left with
      | nil =>
          refine ⟨mask ++ out, rfl, ?_⟩
          rw [List.nil_append] at htext
          rw [htext]
          exact .hit rest out h
      | cons d left =>
          exact absurd (.here rest _ (by rw [List.length_cons]; omega)) hnot
  | keep d rest out hmiss h ih =>
      cases left with
      | nil =>
          rw [List.nil_append] at htext
          rw [htext]
          exact ⟨d :: out, rfl, .keep d rest out hmiss h⟩
      | cons e left =>
          rcases List.cons.inj htext with ⟨rfl, hrest⟩
          rw [List.length_cons] at hnot
          rcases ih hrest fun hlater => hnot (.keep e rest _ hmiss hlater) with
            ⟨right', rfl, hright'⟩
          exact ⟨right', rfl, hright'⟩

private theorem Replaces.take_start (h : Replaces word mask text out)
    (hnot : ¬ StartsBefore word text n) : out.take n = text.take n := by
  induction h generalizing n with
  | nil => rfl
  | hit rest out _ _ =>
      cases n with
      | zero => rfl
      | succ n => exact absurd (.here rest (n + 1) (Nat.succ_pos n)) hnot
  | keep d rest out hmiss _ ih =>
      cases n with
      | zero => rfl
      | succ n =>
          rw [List.take_succ_cons, List.take_succ_cons,
            ih fun hlater => hnot (.keep d rest n hmiss hlater)]

/-- Where a replaced occurrence begins among the first symbols, one of them is followed by
the mask instead. -/
theorem StartsBefore.breaks_start (h : StartsBefore word text n) (hne : word ≠ [])
    (hout : Replaces word (m :: mask) text out) : ∃ k < n, text.take k ++ [m] <+: out := by
  induction h generalizing out with
  | here rest n hpos =>
      rcases hout.hit_inv hne with ⟨out', rfl, _⟩
      exact ⟨0, hpos, by simp⟩
  | keep c rest n hmiss _ ih =>
      rcases hout.keep_inv hmiss with ⟨out', rfl, hrest⟩
      rcases ih hrest with ⟨k, hk, hprefix⟩
      refine ⟨k + 1, by omega, ?_⟩
      rw [List.take_succ_cons, List.cons_append, List.cons_prefix_cons]
      exact ⟨rfl, hprefix⟩

/-- The mask behind the first symbols may move to the front, but it does not go away. -/
theorem Replaces.mask_stays (h : Replaces word (m :: mask) text out)
    (hstart : left ++ [m] <+: text) : ∃ k ≤ left.length, left.take k ++ [m] <+: out := by
  induction h generalizing left with
  | nil => simp at hstart
  | hit rest out _ _ => exact ⟨0, Nat.zero_le _, by simp⟩
  | keep d rest out _ _ ih =>
      cases left with
      | nil =>
          rcases List.cons_prefix_cons.mp hstart with ⟨rfl, _⟩
          exact ⟨0, Nat.zero_le _, by simp⟩
      | cons e left =>
          rw [List.cons_append, List.cons_prefix_cons] at hstart
          rcases hstart with ⟨rfl, hstart⟩
          rcases ih hstart with ⟨k, hk, hprefix⟩
          refine ⟨k + 1, by rw [List.length_cons]; omega, ?_⟩
          rw [List.take_succ_cons, List.cons_append, List.cons_prefix_cons]
          exact ⟨rfl, hprefix⟩

private theorem ReplacesAll.mask_stays (h : ReplacesAll (m :: mask) words text out)
    (hstart : left ++ [m] <+: text) :
    ∃ k ≤ left.length, left.take k ++ [m] <+: out := by
  induction h generalizing left with
  | nil text => exact ⟨left.length, le_rfl, by rwa [List.take_length]⟩
  | cons word words text between out hfirst _ ih =>
      rcases hfirst.mask_stays hstart with ⟨k, hk, hbetween⟩
      rcases ih hbetween with ⟨k', hk', hout⟩
      rw [List.length_take] at hk'
      rw [List.take_take, min_eq_left (by omega)] at hout
      exact ⟨k', by omega, hout⟩

/-- The symbols before all replaced occurrences stay where they are, and the rest is
replaced on its own. -/
theorem ReplacesAll.keeps_start (h : ReplacesAll mask words (left ++ right) out)
    (hnot : ¬ StartsBeforeAny mask words (left ++ right) left.length) :
    ∃ right', out = left ++ right' ∧ ReplacesAll mask words right right' := by
  generalize htext : left ++ right = text at h hnot
  induction h generalizing right with
  | nil text => exact ⟨right, htext.symm, .nil right⟩
  | cons word words text between out hfirst _ ih =>
      subst htext
      have hfree : ¬ StartsBefore word (left ++ right) left.length := fun hstart =>
        hnot (.first word words _ _ hstart)
      rcases hfirst.keeps_start hfree with ⟨right₁, rfl, hright₁⟩
      rcases ih rfl fun hlater => hnot (.later word words _ _ _ hfree hfirst hlater) with
        ⟨right', rfl, hright'⟩
      exact ⟨right', rfl, .cons word words right right₁ right' hright₁ hright'⟩

/-- Where a replaced occurrence begins among the first symbols, one of them is followed by
the mask instead. -/
theorem ReplacesAll.breaks_start (h : ReplacesAll (m :: mask) words text out)
    (hwords : ∀ word ∈ words, word ≠ []) (hstart : StartsBeforeAny (m :: mask) words text n) :
    ∃ k < n, text.take k ++ [m] <+: out := by
  induction hstart generalizing out with
  | first word words text n hstart =>
      rw [List.forall_mem_cons] at hwords
      cases h with
      | cons _ _ _ between _ hfirst hrest =>
          rcases hstart.breaks_start hwords.1 hfirst with ⟨k, hk, hbetween⟩
          rcases hrest.mask_stays hbetween with ⟨k', hk', hout⟩
          rw [List.length_take] at hk'
          rw [List.take_take, min_eq_left (by omega)] at hout
          exact ⟨k', by omega, hout⟩
  | later word words text between n hnot hfirst hlater ih =>
      rw [List.forall_mem_cons] at hwords
      cases h with
      | cons _ _ _ between' _ hfirst' hrest =>
          rw [hfirst'.unique hwords.1 hfirst] at hrest
          rcases ih hrest hwords.2 with ⟨k, hk, hout⟩
          have htake := congrArg (List.take k) (hfirst.take_start hnot)
          rw [List.take_take, List.take_take, min_eq_left hk.le] at htake
          exact ⟨k, hk, htake ▸ hout⟩

/-! ## Words that do not occur -/

/-- Words that do not occur when their turn comes may be left out. -/
theorem ReplacesAll.of_filter {keep : List α → Bool}
    (h : ReplacesAll mask words text out)
    (habsent : ∀ before word after between, words = before ++ word :: after →
      keep word = false → ReplacesAll mask before text between → ¬ word <:+: between) :
    ReplacesAll mask (words.filter keep) text out := by
  induction h with
  | nil text => exact .nil text
  | cons word words text between out hfirst _ ih =>
      have hlater : ∀ before later after between', words = before ++ later :: after →
          keep later = false → ReplacesAll mask before between between' →
            ¬ later <:+: between' := by
        rintro before later after between' rfl hkeep hbefore
        exact habsent (word :: before) later after between' rfl hkeep
          (.cons word before text between between' hfirst hbefore)
      cases hkeep : keep word with
      | true =>
          rw [List.filter_cons_of_pos hkeep]
          exact .cons word _ text between out hfirst (ih hlater)
      | false =>
          rw [List.filter_cons_of_neg (by simp [hkeep])]
          rw [← hfirst.eq_of_absent (habsent [] word words text rfl hkeep (.nil text))]
          exact ih hlater

/-- A text without any of the words is replaced by itself. -/
theorem replacesAll_self (habsent : ∀ word ∈ words, ¬ word <:+: text) :
    ReplacesAll mask words text text := by
  induction words with
  | nil => exact .nil text
  | cons word words ih =>
      rw [List.forall_mem_cons] at habsent
      exact .cons word words text text text (replaces_self habsent.1) (ih habsent.2)

/-! ## Quoted holes -/

/-- A text with named holes. -/
abbrev Quoted (σ α : Type) := List (α ⊕ σ)

namespace Quoted

variable {σ : Type} {q : α} {write write' : σ → List α}

/-- The text with its holes filled in between quotes. -/
def fill (q : α) (write : σ → List α) : Quoted σ α → List α
  | [] => []
  | .inl c :: rest => c :: fill q write rest
  | .inr name :: rest => q :: (write name ++ q :: fill q write rest)

/-- Filling two quoted texts, one after the other. -/
theorem fill_append (s t : Quoted σ α) :
    fill q write (s ++ t) = fill q write s ++ fill q write t := by
  induction s with
  | nil => rfl
  | cons token s ih =>
      cases token with
      | inl c => simp [fill, ih]
      | inr name => simp [fill, ih]

/-- A text without quoted parts fills to itself. -/
theorem fill_map_inl (plain : List α) : fill q write (plain.map .inl) = plain := by
  induction plain with
  | nil => rfl
  | cons c plain ih => rw [List.map_cons, fill, ih]

/-- A text with holes is replaced hole by hole, if no word occurs where the holes are empty. -/
theorem replacesAll (t : Quoted σ α) (hwords : ∀ word ∈ words, word ≠ [] ∧ q ∉ word)
    (habsent : ∀ word ∈ words, ¬ word <:+: fill q (fun _ => []) t)
    (hwrite : ∀ name, .inr name ∈ t → ReplacesAll mask words (write name) (write' name)) :
    ReplacesAll mask words (fill q write t) (fill q write' t) := by
  suffices h : ∀ plain : List α,
      (∀ word ∈ words, ¬ word <:+: plain ++ fill q (fun _ => []) t) →
        ReplacesAll mask words (plain ++ fill q write t) (plain ++ fill q write' t) from
    h [] habsent
  clear habsent
  induction t with
  | nil =>
      intro plain habsent
      exact replacesAll_self habsent
  | cons token t ih =>
      intro plain habsent
      cases token with
      | inl c =>
          have hlater := ih (fun name hname => hwrite name (List.mem_cons_of_mem _ hname))
            (plain ++ [c]) (by simpa [fill] using habsent)
          simpa [fill] using hlater
      | inr name =>
          have hsides : ∀ word ∈ words, ¬ word <:+: plain ∧
              ¬ word <:+: fill q (fun _ => []) t := by
            intro word hword
            have hfree := (hwords word hword).2
            have hnot := habsent word hword
            rw [fill, infix_append_symbol_iff hfree, not_or, List.nil_append] at hnot
            refine ⟨hnot.1, fun hoccurs => hnot.2 ?_⟩
            exact hoccurs.trans (List.suffix_cons q _).isInfix
          have hplain : ReplacesAll mask words plain plain :=
            replacesAll_self fun word hword => (hsides word hword).1
          have hrest := ih (fun name hname => hwrite name (List.mem_cons_of_mem _ hname)) []
            fun word hword => (hsides word hword).2
          exact hplain.append_symbol
            ((hwrite name List.mem_cons_self).append_symbol hrest hwords) hwords

end Quoted

end TextReplacement
