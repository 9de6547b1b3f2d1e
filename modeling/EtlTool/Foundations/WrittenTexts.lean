import EtlTool.Foundations.QuotedTexts

/-!
# Replacing words in texts that are written symbol by symbol

A text of symbols is written down, each symbol as one or several characters, and words are
replaced in what is written.  As long as every occurrence that is replaced is the writing of
whole symbols, this is a replacement on the symbols.

A mask may bring a word back: it may be a part of the word, and stand beside the other part.
Words that share no symbol with the mask are never completed in this way.

Main results:

- Theorem {lit}`ReplacesWholeAll.written`: a replacement of whole symbols is one in what is
  written.
- Theorem {lit}`ReplacesWholeAll.split_at_guard`: symbols that are never replaced.
- Theorem {lit}`ReplacesWholeAll.occurs_cases`: a word in the result is completed by a mask,
  or it occurs in the text and is not replaced.
-/

namespace TextReplacement

variable {α β γ : Type}

/-! ## Whole symbols -/

section

variable (write : β → List α) (free : β → Prop)

/-- The result of replacing a word in what is written, from left to right, where each
occurrence that is replaced is the writing of whole symbols that may be replaced. -/
inductive ReplacesWhole (word : List α) (mask : List β) : List β → List β → Prop where
  | nil : ReplacesWhole word mask [] []
  | hit (piece rest out : List β) (hpiece : piece.flatMap write = word)
      (hfree : ∀ s ∈ piece, free s) (h : ReplacesWhole word mask rest out) :
      ReplacesWhole word mask (piece ++ rest) (mask ++ out)
  | keep (s : β) (rest out : List β)
      (hmiss : ∀ n < (write s).length, ¬ word <+: ((s :: rest).flatMap write).drop n)
      (h : ReplacesWhole word mask rest out) : ReplacesWhole word mask (s :: rest) (s :: out)

/-- The same for one word after the other. -/
inductive ReplacesWholeAll (mask : List β) : List (List α) → List β → List β → Prop where
  | nil (text : List β) : ReplacesWholeAll mask [] text text
  | cons (word : List α) (words : List (List α)) (text between out : List β)
      (hfirst : ReplacesWhole write free word mask text between)
      (hrest : ReplacesWholeAll mask words between out) :
      ReplacesWholeAll mask (word :: words) text out

end

variable {write : β → List α} {free : β → Prop} {word : List α} {words : List (List α)}
  {mask text out : List β}

/-- Symbols in which no occurrence begins are kept. -/
theorem Replaces.keep_all {mask front rest out : List α}
    (hmiss : ∀ n < front.length, ¬ word <+: (front ++ rest).drop n)
    (h : Replaces word mask rest out) : Replaces word mask (front ++ rest) (front ++ out) := by
  induction front with
  | nil => exact h
  | cons c front ih =>
      refine .keep c _ _ (hmiss 0 (Nat.succ_pos _)) (ih fun n hn => ?_)
      exact hmiss (n + 1) (Nat.succ_lt_succ hn)

/-- A replacement of whole symbols is one in what is written. -/
theorem ReplacesWhole.written (h : ReplacesWhole write free word mask text out) :
    Replaces word (mask.flatMap write) (text.flatMap write) (out.flatMap write) := by
  induction h with
  | nil => exact .nil
  | hit piece rest out hpiece _ _ ih =>
      rw [List.flatMap_append, List.flatMap_append, hpiece]
      exact .hit _ _ ih
  | keep s rest out hmiss _ ih =>
      rw [List.flatMap_cons] at hmiss ⊢
      rw [List.flatMap_cons]
      exact ih.keep_all hmiss

/-- The same for one word after the other. -/
theorem ReplacesWholeAll.written (h : ReplacesWholeAll write free mask words text out) :
    ReplacesAll (mask.flatMap write) words (text.flatMap write) (out.flatMap write) := by
  induction h with
  | nil text => exact .nil _
  | cons word words text between out hfirst _ ih => exact .cons _ _ _ _ _ hfirst.written ih

/-- In the beginning of a text, fewer occurrences begin. -/
theorem misses_beginning {s : β} {left rest : List β} (hleft : left <+: rest)
    (hmiss : ∀ n < (write s).length, ¬ word <+: ((s :: rest).flatMap write).drop n) :
    ∀ n < (write s).length, ¬ word <+: ((s :: left).flatMap write).drop n := by
  rcases hleft with ⟨right, rfl⟩
  intro n hn hstart
  refine hmiss n hn (hstart.trans (List.IsPrefix.drop ?_ n))
  rw [← List.cons_append, List.flatMap_append]
  exact List.prefix_append _ _

/-! ## Symbols that are kept -/

/-- A symbol that may not be replaced divides the result as it divides the text. -/
theorem ReplacesWhole.split_at_guard {s : β} {left right : List β}
    (h : ReplacesWhole write free word mask (left ++ s :: right) out) (hguard : ¬ free s) :
    ∃ left' right', out = left' ++ s :: right' ∧
      ReplacesWhole write free word mask left left' ∧
        ReplacesWhole write free word mask right right' := by
  generalize htext : left ++ s :: right = text at h
  induction h generalizing left with
  | nil => simp at htext
  | hit piece rest out hpiece hfree h ih =>
      rcases List.append_eq_append_iff.mp htext with ⟨inner, rfl, hrest⟩ | ⟨inner, rfl, hrest⟩
      · cases inner with
        | nil =>
            rcases @ih [] hrest with ⟨left', right', rfl, hleft, hright⟩
            refine ⟨mask ++ left', right', by rw [List.append_assoc], ?_, hright⟩
            rw [List.append_nil] at hpiece hfree
            simpa using ReplacesWhole.hit left [] left' hpiece hfree hleft
        | cons t inner =>
            rcases List.cons.inj hrest with ⟨rfl, _⟩
            exact absurd (hfree s (by simp)) hguard
      · rcases ih hrest.symm with ⟨left', right', rfl, hleft, hright⟩
        exact ⟨mask ++ left', right', by rw [List.append_assoc],
          .hit piece _ _ hpiece hfree hleft, hright⟩
  | keep t rest out hmiss h ih =>
      cases left with
      | nil =>
          rcases List.cons.inj htext with ⟨rfl, rfl⟩
          exact ⟨[], out, rfl, .nil, h⟩
      | cons u left =>
          rcases List.cons.inj htext with ⟨rfl, rfl⟩
          rcases ih rfl with ⟨left', right', rfl, hleft, hright⟩
          exact ⟨u :: left', right', rfl,
            .keep u _ _ (misses_beginning (List.prefix_append _ _) hmiss) hleft, hright⟩

/-- The same for one word after the other. -/
theorem ReplacesWholeAll.split_at_guard {s : β} {left right : List β}
    (h : ReplacesWholeAll write free mask words (left ++ s :: right) out) (hguard : ¬ free s) :
    ∃ left' right', out = left' ++ s :: right' ∧
      ReplacesWholeAll write free mask words left left' ∧
        ReplacesWholeAll write free mask words right right' := by
  generalize htext : left ++ s :: right = text at h
  induction h generalizing left right with
  | nil text => exact ⟨left, right, htext.symm, .nil left, .nil right⟩
  | cons word words text between out hfirst _ ih =>
      rw [← htext] at hfirst
      rcases hfirst.split_at_guard hguard with ⟨left₁, right₁, rfl, hleft₁, hright₁⟩
      rcases ih rfl with ⟨left', right', rfl, hleft, hright⟩
      exact ⟨left', right', rfl, .cons _ _ _ _ _ hleft₁ hleft, .cons _ _ _ _ _ hright₁ hright⟩

/-- A symbol of the result that is not in the mask is a symbol of the text. -/
theorem ReplacesWhole.of_append_symbol {s : β} {left' right' : List β}
    (h : ReplacesWhole write free word mask text (left' ++ s :: right')) (hmask : s ∉ mask) :
    ∃ left right, text = left ++ s :: right ∧ ReplacesWhole write free word mask left left' ∧
      ReplacesWhole write free word mask right right' := by
  generalize hout : left' ++ s :: right' = out at h
  induction h generalizing left' with
  | nil => simp at hout
  | hit piece rest out hpiece hfree h ih =>
      rcases List.append_eq_append_iff.mp hout with ⟨inner, rfl, hrest⟩ | ⟨inner, rfl, hrest⟩
      · cases inner with
        | nil =>
            rcases @ih [] hrest with ⟨left, right, rfl, hleft, hright⟩
            refine ⟨piece ++ left, right, by rw [List.append_assoc], ?_, hright⟩
            have hhit : ReplacesWhole write free word (left' ++ []) (piece ++ left)
                ((left' ++ []) ++ []) :=
              .hit piece left [] hpiece hfree hleft
            simpa using hhit
        | cons t inner =>
            rcases List.cons.inj hrest with ⟨rfl, _⟩
            exact absurd (by simp) hmask
      · rcases ih hrest.symm with ⟨left, right, rfl, hleft, hright⟩
        exact ⟨piece ++ left, right, by rw [List.append_assoc],
          .hit piece _ _ hpiece hfree hleft, hright⟩
  | keep t rest out hmiss h ih =>
      cases left' with
      | nil =>
          rcases List.cons.inj hout with ⟨rfl, rfl⟩
          exact ⟨[], rest, rfl, .nil, h⟩
      | cons u left' =>
          rcases List.cons.inj hout with ⟨rfl, rfl⟩
          rcases ih rfl with ⟨left, right, rfl, hleft, hright⟩
          exact ⟨u :: left, right, rfl,
            .keep u _ _ (misses_beginning (List.prefix_append _ _) hmiss) hleft, hright⟩

/-- The same for one word after the other. -/
theorem ReplacesWholeAll.of_append_symbol {s : β} {left' right' : List β}
    (h : ReplacesWholeAll write free mask words text (left' ++ s :: right')) (hmask : s ∉ mask) :
    ∃ left right, text = left ++ s :: right ∧
      ReplacesWholeAll write free mask words left left' ∧
        ReplacesWholeAll write free mask words right right' := by
  generalize hout : left' ++ s :: right' = out at h
  induction h with
  | nil text => exact ⟨left', right', hout.symm, .nil left', .nil right'⟩
  | cons word words text between out hfirst _ ih =>
      rcases ih hout with ⟨left₁, right₁, rfl, hleft₁, hright₁⟩
      rcases hfirst.of_append_symbol hmask with ⟨left, right, rfl, hleft, hright⟩
      exact ⟨left, right, rfl, .cons _ _ _ _ _ hleft hleft₁, .cons _ _ _ _ _ hright hright₁⟩

/-- A character that a symbol writes alone marks this symbol. -/
theorem exists_of_flatMap_eq_append {c : α} {left right : List α}
    (halone : ∀ s ∈ text, c ∈ write s → write s = [c])
    (h : text.flatMap write = left ++ c :: right) :
    ∃ left' s right', text = left' ++ s :: right' ∧ write s = [c] ∧
      left'.flatMap write = left ∧ right'.flatMap write = right := by
  induction text generalizing left with
  | nil => simp at h
  | cons s rest ih =>
      rw [List.forall_mem_cons] at halone
      rw [List.flatMap_cons] at h
      rcases List.append_eq_append_iff.mp h with ⟨inner, hleft, hrest⟩ | ⟨inner, hwrite, hrest⟩
      · rcases ih halone.2 hrest with ⟨left', t, right', rfl, ht, hleft', hright'⟩
        exact ⟨s :: left', t, right', rfl, ht, by rw [List.flatMap_cons, hleft', hleft], hright'⟩
      · cases inner with
        | nil =>
            rcases @ih [] halone.2 hrest.symm with
              ⟨left', t, right', rfl, ht, hleft', hright'⟩
            refine ⟨s :: left', t, right', rfl, ht, ?_, hright'⟩
            rw [List.flatMap_cons, hleft', hwrite, List.append_nil, List.append_nil]
        | cons d inner =>
            rcases List.cons.inj hrest with ⟨rfl, hright⟩
            have hsingle := halone.1 (by rw [hwrite]; simp)
            rw [hsingle] at hwrite
            cases left with
            | nil =>
                rcases List.cons.inj hwrite with ⟨_, rfl⟩
                exact ⟨[], s, rest, rfl, hsingle, rfl, hright.symm⟩
            | cons e left =>
                have hlength := congrArg List.length hwrite
                simp at hlength

/-! ## Symbols of one kind -/

/-- A replacement in symbols of one kind is one in what these symbols stand for. -/
theorem ReplacesWhole.of_map {g : γ → β} {mask v : List γ}
    (h : ReplacesWhole write free word (mask.map g) (v.map g) out) :
    ∃ v', out = v'.map g ∧ ReplacesWhole (write ∘ g) (free ∘ g) word mask v v' := by
  generalize htext : v.map g = text at h
  induction h generalizing v with
  | nil =>
      rw [List.map_eq_nil_iff.mp htext]
      exact ⟨[], rfl, .nil⟩
  | hit piece rest out hpiece hfree h ih =>
      rcases List.map_eq_append_iff.mp htext with ⟨piece', rest', rfl, rfl, hrest⟩
      rcases ih hrest with ⟨v', rfl, hv'⟩
      rw [List.flatMap_map] at hpiece
      refine ⟨mask ++ v', by rw [List.map_append], .hit piece' rest' v' hpiece ?_ hv'⟩
      exact fun s hs => hfree (g s) (List.mem_map_of_mem hs)
  | keep s rest out hmiss h ih =>
      rcases List.map_eq_cons_iff.mp htext with ⟨s', rest', rfl, rfl, hrest⟩
      rcases ih hrest with ⟨v', rfl, hv'⟩
      refine ⟨s' :: v', rfl, .keep s' rest' v' (fun n hn => ?_) hv'⟩
      have hhere := hmiss n hn
      rw [← hrest, ← List.map_cons, List.flatMap_map] at hhere
      exact hhere

/-- The same for one word after the other. -/
theorem ReplacesWholeAll.of_map {g : γ → β} {mask v : List γ}
    (h : ReplacesWholeAll write free (mask.map g) words (v.map g) out) :
    ∃ v', out = v'.map g ∧ ReplacesWholeAll (write ∘ g) (free ∘ g) mask words v v' := by
  generalize htext : v.map g = text at h
  induction h generalizing v with
  | nil text => exact ⟨v, htext.symm, .nil v⟩
  | cons word words text between out hfirst _ ih =>
      rw [← htext] at hfirst
      rcases hfirst.of_map with ⟨v₁, rfl, hv₁⟩
      rcases ih rfl with ⟨v', rfl, hv'⟩
      exact ⟨v', rfl, .cons _ _ _ _ _ hv₁ hv'⟩

/-! ## Texts in which only whole symbols are replaced -/

/-- A text without the word stays as it is. -/
theorem replacesWhole_self (habsent : ¬ word <:+: text.flatMap write) :
    ReplacesWhole write free word mask text text := by
  induction text with
  | nil => exact .nil
  | cons s rest ih =>
      refine .keep s rest rest (fun n _ hstart => habsent ?_) (ih fun hlater => habsent ?_)
      · exact hstart.isInfix.trans (List.drop_suffix n _).isInfix
      · rw [List.flatMap_cons]
        exact hlater.trans (List.suffix_append _ _).isInfix

theorem replacesWholeAll_self (habsent : ∀ word ∈ words, ¬ word <:+: text.flatMap write) :
    ReplacesWholeAll write free mask words text text := by
  induction words with
  | nil => exact .nil text
  | cons word words ih =>
      rw [List.forall_mem_cons] at habsent
      exact .cons word words text text text (replacesWhole_self habsent.1) (ih habsent.2)

/-- The sides of a symbol that is in no word are replaced on their own. -/
theorem ReplacesWhole.append_symbol {s : β} {c : α} {left left' right right' : List β}
    (hleft : ReplacesWhole write free word mask left left')
    (hright : ReplacesWhole write free word mask right right') (hs : write s = [c])
    (hword : word ≠ [] ∧ c ∉ word) :
    ReplacesWhole write free word mask (left ++ s :: right) (left' ++ s :: right') := by
  have hsymbol : ∀ text : List β, (text ++ s :: right).flatMap write =
      text.flatMap write ++ c :: right.flatMap write := by
    intro text
    rw [List.flatMap_append, List.flatMap_cons, hs, List.singleton_append]
  induction hleft with
  | nil =>
      refine .keep s right right' (fun n hn hstart => hword.1 ?_) hright
      rw [hs, List.length_singleton, Nat.lt_one_iff] at hn
      rw [hn, List.drop_zero, ← List.nil_append (s :: right), hsymbol] at hstart
      exact List.prefix_nil.mp (prefix_of_append_symbol [] hword.2 hstart)
  | hit piece rest out hpiece hfree _ ih =>
      rw [List.append_assoc, List.append_assoc]
      exact .hit piece _ _ hpiece hfree ih
  | keep t rest out hmiss _ ih =>
      refine .keep t _ _ (fun n hn hstart => hmiss n hn ?_) ih
      have hle : n ≤ ((t :: rest).flatMap write).length := by
        rw [List.flatMap_cons, List.length_append]
        omega
      change word <+: ((t :: rest ++ s :: right).flatMap write).drop n at hstart
      rw [hsymbol, List.drop_append_of_le_length hle] at hstart
      exact prefix_of_append_symbol _ hword.2 hstart

/-- The same for one word after the other. -/
theorem ReplacesWholeAll.append_symbol {s : β} {c : α} {left left' right right' : List β}
    (hleft : ReplacesWholeAll write free mask words left left')
    (hright : ReplacesWholeAll write free mask words right right') (hs : write s = [c])
    (hwords : ∀ word ∈ words, word ≠ [] ∧ c ∉ word) :
    ReplacesWholeAll write free mask words (left ++ s :: right) (left' ++ s :: right') := by
  induction hleft generalizing right with
  | nil left =>
      cases hright
      exact .nil _
  | cons word words left between left' hfirst _ ih =>
      rw [List.forall_mem_cons] at hwords
      cases hright with
      | cons _ _ _ between' _ hfirst' hrest' =>
          exact .cons _ _ _ _ _ (hfirst.append_symbol hfirst' hs hwords.1) (ih hrest' hwords.2)

/-- The symbol writes one character and may be replaced. -/
def IsSingle (write : β → List α) (free : β → Prop) (s : β) : Prop :=
  (∃ c, write s = [c]) ∧ free s

/-- A text of such symbols is divided as what is written is divided. -/
theorem exists_append_of_single {front rest : List α} (htext : ∀ s ∈ text, IsSingle write free s)
    (h : text.flatMap write = front ++ rest) :
    ∃ left right, text = left ++ right ∧ left.flatMap write = front ∧
      right.flatMap write = rest := by
  induction front generalizing text with
  | nil => exact ⟨[], text, rfl, rfl, h⟩
  | cons c front ih =>
      cases text with
      | nil => cases h
      | cons s text =>
          rw [List.forall_mem_cons] at htext
          rcases htext.1.1 with ⟨d, hd⟩
          rw [List.flatMap_cons, hd] at h
          rcases List.cons.inj h with ⟨rfl, hlater⟩
          rcases ih htext.2 hlater with ⟨left, right, rfl, hleft, hright⟩
          exact ⟨s :: left, right, rfl, by rw [List.flatMap_cons, hd, hleft]; rfl, hright⟩

/-- In a text of such symbols every occurrence is one of whole symbols. -/
theorem exists_replacesWhole (hword : word ≠ []) (hmask : ∀ s ∈ mask, IsSingle write free s)
    (htext : ∀ s ∈ text, IsSingle write free s) :
    ∃ out, ReplacesWhole write free word mask text out ∧ ∀ s ∈ out, IsSingle write free s := by
  classical
  induction hlength : text.length using Nat.strong_induction_on generalizing text with
  | _ length ih =>
      by_cases hstart : word <+: text.flatMap write
      · rcases hstart with ⟨later, hlater⟩
        rcases exists_append_of_single htext hlater.symm with ⟨piece, rest, rfl, hpiece, _⟩
        rw [List.forall_mem_append] at htext
        have hpos : 0 < piece.length := by
          refine List.length_pos_of_ne_nil ?_
          rintro rfl
          exact hword hpiece.symm
        rw [List.length_append] at hlength
        rcases ih rest.length (by omega) htext.2 rfl with ⟨out, hout, hsingle⟩
        exact ⟨mask ++ out, .hit piece rest out hpiece (fun s hs => (htext.1 s hs).2) hout,
          List.forall_mem_append.mpr ⟨hmask, hsingle⟩⟩
      · cases text with
        | nil => exact ⟨[], .nil, List.forall_mem_nil _⟩
        | cons s rest =>
            rw [List.forall_mem_cons] at htext
            rw [List.length_cons] at hlength
            rcases ih rest.length (by omega) htext.2 rfl with ⟨out, hout, hsingle⟩
            refine ⟨s :: out, .keep s rest out (fun n hn => ?_) hout,
              List.forall_mem_cons.mpr ⟨htext.1, hsingle⟩⟩
            rcases htext.1.1 with ⟨c, hc⟩
            rw [hc, List.length_singleton, Nat.lt_one_iff] at hn
            rwa [hn, List.drop_zero]

/-- The same for one word after the other. -/
theorem exists_replacesWholeAll (hwords : ∀ word ∈ words, word ≠ [])
    (hmask : ∀ s ∈ mask, IsSingle write free s) (htext : ∀ s ∈ text, IsSingle write free s) :
    ∃ out, ReplacesWholeAll write free mask words text out := by
  induction words generalizing text with
  | nil => exact ⟨text, .nil text⟩
  | cons word words ih =>
      rw [List.forall_mem_cons] at hwords
      rcases exists_replacesWhole hwords.1 hmask htext with ⟨between, hfirst, hsingle⟩
      rcases ih hwords.2 hsingle with ⟨out, hrest⟩
      exact ⟨out, .cons word words text between out hfirst hrest⟩

/-! ## Masks that complete a word -/

/-- Masks in place of pieces of a text, one after the other.  The symbols of the masks are
marked. -/
inductive Masks (isPiece : List β → Prop) (mask : List β) :
    List (β × Bool) → List (β × Bool) → Prop where
  | refl (text : List (β × Bool)) : Masks isPiece mask text text
  | step (left piece right out : List (β × Bool)) (hpiece : isPiece (piece.map Prod.fst))
      (h : Masks isPiece mask (left ++ (mask.map (·, true) ++ right)) out) :
      Masks isPiece mask (left ++ (piece ++ right)) out

/-- The symbols of a text, none of them marked. -/
def unmarked (text : List β) : List (β × Bool) :=
  text.map (·, false)

/-- With masks in place of pieces, the word stands in the text, in part made of a mask. -/
def Completes (isPiece : List β → Prop) (mask w text : List β) : Prop :=
  ∃ marked part, Masks isPiece mask (unmarked text) marked ∧ part <:+: marked ∧
    part.map Prod.fst = w ∧ ∃ s ∈ part, s.2 = true

variable {isPiece : List β → Prop} {marked marked' : List (β × Bool)} {w : List β}

theorem Masks.trans {marked'' : List (β × Bool)} (h : Masks isPiece mask marked marked')
    (h' : Masks isPiece mask marked' marked'') : Masks isPiece mask marked marked'' := by
  induction h with
  | refl text => exact h'
  | step left piece right out hpiece _ ih => exact .step left piece right _ hpiece (ih h')

theorem Masks.append_left (front : List (β × Bool)) (h : Masks isPiece mask marked marked') :
    Masks isPiece mask (front ++ marked) (front ++ marked') := by
  induction h with
  | refl text => exact .refl _
  | step left piece right out hpiece _ ih =>
      rw [← List.append_assoc] at ih ⊢
      exact .step _ piece right _ hpiece ih

/-- The marked symbols are symbols of the mask. -/
theorem Masks.mem_mask (h : Masks isPiece mask marked marked')
    (hmarked : ∀ s ∈ marked, s.2 = true → s.1 ∈ mask) :
    ∀ s ∈ marked', s.2 = true → s.1 ∈ mask := by
  induction h with
  | refl text => exact hmarked
  | step left piece right out _ _ ih =>
      refine ih fun s hs hmark => ?_
      rcases List.mem_append.mp hs with hleft | hs
      · exact hmarked s (List.mem_append_left _ hleft) hmark
      · rcases List.mem_append.mp hs with hmask | hright
        · rcases List.mem_map.mp hmask with ⟨m, hm, rfl⟩
          exact hm
        · exact hmarked s (by simp [hright]) hmark

/-- A word apart from the mask is never completed. -/
theorem not_completes_of_disjoint (hapart : w.Disjoint mask) (text : List β) :
    ¬ Completes isPiece mask w text := by
  rintro ⟨marked, part, hmasks, hpart, rfl, s, hs, hmark⟩
  have hmask : s.1 ∈ mask := by
    refine hmasks.mem_mask (fun t ht htrue => ?_) s (hpart.subset hs) hmark
    rcases List.mem_map.mp ht with ⟨u, _, rfl⟩
    cases htrue
  exact hapart (List.mem_map_of_mem hs) hmask

private theorem map_fst_mark (text : List β) (mark : Bool) :
    (text.map (·, mark)).map Prod.fst = text := by
  rw [List.map_map]
  exact List.map_id text

private theorem map_fst_unmarked (text : List β) : (unmarked text).map Prod.fst = text :=
  map_fst_mark text false

/-- Without a piece in the text there are no masks. -/
theorem not_completes_of_absent (habsent : ∀ piece, isPiece piece → ¬ piece <:+: text) :
    ¬ Completes isPiece mask w text := by
  rintro ⟨marked, part, hmasks, hpart, rfl, s, hs, hmark⟩
  generalize htext : unmarked text = start at hmasks
  cases hmasks with
  | refl =>
      have hmem := hpart.subset hs
      rw [← htext] at hmem
      rcases List.mem_map.mp hmem with ⟨u, _, rfl⟩
      cases hmark
  | step left piece right out hpiece _ =>
      refine habsent _ hpiece ⟨left.map Prod.fst, right.map Prod.fst, ?_⟩
      rw [← map_fst_unmarked text, htext, List.map_append, List.map_append, List.append_assoc]

/-- No unmarked symbols stand in a mask. -/
theorem unmarked_disjoint (w mask : List β) : (unmarked w).Disjoint (mask.map (·, true)) := by
  intro s hw hmask
  rcases List.mem_map.mp hw with ⟨t, _, rfl⟩
  rcases List.mem_map.mp hmask with ⟨m, _, hm⟩
  cases hm

/-- What a replacement does to the marks. -/
structure LeavesMarks (write : β → List α) (word : List α) (marked marked' : List (β × Bool)) :
    Prop where
  starts : ∀ w, unmarked w <+: marked' → unmarked w <+: marked
  occurs : ∀ w, unmarked w <:+: marked' → unmarked w <:+: marked
  removed : ∀ w : List β, w.flatMap write = word → ¬ unmarked w <:+: marked'

/-- A replacement of whole symbols puts marked masks in place of pieces. -/
theorem ReplacesWhole.masks (h : ReplacesWhole write free word mask text out)
    (hwrite : ∀ s, write s ≠ []) (hword : word ≠ []) (hmask : mask ≠ [])
    (hpieces : ∀ piece : List β, piece.flatMap write = word → isPiece piece) :
    ∀ marked : List (β × Bool), marked.map Prod.fst = text →
      ∃ marked', Masks isPiece mask marked marked' ∧ marked'.map Prod.fst = out ∧
        LeavesMarks write word marked marked' := by
  have hnonempty : ∀ w : List β, w.flatMap write = word → w ≠ [] := by
    rintro w hw rfl
    exact hword hw.symm
  induction h with
  | nil =>
      intro marked htext
      rw [List.map_eq_nil_iff.mp htext]
      refine ⟨[], .refl [], rfl, fun w hw => hw, fun w hw => hw, fun w hw hinside => ?_⟩
      exact hnonempty w hw (List.map_eq_nil_iff.mp (List.infix_nil.mp hinside))
  | hit piece rest out hpiece hfree h ih =>
      intro marked htext
      rcases List.map_eq_append_iff.mp htext with ⟨piece', rest', rfl, rfl, hrest⟩
      rcases ih rest' hrest with ⟨later, hmasks, rfl, hleaves⟩
      have hfirst : ∀ w, unmarked w <+: mask.map (·, true) ++ later → w = [] := by
        intro w hw
        cases w with
        | nil => rfl
        | cons s w =>
            cases mask with
            | nil => exact absurd rfl hmask
            | cons m mask => cases (List.cons_prefix_cons.mp hw).1
      have hlater : ∀ w, w ≠ [] → unmarked w <:+: mask.map (·, true) ++ later →
          unmarked w <:+: later := fun w hw =>
        infix_of_infix_mask_append (fun hnil => hw (List.map_eq_nil_iff.mp hnil))
          (unmarked_disjoint w mask)
      refine ⟨mask.map (·, true) ++ later, ?_, by rw [List.map_append, map_fst_mark],
        fun w hw => ?_, fun w hw => ?_, fun w hw hinside => ?_⟩
      · exact .step [] piece' rest' _ (hpieces _ hpiece) (hmasks.append_left _)
      · rw [hfirst w hw]
        exact List.nil_prefix
      · by_cases hnil : w = []
        · rw [hnil]
          exact List.nil_infix
        · exact (hleaves.occurs w (hlater w hnil hw)).trans (List.suffix_append _ _).isInfix
      · exact hleaves.removed w hw (hlater w (hnonempty w hw) hinside)
  | keep s rest out hmiss h ih =>
      intro marked htext
      rcases List.map_eq_cons_iff.mp htext with ⟨s', rest', rfl, rfl, hrest⟩
      rcases ih rest' hrest with ⟨later, hmasks, rfl, hleaves⟩
      have hstarts : ∀ w, unmarked w <+: s' :: later → unmarked w <+: s' :: rest' := by
        intro w hw
        cases w with
        | nil => exact List.nil_prefix
        | cons t w =>
            rcases List.cons_prefix_cons.mp hw with ⟨hsame, hmore⟩
            exact List.cons_prefix_cons.mpr ⟨hsame, hleaves.starts w hmore⟩
      refine ⟨s' :: later, hmasks.append_left [s'], rfl, hstarts, fun w hw => ?_,
        fun w hw hinside => ?_⟩
      · rcases List.infix_cons_iff.mp hw with hstart | hmore
        · exact (hstarts w hstart).isInfix
        · exact (hleaves.occurs w hmore).trans (List.suffix_cons _ _).isInfix
      · rcases List.infix_cons_iff.mp hinside with hstart | hmore
        · have hhere := (hstarts w hstart).map Prod.fst
          rw [map_fst_unmarked, List.map_cons, hrest] at hhere
          rcases hhere with ⟨more, hmore⟩
          refine hmiss 0 (List.length_pos_of_ne_nil (hwrite _)) ?_
          rw [List.drop_zero, ← hmore, List.flatMap_append, hw]
          exact List.prefix_append _ _
        · exact hleaves.removed w hw hmore

/-- The same for one word after the other. -/
theorem ReplacesWholeAll.masks (h : ReplacesWholeAll write free mask words text out)
    (hwrite : ∀ s, write s ≠ []) (hwords : ∀ word ∈ words, word ≠ []) (hmask : mask ≠ [])
    (hpieces : ∀ piece : List β, piece.flatMap write ∈ words → isPiece piece) :
    ∀ marked : List (β × Bool), marked.map Prod.fst = text →
      ∃ marked', Masks isPiece mask marked marked' ∧ marked'.map Prod.fst = out ∧
        ∀ w : List β, unmarked w <:+: marked' →
          unmarked w <:+: marked ∧ w.flatMap write ∉ words := by
  induction h with
  | nil text =>
      intro marked htext
      exact ⟨marked, .refl marked, htext, fun w hw => ⟨hw, List.not_mem_nil⟩⟩
  | cons word words text between out hfirst _ ih =>
      intro marked htext
      rw [List.forall_mem_cons] at hwords
      have hfirstPieces : ∀ piece : List β, piece.flatMap write = word → isPiece piece :=
        fun piece hpiece => hpieces piece (hpiece ▸ List.mem_cons_self)
      have hlaterPieces : ∀ piece : List β, piece.flatMap write ∈ words → isPiece piece :=
        fun piece hpiece => hpieces piece (List.mem_cons_of_mem _ hpiece)
      rcases hfirst.masks hwrite hwords.1 hmask hfirstPieces marked htext with
        ⟨middle, hmasks, hmiddle, hleaves⟩
      rcases ih hwords.2 hlaterPieces middle hmiddle with ⟨marked', hmasks', hout, hlater⟩
      refine ⟨marked', hmasks.trans hmasks', hout, fun w hw => ?_⟩
      rcases hlater w hw with ⟨hoccurs, hnot⟩
      refine ⟨hleaves.occurs w hoccurs, fun hmem => ?_⟩
      rcases List.mem_cons.mp hmem with hfirstWord | hlaterWord
      · exact hleaves.removed w hfirstWord hoccurs
      · exact hnot hlaterWord

/-- A word in the result is completed by a mask, or it occurs in the text and its writing is
none of the replaced words. -/
theorem ReplacesWholeAll.occurs_cases (h : ReplacesWholeAll write free mask words text out)
    (hwrite : ∀ s, write s ≠ []) (hwords : ∀ word ∈ words, word ≠ []) (hmask : mask ≠ [])
    (hoccurs : w <:+: out) :
    Completes (·.flatMap write ∈ words) mask w text ∨
      w <:+: text ∧ w.flatMap write ∉ words := by
  rcases h.masks hwrite hwords hmask (fun piece hpiece => hpiece) (unmarked text)
    (map_fst_unmarked text) with ⟨marked, hmasks, rfl, hleaves⟩
  rcases hoccurs with ⟨left, right, hsplit⟩
  rcases List.map_eq_append_iff.mp hsplit.symm with ⟨front, right', rfl, hfront, _⟩
  rcases List.map_eq_append_iff.mp hfront with ⟨left', part, rfl, _, hpart⟩
  by_cases hmarked : ∃ s ∈ part, s.2 = true
  · exact Or.inl ⟨_, part, hmasks, ⟨left', right', rfl⟩, hpart, hmarked⟩
  · have hunmarked : unmarked w = part := by
      rw [← hpart, unmarked, List.map_map]
      refine (List.map_congr_left fun s hs => ?_).trans (List.map_id part)
      have hfalse : s.2 = false := Bool.eq_false_iff.mpr fun htrue => hmarked ⟨s, hs, htrue⟩
      exact Prod.ext rfl hfalse.symm
    rcases hleaves w (hunmarked ▸ ⟨left', right', rfl⟩) with ⟨hinside, hnot⟩
    refine Or.inr ⟨?_, hnot⟩
    have hplain := hinside.map Prod.fst
    rwa [map_fst_unmarked, map_fst_unmarked] at hplain

end TextReplacement
