import Mathlib.Data.List.Basic
import Mathlib.Data.List.Induction

/-!
# First occurrences

Keeping the first item of each class of a list.  What remains is told by positions: an
item stays if no item before it is the same.  A single pass with a set of seen markers
computes it, for items that are the same when their markers are equal.

Main results:

- Theorem {lit}`firsts_append_singleton`: one more item stays unless it has been there.
- Theorem {lit}`keepNew_eq_firsts`: the pass with markers keeps the first occurrences.
- Theorem {lit}`firsts_firsts`: keeping first occurrences twice changes nothing.
- Theorems {lit}`nodup_eraseDups` and {lit}`eraseDups_of_nodup`: the first occurrences of
  equal items.
-/

namespace FirstOccurrences

variable {α κ : Type*}

/-- The items that no earlier item is the same as, in their order. -/
def firsts (same : α → α → Bool) (items : List α) : List α :=
  (items.zipIdx.filter fun entry =>
    !(items.take entry.2).any fun earlier => same earlier entry.1).map Prod.fst

/-- One pass with the markers that have been seen. -/
def keepNew [DecidableEq κ] (marker : α → κ) (seen : List κ) : List α → List α
  | [] => []
  | item :: rest =>
      if marker item ∈ seen then keepNew marker seen rest
      else item :: keepNew marker (marker item :: seen) rest

private theorem firsts_nil (same : α → α → Bool) : firsts same [] = [] :=
  rfl

/-- One more item stays unless an item before it is the same. -/
theorem firsts_append_singleton (same : α → α → Bool) (items : List α) (item : α) :
    firsts same (items ++ [item]) =
      firsts same items ++ if items.any fun earlier => same earlier item then [] else [item] := by
  have hearlier : (items.zipIdx.filter fun entry =>
        !((items ++ [item]).take entry.2).any fun earlier => same earlier entry.1) =
      items.zipIdx.filter fun entry =>
        !(items.take entry.2).any fun earlier => same earlier entry.1 := by
    refine List.filter_congr fun entry hentry => ?_
    have hlt : entry.2 < items.length := List.snd_lt_of_mem_zipIdx hentry
    rw [List.take_append_of_le_length (Nat.le_of_lt hlt)]
  unfold firsts
  rw [List.zipIdx_append, List.filter_append, hearlier, List.map_append]
  congr 1
  cases hany : items.any fun earlier => same earlier item <;> simp [hany]

/-- Items that are the same on a list need not be so elsewhere. -/
theorem firsts_congr {same same' : α → α → Bool} {items : List α}
    (h : ∀ a ∈ items, ∀ b ∈ items, same a b = same' a b) :
    firsts same items = firsts same' items := by
  unfold firsts
  congr 1
  refine List.filter_congr fun entry hentry => ?_
  have hitem : entry.1 ∈ items := List.fst_mem_of_mem_zipIdx hentry
  have hsame : ∀ earlier ∈ items.take entry.2, same earlier entry.1 = same' earlier entry.1 :=
    fun earlier hearlier => h earlier (List.mem_of_mem_take hearlier) _ hitem
  rw [Bool.eq_iff_iff, Bool.not_eq_true', Bool.not_eq_true', List.any_eq_false, List.any_eq_false]
  exact forall₂_congr fun earlier hearlier => by rw [hsame earlier hearlier]

theorem firsts_sublist (same : α → α → Bool) (items : List α) :
    (firsts same items).Sublist items := by
  induction items using List.reverseRecOn with
  | nil => exact List.Sublist.refl _
  | append_singleton items item ih =>
      rw [firsts_append_singleton]
      refine ih.append ?_
      split
      · exact List.nil_sublist _
      · exact List.Sublist.refl _

/-- No two of the items that stay are the same. -/
theorem pairwise_firsts (same : α → α → Bool) (items : List α) :
    (firsts same items).Pairwise fun a b => same a b = false := by
  induction items using List.reverseRecOn with
  | nil => exact List.Pairwise.nil
  | append_singleton items item ih =>
      rw [firsts_append_singleton, List.pairwise_append]
      refine ⟨ih, ?_, fun a ha b hb => ?_⟩
      · split
        · exact List.Pairwise.nil
        · exact List.pairwise_singleton _ _
      · split at hb
        · cases hb
        · rename_i hnew
          rw [List.mem_singleton.mp hb]
          rw [Bool.not_eq_true, List.any_eq_false] at hnew
          exact Bool.not_eq_true _ ▸ hnew a ((firsts_sublist same items).subset ha)

/-- A list without two items that are the same stays as it is. -/
theorem firsts_of_pairwise {same : α → α → Bool} {items : List α}
    (h : items.Pairwise fun a b => same a b = false) : firsts same items = items := by
  induction items using List.reverseRecOn with
  | nil => rfl
  | append_singleton items item ih =>
      rw [List.pairwise_append] at h
      have hnew : items.any (fun earlier => same earlier item) = false := by
        rw [List.any_eq_false]
        intro earlier hearlier
        rw [h.2.2 earlier hearlier item (List.mem_singleton_self item)]
        exact Bool.false_ne_true
      rw [firsts_append_singleton, ih h.1, hnew]
      rfl

/-- Keeping first occurrences twice changes nothing. -/
theorem firsts_firsts (same : α → α → Bool) (items : List α) :
    firsts same (firsts same items) = firsts same items :=
  firsts_of_pairwise (pairwise_firsts same items)

/-! ## The pass with markers -/

section

variable [DecidableEq κ] (marker : α → κ)

/-- After some items, whose markers have been seen, the pass keeps what is new. -/
theorem firsts_append_eq_keepNew (items : List α) : ∀ (before : List α) (seen : List κ),
    (∀ m, m ∈ seen ↔ ∃ earlier ∈ before, marker earlier = m) →
      firsts (fun a b => decide (marker a = marker b)) (before ++ items) =
        firsts (fun a b => decide (marker a = marker b)) before ++ keepNew marker seen items := by
  induction items with
  | nil =>
      intro before seen _
      rw [List.append_nil, keepNew, List.append_nil]
  | cons item rest ih =>
      intro before seen hseen
      have hany : (before.any fun earlier => decide (marker earlier = marker item)) = true ↔
          marker item ∈ seen := by
        rw [hseen, List.any_eq_true]
        simp
      rw [List.append_cons]
      by_cases hmem : marker item ∈ seen
      · rw [keepNew, if_pos hmem, ih (before ++ [item]) seen, firsts_append_singleton,
          if_pos (hany.mpr hmem), List.append_nil]
        intro m
        rw [hseen]
        constructor
        · rintro ⟨earlier, hearlier, rfl⟩
          exact ⟨earlier, List.mem_append_left _ hearlier, rfl⟩
        · rintro ⟨earlier, hearlier, rfl⟩
          rcases List.mem_append.mp hearlier with hearlier | hearlier
          · exact ⟨earlier, hearlier, rfl⟩
          · rw [List.mem_singleton.mp hearlier]
            exact (hseen _).mp hmem
      · rw [keepNew, if_neg hmem, ih (before ++ [item]) (marker item :: seen),
          firsts_append_singleton, if_neg (fun h => hmem (hany.mp h)), List.append_assoc]
        · rfl
        · intro m
          rw [List.mem_cons, hseen]
          simp only [List.mem_append, List.mem_singleton, or_and_right, exists_or, exists_eq_left]
          rw [or_comm, eq_comm]

/-- The pass with markers keeps the first occurrences. -/
theorem keepNew_eq_firsts (items : List α) :
    keepNew marker [] items = firsts (fun a b => decide (marker a = marker b)) items := by
  have hpass := firsts_append_eq_keepNew marker items [] [] (by simp)
  rw [List.nil_append, firsts_nil, List.nil_append] at hpass
  exact hpass.symm

end

/-! ## Erased duplicates -/

theorem nodup_eraseDups [DecidableEq α] (l : List α) : l.eraseDups.Nodup := by
  induction hn : l.length using Nat.strongRecOn generalizing l with
  | ind n ih =>
      cases l with
      | nil => simp
      | cons a rest =>
          rw [List.eraseDups_cons, List.nodup_cons, List.mem_eraseDups]
          refine ⟨by simp, ih _ ?_ _ rfl⟩
          have hle := List.length_filter_le (fun b => !b == a) rest
          rw [List.length_cons] at hn
          omega

theorem eraseDups_of_nodup [DecidableEq α] {l : List α} (h : l.Nodup) :
    l.eraseDups = l := by
  induction l with
  | nil => rfl
  | cons a rest ih =>
      rw [List.nodup_cons] at h
      have hfilter : rest.filter (fun b => !b == a) = rest := by
        rw [List.filter_eq_self]
        intro b hb
        have hne : b ≠ a := by
          rintro rfl
          exact h.1 hb
        simpa using hne
      rw [List.eraseDups_cons, hfilter, ih h.2]

end FirstOccurrences
