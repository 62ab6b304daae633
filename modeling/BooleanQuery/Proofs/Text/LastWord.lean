import Mathlib.Data.List.DropRight
import BooleanQuery.Proofs.Text.Words

/-!
# The last word of a text

A word is a run of characters that are no blanks, whatever they are: an operator with a parenthesis
beside it is another word than the operator. Collapsing keeps the words of a text. So if the
collapsed text ends with a space and a word, then that word is the last one of the text
(`lastWord_of_collapse`).
-/

set_option autoImplicit false

namespace BooleanQuery.Text

/-- The characters after the last blank that another character follows, up to the blanks at the
end. A blank text has the empty word. -/
def lastWord (s : List Char) : List Char := (trimRight s).rtakeWhile fun c => !isBlank c

theorem lastWord_append {b : Char} {w r : List Char} (hb : isBlank b = true) (hne : w ≠ [])
    (hw : ∀ c ∈ w, isBlank c = false) (hr : isBlankText r = true) (s : List Char) :
    lastWord (s ++ b :: w ++ r) = w := by
  have hends : EndsSolid (s ++ b :: w) := by
    simpa using (solid_of_forall hne hw).ends.append (s ++ [b])
  have hword : ∀ c ∈ w.reverse, (!isBlank c) = true := by simpa using hw
  unfold lastWord
  rw [trimRight_append_of_isBlankText hr, trimRight_of_endsSolid hends, List.rtakeWhile,
    List.reverse_append, List.reverse_cons, List.append_assoc,
    List.takeWhile_append_of_pos hword, List.singleton_append,
    List.takeWhile_cons_of_neg (by simp [hb]), List.append_nil, List.reverse_reverse]

/-- A word at the front of a collapsed text stands at the front of the text. -/
theorem exists_of_collapse_eq_word_append {s w v : List Char} (hw : ∀ c ∈ w, isBlank c = false)
    (h : collapse s = w ++ v) : ∃ t, s = w ++ t ∧ collapse t = v := by
  induction w generalizing s with
  | nil => exact ⟨s, rfl, h⟩
  | cons c w ih =>
    obtain ⟨u, s', rfl, hu, hs'⟩ := exists_of_collapse_eq_append (u := []) (hw c (by simp)) h
    obtain rfl := collapse_eq_nil_iff.1 hu
    obtain ⟨t, rfl, ht⟩ := ih (fun d hd => hw d (by simp [hd])) hs'
    exact ⟨t, rfl, ht⟩

theorem lastWord_of_collapse {s u w r : List Char} (hne : w ≠ [])
    (hw : ∀ c ∈ w, isBlank c = false) (hr : isBlankText r = true)
    (h : collapse s = u ++ ' ' :: w ++ r) : lastWord s = w := by
  obtain ⟨c, w, rfl⟩ := List.exists_cons_of_ne_nil hne
  have hfirst : collapse s = (u ++ [' ']) ++ c :: (w ++ r) := by simp [h]
  obtain ⟨x, y, rfl, hx, hy⟩ := exists_of_collapse_eq_append (hw c (by simp)) hfirst
  obtain ⟨t, rfl, rfl⟩ := exists_of_collapse_eq_word_append (fun d hd => hw d (by simp [hd])) hy
  -- what collapses to a text with a space at its end has a blank at its end
  have hends : endsBlank x = true := by
    rw [← endsBlank_collapse, hx, endsBlank_append_singleton, isBlank_space]
  obtain ⟨x, b, rfl⟩ : ∃ x' b, x = x' ++ [b] := by
    refine (List.eq_nil_or_concat' x).resolve_left ?_
    rintro rfl
    exact absurd hx (by simp)
  have hb : isBlank b = true := endsBlank_append_singleton x b ▸ hends
  have hword := lastWord_append hb hne hw (isBlankText_collapse t ▸ hr) x
  simpa using hword

end BooleanQuery.Text
