import Mathlib.Data.List.Destutter
import BooleanQuery.Proofs.Text.Spacing

/-!
# Words and the spacing between them

The words of a text are what stands between its blanks (`words`). Collapsing changes no word and
makes no end blank that was not (`words_collapse`, `startsBlank_collapse`, `endsBlank_collapse`). A
single-spaced text is nothing but its words and its ends: it is made of the words with one space
between each two, and one at an end that is blank (`collapse_eq_intercalate`). So what `collapse`
gives is the only text of its kind (`collapse_canonical`).

`collapse` is a fold from the right. The same text is made by one pass from the left that holds one
character back (`destutter_plain`).
-/

set_option autoImplicit false

namespace BooleanQuery.Text

/-! ## Words -/

/-- The longest runs of characters that are no blanks, from left to right. -/
def words (s : List Char) : List (List Char) := (s.splitOnP isBlank).filter (· ≠ [])

@[simp] theorem words_nil : words [] = [] := by
  simp [words]

theorem words_append_cons {c : Char} (hc : isBlank c = true) (s t : List Char) :
    words (s ++ c :: t) = words s ++ words t := by
  rw [words, List.splitOnP_append_cons s t hc, List.filter_append]
  rfl

theorem words_cons_of_isBlank {c : Char} (hc : isBlank c = true) (s : List Char) :
    words (c :: s) = words s := by
  simpa using words_append_cons hc [] s

theorem words_singleton {c : Char} (hc : isBlank c = false) : words [c] = [[c]] := by
  rw [words, List.splitOnP_eq_singleton (by simpa using hc)]
  simp

/-- In front of a word that begins the text, a character that is no blank makes the word longer. -/
theorem exists_words_cons_cons {c d : Char} (hc : isBlank c = false) (hd : isBlank d = false)
    (s : List Char) :
    ∃ w ws, words (d :: s) = w :: ws ∧ words (c :: d :: s) = (c :: w) :: ws := by
  obtain ⟨p, ps, hps⟩ := List.exists_cons_of_ne_nil (List.splitOnP_ne_nil isBlank s)
  refine ⟨d :: p, ps.filter (· ≠ []), ?_, ?_⟩
  · simp [words, List.splitOnP_cons_eq_if_modifyHead, hd, hps]
  · simp [words, List.splitOnP_cons_eq_if_modifyHead, hc, hd, hps]

/-- Collapsing changes no word, also if the first one has begun in front of what is collapsed. -/
theorem words_append_collapse (w s : List Char) : words (w ++ collapse s) = words (w ++ s) := by
  induction s generalizing w with
  | nil => rfl
  | cons c s ih =>
    rw [collapse_cons]
    cases hc : isBlank c with
    | false =>
      -- the character goes over to what stands in front, which is why that is general here
      rw [consSpaced_of_not_isBlank hc, List.append_cons, List.append_cons w c s]
      exact ih (w ++ [c])
    | true =>
      have hs : words (collapse s) = words s := ih []
      rw [words_append_cons hc, ← hs]
      rcases consSpaced_cases hc (collapse s) with ⟨t, heq, ht⟩ | ⟨-, ht⟩
      · rw [ht, heq, words_append_cons isBlank_space, words_cons_of_isBlank isBlank_space]
      · rw [ht, words_append_cons isBlank_space]

theorem words_collapse (s : List Char) : words (collapse s) = words s :=
  words_append_collapse [] s

/-! ## Ends -/

def startsBlank (s : List Char) : Bool := s.head?.any isBlank

def endsBlank (s : List Char) : Bool := s.getLast?.any isBlank

@[simp] theorem startsBlank_cons (c : Char) (s : List Char) :
    startsBlank (c :: s) = isBlank c := rfl

@[simp] theorem endsBlank_append_singleton (s : List Char) (c : Char) :
    endsBlank (s ++ [c]) = isBlank c := by
  simp [endsBlank]

theorem endsBlank_cons (c : Char) {s : List Char} (hs : s ≠ []) :
    endsBlank (c :: s) = endsBlank s := by
  obtain ⟨d, s, rfl⟩ := List.exists_cons_of_ne_nil hs
  rw [endsBlank, List.getLast?_cons_cons, endsBlank]

theorem SingleSpaced.startsBlank_iff {s : List Char} (h : SingleSpaced s) :
    startsBlank s = true ↔ [' '] <+: s := by
  cases s with
  | nil => simp [startsBlank]
  | cons c s =>
    rw [startsBlank_cons, List.cons_prefix_cons]
    constructor
    · intro hc
      exact ⟨(h.plain c (by simp) hc).symm, List.nil_prefix⟩
    · rintro ⟨rfl, -⟩
      exact isBlank_space

theorem SingleSpaced.endsBlank_iff {s : List Char} (h : SingleSpaced s) :
    endsBlank s = true ↔ [' '] <:+ s := by
  rcases List.eq_nil_or_concat' s with rfl | ⟨s, c, rfl⟩
  · simp [endsBlank]
  · rw [endsBlank_append_singleton]
    constructor
    · intro hc
      exact ⟨s, by rw [h.plain c (by simp) hc]⟩
    · rintro ⟨t, ht⟩
      obtain ⟨-, hc⟩ := List.append_inj' ht rfl
      obtain rfl : ' ' = c := by simpa using hc
      exact isBlank_space

/-- The character, or the plain space in place of a blank. -/
def plain (c : Char) : Char := if isBlank c then ' ' else c

theorem plain_of_isBlank {c : Char} (h : isBlank c = true) : plain c = ' ' := if_pos h

theorem plain_of_not_isBlank {c : Char} (h : isBlank c = false) : plain c = c :=
  if_neg (by simp [h])

theorem isBlank_plain (c : Char) : isBlank (plain c) = isBlank c := by
  cases hc : isBlank c with
  | false => rw [plain_of_not_isBlank hc, hc]
  | true => rw [plain_of_isBlank hc, isBlank_space]

theorem plain_eq_space_iff {c : Char} : plain c = ' ' ↔ isBlank c = true := by
  refine ⟨fun h => ?_, plain_of_isBlank⟩
  rw [← isBlank_plain, h, isBlank_space]

theorem collapse_singleton (c : Char) : collapse [c] = [plain c] := by
  rw [collapse_cons, collapse_nil]
  cases hc : isBlank c with
  | false => rw [consSpaced_of_not_isBlank hc, plain_of_not_isBlank hc]
  | true => rw [consSpaced_of_isBlank hc (by simp), plain_of_isBlank hc]

theorem startsBlank_consSpaced (c : Char) (s : List Char) :
    startsBlank (consSpaced c s) = isBlank c := by
  cases hc : isBlank c with
  | false => rw [consSpaced_of_not_isBlank hc, startsBlank_cons, hc]
  | true =>
    rcases consSpaced_cases hc s with ⟨t, -, ht⟩ | ⟨-, ht⟩
    · rw [ht, startsBlank_cons, isBlank_space]
    · rw [ht, startsBlank_cons, isBlank_space]

theorem endsBlank_consSpaced (c : Char) {s : List Char} (hs : s ≠ []) :
    endsBlank (consSpaced c s) = endsBlank s := by
  cases hc : isBlank c with
  | false => rw [consSpaced_of_not_isBlank hc, endsBlank_cons c hs]
  | true =>
    rcases consSpaced_cases hc s with ⟨t, heq, ht⟩ | ⟨-, ht⟩
    · rw [ht, ← heq]
    · rw [ht, endsBlank_cons ' ' hs]

theorem startsBlank_collapse (s : List Char) : startsBlank (collapse s) = startsBlank s := by
  cases s with
  | nil => rfl
  | cons c s => exact startsBlank_consSpaced c (collapse s)

theorem endsBlank_collapse (s : List Char) : endsBlank (collapse s) = endsBlank s := by
  induction s with
  | nil => rfl
  | cons c s ih =>
    by_cases hs : s = []
    · subst hs
      rw [collapse_singleton]
      exact isBlank_plain c
    · rw [collapse_cons, endsBlank_consSpaced c (mt collapse_eq_nil_iff.1 hs), ih,
        endsBlank_cons c hs]

/-- A blank at the front is not needed where another one follows. -/
theorem collapse_cons_of_isBlank {c : Char} (hc : isBlank c = true) (s : List Char) :
    collapse (c :: s) = if startsBlank s then collapse s else ' ' :: collapse s := by
  rw [collapse_cons, ← startsBlank_collapse]
  rcases consSpaced_cases hc (collapse s) with ⟨t, hs, ht⟩ | ⟨hns, ht⟩
  · rw [ht, hs, startsBlank_cons, isBlank_space, if_pos rfl]
  · rw [ht, if_neg]
    rw [(singleSpaced_collapse s).startsBlank_iff]
    rintro ⟨t, hs⟩
    exact hns t hs.symm

/-! ## A text made of its words and its ends -/

/-- An empty word if there is a blank. -/
def edge (blank : Bool) : List (List Char) := if blank then [[]] else []

/-- The words of a text, and an empty one at an end that is blank. -/
def fields (s : List Char) : List (List Char) :=
  edge (startsBlank s) ++ words s ++ edge (endsBlank s)

theorem fields_singleton (c : Char) : fields [c] = if isBlank c then [[], []] else [[c]] := by
  cases hc : isBlank c with
  | false => simp [fields, edge, endsBlank, hc, words_singleton hc]
  | true => simp [fields, edge, endsBlank, hc, words_cons_of_isBlank hc]

theorem fields_cons_of_isBlank {c : Char} (hc : isBlank c = true) {s : List Char} (hs : s ≠ []) :
    fields (c :: s) = if startsBlank s then fields s else [] :: fields s := by
  rw [fields, startsBlank_cons, hc, words_cons_of_isBlank hc, endsBlank_cons c hs, fields]
  cases startsBlank s with
  | false => rfl
  | true => rfl

/-- A character that is no blank belongs to the first field. -/
theorem exists_fields_cons {c : Char} (hc : isBlank c = false) {s : List Char} (hs : s ≠ []) :
    ∃ w ws, fields s = w :: ws ∧ fields (c :: s) = (c :: w) :: ws := by
  have hfields : fields (c :: s) = words (c :: s) ++ edge (endsBlank s) := by
    rw [fields, endsBlank_cons c hs, startsBlank_cons, hc]
    rfl
  obtain ⟨d, s, rfl⟩ := List.exists_cons_of_ne_nil hs
  -- the first field is a word that goes on, or the empty one in front of a blank
  cases hd : isBlank d with
  | false =>
    obtain ⟨w, ws, hws, hcws⟩ := exists_words_cons_cons hc hd s
    refine ⟨w, ws ++ edge (endsBlank (d :: s)), ?_, by rw [hfields, hcws]; rfl⟩
    rw [fields, hws, startsBlank_cons, hd]
    rfl
  | true =>
    refine ⟨[], words s ++ edge (endsBlank (d :: s)), ?_, ?_⟩
    · rw [fields, startsBlank_cons, hd, words_cons_of_isBlank hd]
      rfl
    · rw [hfields, ← List.singleton_append, words_append_cons hd, words_singleton hc]
      rfl

theorem intercalate_cons_cons (c : Char) (w : List Char) (ws : List (List Char)) :
    [' '].intercalate ((c :: w) :: ws) = c :: [' '].intercalate (w :: ws) := by
  cases ws with
  | nil => simp
  | cons v ws => simp [List.intercalate_cons_cons]

theorem collapse_eq_intercalate (s : List Char) : collapse s = [' '].intercalate (fields s) := by
  induction s with
  | nil => rfl
  | cons c s ih =>
    by_cases hs : s = []
    · -- a blank by itself is both ends of the text, and so the only one that makes two fields
      subst hs
      rw [collapse_singleton, fields_singleton]
      cases hc : isBlank c with
      | false => simp [plain_of_not_isBlank hc]
      | true => simp [plain_of_isBlank hc, List.intercalate_cons_cons]
    · cases hc : isBlank c with
      | false =>
        obtain ⟨w, ws, hws, hcws⟩ := exists_fields_cons hc hs
        rw [collapse_cons, consSpaced_of_not_isBlank hc, ih, hws, hcws, intercalate_cons_cons]
      | true =>
        rw [collapse_cons_of_isBlank hc, fields_cons_of_isBlank hc hs]
        cases startsBlank s with
        | false =>
          have hne : fields s ≠ [] := by
            intro hnil
            rw [hnil] at ih
            exact hs (collapse_eq_nil_iff.1 ih)
          rw [if_neg (by simp), if_neg (by simp), ih, List.intercalate_cons_of_ne_nil hne]
          rfl
        | true => exact ih

/-- The first text is single-spaced and has the words of the second, and a space at an end where
the second has a blank. -/
structure IsSpacingOf (t s : List Char) : Prop where
  singleSpaced : SingleSpaced t
  words_eq : words t = words s
  front : [' '] <+: t ↔ startsBlank s = true
  back : [' '] <:+ t ↔ endsBlank s = true

theorem isSpacingOf_collapse (s : List Char) : IsSpacingOf (collapse s) s := by
  have h := singleSpaced_collapse s
  refine ⟨h, words_collapse s, ?_, ?_⟩
  · rw [← h.startsBlank_iff, startsBlank_collapse]
  · rw [← h.endsBlank_iff, endsBlank_collapse]

namespace IsSpacingOf

variable {t s : List Char}

theorem fields_eq (h : IsSpacingOf t s) : fields t = fields s := by
  have hfront : startsBlank t = startsBlank s :=
    Bool.eq_iff_iff.2 (h.singleSpaced.startsBlank_iff.trans h.front)
  have hback : endsBlank t = endsBlank s :=
    Bool.eq_iff_iff.2 (h.singleSpaced.endsBlank_iff.trans h.back)
  rw [fields, hfront, hback, h.words_eq, fields]

theorem eq_collapse (h : IsSpacingOf t s) : t = collapse s := by
  calc t = collapse t := h.singleSpaced.collapse_eq.symm
    _ = [' '].intercalate (fields t) := collapse_eq_intercalate t
    _ = [' '].intercalate (fields s) := by rw [h.fields_eq]
    _ = collapse s := (collapse_eq_intercalate s).symm

end IsSpacingOf

/-! ## One pass from the left -/

/-- Not two spaces, of which one is enough. -/
def NotTwoSpaces (c d : Char) : Prop := ¬ (c = ' ' ∧ d = ' ')

instance : DecidableRel NotTwoSpaces := fun c d =>
  inferInstanceAs (Decidable (¬ (c = ' ' ∧ d = ' ')))

theorem notTwoSpaces_plain_iff {c d : Char} :
    NotTwoSpaces (plain c) (plain d) ↔ ¬ (isBlank c = true ∧ isBlank d = true) := by
  rw [NotTwoSpaces, plain_eq_space_iff, plain_eq_space_iff]

/-- The pass, with the character that it holds back in front of what it has still to go through. -/
theorem destutter'_plain (c : Char) (s : List Char) :
    (s.map plain).destutter' NotTwoSpaces (plain c) = collapse (c :: s) := by
  induction s generalizing c with
  | nil => exact (collapse_singleton c).symm
  | cons d s ih =>
    rw [List.map_cons]
    by_cases hcd : isBlank c = true ∧ isBlank d = true
    · obtain ⟨hc, hd⟩ := hcd
      rw [List.destutter'_cons_neg _ (mt notTwoSpaces_plain_iff.1 (not_not_intro ⟨hc, hd⟩)),
        plain_of_isBlank hc, ← plain_of_isBlank hd, ih d, collapse_cons_of_isBlank hc,
        startsBlank_cons, if_pos hd]
    · rw [List.destutter'_cons_pos _ (notTwoSpaces_plain_iff.2 hcd), ih d]
      cases hc : isBlank c with
      | false => rw [plain_of_not_isBlank hc, collapse_cons c, consSpaced_of_not_isBlank hc]
      | true =>
        have hd : ¬ isBlank d = true := fun hd => hcd ⟨hc, hd⟩
        rw [plain_of_isBlank hc, collapse_cons_of_isBlank hc, startsBlank_cons, if_neg hd]

theorem destutter_plain (s : List Char) :
    (s.map plain).destutter NotTwoSpaces = collapse s := by
  cases s with
  | nil => rfl
  | cons c s => exact destutter'_plain c s

/-- The collapsed text is the only single-spaced one that has the words of the text and is blank at
the same ends. One pass over the text makes it, and a second one changes nothing. Two texts may be
collapsed before they are joined, and a text may be trimmed before or after. -/
theorem collapse_canonical (s : List Char) :
    (∀ t, IsSpacingOf t s ↔ t = collapse s) ∧
    (s.map plain).destutter NotTwoSpaces = collapse s ∧
    collapse (collapse s) = collapse s ∧
    (∀ t, collapse (s ++ t) = collapse (collapse s ++ collapse t)) ∧
    collapse (trim s) = trim (collapse s) := by
  refine ⟨fun t => ⟨IsSpacingOf.eq_collapse, ?_⟩, destutter_plain s, collapse_collapse s,
    fun t => (collapse_append_collapse s t).symm, (trim_collapse s).symm⟩
  rintro rfl
  exact isSpacingOf_collapse s

/-- Blanks of all kinds, and characters beside them that are none. -/
example :
    words "\u3000(a\t\u200b\n OR\u00a0)".toList
      = ["(a".toList, "\u200b".toList, "OR".toList, ")".toList] ∧
    collapse "\u3000(a\t\u200b\n OR\u00a0)".toList = " (a \u200b OR )".toList := by
  decide +kernel

end BooleanQuery.Text
