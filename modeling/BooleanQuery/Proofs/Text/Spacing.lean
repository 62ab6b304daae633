import BooleanQuery.Proofs.Text.Trim
import BooleanQuery.Text.Spacing

/-!
# What collapsing does to a text

`collapse` makes a text single-spaced (`singleSpaced_collapse`) and leaves it alone if it is so
already (`collapse_eq_self_iff`). Parts of a single-spaced text are single-spaced, which is why a
text that was collapsed once need not be collapsed again when it is cut.

Collapsing goes through a concatenation wherever there is no blank on one side of the seam
(`collapse_append`), and it goes through trimming (`trim_collapse`). It moves no character that is
no blank, so what stands between two of them in the collapsed text has come from what stands
between them in the text (`exists_of_collapse_eq_append`).
-/

set_option autoImplicit false

namespace BooleanQuery.Text

/-! ## Single-spaced texts -/

/-- The plain space is the only blank, and no two spaces are adjacent. -/
structure SingleSpaced (s : List Char) : Prop where
  plain : ∀ c ∈ s, isBlank c = true → c = ' '
  apart : ¬ [' ', ' '] <:+: s

theorem singleSpaced_nil : SingleSpaced [] :=
  ⟨by simp, fun h => absurd (List.infix_nil.1 h) (by simp)⟩

theorem SingleSpaced.part {s t : List Char} (h : SingleSpaced t) (hs : s <:+: t) :
    SingleSpaced s :=
  ⟨fun c hc => h.plain c (hs.subset hc), fun hsp => h.apart (hsp.trans hs)⟩

theorem SingleSpaced.left {s t : List Char} (h : SingleSpaced (s ++ t)) : SingleSpaced s :=
  h.part (List.prefix_append s t).isInfix

theorem SingleSpaced.right {s t : List Char} (h : SingleSpaced (s ++ t)) : SingleSpaced t :=
  h.part (List.suffix_append s t).isInfix

theorem singleSpaced_cons {c : Char} {s : List Char} :
    SingleSpaced (c :: s) ↔
      (isBlank c = true → c = ' ' ∧ ∀ t, s ≠ ' ' :: t) ∧ SingleSpaced s := by
  constructor
  · intro h
    refine ⟨fun hc => ⟨h.plain c (by simp) hc, ?_⟩, h.part (List.infix_cons List.infix_rfl)⟩
    rintro t rfl
    obtain rfl := h.plain c (by simp) hc
    exact h.apart ⟨[], t, by simp⟩
  · rintro ⟨hc, hs⟩
    constructor
    · intro d hd hb
      rcases List.mem_cons.1 hd with rfl | hd
      · exact (hc hb).1
      · exact hs.plain d hd hb
    · intro hsp
      rcases List.infix_cons_iff.1 hsp with ⟨t, ht⟩ | hsp
      · obtain ⟨rfl, rfl⟩ : ' ' = c ∧ ' ' :: t = s := by simpa using ht
        exact (hc isBlank_space).2 t rfl
      · exact hs.apart hsp

/-- A blank part of a single-spaced text is one space or nothing. -/
def OptSpace (s : List Char) : Prop := s = [] ∨ s = [' ']

theorem OptSpace.isBlankText {s : List Char} (h : OptSpace s) : isBlankText s = true := by
  rcases h with rfl | rfl
  · rfl
  · simp [isBlank_space]

theorem OptSpace.singleSpaced {s : List Char} (h : OptSpace s) : SingleSpaced s := by
  rcases h with rfl | rfl
  · exact singleSpaced_nil
  · exact singleSpaced_cons.2 ⟨fun _ => ⟨rfl, by simp⟩, singleSpaced_nil⟩

theorem SingleSpaced.optSpace {s : List Char} (h : SingleSpaced s)
    (hs : isBlankText s = true) : OptSpace s := by
  cases s with
  | nil => exact Or.inl rfl
  | cons c s =>
    simp only [isBlankText_cons, Bool.and_eq_true] at hs
    obtain ⟨hc, hrest⟩ := singleSpaced_cons.1 h
    obtain ⟨rfl, hns⟩ := hc hs.1
    cases s with
    | nil => exact Or.inr rfl
    | cons d s =>
      obtain rfl := h.plain d (by simp) (by simpa using (Bool.and_eq_true _ _ ▸ hs.2).1)
      exact absurd rfl (hns s)

/-- A single-spaced text is what trimming leaves, with at most one space at either end. -/
theorem SingleSpaced.exists_trim {s : List Char} (h : SingleSpaced s) :
    ∃ l r, s = l ++ trim s ++ r ∧ OptSpace l ∧ OptSpace r := by
  obtain ⟨l, r, hs, hl, hr⟩ := Text.exists_trim s
  rw [hs] at h
  exact ⟨l, r, hs, h.left.left.optSpace hl, h.right.optSpace hr⟩

/-- On both sides of a space a single-spaced text goes on with no blank. -/
theorem SingleSpaced.startsSolid {l r : List Char} (h : SingleSpaced (l ++ ' ' :: r))
    (hne : r ≠ []) : StartsSolid r := by
  obtain ⟨c, r, rfl⟩ := List.exists_cons_of_ne_nil hne
  cases hc : isBlank c with
  | false => exact ⟨c, r, rfl, hc⟩
  | true =>
    obtain rfl := h.plain c (by simp) hc
    exact absurd ⟨l, r, by simp⟩ h.apart

theorem SingleSpaced.endsSolid {l r : List Char} (h : SingleSpaced (l ++ ' ' :: r))
    (hne : l ≠ []) : EndsSolid l := by
  obtain ⟨l, c, rfl⟩ := (List.eq_nil_or_concat l).resolve_left hne
  rw [List.concat_eq_append] at h ⊢
  cases hc : isBlank c with
  | false => exact ⟨l, c, rfl, hc⟩
  | true =>
    obtain rfl := h.plain c (by simp) hc
    exact absurd ⟨l, r, by simp⟩ h.apart

/-! ## Collapsing -/

theorem consSpaced_of_not_isBlank {c : Char} (h : isBlank c = false) (s : List Char) :
    consSpaced c s = c :: s := by
  simp [consSpaced, h]

theorem consSpaced_of_isBlank {c : Char} (h : isBlank c = true) {s : List Char}
    (hs : ∀ t, s ≠ ' ' :: t) : consSpaced c s = ' ' :: s := by
  unfold consSpaced
  rw [if_pos h]
  split
  · next t => exact absurd rfl (hs t)
  · rfl

theorem consSpaced_space {c : Char} (h : isBlank c = true) (t : List Char) :
    consSpaced c (' ' :: t) = ' ' :: t := by
  simp [consSpaced, h]

/-- A blank is absorbed by a space that the text begins with, or is the space that it begins with
from then on. -/
theorem consSpaced_cases {c : Char} (h : isBlank c = true) (s : List Char) :
    (∃ t, s = ' ' :: t ∧ consSpaced c s = ' ' :: t) ∨
      (∀ t, s ≠ ' ' :: t) ∧ consSpaced c s = ' ' :: s := by
  by_cases hs : ∃ t, s = ' ' :: t
  · obtain ⟨t, rfl⟩ := hs
    exact Or.inl ⟨t, rfl, consSpaced_space h t⟩
  · have hns : ∀ t, s ≠ ' ' :: t := fun t ht => hs ⟨t, ht⟩
    exact Or.inr ⟨hns, consSpaced_of_isBlank h hns⟩

/-- Any blank does what the plain space does. -/
theorem consSpaced_eq_consSpaced_space {c : Char} (h : isBlank c = true) (s : List Char) :
    consSpaced c s = consSpaced ' ' s := by
  simp [consSpaced, h, isBlank_space]

/-- Of two blanks in front of a text the first makes no difference. -/
theorem consSpaced_consSpaced {c d : Char} (hc : isBlank c = true) (hd : isBlank d = true)
    (s : List Char) : consSpaced c (consSpaced d s) = consSpaced d s := by
  rcases consSpaced_cases hd s with ⟨t, -, ht⟩ | ⟨-, ht⟩
  · rw [ht, consSpaced_space hc]
  · rw [ht, consSpaced_space hc]

theorem singleSpaced_consSpaced {c : Char} {s : List Char} (h : SingleSpaced s) :
    SingleSpaced (consSpaced c s) := by
  cases hc : isBlank c with
  | false =>
    rw [consSpaced_of_not_isBlank hc]
    exact singleSpaced_cons.2 ⟨fun hb => by simp [hc] at hb, h⟩
  | true =>
    rcases consSpaced_cases hc s with ⟨t, hs, ht⟩ | ⟨hns, ht⟩
    · rwa [ht, ← hs]
    · rw [ht]
      exact singleSpaced_cons.2 ⟨fun _ => ⟨rfl, hns⟩, h⟩

theorem singleSpaced_collapse (s : List Char) : SingleSpaced (collapse s) := by
  induction s with
  | nil => exact singleSpaced_nil
  | cons c s ih => exact singleSpaced_consSpaced ih

theorem SingleSpaced.collapse_eq {s : List Char} (h : SingleSpaced s) : collapse s = s := by
  induction s with
  | nil => rfl
  | cons c s ih =>
    obtain ⟨hc, hs⟩ := singleSpaced_cons.1 h
    rw [collapse_cons, ih hs]
    cases hb : isBlank c with
    | false => exact consSpaced_of_not_isBlank hb s
    | true =>
      obtain ⟨rfl, hns⟩ := hc hb
      exact consSpaced_of_isBlank hb hns

theorem collapse_eq_self_iff {s : List Char} : collapse s = s ↔ SingleSpaced s :=
  ⟨fun h => h ▸ singleSpaced_collapse s, SingleSpaced.collapse_eq⟩

@[simp] theorem collapse_collapse (s : List Char) : collapse (collapse s) = collapse s :=
  (singleSpaced_collapse s).collapse_eq

/-! ## Seams -/

theorem StartsSolid.collapse {s : List Char} (h : StartsSolid s) : StartsSolid (collapse s) := by
  obtain ⟨c, t, rfl, hc⟩ := h
  exact ⟨c, Text.collapse t, by rw [collapse_cons, consSpaced_of_not_isBlank hc], hc⟩

/-- In front of a text that begins with no space, the fold goes on as in front of nothing. -/
theorem foldr_consSpaced (s : List Char) {u : List Char} (hu : ∀ t, u ≠ ' ' :: t) :
    s.foldr consSpaced u = collapse s ++ u := by
  induction s with
  | nil => rfl
  | cons c s ih =>
    rw [List.foldr_cons, ih, collapse_cons]
    cases hc : isBlank c with
    | false => rw [consSpaced_of_not_isBlank hc, consSpaced_of_not_isBlank hc, List.cons_append]
    | true =>
      -- a blank goes only in front of a space, and neither `s` nor `u` changes whether one follows
      cases hs : collapse s with
      | nil =>
        rw [List.nil_append, consSpaced_of_isBlank hc hu, consSpaced_of_isBlank hc (by simp)]
        rfl
      | cons d t =>
        by_cases hd : d = ' '
        · subst hd
          rw [List.cons_append, consSpaced_space hc, consSpaced_space hc, List.cons_append]
        · rw [List.cons_append, consSpaced_of_isBlank hc (by simp [hd]),
            consSpaced_of_isBlank hc (by simp [hd])]
          simp

theorem StartsSolid.ne_space {s : List Char} (h : StartsSolid s) (t : List Char) :
    s ≠ ' ' :: t := by
  obtain ⟨c, s', rfl, hc⟩ := h
  rintro ⟨rfl, rfl⟩
  simp [isBlank_space] at hc

/-- Collapsing works on both sides of a seam apart if the right side begins with no blank. -/
theorem collapse_append (s : List Char) {t : List Char} (ht : StartsSolid t) :
    collapse (s ++ t) = collapse s ++ collapse t := by
  rw [collapse, List.foldr_append]
  exact foldr_consSpaced s ht.collapse.ne_space

/-- … and if the left side ends with no blank. -/
theorem EndsSolid.collapse_append {s : List Char} (hs : EndsSolid s) (t : List Char) :
    collapse (s ++ t) = collapse s ++ collapse t := by
  obtain ⟨s', c, rfl, hc⟩ := hs
  have hmid : ∀ u, StartsSolid ([c] ++ u) := fun u => ⟨c, u, rfl, hc⟩
  rw [List.append_assoc, Text.collapse_append s' (hmid t),
    Text.collapse_append s' (List.append_nil [c] ▸ hmid []), List.append_assoc]
  simp [consSpaced_of_not_isBlank hc]

/-- The fold makes no difference between a text and the text that it collapses to. -/
theorem foldr_consSpaced_collapse (s u : List Char) :
    (collapse s).foldr consSpaced u = s.foldr consSpaced u := by
  induction s with
  | nil => rfl
  | cons c s ih =>
    rw [collapse_cons, List.foldr_cons, ← ih]
    cases hc : isBlank c with
    | false => rw [consSpaced_of_not_isBlank hc, List.foldr_cons]
    | true =>
      rcases consSpaced_cases hc (collapse s) with ⟨t, hs, ht⟩ | ⟨-, ht⟩
      · rw [ht, hs, List.foldr_cons, consSpaced_consSpaced hc isBlank_space]
      · rw [ht, List.foldr_cons, consSpaced_eq_consSpaced_space hc]

/-- Whatever stands at a seam, both sides may be collapsed before. -/
theorem collapse_append_collapse (s t : List Char) :
    collapse (collapse s ++ collapse t) = collapse (s ++ t) := by
  calc collapse (collapse s ++ collapse t)
      = (collapse s).foldr consSpaced (collapse (collapse t)) := List.foldr_append
    _ = s.foldr consSpaced (collapse t) := by rw [collapse_collapse, foldr_consSpaced_collapse]
    _ = collapse (s ++ t) := List.foldr_append.symm

theorem EndsSolid.collapse {s : List Char} (h : EndsSolid s) : EndsSolid (collapse s) := by
  obtain ⟨t, c, rfl, hc⟩ := h
  refine ⟨Text.collapse t, c, ?_, hc⟩
  rw [Text.collapse_append t ⟨c, [], rfl, hc⟩]
  simp [consSpaced_of_not_isBlank hc]

theorem Solid.collapse {s : List Char} (h : Solid s) : Solid (collapse s) :=
  ⟨h.starts.collapse, h.ends.collapse⟩

/-- A run of blanks does what a single space does. -/
theorem collapse_blank_append {b : List Char} (hb : isBlankText b = true) (hne : b ≠ [])
    (t : List Char) : collapse (b ++ t) = consSpaced ' ' (collapse t) := by
  induction b with
  | nil => exact absurd rfl hne
  | cons c b ih =>
    simp only [isBlankText_cons, Bool.and_eq_true] at hb
    rw [List.cons_append, collapse_cons, consSpaced_eq_consSpaced_space hb.1]
    cases b with
    | nil => rfl
    | cons d b => rw [ih hb.2 (by simp), consSpaced_consSpaced isBlank_space isBlank_space]

theorem collapse_blank {s : List Char} (h : isBlankText s = true) (hne : s ≠ []) :
    collapse s = [' '] := by
  have := collapse_blank_append h hne []
  rwa [List.append_nil, collapse_nil, consSpaced_of_isBlank isBlank_space (by simp)] at this

theorem optSpace_collapse {s : List Char} (h : isBlankText s = true) :
    OptSpace (collapse s) := by
  by_cases hne : s = []
  · exact Or.inl (by rw [hne]; rfl)
  · exact Or.inr (collapse_blank h hne)

/-- A solid text between blank ones collapses by itself. -/
theorem Solid.collapse_append_append {m : List Char} (hm : Solid m) (l r : List Char) :
    Text.collapse (l ++ m ++ r) = Text.collapse l ++ Text.collapse m ++ Text.collapse r := by
  rw [List.append_assoc, Text.collapse_append l (hm.starts.append r), hm.ends.collapse_append r,
    List.append_assoc]

/-- Collapsing keeps the blank ends of a text apart from what is between them. -/
theorem exists_collapse_trim (s : List Char) :
    ∃ l r, collapse s = l ++ collapse (trim s) ++ r ∧ OptSpace l ∧ OptSpace r := by
  obtain ⟨l, r, hs, hl, hr⟩ := Text.exists_trim s
  by_cases hne : trim s = []
  · have hblank : isBlankText s = true := trim_eq_nil_iff.1 hne
    exact ⟨collapse s, [], by simp [hne], optSpace_collapse hblank, Or.inl rfl⟩
  · refine ⟨collapse l, collapse r, ?_, optSpace_collapse hl, optSpace_collapse hr⟩
    rw [← (solid_trim hne).collapse_append_append, ← hs]

theorem trim_collapse (s : List Char) : trim (collapse s) = collapse (trim s) := by
  obtain ⟨l, r, hs, hl, hr⟩ := exists_collapse_trim s
  rw [hs, trim_append_blank hl.isBlankText hr.isBlankText]
  by_cases hne : trim s = []
  · rw [hne]
    rfl
  · exact (solid_trim hne).collapse.trim_eq

theorem collapse_eq_nil_iff {s : List Char} : collapse s = [] ↔ s = [] := by
  refine ⟨?_, fun h => by rw [h]; rfl⟩
  intro h
  cases s with
  | nil => rfl
  | cons c s =>
    rw [collapse_cons] at h
    unfold consSpaced at h
    repeat' split at h
    all_goals simp_all

theorem isBlankText_collapse (s : List Char) : isBlankText (collapse s) = isBlankText s := by
  rw [Bool.eq_iff_iff, ← trim_eq_nil_iff, ← trim_eq_nil_iff, trim_collapse, collapse_eq_nil_iff]

theorem collapse_group (s : List Char) :
    collapse ('(' :: s ++ [')']) = '(' :: collapse s ++ [')'] := by
  rw [collapse_append _ ⟨')', [], rfl, isBlank_closeParen⟩, collapse_cons,
    consSpaced_of_not_isBlank isBlank_openParen, collapse_cons,
    consSpaced_of_not_isBlank isBlank_closeParen]
  rfl

/-! ## Where a collapsed text comes from -/

/-- A character that is no blank stands in a collapsed text where it stands in the text: what is in
front of it has collapsed by itself, and so has what is behind it. -/
theorem exists_of_collapse_eq_append {c : Char} (hc : isBlank c = false) {s u v : List Char}
    (h : collapse s = u ++ c :: v) :
    ∃ u' v', s = u' ++ c :: v' ∧ collapse u' = u ∧ collapse v' = v := by
  induction s generalizing u with
  | nil => exact absurd h (by simp)
  | cons d s ih =>
    rw [collapse_cons] at h
    cases hd : isBlank d with
    | false =>
      rw [consSpaced_of_not_isBlank hd] at h
      cases u with
      | nil =>
        obtain ⟨rfl, rfl⟩ := List.cons.inj h
        exact ⟨[], s, rfl, rfl, rfl⟩
      | cons e u =>
        obtain ⟨rfl, htail⟩ := List.cons.inj h
        obtain ⟨u', v', rfl, rfl, hv⟩ := ih htail
        exact ⟨d :: u', v', rfl, by rw [collapse_cons, consSpaced_of_not_isBlank hd], hv⟩
    | true =>
      -- the collapsed text begins with a space, which is not the character that is looked for
      have hfront : ∀ w, ' ' :: w = u ++ c :: v → ∃ t, u = ' ' :: t := by
        intro w hw
        cases u with
        | nil =>
          obtain ⟨rfl, -⟩ := List.cons.inj hw
          exact absurd isBlank_space (by simp [hc])
        | cons e u => exact ⟨u, by rw [(List.cons.inj hw).1]⟩
      rcases consSpaced_cases hd (collapse s) with ⟨w, hw, hspaced⟩ | ⟨hns, hspaced⟩
      · rw [hspaced] at h
        obtain ⟨t, rfl⟩ := hfront w h
        obtain ⟨u', v', rfl, hu, hv⟩ := ih (hw.trans h)
        exact ⟨d :: u', v', rfl, by rw [collapse_cons, hu, consSpaced_space hd], hv⟩
      · rw [hspaced] at h
        obtain ⟨t, rfl⟩ := hfront _ h
        have htail : collapse s = t ++ c :: v := (List.cons.inj h).2
        obtain ⟨u', v', rfl, rfl, hv⟩ := ih htail
        refine ⟨d :: u', v', rfl, consSpaced_of_isBlank hd ?_, hv⟩
        intro w hw
        exact hns (w ++ c :: v) (by rw [htail, collapse, hw, List.cons_append])

end BooleanQuery.Text
