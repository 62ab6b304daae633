import BooleanQuery.Text.Blank

/-!
# Trimming

A *solid* text begins and ends with a character that is no blank, so it has at least one. Trimming
leaves a solid text or nothing, and a text is what trimming leaves of it between two blank ones
(`exists_trim`). Both facts are what the reading of operands needs: an operand is trimmed first
and looked at afterwards.
-/

set_option autoImplicit false

namespace BooleanQuery.Text

/-! ## Blank texts -/

@[simp] theorem isBlankText_nil : isBlankText [] = true := rfl

@[simp] theorem isBlankText_cons (c : Char) (s : List Char) :
    isBlankText (c :: s) = (isBlank c && isBlankText s) := rfl

@[simp] theorem isBlankText_append (s t : List Char) :
    isBlankText (s ++ t) = (isBlankText s && isBlankText t) := by
  simp [isBlankText]

theorem isBlankText_iff {s : List Char} : isBlankText s = true ↔ ∀ c ∈ s, isBlank c = true := by
  simp [isBlankText]

/-- A text is not blank if a part of it is not. -/
theorem not_isBlankText_of_infix {s t : List Char} (h : isBlankText s = false) (hs : s <:+: t) :
    isBlankText t = false := by
  rw [isBlankText, List.all_eq_false] at h ⊢
  obtain ⟨c, hc, hblank⟩ := h
  exact ⟨c, hs.subset hc, hblank⟩

/-! ## Solid texts -/

/-- The text begins with a character that is no blank. -/
def StartsSolid (s : List Char) : Prop := ∃ c t, s = c :: t ∧ isBlank c = false

/-- The text ends with a character that is no blank. -/
def EndsSolid (s : List Char) : Prop := ∃ t c, s = t ++ [c] ∧ isBlank c = false

/-- There is no blank at either end, and something in between. -/
structure Solid (s : List Char) : Prop where
  starts : StartsSolid s
  ends : EndsSolid s

theorem StartsSolid.append {s : List Char} (h : StartsSolid s) (t : List Char) :
    StartsSolid (s ++ t) := by
  obtain ⟨c, s', rfl, hc⟩ := h
  exact ⟨c, s' ++ t, rfl, hc⟩

theorem EndsSolid.append {t : List Char} (h : EndsSolid t) (s : List Char) :
    EndsSolid (s ++ t) := by
  obtain ⟨t', c, rfl, hc⟩ := h
  exact ⟨s ++ t', c, by simp, hc⟩

theorem Solid.append {s t : List Char} (hs : StartsSolid s) (ht : EndsSolid t)
    (u : List Char) : Solid (s ++ u ++ t) :=
  ⟨by rw [List.append_assoc]; exact hs.append _, ht.append _⟩

theorem Solid.ne_nil {s : List Char} (h : Solid s) : s ≠ [] := by
  obtain ⟨c, t, rfl, -⟩ := h.starts
  exact List.cons_ne_nil c t

theorem StartsSolid.left {s t : List Char} (h : StartsSolid (s ++ t)) (hne : s ≠ []) :
    StartsSolid s := by
  obtain ⟨c, s, rfl⟩ := List.exists_cons_of_ne_nil hne
  obtain ⟨d, u, heq, hd⟩ := h
  obtain ⟨rfl, -⟩ := List.cons.inj heq
  exact ⟨c, s, rfl, hd⟩

theorem EndsSolid.right {s t : List Char} (h : EndsSolid (s ++ t)) (hne : t ≠ []) :
    EndsSolid t := by
  obtain ⟨t, c, rfl⟩ := (List.eq_nil_or_concat t).resolve_left hne
  obtain ⟨u, d, heq, hd⟩ := h
  rw [List.concat_eq_append, ← List.append_assoc] at heq
  obtain ⟨-, hcd⟩ := List.append_inj' heq rfl
  obtain rfl : c = d := by simpa using hcd
  exact ⟨t, c, List.concat_eq_append, hd⟩

theorem StartsSolid.not_isBlankText {s : List Char} (h : StartsSolid s) :
    isBlankText s = false := by
  obtain ⟨c, t, rfl, hc⟩ := h
  simp [hc]

theorem EndsSolid.not_isBlankText {s : List Char} (h : EndsSolid s) : isBlankText s = false := by
  obtain ⟨t, c, rfl, hc⟩ := h
  simp [hc]

theorem Solid.not_isBlankText {s : List Char} (h : Solid s) : isBlankText s = false :=
  h.starts.not_isBlankText

/-- A text without any blank is solid if it is not empty. -/
theorem solid_of_forall {s : List Char} (hne : s ≠ []) (h : ∀ c ∈ s, isBlank c = false) :
    Solid s := by
  constructor
  · obtain ⟨c, t, rfl⟩ := List.exists_cons_of_ne_nil hne
    exact ⟨c, t, rfl, h c (by simp)⟩
  · obtain ⟨t, c, rfl⟩ := (List.eq_nil_or_concat s).resolve_left hne
    exact ⟨t, c, List.concat_eq_append, h c (by simp)⟩

/-- What stands in a pair of parentheses, with them, is solid. -/
theorem solid_group (s : List Char) : Solid ('(' :: s ++ [')']) :=
  ⟨⟨'(', s ++ [')'], rfl, isBlank_openParen⟩, ⟨'(' :: s, ')', rfl, isBlank_closeParen⟩⟩

theorem infix_group (s : List Char) : s <:+: '(' :: s ++ [')'] :=
  ⟨['('], [')'], rfl⟩

/-! ## What trimming takes away -/

theorem trimLeft_of_startsSolid {s : List Char} (h : StartsSolid s) : trimLeft s = s := by
  obtain ⟨c, t, rfl, hc⟩ := h
  simp [trimLeft, hc]

theorem trimRight_of_endsSolid {s : List Char} (h : EndsSolid s) : trimRight s = s := by
  obtain ⟨t, c, rfl, hc⟩ := h
  simp [trimRight, hc]

theorem trimLeft_append_of_isBlankText {l : List Char} (hl : isBlankText l = true)
    (s : List Char) : trimLeft (l ++ s) = trimLeft s := by
  induction l with
  | nil => rfl
  | cons c l ih =>
    simp only [isBlankText_cons, Bool.and_eq_true] at hl
    simpa [trimLeft, hl.1] using ih hl.2

theorem trimRight_append_of_isBlankText {r : List Char} (hr : isBlankText r = true)
    (s : List Char) : trimRight (s ++ r) = trimRight s := by
  have hrev : isBlankText r.reverse = true := by simpa [isBlankText] using hr
  simpa [trimRight, trimLeft] using trimLeft_append_of_isBlankText hrev s.reverse

/-- Trimming a solid text with blanks around it finds the solid text. -/
theorem trim_append_append {l s r : List Char} (hl : isBlankText l = true) (hs : Solid s)
    (hr : isBlankText r = true) : trim (l ++ s ++ r) = s := by
  unfold trim
  rw [List.append_assoc, trimLeft_append_of_isBlankText hl,
    trimLeft_of_startsSolid (hs.starts.append r), trimRight_append_of_isBlankText hr,
    trimRight_of_endsSolid hs.ends]

theorem Solid.trim_eq {s : List Char} (h : Solid s) : trim s = s := by
  simpa using trim_append_append (l := []) (r := []) rfl h rfl

theorem trim_of_isBlankText {s : List Char} (h : isBlankText s = true) : trim s = [] := by
  have hleft : trimLeft s = [] := by
    simpa [trimLeft] using trimLeft_append_of_isBlankText h []
  simp [trim, hleft, trimRight]

/-- A text is blank, or a solid text with blanks around it. -/
theorem isBlankText_or_solid (s : List Char) :
    isBlankText s = true ∨
      ∃ l m r, s = l ++ m ++ r ∧ isBlankText l = true ∧ Solid m ∧ isBlankText r = true := by
  induction s with
  | nil => exact Or.inl rfl
  | cons c s ih =>
    -- a character in front is one more blank, or the place where the solid part begins
    rcases ih with hs | ⟨l, m, r, rfl, hl, hm, hr⟩
    · cases hc : isBlank c with
      | true => exact Or.inl (by simp [hc, hs])
      | false => exact Or.inr ⟨[], [c], s, rfl, rfl, ⟨⟨c, [], rfl, hc⟩, ⟨[], c, rfl, hc⟩⟩, hs⟩
    · cases hc : isBlank c with
      | true => exact Or.inr ⟨c :: l, m, r, rfl, by simp [hc, hl], hm, hr⟩
      | false =>
        refine Or.inr ⟨[], c :: l ++ m, r, by simp, rfl, ?_, hr⟩
        exact ⟨⟨c, l ++ m, rfl, hc⟩, hm.ends.append (c :: l)⟩

/-- Trimming takes a blank text away at either end and nothing else. -/
theorem exists_trim (s : List Char) :
    ∃ l r, s = l ++ trim s ++ r ∧ isBlankText l = true ∧ isBlankText r = true := by
  rcases isBlankText_or_solid s with hs | ⟨l, m, r, rfl, hl, hm, hr⟩
  · exact ⟨s, [], by simp [trim_of_isBlankText hs], hs, rfl⟩
  · exact ⟨l, r, by rw [trim_append_append hl hm hr], hl, hr⟩

theorem trim_infix (s : List Char) : trim s <:+: s := by
  obtain ⟨l, r, hs, -, -⟩ := exists_trim s
  exact ⟨l, r, hs.symm⟩

theorem trim_eq_nil_iff {s : List Char} : trim s = [] ↔ isBlankText s = true := by
  refine ⟨?_, trim_of_isBlankText⟩
  intro h
  obtain ⟨l, r, hs, hl, hr⟩ := exists_trim s
  rw [hs, h]
  simp [hl, hr]

theorem solid_trim {s : List Char} (h : trim s ≠ []) : Solid (trim s) := by
  rcases isBlankText_or_solid s with hs | ⟨l, m, r, rfl, hl, hm, hr⟩
  · exact absurd (trim_of_isBlankText hs) h
  · rwa [trim_append_append hl hm hr]

theorem solid_trim_of_not_isBlankText {s : List Char} (h : isBlankText s = false) :
    Solid (trim s) :=
  solid_trim fun hnil => absurd (trim_eq_nil_iff.1 hnil) (by simp [h])

theorem solid_iff {s : List Char} : Solid s ↔ s ≠ [] ∧ trim s = s := by
  refine ⟨fun h => ⟨h.ne_nil, h.trim_eq⟩, ?_⟩
  intro ⟨hne, htrim⟩
  rw [← htrim]
  exact solid_trim (by rwa [htrim])

/-- Blanks at the ends make no difference to what trimming leaves. -/
theorem trim_append_blank {l r : List Char} (hl : isBlankText l = true)
    (hr : isBlankText r = true) (s : List Char) : trim (l ++ s ++ r) = trim s := by
  rcases isBlankText_or_solid s with hs | ⟨l', m, r', rfl, hl', hm, hr'⟩
  · rw [trim_of_isBlankText hs, trim_of_isBlankText (by simp [hl, hs, hr])]
  · rw [trim_append_append hl' hm hr',
      show l ++ (l' ++ m ++ r') ++ r = (l ++ l') ++ m ++ (r' ++ r) by simp,
      trim_append_append (by simp [hl, hl']) hm (by simp [hr, hr'])]

@[simp] theorem trim_cons_space (s : List Char) : trim (' ' :: s) = trim s := by
  simpa using trim_append_blank (l := [' ']) (r := []) (by simp [isBlank_space]) rfl s

@[simp] theorem trim_append_space (s : List Char) : trim (s ++ [' ']) = trim s :=
  trim_append_blank (l := []) (r := [' ']) rfl (by simp [isBlank_space]) s

/-! ## Up to a character -/

/-- What stands in front of the first place of a character is determined by the text, and so is what
stands behind it. -/
theorem append_cons_inj {c : Char} {s t u v : List Char} (hs : c ∉ s) (ht : c ∉ t)
    (h : s ++ c :: u = t ++ c :: v) : s = t ∧ u = v := by
  rcases List.append_eq_append_iff.1 h with ⟨w, rfl, hw⟩ | ⟨w, rfl, hw⟩
  · cases w with
    | nil => exact ⟨(List.append_nil s).symm, (List.cons.inj hw).2⟩
    | cons d w =>
      obtain ⟨rfl, -⟩ := List.cons.inj hw
      exact absurd (by simp) ht
  · cases w with
    | nil => exact ⟨List.append_nil t, (List.cons.inj hw).2.symm⟩
    | cons d w =>
      obtain ⟨rfl, -⟩ := List.cons.inj hw
      exact absurd (by simp) hs

end BooleanQuery.Text
