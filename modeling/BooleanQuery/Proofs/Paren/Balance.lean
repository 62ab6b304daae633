import BooleanQuery.Paren.Balance
import BooleanQuery.Paren.Enclosure
import BooleanQuery.Proofs.Text.Spacing

/-!
# Counting open groups

The library decides balance with a stack of byte offsets and finds a partner with a counter. Both
are read here as one count: `openAfter? d s` is the number of groups that are open after `s` if
`d` were open before it. A text is balanced when the count goes from 0 to 0
(`balanced_iff`), and a text is enclosed when it is a balanced one between two parentheses
(`enclosed?_eq_some_iff`). The two scanners agree because both are this count.

The count sees parentheses only, so it is the same for a text and for its `skeleton`. Trimming and
collapsing keep the skeleton, and so everything about a text that depends on it.
-/

set_option autoImplicit false

namespace BooleanQuery.Paren

open Text (isBlank isBlankText trim collapse)

/-! ## The skeleton -/

def isParen (c : Char) : Bool := c = '(' || c = ')'

theorem isParen_eq_false_iff {c : Char} : isParen c = false ↔ c ≠ '(' ∧ c ≠ ')' := by
  simp [isParen]

/-- The parentheses of a text. -/
def skeleton (s : List Char) : List Char := s.filter isParen

theorem isParen_of_isBlank {c : Char} (h : isBlank c = true) : isParen c = false := by
  cases hp : isParen c with
  | false => rfl
  | true =>
    simp only [isParen, Bool.or_eq_true, decide_eq_true_eq] at hp
    rcases hp with rfl | rfl
    · exact absurd h (by rw [Text.isBlank_openParen]; simp)
    · exact absurd h (by rw [Text.isBlank_closeParen]; simp)

@[simp] theorem skeleton_append (s t : List Char) :
    skeleton (s ++ t) = skeleton s ++ skeleton t := by
  simp [skeleton]

theorem skeleton_of_isBlankText {s : List Char} (h : isBlankText s = true) :
    skeleton s = [] := by
  apply List.filter_eq_nil_iff.2
  intro c hc
  rw [isParen_of_isBlank (Text.isBlankText_iff.1 h c hc)]
  simp

theorem skeleton_collapse (s : List Char) : skeleton (collapse s) = skeleton s := by
  induction s with
  | nil => rfl
  | cons c s ih =>
    have hspace : isParen ' ' = false := rfl
    cases hc : isBlank c with
    | false =>
      rw [Text.collapse_cons, Text.consSpaced_of_not_isBlank hc]
      cases hp : isParen c with
      | false => simpa [skeleton, hp] using ih
      | true => simpa [skeleton, hp] using ih
    | true =>
      have hp := isParen_of_isBlank hc
      rw [Text.collapse_cons]
      rcases Text.consSpaced_cases hc (collapse s) with ⟨t, hs, ht⟩ | ⟨-, ht⟩
      · rw [ht, ← hs, ih]
        simp [skeleton, hp]
      · rw [ht]
        simpa [skeleton, hp, hspace] using ih

theorem skeleton_trim (s : List Char) : skeleton (trim s) = skeleton s := by
  obtain ⟨l, r, hs, hl, hr⟩ := Text.exists_trim s
  rw [congrArg skeleton hs, skeleton_append, skeleton_append, skeleton_of_isBlankText hl,
    skeleton_of_isBlankText hr, List.nil_append, List.append_nil]

theorem hasParen_eq_false_iff {s : List Char} : hasParen s = false ↔ skeleton s = [] := by
  simp [hasParen, skeleton, isParen, List.filter_eq_nil_iff]

theorem isParen_of_mem {s : List Char} (h : hasParen s = false) {c : Char} (hc : c ∈ s) :
    isParen c = false :=
  Bool.eq_false_iff.2 (List.any_eq_false.1 h c hc)

theorem hasParen_of_infix {s t : List Char} (h : hasParen t = false) (hs : s <:+: t) :
    hasParen s = false := by
  rw [hasParen, List.any_eq_false] at h ⊢
  exact fun c hc => h c (hs.subset hc)

theorem hasParen_congr {s t : List Char} (h : skeleton s = skeleton t) :
    hasParen s = hasParen t := by
  have hiff : hasParen s = false ↔ hasParen t = false := by
    rw [hasParen_eq_false_iff, hasParen_eq_false_iff, h]
  exact Bool.not_inj (Bool.coe_false_iff_false.1 hiff)

theorem hasParen_collapse (s : List Char) : hasParen (collapse s) = hasParen s :=
  hasParen_congr (skeleton_collapse s)

theorem hasParen_trim (s : List Char) : hasParen (trim s) = hasParen s :=
  hasParen_congr (skeleton_trim s)

/-! ## Open groups -/

/-- The number of groups that are open after a text if `d` are open before it, and `none` if one
of its `)` closes nothing. -/
def openAfter? : Nat → List Char → Option Nat
  | d, [] => some d
  | d, c :: s =>
    if c = '(' then openAfter? (d + 1) s
    else if c = ')' then
      match d with
      | 0 => none
      | d + 1 => openAfter? d s
    else openAfter? d s

@[simp] theorem openAfter?_nil (d : Nat) : openAfter? d [] = some d := rfl

@[simp] theorem openAfter?_open (d : Nat) (s : List Char) :
    openAfter? d ('(' :: s) = openAfter? (d + 1) s := rfl

@[simp] theorem openAfter?_close_zero (s : List Char) : openAfter? 0 (')' :: s) = none := rfl

@[simp] theorem openAfter?_close_succ (d : Nat) (s : List Char) :
    openAfter? (d + 1) (')' :: s) = openAfter? d s := rfl

theorem openAfter?_cons_of_not_isParen {c : Char} (h : isParen c = false) (d : Nat)
    (s : List Char) : openAfter? d (c :: s) = openAfter? d s := by
  rw [isParen_eq_false_iff] at h
  simp [openAfter?, h.1, h.2]

/-- A character opens a group, closes one, or does neither. -/
theorem paren_cases (c : Char) : c = '(' ∨ c = ')' ∨ isParen c = false := by
  by_cases ho : c = '('
  · exact Or.inl ho
  · by_cases hc : c = ')'
    · exact Or.inr (Or.inl hc)
    · exact Or.inr (Or.inr (by simp [isParen, ho, hc]))

theorem openAfter?_append (d : Nat) (s t : List Char) :
    openAfter? d (s ++ t) = (openAfter? d s).bind fun e => openAfter? e t := by
  induction s generalizing d with
  | nil => rfl
  | cons c s ih =>
    rcases paren_cases c with rfl | rfl | hc
    · exact ih (d + 1)
    · cases d with
      | zero => rfl
      | succ d => exact ih d
    · rw [List.cons_append, openAfter?_cons_of_not_isParen hc, openAfter?_cons_of_not_isParen hc]
      exact ih d

/-- Groups that were open before a text and are not needed by it stay open. -/
theorem openAfter?_add {d e : Nat} {s : List Char} (h : openAfter? d s = some e) (k : Nat) :
    openAfter? (d + k) s = some (e + k) := by
  induction s generalizing d with
  | nil =>
    obtain rfl : d = e := by simpa using h
    rfl
  | cons c s ih =>
    rcases paren_cases c with rfl | rfl | hc
    · rw [openAfter?_open, Nat.add_right_comm]
      exact ih h
    · cases d with
      | zero => exact absurd h (by simp)
      | succ d =>
        rw [Nat.add_right_comm, openAfter?_close_succ]
        exact ih h
    · rw [openAfter?_cons_of_not_isParen hc] at h ⊢
      exact ih h

theorem openAfter?_skeleton (d : Nat) (s : List Char) :
    openAfter? d (skeleton s) = openAfter? d s := by
  induction s generalizing d with
  | nil => rfl
  | cons c s ih =>
    rcases paren_cases c with rfl | rfl | hc
    · exact ih (d + 1)
    · cases d with
      | zero => rfl
      | succ d => exact ih d
    · rw [openAfter?_cons_of_not_isParen hc, ← ih d]
      simp [skeleton, hc]

theorem count_close_cons_open (s : List Char) : ('(' :: s).count ')' = s.count ')' :=
  List.count_cons_of_ne (by decide)

theorem count_open_cons_close (s : List Char) : (')' :: s).count '(' = s.count '(' :=
  List.count_cons_of_ne (by decide)

/-- The count is what the `(` have over the `)`. -/
theorem count_of_openAfter? {d e : Nat} {s : List Char} (h : openAfter? d s = some e) :
    d + s.count '(' = e + s.count ')' := by
  induction s generalizing d with
  | nil =>
    obtain rfl : d = e := by simpa using h
    rfl
  | cons c s ih =>
    rcases paren_cases c with rfl | rfl | hc
    · have := ih (d := d + 1) h
      simp only [List.count_cons_self, count_close_cons_open]
      omega
    · cases d with
      | zero => exact absurd h (by simp)
      | succ d =>
        have := ih (d := d) h
        simp only [List.count_cons_self, count_open_cons_close]
        omega
    · rw [openAfter?_cons_of_not_isParen hc] at h
      rw [isParen_eq_false_iff] at hc
      rw [List.count_cons_of_ne hc.1, List.count_cons_of_ne hc.2]
      exact ih h

/-! ## Balance -/

/-- The stack of offsets has the length of the count, and its contents decide nothing. -/
theorem unmatchedFrom?_eq_none_iff (pos : Nat) (opened : List Nat) (s : List Char) :
    unmatchedFrom? pos opened s = none ↔ openAfter? opened.length s = some 0 := by
  induction s generalizing pos opened with
  | nil => cases opened <;> simp [unmatchedFrom?]
  | cons c s ih =>
    rcases paren_cases c with rfl | rfl | hc
    · exact ih _ (pos :: opened)
    · cases opened with
      | nil => simp [unmatchedFrom?]
      | cons p opened => exact ih _ opened
    · rw [openAfter?_cons_of_not_isParen hc, ← ih (pos + c.utf8Size) opened]
      rw [isParen_eq_false_iff] at hc
      simp [unmatchedFrom?, hc.1, hc.2]

theorem balanced_iff {s : List Char} : Balanced s ↔ openAfter? 0 s = some 0 :=
  unmatchedFrom?_eq_none_iff 0 [] s

theorem Balanced.openAfter? {s : List Char} (h : Balanced s) (d : Nat) :
    openAfter? d s = some d := by
  simpa using openAfter?_add (balanced_iff.1 h) d

/-- What stands behind a balanced text is counted as if it stood alone. -/
theorem Balanced.openAfter?_append {s : List Char} (h : Balanced s) (d : Nat) (t : List Char) :
    Paren.openAfter? d (s ++ t) = Paren.openAfter? d t := by
  rw [Paren.openAfter?_append, h.openAfter? d]
  rfl

/-- Balance is a matter of the parentheses alone. -/
theorem balanced_congr {s t : List Char} (h : skeleton s = skeleton t) :
    Balanced s ↔ Balanced t := by
  rw [balanced_iff, balanced_iff, ← openAfter?_skeleton 0 s, h, openAfter?_skeleton]

theorem balanced_collapse {s : List Char} : Balanced (collapse s) ↔ Balanced s :=
  balanced_congr (skeleton_collapse s)

theorem balanced_trim {s : List Char} : Balanced (trim s) ↔ Balanced s :=
  balanced_congr (skeleton_trim s)

theorem balanced_of_skeleton_eq_nil {s : List Char} (h : skeleton s = []) : Balanced s :=
  (balanced_congr (t := []) h).2 rfl

theorem balanced_of_not_hasParen {s : List Char} (h : hasParen s = false) : Balanced s :=
  balanced_of_skeleton_eq_nil (hasParen_eq_false_iff.1 h)

theorem Balanced.append {s t : List Char} (hs : Balanced s) (ht : Balanced t) :
    Balanced (s ++ t) := by
  rw [balanced_iff, hs.openAfter?_append]
  exact balanced_iff.1 ht

theorem Balanced.group {s : List Char} (h : Balanced s) : Balanced ('(' :: s ++ [')']) := by
  rw [balanced_iff, List.cons_append, openAfter?_open, h.openAfter?_append]
  rfl

/-! ## Enclosure -/

/-- A group that is open is closed by the first `)` that the count meets at 0. -/
theorem closeGroup?_append {d : Nat} {inner : List Char} (h : openAfter? d inner = some 0)
    (rest : List Char) : closeGroup? d (inner ++ ')' :: rest) = some (inner, rest) := by
  induction inner generalizing d with
  | nil =>
    obtain rfl : d = 0 := by simpa using h
    rfl
  | cons c s ih =>
    rcases paren_cases c with rfl | rfl | hc
    · simp [closeGroup?, ih (d := d + 1) h]
    · cases d with
      | zero => exact absurd h (by simp)
      | succ d => simp [closeGroup?, ih (d := d) h]
    · rw [openAfter?_cons_of_not_isParen hc] at h
      rw [isParen_eq_false_iff] at hc
      simp [closeGroup?, hc.1, hc.2, ih h]

/-- Where `d + k + 1` open groups are all closed, the scan finds the `)` of the one that `k` of the
others stand in. -/
theorem exists_closeGroup? {d k : Nat} {s : List Char} (h : openAfter? (d + k + 1) s = some 0) :
    ∃ inner rest, closeGroup? k s = some (inner, rest) := by
  induction s generalizing k with
  | nil => exact absurd h (by simp)
  | cons c s ih =>
    -- a character that closes nothing here is passed over
    have step : ∀ j, openAfter? (d + j + 1) s = some 0 →
        ∃ inner rest, (closeGroup? j s).map (fun p => (c :: p.1, p.2)) = some (inner, rest) := by
      intro j hj
      obtain ⟨inner, rest, hclose⟩ := ih hj
      exact ⟨c :: inner, rest, by rw [hclose]; rfl⟩
    rcases paren_cases c with rfl | rfl | hc
    · exact step (k + 1) h
    · cases k with
      | zero => exact ⟨[], s, rfl⟩
      | succ k => exact step k h
    · rw [openAfter?_cons_of_not_isParen hc] at h
      rw [isParen_eq_false_iff] at hc
      simpa [closeGroup?, hc.1, hc.2] using step k h

theorem eq_of_closeGroup?_eq_some {d : Nat} {s inner rest : List Char}
    (h : closeGroup? d s = some (inner, rest)) :
    s = inner ++ ')' :: rest ∧ openAfter? d inner = some 0 := by
  induction s generalizing d inner with
  | nil => exact absurd h (by simp [closeGroup?])
  | cons c s ih =>
    -- a character that closes nothing here stands in front of what the rest of the scan found
    have step : ∀ e, (closeGroup? e s).map (fun p => (c :: p.1, p.2)) = some (inner, rest) →
        (∀ t, openAfter? d (c :: t) = openAfter? e t) →
        c :: s = inner ++ ')' :: rest ∧ openAfter? d inner = some 0 := by
      intro e hmap hd
      obtain ⟨⟨i, r⟩, hir, heq⟩ := Option.map_eq_some_iff.1 hmap
      obtain ⟨rfl, rfl⟩ : c :: i = inner ∧ r = rest := by simpa using heq
      obtain ⟨rfl, ho⟩ := ih hir
      exact ⟨rfl, (hd i).trans ho⟩
    rcases paren_cases c with rfl | rfl | hc
    · exact step (d + 1) h fun t => openAfter?_open d t
    · cases d with
      | zero =>
        obtain ⟨rfl, rfl⟩ : [] = inner ∧ s = rest := by simpa [closeGroup?] using h
        exact ⟨rfl, rfl⟩
      | succ d => exact step d h fun t => openAfter?_close_succ d t
    · refine step d ?_ fun t => openAfter?_cons_of_not_isParen hc d t
      rw [isParen_eq_false_iff] at hc
      simpa [closeGroup?, hc.1, hc.2] using h

/-- A text is enclosed if a balanced one stands between its first and its last character, and
these are parentheses. -/
theorem enclosed?_eq_some_iff {s c : List Char} :
    enclosed? s = some c ↔ s = '(' :: c ++ [')'] ∧ Balanced c := by
  constructor
  · intro h
    unfold enclosed? at h
    split at h
    · next s =>
      split at h
      · next inner hclose =>
        obtain rfl : inner = c := by simpa using h
        obtain ⟨rfl, ho⟩ := eq_of_closeGroup?_eq_some hclose
        exact ⟨rfl, balanced_iff.2 ho⟩
      · exact absurd h (by simp)
    · exact absurd h (by simp)
  · intro ⟨hs, hc⟩
    rw [hs]
    simp [enclosed?, closeGroup?_append (balanced_iff.1 hc)]

theorem enclosed?_eq_none_of_not_hasParen {s : List Char} (h : hasParen s = false) :
    enclosed? s = none := by
  cases he : enclosed? s with
  | none => rfl
  | some c =>
    obtain ⟨rfl, -⟩ := enclosed?_eq_some_iff.1 he
    exact absurd h (by simp [hasParen])

/-- The partner of a first `(` stands where the count is back at 0 for the first time, so nothing
is enclosed that a balanced text is only a part of. -/
theorem enclosed?_append_eq_none {s t : List Char} (hs : Balanced s) (hne : s ≠ [])
    (ht : t ≠ []) : enclosed? (s ++ t) = none := by
  cases h : enclosed? (s ++ t) with
  | none => rfl
  | some c =>
    obtain ⟨heq, hc⟩ := enclosed?_eq_some_iff.1 h
    obtain ⟨d, s', rfl⟩ := List.exists_cons_of_ne_nil hne
    obtain ⟨t', x, rfl⟩ := (List.eq_nil_or_concat t).resolve_left ht
    rw [List.concat_eq_append, List.cons_append, List.cons_append, ← List.append_assoc] at heq
    obtain ⟨rfl, hrest⟩ := List.cons.inj heq
    obtain ⟨rfl, -⟩ := List.append_inj' hrest rfl
    have hopen : openAfter? 1 s' = some 0 := hs.openAfter? 0
    have hcount := hc.openAfter? 0
    rw [openAfter?_append] at hcount
    cases hs' : openAfter? 0 s' with
    | none => exact absurd hcount (by rw [hs']; simp)
    | some k => exact absurd hopen (by rw [openAfter?_add hs' 1]; simp)

theorem strip_of_enclosed?_eq_none {s : List Char} (h : enclosed? (trim s) = none) :
    strip s = s := by
  rw [strip, h]
  rfl

/-- A text is stripped of the pair that encloses it, and otherwise left alone. -/
theorem strip_cases (s : List Char) :
    (∃ c, trim s = '(' :: c ++ [')'] ∧ Balanced c ∧ strip s = c) ∨
      (enclosed? (trim s) = none ∧ strip s = s) := by
  cases h : enclosed? (trim s) with
  | none => exact Or.inr ⟨rfl, strip_of_enclosed?_eq_none h⟩
  | some c =>
    obtain ⟨htrim, hc⟩ := enclosed?_eq_some_iff.1 h
    exact Or.inl ⟨c, htrim, hc, by rw [strip, h]; rfl⟩

theorem strip_of_trim_eq_group {s c : List Char} (htrim : trim s = '(' :: c ++ [')'])
    (hc : Balanced c) : strip s = c := by
  unfold strip
  rw [enclosed?_eq_some_iff.2 ⟨htrim, hc⟩]
  rfl

theorem strip_group {c : List Char} (h : Balanced c) : strip ('(' :: c ++ [')']) = c :=
  strip_of_trim_eq_group (Text.solid_group c).trim_eq h

theorem balanced_strip {s : List Char} (h : Balanced s) : Balanced (strip s) := by
  rcases strip_cases s with ⟨c, -, hc, hs⟩ | ⟨-, hs⟩
  · rwa [hs]
  · rwa [hs]

end BooleanQuery.Paren
