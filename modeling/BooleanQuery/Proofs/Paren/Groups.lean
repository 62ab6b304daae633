import BooleanQuery.Proofs.Paren.Balance

/-!
# Groups

A group of a text is what stands between a `(` of it and the partner of that `(`: a balanced text
with a parenthesis on either side (`IsGroup`). A group of a group is a group of the whole text.
`groups` lists them by the places of their `(`, each with its level; a text that is made of balanced
ones has the groups of these, one after another (`Balanced.groups_append`).

Collapsing loses no groups and makes none. The groups of the collapsed text are the groups of the
text, collapsed (`IsGroup.collapse`, `IsGroup.of_collapse`), and a text is enclosed, white space
around it aside, exactly when it is so after it is collapsed (`enclosed?_trim_collapse`). So a text
may be collapsed before it is stripped or after (`strip_collapse`).
-/

set_option autoImplicit false

namespace BooleanQuery.Paren

open Text (trim collapse)

/-- Between a `(` of `s` and its partner stands `c`. -/
structure IsGroup (c s : List Char) : Prop where
  balanced : Balanced c
  part : '(' :: c ++ [')'] <:+: s

namespace IsGroup

variable {c d s t : List Char}

theorem mono (h : IsGroup c s) (hs : s <:+: t) : IsGroup c t :=
  ⟨h.balanced, h.part.trans hs⟩

theorem content (h : IsGroup c s) : c <:+: s :=
  (Text.infix_group c).trans h.part

theorem trans (h : IsGroup c d) (hd : IsGroup d s) : IsGroup c s :=
  h.mono hd.content

end IsGroup

/-! ## The groups from left to right -/

/-- A group as it is found in a text. -/
structure Group where
  /-- One more than the number of groups that it stands in. -/
  level : Nat
  /-- What stands from the `(` to its partner, both included. -/
  text : List Char
deriving DecidableEq, Repr

/-- The text from a `(` to its partner, when `s` is what follows the `(`. Without a partner it goes
on to the end. -/
def fromOpen (s : List Char) : List Char :=
  match closeGroup? 0 s with
  | some (inner, _) => '(' :: inner ++ [')']
  | none => '(' :: s

/-- One group for each `(` of a text in front of which `depth` groups are open. -/
def groups : (depth : Nat) → List Char → List Group
  | _, [] => []
  | depth, c :: s =>
    if c = '(' then ⟨depth + 1, fromOpen s⟩ :: groups (depth + 1) s
    else if c = ')' then groups (depth - 1) s
    else groups depth s

theorem length_groups (depth : Nat) (s : List Char) :
    (groups depth s).length = s.count '(' := by
  induction s generalizing depth with
  | nil => rfl
  | cons c s ih =>
    rcases paren_cases c with rfl | rfl | hc
    · rw [groups, if_pos rfl, List.length_cons, List.count_cons_self, ih]
    · rw [groups, if_neg (by decide), if_pos rfl, ih, count_open_cons_close]
    · rw [isParen_eq_false_iff] at hc
      rw [groups, if_neg hc.1, if_neg hc.2, ih, List.count_cons_of_ne hc.1]

theorem fromOpen_of_balanced {c : List Char} (h : Balanced c) (t : List Char) :
    fromOpen (c ++ ')' :: t) = '(' :: c ++ [')'] := by
  rw [fromOpen, closeGroup?_append (balanced_iff.1 h)]

theorem fromOpen_append {d : Nat} {s : List Char} (h : openAfter? (d + 1) s = some 0)
    (t : List Char) : fromOpen (s ++ t) = fromOpen s := by
  obtain ⟨inner, rest, hclose⟩ := exists_closeGroup? (d := d) (k := 0) h
  obtain ⟨rfl, hopen⟩ := eq_of_closeGroup?_eq_some hclose
  rw [List.append_assoc, List.cons_append, fromOpen_of_balanced (balanced_iff.2 hopen),
    fromOpen_of_balanced (balanced_iff.2 hopen)]

/-- Of two texts one after another, the second leaves the groups of the first as they are if the
first one closes all groups that it opens, and closes `k` others with them. -/
theorem groups_append {d k : Nat} {s : List Char} (h : openAfter? k s = some 0) (t : List Char) :
    groups (d + k) (s ++ t) = groups (d + k) s ++ groups d t := by
  induction s generalizing k with
  | nil =>
    obtain rfl : k = 0 := by simpa using h
    rfl
  | cons c s ih =>
    rcases paren_cases c with rfl | rfl | hc
    · have hrest : groups (d + k + 1) (s ++ t) = groups (d + k + 1) s ++ groups d t :=
        ih (k := k + 1) h
      rw [List.cons_append, groups, if_pos rfl, groups, if_pos rfl, fromOpen_append h, hrest,
        List.cons_append]
    · cases k with
      | zero => exact absurd h (by simp)
      | succ k => exact ih (k := k) h
    · rw [openAfter?_cons_of_not_isParen hc] at h
      rw [isParen_eq_false_iff] at hc
      rw [List.cons_append, groups, if_neg hc.1, if_neg hc.2, ih h, groups, if_neg hc.1,
        if_neg hc.2]

theorem Balanced.groups_append {s : List Char} (h : Balanced s) (d : Nat) (t : List Char) :
    groups d (s ++ t) = groups d s ++ groups d t :=
  Paren.groups_append (k := 0) (balanced_iff.1 h) t

theorem groups_of_not_hasParen {s : List Char} (h : hasParen s = false) (d : Nat) :
    groups d s = [] := by
  rw [← List.length_eq_zero_iff, length_groups, List.count_eq_zero]
  intro hmem
  exact absurd (List.any_eq_false.1 h _ hmem) (by simp)

theorem Balanced.groups_group {c : List Char} (h : Balanced c) (d : Nat) :
    groups d ('(' :: c ++ [')']) = ⟨d + 1, '(' :: c ++ [')']⟩ :: groups (d + 1) c := by
  have hclose : groups (d + 1) [')'] = [] := rfl
  rw [List.cons_append, groups, if_pos rfl, fromOpen_of_balanced h, h.groups_append, hclose,
    List.append_nil]
  rfl

theorem groups_trim {s : List Char} (h : Balanced s) (d : Nat) :
    groups d (trim s) = groups d s := by
  obtain ⟨l, r, hs, hl, hr⟩ := Text.exists_trim s
  have blank : ∀ {b : List Char}, Text.isBlankText b = true → hasParen b = false := fun hb =>
    hasParen_eq_false_iff.2 (skeleton_of_isBlankText hb)
  have hl' := balanced_of_not_hasParen (blank hl)
  have ht : Balanced (trim s) := balanced_trim.2 h
  rw [congrArg (groups d) hs, List.append_assoc, hl'.groups_append, ht.groups_append,
    groups_of_not_hasParen (blank hl), groups_of_not_hasParen (blank hr), List.nil_append,
    List.append_nil]

/-! ## Groups of a collapsed text -/

theorem exists_group_of_collapse {s u c v : List Char}
    (h : collapse s = u ++ ('(' :: c ++ [')']) ++ v) :
    ∃ u' c' v', s = u' ++ ('(' :: c' ++ [')']) ++ v' ∧
      collapse u' = u ∧ collapse c' = c ∧ collapse v' = v := by
  have hopen : collapse s = u ++ '(' :: (c ++ ')' :: v) := by simp [h]
  obtain ⟨u', w, rfl, hu, hw⟩ := Text.exists_of_collapse_eq_append Text.isBlank_openParen hopen
  obtain ⟨c', v', rfl, hc, hv⟩ := Text.exists_of_collapse_eq_append Text.isBlank_closeParen hw
  exact ⟨u', c', v', by simp, hu, hc, hv⟩

theorem IsGroup.collapse {c s : List Char} (h : IsGroup c s) :
    IsGroup (Text.collapse c) (Text.collapse s) := by
  obtain ⟨hc, u, v, rfl⟩ := h
  refine ⟨balanced_collapse.2 hc, Text.collapse u, Text.collapse v, ?_⟩
  rw [(Text.solid_group c).collapse_append_append, Text.collapse_group]

theorem IsGroup.of_collapse {c s : List Char} (h : IsGroup c (Text.collapse s)) :
    ∃ d, IsGroup d s ∧ Text.collapse d = c := by
  obtain ⟨u, v, hs⟩ := h.part
  obtain ⟨u', d, v', rfl, -, rfl, -⟩ := exists_group_of_collapse hs.symm
  exact ⟨d, ⟨balanced_collapse.1 h.balanced, u', v', rfl⟩, rfl⟩

theorem enclosed?_trim_collapse (s : List Char) :
    enclosed? (trim (collapse s)) = (enclosed? (trim s)).map collapse := by
  rw [Text.trim_collapse]
  cases h : enclosed? (trim s) with
  | some c =>
    obtain ⟨htrim, hc⟩ := enclosed?_eq_some_iff.1 h
    exact enclosed?_eq_some_iff.2 ⟨by rw [htrim, Text.collapse_group], balanced_collapse.2 hc⟩
  | none =>
    cases h' : enclosed? (collapse (trim s)) with
    | none => rfl
    | some c =>
      -- the pair that encloses the collapsed text would enclose the text as well
      obtain ⟨hgroup, hc⟩ := enclosed?_eq_some_iff.1 h'
      obtain ⟨u, c', v, htrim, hu, rfl, hv⟩ :=
        exists_group_of_collapse (u := []) (v := []) (by simpa using hgroup)
      obtain rfl := Text.collapse_eq_nil_iff.1 hu
      obtain rfl := Text.collapse_eq_nil_iff.1 hv
      have henc := enclosed?_eq_some_iff.2 ⟨rfl, balanced_collapse.1 hc⟩
      rw [htrim, List.nil_append, List.append_nil, henc] at h
      exact absurd h (by simp)

/-- A collapsed text is stripped as the text is. -/
theorem strip_collapse (s : List Char) : strip (collapse s) = collapse (strip s) := by
  rw [strip, enclosed?_trim_collapse, Option.getD_map, ← strip]

end BooleanQuery.Paren
