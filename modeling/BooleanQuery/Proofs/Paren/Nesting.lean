import Mathlib.Data.List.Infix
import Mathlib.Data.List.MinMax
import Mathlib.Order.Nat
import BooleanQuery.Proofs.Paren.Balance

/-!
# How deep parentheses are nested

`nesting s` is the greatest number by which the `(` of a prefix of `s` outnumber its `)`. It is
defined by the prefixes because that is what it means; the proofs go through one equation for each
kind of first character, and through `Balanced.nesting_append`: two texts one after another are
nested as deep as the deeper one of them, provided that the first is balanced. A pair of
parentheses adds one (`Balanced.nesting_group`).
-/

set_option autoImplicit false

namespace BooleanQuery.Paren

open Text (trim collapse isBlankText)

/-- The greatest surplus of `(` over `)` in a prefix. The empty prefix has none, so that a prefix
with more `)` than `(` may count as one without surplus. -/
def nesting (s : List Char) : Nat :=
  (s.inits.map fun p => p.count '(' - p.count ')').foldr max 0

theorem nesting_le_iff {s : List Char} {n : Nat} :
    nesting s ≤ n ↔ ∀ p, p <+: s → p.count '(' ≤ p.count ')' + n := by
  constructor
  · intro h p hp
    have hmem := List.mem_map_of_mem (f := fun p => p.count '(' - p.count ')')
      ((List.mem_inits p s).2 hp)
    exact Nat.sub_le_iff_le_add'.1 (Nat.le_trans (List.le_max_of_le hmem (Nat.le_refl _)) h)
  · intro h
    apply List.max_le_of_forall_le
    intro k hk
    obtain ⟨p, hp, rfl⟩ := List.mem_map.1 hk
    exact Nat.sub_le_iff_le_add'.2 (h p ((List.mem_inits p s).1 hp))

/-! ## One equation for each first character -/

@[simp] theorem nesting_nil : nesting [] = 0 := rfl

@[simp] theorem nesting_open (s : List Char) : nesting ('(' :: s) = nesting s + 1 := by
  apply Nat.le_antisymm
  · apply nesting_le_iff.2
    intro p hp
    rcases List.prefix_cons_iff.1 hp with rfl | ⟨t, rfl, ht⟩
    · simp
    · have := nesting_le_iff.1 (Nat.le_refl (nesting s)) t ht
      simp only [List.count_cons_self, count_close_cons_open]
      omega
  · have hall := nesting_le_iff.1 (Nat.le_refl (nesting ('(' :: s)))
    have hpos : 1 ≤ nesting ('(' :: s) := by
      simpa using hall ['('] (by simp)
    suffices h : nesting s ≤ nesting ('(' :: s) - 1 by omega
    apply nesting_le_iff.2
    intro p hp
    have := hall ('(' :: p) (by simpa using hp)
    simp only [List.count_cons_self, count_close_cons_open] at this
    omega

@[simp] theorem nesting_close (s : List Char) : nesting (')' :: s) = nesting s - 1 := by
  apply Nat.le_antisymm
  · apply nesting_le_iff.2
    intro p hp
    rcases List.prefix_cons_iff.1 hp with rfl | ⟨t, rfl, ht⟩
    · simp
    · have := nesting_le_iff.1 (Nat.le_refl (nesting s)) t ht
      simp only [List.count_cons_self, count_open_cons_close]
      omega
  · -- the bound that is to be proved may be 0 where a prefix of the rest has a surplus of one
    suffices h : nesting s ≤ nesting (')' :: s) + 1 by omega
    apply nesting_le_iff.2
    intro p hp
    have := nesting_le_iff.1 (Nat.le_refl (nesting (')' :: s))) (')' :: p) (by simpa using hp)
    simp only [List.count_cons_self, count_open_cons_close] at this
    omega

theorem nesting_cons_of_not_isParen {c : Char} (h : isParen c = false) (s : List Char) :
    nesting (c :: s) = nesting s := by
  rw [isParen_eq_false_iff] at h
  apply Nat.le_antisymm
  · apply nesting_le_iff.2
    intro p hp
    rcases List.prefix_cons_iff.1 hp with rfl | ⟨t, rfl, ht⟩
    · simp
    · have := nesting_le_iff.1 (Nat.le_refl (nesting s)) t ht
      rwa [List.count_cons_of_ne h.1, List.count_cons_of_ne h.2]
  · apply nesting_le_iff.2
    intro p hp
    have := nesting_le_iff.1 (Nat.le_refl (nesting (c :: s))) (c :: p) (by simpa using hp)
    rwa [List.count_cons_of_ne h.1, List.count_cons_of_ne h.2] at this

/-! ## Texts with the same parentheses -/

theorem nesting_skeleton (s : List Char) : nesting (skeleton s) = nesting s := by
  induction s with
  | nil => rfl
  | cons c s ih =>
    rcases paren_cases c with rfl | rfl | hc
    · rw [nesting_open, ← ih, ← nesting_open]
      rfl
    · rw [nesting_close, ← ih, ← nesting_close]
      rfl
    · rw [nesting_cons_of_not_isParen hc, ← ih]
      simp [skeleton, hc]

theorem nesting_congr {s t : List Char} (h : skeleton s = skeleton t) : nesting s = nesting t := by
  rw [← nesting_skeleton s, h, nesting_skeleton]

@[simp] theorem nesting_collapse (s : List Char) : nesting (collapse s) = nesting s :=
  nesting_congr (skeleton_collapse s)

@[simp] theorem nesting_trim (s : List Char) : nesting (trim s) = nesting s :=
  nesting_congr (skeleton_trim s)

theorem nesting_eq_zero {s : List Char} (h : skeleton s = []) : nesting s = 0 :=
  nesting_congr (t := []) h

/-! ## Texts one after another -/

/-- The second text is nested as deep as the first one leaves off. -/
theorem nesting_append {d e : Nat} {s : List Char} (h : openAfter? d s = some e)
    (t : List Char) : nesting (s ++ t) + d = max (nesting s + d) (nesting t + e) := by
  induction s generalizing d with
  | nil =>
    obtain rfl : d = e := by simpa using h
    simp
  | cons c s ih =>
    rcases paren_cases c with rfl | rfl | hc
    · have := ih (d := d + 1) h
      simp only [List.cons_append, nesting_open]
      omega
    · cases d with
      | zero => exact absurd h (by simp)
      | succ d =>
        have := ih (d := d) h
        simp only [List.cons_append, nesting_close]
        omega
    · rw [openAfter?_cons_of_not_isParen hc] at h
      have := ih h
      rwa [List.cons_append, nesting_cons_of_not_isParen hc, nesting_cons_of_not_isParen hc]

theorem Balanced.nesting_append {s : List Char} (h : Balanced s) (t : List Char) :
    nesting (s ++ t) = max (nesting s) (nesting t) := by
  simpa using Paren.nesting_append (h.openAfter? 0) t

theorem Balanced.nesting_group {s : List Char} (h : Balanced s) :
    nesting ('(' :: s ++ [')']) = nesting s + 1 := by
  rw [List.cons_append, nesting_open, h.nesting_append]
  simp

theorem nesting_of_trim_eq_group {s c : List Char} (htrim : trim s = '(' :: c ++ [')'])
    (hc : Balanced c) : nesting s = nesting c + 1 := by
  rw [← nesting_trim, htrim, hc.nesting_group]

/-- Stripping takes away the outermost level at most. -/
theorem nesting_strip_le (s : List Char) : nesting (strip s) ≤ nesting s := by
  rcases strip_cases s with ⟨c, htrim, hc, hs⟩ | ⟨-, hs⟩
  · rw [hs, nesting_of_trim_eq_group htrim hc]
    exact Nat.le_succ _
  · rw [hs]

/-- No text is nested deeper than it has groups to open. -/
theorem nesting_le_count (s : List Char) : nesting s ≤ s.count '(' :=
  nesting_le_iff.2 fun p hp => by
    have := hp.sublist.count_le '('
    omega

end BooleanQuery.Paren
