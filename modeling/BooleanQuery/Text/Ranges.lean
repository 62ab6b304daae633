/-!
# Ranges of code points

A property of characters is kept as its ranges of code points, in ascending order. The order is
what lets a lookup stop at the first range that starts beyond the character: `covers_iff` says
that nothing is missed by it.
-/

set_option autoImplicit false

namespace BooleanQuery.Text

/-- Closed ranges of code points. -/
abbrev Ranges := List (Nat × Nat)

namespace Ranges

/-- No range ends before it starts, and each ends before the next one starts. -/
def Ascending : Ranges → Prop
  | [] => True
  | [(lo, hi)] => lo ≤ hi
  | (lo, hi) :: (lo', hi') :: rs => lo ≤ hi ∧ hi < lo' ∧ Ascending ((lo', hi') :: rs)

instance decidableAscending : (rs : Ranges) → Decidable (Ascending rs)
  | [] => inferInstanceAs (Decidable True)
  | [(lo, hi)] => inferInstanceAs (Decidable (lo ≤ hi))
  | (lo, hi) :: (lo', hi') :: rs =>
    have := decidableAscending ((lo', hi') :: rs)
    inferInstanceAs (Decidable (lo ≤ hi ∧ hi < lo' ∧ Ascending ((lo', hi') :: rs)))

/-- Whether a code point lies in one of the ranges. -/
def covers : Ranges → Nat → Bool
  | [], _ => false
  | (lo, hi) :: rs, n => if n < lo then false else n ≤ hi || covers rs n

theorem Ascending.tail {r : Nat × Nat} {rs : Ranges} (h : Ascending (r :: rs)) :
    Ascending rs := by
  match rs with
  | [] => trivial
  | _ :: _ => exact h.2.2

/-- A range starts no later than the ranges after it. -/
theorem Ascending.head_le {lo hi : Nat} {rs : Ranges} (h : Ascending ((lo, hi) :: rs)) :
    ∀ r ∈ rs, lo ≤ r.1 := by
  induction rs generalizing lo hi with
  | nil => simp
  | cons s rs ih =>
    obtain ⟨h₁, h₂, h₃⟩ := h
    intro r hr
    rcases List.mem_cons.1 hr with rfl | hr
    · exact Nat.le_trans h₁ (Nat.le_of_lt h₂)
    · exact Nat.le_trans (Nat.le_trans h₁ (Nat.le_of_lt h₂)) (ih h₃ r hr)

theorem covers_iff {rs : Ranges} (h : rs.Ascending) (n : Nat) :
    rs.covers n ↔ ∃ r ∈ rs, r.1 ≤ n ∧ n ≤ r.2 := by
  induction rs with
  | nil => simp [covers]
  | cons r rs ih =>
    obtain ⟨lo, hi⟩ := r
    have hle := h.head_le
    simp only [covers, List.mem_cons, exists_eq_or_imp]
    split
    · next hn =>
      refine ⟨fun hf => by simp at hf, ?_⟩
      rintro (⟨h₁, _⟩ | ⟨r, hr, h₁, _⟩)
      · omega
      · have := hle r hr
        omega
    · next hn =>
      rw [Bool.or_eq_true, ih h.tail, decide_eq_true_iff]
      exact or_congr_left ⟨fun h₂ => ⟨by omega, h₂⟩, And.right⟩

end Ranges

end BooleanQuery.Text
