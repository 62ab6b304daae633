import BooleanQuery.Text.Span

/-!
# Spans that can be sliced

A span can only be sliced where it begins and ends between characters. A slice then is what stands
at the span's place (`Span.Within.exists_append`).
-/

set_option autoImplicit false

namespace BooleanQuery.Text

/-- The offset is none inside of a character. -/
def IsBoundary (n : Nat) (s : List Char) : Prop := ∃ t u, s = t ++ u ∧ byteLength t = n

/-- The span covers whole characters of the text, maybe none. -/
structure Span.Within (span : Span) (s : List Char) : Prop where
  start_le_stop : span.start ≤ span.stop
  stop_le : span.stop ≤ byteLength s
  start_boundary : IsBoundary span.start s
  stop_boundary : IsBoundary span.stop s

theorem isBoundary_byteLength (t u : List Char) : IsBoundary (byteLength t) (t ++ u) :=
  ⟨t, u, rfl, rfl⟩

theorem IsBoundary.le {n : Nat} {s : List Char} (h : IsBoundary n s) : n ≤ byteLength s := by
  obtain ⟨t, u, rfl, rfl⟩ := h
  rw [byteLength_append]
  exact Nat.le_add_right _ _

theorem IsBoundary.within {m n : Nat} {s : List Char} (hm : IsBoundary m s) (hn : IsBoundary n s)
    (h : m ≤ n) : (Span.mk m n).Within s :=
  ⟨h, hn.le, hm, hn⟩

/-- What a span covers stands at its place. -/
theorem Span.Within.exists_append {span : Span} {t u : List Char} (h : span.Within (t ++ u))
    (hstart : span.start = byteLength t) :
    ∃ v, u = span.slice (t ++ u) ++ v ∧
      span.stop = byteLength t + byteLength (span.slice (t ++ u)) := by
  obtain ⟨start, stop⟩ := span
  obtain rfl : start = byteLength t := hstart
  obtain ⟨t', u', happ, hlen⟩ := h.stop_boundary
  obtain rfl : byteLength t' = stop := hlen
  have hle : byteLength t ≤ byteLength t' := h.start_le_stop
  have hprefix : ∃ w, t' = t ++ w ∧ u = w ++ u' := by
    rcases List.append_eq_append_iff.1 happ with ⟨w, ht', hu⟩ | ⟨w, ht, hu'⟩
    · exact ⟨w, ht', hu⟩
    · -- the span would end in front of where it begins
      rw [ht, byteLength_append] at hle
      obtain rfl : w = [] := byteLength_eq_zero_iff.1 (by omega)
      exact ⟨[], by simpa using ht.symm, by simpa using hu'.symm⟩
  obtain ⟨w, rfl, rfl⟩ := hprefix
  rw [byteLength_append, slice_append]
  exact ⟨u', rfl, rfl⟩

end BooleanQuery.Text
