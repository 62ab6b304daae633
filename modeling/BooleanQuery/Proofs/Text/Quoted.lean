import Mathlib.Data.List.Basic
import BooleanQuery.Proofs.Text.Trim
import BooleanQuery.Text.Quoted

/-!
# What a quoted text shows

A text is quoted so that it can be told from the words around it. Every character of a quoted text
is printable (`isUnprintable_of_mem_quoted`), and the plain space is the only white space in it
(`eq_space_of_mem_quoted`), so that it stands on one line whatever was quoted.

Nothing is lost by it either. A character is written in a way that no other one begins with
(`escape_append_inj`), and none begins with the closing quote. So a text that begins with a quoted
one does so in one way only (`quoted_append_inj`), and what follows can be anything.
-/

set_option autoImplicit false

namespace BooleanQuery.Text

variable {c d : Char} {s t u v : List Char}

/-! ## Printable characters -/

theorem isUnprintable_of_ascii (h : 0x20 ≤ c.toNat ∧ c.toNat < 0x7F) : isUnprintable c = false := by
  have htable : ∀ r ∈ unprintableRanges, r.2 < 0x20 ∨ 0x7F ≤ r.1 := by decide +kernel
  obtain ⟨hlo, hhi⟩ := h
  apply Bool.eq_false_iff.2
  intro hc
  obtain ⟨r, hr, hstart, hstop⟩ := isUnprintable_iff.1 hc
  rcases htable r hr with hbelow | habove
  · exact Nat.not_lt.2 (Nat.le_trans hlo hstop) hbelow
  · exact Nat.not_lt.2 (Nat.le_trans habove hstart) hhi

theorem isUnprintable_of_mem_ascii (hs : s.all fun c => 0x20 ≤ c.toNat ∧ c.toNat < 0x7F)
    (h : c ∈ s) : isUnprintable c = false :=
  isUnprintable_of_ascii (of_decide_eq_true (List.all_eq_true.1 hs c h))

/-- White space is unprintable, the plain space excepted. -/
theorem isUnprintable_of_isBlank (h : isBlank c) (hc : c ≠ ' ') : isUnprintable c := by
  have htable : ∀ r ∈ blankRanges,
      r = (0x20, 0x20) ∨ ∃ r' ∈ unprintableRanges, r'.1 ≤ r.1 ∧ r.2 ≤ r'.2 := by
    decide +kernel
  obtain ⟨r, hr, hstart, hstop⟩ := isBlank_iff.1 h
  rcases htable r hr with rfl | ⟨r', hr', hstart', hstop'⟩
  · have hspace : c.toNat = ' '.toNat := Nat.le_antisymm hstop hstart
    exact absurd (Char.toNat_inj.1 hspace) hc
  · exact isUnprintable_iff.2
      ⟨r', hr', Nat.le_trans hstart' hstart, Nat.le_trans hstop hstop'⟩

/-! ## Code points -/

/-- A code point is written in hexadecimal digits. -/
theorem exists_of_mem_toDigits {n : Nat} (h : d ∈ Nat.toDigits 16 n) :
    ∃ k, k < 16 ∧ d = Nat.digitChar k := by
  induction n using Nat.strongRecOn with
  | ind n ih =>
    rw [Nat.toDigits_eq_if (by decide)] at h
    split at h
    · next hn => exact ⟨n, hn, List.mem_singleton.1 h⟩
    · next hn =>
      rcases List.mem_append.1 h with h | h
      · exact ih (n / 16) (Nat.div_lt_self (Nat.lt_of_lt_of_le (by decide) (Nat.not_lt.1 hn))
          (by decide)) h
      · exact ⟨n % 16, Nat.mod_lt n (by decide), List.mem_singleton.1 h⟩

theorem digitChar_inj : ∀ i < 16, ∀ j < 16, Nat.digitChar i = Nat.digitChar j → i = j := by
  decide

theorem toDigits_injective : Function.Injective (Nat.toDigits 16) := by
  intro n
  induction n using Nat.strongRecOn with
  | ind n ih =>
    intro m h
    rw [Nat.toDigits_eq_if (by decide), Nat.toDigits_eq_if (n := m) (by decide)] at h
    -- a number of one digit has no digit in front of the last one
    have hshort : ∀ k : Nat, ¬ (Nat.toDigits 16 k).length = 0 := fun k =>
      Nat.ne_of_gt Nat.length_toDigits_pos
    split at h
    · next hn =>
      split at h
      · next hm => exact digitChar_inj n hn m hm (List.singleton_inj.1 h)
      · exact absurd (congrArg List.length h) (by simp [hshort])
    · next hn =>
      split at h
      · exact absurd (congrArg List.length h) (by simp [hshort])
      · obtain ⟨hdiv, hmod⟩ := List.append_singleton_inj.1 h
        have hlast := digitChar_inj _ (Nat.mod_lt n (by decide)) _ (Nat.mod_lt m (by decide)) hmod
        have hfront := ih (n / 16) (by omega) hdiv
        omega

theorem isUnprintable_of_mem_codePoint (h : d ∈ codePoint c) : isUnprintable d = false := by
  have hascii : ∀ k < 16, 0x20 ≤ (Nat.digitChar k).toNat ∧ (Nat.digitChar k).toNat < 0x7F := by
    decide
  obtain ⟨k, hk, rfl⟩ := exists_of_mem_toDigits h
  exact isUnprintable_of_ascii (hascii k hk)

theorem codePoint_append_inj (h : codePoint c ++ '}' :: u = codePoint d ++ '}' :: v) :
    c = d ∧ u = v := by
  have hbrace : ∀ e : Char, '}' ∉ codePoint e := by
    intro e he
    obtain ⟨k, -, hk⟩ := exists_of_mem_toDigits he
    exact Nat.digitChar_ne '}' rfl hk.symm
  obtain ⟨hdigits, huv⟩ := append_cons_inj (hbrace c) (hbrace d) h
  exact ⟨Char.toNat_inj.1 (toDigits_injective hdigits), huv⟩

/-! ## One character -/

/-- The character that a letter behind a backslash stands for. -/
def ofLetter : Char → Char
  | 'n' => '\n'
  | 'r' => '\r'
  | 't' => '\t'
  | '0' => '\x00'
  | x => x

/-- A character is written with a letter, with its code point, or as it is. -/
theorem escape_cases (c : Char) :
    (∃ x ∈ ['"', '\\', 'n', 'r', 't', '0'], escape c = ['\\', x] ∧ c = ofLetter x) ∨
    escape c = ['\\', 'u', '{'] ++ codePoint c ++ ['}'] ∨
    (escape c = [c] ∧ c ≠ '\\' ∧ c ≠ '"' ∧ isUnprintable c = false) := by
  unfold escape
  split_ifs with hquote hbackslash hn hr ht h0 hshown
  · exact Or.inl ⟨'"', by simp, rfl, hquote⟩
  · exact Or.inl ⟨'\\', by simp, rfl, hbackslash⟩
  · exact Or.inl ⟨'n', by simp, rfl, hn⟩
  · exact Or.inl ⟨'r', by simp, rfl, hr⟩
  · exact Or.inl ⟨'t', by simp, rfl, ht⟩
  · exact Or.inl ⟨'0', by simp, rfl, h0⟩
  · exact Or.inr (Or.inl rfl)
  · exact Or.inr (Or.inr ⟨rfl, hbackslash, hquote, Bool.eq_false_iff.2 hshown⟩)

/-- No character is written in a way that another one, written out, begins with. -/
theorem escape_append_inj (h : escape c ++ u = escape d ++ v) : c = d ∧ u = v := by
  rcases escape_cases c with ⟨x, hx, hc, rfl⟩ | hc | ⟨hc, hbackslash, -, -⟩
  · rcases escape_cases d with ⟨y, -, hd, rfl⟩ | hd | ⟨hd, hbackslash, -, -⟩
    · rw [hc, hd] at h
      obtain ⟨rfl, huv⟩ : x = y ∧ u = v := by simpa using h
      exact ⟨rfl, huv⟩
    · -- no letter is the one that a code point is written with
      rw [hc, hd] at h
      obtain ⟨rfl, -⟩ : x = 'u' ∧ _ := by simpa using h
      exact absurd hx (by decide)
    · rw [hc, hd] at h
      exact absurd (List.cons.inj h).1.symm hbackslash
  · rcases escape_cases d with ⟨y, hy, hd, rfl⟩ | hd | ⟨hd, hbackslash, -, -⟩
    · rw [hc, hd] at h
      obtain ⟨rfl, -⟩ : 'u' = y ∧ _ := by simpa using h
      exact absurd hy (by decide)
    · rw [hc, hd] at h
      exact codePoint_append_inj (by simpa using h)
    · rw [hc, hd] at h
      exact absurd (List.cons.inj h).1.symm hbackslash
  · rcases escape_cases d with ⟨y, -, hd, -⟩ | hd | ⟨hd, -, -, -⟩
    · rw [hc, hd] at h
      exact absurd (List.cons.inj h).1 hbackslash
    · rw [hc, hd] at h
      exact absurd (List.cons.inj h).1 hbackslash
    · rw [hc, hd] at h
      exact List.cons.inj h

theorem isUnprintable_of_mem_escape (h : d ∈ escape c) : isUnprintable d = false := by
  rcases escape_cases c with ⟨x, hx, hc, -⟩ | hc | ⟨hc, -, -, hprintable⟩
  · rw [hc] at h
    rcases List.mem_cons.1 h with rfl | h
    · exact isUnprintable_of_ascii (by decide)
    · rw [List.mem_singleton.1 h]
      exact isUnprintable_of_mem_ascii (by decide) hx
  · rw [hc] at h
    rcases List.mem_append.1 h with h | h
    · rcases List.mem_append.1 h with h | h
      · exact isUnprintable_of_mem_ascii (by decide) h
      · exact isUnprintable_of_mem_codePoint h
    · exact isUnprintable_of_mem_ascii (by decide) h
  · rw [hc] at h
    rwa [List.mem_singleton.1 h]

/-! ## A text -/

theorem isUnprintable_of_mem_quoted (h : d ∈ quoted s) : isUnprintable d = false := by
  have hquote : isUnprintable '"' = false := isUnprintable_of_ascii (by decide)
  rcases List.mem_append.1 h with h | h
  · rcases List.mem_cons.1 h with rfl | h
    · exact hquote
    · obtain ⟨c, -, hd⟩ := List.mem_flatMap.1 h
      exact isUnprintable_of_mem_escape hd
  · rw [List.mem_singleton.1 h]
    exact hquote

/-- The only white space of a quoted text is the plain space. -/
theorem eq_space_of_mem_quoted (h : d ∈ quoted s) (hd : isBlank d) : d = ' ' := by
  by_contra hspace
  have hprintable := isUnprintable_of_mem_quoted h
  rw [isUnprintable_of_isBlank hd hspace] at hprintable
  exact absurd hprintable (by simp)

/-- The quote that ends a text is the first one in it that is no part of a character. -/
theorem escapes_append_inj (h : s.flatMap escape ++ '"' :: u = t.flatMap escape ++ '"' :: v) :
    s = t ∧ u = v := by
  have hquote : ∀ (e : Char) (x y : List Char), '"' :: x ≠ escape e ++ y := by
    intro e x y hxy
    rcases escape_cases e with ⟨z, -, he, -⟩ | he | ⟨he, -, hne, -⟩
    · rw [he] at hxy
      exact absurd (List.cons.inj hxy).1 (by decide)
    · rw [he] at hxy
      exact absurd (List.cons.inj hxy).1 (by decide)
    · rw [he] at hxy
      exact hne (List.cons.inj hxy).1.symm
  induction s generalizing t with
  | nil =>
    cases t with
    | nil => exact ⟨rfl, (List.cons.inj h).2⟩
    | cons d t =>
      rw [List.flatMap_cons, List.append_assoc] at h
      exact absurd h (hquote d _ _)
  | cons c s ih =>
    cases t with
    | nil =>
      rw [List.flatMap_cons, List.append_assoc] at h
      exact absurd h.symm (hquote c _ _)
    | cons d t =>
      rw [List.flatMap_cons, List.flatMap_cons, List.append_assoc, List.append_assoc] at h
      obtain ⟨rfl, hrest⟩ := escape_append_inj h
      obtain ⟨rfl, huv⟩ := ih hrest
      exact ⟨rfl, huv⟩

/-- Where a quoted text stands in front, it can be told what was quoted and where it ends. -/
theorem quoted_append_inj (h : quoted s ++ u = quoted t ++ v) : s = t ∧ u = v := by
  apply escapes_append_inj
  simpa [quoted] using h

end BooleanQuery.Text
