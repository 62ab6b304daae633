import BooleanQuery.Term
import Mathlib.Data.List.Dedup
import Mathlib.Data.List.Sort
import Mathlib.Data.String.Basic

/-!
# Terms in order

A list of terms is put in ascending order (`sort_ascending`) without a term being lost or added
(`sort_perm`). What comes out depends on nothing but how often each term occurs
(`sort_eq_sort_iff`). It is the same list for a reader that looks at the bytes of the encodings and
not at the code points (`le_iff_toUTF8_le`).

Terms that are the same stand next to each other then. So looking at neighbours is enough to count
how many terms are there a second time (`repeats_sort`).
-/

set_option autoImplicit false

namespace BooleanQuery

/-! ## The order -/

/-- The order of the texts. -/
instance : LinearOrder Term where
  le_refl a := le_refl a.text
  le_trans a b c := le_trans (a := a.text) (b := b.text) (c := c.text)
  le_antisymm := by
    rintro ⟨a⟩ ⟨b⟩ hab hba
    exact congrArg Term.mk (le_antisymm hab hba)
  le_total a b := le_total a.text b.text
  toDecidableLE := inferInstance

/-! ## The order of the encodings -/

section Bytes

open String (utf8EncodeChar)

variable {c d : Char} {s t : List Char}

theorem ofNat_cons_lt {a b : Nat} {u v : List UInt8} (hb : b < 256) (h : a < b ∨ a = b ∧ u < v) :
    UInt8.ofNat a :: u < UInt8.ofNat b :: v := by
  rw [List.cons_lt_cons_iff]
  rcases h with h | ⟨rfl, h⟩
  · left
    rw [UInt8.lt_iff_toNat_lt, UInt8.toNat_ofNat', UInt8.toNat_ofNat', Nat.mod_eq_of_lt hb,
      Nat.mod_eq_of_lt (Nat.lt_trans h hb)]
    exact h
  · exact Or.inr ⟨rfl, h⟩

theorem toNat_val_lt (c : Char) : c.val.toNat < 0x110000 := by
  rcases c.valid with h | h
  · exact Nat.lt_trans h (by decide)
  · exact h.2

/-- The bytes of the smaller character are smaller, whatever comes behind them. -/
theorem utf8EncodeChar_append_lt (h : c < d) (u v : List UInt8) :
    utf8EncodeChar c ++ u < utf8EncodeChar d ++ v := by
  have hlt : c.val.toNat < d.val.toNat := h
  have hd := toNat_val_lt d
  unfold utf8EncodeChar
  generalize c.val.toNat = m at *
  generalize d.val.toNat = n at *
  have hdiv (k : Nat) : m / k < n / k ∨ m / k = n / k :=
    Nat.lt_or_eq_of_le (Nat.div_le_div_right (Nat.le_of_lt hlt))
  dsimp only
  by_cases hm : m ≤ 65535
  · split_ifs
    all_goals
      simp only [List.cons_append, List.cons_lt_cons_iff, UInt8.lt_iff_toNat_lt, ← UInt8.toNat_inj,
        UInt8.toNat_ofNat']
      omega
  · -- four bytes on both sides: the first place where the digits differ decides
    rw [if_neg (by omega), if_neg (by omega), if_neg hm, if_neg (by omega), if_neg (by omega),
      if_neg (by omega)]
    apply ofNat_cons_lt (by omega)
    rcases hdiv 262144 with hfirst | hfirst
    · exact Or.inl (by omega)
    refine Or.inr ⟨by rw [hfirst], ofNat_cons_lt (by omega) ?_⟩
    rcases hdiv 4096 with hsecond | hsecond
    · exact Or.inl (by omega)
    refine Or.inr ⟨by rw [hsecond], ofNat_cons_lt (by omega) ?_⟩
    rcases hdiv 64 with hthird | hthird
    · exact Or.inl (by omega)
    exact Or.inr ⟨by rw [hthird], ofNat_cons_lt (by omega) (Or.inl (by omega))⟩

theorem flatMap_utf8EncodeChar_lt (h : s < t) :
    s.flatMap utf8EncodeChar < t.flatMap utf8EncodeChar := by
  induction t generalizing s with
  | nil => exact absurd h (List.not_lt_nil s)
  | cons d t ih =>
    rw [List.flatMap_cons]
    cases s with
    | nil =>
      obtain ⟨b, u, hd⟩ := List.exists_cons_of_ne_nil (String.utf8EncodeChar_ne_nil (c := d))
      rw [hd]
      exact List.nil_lt_cons b _
    | cons c s =>
      rw [List.flatMap_cons]
      rcases List.cons_lt_cons_iff.1 h with hcd | ⟨rfl, hst⟩
      · exact utf8EncodeChar_append_lt hcd _ _
      · exact List.append_left_lt (ih hst)

theorem flatMap_utf8EncodeChar_lt_iff :
    s.flatMap utf8EncodeChar < t.flatMap utf8EncodeChar ↔ s < t := by
  refine ⟨fun h => ?_, flatMap_utf8EncodeChar_lt⟩
  rcases lt_trichotomy s t with hst | rfl | hts
  · exact hst
  · exact absurd h (List.lt_irrefl _)
  · exact absurd h (List.lt_asymm (flatMap_utf8EncodeChar_lt hts))

/-- Terms have the order of their encodings. -/
theorem Term.le_iff_toUTF8_le {a b : Term} :
    a ≤ b ↔ a.text.toUTF8.data ≤ b.text.toUTF8.data := by
  have hbytes : ∀ s : String, s.toUTF8.data = (s.toList.flatMap utf8EncodeChar).toArray := by
    intro s
    rw [String.toUTF8_eq_toByteArray, ← String.utf8Encode_toList, List.utf8Encode,
      List.data_toByteArray]
  rw [hbytes, hbytes, List.le_toArray, ← List.not_lt, flatMap_utf8EncodeChar_lt_iff, not_lt]
  exact String.le_iff_toList_le

end Bytes

namespace Term

variable {ts us : List Term}

/-! ## Sorting -/

theorem sort_perm (ts : List Term) : (sort ts).Perm ts := List.mergeSort_perm ts _

theorem sort_ascending (ts : List Term) : (sort ts).Pairwise (· ≤ ·) :=
  List.pairwise_mergeSort' _ ts

theorem sort_eq_sort_iff : sort ts = sort us ↔ ts.Perm us := by
  constructor
  · intro h
    calc
      ts.Perm (sort ts) := (sort_perm ts).symm
      (sort ts).Perm (sort us) := by rw [h]
      (sort us).Perm us := sort_perm us
  · intro h
    apply List.Perm.eq_of_pairwise (fun a b _ _ => le_antisymm) (sort_ascending ts)
      (sort_ascending us)
    exact ((sort_perm ts).trans h).trans (sort_perm us).symm

/-! ## Repeats -/

/-- In an ascending list, a term that occurs again does so at once. -/
theorem mem_cons_iff_of_ascending {a b : Term} (h : (a :: b :: ts).Pairwise (· ≤ ·)) :
    a ∈ b :: ts ↔ a = b := by
  constructor
  · intro ha
    obtain ⟨hfirst, hrest⟩ := List.pairwise_cons.1 h
    apply le_antisymm (hfirst b List.mem_cons_self)
    rcases List.mem_cons.1 ha with rfl | ha
    · exact le_refl a
    · exact (List.pairwise_cons.1 hrest).1 a ha
  · rintro rfl
    exact List.mem_cons_self

theorem repeats_of_ascending (h : ts.Pairwise (· ≤ ·)) :
    repeats ts + ts.dedup.length = ts.length := by
  induction ts with
  | nil => rfl
  | cons a ts ih =>
    cases ts with
    | nil => rfl
    | cons b ts =>
      have hrest := ih h.of_cons
      rw [repeats, List.length_cons]
      split
      · next hab =>
        rw [List.dedup_cons_of_mem ((mem_cons_iff_of_ascending h).2 hab)]
        omega
      · next hab =>
        rw [List.dedup_cons_of_notMem (mt (mem_cons_iff_of_ascending h).1 hab), List.length_cons]
        omega

/-- The repeats among the sorted terms are the terms that are there a second time. -/
theorem repeats_sort (ts : List Term) : repeats (sort ts) + ts.dedup.length = ts.length := by
  rw [← (sort_perm ts).dedup.length_eq, ← (sort_perm ts).length_eq]
  exact repeats_of_ascending (sort_ascending ts)

end Term

end BooleanQuery
