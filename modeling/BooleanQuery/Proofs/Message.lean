import BooleanQuery.Log
import BooleanQuery.Proofs.Text.Quoted

/-!
# What a message tells

A rejection is reported by a sentence, and a record of the log by another one. The sentence says all
that there is to be said: two rejections with the same message are the same
(`Rejection.message_injective`), and so are two records (`LogRecord.message_injective`). This holds
because the texts in them are quoted. A text may hold any words, those of the sentence included.

All characters of a message are printable, whatever the text is.
-/

set_option autoImplicit false

namespace BooleanQuery

open Text (quoted isUnprintable quoted_append_inj)

/-! ## Numbers -/

theorem toList_toString (n : Nat) : (toString n).toList = Nat.toDigits 10 n := by
  rw [Nat.toString_eq_repr, Nat.toList_repr]

theorem toList_toString_inj {n m : Nat} (h : (toString n).toList = (toString m).toList) :
    n = m := by
  rw [toList_toString, toList_toString] at h
  rw [← Nat.ofDigitChars_ten_toDigits (n := n), h, Nat.ofDigitChars_ten_toDigits]

theorem append_toString_inj {s : String} {n m : Nat} (h : s ++ toString n = s ++ toString m) :
    n = m := by
  have htext := congrArg String.toList h
  rw [String.toList_append, String.toList_append] at htext
  exact toList_toString_inj (List.append_cancel_left htext)

/-! ## Texts that can be seen -/

/-- Every character of the text is printable. -/
def Shown (s : String) : Prop := ∀ c ∈ s.toList, isUnprintable c = false

theorem shown_of_ascii {s : String} (h : s.toList.all fun c => 0x20 ≤ c.toNat ∧ c.toNat < 0x7F) :
    Shown s := fun _ hc => Text.isUnprintable_of_mem_ascii h hc

theorem Shown.append {s t : String} (hs : Shown s) (ht : Shown t) : Shown (s ++ t) := by
  intro c hc
  rw [String.toList_append] at hc
  rcases List.mem_append.1 hc with hc | hc
  · exact hs c hc
  · exact ht c hc

theorem shown_quoted (s : List Char) : Shown (String.ofList (quoted s)) := by
  intro c hc
  rw [String.toList_ofList] at hc
  exact Text.isUnprintable_of_mem_quoted hc

theorem shown_toString (n : Nat) : Shown (toString n) := by
  intro c hc
  rw [toList_toString] at hc
  have hdigit : c.isDigit := Nat.isDigit_of_mem_toDigits (b := 10) (by decide) (by decide) hc
  obtain ⟨hlo, hhi⟩ := Char.isDigit_iff_toNat.1 hdigit
  exact Text.isUnprintable_of_ascii
    ⟨Nat.le_trans (by decide) hlo, Nat.lt_of_le_of_lt hhi (by decide)⟩

/-! ## Rejections -/

namespace Rejection

/-- The character that the message begins with. -/
def initial : Rejection → Char
  | .lexical _ => 'f'
  | .unbalanced _ => 'u'
  | .blank => 't'
  | .mixed _ => '"'
  | .tooDeep _ => 'p'

theorem head?_message (e : Rejection) : e.message.toList.head? = some e.initial := by
  unfold message
  cases e with
  | blank => rfl
  | mixed fragment =>
    dsimp only
    rw [String.toList_append, String.toList_ofList]
    rfl
  | _ =>
    dsimp only
    rw [String.toList_append, List.head?_append]
    rfl

theorem message_injective : Function.Injective message := by
  intro e e' h
  have hinitial : e.initial = e'.initial := by
    rw [← Option.some_inj, ← head?_message, ← head?_message, h]
  cases e with
  | lexical fault =>
    cases e' with
    | lexical fault' =>
      cases fault
      cases fault'
      rfl
    | _ => exact absurd hinitial (by simp [initial])
  | unbalanced p =>
    cases e' with
    | unbalanced p' => rw [append_toString_inj h]
    | _ => exact absurd hinitial (by simp [initial])
  | blank =>
    cases e' with
    | blank => rfl
    | _ => exact absurd hinitial (by simp [initial])
  | mixed f =>
    cases e' with
    | mixed f' =>
      have htext := congrArg String.toList h
      unfold message at htext
      simp only [String.toList_append, String.toList_ofList] at htext
      rw [String.toList_inj.1 (quoted_append_inj htext).1]
    | _ => exact absurd hinitial (by simp [initial])
  | tooDeep l =>
    cases e' with
    | tooDeep l' => rw [append_toString_inj h]
    | _ => exact absurd hinitial (by simp [initial])

theorem shown_message (e : Rejection) : Shown e.message := by
  cases e with
  | lexical fault =>
    cases fault
    exact shown_of_ascii (by decide)
  | unbalanced p => exact (shown_of_ascii (by decide)).append (shown_toString p)
  | blank => exact shown_of_ascii (by decide)
  | mixed f => exact (shown_quoted f.toList).append (shown_of_ascii (by decide))
  | tooDeep l => exact (shown_of_ascii (by decide)).append (shown_toString l)

end Rejection

/-! ## Records -/

namespace LogRecord

/-- The character that tells the kind of a record. Six characters are the same for both. -/
def seventh : LogRecord → Char
  | .reading .. => 'i'
  | .compiled .. => 'e'

theorem getElem?_message (r : LogRecord) : r.message.toList[6]? = some r.seventh := by
  unfold message
  cases r with
  | reading text depth =>
    dsimp only
    rw [String.append_assoc, String.append_assoc, String.toList_append]
    rfl
  | compiled text clauses =>
    dsimp only
    rw [String.append_assoc, String.append_assoc, String.append_assoc, String.toList_append]
    rfl

theorem message_injective : Function.Injective message := by
  intro r r' h
  have hkind : r.seventh = r'.seventh := by
    rw [← Option.some_inj, ← getElem?_message, ← getElem?_message, h]
  have htext := congrArg String.toList h
  unfold message at htext
  cases r with
  | reading s d =>
    cases r' with
    | reading s' d' =>
      simp only [String.toList_append, String.toList_ofList, List.append_assoc] at htext
      obtain ⟨hs, hrest⟩ := quoted_append_inj (List.append_cancel_left htext)
      rw [String.toList_inj.1 hs, toList_toString_inj (List.append_cancel_left hrest)]
    | compiled s' n' => exact absurd hkind (by simp [seventh])
  | compiled s n =>
    cases r' with
    | reading s' d' => exact absurd hkind (by simp [seventh])
    | compiled s' n' =>
      simp only [String.toList_append, String.toList_ofList, List.append_assoc] at htext
      obtain ⟨hs, hrest⟩ := quoted_append_inj (List.append_cancel_left htext)
      have hnumber := List.append_cancel_right (List.append_cancel_left hrest)
      rw [String.toList_inj.1 hs, toList_toString_inj hnumber]

theorem shown_message (r : LogRecord) : Shown r.message := by
  cases r with
  | reading s d =>
    refine ((Shown.append ?_ (shown_quoted s.toList)).append ?_).append (shown_toString d)
    · exact shown_of_ascii (by decide)
    · exact shown_of_ascii (by decide)
  | compiled s n =>
    refine (((Shown.append ?_ (shown_quoted s.toList)).append ?_).append
      (shown_toString n)).append ?_
    · exact shown_of_ascii (by decide)
    · exact shown_of_ascii (by decide)
    · exact shown_of_ascii (by decide)

end LogRecord

end BooleanQuery
