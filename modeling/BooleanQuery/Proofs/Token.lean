import BooleanQuery.Proofs.Paren.Balance
import BooleanQuery.Token

/-!
# Taking tokens off a text

The tokens of a text are defined from its end, by a fold. Read from the front they come off one at
a time: the first token is a piece of the text, and the other tokens are those of the text after it
(`exists_of_tokenize_eq_cons`). The other way round, a word that is put in front of a text is its
first token, unless the text begins with a word itself (`tokenize_isWord_append`).
-/

set_option autoImplicit false

namespace BooleanQuery

open Paren (isParen)

/-- A word has no space and no parenthesis in it. -/
def IsWord (w : List Char) : Prop := ∀ c ∈ w, c ≠ ' ' ∧ isParen c = false

theorem IsWord.append {v w : List Char} (hv : IsWord v) (hw : IsWord w) : IsWord (v ++ w) := by
  intro c hc
  rcases List.mem_append.1 hc with hc | hc
  · exact hv c hc
  · exact hw c hc

theorem IsWord.balanced {w : List Char} (h : IsWord w) : Paren.Balanced w := by
  apply Paren.balanced_of_skeleton_eq_nil
  apply List.filter_eq_nil_iff.2
  intro c hc
  rw [(h c hc).2]
  simp

namespace Token

/-- As a word is cut from a text, it is not empty and has no space and no parenthesis in it. -/
def Proper (t : Token) : Prop := ∀ w, t = .word w → w ≠ [] ∧ IsWord w

/-- Of all tokens only the two parentheses open or close a group. -/
theorem balanced_text {t : Token} (hopen : t ≠ .openParen) (hclose : t ≠ .closeParen)
    (hword : ∀ w, t = .word w → IsWord w) : Paren.Balanced t.text := by
  cases t with
  | openParen => exact absurd rfl hopen
  | closeParen => exact absurd rfl hclose
  | space => rfl
  | word w => exact (hword w rfl).balanced

theorem isWord_of_ofChar_eq_word {c : Char} {w : List Char} (h : ofChar c = .word w) :
    w = [c] ∧ IsWord [c] := by
  unfold ofChar at h
  split at h
  · exact absurd h (by simp)
  · split at h
    · exact absurd h (by simp)
    · split at h
      · exact absurd h (by simp)
      · next ho hc hs =>
        refine ⟨by simpa using h.symm, ?_⟩
        intro d hd
        obtain rfl := List.mem_singleton.1 hd
        exact ⟨hs, by simp [isParen, ho, hc]⟩

theorem text_ne_nil_of_ofChar {c : Char} {t : Token} (h : ofChar c = t) : t.text ≠ [] := by
  rw [← h, text_ofChar]
  exact List.cons_ne_nil c []

end Token

theorem exists_of_tokenize_eq_cons {s : List Char} {t : Token} {ts : List Token}
    (h : tokenize s = t :: ts) :
    ∃ u, s = t.text ++ u ∧ ts = tokenize u ∧ t.text ≠ [] ∧ ∀ w, t = .word w → IsWord w := by
  induction s generalizing t ts with
  | nil => exact absurd h (by simp [tokenize])
  | cons c s ih =>
    change Token.consChar c (tokenize s) = t :: ts at h
    unfold Token.consChar at h
    split at h
    · -- the character prolongs the word that the rest begins with
      next w v ts' hc hs =>
      obtain ⟨rfl, rfl⟩ := List.cons.inj h
      obtain ⟨u, rfl, hts, -, hv⟩ := ih hs
      obtain ⟨rfl, hw⟩ := Token.isWord_of_ofChar_eq_word hc
      refine ⟨u, by simp [Token.text], hts, by simp [Token.text], ?_⟩
      intro x hx
      obtain rfl := Token.word.inj hx
      exact hw.append (hv v rfl)
    · obtain ⟨ht, rfl⟩ := List.cons.inj h
      refine ⟨s, ?_, rfl, Token.text_ne_nil_of_ofChar ht, ?_⟩
      · rw [← ht, Token.text_ofChar, List.singleton_append]
      · intro w hw
        obtain ⟨rfl, hc⟩ := Token.isWord_of_ofChar_eq_word (ht.trans hw)
        exact hc

theorem proper_of_mem_tokenize {s : List Char} {t : Token} (h : t ∈ tokenize s) : t.Proper := by
  induction hts : tokenize s generalizing s with
  | nil => exact absurd h (by simp [hts])
  | cons t' ts ih =>
    obtain ⟨u, -, rfl, hne, hword⟩ := exists_of_tokenize_eq_cons hts
    rw [hts] at h
    rcases List.mem_cons.1 h with rfl | h
    · rintro w rfl
      exact ⟨hne, hword w rfl⟩
    · exact ih h rfl

theorem isWord_of_mem_tokenize {s w : List Char} (h : Token.word w ∈ tokenize s) : IsWord w :=
  (proper_of_mem_tokenize h w rfl).2

theorem tokenize_eq_nil_iff {s : List Char} : tokenize s = [] ↔ s = [] := by
  constructor
  · intro h
    rw [← flatMap_text_tokenize s, h]
    rfl
  · intro h
    rw [h]
    rfl

theorem Token.ofChar_of_isWord {c : Char} (h : IsWord [c]) : ofChar c = .word [c] := by
  obtain ⟨hs, hp⟩ := h c (by simp)
  rw [Paren.isParen_eq_false_iff] at hp
  simp [ofChar, hs, hp.1, hp.2]

/-- A word is a token by itself if no word follows it. -/
theorem tokenize_isWord_append {w : List Char} (hw : IsWord w) (hne : w ≠ []) {s : List Char}
    (hs : ∀ v, .word v ∉ (tokenize s).head?) : tokenize (w ++ s) = .word w :: tokenize s := by
  induction w with
  | nil => exact absurd rfl hne
  | cons c w ih =>
    have hc : Token.ofChar c = .word [c] :=
      Token.ofChar_of_isWord fun d hd => hw d (List.mem_cons.2 (Or.inl (List.mem_singleton.1 hd)))
    show Token.consChar c (tokenize (w ++ s)) = _
    cases w with
    | nil =>
      rw [List.nil_append]
      unfold Token.consChar
      rw [hc]
      split
      · next v ts _ hts => exact absurd (by simp [hts]) (hs v)
      · rfl
    | cons d w =>
      rw [ih (fun e he => hw e (by simp [he])) (by simp)]
      simp [Token.consChar, hc]

/-- A word that a space follows is a token by itself. -/
theorem tokenize_word_append {w : List Char} (hw : IsWord w) (hne : w ≠ []) (s : List Char) :
    tokenize (w ++ ' ' :: s) = .word w :: .space :: tokenize s := by
  have hspace : tokenize (' ' :: s) = .space :: tokenize s := rfl
  rw [tokenize_isWord_append hw hne (by simp [hspace]), hspace]

end BooleanQuery
