import BooleanQuery.Proofs.Token.Tiling
import BooleanQuery.Rejection
import Mathlib.Data.List.TakeWhile

/-!
# Scanning by longest match

A text can also be cut into tokens from its front. At each place the longest piece is taken that has
the form of a token, and where there is none the next character is a fault. How the longest piece is
found is left open: a `Finder` is some way to find pieces, and all that is asked of it is that none
longer has a form (`Finder.LongestMatch`).

Every such scan finds the lexemes of `lexemes` and no fault (`Finder.LongestMatch.scan_eq`). It
takes one step at a time (`Finder.LongestMatch.step`): every character has a form by itself, so that
a piece is found, and a word that is longest has no word behind it, so that it is the first token.
-/

set_option autoImplicit false

namespace BooleanQuery

open Paren (isParen)
open Text (byteLength)
open Token (Proper Apart)

namespace Token

/-- The forms that the text of a token may have. -/
inductive Form where
  | openParen
  | closeParen
  | space
  | word
deriving DecidableEq, Repr

namespace Form

def Matches : Form → List Char → Prop
  | .openParen, w => w = ['(']
  | .closeParen, w => w = [')']
  | .space, w => w = [' ']
  | .word, w => w ≠ [] ∧ IsWord w

/-- The token that a text of the form makes. Only a word keeps its text. -/
def token : Form → List Char → Token
  | .openParen, _ => .openParen
  | .closeParen, _ => .closeParen
  | .space, _ => .space
  | .word, w => .word w

variable {form : Form} {w : List Char}

theorem Matches.text_token (h : form.Matches w) : (form.token w).text = w := by
  cases form with
  | openParen => exact h.symm
  | closeParen => exact h.symm
  | space => exact h.symm
  | word => rfl

theorem Matches.ne_nil (h : form.Matches w) : w ≠ [] := by
  cases form with
  | openParen => exact h ▸ List.cons_ne_nil _ _
  | closeParen => exact h ▸ List.cons_ne_nil _ _
  | space => exact h ▸ List.cons_ne_nil _ _
  | word => exact h.1

theorem Matches.proper (h : form.Matches w) : Proper (form.token w) := by
  intro v hv
  cases form with
  | word =>
    obtain rfl : w = v := Token.word.inj hv
    exact h
  | _ => exact absurd hv (by simp [token])

theorem eq_word_of_isWord (h : (form.token w).isWord) : form = .word := by
  cases form with
  | word => rfl
  | _ => exact absurd h (by simp [token, isWord])

theorem exists_matches_char (c : Char) : ∃ form : Form, form.Matches [c] := by
  rcases Paren.paren_cases c with rfl | rfl | hparen
  · exact ⟨.openParen, rfl⟩
  · exact ⟨.closeParen, rfl⟩
  · by_cases hspace : c = ' '
    · exact ⟨.space, hspace ▸ rfl⟩
    · refine ⟨.word, List.cons_ne_nil c [], fun d hd => ?_⟩
      obtain rfl := List.mem_singleton.1 hd
      exact ⟨hspace, hparen⟩

end Form

end Token

/-- Some way to find a token in front of a text: its form and its text, if there is one. -/
abbrev Finder := List Char → Option (Token.Form × List Char)

namespace Finder

/-- What is found is the longest piece in front of the text that has a form. -/
structure LongestMatch (find : Finder) : Prop where
  matched {s w : List Char} {form : Token.Form} :
    find s = some (form, w) → form.Matches w ∧ w <+: s
  longest {s w : List Char} {form : Token.Form} :
    find s = some (form, w) →
      ∀ form' w', Token.Form.Matches form' w' → w' <+: s → w'.length ≤ w.length
  complete {s : List Char} : find s = none → ∀ form w, Token.Form.Matches form w → ¬ w <+: s

/-- The lexemes that are found from byte offset `pos` on. A piece that is found has at least one
character, and one character is passed over where none is found. -/
def scan (find : Finder) : (pos : Nat) → List Char → List (Except Rejection Lexeme)
  | _, [] => []
  | pos, c :: s =>
    match find (c :: s) with
    | some (form, w) =>
      let stop := pos + byteLength w
      .ok ⟨⟨pos, stop⟩, form.token w⟩ :: scan find stop (s.drop (w.length - 1))
    | none => .error (.lexical .invalidToken) :: scan find (pos + c.utf8Size) s
termination_by _ s => s.length
decreasing_by
  · rw [List.length_drop, List.length_cons]
    omega
  · exact Nat.lt_succ_self _

variable {find : Finder}

/-- A piece is found in front of every text that is not empty, and it is the first token. -/
theorem LongestMatch.step (h : find.LongestMatch) (c : Char) (s : List Char) :
    ∃ form w u, find (c :: s) = some (form, c :: w) ∧ s = w ++ u ∧
      (form.token (c :: w)).text = c :: w ∧
      tokenize (c :: s) = form.token (c :: w) :: tokenize u := by
  cases hfind : find (c :: s) with
  | none =>
    obtain ⟨form, hform⟩ := Token.Form.exists_matches_char c
    exact absurd ⟨s, rfl⟩ (h.complete hfind form [c] hform)
  | some found =>
    obtain ⟨form, w⟩ := found
    obtain ⟨hform, u, hu⟩ := h.matched hfind
    have htext := hform.text_token
    have hapart : ∀ t ∈ (tokenize u).head?, Apart (form.token w) t := by
      rintro t ht ⟨hword, hnext⟩
      -- the word behind it would make a longer piece
      obtain ⟨v, rfl⟩ := Token.isWord_iff.1 hnext
      obtain ⟨ts, hts⟩ := List.head?_eq_some_iff.1 ht
      obtain ⟨u', rfl, -, hne, hv⟩ := exists_of_tokenize_eq_cons hts
      obtain rfl := Token.Form.eq_word_of_isWord hword
      have hlonger : Token.Form.word.Matches (w ++ v) :=
        ⟨by simp [hform.1], hform.2.append (hv v rfl)⟩
      have hle := h.longest hfind .word (w ++ v) hlonger ⟨u', by rw [← hu, List.append_assoc]; rfl⟩
      rw [List.length_append] at hle
      exact hne (List.length_eq_zero_iff.1 (show v.length = 0 by omega))
    have htokens := tokenize_text_append hform.proper hapart
    rw [htext, hu] at htokens
    obtain ⟨d, w, rfl⟩ := List.exists_cons_of_ne_nil hform.ne_nil
    obtain ⟨rfl, rfl⟩ := List.cons.inj hu
    exact ⟨form, w, u, rfl, rfl, htext, htokens⟩

theorem LongestMatch.scan_eq (h : find.LongestMatch) (pos : Nat) (s : List Char) :
    find.scan pos s = (locate pos (tokenize s)).map .ok := by
  fun_induction scan find pos s with
  | case1 pos => rfl
  | case2 pos c s form w hfind stop ih =>
    obtain ⟨form', w', u, hsome, rfl, htext, htokens⟩ := h.step c s
    obtain ⟨rfl, rfl⟩ : form = form' ∧ w = c :: w' := by simpa using hfind.symm.trans hsome
    have hdrop : (w' ++ u).drop ((c :: w').length - 1) = u := List.drop_left
    rw [hdrop] at ih
    rw [htokens, locate, List.map_cons, htext, hdrop, ih]
  | case3 pos c s hfind ih =>
    obtain ⟨form, w, u, hsome, -⟩ := h.step c s
    exact absurd (hfind.symm.trans hsome) (by simp)

/-- All lexemes of a text, or the first fault in it. -/
def lexemes? (find : Finder) (s : List Char) : Except Rejection (List Lexeme) :=
  (find.scan 0 s).mapM id

theorem LongestMatch.lexemes?_eq_ok (h : find.LongestMatch) (s : List Char) :
    find.lexemes? s = .ok (lexemes s) := by
  have hcollect : ∀ ls : List Lexeme, (ls.map (Except.ok (ε := Rejection))).mapM id = .ok ls := by
    intro ls
    induction ls with
    | nil => rfl
    | cons l ls ih =>
      rw [List.map_cons, List.mapM_cons, ih]
      rfl
  rw [lexemes?, h.scan_eq]
  exact hcollect (lexemes s)

/-! ## A finder -/

/-- Takes a parenthesis or a space by itself, and a word up to the next of them. -/
def readOn : Finder
  | [] => none
  | '(' :: _ => some (.openParen, ['('])
  | ')' :: _ => some (.closeParen, [')'])
  | ' ' :: _ => some (.space, [' '])
  | c :: s => some (.word, c :: s.takeWhile fun d => d ≠ ' ' ∧ isParen d = false)

/-- Only a word has more than one character, and all its characters belong to it. -/
theorem length_le_of_matches {form : Token.Form} {w s : List Char} {c : Char}
    (h : form.Matches w) (hw : w <+: c :: s) :
    w.length ≤ 1 ∨ ∃ v, w = c :: v ∧ v <+: s ∧ IsWord (c :: v) := by
  cases form with
  | word =>
    obtain ⟨d, v, rfl⟩ := List.exists_cons_of_ne_nil h.1
    obtain ⟨rfl, hv⟩ := List.cons_prefix_cons.1 hw
    exact Or.inr ⟨v, rfl, hv, h.2⟩
  | _ =>
    obtain rfl := h
    exact Or.inl (Nat.le_refl 1)

theorem length_le_one_of_matches {form : Token.Form} {w s : List Char} {c : Char}
    (h : form.Matches w) (hw : w <+: c :: s) (hc : ¬ (c ≠ ' ' ∧ isParen c = false)) :
    w.length ≤ 1 := by
  rcases length_le_of_matches h hw with hle | ⟨v, -, -, hword⟩
  · exact hle
  · exact absurd (hword c (by simp)) hc

theorem longestMatch_readOn : readOn.LongestMatch where
  matched {s w form} h := by
    unfold readOn at h
    split at h
    · exact absurd h (by simp)
    · next s => cases h; exact ⟨rfl, s, rfl⟩
    · next s => cases h; exact ⟨rfl, s, rfl⟩
    · next s => cases h; exact ⟨rfl, s, rfl⟩
    · next c s ho hc hs =>
      cases h
      refine ⟨⟨List.cons_ne_nil c _, ?_⟩, (List.prefix_cons_inj c).2 (List.takeWhile_prefix _)⟩
      intro d hd
      rcases List.mem_cons.1 hd with rfl | hd
      · exact ⟨hs, Paren.isParen_eq_false_iff.2 ⟨ho, hc⟩⟩
      · simpa using List.mem_takeWhile_imp hd
  longest {s w form} h form' w' hform hw := by
    unfold readOn at h
    split at h
    · exact absurd h (by simp)
    · cases h; exact length_le_one_of_matches hform hw (by decide)
    · cases h; exact length_le_one_of_matches hform hw (by decide)
    · cases h; exact length_le_one_of_matches hform hw (by decide)
    · next c s _ _ _ =>
      cases h
      rcases length_le_of_matches hform hw with hle | ⟨v, rfl, ⟨u, rfl⟩, hword⟩
      · exact Nat.le_trans hle (Nat.succ_le_succ (Nat.zero_le _))
      · rw [List.takeWhile_append_of_pos fun d hd => by simpa using hword d (by simp [hd])]
        simp
  complete {s} h form w hform hw := by
    unfold readOn at h
    split at h
    · exact hform.ne_nil (List.prefix_nil.1 hw)
    all_goals exact absurd h (by simp)

/-! ## Any text -/

/-- Whatever finds the longest tokens finds all of a text without a fault. The lexemes are a tiling
of the text, each parenthesis and each space being one of its own, and the text has no other
tiling. -/
theorem scan_unique_tiling {find : Finder} (hfind : find.LongestMatch) (e : String) :
    find.scan 0 e.toList = (lexemes e.toList).map .ok ∧
    (∀ ls, Tiles e.toList ls ↔ ls = lexemes e.toList) ∧
    ∀ pre c post, e.toList = pre ++ c :: post → c ∈ ['(', ')', ' '] →
      ⟨⟨byteLength pre, byteLength pre + 1⟩, .ofChar c⟩ ∈ lexemes e.toList := by
  refine ⟨hfind.scan_eq 0 e.toList, fun ls => tiles_iff, ?_⟩
  intro pre c post he hc
  have hcut : (Token.ofChar c).isWord = false ∧ c.utf8Size = 1 := by
    simp only [List.mem_cons, List.not_mem_nil, or_false] at hc
    rcases hc with rfl | rfl | rfl <;> exact ⟨rfl, rfl⟩
  rw [he, lexemes, tokenize_append_cons hcut.1, locate_append, flatMap_text_tokenize]
  refine List.mem_append_right _ ?_
  rw [locate, Token.text_ofChar, Nat.zero_add]
  simp [byteLength, hcut.2]

/-- A character of two bytes, two spaces in a row, and white space that belongs to a word. -/
theorem scan_unique_tiling_beyond_ascii :
    readOn.LongestMatch ∧
    "é  (b\tc)".toList = "é  ".toList ++ '(' :: "b\tc)".toList ∧
    readOn.scan 0 "é  (b\tc)".toList
      = [.ok ⟨⟨0, 2⟩, .word ['é']⟩, .ok ⟨⟨2, 3⟩, .space⟩, .ok ⟨⟨3, 4⟩, .space⟩,
        .ok ⟨⟨4, 5⟩, .openParen⟩, .ok ⟨⟨5, 8⟩, .word ['b', '\t', 'c']⟩,
        .ok ⟨⟨8, 9⟩, .closeParen⟩] ∧
    Tiles "é  (b\tc)".toList
      [⟨⟨0, 2⟩, .word ['é']⟩, ⟨⟨2, 3⟩, .space⟩, ⟨⟨3, 4⟩, .space⟩, ⟨⟨4, 5⟩, .openParen⟩,
        ⟨⟨5, 8⟩, .word ['b', '\t', 'c']⟩, ⟨⟨8, 9⟩, .closeParen⟩] ∧
    ⟨⟨4, 5⟩, .openParen⟩ ∈ lexemes "é  (b\tc)".toList := by
  have hlexemes : lexemes "é  (b\tc)".toList
      = [⟨⟨0, 2⟩, .word ['é']⟩, ⟨⟨2, 3⟩, .space⟩, ⟨⟨3, 4⟩, .space⟩, ⟨⟨4, 5⟩, .openParen⟩,
        ⟨⟨5, 8⟩, .word ['b', '\t', 'c']⟩, ⟨⟨8, 9⟩, .closeParen⟩] := by decide +kernel
  have hsplit : "é  (b\tc)".toList = "é  ".toList ++ '(' :: "b\tc)".toList := by decide +kernel
  obtain ⟨hscan, htiles, hown⟩ := scan_unique_tiling longestMatch_readOn "é  (b\tc)"
  exact ⟨longestMatch_readOn, hsplit, hscan.trans (congrArg _ hlexemes), (htiles _).2 hlexemes.symm,
    hown _ '(' _ hsplit (by simp)⟩

end Finder

end BooleanQuery
