import BooleanQuery.Proofs.Text.Span
import BooleanQuery.Proofs.Token
import Mathlib.Data.List.Chain

/-!
# Tilings of a text

The lexemes of a text cover it without a gap and without an overlap. `Tiles` says what that means
without a word on how lexemes are found: the spans follow one another from the first byte to the
last, the token of each is what stands there, and the words are neither empty nor cut into two.

There is one such sequence for each text, that of `lexemes` (`tiles_iff`). The spans leave no
choice, since each begins where the one before it ends, and the tokens spell the text
(`Placed.eq_locate`). And a text is spelled in one way, if no word follows a word: a token that is
put in front of a text is the first one that is read from there (`tokenize_text_append`).
-/

set_option autoImplicit false

namespace BooleanQuery

open Text (byteLength byteLength_append)

/-! ## Spelling a text -/

namespace Token

def isWord : Token → Bool
  | .word _ => true
  | _ => false

theorem isWord_iff {t : Token} : t.isWord ↔ ∃ w, t = .word w := by
  cases t <;> simp [isWord]

/-- Not two words, which would be one if they stood next to each other. -/
def Apart (t t' : Token) : Prop := ¬ (t.isWord ∧ t'.isWord)

end Token

open Token (Proper Apart)

theorem tokenize_text_append {t : Token} (ht : Proper t) {s : List Char}
    (hs : ∀ t' ∈ (tokenize s).head?, Apart t t') : tokenize (t.text ++ s) = t :: tokenize s := by
  cases t with
  | openParen => rfl
  | closeParen => rfl
  | space => rfl
  | word w =>
    obtain ⟨hne, hw⟩ := ht w rfl
    exact tokenize_isWord_append hw hne fun v hv => hs (.word v) hv ⟨rfl, rfl⟩

theorem tokenize_flatMap_text {ts : List Token} (hproper : ∀ t ∈ ts, Proper t)
    (hapart : ts.IsChain Apart) : tokenize (ts.flatMap Token.text) = ts := by
  induction ts with
  | nil => rfl
  | cons t ts ih =>
    rw [List.isChain_cons] at hapart
    have hrest := ih (fun t' ht' => hproper t' (by simp [ht'])) hapart.2
    have hhead : ∀ t' ∈ (tokenize (ts.flatMap Token.text)).head?, Apart t t' :=
      hrest.symm ▸ hapart.1
    rw [List.flatMap_cons, tokenize_text_append (hproper t (by simp)) hhead, hrest]

theorem isChain_tokenize (s : List Char) : (tokenize s).IsChain Apart := by
  induction s with
  | nil => exact List.isChain_nil
  | cons c s ih =>
    show (Token.consChar c (tokenize s)).IsChain Apart
    unfold Token.consChar
    split
    · -- the longer word has the neighbour of the shorter one
      next w v ts _ hts =>
      rw [hts, List.isChain_cons] at ih
      exact List.isChain_cons.2 ih
    · next hnot =>
      refine List.isChain_cons.2 ⟨?_, ih⟩
      rintro t' ht' ⟨hc, hword⟩
      obtain ⟨w, hw⟩ := Token.isWord_iff.1 hc
      obtain ⟨v, rfl⟩ := Token.isWord_iff.1 hword
      obtain ⟨ts, hts⟩ := List.head?_eq_some_iff.1 ht'
      exact hnot w v ts hw hts

/-- A parenthesis or a space cuts the tokens of a text where it stands. -/
theorem tokenize_append_cons {c : Char} (hc : (Token.ofChar c).isWord = false) (s u : List Char) :
    tokenize (s ++ c :: u) = tokenize s ++ Token.ofChar c :: tokenize u := by
  have hspelled :
      (tokenize s ++ Token.ofChar c :: tokenize u).flatMap Token.text = s ++ c :: u := by
    rw [List.flatMap_append, List.flatMap_cons, flatMap_text_tokenize, flatMap_text_tokenize,
      Token.text_ofChar, List.singleton_append]
  have hapart : (tokenize s ++ Token.ofChar c :: tokenize u).IsChain Apart := by
    refine (isChain_tokenize s).append (List.isChain_cons.2 ⟨?_, isChain_tokenize u⟩) ?_
    · exact fun t _ h => absurd h.1 (by simp [hc])
    · rintro t - t' ht' ⟨-, h⟩
      obtain rfl : Token.ofChar c = t' := by simpa using ht'
      exact absurd h (by simp [hc])
  rw [← hspelled, tokenize_flatMap_text ?_ hapart]
  intro t ht
  rcases List.mem_append.1 ht with ht | ht
  · exact proper_of_mem_tokenize ht
  · rcases List.mem_cons.1 ht with rfl | ht
    · exact fun w hw => absurd hc (by simp [hw, Token.isWord])
    · exact proper_of_mem_tokenize ht

/-! ## Spans that follow one another -/

/-- The lexemes stand in the text one after another, from byte offset `pos` on. -/
def Placed (s : List Char) : (pos : Nat) → List Lexeme → Prop
  | _, [] => True
  | pos, l :: ls => l.span.start = pos ∧ l.span.Within s ∧ Placed s l.span.stop ls

theorem placed_locate (pre : List Char) (ts : List Token) :
    Placed (pre ++ ts.flatMap Token.text) (byteLength pre) (locate (byteLength pre) ts) := by
  induction ts generalizing pre with
  | nil => trivial
  | cons t ts ih =>
    have hrest := ih (pre ++ t.text)
    rw [byteLength_append, List.append_assoc] at hrest
    refine ⟨rfl, ?_, hrest⟩
    have hstop := Text.isBoundary_byteLength (pre ++ t.text) (ts.flatMap Token.text)
    rw [byteLength_append, List.append_assoc] at hstop
    exact (Text.isBoundary_byteLength pre _).within hstop (Nat.le_add_right _ _)

theorem placed_lexemes (s : List Char) : Placed s 0 (lexemes s) := by
  have h := placed_locate [] (tokenize s)
  rwa [flatMap_text_tokenize, List.nil_append] at h

theorem map_token_locate (pos : Nat) (ts : List Token) :
    (locate pos ts).map Lexeme.token = ts := by
  induction ts generalizing pos with
  | nil => rfl
  | cons t ts ih => simp [locate, ih]

theorem locate_append (pos : Nat) (ts us : List Token) :
    locate pos (ts ++ us)
      = locate pos ts ++ locate (pos + byteLength (ts.flatMap Token.text)) us := by
  induction ts generalizing pos with
  | nil => rfl
  | cons t ts ih =>
    rw [List.flatMap_cons, byteLength_append, ← Nat.add_assoc, List.cons_append, locate, ih]
    rfl

/-- The slice of a lexeme is its token. -/
theorem slice_of_mem_locate (pre : List Char) {ts : List Token} {l : Lexeme}
    (h : l ∈ locate (byteLength pre) ts) :
    l.span.slice (pre ++ ts.flatMap Token.text) = l.token.text := by
  induction ts generalizing pre with
  | nil => exact absurd h (by simp [locate])
  | cons t ts ih =>
    rcases List.mem_cons.1 h with rfl | h
    · exact Text.slice_append pre t.text (ts.flatMap Token.text)
    · rw [← byteLength_append] at h
      rw [List.flatMap_cons, ← List.append_assoc]
      exact ih (pre ++ t.text) h

/-! ## Tilings -/

/-- Where the last of the lexemes ends, or `pos` if there is none. -/
def stopAfter (pos : Nat) : List Lexeme → Nat
  | [] => pos
  | l :: ls => stopAfter l.span.stop ls

/-- The lexemes cover the text from its first byte to its last, each with the token that stands
there, and as few as can be: no word could take in the token next to it. -/
structure Tiles (s : List Char) (ls : List Lexeme) : Prop where
  /-- The first lexeme starts at 0, and every other one where the one before it ends. -/
  placed : Placed s 0 ls
  stop_eq : stopAfter 0 ls = byteLength s
  slice_eq : ∀ l ∈ ls, l.span.slice s = l.token.text
  proper : ∀ l ∈ ls, Proper l.token
  apart : ls.IsChain fun l l' => Apart l.token l'.token

theorem stopAfter_locate (pos : Nat) (ts : List Token) :
    stopAfter pos (locate pos ts) = pos + byteLength (ts.flatMap Token.text) := by
  induction ts generalizing pos with
  | nil => rfl
  | cons t ts ih =>
    rw [List.flatMap_cons, byteLength_append, ← Nat.add_assoc]
    exact ih _

theorem tiles_lexemes (s : List Char) : Tiles s (lexemes s) where
  placed := placed_lexemes s
  stop_eq := by
    have h := stopAfter_locate 0 (tokenize s)
    rwa [flatMap_text_tokenize, Nat.zero_add] at h
  slice_eq l hl := by
    have h := slice_of_mem_locate [] hl
    rwa [flatMap_text_tokenize, List.nil_append] at h
  proper l hl := by
    have hl' := List.mem_map_of_mem (f := Lexeme.token) hl
    rw [lexemes, map_token_locate] at hl'
    exact proper_of_mem_tokenize hl'
  apart := by
    rw [← List.isChain_map (R := Apart) Lexeme.token, lexemes, map_token_locate]
    exact isChain_tokenize s

/-- From any place on, the spans are those that the tokens have if they are placed one after
another, and the tokens spell the rest of the text. -/
theorem Placed.eq_locate {pre u : List Char} {ls : List Lexeme}
    (h : Placed (pre ++ u) (byteLength pre) ls)
    (hstop : stopAfter (byteLength pre) ls = byteLength (pre ++ u))
    (hslice : ∀ l ∈ ls, l.span.slice (pre ++ u) = l.token.text) :
    ls = locate (byteLength pre) (ls.map Lexeme.token) ∧
      u = (ls.map Lexeme.token).flatMap Token.text := by
  induction ls generalizing pre u with
  | nil =>
    rw [byteLength_append] at hstop
    obtain rfl : u = [] := Text.byteLength_eq_zero_iff.1 (Nat.add_eq_left.1 hstop.symm)
    exact ⟨rfl, rfl⟩
  | cons l ls ih =>
    obtain ⟨hstart, hwithin, hrest⟩ := h
    obtain ⟨v, hu, hend⟩ := hwithin.exists_append hstart
    rw [hslice l (by simp)] at hu hend
    subst hu
    rw [← byteLength_append] at hend
    rw [← List.append_assoc] at hrest hstop hslice
    obtain ⟨hls, hv⟩ := ih (hend ▸ hrest) (hend ▸ hstop) fun m hm => hslice m (by simp [hm])
    refine ⟨?_, by rw [List.map_cons, List.flatMap_cons, ← hv]⟩
    rw [List.map_cons, locate, ← byteLength_append, ← hls, ← hend, ← hstart]

theorem Tiles.eq_lexemes {s : List Char} {ls : List Lexeme} (h : Tiles s ls) : ls = lexemes s := by
  have hplaced : Placed ([] ++ s) (byteLength []) ls := h.placed
  obtain ⟨hls, hs⟩ := hplaced.eq_locate h.stop_eq h.slice_eq
  have htokens : tokenize s = ls.map Lexeme.token := by
    rw [hs]
    refine tokenize_flatMap_text ?_ ((List.isChain_map _).2 h.apart)
    simpa using h.proper
  rw [lexemes, htokens]
  exact hls

theorem tiles_iff {s : List Char} {ls : List Lexeme} : Tiles s ls ↔ ls = lexemes s :=
  ⟨Tiles.eq_lexemes, fun h => h ▸ tiles_lexemes s⟩

end BooleanQuery
