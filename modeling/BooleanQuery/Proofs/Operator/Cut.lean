import BooleanQuery.Operator.Operands
import BooleanQuery.Proofs.Token

/-!
# Cutting a text at an operator

`Operator.operands` cuts by the places of tokens. `cut` is the same division read off the
characters: the text is walked once with the number of groups that are open, which never drops
below 0, and wherever the separator stands outside all groups one operand ends there and the next
begins right after it. `operands_eq_cut` says that the two agree on every text, and everything
else about operands is proved of `cut`.
-/

set_option autoImplicit false

namespace BooleanQuery.Operator

open Paren (isParen)

/-! ## Keywords -/

/-- The characters of a separator. -/
def sep (op : Operator) : List Char := ' ' :: op.keyword.toList ++ [' ']

theorem toList_separator (op : Operator) : op.separator.toList = op.sep := by
  cases op <;> rfl

theorem isWord_keyword (op : Operator) : IsWord op.keyword.toList := by
  intro c hc
  cases op with
  | and =>
    have hc : c ∈ ['A', 'N', 'D'] := hc
    simp only [List.mem_cons, List.not_mem_nil, or_false] at hc
    rcases hc with rfl | rfl | rfl <;> decide
  | or =>
    have hc : c ∈ ['O', 'R'] := hc
    simp only [List.mem_cons, List.not_mem_nil, or_false] at hc
    rcases hc with rfl | rfl <;> decide

theorem keyword_ne_nil (op : Operator) : op.keyword.toList ≠ [] := by
  cases op <;> decide

/-! ## The walk -/

/-- The number of groups that are open after a character; a `)` that closes nothing counts as
text. -/
def depthAfter (depth : Nat) (c : Char) : Nat :=
  if c = '(' then depth + 1 else if c = ')' then depth - 1 else depth

theorem depthAfter_of_not_isParen {c : Char} (h : isParen c = false) (depth : Nat) :
    depthAfter depth c = depth := by
  obtain ⟨hopen, hclose⟩ := Paren.isParen_eq_false_iff.1 h
  rw [depthAfter, if_neg hopen, if_neg hclose]

/-- The parts of a text between the separators that stand outside all groups, where `depth` groups
are open in front of the text. -/
def cut (op : Operator) (depth : Nat) : List Char → List (List Char)
  | [] => [[]]
  | c :: s =>
    if depth = 0 ∧ op.sep <+: c :: s then [] :: cut op 0 ((c :: s).drop op.sep.length)
    else (cut op (depthAfter depth c) s).modifyHead (c :: ·)
termination_by s => s.length
decreasing_by
  · have hsep : 0 < op.sep.length := Nat.succ_pos _
    rw [List.length_drop, List.length_cons]
    omega
  · exact Nat.lt_succ_self _

variable {op : Operator}

@[simp] theorem cut_nil (depth : Nat) : cut op depth [] = [[]] := by
  rw [cut]

theorem cut_sep_append (s : List Char) : cut op 0 (op.sep ++ s) = [] :: cut op 0 s := by
  have hsep : op.sep ++ s = ' ' :: (op.keyword.toList ++ ' ' :: s) := by simp [sep]
  have hcut : op.sep <+: ' ' :: (op.keyword.toList ++ ' ' :: s) := hsep ▸ List.prefix_append _ s
  rw [hsep, cut, if_pos ⟨rfl, hcut⟩, ← hsep, List.drop_left]

theorem cut_cons {depth : Nat} {c : Char} {s : List Char}
    (h : ¬ (depth = 0 ∧ op.sep <+: c :: s)) :
    cut op depth (c :: s) = (cut op (depthAfter depth c) s).modifyHead (c :: ·) := by
  rw [cut, if_neg h]

theorem cut_cons_of_ne {c : Char} (h : c ≠ ' ') (depth : Nat) (s : List Char) :
    cut op depth (c :: s) = (cut op (depthAfter depth c) s).modifyHead (c :: ·) := by
  refine cut_cons fun ⟨_, hsep⟩ => h ?_
  exact (List.cons_prefix_cons.1 hsep).1.symm

theorem modifyHead_nil_append (ps : List (List Char)) : ps.modifyHead ([] ++ ·) = ps := by
  cases ps <;> rfl

theorem cut_word_append {w : List Char} (hw : IsWord w) (depth : Nat) (s : List Char) :
    cut op depth (w ++ s) = (cut op depth s).modifyHead (w ++ ·) := by
  induction w with
  | nil => exact (modifyHead_nil_append (cut op depth s)).symm
  | cons c w ih =>
    obtain ⟨hc, hp⟩ := hw c (by simp)
    rw [List.cons_append, cut_cons_of_ne hc, depthAfter_of_not_isParen hp,
      ih fun d hd => hw d (by simp [hd]), List.modifyHead_modifyHead]
    rfl

theorem cut_ne_nil (op : Operator) (depth : Nat) (s : List Char) : cut op depth s ≠ [] := by
  fun_induction cut op depth s with
  | case1 => simp
  | case2 => simp
  | case3 depth c s h ih => simpa using ih

/-- Joined by separators, the parts are the text again. -/
theorem intercalate_cut (depth : Nat) (s : List Char) :
    op.sep.intercalate (cut op depth s) = s := by
  fun_induction cut op depth s with
  | case1 => simp
  | case2 depth c s h ih =>
    obtain ⟨t, ht⟩ := h.2
    rw [← ht, List.drop_left] at ih ⊢
    rw [List.intercalate_cons_of_ne_nil (cut_ne_nil op 0 t), ih, List.nil_append]
  | case3 depth c s h ih =>
    obtain ⟨p, ps, hps⟩ := List.exists_cons_of_ne_nil (cut_ne_nil op (depthAfter depth c) s)
    rw [hps] at ih ⊢
    rw [List.modifyHead_cons, List.intercalate_cons_cons_left, ih]

/-! ## Places and characters -/

section Places

open Text (byteLength byteLength_append)

/-- What the places of operands cut out of the text `pre ++ cur`, followed by tokens, when `pre`
has been dealt with and `cur` belongs to the current operand. -/
def operandsFrom (op : Operator) (pre cur : List Char) (depth : Nat) (ts : List Token) :
    List (List Char) :=
  let text := pre ++ cur ++ ts.flatMap Token.text
  (operandSpans op (byteLength text) depth (byteLength pre)
    (locate (byteLength (pre ++ cur)) ts)).map fun span => span.slice text

variable (pre cur : List Char) (depth : Nat) (ts : List Token)

theorem operandsFrom_nil : operandsFrom op pre cur depth [] = [cur] := by
  have hslice := Text.slice_append pre cur []
  simpa [operandsFrom, locate, operandSpans, byteLength_append] using hslice

theorem operandsFrom_openParen :
    operandsFrom op pre cur depth (.openParen :: ts)
      = operandsFrom op pre (cur ++ ['(']) (depth + 1) ts := by
  simp [operandsFrom, locate, operandSpans, byteLength_append, Token.text, Nat.add_assoc]

theorem operandsFrom_closeParen :
    operandsFrom op pre cur depth (.closeParen :: ts)
      = operandsFrom op pre (cur ++ [')']) (depth - 1) ts := by
  simp [operandsFrom, locate, operandSpans, byteLength_append, Token.text, Nat.add_assoc]

theorem operandsFrom_word (w : List Char) :
    operandsFrom op pre cur depth (.word w :: ts)
      = operandsFrom op pre (cur ++ w) depth ts := by
  simp [operandsFrom, locate, operandSpans, byteLength_append, Token.text, Nat.add_assoc]

theorem operandsFrom_space {ts : List Token} (h : ∀ w us, ts ≠ .word w :: .space :: us) :
    operandsFrom op pre cur depth (.space :: ts)
      = operandsFrom op pre (cur ++ [' ']) depth ts := by
  have hspans : ∀ stop start pos span, operandSpans op stop depth start
      (⟨span, .space⟩ :: locate pos ts) = operandSpans op stop depth start (locate pos ts) := by
    intro stop start pos span
    refine operandSpans.eq_5 op stop depth start ⟨span, .space⟩ _ (by simp) (by simp) ?_
    intro before span' w after ls _ hls
    match ts with
    | [] => simp [locate] at hls
    | [t] => simp [locate] at hls
    | t :: u :: us =>
      simp only [locate, List.cons.injEq, Lexeme.mk.injEq] at hls
      obtain ⟨⟨-, rfl⟩, ⟨-, rfl⟩, -⟩ := hls
      exact h w us rfl
  simp [operandsFrom, locate, hspans, byteLength_append, Token.text, Nat.add_assoc]

theorem operandsFrom_operator :
    operandsFrom op pre cur 0 (.space :: .word op.keyword.toList :: .space :: ts)
      = cur :: operandsFrom op (pre ++ cur ++ op.sep) [] 0 ts := by
  have hslice := Text.slice_append pre cur (op.sep ++ ts.flatMap Token.text)
  simp only [sep, List.cons_append, List.append_assoc, List.nil_append] at hslice
  simp [operandsFrom, locate, operandSpans, byteLength_append, Token.text, sep, byteLength,
    Nat.add_assoc, hslice]

theorem operandsFrom_space_word {w : List Char} (h : ¬ (depth = 0 ∧ w = op.keyword.toList)) :
    operandsFrom op pre cur depth (.space :: .word w :: .space :: ts)
      = operandsFrom op pre (cur ++ ' ' :: w) depth (.space :: ts) := by
  simp [operandsFrom, locate, operandSpans, byteLength_append, Token.text, byteLength,
    Nat.add_assoc, h]

end Places

/-! ## Agreement -/

/-- From any place in front of `s` on, the places of tokens divide the text as the walk over its
characters does. -/
def CutsAlike (op : Operator) (s : List Char) : Prop :=
  ∀ pre cur depth,
    operandsFrom op pre cur depth (tokenize s) = (cut op depth s).modifyHead (cur ++ ·)

/-- A piece that joins the current operand is a piece of it for the walk as well. -/
theorem CutsAlike.join {t u : List Char} (h : CutsAlike op u) {depth d : Nat}
    (hcut : cut op depth (t ++ u) = (cut op d u).modifyHead (t ++ ·)) (pre cur : List Char) :
    operandsFrom op pre (cur ++ t) d (tokenize u)
      = (cut op depth (t ++ u)).modifyHead (cur ++ ·) := by
  rw [h pre (cur ++ t) d, hcut, List.modifyHead_modifyHead]
  congr 1
  funext v
  exact List.append_assoc cur t v

/-- No separator stands at a space that no keyword and space follow. -/
theorem sep_prefix_space {s : List Char} (h : op.sep <+: ' ' :: s) :
    ∃ u, s = op.keyword.toList ++ ' ' :: u := by
  obtain ⟨u, hu⟩ := h
  refine ⟨u, ?_⟩
  simpa [sep] using hu.symm

/-- A space that no keyword follows, or that stands in a group, is like any other character. -/
theorem cut_space {depth : Nat} {u : List Char}
    (h : depth = 0 → ∀ v, u ≠ op.keyword.toList ++ ' ' :: v) :
    cut op depth (' ' :: u) = (cut op depth u).modifyHead (' ' :: ·) := by
  apply cut_cons
  rintro ⟨hdepth, hsep⟩
  obtain ⟨v, hv⟩ := sep_prefix_space hsep
  exact h hdepth v hv

/-- What comes after a space makes it the beginning of an operator, or is a word and a space that
do not, or is neither. -/
theorem space_cases (op : Operator) (depth : Nat) (u : List Char) :
    (depth = 0 ∧ ∃ v, u = op.keyword.toList ++ ' ' :: v) ∨
    (∃ w v, u = w ++ ' ' :: v ∧ IsWord w ∧ w ≠ [] ∧ ¬ (depth = 0 ∧ w = op.keyword.toList)) ∨
    (∀ w us, tokenize u ≠ .word w :: .space :: us) := by
  by_cases hop : ∃ w us, tokenize u = .word w :: .space :: us
  · obtain ⟨w, us, hu⟩ := hop
    obtain ⟨u₁, rfl, hu₁, hne, hw⟩ := exists_of_tokenize_eq_cons hu
    obtain ⟨v, rfl, -, -, -⟩ := exists_of_tokenize_eq_cons hu₁.symm
    by_cases hkeyword : depth = 0 ∧ w = op.keyword.toList
    · obtain ⟨hdepth, rfl⟩ := hkeyword
      exact Or.inl ⟨hdepth, v, rfl⟩
    · exact Or.inr (Or.inl ⟨w, v, rfl, hw w rfl, hne, hkeyword⟩)
  · exact Or.inr (Or.inr fun w us hu => hop ⟨w, us, hu⟩)

/-- A word and a space behind a space belong to the current operand, if they make no operator with
it. The second space may still begin one. -/
theorem CutsAlike.space_word {w v : List Char} (h : CutsAlike op (' ' :: v)) (hw : IsWord w)
    (hne : w ≠ []) {depth : Nat} (hkeyword : ¬ (depth = 0 ∧ w = op.keyword.toList))
    (pre cur : List Char) :
    operandsFrom op pre cur depth (.space :: tokenize (w ++ ' ' :: v))
      = (cut op depth (' ' :: (w ++ ' ' :: v))).modifyHead (cur ++ ·) := by
  have hspace : cut op depth (' ' :: (w ++ ' ' :: v))
      = (cut op depth (w ++ ' ' :: v)).modifyHead (' ' :: ·) := by
    apply cut_space
    intro hdepth x hx
    -- a text begins with one word only
    have htokens := tokenize_word_append hw hne v
    rw [hx, tokenize_word_append (isWord_keyword op) (keyword_ne_nil op)] at htokens
    exact hkeyword ⟨hdepth, (Token.word.inj (List.cons.inj htokens).1).symm⟩
  have hpiece : cut op depth (' ' :: w ++ ' ' :: v)
      = (cut op depth (' ' :: v)).modifyHead (' ' :: w ++ ·) := by
    rw [List.cons_append, hspace, cut_word_append hw, List.modifyHead_modifyHead]
    rfl
  rw [tokenize_word_append hw hne, operandsFrom_space_word pre cur depth _ hkeyword]
  exact h.join hpiece pre cur

theorem CutsAlike.space {u : List Char} (h : ∀ v, v <:+ u → CutsAlike op v) (pre cur : List Char)
    (depth : Nat) :
    operandsFrom op pre cur depth (.space :: tokenize u)
      = (cut op depth (' ' :: u)).modifyHead (cur ++ ·) := by
  rcases space_cases op depth u with
    ⟨rfl, v, rfl⟩ | ⟨w, v, rfl, hw, hne, hkeyword⟩ | hother
  · have hsep : ' ' :: (op.keyword.toList ++ ' ' :: v) = op.sep ++ v := by simp [sep]
    rw [tokenize_word_append (isWord_keyword op) (keyword_ne_nil op), operandsFrom_operator,
      h v ⟨op.keyword.toList ++ [' '], by simp⟩, hsep, cut_sep_append, List.modifyHead_cons,
      List.append_nil, modifyHead_nil_append]
  · exact (h (' ' :: v) (List.suffix_append w _)).space_word hw hne hkeyword pre cur
  · rw [operandsFrom_space pre cur depth hother]
    apply (h u List.suffix_rfl).join
    apply cut_space
    rintro - v rfl
    exact hother _ _ (tokenize_word_append (isWord_keyword op) (keyword_ne_nil op) v)

/-- The first token of a text joins the current operand or begins an operator; the rest of the text
is divided alike already. -/
theorem CutsAlike.cons {c : Char} {s : List Char} (h : ∀ v, v <:+ s → CutsAlike op v) :
    CutsAlike op (c :: s) := by
  intro pre cur depth
  cases htokens : tokenize (c :: s) with
  | nil => exact absurd (tokenize_eq_nil_iff.1 htokens) (List.cons_ne_nil c s)
  | cons t ts =>
    obtain ⟨u, hu, rfl, hne, hword⟩ := exists_of_tokenize_eq_cons htokens
    have hsuffix : u <:+ s := by
      obtain ⟨d, w, hw⟩ := List.exists_cons_of_ne_nil hne
      rw [hw] at hu
      exact ⟨w, (List.cons.inj hu).2.symm⟩
    rw [hu]
    cases t with
    | openParen =>
      rw [operandsFrom_openParen]
      exact (h u hsuffix).join (cut_cons_of_ne (by decide) depth u) pre cur
    | closeParen =>
      rw [operandsFrom_closeParen]
      exact (h u hsuffix).join (cut_cons_of_ne (by decide) depth u) pre cur
    | word w =>
      rw [operandsFrom_word]
      exact (h u hsuffix).join (cut_word_append (hword w rfl) depth u) pre cur
    | space => exact CutsAlike.space (fun v hv => h v (hv.trans hsuffix)) pre cur depth

theorem cutsAlike (op : Operator) (s : List Char) : ∀ v, v <:+ s → CutsAlike op v := by
  induction s with
  | nil =>
    intro v hv pre cur depth
    rw [List.suffix_nil.1 hv]
    show operandsFrom op pre cur depth [] = _
    rw [operandsFrom_nil, cut_nil, List.modifyHead_cons, List.append_nil]
  | cons c s ih =>
    intro v hv
    rcases List.suffix_cons_iff.1 hv with rfl | hv
    · exact CutsAlike.cons ih
    · exact ih v hv

theorem operands_eq_cut (op : Operator) (s : List Char) : op.operands s = cut op 0 s := by
  have h := cutsAlike op s s List.suffix_rfl [] [] 0
  rw [modifyHead_nil_append] at h
  simp only [operandsFrom, flatMap_text_tokenize, List.nil_append] at h
  exact h

end BooleanQuery.Operator
