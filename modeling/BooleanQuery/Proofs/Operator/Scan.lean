import BooleanQuery.Proofs.Operator.Pieces
import BooleanQuery.Proofs.Token.LongestMatch

/-!
# The scan over the lexemes

Before the lexemes are scanned they have to be found, and the way to find them may fail. A scan of
those that some `Finder` finds ends with the first fault in the text (`Finder.operands?`). If it looks
for the longest tokens there is none, and the operands are those of the text
(`Finder.LongestMatch.operands?_eq_ok`).

`operandSpans` works on lexemes and byte offsets, and that asks for two things that a walk over the
characters does not have to care about. A span has to begin where a character begins, end where one
ends, and not end before it begins: otherwise there is nothing to slice. Every span of the scan is
so, because the lexemes stand in the text one after another (`within_of_mem_operandSpans`). And the
scan takes one from the count of open groups at every `)`, which changes nothing at 0: in a balanced
text that does not come up, so that a scan that gives up there finds the same spans
(`strictSpans?_eq_some`).

What the scan finds in a text without parentheses is what cutting it everywhere finds.
-/

set_option autoImplicit false

namespace BooleanQuery

open Text (Span IsBoundary byteLength)

/-! ## Scanning the lexemes that are found -/

/-- The operands of a text whose lexemes have to be found, or the first fault in it. -/
def Finder.operands? (find : Finder) (op : Operator) (s : List Char) :
    Except Rejection (List (List Char)) :=
  (find.lexemes? s).map fun ls =>
    (op.operandSpans (byteLength s) 0 0 ls).map fun span => span.slice s

/-- Whatever finds the longest tokens, no text is refused, and the operands are the same. -/
theorem Finder.LongestMatch.operands?_eq_ok {find : Finder} (h : find.LongestMatch) (op : Operator)
    (s : List Char) : find.operands? op s = .ok (op.operands s) := by
  rw [Finder.operands?, h.lexemes?_eq_ok]
  rfl

namespace Operator

open Paren (isParen openAfter? Balanced hasParen)

variable {op : Operator}

/-! ## Spans that can be sliced -/

/-- The scan takes its offsets from the ends of lexemes, and never goes back. -/
theorem within_of_mem_operandSpans {s : List Char} {depth start pos : Nat} {ls : List Lexeme}
    (hstart : IsBoundary start s) (hle : start ≤ pos) (hls : Placed s pos ls) :
    ∀ span ∈ op.operandSpans (byteLength s) depth start ls, span.Within s := by
  fun_induction operandSpans op (byteLength s) depth start ls generalizing pos with
  | case1 depth start =>
    intro span hspan
    obtain rfl := List.mem_singleton.1 hspan
    exact hstart.within ⟨s, [], by simp, rfl⟩ hstart.le
  | case2 depth start place ls ih =>
    obtain ⟨rfl, hplace, hls⟩ := hls
    exact ih hstart (Nat.le_trans hle hplace.start_le_stop) hls
  | case3 depth start place ls ih =>
    obtain ⟨rfl, hplace, hls⟩ := hls
    exact ih hstart (Nat.le_trans hle hplace.start_le_stop) hls
  | case4 depth start before place w after ls hop ih =>
    obtain ⟨rfl, hbefore, -, -, -, hafter, hls⟩ := hls
    intro span hspan
    rcases List.mem_cons.1 hspan with rfl | hspan
    · exact hstart.within hbefore.start_boundary hle
    · exact ih hafter.stop_boundary (Nat.le_refl _) hls span hspan
  | case5 depth start before place w after ls hop ih =>
    obtain ⟨rfl, hbefore, hw, hword, hrest⟩ := hls
    have hpos := Nat.le_trans hbefore.start_le_stop (hw ▸ hword.start_le_stop)
    exact ih hstart (Nat.le_trans hle hpos) hrest
  | case6 depth start l ls _ _ _ ih =>
    obtain ⟨rfl, hplace, hls⟩ := hls
    exact ih hstart (Nat.le_trans hle hplace.start_le_stop) hls

/-! ## Scanning a balanced text -/

/-- The spans of `operandSpans`, unless a `)` comes up where no group is open. -/
def strictSpans? (op : Operator) (stop : Nat) :
    (depth start : Nat) → List Lexeme → Option (List Span)
  | _, start, [] => some [⟨start, stop⟩]
  | depth, start, ⟨_, .openParen⟩ :: ls => strictSpans? op stop (depth + 1) start ls
  | 0, _, ⟨_, .closeParen⟩ :: _ => none
  | depth + 1, start, ⟨_, .closeParen⟩ :: ls => strictSpans? op stop depth start ls
  | depth, start, ⟨before, .space⟩ :: ⟨_, .word w⟩ :: ⟨after, .space⟩ :: ls =>
    if depth = 0 ∧ w = op.keyword.toList then
      (strictSpans? op stop 0 after.stop ls).map (⟨start, before.start⟩ :: ·)
    else strictSpans? op stop depth start (⟨after, .space⟩ :: ls)
  | depth, start, _ :: ls => strictSpans? op stop depth start ls

/-- The scan counts the groups that are open, as long as each `)` closes one. -/
theorem strictSpans?_of_openAfter? {stop depth start e : Nat} {ls : List Lexeme}
    (hopen : openAfter? depth (ls.flatMap fun l => l.token.text) = some e)
    (hwords : ∀ l ∈ ls, ∀ w, l.token = .word w → IsWord w) :
    op.strictSpans? stop depth start ls = some (op.operandSpans stop depth start ls) := by
  have hspace : Balanced Token.space.text := rfl
  fun_induction operandSpans op stop depth start ls with
  | case1 depth start => rfl
  | case2 depth start place ls ih => exact ih hopen fun l hl => hwords l (by simp [hl])
  | case3 depth start place ls ih =>
    cases depth with
    | zero => exact absurd hopen (by simp [Token.text])
    | succ depth => exact ih hopen fun l hl => hwords l (by simp [hl])
  | case4 depth start before place w after ls hop ih =>
    have hw : Balanced (Token.word w).text := (hwords ⟨place, .word w⟩ (by simp) w rfl).balanced
    rw [List.flatMap_cons, hspace.openAfter?_append, List.flatMap_cons, hw.openAfter?_append,
      List.flatMap_cons, hspace.openAfter?_append, hop.1] at hopen
    rw [strictSpans?, if_pos hop, ih hopen fun l hl => hwords l (by simp [hl])]
    rfl
  | case5 depth start before place w after ls hop ih =>
    have hw : Balanced (Token.word w).text := (hwords ⟨place, .word w⟩ (by simp) w rfl).balanced
    rw [List.flatMap_cons, hspace.openAfter?_append, List.flatMap_cons,
      hw.openAfter?_append] at hopen
    rw [strictSpans?, if_neg hop]
    exact ih hopen fun l hl => hwords l (List.mem_cons_of_mem _ (List.mem_cons_of_mem _ hl))
  | case6 depth start l ls hnopen hnclose hnop ih =>
    have hl : Balanced l.token.text := by
      refine Token.balanced_text ?_ ?_ (hwords l (by simp))
      · exact fun h => hnopen l.span (by rw [← h])
      · exact fun h => hnclose l.span (by rw [← h])
    rw [List.flatMap_cons, hl.openAfter?_append] at hopen
    rw [strictSpans?]
    · exact ih hopen fun m hm => hwords m (by simp [hm])
    · exact hnopen
    · exact hnop
    · exact fun place _ => hnclose place
    · exact fun _ place _ => hnclose place

/-- In a balanced text no `)` comes up where the scan has no group open. -/
theorem strictSpans?_eq_some (op : Operator) {s : List Char} (h : Balanced s) :
    op.strictSpans? (byteLength s) 0 0 (lexemes s)
      = some (op.operandSpans (byteLength s) 0 0 (lexemes s)) := by
  have htokens : (lexemes s).map Lexeme.token = tokenize s := map_token_locate 0 (tokenize s)
  apply strictSpans?_of_openAfter? (e := 0)
  · rw [← List.flatMap_map, htokens, flatMap_text_tokenize]
    exact h.openAfter? 0
  · intro l hl w hw
    refine isWord_of_mem_tokenize (s := s) ?_
    rw [← htokens, ← hw]
    exact List.mem_map_of_mem hl

/-! ## Texts without parentheses -/

theorem cut_eq_pieces {s : List Char} (h : hasParen s = false) : cut op 0 s = pieces op s := by
  fun_induction pieces op s with
  | case1 => exact cut_nil 0
  | case2 c s hsep ih =>
    obtain ⟨t, ht⟩ := hsep
    rw [← ht, List.drop_left] at ih ⊢
    rw [cut_sep_append, ih (Paren.hasParen_of_infix h (ht ▸ (List.suffix_append _ t).isInfix))]
  | case3 c s hsep ih =>
    have hc : isParen c = false := Paren.isParen_of_mem h List.mem_cons_self
    rw [cut_cons fun hcut => hsep hcut.2, depthAfter_of_not_isParen hc,
      ih (Paren.hasParen_of_infix h (List.suffix_cons c s).isInfix)]

/-! ## Any text -/

/-- Every text is scanned to its end, whatever its parentheses are. The operands are the parts that
the walk over the characters finds between separators outside all groups; each is the slice of a
span that covers whole characters of the text, and joined by the operator they are the text again.
Where there are no parentheses, they are the parts between all separators. -/
theorem operands_scan (op : Operator) (e : String) :
    (tokenize e.toList).flatMap Token.text = e.toList ∧
    op.operands e.toList = cut op 0 e.toList ∧
    (∀ span ∈ op.operandSpans (byteLength e.toList) 0 0 (lexemes e.toList),
      span.Within e.toList) ∧
    (toString op).intercalate ((op.operands e.toList).map String.ofList) = e ∧
    (hasParen e.toList = false → op.operands e.toList = pieces op e.toList) := by
  refine ⟨flatMap_text_tokenize e.toList, operands_eq_cut op e.toList, ?_, ?_, ?_⟩
  · exact within_of_mem_operandSpans ⟨[], e.toList, rfl, rfl⟩ (Nat.le_refl 0) (placed_lexemes _)
  · apply String.toList_inj.1
    have hparts : ((op.operands e.toList).map String.ofList).map String.toList
        = op.operands e.toList := by simp [Function.comp_def]
    rw [String.toList_intercalate, hparts]
    exact (congrArg (List.intercalate · _) (toList_separator op)).trans
      (intercalate_operands e.toList)
  · intro h
    rw [operands_eq_cut, cut_eq_pieces h]

/-- A `)` that closes nothing is text, and a `(` that stays open hides the operators behind it. Of
three keywords in a row the second has no space left in front, and the white space that is no plain
space makes the last one part of a word. -/
theorem operands_scan_unbalanced :
    (Operator.or.operands "é) OR (a OR b OR c".toList = ["é)".toList, "(a OR b OR c".toList] ∧
      Operator.or.operands "é) OR (a OR b OR c".toList
        = cut .or 0 "é) OR (a OR b OR c".toList ∧
      ⟨7, 19⟩ ∈ Operator.or.operandSpans (byteLength "é) OR (a OR b OR c".toList) 0 0
        (lexemes "é) OR (a OR b OR c".toList) ∧
      (Span.mk 7 19).Within "é) OR (a OR b OR c".toList) ∧
    (hasParen "é OR OR OR b OR\u3000c".toList = false ∧
      pieces .or "é OR OR OR b OR\u3000c".toList
        = ["é".toList, "OR".toList, "b OR\u3000c".toList]) := by
  have hoperands : Operator.or.operands "é) OR (a OR b OR c".toList
      = ["é)".toList, "(a OR b OR c".toList] := by decide +kernel
  have hspan : ⟨7, 19⟩ ∈ Operator.or.operandSpans (byteLength "é) OR (a OR b OR c".toList) 0 0
      (lexemes "é) OR (a OR b OR c".toList) := by decide +kernel
  have hparen : hasParen "é OR OR OR b OR\u3000c".toList = false := by decide +kernel
  have hplain : Operator.or.operands "é OR OR OR b OR\u3000c".toList
      = ["é".toList, "OR".toList, "b OR\u3000c".toList] := by decide +kernel
  obtain ⟨-, hcut, hwithin, -, -⟩ := operands_scan .or "é) OR (a OR b OR c"
  obtain ⟨-, -, -, -, hpieces⟩ := operands_scan .or "é OR OR OR b OR\u3000c"
  exact ⟨⟨hoperands, hcut, hspan, hwithin _ hspan⟩, hparen, (hpieces hparen).symm.trans hplain⟩

end Operator

end BooleanQuery
