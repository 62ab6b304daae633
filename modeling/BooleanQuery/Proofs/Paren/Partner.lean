import BooleanQuery.Proofs.Paren.Balance
import BooleanQuery.Text.Span

/-!
# The partner of the first parenthesis

Whether a text is enclosed is also decided by one count and one byte offset: from the first
character on, a `(` adds one to the count and a `)` takes one from it, and the `)` that brings it
back to 0 is the partner of the first `(`. The text is enclosed if nothing stands behind that `)`,
and its content is the slice between the two (`content?`).

The count here is not guarded. A `)` that is met at 0 ends it in an outcome of its own, and no text
that begins with a `(` has this outcome (`partnerFrom_ne_underflow`): the scan is over before. So the
count says the same as `enclosed?`, which says the same as balance.
-/

set_option autoImplicit false

namespace BooleanQuery.Paren

open Text (Span byteLength byteLength_append trim)

/-- How the search for a partner ends. -/
inductive Partner where
  /-- The `)` at this byte offset leaves no group open. -/
  | found (position : Nat)
  | missing
  /-- A `)` was to be taken from a count of 0. -/
  | underflow
deriving DecidableEq, Repr

/-- Counts on from byte offset `pos`, where `depth` groups are open. -/
def partnerFrom (pos depth : Nat) : List Char → Partner
  | [] => .missing
  | c :: s =>
    if c = '(' then partnerFrom (pos + c.utf8Size) (depth + 1) s
    else if c = ')' then
      match depth with
      | 0 => .underflow
      | 1 => .found pos
      | depth + 2 => partnerFrom (pos + c.utf8Size) (depth + 1) s
    else partnerFrom (pos + c.utf8Size) depth s

/-- The slice between a first `(` and its partner, if the partner is the last character. -/
def content? (s : List Char) : Option (List Char) :=
  if s.head? = some '(' then
    match partnerFrom 0 0 s with
    | .found position =>
      if position + 1 = byteLength s then some ((Span.mk 1 position).slice s) else none
    | _ => none
  else none

/-- The end of the search that `closeGroup?` tells of, when the text starts at `pos`. -/
def Partner.ofClose? (pos : Nat) : Option (List Char × List Char) → Partner
  | some (inner, _) => .found (pos + byteLength inner)
  | none => .missing

theorem Partner.ofClose?_map (pos : Nat) (c : Char) (r : Option (List Char × List Char)) :
    ofClose? pos (r.map fun p => (c :: p.1, p.2)) = ofClose? (pos + c.utf8Size) r := by
  cases r with
  | none => rfl
  | some p => simp [ofClose?, byteLength, Nat.add_assoc]

theorem partnerFrom_succ (pos depth : Nat) (s : List Char) :
    partnerFrom pos (depth + 1) s = .ofClose? pos (closeGroup? depth s) := by
  induction s generalizing pos depth with
  | nil => rfl
  | cons c s ih =>
    have step : ∀ d, partnerFrom (pos + c.utf8Size) (d + 1) s
        = .ofClose? pos ((closeGroup? d s).map fun p => (c :: p.1, p.2)) := by
      intro d
      rw [ih, Partner.ofClose?_map]
    rcases paren_cases c with rfl | rfl | hc
    · exact step (depth + 1)
    · cases depth with
      | zero => rfl
      | succ depth => exact step depth
    · obtain ⟨hopen, hclose⟩ := isParen_eq_false_iff.1 hc
      simpa [partnerFrom, closeGroup?, hopen, hclose] using step depth

theorem partnerFrom_open (s : List Char) :
    partnerFrom 0 0 ('(' :: s) = .ofClose? 1 (closeGroup? 0 s) :=
  partnerFrom_succ 1 0 s

theorem partnerFrom_ne_underflow {s : List Char} (h : s.head? = some '(') :
    partnerFrom 0 0 s ≠ .underflow := by
  obtain ⟨t, rfl⟩ := List.head?_eq_some_iff.1 h
  rw [partnerFrom_open]
  cases closeGroup? 0 t <;> simp [Partner.ofClose?]

/-- Nothing stands behind a `)` that ends one byte before the text does. -/
theorem close_is_last_iff {inner rest : List Char} :
    1 + byteLength inner + 1 = byteLength ('(' :: (inner ++ ')' :: rest)) ↔ rest = [] := by
  have hlength : byteLength ('(' :: (inner ++ ')' :: rest))
      = 1 + (byteLength inner + (1 + byteLength rest)) := by
    rw [byteLength, byteLength_append, byteLength]
    rfl
  rw [hlength, ← Text.byteLength_eq_zero_iff]
  omega

theorem enclosed?_eq_content? (s : List Char) : enclosed? s = content? s := by
  by_cases hhead : s.head? = some '('
  · obtain ⟨t, rfl⟩ := List.head?_eq_some_iff.1 hhead
    rw [content?, if_pos hhead, partnerFrom_open]
    cases hclose : closeGroup? 0 t with
    | none => simp [enclosed?, hclose, Partner.ofClose?]
    | some p =>
      obtain ⟨inner, rest⟩ := p
      obtain ⟨rfl, -⟩ := eq_of_closeGroup?_eq_some hclose
      have hslice : (Span.mk 1 (1 + byteLength inner)).slice ('(' :: (inner ++ ')' :: rest))
          = inner := Text.slice_append ['('] inner (')' :: rest)
      cases rest with
      | nil => simp [enclosed?, hclose, Partner.ofClose?, close_is_last_iff, hslice]
      | cons d rest => simp [enclosed?, hclose, Partner.ofClose?, close_is_last_iff]
  · rw [content?, if_neg hhead]
    unfold enclosed?
    split
    · exact absurd rfl hhead
    · rfl

/-- A text is enclosed if it is a balanced one between two parentheses. The count that looks for the
partner of the first `(` finds just that, without ever falling below 0. And a text is stripped of
the pair that encloses it, white space around it aside, and otherwise left as it is. -/
theorem enclosed?_agrees_with_balance (s : List Char) :
    (∀ c, enclosed? s = some c ↔ s = '(' :: c ++ [')'] ∧ Balanced c) ∧
    enclosed? s = content? s ∧ (s.head? = some '(' → partnerFrom 0 0 s ≠ .underflow) ∧
    (∀ c, trim s = '(' :: c ++ [')'] → Balanced c → strip s = c) ∧
    ((∀ c, trim s = '(' :: c ++ [')'] → ¬ Balanced c) → strip s = s) := by
  refine ⟨fun _ => enclosed?_eq_some_iff, enclosed?_eq_content? s, partnerFrom_ne_underflow,
    fun _ => strip_of_trim_eq_group, ?_⟩
  intro hnone
  rcases strip_cases s with ⟨c, htrim, hc, -⟩ | ⟨-, hstrip⟩
  · exact absurd hc (hnone c htrim)
  · exact hstrip

/-- The first `(` of a text that is not balanced has its partner all the same. White space goes with
the pair that it stands around, and stays around a text that begins and ends with two groups. -/
theorem enclosed?_agrees_with_balance_early_close :
    ("(é)) (".toList.head? = some '(' ∧ enclosed? "(é)) (".toList = none ∧
      partnerFrom 0 0 "(é)) (".toList = .found 3 ∧
      partnerFrom 0 0 "(é)) (".toList ≠ .underflow) ∧
    (trim "\t(é (x))\u3000".toList = '(' :: "é (x)".toList ++ [')'] ∧ Balanced "é (x)".toList ∧
      strip "\t(é (x))\u3000".toList = "é (x)".toList) ∧
    ((∀ c, trim " (a) AND (b) ".toList = '(' :: c ++ [')'] → ¬ Balanced c) ∧
      strip " (a) AND (b) ".toList = " (a) AND (b) ".toList) := by
  have hhead : "(é)) (".toList.head? = some '(' := by decide +kernel
  have htrim : trim "\t(é (x))\u3000".toList = '(' :: "é (x)".toList ++ [')'] := by decide +kernel
  have hbal : Balanced "é (x)".toList := by decide +kernel
  have hnone : ∀ c, trim " (a) AND (b) ".toList = '(' :: c ++ [')'] → ¬ Balanced c := by
    intro c hc hbal
    have henc := enclosed?_eq_some_iff.2 ⟨hc, hbal⟩
    rw [show enclosed? (trim " (a) AND (b) ".toList) = none by decide +kernel] at henc
    exact absurd henc (by simp)
  obtain ⟨-, -, hcount, -, -⟩ := enclosed?_agrees_with_balance "(é)) (".toList
  obtain ⟨-, -, -, hstrip, -⟩ := enclosed?_agrees_with_balance "\t(é (x))\u3000".toList
  obtain ⟨-, -, -, -, hleft⟩ := enclosed?_agrees_with_balance " (a) AND (b) ".toList
  exact ⟨⟨hhead, by decide +kernel, by decide +kernel, hcount hhead⟩,
    ⟨htrim, hbal, hstrip _ htrim hbal⟩, hnone, hleft hnone⟩

end BooleanQuery.Paren
