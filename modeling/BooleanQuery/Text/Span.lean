/-!
# Byte offsets and spans

Places in a text are byte offsets into its UTF-8 encoding. A `Span` is a half-open range of
such offsets, and `Span.slice` is the part of a text that it covers.
-/

set_option autoImplicit false

namespace BooleanQuery.Text

/-- The number of bytes of the UTF-8 encoding. -/
def byteLength : List Char → Nat
  | [] => 0
  | c :: s => c.utf8Size + byteLength s

/-- The characters that lie wholly within the first `n` bytes. -/
def takeBytes : Nat → List Char → List Char
  | _, [] => []
  | n, c :: s => if c.utf8Size ≤ n then c :: takeBytes (n - c.utf8Size) s else []

/-- What `takeBytes` leaves. -/
def dropBytes : Nat → List Char → List Char
  | _, [] => []
  | n, c :: s => if c.utf8Size ≤ n then dropBytes (n - c.utf8Size) s else c :: s

/-- A half-open range of byte offsets. -/
structure Span where
  /-- The offset of the first byte. -/
  start : Nat
  /-- The offset just past the last byte. -/
  stop : Nat
deriving DecidableEq, Repr

/-- The part of a text that a span covers. -/
def Span.slice (span : Span) (s : List Char) : List Char :=
  takeBytes (span.stop - span.start) (dropBytes span.start s)

theorem byteLength_append (s t : List Char) :
    byteLength (s ++ t) = byteLength s + byteLength t := by
  induction s with
  | nil => simp [byteLength]
  | cons c s ih => simp [byteLength, ih, Nat.add_assoc]

theorem byteLength_eq_zero_iff {s : List Char} : byteLength s = 0 ↔ s = [] := by
  cases s with
  | nil => simp [byteLength]
  | cons c s => simp [byteLength, Nat.ne_of_gt c.utf8Size_pos]

/-- The byte length is the size of the text as a `String`. -/
theorem byteLength_toList (s : String) : byteLength s.toList = s.utf8ByteSize := by
  suffices h : ∀ cs : List Char, byteLength cs = (String.ofList cs).utf8ByteSize by
    rw [h, String.ofList_toList]
  intro cs
  induction cs with
  | nil => simp [byteLength]
  | cons c cs ih =>
    have hsplit : String.ofList (c :: cs) = String.ofList [c] ++ String.ofList cs := by
      rw [← String.ofList_append, List.singleton_append]
    rw [byteLength, ih, hsplit, String.utf8ByteSize_append, ← String.singleton_eq_ofList,
      String.utf8ByteSize_singleton]

/-- An offset that falls between two parts of a text separates them. -/
theorem takeBytes_byteLength_append (s t : List Char) :
    takeBytes (byteLength s) (s ++ t) = s := by
  induction s with
  | nil =>
    cases t with
    | nil => rfl
    | cons c t => simp [byteLength, takeBytes, Nat.not_le.mpr c.utf8Size_pos]
  | cons c s ih => simp [byteLength, takeBytes, ih]

theorem dropBytes_byteLength_append (s t : List Char) :
    dropBytes (byteLength s) (s ++ t) = t := by
  induction s with
  | nil =>
    cases t with
    | nil => rfl
    | cons c t => simp [byteLength, dropBytes, Nat.not_le.mpr c.utf8Size_pos]
  | cons c s ih => simp [byteLength, dropBytes, ih]

/-- The slice between the end of `s` and the start of `u` is what stands there. -/
theorem slice_append (s t u : List Char) :
    (Span.mk (byteLength s) (byteLength s + byteLength t)).slice (s ++ (t ++ u)) = t := by
  simp [Span.slice, dropBytes_byteLength_append, takeBytes_byteLength_append]

end BooleanQuery.Text
