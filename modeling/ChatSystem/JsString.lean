/-
ChatSystem/JsString.lean

The operations on JavaScript strings that are needed to read text fields, on
lists of characters.

* `trim` — white space and line terminators at both ends;
* `removeNul` — `replace(/\0/g, "")`;
* `startsWith`, `includes` — searches for a literal.

`split(sep)` with a separator of one character is `List.splitOn`.
-/
import ChatSystem.Utf8
import Mathlib.Data.List.DropRight
import Mathlib.Data.List.Infix

namespace Js

/-- White space and line terminators of the language. -/
def isSpace (c : Char) : Bool :=
  c.toNat ∈ [0x09, 0x0A, 0x0B, 0x0C, 0x0D, 0x20, 0xA0, 0x1680, 0x2028, 0x2029, 0x202F, 0x205F,
    0x3000, 0xFEFF] || 0x2000 ≤ c.toNat && c.toNat ≤ 0x200A

/-- `s.trim()`. -/
def trim (s : List Char) : List Char := (s.dropWhile isSpace).rdropWhile isSpace

/-- U+0000. -/
def nul : Char := Utf8.ascii 0

/-- `s.replace(/\0/g, "")`. -/
def removeNul (s : List Char) : List Char := s.filter (· != nul)

/-- `s.startsWith(p)`. -/
def startsWith (s p : List Char) : Bool := p.isPrefixOf s

/-- `s.includes(p)`. -/
def includes (s p : List Char) : Bool := s.tails.any (p.isPrefixOf ·)

@[simp] theorem removeNul_append (s t : List Char) :
    removeNul (s ++ t) = removeNul s ++ removeNul t :=
  List.filter_append s t

theorem removeNul_eq_self {s : List Char} (h : nul ∉ s) : removeNul s = s := by
  refine List.filter_eq_self.mpr fun c hc => ?_
  have hne : c ≠ nul := fun heq => h (heq ▸ hc)
  simpa using hne

/-- What is not white space is left by `trim`. -/
theorem mem_trim {s : List Char} {c : Char} (hc : c ∈ s) (hspace : isSpace c = false) :
    c ∈ trim s := by
  have hfront : c ∈ s.dropWhile isSpace := by
    rw [← List.takeWhile_append_dropWhile (p := isSpace) (l := s)] at hc
    rcases List.mem_append.mp hc with hc | hc
    · have := List.mem_takeWhile_imp hc
      simp [hspace] at this
    · exact hc
  rw [← List.rdropWhile_append_rtakeWhile (p := isSpace) (l := s.dropWhile isSpace)]
    at hfront
  rcases List.mem_append.mp hfront with hc | hc
  · exact hc
  · have := List.mem_rtakeWhile_imp hc
    simp [hspace] at this

/-! ### Bytes read as a string -/

theorem nul_mem_decode {bs : List UInt8} : nul ∈ Utf8.decode bs ↔ (0 : UInt8) ∈ bs :=
  Utf8.mem_decode_iff (by decide) bs

/-- NULs behind a text are read as NULs. -/
theorem decode_append_zeros (bs : List UInt8) (k : ℕ) :
    Utf8.decode (bs ++ List.replicate k 0) = Utf8.decode bs ++ List.replicate k nul := by
  induction k generalizing bs with
  | zero => simp
  | succ k ih =>
    have hzero : Utf8.IsAscii 0 := by decide
    rw [List.replicate_succ, Utf8.decode_append_ascii bs hzero]
    have hrest := ih []
    rw [List.nil_append, Utf8.decode_nil, List.nil_append] at hrest
    rw [hrest, List.replicate_succ]
    rfl

/-- A NUL-free text is read from a zero-filled field as it is. -/
theorem removeNul_decode_zeros {bs : List UInt8} (h : (0 : UInt8) ∉ bs) (k : ℕ) :
    removeNul (Utf8.decode (bs ++ List.replicate k 0)) = Utf8.decode bs := by
  have hzeros : removeNul (List.replicate k nul) = [] := by
    refine List.filter_eq_nil_iff.mpr fun c hc => ?_
    rw [List.eq_of_mem_replicate hc]
    simp
  rw [decode_append_zeros, removeNul_append, hzeros, List.append_nil,
    removeNul_eq_self (mt nul_mem_decode.mp h)]

end Js
