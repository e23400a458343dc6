/-
ChatSystem/Scans.lean

How far the functions of the C library read behind a pointer.  A pointer is
the list of bytes from where it points to the end of its object, as in
`ChatSystem/CStr.lean`; a read that wants the byte behind the last one has left
the object.

* `whole` — `%s` and `strlen`: up to the NUL;
* `upTo n` — `strncpy(dst, p, n)`: up to the NUL, at most `n` bytes;
* `against s` — `strcmp(p, s)` with a terminated string `s`: up to the NUL or
  the first byte that differs.

`Scan.looked` counts the bytes looked at.  A bounded read of an object that
is larger than its bound is safe whatever the bytes are (`ends_upTo`,
`ends_against`); an unbounded one is safe exactly when there is a NUL
(`ends_whole_iff`).
-/
import ChatSystem.CStr

namespace CStr

inductive Scan
  | whole
  | upTo (n : ℕ)
  | against (s : List UInt8)
deriving DecidableEq, Repr

/-- The bytes `strlen` looks at, the NUL included; `none` when it runs out of
the object. -/
def lookedWhole : List UInt8 → Option ℕ
  | [] => none
  | b :: p => if b = 0 then some 1 else (lookedWhole p).map (· + 1)

/-- The bytes `strncpy` looks at. -/
def lookedUpTo : ℕ → List UInt8 → Option ℕ
  | 0, _ => some 0
  | _ + 1, [] => none
  | n + 1, b :: p => if b = 0 then some 1 else (lookedUpTo n p).map (· + 1)

/-- The bytes of `p` that `strcmp` looks at; `s` ends with a NUL of its own. -/
def lookedAgainst : List UInt8 → List UInt8 → Option ℕ
  | _, [] => none
  | [], _ :: _ => some 1
  | x :: s, b :: p => if b = 0 ∨ b ≠ x then some 1 else (lookedAgainst s p).map (· + 1)

def Scan.looked : Scan → List UInt8 → Option ℕ
  | whole, p => lookedWhole p
  | upTo n, p => lookedUpTo n p
  | against s, p => lookedAgainst s p

/-- A read through a pointer. -/
structure Read where
  ptr : List UInt8
  scan : Scan
deriving DecidableEq, Repr

/-- The read finds its end inside the object. -/
def Read.Ends (r : Read) : Prop := (r.scan.looked r.ptr).isSome = true

instance (r : Read) : Decidable r.Ends := inferInstanceAs (Decidable (_ = _))

/-- **An unbounded read** ends in its object exactly when there is a NUL. -/
theorem ends_whole_iff {p : List UInt8} : Read.Ends ⟨p, .whole⟩ ↔ (0 : UInt8) ∈ p := by
  show (lookedWhole p).isSome = true ↔ _
  induction p with
  | nil => simp [lookedWhole]
  | cons b p ih =>
    rw [lookedWhole, List.mem_cons]
    by_cases hb : b = 0
    · simp [hb]
    · rw [if_neg hb, Option.isSome_map, ih]
      simp [Ne.symm hb]

/-- **A bounded read** of an object that is large enough. -/
theorem ends_upTo {p : List UInt8} {n : ℕ} (h : n ≤ p.length) : Read.Ends ⟨p, .upTo n⟩ := by
  show (lookedUpTo n p).isSome = true
  induction n generalizing p with
  | zero => rfl
  | succ n ih =>
    rcases p with - | ⟨b, p⟩
    · cases h
    · rw [lookedUpTo]
      split
      · rfl
      · rw [Option.isSome_map]
        exact ih (Nat.le_of_succ_le_succ h)

/-- **A comparison** with a string that is shorter than the object. -/
theorem ends_against {p s : List UInt8} (h : s.length < p.length) :
    Read.Ends ⟨p, .against s⟩ := by
  show (lookedAgainst s p).isSome = true
  induction s generalizing p with
  | nil =>
    rcases p with - | ⟨b, p⟩
    · cases h
    · rfl
  | cons x s ih =>
    rcases p with - | ⟨b, p⟩
    · cases h
    · rw [lookedAgainst]
      split
      · rfl
      · rw [Option.isSome_map]
        exact ih (Nat.lt_of_succ_lt_succ h)

end CStr
