/-
ChatSystem/JsValue.lean

The values `JSON.parse` makes, and the operations on them that are needed to
read a field of any type.  Strings are lists of characters; a lone surrogate
is one more character that is neither a digit nor a space.

* `own` — the value of a property that is not inherited;
* `truthy` — the test of `!v`;
* `toText` — the text of a value, `none` where the conversion throws;
* `parseInt` — the integer at the head of a text, `none` for `NaN`.
-/
import ChatSystem.JsString

namespace Js

/-! ### Values -/

/-- A value of `JSON.parse`.  A number is given as the language prints it; of
the fields with one key the last one counts. -/
inductive Json
  | null
  | bool (b : Bool)
  | num (text : List Char)
  | str (s : List Char)
  | arr (items : List Json)
  | obj (fields : List (List Char × Json))

namespace Json

/-- The property `key` of the value's own. -/
def own (key : List Char) : Json → Option Json
  | obj fields => (fields.reverse.find? (·.1 == key)).map Prod.snd
  | _ => none

/-- Whether the value counts as true. -/
def truthy : Json → Bool
  | null => false
  | bool b => b
  | num text => text != "0".toList
  | str s => !s.isEmpty
  | arr _ => true
  | obj _ => true

mutual

/-- `String(v)`.  An object with a `toString` of its own, which is not a
function, has no text. -/
def toText : Json → Option (List Char)
  | null => some "null".toList
  | bool b => some (if b then "true".toList else "false".toList)
  | num text => some text
  | str s => some s
  | arr items => (itemTexts items).map ([','].intercalate ·)
  | obj fields =>
    if fields.any (·.1 == "toString".toList) then none else some "[object Object]".toList

/-- The texts of the items of an array, as they are joined. -/
def itemTexts : List Json → Option (List (List Char))
  | [] => some []
  | item :: items =>
    -- `null` is left out between the commas
    match (match item with | null => some [] | item => toText item), itemTexts items with
    | some text, some texts => some (text :: texts)
    | _, _ => none

end

end Json

/-! ### Numbers -/

/-- The value of a digit. -/
def digitValue (c : Char) : Option ℕ :=
  if '0' ≤ c ∧ c ≤ '9' then some (c.toNat - '0'.toNat)
  else if 'a' ≤ c ∧ c ≤ 'z' then some (c.toNat - 'a'.toNat + 10)
  else if 'A' ≤ c ∧ c ≤ 'Z' then some (c.toNat - 'A'.toNat + 10)
  else none

/-- The values of the leading digits. -/
def leadingDigits (radix : ℕ) : List Char → List ℕ
  | [] => []
  | c :: s =>
    match digitValue c with
    | some d => if d < radix then d :: leadingDigits radix s else []
    | none => []

/-- The number that digits stand for. -/
def ofDigits (radix : ℕ) (digits : List ℕ) : ℕ := digits.foldl (fun n d => n * radix + d) 0

/-- The sign in front of a number, and the rest. -/
def sign : List Char → ℤ × List Char
  | '-' :: s => (-1, s)
  | '+' :: s => (1, s)
  | s => (1, s)

/-- The radix that the prefix of a number asks for, and the rest. -/
def radix : List Char → ℕ × List Char
  | '0' :: 'x' :: s => (16, s)
  | '0' :: 'X' :: s => (16, s)
  | s => (10, s)

/-- `parseInt(s)`. -/
def parseInt (s : List Char) : Option ℤ :=
  let (sgn, s) := sign (s.dropWhile isSpace)
  let (base, s) := radix s
  let digits := leadingDigits base s
  if digits = [] then none else some (sgn * ofDigits base digits)

example : parseInt " -0x1Fg".toList = some (-31) := by decide

end Js
