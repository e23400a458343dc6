/-
ChatSystem/Utf8.lean

UTF-8 between lists of characters and lists of bytes.  `encode` is the
encoding of every character in turn.  `decode` is the decoder of the Encoding
Standard, which accepts every byte sequence: a machine that reads one byte at
a time and knows how many continuation bytes it is owed and between which
bounds the next one must be (`Pending`); what does not fit is replaced by
U+FFFD, and the byte that did not fit is read again as a first byte.

* `decode_encode_append` — what was encoded is read back, whatever follows;
* `decode_append_ascii` — an ASCII byte ends whatever was begun and stands for
  itself, so decoding splits there;
* `mem_decode_iff` — an ASCII character is read only where its byte is, so a
  text can be split before or after decoding (`splitOn_decode`);
* `decode_take_eq_iff` — a cut encoding is read as whole characters exactly
  when the cut is not inside one.
-/
import ChatSystem.Cut
import Mathlib.Tactic.Common

namespace Utf8

/-- The bytes of a text. -/
def encode (cs : List Char) : List UInt8 := cs.flatMap String.utf8EncodeChar

/-- U+FFFD. -/
def replacement : Char := Char.ofNat 0xFFFD

/-- The character an ASCII byte stands for. -/
def ascii (b : UInt8) : Char := Char.ofNat b.toNat

/-! ### The decoder -/

/-- A character begun: `needed` more bytes, the next one from `lower` to
`upper`, and `point` what the bytes so far contribute. -/
structure Pending where
  needed : ℕ
  lower : ℕ
  upper : ℕ
  point : ℕ
deriving DecidableEq, Repr

/-- A first byte: the characters it completes and the character it begins. -/
def first (b : UInt8) : List Char × Option Pending :=
  if b.toNat ≤ 0x7F then ([ascii b], none)
  else if 0xC2 ≤ b.toNat ∧ b.toNat ≤ 0xDF then
    ([], some ⟨1, 0x80, 0xBF, b.toNat - 0xC0⟩)
  else if 0xE0 ≤ b.toNat ∧ b.toNat ≤ 0xEF then
    ([], some ⟨2, if b.toNat = 0xE0 then 0xA0 else 0x80,
      if b.toNat = 0xED then 0x9F else 0xBF, b.toNat - 0xE0⟩)
  else if 0xF0 ≤ b.toNat ∧ b.toNat ≤ 0xF4 then
    ([], some ⟨3, if b.toNat = 0xF0 then 0x90 else 0x80,
      if b.toNat = 0xF4 then 0x8F else 0xBF, b.toNat - 0xF0⟩)
  else ([replacement], none)

/-- The next byte: the characters it completes and the character in progress
after it. -/
def feed : Option Pending → UInt8 → List Char × Option Pending
  | none, b => first b
  | some p, b =>
    if p.lower ≤ b.toNat ∧ b.toNat ≤ p.upper then
      let point := p.point * 64 + (b.toNat - 0x80)
      if p.needed = 1 then ([Char.ofNat point], none)
      else ([], some ⟨p.needed - 1, 0x80, 0xBF, point⟩)
    else
      -- not a byte it is owed: the character is given up and the byte read again
      (replacement :: (first b).1, (first b).2)

/-- What the end of the input makes of a character in progress. -/
def flush : Option Pending → List Char
  | none => []
  | some _ => [replacement]

def decodeFrom : Option Pending → List UInt8 → List Char
  | st, [] => flush st
  | st, b :: bs => (feed st b).1 ++ decodeFrom (feed st b).2 bs

/-- The text read from a byte sequence. -/
def decode (bs : List UInt8) : List Char := decodeFrom none bs

@[simp] theorem encode_nil : encode [] = [] := rfl

@[simp] theorem encode_cons (c : Char) (cs : List Char) :
    encode (c :: cs) = String.utf8EncodeChar c ++ encode cs := rfl

@[simp] theorem encode_append (cs ds : List Char) :
    encode (cs ++ ds) = encode cs ++ encode ds :=
  List.flatMap_append

theorem encode_eq_nil_iff {cs : List Char} : encode cs = [] ↔ cs = [] := by
  constructor
  · intro h
    rcases cs with - | ⟨c, cs⟩
    · rfl
    · have hlen := congrArg List.length h
      rw [encode_cons, List.length_append, String.length_utf8EncodeChar] at hlen
      have hpos := c.utf8Size_pos
      simp at hlen
      omega
  · rintro rfl
    rfl

@[simp] theorem decode_nil : decode [] = [] := rfl

/-! ### Nothing is lost -/

/-- A byte completes a character, or one is in progress after it. -/
theorem feed_ne (st : Option Pending) (b : UInt8) : (feed st b).1 ≠ [] ∨ (feed st b).2 ≠ none := by
  have hfirst : (first b).1 ≠ [] ∨ (first b).2 ≠ none := by
    unfold first
    repeat' split
    all_goals simp
  rcases st with - | p
  · exact hfirst
  · simp only [feed]
    split
    · split <;> simp
    · exact .inl (List.cons_ne_nil _ _)

theorem decodeFrom_ne_nil {st : Option Pending} {bs : List UInt8} (h : st ≠ none ∨ bs ≠ []) :
    decodeFrom st bs ≠ [] := by
  induction bs generalizing st with
  | nil =>
    obtain ⟨p, rfl⟩ := Option.ne_none_iff_exists'.mp (h.resolve_right (by simp))
    exact List.cons_ne_nil _ _
  | cons b bs ih =>
    rw [decodeFrom, Ne, List.append_eq_nil_iff, not_and_or]
    exact (feed_ne st b).imp id fun hst => ih (.inl hst)

/-- Only the empty sequence is read as the empty text. -/
theorem decode_eq_nil_iff {bs : List UInt8} : decode bs = [] ↔ bs = [] := by
  constructor
  · intro h
    by_contra hne
    exact decodeFrom_ne_nil (.inr hne) h
  · rintro rfl
    rfl

/-! ### ASCII bytes -/

/-- A byte of ASCII. -/
def IsAscii (b : UInt8) : Prop := b.toNat ≤ 0x7F

instance (b : UInt8) : Decidable (IsAscii b) := inferInstanceAs (Decidable (_ ≤ _))

theorem first_ascii {b : UInt8} (hb : IsAscii b) : first b = ([ascii b], none) := by
  unfold first
  exact if_pos hb

/-- How many points a continuation byte leaves open when `n` bytes are owed. -/
def span : ℕ → ℕ
  | 1 => 1
  | 2 => 64
  | _ => 4096

/-- The least and, one past it, the greatest point a character begun may come
to. -/
def Pending.least (p : Pending) : ℕ := (p.point * 64 + (p.lower - 0x80)) * span p.needed

def Pending.past (p : Pending) : ℕ := (p.point * 64 + (p.upper - 0x80) + 1) * span p.needed

/-- A character begun comes to no ASCII character and to no surrogate. -/
structure Pending.Sound (p : Pending) : Prop where
  needed : p.needed = 1 ∨ p.needed = 2 ∨ p.needed = 3
  lower : 0x80 ≤ p.lower
  least : 0x80 ≤ p.least
  past : p.past ≤ 0xD800 ∨ 0xE000 ≤ p.least ∧ p.past ≤ 0x110000

def Sound (st : Option Pending) : Prop := ∀ p, st = some p → p.Sound

theorem sound_none : Sound none := by
  intro p hp
  cases hp

theorem sound_some {p : Pending} (hp : p.Sound) : Sound (some p) := by
  rintro p' ⟨⟩
  exact hp

theorem sound_first (b : UInt8) : Sound (first b).2 := by
  unfold first
  split
  · exact sound_none
  split
  · refine sound_some ⟨.inl rfl, Nat.le_refl _, ?_, ?_⟩ <;>
      simp only [Pending.least, Pending.past, span] <;> omega
  split
  · refine sound_some ⟨.inr (.inl rfl), ?_, ?_, ?_⟩ <;>
      simp only [Pending.least, Pending.past, span] <;> split <;> try split
    all_goals omega
  split
  · refine sound_some ⟨.inr (.inr rfl), ?_, ?_, ?_⟩ <;>
      simp only [Pending.least, Pending.past, span] <;> split <;> try split
    all_goals omega
  · exact sound_none

/-- A byte that is owed narrows the points down. -/
theorem Pending.Sound.more {p : Pending} (hp : p.Sound) {b : ℕ}
    (hb : p.lower ≤ b ∧ b ≤ p.upper) (hneeded : p.needed ≠ 1) :
    Pending.Sound ⟨p.needed - 1, 0x80, 0xBF, p.point * 64 + (b - 0x80)⟩ := by
  obtain ⟨hn, hlower, hleast, hpast⟩ := hp
  -- the byte read moves the interval of code points left
  have hle : p.point * 64 + (p.lower - 0x80) ≤ p.point * 64 + (b - 0x80) := by omega
  have hge : p.point * 64 + (b - 0x80) ≤ p.point * 64 + (p.upper - 0x80) := by omega
  simp only [Pending.least, Pending.past] at hleast hpast
  generalize p.point * 64 + (p.lower - 0x80) = low, p.point * 64 + (p.upper - 0x80) = high,
    p.point * 64 + (b - 0x80) = point at *
  rcases hn with hn | hn | hn
  · exact absurd hn hneeded
  · rw [hn] at hleast hpast ⊢
    simp only [span] at hleast hpast
    refine ⟨.inl rfl, Nat.le_refl _, ?_, ?_⟩ <;> simp only [Pending.least, Pending.past, span]
    · omega
    · exact hpast.imp (by omega) (by omega)
  · rw [hn] at hleast hpast ⊢
    simp only [span] at hleast hpast
    refine ⟨.inr (.inl rfl), Nat.le_refl _, ?_, ?_⟩ <;>
      simp only [Pending.least, Pending.past, span]
    · omega
    · exact hpast.imp (by omega) (by omega)

theorem sound_feed {st : Option Pending} (hst : Sound st) (b : UInt8) : Sound (feed st b).2 := by
  rcases st with - | p
  · exact sound_first b
  · by_cases hb : p.lower ≤ b.toNat ∧ b.toNat ≤ p.upper
    · simp only [feed, if_pos hb]
      split
      · exact sound_none
      · case isFalse hneeded => exact sound_some ((hst p rfl).more hb hneeded)
    · simp only [feed, if_neg hb]
      exact sound_first b

/-- An ASCII byte ends the character in progress and stands for itself. -/
theorem feed_ascii {st : Option Pending} (hst : Sound st) {b : UInt8} (hb : IsAscii b) :
    feed st b = (flush st ++ [ascii b], none) := by
  rcases st with - | p
  · exact first_ascii hb
  · have hlow : 0x80 ≤ p.lower := (hst p rfl).lower
    have hb' : b.toNat ≤ 0x7F := hb
    have hout : ¬ (p.lower ≤ b.toNat ∧ b.toNat ≤ p.upper) := by omega
    simp only [feed, if_neg hout, first_ascii hb, flush, List.singleton_append]

theorem decodeFrom_append_ascii {st : Option Pending} (hst : Sound st) (xs : List UInt8)
    {b : UInt8} (hb : IsAscii b) (ys : List UInt8) :
    decodeFrom st (xs ++ b :: ys) = decodeFrom st xs ++ ascii b :: decode ys := by
  induction xs generalizing st with
  | nil =>
    show (feed st b).1 ++ decodeFrom (feed st b).2 ys = flush st ++ ascii b :: decode ys
    rw [feed_ascii hst hb, List.append_assoc]
    rfl
  | cons x xs ih =>
    rw [List.cons_append, decodeFrom, decodeFrom, ih (sound_feed hst x), List.append_assoc]

/-- **Decoding splits at ASCII bytes.** -/
theorem decode_append_ascii (xs : List UInt8) {b : UInt8} (hb : IsAscii b) (ys : List UInt8) :
    decode (xs ++ b :: ys) = decode xs ++ ascii b :: decode ys :=
  decodeFrom_append_ascii sound_none xs hb ys

/-! ### Round trip -/

theorem decodeFrom_more {p : Pending} {b : UInt8} (hb : p.lower ≤ b.toNat ∧ b.toNat ≤ p.upper)
    (hneeded : p.needed ≠ 1) (bs : List UInt8) :
    decodeFrom (some p) (b :: bs) =
      decodeFrom (some ⟨p.needed - 1, 0x80, 0xBF, p.point * 64 + (b.toNat - 0x80)⟩) bs := by
  have hfeed : feed (some p) b =
      ([], some ⟨p.needed - 1, 0x80, 0xBF, p.point * 64 + (b.toNat - 0x80)⟩) := by
    simp only [feed, if_pos hb, if_neg hneeded]
  show (feed (some p) b).1 ++ decodeFrom (feed (some p) b).2 bs = _
  rw [hfeed]
  rfl

theorem decodeFrom_last {p : Pending} {b : UInt8} (hb : p.lower ≤ b.toNat ∧ b.toNat ≤ p.upper)
    (hneeded : p.needed = 1) (bs : List UInt8) :
    decodeFrom (some p) (b :: bs) =
      Char.ofNat (p.point * 64 + (b.toNat - 0x80)) :: decode bs := by
  have hfeed : feed (some p) b = ([Char.ofNat (p.point * 64 + (b.toNat - 0x80))], none) := by
    simp only [feed, if_pos hb, if_pos hneeded]
  show (feed (some p) b).1 ++ decodeFrom (feed (some p) b).2 bs = _
  rw [hfeed]
  rfl

theorem decode_first {b : UInt8} {p : Pending} (hb : first b = ([], some p)) (bs : List UInt8) :
    decode (b :: bs) = decodeFrom (some p) bs := by
  show (first b).1 ++ decodeFrom (first b).2 bs = _
  rw [hb]
  rfl

theorem toNat_byte {n : ℕ} (h : n < 256) : (UInt8.ofNat n).toNat = n :=
  UInt8.toNat_ofNat_of_lt h

theorem decode_one {x : ℕ} (hx : x ≤ 0x7F) (bs : List UInt8) :
    decode (UInt8.ofNat x :: bs) = Char.ofNat x :: decode bs := by
  have hb : (UInt8.ofNat x).toNat = x := toNat_byte (by omega)
  have hascii : IsAscii (UInt8.ofNat x) := by
    show (UInt8.ofNat x).toNat ≤ 0x7F
    rw [hb]
    exact hx
  have happ := decode_append_ascii [] hascii bs
  rw [ascii, hb] at happ
  exact happ

theorem decode_two {x y : ℕ} (hx : 2 ≤ x ∧ x ≤ 0x1F) (hy : y ≤ 0x3F) (bs : List UInt8) :
    decode (UInt8.ofNat (x + 0xC0) :: UInt8.ofNat (y + 0x80) :: bs) =
      Char.ofNat (x * 64 + y) :: decode bs := by
  have hb₁ : (UInt8.ofNat (x + 0xC0)).toNat = x + 0xC0 := toNat_byte (by omega)
  have hb₂ : (UInt8.ofNat (y + 0x80)).toNat = y + 0x80 := toNat_byte (by omega)
  have hfirst : first (UInt8.ofNat (x + 0xC0)) = ([], some ⟨1, 0x80, 0xBF, x⟩) := by
    unfold first
    rw [hb₁, if_neg (by omega), if_pos (by omega), Nat.add_sub_cancel]
  rw [decode_first hfirst, decodeFrom_last _ rfl]
  · rw [hb₂, Nat.add_sub_cancel]
  · simp only [hb₂]
    omega

/-- Neither an overlong form nor a surrogate. -/
theorem decode_three {x y z : ℕ} (hx : x ≤ 0xF) (hy : y ≤ 0x3F) (hz : z ≤ 0x3F)
    (hlow : x = 0 → 0x20 ≤ y) (hhigh : x = 0xD → y ≤ 0x1F) (bs : List UInt8) :
    decode (UInt8.ofNat (x + 0xE0) :: UInt8.ofNat (y + 0x80) :: UInt8.ofNat (z + 0x80) :: bs) =
      Char.ofNat ((x * 64 + y) * 64 + z) :: decode bs := by
  have hb₁ : (UInt8.ofNat (x + 0xE0)).toNat = x + 0xE0 := toNat_byte (by omega)
  have hb₂ : (UInt8.ofNat (y + 0x80)).toNat = y + 0x80 := toNat_byte (by omega)
  have hb₃ : (UInt8.ofNat (z + 0x80)).toNat = z + 0x80 := toNat_byte (by omega)
  have hfirst : first (UInt8.ofNat (x + 0xE0)) =
      ([], some ⟨2, if x + 0xE0 = 0xE0 then 0xA0 else 0x80,
        if x + 0xE0 = 0xED then 0x9F else 0xBF, x⟩) := by
    unfold first
    rw [hb₁, if_neg (by omega), if_neg (by omega), if_pos (by omega), Nat.add_sub_cancel]
  rw [decode_first hfirst, decodeFrom_more _ (by simp), decodeFrom_last _ rfl]
  · simp only [hb₂, hb₃, Nat.add_sub_cancel]
  · simp only [hb₃]
    omega
  · simp only [hb₂]
    constructor <;> split <;> omega

/-- Neither an overlong form nor beyond U+10FFFF. -/
theorem decode_four {x y z u : ℕ} (hx : x ≤ 4) (hy : y ≤ 0x3F) (hz : z ≤ 0x3F) (hu : u ≤ 0x3F)
    (hlow : x = 0 → 0x10 ≤ y) (hhigh : x = 4 → y ≤ 0xF) (bs : List UInt8) :
    decode (UInt8.ofNat (x + 0xF0) :: UInt8.ofNat (y + 0x80) :: UInt8.ofNat (z + 0x80) ::
      UInt8.ofNat (u + 0x80) :: bs) =
      Char.ofNat (((x * 64 + y) * 64 + z) * 64 + u) :: decode bs := by
  have hb₁ : (UInt8.ofNat (x + 0xF0)).toNat = x + 0xF0 := toNat_byte (by omega)
  have hb₂ : (UInt8.ofNat (y + 0x80)).toNat = y + 0x80 := toNat_byte (by omega)
  have hb₃ : (UInt8.ofNat (z + 0x80)).toNat = z + 0x80 := toNat_byte (by omega)
  have hb₄ : (UInt8.ofNat (u + 0x80)).toNat = u + 0x80 := toNat_byte (by omega)
  -- the first byte leaves three, and bounds the next
  have hfirst : first (UInt8.ofNat (x + 0xF0)) =
      ([], some ⟨3, if x + 0xF0 = 0xF0 then 0x90 else 0x80,
        if x + 0xF0 = 0xF4 then 0x8F else 0xBF, x⟩) := by
    unfold first
    rw [hb₁, if_neg (by omega), if_neg (by omega), if_neg (by omega), if_pos (by omega),
      Nat.add_sub_cancel]
  rw [decode_first hfirst, decodeFrom_more _ (by simp), decodeFrom_more _ (by simp),
    decodeFrom_last _ rfl]
  · simp only [hb₂, hb₃, hb₄, Nat.add_sub_cancel]
  · simp only [hb₄]
    omega
  · simp only [hb₃]
    omega
  · simp only [hb₂]
    constructor <;> split <;> omega

/-- What was encoded is read back, one character. -/
theorem decode_char (c : Char) (bs : List UInt8) :
    decode (String.utf8EncodeChar c ++ bs) = c :: decode bs := by
  have hvalid : c.toNat < 0xD800 ∨ 0xDFFF < c.toNat ∧ c.toNat < 0x110000 := c.valid
  have hchar : Char.ofNat c.toNat = c := Char.ofNat_toNat c
  have hval : c.val.toNat = c.toNat := rfl
  unfold String.utf8EncodeChar
  rw [hval]
  generalize c.toNat = v at hvalid hchar
  -- the four lengths of an encoding
  by_cases h₁ : v ≤ 0x7F
  · simp only [if_pos h₁, List.cons_append, List.nil_append]
    rw [decode_one h₁, hchar]
  by_cases h₂ : v ≤ 0x7FF
  · simp only [if_neg h₁, if_pos h₂, List.cons_append, List.nil_append]
    have hpoint : v / 64 % 0x20 * 64 + v % 0x40 = v := by omega
    rw [decode_two (by omega) (by omega), hpoint, hchar]
  by_cases h₃ : v ≤ 0xFFFF
  · simp only [if_neg h₁, if_neg h₂, if_pos h₃, List.cons_append, List.nil_append]
    have hpoint : (v / 4096 % 0x10 * 64 + v / 64 % 0x40) * 64 + v % 0x40 = v := by omega
    rw [decode_three (by omega) (by omega) (by omega) (by omega) (by omega), hpoint, hchar]
  · simp only [if_neg h₁, if_neg h₂, if_neg h₃, List.cons_append, List.nil_append]
    have hpoint : ((v / 262144 % 0x08 * 64 + v / 4096 % 0x40) * 64 + v / 64 % 0x40) * 64
        + v % 0x40 = v := by omega
    rw [decode_four (by omega) (by omega) (by omega) (by omega) (by omega) (by omega), hpoint,
      hchar]

/-- **What was encoded is read back**, whatever follows. -/
theorem decode_encode_append (cs : List Char) (bs : List UInt8) :
    decode (encode cs ++ bs) = cs ++ decode bs := by
  induction cs with
  | nil => rfl
  | cons c cs ih => rw [encode_cons, List.append_assoc, decode_char, ih, List.cons_append]

theorem decode_encode (cs : List Char) : decode (encode cs) = cs := by
  have h := decode_encode_append cs []
  simpa using h

/-- A byte sequence that is the encoding of a text. -/
def Valid (bs : List UInt8) : Prop := encode (decode bs) = bs

instance (bs : List UInt8) : Decidable (Valid bs) := inferInstanceAs (Decidable (_ = _))

theorem valid_encode (cs : List Char) : Valid (encode cs) := by
  show encode (decode (encode cs)) = encode cs
  rw [decode_encode]

/-! ### Characters of ASCII -/

theorem toNat_char {n : ℕ} (h : n.isValidChar) : (Char.ofNat n).toNat = n := by
  unfold Char.ofNat
  rw [dif_pos h]
  rfl

theorem toNat_ascii {b : UInt8} (hb : IsAscii b) : (ascii b).toNat = b.toNat := by
  have hb' : b.toNat ≤ 0x7F := hb
  exact toNat_char (.inl (by omega))

theorem ascii_injective {a b : UInt8} (ha : IsAscii a) (hb : IsAscii b) (h : ascii a = ascii b) :
    a = b := by
  have htoNat := congrArg Char.toNat h
  rw [toNat_ascii ha, toNat_ascii hb] at htoNat
  exact UInt8.toNat_inj.mp htoNat

/-- A character completed is a byte of ASCII that stands for itself, or is not
of ASCII. -/
def Completes (b : UInt8) (c : Char) : Prop := IsAscii b ∧ c = ascii b ∨ 0x80 ≤ c.toNat

theorem completes_replacement (b : UInt8) : Completes b replacement := .inr (by decide)

theorem completes_first {b : UInt8} {c : Char} (hc : c ∈ (first b).1) : Completes b c := by
  unfold first at hc
  split at hc
  · case isTrue hb =>
    exact .inl ⟨hb, List.mem_singleton.mp hc⟩
  split at hc
  · cases hc
  split at hc
  · cases hc
  split at hc
  · cases hc
  · rw [List.mem_singleton.mp hc]
    exact completes_replacement b

theorem completes_feed {st : Option Pending} (hst : Sound st) {b : UInt8} {c : Char}
    (hc : c ∈ (feed st b).1) : Completes b c := by
  rcases st with - | p
  · exact completes_first hc
  obtain ⟨hn, hlower, hleast, hpast⟩ := hst p rfl
  by_cases hb : p.lower ≤ b.toNat ∧ b.toNat ≤ p.upper
  · simp only [feed, if_pos hb] at hc
    split at hc
    · case isTrue hone =>
      simp only [Pending.least, Pending.past, hone, span] at hleast hpast
      -- the bounds keep the surrogates out
      have hvalid : Nat.isValidChar (p.point * 64 + (b.toNat - 0x80)) := by
        rcases hpast with hpast | hpast
        · exact .inl (by omega)
        · exact .inr (by omega)
      rw [List.mem_singleton.mp hc]
      right
      rw [toNat_char hvalid]
      omega
    · cases hc
  · -- a byte that does not continue: U+FFFD, and the byte is read afresh
    simp only [feed, if_neg hb] at hc
    rcases List.mem_cons.mp hc with rfl | hc
    · exact completes_replacement b
    · exact completes_first hc

theorem mem_of_mem_decodeFrom {st : Option Pending} (hst : Sound st) {xs : List UInt8} {b : UInt8}
    (hb : IsAscii b) (h : ascii b ∈ decodeFrom st xs) : b ∈ xs := by
  have hsmall : ¬ 0x80 ≤ (ascii b).toNat := by
    rw [toNat_ascii hb]
    exact Nat.not_le.mpr (Nat.lt_succ_of_le hb)
  induction xs generalizing st with
  | nil =>
    rcases st with - | p
    · cases h
    · rw [List.mem_singleton.mp h] at hsmall
      exact absurd (by decide) hsmall
  | cons x xs ih =>
    rcases List.mem_append.mp h with hx | hxs
    · rcases completes_feed hst hx with ⟨hascii, heq⟩ | hbig
      · rw [ascii_injective hb hascii heq]
        exact List.mem_cons_self
      · exact absurd hbig hsmall
    · exact List.mem_cons_of_mem _ (ih (sound_feed hst x) hxs)

/-- **An ASCII character is read only where its byte is.** -/
theorem mem_decode_iff {b : UInt8} (hb : IsAscii b) (xs : List UInt8) :
    ascii b ∈ decode xs ↔ b ∈ xs := by
  constructor
  · exact mem_of_mem_decodeFrom sound_none hb
  · intro h
    obtain ⟨as, bs, rfl⟩ := List.append_of_mem h
    rw [decode_append_ascii as hb]
    exact List.mem_append_right _ List.mem_cons_self

theorem mem_encode_iff {b : UInt8} (hb : IsAscii b) (cs : List Char) :
    b ∈ encode cs ↔ ascii b ∈ cs := by
  rw [← mem_decode_iff hb, decode_encode]

/-- **Splitting before or after decoding** is the same at an ASCII byte. -/
theorem splitOn_decode {b : UInt8} (hb : IsAscii b) (xs : List UInt8) :
    (decode xs).splitOn (ascii b) = (xs.splitOn b).map decode := by
  induction hn : xs.length using Nat.strongRecOn generalizing xs with
  | _ n ih =>
    by_cases hmem : b ∈ xs
    · -- up to the first `b`, and from there on
      obtain ⟨as, bs, rfl, has⟩ := List.eq_append_cons_of_mem hmem
      have hshort : bs.length < n := by
        rw [← hn, List.length_append, List.length_cons]
        omega
      rw [decode_append_ascii as hb, List.splitOn_append_cons_self_of_not_mem,
        List.splitOn_append_cons_self_of_not_mem has, List.map_cons, ih _ hshort bs rfl]
      exact fun h => has ((mem_decode_iff hb as).mp h)
    · rw [List.splitOn_eq_singleton hmem, List.splitOn_eq_singleton]
      · rfl
      · exact fun h => hmem ((mem_decode_iff hb xs).mp h)

/-! ### Cut texts -/

theorem encode_eq_intercalate (cs : List Char) :
    encode cs = [].intercalate (cs.map String.utf8EncodeChar) := by
  rcases cs with - | ⟨c, cs⟩
  · rfl
  · rw [List.map_cons, Cut.intercalate_cons_eq, encode_cons, List.flatMap_map]
    rfl

/-- The longest prefix of a text whose encoding fits into `n` bytes. -/
def wholeChars (n : ℕ) (cs : List Char) : List Char :=
  cs.take (Cut.wholeCount [] n (cs.map String.utf8EncodeChar))

theorem encode_wholeChars (n : ℕ) (cs : List Char) :
    encode (wholeChars n cs) =
      [].intercalate (Cut.wholePieces [] n (cs.map String.utf8EncodeChar)) := by
  rw [encode_eq_intercalate, wholeChars, List.map_take]
  rfl

/-- Whole characters stand at the head of the cut encoding. -/
theorem encode_wholeChars_prefix (n : ℕ) (cs : List Char) :
    encode (wholeChars n cs) <+: (encode cs).take n := by
  rw [List.prefix_take_iff, encode_wholeChars, encode_eq_intercalate cs]
  exact ⟨Cut.intercalate_prefix_take _ _ _, Cut.length_wholePieces_le _ _ _⟩

/-- A text that fits is the whole text. -/
theorem wholeChars_of_fits {n : ℕ} {cs : List Char} (h : (encode cs).length ≤ n) :
    wholeChars n cs = cs := by
  rw [encode_eq_intercalate] at h
  have hpieces := Cut.wholePieces_of_fits h
  rw [← decode_encode (wholeChars n cs), encode_wholeChars, hpieces, ← encode_eq_intercalate,
    decode_encode]

/-- **A cut encoding** is read as whole characters exactly when the cut is not
inside a character. -/
theorem decode_take_eq_iff (n : ℕ) (cs : List Char) :
    decode ((encode cs).take n) = wholeChars n cs ↔
      (encode cs).length ≤ n ∨ ∃ k, (encode (cs.take k)).length = n := by
  have hbytes : (encode cs).take n = encode (wholeChars n cs) ↔
      (encode cs).length ≤ n ∨ ∃ k, (encode (cs.take k)).length = n := by
    rw [encode_wholeChars]
    simp only [encode_eq_intercalate, List.map_take]
    exact Cut.take_intercalate_eq_iff
  rw [← hbytes]
  constructor
  · -- what is left of a character would be read as something
    intro h
    obtain ⟨rest, hrest⟩ := encode_wholeChars_prefix n cs
    rw [← hrest, decode_encode_append, List.append_right_eq_self, decode_eq_nil_iff] at h
    rw [← hrest, h, List.append_nil]
  · intro h
    rw [h, decode_encode]

end Utf8
