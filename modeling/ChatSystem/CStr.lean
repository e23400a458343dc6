/-
ChatSystem/CStr.lean

C strings in byte memory, as far as programs with fixed `char` arrays use
them.  A pointer into an object is the list of bytes from the pointed-to
byte to the end of that object; the C string there is the part before the
first NUL (`cstr`), so a pointer to a byte sequence without a NUL denotes
all of it.  A string literal is the list of its bytes, its final NUL left
implicit.

* `CharArray n` — an object `char a[n]`: a list of bytes that carries its
  length;
* `strncpy` — copy at most `k` bytes, pad with NULs up to `k`, leave the
  rest of the destination alone;
* `strEq` — the test `strcmp(p, q) == 0`;
* `snprintf` — write a text into a buffer at an offset, cut to a size, and
  return its full length;
* `sizeSub` — subtraction of `size_t` values, which wraps.

Nothing here knows what the arrays are used for.
-/
import Mathlib.Algebra.Group.Nat.Defs
import Mathlib.Data.List.TakeWhile
import Mathlib.Order.Basic
import Mathlib.Tactic.Common

namespace CStr

/-! ### Scans for one symbol -/

section Scan

variable {α : Type*} [BEq α] [LawfulBEq α] {a : α} {s : List α}

theorem bne_of_notMem (h : a ∉ s) : ∀ b ∈ s, (b != a) = true :=
  fun _ hb => bne_iff_ne.mpr fun heq => h (heq ▸ hb)

/-- A scan that does not meet its symbol keeps everything … -/
theorem takeWhile_of_notMem (h : a ∉ s) : s.takeWhile (· != a) = s :=
  List.takeWhile_eq_self_iff.mpr (bne_of_notMem h)

/-- … and goes on behind it. -/
theorem takeWhile_append_of_notMem (h : a ∉ s) (t : List α) :
    (s ++ t).takeWhile (· != a) = s ++ t.takeWhile (· != a) :=
  List.takeWhile_append_of_pos (bne_of_notMem h)

/-- The scan ends before its symbol. -/
theorem takeWhile_append_cons (h : a ∉ s) (t : List α) :
    (s ++ a :: t).takeWhile (· != a) = s := by
  rw [takeWhile_append_of_notMem h]
  simp

end Scan

/-! ### Strings behind pointers -/

/-- The bytes of a string literal. -/
def utf8 (s : String) : List UInt8 := s.toList.flatMap String.utf8EncodeChar

/-- The C string a pointer denotes: the bytes before the first NUL. -/
def cstr (p : List UInt8) : List UInt8 := p.takeWhile (· != 0)

/-- `strcmp(p, q) == 0`. -/
def strEq (p q : List UInt8) : Bool := cstr p == cstr q

@[simp] theorem strEq_iff {p q : List UInt8} : strEq p q = true ↔ cstr p = cstr q := by
  simp [strEq]

@[simp] theorem cstr_nil : cstr [] = [] := rfl

theorem zero_notMem_cstr (p : List UInt8) : (0 : UInt8) ∉ cstr p := by
  intro h
  have := List.mem_takeWhile_imp h
  simp at this

theorem length_cstr_le (p : List UInt8) : (cstr p).length ≤ p.length :=
  (List.takeWhile_sublist _).length_le

/-- A NUL-free list is its own string. -/
theorem cstr_eq_self {p : List UInt8} (h : (0 : UInt8) ∉ p) : cstr p = p :=
  takeWhile_of_notMem h

@[simp] theorem cstr_cstr (p : List UInt8) : cstr (cstr p) = cstr p :=
  cstr_eq_self (zero_notMem_cstr p)

/-- The string ends inside the first part as soon as a NUL is there. -/
theorem cstr_append_of_mem {p q : List UInt8} (h : (0 : UInt8) ∈ p) :
    cstr (p ++ q) = cstr p := by
  induction p with
  | nil => simp at h
  | cons b p ih =>
    by_cases hb : b = 0
    · subst hb; rfl
    · have hmem : (0 : UInt8) ∈ p := by
        rcases List.mem_cons.mp h with h0 | h0
        · exact absurd h0.symm hb
        · exact h0
      have hkeep : (b != 0) = true := by simpa using hb
      have := ih hmem
      simp only [cstr, List.cons_append, List.takeWhile_cons, hkeep, if_true] at this ⊢
      rw [this]

/-- A NUL-free first part belongs to the string entirely. -/
theorem cstr_append_of_notMem {p q : List UInt8} (h : (0 : UInt8) ∉ p) :
    cstr (p ++ q) = p ++ cstr q :=
  takeWhile_append_of_notMem h q

@[simp] theorem cstr_replicate_zero (k : ℕ) : cstr (List.replicate k (0 : UInt8)) = [] := by
  cases k <;> simp [cstr, List.replicate_succ]

theorem cstr_append_replicate {p : List UInt8} (h : (0 : UInt8) ∉ p) (k : ℕ) :
    cstr (p ++ List.replicate k 0) = p := by
  rw [cstr_append_of_notMem h, cstr_replicate_zero, List.append_nil]

theorem notMem_take {p : List UInt8} (h : (0 : UInt8) ∉ p) (k : ℕ) :
    (0 : UInt8) ∉ p.take k :=
  fun hm => h (List.mem_of_mem_take hm)

/-- A string shorter than the memory it was read from is followed by a NUL. -/
theorem zero_mem_of_length_cstr_lt {p : List UInt8}
    (h : (cstr p).length < p.length) : (0 : UInt8) ∈ p := by
  by_contra h0
  rw [cstr_eq_self h0] at h
  exact Nat.lt_irrefl _ h

theorem length_cstr_lt_of_mem {p : List UInt8} (h : (0 : UInt8) ∈ p) :
    (cstr p).length < p.length := by
  refine Nat.lt_of_le_of_ne (length_cstr_le p) fun heq => zero_notMem_cstr p ?_
  have : cstr p = p := (List.takeWhile_prefix _).eq_of_length heq
  rw [this]
  exact h

/-! ### Arrays -/

/-- An object `char a[n]`. -/
structure CharArray (n : ℕ) where
  bytes : List UInt8
  size_eq : bytes.length = n
deriving DecidableEq, Repr

namespace CharArray

variable {n : ℕ}

attribute [simp] CharArray.size_eq

@[ext] theorem ext {a b : CharArray n} (h : a.bytes = b.bytes) : a = b := by
  cases a; cases b; cases h; rfl

/-- `memset(a, 0, n)`. -/
def zero (n : ℕ) : CharArray n := ⟨List.replicate n 0, List.length_replicate⟩

/-- The C string the array holds (all of it when it has no NUL). -/
def str (a : CharArray n) : List UInt8 := cstr a.bytes

/-- There is a NUL inside the array. -/
def Terminated (a : CharArray n) : Prop := (0 : UInt8) ∈ a.bytes

instance (a : CharArray n) : Decidable a.Terminated :=
  inferInstanceAs (Decidable (_ ∈ _))

theorem Terminated.length_str_lt {a : CharArray n} (h : a.Terminated) :
    a.str.length < n := by
  have := length_cstr_lt_of_mem h
  rwa [a.size_eq] at this

theorem terminated_of_length_str_lt {a : CharArray n} (h : a.str.length < n) :
    a.Terminated :=
  zero_mem_of_length_cstr_lt (by rw [a.size_eq]; exact h)

theorem zero_notMem_str (a : CharArray n) : (0 : UInt8) ∉ a.str :=
  zero_notMem_cstr _

@[simp] theorem str_zero (n : ℕ) : (zero n).str = [] := cstr_replicate_zero n

@[simp] theorem cstr_str (a : CharArray n) : cstr a.str = a.str := cstr_cstr _

/-- The `k` bytes `strncpy(dst, src, k)` writes: the string cut to `k`
bytes, then NULs. -/
def copied (src : List UInt8) (k : ℕ) : List UInt8 :=
  (cstr src).take k ++ List.replicate (k - (cstr src).length) 0

@[simp] theorem length_copied (src : List UInt8) (k : ℕ) : (copied src k).length = k := by
  simp only [copied, List.length_append, List.length_take, List.length_replicate]
  omega

/-- `strncpy(a, src, k)`. -/
def strncpy (a : CharArray n) (src : List UInt8) (k : ℕ) (hk : k ≤ n) : CharArray n :=
  ⟨copied src k ++ a.bytes.drop k, by simp; omega⟩

/-- Only the string of the source matters. -/
@[simp] theorem strncpy_cstr (a : CharArray n) (src : List UInt8) (k : ℕ) (hk : k ≤ n) :
    a.strncpy (cstr src) k hk = a.strncpy src k hk := by
  apply ext
  simp [strncpy, copied]

/-- `a[i] = b`. -/
def put (a : CharArray n) (i : ℕ) (b : UInt8) : CharArray n :=
  ⟨a.bytes.set i b, by simp⟩

/-- A source shorter than the limit is copied whole, its NUL included. -/
theorem str_strncpy_of_lt {a : CharArray n} {src : List UInt8} {k : ℕ} (hk : k ≤ n)
    (h : (cstr src).length < k) : (a.strncpy src k hk).str = cstr src := by
  obtain ⟨m, hm⟩ : ∃ m, k - (cstr src).length = m + 1 := ⟨k - (cstr src).length - 1, by omega⟩
  have htake : (cstr src).take k = cstr src := List.take_of_length_le (by omega)
  simp only [str, strncpy, copied, htake, hm, List.append_assoc]
  rw [cstr_append_of_notMem (zero_notMem_cstr src), List.replicate_succ]
  simp [cstr]

theorem terminated_strncpy_of_lt {a : CharArray n} {src : List UInt8} {k : ℕ}
    (hk : k ≤ n) (h : (cstr src).length < k) : (a.strncpy src k hk).Terminated := by
  apply terminated_of_length_str_lt
  rw [str_strncpy_of_lt hk h]
  omega

/-- Copying into a zeroed array keeps what fits below the limit. -/
theorem str_strncpy_zero (src : List UInt8) (k : ℕ) (hk : k ≤ n) :
    ((zero n).strncpy src k hk).str = (cstr src).take k := by
  simp only [str, strncpy, copied, zero, List.drop_replicate, List.append_assoc,
    List.replicate_append_replicate]
  exact cstr_append_replicate (notMem_take (zero_notMem_cstr src) k) _

/-- Copying an empty string changes nothing. -/
theorem strncpy_zero_of_str {src : List UInt8} {k : ℕ} {hk : k ≤ n} (h0 : 0 < k)
    (h : ((zero n).strncpy src k hk).str = []) : (zero n).strncpy src k hk = zero n := by
  rw [str_strncpy_zero, List.take_eq_nil_iff] at h
  have hsrc : cstr src = [] := h.resolve_left (by omega)
  apply ext
  simp [strncpy, copied, hsrc, zero, hk]

theorem terminated_strncpy_zero (src : List UInt8) {k : ℕ} (h : k < n) :
    ((zero n).strncpy src k h.le).Terminated := by
  apply terminated_of_length_str_lt
  rw [str_strncpy_zero, List.length_take]
  omega

/-- `strncpy(a, src, k)` followed by `a[k] = 0` holds the string cut to `k`
bytes, whatever the array held before. -/
theorem str_strncpy_put {a : CharArray n} {src : List UInt8} {k : ℕ} (h : k < n) :
    ((a.strncpy src k h.le).put k 0).str = (cstr src).take k := by
  have hdrop : ∃ b t, a.bytes.drop k = b :: t := by
    rcases hd : a.bytes.drop k with - | ⟨b, t⟩
    · have := congrArg List.length hd
      simp at this
      omega
    · exact ⟨b, t, rfl⟩
  obtain ⟨b, t, hd⟩ := hdrop
  have hset : (copied src k ++ a.bytes.drop k).set k 0 = copied src k ++ 0 :: t := by
    rw [hd, List.set_append_right k 0 (by simp)]
    simp
  show cstr ((copied src k ++ a.bytes.drop k).set k 0) = _
  rw [hset, copied, List.append_assoc,
    cstr_append_of_notMem (notMem_take (zero_notMem_cstr src) k)]
  cases k - (cstr src).length <;> simp [cstr, List.replicate_succ]

theorem terminated_strncpy_put {a : CharArray n} {src : List UInt8} {k : ℕ} (h : k < n) :
    ((a.strncpy src k h.le).put k 0).Terminated := by
  apply terminated_of_length_str_lt
  rw [str_strncpy_put h, List.length_take]
  omega

/-! ### Zeroed arrays with a string in front -/

/-- A zeroed array with the bytes `s` in front, as many as it holds. -/
def padded (n : ℕ) (s : List UInt8) : CharArray n :=
  ⟨s.take n ++ List.replicate (n - s.length) 0, by simp; omega⟩

theorem strncpy_zero (src : List UInt8) (k : ℕ) (hk : k ≤ n) :
    (zero n).strncpy src k hk = padded n ((cstr src).take k) := by
  apply ext
  show copied src k ++ (List.replicate n 0).drop k =
    ((cstr src).take k).take n ++ List.replicate (n - ((cstr src).take k).length) 0
  have hfits : ((cstr src).take k).length ≤ n := (List.length_take_le _ _).trans hk
  have hzeros : k - (cstr src).length + (n - k) = n - ((cstr src).take k).length := by
    rw [List.length_take]
    omega
  rw [copied, List.drop_replicate, List.append_assoc, List.replicate_append_replicate, hzeros,
    List.take_of_length_le hfits]

theorem padded_bytes {s : List UInt8} (hs : s.length ≤ n) :
    (padded n s).bytes = s ++ List.replicate (n - s.length) 0 := by
  show s.take n ++ _ = _
  rw [List.take_of_length_le hs]

theorem str_padded {s : List UInt8} (h0 : (0 : UInt8) ∉ s) : (padded n s).str = s.take n :=
  cstr_append_replicate (notMem_take h0 n) _

/-- A copy with a lower limit is the same exactly when the limit cuts nothing
off. -/
theorem padded_take_eq_iff {s : List UInt8} (h0 : (0 : UInt8) ∉ s) {k : ℕ} (hk : k < n) :
    padded n (s.take k) = padded n s ↔ s.length ≤ k := by
  constructor
  · intro h
    have hstr := congrArg str h
    rw [str_padded (notMem_take h0 k), str_padded h0] at hstr
    have hlen := congrArg List.length hstr
    simp only [List.length_take] at hlen
    omega
  · intro h
    rw [List.take_of_length_le h]

end CharArray

/-! ### Formatted output -/

/-- Overwrite the bytes of `buf` from `off` on with `data`. -/
def writeAt : List UInt8 → ℕ → List UInt8 → List UInt8
  | [], _, _ => []
  | buf, 0, [] => buf
  | _ :: buf, 0, d :: data => d :: writeAt buf 0 data
  | b :: buf, off + 1, data => b :: writeAt buf off data

@[simp] theorem length_writeAt (buf : List UInt8) (off : ℕ) (data : List UInt8) :
    (writeAt buf off data).length = buf.length := by
  fun_induction writeAt buf off data with
  | case1 => rfl
  | case2 => rfl
  | case3 _ buf d data ih => simp [ih]
  | case4 b buf off data ih => simp [ih]

theorem writeAt_eq {buf data : List UInt8} {off : ℕ} (h : off + data.length ≤ buf.length) :
    writeAt buf off data = buf.take off ++ data ++ buf.drop (off + data.length) := by
  fun_induction writeAt buf off data with
  | case1 off data =>
    obtain ⟨-, hdata⟩ : off = 0 ∧ data = [] := by simpa using h
    simp [hdata]
  | case2 => simp
  | case3 _ buf d data ih =>
    simp only [List.length_cons] at h
    rw [ih (by omega)]
    simp
  | case4 b buf off data ih =>
    simp only [List.length_cons] at h
    rw [ih (by omega)]
    simp [Nat.add_right_comm]

/-- A write into the first part. -/
theorem writeAt_append_left {a b data : List UInt8} {off : ℕ} (h : off + data.length ≤ a.length) :
    writeAt (a ++ b) off data = writeAt a off data ++ b := by
  rw [writeAt_eq h, writeAt_eq (by rw [List.length_append]; omega),
    List.take_append_of_le_length (by omega), List.drop_append_of_le_length h]
  simp only [List.append_assoc]

/-- A write behind the first part. -/
theorem writeAt_append_right (a b data : List UInt8) (off : ℕ) :
    writeAt (a ++ b) (a.length + off) data = a ++ writeAt b off data := by
  induction a with
  | nil => rw [List.nil_append, List.length_nil, Nat.zero_add, List.nil_append]
  | cons x a ih =>
    have hlen : (x :: a).length + off = (a.length + off) + 1 := by
      rw [List.length_cons]
      omega
    rw [hlen, List.cons_append, List.cons_append, ← ih]
    rfl

/-- A write into the middle part. -/
theorem writeAt_field {a b c data : List UInt8} {off : ℕ} (ha : a.length = off)
    (hdata : data.length ≤ b.length) :
    writeAt (a ++ (b ++ c)) off data = a ++ (writeAt b 0 data ++ c) := by
  have hright := writeAt_append_right a (b ++ c) data 0
  rw [Nat.add_zero, ha] at hright
  rw [hright, writeAt_append_left (by omega)]

/-- A write at the head of a zeroed array. -/
theorem writeAt_zero (n : ℕ) (s : List UInt8) :
    writeAt (CharArray.zero n).bytes 0 (s.take n) = (CharArray.padded n s).bytes := by
  have hlen : (s.take n).length ≤ n := List.length_take_le _ _
  show writeAt (List.replicate n 0) 0 (s.take n) = s.take n ++ List.replicate (n - s.length) 0
  rw [writeAt_eq (by rw [List.length_replicate]; omega), List.drop_replicate, List.length_take]
  show s.take n ++ _ = _
  congr 2
  omega

/-- A write at the head of a zeroed field. -/
theorem writeAt_zeroed (n : ℕ) (s : List UInt8) {a c : List UInt8} {off : ℕ} (ha : a.length = off) :
    writeAt (a ++ ((CharArray.zero n).bytes ++ c)) off (s.take n) =
      a ++ ((CharArray.padded n s).bytes ++ c) := by
  have hfits : (s.take n).length ≤ (CharArray.zero n).bytes.length := by
    rw [(CharArray.zero n).size_eq]
    exact List.length_take_le _ _
  rw [writeAt_field ha hfits, writeAt_zero]

/-- `snprintf(buf + off, size, …)` where the conversions expand to `text`:
at most `size - 1` bytes and a NUL are written, and the full length of the
text is returned. -/
def snprintf (buf : List UInt8) (off size : ℕ) (text : List UInt8) : List UInt8 × ℕ :=
  (if size = 0 then buf else writeAt buf off (text.take (size - 1) ++ [0]), text.length)

/-- `a - b` on a 64-bit `size_t`. -/
def sizeSub (a b : ℕ) : ℕ := (a + 2 ^ 64 - b) % 2 ^ 64

theorem sizeSub_eq {a b : ℕ} (hba : b ≤ a) (ha : a < 2 ^ 64) : sizeSub a b = a - b := by
  unfold sizeSub
  omega

end CStr
