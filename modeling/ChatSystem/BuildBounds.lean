/-
ChatSystem/BuildBounds.lean

`cl_build_list` stays inside its buffer.  `buflen - offset` is a difference
of `size_t` values, `n` is an `int`, and the loop has no other guard than

    if (n < 0 || (size_t)n >= buflen - offset) break;

The iterations of the loop are listed (`iterations`), and what the loop leaves
is the buffer with the store of each of them (`buildLoop_eq_foldl`).  The
invariant is `offset < buflen`: an entry that does not fit ends the loop, one
that fits leaves the offset below the end.
-/
import ChatSystem.Replay
import ChatSystem.UserList

namespace ChatSystem

open CStr

/-! ### The iterations -/

/-- An iteration of the loop: the slot it visits and the offset it finds. -/
structure Iteration where
  slot : Cliente
  offset : ℕ

/-- The iterations over these slots, `offset` bytes being written. -/
def iterations (buflen : ℕ) : List Cliente → ℕ → List Iteration
  | [], _ => []
  | r :: rs, offset =>
    ⟨r, offset⟩ ::
      if !r.activo then iterations buflen rs offset
      else if (listPiece offset r).length ≥ sizeSub buflen offset then []
      else iterations buflen rs (offset + (listPiece offset r).length)

namespace Iteration

/-- `buflen - offset`. -/
def room (it : Iteration) (buflen : ℕ) : ℕ := sizeSub buflen it.offset

/-- What `snprintf` returns; a slot that is not active is skipped. -/
def n (it : Iteration) : ℕ := if !it.slot.activo then 0 else (listPiece it.offset it.slot).length

/-- The bytes stored from `buf + offset` on. -/
def stored (it : Iteration) (buflen : ℕ) : List UInt8 :=
  if !it.slot.activo ∨ it.room buflen = 0 then []
  else (listPiece it.offset it.slot).take (it.room buflen - 1) ++ [0]

/-- The iteration is in bounds: its offset is inside the buffer, the difference
does not wrap, the store ends in the buffer, and `n` is an `int`. -/
structure Inside (it : Iteration) (buflen : ℕ) : Prop where
  offset_lt : it.offset < buflen
  room_eq : it.room buflen = buflen - it.offset
  room_pos : 1 ≤ it.room buflen
  stored_le : it.offset + (it.stored buflen).length ≤ buflen
  n_lt : it.n < 2 ^ 31

end Iteration

theorem writeAt_nil (buf : List UInt8) (off : ℕ) : writeAt buf off [] = buf := by
  induction buf generalizing off with
  | nil => rfl
  | cons b buf ih =>
    rcases off with - | off
    · rfl
    · rw [writeAt, ih]

@[simp] theorem Iteration.room_mk (r : Cliente) (offset buflen : ℕ) :
    (Iteration.mk r offset).room buflen = sizeSub buflen offset := rfl

theorem stored_of_active {r : Cliente} (hact : r.activo = true) (offset buflen : ℕ) :
    (Iteration.mk r offset).stored buflen =
      if sizeSub buflen offset = 0 then []
      else (listPiece offset r).take (sizeSub buflen offset - 1) ++ [0] := by
  simp only [Iteration.stored, Iteration.room_mk, hact]
  simp

/-- The store of an active slot is what `snprintf` does. -/
theorem snprintf_eq_stored {r : Cliente} (hact : r.activo = true) (buflen : ℕ) (buf : List UInt8)
    (offset : ℕ) :
    (snprintf buf offset (sizeSub buflen offset) (listPiece offset r)).1 =
      writeAt buf offset ((Iteration.mk r offset).stored buflen) := by
  rw [stored_of_active hact]
  unfold snprintf
  split
  · rw [writeAt_nil]
  · rfl

section Steps

variable {buflen offset : ℕ} {r : Cliente} (rs : List Cliente) (buf : List UInt8)

/-- An entry that does not fit ends the loop. -/
theorem buildLoop_full (hact : r.activo = true)
    (hfull : sizeSub buflen offset ≤ (listPiece offset r).length) :
    buildLoop buflen (r :: rs) buf offset =
      (snprintf buf offset (sizeSub buflen offset) (listPiece offset r)).1 := by
  simp only [buildLoop]
  split
  · next h => simp [hact] at h
  · split
    · rfl
    · next h => exact absurd hfull h

/-- Behind one that fits it goes on. -/
theorem buildLoop_fits (hact : r.activo = true)
    (hfits : ¬ sizeSub buflen offset ≤ (listPiece offset r).length) :
    buildLoop buflen (r :: rs) buf offset =
      buildLoop buflen rs (snprintf buf offset (sizeSub buflen offset) (listPiece offset r)).1
        (offset + (listPiece offset r).length) := by
  simp only [buildLoop]
  split
  · next h => simp [hact] at h
  · split
    · next h => exact absurd h hfits
    · rfl

theorem iterations_full (hact : r.activo = true)
    (hfull : sizeSub buflen offset ≤ (listPiece offset r).length) :
    iterations buflen (r :: rs) offset = [⟨r, offset⟩] := by
  rw [iterations, if_neg (by simp [hact]), if_pos hfull]

theorem iterations_fits (hact : r.activo = true)
    (hfits : ¬ sizeSub buflen offset ≤ (listPiece offset r).length) :
    iterations buflen (r :: rs) offset =
      ⟨r, offset⟩ :: iterations buflen rs (offset + (listPiece offset r).length) := by
  rw [iterations, if_neg (by simp [hact]), if_neg hfits]

end Steps

/-- **The loop** leaves the buffer with the stores of its iterations. -/
theorem buildLoop_eq_foldl (buflen : ℕ) (rs : List Cliente) (buf : List UInt8) (offset : ℕ) :
    buildLoop buflen rs buf offset =
      (iterations buflen rs offset).foldl
        (fun buf it => writeAt buf it.offset (it.stored buflen)) buf := by
  induction rs generalizing buf offset with
  | nil => rfl
  | cons r rs ih =>
    rcases hact : r.activo with - | -
    · -- a slot that is not active stores nothing
      have hstored : (Iteration.mk r offset).stored buflen = [] := by
        simp [Iteration.stored, hact]
      rw [buildLoop, iterations, List.foldl_cons, hstored, writeAt_nil]
      simpa [hact] using ih buf offset
    · by_cases hfull : sizeSub buflen offset ≤ (listPiece offset r).length
      · rw [buildLoop_full rs buf hact hfull, iterations_full rs hact hfull, List.foldl_cons,
          snprintf_eq_stored hact, List.foldl_nil]
      · rw [buildLoop_fits rs buf hact hfull, iterations_fits rs hact hfull, List.foldl_cons, ih,
          snprintf_eq_stored hact]

/-! ### The invariant -/

/-- The entries of terminated records are short. -/
theorem length_listPiece_le {r : Cliente} (hname : r.username.Terminated)
    (hstatus : r.status.Terminated) (offset : ℕ) : (listPiece offset r).length ≤ 48 := by
  have hname' := hname.length_str_lt
  have hstatus' := hstatus.length_str_lt
  have hseps : (utf8 ",").length = 1 ∧ (utf8 ";").length = 1 := by decide
  by_cases hoff : offset > 0
  · simp only [listPiece, hoff, if_true, List.length_append]
    omega
  · simp only [listPiece, hoff, if_false, List.length_append, List.length_nil]
    omega

/-- **One iteration** that starts below the end is in bounds. -/
theorem inside_of_lt {buflen : ℕ} (hlen : buflen < 2 ^ 64) {r : Cliente}
    (hterm : r.activo = true → r.username.Terminated ∧ r.status.Terminated) {offset : ℕ}
    (hoff : offset < buflen) : (Iteration.mk r offset).Inside buflen := by
  have hroom : (Iteration.mk r offset).room buflen = buflen - offset :=
    sizeSub_eq hoff.le hlen
  refine ⟨hoff, hroom, by rw [hroom]; omega, ?_, ?_⟩
  · show offset + ((Iteration.mk r offset).stored buflen).length ≤ buflen
    unfold Iteration.stored
    split
    · simpa using hoff.le
    · rw [hroom, List.length_append, List.length_take, List.length_singleton]
      omega
  · unfold Iteration.n
    split
    · decide
    · next hact =>
      obtain ⟨hname, hstatus⟩ := hterm (by simpa using hact)
      have := length_listPiece_le hname hstatus offset
      show (listPiece offset r).length < 2 ^ 31
      omega

/-- **The loop invariant**: every iteration starts below the end. -/
theorem iterations_inside {buflen : ℕ} (hlen : buflen < 2 ^ 64) {rs : List Cliente}
    (hterm : ∀ r ∈ rs, r.activo = true → r.username.Terminated ∧ r.status.Terminated)
    {offset : ℕ} (hoff : offset < buflen) :
    ∀ it ∈ iterations buflen rs offset, it.Inside buflen := by
  induction rs generalizing offset with
  | nil =>
    intro it hit
    cases hit
  | cons r rs ih =>
    have hrest : ∀ s ∈ rs, s.activo = true → s.username.Terminated ∧ s.status.Terminated :=
      fun s hs => hterm s (List.mem_cons_of_mem r hs)
    intro it hit
    rw [iterations] at hit
    rcases List.mem_cons.mp hit with rfl | hit
    · exact inside_of_lt hlen (hterm r List.mem_cons_self) hoff
    · split at hit
      · exact ih hrest hoff it hit
      · split at hit
        -- the entry does not fit, and the loop ends
        · cases hit
        · next hfits =>
          rw [sizeSub_eq hoff.le hlen] at hfits
          exact ih hrest (by omega) it hit

/-! ### The buffer -/

/-- A store that ends at `k` leaves the bytes from `k` on. -/
theorem drop_writeAt {buf data : List UInt8} {off k : ℕ} (hend : off + data.length ≤ k) :
    (writeAt buf off data).drop k = buf.drop k := by
  fun_induction writeAt buf off data generalizing k with
  | case1 => rfl
  | case2 => rfl
  | case3 _ buf d data ih =>
    rw [List.length_cons] at hend
    obtain ⟨k, rfl⟩ := Nat.exists_eq_add_of_lt (show 0 < k by omega)
    simpa [Nat.add_comm] using ih (k := k) (by omega)
  | case4 b buf off data ih =>
    obtain ⟨k, rfl⟩ := Nat.exists_eq_add_of_lt (show 0 < k by omega)
    simpa [Nat.add_comm] using ih (k := k) (by omega)

/-- Stores in bounds leave the bytes behind the end. -/
theorem drop_foldl_stored {buflen : ℕ} {its : List Iteration}
    (hin : ∀ it ∈ its, it.Inside buflen) (buf : List UInt8) :
    (its.foldl (fun buf it => writeAt buf it.offset (it.stored buflen)) buf).drop buflen =
      buf.drop buflen := by
  induction its generalizing buf with
  | nil => rfl
  | cons it its ih =>
    rw [List.foldl_cons, ih fun jt hjt => hin jt (List.mem_cons_of_mem it hjt)]
    exact drop_writeAt (hin it List.mem_cons_self).stored_le

/-- The string of a buffer ends with a NUL, if it ends in the buffer. -/
theorem getElem?_length_cstr {p : List UInt8} (h : (cstr p).length < p.length) :
    p[(cstr p).length]? = some 0 := by
  induction p with
  | nil => exact absurd h (Nat.lt_irrefl _)
  | cons b p ih =>
    by_cases hb : b = 0
    · simp [cstr, hb]
    · have hcons : cstr (b :: p) = b :: cstr p := List.takeWhile_cons_of_pos (by simpa using hb)
      rw [hcons, List.length_cons, List.length_cons] at h
      rw [hcons, List.length_cons, List.getElem?_cons_succ]
      exact ih (Nat.lt_of_succ_lt_succ h)

/-- **`cl_build_list` stays inside its buffer**: its iterations are in bounds,
no byte behind the end is written, and a NUL stands below it. -/
theorem clBuildList_inside (t : Table)
    (hterm : ∀ i r, t.Active i r → r.username.Terminated ∧ r.status.Terminated)
    (buf : List UInt8) (buflen : ℕ) (hpos : 1 ≤ buflen) (hlen : buflen < 2 ^ 64)
    (hbuf : buflen ≤ buf.length) :
    (∀ it ∈ iterations buflen t.used 0, it.Inside buflen) ∧
    clBuildList t buf buflen = (iterations buflen t.used 0).foldl
      (fun buf it => writeAt buf it.offset (it.stored buflen)) (buf.set 0 0) ∧
    (clBuildList t buf buflen).drop buflen = buf.drop buflen ∧
    ∃ k < buflen, (clBuildList t buf buflen)[k]? = some 0 := by
  have hloop := buildLoop_eq_foldl buflen t.used (buf.set 0 0) 0
  have hin : ∀ it ∈ iterations buflen t.used 0, it.Inside buflen := by
    refine iterations_inside hlen (fun r hr hact => ?_) hpos
    obtain ⟨i, hi⟩ := active_of_mem_used (List.mem_filter.mpr ⟨hr, hact⟩)
    exact hterm i r hi
  refine ⟨hin, hloop, ?_, ?_⟩
  · rw [clBuildList, hloop, drop_foldl_stored hin]
    exact List.drop_set_of_lt hpos
  · have hstr : (cstr (clBuildList t buf buflen)).length < buflen := by
      rw [cstr_clBuildList t hpos hlen hbuf, List.length_take]
      omega
    exact ⟨_, hstr, getElem?_length_cstr (by rw [length_clBuildList]; omega)⟩

/-- Thirteen bytes for two users, in an array of twenty. -/
theorem clBuildList_inside_twoUsers :
    (∀ it ∈ iterations 13 twoUsers.used 0, it.Inside 13) ∧
    clBuildList twoUsers (List.replicate 20 7) 13 = (iterations 13 twoUsers.used 0).foldl
      (fun buf it => writeAt buf it.offset (it.stored 13)) ((List.replicate 20 7).set 0 0) ∧
    (clBuildList twoUsers (List.replicate 20 7) 13).drop 13 = (List.replicate 20 7).drop 13 ∧
    ∃ k < 13, (clBuildList twoUsers (List.replicate 20 7) 13)[k]? = some 0 := by
  have hterm : ∀ r ∈ twoUsers.lista, r.username.Terminated ∧ r.status.Terminated := by decide
  exact clBuildList_inside twoUsers (fun i r hr => hterm r (List.mem_of_getElem? hr.1))
    (List.replicate 20 7) 13 (by decide) (by decide) (by decide)

end ChatSystem
