/-
ChatSystem/UserList.lean

The text of a `CMD_USER_LIST`.  `cl_build_list` writes entry after entry into
the payload and stops at the first that does not fit, of which it leaves a
part; what is left in the payload is the whole list (`listText`) cut to 956
bytes (`str_payload_handleList`).

A client splits the text at `;` and takes the name before the first `,`
(`listedNames`).  When the list is whole, its names are free of both
separators and its statuses of `;`, these are the names in the table
(`listed_active`).
-/
import ChatSystem.Cut
import ChatSystem.Handlers
import ChatSystem.TableSpec

namespace ChatSystem

open CStr

/-! ### What is written -/

/-- The entry of a record. -/
def listEntry (r : Cliente) : List UInt8 := r.username.str ++ utf8 "," ++ r.status.str

/-- The entries of the active records, separated by `;`. -/
def listText (t : Table) : List UInt8 :=
  (utf8 ";").intercalate ((t.used.filter (·.activo)).map listEntry)

/-- The text of the remaining entries, `offset` bytes being written. -/
def moreText (offset : ℕ) (entries : List (List UInt8)) : List UInt8 :=
  if offset > 0 then entries.flatMap (utf8 ";" ++ ·) else (utf8 ";").intercalate entries

theorem moreText_cons (offset : ℕ) (r : Cliente) (entries : List (List UInt8)) :
    moreText offset (listEntry r :: entries) =
      listPiece offset r ++ moreText (offset + (listPiece offset r).length) entries := by
  have hpos : 0 < (listPiece offset r).length := by
    simp only [listPiece, List.length_append]
    have hcomma : (utf8 ",").length = 1 := by decide
    omega
  have hmore : offset + (listPiece offset r).length > 0 := by omega
  rw [moreText, moreText, if_pos hmore]
  by_cases hoff : offset > 0
  · simp [hoff, listPiece, listEntry]
  · rw [if_neg hoff, Cut.intercalate_cons_eq]
    simp [hoff, listPiece, listEntry]

theorem zero_notMem_listPiece (offset : ℕ) (r : Cliente) :
    (0 : UInt8) ∉ listPiece offset r := by
  have hseps : (0 : UInt8) ∉ utf8 "," ∧ (0 : UInt8) ∉ utf8 ";" := by decide
  have hname := r.username.zero_notMem_str
  have hstatus := r.status.zero_notMem_str
  by_cases hoff : offset > 0 <;> simp [listPiece, hoff, hseps, hname, hstatus]

/-- The string in a buffer that begins with it and a NUL. -/
theorem cstr_append_zero {pre : List UInt8} (h : (0 : UInt8) ∉ pre) (post : List UInt8) :
    cstr (pre ++ 0 :: post) = pre := by
  rw [cstr_append_of_notMem h]
  simp [cstr]

/-- **The loop of `cl_build_list`** appends the remaining entries to what is
written, as far as the buffer goes. -/
theorem cstr_buildLoop {buflen : ℕ} (hlen : buflen < 2 ^ 64) (rs : List Cliente)
    {pre post : List UInt8} (h0 : (0 : UInt8) ∉ pre) (hpre : pre.length < buflen)
    (hbuf : buflen ≤ (pre ++ 0 :: post).length) :
    cstr (buildLoop buflen rs (pre ++ 0 :: post) pre.length) =
      (pre ++ moreText pre.length ((rs.filter (·.activo)).map listEntry)).take (buflen - 1) := by
  have hfits : pre.length ≤ buflen - 1 := by omega
  induction rs generalizing pre post with
  | nil =>
    have hmore : moreText pre.length [] = [] := by simp [moreText]
    simp only [buildLoop, List.filter_nil, List.map_nil, hmore, List.append_nil]
    rw [cstr_append_zero h0, List.take_of_length_le hfits]
  | cons r rs ih =>
    rw [buildLoop]
    rcases hact : r.activo with - | -
    -- an inactive record writes nothing
    · simpa [hact] using ih h0 hpre hbuf hfits
    · simp only [Bool.not_true, Bool.false_eq_true, if_false, List.filter_cons, hact, if_true,
        List.map_cons, moreText_cons]
      have hsub : sizeSub buflen pre.length = buflen - pre.length := sizeSub_eq (by omega) hlen
      have hsize : buflen - pre.length ≠ 0 := by omega
      have hnul := zero_notMem_listPiece pre.length r
      generalize listPiece pre.length r = piece at hnul ⊢
      rw [hsub]
      simp only [snprintf, if_neg hsize]
      have hwrite : writeAt (pre ++ 0 :: post) pre.length
          (piece.take (buflen - pre.length - 1) ++ [0]) =
          (pre ++ piece.take (buflen - pre.length - 1)) ++
            0 :: (pre ++ 0 :: post).drop (pre.length +
              (piece.take (buflen - pre.length - 1) ++ [0]).length) := by
        rw [writeAt_eq (by simp at hbuf ⊢; omega)]
        simp
      rw [hwrite]
      by_cases hfit : piece.length ≥ buflen - pre.length
      · -- the loop ends with a part of the entry
        rw [if_pos hfit, cstr_append_zero (by simp [h0, notMem_take hnul]), List.take_append,
          List.take_of_length_le hfits, List.take_append_of_le_length (by omega),
          Nat.sub_right_comm]
      · -- the entry fits, and the loop goes on behind it
        rw [if_neg hfit]
        have htake : piece.take (buflen - pre.length - 1) = piece :=
          List.take_of_length_le (by omega)
        rw [htake, ← List.append_assoc]
        have hlength : pre.length + piece.length = (pre ++ piece).length := by simp
        rw [hlength]
        refine ih (by simp [h0, hnul]) (by simp; omega) ?_ (by simp; omega)
        simp at hbuf ⊢
        omega

/-- **What `cl_build_list` leaves** is the whole list, cut to the buffer. -/
theorem cstr_clBuildList (t : Table) {buf : List UInt8} {buflen : ℕ} (hpos : 1 ≤ buflen)
    (hlen : buflen < 2 ^ 64) (hbuf : buflen ≤ buf.length) :
    cstr (clBuildList t buf buflen) = (listText t).take (buflen - 1) := by
  rcases buf with - | ⟨b, post⟩
  · rw [List.length_nil] at hbuf
    omega
  · exact cstr_buildLoop hlen t.used List.not_mem_nil hpos hbuf

/-- **A user list** is the whole list, cut to what fits. -/
theorem str_payload_handleList (t : Table) (pkt : ChatPacket) :
    (handleList t pkt).payload.str = (listText t).take 956 :=
  cstr_clBuildList t (by decide) (by decide) (CharArray.zero 957).size_eq.ge

/-! ### What is read -/

/-- `;` and `,`. -/
def semicolon : UInt8 := 59

def comma : UInt8 := 44

/-- The names a client reads from a list: entries end at `;`, empty ones are
dropped, and the name of an entry ends at the first `,`. -/
def listedNames (payload : List UInt8) : List (List UInt8) :=
  ((payload.splitOn semicolon).filter (!·.isEmpty)).map (·.takeWhile (· != comma))

/-- A name without separators. -/
def PlainName (name : List UInt8) : Prop := comma ∉ name ∧ semicolon ∉ name

/-- The list of the table is not cut, and no status has an entry's end in it. -/
def Table.Legible (t : Table) : Prop :=
  (listText t).length ≤ 956 ∧ ∀ i r, t.Active i r → semicolon ∉ r.status.str

theorem name_of_listEntry {r : Cliente} (h : comma ∉ r.username.str) :
    (listEntry r).takeWhile (· != comma) = r.username.str := by
  have hcomma : utf8 "," = [comma] := by decide
  rw [listEntry, hcomma, List.append_assoc]
  exact takeWhile_append_cons h _

/-- Reading back separated entries. -/
theorem splitOn_listText {rs : List Cliente}
    (h : ∀ r ∈ rs, semicolon ∉ r.username.str ∧ semicolon ∉ r.status.str) :
    (((utf8 ";").intercalate (rs.map listEntry)).splitOn semicolon).filter (!·.isEmpty) =
      rs.map listEntry := by
  have hsemi : utf8 ";" = [semicolon] := by decide
  have hcomma : semicolon ∉ utf8 "," ∧ utf8 "," ≠ [] := by decide
  rcases eq_or_ne rs [] with rfl | hne
  · decide
  · rw [hsemi, List.splitOn_intercalate]
    · refine List.filter_eq_self.mpr fun e he => ?_
      obtain ⟨r, -, rfl⟩ := List.mem_map.mp he
      simp [listEntry, hcomma]
    · intro e he
      obtain ⟨r, hr, rfl⟩ := List.mem_map.mp he
      simp [listEntry, hcomma, h r hr]
    · simpa using hne

theorem active_of_mem_used {t : Table} {r : Cliente} (hr : r ∈ t.used.filter (·.activo)) :
    ∃ i, t.Active i r := by
  obtain ⟨hmem, hact⟩ := List.mem_filter.mp hr
  obtain ⟨i, hi⟩ := List.mem_iff_getElem?.mp hmem
  exact ⟨i, (getElem?_used.mp hi).2, hact⟩

/-- **The names read from a user list** are those of the active records. -/
theorem listedNames_handleList {t : Table} (hleg : t.Legible)
    (hplain : ∀ i r, t.Active i r → PlainName r.username.str) (pkt : ChatPacket) :
    listedNames (handleList t pkt).payload.str =
      (t.used.filter (·.activo)).map (·.username.str) := by
  rw [str_payload_handleList, List.take_of_length_le hleg.1, listedNames, listText,
    splitOn_listText]
  · rw [List.map_map]
    refine List.map_congr_left fun r hr => ?_
    obtain ⟨i, hi⟩ := active_of_mem_used hr
    exact name_of_listEntry (hplain i r hi).1
  · intro r hr
    obtain ⟨i, hi⟩ := active_of_mem_used hr
    exact ⟨(hplain i r hi).2, hleg.2 i r hi⟩

end ChatSystem
