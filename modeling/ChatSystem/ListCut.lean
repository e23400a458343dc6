/-
ChatSystem/ListCut.lean

`cl_build_list` and a buffer that is too small.  The loop notices that an
entry did not fit only after `snprintf` has written what there was room for,
and leaves it there.  So the reader of a full room's list gets the entries
that fit (`wholeList`) and, behind them, the head of one more: a shortened
name, or a shortened status.

The list is left whole exactly when everything fits or some entry ends right
before the last byte of the buffer (`EndsOnEntry`).
-/
import ChatSystem.Replay
import ChatSystem.UserList

namespace ChatSystem

open CStr

/-- The entries of the active records, in slot order. -/
def Table.entries (t : Table) : List (List UInt8) := (t.used.filter (·.activo)).map listEntry

/-- The longest run of whole entries that fits into `n` bytes. -/
def wholeEntries (t : Table) (n : ℕ) : List (List UInt8) :=
  Cut.wholePieces (utf8 ";") n t.entries

/-- These entries as a list. -/
def wholeList (t : Table) (n : ℕ) : List UInt8 := (utf8 ";").intercalate (wholeEntries t n)

/-- A list of `n` bytes at most cuts no entry. -/
def EndsOnEntry (t : Table) (n : ℕ) : Prop :=
  (listText t).length ≤ n ∨ ∃ k, ((utf8 ";").intercalate (t.entries.take k)).length = n

/-- **The list in a buffer** consists of whole entries exactly when no entry
stands across the end of the buffer. -/
theorem clBuildList_eq_wholeList_iff (t : Table) {buf : List UInt8} {buflen : ℕ}
    (hpos : 1 ≤ buflen) (hlen : buflen < 2 ^ 64) (hbuf : buflen ≤ buf.length) :
    cstr (clBuildList t buf buflen) = wholeList t (buflen - 1) ↔ EndsOnEntry t (buflen - 1) := by
  rw [cstr_clBuildList t hpos hlen hbuf]
  exact Cut.take_intercalate_eq_iff

theorem clBuildList_eq_wholeList_iff_twoUsers :
    cstr (clBuildList twoUsers (CharArray.zero 13).bytes 13) = wholeList twoUsers 12 ↔
      EndsOnEntry twoUsers 12 :=
  clBuildList_eq_wholeList_iff twoUsers (by decide) (by decide) (by decide)

/-- Sixteen bytes leave `alice,ACTIVE;bo`. -/
theorem clBuildList_leaves_cut_entry :
    ¬ ∀ (t : Table) (buf : List UInt8) (buflen : ℕ), 1 ≤ buflen → buflen < 2 ^ 64 →
      buflen ≤ buf.length →
      (∀ i r, t.Active i r → PlainName r.username.str ∧ PlainName r.status.str) →
      cstr (clBuildList t buf buflen) = wholeList t (buflen - 1) := by
  intro hall
  have hplain : ∀ r ∈ twoUsers.used, PlainName r.username.str ∧ PlainName r.status.str := by
    unfold PlainName
    decide
  have hcut := hall twoUsers (CharArray.zero 16).bytes 16 (by decide) (by decide) (by decide)
    fun i r hr => hplain r (List.mem_of_getElem? (getElem?_used.mpr
      ⟨(List.getElem?_eq_some_iff.mp hr.1).1, hr.1⟩))
  exact absurd hcut (by decide)

/-! ### What a reader gets -/

/-- Reading back the entries that are left. -/
theorem splitOn_wholeList {t : Table} (n : ℕ)
    (hplain : ∀ i r, t.Active i r → semicolon ∉ r.username.str ∧ semicolon ∉ r.status.str) :
    ((wholeList t n).splitOn semicolon).filter (!·.isEmpty) = wholeEntries t n := by
  unfold wholeList wholeEntries Cut.wholePieces Table.entries
  rw [← List.map_take]
  refine splitOn_listText fun r hr => ?_
  obtain ⟨i, hi⟩ := active_of_mem_used (List.mem_of_mem_take hr)
  exact hplain i r hi

end ChatSystem
