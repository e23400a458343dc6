/-
ChatSystem/Strtok.lean

`strchr` and `strtok_r` on a buffer: positions instead of pointers, and the
buffer is written where `strtok_r` ends a token.

    pieces sep s  —  the non-empty parts of the string `s` between separators

`strtokR_cases` describes one call on a terminated buffer: it finds the first
piece of the string at its position, cuts it off with a NUL, and leaves the
other pieces to the next call.
-/
import ChatSystem.CStr
import Mathlib.Data.List.Basic

namespace CStr

/-- `strchr(buf + pos, b)`. -/
def strchr (buf : List UInt8) (pos : ℕ) (b : UInt8) : Option ℕ :=
  if b ∈ cstr (buf.drop pos) then some (pos + (cstr (buf.drop pos)).idxOf b) else none

/-- `strspn(buf + pos, delim)`. -/
def strspn (buf : List UInt8) (pos : ℕ) (delim : UInt8) : ℕ :=
  ((buf.drop pos).takeWhile (· == delim)).length

/-- `strcspn(buf + pos, delim)`. -/
def strcspn (buf : List UInt8) (pos : ℕ) (delim : UInt8) : ℕ :=
  ((cstr (buf.drop pos)).takeWhile (· != delim)).length

/-- `strtok_r(…, delim, &save)` with one delimiter, started or resumed at
`pos`: where the token begins, the buffer after the call, and `save`. -/
def strtokR (buf : List UInt8) (pos : ℕ) (delim : UInt8) : Option ℕ × List UInt8 × ℕ :=
  let s := pos + strspn buf pos delim
  if buf.getD s 0 = 0 then (none, buf, s)
  else
    let e := s + strcspn buf s delim
    if buf.getD e 0 = 0 then (some s, buf, e) else (some s, buf.set e 0, e + 1)

/-- The non-empty parts of a string between separators. -/
def pieces {α : Type*} [BEq α] (sep : α) (s : List α) : List (List α) :=
  (s.splitOn sep).filter (!·.isEmpty)

/-! ### Pieces -/

@[simp] theorem pieces_nil {α : Type*} [BEq α] {sep : α} : pieces sep ([] : List α) = [] := by
  simp [pieces]

section Pieces

variable {α : Type*} [BEq α] [LawfulBEq α] {sep : α}

/-- The parts are made of what stands between the separators. -/
theorem mem_of_mem_splitOn {s t : List α} (h : t ∈ s.splitOn sep) :
    ∀ b ∈ t, b ∈ s ∧ b ≠ sep := by
  induction s generalizing t with
  | nil =>
    rw [List.splitOn_nil, List.mem_singleton] at h
    rw [h]
    exact fun b hb => absurd hb List.not_mem_nil
  | cons x s ih =>
    have hmore {t' : List α} (ht' : t' ∈ s.splitOn sep) : ∀ b ∈ t', b ∈ x :: s ∧ b ≠ sep :=
      fun b hb => ⟨List.mem_cons_of_mem _ (ih ht' b hb).1, (ih ht' b hb).2⟩
    obtain ⟨first, rest, hsplit⟩ := List.exists_cons_of_ne_nil (List.splitOn_ne_nil sep s)
    rw [List.splitOn_cons_eq_if_modifyHead, hsplit] at h
    rw [hsplit] at hmore
    split at h
    · -- a separator: the first part is empty
      rcases List.mem_cons.mp h with rfl | h
      · exact fun b hb => absurd hb List.not_mem_nil
      · exact hmore h
    · -- another element: it joins the first part
      case isFalse hx =>
      rcases List.mem_cons.mp h with rfl | h
      · intro b hb
        rcases List.mem_cons.mp hb with rfl | hb
        · exact ⟨List.mem_cons_self, fun heq => hx (beq_iff_eq.mpr heq)⟩
        · exact hmore List.mem_cons_self b hb
      · exact hmore (List.mem_cons_of_mem _ h)

theorem notMem_of_mem_pieces {s t : List α} (h : t ∈ pieces sep s) : sep ∉ t :=
  fun hb => (mem_of_mem_splitOn (List.mem_of_mem_filter h) sep hb).2 rfl

/-- Separators in front make no piece. -/
theorem pieces_sep_cons (s : List α) : pieces sep (sep :: s) = pieces sep s := by
  have hsplit : (sep :: s).splitOn sep = [] :: s.splitOn sep :=
    List.splitOn_append_cons_self_of_not_mem List.not_mem_nil s
  unfold pieces
  rw [hsplit]
  rfl

theorem pieces_seps_append {seps : List α} (hseps : ∀ b ∈ seps, b = sep) (s : List α) :
    pieces sep (seps ++ s) = pieces sep s := by
  induction seps with
  | nil => rfl
  | cons b seps ih =>
    obtain rfl := hseps b List.mem_cons_self
    rw [List.cons_append, pieces_sep_cons, ih fun b' hb' => hseps b' (List.mem_cons_of_mem _ hb')]

/-- A part without separators is a piece, to the end of the string … -/
theorem pieces_last {t : List α} (hne : t ≠ []) (ht : sep ∉ t) : pieces sep t = [t] := by
  unfold pieces
  rw [List.splitOn_eq_singleton ht]
  simpa using hne

/-- … or to the next separator. -/
theorem pieces_first {t : List α} (hne : t ≠ []) (ht : sep ∉ t) (s : List α) :
    pieces sep (t ++ sep :: s) = t :: pieces sep s := by
  unfold pieces
  rw [List.splitOn_append_cons_self_of_not_mem ht]
  simp [hne]

/-- The pieces before a separator and those behind it. -/
theorem pieces_append_cons (s t : List α) :
    pieces sep (s ++ sep :: t) = pieces sep s ++ pieces sep t := by
  unfold pieces
  rw [List.splitOn_append_cons_self, List.filter_append]

/-- A string that does not begin with a separator begins with a piece. -/
theorem head?_pieces {b : α} (hb : b ≠ sep) (s : List α) :
    (pieces sep (b :: s)).head? = some ((b :: s).takeWhile (· != sep)) := by
  by_cases hmem : sep ∈ b :: s
  · obtain ⟨t, u, heq, ht⟩ := List.eq_append_cons_of_mem hmem
    have hne : t ≠ [] := by
      rintro rfl
      exact hb (List.cons.inj heq).1
    rw [heq, pieces_first hne ht, takeWhile_append_cons ht]
    rfl
  · rw [pieces_last (List.cons_ne_nil b s) hmem, takeWhile_of_notMem hmem]
    rfl

end Pieces

/-! ### `strchr` -/

/-- The first `b` of a string ends what stands before it. -/
theorem strchr_cases (buf : List UInt8) (pos : ℕ) (b : UInt8) :
    (b ∉ cstr (buf.drop pos) ∧ strchr buf pos b = none) ∨
    ∃ x y, cstr (buf.drop pos) = x ++ b :: y ∧ b ∉ x ∧
      strchr buf pos b = some (pos + x.length) := by
  unfold strchr
  by_cases hb : b ∈ cstr (buf.drop pos)
  · obtain ⟨x, y, heq, hx⟩ := List.eq_append_cons_of_mem hb
    refine .inr ⟨x, y, heq, hx, ?_⟩
    rw [if_pos hb, heq, List.idxOf_append_of_notMem hx, List.idxOf_cons_self, Nat.add_zero]
  · exact .inl ⟨hb, if_neg hb⟩

/-! ### `strtok_r` -/

/-- `strspn` stands on a byte other than the delimiter. -/
theorem strspn_spec (buf : List UInt8) (pos : ℕ) (delim : UInt8) :
    ∃ seps, seps.length = strspn buf pos delim ∧ (∀ b ∈ seps, b = delim) ∧
      buf.drop pos = seps ++ buf.drop (pos + strspn buf pos delim) ∧
      ∀ b rest, buf.drop (pos + strspn buf pos delim) = b :: rest → b ≠ delim := by
  have hsplit : (buf.drop pos).takeWhile (· == delim) ++ (buf.drop pos).dropWhile (· == delim) =
      buf.drop pos := List.takeWhile_append_dropWhile
  have hrest : buf.drop (pos + strspn buf pos delim) = (buf.drop pos).dropWhile (· == delim) :=
    calc buf.drop (pos + strspn buf pos delim)
        = (buf.drop pos).drop (strspn buf pos delim) := List.drop_drop.symm
      _ = ((buf.drop pos).takeWhile (· == delim) ++ (buf.drop pos).dropWhile (· == delim)).drop
            (strspn buf pos delim) := by rw [hsplit]
      _ = (buf.drop pos).dropWhile (· == delim) := List.drop_left
  refine ⟨(buf.drop pos).takeWhile (· == delim), rfl, ?_, ?_, ?_⟩
  · intro b hb
    simpa using List.mem_takeWhile_imp hb
  · rw [hrest, hsplit]
  · intro b rest hb
    rw [hrest] at hb
    have hhead := List.head?_dropWhile_not (· == delim) (buf.drop pos)
    rw [hb] at hhead
    simpa using hhead

theorem getD_eq_headD_drop (buf : List UInt8) (i : ℕ) : buf.getD i 0 = (buf.drop i).headD 0 := by
  rw [List.getD_eq_getElem?_getD, List.headD_eq_head?_getD, List.head?_drop]

/-- Where a token begins, it has a first byte. -/
theorem token_ne_nil {buf : List UInt8} {start : ℕ} {delim : UInt8} (hne : buf.getD start 0 ≠ 0)
    (hhead : ∀ b rest, buf.drop start = b :: rest → b ≠ delim) :
    start < buf.length ∧ (cstr (buf.drop start)).takeWhile (· != delim) ≠ [] := by
  rw [getD_eq_headD_drop] at hne
  rcases hdrop : buf.drop start with - | ⟨b, rest⟩
  · rw [hdrop] at hne
    exact absurd rfl hne
  · rw [hdrop] at hne
    have hlt : start < buf.length := by
      have hlen := congrArg List.length hdrop
      rw [List.length_drop, List.length_cons] at hlen
      omega
    have hb0 : (b != 0) = true := by simpa using hne
    have hbd : (b != delim) = true := by simpa using hhead b rest hdrop
    refine ⟨hlt, ?_⟩
    unfold cstr
    rw [List.takeWhile_cons, if_pos hb0, List.takeWhile_cons, if_pos hbd]
    exact List.cons_ne_nil _ _

/-- A call that finds a token goes forward, and keeps the size of the
buffer. -/
theorem strtokR_advances {buf buf' : List UInt8} {pos s save : ℕ} {delim : UInt8}
    (h : strtokR buf pos delim = (some s, buf', save)) :
    pos < save ∧ pos < buf.length ∧ buf'.length = buf.length := by
  obtain ⟨-, -, -, -, hhead⟩ := strspn_spec buf pos delim
  have hpos : pos ≤ pos + strspn buf pos delim := Nat.le_add_right _ _
  unfold strtokR at h
  generalize pos + strspn buf pos delim = start at h hhead hpos
  simp only at h
  split at h
  · cases h
  · case isFalse hne =>
    obtain ⟨hlt, hfirst⟩ := token_ne_nil hne hhead
    have hspan : 0 < strcspn buf start delim := List.length_pos_iff.mpr hfirst
    split at h <;> cases h
    · exact ⟨by omega, by omega, rfl⟩
    · exact ⟨by omega, by omega, List.length_set⟩

/-- The string and its NUL. -/
theorem eq_cstr_append {p : List UInt8} (h : (0 : UInt8) ∈ p) : ∃ q, p = cstr p ++ 0 :: q := by
  obtain ⟨x, y, rfl, hx⟩ := List.eq_append_cons_of_mem h
  refine ⟨y, ?_⟩
  rw [cstr_append_of_notMem hx]
  simp [cstr]

/-- A string up to its first delimiter. -/
theorem takeWhile_cases (s : List UInt8) (delim : UInt8) :
    ∃ u, s = s.takeWhile (· != delim) ++ u ∧ (u = [] ∨ ∃ u', u = delim :: u') := by
  refine ⟨s.dropWhile (· != delim), List.takeWhile_append_dropWhile.symm, ?_⟩
  rcases hu : s.dropWhile (· != delim) with - | ⟨b, u'⟩
  · exact .inl rfl
  · have hhead := List.head?_dropWhile_not (· != delim) s
    rw [hu] at hhead
    obtain rfl : b = delim := by simpa using hhead
    exact .inr ⟨u', rfl⟩

/-- The token `t` stands at `pre.length`; what ends it is written over. -/
theorem cut_token {pre t u c : List UInt8} {delim : UInt8} (hdelim : delim ≠ 0)
    (ht : delim ∉ t) (hne : t ≠ []) (h0 : (0 : UInt8) ∉ t ++ u)
    (hu : u = [] ∨ ∃ u', u = delim :: u') :
    ∃ post save,
      (let buf := pre ++ (t ++ (u ++ 0 :: c))
       let e := pre.length + t.length
       if buf.getD e 0 = 0 then (some pre.length, buf, e)
       else (some pre.length, buf.set e 0, e + 1)) =
        (some pre.length, pre ++ (t ++ 0 :: post), save) ∧
      (save = (pre ++ t).length ∨ save = (pre ++ t).length + 1 ∧ (0 : UInt8) ∈ post) ∧
      pieces delim (t ++ u) = t :: pieces delim (cstr ((pre ++ (t ++ 0 :: post)).drop save)) := by
  have hlen : pre.length + t.length = (pre ++ t).length := List.length_append.symm
  rw [hlen]
  simp only [← List.append_assoc pre t]
  rcases hu with rfl | ⟨u', rfl⟩
  · -- the token ends at the NUL: nothing is written, and the next call starts there
    refine ⟨c, (pre ++ t).length, ?_, .inl rfl, ?_⟩
    · have hzero : (pre ++ t ++ ([] ++ 0 :: c)).getD (pre ++ t).length 0 = 0 := by
        rw [getD_eq_headD_drop, List.drop_left]
        rfl
      exact if_pos hzero
    · rw [List.drop_left, List.append_nil, pieces_last hne ht]
      simp [cstr]
  · -- it ends at a delimiter, which becomes a NUL
    have hu0 : (0 : UInt8) ∉ u' := fun h =>
      h0 (List.mem_append_right _ (List.mem_cons_of_mem _ h))
    refine ⟨u' ++ 0 :: c, (pre ++ t).length + 1, ?_, .inr ⟨rfl, by simp⟩, ?_⟩
    · have hmore : (pre ++ t ++ (delim :: u' ++ 0 :: c)).getD (pre ++ t).length 0 ≠ 0 := by
        rw [getD_eq_headD_drop, List.drop_left]
        exact hdelim
      have hset : (pre ++ t ++ (delim :: u' ++ 0 :: c)).set (pre ++ t).length 0 =
          pre ++ t ++ 0 :: (u' ++ 0 :: c) := by
        rw [List.set_append_right _ _ (Nat.le_refl _), Nat.sub_self]
        rfl
      rw [if_neg hmore, hset]
    · have hdrop : (pre ++ t ++ 0 :: (u' ++ 0 :: c)).drop ((pre ++ t).length + 1) =
          u' ++ 0 :: c := by
        rw [← List.drop_drop, List.drop_left]
        rfl
      rw [hdrop, pieces_first hne ht, cstr_append_of_notMem hu0]
      simp [cstr]

/-- **One call** on a buffer with a NUL behind `pos`. -/
theorem strtokR_cases {buf : List UInt8} {pos : ℕ} {delim : UInt8} (hdelim : delim ≠ 0)
    (h0 : (0 : UInt8) ∈ buf.drop pos) :
    (∃ save, strtokR buf pos delim = (none, buf, save) ∧
      pieces delim (cstr (buf.drop pos)) = []) ∨
    ∃ pre t post save,
      strtokR buf pos delim = (some pre.length, pre ++ (t ++ 0 :: post), save) ∧
      (0 : UInt8) ∉ t ∧ delim ∉ t ∧ t ≠ [] ∧
      (save = (pre ++ t).length ∨ save = (pre ++ t).length + 1 ∧ (0 : UInt8) ∈ post) ∧
      pieces delim (cstr (buf.drop pos)) =
        t :: pieces delim (cstr ((pre ++ (t ++ 0 :: post)).drop save)) := by
  obtain ⟨seps, hlen, hseps, hdrop, hhead⟩ := strspn_spec buf pos delim
  have hseps0 : (0 : UInt8) ∉ seps := fun h => hdelim (hseps 0 h).symm
  have hpieces : pieces delim (cstr (buf.drop pos)) =
      pieces delim (cstr (buf.drop (pos + strspn buf pos delim))) := by
    nth_rewrite 1 [hdrop]
    rw [cstr_append_of_notMem hseps0, pieces_seps_append hseps]
  rw [hdrop] at h0
  -- the NUL is behind the delimiters skipped
  have hterm : (0 : UInt8) ∈ buf.drop (pos + strspn buf pos delim) :=
    (List.mem_append.mp h0).resolve_left hseps0
  rw [hpieces]
  unfold strtokR
  generalize pos + strspn buf pos delim = start at hhead hterm
  simp only
  obtain ⟨c, hc⟩ := eq_cstr_append hterm
  have hstr0 := zero_notMem_cstr (buf.drop start)
  by_cases hend : buf.getD start 0 = 0
  · -- nothing but delimiters
    refine .inl ⟨start, if_pos hend, ?_⟩
    rw [getD_eq_headD_drop] at hend
    rcases hs : cstr (buf.drop start) with - | ⟨b, s⟩
    · exact pieces_nil
    · rw [hc, hs, List.cons_append] at hend
      obtain rfl : b = 0 := hend
      rw [hs] at hstr0
      exact absurd List.mem_cons_self hstr0
  · -- the token is what comes before the next delimiter
    obtain ⟨u, hu, hucases⟩ := takeWhile_cases (cstr (buf.drop start)) delim
    have htdelim : delim ∉ (cstr (buf.drop start)).takeWhile (· != delim) := by
      intro h
      simpa using List.mem_takeWhile_imp h
    obtain ⟨hlt, hne⟩ := token_ne_nil hend hhead
    have hspan : strcspn buf start delim =
      ((cstr (buf.drop start)).takeWhile (· != delim)).length := rfl
    rw [if_neg hend, hspan]
    generalize (cstr (buf.drop start)).takeWhile (· != delim) = t at hu htdelim hne
    rw [hu] at hc hstr0 ⊢
    have hstart : (buf.take start).length = start := List.length_take_of_le hlt.le
    have hbuf : buf.take start ++ (t ++ (u ++ 0 :: c)) = buf := by
      rw [← List.append_assoc t, ← hc, List.take_append_drop]
    obtain ⟨post, save, hcut, hsave, hmore⟩ :=
      @cut_token (buf.take start) t u c delim hdelim htdelim hne hstr0 hucases
    rw [hbuf, hstart] at hcut
    refine .inr ⟨buf.take start, t, post, save, ?_, ?_, htdelim, hne, hsave, hmore⟩
    · rw [hstart]
      exact hcut
    · exact fun h => hstr0 (List.mem_append_left _ h)

end CStr
