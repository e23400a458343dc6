/-
ChatSystem/Terminal.lean

`ui_display_packet` of `client_ui.c`: what the terminal client does with a
received packet, as the list of its actions.  An action is a line printed or
a string read: `read object pos` stands for a function that runs over the
string at `pos` in `object` until it meets the NUL (`strcmp`, `%s`, `strncpy`,
`strchr`, `strtok_r`).

* `reads_inside` — when the fields of the packet are terminated, every such
  read meets a NUL of the object it started in;
* `users_displayed` — the users printed from a list are the pieces of its
  text, each cut at its first `,`.
-/
import ChatSystem.Strtok
import ChatSystem.UserList

namespace ChatSystem

open CStr

/-- What is printed, without colours and headings. -/
inductive Line
  | ok (text : List UInt8)
  | error (text : List UInt8)
  | notice (text : List UInt8)
  | message (sender text : List UInt8)
  | directMessage (sender text : List UInt8)
  | user (name : List UInt8) (status : Option (List UInt8))
  | info (ip : List UInt8) (status : Option (List UInt8))
  | disconnected (name : List UInt8)
  | unknown (command : UInt8)
deriving DecidableEq, Repr

inductive Action
  | read (object : List UInt8) (pos : ℕ)
  | print (line : Line)
deriving DecidableEq, Repr

/-- An entry at `pos` is cut at its first `,` and printed: the actions, and
the buffer after them. -/
def showEntry (mk : List UInt8 → Option (List UInt8) → Line) (buf : List UInt8) (pos : ℕ) :
    List Action × List UInt8 :=
  match strchr buf pos comma with
  | some c =>
    let buf' := buf.set c 0
    ([.read buf pos, .read buf' pos, .read buf' (c + 1),
      .print (mk (cstr (buf'.drop pos)) (some (cstr (buf'.drop (c + 1)))))], buf')
  | none => ([.read buf pos, .read buf pos, .print (mk (cstr (buf.drop pos)) none)], buf)

theorem length_showEntry (mk : List UInt8 → Option (List UInt8) → Line) (buf : List UInt8)
    (pos : ℕ) : (showEntry mk buf pos).2.length = buf.length := by
  unfold showEntry
  split
  · exact List.length_set
  · rfl

/-- The loop over the entries of a user list. -/
def showEntries (buf : List UInt8) (pos : ℕ) : List Action :=
  match _hcall : strtokR buf pos semicolon with
  | (some entry, buf', save) =>
    .read buf pos ::
      ((showEntry .user buf' entry).1 ++ showEntries (showEntry .user buf' entry).2 save)
  | (none, _, _) => [.read buf pos]
termination_by buf.length - pos
decreasing_by
  obtain ⟨hsave, hpos, hlen⟩ := strtokR_advances _hcall
  rw [length_showEntry, hlen]
  omega

/-- `char buf[957]; strncpy(buf, pkt->payload, 956); buf[956] = '\\0'`, whatever
`buf` held. -/
def copyPayload (garbage : CharArray 957) (pkt : ChatPacket) : CharArray 957 :=
  (garbage.strncpy pkt.payloadPtr 956 payload_limit).put 956 0

/-- `ui_display_packet`. -/
def uiDisplayPacket (garbage : CharArray 957) (pkt : ChatPacket) : List Action :=
  if pkt.command = cmdOk then [.read pkt.payload.bytes 0, .print (.ok (cstr pkt.payloadPtr))]
  else if pkt.command = cmdError then
    [.read pkt.payload.bytes 0, .print (.error (cstr pkt.payloadPtr))]
  else if pkt.command = cmdMsg then
    .read pkt.sender.bytes 0 ::
      if strEq pkt.senderPtr senderServer then
        [.read pkt.payload.bytes 0, .print (.notice (cstr pkt.payloadPtr))]
      else
        [.read pkt.target.bytes 0, .read pkt.sender.bytes 0, .read pkt.payload.bytes 0,
          .print (if strEq pkt.targetPtr targetAll
            then .message (cstr pkt.senderPtr) (cstr pkt.payloadPtr)
            else .directMessage (cstr pkt.senderPtr) (cstr pkt.payloadPtr))]
  else if pkt.command = cmdUserList then
    .read pkt.payload.bytes 0 :: showEntries (copyPayload garbage pkt).bytes 0
  else if pkt.command = cmdUserInfo then
    .read pkt.payload.bytes 0 :: (showEntry .info (copyPayload garbage pkt).bytes 0).1
  else if pkt.command = cmdDisconnected then
    [.read pkt.payload.bytes 0, .print (.disconnected (cstr pkt.payloadPtr))]
  else [.print (.unknown pkt.command)]

/-! ### Cutting an entry -/

/-- The parts of an entry before and after its first `,`. -/
def cutAtComma (entry : List UInt8) : List UInt8 × Option (List UInt8) :=
  (entry.takeWhile (· != comma),
    if comma ∈ entry then some (entry.dropWhile (· != comma)).tail else none)

theorem cutAtComma_of_notMem {entry : List UInt8} (h : comma ∉ entry) :
    cutAtComma entry = (entry, none) := by
  unfold cutAtComma
  rw [if_neg h, takeWhile_of_notMem h]

theorem cutAtComma_append {x : List UInt8} (hx : comma ∉ x) (y : List UInt8) :
    cutAtComma (x ++ comma :: y) = (x, some y) := by
  unfold cutAtComma
  rw [if_pos (by simp), takeWhile_append_cons hx, List.dropWhile_append_of_pos (bne_of_notMem hx)]
  simp

/-- A read that stays in its object. -/
def Action.Inside : Action → Prop
  | read object pos => (0 : UInt8) ∈ object.drop pos
  | print _ => True

/-- The lines printed. -/
def Action.line? : Action → Option Line
  | read _ _ => none
  | print line => some line

def printed (actions : List Action) : List Line := actions.filterMap Action.line?

/-- The buffer after `,` has been written over. -/
theorem set_comma {buf x y : List UInt8} {pos : ℕ} (h0 : (0 : UInt8) ∈ buf.drop pos)
    (hstr : cstr (buf.drop pos) = x ++ comma :: y) :
    ∃ q, (buf.set (pos + x.length) 0).drop pos = x ++ 0 :: (y ++ 0 :: q) ∧
      (buf.set (pos + x.length) 0).drop (pos + x.length + 1) = y ++ 0 :: q := by
  obtain ⟨q, hq⟩ := eq_cstr_append h0
  rw [hstr] at hq
  have hdrop : (buf.set (pos + x.length) 0).drop pos = x ++ 0 :: (y ++ 0 :: q) := by
    rw [List.drop_set, if_neg (by omega), Nat.add_sub_cancel_left, hq, List.append_assoc,
      List.set_append_right _ _ (Nat.le_refl _), Nat.sub_self]
    rfl
  refine ⟨q, hdrop, ?_⟩
  rw [Nat.add_assoc, ← List.drop_drop, hdrop, ← List.drop_drop, List.drop_left]
  rfl

/-- **One entry**: its reads stay in the buffer, its two parts are printed, and
behind the string nothing is written. -/
theorem showEntry_spec (mk : List UInt8 → Option (List UInt8) → Line) {buf : List UInt8} {pos : ℕ}
    (h0 : (0 : UInt8) ∈ buf.drop pos) :
    (∀ a ∈ (showEntry mk buf pos).1, a.Inside) ∧
    printed (showEntry mk buf pos).1 =
      [mk (cutAtComma (cstr (buf.drop pos))).1 (cutAtComma (cstr (buf.drop pos))).2] ∧
    ∀ k, pos + (cstr (buf.drop pos)).length ≤ k → (showEntry mk buf pos).2.drop k = buf.drop k := by
  rcases strchr_cases buf pos comma with ⟨hnone, hchr⟩ | ⟨x, y, hstr, hx, hchr⟩
  · -- no comma: one string
    have hentry : showEntry mk buf pos =
        ([.read buf pos, .read buf pos, .print (mk (cstr (buf.drop pos)) none)], buf) := by
      unfold showEntry
      rw [hchr]
    rw [hentry, cutAtComma_of_notMem hnone]
    refine ⟨?_, rfl, fun _ _ => rfl⟩
    intro a ha
    simp only [List.mem_cons, List.not_mem_nil, or_false] at ha
    rcases ha with rfl | rfl | rfl
    · exact h0
    · exact h0
    · trivial
  · -- the comma becomes a NUL, with a string on either side
    obtain ⟨q, hpos, hnext⟩ := set_comma h0 hstr
    have hstr0 := zero_notMem_cstr (buf.drop pos)
    rw [hstr, List.mem_append, List.mem_cons, not_or, not_or] at hstr0
    obtain ⟨hx0, -, hy0⟩ := hstr0
    have hname : cstr (x ++ 0 :: (y ++ 0 :: q)) = x := cstr_append_zero hx0 _
    have hstatus : cstr (y ++ 0 :: q) = y := cstr_append_zero hy0 _
    have hentry : showEntry mk buf pos =
        ([.read buf pos, .read (buf.set (pos + x.length) 0) pos,
          .read (buf.set (pos + x.length) 0) (pos + x.length + 1), .print (mk x (some y))],
          buf.set (pos + x.length) 0) := by
      unfold showEntry
      rw [hchr]
      simp only [hpos, hnext, hname, hstatus]
    rw [hentry, hstr, cutAtComma_append hx]
    refine ⟨?_, rfl, fun k hk => ?_⟩
    · intro a ha
      simp only [List.mem_cons, List.not_mem_nil, or_false] at ha
      rcases ha with rfl | rfl | rfl | rfl
      · exact h0
      · show (0 : UInt8) ∈ List.drop _ _
        rw [hpos]
        simp
      · show (0 : UInt8) ∈ List.drop _ _
        rw [hnext]
        simp
      · trivial
    · -- behind the entry the buffer is as before
      rw [List.length_append, List.length_cons] at hk
      exact List.drop_set_of_lt (by omega)

/-! ### The entries of a list -/

/-- **The loop over the entries**: its reads stay in the buffer, and every
piece of the string at `pos` is printed. -/
theorem showEntries_spec {buf : List UInt8} {pos : ℕ} (h0 : (0 : UInt8) ∈ buf.drop pos) :
    (∀ a ∈ showEntries buf pos, a.Inside) ∧
    printed (showEntries buf pos) =
      (pieces semicolon (cstr (buf.drop pos))).map fun t =>
        .user (cutAtComma t).1 (cutAtComma t).2 := by
  have hsemi : semicolon ≠ 0 := by decide
  fun_induction showEntries buf pos with
  | case1 buf pos entry buf' save hcall ih =>
    rcases strtokR_cases hsemi h0 with ⟨save', hnone, -⟩ |
      ⟨pre, t, post, save', hsome, ht0, htsemi, hne, hsave, hpieces⟩
    · rw [hnone] at hcall
      cases hcall
    · rw [hsome] at hcall
      obtain ⟨rfl, rfl, rfl⟩ : pre.length = entry ∧ pre ++ (t ++ 0 :: post) = buf' ∧
          save' = save := by simpa using hcall
      have hentry : (pre ++ (t ++ 0 :: post)).drop pre.length = t ++ 0 :: post := List.drop_left
      have hstr : cstr ((pre ++ (t ++ 0 :: post)).drop pre.length) = t := by
        rw [hentry]
        exact cstr_append_zero ht0 post
      obtain ⟨hreads, hline, hbehind⟩ := showEntry_spec .user
        (show (0 : UInt8) ∈ (pre ++ (t ++ 0 :: post)).drop pre.length by rw [hentry]; simp)
      rw [hstr] at hline hbehind
      -- the next call starts behind the token
      have hle : pre.length + t.length ≤ save' := by
        rw [List.length_append] at hsave
        omega
      have hmore : (0 : UInt8) ∈ (pre ++ (t ++ 0 :: post)).drop save' := by
        rw [← List.append_assoc]
        rcases hsave with rfl | ⟨rfl, hpost⟩
        · rw [List.drop_left]
          exact List.mem_cons_self
        · rw [← List.drop_drop, List.drop_left]
          exact hpost
      obtain ⟨hrest, hlines⟩ := ih (by rw [hbehind save' hle]; exact hmore)
      rw [hbehind save' hle] at hlines
      constructor
      · intro a ha
        rcases List.mem_cons.mp ha with rfl | ha
        · exact h0
        · exact (List.mem_append.mp ha).elim (hreads a) (hrest a)
      · show printed (_ ++ _) = _
        unfold printed at hline hlines ⊢
        rw [List.filterMap_append, hline, hlines, hpieces]
        rfl
  | case2 buf pos buf' save hcall =>
    rcases strtokR_cases hsemi h0 with ⟨save', hnone, hpieces⟩ |
      ⟨pre, t, post, save', hsome, -⟩
    · rw [hpieces]
      refine ⟨?_, rfl⟩
      intro a ha
      rw [List.mem_singleton.mp ha]
      exact h0
    · rw [hsome] at hcall
      cases hcall

/-! ### One packet -/

theorem copyPayload_spec (garbage : CharArray 957) (pkt : ChatPacket) :
    (copyPayload garbage pkt).str = (cstr pkt.payloadPtr).take 956 ∧
      (copyPayload garbage pkt).Terminated :=
  ⟨CharArray.str_strncpy_put (by decide), CharArray.terminated_strncpy_put (by decide)⟩

/-- **Every read stays in its field**, or in the copy of the payload, when the
fields are terminated. -/
theorem reads_inside (garbage : CharArray 957) {pkt : ChatPacket} (hs : pkt.sender.Terminated)
    (ht : pkt.target.Terminated) (hp : pkt.payload.Terminated) :
    ∀ a ∈ uiDisplayPacket garbage pkt, a.Inside := by
  have hcopy : (0 : UInt8) ∈ (copyPayload garbage pkt).bytes.drop 0 :=
    (copyPayload_spec garbage pkt).2
  have hpayload : (Action.read pkt.payload.bytes 0).Inside := hp
  have hsender : (Action.read pkt.sender.bytes 0).Inside := hs
  have htarget : (Action.read pkt.target.bytes 0).Inside := ht
  have hprint : ∀ line, (Action.print line).Inside := fun _ => trivial
  unfold uiDisplayPacket
  -- every read starts in a terminated field or in the copy of the payload
  split
  · simp [hpayload, hprint]
  split
  · simp [hpayload, hprint]
  split
  · split <;> simp [hpayload, hsender, htarget, hprint]
  split
  · intro a ha
    rcases List.mem_cons.mp ha with rfl | ha
    · exact hpayload
    · exact (showEntries_spec hcopy).1 a ha
  split
  · intro a ha
    rcases List.mem_cons.mp ha with rfl | ha
    · exact hpayload
    · exact (showEntry_spec .info hcopy).1 a ha
  split
  · simp [hpayload, hprint]
  · simp [hprint]

/-- **What is printed for a list**: the pieces of its text. -/
theorem printed_list (garbage : CharArray 957) {pkt : ChatPacket}
    (hcmd : pkt.command = cmdUserList) :
    printed (uiDisplayPacket garbage pkt) =
      (pieces semicolon ((cstr pkt.payloadPtr).take 956)).map fun t =>
        .user (cutAtComma t).1 (cutAtComma t).2 := by
  obtain ⟨hstr, hterm⟩ := copyPayload_spec garbage pkt
  have hentries := (@showEntries_spec (copyPayload garbage pkt).bytes 0 hterm).2
  rw [← hstr]
  unfold uiDisplayPacket
  rw [hcmd]
  exact hentries

end ChatSystem
