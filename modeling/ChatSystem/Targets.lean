/-
ChatSystem/Targets.lean

The target of `/msg` and `/info`.  The scan that takes it stops at a blank, at
the end of the line, or after 31 bytes, and what follows does not ask which.
A longer target is cut: `/info` asks about its first 31 bytes, and `/msg`
sends the rest of it as the message, to whoever has the first 31 bytes as a
name.

`targetsWhole_iff` is the exact condition: no target is longer than 31 bytes,
unless the byte behind them is a newline, where `/msg` sees an empty message.
-/
import ChatSystem.Commands
import ChatSystem.Replay

namespace ChatSystem

open CStr

/-- What ends the target of `/info`. -/
def infoStop (b : UInt8) : Bool := b == newline || b == space

/-- The targets of the packets a line makes the client send are whole. -/
structure TargetsWhole (line username : List UInt8) : Prop where
  /-- `/msg `, the target, a blank, and the message -/
  direct : ∀ pkt ∈ (uiProcessInput line username).sent, pkt.command = cmdDirect →
    ∃ msg, commandText line = utf8 "/msg " ++ (pkt.target.str ++ space :: msg) ∧
      pkt.target.str ≠ [] ∧ space ∉ pkt.target.str ∧ pkt.payload.str = msg.take 956
  /-- `/info `, the target, and a blank or the end of the line -/
  info : ∀ pkt ∈ (uiProcessInput line username).sent, pkt.command = cmdInfo →
    ∃ rest, commandText line = utf8 "/info " ++ (pkt.target.str ++ rest) ∧
      (∀ b ∈ pkt.target.str, infoStop b = false) ∧ ∀ b, rest.head? = some b → infoStop b = true

/-- The target fits into its buffer, or nothing is sent. -/
structure TargetFits (line : List UInt8) : Prop where
  direct : ∀ args, commandText line = utf8 "/msg " ++ args →
    (word (· == space) args).length ≤ 31 ∨ args[31]? = some newline
  info : ∀ args, commandText line = utf8 "/info " ++ args →
    (word infoStop args).length ≤ 31

/-! ### Words -/

section Words

variable {stop : UInt8 → Bool}

theorem stop_of_mem_word {s : List UInt8} {b : UInt8} (hb : b ∈ word stop s) : stop b = false := by
  simpa using List.mem_takeWhile_imp hb

/-- A text is its first word, and what stops it. -/
theorem word_cases (stop : UInt8 → Bool) (s : List UInt8) :
    word stop s = s ∨ ∃ b rest, s = word stop s ++ b :: rest ∧ stop b = true := by
  induction s with
  | nil => exact .inl rfl
  | cons b s ih =>
    rcases hstop : stop b with - | -
    · have hword : word stop (b :: s) = b :: word stop s := by simp [word, hstop]
      rw [hword]
      rcases ih with hall | ⟨x, rest, hs, hx⟩
      · exact .inl (by rw [hall])
      · refine .inr ⟨x, rest, ?_, hx⟩
        rw [List.cons_append, ← hs]
    · have hword : word stop (b :: s) = [] := by simp [word, hstop]
      rw [hword]
      exact .inr ⟨b, s, rfl, hstop⟩

/-- Inside the first word nothing stops. -/
theorem getElem?_of_word {s : List UInt8} {i : ℕ} (hi : i < (word stop s).length) :
    ∃ b, s[i]? = some b ∧ stop b = false := by
  obtain ⟨rest, hrest⟩ : word stop s <+: s := List.takeWhile_prefix _
  refine ⟨(word stop s)[i], ?_, stop_of_mem_word (List.getElem_mem hi)⟩
  have hsame : s[i]? = (word stop s)[i]? := by
    conv_lhs => rw [← hrest]
    exact List.getElem?_append_left hi
  rw [hsame]
  exact List.getElem?_eq_getElem hi

end Words

/-! ### The two branches -/

section Branches

variable {username args : List UInt8} {pkt : ChatPacket}

/-- The message of `/msg`, behind the target. -/
def messageOf (args : List UInt8) : List UInt8 :=
  let rest := args.drop ((word (· == space) args).take 31).length
  if rest.head? = some space then rest.tail else rest

/-- **What `/msg` sends.** -/
theorem mem_processMsg : pkt ∈ (processMsg username args).sent ↔
    (word (· == space) args).take 31 ≠ [] ∧ atEnd (messageOf args) = false ∧
      pkt = netDirect username ((word (· == space) args).take 31) (messageOf args) := by
  unfold processMsg messageOf
  rw [scan_eq]
  dsimp only
  generalize (word (· == space) args).take 31 = target
  generalize (if (args.drop target.length).head? = some space then _ else _ : List UInt8) = msg
  rcases hend : atEnd msg with - | - <;> by_cases htarget : target = [] <;>
    simp [htarget, Processed.packet, Processed.text]

/-- **What `/info` sends.** -/
theorem mem_processInfo : pkt ∈ (processInfo username args).sent ↔
    (word infoStop args).take 31 ≠ [] ∧
      pkt = netInfo username ((word infoStop args).take 31) := by
  have hscan : (scan (fun b => b == newline || b == space) 31 args).1 =
      (word infoStop args).take 31 := congrArg Prod.fst (scan_eq _ _ _)
  unfold processInfo
  rw [hscan]
  dsimp only
  generalize (word infoStop args).take 31 = target
  by_cases htarget : target = [] <;> simp [htarget, Processed.packet, Processed.text]

/-- Behind a target that fits, the message begins after the blank. -/
theorem messageOf_of_fits (hfits : (word (· == space) args).length ≤ 31)
    (hend : atEnd (messageOf args) = false) :
    args = word (· == space) args ++ space :: messageOf args := by
  have hwhole : (word (· == space) args).take 31 = word (· == space) args :=
    List.take_of_length_le hfits
  unfold messageOf at hend ⊢
  rw [hwhole] at hend ⊢
  rcases word_cases (· == space) args with hall | ⟨b, rest, hsplit, hb⟩
  · -- the target is all there is
    rw [hall, List.drop_length] at hend
    cases hend
  · obtain rfl := eq_of_beq hb
    have hdrop : ∀ w, args = w ++ space :: rest → args.drop w.length = space :: rest := by
      intro w hw
      rw [hw]
      exact List.drop_left
    rw [hdrop _ hsplit]
    exact hsplit

/-- Of a longer target the rest begins the message. -/
theorem messageOf_of_long (hlong : 31 < (word (· == space) args).length) :
    messageOf args = args.drop 31 := by
  obtain ⟨b, hb, hstop⟩ := getElem?_of_word hlong
  have hlen : ((word (· == space) args).take 31).length = 31 :=
    List.length_take_of_le hlong.le
  have hblank : ¬ (args.drop 31).head? = some space := by
    rw [List.head?_drop, hb]
    rintro ⟨⟩
    cases hstop
  unfold messageOf
  rw [hlen, if_neg hblank]

theorem atEnd_drop {s : List UInt8} {i : ℕ} :
    atEnd (s.drop i) = true ↔ s[i]? = none ∨ s[i]? = some newline := by
  rw [← List.head?_drop]
  rcases s.drop i with - | ⟨b, s⟩ <;> simp [atEnd]

/-- A target in its field. -/
theorem str_target_of_length {target : List UInt8} (h0 : (0 : UInt8) ∉ target)
    (hlen : target.length ≤ 31) : (cstr target).take 31 = target := by
  rw [cstr_eq_self h0, List.take_of_length_le hlen]

end Branches

/-! ### All lines -/

variable {line username : List UInt8}

theorem zero_notMem_args {p args : List UInt8} (hline : commandText line = p ++ args) :
    (0 : UInt8) ∉ args := fun h =>
  zero_notMem_commandText line (by rw [hline]; exact List.mem_append_right _ h)

theorem length_take_word_le (stop : UInt8 → Bool) (s : List UInt8) :
    ((word stop s).take 31).length ≤ 31 :=
  List.length_take_le _ _

theorem zero_notMem_take_word {stop : UInt8 → Bool} {s : List UInt8} (h0 : (0 : UInt8) ∉ s) :
    (0 : UInt8) ∉ (word stop s).take 31 := fun h =>
  h0 ((List.takeWhile_sublist _).subset (List.mem_of_mem_take h))

/-- A DIRECT comes from a line with `/msg`. -/
theorem direct_of_sent {pkt : ChatPacket} (hpkt : pkt ∈ (uiProcessInput line username).sent)
    (hcommand : pkt.command = cmdDirect) :
    ∃ args, commandText line = utf8 "/msg " ++ args ∧ pkt ∈ (processMsg username args).sent := by
  rcases sent_cases hpkt with ⟨_, -, hother, -⟩ | ⟨args, hline, -, hmem⟩ | ⟨_, -, hother, -⟩ |
    ⟨_, -, rfl⟩ | ⟨_, -, hother, -⟩ | ⟨_, -, rfl⟩
  · exact absurd (hother.symm.trans hcommand) (by decide)
  · exact ⟨args, hline, hmem⟩
  · exact absurd (hother.symm.trans hcommand) (by decide)
  · exact absurd (show cmdList = cmdDirect from hcommand) (by decide)
  · exact absurd (hother.symm.trans hcommand) (by decide)
  · exact absurd (show cmdLogout = cmdDirect from hcommand) (by decide)

/-- An INFO comes from a line with `/info`. -/
theorem info_of_sent {pkt : ChatPacket} (hpkt : pkt ∈ (uiProcessInput line username).sent)
    (hcommand : pkt.command = cmdInfo) :
    ∃ args, commandText line = utf8 "/info " ++ args ∧ pkt ∈ (processInfo username args).sent := by
  rcases sent_cases hpkt with ⟨_, -, hother, -⟩ | ⟨_, -, hother, -⟩ | ⟨_, -, hother, -⟩ |
    ⟨_, -, rfl⟩ | ⟨args, hline, -, hmem⟩ | ⟨_, -, rfl⟩
  · exact absurd (hother.symm.trans hcommand) (by decide)
  · exact absurd (hother.symm.trans hcommand) (by decide)
  · exact absurd (hother.symm.trans hcommand) (by decide)
  · exact absurd (show cmdList = cmdInfo from hcommand) (by decide)
  · exact ⟨args, hline, hmem⟩
  · exact absurd (show cmdLogout = cmdInfo from hcommand) (by decide)

/-- A `/msg` whose target fits. -/
theorem direct_whole_of_fits {args : List UInt8} {pkt : ChatPacket}
    (h0 : (0 : UInt8) ∉ args)
    (hfits : (word (· == space) args).length ≤ 31 ∨ args[31]? = some newline)
    (hmem : pkt ∈ (processMsg username args).sent) :
    ∃ msg, args = pkt.target.str ++ space :: msg ∧ pkt.target.str ≠ [] ∧
      space ∉ pkt.target.str ∧ pkt.payload.str = msg.take 956 := by
  obtain ⟨hne, hend, rfl⟩ := mem_processMsg.mp hmem
  rcases Nat.lt_or_ge 31 (word (· == space) args).length with hlong | hshort
  · -- the byte behind the limit is a newline, and the message empty
    have hnewline := hfits.resolve_left (by omega)
    rw [messageOf_of_long hlong, ← Bool.not_eq_true, atEnd_drop] at hend
    exact absurd (.inr hnewline) hend
  · have hsplit := messageOf_of_fits hshort hend
    have hmsg : (0 : UInt8) ∉ messageOf args := fun h =>
      h0 (by rw [hsplit]; exact List.mem_append_right _ (List.mem_cons_of_mem _ h))
    have htarget : (netDirect username ((word (· == space) args).take 31)
        (messageOf args)).target.str = word (· == space) args := by
      rw [netDirect, str_target_fillPacket, str_target_of_length (zero_notMem_take_word h0)
        (length_take_word_le _ _), List.take_of_length_le hshort]
    rw [List.take_of_length_le hshort] at hne
    rw [htarget]
    refine ⟨messageOf args, hsplit, hne, fun h => ?_, ?_⟩
    · have hstop := stop_of_mem_word h
      cases hstop
    · rw [netDirect, str_payload_fillPacket, cstr_eq_self hmsg]

/-- An `/info` whose target fits. -/
theorem info_whole_of_fits {args : List UInt8} {pkt : ChatPacket} (h0 : (0 : UInt8) ∉ args)
    (hfits : (word infoStop args).length ≤ 31) (hmem : pkt ∈ (processInfo username args).sent) :
    ∃ rest, args = pkt.target.str ++ rest ∧ (∀ b ∈ pkt.target.str, infoStop b = false) ∧
      ∀ b, rest.head? = some b → infoStop b = true := by
  obtain ⟨-, rfl⟩ := mem_processInfo.mp hmem
  have htarget : (netInfo username ((word infoStop args).take 31)).target.str =
      word infoStop args := by
    rw [netInfo, str_target_fillPacket, str_target_of_length (zero_notMem_take_word h0)
      (length_take_word_le _ _), List.take_of_length_le hfits]
  rw [htarget]
  rcases word_cases infoStop args with hall | ⟨b, rest, hsplit, hb⟩
  · refine ⟨[], by rw [hall, List.append_nil], fun b hb => stop_of_mem_word hb, fun b hb => ?_⟩
    cases hb
  · refine ⟨b :: rest, hsplit, fun b hb => stop_of_mem_word hb, fun x hx => ?_⟩
    obtain rfl := Option.some.inj hx
    exact hb

/-- The first 31 bytes of a longer word. -/
theorem take_word_of_long {stop : UInt8 → Bool} {args tail : List UInt8}
    (hlong : 31 < (word stop args).length) (hsplit : args = (word stop args).take 31 ++ tail) :
    ∃ b rest, tail = b :: rest ∧ args[31]? = some b ∧ stop b = false := by
  obtain ⟨b, hb, hstop⟩ := getElem?_of_word hlong
  have hlen : ((word stop args).take 31).length = 31 := List.length_take_of_le hlong.le
  have htail : tail.head? = args[31]? := by
    rw [← List.head?_drop]
    conv_rhs => rw [hsplit, List.drop_left' hlen]
  rw [hb, List.head?_eq_some_iff] at htail
  obtain ⟨rest, hrest⟩ := htail
  exact ⟨b, rest, hrest, hb, hstop⟩

theorem take_word_ne_nil {stop : UInt8 → Bool} {args : List UInt8}
    (hlong : 31 < (word stop args).length) : (word stop args).take 31 ≠ [] := by
  apply List.ne_nil_of_length_pos
  rw [List.length_take_of_le hlong.le]
  decide

/-- A longer target makes `/msg` send a cut one. -/
theorem direct_fits_of_whole (h : TargetsWhole line username) {args : List UInt8}
    (hline : commandText line = utf8 "/msg " ++ args) :
    (word (· == space) args).length ≤ 31 ∨ args[31]? = some newline := by
  by_contra hcut
  rw [not_or, Nat.not_le] at hcut
  obtain ⟨hlong, hnewline⟩ := hcut
  have h0 := zero_notMem_args hline
  obtain ⟨b, hb, -⟩ := getElem?_of_word hlong
  have hend : atEnd (messageOf args) = false := by
    rw [messageOf_of_long hlong, ← Bool.not_eq_true, atEnd_drop, not_or]
    exact ⟨by rw [hb]; exact Option.some_ne_none b, hnewline⟩
  have hsent : netDirect username ((word (· == space) args).take 31) (messageOf args) ∈
      (uiProcessInput line username).sent := by
    rw [processed_of_begins (e := (utf8 "/msg ", processMsg username)) (by simp [commands]) hline]
    exact mem_processMsg.mpr ⟨take_word_ne_nil hlong, hend, rfl⟩
  obtain ⟨msg, hwhole, -, -, -⟩ := h.direct _ hsent rfl
  rw [netDirect, str_target_fillPacket, str_target_of_length (zero_notMem_take_word h0)
    (length_take_word_le _ _), hline, List.append_cancel_left_eq] at hwhole
  -- the byte behind the cut target is not a blank
  obtain ⟨x, rest, hx, -, hstop⟩ := take_word_of_long hlong hwhole
  obtain ⟨rfl, -⟩ := List.cons.inj hx
  cases hstop

/-- A longer target makes `/info` send a cut one. -/
theorem info_fits_of_whole (h : TargetsWhole line username) {args : List UInt8}
    (hline : commandText line = utf8 "/info " ++ args) : (word infoStop args).length ≤ 31 := by
  by_contra hlong
  rw [Nat.not_le] at hlong
  have h0 := zero_notMem_args hline
  have hsent : netInfo username ((word infoStop args).take 31) ∈
      (uiProcessInput line username).sent := by
    rw [processed_of_begins (e := (utf8 "/info ", processInfo username)) (by simp [commands]) hline]
    exact mem_processInfo.mpr ⟨take_word_ne_nil hlong, rfl⟩
  obtain ⟨tail, hwhole, -, hstop⟩ := h.info _ hsent rfl
  rw [netInfo, str_target_fillPacket, str_target_of_length (zero_notMem_take_word h0)
    (length_take_word_le _ _), hline, List.append_cancel_left_eq] at hwhole
  obtain ⟨b, rest, rfl, -, hnot⟩ := take_word_of_long hlong hwhole
  exact absurd (hstop b rfl) (by rw [hnot]; decide)

/-- **Targets are whole** exactly when they fit into their buffer, or nothing is
sent. -/
theorem targetsWhole_iff (line username : List UInt8) :
    TargetsWhole line username ↔ TargetFits line := by
  constructor
  · intro h
    exact ⟨fun _ hline => direct_fits_of_whole h hline, fun _ hline => info_fits_of_whole h hline⟩
  · intro h
    refine ⟨fun pkt hpkt hcommand => ?_, fun pkt hpkt hcommand => ?_⟩
    · obtain ⟨args, hline, hmem⟩ := direct_of_sent hpkt hcommand
      obtain ⟨msg, hsplit, hwhole⟩ :=
        direct_whole_of_fits (zero_notMem_args hline) (h.direct args hline) hmem
      exact ⟨msg, by rw [hline, ← hsplit], hwhole⟩
    · obtain ⟨args, hline, hmem⟩ := info_of_sent hpkt hcommand
      obtain ⟨rest, hsplit, hwhole⟩ :=
        info_whole_of_fits (zero_notMem_args hline) (h.info args hline) hmem
      exact ⟨rest, by rw [hline, ← hsplit], hwhole⟩

/-- A target of 32 bytes: the last of them goes into the message. -/
theorem msg_cuts_target :
    ¬ ∀ line username : List UInt8, TargetsWhole line username := by
  intro hall
  have h := hall (utf8 "/msg bob45678901234567890123456789012 hola") alice
  have hcut : (word (· == space) (utf8 "bob45678901234567890123456789012 hola")).length ≤ 31 ∨
      (utf8 "bob45678901234567890123456789012 hola")[31]? = some newline :=
    direct_fits_of_whole h (by decide)
  exact absurd hcut (by decide)

end ChatSystem
