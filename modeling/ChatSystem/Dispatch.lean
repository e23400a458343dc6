/-
ChatSystem/Dispatch.lean

Which lines the terminal client takes for a command.  The documented commands
are words; `ui_process_input` tests prefixes.  Where the prefix ends with the
blank behind the word the two agree.  `/list` and `/exit` are tested without
it, so a line that goes on right behind them, such as `/listen` or `/exited`,
is taken for the command too.

These are the only lines on which the client does what their first word does
not ask for (`dispatchExact_iff`).
-/
import ChatSystem.Commands
import ChatSystem.Replay

namespace ChatSystem

open CStr

/-- What stands between words. -/
def isBlank (b : UInt8) : Bool := b == space || b == tab || b == newline

/-- The first word of a line. -/
def firstWord (line : List UInt8) : List UInt8 := word isBlank (commandText line)

/-- The documented commands that send something, and their codes. -/
def documented : List (List UInt8 × UInt8) :=
  [(utf8 "/broadcast", cmdBroadcast), (utf8 "/msg", cmdDirect), (utf8 "/status", cmdStatus),
    (utf8 "/list", cmdList), (utf8 "/info", cmdInfo), (utf8 "/exit", cmdLogout)]

/-- The client does what the first word of the line says, and otherwise
nothing. -/
structure DispatchExact (line username : List UInt8) : Prop where
  /-- at most one packet, and it is the word's -/
  atMostOne : (uiProcessInput line username).sent.length ≤ 1
  own : ∀ pkt ∈ (uiProcessInput line username).sent,
    (firstWord line, pkt.command) ∈ documented
  /-- only `/exit` leaves, with a LOGOUT -/
  leaves : (uiProcessInput line username).ret = 0 ∨
    (uiProcessInput line username).ret = -1 ∧ firstWord line = utf8 "/exit" ∧
      ∃ pkt, (uiProcessInput line username).sent = [pkt] ∧ pkt.command = cmdLogout
  /-- any other line sends nothing and goes on -/
  quiet : firstWord line ∉ documented.map Prod.fst →
    (uiProcessInput line username).sent = [] ∧ (uiProcessInput line username).ret = 0

/-- A line that begins with `/list` or `/exit` has that word in front. -/
def PrefixIsWord (line : List UInt8) : Prop :=
  ∀ w ∈ [utf8 "/list", utf8 "/exit"], w <+: commandText line → firstWord line = w

/-! ### Words -/

theorem firstWord_eq {line w : List UInt8} (hw : w.all (!isBlank ·) = true) {b : UInt8}
    (hb : isBlank b = true) {rest : List UInt8} (hline : commandText line = w ++ b :: rest) :
    firstWord line = w := by
  have hkeep : ∀ x ∈ w, (!isBlank x) = true := List.all_eq_true.mp hw
  rw [firstWord, word, hline, List.takeWhile_append_of_pos hkeep, List.takeWhile_cons]
  simp [hb]

/-! ### Single lines -/

variable {line username : List UInt8}

/-- A documented word in front of what it does. -/
theorem dispatchExact_of_only {command : UInt8}
    (hword : (firstWord line, command) ∈ documented)
    (honly : (uiProcessInput line username).Only command) : DispatchExact line username := by
  obtain ⟨hret, hone, hcommand⟩ := honly
  refine ⟨hone, fun pkt hpkt => ?_, .inl hret, fun hother => ?_⟩
  · rw [hcommand pkt hpkt]
    exact hword
  · exact absurd (List.mem_map_of_mem hword) hother

/-- A prefix that ends with the blank behind the word. -/
theorem dispatchExact_of_prefix {p w : List UInt8} {command : UInt8}
    (hp : p = w ++ [space] ∧ w.all (!isBlank ·) = true) (hdoc : (w, command) ∈ documented)
    {rest : List UInt8} (hline : commandText line = p ++ rest)
    (honly : (uiProcessInput line username).Only command) : DispatchExact line username := by
  refine dispatchExact_of_only ?_ honly
  rw [hp.1, List.append_assoc] at hline
  rw [firstWord_eq hp.2 rfl hline]
  exact hdoc

theorem dispatchExact_of_quiet (hsent : (uiProcessInput line username).sent = [])
    (hret : (uiProcessInput line username).ret = 0) : DispatchExact line username :=
  ⟨by rw [hsent]; exact Nat.zero_le 1, by rw [hsent]; exact fun _ hp => absurd hp List.not_mem_nil,
    .inl hret, fun _ => ⟨hsent, hret⟩⟩

theorem dispatchExact_of_exit (hword : firstWord line = utf8 "/exit")
    (hdoes : uiProcessInput line username = ⟨[netLogout username], [], -1⟩) :
    DispatchExact line username := by
  refine ⟨?_, fun pkt hpkt => ?_, .inr ⟨?_, hword, netLogout username, ?_, rfl⟩, fun hother => ?_⟩
  · rw [hdoes]
    exact Nat.le_refl 1
  · rw [hdoes] at hpkt
    rw [List.mem_singleton.mp hpkt, hword]
    show (utf8 "/exit", cmdLogout) ∈ documented
    decide
  · rw [hdoes]
  · rw [hdoes]
  · rw [hword] at hother
    exact absurd (by decide) hother

/-! ### All lines -/

/-- `/list` sends a LIST, whatever stands behind it. -/
theorem processed_list {rest : List UInt8} (hline : commandText line = utf8 "/list" ++ rest) :
    uiProcessInput line username = .packet (netList username) :=
  processed_of_begins (e := (utf8 "/list", fun _ => .packet (netList username)))
    (by simp [commands]) hline

/-- `/exit` leaves, whatever stands behind it. -/
theorem processed_exit {rest : List UInt8} (hline : commandText line = utf8 "/exit" ++ rest) :
    uiProcessInput line username = ⟨[netLogout username], [], -1⟩ :=
  processed_of_begins (e := (utf8 "/exit", fun _ => ⟨[netLogout username], [], -1⟩))
    (by simp [commands]) hline

/-- The code of the packet, or of the return, names the word. -/
theorem prefixIsWord_of_exact (h : DispatchExact line username) : PrefixIsWord line := by
  intro w hw ⟨rest, hrest⟩
  rcases List.mem_pair.mp hw with rfl | rfl
  · have hown := h.own (netList username) (by
      rw [processed_list hrest.symm]
      exact List.mem_singleton_self _)
    rw [show (netList username).command = cmdList from rfl] at hown
    simp [documented, cmdList, cmdBroadcast, cmdDirect, cmdStatus, cmdInfo, cmdLogout] at hown
    exact hown
  · rcases h.leaves with hret | ⟨-, hword, -⟩
    · rw [processed_exit hrest.symm] at hret
      cases hret
    · exact hword

/-- A line with one of the prefixes. -/
theorem dispatchExact_of_command (hwords : PrefixIsWord line)
    {e : List UInt8 × (List UInt8 → Processed)} (he : e ∈ commands username) {rest : List UInt8}
    (hline : commandText line = e.1 ++ rest) (hdoes : uiProcessInput line username = e.2 rest) :
    DispatchExact line username := by
  simp only [commands, List.mem_cons, List.not_mem_nil, or_false] at he
  rcases he with rfl | rfl | rfl | rfl | rfl | rfl | rfl <;> dsimp only at hline hdoes
  · exact dispatchExact_of_prefix (w := utf8 "/broadcast") (by decide) (by decide) hline
      (hdoes ▸ processBroadcast_only username rest)
  · exact dispatchExact_of_prefix (w := utf8 "/msg") (by decide) (by decide) hline
      (hdoes ▸ processMsg_only username rest)
  · exact dispatchExact_of_prefix (w := utf8 "/status") (by decide) (by decide) hline
      (hdoes ▸ processStatus_only username rest)
  · -- `/list`: the condition gives the word
    have hword := hwords (utf8 "/list") (by decide) ⟨rest, hline.symm⟩
    have hdoc : (firstWord line, cmdList) ∈ documented := by
      rw [hword]
      decide
    exact dispatchExact_of_only hdoc (hdoes ▸ only_packet (netList username))
  · exact dispatchExact_of_prefix (w := utf8 "/info") (by decide) (by decide) hline
      (hdoes ▸ processInfo_only username rest)
  · -- `/help` sends nothing
    exact dispatchExact_of_quiet (by rw [hdoes]) (by rw [hdoes])
  · have hword := hwords (utf8 "/exit") (by decide) ⟨rest, hline.symm⟩
    exact dispatchExact_of_exit hword hdoes

/-- Any other line. -/
theorem dispatchExact_of_unrecognised
    (hdoes : uiProcessInput line username = unrecognised (commandText line)) :
    DispatchExact line username := by
  have hquiet : (unrecognised (commandText line)).sent = [] ∧
      (unrecognised (commandText line)).ret = 0 := by
    unfold unrecognised
    split <;> exact ⟨rfl, rfl⟩
  exact dispatchExact_of_quiet (by rw [hdoes, hquiet.1]) (by rw [hdoes, hquiet.2])

/-- **The client acts on the documented words only** exactly when a line that
begins with `/list` or `/exit` has that word in front. -/
theorem dispatchExact_iff (line username : List UInt8) :
    DispatchExact line username ↔ PrefixIsWord line := by
  constructor
  · exact prefixIsWord_of_exact
  · intro hwords
    rcases processed_cases line username with ⟨e, he, rest, hline, hdoes⟩ | hdoes
    · exact dispatchExact_of_command hwords he hline hdoes
    · exact dispatchExact_of_unrecognised hdoes

/-- `/listen` is taken for `/list`. -/
theorem dispatch_takes_prefix :
    ¬ ∀ line username : List UInt8, DispatchExact line username := by
  intro hall
  have hown := (hall (utf8 "/listen") alice).own
  exact absurd hown (by decide)

end ChatSystem
