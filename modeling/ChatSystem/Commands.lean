/-
ChatSystem/Commands.lean

`ui_process_input` of `client_ui.c`: one line of input, the packets it makes
the terminal client send, what is printed, and the return code (`-1` ends the
client).

A command is recognised by a prefix test, `strncmp(line, "/msg ", 5)`; the
prefixes of `/list`, `/help` and `/exit` leave out the blank behind the word.
The arguments are taken by bounded scans (`scan`) that stop at a blank, at the
end of the line or when the buffer is full.

`processed_of_begins` says what a line with each of the prefixes does, and
`processed_cases` turns that around.
-/
import ChatSystem.Clients

namespace ChatSystem

open CStr

/-! ### Characters -/

def space : UInt8 := 32

def tab : UInt8 := 9

def newline : UInt8 := 10

/-- `tolower` in the C locale. -/
def toLower (b : UInt8) : UInt8 := if 65 ≤ b ∧ b ≤ 90 then b + 32 else b

/-- `if (c >= 'a' && c <= 'z') c -= 32`. -/
def toUpper (b : UInt8) : UInt8 := if 97 ≤ b ∧ b ≤ 122 then b - 32 else b

/-- `strcasecmp(p, q) == 0`. -/
def strCaseEq (p q : List UInt8) : Bool := (cstr p).map toLower == (cstr q).map toLower

/-- `strncmp(p, q, n) == 0`. -/
def strnEq (p q : List UInt8) (n : ℕ) : Bool := (cstr p).take n == (cstr q).take n

/-! ### Scans -/

/-- `while (*line == ' ' || *line == '\\t') line++`. -/
def skipBlanks (line : List UInt8) : List UInt8 :=
  line.dropWhile fun b => b == space || b == tab

/-- `*s == '\\0' || *s == '\\n'`. -/
def atEnd : List UInt8 → Bool
  | [] => true
  | b :: _ => b == newline

/-- `while (*rest && !stop(*rest) && i < limit) token[i++] = *rest++`: the token
and the rest. -/
def scan (stop : UInt8 → Bool) : ℕ → List UInt8 → List UInt8 × List UInt8
  | 0, rest => ([], rest)
  | _ + 1, [] => ([], [])
  | limit + 1, b :: rest =>
    if stop b then ([], b :: rest)
    else (b :: (scan stop limit rest).1, (scan stop limit rest).2)

/-- The text up to the first byte that stops the scan. -/
def word (stop : UInt8 → Bool) (s : List UInt8) : List UInt8 := s.takeWhile (!stop ·)

/-- **A scan** takes the text up to the stop, cut to the limit. -/
theorem scan_eq (stop : UInt8 → Bool) (limit : ℕ) (s : List UInt8) :
    scan stop limit s =
      ((word stop s).take limit, s.drop ((word stop s).take limit).length) := by
  fun_induction scan stop limit s with
  | case1 s => simp
  | case2 limit => simp [word]
  | case3 limit b rest hstop => simp [word, hstop]
  | case4 limit b rest hstop ih =>
    rw [ih]
    simp [word, hstop]

/-! ### `ui_process_input` -/

/-- What a line does: the packets passed to `net_send`, what is printed
(without colours), and the return code. -/
structure Processed where
  sent : List ChatPacket
  printed : List (List UInt8)
  ret : ℤ
deriving DecidableEq, Repr

/-- One packet, and on with the next line. -/
def Processed.packet (pkt : ChatPacket) : Processed := ⟨[pkt], [], 0⟩

/-- Only a text. -/
def Processed.text (text : String) : Processed := ⟨[], [utf8 text], 0⟩

/-- `ui_show_help`. -/
def uiShowHelp : List (List UInt8) :=
  [utf8 "\n=== Comandos disponibles ===\n",
    utf8 "  /broadcast <mensaje>            - Enviar mensaje a todos\n",
    utf8 "  /msg <usuario> <mensaje>        - Mensaje directo\n",
    utf8 "  /status <ACTIVE|BUSY|INACTIVE>  - Cambiar status\n",
    utf8 "  /list                           - Listar usuarios conectados\n",
    utf8 "  /info <usuario>                 - Info de un usuario\n",
    utf8 "  /help                           - Mostrar esta ayuda\n",
    utf8 "  /exit                           - Salir del chat\n",
    utf8 "=============================\n\n"]

section Branches

variable (username : List UInt8)

/-- `/broadcast`, `msg` being the text behind it. -/
def processBroadcast (msg : List UInt8) : Processed :=
  if !atEnd msg then .packet (netBroadcast username msg) else .text "Uso: /broadcast <mensaje>\n"

/-- `/msg`; `char target[32]`. -/
def processMsg (args : List UInt8) : Processed :=
  let (target, rest) := scan (· == space) 31 args
  -- `if (*rest == ' ') rest++`
  let msg := if rest.head? = some space then rest.tail else rest
  if target ≠ [] ∧ !atEnd msg then .packet (netDirect username target msg)
  else .text "Uso: /msg <usuario> <mensaje>\n"

/-- `/status`; `char status_buf[16]`. -/
def processStatus (st : List UInt8) : Processed :=
  let statusBuf := (scan (fun b => b == newline || b == space) 15 st).1
  if strCaseEq statusBuf statusActivo || strCaseEq statusBuf statusOcupado ||
      strCaseEq statusBuf statusInactivo then
    .packet (netStatus username (statusBuf.map toUpper))
  else .text "Status inválido. Usa: ACTIVE, BUSY o INACTIVE\n"

/-- `/info`; `char target[32]`. -/
def processInfo (args : List UInt8) : Processed :=
  let target := (scan (fun b => b == newline || b == space) 31 args).1
  if target ≠ [] then .packet (netInfo username target) else .text "Uso: /info <usuario>\n"

end Branches

/-- `ui_process_input`. -/
def uiProcessInput (line username : List UInt8) : Processed :=
  let line := skipBlanks (cstr line)
  if atEnd line then ⟨[], [], 0⟩
  else if strnEq line (utf8 "/broadcast ") 11 then processBroadcast username (line.drop 11)
  else if strnEq line (utf8 "/msg ") 5 then processMsg username (line.drop 5)
  else if strnEq line (utf8 "/status ") 8 then processStatus username (line.drop 8)
  else if strnEq line (utf8 "/list") 5 then .packet (netList username)
  else if strnEq line (utf8 "/info ") 6 then processInfo username (line.drop 6)
  else if strnEq line (utf8 "/help") 5 then ⟨[], uiShowHelp, 0⟩
  else if strnEq line (utf8 "/exit") 5 then ⟨[netLogout username], [], -1⟩
  else .text "Comando no reconocido. Escribe /help para ver los comandos.\n"

/-! ### Branches -/

/-- At most one packet, with this code, and the client stays. -/
def Processed.Only (r : Processed) (command : UInt8) : Prop :=
  r.ret = 0 ∧ r.sent.length ≤ 1 ∧ ∀ pkt ∈ r.sent, pkt.command = command

theorem only_packet (pkt : ChatPacket) : (Processed.packet pkt).Only pkt.command := by
  refine ⟨rfl, Nat.le_refl 1, fun p hp => ?_⟩
  rw [List.mem_singleton.mp hp]

theorem only_text (text : String) (command : UInt8) : (Processed.text text).Only command :=
  ⟨rfl, Nat.zero_le 1, fun _ hp => absurd hp List.not_mem_nil⟩

theorem only_ite {p : Prop} [Decidable p] (pkt : ChatPacket) (text : String) :
    (if p then Processed.packet pkt else .text text).Only pkt.command := by
  split
  · exact only_packet pkt
  · exact only_text text _

section Branches

variable (username : List UInt8)

theorem processBroadcast_only (msg : List UInt8) :
    (processBroadcast username msg).Only cmdBroadcast :=
  only_ite (netBroadcast username msg) _

theorem processMsg_only (args : List UInt8) : (processMsg username args).Only cmdDirect :=
  only_ite (netDirect username _ _) _

theorem processStatus_only (st : List UInt8) : (processStatus username st).Only cmdStatus :=
  only_ite (netStatus username _) _

theorem processInfo_only (args : List UInt8) : (processInfo username args).Only cmdInfo :=
  only_ite (netInfo username _) _

end Branches

/-! ### One line -/

/-- The command text of a line: the string behind its leading blanks. -/
def commandText (line : List UInt8) : List UInt8 := skipBlanks (cstr line)

theorem zero_notMem_commandText (line : List UInt8) : (0 : UInt8) ∉ commandText line := fun h =>
  zero_notMem_cstr line ((List.dropWhile_sublist _).subset h)

/-- A test for a literal of the tested length is a test for a prefix. -/
theorem strnEq_iff {s p : List UInt8} (hs : (0 : UInt8) ∉ s) (hp : (0 : UInt8) ∉ p) :
    strnEq s p p.length = true ↔ p <+: s := by
  unfold strnEq
  rw [cstr_eq_self hs, cstr_eq_self hp, List.take_length, beq_iff_eq, List.prefix_iff_eq_take,
    eq_comm]

/-- The prefixes in the order they are tested, and what each does with the text
behind it. -/
def commands (username : List UInt8) : List (List UInt8 × (List UInt8 → Processed)) :=
  [(utf8 "/broadcast ", processBroadcast username),
    (utf8 "/msg ", processMsg username),
    (utf8 "/status ", processStatus username),
    (utf8 "/list", fun _ => .packet (netList username)),
    (utf8 "/info ", processInfo username),
    (utf8 "/help", fun _ => ⟨[], uiShowHelp, 0⟩),
    (utf8 "/exit", fun _ => ⟨[netLogout username], [], -1⟩)]

/-- No prefix is a prefix of another one. -/
theorem commands_incomparable (username : List UInt8) :
    (commands username).Pairwise fun d e => ¬ d.1 <+: e.1 ∧ ¬ e.1 <+: d.1 := by
  have hpairwise : [utf8 "/broadcast ", utf8 "/msg ", utf8 "/status ", utf8 "/list",
      utf8 "/info ", utf8 "/help", utf8 "/exit"].Pairwise fun p q => ¬ p <+: q ∧ ¬ q <+: p := by
    decide
  exact List.pairwise_map.mp (show ((commands username).map Prod.fst).Pairwise _ from hpairwise)

/-- A line without any of them. -/
def unrecognised (s : List UInt8) : Processed :=
  if atEnd s then ⟨[], [], 0⟩
  else .text "Comando no reconocido. Escribe /help para ver los comandos.\n"

/-- The chain of tests finds the prefix of the line. -/
theorem uiProcessInput_eq_find (line username : List UInt8) :
    uiProcessInput line username =
      (((commands username).find? (·.1.isPrefixOf (commandText line))).map
        fun e => e.2 ((commandText line).drop e.1.length)).getD
          (unrecognised (commandText line)) := by
  have htest : ∀ (p : List UInt8) (n : ℕ), p.length = n → (0 : UInt8) ∉ p →
      strnEq (commandText line) p n = p.isPrefixOf (commandText line) := by
    rintro p _ rfl hp
    rw [Bool.eq_iff_iff, strnEq_iff (zero_notMem_commandText line) hp, List.isPrefixOf_iff_prefix]
  unfold uiProcessInput unrecognised
  dsimp only
  rw [show skipBlanks (cstr line) = commandText line from rfl,
    htest (utf8 "/broadcast ") 11 (by decide) (by decide),
    htest (utf8 "/msg ") 5 (by decide) (by decide),
    htest (utf8 "/status ") 8 (by decide) (by decide),
    htest (utf8 "/list") 5 (by decide) (by decide),
    htest (utf8 "/info ") 6 (by decide) (by decide),
    htest (utf8 "/help") 5 (by decide) (by decide),
    htest (utf8 "/exit") 5 (by decide) (by decide)]
  generalize commandText line = s
  by_cases hend : atEnd s = true
  · -- nothing there to test
    have hnone : (commands username).find? (·.1.isPrefixOf s) = none := by
      rcases s with - | ⟨b, s⟩
      · rfl
      · obtain rfl : b = newline := by simpa [atEnd] using hend
        rfl
    rw [hnone, if_pos hend, if_pos hend]
    rfl
  · rw [if_neg hend, if_neg hend]
    simp only [commands, List.find?_cons, List.find?_nil]
    -- one test after the other
    cases (utf8 "/broadcast ").isPrefixOf s
    case true => rfl
    cases (utf8 "/msg ").isPrefixOf s
    case true => rfl
    cases (utf8 "/status ").isPrefixOf s
    case true => rfl
    cases (utf8 "/list").isPrefixOf s
    case true => rfl
    cases (utf8 "/info ").isPrefixOf s
    case true => rfl
    cases (utf8 "/help").isPrefixOf s
    case true => rfl
    cases (utf8 "/exit").isPrefixOf s
    case true => rfl
    rfl

variable {line username : List UInt8}

/-- **What a line with one of the prefixes does.** -/
theorem processed_of_begins {e : List UInt8 × (List UInt8 → Processed)}
    (he : e ∈ commands username) {rest : List UInt8} (hline : commandText line = e.1 ++ rest) :
    uiProcessInput line username = e.2 rest := by
  have hfind : (commands username).find? (·.1.isPrefixOf (commandText line)) = some e := by
    obtain ⟨before, after, hsplit⟩ := List.append_of_mem he
    have hpairwise := commands_incomparable username
    rw [hsplit, List.pairwise_append] at hpairwise
    rw [List.find?_eq_some_iff_append, List.isPrefixOf_iff_prefix]
    refine ⟨hline ▸ List.prefix_append _ _, before, after, hsplit, fun d hd => ?_⟩
    -- an earlier prefix of the line would be comparable with this one
    obtain ⟨hde, hed⟩ := hpairwise.2.2 d hd e List.mem_cons_self
    rw [Bool.not_eq_true', ← Bool.not_eq_true, List.isPrefixOf_iff_prefix]
    intro hprefix
    rw [hline] at hprefix
    exact (List.prefix_or_prefix_of_prefix hprefix (List.prefix_append _ _)).elim hde hed
  rw [uiProcessInput_eq_find, hfind, hline]
  simp

/-- **What a line does**, by its prefix. -/
theorem processed_cases (line username : List UInt8) :
    (∃ e ∈ commands username, ∃ rest, commandText line = e.1 ++ rest ∧
      uiProcessInput line username = e.2 rest) ∨
    uiProcessInput line username = unrecognised (commandText line) := by
  rcases hfind : (commands username).find? (·.1.isPrefixOf (commandText line)) with - | e
  · right
    rw [uiProcessInput_eq_find, hfind]
    rfl
  · left
    have hprefix := (List.find?_eq_some_iff_append.mp hfind).1
    obtain ⟨rest, hrest⟩ := List.isPrefixOf_iff_prefix.mp hprefix
    have he := List.mem_of_find?_eq_some hfind
    exact ⟨e, he, rest, hrest.symm, processed_of_begins he hrest.symm⟩

/-- **What is sent** comes from the branch of its command. -/
theorem sent_cases {pkt : ChatPacket} (hpkt : pkt ∈ (uiProcessInput line username).sent) :
    (∃ args, commandText line = utf8 "/broadcast " ++ args ∧ pkt.command = cmdBroadcast ∧
      pkt ∈ (processBroadcast username args).sent) ∨
    (∃ args, commandText line = utf8 "/msg " ++ args ∧ pkt.command = cmdDirect ∧
      pkt ∈ (processMsg username args).sent) ∨
    (∃ args, commandText line = utf8 "/status " ++ args ∧ pkt.command = cmdStatus ∧
      pkt ∈ (processStatus username args).sent) ∨
    (∃ args, commandText line = utf8 "/list" ++ args ∧ pkt = netList username) ∨
    (∃ args, commandText line = utf8 "/info " ++ args ∧ pkt.command = cmdInfo ∧
      pkt ∈ (processInfo username args).sent) ∨
    (∃ args, commandText line = utf8 "/exit" ++ args ∧ pkt = netLogout username) := by
  rcases processed_cases line username with ⟨e, he, args, hline, hdoes⟩ | hdoes
  · rw [hdoes] at hpkt
    simp only [commands, List.mem_cons, List.not_mem_nil, or_false] at he
    rcases he with rfl | rfl | rfl | rfl | rfl | rfl | rfl
    · exact .inl ⟨args, hline, (processBroadcast_only username args).2.2 pkt hpkt, hpkt⟩
    · exact .inr (.inl ⟨args, hline, (processMsg_only username args).2.2 pkt hpkt, hpkt⟩)
    · exact .inr (.inr (.inl ⟨args, hline, (processStatus_only username args).2.2 pkt hpkt, hpkt⟩))
    · exact .inr (.inr (.inr (.inl ⟨args, hline, List.mem_singleton.mp hpkt⟩)))
    · exact .inr (.inr (.inr (.inr (.inl
        ⟨args, hline, (processInfo_only username args).2.2 pkt hpkt, hpkt⟩))))
    · cases hpkt
    · exact .inr (.inr (.inr (.inr (.inr ⟨args, hline, List.mem_singleton.mp hpkt⟩))))
  · -- a line that is not recognised sends nothing
    have hnothing : (unrecognised (commandText line)).sent = [] := by
      unfold unrecognised
      split <;> rfl
    rw [hdoes, hnothing] at hpkt
    cases hpkt

end ChatSystem
