/-
ChatSystem/InputLoop.lean

The input loop of `cliente.c`: `fgets` into `char line[1024]`, the newline
stripped if one is there, then `ui_process_input`, until that returns `-1` or
the input ends.  `running` is cleared by the receiver when the connection is
gone; `inputLoop` takes the number of rounds that find it set.

A line of more than 1023 bytes is handled in parts, each as a command of its
own, and the packet builders cut a message to 956 bytes.  Lines without such a
length, and up to `/exit`, are handled one by one and whole, and no others are
(`oneCommandPerLine_iff`).
-/
import ChatSystem.Dispatch
import ChatSystem.LineInput
import ChatSystem.Targets

namespace ChatSystem

open CStr Lines

/-! ### The loop -/

/-- `fgets(line, n, stdin)`: the string read and what is left; `none` at the
end of the input. -/
def fgets (n : ℕ) (input : List UInt8) : Option (List UInt8 × List UInt8) :=
  if input = [] then none else some (readPiece newline (n - 1) input)

/-- `if (len > 0 && line[len - 1] == '\\n') line[len - 1] = '\\0'`. -/
def stripNewline (line : List UInt8) : List UInt8 :=
  if line.getLast? = some newline then line.dropLast else line

/-- A call of `ui_process_input`: its line, and the input read before it. -/
structure Call where
  before : List UInt8
  line : List UInt8
deriving DecidableEq, Repr

section Loop

variable (username : List UInt8)

/-- The loop of `main`, `running` being found set in so many rounds: the calls
it makes. -/
def inputLoop : ℕ → List UInt8 → List UInt8 → List Call
  | 0, _, _ => []
  | rounds + 1, before, input =>
    match fgets 1024 input with
    | none => []
    | some (read, rest) =>
      let line := stripNewline read
      ⟨before, line⟩ ::
        if (uiProcessInput line username).ret < 0 then []
        else inputLoop rounds (before ++ read) rest

/-- The calls made for an input, while the connection is up. -/
def terminalCalls (input : List UInt8) : List Call := inputLoop username input.length [] input

/-- The packets they pass to `net_send`. -/
def packetsSent (input : List UInt8) : List ChatPacket :=
  (terminalCalls username input).flatMap fun call => (uiProcessInput call.line username).sent

end Loop

/-- More rounds than bytes change nothing. -/
theorem inputLoop_enough {username : List UInt8} {rounds : ℕ} {before input : List UInt8}
    (h : input.length ≤ rounds) :
    inputLoop username rounds before input = inputLoop username input.length before input := by
  have hall : ∀ (m n : ℕ) (before input : List UInt8), input.length ≤ m → input.length ≤ n →
      inputLoop username m before input = inputLoop username n before input := by
    intro m
    induction m with
    | zero =>
      intro n before input hm hn
      rw [List.length_eq_zero_iff.mp (Nat.le_zero.mp hm)]
      rcases n with - | n <;> rfl
    | succ m ih =>
      intro n before input hm hn
      by_cases hne : input = []
      · rw [hne]
        rcases n with - | n <;> rfl
      · have hpos := List.length_pos_iff.mpr hne
        obtain ⟨n, rfl⟩ := Nat.exists_eq_succ_of_ne_zero (show n ≠ 0 by omega)
        have hlt := length_readPiece_lt newline (show 0 < 1024 - 1 by decide) hne
        have hrest := ih n (before ++ (readPiece newline (1024 - 1) input).1)
          (readPiece newline (1024 - 1) input).2 (by omega) (by omega)
        simp only [inputLoop, fgets, if_neg hne, hrest]
  exact hall _ _ _ _ h le_rfl

/-! ### One command a line -/

/-- The line is taken for `/exit`. -/
def IsExit (line : List UInt8) : Prop := utf8 "/exit" <+: commandText line

instance (line : List UInt8) : Decidable (IsExit line) := inferInstanceAs (Decidable (_ <+: _))

/-- The lines up to the first `/exit`. -/
def upToExit : List (List UInt8) → List (List UInt8)
  | [] => []
  | line :: lines => line :: if IsExit line then [] else upToExit lines

/-- The lines of an input that are to be handled. -/
def linesToHandle (input : List UInt8) : List (List UInt8) := upToExit (input.splitOn newline)

/-- Behind this input a line begins. -/
def AtLineStart (before : List UInt8) : Prop := ∀ b, before.getLast? = some b → b = newline

/-- Each line is handled once, and whole. -/
structure OneCommandPerLine (username input : List UInt8) : Prop where
  /-- what is sent is what the lines ask for -/
  sent : packetsSent username input =
    (linesToHandle input).flatMap fun line => (uiProcessInput line username).sent
  /-- the rest of a line is not handled as a command -/
  own : ∀ call ∈ terminalCalls username input, call.line ≠ [] → AtLineStart call.before
  /-- `/broadcast ` and the message -/
  broadcast : ∀ line ∈ linesToHandle input, ∀ pkt ∈ (uiProcessInput line username).sent,
    pkt.command = cmdBroadcast → commandText line = utf8 "/broadcast " ++ pkt.payload.str
  /-- `/msg `, the target, a blank, and the message -/
  direct : ∀ line ∈ linesToHandle input, ∀ pkt ∈ (uiProcessInput line username).sent,
    pkt.command = cmdDirect →
      commandText line = utf8 "/msg " ++ (pkt.target.str ++ space :: pkt.payload.str)

/-- The lines fit into `line`, or leave the client in what fits, and their
messages and targets into the packet. -/
structure LinesFit (input : List UInt8) : Prop where
  line : ∀ line ∈ linesToHandle input, line.length ≤ 1023 ∨ IsExit (line.take 1023)
  broadcast : ∀ line ∈ linesToHandle input, ∀ msg,
    commandText line = utf8 "/broadcast " ++ msg → msg.length ≤ 956
  direct : ∀ line ∈ linesToHandle input, ∀ args, commandText line = utf8 "/msg " ++ args →
    (word (· == space) args).length ≤ 31 ∧
      (word (· == space) args ≠ [] → (messageOf args).length ≤ 956)

/-! ### Lines and exits -/

section Exit

variable {line username : List UInt8}

/-- **`ui_process_input` returns `-1`** for `/exit` only. -/
theorem ret_neg_iff : (uiProcessInput line username).ret < 0 ↔ IsExit line := by
  constructor
  · intro hneg
    rcases processed_cases line username with ⟨e, he, args, hline, hdoes⟩ | hdoes
    · have hstays : ∀ {command}, (e.2 args).Only command → IsExit line := by
        intro command honly
        rw [hdoes, honly.1] at hneg
        cases hneg
      simp only [commands, List.mem_cons, List.not_mem_nil, or_false] at he
      rcases he with rfl | rfl | rfl | rfl | rfl | rfl | rfl
      · exact hstays (processBroadcast_only username args)
      · exact hstays (processMsg_only username args)
      · exact hstays (processStatus_only username args)
      · exact hstays (only_packet (netList username))
      · exact hstays (processInfo_only username args)
      · rw [hdoes] at hneg
        cases hneg
      · exact ⟨args, hline.symm⟩
    · -- a line that is not recognised
      rw [hdoes, unrecognised] at hneg
      split at hneg <;> cases hneg
  · rintro ⟨rest, hrest⟩
    rw [processed_exit hrest.symm]
    show (-1 : ℤ) < 0
    decide

/-- What begins with `/exit` sends a LOGOUT. -/
theorem IsExit.sent (h : IsExit line) :
    (uiProcessInput line username).sent = [netLogout username] := by
  obtain ⟨rest, hrest⟩ := h
  rw [processed_exit hrest.symm]

/-- An `/exit` at the beginning of a line. -/
theorem IsExit.of_take {k : ℕ} (h0 : (0 : UInt8) ∉ line) (h : IsExit (line.take k)) :
    IsExit line := by
  have hblank : ∀ p q : List UInt8, utf8 "/exit" <+: skipBlanks p →
      utf8 "/exit" <+: skipBlanks (p ++ q) := by
    intro p q hp
    have hne : skipBlanks p ≠ [] := by
      intro hnil
      rw [hnil, List.prefix_nil] at hp
      exact absurd hp (by decide)
    rw [skipBlanks, List.dropWhile_append, if_neg]
    · exact hp.trans (List.prefix_append _ _)
    · simpa [skipBlanks] using hne
  unfold IsExit commandText at h ⊢
  rw [cstr_eq_self (notMem_take h0 k)] at h
  rw [cstr_eq_self h0, ← List.take_append_drop k line]
  exact hblank _ _ h

end Exit

/-! ### The loop on a line -/

theorem stripNewline_append (line : List UInt8) : stripNewline (line ++ [newline]) = line := by
  simp [stripNewline]

theorem stripNewline_of_notMem {line : List UInt8} (h : newline ∉ line) :
    stripNewline line = line := by
  rw [stripNewline, if_neg]
  exact fun hlast => h (List.mem_of_getLast? hlast)

section Steps

variable (username before : List UInt8) {line rest : List UInt8} {rounds : ℕ}

@[simp] theorem inputLoop_nil (rounds : ℕ) : inputLoop username rounds before [] = [] := by
  rcases rounds with - | rounds <;> rfl

/-- A line that fits with its newline. -/
theorem inputLoop_line (h : newline ∉ line) (hlen : line.length ≤ 1022) :
    inputLoop username (rounds + 1) before (line ++ newline :: rest) =
      ⟨before, line⟩ :: if (uiProcessInput line username).ret < 0 then []
        else inputLoop username rounds (before ++ (line ++ [newline])) rest := by
  have hne : line ++ newline :: rest ≠ [] := by simp
  have hread := readPiece_line h (k := 1024 - 1) (by omega) rest
  simp only [inputLoop, fgets, if_neg hne, hread, stripNewline_append]

/-- A part of a line that fills the array. -/
theorem inputLoop_part (h : newline ∉ line) (hlen : line.length = 1023) :
    inputLoop username (rounds + 1) before (line ++ rest) =
      ⟨before, line⟩ :: if (uiProcessInput line username).ret < 0 then []
        else inputLoop username rounds (before ++ line) rest := by
  have hne : line ++ rest ≠ [] := by
    intro hnil
    rw [(List.append_eq_nil_iff.mp hnil).1] at hlen
    cases hlen
  have hread := readPiece_part h rest
  rw [hlen] at hread
  simp only [inputLoop, fgets, if_neg hne, hread, stripNewline_of_notMem h]

/-- The last line, without a newline. -/
theorem inputLoop_last (h : newline ∉ line) (hne : line ≠ []) (hlen : line.length ≤ 1023) :
    inputLoop username (rounds + 1) before line = [⟨before, line⟩] := by
  have hread := readPiece_last h (k := 1024 - 1) (by omega)
  simp only [inputLoop, fgets, if_neg hne, hread, stripNewline_of_notMem h, inputLoop_nil, ite_self]

/-- Text that does not begin with a newline makes a call with a line. -/
theorem inputLoop_first {b : UInt8} (hb : b ≠ newline) :
    ∃ call ∈ inputLoop username (rounds + 1) before (b :: rest),
      call.before = before ∧ call.line ≠ [] := by
  have hread : readPiece newline (1024 - 1) (b :: rest) =
      (b :: (readPiece newline 1022 rest).1, (readPiece newline 1022 rest).2) := by
    rw [readPiece, if_neg hb]
  have hline : stripNewline (b :: (readPiece newline 1022 rest).1) ≠ [] := by
    unfold stripNewline
    rcases (readPiece newline 1022 rest).1 with - | ⟨c, read⟩
    · simp [hb]
    · split <;> simp
  refine ⟨⟨before, stripNewline (b :: (readPiece newline 1022 rest).1)⟩, ?_, rfl, hline⟩
  simp [inputLoop, fgets, hread]

end Steps

/-! ### The loop on an input -/

section Input

variable (username : List UInt8)

/-- The line fits, or what fits of it is an `/exit`. -/
def LineFits (line : List UInt8) : Prop := line.length ≤ 1023 ∨ IsExit (line.take 1023)

/-- No call of these takes the rest of a line for a command. -/
def OwnLines (calls : List Call) : Prop :=
  ∀ call ∈ calls, call.line ≠ [] → AtLineStart call.before

/-- What the calls send. -/
def sentBy (calls : List Call) : List ChatPacket :=
  calls.flatMap fun call => (uiProcessInput call.line username).sent

theorem ownLines_cons {before line : List UInt8} {calls : List Call} (h : AtLineStart before) :
    OwnLines (⟨before, line⟩ :: calls) ↔ OwnLines calls := by
  unfold OwnLines
  rw [List.forall_mem_cons]
  exact and_iff_right fun _ => h

theorem atLineStart_newline (before : List UInt8) : AtLineStart (before ++ [newline]) := by
  intro b hb
  simpa using hb.symm

/-- Inside a line no line begins. -/
theorem not_atLineStart {before part : List UInt8} (h : newline ∉ part) (hne : part ≠ []) :
    ¬ AtLineStart (before ++ part) := by
  intro hstart
  obtain ⟨b, hb⟩ := Option.isSome_iff_exists.mp (List.getLast?_isSome.mpr hne)
  have hlast : (before ++ part).getLast? = some b := by
    rw [List.getLast?_append, hb]
    rfl
  exact h (hstart b hlast ▸ List.mem_of_getLast? hb)

/-- **A line that fits** is handled whole, and behind it the next one begins;
its newline may be left for a call without a line. -/
theorem inputLoop_short (before : List UInt8) {line rest : List UInt8} {rounds : ℕ}
    (h : newline ∉ line) (hlen : line.length ≤ 1023)
    (hrounds : (line ++ newline :: rest).length ≤ rounds) :
    ∃ calls k, inputLoop username rounds before (line ++ newline :: rest) = ⟨before, line⟩ ::
        (if IsExit line then [] else
          calls ++ inputLoop username k (before ++ (line ++ [newline])) rest) ∧
      (∀ call ∈ calls, call.line = []) ∧ rest.length ≤ k := by
  rw [List.length_append, List.length_cons] at hrounds
  obtain ⟨rounds, rfl⟩ := Nat.exists_eq_succ_of_ne_zero (show rounds ≠ 0 by omega)
  by_cases hfull : line.length = 1023
  · -- the newline is read by itself
    obtain ⟨rounds, rfl⟩ := Nat.exists_eq_succ_of_ne_zero (show rounds ≠ 0 by omega)
    have hblank : inputLoop username (rounds + 1) (before ++ line) ([] ++ newline :: rest) = _ :=
      inputLoop_line username (before ++ line) List.not_mem_nil (Nat.zero_le _)
    refine ⟨[⟨before ++ line, []⟩], rounds, ?_, by simp, by omega⟩
    have hempty : ¬ IsExit [] := by decide
    rw [if_neg (mt ret_neg_iff.mp hempty), List.nil_append, List.nil_append,
      List.append_assoc] at hblank
    rw [Nat.succ_eq_add_one, inputLoop_part username before h hfull, hblank]
    simp only [ret_neg_iff, List.cons_append, List.nil_append]
  · refine ⟨[], rounds, ?_, by simp, by omega⟩
    rw [Nat.succ_eq_add_one, inputLoop_line username before h (by omega)]
    simp only [ret_neg_iff, List.nil_append]

/-- **A longer line** is read in parts, and the second is handled too, unless
the first is an `/exit`. -/
theorem inputLoop_long (before : List UInt8) {line rest : List UInt8} {rounds : ℕ}
    (h : newline ∉ line) (hlen : 1023 < line.length) (hrounds : (line ++ rest).length ≤ rounds) :
    (IsExit (line.take 1023) →
      inputLoop username rounds before (line ++ rest) = [⟨before, line.take 1023⟩]) ∧
    (¬ IsExit (line.take 1023) →
      ¬ OwnLines (inputLoop username rounds before (line ++ rest))) := by
  have hpart : newline ∉ line.take 1023 := fun hmem => h (List.mem_of_mem_take hmem)
  have hfull : (line.take 1023).length = 1023 := List.length_take_of_le hlen.le
  -- what is left of the line
  obtain ⟨b, tail, hdrop⟩ := List.exists_cons_of_ne_nil
    (show line.drop 1023 ≠ [] by simp [List.drop_eq_nil_iff]; omega)
  have hb : b ≠ newline := by
    rintro rfl
    exact h (List.mem_of_mem_drop (hdrop ▸ List.mem_cons_self))
  rw [List.length_append] at hrounds
  obtain ⟨rounds, rfl⟩ := Nat.exists_eq_succ_of_ne_zero (show rounds ≠ 0 by omega)
  obtain ⟨rounds, rfl⟩ := Nat.exists_eq_succ_of_ne_zero (show rounds ≠ 0 by omega)
  have hloop : inputLoop username (rounds + 1 + 1) before (line ++ rest) =
      ⟨before, line.take 1023⟩ :: if IsExit (line.take 1023) then [] else
        inputLoop username (rounds + 1) (before ++ line.take 1023) (b :: (tail ++ rest)) := by
    have hsplit : line ++ rest = line.take 1023 ++ (b :: (tail ++ rest)) := by
      rw [← List.cons_append, ← hdrop, ← List.append_assoc, List.take_append_drop]
    rw [hsplit, inputLoop_part username before hpart hfull]
    simp only [ret_neg_iff]
  refine ⟨fun hexit => by rw [hloop, if_pos hexit], fun hgoes hown => ?_⟩
  rw [hloop, if_neg hgoes] at hown
  have hsecond : ∃ call ∈ inputLoop username (rounds + 1) (before ++ line.take 1023)
      (b :: (tail ++ rest)), call.before = before ++ line.take 1023 ∧ call.line ≠ [] :=
    inputLoop_first username (before ++ line.take 1023) hb
  obtain ⟨call, hcall, hbefore, hline⟩ := hsecond
  have hstart := hown call (List.mem_cons_of_mem _ hcall) hline
  rw [hbefore] at hstart
  exact not_atLineStart hpart (by rintro hnil; rw [hnil] at hfull; cases hfull) hstart

/-- Calls without a line are no command. -/
theorem ownLines_append {calls more : List Call} (h : ∀ call ∈ calls, call.line = []) :
    OwnLines (calls ++ more) ↔ OwnLines more := by
  unfold OwnLines
  rw [List.forall_mem_append]
  exact and_iff_right fun call hcall hne => absurd (h call hcall) hne

theorem sentBy_append (calls more : List Call) :
    sentBy username (calls ++ more) = sentBy username calls ++ sentBy username more :=
  List.flatMap_append

theorem sentBy_blank {calls : List Call} (h : ∀ call ∈ calls, call.line = []) :
    sentBy username calls = [] := by
  refine List.flatMap_eq_nil_iff.mpr fun call hcall => ?_
  rw [h call hcall]
  rfl

/-- The loop on an input, from the start of a line on. -/
def Handles (username input : List UInt8) : Prop :=
  ∀ rounds before, input.length ≤ rounds → AtLineStart before →
    (OwnLines (inputLoop username rounds before input) ↔
      ∀ line ∈ linesToHandle input, LineFits line) ∧
    ((∀ line ∈ linesToHandle input, LineFits line) →
      sentBy username (inputLoop username rounds before input) =
        (linesToHandle input).flatMap fun line => (uiProcessInput line username).sent)

/-- A long line at the head. -/
theorem handles_long {before line rest : List UInt8} {rounds : ℕ} (lines : List (List UInt8))
    (h0 : (0 : UInt8) ∉ line) (h : newline ∉ line) (hlen : 1023 < line.length)
    (hrounds : (line ++ rest).length ≤ rounds) (hstart : AtLineStart before) :
    (OwnLines (inputLoop username rounds before (line ++ rest)) ↔
      ∀ l ∈ upToExit (line :: lines), LineFits l) ∧
    ((∀ l ∈ upToExit (line :: lines), LineFits l) →
      sentBy username (inputLoop username rounds before (line ++ rest)) =
        (upToExit (line :: lines)).flatMap fun l => (uiProcessInput l username).sent) := by
  obtain ⟨hexit, hgoes⟩ := inputLoop_long username before h hlen hrounds
  by_cases hcut : IsExit (line.take 1023)
  · -- what was read ends the loop, as the line would
    have hline := hcut.of_take h0
    rw [hexit hcut, upToExit, if_pos hline]
    refine ⟨iff_of_true ?_ ?_, fun _ => ?_⟩
    · exact (ownLines_cons hstart).mpr fun _ hcall => absurd hcall List.not_mem_nil
    · intro l hl
      rw [List.mem_singleton.mp hl]
      exact .inr hcut
    · simp [sentBy, hcut.sent, hline.sent]
  · have hnot : ¬ ∀ l ∈ upToExit (line :: lines), LineFits l := by
      intro hfits
      rcases hfits line (by rw [upToExit]; exact List.mem_cons_self) with hshort | hexit
      · omega
      · exact hcut hexit
    exact ⟨iff_of_false (hgoes hcut) hnot, fun hfits => absurd hfits hnot⟩

/-- A last line that fits. -/
theorem handles_last {before line : List UInt8} {rounds : ℕ} (h : newline ∉ line)
    (hshort : line.length ≤ 1023) (hrounds : line.length ≤ rounds) (hstart : AtLineStart before) :
    (OwnLines (inputLoop username rounds before line) ↔ ∀ l ∈ upToExit [line], LineFits l) ∧
    ((∀ l ∈ upToExit [line], LineFits l) →
      sentBy username (inputLoop username rounds before line) =
        (upToExit [line]).flatMap fun l => (uiProcessInput l username).sent) := by
  have hone : upToExit [line] = [line] := by
    rw [upToExit]
    split <;> rfl
  have hfits : ∀ l ∈ [line], LineFits l := by
    intro l hl
    rw [List.mem_singleton.mp hl]
    exact .inl hshort
  rw [hone]
  by_cases hne : line = []
  · -- nothing is left to read
    rw [hne, inputLoop_nil]
    refine ⟨iff_of_true (fun _ hcall => absurd hcall List.not_mem_nil) (hne ▸ hfits), fun _ => ?_⟩
    rfl
  · have hpos := List.length_pos_iff.mpr hne
    obtain ⟨rounds, rfl⟩ := Nat.exists_eq_succ_of_ne_zero (show rounds ≠ 0 by omega)
    rw [Nat.succ_eq_add_one, inputLoop_last username before h hne hshort]
    refine ⟨iff_of_true ?_ hfits, fun _ => by simp [sentBy]⟩
    exact (ownLines_cons hstart).mpr fun _ hcall => absurd hcall List.not_mem_nil

/-- **The loop and the lines**, by induction on the lines. -/
theorem handles (input : List UInt8) : (0 : UInt8) ∉ input → Handles username input := by
  induction input using lines_induction newline with
  | last line h =>
    intro h0 rounds before hrounds hstart
    rw [linesToHandle, List.splitOn_eq_singleton h]
    rcases Nat.lt_or_ge 1023 line.length with hlong | hshort
    · have hrounds' : (line ++ []).length ≤ rounds := by rwa [List.append_nil]
      have hcase := handles_long username [] h0 h hlong hrounds' hstart
      rwa [List.append_nil] at hcase
    · exact handles_last username h hshort hrounds hstart
  | cons line rest h ih =>
    intro h0 rounds before hrounds hstart
    rw [List.mem_append, List.mem_cons, not_or, not_or] at h0
    obtain ⟨hline, -, hrest⟩ := h0
    rw [linesToHandle, List.splitOn_append_cons_self_of_not_mem h]
    rcases Nat.lt_or_ge 1023 line.length with hlong | hshort
    · exact handles_long username _ hline h hlong hrounds hstart
    · have hfits : LineFits line := .inl hshort
      obtain ⟨calls, k, hloop, hblank, hk⟩ :=
        inputLoop_short username before h hshort hrounds
      rw [hloop, upToExit]
      by_cases hexit : IsExit line
      · rw [if_pos hexit, if_pos hexit]
        refine ⟨iff_of_true ?_ (by simpa using hfits), fun _ => by simp [sentBy]⟩
        exact (ownLines_cons hstart).mpr fun _ hcall => absurd hcall List.not_mem_nil
      · have hbehind : AtLineStart (before ++ (line ++ [newline])) := by
          rw [← List.append_assoc]
          exact atLineStart_newline _
        obtain ⟨hiff, hsent⟩ := ih hrest k _ hk hbehind
        rw [if_neg hexit, if_neg hexit, ownLines_cons hstart, ownLines_append hblank,
          List.forall_mem_cons, and_iff_right hfits, hiff]
        refine ⟨Iff.rfl, fun hall => ?_⟩
        rw [List.flatMap_cons, ← linesToHandle, ← hsent hall]
        show _ ++ sentBy username (calls ++ _) = _
        rw [sentBy_append, sentBy_blank username hblank, List.nil_append]

end Input

/-! ### Messages -/

theorem mem_of_mem_upToExit {line : List UInt8} {lines : List (List UInt8)}
    (h : line ∈ upToExit lines) : line ∈ lines := by
  induction lines with
  | nil => exact h
  | cons l lines ih =>
    rw [upToExit] at h
    rcases List.mem_cons.mp h with rfl | h
    · exact List.mem_cons_self
    · split at h
      · cases h
      · exact List.mem_cons_of_mem l (ih h)

/-- The lines of an input have no newline in them. -/
theorem newline_notMem {input line : List UInt8} (h : line ∈ linesToHandle input) :
    newline ∉ line := by
  have hall : ∀ l ∈ input.splitOn newline, newline ∉ l := by
    clear h
    induction input using lines_induction newline with
    | last line hline =>
      rw [List.splitOn_eq_singleton hline]
      simpa using hline
    | cons line rest hline ih =>
      rw [List.splitOn_append_cons_self_of_not_mem hline]
      exact List.forall_mem_cons.mpr ⟨hline, ih⟩
  exact hall line (mem_of_mem_upToExit h)

section Message

variable {username line args : List UInt8} {pkt : ChatPacket}

theorem newline_notMem_args {p : List UInt8} (h : newline ∉ line)
    (hline : commandText line = p ++ args) : newline ∉ args := by
  intro hmem
  have htext : newline ∈ commandText line := hline ▸ List.mem_append_right p hmem
  exact h ((List.takeWhile_sublist _).subset ((List.dropWhile_sublist _).subset htext))

theorem atEnd_iff {s : List UInt8} (h : newline ∉ s) : atEnd s = true ↔ s = [] := by
  rcases s with - | ⟨b, s⟩
  · simp [atEnd]
  · have hb : b ≠ newline := fun heq => h (heq ▸ List.mem_cons_self)
    simp [atEnd, hb]

/-- The payload is the whole text, if it fits. -/
theorem str_payload_eq_iff {command : UInt8} {target msg : List UInt8} (h0 : (0 : UInt8) ∉ msg) :
    (fillPacket command username target msg).payload.str = msg ↔ msg.length ≤ 956 := by
  rw [str_payload_fillPacket, cstr_eq_self h0, List.take_eq_self_iff]

/-- **What `/broadcast` sends.** -/
theorem mem_processBroadcast : pkt ∈ (processBroadcast username args).sent ↔
    atEnd args = false ∧ pkt = netBroadcast username args := by
  unfold processBroadcast
  rcases atEnd args with - | - <;> simp [Processed.packet, Processed.text]

/-- A BROADCAST comes from a line with `/broadcast`. -/
theorem broadcast_of_sent (hpkt : pkt ∈ (uiProcessInput line username).sent)
    (hcommand : pkt.command = cmdBroadcast) :
    ∃ args, commandText line = utf8 "/broadcast " ++ args ∧
      pkt ∈ (processBroadcast username args).sent := by
  rcases sent_cases hpkt with ⟨args, hline, -, hmem⟩ | ⟨_, -, hother, -⟩ | ⟨_, -, hother, -⟩ |
    ⟨_, -, rfl⟩ | ⟨_, -, hother, -⟩ | ⟨_, -, rfl⟩
  · exact ⟨args, hline, hmem⟩
  · exact absurd (hother.symm.trans hcommand) (by decide)
  · exact absurd (hother.symm.trans hcommand) (by decide)
  · exact absurd (show cmdList = cmdBroadcast from hcommand) (by decide)
  · exact absurd (hother.symm.trans hcommand) (by decide)
  · exact absurd (show cmdLogout = cmdBroadcast from hcommand) (by decide)

/-- The messages of `/broadcast` are whole when they fit. -/
theorem broadcast_whole_iff (h : newline ∉ line) :
    (∀ pkt ∈ (uiProcessInput line username).sent, pkt.command = cmdBroadcast →
      commandText line = utf8 "/broadcast " ++ pkt.payload.str) ↔
    ∀ msg, commandText line = utf8 "/broadcast " ++ msg → msg.length ≤ 956 := by
  constructor
  · intro hwhole msg hline
    by_cases hne : msg = []
    · rw [hne]
      exact Nat.zero_le _
    · have hdoes : uiProcessInput line username = processBroadcast username msg :=
        processed_of_begins (e := (utf8 "/broadcast ", processBroadcast username))
          (by simp [commands]) hline
      have hend : atEnd msg = false := by
        rw [← Bool.not_eq_true, atEnd_iff (newline_notMem_args h hline)]
        exact hne
      have hsent := hwhole (netBroadcast username msg)
        (by rw [hdoes]; exact mem_processBroadcast.mpr ⟨hend, rfl⟩) rfl
      rw [hline] at hsent
      exact (str_payload_eq_iff (zero_notMem_args hline)).mp (List.append_cancel_left hsent).symm
  · intro hfits pkt hpkt hcommand
    obtain ⟨args, hline, hmem⟩ := broadcast_of_sent hpkt hcommand
    obtain ⟨-, rfl⟩ := mem_processBroadcast.mp hmem
    rw [netBroadcast, (str_payload_eq_iff (zero_notMem_args hline)).mpr (hfits args hline)]
    exact hline

/-- The target of a DIRECT, as far as it goes. -/
theorem str_target_netDirect (h0 : (0 : UInt8) ∉ args) (msg : List UInt8) :
    (netDirect username ((word (· == space) args).take 31) msg).target.str =
      (word (· == space) args).take 31 := by
  rw [netDirect, str_target_fillPacket,
    str_target_of_length (zero_notMem_take_word h0) (length_take_word_le _ _)]

theorem messageOf_subset (args : List UInt8) : messageOf args ⊆ args := by
  unfold messageOf
  dsimp only
  split
  · exact List.Subset.trans (List.tail_sublist _).subset (List.drop_subset _ _)
  · exact List.drop_subset _ _

/-- A longer target is never followed by a blank. -/
theorem direct_not_whole (h0 : (0 : UInt8) ∉ args) (hnewline : newline ∉ args)
    (hlong : 31 < (word (· == space) args).length) :
    ∃ pkt ∈ (processMsg username args).sent, pkt.command = cmdDirect ∧
      args ≠ pkt.target.str ++ space :: pkt.payload.str := by
  obtain ⟨b, hb, hstop⟩ := getElem?_of_word hlong
  have hlen : ((word (· == space) args).take 31).length = 31 :=
    List.length_take_of_le hlong.le
  have hend : atEnd (messageOf args) = false := by
    rw [← Bool.not_eq_true, messageOf_of_long hlong, atEnd_drop, hb]
    rintro (hnone | hsome)
    · cases hnone
    · exact hnewline (Option.some.inj hsome ▸ List.mem_of_getElem? hb)
  refine ⟨_, mem_processMsg.mpr ⟨?_, hend, rfl⟩, rfl, fun hsplit => ?_⟩
  · rintro hnil
    rw [hnil] at hlen
    cases hlen
  · -- the byte behind 31 of the target would be the blank
    rw [str_target_netDirect h0] at hsplit
    have hspace : args[31]? = some space := by
      rw [hsplit, List.getElem?_append_right hlen.le, hlen]
      rfl
    obtain rfl := Option.some.inj (hb.symm.trans hspace)
    cases hstop

/-- The messages of `/msg` are whole when they and their targets fit. -/
theorem direct_whole_iff (h : newline ∉ line) :
    (∀ pkt ∈ (uiProcessInput line username).sent, pkt.command = cmdDirect →
      commandText line = utf8 "/msg " ++ (pkt.target.str ++ space :: pkt.payload.str)) ↔
    ∀ args, commandText line = utf8 "/msg " ++ args →
      (word (· == space) args).length ≤ 31 ∧
        (word (· == space) args ≠ [] → (messageOf args).length ≤ 956) := by
  have hmessage : ∀ args, args = word (· == space) args ++ space :: messageOf args →
      (0 : UInt8) ∉ args → (0 : UInt8) ∉ messageOf args := by
    intro args hsplit h0 hmem
    exact h0 (by rw [hsplit]; exact List.mem_append_right _ (List.mem_cons_of_mem _ hmem))
  constructor
  · intro hwhole args hline
    have hdoes : uiProcessInput line username = processMsg username args :=
      processed_of_begins (e := (utf8 "/msg ", processMsg username)) (by simp [commands]) hline
    have hsends : ∀ pkt ∈ (processMsg username args).sent, pkt.command = cmdDirect →
        args = pkt.target.str ++ space :: pkt.payload.str := by
      intro pkt hpkt hcommand
      have hpkt' := hwhole pkt (hdoes ▸ hpkt) hcommand
      rw [hline] at hpkt'
      exact List.append_cancel_left hpkt'
    have h0 := zero_notMem_args hline
    have hshort : (word (· == space) args).length ≤ 31 := by
      by_contra hlong
      obtain ⟨pkt, hpkt, hcommand, hne⟩ := direct_not_whole h0 (newline_notMem_args h hline)
        (Nat.lt_of_not_le hlong)
      exact hne (hsends pkt hpkt hcommand)
    refine ⟨hshort, fun hne => ?_⟩
    rcases hend : atEnd (messageOf args) with - | -
    · have hsplit := messageOf_of_fits hshort hend
      have hwhole' := hsends _ (mem_processMsg.mpr
        ⟨by rwa [List.take_of_length_le hshort], hend, rfl⟩) rfl
      rw [str_target_netDirect h0, List.take_of_length_le hshort] at hwhole'
      have hsame := List.append_cancel_left (hsplit.symm.trans hwhole')
      exact (str_payload_eq_iff (hmessage args hsplit h0)).mp (List.cons.inj hsame).2.symm
    · -- no message is sent
      have hnewline : newline ∉ messageOf args := fun hmem =>
        newline_notMem_args h hline (messageOf_subset args hmem)
      rw [(atEnd_iff hnewline).mp hend]
      exact Nat.zero_le _
  · intro hfits pkt hpkt hcommand
    obtain ⟨args, hline, hmem⟩ := direct_of_sent hpkt hcommand
    obtain ⟨hne, hend, rfl⟩ := mem_processMsg.mp hmem
    obtain ⟨hshort, hmsg⟩ := hfits args hline
    have h0 := zero_notMem_args hline
    have hsplit := messageOf_of_fits hshort hend
    rw [List.take_of_length_le hshort] at hne
    rw [str_target_netDirect h0, List.take_of_length_le hshort, netDirect,
      (str_payload_eq_iff (hmessage args hsplit h0)).mpr (hmsg hne), ← hsplit]
    exact hline

end Message

/-! ### All inputs -/

/-- **One input line, one command**, exactly for inputs whose lines fit. -/
theorem oneCommandPerLine_iff (username : List UInt8) {input : List UInt8}
    (h0 : (0 : UInt8) ∉ input) : OneCommandPerLine username input ↔ LinesFit input := by
  obtain ⟨hown, hsent⟩ := handles username input h0 input.length [] le_rfl (by simp [AtLineStart])
  constructor
  · intro h
    refine ⟨hown.mp h.own, fun line hline => ?_, fun line hline => ?_⟩
    · exact (broadcast_whole_iff (newline_notMem hline)).mp (h.broadcast line hline)
    · exact (direct_whole_iff (newline_notMem hline)).mp (h.direct line hline)
  · intro h
    refine ⟨hsent h.line, hown.mpr h.line, fun line hline => ?_, fun line hline => ?_⟩
    · exact (broadcast_whole_iff (newline_notMem hline)).mpr (h.broadcast line hline)
    · exact (direct_whole_iff (newline_notMem hline)).mpr (h.direct line hline)

/-- Two lines that fit. -/
theorem oneCommandPerLine_iff_twoLines :
    OneCommandPerLine alice (utf8 "/broadcast hola\n/exit\n") ↔
      LinesFit (utf8 "/broadcast hola\n/exit\n") :=
  oneCommandPerLine_iff alice (by decide)

/-- A broadcast of 1012 letters fills the array, and what is behind it on the
line is an `/exit` of its own. -/
def longLine : List UInt8 := utf8 "/broadcast " ++ List.replicate 1012 97 ++ utf8 "/exit"

theorem not_oneCommandPerLine_longLine : ¬ OneCommandPerLine alice longLine := by
  have h0 : (0 : UInt8) ∉ longLine := by decide +kernel
  have hnewline : newline ∉ longLine := by decide +kernel
  intro h
  obtain ⟨hown, -⟩ := handles alice longLine h0 longLine.length [] le_rfl (by simp [AtLineStart])
  have hmem : longLine ∈ linesToHandle longLine := by
    rw [linesToHandle, List.splitOn_eq_singleton hnewline, upToExit]
    exact List.mem_cons_self
  rcases hown.mp h.own longLine hmem with hshort | hexit
  · exact absurd hshort (by decide +kernel)
  · exact absurd hexit (by decide +kernel)

end ChatSystem
