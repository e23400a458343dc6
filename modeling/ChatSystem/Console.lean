/-
ChatSystem/Console.lean

The terminal client as a process: `main` of `cliente.c` from `net_register` on,
and `recv_thread`, which share `running` and the socket.

    main:      response ─ loop ⇄ input ⇄ returned ─ closing ─ joining ─ left
    receiver:             loop ⇄ receiving ⇄ showing ─ ended

`wire` is what the server has written to the connection and `stream` what the
client has.  The packets `net_recv` returns are those of `wire` in order
(`packetsOf`); each `send()` of `net_send` takes a non-empty part, or fails,
and a socket on which one has failed takes no more.  The signal the receiver
sends may end a blocked `fgets`, and comes after `running` was cleared.

The invariants of a process: its calls are those for the first lines of its
input (`Typed`); what it has written is its REGISTER and then the packets of
these calls, in order, with at most a part of one more (`Written`); what it has
shown are the first packets of the wire (`Seen`).
-/
import ChatSystem.Framing
import ChatSystem.InputLoop
import ChatSystem.Packets
import ChatSystem.Streams

namespace ChatSystem

open CStr Lines

/-! ### The process -/

/-- Where `main` is. -/
inductive ConsolePc
  | response
  | loop
  | input
  | returned (ret : ℤ)
  | closing
  | joining
  | left (status : ℤ)
deriving DecidableEq, Repr

/-- The loop goes on, or is still to come. -/
def ConsolePc.GoesOn : ConsolePc → Prop
  | response | loop | input => True
  | returned ret => 0 ≤ ret
  | _ => False

/-- Where the receiver thread is. -/
inductive ReceiverPc
  | notCreated
  | loop
  | receiving
  | showing (pkt : ChatPacket)
  | ended
deriving DecidableEq, Repr

/-- The packet being shown. -/
def ReceiverPc.pending : ReceiverPc → List ChatPacket
  | showing pkt => [pkt]
  | _ => []

/-- A client process.  `netSend` are the packets of the calls of `net_send`
that are still to be made or under way, `total` bytes of the first being sent.
`stream` and `broken` are the kernel's.  The rest is history: the input read,
the lines handled, what `net_recv` has returned, and what was given to
`ui_display_packet`; of `got` the steps read how much it is, the position in the
stream. -/
structure Console where
  username : List UInt8
  stdin : List UInt8
  running : Bool
  pc : ConsolePc
  receiver : ReceiverPc
  netSend : List ChatPacket
  total : ℕ
  stream : List UInt8
  broken : Bool
  before : List UInt8
  calls : List Call
  got : List ChatPacket
  shown : List ChatPacket
deriving DecidableEq, Repr

inductive ConsoleTid
  | main
  | receiver
deriving DecidableEq, Repr

/-- What the environment answers to a thread's next call; `cancel` is the
`pthread_cancel` of `main` taking effect. -/
inductive ConsoleAnswer
  | go
  | packet
  | wrote (n : ℕ)
  | fail
  | cancel
deriving DecidableEq, Repr

structure ConsoleLabel where
  tid : ConsoleTid
  answer : ConsoleAnswer
deriving DecidableEq, Repr

namespace Console

/-- Connected, in `net_register`. -/
def start (username stdin : List UInt8) : Console where
  username := username
  stdin := stdin
  running := true
  pc := .response
  receiver := .notCreated
  netSend := [netRegister username]
  total := 0
  stream := []
  broken := false
  before := []
  calls := []
  got := []
  shown := []

/-- `net_recv(sockfd, &pkt)`. -/
def recv (s : Console) (wire : List UInt8) : Option ChatPacket := (packetsOf wire)[s.got.length]?

/-- One `send()` of `net_send`. -/
def sendStep (s : Console) (pkt : ChatPacket) (rest : List ChatPacket) :
    ConsoleAnswer → Option Console
  | .wrote n =>
    if s.broken = false ∧ 0 < n ∧ s.total + n ≤ 1024 then
      some { s with
        stream := s.stream ++ (pkt.toBytes.drop s.total).take n
        netSend := if s.total + n < 1024 then pkt :: rest else rest
        total := if s.total + n < 1024 then s.total + n else 0 }
    else none
  | .fail => some { s with netSend := rest, total := 0, broken := true }
  | _ => none

/-- `running = 0` behind the loop, then `usleep`. -/
def leave (s : Console) : Console := { s with running := false, pc := .closing }

/-- `main`, outside of `net_send`. -/
def mainStep (s : Console) (wire : List UInt8) (a : ConsoleAnswer) : Option Console :=
  match s.pc, a with
  -- the registration response
  | .response, .packet =>
    (s.recv wire).map fun resp =>
      if resp.command = cmdError then { s with got := s.got ++ [resp], pc := .left 1 }
      else { s with
        got := s.got ++ [resp]
        shown := s.shown ++ [resp]
        pc := .loop
        receiver := .loop }
  | .response, .fail => some { s with pc := .left 1 }
  | .loop, .go => some (if s.running then { s with pc := .input } else s.leave)
  | .input, .go =>
    match fgets 1024 s.stdin with
    | none => some s.leave
    | some (read, rest) =>
      let line := stripNewline read
      let res := uiProcessInput line s.username
      some { s with
        stdin := rest
        before := s.before ++ read
        calls := s.calls ++ [⟨s.before, line⟩]
        netSend := res.sent
        pc := .returned res.ret }
  -- the signal
  | .input, .fail => some s.leave
  | .returned ret, .go => some (if ret < 0 then s.leave else { s with pc := .loop })
  | .closing, .go => some { s with pc := .joining }
  | .joining, .go => if s.receiver = .ended then some { s with pc := .left 0 } else none
  | _, _ => none

/-- `recv_thread`. -/
def receiverStep (s : Console) (wire : List UInt8) (a : ConsoleAnswer) : Option Console :=
  match s.receiver, a with
  | .loop, .go =>
    some (if s.running then { s with receiver := .receiving } else { s with receiver := .ended })
  | .receiving, .packet =>
    -- `main` closes the socket before it joins
    if s.pc = .joining then none
    else (s.recv wire).map fun pkt => { s with got := s.got ++ [pkt], receiver := .showing pkt }
  | .receiving, .fail => some { s with running := false, receiver := .ended }
  | .showing pkt, .go => some { s with shown := s.shown ++ [pkt], receiver := .loop }
  | .receiving, .cancel | .showing _, .cancel =>
    if s.pc = .joining then some { s with receiver := .ended } else none
  | _, _ => none

/-- One step of the process. -/
def step (wire : List UInt8) (s : Console) (l : ConsoleLabel) : Option Console :=
  match l.tid with
  | .main =>
    match s.netSend with
    | pkt :: rest => s.sendStep pkt rest l.answer
    | [] => s.mainStep wire l.answer
  | .receiver => s.receiverStep wire l.answer

/-! ### Its steps -/

/-- The rules of the process. -/
inductive Move (wire : List UInt8) (s : Console) : ConsoleLabel → Console → Prop
  | wrote {pkt rest n} (hq : s.netSend = pkt :: rest) (hb : s.broken = false) (hn : 0 < n)
      (hle : s.total + n ≤ 1024) :
      Move wire s ⟨.main, .wrote n⟩ { s with
        stream := s.stream ++ (pkt.toBytes.drop s.total).take n
        netSend := if s.total + n < 1024 then pkt :: rest else rest
        total := if s.total + n < 1024 then s.total + n else 0 }
  | sendFail {pkt rest} (hq : s.netSend = pkt :: rest) :
      Move wire s ⟨.main, .fail⟩ { s with netSend := rest, total := 0, broken := true }
  -- `main`
  | refused {resp} (hq : s.netSend = []) (hpc : s.pc = .response)
      (hresp : s.recv wire = some resp) (hcmd : resp.command = cmdError) :
      Move wire s ⟨.main, .packet⟩ { s with got := s.got ++ [resp], pc := .left 1 }
  | accepted {resp} (hq : s.netSend = []) (hpc : s.pc = .response)
      (hresp : s.recv wire = some resp) (hcmd : resp.command ≠ cmdError) :
      Move wire s ⟨.main, .packet⟩ { s with
        got := s.got ++ [resp]
        shown := s.shown ++ [resp]
        pc := .loop
        receiver := .loop }
  | unanswered (hq : s.netSend = []) (hpc : s.pc = .response) :
      Move wire s ⟨.main, .fail⟩ { s with pc := .left 1 }
  | again (hq : s.netSend = []) (hpc : s.pc = .loop) (hr : s.running = true) :
      Move wire s ⟨.main, .go⟩ { s with pc := .input }
  | handle {read rest} (hq : s.netSend = []) (hpc : s.pc = .input)
      (hread : fgets 1024 s.stdin = some (read, rest)) :
      Move wire s ⟨.main, .go⟩ { s with
        stdin := rest
        before := s.before ++ read
        calls := s.calls ++ [⟨s.before, stripNewline read⟩]
        netSend := (uiProcessInput (stripNewline read) s.username).sent
        pc := .returned (uiProcessInput (stripNewline read) s.username).ret }
  | goOn {ret} (hq : s.netSend = []) (hpc : s.pc = .returned ret) (hret : 0 ≤ ret) :
      Move wire s ⟨.main, .go⟩ { s with pc := .loop }
  -- `running` found cleared, the end of the input, the signal, or `/exit`
  | leave {a} (hq : s.netSend = [])
      (hpc : s.pc = .loop ∨ s.pc = .input ∨ ∃ ret < 0, s.pc = .returned ret) :
      Move wire s ⟨.main, a⟩ s.leave
  | close (hq : s.netSend = []) (hpc : s.pc = .closing) :
      Move wire s ⟨.main, .go⟩ { s with pc := .joining }
  | join (hq : s.netSend = []) (hpc : s.pc = .joining) (hend : s.receiver = .ended) :
      Move wire s ⟨.main, .go⟩ { s with pc := .left 0 }
  -- `recv_thread`
  | listen (hr : s.receiver = .loop) :
      Move wire s ⟨.receiver, .go⟩ { s with receiver := .receiving }
  | packet {pkt} (hr : s.receiver = .receiving) (hpkt : s.recv wire = some pkt) :
      Move wire s ⟨.receiver, .packet⟩
        { s with got := s.got ++ [pkt], receiver := .showing pkt }
  | display {pkt} (hr : s.receiver = .showing pkt) :
      Move wire s ⟨.receiver, .go⟩ { s with shown := s.shown ++ [pkt], receiver := .loop }
  | stop {a} (running : Bool) (hr : s.receiver ≠ .notCreated) (hend : s.receiver ≠ .ended) :
      Move wire s ⟨.receiver, a⟩ { s with running := running, receiver := .ended }

variable {wire : List UInt8} {s s' : Console} {l : ConsoleLabel}

theorem move_of_step (h : s.step wire l = some s') : s.Move wire l s' := by
  obtain ⟨t, a⟩ := l
  cases t with
  | main =>
    rcases hq : s.netSend with - | ⟨pkt, rest⟩ <;> simp only [step, hq] at h
    · unfold mainStep at h
      split at h
      case h_1 hpc =>
        obtain ⟨resp, hresp, h⟩ := Option.map_eq_some_iff.mp h
        split at h <;> obtain rfl := h
        · exact .refused hq hpc hresp ‹_›
        · exact .accepted hq hpc hresp ‹_›
      case h_2 hpc =>
        obtain rfl := Option.some.inj h
        exact .unanswered hq hpc
      case h_3 hpc =>
        split at h <;> obtain rfl := Option.some.inj h
        · exact .again hq hpc ‹_›
        · exact .leave hq (.inl hpc)
      case h_4 hpc =>
        split at h <;> obtain rfl := Option.some.inj h
        · exact .leave hq (.inr (.inl hpc))
        · exact .handle hq hpc ‹_›
      case h_5 hpc =>
        obtain rfl := Option.some.inj h
        exact .leave hq (.inr (.inl hpc))
      case h_6 ret hpc =>
        split at h <;> obtain rfl := Option.some.inj h
        · exact .leave hq (.inr (.inr ⟨ret, ‹_›, hpc⟩))
        · exact .goOn hq hpc (Int.not_lt.mp ‹_›)
      case h_7 hpc =>
        obtain rfl := Option.some.inj h
        exact .close hq hpc
      case h_8 hpc =>
        split at h
        · obtain rfl := Option.some.inj h
          exact .join hq hpc ‹_›
        · cases h
      case h_9 => cases h
    · unfold sendStep at h
      split at h
      · split at h
        · obtain rfl := Option.some.inj h
          obtain ⟨hb, hn, hle⟩ : _ ∧ _ ∧ _ := ‹_›
          exact .wrote hq hb hn hle
        · cases h
      · obtain rfl := Option.some.inj h
        exact .sendFail hq
      · cases h
  | receiver =>
    simp only [step] at h
    unfold receiverStep at h
    split at h
    case h_1 hr =>
      split at h <;> obtain rfl := Option.some.inj h
      · exact .listen hr
      · exact .stop s.running (by rw [hr]; simp) (by rw [hr]; simp)
    case h_2 hr =>
      split at h
      · cases h
      · obtain ⟨pkt, hpkt, rfl⟩ := Option.map_eq_some_iff.mp h
        exact .packet hr hpkt
    case h_3 hr =>
      obtain rfl := Option.some.inj h
      exact .stop false (by rw [hr]; simp) (by rw [hr]; simp)
    case h_4 pkt hr =>
      obtain rfl := Option.some.inj h
      exact .display hr
    case h_5 hr =>
      split at h
      · obtain rfl := Option.some.inj h
        exact .stop s.running (by rw [hr]; simp) (by rw [hr]; simp)
      · cases h
    case h_6 pkt hr =>
      split at h
      · obtain rfl := Option.some.inj h
        exact .stop s.running (by rw [hr]; simp) (by rw [hr]; simp)
      · cases h
    case h_7 => cases h

/-! ### What a process has sent and shown -/

/-- The packets given to `net_send` so far. -/
def built (s : Console) : List ChatPacket := netRegister s.username :: sentBy s.username s.calls

/-- What has been sent of the packet under way. -/
def partSent (s : Console) : List UInt8 :=
  match s.netSend with
  | [] => []
  | pkt :: _ => pkt.toBytes.take s.total

/-- The lines handled are the first lines of `input`. -/
structure Typed (input : List UInt8) (s : Console) : Prop where
  split : s.before ++ s.stdin = input
  calls : s.calls <+: terminalCalls s.username input
  ahead : s.pc.GoesOn → terminalCalls s.username input =
    s.calls ++ inputLoop s.username s.stdin.length s.before s.stdin
  untyped : s.pc = .response ∨ s.pc = .left 1 → s.calls = []

/-- What has been written are packets in the order they were built, and a part
of one more; as long as no `send()` has failed, all but those of `netSend`. -/
structure Written (s : Console) : Prop where
  total : s.total < 1024
  idle : s.netSend = [] → s.total = 0
  parts : ∃ whole rest part, s.built = whole ++ rest ∧ s.stream = framesOf whole ++ part ∧
    part.length < 1024 ∧ (s.broken = false → rest = s.netSend ∧ part = s.partSent)

/-- What has been shown are the first packets of the wire; one that was read may
get lost at the end. -/
structure Seen (wire : List UInt8) (s : Console) : Prop where
  got : s.got <+: packetsOf wire
  shown : ∃ lost, lost.length ≤ 1 ∧ s.got = s.shown ++ s.receiver.pending ++ lost ∧
    (lost = [] ∨ s.receiver = .ended ∨ s.pc = .left 1)
  unread : s.pc = .response → s.got = []
  alone : s.pc = .response ∨ s.pc = .left 1 → s.receiver = .notCreated
  answered : s.receiver ≠ .notCreated → s.got ≠ []
  refused : ∀ resp, s.got.head? = some resp → resp.command = cmdError → s.pc = .left 1

theorem typed_start (username stdin : List UInt8) : (start username stdin).Typed stdin where
  split := rfl
  calls := List.nil_prefix
  ahead := fun _ => rfl
  untyped := fun _ => rfl

theorem written_start (username stdin : List UInt8) : (start username stdin).Written where
  total := Nat.zero_lt_succ _
  idle := fun _ => rfl
  parts := ⟨[], [netRegister username], [], rfl, rfl, by decide, fun _ => ⟨rfl, rfl⟩⟩

theorem seen_start (username stdin wire : List UInt8) : (start username stdin).Seen wire where
  got := List.nil_prefix
  shown := ⟨[], by decide, rfl, .inl rfl⟩
  unread := fun _ => rfl
  alone := fun _ => rfl
  answered := fun h => absurd rfl h
  refused := fun resp h => by cases h

/-- More bytes on the wire change nothing. -/
theorem Seen.more (h : s.Seen wire) (more : List UInt8) : s.Seen (wire ++ more) :=
  { h with got := h.got.trans (packetsOf_grow wire more) }

/-- Who a process belongs to stays. -/
theorem Move.username (hm : s.Move wire l s') : s'.username = s.username := by
  cases hm <;> rfl

/-- A round of the loop: the call it makes is the next one of the input. -/
theorem inputLoop_round (username before : List UInt8) {stdin read rest : List UInt8}
    (h : fgets 1024 stdin = some (read, rest)) :
    read ++ rest = stdin ∧ inputLoop username stdin.length before stdin =
      ⟨before, stripNewline read⟩ ::
        if (uiProcessInput (stripNewline read) username).ret < 0 then []
        else inputLoop username rest.length (before ++ read) rest := by
  have hne : stdin ≠ [] := by
    rintro rfl
    cases h
  have hread : readPiece newline (1024 - 1) stdin = (read, rest) := by
    rw [fgets, if_neg hne] at h
    exact Option.some.inj h
  have hsplit := readPiece_append newline (1024 - 1) stdin
  have hlt := length_readPiece_lt newline (show 0 < 1024 - 1 by decide) hne
  rw [hread] at hsplit hlt
  refine ⟨hsplit, ?_⟩
  obtain ⟨rounds, hrounds⟩ := Nat.exists_eq_succ_of_ne_zero
    (show stdin.length ≠ 0 by simpa using hne)
  rw [hrounds, inputLoop, h]
  dsimp only
  have henough : rest.length ≤ rounds := Nat.lt_succ_iff.mp (hrounds ▸ hlt)
  rw [inputLoop_enough henough]

theorem Typed.step {input : List UInt8} (h : s.Typed input) (hm : s.Move wire l s') :
    s'.Typed input := by
  have hsplit := h.split
  have hcalls := h.calls
  cases hm with
  | wrote | sendFail => exact ⟨hsplit, hcalls, h.ahead, h.untyped⟩
  | packet | listen | display | stop => exact ⟨hsplit, hcalls, h.ahead, h.untyped⟩
  | refused hq hpc | unanswered hq hpc =>
    exact ⟨hsplit, hcalls, False.elim, fun _ => h.untyped (.inl hpc)⟩
  | accepted hq hpc =>
    exact ⟨hsplit, hcalls, fun _ => h.ahead (by rw [hpc]; trivial), by simp⟩
  | again hq hpc hr =>
    exact ⟨hsplit, hcalls, fun _ => h.ahead (by rw [hpc]; trivial), by simp⟩
  | goOn hq hpc hret =>
    exact ⟨hsplit, hcalls, fun _ => h.ahead (by rw [hpc]; exact hret), by simp⟩
  | leave hq hpc => exact ⟨hsplit, hcalls, False.elim, by simp [Console.leave]⟩
  | close hq hpc => exact ⟨hsplit, hcalls, False.elim, by simp⟩
  | join hq hpc hend => exact ⟨hsplit, hcalls, False.elim, by simp⟩
  | @handle read rest hq hpc hread =>
    -- the next line of the input
    obtain ⟨hparts, hround⟩ := inputLoop_round s.username s.before hread
    have hall := h.ahead (by rw [hpc]; trivial)
    rw [hround] at hall
    refine ⟨?_, ?_, fun hret => ?_, by simp⟩
    · rw [List.append_assoc, hparts, hsplit]
    · rw [hall]
      exact ⟨_, List.append_assoc ..⟩
    · have hret : 0 ≤ (uiProcessInput (stripNewline read) s.username).ret := hret
      rw [if_neg (Int.not_lt.mpr hret)] at hall
      rw [hall, List.append_assoc]
      rfl

theorem built_handle (s : Console) (call : Call) :
    sentBy s.username (s.calls ++ [call]) =
      sentBy s.username s.calls ++ (uiProcessInput call.line s.username).sent := by
  simp [sentBy]

theorem Written.step (h : s.Written) (hm : s.Move wire l s') : s'.Written := by
  obtain ⟨whole, later, part, hbuilt, hstream, hpart, hok⟩ := h.parts
  have hsame : ∃ whole rest part, s.built = whole ++ rest ∧ s.stream = framesOf whole ++ part ∧
      part.length < 1024 ∧ (s.broken = false → rest = s.netSend ∧ part = s.partSent) := h.parts
  cases hm with
  | @wrote pkt rest n hq hb hn hle =>
    obtain ⟨rfl, rfl⟩ := hok hb
    have htaken : s.partSent ++ (pkt.toBytes.drop s.total).take n =
        pkt.toBytes.take (s.total + n) := by
      rw [partSent, hq]
      exact take_add_drop _ _ _
    rcases Nat.lt_or_ge (s.total + n) 1024 with hlt | hge
    · refine ⟨by simp [hlt], by simp [hlt], whole, pkt :: rest,
        pkt.toBytes.take (s.total + n), by rw [← hq]; exact hbuilt, ?_, ?_, fun _ => ?_⟩
      · show s.stream ++ _ = _
        rw [hstream, List.append_assoc, htaken]
      · rw [List.length_take, ChatPacket.length_toBytes]
        omega
      · simp [partSent, hlt]
    · -- the last part of the packet
      have hfull : pkt.toBytes.take (s.total + n) = pkt.toBytes :=
        List.take_of_length_le (by rw [ChatPacket.length_toBytes]; exact hge)
      rw [hfull] at htaken
      refine ⟨by simp [Nat.not_lt.mpr hge], by simp [Nat.not_lt.mpr hge], whole ++ [pkt], rest, [],
        ?_, ?_, Nat.zero_lt_succ _, fun _ => ?_⟩
      · rw [List.append_assoc, List.singleton_append, ← hq]
        exact hbuilt
      · show s.stream ++ _ = _
        rw [hstream, List.append_assoc, htaken, framesOf_append_singleton, List.append_nil]
      · rw [if_neg (Nat.not_lt.mpr hge)]
        refine ⟨rfl, ?_⟩
        simp only [partSent, Nat.not_lt.mpr hge, if_false]
        split <;> rfl
  | sendFail hq =>
    exact ⟨Nat.zero_lt_succ _, fun _ => rfl, whole, later, part, hbuilt, hstream, hpart, by simp⟩
  | @handle read rest hq hpc hread =>
    have h0 := h.idle hq
    refine ⟨h.total, fun _ => h0, whole,
      later ++ (uiProcessInput (stripNewline read) s.username).sent, part, ?_, hstream, hpart,
      fun hb => ?_⟩
    · show _ :: sentBy s.username (s.calls ++ [_]) = _
      rw [built_handle, ← List.append_assoc, ← hbuilt]
      rfl
    · obtain ⟨rfl, rfl⟩ := hok hb
      refine ⟨by rw [hq]; rfl, ?_⟩
      simp only [partSent, hq, h0, List.take_zero]
      split <;> rfl
  | _ => exact ⟨h.total, h.idle, hsame⟩

/-- While the receiver runs, all that was read is shown. -/
theorem Seen.live (h : s.Seen wire) (hr : s.receiver ≠ .ended) (hpc : s.pc ≠ .left 1) :
    s.got = s.shown ++ s.receiver.pending := by
  obtain ⟨lost, -, hgot, hlast⟩ := h.shown
  obtain rfl : lost = [] := hlast.resolve_right fun h => h.elim hr hpc
  rw [hgot, List.append_nil]

/-- The screen shows the first packets of the wire. -/
theorem Seen.screen (h : s.Seen wire) : s.shown <+: packetsOf wire := by
  obtain ⟨lost, -, hgot, -⟩ := h.shown
  have hpre : s.shown <+: s.got := ⟨_, by rw [hgot, List.append_assoc]⟩
  exact hpre.trans h.got

/-- The response is the first packet. -/
theorem Seen.response (h : s.Seen wire) (hpc : s.pc = .response) :
    s.got = [] ∧ s.shown = [] ∧ s.receiver = .notCreated := by
  have hgot := h.unread hpc
  have halone := h.alone (.inl hpc)
  have hlive := h.live (by rw [halone]; simp) (by rw [hpc]; simp)
  rw [hgot, halone] at hlive
  exact ⟨hgot, (List.append_eq_nil_iff.mp hlive.symm).1, halone⟩

/-- A receiver that has been created finds the response accepted. -/
theorem Seen.created (h : s.Seen wire) (hr : s.receiver ≠ .notCreated) :
    s.pc ≠ .response ∧ s.pc ≠ .left 1 :=
  ⟨fun hpc => hr (h.alone (.inl hpc)), fun hpc => hr (h.alone (.inr hpc))⟩

/-- `main` goes on. -/
theorem Seen.goesTo (h : s.Seen wire) (hpc : s.pc ≠ .response ∧ s.pc ≠ .left 1)
    (hpc' : s'.pc ≠ .response ∧ s'.pc ≠ .left 1) (hgot : s'.got = s.got)
    (hshown : s'.shown = s.shown) (hr : s'.receiver = s.receiver) : s'.Seen wire where
  got := by
    rw [hgot]
    exact h.got
  shown := by
    obtain ⟨lost, hlost, hall, hlast⟩ := h.shown
    rw [hgot, hshown, hr]
    exact ⟨lost, hlost, hall, hlast.imp_right (Or.imp_right fun hleft => absurd hleft hpc.2)⟩
  unread := fun h => absurd h hpc'.1
  alone := fun h => h.elim (fun h => absurd h hpc'.1) fun h => absurd h hpc'.2
  answered := by
    rw [hgot, hr]
    exact h.answered
  refused := by
    rw [hgot]
    exact fun resp hhead herr => absurd (h.refused resp hhead herr) hpc.2

/-- The receiver goes on. -/
theorem Seen.receives (h : s.Seen wire) (hr : s.receiver ≠ .notCreated) (hpc : s'.pc = s.pc)
    (hgot : s'.got <+: packetsOf wire) (hhead : s'.got.head? = s.got.head?)
    (hshown : ∃ lost, lost.length ≤ 1 ∧ s'.got = s'.shown ++ s'.receiver.pending ++ lost ∧
      (lost = [] ∨ s'.receiver = .ended)) : s'.Seen wire where
  got := hgot
  shown := by
    obtain ⟨lost, hlost, hall, hlast⟩ := hshown
    exact ⟨lost, hlost, hall, hlast.imp_right .inl⟩
  unread := fun h' => absurd (hpc ▸ h') (h.created hr).1
  alone := fun h' => h'.elim (fun h' => absurd (hpc ▸ h') (h.created hr).1)
    fun h' => absurd (hpc ▸ h') (h.created hr).2
  answered := fun _ hnil => h.answered hr (List.head?_eq_none_iff.mp (by rw [← hhead, hnil]; rfl))
  refused := by
    rw [hhead, hpc]
    exact h.refused

theorem Seen.step (h : s.Seen wire) (hm : s.Move wire l s') : s'.Seen wire := by
  cases hm with
  | wrote | sendFail => exact ⟨h.got, h.shown, h.unread, h.alone, h.answered, h.refused⟩
  | @refused resp hq hpc hresp hcmd =>
    obtain ⟨hgot, hshown, halone⟩ := h.response hpc
    refine ⟨prefix_concat h.got hresp, ⟨[resp], Nat.le_refl _, ?_, .inr (.inr rfl)⟩, by simp,
      fun _ => halone, fun hr => absurd halone hr, fun _ _ _ => rfl⟩
    simp [hgot, hshown, halone, ReceiverPc.pending]
  | @accepted resp hq hpc hresp hcmd =>
    obtain ⟨hgot, hshown, halone⟩ := h.response hpc
    refine ⟨prefix_concat h.got hresp, ⟨[], Nat.zero_le _, ?_, .inl rfl⟩, by simp, by simp,
      fun _ => by simp, fun resp' hhead herr => ?_⟩
    · simp [hgot, hshown, ReceiverPc.pending]
    · rw [hgot] at hhead
      obtain rfl : resp = resp' := Option.some.inj hhead
      exact absurd herr hcmd
  | unanswered hq hpc =>
    obtain ⟨hgot, hshown, halone⟩ := h.response hpc
    refine ⟨h.got, ⟨[], Nat.zero_le _, ?_, .inl rfl⟩, by simp, fun _ => halone,
      fun hr => absurd halone hr, fun _ _ _ => rfl⟩
    simp [hgot, hshown, halone, ReceiverPc.pending]
  | again hq hpc | handle hq hpc | goOn hq hpc | close hq hpc | join hq hpc =>
    exact h.goesTo (by simp [hpc]) (by simp) rfl rfl rfl
  | leave hq hpc =>
    have hpc' : s.pc ≠ .response ∧ s.pc ≠ .left 1 := by
      rcases hpc with hpc | hpc | ⟨ret, -, hpc⟩ <;> simp [hpc]
    exact h.goesTo hpc' (by simp [Console.leave]) rfl rfl rfl
  | listen hr =>
    have hcreated : s.receiver ≠ .notCreated := by simp [hr]
    have hlive := h.live (by simp [hr]) (h.created hcreated).2
    refine h.receives hcreated rfl h.got rfl ⟨[], Nat.zero_le _, ?_, .inl rfl⟩
    rw [hlive, hr]
    simp [ReceiverPc.pending]
  | @packet pkt hr hpkt =>
    have hcreated : s.receiver ≠ .notCreated := by simp [hr]
    have hlive := h.live (by simp [hr]) (h.created hcreated).2
    refine h.receives hcreated rfl (prefix_concat h.got hpkt) ?_ ⟨[], Nat.zero_le _, ?_, .inl rfl⟩
    · exact List.head?_append_of_ne_nil _ (h.answered hcreated)
    · show s.got ++ [pkt] = _
      rw [hlive, hr]
      simp [ReceiverPc.pending]
  | @display pkt hr =>
    have hcreated : s.receiver ≠ .notCreated := by simp [hr]
    have hlive := h.live (by simp [hr]) (h.created hcreated).2
    refine h.receives hcreated rfl h.got rfl ⟨[], Nat.zero_le _, ?_, .inl rfl⟩
    rw [hlive, hr]
    simp [ReceiverPc.pending]
  | stop running hr hend =>
    -- the packet being shown may get lost
    have hlive := h.live hend (h.created hr).2
    refine h.receives hr rfl h.got rfl ⟨s.receiver.pending, ?_, ?_, .inr rfl⟩
    · rcases s.receiver <;> simp [ReceiverPc.pending]
    · rw [hlive]
      simp [ReceiverPc.pending]

/-- **What the other side can read**: the first packets built. -/
theorem Written.packets (h : s.Written) : packetsOf s.stream <+: s.built := by
  obtain ⟨whole, rest, part, hbuilt, hstream, hpart, -⟩ := h.parts
  rw [hstream, framesOf, packetsOf_append whole hpart, hbuilt]
  exact List.prefix_append _ _

/-- What is written stays written. -/
theorem Move.stream_grows (hm : s.Move wire l s') : ∃ more, s'.stream = s.stream ++ more := by
  cases hm with
  | wrote => exact ⟨_, rfl⟩
  | _ => exact ⟨[], (List.append_nil _).symm⟩

end Console

/-! ### What its packets carry -/

/-- A name `main` lets through: `strlen(argv[1]) <= 31`. -/
structure IsArgument (username : List UInt8) : Prop where
  nulFree : (0 : UInt8) ∉ username
  fits : username.length ≤ 31

instance (username : List UInt8) : Decidable (IsArgument username) :=
  decidable_of_iff ((0 : UInt8) ∉ username ∧ username.length ≤ 31)
    ⟨fun ⟨h, h'⟩ => ⟨h, h'⟩, fun ⟨h, h'⟩ => ⟨h, h'⟩⟩

section Packets

variable {username line : List UInt8} {pkt : ChatPacket}

/-- What a line sends is filled by one of the builders, with the user's name. -/
theorem filled_of_sent (h : pkt ∈ (uiProcessInput line username).sent) :
    ∃ target payload, pkt = fillPacket pkt.command username target payload := by
  rcases sent_cases h with ⟨args, -, hcmd, hpkt⟩ | ⟨args, -, hcmd, hpkt⟩ | ⟨args, -, hcmd, hpkt⟩ |
    ⟨args, -, rfl⟩ | ⟨args, -, hcmd, hpkt⟩ | ⟨args, -, rfl⟩
  · unfold processBroadcast at hpkt
    split at hpkt
    · obtain rfl := List.mem_singleton.mp hpkt
      exact ⟨[], args, rfl⟩
    · cases hpkt
  · obtain ⟨-, -, rfl⟩ := mem_processMsg.mp hpkt
    exact ⟨_, _, rfl⟩
  · unfold processStatus at hpkt
    dsimp only at hpkt
    split at hpkt
    · obtain rfl := List.mem_singleton.mp hpkt
      exact ⟨[], _, rfl⟩
    · cases hpkt
  · exact ⟨[], [], rfl⟩
  · obtain ⟨-, rfl⟩ := mem_processInfo.mp hpkt
    exact ⟨_, _, rfl⟩
  · exact ⟨[], [], rfl⟩

/-- The sender of a filled packet is the name. -/
theorem sender_filled (h : IsArgument username) (command : UInt8) (target payload : List UInt8) :
    cstr (fillPacket command username target payload).senderPtr = username := by
  rw [ChatPacket.cstr_senderPtr (terminated_fillPacket _ _ _ _).sender, str_sender_fillPacket,
    cstr_eq_self h.nulFree, List.take_of_length_le h.fits]

/-- **Every packet carries the name**, and the first only is a REGISTER. -/
theorem sender_built {calls : List Call} (h : IsArgument username)
    (hpkt : pkt ∈ netRegister username :: sentBy username calls) :
    cstr pkt.senderPtr = username := by
  rcases List.mem_cons.mp hpkt with rfl | hpkt
  · exact sender_filled h _ _ _
  · obtain ⟨call, -, hsent⟩ := List.mem_flatMap.mp hpkt
    obtain ⟨target, payload, hfill⟩ := filled_of_sent hsent
    rw [hfill]
    exact sender_filled h _ _ _

/-- A LOGOUT is sent by `/exit` only. -/
theorem exit_of_logout (h : pkt ∈ (uiProcessInput line username).sent)
    (hcmd : pkt.command = cmdLogout) : IsExit line := by
  rcases sent_cases h with ⟨-, -, hc, -⟩ | ⟨-, -, hc, -⟩ | ⟨-, -, hc, -⟩ | ⟨-, -, rfl⟩ |
    ⟨-, -, hc, -⟩ | ⟨args, hline, -⟩
  all_goals first
    | exact ⟨args, hline.symm⟩
    | exact absurd (hc.symm.trans hcmd) (by decide)
    | exact absurd hcmd (by simp [netList, cmdList, cmdLogout])

/-- **Nothing follows a LOGOUT.** -/
theorem logout_last (username : List UInt8) (rounds : ℕ) (before input : List UInt8) :
    ∀ pkt ∈ (sentBy username (inputLoop username rounds before input)).dropLast,
      pkt.command ≠ cmdLogout := by
  induction rounds generalizing before input with
  | zero =>
    intro pkt hpkt
    cases hpkt
  | succ rounds ih =>
    intro pkt hpkt
    rw [inputLoop] at hpkt
    rcases hread : fgets 1024 input with - | ⟨read, rest⟩ <;> rw [hread] at hpkt
    · cases hpkt
    · have hcons : ∀ call calls, sentBy username (call :: calls) =
          (uiProcessInput call.line username).sent ++ sentBy username calls := fun _ _ => rfl
      dsimp only at hpkt
      rw [hcons] at hpkt
      by_cases hret : (uiProcessInput (stripNewline read) username).ret < 0
      · -- `/exit` sends the LOGOUT and nothing else
        rw [if_pos hret, (ret_neg_iff.mp hret).sent] at hpkt
        exact absurd hpkt List.not_mem_nil
      · rw [if_neg hret] at hpkt
        have hnot : ∀ pkt ∈ (uiProcessInput (stripNewline read) username).sent,
            pkt.command ≠ cmdLogout := fun pkt hsent hcmd =>
          hret (ret_neg_iff.mpr (exit_of_logout hsent hcmd))
        rw [List.dropLast_append] at hpkt
        split at hpkt
        · exact hnot pkt (List.mem_of_mem_dropLast hpkt)
        · exact (List.mem_append.mp hpkt).elim (hnot pkt) fun hpkt => ih _ _ pkt hpkt

end Packets

end ChatSystem
