/-
ChatSystem/Bridge.lean

One WebSocket of the bridge: the handlers `wss.on("connection")` of `bridge.js`
sets, and the TCP socket behind it.

    idle ──first message──▸ connecting ──▸ connected ──▸ destroyed ──▸ closed

A run is any sequence of events of the two sockets.  Of Node it is assumed that
a TCP socket connects once, gives data while it is connected, and gives neither
after an error or `destroy()`; and that the WebSocket gives messages until it is
closed, also while it is closing.  It is closing when either side has begun to
close it.

A message may be any JSON value.  `NodeBuffer` stands for what `Buffer` makes of
fields of any type; of strings and of numbers that are bytes it is known.

`bridged_of_reachable` says what the two sides get, in every order of events:
the server a stream of whole packets, one for each message that came while the
connection was up and could be encoded, the browser `tcp_ok` and then the
packets of the server's stream, in order, until the WebSocket closes.
-/
import ChatSystem.Handshake
import ChatSystem.Lts
import ChatSystem.Sessions
import ChatSystem.Streams

namespace ChatSystem

open Blocks Js Lts Utf8

/-! ### Messages of any type -/

/-- What Node's `Buffer` makes of a value: `Buffer.from(v, "utf8")` and
`buf.writeUInt8(v, 0)`, `none` where they throw. -/
structure NodeBuffer where
  fromValue : Json → Option (List UInt8)
  uint8 : Option Json → Option UInt8
  fromValue_str : ∀ s, fromValue (.str s) = some (encode s)
  uint8_num : ∀ b : UInt8, uint8 (some (.num (Nat.repr b.toNat).toList)) = some b

/-- `v || ""`. -/
def orEmpty : Option Json → Json
  | some v => if v.truthy then v else .str []
  | none => .str []

/-- `buildPacket`, with the fields in bytes. -/
def packetBytes (command : UInt8) (sender target payload : List UInt8) : List UInt8 :=
  let buf := List.replicate 1024 0
  let buf := CStr.writeAt buf 0 [command]
  let payloadBuf := payload.take 957
  let len := UInt16.ofNat payloadBuf.length
  let buf := CStr.writeAt buf 1 [len.toUInt8, (len >>> 8).toUInt8]
  let buf := CStr.writeAt buf 3 (sender.take 32)
  let buf := CStr.writeAt buf 35 (target.take 32)
  CStr.writeAt buf 67 payloadBuf

theorem length_packetBytes (command : UInt8) (sender target payload : List UInt8) :
    (packetBytes command sender target payload).length = 1024 := by
  simp only [packetBytes, CStr.length_writeAt, List.length_replicate]

/-- `buildPacket(msg.command, msg.sender, msg.target || "", msg.payload || "")`;
`none` where something throws. -/
def buildMessage (node : NodeBuffer) (msg : Json) : Option (List UInt8) := do
  let command ← node.uint8 (← (readField msg "command").toOption)
  let sender ← node.fromValue (orEmpty (← (readField msg "sender").toOption))
  let target ← node.fromValue (orEmpty (← (readField msg "target").toOption))
  let payload ← node.fromValue (orEmpty (← (readField msg "payload").toOption))
  return packetBytes command sender target payload

/-- `JSON.parse(JSON.stringify(…))` of what the web client sends. -/
def requestMessage (r : Request) : Json :=
  .obj [("command".toList, .num (Nat.repr r.command.toNat).toList),
    ("sender".toList, .str r.sender), ("target".toList, .str r.target),
    ("payload".toList, .str r.payload)]

/-- **A request of the web client** is encoded as its packet. -/
theorem buildMessage_request (node : NodeBuffer) (r : Request) :
    buildMessage node (requestMessage r) = some r.bytes := by
  have hempty : ∀ s : List Char, orEmpty (some (.str s)) = .str s := by
    intro s
    rcases s with - | ⟨c, s⟩ <;> rfl
  have hcommand : readField (requestMessage r) "command" =
      .ok (some (.num (Nat.repr r.command.toNat).toList)) := rfl
  have hsender : readField (requestMessage r) "sender" = .ok (some (.str r.sender)) := rfl
  have htarget : readField (requestMessage r) "target" = .ok (some (.str r.target)) := rfl
  have hpayload : readField (requestMessage r) "payload" = .ok (some (.str r.payload)) := rfl
  simp only [buildMessage, hcommand, hsender, htarget, hpayload, Except.toOption, hempty,
    node.fromValue_str, node.uint8_num, Option.bind_eq_bind, Option.bind_some]
  rfl

/-! ### The session -/

inductive TcpState
  | idle
  | connecting
  | connected
  | destroyed
  | closed
deriving DecidableEq, Repr

/-- What the bridge sends to the browser. -/
inductive Outgoing
  | object (obj : WsObject)
  | packet (pkt : ParsedPacket)
deriving DecidableEq

/-- The state of a connection.  `first`: no message has come; `sent` is what
went into the WebSocket and `written` what went into the TCP socket.  `received`,
the bytes of the data events, and `asked`, the messages that came while the
connection was up, are history. -/
structure Bridge where
  ws : ReadyState
  first : Bool
  crashed : Bool
  tcp : TcpState
  host : List Char
  port : ℤ
  tcpConnected : Bool
  tcpBuffer : List UInt8
  sent : List Outgoing
  written : List UInt8
  received : List UInt8
  asked : List (Option Json)

/-- `wsClosing`: the browser has started the closing handshake. -/
inductive BridgeEvent
  | message (msg : Option Json)
  | tcpConnect
  | tcpError (message : List Char)
  | tcpData (data : List UInt8)
  | tcpClose
  | wsClosing
  | wsClose

namespace Bridge

def init : Bridge where
  ws := .open
  first := true
  crashed := false
  tcp := .idle
  host := []
  port := 0
  tcpConnected := false
  tcpBuffer := []
  sent := []
  written := []
  received := []
  asked := []

/-- `sendWs(ws, …)`. -/
def sendWs (b : Bridge) (s : Outgoing) : Bridge :=
  if b.ws = .open then { b with sent := b.sent ++ [s] } else b

/-- `ws.close()`. -/
def closeWs (b : Bridge) : Bridge := if b.ws = .open then { b with ws := .closing } else b

/-- What the first handler does. -/
def perform (b : Bridge) : Effect → Bridge
  | .send obj => { b with sent := b.sent ++ [.object obj] }
  | .close => b.closeWs
  | .connect port host => { b with tcp := .connecting, host := host, port := port }

/-- `ws.once("message", …)`; an exception that leaves it stops the bridge. -/
def onFirst (b : Bridge) (msg : Option Json) : Bridge :=
  match firstMessage (b.ws = .open) msg with
  | .ok effects => effects.foldl perform { b with first := false }
  | .error _ => { b with first := false, crashed := true }

/-- `ws.on("message", …)`; the exceptions are caught, and what is written to a
socket that is gone is lost. -/
def onMessage (node : NodeBuffer) (b : Bridge) (msg : Option Json) : Bridge :=
  if b.tcpConnected ∧ b.tcp = .connected then
    { b with
      asked := b.asked ++ [msg]
      written := b.written ++ ((msg.bind (buildMessage node)).getD []) }
  else b

/-- `'tcp_ok'`. -/
def tcpOk : Outgoing := .object ⟨0, "BRIDGE".toList, [], "tcp_ok".toList⟩

/-- The callback of `tcp.connect`. -/
def onConnect (b : Bridge) : Bridge :=
  { b with tcp := .connected, tcpConnected := true }.sendWs tcpOk

/-- The text of a TCP error. -/
def errorText (b : Bridge) (message : List Char) : List Char :=
  "No se pudo conectar a ".toList ++ b.host ++ ":".toList ++ (toString b.port).toList ++
    " — ".toList ++ message

/-- `tcp.on("error", …)`. -/
def onError (b : Bridge) (message : List Char) : Bridge :=
  ({ b with tcp := .destroyed }.sendWs
    (.object ⟨cmdError, "BRIDGE".toList, [], b.errorText message⟩)).closeWs

/-- `tcp.on("data", …)`. -/
def onTcpData (b : Bridge) (data : List UInt8) : Bridge :=
  (onData b.tcpBuffer data).1.foldl
    (fun b buf => match parsePacket buf with
      | some pkt => b.sendWs (.packet pkt)
      | none => b)
    { b with tcpBuffer := (onData b.tcpBuffer data).2, received := b.received ++ data }

/-- `ws.on("close", …)`. -/
def onWsClose (b : Bridge) : Bridge :=
  { b with ws := .closed, tcp := if b.tcp = .closed then .closed else .destroyed }

def step (node : NodeBuffer) (b : Bridge) (e : BridgeEvent) : Option Bridge :=
  if b.crashed then none
  else match e with
  | .message msg =>
    if b.ws = .closed then none
    else if b.first then some (b.onFirst msg)
    -- without a connection asked for there is no second handler
    else if b.tcp = .idle then some b
    else some (b.onMessage node msg)
  | .tcpConnect => if b.tcp = .connecting then some b.onConnect else none
  | .tcpError message =>
    if b.tcp = .connecting ∨ b.tcp = .connected then some (b.onError message) else none
  | .tcpData data => if b.tcp = .connected then some (b.onTcpData data) else none
  | .tcpClose =>
    if b.tcp = .idle ∨ b.tcp = .closed then none else some { b with tcp := .closed }.closeWs
  -- no handler runs
  | .wsClosing => if b.ws = .open then some b.closeWs else none
  | .wsClose => if b.ws = .closed then none else some b.onWsClose

/-! ### What the two sides get -/

/-- What the browser is to be sent: `tcp_ok`, and the packets received. -/
def due (b : Bridge) : List Outgoing :=
  (if b.tcpConnected then [tcpOk] else []) ++
    ((blocks 1024 b.received).filterMap parsePacket).map .packet

/-- The packets written for the messages. -/
def packetsFor (node : NodeBuffer) (msgs : List (Option Json)) : List (List UInt8) :=
  msgs.filterMap fun msg => msg.bind (buildMessage node)

/-- An ERROR of the bridge itself. -/
def IsError (s : Outgoing) : Prop := ∃ text, s = .object ⟨cmdError, "BRIDGE".toList, [], text⟩

/-- The invariant. -/
structure Ok (node : NodeBuffer) (b : Bridge) : Prop where
  buffer : b.tcpBuffer.length < 1024 ∧
    (blocks 1024 b.received).flatten ++ b.tcpBuffer = b.received
  written : b.written = (packetsFor node b.asked).flatten
  unconnected : b.tcpConnected = false → b.asked = [] ∧ b.received = []
  connected : b.tcp = .connected → b.tcpConnected = true
  once : b.tcp = .idle ∨ b.tcp = .connecting → b.tcpConnected = false
  first : b.first = true → b.sent = [] ∧ (b.tcp = .idle ∨ b.ws = .closed)
  sending : b.ws = .open → b.sent = b.due
  sent : ∃ shown errors, b.sent = shown ++ errors ∧ shown <+: b.due ∧ errors.length ≤ 1 ∧
    ∀ s ∈ errors, IsError s
  gone : b.ws = .closed → b.tcp = .destroyed ∨ b.tcp = .closed

variable {node : NodeBuffer} {b b' : Bridge} {e : BridgeEvent} {msg : Option Json}

theorem ok_init : init.Ok node where
  buffer := ⟨by decide, rfl⟩
  written := rfl
  unconnected := fun _ => ⟨rfl, rfl⟩
  connected := fun h => by cases h
  once := fun _ => rfl
  first := fun _ => ⟨rfl, .inl rfl⟩
  sending := fun _ => rfl
  sent := ⟨[], [], rfl, List.nil_prefix, Nat.zero_le _, by simp⟩
  gone := fun h => by cases h

/-- A TCP socket in use was asked for by the first message. -/
theorem Ok.first_over (h : b.Ok node) (htcp : b.tcp = .connecting ∨ b.tcp = .connected) :
    b.first = false := by
  rcases hf : b.first with - | -
  · rfl
  · obtain ⟨-, hidle | hclosed⟩ := h.first hf
    · rcases htcp with htcp | htcp <;> rw [hidle] at htcp <;> cases htcp
    · rcases h.gone hclosed with hgone | hgone <;> rcases htcp with htcp | htcp <;>
        rw [hgone] at htcp <;> cases htcp

/-- Closing the WebSocket. -/
theorem Ok.closeWs (h : b.Ok node) : b.closeWs.Ok node := by
  unfold Bridge.closeWs
  split
  · case isTrue hws =>
    refine ⟨h.buffer, h.written, h.unconnected, h.connected, h.once, fun hf => ?_, by simp,
      h.sent, by simp⟩
    obtain ⟨hsent, htcp | hws'⟩ := h.first hf
    · exact ⟨hsent, .inl htcp⟩
    · rw [hws] at hws'
      cases hws'
  · exact h

/-- Data from the server: its packets go to the browser while it listens. -/
theorem sends_blocks (bufs : List (List UInt8)) (b : Bridge) :
    bufs.foldl (fun b buf => match parsePacket buf with
      | some pkt => b.sendWs (.packet pkt)
      | none => b) b =
    if b.ws = .open then
      { b with sent := b.sent ++ (bufs.filterMap parsePacket).map .packet } else b := by
  induction bufs generalizing b with
  | nil => simp
  | cons buf bufs ih =>
    rw [List.foldl_cons, ih]
    rcases hparse : parsePacket buf with - | pkt
    · simp [hparse]
    · by_cases hws : b.ws = .open <;> simp [hparse, Bridge.sendWs, hws]

/-- The blocks of a stream that grows by the data of an event. -/
theorem blocks_received (h : b.Ok node) (data : List UInt8) :
    blocks 1024 (b.received ++ data) =
      blocks 1024 b.received ++ (onData b.tcpBuffer data).1 := by
  obtain ⟨hshort, hall⟩ := h.buffer
  have hlen : ∀ x ∈ blocks 1024 b.received, x.length = 1024 := fun x hx =>
    length_of_mem_blocks (by decide) hx
  conv_lhs => rw [← hall, List.append_assoc]
  rw [blocks_append (by decide) hlen, onData, (drain_spec _).1]

theorem Ok.onTcpData (h : b.Ok node) (htcp : b.tcp = .connected) (data : List UInt8) :
    (b.onTcpData data).Ok node := by
  have hblocks := blocks_received h data
  obtain ⟨hbuffer, hall⟩ := h.buffer
  obtain ⟨-, hshort, -, hflat⟩ := drain_spec (b.tcpBuffer ++ data)
  have hconn := h.connected htcp
  have hdue : ∀ sent, ({ b with
      sent := sent
      tcpBuffer := (ChatSystem.onData b.tcpBuffer data).2
      received := b.received ++ data } : Bridge).due =
      b.due ++ ((ChatSystem.onData b.tcpBuffer data).1.filterMap parsePacket).map .packet := by
    intro sent
    simp [due, hblocks]
  have hbuffer' : (ChatSystem.onData b.tcpBuffer data).2.length < 1024 ∧
      (blocks 1024 (b.received ++ data)).flatten ++ (ChatSystem.onData b.tcpBuffer data).2 =
        b.received ++ data := by
    refine ⟨hshort, ?_⟩
    rw [hblocks, List.flatten_append, List.append_assoc, ChatSystem.onData, hflat,
      ← List.append_assoc, hall]
  unfold Bridge.onTcpData
  rw [sends_blocks]
  split
  · case isTrue hws =>
    have hsent := h.sending hws
    refine ⟨hbuffer', h.written, fun h' => ?_, h.connected, h.once, fun hf => ?_, fun _ => ?_,
      ?_, h.gone⟩
    · rw [hconn] at h'
      cases h'
    · rw [h.first_over (.inr htcp)] at hf
      cases hf
    · rw [hdue, ← hsent]
    · refine ⟨_, [], (List.append_nil _).symm, ?_, Nat.zero_le _, by simp⟩
      rw [hdue, ← hsent]
  · case isFalse hws =>
    obtain ⟨shown, errors, hsent, hshown, herrors⟩ := h.sent
    refine ⟨hbuffer', h.written, fun h' => ?_, h.connected, h.once, h.first,
      fun h' => absurd h' hws, ⟨shown, errors, hsent, ?_, herrors⟩, h.gone⟩
    · rw [hconn] at h'
      cases h'
    · rw [hdue b.sent]
      exact hshown.trans (List.prefix_append _ _)

theorem Ok.onConnect (h : b.Ok node) (htcp : b.tcp = .connecting) : b.onConnect.Ok node := by
  have hno := h.once (.inr htcp)
  obtain ⟨hasked, hreceived⟩ := h.unconnected hno
  have hold : b.due = [] := by simp [due, hno, hreceived, blocks_of_lt]
  have hnew : ∀ sent, ({ b with tcp := .connected, tcpConnected := true, sent := sent } :
      Bridge).due = [tcpOk] := by
    intro sent
    simp [due, hreceived, blocks_of_lt]
  have hopen : b.ws ≠ .closed := fun hclosed => by
    rcases h.gone hclosed with hgone | hgone <;> rw [htcp] at hgone <;> cases hgone
  have hfirst := h.first_over (.inl htcp)
  unfold Bridge.onConnect Bridge.sendWs
  split
  · case isTrue hws =>
    have hsent : b.sent ++ [tcpOk] = [tcpOk] := by rw [h.sending hws, hold]; rfl
    refine ⟨h.buffer, h.written, by simp, fun _ => rfl, by simp, by simp [hfirst], fun _ => ?_,
      ⟨[tcpOk], [], ?_, ?_, Nat.zero_le _, by simp⟩, fun hclosed => absurd hclosed hopen⟩
    · rw [hnew]
      exact hsent
    · rw [List.append_nil]
      exact hsent
    · rw [hnew]
  · case isFalse hws =>
    obtain ⟨shown, errors, hsent, hshown, herrors⟩ := h.sent
    rw [hold] at hshown
    refine ⟨h.buffer, h.written, by simp, fun _ => rfl, by simp, by simp [hfirst],
      fun h' => absurd h' hws, ⟨shown, errors, hsent, ?_, herrors⟩,
      fun hclosed => absurd hclosed hopen⟩
    rw [List.prefix_nil.mp hshown]
    exact List.nil_prefix

theorem Ok.onError (h : b.Ok node) (htcp : b.tcp = .connecting ∨ b.tcp = .connected)
    (message : List Char) : (b.onError message).Ok node := by
  have hfirst := h.first_over htcp
  unfold Bridge.onError Bridge.sendWs
  split
  · case isTrue hws =>
    have hws : b.ws = .open := hws
    rw [Bridge.closeWs, if_pos hws]
    refine ⟨h.buffer, h.written, h.unconnected, by simp, by simp, by simp [hfirst], by simp,
      ⟨b.due, [_], by rw [← h.sending hws], List.prefix_rfl, Nat.le_refl _, ?_⟩, by simp⟩
    intro s hs
    exact ⟨_, List.mem_singleton.mp hs⟩
  · case isFalse hws =>
    have hws : b.ws ≠ .open := hws
    rw [Bridge.closeWs, if_neg hws]
    exact ⟨h.buffer, h.written, h.unconnected, by simp, by simp, by simp [hfirst],
      fun h' => absurd h' hws, h.sent, fun _ => .inl rfl⟩

theorem Ok.onMessage (h : b.Ok node) (msg : Option Json) : (b.onMessage node msg).Ok node := by
  unfold Bridge.onMessage
  split
  · case isTrue hup =>
    obtain ⟨hconn, htcp⟩ := hup
    refine ⟨h.buffer, ?_, fun h' => ?_, h.connected, h.once, h.first, h.sending, h.sent, h.gone⟩
    · show b.written ++ _ = (packetsFor node (b.asked ++ [msg])).flatten
      rw [h.written]
      rcases hbuild : msg.bind (buildMessage node) with - | buf <;> simp [packetsFor, hbuild]
    · rw [hconn] at h'
      cases h'
  · exact h

/-- What the first message leads to, if nothing is thrown. -/
theorem firstMessage_ok_cases {wsOpen : Bool} {msg : Option Json} {effects : List Effect}
    (h : firstMessage wsOpen msg = .ok effects) :
    (∃ port host, effects = [.connect port host]) ∨
      ∃ text, effects = ChatSystem.sendWs wsOpen (bridgeError text) ++ [.close] := by
  rcases msg with - | msg
  · exact .inr ⟨_, (Except.ok.inj h).symm⟩
  by_cases hnull : msg = .null
  · subst hnull
    cases h
  rw [firstMessage_of_ne hnull] at h
  split at h
  · obtain ⟨host, -, -, port, -, -, -, -, -, heffects⟩ := startTcp_eq_ok_iff.mp h
    exact .inl ⟨port, trim host, heffects⟩
  · exact .inr ⟨_, (Except.ok.inj h).symm⟩

/-- A first message that asks for no connection is answered by one ERROR. -/
theorem Ok.refuse (h : b.Ok node) (text : String) :
    ((ChatSystem.sendWs (decide (b.ws = .open)) (bridgeError text) ++ [Effect.close]).foldl perform
      { b with first := false }).Ok node := by
  unfold ChatSystem.sendWs
  split
  · case isTrue hws =>
    have hws : b.ws = .open := of_decide_eq_true hws
    have hend : ([Effect.send (bridgeError text)] ++ [Effect.close]).foldl perform
        { b with first := false } =
        { b with
          first := false
          ws := .closing
          sent := b.sent ++ [Outgoing.object (bridgeError text)] } := by
      simp [perform, Bridge.closeWs, hws]
    rw [hend]
    refine ⟨h.buffer, h.written, h.unconnected, h.connected, h.once, by simp, by simp,
      ⟨b.due, [_], by rw [← h.sending hws], List.prefix_rfl, Nat.le_refl _, ?_⟩, by simp⟩
    intro s hs
    exact ⟨_, List.mem_singleton.mp hs⟩
  · have hover : ({ b with first := false } : Bridge).Ok node :=
      ⟨h.buffer, h.written, h.unconnected, h.connected, h.once, by simp, h.sending, h.sent, h.gone⟩
    exact hover.closeWs

theorem Ok.onFirst (h : b.Ok node) (hfirst : b.first = true) (hws : b.ws ≠ .closed)
    (msg : Option Json) : (b.onFirst msg).Ok node := by
  unfold Bridge.onFirst
  split
  · case h_1 effects heffects =>
    rcases firstMessage_ok_cases heffects with ⟨port, host, rfl⟩ | ⟨text, rfl⟩
    · -- no connection was asked for before
      have hidle : b.tcp = .idle := (h.first hfirst).2.resolve_right hws
      have hno := h.once (.inl hidle)
      exact ⟨h.buffer, h.written, h.unconnected, by simp [perform], fun _ => hno,
        by simp [perform], h.sending, h.sent, fun hclosed => absurd hclosed hws⟩
    · exact h.refuse text
  · exact ⟨h.buffer, h.written, h.unconnected, h.connected, h.once, by simp, h.sending, h.sent,
      h.gone⟩

theorem Ok.onWsClose (h : b.Ok node) : b.onWsClose.Ok node := by
  refine ⟨h.buffer, h.written, h.unconnected, fun htcp => ?_, fun htcp => ?_, fun hf => ?_,
    (fun hopen => by cases hopen), h.sent, fun _ => ?_⟩
  · have htcp : (if b.tcp = .closed then TcpState.closed else .destroyed) = .connected := htcp
    split at htcp <;> cases htcp
  · have htcp : (if b.tcp = .closed then TcpState.closed else .destroyed) = .idle ∨
      (if b.tcp = .closed then TcpState.closed else .destroyed) = .connecting := htcp
    split at htcp <;> simp at htcp
  · exact ⟨(h.first hf).1, .inr rfl⟩
  · show (if b.tcp = .closed then TcpState.closed else .destroyed) = .destroyed ∨
      (if b.tcp = .closed then TcpState.closed else .destroyed) = .closed
    split
    · exact .inr rfl
    · exact .inl rfl

/-- The end of the TCP connection. -/
theorem Ok.onTcpClose (h : b.Ok node) (htcp : b.tcp ≠ .idle) :
    ({ b with tcp := .closed } : Bridge).closeWs.Ok node := by
  have hended : ({ b with tcp := .closed } : Bridge).Ok node := by
    refine ⟨h.buffer, h.written, h.unconnected, by simp, by simp, fun hf => ?_, h.sending, h.sent,
      fun _ => .inr rfl⟩
    obtain ⟨hsent, hidle | hclosed⟩ := h.first hf
    · exact absurd hidle htcp
    · exact ⟨hsent, .inr hclosed⟩
  exact hended.closeWs

theorem Ok.step (h : b.Ok node) (hs : b.step node e = some b') : b'.Ok node := by
  unfold Bridge.step at hs
  split at hs
  · cases hs
  · cases e with
    | message msg =>
      dsimp only at hs
      split at hs
      · cases hs
      case isFalse hws =>
        split at hs
        case isTrue hfirst =>
          obtain rfl := Option.some.inj hs
          exact h.onFirst hfirst hws msg
        case isFalse =>
          split at hs <;> obtain rfl := Option.some.inj hs
          · exact h
          · exact h.onMessage msg
    | tcpConnect =>
      dsimp only at hs
      split at hs
      case isTrue htcp =>
        obtain rfl := Option.some.inj hs
        exact h.onConnect htcp
      case isFalse => cases hs
    | tcpError message =>
      dsimp only at hs
      split at hs
      case isTrue htcp =>
        obtain rfl := Option.some.inj hs
        exact h.onError htcp message
      case isFalse => cases hs
    | tcpData data =>
      dsimp only at hs
      split at hs
      case isTrue htcp =>
        obtain rfl := Option.some.inj hs
        exact h.onTcpData htcp data
      case isFalse => cases hs
    | tcpClose =>
      dsimp only at hs
      split at hs
      · cases hs
      case isFalse htcp =>
        obtain rfl := Option.some.inj hs
        exact h.onTcpClose fun hidle => htcp (.inl hidle)
    | wsClosing =>
      dsimp only at hs
      split at hs
      · obtain rfl := Option.some.inj hs
        exact h.closeWs
      · cases hs
    | wsClose =>
      dsimp only at hs
      split at hs
      · cases hs
      · obtain rfl := Option.some.inj hs
        exact h.onWsClose

/-! ### What an event changes -/

/-- What was sent stays sent, the connection has been up once it was, and
nothing is asked. -/
structure Keeps (b b' : Bridge) : Prop where
  sent : b.sent <+: b'.sent
  up : b.tcpConnected = true → b'.tcpConnected = true
  asked : b'.asked = b.asked
  first : b'.first = b.first

theorem Keeps.refl (b : Bridge) : b.Keeps b := ⟨List.prefix_rfl, id, rfl, rfl⟩

theorem Keeps.trans {b₁ b₂ b₃ : Bridge} (h : b₁.Keeps b₂) (h' : b₂.Keeps b₃) : b₁.Keeps b₃ :=
  ⟨h.sent.trans h'.sent, h'.up ∘ h.up, h'.asked.trans h.asked, h'.first.trans h.first⟩

theorem keeps_sendWs (b : Bridge) (s : Outgoing) : b.Keeps (b.sendWs s) := by
  unfold Bridge.sendWs
  split
  · exact ⟨List.prefix_append _ _, id, rfl, rfl⟩
  · exact .refl b

theorem keeps_closeWs (b : Bridge) : b.Keeps b.closeWs := by
  unfold Bridge.closeWs
  split
  · exact ⟨List.prefix_rfl, id, rfl, rfl⟩
  · exact .refl b

theorem keeps_perform (effects : List Effect) (b : Bridge) : b.Keeps (effects.foldl perform b) := by
  induction effects generalizing b with
  | nil => exact .refl b
  | cons effect effects ih =>
    refine Keeps.trans ?_ (ih (b.perform effect))
    cases effect with
    | send obj => exact ⟨List.prefix_append _ _, id, rfl, rfl⟩
    | close => exact keeps_closeWs b
    | connect port host => exact ⟨List.prefix_rfl, id, rfl, rfl⟩

theorem tcp_sendWs (b : Bridge) (s : Outgoing) : (b.sendWs s).tcp = b.tcp := by
  unfold Bridge.sendWs
  split <;> rfl

theorem tcp_closeWs (b : Bridge) : b.closeWs.tcp = b.tcp := by
  unfold Bridge.closeWs
  split <;> rfl

/-- What data from the server leaves as it is. -/
theorem onTcpData_frame (b : Bridge) (data : List UInt8) : b.Keeps (b.onTcpData data) ∧
    (b.onTcpData data).crashed = b.crashed ∧ (b.onTcpData data).ws = b.ws ∧
      (b.onTcpData data).tcp = b.tcp ∧ (b.onTcpData data).received = b.received ++ data := by
  unfold Bridge.onTcpData
  rw [sends_blocks]
  split
  · exact ⟨⟨List.prefix_append _ _, id, rfl, rfl⟩, rfl, rfl, rfl, rfl⟩
  · exact ⟨⟨List.prefix_rfl, id, rfl, rfl⟩, rfl, rfl, rfl, rfl⟩

/-- **A message**: the first goes to the first handler, the others are asked
when the connection is up. -/
theorem step_message (hs : b.step node (.message msg) = some b') :
    b.sent <+: b'.sent ∧ (b.tcpConnected = true → b'.tcpConnected = true) ∧ b'.first = false ∧
      (b.first = true ∧ b.ws ≠ .closed ∧ b' = b.onFirst msg ∧ b'.asked = b.asked ∨
        b.first = false ∧ b'.tcp = b.tcp ∧ b'.asked =
          if b.tcpConnected = true ∧ b.tcp = .connected then b.asked ++ [msg] else b.asked) := by
  simp only [Bridge.step] at hs
  split at hs
  · cases hs
  split at hs
  · cases hs
  case isFalse hws =>
    split at hs
    case isTrue hfirst =>
      obtain rfl := Option.some.inj hs
      unfold Bridge.onFirst
      split
      · have hkeeps := keeps_perform ‹_› { b with first := false }
        exact ⟨hkeeps.sent, hkeeps.up, hkeeps.first, .inl ⟨hfirst, hws, rfl, hkeeps.asked⟩⟩
      · exact ⟨List.prefix_rfl, id, rfl, .inl ⟨hfirst, hws, rfl, rfl⟩⟩
    case isFalse hfirst =>
      have hfirst : b.first = false := Bool.eq_false_iff.mpr hfirst
      split at hs
      case isTrue hidle =>
        obtain rfl := Option.some.inj hs
        refine ⟨List.prefix_rfl, id, hfirst, .inr ⟨hfirst, rfl, ?_⟩⟩
        rw [if_neg fun hup => by rw [hidle] at hup; cases hup.2]
      case isFalse =>
        obtain rfl := Option.some.inj hs
        unfold Bridge.onMessage
        split
        · exact ⟨List.prefix_rfl, id, hfirst, .inr ⟨hfirst, rfl, rfl⟩⟩
        · exact ⟨List.prefix_rfl, id, hfirst, .inr ⟨hfirst, rfl, rfl⟩⟩

/-- **Any other event** asks nothing, and connects once. -/
theorem Ok.step_event (h : b.Ok node) (hs : b.step node e = some b')
    (he : ∀ msg, e ≠ .message msg) :
    b.Keeps b' ∧ (b'.tcp = .connected → b.tcp = .connected ∨ b.tcpConnected = false) := by
  simp only [Bridge.step] at hs
  split at hs
  · cases hs
  cases e with
  | message msg => exact absurd rfl (he msg)
  | tcpConnect =>
    dsimp only at hs
    split at hs
    case isTrue htcp =>
      obtain rfl := Option.some.inj hs
      have hup : b.Keeps { b with tcp := .connected, tcpConnected := true } :=
        ⟨List.prefix_rfl, fun _ => rfl, rfl, rfl⟩
      exact ⟨hup.trans (keeps_sendWs _ _), fun _ => .inr (h.once (.inr htcp))⟩
    case isFalse => cases hs
  | tcpError message =>
    dsimp only at hs
    split at hs
    case isTrue =>
      obtain rfl := Option.some.inj hs
      have hdestroyed : b.Keeps { b with tcp := .destroyed } := ⟨List.prefix_rfl, id, rfl, rfl⟩
      refine ⟨(hdestroyed.trans (keeps_sendWs _ _)).trans (keeps_closeWs _), fun htcp => ?_⟩
      rw [Bridge.onError, tcp_closeWs, tcp_sendWs] at htcp
      cases htcp
    case isFalse => cases hs
  | tcpData data =>
    dsimp only at hs
    split at hs
    case isTrue htcp =>
      obtain rfl := Option.some.inj hs
      exact ⟨(onTcpData_frame b data).1, fun _ => .inl htcp⟩
    case isFalse => cases hs
  | tcpClose =>
    dsimp only at hs
    split at hs
    · cases hs
    · obtain rfl := Option.some.inj hs
      have hclosed : b.Keeps { b with tcp := .closed } := ⟨List.prefix_rfl, id, rfl, rfl⟩
      refine ⟨hclosed.trans (keeps_closeWs _), fun htcp => ?_⟩
      rw [tcp_closeWs] at htcp
      cases htcp
  | wsClosing =>
    dsimp only at hs
    split at hs
    · obtain rfl := Option.some.inj hs
      exact ⟨keeps_closeWs b, fun htcp => .inl (tcp_closeWs b ▸ htcp)⟩
    · cases hs
  | wsClose =>
    dsimp only at hs
    split at hs
    · cases hs
    · obtain rfl := Option.some.inj hs
      refine ⟨⟨List.prefix_rfl, id, rfl, rfl⟩, fun htcp => ?_⟩
      have htcp : (if b.tcp = .closed then TcpState.closed else .destroyed) = .connected := htcp
      split at htcp <;> cases htcp

/-- The two streams of the TCP connection. -/
def streams (b : Bridge) : List UInt8 × List UInt8 := (b.written, b.received)

theorem streams_sendWs (b : Bridge) (s : Outgoing) : (b.sendWs s).streams = b.streams := by
  unfold Bridge.sendWs
  split <;> rfl

theorem streams_closeWs (b : Bridge) : b.closeWs.streams = b.streams := by
  unfold Bridge.closeWs
  split <;> rfl

theorem streams_perform (effects : List Effect) (b : Bridge) :
    (effects.foldl perform b).streams = b.streams := by
  induction effects generalizing b with
  | nil => rfl
  | cons effect effects ih =>
    rw [List.foldl_cons, ih]
    cases effect with
    | close => exact streams_closeWs b
    | send obj => rfl
    | connect port host => rfl

/-- Only messages are written, and only data is received. -/
theorem step_streams (hs : b.step node e = some b') :
    b.written <+: b'.written ∧ (b'.received = b.received ∨
      ∃ data, e = .tcpData data ∧ b'.received = b.received ++ data) := by
  have hsame (h : b'.streams = b.streams) : b.written <+: b'.written ∧
      (b'.received = b.received ∨
        ∃ data, e = .tcpData data ∧ b'.received = b.received ++ data) := by
    obtain ⟨hwritten, hreceived⟩ := Prod.mk.inj h
    exact ⟨by rw [hwritten], .inl hreceived⟩
  simp only [Bridge.step] at hs
  split at hs
  · cases hs
  cases e with
  | message msg =>
    dsimp only at hs
    split at hs
    · cases hs
    split at hs
    · obtain rfl := Option.some.inj hs
      apply hsame
      unfold Bridge.onFirst
      split
      · exact streams_perform _ _
      · rfl
    split at hs <;> obtain rfl := Option.some.inj hs
    · exact hsame rfl
    · unfold Bridge.onMessage
      split
      · exact ⟨List.prefix_append _ _, .inl rfl⟩
      · exact ⟨List.prefix_rfl, .inl rfl⟩
  | tcpConnect =>
    dsimp only at hs
    split at hs
    · obtain rfl := Option.some.inj hs
      exact hsame (streams_sendWs _ _)
    · cases hs
  | tcpError message =>
    dsimp only at hs
    split at hs
    · obtain rfl := Option.some.inj hs
      exact hsame ((streams_closeWs _).trans (streams_sendWs _ _))
    · cases hs
  | tcpData data =>
    dsimp only at hs
    split at hs
    · obtain rfl := Option.some.inj hs
      obtain ⟨-, -, -, -, hreceived⟩ := onTcpData_frame b data
      refine ⟨?_, .inr ⟨data, rfl, hreceived⟩⟩
      unfold Bridge.onTcpData
      rw [sends_blocks]
      split <;> exact List.prefix_rfl
    · cases hs
  | tcpClose =>
    dsimp only at hs
    split at hs
    · cases hs
    · obtain rfl := Option.some.inj hs
      exact hsame (streams_closeWs _)
  | wsClosing =>
    dsimp only at hs
    split at hs
    · obtain rfl := Option.some.inj hs
      exact hsame (streams_closeWs b)
    · cases hs
  | wsClose =>
    dsimp only at hs
    split at hs
    · cases hs
    · obtain rfl := Option.some.inj hs
      exact hsame rfl

/-- **What the two sides of a session get.** -/
structure Bridged (node : NodeBuffer) (b : Bridge) : Prop where
  /-- a packet for every message that came while the connection was up and that can be encoded -/
  server : blocks 1024 b.written = packetsFor node b.asked ∧
    b.written = (blocks 1024 b.written).flatten
  /-- for requests of the web client, these are their packets -/
  requests : ∀ rs : List Request, b.asked = rs.map (some ∘ requestMessage) →
    packetsOf b.written = rs.map Request.packet
  /-- what is due, up to the close of the WebSocket, and at most one ERROR of the bridge -/
  browser : ∃ shown errors, b.sent = shown ++ errors ∧ shown <+: b.due ∧ errors.length ≤ 1 ∧
    ∀ s ∈ errors, IsError s
  listening : b.ws = .open → b.sent = b.due
  /-- nothing is kept but the part of a packet -/
  kept : b.tcpBuffer.length < 1024 ∧
    (blocks 1024 b.received).flatten ++ b.tcpBuffer = b.received
  /-- no connection outlives its WebSocket -/
  gone : b.ws = .closed → b.tcp = .destroyed ∨ b.tcp = .closed

theorem length_of_mem_packetsFor {msgs : List (Option Json)} {x : List UInt8}
    (hx : x ∈ packetsFor node msgs) : x.length = 1024 := by
  obtain ⟨msg, -, hx⟩ := List.mem_filterMap.mp hx
  obtain ⟨m, -, hx⟩ := Option.bind_eq_some_iff.mp hx
  simp only [buildMessage, Option.bind_eq_bind, Option.bind_eq_some_iff, pure,
    Option.some.injEq] at hx
  obtain ⟨-, -, -, -, -, -, -, -, -, -, -, -, -, -, -, -, rfl⟩ := hx
  exact length_packetBytes _ _ _ _

theorem packetsFor_requests (rs : List Request) :
    packetsFor node (rs.map (some ∘ requestMessage)) = rs.map Request.bytes := by
  have hmsg : (fun msg => msg.bind (buildMessage node)) ∘ (some ∘ requestMessage) =
      some ∘ Request.bytes := by
    funext r
    exact buildMessage_request node r
  rw [packetsFor, List.filterMap_map, hmsg, List.filterMap_eq_map]

/-- The packets of a stream written for requests. -/
theorem packetsOf_requests (rs : List Request) :
    packetsOf (packetsFor node (rs.map (some ∘ requestMessage))).flatten =
      rs.map Request.packet := by
  have hbytes : rs.map Request.bytes = (rs.map Request.packet).map ChatPacket.toBytes := by
    rw [List.map_map]
    refine List.map_congr_left fun r _ => ?_
    rw [Function.comp_apply, Request.packet_eq, Request.bytes, buildPacket_eq]
  rw [packetsFor_requests, hbytes, ← List.flatMap_def, ← List.append_nil (List.flatMap _ _)]
  exact packetsOf_append _ (by decide)

/-- **Both sides of a session**, whatever the sockets do. -/
theorem bridged_of_reachable (h : Reachable (step node) init b) : b.Bridged node := by
  have hok : b.Ok node := h.invariant ok_init fun _ _ _ hok hs => hok.step hs
  have hserver : blocks 1024 b.written = packetsFor node b.asked := by
    have hlen : ∀ x ∈ packetsFor node b.asked, x.length = 1024 := fun _ hx =>
      length_of_mem_packetsFor hx
    have hblocks := blocks_append (by decide) hlen []
    rw [List.append_nil, ← hok.written] at hblocks
    rw [hblocks, blocks_of_lt (by decide), List.append_nil]
  refine ⟨⟨hserver, ?_⟩, fun rs hrs => ?_, hok.sent, hok.sending, hok.buffer, hok.gone⟩
  · rw [hserver]
    exact hok.written
  · rw [hok.written, hrs]
    exact packetsOf_requests rs

theorem parseInt_repr_byte : ∀ b : Fin 256, parseInt (Nat.repr b).toList = some (b : ℤ) := by
  decide +kernel

/-- `Buffer` on strings and on whole numbers. -/
def plainNode : NodeBuffer where
  fromValue
    | .str s => some (encode s)
    | _ => none
  uint8
    | some (.num text) =>
      (parseInt text).bind fun n => if 0 ≤ n ∧ n ≤ 255 then some (UInt8.ofNat n.toNat) else none
    | _ => none
  fromValue_str := fun _ => rfl
  uint8_num := fun b => by
    have hlt : b.toNat < 256 := b.toNat_lt
    have hparse : parseInt (Nat.repr b.toNat).toList = some (b.toNat : ℤ) :=
      parseInt_repr_byte ⟨b.toNat, hlt⟩
    simp only [hparse, Option.bind_some]
    rw [if_pos (by omega), Int.toNat_natCast, UInt8.ofNat_toNat]

theorem step_tcpData (node : NodeBuffer) (hup : b.crashed = false) (htcp : b.tcp = .connected)
    (data : List UInt8) : b.step node (.tcpData data) = some (b.onTcpData data) := by
  simp [Bridge.step, hup, htcp]

/-- A session: a user logs in, and the answer comes in two pieces. -/
theorem bridged_of_reachable_ana : ∃ b : Bridge, b.ws = .open ∧
    b.asked = [some (requestMessage (webRegister "ana".toList))] ∧
    packetsOf b.received = [built cmdOk "SERVER".toList "ana".toList "Bienvenido ana".toList] ∧
    b.Bridged plainNode := by
  let welcome := built cmdOk "SERVER".toList "ana".toList "Bienvenido ana".toList
  let b : Bridge := ({ init with
    first := false
    tcp := .connecting
    host := "127.0.0.1".toList
    port := 8080 } : Bridge).onConnect.onMessage plainNode
      (some (requestMessage (webRegister "ana".toList)))
  have hreplay : (replay (step plainNode) init [] [
      .message (some (connectMessage "127.0.0.1".toList "8080".toList)), .tcpConnect,
      .message (some (requestMessage (webRegister "ana".toList)))]).map Prod.snd = some b := rfl
  obtain ⟨⟨tr, b'⟩, hreplay, hb⟩ := Option.map_eq_some_iff.mp hreplay
  have hrun : Run (step plainNode) init tr b := hb ▸ Run.start.replay hreplay
  obtain ⟨hkeeps, hup, hws, htcp, hreceived⟩ := onTcpData_frame b (welcome.toBytes.take 3)
  obtain ⟨hkeeps', -, hws', -, hreceived'⟩ :=
    onTcpData_frame (b.onTcpData (welcome.toBytes.take 3)) (welcome.toBytes.drop 3)
  have hrun' := (hrun.step (step_tcpData plainNode rfl rfl (welcome.toBytes.take 3))).step
    (step_tcpData plainNode (hup.trans rfl) (htcp.trans rfl) (welcome.toBytes.drop 3))
  refine ⟨_, hws'.trans hws, hkeeps'.asked.trans hkeeps.asked, ?_, bridged_of_reachable ⟨_, hrun'⟩⟩
  have hstream : (b.received ++ welcome.toBytes.take 3) ++ welcome.toBytes.drop 3 =
      [welcome].flatMap ChatPacket.toBytes ++ [] := by
    rw [List.append_assoc, List.take_append_drop]
    simp [b, Bridge.onMessage, Bridge.onConnect, Bridge.sendWs, init]
  rw [hreceived', hreceived, hstream]
  exact packetsOf_append _ (by decide)

end Bridge

end ChatSystem
