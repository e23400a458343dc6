/-
ChatSystem/Sessions.lean

The sessions of the web client: `connect`, `logout` and the other actions of
`useChat.js`, the four handlers `connect` gives a socket, and the timers.
`Hook` is the whole state of the hook; its `chat` is what `handlePacket`
works on.

A run is any sequence of actions of the user, events of sockets and timers.
`SocketEvent.possible` says when the browser delivers an event: a message
while the socket is open, `error` and `close` until the socket is closed, so
also after `close()` was called, and `open` once.  An `open` whose task was
queued before `close()` still comes.  When the peer starts the closing handshake an
open socket is closing from then on, and no handler hears of it before `close`.

`connect` replaces `ws.current` and the handlers of the old socket stay:

    user: connect ─ logout ─ connect ──────────────────
    0:        open ─ Bienvenido ─────────────────── close
    1:                           open ─ Bienvenido ─ …

No handler asks whether its socket is still the current one, and `onclose`
decides by `usernameRef` and `voluntaryLogout`, which `connect` has reset.
`stepsAll_inert_iff` says when the events of superseded sockets leave the
session alone: when what their handlers set is set already.  The
counterexample `not_always_inert` is the run above.
-/
import ChatSystem.Lts
import ChatSystem.Web

namespace ChatSystem

open Lts

/-! ### The state of the hook -/

inductive WsStatus
  | disconnected
  | connecting
  | connected
deriving DecidableEq, Repr

inductive ReadyState
  | connecting
  | open
  | closing
  | closed
deriving DecidableEq, Repr

/-- A `WebSocket`, with the arguments of the `connect` that made it.
`opened`: its `open` event has come. -/
structure Socket where
  host : List Char
  port : List Char
  readyState : ReadyState
  opened : Bool
deriving DecidableEq, Repr

/-- `new WebSocket(BRIDGE_URL)`. -/
def Socket.new (host port : List Char) : Socket := ⟨host, port, .connecting, false⟩

/-- `socket.close()`. -/
def Socket.close (socket : Socket) : Socket :=
  match socket.readyState with
  | .connecting | .open => { socket with readyState := .closing }
  | .closing | .closed => socket

/-- The state of `useChat`.  `sockets` are all sockets ever made, in order;
`current` is `ws.current`; `connects` are the `{ type: 'connect', host, port }`
sent, `listLater` the users of the `LIST`s that wait for their 200 ms. -/
structure Hook where
  chat : Chat
  wsStatus : WsStatus
  activeChat : List Char
  sockets : List Socket
  current : Option ℕ
  voluntaryLogout : Bool
  pollTimer : Bool
  listLater : List (List Char)
  connects : List (List Char × List Char)
deriving DecidableEq, Repr

namespace Hook

def init : Hook where
  chat := ⟨false, false, [], [], [], Text.active, [], [], none, [], [], []⟩
  wsStatus := .disconnected
  activeChat := Text.all
  sockets := []
  current := none
  voluntaryLogout := false
  pollTimer := false
  listLater := []
  connects := []

def setWsStatus (h : Hook) (status : WsStatus) : Hook :=
  { h with wsStatus := status, chat := { h.chat with connected := decide (status = .connected) } }

def setLoginError (h : Hook) (error : List Char) : Hook :=
  { h with chat := { h.chat with loginError := error } }

def addMessage (h : Hook) (m : Message) : Hook := { h with chat := h.chat.addMessage m }

/-- `ws.current && ws.current.readyState === WebSocket.OPEN`. -/
def isOpen (h : Hook) : Bool :=
  (h.current.bind (h.sockets[·]?)).any (·.readyState = .open)

def send (h : Hook) (r : Request) : Hook :=
  if h.isOpen then { h with chat := h.chat.send r } else h

/-- `ws.current?.close()`. -/
def closeCurrent (h : Hook) : Hook :=
  match h.current with
  | none => h
  | some i => { h with sockets := h.sockets.modify i Socket.close }

def startPolling (h : Hook) : Hook := { h with pollTimer := true }

def stopPolling (h : Hook) : Hook := { h with pollTimer := false }

/-- What `logout` and `onclose` both do at the end. -/
def backToLogin (h : Hook) (error : List Char) : Hook :=
  { h with
    activeChat := Text.all
    chat := { h.chat with
      usernameRef := []
      inChat := false
      messages := []
      users := []
      username := []
      myStatus := Text.active
      loginError := error } }

/-! ### The actions of the user -/

def connect (h : Hook) (user host port : List Char) : Hook :=
  let h := h.closeCurrent
  let h := { h with
    voluntaryLogout := false
    chat := { h.chat with pendingUser := user, usernameRef := [], loginError := [] } }
  { h.setWsStatus .connecting with
    sockets := h.sockets ++ [Socket.new host port]
    current := some h.sockets.length }

def logout (h : Hook) : Hook :=
  let h := { h with voluntaryLogout := true }.stopPolling
  ((h.send (ChatSystem.logout h.chat.usernameRef)).closeCurrent).backToLogin []

def sendBroadcast (h : Hook) (text : List Char) : Hook :=
  let me := h.chat.usernameRef
  (h.send (ChatSystem.sendBroadcast me text)).addMessage ⟨.broadcast, me, some Text.all, text⟩

def sendDirect (h : Hook) (target text : List Char) : Hook :=
  let me := h.chat.usernameRef
  (h.send (ChatSystem.sendDirect me target text)).addMessage ⟨.direct, me, some target, text⟩

def changeStatus (h : Hook) (status : List Char) : Hook :=
  { h with chat := h.chat.setMyStatus status }.send
    (ChatSystem.changeStatus h.chat.usernameRef status)

def listUsers (h : Hook) : Hook := h.send (ChatSystem.listUsers h.chat.usernameRef)

def getInfo (h : Hook) (target : List Char) : Hook :=
  { h with chat := { h.chat with pendingInfoTarget := target } }.send
    (ChatSystem.getInfo h.chat.usernameRef target)

/-! ### The handlers of a socket -/

/-- `'No se pudo conectar al bridge. ¿Está corriendo bridge.js?'` -/
def noBridge : List Char := "No se pudo conectar al bridge. ¿Está corriendo bridge.js?".toList

/-- `'⚠ Conexión perdida: el servidor se apagó o no está disponible.'` -/
def connectionLost : List Char :=
  "⚠ Conexión perdida: el servidor se apagó o no está disponible.".toList

/-- `send` on a socket that is closing is dropped. -/
def onopen (h : Hook) (socket : Socket) : Hook :=
  let h := h.setWsStatus .connected
  if socket.readyState = .open then
    { h with connects := h.connects ++ [(socket.host, socket.port)] }
  else h

/-- `handlePacket`, with what it does to the timers and to the socket. -/
def onPacket (h : Hook) (pkt : ParsedPacket) : Hook :=
  let h' := { h with chat := handlePacket h.chat pkt }
  if pkt.command = cmdOk ∧ Js.startsWith pkt.payload "Bienvenido".toList then
    { h' with listLater := h'.listLater ++ [h.chat.pendingUser] }.startPolling
  else if pkt.command = cmdError ∧ h.chat.usernameRef = [] then
    (h'.setWsStatus .disconnected).closeCurrent
  else h'

/-- `none` is a message that `JSON.parse` refuses: the exception is caught. -/
def onmessage (h : Hook) : Option ParsedPacket → Hook
  | none => h
  | some pkt => h.onPacket pkt

def onerror (h : Hook) : Hook := (h.setWsStatus .disconnected).setLoginError noBridge

def onclose (h : Hook) : Hook :=
  let h := (h.setWsStatus .disconnected).stopPolling
  if h.chat.usernameRef ≠ [] ∧ !h.voluntaryLogout then h.backToLogin connectionLost else h

end Hook

/-! ### What can happen -/

/-- `closing`: the peer has started the closing handshake. -/
inductive SocketEvent
  | open
  | message (data : Option ParsedPacket)
  | closing
  | error
  | close
deriving DecidableEq, Repr

namespace SocketEvent

/-- The browser may deliver the event. -/
def possible (socket : Socket) : SocketEvent → Bool
  | .open => !socket.opened && socket.readyState != .closed
  | .message _ | .closing => socket.readyState == .open
  | .error | .close => socket.readyState != .closed

/-- The socket when the handler of the event runs. -/
def after (socket : Socket) : SocketEvent → Socket
  | .open => { socket with
      opened := true
      readyState := if socket.readyState = .connecting then .open else socket.readyState }
  | .message _ | .error => socket
  | .closing => { socket with readyState := .closing }
  | .close => { socket with readyState := .closed }

end SocketEvent

namespace Hook

inductive Input
  | connect (user host port : List Char)
  | logout
  | sendBroadcast (text : List Char)
  | sendDirect (target text : List Char)
  | changeStatus (status : List Char)
  | listUsers
  | getInfo (target : List Char)
  | setActiveChat (name : List Char)
  | setUserInfo (info : Option (List Char × List Char))
  | socket (i : ℕ) (e : SocketEvent)
  | poll
  | delayedList (user : List Char)
deriving DecidableEq, Repr

/-- The handler of the event; `closing` has none. -/
def handler (h : Hook) (socket : Socket) : SocketEvent → Hook
  | .open => h.onopen socket
  | .message data => h.onmessage data
  | .closing => h
  | .error => h.onerror
  | .close => h.onclose

/-- The event of socket `i` is delivered. -/
def deliver (h : Hook) (i : ℕ) (e : SocketEvent) : Option Hook :=
  (h.sockets[i]?).bind fun socket =>
    if e.possible socket then
      some ({ h with sockets := h.sockets.set i (e.after socket) }.handler (e.after socket) e)
    else none

def step (h : Hook) : Input → Option Hook
  | .connect user host port => some (h.connect user host port)
  | .logout => some h.logout
  | .sendBroadcast text => some (h.sendBroadcast text)
  | .sendDirect target text => some (h.sendDirect target text)
  | .changeStatus status => some (h.changeStatus status)
  | .listUsers => some h.listUsers
  | .getInfo target => some (h.getInfo target)
  | .setActiveChat name => some { h with activeChat := name }
  | .setUserInfo info => some { h with chat := { h.chat with userInfo := info } }
  | .socket i e => h.deliver i e
  | .poll =>
    if h.pollTimer then
      some (if h.chat.usernameRef ≠ [] then h.send (ChatSystem.listUsers h.chat.usernameRef) else h)
    else none
  | .delayedList user =>
    if h.listLater.contains user then
      some ({ h with listLater := h.listLater.erase user }.send (ChatSystem.listUsers user))
    else none

end Hook

/-! ### What a packet does to the session -/

/-- Who is logged in, and what the page shows of it. -/
def Chat.session (s : Chat) : List Char × Bool × Bool := (s.usernameRef, s.inChat, s.connected)

/-- **A packet changes the session in two ways**: a welcome logs the pending
user in, an error before that refuses it. -/
theorem session_handlePacket (s : Chat) (pkt : ParsedPacket) :
    (handlePacket s pkt).session = s.session ∨
    (handlePacket s pkt).session = (s.pendingUser, true, s.connected) ∨
    (pkt.command = cmdError ∧ s.usernameRef = [] ∧
      (handlePacket s pkt).session = (s.usernameRef, s.inChat, false)) := by
  have hsession (s : Chat) : s.session = s.frame.1 := rfl
  rw [hsession, hsession]
  rcases frame_handlePacket s pkt with h | h | ⟨herror, hme, h⟩ | ⟨-, info, h⟩
  · exact .inl (by rw [h])
  · exact .inr (.inl (by rw [h]))
  · exact .inr (.inr ⟨herror, hme, by rw [h]⟩)
  · exact .inl (by rw [h])

/-! ### The invariant of the hook -/

/-- `close()` was called, or the connection is gone. -/
def Socket.Closing (socket : Socket) : Prop :=
  socket.readyState = .closing ∨ socket.readyState = .closed

theorem Socket.closing_close (socket : Socket) : socket.close.Closing := by
  unfold Socket.close
  split
  · exact .inl rfl
  · exact .inl rfl
  · case h_3 hstate => exact .inl hstate
  · case h_4 hstate => exact .inr hstate

theorem Socket.Closing.after {socket : Socket} (h : socket.Closing) (e : SocketEvent) :
    (e.after socket).Closing := by
  rcases e with - | - | - | - | -
  · rcases h with h | h
    · left; simp [SocketEvent.after, h]
    · right; simp [SocketEvent.after, h]
  · exact h
  · exact .inl rfl
  · exact h
  · exact .inr rfl

/-- Such a socket is not open: nothing is sent into it, and no message comes. -/
theorem Socket.Closing.not_open {socket : Socket} (h : socket.Closing) :
    socket.readyState ≠ .open := by
  rcases h with h | h <;> rw [h] <;> simp

namespace Hook

/-- A socket that `ws.current` no longer names was closed, and who is logged
in is in the chat. -/
structure Ok (h : Hook) : Prop where
  superseded : ∀ (i : ℕ) (socket : Socket), h.sockets[i]? = some socket → h.current ≠ some i →
    socket.Closing
  loggedIn : h.chat.usernameRef ≠ [] → h.chat.inChat = true
  connected : h.chat.connected = decide (h.wsStatus = .connected)

/-- What the invariant reads. -/
def frame (h : Hook) : List Socket × Option ℕ × (List Char × Bool × Bool) × WsStatus :=
  (h.sockets, h.current, h.chat.session, h.wsStatus)

theorem Ok.of_frame {h h' : Hook} (hok : h.Ok) (heq : h'.frame = h.frame) : h'.Ok := by
  simp only [frame, Chat.session, Prod.mk.injEq] at heq
  obtain ⟨hsockets, hcurrent, ⟨husername, hchat, hconnected⟩, hstatus⟩ := heq
  constructor
  · rw [hsockets, hcurrent]
    exact hok.superseded
  · rw [husername, hchat]
    exact hok.loggedIn
  · rw [hconnected, hstatus]
    exact hok.connected

@[simp] theorem frame_send (h : Hook) (r : Request) : (h.send r).frame = h.frame := by
  unfold send
  split <;> rfl

@[simp] theorem frame_addMessage (h : Hook) (m : Message) : (h.addMessage m).frame = h.frame := rfl

theorem ok_init : init.Ok := by
  constructor
  · intro i socket hget
    cases hget
  · intro hname
    exact absurd rfl hname
  · rfl

theorem Ok.setWsStatus {h : Hook} (hok : h.Ok) (status : WsStatus) : (h.setWsStatus status).Ok :=
  ⟨hok.superseded, hok.loggedIn, rfl⟩

theorem Ok.backToLogin {h : Hook} (hok : h.Ok) (error : List Char) : (h.backToLogin error).Ok :=
  ⟨hok.superseded, fun hname => absurd rfl hname, hok.connected⟩

/-- Behind `ws.current?.close()` no socket is in use. -/
theorem Ok.closing_of_closeCurrent {h : Hook} (hok : h.Ok) {i : ℕ} {socket : Socket}
    (hget : h.closeCurrent.sockets[i]? = some socket) : socket.Closing := by
  unfold closeCurrent at hget
  split at hget
  · case h_1 hcurrent => exact hok.superseded i socket hget (by rw [hcurrent]; simp)
  · case h_2 j hcurrent =>
    simp only [List.getElem?_modify] at hget
    obtain ⟨old, hold, hsocket⟩ := Option.map_eq_some_iff.mp hget
    split at hsocket
    · subst hsocket
      exact old.closing_close
    · case isFalse hne =>
      subst hsocket
      exact hok.superseded i old hold (by rw [hcurrent]; simpa using hne)

theorem Ok.closeCurrent {h : Hook} (hok : h.Ok) : h.closeCurrent.Ok := by
  refine ⟨fun i socket hget _ => hok.closing_of_closeCurrent hget, ?_, ?_⟩
  · unfold Hook.closeCurrent
    split <;> exact hok.loggedIn
  · unfold Hook.closeCurrent
    split <;> exact hok.connected

theorem Ok.connect {h : Hook} (hok : h.Ok) (user host port : List Char) :
    (h.connect user host port).Ok := by
  refine ⟨fun i socket hget hne => ?_, fun hname => absurd rfl hname, rfl⟩
  have hi : i ≠ h.closeCurrent.sockets.length := fun heq => hne (by rw [heq]; rfl)
  change (h.closeCurrent.sockets ++ [Socket.new host port])[i]? = some socket at hget
  rw [List.getElem?_append] at hget
  split at hget
  · exact hok.closing_of_closeCurrent hget
  · obtain ⟨hlt, -⟩ := List.getElem?_eq_some_iff.mp hget
    rw [List.length_singleton] at hlt
    omega

theorem Ok.logout {h : Hook} (hok : h.Ok) : h.logout.Ok := by
  refine Ok.backToLogin (Ok.closeCurrent (hok.of_frame ?_)) []
  rw [frame_send]
  rfl

theorem Ok.onPacket {h : Hook} (hok : h.Ok) (pkt : ParsedPacket) : (h.onPacket pkt).Ok := by
  have hbranch (hok' : ({ h with chat := handlePacket h.chat pkt } : Hook).Ok) :
      (h.onPacket pkt).Ok := by
    unfold Hook.onPacket
    split
    · exact hok'.of_frame rfl
    · split
      · exact (hok'.setWsStatus .disconnected).closeCurrent
      · exact hok'
  obtain hsame | hwelcome | ⟨herror, hname, hrefused⟩ := session_handlePacket h.chat pkt
  · exact hbranch (hok.of_frame (by rw [frame, frame, hsame]))
  · simp only [Chat.session, Prod.mk.injEq] at hwelcome
    exact hbranch ⟨hok.superseded, fun _ => hwelcome.2.1, hwelcome.2.2.trans hok.connected⟩
  · simp only [Chat.session, Prod.mk.injEq] at hrefused
    unfold Hook.onPacket
    rw [if_neg (fun hok => by rw [herror] at hok; exact absurd hok.1 (by decide)),
      if_pos ⟨herror, hname⟩]
    refine Ok.closeCurrent ⟨hok.superseded, fun hne => absurd ?_ hne, rfl⟩
    exact hrefused.1.trans hname

/-- The event of a socket moves that socket on. -/
theorem Ok.moved {h : Hook} (hok : h.Ok) {i : ℕ} {socket : Socket}
    (hget : h.sockets[i]? = some socket) (e : SocketEvent) :
    ({ h with sockets := h.sockets.set i (e.after socket) } : Hook).Ok := by
  refine ⟨fun j moved hmoved hne => ?_, hok.loggedIn, hok.connected⟩
  rw [List.getElem?_set] at hmoved
  split at hmoved
  · case isTrue hij =>
    subst hij
    split at hmoved
    · rw [← Option.some.inj hmoved]
      exact (hok.superseded i socket hget hne).after e
    · cases hmoved
  · exact hok.superseded j moved hmoved hne

theorem Ok.handler {h : Hook} (hok : h.Ok) (socket : Socket) (e : SocketEvent) :
    (h.handler socket e).Ok := by
  rcases e with - | data | - | - | -
  · change (h.onopen socket).Ok
    unfold onopen
    simp only
    split
    · exact (hok.setWsStatus .connected).of_frame rfl
    · exact hok.setWsStatus .connected
  · rcases data with - | pkt
    · exact hok
    · exact hok.onPacket pkt
  · exact hok
  · exact (hok.setWsStatus .disconnected).of_frame rfl
  · have hstopped : ((h.setWsStatus .disconnected).stopPolling).Ok :=
      (hok.setWsStatus .disconnected).of_frame rfl
    change h.onclose.Ok
    unfold onclose
    simp only
    split
    · exact hstopped.backToLogin connectionLost
    · exact hstopped

theorem Ok.step {h h' : Hook} {input : Input} (hok : h.Ok) (hs : h.step input = some h') :
    h'.Ok := by
  rcases input with ⟨user, host, port⟩ | - | text | ⟨target, text⟩ | status | - | target | name |
    info | ⟨i, e⟩ | - | user
  case connect =>
    obtain rfl := Option.some.inj hs
    exact hok.connect user host port
  case logout =>
    obtain rfl := Option.some.inj hs
    exact hok.logout
  case socket =>
    obtain ⟨socket, hget, hdeliver⟩ := Option.bind_eq_some_iff.mp hs
    split at hdeliver
    · obtain rfl := Option.some.inj hdeliver
      exact (hok.moved hget e).handler _ e
    · cases hdeliver
  case poll =>
    simp only [Hook.step] at hs
    split at hs
    · obtain rfl := Option.some.inj hs
      split
      · exact hok.of_frame (frame_send _ _)
      · exact hok
    · cases hs
  case delayedList =>
    simp only [Hook.step] at hs
    split at hs
    · obtain rfl := Option.some.inj hs
      exact hok.of_frame ((frame_send _ _).trans rfl)
    · cases hs
  -- the other actions touch nothing of the session
  all_goals
    obtain rfl := Option.some.inj hs
    refine hok.of_frame ?_
  · exact (frame_addMessage _ _).trans (frame_send _ _)
  · exact (frame_addMessage _ _).trans (frame_send _ _)
  · exact (frame_send _ _).trans rfl
  · exact frame_send _ _
  · exact (frame_send _ _).trans rfl
  · rfl
  · rfl

/-! ### Superseded sockets -/

/-- What the user sees of the session, and its polling, stay. -/
structure SameSession (h h' : Hook) : Prop where
  phase : h'.chat.inChat = h.chat.inChat
  username : h'.chat.username = h.chat.username
  wsStatus : h'.wsStatus = h.wsStatus
  loginError : h'.chat.loginError = h.chat.loginError
  users : h'.chat.users = h.chat.users
  messages : h'.chat.messages = h.chat.messages
  polling : h.pollTimer = true → h'.pollTimer = true

/-- An event of a socket that is no longer `ws.current` changes nothing of the
session. -/
def Inert (h : Hook) (input : Input) : Prop :=
  ∀ (i : ℕ) (e : SocketEvent) (h' : Hook), input = .socket i e → h.current ≠ some i →
    h.step input = some h' → SameSession h h'

/-- What the handler of the event sets is so already.  `onclose` logs out only
who is logged in and did not ask for it. -/
def NothingToChange (h : Hook) : SocketEvent → Prop
  | .open => h.wsStatus = .connected
  | .message _ | .closing => True
  | .error => h.wsStatus = .disconnected ∧ h.chat.loginError = noBridge
  | .close => h.wsStatus = .disconnected ∧ h.pollTimer = false ∧
      (h.chat.usernameRef = [] ∨ h.voluntaryLogout = true)

/-- An event of a superseded socket finds nothing to change. -/
def Settled (h : Hook) (input : Input) : Prop :=
  ∀ (i : ℕ) (e : SocketEvent), input = .socket i e → h.current ≠ some i → h.NothingToChange e

theorem sameSession_onopen_iff (h : Hook) (sockets : List Socket) (socket : Socket) :
    SameSession h ({ h with sockets }.onopen socket) ↔ h.wsStatus = .connected := by
  have hconnected : ({ h with sockets }.onopen socket).wsStatus = .connected := by
    unfold onopen
    simp only
    split <;> rfl
  constructor
  · intro hsame
    exact hsame.wsStatus.symm.trans hconnected
  · intro hstatus
    unfold onopen
    simp only
    split <;> exact ⟨rfl, rfl, hstatus.symm, rfl, rfl, rfl, fun hpoll => hpoll⟩

theorem sameSession_onerror_iff (h : Hook) (sockets : List Socket) :
    SameSession h ({ h with sockets }.onerror) ↔
      h.wsStatus = .disconnected ∧ h.chat.loginError = noBridge := by
  constructor
  · intro hsame
    exact ⟨hsame.wsStatus.symm, hsame.loginError.symm⟩
  · rintro ⟨hstatus, herror⟩
    exact ⟨rfl, rfl, hstatus.symm, herror.symm, rfl, rfl, fun hpoll => hpoll⟩

theorem sameSession_onclose_iff {h : Hook} (hok : h.Ok) (sockets : List Socket) :
    SameSession h ({ h with sockets }.onclose) ↔
      h.wsStatus = .disconnected ∧ h.pollTimer = false ∧
        (h.chat.usernameRef = [] ∨ h.voluntaryLogout = true) := by
  have hclose : { h with sockets }.onclose =
      if h.chat.usernameRef ≠ [] ∧ !h.voluntaryLogout then
        (({ h with sockets }.setWsStatus .disconnected).stopPolling).backToLogin connectionLost
      else ({ h with sockets }.setWsStatus .disconnected).stopPolling := rfl
  have hpolling {h' : Hook} (hsame : SameSession h h') (hstopped : h'.pollTimer = false) :
      h.pollTimer = false := by
    rcases hpoll : h.pollTimer
    · rfl
    · exact (hsame.polling hpoll).symm.trans hstopped
  rw [hclose]
  split
  · case isTrue hloggedIn =>
    obtain ⟨hname, hvoluntary⟩ := hloggedIn
    constructor
    · intro hsame
      -- who is logged in is in the chat, and the handler leaves it
      exact absurd (hsame.phase.trans (hok.loggedIn hname)) (by simp [backToLogin])
    · rintro ⟨-, -, hnobody | hasked⟩
      · exact absurd hnobody hname
      · rw [hasked] at hvoluntary
        cases hvoluntary
  · case isFalse hnot =>
    constructor
    · intro hsame
      refine ⟨hsame.wsStatus.symm, hpolling hsame rfl, ?_⟩
      by_contra hne
      rw [not_or] at hne
      exact hnot ⟨hne.1, by simpa using hne.2⟩
    · rintro ⟨hstatus, hpoll, -⟩
      refine ⟨rfl, rfl, hstatus.symm, rfl, rfl, rfl, fun hrunning => ?_⟩
      rw [hpoll] at hrunning
      cases hrunning

/-- **The exact condition, for one step.** -/
theorem inert_iff {h : Hook} (hok : h.Ok) {h' : Hook} {input : Input}
    (hs : h.step input = some h') :
    Inert h input ↔ Settled h input := by
  have hstep (i : ℕ) (e : SocketEvent) (hinput : input = .socket i e)
      (hstale : h.current ≠ some i) : SameSession h h' ↔ h.NothingToChange e := by
    subst hinput
    obtain ⟨socket, hget, hdeliver⟩ := Option.bind_eq_some_iff.mp hs
    split at hdeliver
    · case isTrue hpossible =>
      obtain rfl := Option.some.inj hdeliver
      have hshut := (hok.superseded i socket hget hstale).not_open
      rcases e with - | data | - | - | -
      · exact sameSession_onopen_iff h _ _
      · exact absurd (eq_of_beq hpossible) hshut
      · exact absurd (eq_of_beq hpossible) hshut
      · exact sameSession_onerror_iff h _
      · exact sameSession_onclose_iff hok _
    · cases hdeliver
  constructor
  · intro hinert i e hinput hstale
    exact (hstep i e hinput hstale).mp (hinert i e h' hinput hstale hs)
  · intro hnothing i e h'' hinput hstale hs'
    obtain rfl := Option.some.inj (hs.symm.trans hs')
    exact (hstep i e hinput hstale).mpr (hnothing i e hinput hstale)

/-- **Superseded sockets are inert** in a run exactly when each of their
events finds nothing to change. -/
theorem stepsAll_inert_iff {tr : List (Hook × Input)} {h : Hook}
    (hrun : Run step init tr h) :
    StepsAll Inert tr ↔ StepsAll Settled tr := by
  induction hrun with
  | start => simp
  | step hrun hs ih =>
    have hok := hrun.invariant ok_init fun _ _ _ hok => hok.step
    rw [stepsAll_cons, stepsAll_cons, inert_iff hok hs, ih]

instance (h : Hook) : DecidablePred h.NothingToChange
  | .open => inferInstanceAs (Decidable (h.wsStatus = .connected))
  | .message _ | .closing => isTrue trivial
  | .error => inferInstanceAs (Decidable (_ ∧ _))
  | .close => inferInstanceAs (Decidable (_ ∧ _ ∧ (_ ∨ _)))

/-- `Settled`, computed. -/
def settled (h : Hook) : Input → Bool
  | .socket i e => decide (h.current = some i ∨ h.NothingToChange e)
  | _ => true

/-- The bridge refuses the second socket, and the first closes after that. -/
theorem stepsAll_inert_iff_refused :
    ∃ tr h, Run step init tr h ∧
      tr.map Prod.snd = [.socket 0 .close, .socket 1 .close, .socket 1 .error,
        .connect "bob".toList "h".toList "p".toList, .socket 0 .open,
        .connect "ana".toList "h".toList "p".toList] ∧ StepsAll Inert tr := by
  have hexec : (execIf settled step init
      [.connect "ana".toList "h".toList "p".toList, .socket 0 .open,
        .connect "bob".toList "h".toList "p".toList, .socket 1 .error, .socket 1 .close,
        .socket 0 .close]).any (fun _ => true) = true := by
    decide
  obtain ⟨tr, h, hrun, hlabels, hcheck, -⟩ := exists_run_of_execIf hexec
  refine ⟨tr, h, hrun, hlabels, (stepsAll_inert_iff hrun).mpr ?_⟩
  intro x hx i e hinput hstale
  have hsettled := hcheck x hx
  rw [hinput] at hsettled
  exact (of_decide_eq_true hsettled).resolve_left hstale

/-- Two users one after the other on the same page. -/
def twoLogins : List Input :=
  [.connect "ana".toList "h".toList "p".toList, .socket 0 .open,
    .socket 0 (.message (some ⟨cmdOk, 10, Text.server, [], "Bienvenido".toList⟩)), .logout,
    .connect "bob".toList "h".toList "p".toList, .socket 1 .open,
    .socket 1 (.message (some ⟨cmdOk, 10, Text.server, [], "Bienvenido".toList⟩))]

/-- The close of the first socket, when it comes now, logs the second user
out: superseded sockets are not inert. -/
theorem not_always_inert :
    ¬ ∀ (tr : List (Hook × Input)) (h : Hook), Run step init tr h → StepsAll Inert tr := by
  intro hall
  have hexec : (exec step init twoLogins).any (fun h => h.current != some 0 &&
      (h.step (.socket 0 .close)).any fun h' => h'.chat.inChat != h.chat.inChat) = true := by
    decide
  obtain ⟨tr, h, hrun, -, hlate⟩ := exists_run_of_exec hexec
  rw [Bool.and_eq_true, Option.any_eq_true] at hlate
  obtain ⟨hstale, h', hs, hphase⟩ := hlate
  have hinert := (stepsAll_cons.mp (hall _ h' (hrun.step hs))).1
  have hsame := hinert 0 .close h' rfl (by simpa using hstale) hs
  rw [hsame.phase] at hphase
  simp at hphase

end Hook

end ChatSystem
