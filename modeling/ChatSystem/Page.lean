/-
ChatSystem/Page.lean

The page: which calls of the hook `App.js` lets the user make, and which
messages it shows.

    LoginScreen ──handleSubmit──▸ connect
    ChatScreen  ──handleSend, buttons──▸ sendBroadcast, sendDirect, …, logout

A run of the page is a run of the hook whose calls come from gestures of the
user on the screen that is shown; the events of sockets and timers come as they
like.  A change of the state is rendered before the next event.

The hook keeps the user twice, as state for the screen (`username`, `phase`) and
in a ref for its handlers (`usernameRef`).  `paged_of_run` says that the two never
come apart, that the chat is shown only over a socket that has not closed yet, and
that every event sends exactly what it asks for while the socket is open: in the
name on the screen, but for the REGISTER, which has that of the form, and the `LIST`
that waits for its 200 ms, which keeps the name it was set for.  Between the peer's
closing handshake and `close` the socket is not open and the chat is still there;
what is asked for then is dropped.
`one_tab_of_run` says where a message can be read.
-/
import ChatSystem.Handshake
import ChatSystem.Sessions

namespace ChatSystem

open Lts

/-! ### The gestures -/

/-- What the user does on the page. -/
inductive Gesture
  | submit (user host port : List Char)
  | send (input : List Char)
  | status (status : List Char)
  | refresh
  | info (name : List Char)
  | closeInfo
  | chat (name : List Char)
  | logout
deriving DecidableEq, Repr

inductive PageEvent
  | gesture (g : Gesture)
  | socket (i : ℕ) (e : SocketEvent)
  | poll
  | delayedList (user : List Char)
deriving DecidableEq, Repr

/-- It asks the server for something, or for nothing, and neither comes nor
goes. -/
def PageEvent.IsAsk : PageEvent → Prop
  | .gesture (.submit _ _ _) | .gesture .logout | .socket _ _ => False
  | _ => True

namespace Hook

/-- `handleSend`, with what is in the input field. -/
def handleSend (h : Hook) (input : List Char) : Option Input :=
  let text := Js.trim input
  if text = [] then none
  else if h.activeChat = Text.all then some (.sendBroadcast text)
  else some (.sendDirect h.activeChat text)

/-- A user of the sidebar. -/
def Lists (h : Hook) (name : List Char) : Prop := ∃ u ∈ h.chat.users, u.name = name

instance (h : Hook) (name : List Char) : Decidable (h.Lists name) :=
  inferInstanceAs (Decidable (∃ u ∈ _, _))

/-- The call a gesture on the `ChatScreen` makes. -/
def chatCall (h : Hook) : Gesture → Option Input
  | .submit _ _ _ => none
  | .send input => h.handleSend input
  | .status status =>
    if status = Text.active ∨ status = Text.busy ∨ status = Text.inactive then
      some (.changeStatus status)
    else none
  | .refresh => some .listUsers
  -- the button beside a user, and the one above a direct chat
  | .info name =>
    if h.Lists name ∨ h.activeChat ≠ Text.all ∧ name = h.activeChat then some (.getInfo name)
    else none
  | .closeInfo => if h.chat.userInfo.isSome then some (.setUserInfo none) else none
  | .chat name => if name = Text.all ∨ h.Lists name then some (.setActiveChat name) else none
  | .logout => some .logout

/-- The call a gesture on the `LoginScreen` makes; the form is disabled while
it connects. -/
def loginCall (h : Hook) : Gesture → Option Input
  | .submit user host port =>
    if h.wsStatus = .connecting then none
    else (handleSubmit user host port).map fun (user, host, port) => .connect user host port
  | _ => none

/-- `App`: one of the two screens. -/
def call (h : Hook) (g : Gesture) : Option Input :=
  if h.chat.inChat then h.chatCall g else h.loginCall g

def input (h : Hook) : PageEvent → Option Input
  | .gesture g => h.call g
  | .socket i e => some (.socket i e)
  | .poll => some .poll
  | .delayedList user => some (.delayedList user)

def pageStep (h : Hook) (e : PageEvent) : Option Hook := (h.input e).bind h.step

/-! ### What is shown -/

/-- The filter of `visibleMessages`, for the tab `tab`. -/
def visibleIn (username tab : List Char) (m : Message) : Bool :=
  if tab = Text.all then m.type = .broadcast ∨ m.type = .system ∨ m.type = .error
  else m.type = .direct ∧ (m.sender = tab ∧ m.target = some username ∨
    m.sender = username ∧ m.target = some tab)

def visibleMessages (h : Hook) : List Message :=
  h.chat.messages.filter (visibleIn h.chat.username h.activeChat)

/-! ### What the calls read and write -/

theorem isOpen_iff {h : Hook} : h.isOpen = true ↔
    ∃ i socket, h.current = some i ∧ h.sockets[i]? = some socket ∧ socket.readyState = .open := by
  unfold isOpen
  rw [Option.any_eq_true]
  constructor
  · rintro ⟨socket, hsocket, hopen⟩
    obtain ⟨i, hi, hget⟩ := Option.bind_eq_some_iff.mp hsocket
    exact ⟨i, socket, hi, hget, of_decide_eq_true hopen⟩
  · rintro ⟨i, socket, hi, hget, hopen⟩
    refine ⟨socket, ?_, decide_eq_true hopen⟩
    rw [hi, Option.bind_some, hget]

theorem readyState_of_open {h : Hook} {i : ℕ} {socket : Socket} (hcurrent : h.current = some i)
    (hget : h.sockets[i]? = some socket) (hopen : h.isOpen = true) : socket.readyState = .open := by
  obtain ⟨j, other, hj, hother, hstate⟩ := isOpen_iff.mp hopen
  obtain rfl : j = i := Option.some.inj (hj.symm.trans hcurrent)
  obtain rfl : other = socket := Option.some.inj (hother.symm.trans hget)
  exact hstate

end Hook

/-! ### What a packet does -/

/-- The bridge says that the server is connected. -/
def ParsedPacket.Ready (pkt : ParsedPacket) : Prop :=
  pkt.command = 0 ∧ pkt.payload = "tcp_ok".toList

/-- The server says that the user is in. -/
def ParsedPacket.Welcomes (pkt : ParsedPacket) : Prop :=
  pkt.command = cmdOk ∧ Js.startsWith pkt.payload "Bienvenido".toList = true

instance (pkt : ParsedPacket) : Decidable pkt.Ready := inferInstanceAs (Decidable (_ ∧ _))

instance (pkt : ParsedPacket) : Decidable pkt.Welcomes := inferInstanceAs (Decidable (_ ∧ _))

/-- The user: on the screen, in the ref, and in the form. -/
def Chat.user (s : Chat) : Bool × List Char × List Char × List Char :=
  (s.inChat, s.usernameRef, s.username, s.pendingUser)

/-- A direct message is to someone. -/
def Message.Addressed (m : Message) : Prop :=
  m.type = .direct → ∃ target, m.target = some target ∧ target ≠ Text.all

/-- **What `handlePacket` does** with the user, the messages and the socket. -/
inductive Handled (s : Chat) (pkt : ParsedPacket) : Chat → Prop
  | ready (hready : pkt.Ready) : Handled s pkt (s.send (webRegister s.pendingUser))
  | welcome (hwelcome : pkt.Welcomes) : Handled s pkt { s with
      usernameRef := s.pendingUser
      username := s.pendingUser
      inChat := true
      myStatus := Text.active
      messages := [] }
  | other {s' : Chat} {ms : List Message} (hready : ¬ pkt.Ready) (hwelcome : ¬ pkt.Welcomes)
      (huser : s'.user = s.user) (hsent : s'.sent = s.sent)
      (hmessages : s'.messages = s.messages ++ ms)
      (haddressed : ∀ m ∈ ms, m.Addressed) : Handled s pkt s'

namespace Hook

/-- What only logging in and out and the sockets change. -/
def core (h : Hook) :
    List Socket × Option ℕ × (Bool × List Char × List Char × List Char) × Bool × Bool :=
  (h.sockets, h.current, h.chat.user, h.voluntaryLogout, h.pollTimer)

/-- What an event asks of the server: in the name on the screen, but for the
REGISTER and the `LIST` that was delayed. -/
def wants (h : Hook) : PageEvent → Option Request
  | .gesture (.send input) =>
    if Js.trim input = [] then none
    else if h.activeChat = Text.all then
      some (ChatSystem.sendBroadcast h.chat.username (Js.trim input))
    else some (ChatSystem.sendDirect h.chat.username h.activeChat (Js.trim input))
  | .gesture (.status status) => some (ChatSystem.changeStatus h.chat.username status)
  | .gesture .refresh | .poll => some (ChatSystem.listUsers h.chat.username)
  | .gesture (.info name) => some (ChatSystem.getInfo h.chat.username name)
  | .gesture .logout => some (ChatSystem.logout h.chat.username)
  | .socket _ (.message (some pkt)) =>
    if pkt.Ready then some (webRegister h.chat.pendingUser) else none
  | .delayedList user => some (ChatSystem.listUsers user)
  | _ => none

/-- What is sent for it. -/
def request (h : Hook) (e : PageEvent) : Option Request := if h.isOpen then h.wants e else none

end Hook

section Packets

variable {s : Chat} {pkt : ParsedPacket}

/-- Nothing, or a line of the page itself. -/
theorem Handled.line (hready : ¬ pkt.Ready) (hwelcome : ¬ pkt.Welcomes) {s' : Chat}
    (huser : s'.user = s.user) (hsent : s'.sent = s.sent)
    (hmessages : s'.messages = s.messages ∨
      ∃ m, m.type ≠ .direct ∧ s'.messages = s.messages ++ [m]) : Handled s pkt s' := by
  rcases hmessages with hsame | ⟨m, hline, hmore⟩
  · have hnothing : s'.messages = s.messages ++ [] := by rw [hsame, List.append_nil]
    exact .other hready hwelcome huser hsent hnothing (by simp)
  · refine .other hready hwelcome huser hsent hmore fun m' hm' hdirect => ?_
    obtain rfl := List.mem_singleton.mp hm'
    exact absurd hdirect hline

theorem handled_msg (hready : ¬ pkt.Ready) (hwelcome : ¬ pkt.Welcomes) :
    Handled s pkt (handleMsg s pkt) := by
  unfold handleMsg
  split
  · split
    · exact .line hready hwelcome rfl rfl (.inr ⟨becameInactive, by decide, rfl⟩)
    split
    · exact .line hready hwelcome rfl rfl (.inr ⟨becameActive, by decide, rfl⟩)
    · exact .line hready hwelcome rfl rfl (.inr ⟨_, by simp, rfl⟩)
  split
  · exact .line hready hwelcome rfl rfl (.inl rfl)
  · refine .other hready hwelcome rfl rfl rfl fun m hm hdirect => ?_
    obtain rfl := List.mem_singleton.mp hm
    refine ⟨pkt.target, rfl, fun hall => ?_⟩
    simp [hall] at hdirect

theorem handled_userList (hready : ¬ pkt.Ready) (hwelcome : ¬ pkt.Welcomes) (payload : List Char) :
    Handled s pkt (handleUserList s payload) := by
  simp only [handleUserList]
  split
  · exact .line hready hwelcome rfl rfl (.inl rfl)
  split
  · exact .line hready hwelcome rfl rfl (.inl rfl)
  split
  · exact .line hready hwelcome rfl rfl (.inr ⟨becameInactive, by decide, rfl⟩)
  split
  · exact .line hready hwelcome rfl rfl (.inr ⟨becameActive, by decide, rfl⟩)
  · exact .line hready hwelcome rfl rfl (.inl rfl)

theorem handled_handlePacket (s : Chat) (pkt : ParsedPacket) :
    Handled s pkt (handlePacket s pkt) := by
  unfold handlePacket
  split
  · case isTrue hready => exact .ready hready
  case isFalse hready =>
    split
    · case isTrue hok =>
      unfold handleOk
      split
      · case isTrue hwelcome => exact .welcome ⟨hok, hwelcome⟩
      · case isFalse hno =>
        have hwelcome : ¬ pkt.Welcomes := fun h => hno h.2
        split
        · exact .line hready hwelcome rfl rfl (.inr ⟨_, by simp, rfl⟩)
        · exact .line hready hwelcome rfl rfl (.inl rfl)
    · case isFalse hno =>
      have hwelcome : ¬ pkt.Welcomes := fun h => hno h.1
      split
      · unfold handleError
        split
        · exact .line hready hwelcome rfl rfl (.inl rfl)
        · exact .line hready hwelcome rfl rfl (.inr ⟨_, by simp, rfl⟩)
      split
      · exact handled_msg hready hwelcome
      split
      · exact handled_userList hready hwelcome _
      split
      · exact .line hready hwelcome rfl rfl (.inl rfl)
      split
      · exact .line hready hwelcome rfl rfl (.inr ⟨_, by simp, rfl⟩)
      · exact .line hready hwelcome rfl rfl (.inl rfl)

end Packets

/-! ### The invariant of the page -/

namespace Hook

/-- `ws.current` is open, or was until its peer began to close it. -/
def Connected (h : Hook) : Prop :=
  ∃ i socket, h.current = some i ∧ h.sockets[i]? = some socket ∧
    (socket.readyState = .open ∨ socket.readyState = .closing)

/-- The screen and the handlers agree on the user, and the chat is shown over
a socket that has not closed. -/
structure Paged (h : Hook) : Prop where
  ok : h.Ok
  loggedIn : h.chat.inChat = true ↔ h.chat.usernameRef ≠ []
  username : h.chat.username = h.chat.usernameRef
  pending : h.chat.inChat = true → h.chat.usernameRef = h.chat.pendingUser
  named : h.current ≠ none → h.chat.pendingUser ≠ []
  live : h.chat.inChat = true → h.Connected
  willing : h.chat.inChat = true → h.voluntaryLogout = false
  staying : h.voluntaryLogout = true → ∀ (i : ℕ) (socket : Socket), h.current = some i →
    h.sockets[i]? = some socket → socket.Closing
  polling : h.pollTimer = true → h.chat.inChat = true
  tab : h.chat.inChat = false → h.activeChat = Text.all
  addressed : ∀ m ∈ h.chat.messages, m.Addressed

/-- What such an event does. -/
structure Asked (h : Hook) (e : PageEvent) (h' : Hook) : Prop where
  core : h'.core = h.core
  connects : h'.connects = h.connects
  tab : h.chat.inChat = false → h'.activeChat = h.activeChat
  sent : h'.chat.sent = h.chat.sent ++ (h.request e).toList
  later : h'.listLater ⊆ h.listLater
  messages : ∃ ms, h'.chat.messages = h.chat.messages ++ ms ∧ ∀ m ∈ ms, m.Addressed

/-- A step of the page. -/
inductive PageMove (h : Hook) : PageEvent → Hook → Prop
  | connect {user host port u s p} (hlogin : h.chat.inChat = false)
      (hform : handleSubmit user host port = some (u, s, p)) :
      PageMove h (.gesture (.submit user host port)) (h.connect u s p)
  | logout (hchat : h.chat.inChat = true) : PageMove h (.gesture .logout) h.logout
  | ask {e : PageEvent} {h' : Hook} (hcall : e.IsAsk)
      (hchat : h.chat.inChat = true ∨ ∃ user, e = .delayedList user) (hasked : h.Asked e h') :
      PageMove h e h'
  | socket {i : ℕ} {e : SocketEvent} {socket : Socket} (hget : h.sockets[i]? = some socket)
      (hpossible : e.possible socket = true) : PageMove h (.socket i e)
        ({ h with sockets := h.sockets.set i (e.after socket) }.handler (e.after socket) e)

variable {h h' h₁ : Hook} {e : PageEvent} {r : Request}

theorem request_eq_some : h.request e = some r ↔ h.isOpen = true ∧ h.wants e = some r := by
  unfold request
  split <;> simp_all

theorem request_of_wants_none (hr : h.wants e = none) : h.request e = none := by
  unfold request
  split
  · exact hr
  · rfl

theorem sent_of_wants_none (hr : h.wants e = none) (hsent : h'.chat.sent = h.chat.sent) :
    h'.chat.sent = h.chat.sent ++ (h.request e).toList := by
  rw [request_of_wants_none hr, hsent]
  exact (List.append_nil _).symm

/-- `send` touches nothing but what is sent. -/
theorem send_eq (h : Hook) (r : Request) : h.send r =
    { h with chat := { h.chat with
      sent := h.chat.sent ++ (if h.isOpen then some r else none).toList } } := by
  unfold send
  split
  · rfl
  · rw [Option.toList_none, List.append_nil]

/-- The socket is open or not whatever else changes. -/
theorem isOpen_of_core (hcore : h₁.core = h.core) : h₁.isOpen = h.isOpen := by
  rw [isOpen, show h₁.sockets = h.sockets from congrArg Prod.fst hcore,
    show h₁.current = h.current from congrArg (·.2.1) hcore, isOpen]

theorem Asked.nothing (hcore : h'.core = h.core) (hconnects : h'.connects = h.connects)
    (htab : h.chat.inChat = false → h'.activeChat = h.activeChat) (hr : h.wants e = none)
    (hsent : h'.chat.sent = h.chat.sent) (hlater : h'.listLater ⊆ h.listLater)
    (hmessages : h'.chat.messages = h.chat.messages) : h.Asked e h' :=
  ⟨hcore, hconnects, htab, sent_of_wants_none hr hsent, hlater, [],
    by rw [hmessages, List.append_nil], by simp⟩

/-- A request. -/
theorem Asked.of_send (hcore : h₁.core = h.core) (hconnects : h₁.connects = h.connects)
    (htab : h₁.activeChat = h.activeChat) (hsent : h₁.chat.sent = h.chat.sent)
    (hlater : h₁.listLater ⊆ h.listLater) (hmessages : h₁.chat.messages = h.chat.messages)
    (hr : h.wants e = some r) : h.Asked e (h₁.send r) := by
  rw [send_eq]
  refine ⟨hcore, hconnects, fun _ => htab, ?_, hlater, [], ?_, by simp⟩
  · show h₁.chat.sent ++ _ = _
    rw [hsent, isOpen_of_core hcore, request, hr]
  · show h₁.chat.messages = _
    rw [hmessages, List.append_nil]

/-- With a message of the page. -/
theorem Asked.addMessage (ha : h.Asked e h') {m : Message} (hm : m.Addressed) :
    h.Asked e (h'.addMessage m) := by
  obtain ⟨ms, hms, hall⟩ := ha.messages
  refine ⟨ha.core, ha.connects, ha.tab, ha.sent, ha.later, ms ++ [m], ?_, ?_⟩
  · show h'.chat.messages ++ [m] = _
    rw [hms, List.append_assoc]
  · intro m' hm'
    rcases List.mem_append.mp hm' with hm' | hm'
    · exact hall m' hm'
    · obtain rfl := List.mem_singleton.mp hm'
      exact hm

/-- A gesture in the chat. -/
theorem Paged.chat_move (hp : h.Paged) (hchat : h.chat.inChat = true) {g : Gesture} {input : Input}
    (hcall : h.chatCall g = some input) (hs : h.step input = some h') :
    h.PageMove (.gesture g) h' := by
  cases g with
  | submit user host port => cases hcall
  | send text =>
    simp only [chatCall, handleSend] at hcall
    split at hcall
    · cases hcall
    case isFalse htext =>
      split at hcall
      · case isTrue hall =>
        obtain rfl := Option.some.inj hcall
        obtain rfl := Option.some.inj hs
        refine .ask trivial (.inl hchat)
          (Asked.addMessage (.of_send rfl rfl rfl rfl (List.Subset.refl _) rfl ?_)
            fun hdirect => ?_)
        · rw [wants, if_neg htext, if_pos hall, hp.username]
        · cases hdirect
      · case isFalse hdirect =>
        obtain rfl := Option.some.inj hcall
        obtain rfl := Option.some.inj hs
        refine .ask trivial (.inl hchat)
          (Asked.addMessage (.of_send rfl rfl rfl rfl (List.Subset.refl _) rfl ?_) fun _ => ?_)
        · rw [wants, if_neg htext, if_neg hdirect, hp.username]
        · exact ⟨_, rfl, hdirect⟩
  | status status =>
    simp only [chatCall] at hcall
    split at hcall
    · obtain rfl := Option.some.inj hcall
      obtain rfl := Option.some.inj hs
      refine .ask trivial (.inl hchat) (.of_send rfl rfl rfl rfl (List.Subset.refl _) rfl ?_)
      rw [wants, hp.username]
    · cases hcall
  | refresh =>
    obtain rfl := Option.some.inj hcall
    obtain rfl := Option.some.inj hs
    refine .ask trivial (.inl hchat) (.of_send rfl rfl rfl rfl (List.Subset.refl _) rfl ?_)
    rw [wants, hp.username]
  | info name =>
    simp only [chatCall] at hcall
    split at hcall
    · obtain rfl := Option.some.inj hcall
      obtain rfl := Option.some.inj hs
      refine .ask trivial (.inl hchat) (.of_send rfl rfl rfl rfl (List.Subset.refl _) rfl ?_)
      rw [wants, hp.username]
    · cases hcall
  | closeInfo =>
    simp only [chatCall] at hcall
    split at hcall
    · obtain rfl := Option.some.inj hcall
      obtain rfl := Option.some.inj hs
      exact .ask trivial (.inl hchat)
        (.nothing rfl rfl (fun _ => rfl) rfl rfl (List.Subset.refl _) rfl)
    · cases hcall
  | chat name =>
    simp only [chatCall] at hcall
    split at hcall
    · obtain rfl := Option.some.inj hcall
      obtain rfl := Option.some.inj hs
      refine .ask trivial (.inl hchat) (.nothing rfl rfl (fun hlogin => ?_) rfl rfl
        (List.Subset.refl _) rfl)
      rw [hchat] at hlogin
      cases hlogin
    · cases hcall
  | logout =>
    obtain rfl := Option.some.inj hcall
    obtain rfl := Option.some.inj hs
    exact .logout hchat

/-- **What a step of the page does.** -/
theorem Paged.move_of_step (hp : h.Paged) (hstep : h.pageStep e = some h') : h.PageMove e h' := by
  obtain ⟨input, hinput, hs⟩ := Option.bind_eq_some_iff.mp hstep
  clear hstep
  cases e with
  | gesture g =>
    simp only [Hook.input, call] at hinput
    split at hinput
    · case isTrue hchat => exact hp.chat_move hchat hinput hs
    · case isFalse hlogin =>
      cases g with
      | submit user host port =>
        simp only [loginCall] at hinput
        split at hinput
        · cases hinput
        · obtain ⟨⟨u, s, p⟩, hform, rfl⟩ := Option.map_eq_some_iff.mp hinput
          obtain rfl := Option.some.inj hs
          exact .connect (Bool.eq_false_iff.mpr hlogin) hform
      | _ => cases hinput
  | socket i e =>
    obtain rfl := Option.some.inj hinput
    obtain ⟨socket, hget, hdeliver⟩ := Option.bind_eq_some_iff.mp hs
    split at hdeliver
    · case isTrue hpossible =>
      obtain rfl := Option.some.inj hdeliver
      exact .socket hget hpossible
    · cases hdeliver
  | poll =>
    obtain rfl := Option.some.inj hinput
    simp only [Hook.step] at hs
    split at hs
    · case isTrue hpoll =>
      have hchat := hp.polling hpoll
      obtain rfl := Option.some.inj hs
      rw [if_pos (hp.loggedIn.mp hchat)]
      refine .ask trivial (.inl hchat) (.of_send rfl rfl rfl rfl (List.Subset.refl _) rfl ?_)
      rw [wants, hp.username]
    · cases hs
  | delayedList user =>
    obtain rfl := Option.some.inj hinput
    simp only [Hook.step] at hs
    split at hs
    · obtain rfl := Option.some.inj hs
      exact .ask trivial (.inr ⟨user, rfl⟩) (.of_send rfl rfl rfl rfl List.erase_subset rfl rfl)
    · cases hs

/-! ### What the steps keep -/

theorem paged_init : init.Paged where
  ok := ok_init
  loggedIn := ⟨(fun h => by cases h), fun h => absurd rfl h⟩
  username := rfl
  pending := fun h => by cases h
  named := fun h => absurd rfl h
  live := fun h => by cases h
  willing := fun h => by cases h
  staying := fun h => by cases h
  polling := fun h => by cases h
  tab := fun _ => rfl
  addressed := fun _ h => by cases h

/-- A socket in use was not left by its user. -/
theorem Paged.not_voluntary (hp : h.Paged) (hopen : h.isOpen = true) :
    h.voluntaryLogout = false := by
  obtain ⟨i, socket, hcurrent, hget, hstate⟩ := isOpen_iff.mp hopen
  by_contra hne
  exact (hp.staying (by simpa using hne) i socket hcurrent hget).not_open hstate

/-- A message comes through the current socket, while it is open. -/
theorem Paged.current_of_possible (hp : h.Paged) {i : ℕ} {socket : Socket}
    (hget : h.sockets[i]? = some socket) {data : Option ParsedPacket}
    (hpossible : SocketEvent.possible socket (.message data) = true) :
    h.current = some i ∧ socket.readyState = .open := by
  have hstate : socket.readyState = .open := eq_of_beq hpossible
  refine ⟨?_, hstate⟩
  by_contra hne
  exact (hp.ok.superseded i socket hget hne).not_open hstate

theorem connected_of_open (hopen : h.isOpen = true) : h.Connected := by
  obtain ⟨i, socket, hcurrent, hget, hstate⟩ := isOpen_iff.mp hopen
  exact ⟨i, socket, hcurrent, hget, .inl hstate⟩

/-- What the invariant reads, but for the tab and the messages. -/
theorem Paged.of_core (hp : h.Paged) (hok : h'.Ok) (hcore : h'.core = h.core)
    (htab : h.chat.inChat = false → h'.activeChat = h.activeChat)
    (haddressed : ∀ m ∈ h'.chat.messages, m.Addressed) : h'.Paged := by
  simp only [core, Chat.user, Prod.mk.injEq] at hcore
  obtain ⟨hsockets, hcurrent, ⟨hchat, href, hname, hpending⟩, hvoluntary, hpoll⟩ := hcore
  constructor
  · exact hok
  · rw [hchat, href]
    exact hp.loggedIn
  · rw [hname, href]
    exact hp.username
  · rw [hchat, href, hpending]
    exact hp.pending
  · rw [hcurrent, hpending]
    exact hp.named
  · rw [hchat, Connected, hsockets, hcurrent]
    exact hp.live
  · rw [hchat, hvoluntary]
    exact hp.willing
  · rw [hvoluntary, hcurrent, hsockets]
    exact hp.staying
  · rw [hpoll, hchat]
    exact hp.polling
  · rw [hchat]
    intro hlogin
    rw [htab hlogin]
    exact hp.tab hlogin
  · exact haddressed

theorem Paged.asked (hp : h.Paged) (hok : h'.Ok) (ha : h.Asked e h') : h'.Paged := by
  obtain ⟨ms, hms, hall⟩ := ha.messages
  refine hp.of_core hok ha.core ha.tab fun m hm => ?_
  rw [hms] at hm
  rcases List.mem_append.mp hm with hm | hm
  · exact hp.addressed m hm
  · exact hall m hm

theorem Paged.connect (hp : h.Paged) (hlogin : h.chat.inChat = false) {user : List Char}
    (huser : user ≠ []) (host port : List Char) : (h.connect user host port).Paged := by
  have hchat : (h.connect user host port).chat.inChat = false := by
    unfold Hook.connect closeCurrent
    split <;> exact hlogin
  have hempty : h.chat.usernameRef = [] := by
    by_contra hne
    rw [hp.loggedIn.mpr hne] at hlogin
    cases hlogin
  constructor
  · exact hp.ok.connect user host port
  · rw [hchat]
    exact ⟨(fun h => by cases h), fun h => absurd rfl h⟩
  · show h.closeCurrent.chat.username = []
    unfold closeCurrent
    split <;> exact hp.username.trans hempty
  · rw [hchat]
    intro h
    cases h
  · exact fun _ => huser
  · rw [hchat]
    intro h
    cases h
  · exact fun _ => rfl
  · intro h
    cases h
  · intro hpoll
    have hpoll : h.pollTimer = true := by
      unfold Hook.connect closeCurrent at hpoll
      split at hpoll <;> exact hpoll
    rw [hp.polling hpoll] at hlogin
    cases hlogin
  · intro _
    unfold Hook.connect closeCurrent
    split <;> exact hp.tab hlogin
  · show ∀ m ∈ h.closeCurrent.chat.messages, _
    unfold closeCurrent
    split <;> exact hp.addressed

/-- Back on the `LoginScreen`. -/
theorem Paged.backToLogin (hok : h.Ok) (hnamed : h.current ≠ none → h.chat.pendingUser ≠ [])
    (hstaying : h.voluntaryLogout = true → ∀ (i : ℕ) (socket : Socket), h.current = some i →
      h.sockets[i]? = some socket → socket.Closing)
    (hpoll : h.pollTimer = false) (error : List Char) : (h.backToLogin error).Paged where
  ok := hok.backToLogin error
  loggedIn := ⟨(fun h => by cases h), fun h => absurd rfl h⟩
  username := rfl
  pending := fun h => by cases h
  named := hnamed
  live := fun h => by cases h
  willing := fun h => by cases h
  staying := hstaying
  polling := fun hrun => by
    have hrun : h.pollTimer = true := hrun
    rw [hpoll] at hrun
    cases hrun
  tab := fun _ => rfl
  addressed := fun _ h => by cases h

/-- `ws.current?.close()` touches the sockets only. -/
theorem closeCurrent_frame (h : Hook) : h.closeCurrent.sockets.length = h.sockets.length ∧
    h.closeCurrent.chat = h.chat ∧ h.closeCurrent.current = h.current ∧
    h.closeCurrent.pollTimer = h.pollTimer ∧ h.closeCurrent.activeChat = h.activeChat ∧
    h.closeCurrent.listLater = h.listLater ∧ h.closeCurrent.connects = h.connects := by
  unfold closeCurrent
  split
  · exact ⟨rfl, rfl, rfl, rfl, rfl, rfl, rfl⟩
  · exact ⟨List.length_modify .., rfl, rfl, rfl, rfl, rfl, rfl⟩

/-- `logout` up to the end of its socket. -/
def leaving (h : Hook) : Hook :=
  { h with voluntaryLogout := true }.stopPolling.send (ChatSystem.logout h.chat.usernameRef)

theorem logout_eq (h : Hook) : h.logout = h.leaving.closeCurrent.backToLogin [] := rfl

theorem leaving_eq (h : Hook) : h.leaving = { h with
    voluntaryLogout := true
    pollTimer := false
    chat := { h.chat with sent := h.chat.sent ++
      (if h.isOpen then some (ChatSystem.logout h.chat.usernameRef) else none).toList } } := by
  rw [leaving, send_eq]
  rfl

theorem Paged.logout (hp : h.Paged) : h.logout.Paged := by
  have hleaving : h.leaving.Ok := by
    rw [leaving_eq]
    exact hp.ok.of_frame rfl
  obtain ⟨-, hchat, hcurrent, hpoll, -⟩ := closeCurrent_frame h.leaving
  rw [logout_eq]
  refine .backToLogin hleaving.closeCurrent ?_ (fun _ i socket _ hget => ?_) ?_ []
  · rw [hcurrent, hchat, leaving_eq]
    exact hp.named
  · exact hleaving.closing_of_closeCurrent hget
  · rw [hpoll, leaving_eq]

/-- The event of a socket moves that socket on, and leaves `ws.current` what it
is. -/
theorem current_after {i j : ℕ} {socket current : Socket} (hget : h.sockets[i]? = some socket)
    (hj : h.sockets[j]? = some current) (e : SocketEvent) :
    ∃ next, (h.sockets.set i (e.after socket))[j]? = some next ∧
      (next = current ∨ i = j ∧ next = e.after current) := by
  by_cases hij : i = j
  · subst hij
    obtain rfl : socket = current := Option.some.inj (hget.symm.trans hj)
    obtain ⟨hlt, -⟩ := List.getElem?_eq_some_iff.mp hget
    exact ⟨e.after socket, by simp [hlt], .inr ⟨rfl, rfl⟩⟩
  · exact ⟨current, by rw [List.getElem?_set_ne hij, hj], .inl rfl⟩

/-- Until it closes, the chat stays connected. -/
theorem Connected.after {i : ℕ} {socket : Socket} (hconnected : h.Connected)
    (hget : h.sockets[i]? = some socket) {e : SocketEvent} (he : e ≠ .close) :
    ({ h with sockets := h.sockets.set i (e.after socket) } : Hook).Connected := by
  obtain ⟨j, current, hcurrent, hj, hstate⟩ := hconnected
  obtain ⟨next, hnext, rfl | ⟨rfl, rfl⟩⟩ := current_after hget hj e
  · exact ⟨j, next, hcurrent, hnext, hstate⟩
  · refine ⟨i, _, hcurrent, hnext, ?_⟩
    cases e with
    | «open» => rcases hstate with hstate | hstate <;> simp [SocketEvent.after, hstate]
    | message | error => exact hstate
    | closing => exact .inr rfl
    | close => exact absurd rfl he

/-- A message leaves the socket open. -/
theorem isOpen_message {i : ℕ} {socket : Socket} {data : Option ParsedPacket}
    (hget : h.sockets[i]? = some socket) : ({ h with
      sockets := h.sockets.set i ((SocketEvent.message data).after socket) } : Hook).isOpen =
      h.isOpen := by
  have hsame : h.sockets.set i socket = h.sockets := by
    obtain ⟨hlt, rfl⟩ := List.getElem?_eq_some_iff.mp hget
    exact List.set_getElem_self hlt
  show ({ h with sockets := h.sockets.set i socket } : Hook).isOpen = _
  rw [hsame]

/-- The `LoginScreen`, with no socket in use. -/
theorem Paged.of_login (hp : h.Paged) (hlogin : h.chat.inChat = false) (hok : h'.Ok)
    (huser : h'.chat.user = h.chat.user) (hcurrent : h'.current = h.current)
    (hpoll : h'.pollTimer = h.pollTimer) (htab : h'.activeChat = h.activeChat)
    (hclosing : ∀ (i : ℕ) (socket : Socket), h'.sockets[i]? = some socket → socket.Closing)
    (haddressed : ∀ m ∈ h'.chat.messages, m.Addressed) : h'.Paged := by
  simp only [Chat.user, Prod.mk.injEq] at huser
  obtain ⟨hchat, href, hname, hpending⟩ := huser
  have hno (hchat' : h'.chat.inChat = true) : False := by
    rw [hchat, hlogin] at hchat'
    cases hchat'
  constructor
  · exact hok
  · rw [hchat, href]
    exact hp.loggedIn
  · rw [hname, href]
    exact hp.username
  · exact fun hchat' => (hno hchat').elim
  · rw [hcurrent, hpending]
    exact hp.named
  · exact fun hchat' => (hno hchat').elim
  · exact fun hchat' => (hno hchat').elim
  · exact fun _ i socket _ hget => hclosing i socket hget
  · rw [hpoll, hchat]
    exact hp.polling
  · intro _
    rw [htab]
    exact hp.tab hlogin
  · exact haddressed

/-- A packet that is no welcome leaves the user alone. -/
theorem user_handlePacket {s : Chat} {pkt : ParsedPacket} (hwelcome : ¬ pkt.Welcomes) :
    (handlePacket s pkt).user = s.user := by
  have hhandled := handled_handlePacket s pkt
  generalize handlePacket s pkt = s' at hhandled
  cases hhandled with
  | ready => rfl
  | welcome h => exact absurd h hwelcome
  | other _ _ huser => exact huser

theorem addressed_handlePacket {s : Chat} (hs : ∀ m ∈ s.messages, m.Addressed)
    (pkt : ParsedPacket) : ∀ m ∈ (handlePacket s pkt).messages, m.Addressed := by
  have hhandled := handled_handlePacket s pkt
  generalize handlePacket s pkt = s' at hhandled
  cases hhandled with
  | ready => exact hs
  | welcome =>
    intro m hm
    cases hm
  | other _ _ _ _ hmessages haddressed =>
    rw [hmessages]
    intro m hm
    rcases List.mem_append.mp hm with hm | hm
    · exact hs m hm
    · exact haddressed m hm

theorem handlePacket_welcome (s : Chat) {pkt : ParsedPacket} (hwelcome : pkt.Welcomes) :
    handlePacket s pkt = { s with
      usernameRef := s.pendingUser
      username := s.pendingUser
      inChat := true
      myStatus := Text.active
      messages := [] } := by
  have hready : ¬ (pkt.command = 0 ∧ pkt.payload = "tcp_ok".toList) := fun h => by
    rw [hwelcome.1] at h
    exact absurd h.1 (by decide)
  rw [handlePacket, if_neg hready, if_pos hwelcome.1, handleOk, if_pos hwelcome.2]

theorem onPacket_eq (h : Hook) (pkt : ParsedPacket) : h.onPacket pkt =
    if pkt.Welcomes then
      ({ h with
        chat := handlePacket h.chat pkt
        listLater := h.listLater ++ [h.chat.pendingUser] } : Hook).startPolling
    else if pkt.command = cmdError ∧ h.chat.usernameRef = [] then
      (({ h with chat := handlePacket h.chat pkt } : Hook).setWsStatus .disconnected).closeCurrent
    else { h with chat := handlePacket h.chat pkt } := rfl

/-- A packet, on the current socket. -/
theorem Paged.onPacket (hp : h.Paged) (hopen : h.isOpen = true) (pkt : ParsedPacket) :
    (h.onPacket pkt).Paged := by
  have hok := hp.ok.onPacket pkt
  rw [onPacket_eq] at hok ⊢
  split at hok
  · case isTrue hwelcome =>
    rw [if_pos hwelcome]
    obtain ⟨i, socket, hcurrent, -⟩ := isOpen_iff.mp hopen
    have hnamed : h.chat.pendingUser ≠ [] := hp.named (by rw [hcurrent]; simp)
    rw [handlePacket_welcome h.chat hwelcome] at hok ⊢
    exact ⟨hok, iff_of_true rfl hnamed, rfl, fun _ => rfl, fun _ => hnamed,
      fun _ => connected_of_open hopen, fun _ => hp.not_voluntary hopen, hp.staying,
      fun _ => rfl, (fun hlogin => by cases hlogin), fun _ hm => by cases hm⟩
  · case isFalse hwelcome =>
    rw [if_neg hwelcome]
    have huser := user_handlePacket (s := h.chat) hwelcome
    have haddressed := addressed_handlePacket hp.addressed pkt
    split at hok
    · case isTrue hrefused =>
      rw [if_pos hrefused]
      have hlogin : h.chat.inChat = false := by
        by_contra hchat
        exact hp.loggedIn.mp (by simpa using hchat) hrefused.2
      simp only [Chat.user, Prod.mk.injEq] at huser
      have hset : (({ h with chat := handlePacket h.chat pkt } : Hook).setWsStatus
          .disconnected).Ok := by
        refine ⟨hp.ok.superseded, fun hne => ?_, rfl⟩
        have hne : (handlePacket h.chat pkt).usernameRef ≠ [] := hne
        rw [huser.2.1] at hne
        exact absurd hrefused.2 hne
      obtain ⟨-, hchat, hcurrent, hpoll, htab, -⟩ := closeCurrent_frame
        (({ h with chat := handlePacket h.chat pkt } : Hook).setWsStatus .disconnected)
      refine hp.of_login hlogin hok ?_ hcurrent hpoll htab
        (fun i socket hget => hset.closing_of_closeCurrent hget) ?_
      · rw [hchat]
        simp only [Chat.user, Prod.mk.injEq]
        exact huser
      · rw [hchat]
        exact haddressed
    · case isFalse hno =>
      rw [if_neg hno]
      exact hp.of_core hok (by rw [core, huser]; rfl) (fun _ => rfl) haddressed

theorem Paged.socket (hp : h.Paged) {i : ℕ} {socket : Socket} {e : SocketEvent}
    (hget : h.sockets[i]? = some socket) (hpossible : e.possible socket = true) :
    (({ h with sockets := h.sockets.set i (e.after socket) } : Hook).handler
      (e.after socket) e).Paged := by
  have hmoved := hp.ok.moved hget e
  have hok := hmoved.handler (e.after socket) e
  have hclosing (hvoluntary : h.voluntaryLogout = true) (j : ℕ) (other : Socket)
      (hj : h.current = some j) (hother : (h.sockets.set i (e.after socket))[j]? = some other) :
      other.Closing := by
    rw [List.getElem?_set] at hother
    split at hother
    · case isTrue hij =>
      subst hij
      split at hother
      · obtain rfl := Option.some.inj hother
        exact (hp.staying hvoluntary i socket hj hget).after e
      · cases hother
    · exact hp.staying hvoluntary j other hj hother
  -- the page before the handler runs, as long as the socket does not close
  have hpaged (he : e ≠ .close) :
      ({ h with sockets := h.sockets.set i (e.after socket) } : Hook).Paged :=
    ⟨hmoved, hp.loggedIn, hp.username, hp.pending, hp.named,
      fun hchat => (hp.live hchat).after hget he, hp.willing, hclosing, hp.polling, hp.tab,
      hp.addressed⟩
  cases e with
  | «open» =>
    refine (hpaged (by simp)).of_core hok ?_ (fun _ => ?_) ?_
    · change (Hook.onopen _ _).core = _
      unfold onopen
      dsimp only
      split <;> rfl
    · change (Hook.onopen _ _).activeChat = _
      unfold onopen
      dsimp only
      split <;> rfl
    · change ∀ m ∈ (Hook.onopen _ _).chat.messages, _
      unfold onopen
      dsimp only
      split <;> exact hp.addressed
  | message data =>
    have hp' := hpaged (by simp)
    rcases data with - | pkt
    · exact hp'
    · obtain ⟨hcurrent, hstate⟩ := hp.current_of_possible hget hpossible
      have hopen := isOpen_iff.mpr ⟨i, socket, hcurrent, hget, hstate⟩
      exact hp'.onPacket ((isOpen_message hget).trans hopen) pkt
  | closing => exact hpaged (by simp)
  | error => exact (hpaged (by simp)).of_core hok rfl (fun _ => rfl) hp.addressed
  | close =>
    have hstopped : (({ h with sockets := h.sockets.set i (SocketEvent.close.after socket) } :
        Hook).setWsStatus .disconnected).stopPolling.Ok := (hmoved.setWsStatus _).of_frame rfl
    change (Hook.onclose _).Paged
    unfold onclose
    dsimp only
    split
    · exact .backToLogin hstopped hp.named hclosing rfl connectionLost
    · case isFalse hstays =>
      -- nobody is in the chat
      have hlogin : h.chat.inChat = false := by
        by_contra hchat
        have hchat : h.chat.inChat = true := by simpa using hchat
        have hvoluntary := hp.willing hchat
        exact hstays ⟨hp.loggedIn.mp hchat, by
          show (!h.voluntaryLogout) = true
          rw [hvoluntary]
          rfl⟩
      have hno (hchat : h.chat.inChat = true) : False := by
        rw [hlogin] at hchat
        cases hchat
      exact ⟨hstopped, hp.loggedIn, hp.username, hp.pending, hp.named,
        fun hchat => (hno hchat).elim, fun hchat => (hno hchat).elim, hclosing,
        (fun hrun => by cases hrun), hp.tab, hp.addressed⟩

theorem Paged.step (hp : h.Paged) (hs : h.pageStep e = some h') : h'.Paged := by
  have hok : h'.Ok := by
    obtain ⟨input, -, hstep⟩ := Option.bind_eq_some_iff.mp hs
    exact hp.ok.step hstep
  cases hp.move_of_step hs with
  | connect hlogin hform =>
    refine hp.connect hlogin ?_ _ _
    simp only [handleSubmit] at hform
    split at hform
    · cases hform
    · case isFalse hfilled =>
      obtain ⟨rfl, -⟩ := Prod.mk.inj (Option.some.inj hform)
      exact fun hempty => hfilled (.inl hempty)
  | logout hchat => exact hp.logout
  | ask _ _ hasked => exact hp.asked hok hasked
  | socket hget hpossible => exact hp.socket hget hpossible

/-! ### What is sent -/

theorem sent_handlePacket (s : Chat) (pkt : ParsedPacket) : (handlePacket s pkt).sent =
    s.sent ++ (if pkt.Ready then some (webRegister s.pendingUser) else none).toList := by
  have hhandled := handled_handlePacket s pkt
  generalize handlePacket s pkt = s' at hhandled
  cases hhandled with
  | ready hready => rw [if_pos hready]; rfl
  | welcome hwelcome =>
    have hready : ¬ pkt.Ready := fun h => by
      rw [ParsedPacket.Ready, hwelcome.1] at h
      exact absurd h.1 (by decide)
    rw [if_neg hready]
    exact (List.append_nil _).symm
  | other hready _ _ hsent =>
    rw [if_neg hready, hsent]
    exact (List.append_nil _).symm

theorem sent_onPacket (h : Hook) (pkt : ParsedPacket) :
    (h.onPacket pkt).chat.sent = (handlePacket h.chat pkt).sent := by
  rw [onPacket_eq]
  split
  · rfl
  split
  · rw [(closeCurrent_frame _).2.1]
    rfl
  · rfl

/-- A step of the page sends what its event asks for, into an open socket. -/
def SendsRequest (h : Hook) (e : PageEvent) : Prop :=
  ∀ h', h.pageStep e = some h' → h'.chat.sent = h.chat.sent ++ (h.request e).toList

theorem Paged.sendsRequest (hp : h.Paged) : h.SendsRequest e := by
  intro h' hs
  cases hp.move_of_step hs with
  | connect hlogin hform =>
    refine sent_of_wants_none rfl ?_
    show h.closeCurrent.chat.sent = _
    rw [(closeCurrent_frame h).2.1]
  | logout hchat =>
    show h.leaving.closeCurrent.chat.sent = _
    rw [(closeCurrent_frame _).2.1, leaving_eq, request, wants, hp.username]
  | ask _ _ hasked => exact hasked.sent
  | @socket i e socket hget hpossible =>
    cases e with
    | «open» =>
      refine sent_of_wants_none rfl ?_
      change (Hook.onopen _ _).chat.sent = _
      unfold onopen
      dsimp only
      split <;> rfl
    | message data =>
      rcases data with - | pkt
      · exact sent_of_wants_none rfl rfl
      · obtain ⟨hcurrent, hstate⟩ := hp.current_of_possible hget hpossible
        rw [request, if_pos (isOpen_iff.mpr ⟨i, socket, hcurrent, hget, hstate⟩)]
        exact (sent_onPacket _ pkt).trans (sent_handlePacket _ pkt)
    | closing | error => exact sent_of_wants_none rfl rfl
    | close =>
      refine sent_of_wants_none rfl ?_
      change (Hook.onclose _).chat.sent = _
      unfold onclose
      dsimp only
      split <;> rfl

end Hook

/-- The tab a message is shown in, on the page of `me`. -/
def Message.tab (me : List Char) (m : Message) : Option (List Char) :=
  if m.type ≠ .direct then some Text.all
  else if m.sender = me then m.target
  else if m.target = some me ∧ m.sender ≠ Text.all then some m.sender
  else none

/-- **A message has one tab**: the General channel, or the chat with the user
it came from or went to.  No tab has a direct message that came for another name,
or from a user of the name of the General channel. -/
theorem Hook.one_tab_of_run {tr : List (Hook × PageEvent)} {h : Hook}
    (hrun : Run Hook.pageStep Hook.init tr h) {m : Message} (hm : m ∈ h.chat.messages) :
    (∀ tab, Hook.visibleIn h.chat.username tab m = true ↔ m.tab h.chat.username = some tab) ∧
      (m.sender = h.chat.username → ∃ tab, m.tab h.chat.username = some tab) := by
  have hp : h.Paged := hrun.invariant Hook.paged_init fun _ _ _ hp hs => hp.step hs
  have haddressed := hp.addressed m hm
  by_cases hdirect : m.type = .direct
  · obtain ⟨target, htarget, hother⟩ := haddressed hdirect
    by_cases hmine : m.sender = h.chat.username
    · have htab : m.tab h.chat.username = some target := by
        simp [Message.tab, hdirect, hmine, htarget]
      refine ⟨fun tab => ?_, fun _ => ⟨target, htab⟩⟩
      rw [htab]
      by_cases hall : tab = Text.all
      · subst hall
        simp [Hook.visibleIn, hdirect, hother]
      · simp only [Hook.visibleIn, if_neg hall, hdirect, hmine, htarget, Option.some.injEq,
          true_and, decide_eq_true_eq]
        constructor
        · rintro (⟨rfl, rfl⟩ | rfl) <;> rfl
        · exact .inr
    · refine ⟨fun tab => ?_, fun h => absurd h hmine⟩
      by_cases hall : tab = Text.all
      · subst hall
        simp [Hook.visibleIn, Message.tab, hdirect, hmine, htarget]
      · simp only [Hook.visibleIn, Message.tab, if_neg hall, hdirect, hmine, htarget,
          Option.some.injEq, true_and, decide_eq_true_eq, ne_eq, not_true_eq_false, if_false,
          false_and, or_false]
        constructor
        · rintro ⟨rfl, hme⟩
          rw [if_pos ⟨hme, hall⟩]
        · intro htab
          split at htab
          · case isTrue hme => exact ⟨Option.some.inj htab, hme.1⟩
          · cases htab
  · have htab : m.tab h.chat.username = some Text.all := if_pos hdirect
    refine ⟨fun tab => ?_, fun _ => ⟨_, htab⟩⟩
    rw [htab]
    by_cases hall : tab = Text.all
    · subst hall
      rcases htype : m.type <;> simp [Hook.visibleIn, htype] at hdirect ⊢
    · simp [Hook.visibleIn, hall, hdirect, Ne.symm hall]

/-- Ana logs in and chats with Bob. -/
def anaAndBob : List PageEvent :=
  [.gesture (.submit " ana ".toList "127.0.0.1".toList "8080".toList), .socket 0 .open,
    .socket 0 (.message (some ⟨0, 0, "BRIDGE".toList, [], "tcp_ok".toList⟩)),
    .socket 0 (.message (some ⟨cmdOk, 14, Text.server, "ana".toList, "Bienvenido ana".toList⟩)),
    .socket 0 (.message (some ⟨cmdUserList, 21, Text.server, "ana".toList,
      "ana,ACTIVE;bob,ACTIVE".toList⟩)),
    .gesture (.chat "bob".toList), .gesture (.send " hola ".toList),
    .socket 0 (.message (some ⟨cmdMsg, 4, "bob".toList, "ana".toList, "hola".toList⟩))]

theorem exec_anaAndBob : (exec Hook.pageStep Hook.init anaAndBob).any (fun h => h.chat.sent ==
      [webRegister "ana".toList, sendDirect "ana".toList "bob".toList "hola".toList] &&
    h.chat.messages.map (·.sender) == ["ana".toList, "bob".toList] &&
    h.chat.username == "ana".toList) = true := by
  decide +kernel

namespace Hook

theorem one_tab_of_run_bob : ∃ tr h, Run pageStep init tr h ∧ h.chat.username = "ana".toList ∧
    ∃ m ∈ h.chat.messages, m.sender = "bob".toList ∧
      (∀ tab, visibleIn h.chat.username tab m = true ↔ m.tab h.chat.username = some tab) ∧
      (m.sender = h.chat.username → ∃ tab, m.tab h.chat.username = some tab) := by
  obtain ⟨tr, h, hrun, -, hp⟩ := exists_run_of_exec exec_anaAndBob
  simp only [Bool.and_eq_true, beq_iff_eq] at hp
  have hmem : "bob".toList ∈ h.chat.messages.map (·.sender) := by
    rw [hp.1.2]
    decide
  obtain ⟨m, hm, hsender⟩ := List.mem_map.mp hmem
  exact ⟨tr, h, hrun, hp.2, m, hm, hsender, one_tab_of_run hrun hm⟩

end Hook

end ChatSystem
