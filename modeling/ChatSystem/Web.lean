/-
ChatSystem/Web.lean

`handlePacket` of `useChat.js`: what the web client does with a packet the
bridge has parsed.  `Chat` is the part of the hook's state it reads and
writes.  The timers it starts (the polling, the delayed `LIST`) are left out:
what they send does not depend on the packet.

`statusReport` is the status a packet tells the user about, if any;
`myStatus_handlePacket` says that nothing else changes `myStatus`.
-/
import ChatSystem.Clients

namespace ChatSystem

/-! ### The state of the hook -/

inductive MessageType
  | system
  | error
  | broadcast
  | direct
deriving DecidableEq, Repr

/-- An entry of `messages`, without its `id` and `ts`. -/
structure Message where
  type : MessageType
  sender : List Char
  target : Option (List Char)
  text : List Char
deriving DecidableEq, Repr

/-- An entry of `users`. -/
structure User where
  name : List Char
  status : List Char
deriving DecidableEq, Repr

structure Chat where
  inChat : Bool
  connected : Bool
  username : List Char
  usernameRef : List Char
  pendingUser : List Char
  myStatus : List Char
  messages : List Message
  users : List User
  userInfo : Option (List Char × List Char)
  pendingInfoTarget : List Char
  loginError : List Char
  sent : List Request
deriving DecidableEq, Repr

namespace Chat

def addMessage (s : Chat) (m : Message) : Chat := { s with messages := s.messages ++ [m] }

def setMyStatus (s : Chat) (status : List Char) : Chat := { s with myStatus := status }

def send (s : Chat) (r : Request) : Chat := { s with sent := s.sent ++ [r] }

end Chat

/-! ### Literals -/

namespace Text

def active : List Char := "ACTIVE".toList

def busy : List Char := "BUSY".toList

def inactive : List Char := "INACTIVE".toList

def server : List Char := "SERVER".toList

def all : List Char := "ALL".toList

def sistema : List Char := "SISTEMA".toList

end Text

/-- `'Tu estado cambió a Inactivo por inactividad.'` -/
def becameInactive : Message :=
  ⟨.system, Text.sistema, none, "Tu estado cambió a Inactivo por inactividad.".toList⟩

/-- `'Tu estado volvió a Activo.'` -/
def becameActive : Message := ⟨.system, Text.sistema, none, "Tu estado volvió a Activo.".toList⟩

/-! ### `handlePacket` -/

/-- `const [name, status] = entry.split(','); { name, status: status || 'ACTIVE' }`. -/
def parseEntry (entry : List Char) : User :=
  match entry.splitOn ',' with
  | name :: status :: _ => ⟨name, if status = [] then Text.active else status⟩
  | name :: [] => ⟨name, Text.active⟩
  | [] => ⟨[], Text.active⟩

/-- `payload.split(';').filter(Boolean).map(…)`. -/
def parseUsers (payload : List Char) : List User :=
  ((payload.splitOn ';').filter (!·.isEmpty)).map parseEntry

def handleOk (s : Chat) (payload : List Char) : Chat :=
  if Js.startsWith payload "Bienvenido".toList then
    { s with
      usernameRef := s.pendingUser
      username := s.pendingUser
      inChat := true
      myStatus := Text.active
      messages := [] }
  else if payload ∈ [Text.active, Text.busy, Text.inactive] then
    (s.setMyStatus payload).addMessage
      ⟨.system, Text.sistema, none, "Estado cambiado a ".toList ++ payload⟩
  else s

def handleError (s : Chat) (payload : List Char) : Chat :=
  if s.usernameRef = [] then { s with loginError := payload, connected := false }
  else s.addMessage ⟨.error, "ERROR".toList, none, payload⟩

def handleMsg (s : Chat) (pkt : ParsedPacket) : Chat :=
  if pkt.sender = Text.server then
    if Js.includes pkt.payload Text.inactive then
      (s.setMyStatus Text.inactive).addMessage becameInactive
    else if Js.includes pkt.payload Text.active then
      (s.setMyStatus Text.active).addMessage becameActive
    else s.addMessage ⟨.system, Text.sistema, none, pkt.payload⟩
  -- the echo of the user's own message
  else if pkt.sender = s.usernameRef then s
  else s.addMessage ⟨if pkt.target = Text.all then .broadcast else .direct, pkt.sender,
    some pkt.target, pkt.payload⟩

/-- The status is taken from the list as well, with the message its change
calls for. -/
def handleUserList (s : Chat) (payload : List Char) : Chat :=
  let parsed := parseUsers payload
  let s := { s with users := parsed }
  if s.usernameRef = [] then s
  else
    match parsed.find? (·.name = s.usernameRef) with
    | none => s
    | some myEntry =>
      let s' := s.setMyStatus myEntry.status
      if s.myStatus ≠ myEntry.status ∧ myEntry.status = Text.inactive then
        s'.addMessage becameInactive
      else if s.myStatus = Text.inactive ∧ myEntry.status = Text.active then
        s'.addMessage becameActive
      else s'

def handlePacket (s : Chat) (pkt : ParsedPacket) : Chat :=
  if pkt.command = 0 ∧ pkt.payload = "tcp_ok".toList then s.send (webRegister s.pendingUser)
  else if pkt.command = cmdOk then handleOk s pkt.payload
  else if pkt.command = cmdError then handleError s pkt.payload
  else if pkt.command = cmdMsg then handleMsg s pkt
  else if pkt.command = cmdUserList then handleUserList s pkt.payload
  else if pkt.command = cmdUserInfo then
    { s with userInfo := some (pkt.payload,
        if s.pendingInfoTarget = [] then pkt.target else s.pendingInfoTarget) }
  else if pkt.command = cmdDisconnected then
    { s.addMessage ⟨.system, Text.sistema, none, pkt.payload ++ " se desconectó.".toList⟩ with
      users := s.users.filter (·.name != pkt.payload) }
  else s

/-- The hook of user `me` in the chat. -/
def inChat (me : List Char) : Chat :=
  ⟨true, true, me, me, me, Text.active, [], [], none, [], [], []⟩

/-! ### What a packet changes -/

/-- Who is logged in, what the page shows of it, who wants to be, and the last
question and its answer. -/
def Chat.frame (s : Chat) :
    (List Char × Bool × Bool) × List Char × List Char × Option (List Char × List Char) :=
  ((s.usernameRef, s.inChat, s.connected), s.pendingUser, s.pendingInfoTarget, s.userInfo)

theorem frame_handleMsg (s : Chat) (pkt : ParsedPacket) : (handleMsg s pkt).frame = s.frame := by
  unfold handleMsg
  split
  · split
    · rfl
    · split <;> rfl
  · split <;> rfl

theorem frame_handleUserList (s : Chat) (payload : List Char) :
    (handleUserList s payload).frame = s.frame := by
  simp only [handleUserList]
  split
  · rfl
  · split
    · rfl
    · split
      · rfl
      · split <;> rfl

/-- **What a packet changes** of these: a welcome logs the pending user in, an
error before that refuses it, and a USER_INFO is an answer. -/
theorem frame_handlePacket (s : Chat) (pkt : ParsedPacket) :
    (handlePacket s pkt).frame = s.frame ∨
    (handlePacket s pkt).frame = ((s.pendingUser, true, s.connected), s.frame.2) ∨
    (pkt.command = cmdError ∧ s.usernameRef = [] ∧
      (handlePacket s pkt).frame = ((s.usernameRef, s.inChat, false), s.frame.2)) ∨
    (pkt.command = cmdUserInfo ∧ ∃ info,
      (handlePacket s pkt).frame = (s.frame.1, s.pendingUser, s.pendingInfoTarget, info)) := by
  unfold handlePacket
  split
  · exact .inl rfl
  split
  · unfold handleOk
    split
    · exact .inr (.inl rfl)
    · split <;> exact .inl rfl
  split
  · case isTrue herror =>
    unfold handleError
    split
    · case isTrue hme => exact .inr (.inr (.inl ⟨herror, hme, rfl⟩))
    · exact .inl rfl
  split
  · exact .inl (frame_handleMsg s pkt)
  split
  · exact .inl (frame_handleUserList s _)
  split
  · case isTrue hinfo => exact .inr (.inr (.inr ⟨hinfo, _, rfl⟩))
  · split <;> exact .inl rfl

/-! ### The status a packet reports -/

/-- The status an OK tells about. -/
def okReport (payload : List Char) : Option (List Char) :=
  if Js.startsWith payload "Bienvenido".toList then some Text.active
  else if payload ∈ [Text.active, Text.busy, Text.inactive] then some payload
  else none

/-- The status a message tells about, when it comes from the server. -/
def msgReport (pkt : ParsedPacket) : Option (List Char) :=
  if pkt.sender = Text.server then
    if Js.includes pkt.payload Text.inactive then some Text.inactive
    else if Js.includes pkt.payload Text.active then some Text.active
    else none
  else none

/-- The status of user `me` in a list. -/
def listReport (me payload : List Char) : Option (List Char) :=
  if me = [] then none else ((parseUsers payload).find? (·.name = me)).map (·.status)

/-- The status a packet tells the user `me` about. -/
def statusReport (me : List Char) (pkt : ParsedPacket) : Option (List Char) :=
  if pkt.command = cmdOk then okReport pkt.payload
  else if pkt.command = cmdMsg then msgReport pkt
  else if pkt.command = cmdUserList then listReport me pkt.payload
  else none

theorem myStatus_handleOk (s : Chat) (payload : List Char) :
    (handleOk s payload).myStatus = (okReport payload).getD s.myStatus := by
  unfold handleOk okReport
  split
  · rfl
  · split <;> rfl

theorem myStatus_handleMsg (s : Chat) (pkt : ParsedPacket) :
    (handleMsg s pkt).myStatus = (msgReport pkt).getD s.myStatus := by
  unfold handleMsg msgReport
  split
  · split
    · rfl
    · split <;> rfl
  · split <;> rfl

theorem myStatus_handleUserList (s : Chat) (payload : List Char) :
    (handleUserList s payload).myStatus = (listReport s.usernameRef payload).getD s.myStatus := by
  simp only [handleUserList, listReport]
  by_cases hme : s.usernameRef = []
  · rw [if_pos hme, if_pos hme]
    rfl
  · rw [if_neg hme, if_neg hme]
    split
    · case h_1 hfind =>
      rw [hfind]
      rfl
    · case h_2 myEntry hfind =>
      rw [hfind]
      split
      · rfl
      · split <;> rfl

/-- **`myStatus` follows the reports**, and nothing else. -/
theorem myStatus_handlePacket (s : Chat) (pkt : ParsedPacket) :
    (handlePacket s pkt).myStatus = (statusReport s.usernameRef pkt).getD s.myStatus := by
  have herror (payload : List Char) : (handleError s payload).myStatus = s.myStatus := by
    unfold handleError
    -- one handler a command
    split <;> rfl
  rcases pkt with ⟨command, len, sender, target, payload⟩
  unfold handlePacket statusReport
  simp only
  split
  · case isTrue h =>
    obtain ⟨rfl, -⟩ := h
    rfl
  split
  · exact myStatus_handleOk s payload
  split
  · case isTrue h =>
    subst h
    exact herror payload
  split
  · exact myStatus_handleMsg s _
  split
  · exact myStatus_handleUserList s payload
  split
  · rfl
  · split <;> rfl

end ChatSystem
