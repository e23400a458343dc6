/-
ChatSystem/Handlers.lean

`server_handlers.c`: the packets the server builds.  `send_packet` itself is
a loop of `send()` calls and belongs to the threads
(`ChatSystem/Server.lean`); here each handler is the table it leaves and the
packet it passes to `send_packet`.

Every packet but the relayed ones is filled the same way (`fillPacket`):
zeroed, each string copied with the limits 31, 31 and 956, and
`payload_len` recomputed.  The relays copy the client's `payload_len`.
-/
import ChatSystem.ClientList

namespace ChatSystem

open CStr

/-- `"SERVER"`, the sender of everything that is not a relay. -/
def senderServer : List UInt8 := utf8 "SERVER"

/-- `"ALL"`. -/
def targetAll : List UInt8 := utf8 "ALL"

/-- A zeroed packet with its strings copied in. -/
def copyStrings (command : UInt8) (sender target payload : List UInt8) : ChatPacket where
  command := command
  payloadLen := 0
  sender := (CharArray.zero 32).strncpy sender 31 name_limit
  target := (CharArray.zero 32).strncpy target 31 name_limit
  payload := (CharArray.zero 957).strncpy payload 956 payload_limit

/-- `(uint16_t)strlen(pkt.payload)`. -/
def strlenPayload (p : ChatPacket) : UInt16 := UInt16.ofNat p.payload.str.length

/-- A packet of the server's own: the strings, then their length. -/
def fillPacket (command : UInt8) (sender target payload : List UInt8) : ChatPacket :=
  let p := copyStrings command sender target payload
  { p with payloadLen := strlenPayload p }

/-- `send_ok`. -/
def sendOk (target msg : List UInt8) : ChatPacket :=
  fillPacket cmdOk senderServer target msg

/-- `send_error`. -/
def sendError (target msg : List UInt8) : ChatPacket :=
  fillPacket cmdError senderServer target msg

/-! ### Registration -/

/-- The answer of `handle_register` to a return code of `cl_add`. -/
def registerReply (rc : ℤ) (pkt : ChatPacket) : ChatPacket :=
  if rc = 0 then
    -- `char msg[64]`
    sendOk pkt.senderPtr ((utf8 "Bienvenido " ++ cstr pkt.senderPtr).take 63)
  else if rc = -1 then sendError pkt.senderPtr (utf8 "Usuario ya existe")
  else sendError pkt.senderPtr (utf8 "Servidor lleno")

/-! ### Relays -/

/-- The `CMD_MSG` made from a client's packet. -/
def relay (pkt : ChatPacket) (target : List UInt8) : ChatPacket :=
  { copyStrings cmdMsg pkt.senderPtr target pkt.payloadPtr with
    payloadLen := pkt.payloadLen }

/-- The message `handle_broadcast` sends to every active client. -/
def handleBroadcast (pkt : ChatPacket) : ChatPacket := relay pkt targetAll

/-- The message `handle_direct` sends to its target. -/
def handleDirect (pkt : ChatPacket) : ChatPacket := relay pkt pkt.targetPtr

/-- The answer of `handle_direct` when the lookup fails. -/
def directError (pkt : ChatPacket) : ChatPacket :=
  sendError pkt.senderPtr (utf8 "Destinatario no conectado")

/-! ### Queries, status and logout -/

/-- `handle_list`: the payload buffer is filled in place by `cl_build_list`. -/
def handleList (t : Table) (pkt : ChatPacket) : ChatPacket :=
  let p := { copyStrings cmdUserList senderServer pkt.senderPtr [] with
    payload := ⟨clBuildList t (CharArray.zero 957).bytes 957, by simp⟩ }
  { p with payloadLen := strlenPayload p }

/-- `handle_info`; `char info[128]`. -/
def handleInfo (t : Table) (pkt : ChatPacket) : ChatPacket :=
  match clGetInfo t pkt.targetPtr 128 with
  | some info => fillPacket cmdUserInfo senderServer pkt.senderPtr info
  | none => sendError pkt.senderPtr (utf8 "Usuario no conectado")

/-- `handle_status`. -/
def handleStatus (t : Table) (pkt : ChatPacket) : Table × ChatPacket :=
  let (rc, t') := clSetStatus t pkt.senderPtr pkt.payloadPtr
  (t', if rc = 0 then sendOk pkt.senderPtr pkt.payloadPtr
    else sendError pkt.senderPtr (utf8 "No se pudo cambiar status"))

/-- `handle_logout`. -/
def handleLogout (pkt : ChatPacket) : ChatPacket :=
  sendOk pkt.senderPtr (utf8 "Desconectado")

/-! ### Notices -/

/-- The packet `notify_disconnect` sends to every active client. -/
def notifyDisconnect (username : List UInt8) : ChatPacket :=
  fillPacket cmdDisconnected senderServer targetAll username

/-- The notice `client_thread` sends when `cl_touch` reactivated its client;
the target stays empty. -/
def reactivationNotice : ChatPacket :=
  fillPacket cmdMsg senderServer [] (utf8 "Tu status volvió a ACTIVE")

/-- The notice `inactivity_thread` sends to a client it marks. -/
def inactivityNotice (username : List UInt8) : ChatPacket :=
  fillPacket cmdMsg senderServer username (utf8 "Tu status cambió a INACTIVE")

/-! ### Fields of the packets -/

/-- A packet whose fields are zeroed arrays with these bytes in front. -/
def packed (command : UInt8) (payloadLen : UInt16) (sender target payload : List UInt8) :
    ChatPacket :=
  ⟨command, payloadLen, .padded 32 sender, .padded 32 target, .padded 957 payload⟩

/-- **What the server fills**: the strings, cut to 31, 31 and 956 bytes. -/
theorem copyStrings_eq (command : UInt8) (sender target payload : List UInt8) :
    copyStrings command sender target payload =
      packed command 0 ((cstr sender).take 31) ((cstr target).take 31)
        ((cstr payload).take 956) := by
  unfold copyStrings
  rw [CharArray.strncpy_zero, CharArray.strncpy_zero, CharArray.strncpy_zero]
  rfl

theorem fillPacket_eq (command : UInt8) (sender target payload : List UInt8) :
    fillPacket command sender target payload =
      packed command (UInt16.ofNat ((cstr payload).take 956).length) ((cstr sender).take 31)
        ((cstr target).take 31) ((cstr payload).take 956) := by
  have hstr : (copyStrings command sender target payload).payload.str =
      (cstr payload).take 956 := CharArray.str_strncpy_zero _ _ payload_limit
  unfold fillPacket strlenPayload
  simp only [hstr]
  rw [copyStrings_eq]
  rfl

theorem relay_eq (pkt : ChatPacket) (target : List UInt8) :
    relay pkt target =
      packed cmdMsg pkt.payloadLen ((cstr pkt.senderPtr).take 31) ((cstr target).take 31)
        ((cstr pkt.payloadPtr).take 956) := by
  unfold relay
  rw [copyStrings_eq]
  rfl

section Fields

variable (command : UInt8) (sender target payload : List UInt8)

@[simp] theorem command_fillPacket :
    (fillPacket command sender target payload).command = command := rfl

@[simp] theorem str_sender_fillPacket :
    (fillPacket command sender target payload).sender.str = (cstr sender).take 31 :=
  CharArray.str_strncpy_zero _ _ name_limit

@[simp] theorem str_target_fillPacket :
    (fillPacket command sender target payload).target.str = (cstr target).take 31 :=
  CharArray.str_strncpy_zero _ _ name_limit

@[simp] theorem str_payload_fillPacket :
    (fillPacket command sender target payload).payload.str = (cstr payload).take 956 :=
  CharArray.str_strncpy_zero _ _ payload_limit

end Fields

@[simp] theorem command_relay (pkt : ChatPacket) (target : List UInt8) :
    (relay pkt target).command = cmdMsg := rfl

@[simp] theorem str_sender_relay (pkt : ChatPacket) (target : List UInt8) :
    (relay pkt target).sender.str = (cstr pkt.senderPtr).take 31 :=
  CharArray.str_strncpy_zero _ _ name_limit

@[simp] theorem str_target_relay (pkt : ChatPacket) (target : List UInt8) :
    (relay pkt target).target.str = (cstr target).take 31 :=
  CharArray.str_strncpy_zero _ _ name_limit

theorem notifyDisconnect_str (username : CharArray 32) :
    notifyDisconnect username.str = notifyDisconnect username.bytes := by
  simp only [notifyDisconnect, fillPacket, copyStrings, CharArray.str, CharArray.strncpy_cstr]

theorem command_registerReply (rc : ℤ) (pkt : ChatPacket) :
    (registerReply rc pkt).command = if rc = 0 then cmdOk else cmdError := by
  unfold registerReply
  split
  · rfl
  · split <;> rfl

end ChatSystem
