/-
ChatSystem/Clients.lean

The client side of the wire.  The packet builders of the terminal client
(`client_net.c`), the encoder and the decoder of the bridge (`bridge.js`),
and what `useChat.js` asks the bridge to send for each action of the web
client.

The C builders are `fillPacket` with the client's strings: zeroed fields, the
limits 31, 31 and 956, and `payload_len` recomputed; a field a builder does
not mention is left zeroed, as is one filled from the empty string.  The
bridge writes at the offsets 0, 1, 3, 35 and 67 of a zeroed buffer, with the
limits 32, 32 and 957 (`buildPacket_eq`).
-/
import ChatSystem.Handlers
import ChatSystem.JsString

namespace ChatSystem

open CStr Utf8

/-! ### `client_net.c` -/

section ClientNet

variable (username target text : List UInt8)

/-- The packet `net_register` sends. -/
def netRegister : ChatPacket := fillPacket cmdRegister username [] username

/-- The packet `net_broadcast` sends. -/
def netBroadcast : ChatPacket := fillPacket cmdBroadcast username [] text

/-- The packet `net_direct` sends. -/
def netDirect : ChatPacket := fillPacket cmdDirect username target text

/-- The packet `net_list` sends. -/
def netList : ChatPacket := fillPacket cmdList username [] []

/-- The packet `net_info` sends. -/
def netInfo : ChatPacket := fillPacket cmdInfo username target []

/-- The packet `net_status` sends. -/
def netStatus : ChatPacket := fillPacket cmdStatus username [] text

/-- The packet `net_logout` sends. -/
def netLogout : ChatPacket := fillPacket cmdLogout username [] []

end ClientNet

/-! ### `bridge.js` -/

/-- `buildPacket(command, sender, target, payload)`. -/
def buildPacket (command : UInt8) (sender target payload : List Char) : List UInt8 :=
  let buf := List.replicate 1024 0
  let buf := writeAt buf 0 [command]
  let payloadBuf := (encode payload).take 957
  -- `buf.writeUInt16LE(payloadBuf.length, 1)`
  let len := UInt16.ofNat payloadBuf.length
  let buf := writeAt buf 1 [len.toUInt8, (len >>> 8).toUInt8]
  let buf := writeAt buf 3 ((encode sender).take 32)
  let buf := writeAt buf 35 ((encode target).take 32)
  writeAt buf 67 payloadBuf

/-- What `parsePacket` returns. -/
structure ParsedPacket where
  command : UInt8
  payloadLen : ℕ
  sender : List Char
  target : List Char
  payload : List Char
deriving DecidableEq, Repr

/-- `buf.slice(start, end)`. -/
def slice (buf : List UInt8) (start stop : ℕ) : List UInt8 := (buf.drop start).take (stop - start)

/-- `parsePacket(buf)`; `none` is the source's `null`. -/
def parsePacket (buf : List UInt8) : Option ParsedPacket :=
  if buf.length < 1024 then none
  else
    let payloadLen := (buf.getD 1 0).toNat + 256 * (buf.getD 2 0).toNat
    some {
      command := buf.getD 0 0
      payloadLen := payloadLen
      sender := Js.trim (Js.removeNul (decode (slice buf 3 35)))
      target := Js.trim (Js.removeNul (decode (slice buf 35 67)))
      payload := Js.removeNul (decode (slice buf 67 (67 + payloadLen))) }

/-! ### `useChat.js`, sending -/

/-- What the front end passes to the bridge for a packet. -/
structure Request where
  command : UInt8
  sender : List Char
  target : List Char
  payload : List Char
deriving DecidableEq, Repr

/-- The bytes the bridge writes for it. -/
def Request.bytes (r : Request) : List UInt8 := buildPacket r.command r.sender r.target r.payload

section UseChat

variable (me target text : List Char)

/-- The `REGISTER` sent once the bridge is connected. -/
def webRegister : Request := ⟨cmdRegister, me, [], me⟩

/-- `sendBroadcast`. -/
def sendBroadcast : Request := ⟨cmdBroadcast, me, [], text⟩

/-- `sendDirect`. -/
def sendDirect : Request := ⟨cmdDirect, me, target, text⟩

/-- `changeStatus`. -/
def changeStatus : Request := ⟨cmdStatus, me, [], text⟩

/-- `listUsers`. -/
def listUsers : Request := ⟨cmdList, me, [], []⟩

/-- `getInfo`. -/
def getInfo : Request := ⟨cmdInfo, me, target, []⟩

/-- `logout`. -/
def logout : Request := ⟨cmdLogout, me, [], []⟩

end UseChat

/-! ### What the bridge writes -/

/-- The struct in the bytes of `buildPacket`. -/
def built (command : UInt8) (sender target payload : List Char) : ChatPacket :=
  packed command (UInt16.ofNat ((encode payload).take 957).length) (encode sender)
    (encode target) (encode payload)

/-- **The offsets of the bridge are those of the packed struct.** -/
theorem buildPacket_eq (command : UInt8) (sender target payload : List Char) :
    buildPacket command sender target payload = (built command sender target payload).toBytes := by
  have hzero : List.replicate 1024 (0 : UInt8) =
      [] ++ ([0] ++ ([0, 0] ++ ((CharArray.zero 32).bytes ++ ((CharArray.zero 32).bytes ++
        ((CharArray.zero 957).bytes ++ []))))) := by
    simp only [CharArray.zero, List.append_nil, List.replicate_append_replicate]
    rfl
  unfold buildPacket built packed ChatPacket.toBytes
  dsimp only
  generalize UInt16.ofNat ((encode payload).take 957).length = len
  have hcommand (c : List UInt8) : writeAt ([] ++ ([0] ++ c)) 0 [command] = [command] ++ c :=
    writeAt_field rfl (Nat.le_refl _)
  have hlen (c : List UInt8) : writeAt ([command] ++ ([0, 0] ++ c)) 1
      [len.toUInt8, (len >>> 8).toUInt8] = [command, len.toUInt8, (len >>> 8).toUInt8] ++ c :=
    writeAt_field rfl (Nat.le_refl _)
  -- each write goes behind what is already in place
  rw [hzero, hcommand, hlen, writeAt_zeroed 32 (encode sender) (by simp), ← List.append_assoc,
    writeAt_zeroed 32 (encode target) (by simp), ← List.append_assoc,
    writeAt_zeroed 957 (encode payload) (by simp), List.append_nil]

/-- The packet the server reads from them. -/
def Request.packet (r : Request) : ChatPacket :=
  .ofBytes ⟨r.bytes, by rw [bytes, buildPacket_eq, ChatPacket.length_toBytes]⟩

theorem Request.packet_eq (r : Request) :
    r.packet = built r.command r.sender r.target r.payload := by
  rw [← ChatPacket.ofBytes_toBytes (built r.command r.sender r.target r.payload)]
  unfold Request.packet
  congr 2
  exact buildPacket_eq _ _ _ _

/-! ### What the bridge reads -/

/-- **The fields `parsePacket` reads** from the bytes of a struct. -/
theorem parsePacket_toBytes (p : ChatPacket) :
    parsePacket p.toBytes = some {
      command := p.command
      payloadLen := p.payloadLen.toNat
      sender := Js.trim (Js.removeNul (decode p.sender.bytes))
      target := Js.trim (Js.removeNul (decode p.target.bytes))
      payload := Js.removeNul (decode (p.payload.bytes.take p.payloadLen.toNat)) } := by
  -- the slices begin and end with the fields
  have hsender := p.sender.size_eq
  have htarget := p.target.size_eq
  have hfields : p.toBytes = p.command :: p.payloadLen.toUInt8 :: (p.payloadLen >>> 8).toUInt8 ::
      (p.sender.bytes ++ (p.target.bytes ++ p.payload.bytes)) := by
    simp [ChatPacket.toBytes]
  -- the two bytes of `payload_len`, the low one first
  have hlen : (p.toBytes.getD 1 0).toNat + 256 * (p.toBytes.getD 2 0).toNat =
      p.payloadLen.toNat := by
    rw [hfields]
    exact ChatPacket.littleEndian p.payloadLen
  have hs : slice p.toBytes 3 35 = p.sender.bytes := by
    rw [hfields]
    show (p.sender.bytes ++ (p.target.bytes ++ p.payload.bytes)).take 32 = _
    exact List.take_left' hsender
  have ht : slice p.toBytes 35 67 = p.target.bytes := by
    rw [hfields]
    show ((p.sender.bytes ++ (p.target.bytes ++ p.payload.bytes)).drop 32).take 32 = _
    rw [List.drop_left' hsender, List.take_left' htarget]
  have hp (n : ℕ) : slice p.toBytes 67 (67 + n) = p.payload.bytes.take n := by
    rw [hfields]
    show ((p.sender.bytes ++ (p.target.bytes ++ p.payload.bytes)).drop (32 + 32)).take _ = _
    rw [← List.drop_drop, List.drop_left' hsender, List.drop_left' htarget,
      Nat.add_sub_cancel_left]
  have hfull : ¬ p.toBytes.length < 1024 := by simp
  unfold parsePacket
  rw [if_neg hfull]
  simp only [hlen, hs, ht, hp]
  rw [hfields]
  rfl

end ChatSystem
