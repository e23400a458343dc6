/-
ChatSystem/Protocol.lean

`protocolo.h`: the command codes, the status strings and the packed struct
`ChatPacket` of 1024 bytes that both directions of a connection carry.

The fields `sender`, `target` and `payload` lie next to each other in the
struct.  A pointer to one of them is therefore a pointer into the rest of
the packet (`senderPtr`, `targetPtr`, `payloadPtr`): a received packet need
not have a NUL in a field, and then the C string there runs on into the
fields behind it.
-/
import ChatSystem.CStr

namespace ChatSystem

open CStr

/-! ### Constants -/

def cmdRegister : UInt8 := 1
def cmdBroadcast : UInt8 := 2
def cmdDirect : UInt8 := 3
def cmdList : UInt8 := 4
def cmdInfo : UInt8 := 5
def cmdStatus : UInt8 := 6
def cmdLogout : UInt8 := 7

def cmdOk : UInt8 := 8
def cmdError : UInt8 := 9
def cmdMsg : UInt8 := 10
def cmdUserList : UInt8 := 11
def cmdUserInfo : UInt8 := 12
def cmdDisconnected : UInt8 := 13

/-- `STATUS_ACTIVO`. -/
def statusActivo : List UInt8 := utf8 "ACTIVE"

/-- `STATUS_OCUPADO`. -/
def statusOcupado : List UInt8 := utf8 "BUSY"

/-- `STATUS_INACTIVO`. -/
def statusInactivo : List UInt8 := utf8 "INACTIVE"

/-- `INACTIVITY_TIMEOUT`, in seconds. -/
def inactivityTimeout : ℤ := 60

/-! ### The packet -/

/-! The last byte of a string field is left for its NUL. -/

theorem name_limit : 31 ≤ 32 := by decide

theorem payload_limit : 956 ≤ 957 := by decide

theorem status_limit : 15 ≤ 16 := by decide

/-- `ChatPacket`. -/
structure ChatPacket where
  command : UInt8
  payloadLen : UInt16
  sender : CharArray 32
  target : CharArray 32
  payload : CharArray 957
deriving DecidableEq, Repr

namespace ChatPacket

/-- `memset(&pkt, 0, sizeof(pkt))`. -/
def zero : ChatPacket :=
  ⟨0, 0, .zero 32, .zero 32, .zero 957⟩

/-- `pkt->sender` as a pointer. -/
def senderPtr (p : ChatPacket) : List UInt8 :=
  p.sender.bytes ++ p.target.bytes ++ p.payload.bytes

/-- `pkt->target` as a pointer. -/
def targetPtr (p : ChatPacket) : List UInt8 :=
  p.target.bytes ++ p.payload.bytes

/-- `pkt->payload` as a pointer. -/
def payloadPtr (p : ChatPacket) : List UInt8 :=
  p.payload.bytes

/-- The bytes of the packed struct, `payload_len` in little-endian order. -/
def toBytes (p : ChatPacket) : List UInt8 :=
  [p.command, p.payloadLen.toUInt8, (p.payloadLen >>> 8).toUInt8]
    ++ p.sender.bytes ++ p.target.bytes ++ p.payload.bytes

/-- `sizeof(ChatPacket)`. -/
@[simp] theorem length_toBytes (p : ChatPacket) : p.toBytes.length = 1024 := by
  simp [toBytes]

/-- 1024 bytes read as the packed struct. -/
def ofBytes (b : CharArray 1024) : ChatPacket where
  command := b.bytes.getD 0 0
  payloadLen := UInt16.ofNat ((b.bytes.getD 1 0).toNat + 256 * (b.bytes.getD 2 0).toNat)
  sender := ⟨(b.bytes.drop 3).take 32, by simp⟩
  target := ⟨(b.bytes.drop 35).take 32, by simp⟩
  payload := ⟨(b.bytes.drop 67).take 957, by simp⟩

theorem littleEndian (n : UInt16) :
    n.toUInt8.toNat + 256 * (n >>> 8).toUInt8.toNat = n.toNat := by
  have hn : n.toNat < 65536 := n.toNat_lt
  have hlow : n.toUInt8.toNat = n.toNat % 256 := UInt16.toNat_toUInt8 n
  have hhigh : (n >>> 8).toUInt8.toNat = n.toNat / 256 := by
    rw [UInt16.toNat_toUInt8, UInt16.toNat_shiftRight]
    show (n.toNat >>> 8) % 256 = _
    rw [Nat.shiftRight_eq_div_pow]
    omega
  rw [hlow, hhigh, Nat.mod_add_div]

/-- The bytes sent are the struct received. -/
theorem ofBytes_toBytes (p : ChatPacket) : ofBytes ⟨p.toBytes, p.length_toBytes⟩ = p := by
  obtain ⟨command, payloadLen, sender, target, payload⟩ := p
  have hsender := sender.size_eq
  have htarget := target.size_eq
  have hpayload := payload.size_eq
  unfold ofBytes toBytes
  simp only [ChatPacket.mk.injEq]
  refine ⟨rfl, ?_, CharArray.ext ?_, CharArray.ext ?_, CharArray.ext ?_⟩
  · show UInt16.ofNat (payloadLen.toUInt8.toNat + 256 * (payloadLen >>> 8).toUInt8.toNat) = _
    rw [littleEndian]
    exact UInt16.ofNat_toNat
  · show ((sender.bytes ++ target.bytes) ++ payload.bytes).take 32 = sender.bytes
    rw [List.append_assoc, List.take_left' hsender]
  · show (((sender.bytes ++ target.bytes) ++ payload.bytes).drop 32).take 32 = target.bytes
    rw [List.append_assoc, List.drop_left' hsender, List.take_left' htarget]
  · show (((sender.bytes ++ target.bytes) ++ payload.bytes).drop 64).take 957 = payload.bytes
    rw [List.drop_left' (by rw [List.length_append, hsender, htarget]),
      List.take_of_length_le hpayload.le]

/-- With a NUL in the sender field the sender string is the field's own; so is
the target string with one in the target field. -/
theorem cstr_senderPtr {p : ChatPacket} (h : p.sender.Terminated) :
    cstr p.senderPtr = p.sender.str := by
  rw [senderPtr, List.append_assoc]
  exact cstr_append_of_mem h

theorem cstr_targetPtr {p : ChatPacket} (h : p.target.Terminated) :
    cstr p.targetPtr = p.target.str :=
  cstr_append_of_mem h

end ChatPacket

end ChatSystem
