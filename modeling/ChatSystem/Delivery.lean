/-
ChatSystem/Delivery.lean

A message from one client's keyboard to another's screen: one of two encoders
packs it, the server copies its fields into a new packet, and one of two
decoders reads that.  Whichever encoder and decoder are at work, sender,
target and text arrive as they were (`delivery`), for names of up to 31 bytes
and texts of up to 956 bytes of UTF-8.

Under these limits the two encoders write the same packet (`agree_iff`), the
relay cuts nothing off, and what the C client reads up to the NUL is what the
bridge reads by `payload_len`.
-/
import ChatSystem.Encoders
import ChatSystem.Provenance

namespace ChatSystem

open CStr Utf8 Lts

/-- A user name: 1 to 31 bytes, no NUL, no white space around it. -/
structure IsName (s : List Char) : Prop where
  nulFree : NulFree s
  pos : 1 ≤ (encode s).length
  fits : FitsName s
  trimmed : Js.trim s = s

/-- A message: 1 to 956 bytes, no NUL. -/
structure IsMessage (s : List Char) : Prop where
  nulFree : NulFree s
  pos : 1 ≤ (encode s).length
  fits : FitsPayload s

/-- A `CMD_MSG` that both kinds of clients read as this message: the C strings
of its fields and what `parsePacket` makes of its bytes. -/
structure Shows (pkt : ChatPacket) (sender target message : List Char) : Prop where
  command : pkt.command = cmdMsg
  senderPtr : cstr pkt.senderPtr = encode sender
  targetPtr : cstr pkt.targetPtr = encode target
  payloadPtr : cstr pkt.payloadPtr = encode message
  parsed : parsePacket pkt.toBytes =
    some ⟨cmdMsg, (encode message).length, sender, target, message⟩

/-- Either client's packet for a broadcast. -/
def BroadcastBy (sender message : List Char) (pkt : ChatPacket) : Prop :=
  pkt = netBroadcast (encode sender) (encode message) ∨ pkt = (sendBroadcast sender message).packet

/-- Either client's packet for a direct message. -/
def DirectBy (sender target message : List Char) (pkt : ChatPacket) : Prop :=
  pkt = netDirect (encode sender) (encode target) (encode message) ∨
    pkt = (sendDirect sender target message).packet

/-! ### Reading a packet -/

/-- A name is read from its field. -/
theorem read_name {s : List Char} (h0 : NulFree s) (hfits : FitsName s) (htrim : Js.trim s = s) :
    Js.trim (Js.removeNul (decode (CharArray.padded 32 (encode s)).bytes)) = s := by
  rw [CharArray.padded_bytes (Nat.le_succ_of_le hfits), Js.removeNul_decode_zeros h0.bytes,
    decode_encode, htrim]

/-- The fields of a struct are read up to their NULs. -/
theorem cstr_field {n : ℕ} {s : List UInt8} (h0 : (0 : UInt8) ∉ s) (hs : s.length < n)
    (rest : List UInt8) : cstr ((CharArray.padded n s).bytes ++ rest) = s := by
  have hterm : (CharArray.padded n s).Terminated := by
    apply CharArray.terminated_of_length_str_lt
    rw [CharArray.str_padded h0, List.length_take]
    omega
  have hstr : (CharArray.padded n s).str = s := by
    rw [CharArray.str_padded h0, List.take_of_length_le hs.le]
  rw [cstr_append_of_mem hterm]
  exact hstr

/-- **Both clients read what is packed.** -/
theorem shows_packed {s t m : List Char} (hs : IsName s) (ht : NulFree t) (htfits : FitsName t)
    (httrim : Js.trim t = t) (hm : IsMessage m) :
    Shows (packed cmdMsg (UInt16.ofNat (encode m).length) (encode s) (encode t) (encode m))
      s t m := by
  have hslt : (encode s).length < 32 := Nat.lt_succ_of_le hs.fits
  have htlt : (encode t).length < 32 := Nat.lt_succ_of_le htfits
  have hmlt : (encode m).length < 957 := Nat.lt_succ_of_le hm.fits
  constructor
  · rfl
  · -- the terminal reads up to the first NUL
    unfold packed ChatPacket.senderPtr
    rw [List.append_assoc]
    exact cstr_field hs.nulFree.bytes hslt _
  · exact cstr_field ht.bytes htlt _
  · have hfield := cstr_field hm.nulFree.bytes hmlt []
    rwa [List.append_nil] at hfield
  · -- the bridge reads the whole field and cuts what it has decoded
    have hlen : (UInt16.ofNat (encode m).length).toNat = (encode m).length :=
      UInt16.toNat_ofNat_of_lt (hmlt.trans (by decide))
    have htext : (CharArray.padded 957 (encode m)).bytes.take (encode m).length = encode m := by
      rw [CharArray.padded_bytes hmlt.le, List.take_left]
    rw [parsePacket_toBytes]
    simp only [packed]
    rw [hlen, htext, decode_encode, Js.removeNul_eq_self hm.nulFree,
      read_name hs.nulFree hs.fits hs.trimmed, read_name ht htfits httrim]

/-! ### Through the server -/

/-- **Both encoders** write the packet that is read back. -/
theorem packet_of_request {command : UInt8} {s t m : List Char} (hs : IsName s) (ht : NulFree t)
    (htfits : FitsName t) (hm : IsMessage m) {pkt : ChatPacket}
    (hpkt : pkt = fillPacket command (encode s) (encode t) (encode m) ∨
      pkt = Request.packet ⟨command, s, t, m⟩) :
    pkt = packed command (UInt16.ofNat (encode m).length) (encode s) (encode t) (encode m) := by
  have hfilled : fillPacket command (encode s) (encode t) (encode m) =
      packed command (UInt16.ofNat (encode m).length) (encode s) (encode t) (encode m) := by
    rw [fillPacket_eq, hs.nulFree.cstr, ht.cstr, hm.nulFree.cstr, List.take_of_length_le hs.fits,
      List.take_of_length_le htfits, List.take_of_length_le hm.fits]
  rcases hpkt with rfl | rfl
  · exact hfilled
  · rw [Request.packet_eq, built, List.take_of_length_le (Nat.le_succ_of_le hm.fits)]

/-- The relay of a packet that fits. -/
theorem relay_packed {command : UInt8} {len : UInt16} {s t m target : List UInt8}
    (hs : (0 : UInt8) ∉ s) (hsfits : s.length ≤ 31) (hm : (0 : UInt8) ∉ m)
    (hmfits : m.length ≤ 956) :
    relay (packed command len s t m) target =
      packed cmdMsg len s ((cstr target).take 31) m := by
  have hsender : cstr (packed command len s t m).senderPtr = s := by
    unfold packed ChatPacket.senderPtr
    rw [List.append_assoc]
    exact cstr_field hs (Nat.lt_succ_of_le hsfits) _
  have hpayload : cstr (packed command len s t m).payloadPtr = m := by
    have hfield := cstr_field hm (Nat.lt_succ_of_le hmfits) []
    rwa [List.append_nil] at hfield
  rw [relay_eq, hsender, hpayload, List.take_of_length_le hsfits, List.take_of_length_le hmfits]
  rfl

theorem shows_broadcast {s m : List Char} (hs : IsName s) (hm : IsMessage m) {pkt : ChatPacket}
    (hpkt : BroadcastBy s m pkt) : Shows (handleBroadcast pkt) s "ALL".toList m := by
  have hall : (cstr targetAll).take 31 = encode "ALL".toList := by decide
  rw [packet_of_request hs nulFree_nil (by decide) hm hpkt, handleBroadcast,
    relay_packed hs.nulFree.bytes hs.fits hm.nulFree.bytes hm.fits, hall]
  exact shows_packed hs (by decide) (by decide) (by decide) hm

theorem shows_direct {s t m : List Char} (hs : IsName s) (ht : IsName t) (hm : IsMessage m)
    {pkt : ChatPacket} (hpkt : DirectBy s t m pkt) : Shows (handleDirect pkt) s t m := by
  have hpacked := packet_of_request hs ht.nulFree ht.fits hm hpkt
  have htarget : (cstr pkt.targetPtr).take 31 = encode t := by
    have hfield : cstr pkt.targetPtr = encode t := by
      rw [hpacked]
      exact cstr_field ht.nulFree.bytes (Nat.lt_succ_of_le ht.fits) _
    rw [hfield, List.take_of_length_le ht.fits]
  rw [handleDirect, hpacked, relay_packed hs.nulFree.bytes hs.fits hm.nulFree.bytes hm.fits,
    ← hpacked, htarget]
  exact shows_packed hs ht.nulFree ht.fits ht.trimmed hm

/-- **Delivery.**  A broadcast and a direct message, packed by either client,
relayed by the server and read by either client, arrive as `MSG` with the
sender, the target and the text they were sent with. -/
theorem delivery {s t m : List Char} (hs : IsName s) (ht : IsName t) (hm : IsMessage m) :
    (∀ pkt, BroadcastBy s m pkt → Shows (handleBroadcast pkt) s "ALL".toList m) ∧
    (∀ pkt, DirectBy s t m pkt → Shows (handleDirect pkt) s t m) :=
  ⟨fun _ hpkt => shows_broadcast hs hm hpkt, fun _ hpkt => shows_direct hs ht hm hpkt⟩

theorem delivery_alice :
    (∀ pkt, BroadcastBy "alice".toList "hola ñ".toList pkt →
      Shows (handleBroadcast pkt) "alice".toList "ALL".toList "hola ñ".toList) ∧
    (∀ pkt, DirectBy "alice".toList "bob".toList "hola ñ".toList pkt →
      Shows (handleDirect pkt) "alice".toList "bob".toList "hola ñ".toList) :=
  delivery ⟨by decide, by decide, by decide, by decide⟩
    ⟨by decide, by decide, by decide, by decide⟩ ⟨by decide, by decide, by decide⟩

/-- So in every run: what a thread is sending on behalf of a client's message
shows that message. -/
theorem shows_of_reachable {w : World} (h : Reachable step World.init w) {th : Tid} {call : Sending}
    (hcall : w.sending th = some call) {s t m : List Char} (hs : IsName s) (ht : IsName t)
    (hm : IsMessage m) {req : ChatPacket} {slot : ℕ} :
    (call.site = .broadcast req slot → BroadcastBy s m req →
      Shows call.pkt s "ALL".toList m) ∧
    (call.site = .direct req slot → DirectBy s t m req → Shows call.pkt s t m) := by
  have hmakes := ((provenance_of_reachable h).pending th call hcall).1
  constructor
  · intro hsite hreq
    rw [hsite] at hmakes
    rw [show call.pkt = handleBroadcast req from hmakes]
    exact shows_broadcast hs hm hreq
  · intro hsite hreq
    rw [hsite] at hmakes
    rw [show call.pkt = handleDirect req from hmakes]
    exact shows_direct hs ht hm hreq

end ChatSystem
