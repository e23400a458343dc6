/-
ChatSystem/Encoders.lean

Two encoders of one packet format.  For each of the seven packets a client
sends, the builder of `client_net.c` and the bridge fed by `useChat.js` are
compared byte by byte, for every NUL-free text.

They agree exactly when nothing reaches the last byte of its field
(`encoders_agree_iff`): `client_net.c` leaves that byte to the NUL, the limits
of the bridge are the sizes of the fields themselves.  A user name of 16
letters `ñ` is long enough (`not_always_encodersAgree`).
-/
import ChatSystem.Clients

namespace ChatSystem

open CStr Utf8

/-- A text without U+0000. -/
def NulFree (s : List Char) : Prop := Js.nul ∉ s

instance (s : List Char) : Decidable (NulFree s) := inferInstanceAs (Decidable (_ ∉ _))

theorem NulFree.bytes {s : List Char} (h : NulFree s) : (0 : UInt8) ∉ encode s :=
  mt (mem_encode_iff (by decide) s).mp h

theorem NulFree.cstr {s : List Char} (h : NulFree s) : CStr.cstr (encode s) = encode s :=
  cstr_eq_self h.bytes

theorem nulFree_nil : NulFree [] := List.not_mem_nil

/-- A text that leaves the last byte of a name field to the NUL. -/
def FitsName (s : List Char) : Prop := (encode s).length ≤ 31

/-- A text that leaves the last byte of the payload to the NUL. -/
def FitsPayload (s : List Char) : Prop := (encode s).length ≤ 956

instance (s : List Char) : Decidable (FitsName s) := inferInstanceAs (Decidable (_ ≤ _))

instance (s : List Char) : Decidable (FitsPayload s) := inferInstanceAs (Decidable (_ ≤ _))

/-- The last bytes of the fields `sender`, `target` and `payload` are NULs. -/
def EndsWithNuls (bytes : List UInt8) : Prop :=
  bytes[34]? = some 0 ∧ bytes[66]? = some 0 ∧ bytes[1023]? = some 0

/-- The two encoders write the same bytes, each field ended by a NUL. -/
def Agree (pkt : ChatPacket) (r : Request) : Prop :=
  pkt.toBytes = r.bytes ∧ EndsWithNuls pkt.toBytes ∧ EndsWithNuls r.bytes

/-! ### One packet -/

theorem padded_succ {n : ℕ} {s : List UInt8} (hs : s.length ≤ n) :
    (CharArray.padded (n + 1) s).bytes = (CharArray.padded n s).bytes ++ [0] := by
  have hzeros : n + 1 - s.length = (n - s.length) + 1 := by omega
  rw [CharArray.padded_bytes (by omega), CharArray.padded_bytes hs, hzeros,
    List.replicate_succ', List.append_assoc]

theorem getElem?_append_cons {a : List UInt8} {i : ℕ} (ha : a.length = i) (x : UInt8)
    (b : List UInt8) : (a ++ x :: b)[i]? = some x := by
  rw [← ha, List.getElem?_append_right (Nat.le_refl _), Nat.sub_self]
  rfl

theorem endsWithNuls_of_parts {a b c : List UInt8} (ha : a.length = 34) (hb : b.length = 31)
    (hc : c.length = 956) : EndsWithNuls (a ++ 0 :: (b ++ 0 :: (c ++ [0]))) := by
  have hsecond : a ++ 0 :: (b ++ 0 :: (c ++ [0])) = (a ++ 0 :: b) ++ 0 :: (c ++ [0]) := by simp
  have hthird : a ++ 0 :: (b ++ 0 :: (c ++ [0])) = (a ++ 0 :: (b ++ 0 :: c)) ++ 0 :: [] := by
    simp
  refine ⟨getElem?_append_cons ha _ _, ?_, ?_⟩
  · rw [hsecond]
    exact getElem?_append_cons (by simp [ha, hb]) _ _
  · rw [hthird]
    exact getElem?_append_cons (by simp [ha, hb, hc]) _ _

theorem endsWithNuls_packed {command : UInt8} {len : UInt16} {s t p : List UInt8}
    (hs : s.length ≤ 31) (ht : t.length ≤ 31) (hp : p.length ≤ 956) :
    EndsWithNuls (packed command len s t p).toBytes := by
  have hbytes : (packed command len s t p).toBytes =
      ([command, len.toUInt8, (len >>> 8).toUInt8] ++ (CharArray.padded 31 s).bytes) ++
        0 :: ((CharArray.padded 31 t).bytes ++ 0 :: ((CharArray.padded 956 p).bytes ++ [0])) := by
    show [command, len.toUInt8, (len >>> 8).toUInt8] ++ (CharArray.padded 32 s).bytes ++
      (CharArray.padded 32 t).bytes ++ (CharArray.padded 957 p).bytes = _
    rw [padded_succ hs, padded_succ ht, padded_succ hp]
    simp
  rw [hbytes]
  exact endsWithNuls_of_parts (by simp) (by simp) (by simp)

theorem toBytes_injective {p q : ChatPacket} (h : p.toBytes = q.toBytes) : p = q := by
  rw [← p.ofBytes_toBytes, ← q.ofBytes_toBytes]
  congr 2

/-- **Both encoders write the same packet** exactly when neither cuts
anything off. -/
theorem agree_iff {command : UInt8} {s t p : List Char} (hs : NulFree s) (ht : NulFree t)
    (hp : NulFree p) :
    Agree (fillPacket command (encode s) (encode t) (encode p)) ⟨command, s, t, p⟩ ↔
      FitsName s ∧ FitsName t ∧ FitsPayload p := by
  have hfilled := fillPacket_eq command (encode s) (encode t) (encode p)
  rw [hs.cstr, ht.cstr, hp.cstr] at hfilled
  unfold Agree Request.bytes
  rw [buildPacket_eq, hfilled]
  constructor
  · -- equal packets have equal fields, and the bridge's may be full
    rintro ⟨heq, -⟩
    have hfields := toBytes_injective heq
    simp only [built, packed, ChatPacket.mk.injEq] at hfields
    obtain ⟨-, -, hsender, htarget, hpayload⟩ := hfields
    exact ⟨(CharArray.padded_take_eq_iff hs.bytes (by decide)).mp hsender,
      (CharArray.padded_take_eq_iff ht.bytes (by decide)).mp htarget,
      (CharArray.padded_take_eq_iff hp.bytes (by decide)).mp hpayload⟩
  · rintro ⟨hsfit, htfit, hpfit⟩
    have hsame : built command s t p = packed command
        (UInt16.ofNat ((encode p).take 956).length) ((encode s).take 31) ((encode t).take 31)
        ((encode p).take 956) := by
      rw [List.take_of_length_le hsfit, List.take_of_length_le htfit,
        List.take_of_length_le hpfit, built, List.take_of_length_le (Nat.le_succ_of_le hpfit)]
    have hends : EndsWithNuls (built command s t p).toBytes :=
      endsWithNuls_packed hsfit htfit hpfit
    rw [← hsame]
    exact ⟨rfl, hends, hends⟩

/-! ### The seven packets -/

/-- The seven builders of `client_net.c` and the bridge, given what `useChat.js`
passes for the same action, agree. -/
structure EncodersAgree (username target message : List Char) : Prop where
  register : Agree (netRegister (encode username)) (webRegister username)
  broadcast : Agree (netBroadcast (encode username) (encode message))
    (sendBroadcast username message)
  direct : Agree (netDirect (encode username) (encode target) (encode message))
    (sendDirect username target message)
  list : Agree (netList (encode username)) (listUsers username)
  info : Agree (netInfo (encode username) (encode target)) (getInfo username target)
  status : Agree (netStatus (encode username) (encode message)) (changeStatus username message)
  logout : Agree (netLogout (encode username)) (logout username)

section Seven

variable {username target message : List Char}

/-- **The two encoders agree** on the seven packets exactly when the texts in
them stay clear of the last bytes of their fields; and so for each packet
with the texts it carries. -/
theorem encoders_agree_iff (hu : NulFree username) (ht : NulFree target) (hm : NulFree message) :
    (EncodersAgree username target message ↔
      FitsName username ∧ FitsName target ∧ FitsPayload message) ∧
    (Agree (netRegister (encode username)) (webRegister username) ↔ FitsName username) ∧
    (Agree (netBroadcast (encode username) (encode message)) (sendBroadcast username message) ↔
      FitsName username ∧ FitsPayload message) ∧
    (Agree (netDirect (encode username) (encode target) (encode message))
      (sendDirect username target message) ↔
      FitsName username ∧ FitsName target ∧ FitsPayload message) ∧
    (Agree (netList (encode username)) (listUsers username) ↔ FitsName username) ∧
    (Agree (netInfo (encode username) (encode target)) (getInfo username target) ↔
      FitsName username ∧ FitsName target) ∧
    (Agree (netStatus (encode username) (encode message)) (changeStatus username message) ↔
      FitsName username ∧ FitsPayload message) ∧
    (Agree (netLogout (encode username)) (logout username) ↔ FitsName username) := by
  have hname : FitsName [] := Nat.zero_le _
  have hpayload : FitsPayload [] := Nat.zero_le _
  -- a REGISTER carries the name as its payload too
  have hwider : FitsName username → FitsPayload username := fun h => h.trans (by decide)
  have hregister : Agree (netRegister (encode username)) (webRegister username) ↔
      FitsName username :=
    (agree_iff hu nulFree_nil hu).trans ⟨fun h => h.1, fun h => ⟨h, hname, hwider h⟩⟩
  have hbroadcast : Agree (netBroadcast (encode username) (encode message))
      (sendBroadcast username message) ↔ FitsName username ∧ FitsPayload message :=
    (agree_iff hu nulFree_nil hm).trans ⟨fun h => ⟨h.1, h.2.2⟩, fun h => ⟨h.1, hname, h.2⟩⟩
  have hdirect : Agree (netDirect (encode username) (encode target) (encode message))
      (sendDirect username target message) ↔
      FitsName username ∧ FitsName target ∧ FitsPayload message := agree_iff hu ht hm
  have hlist : Agree (netList (encode username)) (listUsers username) ↔ FitsName username :=
    (agree_iff hu nulFree_nil nulFree_nil).trans ⟨fun h => h.1, fun h => ⟨h, hname, hpayload⟩⟩
  have hinfo : Agree (netInfo (encode username) (encode target)) (getInfo username target) ↔
      FitsName username ∧ FitsName target :=
    (agree_iff hu ht nulFree_nil).trans ⟨fun h => ⟨h.1, h.2.1⟩, fun h => ⟨h.1, h.2, hpayload⟩⟩
  have hstatus : Agree (netStatus (encode username) (encode message))
      (changeStatus username message) ↔ FitsName username ∧ FitsPayload message :=
    (agree_iff hu nulFree_nil hm).trans ⟨fun h => ⟨h.1, h.2.2⟩, fun h => ⟨h.1, hname, h.2⟩⟩
  have hlogout : Agree (netLogout (encode username)) (logout username) ↔ FitsName username :=
    (agree_iff hu nulFree_nil nulFree_nil).trans ⟨fun h => h.1, fun h => ⟨h, hname, hpayload⟩⟩
  refine ⟨⟨fun h => hdirect.mp h.direct, ?_⟩, hregister, hbroadcast, hdirect, hlist, hinfo,
    hstatus, hlogout⟩
  rintro ⟨hufit, htfit, hmfit⟩
  exact ⟨hregister.mpr hufit, hbroadcast.mpr ⟨hufit, hmfit⟩, hdirect.mpr ⟨hufit, htfit, hmfit⟩,
    hlist.mpr hufit, hinfo.mpr ⟨hufit, htfit⟩, hstatus.mpr ⟨hufit, hmfit⟩, hlogout.mpr hufit⟩

end Seven

/-- Sixteen letters `ñ`, 32 bytes. -/
def sixteenEnyes : List Char := List.replicate 16 'ñ'

/-- The encoders agree on a short exchange. -/
theorem encoders_agree_alice :
    EncodersAgree "alice".toList "bob".toList "hola".toList ↔
      FitsName "alice".toList ∧ FitsName "bob".toList ∧ FitsPayload "hola".toList :=
  (encoders_agree_iff (by decide) (by decide) (by decide)).1

/-- **The encoders differ** on a name that fills its field. -/
theorem not_always_encodersAgree :
    ¬ ∀ username target message, NulFree username → NulFree target → NulFree message →
      EncodersAgree username target message := by
  intro hall
  have hfree : NulFree sixteenEnyes := by decide
  have hagree := (hall sixteenEnyes [] [] hfree nulFree_nil nulFree_nil).logout
  have hfits := ((agree_iff hfree nulFree_nil nulFree_nil).mp hagree).1
  have hlen : (encode sixteenEnyes).length = 32 := by decide
  unfold FitsName at hfits
  omega

end ChatSystem
