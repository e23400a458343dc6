/-
ChatSystem/CodecCut.lean

The bridge's codec against itself: `parsePacket` after `buildPacket`.  The
command and the two names come back whenever they fit into their fields.  The
payload is cut with `payloadBuf.slice(0, 957)`, at a byte and not at a
character; what is left of a character at the cut is read back as U+FFFD.

So the payload comes back as the whole characters that fit (`wholeChars`)
exactly when the cut is not inside a character
(`parsePacket_buildPacket_iff`).
-/
import ChatSystem.Clients
import ChatSystem.Encoders

namespace ChatSystem

open CStr Utf8

/-- What `parsePacket(buildPacket(…))` returns, `payload_len` left out. -/
def roundTrip (command : UInt8) (sender target payload : List Char) :
    Option (UInt8 × List Char × List Char × List Char) :=
  (parsePacket (buildPacket command sender target payload)).map
    fun r => (r.command, r.sender, r.target, r.payload)

/-- A name that comes back: no NUL, 32 bytes at most, no white space around it. -/
structure FillsName (s : List Char) : Prop where
  nulFree : NulFree s
  fits : (encode s).length ≤ 32
  trimmed : Js.trim s = s

theorem read_fillsName {s : List Char} (hs : FillsName s) :
    Js.trim (Js.removeNul (decode (CharArray.padded 32 (encode s)).bytes)) = s := by
  rw [CharArray.padded_bytes hs.fits, Js.removeNul_decode_zeros hs.nulFree.bytes, decode_encode,
    hs.trimmed]

/-- **What comes back**: the payload is read from its first 957 bytes. -/
theorem roundTrip_eq (command : UInt8) {s t p : List Char} (hs : FillsName s) (ht : FillsName t)
    (hp : NulFree p) :
    roundTrip command s t p = some (command, s, t, decode ((encode p).take 957)) := by
  have hle : ((encode p).take 957).length ≤ 957 := List.length_take_le _ _
  have hlen : (UInt16.ofNat ((encode p).take 957).length).toNat = ((encode p).take 957).length :=
    UInt16.toNat_ofNat_of_lt (hle.trans_lt (by decide))
  have hpayload : (CharArray.padded 957 (encode p)).bytes.take ((encode p).take 957).length =
      (encode p).take 957 := List.take_left
  have hfree : Js.nul ∉ decode ((encode p).take 957) := fun h =>
    notMem_take hp.bytes 957 (Js.nul_mem_decode.mp h)
  unfold roundTrip
  rw [buildPacket_eq, parsePacket_toBytes]
  simp only [built, packed, Option.map_some]
  rw [read_fillsName hs, read_fillsName ht, hlen, hpayload, Js.removeNul_eq_self hfree]

/-- **The codec keeps whole characters** exactly when the payload fits or some
of its characters end at byte 957. -/
theorem parsePacket_buildPacket_iff (command : UInt8) {s t p : List Char} (hs : FillsName s)
    (ht : FillsName t) (hp : NulFree p) :
    roundTrip command s t p = some (command, s, t, wholeChars 957 p) ↔
      (encode p).length ≤ 957 ∨ ∃ k, (encode (p.take k)).length = 957 := by
  rw [roundTrip_eq command hs ht hp, ← decode_take_eq_iff]
  constructor
  · intro h
    simp only [Option.some.injEq, Prod.mk.injEq] at h
    exact h.2.2.2
  · intro h
    rw [h]

theorem parsePacket_buildPacket_iff_hola :
    roundTrip cmdDirect "alice".toList "bob".toList "hola ñ".toList =
        some (cmdDirect, "alice".toList, "bob".toList, wholeChars 957 "hola ñ".toList) ↔
      (encode "hola ñ".toList).length ≤ 957 ∨
        ∃ k, (encode ("hola ñ".toList.take k)).length = 957 :=
  parsePacket_buildPacket_iff cmdDirect ⟨by decide, by decide, by decide⟩
    ⟨by decide, by decide, by decide⟩ (by decide)

/-- In particular a payload of at most 957 bytes comes back as it is. -/
theorem roundTrip_of_fits (command : UInt8) {s t p : List Char} (hs : FillsName s)
    (ht : FillsName t) (hp : NulFree p) (hfits : (encode p).length ≤ 957) :
    roundTrip command s t p = some (command, s, t, p) := by
  rw [roundTrip_eq command hs ht hp, (decode_take_eq_iff 957 p).mpr (.inl hfits),
    wholeChars_of_fits hfits]

/-! ### Half a character -/

/-- The first 957 bytes of 479 letters `ñ` end inside the last of them. -/
theorem length_encode_enyes (n : ℕ) : (encode (List.replicate n 'ñ')).length = 2 * n := by
  induction n with
  | zero => rfl
  | succ n ih =>
    have hone : (String.utf8EncodeChar 'ñ').length = 2 := by decide
    rw [List.replicate_succ, encode_cons, List.length_append, ih, hone]
    omega

theorem roundTrip_cuts_character :
    ¬ ∀ (command : UInt8) (s t p : List Char), FillsName s → FillsName t → NulFree p →
      roundTrip command s t p = some (command, s, t, wholeChars 957 p) := by
  intro hall
  have hfree : NulFree (List.replicate 479 'ñ') := fun h =>
    absurd (List.eq_of_mem_replicate h) (by decide)
  have hname : FillsName [] := ⟨nulFree_nil, Nat.zero_le _, rfl⟩
  have hwhole := hall cmdBroadcast [] [] _ hname hname hfree
  rw [roundTrip_eq cmdBroadcast hname hname hfree] at hwhole
  simp only [Option.some.injEq, Prod.mk.injEq, true_and, decode_take_eq_iff,
    List.take_replicate, length_encode_enyes] at hwhole
  rcases hwhole with hfits | ⟨k, hk⟩ <;> omega

end ChatSystem
