/-
ChatSystem/Packets.lean

The form of every packet the server sends, whatever bytes it has received.

* Each of its three text fields is terminated, so the terminal client never
  reads past the field it started in (`displayable_of_reachable`).
* `payload_len` is the length of the payload string in the packets the server
  fills itself.  A relay copies the client's `payload_len` next to a payload
  that is cut at 956 bytes; it is right exactly when the client's value is the
  length of what is left (`sized_iff`).
-/
import ChatSystem.Clients
import ChatSystem.Relays
import ChatSystem.Replay
import ChatSystem.Terminal

namespace ChatSystem

open CStr Lts Utf8

/-! ### Terminated fields -/

/-- The three text fields are terminated. -/
structure ChatPacket.Terminated (p : ChatPacket) : Prop where
  sender : p.sender.Terminated
  target : p.target.Terminated
  payload : p.payload.Terminated

theorem terminated_copyStrings (command : UInt8) (sender target payload : List UInt8) :
    (copyStrings command sender target payload).Terminated where
  sender := CharArray.terminated_strncpy_zero _ (by decide)
  target := CharArray.terminated_strncpy_zero _ (by decide)
  payload := CharArray.terminated_strncpy_zero _ (by decide)

theorem terminated_fillPacket (command : UInt8) (sender target payload : List UInt8) :
    (fillPacket command sender target payload).Terminated := by
  obtain ⟨hs, ht, hp⟩ := terminated_copyStrings command sender target payload
  exact ⟨hs, ht, hp⟩

theorem terminated_relay (pkt : ChatPacket) (target : List UInt8) :
    (relay pkt target).Terminated := by
  obtain ⟨hs, ht, hp⟩ := terminated_copyStrings cmdMsg pkt.senderPtr target pkt.payloadPtr
  exact ⟨hs, ht, hp⟩

/-- `cl_build_list` leaves a NUL in its buffer. -/
theorem terminated_handleList (t : Table) (pkt : ChatPacket) : (handleList t pkt).Terminated where
  sender := CharArray.terminated_strncpy_zero _ (by decide)
  target := CharArray.terminated_strncpy_zero _ (by decide)
  payload := by
    apply CharArray.terminated_of_length_str_lt
    rw [str_payload_handleList, List.length_take]
    omega

/-- **Every packet made has its fields terminated.** -/
theorem Site.Makes.terminated {site : Site} {pkt : ChatPacket} (h : site.Makes pkt) :
    pkt.Terminated := by
  rcases h.shape with ⟨-, ⟨command, s, t, p, rfl⟩ | ⟨t, req, rfl⟩⟩ |
    ⟨req, i, ⟨-, rfl⟩ | ⟨-, rfl⟩⟩
  · exact terminated_fillPacket command s t p
  · exact terminated_handleList t req
  · exact terminated_relay req targetAll
  · exact terminated_relay req req.targetPtr

/-- A packet the terminal client can display: its fields are terminated, and
whatever its buffer held before, no read leaves the object it started in. -/
structure Displayable (pkt : ChatPacket) : Prop where
  terminated : pkt.Terminated
  inside : ∀ garbage, ∀ a ∈ uiDisplayPacket garbage pkt, a.Inside

theorem Site.Makes.displayable {site : Site} {pkt : ChatPacket} (h : site.Makes pkt) :
    Displayable pkt :=
  ⟨h.terminated, fun garbage =>
    reads_inside garbage h.terminated.sender h.terminated.target h.terminated.payload⟩

variable {w : World}

/-- **Every packet sent can be displayed**: those in transit and those of the
history, in every run. -/
theorem displayable_of_reachable (h : Reachable step World.init w) :
    (∀ t s, w.sending t = some s → Displayable s.pkt) ∧
    ∀ t s peer written k, .send t s peer written k ∈ w.log → Displayable s.pkt := by
  have hprov := provenance_of_reachable h
  constructor
  · intro t s hs
    exact (hprov.pending t s hs).1.displayable
  · intro t s peer written k hmem
    obtain ⟨newer, older, hlog⟩ := List.append_of_mem hmem
    exact (always_iff.mp hprov.sent newer _ older hlog _ _ _ _ _ rfl).1.displayable

/-- A packet without a NUL in it. -/
def unterminated : ChatPacket :=
  ⟨cmdBroadcast, 65535, ⟨List.replicate 32 65, List.length_replicate⟩,
    ⟨List.replicate 32 66, List.length_replicate⟩, ⟨List.replicate 957 67, List.length_replicate⟩⟩

/-- Alice joins and broadcasts a packet. -/
def broadcasts (pkt : ChatPacket) : List Label :=
  joining 4 (ip 1) (registerPacket alice) ++
    [⟨.client 0, .packet pkt⟩, ⟨.client 0, .clock 0⟩] ++ goes 0 2

theorem exec_unterminated : (exec step World.init (broadcasts unterminated)).any (fun w =>
    (w.sending (.client 0)).any fun s => s.pkt.payload.str.length == 956) = true := by
  decide +kernel

theorem displayable_unterminated : ∃ w, Reachable step World.init w ∧
    (w.sending (.client 0)).isSome = true ∧
    (∀ t s, w.sending t = some s → Displayable s.pkt) ∧
    ∀ t s peer written k, .send t s peer written k ∈ w.log → Displayable s.pkt := by
  obtain ⟨w, hw, hp⟩ := exists_reachable exec_unterminated
  obtain ⟨s, hs, -⟩ := (Option.any_eq_true _ _).mp hp
  exact ⟨w, hw, by rw [hs]; rfl, displayable_of_reachable hw⟩

/-! ### `payload_len` -/

/-- `payload_len` is the length of the payload string. -/
def Sized (pkt : ChatPacket) : Prop := pkt.payloadLen.toNat = pkt.payload.str.length

instance (pkt : ChatPacket) : Decidable (Sized pkt) := inferInstanceAs (Decidable (_ = _))

theorem toNat_strlenPayload (p : ChatPacket) : (strlenPayload p).toNat = p.payload.str.length := by
  have hle : p.payload.str.length ≤ 957 := by
    have hlen := length_cstr_le p.payload.bytes
    rwa [p.payload.size_eq] at hlen
  exact UInt16.toNat_ofNat_of_lt (Nat.lt_of_le_of_lt hle (by decide))

theorem sized_fillPacket (command : UInt8) (sender target payload : List UInt8) :
    Sized (fillPacket command sender target payload) :=
  toNat_strlenPayload (copyStrings command sender target payload)

theorem sized_handleList (t : Table) (pkt : ChatPacket) : Sized (handleList t pkt) :=
  toNat_strlenPayload _

/-- The server's own packets are sized. -/
theorem Site.Makes.sized {site : Site} {pkt : ChatPacket} (h : site.Makes pkt)
    (hown : site.Own) : Sized pkt := by
  rcases h.shape with ⟨-, ⟨command, s, t, p, rfl⟩ | ⟨t, req, rfl⟩⟩ |
    ⟨req, i, ⟨rfl, -⟩ | ⟨rfl, -⟩⟩
  · exact sized_fillPacket command s t p
  · exact sized_handleList t req
  · exact hown.elim
  · exact hown.elim

/-- A relay is sized when the client's `payload_len` is the length of what the
relay leaves of its payload. -/
theorem sized_relay_iff (req : ChatPacket) (target : List UInt8) :
    Sized (relay req target) ↔
      req.payloadLen.toNat = min 956 req.payload.str.length := by
  have hstr : (relay req target).payload.str = req.payload.str.take 956 :=
    CharArray.str_strncpy_zero _ _ payload_limit
  show req.payloadLen.toNat = (relay req target).payload.str.length ↔ _
  rw [hstr, List.length_take]

/-- The step relays no packet but one whose `payload_len` fits. -/
def RelaysSized (w : World) (l : Label) : Prop :=
  ∀ req i pkt, Relays w l (.broadcast req i) pkt ∨ Relays w l (.direct req i) pkt →
    req.payloadLen.toNat = min 956 req.payload.str.length

theorem relaysSized_iff {w : World} {l : Label} :
    RelaysSized w l ↔ ∀ site pkt, Relays w l site pkt → Sized pkt := by
  constructor
  · rintro h site pkt hrelays
    cases site with
    | broadcast req i =>
      have hfits := h req i pkt (.inl hrelays)
      cases hrelays
      exact (sized_relay_iff _ _).mpr hfits
    | direct req i =>
      have hfits := h req i pkt (.inr hrelays)
      cases hrelays
      exact (sized_relay_iff _ _).mpr hfits
    | _ => cases hrelays
  · rintro h req i pkt (hrelays | hrelays)
    · have hsized := h _ pkt hrelays
      cases hrelays
      exact (sized_relay_iff _ _).mp hsized
    · have hsized := h _ pkt hrelays
      cases hrelays
      exact (sized_relay_iff _ _).mp hsized

/-- In a packet that is sized the bridge reads the payload string. -/
theorem Sized.payload_parsed {pkt : ChatPacket} (h : Sized pkt) (hterm : pkt.payload.Terminated) :
    (parsePacket pkt.toBytes).map (·.payload) = some (decode (cstr pkt.payloadPtr)) := by
  have htake : pkt.payload.bytes.take pkt.payloadLen.toNat = cstr pkt.payloadPtr := by
    obtain ⟨q, hq⟩ := eq_cstr_append hterm
    rw [show pkt.payloadLen.toNat = (cstr pkt.payload.bytes).length from h]
    nth_rewrite 2 [hq]
    exact List.take_left
  rw [parsePacket_toBytes, htake]
  show some (Js.removeNul (decode (cstr pkt.payloadPtr))) = _
  rw [Js.removeNul_eq_self (mt Js.nul_mem_decode.mp (zero_notMem_cstr _))]

/-- **`payload_len` of what is sent.**  In every run, every packet sent has the
length of its payload string in `payload_len` exactly when every relay is
started with a `payload_len` that is the length of the client's payload
string, or 956 where that is longer.  Then the bridge and the terminal client
read the same text. -/
theorem sized_iff {tr : List (World × Label)} (h : Run step World.init tr w) :
    (StatesAll (fun w => ∀ t s, w.sending t = some s → Sized s.pkt) tr w ↔
      StepsAll RelaysSized tr) ∧
    ∀ t s, w.sending t = some s → Sized s.pkt →
      (parsePacket s.pkt.toBytes).map (·.payload) = some (decode (cstr s.pkt.payloadPtr)) := by
  constructor
  · rw [pending_iff (Q := fun _ pkt => Sized pkt) (fun _ _ hmakes hown => hmakes.sized hown) h]
    unfold StepsAll
    simp only [relaysSized_iff]
  · intro t s hs hsized
    have hmakes := ((provenance_of_reachable ⟨tr, h⟩).pending t s hs).1
    exact hsized.payload_parsed hmakes.terminated.payload

/-- A message of 957 bytes, as the bridge packs it. -/
def longMessage : ChatPacket := built cmdBroadcast "alice".toList [] (List.replicate 957 'a')

theorem exec_longMessage : (exec step World.init (broadcasts longMessage)).any (fun w =>
    (w.sending (.client 0)).any fun s => s.pkt.payloadLen.toNat != s.pkt.payload.str.length) =
      true := by
  decide +kernel

theorem sized_longMessage : ∃ tr w, Run step World.init tr w ∧
    (w.sending (.client 0)).isSome = true ∧
    (StatesAll (fun w => ∀ t s, w.sending t = some s → Sized s.pkt) tr w ↔
      StepsAll RelaysSized tr) ∧
    ∀ t s, w.sending t = some s → Sized s.pkt →
      (parsePacket s.pkt.toBytes).map (·.payload) = some (decode (cstr s.pkt.payloadPtr)) := by
  obtain ⟨tr, w, hrun, -, hp⟩ := exists_run exec_longMessage
  obtain ⟨s, hs, -⟩ := (Option.any_eq_true _ _).mp hp
  exact ⟨tr, w, hrun, by rw [hs]; rfl, sized_iff hrun⟩

/-- **The relay of a message of 957 bytes** says 957 and carries 956. -/
theorem not_always_sized :
    ¬ ∀ w, Reachable step World.init w → ∀ t s, w.sending t = some s → Sized s.pkt := by
  intro hall
  obtain ⟨w, hw, hp⟩ := exists_reachable exec_longMessage
  obtain ⟨s, hs, hne⟩ := (Option.any_eq_true _ _).mp hp
  have hsized : s.pkt.payloadLen.toNat = s.pkt.payload.str.length := hall w hw _ s hs
  simp [hsized] at hne

end ChatSystem
