/-
ChatSystem/Classification.lean

What a received `CMD_MSG` is taken for.  Where a message comes from is not in
the packet; both clients guess it from the texts in it: a sender `SERVER`
makes it a notice of the server, a target `ALL` a public message.

`classified_iff` — in every run both clients guess right about every message
sent exactly when no relayed sender reads `SERVER` and no target of a direct
message reads `ALL`.  Nothing keeps a client from registering these names
(`not_always_classified`).
-/
import ChatSystem.Packets
import ChatSystem.Web

namespace ChatSystem

open CStr Lts Utf8

/-! ### What a message is taken for -/

/-- The calls of the server's own messages. -/
def Site.Notice : Site → Prop
  | reactivation | inactivity _ => True
  | _ => False

def Site.IsBroadcast : Site → Prop
  | broadcast _ _ => True
  | _ => False

def Site.IsDirect : Site → Prop
  | direct _ _ => True
  | _ => False

/-- What the terminal client says about the origin of a message is right. -/
def Line.Claims : Line → Site → Prop
  | notice _, site => site.Notice
  | message _ _, site => site.IsBroadcast
  | directMessage _ _, site => site.IsDirect
  | _, _ => True

/-- What the web client says about it is right. -/
def MessageType.Claims : MessageType → Site → Prop
  | system, site => site.Notice
  | broadcast, site => site.IsBroadcast
  | direct, site => site.IsDirect
  | error, _ => True

/-- Both clients, the web client in whatever state, take the message sent from
`site` for what it is, and a message of another user does not change
`myStatus`. -/
structure Classified (site : Site) (pkt : ChatPacket) : Prop where
  terminal : pkt.command = cmdMsg → ∀ garbage, ∀ line ∈ printed (uiDisplayPacket garbage pkt),
    line.Claims site
  web : pkt.command = cmdMsg → ∀ chat parsed m, parsePacket pkt.toBytes = some parsed →
    (handlePacket chat parsed).messages = chat.messages ++ [m] → m.type.Claims site
  status : pkt.command = cmdMsg → ¬ site.Own → ∀ chat parsed,
    parsePacket pkt.toBytes = some parsed → (handlePacket chat parsed).myStatus = chat.myStatus

/-- The text the web client reads in a name field the server filled from the
string at `ptr`. -/
def readName (ptr : List UInt8) : List Char := Js.trim (decode ((cstr ptr).take 31))

/-- The sender of a relayed packet reads `SERVER`. -/
def ReadsServer (req : ChatPacket) : Prop := readName req.senderPtr = Text.server

/-- The target of a relayed packet reads `ALL`. -/
def ReadsAll (req : ChatPacket) : Prop := readName req.targetPtr = Text.all

instance (req : ChatPacket) : Decidable (ReadsServer req) := inferInstanceAs (Decidable (_ = _))

instance (req : ChatPacket) : Decidable (ReadsAll req) := inferInstanceAs (Decidable (_ = _))

/-! ### Reading a message -/

theorem read_field (ptr : List UInt8) :
    Js.trim (Js.removeNul (decode (CharArray.padded 32 ((cstr ptr).take 31)).bytes)) =
      readName ptr := by
  have h0 : (0 : UInt8) ∉ (cstr ptr).take 31 := notMem_take (zero_notMem_cstr ptr) 31
  have hlen : ((cstr ptr).take 31).length ≤ 32 := by
    rw [List.length_take]
    omega
  rw [CharArray.padded_bytes hlen, Js.removeNul_decode_zeros h0]
  rfl

/-- The packet `parsePacket` makes of a relay. -/
theorem parsed_relay (req : ChatPacket) (target : List UInt8) : ∃ len payload,
    parsePacket (relay req target).toBytes =
      some ⟨cmdMsg, len, readName req.senderPtr, readName target, payload⟩ := by
  rw [parsePacket_toBytes, relay_eq]
  simp only [packed, read_field]
  exact ⟨_, _, rfl⟩

theorem handlePacket_msg (chat : Chat) (len : ℕ) (sender target payload : List Char) :
    handlePacket chat ⟨cmdMsg, len, sender, target, payload⟩ =
      handleMsg chat ⟨cmdMsg, len, sender, target, payload⟩ :=
  rfl

section Web

variable (chat : Chat) (len : ℕ) {sender target : List Char} (payload : List Char)

/-- A message from `SERVER` is shown as the system's. -/
theorem handlePacket_server : ∃ m,
    (handlePacket chat ⟨cmdMsg, len, Text.server, target, payload⟩).messages =
      chat.messages ++ [m] ∧ m.type = .system ∧ m.sender = Text.sistema := by
  rw [handlePacket_msg]
  unfold handleMsg
  rw [if_pos rfl]
  split
  · exact ⟨_, rfl, rfl, rfl⟩
  · split <;> exact ⟨_, rfl, rfl, rfl⟩

/-- Any other message is shown by its target, unless it is the user's own. -/
theorem handlePacket_user (hsender : sender ≠ Text.server) :
    (handlePacket chat ⟨cmdMsg, len, sender, target, payload⟩).myStatus = chat.myStatus ∧
    (sender = chat.usernameRef → handlePacket chat ⟨cmdMsg, len, sender, target, payload⟩ = chat) ∧
    (sender ≠ chat.usernameRef →
      (handlePacket chat ⟨cmdMsg, len, sender, target, payload⟩).messages = chat.messages ++
        [⟨if target = Text.all then .broadcast else .direct, sender, some target, payload⟩]) := by
  have hmsg : handlePacket chat ⟨cmdMsg, len, sender, target, payload⟩ =
      if sender = chat.usernameRef then chat
      else chat.addMessage ⟨if target = Text.all then .broadcast else .direct, sender,
        some target, payload⟩ := by
    rw [handlePacket_msg]
    unfold handleMsg
    rw [if_neg hsender]
  rw [hmsg]
  refine ⟨?_, fun h => if_pos h, fun h => by rw [if_neg h]; rfl⟩
  split <;> rfl

end Web

/-- The message of a user is taken by its target. -/
theorem web_claims {chat : Chat} {len : ℕ} {sender target payload : List Char} {m : Message}
    (hsender : sender ≠ Text.server)
    (hm : (handlePacket chat ⟨cmdMsg, len, sender, target, payload⟩).messages =
      chat.messages ++ [m]) : m.type = if target = Text.all then .broadcast else .direct := by
  obtain ⟨-, hown, hother⟩ := @handlePacket_user chat len sender target payload hsender
  by_cases hme : sender = chat.usernameRef
  · rw [hown hme] at hm
    simp at hm
  · rw [hother hme] at hm
    have hlast := List.append_cancel_left hm
    rw [← (List.cons.inj hlast).1]

/-! ### The server's own messages -/

theorem printed_msg {garbage : CharArray 957} {pkt : ChatPacket} (hcmd : pkt.command = cmdMsg) :
    printed (uiDisplayPacket garbage pkt) =
      [if strEq pkt.senderPtr senderServer then .notice (cstr pkt.payloadPtr)
        else if strEq pkt.targetPtr targetAll then
          .message (cstr pkt.senderPtr) (cstr pkt.payloadPtr)
        else .directMessage (cstr pkt.senderPtr) (cstr pkt.payloadPtr)] := by
  have hok : ¬ cmdMsg = cmdOk := by decide
  have herror : ¬ cmdMsg = cmdError := by decide
  unfold uiDisplayPacket
  rw [hcmd, if_neg hok, if_neg herror, if_pos rfl]
  split <;> rfl

/-- A message with the sender `SERVER` is taken for a notice. -/
theorem classified_notice {site : Site} (hsite : site.Notice) (target payload : List UInt8) :
    Classified site (fillPacket cmdMsg senderServer target payload) := by
  have hown : site.Own := by
    cases site with
    | broadcast => exact hsite
    | direct => exact hsite
    | _ => trivial
  have hterm := terminated_fillPacket cmdMsg senderServer target payload
  have hserver : (cstr senderServer).take 31 = cstr senderServer := by decide
  constructor
  · -- the terminal compares the sender with `SERVER`
    intro hcmd garbage line hline
    have hsender : strEq (fillPacket cmdMsg senderServer target payload).senderPtr
        senderServer = true := by
      rw [strEq_iff, ChatPacket.cstr_senderPtr hterm.sender, str_sender_fillPacket, hserver]
    rw [printed_msg hcmd, if_pos hsender] at hline
    rw [List.mem_singleton.mp hline]
    exact hsite
  · -- so does the hook, after decoding
    intro hcmd chat parsed m hparsed hm
    have hread : readName senderServer = Text.server := by decide
    rw [parsePacket_toBytes, fillPacket_eq] at hparsed
    simp only [packed, read_field, hread, Option.some.injEq] at hparsed
    rw [← hparsed] at hm
    obtain ⟨m', hm', htype, -⟩ := @handlePacket_server chat
      (UInt16.ofNat ((cstr payload).take 956).length).toNat (readName target) _
    have hlast := List.append_cancel_left (hm'.symm.trans hm)
    rw [← (List.cons.inj hlast).1, htype]
    exact hsite
  · intro _ hnot
    exact absurd hown hnot

/-- A packet of the server's own is taken for what it is. -/
theorem Site.Makes.classified {site : Site} {pkt : ChatPacket} (h : site.Makes pkt)
    (hown : site.Own) : Classified site pkt := by
  have hnotMsg (hne : cmdMsg ∉ site.commands) : Classified site pkt := by
    have hcmd : pkt.command ≠ cmdMsg := fun heq => hne (heq ▸ h.command_mem)
    exact ⟨fun heq => absurd heq hcmd, fun heq => absurd heq hcmd, fun heq => absurd heq hcmd⟩
  cases site with
  | reactivation =>
    rw [show pkt = _ from h]
    exact @classified_notice .reactivation trivial _ _
  | inactivity i =>
    obtain ⟨username, rfl⟩ := h
    exact @classified_notice (.inactivity i) trivial _ _
  | broadcast => exact hown.elim
  | direct => exact hown.elim
  | register rc => exact hnotMsg (by show cmdMsg ∉ [cmdOk, cmdError]; decide)
  | reply req =>
    exact hnotMsg (by show cmdMsg ∉ [cmdOk, cmdError, cmdUserList, cmdUserInfo]; decide)
  | departure name i => exact hnotMsg (by show cmdMsg ∉ [cmdDisconnected]; decide)

/-! ### Relays -/

section Relay

variable {site : Site} {req : ChatPacket} {target : List UInt8}

theorem readName_of_take {ptr : List UInt8} {name : List Char}
    (h : (cstr ptr).take 31 = encode name) (htrim : Js.trim name = name) :
    readName ptr = name := by
  show Js.trim (decode ((cstr ptr).take 31)) = name
  rw [h, decode_encode, htrim]

/-- A relay that does not read `SERVER` is taken for what it is when its target
reads, and is, `ALL` in the broadcasts only. -/
theorem classified_relay (hserver : ¬ ReadsServer req)
    (hall : readName target = Text.all → site.IsBroadcast)
    (hdirect : (cstr target).take 31 ≠ cstr targetAll → site.IsDirect) :
    Classified site (relay req target) := by
  have hterm := terminated_relay req target
  -- the terminal compares bytes, the hook what they are read as
  have htargetAll : readName target ≠ Text.all → (cstr target).take 31 ≠ cstr targetAll :=
    fun hne heq => hne (readName_of_take (heq.trans (by decide)) (by decide))
  constructor
  · intro hcmd garbage line hline
    have hsender : ¬ strEq (relay req target).senderPtr senderServer = true := by
      rw [strEq_iff, ChatPacket.cstr_senderPtr hterm.sender, str_sender_relay]
      intro heq
      exact hserver (readName_of_take (heq.trans (by decide)) (by decide))
    rw [printed_msg hcmd, if_neg hsender, List.mem_singleton] at hline
    subst hline
    split
    · case isTrue heq =>
      rw [strEq_iff, ChatPacket.cstr_targetPtr hterm.target, str_target_relay] at heq
      exact hall (readName_of_take (heq.trans (by decide)) (by decide))
    · case isFalse hne =>
      rw [strEq_iff, ChatPacket.cstr_targetPtr hterm.target, str_target_relay] at hne
      exact hdirect hne
  · intro _ chat parsed m hparsed hm
    obtain ⟨len, payload, hp⟩ := parsed_relay req target
    obtain rfl := Option.some.inj (hp.symm.trans hparsed)
    rw [web_claims hserver hm]
    split
    · case isTrue h => exact hall h
    · case isFalse h => exact hdirect (htargetAll h)
  · intro _ _ chat parsed hparsed
    obtain ⟨len, payload, hp⟩ := parsed_relay req target
    obtain rfl := Option.some.inj (hp.symm.trans hparsed)
    exact (@handlePacket_user chat len _ (readName target) payload hserver).1

/-- A relay taken for what it is does not read `SERVER`. -/
theorem Classified.not_readsServer (h : Classified site (relay req target))
    (hsite : ¬ site.Notice) : ¬ ReadsServer req := by
  intro hserver
  obtain ⟨len, payload, hp⟩ := parsed_relay req target
  rw [show readName req.senderPtr = _ from hserver] at hp
  obtain ⟨m, hm, htype, -⟩ := @handlePacket_server (inChat []) len (readName target) payload
  have hclaims := h.web rfl (inChat []) _ m hp hm
  rw [htype] at hclaims
  exact hsite hclaims

/-- When a target reads `ALL`, it is a broadcast to anyone but its sender. -/
theorem Classified.isBroadcast (h : Classified site (relay req target))
    (hsite : ¬ site.Notice) (hall : readName target = Text.all) : site.IsBroadcast := by
  obtain ⟨len, payload, hp⟩ := parsed_relay req target
  have hother : readName req.senderPtr ≠ (inChat ('x' :: readName req.senderPtr)).usernameRef := by
    intro heq
    exact absurd (congrArg List.length heq) (by simp [inChat])
  have hm := (@handlePacket_user (inChat ('x' :: readName req.senderPtr)) len _
    (readName target) payload (h.not_readsServer hsite)).2.2 hother
  have hclaims := h.web rfl _ _ _ hp hm
  rwa [if_pos hall] at hclaims

end Relay

theorem classified_broadcast_iff (req : ChatPacket) (i : ℕ) :
    Classified (.broadcast req i) (handleBroadcast req) ↔ ¬ ReadsServer req := by
  constructor
  · intro h
    exact h.not_readsServer id
  · intro hserver
    exact classified_relay hserver (fun _ => trivial) (fun hne => absurd (by decide) hne)

theorem classified_direct_iff (req : ChatPacket) (i : ℕ) :
    Classified (.direct req i) (handleDirect req) ↔ ¬ ReadsServer req ∧ ¬ ReadsAll req := by
  constructor
  · intro h
    exact ⟨h.not_readsServer id, h.isBroadcast id⟩
  · rintro ⟨hserver, hall⟩
    exact classified_relay hserver (fun heq => absurd heq hall) (fun _ => trivial)

/-! ### The runs -/

/-- The step relays no packet whose sender reads `SERVER`, and no direct message
whose target reads `ALL`. -/
def RelaysPlain (w : World) (l : Label) : Prop :=
  ∀ req i pkt, (Relays w l (.broadcast req i) pkt → ¬ ReadsServer req) ∧
    (Relays w l (.direct req i) pkt → ¬ ReadsServer req ∧ ¬ ReadsAll req)

theorem relaysPlain_iff {w : World} {l : Label} :
    RelaysPlain w l ↔ ∀ site pkt, Relays w l site pkt → Classified site pkt := by
  constructor
  · rintro h site pkt hrelays
    -- `Relays` fixes the packet of a site, which settles one relay each
    cases site with
    | broadcast req i =>
      have hplain := (h req i pkt).1 hrelays
      cases hrelays
      exact (classified_broadcast_iff _ _).mpr hplain
    | direct req i =>
      have hplain := (h req i pkt).2 hrelays
      cases hrelays
      exact (classified_direct_iff _ _).mpr hplain
    | _ => cases hrelays
  · intro h req i pkt
    constructor
    · intro hrelays
      have hclass := h _ pkt hrelays
      cases hrelays
      exact (classified_broadcast_iff _ _).mp hclass
    · intro hrelays
      have hclass := h _ pkt hrelays
      cases hrelays
      exact (classified_direct_iff _ _).mp hclass

/-- **What a message is taken for.**  In every run, both clients take every
message sent for what it is exactly when no packet relayed reads `SERVER` as
its sender and no direct message reads `ALL` as its target. -/
theorem classified_iff {tr : List (World × Label)} {w : World} (h : Run step World.init tr w) :
    StatesAll (fun w => ∀ t s, w.sending t = some s → Classified s.site s.pkt) tr w ↔
      StepsAll RelaysPlain tr := by
  rw [pending_iff (Q := Classified) (fun _ _ hmakes hown => hmakes.classified hown) h]
  unfold StepsAll
  simp only [relaysPlain_iff]

/-- A user joins and broadcasts a text. -/
def broadcastsText (username text : List UInt8) : List Label :=
  joining 4 (ip 1) (registerPacket username) ++
    [⟨.client 0, .packet (clientPacket cmdBroadcast username targetAll text)⟩,
      ⟨.client 0, .clock 0⟩] ++ goes 0 2

/-- Whether a relay of `SERVER`'s message is pending. -/
def relaysServer (w : World) : Bool :=
  (w.sending (.client 0)).any fun s =>
    match s.site with
    | .broadcast req _ => decide (ReadsServer req)
    | _ => false

theorem exec_alice : (exec step World.init (broadcastsText alice (utf8 "hola"))).any (fun w =>
    (w.sending (.client 0)).isSome) = true := by
  decide +kernel

theorem classified_alice : ∃ tr w, Run step World.init tr w ∧
    (w.sending (.client 0)).isSome = true ∧
    (StatesAll (fun w => ∀ t s, w.sending t = some s → Classified s.site s.pkt) tr w ↔
      StepsAll RelaysPlain tr) := by
  obtain ⟨tr, w, hrun, -, hp⟩ := exists_run exec_alice
  exact ⟨tr, w, hrun, hp, classified_iff hrun⟩

theorem exec_server : (exec step World.init (broadcastsText senderServer (utf8 "INACTIVE"))).any
    relaysServer = true := by
  decide +kernel

/-- **A user registered as `SERVER`**: the broadcast `INACTIVE` is taken for the
monitor's notice. -/
theorem not_always_classified : ¬ ∀ w, Reachable step World.init w →
    ∀ t s, w.sending t = some s → Classified s.site s.pkt := by
  intro hall
  obtain ⟨w, hw, hp⟩ := exists_reachable exec_server
  obtain ⟨s, hs, hreads⟩ := (Option.any_eq_true _ _).mp hp
  have hclass := hall w hw _ s hs
  have hmakes := ((provenance_of_reachable hw).pending _ s hs).1
  rcases hsite : s.site with _ | _ | _ | ⟨req, i⟩ | _ | _ | _ <;> simp [hsite] at hreads
  rw [hsite] at hclass hmakes
  rw [show s.pkt = _ from hmakes] at hclass
  exact (classified_broadcast_iff req i).mp hclass hreads

end ChatSystem
