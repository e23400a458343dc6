/-
ChatSystem/Authenticity.lean

On whose account messages, status changes and departure notices are made.
The server knows a client by its descriptor but never compares the sender
field of a packet with the name the client registered: a relay carries the
name written in the packet, STATUS acts on the record of that name, and a
LOGOUT is announced under it.

`origin_of_reachable` says exactly this; `not_always_authentic` is a run in
which a registered client speaks under another user's name.
-/
import ChatSystem.Provenance
import ChatSystem.Representation

namespace ChatSystem

open CStr Lts

/-- The status of record `r` in slot `i` changes: by a STATUS packet sent under
the name of the record, by activity of its own connection, or by the
inactivity monitor. -/
inductive StatusChange (h : List Event) (t : Tid) (i : ℕ) (r : Cliente) : Prop
  | requested (c : ℕ) (pkt : ChatPacket) (ht : t = .client c)
      (hlast : lastPacket h c = some pkt) (hcmd : pkt.command = cmdStatus)
      (hname : r.username.str = cstr pkt.senderPtr)
  | reactivated (c : ℕ) (r₀ : Cliente) (ht : t = .client c) (hlive : Live h c i r₀)
      (hid : r.SameId r₀)
  | inactive (ht : t = .monitor)

variable {w w' : World} {l : Label}

/-- Where the table stays, so does every status. -/
theorem status_of_same (htable : w'.table = w.table) {i : ℕ} {r r' : Cliente}
    (hr : w.table.Active i r) (hr' : w'.table.Active i r') : r' = r := by
  rw [htable] at hr'
  exact hr'.unique hr

/-- Only the slot updated in place changes. -/
theorem slot_of_modify {f : Cliente → Cliente} (hf : Refresh f) {t : Table} {i j : ℕ}
    {r r' : Cliente} (hr : t.Active i r) (hr' : (t.modifySlot j f).Active i r')
    (hne : r'.status.str ≠ r.status.str) : i = j := by
  obtain ⟨r₀, hr₀, heq⟩ := (active_modify hf).mp hr'
  obtain rfl := hr₀.unique hr
  by_contra hij
  rw [if_neg hij] at heq
  exact hne (by rw [heq])

/-- `cl_touch` of the thread of connection `c` reaches that connection's
record. -/
theorem statusChange_of_touch (h : Inv w) {c : ℕ} {fd now : ℤ} {pkt : ChatPacket}
    (hpc : w.pc (.client c) = .touch fd pkt) {i : ℕ} {r r' : Cliente}
    (hr : w.table.Active i r) (hr' : (clTouch w.table fd now).2.Active i r')
    (hne : r'.status.str ≠ r.status.str) : StatusChange w.log (.client c) i r := by
  obtain ⟨i₀, r₀, hph, hfd₀⟩ : (Pc.touch fd pkt).Expects (phase w.log c) := h.expects hpc rfl
  rcases clTouch_snd w.table fd now with heq | ⟨j, s, hs, hfd, heq⟩
  · rw [heq] at hr'
    exact absurd (by rw [hr'.unique hr]) hne
  · rw [heq] at hr'
    obtain rfl := slot_of_modify (refresh_touchCliente now) hr hr' hne
    obtain rfl := hs.unique hr
    obtain ⟨-, s₀, hs₀, hid⟩ := h.core.live c i₀ r₀ hph
    obtain rfl := h.core.fds_distinct hs hs₀ (hfd.trans (hfd₀.symm.trans hid.2.2.symm))
    obtain rfl := hs₀.unique hs
    exact .reactivated c r₀ rfl ((phase_registered_iff h.core.disciplined).mp hph) hid

theorem statusChange_of_move (h : Inv w) (hw : Provenance w) (hm : Move w l w') {i : ℕ}
    {r r' : Cliente} (hr : w.table.Active i r) (hr' : w'.table.Active i r')
    (hne : r'.status.str ≠ r.status.str) : StatusChange w.log l.tid i r := by
  have hsame : w'.table = w.table → StatusChange w.log l.tid i r := fun htable =>
    absurd (by rw [status_of_same htable hr hr']) hne
  cases hm with
  | add hs hpc hm hnum hdup =>
    -- the slot filled was free
    rcases (active_added h.core.ok hnum rfl).mp hr' with ⟨rfl, -⟩ | hr'
    · exact absurd hr (addSlot_not_active h.core.ok hnum r)
    · exact absurd (by rw [hr'.unique hr]) hne
  | remove =>
    have hold := (active_clRemove.mp hr').1
    exact absurd (by rw [hold.unique hr]) hne
  | touch hs hpc | reactivate hs hpc => exact statusChange_of_touch h hpc hr hr' hne
  | @status c fd pkt hs hpc hm hcmd =>
    rcases clSetStatus_snd w.table pkt.senderPtr pkt.payloadPtr with
      heq | ⟨j, s, -, hs, hname, heq⟩
    · exact hsame heq
    · have htable : (w.table.modifySlot j (setStatus pkt.payloadPtr)).Active i r' := by
        rw [← heq]
        exact hr'
      obtain rfl := slot_of_modify (refresh_setStatus _) hr htable hne
      obtain rfl := hs.unique hr
      exact .requested c pkt rfl (hw.serving_at hpc).1 hcmd hname
  | sweepMark | sweepSkip => exact .inactive rfl
  | _ => exact hsame rfl

/-! ### Messages and notices -/

/-- A `CMD_MSG` is one of the server's own notices or a relay of the packet its
sender's thread received last. -/
theorem message_of_attributed {h : List Event} {t : Tid} {s : Sending} (ha : Attributed h t s)
    (hcmd : s.pkt.command = cmdMsg) :
    s.pkt.sender.str = senderServer ∧ (s.site = .reactivation ∨ ∃ i, s.site = .inactivity i) ∨
    ∃ c req, t = .client c ∧ lastPacket h c = some req ∧
      (req.command = cmdBroadcast ∨ req.command = cmdDirect) ∧
      s.pkt.sender.str = (cstr req.senderPtr).take 31 := by
  obtain ⟨hmakes, hsite⟩ := ha
  have hmem := hmakes.command_mem
  rw [hcmd] at hmem
  cases hs : s.site <;> simp only [hs] at hmakes hsite hmem
  -- three sites never make a `CMD_MSG`
  case register => simp [Site.commands, cmdMsg, cmdOk, cmdError] at hmem
  case reply => simp [Site.commands, cmdMsg, cmdOk, cmdError, cmdUserList, cmdUserInfo] at hmem
  case departure => simp [Site.commands, cmdMsg, cmdDisconnected] at hmem
  -- the notices are the server's own
  case reactivation =>
    have hpkt : s.pkt = reactivationNotice := hmakes
    exact .inl ⟨by rw [hpkt]; decide, .inl rfl⟩
  case inactivity i =>
    obtain ⟨username, hpkt⟩ := hmakes
    refine .inl ⟨?_, .inr ⟨i, rfl⟩⟩
    rw [hpkt, inactivityNotice, str_sender_fillPacket]
    decide
  -- a relay carries the sender its packet gave
  case broadcast req i =>
    obtain ⟨c, ht, hlast, hreq⟩ := hsite
    have hpkt : s.pkt = handleBroadcast req := hmakes
    refine .inr ⟨c, req, ht, hlast, .inl hreq, ?_⟩
    rw [hpkt, handleBroadcast, str_sender_relay]
  case direct req i =>
    obtain ⟨c, ht, hlast, hreq⟩ := hsite
    have hpkt : s.pkt = handleDirect req := hmakes
    refine .inr ⟨c, req, ht, hlast, .inr hreq, ?_⟩
    rw [hpkt, handleDirect, str_sender_relay]

/-- A `CMD_DISCONNECTED` is a departure notice, and it names whom its site
says. -/
theorem notice_of_attributed {h : List Event} {t : Tid} {s : Sending} (ha : Attributed h t s)
    (hcmd : s.pkt.command = cmdDisconnected) :
    ∃ c i, t = .client c ∧ s.site = .departure s.pkt.payload.str i ∧
      s.pkt.payload.str ≠ [] ∧ Announced h c s.pkt.payload.str := by
  obtain ⟨hmakes, hsite⟩ := ha
  have hmem := hmakes.command_mem
  rw [hcmd] at hmem
  cases hs : s.site <;> simp only [hs] at hmakes hsite hmem
  case departure name i =>
    obtain ⟨username, rfl, hpkt⟩ := hmakes
    obtain ⟨c, ht, hname, hann⟩ := hsite
    have hstr : s.pkt.payload.str = username.str := by
      have hlen : username.str.length ≤ 956 :=
        (length_cstr_le _).trans (by rw [username.size_eq]; decide)
      rw [hpkt, notifyDisconnect, str_payload_fillPacket]
      exact List.take_of_length_le hlen
    rw [hstr]
    exact ⟨c, i, ht, rfl, hname, hann⟩
  all_goals
    simp [Site.commands, cmdDisconnected, cmdMsg, cmdOk, cmdError, cmdUserList,
      cmdUserInfo] at hmem

/-- **The origin of messages, status changes and notices.**  In every run: a
message sent is the server's own or relays the packet its thread received
last, under the name written there; a notice carries the name of the LOGOUT,
or the registered one; a status changes by a STATUS packet under that name,
by the connection's own activity or by the monitor. -/
theorem origin_of_reachable {w : World} (h : Reachable step World.init w) :
    (∀ newer older t s peer written k, w.log = newer ++ .send t s peer written k :: older →
      (s.pkt.command = cmdMsg →
        s.pkt.sender.str = senderServer ∧
            (s.site = .reactivation ∨ ∃ i, s.site = .inactivity i) ∨
          ∃ c req, t = .client c ∧ lastPacket older c = some req ∧
            (req.command = cmdBroadcast ∨ req.command = cmdDirect) ∧
            s.pkt.sender.str = (cstr req.senderPtr).take 31) ∧
      (s.pkt.command = cmdDisconnected →
        ∃ c i, t = .client c ∧ s.site = .departure s.pkt.payload.str i ∧
          s.pkt.payload.str ≠ [] ∧ Announced older c s.pkt.payload.str)) ∧
    ∀ l w', step w l = some w' → ∀ i r r', w.table.Active i r → w'.table.Active i r' →
      r'.status.str ≠ r.status.str → StatusChange w.log l.tid i r := by
  have hinv := inv_of_reachable h
  have hw := provenance_of_reachable h
  constructor
  · intro newer older t s peer written k hlog
    have hatt : Attributed older t s := always_iff.mp hw.sent newer _ older hlog _ _ _ _ _ rfl
    exact ⟨message_of_attributed hatt, notice_of_attributed hatt⟩
  · intro l w' hs i r r' hr hr' hne
    exact statusChange_of_move hinv hw (move_of_step hs) hr hr' hne

/-! ### Speaking for somebody else -/

/-- Alice and Bob join, and Alice broadcasts under Bob's name. -/
def forged : List Label :=
  joining 4 (ip 1) (registerPacket alice) ++ joining 5 (ip 2) (registerPacket bob) ++
    [⟨.client 0, .packet (clientPacket cmdBroadcast bob [] (utf8 "hola"))⟩,
      ⟨.client 0, .clock 0⟩] ++ goes 0 2 ++ [sends 0]

theorem exec_forged : (exec step World.init forged).any (fun w =>
    (w.log.any fun e =>
      match e with
      | .send (.client 0) s _ _ _ => s.site.slot?.isSome && s.pkt.command == cmdMsg &&
          s.pkt.sender.str == bob
      | _ => false) &&
    w.log.any fun e =>
      match e with
      | .registered 0 _ r => r.username.str == alice
      | _ => false) = true := by
  decide +kernel

theorem origin_forged : ∃ w, Reachable step World.init w ∧
    (∀ newer older t s peer written k, w.log = newer ++ .send t s peer written k :: older →
      (s.pkt.command = cmdMsg →
        s.pkt.sender.str = senderServer ∧
            (s.site = .reactivation ∨ ∃ i, s.site = .inactivity i) ∨
          ∃ c req, t = .client c ∧ lastPacket older c = some req ∧
            (req.command = cmdBroadcast ∨ req.command = cmdDirect) ∧
            s.pkt.sender.str = (cstr req.senderPtr).take 31) ∧
      (s.pkt.command = cmdDisconnected →
        ∃ c i, t = .client c ∧ s.site = .departure s.pkt.payload.str i ∧
          s.pkt.payload.str ≠ [] ∧ Announced older c s.pkt.payload.str)) ∧
    ∀ l w', step w l = some w' → ∀ i r r', w.table.Active i r → w'.table.Active i r' →
      r'.status.str ≠ r.status.str → StatusChange w.log l.tid i r := by
  obtain ⟨w, hw, -⟩ := exists_reachable exec_forged
  exact ⟨w, hw, origin_of_reachable hw⟩

/-- **A client may speak under another name**: its relays need not carry the
name it registered with. -/
theorem not_always_authentic :
    ¬ ∀ w, Reachable step World.init w → ∀ c s peer written k i r,
      .send (.client c) s peer written k ∈ w.log → s.pkt.command = cmdMsg →
      s.site.slot?.isSome = true → Event.registered c i r ∈ w.log →
      s.pkt.sender.str = r.username.str := by
  intro hall
  obtain ⟨w, hw, hp⟩ := exists_reachable exec_forged
  obtain ⟨hsent, hreg⟩ := Bool.and_eq_true_iff.mp hp
  obtain ⟨e, hmem, he⟩ := List.any_eq_true.mp hsent
  obtain ⟨e', hmem', he'⟩ := List.any_eq_true.mp hreg
  split at he
  · split at he'
    · simp only [Bool.and_eq_true, beq_iff_eq] at he he'
      have heq := hall w hw 0 _ _ _ _ _ _ hmem he.1.2 he.1.1 hmem'
      rw [he.2, he'] at heq
      revert heq
      decide
    · cases he'
  · cases he

end ChatSystem
