/-
ChatSystem/StatusReports.lean

What the web client learns about its user's status from the packets it is
sent.  Four of them tell it: the welcome and the reply to a `STATUS` (`OK`),
the notices of `cl_touch` and of the monitor (`MSG` from `SERVER`), and the
user's own entry in a list.

`reported me pkt` is what the packet tells the user `me`, and `statusView me`
what the client shows after some packets.  The view is the last report
(`statusView_append`).
-/
import ChatSystem.Classification
import ChatSystem.ListParsers

namespace ChatSystem

open CStr Utf8

/-! ### The view -/

/-- The bridge parses a packet, the hook handles it. -/
def Chat.read (s : Chat) (pkt : ChatPacket) : Chat :=
  match parsePacket pkt.toBytes with
  | some parsed => handlePacket s parsed
  | none => s

theorem Chat.read_eq {pkt : ChatPacket} {parsed : ParsedPacket}
    (h : parsePacket pkt.toBytes = some parsed) (s : Chat) :
    s.read pkt = handlePacket s parsed := by
  unfold Chat.read
  rw [h]

/-- The `myStatus` of the user `me` after these packets. -/
def statusView (me : List Char) (pkts : List ChatPacket) : List Char :=
  (pkts.foldl Chat.read (inChat me)).myStatus

/-- The status a packet tells the user `me` about. -/
def reported (me : List Char) (pkt : ChatPacket) : Option (List Char) :=
  (parsePacket pkt.toBytes).bind (statusReport me)

/-- The hook of the user `me`: `usernameRef` is `me`, and stays so when a
welcome comes. -/
def Chat.Of (me : List Char) (s : Chat) : Prop := s.usernameRef = me ∧ s.pendingUser = me

theorem Chat.Of.handlePacket {me : List Char} {s : Chat} (h : s.Of me) (pkt : ParsedPacket) :
    (ChatSystem.handlePacket s pkt).Of me := by
  obtain ⟨rfl, hpending⟩ := h
  -- only the welcome sets the name, to the one asked for
  rcases frame_handlePacket s pkt with h | h | ⟨-, -, h⟩ | ⟨-, info, h⟩ <;>
    simp only [Chat.frame, Prod.mk.injEq] at h
  · exact ⟨h.1.1, h.2.1.trans hpending⟩
  · exact ⟨h.1.1.trans hpending, h.2.1.trans hpending⟩
  · exact ⟨h.1.1, h.2.1.trans hpending⟩
  · exact ⟨h.1.1, h.2.1.trans hpending⟩

theorem Chat.Of.read {me : List Char} {s : Chat} (h : s.Of me) (pkt : ChatPacket) :
    (s.read pkt).Of me := by
  unfold Chat.read
  split
  · exact h.handlePacket _
  · exact h

theorem chat_of_foldl (me : List Char) (pkts : List ChatPacket) :
    (pkts.foldl Chat.read (inChat me)).Of me := by
  induction pkts using List.reverseRecOn with
  | nil => exact ⟨rfl, rfl⟩
  | append_singleton pkts pkt ih =>
    rw [List.foldl_append]
    exact ih.read pkt

@[simp] theorem statusView_nil (me : List Char) : statusView me [] = Text.active := rfl

theorem myStatus_read (s : Chat) (pkt : ChatPacket) :
    (s.read pkt).myStatus = (reported s.usernameRef pkt).getD s.myStatus := by
  unfold Chat.read reported
  rcases parsePacket pkt.toBytes with - | parsed
  · rfl
  · exact myStatus_handlePacket s parsed

/-- **The view is the last report.** -/
theorem statusView_append (me : List Char) (pkts : List ChatPacket) (pkt : ChatPacket) :
    statusView me (pkts ++ [pkt]) = (reported me pkt).getD (statusView me pkts) := by
  obtain ⟨hme, -⟩ := chat_of_foldl me pkts
  unfold statusView
  rw [List.foldl_append]
  show (Chat.read _ pkt).myStatus = _
  rw [myStatus_read, hme]

/-! ### What the packets of the server report -/

section Report

variable (me : List Char) {command : UInt8} (target payload : List UInt8)

theorem parsed_fillPacket (sender : List UInt8) : ∃ len target',
    parsePacket (fillPacket command sender target payload).toBytes =
      some ⟨command, len, readName sender, target', decode ((cstr payload).take 956)⟩ := by
  have hpayload : (parsePacket (fillPacket command sender target payload).toBytes).map
      (·.payload) = some (decode ((cstr payload).take 956)) := by
    rw [(sized_fillPacket command sender target payload).payload_parsed
      (terminated_fillPacket command sender target payload).payload]
    exact congrArg (fun s => some (decode s)) (str_payload_fillPacket command sender target payload)
  rw [parsePacket_toBytes, Option.map_some, Option.some.injEq] at hpayload
  simp only at hpayload
  rw [parsePacket_toBytes, hpayload, fillPacket_eq]
  simp only [packed, read_field]
  exact ⟨_, _, rfl⟩

theorem reported_fillPacket (sender : List UInt8)
    (h : command ∉ [cmdOk, cmdMsg, cmdUserList]) :
    reported me (fillPacket command sender target payload) = none := by
  obtain ⟨len, target', hparsed⟩ := @parsed_fillPacket command target payload sender
  simp only [List.mem_cons, List.not_mem_nil, or_false, not_or] at h
  rw [reported, hparsed]
  show statusReport me _ = none
  rw [statusReport, if_neg h.1, if_neg h.2.1, if_neg h.2.2]

theorem reported_sendOk :
    reported me (sendOk target payload) = okReport (decode ((cstr payload).take 956)) := by
  obtain ⟨len, target', hparsed⟩ := @parsed_fillPacket cmdOk target payload senderServer
  rw [reported, sendOk, hparsed]
  rfl

theorem reported_notice
    (hactive : Js.includes (decode ((cstr payload).take 956)) Text.active = true) :
    reported me (fillPacket cmdMsg senderServer target payload) =
      if Js.includes (decode ((cstr payload).take 956)) Text.inactive = true then some Text.inactive
      else some Text.active := by
  have hserver : readName senderServer = Text.server := by decide
  obtain ⟨len, target', hparsed⟩ := @parsed_fillPacket cmdMsg target payload senderServer
  rw [reported, hparsed, hserver]
  show msgReport ⟨cmdMsg, len, Text.server, target', _⟩ = _
  rw [msgReport, if_pos rfl, if_pos hactive]

end Report

/-! ### The statuses -/

/-- `ACTIVE`, `BUSY` and `INACTIVE`. -/
def statuses : List (List UInt8) := [statusActivo, statusOcupado, statusInactivo]

variable (me : List Char)

@[simp] theorem decode_statusActivo : decode statusActivo = Text.active := by decide

@[simp] theorem decode_statusInactivo : decode statusInactivo = Text.inactive := by decide

/-- The strings of the statuses fit their field. -/
theorem take_of_mem_statuses {status : List UInt8} (h : status ∈ statuses) :
    status.take 15 = status ∧ status.take 956 = status := by
  have hall : ∀ status ∈ statuses, status.length ≤ 15 := by decide
  have hle := hall status h
  exact ⟨List.take_of_length_le hle, List.take_of_length_le (by omega)⟩

theorem okReport_status {status : List UInt8} (h : status ∈ statuses) :
    okReport (decode status) = some (decode status) := by
  have hall : ∀ status ∈ statuses, okReport (decode status) = some (decode status) := by decide
  exact hall status h

/-- The welcome. -/
theorem reported_welcome (pkt : ChatPacket) :
    reported me (registerReply 0 pkt) = some Text.active := by
  have hwelcome : utf8 "Bienvenido " = encode "Bienvenido ".toList := rfl
  have htext : (cstr ((utf8 "Bienvenido " ++ cstr pkt.senderPtr).take 63)).take 956 =
      encode "Bienvenido ".toList ++ (cstr pkt.senderPtr).take 52 := by
    have hlen : (utf8 "Bienvenido ").length = 11 := by decide
    have h0 : (0 : UInt8) ∉ utf8 "Bienvenido " ++ cstr pkt.senderPtr := by
      rw [List.mem_append, not_or]
      exact ⟨by decide, zero_notMem_cstr _⟩
    rw [cstr_eq_self (notMem_take h0 63), List.take_take, List.take_append, hlen,
      List.take_of_length_le (by omega), hwelcome]
    rfl
  rw [registerReply, if_pos rfl, reported_sendOk, htext, decode_encode_append, okReport, if_pos]
  rw [Js.startsWith, List.isPrefixOf_iff_prefix]
  exact ⟨[' '] ++ decode ((cstr pkt.senderPtr).take 52), by simp⟩

/-- The notice of `cl_touch`. -/
theorem reported_reactivation : reported me reactivationNotice = some Text.active := by
  rw [reactivationNotice, reported_notice _ _ _ (by decide), if_neg (by decide)]

/-- The monitor's. -/
theorem reported_inactivity (username : List UInt8) :
    reported me (inactivityNotice username) = some Text.inactive := by
  rw [inactivityNotice, reported_notice _ _ _ (by decide), if_pos (by decide)]

/-- The reply to a `STATUS`. -/
theorem reported_status {status : List UInt8} (h : cstr status ∈ statuses) (target : List UInt8) :
    reported me (sendOk target status) = some (decode (cstr status)) := by
  rw [reported_sendOk, (take_of_mem_statuses h).2, okReport_status h]

/-- The other packets a client's thread sends for itself tell nothing about a
status. -/
theorem reported_logout (pkt : ChatPacket) : reported me (handleLogout pkt) = none := by
  rw [handleLogout, reported_sendOk]
  decide

theorem reported_directError (pkt : ChatPacket) : reported me (directError pkt) = none :=
  reported_fillPacket me _ _ _ (by decide)

theorem reported_info (t : Table) (pkt : ChatPacket) : reported me (handleInfo t pkt) = none := by
  unfold handleInfo
  split
  · exact reported_fillPacket me _ _ _ (by decide)
  · exact reported_fillPacket me _ _ _ (by decide)

theorem reported_departure (username : List UInt8) :
    reported me (notifyDisconnect username) = none :=
  reported_fillPacket me _ _ _ (by decide)

/-! ### The user's own entry -/

/-- The entries the web client reads from a list of plain records. -/
theorem parseUsers_listText {t : Table} (h : ∀ i r, t.Active i r →
      PlainName r.username.str ∧ r.status.str ∈ statuses) :
    parseUsers (decode (listText t)) = (t.used.filter (·.activo)).map
      fun r => ⟨decode r.username.str, decode r.status.str⟩ := by
  have hall : ∀ status ∈ statuses, comma ∉ status ∧ semicolon ∉ status ∧ status ≠ [] := by decide
  have hpieces := pieces_listText fun i r hr =>
    ⟨(h i r hr).1.2, (hall _ (h i r hr).2).2.1⟩
  rw [parseUsers_decode, hpieces, List.map_map]
  refine List.map_congr_left fun r hr => ?_
  obtain ⟨i, hi⟩ := active_of_mem_used hr
  obtain ⟨hcomma, -, hne⟩ := hall _ (h i r hi).2
  exact parseEntry_decode (h i r hi).1.1 hcomma hne

/-- **A list tells its reader the status in its record**, unless another record
before it is read as the same name. -/
theorem reported_handleList {t : Table} (ht : t.Ok) (hfit : (listText t).length ≤ 956)
    (hplain : ∀ i r, t.Active i r → PlainName r.username.str ∧ r.status.str ∈ statuses)
    (pkt : ChatPacket) {i : ℕ} {r : Cliente} (hr : t.Active i r)
    (hfirst : ∀ j s, j < i → t.Active j s → decode s.username.str = decode r.username.str →
      s.status.str = r.status.str) {status : List Char}
    (h : reported (decode r.username.str) (handleList t pkt) = some status) :
    status = decode r.status.str := by
  obtain ⟨len, sender, target, hparsed⟩ := parsed_handleList hfit pkt
  have hlist : listReport (decode r.username.str) (decode (listText t)) = some status := by
    rw [reported, hparsed] at h
    exact h
  unfold listReport at hlist
  split at hlist
  · cases hlist
  rw [parseUsers_listText hplain, List.find?_map, List.find?_filter, Option.map_map,
    Option.map_eq_some_iff] at hlist
  obtain ⟨s, hfind, rfl⟩ := hlist
  obtain ⟨hs, before, after, hused, hnone⟩ := List.find?_eq_some_iff_append.mp hfind
  simp only [Function.comp_apply, decide_eq_true_eq] at hs
  show decode s.status.str = decode r.status.str
  have hget : t.used[before.length]? = some s := by simp [hused]
  have hactive : t.Active before.length s := ⟨(getElem?_used.mp hget).2, hs.1⟩
  rcases lt_trichotomy before.length i with hlt | heq | hgt
  · rw [hfirst _ s hlt hactive hs.2]
  · subst heq
    rw [hactive.unique hr]
  · -- the search would have found the record itself
    have hmem : r ∈ before := by
      have hri := ht.mem_used hr
      rw [hused, List.getElem?_append_left hgt] at hri
      exact List.mem_of_getElem? hri
    have hnot := hnone r hmem
    simp [hr.2] at hnot

end ChatSystem
