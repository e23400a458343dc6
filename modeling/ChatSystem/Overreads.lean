/-
ChatSystem/Overreads.lean

The strings the server reads from a received packet.  `recv_packet` fills the
struct with raw bytes and nothing ends its fields, so a pointer to a field is
a pointer into the rest of the packet.  The copies have limits and the names
it is compared with are shorter than the rest; what has no limit is the `%s`
of the welcome text and of the log lines.

So a read runs past the end of the packet exactly when one of these is
reached and the bytes from its field on have no NUL
(`packetReads_end_iff`).
-/
import ChatSystem.Effects
import ChatSystem.Replay
import ChatSystem.Scans

namespace ChatSystem

open CStr Lts

/-! ### The reads, function by function -/

/-- A loop that compares a name with the active records until it stops. -/
def compareReads (stop : Cliente → Bool) (username : List UInt8) : List Cliente → List Read
  | [] => []
  | r :: rs =>
    if r.activo then
      ⟨username, .against r.username.str⟩ ::
        if stop r then [] else compareReads stop username rs
    else compareReads stop username rs

/-- `cl_find_by_name`: up to the name that is equal. -/
def nameReads (username : List UInt8) (t : Table) : List Read :=
  compareReads (fun r => strEq r.username.bytes username) username t.used

/-- The duplicate test of `cl_add`, which compares the IP as well. -/
def duplicateReads (username ip : List UInt8) (t : Table) : List Read :=
  compareReads (fun r => strEq r.username.bytes username || strEq r.ip.bytes ip) username t.used

section Packet

variable (pkt : ChatPacket)

/-- `strncpy(…, pkt->sender, 31)`. -/
def copySender : Read := ⟨pkt.senderPtr, .upTo 31⟩

/-- `strncpy(…, pkt->target, 31)`. -/
def copyTarget : Read := ⟨pkt.targetPtr, .upTo 31⟩

/-- `strncpy(…, pkt->payload, 956)`. -/
def copyText : Read := ⟨pkt.payloadPtr, .upTo 956⟩

/-- `%s` with `pkt->sender`. -/
def printSender : Read := ⟨pkt.senderPtr, .whole⟩

/-- `%s` with `pkt->payload`. -/
def printPayload : Read := ⟨pkt.payloadPtr, .whole⟩

/-- `handle_register`. -/
def registerReads (t : Table) (ip : List UInt8) : List Read :=
  if t.numClientes ≥ maxClients then [copySender pkt]
  else duplicateReads pkt.senderPtr ip t ++
    if duplicate t pkt.senderPtr ip then [copySender pkt]
    -- the record, the welcome, its target, and the log line
    else [copySender pkt, printSender pkt, copySender pkt, printSender pkt]

/-- What `main` reads of the first packet of a connection. -/
def mainReads (t : Table) (ip : List UInt8) : List Read :=
  if pkt.command = cmdRegister then registerReads pkt t ip else []

/-- `client_thread` when `cl_touch` reactivated the client. -/
def touchReads (reactivated : Bool) : List Read := if reactivated then [printSender pkt] else []

def broadcastReads : List Read := [copySender pkt, copyText pkt]

def directReads (t : Table) : List Read :=
  [copySender pkt, copyTarget pkt, copyText pkt] ++ nameReads pkt.targetPtr t ++
    if (clFindByName t pkt.targetPtr).isSome then [] else [copySender pkt]

def statusReads (t : Table) : List Read :=
  nameReads pkt.senderPtr t ++
    if (clFindByName t pkt.senderPtr).isSome then
      -- the record, the reply, and the log line
      [⟨pkt.payloadPtr, .upTo 15⟩, copySender pkt, copyText pkt, printSender pkt, printPayload pkt]
    else [copySender pkt]

def infoReads (t : Table) : List Read := nameReads pkt.targetPtr t ++ [copySender pkt]

/-- `username`, the target of the reply, and the log line. -/
def logoutReads : List Read := [copySender pkt, copySender pkt, printSender pkt]

/-- What `client_thread` reads of a packet, `touched` being the table
`cl_touch` meets and `handled` the one the handler meets. -/
def clientReads (touched handled : Table) (fd now : ℤ) : List Read :=
  if pkt.command = cmdBroadcast then
    touchReads pkt (clTouch touched fd now).1 ++ broadcastReads pkt
  else if pkt.command = cmdDirect then
    touchReads pkt (clTouch touched fd now).1 ++ directReads pkt handled
  else if pkt.command = cmdStatus then
    touchReads pkt (clTouch touched fd now).1 ++ statusReads pkt handled
  else if pkt.command = cmdList then [copySender pkt]
  else if pkt.command = cmdInfo then infoReads pkt handled
  else if pkt.command = cmdLogout then logoutReads pkt
  else []

/-! ### When an unbounded read is reached -/

/-- The packet is a `REGISTER` that is accepted. -/
def Admits (t : Table) (ip : List UInt8) : Prop :=
  pkt.command = cmdRegister ∧ t.numClientes < maxClients ∧ duplicate t pkt.senderPtr ip = false

/-- The sender of the packet goes into a log line. -/
def LogsSender (touched : Table) (fd now : ℤ) : Prop :=
  ((pkt.command = cmdBroadcast ∨ pkt.command = cmdDirect ∨ pkt.command = cmdStatus) ∧
    (clTouch touched fd now).1 = true) ∨ pkt.command = cmdLogout

/-- The payload of the packet goes into a log line. -/
def LogsPayload (handled : Table) : Prop :=
  pkt.command = cmdStatus ∧ (clFindByName handled pkt.senderPtr).isSome = true

end Packet

/-! ### Bounded reads -/

variable {pkt : ChatPacket} {t : Table}

theorem length_senderPtr (pkt : ChatPacket) : pkt.senderPtr.length = 1021 := by
  simp [ChatPacket.senderPtr]

theorem length_targetPtr (pkt : ChatPacket) : pkt.targetPtr.length = 989 := by
  simp [ChatPacket.targetPtr]

theorem length_payloadPtr (pkt : ChatPacket) : pkt.payloadPtr.length = 957 := by
  simp [ChatPacket.payloadPtr]

theorem copySender_ends (pkt : ChatPacket) : (copySender pkt).Ends :=
  ends_upTo (by rw [length_senderPtr]; decide)

theorem copyTarget_ends (pkt : ChatPacket) : (copyTarget pkt).Ends :=
  ends_upTo (by rw [length_targetPtr]; decide)

theorem copyText_ends (pkt : ChatPacket) : (copyText pkt).Ends :=
  ends_upTo (by rw [length_payloadPtr]; decide)

theorem printSender_ends_iff : (printSender pkt).Ends ↔ (0 : UInt8) ∈ pkt.senderPtr :=
  ends_whole_iff

theorem printPayload_ends_iff : (printPayload pkt).Ends ↔ (0 : UInt8) ∈ pkt.payloadPtr :=
  ends_whole_iff

/-- A comparison with a name of the table. -/
theorem compare_ends (ht : t.Ok) {r : Cliente} (hr : r ∈ t.used) (hact : r.activo = true)
    {p : List UInt8} (hp : 32 ≤ p.length) : Read.Ends ⟨p, .against r.username.str⟩ := by
  obtain ⟨i, hi⟩ := List.mem_iff_getElem?.mp hr
  have hterm := ht.username ⟨(getElem?_used.mp hi).2, hact⟩
  exact ends_against (hterm.length_str_lt.trans_le hp)

theorem mem_compareReads {stop : Cliente → Bool} {p : List UInt8} {rs : List Cliente} {rd : Read}
    (h : rd ∈ compareReads stop p rs) :
    ∃ r ∈ rs, r.activo = true ∧ rd = ⟨p, .against r.username.str⟩ := by
  induction rs with
  | nil => cases h
  | cons r rs ih =>
    have hrest : rd ∈ compareReads stop p rs →
        ∃ s ∈ r :: rs, s.activo = true ∧ rd = ⟨p, .against s.username.str⟩ := by
      intro hmem
      obtain ⟨s, hs, hspec⟩ := ih hmem
      exact ⟨s, List.mem_cons_of_mem _ hs, hspec⟩
    rw [compareReads] at h
    split at h
    · case isTrue hact =>
      rcases List.mem_cons.mp h with rfl | h
      · exact ⟨r, List.mem_cons_self, hact, rfl⟩
      · split at h
        · cases h
        · exact hrest h
    · exact hrest h

/-- All reads of a list end. -/
def AllEnd (rds : List Read) : Prop := ∀ rd ∈ rds, rd.Ends

@[simp] theorem allEnd_nil : AllEnd [] := fun _ h => absurd h List.not_mem_nil

@[simp] theorem allEnd_cons {rd : Read} {rds : List Read} :
    AllEnd (rd :: rds) ↔ rd.Ends ∧ AllEnd rds :=
  List.forall_mem_cons

@[simp] theorem allEnd_append {rds rds' : List Read} :
    AllEnd (rds ++ rds') ↔ AllEnd rds ∧ AllEnd rds' :=
  List.forall_mem_append

theorem compareReads_end (ht : t.Ok) (stop : Cliente → Bool) {p : List UInt8}
    (hp : 32 ≤ p.length) : AllEnd (compareReads stop p t.used) := by
  intro rd hrd
  obtain ⟨r, hr, hact, rfl⟩ := mem_compareReads hrd
  exact compare_ends ht hr hact hp

theorem nameReads_end (ht : t.Ok) {p : List UInt8} (hp : 32 ≤ p.length) :
    AllEnd (nameReads p t) :=
  compareReads_end ht _ hp

theorem long_senderPtr (pkt : ChatPacket) : 32 ≤ pkt.senderPtr.length := by
  rw [length_senderPtr]
  decide

theorem long_targetPtr (pkt : ChatPacket) : 32 ≤ pkt.targetPtr.length := by
  rw [length_targetPtr]
  decide

/-- A name that is found ends. -/
theorem zero_mem_of_found (ht : t.Ok) {p : List UInt8} (hp : 32 ≤ p.length)
    (h : (clFindByName t p).isSome = true) : (0 : UInt8) ∈ p := by
  obtain ⟨i, hi⟩ := Option.isSome_iff_exists.mp h
  obtain ⟨-, r, hr, hname⟩ := clFindByName_eq_some hi
  have hlen := (ht.username hr).length_str_lt
  rw [hname] at hlen
  exact zero_mem_of_length_cstr_lt (hlen.trans_le hp)

/-! ### Exact conditions -/

theorem mainReads_end_iff (ht : t.Ok) (ip : List UInt8) :
    AllEnd (mainReads pkt t ip) ↔ (Admits pkt t ip → (0 : UInt8) ∈ pkt.senderPtr) := by
  have hcompare : AllEnd (duplicateReads pkt.senderPtr ip t) :=
    compareReads_end ht _ (long_senderPtr pkt)
  unfold mainReads registerReads Admits
  by_cases hregister : pkt.command = cmdRegister
  swap
  · simp [hregister]
  rw [if_pos hregister]
  by_cases hfull : t.numClientes ≥ maxClients
  · -- refused before anything is compared
    rw [if_pos hfull]
    refine iff_of_true (by simp [copySender_ends]) fun hadmits => ?_
    exact absurd hadmits.2.1 (Nat.not_lt.mpr hfull)
  · rw [if_neg hfull, allEnd_append]
    rcases hdup : duplicate t pkt.senderPtr ip with - | -
    · have hnum : t.numClientes < maxClients := Nat.not_le.mp hfull
      simp [hcompare, hregister, hnum, copySender_ends, printSender_ends_iff]
    · simp [hcompare, copySender_ends]

theorem touchReads_end_iff {reactivated : Bool} :
    AllEnd (touchReads pkt reactivated) ↔
      (reactivated = true → (0 : UInt8) ∈ pkt.senderPtr) := by
  cases reactivated <;> simp [touchReads, printSender_ends_iff]

theorem broadcastReads_end : AllEnd (broadcastReads pkt) := by
  simp [broadcastReads, copySender_ends, copyText_ends]

theorem directReads_end (ht : t.Ok) : AllEnd (directReads pkt t) := by
  have hcompare := nameReads_end ht (long_targetPtr pkt)
  unfold directReads
  split <;> simp [hcompare, copySender_ends, copyTarget_ends, copyText_ends]

theorem infoReads_end (ht : t.Ok) : AllEnd (infoReads pkt t) := by
  simp [infoReads, nameReads_end ht (long_targetPtr pkt), copySender_ends]

theorem statusReads_end_iff (ht : t.Ok) :
    AllEnd (statusReads pkt t) ↔
      ((clFindByName t pkt.senderPtr).isSome = true → (0 : UInt8) ∈ pkt.payloadPtr) := by
  have hcompare := nameReads_end ht (long_senderPtr pkt)
  have hstatus : Read.Ends ⟨pkt.payloadPtr, .upTo 15⟩ :=
    ends_upTo (by rw [length_payloadPtr]; decide)
  unfold statusReads
  by_cases hfound : (clFindByName t pkt.senderPtr).isSome = true
  · have hsender := zero_mem_of_found ht (long_senderPtr pkt) hfound
    simp [hfound, hcompare, hstatus, copySender_ends, copyText_ends, printSender_ends_iff,
      printPayload_ends_iff, hsender]
  · simp [hfound, hcompare, copySender_ends]

theorem clientReads_end_iff (ht : t.Ok) (touched : Table) (fd now : ℤ) :
    AllEnd (clientReads pkt touched t fd now) ↔
      (LogsSender pkt touched fd now → (0 : UInt8) ∈ pkt.senderPtr) ∧
        (LogsPayload pkt t → (0 : UInt8) ∈ pkt.payloadPtr) := by
  unfold clientReads LogsSender LogsPayload
  by_cases hbroadcast : pkt.command = cmdBroadcast
  · have hcodes : cmdBroadcast ≠ cmdStatus ∧ cmdBroadcast ≠ cmdLogout := by decide
    rw [if_pos hbroadcast, allEnd_append, touchReads_end_iff]
    simp [hbroadcast, hcodes, broadcastReads_end]
  rw [if_neg hbroadcast]
  by_cases hdirect : pkt.command = cmdDirect
  · have hcodes : cmdDirect ≠ cmdStatus ∧ cmdDirect ≠ cmdLogout := by decide
    rw [if_pos hdirect, allEnd_append, touchReads_end_iff]
    simp [hdirect, hcodes, directReads_end ht]
  rw [if_neg hdirect]
  by_cases hstatus : pkt.command = cmdStatus
  · have hcodes : cmdStatus ≠ cmdLogout := by decide
    rw [if_pos hstatus, allEnd_append, touchReads_end_iff, statusReads_end_iff ht]
    simp [hstatus, hcodes]
  rw [if_neg hstatus]
  -- from here on the timer is not touched
  by_cases hlist : pkt.command = cmdList
  · have hcodes : cmdList ≠ cmdLogout := by decide
    rw [if_pos hlist]
    simp [hbroadcast, hdirect, hstatus, hlist ▸ hcodes, copySender_ends]
  rw [if_neg hlist]
  by_cases hinfo : pkt.command = cmdInfo
  · have hcodes : cmdInfo ≠ cmdLogout := by decide
    rw [if_pos hinfo]
    simp [hbroadcast, hdirect, hstatus, hinfo ▸ hcodes, infoReads_end ht]
  rw [if_neg hinfo]
  by_cases hlogout : pkt.command = cmdLogout
  · have hcodes : cmdLogout ≠ cmdStatus := by decide
    rw [if_pos hlogout]
    simp [hlogout, hcodes, logoutReads, copySender_ends, printSender_ends_iff]
  · rw [if_neg hlogout]
    simp [hbroadcast, hdirect, hstatus, hlogout]

/-- **No read of a packet leaves it**, in any reachable state, exactly when
each text that goes into the welcome or a log line has a NUL: the sender of an
accepted `REGISTER`, of a packet that reactivates its client and of a LOGOUT,
and the payload of a STATUS that finds its client. -/
theorem packetReads_end_iff {w w' : World} (h : Reachable step World.init w)
    (h' : Reachable step World.init w') (pkt : ChatPacket) (ip : List UInt8) (fd now : ℤ) :
    (AllEnd (mainReads pkt w.table ip) ↔
      (Admits pkt w.table ip → (0 : UInt8) ∈ pkt.senderPtr)) ∧
    (AllEnd (clientReads pkt w.table w'.table fd now) ↔
      (LogsSender pkt w.table fd now → (0 : UInt8) ∈ pkt.senderPtr) ∧
        (LogsPayload pkt w'.table → (0 : UInt8) ∈ pkt.payloadPtr)) :=
  ⟨mainReads_end_iff (inv_of_reachable h).core.ok ip,
    clientReads_end_iff (inv_of_reachable h').core.ok w.table fd now⟩

/-- Alice and bob join at 0, and the monitor sweeps at 100. -/
def bothIdle : List Label :=
  joining 4 (ip 1) (registerPacket alice) ++ joining 5 (ip 2) (registerPacket bob) ++
    [⟨.monitor, .clock 100⟩, ⟨.monitor, .go⟩, ⟨.monitor, .go⟩, ⟨.monitor, .wrote 1024⟩,
      ⟨.monitor, .go⟩, ⟨.monitor, .wrote 1024⟩, ⟨.monitor, .go⟩]

/-- Then alice sets her status, up to the handler. -/
def aliceBack : List Label :=
  bothIdle ++ [⟨.client 0, .packet (clientPacket cmdStatus alice [] statusOcupado)⟩,
    ⟨.client 0, .clock 101⟩, ⟨.client 0, .wrote 1024⟩]

theorem exec_bothIdle : (exec step World.init bothIdle).any (fun w =>
    (clTouch w.table 4 101).1 && w.table.numClientes == 2) = true := by
  decide +kernel

theorem exec_aliceBack : (exec step World.init aliceBack).any (fun w =>
    (clFindByName w.table (clientPacket cmdStatus alice [] statusOcupado).senderPtr).isSome) =
      true := by
  decide +kernel

/-- Her `STATUS` goes into both log lines. -/
theorem packetReads_end_iff_alice : ∃ w w', Reachable step World.init w ∧
    Reachable step World.init w' ∧
    LogsSender (clientPacket cmdStatus alice [] statusOcupado) w.table 4 101 ∧
    LogsPayload (clientPacket cmdStatus alice [] statusOcupado) w'.table ∧
    AllEnd (clientReads (clientPacket cmdStatus alice [] statusOcupado) w.table w'.table 4 101) ∧
    AllEnd (mainReads (registerPacket (utf8 "ana")) w.table (ip 3)) := by
  obtain ⟨w, hw, hp⟩ := exists_reachable exec_bothIdle
  obtain ⟨w', hw', hp'⟩ := exists_reachable exec_aliceBack
  simp only [Bool.and_eq_true] at hp
  refine ⟨w, w', hw, hw', .inl ⟨.inr (.inr rfl), hp.1⟩, ⟨rfl, hp'⟩, ?_, ?_⟩
  · exact (packetReads_end_iff hw hw' _ (ip 1) 4 101).2.mpr ⟨fun _ => by decide, fun _ => by decide⟩
  · exact (packetReads_end_iff hw hw' _ (ip 3) 6 101).1.mpr fun _ => by decide

/-- A `REGISTER` without a NUL. -/
def fullRegister : ChatPacket where
  command := cmdRegister
  payloadLen := 0
  sender := ⟨List.replicate 32 88, List.length_replicate⟩
  target := ⟨List.replicate 32 88, List.length_replicate⟩
  payload := ⟨List.replicate 957 88, List.length_replicate⟩

/-- **The welcome reads past the end of it.** -/
theorem not_always_readsEnd :
    ¬ ∀ (w : World) (pkt : ChatPacket) (ip : List UInt8), Reachable step World.init w →
      AllEnd (mainReads pkt w.table ip) := by
  intro hall
  have hends := hall World.init fullRegister (ip 1) ⟨[], .start⟩
  have hzero := (mainReads_end_iff clInit_ok (ip 1)).mp hends ⟨rfl, by decide, by decide⟩
  rcases List.mem_append.mp hzero with hnames | hpayload
  · rcases List.mem_append.mp hnames with hsender | htarget
    · exact absurd (List.eq_of_mem_replicate hsender) (by decide)
    · exact absurd (List.eq_of_mem_replicate htarget) (by decide)
  · exact absurd (List.eq_of_mem_replicate hpayload) (by decide)

end ChatSystem
