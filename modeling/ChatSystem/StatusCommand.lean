/-
ChatSystem/StatusCommand.lean

The `/status` command, from the line of input to the client table and back.

* `ui_process_input` sends a STATUS exactly for the lines that name one of the
  three statuses, in any case (`sends_status_iff`); the scan into
  `status_buf[16]` may cut a longer token, but no cut token is a status.
* `client_thread` touches the record of the connection, which may set it to
  `ACTIVE` first, and then `handle_status` sets the record of the sender's name
  (`serveStatus`).  In a table where names and descriptors are distinct these
  are one record.
-/
import ChatSystem.StatusReports
import ChatSystem.Targets

namespace ChatSystem

open CStr

/-! ### The line -/

/-- The line is `/status `, behind leading blanks, and this token, which ends
at a blank, at a newline or with the line, and is a status but for case. -/
def StatusToken (line token : List UInt8) : Prop :=
  ∃ args, commandText line = utf8 "/status " ++ args ∧ token = word infoStop args ∧
    ∃ status ∈ statuses, strCaseEq token status = true

theorem strCaseEq_iff {p q : List UInt8} (hp : (0 : UInt8) ∉ p) (hq : (0 : UInt8) ∉ q) :
    strCaseEq p q = true ↔ p.map toLower = q.map toLower := by
  rw [strCaseEq, cstr_eq_self hp, cstr_eq_self hq, beq_iff_eq]

theorem mem_statuses {status : List UInt8} (h : status ∈ statuses) :
    (0 : UInt8) ∉ status ∧ status.length < 15 ∧ status.map toUpper = status := by
  have hall : ∀ s ∈ statuses, (0 : UInt8) ∉ s ∧ s.length < 15 ∧ s.map toUpper = s := by decide
  exact hall status h

/-- A token cut by the scan is no status, and was none. -/
theorem strCaseEq_take {token status : List UInt8} (h0 : (0 : UInt8) ∉ token)
    (hstatus : status ∈ statuses) :
    strCaseEq (token.take 15) status = strCaseEq token status := by
  obtain ⟨hnul, hlen, -⟩ := mem_statuses hstatus
  rw [Bool.eq_iff_iff, strCaseEq_iff (notMem_take h0 15) hnul, strCaseEq_iff h0 hnul]
  by_cases hshort : token.length ≤ 15
  · rw [List.take_of_length_le hshort]
  · -- both are too long
    have hne : ∀ p : List UInt8, 15 ≤ p.length → p.map toLower ≠ status.map toLower := by
      intro p hp heq
      have := congrArg List.length heq
      rw [List.length_map, List.length_map] at this
      omega
    have hcut : 15 ≤ (token.take 15).length := by
      rw [List.length_take]
      omega
    exact iff_of_false (hne _ hcut) (hne _ (by omega))

theorem toUpper_toLower (b : UInt8) : toUpper (toLower b) = toUpper b := by
  unfold toUpper toLower
  by_cases hupper : 65 ≤ b ∧ b ≤ 90
  · rw [if_pos hupper]
    grind
  · rw [if_neg hupper]

/-- In upper case a token is the status. -/
theorem map_toUpper_of_caseEq {token status : List UInt8} (h0 : (0 : UInt8) ∉ token)
    (hstatus : status ∈ statuses) (h : strCaseEq token status = true) :
    token.map toUpper = status := by
  obtain ⟨hnul, -, hupper⟩ := mem_statuses hstatus
  have hlower := (strCaseEq_iff h0 hnul).mp h
  have hboth : ∀ p : List UInt8, (p.map toLower).map toUpper = p.map toUpper := by
    intro p
    rw [List.map_map]
    exact List.map_congr_left fun b _ => toUpper_toLower b
  rw [← hboth token, hlower, hboth, hupper]

section Line

variable {line username token : List UInt8}

theorem StatusToken.notMem (h : StatusToken line token) : (0 : UInt8) ∉ token := by
  obtain ⟨args, hline, rfl, -⟩ := h
  intro hmem
  have harg : (0 : UInt8) ∈ args := List.takeWhile_subset _ hmem
  exact zero_notMem_commandText line (hline ▸ List.mem_append_right _ harg)

theorem StatusToken.upper_mem (h : StatusToken line token) : token.map toUpper ∈ statuses := by
  obtain ⟨-, -, -, status, hstatus, heq⟩ := id h
  rw [map_toUpper_of_caseEq h.notMem hstatus heq]
  exact hstatus

/-- A line has one such token. -/
theorem StatusToken.unique {token' : List UInt8} (h : StatusToken line token)
    (h' : StatusToken line token') : token = token' := by
  obtain ⟨args, hline, rfl, -⟩ := h
  obtain ⟨args', hline', rfl, -⟩ := h'
  rw [List.append_cancel_left (hline.symm.trans hline')]

/-- **What `/status` sends.** -/
theorem processStatus_eq (username : List UInt8) {args : List UInt8} (h0 : (0 : UInt8) ∉ args) :
    (∃ status ∈ statuses, strCaseEq (word infoStop args) status = true) ∧
      processStatus username args =
        .packet (netStatus username ((word infoStop args).map toUpper)) ∨
    (∀ status ∈ statuses, strCaseEq (word infoStop args) status = false) ∧
      (processStatus username args).sent = [] := by
  have hword : (0 : UInt8) ∉ word infoStop args := fun h => h0 (List.takeWhile_subset _ h)
  have hscan : (scan (fun b => b == newline || b == space) 15 args).1 =
      (word infoStop args).take 15 := congrArg Prod.fst (scan_eq _ _ _)
  have htest : ∀ status ∈ statuses, strCaseEq ((word infoStop args).take 15) status =
      strCaseEq (word infoStop args) status := fun _ => strCaseEq_take hword
  have hor : (strCaseEq ((word infoStop args).take 15) statusActivo ||
      strCaseEq ((word infoStop args).take 15) statusOcupado ||
      strCaseEq ((word infoStop args).take 15) statusInactivo) =
      statuses.any (strCaseEq (word infoStop args)) := by
    rw [htest _ (by decide), htest _ (by decide), htest _ (by decide)]
    simp [statuses, Bool.or_assoc]
  unfold processStatus
  rw [hscan]
  dsimp only
  rw [hor]
  rcases hany : statuses.any (strCaseEq (word infoStop args)) with - | -
  · refine .inr ⟨?_, by simp [Processed.text]⟩
    simpa using List.any_eq_false.mp hany
  · obtain ⟨status, hstatus, heq⟩ := List.any_eq_true.mp hany
    -- a status has not been cut
    have hwhole : (word infoStop args).take 15 = word infoStop args := by
      obtain ⟨hnul, hlen, -⟩ := mem_statuses hstatus
      have hsame := congrArg List.length ((strCaseEq_iff hword hnul).mp heq)
      rw [List.length_map, List.length_map] at hsame
      exact List.take_of_length_le (by omega)
    exact .inl ⟨⟨status, hstatus, heq⟩, by simp [hwhole]⟩

theorem processed_status (username : List UInt8) {args : List UInt8}
    (hline : commandText line = utf8 "/status " ++ args) :
    uiProcessInput line username = processStatus username args ∧ (0 : UInt8) ∉ args := by
  refine ⟨processed_of_begins (e := (utf8 "/status ", processStatus username))
    (by simp [commands]) hline, fun hmem => ?_⟩
  exact zero_notMem_commandText line (hline ▸ List.mem_append_right _ hmem)

/-- What a line with a token sends. -/
theorem StatusToken.sent (h : StatusToken line token) :
    (uiProcessInput line username).sent = [netStatus username (token.map toUpper)] := by
  obtain ⟨args, hline, rfl, status, hstatus, heq⟩ := h
  obtain ⟨hdoes, h0⟩ := processed_status username hline
  rw [hdoes]
  rcases processStatus_eq username h0 with ⟨-, hsent⟩ | ⟨hnone, -⟩
  · rw [hsent]
    rfl
  · rw [hnone status hstatus] at heq
    cases heq

/-- **Which lines send a STATUS.** -/
theorem sends_status_iff :
    (∃ pkt ∈ (uiProcessInput line username).sent, pkt.command = cmdStatus) ↔
      ∃ token, StatusToken line token := by
  constructor
  · rintro ⟨pkt, hpkt, hcmd⟩
    rcases sent_cases hpkt with ⟨_, -, hother, -⟩ | ⟨_, -, hother, -⟩ | ⟨args, hline, -, hmem⟩ |
      ⟨_, -, rfl⟩ | ⟨_, -, hother, -⟩ | ⟨_, -, rfl⟩
    · exact absurd (hother.symm.trans hcmd) (by decide)
    · exact absurd (hother.symm.trans hcmd) (by decide)
    · obtain ⟨-, h0⟩ := processed_status username hline
      rcases processStatus_eq username h0 with ⟨hstatus, -⟩ | ⟨-, hsent⟩
      · exact ⟨_, args, hline, rfl, hstatus⟩
      · rw [hsent] at hmem
        cases hmem
    · exact absurd (show cmdList = cmdStatus from hcmd) (by decide)
    · exact absurd (hother.symm.trans hcmd) (by decide)
    · exact absurd (show cmdLogout = cmdStatus from hcmd) (by decide)
  · rintro ⟨token, htoken⟩
    refine ⟨netStatus username (token.map toUpper), ?_, rfl⟩
    rw [htoken.sent]
    exact List.mem_singleton_self _

end Line

/-! ### The server -/

/-- The `STATUS` branch of `client_thread`, for a client on `sockfd`: the table
it leaves, and the packets it sends to the client. -/
def serveStatus (t : Table) (sockfd now : ℤ) (pkt : ChatPacket) : Table × List ChatPacket :=
  let touched := clTouch t sockfd now
  let handled := handleStatus touched.2 pkt
  (handled.1, (if touched.1 then [reactivationNotice] else []) ++ [handled.2])

/-- The packets thread `t` is sending, with their descriptors. -/
def World.calls (w : World) (t : Tid) : List (ℤ × ChatPacket) :=
  (w.sending t).toList.map fun s => (s.fd, s.pkt)

/-- **The steps of `client_thread`** make `serveStatus`, if no other thread
changes the table between the two sections. -/
theorem serveStatus_of_steps {w w₁ w₂ w₃ : World} {c : ℕ} {sockfd now : ℤ} {pkt : ChatPacket}
    (hs : w.sending (.client c) = none) (hpc : w.pc (.client c) = .touch sockfd pkt)
    (hcmd : pkt.command = cmdStatus) (h₁ : step w ⟨.client c, .clock now⟩ = some w₁)
    (htable : w₂.table = w₁.table) (hpc₂ : w₂.pc (.client c) = w₁.pc (.client c))
    (hs₂ : w₂.sending (.client c) = none) (h₃ : step w₂ ⟨.client c, .go⟩ = some w₃) :
    w₃.table = (serveStatus w.table sockfd now pkt).1 ∧
    w₁.calls (.client c) ++ w₃.calls (.client c) =
      (serveStatus w.table sockfd now pkt).2.map (sockfd, ·) := by
  -- the first section
  have hfirst : clientStep w c (.clock now) = some w₁ := by simpa [step, hs] using h₁
  simp only [clientStep, hpc] at hfirst
  split at hfirst
  · rw [Option.some.injEq] at hfirst
    have htable₁ : w₁.table = (clTouch w.table sockfd now).2 := by
      rw [← hfirst]
      split <;> rfl
    have hpc₁ : w₁.pc (.client c) = .handle sockfd pkt := by
      rw [← hfirst]
      split <;> simp [World.goto, World.call]
    have hcalls₁ : w₁.calls (.client c) =
        (if (clTouch w.table sockfd now).1 then [reactivationNotice] else []).map (sockfd, ·) := by
      rw [← hfirst]
      split <;> simp [World.calls, World.goto, World.call, World.setTable, *]
    -- the second
    have hsecond : clientStep w₂ c .go = some w₃ := by simpa [step, hs₂] using h₃
    simp only [clientStep, hpc₂, hpc₁] at hsecond
    split at hsecond
    · have hhandle : handle w₂ c sockfd pkt = w₃ := Option.some.inj hsecond
      have hne : pkt.command ≠ cmdBroadcast ∧ pkt.command ≠ cmdDirect := by
        rw [hcmd]
        decide
      rw [handle, if_neg hne.1, if_neg hne.2, if_pos hcmd, htable, htable₁] at hhandle
      rw [hcalls₁, ← hhandle]
      exact ⟨rfl, by simp [serveStatus, World.calls, World.call]⟩
    · cases hsecond
  · cases hfirst

/-- No two active records have the same descriptor. -/
def Table.FdsDistinct (t : Table) : Prop :=
  ∀ i j r s, t.Active i r → t.Active j s → r.sockfd = s.sockfd → i = j

theorem Inv.fdsDistinct {w : World} (h : Inv w) : w.table.FdsDistinct :=
  fun _ _ _ _ hr hs heq => h.core.fds_distinct hr hs heq

section Table

variable {t : Table} {i : ℕ} {r : Cliente}

/-- The touch finds the record of its connection. -/
theorem clTouch_of_active (ht : t.Ok) (hfds : t.FdsDistinct) (hr : t.Active i r) (now : ℤ) :
    clTouch t r.sockfd now =
      (strEq r.status.bytes statusInactivo, t.modifySlot i (touchCliente now)) := by
  unfold clTouch
  rw [clFindByFd_of_active ht hr fun j s hs heq => hfds j i s r hs hr heq]
  simp only [hr.1]

/-- When names are distinct, `handle_status` sets the record of the sender. -/
theorem handleStatus_of_active (ht : t.Ok) (hnames : t.NamesDistinct) (hr : t.Active i r)
    {pkt : ChatPacket} (hname : cstr pkt.senderPtr = r.username.str) :
    handleStatus t pkt =
      (t.modifySlot i (setStatus pkt.payloadPtr), sendOk pkt.senderPtr pkt.payloadPtr) := by
  have hfind : clFindByName t pkt.senderPtr = some i := by
    refine (clFindByName_eq_some_iff ht).mpr ⟨⟨r, hr, hname.symm⟩, fun j s hj hs hsame => ?_⟩
    exact Nat.ne_of_lt hj (hnames j i s r hs hr (hsame.trans hname))
  simp [handleStatus, clSetStatus, hfind]

theorem modifySlot_modifySlot (t : Table) (i : ℕ) (f g : Cliente → Cliente) :
    (t.modifySlot i f).modifySlot i g = t.modifySlot i (g ∘ f) := by
  simp [Table.modifySlot, List.modify_modify_eq]

/-- **The whole branch** updates one record. -/
theorem serveStatus_of_active (ht : t.Ok) (hnames : t.NamesDistinct) (hfds : t.FdsDistinct)
    (hr : t.Active i r) (now : ℤ) {pkt : ChatPacket}
    (hname : cstr pkt.senderPtr = r.username.str) :
    serveStatus t r.sockfd now pkt =
      (t.modifySlot i (setStatus pkt.payloadPtr ∘ touchCliente now),
        (if strEq r.status.bytes statusInactivo then [reactivationNotice] else []) ++
          [sendOk pkt.senderPtr pkt.payloadPtr]) := by
  have hf := refresh_touchCliente now
  have hr' : (t.modifySlot i (touchCliente now)).Active i (touchCliente now r) :=
    (active_modify hf).mpr ⟨r, hr, (if_pos rfl).symm⟩
  have hname' : cstr pkt.senderPtr = (touchCliente now r).username.str := by
    rw [(hf.sameId r).1, hname]
  unfold serveStatus
  rw [clTouch_of_active ht hfds hr now]
  dsimp only
  rw [handleStatus_of_active (modify_ok hf i ht) (modify_namesDistinct hf i hnames) hr' hname',
    modifySlot_modifySlot]

end Table

/-- One update after another. -/
theorem Refresh.comp {f g : Cliente → Cliente} (hf : Refresh f) (hg : Refresh g) :
    Refresh (g ∘ f) where
  activo := fun r => (hg.activo (f r)).trans (hf.activo r)
  sameId := fun r => (hg.sameId (f r)).trans (hf.sameId r)
  status := fun r hr => hg.status (f r) (hf.status r hr)

/-! ### End to end -/

/-- The branch has given record `r`, in slot `i`, this status, and has told its
client so. -/
structure StatusServed (t : Table) (i : ℕ) (r : Cliente) (status : List UInt8)
    (served : Table × List ChatPacket) : Prop where
  own : ∃ r', served.1.Active i r' ∧ r'.SameId r ∧ r'.status.str = status
  others : ∀ j, j ≠ i → served.1.lista[j]? = t.lista[j]?
  mark : served.1.numClientes = t.numClientes
  /-- the notice, if the touch has set the record to `ACTIVE`, and the OK -/
  reply : ∃ ok, served.2 =
      (if strEq r.status.bytes statusInactivo then [reactivationNotice] else []) ++ [ok] ∧
    ok.command = cmdOk ∧ ok.target.str = r.username.str ∧ ok.payload.str = status

/-- A status fits its field, and the payload of the packets. -/
theorem statusServed_of_active {t : Table} {i : ℕ} {r : Cliente} (ht : t.Ok)
    (hnames : t.NamesDistinct) (hfds : t.FdsDistinct) (hr : t.Active i r) (now : ℤ)
    {username status : List UInt8} (hname : cstr username = r.username.str)
    (hstatus : status ∈ statuses) :
    StatusServed t i r status (serveStatus t r.sockfd now (netStatus username status)) := by
  obtain ⟨hnul, -, -⟩ := mem_statuses hstatus
  obtain ⟨hfield, hpayload⟩ := take_of_mem_statuses hstatus
  have hterm := terminated_fillPacket cmdStatus username [] status
  -- the packet has the name and the status whole
  have hsender : cstr (netStatus username status).senderPtr = r.username.str := by
    have hshort := (ht.username hr).length_str_lt
    rw [netStatus, ChatPacket.cstr_senderPtr hterm.sender, str_sender_fillPacket, hname,
      List.take_of_length_le (by omega)]
  have htext : cstr (netStatus username status).payloadPtr = status := by
    show (netStatus username status).payload.str = status
    rw [netStatus, str_payload_fillPacket, cstr_eq_self hnul, hpayload]
  rw [serveStatus_of_active ht hnames hfds hr now hsender]
  have hf : Refresh (setStatus (netStatus username status).payloadPtr ∘ touchCliente now) :=
    (refresh_touchCliente now).comp (refresh_setStatus _)
  refine ⟨⟨_, (active_modify hf).mpr ⟨r, hr, rfl⟩, ?_, ?_⟩, fun j hj => ?_, rfl,
    sendOk (netStatus username status).senderPtr (netStatus username status).payloadPtr,
    rfl, rfl, ?_, ?_⟩
  · rw [if_pos rfl]
    exact hf.sameId r
  · rw [if_pos rfl]
    show (setStatus _ (touchCliente now r)).status.str = status
    rw [setStatus, CharArray.str_strncpy_put, htext, hfield]
    decide
  · simp [Table.modifySlot, Ne.symm hj]
  · rw [sendOk, str_target_fillPacket, hsender, List.take_of_length_le]
    have := (ht.username hr).length_str_lt
    omega
  · rw [sendOk, str_payload_fillPacket, htext, hpayload]

/-- **The status command, end to end.**  In a table with distinct names, a
client sends a STATUS for the lines that ask for one, and the server gives its
record that status.  The client's connection is known by its descriptor, which
no other record has in any table a server reaches (`Inv.fdsDistinct`). -/
theorem status_command {t : Table} (ht : t.Ok) (hnames : t.NamesDistinct) (hfds : t.FdsDistinct)
    {i : ℕ} {r : Cliente} (hr : t.Active i r) {username : List UInt8}
    (hname : cstr username = r.username.str) (line : List UInt8) (now : ℤ) :
    ((∃ pkt ∈ (uiProcessInput line username).sent, pkt.command = cmdStatus) ↔
      ∃ token, StatusToken line token) ∧
    ∀ token, StatusToken line token → ∃ pkt, (uiProcessInput line username).sent = [pkt] ∧
      pkt.command = cmdStatus ∧
      StatusServed t i r (token.map toUpper) (serveStatus t r.sockfd now pkt) := by
  refine ⟨sends_status_iff, fun token htoken => ⟨_, htoken.sent, rfl, ?_⟩⟩
  exact statusServed_of_active ht hnames hfds hr now hname htoken.upper_mem

/-- The table of a server that two users have joined. -/
def bothJoined : Table :=
  added (added clInit (newCliente alice (ip 1) 4 0)) (newCliente bob (ip 2) 5 0)

theorem bothJoined_spec : bothJoined.Ok ∧ ∀ i r, bothJoined.Active i r ↔
    (i = 1 ∧ r = newCliente bob (ip 2) 5 0) ∨ (i = 0 ∧ r = newCliente alice (ip 1) 4 0) := by
  have hfirst : (0 : ℕ) < maxClients := by decide
  have hok := added_ok clInit_ok hfirst alice (ip 1) 4 0
  have hsecond : (added clInit (newCliente alice (ip 1) 4 0)).numClientes < maxClients := by decide
  refine ⟨added_ok hok hsecond bob (ip 2) 5 0, fun i r => ?_⟩
  rw [bothJoined, active_added hok hsecond rfl, active_added clInit_ok hfirst rfl]
  refine or_congr Iff.rfl ⟨fun hr => ?_, .inl⟩
  exact hr.resolve_right (clInit_not_active i r)

/-- Their records are told apart by what differs. -/
theorem bothJoined_distinct {α : Type} (f : Cliente → α)
    (hne : f (newCliente alice (ip 1) 4 0) ≠ f (newCliente bob (ip 2) 5 0)) :
    ∀ i j r s, bothJoined.Active i r → bothJoined.Active j s → f r = f s → i = j := by
  obtain ⟨-, hact⟩ := bothJoined_spec
  intro i j r s hr hs heq
  rcases (hact i r).mp hr with ⟨rfl, rfl⟩ | ⟨rfl, rfl⟩ <;>
    rcases (hact j s).mp hs with ⟨rfl, rfl⟩ | ⟨rfl, rfl⟩
  · rfl
  · exact absurd heq.symm hne
  · exact absurd heq hne
  · rfl

/-- `bob`, the second of two users, asks to be busy. -/
theorem status_command_bob : ∃ i r, bothJoined.Active i r ∧ r.username.str = bob ∧
    ((∃ pkt ∈ (uiProcessInput (utf8 " /status Busy now") bob).sent, pkt.command = cmdStatus) ↔
      ∃ token, StatusToken (utf8 " /status Busy now") token) ∧
    ∀ token, StatusToken (utf8 " /status Busy now") token →
      ∃ pkt, (uiProcessInput (utf8 " /status Busy now") bob).sent = [pkt] ∧
        pkt.command = cmdStatus ∧
        StatusServed bothJoined i r (token.map toUpper)
          (serveStatus bothJoined r.sockfd 7 pkt) := by
  obtain ⟨hok, hact⟩ := bothJoined_spec
  have hbob := (hact 1 _).mpr (.inl ⟨rfl, rfl⟩)
  have hnames := bothJoined_distinct (·.username.str) (by decide)
  have hfds := bothJoined_distinct (·.sockfd) (by decide)
  exact ⟨1, _, hbob, by decide, status_command hok hnames hfds hbob (by decide) _ 7⟩

end ChatSystem
