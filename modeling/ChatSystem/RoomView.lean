/-
ChatSystem/RoomView.lean

The server is a chat room (`ChatSystem/Room.lean`).  The room in a table
(`Table.room`) is what its used slots say of the active records: name, IP,
status and last message; slots, buffers, descriptors and bytes behind a NUL
are forgotten.

* `Inv.follows` — every step of the server, of whichever thread, is the room
  action it is supposed to be (`roomAction`), or leaves the room alone;
  `room_of_run` says so of whole runs.
* `answers_of_room` — what the server answers (`cl_add`'s code, the user list,
  INFO, STATUS, whether a DIRECT finds its target and in which slot) depends
  on the room alone.

Together: two runs that did the same to the room, however their threads
interleaved, whatever descriptors they got and wherever their `send()`s
failed, answer every request alike.
-/
import ChatSystem.Replay
import ChatSystem.Room
import ChatSystem.Unsent

namespace ChatSystem

open CStr Lts

abbrev ChatSeats := Room.Seats (List UInt8) (List UInt8) (List UInt8)

abbrev ChatAction := Room.Action (List UInt8) (List UInt8) (List UInt8)

def chatRules : Room.Rules (List UInt8) (List UInt8) where
  capacity := maxClients
  timeout := inactivityTimeout
  active := statusActivo
  inactive := statusInactivo
  clip := fun name => name.take 31
  clipStatus := fun status => status.take 15

/-- The guest of a slot. -/
def Cliente.guest (r : Cliente) : Option (Room.Guest (List UInt8) (List UInt8) (List UInt8)) :=
  if r.activo then some ⟨r.username.str, r.ip.str, r.status.str, r.ultimoMensaje⟩ else none

/-- The room of a table. -/
def Table.room (t : Table) : ChatSeats := t.used.map Cliente.guest

/-- What a step means to the room. -/
def roomAction (w : World) (l : Label) : Option ChatAction :=
  if w.sending l.tid = none then
    match l.tid, w.pc l.tid, l.answer with
    | .main, .register _ fd ip pkt, .clock now =>
      if (clAdd w.table pkt.senderPtr ip fd now).1 = 0 then
        some (.join (cstr pkt.senderPtr) (cstr ip) now)
      else none
    | .client _, .touch fd _, .clock now =>
      (clFindByFd w.table fd).map fun i => .touch i now
    | .client _, .handle _ pkt, .go =>
      if pkt.command = cmdStatus ∧ (clFindByName w.table pkt.senderPtr).isSome then
        some (.setStatus (cstr pkt.senderPtr) (cstr pkt.payloadPtr))
      else none
    | .client _, .remove fd _, .go => (clFindByFd w.table fd).map .leave
    | .monitor, .sweep now i, .go =>
      if i < w.table.numClientes ∧ idle now (w.table.at i) = true then some (.expire i now)
      else none
    | _, _, _ => none
  else none

/-! ### Reading the room -/

variable {t : Table} {i : ℕ} {r : Cliente}

theorem guest_of_activo (h : r.activo = true) :
    r.guest = some ⟨r.username.str, r.ip.str, r.status.str, r.ultimoMensaje⟩ := by
  rw [Cliente.guest, if_pos h]

theorem isNone_guest : r.guest.isNone = !r.activo := by
  unfold Cliente.guest
  cases r.activo <;> rfl

/-- A question about the guest of a slot. -/
theorem any_guest (p : Room.Guest (List UInt8) (List UInt8) (List UInt8) → Bool) :
    r.guest.any p =
      (r.activo && p ⟨r.username.str, r.ip.str, r.status.str, r.ultimoMensaje⟩) := by
  unfold Cliente.guest
  cases r.activo <;> rfl

theorem length_room (ht : t.Ok) : t.room.length = t.numClientes := by
  rw [Table.room, List.length_map, Table.used, List.length_take, ht.size]
  exact Nat.min_eq_left ht.num_le

theorem room_getElem? (hr : t.Active i r) (ht : t.Ok) :
    t.room[i]? = some (some ⟨r.username.str, r.ip.str, r.status.str, r.ultimoMensaje⟩) := by
  rw [Table.room, List.getElem?_map, ht.mem_used hr, Option.map_some, guest_of_activo hr.2]

theorem strEq_eq_decide (a : List UInt8) (name : List UInt8) :
    strEq a name = decide (cstr a = cstr name) := by
  rw [Bool.eq_iff_iff, strEq_iff, decide_eq_true_iff]

/-- **The lookup by name is the room's.** -/
theorem seatOf_room (name : List UInt8) :
    Room.seatOf t.room (cstr name) = clFindByName t name := by
  unfold Room.seatOf Table.room clFindByName
  rw [List.findIdx?_map]
  congr 1
  funext r
  rw [Function.comp_apply, any_guest, strEq_eq_decide]
  rfl

/-- So is the test of `cl_add`. -/
theorem taken_room (username ip : List UInt8) :
    Room.taken t.room (cstr username) (cstr ip) = duplicate t username ip := by
  unfold Room.taken Table.room duplicate
  rw [List.any_map]
  congr 1
  funext r
  rw [Function.comp_apply, any_guest, strEq_eq_decide, strEq_eq_decide]
  rfl

/-- And its search for a freed slot. -/
theorem findIdx?_isNone_room : t.room.findIdx? (fun s => s.isNone) = freeSlot t := by
  unfold Table.room freeSlot
  rw [List.findIdx?_map]
  congr 1
  funext r
  exact isNone_guest

/-! ### Changing the room -/

/-- Updating an element before reading it, and reading it before updating. -/
theorem map_modify {α β : Type*} {f : α → α} {g : α → β} {u : β → β} (h : ∀ a, g (f a) = u (g a))
    (l : List α) (i : ℕ) : (l.modify i f).map g = (l.map g).modify i u := by
  induction l generalizing i with
  | nil => simp
  | cons a l ih =>
    rcases i with - | i
    · simp [h]
    · simp [ih]

theorem map_modify_const {α β : Type*} {f : α → α} {g : α → β} {b : β} (h : ∀ a, g (f a) = b)
    (l : List α) (i : ℕ) : (l.modify i f).map g = (l.map g).set i b := by
  induction l generalizing i with
  | nil => simp
  | cons a l ih =>
    rcases i with - | i
    · simp [h]
    · simp [ih]

/-- A record updated in place is a guest changed in his seat. -/
theorem room_modifySlot {f : Cliente → Cliente}
    {u : Room.Guest (List UInt8) (List UInt8) (List UInt8) →
      Room.Guest (List UInt8) (List UInt8) (List UInt8)}
    (hfu : ∀ r, (f r).guest = r.guest.map u) (i : ℕ) :
    (t.modifySlot i f).room = t.room.modify i (Option.map u) := by
  unfold Table.room Table.used Table.modifySlot
  simp only
  rw [List.take_modify]
  exact map_modify hfu _ i

theorem guest_touchCliente (now : ℤ) (r : Cliente) :
    (touchCliente now r).guest = r.guest.map (Room.Guest.touch chatRules now) := by
  have hsame := (refresh_touchCliente now).sameId r
  rcases hact : r.activo with - | -
  · simp [Cliente.guest, (refresh_touchCliente now).activo, hact]
  · have hact' : (touchCliente now r).activo = true := by
      rw [(refresh_touchCliente now).activo, hact]
    have hseen : (touchCliente now r).ultimoMensaje = now := by
      unfold touchCliente
      split <;> rfl
    rw [guest_of_activo hact, guest_of_activo hact', Option.map_some, hseen]
    unfold CharArray.str
    rw [hsame.1, hsame.2.1]
    have hstatus : (touchCliente now r).status.str
        = if r.status.str = statusInactivo then statusActivo else r.status.str := by
      by_cases hin : r.Inactive
      · rw [status_touchCliente hin]
        exact (if_pos hin).symm
      · rw [touchCliente, if_neg (mt strEq_inactive.mp hin)]
        exact (if_neg hin).symm
    exact congrArg (fun s => some (Room.Guest.mk (cstr r.username.bytes) (cstr r.ip.bytes) s now))
      hstatus

theorem guest_setStatus (newStatus : List UInt8) (r : Cliente) :
    (setStatus newStatus r).guest
      = r.guest.map fun g => { g with status := chatRules.clipStatus (cstr newStatus) } := by
  have hstatus : (setStatus newStatus r).status.str = (cstr newStatus).take 15 :=
    CharArray.str_strncpy_put (by decide)
  unfold Cliente.guest
  rw [show (setStatus newStatus r).activo = r.activo from rfl, hstatus]
  cases r.activo <;> rfl

theorem guest_markInactive (r : Cliente) :
    (markInactive r).guest = r.guest.map fun g => { g with status := chatRules.inactive } := by
  have hstatus : (markInactive r).status.str = statusInactivo := inactive_markInactive r
  unfold Cliente.guest
  rw [show (markInactive r).activo = r.activo from rfl, hstatus]
  cases r.activo <;> rfl

/-- `cl_add` seats a guest. -/
theorem room_added (ht : t.Ok) (hnum : t.numClientes < maxClients)
    {g : Room.Guest (List UInt8) (List UInt8) (List UInt8)} (hg : r.guest = some g) :
    (added t r).room = Room.seated t.room g := by
  have hlen : t.numClientes < t.lista.length := by rw [ht.size]; exact hnum
  unfold Room.seated
  rw [findIdx?_isNone_room]
  unfold Table.room Table.used added addSlot
  rcases hfree : freeSlot t with - | slot
  · -- a new seat at the end
    have htake : (t.lista.set t.numClientes r).take (t.numClientes + 1)
        = t.lista.take t.numClientes ++ [r] := by
      have hlast : (t.lista.take t.numClientes).length = t.numClientes := by
        rw [List.length_take]
        exact Nat.min_eq_left hlen.le
      rw [List.take_set, List.take_succ_eq_append_getElem hlen,
        List.set_append_right _ _ hlast.le, hlast, Nat.sub_self]
      rfl
    simp only [Option.getD_none]
    rw [Nat.max_eq_right (Nat.le_succ _), htake, List.map_append, List.map_singleton, hg]
  · -- a seat left before
    have hslot : slot < t.numClientes := by
      obtain ⟨hl, -, -⟩ := List.findIdx?_eq_some_iff_getElem.mp hfree
      exact (getElem?_used.mp (List.getElem?_eq_getElem hl)).1
    simp only [Option.getD_some]
    rw [Nat.max_eq_left hslot, List.take_set, List.map_set, hg]

/-- `cl_remove` empties a seat. -/
theorem room_clRemove {fd : ℤ} (hfind : clFindByFd t fd = some i) :
    (clRemove t fd).2.room = t.room.set i none := by
  unfold clRemove Table.room Table.used
  rw [hfind]
  simp only [Table.modifySlot]
  rw [List.take_modify]
  exact map_modify_const (fun r => by simp [Cliente.guest]) _ i

/-! ### The server follows the room -/

variable {w w' : World} {l : Label}

/-- A guest is there to be changed. -/
theorem change_room (ht : t.Ok) (hr : t.Active i r)
    (u : Room.Guest (List UInt8) (List UInt8) (List UInt8) →
      Room.Guest (List UInt8) (List UInt8) (List UInt8)) :
    Room.change t.room i u = some (t.room.modify i (Option.map u)) := by
  unfold Room.change
  rw [room_getElem? hr ht]
  rfl

theorem room_clTouch (ht : t.Ok) (fd now : ℤ) :
    Follows (Room.step chatRules) t.room ((clFindByFd t fd).map fun i => .touch i now)
      (clTouch t fd now).2.room := by
  rcases hfind : clFindByFd t fd with - | i
  · show (clTouch t fd now).2.room = t.room
    rw [clTouch, hfind]
  · obtain ⟨-, r, hr, -⟩ := clFindByFd_eq_some hfind
    show Room.change t.room i _ = some (clTouch t fd now).2.room
    rw [change_room ht hr, clTouch, hfind]
    simp only
    rw [room_modifySlot (guest_touchCliente now)]

theorem room_handleStatus (ht : t.Ok) (pkt : ChatPacket) :
    Follows (Room.step chatRules) t.room
      (if (clFindByName t pkt.senderPtr).isSome then
        some (.setStatus (cstr pkt.senderPtr) (cstr pkt.payloadPtr)) else none)
      (handleStatus t pkt).1.room := by
  show Follows (Room.step chatRules) t.room _ (clSetStatus t pkt.senderPtr pkt.payloadPtr).2.room
  rcases hfind : clFindByName t pkt.senderPtr with - | i
  · show (clSetStatus t pkt.senderPtr pkt.payloadPtr).2.room = t.room
    rw [clSetStatus, hfind]
  · obtain ⟨-, r, hr, -⟩ := clFindByName_eq_some hfind
    show ((Room.seatOf t.room (cstr pkt.senderPtr)).bind fun i => Room.change t.room i _) =
      some (clSetStatus t pkt.senderPtr pkt.payloadPtr).2.room
    rw [seatOf_room, hfind, Option.bind_some, change_room ht hr, clSetStatus, hfind]
    simp only
    rw [room_modifySlot (guest_setStatus pkt.payloadPtr)]

theorem room_sweepSlot (ht : t.Ok) (now : ℤ) (hi : i < t.numClientes)
    (hidle : idle now (t.at i) = true) :
    Room.step chatRules t.room (.expire i now) = some (sweepSlot now t i).room := by
  have hr := ht.active_at hi (activo_of_idle hidle)
  obtain ⟨-, hnot, htime⟩ := idle_iff.mp hidle
  have hguest : Room.Guest.idle chatRules now ⟨(t.at i).username.str, (t.at i).ip.str,
      (t.at i).status.str, (t.at i).ultimoMensaje⟩ = true := by
    simp only [Room.Guest.idle, chatRules, Bool.and_eq_true]
    exact ⟨decide_eq_true hnot, decide_eq_true htime⟩
  have hsweep : sweepSlot now t i = t.modifySlot i markInactive := by
    rw [sweepSlot, hr.1]
    simp only
    rw [if_pos hidle]
  simp only [Room.step]
  rw [room_getElem? hr ht, Option.join_some, Option.any_some, if_pos hguest, change_room ht hr,
    hsweep, room_modifySlot guest_markInactive]

/-- **Every step of the server is the room action it stands for**, or leaves
the room alone. -/
theorem Move.follows (h : Move w l w') (hinv : Inv w) :
    Follows (Room.step chatRules) w.table.room (roomAction w l) w'.table.room := by
  have hok := hinv.core.ok
  cases h with
  | wrote hs | sendFail hs => simp [roomAction, hs, Follows, World.emit]
  | @add c fd ip pkt now hs hpc hm hnum hdup =>
    have hadd : (clAdd w.table pkt.senderPtr ip fd now).1 = 0 := by
      rcases clAdd_cases w.table pkt.senderPtr ip fd now with
        ⟨-, hfull⟩ | ⟨-, -, hdup'⟩ | ⟨hres, -⟩
      · exact absurd hnum (Nat.not_lt.mpr hfull)
      · rw [hdup] at hdup'
        cases hdup'
      · rw [hres]
    -- the whole address is written down
    have hip : (cstr ip).take 15 = cstr ip :=
      List.take_of_length_le ((length_cstr_le ip).trans (hinv.expects hpc rfl).2.1)
    have hguest : (newCliente pkt.senderPtr ip fd now).guest = some
        ⟨chatRules.clip (cstr pkt.senderPtr), cstr ip, chatRules.active, now⟩ := by
      rw [guest_of_activo rfl, str_username_newCliente, str_ip_newCliente, hip, status_newCliente]
      rfl
    simp only [roomAction, hs, hpc, hadd, if_true, Follows, Room.step]
    rw [length_room hok, taken_room, if_pos ⟨hnum, hdup⟩]
    exact congrArg some (room_added hok hnum hguest).symm
  | @refuse c fd ip pkt now rc hs hpc hm hrc h0 =>
    have hne : (clAdd w.table pkt.senderPtr ip fd now).1 ≠ 0 := by
      rw [hrc]
      exact h0
    simp [roomAction, hs, hpc, hne, Follows, World.emit, World.call, World.goto]
  | @touch c fd pkt now hs hpc | @reactivate c fd pkt now hs hpc =>
    simp only [roomAction, hs, hpc, if_true]
    exact room_clTouch hok fd now
  | @status c fd pkt hs hpc hm hcmd =>
    simp only [roomAction, hs, hpc, hcmd, if_true, true_and]
    exact room_handleStatus hok pkt
  | @remove c fd username hs hpc =>
    simp only [roomAction, hs, hpc, if_true]
    rcases hfind : clFindByFd w.table fd with - | i
    · show (clRemove w.table fd).2.room = w.table.room
      rw [clRemove, hfind]
    · obtain ⟨-, r, hr, -⟩ := clFindByFd_eq_some hfind
      show (if _ then _ else _) = some (clRemove w.table fd).2.room
      rw [room_getElem? hr hok, room_clRemove hfind]
      rfl
  | @sweepMark now i hs hpc hi hidle =>
    simp only [roomAction, hs, hpc, hi, hidle, if_true, and_self]
    exact room_sweepSlot hok now hi hidle
  | @sweepSkip now i hs hpc hi hidle =>
    have hsame : sweepSlot now w.table i = w.table := by
      unfold sweepSlot
      rcases hget : w.table.lista[i]? with - | r
      · rfl
      · have hr : w.table.at i = r := by simp [Table.at, hget]
        rw [hr] at hidle
        simp [hidle]
    simp [roomAction, hs, hpc, hidle, Follows, World.goto, World.setTable, hsame]
  | broadcast hs hpc hm hcmd | direct hs hpc hm hcmd | directMissing hs hpc hm hcmd
  | list hs hpc hm hcmd =>
    simp [roomAction, hs, hpc, hcmd, Follows, World.goto, World.lock, World.call, cmdStatus,
      cmdBroadcast, cmdDirect, cmdList]
  | @info c fd pkt hs hpc hm hcmd =>
    have hne : ¬ pkt.command = cmdStatus := fun heq => hcmd (by simp [heq])
    simp [roomAction, hs, hpc, hne, Follows, World.goto, World.call]
  | fanoutSend hs hpc hf | fanoutSkip hs hpc hf | fanoutEnd hs hpc hf =>
    cases hf <;>
      simp [roomAction, hs, hpc, Follows, World.goto, World.call, World.unlock]
  | accept hs hpc | acceptFail hs hpc | recvFirst hs hpc | recvFirstFail hs hpc | check hs hpc
  | spawn hs hpc | closeFirst hs hpc | recvActivity hs hpc | recvQuery hs hpc | recvLogout hs hpc
  | recvIgnored hs hpc | recvFail hs hpc | directUnlock hs hpc | resolve hs hpc | resolved hs hpc
  | close hs hpc | notify hs hpc | wake hs hpc | sweepStart hs hpc =>
    simp [roomAction, hs, hpc, Follows, World.emit, World.goto, World.call, World.lock,
      World.unlock, World.closeFd]
  | sweepEnd hs hpc hi =>
    simp [roomAction, hs, hpc, Nat.not_lt.mpr hi, Follows, World.goto, World.unlock]

/-- What a run did to the room, oldest action first. -/
def roomActions (tr : List (World × Label)) : List ChatAction :=
  tr.reverse.filterMap fun x => roomAction x.1 x.2

/-- A client's own thread touches, and removes, its own record. -/
theorem roomAction_own (hinv : Inv w) {c i : ℕ}
    (h : (∃ a now, roomAction w ⟨.client c, a⟩ = some (.touch i now)) ∨
      ∃ a, roomAction w ⟨.client c, a⟩ = some (.leave i)) :
    ∃ r, phase w.log c = .registered i r := by
  -- either way the slot was found by the descriptor the thread holds
  have key : ∀ {fd : ℤ}, (∃ i r, phase w.log c = .registered i r ∧ r.sockfd = fd) →
      clFindByFd w.table fd = some i → ∃ r, phase w.log c = .registered i r := by
    rintro fd ⟨j, r, hph, rfl⟩ hfind
    obtain rfl : j = i := Option.some.inj ((hinv.core.find_registered hph).symm.trans hfind)
    exact ⟨r, hph⟩
  rcases h with ⟨a, now, h⟩ | ⟨a, h⟩
  · rcases hpc : w.pc (.client c) <;> rcases a <;> simp [roomAction, hpc] at h
    exact key (hinv.expects hpc rfl) h.2.1
  · rcases hpc : w.pc (.client c) <;> rcases a <;> simp [roomAction, hpc] at h
    exact key (hinv.expects hpc rfl) h.2

/-- **The server refines the room**: every run, whatever its threads and its
clients do, replays as a sequence of room actions that leads from the empty
room to the room of the table. -/
theorem room_of_run {tr : List (World × Label)} (h : Run step World.init tr w) :
    exec (Room.step chatRules) [] (roomActions tr) = some w.table.room :=
  h.simulate (f := fun w => w.table.room) (I := Inv) .init (fun _ _ _ hI hs => hI.step hs)
    fun _ _ _ hI hs => (move_of_step hs).follows hI

/-! ### What the server answers -/

/-- Every answer that reads the table is the same for the two. -/
structure SameAnswers (t₁ t₂ : Table) : Prop where
  find : ∀ name, clFindByName t₁ name = clFindByName t₂ name
  add : ∀ username ip fd₁ fd₂ now₁ now₂,
    (clAdd t₁ username ip fd₁ now₁).1 = (clAdd t₂ username ip fd₂ now₂).1
  list : ∀ pkt, handleList t₁ pkt = handleList t₂ pkt
  info : ∀ pkt, handleInfo t₁ pkt = handleInfo t₂ pkt
  status : ∀ pkt, (handleStatus t₁ pkt).2 = (handleStatus t₂ pkt).2

/-- The list is made from the guests. -/
theorem buildLoop_of_guests (buflen : ℕ) {rs₁ rs₂ : List Cliente}
    (h : rs₁.map Cliente.guest = rs₂.map Cliente.guest) (buf : List UInt8) (offset : ℕ) :
    buildLoop buflen rs₁ buf offset = buildLoop buflen rs₂ buf offset := by
  induction rs₁ generalizing rs₂ buf offset with
  | nil =>
    obtain rfl : rs₂ = [] := by simpa using h.symm
    rfl
  | cons r₁ rs₁ ih =>
    rcases rs₂ with - | ⟨r₂, rs₂⟩
    · simp at h
    obtain ⟨hguest, hrest⟩ := List.cons.inj h
    have hact : r₁.activo = r₂.activo := by
      have := congrArg Option.isNone hguest
      simpa [isNone_guest] using this
    simp only [buildLoop, hact]
    rcases hon : r₂.activo with - | -
    · simpa using ih hrest buf offset
    · -- an active record is listed by its name and status
      rw [guest_of_activo (hact.trans hon), guest_of_activo hon] at hguest
      obtain ⟨hname, -, hstatus, -⟩ := Room.Guest.mk.inj (Option.some.inj hguest)
      have hpiece : listPiece offset r₁ = listPiece offset r₂ := by
        rw [listPiece, listPiece, hname, hstatus]
      simp only [hpiece, Bool.not_true, Bool.false_eq_true, if_false]
      split
      · rfl
      · exact ih hrest _ _

/-- **The answers depend on the room alone.** -/
theorem answers_of_room {t₁ t₂ : Table} (h₁ : t₁.Ok) (h₂ : t₂.Ok) (hroom : t₁.room = t₂.room) :
    SameAnswers t₁ t₂ := by
  have hfind : ∀ name, clFindByName t₁ name = clFindByName t₂ name := fun name => by
    rw [← seatOf_room, ← seatOf_room, hroom]
  have hnum : t₁.numClientes = t₂.numClientes := by
    rw [← length_room h₁, ← length_room h₂, hroom]
  refine ⟨hfind, fun username ip fd₁ fd₂ now₁ now₂ => ?_, fun pkt => ?_, fun pkt => ?_,
    fun pkt => ?_⟩
  · have hdup : duplicate t₁ username ip = duplicate t₂ username ip := by
      rw [← taken_room, ← taken_room, hroom]
    have hfree : freeSlot t₁ = freeSlot t₂ := by
      rw [← findIdx?_isNone_room, ← findIdx?_isNone_room, hroom]
    simp only [clAdd, hnum, hdup, hfree]
    split
    · rfl
    split
    · rfl
    split <;> rfl
  · have hlist : clBuildList t₁ (CharArray.zero 957).bytes 957
        = clBuildList t₂ (CharArray.zero 957).bytes 957 := buildLoop_of_guests 957 hroom _ _
    simp only [handleList, hlist]
  · have hinfo : clGetInfo t₁ pkt.targetPtr 128 = clGetInfo t₂ pkt.targetPtr 128 := by
      unfold clGetInfo
      rw [hfind]
      rcases hi : clFindByName t₂ pkt.targetPtr with - | i
      · rfl
      obtain ⟨-, r₁, hr₁, -⟩ := clFindByName_eq_some ((hfind _).trans hi)
      obtain ⟨-, r₂, hr₂, -⟩ := clFindByName_eq_some hi
      have hguest := room_getElem? hr₁ h₁
      rw [hroom, room_getElem? hr₂ h₂] at hguest
      obtain ⟨-, hip, hstatus, -⟩ :=
        Room.Guest.mk.inj (Option.some.inj (Option.some.inj hguest))
      simp only
      rw [hr₁.1, hr₂.1, Option.map_some, Option.map_some, hip, hstatus]
    simp only [handleInfo, hinfo]
  · have hcode : ∀ t : Table, (clSetStatus t pkt.senderPtr pkt.payloadPtr).1 =
        if (clFindByName t pkt.senderPtr).isSome then 0 else -1 := by
      intro t
      unfold clSetStatus
      rcases clFindByName t pkt.senderPtr with - | i <;> rfl
    simp only [handleStatus, hcode, hfind]

/-! ### Whole runs -/

variable {tr : List (World × Label)}

/-- Guests apart are records apart. -/
theorem active_apart {α : Type*}
    {f : Room.Guest (List UInt8) (List UInt8) (List UInt8) → α} (ht : t.Ok)
    (hap : Room.Apart f t.room) {i j : ℕ} {r s : Cliente} (hr : t.Active i r) (hs : t.Active j s)
    (heq : f ⟨r.username.str, r.ip.str, r.status.str, r.ultimoMensaje⟩ =
      f ⟨s.username.str, s.ip.str, s.status.str, s.ultimoMensaje⟩) : i = j :=
  hap i j _ _ (room_getElem? hr ht) (room_getElem? hs ht) heq

/-- **The server refines the room.**  Every run replays as a sequence of room
actions from the empty room to the room of the table; a client's own thread
touches and removes its own seat only; and so no two users on at once share an
address, or a name if every name accepted fits its field. -/
theorem room_refined (h : Run step World.init tr w) :
    exec (Room.step chatRules) [] (roomActions tr) = some w.table.room ∧
    (∀ x ∈ tr, ∀ c i a, x.2 = ⟨.client c, a⟩ →
      ((∃ now, roomAction x.1 x.2 = some (.touch i now)) ∨
        roomAction x.1 x.2 = some (.leave i)) → ∃ r, phase x.1.log c = .registered i r) ∧
    w.table.IpsDistinct ∧
    ((∀ offered addr now, .join offered addr now ∈ roomActions tr → offered.length ≤ 31) →
      w.table.NamesDistinct) := by
  have hroom := room_of_run h
  have hok := (inv_of_reachable ⟨tr, h⟩).core.ok
  refine ⟨hroom, fun x hx c i a hl hact => ?_, fun i j r s hr hs heq => ?_,
    fun hshort i j r s hr hs heq => ?_⟩
  · obtain ⟨newer, older, rfl⟩ := List.append_of_mem hx
    have hinv := inv_of_reachable ⟨older, Run.before (s := x.1) (l := x.2) h⟩
    rw [hl] at hact
    rcases hact with ⟨now, hact⟩ | hact
    · exact roomAction_own hinv (.inl ⟨a, now, hact⟩)
    · exact roomAction_own hinv (.inr ⟨a, hact⟩)
  · exact active_apart hok (Room.addrs_apart_of_exec hroom) hr hs heq
  · refine active_apart hok (Room.names_apart_of_exec ?_ hroom) hr hs heq
    exact fun offered addr now hjoin => List.take_of_length_le (hshort offered addr now hjoin)

/-- **Two runs that did the same to the room answer alike**, however their
threads interleaved, whatever descriptors they were given, and whether or not
what they sent arrived. -/
theorem sameAnswers_of_actions {tr' : List (World × Label)} (h : Run step World.init tr w)
    (h' : Run step World.init tr' w') (hacts : roomActions tr = roomActions tr') :
    SameAnswers w.table w'.table := by
  have hroom := room_of_run h
  rw [hacts, room_of_run h'] at hroom
  exact answers_of_room (inv_of_reachable ⟨tr, h⟩).core.ok (inv_of_reachable ⟨tr', h'⟩).core.ok
    (Option.some.inj hroom).symm

/-! ### Two ways to come in -/

/-- Bob's `STATUS`. -/
def bobBusy : ChatPacket := clientPacket cmdStatus bob [] statusOcupado

/-- Alice and bob come in at once, everything is sent whole, and bob sets his
status. -/
def smooth : List Label :=
  joining 4 (ip 1) (registerPacket alice) ++ joining 5 (ip 2) (registerPacket bob) ++
    [⟨.client 1, .packet bobBusy⟩, ⟨.client 1, .clock 50⟩, ⟨.client 1, .go⟩, sends 1]

/-- Alice comes in behind a connection that says nothing, the monitor awake, and
her reply is cut in two and then fails; bob's status is set, and he is not
told. -/
def bumpy : List Label :=
  [⟨.main, .conn 4 (ip 2)⟩, ⟨.main, .fail⟩, ⟨.monitor, .clock 9⟩, ⟨.main, .go⟩] ++
    registering 7 (ip 1) (registerPacket alice) ++ [⟨.main, .wrote 5⟩, ⟨.main, .fail⟩,
      ⟨.monitor, .go⟩, ⟨.monitor, .go⟩, ⟨.monitor, .go⟩, ⟨.main, .go⟩, ⟨.main, .go⟩] ++
    joining 9 (ip 2) (registerPacket bob) ++
    [⟨.client 2, .packet bobBusy⟩, ⟨.client 2, .clock 50⟩, ⟨.client 2, .go⟩, ⟨.client 2, .fail⟩]

/-- What both do to the room. -/
def twoGuests : List ChatAction :=
  [.join alice (ip 1) 0, .join bob (ip 2) 0, .touch 1 50, .setStatus bob statusOcupado]

theorem replay_smooth : (replay step World.init [] smooth).any (fun x =>
    roomActions x.1 == twoGuests && (x.2.table.at 1).sockfd == 5) = true := by
  decide +kernel

theorem replay_bumpy : (replay step World.init [] bumpy).any (fun x =>
    roomActions x.1 == twoGuests && (x.2.table.at 1).sockfd == 9) = true := by
  decide +kernel

theorem room_refined_twoGuests : ∃ tr w, Run step World.init tr w ∧ roomActions tr = twoGuests ∧
    exec (Room.step chatRules) [] twoGuests = some w.table.room ∧ w.table.IpsDistinct ∧
    w.table.NamesDistinct := by
  obtain ⟨tr, w, hrun, hp⟩ := exists_run_of_replay replay_bumpy
  simp only [Bool.and_eq_true, beq_iff_eq] at hp
  obtain ⟨hroom, -, hips, hnames⟩ := room_refined hrun
  rw [hp.1] at hroom hnames
  refine ⟨tr, w, hrun, hp.1, hroom, hips, hnames fun offered addr now hjoin => ?_⟩
  simp only [twoGuests, List.mem_cons, Room.Action.join.injEq, reduceCtorEq, List.not_mem_nil,
    or_false] at hjoin
  rcases hjoin with ⟨rfl, -⟩ | ⟨rfl, -⟩ <;> decide

theorem sameAnswers_of_actions_twoGuests : ∃ tr w tr' w', Run step World.init tr w ∧
    Run step World.init tr' w' ∧ (w.table.at 1).sockfd ≠ (w'.table.at 1).sockfd ∧
    SameAnswers w.table w'.table := by
  obtain ⟨tr, w, hrun, hp⟩ := exists_run_of_replay replay_smooth
  obtain ⟨tr', w', hrun', hp'⟩ := exists_run_of_replay replay_bumpy
  simp only [Bool.and_eq_true, beq_iff_eq] at hp hp'
  refine ⟨tr, w, tr', w', hrun, hrun', ?_,
    sameAnswers_of_actions hrun hrun' (hp.1.trans hp'.1.symm)⟩
  rw [hp.2, hp'.2]
  decide

end ChatSystem
