/-
ChatSystem/Moves.lean

The steps of the server as a list of rules.  `Move w l w'` has one
constructor for each thing a thread can do, with the guard it is done under
and the state it leaves; `move_of_step` says that `step` does nothing else.
Invariants are proved by cases on `Move` and never unfold `step`.

The loops of `handle_broadcast` and `notify_disconnect` are one loop
(`FanoutAt`), and so are their rules.
-/
import ChatSystem.Server
import ChatSystem.TableSpec

namespace ChatSystem

open CStr

/-- The program point `p` is iteration `i` of a loop that sends `msg` to
every active client; `next` is the following iteration and `done` the point
after the loop. -/
inductive FanoutAt : Pc → ℕ → ChatPacket → (ℕ → Site) → Pc → Pc → Prop
  | broadcasting (fd : ℤ) (pkt : ChatPacket) (i : ℕ) :
      FanoutAt (.broadcasting fd pkt i) i (handleBroadcast pkt) (.broadcast pkt)
        (.broadcasting fd pkt (i + 1)) (.recv fd)
  | notifying (username : CharArray 32) (i : ℕ) :
      FanoutAt (.notifying username i) i (notifyDisconnect username.bytes)
        (.departure username.str) (.notifying username (i + 1)) .exited

/-- The rules of the server. -/
inductive Move (w : World) : Label → World → Prop
  -- `send()`
  | wrote {t s c n} (hs : w.sending t = some s) (hc : w.descr s.fd = some c)
      (hn : 0 < n) (hle : s.total + n ≤ 1024) :
      Move w ⟨t, .wrote n⟩ ({ w with
        wire := Function.update w.wire c
          (w.wire c ++ (s.pkt.toBytes.drop s.total).take n)
        sending := Function.update w.sending t
          (if s.total + n < 1024 then some { s with total := s.total + n } else none)
        }.emit (.send t s (some c) (some n) w.sections))
  | sendFail {t s} (hs : w.sending t = some s) :
      Move w ⟨t, .fail⟩ ({ w with sending := Function.update w.sending t none }.emit
        (.send t s (w.descr s.fd) none w.sections))
  -- `main`
  | accept {fd ip} (hs : w.sending .main = none) (hpc : w.pc .main = .accept)
      (hfd : w.descr fd = none) (hip : ip.length ≤ 15) (h0 : (0 : UInt8) ∉ ip) :
      Move w ⟨.main, .conn fd ip⟩ (({ w with
        descr := Function.update w.descr fd (some w.nextConn)
        nextConn := w.nextConn + 1 }.goto .main (.recvFirst w.nextConn fd ip)).emit
          (.accepted w.nextConn fd ip))
  | acceptFail (hs : w.sending .main = none) (hpc : w.pc .main = .accept) :
      Move w ⟨.main, .fail⟩ w
  | recvFirst {c fd ip pkt} (hs : w.sending .main = none)
      (hpc : w.pc .main = .recvFirst c fd ip) :
      Move w ⟨.main, .packet pkt⟩ ((w.goto .main
        (if pkt.command = cmdRegister then .register c fd ip pkt else .closeFirst c fd)).emit
          (.received .main fd (w.descr fd) pkt))
  | recvFirstFail {c fd ip} (hs : w.sending .main = none)
      (hpc : w.pc .main = .recvFirst c fd ip) :
      Move w ⟨.main, .fail⟩
        ((w.goto .main (.closeFirst c fd)).emit (.recvFailed .main fd (w.descr fd)))
  | add {c fd ip pkt now} (hs : w.sending .main = none)
      (hpc : w.pc .main = .register c fd ip pkt) (hm : w.mutexLista = none)
      (hnum : w.table.numClientes < maxClients)
      (hdup : duplicate w.table pkt.senderPtr ip = false) :
      Move w ⟨.main, .clock now⟩ ((((w.setTable
        (added w.table (newCliente pkt.senderPtr ip fd now))).goto .main (.check c fd)).call
          .main fd (registerReply 0 pkt) (.register 0)).emit
            (.registered c (addSlot w.table) (newCliente pkt.senderPtr ip fd now)))
  | refuse {c fd ip pkt now rc} (hs : w.sending .main = none)
      (hpc : w.pc .main = .register c fd ip pkt) (hm : w.mutexLista = none)
      (hrc : clAdd w.table pkt.senderPtr ip fd now = (rc, w.table)) (h0 : rc ≠ 0) :
      Move w ⟨.main, .clock now⟩ (((w.goto .main (.check c fd)).call .main fd
        (registerReply rc pkt) (.register rc)).emit (.rejected c rc))
  | check {c fd} (hs : w.sending .main = none) (hpc : w.pc .main = .check c fd)
      (hm : w.mutexLista = none) :
      Move w ⟨.main, .go⟩ ((w.goto .main
        (if (clFindByFd w.table fd).isSome then .spawn c fd else .closeFirst c fd)).emit
          (.checked c (clFindByFd w.table fd).isSome))
  | spawn {c fd} (hs : w.sending .main = none) (hpc : w.pc .main = .spawn c fd) :
      Move w ⟨.main, .go⟩ ((w.goto (.client c) (.recv fd)).goto .main .accept)
  | closeFirst {c fd} (hs : w.sending .main = none) (hpc : w.pc .main = .closeFirst c fd) :
      Move w ⟨.main, .go⟩ ((w.closeFd c fd).goto .main .accept)
  -- `client_thread`
  | recvActivity {c fd pkt} (hs : w.sending (.client c) = none)
      (hpc : w.pc (.client c) = .recv fd)
      (hcmd : pkt.command = cmdBroadcast ∨ pkt.command = cmdDirect ∨ pkt.command = cmdStatus) :
      Move w ⟨.client c, .packet pkt⟩ ((w.goto (.client c) (.touch fd pkt)).emit
        (.received (.client c) fd (w.descr fd) pkt))
  | recvQuery {c fd pkt} (hs : w.sending (.client c) = none)
      (hpc : w.pc (.client c) = .recv fd)
      (hcmd : pkt.command = cmdList ∨ pkt.command = cmdInfo) :
      Move w ⟨.client c, .packet pkt⟩ ((w.goto (.client c) (.handle fd pkt)).emit
        (.received (.client c) fd (w.descr fd) pkt))
  | recvLogout {c fd pkt} (hs : w.sending (.client c) = none)
      (hpc : w.pc (.client c) = .recv fd) (hcmd : pkt.command = cmdLogout) :
      Move w ⟨.client c, .packet pkt⟩ (((w.goto (.client c) (.resolve fd
        ((CharArray.zero 32).strncpy pkt.senderPtr 31 name_limit))).call (.client c) fd
          (handleLogout pkt) (.reply pkt)).emit (.received (.client c) fd (w.descr fd) pkt))
  | recvIgnored {c fd pkt} (hs : w.sending (.client c) = none)
      (hpc : w.pc (.client c) = .recv fd)
      (hcmd : pkt.command ∉
        [cmdBroadcast, cmdDirect, cmdStatus, cmdList, cmdInfo, cmdLogout]) :
      Move w ⟨.client c, .packet pkt⟩ (w.emit (.received (.client c) fd (w.descr fd) pkt))
  | recvFail {c fd} (hs : w.sending (.client c) = none) (hpc : w.pc (.client c) = .recv fd) :
      Move w ⟨.client c, .fail⟩ ((w.goto (.client c) (.resolve fd (.zero 32))).emit
        (.recvFailed (.client c) fd (w.descr fd)))
  | touch {c fd pkt now} (hs : w.sending (.client c) = none)
      (hpc : w.pc (.client c) = .touch fd pkt) (hm : w.mutexLista = none)
      (hre : (clTouch w.table fd now).1 = false) :
      Move w ⟨.client c, .clock now⟩
        ((w.setTable (clTouch w.table fd now).2).goto (.client c) (.handle fd pkt))
  | reactivate {c fd pkt now} (hs : w.sending (.client c) = none)
      (hpc : w.pc (.client c) = .touch fd pkt) (hm : w.mutexLista = none)
      (hre : (clTouch w.table fd now).1 = true) :
      Move w ⟨.client c, .clock now⟩
        (((w.setTable (clTouch w.table fd now).2).goto (.client c) (.handle fd pkt)).call
          (.client c) fd reactivationNotice .reactivation)
  | broadcast {c fd pkt} (hs : w.sending (.client c) = none)
      (hpc : w.pc (.client c) = .handle fd pkt) (hm : w.mutexLista = none)
      (hcmd : pkt.command = cmdBroadcast) :
      Move w ⟨.client c, .go⟩ ((w.lock (.client c) (.broadcast pkt)).goto (.client c)
        (.broadcasting fd pkt 0))
  | direct {c fd pkt i r} (hs : w.sending (.client c) = none)
      (hpc : w.pc (.client c) = .handle fd pkt) (hm : w.mutexLista = none)
      (hcmd : pkt.command = cmdDirect)
      (hfind : clFindByName w.table pkt.targetPtr = some i) (hr : w.table.at i = r) :
      Move w ⟨.client c, .go⟩ (((w.lock (.client c) (.direct pkt)).goto (.client c)
        (.directUnlock fd)).call (.client c) r.sockfd (handleDirect pkt) (.direct pkt i))
  | directMissing {c fd pkt} (hs : w.sending (.client c) = none)
      (hpc : w.pc (.client c) = .handle fd pkt) (hm : w.mutexLista = none)
      (hcmd : pkt.command = cmdDirect)
      (hfind : clFindByName w.table pkt.targetPtr = none) :
      Move w ⟨.client c, .go⟩ ((w.goto (.client c) (.recv fd)).call (.client c) fd
        (directError pkt) (.reply pkt))
  | status {c fd pkt} (hs : w.sending (.client c) = none)
      (hpc : w.pc (.client c) = .handle fd pkt) (hm : w.mutexLista = none)
      (hcmd : pkt.command = cmdStatus) :
      Move w ⟨.client c, .go⟩ (((w.setTable (handleStatus w.table pkt).1).goto (.client c)
        (.recv fd)).call (.client c) fd (handleStatus w.table pkt).2 (.reply pkt))
  | list {c fd pkt} (hs : w.sending (.client c) = none)
      (hpc : w.pc (.client c) = .handle fd pkt) (hm : w.mutexLista = none)
      (hcmd : pkt.command = cmdList) :
      Move w ⟨.client c, .go⟩ ((w.goto (.client c) (.recv fd)).call (.client c) fd
        (handleList w.table pkt) (.reply pkt))
  | info {c fd pkt} (hs : w.sending (.client c) = none)
      (hpc : w.pc (.client c) = .handle fd pkt) (hm : w.mutexLista = none)
      (hcmd : pkt.command ∉ [cmdBroadcast, cmdDirect, cmdStatus, cmdList]) :
      Move w ⟨.client c, .go⟩ ((w.goto (.client c) (.recv fd)).call (.client c) fd
        (handleInfo w.table pkt) (.reply pkt))
  | fanoutSend {c p i msg site next done} (hs : w.sending (.client c) = none)
      (hpc : w.pc (.client c) = p) (hf : FanoutAt p i msg site next done)
      (hi : i < w.table.numClientes) (hact : (w.table.at i).activo = true) :
      Move w ⟨.client c, .go⟩ ((w.goto (.client c) next).call (.client c)
        (w.table.at i).sockfd msg (site i))
  | fanoutSkip {c p i msg site next done} (hs : w.sending (.client c) = none)
      (hpc : w.pc (.client c) = p) (hf : FanoutAt p i msg site next done)
      (hi : i < w.table.numClientes) (hact : (w.table.at i).activo = false) :
      Move w ⟨.client c, .go⟩ (w.goto (.client c) next)
  | fanoutEnd {c p i msg site next done} (hs : w.sending (.client c) = none)
      (hpc : w.pc (.client c) = p) (hf : FanoutAt p i msg site next done)
      (hi : w.table.numClientes ≤ i) :
      Move w ⟨.client c, .go⟩ ((w.unlock (.client c)).goto (.client c) done)
  | directUnlock {c fd} (hs : w.sending (.client c) = none)
      (hpc : w.pc (.client c) = .directUnlock fd) :
      Move w ⟨.client c, .go⟩ ((w.unlock (.client c)).goto (.client c) (.recv fd))
  | resolve {c fd username} (hs : w.sending (.client c) = none)
      (hpc : w.pc (.client c) = .resolve fd username) (hname : username.str = [])
      (hm : w.mutexLista = none) :
      Move w ⟨.client c, .go⟩
        (w.goto (.client c) (.remove fd (resolveName w.table fd username)))
  | resolved {c fd username} (hs : w.sending (.client c) = none)
      (hpc : w.pc (.client c) = .resolve fd username) (hname : username.str ≠ []) :
      Move w ⟨.client c, .go⟩ (w.goto (.client c) (.remove fd username))
  | remove {c fd username} (hs : w.sending (.client c) = none)
      (hpc : w.pc (.client c) = .remove fd username) (hm : w.mutexLista = none) :
      Move w ⟨.client c, .go⟩ (((w.setTable (clRemove w.table fd).2).goto (.client c)
        (.close fd username)).emit (.removed c))
  | close {c fd username} (hs : w.sending (.client c) = none)
      (hpc : w.pc (.client c) = .close fd username) :
      Move w ⟨.client c, .go⟩ ((w.closeFd c fd).goto (.client c)
        (if username.str = [] then .exited else .notify username))
  | notify {c username} (hs : w.sending (.client c) = none)
      (hpc : w.pc (.client c) = .notify username) (hm : w.mutexLista = none) :
      Move w ⟨.client c, .go⟩ ((w.lock (.client c) (.departure username.str)).goto
        (.client c) (.notifying username 0))
  -- `inactivity_thread`
  | wake {now} (hs : w.sending .monitor = none) (hpc : w.pc .monitor = .sleep) :
      Move w ⟨.monitor, .clock now⟩ (w.goto .monitor (.awake now))
  | sweepStart {now} (hs : w.sending .monitor = none) (hpc : w.pc .monitor = .awake now)
      (hm : w.mutexLista = none) :
      Move w ⟨.monitor, .go⟩ ((w.lock .monitor (.sweep now)).goto .monitor (.sweep now 0))
  | sweepMark {now i} (hs : w.sending .monitor = none) (hpc : w.pc .monitor = .sweep now i)
      (hi : i < w.table.numClientes) (hidle : idle now (w.table.at i) = true) :
      Move w ⟨.monitor, .go⟩ (((w.setTable (sweepSlot now w.table i)).goto .monitor
        (.sweep now (i + 1))).call .monitor (w.table.at i).sockfd
          (inactivityNotice (w.table.at i).username.bytes) (.inactivity i))
  | sweepSkip {now i} (hs : w.sending .monitor = none) (hpc : w.pc .monitor = .sweep now i)
      (hi : i < w.table.numClientes) (hidle : idle now (w.table.at i) = false) :
      Move w ⟨.monitor, .go⟩ ((w.setTable (sweepSlot now w.table i)).goto .monitor
        (.sweep now (i + 1)))
  | sweepEnd {now i} (hs : w.sending .monitor = none) (hpc : w.pc .monitor = .sweep now i)
      (hi : w.table.numClientes ≤ i) :
      Move w ⟨.monitor, .go⟩ ((w.unlock .monitor).goto .monitor .sleep)

variable {w w' : World}

/-! ### `step` makes only these moves -/

theorem move_of_sendStep {t : Tid} {s : Sending} {a : Answer} (hs : w.sending t = some s)
    (h : sendStep w t s a = some w') : Move w ⟨t, a⟩ w' := by
  cases a with
  | wrote n =>
    simp only [sendStep] at h
    rcases hc : w.descr s.fd with - | c
    · simp [hc] at h
    · rw [hc] at h
      by_cases hn : 0 < n ∧ s.total + n ≤ 1024
      · obtain rfl := Option.some.inj ((if_pos hn).symm.trans h)
        exact .wrote hs hc hn.1 hn.2
      · cases (if_neg hn).symm.trans h
  | fail =>
    obtain rfl := Option.some.inj h
    exact .sendFail hs
  | go => cases h
  | clock now => cases h
  | conn fd ip => cases h
  | packet pkt => cases h

theorem move_of_register {c : ℕ} {fd : ℤ} {ip : List UInt8} {pkt : ChatPacket} {now : ℤ}
    (hs : w.sending .main = none) (hpc : w.pc .main = .register c fd ip pkt)
    (h : mainStep w (.clock now) = some w') : Move w ⟨.main, .clock now⟩ w' := by
  simp only [mainStep, hpc] at h
  by_cases hm : w.mutexLista = none
  · rw [if_pos hm] at h
    obtain rfl := Option.some.inj h
    rcases clAdd_cases w.table pkt.senderPtr ip fd now with
      ⟨hres, hnum⟩ | ⟨hres, hnum, hdup⟩ | ⟨hres, hnum, hdup⟩
    · simp only [hres]
      exact .refuse hs hpc hm hres (by decide)
    · simp only [hres]
      exact .refuse hs hpc hm hres (by decide)
    · simp only [hres]
      exact .add hs hpc hm hnum hdup
  · cases (if_neg hm).symm.trans h

theorem move_of_mainStep {a : Answer} (hs : w.sending .main = none)
    (h : mainStep w a = some w') : Move w ⟨.main, a⟩ w' := by
  unfold mainStep at h
  split at h
  case h_1 fd ip hpc =>
    -- the kernel hands out a free descriptor and a dotted address
    by_cases hg : w.descr fd = none ∧ 0 ≤ fd ∧ ip.length ≤ 15 ∧ (0 : UInt8) ∉ ip
    · obtain rfl := Option.some.inj ((if_pos hg).symm.trans h)
      exact .accept hs hpc hg.1 hg.2.2.1 hg.2.2.2
    · cases (if_neg hg).symm.trans h
  case h_2 hpc =>
    obtain rfl := Option.some.inj h
    exact .acceptFail hs hpc
  case h_3 c fd ip pkt hpc =>
    obtain rfl := Option.some.inj h
    exact .recvFirst hs hpc
  case h_4 c fd ip hpc =>
    obtain rfl := Option.some.inj h
    exact .recvFirstFail hs hpc
  case h_5 c fd ip pkt now hpc =>
    exact move_of_register hs hpc (by simpa only [mainStep, hpc] using h)
  case h_6 c fd hpc =>
    -- `main` looks for the record under the mutex
    by_cases hm : w.mutexLista = none
    · obtain rfl := Option.some.inj ((if_pos hm).symm.trans h)
      exact .check hs hpc hm
    · cases (if_neg hm).symm.trans h
  case h_7 c fd hpc =>
    obtain rfl := Option.some.inj h
    exact .spawn hs hpc
  case h_8 c fd hpc =>
    obtain rfl := Option.some.inj h
    exact .closeFirst hs hpc
  case h_9 => cases h

theorem move_of_dispatch {c : ℕ} {fd : ℤ} {pkt : ChatPacket}
    (hs : w.sending (.client c) = none) (hpc : w.pc (.client c) = .recv fd) :
    Move w ⟨.client c, .packet pkt⟩
      ((dispatch w c fd pkt).emit (.received (.client c) fd (w.descr fd) pkt)) := by
  unfold dispatch
  by_cases hact : pkt.command = cmdBroadcast ∨ pkt.command = cmdDirect ∨
      pkt.command = cmdStatus
  · rw [if_pos hact]
    exact .recvActivity hs hpc hact
  rw [if_neg hact]
  by_cases hquery : pkt.command = cmdList ∨ pkt.command = cmdInfo
  · rw [if_pos hquery]
    exact .recvQuery hs hpc hquery
  rw [if_neg hquery]
  by_cases hout : pkt.command = cmdLogout
  · rw [if_pos hout]
    exact .recvLogout hs hpc hout
  · rw [if_neg hout]
    refine .recvIgnored hs hpc ?_
    simp only [List.mem_cons, List.not_mem_nil, or_false]
    tauto

theorem move_of_handle {c : ℕ} {fd : ℤ} {pkt : ChatPacket}
    (hs : w.sending (.client c) = none) (hpc : w.pc (.client c) = .handle fd pkt)
    (hm : w.mutexLista = none) :
    Move w ⟨.client c, .go⟩ (handle w c fd pkt) := by
  unfold handle
  by_cases hb : pkt.command = cmdBroadcast
  · rw [if_pos hb]
    exact .broadcast hs hpc hm hb
  rw [if_neg hb]
  by_cases hd : pkt.command = cmdDirect
  · rw [if_pos hd]
    rcases hfind : clFindByName w.table pkt.targetPtr with - | i
    · exact .directMissing hs hpc hm hd hfind
    · exact .direct hs hpc hm hd hfind rfl
  rw [if_neg hd]
  by_cases hst : pkt.command = cmdStatus
  · rw [if_pos hst]
    exact .status hs hpc hm hst
  rw [if_neg hst]
  by_cases hl : pkt.command = cmdList
  · rw [if_pos hl]
    exact .list hs hpc hm hl
  · rw [if_neg hl]
    refine .info hs hpc hm ?_
    simp [hb, hd, hst, hl]

theorem move_of_fanoutStep {c : ℕ} {p : Pc} {i : ℕ} {msg : ChatPacket} {site : ℕ → Site}
    {next done : Pc} (hs : w.sending (.client c) = none) (hpc : w.pc (.client c) = p)
    (hf : FanoutAt p i msg site next done) :
    Move w ⟨.client c, .go⟩ (fanoutStep w (.client c) i msg site next done) := by
  unfold fanoutStep
  by_cases hi : i < w.table.numClientes
  · rw [if_pos hi]
    rcases hact : (w.table.at i).activo with - | -
    · exact .fanoutSkip hs hpc hf hi hact
    · exact .fanoutSend hs hpc hf hi hact
  · rw [if_neg hi]
    exact .fanoutEnd hs hpc hf (Nat.le_of_not_lt hi)

theorem move_of_clientStep {c : ℕ} {a : Answer} (hs : w.sending (.client c) = none)
    (h : clientStep w c a = some w') : Move w ⟨.client c, a⟩ w' := by
  unfold clientStep at h
  dsimp only at h
  split at h
  case h_1 fd pkt hpc =>
    obtain rfl := Option.some.inj h
    exact move_of_dispatch hs hpc
  case h_2 fd hpc =>
    obtain rfl := Option.some.inj h
    exact .recvFail hs hpc
  case h_3 fd pkt now hpc =>
    by_cases hm : w.mutexLista = none
    · obtain rfl := Option.some.inj ((if_pos hm).symm.trans h)
      rcases hre : (clTouch w.table fd now).1 with - | -
      · exact .touch hs hpc hm hre
      · exact .reactivate hs hpc hm hre
    · cases (if_neg hm).symm.trans h
  case h_4 fd pkt hpc =>
    by_cases hm : w.mutexLista = none
    · obtain rfl := Option.some.inj ((if_pos hm).symm.trans h)
      exact move_of_handle hs hpc hm
    · cases (if_neg hm).symm.trans h
  case h_5 fd pkt i hpc =>
    obtain rfl := Option.some.inj h
    exact move_of_fanoutStep hs hpc (.broadcasting fd pkt i)
  case h_6 fd hpc =>
    obtain rfl := Option.some.inj h
    exact .directUnlock hs hpc
  case h_7 fd username hpc =>
    by_cases hname : username.str = []
    · rw [if_pos hname] at h
      by_cases hm : w.mutexLista = none
      · obtain rfl := Option.some.inj ((if_pos hm).symm.trans h)
        exact .resolve hs hpc hname hm
      · cases (if_neg hm).symm.trans h
    · obtain rfl := Option.some.inj ((if_neg hname).symm.trans h)
      exact .resolved hs hpc hname
  case h_8 fd username hpc =>
    by_cases hm : w.mutexLista = none
    · obtain rfl := Option.some.inj ((if_pos hm).symm.trans h)
      exact .remove hs hpc hm
    · cases (if_neg hm).symm.trans h
  case h_9 fd username hpc =>
    obtain rfl := Option.some.inj h
    exact .close hs hpc
  case h_10 username hpc =>
    by_cases hm : w.mutexLista = none
    · obtain rfl := Option.some.inj ((if_pos hm).symm.trans h)
      exact .notify hs hpc hm
    · cases (if_neg hm).symm.trans h
  case h_11 username i hpc =>
    obtain rfl := Option.some.inj h
    exact move_of_fanoutStep hs hpc (.notifying username i)
  case h_12 => cases h

theorem move_of_monitorStep {a : Answer} (hs : w.sending .monitor = none)
    (h : monitorStep w a = some w') : Move w ⟨.monitor, a⟩ w' := by
  unfold monitorStep at h
  dsimp only at h
  split at h
  case h_1 now hpc =>
    obtain rfl := Option.some.inj h
    exact .wake hs hpc
  case h_2 now hpc =>
    by_cases hm : w.mutexLista = none
    · obtain rfl := Option.some.inj ((if_pos hm).symm.trans h)
      exact .sweepStart hs hpc hm
    · cases (if_neg hm).symm.trans h
  case h_3 now i hpc =>
    by_cases hi : i < w.table.numClientes
    · obtain rfl := Option.some.inj ((if_pos hi).symm.trans h)
      rcases hidle : idle now (w.table.at i) with - | -
      · exact .sweepSkip hs hpc hi hidle
      · exact .sweepMark hs hpc hi hidle
    · obtain rfl := Option.some.inj ((if_neg hi).symm.trans h)
      exact .sweepEnd hs hpc (Nat.le_of_not_lt hi)
  case h_4 => cases h

/-- **Every step of the server is one of the rules.** -/
theorem move_of_step {l : Label} (h : step w l = some w') : Move w l w' := by
  obtain ⟨t, a⟩ := l
  unfold step at h
  rcases hs : w.sending t with - | s
  · rw [hs] at h
    cases t with
    | main => exact move_of_mainStep hs h
    | monitor => exact move_of_monitorStep hs h
    | client c => exact move_of_clientStep hs h
  · rw [hs] at h
    exact move_of_sendStep hs h

end ChatSystem
