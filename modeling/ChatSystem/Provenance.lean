/-
ChatSystem/Provenance.lean

Where every packet the server sends comes from.  `Site.Makes` says what is
sent from each call of `send_packet`; `Attributed` adds on whose account: the
relays and the replies of a client's thread go back to the packet that thread
received last, and a departure notice announces the name of a LOGOUT packet
or, without one, the name the connection registered with (`Announced`).

`Provenance` is the invariant that every packet sent or about to be sent is
attributed; `Serving` is its part about the packets and names threads carry
in local variables.
-/
import ChatSystem.Effects

namespace ChatSystem

open CStr Lts

/-! ### What is sent from where -/

/-- The packets sent from a call of `send_packet`. -/
def Site.Makes : Site → ChatPacket → Prop
  | register rc, pkt => ∃ req, pkt = registerReply rc req
  | reactivation, pkt => pkt = reactivationNotice
  | reply req, pkt => pkt = handleLogout req ∨ pkt = directError req ∨
      ∃ t, pkt = (handleStatus t req).2 ∨ pkt = handleList t req ∨ pkt = handleInfo t req
  | broadcast req _, pkt => pkt = handleBroadcast req
  | direct req _, pkt => pkt = handleDirect req
  | departure name _, pkt =>
    ∃ username : CharArray 32, username.str = name ∧ pkt = notifyDisconnect username.bytes
  | inactivity _, pkt => ∃ username, pkt = inactivityNotice username

/-- The commands sent from a call of `send_packet`. -/
def Site.commands : Site → List UInt8
  | register _ => [cmdOk, cmdError]
  | reply _ => [cmdOk, cmdError, cmdUserList, cmdUserInfo]
  | broadcast _ _ | direct _ _ | reactivation | inactivity _ => [cmdMsg]
  | departure _ _ => [cmdDisconnected]

theorem Site.Makes.command_mem {site : Site} {pkt : ChatPacket} (h : site.Makes pkt) :
    pkt.command ∈ site.commands := by
  cases site with
  | register rc =>
    obtain ⟨req, rfl⟩ := h
    rw [command_registerReply]
    split <;> simp [commands]
  | reactivation => simp [commands, show pkt = _ from h, reactivationNotice]
  | reply req =>
    rcases h with rfl | rfl | ⟨t, rfl | rfl | rfl⟩
    · simp [commands, handleLogout, sendOk]
    · simp [commands, directError, sendError]
    · simp only [handleStatus]
      split <;> simp [commands, sendOk, sendError]
    · simp [commands, handleList, copyStrings]
    · simp only [handleInfo]
      split <;> simp [commands, sendError]
  | broadcast req i => simp [commands, show pkt = _ from h, handleBroadcast]
  | direct req i => simp [commands, show pkt = _ from h, handleDirect]
  | departure name i =>
    obtain ⟨username, -, rfl⟩ := h
    simp [commands, notifyDisconnect]
  | inactivity i =>
    obtain ⟨username, rfl⟩ := h
    simp [commands, inactivityNotice]

/-- The packet the thread of connection `c` received last. -/
def lastPacket : List Event → ℕ → Option ChatPacket
  | [], _ => none
  | .received (.client c') _ _ pkt :: h, c => if c' = c then some pkt else lastPacket h c
  | _ :: h, c => lastPacket h c

/-- The last packet of connection `c` is a LOGOUT that names its sender. -/
def LoggedOut (h : List Event) (c : ℕ) (pkt : ChatPacket) : Prop :=
  lastPacket h c = some pkt ∧ pkt.command = cmdLogout ∧ cstr pkt.senderPtr ≠ []

/-- The name the departure notice of connection `c` carries: the sender of its
LOGOUT, or else the name it registered with. -/
def Announced (h : List Event) (c : ℕ) (name : List UInt8) : Prop :=
  (∃ pkt, LoggedOut h c pkt ∧ name = (cstr pkt.senderPtr).take 31) ∨
  (∀ pkt, ¬ LoggedOut h c pkt) ∧ ∃ i r, Event.registered c i r ∈ h ∧ name = r.username.str

/-- The thread of connection `c` answers the packet it received last. -/
def OnBehalf (h : List Event) (t : Tid) (req : ChatPacket) (command : UInt8) : Prop :=
  ∃ c, t = .client c ∧ lastPacket h c = some req ∧ req.command = command

/-- The origin of a packet that thread `t` sends. -/
def Attributed (h : List Event) (t : Tid) (s : Sending) : Prop :=
  s.site.Makes s.pkt ∧
  match s.site with
  | .register _ => t = .main
  | .inactivity _ => t = .monitor
  | .reactivation => ∃ c, t = .client c
  | .reply req => OnBehalf h t req req.command
  | .broadcast req _ => OnBehalf h t req cmdBroadcast
  | .direct req _ => OnBehalf h t req cmdDirect
  | .departure name _ => ∃ c, t = .client c ∧ name ≠ [] ∧ Announced h c name

/-- What the thread of connection `c` carries in its local variables. -/
def Serving (h : List Event) (c : ℕ) : Pc → Prop
  | .notStarted => lastPacket h c = none
  | .recv _ | .directUnlock _ => ∀ pkt, lastPacket h c = some pkt → pkt.command ≠ cmdLogout
  | .touch _ pkt | .handle _ pkt => lastPacket h c = some pkt ∧ pkt.command ≠ cmdLogout
  | .broadcasting _ pkt _ => lastPacket h c = some pkt ∧ pkt.command = cmdBroadcast
  | .resolve _ username =>
    (username.str = [] → username = .zero 32 ∧ ∀ pkt, ¬ LoggedOut h c pkt) ∧
      (username.str ≠ [] → Announced h c username.str)
  | .remove _ username | .close _ username =>
    username.str ≠ [] → Announced h c username.str
  | .notify username | .notifying username _ =>
    username.str ≠ [] ∧ Announced h c username.str
  | _ => True

structure Provenance (w : World) : Prop where
  serving : ∀ c, Serving w.log c (w.pc (.client c))
  pending : ∀ t s, w.sending t = some s → Attributed w.log t s
  sent : Always (fun e h => ∀ t s peer written k,
    e = .send t s peer written k → Attributed h t s) w.log

/-! ### Later events -/

/-- Events that add to the past of connection `c` without changing the packet
its thread is busy with. -/
def Event.Quiet (c : ℕ) (e : Event) : Prop :=
  ∀ fd peer pkt, e ≠ .received (.client c) fd peer pkt

/-- Events of thread `t` other than a `send()`. -/
def Event.Own (t : Tid) : Event → Prop
  | received t' _ _ _ => t' = t
  | send .. => False
  | _ => True

variable {h : List Event} {e : Event} {c : ℕ} {t : Tid}

theorem Event.Own.quiet (he : e.Own t) (hc : t ≠ .client c) : e.Quiet c := by
  rintro fd peer pkt rfl
  exact hc he.symm

theorem lastPacket_cons (he : e.Quiet c) : lastPacket (e :: h) c = lastPacket h c := by
  cases e with
  | received t fd peer pkt =>
    cases t with
    | client c' =>
      have hne : c' ≠ c := by
        rintro rfl
        exact he fd peer pkt rfl
      simp [lastPacket, hne]
    | _ => rfl
  | _ => rfl

theorem loggedOut_cons (he : e.Quiet c) {pkt : ChatPacket} :
    LoggedOut (e :: h) c pkt ↔ LoggedOut h c pkt := by
  unfold LoggedOut
  rw [lastPacket_cons he]

theorem Announced.cons {name : List UInt8} (ha : Announced h c name) (he : e.Quiet c) :
    Announced (e :: h) c name := by
  rcases ha with ⟨pkt, hout, hname⟩ | ⟨hnot, i, r, hreg, hname⟩
  · exact .inl ⟨pkt, (loggedOut_cons he).mpr hout, hname⟩
  · exact .inr ⟨fun pkt => mt (loggedOut_cons he).mp (hnot pkt), i, r,
      List.mem_cons_of_mem _ hreg, hname⟩

theorem OnBehalf.cons {req : ChatPacket} {command : UInt8} (ho : OnBehalf h t req command)
    (he : ∀ c, t = .client c → e.Quiet c) : OnBehalf (e :: h) t req command := by
  obtain ⟨c, rfl, hlast, hcmd⟩ := ho
  exact ⟨c, rfl, (lastPacket_cons (he c rfl)).trans hlast, hcmd⟩

theorem Attributed.cons {s : Sending} (ha : Attributed h t s)
    (he : ∀ c, t = .client c → e.Quiet c) : Attributed (e :: h) t s := by
  obtain ⟨hmakes, hsite⟩ := ha
  refine ⟨hmakes, ?_⟩
  cases hs : s.site <;> simp only [hs] at hsite ⊢
  case register => exact hsite
  case inactivity => exact hsite
  case reactivation => exact hsite
  case reply => exact hsite.cons he
  case broadcast => exact hsite.cons he
  case direct => exact hsite.cons he
  case departure =>
    obtain ⟨c, ht, hname, hann⟩ := hsite
    exact ⟨c, ht, hname, hann.cons (he c ht)⟩

theorem Serving.cons {p : Pc} (hp : Serving h c p) (he : e.Quiet c) : Serving (e :: h) c p := by
  cases p with
  | resolve fd username =>
    refine ⟨fun hname => ?_, fun hname => (hp.2 hname).cons he⟩
    exact ⟨(hp.1 hname).1, fun pkt => mt (loggedOut_cons he).mp ((hp.1 hname).2 pkt)⟩
  | remove fd username | close fd username => exact fun hname => (hp hname).cons he
  | notify username | notifying username i => exact ⟨hp.1, hp.2.cons he⟩
  | notStarted | recv _ | directUnlock _ | touch _ _ | handle _ _ | broadcasting _ _ _ =>
    simp only [Serving] at hp ⊢
    rw [lastPacket_cons he]
    exact hp
  | _ => trivial

/-- A fan-out loop is on behalf of one packet or one name throughout. -/
theorem FanoutAt.serving {p : Pc} {i : ℕ} {msg : ChatPacket} {site : ℕ → Site} {next done : Pc}
    (hf : FanoutAt p i msg site next done) (hp : Serving h c p) :
    Serving h c next ∧ Serving h c done ∧
      ∀ fd j, Attributed h (.client c) ⟨fd, msg, 0, site j⟩ := by
  cases hf with
  | broadcasting fd pkt i =>
    refine ⟨hp, fun pkt' hlast => ?_, fun _ _ => ⟨rfl, c, rfl, hp⟩⟩
    obtain rfl : pkt = pkt' := Option.some.inj (hp.1.symm.trans hlast)
    rw [hp.2]
    decide
  | notifying username i =>
    exact ⟨hp, trivial, fun _ _ => ⟨⟨username, rfl, rfl⟩, c, rfl, hp⟩⟩

/-! ### One thread at a time -/

namespace Provenance

variable {w w' : World}

theorem init : Provenance World.init where
  serving := fun _ => rfl
  pending := by
    intro t s hs
    cases hs
  sent := trivial

/-- Thread `t` takes a step: the other threads' variables and packets keep
their origin. -/
theorem next (hw : Provenance w) {p : Pc} {o : Option Sending}
    (hpc : w'.pc = Function.update w.pc t p)
    (hsending : w'.sending = Function.update w.sending t o)
    (hlog : w'.log = w.log ∨ ∃ e, w'.log = e :: w.log ∧ (∀ c, t ≠ .client c → e.Quiet c) ∧
      ∀ t' s peer written k, e = .send t' s peer written k → Attributed w.log t' s)
    (hp : ∀ c, t = .client c → Serving w'.log c p)
    (ho : ∀ s, o = some s → Attributed w'.log t s) : Provenance w' := by
  have hother : ∀ c, t ≠ .client c → w'.log = w.log ∨ ∃ e, w'.log = e :: w.log ∧ e.Quiet c := by
    intro c hc
    rcases hlog with hlog | ⟨e, hlog, hquiet, -⟩
    · exact .inl hlog
    · exact .inr ⟨e, hlog, hquiet c hc⟩
  constructor
  · -- serving
    intro c
    rw [hpc]
    by_cases hc : t = .client c
    · subst hc
      rw [Function.update_self]
      exact hp c rfl
    · rw [Function.update_of_ne (Ne.symm hc)]
      rcases hother c hc with hlog | ⟨e, hlog, he⟩
      · rw [hlog]
        exact hw.serving c
      · rw [hlog]
        exact (hw.serving c).cons he
  · -- pending
    intro t' s hs
    rw [hsending] at hs
    by_cases ht : t' = t
    · subst ht
      rw [Function.update_self] at hs
      exact ho s hs
    · rw [Function.update_of_ne ht] at hs
      rcases hlog with hlog | ⟨e, hlog, hquiet, -⟩
      · rw [hlog]
        exact hw.pending t' s hs
      · rw [hlog]
        exact (hw.pending t' s hs).cons fun c hc => hquiet c (hc ▸ Ne.symm ht)
  · rcases hlog with hlog | ⟨e, hlog, -, hsent⟩
    · rw [hlog]
      exact hw.sent
    · rw [hlog]
      exact ⟨hsent, hw.sent⟩

/-- A step of `main` or the monitor that starts at most a call of its own. -/
theorem next_server (hw : Provenance w) {p : Pc} {o : Option Sending}
    (ht : ∀ c, t ≠ .client c) (hpc : w'.pc = Function.update w.pc t p)
    (hsending : w'.sending = Function.update w.sending t o)
    (hlog : w'.log = w.log ∨ ∃ e, w'.log = e :: w.log ∧ e.Own t)
    (ho : ∀ s, o = some s → Attributed w'.log t s) : Provenance w' := by
  refine hw.next hpc hsending ?_ (fun c hc => absurd hc (ht c)) ho
  rcases hlog with hlog | ⟨e, hlog, hown⟩
  · exact .inl hlog
  · exact .inr ⟨e, hlog, fun c hc => hown.quiet hc, fun _ _ _ _ _ he => (he ▸ hown).elim⟩

/-- A step of a client's thread, with no `send()`. -/
theorem next_client (hw : Provenance w) {c : ℕ} {p : Pc} {o : Option Sending}
    (hpc : w'.pc = Function.update w.pc (.client c) p)
    (hsending : w'.sending = Function.update w.sending (.client c) o)
    (hlog : w'.log = w.log ∨ ∃ e, w'.log = e :: w.log ∧ e.Own (.client c))
    (hp : Serving w'.log c p)
    (ho : ∀ s, o = some s → Attributed w'.log (.client c) s) : Provenance w' := by
  refine hw.next hpc hsending ?_ (fun c' hc' => ?_) ho
  · rcases hlog with hlog | ⟨e, hlog, hown⟩
    · exact .inl hlog
    · exact .inr ⟨e, hlog, fun c hc => hown.quiet hc, fun _ _ _ _ _ he => (he ▸ hown).elim⟩
  · obtain rfl : c = c' := Tid.client.inj hc'
    exact hp

/-- A `send()`. -/
theorem send (hw : Provenance w) {s : Sending} {peer written : Option ℕ} {k : ℕ}
    {o : Option Sending} (hs : w.sending t = some s) (hpc : w'.pc = w.pc)
    (hsending : w'.sending = Function.update w.sending t o)
    (hlog : w'.log = .send t s peer written k :: w.log)
    (ho : ∀ s', o = some s' → s'.pkt = s.pkt ∧ s'.site = s.site) : Provenance w' := by
  have hquiet : ∀ c, (Event.send t s peer written k).Quiet c := fun c _ _ _ => by simp
  have hatt := hw.pending t s hs
  refine hw.next (p := w.pc t) (by rw [hpc, Function.update_eq_self]) hsending
    (.inr ⟨_, hlog, fun c _ => hquiet c, ?_⟩) ?_ ?_
  · rintro t' s' peer' written' k' ⟨⟩
    exact hatt
  · rintro c rfl
    rw [hlog]
    exact (hw.serving c).cons (hquiet c)
  · intro s' hs'
    obtain ⟨hpkt, hsite⟩ := ho s' hs'
    rw [hlog]
    have hatt' := hatt.cons (e := .send t s peer written k) fun c _ => hquiet c
    unfold Attributed at hatt' ⊢
    rw [hpkt, hsite]
    exact hatt'

/-- A packet other than a LOGOUT leaves the thread in its loop. -/
theorem serving_recv {c : ℕ} {fd : ℤ} {pkt : ChatPacket} (hlast : lastPacket h c = some pkt)
    (hcmd : pkt.command ≠ cmdLogout) : Serving h c (.recv fd) := by
  intro pkt' hlast'
  obtain rfl : pkt = pkt' := Option.some.inj (hlast.symm.trans hlast')
  exact hcmd

/-- A LOGOUT fills the buffer from its sender field. -/
theorem serving_logout {c : ℕ} {fd fd' : ℤ} {peer : Option ℕ} {pkt : ChatPacket}
    (hcmd : pkt.command = cmdLogout) :
    Serving (.received (.client c) fd' peer pkt :: w.log) c
      (.resolve fd ((CharArray.zero 32).strncpy pkt.senderPtr 31 name_limit)) := by
  have hlast : lastPacket (.received (.client c) fd' peer pkt :: w.log) c = some pkt := by
    simp [lastPacket]
  have hstr := CharArray.str_strncpy_zero (n := 32) pkt.senderPtr 31 name_limit
  constructor
  · -- an empty sender field leaves the buffer as it was
    intro hname
    refine ⟨CharArray.strncpy_zero_of_str (by decide) hname, fun pkt' hout => hout.2.2 ?_⟩
    obtain rfl : pkt = pkt' := Option.some.inj (hlast.symm.trans hout.1)
    rw [hstr, List.take_eq_nil_iff] at hname
    exact hname.resolve_left (by decide)
  · intro hname
    refine .inl ⟨pkt, ⟨hlast, hcmd, fun hnil => hname ?_⟩, hstr⟩
    rw [hstr, hnil, List.take_nil]

/-- The name `cleanup` resolves. -/
theorem announced_resolveName (hinv : Inv w) {c : ℕ} {fd : ℤ}
    (hpc : w.pc (.client c) = .resolve fd (.zero 32)) (hnot : ∀ pkt, ¬ LoggedOut w.log c pkt) :
    Announced w.log c (resolveName w.table fd (.zero 32)).str := by
  obtain ⟨i, r₀, hph, rfl⟩ : (Pc.resolve fd (.zero 32)).Expects (phase w.log c) :=
    hinv.expects hpc rfl
  obtain ⟨-, r, hr, hid⟩ := hinv.core.live c i r₀ hph
  refine .inr ⟨hnot, i, r₀, registered_mem_of_phase hph, ?_⟩
  -- `strncpy` copies the whole name: it was stored with at most 31 bytes
  have hshort : r.username.str.length ≤ 31 :=
    Nat.lt_succ_iff.mp (hinv.core.ok.username hr).length_str_lt
  simp only [resolveName, hinv.core.find_registered hph, hr.at_eq]
  rw [CharArray.str_strncpy_zero, ← hid.1]
  exact List.take_of_length_le hshort

theorem serving_at (hw : Provenance w) {c : ℕ} {p : Pc} (hpc : w.pc (.client c) = p) :
    Serving w.log c p :=
  hpc ▸ hw.serving c

/-- A handler answers the packet its thread has received last. -/
theorem reply (hw : Provenance w) {c : ℕ} {fd : ℤ} {req msg : ChatPacket}
    (hwork : w.pc (.client c) = .handle fd req)
    (hpc : w'.pc = Function.update w.pc (.client c) (.recv fd))
    (hsending : w'.sending =
      Function.update w.sending (.client c) (some ⟨fd, msg, 0, .reply req⟩))
    (hlog : w'.log = w.log) (hmakes : (Site.reply req).Makes msg) : Provenance w' := by
  obtain ⟨hlast, hout⟩ := hw.serving_at hwork
  refine hw.next_client hpc hsending (.inl hlog) ?_ ?_
  · rw [hlog]
    exact serving_recv hlast hout
  · rintro s ⟨⟩
    exact ⟨hmakes, c, rfl, by rw [hlog]; exact hlast, rfl⟩

/-! ### The rules -/

variable {l : Label}

/-- The rules of `main`. -/
theorem move_main (hinv : Inv w) (hw : Provenance w) (hm : Move w l w') (ht : l.tid = .main)
    (hidle : w.sending l.tid = none) : Provenance w' := by
  cases hm with
  | wrote hs | sendFail hs => exact absurd (hs.symm.trans hidle) (by simp)
  | recvFirst hs =>
    exact hw.next_server (by simp) rfl (idle_update hs) (.inr ⟨_, rfl, rfl⟩) (by simp)
  | accept hs | recvFirstFail hs | check hs | closeFirst hs =>
    exact hw.next_server (by simp) rfl (idle_update hs) (.inr ⟨_, rfl, trivial⟩) (by simp)
  | acceptFail => exact hw
  | add hs | refuse hs =>
    refine hw.next_server (by simp) rfl rfl (.inr ⟨_, rfl, trivial⟩) ?_
    rintro s ⟨⟩
    exact ⟨⟨_, rfl⟩, rfl⟩
  | @spawn c fd hs hpc =>
    refine ⟨fun c' => ?_, hw.pending, hw.sent⟩
    by_cases hc : c' = c
    · have hns : w.pc (.client c) = .notStarted :=
        (hinv.threads .main).alone rfl c (by rw [hpc]; rfl)
      have hnone : lastPacket w.log c = none := hw.serving_at hns
      simp [World.goto, hc, Serving, hnone]
    · simpa [World.goto, hc] using hw.serving c'
  | _ => cases ht

/-- What a client's thread receives is what it serves. -/
theorem move_receive (hw : Provenance w) (hm : Move w l w') {fd : ℤ}
    (hidle : w.sending l.tid = none) (hrecv : w.pc l.tid = .recv fd) : Provenance w' := by
  cases hm with
  | wrote hs | sendFail hs => exact absurd (hs.symm.trans hidle) (by simp)
  | recvActivity hs hpc hcmd =>
    refine hw.next_client rfl (idle_update hs) (.inr ⟨_, rfl, rfl⟩)
      ⟨by simp [World.emit, lastPacket], ?_⟩ (by simp)
    rcases hcmd with hcmd | hcmd | hcmd <;> rw [hcmd] <;> decide
  | recvQuery hs hpc hcmd =>
    refine hw.next_client rfl (idle_update hs) (.inr ⟨_, rfl, rfl⟩)
      ⟨by simp [World.emit, lastPacket], ?_⟩ (by simp)
    rcases hcmd with hcmd | hcmd <;> rw [hcmd] <;> decide
  | @recvLogout c fd pkt hs hpc hcmd =>
    refine hw.next_client rfl rfl (.inr ⟨_, rfl, rfl⟩) (serving_logout hcmd) ?_
    rintro s ⟨⟩
    exact ⟨.inl rfl, c, rfl, by simp [World.emit, lastPacket], rfl⟩
  | @recvIgnored c fd pkt hs hpc hcmd =>
    refine hw.next_client (p := .recv fd) (by simp [World.emit, ← hpc]) (idle_update hs)
      (.inr ⟨_, rfl, rfl⟩) ?_ (by simp)
    have hlast : lastPacket (w.emit (.received (.client c) fd (w.descr fd) pkt)).log c =
        some pkt := by simp [World.emit, lastPacket]
    refine serving_recv hlast ?_
    rintro hout
    simp [hout] at hcmd
  | @recvFail c fd hs hpc =>
    have hstay := hw.serving_at hpc
    refine hw.next_client rfl (idle_update hs) (.inr ⟨_, rfl, trivial⟩)
      ⟨fun _ => ⟨rfl, ?_⟩, fun hne => absurd (CharArray.str_zero 32) hne⟩ (by simp)
    rintro pkt ⟨hlast, hcmd, -⟩
    exact hstay pkt hlast hcmd
  | fanoutSend _ hpc hf | fanoutSkip _ hpc hf | fanoutEnd _ hpc hf =>
    cases hf <;> cases hpc.symm.trans hrecv
  | _ => simp_all

/-- A handler acts on the packet its thread has received last. -/
theorem move_handle (hw : Provenance w) (hm : Move w l w') {fd : ℤ} {pkt : ChatPacket}
    (hidle : w.sending l.tid = none) (hwork : w.pc l.tid = .handle fd pkt) : Provenance w' := by
  cases hm with
  | wrote hs | sendFail hs => exact absurd (hs.symm.trans hidle) (by simp)
  | broadcast hs hpc hm hcmd =>
    have hlast := (hw.serving_at hpc).1
    exact hw.next_client rfl (idle_update hs) (.inr ⟨_, rfl, trivial⟩) ⟨hlast, hcmd⟩ (by simp)
  | @direct c fd pkt i r hs hpc hm hcmd hfind hr =>
    obtain ⟨hlast, hout⟩ := hw.serving_at hpc
    have hstay : Serving w.log c (.recv fd) := serving_recv hlast hout
    refine hw.next_client rfl rfl (.inr ⟨_, rfl, trivial⟩) hstay ?_
    rintro s ⟨⟩
    exact ⟨rfl, _, rfl, hlast, hcmd⟩
  | directMissing hs hpc => exact hw.reply hpc rfl rfl rfl (.inr (.inl rfl))
  | status hs hpc => exact hw.reply hpc rfl rfl rfl (.inr (.inr ⟨_, .inl rfl⟩))
  | list hs hpc => exact hw.reply hpc rfl rfl rfl (.inr (.inr ⟨_, .inr (.inl rfl)⟩))
  | info hs hpc => exact hw.reply hpc rfl rfl rfl (.inr (.inr ⟨_, .inr (.inr rfl)⟩))
  | fanoutSend _ hpc hf | fanoutSkip _ hpc hf | fanoutEnd _ hpc hf =>
    cases hf <;> cases hpc.symm.trans hwork
  | _ => simp_all

/-- **Every rule keeps the invariant.** -/
theorem move (hinv : Inv w) (hw : Provenance w) (hm : Move w l w') : Provenance w' := by
  have hmove := hm
  cases hm with
  | wrote hs hc hn hle =>
    refine hw.send hs rfl rfl rfl fun s' hs' => ?_
    split at hs'
    · cases hs'
      exact ⟨rfl, rfl⟩
    · cases hs'
  | sendFail hs => exact hw.send hs rfl rfl rfl (by simp)
  | accept hs | acceptFail hs | recvFirst hs | recvFirstFail hs | add hs | refuse hs | check hs
  | spawn hs | closeFirst hs =>
    exact hw.move_main hinv hmove rfl hs
  -- the monitor
  | wake hs | sweepSkip hs =>
    exact hw.next_server (by simp) rfl (idle_update hs) (.inl rfl) (by simp)
  | sweepStart hs | sweepEnd hs =>
    exact hw.next_server (by simp) rfl (idle_update hs) (.inr ⟨_, rfl, trivial⟩) (by simp)
  | sweepMark hs =>
    refine hw.next_server (by simp) rfl rfl (.inl rfl) ?_
    rintro s ⟨⟩
    exact ⟨⟨_, rfl⟩, rfl⟩
  -- `client_thread`
  | recvActivity hs hpc | recvQuery hs hpc | recvLogout hs hpc | recvIgnored hs hpc
  | recvFail hs hpc =>
    exact hw.move_receive hmove hs hpc
  | touch hs hpc =>
    have hlast := hw.serving_at hpc
    exact hw.next_client rfl (idle_update hs) (.inl rfl) hlast (by simp)
  | reactivate hs hpc =>
    have hlast := hw.serving_at hpc
    refine hw.next_client rfl rfl (.inl rfl) hlast ?_
    rintro s ⟨⟩
    exact ⟨rfl, _, rfl⟩
  | broadcast hs hpc | direct hs hpc | directMissing hs hpc | status hs hpc | list hs hpc
  | info hs hpc =>
    exact hw.move_handle hmove hs hpc
  | fanoutSend hs hpc hf =>
    obtain ⟨hnext, -, hatt⟩ := hf.serving (hw.serving_at hpc)
    refine hw.next_client rfl rfl (.inl rfl) hnext ?_
    rintro s ⟨⟩
    exact hatt _ _
  | fanoutSkip hs hpc hf =>
    obtain ⟨hnext, -, -⟩ := hf.serving (hw.serving_at hpc)
    exact hw.next_client rfl (idle_update hs) (.inl rfl) hnext (by simp)
  | @fanoutEnd c p i msg site next done hs hpc hf =>
    obtain ⟨-, hdone, -⟩ := hf.serving (hw.serving_at hpc)
    exact hw.next_client rfl (idle_update hs) (.inr ⟨_, rfl, trivial⟩)
      (hdone.cons (e := .unlocked (.client c) w.sections) fun _ _ _ => by simp) (by simp)
  | directUnlock hs hpc =>
    have hstay := hw.serving_at hpc
    exact hw.next_client rfl (idle_update hs) (.inr ⟨_, rfl, trivial⟩) hstay (by simp)
  -- `cleanup`
  | @resolve c fd username hs hpc hname hm =>
    obtain ⟨rfl, hnot⟩ := (hw.serving_at hpc).1 hname
    exact hw.next_client rfl (idle_update hs) (.inl rfl)
      (fun _ => announced_resolveName hinv hpc hnot) (by simp)
  | resolved hs hpc hname =>
    have hann := (hw.serving_at hpc).2 hname
    exact hw.next_client rfl (idle_update hs) (.inl rfl) (fun _ => hann) (by simp)
  | @remove c fd username hs hpc =>
    have hname := (hw.serving_at hpc).cons (e := .removed c) fun _ _ _ => by simp
    exact hw.next_client rfl (idle_update hs) (.inr ⟨_, rfl, trivial⟩) hname (by simp)
  | @close c fd username hs hpc =>
    have hname := (hw.serving_at hpc).cons (e := .closed c fd (w.descr fd)) fun _ _ _ => by simp
    split
    · exact hw.next_client rfl (idle_update hs) (.inr ⟨_, rfl, trivial⟩) trivial (by simp)
    · case isFalse hne =>
      exact hw.next_client rfl (idle_update hs) (.inr ⟨_, rfl, trivial⟩) ⟨hne, hname hne⟩
        (by simp)
  | @notify c username hs hpc =>
    have hname := (hw.serving_at hpc).cons
      (e := .locked (.client c) (w.sections + 1) (.departure username.str)) fun _ _ _ => by simp
    exact hw.next_client rfl (idle_update hs) (.inr ⟨_, rfl, trivial⟩) hname (by simp)

end Provenance

theorem provenance_of_reachable {w : World} (h : Reachable step World.init w) :
    Provenance w := by
  have hboth := h.invariant (I := fun w => Inv w ∧ Provenance w) ⟨.init, .init⟩
    fun _ _ _ hI hs => ⟨hI.1.step hs, hI.2.move hI.1 (move_of_step hs)⟩
  exact hboth.2

end ChatSystem
