/-
ChatSystem/Turns.lean

The conversation on one connection.  `Turn` says whose turn it is and what is
due; `turn h c` reads it off the history:

    opening ──REGISTER──▸ welcome ──accepted──▸ listening ⇄ serving ⇄ relaying
       │                     │refused                          │ LOGOUT
       └──────────────▸ over ◂──────────── recv failed ────────┘

`InTurn e h` says which events the conversation allows next: a packet is
received only when nothing is due, a reply is sent only for the packet being
served, the reactivation notice at most once and before anything else, the
relaying section is entered only for the packet being served, and the record
and the descriptor go only when the conversation is over.  Copies relayed on
behalf of other clients and the monitor's notices are no part of it.

In every run every event is in turn, whatever the other threads do in between
(`conversation_of_reachable`).  From it follows that requests and replies
alternate: the requests answered on a connection are those received there, in
order, but for the one its thread is busy with (`asked_eq`).
-/
import ChatSystem.Provenance
import ChatSystem.Replay
import ChatSystem.Rounds

namespace ChatSystem

open CStr Lts

/-! ### Turns -/

inductive Turn
  | opening
  | welcome (pkt : ChatPacket)
  | listening
  | serving (pkt : ChatPacket) (noticed : Bool)
  | relaying (pkt : ChatPacket)
  | over
deriving DecidableEq

/-- The commands a client's thread does something about. -/
def servedCommands : List UInt8 :=
  [cmdBroadcast, cmdDirect, cmdStatus, cmdList, cmdInfo, cmdLogout]

/-- Those that count as activity. -/
def activeCommands : List UInt8 := [cmdBroadcast, cmdDirect, cmdStatus]

/-- The connection an event is part of the conversation of. -/
def Event.speaker? : Event → Option ℕ
  | received .main _ peer _ | recvFailed .main _ peer => peer
  | received (.client d) _ _ _ | recvFailed (.client d) _ _ | locked (.client d) _ _
  | unlocked (.client d) _ | send (.client d) _ _ _ _ => some d
  | send .main s peer _ _ => if s.site.slot? = none then peer else none
  | _ => none

/-- The end of a `send_packet` call in a conversation. -/
def Site.turn : Site → Turn → Turn
  | register rc, _ => if rc = 0 then .listening else .over
  | reactivation, .serving pkt _ => .serving pkt true
  | reply req, _ => if req.command = cmdLogout then .over else .listening
  | _, u => u

/-- The turn after an event of the conversation. -/
def Event.turn : Event → Turn → Turn
  | received .main _ _ pkt, _ => if pkt.command = cmdRegister then .welcome pkt else .over
  | received _ _ _ pkt, u => if pkt.command ∈ servedCommands then .serving pkt false else u
  | recvFailed _ _ _, _ => .over
  | locked _ _ (.broadcast req), _ | locked _ _ (.direct req), _ => .relaying req
  | unlocked _ _, .relaying _ => .listening
  | send _ s _ written _, u => if s.ends written then s.site.turn u else u
  | _, u => u

/-- Whose turn it is on connection `c`. -/
def turn : List Event → ℕ → Turn
  | [], _ => .opening
  | e :: h, c => if e.speaker? = some c then e.turn (turn h c) else turn h c

/-- When a `send()` is in turn. -/
def Sending.InTurn (s : Sending) (u : Turn) : Prop :=
  match s.site with
  | .register rc => ∃ pkt, u = .welcome pkt ∧ s.pkt = registerReply rc pkt
  | .reactivation => ∃ pkt, u = .serving pkt false ∧ pkt.command ∈ activeCommands
  | .reply req => (∃ noticed, u = .serving req noticed) ∧ req.command ∈ servedCommands ∧
      req.command ≠ cmdBroadcast
  | .broadcast req _ | .direct req _ => u = .relaying req
  | .departure _ _ => u = .over
  | .inactivity _ => False

/-- When an event is in turn. -/
def InTurn : Event → List Event → Prop
  | .received .main _ peer _, h | .recvFailed .main _ peer, h =>
    ∃ c, peer = some c ∧ turn h c = .opening
  | .received (.client c) _ _ _, h | .recvFailed (.client c) _ _, h => turn h c = .listening
  | .locked (.client c) _ (.broadcast req), h =>
    req.command = cmdBroadcast ∧ ∃ noticed, turn h c = .serving req noticed
  | .locked (.client c) _ (.direct req), h =>
    req.command = cmdDirect ∧ ∃ noticed, turn h c = .serving req noticed
  | .locked (.client c) _ _, h => turn h c = .over
  | .unlocked (.client c) _, h => (∃ req, turn h c = .relaying req) ∨ turn h c = .over
  | .send .main s peer _ _, h =>
    ∃ c rc, peer = some c ∧ s.site = .register rc ∧ s.InTurn (turn h c)
  | .send (.client c) s _ _ _, h => s.InTurn (turn h c)
  | .send .monitor s _ _ _, _ => ∃ i, s.site = .inactivity i
  | .removed c, h | .closed c _ _, h => turn h c = .over
  | _, _ => True

/-! ### What a thread knows of its conversation -/

/-- The turn of a thread's conversation where it stands, with the call it is in
the middle of. -/
def Pc.KnowsTurn (p : Pc) (o : Option Sending) (ph : Phase) (u : Turn) : Prop :=
  match p with
  | recvFirst .. => o = none ∧ u = .opening
  | register _ _ _ pkt => o = none ∧ u = .welcome pkt
  | check .. =>
    match o with
    | some s => ∃ pkt rc, s.site = .register rc ∧ s.pkt = registerReply rc pkt ∧
        u = .welcome pkt ∧ (rc = 0 ↔ ∃ i r, ph = .registered i r)
    | none => ((∃ i r, ph = .registered i r) ∧ u = .listening) ∨
        ((∃ fd ip, ph = .connected fd ip) ∧ u = .over)
  | spawn .. => o = none ∧ u = .listening
  | closeFirst .. => o = none ∧ u = .over
  | recv _ =>
    match o with
    | some s => ∃ req noticed, s.site = .reply req ∧ u = .serving req noticed ∧
        req.command ∈ servedCommands ∧ req.command ≠ cmdBroadcast ∧ req.command ≠ cmdLogout
    | none => u = .listening
  | touch _ pkt => o = none ∧ u = .serving pkt false ∧ pkt.command ∈ activeCommands
  | handle _ pkt =>
    pkt.command ∈ servedCommands ∧ pkt.command ≠ cmdLogout ∧
    match o with
    | some s => s.site = .reactivation ∧ u = .serving pkt false ∧ pkt.command ∈ activeCommands
    | none => ∃ noticed, u = .serving pkt noticed
  | broadcasting _ pkt _ => u = .relaying pkt ∧ ∀ s, o = some s → ∃ i, s.site = .broadcast pkt i
  | directUnlock _ => ∃ pkt, u = .relaying pkt ∧ ∀ s, o = some s → ∃ i, s.site = .direct pkt i
  | resolve .. =>
    match o with
    | some s => ∃ req noticed, s.site = .reply req ∧ u = .serving req noticed ∧
        req.command = cmdLogout
    | none => u = .over
  | notifying .. => u = .over ∧ ∀ s, o = some s → ∃ name i, s.site = .departure name i
  | remove .. | close .. | notify _ | exited => o = none ∧ u = .over
  | accept | sleep | awake _ | sweep .. | notStarted => True

/-- The invariant. -/
structure Turns (w : World) : Prop where
  fresh : ∀ c, phase w.log c = .fresh → turn w.log c = .opening
  thread : ∀ t c, (w.pc t).conn? t = some c →
    (w.pc t).KnowsTurn (w.sending t) (phase w.log c) (turn w.log c)
  always : Always InTurn w.log

variable {w w' : World} {l : Label} {t : Tid} {c : ℕ} {h : List Event} {e : Event}

theorem turn_cons_of_ne (he : e.speaker? ≠ some c) : turn (e :: h) c = turn h c := by
  rw [turn, if_neg he]

theorem turn_cons_self (he : e.speaker? = some c) : turn (e :: h) c = e.turn (turn h c) := by
  rw [turn, if_pos he]

/-- A loop keeps its thread in charge. -/
theorem FanoutAt.keeps_conn {p : Pc} {i : ℕ} {msg : ChatPacket} {site : ℕ → Site}
    {next done : Pc} (h : FanoutAt p i msg site next done) (t : Tid) :
    next.conn? t = p.conn? t ∧ done.conn? t = p.conn? t :=
  h.spec.2.2.2.2.2.1 t

/-! ### One thread, one conversation -/

/-- A client's thread, once started, is in charge of its connection. -/
theorem Pc.conn_client {p : Pc} {d : ℕ} (hrun : p.RunBy (.client d)) (hne : p ≠ .notStarted) :
    p.conn? (.client d) = some d := by
  cases p <;> simp_all [Pc.RunBy, Pc.conn?]

/-- A thread in the middle of a call has started. -/
theorem Inv.started_of_sending (hinv : Inv w) {s : Sending} (hs : w.sending t = some s) :
    w.pc t ≠ .notStarted := by
  intro hns
  have hok := (hinv.threads t).sends s hs
  unfold SendOk at hok
  rw [hns] at hok
  split at hok <;> simp [Pc.locked, Pc.fd?] at hok

/-- **A thread speaks only in the conversation it is in charge of.** -/
theorem Move.speaker (hm : Move w l w') (hinv : Inv w) (hlog : w'.log = e :: w.log)
    (he : e.speaker? = some c) : (w.pc l.tid).conn? l.tid = some c := by
  have hcons {e' : Event} (hlog' : w'.log = e' :: w.log) : e' = e :=
    (List.cons.inj (hlog'.symm.trans hlog)).1
  -- the connection of a descriptor the thread holds
  have hown {fd : ℤ} {c' : ℕ} {p : Pc} (hpc : w.pc l.tid = p) (hc : p.conn? l.tid = some c')
      (hfd : p.fd? = some fd) (hpeer : w.descr fd = some c) : p.conn? l.tid = some c := by
    rw [(hinv.own_descr hpc hc hfd).1] at hpeer
    rw [hc, hpeer]
  have hclient {d : ℕ} (hrun : (w.pc (.client d)).RunBy (.client d))
      (hne : w.pc (.client d) ≠ .notStarted) (hd : d = c) :
      (w.pc (.client d)).conn? (.client d) = some c := by
    rw [Pc.conn_client hrun hne, hd]
  have hsend {t : Tid} {s : Sending} {written : Option ℕ} {k : ℕ} (hs : w.sending t = some s)
      (he : (Event.send t s (w.descr s.fd) written k).speaker? = some c) :
      (w.pc t).conn? t = some c := by
    rcases t with - | - | d
    · simp only [Event.speaker?] at he
      split at he
      case isFalse => cases he
      case isTrue hslot =>
        have hok := (hinv.threads .main).sends s hs
        unfold SendOk at hok
        rw [hslot] at hok
        obtain ⟨c', hc', -⟩ := Inv.conn_of_fd? (hinv.threads .main).runBy hok
        rw [(hinv.own_descr rfl hc' hok).1] at he
        rw [hc', he]
    · cases he
    · rw [Pc.conn_client (hinv.threads _).runBy (hinv.started_of_sending hs)]
      exact he
  cases hm with
  | wrote hs hc =>
    obtain rfl := hcons rfl
    rw [← hc] at he
    exact hsend hs he
  | sendFail hs =>
    obtain rfl := hcons rfl
    exact hsend hs he
  | recvFirst hs hpc | recvFirstFail hs hpc =>
    obtain rfl := hcons rfl
    rw [hpc]
    exact hown hpc rfl rfl he
  | recvActivity hs hpc | recvQuery hs hpc | recvLogout hs hpc | recvIgnored hs hpc
  | recvFail hs hpc | broadcast hs hpc | direct hs hpc | directUnlock hs hpc | notify hs hpc =>
    obtain rfl := hcons rfl
    exact hclient (hinv.threads _).runBy (by rw [hpc]; simp) (Option.some.inj he)
  | fanoutEnd hs hpc hf =>
    obtain rfl := hcons rfl
    exact hclient (hinv.threads _).runBy (by rw [hpc]; exact hf.started) (Option.some.inj he)
  | accept | add | refuse | check | closeFirst | remove | close | sweepStart | sweepEnd =>
    obtain rfl := hcons rfl
    cases he
  | acceptFail | spawn | touch | reactivate | directMissing | status | list | info | fanoutSend
  | fanoutSkip | resolve | resolved | wake | sweepMark | sweepSkip =>
    exact absurd hlog (List.cons_ne_self _ _).symm

/-- The turn of a connection another thread is in charge of stays. -/
theorem Move.turn_of_ne (hm : Move w l w') (hinv : Inv w)
    (hc : (w.pc l.tid).conn? l.tid ≠ some c) : turn w'.log c = turn w.log c := by
  rcases hm.log_cases with hlog | ⟨e, hlog⟩
  · rw [hlog]
  · rw [hlog, turn_cons_of_ne fun he => hc (hm.speaker hinv hlog he)]

/-- So does its phase. -/
theorem Move.phase_of_ne (hm : Move w l w')
    (hc : (w.pc l.tid).conn? l.tid ≠ some c) (hborn : c ≠ w.nextConn) :
    phase w'.log c = phase w.log c := by
  cases hm with
  | accept => exact phase_cons_of_ne rfl hborn
  | add hs hpc | closeFirst hs hpc | remove hs hpc | close hs hpc =>
    rw [hpc] at hc
    exact phase_cons_of_ne rfl fun heq => hc (by rw [heq]; rfl)
  | _ => rfl

/-! ### Keeping the turns -/

namespace Turns

theorem init : Turns World.init where
  fresh := fun _ _ => rfl
  thread := by
    intro t c hc
    cases t <;> cases hc
  always := trivial

/-- What a thread in charge knows where it stands. -/
theorem knows (h : Turns w) {p : Pc} (hpc : w.pc t = p) (hc : p.conn? t = some c)
    {o : Option Sending} (ho : w.sending t = o) :
    p.KnowsTurn o (phase w.log c) (turn w.log c) := by
  subst hpc ho
  exact h.thread t c hc

/-- A connection that is fresh after a step was fresh before. -/
theorem fresh_of_fresh (hinv : Inv w) (hm : Move w l w') (hc : phase w'.log c = .fresh) :
    phase w.log c = .fresh := by
  rcases hm.log_cases with hlog | ⟨e, hlog⟩
  · rwa [hlog] at hc
  · have hall := (hinv.move hm).core.disciplined
    rw [hlog] at hall hc
    have hrank := rank_le_cons hall.1 c
    rw [hc] at hrank
    rcases hph : phase w.log c <;> rw [hph] at hrank <;> simp [Phase.rank] at hrank ⊢

theorem next_fresh (h : Turns w) (hinv : Inv w) (hm : Move w l w')
    (hc : phase w'.log c = .fresh) : turn w'.log c = .opening := by
  have hold := fresh_of_fresh hinv hm hc
  have hne : (w.pc l.tid).conn? l.tid ≠ some c := fun hc' =>
    (hinv.expects rfl hc').ne_fresh hc' hold
  rw [hm.turn_of_ne hinv hne]
  exact h.fresh c hold

theorem next_always (h : Turns w) (hm : Move w l w')
    (hin : ∀ e, w'.log = e :: w.log → InTurn e w.log) : Always InTurn w'.log := by
  rcases hm.log_cases with hlog | ⟨e, hlog⟩
  · rw [hlog]
    exact h.always
  · rw [hlog]
    exact ⟨hin e hlog, h.always⟩

/-- What a thread knows is not touched by the steps of another one. -/
theorem next_other (h : Turns w) (hinv : Inv w) (hm : Move w l w') (ht : t ≠ l.tid)
    (hpc : w'.pc t = w.pc t) (hc : (w'.pc t).conn? t = some c) :
    (w'.pc t).KnowsTurn (w'.sending t) (phase w'.log c) (turn w'.log c) := by
  rw [hpc] at hc ⊢
  have hne : (w.pc l.tid).conn? l.tid ≠ some c := fun hc' =>
    ht (conn_thread_unique hinv.threads hc hc')
  have hborn : c ≠ w.nextConn := by
    rintro rfl
    exact (hinv.expects rfl hc).ne_fresh hc (hinv.core.unborn _ (Nat.le_refl _))
  rw [(hm.local_of_ne ht).1, hm.turn_of_ne hinv hne, hm.phase_of_ne hne hborn]
  exact h.thread t c hc

/-- A step of one thread, to the point `q` with the call `a`. -/
theorem next (h : Turns w) (hinv : Inv w) (hm : Move w l w') {q : Pc} {a : Option Sending}
    (hpc : w'.pc = Function.update w.pc l.tid q) (ho : w'.sending l.tid = a)
    (hnew : ∀ c, q.conn? l.tid = some c → q.KnowsTurn a (phase w'.log c) (turn w'.log c))
    (hin : ∀ e, w'.log = e :: w.log → InTurn e w.log) : Turns w' where
  fresh := fun c hc => h.next_fresh hinv hm hc
  thread := by
    intro t c hc
    by_cases ht : t = l.tid
    · subst ht
      rw [hpc, Function.update_self] at hc ⊢
      rw [ho]
      exact hnew c hc
    · exact h.next_other hinv hm ht (by rw [hpc, Function.update_of_ne ht]) hc
  always := h.next_always hm hin

/-! ### One step -/

/-- Only the site and the packet of a call matter. -/
theorem knows_congr {p : Pc} {s s' : Sending} {ph : Phase} {u : Turn}
    (h : p.KnowsTurn (some s) ph u) (hsite : s'.site = s.site) (hpkt : s'.pkt = s.pkt) :
    p.KnowsTurn (some s') ph u := by
  cases p <;> simp_all [Pc.KnowsTurn]

/-- The end of a call passes the turn on. -/
theorem knows_ended {p : Pc} {s : Sending} {ph : Phase} {u : Turn}
    (h : p.KnowsTurn (some s) ph u) (hexp : p.Expects ph) :
    p.KnowsTurn none ph (s.site.turn u) := by
  cases p <;> simp only [Pc.KnowsTurn, reduceCtorEq, false_and] at h
  case check c fd =>
    obtain ⟨pkt, rc, hsite, -, -, hrc⟩ := h
    rw [hsite]
    by_cases h0 : rc = 0
    · exact .inl ⟨hrc.mp h0, by simp [Site.turn, h0]⟩
    · rcases hexp with ⟨ip, hph⟩ | ⟨i, r, hph, -⟩
      · exact .inr ⟨⟨fd, ip, hph⟩, by simp [Site.turn, h0]⟩
      · exact absurd (hrc.mpr ⟨i, r, hph⟩) h0
  case recv =>
    obtain ⟨req, noticed, hsite, -, -, -, hout⟩ := h
    simp [Pc.KnowsTurn, hsite, Site.turn, hout]
  case handle =>
    obtain ⟨hmem, hout, hsite, rfl, hact⟩ := h
    exact ⟨hmem, hout, true, by rw [hsite]; rfl⟩
  case broadcasting =>
    obtain ⟨rfl, hsite⟩ := h
    obtain ⟨i, hs⟩ := hsite s rfl
    simp [Pc.KnowsTurn, hs, Site.turn]
  case directUnlock =>
    obtain ⟨pkt, rfl, hsite⟩ := h
    obtain ⟨i, hs⟩ := hsite s rfl
    exact ⟨pkt, by rw [hs]; rfl, by simp⟩
  case resolve =>
    obtain ⟨req, noticed, hsite, -, hout⟩ := h
    simp [Pc.KnowsTurn, hsite, Site.turn, hout]
  case notifying =>
    obtain ⟨rfl, hsite⟩ := h
    obtain ⟨name, i, hs⟩ := hsite s rfl
    simp [Pc.KnowsTurn, hs, Site.turn]
  all_goals trivial

/-- A call in a conversation is in turn. -/
theorem knows_inTurn {p : Pc} {s : Sending} {ph : Phase} {u : Turn}
    (h : p.KnowsTurn (some s) ph u) {t : Tid} {c : ℕ} (hc : p.conn? t = some c) :
    s.InTurn u := by
  cases p <;> simp only [Pc.KnowsTurn, reduceCtorEq, false_and] at h
  case check =>
    obtain ⟨pkt, rc, hsite, hpkt, rfl, -⟩ := h
    simp [Sending.InTurn, hsite, hpkt]
  case recv =>
    obtain ⟨req, noticed, hsite, rfl, hmem, hb, -⟩ := h
    simp [Sending.InTurn, hsite, hmem, hb]
  case handle =>
    obtain ⟨-, -, hsite, rfl, hact⟩ := h
    simp [Sending.InTurn, hsite, hact]
  case broadcasting =>
    obtain ⟨rfl, hsite⟩ := h
    obtain ⟨i, hs⟩ := hsite s rfl
    simp [Sending.InTurn, hs]
  case directUnlock =>
    obtain ⟨pkt, rfl, hsite⟩ := h
    obtain ⟨i, hs⟩ := hsite s rfl
    simp [Sending.InTurn, hs]
  case resolve =>
    obtain ⟨req, noticed, hsite, rfl, hout⟩ := h
    simp [Sending.InTurn, hsite, hout, servedCommands, cmdLogout, cmdBroadcast]
  case notifying =>
    obtain ⟨rfl, hsite⟩ := h
    obtain ⟨name, i, hs⟩ := hsite s rfl
    simp [Sending.InTurn, hs]
  all_goals cases hc

/-- `main` only answers REGISTER packets. -/
theorem main_site (hprov : Provenance w) {s : Sending} (hs : w.sending .main = some s) :
    ∃ rc, s.site = .register rc := by
  rcases hprov.pending .main s hs with ⟨-, horigin⟩
  rcases hsite : s.site <;> rw [hsite] at horigin <;> simp [OnBehalf] at horigin ⊢

/-- A `send()`. -/
theorem send (h : Turns w) (hinv : Inv w) (hprov : Provenance w) (hm : Move w l w')
    {s : Sending} {a : Option Sending} {k : Option ℕ}
    (hs : w.sending l.tid = some s) (hpc : w'.pc = w.pc) (ho : w'.sending l.tid = a)
    (hlog : w'.log = .send l.tid s (w.descr s.fd) k w.sections :: w.log)
    (hends : a = none ∧ s.ends k = true ∨
      s.ends k = false ∧ ∃ s', a = some s' ∧ s'.site = s.site ∧ s'.pkt = s.pkt) :
    Turns w' := by
  refine h.next hinv hm (q := w.pc l.tid) (by rw [hpc, Function.update_eq_self]) ho ?_ ?_
  · intro c hc
    have hknow := h.knows rfl hc hs
    have hph : phase w'.log c = phase w.log c := by rw [hlog]; rfl
    have hspeak : (Event.send l.tid s (w.descr s.fd) k w.sections).speaker? = some c := by
      rcases ht : l.tid with - | - | d
      · -- `main` sends in its own conversation, through its own descriptor
        rw [ht] at hs hc hknow
        obtain ⟨rc, hsite⟩ := main_site hprov hs
        have hok := (hinv.threads .main).sends s hs
        simp only [SendOk, hsite, Site.slot?] at hok
        simp [Event.speaker?, hsite, Site.slot?, (hinv.own_descr rfl hc hok).1]
      · rw [ht] at hs hc
        have hrun := (hinv.threads .monitor).runBy
        rcases hp : w.pc .monitor <;> rw [hp] at hc hrun <;> simp_all [Pc.conn?, Pc.RunBy]
      · rw [ht] at hs hc
        rw [Pc.conn_client (hinv.threads _).runBy (hinv.started_of_sending hs)] at hc
        exact hc
    rw [hph, hlog, turn_cons_self hspeak]
    simp only [Event.turn]
    rcases hends with ⟨rfl, hend⟩ | ⟨hend, s', rfl, hsite, hpkt⟩
    · rw [hend, if_pos rfl]
      exact knows_ended hknow (hinv.expects rfl hc)
    · rw [hend, if_neg Bool.false_ne_true]
      exact knows_congr hknow hsite hpkt
  · intro e he
    rw [hlog] at he
    obtain rfl := (List.cons.inj he).1
    rcases ht : l.tid with - | - | d
    · rw [ht] at hs
      obtain ⟨rc, hsite⟩ := main_site hprov hs
      have hok := (hinv.threads .main).sends s hs
      simp only [SendOk, hsite, Site.slot?] at hok
      obtain ⟨c, hc, -⟩ := Inv.conn_of_fd? (hinv.threads .main).runBy hok
      exact ⟨c, rc, (hinv.own_descr rfl hc hok).1, hsite, knows_inTurn (h.knows rfl hc hs) hc⟩
    · rw [ht] at hs
      rcases hprov.pending .monitor s hs with ⟨-, horigin⟩
      rcases hsite : s.site <;> rw [hsite] at horigin <;> simp [OnBehalf] at horigin
      exact ⟨_, hsite⟩
    · rw [ht] at hs
      have hc := Pc.conn_client (hinv.threads _).runBy (hinv.started_of_sending hs)
      exact knows_inTurn (h.knows rfl hc hs) hc

/-- A thread moves on without an event of its conversation. -/
theorem quiet (h : Turns w) (hinv : Inv w) (hm : Move w l w') {p q : Pc} {a : Option Sending}
    (hp : w.pc l.tid = p) (hs : w.sending l.tid = none)
    (hpc : w'.pc = Function.update w.pc l.tid q) (ho : w'.sending l.tid = a)
    (hlog : w'.log = w.log) (hconn : q.conn? l.tid = p.conn? l.tid)
    (hknow : ∀ ph u, p.Expects ph → p.KnowsTurn none ph u → q.KnowsTurn a ph u) : Turns w' := by
  refine h.next hinv hm hpc ho (fun c hc => ?_) fun e he => ?_
  · rw [hconn] at hc
    rw [hlog]
    exact hknow _ _ (hinv.expects hp hc) (h.knows hp hc hs)
  · rw [hlog] at he
    exact absurd he (List.cons_ne_self _ _).symm

/-- A thread moves on with an event that is no part of a conversation. -/
theorem aside (h : Turns w) (hinv : Inv w) (hm : Move w l w') {p q : Pc} {a : Option Sending}
    {e : Event} (hp : w.pc l.tid = p) (hs : w.sending l.tid = none)
    (hpc : w'.pc = Function.update w.pc l.tid q) (ho : w'.sending l.tid = a)
    (hlog : w'.log = e :: w.log) (he : e.speaker? = none) (hconn : q.conn? l.tid = p.conn? l.tid)
    (hin : InTurn e w.log)
    (hknow : ∀ c, p.conn? l.tid = some c → p.KnowsTurn none (phase w.log c) (turn w.log c) →
      q.KnowsTurn a (phase w'.log c) (turn w.log c)) : Turns w' := by
  refine h.next hinv hm hpc ho (fun c hc => ?_) fun e' he' => ?_
  · rw [hconn] at hc
    have hturn : turn w'.log c = turn w.log c := by
      rw [hlog, turn_cons_of_ne (by simp [he])]
    rw [hturn]
    exact hknow c hc (h.knows hp hc hs)
  · rw [hlog] at he'
    obtain rfl := (List.cons.inj he').1
    exact hin

/-- A thread speaks in its conversation. -/
theorem speak (h : Turns w) (hinv : Inv w) (hm : Move w l w') {p q : Pc} {a : Option Sending}
    {e : Event} (hp : w.pc l.tid = p) (hs : w.sending l.tid = none)
    (hpc : w'.pc = Function.update w.pc l.tid q) (ho : w'.sending l.tid = a)
    (hlog : w'.log = e :: w.log) (he : e.speaker? = some c) (hc : p.conn? l.tid = some c)
    (hconn : q.conn? l.tid = some c)
    (hin : p.KnowsTurn none (phase w.log c) (turn w.log c) → InTurn e w.log)
    (hknow : ∀ ph ph' u, p.KnowsTurn none ph u → q.KnowsTurn a ph' (e.turn u)) : Turns w' := by
  have hturn := h.knows hp hc hs
  refine h.next hinv hm hpc ho (fun c' hc' => ?_) fun e' he' => ?_
  · obtain rfl : c = c' := Option.some.inj (hconn.symm.trans hc')
    have hnow : turn w'.log c = e.turn (turn w.log c) := by rw [hlog, turn_cons_self he]
    rw [hnow]
    exact hknow _ _ _ hturn
  · rw [hlog] at he'
    obtain rfl := (List.cons.inj he').1
    exact hin hturn

/-! ### What each rule does to the turn -/

section Rules

variable {d : ℕ} {fd : ℤ} {ip : List UInt8} {pkt : ChatPacket} {peer : Option ℕ}
  {ph ph' : Phase} {u : Turn}

/-- The first packet of a connection. -/
theorem knows_first : (if pkt.command = cmdRegister then Pc.register d fd ip pkt
    else .closeFirst d fd).KnowsTurn none ph ((Event.received .main fd peer pkt).turn u) := by
  simp only [Event.turn]
  split <;> exact ⟨rfl, rfl⟩

/-- The reply to a REGISTER says what has become of it. -/
theorem knows_answered {rc : ℤ} (h : (Pc.register d fd ip pkt).KnowsTurn none ph u)
    (hrc : rc = 0 ↔ ∃ i r, ph' = .registered i r) :
    (Pc.check d fd).KnowsTurn (some ⟨fd, registerReply rc pkt, 0, .register rc⟩) ph' u :=
  ⟨pkt, rc, rfl, rfl, h.2, hrc⟩

theorem knows_checked {found : Bool} (h : (Pc.check d fd).KnowsTurn none ph u)
    (hfound : found = true ↔ ∃ i r, ph = .registered i r) :
    (if found then Pc.spawn d fd else .closeFirst d fd).KnowsTurn none ph u := by
  rcases h with ⟨hreg, hlisten⟩ | ⟨⟨fd', ip', hph⟩, hover⟩
  · rw [if_pos (hfound.mpr hreg)]
    exact ⟨rfl, hlisten⟩
  · rw [if_neg]
    · exact ⟨rfl, hover⟩
    · rw [hfound, hph]
      simp

/-- What counts as activity is served, and is no LOGOUT. -/
theorem served_of_active {cmd : UInt8} (h : cmd ∈ activeCommands) :
    cmd ∈ servedCommands ∧ cmd ≠ cmdLogout := by
  simp only [activeCommands, List.mem_cons, List.not_mem_nil, or_false] at h
  rcases h with rfl | rfl | rfl <;> decide

/-- A packet that is served is what the thread serves next. -/
theorem turn_received (h : pkt.command ∈ servedCommands) :
    (Event.received (.client d) fd peer pkt).turn u = .serving pkt false := by
  simp [Event.turn, h]

/-- Any other packet changes nothing. -/
theorem turn_ignored (h : pkt.command ∉ servedCommands) :
    (Event.received (.client d) fd peer pkt).turn u = u := by
  simp [Event.turn, h]

/-- `cl_touch` finds the client active. -/
theorem knows_touched (h : (Pc.touch fd pkt).KnowsTurn none ph u) :
    (Pc.handle fd pkt).KnowsTurn none ph u := by
  obtain ⟨-, rfl, hact⟩ := h
  obtain ⟨hserved, hout⟩ := served_of_active hact
  exact ⟨hserved, hout, false, rfl⟩

/-- `cl_touch` reactivates the client. -/
theorem knows_reactivated (h : (Pc.touch fd pkt).KnowsTurn none ph u) (msg : ChatPacket) :
    (Pc.handle fd pkt).KnowsTurn (some ⟨fd, msg, 0, .reactivation⟩) ph u := by
  obtain ⟨-, rfl, hact⟩ := h
  obtain ⟨hserved, hout⟩ := served_of_active hact
  exact ⟨hserved, hout, rfl, rfl, hact⟩

/-- A handler answers the client it serves. -/
theorem knows_reply (h : (Pc.handle fd pkt).KnowsTurn none ph u)
    (hcmd : pkt.command ≠ cmdBroadcast) (msg : ChatPacket) :
    (Pc.recv fd).KnowsTurn (some ⟨fd, msg, 0, .reply pkt⟩) ph u := by
  obtain ⟨hserved, hout, noticed, rfl⟩ := h
  exact ⟨pkt, noticed, rfl, rfl, hserved, hcmd, hout⟩

end Rules

/-! ### The rules -/

/-- The new thread takes the conversation over. -/
theorem spawn (h : Turns w) (hinv : Inv w) {fd : ℤ} (hs : w.sending .main = none)
    (hpc : w.pc .main = .spawn c fd) :
    Turns ((w.goto (.client c) (.recv fd)).goto .main .accept) := by
  have hm := Move.spawn hs hpc
  refine ⟨fun c' hc' => h.next_fresh hinv hm hc', fun t c' hc' => ?_,
    h.next_always hm fun e he => absurd he (List.cons_ne_self _ _).symm⟩
  rcases eq_or_ne t .main with rfl | hmain
  · simp [World.goto, Pc.conn?] at hc'
  rcases eq_or_ne t (.client c) with rfl | hclient
  · have hpc' : ((w.goto (.client c) (.recv fd)).goto .main .accept).pc (.client c)
        = .recv fd := by simp [World.goto]
    rw [hpc'] at hc' ⊢
    obtain rfl : c = c' := Option.some.inj hc'
    have hidle : w.sending (.client c) = none := by
      rcases hsend : w.sending (.client c) with - | s
      · rfl
      · exact absurd ((hinv.threads .main).alone rfl c (by rw [hpc]; rfl))
          (hinv.started_of_sending hsend)
    show Pc.KnowsTurn _ (w.sending (.client c)) _ _
    rw [hidle]
    exact (h.knows hpc rfl hs).2
  · exact h.next_other hinv hm hmain (by simp [World.goto, hmain, hclient]) hc'

/-- The rules of `send()`. -/
theorem move_send (h : Turns w) (hinv : Inv w) (hprov : Provenance w) (hm : Move w l w')
    (hsend : w.sending l.tid ≠ none) : Turns w' := by
  have hmove := hm
  cases hm with
  | @wrote t s c n hs hc hn hle =>
    refine h.send hinv hprov hmove hs rfl (Function.update_self ..) (k := some n)
      (by rw [hc]; rfl) ?_
    by_cases hlast : s.total + n < 1024
    · exact .inr ⟨by simp [Sending.ends]; omega, { s with total := s.total + n },
        by rw [if_pos hlast], rfl, rfl⟩
    · exact .inl ⟨by rw [if_neg hlast], by simp [Sending.ends]; omega⟩
  | @sendFail t s hs =>
    exact h.send hinv hprov hmove hs rfl (Function.update_self ..) (k := none) rfl
      (.inl ⟨rfl, rfl⟩)
  | _ => exact absurd (by assumption) hsend

/-- The rules of `main`. -/
theorem move_main (h : Turns w) (hinv : Inv w) (hm : Move w l w') (ht : l.tid = .main)
    (hidle : w.sending l.tid = none) : Turns w' := by
  have hmove := hm
  cases hm with
  | wrote hs | sendFail hs => exact absurd (hs.symm.trans hidle) (by simp)
  | @accept fd ip hs hpc hfd =>
    refine h.next hinv hmove rfl hs (fun c hc => ?_) fun e he => ?_
    · obtain rfl : w.nextConn = c := Option.some.inj hc
      have hfresh := hinv.core.unborn w.nextConn (Nat.le_refl _)
      exact ⟨rfl, h.fresh _ hfresh⟩
    · obtain rfl := (List.cons.inj he).1
      trivial
  | acceptFail hs hpc =>
    exact h
  | @recvFirst c fd ip pkt hs hpc =>
    obtain ⟨hdescr, -⟩ := hinv.own_descr hpc rfl rfl
    exact h.speak hinv hmove hpc hs rfl hs rfl hdescr rfl (by split <;> rfl)
      (fun hk => ⟨c, hdescr, hk.2⟩) fun _ _ _ _ => knows_first
  | @recvFirstFail c fd ip hs hpc =>
    obtain ⟨hdescr, -⟩ := hinv.own_descr hpc rfl rfl
    exact h.speak hinv hmove hpc hs rfl hs rfl hdescr rfl rfl
      (fun hk => ⟨c, hdescr, hk.2⟩) fun _ _ _ _ => ⟨rfl, rfl⟩
  | @add c fd ip pkt now hs hpc hm hnum hdup =>
    refine h.aside hinv hmove hpc hs (a := some ⟨fd, registerReply 0 pkt, 0, .register 0⟩) rfl
      (by simp [World.emit, World.call]) rfl rfl rfl trivial fun c' hc' hknow => ?_
    obtain rfl : c = c' := Option.some.inj hc'
    refine knows_answered hknow ⟨fun _ => ⟨addSlot w.table, newCliente pkt.senderPtr ip fd now,
      ?_⟩, fun _ => rfl⟩
    simp [World.emit, phase_cons, Event.advance]
  | @refuse c fd ip pkt now rc hs hpc hm hrc h0 =>
    refine h.aside hinv hmove hpc hs (a := some ⟨fd, registerReply rc pkt, 0, .register rc⟩) rfl
      (by simp [World.emit, World.call]) rfl rfl rfl trivial fun c' hc' hknow => ?_
    obtain rfl : c = c' := Option.some.inj hc'
    refine knows_answered hknow ⟨fun hz => absurd hz h0, ?_⟩
    rintro ⟨i, r, hph⟩
    exact absurd ((hinv.expects hpc rfl).1.symm.trans hph) (by simp)
  | @check c fd hs hpc hm =>
    refine h.aside hinv hmove hpc hs rfl hs rfl rfl (by split <;> rfl) trivial
      fun c' hc' hknow => ?_
    obtain rfl : c = c' := Option.some.inj hc'
    exact knows_checked hknow (hinv.check_found hpc)
  | spawn hs hpc =>
    exact h.spawn hinv hs hpc
  | @closeFirst c fd hs hpc =>
    have hover := (h.knows hpc rfl hs).2
    refine h.next hinv hmove (q := .accept) rfl hs (fun c' hc' => by cases hc') fun e he => ?_
    obtain rfl := (List.cons.inj he).1
    exact hover
  | _ => cases ht

/-- The monitor has no conversation. -/
theorem move_monitor (h : Turns w) (hinv : Inv w) (hm : Move w l w') (ht : l.tid = .monitor)
    (hidle : w.sending l.tid = none) : Turns w' := by
  have hmove := hm
  cases hm with
  | wrote hs | sendFail hs => exact absurd (hs.symm.trans hidle) (by simp)
  | wake hs hpc | sweepMark hs hpc | sweepSkip hs hpc =>
    refine h.next hinv hmove rfl rfl (fun c hc => by cases hc) fun e he => ?_
    exact absurd he (List.cons_ne_self _ _).symm
  | sweepStart hs hpc | sweepEnd hs hpc =>
    refine h.next hinv hmove rfl rfl (fun c hc => by cases hc) fun e he => ?_
    obtain rfl := (List.cons.inj he).1
    trivial
  | _ => cases ht

/-- What a client's thread receives. -/
theorem move_receive (h : Turns w) (hinv : Inv w) (hm : Move w l w') {fd : ℤ}
    (hidle : w.sending l.tid = none) (hrecv : w.pc l.tid = .recv fd) : Turns w' := by
  have hmove := hm
  cases hm with
  | wrote hs | sendFail hs => exact absurd (hs.symm.trans hidle) (by simp)
  | @recvActivity _ _ pkt hs hpc hcmd =>
    have hact : pkt.command ∈ activeCommands := by simpa [activeCommands] using hcmd
    refine h.speak hinv hmove hpc hs rfl hs rfl rfl rfl rfl id fun _ _ u _ => ?_
    exact ⟨rfl, turn_received (served_of_active hact).1, hact⟩
  | @recvQuery _ _ pkt hs hpc hcmd =>
    have hserved : pkt.command ∈ servedCommands ∧ pkt.command ≠ cmdLogout := by
      rcases hcmd with hc | hc <;> rw [hc] <;> decide
    refine h.speak hinv hmove hpc hs rfl hs rfl rfl rfl rfl id fun _ _ u _ => ?_
    exact ⟨hserved.1, hserved.2, false, turn_received hserved.1⟩
  | @recvLogout _ fd pkt hs hpc hcmd =>
    refine h.speak hinv hmove hpc hs (a := some ⟨fd, handleLogout pkt, 0, .reply pkt⟩) rfl
      (by simp [World.emit, World.call]) rfl rfl rfl rfl id fun _ _ u _ => ?_
    exact ⟨pkt, false, rfl, turn_received (by rw [hcmd]; decide), hcmd⟩
  | @recvIgnored c fd pkt hs hpc hcmd =>
    exact h.speak hinv hmove hpc hs (q := .recv fd) (by simp [World.emit, ← hpc]) hs rfl rfl rfl
      rfl id fun _ _ u hk => (turn_ignored hcmd).trans hk
  | recvFail hs hpc =>
    exact h.speak hinv hmove hpc hs rfl hs rfl rfl rfl rfl id fun _ _ u _ => rfl
  | fanoutSend _ hpc hf | fanoutSkip _ hpc hf | fanoutEnd _ hpc hf =>
    cases hf <;> cases hpc.symm.trans hrecv
  | _ => simp_all

/-- How a client's thread handles a packet. -/
theorem move_handle (h : Turns w) (hinv : Inv w) (hm : Move w l w') {fd : ℤ} {pkt : ChatPacket}
    (hidle : w.sending l.tid = none)
    (hwork : w.pc l.tid = .touch fd pkt ∨ w.pc l.tid = .handle fd pkt) : Turns w' := by
  have hmove := hm
  cases hm with
  | wrote hs | sendFail hs => exact absurd (hs.symm.trans hidle) (by simp)
  | @touch c fd pkt now hs hpc hm hre =>
    exact h.quiet hinv hmove hpc hs (q := .handle fd pkt) rfl hs rfl rfl
      fun _ _ _ hk => knows_touched hk
  | @reactivate c fd pkt now hs hpc hm hre =>
    exact h.quiet hinv hmove hpc hs (a := some ⟨fd, reactivationNotice, 0, .reactivation⟩) rfl
      (by simp [World.call]) rfl rfl fun _ _ _ hk => knows_reactivated hk _
  | @broadcast c fd pkt hs hpc hm hcmd =>
    refine h.speak hinv hmove hpc hs rfl hs rfl rfl rfl rfl (fun hk => ⟨hcmd, hk.2.2⟩)
      fun _ _ _ _ => ⟨rfl, by simp⟩
  | @direct c fd pkt i r hs hpc hm hcmd hfind hr =>
    refine h.speak hinv hmove hpc hs (a := some ⟨r.sockfd, handleDirect pkt, 0, .direct pkt i⟩) rfl
      (by simp [World.call]) rfl rfl rfl rfl (fun hk => ⟨hcmd, hk.2.2⟩)
      fun _ _ _ _ => ⟨pkt, rfl, ?_⟩
    rintro s ⟨⟩
    exact ⟨i, rfl⟩
  | @directMissing c fd pkt hs hpc hm hcmd =>
    exact h.quiet hinv hmove hpc hs (a := some ⟨fd, directError pkt, 0, .reply pkt⟩) rfl
      (by simp [World.call]) rfl rfl fun _ _ _ hk => knows_reply hk (by rw [hcmd]; decide) _
  | @status c fd pkt hs hpc hm hcmd =>
    exact h.quiet hinv hmove hpc hs (a := some ⟨fd, (handleStatus w.table pkt).2, 0, .reply pkt⟩)
      rfl (by simp [World.call]) rfl rfl fun _ _ _ hk => knows_reply hk (by rw [hcmd]; decide) _
  | @list c fd pkt hs hpc hm hcmd =>
    exact h.quiet hinv hmove hpc hs (a := some ⟨fd, handleList w.table pkt, 0, .reply pkt⟩) rfl
      (by simp [World.call]) rfl rfl fun _ _ _ hk => knows_reply hk (by rw [hcmd]; decide) _
  | @info c fd pkt hs hpc hm hcmd =>
    exact h.quiet hinv hmove hpc hs (a := some ⟨fd, handleInfo w.table pkt, 0, .reply pkt⟩) rfl
      (by simp [World.call]) rfl rfl
      fun _ _ _ hk => knows_reply hk (fun hb => hcmd (by simp [hb])) _
  | fanoutSend _ hpc hf | fanoutSkip _ hpc hf | fanoutEnd _ hpc hf =>
    cases hf <;> rcases hwork with hw | hw <;> cases hpc.symm.trans hw
  | _ => simp_all

/-- How it ends. -/
theorem move_cleanup (h : Turns w) (hinv : Inv w) (hm : Move w l w')
    (hidle : w.sending l.tid = none) (fd : ℤ) {username : CharArray 32}
    (hend : w.pc l.tid = .resolve fd username ∨ w.pc l.tid = .remove fd username ∨
      w.pc l.tid = .close fd username ∨ w.pc l.tid = .notify username) : Turns w' := by
  have hmove := hm
  cases hm with
  | wrote hs | sendFail hs => exact absurd (hs.symm.trans hidle) (by simp)
  | resolve hs hpc | resolved hs hpc =>
    exact h.quiet hinv hmove hpc hs rfl hs rfl rfl fun _ _ _ hk => ⟨rfl, hk⟩
  | @remove c fd username hs hpc hm =>
    exact h.aside hinv hmove hpc hs rfl hs rfl rfl rfl (h.knows (c := c) hpc rfl hs).2
      fun _ _ hk => hk
  | @close c fd username hs hpc =>
    refine h.aside hinv hmove hpc hs rfl hs rfl rfl (by split <;> rfl)
      (h.knows (c := c) hpc rfl hs).2 fun _ _ hk => ?_
    split <;> exact hk
  | notify hs hpc hm =>
    exact h.speak hinv hmove hpc hs rfl hs rfl rfl rfl rfl (fun hk => hk.2)
      fun _ _ _ hk => ⟨hk.2, by simp⟩
  | fanoutSend _ hpc hf | fanoutSkip _ hpc hf | fanoutEnd _ hpc hf =>
    cases hf <;> simp_all
  | _ => simp_all

/-- **Every rule keeps the turns.** -/
theorem move (h : Turns w) (hinv : Inv w) (hprov : Provenance w) (hm : Move w l w') :
    Turns w' := by
  have hmove := hm
  cases hm with
  | wrote hs | sendFail hs =>
    exact h.move_send hinv hprov hmove (by simp [hs])
  | accept hs | acceptFail hs | recvFirst hs | recvFirstFail hs | add hs | refuse hs | check hs
  | spawn hs | closeFirst hs =>
    exact h.move_main hinv hmove rfl hs
  | wake hs | sweepStart hs | sweepMark hs | sweepSkip hs | sweepEnd hs =>
    exact h.move_monitor hinv hmove rfl hs
  | recvActivity hs hpc | recvQuery hs hpc | recvLogout hs hpc | recvIgnored hs hpc
  | recvFail hs hpc =>
    exact h.move_receive hinv hmove hs hpc
  | touch hs hpc | reactivate hs hpc =>
    exact h.move_handle hinv hmove hs (.inl hpc)
  | broadcast hs hpc | direct hs hpc | directMissing hs hpc | status hs hpc | list hs hpc
  | info hs hpc =>
    exact h.move_handle hinv hmove hs (.inr hpc)
  | @fanoutSend c p i msg site next done hs hpc hf hi hact =>
    refine h.quiet hinv hmove hpc hs (a := some ⟨(w.table.at i).sockfd, msg, 0, site i⟩) rfl
      (by simp [World.call]) rfl (hf.keeps_conn _).1 fun _ _ _ hk => ?_
    cases hf with
    | broadcasting => exact ⟨hk.1, by rintro s ⟨⟩; exact ⟨i, rfl⟩⟩
    | notifying => exact ⟨hk.1, by rintro s ⟨⟩; exact ⟨_, i, rfl⟩⟩
  | fanoutSkip hs hpc hf =>
    refine h.quiet hinv hmove hpc hs rfl hs rfl (hf.keeps_conn _).1 fun _ _ _ hk => ?_
    cases hf <;> exact hk
  | fanoutEnd hs hpc hf =>
    cases hf with
    | broadcasting =>
      refine h.speak hinv hmove hpc hs rfl hs rfl rfl rfl rfl (fun hk => .inl ⟨_, hk.1⟩)
        fun _ _ _ hk => ?_
      rw [hk.1]
      rfl
    | notifying =>
      refine h.speak hinv hmove hpc hs rfl hs rfl rfl rfl rfl (fun hk => .inr hk.1)
        fun _ _ _ hk => ⟨rfl, ?_⟩
      rw [hk.1]
      rfl
  | directUnlock hs hpc =>
    refine h.speak hinv hmove hpc hs rfl hs rfl rfl rfl rfl (fun hk => ?_) fun _ _ _ hk => ?_
    · obtain ⟨req, hrelay, -⟩ := hk
      exact .inl ⟨req, hrelay⟩
    · obtain ⟨req, hrelay, -⟩ := hk
      rw [hrelay]
      rfl
  | resolve hs hpc | resolved hs hpc =>
    exact h.move_cleanup hinv hmove hs _ (.inl hpc)
  | remove hs hpc =>
    exact h.move_cleanup hinv hmove hs _ (.inr (.inl hpc))
  | close hs hpc =>
    exact h.move_cleanup hinv hmove hs _ (.inr (.inr (.inl hpc)))
  | notify hs hpc =>
    exact h.move_cleanup hinv hmove hs 0 (.inr (.inr (.inr hpc)))

end Turns

theorem turns_of_reachable (h : Reachable step World.init w) :
    Inv w ∧ Provenance w ∧ Turns w :=
  h.invariant (I := fun w => Inv w ∧ Provenance w ∧ Turns w) ⟨.init, .init, .init⟩
    fun _ _ _ ⟨hinv, hprov, hturns⟩ hs =>
      have hm := move_of_step hs
      ⟨hinv.move hm, hprov.move hinv hm, hturns.move hinv hprov hm⟩

/-- The end of a call in turn leaves no conversation opening. -/
theorem Sending.InTurn.ne_opening {s : Sending} {u : Turn} (h : s.InTurn u) :
    u ≠ .opening ∧ s.site.turn u ≠ .opening := by
  unfold Sending.InTurn at h
  rcases hsite : s.site with rc | - | req | ⟨req, i⟩ | ⟨req, i⟩ | ⟨name, i⟩ | i <;> rw [hsite] at h
  · obtain ⟨pkt, rfl, -⟩ := h
    refine ⟨by simp, ?_⟩
    simp only [Site.turn]
    split <;> simp
  · obtain ⟨pkt, rfl, -⟩ := h
    exact ⟨by simp, by simp [Site.turn]⟩
  · obtain ⟨⟨noticed, rfl⟩, -⟩ := h
    refine ⟨by simp, ?_⟩
    simp only [Site.turn]
    split <;> simp
  · obtain rfl : u = .relaying req := h
    exact ⟨by simp, by simp [Site.turn]⟩
  · obtain rfl : u = .relaying req := h
    exact ⟨by simp, by simp [Site.turn]⟩
  · obtain rfl : u = .over := h
    exact ⟨by simp, by simp [Site.turn]⟩
  · exact h.elim

/-- **A conversation opens once**: after its first event it is under way. -/
theorem turn_ne_opening (he : InTurn e h) (hspeak : e.speaker? = some c) :
    turn (e :: h) c ≠ .opening := by
  rw [turn_cons_self hspeak]
  cases e with
  | received t fd peer pkt =>
    rcases t with - | - | d
    · simp only [Event.turn]
      split <;> simp
    · cases hspeak
    · obtain rfl : d = c := Option.some.inj hspeak
      have hlisten : turn h d = .listening := he
      simp only [Event.turn, hlisten]
      split <;> simp
  | recvFailed t fd peer => simp [Event.turn]
  | locked t k cause =>
    rcases t with - | - | d
    · cases hspeak
    · cases hspeak
    · obtain rfl : d = c := Option.some.inj hspeak
      rcases cause with req | req | name | now
      · simp [Event.turn]
      · simp [Event.turn]
      · have hover : turn h d = .over := he
        simp [Event.turn, hover]
      · have hover : turn h d = .over := he
        simp [Event.turn, hover]
  | unlocked t k =>
    rcases t with - | - | d
    · cases hspeak
    · cases hspeak
    · obtain rfl : d = c := Option.some.inj hspeak
      rcases he with ⟨req, hrelay⟩ | hover
      · simp [Event.turn, hrelay]
      · simp [Event.turn, hover]
  | send t s peer written k =>
    have hsend : s.InTurn (turn h c) := by
      rcases t with - | - | d
      · obtain ⟨c', rc, rfl, hsite, hsend⟩ := he
        obtain rfl : c' = c := by simpa [Event.speaker?, hsite, Site.slot?] using hspeak
        exact hsend
      · cases hspeak
      · obtain rfl : d = c := Option.some.inj hspeak
        exact he
    simp only [Event.turn]
    split
    · exact hsend.ne_opening.2
    · exact hsend.ne_opening.1
  | _ => cases hspeak

/-! ### Requests and replies -/

/-- The requests that are answered with one reply, whatever the table says. -/
def repliedCommands : List UInt8 := [cmdStatus, cmdList, cmdInfo, cmdLogout]

/-- Those received on connection `c`, newest first. -/
def asked (c : ℕ) : List Event → List ChatPacket
  | [] => []
  | .received (.client d) _ _ pkt :: h =>
    if d = c ∧ pkt.command ∈ repliedCommands then pkt :: asked c h else asked c h
  | _ :: h => asked c h

/-- Those whose reply has been sent, or given up, newest first. -/
def answered (c : ℕ) : List Event → List ChatPacket
  | [] => []
  | .send (.client d) s _ written _ :: h =>
    match s.site with
    | .reply req =>
      if d = c ∧ s.ends written = true ∧ req.command ∈ repliedCommands then req :: answered c h
      else answered c h
    | _ => answered c h
  | _ :: h => answered c h

/-- The reply that is due. -/
def Turn.due : Turn → List ChatPacket
  | serving req _ => if req.command ∈ repliedCommands then [req] else []
  | _ => []

theorem Turn.due_serving {req : ChatPacket} {noticed : Bool} :
    (Turn.serving req noticed).due = if req.command ∈ repliedCommands then [req] else [] := rfl

/-- The end of a call pays what is due, or nothing is. -/
theorem due_turn {s : Sending} {u : Turn} (h : s.InTurn u) :
    u.due = (match s.site with
      | .reply req => if req.command ∈ repliedCommands then [req] else []
      | _ => []) ++ (s.site.turn u).due := by
  unfold Sending.InTurn at h
  rcases hsite : s.site with rc | - | req | ⟨req, i⟩ | ⟨req, i⟩ | ⟨name, i⟩ | i <;> rw [hsite] at h
  · obtain ⟨pkt, rfl, -⟩ := h
    simp only [Site.turn]
    split <;> rfl
  · obtain ⟨pkt, rfl, -⟩ := h
    rfl
  · obtain ⟨⟨noticed, rfl⟩, -⟩ := h
    have hnone : (Turn.due (if req.command = cmdLogout then .over else .listening)) = [] := by
      split <;> rfl
    simp only [Site.turn, hnone, List.append_nil]
    rfl
  · obtain rfl : u = .relaying req := h
    rfl
  · obtain rfl : u = .relaying req := h
    rfl
  · obtain rfl : u = .over := h
    rfl
  · exact h.elim

theorem asked_cons_other (he : e.speaker? ≠ some c) : asked c (e :: h) = asked c h := by
  rcases e with - | ⟨t, fd, peer, pkt⟩ | - | - | - | - | - | - | - | - | - <;> try rfl
  rcases t with - | - | d <;> try rfl
  exact if_neg fun hd => he (congrArg some hd.1)

theorem answered_cons_of_ne (he : e.speaker? ≠ some c) : answered c (e :: h) = answered c h := by
  rcases e with - | - | - | - | - | - | - | - | - | - | ⟨t, s, peer, written, k⟩ <;> try rfl
  rcases t with - | - | d <;> try rfl
  simp only [answered]
  split
  · exact if_neg fun hd => he (congrArg some hd.1)
  · rfl

/-- A `send()` that is in turn. -/
theorem due_send {s : Sending} {u : Turn} (written : Option ℕ) (hin : s.InTurn u) :
    u.due = (match s.site with
      | .reply req =>
        if s.ends written = true ∧ req.command ∈ repliedCommands then [req] else []
      | _ => []) ++ ((if s.ends written then s.site.turn u else u).due) := by
  rcases hend : s.ends written with - | -
  · rcases s.site <;> simp
  · rw [due_turn hin]
    rcases s.site <;> simp

/-- **Requests and replies alternate**: the requests received on a connection
are those answered there, in order, behind the one that is due. -/
theorem asked_eq (hin : Always InTurn h) (c : ℕ) :
    asked c h = (turn h c).due ++ answered c h := by
  induction h with
  | nil => rfl
  | cons e h ih =>
    obtain ⟨he, hrest⟩ := hin
    have ih := ih hrest
    by_cases hspeak : e.speaker? = some c
    · rw [turn_cons_self hspeak]
      cases e with
      | received t fd peer pkt =>
        rcases t with - | - | d
        · -- the first packet asks for nothing that is counted here
          obtain ⟨c', hpeer, hopen⟩ := he
          obtain rfl : c' = c := Option.some.inj (hpeer.symm.trans hspeak)
          rw [hopen] at ih
          simp only [Event.turn, asked, answered, ih]
          split <;> rfl
        · cases hspeak
        · obtain rfl : d = c := Option.some.inj hspeak
          have hlisten : turn h d = .listening := he
          rw [hlisten] at ih ⊢
          have ih : asked d h = answered d h := ih
          by_cases hreplied : pkt.command ∈ repliedCommands
          · have hserved : pkt.command ∈ servedCommands := by
              simp only [repliedCommands, List.mem_cons, List.not_mem_nil, or_false] at hreplied
              rcases hreplied with hst | hl | hi | ho <;> simp [servedCommands, *]
            simp [asked, answered, Event.turn, Turn.due, hreplied, hserved, ih]
          · by_cases hserved : pkt.command ∈ servedCommands <;>
              simp [asked, answered, Event.turn, Turn.due, hreplied, hserved, ih]
      | recvFailed t fd peer =>
        have hnone : (turn h c).due = [] := by
          rcases t with - | - | d
          · obtain ⟨c', hpeer, hopen⟩ := he
            obtain rfl : c' = c := Option.some.inj (hpeer.symm.trans hspeak)
            rw [hopen]
            rfl
          · cases hspeak
          · obtain rfl : d = c := Option.some.inj hspeak
            rw [show turn h d = .listening from he]
            rfl
        rw [hnone] at ih
        exact ih
      | locked t k cause =>
        rcases t with - | - | d
        · cases hspeak
        · cases hspeak
        · obtain rfl : d = c := Option.some.inj hspeak
          -- a relaying section owes no reply
          rcases cause with req | req | name | now
          · obtain ⟨hcmd, noticed, hserving⟩ := he
            rw [hserving, Turn.due_serving, if_neg (by rw [hcmd]; decide)] at ih
            exact ih
          · obtain ⟨hcmd, noticed, hserving⟩ := he
            rw [hserving, Turn.due_serving, if_neg (by rw [hcmd]; decide)] at ih
            exact ih
          · exact ih
          · exact ih
      | unlocked t k =>
        rcases t with - | - | d
        · cases hspeak
        · cases hspeak
        · obtain rfl : d = c := Option.some.inj hspeak
          rcases he with ⟨req, hrelay⟩ | hover
          · rw [hrelay] at ih ⊢
            exact ih
          · rw [hover] at ih ⊢
            exact ih
      | send t s peer written k =>
        rcases t with - | - | d
        · obtain ⟨c', rc, rfl, hsite, hsend⟩ := he
          simp only [Event.speaker?, hsite, Site.slot?, if_pos, Option.some.injEq] at hspeak
          obtain rfl := hspeak
          have hdue := due_send written hsend
          simp only [hsite, List.nil_append] at hdue
          rw [hdue] at ih
          simp only [Event.turn, hsite]
          exact ih
        · cases hspeak
        · obtain rfl : d = c := Option.some.inj hspeak
          have hsend : s.InTurn (turn h d) := he
          rw [due_send written hsend] at ih
          simp only [Event.turn, asked, answered, ih]
          rcases hsite : s.site with rc | - | req | ⟨req, i⟩ | ⟨req, i⟩ | ⟨name, i⟩ | i <;> try rfl
          by_cases hpaid : s.ends written = true ∧ req.command ∈ repliedCommands
          · -- the turn a reply passes on owes nothing
            have hnone : ((Site.reply req).turn (turn h d)).due = [] := by
              simp only [Site.turn]
              split <;> rfl
            simp [hpaid, hnone]
          · simp [hpaid]
      | _ => cases hspeak
    · rw [turn_cons_of_ne hspeak, asked_cons_other hspeak, answered_cons_of_ne hspeak]
      exact ih

/-- Every call of `send_packet` sends what its place in the code makes. -/
theorem makes_of_sent (hprov : Provenance w) {s : Sending} {peer written : Option ℕ} {k : ℕ}
    (hmem : .send t s peer written k ∈ w.log) : s.site.Makes s.pkt := by
  obtain ⟨newer, older, hlog⟩ := List.append_of_mem hmem
  exact (always_iff.mp hprov.sent newer _ older hlog t s peer written k rfl).1

/-- **The conversation**: in every run every event is in turn, whatever the
other threads do in between; the requests answered on a connection are those
received there, in order, but for the one its thread is busy with; and when
the thread waits for a packet, none is left out. -/
theorem conversation_of_reachable (h : Reachable step World.init w) :
    Always InTurn w.log ∧
    (∀ t s peer written k, .send t s peer written k ∈ w.log → s.site.Makes s.pkt) ∧
    (∀ c, asked c w.log = (turn w.log c).due ++ answered c w.log) ∧
    ∀ c fd, w.pc (.client c) = .recv fd → w.sending (.client c) = none →
      asked c w.log = answered c w.log := by
  obtain ⟨-, hprov, hturns⟩ := turns_of_reachable h
  refine ⟨hturns.always, fun t s peer written k hmem => makes_of_sent hprov hmem,
    asked_eq hturns.always, fun c fd hpc hs => ?_⟩
  have hlisten : turn w.log c = .listening := hturns.knows (c := c) hpc rfl hs
  rw [asked_eq hturns.always, hlisten]
  rfl

/-- Alice asks for the list and then about herself; the second reply is due. -/
def asking : List Label :=
  joining 4 (ip 1) (registerPacket alice) ++
    [⟨.client 0, .packet (clientPacket cmdList alice [] [])⟩] ++ goes 0 1 ++ [sends 0] ++
    [⟨.client 0, .packet (clientPacket cmdInfo alice alice [])⟩]

theorem conversation_of_reachable_asking : ∃ w, Reachable step World.init w ∧
    asked 0 w.log = [clientPacket cmdInfo alice alice [], clientPacket cmdList alice [] []] ∧
    answered 0 w.log = [clientPacket cmdList alice [] []] ∧
    asked 0 w.log = (turn w.log 0).due ++ answered 0 w.log := by
  have hexec : (exec step World.init asking).any (fun w =>
      asked 0 w.log == [clientPacket cmdInfo alice alice [], clientPacket cmdList alice [] []] &&
        answered 0 w.log == [clientPacket cmdList alice [] []]) = true := by
    decide +kernel
  obtain ⟨w, hw, hp⟩ := exists_reachable hexec
  simp only [Bool.and_eq_true, beq_iff_eq] at hp
  exact ⟨w, hw, hp.1, hp.2, (conversation_of_reachable hw).2.2.1 0⟩

end ChatSystem
