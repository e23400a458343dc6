/-
ChatSystem/Feeds.lean

The server among its peers.  A *feed* is what the server can tell of the far end
of a connection: the name it speaks for, and the bytes it has written so far.
What kind of program is there, a terminal client or a browser behind the bridge,
does not matter here:

    feed 0 ──stream 0──▸ ┌────────┐
    feed 1 ──stream 1──▸ │ server │
        ⋮                └────────┘

`Attached` says how the server stands to honest feeds, which register first and
put their own name into every packet.  It is kept when the server accepts a
connection, reads the next packet of a stream or does anything else, and when the
streams grow; a system of server and clients gets its invariant from these four.

What follows from it is what the server may rely on: every receive keeps to the
names (`Attached.sendsOwnName`), every record is that of the far end of its
connection, and messages and notices name their users rightly.
-/
import ChatSystem.Authenticity
import ChatSystem.OwnNames
import ChatSystem.Streams
import ChatSystem.Turns

namespace ChatSystem

open CStr Lts

/-! ### The server's side -/

/-- The descriptor a thread reads from. -/
def Pc.reads? : Pc → Option ℤ
  | recvFirst _ fd _ | recv fd => some fd
  | _ => none

/-- The packets received on connection `c`, oldest first. -/
def heard (c : ℕ) : List Event → List ChatPacket
  | [] => []
  | .received _ _ peer pkt :: h => if peer = some c then heard c h ++ [pkt] else heard c h
  | _ :: h => heard c h

section Server

variable {w w' : World} {l : Label}

theorem heard_cons_of_ne {e : Event} (he : ∀ t fd peer pkt, e ≠ .received t fd peer pkt) (c : ℕ)
    (h : List Event) : heard c (e :: h) = heard c h := by
  cases e with
  | received t fd peer pkt => exact absurd rfl (he t fd peer pkt)
  | _ => rfl

/-- A step receives the packet of its label, or none. -/
theorem Move.received_cases (hm : Move w l w') :
    (∃ fd pkt, l.answer = .packet pkt ∧ (w.pc l.tid).reads? = some fd ∧
      w'.log = .received l.tid fd (w.descr fd) pkt :: w.log) ∨
    (∀ pkt, l.answer ≠ .packet pkt) ∧ (w'.log = w.log ∨ ∃ e, w'.log = e :: w.log ∧
      ∀ t fd peer pkt, e ≠ .received t fd peer pkt) := by
  cases hm with
  | recvFirst hs hpc | recvActivity hs hpc | recvQuery hs hpc | recvLogout hs hpc
  | recvIgnored hs hpc => exact .inl ⟨_, _, rfl, by rw [hpc]; rfl, rfl⟩
  | _ =>
    refine .inr ⟨by simp, ?_⟩
    first | exact .inl rfl | exact .inr ⟨_, rfl, by simp⟩

/-- What `main` does with the first packet of a connection. -/
theorem Move.recvFirst_cases {pkt : ChatPacket} (hm : Move w ⟨.main, .packet pkt⟩ w') :
    ∃ c fd ip, w.pc .main = .recvFirst c fd ip ∧ w.sending .main = none ∧
      (w'.pc .main = .register c fd ip pkt ∨ w'.pc .main = .closeFirst c fd) := by
  cases hm with
  | @recvFirst c fd ip pkt hs hpc =>
    refine ⟨c, fd, ip, hpc, hs, ?_⟩
    simp only [World.emit, World.goto, Function.update_self]
    split
    · exact .inl rfl
    · exact .inr rfl

/-- Only `accept` makes a connection. -/
theorem Move.nextConn_eq (hm : Move w l w') (hl : ∀ fd ip, l.answer ≠ .conn fd ip) :
    w'.nextConn = w.nextConn := by
  cases hm with
  | accept => exact absurd rfl (hl _ _)
  | close hs hpc => rfl
  | _ => rfl

/-- What is on the wire stays there. -/
theorem Move.wire_grows (hm : Move w l w') (c : ℕ) : ∃ more, w'.wire c = w.wire c ++ more := by
  rcases hm.transmits with ⟨s, c', n, -, -, -, -, -, hwire, -⟩ | ⟨s, -, -, hwire, -⟩ |
    ⟨o, -, hwire, -⟩
  · rw [hwire]
    rcases eq_or_ne c c' with rfl | hne
    · exact ⟨_, Function.update_self ..⟩
    · exact ⟨[], by rw [Function.update_of_ne hne, List.append_nil]⟩
  · exact ⟨[], by rw [hwire, List.append_nil]⟩
  · exact ⟨[], by rw [hwire, List.append_nil]⟩

/-- A thread reads from the connection it is in charge of. -/
theorem conn_of_reads (hinv : Inv w) {t : Tid} {c : ℕ}
    (hpeer : (w.pc t).reads?.bind w.descr = some c) :
    (w.pc t).conn? t = some c ∧ (t = .main ∨ t = .client c) := by
  obtain ⟨fd, hfd, hdescr⟩ := Option.bind_eq_some_iff.mp hpeer
  have hrun := (hinv.threads t).runBy
  rcases hp : w.pc t <;> rw [hp] at hfd hrun <;> cases hfd
  case recvFirst c' ip =>
    obtain ⟨hdescr', -⟩ := hinv.own_descr hp rfl rfl
    obtain rfl : c' = c := Option.some.inj (hdescr'.symm.trans hdescr)
    exact ⟨rfl, .inl hrun⟩
  case recv =>
    obtain ⟨d, rfl⟩ := hrun
    obtain ⟨hdescr', -⟩ := hinv.own_descr hp rfl rfl
    obtain rfl : d = c := Option.some.inj (hdescr'.symm.trans hdescr)
    exact ⟨rfl, .inr rfl⟩

variable {h : List Event} {c : ℕ}

/-- A packet is part of the conversation on the connection it came from. -/
theorem speaker_of_received {t : Tid} {fd : ℤ} {peer : Option ℕ} {pkt : ChatPacket}
    (hall : Allowed (.received t fd peer pkt) h) :
    (Event.received t fd peer pkt).speaker? = peer := by
  obtain ⟨c, rfl, rfl | rfl, -⟩ := hall <;> rfl

/-- Before the first packet nothing has been heard. -/
theorem heard_of_opening (hall : Always Allowed h) (hin : Always InTurn h)
    (hopen : turn h c = .opening) : heard c h = [] := by
  induction h with
  | nil => rfl
  | cons e h ih =>
    by_cases hspeak : e.speaker? = some c
    · exact absurd hopen (turn_ne_opening hin.1 hspeak)
    · rw [turn_cons_of_ne hspeak] at hopen
      have hrest := ih hall.2 hin.2 hopen
      cases e with
      | received t fd peer pkt =>
        rw [speaker_of_received hall.1] at hspeak
        rw [heard, if_neg hspeak, hrest]
      | _ => exact hrest

/-- The requests are among the packets heard. -/
theorem asked_reverse (hall : Always Allowed h)
    (hfirst : ∀ fd peer pkt, .received .main fd peer pkt ∈ h → pkt.command = cmdRegister) :
    (asked c h).reverse = (heard c h).filter (·.command ∈ repliedCommands) := by
  induction h with
  | nil => rfl
  | cons e h ih =>
    have ih := ih hall.2 fun fd peer pkt hmem => hfirst fd peer pkt (List.mem_cons_of_mem _ hmem)
    cases e with
    | received t fd peer pkt =>
      obtain ⟨c', rfl, rfl | rfl, -⟩ := hall.1
      · have hcmd := hfirst fd _ pkt List.mem_cons_self
        simp only [asked, heard]
        split
        · rw [List.filter_append, ih]
          simp [hcmd, repliedCommands, cmdRegister, cmdStatus, cmdList, cmdInfo, cmdLogout]
        · exact ih
      · by_cases hc : c' = c
        · subst hc
          by_cases hcmd : pkt.command ∈ repliedCommands <;>
            simp [asked, heard, hcmd, List.filter_append, ih]
        · simp [asked, heard, hc, ih]
    | _ => exact ih

end Server

theorem heard_append (c : ℕ) (newer older : List Event) :
    heard c older <+: heard c (newer ++ older) := by
  induction newer with
  | nil => exact List.prefix_rfl
  | cons e newer ih =>
    cases e with
    | received t fd peer pkt =>
      simp only [List.cons_append, heard]
      split
      · exact ih.trans (List.prefix_append _ _)
      · exact ih
    | _ => exact ih

/-- The last packet of a connection has been heard there. -/
theorem heard_of_lastPacket {h : List Event} (hall : Always Allowed h) {c : ℕ} {pkt : ChatPacket}
    (hlast : lastPacket h c = some pkt) : pkt ∈ heard c h := by
  induction h with
  | nil => cases hlast
  | cons e h ih =>
    cases e with
    | received t fd peer pkt' =>
      have hmore : ∀ {pkt}, pkt ∈ heard c h → pkt ∈ heard c (.received t fd peer pkt' :: h) :=
        fun hmem => (heard_append c [_] h).subset hmem
      rcases t with - | - | d
      · exact hmore (ih hall.2 hlast)
      · exact hmore (ih hall.2 hlast)
      · obtain ⟨c', rfl, hserves, -⟩ := hall.1
        obtain rfl : d = c' := by simpa [Tid.Serves] using hserves
        rw [lastPacket] at hlast
        split at hlast
        case isTrue hc =>
          obtain rfl := Option.some.inj hlast
          simp [heard, hc]
        case isFalse => exact hmore (ih hall.2 hlast)
    | _ => exact ih hall.2 hlast

/-- The message the server makes of a packet. -/
def IsRelay (req pkt : ChatPacket) : Prop :=
  req.command = cmdBroadcast ∧ pkt = handleBroadcast req ∨
    req.command = cmdDirect ∧ pkt = handleDirect req

theorem IsRelay.sender {req pkt : ChatPacket} (h : IsRelay req pkt) :
    pkt.sender.str = (cstr req.senderPtr).take 31 := by
  rcases h with ⟨-, rfl⟩ | ⟨-, rfl⟩
  · rw [handleBroadcast, str_sender_relay]
  · rw [handleDirect, str_sender_relay]

/-- A `CMD_MSG` is made of the packet its thread received last, or at a place
where the server speaks for itself. -/
theorem relay_of_attributed {h : List Event} {t : Tid} {s : Sending} (ha : Attributed h t s)
    (hcmd : s.pkt.command = cmdMsg) :
    (s.site = .reactivation ∨ ∃ i, s.site = .inactivity i) ∨
      ∃ c req, t = .client c ∧ lastPacket h c = some req ∧ IsRelay req s.pkt := by
  obtain ⟨hmakes, hsite⟩ := ha
  have hmem := hmakes.command_mem
  rw [hcmd] at hmem
  cases hs : s.site <;> simp only [hs] at hmakes hsite hmem
  case reactivation => exact .inl (.inl rfl)
  case inactivity i => exact .inl (.inr ⟨i, rfl⟩)
  case broadcast req i =>
    obtain ⟨c, ht, hlast, hreq⟩ := hsite
    exact .inr ⟨c, req, ht, hlast, .inl ⟨hreq, hmakes⟩⟩
  case direct req i =>
    obtain ⟨c, ht, hlast, hreq⟩ := hsite
    exact .inr ⟨c, req, ht, hlast, .inr ⟨hreq, hmakes⟩⟩
  -- the others never make a `CMD_MSG`
  all_goals simp [Site.commands, cmdMsg, cmdOk, cmdError, cmdUserList, cmdUserInfo,
    cmdDisconnected] at hmem

/-- What the server says for itself says so. -/
theorem sender_of_own {site : Site} (hsite : site = .reactivation ∨ ∃ i, site = .inactivity i)
    {pkt : ChatPacket} (hmakes : site.Makes pkt) : pkt.sender.str = senderServer := by
  rcases hsite with rfl | ⟨i, rfl⟩
  · rw [show pkt = reactivationNotice from hmakes]
    decide
  · obtain ⟨username, rfl⟩ := hmakes
    rw [inactivityNotice, str_sender_fillPacket]
    decide

/-! ### Feeds -/

/-- The far end of a connection. -/
structure Feed where
  name : List UInt8
  stream : List UInt8

/-- It registers first, and keeps to its name. -/
structure Feed.Honest (f : Feed) : Prop where
  fits : f.name.length ≤ 31
  named : ∀ pkt ∈ packetsOf f.stream, cstr pkt.senderPtr = f.name
  registers : ∀ pkt, (packetsOf f.stream)[0]? = some pkt → pkt.command = cmdRegister

/-- The server, its peers, and the number of packets read from each. -/
structure Attached (w : World) (feeds : ℕ → Option Feed) (taken : ℕ → ℕ) : Prop where
  world : Reachable step World.init w
  unborn : ∀ c, w.nextConn ≤ c → feeds c = none
  honest : ∀ c f, feeds c = some f → f.Honest
  reads : ∀ c f, feeds c = some f → heard c w.log <+: packetsOf f.stream
  silent : ∀ c, feeds c = none → heard c w.log = []
  taken : ∀ c, taken c = (heard c w.log).length
  first : ∀ fd peer pkt, .received .main fd peer pkt ∈ w.log → pkt.command = cmdRegister
  registering : ∀ c fd ip pkt, w.pc .main = .register c fd ip pkt →
    ∃ f, feeds c = some f ∧ cstr pkt.senderPtr = f.name
  registered : ∀ c i r, .registered c i r ∈ w.log → ∃ f, feeds c = some f ∧ r.username.str = f.name

namespace Attached

theorem init : Attached World.init (fun _ => none) fun _ => 0 where
  world := ⟨[], .start⟩
  unborn := fun _ _ => rfl
  honest := fun c f h => by cases h
  reads := fun c f h => by cases h
  silent := fun _ _ => rfl
  taken := fun _ => rfl
  first := fun _ _ _ h => by cases h
  registering := fun _ _ _ _ h => by cases h
  registered := fun _ _ _ h => by cases h

variable {w w' : World} {l : Label} {feeds feeds' : ℕ → Option Feed} {taken : ℕ → ℕ}

/-- The first packet read from a connection is its REGISTER. -/
theorem command_first (h : Attached w feeds taken) {c : ℕ} {f : Feed} {pkt : ChatPacket}
    (hf : feeds c = some f) (hpkt : (packetsOf f.stream)[taken c]? = some pkt)
    (hopen : turn w.log c = .opening) : pkt.command = cmdRegister := by
  obtain ⟨hinv, -, hturns⟩ := turns_of_reachable h.world
  have hnone := heard_of_opening hinv.core.disciplined hturns.always hopen
  rw [h.taken c, hnone] at hpkt
  exact (h.honest c f hf).registers pkt hpkt

/-- The records are those of the users at the far ends. -/
theorem registered_next (h : Attached w feeds taken) (hm : Move w l w')
    (hkeep : ∀ c f, feeds c = some f → feeds' c = some f) (c i : ℕ) (r : Cliente)
    (hr : .registered c i r ∈ w'.log) : ∃ f, feeds' c = some f ∧ r.username.str = f.name := by
  rcases hm.registered_cases hr with hr | ⟨fd, ip, pkt, now, hpc, rfl⟩
  · obtain ⟨f, hf, hname⟩ := h.registered c i r hr
    exact ⟨f, hkeep c f hf, hname⟩
  · obtain ⟨f, hf, hname⟩ := h.registering c fd ip pkt hpc
    refine ⟨f, hkeep c f hf, ?_⟩
    rw [str_username_newCliente, hname, List.take_of_length_le (h.honest c f hf).fits]

/-- `main` accepts a connection. -/
theorem join (h : Attached w feeds taken) {fd : ℤ} {ip : List UInt8}
    (hw : step w ⟨.main, .conn fd ip⟩ = some w') {f : Feed} (hhonest : f.Honest)
    (hnew : feeds' w.nextConn = some f) (hold : ∀ c, c ≠ w.nextConn → feeds' c = feeds c) :
    Attached w' feeds' taken := by
  have hm := move_of_step hw
  have hnone : feeds w.nextConn = none := h.unborn _ (Nat.le_refl _)
  have hkeep : ∀ c f, feeds c = some f → feeds' c = some f := by
    intro c f hf
    rw [hold c, hf]
    rintro rfl
    rw [hnone] at hf
    cases hf
  have hregistered := h.registered_next hm hkeep
  obtain ⟨tr, hrun⟩ := h.world
  refine ⟨⟨_, hrun.step hw⟩, ?_, ?_, ?_, ?_, ?_, ?_, ?_, hregistered⟩
  all_goals cases hm
  · intro c hc
    have hlt : w.nextConn < c := hc
    rw [hold c hlt.ne']
    exact h.unborn c hlt.le
  · intro c f' hf'
    by_cases hc : c = w.nextConn
    · subst hc
      obtain rfl : f = f' := Option.some.inj (hnew.symm.trans hf')
      exact hhonest
    · rw [hold c hc] at hf'
      exact h.honest c f' hf'
  · intro c f' hf'
    show heard c w.log <+: _
    by_cases hc : c = w.nextConn
    · subst hc
      rw [h.silent _ hnone]
      exact List.nil_prefix
    · rw [hold c hc] at hf'
      exact h.reads c f' hf'
  · intro c hc
    show heard c w.log = []
    refine h.silent c ?_
    rwa [hold c] at hc
    rintro rfl
    rw [hnew] at hc
    cases hc
  · exact h.taken
  · intro fd' peer pkt hmem
    exact h.first fd' peer pkt ((List.mem_cons.mp hmem).resolve_left (by simp))
  · intro c fd' ip' pkt hpc
    simp [World.emit, World.goto] at hpc

/-- The server reads the next packet of a stream. -/
theorem packet (h : Attached w feeds taken) {pkt : ChatPacket} {c : ℕ} {f : Feed}
    (hl : l.answer = .packet pkt) (hpeer : (w.pc l.tid).reads?.bind w.descr = some c)
    (hf : feeds c = some f) (hpkt : (packetsOf f.stream)[taken c]? = some pkt)
    (hw : step w l = some w') :
    Attached w' feeds (Function.update taken c (taken c + 1)) := by
  have hm := move_of_step hw
  obtain ⟨hinv, -, hturns⟩ := turns_of_reachable h.world
  obtain ⟨hconn, htid⟩ := conn_of_reads hinv hpeer
  obtain ⟨fd, hfd, hdescr⟩ := Option.bind_eq_some_iff.mp hpeer
  -- the packet is received on connection `c`
  obtain ⟨fd', pkt', hl', hfd', hlog⟩ := hm.received_cases.resolve_right fun hno => hno.1 pkt hl
  obtain rfl : fd = fd' := Option.some.inj (hfd.symm.trans hfd')
  obtain rfl : pkt = pkt' := Answer.packet.inj (hl.symm.trans hl')
  rw [hdescr] at hlog
  have hheard : ∀ c', heard c' w'.log =
      if c = c' then heard c' w.log ++ [pkt] else heard c' w.log := by
    intro c'
    rw [hlog, heard]
    simp only [Option.some.injEq]
  have hnext : w'.nextConn = w.nextConn := hm.nextConn_eq fun fd ip hconn' => by
    rw [hl] at hconn'
    cases hconn'
  obtain ⟨tr, hrun⟩ := h.world
  refine ⟨⟨_, hrun.step hw⟩, ?_, h.honest, ?_, ?_, ?_, ?_, ?_,
    h.registered_next hm fun _ _ hf => hf⟩
  · intro c' hc'
    exact h.unborn c' (hnext ▸ hc')
  · intro c' f' hf'
    rw [hheard c']
    by_cases hc : c = c'
    · subst hc
      obtain rfl : f = f' := Option.some.inj (hf.symm.trans hf')
      rw [if_pos rfl]
      exact prefix_concat (h.reads c f hf) (by rw [← h.taken c]; exact hpkt)
    · rw [if_neg hc]
      exact h.reads c' f' hf'
  · intro c' hc'
    rw [hheard c', if_neg]
    · exact h.silent c' hc'
    · rintro rfl
      rw [hf] at hc'
      cases hc'
  · intro c'
    rw [hheard c']
    by_cases hc : c = c'
    · subst hc
      simp [h.taken c]
    · simp [hc, Function.update_of_ne (Ne.symm hc), h.taken c']
  · intro fd' peer pkt' hmem
    rw [hlog] at hmem
    rcases List.mem_cons.mp hmem with heq | hmem
    · -- `main` reads the first packet of a connection
      obtain ⟨hmain, -, -, rfl⟩ := Event.received.inj heq
      obtain ⟨t, a⟩ := l
      obtain rfl : .main = t := hmain
      obtain rfl : a = .packet pkt' := hl
      obtain ⟨c', fd', ip, hpc, hs, -⟩ := hm.recvFirst_cases
      have hopen : turn w.log c = .opening := by
        rw [hpc] at hconn
        exact (hturns.knows hpc hconn hs).2
      exact h.command_first hf hpkt hopen
    · exact h.first fd' peer pkt' hmem
  · intro c' fd' ip' pkt' hpc
    rcases hm.register_cases hpc with hpc | ⟨rfl, -, -⟩
    · exact h.registering c' fd' ip' pkt' hpc
    · obtain rfl : pkt' = pkt := Answer.packet.inj hl
      obtain ⟨c₁, fd₁, ip₁, hpc₁, -, hnew⟩ := hm.recvFirst_cases
      have hpc : w'.pc .main = .register c' fd' ip' pkt' := hpc
      rcases hnew with hnew | hnew <;> rw [hpc] at hnew <;> cases hnew
      rw [hpc₁] at hconn
      obtain rfl : c' = c := Option.some.inj hconn
      exact ⟨f, hf, (h.honest c' f hf).named pkt' (List.mem_of_getElem? hpkt)⟩

/-- Any other step of the server. -/
theorem server (h : Attached w feeds taken) (hl : ∀ pkt, l.answer ≠ .packet pkt)
    (hl' : ∀ fd ip, l.answer ≠ .conn fd ip) (hw : step w l = some w') :
    Attached w' feeds taken := by
  have hm := move_of_step hw
  obtain ⟨-, hlog⟩ := hm.received_cases.resolve_left fun ⟨_, pkt, hpkt, _⟩ => hl pkt hpkt
  have hheard : ∀ c, heard c w'.log = heard c w.log := by
    intro c
    rcases hlog with hlog | ⟨e, hlog, he⟩
    · rw [hlog]
    · rw [hlog, heard_cons_of_ne he]
  obtain ⟨tr, hrun⟩ := h.world
  refine ⟨⟨_, hrun.step hw⟩, ?_, h.honest, ?_, ?_, ?_, ?_, ?_,
    h.registered_next hm fun _ _ hf => hf⟩
  · intro c hc
    exact h.unborn c (hm.nextConn_eq hl' ▸ hc)
  · intro c f hf
    rw [hheard c]
    exact h.reads c f hf
  · intro c hc
    rw [hheard c]
    exact h.silent c hc
  · intro c
    rw [hheard c]
    exact h.taken c
  · intro fd peer pkt hmem
    refine h.first fd peer pkt ?_
    rcases hlog with hlog | ⟨e, hlog, he⟩
    · rwa [hlog] at hmem
    · rw [hlog] at hmem
      exact (List.mem_cons.mp hmem).resolve_left fun heq => he _ _ _ _ heq.symm
  · intro c fd ip pkt hpc
    rcases hm.register_cases hpc with hpc | ⟨rfl, -⟩
    · exact h.registering c fd ip pkt hpc
    · exact absurd rfl (hl pkt)

/-- The streams grow. -/
theorem grow (h : Attached w feeds taken) (hhonest : ∀ c f, feeds' c = some f → f.Honest)
    (hgrow : ∀ c f, feeds c = some f → ∃ f', feeds' c = some f' ∧ f'.name = f.name ∧
      f.stream <+: f'.stream)
    (hnone : ∀ c, feeds c = none → feeds' c = none) : Attached w feeds' taken := by
  have hback {c : ℕ} {f' : Feed} (hf' : feeds' c = some f') :
      ∃ f, feeds c = some f ∧ f.stream <+: f'.stream := by
    rcases hf : feeds c with - | f
    · rw [hnone c hf] at hf'
      cases hf'
    · obtain ⟨f₁, hf₁, -, hstream⟩ := hgrow c f hf
      obtain rfl : f₁ = f' := Option.some.inj (hf₁.symm.trans hf')
      exact ⟨f, rfl, hstream⟩
  have hname {c : ℕ} {name : List UInt8} (hf : ∃ f, feeds c = some f ∧ name = f.name) :
      ∃ f, feeds' c = some f ∧ name = f.name := by
    obtain ⟨f, hf, rfl⟩ := hf
    obtain ⟨f', hf', hsame, -⟩ := hgrow c f hf
    exact ⟨f', hf', hsame.symm⟩
  refine ⟨h.world, fun c hc => hnone c (h.unborn c hc), hhonest, fun c f' hf' => ?_,
    fun c hc => ?_, h.taken, h.first, fun c fd ip pkt hpc => hname (h.registering c fd ip pkt hpc),
    fun c i r hr => hname (h.registered c i r hr)⟩
  · obtain ⟨f, hf, more, hmore⟩ := hback hf'
    rw [← hmore]
    exact (h.reads c f hf).trans (packetsOf_grow _ _)
  · refine h.silent c ?_
    rcases hf : feeds c with - | f
    · rfl
    · obtain ⟨f', hf', -⟩ := hgrow c f hf
      rw [hc] at hf'
      cases hf'

/-! ### What the server may rely on -/

/-- **A receive keeps to the names.** -/
theorem sendsOwnName (h : Attached w feeds taken) {pkt : ChatPacket} {c : ℕ} {f : Feed}
    (hl : l.answer = .packet pkt) (hpeer : (w.pc l.tid).reads?.bind w.descr = some c)
    (hf : feeds c = some f) (hpkt : (packetsOf f.stream)[taken c]? = some pkt) :
    SendsOwnName w l := by
  have hname := (h.honest c f hf).named pkt (List.mem_of_getElem? hpkt)
  intro pkt' hpkt' _
  obtain rfl : pkt = pkt' := Answer.packet.inj (hl.symm.trans hpkt')
  refine ⟨fun _ _ => ?_, fun d i r hd hr => ?_⟩
  · rw [hname]
    exact (h.honest c f hf).fits
  · -- a client's thread reads from its own connection
    obtain ⟨-, hmain | hclient⟩ := conn_of_reads (inv_of_reachable h.world) hpeer
    · rw [hd] at hmain
      cases hmain
    · obtain rfl : d = c := Tid.client.inj (hd.symm.trans hclient)
      obtain ⟨f', hf', hr'⟩ := h.registered d i r hr
      obtain rfl : f = f' := Option.some.inj (hf.symm.trans hf')
      rw [hname, hr']

/-- **Every record is that of the far end** of its connection. -/
theorem record (h : Attached w feeds taken) {i : ℕ} {r : Cliente} (hr : w.table.Active i r) :
    ∃ c f, w.descr r.sockfd = some c ∧ feeds c = some f ∧ r.username.str = f.name := by
  obtain ⟨c, r₀, hph, hid, hdescr, -⟩ := (inv_of_reachable h.world).core.owner hr
  obtain ⟨f, hf, hname⟩ := h.registered c i r₀ (registered_mem_of_phase hph)
  exact ⟨c, f, hdescr, hf, by rw [hid.1, hname]⟩

/-- What is heard carries the name of the far end. -/
theorem named (h : Attached w feeds taken) {c : ℕ} {f : Feed} (hf : feeds c = some f)
    {pkt : ChatPacket} (hpkt : pkt ∈ heard c w.log) : cstr pkt.senderPtr = f.name :=
  (h.honest c f hf).named pkt ((h.reads c f hf).subset hpkt)

/-- The packet heard last, at any moment of the past, has been heard, and so it
carries the name. -/
theorem named_last (h : Attached w feeds taken) {newer older : List Event} {e : Event}
    (hlog : w.log = newer ++ e :: older) {c : ℕ} {req : ChatPacket}
    (hreq : lastPacket older c = some req) :
    ∃ f, feeds c = some f ∧ req ∈ heard c w.log ∧ cstr req.senderPtr = f.name := by
  obtain ⟨hinv, -, -⟩ := turns_of_reachable h.world
  have hall : Always Allowed older := by
    refine always_iff.mpr fun newer' e' older' heq => ?_
    exact always_iff.mp hinv.core.disciplined (newer ++ e :: newer') e' older'
      (by rw [hlog, heq, List.append_assoc]; rfl)
  have hmem := heard_of_lastPacket hall hreq
  have hmem' : req ∈ heard c w.log := by
    rw [hlog, List.append_cons]
    exact (heard_append c (newer ++ [e]) older).subset hmem
  rcases hf : feeds c with - | f
  · rw [h.silent c hf] at hmem'
    cases hmem'
  · exact ⟨f, rfl, hmem', h.named hf hmem'⟩

/-- **A message** is a notice of the server's own, or made of a packet heard on the
connection of its thread, and then it carries the name there. -/
theorem message (h : Attached w feeds taken) {t : Tid} {p : Sending} {peer : Option ℕ}
    {written : Option ℕ} {j : ℕ} (hmem : .send t p peer written j ∈ w.log)
    (hcmd : p.pkt.command = cmdMsg) :
    p.pkt.sender.str = senderServer ∧ (p.site = .reactivation ∨ ∃ i, p.site = .inactivity i) ∨
      ∃ c f req, t = .client c ∧ feeds c = some f ∧ req ∈ heard c w.log ∧ IsRelay req p.pkt ∧
        p.pkt.sender.str = f.name := by
  obtain ⟨-, hprov, -⟩ := turns_of_reachable h.world
  obtain ⟨newer, older, hlog⟩ := List.append_of_mem hmem
  have hatt := always_iff.mp hprov.sent newer _ older hlog t p peer written j rfl
  rcases relay_of_attributed hatt hcmd with hown | ⟨c, req, ht, hreq, hrelay⟩
  · exact .inl ⟨sender_of_own hown hatt.1, hown⟩
  · obtain ⟨f, hf, hheard, hname⟩ := h.named_last hlog hreq
    refine .inr ⟨c, f, req, ht, hf, hheard, hrelay, ?_⟩
    rw [hrelay.sender, hname, List.take_of_length_le (h.honest c f hf).fits]

/-- **A departure notice** names the user whose thread ends. -/
theorem departure (h : Attached w feeds taken) {t : Tid} {p : Sending} {peer : Option ℕ}
    {written : Option ℕ} {j : ℕ} (hmem : .send t p peer written j ∈ w.log)
    (hcmd : p.pkt.command = cmdDisconnected) :
    ∃ c f, t = .client c ∧ feeds c = some f ∧ p.pkt.payload.str = f.name := by
  obtain ⟨-, hprov, -⟩ := turns_of_reachable h.world
  obtain ⟨newer, older, hlog⟩ := List.append_of_mem hmem
  have hatt := always_iff.mp hprov.sent newer _ older hlog t p peer written j rfl
  obtain ⟨c, i, ht, -, -, hann⟩ := notice_of_attributed hatt hcmd
  rcases hann with ⟨pkt, ⟨hreq, -, -⟩, hname⟩ | ⟨-, i', r, hr, hname⟩
  · obtain ⟨f, hf, -, hsender⟩ := h.named_last hlog hreq
    refine ⟨c, f, ht, hf, ?_⟩
    rw [hname, hsender, List.take_of_length_le (h.honest c f hf).fits]
  · obtain ⟨f, hf, hreg⟩ := h.registered c i' r (by
      rw [hlog]
      exact List.mem_append_right _ (List.mem_cons_of_mem _ hr))
    exact ⟨c, f, ht, hf, by rw [hname, hreg]⟩

/-- **The replies** on a connection are to the requests heard there, in order. -/
theorem answered_heard (h : Attached w feeds taken) (c : ℕ) :
    (answered c w.log).reverse <+: (heard c w.log).filter (·.command ∈ repliedCommands) := by
  obtain ⟨hinv, -, hturns⟩ := turns_of_reachable h.world
  have hrev : (asked c w.log).reverse = _ := asked_reverse hinv.core.disciplined h.first
  rw [asked_eq hturns.always c, List.reverse_append] at hrev
  exact ⟨_, hrev⟩

end Attached

end ChatSystem
