/-
ChatSystem/Deployment.lean

The server and its terminal clients as one system.  Every connection the
server accepts is that of a client process (`Console`) with a user name its
`main` lets through and any standard input; between them are two byte streams.
A step is a step of one thread of the server or of one client:

    console 0 ──stream 0──▸ ┌────────┐ ──wire 0──▸ console 0
    console 1 ──stream 1──▸ │ server │ ──wire 1──▸ console 1
        ⋮                   └────────┘                 ⋮

A `recv_packet` of the server returns the next packet of the stream of the
connection its descriptor denotes (`taken` counts those read) and may fail at
any time; so may a `net_recv`.  A client is there from the moment its connection
is accepted: nothing it does before can be seen by the server.

The runs of the server within the system are runs of `step` whose clients keep
to their names (`deployed_of_run`), so what is proved of such runs holds of the
deployed server without that hypothesis.  `faithful_of_reachable` follows a line
from a keyboard to the screens: nothing is lost, doubled or shifted on the way,
whatever the two sides do meanwhile.
-/
import ChatSystem.Console
import ChatSystem.Feeds

namespace ChatSystem

open CStr Lts

/-! ### The system -/

structure Deployment where
  world : World
  consoles : ℕ → Option Console
  taken : ℕ → ℕ

/-- What happens: `join` is an `accept` of `main`, of the connection of a client
that was started with this name and this input. -/
inductive Deed
  | join (fd : ℤ) (ip username stdin : List UInt8)
  | server (l : Label)
  | console (c : ℕ) (l : ConsoleLabel)
deriving DecidableEq, Repr

/-- The step of the server in it. -/
def Deed.server? : Deed → Option Label
  | join fd ip _ _ => some ⟨.main, .conn fd ip⟩
  | server l => some l
  | console _ _ => none

namespace Deployment

def init : Deployment where
  world := .init
  consoles := fun _ => none
  taken := fun _ => 0

/-- The connection thread `t` reads from. -/
def peer (s : Deployment) (t : Tid) : Option ℕ := (s.world.pc t).reads?.bind s.world.descr

/-- The next packet of the stream of connection `c`. -/
def next (s : Deployment) (c : ℕ) : Option ChatPacket :=
  (s.consoles c).bind fun k => (packetsOf k.stream)[s.taken c]?

def step (s : Deployment) : Deed → Option Deployment
  | .join fd ip username stdin =>
    if IsArgument username then
      (ChatSystem.step s.world ⟨.main, .conn fd ip⟩).map fun w => { s with
        world := w
        consoles := Function.update s.consoles s.world.nextConn (some (.start username stdin)) }
    else none
  | .server l =>
    match l.answer with
    -- see `join`
    | .conn _ _ => none
    | .packet pkt =>
      (s.peer l.tid).bind fun c =>
        if s.next c = some pkt then
          (ChatSystem.step s.world l).map fun w => { s with
            world := w
            taken := Function.update s.taken c (s.taken c + 1) }
        else none
    | _ => (ChatSystem.step s.world l).map fun w => { s with world := w }
  | .console c l =>
    (s.consoles c).bind fun k =>
      (k.step (s.world.wire c) l).map fun k' => { s with
        consoles := Function.update s.consoles c (some k') }

/-- The rules of the system. -/
inductive Move (s : Deployment) : Deed → Deployment → Prop
  | join {fd ip username stdin w} (harg : IsArgument username)
      (hw : ChatSystem.step s.world ⟨.main, .conn fd ip⟩ = some w) :
      Move s (.join fd ip username stdin) { s with
        world := w
        consoles := Function.update s.consoles s.world.nextConn (some (.start username stdin)) }
  | packet {l pkt c k w} (hl : l.answer = .packet pkt) (hpeer : s.peer l.tid = some c)
      (hk : s.consoles c = some k) (hpkt : (packetsOf k.stream)[s.taken c]? = some pkt)
      (hw : ChatSystem.step s.world l = some w) :
      Move s (.server l) { s with
        world := w
        taken := Function.update s.taken c (s.taken c + 1) }
  | server {l w} (hl : ∀ pkt, l.answer ≠ .packet pkt) (hl' : ∀ fd ip, l.answer ≠ .conn fd ip)
      (hw : ChatSystem.step s.world l = some w) : Move s (.server l) { s with world := w }
  | console {c l k k'} (hk : s.consoles c = some k) (hm : k.Move (s.world.wire c) l k') :
      Move s (.console c l) { s with consoles := Function.update s.consoles c (some k') }

variable {s s' : Deployment} {d : Deed}

theorem move_of_step (h : s.step d = some s') : s.Move d s' := by
  cases d with
  | join fd ip username stdin =>
    simp only [step] at h
    split at h
    · obtain ⟨w, hw, rfl⟩ := Option.map_eq_some_iff.mp h
      exact .join ‹_› hw
    · cases h
  | server l =>
    simp only [step] at h
    split at h
    case h_1 => cases h
    case h_2 pkt hl =>
      obtain ⟨c, hpeer, h⟩ := Option.bind_eq_some_iff.mp h
      split at h
      case isTrue hnext =>
        obtain ⟨w, hw, rfl⟩ := Option.map_eq_some_iff.mp h
        obtain ⟨k, hk, hpkt⟩ := Option.bind_eq_some_iff.mp hnext
        exact .packet hl hpeer hk hpkt hw
      case isFalse => cases h
    case h_3 hconn hpacket =>
      obtain ⟨w, hw, rfl⟩ := Option.map_eq_some_iff.mp h
      exact .server (fun pkt hl => hpacket pkt hl) (fun fd ip hl => hconn fd ip hl) hw
  | console c l =>
    obtain ⟨k, hk, h⟩ := Option.bind_eq_some_iff.mp h
    obtain ⟨k', hk', rfl⟩ := Option.map_eq_some_iff.mp h
    exact .console hk (Console.move_of_step hk')

end Deployment

/-! ### The invariant -/

/-- What the server can tell of a client. -/
def Console.feed (k : Console) : Feed := ⟨k.username, k.stream⟩

/-- The client's end of connection `c`. -/
structure OnLine (w : World) (c : ℕ) (k : Console) : Prop where
  argument : IsArgument k.username
  typed : k.Typed (k.before ++ k.stdin)
  written : k.Written
  seen : k.Seen (w.wire c)

section OnLine

variable {w w' : World} {c : ℕ} {k k' : Console}

theorem onLine_start {username : List UInt8} (harg : IsArgument username) (w : World) (c : ℕ)
    (stdin : List UInt8) : OnLine w c (.start username stdin) :=
  ⟨harg, Console.typed_start _ _, Console.written_start _ _, Console.seen_start _ _ _⟩

/-- The wire grows. -/
theorem OnLine.wire (h : OnLine w c k) (hwire : ∃ more, w'.wire c = w.wire c ++ more) :
    OnLine w' c k := by
  obtain ⟨more, hmore⟩ := hwire
  exact ⟨h.argument, h.typed, h.written, by rw [hmore]; exact h.seen.more more⟩

/-- The client takes a step. -/
theorem OnLine.step (h : OnLine w c k) {l : ConsoleLabel} (hm : k.Move (w.wire c) l k') :
    OnLine w c k' := by
  have htyped := h.typed.step hm
  refine ⟨hm.username ▸ h.argument, ?_, h.written.step hm, h.seen.step hm⟩
  rw [htyped.split]
  exact htyped

theorem feed_step {wire : List UInt8} {l : ConsoleLabel} (hm : k.Move wire l k') :
    k'.feed.name = k.feed.name ∧ k.feed.stream <+: k'.feed.stream := by
  obtain ⟨more, hmore⟩ := hm.stream_grows
  exact ⟨hm.username, more, hmore.symm⟩

/-- Every packet of a client is one it has built: its REGISTER first, and all in
its name. -/
theorem OnLine.honest (h : OnLine w c k) : k.feed.Honest where
  fits := h.argument.fits
  named := fun _ hpkt => sender_built h.argument (h.written.packets.subset hpkt)
  registers := fun pkt hpkt => by
    obtain ⟨hlt, hpkt⟩ := List.getElem?_eq_some_iff.mp hpkt
    have hget : k.built[0]? = some pkt := by
      rw [← hpkt]
      exact List.prefix_iff_getElem?.mp h.written.packets _ hlt
    obtain rfl : netRegister k.username = pkt := Option.some.inj hget
    rfl

end OnLine

namespace Deployment

/-- What the server can tell of its clients. -/
def feeds (s : Deployment) (c : ℕ) : Option Feed := (s.consoles c).map Console.feed

structure Linked (s : Deployment) : Prop where
  attached : Attached s.world s.feeds s.taken
  console : ∀ c k, s.consoles c = some k → OnLine s.world c k

theorem feeds_of_console {s : Deployment} {c : ℕ} {k : Console} (hk : s.consoles c = some k) :
    s.feeds c = some k.feed := by
  rw [feeds, hk]
  rfl

theorem console_of_feeds {s : Deployment} {c : ℕ} {f : Feed} (hf : s.feeds c = some f) :
    ∃ k, s.consoles c = some k ∧ k.feed = f := Option.map_eq_some_iff.mp hf

namespace Linked

theorem init : Linked Deployment.init where
  attached := .init
  console := fun c k h => by cases h

variable {s : Deployment}

theorem join (h : Linked s) {fd : ℤ} {ip username stdin : List UInt8} {w : World}
    (harg : IsArgument username) (hw : ChatSystem.step s.world ⟨.main, .conn fd ip⟩ = some w) :
    Linked { s with
      world := w
      consoles := Function.update s.consoles s.world.nextConn (some (.start username stdin)) } := by
  constructor
  · refine h.attached.join hw (onLine_start harg w s.world.nextConn stdin).honest ?_ fun c hc => ?_
    · exact feeds_of_console (Function.update_self ..)
    · show (Function.update s.consoles s.world.nextConn _ c).map Console.feed = _
      rw [Function.update_of_ne hc]
      rfl
  · intro c k hk
    by_cases hc : c = s.world.nextConn
    · subst hc
      obtain rfl : Console.start username stdin = k := by simpa using hk
      exact onLine_start harg w _ stdin
    · exact (h.console c k (by simpa [hc] using hk)).wire
        ((ChatSystem.move_of_step hw).wire_grows c)

theorem packet (h : Linked s) {l : Label} {pkt : ChatPacket} {c : ℕ} {k : Console} {w : World}
    (hl : l.answer = .packet pkt) (hpeer : s.peer l.tid = some c) (hk : s.consoles c = some k)
    (hpkt : (packetsOf k.stream)[s.taken c]? = some pkt)
    (hw : ChatSystem.step s.world l = some w) :
    Linked { s with world := w, taken := Function.update s.taken c (s.taken c + 1) } := by
  exact ⟨h.attached.packet hl hpeer (feeds_of_console hk) hpkt hw, fun c' k' hk' =>
    (h.console c' k' hk').wire ((ChatSystem.move_of_step hw).wire_grows c')⟩

theorem server (h : Linked s) {l : Label} {w : World} (hl : ∀ pkt, l.answer ≠ .packet pkt)
    (hl' : ∀ fd ip, l.answer ≠ .conn fd ip) (hw : ChatSystem.step s.world l = some w) :
    Linked { s with world := w } := by
  exact ⟨h.attached.server hl hl' hw, fun c k hk =>
    (h.console c k hk).wire ((ChatSystem.move_of_step hw).wire_grows c)⟩

theorem process (h : Linked s) {c : ℕ} {l : ConsoleLabel} {k k' : Console}
    (hk : s.consoles c = some k) (hm : k.Move (s.world.wire c) l k') :
    Linked { s with consoles := Function.update s.consoles c (some k') } := by
  have hline (c₁ : ℕ) (k₁ : Console)
      (hk₁ : Function.update s.consoles c (some k') c₁ = some k₁) : OnLine s.world c₁ k₁ := by
    by_cases hc : c₁ = c
    · subst hc
      obtain rfl : k' = k₁ := by simpa using hk₁
      exact (h.console c₁ k hk).step hm
    · exact h.console c₁ k₁ (by simpa [hc] using hk₁)
  refine ⟨h.attached.grow (fun c₁ f hf => ?_) (fun c₁ f hf => ?_) fun c₁ hc₁ => ?_, hline⟩
  · obtain ⟨k₁, hk₁, rfl⟩ := console_of_feeds hf
    exact (hline c₁ k₁ hk₁).honest
  · obtain ⟨k₁, hk₁, rfl⟩ := console_of_feeds hf
    by_cases hc : c₁ = c
    · subst hc
      obtain rfl : k = k₁ := Option.some.inj (hk.symm.trans hk₁)
      exact ⟨k'.feed, feeds_of_console (Function.update_self ..), feed_step hm⟩
    · exact ⟨k₁.feed, feeds_of_console ((Function.update_of_ne hc ..).trans hk₁), rfl,
        List.prefix_rfl⟩
  · have hnone : s.consoles c₁ = none := by simpa [feeds] using hc₁
    have hc : c₁ ≠ c := by
      rintro rfl
      rw [hnone] at hk
      cases hk
    show (Function.update s.consoles c (some k') c₁).map Console.feed = none
    rw [Function.update_of_ne hc, hnone]
    rfl

theorem step {s' : Deployment} {d : Deed} (h : Linked s) (hs : s.step d = some s') :
    Linked s' := by
  cases Deployment.move_of_step hs with
  | join harg hw => exact h.join harg hw
  | packet hl hpeer hk hpkt hw => exact h.packet hl hpeer hk hpkt hw
  | server hl hl' hw => exact h.server hl hl' hw
  | console hk hm => exact h.process hk hm

end Linked

/-- The server's clients keep to their names. -/
theorem Linked.sendsOwnName {s s' : Deployment} {d : Deed} (h : Linked s)
    (hs : s.step d = some s') {l : Label} (hl : d.server? = some l) :
    ChatSystem.step s.world l = some s'.world ∧ SendsOwnName s.world l := by
  cases move_of_step hs with
  | join harg hw =>
    obtain rfl := Option.some.inj hl
    exact ⟨hw, fun pkt hpkt => by cases hpkt⟩
  | server hpacket hconn hw =>
    obtain rfl := Option.some.inj hl
    exact ⟨hw, fun pkt hpkt => absurd hpkt (hpacket pkt)⟩
  | packet hanswer hpeer hk hpkt hw =>
    obtain rfl := Option.some.inj hl
    exact ⟨hw, h.attached.sendsOwnName hanswer hpeer (feeds_of_console hk) hpkt⟩
  | console => cases hl

end Deployment

/-! ### Whole runs -/

theorem linked_of_reachable {s : Deployment} (h : Reachable Deployment.step Deployment.init s) :
    s.Linked :=
  h.invariant .init fun _ _ _ hs hstep => hs.step hstep

theorem server_run {tr : List (Deployment × Deed)} {s : Deployment}
    (h : Run Deployment.step Deployment.init tr s) :
    Run step World.init (projected Deployment.world Deed.server? tr) s.world ∧
      StepsAll SendsOwnName (projected Deployment.world Deed.server? tr) := by
  have hlinked := h.statesAll_of_steps (C := fun _ _ => True) Deployment.Linked.init
    (fun s d s' hI _ (hs : s.step d = some s') => hI.step hs) fun _ _ => trivial
  refine Run.project (I := Deployment.Linked)
    (fun s d s' l hI (hs : s.step d = some s') hl => hI.sendsOwnName hs hl)
    (fun s d s' hI (hs : s.step d = some s') hd => ?_) h hlinked
  cases Deployment.move_of_step hs with
  | console => rfl
  | join | packet | server => cases hd

/-- The packets the server sends tell the truth about the users at the
consoles. -/
structure Truthful (s : Deployment) : Prop where
  /-- a message is a notice of the server's own, or carries the name of the user
  whose thread relays it -/
  message : ∀ t p peer written j, .send t p peer written j ∈ s.world.log →
    p.pkt.command = cmdMsg →
    p.pkt.sender.str = senderServer ∧ (p.site = .reactivation ∨ ∃ i, p.site = .inactivity i) ∨
    ∃ c k, t = .client c ∧ s.consoles c = some k ∧ p.pkt.sender.str = k.username
  /-- a departure notice names the user whose thread ends -/
  departure : ∀ t p peer written j, .send t p peer written j ∈ s.world.log →
    p.pkt.command = cmdDisconnected →
    ∃ c k, t = .client c ∧ s.consoles c = some k ∧ p.pkt.payload.str = k.username

theorem truthful_of_linked {s : Deployment} (h : s.Linked) : Truthful s := by
  constructor
  · intro t p peer written j hmem hcmd
    refine (h.attached.message hmem hcmd).imp id ?_
    rintro ⟨c, f, -, ht, hf, -, -, hname⟩
    obtain ⟨k, hk, rfl⟩ := Deployment.console_of_feeds hf
    exact ⟨c, k, ht, hk, hname⟩
  · intro t p peer written j hmem hcmd
    obtain ⟨c, f, ht, hf, hname⟩ := h.attached.departure hmem hcmd
    obtain ⟨k, hk, rfl⟩ := Deployment.console_of_feeds hf
    exact ⟨c, k, ht, hk, hname⟩

/-- **The deployed server.**  The steps of the server in a run of the system are
a run of the server in which every client keeps to its name; so no two records
in the table have one name, each is that of the user at its console, and what
the server sends about users names them rightly. -/
theorem deployed_of_run {tr : List (Deployment × Deed)} {s : Deployment}
    (h : Run Deployment.step Deployment.init tr s) :
    Run step World.init (projected Deployment.world Deed.server? tr) s.world ∧
    StepsAll SendsOwnName (projected Deployment.world Deed.server? tr) ∧
    s.world.table.NamesDistinct ∧
    (∀ i r, s.world.table.Active i r → ∃ c k, s.world.descr r.sockfd = some c ∧
      s.consoles c = some k ∧ r.username.str = k.username) ∧
    Truthful s := by
  obtain ⟨hrun, hown⟩ := server_run h
  have hlinked : s.Linked := linked_of_reachable ⟨tr, h⟩
  obtain ⟨-, -, hnames⟩ := (ownNames_of_run hrun hown).1
  refine ⟨hrun, hown, hnames.distinct, fun i r hr => ?_, truthful_of_linked hlinked⟩
  obtain ⟨c, f, hdescr, hf, hname⟩ := hlinked.attached.record hr
  obtain ⟨k, hk, rfl⟩ := Deployment.console_of_feeds hf
  exact ⟨c, k, hdescr, hk, hname⟩

/-- What connection `c` carries, from the keyboard to the server and back to
the screen. -/
structure Faithful (w : World) (c : ℕ) (k : Console) : Prop where
  /-- the server reads the REGISTER and what the lines ask for -/
  requests : heard c w.log <+:
    netRegister k.username :: packetsSent k.username (k.before ++ k.stdin)
  /-- under the user's name -/
  named : ∀ pkt ∈ heard c w.log, cstr pkt.senderPtr = k.username
  /-- and nothing behind a LOGOUT -/
  logout : ∀ pkt ∈ (heard c w.log).dropLast, pkt.command ≠ cmdLogout
  /-- or behind the REGISTER, when that was refused -/
  refused : ∀ resp, k.got.head? = some resp → resp.command = cmdError →
    heard c w.log <+: [netRegister k.username]
  /-- the replies are to the requests of the lines, in order -/
  answered : (answered c w.log).reverse <+:
    (packetsSent k.username (k.before ++ k.stdin)).filter (·.command ∈ repliedCommands)
  /-- the screen shows the packets of the wire -/
  shown : k.shown <+: packetsOf (w.wire c)

/-- What is not last in a prefix is not last. -/
theorem mem_dropLast_of_prefix {α : Type*} {xs ys : List α} (h : xs <+: ys) {x : α}
    (hx : x ∈ xs.dropLast) : x ∈ ys.dropLast := by
  obtain ⟨rest, rfl⟩ := h
  rw [List.dropLast_append]
  split
  · exact hx
  · exact List.mem_append_left _ (List.mem_of_mem_dropLast hx)

/-- The packets built are those of the first lines. -/
theorem OnLine.built_begins {w : World} {c : ℕ} {k : Console} (h : OnLine w c k) :
    k.built <+: netRegister k.username :: packetsSent k.username (k.before ++ k.stdin) :=
  (List.prefix_cons_inj _).mpr (h.typed.calls.flatMap _)

/-- **Nothing is lost, doubled or shifted** between a client's keyboard and the
server, and between the wire and the client's screen. -/
theorem faithful_of_reachable {s : Deployment} (h : Reachable Deployment.step Deployment.init s)
    {c : ℕ} {k : Console} (hk : s.consoles c = some k) : Faithful s.world c k := by
  have hdep := linked_of_reachable h
  have hline := hdep.console c k hk
  have hfeed := Deployment.feeds_of_console hk
  have hheard : heard c s.world.log <+: k.built :=
    (hdep.attached.reads c k.feed hfeed).trans hline.written.packets
  have hall := hheard.trans hline.built_begins
  refine ⟨hall, fun pkt hpkt => hdep.attached.named hfeed hpkt, ?_, ?_, ?_, ?_⟩
  · intro pkt hpkt
    have hmem := mem_dropLast_of_prefix hall hpkt
    rcases hsent : packetsSent k.username (k.before ++ k.stdin) with - | ⟨pkt', pkts⟩
    · rw [hsent] at hmem
      cases hmem
    · rw [hsent, List.dropLast_cons_of_ne_nil (by simp), ← hsent] at hmem
      rcases List.mem_cons.mp hmem with rfl | hmem
      · show cmdRegister ≠ cmdLogout
        decide
      · exact logout_last _ _ _ _ pkt hmem
  · intro resp hresp herr
    have hleft := hline.seen.refused resp hresp herr
    have hcalls := hline.typed.untyped (.inr hleft)
    rw [Console.built, hcalls] at hheard
    exact hheard
  · exact (hdep.attached.answered_heard c).trans (hall.filter _)
  · exact hline.seen.screen

/-! ### What is on the screens -/

/-- The `send_packet` calls completed on connection `c`, oldest first. -/
def wholeCalls : List Event → ℕ → List Sending
  | [], _ => []
  | .send _ p (some c') (some n) _ :: h, c =>
    if c' = c ∧ p.total + n = 1024 then wholeCalls h c ++ [p] else wholeCalls h c
  | _ :: h, c => wholeCalls h c

/-- What a connection has been delivered are the packets of these calls. -/
theorem delivered_eq (h : List Event) (c : ℕ) :
    delivered h c = (wholeCalls h c).map Sending.pkt := by
  induction h with
  | nil => rfl
  | cons e h ih =>
    cases e with
    | send t p peer written j =>
      rcases peer with - | c'
      · exact ih
      · rcases written with - | n
        · exact ih
        · simp only [delivered, wholeCalls]
          split
          · rw [ih, List.map_append]
            rfl
          · exact ih
    | _ => exact ih

theorem sent_of_wholeCalls {h : List Event} {c : ℕ} {p : Sending} (hp : p ∈ wholeCalls h c) :
    ∃ t n j, .send t p (some c) (some n) j ∈ h ∧ p.total + n = 1024 := by
  induction h with
  | nil => cases hp
  | cons e h ih =>
    have hmore : p ∈ wholeCalls h c → ∃ t n j, .send t p (some c) (some n) j ∈ e :: h ∧
        p.total + n = 1024 := by
      intro hp
      obtain ⟨t, n, j, hmem, htotal⟩ := ih hp
      exact ⟨t, n, j, List.mem_cons_of_mem _ hmem, htotal⟩
    cases e with
    | send t p' peer written j =>
      rcases peer with - | c'
      · exact hmore hp
      · rcases written with - | n
        · exact hmore hp
        · simp only [wholeCalls] at hp
          split at hp
          case isTrue hall =>
            obtain ⟨rfl, htotal⟩ := hall
            rcases List.mem_append.mp hp with hp | hp
            · exact hmore hp
            · obtain rfl := List.mem_singleton.mp hp
              exact ⟨t, n, j, List.mem_cons_self, htotal⟩
          case isFalse => exact hmore hp
    | _ => exact hmore hp

/-- As long as no `send()` fails or falls into another thread's packet, a wire has
the packets delivered there, whole, and a part of one more. -/
theorem wire_of_run {tr : List (World × Label)} {w : World} (h : Run step World.init tr w)
    (hr : StepsAll Reliable tr) (hu : StepsAll Undisturbed tr) (c : ℕ) :
    ∃ part, part.length < 1024 ∧
      w.wire c = (delivered w.log c).flatMap ChatPacket.toBytes ++ part := by
  obtain ⟨-, hpart, hframed⟩ := h.invariant_of_steps
    (I := fun w => Inv w ∧ Unfinished w ∧ ∀ c, Framed w c)
    (C := fun w l => Reliable w l ∧ Undisturbed w l)
    ⟨.init, (fun t p hp => by cases hp), framed_init⟩
    (fun w l w' hI hC hs => ⟨hI.1.step hs, hI.2.1.step (move_of_step hs),
      framed_step hI.1 hI.2.2 hC.1 hC.2 hs⟩) (hr.and hu)
  rcases hframed c with ⟨-, hwire⟩ | ⟨t, p, hmid, -, hwire⟩
  · exact ⟨[], by decide, by rw [hwire, framesOf, List.append_nil]⟩
  · refine ⟨_, ?_, hwire⟩
    rw [List.length_take]
    exact (Nat.min_le_left _ _).trans_lt (hpart t p hmid.1)

/-- **The screens.**  As long as no `send()` of the server fails or falls into
another thread's packet, every screen shows the packets sent to its connection
whole, in the order their calls ended: each is one the server's code makes, and
none is missing but the last ones. -/
theorem shown_of_run {tr : List (Deployment × Deed)} {s : Deployment}
    (h : Run Deployment.step Deployment.init tr s)
    (hr : StepsAll Reliable (projected Deployment.world Deed.server? tr))
    (hu : StepsAll Undisturbed (projected Deployment.world Deed.server? tr)) {c : ℕ} {k : Console}
    (hk : s.consoles c = some k) :
    k.shown <+: delivered s.world.log c ∧ ∀ pkt ∈ k.shown, ∃ t p n j,
      .send t p (some c) (some n) j ∈ s.world.log ∧ p.pkt = pkt ∧ p.site.Makes pkt := by
  have hlinked : s.Linked := linked_of_reachable ⟨tr, h⟩
  obtain ⟨-, hprov, -⟩ := turns_of_reachable hlinked.attached.world
  obtain ⟨part, hpart, hwire⟩ := wire_of_run (server_run h).1 hr hu c
  have hpre : k.shown <+: delivered s.world.log c := by
    rw [← packetsOf_append (delivered s.world.log c) hpart, ← hwire]
    exact (hlinked.console c k hk).seen.screen
  refine ⟨hpre, fun pkt hpkt => ?_⟩
  have hdelivered := hpre.subset hpkt
  rw [delivered_eq] at hdelivered
  obtain ⟨p, hp, rfl⟩ := List.mem_map.mp hdelivered
  obtain ⟨t, n, j, hmem, -⟩ := sent_of_wholeCalls hp
  exact ⟨t, p, n, j, hmem, rfl, makes_of_sent hprov hmem⟩

/-! ### Alice alone -/

/-- Alice registers, types `/list` and reads the answer; Bob, who is refused
for his address, comes and goes. -/
def session : List Deed :=
  [.join 4 (ip 1) alice (utf8 "/list\n/exit\n"), .console 0 ⟨.main, .wrote 1024⟩,
    .server ⟨.main, .packet (netRegister alice)⟩, .server ⟨.main, .clock 0⟩,
    .server ⟨.main, .wrote 1024⟩, .server ⟨.main, .go⟩, .server ⟨.main, .go⟩,
    .console 0 ⟨.main, .packet⟩, .console 0 ⟨.main, .go⟩, .console 0 ⟨.main, .go⟩,
    .console 0 ⟨.main, .wrote 24⟩, .console 0 ⟨.main, .wrote 1000⟩,
    .join 5 (ip 1) bob [], .console 1 ⟨.main, .wrote 1024⟩,
    .server ⟨.main, .packet (netRegister bob)⟩, .server ⟨.main, .clock 1⟩,
    .server ⟨.client 0, .packet (netList alice)⟩, .server ⟨.client 0, .go⟩,
    .server ⟨.client 0, .wrote 1024⟩, .server ⟨.main, .wrote 1024⟩,
    .console 0 ⟨.receiver, .go⟩, .console 0 ⟨.receiver, .packet⟩, .console 0 ⟨.receiver, .go⟩,
    .console 1 ⟨.main, .packet⟩]

theorem exec_session : (exec Deployment.step Deployment.init session).any (fun s =>
    (s.consoles 0).any (fun k => k.shown.map (·.command) == [cmdOk, cmdUserList]) &&
    (s.consoles 1).any (fun k => k.shown == [] && k.pc == .left 1)) = true := by
  decide +kernel

theorem deployed_of_run_session : ∃ tr s, Run Deployment.step Deployment.init tr s ∧
    tr.map Prod.snd = session.reverse ∧
    Run step World.init (projected Deployment.world Deed.server? tr) s.world ∧
    StepsAll SendsOwnName (projected Deployment.world Deed.server? tr) ∧
    s.world.table.NamesDistinct ∧ Truthful s := by
  obtain ⟨tr, s, hrun, hls, -⟩ := exists_run_of_exec exec_session
  obtain ⟨hserver, hown, hdistinct, -, htrue⟩ := deployed_of_run hrun
  exact ⟨tr, s, hrun, hls, hserver, hown, hdistinct, htrue⟩

theorem faithful_of_reachable_session : ∃ s k, Reachable Deployment.step Deployment.init s ∧
    s.consoles 0 = some k ∧ k.shown.map (·.command) = [cmdOk, cmdUserList] ∧
    Faithful s.world 0 k := by
  obtain ⟨tr, s, hrun, -, hp⟩ := exists_run_of_exec exec_session
  simp only [Bool.and_eq_true, Option.any_eq_true, beq_iff_eq] at hp
  obtain ⟨⟨k, hk, hshown⟩, -⟩ := hp
  exact ⟨s, k, ⟨tr, hrun⟩, hk, hshown, faithful_of_reachable ⟨tr, hrun⟩ hk⟩

theorem shown_of_run_session : ∃ tr s k, Run Deployment.step Deployment.init tr s ∧
    s.consoles 0 = some k ∧ k.shown.map (·.command) = [cmdOk, cmdUserList] ∧
    k.shown <+: delivered s.world.log 0 := by
  obtain ⟨tr, s, hrun, hls, hp⟩ := exists_run_of_exec exec_session
  simp only [Bool.and_eq_true, Option.any_eq_true, beq_iff_eq] at hp
  obtain ⟨⟨k, hk, hshown⟩, -⟩ := hp
  have hserver := (server_run hrun).1
  -- every `send()` of the server takes a whole packet
  have hatomic : StepsAll Atomic (projected Deployment.world Deed.server? tr) := by
    have hlabels := projected_labels Deployment.world Deed.server? tr
    rw [hls, List.filterMap_reverse] at hlabels
    exact atomic_of_labels hserver hlabels (by decide +kernel)
  exact ⟨tr, s, k, hrun, hk, hshown, (shown_of_run hrun (fun x hx => (hatomic x hx).reliable)
    (undisturbed_of_atomic hserver hatomic) hk).1⟩

end ChatSystem
