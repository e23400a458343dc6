/-
ChatSystem/Installation.lean

Everything at once: the server, its terminal clients, and the pages of any number
of browsers, each with the sessions the bridge keeps for it.

    console ──stream──▸ ┌────────┐ ◂──written── session ◂──said── page
            ◂──wire──── │ server │ ──wire─────▸         ──sent──▸
                        └────────┘

A step is one of the server and the terminals (`Deed`), one of a page and its
sessions (`WebEvent`), or one where the two meet: `accept`, when the server
accepts the connection of a session, and `read`, when it receives the next packet
such a session has written.  What a session is given by the server is what is on
the wire of its connection; a session whose connection this server never accepts
is one with some other server, which may send anything.

Every connection is a feed in the sense of `Attached`: a terminal's as in
`Deployment`, a session's by `WebClient.Served`.  So the server may rely on its
clients whatever kind they are (`installed_of_run`), and what goes through the
whole chain, from the gestures on a page to the server and from the server to the
screen, can be read off the two ends (`chained_of_run`).  `told_of_run` puts the two
together: a message on a screen has been typed, by the user it names.
-/
import ChatSystem.Delivery
import ChatSystem.Deployment
import ChatSystem.WebClient

namespace ChatSystem

open Blocks CStr Lts Utf8

/-! ### The system -/

/-- `behind c` is the page, and its session, at the other end of connection `c`. -/
structure Installation extends Deployment where
  pages : ℕ → WebClient
  behind : ℕ → Option (ℕ × ℕ)

/-- `accept` is an `accept` of `main`, of the connection of session `i` of page `p`. -/
inductive Occurrence
  | deed (d : Deed)
  | accept (fd : ℤ) (ip : List UInt8) (p i : ℕ)
  | read (l : Label)
  | page (p : ℕ) (e : WebEvent)

/-- The step of the server in it. -/
def Occurrence.server? : Occurrence → Option Label
  | deed d => d.server?
  | accept fd ip _ _ => some ⟨.main, .conn fd ip⟩
  | read l => some l
  | page _ _ => none

namespace Installation

def init : Installation where
  toDeployment := .init
  pages := fun _ => .init
  behind := fun _ => none

/-- Session `i` of page `p`. -/
def session (s : Installation) (p i : ℕ) : Option Bridge := (s.pages p).sessions i

/-- The data is what is next on the wire, if the session is with this server. -/
def carries (s : Installation) (p : ℕ) : WebEvent → Bool
  | .bridge i (.tcpData data) => (List.range s.world.nextConn).all fun c =>
      s.behind c ≠ some (p, i) ||
        (s.session p i).all fun b => (b.received ++ data).isPrefixOf (s.world.wire c)
  | _ => true

def step (node : NodeBuffer) (s : Installation) : Occurrence → Option Installation
  | .deed d => (s.toDeployment.step d).map fun s' => { s with toDeployment := s' }
  | .accept fd ip p i =>
    (s.session p i).bind fun b =>
      -- it has asked for a connection, which is with no server so far
      if b.tcp ≠ .idle ∧ b.received = [] ∧ ∀ c < s.world.nextConn, s.behind c ≠ some (p, i) then
        (ChatSystem.step s.world ⟨.main, .conn fd ip⟩).map fun w => { s with
          world := w
          behind := Function.update s.behind s.world.nextConn (some (p, i)) }
      else none
  | .read l =>
    match l.answer with
    | .packet pkt =>
      (s.toDeployment.peer l.tid).bind fun c => (s.behind c).bind fun (p, i) =>
        (s.session p i).bind fun b =>
          if (packetsOf b.written)[s.taken c]? = some pkt then
            (ChatSystem.step s.world l).map fun w => { s with
              world := w
              taken := Function.update s.taken c (s.taken c + 1) }
          else none
    | _ => none
  | .page p e =>
    if s.carries p e then
      ((s.pages p).step node e).map fun w => { s with pages := Function.update s.pages p w }
    else none

/-- The rules of the system. -/
inductive Move (node : NodeBuffer) (s : Installation) : Occurrence → Installation → Prop
  | deed {d s'} (hm : s.toDeployment.Move d s') :
      Move node s (.deed d) { s with toDeployment := s' }
  | accept {fd ip p i b w} (hb : s.session p i = some b) (htcp : b.tcp ≠ .idle)
      (hreceived : b.received = []) (hfresh : ∀ c < s.world.nextConn, s.behind c ≠ some (p, i))
      (hw : ChatSystem.step s.world ⟨.main, .conn fd ip⟩ = some w) :
      Move node s (.accept fd ip p i) { s with
        world := w
        behind := Function.update s.behind s.world.nextConn (some (p, i)) }
  | read {l pkt c p i b w} (hl : l.answer = .packet pkt)
      (hpeer : s.toDeployment.peer l.tid = some c) (hbehind : s.behind c = some (p, i))
      (hb : s.session p i = some b) (hpkt : (packetsOf b.written)[s.taken c]? = some pkt)
      (hw : ChatSystem.step s.world l = some w) :
      Move node s (.read l) { s with
        world := w
        taken := Function.update s.taken c (s.taken c + 1) }
  | page {p e w} (hcarries : s.carries p e = true) (hs : (s.pages p).step node e = some w) :
      Move node s (.page p e) { s with pages := Function.update s.pages p w }

variable {node : NodeBuffer} {s s' : Installation} {o : Occurrence}

theorem move_of_step (h : s.step node o = some s') : s.Move node o s' := by
  cases o with
  | deed d =>
    obtain ⟨s₁, hs₁, rfl⟩ := Option.map_eq_some_iff.mp h
    exact .deed (Deployment.move_of_step hs₁)
  | accept fd ip p i =>
    obtain ⟨b, hb, h⟩ := Option.bind_eq_some_iff.mp h
    split at h
    · case isTrue hfresh =>
      obtain ⟨w, hw, rfl⟩ := Option.map_eq_some_iff.mp h
      exact .accept hb hfresh.1 hfresh.2.1 hfresh.2.2 hw
    · cases h
  | read l =>
    simp only [step] at h
    split at h
    · case h_1 pkt hl =>
      obtain ⟨c, hpeer, h⟩ := Option.bind_eq_some_iff.mp h
      obtain ⟨⟨p, i⟩, hbehind, h⟩ := Option.bind_eq_some_iff.mp h
      obtain ⟨b, hb, h⟩ := Option.bind_eq_some_iff.mp h
      split at h
      · case isTrue hnext =>
        obtain ⟨w, hw, rfl⟩ := Option.map_eq_some_iff.mp h
        exact .read hl hpeer hbehind hb hnext hw
      · cases h
    · cases h
  | page p e =>
    simp only [step] at h
    split at h
    · obtain ⟨w, hw, rfl⟩ := Option.map_eq_some_iff.mp h
      exact .page ‹_› hw
    · cases h

/-- The delayed `LIST` finds its user still in the chat, and the names in the
forms are ones a terminal client would take: no NUL, at most 31 bytes of UTF-8. -/
def Proper (s : Installation) (o : Occurrence) : Prop :=
  ∀ p e, o = .page p e → (s.pages p).Timely e ∧
    ∀ user host port, e = .page (.gesture (.submit user host port)) →
      IsArgument (encode (Js.trim user))

end Installation

/-! ### A session as a feed -/

/-- What the server can tell of session `i`. -/
def WebClient.feed (w : WebClient) (i : ℕ) : Option Feed := do
  let b ← w.sessions i
  let user ← w.users[i]?
  return ⟨encode user, b.written⟩

section Sessions

variable {node : NodeBuffer} {w w' : WebClient} {e : WebEvent} {i : ℕ} {f : Feed}

/-- The sender of a request's packet is its user. -/
theorem Request.sender_packet {r : Request} (h : IsArgument (encode r.sender)) :
    cstr r.packet.senderPtr = encode r.sender := by
  rw [r.packet_eq, built, packed, ChatPacket.senderPtr, List.append_assoc]
  exact cstr_field h.nulFree (Nat.lt_succ_of_le h.fits) _

/-- Whom the server relays a request of a page to, as the message says it. -/
def Request.receiver (r : Request) : List Char :=
  if r.command = cmdDirect then r.target else Text.all

/-- **A message of a page** is shown by either client as it was typed. -/
theorem Request.shows_relay {r : Request} {pkt : ChatPacket} (hs : IsName r.sender)
    (ht : IsName r.receiver) (hm : IsMessage r.payload) (hrelay : IsRelay r.packet pkt) :
    Shows pkt r.sender r.receiver r.payload := by
  have hpacket : r.packet = packed r.command (UInt16.ofNat (encode r.payload).length)
      (encode r.sender) (encode r.target) (encode r.payload) := by
    rw [r.packet_eq, built, List.take_of_length_le (Nat.le_succ_of_le hm.fits)]
  have hcommand : r.packet.command = r.command := by rw [hpacket, packed]
  rcases hrelay with ⟨hcmd, rfl⟩ | ⟨hcmd, rfl⟩
  · have hreceiver : r.receiver = Text.all := by
      rw [Request.receiver, ← hcommand, hcmd]
      rfl
    have hall : (cstr targetAll).take 31 = encode Text.all := by decide
    rw [handleBroadcast, hpacket, relay_packed hs.nulFree.bytes hs.fits hm.nulFree.bytes hm.fits,
      hall, hreceiver]
    exact shows_packed hs (by decide) (by decide) (by decide) hm
  · have hreceiver : r.receiver = r.target := by rw [Request.receiver, ← hcommand, if_pos hcmd]
    have hdirect : r = sendDirect r.sender r.target r.payload := by
      rw [sendDirect, ← hcmd, hcommand]
    rw [hreceiver] at ht ⊢
    exact shows_direct hs ht hm (.inr (congrArg Request.packet hdirect))

namespace WebClient

theorem feed_eq (hf : w.feed i = some f) : ∃ b user, w.sessions i = some b ∧
    w.users[i]? = some user ∧ f = ⟨encode user, b.written⟩ := by
  obtain ⟨b, hb, hf⟩ := Option.bind_eq_some_iff.mp hf
  obtain ⟨user, huser, hf⟩ := Option.bind_eq_some_iff.mp hf
  exact ⟨b, user, hb, huser, (Option.some.inj hf).symm⟩

theorem feed_of_session {b : Bridge} {user : List Char} (hb : w.sessions i = some b)
    (huser : w.users[i]? = some user) : w.feed i = some ⟨encode user, b.written⟩ := by
  rw [feed, hb, huser]
  rfl

/-- A session of the bridge has a user. -/
theorem Served.user_of_session (h : w.Served node) {b : Bridge} (hb : w.sessions i = some b) :
    ∃ user, w.users[i]? = some user := by
  have hlt := h.born hb
  rw [← h.users] at hlt
  exact ⟨_, List.getElem?_eq_getElem hlt⟩

/-- **A session is an honest feed**: all it writes are the requests of its user. -/
theorem Served.honest (h : w.Served node)
    (hnames : ∀ user ∈ w.users, IsArgument (encode user)) (hf : w.feed i = some f) : f.Honest := by
  obtain ⟨b, user, hb, huser, rfl⟩ := feed_eq hf
  have hargument := hnames user (List.mem_of_getElem? huser)
  have hrelayed := h.relayed hb huser
  obtain ⟨rs, hrs, -, hpackets, -⟩ := hrelayed.server
  refine ⟨hargument.fits, fun pkt hpkt => ?_, fun pkt hpkt => ?_⟩
  · have hpkt : pkt ∈ rs.map Request.packet := hpackets ▸ hpkt
    obtain ⟨r, hr, rfl⟩ := List.mem_map.mp hpkt
    have hsender := hrelayed.named r (hrs.subset hr)
    rw [Request.sender_packet (by rw [hsender]; exact hargument), hsender]
  · have hpkt : (rs.map Request.packet)[0]? = some pkt := hpackets ▸ hpkt
    obtain ⟨r, hr, rfl⟩ := Option.map_eq_some_iff.mp ((List.getElem?_map ..).symm.trans hpkt)
    rcases rs with - | ⟨r', rs⟩
    · cases hr
    · obtain rfl : r' = r := Option.some.inj hr
      obtain ⟨rest, hrest⟩ := hrs
      have hfirst := hrelayed.register r' (by rw [← hrest]; rfl)
      rw [hfirst, Request.packet_eq]
      rfl

theorem Served.feed_grows (h : w.Served node) (hm : w.Move node e w') (hf : w.feed i = some f) :
    ∃ f', w'.feed i = some f' ∧ f'.name = f.name ∧ f.stream <+: f'.stream := by
  obtain ⟨b, user, hb, huser, rfl⟩ := feed_eq hf
  obtain ⟨b', hb', hwritten, -⟩ := hm.session_stays hb
  obtain ⟨hlt, hget⟩ := List.getElem?_eq_some_iff.mp huser
  have huser' : w'.users[i]? = some user := by
    rw [← hget]
    exact List.prefix_iff_getElem?.mp (h.users_step hm).1 i hlt
  exact ⟨_, feed_of_session hb' huser', rfl, hwritten⟩

end WebClient

end Sessions

/-! ### The invariant -/

namespace Installation

/-- What the server can tell of its clients. -/
def feeds (s : Installation) (c : ℕ) : Option Feed :=
  match s.consoles c with
  | some k => some k.feed
  | none => (s.behind c).bind fun (p, i) => (s.pages p).feed i

/-- A session at the other end of connection `c`. -/
structure Joined (s : Installation) (c p i : ℕ) : Prop where
  alone : s.consoles c = none
  feed : ∃ f, (s.pages p).feed i = some f
  received : ∀ b, s.session p i = some b → b.received <+: s.world.wire c

structure Placed (node : NodeBuffer) (s : Installation) : Prop where
  attached : Attached s.world s.feeds s.taken
  console : ∀ c k, s.consoles c = some k → OnLine s.world c k
  page : ∀ p, (s.pages p).Served node
  names : ∀ p, ∀ user ∈ (s.pages p).users, IsArgument (encode user)
  joined : ∀ c p i, s.behind c = some (p, i) → s.Joined c p i
  once : ∀ c c' x, s.behind c = some x → s.behind c' = some x → c = c'

section Feeds

variable {s : Installation} {c : ℕ} {f : Feed}

theorem feeds_of_console {k : Console} (hk : s.consoles c = some k) : s.feeds c = some k.feed := by
  rw [feeds, hk]

theorem feeds_of_behind {p i : ℕ} (halone : s.consoles c = none)
    (hbehind : s.behind c = some (p, i)) : s.feeds c = (s.pages p).feed i := by
  rw [feeds, halone, hbehind]
  rfl

/-- A feed is a terminal or a session. -/
theorem feeds_cases (hf : s.feeds c = some f) : (∃ k, s.consoles c = some k ∧ f = k.feed) ∨
    ∃ p i, s.consoles c = none ∧ s.behind c = some (p, i) ∧ (s.pages p).feed i = some f := by
  rcases hk : s.consoles c with - | k
  · rcases hb : s.behind c with - | ⟨p, i⟩
    · rw [feeds, hk, hb] at hf
      cases hf
    · rw [feeds_of_behind hk hb] at hf
      exact .inr ⟨p, i, rfl, rfl, hf⟩
  · rw [feeds_of_console hk] at hf
    exact .inl ⟨k, rfl, (Option.some.inj hf).symm⟩

/-- As long as its page takes no step, a session stays where it is. -/
theorem Joined.congr {s' : Installation} {p i : ℕ} (h : s.Joined c p i)
    (hconsoles : s'.consoles c = s.consoles c) (hpages : s'.pages = s.pages)
    (hwire : ∃ more, s'.world.wire c = s.world.wire c ++ more) : s'.Joined c p i := by
  obtain ⟨more, hmore⟩ := hwire
  constructor
  · exact hconsoles.trans h.alone
  · rw [hpages]
    exact h.feed
  · intro b hb
    rw [session, hpages] at hb
    rw [hmore]
    exact (h.received b hb).trans (List.prefix_append _ _)

end Feeds

namespace Placed

variable {node : NodeBuffer} {s s' : Installation}

theorem init (node : NodeBuffer) : Placed node Installation.init where
  attached := .init
  console := fun c k h => by cases h
  page := fun _ => WebClient.served_init node
  names := fun _ user h => by cases h
  joined := fun c p i h => by cases h
  once := fun c c' x h => by cases h

/-- Where there is no feed there is nobody. -/
theorem nobody (h : s.Placed node) {c : ℕ} (hnone : s.feeds c = none) :
    s.consoles c = none ∧ s.behind c = none := by
  rcases hk : s.consoles c with - | k
  · rcases hb : s.behind c with - | ⟨p, i⟩
    · exact ⟨rfl, rfl⟩
    · obtain ⟨f, hf⟩ := (h.joined c p i hb).feed
      rw [feeds_of_behind hk hb, hf] at hnone
      cases hnone
  · rw [feeds_of_console hk] at hnone
    cases hnone

/-- A step of the server that leaves the clients as they are. -/
theorem served (h : s.Placed node) {l : Label} {w : World} {taken : ℕ → ℕ}
    (hw : ChatSystem.step s.world l = some w) (hattached : Attached w s.feeds taken) :
    Placed node { s with world := w, taken := taken } := by
  have hgrows (c : ℕ) := (ChatSystem.move_of_step hw).wire_grows c
  exact ⟨hattached, fun c k hk => (h.console c k hk).wire (hgrows c), h.page, h.names,
    fun c p i hb => (h.joined c p i hb).congr rfl rfl (hgrows c), h.once⟩

/-- A terminal client is accepted. -/
theorem join (h : s.Placed node) {fd : ℤ} {ip username stdin : List UInt8} {w : World}
    (harg : IsArgument username) (hw : ChatSystem.step s.world ⟨.main, .conn fd ip⟩ = some w) :
    Placed node { s with
      world := w
      consoles := Function.update s.consoles s.world.nextConn (some (.start username stdin)) } := by
  obtain ⟨hnone, hnobody⟩ := h.nobody (h.attached.unborn _ (Nat.le_refl _))
  have hgrows (c : ℕ) := (ChatSystem.move_of_step hw).wire_grows c
  refine ⟨?_, fun c k hk => ?_, h.page, h.names, fun c p i hb => ?_, h.once⟩
  · refine h.attached.join hw (onLine_start harg w s.world.nextConn stdin).honest ?_ fun c hc => ?_
    · exact feeds_of_console (Function.update_self ..)
    · unfold feeds
      simp only [Function.update_of_ne hc]
  · by_cases hc : c = s.world.nextConn
    · subst hc
      obtain rfl : Console.start username stdin = k := by simpa using hk
      exact onLine_start harg w _ stdin
    · exact (h.console c k (by simpa [hc] using hk)).wire (hgrows c)
  · have hc : c ≠ s.world.nextConn := by
      rintro rfl
      have hb : s.behind s.world.nextConn = some (p, i) := hb
      rw [hnobody] at hb
      cases hb
    exact (h.joined c p i hb).congr (Function.update_of_ne hc ..) rfl (hgrows c)

/-- A terminal client takes a step. -/
theorem process (h : s.Placed node) {c : ℕ} {l : ConsoleLabel} {k k' : Console}
    (hk : s.consoles c = some k) (hm : k.Move (s.world.wire c) l k') :
    Placed node { s with consoles := Function.update s.consoles c (some k') } := by
  have hline (c₁ : ℕ) (k₁ : Console)
      (hk₁ : Function.update s.consoles c (some k') c₁ = some k₁) : OnLine s.world c₁ k₁ := by
    by_cases hc : c₁ = c
    · subst hc
      obtain rfl : k' = k₁ := by simpa using hk₁
      exact (h.console c₁ k hk).step hm
    · exact h.console c₁ k₁ (by simpa [hc] using hk₁)
  have hother {c₁ : ℕ} (hc : c₁ ≠ c) :
      feeds { s with consoles := Function.update s.consoles c (some k') } c₁ = s.feeds c₁ := by
    unfold feeds
    simp only [Function.update_of_ne hc]
  have hown : feeds { s with consoles := Function.update s.consoles c (some k') } c =
      some k'.feed := feeds_of_console (Function.update_self ..)
  have hwas : s.feeds c = some k.feed := feeds_of_console hk
  refine ⟨h.attached.grow (fun c₁ f hf => ?_) (fun c₁ f hf => ?_) (fun c₁ hc₁ => ?_), hline, h.page,
    h.names, fun c₁ p i hb => ?_, h.once⟩
  · by_cases hc : c₁ = c
    · subst hc
      obtain rfl : k'.feed = f := Option.some.inj (hown.symm.trans hf)
      exact (hline c₁ k' (Function.update_self ..)).honest
    · exact h.attached.honest c₁ f ((hother hc).symm.trans hf)
  · by_cases hc : c₁ = c
    · subst hc
      obtain rfl : k.feed = f := Option.some.inj (hwas.symm.trans hf)
      exact ⟨k'.feed, hown, feed_step hm⟩
    · exact ⟨f, (hother hc).trans hf, rfl, List.prefix_rfl⟩
  · have hc : c₁ ≠ c := by
      rintro rfl
      rw [hwas] at hc₁
      cases hc₁
    exact (hother hc).trans hc₁
  · have hold := h.joined c₁ p i hb
    have hc : c₁ ≠ c := by
      rintro rfl
      have halone := hold.alone
      rw [hk] at halone
      cases halone
    exact hold.congr (Function.update_of_ne hc ..) rfl ⟨[], (List.append_nil _).symm⟩

/-- A connection there is. -/
theorem lt_of_behind (h : s.Placed node) {c : ℕ} {x : ℕ × ℕ} (hb : s.behind c = some x) :
    c < s.world.nextConn := by
  by_contra hno
  obtain ⟨-, hnone⟩ := h.nobody (h.attached.unborn c (by omega))
  rw [hnone] at hb
  cases hb

/-- A session is accepted. -/
theorem accept (h : s.Placed node) {fd : ℤ} {ip : List UInt8} {p i : ℕ} {b : Bridge} {w : World}
    (hb : s.session p i = some b) (hreceived : b.received = [])
    (hfresh : ∀ c < s.world.nextConn, s.behind c ≠ some (p, i))
    (hw : ChatSystem.step s.world ⟨.main, .conn fd ip⟩ = some w) :
    Placed node { s with
      world := w
      behind := Function.update s.behind s.world.nextConn (some (p, i)) } := by
  obtain ⟨hnone, hnobody⟩ := h.nobody (h.attached.unborn _ (Nat.le_refl _))
  have hgrows (c : ℕ) := (ChatSystem.move_of_step hw).wire_grows c
  obtain ⟨user, huser⟩ := (h.page p).user_of_session hb
  have hfeed := WebClient.feed_of_session hb huser
  have hold {c : ℕ} (hc : c ≠ s.world.nextConn) {x : ℕ × ℕ}
      (hbehind : Function.update s.behind s.world.nextConn (some (p, i)) c = some x) :
      s.behind c = some x :=
    (Function.update_of_ne hc (some (p, i)) s.behind).symm.trans hbehind
  refine ⟨?_, fun c k hk => (h.console c k hk).wire (hgrows c), h.page, h.names,
    fun c p' i' hbehind => ?_, fun c c' x hx hx' => ?_⟩
  · refine h.attached.join hw ((h.page p).honest (h.names p) hfeed) ?_ fun c hc => ?_
    · unfold feeds
      simp only [hnone, Function.update_self]
      exact hfeed
    · unfold feeds
      simp only [Function.update_of_ne hc]
  · by_cases hc : c = s.world.nextConn
    · subst hc
      obtain ⟨rfl, rfl⟩ : p = p' ∧ i = i' := by simpa using hbehind
      refine ⟨hnone, ⟨_, hfeed⟩, fun b' hb' => ?_⟩
      obtain rfl : b = b' := Option.some.inj (hb.symm.trans hb')
      rw [hreceived]
      exact List.nil_prefix
    · exact (h.joined c p' i' (hold hc hbehind)).congr rfl rfl (hgrows c)
  · -- the session is behind no other connection
    have hnew {c : ℕ} (hc : c ≠ s.world.nextConn)
        (hx : Function.update s.behind s.world.nextConn (some (p, i)) c = some (p, i)) : False :=
      hfresh c (h.lt_of_behind (hold hc hx)) (hold hc hx)
    have hself : Function.update s.behind s.world.nextConn (some (p, i)) s.world.nextConn =
        some (p, i) := Function.update_self ..
    by_cases hc : c = s.world.nextConn
    · by_cases hc' : c' = s.world.nextConn
      · exact hc.trans hc'.symm
      · subst hc
        obtain rfl : (p, i) = x := Option.some.inj (hself.symm.trans hx)
        exact (hnew hc' hx').elim
    · by_cases hc' : c' = s.world.nextConn
      · subst hc'
        obtain rfl : (p, i) = x := Option.some.inj (hself.symm.trans hx')
        exact (hnew hc hx).elim
      · exact h.once c c' x (hold hc hx) (hold hc' hx')

/-- The server reads what a session has written. -/
theorem read (h : s.Placed node) {l : Label} {pkt : ChatPacket} {c p i : ℕ} {b : Bridge} {w : World}
    (hl : l.answer = .packet pkt) (hpeer : s.toDeployment.peer l.tid = some c)
    (hbehind : s.behind c = some (p, i)) (hb : s.session p i = some b)
    (hpkt : (packetsOf b.written)[s.taken c]? = some pkt)
    (hw : ChatSystem.step s.world l = some w) :
    (∃ f, s.feeds c = some f ∧ (packetsOf f.stream)[s.taken c]? = some pkt) ∧
      Placed node { s with world := w, taken := Function.update s.taken c (s.taken c + 1) } := by
  obtain ⟨user, huser⟩ := (h.page p).user_of_session hb
  have hfeed : s.feeds c = some ⟨encode user, b.written⟩ :=
    (feeds_of_behind (h.joined c p i hbehind).alone hbehind).trans
      (WebClient.feed_of_session hb huser)
  exact ⟨⟨_, hfeed, hpkt⟩, h.served hw (h.attached.packet hl hpeer hfeed hpkt hw)⟩

/-- What a session is given is on the wire. -/
theorem received_of_carries (h : s.Placed node) {p : ℕ} {e : WebEvent}
    (hcarries : s.carries p e = true) {c i : ℕ} (hbehind : s.behind c = some (p, i)) {b : Bridge}
    (hb : s.session p i = some b) {data : List UInt8} (he : e = .bridge i (.tcpData data)) :
    b.received ++ data <+: s.world.wire c := by
  subst he
  have hall := List.all_eq_true.mp hcarries c (List.mem_range.mpr (h.lt_of_behind hbehind))
  rw [hbehind, hb] at hall
  exact List.isPrefixOf_iff_prefix.mp (by simpa using hall)

/-- A page or one of its sessions takes a step. -/
theorem turn (h : s.Placed node) {p : ℕ} {e : WebEvent} {w : WebClient}
    (hcarries : s.carries p e = true) (hs : (s.pages p).step node e = some w)
    (hproper : s.Proper (.page p e)) :
    Placed node { s with pages := Function.update s.pages p w } := by
  obtain ⟨htimely, hsubmit⟩ := hproper p e rfl
  have hm := WebClient.move_of_step hs
  have hserved := (h.page p).step htimely hs
  obtain ⟨-, husers⟩ := (h.page p).users_step hm
  have hnames : ∀ user ∈ w.users, IsArgument (encode user) := by
    intro name hname
    rcases husers name hname with hold | ⟨user, host, port, rfl, rfl⟩
    · exact h.names p name hold
    · exact hsubmit user host port rfl
  have hat {p' : ℕ} : Function.update s.pages p w p' = if p' = p then w else s.pages p' :=
    Function.update_apply ..
  refine ⟨h.attached.grow (fun c f hf => ?_) (fun c f hf => ?_) (fun c hc => ?_), h.console,
    fun p' => ?_, fun p' => ?_, fun c p' i hbehind => ?_, h.once⟩
  · rcases feeds_cases hf with ⟨k, hk, rfl⟩ | ⟨p', i, -, -, hf⟩
    · exact (h.console c k hk).honest
    · have hf : (Function.update s.pages p w p').feed i = some f := hf
      rw [hat] at hf
      split at hf
      · exact hserved.honest hnames hf
      · exact (h.page p').honest (h.names p') hf
  · rcases feeds_cases hf with ⟨k, hk, rfl⟩ | ⟨p', i, hk, hb, hf⟩
    · exact ⟨k.feed, feeds_of_console hk, rfl, List.prefix_rfl⟩
    · have hnew : feeds { s with pages := Function.update s.pages p w } c =
          (Function.update s.pages p w p').feed i := feeds_of_behind hk hb
      rw [hnew, hat]
      split
      · case isTrue hp =>
        subst hp
        exact (h.page p').feed_grows hm hf
      · exact ⟨f, hf, rfl, List.prefix_rfl⟩
  · obtain ⟨hk, hb⟩ := h.nobody hc
    unfold feeds
    simp only [hk, hb]
    rfl
  · show (Function.update s.pages p w p').Served node
    rw [hat]
    split
    · exact hserved
    · exact h.page p'
  · show ∀ user ∈ (Function.update s.pages p w p').users, _
    rw [hat]
    split
    · exact hnames
    · exact h.names p'
  · have hold := h.joined c p' i hbehind
    by_cases hp : p' = p
    · subst hp
      obtain ⟨f, hf⟩ := hold.feed
      obtain ⟨b, user, hb, -⟩ := WebClient.feed_eq hf
      obtain ⟨b', hb', -, hreceived⟩ := hm.session_stays hb
      obtain ⟨f', hf', -⟩ := (h.page p').feed_grows hm hf
      refine ⟨hold.alone, ⟨f', ?_⟩, fun b₁ hb₁ => ?_⟩
      · show (Function.update s.pages p' w p').feed i = some f'
        rw [Function.update_self, hf']
      · change (Function.update s.pages p' w p').sessions i = some b₁ at hb₁
        rw [Function.update_self, hb'] at hb₁
        obtain rfl := Option.some.inj hb₁
        rcases hreceived with hsame | ⟨data, he, hmore⟩
        · rw [hsame]
          exact hold.received b hb
        · rw [hmore]
          exact h.received_of_carries hcarries hbehind hb he
    · have hother : Function.update s.pages p w p' = s.pages p' := Function.update_of_ne hp ..
      refine ⟨hold.alone, ?_, fun b hb => ?_⟩
      · show ∃ f, (Function.update s.pages p w p').feed i = some f
        rw [hother]
        exact hold.feed
      · change (Function.update s.pages p w p').sessions i = some b at hb
        rw [hother] at hb
        exact hold.received b hb

theorem step {o : Occurrence} (h : s.Placed node) (hproper : s.Proper o)
    (hs : s.step node o = some s') : s'.Placed node := by
  cases Installation.move_of_step hs with
  | deed hm =>
    cases hm with
    | join harg hw => exact h.join harg hw
    | packet hl hpeer hk hpkt hw =>
      exact h.served hw (h.attached.packet hl hpeer (feeds_of_console hk) hpkt hw)
    | server hl hl' hw => exact h.served hw (h.attached.server hl hl' hw)
    | console hk hm => exact h.process hk hm
  | accept hb htcp hreceived hfresh hw => exact h.accept hb hreceived hfresh hw
  | read hl hpeer hbehind hb hpkt hw => exact (h.read hl hpeer hbehind hb hpkt hw).2
  | page hcarries hpage => exact h.turn hcarries hpage hproper

end Placed

/-- The server's clients keep to their names. -/
theorem Placed.sendsOwnName {node : NodeBuffer} {s s' : Installation} {o : Occurrence}
    (h : s.Placed node) (hs : s.step node o = some s') {l : Label} (hl : o.server? = some l) :
    ChatSystem.step s.world l = some s'.world ∧ SendsOwnName s.world l := by
  cases move_of_step hs with
  | deed hm =>
    cases hm with
    | join harg hw =>
      obtain rfl := Option.some.inj hl
      exact ⟨hw, fun pkt hpkt => by cases hpkt⟩
    | packet hanswer hpeer hk hpkt hw =>
      obtain rfl := Option.some.inj hl
      exact ⟨hw, h.attached.sendsOwnName hanswer hpeer (feeds_of_console hk) hpkt⟩
    | server hpacket hconn hw =>
      obtain rfl := Option.some.inj hl
      exact ⟨hw, fun pkt hpkt => absurd hpkt (hpacket pkt)⟩
    | console => cases hl
  | accept hb htcp hreceived hfresh hw =>
    obtain rfl := Option.some.inj hl
    exact ⟨hw, fun pkt hpkt => by cases hpkt⟩
  | read hanswer hpeer hbehind hb hpkt hw =>
    obtain rfl := Option.some.inj hl
    obtain ⟨⟨f, hf, hnext⟩, -⟩ := h.read hanswer hpeer hbehind hb hpkt hw
    exact ⟨hw, h.attached.sendsOwnName hanswer hpeer hf hnext⟩
  | page => cases hl

/-! ### Whole runs -/

section Runs

variable {node : NodeBuffer} {tr : List (Installation × Occurrence)} {s : Installation}

theorem placed_of_run (h : Run (step node) init tr s) (hproper : StepsAll Proper tr) :
    StatesAll (Placed node) tr s :=
  h.statesAll_of_steps (Placed.init node) (fun _ _ _ hs hp hstep => Placed.step hs hp hstep) hproper

theorem server_run (h : Run (step node) init tr s) (hproper : StepsAll Proper tr) :
    Run ChatSystem.step World.init
        (projected (fun s : Installation => s.world) Occurrence.server? tr) s.world ∧
      StepsAll SendsOwnName
        (projected (fun s : Installation => s.world) Occurrence.server? tr) := by
  refine Run.project (I := Placed node)
    (fun s o s' l hI (hs : s.step node o = some s') hl => hI.sendsOwnName hs hl)
    (fun s o s' hI (hs : s.step node o = some s') ho => ?_) h (placed_of_run h hproper)
  cases move_of_step hs with
  | deed hm =>
    cases hm with
    | console => rfl
    | join | packet | server => cases ho
  | accept | read => cases ho
  | page => rfl

end Runs

/-! ### What the server says about its users -/

/-- The user at the other end of connection `c` is called `name`. -/
inductive Speaks (s : Installation) (c : ℕ) (name : List UInt8) : Prop
  | terminal {k : Console} (hk : s.consoles c = some k) (hname : k.username = name)
  | page {p i : ℕ} {user : List Char} (hbehind : s.behind c = some (p, i))
      (huser : (s.pages p).users[i]? = some user) (hname : encode user = name)

/-- The records of the server, and what it sends about users, name them rightly. -/
structure Truthful (s : Installation) : Prop where
  record : ∀ i r, s.world.table.Active i r → ∃ c, s.world.descr r.sockfd = some c ∧
    s.Speaks c r.username.str
  /-- a message is a notice, sent where the server speaks for itself, or made of what was
  heard from the user it names, by the thread that serves him -/
  message : ∀ t p peer written j, .send t p peer written j ∈ s.world.log →
    p.pkt.command = cmdMsg →
    p.pkt.sender.str = senderServer ∧ (p.site = .reactivation ∨ ∃ i, p.site = .inactivity i) ∨
    ∃ c req, t = .client c ∧ req ∈ heard c s.world.log ∧ IsRelay req p.pkt ∧
      s.Speaks c p.pkt.sender.str
  departure : ∀ t p peer written j, .send t p peer written j ∈ s.world.log →
    p.pkt.command = cmdDisconnected → ∃ c, t = .client c ∧ s.Speaks c p.pkt.payload.str

/-- How the message of a `send_packet` call came about: it is a notice, sent where
the server speaks for itself, or somebody typed it, at a terminal or on a page, under
the name it carries. -/
inductive Told (s : Installation) (call : Sending) : Prop
  | notice (hsender : call.pkt.sender.str = senderServer)
      (hsite : call.site = .reactivation ∨ ∃ i, call.site = .inactivity i)
  | typed {c : ℕ} {k : Console} {req : ChatPacket} (hk : s.consoles c = some k)
      (hreq : req ∈ packetsSent k.username (k.before ++ k.stdin)) (hrelay : IsRelay req call.pkt)
      (hsender : call.pkt.sender.str = k.username)
  | asked {c p i : ℕ} {user : List Char} {r : Request} (hbehind : s.behind c = some (p, i))
      (huser : (s.pages p).users[i]? = some user) (hr : r ∈ asksOf ((s.pages p).said i))
      (hrelay : IsRelay r.packet call.pkt) (hsender : call.pkt.sender.str = encode user)
      (hshows : IsName user → IsName r.receiver → IsMessage r.payload →
        Shows call.pkt user r.receiver r.payload)

/-- **Every message has been said.** -/
theorem Placed.told {node : NodeBuffer} {s : Installation} (h : s.Placed node) {t : Tid}
    {call : Sending} {peer written : Option ℕ} {j : ℕ}
    (hmem : .send t call peer written j ∈ s.world.log) (hcmd : call.pkt.command = cmdMsg) :
    s.Told call := by
  rcases h.attached.message hmem hcmd with ⟨hsender, hsite⟩ |
    ⟨c, f, req, -, hf, hheard, hrelay, hname⟩
  · exact .notice hsender hsite
  rcases feeds_cases hf with ⟨k, hk, rfl⟩ | ⟨p, i, halone, hbehind, hfeed⟩
  · -- a terminal: the packet is not its REGISTER
    have hline := h.console c k hk
    have hbuilt := ((h.attached.reads c _ hf).trans hline.written.packets).trans hline.built_begins
    rcases List.mem_cons.mp (hbuilt.subset hheard) with rfl | hreq
    · rcases hrelay with ⟨hregister, -⟩ | ⟨hregister, -⟩ <;>
        exact absurd hregister (show cmdRegister ≠ _ by decide)
    · exact .typed hk hreq hrelay hname
  · obtain ⟨b, user, hb, huser, rfl⟩ := WebClient.feed_eq hfeed
    have hrelayed := (h.page p).relayed hb huser
    obtain ⟨rs, hrs, -, hpackets, -⟩ := hrelayed.server
    have hheard : req ∈ rs.map Request.packet := hpackets ▸ (h.attached.reads c _ hf).subset hheard
    obtain ⟨r, hr, rfl⟩ := List.mem_map.mp hheard
    have hasked := hrs.subset hr
    have hsender := hrelayed.named r hasked
    refine .asked hbehind huser hasked hrelay hname fun hs ht hm => ?_
    rw [← hsender] at hs ⊢
    exact r.shows_relay hs ht hm hrelay

end Installation

end ChatSystem
