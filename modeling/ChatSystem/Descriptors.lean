/-
ChatSystem/Descriptors.lean

The life of a descriptor.  Descriptor numbers are recycled, so the history
records for every `recv`, `send()` and `close` the connection the number
denoted at that moment (`peer`).  `Proper` says what that connection must be:
accepted under this number and not yet closed; and, for a packet sent through
`lista[i].sockfd`, the connection that registered record `i`.
-/
import ChatSystem.Representation

namespace ChatSystem

open CStr Lts

/-- `accept` has returned `fd` for connection `c`, and `c` is not closed. -/
def Open (h : List Event) (c : ℕ) (fd : ℤ) : Prop :=
  (∃ ip, Event.accepted c fd ip ∈ h) ∧ ∀ fd' peer, Event.closed c fd' peer ∉ h

/-- What an event owes to the events before it. -/
def Proper : Event → List Event → Prop
  | .accepted c _ _, h => ∀ fd ip, Event.accepted c fd ip ∉ h
  | .closed c fd peer, h => peer = some c ∧ Open h c fd
  | .received _ fd peer _, h | .recvFailed _ fd peer, h =>
    ∃ c, peer = some c ∧ Open h c fd
  | .send _ s peer _ _, h => ∃ c, peer = some c ∧ Open h c s.fd ∧
      ∀ i, s.site.slot? = some i → ∃ r, Live h c i r ∧ r.sockfd = s.fd
  | .checked c found, h => found = true ↔ ∃ i r, Event.registered c i r ∈ h
  | _, _ => True

/-- A connection not registered now has never been, unless it was removed. -/
theorem not_registered_of_connected {h : List Event} (hd : Always Allowed h) {c : ℕ} {fd : ℤ}
    {ip : List UInt8} (hph : phase h c = .connected fd ip) (i : ℕ) (r : Cliente) :
    Event.registered c i r ∉ h := by
  intro hreg
  rcases phase_of_registered hd hreg with hreg | hrem
  · rw [hph] at hreg
    cases hreg
  · rcases phase_of_removed hd hrem with ⟨fd', hleft⟩ | hgone
    · rw [hph] at hleft
      cases hleft
    · rw [hph] at hgone
      cases hgone

theorem proper_of_allowed (e : Event) (h : List Event) (hd : Always Allowed h)
    (hall : Allowed e h) : Proper e h := by
  have hopen : ∀ {c fd}, (phase h c).fd? = some fd → Open h c fd := accepted_mem_of_fd? hd
  cases e with
  | accepted c fd ip =>
    intro fd' ip' hacc
    exact phase_ne_fresh_of_accepted hd hacc hall
  | closed c fd peer =>
    obtain ⟨hpeer, ⟨ip, hph⟩ | hph⟩ := hall
    · exact ⟨hpeer, hopen (by rw [hph]; rfl)⟩
    · exact ⟨hpeer, hopen (by rw [hph]; rfl)⟩
  | received t fd peer pkt | recvFailed t fd peer =>
    obtain ⟨c, hpeer, -, hfd⟩ := hall
    exact ⟨c, hpeer, hopen hfd⟩
  -- a call for a slot goes to the connection registered in it
  | send t s peer written k =>
    obtain ⟨c, hpeer, hfd, hsite⟩ := hall
    refine ⟨c, hpeer, hopen hfd, fun i hi => ?_⟩
    rw [hi] at hsite
    obtain ⟨-, r, hph⟩ := hsite
    refine ⟨r, (phase_registered_iff hd).mp hph, ?_⟩
    rw [hph] at hfd
    exact Option.some.inj hfd
  | checked c found =>
    rcases hall with ⟨rfl, fd, ip, hph⟩ | ⟨rfl, i, r, hph⟩
    · refine iff_of_false (by simp) ?_
      rintro ⟨i, r, hreg⟩
      exact not_registered_of_connected hd hph i r hreg
    · exact iff_of_true rfl ⟨i, r, registered_mem_of_phase hph⟩
  | _ => trivial

/-- **Descriptors are used between their `accept` and their `close` only**,
for the right connection, and closed once: every event of the history is
proper, every `send_packet` call in progress goes to an open connection, and
every thread's own descriptor is open while it may still use it. -/
theorem proper_of_reachable {w : World} (h : Reachable step World.init w) :
    (∀ newer e older, w.log = newer ++ e :: older → Proper e older) ∧
    (∀ t s, w.sending t = some s → ∃ c, w.descr s.fd = some c ∧ Open w.log c s.fd) ∧
    ∀ t fd, (w.pc t).fd? = some fd → ∃ c, w.descr fd = some c ∧ Open w.log c fd := by
  have hinv := inv_of_reachable h
  have hd := hinv.core.disciplined
  refine ⟨always_iff.mp (hd.imp proper_of_allowed), fun t s hs => ?_, fun t fd hfd => ?_⟩
  · obtain ⟨c, hdescr, -⟩ := hinv.send_allowed hs
    exact ⟨c, hdescr, accepted_mem_of_fd? hd ((hinv.core.descr _ _).mp hdescr)⟩
  · obtain ⟨c, hc, -⟩ := Inv.conn_of_fd? (hinv.runBy rfl) hfd
    obtain ⟨hdescr, hph⟩ := hinv.own_descr rfl hc hfd
    exact ⟨c, hdescr, accepted_mem_of_fd? hd hph⟩

/-- A user joins, leaves, and the next one gets the same descriptor. -/
def reused : List Label :=
  joining 4 (ip 1) (registerPacket alice) ++
    [⟨.client 0, .fail⟩, ⟨.client 0, .go⟩, ⟨.client 0, .go⟩, ⟨.client 0, .go⟩] ++
    joining 4 (ip 1) (registerPacket bob)

theorem proper_reused : ∃ w, Reachable step World.init w ∧ w.descr 4 = some 1 ∧
    (∀ newer e older, w.log = newer ++ e :: older → Proper e older) ∧
    (∀ t s, w.sending t = some s → ∃ c, w.descr s.fd = some c ∧ Open w.log c s.fd) ∧
    ∀ t fd, (w.pc t).fd? = some fd → ∃ c, w.descr fd = some c ∧ Open w.log c fd := by
  have hexec : (exec step World.init reused).any (fun w => w.descr 4 == some 1) = true := by
    decide +kernel
  obtain ⟨w, hw, hdescr⟩ := exists_reachable hexec
  exact ⟨w, hw, by simpa using hdescr, proper_of_reachable hw⟩

end ChatSystem
