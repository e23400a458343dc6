/-
ChatSystem/DirectLoss.lean

`handle_direct` when `send()` may fail.  A target that is not in the table is
reported to the sender with an `ERROR`.  A target that is there, but whose
connection breaks while the message is written, is not: `send_packet` returns
`-1` and `handle_direct` does not look.

So a message is neither delivered nor reported exactly when the target is
found and a call of `send()` on its socket fails
(`notLost_iff`).
-/
import ChatSystem.Replay
import ChatSystem.Streams

namespace ChatSystem

open CStr

/-- A call of `send_packet`: the descriptor, the packet, and the bytes of it
that were written. -/
structure Written where
  fd : ℤ
  pkt : ChatPacket
  written : List UInt8
deriving DecidableEq

/-- What `send` returns on a descriptor, call by call. -/
abbrev Sockets := ℤ → ℕ → ℕ → ℤ

/-- `send_packet(fd, &pkt)`, its result dropped. -/
def sendTo (send : Sockets) (fd : ℤ) (pkt : ChatPacket) : Written :=
  ⟨fd, pkt, (sendPacket (send fd) pkt).2⟩

/-- `handle_direct(sockfd, pkt)`: the calls of `send_packet` it makes. -/
def directSends (send : Sockets) (t : Table) (sockfd : ℤ) (pkt : ChatPacket) : List Written :=
  match clFindByName t pkt.targetPtr with
  | some idx => [sendTo send (t.at idx).sockfd (handleDirect pkt)]
  | none => [sendTo send sockfd (directError pkt)]

/-- These are the calls of the server's thread. -/
theorem directSends_eq_sending (send : Sockets) (w : World) (c : ℕ) (fd : ℤ) {pkt : ChatPacket}
    (hpkt : pkt.command = cmdDirect) :
    ∃ s site, directSends send w.table fd pkt = [s] ∧
      (handle w c fd pkt).sending (.client c) = some ⟨s.fd, s.pkt, 0, site⟩ := by
  have hbroadcast : ¬ pkt.command = cmdBroadcast := by
    rw [hpkt]
    decide
  unfold directSends handle
  rw [if_neg hbroadcast, if_pos hpkt]
  cases clFindByName w.table pkt.targetPtr with
  | some idx => exact ⟨_, .direct pkt idx, rfl, Function.update_self ..⟩
  | none => exact ⟨_, .reply pkt, rfl, Function.update_self ..⟩

/-- The message was written whole to the target's socket, or its sender is sent
an `ERROR`. -/
def NotLost (send : Sockets) (t : Table) (sockfd : ℤ) (pkt : ChatPacket) : Prop :=
  (∃ idx, clFindByName t pkt.targetPtr = some idx ∧ ∃ s ∈ directSends send t sockfd pkt,
    s.fd = (t.at idx).sockfd ∧ s.pkt = handleDirect pkt ∧ s.written = s.pkt.toBytes) ∨
  ∃ s ∈ directSends send t sockfd pkt, s.fd = sockfd ∧ s.pkt.command = cmdError

section Found

variable {send : Sockets} {t : Table} {sockfd : ℤ} {pkt : ChatPacket}

/-- Nobody there: the sender is told. -/
theorem notLost_of_absent (hfind : clFindByName t pkt.targetPtr = none) :
    NotLost send t sockfd pkt := by
  unfold NotLost directSends
  rw [hfind]
  exact .inr ⟨_, List.mem_singleton_self _, rfl, rfl⟩

/-- Somebody there: only the writes decide. -/
theorem notLost_iff_of_found {idx : ℕ} (hfind : clFindByName t pkt.targetPtr = some idx) :
    NotLost send t sockfd pkt ↔ NeverFails (send (t.at idx).sockfd) := by
  unfold NotLost directSends
  rw [hfind]
  constructor
  · rintro (⟨_, hidx, s, hs, -, -, hwritten⟩ | ⟨s, hs, -, herror⟩)
    · obtain rfl := Option.some.inj hidx
      obtain rfl := List.mem_singleton.mp hs
      exact sendPacket_complete_iff.mp hwritten
    · -- the one packet made is a `MSG`
      obtain rfl := List.mem_singleton.mp hs
      have hmsg : cmdMsg = cmdError := herror
      exact absurd hmsg (by decide)
  · intro h
    exact .inl ⟨idx, rfl, _, List.mem_singleton_self _, rfl, rfl, sendPacket_complete_iff.mpr h⟩

end Found

/-- **A direct message is not lost silently** exactly when no `send()` to the
target that was found fails. -/
theorem notLost_iff (send : Sockets) (t : Table) (sockfd : ℤ) (pkt : ChatPacket) :
    NotLost send t sockfd pkt ↔
      ∀ idx, clFindByName t pkt.targetPtr = some idx → NeverFails (send (t.at idx).sockfd) := by
  rcases hfind : clFindByName t pkt.targetPtr with - | idx
  · refine ⟨fun _ idx hidx => ?_, fun _ => notLost_of_absent hfind⟩
    cases hidx
  · rw [notLost_iff_of_found hfind]
    refine ⟨fun h idx' hidx' => ?_, fun h => h idx rfl⟩
    obtain rfl := Option.some.inj hidx'
    exact h

/-- Alice's message to Bob, whose connection is broken. -/
theorem direct_lost :
    ¬ ∀ (send : Sockets) (t : Table) (sockfd : ℤ) (pkt : ChatPacket), pkt.command = cmdDirect →
      NotLost send t sockfd pkt := by
  intro hall
  have hlost := hall (fun _ _ _ => -1) twoUsers 4
    (clientPacket cmdDirect alice bob (utf8 "hola")) rfl
  have hfind : clFindByName twoUsers (clientPacket cmdDirect alice bob (utf8 "hola")).targetPtr =
      some 1 := by decide
  have hsends : NeverFails fun _ _ => -1 := (notLost_iff_of_found hfind).mp hlost
  exact absurd (hsends 0 (by decide)) (by decide)

end ChatSystem
