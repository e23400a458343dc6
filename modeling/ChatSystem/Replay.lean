/-
ChatSystem/Replay.lean

Concrete runs.  A run is a list of labels, and the clients' side of the
protocol says which labels make sense: `clientPacket` is a packet as a client
fills it, `joining` the six steps from `accept` to the client's own thread.
The runs of later modules are put together from these and replayed by
`Lts.exec`.
-/
import ChatSystem.Effects

namespace ChatSystem

open CStr Lts

/-- A packet as `cliente.c` and the bridge fill it. -/
def clientPacket (command : UInt8) (sender target payload : List UInt8) : ChatPacket :=
  fillPacket command sender target payload

/-- `REGISTER` of a user name. -/
def registerPacket (username : List UInt8) : ChatPacket :=
  clientPacket cmdRegister username [] username

/-- From `accept` to the reply to the `REGISTER`, not yet sent. -/
def registering (fd : ℤ) (ip : List UInt8) (pkt : ChatPacket) : List Label :=
  [⟨.main, .conn fd ip⟩, ⟨.main, .packet pkt⟩, ⟨.main, .clock 0⟩]

/-- From `accept` to the start of the client's thread, the reply sent whole. -/
def joining (fd : ℤ) (ip : List UInt8) (pkt : ChatPacket) : List Label :=
  registering fd ip pkt ++ [⟨.main, .wrote 1024⟩, ⟨.main, .go⟩, ⟨.main, .go⟩]

/-- The thread of connection `c` goes on. -/
def goes (c : ℕ) (n : ℕ) : List Label := List.replicate n ⟨.client c, .go⟩

/-- The thread of connection `c` sends a whole packet. -/
def sends (c : ℕ) : Label := ⟨.client c, .wrote 1024⟩

/-- Two users of the examples. -/
def alice : List UInt8 := utf8 "alice"

def bob : List UInt8 := utf8 "bob"

def ip (n : ℕ) : List UInt8 := utf8 "10.0.0." ++ [UInt8.ofNat (48 + n)]

/-- Their table. -/
def twoUsers : Table where
  lista := [newCliente alice (ip 1) 4 0, newCliente bob (ip 2) 5 0]
  numClientes := 2

/-- Replaying labels from the initial state: what the last state satisfies
holds of some reachable state. -/
theorem exists_reachable {p : World → Bool} {ls : List Label}
    (h : (exec step World.init ls).any p = true) :
    ∃ w, Reachable step World.init w ∧ p w = true :=
  exists_reachable_of_exec h

theorem exists_run {p : World → Bool} {ls : List Label}
    (h : (exec step World.init ls).any p = true) :
    ∃ tr w, Run step World.init tr w ∧ tr.map Prod.snd = ls.reverse ∧ p w = true :=
  exists_run_of_exec h

end ChatSystem
