/-
ChatSystem/Representation.lean

The client table of a running server, in terms of the history: which slots
are in use, that the strings of a record end, that records differ in
descriptor and IP, and that the active records are the connections whose
`REGISTER` was accepted and whose `cl_remove` has not run — each record with
the user name, IP and descriptor `cl_add` put there.
-/
import ChatSystem.Replay

namespace ChatSystem

open CStr Lts

/-- `REGISTER` of connection `c` was accepted, with record `r₀` in slot `i`,
and its `cl_remove` has not run. -/
def Live (h : List Event) (c i : ℕ) (r₀ : Cliente) : Prop :=
  Event.registered c i r₀ ∈ h ∧ Event.removed c ∉ h

/-- The table represents the history. -/
structure Represents (t : Table) (h : List Event) : Prop where
  num_le : t.numClientes ≤ maxClients
  above : ∀ i r, t.numClientes ≤ i → t.lista[i]? = some r → r.activo = false
  terminated : ∀ i r, t.Active i r →
    r.username.Terminated ∧ r.ip.Terminated ∧ r.status.Terminated
  fds : ∀ i j r s, t.Active i r → t.Active j s → r.sockfd = s.sockfd → i = j
  ips : ∀ i j r s, t.Active i r → t.Active j s → r.ip.str = s.ip.str → i = j
  live : ∀ i r, t.Active i r → ∃ c r₀, Live h c i r₀ ∧ r.SameId r₀
  active : ∀ c i r₀, Live h c i r₀ → ∃ r, t.Active i r ∧ r.SameId r₀
  slots : ∀ c c' i r₀ s₀, Live h c i r₀ → Live h c' i s₀ → c = c'
  once : ∀ c i j r₀ s₀, Live h c i r₀ → Live h c j s₀ → i = j ∧ r₀ = s₀

theorem Inv.represents {w : World} (h : Inv w) : Represents w.table w.log := by
  have hlive : ∀ {c i r₀}, Live w.log c i r₀ ↔ phase w.log c = .registered i r₀ :=
    fun {_ _ _} => (phase_registered_iff h.core.disciplined).symm
  constructor
  · exact h.core.ok.num_le
  · -- above the mark nothing is active
    intro i r hi hr
    by_contra hact
    have := h.core.ok.above ⟨hr, by simpa using hact⟩
    omega
  · intro i r hr
    exact ⟨h.core.ok.username hr, h.core.ok.ip hr, h.core.ok.status hr⟩
  · intro i j r s hr hs
    exact h.core.fds_distinct hr hs
  · exact h.core.ips
  · intro i r hr
    obtain ⟨c, r₀, hph, hid⟩ := h.core.active i r hr
    exact ⟨c, r₀, hlive.mpr hph, hid⟩
  · intro c i r₀ hc
    exact (h.core.live c i r₀ (hlive.mp hc)).2
  · intro c c' i r₀ s₀ hc hc'
    exact h.core.slot_unique (hlive.mp hc) (hlive.mp hc')
  · intro c i j r₀ s₀ hc hc'
    have heq := (hlive.mp hc).symm.trans (hlive.mp hc')
    exact Phase.registered.inj heq

/-- A record stays where it is, with its name, IP and descriptor, in every
step but the `cl_remove` of its connection. -/
theorem Represents.step {w w' : World} {l : Label} (h : Represents w.table w.log)
    (h' : Represents w'.table w'.log) (hm : Move w l w') {i : ℕ} {r : Cliente}
    (hr : w.table.Active i r) :
    (∃ r', w'.table.Active i r' ∧ r'.SameId r) ∨
      ∃ c r₀, Live w.log c i r₀ ∧ w'.log = .removed c :: w.log := by
  obtain ⟨c, r₀, hlive, hid⟩ := h.live i r hr
  by_cases hrem : Event.removed c ∈ w'.log
  · refine .inr ⟨c, r₀, hlive, ?_⟩
    rcases hm.log_cases with hlog | ⟨e, hlog⟩
    · rw [hlog] at hrem
      exact absurd hrem hlive.2
    · rw [hlog] at hrem ⊢
      rw [(List.mem_cons.mp hrem).resolve_right hlive.2]
  · obtain ⟨r', hr', hid'⟩ := h'.active c i r₀ ⟨hm.mem_log hlive.1, hrem⟩
    exact .inl ⟨r', hr', hid'.trans hid.symm⟩

/-- **The representation invariant of the client table**, in every reachable
state; and from each such state a record stays as it is until the
`cl_remove` of its connection. -/
theorem represents_of_reachable {w : World} (h : Reachable step World.init w) :
    Represents w.table w.log ∧
    ∀ l w', step w l = some w' → ∀ i r, w.table.Active i r →
      (∃ r', w'.table.Active i r' ∧ r'.SameId r) ∨
        ∃ c r₀, Live w.log c i r₀ ∧ w'.log = .removed c :: w.log := by
  have hinv := inv_of_reachable h
  refine ⟨hinv.represents, fun l w' hs i r hr => ?_⟩
  exact hinv.represents.step (hinv.step hs).represents (move_of_step hs) hr

/-- Two users have joined, and the second has set his status. -/
theorem represents_twoUsers : ∃ w, Reachable step World.init w ∧ w.table.numClientes = 2 ∧
    (w.table.at 1).status.str = statusOcupado ∧ Represents w.table w.log ∧
    ∀ l w', step w l = some w' → ∀ i r, w.table.Active i r →
      (∃ r', w'.table.Active i r' ∧ r'.SameId r) ∨
        ∃ c r₀, Live w.log c i r₀ ∧ w'.log = .removed c :: w.log := by
  have hexec : (exec step World.init (joining 4 (ip 1) (registerPacket alice) ++
      joining 5 (ip 2) (registerPacket bob) ++
      [⟨.client 1, .packet (clientPacket cmdStatus bob [] statusOcupado)⟩,
        ⟨.client 1, .clock 50⟩, ⟨.client 1, .go⟩])).any (fun w =>
      w.table.numClientes == 2 && (w.table.at 1).status.str == statusOcupado) = true := by
    decide +kernel
  obtain ⟨w, hw, hp⟩ := exists_reachable hexec
  simp only [Bool.and_eq_true, beq_iff_eq] at hp
  exact ⟨w, hw, hp.1, hp.2, represents_of_reachable hw⟩

end ChatSystem
