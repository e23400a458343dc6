/-
ChatSystem/Relays.lean

The packets of the server that carry a client's text.  `Relays w l site pkt`
says that the step `l` from `w` starts such a relay: an iteration of
`handle_broadcast` that meets an active record, or `handle_direct` when it
finds its target.  Every other packet is the server's own.

`pending_iff` turns a property of packets that the server's own packets have
into an exact condition on runs: it holds of every packet sent exactly when
it holds of every relay that is started.
-/
import ChatSystem.Provenance

namespace ChatSystem

open CStr Lts

/-- A call that sends a packet of the server's own. -/
def Site.Own : Site → Prop
  | broadcast _ _ | direct _ _ => False
  | _ => True

/-- **The shapes of the packets made**: filled from strings, a user list, or a
relay. -/
theorem Site.Makes.shape {site : Site} {pkt : ChatPacket} (h : site.Makes pkt) :
    (site.Own ∧ ((∃ command sender target payload,
        pkt = fillPacket command sender target payload) ∨ ∃ t req, pkt = handleList t req)) ∨
    ∃ req i, site = .broadcast req i ∧ pkt = handleBroadcast req ∨
      site = .direct req i ∧ pkt = handleDirect req := by
  cases site with
  | register rc =>
    obtain ⟨req, rfl⟩ := h
    refine .inl ⟨trivial, .inl ?_⟩
    unfold registerReply
    split
    · exact ⟨_, _, _, _, rfl⟩
    · split <;> exact ⟨_, _, _, _, rfl⟩
  | reactivation => exact .inl ⟨trivial, .inl ⟨_, _, _, _, h⟩⟩
  | reply req =>
    rcases h with rfl | rfl | ⟨t, rfl | rfl | rfl⟩
    · exact .inl ⟨trivial, .inl ⟨_, _, _, _, rfl⟩⟩
    · exact .inl ⟨trivial, .inl ⟨_, _, _, _, rfl⟩⟩
    · -- the reply to a `STATUS`
      refine .inl ⟨trivial, .inl ?_⟩
      simp only [handleStatus]
      split <;> exact ⟨_, _, _, _, rfl⟩
    · -- a list has its length filled in separately
      exact .inl ⟨trivial, .inr ⟨t, req, rfl⟩⟩
    · refine .inl ⟨trivial, .inl ?_⟩
      simp only [handleInfo]
      split <;> exact ⟨_, _, _, _, rfl⟩
  | broadcast req i => exact .inr ⟨req, i, .inl ⟨rfl, h⟩⟩
  | direct req i => exact .inr ⟨req, i, .inr ⟨rfl, h⟩⟩
  | departure name i =>
    obtain ⟨username, -, rfl⟩ := h
    exact .inl ⟨trivial, .inl ⟨_, _, _, _, rfl⟩⟩
  | inactivity i =>
    obtain ⟨username, rfl⟩ := h
    exact .inl ⟨trivial, .inl ⟨_, _, _, _, rfl⟩⟩

/-- The step starts to relay: from where, and what. -/
inductive Relays (w : World) (l : Label) : Site → ChatPacket → Prop
  | broadcast {c fd req i} (hl : l = ⟨.client c, .go⟩) (hs : w.sending (.client c) = none)
      (hpc : w.pc (.client c) = .broadcasting fd req i) (hi : i < w.table.numClientes)
      (hact : (w.table.at i).activo = true) :
      Relays w l (.broadcast req i) (handleBroadcast req)
  | direct {c fd req i} (hl : l = ⟨.client c, .go⟩) (hs : w.sending (.client c) = none)
      (hpc : w.pc (.client c) = .handle fd req) (hm : w.mutexLista = none)
      (hcmd : req.command = cmdDirect) (hfind : clFindByName w.table req.targetPtr = some i) :
      Relays w l (.direct req i) (handleDirect req)

variable {w w' : World} {l : Label}

/-- Then its thread is about to send it. -/
theorem Relays.started {site : Site} {pkt : ChatPacket} (h : Relays w l site pkt)
    (hstep : step w l = some w') :
    ∃ s, w'.sending l.tid = some s ∧ s.site = site ∧ s.pkt = pkt := by
  cases h with
  | @broadcast c fd req i hl hs hpc hi hact =>
    subst hl
    simp only [step, hs, clientStep, hpc, fanoutStep, if_pos hi, hact, if_true] at hstep
    obtain rfl := Option.some.inj hstep
    exact ⟨_, Function.update_self _ _ _, rfl, rfl⟩
  | @direct c fd req i hl hs hpc hm hcmd hfind =>
    subst hl
    have hne : ¬ cmdDirect = cmdBroadcast := by decide
    simp only [step, hs, clientStep, hpc, if_pos hm, handle, hcmd, if_neg hne, if_true,
      hfind] at hstep
    obtain rfl := Option.some.inj hstep
    exact ⟨_, Function.update_self _ _ _, rfl, rfl⟩

/-- A call just made relays, or sends a packet of the server's own. -/
theorem Move.started_cases (h : Move w l w') {s : Sending} (hs' : w'.sending l.tid = some s)
    (hnone : w.sending l.tid = none) : Relays w l s.site s.pkt ∨ s.site.Own := by
  cases h.starts hnone hs' with
  | direct hpc hm hcmd hfind => exact .inl (.direct rfl hnone hpc hm hcmd hfind)
  | fanout hpc hf hi hact =>
    cases hf with
    | broadcasting fd req => exact .inl (.broadcast rfl hnone hpc hi hact)
    | notifying => exact .inr trivial
  -- the other calls are the server's own
  | _ => exact .inr trivial

/-- **A property of all packets sent**, when the server's own packets have it:
it holds in every state of a run exactly when every relay started has it. -/
theorem pending_iff {Q : Site → ChatPacket → Prop}
    (hQ : ∀ site pkt, site.Makes pkt → site.Own → Q site pkt) {tr : List (World × Label)}
    (h : Run step World.init tr w) :
    StatesAll (fun w => ∀ t s, w.sending t = some s → Q s.site s.pkt) tr w ↔
      StepsAll (fun w l => ∀ site pkt, Relays w l site pkt → Q site pkt) tr := by
  refine h.statesAll_iff_stepsAll (I := fun w => Inv w ∧ Provenance w) ⟨.init, .init⟩
    (fun _ _ _ hI hs => ⟨hI.1.step hs, hI.2.move hI.1 (move_of_step hs)⟩) (by rintro t s ⟨⟩) ?_
  rintro w l w' ⟨hinv, hprov⟩ hP hs
  have hprov' := hprov.move hinv (move_of_step hs)
  constructor
  · intro hP' site pkt hrelays
    obtain ⟨s, hsend, rfl, rfl⟩ := hrelays.started hs
    exact hP' _ s hsend
  · intro hC t s hsend
    rcases (move_of_step hs).pending_cases hsend with ⟨s₀, hs₀, hpkt, hsite⟩ | ⟨rfl, hnone⟩
    · rw [← hpkt, ← hsite]
      exact hP t s₀ hs₀
    · rcases (move_of_step hs).started_cases hsend hnone with hrelays | hown
      · exact hC _ _ hrelays
      · exact hQ _ _ (hprov'.pending _ s hsend).1 hown

end ChatSystem
