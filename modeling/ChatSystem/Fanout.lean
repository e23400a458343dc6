/-
ChatSystem/Fanout.lean

The calls of the two loops that send to every active client,
`handle_broadcast`'s and `notify_disconnect`'s.  A call in progress is the one
of the iteration just begun: the loop stands at the next index, with the same
message (`FanoutCalls`).
-/
import ChatSystem.Effects

namespace ChatSystem

open CStr Lts

/-- The calls made from a loop over all clients. -/
def Site.toAll : Site → Bool
  | broadcast _ _ | departure _ _ => true
  | _ => false

section Loop

variable {p : Pc} {i : ℕ} {msg : ChatPacket} {site : ℕ → Site} {next done : Pc}

theorem FanoutAt.toAll (hf : FanoutAt p i msg site next done) (j : ℕ) :
    (site j).toAll = true := by
  cases hf <;> rfl

/-- The following iteration belongs to the same loop. -/
theorem FanoutAt.succ (hf : FanoutAt p i msg site next done) :
    ∃ next', FanoutAt next (i + 1) msg site next' done := by
  cases hf with
  | broadcasting fd pkt i => exact ⟨_, .broadcasting fd pkt (i + 1)⟩
  | notifying username i => exact ⟨_, .notifying username (i + 1)⟩

/-- A program point belongs to one iteration of one loop. -/
theorem FanoutAt.unique (hf : FanoutAt p i msg site next done) {i' : ℕ} {msg' : ChatPacket}
    {site' : ℕ → Site} {next' done' : Pc} (hf' : FanoutAt p i' msg' site' next' done') :
    i = i' ∧ msg = msg' ∧ site = site' ∧ next = next' ∧ done = done' := by
  cases hf <;> cases hf' <;> exact ⟨rfl, rfl, rfl, rfl, rfl⟩

end Loop

variable {w w' : World} {l : Label}

/-- The step that starts a call to all clients is an iteration of a loop. -/
theorem Move.fanout_of_call (h : Move w l w') (hs : w.sending l.tid = none) {s : Sending}
    (hs' : w'.sending l.tid = some s) (hall : s.site.toAll = true) :
    ∃ i msg site next done, FanoutAt (w.pc l.tid) i msg site next done ∧
      i < w.table.numClientes ∧ (w.table.at i).activo = true ∧ w'.pc l.tid = next ∧
      s = ⟨(w.table.at i).sockfd, msg, 0, site i⟩ := by
  cases h.starts hs hs' with
  | fanout hpc hf hi hact hnext =>
    subst hpc
    exact ⟨_, _, _, _, _, hf, hi, hact, hnext, rfl⟩
  | _ => cases hall

/-- A thread that is in a loop and has been in its section before has just made
one iteration, which sends to the slot if it is active. -/
theorem Move.into_fanout (h : Move w l w') (hs : w.sending l.tid = none)
    (hlocked : (w.pc l.tid).locked = true) {i : ℕ} {msg : ChatPacket} {site : ℕ → Site}
    {next done : Pc} (hf : FanoutAt (w'.pc l.tid) i msg site next done) :
    ∃ j, i = j + 1 ∧ FanoutAt (w.pc l.tid) j msg site (w'.pc l.tid) done ∧
      w'.log = w.log ∧
      ((w.table.at j).activo = false ∧ w'.sending l.tid = none ∨
        w'.sending l.tid = some ⟨(w.table.at j).sockfd, msg, 0, site j⟩) := by
  cases h with
  | @fanoutSend c p j msg' site' next' done' _ hpc hf' hj hact =>
    have hnext : FanoutAt next' i msg site next done := by
      simpa [World.call, World.goto] using hf
    obtain ⟨next'', hf''⟩ := hf'.succ
    obtain ⟨rfl, rfl, rfl, rfl, rfl⟩ := hf''.unique hnext
    refine ⟨j, rfl, ?_, rfl, .inr (by simp [World.call])⟩
    simpa [World.call, World.goto, hpc] using hf'
  | @fanoutSkip c p j msg' site' next' done' _ hpc hf' hj hact =>
    have hnext : FanoutAt next' i msg site next done := by
      simpa [World.goto] using hf
    obtain ⟨next'', hf''⟩ := hf'.succ
    obtain ⟨rfl, rfl, rfl, rfl, rfl⟩ := hf''.unique hnext
    refine ⟨j, rfl, ?_, rfl, .inl ⟨hact, hs⟩⟩
    simpa [World.goto, hpc] using hf'
  | fanoutEnd _ hpc hf' =>
    -- the point after the loop is not in a section
    have hdone := hf'.spec.2.2.1
    have hin := hf.spec.1
    simp [World.goto, World.unlock, hdone] at hin
  | wrote hsome | sendFail hsome =>
    rw [hsome] at hs
    cases hs
  | directUnlock | sweepMark | sweepSkip | sweepEnd =>
    simp only [World.call, World.goto, World.unlock, World.setTable, Function.update_self] at hf
    cases hf
  | accept _ hpc | acceptFail _ hpc | recvFirst _ hpc | recvFirstFail _ hpc | add _ hpc
  | refuse _ hpc | check _ hpc | spawn _ hpc | closeFirst _ hpc | recvActivity _ hpc
  | recvQuery _ hpc | recvLogout _ hpc | recvIgnored _ hpc | recvFail _ hpc | touch _ hpc
  | reactivate _ hpc | broadcast _ hpc | direct _ hpc | directMissing _ hpc | status _ hpc
  | list _ hpc | info _ hpc | resolve _ hpc | resolved _ hpc | remove _ hpc | close _ hpc
  | notify _ hpc | wake _ hpc | sweepStart _ hpc =>
    rw [hpc] at hlocked
    cases hlocked

/-- The calls to all clients in progress stand in their loops. -/
def FanoutCalls (w : World) : Prop :=
  ∀ t s, w.sending t = some s → s.site.toAll = true →
    ∃ i msg site next done, FanoutAt (w.pc t) (i + 1) msg site next done ∧
      s.site = site i ∧ s.pkt = msg

theorem fanoutCalls_step (hinv : Inv w) (h : FanoutCalls w) (hm : Move w l w') :
    FanoutCalls w' := by
  intro t s hs hall
  by_cases ht : t = l.tid
  · subst ht
    rcases hm.transmits with ⟨s₀, c, n, hs₀, -, -, -, -, -, hsending, -, hpc, -⟩ |
      ⟨s₀, -, -, -, hsending, -⟩ | ⟨o, hidle, -⟩
    · -- a part of the packet, at the same place in the loop
      rw [hsending, Function.update_self] at hs
      split at hs
      · cases hs
        rw [hpc]
        exact h l.tid s₀ hs₀ hall
      · cases hs
    · rw [hsending, Function.update_self] at hs
      cases hs
    · obtain ⟨i, msg, site, next, done, hf, -, -, hpc, rfl⟩ := hm.fanout_of_call hidle hs hall
      obtain ⟨next', hf'⟩ := hf.succ
      exact ⟨i, msg, site, next', done, by rw [hpc]; exact hf', rfl, rfl⟩
  · obtain ⟨hsame, hpc⟩ := hm.local_of_ne ht
    rw [hsame] at hs
    obtain ⟨i, msg, site, next, done, hf, hrest⟩ := h t s hs hall
    rcases hpc with hpc | ⟨c, fd, rfl, hspawn, -⟩
    · exact ⟨i, msg, site, next, done, by rw [hpc]; exact hf, hrest⟩
    · -- a thread about to be started is not in a loop
      have hns := (hinv.threads .main).alone rfl c (by rw [hspawn]; rfl)
      exact absurd hns hf.started

end ChatSystem
