/-
ChatSystem/Locality.lean

A step reads the shared state and the variables of its own thread, nothing
else.  Two states that agree on these (`Shared`, `AgreeAt`) take the same step,
and go on agreeing: on the shared state, at every thread they agreed at, and
with the same event in both histories (`Together`).

`Move.step` is the converse of `move_of_step`: every rule of `Move` is a step,
when the kernel hands out a descriptor that is not negative.  `step_together`
is the result.  It is what allows two runs to be compared thread by thread.
-/
import ChatSystem.Moves

namespace ChatSystem

open CStr

variable {w w' v v' : World} {l : Label}

/-! ### Every rule is a step -/

section Steps

variable {c : ℕ} {fd : ℤ} {pkt : ChatPacket}

theorem step_recv (hs : w.sending (.client c) = none) (hpc : w.pc (.client c) = .recv fd) :
    step w ⟨.client c, .packet pkt⟩ =
      some ((dispatch w c fd pkt).emit (.received (.client c) fd (w.descr fd) pkt)) := by
  simp [step, hs, clientStep, hpc]

theorem step_handle (hs : w.sending (.client c) = none) (hpc : w.pc (.client c) = .handle fd pkt)
    (hm : w.mutexLista = none) : step w ⟨.client c, .go⟩ = some (handle w c fd pkt) := by
  simp [step, hs, clientStep, hpc, hm]

theorem step_fanout {p : Pc} {i : ℕ} {msg : ChatPacket} {site : ℕ → Site} {next done : Pc}
    (hs : w.sending (.client c) = none) (hpc : w.pc (.client c) = p)
    (hf : FanoutAt p i msg site next done) :
    step w ⟨.client c, .go⟩ = some (fanoutStep w (.client c) i msg site next done) := by
  cases hf <;> simp [step, hs, clientStep, hpc]

end Steps

/-- **Every rule is a step of the server.** -/
theorem Move.step (h : Move w l w') (hfd : ∀ fd ip, l.answer = .conn fd ip → 0 ≤ fd) :
    step w l = some w' := by
  cases h with
  | wrote hs hc hn hle => simp [ChatSystem.step, hs, sendStep, hc, hn, hle]
  | sendFail hs => simp [ChatSystem.step, hs, sendStep]
  | accept hs hpc hfree hip h0 =>
    simp [ChatSystem.step, hs, mainStep, hpc, hfree, hip, h0, hfd _ _ rfl]
  | acceptFail hs hpc | recvFirst hs hpc | recvFirstFail hs hpc | spawn hs hpc
  | closeFirst hs hpc =>
    simp [ChatSystem.step, hs, mainStep, hpc]
  | check hs hpc hm => simp [ChatSystem.step, hs, mainStep, hpc, hm]
  | @add c fd ip pkt now hs hpc hm hnum hdup =>
    rcases clAdd_cases w.table pkt.senderPtr ip fd now with
      ⟨-, hfull⟩ | ⟨-, -, hdup'⟩ | ⟨hres, -⟩
    · omega
    · rw [hdup] at hdup'
      cases hdup'
    · simp [ChatSystem.step, hs, mainStep, hpc, hm, hres]
  | refuse hs hpc hm hrc h0 =>
    simp only [ChatSystem.step, hs, mainStep, hpc, if_pos hm, hrc, if_neg h0]
    rfl
  | recvActivity hs hpc hcmd => rw [step_recv hs hpc, dispatch, if_pos hcmd]
  | recvQuery hs hpc hcmd =>
    rw [step_recv hs hpc, dispatch, if_neg, if_pos hcmd]
    rcases hcmd with hcmd | hcmd <;> rw [hcmd] <;> decide
  | recvLogout hs hpc hcmd =>
    rw [step_recv hs hpc, dispatch, if_neg, if_neg, if_pos hcmd] <;> rw [hcmd] <;> decide
  | recvIgnored hs hpc hcmd =>
    simp only [List.mem_cons, List.not_mem_nil, or_false, not_or] at hcmd
    rw [step_recv hs hpc, dispatch, if_neg (by tauto), if_neg (by tauto), if_neg (by tauto)]
  | recvFail hs hpc | directUnlock hs hpc | close hs hpc =>
    simp [ChatSystem.step, hs, clientStep, hpc]
  | touch hs hpc hm hre | reactivate hs hpc hm hre =>
    simp [ChatSystem.step, hs, clientStep, hpc, hm, hre]
  -- the handlers, in the order of the `switch`
  | broadcast hs hpc hm hcmd => rw [step_handle hs hpc hm, handle, if_pos hcmd]
  | direct hs hpc hm hcmd hfind hr =>
    subst hr
    rw [step_handle hs hpc hm, handle, if_neg (by rw [hcmd]; decide), if_pos hcmd, hfind]
  | directMissing hs hpc hm hcmd hfind =>
    rw [step_handle hs hpc hm, handle, if_neg (by rw [hcmd]; decide), if_pos hcmd, hfind]
  | status hs hpc hm hcmd =>
    rw [step_handle hs hpc hm, handle, if_neg (by rw [hcmd]; decide),
      if_neg (by rw [hcmd]; decide), if_pos hcmd]
  | list hs hpc hm hcmd =>
    rw [step_handle hs hpc hm, handle, if_neg (by rw [hcmd]; decide),
      if_neg (by rw [hcmd]; decide), if_neg (by rw [hcmd]; decide), if_pos hcmd]
  | info hs hpc hm hcmd =>
    simp only [List.mem_cons, List.not_mem_nil, or_false, not_or] at hcmd
    rw [step_handle hs hpc hm, handle, if_neg hcmd.1, if_neg hcmd.2.1, if_neg hcmd.2.2.1,
      if_neg hcmd.2.2.2]
  | fanoutSend hs hpc hf hi hact =>
    rw [step_fanout hs hpc hf, fanoutStep, if_pos hi, if_pos hact]
  | fanoutSkip hs hpc hf hi hact =>
    rw [step_fanout hs hpc hf, fanoutStep, if_pos hi, if_neg (by simp [hact])]
  | fanoutEnd hs hpc hf hi => rw [step_fanout hs hpc hf, fanoutStep, if_neg hi.not_gt]
  | resolve hs hpc hname hm => simp [ChatSystem.step, hs, clientStep, hpc, hname, hm]
  | resolved hs hpc hname => simp [ChatSystem.step, hs, clientStep, hpc, hname]
  | remove hs hpc hm | notify hs hpc hm => simp [ChatSystem.step, hs, clientStep, hpc, hm]
  | wake hs hpc => simp [ChatSystem.step, hs, monitorStep, hpc]
  | sweepStart hs hpc hm => simp [ChatSystem.step, hs, monitorStep, hpc, hm]
  | sweepMark hs hpc hi hidle | sweepSkip hs hpc hi hidle =>
    simp [ChatSystem.step, hs, monitorStep, hpc, hi, hidle]
  | sweepEnd hs hpc hi => simp [ChatSystem.step, hs, monitorStep, hpc, hi.not_gt]

/-! ### States that agree -/

/-- The same shared memory and kernel tables. -/
structure Shared (w v : World) : Prop where
  table : v.table = w.table
  mutexLista : v.mutexLista = w.mutexLista
  descr : v.descr = w.descr
  nextConn : v.nextConn = w.nextConn
  sections : v.sections = w.sections

theorem Shared.symm (h : Shared w v) : Shared v w :=
  ⟨h.table.symm, h.mutexLista.symm, h.descr.symm, h.nextConn.symm, h.sections.symm⟩

theorem Shared.trans {u : World} (h : Shared w v) (h' : Shared v u) : Shared w u :=
  ⟨h'.table.trans h.table, h'.mutexLista.trans h.mutexLista, h'.descr.trans h.descr,
    h'.nextConn.trans h.nextConn, h'.sections.trans h.sections⟩

/-- The same variables of thread `t`. -/
structure AgreeAt (t : Tid) (w v : World) : Prop where
  pc : v.pc t = w.pc t
  sending : v.sending t = w.sending t

/-- From `w` and `v` to `w'` and `v'` with the same shared state and the same
events; where `w` and `v` agreed at a thread, `w'` and `v'` do. -/
structure Together (w v w' v' : World) : Prop where
  shared : Shared w' v'
  threads : ∀ t, AgreeAt t w v → AgreeAt t w' v'
  log : ∃ es, w'.log = es ++ w.log ∧ v'.log = es ++ v.log

namespace Together

theorem refl (h : Shared w v) : Together w v w v := ⟨h, fun _ => id, [], rfl, rfl⟩

variable {t : Tid}

theorem goto (h : Together w v w' v') (t : Tid) (p : Pc) :
    Together w v (w'.goto t p) (v'.goto t p) := by
  refine ⟨⟨h.shared.table, h.shared.mutexLista, h.shared.descr, h.shared.nextConn,
    h.shared.sections⟩, fun t' ht' => ⟨?_, (h.threads t' ht').sending⟩, h.log⟩
  by_cases heq : t' = t
  · simp [World.goto, heq]
  · simpa [World.goto, heq] using (h.threads t' ht').pc

theorem call (h : Together w v w' v') (t : Tid) (fd : ℤ) (pkt : ChatPacket) (site : Site) :
    Together w v (w'.call t fd pkt site) (v'.call t fd pkt site) := by
  refine ⟨⟨h.shared.table, h.shared.mutexLista, h.shared.descr, h.shared.nextConn,
    h.shared.sections⟩, fun t' ht' => ⟨(h.threads t' ht').pc, ?_⟩, h.log⟩
  by_cases heq : t' = t
  · simp [World.call, heq]
  · simpa [World.call, heq] using (h.threads t' ht').sending

theorem emit (h : Together w v w' v') (e : Event) : Together w v (w'.emit e) (v'.emit e) := by
  obtain ⟨es, hw, hv⟩ := h.log
  exact ⟨⟨h.shared.table, h.shared.mutexLista, h.shared.descr, h.shared.nextConn,
    h.shared.sections⟩, fun t' ht' => ⟨(h.threads t' ht').pc, (h.threads t' ht').sending⟩,
    e :: es, by simp [World.emit, hw], by simp [World.emit, hv]⟩

theorem setTable (h : Together w v w' v') (tbl : Table) :
    Together w v (w'.setTable tbl) (v'.setTable tbl) :=
  ⟨⟨rfl, h.shared.mutexLista, h.shared.descr, h.shared.nextConn, h.shared.sections⟩,
    fun t' ht' => ⟨(h.threads t' ht').pc, (h.threads t' ht').sending⟩, h.log⟩

theorem lock (h : Together w v w' v') (t : Tid) (cause : Cause) :
    Together w v (w'.lock t cause) (v'.lock t cause) := by
  obtain ⟨es, hw, hv⟩ := h.log
  have hsections := h.shared.sections
  exact ⟨⟨h.shared.table, rfl, h.shared.descr, h.shared.nextConn, by simp [World.lock, hsections]⟩,
    fun t' ht' => ⟨(h.threads t' ht').pc, (h.threads t' ht').sending⟩,
    .locked t (w'.sections + 1) cause :: es, by simp [World.lock, hw],
    by simp [World.lock, hv, hsections]⟩

theorem unlock (h : Together w v w' v') (t : Tid) :
    Together w v (w'.unlock t) (v'.unlock t) := by
  obtain ⟨es, hw, hv⟩ := h.log
  have hsections := h.shared.sections
  exact ⟨⟨h.shared.table, rfl, h.shared.descr, h.shared.nextConn, hsections⟩,
    fun t' ht' => ⟨(h.threads t' ht').pc, (h.threads t' ht').sending⟩,
    .unlocked t w'.sections :: es, by simp [World.unlock, hw],
    by simp [World.unlock, hv, hsections]⟩

theorem closeFd (h : Together w v w' v') (c : ℕ) (fd : ℤ) :
    Together w v (w'.closeFd c fd) (v'.closeFd c fd) := by
  obtain ⟨es, hw, hv⟩ := h.log
  have hdescr := h.shared.descr
  exact ⟨⟨h.shared.table, h.shared.mutexLista, by simp [World.closeFd, hdescr],
    h.shared.nextConn, h.shared.sections⟩,
    fun t' ht' => ⟨(h.threads t' ht').pc, (h.threads t' ht').sending⟩,
    .closed c fd (w'.descr fd) :: es, by simp [World.closeFd, hw],
    by simp [World.closeFd, hv, hdescr]⟩

/-- The call of thread `t` becomes `o`; what is on the wire may differ. -/
theorem transmit (h : Together w v w' v') (t : Tid) (o : Option Sending)
    (wire wire' : ℕ → List UInt8) :
    Together w v { w' with wire, sending := Function.update w'.sending t o }
      { v' with wire := wire', sending := Function.update v'.sending t o } := by
  refine ⟨⟨h.shared.table, h.shared.mutexLista, h.shared.descr, h.shared.nextConn,
    h.shared.sections⟩, fun t' ht' => ⟨(h.threads t' ht').pc, ?_⟩, h.log⟩
  by_cases heq : t' = t
  · simp [heq]
  · simpa [heq] using (h.threads t' ht').sending

theorem accept (h : Together w v w' v') (descr : ℤ → Option ℕ) (nextConn : ℕ) :
    Together w v { w' with descr, nextConn } { v' with descr, nextConn } :=
  ⟨⟨h.shared.table, h.shared.mutexLista, rfl, rfl, h.shared.sections⟩,
    fun t' ht' => ⟨(h.threads t' ht').pc, (h.threads t' ht').sending⟩, h.log⟩

end Together

/-- **A rule applies to every state that agrees.** -/
theorem Move.together (h : Move w l w') (hshared : Shared w v) (hat : AgreeAt l.tid w v) :
    ∃ v', Move v l v' ∧ Together w v w' v' := by
  obtain ⟨table, mutexLista, pc, sending, descr, nextConn, wire, sections, log⟩ := v
  have hrefl := Together.refl hshared
  obtain ⟨htable, hmutex, hdescr, hnext, hsections⟩ := hshared
  dsimp only at htable hmutex hdescr hnext hsections
  subst htable hmutex hdescr hnext hsections
  obtain ⟨hpc', hs'⟩ := hat
  cases h with
  | wrote hs hc hn hle =>
    exact ⟨_, .wrote (hs'.trans hs) hc hn hle, (hrefl.transmit _ _ _ _).emit _⟩
  | sendFail hs =>
    exact ⟨_, .sendFail (hs'.trans hs), (hrefl.transmit _ none _ _).emit _⟩
  | accept hs hpc hfree hip h0 =>
    exact ⟨_, .accept (hs'.trans hs) (hpc'.trans hpc) hfree hip h0,
      ((hrefl.accept _ _).goto _ _).emit _⟩
  | acceptFail hs hpc => exact ⟨_, .acceptFail (hs'.trans hs) (hpc'.trans hpc), hrefl⟩
  | recvFirst hs hpc =>
    exact ⟨_, .recvFirst (hs'.trans hs) (hpc'.trans hpc), (hrefl.goto _ _).emit _⟩
  | recvFirstFail hs hpc =>
    exact ⟨_, .recvFirstFail (hs'.trans hs) (hpc'.trans hpc), (hrefl.goto _ _).emit _⟩
  | add hs hpc hm hnum hdup =>
    exact ⟨_, .add (hs'.trans hs) (hpc'.trans hpc) hm hnum hdup,
      (((hrefl.setTable _).goto _ _).call _ _ _ _).emit _⟩
  | refuse hs hpc hm hrc h0 =>
    exact ⟨_, .refuse (hs'.trans hs) (hpc'.trans hpc) hm hrc h0,
      ((hrefl.goto _ _).call _ _ _ _).emit _⟩
  | check hs hpc hm =>
    exact ⟨_, .check (hs'.trans hs) (hpc'.trans hpc) hm, (hrefl.goto _ _).emit _⟩
  | spawn hs hpc =>
    exact ⟨_, .spawn (hs'.trans hs) (hpc'.trans hpc), (hrefl.goto _ _).goto _ _⟩
  | closeFirst hs hpc =>
    exact ⟨_, .closeFirst (hs'.trans hs) (hpc'.trans hpc), (hrefl.closeFd _ _).goto _ _⟩
  -- `client_thread`
  | recvActivity hs hpc hcmd =>
    exact ⟨_, .recvActivity (hs'.trans hs) (hpc'.trans hpc) hcmd, (hrefl.goto _ _).emit _⟩
  | recvQuery hs hpc hcmd =>
    exact ⟨_, .recvQuery (hs'.trans hs) (hpc'.trans hpc) hcmd, (hrefl.goto _ _).emit _⟩
  | recvLogout hs hpc hcmd =>
    exact ⟨_, .recvLogout (hs'.trans hs) (hpc'.trans hpc) hcmd,
      ((hrefl.goto _ _).call _ _ _ _).emit _⟩
  | recvIgnored hs hpc hcmd =>
    exact ⟨_, .recvIgnored (hs'.trans hs) (hpc'.trans hpc) hcmd, hrefl.emit _⟩
  | recvFail hs hpc =>
    exact ⟨_, .recvFail (hs'.trans hs) (hpc'.trans hpc), (hrefl.goto _ _).emit _⟩
  | touch hs hpc hm hre =>
    exact ⟨_, .touch (hs'.trans hs) (hpc'.trans hpc) hm hre, (hrefl.setTable _).goto _ _⟩
  | reactivate hs hpc hm hre =>
    exact ⟨_, .reactivate (hs'.trans hs) (hpc'.trans hpc) hm hre,
      ((hrefl.setTable _).goto _ _).call _ _ _ _⟩
  | broadcast hs hpc hm hcmd =>
    exact ⟨_, .broadcast (hs'.trans hs) (hpc'.trans hpc) hm hcmd, (hrefl.lock _ _).goto _ _⟩
  | direct hs hpc hm hcmd hfind hr =>
    exact ⟨_, .direct (hs'.trans hs) (hpc'.trans hpc) hm hcmd hfind hr,
      ((hrefl.lock _ _).goto _ _).call _ _ _ _⟩
  | directMissing hs hpc hm hcmd hfind =>
    exact ⟨_, .directMissing (hs'.trans hs) (hpc'.trans hpc) hm hcmd hfind,
      (hrefl.goto _ _).call _ _ _ _⟩
  | status hs hpc hm hcmd =>
    exact ⟨_, .status (hs'.trans hs) (hpc'.trans hpc) hm hcmd,
      ((hrefl.setTable _).goto _ _).call _ _ _ _⟩
  | list hs hpc hm hcmd =>
    exact ⟨_, .list (hs'.trans hs) (hpc'.trans hpc) hm hcmd, (hrefl.goto _ _).call _ _ _ _⟩
  | info hs hpc hm hcmd =>
    exact ⟨_, .info (hs'.trans hs) (hpc'.trans hpc) hm hcmd, (hrefl.goto _ _).call _ _ _ _⟩
  | fanoutSend hs hpc hf hi hact =>
    exact ⟨_, .fanoutSend (hs'.trans hs) (hpc'.trans hpc) hf hi hact,
      (hrefl.goto _ _).call _ _ _ _⟩
  | fanoutSkip hs hpc hf hi hact =>
    exact ⟨_, .fanoutSkip (hs'.trans hs) (hpc'.trans hpc) hf hi hact, hrefl.goto _ _⟩
  | fanoutEnd hs hpc hf hi =>
    exact ⟨_, .fanoutEnd (hs'.trans hs) (hpc'.trans hpc) hf hi, (hrefl.unlock _).goto _ _⟩
  | directUnlock hs hpc =>
    exact ⟨_, .directUnlock (hs'.trans hs) (hpc'.trans hpc), (hrefl.unlock _).goto _ _⟩
  | resolve hs hpc hname hm =>
    exact ⟨_, .resolve (hs'.trans hs) (hpc'.trans hpc) hname hm, hrefl.goto _ _⟩
  | resolved hs hpc hname =>
    exact ⟨_, .resolved (hs'.trans hs) (hpc'.trans hpc) hname, hrefl.goto _ _⟩
  | remove hs hpc hm =>
    exact ⟨_, .remove (hs'.trans hs) (hpc'.trans hpc) hm,
      ((hrefl.setTable _).goto _ _).emit _⟩
  | close hs hpc =>
    exact ⟨_, .close (hs'.trans hs) (hpc'.trans hpc), (hrefl.closeFd _ _).goto _ _⟩
  | notify hs hpc hm =>
    exact ⟨_, .notify (hs'.trans hs) (hpc'.trans hpc) hm, (hrefl.lock _ _).goto _ _⟩
  -- `inactivity_thread`
  | wake hs hpc => exact ⟨_, .wake (hs'.trans hs) (hpc'.trans hpc), hrefl.goto _ _⟩
  | sweepStart hs hpc hm =>
    exact ⟨_, .sweepStart (hs'.trans hs) (hpc'.trans hpc) hm, (hrefl.lock _ _).goto _ _⟩
  | sweepMark hs hpc hi hidle =>
    exact ⟨_, .sweepMark (hs'.trans hs) (hpc'.trans hpc) hi hidle,
      ((hrefl.setTable _).goto _ _).call _ _ _ _⟩
  | sweepSkip hs hpc hi hidle =>
    exact ⟨_, .sweepSkip (hs'.trans hs) (hpc'.trans hpc) hi hidle,
      (hrefl.setTable _).goto _ _⟩
  | sweepEnd hs hpc hi =>
    exact ⟨_, .sweepEnd (hs'.trans hs) (hpc'.trans hpc) hi, (hrefl.unlock _).goto _ _⟩

/-- The kernel hands out descriptors that are not negative. -/
theorem nonneg_of_step (hstep : step w l = some w') (fd : ℤ) (ip : List UInt8)
    (ha : l.answer = .conn fd ip) : 0 ≤ fd := by
  cases move_of_step hstep with
  | accept hs hpc hfree hip h0 =>
    cases ha
    simp only [step, hs, mainStep, hpc] at hstep
    split at hstep
    · case isTrue hguard => exact hguard.2.1
    · cases hstep
  | _ => cases ha

/-- **Steps are local**: a state that agrees on what the thread reads takes the
same step. -/
theorem step_together (hstep : step w l = some w') (hshared : Shared w v)
    (hat : AgreeAt l.tid w v) : ∃ v', step v l = some v' ∧ Together w v w' v' := by
  obtain ⟨v', hm, htogether⟩ := (move_of_step hstep).together hshared hat
  exact ⟨v', hm.step (nonneg_of_step hstep), htogether⟩

end ChatSystem
