/-
ChatSystem/Leaks.lean

Nothing leaks.  A thread is in charge of a connection from `accept` (the accept
loop) or its creation (a client thread) to `close`, and holds its descriptor.
The invariant proved here is the converse of what `ChatSystem/ThreadInv.lean`
says: every open descriptor is held by some thread, on every path, including
the refused registrations and the connections whose first packet never came.

With the uniqueness of the thread in charge the open descriptors and the
threads holding one correspond one to one, and a record of the table is active
exactly while a thread stands between `cl_add` and `cl_remove` for it.  So
when the accept loop waits and no client thread runs, no descriptor is open
and no record is active.
-/
import ChatSystem.Replay

namespace ChatSystem

open CStr Lts

/-- Thread `t` holds the descriptor `fd` of connection `c`. -/
def InCharge (w : World) (t : Tid) (c : ℕ) (fd : ℤ) : Prop :=
  (w.pc t).conn? t = some c ∧ (w.pc t).fd? = some fd

/-- Between `cl_add` and `cl_remove`. -/
def Pc.keepsRecord : Pc → Bool
  | check .. | spawn .. | recv _ | touch .. | handle .. | broadcasting .. | directUnlock _
  | resolve .. | remove .. => true
  | _ => false

/-- Every open descriptor is held by a thread. -/
def Held (w : World) : Prop := ∀ fd c, w.descr fd = some c → ∃ t, InCharge w t c fd

variable {w w' : World} {l : Label} {t : Tid} {c : ℕ} {fd : ℤ}

/-- From `p` the thread goes on to `p'` with the connection and the descriptor
it holds. -/
theorem FanoutAt.keeps {p : Pc} {i : ℕ} {msg : ChatPacket} {site : ℕ → Site}
    {next done : Pc} (h : FanoutAt p i msg site next done) (t : Tid) :
    next.conn? t = p.conn? t ∧ next.fd? = p.fd? ∧ done.conn? t = p.conn? t ∧
      done.fd? = p.fd? := by
  cases h <;> exact ⟨rfl, rfl, rfl, rfl⟩

theorem InCharge.of_pc {p : Pc} (hc : InCharge w t c fd) (hp : w.pc t = p)
    (hconn : (w'.pc t).conn? t = p.conn? t) (hfd : (w'.pc t).fd? = p.fd?) :
    InCharge w' t c fd := by
  subst hp
  exact ⟨hconn.trans hc.1, hfd.trans hc.2⟩

/-- **A thread gives its descriptor up** only by closing it; the accept loop
hands it to the thread it creates. -/
theorem Move.inCharge (h : Move w l w') (hinv : Inv w) (hc : InCharge w t c fd) :
    w'.descr fd = none ∨ ∃ t', InCharge w' t' c fd := by
  by_cases ht : t = l.tid
  · subst ht
    cases h with
    | wrote | sendFail | recvIgnored => exact .inr ⟨_, hc⟩
    -- the thread in charge closes the connection
    | closeFirst hs hpc | close hs hpc =>
      obtain ⟨-, hfd⟩ := hc
      rw [hpc] at hfd
      obtain rfl := Option.some.inj hfd
      exact .inl (by simp [World.goto, World.closeFd])
    -- or hands it over
    | @spawn c' fd' hs hpc =>
      obtain ⟨hconn, hfd⟩ := hc
      rw [hpc] at hconn hfd
      obtain rfl := Option.some.inj hconn
      obtain rfl := Option.some.inj hfd
      exact .inr ⟨.client c', by simp [InCharge, World.goto, Pc.conn?, Pc.fd?]⟩
    | accept hs hpc | acceptFail hs hpc | wake hs hpc | sweepStart hs hpc | sweepMark hs hpc
    | sweepSkip hs hpc | sweepEnd hs hpc | notify hs hpc =>
      have hfd := hc.2
      rw [hpc] at hfd
      cases hfd
    | fanoutSend hs hpc hf | fanoutSkip hs hpc hf =>
      refine .inr ⟨_, hc.of_pc hpc ?_ ?_⟩
      · simpa [World.call, World.goto] using (hf.keeps _).1
      · simpa [World.call, World.goto] using (hf.keeps (.client 0)).2.1
    | fanoutEnd hs hpc hf =>
      refine .inr ⟨_, hc.of_pc hpc ?_ ?_⟩
      · simpa [World.unlock, World.goto] using (hf.keeps _).2.2.1
      · simpa [World.unlock, World.goto] using (hf.keeps (.client 0)).2.2.2
    | recvFirst hs hpc | check hs hpc =>
      refine .inr ⟨_, hc.of_pc hpc ?_ ?_⟩ <;>
        simp only [World.emit, World.goto, Function.update_self] <;> split <;> rfl
    | recvFirstFail hs hpc | add hs hpc | refuse hs hpc | recvActivity hs hpc | recvQuery hs hpc
    | recvLogout hs hpc | recvFail hs hpc | touch hs hpc | reactivate hs hpc | broadcast hs hpc
    | direct hs hpc | directMissing hs hpc | status hs hpc | list hs hpc | info hs hpc
    | directUnlock hs hpc | resolve hs hpc | resolved hs hpc | remove hs hpc =>
      exact .inr ⟨_, hc.of_pc hpc
        (by simp [World.emit, World.call, World.setTable, World.lock, World.unlock, World.goto,
          Pc.conn?])
        (by simp [World.emit, World.call, World.setTable, World.lock, World.unlock, World.goto,
          Pc.fd?])⟩
  · refine .inr ⟨t, ?_⟩
    have hstart : w.pc t ≠ .notStarted := by
      intro hns
      rw [InCharge, hns] at hc
      cases hc.1
    unfold InCharge
    rw [(h.stays hinv ht hstart).1]
    exact hc

/-- A descriptor comes from `accept`, into the hands of the accept loop. -/
theorem Move.opened (h : Move w l w') (hfd : w'.descr fd = some c) :
    w.descr fd = some c ∨ InCharge w' .main c fd := by
  cases h with
  | @accept fd' ip hs hpc hfree =>
    rcases eq_or_ne fd fd' with rfl | hne
    · obtain rfl : w.nextConn = c := by simpa [World.emit, World.goto] using hfd
      exact .inr (by simp [InCharge, World.emit, World.goto, Pc.conn?, Pc.fd?])
    · exact .inl (by simpa [World.emit, World.goto, hne] using hfd)
  | @closeFirst c' fd' | @close c' fd' =>
    have hne : fd ≠ fd' := by
      rintro rfl
      simp [World.goto, World.closeFd] at hfd
    exact .inl (by simpa [World.goto, World.closeFd, hne] using hfd)
  | _ => exact .inl hfd

theorem Held.step (h : Held w) (hinv : Inv w) (hm : Move w l w') : Held w' := by
  intro fd c hfd
  rcases hm.opened hfd with hfd' | hmain
  · obtain ⟨t, hc⟩ := h fd c hfd'
    refine (hm.inCharge hinv hc).resolve_left fun hclosed => ?_
    rw [hfd] at hclosed
    cases hclosed
  · exact ⟨_, hmain⟩

theorem held_of_reachable (h : Reachable step World.init w) : Inv w ∧ Held w :=
  h.invariant (I := fun w => Inv w ∧ Held w) ⟨.init, fun _ _ hfd => by cases hfd⟩
    fun _ _ _ ⟨hinv, hheld⟩ hs => ⟨hinv.step hs, hheld.step hinv (move_of_step hs)⟩

/-! ### The accounts -/

/-- Where the record of a connection is active its thread stands between
`cl_add` and `cl_remove`. -/
theorem Pc.Expects.keepsRecord {p : Pc} {i : ℕ} {r : Cliente}
    (h : p.Expects (.registered i r)) (hfd : p.fd? ≠ none) : p.keepsRecord = true := by
  cases p <;> simp [Pc.Expects, Pc.fd?, Pc.keepsRecord] at h hfd ⊢

/-- What the descriptors and the records add up to. -/
structure Accounted (w : World) : Prop where
  /-- An open descriptor is held by exactly one thread, and a held one is open. -/
  descr : ∀ fd c, w.descr fd = some c ↔ ∃! t, InCharge w t c fd
  /-- An active record belongs to such a thread, which has not removed it yet. -/
  record : ∀ i r, w.table.Active i r → ∃ t c, InCharge w t c r.sockfd ∧
    (w.pc t).keepsRecord = true
  /-- Past the accept loop's check, a thread between the two calls has a record. -/
  kept : ∀ c fd, InCharge w (.client c) c fd → (w.pc (.client c)).keepsRecord = true →
    ∃ i r, w.table.Active i r ∧ r.sockfd = fd

/-- **Nothing leaks**: open descriptors, threads in charge and active records
account for one another, so that nothing is open and nobody is listed once the
accept loop waits and no client thread runs. -/
theorem accounted_of_reachable (h : Reachable step World.init w) : Accounted w ∧
    (w.pc .main = .accept → (∀ c, (w.pc (.client c)).fd? = none) →
      (∀ fd, w.descr fd = none) ∧ ∀ i r, ¬ w.table.Active i r) := by
  obtain ⟨hinv, hheld⟩ := held_of_reachable h
  have hacc : Accounted w := by
    refine ⟨fun fd c => ⟨fun hfd => ?_, ?_⟩, fun i r hr => ?_, fun c fd hc hkeep => ?_⟩
    · obtain ⟨t, ht⟩ := hheld fd c hfd
      exact ⟨t, ht, fun t' ht' => conn_thread_unique hinv.threads ht'.1 ht.1⟩
    · rintro ⟨t, ht, -⟩
      exact (hinv.own_descr rfl ht.1 ht.2).1
    · obtain ⟨c, r₀, hph, -, hfd, -⟩ := hinv.core.owner hr
      obtain ⟨t, ht⟩ := hheld _ _ hfd
      have hexp := hinv.expects (t := t) rfl ht.1
      rw [hph] at hexp
      exact ⟨t, c, ht, hexp.keepsRecord (by rw [ht.2]; simp)⟩
    · have hexp := hinv.expects (t := .client c) rfl hc.1
      have hrun := hinv.runBy (t := .client c) rfl
      have hreg : ∃ i r, phase w.log c = .registered i r ∧ r.sockfd = fd := by
        have hfd := hc.2
        rcases hpc : w.pc (.client c) <;> rw [hpc] at hexp hrun hfd hkeep <;>
          simp_all [Pc.keepsRecord, Pc.RunBy, Pc.Expects, Pc.fd?]
      obtain ⟨i, r₀, hph, rfl⟩ := hreg
      obtain ⟨-, r, hr, hid⟩ := hinv.core.live c i r₀ hph
      exact ⟨i, r, hr, hid.2.2⟩
  refine ⟨hacc, fun hmain hclients => ?_⟩
  have hnone : ∀ fd, w.descr fd = none := by
    intro fd
    rcases hfd : w.descr fd with - | c
    · rfl
    obtain ⟨t, ht⟩ := hheld fd c hfd
    have hrun := hinv.runBy (t := t) rfl
    -- nobody is left to hold it
    cases t with
    | main =>
      rw [InCharge, hmain] at ht
      cases ht.1
    | monitor =>
      have hconn := ht.1
      rcases hpc : w.pc .monitor <;> rw [hpc] at hconn hrun <;>
        simp_all [Pc.conn?, Pc.RunBy]
    | client c' =>
      have hfd' := ht.2
      rw [hclients c'] at hfd'
      cases hfd'
  refine ⟨hnone, fun i r hr => ?_⟩
  obtain ⟨c, -, -, -, hfd, -⟩ := hinv.core.owner hr
  rw [hnone] at hfd
  cases hfd

/-! ### Alice comes and goes -/

/-- Alice registers, logs out, and her thread ends. -/
def visit : List Label :=
  joining 4 (ip 1) (registerPacket alice) ++
    [⟨.client 0, .packet (clientPacket cmdLogout alice [] [])⟩, sends 0] ++ goes 0 5

theorem accounted_of_reachable_visit : ∃ w, Reachable step World.init w ∧ w.nextConn = 1 ∧
    Accounted w ∧ (∀ fd, w.descr fd = none) ∧ ∀ i r, ¬ w.table.Active i r := by
  have hexec : (exec step World.init visit).any (fun w =>
      w.nextConn == 1 && w.pc .main == .accept && (w.pc (.client 0)).fd? == none) = true := by
    decide +kernel
  obtain ⟨w, hw, hp⟩ := exists_reachable hexec
  simp only [Bool.and_eq_true, beq_iff_eq] at hp
  obtain ⟨⟨hnext, hmain⟩, halice⟩ := hp
  obtain ⟨hacc, hquiet⟩ := accounted_of_reachable hw
  refine ⟨w, hw, hnext, hacc, hquiet hmain fun c => ?_⟩
  rcases c with - | c
  · exact halice
  · -- the other connections are still to come
    have hinv := inv_of_reachable hw
    rw [notStarted_of_fresh hinv.threads (hinv.core.unborn (c + 1) (by omega))]
    rfl

end ChatSystem
