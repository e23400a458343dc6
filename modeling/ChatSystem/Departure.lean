/-
ChatSystem/Departure.lean

Departure notices and the table.  A client's thread removes its record, closes
the connection and announces the name in three separate steps, with the mutex
free in between.  Whoever registers the name in between is announced as gone
while in the table; and since a LOGOUT may carry any name, so is a user who
never left.

`noticed_of_run`: as long as every thread that takes the mutex to announce a
name does so after all connections registered under it have been removed
(`AnnouncesGone`), no notice is sent while a record of that name is active.
`not_always_noticed` is the run in which Alice comes back before her notice.
-/
import ChatSystem.Fanout
import ChatSystem.Authenticity

namespace ChatSystem

open CStr Lts

/-- The table has no active record of that name. -/
def Table.Absent (t : Table) (name : List UInt8) : Prop :=
  ∀ i r, t.Active i r → r.username.str ≠ name

/-- A `CMD_DISCONNECTED` being sent names nobody in the table. -/
def Noticed (w : World) : Prop :=
  ∀ t s, w.sending t = some s → s.pkt.command = cmdDisconnected →
    w.table.Absent s.pkt.payload.str

/-- A thread that takes the mutex to announce a name does so when every
connection registered under it has been removed. -/
def AnnouncesGone (w : World) (l : Label) : Prop :=
  ∀ c username, l.tid = .client c → w.sending l.tid = none →
    w.pc (.client c) = .notify username →
    ∀ c' i r, Event.registered c' i r ∈ w.log → r.username.str = username.str →
      Event.removed c' ∈ w.log

variable {w w' : World} {l : Label}

/-! ### The table while a thread announces a name -/

/-- A thread announcing a name announces one that is not in the table. -/
def Announcing (w : World) : Prop :=
  ∀ c username i, w.pc (.client c) = .notifying username i →
    w.table.Absent username.str

/-- The names in the table are those of connections registered and not
removed. -/
theorem Inv.absent_of_removed (hinv : Inv w) {name : List UInt8}
    (h : ∀ c i r, Event.registered c i r ∈ w.log → r.username.str = name →
      Event.removed c ∈ w.log) : w.table.Absent name := by
  intro i r hr hname
  obtain ⟨c, r₀, hph, hid⟩ := hinv.core.active i r hr
  have hlive := (phase_registered_iff hinv.core.disciplined).mp hph
  exact hlive.2 (h c i r₀ hlive.1 (by rw [← hid.1, hname]))

/-- A step that adds no record of that name does not bring it back. -/
theorem Table.Absent.changes {name : List UInt8} (h : w.table.Absent name) (hinv : Inv w)
    (hc : Changes w l w')
    (hadd : ∀ c i r, w.mutexLista = none → w'.log = .registered c i r :: w.log →
      r.username.str ≠ name) : w'.table.Absent name := by
  intro i r hr
  rcases hc with htable | ⟨j, f, hf, htable, -⟩ |
    ⟨c, fd, ip, pkt, now, -, -, -, hm, hnum, -, htable, hlog⟩ |
    ⟨c, fd, username, -, -, -, -, htable, -⟩
  · rw [htable] at hr
    exact h i r hr
  · rw [htable] at hr
    obtain ⟨r₀, hr₀, hid⟩ := active_modify_sameId hf hr
    rw [hid.1]
    exact h i r₀ hr₀
  · -- a registration, the only way a name comes in
    rw [htable] at hr
    rcases (active_added hinv.core.ok hnum rfl).mp hr with ⟨-, rfl⟩ | hr
    · exact hadd c _ _ hm hlog
    · exact h i r hr
  · rw [htable] at hr
    exact h i r (active_clRemove.mp hr).1

/-- The section of a notice begins with the mutex and goes on with it. -/
theorem Move.into_notifying (h : Move w l w') {c : ℕ} {username : CharArray 32} {i : ℕ}
    (ht : l.tid = .client c) (hp : w'.pc (.client c) = .notifying username i) :
    w'.table = w.table ∧
      ((w.sending l.tid = none ∧ w.pc (.client c) = .notify username) ∨
        ∃ i', w.pc (.client c) = .notifying username i') := by
  cases h with
  -- one turn of the loop
  | fanoutSend hs hpc hf | fanoutSkip hs hpc hf =>
    obtain rfl := Tid.client.inj ht
    refine ⟨rfl, .inr ?_⟩
    cases hf <;> simp [World.call, World.goto] at hp
    obtain ⟨rfl, -⟩ := hp
    exact ⟨_, hpc⟩
  | fanoutEnd hs hpc hf =>
    obtain rfl := Tid.client.inj ht
    cases hf <;> simp [World.unlock, World.goto] at hp
  -- the way in
  | @notify c' u hs hpc =>
    obtain rfl := Tid.client.inj ht
    simp [World.lock, World.goto] at hp
    exact ⟨rfl, .inl ⟨hs, by rw [hpc, hp.1]⟩⟩
  | wrote hs | sendFail hs => exact ⟨rfl, .inr ⟨i, hp⟩⟩
  | accept | acceptFail | recvFirst | recvFirstFail | add | refuse | check | spawn | closeFirst
  | wake | sweepStart | sweepMark | sweepSkip | sweepEnd => cases ht
  | @recvIgnored c' fd pkt hs hpc =>
    obtain rfl := Tid.client.inj ht
    have hp' : w.pc (.client c') = .notifying username i := hp
    rw [hpc] at hp'
    cases hp'
  | close =>
    obtain rfl := Tid.client.inj ht
    simp [World.closeFd, World.goto] at hp
    split at hp <;> cases hp
  -- every other step goes somewhere else
  | _ =>
    obtain rfl := Tid.client.inj ht
    simp [World.emit, World.goto, World.call, World.lock, World.unlock, World.setTable] at hp

theorem announcing_step (hinv : Inv w) (h : Announcing w) (hgone : AnnouncesGone w l)
    (hm : Move w l w') : Announcing w' := by
  intro c username i hp
  by_cases ht : l.tid = .client c
  · obtain ⟨htable, ⟨hs, hpc⟩ | ⟨i', hpc⟩⟩ := hm.into_notifying ht hp
    · rw [htable]
      exact hinv.absent_of_removed (hgone c username ht hs hpc)
    · rw [htable]
      exact h c username i' hpc
  · have hpc : w.pc (.client c) = .notifying username i := by
      rcases (hm.local_of_ne (Ne.symm ht)).2 with hpc | ⟨c', fd, -, -, hrecv⟩
      · rw [← hpc, hp]
      · rw [hp] at hrecv
        cases hrecv
    refine (h c username i hpc).changes hinv hm.changes fun _ _ _ hfree _ => ?_
    -- nobody registers while the announcing thread holds the mutex
    have hheld := hinv.holds hpc rfl
    rw [hfree] at hheld
    cases hheld

/-- The notice being sent is the one its thread announces. -/
theorem noticed_of_announcing (hw : Provenance w) (hcalls : FanoutCalls w)
    (h : Announcing w) : Noticed w := by
  intro t s hs hcmd
  obtain ⟨c, i, rfl, hsite, -⟩ := notice_of_attributed (hw.pending t s hs) hcmd
  obtain ⟨j, msg, site, next, done, hf, hsite', -⟩ := hcalls _ s hs (by rw [hsite]; rfl)
  rw [hsite'] at hsite
  generalize hp : w.pc (.client c) = p at hf
  cases hf with
  | broadcasting => cases hsite
  | notifying username =>
    obtain ⟨hname, -⟩ := Site.departure.inj hsite
    rw [← hname]
    exact h c username _ hp

/-- **Departure notices.**  In a run all of whose announcements come after the
removal of every connection of that name, no `CMD_DISCONNECTED` is being sent,
in any state, while a record of the name it carries is active. -/
theorem noticed_of_run {tr : List (World × Label)} {w : World} (h : Run step World.init tr w)
    (hgone : StepsAll AnnouncesGone tr) : StatesAll Noticed tr w := by
  have hall := h.statesAll_of_steps
    (I := fun w => (Inv w ∧ Provenance w ∧ FanoutCalls w) ∧ Announcing w)
    ⟨⟨.init, .init, fun t s hs => (by cases hs)⟩, fun c username i hp => (by cases hp)⟩ ?_ hgone
  · exact hall.mono fun w hI => noticed_of_announcing hI.1.2.1 hI.1.2.2 hI.2
  · rintro w l w' ⟨⟨hinv, hw, hcalls⟩, hann⟩ hgone hs
    have hm := move_of_step hs
    exact ⟨⟨hinv.move hm, hw.move hinv hm, fanoutCalls_step hinv hcalls hm⟩,
      announcing_step hinv hann hgone hm⟩

/-! ### Two runs -/

/-- `AnnouncesGone`, computed. -/
def announcesGone (w : World) (l : Label) : Bool :=
  match w.pc l.tid with
  | .notify username => w.log.all fun e =>
      match e with
      | .registered c' _ r => r.username.str != username.str || w.log.contains (.removed c')
      | _ => true
  | _ => true

theorem announcesGone_sound (h : announcesGone w l = true) : AnnouncesGone w l := by
  intro c username ht _ hpc c' i r hreg hname
  rw [announcesGone, ht, hpc] at h
  have hone := List.all_eq_true.mp h _ hreg
  simpa [hname] using hone

/-- Bob leaves, and Alice is told. -/
def farewell : List Label :=
  joining 4 (ip 1) (registerPacket alice) ++ joining 5 (ip 2) (registerPacket bob) ++
    [⟨.client 1, .packet (clientPacket cmdLogout bob [] [])⟩, sends 1] ++ goes 1 5

theorem noticed_farewell : ∃ tr w, Run step World.init tr w ∧
    (∃ s, w.sending (.client 1) = some s ∧ s.pkt.command = cmdDisconnected) ∧
    StatesAll Noticed tr w := by
  have hexec : (execIf announcesGone step World.init farewell).any (fun w =>
      (w.sending (.client 1)).any fun s => s.pkt.command == cmdDisconnected) = true := by
    decide +kernel
  obtain ⟨tr, w, hrun, -, hC, hp⟩ := exists_run_of_execIf hexec
  obtain ⟨s, hs, hcmd⟩ := (Option.any_eq_true _ _).mp hp
  exact ⟨tr, w, hrun, ⟨s, hs, beq_iff_eq.mp hcmd⟩,
    noticed_of_run hrun fun x hx => announcesGone_sound (hC x hx)⟩

/-- Alice leaves and registers again before her old thread announces her. -/
def returned : List Label :=
  joining 4 (ip 1) (registerPacket alice) ++ [⟨.client 0, .fail⟩] ++ goes 0 3 ++
    joining 4 (ip 1) (registerPacket alice) ++ goes 0 2

theorem exec_returned : (exec step World.init returned).any (fun w =>
    ((w.sending (.client 0)).any fun s =>
      s.pkt.command == cmdDisconnected && s.pkt.payload.str == alice) &&
    (w.table.lista[0]?.any fun r => r.activo && r.username.str == alice)) = true := by
  decide +kernel

/-- **A user may be announced as gone while in the table.** -/
theorem not_always_noticed : ¬ ∀ w, Reachable step World.init w → Noticed w := by
  intro hall
  obtain ⟨w, hw, hp⟩ := exists_reachable exec_returned
  obtain ⟨hsend, hact⟩ := Bool.and_eq_true_iff.mp hp
  obtain ⟨s, hs, hnotice⟩ := (Option.any_eq_true _ _).mp hsend
  obtain ⟨r, hr, halice⟩ := (Option.any_eq_true _ _).mp hact
  simp only [Bool.and_eq_true, beq_iff_eq] at hnotice halice
  exact hall w hw _ s hs hnotice.1 0 r ⟨hr, halice.1⟩ (by rw [halice.2, hnotice.2])

end ChatSystem
