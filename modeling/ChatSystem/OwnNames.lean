/-
ChatSystem/OwnNames.lean

Runs of well-behaved clients: a `REGISTER` carries a name of at most 31 bytes,
and every later packet of the connection carries that name as its sender
(`SendsOwnName`).  Both clients keep to this.

Then the server's two ways of finding a connection's record agree: the lookup
by the sender of its last packet finds the record found by its descriptor
(`find_own`), and the name announced at its end is the registered one
(`OwnNames.announced`).
-/
import ChatSystem.Provenance
import ChatSystem.UniqueNames

namespace ChatSystem

open CStr Lts

/-- The step receives no packet but one with the name its connection is
registered under, or a `REGISTER` of a name that is stored whole. -/
def SendsOwnName (w : World) (l : Label) : Prop :=
  ∀ pkt, l.answer = .packet pkt → w.sending l.tid = none →
    (l.tid = .main → pkt.command = cmdRegister → (cstr pkt.senderPtr).length ≤ 31) ∧
    ∀ c i r, l.tid = .client c → Event.registered c i r ∈ w.log →
      cstr pkt.senderPtr = r.username.str

/-- `SendsOwnName`, computed. -/
def sendsOwnName (w : World) (l : Label) : Bool :=
  match l.answer, l.tid with
  | .packet pkt, .main => pkt.command != cmdRegister || decide ((cstr pkt.senderPtr).length ≤ 31)
  | .packet pkt, .client c => w.log.all fun e =>
    match e with
    | .registered c' _ r => c' != c || cstr pkt.senderPtr == r.username.str
    | _ => true
  | _, _ => true

theorem sendsOwnName_sound {w : World} {l : Label} (h : sendsOwnName w l = true) :
    SendsOwnName w l := by
  obtain ⟨t, a⟩ := l
  rintro pkt rfl -
  constructor
  · rintro rfl hcmd
    simpa [sendsOwnName, hcmd] using h
  · rintro c i r rfl hr
    have hone := List.all_eq_true.mp h _ hr
    simpa using hone

/-! ### Registrations and packets in the history -/

/-- A connection is registered once. -/
theorem registered_unique {h : List Event} (hd : Always Allowed h) {c i j : ℕ} {r s : Cliente}
    (hr : Event.registered c i r ∈ h) (hs : Event.registered c j s ∈ h) : i = j ∧ r = s := by
  have hrank {h : List Event} {i : ℕ} {r : Cliente} (hd : Always Allowed h)
      (hr : Event.registered c i r ∈ h) : 2 ≤ (phase h c).rank :=
    rank_le_of_mem hd hr fun older _ => by simp [phase_cons, Event.advance, Phase.rank]
  -- a registration finds its connection in a lower phase
  have hnot {h : List Event} {i j : ℕ} {r s : Cliente} (hd : Always Allowed h)
      (hr : Event.registered c i r ∈ h) (hall : Allowed (.registered c j s) h) : False := by
    obtain ⟨ip, hph⟩ := hall
    have hle := hrank hd hr
    rw [hph] at hle
    cases Nat.le_of_succ_le_succ hle
  induction h with
  | nil => cases hr
  | cons e h ih =>
    obtain ⟨hall, hd⟩ := hd
    rcases List.mem_cons.mp hr with rfl | hr'
    · rcases List.mem_cons.mp hs with heq | hs'
      · cases heq
        exact ⟨rfl, rfl⟩
      · exact (hnot hd hs' hall).elim
    · rcases List.mem_cons.mp hs with rfl | hs'
      · exact (hnot hd hr' hall).elim
      · exact ih hd hr' hs'

variable {w w' : World} {l : Label}

/-- A registration is in the history, or `main` has just made it. -/
theorem Move.registered_cases (h : Move w l w') {c i : ℕ} {r : Cliente}
    (hr : Event.registered c i r ∈ w'.log) :
    Event.registered c i r ∈ w.log ∨ ∃ fd ip pkt now,
      w.pc .main = .register c fd ip pkt ∧ r = newCliente pkt.senderPtr ip fd now := by
  cases h with
  | @add c' fd ip pkt now hs hpc =>
    rcases List.mem_cons.mp hr with heq | hr
    · cases heq
      exact .inr ⟨fd, ip, pkt, now, hpc, rfl⟩
    · exact .inl hr
  | acceptFail | spawn | touch | fanoutSkip | resolve | resolved | wake | sweepSkip | reactivate
  | directMissing | status | list | info | fanoutSend | sweepMark => exact .inl hr
  | _ => exact .inl ((List.mem_cons.mp hr).resolve_left (by simp))

/-- The last packet of a connection changes when its thread receives one. -/
theorem Move.lastPacket_cases (h : Move w l w') (c : ℕ) :
    lastPacket w'.log c = lastPacket w.log c ∨
      ∃ fd pkt, l = ⟨.client c, .packet pkt⟩ ∧ w.sending (.client c) = none ∧
        w.pc (.client c) = .recv fd ∧ lastPacket w'.log c = some pkt := by
  have hreceived {c' : ℕ} {fd : ℤ} {pkt : ChatPacket} (hs : w.sending (.client c') = none)
      (hpc : w.pc (.client c') = .recv fd) :
      lastPacket (.received (.client c') fd (w.descr fd) pkt :: w.log) c = lastPacket w.log c ∨
        ∃ fd' pkt', (⟨.client c', .packet pkt⟩ : Label) = ⟨.client c, .packet pkt'⟩ ∧
          w.sending (.client c) = none ∧ w.pc (.client c) = .recv fd' ∧
          lastPacket (.received (.client c') fd (w.descr fd) pkt :: w.log) c = some pkt' := by
    by_cases hc : c' = c
    · subst hc
      exact .inr ⟨fd, pkt, rfl, hs, hpc, if_pos rfl⟩
    · exact .inl (if_neg hc)
  cases h with
  | recvActivity hs hpc | recvQuery hs hpc | recvLogout hs hpc | recvIgnored hs hpc =>
    exact hreceived hs hpc
  | _ => exact .inl rfl

/-- A `REGISTER` about to be handled was before the step, or has just been
received. -/
theorem Move.register_cases (h : Move w l w') {c : ℕ} {fd : ℤ} {ip : List UInt8}
    {pkt : ChatPacket} (hpc' : w'.pc .main = .register c fd ip pkt) :
    w.pc .main = .register c fd ip pkt ∨
      l = ⟨.main, .packet pkt⟩ ∧ w.sending .main = none ∧ pkt.command = cmdRegister := by
  by_cases ht : l.tid = .main
  · cases h with
    | wrote | sendFail | acceptFail => exact .inl hpc'
    -- the way in, with the packet just received
    | @recvFirst c' fd' ip' pkt' hs hpc =>
      simp only [World.emit, World.goto, Function.update_self] at hpc'
      split at hpc'
      · case isTrue hcmd =>
        cases hpc'
        exact .inr ⟨rfl, hs, hcmd⟩
      · cases hpc'
    -- every other step of `main` goes somewhere else
    | accept | recvFirstFail | add | refuse | spawn | closeFirst =>
      simp [World.emit, World.goto, World.call, World.setTable, World.closeFd] at hpc'
    | check =>
      simp only [World.emit, World.goto, Function.update_self] at hpc'
      split at hpc' <;> cases hpc'
    | _ => cases ht
  · rw [(h.other ht).1] at hpc'
    exact .inl hpc'

/-! ### The invariant -/

structure OwnNames (w : World) : Prop where
  registering : ∀ c fd ip pkt, w.pc .main = .register c fd ip pkt →
    (cstr pkt.senderPtr).length ≤ 31
  short : ∀ c i r, Event.registered c i r ∈ w.log → r.username.str.length ≤ 31
  packets : ∀ c pkt i r, lastPacket w.log c = some pkt → Event.registered c i r ∈ w.log →
    cstr pkt.senderPtr = r.username.str
  distinct : w.table.NamesDistinct

namespace OwnNames

theorem init : OwnNames World.init where
  registering := by
    intro c fd ip pkt hpc
    cases hpc
  short := by
    intro c i r hr
    cases hr
  packets := by
    intro c pkt i r hlast
    cases hlast
  distinct := clInit_namesDistinct

theorem step (h : OwnNames w) (hinv : Inv w) (hw : Provenance w) (hown : SendsOwnName w l)
    (hs : step w l = some w') : OwnNames w' := by
  have hm := move_of_step hs
  refine ⟨?_, ?_, ?_, ?_⟩
  · -- registering
    intro c fd ip pkt hpc
    rcases hm.register_cases hpc with hpc | ⟨rfl, hidle, hcmd⟩
    · exact h.registering c fd ip pkt hpc
    · exact (hown pkt rfl hidle).1 rfl hcmd
  · -- short
    intro c i r hr
    rcases hm.registered_cases hr with hr | ⟨fd, ip, pkt, now, hpc, rfl⟩
    · exact h.short c i r hr
    · rw [str_username_newCliente, List.length_take]
      omega
  · -- packets
    intro c pkt i r hlast hr
    rcases hm.lastPacket_cases c with hsame | ⟨fd', pkt', rfl, hidle, hrecv, hlast'⟩
    · rw [hsame] at hlast
      rcases hm.registered_cases hr with hr | ⟨fd, ip, pkt', now, hpc, rfl⟩
      · exact h.packets c pkt i r hlast hr
      · -- a connection is registered before its thread receives anything
        have hns := (hinv.threads .main).alone rfl c (by rw [hpc]; rfl)
        have hnone : lastPacket w.log c = none := hw.serving_at hns
        rw [hnone] at hlast
        cases hlast
    · obtain rfl := Option.some.inj (hlast.symm.trans hlast')
      rcases hm.registered_cases hr with hr | ⟨fd, ip, pkt', now, hpc, rfl⟩
      · exact (hown pkt rfl hidle).2 c i r rfl hr
      · have hns := (hinv.threads .main).alone rfl c (by rw [hpc]; rfl)
        rw [hrecv] at hns
        cases hns
  · refine (step_namesDistinct_iff hinv h.distinct hs).mpr ?_
    intro c fd ip pkt _ _ hpc hlong
    exact absurd (h.registering c fd ip pkt hpc) (Nat.not_le_of_lt hlong)

/-- The name a connection announces is the one it registered. -/
theorem announced (h : OwnNames w) (hinv : Inv w) {c i : ℕ} {r : Cliente} {name : List UInt8}
    (hr : Event.registered c i r ∈ w.log) (ha : Announced w.log c name) :
    name = r.username.str := by
  rcases ha with ⟨pkt, ⟨hlast, -, -⟩, rfl⟩ | ⟨-, j, s, hs, rfl⟩
  · rw [h.packets c pkt i r hlast hr]
    exact List.take_of_length_le (h.short c i r hr)
  · rw [(registered_unique hinv.core.disciplined hr hs).2]

/-- The sender of a connection's last packet leads to its record. -/
theorem find_own (h : OwnNames w) (hinv : Inv w) {c i : ℕ} {r : Cliente} {pkt : ChatPacket}
    (hph : phase w.log c = .registered i r) (hlast : lastPacket w.log c = some pkt) :
    clFindByName w.table pkt.senderPtr = some i := by
  obtain ⟨-, r', hr', hid⟩ := hinv.core.live c i r hph
  have hname : r'.username.str = cstr pkt.senderPtr := by
    rw [hid.1, h.packets c pkt i r hlast (registered_mem_of_phase hph)]
  rcases hfind : clFindByName w.table pkt.senderPtr with - | j
  · exact absurd hname (clFindByName_eq_none hinv.core.ok hfind hr')
  · obtain ⟨-, s, hs, hsname⟩ := clFindByName_eq_some hfind
    rw [h.distinct i j r' s hr' hs (hname.trans hsname.symm)]

end OwnNames

/-- **Well-behaved runs keep to their names**, in every state. -/
theorem ownNames_of_run {tr : List (World × Label)} (h : Run step World.init tr w)
    (hown : StepsAll SendsOwnName tr) :
    StatesAll (fun w => Inv w ∧ Provenance w ∧ OwnNames w) tr w := by
  refine h.statesAll_of_steps ⟨.init, .init, .init⟩ ?_ hown
  rintro w l w' ⟨hinv, hw, hnames⟩ hsends hs
  exact ⟨hinv.step hs, hw.move hinv (move_of_step hs), hnames.step hinv hw hsends hs⟩

end ChatSystem
