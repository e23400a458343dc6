/-
ChatSystem/Updates.lean

The table in runs of well-behaved clients, where every call finds the record
of the connection it is made for: `Update` lists what a step may do to the
table and `Becomes` what it may do to one record; `Move.update` and
`Move.record` say that it does nothing else.

`ultimo_mensaje` is the first thing followed from this.  `latest tr c` is the
time that the latest `cl_add` or `cl_touch` of connection `c` in the trace `tr`
has recorded, and the record of `c` shows that time (`stamped_of_run`).
-/
import ChatSystem.OwnNames
import ChatSystem.Representation

namespace ChatSystem

open CStr Lts

/-! ### Times recorded -/

/-- The connection for which a step records a time: an accepted `cl_add`, or a
`cl_touch`. -/
def stampOf (w : World) (l : Label) : Option (ℕ × ℤ) :=
  match l.answer, l.tid, w.pc l.tid with
  | .clock now, .main, .register c fd ip pkt =>
    if (clAdd w.table pkt.senderPtr ip fd now).1 = 0 then some (c, now) else none
  | .clock now, .client c, .touch _ _ => some (c, now)
  | _, _, _ => none

/-- The time recorded last for connection `c`. -/
def latest : List (World × Label) → ℕ → Option ℤ
  | [], _ => none
  | (w, l) :: tr, c =>
    match stampOf w l with
    | some (c', now) => if c' = c then some now else latest tr c
    | none => latest tr c

/-! ### Updates -/

/-- What a step that registers nobody makes of the table. -/
inductive Update (w : World) (l : Label) : Table → Prop
  | same (hstamp : stampOf w l = none) : Update w l w.table
  | touched {c fd pkt now i r₀} (hl : l = ⟨.client c, .clock now⟩)
      (hs : w.sending (.client c) = none) (hpc : w.pc (.client c) = .touch fd pkt)
      (hph : phase w.log c = .registered i r₀) :
      Update w l (w.table.modifySlot i (touchCliente now))
  | status {c fd pkt i r₀} (hl : l = ⟨.client c, .go⟩) (hs : w.sending (.client c) = none)
      (hpc : w.pc (.client c) = .handle fd pkt) (hcmd : pkt.command = cmdStatus)
      (hph : phase w.log c = .registered i r₀) :
      Update w l (w.table.modifySlot i (setStatus pkt.payloadPtr))
  | swept {now i} (hl : l = ⟨.monitor, .go⟩) (hs : w.sending .monitor = none)
      (hpc : w.pc .monitor = .sweep now i) (hi : i < w.table.numClientes) :
      Update w l (sweepSlot now w.table i)
  | removed {c fd username i r₀} (hl : l = ⟨.client c, .go⟩)
      (hs : w.sending (.client c) = none) (hpc : w.pc (.client c) = .remove fd username)
      (hph : phase w.log c = .registered i r₀) (hfind : clFindByFd w.table fd = some i) :
      Update w l (clRemove w.table fd).2

/-- The step registers connection `c`. -/
structure Registers (w : World) (l : Label) (w' : World) (c : ℕ) (r : Cliente) : Prop where
  stamp : stampOf w l = some (c, r.ultimoMensaje)
  conn : ∃ ip, phase w.log c = .connected r.sockfd ip
  num : w.table.numClientes < maxClients
  table : w'.table = added w.table r
  log : w'.log = .registered c (addSlot w.table) r :: w.log
  fresh : ∃ fd ip pkt now, w.pc .main = .register c fd ip pkt ∧
    r = newCliente pkt.senderPtr ip fd now

variable {w w' : World} {l : Label}

/-- `cl_touch` by a connection's own thread. -/
theorem clTouch_own (hinv : Inv w) {c i : ℕ} {r₀ r : Cliente} (now : ℤ)
    (hph : phase w.log c = .registered i r₀) (hr : w.table.Active i r) :
    clTouch w.table r₀.sockfd now =
      (strEq r.status.bytes statusInactivo, w.table.modifySlot i (touchCliente now)) := by
  unfold clTouch
  rw [hinv.core.find_registered hph]
  simp only [hr.1]

/-- `handle_status` for a packet with the connection's own name. -/
theorem handleStatus_own (hinv : Inv w) (hnames : OwnNames w) {c i : ℕ} {r₀ : Cliente}
    {pkt : ChatPacket} (hph : phase w.log c = .registered i r₀)
    (hlast : lastPacket w.log c = some pkt) :
    handleStatus w.table pkt =
      (w.table.modifySlot i (setStatus pkt.payloadPtr), sendOk pkt.senderPtr pkt.payloadPtr) := by
  simp [handleStatus, clSetStatus, hnames.find_own hinv hph hlast]

/-- **The table after a step** of a well-behaved run. -/
theorem Move.update (h : Move w l w') (hinv : Inv w) (hw : Provenance w) (hnames : OwnNames w) :
    (∃ c r, Registers w l w' c r) ∨
      Update w l w'.table ∧ ∀ c i r, Event.registered c i r ∈ w'.log →
        Event.registered c i r ∈ w.log := by
  have hkeep {e : Event} (he : ∀ c i r, e ≠ .registered c i r) :
      ∀ c i r, Event.registered c i r ∈ e :: w.log → Event.registered c i r ∈ w.log :=
    fun c i r hmem => (List.mem_cons.mp hmem).resolve_left fun heq => he c i r heq.symm
  cases h with
  | @add c fd ip pkt now hs hpc hm hnum hdup =>
    obtain ⟨hph, -⟩ : (Pc.register c fd ip pkt).Expects (phase w.log c) := hinv.expects hpc rfl
    -- the condition of the move is the one `cl_add` tests
    have hzero : (clAdd w.table pkt.senderPtr ip fd now).1 = 0 := by
      rcases clAdd_cases w.table pkt.senderPtr ip fd now with ⟨-, hfull⟩ | ⟨-, -, hdup'⟩ | ⟨h0, -⟩
      · exact absurd hnum (Nat.not_lt_of_le hfull)
      · rw [hdup] at hdup'
        cases hdup'
      · rw [h0]
    exact .inl ⟨c, newCliente pkt.senderPtr ip fd now, by simp [stampOf, hpc, hzero, newCliente],
      ⟨ip, hph⟩, hnum, rfl, rfl, fd, ip, pkt, now, hpc, rfl⟩
  | @refuse c fd ip pkt now rc hs hpc hm hrc h0 =>
    exact .inr ⟨.same (by simp [stampOf, hpc, hrc, h0]), hkeep (by simp)⟩
  -- the record touched is found by its own descriptor
  | @touch c fd pkt now hs hpc hm | @reactivate c fd pkt now hs hpc hm =>
    obtain ⟨i, r₀, hph, rfl⟩ : (Pc.touch fd pkt).Expects (phase w.log c) := hinv.expects hpc rfl
    obtain ⟨-, r, hr, -⟩ := hinv.core.live c i r₀ hph
    refine .inr ⟨?_, fun _ _ _ => id⟩
    show Update w _ (clTouch w.table r₀.sockfd now).2
    rw [clTouch_own hinv now hph hr]
    exact .touched rfl hs hpc hph
  -- and the one set by its own name
  | @status c fd pkt hs hpc hm hcmd =>
    obtain ⟨i, r₀, hph, -⟩ : (Pc.handle fd pkt).Expects (phase w.log c) := hinv.expects hpc rfl
    refine .inr ⟨?_, fun _ _ _ => id⟩
    show Update w _ (handleStatus w.table pkt).1
    rw [handleStatus_own hinv hnames hph (hw.serving_at hpc).1]
    exact .status rfl hs hpc hcmd hph
  | sweepMark hs hpc hi | sweepSkip hs hpc hi =>
    exact .inr ⟨.swept rfl hs hpc hi, fun _ _ _ => id⟩
  | @remove c fd username hs hpc hm =>
    obtain ⟨i, r₀, hph, rfl⟩ : (Pc.remove fd username).Expects (phase w.log c) :=
      hinv.expects hpc rfl
    exact .inr ⟨.removed rfl hs hpc hph (hinv.core.find_registered hph), hkeep (by simp)⟩
  -- no other step writes to the table
  | acceptFail | spawn | fanoutSkip | resolve | resolved | directMissing | list | info
  | fanoutSend | wake => exact .inr ⟨.same rfl, fun _ _ _ => id⟩
  | _ => exact .inr ⟨.same rfl, hkeep (by simp)⟩

/-! ### One record -/

section Record

variable {c i : ℕ} {r₀ r r' : Cliente}

/-- A connection registered after a step that registers nobody was so
before. -/
theorem Move.registered_before (h : Move w l w') (hinv : Inv w) (hinv' : Inv w')
    (hold : ∀ c i r, Event.registered c i r ∈ w'.log → Event.registered c i r ∈ w.log)
    (hph : phase w'.log c = .registered i r₀) : phase w.log c = .registered i r₀ := by
  obtain ⟨hreg, hrem⟩ := (phase_registered_iff hinv'.core.disciplined).mp hph
  exact (phase_registered_iff hinv.core.disciplined).mpr
    ⟨hold c i r₀ hreg, fun hmem => hrem (h.mem_log hmem)⟩

/-- A registration leaves the other records alone. -/
theorem Registers.cases {c' : ℕ} {s : Cliente} (h : Registers w l w' c' s) (hinv : Inv w)
    (hph : phase w'.log c = .registered i r₀) (hr' : w'.table.Active i r') :
    (c = c' ∧ r' = s) ∨
      (c ≠ c' ∧ phase w.log c = .registered i r₀ ∧ w.table.Active i r') := by
  have hact : s.activo = true := by
    obtain ⟨fd, ip, pkt, now, -, rfl⟩ := h.fresh
    rfl
  rw [h.log] at hph
  rw [h.table, active_added hinv.core.ok h.num hact] at hr'
  by_cases hc : c = c'
  · subst hc
    simp only [phase_cons, Event.advance, if_true] at hph
    obtain ⟨rfl, rfl⟩ := Phase.registered.inj hph
    rcases hr' with ⟨-, rfl⟩ | hr'
    · exact .inl ⟨rfl, rfl⟩
    · exact absurd hr' (addSlot_not_active hinv.core.ok h.num r')
  · rw [phase_cons_of_ne rfl hc] at hph
    rcases hr' with ⟨rfl, -⟩ | hr'
    · -- the slot filled belonged to nobody
      obtain ⟨-, s', hs', -⟩ := hinv.core.live c _ r₀ hph
      exact absurd hs' (addSlot_not_active hinv.core.ok h.num s')
    · exact .inr ⟨hc, hph, hr'⟩

/-- What a step makes of the record `r` of connection `c`, in slot `i`. -/
inductive Becomes (w : World) (l : Label) (c i : ℕ) (r : Cliente) : Cliente → Prop
  | kept (hstamp : ∀ now, stampOf w l ≠ some (c, now)) : Becomes w l c i r r
  | touched {fd pkt now} (hl : l = ⟨.client c, .clock now⟩)
      (hs : w.sending (.client c) = none) (hpc : w.pc (.client c) = .touch fd pkt) :
      Becomes w l c i r (touchCliente now r)
  | status {fd pkt} (hl : l = ⟨.client c, .go⟩) (hs : w.sending (.client c) = none)
      (hpc : w.pc (.client c) = .handle fd pkt) (hcmd : pkt.command = cmdStatus) :
      Becomes w l c i r (setStatus pkt.payloadPtr r)
  | marked {now} (hl : l = ⟨.monitor, .go⟩) (hs : w.sending .monitor = none)
      (hpc : w.pc .monitor = .sweep now i) (hidle : idle now r = true) :
      Becomes w l c i r (markInactive r)

/-- A record other than the one updated. -/
theorem active_modify_of_ne {t : Table} {f : Cliente → Cliente} (hf : Refresh f) {j : ℕ}
    (hne : i ≠ j) (hr' : (t.modifySlot j f).Active i r') : t.Active i r' := by
  obtain ⟨s, hs, rfl⟩ := (active_modify hf).mp hr'
  rw [if_neg hne]
  exact hs

/-- The record updated. -/
theorem active_modify_self {t : Table} {f : Cliente → Cliente} (hf : Refresh f)
    (hr : t.Active i r) (hr' : (t.modifySlot i f).Active i r') : r' = f r := by
  obtain ⟨s, hs, rfl⟩ := (active_modify hf).mp hr'
  rw [if_pos rfl, hs.unique hr]

/-- The record of a connection after the record of one is updated. -/
theorem record_modify {f : Cliente → Cliente} (hf : Refresh f) (hinv : Inv w) {c' j : ℕ}
    {s₀ : Cliente} (hph : phase w.log c = .registered i r₀)
    (hph' : phase w.log c' = .registered j s₀) (hr : w.table.Active i r)
    (hr' : (w.table.modifySlot j f).Active i r') : c = c' ∧ r' = f r ∨ c ≠ c' ∧ r' = r := by
  by_cases hc : c = c'
  · subst hc
    obtain ⟨rfl, -⟩ := Phase.registered.inj (hph.symm.trans hph')
    exact .inl ⟨rfl, active_modify_self hf hr hr'⟩
  · -- another connection's record is in another slot
    have hi : i ≠ j := by
      rintro rfl
      exact hc (hinv.core.slot_unique hph hph')
    exact .inr ⟨hc, (active_modify_of_ne hf hi hr').unique hr⟩

theorem Update.becomes {t : Table} (hu : Update w l t) (hinv : Inv w)
    (hph : phase w.log c = .registered i r₀) (hr : w.table.Active i r) (hr' : t.Active i r') :
    Becomes w l c i r r' := by
  cases hu with
  | same hstamp =>
    obtain rfl := hr'.unique hr
    exact .kept (by simp [hstamp])
  | @touched c' fd pkt now j s₀ hl hs hpc hph' =>
    rcases record_modify (refresh_touchCliente now) hinv hph hph' hr hr' with
      ⟨rfl, rfl⟩ | ⟨hc, rfl⟩
    · exact .touched hl hs hpc
    · exact .kept (by simp [stampOf, hl, hpc, Ne.symm hc])
  | @status c' fd pkt j s₀ hl hs hpc hcmd hph' =>
    rcases record_modify (refresh_setStatus pkt.payloadPtr) hinv hph hph' hr hr' with
      ⟨rfl, rfl⟩ | ⟨-, rfl⟩
    · exact .status hl hs hpc hcmd
    · exact .kept (by simp [stampOf, hl])
  | @swept now j hl hs hpc hj =>
    -- the sweep goes by slots, not by connections
    have hkept : w.table.Active i r' → Becomes w l c i r r' := by
      intro hr'
      obtain rfl := hr'.unique hr
      exact .kept (by simp [stampOf, hl])
    by_cases hi : i = j
    · subst hi
      rcases hidle : idle now r with - | -
      · exact hkept (by simpa [sweepSlot, hr.1, hidle] using hr')
      · have hr' : (w.table.modifySlot i markInactive).Active i r' := by
          simpa [sweepSlot, hr.1, hidle] using hr'
        rw [active_modify_self refresh_markInactive hr hr']
        exact .marked hl hs hpc hidle
    · rcases sweepSlot_eq now w.table j with heq | heq
      · exact hkept (heq ▸ hr')
      · exact hkept (active_modify_of_ne refresh_markInactive hi (heq ▸ hr'))
  | removed hl hs hpc hph' hfind =>
    obtain rfl := (active_clRemove.mp hr').1.unique hr
    exact .kept (by simp [stampOf, hl])

/-- **The record of a connection after a step**: it is new, or one of the four
things has been done to it. -/
theorem Move.record (h : Move w l w') (hinv : Inv w) (hinv' : Inv w') (hw : Provenance w)
    (hnames : OwnNames w) (hph : phase w'.log c = .registered i r₀)
    (hr' : w'.table.Active i r') :
    Registers w l w' c r' ∨
      phase w.log c = .registered i r₀ ∧ ∃ r, w.table.Active i r ∧ Becomes w l c i r r' := by
  rcases h.update hinv hw hnames with ⟨c', s, hreg⟩ | ⟨hu, hold⟩
  · rcases hreg.cases hinv hph hr' with ⟨rfl, rfl⟩ | ⟨hne, hph, hr⟩
    · exact .inl hreg
    · refine .inr ⟨hph, r', hr, .kept fun now => ?_⟩
      rw [hreg.stamp]
      rintro ⟨⟩
      exact hne rfl
  · have hph := h.registered_before hinv hinv' hold hph
    obtain ⟨-, r, hr, -⟩ := hinv.core.live c i r₀ hph
    exact .inr ⟨hph, r, hr, hu.becomes hinv hph hr hr'⟩

end Record

/-! ### The times the records show -/

section Latest

variable {tr : List (World × Label)} {c : ℕ} {now : ℤ}

theorem latest_of_own (h : stampOf w l = some (c, now)) :
    latest ((w, l) :: tr) c = some now := by
  simp [latest, h]

theorem latest_of_ne (h : ∀ now, stampOf w l ≠ some (c, now)) :
    latest ((w, l) :: tr) c = latest tr c := by
  rcases hstamp : stampOf w l with - | ⟨c', now⟩
  · simp [latest, hstamp]
  · have hne : c' ≠ c := by
      rintro rfl
      exact h now hstamp
    simp [latest, hstamp, hne]

end Latest

@[simp] theorem ultimoMensaje_touchCliente (now : ℤ) (r : Cliente) :
    (touchCliente now r).ultimoMensaje = now := by
  unfold touchCliente
  split <;> rfl

/-- Each record shows the time recorded last for its connection. -/
def Stamped (tr : List (World × Label)) (w : World) : Prop :=
  ∀ c i r₀ r, phase w.log c = .registered i r₀ → w.table.Active i r →
    latest tr c = some r.ultimoMensaje

theorem Stamped.step {tr : List (World × Label)} (h : Stamped tr w) (hinv : Inv w)
    (hw : Provenance w) (hnames : OwnNames w) (hs : step w l = some w') :
    Stamped ((w, l) :: tr) w' := by
  intro c i r₀ r' hph hr'
  rcases (move_of_step hs).record hinv (hinv.step hs) hw hnames hph hr' with
    hreg | ⟨hph, r, hr, hbecomes⟩
  · exact latest_of_own hreg.stamp
  · have hold := h c i r₀ r hph hr
    cases hbecomes with
    | kept hstamp =>
      rw [latest_of_ne hstamp]
      exact hold
    | touched hl hs hpc =>
      rw [ultimoMensaje_touchCliente]
      exact latest_of_own (by rw [hl]; simp [stampOf, hpc])
    | status hl =>
      rw [latest_of_ne (by simp [stampOf, hl])]
      exact hold
    | marked hl =>
      rw [latest_of_ne (by simp [stampOf, hl])]
      exact hold

/-- **A record's `ultimo_mensaje`** is the time of its connection's latest
`cl_add` or `cl_touch`, in every run of well-behaved clients. -/
theorem stamped_of_run {tr : List (World × Label)} (h : Run step World.init tr w)
    (hown : StepsAll SendsOwnName tr) : Stamped tr w := by
  induction h with
  | start =>
    intro c i r₀ r hph
    cases hph
  | step hrun hs ih =>
    obtain ⟨-, hown⟩ := stepsAll_cons.mp hown
    obtain ⟨⟨hinv, hw, hnames⟩, -⟩ := ownNames_of_run hrun hown
    exact (ih hown).step hinv hw hnames hs

end ChatSystem
