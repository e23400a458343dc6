/-
ChatSystem/Inactivity.lean

`inactivity_thread`: a sweep marks the records that were idle for a minute when
it began, and notifies their connections.

`now` is read before the mutex is taken, but the table is then the monitor's
until the sweep ends: an iteration finds its slot as it was at the beginning
(`Swept`), and each connection gets its notice in the call of its slot
(`Sweeping`).  How long a record is idle is read off the trace (`Due`).
-/
import ChatSystem.Rounds
import ChatSystem.Updates

namespace ChatSystem

open CStr Lts

/-! ### One iteration -/

/-- The record says `INACTIVE`. -/
def Cliente.Inactive (r : Cliente) : Prop := r.status.str = statusInactivo

theorem strEq_inactive {r : Cliente} : strEq r.status.bytes statusInactivo = true ↔ r.Inactive := by
  have hcstr : cstr statusInactivo = statusInactivo := by decide
  rw [strEq_iff, hcstr]
  rfl

theorem idle_iff {now : ℤ} {r : Cliente} :
    idle now r = true ↔ r.activo = true ∧ ¬ r.Inactive ∧
      inactivityTimeout ≤ now - r.ultimoMensaje := by
  rw [← strEq_inactive, Bool.not_eq_true]
  simp [idle, and_assoc]

theorem inactive_markInactive (r : Cliente) : (markInactive r).Inactive := by
  show (r.status.strncpy statusInactivo 15 status_limit).str = statusInactivo
  rw [CharArray.str_strncpy_of_lt status_limit (by rw [length_statusInactivo]; decide)]
  decide

/-- `cl_touch` reactivates. -/
theorem status_touchCliente {now : ℤ} {r : Cliente} (h : r.Inactive) :
    (touchCliente now r).status.str = statusActivo := by
  rw [touchCliente, if_pos (strEq_inactive.mpr h)]
  show (r.status.strncpy statusActivo 15 status_limit).str = statusActivo
  rw [CharArray.str_strncpy_of_lt status_limit (by rw [length_statusActivo]; decide)]
  decide

variable {now : ℤ} {t t₀ : Table} {i : ℕ}

theorem Table.at_modifySlot_of_ne {f : Cliente → Cliente} {j : ℕ} (h : j ≠ i) :
    (t.modifySlot i f).at j = t.at j := by
  simp [Table.at, Table.modifySlot, h.symm]

/-- An idle record is marked in its slot. -/
theorem at_sweepSlot_self : (sweepSlot now t i).at i =
    if idle now (t.at i) = true then markInactive (t.at i) else t.at i := by
  rcases hget : t.lista[i]? with - | r
  · -- a slot that does not exist is not idle
    have hat : t.at i = .zero := by simp [Table.at, hget]
    have hidle : idle now Cliente.zero = false := by simp [idle, Cliente.zero]
    simp [sweepSlot, hget, hat, hidle]
  · have hat : t.at i = r := by simp [Table.at, hget]
    rcases hidle : idle now r with - | -
    · simp [sweepSlot, hget, hat, hidle]
    · simp [sweepSlot, hget, hidle, Table.at, Table.modifySlot]

theorem at_sweepSlot_of_ne {j : ℕ} (h : j ≠ i) : (sweepSlot now t i).at j = t.at j := by
  rcases sweepSlot_eq now t i with heq | heq
  · rw [heq]
  · rw [heq, Table.at_modifySlot_of_ne h]

theorem numClientes_sweepSlot : (sweepSlot now t i).numClientes = t.numClientes := by
  rcases sweepSlot_eq now t i with heq | heq
  · rw [heq]
  · rw [heq]
    rfl

/-! ### The iterations so far -/

/-- `t` is what the iterations below `i` make of `t₀`. -/
structure Swept (now : ℤ) (t₀ : Table) (i : ℕ) (t : Table) : Prop where
  num : t.numClientes = t₀.numClientes
  slots : ∀ j, t.at j =
    if j < i ∧ idle now (t₀.at j) = true then markInactive (t₀.at j) else t₀.at j

theorem Swept.start : Swept now t₀ 0 t₀ where
  num := rfl
  slots := fun j => by simp

theorem Swept.next (h : Swept now t₀ i t) : Swept now t₀ (i + 1) (sweepSlot now t i) where
  num := numClientes_sweepSlot.trans h.num
  slots := by
    intro j
    rcases eq_or_ne j i with rfl | hne
    · have hat : t.at j = t₀.at j := by simp [h.slots j]
      simp [at_sweepSlot_self, hat]
    · have hlt : j < i + 1 ↔ j < i := by omega
      rw [at_sweepSlot_of_ne hne, h.slots j]
      simp only [hlt]

/-- What the sweep sends to slot `j`. -/
def notices (now : ℤ) (t₀ : Table) (j : ℕ) : List ChatPacket :=
  if idle now (t₀.at j) then [inactivityNotice (t₀.at j).username.bytes] else []

/-- A sweep of the run `tr` that read `now` and began in `w₀`, after the steps
`before`; it has gone through the slots below `i`, and the events since its
beginning are `mid`. -/
structure Sweeping (tr : List (World × Label)) (w : World) (now : ℤ) (i : ℕ) (w₀ : World)
    (before : List (World × Label)) (mid : List Event) : Prop where
  trace : ∃ during, tr = during ++ (w₀, ⟨.monitor, .go⟩) :: before
  awake : w₀.pc .monitor = .awake now
  sec : Section w .monitor mid w₀.log (.sweep now)
  table : Swept now w₀.table i w.table
  upto : Upto w .monitor (completed mid) w₀.log (notices now w₀.table) i

variable {w w' w₀ : World} {l : Label} {tr before : List (World × Label)} {mid : List Event}

/-- While the mutex is taken only the monitor writes to the table, and only
between two notices. -/
theorem Move.table_of_held (h : Move w l w') {t : Tid} (hheld : w.mutexLista = some t)
    (hno : l.tid ≠ .monitor ∨ w.sending l.tid ≠ none) : w'.table = w.table := by
  rcases h.table_cases with htable | hfree | ⟨ht, hidle, -⟩
  · exact htable
  · rw [hheld] at hfree
    cases hfree
  · rw [ht] at hno
    rcases hno with hne | hsome
    · exact absurd rfl hne
    · exact absurd hidle hsome

/-- How the monitor comes to iteration `i` between two notices: the sweep has just
begun, or the iteration before is done. -/
theorem Move.into_sweep (h : Move w l w') (ht : l.tid = .monitor)
    (hs : w.sending .monitor = none) (hpc : w'.pc .monitor = .sweep now i) :
    (i = 0 ∧ l = ⟨.monitor, .go⟩ ∧ w.pc .monitor = .awake now ∧ w'.table = w.table ∧
      w'.sending .monitor = none ∧ Section w' .monitor [] w.log (.sweep now)) ∨
    ∃ j, i = j + 1 ∧ w.pc .monitor = .sweep now j ∧ w'.table = sweepSlot now w.table j ∧
      w'.log = w.log ∧
      (idle now (w.table.at j) = false ∧ w'.sending .monitor = none ∨
        idle now (w.table.at j) = true ∧ w'.sending .monitor = some ⟨(w.table.at j).sockfd,
          inactivityNotice (w.table.at j).username.bytes, 0, .inactivity j⟩) := by
  cases h with
  -- the section begins
  | @sweepStart now' _ hpc₀ =>
    obtain ⟨rfl, rfl⟩ : now' = now ∧ 0 = i := by
      simpa [World.goto, World.lock] using hpc
    refine .inl ⟨rfl, rfl, hpc₀, rfl, hs, rfl, rfl, by simp, ?_⟩
    rw [hpc]
    rfl
  -- one slot further
  | @sweepMark now' j _ hpc₀ hj hidle =>
    obtain ⟨rfl, rfl⟩ : now' = now ∧ j + 1 = i := by
      simpa [World.call, World.goto, World.setTable] using hpc
    exact .inr ⟨j, rfl, hpc₀, rfl, rfl, .inr ⟨hidle, by simp [World.call]⟩⟩
  | @sweepSkip now' j _ hpc₀ hj hidle =>
    obtain ⟨rfl, rfl⟩ : now' = now ∧ j + 1 = i := by
      simpa [World.goto, World.setTable] using hpc
    exact .inr ⟨j, rfl, hpc₀, rfl, rfl, .inl ⟨hidle, hs⟩⟩
  | wake | sweepEnd => simp [World.goto, World.unlock] at hpc
  | @wrote t s c n hsome | @sendFail t s hsome =>
    obtain rfl : t = .monitor := ht
    rw [hs] at hsome
    cases hsome
  | _ => cases ht

namespace Sweeping

/-- A step of another thread, or a `send()`. -/
theorem keep (h : Sweeping tr w now i w₀ before mid) (hinv : Inv w) (hm : Move w l w')
    (hno : l.tid ≠ .monitor ∨ w.sending l.tid ≠ none) :
    ∃ mid, Sweeping ((w, l) :: tr) w' now i w₀ before mid := by
  have htable : Swept now w₀.table i w'.table := by
    rw [hm.table_of_held h.sec.holder hno]
    exact h.table
  have htrace : ∃ during, (w, l) :: tr = during ++ (w₀, ⟨.monitor, .go⟩) :: before := by
    obtain ⟨during, rfl⟩ := h.trace
    exact ⟨(w, l) :: during, rfl⟩
  rcases eq_or_ne l.tid .monitor with ht | hne
  · obtain ⟨s, hs⟩ := Option.ne_none_iff_exists'.mp (hno.resolve_left (absurd ht))
    obtain ⟨e, hsec, hlog⟩ := h.sec.sends hinv hm hs
    exact ⟨_, htrace, h.awake, hsec, htable,
      h.upto.transmit h.sec hinv hm ht (by rw [← ht]; exact hs) hlog⟩
  · have hupto := h.upto.other (hm.local_of_ne hne.symm).1
    rcases h.sec.step hinv hm with ⟨ht, -⟩ | ⟨hsec, -⟩ | ⟨e, hsec, hlog⟩
    · exact absurd ht hne
    · exact ⟨_, htrace, h.awake, hsec, htable, hupto⟩
    · refine ⟨_, htrace, h.awake, hsec, htable, hupto.foreign ?_⟩
      rintro s peer written k rfl
      exact hne (hm.send_of_log hlog).1.symm

/-- An iteration. -/
theorem next (h : Sweeping tr w now i w₀ before mid) (hinv : Inv w) (hm : Move w l w')
    (hinv' : Inv w') (hs : w.sending .monitor = none)
    (hpc : w'.pc .monitor = .sweep now (i + 1)) (htable : w'.table = sweepSlot now w.table i)
    (hlog : w'.log = w.log)
    (hcall : idle now (w.table.at i) = false ∧ w'.sending .monitor = none ∨
      idle now (w.table.at i) = true ∧ w'.sending .monitor = some ⟨(w.table.at i).sockfd,
        inactivityNotice (w.table.at i).username.bytes, 0, .inactivity i⟩) :
    Sweeping ((w, l) :: tr) w' now (i + 1) w₀ before mid where
  trace := by
    obtain ⟨during, rfl⟩ := h.trace
    exact ⟨(w, l) :: during, rfl⟩
  awake := h.awake
  sec := by
    have hheld : w'.mutexLista = some .monitor :=
      (hinv'.threads .monitor).lock.mpr (by rw [hpc]; rfl)
    rcases h.sec.step hinv hm with ⟨-, hfree⟩ | ⟨hsec, -⟩ | ⟨e, -, hlog'⟩
    · rw [hheld] at hfree
      cases hfree
    · exact hsec
    · rw [hlog] at hlog'
      exact absurd hlog'.symm (List.cons_ne_self _ _)
  table := by
    rw [htable]
    exact h.table.next
  upto := by
    -- no iteration has written to this slot yet
    have hat : w.table.at i = w₀.table.at i := by simp [h.table.slots i]
    have hposted := h.upto.posted hs
    rw [hat] at hcall
    rcases hcall with ⟨hidle, hnone⟩ | ⟨hidle, hsome⟩
    · refine .inl ⟨hnone, hposted.skip fun c r hlive => ⟨by simp [notices, hidle], ?_⟩⟩
      intro j r' hlive'
      exact (hinv.represents.once c j i r' r (h.sec.live_iff.mpr hlive')
        (h.sec.live_iff.mpr hlive)).1
    · exact .inr ⟨_, i, hsome, rfl, by simp [notices, hidle], rfl, hposted⟩

end Sweeping

/-- While the monitor sweeps, it has done what the slots below its index call
for. -/
theorem sweeping_step (h : ∀ now i, w.pc .monitor = .sweep now i →
      ∃ w₀ before mid, Sweeping tr w now i w₀ before mid)
    (hinv : Inv w) (hs : step w l = some w') (hpc : w'.pc .monitor = .sweep now i) :
    ∃ w₀ before mid, Sweeping ((w, l) :: tr) w' now i w₀ before mid := by
  have hm := move_of_step hs
  by_cases hno : l.tid ≠ .monitor ∨ w.sending l.tid ≠ none
  · -- another thread, or a `send()` of the monitor: the sweep stays where it is
    have hsame : w'.pc .monitor = w.pc .monitor := by
      rcases eq_or_ne l.tid .monitor with ht | hne
      · obtain ⟨s, hs⟩ := Option.ne_none_iff_exists'.mp (hno.resolve_left (absurd ht))
        rw [hm.pc_of_sending hs]
      · rcases (hm.local_of_ne hne.symm).2 with hsame | ⟨c, fd, hc, -⟩
        · exact hsame
        · cases hc
    obtain ⟨w₀, before, mid, hsweep⟩ := h now i (hsame ▸ hpc)
    obtain ⟨mid, hsweep⟩ := hsweep.keep hinv hm hno
    exact ⟨w₀, before, mid, hsweep⟩
  · obtain ⟨ht, hidle⟩ : l.tid = .monitor ∧ w.sending l.tid = none := by
      simpa only [not_or, not_not] using hno
    rw [ht] at hidle
    rcases hm.into_sweep ht hidle hpc with
      ⟨rfl, rfl, hawake, htable, hnone, hsec⟩ | ⟨j, rfl, hpc₀, htable, hlog, hcall⟩
    · refine ⟨w, tr, [], ⟨[], rfl⟩, hawake, hsec, ?_, .inl ⟨hnone, .start⟩⟩
      rw [htable]
      exact .start
    · obtain ⟨w₀, before, mid, hsweep⟩ := h now j hpc₀
      exact ⟨w₀, before, mid, hsweep.next hinv hm (hinv.step hs) hidle hpc htable hlog hcall⟩

theorem sweeping_of_run (h : Run step World.init tr w) :
    ∀ now i, w.pc .monitor = .sweep now i →
      ∃ w₀ before mid, Sweeping tr w now i w₀ before mid := by
  induction h with
  | start =>
    intro now i hpc
    cases hpc
  | step hrun hs ih =>
    intro now i hpc
    exact sweeping_step ih (inv_of_reachable ⟨_, hrun⟩) hs hpc

/-! ### A whole sweep -/

/-- Connection `c`, in slot `i`, is to be marked by a sweep that read `now` and
began in `w₀`, after the steps `before`. -/
def Due (before : List (World × Label)) (w₀ : World) (now : ℤ) (c i : ℕ) : Prop :=
  (∃ r₀, Live w₀.log c i r₀) ∧ ¬ (w₀.table.at i).Inactive ∧
    ∃ time, latest before c = some time ∧ inactivityTimeout ≤ now - time

/-- What a sweep has done at its end, in state `w`, after the steps `tr`: `mid`
is what happened in it. -/
structure SweepExact (before : List (World × Label)) (w₀ : World) (now : ℤ)
    (mid : List Event) (tr : List (World × Label)) (w : World) : Prop where
  changed : ∀ i, (¬ (w₀.table.at i).Inactive ∧ (w.table.at i).Inactive) ↔
    ∃ c, Due before w₀ now c i
  marked : ∀ c i, Due before w₀ now c i → w.table.at i = markInactive (w₀.table.at i)
  kept : ∀ i, (∀ c, ¬ Due before w₀ now c i) → w.table.at i = w₀.table.at i
  notified : ∀ c i, Due before w₀ now c i →
    copies .monitor c (completed mid) = [inactivityNotice (w₀.table.at i).username.bytes]
  only : ∀ c, (∀ i, ¬ Due before w₀ now c i) → copies .monitor c (completed mid) = []
  settled : ∀ c i r₀ r time, Live w.log c i r₀ → w.table.Active i r →
    latest tr c = some time → inactivityTimeout ≤ now - time → r.Inactive

theorem Table.active_at (h : (t.at i).activo = true) : t.Active i (t.at i) := by
  rcases hget : t.lista[i]? with - | r
  · simp [Table.at, hget, Cliente.zero] at h
  · exact ⟨by simp [Table.at, hget], h⟩

/-- A record is found idle when its connection is due. -/
theorem idle_iff_due (hinv : Inv w₀) (hst : Stamped before w₀) :
    idle now (w₀.table.at i) = true ↔ ∃ c, Due before w₀ now c i := by
  rw [idle_iff]
  constructor
  · rintro ⟨hact, hstatus, htime⟩
    have hr := Table.active_at hact
    obtain ⟨c, r₀, hlive, -⟩ := hinv.represents.live i _ hr
    have hph := (phase_registered_iff hinv.core.disciplined).mpr hlive
    exact ⟨c, ⟨r₀, hlive⟩, hstatus, _, hst c i r₀ _ hph hr, htime⟩
  · rintro ⟨c, ⟨r₀, hlive⟩, hstatus, time, hlatest, htime⟩
    obtain ⟨r, hr, -⟩ := hinv.represents.active c i r₀ hlive
    have hph := (phase_registered_iff hinv.core.disciplined).mpr hlive
    obtain rfl := Option.some.inj (hlatest.symm.trans (hst c i r₀ r hph hr))
    rw [hr.at_eq] at hstatus ⊢
    exact ⟨hr.2, hstatus, htime⟩

theorem Sweeping.exact (h : Sweeping tr w now i w₀ before mid) (hinv₀ : Inv w₀)
    (hst₀ : Stamped before w₀) (hinv : Inv w) (hst : Stamped tr w)
    (hs : w.sending .monitor = none) (hi : w.table.numClientes ≤ i) :
    SweepExact before w₀ now mid tr w := by
  have hposted := h.upto.posted hs
  have hbelow {j : ℕ} {r : Cliente} (hr : w₀.table.Active j r) : j < i := by
    have habove := hinv₀.core.ok.above hr
    have hnum := h.table.num
    omega
  have hslot (j : ℕ) : w.table.at j =
      if idle now (w₀.table.at j) = true then markInactive (w₀.table.at j)
      else w₀.table.at j := by
    rw [h.table.slots j]
    rcases hidle : idle now (w₀.table.at j) with - | -
    · simp
    · have hlt := hbelow (Table.active_at (activo_of_idle hidle))
      simp [hlt]
  have hdue {j : ℕ} : idle now (w₀.table.at j) = true ↔ ∃ c, Due before w₀ now c j :=
    idle_iff_due hinv₀ hst₀
  have hmark {c j : ℕ} (hd : Due before w₀ now c j) : idle now (w₀.table.at j) = true :=
    hdue.mpr ⟨c, hd⟩
  refine ⟨?_, ?_, ?_, ?_, ?_, ?_⟩
  · intro j
    rw [← hdue, hslot j]
    constructor
    · rintro ⟨hnot, hin⟩
      by_contra hidle
      rw [if_neg hidle] at hin
      exact hnot hin
    · intro hidle
      rw [if_pos hidle]
      exact ⟨(idle_iff.mp hidle).2.1, inactive_markInactive _⟩
  · intro c j hd
    rw [hslot j, if_pos (hmark hd)]
  · intro j hnone
    rw [hslot j, if_neg fun hidle => (hdue.mp hidle).elim hnone]
  · intro c j hd
    obtain ⟨r₀, hlive⟩ := hd.1
    obtain ⟨r, hr, -⟩ := hinv₀.represents.active c j r₀ hlive
    rw [hposted.reached c j r₀ hlive (hbelow hr), notices, if_pos (hmark hd)]
  · intro c hnone
    by_cases hlive : ∃ j r₀, Live w₀.log c j r₀
    · obtain ⟨j, r₀, hlive⟩ := hlive
      obtain ⟨r, hr, -⟩ := hinv₀.represents.active c j r₀ hlive
      rw [hposted.reached c j r₀ hlive (hbelow hr), notices, if_neg]
      intro hidle
      -- the connection due in its slot would be this one
      obtain ⟨c', hd⟩ := hdue.mp hidle
      obtain ⟨s₀, hlive'⟩ := hd.1
      obtain rfl := hinv₀.represents.slots c' c j s₀ r₀ hlive' hlive
      exact hnone j hd
    · exact hposted.others c fun j r₀ hl => absurd ⟨j, r₀, hl⟩ hlive
  · intro c j r₀ r time hlive hr hlatest htime
    have hph := (phase_registered_iff hinv.core.disciplined).mpr hlive
    obtain rfl := Option.some.inj (hlatest.symm.trans (hst c j r₀ r hph hr))
    have hat := hslot j
    rw [hr.at_eq] at hat
    by_contra hnot
    by_cases hidle : idle now (w₀.table.at j) = true
    · rw [if_pos hidle] at hat
      rw [hat] at hnot
      exact hnot (inactive_markInactive _)
    · rw [if_neg hidle] at hat
      rw [hat] at hr hnot htime
      exact hidle (idle_iff.mpr ⟨hr.2, hnot, htime⟩)

/-! ### From one sweep to the next -/

/-- The step is the `cl_touch` of connection `c`, for one of the commands that
show activity. -/
def Touches (c : ℕ) (w : World) (l : Label) : Prop :=
  ∃ fd pkt now, l = ⟨.client c, .clock now⟩ ∧ w.sending (.client c) = none ∧
    w.pc (.client c) = .touch fd pkt ∧
    (pkt.command = cmdBroadcast ∨ pkt.command = cmdDirect ∨ pkt.command = cmdStatus)

/-- The step is the `cl_set_status` of a `STATUS` of connection `c`. -/
def SetsStatus (c : ℕ) (w : World) (l : Label) : Prop :=
  ∃ fd pkt, l = ⟨.client c, .go⟩ ∧ w.sending (.client c) = none ∧
    w.pc (.client c) = .handle fd pkt ∧ pkt.command = cmdStatus

/-- `cl_touch` is only called for these commands. -/
def TouchCommands (w : World) : Prop :=
  ∀ c fd pkt, w.pc (.client c) = .touch fd pkt →
    pkt.command = cmdBroadcast ∨ pkt.command = cmdDirect ∨ pkt.command = cmdStatus

theorem touchCommands_step (h : TouchCommands w) (hm : Move w l w') : TouchCommands w' := by
  intro c fd pkt hpc
  by_cases ht : Tid.client c = l.tid
  · cases hm with
    -- the only way to `cl_touch` is a packet that asks for it
    | @recvActivity c' fd' pkt' hs hrecv hcmd =>
      obtain rfl : c = c' := Tid.client.inj ht
      obtain ⟨rfl, rfl⟩ : fd' = fd ∧ pkt' = pkt := by
        simpa [World.emit, World.goto] using hpc
      exact hcmd
    | wrote | sendFail | recvIgnored => exact h c fd pkt hpc
    | @fanoutSend c' p i msg site next done hs hp hf
    | @fanoutSkip c' p i msg site next done hs hp hf
    | @fanoutEnd c' p i msg site next done hs hp hf =>
      obtain rfl : c = c' := Tid.client.inj ht
      cases hf <;> simp [World.call, World.goto, World.unlock] at hpc
    | close =>
      obtain rfl := Tid.client.inj ht
      simp only [World.goto, World.closeFd, Function.update_self] at hpc
      split at hpc <;> cases hpc
    | recvQuery | recvLogout | recvFail | touch | reactivate | broadcast | direct | directMissing
    | status | list | info | directUnlock | resolve | resolved | remove | notify =>
      obtain rfl := Tid.client.inj ht
      simp [World.emit, World.call, World.goto, World.lock, World.unlock, World.setTable] at hpc
    | _ => cases ht
  · rcases (hm.local_of_ne ht).2 with hsame | ⟨c', fd', hc, -, hrecv⟩
    · exact h c fd pkt (hsame ▸ hpc)
    · rw [hrecv] at hpc
      cases hpc

/-- What one step makes of an `INACTIVE` record. -/
theorem inactive_step (hinv : Inv w) (hw : Provenance w) (hnames : OwnNames w)
    (htouch : TouchCommands w) {c : ℕ} {r₀ r : Cliente}
    (hph : phase w.log c = .registered i r₀) (hr : w.table.Active i r) (hin : r.Inactive)
    (hs : step w l = some w') (hph' : phase w'.log c = .registered i r₀) :
    ∃ r', w'.table.Active i r' ∧
      (Touches c w l ∧ r'.status.str = statusActivo ∨ SetsStatus c w l ∨ r'.Inactive) := by
  have hm := move_of_step hs
  obtain ⟨-, r', hr', -⟩ := (hinv.step hs).core.live c i r₀ hph'
  refine ⟨r', hr', ?_⟩
  rcases hm.record hinv (hinv.step hs) hw hnames hph' hr' with hreg | ⟨-, s, hs', hbecomes⟩
  · obtain ⟨ip, hconn⟩ := hreg.conn
    rw [hph] at hconn
    cases hconn
  · obtain rfl := hs'.unique hr
    cases hbecomes with
    | kept => exact .inr (.inr hin)
    | @touched fd pkt now hl hidle hpc =>
      exact .inl ⟨⟨fd, pkt, now, hl, hidle, hpc, htouch c fd pkt hpc⟩, status_touchCliente hin⟩
    | @status fd pkt hl hidle hpc hcmd => exact .inr (.inl ⟨fd, pkt, hl, hidle, hpc, hcmd⟩)
    | marked => exact .inr (.inr (inactive_markInactive s))

/-- What `cl_touch` makes of it. -/
theorem reactivated_of_touches (hinv : Inv w) {c : ℕ} {r₀ r : Cliente}
    (hph : phase w.log c = .registered i r₀) (hr : w.table.Active i r) (hin : r.Inactive)
    (ht : Touches c w l) (hs : step w l = some w') :
    ∃ r', w'.table.Active i r' ∧ r'.status.str = statusActivo := by
  obtain ⟨fd, pkt, now, rfl, hidle, hpc, -⟩ := ht
  obtain ⟨j, s, hph', rfl⟩ : (Pc.touch fd pkt).Expects (phase w.log c) := hinv.expects hpc rfl
  obtain ⟨rfl, rfl⟩ := Phase.registered.inj (hph.symm.trans hph')
  have htable : w'.table = (clTouch w.table r₀.sockfd now).2 := by
    cases move_of_step hs with
    | touch _ hpc' | reactivate _ hpc' =>
      rw [hpc] at hpc'
      cases hpc'
      rfl
  refine ⟨touchCliente now r, ?_, status_touchCliente hin⟩
  rw [htable, clTouch_own hinv now hph hr]
  exact (active_modify (refresh_touchCliente now)).mpr ⟨r, hr, by simp⟩

theorem touchCommands_of_run (h : Run step World.init tr w) : TouchCommands w :=
  h.invariant (fun _ _ _ hpc => by cases hpc)
    fun _ _ _ ht hs => touchCommands_step ht (move_of_step hs)

/-- An `INACTIVE` record stays so as long as its connection's thread does nothing
about it. -/
theorem inactive_run (hinv : Inv w) (hw : Provenance w) (hnames : OwnNames w)
    (htouch : TouchCommands w) {c : ℕ} {r₀ r : Cliente} (hlive : Live w.log c i r₀)
    (hr : w.table.Active i r) (hin : r.Inactive) {tr' : List (World × Label)}
    (h : Run step w tr' w') (hown : StepsAll SendsOwnName tr')
    (hno : StepsAll (fun w l => ¬ Touches c w l ∧ ¬ SetsStatus c w l) tr')
    (hrem : Event.removed c ∉ w'.log) : ∃ r', w'.table.Active i r' ∧ r'.Inactive := by
  have hall := h.invariant_of_steps
    (I := fun w' => (Inv w' ∧ Provenance w' ∧ OwnNames w' ∧ TouchCommands w') ∧
      Event.registered c i r₀ ∈ w'.log ∧
      (Event.removed c ∉ w'.log → ∃ r', w'.table.Active i r' ∧ r'.Inactive))
    ⟨⟨hinv, hw, hnames, htouch⟩, hlive.1, fun _ => ⟨r, hr, hin⟩⟩ ?_ (hown.and hno)
  · exact hall.2.2 hrem
  · rintro w l w' ⟨⟨hinv, hw, hnames, htouch⟩, hreg, hkept⟩ ⟨hsends, hno⟩ hs
    have hm := move_of_step hs
    refine ⟨⟨hinv.step hs, hw.move hinv hm, hnames.step hinv hw hsends hs,
      touchCommands_step htouch hm⟩, hm.mem_log hreg, fun hrem => ?_⟩
    -- what is not removed at the end was not removed before
    have hrem₀ : Event.removed c ∉ w.log := fun hmem => hrem (hm.mem_log hmem)
    obtain ⟨r, hr, hin⟩ := hkept hrem₀
    have hph := (phase_registered_iff hinv.core.disciplined).mpr ⟨hreg, hrem₀⟩
    have hph' := (phase_registered_iff (hinv.step hs).core.disciplined).mpr
      ⟨hm.mem_log hreg, hrem⟩
    obtain ⟨r', hr', htouches | hsets | hin'⟩ :=
      inactive_step hinv hw hnames htouch hph hr hin hs hph'
    · exact absurd htouches.1 hno.1
    · exact absurd hsets hno.2
    · exact ⟨r', hr', hin'⟩

/-- **Inactivity marking is exact.**  In runs of well-behaved clients, a sweep
that ends has marked exactly the connections whose latest `cl_add` or `cl_touch`
before it lay a minute back, and sent each of them one notice; and a record
stays `INACTIVE` until its own connection's thread touches it or sets its
status. -/
theorem inactivity_exact (h : Run step World.init tr w) (hown : StepsAll SendsOwnName tr) :
    (∀ now i w', w.pc .monitor = .sweep now i → step w ⟨.monitor, .go⟩ = some w' →
      w'.pc .monitor = .sleep →
      ∃ during w₀ before mid k, tr = during ++ (w₀, ⟨.monitor, .go⟩) :: before ∧
        w₀.pc .monitor = .awake now ∧
        w'.log = .unlocked .monitor k :: mid ++ .locked .monitor k (.sweep now) :: w₀.log ∧
        (∀ e ∈ mid, e.Inside .monitor) ∧
        SweepExact before w₀ now mid ((w, ⟨.monitor, .go⟩) :: tr) w') ∧
    ∀ c i r₀ r, Live w.log c i r₀ → w.table.Active i r → r.Inactive →
      (∀ l w', Touches c w l → step w l = some w' →
        ∃ r', w'.table.Active i r' ∧ r'.status.str = statusActivo) ∧
      ∀ tr' w', Run step w tr' w' → StepsAll SendsOwnName tr' →
        StepsAll (fun w l => ¬ Touches c w l ∧ ¬ SetsStatus c w l) tr' →
        Event.removed c ∉ w'.log → ∃ r', w'.table.Active i r' ∧ r'.Inactive := by
  obtain ⟨⟨hinv, hw, hnames⟩, hpast⟩ := ownNames_of_run h hown
  constructor
  · intro now i w' hpc hs hsleep
    obtain ⟨w₀, before, mid, hsweep⟩ := sweeping_of_run h now i hpc
    obtain ⟨during, rfl⟩ := hsweep.trace
    have hbefore := h.before
    have hown₀ : StepsAll SendsOwnName before := fun x hx =>
      hown x (List.mem_append_right _ (List.mem_cons_of_mem _ hx))
    obtain ⟨⟨hinv₀, -⟩, -⟩ := ownNames_of_run hbefore hown₀
    cases move_of_step hs with
    | @sweepEnd now' j hidle hpc' hj =>
      obtain ⟨rfl, rfl⟩ := Pc.sweep.inj (hpc'.symm.trans hpc)
      have hexact := hsweep.exact hinv₀ (stamped_of_run hbefore hown₀) hinv
        (stamped_of_run h hown) hidle hj
      refine ⟨during, w₀, before, mid, w.sections, rfl, hsweep.awake, ?_, hsweep.sec.inside, ?_⟩
      · show Event.unlocked .monitor w.sections :: w.log = _
        rw [hsweep.sec.log]
        rfl
      · refine ⟨hexact.changed, hexact.marked, hexact.kept, hexact.notified, hexact.only, ?_⟩
        intro c i r₀ r time hlive hr hlatest
        refine hexact.settled c i r₀ r time ⟨?_, ?_⟩ hr hlatest
        · exact (List.mem_cons.mp hlive.1).resolve_left (by simp)
        · exact fun hmem => hlive.2 (List.mem_cons_of_mem _ hmem)
    | sweepMark _ hpc' | sweepSkip _ hpc' =>
      simp [World.call, World.goto, World.setTable] at hsleep
    | sweepStart _ hpc' =>
      rw [hpc] at hpc'
      cases hpc'
  · intro c i r₀ r hlive hr hin
    have hph := (phase_registered_iff hinv.core.disciplined).mpr hlive
    exact ⟨fun l w' ht hs => reactivated_of_touches hinv hph hr hin ht hs,
      fun tr' w' hrun hown' hno hrem => inactive_run hinv hw hnames (touchCommands_of_run h)
        hlive hr hin hrun hown' hno hrem⟩

/-- Alice and bob join at 0, bob sets his status at 50, and the monitor sweeps
at 100. -/
def sweeping : List Label :=
  joining 4 (ip 1) (registerPacket alice) ++ joining 5 (ip 2) (registerPacket bob) ++
    [⟨.client 1, .packet (clientPacket cmdStatus bob [] statusOcupado)⟩,
      ⟨.client 1, .clock 50⟩, ⟨.client 1, .go⟩, sends 1,
      ⟨.monitor, .clock 100⟩, ⟨.monitor, .go⟩, ⟨.monitor, .go⟩, ⟨.monitor, .wrote 1024⟩,
      ⟨.monitor, .go⟩]

theorem exec_sweeping : (execIf sendsOwnName step World.init sweeping).any (fun w =>
    decide (w.pc .monitor = .sweep 100 2) && decide ((w.table.at 0).status.str = statusInactivo) &&
      decide ((w.table.at 1).status.str = statusOcupado)) = true := by
  decide +kernel

/-- Alice has been marked, bob has not. -/
theorem inactivity_alice : ∃ tr w, Run step World.init tr w ∧ StepsAll SendsOwnName tr ∧
    w.pc .monitor = .sweep 100 2 ∧ (w.table.at 0).status.str = statusInactivo ∧
    (w.table.at 1).status.str = statusOcupado ∧
    (∀ now i w', w.pc .monitor = .sweep now i → step w ⟨.monitor, .go⟩ = some w' →
      w'.pc .monitor = .sleep →
      ∃ during w₀ before mid k, tr = during ++ (w₀, ⟨.monitor, .go⟩) :: before ∧
        w₀.pc .monitor = .awake now ∧
        w'.log = .unlocked .monitor k :: mid ++ .locked .monitor k (.sweep now) :: w₀.log ∧
        (∀ e ∈ mid, e.Inside .monitor) ∧
        SweepExact before w₀ now mid ((w, ⟨.monitor, .go⟩) :: tr) w') ∧
    ∀ c i r₀ r, Live w.log c i r₀ → w.table.Active i r → r.Inactive →
      (∀ l w', Touches c w l → step w l = some w' →
        ∃ r', w'.table.Active i r' ∧ r'.status.str = statusActivo) ∧
      ∀ tr' w', Run step w tr' w' → StepsAll SendsOwnName tr' →
        StepsAll (fun w l => ¬ Touches c w l ∧ ¬ SetsStatus c w l) tr' →
        Event.removed c ∉ w'.log → ∃ r', w'.table.Active i r' ∧ r'.Inactive := by
  obtain ⟨tr, w, hrun, -, hC, hp⟩ := exists_run_of_execIf exec_sweeping
  have hown : StepsAll SendsOwnName tr := fun x hx => sendsOwnName_sound (hC x hx)
  simp only [Bool.and_eq_true, decide_eq_true_eq] at hp
  exact ⟨tr, w, hrun, hown, hp.1.1, hp.1.2, hp.2, inactivity_exact hrun hown⟩

end ChatSystem
