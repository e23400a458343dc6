/-
ChatSystem/StatusView.lean

Whether the status a web client shows is the one in the server's record.

`cl_touch`, `cl_set_status` and `cl_build_list` do their work under the mutex,
and what they have to tell is sent after it is released; the monitor sends its
notice inside its section.  So a report that is waiting to be sent can be
overtaken by the notice of a later change (`not_always_agrees`).  In runs
without this (`InOrder`) every view is right (`statusView_agrees`).
-/
import ChatSystem.Unsent

namespace ChatSystem

open CStr Lts Utf8

variable {w w' : World} {l : Label} {c : ℕ} {me : List Char}

/-! ### The order of the reports -/

/-- No report is lost unless it tells what the view shows already, none is
overtaken by a notice of the monitor, no user's message tells its receiver a
wrong status, and a list has no other user under its reader's name. -/
structure InOrder (w : World) (l : Label) : Prop where
  reliable : ∀ s c i r₀ v, w.sending l.tid = some s → l.answer = .fail →
    w.descr s.fd = some c → Live w.log c i r₀ →
    reported (decode r₀.username.str) s.pkt = some v →
      v = statusView (decode r₀.username.str) (delivered w.log c)
  overtaken : ∀ s c i r₀, l.tid = .monitor → w.sending l.tid = some s →
    w.descr s.fd = some c → Live w.log c i r₀ → s.Ends l.answer →
      ∀ t v, t ≠ .monitor → ¬ Unsent w t c (decode r₀.username.str) v
  relays : ∀ site pkt c i r₀ r v, Relays w l site pkt → site.slot? = some i →
    Live w.log c i r₀ → w.table.Active i r →
    reported (decode r₀.username.str) pkt = some v → v = decode r.status.str
  lists : ∀ c fd pkt i r₀ r, l = ⟨.client c, .go⟩ → w.pc (.client c) = .handle fd pkt →
    pkt.command = cmdList → Live w.log c i r₀ → w.table.Active i r →
    ∀ j s, j < i → w.table.Active j s → decode s.username.str = decode r.username.str →
      s.status.str = r.status.str

/-- Who has a call in progress while the mutex is free is in charge of the
connection it goes to. -/
theorem Inv.in_charge (h : Inv w) (hfree : w.mutexLista = none) {t : Tid} {s : Sending}
    (hs : w.sending t = some s) (hc : w.descr s.fd = some c) : (w.pc t).conn? t = some c := by
  have hok := (h.threads t).sends s hs
  unfold SendOk at hok
  rcases hslot : s.site.slot? with - | i
  · rw [hslot] at hok
    obtain ⟨c', hc', -⟩ := Inv.conn_of_fd? (h.threads t).runBy hok
    obtain rfl := Option.some.inj (hc.symm.trans (h.own_descr rfl hc' hok).1)
    exact hc'
  · rw [hslot] at hok
    have hheld := (h.threads t).lock.mpr hok.1
    rw [hfree] at hheld
    cases hheld

section Quiet

variable {i : ℕ} {r₀ r r' : Cliente} {v : List Char}

/-- A call that has just been made. -/
theorem Unsent.call {t : Tid} {fd : ℤ} {pkt : ChatPacket} {site : Site} (h : Unsent w' t c me v)
    (hsending : w'.sending t = some ⟨fd, pkt, 0, site⟩) (hdescr : w'.descr = w.descr) :
    w.descr fd = some c ∧ reported me pkt = some v := by
  rw [← hdescr]
  exact (unsent_iff hsending).mp h

/-- It is made by a thread through its own descriptor, to the connection it is
in charge of. -/
theorem unsent_own (hinv : Inv w) {t : Tid} {c' : ℕ} {fd : ℤ} {p : Pc} {pkt : ChatPacket}
    {site : Site} (h : Unsent w' t c me v) (hpc : w.pc t = p) (hc' : p.conn? t = some c')
    (hfd : p.fd? = some fd) (hsending : w'.sending t = some ⟨fd, pkt, 0, site⟩)
    (hdescr : w'.descr = w.descr) : c' = c ∧ reported me pkt = some v := by
  obtain ⟨hc, hv⟩ := h.call hsending hdescr
  exact ⟨Option.some.inj ((hinv.own_descr hpc hc' hfd).1.symm.trans hc), hv⟩

/-- Or through the descriptor of a record, to the connection of that record. -/
theorem slot_of_descr (hinv : Inv w) {j : ℕ} (hact : (w.table.at j).activo = true)
    (hc : w.descr (w.table.at j).sockfd = some c) (hph : phase w.log c = .registered i r₀) :
    j = i := by
  obtain ⟨c', s₀, hph', -, hdescr, -⟩ := hinv.core.owner (Table.active_at hact)
  obtain rfl := Option.some.inj (hdescr.symm.trans hc)
  exact (Phase.registered.inj (hph'.symm.trans hph)).1

/-- What a relay is about to tell. -/
theorem relay_tells (hinv : Inv w) (horder : InOrder w l) {site : Site} {pkt : ChatPacket} {j : ℕ}
    (hrelay : Relays w l site pkt) (hslot : site.slot? = some j)
    (hact : (w.table.at j).activo = true) (hph : phase w.log c = .registered i r₀)
    (hr : w.table.Active i r) (hc : w.descr (w.table.at j).sockfd = some c)
    (hv : reported (decode r₀.username.str) pkt = some v) : v = decode r.status.str := by
  obtain rfl := slot_of_descr hinv hact hc hph
  have hlive := (phase_registered_iff hinv.core.disciplined).mp hph
  exact horder.relays site pkt c j r₀ r v hrelay hslot hlive hr hv

/-- The list its reader is about to be told. -/
theorem list_tells (hinv : Inv w) (htidy : Tidy w) {fd : ℤ} {pkt : ChatPacket}
    (hplain : SendsPlain w ⟨.client c, .go⟩) (horder : InOrder w ⟨.client c, .go⟩)
    (hs : w.sending (.client c) = none) (hpc : w.pc (.client c) = .handle fd pkt)
    (hcmd : pkt.command = cmdList) (hph : phase w.log c = .registered i r₀)
    (hr : w.table.Active i r)
    (hv : reported (decode r₀.username.str) (handleList w.table pkt) = some v) :
    v = decode r.status.str := by
  obtain ⟨-, r₁, hr₁, hid⟩ := hinv.core.live c i r₀ hph
  obtain rfl := hr₁.unique hr
  have hlive := (phase_registered_iff hinv.core.disciplined).mp hph
  rw [← hid.1] at hv
  refine reported_handleList hinv.core.ok (hplain.list c fd pkt rfl hs hpc hcmd) ?_ pkt hr
    (horder.lists c fd pkt i r₀ r₁ rfl hpc hcmd hlive hr) hv
  intro j s hsact
  obtain ⟨c', s₀, hph', hid'⟩ := hinv.core.active j s hsact
  rw [hid'.1]
  exact ⟨htidy.names c' j s₀ (registered_mem_of_phase hph'), htidy.records j s hsact⟩

/-- **What a step is about to tell is right**: the status it tells is the one in
the record after it. -/
theorem Move.tells (hm : Move w l w') (hinv : Inv w) (hinv' : Inv w') (hw : Provenance w)
    (hnames : OwnNames w) (htidy : Tidy w) (hplain : SendsPlain w l) (horder : InOrder w l)
    (hidle : w.sending l.tid = none) (hph' : phase w'.log c = .registered i r₀)
    (hr' : w'.table.Active i r') (h : Unsent w' l.tid c (decode r₀.username.str) v) :
    v = decode r'.status.str := by
  have hrecord := hm.record hinv hinv' hw hnames hph' hr'
  cases hm with
  | @add c' fd ip pkt now hs hpc =>
    obtain ⟨rfl, hv⟩ := unsent_own hinv h hpc rfl rfl rfl rfl
    rcases hrecord with hreg | ⟨hph, -⟩
    · obtain ⟨fd', ip', pkt', now', -, rfl⟩ := hreg.fresh
      rw [reported_welcome, Option.some.injEq] at hv
      rw [status_newCliente, decode_statusActivo, hv]
    · obtain ⟨hconn, -⟩ : (Pc.register c' fd ip pkt).Expects (phase w.log c') :=
        hinv.expects hpc rfl
      rw [hph] at hconn
      cases hconn
  | @refuse c' fd ip pkt now rc hs hpc =>
    obtain ⟨rfl, hv⟩ := unsent_own hinv h hpc rfl rfl rfl rfl
    rcases hrecord with hreg | ⟨hph, -⟩
    · cases hreg.log
    · obtain ⟨hconn, -⟩ : (Pc.register c' fd ip pkt).Expects (phase w.log c') :=
        hinv.expects hpc rfl
      rw [hph] at hconn
      cases hconn
  | recvLogout =>
    obtain ⟨-, hv⟩ := h.call (Function.update_self _ _ _) rfl
    rw [reported_logout] at hv
    cases hv
  | @reactivate c' fd pkt now hs hpc hfree hre =>
    obtain ⟨rfl, hv⟩ := unsent_own hinv h hpc rfl rfl (Function.update_self _ _ _) rfl
    obtain ⟨j, s, hph, rfl⟩ : (Pc.touch fd pkt).Expects (phase w.log c') := hinv.expects hpc rfl
    obtain ⟨rfl, rfl⟩ := Phase.registered.inj (hph.symm.trans hph')
    obtain ⟨-, r, hr, -⟩ := hinv.core.live c' j s hph
    have hr' : (clTouch w.table s.sockfd now).2.Active j r' := hr'
    rw [clTouch_own hinv now hph hr] at hre hr'
    rw [active_modify_self (refresh_touchCliente now) hr hr',
      status_touchCliente (strEq_inactive.mp hre), decode_statusActivo]
    rw [reported_reactivation, Option.some.injEq] at hv
    exact hv.symm
  | @direct c' fd pkt j s hs hpc hfree hcmd hfind hat =>
    subst hat
    obtain ⟨hc, hv⟩ := h.call (Function.update_self _ _ _) rfl
    obtain ⟨-, s, hsact, -⟩ := clFindByName_eq_some hfind
    have hact : (w.table.at j).activo = true := hsact.at_eq ▸ hsact.2
    rcases hrecord with hreg | ⟨hph, -⟩
    · cases (List.cons.inj hreg.log).1
    · exact relay_tells hinv horder (.direct rfl hs hpc hfree hcmd hfind) rfl hact hph hr' hc hv
  | directMissing =>
    obtain ⟨-, hv⟩ := h.call (Function.update_self _ _ _) rfl
    rw [reported_directError] at hv
    cases hv
  | @status c' fd pkt hs hpc hfree hcmd =>
    obtain ⟨rfl, hv⟩ := unsent_own hinv h hpc rfl rfl (Function.update_self _ _ _) rfl
    obtain ⟨j, s, hph, rfl⟩ : (Pc.handle fd pkt).Expects (phase w.log c') := hinv.expects hpc rfl
    obtain ⟨rfl, rfl⟩ := Phase.registered.inj (hph.symm.trans hph')
    obtain ⟨-, r, hr, -⟩ := hinv.core.live c' j s hph
    have hlast := (hw.serving_at hpc).1
    have hstatus := htidy.packets c' pkt hlast hcmd
    have hr' : (handleStatus w.table pkt).1.Active j r' := hr'
    rw [handleStatus_own hinv hnames hph hlast] at hv hr'
    rw [active_modify_self (refresh_setStatus _) hr hr', status_setStatus hstatus]
    rw [reported_status _ hstatus, Option.some.injEq] at hv
    exact hv.symm
  | @list c' fd pkt hs hpc hfree hcmd =>
    obtain ⟨rfl, hv⟩ := unsent_own hinv h hpc rfl rfl (Function.update_self _ _ _) rfl
    exact list_tells hinv htidy hplain horder hs hpc hcmd hph' hr' hv
  | info =>
    obtain ⟨-, hv⟩ := h.call (Function.update_self _ _ _) rfl
    rw [reported_info] at hv
    cases hv
  | @fanoutSend c' p j msg site next done hs hpc hf hi hact =>
    obtain ⟨hc, hv⟩ := h.call (Function.update_self _ _ _) rfl
    cases hf with
    | broadcasting =>
      exact relay_tells hinv horder (.broadcast rfl hs hpc hi hact) rfl hact hph' hr' hc hv
    | notifying username =>
      rw [reported_departure] at hv
      cases hv
  | @sweepMark now j hs hpc hj hmark =>
    obtain ⟨hc, hv⟩ := h.call rfl rfl
    -- the record marked is that of the connection told
    obtain rfl := slot_of_descr hinv (activo_of_idle hmark) hc hph'
    have hat : (sweepSlot now w.table j).at j = r' := hr'.at_eq
    rw [at_sweepSlot_self, if_pos hmark] at hat
    rw [← hat, inactive_markInactive, decode_statusInactivo]
    rw [reported_inactivity, Option.some.injEq] at hv
    exact hv.symm
  | wrote hs | sendFail hs =>
    rw [hs] at hidle
    cases hidle
  | _ =>
    obtain ⟨s, hs', -⟩ := h
    exact absurd (hidle.symm.trans hs') (by simp)

/-- Thread `t` has made a change that it is about to tell connection `c`: it is
the monitor, or it had the mutex and is in charge of `c`. -/
def Tells (w : World) (t : Tid) (w' : World) (c : ℕ) (me : List Char) : Prop :=
  (∃ v, Unsent w' t c me v) ∧ (t = .monitor ∨ w.mutexLista = none ∧ (w.pc t).conn? t = some c)

/-- A registration is told. -/
theorem Registers.tells (h : Registers w l w' c r) (hinv : Inv w) (hm : Move w l w') :
    Tells w l.tid w' c me := by
  obtain ⟨ip, hconn⟩ := h.conn
  have hlog := h.log
  cases hm with
  | @add c' fd ip' pkt now hs hpc hfree hnum hdup =>
    obtain rfl : c' = c := by
      simp only [World.emit, List.cons.injEq, Event.registered.injEq] at hlog
      exact hlog.1.1
    have hdescr : w.descr fd = some c' := (hinv.own_descr hpc rfl rfl).1
    exact ⟨⟨_, _, rfl, hdescr, reported_welcome me pkt⟩, .inr ⟨hfree, by rw [hpc]; rfl⟩⟩
  | acceptFail | spawn | touch | reactivate | directMissing | status | list | info | fanoutSend
  | fanoutSkip | resolve | resolved | wake | sweepMark | sweepSkip =>
    exact absurd hlog.symm (List.cons_ne_self _ _)
  | _ => cases (List.cons.inj hlog).1

/-- So is a change of the status. -/
theorem Becomes.tells (h : Becomes w l c i r r') (hne : r'.status.str ≠ r.status.str)
    (hinv : Inv w) (hw : Provenance w) (hnames : OwnNames w) (htidy : Tidy w)
    (hm : Move w l w') (hph : phase w.log c = .registered i r₀) (hr : w.table.Active i r) :
    Tells w l.tid w' c me := by
  cases h with
  | kept => exact absurd rfl hne
  | @touched fd pkt now hl hs hpc =>
    subst hl
    -- `cl_touch` changes the status of an `INACTIVE` record only, and then reports it
    have hin : r.Inactive := by
      by_contra hnot
      exact hne (by rw [status_touchCliente_of_not hnot])
    obtain ⟨j, s, hph', rfl⟩ : (Pc.touch fd pkt).Expects (phase w.log c) := hinv.expects hpc rfl
    obtain ⟨rfl, rfl⟩ := Phase.registered.inj (hph.symm.trans hph')
    have hdescr : w.descr r₀.sockfd = some c := (hinv.own_descr hpc rfl rfl).1
    cases hm with
    | @touch c' fd' pkt' now' hs' hpc' hfree hre =>
      obtain ⟨rfl, -⟩ := Pc.touch.inj (hpc.symm.trans hpc')
      rw [clTouch_own hinv now hph hr] at hre
      have hre : strEq r.status.bytes statusInactivo = false := hre
      rw [strEq_inactive.mpr hin] at hre
      cases hre
    | @reactivate c' fd' pkt' now' hs' hpc' hfree hre =>
      obtain ⟨rfl, -⟩ := Pc.touch.inj (hpc.symm.trans hpc')
      exact ⟨⟨_, _, Function.update_self _ _ _, hdescr, reported_reactivation me⟩,
        .inr ⟨hfree, by rw [hpc]; rfl⟩⟩
  | @status fd pkt hl hs hpc hcmd =>
    subst hl
    have hlast := (hw.serving_at hpc).1
    have hdescr : w.descr fd = some c := (hinv.own_descr hpc rfl rfl).1
    have hreply : reported me (handleStatus w.table pkt).2 =
        some (decode (cstr pkt.payloadPtr)) := by
      rw [handleStatus_own hinv hnames hph hlast]
      exact reported_status me (htidy.packets c pkt hlast hcmd) _
    cases hm with
    | @status c' fd' pkt' hs' hpc' hfree =>
      obtain ⟨rfl, rfl⟩ := Pc.handle.inj (hpc.symm.trans hpc')
      exact ⟨⟨_, _, Function.update_self _ _ _, hdescr, hreply⟩, .inr ⟨hfree, by rw [hpc]; rfl⟩⟩
    | fanoutSend _ hpc' hf | fanoutSkip _ hpc' hf | fanoutEnd _ hpc' hf =>
      rw [← hpc', hpc] at hf
      cases hf
    | _ => simp_all [cmdStatus, cmdBroadcast, cmdDirect, cmdList]
  | @marked now hl hs hpc hidle =>
    subst hl
    obtain ⟨c', s₀, hph', -, hdescr, -⟩ := hinv.core.owner hr
    obtain rfl := hinv.core.slot_unique hph hph'
    cases hm with
    | @sweepMark now' j hs' hpc' hj hmark =>
      obtain ⟨rfl, rfl⟩ := Pc.sweep.inj (hpc.symm.trans hpc')
      rw [← hr.at_eq] at hdescr
      exact ⟨⟨_, _, rfl, hdescr, reported_inactivity me _⟩, .inl rfl⟩
    | @sweepSkip now' j hs' hpc' hj hmark =>
      obtain ⟨rfl, rfl⟩ := Pc.sweep.inj (hpc.symm.trans hpc')
      rw [hr.at_eq, hidle] at hmark
      cases hmark
    | @sweepEnd now' j hs' hpc' hj =>
      obtain ⟨rfl, rfl⟩ := Pc.sweep.inj (hpc.symm.trans hpc')
      exact absurd (getElem?_used.mp (hinv.core.ok.mem_used hr)).1 (Nat.not_lt_of_le hj)
    | _ => simp_all

theorem Tells.alone (h : Tells w l.tid w' c me) (hinv : Inv w) (hinv' : Inv w') (hm : Move w l w') :
    l.tid = .monitor ∨ ∀ t ≠ l.tid, ∀ v, ¬ Unsent w' t c me v := by
  refine h.2.imp_right ?_
  rintro ⟨hfree, hconn⟩ t ht v hv
  obtain ⟨s, hs, hc, -⟩ := (unsent_other hinv hinv' hm ht).mp hv
  exact ht (conn_thread_unique hinv.threads (hinv.in_charge hfree hs hc) hconn)

end Quiet

/-! ### Whole runs -/

/-- The view of every user, as far as it has been sent, against the records. -/
def ViewsAgree (w : World) : Prop :=
  ∀ c i r₀ r, phase w.log c = .registered i r₀ → w.table.Active i r →
    Agrees w c (decode r₀.username.str) (decode r.status.str)

theorem ViewsAgree.init : ViewsAgree World.init := by
  intro c i r₀ r hph
  cases hph

theorem ViewsAgree.step (h : ViewsAgree w) (hinv : Inv w) (hw : Provenance w) (hnames : OwnNames w)
    (htidy : Tidy w) (hplain : SendsPlain w l) (horder : InOrder w l)
    (hs : ChatSystem.step w l = some w') : ViewsAgree w' := by
  intro c i r₀ r' hph' hr'
  have hm := move_of_step hs
  have hinv' := hinv.step hs
  rcases hidle : w.sending l.tid with - | s
  · -- the thread moves on: what it is about to tell is right
    have htells : ∀ v, Unsent w' l.tid c (decode r₀.username.str) v → v = decode r'.status.str :=
      fun v => hm.tells hinv hinv' hw hnames htidy hplain horder hidle hph' hr'
    rcases hm.record hinv hinv' hw hnames hph' hr' with hreg | ⟨hph, r, hr, hbecomes⟩
    · have hnew : Tells w l.tid w' c (decode r₀.username.str) := hreg.tells hinv hm
      exact .told hnew.1 htells (hnew.alone hinv hinv' hm)
    · by_cases hsame : r'.status.str = r.status.str
      · rw [hsame] at htells ⊢
        refine (h c i r₀ r hph hr).quiet (fun t ht v => unsent_other hinv hinv' hm ht) hidle ?_
          htells
        rcases hm.transmits with ⟨s, _, _, hsend, -⟩ | ⟨s, hsend, -⟩ | ⟨o, -, -, -, -, hlog⟩
        · rw [hidle] at hsend
          cases hsend
        · rw [hidle] at hsend
          cases hsend
        · rcases hlog with hlog | ⟨e, hlog, he⟩
          · rw [hlog]
          · rw [hlog, delivered_cons_of_not_isSend he]
      · have hnew : Tells w l.tid w' c (decode r₀.username.str) :=
          hbecomes.tells hsame hinv hw hnames htidy hm hph hr
        exact .told hnew.1 htells (hnew.alone hinv hinv' hm)
  · -- a `send()`: the records stay
    obtain ⟨written, hlog⟩ := hm.log_of_sending hidle
    have hph := hm.registered_before hinv hinv' (by simp [hlog]) hph'
    rw [hm.table_of_sending hidle] at hr'
    have hlive := (phase_registered_iff hinv.core.disciplined).mp hph
    exact (h c i r₀ r' hph hr').transmit hinv hinv' hm hidle
      (fun ha hc v => horder.reliable s c i r₀ v hidle ha hc hlive)
      (fun hl hc => horder.overtaken s c i r₀ hl hidle hc hlive)

/-- Where nothing is on its way to a user's connection, the user's view is the
status in its record. -/
def ViewsCurrent (w : World) : Prop :=
  ∀ c i r₀ r, Live w.log c i r₀ → w.table.Active i r →
    (∀ t s, w.sending t = some s → w.descr s.fd ≠ some c) →
      statusView (decode r₀.username.str) (delivered w.log c) = decode r.status.str

/-- **A client's view is its status in the server's record** whenever nothing
is on its way to it, in runs in which no report of a status is lost or
overtaken. -/
theorem statusView_agrees {tr : List (World × Label)} (h : Run step World.init tr w)
    (hown : StepsAll SendsOwnName tr) (hplain : StepsAll SendsPlain tr)
    (horder : StepsAll InOrder tr) : StatesAll ViewsCurrent tr w := by
  have hall : StatesAll (fun w => (Inv w ∧ Provenance w ∧ OwnNames w) ∧ Tidy w ∧ ViewsAgree w)
      tr w := by
    refine h.statesAll_of_steps ⟨⟨.init, .init, .init⟩, .init, .init⟩ ?_
      ((hown.and hplain).and horder)
    rintro w l w' ⟨⟨hinv, hw, hnames⟩, htidy, hviews⟩ ⟨⟨hsends, hplain⟩, horder⟩ hs
    exact ⟨⟨hinv.step hs, hw.move hinv (move_of_step hs), hnames.step hinv hw hsends hs⟩,
      htidy.step hinv hw hnames hplain hs, hviews.step hinv hw hnames htidy hplain horder hs⟩
  apply hall.mono
  rintro w ⟨⟨hinv, -, -⟩, -, hviews⟩ c i r₀ r hlive hr hnone
  have hph := (phase_registered_iff hinv.core.disciplined).mpr hlive
  refine (hviews c i r₀ r hph hr).view ?_
  rintro t v ⟨s, hs, hc, -⟩
  exact hnone t s hs hc

/-! ### Two runs -/

/-- No thread but the monitor has a call in progress. -/
def clientsIdle (w : World) : Bool :=
  (w.sending .main).isNone && (List.range w.nextConn).all fun c => (w.sending (.client c)).isNone

theorem sending_of_clientsIdle (hinv : Inv w) (h : clientsIdle w = true) {t : Tid}
    (ht : t ≠ .monitor) : w.sending t = none := by
  simp only [clientsIdle, Bool.and_eq_true, Option.isNone_iff_eq_none, List.all_eq_true,
    List.mem_range] at h
  cases t with
  | main => exact h.1
  | monitor => exact absurd rfl ht
  | client c =>
    rcases lt_or_ge c w.nextConn with hlt | hge
    · exact h.2 c hlt
    · -- the thread has not started
      have hns := notStarted_of_fresh hinv.threads (hinv.core.unborn c hge)
      rcases hs : w.sending (.client c) with - | s
      · rfl
      · have hok := (hinv.threads (.client c)).sends s hs
        rw [hns] at hok
        unfold SendOk at hok
        split at hok
        · cases hok.1
        · cases hok

/-- `SendsPlain`, computed. -/
def sendsPlain (w : World) (l : Label) : Bool :=
  match l.answer, l.tid with
  | .packet pkt, .main => pkt.command != cmdRegister ||
    !(cstr pkt.senderPtr).contains comma && !(cstr pkt.senderPtr).contains semicolon &&
      cstr pkt.senderPtr != senderServer
  | .packet pkt, .client _ => pkt.command != cmdStatus || statuses.contains (cstr pkt.payloadPtr)
  | .go, .client c =>
    match w.pc (.client c) with
    | .handle _ pkt => pkt.command != cmdList || decide ((listText w.table).length ≤ 956)
    | _ => true
  | _, _ => true

theorem sendsPlain_sound (h : sendsPlain w l = true) : SendsPlain w l where
  name := by
    rintro pkt rfl - hcmd
    simpa [sendsPlain, hcmd, PlainName, and_assoc] using h
  status := by
    rintro c pkt rfl - hcmd
    simpa [sendsPlain, hcmd] using h
  list := by
    rintro c fd pkt rfl - hpc hcmd
    simpa [sendsPlain, hcmd, hpc] using h

/-- The step is a plain one: it fails no call and relays nothing, the monitor
sends while nobody else does, and a list is made for the only user. -/
def inOrder (w : World) (l : Label) : Bool :=
  match l.answer, l.tid with
  | .fail, t => (w.sending t).isNone
  | .wrote _, .monitor => clientsIdle w
  | .go, .client c =>
    match w.pc (.client c) with
    | .broadcasting _ _ _ => false
    | .handle _ pkt => pkt.command != cmdDirect &&
      (pkt.command != cmdList || decide (w.table.numClientes ≤ 1))
    | _ => true
  | _, _ => true

theorem inOrder_sound (hinv : Inv w) (h : inOrder w l = true) : InOrder w l where
  reliable := by
    obtain ⟨t, a⟩ := l
    rintro s c i r₀ v hs rfl
    simp only [inOrder, Option.isNone_iff_eq_none] at h
    rw [h] at hs
    cases hs
  overtaken := by
    obtain ⟨t, a⟩ := l
    rintro s c i r₀ rfl hs - - (rfl | ⟨n, rfl, -⟩) t v ht ⟨s', hs', -⟩
    · simp only [inOrder, Option.isNone_iff_eq_none] at h
      rw [h] at hs
      cases hs
    · rw [sending_of_clientsIdle hinv h ht] at hs'
      cases hs'
  relays := by
    rintro site pkt c i r₀ r v (⟨rfl, hs, hpc, -⟩ | ⟨rfl, hs, hpc, hm, hcmd, -⟩)
    · simp [inOrder, hpc] at h
    · simp [inOrder, hpc, hcmd] at h
  lists := by
    rintro c fd pkt i r₀ r rfl hpc hcmd - hr j s hj
    obtain ⟨-, hnum⟩ : cmdList ≠ cmdDirect ∧ w.table.numClientes ≤ 1 := by
      simpa [inOrder, hpc, hcmd] using h
    have hlt := (getElem?_used.mp (hinv.core.ok.mem_used hr)).1
    omega

/-- Alice is told her status four times: by the reply to a `STATUS`, in a list,
by the monitor, and when she writes again. -/
def reporting : List Label :=
  joining 4 (ip 1) (registerPacket alice) ++
    [⟨.client 0, .packet (clientPacket cmdStatus alice [] statusOcupado)⟩, ⟨.client 0, .clock 50⟩,
      ⟨.client 0, .go⟩, sends 0,
      ⟨.client 0, .packet (clientPacket cmdList alice [] [])⟩, ⟨.client 0, .go⟩, sends 0,
      ⟨.monitor, .clock 200⟩, ⟨.monitor, .go⟩, ⟨.monitor, .go⟩, ⟨.monitor, .wrote 1024⟩,
      ⟨.monitor, .go⟩,
      ⟨.client 0, .packet (clientPacket cmdStatus alice [] statusActivo)⟩, ⟨.client 0, .clock 210⟩,
      sends 0]

theorem exec_reporting :
    (execIf (fun w l => sendsOwnName w l && sendsPlain w l && inOrder w l) step World.init
      reporting).any (fun w => decide ((w.table.at 0).status.str = statusActivo)) = true := by
  decide +kernel

theorem statusView_alice : ∃ tr w, Run step World.init tr w ∧
    StepsAll SendsOwnName tr ∧ StepsAll SendsPlain tr ∧ StepsAll InOrder tr ∧
    (w.table.at 0).status.str = statusActivo ∧ StatesAll ViewsCurrent tr w := by
  obtain ⟨tr, w, hrun, -, hC, hp⟩ := exists_run_of_execIf exec_reporting
  simp only [Bool.and_eq_true] at hC
  have hown : StepsAll SendsOwnName tr := fun x hx => sendsOwnName_sound (hC x hx).1.1
  have hplain : StepsAll SendsPlain tr := fun x hx => sendsPlain_sound (hC x hx).1.2
  obtain ⟨-, hpast⟩ := ownNames_of_run hrun hown
  have horder : StepsAll InOrder tr := fun x hx => inOrder_sound (hpast x hx).1 (hC x hx).2
  exact ⟨tr, w, hrun, hown, hplain, horder, of_decide_eq_true hp,
    statusView_agrees hrun hown hplain horder⟩

/-- The list alice has asked for is not sent yet when the monitor marks her and
tells her so. -/
def overtaking : List Label :=
  joining 4 (ip 1) (registerPacket alice) ++
    [⟨.client 0, .packet (clientPacket cmdList alice [] [])⟩, ⟨.client 0, .go⟩,
      ⟨.monitor, .clock 100⟩, ⟨.monitor, .go⟩, ⟨.monitor, .go⟩, ⟨.monitor, .wrote 1024⟩,
      ⟨.monitor, .go⟩, sends 0]

theorem exec_overtaking :
    (execIf (fun w l => sendsOwnName w l && sendsPlain w l) step World.init overtaking).any
      (fun w => decide (Event.registered 0 0 (newCliente alice (ip 1) 4 0) ∈ w.log) &&
        decide (Event.removed 0 ∉ w.log) &&
        decide (clientsIdle w = true ∧ w.sending .monitor = none) &&
        decide ((w.table.at 0).activo = true ∧ (w.table.at 0).status.str = statusInactivo) &&
        decide (statusView "alice".toList (delivered w.log 0) = Text.active)) = true := by
  decide +kernel

/-- Without `InOrder` a view may stay wrong. -/
theorem not_always_agrees : ∃ tr w, Run step World.init tr w ∧
    StepsAll SendsOwnName tr ∧ StepsAll SendsPlain tr ∧ ¬ ViewsCurrent w := by
  obtain ⟨tr, w, hrun, -, hC, hp⟩ := exists_run_of_execIf exec_overtaking
  simp only [Bool.and_eq_true, decide_eq_true_eq] at hC hp
  obtain ⟨⟨⟨⟨hreg, hrem⟩, hidle, hmonitor⟩, hact, hstatus⟩, hview⟩ := hp
  have hown : StepsAll SendsOwnName tr := fun x hx => sendsOwnName_sound (hC x hx).1
  have hplain : StepsAll SendsPlain tr := fun x hx => sendsPlain_sound (hC x hx).2
  obtain ⟨⟨hinv, -⟩, -⟩ := ownNames_of_run hrun hown
  refine ⟨tr, w, hrun, hown, hplain, fun hcurrent => ?_⟩
  have hnone (t : Tid) : w.sending t = none := by
    by_cases ht : t = .monitor
    · rw [ht, hmonitor]
    · exact sending_of_clientsIdle hinv hidle ht
  have heq := hcurrent 0 0 _ _ ⟨hreg, hrem⟩ (Table.active_at hact) fun t s hs => by
    rw [hnone t] at hs
    cases hs
  have hname : decode (newCliente alice (ip 1) 4 0).username.str = "alice".toList := by decide
  rw [hname, hview, hstatus] at heq
  exact absurd heq (by decide)

end ChatSystem
