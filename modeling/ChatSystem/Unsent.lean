/-
ChatSystem/Unsent.lean

Reports of a status on their way.  `Unsent w t c me v`: thread `t` is about to
tell connection `c`, whose user is `me`, the status `v`.  `Agrees` relates what
a connection has been told and what it is about to be told to its record; its
lemmas say what keeps this: a `send()` (`Agrees.transmit`), a step that does
not change the status (`Agrees.quiet`) and one that changes it and is about to
tell so (`Agrees.told`).
-/
import ChatSystem.Framing
import ChatSystem.Inactivity
import ChatSystem.StatusReports

namespace ChatSystem

open CStr Lts Utf8

/-! ### The clients of these runs -/

/-- The step registers no name but a plain one other than `SERVER`, receives no
`STATUS` but one of the three, and makes no list that does not fit. -/
structure SendsPlain (w : World) (l : Label) : Prop where
  name : ∀ pkt, l = ⟨.main, .packet pkt⟩ → w.sending .main = none → pkt.command = cmdRegister →
    PlainName (cstr pkt.senderPtr) ∧ cstr pkt.senderPtr ≠ senderServer
  status : ∀ c pkt, l = ⟨.client c, .packet pkt⟩ → w.sending (.client c) = none →
    pkt.command = cmdStatus → cstr pkt.payloadPtr ∈ statuses
  list : ∀ c fd pkt, l = ⟨.client c, .go⟩ → w.sending (.client c) = none →
    w.pc (.client c) = .handle fd pkt → pkt.command = cmdList → (listText w.table).length ≤ 956

/-- What these clients leave behind: names without separators, and the three
statuses only. -/
structure Tidy (w : World) : Prop where
  registering : ∀ c fd ip pkt, w.pc .main = .register c fd ip pkt → PlainName (cstr pkt.senderPtr)
  names : ∀ c i r, Event.registered c i r ∈ w.log → PlainName r.username.str
  packets : ∀ c pkt, lastPacket w.log c = some pkt → pkt.command = cmdStatus →
    cstr pkt.payloadPtr ∈ statuses
  records : ∀ i r, w.table.Active i r → r.status.str ∈ statuses

variable {w w' : World} {l : Label}

theorem PlainName.take {name : List UInt8} (h : PlainName name) (n : ℕ) : PlainName (name.take n) :=
  ⟨fun hmem => h.1 (List.mem_of_mem_take hmem), fun hmem => h.2 (List.mem_of_mem_take hmem)⟩

theorem status_newCliente (username ip : List UInt8) (fd now : ℤ) :
    (newCliente username ip fd now).status.str = statusActivo := by
  show ((CharArray.zero 16).strncpy statusActivo 15 status_limit).str = statusActivo
  rw [CharArray.str_strncpy_zero]
  decide

theorem status_setStatus {status : List UInt8} (h : cstr status ∈ statuses) (r : Cliente) :
    (setStatus status r).status.str = cstr status := by
  show ((r.status.strncpy status 15 status_limit).put 15 0).str = cstr status
  rw [CharArray.str_strncpy_put (by decide), (take_of_mem_statuses h).1]

theorem status_touchCliente_of_not {now : ℤ} {r : Cliente} (h : ¬ r.Inactive) :
    (touchCliente now r).status = r.status := by
  rw [touchCliente, if_neg (mt strEq_inactive.mp h)]

namespace Tidy

theorem init : Tidy World.init where
  registering := by
    intro c fd ip pkt hpc
    cases hpc
  names := by
    intro c i r hr
    cases hr
  packets := by
    intro c pkt hlast
    cases hlast
  records := fun i r hr => absurd hr (clInit_not_active i r)

/-- The status of a record after a step. -/
theorem status_step (h : Tidy w) (hinv : Inv w) (hw : Provenance w) (hnames : OwnNames w)
    (hm : Move w l w') (hinv' : Inv w') {i : ℕ} {r' : Cliente} (hr' : w'.table.Active i r') :
    r'.status.str ∈ statuses := by
  -- the record belongs to a connection, whose own things only are done to it
  obtain ⟨c, r₀, hph, -⟩ := hinv'.core.active i r' hr'
  rcases hm.record hinv hinv' hw hnames hph hr' with hreg | ⟨-, r, hr, hbecomes⟩
  · obtain ⟨fd, ip, pkt, now, -, rfl⟩ := hreg.fresh
    rw [status_newCliente]
    decide
  · have hold := h.records i r hr
    cases hbecomes with
    | kept => exact hold
    | @touched fd pkt now =>
      by_cases hin : r.Inactive
      · rw [status_touchCliente hin]
        decide
      · rw [status_touchCliente_of_not hin]
        exact hold
    | @status fd pkt hl hs hpc hcmd =>
      have hstatus := h.packets c pkt (hw.serving_at hpc).1 hcmd
      rw [status_setStatus hstatus]
      exact hstatus
    | marked =>
      rw [inactive_markInactive r]
      decide

theorem step (h : Tidy w) (hinv : Inv w) (hw : Provenance w) (hnames : OwnNames w)
    (hplain : SendsPlain w l) (hs : step w l = some w') : Tidy w' := by
  have hm := move_of_step hs
  refine ⟨?_, ?_, ?_, fun i r' hr' => h.status_step hinv hw hnames hm (hinv.step hs) hr'⟩
  · intro c fd ip pkt hpc
    rcases hm.register_cases hpc with hpc | ⟨rfl, hidle, hcmd⟩
    · exact h.registering c fd ip pkt hpc
    · exact (hplain.name pkt rfl hidle hcmd).1
  · intro c i r hr
    rcases hm.registered_cases hr with hr | ⟨fd, ip, pkt, now, hpc, rfl⟩
    · exact h.names c i r hr
    · rw [str_username_newCliente]
      exact (h.registering c fd ip pkt hpc).take 31
  · intro c pkt hlast hcmd
    rcases hm.lastPacket_cases c with hsame | ⟨fd, pkt', rfl, hidle, -, hlast'⟩
    · rw [hsame] at hlast
      exact h.packets c pkt hlast hcmd
    · obtain rfl := Option.some.inj (hlast.symm.trans hlast')
      exact hplain.status c pkt rfl hidle hcmd

end Tidy

/-! ### Reports on the way -/

/-- Thread `t` is about to tell connection `c`, whose user is `me`, this
status. -/
def Unsent (w : World) (t : Tid) (c : ℕ) (me status : List Char) : Prop :=
  ∃ s, w.sending t = some s ∧ w.descr s.fd = some c ∧ reported me s.pkt = some status

/-- The call ends with this answer. -/
def Sending.Ends (s : Sending) (a : Answer) : Prop :=
  a = .fail ∨ ∃ n, a = .wrote n ∧ s.total + n = 1024

/-- What connection `c` has been told or is about to be told, against the
`status` in its record: a notice of the monitor on its way is right, another
report is right unless such a notice comes with it, and the view is right when
nothing is on its way. -/
structure Agrees (w : World) (c : ℕ) (me status : List Char) : Prop where
  notice : ∀ v, Unsent w .monitor c me v → v = status
  report : ∀ t v, Unsent w t c me v → (∃ u, Unsent w .monitor c me u) ∨ v = status
  view : (∀ t v, ¬ Unsent w t c me v) → statusView me (delivered w.log c) = status

variable {c : ℕ} {me status : List Char}

theorem unsent_iff {t : Tid} {s : Sending} (hs : w.sending t = some s) {v : List Char} :
    Unsent w t c me v ↔ w.descr s.fd = some c ∧ reported me s.pkt = some v := by
  constructor
  · rintro ⟨s', hs', hv⟩
    obtain rfl := Option.some.inj (hs.symm.trans hs')
    exact hv
  · exact fun hv => ⟨s, hs, hv⟩

theorem not_unsent_of_idle {t : Tid} (hs : w.sending t = none) (v : List Char) :
    ¬ Unsent w t c me v := by
  rintro ⟨s, hs', -⟩
  rw [hs] at hs'
  cases hs'

/-- A call in progress goes to the same connection after the step. -/
theorem unsent_other (hinv : Inv w) (hinv' : Inv w') (hm : Move w l w') {t : Tid}
    (ht : t ≠ l.tid) {v : List Char} : Unsent w' t c me v ↔ Unsent w t c me v := by
  have hsending := (hm.local_of_ne ht).1
  unfold Unsent
  rw [hsending]
  refine exists_congr fun s => and_congr_right fun hs => and_congr_left fun _ => ?_
  obtain ⟨c₀, hc₀, -⟩ := hinv.send_allowed hs
  obtain ⟨c₁, hc₁, -⟩ := hinv'.send_allowed (hsending.trans hs)
  rw [hc₀, hc₁]
  rcases hm.descr_cases hc₀ with hsame | hclosed
  · rw [hsame] at hc₁
    rw [hc₁]
  · rw [hc₁] at hclosed
    cases hclosed

namespace Agrees

/-- A step after which the same is known and the same is on its way, as far as
the thread that makes it is concerned. -/
theorem congr (h : Agrees w c me status)
    (hother : ∀ t ≠ l.tid, ∀ v, Unsent w' t c me v ↔ Unsent w t c me v)
    (hself : ∀ v, Unsent w' l.tid c me v ↔ Unsent w l.tid c me v)
    (hview : statusView me (delivered w'.log c) = statusView me (delivered w.log c)) :
    Agrees w' c me status := by
  have hunsent (t : Tid) (v : List Char) : Unsent w' t c me v ↔ Unsent w t c me v := by
    rcases eq_or_ne t l.tid with rfl | ht
    · exact hself v
    · exact hother t ht v
  refine ⟨fun v hv => h.notice v ((hunsent _ v).mp hv), fun t v hv => ?_, fun hnone => ?_⟩
  · simp only [hunsent] at hv ⊢
    exact h.report t v hv
  · simp only [hunsent] at hnone
    rw [hview]
    exact h.view hnone

/-- The end of a call to another connection. -/
theorem elsewhere (h : Agrees w c me status)
    (hother : ∀ t ≠ l.tid, ∀ v, Unsent w' t c me v ↔ Unsent w t c me v) {s : Sending}
    (hs : w.sending l.tid = some s) (hc : w.descr s.fd ≠ some c) (hidle : w'.sending l.tid = none)
    (hdelivered : delivered w'.log c = delivered w.log c) : Agrees w' c me status :=
  h.congr hother
    (fun v => iff_of_false (not_unsent_of_idle hidle v) fun hv => hc ((unsent_iff hs).mp hv).1)
    (congrArg _ hdelivered)

/-- The end of a call to the connection: what its packet tells is shown, or was
shown before if the packet is lost. -/
theorem complete (h : Agrees w c me status)
    (hother : ∀ t ≠ l.tid, ∀ v, Unsent w' t c me v ↔ Unsent w t c me v) {s : Sending}
    (hs : w.sending l.tid = some s) (hc : w.descr s.fd = some c) (hidle : w'.sending l.tid = none)
    (hview : statusView me (delivered w'.log c) =
      (reported me s.pkt).getD (statusView me (delivered w.log c)))
    (hovertaken : l.tid = .monitor → ∀ t v, t ≠ .monitor → ¬ Unsent w t c me v) :
    Agrees w' c me status := by
  have hself := @not_unsent_of_idle w' c me l.tid hidle
  rcases hreported : reported me s.pkt with - | v
  · -- the packet tells nothing
    refine h.congr hother (fun v => iff_of_false (hself v) ?_) (by rw [hview, hreported]; rfl)
    rw [unsent_iff hs, hreported]
    simp
  · have hunsent : Unsent w l.tid c me v := (unsent_iff hs).mpr ⟨hc, hreported⟩
    rw [hreported] at hview
    have hview : statusView me (delivered w'.log c) = v := hview
    by_cases hmonitor : l.tid = .monitor
    · -- the notice, and nothing else was on its way
      have hnone (t : Tid) (u : List Char) : ¬ Unsent w' t c me u := by
        rcases eq_or_ne t l.tid with rfl | ht
        · exact hself u
        · rw [hother t ht]
          exact hovertaken hmonitor t u (hmonitor ▸ ht)
      refine ⟨fun u hu => absurd hu (hnone _ u), fun t u hu => absurd hu (hnone t u), fun _ => ?_⟩
      rw [hview]
      exact h.notice v (hmonitor ▸ hunsent)
    · -- another report: right, unless a notice stays on its way
      have hnotice := hother .monitor (Ne.symm hmonitor)
      refine ⟨fun u hu => h.notice u ((hnotice u).mp hu), ?_, ?_⟩
      · intro t u hu
        simp only [hnotice]
        rcases eq_or_ne t l.tid with rfl | ht
        · exact absurd hu (hself u)
        · exact h.report t u ((hother t ht u).mp hu)
      · intro hnone
        rw [hview]
        refine (h.report _ v hunsent).resolve_left ?_
        rintro ⟨u, hu⟩
        exact hnone _ u ((hnotice u).mpr hu)

/-- A `send()`. -/
theorem transmit (h : Agrees w c me status) (hinv : Inv w) (hinv' : Inv w') (hm : Move w l w')
    {s : Sending} (hs : w.sending l.tid = some s)
    (hreliable : l.answer = .fail → w.descr s.fd = some c → ∀ v, reported me s.pkt = some v →
      v = statusView me (delivered w.log c))
    (hovertaken : l.tid = .monitor → w.descr s.fd = some c → s.Ends l.answer →
      ∀ t v, t ≠ .monitor → ¬ Unsent w t c me v) :
    Agrees w' c me status := by
  have hother : ∀ t ≠ l.tid, ∀ v, Unsent w' t c me v ↔ Unsent w t c me v :=
    fun t ht v => unsent_other hinv hinv' hm ht
  rcases hm.transmits with ⟨s', c₀, n, hs', ha, hc₀, -, hle, -, hsending, hlog, -, hdescr⟩ |
    ⟨s', hs', ha, -, hsending, hlog, -⟩ | ⟨o, hidle, -⟩
  · obtain rfl := Option.some.inj (hs.symm.trans hs')
    have hself := congrFun hsending l.tid
    rw [Function.update_self] at hself
    by_cases hlt : s.total + n < 1024
    · -- the call goes on
      rw [if_pos hlt] at hself
      refine h.congr hother (fun v => ?_) (by rw [hlog]; simp [delivered, hlt.ne])
      rw [unsent_iff hself, unsent_iff hs, hdescr]
    · rw [if_neg hlt] at hself
      have hn : s.total + n = 1024 := Nat.le_antisymm hle (Nat.le_of_not_lt hlt)
      by_cases hc : c₀ = c
      · subst hc
        refine h.complete hother hs hc₀ hself ?_ fun hl => hovertaken hl hc₀ (.inr ⟨n, ha, hn⟩)
        rw [← statusView_append, hlog]
        simp [delivered, hn]
      · exact h.elsewhere hother hs (by rw [hc₀]; simpa using hc) hself
          (by rw [hlog]; simp [delivered, hc])
  · obtain rfl := Option.some.inj (hs.symm.trans hs')
    have hself := congrFun hsending l.tid
    rw [Function.update_self] at hself
    have hdelivered : delivered w'.log c = delivered w.log c := by
      rw [hlog]
      simp [delivered]
    by_cases hc : w.descr s.fd = some c
    · refine h.complete hother hs hc hself ?_ fun hl => hovertaken hl hc (.inl ha)
      rw [hdelivered]
      rcases hreported : reported me s.pkt with - | v
      · rfl
      · exact (hreliable ha hc v hreported).symm
    · exact h.elsewhere hother hs hc hself hdelivered
  · rw [hs] at hidle
    cases hidle

/-- A step that does not change the status: what it is about to tell is
right. -/
theorem quiet (h : Agrees w c me status)
    (hother : ∀ t ≠ l.tid, ∀ v, Unsent w' t c me v ↔ Unsent w t c me v)
    (hidle : w.sending l.tid = none) (hdelivered : delivered w'.log c = delivered w.log c)
    (hnew : ∀ v, Unsent w' l.tid c me v → v = status) : Agrees w' c me status := by
  have hself := @not_unsent_of_idle w c me l.tid hidle
  -- a notice on its way stays on its way
  have hnotice : (∃ u, Unsent w .monitor c me u) → ∃ u, Unsent w' .monitor c me u := by
    rintro ⟨u, hu⟩
    rcases eq_or_ne Tid.monitor l.tid with heq | hne
    · exact absurd (heq ▸ hu) (hself u)
    · exact ⟨u, (hother _ hne u).mpr hu⟩
  refine ⟨fun v hv => ?_, fun t v hv => ?_, fun hnone => ?_⟩
  · rcases eq_or_ne Tid.monitor l.tid with heq | hne
    · exact hnew v (heq ▸ hv)
    · exact h.notice v ((hother _ hne v).mp hv)
  · rcases eq_or_ne t l.tid with rfl | ht
    · exact .inr (hnew v hv)
    · exact (h.report t v ((hother t ht v).mp hv)).imp_left hnotice
  · rw [hdelivered]
    refine h.view fun t v hv => ?_
    rcases eq_or_ne t l.tid with rfl | ht
    · exact hself v hv
    · exact hnone t v ((hother t ht v).mpr hv)

/-- A change of the status that is about to be told: by the monitor, or while
nobody else has anything to tell. -/
theorem told (hsome : ∃ v, Unsent w' l.tid c me v) (hnew : ∀ v, Unsent w' l.tid c me v → v = status)
    (halone : l.tid = .monitor ∨ ∀ t ≠ l.tid, ∀ v, ¬ Unsent w' t c me v) :
    Agrees w' c me status := by
  obtain ⟨u, hu⟩ := hsome
  refine ⟨fun v hv => ?_, fun t v hv => ?_, fun hnone => absurd hu (hnone _ u)⟩
  · rcases eq_or_ne Tid.monitor l.tid with heq | hne
    · exact hnew v (heq ▸ hv)
    · exact absurd hv (halone.resolve_left hne.symm _ hne v)
  · rcases eq_or_ne t l.tid with rfl | ht
    · exact .inr (hnew v hv)
    · rcases halone with heq | halone
      · exact .inl ⟨u, heq ▸ hu⟩
      · exact absurd hv (halone t ht v)

end Agrees

end ChatSystem
