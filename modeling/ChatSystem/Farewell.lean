/-
ChatSystem/Farewell.lean

Who is told that a user has left, in runs of well-behaved clients
(`ChatSystem/OwnNames.lean`).

At the end of a connection its thread finds the name, removes the record,
closes the descriptor and announces the name in one section that sends to all.
`Leaving` says where it is on that way; `farewell_iff` says what has happened
when it is through: the name has been announced once, to every connection
registered at that moment, exactly when it is not empty.  The empty name, which
the terminal client lets through and `cl_add` takes, stands for "no name" in
`client_thread`, and such a user leaves unannounced (`not_always_farewell`).
-/
import ChatSystem.Departure
import ChatSystem.OwnNames
import ChatSystem.Rounds

namespace ChatSystem

open CStr Lts

/-! ### Announcements -/

/-- The sections in which connection `c` announced a name, newest first. -/
def announcements (c : ℕ) : List Event → List (ℕ × List UInt8)
  | [] => []
  | .locked (.client c') k (.departure name) :: h =>
    if c' = c then (k, name) :: announcements c h else announcements c h
  | _ :: h => announcements c h

/-- Connection `c` has announced `name` in one section, which has ended: each
connection registered at its beginning was sent one notice, and `c` was not
among them. -/
def AnnouncedOnce (h : List Event) (c : ℕ) (name : List UInt8) : Prop :=
  ∃ k newer mid older, announcements c h = [(k, name)] ∧
    h = newer ++ .unlocked (.client c) k ::
      (mid ++ .locked (.client c) k (.departure name) :: older) ∧
    (∀ e ∈ mid, e.Inside (.client c)) ∧ (∀ i r, ¬ Live older c i r) ∧
    Delivers (.client c) (completed mid) older (notifyDisconnect name)

variable {w w' : World} {l : Label} {c : ℕ} {h : List Event}

theorem mem_announcements {k : ℕ} {name : List UInt8} :
    (k, name) ∈ announcements c h ↔ .locked (.client c) k (.departure name) ∈ h := by
  induction h with
  | nil => simp [announcements]
  | cons e h ih =>
    rw [List.mem_cons, ← ih]
    cases e with
    | locked t k' cause =>
      cases t with
      | client c' =>
        cases cause with
        | departure name' =>
          by_cases hc : c' = c
          · simp [announcements, hc]
          · simp [announcements, hc, Ne.symm hc]
        | _ => simp [announcements]
      | _ => simp [announcements]
    | _ => simp [announcements]

/-- Only taking the mutex to announce a name adds an announcement. -/
theorem announcements_cons {e : Event}
    (he : ∀ k name, e ≠ .locked (.client c) k (.departure name)) :
    announcements c (e :: h) = announcements c h := by
  cases e with
  | locked t k cause =>
    cases t with
    | client c' =>
      cases cause with
      | departure name =>
        have hne : c' ≠ c := by
          rintro rfl
          exact he k name rfl
        exact if_neg hne
      | _ => rfl
    | _ => rfl
  | _ => rfl

theorem AnnouncedOnce.cons {name : List UInt8} (ha : AnnouncedOnce h c name) {e : Event}
    (he : ∀ k name, e ≠ .locked (.client c) k (.departure name)) :
    AnnouncedOnce (e :: h) c name := by
  obtain ⟨k, newer, mid, older, hone, rfl, hmid, hgone, hdelivers⟩ := ha
  exact ⟨k, e :: newer, mid, older, (announcements_cons he).trans hone, rfl, hmid, hgone,
    hdelivers⟩

/-! ### On the way out -/

/-- `name` is the name connection `c` registered. -/
def OwnName (h : List Event) (c : ℕ) (name : List UInt8) : Prop :=
  ∃ i r, Event.registered c i r ∈ h ∧ r.username.str = name

/-- What the thread of connection `c` has announced at a program point. -/
def Leaving (w : World) (c : ℕ) : Pc → Prop
  | .remove _ username | .close _ username =>
    OwnName w.log c username.str ∧ announcements c w.log = []
  | .notify username =>
    OwnName w.log c username.str ∧ username.str ≠ [] ∧ announcements c w.log = []
  | .notifying username _ =>
    OwnName w.log c username.str ∧ username.str ≠ [] ∧
      announcements c w.log = [(w.sections, username.str)]
  | .exited => ∃ name, OwnName w.log c name ∧
    (name = [] ∧ announcements c w.log = [] ∨ name ≠ [] ∧ AnnouncedOnce w.log c name)
  | _ => announcements c w.log = []

theorem OwnName.mono {name : List UInt8} (hn : OwnName h c name) {h' : List Event}
    (hsub : h ⊆ h') : OwnName h' c name := by
  obtain ⟨i, r, hr, hname⟩ := hn
  exact ⟨i, r, hsub hr, hname⟩

/-- A step that announces nothing for `c`, and during an announcement of `c`
begins no section, leaves the thread where it is. -/
theorem Leaving.later {p : Pc} (hl : Leaving w c p)
    (hlog : w'.log = w.log ∨ ∃ e, w'.log = e :: w.log ∧
      ∀ k name, e ≠ .locked (.client c) k (.departure name))
    (hsections : p.locked = true → w'.sections = w.sections) : Leaving w' c p := by
  have hsame : announcements c w'.log = announcements c w.log := by
    rcases hlog with hlog | ⟨e, hlog, he⟩
    · rw [hlog]
    · rw [hlog, announcements_cons he]
  have hsub : w.log ⊆ w'.log := by
    rcases hlog with hlog | ⟨e, hlog, -⟩
    · rw [hlog]
      exact List.Subset.refl _
    · rw [hlog]
      exact List.subset_cons_self _ _
  have honce {name : List UInt8} (ha : AnnouncedOnce w.log c name) :
      AnnouncedOnce w'.log c name := by
    rcases hlog with hlog | ⟨e, hlog, he⟩
    · rwa [hlog]
    · rw [hlog]
      exact ha.cons he
  -- what is claimed at each place only speaks of the names and the announcements
  cases p with
  | remove | close => exact ⟨hl.1.mono hsub, hsame.trans hl.2⟩
  | notify => exact ⟨hl.1.mono hsub, hl.2.1, hsame.trans hl.2.2⟩
  | notifying username i =>
    refine ⟨hl.1.mono hsub, hl.2.1, ?_⟩
    rw [hsame, hsections rfl]
    exact hl.2.2
  | exited =>
    obtain ⟨name, hown, ⟨hnil, hnone⟩ | ⟨hne, ha⟩⟩ := hl
    · exact ⟨name, hown.mono hsub, .inl ⟨hnil, hsame.trans hnone⟩⟩
    · exact ⟨name, hown.mono hsub, .inr ⟨hne, honce ha⟩⟩
  | _ => exact hsame.trans hl

/-- The name `cleanup` resolves is the connection's own. -/
theorem ownName_resolve (hinv : Inv w) (hw : Provenance w) (hnames : OwnNames w) {fd : ℤ}
    {username : CharArray 32} (hpc : w.pc (.client c) = .resolve fd username)
    (hname : username.str = []) :
    OwnName w.log c (resolveName w.table fd username).str := by
  obtain ⟨i, r, hph, -⟩ : (Pc.resolve fd username).Expects (phase w.log c) :=
    hinv.expects hpc rfl
  obtain ⟨rfl, hnot⟩ := (hw.serving_at hpc).1 hname
  have hreg := registered_mem_of_phase hph
  have hname := Provenance.announced_resolveName hinv hpc hnot
  exact ⟨i, r, hreg, (hnames.announced hinv hreg hname).symm⟩

/-- So is the one a LOGOUT gave. -/
theorem ownName_resolved (hinv : Inv w) (hw : Provenance w) (hnames : OwnNames w) {fd : ℤ}
    {username : CharArray 32} (hpc : w.pc (.client c) = .resolve fd username)
    (hname : username.str ≠ []) : OwnName w.log c username.str := by
  obtain ⟨i, r, hph, -⟩ : (Pc.resolve fd username).Expects (phase w.log c) :=
    hinv.expects hpc rfl
  have hreg := registered_mem_of_phase hph
  exact ⟨i, r, hreg, (hnames.announced hinv hreg ((hw.serving_at hpc).2 hname)).symm⟩

/-- The section that ends has told everybody else. -/
theorem announcedOnce_unlock (hinv : Inv w) (hsecs : Sections w) (hrounds : Rounds w)
    {username : CharArray 32} {i : ℕ} (hs : w.sending (.client c) = none)
    (hpc : w.pc (.client c) = .notifying username i) (hi : w.table.numClientes ≤ i)
    (hone : announcements c w.log = [(w.sections, username.str)]) :
    AnnouncedOnce (.unlocked (.client c) w.sections :: w.log) c username.str := by
  obtain ⟨mid, older, cause, hsec⟩ := hsecs.opened (.client c) (hinv.holds hpc rfl)
  obtain rfl : cause = .departure username.str := by
    have hin := hsec.pc
    rw [hpc] at hin
    exact hin
  have hlast : ∀ i' msg site next done, FanoutAt (w.pc (.client c)) i' msg site next done →
      w.table.numClientes ≤ i' := by
    intro i' msg site next done hf
    rw [hpc] at hf
    cases hf
    exact hi
  refine ⟨w.sections, [], mid, older, hone, by rw [hsec.log]; rfl, hsec.inside, ?_,
    (hrounds.progress _ mid older _ hsec).delivers hsec hinv hs hlast rfl⟩
  -- the record was removed before
  intro j r hlive
  have hgone : phase w.log c = .gone := hinv.expects hpc rfl
  have hph := (phase_registered_iff hinv.core.disciplined).mpr (hsec.live_iff.mpr hlive)
  rw [hgone] at hph
  cases hph

/-- The thread goes from `p` to `p'`. -/
theorem Leaving.goes {p p' : Pc} (hl : Leaving w c (w.pc (.client c)))
    (hpc : w.pc (.client c) = p) (hpc' : w'.pc (.client c) = p')
    (h : Leaving w c p → Leaving w' c p') : Leaving w' c (w'.pc (.client c)) := by
  rw [hpc] at hl
  rw [hpc']
  exact h hl

/-- A step of the thread itself. -/
theorem Leaving.own (hl : Leaving w c (w.pc (.client c))) (hinv : Inv w) (hw : Provenance w)
    (hnames : OwnNames w) (hsecs : Sections w) (hrounds : Rounds w) (hm : Move w l w')
    (ht : l.tid = .client c) : Leaving w' c (w'.pc (.client c)) := by
  cases hm with
  | wrote | sendFail =>
    exact hl.later (.inr ⟨_, rfl, by simp⟩) fun _ => rfl
  | recvIgnored =>
    obtain rfl := Tid.client.inj ht
    exact hl.later (.inr ⟨_, rfl, by simp⟩) fun _ => rfl
  | recvActivity _ hpc | recvQuery _ hpc | recvLogout _ hpc | recvFail _ hpc | touch _ hpc
  | reactivate _ hpc | broadcast _ hpc | direct _ hpc | directMissing _ hpc | status _ hpc
  | list _ hpc | info _ hpc | directUnlock _ hpc =>
    obtain rfl := Tid.client.inj ht
    exact hl.goes hpc (Function.update_self _ _ _) id
  | fanoutSend _ hpc hf | fanoutSkip _ hpc hf =>
    obtain rfl := Tid.client.inj ht
    refine hl.goes hpc (Function.update_self _ _ _) fun hl => ?_
    cases hf <;> exact hl
  | fanoutEnd hs hpc hf hi =>
    obtain rfl := Tid.client.inj ht
    refine hl.goes hpc (Function.update_self _ _ _) fun hl => ?_
    cases hf with
    | broadcasting => exact hl
    | notifying username i =>
      -- the section of the announcement is over: everybody has been told
      obtain ⟨hown, hne, hone⟩ := hl
      exact ⟨_, hown.mono (List.subset_cons_self _ _),
        .inr ⟨hne, announcedOnce_unlock hinv hsecs hrounds hs hpc hi hone⟩⟩
  | resolve _ hpc hname =>
    obtain rfl := Tid.client.inj ht
    exact hl.goes hpc (Function.update_self _ _ _) fun hl =>
      ⟨ownName_resolve hinv hw hnames hpc hname, hl⟩
  | resolved _ hpc hname =>
    obtain rfl := Tid.client.inj ht
    exact hl.goes hpc (Function.update_self _ _ _) fun hl =>
      ⟨ownName_resolved hinv hw hnames hpc hname, hl⟩
  | remove _ hpc =>
    obtain rfl := Tid.client.inj ht
    exact hl.goes hpc (Function.update_self _ _ _) fun hl =>
      ⟨hl.1.mono (List.subset_cons_self _ _), hl.2⟩
  | @close c fd username _ hpc =>
    obtain rfl := Tid.client.inj ht
    refine hl.goes hpc (Function.update_self _ _ _) fun hl => ?_
    have hown := hl.1.mono (List.subset_cons_self (.closed c fd (w.descr fd)) _)
    -- without a name the thread ends here
    split
    · case isTrue hnil => exact ⟨_, hown, .inl ⟨hnil, hl.2⟩⟩
    · case isFalse hne => exact ⟨hown, hne, hl.2⟩
  | notify _ hpc =>
    obtain rfl := Tid.client.inj ht
    refine hl.goes hpc (Function.update_self _ _ _) fun hl => ?_
    obtain ⟨hown, hne, hnone⟩ := hl
    refine ⟨hown.mono (List.subset_cons_self _ _), hne, ?_⟩
    show announcements _ (.locked _ _ _ :: w.log) = _
    rw [announcements, if_pos rfl, hnone]
    rfl
  | accept | acceptFail | recvFirst | recvFirstFail | add | refuse | check | spawn | closeFirst
  | wake | sweepStart | sweepMark | sweepSkip | sweepEnd => cases ht

/-- A step of another thread. -/
theorem Leaving.other (hl : Leaving w c (w.pc (.client c))) (hinv : Inv w) (hm : Move w l w')
    (ht : l.tid ≠ .client c) : Leaving w' c (w'.pc (.client c)) := by
  have hlater : Leaving w' c (w.pc (.client c)) := by
    rcases hm.locking with ⟨-, hsections, -, hlog⟩ | ⟨cause, hfree, -, -, hlog, -⟩ |
      ⟨-, -, hsections, -, hlog, -⟩
    · -- no section begins or ends
      refine hl.later ?_ fun _ => hsections
      exact hlog.imp id fun ⟨e, hlog, _, hlock, _⟩ => ⟨e, hlog, fun k name => hlock _ k _⟩
    · -- a section begins, which this thread is not in
      refine hl.later (.inr ⟨_, hlog, ?_⟩) fun hlocked => ?_
      · intro k name heq
        exact ht (Event.locked.inj heq).1
      · rw [(hinv.threads _).lock.mpr hlocked] at hfree
        cases hfree
    · exact hl.later (.inr ⟨_, hlog, by simp⟩) fun _ => hsections
  rcases (hm.local_of_ne (Ne.symm ht)).2 with hsame | ⟨c', fd, heq, hspawn, hrecv⟩
  · rw [hsame]
    exact hlater
  · -- a thread that starts
    obtain rfl := Tid.client.inj heq
    have hns := (hinv.threads .main).alone rfl c (by rw [hspawn]; rfl)
    rw [hns] at hlater
    rw [hrecv]
    exact hlater

/-! ### Runs -/

/-- **Where every thread is on its way out**, in every state of a run of
well-behaved clients. -/
theorem leaving_of_run {tr : List (World × Label)} (h : Run step World.init tr w)
    (hown : StepsAll SendsOwnName tr) : ∀ c, Leaving w c (w.pc (.client c)) := by
  have hall := h.invariant_of_steps
    (I := fun w => (Inv w ∧ Provenance w ∧ OwnNames w) ∧ (FanoutCalls w ∧ Sections w ∧ Rounds w) ∧
      ∀ c, Leaving w c (w.pc (.client c)))
    ⟨⟨.init, .init, .init⟩, ⟨fun t s hs => (by cases hs), .init, .init⟩, fun _ => rfl⟩ ?_ hown
  · exact hall.2.2
  · rintro w l w' ⟨⟨hinv, hw, hnames⟩, ⟨hcalls, hsecs, hrounds⟩, hleaving⟩ hsends hs
    have hm := move_of_step hs
    refine ⟨⟨hinv.move hm, hw.move hinv hm, hnames.step hinv hw hsends hs⟩,
      ⟨fanoutCalls_step hinv hcalls hm, hsecs.step hinv hcalls hm, hrounds.step hinv hsecs hm⟩,
      fun c => ?_⟩
    by_cases ht : l.tid = .client c
    · exact (hleaving c).own hinv hw hnames hsecs hrounds hm ht
    · exact (hleaving c).other hinv hm ht

/-- What a connection has announced is its own name, once. -/
theorem Leaving.announcements {p : Pc} (hl : Leaving w c p) :
    announcements c w.log = [] ∨
      ∃ k name, OwnName w.log c name ∧ announcements c w.log = [(k, name)] := by
  cases p with
  | remove | close => exact .inl hl.2
  | notify => exact .inl hl.2.2
  | notifying => exact .inr ⟨_, _, hl.1, hl.2.2⟩
  | exited =>
    obtain ⟨name, hown, ⟨-, hnone⟩ | ⟨-, k, newer, mid, older, hone, -⟩⟩ := hl
    · exact .inl hnone
    · exact .inr ⟨k, name, hown, hone⟩
  | _ => exact .inl hl

/-- Every `CMD_DISCONNECTED` sent belongs to an announcement. -/
theorem notice_announced (h : Reachable step World.init w) {t : Tid} {s : Sending}
    {peer written : Option ℕ} {k : ℕ} (hmem : .send t s peer written k ∈ w.log)
    (hcmd : s.pkt.command = cmdDisconnected) :
    ∃ c name, t = .client c ∧ (k, name) ∈ announcements c w.log ∧
      s.pkt = notifyDisconnect name := by
  obtain ⟨hsecs, -⟩ := rounds_of_reachable h
  obtain ⟨newer, older, hlog⟩ := List.append_of_mem hmem
  have hatt := always_iff.mp (provenance_of_reachable h).sent newer _ older hlog t s peer written k
    rfl
  obtain ⟨c, i, rfl, hsite, -⟩ := notice_of_attributed hatt hcmd
  obtain ⟨mid, cause, older', rfl, -, hmsg⟩ :=
    always_iff.mp hsecs.belongs newer _ older hlog _ s peer written k rfl (by rw [hsite]; rfl)
  cases cause with
  | departure name =>
    refine ⟨c, name, rfl, mem_announcements.mpr ?_, (Option.some.inj hmsg).symm⟩
    rw [hlog]
    simp
  | broadcast req =>
    rw [← Option.some.inj hmsg] at hcmd
    cases hcmd
  | _ => cases hmsg

/-- **Departure notices.**  In every run of well-behaved clients: a registered
connection whose thread has ended has announced its name once, to everybody
else, exactly when the name is not empty; until then a connection has
announced nothing or its own name once, and one that was never registered
nothing at all; and every `CMD_DISCONNECTED` sent is part of an announcement. -/
theorem farewell_iff {tr : List (World × Label)} (h : Run step World.init tr w)
    (hown : StepsAll SendsOwnName tr) :
    (∀ c i r, Event.registered c i r ∈ w.log → w.pc (.client c) = .exited →
      (AnnouncedOnce w.log c r.username.str ↔ r.username.str ≠ [])) ∧
    (∀ c, announcements c w.log = [] ∨
      ∃ k name, OwnName w.log c name ∧ announcements c w.log = [(k, name)]) ∧
    ∀ t s peer written k, .send t s peer written k ∈ w.log → s.pkt.command = cmdDisconnected →
      ∃ c name, t = .client c ∧ (k, name) ∈ announcements c w.log ∧
        s.pkt = notifyDisconnect name := by
  refine ⟨?_, fun c => (leaving_of_run h hown c).announcements, fun t s peer written k hmem hcmd =>
    notice_announced ⟨tr, h⟩ hmem hcmd⟩
  intro c i r hr hexit
  have hl := leaving_of_run h hown c
  rw [hexit] at hl
  obtain ⟨name, ⟨j, s, hs, rfl⟩, hcases⟩ := hl
  obtain ⟨-, rfl⟩ := registered_unique (inv_of_reachable ⟨tr, h⟩).core.disciplined hr hs
  rcases hcases with ⟨hnil, hnone⟩ | ⟨hne, ha⟩
  · -- nameless: there was no announcement
    refine iff_of_false ?_ fun hne => hne hnil
    rintro ⟨k, newer, mid, older, hone, -⟩
    rw [hnone] at hone
    cases hone
  · exact iff_of_true ha hne

/-- Bob is gone. -/
def bobGone : List Label := farewell ++ [sends 1] ++ goes 1 2

/-- A user without a name joins, and its connection ends. -/
def namelessGone : List Label :=
  joining 4 (ip 1) (registerPacket []) ++ [⟨.client 0, .fail⟩] ++ goes 0 3

theorem exec_bobGone : (execIf sendsOwnName step World.init bobGone).any (fun w =>
    decide (w.pc (.client 1) = .exited)) = true := by
  decide +kernel

theorem farewell_bob : ∃ tr w, Run step World.init tr w ∧ StepsAll SendsOwnName tr ∧
    w.pc (.client 1) = .exited ∧
    (∀ c i r, Event.registered c i r ∈ w.log → w.pc (.client c) = .exited →
      (AnnouncedOnce w.log c r.username.str ↔ r.username.str ≠ [])) ∧
    (∀ c, announcements c w.log = [] ∨
      ∃ k name, OwnName w.log c name ∧ announcements c w.log = [(k, name)]) ∧
    ∀ t s peer written k, .send t s peer written k ∈ w.log → s.pkt.command = cmdDisconnected →
      ∃ c name, t = .client c ∧ (k, name) ∈ announcements c w.log ∧
        s.pkt = notifyDisconnect name := by
  obtain ⟨tr, w, hrun, -, hC, hp⟩ := exists_run_of_execIf exec_bobGone
  have hown : StepsAll SendsOwnName tr := fun x hx => sendsOwnName_sound (hC x hx)
  exact ⟨tr, w, hrun, hown, of_decide_eq_true hp, farewell_iff hrun hown⟩

theorem exec_namelessGone : (execIf sendsOwnName step World.init namelessGone).any (fun w =>
    decide (w.pc (.client 0) = .exited) && (announcements 0 w.log).isEmpty &&
      w.log.any fun e => match e with
        | .registered c _ _ => c == 0
        | _ => false) = true := by
  decide +kernel

/-- **A user without a name leaves unannounced.** -/
theorem not_always_farewell : ¬ ∀ tr w, Run step World.init tr w → StepsAll SendsOwnName tr →
    ∀ c i r, Event.registered c i r ∈ w.log → w.pc (.client c) = .exited →
      AnnouncedOnce w.log c r.username.str := by
  intro hall
  obtain ⟨tr, w, hrun, -, hC, hp⟩ := exists_run_of_execIf exec_namelessGone
  simp only [Bool.and_eq_true, decide_eq_true_eq, List.isEmpty_iff] at hp
  obtain ⟨⟨hexit, hnone⟩, hany⟩ := hp
  obtain ⟨e, he, hzero⟩ := List.any_eq_true.mp hany
  cases e with
  | registered c i r =>
    obtain rfl : c = 0 := by simpa using hzero
    obtain ⟨k, newer, mid, older, hone, -⟩ := hall tr w hrun
      (fun x hx => sendsOwnName_sound (hC x hx)) 0 i r he hexit
    rw [hnone] at hone
    cases hone
  | _ => cases hzero

end ChatSystem
