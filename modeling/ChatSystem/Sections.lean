/-
ChatSystem/Sections.lean

The critical sections that send, in the history.  Each begins with a `locked`
event, ends with an `unlocked` event of the same thread and number, and in
between no other thread takes the mutex, registers or removes a record, or
sends to all clients (`Event.Inside`).

* `Locking` — what a step does about the mutex: nothing, take it or release
  it;
* `Section` — the section in progress, with the events since its beginning and
  what its thread is about;
* `Sections` — the invariant: there is one while the mutex is taken, and
  sections are numbered in the order they begin.
-/
import ChatSystem.Fanout
import ChatSystem.Representation

namespace ChatSystem

open CStr Lts

/-! ### One section -/

/-- The message of a section that sends to all clients. -/
def Cause.message? : Cause → Option ChatPacket
  | broadcast req => some (handleBroadcast req)
  | departure name => some (notifyDisconnect name)
  | direct _ | sweep _ => none

/-- The program points of the section begun for a cause. -/
def Pc.InSection : Pc → Cause → Prop
  | broadcasting _ pkt _, cause => cause = .broadcast pkt
  | directUnlock _, cause => ∃ req, cause = .direct req
  | notifying username _, cause => cause = .departure username.str
  | sweep now _, cause => cause = .sweep now
  | _, _ => False

/-- What may happen while thread `t` is in a section. -/
def Event.Inside (t : Tid) : Event → Prop
  | registered .. | removed .. | locked .. | unlocked .. => False
  | send t' s _ _ _ => s.site.toAll = true → t' = t
  | _ => True

/-- The section an event is counted in. -/
def Event.number? : Event → Option ℕ
  | locked _ k _ | unlocked _ k | send _ _ _ _ k => some k
  | _ => none

theorem FanoutAt.message {p : Pc} {i : ℕ} {msg : ChatPacket} {site : ℕ → Site}
    {next done : Pc} (hf : FanoutAt p i msg site next done) {cause : Cause}
    (hp : p.InSection cause) : cause.message? = some msg := by
  cases hf with
  | broadcasting =>
    subst hp
    rfl
  | notifying username =>
    subst hp
    exact congrArg some (notifyDisconnect_str username)

/-- A section that sends to all clients is one of the loops. -/
theorem Pc.InSection.fanoutAt {p : Pc} {cause : Cause} {msg : ChatPacket}
    (hp : p.InSection cause) (hmsg : cause.message? = some msg) :
    ∃ i msg' site next done, FanoutAt p i msg' site next done := by
  cases p <;> simp only [InSection] at hp
  case broadcasting fd pkt i => exact ⟨i, _, _, _, _, .broadcasting fd pkt i⟩
  case notifying username i => exact ⟨i, _, _, _, _, .notifying username i⟩
  case directUnlock =>
    obtain ⟨req, rfl⟩ := hp
    cases hmsg
  case sweep =>
    subst hp
    cases hmsg

/-! ### Taking and releasing the mutex -/

variable {w w' : World} {l : Label}

/-- What a step does about the mutex. -/
inductive Locking (w : World) (l : Label) (w' : World) : Prop
  | kept (hmutex : w'.mutexLista = w.mutexLista) (hsections : w'.sections = w.sections)
      (hpc : ∀ cause, (w.pc l.tid).InSection cause → (w'.pc l.tid).InSection cause)
      (hlog : w'.log = w.log ∨ ∃ e, w'.log = e :: w.log ∧
        (w.mutexLista = none ∨ (∀ c i r, e ≠ .registered c i r) ∧ ∀ c, e ≠ .removed c) ∧
        (∀ t k cause, e ≠ .locked t k cause) ∧ ∀ t k, e ≠ .unlocked t k)
  | took (cause : Cause) (hfree : w.mutexLista = none) (hmutex : w'.mutexLista = some l.tid)
      (hsections : w'.sections = w.sections + 1)
      (hlog : w'.log = .locked l.tid (w.sections + 1) cause :: w.log)
      (hpc : (w'.pc l.tid).InSection cause)
      (hbroadcast : ∀ req, cause = .broadcast req → ∃ c fd, l.tid = .client c ∧
        w.pc l.tid = .handle fd req ∧ req.command = cmdBroadcast)
      (hfirst : ∀ i msg site next done, FanoutAt (w'.pc l.tid) i msg site next done →
        i = 0 ∧ w'.sending l.tid = none)
  | released (hidle : w.sending l.tid = none) (hmutex : w'.mutexLista = none)
      (hsections : w'.sections = w.sections) (hlocked : (w.pc l.tid).locked = true)
      (hlog : w'.log = .unlocked l.tid w.sections :: w.log)
      (hlast : ∀ i msg site next done, FanoutAt (w.pc l.tid) i msg site next done →
        w.table.numClientes ≤ i)

/-- The following iteration is in the same section. -/
theorem FanoutAt.inSection_next {p : Pc} {i : ℕ} {msg : ChatPacket} {site : ℕ → Site}
    {next done : Pc} (hf : FanoutAt p i msg site next done) {cause : Cause}
    (hp : p.InSection cause) : next.InSection cause := by
  cases hf <;> exact hp

theorem Move.locking (h : Move w l w') : Locking w l w' := by
  cases h with
  | wrote | sendFail =>
    exact .kept rfl rfl (fun _ hp => hp)
      (.inr ⟨_, rfl, .inr ⟨by simp, by simp⟩, by simp, by simp⟩)
  | acceptFail => exact .kept rfl rfl (fun _ hp => hp) (.inl rfl)
  -- the two events that wait for the mutex
  | add hs hpc hm | remove hs hpc hm =>
    refine .kept rfl rfl (fun _ hp => ?_) (.inr ⟨_, rfl, .inl hm, by simp, by simp⟩)
    simp [hpc, Pc.InSection] at hp
  | accept hs hpc | recvFirst hs hpc | recvFirstFail hs hpc | refuse hs hpc | check hs hpc
  | closeFirst hs hpc | recvActivity hs hpc | recvQuery hs hpc | recvLogout hs hpc
  | recvIgnored hs hpc | recvFail hs hpc | close hs hpc =>
    refine .kept rfl rfl (fun _ hp => ?_)
      (.inr ⟨_, rfl, .inr ⟨by simp, by simp⟩, by simp, by simp⟩)
    simp [hpc, Pc.InSection] at hp
  | spawn hs hpc | touch hs hpc | reactivate hs hpc | directMissing hs hpc | status hs hpc
  | list hs hpc | info hs hpc | resolve hs hpc | resolved hs hpc | wake hs hpc =>
    refine .kept rfl rfl (fun _ hp => ?_) (.inl rfl)
    simp [hpc, Pc.InSection] at hp
  -- inside a section
  | fanoutSend hs hpc hf | fanoutSkip hs hpc hf =>
    refine .kept rfl rfl (fun _ hp => ?_) (.inl rfl)
    rw [hpc] at hp
    simpa [World.call, World.goto] using hf.inSection_next hp
  | sweepMark hs hpc | sweepSkip hs hpc =>
    refine .kept rfl rfl (fun _ hp => ?_) (.inl rfl)
    simpa [hpc, World.call, World.goto, World.setTable, Pc.InSection] using hp
  -- the four ways to begin one
  | @broadcast c fd pkt hs hpc hm hcmd =>
    refine .took (.broadcast pkt) hm rfl rfl rfl ?_ ?_ ?_
    · simp [World.goto, World.lock, Pc.InSection]
    · rintro req ⟨⟩
      exact ⟨c, fd, rfl, hpc, hcmd⟩
    · intro i msg site next done hf
      simp only [World.goto, World.lock, Function.update_self] at hf
      cases hf
      exact ⟨rfl, hs⟩
  | @direct c fd pkt i r hs hpc hm =>
    refine .took (.direct pkt) hm rfl rfl rfl ?_ (by simp) ?_
    · simp [World.call, World.goto, World.lock, Pc.InSection]
    · intro i msg site next done hf
      simp only [World.call, World.goto, World.lock, Function.update_self] at hf
      cases hf
  | @notify c username hs hpc hm =>
    refine .took (.departure username.str) hm rfl rfl rfl ?_ (by simp) ?_
    · simp [World.goto, World.lock, Pc.InSection]
    · intro i msg site next done hf
      simp only [World.goto, World.lock, Function.update_self] at hf
      cases hf
      exact ⟨rfl, hs⟩
  | @sweepStart now hs hpc hm =>
    refine .took (.sweep now) hm rfl rfl rfl ?_ (by simp) ?_
    · simp [World.goto, World.lock, Pc.InSection]
    · intro i msg site next done hf
      simp only [World.goto, World.lock, Function.update_self] at hf
      cases hf
  -- and the ways to end one
  | fanoutEnd hs hpc hf hi =>
    refine .released hs rfl rfl (by rw [hpc]; exact hf.spec.1) rfl ?_
    intro i msg site next done hf'
    rw [hpc] at hf'
    rw [← (hf.unique hf').1]
    exact hi
  | directUnlock hs hpc | sweepEnd hs hpc =>
    refine .released hs rfl rfl (by rw [hpc]; rfl) rfl ?_
    intro i msg site next done hf
    rw [hpc] at hf
    cases hf

/-! ### The section in progress -/

/-- Thread `t` is in section `w.sections`, begun for `cause` after `older`; the
events since are `mid`. -/
structure Section (w : World) (t : Tid) (mid older : List Event) (cause : Cause) : Prop where
  holder : w.mutexLista = some t
  log : w.log = mid ++ .locked t w.sections cause :: older
  inside : ∀ e ∈ mid, e.Inside t
  pc : (w.pc t).InSection cause

variable {t : Tid} {mid older : List Event} {cause : Cause}

/-- A history has one latest `locked` event. -/
theorem latest_locked_unique {mid' older' : List Event} {t' : Tid} {k k' : ℕ} {cause' : Cause}
    (hmid : ∀ e ∈ mid, e.Inside t) (hmid' : ∀ e ∈ mid', e.Inside t')
    (heq : mid ++ .locked t k cause :: older = mid' ++ .locked t' k' cause' :: older') :
    mid = mid' ∧ cause = cause' ∧ older = older' := by
  rcases List.append_eq_append_iff.mp heq with ⟨rest, rfl, hrest⟩ | ⟨rest, rfl, hrest⟩
  · rcases rest with - | ⟨e, rest⟩
    · simp at hrest
      simp [hrest]
    · obtain ⟨rfl, -⟩ := List.cons.inj hrest
      exact absurd (hmid' (.locked t k cause) (by simp)) id
  · rcases rest with - | ⟨e, rest⟩
    · simp at hrest
      simp [hrest]
    · obtain ⟨rfl, -⟩ := List.cons.inj hrest
      exact absurd (hmid (.locked t' k' cause') (by simp)) id

theorem Section.unique {mid' older' : List Event} {cause' : Cause}
    (h : Section w t mid older cause) (h' : Section w t mid' older' cause') :
    mid = mid' ∧ cause = cause' ∧ older = older' :=
  latest_locked_unique h.inside h'.inside (h.log.symm.trans h'.log)

/-- A call to all clients is made inside a section. -/
theorem Inv.holder_of_toAll (h : Inv w) {s : Sending} (hs : w.sending t = some s)
    (hall : s.site.toAll = true) : w.mutexLista = some t := by
  have hok := (h.threads t).sends s hs
  unfold SendOk at hok
  cases hsite : s.site <;> simp only [hsite, Site.toAll, Bool.false_eq_true] at hall <;>
    exact (h.threads t).lock.mpr (by simp only [hsite, Site.slot?] at hok; exact hok.1)

/-- A step of the thread in the section ends it, or the section goes on, with at
most one more event. -/
theorem Section.step (h : Section w t mid older cause) (hinv : Inv w) (hm : Move w l w') :
    (l.tid = t ∧ w'.mutexLista = none) ∨
    (Section w' t mid older cause ∧ w'.log = w.log) ∨
    ∃ e, Section w' t (e :: mid) older cause ∧ w'.log = e :: w.log := by
  -- only the thread itself moves on in its section
  have hpc' : (∀ cause, (w.pc l.tid).InSection cause → (w'.pc l.tid).InSection cause) →
      (w'.pc t).InSection cause := by
    intro hown
    rcases eq_or_ne t l.tid with rfl | hne
    · exact hown cause h.pc
    · rcases (hm.local_of_ne hne).2 with hsame | ⟨c, fd, rfl, hspawn, -⟩
      · rw [hsame]
        exact h.pc
      · have hns := (hinv.threads .main).alone rfl c (by rw [hspawn]; rfl)
        have hin := h.pc
        rw [hns] at hin
        cases hin
  rcases hm.locking with ⟨hmutex, hsections, hown, hlog⟩ | ⟨_, hfree, -⟩ |
    ⟨-, hmutex, -, hlocked, -⟩
  · -- a step that leaves the mutex alone goes on with the section
    have hpc := hpc' hown
    rcases hlog with hlog | ⟨e, hlog, hrecord, hlock, hunlock⟩
    · refine .inr (.inl ⟨⟨hmutex.trans h.holder, ?_, h.inside, hpc⟩, hlog⟩)
      rw [hlog, hsections]
      exact h.log
    · refine .inr (.inr ⟨e, ⟨hmutex.trans h.holder, ?_, ?_, hpc⟩, hlog⟩)
      · rw [hlog, hsections, h.log]
        rfl
      · intro e' he'
        rcases List.mem_cons.mp he' with rfl | he'
        · -- registering and removing wait for the mutex
          obtain ⟨hreg, hrem⟩ := hrecord.resolve_left (by rw [h.holder]; simp)
          cases e' with
          | registered c i r => exact hreg c i r rfl
          | removed c => exact hrem c rfl
          | locked t' k cause => exact hlock t' k cause rfl
          | unlocked t' k => exact hunlock t' k rfl
          | send t' s peer written k =>
            intro hall
            obtain ⟨-, hs, -⟩ := hm.send_of_log hlog
            have hheld := hinv.holder_of_toAll hs hall
            rw [h.holder] at hheld
            exact (Option.some.inj hheld).symm
          | _ => trivial
        · exact h.inside e' he'
  · rw [h.holder] at hfree
    cases hfree
  · -- only the holder releases the mutex
    have hheld := (hinv.threads l.tid).lock.mpr hlocked
    rw [h.holder] at hheld
    exact .inl ⟨(Option.some.inj hheld).symm, hmutex⟩

/-- A `send()` stays in the section. -/
theorem Section.sends (h : Section w t mid older cause) (hinv : Inv w) (hm : Move w l w')
    {s : Sending} (hs : w.sending l.tid = some s) :
    ∃ e, Section w' t (e :: mid) older cause ∧ w'.log = e :: w.log := by
  rcases h.step hinv hm with ⟨-, hreleased⟩ | ⟨-, hsame⟩ | hnext
  · rcases hm.locking with ⟨hmutex, -⟩ | ⟨_, hfree, -⟩ | ⟨hidle, -⟩
    · rw [hmutex, h.holder] at hreleased
      cases hreleased
    · rw [h.holder] at hfree
      cases hfree
    · rw [hs] at hidle
      cases hidle
  · obtain ⟨written, hlog⟩ := hm.log_of_sending hs
    rw [hsame] at hlog
    exact absurd hlog.symm (List.cons_ne_self _ _)
  · exact hnext

/-- Nobody is registered or removed inside a section. -/
theorem live_of_inside {c i : ℕ} {r : Cliente} {k : ℕ}
    (hmid : ∀ e ∈ mid, e.Inside t) :
    Live (mid ++ .locked t k cause :: older) c i r ↔ Live older c i r := by
  have hreg : Event.registered c i r ∉ mid := fun hmem => hmid _ hmem
  have hrem : Event.removed c ∉ mid := fun hmem => hmid _ hmem
  simp [Live, hreg, hrem]

/-! ### All sections -/

/-- A section has a greater number than everything before it. -/
def Numbered (e : Event) (h : List Event) : Prop :=
  ∀ t k cause, e = .locked t k cause → ∀ e' ∈ h, ∀ k', e'.number? = some k' → k' < k

/-- A packet sent to all clients is the message of the section in progress. -/
def Belongs (e : Event) (h : List Event) : Prop :=
  ∀ t s peer written k, e = .send t s peer written k → s.site.toAll = true →
    ∃ mid cause older, h = mid ++ .locked t k cause :: older ∧ (∀ e ∈ mid, e.Inside t) ∧
      cause.message? = some s.pkt

/-- A numbered section has one beginning. -/
theorem beginning_unique {h mid' older' : List Event} {k : ℕ} {cause' : Cause}
    (hnum : Always Numbered h) (heq : h = mid ++ .locked t k cause :: older)
    (hmid : ∀ e ∈ mid, e.Inside t) (heq' : h = mid' ++ .locked t k cause' :: older') :
    mid = mid' ∧ cause = cause' ∧ older = older' := by
  rcases List.append_eq_append_iff.mp (heq.symm.trans heq') with
    ⟨rest, rfl, hrest⟩ | ⟨rest, rfl, hrest⟩
  · rcases rest with - | ⟨e, rest⟩
    · simp at hrest
      simp [hrest]
    · -- the other beginning would be among the older events
      obtain ⟨rfl, rfl⟩ := List.cons.inj hrest
      have hlt := always_iff.mp hnum mid _ _ heq t k cause rfl (.locked t k cause') (by simp) k rfl
      exact absurd hlt (lt_irrefl k)
  · rcases rest with - | ⟨e, rest⟩
    · simp at hrest
      simp [hrest]
    · obtain ⟨rfl, -⟩ := List.cons.inj hrest
      exact absurd (hmid (.locked t k cause') (by simp)) id

structure Sections (w : World) : Prop where
  opened : ∀ t, w.mutexLista = some t → ∃ mid older cause, Section w t mid older cause
  bounded : ∀ e ∈ w.log, ∀ k, e.number? = some k → k ≤ w.sections
  numbered : Always Numbered w.log
  belongs : Always Belongs w.log

theorem Sections.init : Sections World.init where
  opened := fun t ht => (by cases ht)
  bounded := fun e he => (by cases he)
  numbered := trivial
  belongs := trivial

theorem Sections.opened_step (h : Sections w) (hinv : Inv w) (hm : Move w l w') :
    ∀ t, w'.mutexLista = some t → ∃ mid older cause, Section w' t mid older cause := by
  intro t ht
  rcases hm.locking with ⟨hmutex, -⟩ | ⟨cause, -, hmutex, hsections, hlog, hpc, -⟩ |
    ⟨-, hmutex, -⟩
  · obtain ⟨mid, older, cause, hsec⟩ := h.opened t (hmutex ▸ ht)
    rcases hsec.step hinv hm with ⟨-, hfree⟩ | ⟨hsec', -⟩ | ⟨e, hsec', -⟩
    · rw [hfree] at ht
      cases ht
    · exact ⟨mid, older, cause, hsec'⟩
    · exact ⟨e :: mid, older, cause, hsec'⟩
  · -- a section that has just begun
    rw [hmutex] at ht
    obtain rfl := Option.some.inj ht
    exact ⟨[], w.log, cause, hmutex, by rw [hlog, hsections]; rfl, by simp, hpc⟩
  · rw [hmutex] at ht
    cases ht

/-- What is sent to all clients is sent by the thread in the section. -/
theorem Sections.belongs_send (h : Sections w) (hinv : Inv w) (hcalls : FanoutCalls w)
    {s : Sending} (hs : w.sending t = some s) (peer : Option ℕ) (written : Option ℕ) :
    Belongs (.send t s peer written w.sections) w.log := by
  rintro t' s' peer' written' k ⟨⟩ hall
  obtain ⟨mid, older, cause, hsec⟩ := h.opened t (hinv.holder_of_toAll hs hall)
  obtain ⟨i, msg, site, next, done, hf, -, hpkt⟩ := hcalls t s hs hall
  exact ⟨mid, cause, older, hsec.log, hsec.inside, by rw [hpkt]; exact hf.message hsec.pc⟩

theorem Sections.step (h : Sections w) (hinv : Inv w) (hcalls : FanoutCalls w)
    (hm : Move w l w') : Sections w' := by
  have hbounded : ∀ e ∈ w.log, ∀ k, e.number? = some k → k ≤ w'.sections := by
    intro e he k hk
    have hle := h.bounded e he k hk
    rcases hm.locking with ⟨-, hsections, -⟩ | ⟨_, -, -, hsections, -⟩ | ⟨-, -, hsections, -⟩ <;>
      omega
  rcases hm.locking with ⟨-, hsections, -, hlog⟩ | ⟨cause, -, -, hsections, hlog, -⟩ |
    ⟨-, -, hsections, -, hlog, -⟩
  · rcases hlog with hlog | ⟨e, hlog, -, hlock, hunlock⟩
    · exact ⟨h.opened_step hinv hm, by rwa [hlog], by rw [hlog]; exact h.numbered,
        by rw [hlog]; exact h.belongs⟩
    · refine ⟨h.opened_step hinv hm, ?_, ?_, ?_⟩
      · rw [hlog]
        intro e' he' k hk
        rcases List.mem_cons.mp he' with rfl | he'
        · -- of the numbered events this can only be a `send()`
          cases e' <;> simp only [Event.number?, Option.some.injEq, reduceCtorEq] at hk
          case locked => exact absurd rfl (hlock _ _ _)
          case unlocked => exact absurd rfl (hunlock _ _)
          case send =>
            obtain ⟨-, -, -, hnum⟩ := hm.send_of_log hlog
            omega
        · exact hbounded e' he' k hk
      · rw [hlog]
        exact ⟨fun t k cause heq => absurd heq (hlock t k cause), h.numbered⟩
      · rw [hlog]
        refine ⟨?_, h.belongs⟩
        rintro t s peer written k rfl hall
        obtain ⟨-, hs, -, rfl⟩ := hm.send_of_log hlog
        exact h.belongs_send hinv hcalls hs peer written t s peer written _ rfl hall
  · refine ⟨h.opened_step hinv hm, ?_, ?_, ?_⟩
    · rw [hlog]
      intro e he k hk
      rcases List.mem_cons.mp he with rfl | he
      · obtain rfl := Option.some.inj hk
        exact hsections.ge
      · exact hbounded e he k hk
    · rw [hlog]
      refine ⟨?_, h.numbered⟩
      -- the new section's number is one more than any before
      rintro t k cause ⟨⟩ e he k' hk'
      exact Nat.lt_succ_of_le (h.bounded e he k' hk')
    · rw [hlog]
      exact ⟨by rintro t s peer written k ⟨⟩, h.belongs⟩
  · refine ⟨h.opened_step hinv hm, ?_, ?_, ?_⟩
    · rw [hlog]
      intro e he k hk
      rcases List.mem_cons.mp he with rfl | he
      · obtain rfl := Option.some.inj hk
        exact hsections.ge
      · exact hbounded e he k hk
    · rw [hlog]
      exact ⟨by rintro t k cause ⟨⟩, h.numbered⟩
    · rw [hlog]
      exact ⟨by rintro t s peer written k ⟨⟩, h.belongs⟩

end ChatSystem
