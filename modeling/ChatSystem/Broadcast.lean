/-
ChatSystem/Broadcast.lean

Who receives a broadcast, and in which order, when every `send()` takes the
whole packet.

Every section that sends to all clients has gone through them one by one
(`ChatSystem/Rounds.lean`).  Since sections do not overlap, what a connection
receives is sorted by section number (`inbox`), which is the common order.
-/
import ChatSystem.Framing
import ChatSystem.Provenance
import ChatSystem.Rounds
import Mathlib.Data.List.Sort

namespace ChatSystem

open CStr Lts

/-! ### What a connection receives -/

/-- The broadcasts and departure notices connection `c` receives, by the number
of their section, oldest first. -/
def inbox (c : ℕ) : List Event → List ℕ
  | [] => []
  | .send _ s peer written k :: h =>
    if s.site.toAll = true ∧ peer = some c ∧ written = some 1024 then inbox c h ++ [k]
    else inbox c h
  | _ :: h => inbox c h

variable {w w' : World} {l : Label} {t : Tid} {c : ℕ} {mid older : List Event} {cause : Cause}

theorem inbox_append (h h' : List Event) : inbox c (h ++ h') = inbox c h' ++ inbox c h := by
  induction h with
  | nil => simp [inbox]
  | cons e h ih =>
    cases e with
    | send t' s peer written k =>
      simp only [List.cons_append, inbox]
      split <;> simp [ih]
    | _ => exact ih

theorem number_of_mem_inbox {h : List Event} {k : ℕ} (hk : k ∈ inbox c h) :
    ∃ e ∈ h, e.number? = some k := by
  induction h with
  | nil => cases hk
  | cons e h ih =>
    have hrest : k ∈ inbox c h → ∃ e' ∈ e :: h, e'.number? = some k := by
      intro hk
      obtain ⟨e', he', hnum⟩ := ih hk
      exact ⟨e', List.mem_cons_of_mem _ he', hnum⟩
    cases e with
    | send t' s peer written k' =>
      simp only [inbox] at hk
      split at hk
      · rcases List.mem_append.mp hk with hk | hk
        · exact hrest hk
        · rw [List.mem_singleton.mp hk]
          exact ⟨_, List.mem_cons_self, rfl⟩
      · exact hrest hk
    | _ => exact hrest hk

/-- In a section only its thread sends to all. -/
theorem inbox_eq_nil (hmid : ∀ e ∈ mid, e.Inside t) (hnone : copies t c mid = []) :
    inbox c mid = [] := by
  induction mid with
  | nil => rfl
  | cons e mid ih =>
    have hrest := List.forall_mem_cons.mp hmid
    cases e with
    | send t' s peer written k =>
      have ht' : s.site.toAll = true → t' = t := hrest.1
      simp only [copies] at hnone
      split at hnone
      · simp at hnone
      · case isFalse hnot =>
        simp only [inbox]
        rw [if_neg fun hin => hnot ⟨ht' hin.1, hin.2⟩]
        exact ih hrest.2 hnone
    | _ => exact ih hrest.2 hnone

/-! ### Sections that have ended -/

/-- A section that sends to all clients begins after a packet of its connection
asking for it, while the connection is registered. -/
def Begun (e : Event) (h : List Event) : Prop :=
  ∀ t k req, e = .locked t k (.broadcast req) →
    ∃ c, t = .client c ∧ lastPacket h c = some req ∧ req.command = cmdBroadcast ∧
      ∃ i r, Live h c i r

/-- A section that ends has delivered its message. -/
def Ended (e : Event) (h : List Event) : Prop :=
  ∀ t k, e = .unlocked t k →
    ∃ mid cause older, h = mid ++ .locked t k cause :: older ∧ (∀ e ∈ mid, e.Inside t) ∧
      ∀ msg, cause.message? = some msg → Delivers t mid older msg

/-! ### The order of arrival -/

theorem inbox_cons (e : Event) (h : List Event) :
    inbox c (e :: h) = inbox c h ∨
      ∃ t s k, e = .send t s (some c) (some 1024) k ∧ s.site.toAll = true ∧
        inbox c (e :: h) = inbox c h ++ [k] := by
  cases e with
  | send t s peer written k =>
    by_cases hin : s.site.toAll = true ∧ peer = some c ∧ written = some 1024
    · obtain ⟨hall, rfl, rfl⟩ := hin
      exact .inr ⟨t, s, k, rfl, hall, by simp [inbox, hall]⟩
    · exact .inl (by simp only [inbox, if_neg hin])
  | _ => exact .inl rfl

/-- Before the call of the loop its connection has received nothing from this
section. -/
theorem Progress.fresh (hp : Progress w t mid older) (hsec : Section w t mid older cause)
    (hinv : Inv w) (hcalls : FanoutCalls w) {s : Sending} (hs : w.sending t = some s)
    (hall : s.site.toAll = true) (hc : w.descr s.fd = some c) : inbox c mid = [] := by
  obtain ⟨i, msg, site, next, done, hf, hsite, -⟩ := hcalls t s hs hall
  rcases hp (i + 1) msg site next done hf with ⟨hnone, -⟩ | ⟨s', j, hs', -, -, hslot, hsent⟩
  · rw [hs] at hnone
    cases hnone
  · obtain rfl := Option.some.inj (hs.symm.trans hs')
    obtain ⟨r, hlive⟩ := hsec.call_to hinv hs hslot hc
    refine inbox_eq_nil hsec.inside (hsent.others c fun i' r' hlive' => ?_)
    exact (hinv.represents.once c i' j r' r (hsec.live_iff.mpr hlive')
      (hsec.live_iff.mpr hlive)).1.ge

/-- A packet that arrives belongs to a later section than those before. -/
theorem ordered_step (hinv : Inv w) (hcalls : FanoutCalls w) (hsecs : Sections w)
    (hp : ∀ t mid older cause, Section w t mid older cause → Progress w t mid older)
    (h : (inbox c w.log).Pairwise (· < ·)) (hm : Move w l w') :
    (inbox c w'.log).Pairwise (· < ·) := by
  rcases hm.log_cases with hlog | ⟨e, hlog⟩
  · rw [hlog]
    exact h
  rw [hlog]
  rcases inbox_cons (c := c) e w.log with hsame | ⟨t, s, k, rfl, hall, hadd⟩
  · rw [hsame]
    exact h
  · obtain ⟨-, hs, hc, rfl⟩ := hm.send_of_log hlog
    obtain ⟨mid, older, cause, hsec⟩ := hsecs.opened t (hinv.holder_of_toAll hs hall)
    have hfresh := (hp t mid older cause hsec).fresh hsec hinv hcalls hs hall hc.symm
    rw [hadd, List.pairwise_append]
    refine ⟨h, List.pairwise_singleton _ _, fun k' hk' k hk => ?_⟩
    rw [List.mem_singleton.mp hk]
    rw [hsec.log, inbox_append, hfresh, List.append_nil] at hk'
    obtain ⟨e, he, hnum⟩ := number_of_mem_inbox (h := older) hk'
    exact always_iff.mp hsecs.numbered mid _ older hsec.log t w.sections cause rfl e he k' hnum

/-! ### The invariant -/

structure Broadcasts (w : World) : Prop where
  progress : ∀ t mid older cause, Section w t mid older cause → Progress w t mid older
  begun : Always Begun w.log
  ended : Always Ended w.log
  ordered : ∀ c, (inbox c w.log).Pairwise (· < ·)

theorem Broadcasts.init : Broadcasts World.init where
  progress := fun t mid older cause hsec => (by cases hsec.holder)
  begun := trivial
  ended := trivial
  ordered := fun _ => List.Pairwise.nil

/-- Where every `send()` takes a whole packet, it is a call that has ended. -/
theorem Whole.completed (h : Whole w) (hmid : mid ⊆ w.log) : completed mid = mid := by
  induction mid with
  | nil => rfl
  | cons e mid ih =>
    have hrest := ih fun e' he' => hmid (List.mem_cons_of_mem _ he')
    cases e with
    | send t s peer written k =>
      obtain ⟨hzero, rfl⟩ := h.sent t s peer written k (hmid List.mem_cons_self)
      have hends : s.ends (some 1024) = true := by simp [Sending.ends, hzero]
      simp only [ChatSystem.completed, hends, hrest, if_true]
    | _ => simp only [ChatSystem.completed, hrest]

theorem Whole.progress (h : Whole w) (hrounds : Rounds w) :
    ∀ t mid older cause, Section w t mid older cause → Progress w t mid older := by
  intro t mid older cause hsec
  have hprogress := hrounds.progress t mid older cause hsec
  rwa [h.completed (by rw [hsec.log]; exact List.subset_append_left _ _)] at hprogress

theorem Whole.ended (h : Whole w) (hrounds : Rounds w) : Always Ended w.log := by
  refine always_iff.mpr fun newer e rest hlog t k he => ?_
  obtain ⟨mid, cause, older, hrest, hmid, hdelivers⟩ :=
    always_iff.mp hrounds.ended newer e rest hlog t k he
  rw [h.completed (by rw [hlog, hrest]; intro e' he'; simp [he'])] at hdelivers
  exact ⟨mid, cause, older, hrest, hmid, hdelivers⟩

theorem Broadcasts.step (h : Broadcasts w) (hinv : Inv w) (hprov : Provenance w)
    (hcalls : FanoutCalls w) (hsecs : Sections w) (hm : Move w l w') (hrounds : Rounds w')
    (hwhole : Whole w') : Broadcasts w' := by
  refine ⟨hwhole.progress hrounds, ?_, hwhole.ended hrounds,
    fun c => ordered_step hinv hcalls hsecs h.progress (h.ordered c) hm⟩
  -- only the step that takes the mutex can begin a broadcast
  rcases hm.locking with ⟨-, -, -, hlog⟩ | ⟨cause, -, -, -, hlog, -, hbroadcast, -⟩ |
    ⟨-, -, -, -, hlog, -⟩
  · rcases hlog with hlog | ⟨e, hlog, -, hlock, -⟩
    · rw [hlog]
      exact h.begun
    · rw [hlog]
      exact ⟨fun t k req heq => absurd heq (hlock t k _), h.begun⟩
  · rw [hlog]
    refine ⟨?_, h.begun⟩
    rintro t k req ⟨⟩
    -- it is taken by the thread of the packet's own connection
    obtain ⟨c, fd, ht, hhandle, hcmd⟩ := hbroadcast req rfl
    rw [ht] at hhandle
    obtain ⟨i, r, hph, -⟩ : (Pc.handle fd req).Expects (phase w.log c) :=
      hinv.expects hhandle rfl
    exact ⟨c, ht, (hprov.serving_at hhandle).1, hcmd, i, r,
      (phase_registered_iff hinv.core.disciplined).mp hph⟩
  · rw [hlog]
    exact ⟨by rintro t k req ⟨⟩, h.begun⟩

/-! ### Delivery and order -/

/-- Every broadcast handled is the last packet of its client, and while it is
handled the records stay: one copy goes to each connection registered, the
client's own included, and none to any other. -/
def DeliveredOnce (h : List Event) : Prop :=
  ∀ newer mid older t k req,
    h = newer ++ .unlocked t k :: (mid ++ .locked t k (.broadcast req) :: older) →
    (∃ c, t = .client c ∧ lastPacket older c = some req ∧ req.command = cmdBroadcast ∧
      ∃ i r, Live older c i r) ∧
    (∀ e ∈ mid, e.Inside t) ∧ Delivers t mid older (handleBroadcast req)

/-- Two connections that both receive two messages receive them in one order. -/
def SameOrder (h : List Event) : Prop :=
  ∀ c₁ c₂ j k, [j, k].Sublist (inbox c₁ h) → j ∈ inbox c₂ h → k ∈ inbox c₂ h →
    [j, k].Sublist (inbox c₂ h)

/-- Two broadcasts of one client are received in the order they are handled. -/
def SenderOrder (h : List Event) : Prop :=
  ∀ newer mid older c j k req req',
    h = newer ++ .locked (.client c) k (.broadcast req') ::
      (mid ++ .locked (.client c) j (.broadcast req) :: older) →
    ∀ c', j ∈ inbox c' h → k ∈ inbox c' h → [j, k].Sublist (inbox c' h)

theorem pair_sublist {xs : List ℕ} (hxs : xs.Pairwise (· < ·)) {j k : ℕ} (hj : j ∈ xs)
    (hk : k ∈ xs) (hjk : j < k) : [j, k].Sublist xs := by
  have hpair : [j, k].Pairwise (· < ·) := List.pairwise_pair.mpr hjk
  refine List.sublist_of_subperm_of_pairwise ?_ hpair hxs
  refine List.subperm_of_subset hpair.nodup ?_
  simp [hj, hk]

theorem Broadcasts.deliveredOnce (h : Broadcasts w) (hsecs : Sections w) :
    DeliveredOnce w.log := by
  intro newer mid older t k req hlog
  have hbegun : Begun (.locked t k (.broadcast req)) older :=
    always_iff.mp h.begun (newer ++ .unlocked t k :: mid) _ older (by rw [hlog]; simp)
  obtain ⟨mid₀, cause, older₀, heq, hinside, hdelivers⟩ :=
    always_iff.mp h.ended newer _ _ hlog t k rfl
  have hnum : Always Numbered (mid ++ .locked t k (.broadcast req) :: older) := by
    refine always_iff.mpr fun newer' e older' heq' => ?_
    exact always_iff.mp hsecs.numbered (newer ++ .unlocked t k :: newer') e older'
      (by rw [hlog, heq']; simp)
  obtain ⟨rfl, rfl, rfl⟩ := beginning_unique hnum heq hinside rfl
  exact ⟨hbegun t k req rfl, hinside, hdelivers _ rfl⟩

theorem Broadcasts.sameOrder (h : Broadcasts w) : SameOrder w.log := by
  intro c₁ c₂ j k hsub hj hk
  have hjk : j < k := List.pairwise_pair.mp ((h.ordered c₁).sublist hsub)
  exact pair_sublist (h.ordered c₂) hj hk hjk

theorem Broadcasts.senderOrder (h : Broadcasts w) (hsecs : Sections w) :
    SenderOrder w.log := by
  intro newer mid older c j k req req' hlog c' hj hk
  have hjk : j < k := always_iff.mp hsecs.numbered newer _ _ hlog (.client c) k _ rfl
    (.locked (.client c) j (.broadcast req)) (by simp) j rfl
  exact pair_sublist (h.ordered c') hj hk hjk

/-- The registered connections are those a record in the table denotes. -/
theorem Inv.live_iff_active (h : Inv w) :
    (∃ i r, Live w.log c i r) ↔ ∃ i r, w.table.Active i r ∧ w.descr r.sockfd = some c := by
  constructor
  · rintro ⟨i, r₀, hlive⟩
    have hph := (phase_registered_iff h.core.disciplined).mpr hlive
    obtain ⟨-, r, hr, hid⟩ := h.core.live c i r₀ hph
    exact ⟨i, r, hr, (h.core.descr _ _).mpr (by rw [hph, hid.2.2]; rfl)⟩
  · rintro ⟨i, r, hr, hc⟩
    obtain ⟨c', r₀, hph, -, hdescr, -⟩ := h.core.owner hr
    obtain rfl := Option.some.inj (hc.symm.trans hdescr)
    exact ⟨i, r₀, (phase_registered_iff h.core.disciplined).mp hph⟩

/-- **Broadcast delivery and total order.**  In every run that sends packets at
once: a broadcast handled reaches each connection in the table once and no
other; whatever is sent to all is the message of the section in progress; and
these messages arrive in one order everywhere, which for one client is the
order in which its broadcasts are handled. -/
theorem broadcasts_of_run {tr : List (World × Label)} {w : World}
    (h : Run step World.init tr w) (ha : StepsAll Atomic tr) :
    (∀ c, (∃ i r, Live w.log c i r) ↔
      ∃ i r, w.table.Active i r ∧ w.descr r.sockfd = some c) ∧
    DeliveredOnce w.log ∧ Always Numbered w.log ∧ Always Belongs w.log ∧
    SameOrder w.log ∧ SenderOrder w.log := by
  have hall := h.invariant_of_steps
    (I := fun w => Inv w ∧ Provenance w ∧ FanoutCalls w ∧ Sections w ∧ Rounds w ∧ Whole w ∧
      Broadcasts w)
    ⟨.init, .init, fun t s hs => (by cases hs), .init, .init, .init, .init⟩ ?_ ha
  · obtain ⟨hinv, -, -, hsecs, -, -, hb⟩ := hall
    exact ⟨fun c => hinv.live_iff_active, hb.deliveredOnce hsecs, hsecs.numbered,
      hsecs.belongs, hb.sameOrder, hb.senderOrder hsecs⟩
  · rintro w l w' ⟨hinv, hprov, hcalls, hsecs, hrounds, hwhole, hb⟩ hatomic hs
    have hm := move_of_step hs
    have hrounds' := hrounds.step hinv hsecs hm
    have hwhole' := hwhole.step hatomic hm
    exact ⟨hinv.move hm, hprov.move hinv hm, fanoutCalls_step hinv hcalls hm,
      hsecs.step hinv hcalls hm, hrounds', hwhole',
      hb.step hinv hprov hcalls hsecs hm hrounds' hwhole'⟩

/-- Bob's broadcast reaches Alice and himself. -/
theorem broadcasts_greeting : ∃ tr w, Run step World.init tr w ∧
    inbox 0 w.log = [1] ∧ inbox 1 w.log = [1] ∧
    (∀ c, (∃ i r, Live w.log c i r) ↔
      ∃ i r, w.table.Active i r ∧ w.descr r.sockfd = some c) ∧
    DeliveredOnce w.log ∧ Always Numbered w.log ∧ Always Belongs w.log ∧
    SameOrder w.log ∧ SenderOrder w.log := by
  have hexec : (exec step World.init greeting).any (fun w =>
      inbox 0 w.log == [1] && inbox 1 w.log == [1]) = true := by decide +kernel
  obtain ⟨tr, w, hrun, hls, hp⟩ := exists_run hexec
  simp only [Bool.and_eq_true, beq_iff_eq] at hp
  exact ⟨tr, w, hrun, hp.1, hp.2, broadcasts_of_run hrun
    (atomic_of_labels hrun hls (by decide +kernel))⟩

end ChatSystem
