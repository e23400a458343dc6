/-
ChatSystem/Welcome.lean

The first packet a client gets.  `cl_add` makes the record visible to every
thread that fans out and releases the mutex before `send_ok` runs; a thread
that sends in between is heard first.

`welcomed_iff`: in a run the first `send()` on every connection that asked for
registration is the reply to its `REGISTER`, in every state, exactly when no
other thread's `send()` falls on a connection whose reply is still unsent
(`LeavesReplyFirst`).  `not_always_welcomed` is a run in which a broadcast
arrives before the welcome.
-/
import ChatSystem.Provenance
import ChatSystem.Descriptors

namespace ChatSystem

open CStr Lts

/-! ### The reply to a REGISTER -/

/-- The first `send()` on connection `c`. -/
def firstSend : List Event → ℕ → Option Sending
  | [], _ => none
  | .send _ s peer _ _ :: h, c =>
    match firstSend h c with
    | some s₀ => some s₀
    | none => if peer = some c then some s else none
  | _ :: h, c => firstSend h c

/-- `REGISTER` of connection `c` was accepted. -/
def Accepted (h : List Event) (c : ℕ) : Prop := ∃ i r, Event.registered c i r ∈ h

/-- The call `s` is the reply to the `REGISTER` packet `pkt` of connection `c`:
`CMD_OK` when it was accepted, `CMD_ERROR` when not. -/
def Answers (h : List Event) (c : ℕ) (pkt : ChatPacket) (s : Sending) : Prop :=
  ∃ rc, s.site = .register rc ∧ s.pkt = registerReply rc pkt ∧ (rc = 0 ↔ Accepted h c)

/-- The first packet received on connection `c` is the `REGISTER` packet
`pkt`. -/
def Asked (h : List Event) (c : ℕ) (pkt : ChatPacket) : Prop :=
  ∃ fd, Event.received .main fd (some c) pkt ∈ h

/-- Every connection that asked for registration hears the reply first. -/
def Welcomed (w : World) : Prop :=
  ∀ c pkt s, Asked w.log c pkt → pkt.command = cmdRegister → firstSend w.log c = some s →
    Answers w.log c pkt s

/-- No other thread's `send()` falls on a connection whose reply to `REGISTER`
is pending with nothing of it sent. -/
def LeavesReplyFirst (w : World) (l : Label) : Prop :=
  ∀ s c s', l.tid ≠ .main → w.sending l.tid = some s → w.descr s.fd = some c →
    w.sending .main = some s' → w.descr s'.fd = some c → s'.total ≠ 0

/-! ### The first `send()` in the history -/

variable {h : List Event} {e : Event} {c : ℕ}

theorem firstSend_cons_of_not_isSend (he : ¬ e.IsSend) (c : ℕ) :
    firstSend (e :: h) c = firstSend h c := by
  cases e <;> first | rfl | exact absurd trivial he

theorem firstSend_cons_of_some {s₀ : Sending} (hs : firstSend h c = some s₀) :
    firstSend (e :: h) c = some s₀ := by
  cases e <;> simp only [firstSend, hs]

/-- The first `send()` is in the history. -/
theorem mem_of_firstSend {s : Sending} (hs : firstSend h c = some s) :
    ∃ t written k, Event.send t s (some c) written k ∈ h := by
  induction h with
  | nil => cases hs
  | cons e h ih =>
    rcases hfirst : firstSend h c with - | s₀
    · by_cases he : e.IsSend
      · cases e <;> simp only [Event.IsSend] at he
        case send t s' peer written k =>
          simp only [firstSend, hfirst] at hs
          split at hs
          · case isTrue hpeer =>
            obtain rfl := Option.some.inj hs
            exact ⟨t, written, k, by rw [hpeer]; exact List.mem_cons_self⟩
          · cases hs
      · rw [firstSend_cons_of_not_isSend he, hfirst] at hs
        cases hs
    · rw [firstSend_cons_of_some hfirst] at hs
      obtain ⟨t, written, k, hmem⟩ := ih (hfirst.trans hs)
      exact ⟨t, written, k, List.mem_cons_of_mem _ hmem⟩

theorem firstSend_eq_none_of_fresh (hd : Always Allowed h) (hfresh : phase h c = .fresh) :
    firstSend h c = none := by
  rcases hs : firstSend h c with - | s
  · rfl
  · obtain ⟨t, written, k, hmem⟩ := mem_of_firstSend hs
    exact absurd hfresh (phase_ne_fresh_of_peer hd hmem (.inr ⟨t, s, written, k, rfl⟩))

theorem not_asked_of_fresh (hd : Always Allowed h) (hfresh : phase h c = .fresh)
    (pkt : ChatPacket) : ¬ Asked h c pkt := by
  rintro ⟨fd, hmem⟩
  exact phase_ne_fresh_of_peer hd hmem (.inl ⟨.main, fd, pkt, rfl⟩) hfresh

/-- The connection whose `REGISTER` the accept loop waits for or handles. -/
def Pc.awaited? : Pc → Option ℕ
  | recvFirst c _ _ | register c _ _ _ => some c
  | _ => none

/-- No other thread sends to that connection. -/
theorem Inv.not_sent_awaited {w : World} (hinv : Inv w) (hc : (w.pc .main).awaited? = some c)
    {t : Tid} (ht : t ≠ .main) {s : Sending} (hs : w.sending t = some s) :
    w.descr s.fd ≠ some c := by
  intro hdescr
  -- `main` is in charge of a connection whose reply it owes
  have hown : (w.pc .main).conn? .main = some c := by
    cases hp : w.pc .main <;> simp_all [Pc.awaited?, Pc.conn?]
  have hconn : ∃ fd ip, phase w.log c = .connected fd ip := by
    have hexp := hinv.expects rfl hown
    cases hp : w.pc .main <;> simp_all [Pc.awaited?, Pc.Expects]
  obtain ⟨fd, ip, hph⟩ := hconn
  rcases hslot : s.site.slot? with - | i
  · rcases hinv.send_serves hs hdescr hslot with hmain | hclient
    · exact ht hmain
    · -- the connection's own thread has not started
      have hns := (hinv.threads .main).alone rfl c hown
      have hok := (hinv.threads t).sends s hs
      rw [hclient, hns] at hok
      unfold SendOk at hok
      split at hok <;> simp [Pc.locked, Pc.fd?] at hok
  · -- a call for a slot goes to a registered connection, and this one is not
    obtain ⟨r, hreg⟩ := hinv.send_registered hs hdescr hslot
    rw [hph] at hreg
    cases hreg

/-! ### The invariant -/

/-- How far the replies to `REGISTER` have come. -/
structure Replies (w : World) : Prop where
  unasked : ∀ c fd ip pkt, w.pc .main = .recvFirst c fd ip → ¬ Asked w.log c pkt
  silent : ∀ c, (w.pc .main).awaited? = some c → firstSend w.log c = none
  asked : ∀ c fd ip pkt, w.pc .main = .register c fd ip pkt →
    Asked w.log c pkt ∧ pkt.command = cmdRegister
  unique : ∀ c pkt pkt', Asked w.log c pkt → Asked w.log c pkt' → pkt = pkt'
  pending : ∀ s, w.sending .main = some s → (w.pc .main).awaited? = none ∧
    ∃ c pkt, w.descr s.fd = some c ∧ Asked w.log c pkt ∧ pkt.command = cmdRegister ∧
      Answers w.log c pkt s ∧
        (s.total = 0 → ∀ s₀ rc, firstSend w.log c = some s₀ → s₀.site ≠ .register rc)
  replied : ∀ c pkt, Asked w.log c pkt → pkt.command = cmdRegister →
    (∃ fd ip, w.pc .main = .register c fd ip pkt) ∨
    (∃ s, w.sending .main = some s ∧ w.descr s.fd = some c ∧ s.total = 0) ∨
    ∃ s, firstSend w.log c = some s

/-- Events that leave the replies alone. -/
theorem answers_cons (he : ¬ e.OfMain) {pkt : ChatPacket} {s : Sending} :
    Answers (e :: h) c pkt s ↔ Answers h c pkt s := by
  have hacc : Accepted (e :: h) c ↔ Accepted h c := by
    constructor
    · rintro ⟨i, r, hmem⟩
      rcases List.mem_cons.mp hmem with rfl | hmem
      · exact absurd trivial he
      · exact ⟨i, r, hmem⟩
    · rintro ⟨i, r, hmem⟩
      exact ⟨i, r, List.mem_cons_of_mem _ hmem⟩
  unfold Answers
  rw [hacc]

theorem asked_cons_of_ne {pkt : ChatPacket} (he : ∀ fd, e ≠ .received .main fd (some c) pkt) :
    Asked (e :: h) c pkt ↔ Asked h c pkt := by
  constructor
  · rintro ⟨fd, hmem⟩
    exact ⟨fd, (List.mem_cons.mp hmem).resolve_left (he fd).symm⟩
  · rintro ⟨fd, hmem⟩
    exact ⟨fd, List.mem_cons_of_mem _ hmem⟩

theorem asked_cons (he : ¬ e.OfMain) {pkt : ChatPacket} : Asked (e :: h) c pkt ↔ Asked h c pkt :=
  asked_cons_of_ne fun fd heq => he (by rw [heq]; trivial)

/-- A `send()` is the first one on its connection or changes nothing there. -/
theorem firstSend_send (t : Tid) (s : Sending) (peer written : Option ℕ) (k c : ℕ) :
    firstSend (.send t s peer written k :: h) c = firstSend h c ∨
      firstSend h c = none ∧ peer = some c ∧
        firstSend (.send t s peer written k :: h) c = some s := by
  rcases hfirst : firstSend h c with - | s₀
  · by_cases hpeer : peer = some c
    · exact .inr ⟨rfl, hpeer, by simp [firstSend, hfirst, hpeer]⟩
    · exact .inl (by simp [firstSend, hfirst, hpeer])
  · exact .inl (firstSend_cons_of_some hfirst)

/-- Only the accept loop replies to a `REGISTER`. -/
theorem Provenance.main_of_register {w : World} (hw : Provenance w) {t : Tid} {s : Sending}
    {rc : ℤ} (hs : w.sending t = some s) (hsite : s.site = .register rc) : t = .main := by
  obtain ⟨-, ht⟩ := hw.pending t s hs
  rw [hsite] at ht
  exact ht

namespace Replies

variable {w w' : World} {l : Label}

theorem init : Replies World.init where
  unasked := by
    intro c fd ip pkt hpc
    cases hpc
  silent := by
    intro c hc
    cases hc
  asked := by
    intro c fd ip pkt hpc
    cases hpc
  unique := by
    rintro c pkt pkt' ⟨fd, hmem⟩
    cases hmem
  pending := by
    intro s hs
    cases hs
  replied := by
    rintro c pkt ⟨fd, hmem⟩
    cases hmem

/-- What a step that is not the accept loop's does to the first `send()`. -/
theorem first_of_other (hm : Move w l w') (ht : l.tid ≠ .main) :
    (∀ c pkt, Asked w'.log c pkt ↔ Asked w.log c pkt) ∧
    (∀ c pkt s, Answers w'.log c pkt s ↔ Answers w.log c pkt s) ∧
    ∀ c, firstSend w'.log c = firstSend w.log c ∨
      firstSend w.log c = none ∧ ∃ s, w.sending l.tid = some s ∧ w.descr s.fd = some c ∧
        firstSend w'.log c = some s := by
  obtain ⟨-, -, hlog | ⟨e, hlog, he, hsend⟩⟩ := hm.other ht
  · rw [hlog]
    exact ⟨fun _ _ => Iff.rfl, fun _ _ _ => Iff.rfl, fun _ => .inl rfl⟩
  · rw [hlog]
    refine ⟨fun _ _ => asked_cons he, fun _ _ _ => answers_cons he, fun c => ?_⟩
    by_cases hs : e.IsSend
    · cases e <;> simp only [Event.IsSend] at hs
      case send t s peer written k =>
        obtain ⟨rfl, hpend, hpeer⟩ := hsend t s peer written k rfl
        rcases firstSend_send (h := w.log) l.tid s peer written k c with hsame | ⟨hnone, hc, hnew⟩
        · exact .inl hsame
        · exact .inr ⟨hnone, s, hpend, hpeer.symm.trans hc, hnew⟩
    · exact .inl (firstSend_cons_of_not_isSend hs c)

theorem other (hr : Replies w) (hinv : Inv w) (hinv' : Inv w') (hw : Provenance w)
    (hm : Move w l w') (ht : l.tid ≠ .main) : Replies w' := by
  obtain ⟨hasked, hanswers, hfirst⟩ := first_of_other hm ht
  obtain ⟨hpc, hsending, -⟩ := hm.other ht
  -- the descriptor of a call in progress stays open
  have hdescr : ∀ s c, w.sending .main = some s → w.descr s.fd = some c →
      w'.descr s.fd = some c := by
    intro s c hs hc
    obtain ⟨c', hc', -⟩ := hinv'.send_allowed (hsending.trans hs)
    rcases hm.descr_cases hc with hd | hd
    · exact hd
    · rw [hc'] at hd
      cases hd
  constructor
  · intro c fd ip pkt hp
    rw [hasked]
    exact hr.unasked c fd ip pkt (hpc ▸ hp)
  · -- silent: nobody else sends there before `main` has replied
    intro c hc
    rw [hpc] at hc
    rcases hfirst c with hsame | ⟨-, s, hs, hd, -⟩
    · rw [hsame]
      exact hr.silent c hc
    · exact absurd hd (hinv.not_sent_awaited hc ht hs)
  · intro c fd ip pkt hp
    rw [hasked]
    exact hr.asked c fd ip pkt (hpc ▸ hp)
  · intro c pkt pkt'
    rw [hasked, hasked]
    exact hr.unique c pkt pkt'
  · -- pending
    intro s hs
    rw [hsending] at hs
    obtain ⟨hnot, c, pkt, hd, hask, hcmd, hans, hzero⟩ := hr.pending s hs
    refine ⟨by rw [hpc]; exact hnot, c, pkt, hdescr s c hs hd, (hasked c pkt).mpr hask, hcmd,
      (hanswers c pkt s).mpr hans, fun h0 s₀ rc hs₀ hsite => ?_⟩
    rcases hfirst c with hsame | ⟨-, s₁, hs₁, -, hnew⟩
    · exact hzero h0 s₀ rc (hsame.symm.trans hs₀) hsite
    · obtain rfl := Option.some.inj (hnew.symm.trans hs₀)
      exact ht (hw.main_of_register hs₁ hsite)
  · -- replied
    intro c pkt hask hcmd
    rw [hasked] at hask
    rcases hr.replied c pkt hask hcmd with ⟨fd, ip, hp⟩ | ⟨s, hs, hd, h0⟩ | ⟨s, hs⟩
    · exact .inl ⟨fd, ip, hpc.trans hp⟩
    · exact .inr (.inl ⟨s, hsending.trans hs, hdescr s c hs hd, h0⟩)
    · refine .inr (.inr ?_)
      rcases hfirst c with hsame | ⟨-, s₁, -, -, hnew⟩
      · exact ⟨s, hsame.trans hs⟩
      · exact ⟨s₁, hnew⟩

/-- Between two replies every client that asked has heard something. -/
theorem heard (hr : Replies w) (hs : w.sending .main = none)
    (hp : ∀ fd ip pkt, w.pc .main ≠ .register c fd ip pkt) {pkt : ChatPacket}
    (hask : Asked w.log c pkt) (hcmd : pkt.command = cmdRegister) :
    ∃ s, firstSend w.log c = some s := by
  rcases hr.replied c pkt hask hcmd with ⟨fd, ip, hpc⟩ | ⟨s, hsome, -⟩ | hfst
  · exact absurd hpc (hp fd ip pkt)
  · rw [hs] at hsome
    cases hsome
  · exact hfst

/-- The accept loop moves on between two connections or past a reply already
sent. -/
theorem idle (hr : Replies w) (hs : w.sending .main = none) (hs' : w'.sending .main = none)
    (hp : ∀ c fd ip pkt, w.pc .main ≠ .register c fd ip pkt)
    (hp' : (w'.pc .main).awaited? = none)
    (hlog : w'.log = w.log ∨ ∃ e, w'.log = e :: w.log ∧ ¬ e.OfMain ∧ ¬ e.IsSend) :
    Replies w' := by
  have hsame : (∀ c pkt, Asked w'.log c pkt ↔ Asked w.log c pkt) ∧
      ∀ c, firstSend w'.log c = firstSend w.log c := by
    rcases hlog with hlog | ⟨e, hlog, he, hsend⟩
    · rw [hlog]
      exact ⟨fun _ _ => Iff.rfl, fun _ => rfl⟩
    · rw [hlog]
      exact ⟨fun _ _ => asked_cons he, firstSend_cons_of_not_isSend hsend⟩
  obtain ⟨hasked, hfirst⟩ := hsame
  constructor
  · intro c fd ip pkt hpc
    rw [hpc] at hp'
    cases hp'
  · intro c hc
    rw [hp'] at hc
    cases hc
  · intro c fd ip pkt hpc
    rw [hpc] at hp'
    cases hp'
  · intro c pkt pkt'
    rw [hasked, hasked]
    exact hr.unique c pkt pkt'
  · intro s hsome
    rw [hs'] at hsome
    cases hsome
  · -- every client that asked has heard something before this step
    intro c pkt hask hcmd
    rw [hasked] at hask
    obtain ⟨s, hfst⟩ := hr.heard hs (hp c) hask hcmd
    exact .inr (.inr ⟨s, (hfirst c).trans hfst⟩)

/-- A new connection: nothing has been said on it. -/
theorem accept (hr : Replies w) (hinv : Inv w) {fd : ℤ} {ip : List UInt8}
    (hs : w.sending .main = none) (hpc : w.pc .main = .accept)
    (hupd : w'.pc = Function.update w.pc .main (.recvFirst w.nextConn fd ip))
    (hs' : w'.sending .main = none)
    (hlog : w'.log = .accepted w.nextConn fd ip :: w.log) : Replies w' := by
  have hpc' : w'.pc .main = .recvFirst w.nextConn fd ip := by rw [hupd, Function.update_self]
  -- the history says nothing of the new connection
  have hfresh : phase w.log w.nextConn = .fresh := hinv.core.unborn _ (Nat.le_refl _)
  have hd := hinv.core.disciplined
  have hasked : ∀ c pkt, Asked w'.log c pkt ↔ Asked w.log c pkt := by
    intro c pkt
    rw [hlog]
    exact asked_cons id
  have hfirst : ∀ c, firstSend w'.log c = firstSend w.log c := by
    intro c
    rw [hlog]
    exact firstSend_cons_of_not_isSend id c
  constructor
  · intro c fd' ip' pkt hp
    rw [hpc'] at hp
    obtain ⟨rfl, -, -⟩ := Pc.recvFirst.inj hp
    rw [hasked]
    exact not_asked_of_fresh hd hfresh pkt
  · intro c hc
    rw [hpc'] at hc
    obtain rfl := Option.some.inj hc
    rw [hfirst]
    exact firstSend_eq_none_of_fresh hd hfresh
  · intro c fd' ip' pkt hp
    rw [hpc'] at hp
    cases hp
  · intro c pkt pkt'
    rw [hasked, hasked]
    exact hr.unique c pkt pkt'
  · intro s hsome
    rw [hs'] at hsome
    cases hsome
  · intro c pkt hask hcmd
    rw [hasked] at hask
    obtain ⟨s, hfst⟩ := hr.heard hs (by simp [hpc]) hask hcmd
    exact .inr (.inr ⟨s, (hfirst c).trans hfst⟩)

/-- The first packet of a connection arrives. -/
theorem recvFirst (hr : Replies w) {c : ℕ} {fd : ℤ} {ip : List UInt8} {pkt : ChatPacket}
    (hs : w.sending .main = none) (hpc : w.pc .main = .recvFirst c fd ip)
    (hupd : w'.pc = Function.update w.pc .main
      (if pkt.command = cmdRegister then .register c fd ip pkt else .closeFirst c fd))
    (hs' : w'.sending .main = none)
    (hlog : w'.log = .received .main fd (some c) pkt :: w.log) : Replies w' := by
  have hpc' : w'.pc .main =
      if pkt.command = cmdRegister then .register c fd ip pkt else .closeFirst c fd := by
    rw [hupd, Function.update_self]
  have hfirst : ∀ c, firstSend w'.log c = firstSend w.log c := by
    intro c
    rw [hlog]
    exact firstSend_cons_of_not_isSend id c
  -- the packet is the first one this connection asks with
  have hasked : ∀ c' pkt', Asked w'.log c' pkt' → c' = c ∧ pkt' = pkt ∨ Asked w.log c' pkt' := by
    rintro c' pkt' ⟨fd', hmem⟩
    rw [hlog] at hmem
    rcases List.mem_cons.mp hmem with heq | hmem
    · cases heq
      exact .inl ⟨rfl, rfl⟩
    · exact .inr ⟨fd', hmem⟩
  have hself : Asked w'.log c pkt := ⟨fd, by rw [hlog]; exact List.mem_cons_self⟩
  constructor
  · intro c' fd' ip' pkt' hp
    rw [hpc'] at hp
    split at hp <;> cases hp
  · intro c' hc
    have hc' : c' = c := by
      rw [hpc'] at hc
      split at hc
      · exact (Option.some.inj hc).symm
      · cases hc
    rw [hfirst, hc']
    exact hr.silent c (by rw [hpc]; rfl)
  · intro c' fd' ip' pkt' hp
    rw [hpc'] at hp
    split at hp
    · case isTrue hcmd =>
      obtain ⟨rfl, -, -, rfl⟩ := Pc.register.inj hp
      exact ⟨hself, hcmd⟩
    · cases hp
  · intro c' pkt₁ pkt₂ h₁ h₂
    rcases hasked _ _ h₁ with ⟨rfl, rfl⟩ | h₁ <;> rcases hasked _ _ h₂ with ⟨heq, rfl⟩ | h₂
    · rfl
    · exact absurd h₂ (hr.unasked c' fd ip pkt₂ hpc)
    · subst heq
      exact absurd h₁ (hr.unasked _ fd ip pkt₁ hpc)
    · exact hr.unique c' pkt₁ pkt₂ h₁ h₂
  · intro s hsome
    rw [hs'] at hsome
    cases hsome
  · -- replied: the new request is about to be registered
    intro c' pkt' hask hcmd
    rcases hasked _ _ hask with ⟨rfl, rfl⟩ | hask
    · exact .inl ⟨fd, ip, by rw [hpc', if_pos hcmd]⟩
    · obtain ⟨s, hfst⟩ := hr.heard hs (by simp [hpc]) hask hcmd
      exact .inr (.inr ⟨s, (hfirst c').trans hfst⟩)

/-- `cl_add` has answered: the reply is pending, with nothing of it sent. -/
theorem reply (hr : Replies w) {c : ℕ} {fd : ℤ} {ip : List UInt8} {pkt : ChatPacket} {rc : ℤ}
    (hs : w.sending .main = none) (hpc : w.pc .main = .register c fd ip pkt)
    (hupd : w'.pc = Function.update w.pc .main (.check c fd))
    (hcall : w'.sending = Function.update w.sending .main
      (some ⟨fd, registerReply rc pkt, 0, .register rc⟩))
    (hdescr : w'.descr fd = some c)
    (hlog : ∃ e, w'.log = e :: w.log ∧ ¬ e.IsSend)
    (hasked : ∀ c pkt, Asked w'.log c pkt ↔ Asked w.log c pkt)
    (hacc : rc = 0 ↔ Accepted w'.log c) : Replies w' := by
  have hpc' : w'.pc .main = .check c fd := by rw [hupd, Function.update_self]
  have hs' : w'.sending .main = some ⟨fd, registerReply rc pkt, 0, .register rc⟩ := by
    rw [hcall, Function.update_self]
  obtain ⟨hask, hcmd⟩ := hr.asked c fd ip pkt hpc
  obtain ⟨e, hlog, hsend⟩ := hlog
  have hfirst : ∀ c, firstSend w'.log c = firstSend w.log c := by
    intro c
    rw [hlog]
    exact firstSend_cons_of_not_isSend hsend c
  constructor
  · intro c' fd' ip' pkt' hp
    rw [hpc'] at hp
    cases hp
  · intro c' hc
    rw [hpc'] at hc
    cases hc
  · intro c' fd' ip' pkt' hp
    rw [hpc'] at hp
    cases hp
  · intro c' pkt₁ pkt₂
    rw [hasked, hasked]
    exact hr.unique c' pkt₁ pkt₂
  · -- pending: with nothing of it sent, nothing else has been sent there either
    intro s hsome
    obtain rfl := Option.some.inj (hs'.symm.trans hsome)
    refine ⟨by rw [hpc']; rfl, c, pkt, hdescr, (hasked c pkt).mpr hask, hcmd,
      ⟨rc, rfl, rfl, hacc⟩, fun _ s₀ rc' hs₀ _ => ?_⟩
    rw [hfirst, hr.silent c (by rw [hpc]; rfl)] at hs₀
    cases hs₀
  · intro c' pkt' hask' hcmd'
    rw [hasked] at hask'
    rcases hr.replied c' pkt' hask' hcmd' with ⟨fd', ip', hp⟩ | ⟨s, hsome, -⟩ | ⟨s, hfst⟩
    · rw [hpc] at hp
      obtain ⟨rfl, -, -, -⟩ := Pc.register.inj hp
      exact .inr (.inl ⟨_, hs', hdescr, rfl⟩)
    · rw [hs] at hsome
      cases hsome
    · exact .inr (.inr ⟨s, (hfirst c').trans hfst⟩)

/-- A `send()` of the reply, successful or not. -/
theorem send (hr : Replies w) {s : Sending} {c : ℕ} {written : Option ℕ} {k : ℕ}
    {o : Option Sending} (hs : w.sending .main = some s) (hc : w.descr s.fd = some c)
    (hpc : w'.pc .main = w.pc .main) (hupd : w'.sending = Function.update w.sending .main o)
    (hdescr : w'.descr = w.descr)
    (ho : ∀ s', o = some s' → s'.fd = s.fd ∧ s'.pkt = s.pkt ∧ s'.site = s.site ∧ s'.total ≠ 0)
    (hlog : w'.log = .send .main s (some c) written k :: w.log) : Replies w' := by
  have hasked : ∀ c pkt, Asked w'.log c pkt ↔ Asked w.log c pkt := by
    intro c pkt
    rw [hlog]
    exact asked_cons id
  have hanswers : ∀ c pkt s, Answers w'.log c pkt s ↔ Answers w.log c pkt s := by
    intro c pkt s
    rw [hlog]
    exact answers_cons id
  have hs' : w'.sending .main = o := by rw [hupd, Function.update_self]
  have hnot := (hr.pending s hs).1
  constructor
  · intro c' fd ip pkt hp
    rw [hpc] at hp
    rw [hp] at hnot
    cases hnot
  · intro c' hc'
    rw [hpc, hnot] at hc'
    cases hc'
  · intro c' fd ip pkt hp
    rw [hpc] at hp
    rw [hp] at hnot
    cases hnot
  · intro c' pkt₁ pkt₂
    rw [hasked, hasked]
    exact hr.unique c' pkt₁ pkt₂
  · -- pending: a part of it has been sent
    intro s₁ hsome
    rw [hs'] at hsome
    obtain ⟨hfd, hpkt, hsite, htotal⟩ := ho s₁ hsome
    obtain ⟨-, c', pkt, hd, hask, hcmd, hans, -⟩ := hr.pending s hs
    refine ⟨by rw [hpc]; exact hnot, c', pkt, by rw [hdescr, hfd]; exact hd,
      (hasked _ _).mpr hask, hcmd, ?_,
      fun h0 => absurd h0 htotal⟩
    obtain ⟨rc, hrc, hrep, hacc⟩ := (hanswers _ _ _).mpr hans
    exact ⟨rc, hsite.trans hrc, hpkt.trans hrep, hacc⟩
  · -- replied: this `send()` is heard
    intro c' pkt hask hcmd
    rw [hasked] at hask
    refine .inr (.inr ?_)
    rw [hlog]
    rcases firstSend_send (h := w.log) .main s (some c) written k c' with
      hsame | ⟨hnone, -, hnew⟩
    · rcases hr.replied c' pkt hask hcmd with ⟨fd, ip, hp⟩ | ⟨s₁, hs₁, hd, -⟩ | ⟨s₁, hfst⟩
      · rw [hp] at hnot
        cases hnot
      · obtain rfl := Option.some.inj (hs.symm.trans hs₁)
        obtain rfl : c = c' := Option.some.inj (hc.symm.trans hd)
        rcases hfst : firstSend w.log c with - | s₀
        · exact ⟨s, by simp [firstSend, hfst]⟩
        · exact ⟨s₀, by rw [hsame, hfst]⟩
      · exact ⟨s₁, hsame.trans hfst⟩
    · exact ⟨s, hnew⟩

theorem move (hr : Replies w) (hinv : Inv w) (hw : Provenance w) (hm : Move w l w') :
    Replies w' := by
  by_cases ht : l.tid = .main
  swap
  · exact hr.other hinv (hinv.move hm) hw hm ht
  have hinv' := hinv.move hm
  cases hm with
  | @wrote t s c n hs hc =>
    obtain rfl : t = .main := ht
    refine hr.send hs hc rfl rfl rfl (fun s' hs' => ?_) rfl
    split at hs'
    · cases hs'
      exact ⟨rfl, rfl, rfl, by simp; omega⟩
    · cases hs'
  | @sendFail t s hs =>
    obtain rfl : t = .main := ht
    obtain ⟨c, hc, -⟩ := hinv.send_allowed hs
    exact hr.send (o := none) hs hc rfl rfl rfl (by simp) (by rw [← hc]; rfl)
  | @accept fd ip hs hpc =>
    exact hr.accept hinv hs hpc rfl hs rfl
  | acceptFail => exact hr
  | @recvFirst c fd ip pkt hs hpc =>
    obtain ⟨hdescr, -⟩ := hinv.own_descr hpc rfl rfl
    exact hr.recvFirst hs hpc rfl hs (by rw [← hdescr]; rfl)
  | @add c fd ip pkt now hs hpc hm hnum hdup =>
    obtain ⟨hdescr, -⟩ := hinv.own_descr hpc rfl rfl
    refine hr.reply hs hpc rfl rfl hdescr
      ⟨_, rfl, id⟩ (fun c' pkt' => asked_cons_of_ne (by simp)) ?_
    exact iff_of_true rfl ⟨_, _, List.mem_cons_self⟩
  | @refuse c fd ip pkt now rc hs hpc hm hrc h0 =>
    obtain ⟨hdescr, -⟩ := hinv.own_descr hpc rfl rfl
    refine hr.reply hs hpc rfl rfl hdescr
      ⟨_, rfl, id⟩ (fun c' pkt' => asked_cons id) ?_
    refine iff_of_false h0 ?_
    rintro ⟨i, r, hmem⟩
    have hold : Event.registered c i r ∈ w.log :=
      (List.mem_cons.mp hmem).resolve_left (by simp)
    exact not_registered_of_connected hinv.core.disciplined (hinv.expects hpc rfl).1 i r hold
  | @recvFirstFail c fd ip hs hpc =>
    refine hr.idle hs hs (by rw [hpc]; simp) ?_ (.inr ⟨_, rfl, id, id⟩)
    simp [World.emit, World.goto, Pc.awaited?]
  | @check c fd hs hpc =>
    refine hr.idle hs hs (by rw [hpc]; simp) ?_ (.inr ⟨_, rfl, id, id⟩)
    simp only [World.emit, World.goto, Function.update_self]
    split <;> rfl
  | @spawn c fd hs hpc =>
    refine hr.idle hs hs (by rw [hpc]; simp) ?_ (.inl rfl)
    simp [World.goto, Pc.awaited?]
  | @closeFirst c fd hs hpc =>
    refine hr.idle hs hs (by rw [hpc]; simp) ?_ (.inr ⟨_, rfl, id, id⟩)
    simp [World.goto, Pc.awaited?]
  | _ => cases ht

end Replies

/-! ### Whole runs -/

variable {w w' : World} {l : Label}

/-- What is known of the connections already written to stays. -/
theorem Welcomed.keep (hp : Welcomed w) (hfirst : ∀ c, firstSend w'.log c = firstSend w.log c)
    (hkeep : ∀ c s, firstSend w.log c = some s →
      (∀ pkt, Asked w'.log c pkt → Asked w.log c pkt) ∧
      (Accepted w'.log c ↔ Accepted w.log c)) : Welcomed w' := by
  intro c pkt s hask hcmd hs
  rw [hfirst] at hs
  obtain ⟨hask', hacc⟩ := hkeep c s hs
  obtain ⟨rc, hsite, hrep, hrc⟩ := hp c pkt s (hask' pkt hask) hcmd hs
  exact ⟨rc, hsite, hrep, hrc.trans hacc.symm⟩

theorem Welcomed.keep_cons (hp : Welcomed w) {e : Event} (hlog : w'.log = e :: w.log)
    (he : ¬ e.OfMain) (hsend : ¬ e.IsSend) : Welcomed w' := by
  intro c pkt s hask hcmd hs
  rw [hlog] at hask hs ⊢
  rw [firstSend_cons_of_not_isSend hsend] at hs
  exact (answers_cons he).mpr (hp c pkt s ((asked_cons he).mp hask) hcmd hs)

/-- The accept loop's own steps: a connection it is busy with has not been
written to. -/
theorem welcomed_of_main (hinv : Inv w) (hr : Replies w) (hp : Welcomed w) (hm : Move w l w')
    (ht : l.tid = .main) (hs : w.sending .main = none) : Welcomed w' := by
  cases hm with
  | wrote hsend | sendFail hsend =>
    obtain rfl := ht
    rw [hs] at hsend
    cases hsend
  | acceptFail | spawn => exact hp
  | accept | recvFirstFail | refuse | check | closeFirst => exact hp.keep_cons rfl id id
  | @recvFirst c fd ip pkt _ hpc =>
    obtain ⟨hdescr, -⟩ := hinv.own_descr hpc rfl rfl
    refine hp.keep (fun c' => firstSend_cons_of_not_isSend id c') fun c' s hfst => ⟨?_, ?_⟩
    · intro pkt' hask
      refine (asked_cons_of_ne fun fd' heq => ?_).mp hask
      -- only the connection awaited is asked, and it has not been written to
      obtain ⟨-, -, hpeer, -⟩ := Event.received.inj heq
      obtain rfl : c = c' := Option.some.inj (hdescr.symm.trans hpeer)
      rw [hr.silent c (by rw [hpc]; rfl)] at hfst
      cases hfst
    · exact ⟨fun ⟨i, r, hmem⟩ => ⟨i, r, (List.mem_cons.mp hmem).resolve_left (by simp)⟩,
        fun ⟨i, r, hmem⟩ => ⟨i, r, List.mem_cons_of_mem _ hmem⟩⟩
  | @add c fd ip pkt now _ hpc =>
    refine hp.keep (fun c' => firstSend_cons_of_not_isSend id c') fun c' s hfst => ⟨?_, ?_⟩
    · exact fun pkt' hask => (asked_cons_of_ne (by simp)).mp hask
    · constructor
      · rintro ⟨i, r, hmem⟩
        rcases List.mem_cons.mp hmem with heq | hmem
        · obtain ⟨hc, -, -⟩ := Event.registered.inj heq
          rw [hc, hr.silent c (by rw [hpc]; rfl)] at hfst
          cases hfst
        · exact ⟨i, r, hmem⟩
      · rintro ⟨i, r, hmem⟩
        exact ⟨i, r, List.mem_cons_of_mem _ hmem⟩
  | _ => cases ht

/-- A `send()` of the accept loop is a reply. -/
theorem welcomed_of_reply (hr : Replies w) (hp : Welcomed w) {s : Sending} {c : ℕ}
    {written : Option ℕ} {k : ℕ} (hs : w.sending .main = some s) (hc : w.descr s.fd = some c)
    (hlog : w'.log = .send .main s (some c) written k :: w.log) : Welcomed w' := by
  intro c' pkt s₀ hask hcmd hfst
  rw [hlog] at hask hfst ⊢
  rw [asked_cons id] at hask
  rw [answers_cons id]
  rcases firstSend_send (h := w.log) .main s (some c) written k c' with hsame | ⟨-, heq, hnew⟩
  · exact hp c' pkt s₀ hask hcmd (hsame.symm.trans hfst)
  · obtain rfl := Option.some.inj heq
    obtain rfl := Option.some.inj (hnew.symm.trans hfst)
    obtain ⟨-, c', pkt', hd, hask', -, hans, -⟩ := hr.pending s hs
    obtain rfl : c = c' := Option.some.inj (hc.symm.trans hd)
    rw [hr.unique c pkt pkt' hask hask']
    exact hans

/-- Another thread's `send()` on a connection whose reply is still unsent is
heard first. -/
theorem not_welcomed_of_ahead (hw : Provenance w) (hr : Replies w) (hp : Welcomed w)
    {s s' : Sending} {c : ℕ} {written : Option ℕ} {k : ℕ} (ht : l.tid ≠ .main)
    (hs : w.sending l.tid = some s) (hs' : w.sending .main = some s')
    (hc' : w.descr s'.fd = some c) (h0 : s'.total = 0)
    (hlog : w'.log = .send l.tid s (some c) written k :: w.log) : ¬ Welcomed w' := by
  intro hwel
  obtain ⟨-, c₁, pkt, hd, hask, hcmd, -, hzero⟩ := hr.pending s' hs'
  obtain rfl : c = c₁ := Option.some.inj (hc'.symm.trans hd)
  have hnone : firstSend w.log c = none := by
    rcases hfst : firstSend w.log c with - | s₀
    · rfl
    · obtain ⟨rc, hsite, -⟩ := hp c pkt s₀ hask hcmd hfst
      exact absurd hsite (hzero h0 s₀ rc hfst)
  have hask' : Asked w'.log c pkt := by
    rw [hlog]
    exact (asked_cons id).mpr hask
  have hfst' : firstSend w'.log c = some s := by
    rw [hlog]
    simp [firstSend, hnone]
  obtain ⟨rc, hsite, -⟩ := hwel c pkt s hask' hcmd hfst'
  exact ht (hw.main_of_register hs hsite)

/-- **One step**: where replies have been heard first, the step keeps it so
exactly when it leaves pending replies first. -/
theorem step_welcomed_iff (hinv : Inv w) (hw : Provenance w) (hr : Replies w) (hp : Welcomed w)
    (hs : step w l = some w') : Welcomed w' ↔ LeavesReplyFirst w l := by
  have hm := move_of_step hs
  by_cases ht : l.tid = .main
  · -- the accept loop itself sends nothing but replies
    refine iff_of_true ?_ fun s c s' hne => absurd ht hne
    rcases hsend : w.sending .main with - | s
    · exact welcomed_of_main hinv hr hp hm ht hsend
    · obtain ⟨c, hc, -⟩ := hinv.send_allowed hsend
      obtain ⟨written, hlog⟩ := hm.log_of_sending (by rw [ht]; exact hsend)
      rw [ht, hc] at hlog
      exact welcomed_of_reply hr hp hsend hc hlog
  obtain ⟨hasked, hanswers, hfirst⟩ := Replies.first_of_other hm ht
  rcases hsend : w.sending l.tid with - | s
  · refine iff_of_true (fun c pkt s hask hcmd hfst => ?_) fun s c s' _ hs' => by
      rw [hsend] at hs'
      cases hs'
    rw [hasked] at hask
    rw [hanswers]
    rcases hfirst c with hsame | ⟨-, s', hs', -⟩
    · exact hp c pkt s hask hcmd (hsame.symm.trans hfst)
    · rw [hsend] at hs'
      cases hs'
  obtain ⟨c, hc, -⟩ := hinv.send_allowed hsend
  by_cases hahead : ∃ s', w.sending .main = some s' ∧ w.descr s'.fd = some c ∧ s'.total = 0
  · -- the reply is overtaken
    obtain ⟨s', hs', hc', h0⟩ := hahead
    refine iff_of_false ?_ fun hleaves => hleaves s c s' ht hsend hc hs' hc' h0
    obtain ⟨written, hlog⟩ := hm.log_of_sending hsend
    rw [hc] at hlog
    exact not_welcomed_of_ahead hw hr hp ht hsend hs' hc' h0 hlog
  · -- no reply is pending there, so this `send()` is not the first
    refine iff_of_true (fun c' pkt s₀ hask hcmd hfst => ?_) ?_
    · rw [hasked] at hask
      rw [hanswers]
      rcases hfirst c' with hsame | ⟨hnone, s₁, hs₁, hd, -⟩
      · exact hp c' pkt s₀ hask hcmd (hsame.symm.trans hfst)
      · obtain rfl := Option.some.inj (hs₁.symm.trans hsend)
        obtain rfl : c = c' := Option.some.inj (hc.symm.trans hd)
        rcases hr.replied c pkt hask hcmd with ⟨fd, ip, hpc⟩ | hpend | ⟨s₂, hs₂⟩
        · exact absurd hd (hinv.not_sent_awaited (by rw [hpc]; rfl) ht hsend)
        · exact absurd hpend hahead
        · rw [hnone] at hs₂
          cases hs₂
    · intro s₁ c₁ s' _ hs₁ hc₁ hs' hc' h0
      obtain rfl := Option.some.inj (hs₁.symm.trans hsend)
      obtain rfl : c = c₁ := Option.some.inj (hc.symm.trans hc₁)
      exact hahead ⟨s', hs', hc', h0⟩

/-- **The reply to a `REGISTER` is the first packet of its connection in every
state of a run exactly when every step leaves pending replies first.** -/
theorem welcomed_iff {tr : List (World × Label)} {w : World} (h : Run step World.init tr w) :
    StatesAll Welcomed tr w ↔ StepsAll LeavesReplyFirst tr := by
  refine h.statesAll_iff_stepsAll (I := fun w => Inv w ∧ Provenance w ∧ Replies w)
    ⟨.init, .init, .init⟩ ?_ ?_ ?_
  · rintro w l w' ⟨hinv, hw, hr⟩ hs
    have hm := move_of_step hs
    exact ⟨hinv.move hm, hw.move hinv hm, hr.move hinv hw hm⟩
  · rintro c pkt s ⟨fd, hmem⟩
    cases hmem
  · rintro w l w' ⟨hinv, hw, hr⟩ hp hs
    exact step_welcomed_iff hinv hw hr hp hs

/-! ### A broadcast before the welcome -/

/-- Alice writes to everybody while Bob's welcome is pending. -/
def early : List Label :=
  joining 4 (ip 1) (registerPacket alice) ++ registering 5 (ip 2) (registerPacket bob) ++
    [⟨.client 0, .packet (clientPacket cmdBroadcast alice [] (utf8 "hola"))⟩,
      ⟨.client 0, .clock 0⟩] ++ goes 0 2 ++ [sends 0] ++ goes 0 1 ++ [sends 0]

theorem exec_early : (exec step World.init early).any (fun w =>
    (w.log.any fun e => e == .received .main 5 (some 1) (registerPacket bob)) &&
      (firstSend w.log 1).any fun s => s.pkt.command == cmdMsg) = true := by
  decide +kernel

theorem welcomed_iff_early : ∃ tr w, Run step World.init tr w ∧
    tr.map Prod.snd = early.reverse ∧ (StatesAll Welcomed tr w ↔ StepsAll LeavesReplyFirst tr) := by
  obtain ⟨tr, w, hrun, hls, -⟩ := exists_run exec_early
  exact ⟨tr, w, hrun, hls, welcomed_iff hrun⟩

/-- **The reply need not come first.** -/
theorem not_always_welcomed : ¬ ∀ w, Reachable step World.init w → Welcomed w := by
  intro hall
  obtain ⟨w, hw, hp⟩ := exists_reachable exec_early
  obtain ⟨hask, hfst⟩ := Bool.and_eq_true_iff.mp hp
  obtain ⟨e, hmem, he⟩ := List.any_eq_true.mp hask
  obtain rfl := beq_iff_eq.mp he
  obtain ⟨s, hs, hcmd⟩ := (Option.any_eq_true _ _).mp hfst
  obtain ⟨rc, -, hpkt, -⟩ := hall w hw 1 (registerPacket bob) s ⟨5, hmem⟩ (by decide) hs
  rw [beq_iff_eq, hpkt, command_registerReply] at hcmd
  split at hcmd <;> exact absurd hcmd (by decide)

end ChatSystem
