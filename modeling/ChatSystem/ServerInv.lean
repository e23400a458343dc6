/-
ChatSystem/ServerInv.lean

The invariant of the whole server, `Inv`: the shared state agrees with the
history (`CoreInv`) and every thread's assertion holds (`ThreadOk`).

`inv_step` goes through the rules of the server one by one.  Most of them
walk a thread to a point that asks no more of its connection (`walk`, in
three forms: with the mutex untouched, taken, or released); the others are
the steps of a connection's life, for which `CoreInv` has a lemma each.
-/
import ChatSystem.ThreadInv

namespace ChatSystem

open CStr Lts

/-! ### The invariant -/

structure Inv (w : World) : Prop where
  core : CoreInv w
  threads : ∀ t, ThreadOk w t

/-- From `p` the thread may go on to `p'`, in charge of the same connection
and with the phases as they are. -/
structure Pc.Leads (t : Tid) (phases : ℕ → Phase) (p p' : Pc) : Prop where
  runBy : p.RunBy t → p'.RunBy t
  conn : p'.conn? t = p.conn? t
  expects : ∀ c, p.conn? t = some c → p.Expects (phases c) → p'.Expects (phases c)

/-- Thread `t` moves to `p'` and its `send_packet` call becomes `o`; at most an
event about no connection's life is recorded, and only the mutex and the
bytes sent may change besides. -/
structure Walk (w w' : World) (t : Tid) (p' : Pc) (o : Option Sending) : Prop where
  pc : w'.pc = Function.update w.pc t p'
  sending : w'.sending = Function.update w.sending t o
  table : w'.table = w.table
  descr : w'.descr = w.descr
  nextConn : w'.nextConn = w.nextConn
  log : w'.log = w.log ∨ ∃ e, w'.log = e :: w.log ∧ e.Neutral ∧ Allowed e w.log

/-- A thread that is not sending makes no call by moving on. -/
theorem idle_update {f : Tid → Option Sending} {t : Tid} (h : f t = none) :
    f = Function.update f t none := by
  rw [← h, Function.update_eq_self]

theorem idle_sends {f : Tid → Option Sending} {t : Tid} {P : Sending → Prop}
    (h : f t = none) : ∀ s, f t = some s → P s := by
  intro s hs
  rw [h] at hs
  cases hs

namespace Inv

variable {w w' : World} {t : Tid} {p p' : Pc} {o : Option Sending}

theorem init : Inv World.init := ⟨.init, threadOk_init⟩

/-! ### What a thread can rely on -/

theorem expects (h : Inv w) {c : ℕ} (hpc : w.pc t = p) (hc : p.conn? t = some c) :
    p.Expects (phase w.log c) := by
  subst hpc
  exact (h.threads t).expects c hc

/-- A thread's own descriptor denotes the connection it is in charge of. -/
theorem own_descr (h : Inv w) {c : ℕ} {fd : ℤ} (hpc : w.pc t = p)
    (hc : p.conn? t = some c) (hfd : p.fd? = some fd) :
    w.descr fd = some c ∧ (phase w.log c).fd? = some fd := by
  have hph := (h.expects hpc hc).fd? hfd
  exact ⟨(h.core.descr fd c).mpr hph, hph⟩

theorem runBy (h : Inv w) (hpc : w.pc t = p) : p.RunBy t :=
  hpc ▸ (h.threads t).runBy

theorem holds (h : Inv w) (hpc : w.pc t = p) (hlocked : p.locked = true) :
    w.mutexLista = some t :=
  (h.threads t).lock.mpr (hpc ▸ hlocked)

/-! ### Walking -/

theorem walk (h : Inv w) (hw : Walk w w' t p' o) (hp : w.pc t = p)
    (hstart : p ≠ .notStarted) (hleads : p.Leads t (phase w.log) p')
    (hmutex : ∀ t' ≠ t, (w'.mutexLista = some t' ↔ w.mutexLista = some t'))
    (hlock : w'.mutexLista = some t ↔ p'.locked = true)
    (hsends : ∀ s, o = some s → SendOk w.table p' s) : Inv w' := by
  subst hp
  -- a neutral event leaves every connection in its phase
  have hphase : ∀ c, phase w'.log c = phase w.log c := by
    intro c
    rcases hw.log with hlog | ⟨e, hlog, hne, -⟩
    · rw [hlog]
    · rw [hlog, phase_cons, hne.advance]
  have hself : w'.pc t = p' := by rw [hw.pc, Function.update_self]
  refine ⟨h.core.quiet hw.table hw.descr hw.nextConn hw.log,
    stable h.threads hstart hw.pc hw.sending hmutex (.inl hw.table) (fun c _ _ => hphase c) ?_⟩
  constructor
  · rw [hself]
    exact hleads.runBy (h.threads t).runBy
  · intro c hc
    rw [hself] at hc ⊢
    rw [hphase]
    have hc' := hleads.conn ▸ hc
    exact hleads.expects c hc' ((h.threads t).expects c hc')
  · intro hmain c hc
    rw [hself] at hc
    subst hmain
    rw [hw.pc, Function.update_of_ne (by simp)]
    exact (h.threads .main).alone rfl c (hleads.conn ▸ hc)
  · rw [hself]
    exact hlock
  · intro s hs
    rw [hw.sending, Function.update_self] at hs
    rw [hself, hw.table]
    exact hsends s hs

/-- The mutex is untouched. -/
theorem walk_same (h : Inv w) (hw : Walk w w' t p' o) (hp : w.pc t = p)
    (hstart : p ≠ .notStarted) (hleads : p.Leads t (phase w.log) p')
    (hmutex : w'.mutexLista = w.mutexLista) (hlocked : p'.locked = p.locked)
    (hsends : ∀ s, o = some s → SendOk w.table p' s) : Inv w' := by
  refine h.walk hw hp hstart hleads (fun t' _ => by rw [hmutex]) ?_ hsends
  rw [hmutex, hlocked, ← hp]
  exact (h.threads t).lock

/-- The thread takes the mutex. -/
theorem walk_lock (h : Inv w) (hw : Walk w w' t p' o) (hp : w.pc t = p)
    (hstart : p ≠ .notStarted) (hleads : p.Leads t (phase w.log) p')
    (hfree : w.mutexLista = none)
    (hmutex : w'.mutexLista = some t) (hlocked : p'.locked = true)
    (hsends : ∀ s, o = some s → SendOk w.table p' s) : Inv w' := by
  refine h.walk hw hp hstart hleads (fun t' ht' => ?_) ?_ hsends
  · rw [hmutex, hfree]
    simp [Ne.symm ht']
  · simp [hmutex, hlocked]

/-- The thread releases the mutex. -/
theorem walk_unlock (h : Inv w) (hw : Walk w w' t p' o) (hp : w.pc t = p)
    (hstart : p ≠ .notStarted) (hleads : p.Leads t (phase w.log) p')
    (hheld : p.locked = true)
    (hmutex : w'.mutexLista = none) (hlocked : p'.locked = false)
    (hsends : ∀ s, o = some s → SendOk w.table p' s) : Inv w' := by
  refine h.walk hw hp hstart hleads (fun t' ht' => ?_) ?_ hsends
  · rw [hmutex, h.holds hp hheld]
    simp [Ne.symm ht']
  · simp [hmutex, hlocked]

/-- The table changes while no `send_packet` call goes through it. -/
theorem setTable (h : Inv w) {tbl : Table} (hcore : CoreInv (w.setTable tbl))
    (hidle : ∀ t, w.mutexLista = some t → w.sending t = none) : Inv (w.setTable tbl) where
  core := hcore
  threads := by
    intro t
    have ht := h.threads t
    refine ⟨ht.runBy, ht.expects, ht.alone, ht.lock, fun s hs => ?_⟩
    have hok := ht.sends s hs
    unfold SendOk at hok ⊢
    rcases hslot : s.site.slot? with - | i
    · rw [hslot] at hok
      exact hok
    · -- whoever sends through a record holds the mutex
      rw [hslot] at hok
      have hnone := hidle t (ht.lock.mpr hok.1)
      have hs' : w.sending t = some s := hs
      rw [hnone] at hs'
      cases hs'

theorem setTable_free (h : Inv w) {tbl : Table} (hcore : CoreInv (w.setTable tbl))
    (hm : w.mutexLista = none) : Inv (w.setTable tbl) :=
  h.setTable hcore fun t ht => by rw [hm] at ht; cases ht

/-! ### Sending -/

/-- A thread with an open descriptor of its own is in charge of a
connection. -/
theorem conn_of_fd? {fd : ℤ} (hrun : p.RunBy t) (hfd : p.fd? = some fd) :
    ∃ c, p.conn? t = some c ∧ t.Serves c := by
  cases p <;> simp only [Pc.fd?, reduceCtorEq] at hfd <;>
    first
      | exact ⟨_, rfl, .inl hrun⟩
      | (obtain ⟨c, rfl⟩ := hrun; exact ⟨c, rfl, .inr rfl⟩)

/-- **A `send_packet` call in progress reaches the right connection**: its
descriptor is open, and the packet may be sent to what it denotes. -/
theorem send_allowed (h : Inv w) {s : Sending} (hs : w.sending t = some s) :
    ∃ c, w.descr s.fd = some c ∧
      ∀ written k, Allowed (.send t s (some c) written k) w.log := by
  have hok := (h.threads t).sends s hs
  unfold SendOk at hok
  rcases hslot : s.site.slot? with - | i
  · rw [hslot] at hok
    obtain ⟨c, hc, hserves⟩ := conn_of_fd? (h.threads t).runBy hok
    obtain ⟨hdescr, hfd⟩ := h.own_descr rfl hc hok
    refine ⟨c, hdescr, fun written k => ⟨c, rfl, hfd, ?_⟩⟩
    rw [hslot]
    exact hserves
  · rw [hslot] at hok
    obtain ⟨-, r, hr, hfd⟩ := hok
    -- the record is active now, although its descriptor was read some steps ago
    obtain ⟨c, r₀, hph, hid, hdescr, hreg⟩ := h.core.owner hr
    rw [hfd] at hdescr
    refine ⟨c, hdescr, fun written k => ⟨c, rfl, (h.core.descr _ _).mp hdescr, ?_⟩⟩
    rw [hslot]
    exact ⟨hreg, r₀, hph⟩

/-- The connection a call reaches: one the thread serves or, for a call through a
record, the one registered there. -/
theorem send_site (h : Inv w) {s : Sending} {c : ℕ} (hs : w.sending t = some s)
    (hc : w.descr s.fd = some c) :
    match s.site.slot? with
    | some i => registrant w.log i = some c ∧ ∃ r, phase w.log c = .registered i r
    | none => t.Serves c := by
  obtain ⟨c', hc', hall⟩ := h.send_allowed hs
  obtain rfl : c = c' := Option.some.inj (hc.symm.trans hc')
  obtain ⟨c', hpeer, -, hsite⟩ := hall none 0
  obtain rfl := Option.some.inj hpeer
  exact hsite

theorem send_serves (h : Inv w) {s : Sending} {c : ℕ} (hs : w.sending t = some s)
    (hc : w.descr s.fd = some c) (hslot : s.site.slot? = none) : t.Serves c := by
  have hsite := h.send_site hs hc
  rw [hslot] at hsite
  exact hsite

theorem send_registered (h : Inv w) {s : Sending} {c i : ℕ} (hs : w.sending t = some s)
    (hc : w.descr s.fd = some c) (hslot : s.site.slot? = some i) :
    ∃ r, phase w.log c = .registered i r := by
  have hsite := h.send_site hs hc
  rw [hslot] at hsite
  exact hsite.2

/-- A client thread's call that uses no slot goes to its own connection. -/
theorem own_peer (h : Inv w) {s : Sending} {c : ℕ} (hs : w.sending (.client c) = some s)
    (hslot : s.site.slot? = none) : w.descr s.fd = some c := by
  obtain ⟨d, hdescr, -⟩ := h.send_allowed hs
  rcases h.send_serves hs hdescr hslot with hmain | hclient
  · cases hmain
  · obtain rfl := Tid.client.inj hclient
    exact hdescr

/-- Outside its section a thread sends through no record. -/
theorem slot_of_unlocked (h : Inv w) (hpc : (w.pc t).locked = false) {s : Sending}
    (hs : w.sending t = some s) : s.site.slot? = none := by
  have hok := (h.threads t).sends s hs
  unfold SendOk at hok
  rcases hslot : s.site.slot? with - | i
  · rfl
  · rw [hslot, hpc] at hok
    cases hok.1

/-- A `send()`, successful or not. -/
theorem send (h : Inv w) {s : Sending} (hs : w.sending t = some s)
    (hw : Walk w w' t (w.pc t) o)
    (ho : ∀ s', o = some s' → s'.fd = s.fd ∧ s'.site = s.site)
    (hmutex : w'.mutexLista = w.mutexLista) : Inv w' := by
  have hok := (h.threads t).sends s hs
  have hstart : w.pc t ≠ .notStarted := by
    intro hns
    rw [hns] at hok
    unfold SendOk at hok
    split at hok <;> simp [Pc.locked, Pc.fd?] at hok
  refine h.walk_same hw rfl hstart ⟨id, rfl, fun _ _ => id⟩ hmutex rfl ?_
  intro s' hs'
  obtain ⟨hfd, hsite⟩ := ho s' hs'
  unfold SendOk at hok ⊢
  rw [hfd, hsite]
  exact hok

/-! ### The steps of a connection's life -/

theorem accept (h : Inv w) {fd : ℤ} {ip : List UInt8} (hs : w.sending .main = none)
    (hpc : w.pc .main = .accept) (hfd : w.descr fd = none) (hip : ip.length ≤ 15)
    (h0 : (0 : UInt8) ∉ ip) :
    Inv (({ w with
      descr := Function.update w.descr fd (some w.nextConn)
      nextConn := w.nextConn + 1 }.goto .main (.recvFirst w.nextConn fd ip)).emit
        (.accepted w.nextConn fd ip)) := by
  -- the new connection has no thread yet
  have hfresh : phase w.log w.nextConn = .fresh := h.core.unborn _ (Nat.le_refl _)
  refine ⟨(h.core.accept ip hfd).quiet rfl rfl rfl (.inl rfl), ?_⟩
  refine stable h.threads (t := .main) (by rw [hpc]; simp) rfl (idle_update hs)
    (fun _ _ => Iff.rfl) (.inl rfl) ?_ ?_
  · intro c _ hc
    have hne : w.nextConn ≠ c := by
      rintro rfl
      exact hc hfresh
    simp [World.emit, World.goto, phase_cons, Event.advance, hne]
  · constructor
    · simp [World.emit, World.goto, Pc.RunBy]
    · intro c hc
      simp only [World.emit, World.goto, Function.update_self, Pc.conn?, Option.some.injEq]
        at hc ⊢
      subst hc
      simp [Pc.Expects, phase_cons, Event.advance, hip, h0]
    · intro _ c hc
      simp only [World.emit, World.goto, Function.update_self, Pc.conn?, Option.some.injEq]
        at hc
      subst hc
      simpa [World.emit, World.goto] using notStarted_of_fresh h.threads hfresh
    · have hlock := (h.threads .main).lock
      rw [hpc] at hlock
      simpa [World.emit, World.goto, Pc.locked] using hlock
    · exact idle_sends hs

theorem add (h : Inv w) {c : ℕ} {fd now : ℤ} {ip : List UInt8} {pkt : ChatPacket}
    (hpc : w.pc .main = .register c fd ip pkt) (hm : w.mutexLista = none)
    (hnum : w.table.numClientes < maxClients)
    (hdup : duplicate w.table pkt.senderPtr ip = false) :
    Inv ((((w.setTable (added w.table (newCliente pkt.senderPtr ip fd now))).goto .main
      (.check c fd)).call .main fd (registerReply 0 pkt) (.register 0)).emit
        (.registered c (addSlot w.table) (newCliente pkt.senderPtr ip fd now))) := by
  obtain ⟨hph, hip, -⟩ := h.expects hpc rfl
  refine ⟨(h.core.register now hph hip hnum hdup).quiet rfl rfl rfl (.inl rfl), ?_⟩
  refine stable h.threads (t := .main) (by rw [hpc]; simp) rfl rfl
    (fun _ _ => Iff.rfl) (.inr fun t' _ ht' => by rw [hm] at ht'; cases ht') ?_ ?_
  · -- the others keep their phases
    intro c' hc' _
    rw [hpc] at hc'
    have hne : c ≠ c' := fun heq => hc' (by rw [heq]; rfl)
    simp [World.emit, World.call, World.goto, World.setTable, phase_cons, Event.advance, hne]
  · constructor
    · simp [World.emit, World.call, World.goto, Pc.RunBy]
    · intro c' hc'
      simp only [World.emit, World.call, World.goto, Function.update_self, Pc.conn?,
        Option.some.injEq] at hc' ⊢
      subst hc'
      exact .inr ⟨addSlot w.table, newCliente pkt.senderPtr ip fd now,
        by simp [phase_cons, Event.advance], rfl⟩
    · intro _ c' hc'
      simp only [World.emit, World.call, World.goto, Function.update_self, Pc.conn?,
        Option.some.injEq] at hc'
      subst hc'
      have hns := (h.threads .main).alone rfl c (by rw [hpc]; rfl)
      simpa [World.emit, World.call, World.goto, World.setTable] using hns
    · have hlock := (h.threads .main).lock
      rw [hpc] at hlock
      simpa [World.emit, World.call, World.goto, World.setTable, Pc.locked] using hlock
    · -- the reply goes to the descriptor of the new record
      intro s hs
      simp only [World.emit, World.call, World.goto, World.setTable, Function.update_self,
        Option.some.injEq] at hs ⊢
      subst hs
      rfl

/-- Whether the accept loop finds the record: exactly when the connection is
registered. -/
theorem check_found (h : Inv w) {c : ℕ} {fd : ℤ} (hpc : w.pc .main = .check c fd) :
    (clFindByFd w.table fd).isSome = true ↔ ∃ i r, phase w.log c = .registered i r := by
  have hexp : (Pc.check c fd).Expects (phase w.log c) := h.expects hpc rfl
  rcases hexp with ⟨ip, hph⟩ | ⟨i, r, hph, rfl⟩
  · rw [h.core.find_connected hph, hph]
    simp
  · rw [h.core.find_registered hph, hph]
    simp

theorem check (h : Inv w) {c : ℕ} {fd : ℤ} (hs : w.sending .main = none)
    (hpc : w.pc .main = .check c fd) :
    Inv ((w.goto .main
      (if (clFindByFd w.table fd).isSome then .spawn c fd else .closeFirst c fd)).emit
        (.checked c (clFindByFd w.table fd).isSome)) := by
  have hexp : (Pc.check c fd).Expects (phase w.log c) := h.expects hpc rfl
  have hfound := h.check_found hpc
  rcases hfind : (clFindByFd w.table fd).isSome with - | -
  · -- no record: the connection is still only connected
    simp only [Bool.false_eq_true, if_false]
    rw [hfind] at hfound
    have hconn : ∃ ip, phase w.log c = .connected fd ip := by
      rcases hexp with hconn | ⟨i, r, hph, -⟩
      · exact hconn
      · exact absurd (hfound.mpr ⟨i, r, hph⟩) (by simp)
    refine h.walk_same ⟨rfl, idle_update hs, rfl, rfl, rfl,
        .inr ⟨_, rfl, trivial, .inl ⟨rfl, fd, hconn⟩⟩⟩
      hpc (by simp) ⟨id, rfl, fun c' hc' _ => ?_⟩ rfl rfl (by simp)
    obtain rfl : c = c' := Option.some.inj hc'
    exact hconn
  · -- a record: the registration before this check succeeded
    simp only [if_true]
    rw [hfind] at hfound
    obtain ⟨i, r, hph⟩ := hfound.mp rfl
    have hreg : (Pc.spawn c fd).Expects (phase w.log c) := by
      rcases hexp with ⟨ip, hconn⟩ | hreg
      · rw [hph] at hconn
        cases hconn
      · exact hreg
    refine h.walk_same ⟨rfl, idle_update hs, rfl, rfl, rfl,
        .inr ⟨_, rfl, trivial, .inr ⟨rfl, i, r, hph⟩⟩⟩
      hpc (by simp) ⟨id, rfl, fun c' hc' _ => ?_⟩ rfl rfl (by simp)
    obtain rfl : c = c' := Option.some.inj hc'
    exact hreg

theorem spawn (h : Inv w) {c : ℕ} {fd : ℤ} (hs : w.sending .main = none)
    (hpc : w.pc .main = .spawn c fd) :
    Inv ((w.goto (.client c) (.recv fd)).goto .main .accept) := by
  have hreg : (Pc.spawn c fd).Expects (phase w.log c) := h.expects hpc rfl
  have hns : w.pc (.client c) = .notStarted :=
    (h.threads .main).alone rfl c (by rw [hpc]; rfl)
  refine ⟨h.core.quiet rfl rfl rfl (.inl rfl), fun t' => ?_⟩
  rcases eq_or_ne t' .main with rfl | hmain
  · -- `main` goes back to `accept`
    have hlock := (h.threads .main).lock
    rw [hpc] at hlock
    exact ⟨rfl, fun _ hc' => (by cases hc'), fun _ _ hc' => (by cases hc'), hlock,
      idle_sends hs⟩
  rcases eq_or_ne t' (.client c) with rfl | hclient
  · -- the new thread finds its connection registered
    have hself : ((w.goto (.client c) (.recv fd)).goto .main .accept).pc (.client c)
        = .recv fd := by simp [World.goto]
    have hlock := (h.threads (.client c)).lock
    have hsends := (h.threads (.client c)).sends
    rw [hns] at hlock hsends
    refine ⟨?_, ?_, fun heq => (by cases heq), ?_, ?_⟩
    · rw [hself]
      exact ⟨c, rfl⟩
    · intro c' hc'
      rw [hself] at hc' ⊢
      obtain rfl : c = c' := Option.some.inj hc'
      exact hreg
    · rw [hself]
      exact hlock
    · intro s hs'
      have hok := hsends s hs'
      unfold SendOk at hok
      split at hok <;> simp [Pc.locked, Pc.fd?] at hok
  · -- nobody else notices
    have hother : ((w.goto (.client c) (.recv fd)).goto .main .accept).pc t' = w.pc t' := by
      simp [World.goto, hmain, hclient]
    have ht := h.threads t'
    refine ⟨?_, ?_, fun heq => absurd heq hmain, ?_, ?_⟩
    · rw [hother]
      exact ht.runBy
    · intro c' hc'
      rw [hother] at hc' ⊢
      exact ht.expects c' hc'
    · rw [hother]
      exact ht.lock
    · intro s hs'
      rw [hother]
      exact ht.sends s hs'

theorem closeFirst (h : Inv w) {c : ℕ} {fd : ℤ} (hs : w.sending .main = none)
    (hpc : w.pc .main = .closeFirst c fd) :
    Inv ((w.closeFd c fd).goto .main .accept) := by
  have hexp : (Pc.closeFirst c fd).Expects (phase w.log c) := h.expects hpc rfl
  refine ⟨(h.core.close (.inl hexp)).quiet rfl rfl rfl (.inl rfl), ?_⟩
  refine stable h.threads (t := .main) (by rw [hpc]; simp) rfl (idle_update hs)
    (fun _ _ => Iff.rfl) (.inl rfl) ?_ ?_
  · intro c' hc' _
    rw [hpc] at hc'
    have hne : c ≠ c' := fun heq => hc' (by rw [heq]; rfl)
    simp [World.goto, World.closeFd, phase_cons, Event.advance, hne]
  · have hlock := (h.threads .main).lock
    rw [hpc] at hlock
    exact ⟨rfl, fun _ hc' => (by cases hc'), fun _ _ hc' => (by cases hc'), hlock,
      idle_sends hs⟩

/-- The thread of connection `c` moves on after a step of its connection's
life. -/
theorem client_stable (h : Inv w) {c : ℕ} (hp : w.pc (.client c) = p)
    (hstart : p ≠ .notStarted) (hs : w.sending (.client c) = none)
    (hpc : w'.pc = Function.update w.pc (.client c) p')
    (hlocked : p.locked = false) (hlocked' : p'.locked = false) (hrun : p'.RunBy (.client c))
    (hsending : w'.sending = w.sending) (hmutex : w'.mutexLista = w.mutexLista)
    (htable : w'.table = w.table ∨ w.mutexLista = none)
    (hphase : ∀ c' ≠ c, phase w'.log c' = phase w.log c')
    (hconn : p.conn? (.client c) = some c)
    (hexp : ∀ c', p'.conn? (.client c) = some c' → c' = c ∧ p'.Expects (phase w'.log c)) :
    ∀ t', ThreadOk w' t' := by
  subst hp
  have hself : w'.pc (.client c) = p' := by rw [hpc, Function.update_self]
  refine stable h.threads hstart hpc (hsending.trans (idle_update hs))
    (fun t' _ => by rw [hmutex]) ?_ ?_ ?_
  · -- what the others have found in the table stays, or they hold no mutex
    rcases htable with htable | hm
    · exact .inl htable
    · exact .inr fun t' _ ht' => by rw [hm] at ht'; cases ht'
  · intro c' hc' _
    exact hphase c' fun heq => hc' (heq ▸ hconn)
  · refine ⟨?_, ?_, fun heq => (by cases heq), ?_, ?_⟩
    · rw [hself]
      exact hrun
    · intro c' hc'
      rw [hself] at hc' ⊢
      obtain ⟨rfl, hexp'⟩ := hexp c' hc'
      exact hexp'
    · rw [hself, hmutex, (h.threads (.client c)).lock, hlocked, hlocked']
    · rw [hsending]
      exact idle_sends hs

theorem remove (h : Inv w) {c : ℕ} {fd : ℤ} {username : CharArray 32}
    (hs : w.sending (.client c) = none) (hpc : w.pc (.client c) = .remove fd username)
    (hm : w.mutexLista = none) :
    Inv (((w.setTable (clRemove w.table fd).2).goto (.client c) (.close fd username)).emit
      (.removed c)) := by
  obtain ⟨i, r, hph, rfl⟩ : (Pc.remove fd username).Expects (phase w.log c) :=
    h.expects hpc rfl
  refine ⟨(h.core.remove hph).quiet rfl rfl rfl (.inl rfl), ?_⟩
  refine h.client_stable hpc (by simp) hs rfl rfl rfl ⟨c, rfl⟩ rfl rfl (.inr hm) ?_ rfl ?_
  · intro c' hc'
    simp [World.emit, World.goto, World.setTable, phase_cons, Event.advance, Ne.symm hc']
  · intro c' hc'
    refine ⟨(Option.some.inj hc').symm, ?_⟩
    simp [World.emit, World.goto, World.setTable, phase_cons, Event.advance, hph, Pc.Expects,
      Phase.fd?]

theorem close (h : Inv w) {c : ℕ} {fd : ℤ} {username : CharArray 32}
    (hs : w.sending (.client c) = none) (hpc : w.pc (.client c) = .close fd username) :
    Inv ((w.closeFd c fd).goto (.client c)
      (if username.str = [] then .exited else .notify username)) := by
  have hph : phase w.log c = .left fd := h.expects hpc rfl
  have hafter : ∀ c', phase ((w.closeFd c fd).goto (.client c)
      (if username.str = [] then .exited else .notify username)).log c'
        = if c = c' then .gone else phase w.log c' := by
    intro c'
    simp [World.goto, World.closeFd, phase_cons, Event.advance]
  refine ⟨(h.core.close (.inr hph)).quiet rfl rfl rfl (.inl rfl), ?_⟩
  by_cases hname : username.str = []
  · simp only [if_pos hname] at hafter ⊢
    refine h.client_stable hpc (by simp) hs rfl rfl rfl ⟨c, rfl⟩ rfl rfl (.inl rfl)
      (fun c' hc' => by rw [hafter, if_neg (Ne.symm hc')]) rfl fun c' hc' => ?_
    exact ⟨(Option.some.inj hc').symm, by rw [hafter, if_pos rfl]; rfl⟩
  · simp only [if_neg hname] at hafter ⊢
    refine h.client_stable hpc (by simp) hs rfl rfl rfl ⟨c, rfl⟩ rfl rfl (.inl rfl)
      (fun c' hc' => by rw [hafter, if_neg (Ne.symm hc')]) rfl fun c' hc' => ?_
    exact ⟨(Option.some.inj hc').symm, by rw [hafter, if_pos rfl]; rfl⟩

/-! ### Every step -/

/-- A packet is read from the thread's own connection. -/
theorem recv_allowed (h : Inv w) {fd : ℤ} (hpc : w.pc t = p) (hfd : p.fd? = some fd) :
    (∀ pkt, Allowed (.received t fd (w.descr fd) pkt) w.log) ∧
      Allowed (.recvFailed t fd (w.descr fd)) w.log := by
  obtain ⟨c, hc, hserves⟩ := conn_of_fd? (h.runBy hpc) hfd
  obtain ⟨hdescr, hph⟩ := h.own_descr hpc hc hfd
  exact ⟨fun _ => ⟨c, hdescr, hserves, hph⟩, ⟨c, hdescr, hserves, hph⟩⟩

/-- A record looked at inside a section is active and will stay so. -/
theorem slot_sendOk (h : Inv w) {i : ℕ} {msg : ChatPacket} {site : Site}
    (hi : i < w.table.numClientes) (hact : (w.table.at i).activo = true)
    (hsite : site.slot? = some i) (hp : p.locked = true) :
    SendOk w.table p ⟨(w.table.at i).sockfd, msg, 0, site⟩ := by
  unfold SendOk
  rw [hsite]
  exact ⟨hp, w.table.at i, h.core.ok.active_at hi hact, rfl⟩

/-- The monitor's section looks at slot `i`. -/
theorem swept (h : Inv w) (now : ℤ) (i : ℕ) (hs : w.sending .monitor = none)
    (hpc : w.pc .monitor = .sweep now i) : Inv (w.setTable (sweepSlot now w.table i)) := by
  refine h.setTable (h.core.sweepSlot now i) fun t ht => ?_
  have hheld := h.holds hpc rfl
  obtain rfl : t = .monitor := Option.some.inj (ht.symm.trans hheld)
  exact hs

/-! ### The rules -/

variable {l : Label}

/-- The rules of `send()`. -/
theorem move_send (h : Inv w) (hmove : Move w l w') (hsend : w.sending l.tid ≠ none) :
    Inv w' := by
  cases hmove with
  | @wrote t s c n hs hc hn hle =>
    obtain ⟨c', hc', hall⟩ := h.send_allowed hs
    obtain rfl : c = c' := Option.some.inj (hc.symm.trans hc')
    refine h.send hs ⟨by simp [World.emit], rfl, rfl, rfl, rfl, .inr ⟨_, rfl, trivial, hall _ _⟩⟩
      ?_ rfl
    intro s' hs'
    split at hs'
    · cases hs'
      exact ⟨rfl, rfl⟩
    · cases hs'
  | @sendFail t s hs =>
    obtain ⟨c, hc, hall⟩ := h.send_allowed hs
    exact h.send hs ⟨by simp [World.emit], rfl, rfl, rfl, rfl,
      .inr ⟨_, rfl, trivial, hc ▸ hall _ _⟩⟩ (by simp) rfl
  | _ => exact absurd (by assumption) hsend

/-- The rules of `main`. -/
theorem move_main (h : Inv w) (hmove : Move w l w') (ht : l.tid = .main)
    (hidle : w.sending l.tid = none) : Inv w' := by
  cases hmove with
  | wrote hs | sendFail hs => exact absurd (hs.symm.trans hidle) (by simp)
  | accept hs hpc hfd hip h0 => exact h.accept hs hpc hfd hip h0
  | acceptFail => exact h
  | recvFirst hs hpc =>
    have hall := (h.recv_allowed hpc rfl).1
    split
    · exact h.walk_same ⟨rfl, idle_update hs, rfl, rfl, rfl, .inr ⟨_, rfl, trivial, hall _⟩⟩
        hpc (by simp) ⟨id, rfl, fun _ _ => id⟩ rfl rfl (by simp)
    · exact h.walk_same ⟨rfl, idle_update hs, rfl, rfl, rfl, .inr ⟨_, rfl, trivial, hall _⟩⟩
        hpc (by simp) ⟨id, rfl, fun _ _ hph => ⟨_, hph.1⟩⟩ rfl rfl (by simp)
  | recvFirstFail hs hpc =>
    have hall := (h.recv_allowed hpc rfl).2
    exact h.walk_same ⟨rfl, idle_update hs, rfl, rfl, rfl, .inr ⟨_, rfl, trivial, hall⟩⟩
      hpc (by simp) ⟨id, rfl, fun _ _ hph => ⟨_, hph.1⟩⟩ rfl rfl (by simp)
  | add hs hpc hm hnum hdup => exact h.add hpc hm hnum hdup
  | refuse hs hpc hm hrc h0 =>
    have hph := (h.expects hpc rfl).1
    exact h.walk_same ⟨rfl, rfl, rfl, rfl, rfl, .inr ⟨_, rfl, trivial, ⟨_, _, hph⟩⟩⟩
      hpc (by simp) ⟨id, rfl, fun _ _ hph => .inl ⟨_, hph.1⟩⟩ rfl rfl
      (by rintro s ⟨⟩; rfl)
  | check hs hpc hm => exact h.check hs hpc
  | spawn hs hpc => exact h.spawn hs hpc
  | closeFirst hs hpc => exact h.closeFirst hs hpc
  | _ => cases ht

/-- The rules of the monitor. -/
theorem move_monitor (h : Inv w) (hmove : Move w l w') (ht : l.tid = .monitor)
    (hidle : w.sending l.tid = none) : Inv w' := by
  cases hmove with
  | wrote hs | sendFail hs => exact absurd (hs.symm.trans hidle) (by simp)
  | wake hs hpc =>
    exact h.walk_same ⟨rfl, idle_update hs, rfl, rfl, rfl, .inl rfl⟩
      hpc (by simp) ⟨id, rfl, fun _ _ => id⟩ rfl rfl (by simp)
  | sweepStart hs hpc hm =>
    exact h.walk_lock ⟨rfl, idle_update hs, rfl, rfl, rfl, .inr ⟨_, rfl, trivial, trivial⟩⟩
      hpc (by simp) ⟨id, rfl, fun _ _ => id⟩ hm rfl rfl (by simp)
  | @sweepMark now i hs hpc hi hlong =>
    have hswept := h.swept now i hs hpc
    refine hswept.walk_same ⟨rfl, rfl, rfl, rfl, rfl, .inl rfl⟩
      hpc (by simp) ⟨id, rfl, fun _ _ => id⟩ rfl rfl ?_
    rintro s ⟨⟩
    have hact := h.core.ok.active_at hi (activo_of_idle hlong)
    obtain ⟨r, hr, hid⟩ := active_sweepSlot now i hact
    exact ⟨rfl, r, hr, hid.2.2⟩
  | @sweepSkip now i hs hpc hi hlong =>
    exact (h.swept now i hs hpc).walk_same ⟨rfl, idle_update hs, rfl, rfl, rfl, .inl rfl⟩
      hpc (by simp) ⟨id, rfl, fun _ _ => id⟩ rfl rfl (by simp)
  | sweepEnd hs hpc hi =>
    exact h.walk_unlock ⟨rfl, idle_update hs, rfl, rfl, rfl, .inr ⟨_, rfl, trivial, trivial⟩⟩
      hpc (by simp) ⟨id, rfl, fun _ _ => id⟩ rfl rfl rfl (by simp)
  | _ => cases ht

/-- What a client's thread receives. -/
theorem move_receive (h : Inv w) (hmove : Move w l w') {fd : ℤ}
    (hidle : w.sending l.tid = none) (hrecv : w.pc l.tid = .recv fd) : Inv w' := by
  cases hmove with
  | wrote hs | sendFail hs => exact absurd (hs.symm.trans hidle) (by simp)
  | recvActivity hs hpc | recvQuery hs hpc =>
    have hall := (h.recv_allowed hpc rfl).1
    exact h.walk_same ⟨rfl, idle_update hs, rfl, rfl, rfl, .inr ⟨_, rfl, trivial, hall _⟩⟩
      hpc (by simp) ⟨id, rfl, fun _ _ => id⟩ rfl rfl (by simp)
  | recvLogout hs hpc hcmd =>
    have hall := (h.recv_allowed hpc rfl).1
    exact h.walk_same ⟨rfl, rfl, rfl, rfl, rfl, .inr ⟨_, rfl, trivial, hall _⟩⟩
      hpc (by simp) ⟨id, rfl, fun _ _ => id⟩ rfl rfl (by rintro s ⟨⟩; rfl)
  | recvIgnored hs hpc hcmd =>
    have hall := (h.recv_allowed hpc rfl).1
    exact h.walk_same ⟨by rw [← hpc]; simp [World.emit], idle_update hs, rfl, rfl, rfl,
      .inr ⟨_, rfl, trivial, hall _⟩⟩ hpc (by simp) ⟨id, rfl, fun _ _ => id⟩ rfl rfl (by simp)
  | recvFail hs hpc =>
    have hall := (h.recv_allowed hpc rfl).2
    exact h.walk_same ⟨rfl, idle_update hs, rfl, rfl, rfl, .inr ⟨_, rfl, trivial, hall⟩⟩
      hpc (by simp) ⟨id, rfl, fun _ _ => id⟩ rfl rfl (by simp)
  | fanoutSend _ hpc hf | fanoutSkip _ hpc hf | fanoutEnd _ hpc hf =>
    cases hf <;> cases hpc.symm.trans hrecv
  | _ => simp_all

/-- How it handles a packet. -/
theorem move_handle (h : Inv w) (hmove : Move w l w') {fd : ℤ} {pkt : ChatPacket}
    (hidle : w.sending l.tid = none)
    (hwork : w.pc l.tid = .touch fd pkt ∨ w.pc l.tid = .handle fd pkt) : Inv w' := by
  cases hmove with
  | wrote hs | sendFail hs => exact absurd (hs.symm.trans hidle) (by simp)
  | @touch c fd pkt now hs hpc hm hre =>
    have htouched := h.setTable_free (h.core.touch fd now) hm
    exact htouched.walk_same ⟨rfl, idle_update hs, rfl, rfl, rfl, .inl rfl⟩
      hpc (by simp) ⟨id, rfl, fun _ _ => id⟩ rfl rfl (by simp)
  | @reactivate c fd pkt now hs hpc hm hre =>
    have htouched := h.setTable_free (h.core.touch fd now) hm
    exact htouched.walk_same ⟨rfl, rfl, rfl, rfl, rfl, .inl rfl⟩
      hpc (by simp) ⟨id, rfl, fun _ _ => id⟩ rfl rfl (by rintro s ⟨⟩; rfl)
  | broadcast hs hpc hm hcmd =>
    exact h.walk_lock ⟨rfl, idle_update hs, rfl, rfl, rfl, .inr ⟨_, rfl, trivial, trivial⟩⟩
      hpc (by simp) ⟨id, rfl, fun _ _ => id⟩ hm rfl rfl (by simp)
  | direct hs hpc hm hcmd hfind hr =>
    obtain ⟨-, r, hact, -⟩ := clFindByName_eq_some hfind
    rw [hact.at_eq] at hr
    refine h.walk_lock ⟨rfl, rfl, rfl, rfl, rfl, .inr ⟨_, rfl, trivial, trivial⟩⟩
      hpc (by simp) ⟨id, rfl, fun _ _ => id⟩ hm rfl rfl ?_
    rintro s ⟨⟩
    exact ⟨rfl, r, hact, by rw [hr]⟩
  | directMissing hs hpc | list hs hpc | info hs hpc =>
    exact h.walk_same ⟨rfl, rfl, rfl, rfl, rfl, .inl rfl⟩
      hpc (by simp) ⟨id, rfl, fun _ _ => id⟩ rfl rfl (by rintro s ⟨⟩; rfl)
  | @status c fd pkt hs hpc hm hcmd =>
    have hset := h.setTable_free (h.core.setStatus pkt.senderPtr pkt.payloadPtr) hm
    exact hset.walk_same ⟨rfl, rfl, rfl, rfl, rfl, .inl rfl⟩
      hpc (by simp) ⟨id, rfl, fun _ _ => id⟩ rfl rfl (by rintro s ⟨⟩; rfl)
  | fanoutSend _ hpc hf | fanoutSkip _ hpc hf | fanoutEnd _ hpc hf =>
    cases hf <;> rcases hwork with hw | hw <;> cases hpc.symm.trans hw
  | _ => simp_all

/-- **Every rule keeps the invariant.** -/
theorem move (h : Inv w) (hm : Move w l w') : Inv w' := by
  have hmove := hm
  cases hm with
  | wrote hs | sendFail hs => exact h.move_send hmove (by simp [hs])
  | accept hs | acceptFail hs | recvFirst hs | recvFirstFail hs | add hs | refuse hs | check hs
  | spawn hs | closeFirst hs =>
    exact h.move_main hmove rfl hs
  | wake hs | sweepStart hs | sweepMark hs | sweepSkip hs | sweepEnd hs =>
    exact h.move_monitor hmove rfl hs
  | recvActivity hs hpc | recvQuery hs hpc | recvLogout hs hpc | recvIgnored hs hpc
  | recvFail hs hpc =>
    exact h.move_receive hmove hs hpc
  | touch hs hpc | reactivate hs hpc => exact h.move_handle hmove hs (.inl hpc)
  | broadcast hs hpc | direct hs hpc | directMissing hs hpc | status hs hpc | list hs hpc
  | info hs hpc =>
    exact h.move_handle hmove hs (.inr hpc)
  -- the loops over all clients
  | fanoutSend hs hpc hf hi hact =>
    obtain ⟨hp, hnext, -, hslot, hrun, hconn, hexp⟩ := hf.spec
    refine h.walk_same ⟨rfl, rfl, rfl, rfl, rfl, .inl rfl⟩ hpc hf.started
      ⟨fun hr => (hrun _ hr).1, (hconn _).1, fun _ _ hph => (hexp _ hph).1⟩ rfl
      (hnext.trans hp.symm) ?_
    rintro s ⟨⟩
    exact h.slot_sendOk hi hact (hslot _) hnext
  | fanoutSkip hs hpc hf hi hact =>
    obtain ⟨hp, hnext, -, hslot, hrun, hconn, hexp⟩ := hf.spec
    exact h.walk_same ⟨rfl, idle_update hs, rfl, rfl, rfl, .inl rfl⟩ hpc hf.started
      ⟨fun hr => (hrun _ hr).1, (hconn _).1, fun _ _ hph => (hexp _ hph).1⟩ rfl
      (hnext.trans hp.symm) (by simp)
  | fanoutEnd hs hpc hf hi =>
    obtain ⟨hp, -, hdone, -, hrun, hconn, hexp⟩ := hf.spec
    exact h.walk_unlock ⟨rfl, idle_update hs, rfl, rfl, rfl, .inr ⟨_, rfl, trivial, trivial⟩⟩
      hpc hf.started ⟨fun hr => (hrun _ hr).2, (hconn _).2, fun _ _ hph => (hexp _ hph).2⟩
      hp rfl hdone (by simp)
  | directUnlock hs hpc =>
    exact h.walk_unlock ⟨rfl, idle_update hs, rfl, rfl, rfl, .inr ⟨_, rfl, trivial, trivial⟩⟩
      hpc (by simp) ⟨id, rfl, fun _ _ => id⟩ rfl rfl rfl (by simp)
  -- `cleanup`
  | resolve hs hpc | resolved hs hpc =>
    exact h.walk_same ⟨rfl, idle_update hs, rfl, rfl, rfl, .inl rfl⟩
      hpc (by simp) ⟨id, rfl, fun _ _ => id⟩ rfl rfl (by simp)
  | remove hs hpc hm => exact h.remove hs hpc hm
  | close hs hpc => exact h.close hs hpc
  | notify hs hpc hm =>
    exact h.walk_lock ⟨rfl, idle_update hs, rfl, rfl, rfl, .inr ⟨_, rfl, trivial, trivial⟩⟩
      hpc (by simp) ⟨id, rfl, fun _ _ => id⟩ hm rfl rfl (by simp)

theorem step (h : Inv w) (hs : ChatSystem.step w l = some w') : Inv w' :=
  h.move (move_of_step hs)

end Inv

/-- **Every reachable state meets the invariant.** -/
theorem inv_of_reachable {w : World} (h : Reachable step World.init w) : Inv w :=
  h.invariant Inv.init fun _ _ _ hI hs => hI.step hs

end ChatSystem
