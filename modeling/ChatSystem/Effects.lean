/-
ChatSystem/Effects.lean

What one step does to the history, to the descriptors and to the bytes in
transit, read off the rules once so that the results below need not go
through the rules again:

* the history grows by at most one event (`Move.log_cases`);
* an open descriptor keeps denoting its connection until it is closed
  (`Move.descr_cases`);
* `Changes` — the table stays, or a record is updated in place, added or
  removed;
* `Transmits` — a step is a `send()` that succeeds, a `send()` that fails, or
  it sends nothing and at most starts a `send_packet` call of its thread;
* `Starts` — the calls a step can start, and where its thread is then.
-/
import ChatSystem.ServerInv

namespace ChatSystem

open CStr Lts

variable {w w' : World} {l : Label}

/-! ### The history -/

theorem Move.log_cases (h : Move w l w') :
    w'.log = w.log ∨ ∃ e, w'.log = e :: w.log := by
  cases h <;> first | exact .inl rfl | exact .inr ⟨_, rfl⟩

theorem Move.mem_log (h : Move w l w') {e : Event} (he : e ∈ w.log) : e ∈ w'.log := by
  rcases h.log_cases with hlog | ⟨e', hlog⟩
  · rw [hlog]
    exact he
  · rw [hlog]
    exact List.mem_cons_of_mem _ he

/-- The history of every state a run visits is the older part of the last
one. -/
theorem log_suffix_of_run {tr : List (World × Label)} (h : Run step World.init tr w)
    {x : World × Label} (hx : x ∈ tr) : x.1.log <:+ w.log := by
  induction h with
  | start => cases hx
  | @step tr s l s' _ hs ih =>
    have hgrow : s.log <:+ s'.log := by
      rcases (move_of_step hs).log_cases with hlog | ⟨e, hlog⟩
      · exact ⟨[], hlog.symm⟩
      · exact ⟨[e], hlog.symm⟩
    rcases List.mem_cons.mp hx with rfl | hx
    · exact hgrow
    · exact (ih hx).trans hgrow

/-! ### Steps of the other threads -/

/-- Events only the accept loop records. -/
def Event.OfMain : Event → Prop
  | registered .. | received .main _ _ _ => True
  | _ => False

/-- A step of another thread leaves the accept loop where it is, and records
none of its events. -/
theorem Move.other (h : Move w l w') (ht : l.tid ≠ .main) :
    w'.pc .main = w.pc .main ∧ w'.sending .main = w.sending .main ∧
    (w'.log = w.log ∨ ∃ e, w'.log = e :: w.log ∧ ¬ e.OfMain ∧
      ∀ t s peer written k, e = .send t s peer written k →
        t = l.tid ∧ w.sending t = some s ∧ peer = w.descr s.fd) := by
  cases h with
  | @wrote t s c n hs hc =>
    refine ⟨rfl, Function.update_of_ne ht.symm _ _, .inr ⟨_, rfl, id, ?_⟩⟩
    rintro t' s' peer written k ⟨⟩
    exact ⟨rfl, hs, hc.symm⟩
  | @sendFail t s hs =>
    refine ⟨rfl, Function.update_of_ne ht.symm _ _, .inr ⟨_, rfl, id, ?_⟩⟩
    rintro t' s' peer written k ⟨⟩
    exact ⟨rfl, hs, rfl⟩
  | accept | acceptFail | recvFirst | recvFirstFail | add | refuse | check | spawn | closeFirst =>
    exact absurd rfl ht
  -- steps that write to the history
  | recvActivity | recvQuery | recvIgnored | recvFail | broadcast | fanoutEnd | directUnlock
  | remove | close | notify | sweepStart | sweepEnd | recvLogout | direct =>
    exact ⟨by simp [World.emit, World.goto, World.call, World.lock, World.unlock, World.closeFd,
        World.setTable],
      by simp [World.emit, World.goto, World.call, World.lock, World.unlock, World.closeFd,
        World.setTable],
      .inr ⟨_, rfl, id, by simp⟩⟩
  -- steps that do not
  | touch | fanoutSkip | resolve | resolved | wake | sweepSkip | reactivate | directMissing
  | status | list | info | fanoutSend | sweepMark =>
    exact ⟨by simp [World.goto, World.call, World.setTable],
      by simp [World.goto, World.call, World.setTable], .inl rfl⟩

/-- A step leaves the other threads where they are; only `pthread_create`
starts one. -/
theorem Move.local_of_ne (h : Move w l w') {t : Tid} (ht : t ≠ l.tid) :
    w'.sending t = w.sending t ∧
      (w'.pc t = w.pc t ∨ ∃ c fd, t = .client c ∧ w.pc .main = .spawn c fd ∧
        w'.pc t = .recv fd) := by
  cases h with
  | @spawn c fd hs hpc =>
    refine ⟨rfl, ?_⟩
    by_cases hc : t = .client c
    · subst hc
      exact .inr ⟨c, fd, rfl, hpc, by simp [World.goto]⟩
    · exact .inl (by simp_all [World.goto])
  | wrote | sendFail | acceptFail =>
    exact ⟨by simp_all [World.emit], .inl rfl⟩
  | _ =>
    exact ⟨by simp_all [World.emit, World.goto, World.call, World.lock, World.unlock,
        World.closeFd, World.setTable],
      .inl (by simp_all [World.emit, World.goto, World.call, World.lock, World.unlock,
        World.closeFd, World.setTable])⟩

/-- A thread that has started stays where it is when another one steps. -/
theorem Move.stays (h : Move w l w') (hinv : Inv w) {t : Tid} (ht : t ≠ l.tid)
    (hstart : w.pc t ≠ .notStarted) : w'.pc t = w.pc t ∧ w'.sending t = w.sending t := by
  obtain ⟨hsending, hpc | ⟨c, fd, rfl, hspawn, -⟩⟩ := h.local_of_ne ht
  · exact ⟨hpc, hsending⟩
  · exact absurd ((hinv.threads .main).alone rfl c (by rw [hspawn]; rfl)) hstart

/-! ### Descriptors -/

theorem Move.descr_cases (h : Move w l w') {fd : ℤ} {c : ℕ} (hfd : w.descr fd = some c) :
    w'.descr fd = some c ∨ w'.descr fd = none := by
  cases h with
  | @accept fd' ip hs hpc hfree =>
    have hne : fd ≠ fd' := by
      rintro rfl
      rw [hfree] at hfd
      cases hfd
    exact .inl (by simpa [World.emit, World.goto, hne] using hfd)
  | @closeFirst c' fd' =>
    rcases eq_or_ne fd fd' with rfl | hne
    · exact .inr (by simp [World.goto, World.closeFd])
    · exact .inl (by simpa [World.goto, World.closeFd, hne] using hfd)
  | @close c' fd' =>
    rcases eq_or_ne fd fd' with rfl | hne
    · exact .inr (by simp [World.goto, World.closeFd])
    · exact .inl (by simpa [World.goto, World.closeFd, hne] using hfd)
  | _ => exact .inl hfd

/-! ### The table -/

/-- What a step does to the table. -/
inductive Changes (w : World) (l : Label) (w' : World) : Prop
  | same (htable : w'.table = w.table)
  | refreshed (i : ℕ) (f : Cliente → Cliente) (hf : Refresh f)
      (htable : w'.table = w.table.modifySlot i f) (hlog : w'.log = w.log)
  | added (c : ℕ) (fd : ℤ) (ip : List UInt8) (pkt : ChatPacket) (now : ℤ)
      (hl : l = ⟨.main, .clock now⟩) (hs : w.sending .main = none)
      (hpc : w.pc .main = .register c fd ip pkt) (hm : w.mutexLista = none)
      (hnum : w.table.numClientes < maxClients)
      (hdup : duplicate w.table pkt.senderPtr ip = false)
      (htable : w'.table = ChatSystem.added w.table (newCliente pkt.senderPtr ip fd now))
      (hlog : w'.log = .registered c (addSlot w.table) (newCliente pkt.senderPtr ip fd now)
        :: w.log)
  | removed (c : ℕ) (fd : ℤ) (username : CharArray 32)
      (hl : l = ⟨.client c, .go⟩) (hs : w.sending (.client c) = none)
      (hpc : w.pc (.client c) = .remove fd username) (hm : w.mutexLista = none)
      (htable : w'.table = (clRemove w.table fd).2) (hlog : w'.log = .removed c :: w.log)

theorem Move.changes (h : Move w l w') : Changes w l w' := by
  cases h with
  | @add c fd ip pkt now hs hpc hm hnum hdup =>
    exact .added c fd ip pkt now rfl hs hpc hm hnum hdup rfl rfl
  | @remove c fd username hs hpc hm =>
    exact .removed c fd username rfl hs hpc hm rfl rfl
  | @touch c fd pkt now | @reactivate c fd pkt now =>
    rcases clTouch_snd w.table fd now with heq | ⟨i, -, -, -, heq⟩
    · exact .same heq
    · exact .refreshed i _ (refresh_touchCliente now) heq rfl
  | @status c fd pkt =>
    rcases clSetStatus_snd w.table pkt.senderPtr pkt.payloadPtr with heq | ⟨i, -, -, -, -, heq⟩
    · exact .same heq
    · exact .refreshed i _ (refresh_setStatus _) heq rfl
  | @sweepMark now i | @sweepSkip now i =>
    rcases sweepSlot_eq now w.table i with heq | heq
    · exact .same heq
    · exact .refreshed i _ refresh_markInactive heq rfl
  | _ => exact .same rfl

/-- The table changes while the mutex is free, or under the monitor that holds
it, between two notices. -/
theorem Move.table_cases (h : Move w l w') :
    w'.table = w.table ∨ w.mutexLista = none ∨
      l.tid = .monitor ∧ w.sending .monitor = none ∧ ∃ now i, w.pc .monitor = .sweep now i := by
  cases h with
  | add _ _ hm | touch _ _ hm | reactivate _ _ hm | status _ _ hm | remove _ _ hm =>
    exact .inr (.inl hm)
  | sweepMark hs hpc | sweepSkip hs hpc => exact .inr (.inr ⟨rfl, hs, _, _, hpc⟩)
  | _ => exact .inl rfl

/-! ### Bytes in transit -/

/-- A `send()`, by whichever thread. -/
def Event.IsSend : Event → Prop
  | send .. => True
  | _ => False

/-- What a step does about `send_packet` calls. -/
inductive Transmits (w : World) (l : Label) (w' : World) : Prop
  | wrote (s : Sending) (c n : ℕ) (hs : w.sending l.tid = some s)
      (ha : l.answer = .wrote n) (hc : w.descr s.fd = some c) (hn : 0 < n)
      (hle : s.total + n ≤ 1024)
      (hwire : w'.wire = Function.update w.wire c
        (w.wire c ++ (s.pkt.toBytes.drop s.total).take n))
      (hsending : w'.sending = Function.update w.sending l.tid
        (if s.total + n < 1024 then some { s with total := s.total + n } else none))
      (hlog : w'.log = .send l.tid s (some c) (some n) w.sections :: w.log)
      (hpc : w'.pc = w.pc) (hdescr : w'.descr = w.descr)
  | failed (s : Sending) (hs : w.sending l.tid = some s) (ha : l.answer = .fail)
      (hwire : w'.wire = w.wire)
      (hsending : w'.sending = Function.update w.sending l.tid none)
      (hlog : w'.log = .send l.tid s (w.descr s.fd) none w.sections :: w.log)
      (hpc : w'.pc = w.pc) (hdescr : w'.descr = w.descr)
  | quiet (o : Option Sending) (hs : w.sending l.tid = none) (hwire : w'.wire = w.wire)
      (hsending : w'.sending = Function.update w.sending l.tid o)
      (ho : ∀ s, o = some s → s.total = 0)
      (hlog : w'.log = w.log ∨ ∃ e, w'.log = e :: w.log ∧ ¬ e.IsSend)

theorem Move.transmits (h : Move w l w') : Transmits w l w' := by
  cases h with
  | wrote hs hc hn hle => exact .wrote _ _ _ hs rfl hc hn hle rfl rfl rfl rfl rfl
  | sendFail hs => exact .failed _ hs rfl rfl rfl rfl rfl rfl
  | accept hs | recvFirst hs | recvFirstFail hs | check hs | closeFirst hs
  | recvActivity hs | recvQuery hs | recvIgnored hs | recvFail hs | broadcast hs
  | fanoutEnd hs | directUnlock hs | remove hs | close hs | notify hs | sweepStart hs
  | sweepEnd hs =>
    exact .quiet none hs rfl (idle_update hs) (by simp) (.inr ⟨_, rfl, id⟩)
  | acceptFail hs | spawn hs | touch hs | fanoutSkip hs | resolve hs | resolved hs | wake hs
  | sweepSkip hs =>
    exact .quiet none hs rfl (idle_update hs) (by simp) (.inl rfl)
  | add hs | refuse hs | recvLogout hs | direct hs =>
    exact .quiet (some _) hs rfl rfl (by rintro s ⟨⟩; rfl) (.inr ⟨_, rfl, id⟩)
  | reactivate hs | directMissing hs | status hs | list hs | info hs | fanoutSend hs
  | sweepMark hs =>
    exact .quiet (some _) hs rfl rfl (by rintro s ⟨⟩; rfl) (.inl rfl)

/-- A `send()` is recorded by the thread whose call it belongs to. -/
theorem Move.send_of_log (h : Move w l w') {t : Tid} {s : Sending} {peer written : Option ℕ}
    {k : ℕ} (hlog : w'.log = .send t s peer written k :: w.log) :
    t = l.tid ∧ w.sending t = some s ∧ peer = w.descr s.fd ∧ k = w.sections := by
  rcases h.transmits with ⟨s', c, n, hs, -, hc, -, -, -, -, hlog', -⟩ |
    ⟨s', hs, -, -, -, hlog', -⟩ | ⟨o, -, -, -, -, hsame | ⟨e, hlog', hne⟩⟩
  · obtain ⟨heq, -⟩ := List.cons.inj (hlog.symm.trans hlog')
    cases heq
    exact ⟨rfl, hs, hc.symm, rfl⟩
  · obtain ⟨heq, -⟩ := List.cons.inj (hlog.symm.trans hlog')
    cases heq
    exact ⟨rfl, hs, rfl, rfl⟩
  · rw [hsame] at hlog
    simp at hlog
  · obtain ⟨rfl, -⟩ := List.cons.inj (hlog.symm.trans hlog')
    exact absurd trivial hne

/-- A thread with a call in progress can only `send()`. -/
theorem Move.log_of_sending (h : Move w l w') {s : Sending} (hs : w.sending l.tid = some s) :
    ∃ written, w'.log = .send l.tid s (w.descr s.fd) written w.sections :: w.log := by
  rcases h.transmits with ⟨s', c, n, hs', -, hc, -, -, -, -, hlog, -⟩ |
    ⟨s', hs', -, -, -, hlog, -⟩ | ⟨o, hidle, -⟩
  · obtain rfl := Option.some.inj (hs'.symm.trans hs)
    rw [hc]
    exact ⟨some n, hlog⟩
  · obtain rfl := Option.some.inj (hs'.symm.trans hs)
    exact ⟨none, hlog⟩
  · rw [hs] at hidle
    cases hidle

theorem Move.pc_of_sending (h : Move w l w') {s : Sending} (hs : w.sending l.tid = some s) :
    w'.pc = w.pc := by
  rcases h.transmits with ⟨_, _, _, -, -, -, -, -, -, -, -, hpc, -⟩ |
    ⟨_, -, -, -, -, -, hpc, -⟩ | ⟨o, hidle, -⟩
  · exact hpc
  · exact hpc
  · rw [hs] at hidle
    cases hidle

theorem Move.table_of_sending (h : Move w l w') {s : Sending} (hs : w.sending l.tid = some s) :
    w'.table = w.table := by
  obtain ⟨written, hlog⟩ := h.log_of_sending hs
  rcases h.changes with htable | ⟨i, f, -, -, hsame⟩ |
    ⟨c, fd, ip, pkt, now, -, -, -, -, -, -, -, hadd⟩ | ⟨c, fd, username, -, -, -, -, -, hrem⟩
  · exact htable
  · rw [hlog] at hsame
    exact absurd hsame (List.cons_ne_self _ _)
  · cases (List.cons.inj (hlog.symm.trans hadd)).1
  · cases (List.cons.inj (hlog.symm.trans hrem)).1

/-- A call in progress was in progress before the step, or its thread has just
made it. -/
theorem Move.pending_cases (h : Move w l w') {t : Tid} {s : Sending}
    (hs : w'.sending t = some s) :
    (∃ s₀, w.sending t = some s₀ ∧ s₀.pkt = s.pkt ∧ s₀.site = s.site) ∨
      t = l.tid ∧ w.sending t = none := by
  by_cases ht : t = l.tid
  · subst ht
    rcases h.transmits with ⟨s₀, c, n, hs₀, -, -, -, -, -, hsending, -⟩ |
      ⟨s₀, -, -, -, hsending, -⟩ | ⟨o, hidle, -⟩
    · rw [hsending, Function.update_self] at hs
      split at hs
      · cases hs
        exact .inl ⟨s₀, hs₀, rfl, rfl⟩
      · cases hs
    · rw [hsending, Function.update_self] at hs
      cases hs
    · exact .inr ⟨rfl, hidle⟩
  · rw [(h.local_of_ne ht).1] at hs
    exact .inl ⟨s, hs, rfl, rfl⟩

/-- The call of `send_packet` a step makes. -/
inductive Starts (w : World) (w' : World) : Label → Sending → Prop
  | register {c fd ip pkt now rc} (hpc : w.pc .main = .register c fd ip pkt) :
      Starts w w' ⟨.main, .clock now⟩ ⟨fd, registerReply rc pkt, 0, .register rc⟩
  | logout {c fd pkt} (hpc : w.pc (.client c) = .recv fd) (hcmd : pkt.command = cmdLogout) :
      Starts w w' ⟨.client c, .packet pkt⟩ ⟨fd, handleLogout pkt, 0, .reply pkt⟩
  | reactivation {c fd pkt now} (hpc : w.pc (.client c) = .touch fd pkt) :
      Starts w w' ⟨.client c, .clock now⟩ ⟨fd, reactivationNotice, 0, .reactivation⟩
  | direct {c fd pkt i} (hpc : w.pc (.client c) = .handle fd pkt) (hm : w.mutexLista = none)
      (hcmd : pkt.command = cmdDirect) (hfind : clFindByName w.table pkt.targetPtr = some i) :
      Starts w w' ⟨.client c, .go⟩
        ⟨(w.table.at i).sockfd, handleDirect pkt, 0, .direct pkt i⟩
  | directMissing {c fd pkt} (hpc : w.pc (.client c) = .handle fd pkt)
      (hcmd : pkt.command = cmdDirect) :
      Starts w w' ⟨.client c, .go⟩ ⟨fd, directError pkt, 0, .reply pkt⟩
  | status {c fd pkt} (hpc : w.pc (.client c) = .handle fd pkt) (hcmd : pkt.command = cmdStatus) :
      Starts w w' ⟨.client c, .go⟩ ⟨fd, (handleStatus w.table pkt).2, 0, .reply pkt⟩
  | list {c fd pkt} (hpc : w.pc (.client c) = .handle fd pkt) (hcmd : pkt.command = cmdList)
      (htable : w'.table = w.table) :
      Starts w w' ⟨.client c, .go⟩ ⟨fd, handleList w.table pkt, 0, .reply pkt⟩
  | info {c fd pkt} (hpc : w.pc (.client c) = .handle fd pkt) :
      Starts w w' ⟨.client c, .go⟩ ⟨fd, handleInfo w.table pkt, 0, .reply pkt⟩
  | fanout {c p i msg site next done} (hpc : w.pc (.client c) = p)
      (hf : FanoutAt p i msg site next done) (hi : i < w.table.numClientes)
      (hact : (w.table.at i).activo = true) (hnext : w'.pc (.client c) = next) :
      Starts w w' ⟨.client c, .go⟩ ⟨(w.table.at i).sockfd, msg, 0, site i⟩
  | inactivity {now i} (hpc : w.pc .monitor = .sweep now i) (hi : i < w.table.numClientes)
      (hidle : idle now (w.table.at i) = true) :
      Starts w w' ⟨.monitor, .go⟩ ⟨(w.table.at i).sockfd,
        inactivityNotice (w.table.at i).username.bytes, 0, .inactivity i⟩

/-- **What a step that makes a call does.** -/
theorem Move.starts (h : Move w l w') (hs : w.sending l.tid = none) {s : Sending}
    (hs' : w'.sending l.tid = some s) : Starts w w' l s := by
  have hnew {f : Tid → Option Sending} {t : Tid} {s₀ : Sending}
      (hf : Function.update f t (some s₀) t = some s) : s₀ = s := by
    rw [Function.update_self] at hf
    exact Option.some.inj hf
  cases h with
  | wrote hsome | sendFail hsome =>
    rw [hsome] at hs
    cases hs
  | add _ hpc | refuse _ hpc =>
    obtain rfl := Option.some.inj hs'
    exact .register hpc
  | recvLogout _ hpc hcmd =>
    obtain rfl := hnew hs'
    exact .logout hpc hcmd
  | reactivate _ hpc =>
    obtain rfl := hnew hs'
    exact .reactivation hpc
  | direct _ hpc hm hcmd hfind hr =>
    obtain rfl := hnew hs'
    subst hr
    exact .direct hpc hm hcmd hfind
  | directMissing _ hpc _ hcmd =>
    obtain rfl := hnew hs'
    exact .directMissing hpc hcmd
  | status _ hpc _ hcmd =>
    obtain rfl := hnew hs'
    exact .status hpc hcmd
  | list _ hpc _ hcmd =>
    obtain rfl := hnew hs'
    exact .list hpc hcmd rfl
  | info _ hpc =>
    obtain rfl := hnew hs'
    exact .info hpc
  | fanoutSend _ hpc hf hi hact =>
    obtain rfl := hnew hs'
    exact .fanout hpc hf hi hact (Function.update_self ..)
  | sweepMark _ hpc hi hidle =>
    obtain rfl := Option.some.inj hs'
    exact .inactivity hpc hi hidle
  | _ => exact absurd (hs.symm.trans hs') (by simp)

/-- A call in progress has bytes left to send. -/
def Unfinished (w : World) : Prop := ∀ t s, w.sending t = some s → s.total < 1024

theorem Unfinished.step (h : Unfinished w) (hm : Move w l w') : Unfinished w' := by
  intro t s hs
  by_cases ht : t = l.tid
  · subst ht
    rcases hm.transmits with ⟨s₀, c, n, -, -, -, -, -, -, hsending, -⟩ |
      ⟨s₀, -, -, -, hsending, -⟩ | ⟨o, -, -, hsending, ho, -⟩
    · rw [hsending, Function.update_self] at hs
      split at hs
      · cases hs
        assumption
      · cases hs
    · rw [hsending, Function.update_self] at hs
      cases hs
    · rw [hsending, Function.update_self] at hs
      rw [ho s hs]
      decide
  · rw [(hm.local_of_ne ht).1] at hs
    exact h t s hs

/-! ### Whole packets at once -/

/-- A `send()` takes the whole packet. -/
def Atomic (w : World) (l : Label) : Prop :=
  w.sending l.tid ≠ none → l.answer = .wrote 1024

/-- Packets have been sent at once: no call in progress has sent anything, and
every `send()` so far took a whole packet. -/
structure Whole (w : World) : Prop where
  pending : ∀ t s, w.sending t = some s → s.total = 0
  sent : ∀ t s peer written k, .send t s peer written k ∈ w.log →
    s.total = 0 ∧ written = some 1024

theorem Whole.step (h : Whole w) (ha : Atomic w l) (hm : Move w l w') : Whole w' := by
  rcases hm.transmits with ⟨s, c, n, hs, hans, -, -, -, -, hsending, hlog, -⟩ |
    ⟨s, hs, hans, -⟩ | ⟨o, hidle, -, hsending, ho, hlog⟩
  · -- an atomic step writes all that is left, and all was left
    have hn : n = 1024 := Answer.wrote.inj (hans.symm.trans (ha (by rw [hs]; simp)))
    subst hn
    constructor
    · intro t s' hs'
      rw [hsending] at hs'
      by_cases ht : t = l.tid
      · subst ht
        rw [Function.update_self, if_neg (by omega)] at hs'
        cases hs'
      · rw [Function.update_of_ne ht] at hs'
        exact h.pending t s' hs'
    · intro t s' peer written k hmem
      rw [hlog] at hmem
      rcases List.mem_cons.mp hmem with heq | hmem
      · cases heq
        exact ⟨h.pending _ s hs, rfl⟩
      · exact h.sent t s' peer written k hmem
  · -- a failure is not atomic
    have hans' := ha (by rw [hs]; simp)
    rw [hans] at hans'
    cases hans'
  · constructor
    · intro t s hs
      rw [hsending] at hs
      by_cases ht : t = l.tid
      · subst ht
        rw [Function.update_self] at hs
        exact ho s hs
      · rw [Function.update_of_ne ht] at hs
        exact h.pending t s hs
    · intro t s peer written k hmem
      rcases hlog with hlog | ⟨e, hlog, hne⟩
      · rw [hlog] at hmem
        exact h.sent t s peer written k hmem
      · rw [hlog] at hmem
        rcases List.mem_cons.mp hmem with rfl | hmem
        · exact absurd trivial hne
        · exact h.sent t s peer written k hmem

theorem Whole.init : Whole World.init where
  pending := by
    intro t s hs
    cases hs
  sent := by
    intro t s peer written k hmem
    cases hmem

theorem whole_of_run {tr : List (World × Label)} (h : Run step World.init tr w)
    (ha : StepsAll Atomic tr) : StatesAll Whole tr w :=
  h.statesAll_of_steps .init (fun _ _ _ hwhole hatomic hs => hwhole.step hatomic (move_of_step hs))
    ha

/-- An answer other than a failure or a part of a packet. -/
def Answer.whole : Answer → Bool
  | wrote n => n == 1024
  | fail => false
  | _ => true

theorem atomic_of_labels {tr : List (World × Label)} {ls : List Label}
    (h : Run step World.init tr w) (hls : tr.map Prod.snd = ls.reverse)
    (hwhole : ∀ l ∈ ls, l.answer.whole = true) : StepsAll Atomic tr := by
  intro x hx hsend
  have hmem : x.2 ∈ tr.map Prod.snd := List.mem_map_of_mem hx
  rw [hls, List.mem_reverse] at hmem
  have hans := hwhole _ hmem
  obtain ⟨w', hs⟩ := h.enabled x hx
  rcases (move_of_step hs).transmits with ⟨s, c, n, -, ha, -⟩ | ⟨s, -, ha, -⟩ | ⟨o, hidle, -⟩
  · rw [ha] at hans ⊢
    rw [beq_iff_eq.mp hans]
  · rw [ha] at hans
    cases hans
  · exact absurd hidle hsend

end ChatSystem
