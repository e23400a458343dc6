/-
ChatSystem/Progress.lean

The server does not deadlock, and no thread keeps the mutex.

A thread is *resting* at a call that waits for the network or the clock
(`accept`, `recv_packet`, `sleep`), before it is created and after it ends.
Everything in between is bounded work: `busyWork` counts the steps a thread
has left until it rests again, where a loop over the table costs one step and
up to 1024 `send()`s a slot.  Every step of a busy thread lowers it
(`Move.busyWork_lt`) and no step of another thread touches it, so

* a thread makes at most 104551 steps from one rest to the next
  (`busy_steps_le`), however its `send()`s split and whoever runs in between;
* a thread that cannot step has ended or waits in `pthread_mutex_lock`, and
  then the holder can go on, and frees the mutex in so many steps
  (`can_be_released`).

A step of `send_packet` is a `send()` that returns: one that blocks for ever, on a
client that does not read, keeps the mutex.  Nor is it said that a waiting thread
gets the mutex: the scheduler may hand it to another one for ever.
-/
import ChatSystem.Replay
import ChatSystem.Sections

namespace ChatSystem

open CStr Lts

/-! ### Where a thread waits -/

namespace Pc

/-- The next call is `pthread_mutex_lock`. -/
def waits : Pc → Bool
  | register .. | check .. | awake _ | touch .. | handle .. | remove .. | notify _ => true
  | resolve _ username => decide (username.str = [])
  | _ => false

/-- The thread waits for the network or the clock, has not been created or has
ended. -/
def rests : Pc → Bool
  | accept | recvFirst .. | sleep | recv _ | notStarted | exited => true
  | _ => false

/-- The thread does not exist. -/
def absent : Pc → Bool
  | notStarted | exited => true
  | _ => false

end Pc

/-- A thread at rest, with no `send_packet` call in progress. -/
def World.Resting (w : World) (t : Tid) : Prop := w.sending t = none ∧ (w.pc t).rests = true

variable {w w' : World} {l : Label} {t : Tid}

/-! ### Who can step -/

/-- A `send_packet` call goes on: its descriptor takes any number of the bytes
that are left. -/
theorem send_goes_on (h : Inv w) {s : Sending} (hs : w.sending t = some s) {n : ℕ}
    (hn : 0 < n) (hle : s.total + n ≤ 1024) : ∃ w', step w ⟨t, .wrote n⟩ = some w' := by
  obtain ⟨c, hc, -⟩ := h.send_allowed hs
  simp [step, hs, sendStep, hc, hn, hle]

/-- A thread that neither waits for the mutex nor has ended can step. -/
theorem exists_step_of_not_waits (h : Inv w) (hs : w.sending t = none)
    (hwait : (w.pc t).waits = false) (habs : (w.pc t).absent = false) :
    ∃ a w', step w ⟨t, a⟩ = some w' := by
  have hrun := h.runBy (t := t) rfl
  rcases hpc : w.pc t <;> rw [hpc] at hrun hwait habs <;>
    simp only [Pc.waits, Pc.absent, Bool.true_eq_false, decide_eq_false_iff_not] at hwait habs
  -- the calls that wait for the network may fail, `sleep` returns
  case accept | recvFirst =>
    obtain rfl : t = .main := hrun
    exact ⟨.fail, by simp [step, hs, mainStep, hpc]⟩
  case sleep =>
    obtain rfl : t = .monitor := hrun
    exact ⟨.clock 0, by simp [step, hs, monitorStep, hpc]⟩
  case recv =>
    obtain ⟨c, rfl⟩ : ∃ c, t = .client c := hrun
    exact ⟨.fail, by simp [step, hs, clientStep, hpc]⟩
  -- everything else goes on by itself
  case spawn | closeFirst =>
    obtain rfl : t = .main := hrun
    exact ⟨.go, by simp [step, hs, mainStep, hpc]⟩
  case sweep =>
    obtain rfl : t = .monitor := hrun
    refine ⟨.go, ?_⟩
    simp only [step, hs, monitorStep, hpc]
    split <;> exact ⟨_, rfl⟩
  case broadcasting | directUnlock | close | notifying =>
    obtain ⟨c, rfl⟩ : ∃ c, t = .client c := hrun
    exact ⟨.go, by simp [step, hs, clientStep, hpc]⟩
  case resolve =>
    obtain ⟨c, rfl⟩ : ∃ c, t = .client c := hrun
    exact ⟨.go, by simp [step, hs, clientStep, hpc, hwait]⟩

/-- So can one that waits for a free mutex. -/
theorem exists_step_of_free (h : Inv w) (hs : w.sending t = none)
    (hwait : (w.pc t).waits = true) (hm : w.mutexLista = none) :
    ∃ a w', step w ⟨t, a⟩ = some w' := by
  have hrun := h.runBy (t := t) rfl
  rcases hpc : w.pc t <;> rw [hpc] at hrun hwait <;>
    simp only [Pc.waits, Bool.false_eq_true, decide_eq_true_eq] at hwait
  case register =>
    obtain rfl : t = .main := hrun
    exact ⟨.clock 0, by simp [step, hs, mainStep, hpc, hm]⟩
  case check =>
    obtain rfl : t = .main := hrun
    exact ⟨.go, by simp [step, hs, mainStep, hpc, hm]⟩
  case awake =>
    obtain rfl : t = .monitor := hrun
    exact ⟨.go, by simp [step, hs, monitorStep, hpc, hm]⟩
  case touch =>
    obtain ⟨c, rfl⟩ : ∃ c, t = .client c := hrun
    exact ⟨.clock 0, by simp [step, hs, clientStep, hpc, hm]⟩
  case handle | remove | notify | resolve =>
    obtain ⟨c, rfl⟩ : ∃ c, t = .client c := hrun
    exact ⟨.go, by simp [step, hs, clientStep, hpc, hm, hwait]⟩

/-- A waiting thread is stopped by whoever holds the mutex. -/
theorem Move.free_of_waits (h : Move w l w') (hs : w.sending l.tid = none)
    (hwait : (w.pc l.tid).waits = true) : w.mutexLista = none := by
  cases h with
  | fanoutSend _ hpc hf | fanoutSkip _ hpc hf | fanoutEnd _ hpc hf =>
    -- a loop runs with the mutex taken
    cases hf <;> simp [hpc, Pc.waits] at hwait
  | wrote hsome | sendFail hsome => rw [hsome] at hs; cases hs
  | resolve _ hpc hname hm => exact hm
  | resolved _ hpc hname => simp [hpc, Pc.waits, hname] at hwait
  | add _ _ hm | refuse _ _ hm | check _ _ hm | touch _ _ hm | reactivate _ _ hm
  | broadcast _ _ hm | direct _ _ hm | directMissing _ _ hm | status _ _ hm | list _ _ hm
  | info _ _ hm | remove _ _ hm | notify _ _ hm | sweepStart _ _ hm => exact hm
  | accept _ hpc | acceptFail _ hpc | recvFirst _ hpc | recvFirstFail _ hpc | spawn _ hpc
  | closeFirst _ hpc | recvActivity _ hpc | recvQuery _ hpc | recvLogout _ hpc
  | recvIgnored _ hpc | recvFail _ hpc | directUnlock _ hpc | close _ hpc | wake _ hpc
  | sweepMark _ hpc | sweepSkip _ hpc | sweepEnd _ hpc => simp [hpc, Pc.waits] at hwait

/-- A thread that does not exist makes no step. -/
theorem Move.present (h : Move w l w') (hs : w.sending l.tid = none) :
    (w.pc l.tid).absent = false := by
  cases h with
  | wrote hsome | sendFail hsome => rw [hsome] at hs; cases hs
  | fanoutSend _ hpc hf | fanoutSkip _ hpc hf | fanoutEnd _ hpc hf =>
    cases hf <;> simp [hpc, Pc.absent]
  | add _ hpc | refuse _ hpc | check _ hpc | touch _ hpc | reactivate _ hpc
  | broadcast _ hpc | direct _ hpc | directMissing _ hpc | status _ hpc | list _ hpc
  | info _ hpc | remove _ hpc | notify _ hpc | sweepStart _ hpc | resolve _ hpc
  | resolved _ hpc | accept _ hpc | acceptFail _ hpc | recvFirst _ hpc | recvFirstFail _ hpc
  | spawn _ hpc | closeFirst _ hpc | recvActivity _ hpc | recvQuery _ hpc | recvLogout _ hpc
  | recvIgnored _ hpc | recvFail _ hpc | directUnlock _ hpc | close _ hpc | wake _ hpc
  | sweepMark _ hpc | sweepSkip _ hpc | sweepEnd _ hpc => simp [hpc, Pc.absent]

/-- A thread that does not exist sends nothing. -/
theorem Inv.sending_of_absent (h : Inv w) (habs : (w.pc t).absent = true) :
    w.sending t = none := by
  rcases hs : w.sending t with - | s
  · rfl
  have hok := (h.threads t).sends s hs
  unfold SendOk at hok
  rcases hpc : w.pc t <;> rw [hpc] at habs hok <;> simp only [Pc.absent, Bool.false_eq_true] at habs
  all_goals split at hok <;> simp [Pc.locked, Pc.fd?] at hok

/-- A `send()` may fail at any time. -/
theorem send_fails {s : Sending} (hs : w.sending t = some s) :
    ∃ w', step w ⟨t, .fail⟩ = some w' := by
  simp [step, hs, sendStep]

/-- **Who cannot step**: a thread that has not been created or has ended, and
one that waits for the mutex while somebody else holds it. -/
theorem stuck_iff (h : Inv w) :
    (∀ a, step w ⟨t, a⟩ = none) ↔ (w.pc t).absent = true ∨
      (w.sending t = none ∧ (w.pc t).waits = true ∧
        ∃ t', t' ≠ t ∧ w.mutexLista = some t') := by
  constructor
  · intro hstuck
    have hno : ¬ ∃ a w', step w ⟨t, a⟩ = some w' := by
      rintro ⟨a, w', hs⟩
      rw [hstuck a] at hs
      cases hs
    rcases habs : (w.pc t).absent with - | -
    · have hs : w.sending t = none := by
        rcases hs : w.sending t with - | s
        · rfl
        · exact absurd ⟨.fail, send_fails hs⟩ hno
      rcases hwait : (w.pc t).waits with - | -
      · exact absurd (exists_step_of_not_waits h hs hwait habs) hno
      rcases hm : w.mutexLista with - | t'
      · exact absurd (exists_step_of_free h hs hwait hm) hno
      · refine .inr ⟨hs, rfl, t', ?_, rfl⟩
        -- nobody waits for a mutex of his own
        rintro rfl
        have hlocked := (h.threads t').lock.mp hm
        cases hpc : w.pc t' <;> simp_all [Pc.waits, Pc.locked]
    · exact .inl rfl
  · rintro (habs | ⟨hs, hwait, t', -, hm⟩) a
    · rcases hstep : step w ⟨t, a⟩ with - | w'
      · rfl
      · have hpres := (move_of_step hstep).present (h.sending_of_absent habs)
        rw [habs] at hpres
        cases hpres
    · rcases hstep : step w ⟨t, a⟩ with - | w'
      · rfl
      · have hfree := (move_of_step hstep).free_of_waits hs hwait
        rw [hm] at hfree
        cases hfree

/-! ### Bounded work -/

/-- What a loop over the table costs from slot `i` on, its unlock included. -/
def loopWork (i : ℕ) : ℕ := (maxClients - i) * 1025 + 1

/-- The steps a thread makes from a program point until it rests, at most. -/
def Pc.busyWork : Pc → ℕ
  | accept | recvFirst .. | sleep | recv _ | notStarted | exited => 0
  | register .. => 1027
  | check .. => 2
  | spawn .. | closeFirst .. | directUnlock _ => 1
  | awake _ | handle .. | notify _ => loopWork 0 + 1
  | sweep _ i | broadcasting _ _ i | notifying _ i => loopWork i
  -- a reactivation notice, then the handler
  | touch .. => loopWork 0 + 1026
  | close .. => loopWork 0 + 2
  | remove .. => loopWork 0 + 3
  | resolve .. => loopWork 0 + 4

/-- The `send()`s of a call, at one byte each. -/
def Sending.left (s : Sending) : ℕ := 1024 - s.total

/-- The steps thread `t` makes until it rests, at most. -/
def World.busyWork (w : World) (t : Tid) : ℕ :=
  (w.pc t).busyWork + ((w.sending t).map Sending.left).getD 0

theorem loopWork_succ {i : ℕ} (hi : i < maxClients) : loopWork i = loopWork (i + 1) + 1025 := by
  unfold loopWork
  omega

theorem loopWork_pos (i : ℕ) : 0 < loopWork i := Nat.succ_pos _

/-- An iteration and the `send_packet` call in it. -/
theorem FanoutAt.busyWork {p : Pc} {i : ℕ} {msg : ChatPacket} {site : ℕ → Site}
    {next done : Pc} (h : FanoutAt p i msg site next done) :
    p.busyWork = loopWork i ∧ next.busyWork = loopWork (i + 1) ∧ done.busyWork = 0 := by
  cases h <;> exact ⟨rfl, rfl, rfl⟩

/-- Steps from `p` to `p'` with the call `o` begun. -/
theorem busyWork_of_pc {p p' : Pc} {o : Option Sending} (hs : w.sending t = none)
    (hp : w.pc t = p) (hp' : w'.pc t = p') (ho : w'.sending t = o)
    (hlt : p'.busyWork + (o.map Sending.left).getD 0 < p.busyWork) :
    w'.busyWork t < w.busyWork t := by
  unfold World.busyWork
  rw [hs, hp, hp', ho]
  exact hlt

/-- **A busy thread's step leaves it less to do.** -/
theorem Move.busyWork_lt (h : Move w l w') (hshort : Unfinished w)
    (hnum : w.table.numClientes ≤ maxClients) (hbusy : ¬ w.Resting l.tid) :
    w'.busyWork l.tid < w.busyWork l.tid := by
  have hloop := loopWork_pos 0
  cases h with
  | @wrote t s c n hs hc hn hle =>
    simp only [World.busyWork, World.emit, Function.update_self, hs, Option.map_some,
      Option.getD_some]
    split
    · simp only [Option.map_some, Option.getD_some, Sending.left]
      omega
    · simp only [Option.map_none, Option.getD_none, Sending.left]
      have := hshort t s hs
      omega
  | @sendFail t s hs =>
    have := hshort t s hs
    simp only [World.busyWork, World.emit, Function.update_self, hs, Option.map_some,
      Option.getD_some, Option.map_none, Option.getD_none, Sending.left]
    omega
  -- a thread at rest is not busy
  | accept hs hpc | acceptFail hs hpc | recvFirst hs hpc | recvFirstFail hs hpc
  | recvActivity hs hpc | recvQuery hs hpc | recvLogout hs hpc | recvIgnored hs hpc
  | recvFail hs hpc | wake hs hpc => exact absurd ⟨hs, by simp [hpc, Pc.rests]⟩ hbusy
  | add hs hpc | refuse hs hpc | spawn hs hpc | closeFirst hs hpc | touch hs hpc
  | reactivate hs hpc | broadcast hs hpc | directUnlock hs hpc | resolve hs hpc
  | resolved hs hpc | remove hs hpc | notify hs hpc | sweepStart hs hpc =>
    refine busyWork_of_pc hs hpc rfl rfl ?_
    simp [World.emit, World.call, World.goto, World.setTable, World.lock, World.unlock,
      World.closeFd, hs, Pc.busyWork, Sending.left]
  | direct hs hpc | directMissing hs hpc | status hs hpc | list hs hpc | info hs hpc =>
    refine busyWork_of_pc hs hpc rfl rfl ?_
    simp [World.call, World.goto, World.setTable, World.lock, Pc.busyWork, Sending.left,
      loopWork, maxClients]
  | check hs hpc =>
    refine busyWork_of_pc hs hpc rfl hs ?_
    simp only [World.emit, World.goto, Function.update_self]
    split <;> simp [Pc.busyWork]
  | close hs hpc =>
    refine busyWork_of_pc hs hpc rfl hs ?_
    simp only [World.closeFd, World.goto, Function.update_self]
    split <;> simp [Pc.busyWork]
  -- one iteration of a loop
  | fanoutSend hs hpc hf hi =>
    obtain ⟨hp, hnext, -⟩ := hf.busyWork
    refine busyWork_of_pc hs hpc rfl rfl ?_
    simp only [World.call, World.goto, Function.update_self, hp, hnext,
      loopWork_succ (hi.trans_le hnum)]
    simp [Sending.left]
  | fanoutSkip hs hpc hf hi =>
    obtain ⟨hp, hnext, -⟩ := hf.busyWork
    refine busyWork_of_pc hs hpc rfl hs ?_
    simp only [World.goto, Function.update_self, hp, hnext, loopWork_succ (hi.trans_le hnum)]
    simp
  | @sweepMark now i hs hpc hi | @sweepSkip now i hs hpc hi =>
    refine busyWork_of_pc hs hpc rfl rfl ?_
    simp [World.call, World.goto, World.setTable, hs, Pc.busyWork, Sending.left,
      loopWork_succ (hi.trans_le hnum)]
  -- and its end
  | @fanoutEnd c p i msg site next done hs hpc hf hi =>
    obtain ⟨hp, -, hdone⟩ := hf.busyWork
    refine busyWork_of_pc hs hpc rfl hs ?_
    simpa [World.goto, World.unlock, hp, hdone] using loopWork_pos i
  | @sweepEnd now i hs hpc hi =>
    refine busyWork_of_pc hs hpc rfl hs ?_
    simpa [World.goto, World.unlock, Pc.busyWork] using loopWork_pos i

/-- The steps of the other threads leave it as much. -/
theorem Move.busyWork_of_ne (h : Move w l w') (hinv : Inv w) (ht : t ≠ l.tid) :
    w'.busyWork t = w.busyWork t := by
  obtain ⟨hsending, hpc | ⟨c, fd, rfl, hspawn, hpc⟩⟩ := h.local_of_ne ht
  · simp [World.busyWork, hsending, hpc]
  · -- a new thread rests
    have hns := (hinv.threads .main).alone rfl c (by rw [hspawn]; rfl)
    simp [World.busyWork, hsending, hpc, hns, Pc.busyWork]

theorem busyWork_le (t : Tid) : w.busyWork t ≤ 104551 := by
  have hpc : (w.pc t).busyWork ≤ 103527 := by
    rcases w.pc t <;> simp only [Pc.busyWork, loopWork, maxClients] <;> omega
  have hleft : ((w.sending t).map Sending.left).getD 0 ≤ 1024 := by
    rcases w.sending t with - | s
    · exact Nat.zero_le _
    · exact Nat.sub_le _ _
  unfold World.busyWork
  omega

/-- What these results rest on. -/
structure Working (w : World) : Prop where
  inv : Inv w
  unfinished : Unfinished w

theorem Working.move (h : Working w) (hm : Move w l w') : Working w' :=
  ⟨h.inv.move hm, h.unfinished.step hm⟩

theorem working_of_reachable (h : Reachable step World.init w) : Working w :=
  h.invariant ⟨.init, fun t s hs => by cases hs⟩ fun _ _ _ hI hs => hI.move (move_of_step hs)

/-- A thread makes a bounded number of steps while it is busy. -/
theorem Working.busy_steps {tr : List (World × Label)} (h : Working w) (hrun : Run step w tr w')
    (hbusy : StepsAll (fun w l => l.tid = t → ¬ w.Resting t) tr) :
    tr.countP (fun x => decide (x.2.tid = t)) ≤ 104551 := by
  have hcount := hrun.countP_add_le (I := Working) (μ := fun w => w.busyWork t)
    (m := fun l => decide (l.tid = t))
    (fun _ _ _ hI hs => hI.move (move_of_step hs)) ?_ h hbusy
  · exact ((Nat.le_add_right _ _).trans hcount).trans (busyWork_le t)
  · intro w l w' hI hC hs
    have hm := move_of_step hs
    by_cases ht : l.tid = t
    · have hlt := hm.busyWork_lt hI.unfinished hI.inv.core.ok.num_le (ht ▸ hC ht)
      rw [ht] at hlt
      simpa [ht] using Nat.succ_le_of_lt hlt
    · simp [ht, hm.busyWork_of_ne hI.inv (Ne.symm ht)]

/-- **From one rest to the next a thread makes a bounded number of steps**,
whoever runs in between and however its `send()`s split or fail. -/
theorem busy_steps_le {tr : List (World × Label)} (h : Reachable step World.init w)
    (hrun : Run step w tr w') (hbusy : StepsAll (fun w l => l.tid = t → ¬ w.Resting t) tr) :
    tr.countP (fun x => decide (x.2.tid = t)) ≤ 104551 :=
  (working_of_reachable h).busy_steps hrun hbusy

/-! ### The holder of the mutex -/

/-- What the environment may answer a thread inside a section: its `send()`
returns, having taken some of the bytes that are left or having failed, and no
other call there waits for anything. -/
def World.MayAnswer (w : World) (t : Tid) (a : Answer) : Prop :=
  match w.sending t with
  | some s => a = .fail ∨ ∃ n, a = .wrote n ∧ 0 < n ∧ s.total + n ≤ 1024
  | none => a = .go

/-- A thread inside a section is busy. -/
theorem Pc.rests_of_locked {p : Pc} (h : p.locked = true) : p.rests = false := by
  cases p <;> simp_all [Pc.locked, Pc.rests]

theorem Working.busy_of_holds (h : Working w) (hm : w.mutexLista = some t) : ¬ w.Resting t := by
  rintro ⟨-, hrest⟩
  rw [Pc.rests_of_locked ((h.inv.threads t).lock.mp hm)] at hrest
  cases hrest

/-- Outside `send_packet` a section goes on by itself. -/
theorem go_of_locked (h : Inv w) (hs : w.sending t = none) (hlocked : (w.pc t).locked = true) :
    ∃ w', step w ⟨t, .go⟩ = some w' := by
  have hrun := h.runBy (t := t) rfl
  rcases hpc : w.pc t <;> rw [hpc] at hrun hlocked <;>
    simp only [Pc.locked, Bool.false_eq_true] at hlocked
  case sweep =>
    obtain rfl : t = .monitor := hrun
    simp only [step, hs, monitorStep, hpc]
    split <;> exact ⟨_, rfl⟩
  case broadcasting | directUnlock | notifying =>
    obtain ⟨c, rfl⟩ : ∃ c, t = .client c := hrun
    simp only [step, hs, clientStep, hpc]
    exact ⟨_, rfl⟩

/-- **The holder goes on**, whatever its `send()` answers. -/
theorem Working.holder_goes_on (h : Working w) (hm : w.mutexLista = some t) {a : Answer}
    (ha : w.MayAnswer t a) : ∃ w', step w ⟨t, a⟩ = some w' := by
  unfold World.MayAnswer at ha
  split at ha
  · case h_1 s hs =>
    rcases ha with rfl | ⟨n, rfl, hn, hle⟩
    · exact send_fails hs
    · exact send_goes_on h.inv hs hn hle
  · case h_2 hs =>
    subst ha
    exact go_of_locked h.inv hs ((h.inv.threads t).lock.mp hm)

/-- Only the holder frees the mutex, and nobody else takes it. -/
theorem Move.mutex_of_held (h : Move w l w') (hinv : Inv w) (hm : w.mutexLista = some t) :
    w'.mutexLista = some t ∨ l.tid = t ∧ w'.mutexLista = none := by
  rcases h.locking with ⟨hkept, -⟩ | ⟨-, hfree, -⟩ | ⟨-, hnone, -, hlocked, -⟩
  · exact .inl (hkept.trans hm)
  · rw [hm] at hfree
    cases hfree
  · have hown := (hinv.threads l.tid).lock.mpr hlocked
    exact .inr ⟨Option.some.inj (hown.symm.trans hm), hnone⟩

/-- Thread `t` waits for the mutex, which `t'` holds or has freed. -/
structure Waiting (t t' : Tid) (w : World) : Prop where
  working : Working w
  held : w.mutexLista = some t' ∨ w.mutexLista = none
  idle : w.sending t = none
  waits : (w.pc t).waits = true

/-- As long as the mutex is held the waiting thread stays where it is. -/
theorem Waiting.next {t' : Tid} (h : Waiting t t' w) (hm : w.mutexLista = some t')
    (hs : step w l = some w') : Waiting t t' w' := by
  have hmove := move_of_step hs
  have hne : t ≠ l.tid := by
    rintro rfl
    have hfree := hmove.free_of_waits h.idle h.waits
    rw [hm] at hfree
    cases hfree
  have hstart : w.pc t ≠ .notStarted := fun hns => by
    have hwaits := h.waits
    rw [hns] at hwaits
    cases hwaits
  obtain ⟨hpc, hidle⟩ := hmove.stays h.working.inv hne hstart
  refine ⟨h.working.move hmove, ?_, hidle.trans h.idle, by rw [hpc]; exact h.waits⟩
  exact (hmove.mutex_of_held h.working.inv hm).imp id And.right

theorem Waiting.resumes {t' : Tid} (h : Waiting t t' w) (hfree : w.mutexLista = none) :
    ∃ a w', step w ⟨t, a⟩ = some w' :=
  exists_step_of_free h.working.inv h.idle h.waits hfree

/-- **The holder `t'` lets `t` go on.** -/
structure Releases (t' t : Tid) (w : World) : Prop where
  /-- whoever runs in between, it makes a bounded number of steps as long as it
  holds the mutex, can go on whatever its `send()`s answer, and when it has freed the
  mutex `t` can -/
  bounded : ∀ tr w', Run step w tr w' → StepsAll (fun s _ => s.mutexLista = some t') tr →
    tr.countP (fun x => decide (x.2.tid = t')) ≤ 104551 ∧
      (w'.mutexLista = some t' ∧ (∀ a, w'.MayAnswer t' a → ∃ w'', step w' ⟨t', a⟩ = some w'') ∨
        w'.mutexLista = none ∧ ∃ a w'', step w' ⟨t, a⟩ = some w'')
  /-- and alone it gets there, however the environment answers -/
  alone : ∀ answer : World → Answer, (∀ s : World, s.MayAnswer t' (answer s)) →
    ∃ tr w', Run step w tr w' ∧ StepsAll (fun s l => l = ⟨t', answer s⟩) tr ∧
      tr.length ≤ 104551 ∧ w'.mutexLista = none ∧ ∃ a w'', step w' ⟨t, a⟩ = some w''

theorem Waiting.bounded {t' : Tid} (h : Waiting t t' w) {tr : List (World × Label)}
    (hrun : Run step w tr w') (hheld : StepsAll (fun s _ => s.mutexLista = some t') tr) :
    tr.countP (fun x => decide (x.2.tid = t')) ≤ 104551 ∧
      (w'.mutexLista = some t' ∧ (∀ a, w'.MayAnswer t' a → ∃ w'', step w' ⟨t', a⟩ = some w'') ∨
        w'.mutexLista = none ∧ ∃ a w'', step w' ⟨t, a⟩ = some w'') := by
  have hall := hrun.statesAll_of_steps h (fun _ _ _ hw hm hs => hw.next hm hs) hheld
  refine ⟨h.working.busy_steps hrun fun x hx ht => ?_, ?_⟩
  · exact (hall.2 x hx).working.busy_of_holds (hheld x hx)
  rcases hall.1.held with hm | hfree
  · exact .inl ⟨hm, fun a ha => hall.1.working.holder_goes_on hm ha⟩
  · exact .inr ⟨hfree, hall.1.resumes hfree⟩

theorem Waiting.alone {t' : Tid} (h : Waiting t t' w) {answer : World → Answer}
    (hanswer : ∀ s : World, s.MayAnswer t' (answer s)) : ∃ tr w', Run step w tr w' ∧
      StepsAll (fun s l => l = ⟨t', answer s⟩) tr ∧ tr.length ≤ 104551 ∧
      w'.mutexLista = none ∧ ∃ a w'', step w' ⟨t, a⟩ = some w'' := by
  -- each step of the holder leaves it less to do
  have hgo : ∀ s, Waiting t t' s → ¬ s.mutexLista = none → ∃ l s', step s l = some s' ∧
      l = ⟨t', answer s⟩ ∧ Waiting t t' s' ∧ s'.busyWork t' < s.busyWork t' := by
    intro s hs hnot
    have hm := hs.held.resolve_right hnot
    obtain ⟨s', hstep⟩ := hs.working.holder_goes_on hm (hanswer s)
    refine ⟨_, s', hstep, rfl, hs.next hm hstep, ?_⟩
    exact (move_of_step hstep).busyWork_lt hs.working.unfinished hs.working.inv.core.ok.num_le
      (hs.working.busy_of_holds hm)
  obtain ⟨tr, w', hrun, hlabels, hfree, hwaiting, hlen⟩ :=
    exists_run_to (C := fun (s : World) (l : Label) => l = ⟨t', answer s⟩) hgo w h
  exact ⟨tr, w', hrun, hlabels, hlen.trans (busyWork_le t'), hfree, hwaiting.resumes hfree⟩

/-- **No deadlock.**  A thread that exists and cannot step waits for the mutex
while another thread holds it.  If its `send()`s return, that thread frees the mutex
within 104551 steps of its own, whatever they answer and whoever runs in between,
and then the waiting thread can go on. -/
theorem can_be_released (h : Reachable step World.init w) (hstuck : ∀ a, step w ⟨t, a⟩ = none)
    (hexists : (w.pc t).absent = false) :
    ∃ t', t' ≠ t ∧ w.mutexLista = some t' ∧ Releases t' t w := by
  have hwork := working_of_reachable h
  obtain ⟨hs, hwait, t', hne, hm⟩ := ((stuck_iff hwork.inv).mp hstuck).resolve_left (by
    rw [hexists]
    exact Bool.false_ne_true)
  have hwaiting : Waiting t t' w := ⟨hwork, .inl hm, hs, hwait⟩
  exact ⟨t', hne, hm, fun _ _ => hwaiting.bounded, fun _ => hwaiting.alone⟩

/-! ### Bob's broadcast stops Alice -/

/-- Alice asks for the list while Bob's broadcast goes out, in the middle of a packet. -/
def crowded : List Label :=
  joining 4 (ip 1) (registerPacket alice) ++ joining 5 (ip 2) (registerPacket bob) ++
    [⟨.client 1, .packet (clientPacket cmdBroadcast bob [] (utf8 "hi"))⟩,
      ⟨.client 1, .clock 0⟩, ⟨.client 1, .go⟩,
      ⟨.client 0, .packet (clientPacket cmdList alice [] [])⟩,
      ⟨.client 1, .go⟩, ⟨.client 1, .wrote 24⟩]

theorem exec_crowded : (exec step World.init crowded).any (fun w =>
    w.mutexLista == some (.client 1) && (w.sending (.client 1)).isSome &&
      (w.sending (.client 0)).isNone && (w.pc (.client 0)).waits &&
      !(w.pc (.client 0)).absent) = true := by
  decide +kernel

theorem can_be_released_alice : ∃ w, Reachable step World.init w ∧
    w.mutexLista = some (.client 1) ∧ (w.sending (.client 1)).isSome ∧
    ∃ t', t' ≠ .client 0 ∧ w.mutexLista = some t' ∧ Releases t' (.client 0) w := by
  obtain ⟨w, hw, hp⟩ := exists_reachable exec_crowded
  simp only [Bool.and_eq_true, beq_iff_eq, Option.isNone_iff_eq_none, Bool.not_eq_true'] at hp
  obtain ⟨⟨⟨⟨hm, hsending⟩, hs⟩, hwait⟩, habs⟩ := hp
  have hstuck := (stuck_iff (t := .client 0) (inv_of_reachable hw)).mpr
    (.inr ⟨hs, hwait, .client 1, by decide, hm⟩)
  exact ⟨w, hw, hm, hsending, can_be_released hw hstuck habs⟩

/-- The rest of Bob's broadcast. -/
def bobsBroadcast : List Label :=
  [⟨.client 1, .wrote 1000⟩, ⟨.client 1, .go⟩, sends 1, ⟨.client 1, .go⟩]

theorem busy_steps_le_bob : ∃ w tr w', Reachable step World.init w ∧ Run step w tr w' ∧
    tr.countP (fun x => decide (x.2.tid = .client 1)) = 4 ∧
    tr.countP (fun x => decide (x.2.tid = .client 1)) ≤ 104551 := by
  have hexec : ((exec step World.init crowded).bind fun w => execIf (fun w l =>
      !((w.sending l.tid).isNone && (w.pc l.tid).rests)) step w bobsBroadcast).isSome = true := by
    decide +kernel
  obtain ⟨w', he⟩ := Option.isSome_iff_exists.mp hexec
  obtain ⟨w, hw, he⟩ := Option.bind_eq_some_iff.mp he
  obtain ⟨tr₀, hrun₀, -⟩ := run_of_exec hw
  obtain ⟨tr, hrun, hls, hC⟩ := Run.start.execIf (by simp) he
  refine ⟨w, tr, w', ⟨tr₀, hrun₀⟩, hrun, ?_, busy_steps_le ⟨tr₀, hrun₀⟩ hrun ?_⟩
  · have hcount : ∀ xs : List (World × Label), xs.countP (fun x => decide (x.2.tid = .client 1))
        = (xs.map Prod.snd).countP fun l => decide (l.tid = .client 1) := by
      intro xs
      rw [List.countP_map]
      rfl
    rw [hcount, hls]
    decide
  · intro x hx ht hrest
    have hbusy : (!((x.1.sending x.2.tid).isNone && (x.1.pc x.2.tid).rests)) = true := hC x hx
    rw [ht, hrest.1, show (x.1.pc (.client 1)).rests = true from hrest.2] at hbusy
    cases hbusy

end ChatSystem
