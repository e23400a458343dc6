/-
ChatSystem/ThreadInv.lean

What each thread may assume where it is (`ThreadOk`), in rely/guarantee
style: an assertion about a thread's own program point, its connection and
the mutex, which the steps of the other threads leave alone.

* a program point belongs to one kind of thread (`Pc.RunBy`) and expects the
  connection in charge to be in a certain phase (`Pc.Expects`);
* the mutex is owned exactly by the thread inside a section that sends
  (`Pc.locked`);
* a `send_packet` call in progress goes either through the thread's own open
  descriptor, or through a record that is active and stays so because the
  thread holds the mutex (`SendOk`).

`stable` is the reliance: a step of thread `t` that changes phases only of
`t`'s own connection, and the table only while no other thread holds the
mutex, keeps every other thread's assertion.  `Inv` puts this together with
`CoreInv`, and `inv_of_reachable` is the run lemma.
-/
import ChatSystem.CoreInv
import ChatSystem.Moves

namespace ChatSystem

open CStr Lts

/-! ### Program points -/

namespace Pc

/-- The threads a program point belongs to. -/
def RunBy : Pc → Tid → Prop
  | accept, t | recvFirst .., t | register .., t | check .., t | spawn .., t
  | closeFirst .., t => t = .main
  | sleep, t | awake _, t | sweep .., t => t = .monitor
  | _, t => ∃ c, t = .client c

/-- The connection a thread is in charge of. -/
def conn? (t : Tid) : Pc → Option ℕ
  | recvFirst c _ _ | register c _ _ _ | check c _ | spawn c _ | closeFirst c _ => some c
  | accept | sleep | awake _ | sweep _ _ | notStarted => none
  | _ => match t with
    | .client c => some c
    | _ => none

/-- The phase the connection in charge is in. -/
def Expects : Pc → Phase → Prop
  | recvFirst _ fd ip, ph | register _ fd ip _, ph =>
    ph = .connected fd ip ∧ ip.length ≤ 15 ∧ (0 : UInt8) ∉ ip
  | check _ fd, ph => (∃ ip, ph = .connected fd ip) ∨
      ∃ i r, ph = .registered i r ∧ r.sockfd = fd
  | closeFirst _ fd, ph => ∃ ip, ph = .connected fd ip
  | spawn _ fd, ph | recv fd, ph | touch fd _, ph | handle fd _, ph
  | broadcasting fd _ _, ph | directUnlock fd, ph | resolve fd _, ph | remove fd _, ph =>
    ∃ i r, ph = .registered i r ∧ r.sockfd = fd
  | close fd _, ph => ph = .left fd
  | notify _, ph | notifying _ _, ph | exited, ph => ph = .gone
  | accept, _ | sleep, _ | awake _, _ | sweep _ _, _ | notStarted, _ => True

/-- The open descriptor of the connection in charge. -/
def fd? : Pc → Option ℤ
  | recvFirst _ fd _ | register _ fd _ _ | check _ fd | spawn _ fd | closeFirst _ fd
  | recv fd | touch fd _ | handle fd _ | broadcasting fd _ _ | directUnlock fd
  | resolve fd _ | remove fd _ | close fd _ => some fd
  | _ => none

/-- Inside a section that sends. -/
def locked : Pc → Bool
  | sweep _ _ | broadcasting _ _ _ | directUnlock _ | notifying _ _ => true
  | _ => false

variable {p : Pc} {ph : Phase}

theorem Expects.fd? {fd : ℤ} (h : p.Expects ph) (hfd : p.fd? = some fd) :
    ph.fd? = some fd := by
  cases p <;> simp only [Pc.fd?, Option.some.injEq, reduceCtorEq] at hfd
  case recvFirst => rw [h.1, ← hfd]; rfl
  case register => rw [h.1, ← hfd]; rfl
  case check =>
    rcases h with ⟨ip, rfl⟩ | ⟨i, r, rfl, hr⟩
    · rw [← hfd]; rfl
    · rw [← hfd, ← hr]; rfl
  case closeFirst =>
    obtain ⟨ip, rfl⟩ := h
    rw [← hfd]; rfl
  case close => rw [h, ← hfd]; rfl
  all_goals
    obtain ⟨i, r, rfl, hr⟩ := h
    rw [← hfd, ← hr]
    rfl

/-- A thread in charge of a connection never expects it to be fresh. -/
theorem Expects.ne_fresh {t : Tid} {c : ℕ} (hc : p.conn? t = some c)
    (h : p.Expects ph) : ph ≠ .fresh := by
  rintro rfl
  cases p <;> simp [Pc.conn?, Expects] at hc h

end Pc

theorem FanoutAt.spec {p : Pc} {i : ℕ} {msg : ChatPacket} {site : ℕ → Site} {next done : Pc}
    (h : FanoutAt p i msg site next done) :
    p.locked = true ∧ next.locked = true ∧ done.locked = false ∧
    (∀ j, (site j).slot? = some j) ∧
    (∀ t, p.RunBy t → next.RunBy t ∧ done.RunBy t) ∧
    (∀ t, next.conn? t = p.conn? t ∧ done.conn? t = p.conn? t) ∧
    (∀ ph, p.Expects ph → next.Expects ph ∧ done.Expects ph) := by
  cases h with
  | broadcasting fd pkt i =>
    exact ⟨rfl, rfl, rfl, fun _ => rfl, fun _ h => ⟨h, h⟩, fun _ => ⟨rfl, rfl⟩, fun _ h => ⟨h, h⟩⟩
  | notifying username i =>
    exact ⟨rfl, rfl, rfl, fun _ => rfl, fun _ h => ⟨h, h⟩, fun _ => ⟨rfl, rfl⟩, fun _ h => ⟨h, h⟩⟩

theorem FanoutAt.started {p : Pc} {i : ℕ} {msg : ChatPacket} {site : ℕ → Site}
    {next done : Pc} (h : FanoutAt p i msg site next done) : p ≠ .notStarted := by
  cases h <;> simp

/-! ### The assertion of one thread -/

/-- The descriptor a `send_packet` call in progress uses. -/
def SendOk (t : Table) (p : Pc) (s : Sending) : Prop :=
  match s.site.slot? with
  | some i => p.locked = true ∧ ∃ r, t.Active i r ∧ r.sockfd = s.fd
  | none => p.fd? = some s.fd

structure ThreadOk (w : World) (t : Tid) : Prop where
  runBy : (w.pc t).RunBy t
  expects : ∀ c, (w.pc t).conn? t = some c → (w.pc t).Expects (phase w.log c)
  alone : t = .main → ∀ c, (w.pc t).conn? t = some c → w.pc (.client c) = .notStarted
  lock : w.mutexLista = some t ↔ (w.pc t).locked = true
  sends : ∀ s, w.sending t = some s → SendOk w.table (w.pc t) s

variable {w w' : World}

theorem threadOk_init (t : Tid) : ThreadOk World.init t where
  runBy := by
    cases t with
    | main => rfl
    | monitor => rfl
    | client c => exact ⟨c, rfl⟩
  expects := by
    intro c hc
    cases t <;> cases hc
  alone := by
    rintro rfl c hc
    cases hc
  lock := by cases t <;> simp [World.init, Pc.locked]
  sends := by
    intro s hs
    cases hs

/-- A connection has one thread in charge. -/
theorem conn_thread_unique (h : ∀ t, ThreadOk w t) {t t' : Tid} {c : ℕ}
    (hc : (w.pc t).conn? t = some c) (hc' : (w.pc t').conn? t' = some c) : t = t' := by
  -- a client thread is in charge of its own connection, and then `main` is not
  have key : ∀ t, (w.pc t).conn? t = some c → t = .main ∨ t = .client c := by
    intro t hc
    have hrun := (h t).runBy
    cases t with
    | main => exact .inl rfl
    | monitor => cases hp : w.pc .monitor <;> simp_all [Pc.conn?, Pc.RunBy]
    | client d => cases hp : w.pc (.client d) <;> simp_all [Pc.conn?, Pc.RunBy]
  have hmain : (w.pc .main).conn? .main = some c →
      (w.pc (.client c)).conn? (.client c) = some c → False := by
    intro hm hcl
    rw [(h .main).alone rfl c hm] at hcl
    cases hcl
  rcases key t hc with rfl | rfl <;> rcases key t' hc' with rfl | rfl
  · rfl
  · exact (hmain hc hc').elim
  · exact (hmain hc' hc).elim
  · rfl

/-- The thread of a fresh connection has not started. -/
theorem notStarted_of_fresh (h : ∀ t, ThreadOk w t) {c : ℕ}
    (hc : phase w.log c = .fresh) : w.pc (.client c) = .notStarted := by
  have hrun := (h (.client c)).runBy
  have hexp := (h (.client c)).expects c
  rw [hc] at hexp
  cases hp : w.pc (.client c) <;> simp_all [Pc.conn?, Pc.RunBy, Pc.Expects]

/-- **Stability.**  What thread `t` may do without disturbing the others. -/
theorem stable (h : ∀ t, ThreadOk w t) {t : Tid} {p : Pc} {o : Option Sending}
    (hstart : w.pc t ≠ .notStarted)
    (hpc : w'.pc = Function.update w.pc t p)
    (hsending : w'.sending = Function.update w.sending t o)
    (hmutex : ∀ t' ≠ t, (w'.mutexLista = some t' ↔ w.mutexLista = some t'))
    (htable : w'.table = w.table ∨ ∀ t' ≠ t, w.mutexLista ≠ some t')
    (hphase : ∀ c, (w.pc t).conn? t ≠ some c → phase w.log c ≠ .fresh →
      phase w'.log c = phase w.log c)
    (hnew : ThreadOk w' t) : ∀ t', ThreadOk w' t' := by
  intro t'
  by_cases ht : t' = t
  · rw [ht]
    exact hnew
  have hpc' : w'.pc t' = w.pc t' := by rw [hpc, Function.update_of_ne ht]
  constructor
  · rw [hpc']
    exact (h t').runBy
  · intro c hc
    rw [hpc'] at hc ⊢
    have hexp := (h t').expects c hc
    -- `t` is in charge of another connection, so this phase stays
    rw [hphase c (fun hc' => ht (conn_thread_unique h hc hc')) (hexp.ne_fresh hc)]
    exact hexp
  · intro hmain c hc
    rw [hpc'] at hc
    have hns := (h t').alone hmain c hc
    by_cases hct : Tid.client c = t
    · rw [hct] at hns
      exact absurd hns hstart
    · rw [hpc, Function.update_of_ne hct]
      exact hns
  · rw [hpc', hmutex t' ht]
    exact (h t').lock
  · intro s hs
    rw [hsending, Function.update_of_ne ht] at hs
    have hok := (h t').sends s hs
    rw [hpc']
    rcases htable with htable | hfree
    · rw [htable]
      exact hok
    · unfold SendOk at hok ⊢
      rcases hslot : s.site.slot? with - | i
      · rw [hslot] at hok
        exact hok
      · -- a call through a record is made with the mutex held
        rw [hslot] at hok
        exact absurd ((h t').lock.mpr hok.1) (hfree t' ht)

end ChatSystem
