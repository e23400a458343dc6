/-
ChatSystem/Ghosts.lean

Ghost users: names a client reads in a user list although it has been told
that they left.  `handle_list` takes its snapshot under the mutex and sends it
afterwards, while a departure notice is sent inside the mutex by another
thread; so a list made before a user left may follow the notice
(`not_always_ghostless`).  A notice may also name a user who is still in the
table (`ChatSystem/Departure.lean`), and a list that is cut, or one with a
status that contains `;`, names whom it likes (`ChatSystem/UserList.lean`).

`ghostless_of_run`: in a run whose steps do none of this (`Orderly`), no user
list sent to a client names anybody the client was told has left, unless that
name has registered again since.
-/
import ChatSystem.Departure
import ChatSystem.UserList

namespace ChatSystem

open CStr Lts

/-! ### Ghosts, in the history -/

/-- The last `send()` of a notice to connection `c` that `name` has left. -/
def Event.notifies (c : ℕ) (name : List UInt8) : Event → Bool
  | send _ s peer written _ =>
    peer == some c && written.map (s.total + ·) == some 1024 &&
      s.pkt.command == cmdDisconnected && s.pkt.payload.str == name
  | _ => false

/-- A registration under that name. -/
def Event.registers (name : List UInt8) : Event → Bool
  | registered _ _ r => r.username.str == name
  | _ => false

/-- Connection `c` has been told that `name` left, and nobody has registered
under it since. -/
def gone : List Event → ℕ → List UInt8 → Bool
  | [], _, _ => false
  | e :: h, c, name => e.notifies c name || gone h c name && !e.registers name

/-- A user list sent to `c` names nobody who is gone for `c`. -/
def Ghostless (e : Event) (h : List Event) : Prop :=
  ∀ t s c m k name, e = .send t s (some c) (some m) k → s.pkt.command = cmdUserList →
    name ∈ listedNames s.pkt.payload.str → gone h c name = false

/-- The names registered have no separators in them. -/
def PlainNames (h : List Event) : Prop :=
  ∀ c i r, Event.registered c i r ∈ h → PlainName r.username.str

/-- A step that makes no ghost. -/
structure Orderly (w : World) (l : Label) : Prop where
  /-- a name is announced after all connections registered under it have been
  removed -/
  gone : AnnouncesGone w l
  /-- no notice is completed to a connection whose thread still holds a list
  with that name -/
  pending : ∀ s c m, w.sending l.tid = some s → w.descr s.fd = some c →
    l.answer = .wrote m → s.total + m = 1024 → s.pkt.command = cmdDisconnected →
    ∀ s', w.sending (.client c) = some s' → s'.pkt.command = cmdUserList →
      s.pkt.payload.str ∉ listedNames s'.pkt.payload.str
  /-- a list is made of a table that can be read back from it -/
  legible : ∀ c fd pkt, l.tid = .client c → w.sending (.client c) = none →
    w.pc (.client c) = .handle fd pkt → pkt.command = cmdList → w.table.Legible

variable {w w' : World} {l : Label}

/-! ### Where lists come from -/

/-- Only `handle_list` makes a user list. -/
theorem Move.list_of_call (h : Move w l w') (hs : w.sending l.tid = none) {s : Sending}
    (hs' : w'.sending l.tid = some s) (hcmd : s.pkt.command = cmdUserList) :
    ∃ c fd pkt, l.tid = .client c ∧ w.pc (.client c) = .handle fd pkt ∧
      pkt.command = cmdList ∧ s.pkt = handleList w.table pkt ∧ w'.table = w.table := by
  cases h.starts hs hs' with
  | list hpc hlist htable => exact ⟨_, _, _, rfl, hpc, hlist, rfl, htable⟩
  -- the other packets have another command
  | register =>
    rw [command_registerReply] at hcmd
    split at hcmd <;> simp [cmdOk, cmdError, cmdUserList] at hcmd
  | fanout _ hf =>
    cases hf <;> simp [handleBroadcast, notifyDisconnect, cmdMsg, cmdDisconnected,
      cmdUserList] at hcmd
  | status | info =>
    simp only [handleStatus, handleInfo] at hcmd
    split at hcmd <;> simp [sendOk, sendError, cmdOk, cmdError, cmdUserInfo, cmdUserList] at hcmd
  | logout | reactivation | direct | directMissing | inactivity =>
    simp [handleLogout, reactivationNotice, handleDirect, directError, inactivityNotice, sendOk,
      sendError, cmdOk, cmdMsg, cmdError, cmdUserList] at hcmd

/-- A user list is sent by the thread of the connection it goes to. -/
theorem list_recipient (hinv : Inv w) (hprov : Provenance w) {t : Tid} {s : Sending} {c : ℕ}
    (hs : w.sending t = some s) (hc : w.descr s.fd = some c)
    (hcmd : s.pkt.command = cmdUserList) : t = .client c := by
  obtain ⟨hmakes, hsite⟩ := hprov.pending t s hs
  have hmem := hmakes.command_mem
  have hslot := hinv.send_site hs hc
  rw [hcmd] at hmem
  cases hreply : s.site <;> rw [hreply] at hmem hsite hslot
  case reply req =>
    obtain ⟨c', rfl, -⟩ := hsite
    rcases hslot with hmain | hclient
    · cases hmain
    · exact hclient
  all_goals simp [Site.commands, cmdOk, cmdError, cmdMsg, cmdDisconnected, cmdUserList] at hmem

/-- Names in the table are names registered. -/
theorem plain_of_active (hinv : Inv w) (hplain : PlainNames w.log) {i : ℕ} {r : Cliente}
    (hr : w.table.Active i r) : PlainName r.username.str := by
  obtain ⟨c, r₀, hph, hid⟩ := hinv.core.active i r hr
  rw [hid.1]
  exact hplain c i r₀ (registered_mem_of_phase hph)

/-- A list made of such a table names nobody absent. -/
theorem Table.Absent.notMem_listed {name : List UInt8} (h : w.table.Absent name)
    (hinv : Inv w) (hplain : PlainNames w.log) (hleg : w.table.Legible) (pkt : ChatPacket) :
    name ∉ listedNames (handleList w.table pkt).payload.str := by
  rw [listedNames_handleList hleg fun i r hr => plain_of_active hinv hplain hr]
  intro hmem
  obtain ⟨r, hr, hname⟩ := List.mem_map.mp hmem
  obtain ⟨i, hact⟩ := active_of_mem_used hr
  exact h i r hact hname

/-! ### The invariant -/

/-- Whoever is gone for a connection is not in the table, nor in the list its
thread is about to send. -/
def Clean (w : World) : Prop :=
  ∀ c name, gone w.log c name = true → w.table.Absent name ∧
    ∀ s, w.sending (.client c) = some s → s.pkt.command = cmdUserList →
      name ∉ listedNames s.pkt.payload.str

/-- Who is gone stays away, unless a registration brings him back. -/
theorem Clean.keep (h : Clean w) (hinv : Inv w) (hplain : PlainNames w.log)
    (ho : Orderly w l) (hm : Move w l w') {c : ℕ} {name : List UInt8}
    (hgone : gone w.log c name = true)
    (hreg : ∀ c i r, w'.log = .registered c i r :: w.log → r.username.str ≠ name) :
    w'.table.Absent name ∧ ∀ s, w'.sending (.client c) = some s →
      s.pkt.command = cmdUserList → name ∉ listedNames s.pkt.payload.str := by
  obtain ⟨habsent, hpending⟩ := h c name hgone
  refine ⟨habsent.changes hinv hm.changes fun c i r _ => hreg c i r, fun s hs hcmd => ?_⟩
  rcases hm.pending_cases hs with ⟨s₀, hs₀, hpkt, -⟩ | ⟨ht, hidle⟩
  · rw [← hpkt] at hcmd ⊢
    exact hpending s₀ hs₀ hcmd
  · -- a list made by this step, of a table without the name
    rw [ht] at hs hidle
    obtain ⟨c', fd, pkt, ht', hpc, hlist, hpkt, -⟩ := hm.list_of_call hidle hs hcmd
    rw [hpkt]
    exact habsent.notMem_listed hinv hplain (ho.legible c' fd pkt ht' (ht' ▸ hidle) hpc hlist) pkt

/-- A notice completed finds its name out of the table and out of the list of
its recipient. -/
theorem Clean.notify (hinv : Inv w) (hnoticed : Noticed w) (ho : Orderly w l)
    (hm : Move w l w') {e : Event} (hlog : w'.log = e :: w.log) {c : ℕ} {name : List UInt8}
    (he : e.notifies c name = true) :
    w'.table.Absent name ∧ ∀ s, w'.sending (.client c) = some s →
      s.pkt.command = cmdUserList → name ∉ listedNames s.pkt.payload.str := by
  cases e <;> simp only [Event.notifies, Bool.false_eq_true] at he
  case send t s peer written k =>
  simp only [Bool.and_eq_true, beq_iff_eq, Option.map_eq_some_iff] at he
  obtain ⟨⟨⟨rfl, m, rfl, htotal⟩, hcmd⟩, rfl⟩ := he
  rcases hm.transmits with ⟨s', c', n, hs, hans, hc, -, hle, -, hsending, hlog', -⟩ |
    ⟨s', -, -, -, -, hlog', -⟩ | ⟨o, -, -, -, -, hsame | ⟨e, hlog', hne⟩⟩
  · obtain ⟨heq, -⟩ := List.cons.inj (hlog.symm.trans hlog')
    cases heq
    -- the notice is complete with this step: its user is not in the table
    have habsent := hnoticed l.tid s hs hcmd
    refine ⟨habsent.changes hinv hm.changes fun c i r _ hreg => ?_, fun s' hs' hlist => ?_⟩
    · rw [hlog] at hreg
      simp at hreg
    · -- a list waiting to be sent to the same user is older than the notice
      rcases eq_or_ne (Tid.client c) l.tid with ht | hne
      · rw [hsending, ht, Function.update_self, if_neg (by omega)] at hs'
        cases hs'
      · rw [hsending, Function.update_of_ne hne] at hs'
        exact ho.pending s c m hs hc hans htotal hcmd s' hs' hlist
  · obtain ⟨heq, -⟩ := List.cons.inj (hlog.symm.trans hlog')
    simp at heq
  · rw [hsame] at hlog
    simp at hlog
  · obtain ⟨rfl, -⟩ := List.cons.inj (hlog.symm.trans hlog')
    exact absurd trivial hne

theorem Clean.step (h : Clean w) (hinv : Inv w) (hnoticed : Noticed w)
    (hplain : PlainNames w.log) (ho : Orderly w l) (hm : Move w l w') : Clean w' := by
  intro c name hgone
  rcases hm.log_cases with hlog | ⟨e, hlog⟩
  · rw [hlog] at hgone
    exact h.keep hinv hplain ho hm hgone fun c i r hreg => by simp [hlog] at hreg
  · rw [hlog, gone, Bool.or_eq_true, Bool.and_eq_true] at hgone
    rcases hgone with hnotice | ⟨hgone, hnot⟩
    -- the step completes the notice, or he was gone before it
    · exact Clean.notify hinv hnoticed ho hm hlog hnotice
    · refine h.keep hinv hplain ho hm hgone fun c i r hreg => ?_
      obtain ⟨rfl, -⟩ := List.cons.inj (hlog.symm.trans hreg)
      simpa [Event.registers] using hnot

/-- A user list sent is the one its thread held. -/
theorem Clean.ghostless (h : Clean w) (hinv : Inv w) (hprov : Provenance w)
    (hm : Move w l w') {e : Event} (hlog : w'.log = e :: w.log) : Ghostless e w.log := by
  rintro t s c m k name rfl hcmd hname
  obtain ⟨-, hs, hc, -⟩ := hm.send_of_log hlog
  obtain rfl := list_recipient hinv hprov hs hc.symm hcmd
  by_contra hgone
  exact (h c name (by simpa using hgone)).2 s hs hcmd hname

/-- **No ghost users**, in a run of orderly steps whose names have no separators
in them. -/
theorem ghostless_of_run {tr : List (World × Label)} {w : World} (h : Run step World.init tr w)
    (hplain : PlainNames w.log) (ho : StepsAll Orderly tr) : Always Ghostless w.log := by
  have hplain' : StepsAll (fun w _ => PlainNames w.log) tr := fun x hx c i r hreg =>
    hplain c i r ((log_suffix_of_run h hx).mem hreg)
  have hall := h.invariant_of_steps
    (I := fun w => (Inv w ∧ Provenance w ∧ FanoutCalls w) ∧ Announcing w ∧ Clean w ∧
      Always Ghostless w.log)
    ⟨⟨.init, .init, fun t s hs => (by cases hs)⟩, fun c username i hp => (by cases hp),
      fun c name hgone => (by cases hgone), trivial⟩ ?_ (ho.and hplain')
  · exact hall.2.2.2
  · rintro w l w' ⟨⟨hinv, hprov, hcalls⟩, hann, hclean, hghost⟩ ⟨ho, hplain⟩ hs
    have hm := move_of_step hs
    have hnoticed := noticed_of_announcing hprov hcalls hann
    refine ⟨⟨hinv.move hm, hprov.move hinv hm, fanoutCalls_step hinv hcalls hm⟩,
      announcing_step hinv hann ho.gone hm, hclean.step hinv hnoticed hplain ho hm, ?_⟩
    rcases hm.log_cases with hlog | ⟨e, hlog⟩
    · rw [hlog]
      exact hghost
    · rw [hlog]
      exact ⟨hclean.ghostless hinv hprov hm hlog, hghost⟩

/-! ### Two runs -/

/-- `Orderly`, computed. -/
def orderly (w : World) (l : Label) : Bool :=
  announcesGone w l &&
    (match w.sending l.tid with
    | some s => s.pkt.command != cmdDisconnected ||
      match w.descr s.fd with
      | some c => (w.sending (.client c)).all fun s' => s'.pkt.command != cmdUserList
      | none => true
    | none => true) &&
    match w.pc l.tid with
    | .handle _ pkt => pkt.command != cmdList ||
      decide ((listText w.table).length ≤ 956) &&
        w.table.lista.all fun r => !r.activo || !r.status.str.contains semicolon
    | _ => true

theorem orderly_sound (h : orderly w l = true) : Orderly w l := by
  simp only [orderly, Bool.and_eq_true] at h
  obtain ⟨⟨hgone, hpending⟩, hlegible⟩ := h
  refine ⟨announcesGone_sound hgone, ?_, ?_⟩
  · intro s c m hs hc _ _ hcmd s' hs' hlist
    simp [hs, hc, hs', hcmd, hlist] at hpending
  · intro c fd pkt ht _ hpc hcmd
    rw [ht, hpc] at hlegible
    simp only [hcmd, bne_self_eq_false, Bool.false_or, Bool.and_eq_true, decide_eq_true_eq,
      List.all_eq_true] at hlegible
    refine ⟨hlegible.1, fun i r hr => ?_⟩
    simpa [hr.2] using hlegible.2 r (List.mem_of_getElem? hr.1)

/-- `PlainNames`, computed. -/
def plainNames (h : List Event) : Bool :=
  h.all fun e =>
    match e with
    | .registered _ _ r => !r.username.str.contains comma && !r.username.str.contains semicolon
    | _ => true

theorem plainNames_sound {h : List Event} (hp : plainNames h = true) : PlainNames h := by
  intro c i r hreg
  have hone := List.all_eq_true.mp hp _ hreg
  simpa [PlainName] using hone

/-- Bob leaves, Alice is told and asks who is there. -/
def informed : List Label :=
  farewell ++ [sends 1] ++ goes 1 2 ++
    [⟨.client 0, .packet (clientPacket cmdList alice [] [])⟩, ⟨.client 0, .go⟩, sends 0]

/-- A user list for Alice is the last packet sent, and Bob has left for her. -/
def listAfterNotice (w : World) : Bool :=
  match w.log with
  | .send _ s (some 0) (some _) _ :: h => s.pkt.command == cmdUserList && gone h 0 bob
  | _ => false

theorem ghostless_informed : ∃ tr w, Run step World.init tr w ∧ listAfterNotice w = true ∧
    Always Ghostless w.log := by
  have hexec : (execIf orderly step World.init informed).any
      (fun w => listAfterNotice w && plainNames w.log) = true := by decide +kernel
  obtain ⟨tr, w, hrun, -, hC, hp⟩ := exists_run_of_execIf hexec
  obtain ⟨hlist, hplain⟩ := Bool.and_eq_true_iff.mp hp
  exact ⟨tr, w, hrun, hlist, ghostless_of_run hrun (plainNames_sound hplain)
    fun x hx => orderly_sound (hC x hx)⟩

/-- Alice's list is made before Bob leaves and sent after she is told. -/
def outdated : List Label :=
  joining 4 (ip 1) (registerPacket alice) ++ joining 5 (ip 2) (registerPacket bob) ++
    [⟨.client 0, .packet (clientPacket cmdList alice [] [])⟩, ⟨.client 0, .go⟩,
      ⟨.client 1, .packet (clientPacket cmdLogout bob [] [])⟩, sends 1] ++ goes 1 5 ++
    [sends 1, sends 0]

theorem exec_outdated : (exec step World.init outdated).any (fun w =>
    plainNames w.log && listAfterNotice w &&
      match w.log with
      | .send _ s _ _ _ :: _ => (listedNames s.pkt.payload.str).contains bob
      | _ => false) = true := by
  decide +kernel

/-- **A user may be listed after being announced as gone.** -/
theorem not_always_ghostless :
    ¬ ∀ w, Reachable step World.init w → PlainNames w.log → Always Ghostless w.log := by
  intro hall
  obtain ⟨w, hw, hp⟩ := exists_reachable exec_outdated
  simp only [Bool.and_eq_true] at hp
  obtain ⟨⟨hplain, hafter⟩, hlisted⟩ := hp
  have hghost := hall w hw (plainNames_sound hplain)
  unfold listAfterNotice at hafter
  split at hafter
  · case h_1 t s m k h hlog =>
    simp only [Bool.and_eq_true, beq_iff_eq] at hafter
    simp only [hlog, List.contains_iff_mem] at hlisted
    rw [hlog] at hghost
    have hnot := hghost.1 _ _ _ _ _ _ rfl hafter.1 hlisted
    rw [hafter.2] at hnot
    cases hnot
  · cases hafter

end ChatSystem
