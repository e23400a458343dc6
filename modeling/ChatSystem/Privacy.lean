/-
ChatSystem/Privacy.lean

Who is sent something because of a `CMD_DIRECT`.  The thread of connection `c`
serves the packet from the `recv` that took it to its next `recv`; `Served`
says what it does in between:

* its `send_packet` calls are at most a reactivation notice and then, once it
  has looked up the target, one call more: the message to the record found, or
  an `ERROR` when there is none (`Answered`);
* the notice and the `ERROR` go to `c` itself;
* the message goes to one connection, whose record is active at every
  `send()` of it, under the name the packet gives.

The lookup returns an index, and the record in that slot is the one found as
long as the mutex is held: `Stage` follows the thread through its service, and
its stage `relaying` is where the other threads must leave the table and the
target's descriptor alone.

`private_of_run` is the result for all runs; with it goes that a message made
from a `DIRECT` is sent in the service of that packet and nowhere else
(`received_of_direct`).
-/
import ChatSystem.Relays
import ChatSystem.Replay

namespace ChatSystem

open CStr Lts

/-! ### The calls and the lookups of a thread -/

/-- The `send_packet` calls thread `t` makes in the steps of a trace that leads
to `w`, newest first. -/
def calls (t : Tid) : List (World × Label) → World → List Sending
  | [], _ => []
  | (x, _) :: tr, w => (if x.sending t = none then (w.sending t).toList else []) ++ calls t tr x

/-- The tables in which the thread of connection `c` looks its target up. -/
def lookups (c : ℕ) : List (World × Label) → List Table
  | [] => []
  | (x, l) :: tr =>
    match x.pc (.client c) with
    | .handle _ _ =>
      if l.tid = .client c ∧ x.sending (.client c) = none then x.table :: lookups c tr
      else lookups c tr
    | _ => lookups c tr

/-- The thread of connection `c` does not call `recv` in these steps. -/
def Busy (c : ℕ) (tr : List (World × Label)) : Prop :=
  ∀ x ∈ tr, x.2.tid = .client c → x.1.sending (.client c) = none →
    ∀ fd, x.1.pc (.client c) ≠ .recv fd

variable {w w' x : World} {l : Label} {t : Tid} {c : ℕ} {tr : List (World × Label)}

theorem calls_cons_of_same (h : w.sending t = x.sending t) :
    calls t ((x, l) :: tr) w = calls t tr x := by
  rcases hx : x.sending t with - | s
  · simp [calls, hx, h]
  · simp [calls, hx]

theorem calls_cons_of_idle (hx : x.sending t = none) :
    calls t ((x, l) :: tr) w = (w.sending t).toList ++ calls t tr x := by
  rw [calls, if_pos hx]

theorem calls_cons_of_sending (hx : x.sending t ≠ none) :
    calls t ((x, l) :: tr) w = calls t tr x := by
  rw [calls, if_neg hx, List.nil_append]

theorem calls_subset_cons : calls t tr x ⊆ calls t ((x, l) :: tr) w :=
  List.subset_append_right _ _

/-- A call in progress was made in the trace. -/
theorem mem_calls_of_sending (hrun : Run step x tr w) (hx : x.sending t = none) {s : Sending}
    (hs : w.sending t = some s) : { s with total := 0 } ∈ calls t tr w := by
  induction hrun generalizing s with
  | start =>
    rw [hx] at hs
    cases hs
  | @step tr w l w' hrun hstep ih =>
    have hm := move_of_step hstep
    by_cases ht : t = l.tid
    · subst ht
      rcases hm.transmits with ⟨s₀, d, n, hs₀, -, -, -, -, -, hsending, -⟩ |
        ⟨s₀, -, -, -, hsending, -⟩ | ⟨o, hidle, -, hsending, ho, -⟩
      · -- the call goes on
        rw [hsending, Function.update_self] at hs
        split at hs
        · obtain rfl := Option.some.inj hs
          have hcall := ih hs₀
          exact calls_subset_cons hcall
        · cases hs
      · rw [hsending, Function.update_self] at hs
        cases hs
      · -- the call is new
        rw [hsending, Function.update_self] at hs
        have hnew : { s with total := 0 } = s := by rw [← ho s hs]
        rw [calls_cons_of_idle hidle, hsending, Function.update_self, hs, hnew]
        exact List.mem_append_left _ (List.mem_singleton.mpr rfl)
    · rw [(hm.local_of_ne ht).1] at hs
      exact calls_subset_cons (ih hs)

/-- Every `send()` in the trace belongs to a call made there. -/
theorem mem_calls_of_mem (hrun : Run step x tr w) (hx : x.sending t = none)
    {y : World × Label} (hy : y ∈ tr) {s : Sending} (hs : y.1.sending t = some s) :
    { s with total := 0 } ∈ calls t tr w := by
  induction hrun with
  | start => cases hy
  | step hrun hstep ih =>
    rcases List.mem_cons.mp hy with rfl | hy
    · exact calls_subset_cons (mem_calls_of_sending hrun hx hs)
    · exact calls_subset_cons (ih hy)

theorem lookups_cons_of_ne (h : l.tid ≠ .client c ∨ x.sending (.client c) ≠ none ∨
      ∀ fd pkt, x.pc (.client c) ≠ .handle fd pkt) :
    lookups c ((x, l) :: tr) = lookups c tr := by
  rw [lookups]
  split
  · case h_1 fd pkt hpc =>
    rw [if_neg]
    rintro ⟨htid, hidle⟩
    rcases h with h | h | h
    · exact h htid
    · exact h hidle
    · exact h fd pkt hpc
  · rfl

theorem lookups_cons_of_handle {fd : ℤ} {pkt : ChatPacket} (ht : l.tid = .client c)
    (hs : x.sending (.client c) = none) (hpc : x.pc (.client c) = .handle fd pkt) :
    lookups c ((x, l) :: tr) = x.table :: lookups c tr := by
  rw [lookups, hpc]
  exact if_pos ⟨ht, hs⟩

/-! ### The service of a `DIRECT` -/

/-- The notice a thread may have sent before. -/
def Notice (fd : ℤ) (notice : List Sending) : Prop :=
  notice = [] ∨ notice = [⟨fd, reactivationNotice, 0, .reactivation⟩]

/-- What follows from the lookup: the message goes to the record found, and
without one the client is sent an `ERROR`. -/
inductive Answered (fd : ℤ) (pkt : ChatPacket) : List Table → List Sending → Prop
  | waiting : Answered fd pkt [] []
  | found {tbl : Table} {i : ℕ} {r : Cliente} (hr : tbl.Active i r)
      (hname : r.username.str = cstr pkt.targetPtr) :
      Answered fd pkt [tbl] [⟨r.sockfd, handleDirect pkt, 0, .direct pkt i⟩]
  | missing {tbl : Table}
      (hnone : ∀ i r, tbl.Active i r → r.username.str ≠ cstr pkt.targetPtr) :
      Answered fd pkt [tbl] [⟨fd, directError pkt, 0, .reply pkt⟩]

/-- Every `send()` of the message goes to connection `peer`, whose record is
active then and has the name of the target. -/
def Relayed (c : ℕ) (pkt : ChatPacket) (peer : ℕ) (tr : List (World × Label)) : Prop :=
  ∀ x ∈ tr, ∀ s, x.2.tid = .client c → x.1.sending (.client c) = some s → s.site.slot? ≠ none →
    x.1.descr s.fd = some peer ∧ ∃ i r, s.site = .direct pkt i ∧ x.1.table.Active i r ∧
      r.username.str = cstr pkt.targetPtr ∧ r.sockfd = s.fd

/-- **What the thread of connection `c` sends** in the steps `tr` that lead to
`w`, when it serves the `DIRECT` packet `pkt`. -/
structure Served (c : ℕ) (fd : ℤ) (pkt : ChatPacket) (tr : List (World × Label)) (w : World) :
    Prop where
  calls : ∃ notice answer, ChatSystem.calls (.client c) tr w = answer ++ notice ∧
    Notice fd notice ∧ Answered fd pkt (lookups c tr) answer
  sends : ∀ x ∈ tr, ∀ s, x.2.tid = .client c → x.1.sending (.client c) = some s →
    { s with total := 0 } ∈ ChatSystem.calls (.client c) tr w
  own : ∀ x ∈ tr, ∀ s, x.2.tid = .client c → x.1.sending (.client c) = some s →
    s.site.slot? = none → x.1.descr s.fd = some c
  relayed : ∃ peer, Relayed c pkt peer tr

variable {pkt : ChatPacket} {fd : ℤ} {peer : ℕ}

theorem Relayed.cons (h : Relayed c pkt peer tr)
    (hnew : ∀ s, l.tid = .client c → x.sending (.client c) = some s → s.site.slot? ≠ none →
      x.descr s.fd = some peer ∧ ∃ i r, s.site = .direct pkt i ∧ x.table.Active i r ∧
        r.username.str = cstr pkt.targetPtr ∧ r.sockfd = s.fd) :
    Relayed c pkt peer ((x, l) :: tr) := by
  intro y hy s ht hs hslot
  rcases List.mem_cons.mp hy with rfl | hy
  · exact hnew s ht hs hslot
  · exact h y hy s ht hs hslot

/-- A step that does not send through a record. -/
theorem Relayed.quiet (h : Relayed c pkt peer tr)
    (hquiet : l.tid = .client c → ∀ s, x.sending (.client c) = some s → s.site.slot? = none) :
    Relayed c pkt peer ((x, l) :: tr) :=
  h.cons fun s ht hs hslot => absurd (hquiet ht s hs) hslot

/-- How far the thread has come with the packet. -/
inductive Stage (c : ℕ) (fd : ℤ) (pkt : ChatPacket) (tr : List (World × Label)) (w : World) :
    Prop
  | touching (hpc : w.pc (.client c) = .touch fd pkt) (hs : w.sending (.client c) = none)
      (hcalls : calls (.client c) tr w = []) (hlookups : lookups c tr = [])
      (hrelayed : ∀ peer, Relayed c pkt peer tr)
  | handling {notice : List Sending} (hpc : w.pc (.client c) = .handle fd pkt)
      (hnotice : Notice fd notice) (hcalls : calls (.client c) tr w = notice)
      (hlookups : lookups c tr = []) (hrelayed : ∀ peer, Relayed c pkt peer tr)
  | relaying {notice : List Sending} {tbl : Table} {i : ℕ} {r : Cliente} {peer : ℕ}
      (hpc : w.pc (.client c) = .directUnlock fd) (hnotice : Notice fd notice)
      (hcalls : calls (.client c) tr w =
        ⟨r.sockfd, handleDirect pkt, 0, .direct pkt i⟩ :: notice)
      (hlookups : lookups c tr = [tbl]) (hfound : tbl.Active i r)
      (hname : r.username.str = cstr pkt.targetPtr) (hr : w.table.Active i r)
      (hdescr : w.descr r.sockfd = some peer) (hrelayed : Relayed c pkt peer tr)
  | done {notice answer : List Sending} {peer : ℕ} (hpc : w.pc (.client c) = .recv fd)
      (hnotice : Notice fd notice) (hcalls : calls (.client c) tr w = answer ++ notice)
      (hanswer : Answered fd pkt (lookups c tr) answer) (hrelayed : Relayed c pkt peer tr)

/-! ### While the mutex is held -/

/-- Nobody changes the table: the monitor sweeps under the mutex. -/
theorem Move.table_of_client (h : Move w l w') (hinv : Inv w)
    (hheld : w.mutexLista = some (.client c)) : w'.table = w.table := by
  rcases h.table_cases with htable | hfree | ⟨-, -, now, i, hpc⟩
  · exact htable
  · rw [hheld] at hfree
    cases hfree
  · have hsweep := hinv.holds hpc rfl
    rw [hheld] at hsweep
    cases hsweep

/-- The descriptor of an active record denotes the same connection after a step
that leaves the record. -/
theorem Move.descr_of_active (h : Move w l w') (hinv' : Inv w') {i : ℕ} {r : Cliente}
    (hr : w'.table.Active i r) (hdescr : w.descr r.sockfd = some peer) :
    w'.descr r.sockfd = some peer := by
  rcases h.descr_cases hdescr with hsame | hclosed
  · exact hsame
  · obtain ⟨d, r₀, -, -, hopen, -⟩ := hinv'.core.owner hr
    rw [hclosed] at hopen
    cases hopen

/-! ### One step -/

/-- A thread that serves a packet has started. -/
theorem Stage.started (h : Stage c fd pkt tr w) : w.pc (.client c) ≠ .notStarted := by
  rcases h with ⟨hpc, -⟩ | ⟨hpc, -⟩ | ⟨hpc, -⟩ | ⟨hpc, -⟩ <;> rw [hpc] <;> exact Pc.noConfusion

/-- A step that leaves the thread where it is, makes no call of it and no lookup.
In its section the table must stay, and what a `send()` of the message shows
is left to the step. -/
theorem Stage.carry (h : Stage c fd pkt tr w) (hinv' : Inv w') (hm : Move w l w')
    (hpc : w'.pc (.client c) = w.pc (.client c))
    (hidle : w.sending (.client c) = none → w'.sending (.client c) = none)
    (hcalls' : calls (.client c) ((w, l) :: tr) w' = calls (.client c) tr w)
    (hlookups' : lookups c ((w, l) :: tr) = lookups c tr)
    (htable : (w.pc (.client c)).locked = true → w'.table = w.table)
    (hquiet : (w.pc (.client c)).locked = false →
      ∀ peer, Relayed c pkt peer tr → Relayed c pkt peer ((w, l) :: tr))
    (hrelay : ∀ notice i r peer, Notice fd notice → calls (.client c) tr w =
      ⟨r.sockfd, handleDirect pkt, 0, .direct pkt i⟩ :: notice → w.table.Active i r →
      r.username.str = cstr pkt.targetPtr → w.descr r.sockfd = some peer →
      Relayed c pkt peer tr → Relayed c pkt peer ((w, l) :: tr)) :
    Stage c fd pkt ((w, l) :: tr) w' := by
  rcases h with ⟨hat, hs, hcalls, hlookups, hrelayed⟩ |
    ⟨hat, hnotice, hcalls, hlookups, hrelayed⟩ |
    ⟨hat, hnotice, hcalls, hlookups, hfound, hname, hr, hdescr, hrelayed⟩ |
    ⟨hat, hnotice, hcalls, hanswer, hrelayed⟩
  · exact .touching (hpc.trans hat) (hidle hs) (hcalls'.trans hcalls) (hlookups'.trans hlookups)
      fun peer => hquiet (by rw [hat]; rfl) peer (hrelayed peer)
  · exact .handling (hpc.trans hat) hnotice (hcalls'.trans hcalls) (hlookups'.trans hlookups)
      fun peer => hquiet (by rw [hat]; rfl) peer (hrelayed peer)
  · -- the mutex keeps the record where it was found
    rename_i notice tbl i r peer
    have hr' : w'.table.Active i r := by
      rw [htable (by rw [hat]; rfl)]
      exact hr
    exact .relaying (hpc.trans hat) hnotice (hcalls'.trans hcalls) (hlookups'.trans hlookups)
      hfound hname hr' (hm.descr_of_active hinv' hr' hdescr)
      (hrelay notice i r peer hnotice hcalls hr hname hdescr hrelayed)
  · exact .done (hpc.trans hat) hnotice (hcalls'.trans hcalls) (hlookups'.symm ▸ hanswer)
      (hquiet (by rw [hat]; rfl) _ hrelayed)

/-- A step of another thread. -/
theorem Stage.other (h : Stage c fd pkt tr w) (hinv : Inv w) (hinv' : Inv w')
    (hm : Move w l w') (ht : l.tid ≠ .client c) : Stage c fd pkt ((w, l) :: tr) w' := by
  obtain ⟨hpc, hsending⟩ := hm.stays hinv (Ne.symm ht) h.started
  have hquiet (peer : ℕ) (hr : Relayed c pkt peer tr) : Relayed c pkt peer ((w, l) :: tr) :=
    hr.quiet fun htid => absurd htid ht
  refine h.carry hinv' hm hpc (fun hs => hsending.trans hs) (calls_cons_of_same hsending)
    (lookups_cons_of_ne (.inl ht)) (fun hlocked => ?_) (fun _ => hquiet)
    fun _ _ _ peer _ _ _ _ _ => hquiet peer
  exact hm.table_of_client hinv (hinv.holds rfl hlocked)

/-- A `send()`. -/
theorem Stage.send (h : Stage c fd pkt tr w) (hinv : Inv w) (hinv' : Inv w') (hm : Move w l w')
    (ht : l.tid = .client c) {s : Sending} (hs : w.sending (.client c) = some s)
    (hcall : { s with total := 0 } ∈ calls (.client c) tr w) :
    Stage c fd pkt ((w, l) :: tr) w' := by
  rw [← ht] at hs
  have hpc : w'.pc (.client c) = w.pc (.client c) := congrFun (hm.pc_of_sending hs) _
  have htable := hm.table_of_sending hs
  rw [ht] at hs
  have hne : w.sending (.client c) ≠ none := by simp [hs]
  refine h.carry hinv' hm hpc (fun hidle => absurd hidle hne) (calls_cons_of_sending hne)
    (lookups_cons_of_ne (.inr (.inl hne))) (fun _ => htable) (fun hunlocked peer hr => ?_) ?_
  · exact hr.quiet fun _ _ hs => hinv.slot_of_unlocked hunlocked hs
  · intro notice i r peer hnotice hcalls hr hname hdescr hrelayed
    refine hrelayed.cons fun s' _ hs' hslot => ?_
    obtain rfl := Option.some.inj (hs.symm.trans hs')
    -- the call in progress is the message, since the notice uses no slot
    rw [hcalls] at hcall
    rcases List.mem_cons.mp hcall with heq | hmem
    · obtain ⟨hfd, -, -, hsite⟩ := Sending.mk.inj heq
      rw [hfd]
      exact ⟨hdescr, i, r, hsite, hr, hname, rfl⟩
    · rcases hnotice with rfl | rfl
      · cases hmem
      · obtain ⟨-, -, -, hsite⟩ := Sending.mk.inj (List.mem_singleton.mp hmem)
        rw [hsite] at hslot
        exact absurd rfl hslot

/-! #### The steps of the thread itself -/

section Own

variable {a : Answer}

theorem touch_step (hs : w.sending (.client c) = none) (hpc : w.pc (.client c) = .touch fd pkt)
    (hstep : step w ⟨.client c, a⟩ = some w') :
    w'.pc (.client c) = .handle fd pkt ∧ Notice fd (w'.sending (.client c)).toList := by
  simp only [step, hs, clientStep, hpc] at hstep
  cases a <;> simp only [reduceCtorEq] at hstep
  split at hstep
  · obtain rfl := Option.some.inj hstep
    split
    · refine ⟨Function.update_self _ _ _, .inr ?_⟩
      simp [World.call]
    · refine ⟨Function.update_self _ _ _, .inl ?_⟩
      simp [World.goto, World.setTable, hs]
  · cases hstep

/-- The lookup, and the call it leads to. -/
theorem direct_step (hinv : Inv w) (hcmd : pkt.command = cmdDirect)
    (hs : w.sending (.client c) = none) (hpc : w.pc (.client c) = .handle fd pkt)
    (hstep : step w ⟨.client c, a⟩ = some w') :
    (∃ i r, w.table.Active i r ∧ r.username.str = cstr pkt.targetPtr ∧
      w'.pc (.client c) = .directUnlock fd ∧ w'.table = w.table ∧ w'.descr = w.descr ∧
      w'.sending (.client c) = some ⟨r.sockfd, handleDirect pkt, 0, .direct pkt i⟩) ∨
    (∀ i r, w.table.Active i r → r.username.str ≠ cstr pkt.targetPtr) ∧
      w'.pc (.client c) = .recv fd ∧
      w'.sending (.client c) = some ⟨fd, directError pkt, 0, .reply pkt⟩ := by
  have hne : ¬ cmdDirect = cmdBroadcast := by decide
  simp only [step, hs, clientStep, hpc] at hstep
  cases a <;> simp only [reduceCtorEq] at hstep
  split at hstep
  · obtain rfl := Option.some.inj hstep
    unfold handle
    simp only [hcmd, if_neg hne, if_true]
    rcases hfind : clFindByName w.table pkt.targetPtr with - | i
    · exact .inr ⟨fun i r hr => clFindByName_eq_none hinv.core.ok hfind hr,
        Function.update_self _ _ _, Function.update_self _ _ _⟩
    · obtain ⟨-, r, hr, hname⟩ := clFindByName_eq_some hfind
      refine .inl ⟨i, r, hr, hname, Function.update_self _ _ _, rfl, rfl, ?_⟩
      exact (Function.update_self _ _ _).trans (by rw [hr.at_eq])
  · cases hstep

theorem directUnlock_step (hs : w.sending (.client c) = none)
    (hpc : w.pc (.client c) = .directUnlock fd) (hstep : step w ⟨.client c, a⟩ = some w') :
    w'.pc (.client c) = .recv fd ∧ w'.sending (.client c) = none := by
  simp only [step, hs, clientStep, hpc] at hstep
  cases a <;> simp only [reduceCtorEq] at hstep
  obtain rfl := Option.some.inj hstep
  exact ⟨Function.update_self _ _ _, hs⟩

end Own

/-- A step of the thread itself, other than a `send()` or `recv`. -/
theorem Stage.own (h : Stage c fd pkt tr w) (hcmd : pkt.command = cmdDirect) (hinv : Inv w)
    (hstep : step w l = some w') (ht : l.tid = .client c)
    (hs : w.sending (.client c) = none) (hbusy : ∀ fd, w.pc (.client c) ≠ .recv fd) :
    Stage c fd pkt ((w, l) :: tr) w' := by
  obtain ⟨t, a⟩ := l
  obtain rfl : t = .client c := ht
  have hcalls' : calls (.client c) ((w, ⟨.client c, a⟩) :: tr) w' =
      (w'.sending (.client c)).toList ++ calls (.client c) tr w := calls_cons_of_idle hs
  have hquiet {peer : ℕ} (hr : Relayed c pkt peer tr) :
      Relayed c pkt peer ((w, ⟨.client c, a⟩) :: tr) :=
    hr.quiet fun _ s hs' => by rw [hs] at hs'; cases hs'
  rcases h with ⟨hat, -, hcalls, hlookups, hrelayed⟩ |
    ⟨hat, hnotice, hcalls, hlookups, hrelayed⟩ |
    ⟨hat, hnotice, hcalls, hlookups, hfound, hname, hr, hdescr, hrelayed⟩ |
    ⟨hat, hnotice, hcalls, hanswer, hrelayed⟩
  · obtain ⟨hpc', hnotice⟩ := touch_step hs hat hstep
    rw [hcalls, List.append_nil] at hcalls'
    refine .handling hpc' hnotice hcalls' ?_ fun peer => hquiet (hrelayed peer)
    rw [lookups_cons_of_ne (.inr (.inr (by simp [hat])))]
    exact hlookups
  · have hlookups' : lookups c ((w, ⟨.client c, a⟩) :: tr) = w.table :: lookups c tr :=
      lookups_cons_of_handle rfl hs hat
    rw [hlookups] at hlookups'
    rcases direct_step hinv hcmd hs hat hstep with
      ⟨i, r, hr, hname, hpc', htable, hdescr, hcall⟩ | ⟨hnone, hpc', hcall⟩
    · obtain ⟨peer, -, -, -, hopen, -⟩ := hinv.core.owner hr
      rw [hcall, hcalls] at hcalls'
      exact .relaying hpc' hnotice hcalls' hlookups' hr hname (htable ▸ hr) (hdescr ▸ hopen)
        (hquiet (hrelayed peer))
    · rw [hcall, hcalls] at hcalls'
      exact .done hpc' hnotice hcalls' (hlookups' ▸ .missing hnone) (hquiet (hrelayed 0))
  · obtain ⟨hpc', hs'⟩ := directUnlock_step hs hat hstep
    rw [hs', hcalls, Option.toList_none, List.nil_append] at hcalls'
    refine .done hpc' hnotice (hcalls'.trans List.singleton_append.symm) ?_ (hquiet hrelayed)
    rw [lookups_cons_of_ne (.inr (.inr (by simp [hat]))), hlookups]
    exact .found hfound hname
  · exact absurd hat (hbusy fd)

/-! ### The whole service -/

theorem stage_of_run (hcmd : pkt.command = cmdDirect) (hinv : Inv x)
    (hpc : x.pc (.client c) = .touch fd pkt) (hidle : x.sending (.client c) = none)
    (hrun : Run step x tr w) (hbusy : Busy c tr) : Inv w ∧ Stage c fd pkt tr w := by
  induction hrun with
  | start =>
    exact ⟨hinv, .touching hpc hidle rfl rfl fun peer y hy => by cases hy⟩
  | @step tr w l w' hrun hstep ih =>
    obtain ⟨hinvw, hstage⟩ := ih fun y hy => hbusy y (List.mem_cons_of_mem _ hy)
    have hm := move_of_step hstep
    have hinv' := hinvw.step hstep
    refine ⟨hinv', ?_⟩
    by_cases ht : l.tid = .client c
    · rcases hs : w.sending (.client c) with - | s
      · exact hstage.own hcmd hinvw hstep ht hs fun fd =>
          hbusy (w, l) List.mem_cons_self ht hs fd
      · exact hstage.send hinvw hinv' hm ht hs (mem_calls_of_sending hrun hidle hs)
    · exact hstage.other hinvw hinv' hm ht

theorem served_of_run (hcmd : pkt.command = cmdDirect) (hinv : Inv x)
    (hpc : x.pc (.client c) = .touch fd pkt) (hidle : x.sending (.client c) = none)
    (hrun : Run step x tr w) (hbusy : Busy c tr) : Served c fd pkt tr w := by
  obtain ⟨-, hstage⟩ := stage_of_run hcmd hinv hpc hidle hrun hbusy
  refine ⟨?_, fun y hy s _ hs => mem_calls_of_mem hrun hidle hy hs, fun y hy s _ hs hslot => ?_, ?_⟩
  · rcases hstage with ⟨-, -, hcalls, hlookups, -⟩ | ⟨-, hnotice, hcalls, hlookups, -⟩ |
      ⟨-, hnotice, hcalls, hlookups, hfound, hname, -, -, -⟩ | ⟨-, hnotice, hcalls, hanswer, -⟩
    · exact ⟨[], [], hcalls, .inl rfl, hlookups ▸ .waiting⟩
    · exact ⟨_, [], hcalls, hnotice, hlookups ▸ .waiting⟩
    · exact ⟨_, [_], hcalls, hnotice, hlookups ▸ .found hfound hname⟩
    · exact ⟨_, _, hcalls, hnotice, hanswer⟩
  · obtain ⟨newer, older, rfl⟩ := List.append_of_mem hy
    have hinvy : Inv y.1 := hrun.before.invariant hinv fun _ _ _ hinv hs => hinv.step hs
    exact hinvy.own_peer hs hslot
  · rcases hstage with ⟨-, -, -, -, hrelayed⟩ | ⟨-, -, -, -, hrelayed⟩ |
      ⟨-, -, -, -, -, -, -, -, hrelayed⟩ | ⟨-, -, -, -, hrelayed⟩
    · exact ⟨0, hrelayed 0⟩
    · exact ⟨0, hrelayed 0⟩
    · exact ⟨_, hrelayed⟩
    · exact ⟨_, hrelayed⟩

/-! ### All runs -/

/-- The thread of connection `c` received `pkt`, and has not called `recv`
since. -/
def Received (c : ℕ) (pkt : ChatPacket) (tr : List (World × Label)) : Prop :=
  ∃ after x before, tr = after ++ (x, ⟨.client c, .packet pkt⟩) :: before ∧ Busy c after

theorem Received.cons (h : Received c pkt tr)
    (hbusy : l.tid = .client c → x.sending (.client c) = none →
      ∀ fd, x.pc (.client c) ≠ .recv fd) : Received c pkt ((x, l) :: tr) := by
  obtain ⟨after, y, before, rfl, hafter⟩ := h
  exact ⟨(x, l) :: after, y, before, rfl, List.forall_mem_cons.mpr ⟨hbusy, hafter⟩⟩

/-- The thread comes to a packet by receiving it. -/
theorem Move.into_handler (h : Move w l w') (ht : l.tid = .client c)
    (hs : w.sending (.client c) = none)
    (hpc : w'.pc (.client c) = .touch fd pkt ∨ w'.pc (.client c) = .handle fd pkt) :
    w.pc (.client c) = .touch fd pkt ∨ l = ⟨.client c, .packet pkt⟩ := by
  cases h with
  | wrote hs' | sendFail hs' =>
    subst ht
    rw [hs] at hs'
    cases hs'
  | recvActivity | recvQuery =>
    obtain rfl := Tid.client.inj ht
    right
    rcases hpc with hpc | hpc <;> cases (Function.update_self _ _ _).symm.trans hpc
    rfl
  | recvIgnored _ hpc' =>
    obtain rfl := Tid.client.inj ht
    rcases hpc with hpc | hpc <;> cases hpc'.symm.trans hpc
  | touch _ hpc' | reactivate _ hpc' =>
    obtain rfl := Tid.client.inj ht
    rcases hpc with hpc | hpc <;> cases (Function.update_self _ _ _).symm.trans hpc
    exact .inl hpc'
  | recvLogout | recvFail | broadcast | direct | directMissing | status | list | info
  | directUnlock | resolve | resolved | remove | notify =>
    obtain rfl := Tid.client.inj ht
    rcases hpc with hpc | hpc <;> cases (Function.update_self _ _ _).symm.trans hpc
  | close =>
    obtain rfl := Tid.client.inj ht
    rcases hpc with hpc | hpc
    all_goals
      have heq := (Function.update_self _ _ _).symm.trans hpc
      split at heq <;> cases heq
  | fanoutSend _ _ hf | fanoutSkip _ _ hf | fanoutEnd _ _ hf =>
    obtain rfl := Tid.client.inj ht
    cases hf <;> rcases hpc with hpc | hpc <;> cases (Function.update_self _ _ _).symm.trans hpc
  | _ => cases ht

theorem received_of_handler (hrun : Run step World.init tr w) (c : ℕ) (fd : ℤ)
    (pkt : ChatPacket)
    (hpc : w.pc (.client c) = .touch fd pkt ∨ w.pc (.client c) = .handle fd pkt) :
    Received c pkt tr := by
  induction hrun with
  | start => rcases hpc with hpc | hpc <;> cases hpc
  | @step tr w l w' hrun hstep ih =>
    have hm := move_of_step hstep
    have hstay (heq : w'.pc (.client c) = w.pc (.client c)) : Received c pkt ((w, l) :: tr) := by
      rw [heq] at hpc
      refine (ih hpc).cons fun _ _ fd' hrecv => ?_
      rcases hpc with hpc | hpc <;> cases hpc.symm.trans hrecv
    by_cases ht : l.tid = .client c
    · rcases hs : w.sending (.client c) with - | s
      · rcases hm.into_handler ht hs hpc with hold | rfl
        · exact (ih (.inl hold)).cons fun _ _ fd' hrecv => by cases hold.symm.trans hrecv
        · exact ⟨[], w, tr, rfl, fun y hy => by cases hy⟩
      · rw [← ht] at hs
        exact hstay (congrFun (hm.pc_of_sending hs) _)
    · rcases (hm.local_of_ne (Ne.symm ht)).2 with hsame | ⟨d, fd', -, -, hrecv⟩
      · exact hstay hsame
      · rcases hpc with hpc | hpc <;> cases hrecv.symm.trans hpc

theorem Relays.of_direct {i : ℕ} {msg : ChatPacket} (h : Relays w l (.direct pkt i) msg) :
    ∃ c fd, l.tid = .client c ∧ pkt.command = cmdDirect ∧ w.pc (.client c) = .handle fd pkt := by
  cases h with
  | direct hl _ hpc _ hcmd _ =>
    subst hl
    exact ⟨_, _, rfl, hcmd, hpc⟩

/-- A message made from a `DIRECT` is sent while its packet is served. -/
theorem received_of_direct (hrun : Run step World.init tr w) {s : Sending} {i : ℕ}
    (hs : w.sending t = some s) (hsite : s.site = .direct pkt i) :
    ∃ c, t = .client c ∧ pkt.command = cmdDirect ∧ Received c pkt tr := by
  induction hrun generalizing s with
  | start => cases hs
  | @step tr w l w' hrun hstep ih =>
    have hm := move_of_step hstep
    rcases hm.pending_cases hs with ⟨s₀, hs₀, -, hsite₀⟩ | ⟨rfl, hidle⟩
    · obtain ⟨c, rfl, hcmd, hreceived⟩ := ih hs₀ (hsite₀.trans hsite)
      refine ⟨c, rfl, hcmd, hreceived.cons fun _ hidle => ?_⟩
      rw [hs₀] at hidle
      cases hidle
    · rcases hm.started_cases hs hidle with hrelays | hown
      · rw [hsite] at hrelays
        obtain ⟨c, fd, ht, hcmd, hpc⟩ := hrelays.of_direct
        refine ⟨c, ht, hcmd, (received_of_handler hrun c fd pkt (.inr hpc)).cons ?_⟩
        intro _ _ fd' hrecv
        cases hpc.symm.trans hrecv
      · rw [hsite] at hown
        exact hown.elim

/-- The step that receives a `DIRECT`. -/
theorem direct_received (hcmd : pkt.command = cmdDirect)
    (hstep : step w ⟨.client c, .packet pkt⟩ = some w') :
    ∃ fd, w.pc (.client c) = .recv fd ∧ w'.pc (.client c) = .touch fd pkt ∧
      w'.sending (.client c) = none := by
  generalize hl : (⟨.client c, .packet pkt⟩ : Label) = l at hstep
  cases move_of_step hstep with
  | recvActivity hs hpc =>
    cases hl
    exact ⟨_, hpc, Function.update_self _ _ _, hs⟩
  | recvQuery _ _ hquery =>
    cases hl
    rw [hcmd] at hquery
    exact absurd hquery (by decide)
  | recvLogout _ _ hout =>
    cases hl
    rw [hcmd] at hout
    exact absurd hout (by decide)
  | recvIgnored _ _ hother =>
    cases hl
    rw [hcmd] at hother
    exact absurd hother (by decide)
  | _ => cases hl

/-- What a run does because of the `DIRECT` packets received: a message made from
one is sent while its packet is served, and what the thread does from the
packet on, up to its next `recv`, is `Served`.  (A run up to any of its steps
is a run.) -/
structure Private (tr : List (World × Label)) (w : World) : Prop where
  messages : ∀ newer x l older s pkt i, tr = newer ++ (x, l) :: older →
    x.sending l.tid = some s → s.site = .direct pkt i →
    ∃ c, l.tid = .client c ∧ pkt.command = cmdDirect ∧ Received c pkt older
  served : ∀ after x before c pkt, tr = after ++ (x, ⟨.client c, .packet pkt⟩) :: before →
    pkt.command = cmdDirect → Busy c after →
    ∃ fd, x.pc (.client c) = .recv fd ∧ Served c fd pkt after w

/-- **Private messages stay private**, in every run. -/
theorem private_of_run (hrun : Run step World.init tr w) : Private tr w := by
  constructor
  · rintro newer x l older s pkt i rfl hs hsite
    exact received_of_direct hrun.before hs hsite
  · rintro after x before c pkt rfl hcmd hbusy
    obtain ⟨y, hstep, hrest⟩ := hrun.behind
    obtain ⟨fd, hrecv, hpc, hidle⟩ := direct_received hcmd hstep
    have hinv : Inv y := (inv_of_reachable ⟨before, hrun.before⟩).step hstep
    exact ⟨fd, hrecv, served_of_run hcmd hinv hpc hidle hrest hbusy⟩

/-- Alice and Bob join, and Alice sends Bob a message. -/
def whispered : List Label :=
  joining 4 (ip 1) (registerPacket alice) ++ joining 5 (ip 2) (registerPacket bob) ++
    [⟨.client 0, .packet (clientPacket cmdDirect alice bob (utf8 "hola"))⟩,
      ⟨.client 0, .clock 0⟩] ++ goes 0 1 ++ [sends 0] ++ goes 0 1

/-- The event sends a message to Bob. -/
def Event.isToBob : Event → Bool
  | .send _ s peer _ _ => s.pkt.command == cmdMsg && peer == some 1
  | _ => false

theorem private_whispered : ∃ tr w, Run step World.init tr w ∧
    tr.map Prod.snd = whispered.reverse ∧ Private tr w ∧ w.log.any Event.isToBob = true := by
  have hexec : (exec step World.init whispered).any (fun w => w.log.any Event.isToBob) = true := by
    decide +kernel
  obtain ⟨tr, w, hrun, hlabels, hsent⟩ := exists_run_of_exec hexec
  exact ⟨tr, w, hrun, hlabels, private_of_run hrun, hsent⟩

end ChatSystem
