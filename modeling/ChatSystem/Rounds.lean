/-
ChatSystem/Rounds.lean

The loops over all clients, slot by slot.

The loops of `handle_broadcast` and `notify_disconnect` run inside one
section, in which nobody is registered or removed (`ChatSystem/Sections.lean`);
so when the loop stands at slot `n`, the connections below `n` have their copy
and the others have none (`Sent`).  Here it counts that no two records denote
one connection.

A `send_packet` call may take several `send()`s, or give up at one that fails.
`completed` is the history with each call that has ended in place of its
`send()`s.  In every run, a section that sends to all clients ends with one
call ended for each connection registered at its beginning, and none for
others (`Rounds`, `rounds_of_reachable`).
-/
import ChatSystem.Sections

namespace ChatSystem

open CStr Lts

/-! ### What a connection is sent -/

/-- The packets thread `t` sends to connection `c`, oldest first. -/
def copies (t : Tid) (c : ℕ) : List Event → List ChatPacket
  | [] => []
  | .send t' s peer written _ :: h =>
    if t' = t ∧ peer = some c ∧ written = some 1024 then copies t c h ++ [s.pkt]
    else copies t c h
  | _ :: h => copies t c h

/-- Between `older` and the end of the section, thread `t` has sent `msg` once to
each registered connection and nothing to the others. -/
structure Delivers (t : Tid) (mid older : List Event) (msg : ChatPacket) : Prop where
  once : ∀ c i r, Live older c i r → copies t c mid = [msg]
  only : ∀ c, (∀ i r, ¬ Live older c i r) → copies t c mid = []

variable {t : Tid} {c : ℕ} {mid older : List Event} {msg : ChatPacket} {n : ℕ}

theorem copies_cons_other {e : Event} (he : ∀ s peer written k, e ≠ .send t s peer written k) :
    copies t c (e :: mid) = copies t c mid := by
  cases e with
  | send t' s peer written k =>
    have hne : t' ≠ t := by
      rintro rfl
      exact he s peer written k rfl
    simp [copies, hne]
  | _ => rfl

/-! ### The loop, slot by slot -/

/-- The loop of thread `t` has gone through the slots below `n` and sent
`msgs i` to the connection in slot `i`. -/
structure Posted (t : Tid) (mid older : List Event) (msgs : ℕ → List ChatPacket) (n : ℕ) :
    Prop where
  reached : ∀ c i r, Live older c i r → i < n → copies t c mid = msgs i
  others : ∀ c, (∀ i r, Live older c i r → n ≤ i) → copies t c mid = []

namespace Posted

variable {msgs : ℕ → List ChatPacket}

theorem start : Posted t [] older msgs 0 where
  reached := fun _ i _ _ hi => absurd hi (Nat.not_lt_zero i)
  others := fun _ _ => rfl

/-- An event of another thread, or none of its `send()`s. -/
theorem other (h : Posted t mid older msgs n) {e : Event}
    (he : ∀ s peer written k, e ≠ .send t s peer written k) :
    Posted t (e :: mid) older msgs n where
  reached := fun c i r hlive hi => (copies_cons_other he).trans (h.reached c i r hlive hi)
  others := fun c hc => (copies_cons_other he).trans (h.others c hc)

/-- Nothing is sent to slot `n`. -/
theorem skip (h : Posted t mid older msgs n)
    (hnone : ∀ c r, Live older c n r → msgs n = [] ∧ ∀ i r', Live older c i r' → i = n) :
    Posted t mid older msgs (n + 1) where
  reached := by
    intro c i r hlive hi
    rcases Nat.lt_succ_iff_lt_or_eq.mp hi with hi | rfl
    · exact h.reached c i r hlive hi
    · obtain ⟨hnil, honce⟩ := hnone c r hlive
      rw [hnil]
      exact h.others c fun j r' hlive' => (honce j r' hlive').ge
  others := fun c hc => h.others c fun i r hlive => Nat.le_of_succ_le (hc i r hlive)

/-- A packet goes to the connection in slot `n`. -/
theorem send (h : Posted t mid older msgs n) {r : Cliente} (hlive : Live older c n r)
    (hslot : ∀ c' r', Live older c' n r' → c' = c) (honce : ∀ i r', Live older c i r' → i = n)
    {s : Sending} (hs : msgs n = [s.pkt]) (k : ℕ) :
    Posted t (.send t s (some c) (some 1024) k :: mid) older msgs (n + 1) where
  reached := by
    intro c' i r' hlive' hi
    rcases eq_or_ne c' c with rfl | hne
    · obtain rfl := honce i r' hlive'
      have hnone := h.others c' fun j r' hlive' => (honce j r' hlive').ge
      simp [copies, hnone, hs]
    · have hi' : i ≠ n := by
        rintro rfl
        exact hne (hslot c' r' hlive')
      simpa [copies, hne.symm] using h.reached c' i r' hlive' (by omega)
  others := by
    intro c' hc'
    have hne : c' ≠ c := by
      rintro rfl
      exact absurd (hc' n r hlive) (by omega)
    simpa [copies, hne.symm] using
      h.others c' fun i r' hlive' => Nat.le_of_succ_le (hc' i r' hlive')

end Posted

/-- The loop of thread `t` has gone through the slots below `n`. -/
structure Sent (t : Tid) (mid older : List Event) (msg : ChatPacket) (n : ℕ) : Prop where
  reached : ∀ c i r, Live older c i r → i < n → copies t c mid = [msg]
  others : ∀ c, (∀ i r, Live older c i r → n ≤ i) → copies t c mid = []

theorem sent_iff : Sent t mid older msg n ↔ Posted t mid older (fun _ => [msg]) n :=
  ⟨fun h => ⟨h.reached, h.others⟩, fun h => ⟨h.reached, h.others⟩⟩

/-- All slots done. -/
theorem Sent.delivers (h : Sent t mid older msg n) (hall : ∀ c i r, Live older c i r → i < n) :
    Delivers t mid older msg where
  once := fun c i r hlive => h.reached c i r hlive (hall c i r hlive)
  only := fun c hc => h.others c fun i r hlive => absurd hlive (hc i r)

/-! ### The section in progress -/

variable {w w' : World} {l : Label} {cause : Cause} {seen : List Event}

theorem Section.live_iff (h : Section w t mid older cause) {i : ℕ} {r : Cliente} :
    Live w.log c i r ↔ Live older c i r := by
  rw [h.log]
  exact live_of_inside h.inside

/-- A free slot belongs to no connection. -/
theorem Section.free (h : Section w t mid older cause) (hinv : Inv w)
    (hfree : (w.table.at n).activo = false) (c : ℕ) (r : Cliente) : ¬ Live older c n r := by
  intro hlive
  obtain ⟨r', hr', -⟩ := hinv.represents.active c n r (h.live_iff.mpr hlive)
  rw [hr'.at_eq, hr'.2] at hfree
  cases hfree

/-- The call of the loop reaches the connection in its slot. -/
theorem Section.call_to (h : Section w t mid older cause) (hinv : Inv w) {s : Sending}
    (hs : w.sending t = some s) (hslot : s.site.slot? = some n) (hc : w.descr s.fd = some c) :
    ∃ r, Live older c n r := by
  obtain ⟨r, hph⟩ := hinv.send_registered hs hc hslot
  exact ⟨r, h.live_iff.mp ((phase_registered_iff hinv.core.disciplined).mp hph)⟩

/-! ### Calls that have ended -/

/-- The last `send()` of a call: the whole packet is out, or the call gives
up. -/
def Sending.ends (s : Sending) (written : Option ℕ) : Bool :=
  match written with
  | some n => s.total + n == 1024
  | none => true

/-- The history with every call that has ended as one `send()`. -/
def completed : List Event → List Event
  | [] => []
  | .send t s peer written k :: h =>
    if s.ends written then .send t s peer (some 1024) k :: completed h else completed h
  | e :: h => e :: completed h

/-! ### One step of a loop -/

/-- The loop of thread `t` stands before slot `i`, or in the call to the slot
before it. -/
def Upto (w : World) (t : Tid) (seen older : List Event) (msgs : ℕ → List ChatPacket) (i : ℕ) :
    Prop :=
  (w.sending t = none ∧ Posted t seen older msgs i) ∨
    ∃ s j, w.sending t = some s ∧ i = j + 1 ∧ msgs j = [s.pkt] ∧ s.site.slot? = some j ∧
      Posted t seen older msgs j

namespace Upto

variable {msgs : ℕ → List ChatPacket} {i : ℕ}

/-- Between two calls. -/
theorem posted (h : Upto w t seen older msgs i) (hs : w.sending t = none) :
    Posted t seen older msgs i := by
  rcases h with ⟨-, hposted⟩ | ⟨s, j, hs', -⟩
  · exact hposted
  · rw [hs] at hs'
    cases hs'

/-- In a call. -/
theorem calling (h : Upto w t seen older msgs i) {s : Sending} (hs : w.sending t = some s) :
    ∃ j, i = j + 1 ∧ msgs j = [s.pkt] ∧ s.site.slot? = some j ∧ Posted t seen older msgs j := by
  rcases h with ⟨hnone, -⟩ | ⟨s', j, hs', hi, hpkt, hslot, hposted⟩
  · rw [hs] at hnone
    cases hnone
  · obtain rfl := Option.some.inj (hs.symm.trans hs')
    exact ⟨j, hi, hpkt, hslot, hposted⟩

/-- A step of another thread. -/
theorem other (h : Upto w t seen older msgs i) (hsending : w'.sending t = w.sending t) :
    Upto w' t seen older msgs i := by
  unfold Upto
  rw [hsending]
  exact h

/-- An event of another thread, or no `send()`. -/
theorem event (h : Upto w t seen older msgs i) {e : Event}
    (he : ∀ s peer written k, e ≠ .send t s peer written k) :
    Upto w t (e :: seen) older msgs i := by
  rcases h with ⟨hnone, hposted⟩ | ⟨s, j, hs, hi, hpkt, hslot, hposted⟩
  · exact .inl ⟨hnone, hposted.other he⟩
  · exact .inr ⟨s, j, hs, hi, hpkt, hslot, hposted.other he⟩

theorem foreign (h : Upto w t (completed mid) older msgs i) {e : Event}
    (he : ∀ s peer written k, e ≠ .send t s peer written k) :
    Upto w t (completed (e :: mid)) older msgs i := by
  cases e with
  | send t' s peer written k =>
    have hne : t' ≠ t := by
      rintro rfl
      exact he s peer written k rfl
    unfold completed
    split
    · apply h.event
      rintro s' peer' written' k' ⟨⟩
      exact hne rfl
    · exact h
  | _ => exact h.event he

/-- The end of the loop's call. -/
theorem wrote (h : Upto w t seen older msgs i) (hsec : Section w t mid older cause)
    (hinv : Inv w) {s : Sending} (hs : w.sending t = some s) (hc : w.descr s.fd = some c)
    (hsending : w'.sending t = none) (k : ℕ) :
    Upto w' t (.send t s (some c) (some 1024) k :: seen) older msgs i := by
  obtain ⟨j, rfl, hpkt, hslot, hposted⟩ := h.calling hs
  obtain ⟨r, hlive⟩ := hsec.call_to hinv hs hslot hc
  -- one slot has one connection, and one connection one slot
  refine .inl ⟨hsending, hposted.send hlive ?_ ?_ hpkt k⟩
  · intro c' r' hlive'
    exact hinv.represents.slots c' c j r' r (hsec.live_iff.mpr hlive') (hsec.live_iff.mpr hlive)
  · intro i r' hlive'
    exact (hinv.represents.once c i j r' r (hsec.live_iff.mpr hlive')
      (hsec.live_iff.mpr hlive)).1

/-- A `send()` after which the call goes on. -/
theorem partly (h : Upto w t seen older msgs i) {s s' : Sending} (hs : w.sending t = some s)
    (hs' : w'.sending t = some s') (hpkt : s'.pkt = s.pkt) (hsite : s'.site = s.site) :
    Upto w' t seen older msgs i := by
  obtain ⟨j, rfl, hmsg, hslot, hposted⟩ := h.calling hs
  exact .inr ⟨s', j, hs', rfl, by rw [hpkt]; exact hmsg, by rw [hsite]; exact hslot, hposted⟩

/-- A `send()` of the loop's call. -/
theorem transmit (h : Upto w t (completed mid) older msgs i)
    (hsec : Section w t mid older cause) (hinv : Inv w) (hm : Move w l w') (ht : l.tid = t)
    {s : Sending} (hs : w.sending t = some s) {e : Event} (hlog : w'.log = e :: w.log) :
    Upto w' t (completed (e :: mid)) older msgs i := by
  subst ht
  rcases hm.transmits with ⟨s, c, n, hs, -, hc, hn, hle, -, hsending, hlog', -, -⟩ |
    ⟨s, hs, -, -, hsending, hlog', -, -⟩ | ⟨o, hidle, -⟩
  · obtain ⟨rfl, -⟩ := List.cons.inj (hlog'.symm.trans hlog)
    have hself := congrFun hsending l.tid
    rw [Function.update_self] at hself
    by_cases hlt : s.total + n < 1024
    · -- the call goes on
      have hends : s.ends (some n) = false := by
        simpa [Sending.ends] using hlt.ne
      rw [if_pos hlt] at hself
      simp only [completed, hends]
      exact h.partly hs hself rfl rfl
    · -- the packet is complete
      have hends : s.ends (some n) = true := by
        simpa [Sending.ends] using Nat.le_antisymm hle (Nat.le_of_not_lt hlt)
      rw [if_neg hlt] at hself
      simp only [completed, hends]
      exact h.wrote hsec hinv hs hc hself _
  · -- a failing call is over as well
    obtain ⟨rfl, -⟩ := List.cons.inj (hlog'.symm.trans hlog)
    obtain ⟨c, hc, -⟩ := hinv.send_allowed hs
    rw [hc]
    exact h.wrote hsec hinv hs hc (by rw [hsending, Function.update_self]) _
  · rw [hs] at hidle
    cases hidle

end Upto

/-! ### The loops over all clients -/

/-- How far the loop of the section in progress is: between two iterations, or
in the call of the last one. -/
def Progress (w : World) (t : Tid) (mid older : List Event) : Prop :=
  ∀ i msg site next done, FanoutAt (w.pc t) i msg site next done →
    (w.sending t = none ∧ Sent t mid older msg i) ∨
    ∃ s j, w.sending t = some s ∧ i = j + 1 ∧ s.pkt = msg ∧ s.site.slot? = some j ∧
      Sent t mid older msg j

theorem progress_iff : Progress w t mid older ↔
    ∀ i msg site next done, FanoutAt (w.pc t) i msg site next done →
      Upto w t mid older (fun _ => [msg]) i := by
  simp only [Progress, Upto, sent_iff, List.cons.injEq, and_true, eq_comm]

/-- A step of the thread between two calls: it goes on to the next slot. -/
theorem Progress.walk (hp : Progress w t seen older) (hsec : Section w t mid older cause)
    (hinv : Inv w) (hm : Move w l w') (ht : l.tid = t) (hs : w.sending t = none) :
    Progress w' t seen older := by
  subst ht
  refine progress_iff.mpr fun i msg site next done hf => ?_
  have hlocked := (hinv.threads l.tid).lock.mp hsec.holder
  obtain ⟨j, rfl, hf', -, hcall⟩ := hm.into_fanout hs hlocked hf
  have hposted := (progress_iff.mp hp j msg site _ done hf').posted hs
  rcases hcall with ⟨hfree, hnone⟩ | hsome
  · refine .inl ⟨hnone, hposted.skip fun c r hlive => ?_⟩
    exact absurd hlive (hsec.free hinv hfree c r)
  · exact .inr ⟨_, j, hsome, rfl, rfl, hf'.spec.2.2.2.1 j, hposted⟩

/-- A step of another thread. -/
theorem Progress.other (hp : Progress w t mid older) (hm : Move w l w') (hne : t ≠ l.tid) :
    Progress w' t mid older := by
  obtain ⟨hsending, hpc⟩ := hm.local_of_ne hne
  refine progress_iff.mpr fun i msg site next done hf => ?_
  rcases hpc with hpc | ⟨c, fd, -, -, hrecv⟩
  · exact (progress_iff.mp hp i msg site next done (hpc ▸ hf)).other hsending
  · rw [hrecv] at hf
    cases hf

theorem Progress.foreign (hp : Progress w t (completed mid) older) {e : Event}
    (he : ∀ s peer written k, e ≠ .send t s peer written k) :
    Progress w t (completed (e :: mid)) older :=
  progress_iff.mpr fun i msg site next done hf =>
    (progress_iff.mp hp i msg site next done hf).foreign he

/-- What a step of its thread leaves of the section. -/
theorem Progress.own (hp : Progress w t (completed mid) older)
    (hsec : Section w t mid older cause) (hinv : Inv w) (hm : Move w l w') (ht : l.tid = t) :
    (w'.log = w.log → Progress w' t (completed mid) older) ∧
      ∀ e, w'.log = e :: w.log → Progress w' t (completed (e :: mid)) older := by
  subst ht
  rcases hs : w.sending l.tid with - | s
  · -- no `send()`: on to the next slot
    have hwalk := hp.walk hsec hinv hm rfl hs
    refine ⟨fun _ => hwalk, fun e hlog => hwalk.foreign ?_⟩
    rintro s peer written k rfl
    obtain ⟨-, hs', -⟩ := hm.send_of_log hlog
    rw [hs] at hs'
    cases hs'
  · obtain ⟨written, hlog⟩ := hm.log_of_sending hs
    refine ⟨fun hsame => ?_, fun e hlog' => ?_⟩
    · rw [hsame] at hlog
      exact absurd hlog.symm (List.cons_ne_self _ _)
    · refine progress_iff.mpr fun i msg site next done hf => ?_
      rw [hm.pc_of_sending hs] at hf
      exact (progress_iff.mp hp i msg site next done hf).transmit hsec hinv hm rfl hs hlog'

theorem Progress.step (hp : Progress w t (completed mid) older)
    (hsec : Section w t mid older cause) (hinv : Inv w) (hm : Move w l w')
    {mid' older' : List Event} {cause' : Cause} (hsec' : Section w' t mid' older' cause') :
    Progress w' t (completed mid') older' := by
  rcases hsec.step hinv hm with ⟨-, hfree⟩ | ⟨hnext, hlog⟩ | ⟨e, hnext, hlog⟩
  · rw [hsec'.holder] at hfree
    cases hfree
  · obtain ⟨rfl, -, rfl⟩ := hnext.unique hsec'
    rcases eq_or_ne l.tid t with ht | hne
    · exact (hp.own hsec hinv hm ht).1 hlog
    · exact hp.other hm hne.symm
  · obtain ⟨rfl, -, rfl⟩ := hnext.unique hsec'
    rcases eq_or_ne l.tid t with ht | hne
    · exact (hp.own hsec hinv hm ht).2 e hlog
    · refine (hp.other hm hne.symm).foreign ?_
      rintro s peer written k rfl
      exact hne (hm.send_of_log hlog).1.symm

/-! ### Whole sections -/

/-- At its end the loop has gone through every slot. -/
theorem Progress.delivers (hp : Progress w t seen older) (hsec : Section w t mid older cause)
    (hinv : Inv w) (hs : w.sending t = none)
    (hlast : ∀ i msg site next done, FanoutAt (w.pc t) i msg site next done →
      w.table.numClientes ≤ i) (hmsg : cause.message? = some msg) :
    Delivers t seen older msg := by
  obtain ⟨i, msg', site, next, done, hf⟩ := hsec.pc.fanoutAt hmsg
  obtain rfl : msg = msg' := Option.some.inj (hmsg.symm.trans (hf.message hsec.pc))
  rcases hp i msg site next done hf with ⟨-, hsent⟩ | ⟨s, _, hs', -⟩
  · refine hsent.delivers fun c j r hlive => ?_
    obtain ⟨r', hr', -⟩ := hinv.represents.active c j r (hsec.live_iff.mpr hlive)
    exact (hinv.core.ok.above hr').trans_le (hlast i msg site next done hf)
  · rw [hs] at hs'
    cases hs'

/-- A section that ends has gone through all clients. -/
def Rounded (e : Event) (h : List Event) : Prop :=
  ∀ t k, e = .unlocked t k →
    ∃ mid cause older, h = mid ++ .locked t k cause :: older ∧ (∀ e ∈ mid, e.Inside t) ∧
      ∀ msg, cause.message? = some msg → Delivers t (completed mid) older msg

structure Rounds (w : World) : Prop where
  progress : ∀ t mid older cause, Section w t mid older cause →
    Progress w t (completed mid) older
  ended : Always Rounded w.log

theorem Rounds.init : Rounds World.init where
  progress := fun t mid older cause hsec => (by cases hsec.holder)
  ended := trivial

theorem Rounds.step (h : Rounds w) (hinv : Inv w) (hsecs : Sections w) (hm : Move w l w') :
    Rounds w' := by
  rcases hm.locking with ⟨hmutex, -, -, hlog⟩ |
    ⟨cause, hfree, hmutex, hsections, hlog, hpc, -, hfirst⟩ |
    ⟨hidle, hmutex, -, hlocked, hlog, hlast⟩
  · constructor
    · intro t mid older cause hsec'
      obtain ⟨mid₀, older₀, cause₀, hsec⟩ := hsecs.opened t (hmutex ▸ hsec'.holder)
      exact (h.progress t mid₀ older₀ cause₀ hsec).step hsec hinv hm hsec'
    · rcases hlog with hlog | ⟨e, hlog, -, -, hunlock⟩
      · rw [hlog]
        exact h.ended
      · rw [hlog]
        exact ⟨fun t k heq => absurd heq (hunlock t k), h.ended⟩
  · constructor
    · intro t mid older cause' hsec'
      -- nothing sent yet, the loop at slot 0
      have hnew : Section w' l.tid [] w.log cause :=
        ⟨hmutex, by rw [hlog, hsections]; rfl, by simp, hpc⟩
      obtain rfl := Option.some.inj (hmutex.symm.trans hsec'.holder)
      obtain ⟨rfl, -, rfl⟩ := hnew.unique hsec'
      intro i msg site next done hf
      obtain ⟨rfl, hnone⟩ := hfirst i msg site next done hf
      exact .inl ⟨hnone, sent_iff.mpr .start⟩
    · rw [hlog]
      exact ⟨by rintro t k ⟨⟩, h.ended⟩
  · constructor
    · intro t mid older cause' hsec'
      rw [hsec'.holder] at hmutex
      cases hmutex
    · rw [hlog]
      refine ⟨?_, h.ended⟩
      rintro t k ⟨⟩
      obtain ⟨mid, older, cause, hsec⟩ :=
        hsecs.opened l.tid ((hinv.threads l.tid).lock.mpr hlocked)
      exact ⟨mid, cause, older, hsec.log, hsec.inside, fun msg hmsg =>
        (h.progress _ mid older cause hsec).delivers hsec hinv hidle hlast hmsg⟩

/-- **Every section ended has gone through all clients**, however the packets
were cut. -/
theorem rounds_of_reachable {w : World} (h : Reachable step World.init w) :
    Sections w ∧ Rounds w := by
  have hall := h.invariant (I := fun w => (Inv w ∧ FanoutCalls w) ∧ Sections w ∧ Rounds w)
    ⟨⟨.init, fun t s hs => (by cases hs)⟩, .init, .init⟩ ?_
  · exact hall.2
  · rintro w l w' ⟨⟨hinv, hcalls⟩, hsecs, hrounds⟩ hs
    have hm := move_of_step hs
    exact ⟨⟨hinv.move hm, fanoutCalls_step hinv hcalls hm⟩, hsecs.step hinv hcalls hm,
      hrounds.step hinv hsecs hm⟩

end ChatSystem
