/-
ChatSystem/Queries.lean

Queries are not activity.  A client that is registered may send any number of
`LIST` and `INFO` packets, `REGISTER` again, or send commands the server does
not know: the table goes through the same states as without them, and nobody is
sent anything else, but for the replies.

Two runs are compared.  `del` picks the packets that are deleted, by the
position of their receipt in the history; those that are not `Query`s stay.
`deleted` is the packet a thread is busy with, when it is one of them, and

* `erase` is the history without the deleted packets and the replies to them;
* `skips` tells the steps that are deleted: those that receive such a packet,
  and those of its thread up to the next `recv`;
* `kept` is the trace without these steps.

`Thinned` relates a state of the run to the state the other run has reached
meanwhile: the same, but for the threads busy with a deleted packet, which wait
in `recv` over there.  A deleted step keeps it with no step on the other side
(`Thinned.skip`), any other step with the same step (`Thinned.keep`, by
`step_together`).
-/
import ChatSystem.Effects
import ChatSystem.Locality
import ChatSystem.Replay

namespace ChatSystem

open CStr Lts

/-! ### What is deleted -/

/-- `LIST`, `INFO`, a repeated `REGISTER`, or a command the server does not
know. -/
def Query (pkt : ChatPacket) : Prop :=
  pkt.command = cmdList ∨ pkt.command = cmdInfo ∨ pkt.command = cmdRegister ∨
    pkt.command ∉ [cmdRegister, cmdBroadcast, cmdDirect, cmdList, cmdInfo, cmdStatus, cmdLogout]

instance : DecidablePred Query := fun _ => inferInstanceAs (Decidable (_ ∨ _ ∨ _ ∨ _))

theorem Query.command_not_mem {pkt : ChatPacket} (h : Query pkt) :
    pkt.command ∉ [cmdBroadcast, cmdDirect, cmdStatus, cmdLogout] := by
  rcases h with h | h | h | h
  · rw [h]
    decide
  · rw [h]
    decide
  · rw [h]
    decide
  · simp only [List.mem_cons, List.not_mem_nil, or_false] at h ⊢
    tauto

/-- The packets that a step in `recv` for connection `c` is deleted with. -/
def picks (del : ℕ → Bool) (h : List Event) (pkt : ChatPacket) : Bool :=
  decide (Query pkt) && del h.length

/-- The packet the thread of connection `c` received last, if it is deleted. -/
def deleted (del : ℕ → Bool) : List Event → ℕ → Option ChatPacket
  | [], _ => none
  | .received (.client c') _ _ pkt :: h, c =>
    if c' = c then (if picks del h pkt then some pkt else none) else deleted del h c
  | .recvFailed (.client c') _ _ :: h, c => if c' = c then none else deleted del h c
  | _ :: h, c => deleted del h c

/-- The event is the receipt of a deleted packet, or a `send()` of the reply. -/
def Event.dropped (del : ℕ → Bool) (h : List Event) : Event → Bool
  | .received (.client _) _ _ pkt => picks del h pkt
  | .send (.client c) _ _ _ _ => (deleted del h c).isSome
  | _ => false

/-- The history without the dropped events. -/
def erase (del : ℕ → Bool) : List Event → List Event
  | [] => []
  | e :: h => if e.dropped del h then erase del h else e :: erase del h

/-- The thread of connection `c` is about to call `recv`. -/
def World.receives (w : World) (c : ℕ) : Bool :=
  match w.pc (.client c) with
  | .recv _ => (w.sending (.client c)).isNone
  | _ => false

/-- The step is deleted with its packet. -/
def skips (del : ℕ → Bool) (w : World) (l : Label) : Bool :=
  match l.tid with
  | .client c =>
    if w.receives c then
      match l.answer with
      | .packet pkt => picks del w.log pkt
      | _ => false
    else (deleted del w.log c).isSome
  | _ => false

/-- The steps that remain. -/
def kept (del : ℕ → Bool) (tr : List (World × Label)) : List (World × Label) :=
  tr.filter fun x => !skips del x.1 x.2

/-! ### Events and threads -/

section Steps

variable {w w' : World} {l : Label} {c : ℕ} {fd : ℤ} {del : ℕ → Bool}

theorem receives_iff : w.receives c = true ↔
    (∃ fd, w.pc (.client c) = .recv fd) ∧ w.sending (.client c) = none := by
  unfold World.receives
  split
  · case h_1 fd hpc => simp [hpc]
  · case h_2 hne =>
    constructor
    · intro h
      cases h
    · rintro ⟨⟨fd, hpc⟩, -⟩
      exact absurd hpc (hne fd)

theorem receives_eq_false_of_sending {s : Sending} (hs : w.sending (.client c) = some s) :
    w.receives c = false := by
  rw [← Bool.not_eq_true, receives_iff, hs]
  rintro ⟨-, hnone⟩
  cases hnone

theorem receives_eq_false_of_pc {p : Pc} (hpc : w.pc (.client c) = p) (hp : ∀ fd, p ≠ .recv fd) :
    w.receives c = false := by
  rw [← Bool.not_eq_true, receives_iff]
  rintro ⟨⟨fd, hrecv⟩, -⟩
  exact hp fd (hpc.symm.trans hrecv)

/-- What the thread of connection `c` does in `recv`. -/
inductive Receipt (del : ℕ → Bool) (w : World) (l : Label) (w' : World) (c : ℕ) : Prop
  | packet (pkt : ChatPacket) (fd : ℤ) (peer : Option ℕ) (ha : l.answer = .packet pkt)
      (hlog : w'.log = .received (.client c) fd peer pkt :: w.log)
      (hdel : deleted del w'.log c = if picks del w.log pkt then some pkt else none)
  | failed (fd : ℤ) (peer : Option ℕ) (ha : ∀ pkt, l.answer ≠ .packet pkt)
      (hlog : w'.log = .recvFailed (.client c) fd peer :: w.log)
      (hdel : deleted del w'.log c = none)

/-- Only `recv` changes the packet a thread is busy with. -/
theorem Move.deleted_cases (h : Move w l w') (del : ℕ → Bool) (c : ℕ) :
    (deleted del w'.log c = deleted del w.log c ∧ (l.tid = .client c → w.receives c = false)) ∨
    (l.tid = .client c ∧ w.receives c = true ∧ Receipt del w l w' c) := by
  have hpacket {c' : ℕ} {fd : ℤ} {pkt : ChatPacket} (hs : w.sending (.client c') = none)
      (hpc : w.pc (.client c') = .recv fd)
      (hlog : w'.log = .received (.client c') fd (w.descr fd) pkt :: w.log)
      (hl : l = ⟨.client c', .packet pkt⟩) :
      (deleted del w'.log c = deleted del w.log c ∧ (l.tid = .client c → w.receives c = false)) ∨
        (l.tid = .client c ∧ w.receives c = true ∧ Receipt del w l w' c) := by
    subst hl
    by_cases hc : c' = c
    · subst hc
      refine .inr ⟨rfl, receives_iff.mpr ⟨⟨fd, hpc⟩, hs⟩, .packet pkt fd _ rfl hlog ?_⟩
      rw [hlog]
      exact if_pos rfl
    · refine .inl ⟨?_, fun ht => absurd (Tid.client.inj ht) hc⟩
      rw [hlog]
      exact if_neg hc
  cases h with
  | wrote hs | sendFail hs =>
    exact .inl ⟨rfl, fun ht => receives_eq_false_of_sending ((congrArg w.sending ht).symm.trans hs)⟩
  | recvActivity hs hpc | recvQuery hs hpc | recvLogout hs hpc | recvIgnored hs hpc =>
    exact hpacket hs hpc rfl rfl
  | @recvFail c' fd hs hpc =>
    by_cases hc : c' = c
    · subst hc
      exact .inr ⟨rfl, receives_iff.mpr ⟨⟨fd, hpc⟩, hs⟩, .failed fd _ (by simp) rfl (if_pos rfl)⟩
    · exact .inl ⟨if_neg hc, fun ht => absurd (Tid.client.inj ht) hc⟩
  | fanoutSend _ hpc hf | fanoutSkip _ hpc hf | fanoutEnd _ hpc hf =>
    refine .inl ⟨rfl, fun ht => ?_⟩
    obtain rfl := Tid.client.inj ht
    refine receives_eq_false_of_pc hpc fun fd hrecv => ?_
    subst hrecv
    cases hf
  | touch _ hpc | reactivate _ hpc | broadcast _ hpc | direct _ hpc | directMissing _ hpc
  | status _ hpc | list _ hpc | info _ hpc | directUnlock _ hpc | resolve _ hpc
  | resolved _ hpc | remove _ hpc | close _ hpc | notify _ hpc =>
    refine .inl ⟨rfl, fun ht => ?_⟩
    obtain rfl := Tid.client.inj ht
    exact receives_eq_false_of_pc hpc (by simp)
  | _ => exact .inl ⟨rfl, fun ht => by cases ht⟩

/-! ### Which events are dropped -/

theorem skips_eq_of_receives (ht : l.tid = .client c) (hrecv : w.receives c = true)
    {pkt : ChatPacket} (ha : l.answer = .packet pkt) : skips del w l = picks del w.log pkt := by
  unfold skips
  rw [ht]
  simp only [hrecv, if_true, ha]

theorem skips_eq_false_of_receives (ht : l.tid = .client c) (hrecv : w.receives c = true)
    (ha : ∀ pkt, l.answer ≠ .packet pkt) : skips del w l = false := by
  unfold skips
  rw [ht]
  simp only [hrecv, if_true]

theorem skips_eq_of_busy (ht : l.tid = .client c) (hrecv : w.receives c = false) :
    skips del w l = (deleted del w.log c).isSome := by
  unfold skips
  rw [ht]
  simp only [hrecv, Bool.false_eq_true, if_false]

/-- The event of a step that remains, remains. -/
theorem Move.kept_event (h : Move w l w') (hskip : skips del w l = false) {e : Event}
    (hlog : w'.log = e :: w.log) : e.dropped del w.log = false := by
  have hsend {t : Tid} {s : Sending} {peer written : Option ℕ} {k : ℕ} (ht : l.tid = t)
      (hs : w.sending t = some s) :
      (Event.send t s peer written k).dropped del w.log = false := by
    cases t with
    | client c => rwa [skips_eq_of_busy ht (receives_eq_false_of_sending hs)] at hskip
    | _ => rfl
  cases h with
  | wrote hs | sendFail hs =>
    obtain ⟨rfl, -⟩ := List.cons.inj hlog
    exact hsend rfl hs
  | recvActivity hs hpc | recvQuery hs hpc | recvLogout hs hpc | recvIgnored hs hpc =>
    obtain ⟨rfl, -⟩ := List.cons.inj hlog
    rwa [skips_eq_of_receives rfl (receives_iff.mpr ⟨⟨_, hpc⟩, hs⟩) rfl] at hskip
  | acceptFail | spawn | touch | reactivate | directMissing | status | list | info | fanoutSend
  | fanoutSkip | resolve | resolved | wake | sweepMark | sweepSkip =>
    exact absurd hlog (List.cons_ne_self _ _).symm
  | _ =>
    obtain ⟨rfl, -⟩ := List.cons.inj hlog
    rfl

end Steps

/-! ### The two states -/

/-- The thread of connection `c` is busy with the deleted packet `pkt`, or done
with it. -/
inductive Answering (w : World) (c : ℕ) (fd : ℤ) (pkt : ChatPacket) : Prop
  | handle (hpc : w.pc (.client c) = .handle fd pkt) (hs : w.sending (.client c) = none)
      (hcmd : pkt.command = cmdList ∨ pkt.command = cmdInfo)
  | reply (hpc : w.pc (.client c) = .recv fd)
      (hs : ∀ s, w.sending (.client c) = some s → s.site = .reply pkt ∧
        s.pkt.command ∈ [cmdUserList, cmdUserInfo, cmdError])

/-- The event is dropped as the receipt of a query, or as a reply to one. -/
def Unheard (del : ℕ → Bool) (e : Event) (h : List Event) : Prop :=
  e.dropped del h = true →
    (∃ c fd pkt, e = .received (.client c) fd (some c) pkt ∧ Query pkt) ∨
    ∃ c s written k pkt, e = .send (.client c) s (some c) written k ∧
      deleted del h c = some pkt ∧ s.site = .reply pkt ∧
      s.pkt.command ∈ [cmdUserList, cmdUserInfo, cmdError]

/-- `v` is `w` without the deleted packets. -/
structure Thinned (del : ℕ → Bool) (w v : World) : Prop where
  shared : Shared w v
  log : v.log = erase del w.log
  threads : ∀ t, (∀ c, t = .client c → deleted del w.log c = none) → AgreeAt t w v
  answering : ∀ c pkt, deleted del w.log c = some pkt → ∃ fd, Answering w c fd pkt ∧
    v.pc (.client c) = .recv fd ∧ v.sending (.client c) = none
  unheard : Always (Unheard del) w.log

namespace Thinned

variable {del : ℕ → Bool} {w w' v v' : World} {l : Label} {c : ℕ} {pkt : ChatPacket}

theorem init (del : ℕ → Bool) : Thinned del World.init World.init where
  shared := ⟨rfl, rfl, rfl, rfl, rfl⟩
  log := rfl
  threads := fun _ _ => ⟨rfl, rfl⟩
  answering := fun _ _ h => by cases h
  unheard := trivial

/-- In `recv` a thread is at the same point on both sides. -/
theorem agree_of_receives (h : Thinned del w v) (hrecv : w.receives c = true) :
    AgreeAt (.client c) w v := by
  obtain ⟨⟨fd, hpc⟩, hs⟩ := receives_iff.mp hrecv
  rcases hdel : deleted del w.log c with - | pkt
  · exact h.threads _ fun d hd => by cases hd; exact hdel
  · obtain ⟨fd', hans, hpcv, hsv⟩ := h.answering c pkt hdel
    rcases hans with ⟨hpc', -, -⟩ | ⟨hpc', -⟩
    · cases hpc.symm.trans hpc'
    · cases hpc.symm.trans hpc'
      exact ⟨hpcv.trans hpc.symm, hsv.trans hs.symm⟩

/-- The thread of a step that remains is at the same point on both sides. -/
theorem agree_of_kept (h : Thinned del w v) (hskip : skips del w l = false) :
    AgreeAt l.tid w v := by
  rcases ht : l.tid with - | - | c
  · exact h.threads _ fun d hd => by cases hd
  · exact h.threads _ fun d hd => by cases hd
  · rcases hrecv : w.receives c with - | -
    · rw [skips_eq_of_busy ht hrecv, Option.isSome_eq_false_iff, Option.isNone_iff_eq_none]
        at hskip
      exact h.threads _ fun d hd => by cases hd; exact hskip
    · exact h.agree_of_receives hrecv

/-! ### A step that is deleted -/

/-- The thread of connection `c` goes on with its deleted packet. -/
theorem advance (h : Thinned del w v) {fd : ℤ} (hshared : Shared w w')
    (hother : ∀ t ≠ .client c, w'.pc t = w.pc t ∧ w'.sending t = w.sending t)
    (hlog : w'.log = w.log ∨ ∃ e, w'.log = e :: w.log ∧ e.dropped del w.log = true ∧
      Unheard del e w.log)
    (hdel : ∀ c' ≠ c, deleted del w'.log c' = deleted del w.log c')
    (hc : deleted del w'.log c = some pkt) (hans : Answering w' c fd pkt)
    (hpc : v.pc (.client c) = .recv fd) (hs : v.sending (.client c) = none) :
    Thinned del w' v := by
  have hne {c' : ℕ} (hc' : c' ≠ c) : (Tid.client c' : Tid) ≠ .client c :=
    fun heq => hc' (Tid.client.inj heq)
  refine ⟨hshared.symm.trans h.shared, ?_, ?_, ?_, ?_⟩
  · rcases hlog with hlog | ⟨e, hlog, hdrop, -⟩
    · rw [hlog]
      exact h.log
    · rw [hlog, erase, if_pos hdrop]
      exact h.log
  · intro t hnone
    have ht : t ≠ .client c := by
      rintro rfl
      rw [hnone c rfl] at hc
      cases hc
    obtain ⟨hpc', hs'⟩ := hother t ht
    have hat := h.threads t fun c' hc' => by
      subst hc'
      rw [← hdel c' fun heq => ht (by rw [heq])]
      exact hnone c' rfl
    exact ⟨hat.pc.trans hpc'.symm, hat.sending.trans hs'.symm⟩
  · intro c' pkt' hc'
    rcases eq_or_ne c' c with rfl | hcc
    · obtain rfl := Option.some.inj (hc.symm.trans hc')
      exact ⟨fd, hans, hpc, hs⟩
    · rw [hdel c' hcc] at hc'
      obtain ⟨fd', hans', hpcv, hsv⟩ := h.answering c' pkt' hc'
      obtain ⟨hpc', hs'⟩ := hother _ (hne hcc)
      refine ⟨fd', ?_, hpcv, hsv⟩
      rcases hans' with ⟨hp, hs₀, hcmd⟩ | ⟨hp, hs₀⟩
      · exact .handle (hpc'.trans hp) (hs'.trans hs₀) hcmd
      · exact .reply (hpc'.trans hp) fun s hs => hs₀ s (hs'.symm.trans hs)
  · rcases hlog with hlog | ⟨e, hlog, -, hun⟩
    · rw [hlog]
      exact h.unheard
    · rw [hlog]
      exact ⟨hun, h.unheard⟩

/-- The packet is received. -/
theorem skip_receipt (h : Thinned del w v) (hinv : Inv w) (hm : Move w l w')
    (ht : l.tid = .client c) (hrecv : w.receives c = true) (ha : l.answer = .packet pkt)
    (hpick : picks del w.log pkt = true) : Thinned del w' v ∧ w'.table = w.table := by
  obtain ⟨⟨fd, hpc⟩, hs⟩ := receives_iff.mp hrecv
  have hquery : Query pkt := of_decide_eq_true (Bool.and_eq_true_iff.mp hpick).1
  have hat := h.agree_of_receives hrecv
  have hdescr : w.descr fd = some c := (hinv.own_descr hpc rfl rfl).1
  have hdel (c' : ℕ) (hc' : c' ≠ c) :
      deleted del (.received (.client c) fd (w.descr fd) pkt :: w.log) c' =
        deleted del w.log c' := if_neg hc'.symm
  have hc : deleted del (.received (.client c) fd (w.descr fd) pkt :: w.log) c = some pkt :=
    (if_pos rfl).trans (if_pos hpick)
  have hunheard : Unheard del (.received (.client c) fd (w.descr fd) pkt) w.log :=
    fun _ => .inl ⟨c, fd, pkt, by rw [hdescr], hquery⟩
  have hnot := hquery.command_not_mem
  simp only [List.mem_cons, List.not_mem_nil, or_false, not_or] at hnot
  cases hm with
  | recvQuery hs' hpc' hcmd =>
    obtain rfl := Tid.client.inj ht
    cases ha
    cases hpc.symm.trans hpc'
    refine ⟨h.advance ⟨rfl, rfl, rfl, rfl, rfl⟩ (fun t ht => ?_)
      (.inr ⟨_, rfl, hpick, hunheard⟩) hdel hc (.handle (Function.update_self _ _ _) hs hcmd)
      (hat.pc.trans hpc) (hat.sending.trans hs), rfl⟩
    exact ⟨Function.update_of_ne ht _ _, rfl⟩
  | recvIgnored hs' hpc' hcmd =>
    obtain rfl := Tid.client.inj ht
    cases ha
    cases hpc.symm.trans hpc'
    refine ⟨h.advance ⟨rfl, rfl, rfl, rfl, rfl⟩ (fun t _ => ⟨rfl, rfl⟩)
      (.inr ⟨_, rfl, hpick, hunheard⟩) hdel hc (.reply hpc fun s hs' => ?_)
      (hat.pc.trans hpc) (hat.sending.trans hs), rfl⟩
    cases hs.symm.trans hs'
  -- a query is none of these
  | recvActivity hs' hpc' hcmd =>
    cases ha
    exact absurd hcmd (by tauto)
  | recvLogout hs' hpc' hcmd =>
    cases ha
    exact absurd hcmd (by tauto)
  | recvFirst => cases ht
  | _ => cases ha

/-- The handlers of `LIST` and `INFO` call `send_packet` once, and nothing else. -/
theorem handle_query (w : World) (c : ℕ) (fd : ℤ)
    (hcmd : pkt.command = cmdList ∨ pkt.command = cmdInfo) :
    ∃ reply : ChatPacket, reply.command ∈ [cmdUserList, cmdUserInfo, cmdError] ∧
      handle w c fd pkt =
        (w.goto (.client c) (.recv fd)).call (.client c) fd reply (.reply pkt) := by
  unfold handle
  rcases hcmd with hcmd | hcmd
  · refine ⟨handleList w.table pkt, List.mem_cons_self, ?_⟩
    rw [hcmd]
    rfl
  · refine ⟨handleInfo w.table pkt, ?_, ?_⟩
    · simp only [handleInfo]
      split <;> simp [sendError]
    · rw [hcmd]
      rfl

/-- The packet is handled. -/
theorem skip_handle (h : Thinned del w v) {a : Answer}
    (hstep : step w ⟨.client c, a⟩ = some w') (hdel : deleted del w.log c = some pkt) {fd : ℤ}
    (hpc : w.pc (.client c) = .handle fd pkt) (hs : w.sending (.client c) = none)
    (hcmd : pkt.command = cmdList ∨ pkt.command = cmdInfo)
    (hpcv : v.pc (.client c) = .recv fd) (hsv : v.sending (.client c) = none) :
    Thinned del w' v ∧ w'.table = w.table := by
  simp only [step, hs, clientStep, hpc] at hstep
  cases a <;> simp only [reduceCtorEq] at hstep
  split at hstep
  · obtain ⟨reply, hreply, hhandle⟩ := handle_query w c fd hcmd
    obtain rfl := hhandle.symm.trans (Option.some.inj hstep)
    refine ⟨h.advance ⟨rfl, rfl, rfl, rfl, rfl⟩ (fun t ht => ?_) (.inl rfl) (fun _ _ => rfl) hdel
      (.reply (Function.update_self _ _ _) fun s hs => ?_) hpcv hsv, rfl⟩
    · exact ⟨Function.update_of_ne ht _ _, Function.update_of_ne ht _ _⟩
    · simp only [World.call, World.goto, Function.update_self, Option.some.injEq] at hs
      rw [← hs]
      exact ⟨rfl, hreply⟩
  · cases hstep

/-- A `send()` of the reply. -/
theorem skip_send (h : Thinned del w v) (hinv : Inv w) (hm : Move w l w')
    (ht : l.tid = .client c) (hdel : deleted del w.log c = some pkt) {fd : ℤ}
    (hpc : w.pc (.client c) = .recv fd) {s : Sending} (hs : w.sending (.client c) = some s)
    (hsite : s.site = .reply pkt) (hcmd : s.pkt.command ∈ [cmdUserList, cmdUserInfo, cmdError])
    (hpcv : v.pc (.client c) = .recv fd) (hsv : v.sending (.client c) = none) :
    Thinned del w' v ∧ w'.table = w.table := by
  obtain ⟨t, a⟩ := l
  obtain rfl : t = .client c := ht
  have hpeer : w.descr s.fd = some c := hinv.own_peer hs (by rw [hsite]; rfl)
  have hunheard (written : Option ℕ) (k : ℕ) :
      Unheard del (.send (.client c) s (some c) written k) w.log :=
    fun _ => .inr ⟨c, s, written, k, pkt, rfl, hdel, hsite, hcmd⟩
  have hdrop (written : Option ℕ) (k : ℕ) :
      (Event.send (.client c) s (some c) written k).dropped del w.log = true := by
    simp [Event.dropped, hdel]
  have hother {o : Option Sending} : ∀ t ≠ Tid.client c,
      w.pc t = w.pc t ∧ Function.update w.sending (.client c) o t = w.sending t :=
    fun t ht => ⟨rfl, Function.update_of_ne ht _ _⟩
  cases hm with
  | @wrote _ s' d n hs' hd hn hle =>
    obtain rfl := Option.some.inj (hs.symm.trans hs')
    obtain rfl := Option.some.inj (hpeer.symm.trans hd)
    refine ⟨h.advance ⟨rfl, rfl, rfl, rfl, rfl⟩ hother
      (.inr ⟨_, rfl, hdrop _ _, hunheard _ _⟩) (fun _ _ => rfl) hdel
      (.reply hpc fun s₁ hs₁ => ?_) hpcv hsv, rfl⟩
    simp only [World.emit, Function.update_self] at hs₁
    split at hs₁
    · obtain rfl := Option.some.inj hs₁
      exact ⟨hsite, hcmd⟩
    · cases hs₁
  | @sendFail _ s' hs' =>
    obtain rfl := Option.some.inj (hs.symm.trans hs')
    rw [hpeer]
    refine ⟨h.advance ⟨rfl, rfl, rfl, rfl, rfl⟩ hother
      (.inr ⟨_, rfl, hdrop _ _, hunheard _ _⟩) (fun _ _ => rfl) hdel
      (.reply hpc fun s₁ hs₁ => ?_) hpcv hsv, rfl⟩
    simp [World.emit] at hs₁
  | _ => simp_all

theorem skip (h : Thinned del w v) (hinv : Inv w) (hstep : step w l = some w')
    (hskip : skips del w l = true) : Thinned del w' v ∧ w'.table = w.table := by
  have hm := move_of_step hstep
  rcases l with ⟨- | - | c, a⟩
  · cases hskip
  · cases hskip
  rcases hrecv : w.receives c with - | -
  · -- the thread is busy with the packet
    rw [skips_eq_of_busy rfl hrecv] at hskip
    obtain ⟨pkt, hdel⟩ := Option.isSome_iff_exists.mp hskip
    obtain ⟨fd, hans, hpcv, hsv⟩ := h.answering c pkt hdel
    rcases hans with ⟨hpc, hs, hcmd⟩ | ⟨hpc, hs⟩
    · exact h.skip_handle hstep hdel hpc hs hcmd hpcv hsv
    · rcases hcall : w.sending (.client c) with - | s
      · rw [receives_iff.mpr ⟨⟨fd, hpc⟩, hcall⟩] at hrecv
        cases hrecv
      · obtain ⟨hsite, hcmd⟩ := hs s hcall
        exact h.skip_send hinv hm rfl hdel hpc hcall hsite hcmd hpcv hsv
  · rcases hm.deleted_cases del c with ⟨-, hbusy⟩ | ⟨-, -, hreceipt⟩
    · rw [hbusy rfl] at hrecv
      cases hrecv
    · rcases hreceipt with ⟨pkt, fd, peer, ha, -, -⟩ | ⟨fd, peer, ha, -, -⟩
      · rw [skips_eq_of_receives rfl hrecv ha] at hskip
        exact h.skip_receipt hinv hm rfl hrecv ha hskip
      · rw [skips_eq_false_of_receives rfl hrecv ha] at hskip
        cases hskip

/-! ### A step that remains -/

/-- Its thread is busy with no deleted packet behind it. -/
theorem deleted_of_kept (hm : Move w l w') (ht : l.tid = .client c)
    (hskip : skips del w l = false) : deleted del w'.log c = none := by
  rcases hm.deleted_cases del c with ⟨hsame, hbusy⟩ | ⟨-, hrecv, hreceipt⟩
  · rw [skips_eq_of_busy ht (hbusy ht)] at hskip
    rw [hsame]
    exact Option.not_isSome_iff_eq_none.mp (by simp [hskip])
  · rcases hreceipt with ⟨pkt, fd, peer, ha, -, hdel⟩ | ⟨fd, peer, -, -, hdel⟩
    · rw [skips_eq_of_receives ht hrecv ha] at hskip
      rw [hdel, hskip]
      rfl
    · exact hdel

theorem deleted_of_ne (hm : Move w l w') (ht : l.tid ≠ .client c) :
    deleted del w'.log c = deleted del w.log c := by
  rcases hm.deleted_cases del c with ⟨hsame, -⟩ | ⟨hself, -⟩
  · exact hsame
  · exact absurd hself ht

theorem keep (h : Thinned del w v) (hinv : Inv w) (hinvv : Inv v) (hstep : step w l = some w')
    (hskip : skips del w l = false) : ∃ v', step v l = some v' ∧ Thinned del w' v' := by
  have hm := move_of_step hstep
  obtain ⟨v', hstepv, htogether⟩ := step_together hstep h.shared (h.agree_of_kept hskip)
  have hmv := move_of_step hstepv
  refine ⟨v', hstepv, htogether.shared, ?_, fun t hnone => htogether.threads t ?_,
    fun c pkt hdel => ?_, ?_⟩
  · obtain ⟨es, hw, hv⟩ := htogether.log
    rcases hm.log_cases with hlog | ⟨e, hlog⟩
    · obtain rfl : es = [] := List.append_left_eq_self.mp (hw.symm.trans hlog)
      rw [hv, hlog]
      exact h.log
    · obtain rfl : es = [e] := List.append_cancel_right (hw.symm.trans hlog)
      rw [hv, hlog, erase, hm.kept_event hskip hlog, ← h.log]
      rfl
  · by_cases ht : t = l.tid
    · rw [ht]
      exact h.agree_of_kept hskip
    · refine h.threads t fun c hc => ?_
      rw [← deleted_of_ne hm fun heq => ht (hc.trans heq.symm)]
      exact hnone c hc
  · have ht : l.tid ≠ .client c := by
      intro ht
      rw [deleted_of_kept hm ht hskip] at hdel
      cases hdel
    rw [deleted_of_ne hm ht] at hdel
    obtain ⟨fd, hans, hpcv, hsv⟩ := h.answering c pkt hdel
    obtain ⟨hpcv', hsv'⟩ := hmv.stays hinvv ht.symm (by rw [hpcv]; exact Pc.noConfusion)
    refine ⟨fd, ?_, hpcv'.trans hpcv, hsv'.trans hsv⟩
    rcases hans with ⟨hpc, hs, hcmd⟩ | ⟨hpc, hs⟩
    · obtain ⟨hpc', hs'⟩ := hm.stays hinv ht.symm (by rw [hpc]; exact Pc.noConfusion)
      exact .handle (hpc'.trans hpc) (hs'.trans hs) hcmd
    · obtain ⟨hpc', hs'⟩ := hm.stays hinv ht.symm (by rw [hpc]; exact Pc.noConfusion)
      exact .reply (hpc'.trans hpc) fun s hcall => hs s (hs'.symm.trans hcall)
  · rcases hm.log_cases with hlog | ⟨e, hlog⟩
    · rw [hlog]
      exact h.unheard
    · rw [hlog]
      refine ⟨fun hdrop => ?_, h.unheard⟩
      rw [hm.kept_event hskip hlog] at hdrop
      cases hdrop

end Thinned

/-! ### Two runs -/

/-- The run `tr'`, which ends in `v`, is the run `tr`, which ends in `w`, with the
picked packets deleted: the same steps from the same tables, while the deleted
steps leave the table as it is; and the same history, but for the deleted
packets and the replies to them. -/
structure Without (del : ℕ → Bool) (tr : List (World × Label)) (w : World)
    (tr' : List (World × Label)) (v : World) : Prop where
  steps : tr'.map (fun x => (x.1.table, x.2)) = (kept del tr).map fun x => (x.1.table, x.2)
  table : v.table = w.table
  still : ∀ x ∈ tr, skips del x.1 x.2 = true → ∀ y, step x.1 x.2 = some y → y.table = x.1.table
  log : v.log = erase del w.log
  unheard : ∀ newer e older, w.log = newer ++ e :: older → Unheard del e older

/-- The run without the deleted packets, step by step. -/
theorem thinned_of_run {tr : List (World × Label)} {w : World}
    (hrun : Run step World.init tr w) (del : ℕ → Bool) :
    ∃ tr' v, Run step World.init tr' v ∧ Thinned del w v ∧
      tr'.map (fun x => (x.1.table, x.2)) = ((kept del tr).map fun x => (x.1.table, x.2)) ∧
      ∀ x ∈ tr, skips del x.1 x.2 = true → ∀ y, step x.1 x.2 = some y → y.table = x.1.table := by
  induction hrun with
  | start => exact ⟨[], World.init, .start, .init del, rfl, by simp⟩
  | @step tr w l w' hrun hstep ih =>
    obtain ⟨tr', v, hrunv, hthin, hsteps, hstill⟩ := ih
    have hinv := inv_of_reachable ⟨tr, hrun⟩
    rcases hskip : skips del w l with - | -
    · -- the other run takes the step as well
      obtain ⟨v', hstepv, hthin'⟩ :=
        hthin.keep hinv (inv_of_reachable ⟨tr', hrunv⟩) hstep hskip
      refine ⟨(v, l) :: tr', v', hrunv.step hstepv, hthin', ?_, ?_⟩
      · have hcons : kept del ((w, l) :: tr) = (w, l) :: kept del tr :=
          List.filter_cons_of_pos (by simp [hskip])
        rw [hcons, List.map_cons, List.map_cons, hsteps, hthin.shared.table]
      · refine List.forall_mem_cons.mpr ⟨fun hyes => ?_, hstill⟩
        rw [hskip] at hyes
        cases hyes
    · -- it waits
      obtain ⟨hthin', htable⟩ := hthin.skip hinv hstep hskip
      refine ⟨tr', v, hrunv, hthin', ?_, ?_⟩
      · have hcons : kept del ((w, l) :: tr) = kept del tr :=
          List.filter_cons_of_neg (by simp [hskip])
        rw [hcons]
        exact hsteps
      · refine List.forall_mem_cons.mpr ⟨fun _ y hy => ?_, hstill⟩
        obtain rfl := Option.some.inj (hstep.symm.trans hy)
        exact htable

/-- **Queries are not activity.**  From every run any set of queries can be
deleted. -/
theorem exists_without {tr : List (World × Label)} {w : World}
    (hrun : Run step World.init tr w) (del : ℕ → Bool) :
    ∃ tr' v, Run step World.init tr' v ∧ Without del tr w tr' v := by
  obtain ⟨tr', v, hrunv, hthin, hsteps, hstill⟩ := thinned_of_run hrun del
  exact ⟨tr', v, hrunv, hsteps, hthin.shared.table, hstill, hthin.log,
    fun newer e older hlog => always_iff.mp hthin.unheard newer e older hlog⟩

/-- Alice joins and asks who is there. -/
def polled : List Label :=
  joining 4 (ip 1) (registerPacket alice) ++
    [⟨.client 0, .packet (clientPacket cmdList alice [] [])⟩] ++ goes 0 1 ++ [sends 0]

/-- The event sends a user list. -/
def Event.isUserList : Event → Bool
  | .send _ s _ _ _ => s.pkt.command == cmdUserList
  | _ => false

theorem exists_without_polled : ∃ tr w tr' v, Run step World.init tr w ∧
    tr.map Prod.snd = polled.reverse ∧ Run step World.init tr' v ∧
    Without (fun _ => true) tr w tr' v ∧ w.log.any Event.isUserList = true ∧
    v.log.any Event.isUserList = false := by
  have hexec : (exec step World.init polled).any (fun w => w.log.any Event.isUserList &&
      !(erase (fun _ => true) w.log).any Event.isUserList) = true := by
    decide +kernel
  obtain ⟨tr, w, hrun, hlabels, hp⟩ := exists_run_of_exec hexec
  obtain ⟨tr', v, hrunv, hwithout⟩ := exists_without hrun fun _ => true
  rw [Bool.and_eq_true, Bool.not_eq_true', ← hwithout.log] at hp
  exact ⟨tr, w, tr', v, hrun, hlabels, hrunv, hwithout, hp⟩

end ChatSystem
