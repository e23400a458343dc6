/-
ChatSystem/Framing.lean

What reaches a client.  Every call of `send_packet` writes its 1024 bytes by
as many `send()` calls as it takes, so the bytes of two calls on one
connection may mix.  Two sections of `mutex_lista` never overlap; but the
replies of a client's own thread (`send_ok`, `send_error`, `handle_list`,
`handle_info`, the reactivation notice) and the reply to a `REGISTER` are sent
without the mutex.

`framed_of_run`: as long as no `send()` of or into such a call falls on a
connection in the middle of another thread's packet (`Undisturbed`), the bytes
of every connection are whole packets followed by what the one call in
progress has sent.  `not_always_framed` is a run in which a broadcast and the
reply to a LIST mix.
-/
import ChatSystem.Replay

namespace ChatSystem

open CStr Lts

/-! ### Whole packets -/

/-- Thread `t` has sent a part of its packet to connection `c`. -/
def MidPacket (w : World) (c : ℕ) (t : Tid) (s : Sending) : Prop :=
  w.sending t = some s ∧ w.descr s.fd = some c ∧ 0 < s.total

/-- The packets of the calls completed on connection `c`, oldest first. -/
def delivered : List Event → ℕ → List ChatPacket
  | [], _ => []
  | .send _ s (some c') (some n) _ :: h, c =>
    if c' = c ∧ s.total + n = 1024 then delivered h c ++ [s.pkt] else delivered h c
  | _ :: h, c => delivered h c

/-- The bytes of whole packets. -/
def framesOf (pkts : List ChatPacket) : List UInt8 := pkts.flatMap ChatPacket.toBytes

/-- The bytes of connection `c` are those of the calls completed and then
those of one call in progress at most. -/
def Framed (w : World) (c : ℕ) : Prop :=
  ((∀ t s, ¬ MidPacket w c t s) ∧ w.wire c = framesOf (delivered w.log c)) ∨
  ∃ t s, MidPacket w c t s ∧ (∀ t' s', MidPacket w c t' s' → t' = t) ∧
    w.wire c = framesOf (delivered w.log c) ++ s.pkt.toBytes.take s.total

/-- No `send()` fails. -/
def Reliable (w : World) (l : Label) : Prop :=
  w.sending l.tid ≠ none → l.answer ≠ .fail

/-- A `send()` falls into another thread's packet only if both calls are made
in sections of the mutex. -/
def Undisturbed (w : World) (l : Label) : Prop :=
  ∀ s c t s', w.sending l.tid = some s → w.descr s.fd = some c → t ≠ l.tid →
    MidPacket w c t s' → (w.pc l.tid).locked = true ∧ (w.pc t).locked = true

variable {w w' : World} {l : Label} {c : ℕ}

theorem delivered_cons_of_not_isSend {h : List Event} {e : Event} (he : ¬ e.IsSend) (c : ℕ) :
    delivered (e :: h) c = delivered h c := by
  cases e <;> first | rfl | exact absurd trivial he

theorem framesOf_append_singleton (pkts : List ChatPacket) (pkt : ChatPacket) :
    framesOf (pkts ++ [pkt]) = framesOf pkts ++ pkt.toBytes := by
  simp [framesOf]

/-- The two parts of a packet around a `send()` of `n` bytes. -/
theorem take_add_drop (bytes : List UInt8) (i n : ℕ) :
    bytes.take i ++ (bytes.drop i).take n = bytes.take (i + n) :=
  List.take_add.symm

/-! ### One step -/

/-- Two sections never overlap, so no other thread is in the middle of a
packet when a `send()` happens. -/
theorem Undisturbed.alone (h : Inv w) (hu : Undisturbed w l) {s : Sending}
    (hs : w.sending l.tid = some s) (hc : w.descr s.fd = some c) {t : Tid} {s' : Sending}
    (hmid : MidPacket w c t s') : t = l.tid := by
  by_contra ht
  obtain ⟨hlocked, hlocked'⟩ := hu s c t s' hs hc ht hmid
  have hheld := h.holds rfl hlocked
  have hheld' := h.holds rfl hlocked'
  rw [hheld] at hheld'
  exact ht (Option.some.inj hheld').symm

/-- With no other thread in the middle of a packet, the bytes are those of
whole packets and of the sending thread's call so far. -/
theorem Framed.wire_eq (hf : Framed w c) {t : Tid} {s : Sending} (hs : w.sending t = some s)
    (hc : w.descr s.fd = some c) (halone : ∀ t' s', MidPacket w c t' s' → t' = t) :
    w.wire c = framesOf (delivered w.log c) ++ s.pkt.toBytes.take s.total := by
  rcases hf with ⟨hnone, hwire⟩ | ⟨t', s', hmid, -, hwire⟩
  · have hzero : s.total = 0 := by
      by_contra hpos
      exact hnone t s ⟨hs, hc, Nat.pos_of_ne_zero hpos⟩
    rw [hwire, hzero, List.take_zero, List.append_nil]
  · obtain rfl := halone t' s' hmid
    obtain rfl : s' = s := Option.some.inj (hmid.1.symm.trans hs)
    exact hwire

theorem Framed.congr (hf : Framed w c)
    (hmid : ∀ t s, MidPacket w' c t s ↔ MidPacket w c t s) (hwire : w'.wire c = w.wire c)
    (hlog : delivered w'.log c = delivered w.log c) : Framed w' c := by
  unfold Framed at hf ⊢
  simpa only [hmid, hwire, hlog] using hf

/-- A `send()` on another connection. -/
theorem Framed.other (hf : Framed w c) {s : Sending} {c' : ℕ} {o : Option Sending}
    (hc : c' ≠ c) (hs : w.sending l.tid = some s) (hdescr : w.descr s.fd = some c')
    (ho : ∀ s', o = some s' → s'.fd = s.fd) (hwire : w'.wire c = w.wire c)
    (hsending : w'.sending = Function.update w.sending l.tid o) (hd : w'.descr = w.descr)
    (hlog : delivered w'.log c = delivered w.log c) : Framed w' c := by
  refine hf.congr (fun t s' => ?_) hwire hlog
  · unfold MidPacket
    rw [hsending, hd]
    by_cases ht : t = l.tid
    · subst ht
      rw [Function.update_self]
      apply iff_of_false
      · rintro ⟨hs', hc', -⟩
        rw [ho s' hs', hdescr] at hc'
        exact hc (Option.some.inj hc')
      · rintro ⟨hs', hc', -⟩
        rw [hs] at hs'
        rw [← Option.some.inj hs', hdescr] at hc'
        exact hc (Option.some.inj hc')
    · rw [Function.update_of_ne ht]

/-- A step without a `send()`: calls that start have sent nothing yet. -/
theorem Framed.quiet (hf : Framed w c) (h : Inv w) (h' : Inv w') (hm : Move w l w')
    {o : Option Sending} (hs : w.sending l.tid = none) (hwire : w'.wire = w.wire)
    (hsending : w'.sending = Function.update w.sending l.tid o)
    (ho : ∀ s, o = some s → s.total = 0)
    (hlog : w'.log = w.log ∨ ∃ e, w'.log = e :: w.log ∧ ¬ e.IsSend) : Framed w' c := by
  have hdel : delivered w'.log c = delivered w.log c := by
    rcases hlog with hlog | ⟨e, hlog, he⟩
    · rw [hlog]
    · rw [hlog, delivered_cons_of_not_isSend he]
  refine hf.congr (fun t s' => ?_) (by rw [hwire]) hdel
  · unfold MidPacket
    by_cases ht : t = l.tid
    · subst ht
      rw [hsending, Function.update_self, hs]
      refine iff_of_false ?_ (by simp)
      rintro ⟨hs', -, hpos⟩
      rw [ho s' hs'] at hpos
      exact Nat.lt_irrefl 0 hpos
    · have hsame : w'.sending t = w.sending t := by
        rw [hsending, Function.update_of_ne ht]
      rw [hsame]
      -- the descriptor of a call in progress denotes what it denoted
      refine and_congr_right fun hs' => ?_
      obtain ⟨c₁, hc₁, -⟩ := h.send_allowed hs'
      obtain ⟨c₂, hc₂, -⟩ := h'.send_allowed (hsame.trans hs')
      rcases hm.descr_cases hc₁ with hdescr | hdescr
      · rw [hc₁, hdescr]
      · rw [hc₂] at hdescr
        cases hdescr

/-- A `send()` on the connection, by the only thread in the middle of a packet
there, if any is. -/
theorem Framed.wrote (hf : Framed w c) {s : Sending} {n : ℕ}
    (hs : w.sending l.tid = some s) (hc : w.descr s.fd = some c)
    (halone : ∀ t' s', MidPacket w c t' s' → t' = l.tid) (hn : 0 < n) (hle : s.total + n ≤ 1024)
    (hwire : w'.wire c = w.wire c ++ (s.pkt.toBytes.drop s.total).take n)
    (hsending : w'.sending = Function.update w.sending l.tid
      (if s.total + n < 1024 then some { s with total := s.total + n } else none))
    (hd : w'.descr = w.descr)
    (hlog : w'.log = .send l.tid s (some c) (some n) w.sections :: w.log) : Framed w' c := by
  -- the stream ends where this packet is, so its next bytes follow
  have hbytes : w'.wire c =
      framesOf (delivered w.log c) ++ s.pkt.toBytes.take (s.total + n) := by
    rw [hwire, hf.wire_eq hs hc halone, List.append_assoc, take_add_drop]
  have hothers : ∀ t' s', MidPacket w' c t' s' → t' = l.tid := by
    intro t' s' hmid
    by_contra ht
    unfold MidPacket at hmid
    rw [hsending, Function.update_of_ne ht, hd] at hmid
    exact ht (halone t' s' hmid)
  rcases Nat.lt_or_ge (s.total + n) 1024 with hlt | hge
  · -- the call goes on
    rw [if_pos hlt] at hsending
    refine .inr ⟨l.tid, { s with total := s.total + n }, ⟨?_, ?_, ?_⟩, hothers, ?_⟩
    · rw [hsending, Function.update_self]
    · rw [hd]
      exact hc
    · exact Nat.add_pos_right _ hn
    · have hdel : delivered w'.log c = delivered w.log c := by
        rw [hlog, delivered, if_neg]
        rintro ⟨-, heq⟩
        omega
      rw [hdel]
      exact hbytes
  · -- the packet is complete
    rw [if_neg (Nat.not_lt.mpr hge)] at hsending
    refine .inl ⟨fun t' s' hmid => ?_, ?_⟩
    · obtain rfl := hothers t' s' hmid
      have hnone := hmid.1
      rw [hsending, Function.update_self] at hnone
      cases hnone
    · have hdel : delivered w'.log c = delivered w.log c ++ [s.pkt] := by
        rw [hlog, delivered, if_pos ⟨rfl, Nat.le_antisymm hle hge⟩]
      rw [hdel, framesOf_append_singleton, hbytes, List.take_of_length_le]
      rw [s.pkt.length_toBytes]
      exact hge

/-! ### Whole runs -/

theorem framed_step (h : Inv w) (hf : ∀ c, Framed w c) (hr : Reliable w l)
    (hu : Undisturbed w l) (hs : step w l = some w') (c : ℕ) : Framed w' c := by
  have hm := move_of_step hs
  rcases hm.transmits with
    ⟨s, c', n, hsend, ha, hc', hn, hle, hwire, hsending, hlog, -, hdescr⟩ |
    ⟨s, hsend, ha, -⟩ | ⟨o, hidle, hwire, hsending, ho, hlog⟩
  · rcases eq_or_ne c' c with rfl | hne
    · exact (hf c').wrote hsend hc' (fun t' s' hmid => hu.alone h hsend hc' hmid) hn hle
        (by rw [hwire, Function.update_self]) hsending hdescr hlog
    · refine (hf c).other hne hsend hc' ?_ (by rw [hwire, Function.update_of_ne hne.symm])
        hsending hdescr (by simp [hlog, delivered, hne])
      intro s' hs'
      split at hs'
      · cases hs'
        rfl
      · cases hs'
  · exact absurd ha (hr (by rw [hsend]; simp))
  · exact (hf c).quiet h (h.move hm) hm hidle hwire hsending ho hlog

theorem framed_init (c : ℕ) : Framed World.init c :=
  .inl ⟨fun t s hmid => (by cases hmid.1), rfl⟩

/-- **Framing.**  In a run without failing `send()`s, all of whose steps are
undisturbed, the bytes of every connection are whole packets and the part
sent of one more, in every state. -/
theorem framed_of_run {tr : List (World × Label)} {w : World} (h : Run step World.init tr w)
    (hr : StepsAll Reliable tr) (hu : StepsAll Undisturbed tr) :
    StatesAll (fun w => ∀ c, Framed w c) tr w := by
  have hall := h.statesAll_of_steps (I := fun w => Inv w ∧ ∀ c, Framed w c)
    (C := fun w l => Reliable w l ∧ Undisturbed w l) ⟨.init, framed_init⟩
    (fun w l w' hI hC hs => ⟨hI.1.step hs, framed_step hI.1 hI.2 hC.1 hC.2 hs⟩) (hr.and hu)
  exact hall.mono fun _ hI => hI.2

theorem Atomic.reliable (ha : Atomic w l) : Reliable w l := by
  intro hs hfail
  rw [ha hs] at hfail
  cases hfail

/-- Packets sent at once are not disturbed. -/
theorem undisturbed_of_atomic {tr : List (World × Label)} {w : World}
    (h : Run step World.init tr w) (ha : StepsAll Atomic tr) : StepsAll Undisturbed tr := by
  intro x hx s c t s' _ _ _ hmid
  have hzero := ((whole_of_run h ha).2 x hx).pending t s' hmid.1
  exact absurd hmid.2.2 (by omega)

/-- Two users join and one writes to both. -/
def greeting : List Label :=
  joining 4 (ip 1) (registerPacket alice) ++ joining 5 (ip 2) (registerPacket bob) ++
    [⟨.client 1, .packet (clientPacket cmdBroadcast bob [] (utf8 "hola"))⟩,
      ⟨.client 1, .clock 0⟩] ++ goes 1 2 ++ [sends 1] ++ goes 1 1 ++ [sends 1] ++ goes 1 1

theorem framed_greeting : ∃ tr w, Run step World.init tr w ∧
    (delivered w.log 0).length = 2 ∧ StatesAll (fun w => ∀ c, Framed w c) tr w := by
  have hexec : (exec step World.init greeting).any
      (fun w => (delivered w.log 0).length == 2) = true := by decide +kernel
  obtain ⟨tr, w, hrun, hls, hp⟩ := exists_run hexec
  have ha := atomic_of_labels hrun hls (by decide +kernel)
  exact ⟨tr, w, hrun, by simpa using hp, framed_of_run hrun (fun x hx => (ha x hx).reliable)
    (undisturbed_of_atomic hrun ha)⟩

/-! ### A broadcast in the middle of a reply -/

/-- Alice has asked for the list; half of it has been sent when Bob's broadcast
reaches her. -/
def interleaved : List Label :=
  joining 4 (ip 1) (registerPacket alice) ++ joining 5 (ip 2) (registerPacket bob) ++
    [⟨.client 0, .packet (clientPacket cmdList alice [] [])⟩, ⟨.client 0, .go⟩,
      ⟨.client 0, .wrote 512⟩,
      ⟨.client 1, .packet (clientPacket cmdBroadcast bob [] (utf8 "hola"))⟩,
      ⟨.client 1, .clock 0⟩] ++ goes 1 2 ++ [⟨.client 1, .wrote 512⟩,
      ⟨.client 0, .wrote 512⟩, ⟨.client 1, .wrote 512⟩]

/-- The packets of all calls that have sent to connection `c`. -/
def sentTo (h : List Event) (c : ℕ) : List ChatPacket :=
  h.filterMap fun e =>
    match e with
    | .send _ s (some c') _ _ => if c' = c then some s.pkt else none
    | _ => none

/-- The second 1024 bytes of a sequence of whole packets are one of them. -/
theorem second_frame {pkts : List ChatPacket} {bytes part : List UInt8}
    (hpart : part.length < 1024) (hbytes : bytes = framesOf pkts ++ part)
    (hlen : 2048 ≤ bytes.length) :
    ∃ pkt ∈ pkts, (bytes.drop 1024).take 1024 = pkt.toBytes := by
  subst hbytes
  match pkts with
  | [] =>
    simp [framesOf] at hlen
    omega
  | [p] =>
    simp [framesOf, p.length_toBytes] at hlen
    omega
  | p :: q :: rest =>
    refine ⟨q, by simp, ?_⟩
    have hp : 1024 = p.toBytes.length := p.length_toBytes.symm
    have hq : 1024 = q.toBytes.length := q.length_toBytes.symm
    simp only [framesOf, List.flatMap_cons, List.append_assoc]
    rw [List.drop_left' hp.symm, List.take_left' hq.symm]

theorem exec_interleaved : (exec step World.init interleaved).any (fun w =>
    decide (2048 ≤ (w.wire 0).length) &&
      (sentTo w.log 0).all fun pkt => ((w.wire 0).drop 1024).take 1024 != pkt.toBytes) = true := by
  decide +kernel

/-- Runs whose labels contain no failure have no failing `send()`. -/
theorem reliable_of_labels {tr : List (World × Label)} {ls : List Label}
    (h : tr.map Prod.snd = ls.reverse) (hls : ∀ l ∈ ls, l.answer ≠ .fail) :
    StepsAll Reliable tr := by
  intro x hx _
  have hmem : x.2 ∈ tr.map Prod.snd := List.mem_map_of_mem hx
  rw [h, List.mem_reverse] at hmem
  exact hls _ hmem

/-- **The bytes of a connection need not be whole packets**, even if every
`send()` succeeds. -/
theorem not_always_framed :
    ¬ ∀ tr w, Run step World.init tr w → StepsAll Reliable tr → ∀ c, ∃ pkts part,
      (∀ pkt ∈ pkts, pkt ∈ sentTo w.log c) ∧ part.length < 1024 ∧
        w.wire c = framesOf pkts ++ part := by
  intro hall
  obtain ⟨tr, w, hrun, hls, hp⟩ := exists_run exec_interleaved
  obtain ⟨hlen, hframe⟩ := Bool.and_eq_true_iff.mp hp
  obtain ⟨pkts, part, hsent, hpart, hwire⟩ :=
    hall tr w hrun (reliable_of_labels hls (by decide)) 0
  obtain ⟨pkt, hmem, heq⟩ := second_frame hpart hwire (by simpa using hlen)
  have hne := List.all_eq_true.mp hframe pkt (hsent pkt hmem)
  rw [heq] at hne
  simp at hne

end ChatSystem
