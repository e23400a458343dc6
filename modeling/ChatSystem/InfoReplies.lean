/-
ChatSystem/InfoReplies.lean

The web client's questions about users.  `getInfo` keeps the name it asks about
in `pendingInfoTarget` and sends an INFO; the reply, USER_INFO or ERROR, names
the asker only, so the client shows it under the name kept then.

Calls, the server's lookups and the arrival of replies are interleaved in any
way.  Requests and replies travel in order on one connection, so both queues
together are the names asked about and not yet answered
(`InfoInv.queues`).  A reply is shown under its own name exactly when the last
call so far asks about that name (`pairsTarget_iff`), as it does when one
question is asked at a time (`pairsTarget_of_oneAtATime`).
-/
import ChatSystem.Lts
import ChatSystem.StatusReports

namespace ChatSystem

open CStr Utf8 Lts

/-! ### Questions and replies -/

/-- A reply: the request it answers, what the server has looked up for it, and
the packet it has sent. -/
structure Reply where
  request : Request
  info : Option (List UInt8)
  pkt : ChatPacket

/-- The hook, the requests on their way to the server and the replies on their
way back.  `asked` and `answered` are history: the names asked about so far,
and how many replies have arrived. -/
structure InfoState where
  chat : Chat
  requests : List Request
  replies : List Reply
  asked : List (List Char)
  answered : ℕ

/-- What may happen next. -/
inductive InfoEvent
  | ask (target : List Char)
  | serve (t : Table)
  | deliver
  | other (pkt : ParsedPacket)

/-- The hook of user `me`, who has asked nothing. -/
def InfoState.start (me : List Char) : InfoState := ⟨inChat me, [], [], [], 0⟩

/-- `getInfo(target)`, on an open WebSocket. -/
def Chat.askInfo (s : Chat) (target : List Char) : Chat :=
  { s with pendingInfoTarget := target }.send (getInfo s.usernameRef target)

def infoStep (w : InfoState) : InfoEvent → Option InfoState
  | .ask target =>
    some { w with
      chat := w.chat.askInfo target
      requests := w.requests ++ [getInfo w.chat.usernameRef target]
      asked := w.asked ++ [target] }
  -- the server answers the oldest request, from the table as it is then
  | .serve t =>
    match w.requests with
    | [] => none
    | r :: requests =>
      some { w with
        requests := requests
        replies := w.replies ++
          [⟨r, clGetInfo t r.packet.targetPtr 128, handleInfo t r.packet⟩] }
  | .deliver =>
    match w.replies with
    | [] => none
    | r :: replies =>
      some { w with
        chat := w.chat.read r.pkt
        replies := replies
        answered := w.answered + 1 }
  -- any other packet from the bridge
  | .other pkt =>
    if pkt.command = cmdUserInfo then none
    else some { w with chat := handlePacket w.chat pkt }

/-- The next reply to arrive, which has found its user. -/
def InfoState.Arrives (w : InfoState) (r : Reply) (info : List UInt8) : Prop :=
  w.replies.head? = some r ∧ r.info = some info

/-- A `userInfo` that is set pairs what was looked up with the name it was
looked up for. -/
def PairsTarget (w : InfoState) (e : InfoEvent) : Prop :=
  e = .deliver → ∀ r info, w.Arrives r info →
    (w.chat.read r.pkt).userInfo = some (decode info, r.request.target)

/-- The name asked about last, `''` before the first call. -/
def InfoState.lastAsked (w : InfoState) : List Char := w.asked.getLastD []

/-- The name asked about last or, if this is `''`, the asker's own, as the
server sends it back. -/
def InfoState.shownName (w : InfoState) (r : Reply) : List Char :=
  if w.lastAsked = [] then readName r.request.packet.senderPtr else w.lastAsked

/-- The call that a USER_INFO answers has asked for the name shown. -/
def AnswersLast (w : InfoState) (e : InfoEvent) : Prop :=
  e = .deliver → ∀ r info, w.Arrives r info → w.asked[w.answered]? = some (w.shownName r)

/-! ### What a packet does to the hook -/

/-- No packet changes the name kept, and only a USER_INFO sets `userInfo`. -/
theorem handlePacket_keeps (s : Chat) (pkt : ParsedPacket) :
    (handlePacket s pkt).pendingInfoTarget = s.pendingInfoTarget ∧
      (pkt.command ≠ cmdUserInfo → (handlePacket s pkt).userInfo = s.userInfo) := by
  rcases frame_handlePacket s pkt with h | h | ⟨-, -, h⟩ | ⟨hinfo, info, h⟩ <;>
    simp only [Chat.frame, Prod.mk.injEq] at h
  · exact ⟨h.2.2.1, fun _ => h.2.2.2⟩
  · exact ⟨h.2.2.1, fun _ => h.2.2.2⟩
  · exact ⟨h.2.2.1, fun _ => h.2.2.2⟩
  · exact ⟨h.2.2.1, fun hne => absurd hinfo hne⟩

theorem pendingInfoTarget_read (s : Chat) (pkt : ChatPacket) :
    (s.read pkt).pendingInfoTarget = s.pendingInfoTarget := by
  unfold Chat.read
  split
  · exact (handlePacket_keeps s _).1
  · rfl

/-- The target of a packet the server has filled, as the bridge reads it. -/
theorem parsed_target (command : UInt8) (sender target payload : List UInt8) : ∃ len,
    parsePacket (fillPacket command sender target payload).toBytes =
      some ⟨command, len, readName sender, readName target,
        decode ((cstr payload).take 956)⟩ := by
  obtain ⟨len, target', hparsed⟩ := @parsed_fillPacket command target payload sender
  have htarget : (parsePacket (fillPacket command sender target payload).toBytes).map
      (·.target) = some (readName target) := by
    rw [parsePacket_toBytes, Option.map_some, fillPacket_eq]
    simp only [packed, read_field]
  rw [hparsed] at htarget
  obtain rfl := Option.some.inj htarget
  exact ⟨len, hparsed⟩

/-- What `cl_get_info` leaves is a short string. -/
theorem take_clGetInfo {t : Table} {name info : List UInt8} (h : clGetInfo t name 128 = some info) :
    (cstr info).take 956 = info := by
  unfold clGetInfo at h
  split at h
  · obtain ⟨r, -, rfl⟩ := Option.map_eq_some_iff.mp h
    have h0 : (0 : UInt8) ∉ r.ip.str ++ utf8 "," ++ r.status.str := by
      have hcomma : (0 : UInt8) ∉ utf8 "," := by decide
      simp [hcomma, r.ip.zero_notMem_str, r.status.zero_notMem_str]
    rw [cstr_eq_self (notMem_take h0 _), List.take_take]
    rfl
  · cases h

/-- **What a USER_INFO sets**: the text looked up, and the name kept or, if
there is none, the asker's. -/
theorem userInfo_read {t : Table} {req : ChatPacket} {info : List UInt8}
    (h : clGetInfo t req.targetPtr 128 = some info) (s : Chat) :
    (s.read (handleInfo t req)).userInfo = some (decode info,
      if s.pendingInfoTarget = [] then readName req.senderPtr else s.pendingInfoTarget) := by
  obtain ⟨len, hparsed⟩ := parsed_target cmdUserInfo senderServer req.senderPtr info
  have hreply : handleInfo t req = fillPacket cmdUserInfo senderServer req.senderPtr info := by
    rw [handleInfo, h]
  rw [hreply, Chat.read_eq hparsed, take_clGetInfo h]
  rfl

/-! ### The queues -/

/-- What holds in every state. -/
structure InfoInv (w : InfoState) : Prop where
  pending : w.chat.pendingInfoTarget = w.lastAsked
  queues : w.replies.map (·.request.target) ++ w.requests.map (·.target) =
    w.asked.drop w.answered
  served : ∀ r ∈ w.replies, ∃ t, r.info = clGetInfo t r.request.packet.targetPtr 128 ∧
    r.pkt = handleInfo t r.request.packet
  answered_le : w.answered ≤ w.asked.length

theorem infoInv_start (me : List Char) : InfoInv (.start me) :=
  ⟨rfl, rfl, fun _ hr => absurd hr List.not_mem_nil, le_rfl⟩

theorem InfoInv.step {w w' : InfoState} {e : InfoEvent} (h : InfoInv w)
    (hs : infoStep w e = some w') : InfoInv w' := by
  cases e with
  | ask target =>
    obtain rfl := Option.some.inj hs
    refine ⟨?_, ?_, h.served, ?_⟩
    · simp [Chat.askInfo, Chat.send, InfoState.lastAsked]
    · show _ ++ (w.requests ++ [_]).map _ = (w.asked ++ [target]).drop w.answered
      rw [List.map_append, ← List.append_assoc, h.queues,
        List.drop_append_of_le_length h.answered_le]
      rfl
    · show w.answered ≤ (w.asked ++ [target]).length
      rw [List.length_append]
      exact Nat.le_add_right_of_le h.answered_le
  | serve t =>
    rcases hreq : w.requests with - | ⟨r, requests⟩
    · simp [infoStep, hreq] at hs
    · simp only [infoStep, hreq, Option.some.injEq] at hs
      subst hs
      refine ⟨h.pending, ?_, ?_, h.answered_le⟩
      · have hqueues := h.queues
        rw [hreq, List.map_cons] at hqueues
        rw [← hqueues, List.map_append, List.append_assoc]
        rfl
      · intro r' hr'
        rcases List.mem_append.mp hr' with hr' | hr'
        · exact h.served r' hr'
        · obtain rfl := List.mem_singleton.mp hr'
          exact ⟨t, rfl, rfl⟩
  | deliver =>
    rcases hrep : w.replies with - | ⟨r, replies⟩
    · simp [infoStep, hrep] at hs
    · simp only [infoStep, hrep, Option.some.injEq] at hs
      subst hs
      have hqueues := h.queues
      rw [hrep, List.map_cons, List.cons_append] at hqueues
      refine ⟨(pendingInfoTarget_read _ _).trans h.pending, ?_, ?_, ?_⟩
      · show _ = w.asked.drop (w.answered + 1)
        rw [← List.drop_drop, ← hqueues]
        rfl
      · exact fun r' hr' => h.served r' (hrep ▸ List.mem_cons_of_mem r hr')
      · -- a reply answers a call
        have hlen := congrArg List.length hqueues
        rw [List.length_cons, List.length_drop] at hlen
        show w.answered + 1 ≤ w.asked.length
        omega
  | other pkt =>
    simp only [infoStep] at hs
    split at hs
    · cases hs
    · obtain rfl := Option.some.inj hs
      exact ⟨(handlePacket_keeps w.chat pkt).1.trans h.pending, h.queues, h.served, h.answered_le⟩

/-- The reply that arrives answers the call whose turn it is. -/
theorem InfoInv.asked_eq {w : InfoState} (h : InfoInv w) {r : Reply} {info : List UInt8}
    (harrives : w.Arrives r info) : w.asked[w.answered]? = some r.request.target := by
  obtain ⟨replies, hrep⟩ := List.head?_eq_some_iff.mp harrives.1
  have hqueues := h.queues
  rw [hrep, List.map_cons, List.cons_append] at hqueues
  rw [← List.head?_drop, ← hqueues]
  rfl

/-- **One arrival** is shown under its own name exactly when it is the name
asked about last. -/
theorem InfoInv.arrival_iff {w : InfoState} (h : InfoInv w) (e : InfoEvent) :
    PairsTarget w e ↔ AnswersLast w e := by
  refine forall_congr' fun _ => forall_congr' fun r => forall_congr' fun info =>
    forall_congr' fun harrives => ?_
  obtain ⟨replies, hrep⟩ := List.head?_eq_some_iff.mp harrives.1
  obtain ⟨t, hinfo, hpkt⟩ := h.served r (hrep ▸ List.mem_cons_self)
  have hshown : (w.chat.read r.pkt).userInfo = some (decode info, w.shownName r) := by
    rw [hpkt, userInfo_read (hinfo.symm.trans harrives.2), h.pending]
    rfl
  rw [hshown, h.asked_eq harrives, Option.some.injEq, Option.some.injEq, Prod.mk.injEq,
    and_iff_right rfl, eq_comm]

/-! ### Runs -/

theorem infoInv_of_run {me : List Char} {tr : List (InfoState × InfoEvent)} {w : InfoState}
    (h : Run infoStep (.start me) tr w) : StatesAll InfoInv tr w :=
  h.statesAll_of_steps (C := fun _ _ => True) (infoInv_start me)
    (fun _ _ _ hi _ hs => hi.step hs) fun _ _ => trivial

/-- **Every reply is shown under its own name**, in a run, exactly when each
one that arrives answers the name asked about last. -/
theorem pairsTarget_iff {me : List Char} {tr : List (InfoState × InfoEvent)} {w : InfoState}
    (h : Run infoStep (.start me) tr w) : StepsAll PairsTarget tr ↔ StepsAll AnswersLast tr := by
  have hinv := infoInv_of_run h
  exact forall_congr' fun x => forall_congr' fun hx => (hinv.2 x hx).arrival_iff x.2

/-- The next reply has found its user, and another name has been asked about
since. -/
def InfoState.overtaken (w : InfoState) : Bool :=
  match w.replies with
  | r :: _ => r.info.isSome && w.asked[w.answered]? != some (w.shownName r)
  | [] => false

theorem answersLast_deliver_iff {w : InfoState} :
    AnswersLast w .deliver ↔ w.overtaken = false := by
  unfold AnswersLast InfoState.overtaken InfoState.Arrives
  rcases hrep : w.replies with - | ⟨r, replies⟩
  · simp
  · simp only [List.head?_cons, Option.some.injEq, forall_const]
    constructor
    · intro hlast
      rcases hinfo : r.info with - | info
      · rfl
      · simp [hlast r info ⟨rfl, hinfo⟩]
    · rintro hnot _ info ⟨rfl, hinfo⟩
      simpa [hinfo] using hnot

/-- Bob asks about a user who is not there and, before he is told so, about
alice. -/
def twoQuestions : List InfoEvent :=
  [.ask "carol".toList, .ask "alice".toList, .serve twoUsers, .serve twoUsers, .deliver, .deliver]

theorem exec_twoQuestions : (execIf (fun w _ => !w.overtaken) infoStep (.start "bob".toList)
    twoQuestions).any (fun w => w.answered == 2 && w.chat.userInfo.isSome) = true := by
  decide +kernel

/-- Alice's reply is shown under her name. -/
theorem pairsTarget_iff_twoQuestions : ∃ tr w, Run infoStep (.start "bob".toList) tr w ∧
    tr.map Prod.snd = twoQuestions.reverse ∧ w.chat.userInfo.isSome = true ∧
    StepsAll PairsTarget tr := by
  obtain ⟨tr, w, hrun, hlabels, hnot, hp⟩ := exists_run_of_execIf exec_twoQuestions
  simp only [Bool.and_eq_true] at hp
  refine ⟨tr, w, hrun, hlabels, hp.2, (pairsTarget_iff hrun).mpr fun x hx he => ?_⟩
  exact answersLast_deliver_iff.mpr (by simpa using hnot x hx) rfl

/-- The other way round, alice's reply is overtaken. -/
theorem exec_overtaken : (exec infoStep (.start "bob".toList)
    [.ask "alice".toList, .ask "bob".toList, .serve twoUsers]).any InfoState.overtaken = true := by
  decide +kernel

/-- **A reply may be shown under another name.** -/
theorem not_always_pairsTarget : ¬ ∀ (me : List Char) (tr : List (InfoState × InfoEvent))
    (w : InfoState), Run infoStep (.start me) tr w → StepsAll PairsTarget tr := by
  intro hall
  obtain ⟨tr, w, hrun, -, hover⟩ := exists_run_of_exec exec_overtaken
  have hstep : ∃ w', infoStep w .deliver = some w' := by
    rcases hrep : w.replies with - | ⟨r, replies⟩
    · simp [InfoState.overtaken, hrep] at hover
    · simp [infoStep, hrep]
  obtain ⟨w', hstep⟩ := hstep
  have hpairs := (stepsAll_cons.mp (hall _ _ _ (hrun.step hstep))).1
  have hlast := ((infoInv_of_run hrun).1.arrival_iff .deliver).mp hpairs
  rw [answersLast_deliver_iff.mp hlast] at hover
  cases hover

/-! ### One question at a time -/

/-- A user is asked about only when nothing is outstanding, and by a name. -/
def OneAtATime (w : InfoState) (e : InfoEvent) : Prop :=
  ∀ target, e = .ask target → target ≠ [] ∧ w.requests = [] ∧ w.replies = []

/-- At most one call is unanswered, and every call has a name. -/
structure Sequential (w : InfoState) : Prop where
  inv : InfoInv w
  outstanding : w.asked.length ≤ w.answered + 1
  named : ∀ name ∈ w.asked, name ≠ []

/-- Only a call asks, and nothing takes an answer back. -/
theorem asked_of_step {w w' : InfoState} {e : InfoEvent} (hs : infoStep w e = some w') :
    (∃ target, e = .ask target ∧ w'.asked = w.asked ++ [target] ∧ w'.answered = w.answered) ∨
      w'.asked = w.asked ∧ w.answered ≤ w'.answered := by
  cases e with
  | ask target =>
    obtain rfl := Option.some.inj hs
    exact .inl ⟨target, rfl, rfl, rfl⟩
  | serve t =>
    simp only [infoStep] at hs
    split at hs
    · cases hs
    · obtain rfl := Option.some.inj hs
      exact .inr ⟨rfl, le_rfl⟩
  | deliver =>
    simp only [infoStep] at hs
    split at hs
    · cases hs
    · obtain rfl := Option.some.inj hs
      exact .inr ⟨rfl, Nat.le_succ _⟩
  | other pkt =>
    simp only [infoStep] at hs
    split at hs
    · cases hs
    · obtain rfl := Option.some.inj hs
      exact .inr ⟨rfl, le_rfl⟩

theorem Sequential.step {w w' : InfoState} {e : InfoEvent} (h : Sequential w)
    (hone : OneAtATime w e) (hs : infoStep w e = some w') : Sequential w' := by
  rcases asked_of_step hs with ⟨target, rfl, hasked, hanswered⟩ | ⟨hasked, hanswered⟩
  · obtain ⟨hne, hrequests, hreplies⟩ := hone target rfl
    -- all calls before this one have been answered
    have hqueues := congrArg List.length h.inv.queues
    rw [hrequests, hreplies, List.length_drop] at hqueues
    simp only [List.map_nil, List.append_nil, List.length_nil] at hqueues
    refine ⟨h.inv.step hs, ?_, ?_⟩
    · rw [hasked, hanswered, List.length_append, List.length_singleton]
      omega
    · rw [hasked]
      exact List.forall_mem_append.mpr ⟨h.named, by simpa using hne⟩
  · have := h.outstanding
    exact ⟨h.inv.step hs, by rw [hasked]; omega, hasked ▸ h.named⟩

/-- The reply that arrives answers the last call. -/
theorem Sequential.answersLast {w : InfoState} (h : Sequential w) (e : InfoEvent) :
    AnswersLast w e := by
  intro _ r info harrives
  have hasked := h.inv.asked_eq harrives
  obtain ⟨hlt, hget⟩ := List.getElem?_eq_some_iff.mp hasked
  have hlast : w.lastAsked = r.request.target := by
    have hlen : w.asked.length - 1 = w.answered := by
      have := h.outstanding
      omega
    rw [InfoState.lastAsked, List.getLastD_eq_getLast?, List.getLast?_eq_getElem?, hlen, hasked]
    rfl
  have hne : r.request.target ≠ [] := h.named _ (hget ▸ List.getElem_mem hlt)
  rw [hasked, InfoState.shownName, hlast, if_neg hne]

/-- **Questions asked one at a time** are shown with their own answers. -/
theorem pairsTarget_of_oneAtATime {me : List Char} {tr : List (InfoState × InfoEvent)}
    {w : InfoState} (h : Run infoStep (.start me) tr w) (hone : StepsAll OneAtATime tr) :
    StepsAll PairsTarget tr := by
  have hstart : Sequential (.start me) :=
    ⟨infoInv_start me, Nat.zero_le _, fun _ hname => absurd hname List.not_mem_nil⟩
  have hall := h.statesAll_of_steps hstart (fun _ _ _ hi hc hs => hi.step hc hs) hone
  intro x hx
  have hx' := hall.2 x hx
  exact (hx'.inv.arrival_iff x.2).mpr (hx'.answersLast x.2)

end ChatSystem
