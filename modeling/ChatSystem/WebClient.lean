/-
ChatSystem/WebClient.lean

The web client as one system: a page of the browser and the bridge, with a
session for each WebSocket the page has opened.

    gestures ─▸ ┌──────┐ ──said i──▸ ┌──────────┐ ──written──▸
                │ page │             │ bridge i │              server
    screen   ◂─ └──────┘ ◂──sent───  └──────────┘ ◂─received──

What a side puts into a WebSocket comes out at the other in order; `given i` and
`shown i` count what has.  A WebSocket may break at any time, and then what is in
it is lost.  The servers behind the bridge may send anything.

The page closes its socket before it opens the next one, and a session may go on
while the page is in another one; so the sessions share the page and run side by
side.  From the moment the bridge closes a session the page's socket is closing, and
what the page asks for then is dropped.  `relayed_of_run` says that nevertheless each
server gets the `REGISTER` of the user of its own session and then the requests the
gestures ask for while the socket is open, in order, whole, and in that user's name,
and that no message comes to the bridge too early.  (An exception in a session stops
the whole bridge; here the other sessions need not go on, but may.)

The one thing that may cross sessions is the `LIST` that waits for its 200 ms;
`Timely` says that it finds its user still in the chat.
-/
import ChatSystem.Bridge
import ChatSystem.Page

namespace ChatSystem

open Js Lts

/-! ### The system -/

/-- What the page puts into a socket, before `JSON.stringify`. -/
inductive WebMessage
  | connect (host port : List Char)
  | request (r : Request)
deriving DecidableEq, Repr

def WebMessage.json : WebMessage → Json
  | connect host port => connectMessage host port
  | request r => requestMessage r

/-- What `JSON.parse` makes of it; nothing reads the length an object lacks. -/
def Outgoing.data : Outgoing → ParsedPacket
  | object obj => ⟨obj.command, 0, obj.sender, obj.target, obj.payload⟩
  | packet pkt => pkt

/-- `users` are those the sockets were opened for. -/
structure WebClient where
  hook : Hook
  users : List (List Char)
  said : ℕ → List WebMessage
  sessions : ℕ → Option Bridge
  given : ℕ → ℕ
  shown : ℕ → ℕ

/-- `page` is a gesture or a timer.  `accept` is the `connection` of the bridge,
`opened`, `closing`, `failed` and `closed` are events of the page's socket, and
`bridge` is one of the bridge's side; `toBridge` and `toPage` take a message out. -/
inductive WebEvent
  | page (e : PageEvent)
  | accept (i : ℕ)
  | opened (i : ℕ)
  | closing (i : ℕ)
  | failed (i : ℕ)
  | closed (i : ℕ)
  | toPage (i : ℕ)
  | toBridge (i : ℕ)
  | bridge (i : ℕ) (e : BridgeEvent)

namespace WebClient

def init : WebClient where
  hook := .init
  users := []
  said := fun _ => []
  sessions := fun _ => none
  given := fun _ => 0
  shown := fun _ => 0

/-- What a step of the page puts into socket `i`. -/
def put (h : Hook) (e : PageEvent) (h' : Hook) (i : ℕ) : List WebMessage :=
  (if e = .socket i .open then
    (h'.connects.drop h.connects.length).map fun (host, port) => .connect host port
  else []) ++
  if h.current = some i then (h'.chat.sent.drop h.chat.sent.length).map .request else []

/-- The user a socket is opened for. -/
def comes (h' : Hook) : PageEvent → List (List Char)
  | .gesture (.submit _ _ _) => [h'.chat.pendingUser]
  | _ => []

/-- A step of the page. -/
def turn (w : WebClient) (e : PageEvent) : Option WebClient :=
  (w.hook.pageStep e).map fun h' => { w with
    hook := h'
    users := w.users ++ comes h' e
    said := fun i => w.said i ++ put w.hook e h' i }

def step (node : NodeBuffer) (w : WebClient) : WebEvent → Option WebClient
  | .page (.socket _ _) => none
  | .page e => w.turn e
  | .accept i =>
    if i < w.hook.sockets.length ∧ (w.sessions i).isNone then
      some { w with sessions := Function.update w.sessions i (some .init) }
    else none
  | .opened i => if (w.sessions i).isSome then w.turn (.socket i .open) else none
  | .closing i => w.turn (.socket i .closing)
  | .failed i => w.turn (.socket i .error)
  | .closed i => w.turn (.socket i .close)
  | .toPage i =>
    (w.sessions i).bind fun b => (b.sent[w.shown i]?).bind fun s =>
      (w.turn (.socket i (.message (some s.data)))).map fun w' =>
        { w' with shown := Function.update w.shown i (w.shown i + 1) }
  | .toBridge i =>
    (w.sessions i).bind fun b => ((w.said i)[w.given i]?).bind fun m =>
      (b.step node (.message (some m.json))).map fun b' => { w with
        sessions := Function.update w.sessions i (some b')
        given := Function.update w.given i (w.given i + 1) }
  | .bridge _ (.message _) => none
  | .bridge i e =>
    (w.sessions i).bind fun b => (b.step node e).map fun b' =>
      { w with sessions := Function.update w.sessions i (some b') }

/-- The event of the page in a step. -/
def heard (w : WebClient) : WebEvent → Option PageEvent
  | .page e => some e
  | .opened i => some (.socket i .open)
  | .closing i => some (.socket i .closing)
  | .failed i => some (.socket i .error)
  | .closed i => some (.socket i .close)
  | .toPage i => do
    let b ← w.sessions i
    let s ← b.sent[w.shown i]?
    return .socket i (.message (some s.data))
  | .accept _ | .toBridge _ | .bridge _ _ => none

/-- The delayed `LIST` finds its user still in the chat. -/
def Timely (w : WebClient) (e : WebEvent) : Prop :=
  ∀ user, e = .page (.delayedList user) → w.hook.isOpen = true →
    w.hook.chat.inChat = true ∧ w.hook.chat.username = user

/-- The rules of the system. -/
inductive Move (node : NodeBuffer) (w : WebClient) : WebEvent → WebClient → Prop
  | page {e h'} (he : ∀ i e', e ≠ .socket i e') (hs : w.hook.pageStep e = some h') :
      Move node w (.page e) { w with
        hook := h'
        users := w.users ++ comes h' e
        said := fun i => w.said i ++ put w.hook e h' i }
  | accept {i} (hi : i < w.hook.sockets.length) (hnone : w.sessions i = none) :
      Move node w (.accept i) { w with sessions := Function.update w.sessions i (some .init) }
  | socket {d i e h'} (hd : w.heard d = some (.socket i e)) (he : ∀ data, e ≠ .message data)
      (hs : w.hook.pageStep (.socket i e) = some h') :
      Move node w d { w with
        hook := h'
        users := w.users ++ []
        said := fun j => w.said j ++ put w.hook (.socket i e) h' j }
  | toPage {i b s h'} (hb : w.sessions i = some b) (hget : b.sent[w.shown i]? = some s)
      (hs : w.hook.pageStep (.socket i (.message (some s.data))) = some h') :
      Move node w (.toPage i) { w with
        hook := h'
        users := w.users ++ []
        said := fun j => w.said j ++ put w.hook (.socket i (.message (some s.data))) h' j
        shown := Function.update w.shown i (w.shown i + 1) }
  | toBridge {i b m b'} (hb : w.sessions i = some b) (hget : (w.said i)[w.given i]? = some m)
      (hs : b.step node (.message (some m.json)) = some b') :
      Move node w (.toBridge i) { w with
        sessions := Function.update w.sessions i (some b')
        given := Function.update w.given i (w.given i + 1) }
  | bridge {i b e b'} (he : ∀ msg, e ≠ .message msg) (hb : w.sessions i = some b)
      (hs : b.step node e = some b') :
      Move node w (.bridge i e) { w with sessions := Function.update w.sessions i (some b') }

variable {node : NodeBuffer} {w w' : WebClient} {d : WebEvent}

theorem move_of_step (h : w.step node d = some w') : w.Move node d w' := by
  cases d with
  | page e =>
    have hturn (he : ∀ i e', e ≠ .socket i e') (h : w.turn e = some w') :
        w.Move node (.page e) w' := by
      obtain ⟨h', hs, rfl⟩ := Option.map_eq_some_iff.mp h
      exact .page he hs
    cases e with
    | socket i e => cases h
    | gesture g => exact hturn (by simp) h
    | poll => exact hturn (by simp) h
    | delayedList user => exact hturn (by simp) h
  | accept i =>
    simp only [step] at h
    split at h
    case isTrue hi =>
      obtain rfl := Option.some.inj h
      exact .accept hi.1 (Option.isNone_iff_eq_none.mp hi.2)
    case isFalse => cases h
  | opened i =>
    simp only [step] at h
    split at h
    case isTrue =>
      obtain ⟨h', hs, rfl⟩ := Option.map_eq_some_iff.mp h
      exact .socket rfl (by simp) hs
    case isFalse => cases h
  | closing i | failed i | closed i =>
    obtain ⟨h', hs, rfl⟩ := Option.map_eq_some_iff.mp h
    exact .socket rfl (by simp) hs
  | toPage i =>
    obtain ⟨b, hb, h⟩ := Option.bind_eq_some_iff.mp h
    obtain ⟨s, hget, h⟩ := Option.bind_eq_some_iff.mp h
    obtain ⟨w₁, hturn, rfl⟩ := Option.map_eq_some_iff.mp h
    obtain ⟨h', hs, rfl⟩ := Option.map_eq_some_iff.mp hturn
    exact .toPage hb hget hs
  | toBridge i =>
    obtain ⟨b, hb, h⟩ := Option.bind_eq_some_iff.mp h
    obtain ⟨m, hget, h⟩ := Option.bind_eq_some_iff.mp h
    obtain ⟨b', hs, rfl⟩ := Option.map_eq_some_iff.mp h
    exact .toBridge hb hget hs
  | bridge i e =>
    have hgo (he : ∀ msg, e ≠ .message msg) (h : ((w.sessions i).bind fun b =>
        (b.step node e).map fun b' =>
          { w with sessions := Function.update w.sessions i (some b') }) = some w') :
        w.Move node (.bridge i e) w' := by
      obtain ⟨b, hb, h⟩ := Option.bind_eq_some_iff.mp h
      obtain ⟨b', hs, rfl⟩ := Option.map_eq_some_iff.mp h
      exact .bridge he hb hs
    cases e with
    | message msg => cases h
    | tcpConnect | tcpError | tcpData | tcpClose | wsClosing | wsClose => exact hgo (by simp) h

/-! ### What a step of the page does to the sockets -/

end WebClient

/-- Socket `i`, before and after a step of the page. -/
structure Socket.Later (e : PageEvent) (i : ℕ) (s s' : Socket) : Prop where
  host : s'.host = s.host
  port : s'.port = s.port
  closing : s.Closing → s'.Closing
  live : s'.readyState = .open → s.readyState = .open ∨ e = .socket i .open
  opened : s.opened = true → s'.opened = true
  early : s'.opened = true → s.opened = true ∨ e = .socket i .open

namespace Hook

/-- The delayed `LIST` finds its user still in the chat. -/
def Punctual (h : Hook) (e : PageEvent) : Prop :=
  ∀ user, e = .delayedList user → h.isOpen = true →
    h.chat.inChat = true ∧ h.chat.username = user

theorem punctual_socket (h : Hook) (i : ℕ) (e : SocketEvent) : h.Punctual (.socket i e) :=
  fun user he => by cases he

section Sockets

variable {h h' : Hook} {e : PageEvent} {i : ℕ} {s : Socket}

theorem later_close (e : PageEvent) (i : ℕ) (s : Socket) : s.Later e i s.close := by
  unfold Socket.close
  split
  · exact ⟨rfl, rfl, fun _ => .inl rfl, (fun h => by cases h), id, .inl⟩
  · exact ⟨rfl, rfl, fun _ => .inl rfl, (fun h => by cases h), id, .inl⟩
  · exact ⟨rfl, rfl, id, .inl, id, .inl⟩
  · exact ⟨rfl, rfl, id, .inl, id, .inl⟩

theorem later_after (i : ℕ) (e : SocketEvent) (s : Socket) :
    s.Later (.socket i e) i (e.after s) := by
  cases e with
  | «open» =>
    exact ⟨rfl, rfl, fun hc => hc.after .open, fun _ => .inr rfl, fun _ => rfl, fun _ => .inr rfl⟩
  | message | error => exact ⟨rfl, rfl, id, .inl, id, .inl⟩
  | closing => exact ⟨rfl, rfl, fun _ => .inl rfl, (fun h => by cases h), id, .inl⟩
  | close => exact ⟨rfl, rfl, fun _ => .inr rfl, (fun h => by cases h), id, .inl⟩

/-- `ws.current?.close()` and the other sockets. -/
theorem socket_closeCurrent (e : PageEvent) (hget : h.sockets[i]? = some s) :
    ∃ s', h.closeCurrent.sockets[i]? = some s' ∧ s.Later e i s' ∧
      (h.current = some i → s'.Closing) := by
  unfold closeCurrent
  split
  · case h_1 hnone =>
    refine ⟨s, hget, ⟨rfl, rfl, id, .inl, id, .inl⟩, fun hcurrent => ?_⟩
    rw [hnone] at hcurrent
    cases hcurrent
  · case h_2 j hj =>
    by_cases hij : j = i
    · subst hij
      exact ⟨s.close, by simp [hget], later_close e j s, fun _ => s.closing_close⟩
    · refine ⟨s, by simp [hget, hij], ⟨rfl, rfl, id, .inl, id, .inl⟩, fun hcurrent => ?_⟩
      rw [hj] at hcurrent
      exact absurd (Option.some.inj hcurrent) hij

theorem sockets_closeCurrent {h₁ : Hook} (hsockets : h₁.sockets = h.sockets)
    (hcurrent : h₁.current = h.current) : h₁.closeCurrent.sockets = h.closeCurrent.sockets := by
  unfold closeCurrent
  rw [hcurrent]
  split
  · exact hsockets
  · rw [hsockets]

/-- A handler may close the current socket, and touches no other. -/
theorem handler_sockets (h : Hook) (socket : Socket) (e : SocketEvent) :
    (h.handler socket e).current = h.current ∧
      ((h.handler socket e).sockets = h.sockets ∨
        (h.handler socket e).sockets = h.closeCurrent.sockets) := by
  cases e with
  | «open» =>
    change (h.onopen socket).current = _ ∧ ((h.onopen socket).sockets = _ ∨ _)
    unfold onopen
    dsimp only
    split <;> exact ⟨rfl, .inl rfl⟩
  | message data =>
    rcases data with - | pkt
    · exact ⟨rfl, .inl rfl⟩
    · change (h.onPacket pkt).current = _ ∧ ((h.onPacket pkt).sockets = _ ∨
        (h.onPacket pkt).sockets = _)
      rw [onPacket_eq]
      split
      · exact ⟨rfl, .inl rfl⟩
      split
      · exact ⟨(closeCurrent_frame _).2.2.1, .inr (sockets_closeCurrent rfl rfl)⟩
      · exact ⟨rfl, .inl rfl⟩
  | closing | error => exact ⟨rfl, .inl rfl⟩
  | close =>
    change h.onclose.current = _ ∧ (h.onclose.sockets = _ ∨ _)
    unfold onclose
    dsimp only
    split <;> exact ⟨rfl, .inl rfl⟩

theorem later_refl (e : PageEvent) (i : ℕ) (s : Socket) : s.Later e i s :=
  ⟨rfl, rfl, id, .inl, id, .inl⟩

theorem later_trans {s₁ s₂ s₃ : Socket} (h : s₁.Later e i s₂) (h' : s₂.Later e i s₃) :
    s₁.Later e i s₃ where
  host := h'.host.trans h.host
  port := h'.port.trans h.port
  closing := h'.closing ∘ h.closing
  live := fun hopen => (h'.live hopen).elim h.live .inr
  opened := h'.opened ∘ h.opened
  early := fun hopened => (h'.early hopened).elim h.early .inr

theorem sockets_logout (h : Hook) :
    h.logout.sockets = h.closeCurrent.sockets ∧ h.logout.current = h.current := by
  rw [logout_eq]
  constructor
  · show h.leaving.closeCurrent.sockets = _
    exact sockets_closeCurrent (by rw [leaving_eq]) (by rw [leaving_eq])
  · show h.leaving.closeCurrent.current = _
    rw [(closeCurrent_frame _).2.2.1, leaving_eq]

/-- **The sockets a step of the page finds** stay what they are, or end. -/
theorem PageMove.later (hm : h.PageMove e h') (hget : h.sockets[i]? = some s) :
    ∃ s', h'.sockets[i]? = some s' ∧ s.Later e i s' := by
  cases hm with
  | @connect user host port u t p hlogin hform =>
    obtain ⟨s', hs', hlater, -⟩ :=
      socket_closeCurrent (.gesture (.submit user host port)) hget
    refine ⟨s', ?_, hlater⟩
    show (h.closeCurrent.sockets ++ [Socket.new t p])[i]? = some s'
    rw [List.getElem?_append_left (List.getElem?_eq_some_iff.mp hs').1, hs']
  | logout hchat =>
    obtain ⟨s', hs', hlater, -⟩ := socket_closeCurrent (.gesture .logout) hget
    exact ⟨s', by rw [(sockets_logout h).1, hs'], hlater⟩
  | ask _ _ hasked =>
    exact ⟨s, by rw [show h'.sockets = h.sockets from congrArg Prod.fst hasked.core, hget],
      later_refl e i s⟩
  | @socket j e socket hgot hpossible =>
    obtain ⟨-, hsockets⟩ := handler_sockets { h with sockets := h.sockets.set j (e.after socket) }
      (e.after socket) e
    -- the event moves its own socket on
    obtain ⟨s₁, hs₁, hlater⟩ : ∃ s₁, (h.sockets.set j (e.after socket))[i]? = some s₁ ∧
        s.Later (.socket j e) i s₁ := by
      by_cases hij : j = i
      · subst hij
        obtain rfl : socket = s := Option.some.inj (hgot.symm.trans hget)
        obtain ⟨hlt, -⟩ := List.getElem?_eq_some_iff.mp hget
        exact ⟨e.after socket, by simp [hlt], later_after j e socket⟩
      · exact ⟨s, by rw [List.getElem?_set_ne hij, hget], later_refl _ i s⟩
    rcases hsockets with hsockets | hsockets
    · exact ⟨s₁, by rw [hsockets, hs₁], hlater⟩
    · obtain ⟨s₂, hs₂, hlater', -⟩ := socket_closeCurrent (.socket j e) (i := i) (s := s₁)
        (h := { h with sockets := h.sockets.set j (e.after socket) }) hs₁
      exact ⟨s₂, by rw [hsockets, hs₂], later_trans hlater hlater'⟩

/-- Only `connect` opens a socket. -/
theorem PageMove.current_cases (hm : h.PageMove e h') :
    h'.sockets.length = h.sockets.length ∧ h'.current = h.current ∧
        (∀ user host port, e ≠ .gesture (.submit user host port)) ∨
      ∃ user host port u t p, e = .gesture (.submit user host port) ∧
        h.chat.inChat = false ∧ h'.chat.inChat = false ∧ h'.current = some h.sockets.length ∧
        h'.sockets.length = h.sockets.length + 1 ∧
        h'.sockets[h.sockets.length]? = some (Socket.new t p) ∧ h'.chat.pendingUser = u := by
  have hlength := (closeCurrent_frame h).1
  cases hm with
  | @connect user host port u t p hlogin hform =>
    refine .inr ⟨user, host, port, u, t, p, rfl, hlogin, ?_, ?_, ?_, ?_, rfl⟩
    · show h.closeCurrent.chat.inChat = false
      rw [(closeCurrent_frame h).2.1]
      exact hlogin
    · show some h.closeCurrent.sockets.length = _
      rw [hlength]
    · show (h.closeCurrent.sockets ++ [Socket.new t p]).length = _
      rw [List.length_append, hlength]
      rfl
    · show (h.closeCurrent.sockets ++ [Socket.new t p])[h.sockets.length]? = _
      rw [← hlength, List.getElem?_concat_length]
  | logout hchat =>
    obtain ⟨hsockets, hcurrent⟩ := sockets_logout h
    exact .inl ⟨by rw [hsockets, hlength], hcurrent, by simp⟩
  | ask hcall _ hasked =>
    refine .inl ⟨congrArg (·.1.length) hasked.core, congrArg (·.2.1) hasked.core, ?_⟩
    rintro user host port rfl
    exact hcall
  | @socket j e socket hgot hpossible =>
    obtain ⟨hcurrent, hsockets⟩ :=
      handler_sockets { h with sockets := h.sockets.set j (e.after socket) } (e.after socket) e
    refine .inl ⟨?_, hcurrent, by simp⟩
    rcases hsockets with hsockets | hsockets <;> rw [hsockets]
    · exact List.length_set
    · rw [(closeCurrent_frame _).1]
      exact List.length_set

/-- What goes into a socket when it opens. -/
theorem PageMove.connects (hm : h.PageMove e h') :
    h'.connects = h.connects ∧ (∀ i, e ≠ .socket i .open) ∨
      ∃ i socket, e = .socket i .open ∧ h.sockets[i]? = some socket ∧ socket.opened = false ∧
        h'.connects = h.connects ++
          if (SocketEvent.open.after socket).readyState = .open then [(socket.host, socket.port)]
          else [] := by
  cases hm with
  | connect hlogin hform => exact .inl ⟨(closeCurrent_frame h).2.2.2.2.2.2, by simp⟩
  | logout hchat =>
    refine .inl ⟨?_, by simp⟩
    show h.leaving.closeCurrent.connects = _
    rw [(closeCurrent_frame _).2.2.2.2.2.2, leaving_eq]
  | ask hcall _ hasked =>
    refine .inl ⟨hasked.connects, ?_⟩
    rintro i rfl
    exact hcall
  | @socket j e socket hgot hpossible =>
    cases e with
    | «open» =>
      simp only [SocketEvent.possible, Bool.and_eq_true, Bool.not_eq_true'] at hpossible
      refine .inr ⟨j, socket, rfl, hgot, hpossible.1, ?_⟩
      change (Hook.onopen _ _).connects = _
      unfold onopen
      dsimp only
      split
      · rfl
      · exact (List.append_nil _).symm
    | message data =>
      refine .inl ⟨?_, by simp⟩
      rcases data with - | pkt
      · rfl
      · change (Hook.onPacket _ pkt).connects = _
        rw [onPacket_eq]
        split
        · rfl
        split
        · exact (closeCurrent_frame _).2.2.2.2.2.2
        · rfl
    | closing | error => exact .inl ⟨rfl, by simp⟩
    | close =>
      refine .inl ⟨?_, by simp⟩
      change (Hook.onclose _).connects = _
      unfold onclose
      dsimp only
      split <;> rfl

/-- Only `connect` changes the user that is to come in, and only a message of the
server lets him in. -/
theorem PageMove.user (hm : h.PageMove e h')
    (he : ∀ user host port, e ≠ .gesture (.submit user host port)) :
    h'.chat.pendingUser = h.chat.pendingUser ∧
      (h'.chat.inChat = true → h.chat.inChat = true ∨
        ∃ i pkt, e = .socket i (.message (some pkt))) := by
  cases hm with
  | connect => exact absurd rfl (he _ _ _)
  | logout hchat =>
    refine ⟨?_, fun hin => by cases hin⟩
    show h.leaving.closeCurrent.chat.pendingUser = _
    rw [(closeCurrent_frame _).2.1, leaving_eq]
  | ask _ _ hasked =>
    have huser : h'.chat.user = h.chat.user := congrArg (·.2.2.1) hasked.core
    simp only [Chat.user, Prod.mk.injEq] at huser
    exact ⟨huser.2.2.2, fun hin => .inl (huser.1 ▸ hin)⟩
  | @socket i e socket hget hpossible =>
    cases e with
    | «open» =>
      change (Hook.onopen _ _).chat.pendingUser = _ ∧ ((Hook.onopen _ _).chat.inChat = true → _)
      unfold onopen
      dsimp only
      split <;> exact ⟨rfl, .inl⟩
    | message data =>
      rcases data with - | pkt
      · exact ⟨rfl, .inl⟩
      · refine ⟨?_, fun _ => .inr ⟨i, pkt, rfl⟩⟩
        change (Hook.onPacket _ pkt).chat.pendingUser = _
        rw [onPacket_eq]
        split
        case isTrue hwelcome =>
          show (handlePacket h.chat pkt).pendingUser = _
          rw [handlePacket_welcome h.chat hwelcome]
        case isFalse hwelcome =>
          have huser := user_handlePacket (s := h.chat) hwelcome
          simp only [Chat.user, Prod.mk.injEq] at huser
          split
          · rw [(closeCurrent_frame _).2.1]
            exact huser.2.2.2
          · exact huser.2.2.2
    | closing | error => exact ⟨rfl, .inl⟩
    | close =>
      change (Hook.onclose _).chat.pendingUser = _ ∧ ((Hook.onclose _).chat.inChat = true → _)
      unfold onclose
      dsimp only
      split
      · exact ⟨rfl, fun hin => by cases hin⟩
      · exact ⟨rfl, .inl⟩

end Sockets

end Hook

/-! ### The invariant -/

/-- The requests among the messages. -/
def asksOf (ms : List WebMessage) : List Request :=
  ms.filterMap fun
    | .connect _ _ => none
    | .request r => some r

@[simp] theorem asksOf_append (ms ms' : List WebMessage) :
    asksOf (ms ++ ms') = asksOf ms ++ asksOf ms' := List.filterMap_append

@[simp] theorem asksOf_requests (rs : List Request) : asksOf (rs.map .request) = rs := by
  rw [asksOf, List.filterMap_map]
  exact List.filterMap_some

namespace WebClient

/-- What went into socket `i` so far, opened for `user`. -/
structure Line (w : WebClient) (i : ℕ) (s : Socket) (user : List Char) : Prop where
  said : w.said i = [] ∨
    w.said i = .connect s.host s.port :: (asksOf (w.said i)).map .request
  early : s.opened = false → w.said i = [] ∧ w.shown i = 0
  live : s.readyState = .open → w.said i ≠ []
  ready : s.readyState = .open → 1 ≤ w.shown i → asksOf (w.said i) ≠ []
  up : asksOf (w.said i) ≠ [] → ∃ b, w.sessions i = some b ∧ b.tcpConnected = true
  register : ∀ r, (asksOf (w.said i)).head? = some r → r = webRegister user
  named : ∀ r ∈ asksOf (w.said i), r.sender = user
  last : ∀ r ∈ (asksOf (w.said i)).dropLast, r.command ≠ cmdLogout
  left : ∀ r ∈ asksOf (w.said i), r.command = cmdLogout → s.Closing

/-- The messages of socket `i` the bridge has been given behind the first. -/
def later (w : WebClient) (i : ℕ) : List (Option Json) :=
  (((w.said i).take (w.given i)).tail).map fun m => some m.json

/-- What session `i` of the bridge has made of them. -/
structure Fed (node : NodeBuffer) (w : WebClient) (i : ℕ) (b : Bridge) : Prop where
  ok : b.Ok node
  shown : w.shown i ≤ b.sent.length
  given : w.given i ≤ (w.said i).length
  first : b.first = true ↔ w.given i = 0
  asked : b.asked <+: w.later i
  all : b.tcp = .connected → b.asked = w.later i

structure Served (node : NodeBuffer) (w : WebClient) : Prop where
  page : w.hook.Paged
  users : w.users.length = w.hook.sockets.length
  pending : ∀ i, w.hook.current = some i → w.users[i]? = some w.hook.chat.pendingUser
  line : ∀ i s user, w.hook.sockets[i]? = some s → w.users[i]? = some user → w.Line i s user
  fed : ∀ i b, w.sessions i = some b → w.Fed node i b
  idle : ∀ i, w.sessions i = none → w.shown i = 0 ∧ w.given i = 0
  unborn : ∀ i, w.hook.sockets.length ≤ i → w.said i = [] ∧ w.sessions i = none
  chat : w.hook.chat.inChat = true → ∃ i, w.hook.current = some i ∧ 1 ≤ w.shown i

theorem served_init (node : NodeBuffer) : init.Served node where
  page := Hook.paged_init
  users := rfl
  pending := fun i h => by cases h
  line := fun i s user h => by cases h
  fed := fun i b h => by cases h
  idle := fun i _ => ⟨rfl, rfl⟩
  unborn := fun i _ => ⟨rfl, rfl⟩
  chat := fun h => by cases h

/-! ### What a step of the page says -/

section Turns

variable {h h' : Hook} {e : PageEvent} {i : ℕ}

theorem put_of_ne (hp : h.Paged) (hs : h.pageStep e = some h') (he : e ≠ .socket i .open) :
    put h e h' i = if h.current = some i then (h.request e).toList.map .request else [] := by
  unfold put
  rw [if_neg he, hp.sendsRequest h' hs, List.drop_left, List.nil_append]

theorem put_open (hp : h.Paged) (hs : h.pageStep (.socket i .open) = some h') :
    ∃ socket, h.sockets[i]? = some socket ∧ socket.opened = false ∧
      h'.sockets[i]? = some (SocketEvent.open.after socket) ∧
      put h (.socket i .open) h' i =
        if (SocketEvent.open.after socket).readyState = .open then
          [.connect socket.host socket.port] else [] := by
  have hm := hp.move_of_step hs
  rcases hm.connects with ⟨-, hno⟩ | ⟨j, socket, heq, hget, hopened, hconnects⟩
  · exact absurd rfl (hno i)
  · obtain ⟨rfl, -⟩ := PageEvent.socket.inj heq
    refine ⟨socket, hget, hopened, ?_, ?_⟩
    · cases hm with
      | ask hcall => cases hcall
      | @socket _ _ socket' hget' _ =>
        obtain rfl : socket = socket' := Option.some.inj (hget.symm.trans hget')
        obtain ⟨hlt, -⟩ := List.getElem?_eq_some_iff.mp hget
        change (Hook.onopen _ _).sockets[i]? = _
        unfold Hook.onopen
        dsimp only
        split <;> simp [Hook.setWsStatus, hlt]
    unfold put
    rw [if_pos rfl, hconnects, List.drop_left, hp.sendsRequest h' hs, List.drop_left]
    have hnone : h.request (.socket i .open) = none := Hook.request_of_wants_none rfl
    rw [hnone]
    split <;> simp

/-- The request of an ordinary gesture is in the name on the screen, and is no
`LOGOUT`. -/
theorem wants_of_isAsk (hcall : e.IsAsk) (hdelayed : ∀ user, e ≠ .delayedList user)
    {r : Request} (hr : h.wants e = some r) :
    r.sender = h.chat.username ∧ r.command ≠ cmdLogout := by
  cases e with
  | socket j e => cases hcall
  | delayedList user => exact absurd rfl (hdelayed user)
  | poll =>
    obtain rfl := Option.some.inj hr
    exact ⟨rfl, by simp only [listUsers]; decide⟩
  | gesture g =>
    cases g with
    | submit user host port => cases hcall
    | logout => cases hcall
    | send input =>
      simp only [Hook.wants] at hr
      split at hr
      · cases hr
      split at hr
      · obtain rfl := Option.some.inj hr
        exact ⟨rfl, by simp only [sendBroadcast]; decide⟩
      · obtain rfl := Option.some.inj hr
        exact ⟨rfl, by simp only [sendDirect]; decide⟩
    | status status =>
      obtain rfl := Option.some.inj hr
      exact ⟨rfl, by simp only [changeStatus]; decide⟩
    | refresh =>
      obtain rfl := Option.some.inj hr
      exact ⟨rfl, by simp only [listUsers]; decide⟩
    | info name =>
      obtain rfl := Option.some.inj hr
      exact ⟨rfl, by simp only [getInfo]; decide⟩
    | closeInfo => cases hr
    | chat name => cases hr

/-- What a request says, on the socket it goes into. -/
structure Says (rs : List Request) (user : List Char) (s' : Socket) (r : Request) : Prop where
  named : r.sender = user
  register : rs ≠ [] ∨ r = webRegister user
  left : r.command = cmdLogout → s'.Closing

theorem asksOf_toList (o : Option Request) :
    asksOf (o.toList.map WebMessage.request) = o.toList := asksOf_requests _

end Turns

/-- A socket that says one more thing, or nothing. -/
theorem Line.more {w w' : WebClient} {i : ℕ} {e : PageEvent} {s s' : Socket} {user : List Char}
    (h : w.Line i s user) (hlater : s.Later e i s') (he : e ≠ .socket i .open)
    {o : Option Request} (hsaid : w'.said i = w.said i ++ o.toList.map .request)
    (hopen : o ≠ none → s.readyState = .open)
    (hspeaks : ∀ r, o = some r → Says (asksOf (w.said i)) user s' r)
    (hshown : s'.opened = false → w'.shown i = 0)
    (hready : s'.readyState = .open → 1 ≤ w'.shown i → asksOf (w.said i) ≠ [] ∨ o ≠ none)
    (hup : asksOf (w.said i) ≠ [] ∨ o ≠ none →
      ∃ b, w'.sessions i = some b ∧ b.tcpConnected = true) : w'.Line i s' user := by
  have hasks : asksOf (w'.said i) = asksOf (w.said i) ++ o.toList := by
    rw [hsaid, asksOf_append, asksOf_toList]
  have hne : asksOf (w'.said i) ≠ [] ↔ asksOf (w.said i) ≠ [] ∨ o ≠ none := by
    rw [hasks]
    rcases o with - | r <;> simp
  have hlive : s'.readyState = .open → s.readyState = .open := fun hopen' =>
    (hlater.live hopen').resolve_right he
  constructor
  · -- a request goes into an open socket only
    rcases o with - | r
    · have hsame : w'.said i = w.said i := by simpa using hsaid
      rw [hsame, hlater.host, hlater.port]
      exact h.said
    · rcases h.said with hempty | hsome
      · exact absurd hempty (h.live (hopen (by simp)))
      · right
        rw [hsaid, hlater.host, hlater.port, asksOf_append, asksOf_toList]
        nth_rewrite 1 [hsome]
        simp
  · intro hopened
    have hopened' : s.opened = false := by
      by_contra hno
      rw [hlater.opened (by simpa using hno)] at hopened
      cases hopened
    have hnone : o = none := by
      by_contra hne'
      exact h.live (hopen hne') (h.early hopened').1
    refine ⟨?_, hshown hopened⟩
    rw [hsaid, hnone, (h.early hopened').1]
    rfl
  · intro hopen'
    rw [hsaid]
    simp [h.live (hlive hopen')]
  · exact fun hopen' hshown' => hne.mpr (hready hopen' hshown')
  · exact fun hsome => hup (hne.mp hsome)
  · intro r hr
    rw [hasks, List.head?_append] at hr
    rcases hhead : (asksOf (w.said i)).head? with - | r'
    · rw [hhead] at hr
      rcases o with - | r'
      · cases hr
      · obtain rfl : r' = r := Option.some.inj hr
        have hempty : asksOf (w.said i) = [] := List.head?_eq_none_iff.mp hhead
        exact ((hspeaks r' rfl).register).resolve_left fun hne' => hne' hempty
    · rw [hhead] at hr
      obtain rfl : r' = r := Option.some.inj hr
      exact h.register r' hhead
  · intro r hr
    rw [hasks] at hr
    rcases List.mem_append.mp hr with hr | hr
    · exact h.named r hr
    · exact (hspeaks r (Option.mem_toList.mp hr)).named
  · intro r hr
    rw [hasks] at hr
    rcases o with - | r'
    · exact h.last r (by simpa using hr)
    · -- what came before was no `LOGOUT`, or the socket would be closing
      have hr : r ∈ asksOf (w.said i) := by simpa using hr
      intro hlogout
      have hstate := hopen (by simp)
      exact (h.left r hr hlogout).not_open hstate
  · intro r hr hlogout
    rw [hasks] at hr
    rcases List.mem_append.mp hr with hr | hr
    · exact hlater.closing (h.left r hr hlogout)
    · exact (hspeaks r (Option.mem_toList.mp hr)).left hlogout

/-- A socket on which nothing has been asked yet. -/
theorem Line.starts {w : WebClient} {i : ℕ} {s : Socket} {user : List Char}
    (hsaid : w.said i = [] ∧ s.readyState ≠ .open ∨
      w.said i = [.connect s.host s.port] ∧ s.opened = true)
    (hshown : w.shown i = 0) : w.Line i s user := by
  have hasks : asksOf (w.said i) = [] := by
    rcases hsaid with ⟨hsaid, -⟩ | ⟨hsaid, -⟩ <;> rw [hsaid] <;> rfl
  have hnone (r : Request) : r ∉ asksOf (w.said i) := by
    rw [hasks]
    exact List.not_mem_nil
  constructor
  · rw [hasks]
    exact hsaid.imp And.left And.left
  · intro hopened
    rcases hsaid with ⟨hsaid, -⟩ | ⟨-, hopened'⟩
    · exact ⟨hsaid, hshown⟩
    · rw [hopened] at hopened'
      cases hopened'
  · intro hopen
    rcases hsaid with ⟨-, hno⟩ | ⟨hsaid, -⟩
    · exact absurd hopen hno
    · rw [hsaid]
      simp
  · intro _ hpos
    rw [hshown] at hpos
    omega
  · exact fun hne => absurd hasks hne
  · intro r hr
    rw [hasks] at hr
    cases hr
  · exact fun r hr => absurd hr (hnone r)
  · exact fun r hr => absurd (List.mem_of_mem_dropLast hr) (hnone r)
  · exact fun r hr => absurd hr (hnone r)

/-- What a session sends first. -/
theorem first_sent {node : NodeBuffer} {b : Bridge} (hb : b.Ok node) {o : Outgoing}
    (ho : b.sent[0]? = some o) : o = Bridge.tcpOk ∧ b.tcpConnected = true ∨ Bridge.IsError o := by
  obtain ⟨shown, errors, hsent, hshown, -, herrors⟩ := hb.sent
  rw [hsent] at ho
  rcases shown with - | ⟨o', shown⟩
  · exact .inr (herrors o (List.mem_of_getElem? ho))
  · obtain rfl : o' = o := Option.some.inj ho
    left
    have hup : b.tcpConnected = true := by
      by_contra hno
      have hno : b.tcpConnected = false := by simpa using hno
      have hreceived := (hb.unconnected hno).2
      rw [Bridge.due, hno, hreceived, Blocks.blocks_of_lt (by decide)] at hshown
      exact List.cons_ne_nil _ _ (List.prefix_nil.mp hshown)
    refine ⟨?_, hup⟩
    rw [Bridge.due, hup, if_pos rfl, List.singleton_append] at hshown
    exact (List.cons_prefix_cons.mp hshown).1

section Requests

variable {h h' : Hook} {e : PageEvent}

/-- Who is in the chat, or registers, speaks as the pending user. -/
theorem says_of_move (hp : h.Paged) (hm : h.PageMove e h')
    (htimely : h.Punctual e) {r : Request} (hr : h.request e = some r) :
    r.sender = h.chat.pendingUser ∧ (h.chat.inChat = true ∨ r = webRegister h.chat.pendingUser ∧
        ∃ i pkt, e = .socket i (.message (some pkt)) ∧ pkt.Ready) ∧
      (r.command = cmdLogout → e = .gesture .logout) := by
  have hname (hchat : h.chat.inChat = true) : h.chat.username = h.chat.pendingUser :=
    hp.username.trans (hp.pending hchat)
  obtain ⟨hopen, hr⟩ := Hook.request_eq_some.mp hr
  cases hm with
  | connect => cases hr
  | logout hchat =>
    obtain rfl := Option.some.inj hr
    exact ⟨hname hchat, .inl hchat, fun _ => rfl⟩
  | ask hcall hchat hasked =>
    by_cases hdelayed : ∃ user, e = .delayedList user
    · obtain ⟨user, rfl⟩ := hdelayed
      obtain ⟨hin, huser⟩ := htimely user rfl hopen
      obtain rfl := Option.some.inj hr
      refine ⟨huser.symm.trans (hname hin), .inl hin, fun hlogout => ?_⟩
      simp only [listUsers] at hlogout
      exact absurd hlogout (by decide)
    · obtain ⟨hsender, hlogout⟩ := wants_of_isAsk hcall (fun user he => hdelayed ⟨user, he⟩) hr
      have hin := hchat.resolve_right hdelayed
      exact ⟨hsender.trans (hname hin), .inl hin, fun hcmd => absurd hcmd hlogout⟩
  | @socket i e socket hget hpossible =>
    cases e with
    | message data =>
      rcases data with - | pkt
      · cases hr
      · simp only [Hook.wants] at hr
        split at hr
        · case isTrue hready =>
          obtain rfl := Option.some.inj hr
          refine ⟨rfl, .inr ⟨rfl, i, pkt, rfl, hready⟩, fun hlogout => ?_⟩
          simp only [webRegister] at hlogout
          exact absurd hlogout (by decide)
        · cases hr
    | «open» | closing | error | close => cases hr

/-- A message comes through the current socket, while it is open. -/
theorem current_of_message (hp : h.Paged) {i : ℕ} {data : Option ParsedPacket}
    (hm : h.PageMove (.socket i (.message data)) h') :
    h.current = some i ∧ ∃ s, h.sockets[i]? = some s ∧ s.readyState = .open := by
  cases hm with
  | ask hcall => cases hcall
  | @socket _ _ s hget hpossible =>
    obtain ⟨hcurrent, hstate⟩ := hp.current_of_possible hget hpossible
    exact ⟨hcurrent, s, hget, hstate⟩

theorem state_of_message (hp : h.Paged) {i : ℕ} {data : Option ParsedPacket}
    (hm : h.PageMove (.socket i (.message data)) h') {s : Socket} (hget : h.sockets[i]? = some s) :
    h.current = some i ∧ s.readyState = .open := by
  obtain ⟨hcurrent, s', hget', hstate⟩ := current_of_message hp hm
  obtain rfl : s' = s := Option.some.inj (hget'.symm.trans hget)
  exact ⟨hcurrent, hstate⟩

theorem tcpOk_ready : Bridge.tcpOk.data.Ready := ⟨rfl, rfl⟩

theorem command_of_isError {o : Outgoing} (ho : Bridge.IsError o) : o.data.command = cmdError := by
  obtain ⟨text, rfl⟩ := ho
  rfl

/-- Leaving the chat ends its socket. -/
theorem closing_of_logout (hp : h.Paged) (hm : h.PageMove (.gesture .logout) h') {i : ℕ}
    (hcurrent : h.current = some i) {s' : Socket} (hget : h'.sockets[i]? = some s') :
    s'.Closing := by
  cases hm with
  | logout hchat =>
    obtain ⟨socket, hsocket⟩ : ∃ socket, h.sockets[i]? = some socket := by
      obtain ⟨j, socket, hj, hsocket, -⟩ := hp.live hchat
      obtain rfl : j = i := Option.some.inj (hj.symm.trans hcurrent)
      exact ⟨socket, hsocket⟩
    obtain ⟨s₁, hs₁, -, hclosing⟩ := Hook.socket_closeCurrent (.gesture .logout) hsocket
    rw [(Hook.sockets_logout h).1, hs₁] at hget
    obtain rfl := Option.some.inj hget
    exact hclosing hcurrent
  | ask hcall => cases hcall

/-- A refused user's socket is closed. -/
theorem closing_of_refused (hp : h.Paged) (hlogin : h.chat.inChat = false) {i : ℕ}
    {pkt : ParsedPacket} (herror : pkt.command = cmdError)
    (hm : h.PageMove (.socket i (.message (some pkt))) h') {s' : Socket}
    (hget : h'.sockets[i]? = some s') : s'.Closing := by
  have hempty : h.chat.usernameRef = [] := by
    by_contra hne
    rw [hp.loggedIn.mpr hne] at hlogin
    cases hlogin
  have hwelcome : ¬ pkt.Welcomes := fun hw => by
    rw [ParsedPacket.Welcomes, herror] at hw
    exact absurd hw.1 (by decide)
  cases hm with
  | ask hcall => cases hcall
  | @socket _ _ socket hgot hpossible =>
    obtain ⟨hcurrent, -⟩ := hp.current_of_possible hgot hpossible
    obtain ⟨hlt, -⟩ := List.getElem?_eq_some_iff.mp hgot
    have hmoved : (h.sockets.set i socket)[i]? = some socket := by simp [hlt]
    obtain ⟨s₁, hs₁, -, hclosing⟩ := Hook.socket_closeCurrent
      (h := { h with sockets := h.sockets.set i socket })
      (.socket i (.message (some pkt))) hmoved
    change (Hook.onPacket { h with sockets := h.sockets.set i socket } pkt).sockets[i]? = _ at hget
    rw [Hook.onPacket_eq, if_neg hwelcome, if_pos ⟨herror, hempty⟩] at hget
    have hsame : ((({ h with
        sockets := h.sockets.set i socket
        chat := handlePacket h.chat pkt } : Hook).setWsStatus .disconnected).closeCurrent).sockets =
        ({ h with sockets := h.sockets.set i socket } : Hook).closeCurrent.sockets :=
      Hook.sockets_closeCurrent rfl rfl
    have hget : ({ h with sockets := h.sockets.set i socket } : Hook).closeCurrent.sockets[i]? =
        some s' := hsame ▸ hget
    rw [hs₁] at hget
    obtain rfl := Option.some.inj hget
    exact hclosing hcurrent

end Requests

section Turn

variable {node : NodeBuffer} {w : WebClient} {e : PageEvent} {h' : Hook} {shown' : ℕ → ℕ}

/-- The counter of the messages shown: it counts those the page is given. -/
structure Counts (w : WebClient) (e : PageEvent) (shown' : ℕ → ℕ) : Prop where
  quiet : (∀ i data, e ≠ .socket i (.message data)) → shown' = w.shown
  told : ∀ i data, e = .socket i (.message data) → ∃ b o, w.sessions i = some b ∧
    b.sent[w.shown i]? = some o ∧ data = some o.data ∧
      shown' = Function.update w.shown i (w.shown i + 1)

/-- A socket's own counter moves when it is given a message, and then by one. -/
theorem Counts.cases (hc : w.Counts e shown') (i : ℕ) : shown' i = w.shown i ∨
    ∃ b o, e = .socket i (.message (some o.data)) ∧ w.sessions i = some b ∧
      b.sent[w.shown i]? = some o ∧ shown' i = w.shown i + 1 := by
  by_cases htold : ∃ j data, e = .socket j (.message data)
  · obtain ⟨j, data, rfl⟩ := htold
    obtain ⟨b, o, hb, ho, rfl, hshown⟩ := hc.told j data rfl
    by_cases hij : i = j
    · subst hij
      exact .inr ⟨b, o, rfl, hb, ho, by rw [hshown, Function.update_self]⟩
    · exact .inl (by rw [hshown, Function.update_of_ne hij])
  · exact .inl (congrFun (hc.quiet fun i data he => htold ⟨i, data, he⟩) i)

/-- The request a step of the page puts into socket `i`. -/
def requestTo (w : WebClient) (i : ℕ) (e : PageEvent) : Option Request :=
  if w.hook.current = some i then w.hook.request e else none

theorem current_of_requestTo {i : ℕ} {r : Request} (hr : w.requestTo i e = some r) :
    w.hook.current = some i ∧ w.hook.isOpen = true ∧ w.hook.request e = some r := by
  unfold requestTo at hr
  split at hr
  · exact ⟨‹_›, (Hook.request_eq_some.mp hr).1, hr⟩
  · cases hr

/-- The system behind a step of the page. -/
def turned (w : WebClient) (e : PageEvent) (h' : Hook) (users : List (List Char))
    (shown' : ℕ → ℕ) : WebClient :=
  { w with
    hook := h'
    users := users
    said := fun i => w.said i ++ put w.hook e h' i
    shown := shown' }

theorem said_turned (hp : w.hook.Paged) (hs : w.hook.pageStep e = some h') {i : ℕ}
    (he : e ≠ .socket i .open) (users : List (List Char)) :
    (w.turned e h' users shown').said i =
      w.said i ++ (w.requestTo i e).toList.map .request := by
  show w.said i ++ put _ _ _ i = _
  rw [put_of_ne hp hs he, requestTo]
  split <;> rfl

section Lines

variable {i : ℕ} {s s' : Socket} {user : List Char}

/-- In the chat, over an open socket, the user has registered. -/
theorem Served.registered (h : w.Served node) (hline : w.Line i s user)
    (hcurrent : w.hook.current = some i) (hstate : s.readyState = .open)
    (hchat : w.hook.chat.inChat = true) : asksOf (w.said i) ≠ [] := by
  obtain ⟨j, hj, hpos⟩ := h.chat hchat
  obtain rfl : j = i := Option.some.inj (hj.symm.trans hcurrent)
  exact hline.ready hstate hpos

/-- Before the first message of a session nobody is in the chat. -/
theorem Served.login_of_unshown (h : w.Served node) (hcurrent : w.hook.current = some i)
    (hzero : w.shown i = 0) : w.hook.chat.inChat = false := by
  by_contra hchat
  obtain ⟨j, hj, hpos⟩ := h.chat (by simpa using hchat)
  obtain rfl : j = i := Option.some.inj (hj.symm.trans hcurrent)
  omega

/-- What a request says on its socket. -/
theorem Served.says_turn (h : w.Served node) (hm : w.hook.PageMove e h')
    (htimely : w.hook.Punctual e) (hget : w.hook.sockets[i]? = some s)
    (huser : w.users[i]? = some user) (hget' : h'.sockets[i]? = some s') {r : Request}
    (hr : w.requestTo i e = some r) : Says (asksOf (w.said i)) user s' r := by
  have hline := h.line i s user hget huser
  obtain ⟨hcurrent, hopen, hr⟩ := current_of_requestTo hr
  obtain ⟨hsender, hwhy, hlogout⟩ := says_of_move h.page hm htimely hr
  obtain rfl : user = w.hook.chat.pendingUser :=
    Option.some.inj (huser.symm.trans (h.pending i hcurrent))
  have hstate := Hook.readyState_of_open hcurrent hget hopen
  refine ⟨hsender, hwhy.imp (h.registered hline hcurrent hstate) And.left, fun hcmd => ?_⟩
  obtain rfl := hlogout hcmd
  exact closing_of_logout h.page hm hcurrent hget'

/-- Nothing comes through a socket that has not opened. -/
theorem Served.unshown_turn (h : w.Served node) (hm : w.hook.PageMove e h')
    (hc : w.Counts e shown') (hget : w.hook.sockets[i]? = some s)
    (huser : w.users[i]? = some user) (hopened : s.opened = false) : shown' i = 0 := by
  have hline := h.line i s user hget huser
  obtain ⟨hsaid, hshown⟩ := hline.early hopened
  rcases hc.cases i with hsame | ⟨b, o, rfl, -⟩
  · exact hsame.trans hshown
  · exact absurd hsaid (hline.live (state_of_message h.page hm hget).2)

/-- The first message of a session asks for the REGISTER, or ends it. -/
theorem Served.ready_turn (h : w.Served node) (hm : w.hook.PageMove e h')
    (hc : w.Counts e shown') (hget : w.hook.sockets[i]? = some s)
    (huser : w.users[i]? = some user) (hget' : h'.sockets[i]? = some s')
    (hstate : s.readyState = .open) (hstate' : s'.readyState = .open) (hpos : 1 ≤ shown' i) :
    asksOf (w.said i) ≠ [] ∨ w.requestTo i e ≠ none := by
  by_cases hbefore : 1 ≤ w.shown i
  · exact .inl ((h.line i s user hget huser).ready hstate hbefore)
  rcases hc.cases i with hsame | ⟨b, o, rfl, hb, ho, -⟩
  · exact absurd (hsame ▸ hpos) hbefore
  · have hzero : w.shown i = 0 := by omega
    rw [hzero] at ho
    have hcurrent := (state_of_message h.page hm hget).1
    rcases first_sent (h.fed i b hb).ok ho with ⟨rfl, -⟩ | herror
    · right
      rw [requestTo, if_pos hcurrent, Hook.request,
        if_pos (Hook.isOpen_iff.mpr ⟨i, s, hcurrent, hget, hstate⟩), Hook.wants,
        if_pos tcpOk_ready]
      simp
    · have hclosing := closing_of_refused h.page (h.login_of_unshown hcurrent hzero)
        (command_of_isError herror) hm hget'
      exact absurd hstate' hclosing.not_open

/-- The connection of a session is up when the first request goes into it. -/
theorem Served.up_turn (h : w.Served node) (hm : w.hook.PageMove e h') (hc : w.Counts e shown')
    (htimely : w.hook.Punctual e) (hget : w.hook.sockets[i]? = some s)
    (huser : w.users[i]? = some user)
    (hsome : asksOf (w.said i) ≠ [] ∨ w.requestTo i e ≠ none) :
    ∃ b, w.sessions i = some b ∧ b.tcpConnected = true := by
  have hline := h.line i s user hget huser
  by_cases hasks : asksOf (w.said i) = []
  swap
  · exact hline.up hasks
  obtain ⟨r, hr⟩ := Option.ne_none_iff_exists'.mp (hsome.resolve_left fun hne => hne hasks)
  obtain ⟨hcurrent, hopen, hr⟩ := current_of_requestTo hr
  have hstate := Hook.readyState_of_open hcurrent hget hopen
  obtain ⟨-, hchat | ⟨-, j, pkt, rfl, hready⟩, -⟩ := says_of_move h.page hm htimely hr
  · exact absurd hasks (h.registered hline hcurrent hstate hchat)
  · -- the bridge has said that it is up
    obtain ⟨b, o, hb, ho, hdata, -⟩ := hc.told j (some pkt) rfl
    obtain rfl : pkt = o.data := Option.some.inj hdata
    obtain rfl : j = i :=
      Option.some.inj ((current_of_message h.page hm).1.symm.trans hcurrent)
    have hzero : w.shown j = 0 := by
      by_contra hpos
      exact hline.ready hstate (by omega) hasks
    rw [hzero] at ho
    rcases first_sent (h.fed j b hb).ok ho with ⟨-, hup⟩ | herror
    · exact ⟨b, hb, hup⟩
    · rw [ParsedPacket.Ready, command_of_isError herror] at hready
      exact absurd hready.1 (by decide)

/-- A socket that opens. -/
theorem Served.line_open (h : w.Served node) (hs : w.hook.pageStep (.socket i .open) = some h')
    (hc : w.Counts (.socket i .open) shown') (hget : w.hook.sockets[i]? = some s)
    (huser : w.users[i]? = some user) (hget' : h'.sockets[i]? = some s')
    (users : List (List Char)) : (w.turned (.socket i .open) h' users shown').Line i s' user := by
  obtain ⟨s₁, hs₁, hopened, hafter, hput⟩ := put_open h.page hs
  obtain rfl : s₁ = s := Option.some.inj (hs₁.symm.trans hget)
  obtain rfl : SocketEvent.open.after s₁ = s' := Option.some.inj (hafter.symm.trans hget')
  obtain ⟨hsaid, hshown⟩ := (h.line i s₁ user hget huser).early hopened
  refine .starts ?_ ?_
  · show w.said i ++ put _ _ _ i = [] ∧ _ ∨ w.said i ++ put _ _ _ i = _ ∧ _
    rw [hput, hsaid]
    split
    · exact .inr ⟨rfl, rfl⟩
    · case isFalse hno => exact .inl ⟨rfl, hno⟩
  · show shown' i = 0
    rw [hc.quiet (by simp), hshown]

/-- The lines a step of the page finds. -/
theorem Served.line_turn (h : w.Served node) (hs : w.hook.pageStep e = some h')
    (hc : w.Counts e shown') (htimely : w.hook.Punctual e) (hget : w.hook.sockets[i]? = some s)
    (huser : w.users[i]? = some user) (hget' : h'.sockets[i]? = some s')
    (users : List (List Char)) : (w.turned e h' users shown').Line i s' user := by
  by_cases he : e = .socket i .open
  · subst he
    exact h.line_open hs hc hget huser hget' users
  have hm := h.page.move_of_step hs
  obtain ⟨s₁, hs₁, hlater⟩ := hm.later hget
  obtain rfl : s₁ = s' := Option.some.inj (hs₁.symm.trans hget')
  refine (h.line i s user hget huser).more hlater he (said_turned h.page hs he users)
    (fun hne => ?_) (fun r hr => h.says_turn hm htimely hget huser hget' hr) (fun hopened => ?_)
    (fun hopen hpos => ?_) (h.up_turn hm hc htimely hget huser)
  · obtain ⟨r, hr⟩ := Option.ne_none_iff_exists'.mp hne
    obtain ⟨hcurrent, hopen, -⟩ := current_of_requestTo hr
    exact Hook.readyState_of_open hcurrent hget hopen
  · refine h.unshown_turn hm hc hget huser ?_
    by_contra hno
    rw [hlater.opened (by simpa using hno)] at hopened
    cases hopened
  · exact h.ready_turn hm hc hget huser hget' ((hlater.live hopen).resolve_right he) hopen hpos

end Lines

/-- The user of a gesture that opens no socket. -/
theorem comes_of_ne (he : ∀ user host port, e ≠ .gesture (.submit user host port)) (h' : Hook) :
    comes h' e = [] := by
  unfold comes
  split
  · exact absurd rfl (he _ _ _)
  · rfl

/-- Nothing goes into a socket there is not. -/
theorem put_of_unborn (hp : w.hook.Paged) (hs : w.hook.pageStep e = some h') {i : ℕ}
    (hi : w.hook.sockets.length ≤ i) : put w.hook e h' i = [] := by
  have hnone : w.hook.sockets[i]? = none := List.getElem?_eq_none hi
  have he : e ≠ .socket i .open := by
    rintro rfl
    obtain ⟨socket, hget, -⟩ := put_open hp hs
    rw [hnone] at hget
    cases hget
  rw [put_of_ne hp hs he]
  split
  · case isTrue hcurrent =>
    rcases hr : w.hook.request e with - | r
    · rfl
    · obtain ⟨j, socket, hj, hget, -⟩ := Hook.isOpen_iff.mp (Hook.request_eq_some.mp hr).1
      obtain rfl : j = i := Option.some.inj (hj.symm.trans hcurrent)
      rw [hnone] at hget
      cases hget
  · rfl

/-- The sessions are told nothing by a step of the page. -/
theorem Served.fed_turn (h : w.Served node) (hc : w.Counts e shown') (users : List (List Char))
    (i : ℕ) (b : Bridge) (hb : w.sessions i = some b) :
    (w.turned e h' users shown').Fed node i b := by
  have hold := h.fed i b hb
  have hlater : (w.turned e h' users shown').later i = w.later i := by
    show (((w.said i ++ put w.hook e h' i).take (w.given i)).tail).map _ = _
    rw [List.take_append_of_le_length hold.given]
    rfl
  refine ⟨hold.ok, ?_, ?_, hold.first, ?_, fun htcp => ?_⟩
  · show shown' i ≤ _
    rcases hc.cases i with hsame | ⟨b', o, -, hb', ho, hnext⟩
    · rw [hsame]
      exact hold.shown
    · obtain rfl : b' = b := Option.some.inj (hb'.symm.trans hb)
      rw [hnext]
      exact (List.getElem?_eq_some_iff.mp ho).1
  · show _ ≤ (w.said i ++ put w.hook e h' i).length
    rw [List.length_append]
    exact hold.given.trans (Nat.le_add_right _ _)
  · rw [hlater]
    exact hold.asked
  · rw [hlater]
    exact hold.all htcp

theorem Served.idle_turn (h : w.Served node) (hc : w.Counts e shown') (i : ℕ)
    (hnone : w.sessions i = none) : shown' i = 0 ∧ w.given i = 0 := by
  obtain ⟨hshown, hgiven⟩ := h.idle i hnone
  rcases hc.cases i with hsame | ⟨b, o, -, hb, -⟩
  · exact ⟨hsame.trans hshown, hgiven⟩
  · rw [hnone] at hb
    cases hb

theorem Served.unborn_turn (h : w.Served node) (hs : w.hook.pageStep e = some h') (i : ℕ)
    (hi : w.hook.sockets.length ≤ i) :
    w.said i ++ put w.hook e h' i = [] ∧ w.sessions i = none := by
  obtain ⟨hsaid, hnone⟩ := h.unborn i hi
  exact ⟨by rw [hsaid, put_of_unborn h.page hs hi]; rfl, hnone⟩

/-- A step that opens no socket. -/
theorem Served.turn_same (h : w.Served node) (hs : w.hook.pageStep e = some h')
    (hc : w.Counts e shown') (htimely : w.hook.Punctual e)
    (hlength : h'.sockets.length = w.hook.sockets.length) (hcurrent : h'.current = w.hook.current)
    (he : ∀ user host port, e ≠ .gesture (.submit user host port)) :
    (w.turned e h' w.users shown').Served node := by
  have hm := h.page.move_of_step hs
  obtain ⟨hpending, hin⟩ := hm.user he
  refine ⟨h.page.step hs, h.users.trans hlength.symm, fun i hi => ?_,
    fun i s' user hget huser => ?_, h.fed_turn hc _, h.idle_turn hc,
    fun i hi => h.unborn_turn hs i (hlength ▸ hi), fun hchat => ?_⟩
  · show w.users[i]? = some h'.chat.pendingUser
    rw [hpending]
    exact h.pending i (hcurrent ▸ hi)
  · have huser : w.users[i]? = some user := huser
    have hlt := (List.getElem?_eq_some_iff.mp huser).1
    rw [h.users] at hlt
    exact h.line_turn hs hc htimely (List.getElem?_eq_getElem hlt) huser hget _
  · show ∃ i, h'.current = some i ∧ 1 ≤ shown' i
    rw [hcurrent]
    rcases hin hchat with hchat | ⟨i, pkt, rfl⟩
    · obtain ⟨i, hi, hshown⟩ := h.chat hchat
      refine ⟨i, hi, ?_⟩
      rcases hc.cases i with hsame | ⟨-, -, -, -, -, hnext⟩ <;> omega
    · obtain ⟨-, -, -, -, -, hshown⟩ := hc.told i (some pkt) rfl
      exact ⟨i, (current_of_message h.page hm).1, by rw [hshown, Function.update_self]; omega⟩

/-- One that opens a socket, for `u`. -/
theorem Served.turn_new (h : w.Served node) (hs : w.hook.pageStep e = some h')
    (hc : w.Counts e shown') (htimely : w.hook.Punctual e) {u t p : List Char}
    (hin : h'.chat.inChat = false) (hcurrent : h'.current = some w.hook.sockets.length)
    (hlength : h'.sockets.length = w.hook.sockets.length + 1)
    (hnew : h'.sockets[w.hook.sockets.length]? = some (Socket.new t p))
    (hpending : h'.chat.pendingUser = u) :
    (w.turned e h' (w.users ++ [u]) shown').Served node := by
  refine ⟨h.page.step hs, ?_, fun i hi => ?_, fun i s' user' hget huser => ?_, h.fed_turn hc _,
    h.idle_turn hc, fun i hi => h.unborn_turn hs i ?_, fun hchat => ?_⟩
  · show (w.users ++ [u]).length = h'.sockets.length
    rw [hlength, List.length_append, h.users]
    rfl
  · show (w.users ++ [u])[i]? = some h'.chat.pendingUser
    obtain rfl : w.hook.sockets.length = i := Option.some.inj (hcurrent.symm.trans hi)
    rw [hpending, ← h.users, List.getElem?_concat_length]
  · have huser : (w.users ++ [u])[i]? = some user' := huser
    have hlt : i < w.users.length + 1 := by
      simpa using (List.getElem?_eq_some_iff.mp huser).1
    by_cases hold : i < w.users.length
    · rw [List.getElem?_append_left hold] at huser
      rw [h.users] at hold
      exact h.line_turn hs hc htimely (List.getElem?_eq_getElem hold) huser hget _
    · obtain rfl : i = w.hook.sockets.length := by
        rw [h.users] at hlt hold
        omega
      obtain rfl : Socket.new t p = s' := Option.some.inj (hnew.symm.trans hget)
      obtain ⟨hsaid, hnone⟩ := h.unborn_turn hs _ (Nat.le_refl _)
      exact .starts (.inl ⟨hsaid, by simp [Socket.new]⟩) (h.idle_turn hc _ hnone).1
  · have hi : h'.sockets.length ≤ i := hi
    omega
  · have hchat : h'.chat.inChat = true := hchat
    rw [hin] at hchat
    cases hchat

/-- **A step of the page.** -/
theorem Served.turn (h : w.Served node) (hs : w.hook.pageStep e = some h')
    (hc : w.Counts e shown') (htimely : w.hook.Punctual e) :
    (w.turned e h' (w.users ++ comes h' e) shown').Served node := by
  rcases (h.page.move_of_step hs).current_cases with ⟨hlength, hcurrent, he⟩ |
    ⟨user, host, port, u, t, p, rfl, -, hin, hcurrent, hlength, hnew, hpending⟩
  · rw [comes_of_ne he, List.append_nil]
    exact h.turn_same hs hc htimely hlength hcurrent he
  · have hcomes : comes h' (.gesture (.submit user host port)) = [u] := by
      rw [← hpending]
      rfl
    rw [hcomes]
    exact h.turn_new hs hc htimely hin hcurrent hlength hnew hpending

end Turn

/-! ### What an event of the bridge does -/

section Bridges

variable {node : NodeBuffer} {w w' : WebClient} {d : WebEvent} {i : ℕ}

theorem Fed.congr {b : Bridge} (h : w.Fed node i b) (hsaid : w'.said i = w.said i)
    (hgiven : w'.given i = w.given i) (hshown : w'.shown i = w.shown i) : w'.Fed node i b := by
  have hlater : w'.later i = w.later i := by
    unfold later
    rw [hsaid, hgiven]
  constructor
  · exact h.ok
  · rw [hshown]
    exact h.shown
  · rw [hgiven, hsaid]
    exact h.given
  · rw [hgiven]
    exact h.first
  · rw [hlater]
    exact h.asked
  · rw [hlater]
    exact h.all

/-- One session, and how much it has been given. -/
theorem Served.session (h : w.Served node) {b' : Bridge} {given' : ℕ → ℕ}
    (hi : i < w.hook.sockets.length) (hgiven : ∀ j, j ≠ i → given' j = w.given j)
    (hup : ∀ b, w.sessions i = some b → b.tcpConnected = true → b'.tcpConnected = true)
    (hfed : Fed node { w with
      sessions := Function.update w.sessions i (some b')
      given := given' } i b') :
    Served node { w with
      sessions := Function.update w.sessions i (some b')
      given := given' } := by
  refine ⟨h.page, h.users, h.pending, fun j s user hget huser => ?_, fun j b hb => ?_,
    fun j hnone => ?_, fun j hj => ?_, h.chat⟩
  · refine { h.line j s user hget huser with up := fun hne => ?_ }
    obtain ⟨b, hb, hconnected⟩ := (h.line j s user hget huser).up hne
    show ∃ b, Function.update w.sessions i (some b') j = some b ∧ _
    by_cases hij : j = i
    · subst hij
      exact ⟨b', Function.update_self .., hup b hb hconnected⟩
    · exact ⟨b, by rw [Function.update_of_ne hij, hb], hconnected⟩
  · change Function.update w.sessions i (some b') j = some b at hb
    by_cases hij : j = i
    · subst hij
      rw [Function.update_self] at hb
      obtain rfl := Option.some.inj hb
      exact hfed
    · rw [Function.update_of_ne hij] at hb
      exact (h.fed j b hb).congr rfl (hgiven j hij) rfl
  · change Function.update w.sessions i (some b') j = none at hnone
    by_cases hij : j = i
    · subst hij
      rw [Function.update_self] at hnone
      cases hnone
    · rw [Function.update_of_ne hij] at hnone
      show w.shown j = 0 ∧ given' j = 0
      rw [hgiven j hij]
      exact h.idle j hnone
  · have hij : j ≠ i := by
      have hj : w.hook.sockets.length ≤ j := hj
      omega
    show w.said j = [] ∧ Function.update w.sessions i (some b') j = none
    rw [Function.update_of_ne hij]
    exact h.unborn j hj

theorem Served.born (h : w.Served node) {b : Bridge} (hb : w.sessions i = some b) :
    i < w.hook.sockets.length := by
  by_contra hno
  rw [(h.unborn i (by omega)).2] at hb
  cases hb

/-- As long as the connection was never up, no request has come. -/
theorem Served.later_of_unconnected (h : w.Served node) {b : Bridge}
    (hb : w.sessions i = some b) (hno : b.tcpConnected = false) : w.later i = [] := by
  have hi := h.born hb
  have hline := h.line i _ _ (List.getElem?_eq_getElem hi)
    (List.getElem?_eq_getElem (h.users ▸ hi))
  have hasks : asksOf (w.said i) = [] := by
    by_contra hne
    obtain ⟨b', hb', hup⟩ := hline.up hne
    obtain rfl : b' = b := Option.some.inj (hb'.symm.trans hb)
    rw [hno] at hup
    cases hup
  unfold later
  rcases hline.said with hsaid | hsaid
  · rw [hsaid, List.take_nil]
    rfl
  · rw [hasks] at hsaid
    rw [hsaid]
    rcases w.given i with - | - | n <;> rfl

theorem later_next {m : WebMessage} (hget : (w.said i)[w.given i]? = some m)
    (hpos : w.given i ≠ 0) :
    (((w.said i).take (w.given i + 1)).tail).map (fun m => some m.json) =
      w.later i ++ [some m.json] := by
  have hlt := (List.getElem?_eq_some_iff.mp hget).1
  have hne : (w.said i).take (w.given i) ≠ [] := by
    intro hempty
    have hlen := congrArg List.length hempty
    rw [List.length_take, List.length_nil] at hlen
    omega
  rw [List.take_add_one, hget, List.tail_append_of_ne_nil hne, List.map_append]
  rfl

/-- **A message the bridge takes out.** -/
theorem Served.toBridge (h : w.Served node) {b b' : Bridge} {m : WebMessage}
    (hb : w.sessions i = some b) (hget : (w.said i)[w.given i]? = some m)
    (hs : b.step node (.message (some m.json)) = some b') :
    Served node { w with
      sessions := Function.update w.sessions i (some b')
      given := Function.update w.given i (w.given i + 1) } := by
  have hold := h.fed i b hb
  obtain ⟨hsent, hup, hfirst, hasked⟩ := Bridge.step_message hs
  have hlater : later { w with
      sessions := Function.update w.sessions i (some b')
      given := Function.update w.given i (w.given i + 1) } i =
      (((w.said i).take (w.given i + 1)).tail).map fun m => some m.json := by
    show (((w.said i).take (Function.update w.given i (w.given i + 1) i)).tail).map _ = _
    rw [Function.update_self]
  refine h.session (h.born hb) (fun j hj => Function.update_of_ne hj _ _)
    (fun b₁ hb₁ => by rwa [Option.some.inj (hb₁.symm.trans hb)])
    ⟨hold.ok.step hs, ?_, ?_, ?_, ?_, ?_⟩
  · exact hold.shown.trans hsent.length_le
  · show Function.update w.given i (w.given i + 1) i ≤ _
    rw [Function.update_self]
    exact (List.getElem?_eq_some_iff.mp hget).1
  · show b'.first = true ↔ Function.update w.given i (w.given i + 1) i = 0
    rw [hfirst, Function.update_self]
    simp
  · rw [hlater]
    rcases hasked with ⟨hf, -, -, hasked⟩ | ⟨hf, -, hasked⟩
    · -- the first message is no request
      have hzero := hold.first.mp hf
      have hnone := hold.asked
      rw [later, hzero, List.take_zero] at hnone
      rw [hasked, List.prefix_nil.mp hnone]
      exact List.nil_prefix
    · have hpos : w.given i ≠ 0 := fun hzero => by
        rw [hold.first.mpr hzero] at hf
        cases hf
      rw [later_next hget hpos, hasked]
      split
      · case isTrue hconn => rw [hold.all hconn.2]
      · exact hold.asked.trans (List.prefix_append _ _)
  · intro htcp
    rw [hlater]
    rcases hasked with ⟨hf, -, -, hasked⟩ | ⟨hf, hsame, hasked⟩
    · have hzero := hold.first.mp hf
      have hnone := hold.asked
      rw [later, hzero, List.take_zero] at hnone
      rw [hasked, List.prefix_nil.mp hnone, hzero]
      rcases w.said i with - | ⟨m', ms⟩ <;> rfl
    · have hpos : w.given i ≠ 0 := fun hzero => by
        rw [hold.first.mpr hzero] at hf
        cases hf
      rw [hsame] at htcp
      rw [later_next hget hpos, hasked, if_pos ⟨hold.ok.connected htcp, htcp⟩, hold.all htcp]

/-- **Any other event of the bridge.** -/
theorem Served.bridge (h : w.Served node) {b b' : Bridge} {e : BridgeEvent}
    (he : ∀ msg, e ≠ .message msg) (hb : w.sessions i = some b) (hs : b.step node e = some b') :
    Served node { w with sessions := Function.update w.sessions i (some b') } := by
  have hold := h.fed i b hb
  obtain ⟨hkeeps, hconnects⟩ := hold.ok.step_event hs he
  refine h.session (h.born hb) (fun j _ => rfl)
    (fun b₁ hb₁ => by rw [Option.some.inj (hb₁.symm.trans hb)]; exact hkeeps.up)
    ⟨hold.ok.step hs, ?_, hold.given, ?_, ?_, fun htcp => ?_⟩
  · exact hold.shown.trans hkeeps.sent.length_le
  · rw [hkeeps.first]
    exact hold.first
  · rw [hkeeps.asked]
    exact hold.asked
  · rw [hkeeps.asked]
    show b.asked = w.later i
    rcases hconnects htcp with hwas | hno
    · exact hold.all hwas
    · rw [(hold.ok.unconnected hno).1, h.later_of_unconnected hb hno]

/-- **One step** of the system. -/
theorem Served.step (h : w.Served node) (htimely : w.Timely d) (hs : w.step node d = some w') :
    w'.Served node := by
  cases move_of_step hs with
  | @page e h' he hpage =>
    refine h.turn hpage ⟨fun _ => rfl, fun i data heq => absurd heq (he i _)⟩ ?_
    rintro user rfl
    exact htimely user rfl
  | accept hi hnone =>
    obtain ⟨hshown, hgiven⟩ := h.idle _ hnone
    refine h.session hi (fun _ _ => rfl) (fun b hb => ?_)
      ⟨Bridge.ok_init, ?_, ?_, ?_, List.nil_prefix, fun hup => by cases hup⟩
    · rw [hnone] at hb
      cases hb
    · exact hshown.le
    · exact hgiven.le.trans (Nat.zero_le _)
    · exact iff_of_true rfl hgiven
  | @socket d i e h' _ he hpage =>
    refine h.turn (e := .socket i e) hpage ⟨fun _ => rfl, ?_⟩ (w.hook.punctual_socket _ _)
    intro j data heq
    exact absurd (PageEvent.socket.inj heq).2 (he data)
  | @toPage i b s h' hb hget hpage =>
    refine h.turn (e := .socket i (.message (some s.data))) hpage ⟨fun hno => ?_, ?_⟩
      (w.hook.punctual_socket _ _)
    · exact absurd rfl (hno i _)
    · intro j data heq
      cases heq
      exact ⟨b, s, hb, hget, rfl, rfl⟩
  | toBridge hb hget hgot => exact h.toBridge hb hget hgot
  | bridge he hb hdone => exact h.bridge he hb hdone

/-! ### What stays -/

/-- The sessions stay, and so does what they have written. -/
theorem Move.session_stays (hm : w.Move node d w') {b : Bridge} (hb : w.sessions i = some b) :
    ∃ b', w'.sessions i = some b' ∧ b.written <+: b'.written ∧ (b'.received = b.received ∨
      ∃ data, d = .bridge i (.tcpData data) ∧ b'.received = b.received ++ data) := by
  cases hm with
  | page | socket | toPage => exact ⟨b, hb, List.prefix_rfl, .inl rfl⟩
  | @accept j hj hnone =>
    have hij : i ≠ j := by
      rintro rfl
      rw [hnone] at hb
      cases hb
    exact ⟨b, (Function.update_of_ne hij ..).trans hb, List.prefix_rfl, .inl rfl⟩
  | @toBridge j b₁ m b' hb₁ hget hs =>
    by_cases hij : i = j
    · subst hij
      obtain rfl : b = b₁ := Option.some.inj (hb.symm.trans hb₁)
      obtain ⟨hwritten, hreceived⟩ := Bridge.step_streams hs
      refine ⟨b', Function.update_self .., hwritten, .inl (hreceived.resolve_right ?_)⟩
      rintro ⟨data, hdata, -⟩
      cases hdata
    · exact ⟨b, (Function.update_of_ne hij ..).trans hb, List.prefix_rfl, .inl rfl⟩
  | @bridge j b₁ e b' he hb₁ hs =>
    by_cases hij : i = j
    · subst hij
      obtain rfl : b = b₁ := Option.some.inj (hb.symm.trans hb₁)
      obtain ⟨hwritten, hreceived⟩ := Bridge.step_streams hs
      refine ⟨b', Function.update_self .., hwritten, hreceived.imp id ?_⟩
      rintro ⟨data, rfl, hdata⟩
      exact ⟨data, rfl, hdata⟩
    · exact ⟨b, (Function.update_of_ne hij ..).trans hb, List.prefix_rfl, .inl rfl⟩

/-- The users stay; a new one is the name in the form, trimmed. -/
theorem Served.users_step (h : w.Served node) (hm : w.Move node d w') :
    w.users <+: w'.users ∧ ∀ name ∈ w'.users, name ∈ w.users ∨
      ∃ user host port, d = .page (.gesture (.submit user host port)) ∧ name = Js.trim user := by
  cases hm with
  | @page e h' he hs =>
    refine ⟨List.prefix_append _ _, fun name hname => (List.mem_append.mp hname).imp_right ?_⟩
    intro hcomes
    by_cases hsubmit : ∃ user host port, e = .gesture (.submit user host port)
    · obtain ⟨user, host, port, rfl⟩ := hsubmit
      refine ⟨user, host, port, rfl, ?_⟩
      obtain rfl : name = h'.chat.pendingUser := List.mem_singleton.mp hcomes
      cases h.page.move_of_step hs with
      | ask hcall => cases hcall
      | connect hlogin hform =>
        simp only [handleSubmit] at hform
        split at hform
        · cases hform
        · exact (Prod.mk.inj (Option.some.inj hform)).1.symm
    · rw [comes_of_ne fun user host port he => hsubmit ⟨user, host, port, he⟩] at hcomes
      cases hcomes
  | socket | toPage =>
    rw [List.append_nil]
    exact ⟨List.prefix_rfl, fun name => .inl⟩
  | accept | toBridge | bridge => exact ⟨List.prefix_rfl, fun name => .inl⟩

/-! ### What comes through -/

/-- **What comes through session `i`**, opened for `user`. -/
structure Relayed (w : WebClient) (i : ℕ) (user : List Char) (b : Bridge) : Prop where
  /-- to the server: the requests, whole and in order -/
  server : ∃ rs, rs <+: asksOf (w.said i) ∧ b.written = (rs.map Request.bytes).flatten ∧
    packetsOf b.written = rs.map Request.packet ∧
    (b.tcp = .connected → w.given i = (w.said i).length → rs = asksOf (w.said i))
  /-- none of them comes too early -/
  up : asksOf (w.said i) ≠ [] → b.tcpConnected = true
  register : ∀ r, (asksOf (w.said i)).head? = some r → r = webRegister user
  named : ∀ r ∈ asksOf (w.said i), r.sender = user
  last : ∀ r ∈ (asksOf (w.said i)).dropLast, r.command ≠ cmdLogout
  /-- to the page: the packets of the server behind `tcp_ok`, and at most one ERROR -/
  page : ∃ shown errors, b.sent.take (w.shown i) = shown ++ errors ∧ shown <+: b.due ∧
    errors.length ≤ 1 ∧ ∀ s ∈ errors, Bridge.IsError s

/-- What the bridge has been given behind the first message are requests. -/
theorem Line.later_eq {s : Socket} {user : List Char} (h : w.Line i s user) :
    w.later i = ((asksOf (w.said i)).take (w.given i - 1)).map (some ∘ requestMessage) := by
  unfold later
  rcases h.said with hsaid | hsaid
  · rw [hsaid, List.take_nil]
    simp [asksOf]
  · rcases hgiven : w.given i with - | n
    · simp
    · conv_lhs => rw [hsaid]
      rw [List.take_succ_cons, List.tail_cons, ← List.map_take, List.map_map]
      rfl

theorem Fed.requests {b : Bridge} {s : Socket} {user : List Char} (h : w.Fed node i b)
    (hline : w.Line i s user) : ∃ rs, rs <+: asksOf (w.said i) ∧
      b.asked = rs.map (some ∘ requestMessage) ∧
      (b.tcp = .connected → w.given i = (w.said i).length → rs = asksOf (w.said i)) := by
  have hasked := h.asked
  rw [hline.later_eq] at hasked
  have hrs := List.prefix_iff_eq_take.mp hasked
  rw [← List.map_take] at hrs
  refine ⟨_, (List.take_prefix _ _).trans (List.take_prefix _ _), hrs, fun htcp hall => ?_⟩
  have hlen : (asksOf (w.said i)).length ≤ w.given i - 1 := by
    rcases hline.said with hsaid | hsaid
    · rw [hsaid]
      exact Nat.zero_le _
    · have hlen := congrArg List.length hsaid
      rw [List.length_cons, List.length_map] at hlen
      omega
  have hlast : (asksOf (w.said i)).length ≤ b.asked.length := by
    rw [h.all htcp, hline.later_eq, List.length_map, List.take_of_length_le hlen]
  rw [List.take_of_length_le hlen, List.take_of_length_le hlast]

theorem Served.relayed (h : w.Served node) {b : Bridge} {user : List Char}
    (hb : w.sessions i = some b) (huser : w.users[i]? = some user) : w.Relayed i user b := by
  have hfed := h.fed i b hb
  have hline := h.line i _ user (List.getElem?_eq_getElem (h.born hb)) huser
  refine ⟨?_, fun hne => ?_, hline.register, hline.named, hline.last, ?_⟩
  · obtain ⟨rs, hrs, hasked, hall⟩ := hfed.requests hline
    refine ⟨rs, hrs, ?_, ?_, hall⟩
    · rw [hfed.ok.written, hasked, Bridge.packetsFor_requests]
    · rw [hfed.ok.written, hasked, Bridge.packetsOf_requests]
  · obtain ⟨b', hb', hup⟩ := hline.up hne
    rwa [Option.some.inj (hb'.symm.trans hb)] at hup
  · obtain ⟨shown, errors, hsent, hshown, hfew, herrors⟩ := hfed.ok.sent
    refine ⟨shown.take (w.shown i), errors.take (w.shown i - shown.length), ?_, ?_, ?_, ?_⟩
    · rw [hsent, List.take_append]
    · exact (List.take_prefix _ _).trans hshown
    · exact (List.length_take_le' _ _).trans hfew
    · exact fun s hs => herrors s (List.mem_of_mem_take hs)

end Bridges

end WebClient

end ChatSystem
