/-
ChatSystem/Server.lean

`servidor.c`: the accept loop (`main`), one `client_thread` per registered
connection and the `inactivity_thread`, as one transition system.

A state (`World`) is the shared memory (`lista`, `num_clientes`, the owner of
`mutex_lista`), the point each thread has reached (`Pc`), the `send_packet`
call each thread is in the middle of (`Sending`), and the kernel's side: which
connection an open descriptor denotes and the bytes written to each
connection.  A label names a thread and what the environment answers to the
call that thread makes next (`Answer`), so every interleaving of the threads,
every packet, every clock reading and every way `send()` may split or fail is
a list of labels.

Granularity.  A critical section without a `send()` in it is one step, enabled
while the mutex is free.  The sections that send (`handle_broadcast`,
`handle_direct`, `notify_disconnect`, the monitor's sweep) take the mutex in
one step, do one loop iteration per step and release it in a last step;
`send_packet` is one step per `send()`.  Connections are numbered in the order
they are accepted, and the thread serving connection `c` is `Tid.client c`.

`log`, newest event first, and the counters `nextConn` and `sections` are
history: no step reads them.
-/
import ChatSystem.Handlers
import Mathlib.Logic.Function.Basic

namespace ChatSystem

open CStr

/-! ### Threads -/

inductive Tid
  | main
  | monitor
  | client (c : ℕ)
deriving DecidableEq, Repr

/-- The calls of `send_packet` in the source; those made through
`lista[i].sockfd` carry the slot `i`. -/
inductive Site
  | register (rc : ℤ)
  | reactivation
  | reply (req : ChatPacket)
  | broadcast (req : ChatPacket) (slot : ℕ)
  | direct (req : ChatPacket) (slot : ℕ)
  | departure (username : List UInt8) (slot : ℕ)
  | inactivity (slot : ℕ)
deriving DecidableEq, Repr

/-- The slot a packet is sent through; `none` for a thread's own descriptor. -/
def Site.slot? : Site → Option ℕ
  | broadcast _ i | direct _ i | departure _ i | inactivity i => some i
  | register _ | reactivation | reply _ => none

/-- A `send_packet(fd, &pkt)` call in progress, `total` bytes of it sent. -/
structure Sending where
  fd : ℤ
  pkt : ChatPacket
  total : ℕ
  site : Site
deriving DecidableEq, Repr

/-- Where a thread is, with the local variables it still needs. -/
inductive Pc
  -- `main`, from `accept` to `pthread_create`
  | accept
  | recvFirst (c : ℕ) (fd : ℤ) (ip : List UInt8)
  | register (c : ℕ) (fd : ℤ) (ip : List UInt8) (pkt : ChatPacket)
  | check (c : ℕ) (fd : ℤ)
  | spawn (c : ℕ) (fd : ℤ)
  | closeFirst (c : ℕ) (fd : ℤ)
  -- `inactivity_thread`
  | sleep
  | awake (now : ℤ)
  | sweep (now : ℤ) (i : ℕ)
  -- `client_thread`
  | notStarted
  | recv (fd : ℤ)
  | touch (fd : ℤ) (pkt : ChatPacket)
  | handle (fd : ℤ) (pkt : ChatPacket)
  | broadcasting (fd : ℤ) (pkt : ChatPacket) (i : ℕ)
  | directUnlock (fd : ℤ)
  | resolve (fd : ℤ) (username : CharArray 32)
  | remove (fd : ℤ) (username : CharArray 32)
  | close (fd : ℤ) (username : CharArray 32)
  | notify (username : CharArray 32)
  | notifying (username : CharArray 32) (i : ℕ)
  | exited
deriving DecidableEq, Repr

/-- Why a thread holds the mutex while it sends. -/
inductive Cause
  | broadcast (req : ChatPacket)
  | direct (req : ChatPacket)
  | departure (username : List UInt8)
  | sweep (now : ℤ)
deriving DecidableEq, Repr

/-- What happened.  `peer` is the connection the descriptor denoted. -/
inductive Event
  | accepted (c : ℕ) (fd : ℤ) (ip : List UInt8)
  | received (t : Tid) (fd : ℤ) (peer : Option ℕ) (pkt : ChatPacket)
  | recvFailed (t : Tid) (fd : ℤ) (peer : Option ℕ)
  | registered (c : ℕ) (slot : ℕ) (r : Cliente)
  | rejected (c : ℕ) (rc : ℤ)
  | checked (c : ℕ) (found : Bool)
  | removed (c : ℕ)
  | closed (c : ℕ) (fd : ℤ) (peer : Option ℕ)
  | locked (t : Tid) (k : ℕ) (cause : Cause)
  | unlocked (t : Tid) (k : ℕ)
  | send (t : Tid) (s : Sending) (peer : Option ℕ) (written : Option ℕ) (k : ℕ)
deriving DecidableEq, Repr

/-- What the environment answers to a thread's next call. -/
inductive Answer
  | go
  | clock (now : ℤ)
  | conn (fd : ℤ) (ip : List UInt8)
  | packet (pkt : ChatPacket)
  | wrote (n : ℕ)
  | fail
deriving DecidableEq, Repr

/-! ### States -/

structure World where
  table : Table
  mutexLista : Option Tid
  pc : Tid → Pc
  sending : Tid → Option Sending
  descr : ℤ → Option ℕ
  nextConn : ℕ
  wire : ℕ → List UInt8
  sections : ℕ
  log : List Event

/-- The state after `cl_init` and the creation of the monitor. -/
def World.init : World where
  table := clInit
  mutexLista := none
  pc := fun t =>
    match t with
    | .main => .accept
    | .monitor => .sleep
    | .client _ => .notStarted
  sending := fun _ => none
  descr := fun _ => none
  nextConn := 0
  wire := fun _ => []
  sections := 0
  log := []

/-- `lista[i]`. -/
def Table.at (t : Table) (i : ℕ) : Cliente := t.lista.getD i .zero

namespace World

def goto (w : World) (t : Tid) (p : Pc) : World :=
  { w with pc := Function.update w.pc t p }

/-- Thread `t` calls `send_packet(fd, &pkt)`. -/
def call (w : World) (t : Tid) (fd : ℤ) (pkt : ChatPacket) (site : Site) : World :=
  { w with sending := Function.update w.sending t (some ⟨fd, pkt, 0, site⟩) }

def emit (w : World) (e : Event) : World := { w with log := e :: w.log }

/-- `pthread_mutex_lock` at the head of a section that sends. -/
def lock (w : World) (t : Tid) (cause : Cause) : World :=
  { w with
    mutexLista := some t
    sections := w.sections + 1
    log := .locked t (w.sections + 1) cause :: w.log }

/-- `pthread_mutex_unlock` at its end. -/
def unlock (w : World) (t : Tid) : World :=
  { w with mutexLista := none, log := .unlocked t w.sections :: w.log }

def setTable (w : World) (t : Table) : World := { w with table := t }

/-- `close(fd)` by the thread in charge of connection `c`. -/
def closeFd (w : World) (c : ℕ) (fd : ℤ) : World :=
  { w with
    descr := Function.update w.descr fd none
    log := .closed c fd (w.descr fd) :: w.log }

end World

/-! ### Sending -/

/-- One `send()` of a `send_packet` call: it accepts `n` bytes, at least one,
or fails and ends the call.  No caller looks at the result. -/
def sendStep (w : World) (t : Tid) (s : Sending) : Answer → Option World
  | .wrote n =>
    match w.descr s.fd with
    -- a closed descriptor takes no bytes
    | none => none
    | some c =>
      if 0 < n ∧ s.total + n ≤ 1024 then
        some ({ w with
          wire := Function.update w.wire c
            (w.wire c ++ (s.pkt.toBytes.drop s.total).take n)
          sending := Function.update w.sending t
            (if s.total + n < 1024 then some { s with total := s.total + n } else none)
          }.emit (.send t s (some c) (some n) w.sections))
      else none
  | .fail =>
    some ({ w with sending := Function.update w.sending t none }.emit
      (.send t s (w.descr s.fd) none w.sections))
  | _ => none

/-- One iteration of the loop `for (i = 0; i < num_clientes; i++) if
(lista[i].activo) send_packet(lista[i].sockfd, &msg)`, or its end. -/
def fanoutStep (w : World) (t : Tid) (i : ℕ) (msg : ChatPacket) (site : ℕ → Site)
    (next done : Pc) : World :=
  if i < w.table.numClientes then
    if (w.table.at i).activo then
      (w.goto t next).call t (w.table.at i).sockfd msg (site i)
    else w.goto t next
  else (w.unlock t).goto t done

/-! ### `main` -/

def mainStep (w : World) (a : Answer) : Option World :=
  match w.pc .main, a with
  | .accept, .conn fd ip =>
    if w.descr fd = none ∧ 0 ≤ fd ∧ ip.length ≤ 15 ∧ (0 : UInt8) ∉ ip then
      some (({ w with
        descr := Function.update w.descr fd (some w.nextConn)
        nextConn := w.nextConn + 1 }.goto .main (.recvFirst w.nextConn fd ip)).emit
          (.accepted w.nextConn fd ip))
    else none
  -- `accept` failed: the loop goes round
  | .accept, .fail => some w
  -- the first packet must be a REGISTER; otherwise the connection is closed unanswered
  | .recvFirst c fd ip, .packet pkt =>
    some ((w.goto .main
      (if pkt.command = cmdRegister then .register c fd ip pkt else .closeFirst c fd)).emit
        (.received .main fd (w.descr fd) pkt))
  | .recvFirst c fd _, .fail =>
    some ((w.goto .main (.closeFirst c fd)).emit (.recvFailed .main fd (w.descr fd)))
  -- `cl_add` has released the mutex when the reply is sent
  | .register c fd ip pkt, .clock now =>
    if w.mutexLista = none then
      let res := clAdd w.table pkt.senderPtr ip fd now
      some ((((w.setTable res.2).goto .main (.check c fd)).call .main fd
        (registerReply res.1 pkt) (.register res.1)).emit
          (if res.1 = 0 then
            .registered c (addSlot w.table) (newCliente pkt.senderPtr ip fd now)
          else .rejected c res.1))
    else none
  -- the loop asks the table, not the return code of `cl_add`
  | .check c fd, .go =>
    if w.mutexLista = none then
      let found := (clFindByFd w.table fd).isSome
      some ((w.goto .main (if found then .spawn c fd else .closeFirst c fd)).emit
        (.checked c found))
    else none
  | .spawn c fd, .go => some ((w.goto (.client c) (.recv fd)).goto .main .accept)
  | .closeFirst c fd, .go => some ((w.closeFd c fd).goto .main .accept)
  | _, _ => none

/-! ### `client_thread` -/

/-- The `switch` on the command of a packet just received. -/
def dispatch (w : World) (c : ℕ) (fd : ℤ) (pkt : ChatPacket) : World :=
  if pkt.command = cmdBroadcast ∨ pkt.command = cmdDirect ∨ pkt.command = cmdStatus then
    w.goto (.client c) (.touch fd pkt)
  else if pkt.command = cmdList ∨ pkt.command = cmdInfo then
    w.goto (.client c) (.handle fd pkt)
  else if pkt.command = cmdLogout then
    (w.goto (.client c)
      (.resolve fd ((CharArray.zero 32).strncpy pkt.senderPtr 31 name_limit))).call
        (.client c) fd (handleLogout pkt) (.reply pkt)
  -- a second REGISTER, or a command the server does not know
  else w

/-- The handler of a packet, up to its first `send_packet`; it starts by
taking the mutex. -/
def handle (w : World) (c : ℕ) (fd : ℤ) (pkt : ChatPacket) : World :=
  let t := Tid.client c
  if pkt.command = cmdBroadcast then
    (w.lock t (.broadcast pkt)).goto t (.broadcasting fd pkt 0)
  else if pkt.command = cmdDirect then
    match clFindByName w.table pkt.targetPtr with
    -- the target is sent its copy inside the section
    | some idx =>
      ((w.lock t (.direct pkt)).goto t (.directUnlock fd)).call t
        (w.table.at idx).sockfd (handleDirect pkt) (.direct pkt idx)
    | none => (w.goto t (.recv fd)).call t fd (directError pkt) (.reply pkt)
  else if pkt.command = cmdStatus then
    let res := handleStatus w.table pkt
    ((w.setTable res.1).goto t (.recv fd)).call t fd res.2 (.reply pkt)
  -- the list is made here, under the mutex, and sent by later steps, without it
  else if pkt.command = cmdList then
    (w.goto t (.recv fd)).call t fd (handleList w.table pkt) (.reply pkt)
  else (w.goto t (.recv fd)).call t fd (handleInfo w.table pkt) (.reply pkt)

/-- `cleanup`: the name to announce, looked up when no LOGOUT gave one. -/
def resolveName (t : Table) (fd : ℤ) (username : CharArray 32) : CharArray 32 :=
  match clFindByFd t fd with
  | some idx => username.strncpy (t.at idx).username.bytes 31 name_limit
  | none => username

def clientStep (w : World) (c : ℕ) (a : Answer) : Option World :=
  let t := Tid.client c
  match w.pc t, a with
  | .recv fd, .packet pkt =>
    some ((dispatch w c fd pkt).emit (.received t fd (w.descr fd) pkt))
  | .recv fd, .fail =>
    some ((w.goto t (.resolve fd (.zero 32))).emit (.recvFailed t fd (w.descr fd)))
  | .touch fd pkt, .clock now =>
    if w.mutexLista = none then
      let res := clTouch w.table fd now
      let w' := (w.setTable res.2).goto t (.handle fd pkt)
      some (if res.1 then w'.call t fd reactivationNotice .reactivation else w')
    else none
  | .handle fd pkt, .go =>
    if w.mutexLista = none then some (handle w c fd pkt) else none
  | .broadcasting fd pkt i, .go =>
    some (fanoutStep w t i (handleBroadcast pkt) (.broadcast pkt)
      (.broadcasting fd pkt (i + 1)) (.recv fd))
  | .directUnlock fd, .go => some ((w.unlock t).goto t (.recv fd))
  -- `cleanup`: the mutex is taken only when no LOGOUT gave a name
  | .resolve fd username, .go =>
    if username.str = [] then
      if w.mutexLista = none then
        some (w.goto t (.remove fd (resolveName w.table fd username)))
      else none
    else some (w.goto t (.remove fd username))
  | .remove fd username, .go =>
    if w.mutexLista = none then
      some (((w.setTable (clRemove w.table fd).2).goto t (.close fd username)).emit
        (.removed c))
    else none
  | .close fd username, .go =>
    some ((w.closeFd c fd).goto t (if username.str = [] then .exited else .notify username))
  | .notify username, .go =>
    if w.mutexLista = none then
      some ((w.lock t (.departure username.str)).goto t (.notifying username 0))
    else none
  | .notifying username i, .go =>
    some (fanoutStep w t i (notifyDisconnect username.bytes) (.departure username.str)
      (.notifying username (i + 1)) .exited)
  | _, _ => none

/-! ### `inactivity_thread` -/

def monitorStep (w : World) (a : Answer) : Option World :=
  let t := Tid.monitor
  match w.pc t, a with
  | .sleep, .clock now => some (w.goto t (.awake now))
  | .awake now, .go =>
    if w.mutexLista = none then some ((w.lock t (.sweep now)).goto t (.sweep now 0))
    else none
  | .sweep now i, .go =>
    if i < w.table.numClientes then
      let w' := (w.setTable (sweepSlot now w.table i)).goto t (.sweep now (i + 1))
      some (if idle now (w.table.at i) then
        w'.call t (w.table.at i).sockfd
          (inactivityNotice (w.table.at i).username.bytes) (.inactivity i)
      else w')
    else some ((w.unlock t).goto t .sleep)
  | _, _ => none

/-! ### The server -/

/-- A thread and the answer to its next call. -/
structure Label where
  tid : Tid
  answer : Answer
deriving DecidableEq, Repr

/-- One step of the server: a thread in the middle of `send_packet` makes its
next `send()`, any other one its next step. -/
def step (w : World) (l : Label) : Option World :=
  match w.sending l.tid with
  | some s => sendStep w l.tid s l.answer
  | none =>
    match l.tid with
    | .main => mainStep w l.answer
    | .monitor => monitorStep w l.answer
    | .client c => clientStep w c l.answer

end ChatSystem
