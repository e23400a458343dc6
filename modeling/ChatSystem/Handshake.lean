/-
ChatSystem/Handshake.lean

The first message of a WebSocket: `ws.once("message")` of `bridge.js`, and the
message the web client sends there, from the fields of the login form.

Only `JSON.parse` stands in a `try`.  What is read from the value, the methods
called on its fields and `tcp.connect` may throw, and an exception that leaves
the handler stops the bridge.  `handshakeSafe_iff` says for which values
nothing is thrown: the port of a user's form may be any text
(`handshakeSafe_form_iff`).

Of Node it is assumed that reading a property of `null` and calling a method
that is missing throw, and that `tcp.connect` throws for a port that is not an
integer from 0 to 65535.
-/
import ChatSystem.JsValue
import ChatSystem.Protocol

namespace ChatSystem

open Js

/-! ### The handler -/

/-- What may leave the handler. -/
inductive JsError
  | typeError
  | rangeError
deriving DecidableEq, Repr

/-- An object passed to `sendWs`. -/
structure WsObject where
  command : UInt8
  sender : List Char
  target : List Char
  payload : List Char
deriving DecidableEq, Repr

/-- What the handler does. -/
inductive Effect
  | send (obj : WsObject)
  | close
  | connect (port : ℤ) (host : List Char)
deriving DecidableEq, Repr

/-- `sendWs(ws, obj)`; `wsOpen` is the test of `ws.readyState`. -/
def sendWs (wsOpen : Bool) (obj : WsObject) : List Effect := if wsOpen then [.send obj] else []

/-- An ERROR of the bridge. -/
def bridgeError (payload : String) : WsObject :=
  ⟨cmdError, "BRIDGE".toList, [], payload.toList⟩

/-- `init.key`, of a value that may be `null`; `none` is `undefined`.  No key
read here is inherited. -/
def readField (init : Json) (key : String) : Except JsError (Option Json) :=
  match init with
  | .null => .error .typeError
  | _ => .ok (init.own key.toList)

/-- `!v`. -/
def falsy (v : Option Json) : Bool := !(v.any Json.truthy)

/-- `host.trim()`: only a string has the method. -/
def trimHost : Option Json → Except JsError (List Char)
  | some (.str host) => .ok (trim host)
  | _ => .error .typeError

/-- `parseInt(port)`; `none` is `NaN`. -/
def parsePort : Option Json → Except JsError (Option ℤ)
  | some v =>
    match v.toText with
    | some text => .ok (parseInt text)
    | none => .error .typeError
  | none => .ok (parseInt "undefined".toList)

/-- The test of `tcp.connect` on its port. -/
def ValidPort (port : ℤ) : Prop := 0 ≤ port ∧ port ≤ 65535

instance (port : ℤ) : Decidable (ValidPort port) := inferInstanceAs (Decidable (_ ∧ _))

/-- `tcp.connect(port, host, …)`. -/
def tcpConnect (port : Option ℤ) (host : List Char) : Except JsError (List Effect) :=
  match port with
  | some port => if ValidPort port then .ok [.connect port host] else .error .rangeError
  | none => .error .rangeError

/-- `init.type !== "connect" || !init.host || !init.port`. -/
def refused (init : Json) : Except JsError Bool := do
  let type ← readField init "type"
  let host ← readField init "host"
  let port ← readField init "port"
  return !(match type with
    | some (.str s) => s == "connect".toList
    | _ => false) || falsy host || falsy port

/-- The handler of the first message; `init` is what `JSON.parse` makes of it,
`none` if it throws. -/
def firstMessage (wsOpen : Bool) (init : Option Json) : Except JsError (List Effect) :=
  match init with
  | none => .ok (sendWs wsOpen (bridgeError "Mensaje de inicio invalido.") ++ [.close])
  | some init => do
    if ← refused init then
      return sendWs wsOpen (bridgeError "Se requiere \x7btype:'connect', host, port\x7d.") ++
        [.close]
    let host ← trimHost (← readField init "host")
    let port ← parsePort (← readField init "port")
    tcpConnect port host

/-- Nothing is thrown, and the message has been answered: a TCP connection is
started, or one ERROR is sent and the WebSocket closed. -/
def HandshakeSafe (init : Option Json) : Prop :=
  ∃ effects, firstMessage true init = .ok effects ∧
    ((∃ port host, effects = [.connect port host]) ∨
      ∃ text, effects = [.send (bridgeError text), .close])

/-! ### What the login form sends -/

/-- `handleSubmit`: what is passed to `connect`, if anything. -/
def handleSubmit (user host port : List Char) : Option (List Char × List Char × List Char) :=
  if trim user = [] ∨ trim host = [] ∨ trim port = [] then none
  else some (trim user, trim host, trim port)

/-- The first message of the web client. -/
def connectMessage (host port : List Char) : Json :=
  .obj [("type".toList, .str "connect".toList), ("host".toList, .str host),
    ("port".toList, .str port)]

/-! ### Values -/

/-- The value asks for a connection. -/
def asksConnect (init : Json) : Bool :=
  (match init.own "type".toList with
    | some (.str s) => s == "connect".toList
    | _ => false) && !falsy (init.own "host".toList) && !falsy (init.own "port".toList)

/-- The text is an address `tcp.connect` takes. -/
def IsPort (text : List Char) : Prop := ∃ port, parseInt text = some port ∧ ValidPort port

/-- The value is not `null`, and if it asks for a connection, its host is a
string, and its port has a text that is one. -/
def HandshakeFits : Option Json → Prop
  | none => True
  | some init => init ≠ .null ∧ (asksConnect init = true →
      (∃ host, init.own "host".toList = some (.str host)) ∧
        ∃ port text, init.own "port".toList = some port ∧ port.toText = some text ∧ IsPort text)

theorem readField_of_ne {init : Json} (h : init ≠ .null) (key : String) :
    readField init key = .ok (init.own key.toList) := by
  cases init with
  | null => exact absurd rfl h
  | _ => rfl

theorem refused_of_ne {init : Json} (h : init ≠ .null) :
    refused init = .ok (!asksConnect init) := by
  simp only [refused, readField_of_ne h]
  show Except.ok _ = Except.ok _
  rw [asksConnect, Bool.not_and, Bool.not_and, Bool.not_not, Bool.not_not]

/-- From the fields to `tcp.connect`. -/
def startTcp (host port : Option Json) : Except JsError (List Effect) := do
  let host ← trimHost host
  let port ← parsePort port
  tcpConnect port host

/-- **The handler on a value** that is not `null`. -/
theorem firstMessage_of_ne {init : Json} (h : init ≠ .null) (wsOpen : Bool) :
    firstMessage wsOpen (some init) =
      if asksConnect init = true then startTcp (init.own "host".toList) (init.own "port".toList)
      else .ok (sendWs wsOpen (bridgeError "Se requiere \x7btype:'connect', host, port\x7d.") ++
        [.close]) := by
  simp only [firstMessage, refused_of_ne h, readField_of_ne h]
  rcases asksConnect init with - | - <;> rfl

section Outcomes

variable {host port : Option Json} {effects : List Effect}

theorem trimHost_eq_ok_iff {text : List Char} :
    trimHost host = .ok text ↔ ∃ h, host = some (.str h) ∧ text = trim h := by
  constructor
  · intro h
    rcases host with - | host
    · cases h
    · cases host with
      | str s => exact ⟨s, rfl, (Except.ok.inj h).symm⟩
      | _ => cases h
  · rintro ⟨h, rfl, rfl⟩
    rfl

theorem parsePort_eq_ok_iff {n : ℤ} :
    parsePort port = .ok (some n) ↔
      ∃ v text, port = some v ∧ v.toText = some text ∧ parseInt text = some n := by
  constructor
  · intro h
    rcases port with - | v
    · have hundefined : parseInt "undefined".toList = none := by decide
      rw [parsePort, hundefined] at h
      cases h
    · rcases htext : v.toText with - | text
      · simp [parsePort, htext] at h
      · exact ⟨v, text, rfl, htext, by simpa [parsePort, htext] using h⟩
  · rintro ⟨v, text, rfl, htext, hn⟩
    simp [parsePort, htext, hn]

theorem tcpConnect_eq_ok_iff {port : Option ℤ} {host : List Char} :
    tcpConnect port host = .ok effects ↔
      ∃ n, port = some n ∧ ValidPort n ∧ effects = [.connect n host] := by
  rcases port with - | n
  · simp [tcpConnect]
  · by_cases hvalid : ValidPort n <;> simp [tcpConnect, hvalid, eq_comm]

/-- **A connection is started** for a host that is a string and a port whose
text is one. -/
theorem startTcp_eq_ok_iff :
    startTcp host port = .ok effects ↔
      ∃ h v text n, host = some (.str h) ∧ port = some v ∧ v.toText = some text ∧
        parseInt text = some n ∧ ValidPort n ∧ effects = [.connect n (trim h)] := by
  constructor
  · intro h
    unfold startTcp at h
    rcases hhost : trimHost host with err | text
    · rw [hhost] at h
      cases h
    rcases hport : parsePort port with err | n
    · rw [hhost, hport] at h
      cases h
    rw [hhost, hport] at h
    obtain ⟨n, rfl, hvalid, rfl⟩ := tcpConnect_eq_ok_iff.mp h
    obtain ⟨s, hs, rfl⟩ := trimHost_eq_ok_iff.mp hhost
    obtain ⟨v, text, hv, htext, hn⟩ := parsePort_eq_ok_iff.mp hport
    exact ⟨s, v, text, n, hs, hv, htext, hn, hvalid, rfl⟩
  · rintro ⟨s, v, text, n, hs, hv, htext, hn, hvalid, rfl⟩
    have hhost := trimHost_eq_ok_iff.mpr ⟨s, hs, rfl⟩
    have hport := parsePort_eq_ok_iff.mpr ⟨v, text, hv, htext, hn⟩
    unfold startTcp
    rw [hhost, hport]
    exact tcpConnect_eq_ok_iff.mpr ⟨n, rfl, hvalid, rfl⟩

end Outcomes

/-- A value that asks for no connection is answered; one that does needs a host
and a port. -/
theorem handshakeSafe_of_ne {init : Json} (hnull : init ≠ .null) :
    HandshakeSafe (some init) ↔ (asksConnect init = true →
      (∃ host, init.own "host".toList = some (.str host)) ∧
        ∃ port text, init.own "port".toList = some port ∧ port.toText = some text ∧
          IsPort text) := by
  unfold HandshakeSafe
  rw [firstMessage_of_ne hnull]
  rcases hasks : asksConnect init with - | -
  · exact iff_of_true ⟨_, rfl, .inr ⟨_, rfl⟩⟩ fun h => by cases h
  · simp only [if_true, startTcp_eq_ok_iff, forall_const]
    constructor
    · rintro ⟨effects, ⟨h, v, text, n, hhost, hport, htext, hn, hvalid, -⟩, -⟩
      exact ⟨⟨h, hhost⟩, v, text, hport, htext, n, hn, hvalid⟩
    · rintro ⟨⟨h, hhost⟩, v, text, hport, htext, n, hn, hvalid⟩
      exact ⟨_, ⟨h, v, text, n, hhost, hport, htext, hn, hvalid, rfl⟩, .inl ⟨n, trim h, rfl⟩⟩

/-- **The handler throws nothing**, exactly for these messages. -/
theorem handshakeSafe_iff (init : Option Json) : HandshakeSafe init ↔ HandshakeFits init := by
  rcases init with - | init
  · exact iff_of_true ⟨_, rfl, .inr ⟨_, rfl⟩⟩ trivial
  by_cases hnull : init = .null
  · -- `init.type`
    subst hnull
    refine iff_of_false ?_ fun hfits => hfits.1 rfl
    rintro ⟨effects, hdoes, -⟩
    cases hdoes
  · rw [handshakeSafe_of_ne hnull]
    exact (and_iff_right hnull).symm

/-- The form lets a user type a port that is none. -/
theorem not_handshakeSafe_abc :
    handleSubmit "ana".toList "127.0.0.1".toList "abc".toList =
      some ("ana".toList, "127.0.0.1".toList, "abc".toList) ∧
    ¬ HandshakeSafe (some (connectMessage "127.0.0.1".toList "abc".toList)) := by
  refine ⟨by decide, ?_⟩
  rintro ⟨effects, hdoes, -⟩
  have hthrows : firstMessage true (some (connectMessage "127.0.0.1".toList "abc".toList)) =
      .error .rangeError := by rfl
  rw [hthrows] at hdoes
  cases hdoes

/-! ### The login form -/

/-- **What the form sends** is answered exactly when its port is one. -/
theorem handshakeSafe_form_iff {user host port u h p : List Char}
    (hsubmit : handleSubmit user host port = some (u, h, p)) :
    HandshakeSafe (some (connectMessage h p)) ↔ IsPort p := by
  have hne : h ≠ [] ∧ p ≠ [] := by
    unfold handleSubmit at hsubmit
    split at hsubmit
    · cases hsubmit
    · next hempty =>
      rw [not_or, not_or] at hempty
      cases hsubmit
      exact hempty.2
  have hnull : connectMessage h p ≠ .null := by
    intro heq
    cases heq
  have hhost : (connectMessage h p).own "host".toList = some (.str h) := rfl
  have hport : (connectMessage h p).own "port".toList = some (.str p) := rfl
  have htype : (connectMessage h p).own "type".toList = some (.str "connect".toList) := rfl
  have hasks : asksConnect (connectMessage h p) = true := by
    rw [asksConnect, htype, hhost, hport]
    simp [falsy, Json.truthy, hne]
  rw [handshakeSafe_of_ne hnull, hasks, hhost, hport]
  constructor
  · intro h
    obtain ⟨-, v, text, hv, htext, hport⟩ := h rfl
    obtain rfl := Option.some.inj hv
    obtain rfl := Option.some.inj htext
    exact hport
  · intro hport _
    exact ⟨⟨h, rfl⟩, .str p, p, rfl, rfl, hport⟩

example : IsPort "8080".toList := ⟨8080, by decide, by decide⟩

end ChatSystem
