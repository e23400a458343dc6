/-
ChatSystem/Echoes.lean

The web client and its own messages.  The server sends a message back to its
sender, and the client drops what it takes for such an echo: a message whose
sender reads as its own user name.  The names it compares have come to it by
different ways.  The sender has been trimmed by the bridge, the name in the
user list has not, and the server compares bytes.

`shownAsListed_iff` — a message of one user is shown to another, under the name
the list has for its sender, exactly when the name trimmed is what the list
leaves of the name, and neither the reader's own nor `SERVER`.  In a list that
holds the name whole these are the names without white space at an end, other
than the reader's (`readsAsListed_iff`).  A user ` bob` is never heard by `bob`
(`not_always_shownAsListed`).
-/
import ChatSystem.Relays
import ChatSystem.StatusReports
import ChatSystem.UniqueNames

namespace ChatSystem

open CStr Lts Utf8

/-! ### Who is shown to whom -/

/-- The names the server has for its users. -/
structure UserName (name : List Char) : Prop where
  nonempty : name ≠ []
  fits : (encode name).length ≤ 31
  nul : Js.nul ∉ name
  plain : PlainName (encode name)
  user : name ≠ Text.server

/-- The step `l` from `w` relays a message that is sent under the name of the
user in slot `i`, `name`, to the user in slot `j`, whose web client is `chat`. -/
structure RelaysTo (w : World) (l : Label) (i j : ℕ) (name : List Char) (chat : Chat)
    (pkt : ChatPacket) : Prop where
  relays : ∃ req, (Relays w l (.broadcast req j) pkt ∨ Relays w l (.direct req j) pkt) ∧
    cstr req.senderPtr = encode name
  sender : ∃ r, w.table.Active i r ∧ r.username.str = encode name
  reader : ∃ r, w.table.Active j r ∧ r.username.str = encode chat.usernameRef
  other : i ≠ j
  named : UserName name

/-- The message is appended, with this sender. -/
def AppendedAs (chat : Chat) (pkt : ChatPacket) (sender : Option (List Char)) : Prop :=
  ∃ m, (chat.read pkt).messages = chat.messages ++ [m] ∧ some m.sender = sender

/-- The entries before the one of slot `k`, each with the `;` behind it. -/
def listBefore (t : Table) (k : ℕ) : List UInt8 :=
  ((t.used.take k).filter (·.activo)).flatMap (listEntry · ++ [semicolon])

/-- What the list leaves of the name in slot `k`. -/
def nameLeft (t : Table) (k : ℕ) (name : List Char) : List UInt8 :=
  (encode name).take (956 - (listBefore t k).length)

/-- The user `name`, in slot `k`, has an entry in the list of `t`. -/
structure Listed (t : Table) (k : ℕ) (name : List Char) : Prop where
  record : ∃ r, t.used[k]? = some r ∧ r.activo = true ∧ r.username.str = encode name
  room : (listBefore t k).length < 956

/-- The name the client has for the record in slot `k` when it has read the
list of `t`: that of its entry behind those from the slots before. -/
def listedName (chat : Chat) (t : Table) (req : ChatPacket) (k : ℕ) : Option (List Char) :=
  ((chat.read (handleList t req)).users[(parseUsers (decode (listBefore t k))).length]?).map
    (·.name)

/-- The name, trimmed, is what the list leaves of it, and neither the reader's
own name nor the server's. -/
structure ReadsAsListed (chat : Chat) (t : Table) (k : ℕ) (name : List Char) : Prop where
  listed : Js.trim name = decode (nameLeft t k name)
  notOwn : Js.trim name ≠ chat.usernameRef
  user : Js.trim name ≠ Text.server

/-! ### The sender of a message -/

/-- The sender that is read. -/
theorem UserName.readName {name : List Char} (h : UserName name) {ptr : List UInt8}
    (hptr : cstr ptr = encode name) : ChatSystem.readName ptr = Js.trim name := by
  show Js.trim (decode ((cstr ptr).take 31)) = _
  rw [hptr, List.take_of_length_le h.fits, decode_encode]

/-- **Under which name a relay is shown**: the system's when its sender reads
`SERVER`, else the sender's, unless it is the reader's. -/
theorem appendedAs_relay_iff (chat : Chat) (req : ChatPacket) (target : List UInt8)
    (sender : Option (List Char)) :
    AppendedAs chat (relay req target) sender ↔
      (readName req.senderPtr = Text.server ∧ some Text.sistema = sender) ∨
      (readName req.senderPtr ≠ Text.server ∧ readName req.senderPtr ≠ chat.usernameRef ∧
        some (readName req.senderPtr) = sender) := by
  obtain ⟨len, payload, hparsed⟩ := parsed_relay req target
  unfold AppendedAs
  rw [Chat.read_eq hparsed]
  generalize readName req.senderPtr = shown
  -- one message is appended, whose sender is known
  have happended {s : Chat} {m : Message} (hm : s.messages = chat.messages ++ [m]) :
      (∃ m', s.messages = chat.messages ++ [m'] ∧ some m'.sender = sender) ↔
        some m.sender = sender := by
    constructor
    · rintro ⟨m', hm', hsender⟩
      have hlast := List.append_cancel_left (hm.symm.trans hm')
      rwa [(List.cons.inj hlast).1]
    · exact fun hsender => ⟨m, hm, hsender⟩
  by_cases hserver : shown = Text.server
  · subst hserver
    obtain ⟨m, hm, -, hsender⟩ := @handlePacket_server chat len (readName target) payload
    rw [happended hm, hsender]
    simp
  · obtain ⟨-, hown, hother⟩ := @handlePacket_user chat len shown (readName target) payload hserver
    by_cases hme : shown = chat.usernameRef
    · subst hme
      rw [hown rfl]
      simp [hserver]
    · rw [happended (hother hme)]
      simp [hserver, hme]

/-! ### The entry in the list -/

/-- The list around the entry of slot `k`. -/
theorem listText_eq {t : Table} {k : ℕ} {r : Cliente} (hk : t.used[k]? = some r)
    (hact : r.activo = true) :
    ∃ rest, listText t = listBefore t k ++ (listEntry r ++ rest) := by
  have hsemi : utf8 ";" = [semicolon] := by decide
  obtain ⟨hlt, rfl⟩ := List.getElem?_eq_some_iff.mp hk
  have hused : t.used = t.used.take k ++ t.used[k] :: t.used.drop (k + 1) := by
    rw [← List.drop_eq_getElem_cons hlt, List.take_append_drop]
  unfold listText listBefore
  rw [hsemi]
  have hfilter : t.used.filter (·.activo) = (t.used.take k).filter (·.activo) ++
      t.used[k] :: (t.used.drop (k + 1)).filter (·.activo) := by
    rw [← List.filter_cons_of_pos hact, ← List.filter_append, ← hused]
  rw [hfilter, List.map_append, List.map_cons, Cut.intercalate_append_cons, List.flatMap_map]
  exact ⟨_, rfl⟩

/-- What stands before an entry ends with a `;`, and its pieces come first. -/
theorem pieces_listBefore (t : Table) (k : ℕ) (s : List UInt8) :
    pieces semicolon (listBefore t k ++ s) =
      pieces semicolon (listBefore t k) ++ pieces semicolon s := by
  unfold listBefore
  generalize (t.used.take k).filter (·.activo) = rs
  rcases List.eq_nil_or_concat rs with rfl | ⟨rs, r, rfl⟩
  · rw [List.flatMap_nil, List.nil_append, pieces_nil, List.nil_append]
  · have hlast : (rs.concat r).flatMap (listEntry · ++ [semicolon]) =
        (rs.flatMap (listEntry · ++ [semicolon]) ++ listEntry r) ++ semicolon :: [] := by
      simp
    rw [hlast, List.append_assoc _ (semicolon :: []), List.cons_append, List.nil_append,
      pieces_append_cons, pieces_append_cons, pieces_nil, List.append_nil]

/-- The list from the entry of slot `k` on. -/
theorem take_listText {t : Table} {k : ℕ} {r : Cliente} (hk : t.used[k]? = some r)
    (hact : r.activo = true) (hroom : (listBefore t k).length < 956) : ∃ rest,
    (listText t).take 956 = listBefore t k ++
      (r.username.str ++ comma :: rest).take (956 - (listBefore t k).length) := by
  obtain ⟨rest, hlist⟩ := listText_eq hk hact
  refine ⟨r.status.str ++ rest, ?_⟩
  rw [hlist, listEntry_eq, List.take_append, List.take_of_length_le (by omega), List.append_assoc,
    List.cons_append]

/-- What is left of a name in a cut entry. -/
theorem takeWhile_take {name : List UInt8} (h : PlainName name) (rest : List UInt8) (n : ℕ) :
    (((name ++ comma :: rest).take n).takeWhile (· != semicolon)).takeWhile (· != comma) =
      name.take n := by
  rw [List.take_append, takeWhile_append_of_notMem (mt List.mem_of_mem_take h.2),
    takeWhile_append_of_notMem (mt List.mem_of_mem_take h.1)]
  -- behind the name there is nothing, or the `,`
  have hcomma : (comma != semicolon) = true := by decide
  rcases n - name.length with - | m
  · simp
  · simp [hcomma]

/-- An entry that has any byte left is a piece, with what is left of its name. -/
theorem head?_pieces_entry {name : List UInt8} (h : PlainName name) (hne : name ≠ [])
    (rest : List UInt8) {n : ℕ} (hn : 0 < n) :
    (pieces semicolon ((name ++ comma :: rest).take n)).head?.map (·.takeWhile (· != comma)) =
      some (name.take n) := by
  obtain ⟨n, rfl⟩ := Nat.exists_eq_succ_of_ne_zero hn.ne'
  rcases name with - | ⟨b, bs⟩
  · exact absurd rfl hne
  · have hb : b ≠ semicolon := fun heq => h.2 (heq ▸ List.mem_cons_self)
    have hleft := takeWhile_take h rest (n + 1)
    rw [List.cons_append, List.take_succ_cons] at hleft ⊢
    rw [head?_pieces hb, Option.map_some, hleft]

/-- **The name in the list** is what the cut leaves of it. -/
theorem listedName_eq {t : Table} {k : ℕ} {name : List Char} (h : Listed t k name)
    (hname : UserName name) (chat : Chat) (req : ChatPacket) :
    listedName chat t req k = some (decode (nameLeft t k name)) := by
  obtain ⟨r, hk, hact, hr⟩ := h.record
  obtain ⟨rest, htake⟩ := take_listText hk hact h.room
  obtain ⟨len, sender, target, hparsed⟩ := parsed_cutList t req
  rw [hr] at htake
  -- the users from the slots before come first
  have husers : (chat.read (handleList t req)).users = parseUsers (decode (listBefore t k)) ++
      (pieces semicolon ((encode name ++ comma :: rest).take (956 - (listBefore t k).length))).map
        fun e => parseEntry (decode e) := by
    rw [Chat.read_eq hparsed, users_handlePacket rfl]
    simp only
    rw [parseUsers_decode, parseUsers_decode, htake, pieces_listBefore, List.map_append]
  have hread : ((·.name) ∘ fun e => parseEntry (decode e)) =
      decode ∘ (·.takeWhile (· != comma)) := by
    funext e
    exact name_parseEntry e
  rw [listedName, husers, List.getElem?_append_right le_rfl, Nat.sub_self, List.getElem?_map,
    ← List.head?_eq_getElem?, Option.map_map, hread, ← Option.map_map,
    head?_pieces_entry hname.plain (mt encode_eq_nil_iff.mp hname.nonempty) rest
      (Nat.sub_pos_of_lt h.room)]
  rfl

/-! ### The condition -/

/-- A name that reads `SERVER` is not listed as `SISTEMA`. -/
theorem ne_sistema {name : List Char} (h : Js.trim name = Text.server) (n : ℕ) :
    decode ((encode name).take n) ≠ Text.sistema := by
  intro heq
  have hi : IsAscii 73 := by decide
  -- the letter I would be in the name, and so in `SERVER`
  have hmem : ascii 73 ∈ decode ((encode name).take n) := by
    rw [heq]
    decide
  have hname : ascii 73 ∈ name :=
    (mem_encode_iff hi name).mp (List.mem_of_mem_take ((mem_decode_iff hi _).mp hmem))
  have htrim := Js.mem_trim hname (by decide)
  rw [h] at htrim
  exact absurd htrim (by decide)

/-- Where the list holds the name whole, white space decides. -/
theorem readsAsListed_iff {t : Table} {k : ℕ} {name : List Char} (hname : UserName name)
    (hwhole : (listBefore t k).length + (encode name).length ≤ 956) (chat : Chat) :
    ReadsAsListed chat t k name ↔ Js.trim name = name ∧ name ≠ chat.usernameRef := by
  have hleft : decode (nameLeft t k name) = name := by
    rw [nameLeft, List.take_of_length_le (by omega), decode_encode]
  constructor
  · intro h
    have htrim : Js.trim name = name := h.listed.trans hleft
    exact ⟨htrim, htrim ▸ h.notOwn⟩
  · rintro ⟨htrim, hown⟩
    exact ⟨htrim.trans hleft.symm, htrim.symm ▸ hown, htrim.symm ▸ hname.user⟩

/-! ### The runs -/

/-- **Messages of others are shown under the names in the list.**  In every
run, a message that one user's thread relays to the web client of another is
appended there with the sender the client's list has for this user, exactly
when the name reads as it is listed.  As long as no name is registered twice,
the two have different names. -/
theorem shownAsListed_iff {tr : List (World × Label)} {w : World} (h : Run step World.init tr w)
    {v : World} {l : Label} (hl : (v, l) ∈ tr) {i j : ℕ} {name : List Char} {chat : Chat}
    {pkt : ChatPacket} (hrelays : RelaysTo v l i j name chat pkt) {t : Table} {k : ℕ}
    (hlisted : Listed t k name) (seen : Chat) (req : ChatPacket) :
    (AppendedAs chat pkt (listedName seen t req k) ↔ ReadsAsListed chat t k name) ∧
      (StepsAll AddsFreshName tr → name ≠ chat.usernameRef) := by
  constructor
  · obtain ⟨relayed, hrelay, hown⟩ := hrelays.relays
    obtain ⟨target, rfl⟩ : ∃ target, pkt = relay relayed target := by
      rcases hrelay with hrelay | hrelay
      · cases hrelay
        exact ⟨_, rfl⟩
      · cases hrelay
        exact ⟨_, rfl⟩
    rw [listedName_eq hlisted hrelays.named, appendedAs_relay_iff, hrelays.named.readName hown,
      Option.some.injEq, Option.some.injEq]
    constructor
    · rintro (⟨hserver, hshown⟩ | ⟨hserver, hother, hshown⟩)
      · exact absurd hshown.symm (ne_sistema hserver _)
      · exact ⟨hshown, hother, hserver⟩
    · intro hreads
      exact .inr ⟨hreads.user, hreads.notOwn, hreads.listed⟩
  · intro hfresh heq
    obtain ⟨r, hr, hname⟩ := hrelays.sender
    obtain ⟨s, hs, hme⟩ := hrelays.reader
    have hdistinct := ((namesDistinct_iff h).mpr hfresh).2 _ hl
    exact hrelays.other (hdistinct i j r s hr hs (by rw [hname, hme, heq]))

/-! ### Two users -/

/-- Two users join, and the first broadcasts; its own copy has been sent. -/
def broadcastsToTwo (sender reader : List Char) : List Label :=
  joining 4 (ip 1) (registerPacket (encode sender)) ++
    joining 5 (ip 2) (registerPacket (encode reader)) ++
    [⟨.client 0, .packet (clientPacket cmdBroadcast (encode sender) targetAll (utf8 "hola"))⟩,
      ⟨.client 0, .clock 0⟩] ++ goes 0 2 ++ [sends 0]

/-- Slot `i` is the user's. -/
def Table.hasUser (t : Table) (i : ℕ) (name : List Char) : Bool :=
  t.lista[i]?.any fun r => r.activo && r.username.str == encode name

theorem Table.hasUser_sound {t : Table} {i : ℕ} {name : List Char} (h : t.hasUser i name = true) :
    ∃ r, t.Active i r ∧ r.username.str = encode name := by
  obtain ⟨r, hr, hp⟩ := (Option.any_eq_true _ _).mp h
  obtain ⟨hact, hname⟩ := Bool.and_eq_true_iff.mp hp
  exact ⟨r, ⟨hr, hact⟩, eq_of_beq hname⟩

/-- The next step relays the broadcast to the second user. -/
def aboutToRelay (sender reader : List Char) (w : World) : Bool :=
  match w.sending (.client 0), w.pc (.client 0) with
  | none, .broadcasting _ req 1 => cstr req.senderPtr == encode sender &&
      w.table.hasUser 0 sender && w.table.hasUser 1 reader && w.table.numClientes == 2 &&
      (step w ⟨.client 0, .go⟩).isSome
  | _, _ => false

theorem relaysTo_of_about {sender reader : List Char} {w : World}
    (h : aboutToRelay sender reader w = true) (hname : UserName sender) :
    (∃ req, cstr req.senderPtr = encode sender ∧
      RelaysTo w ⟨.client 0, .go⟩ 0 1 sender (inChat reader) (handleBroadcast req)) ∧
    Listed w.table 0 sender ∧ ∃ w', step w ⟨.client 0, .go⟩ = some w' := by
  unfold aboutToRelay at h
  split at h
  · case h_1 fd req hs hpc =>
    simp only [Bool.and_eq_true, beq_iff_eq] at h
    obtain ⟨⟨⟨⟨hown, hsender⟩, hreader⟩, hnum⟩, hstep⟩ := h
    obtain ⟨r, hr, hrname⟩ := Table.hasUser_sound hsender
    obtain ⟨s, hs', hsname⟩ := Table.hasUser_sound hreader
    have hi : 1 < w.table.numClientes := by omega
    have hat : w.table.at 1 = s := by
      rw [Table.at, List.getD_eq_getElem?_getD, hs'.1]
      rfl
    refine ⟨⟨req, hown, ?_⟩, ?_, Option.isSome_iff_exists.mp hstep⟩
    · exact {
        relays := ⟨req, .inl (.broadcast rfl hs hpc hi (by rw [hat]; exact hs'.2)), hown⟩
        sender := ⟨r, hr, hrname⟩
        reader := ⟨s, hs', hsname⟩
        other := by decide
        named := hname }
    · have hbefore : listBefore w.table 0 = [] := rfl
      exact ⟨⟨r, getElem?_used.mpr ⟨by omega, hr.1⟩, hr.2, hrname⟩, by rw [hbefore]; decide⟩
  · cases h

/-- The users of the two runs. -/
theorem userName_of_mem {name : List Char}
    (h : name ∈ ["alice".toList, " bob".toList, "bob".toList]) : UserName name := by
  have hnames : ∀ name ∈ ["alice".toList, " bob".toList, "bob".toList], name ≠ [] ∧
      (encode name).length ≤ 31 ∧ Js.nul ∉ name ∧ (comma ∉ encode name ∧ semicolon ∉ encode name) ∧
      name ≠ Text.server := by
    decide
  obtain ⟨hne, hfits, hnul, hplain, huser⟩ := hnames name h
  exact ⟨hne, hfits, hnul, hplain, huser⟩

theorem exec_broadcastsToTwo_alice :
    (exec step World.init (broadcastsToTwo "alice".toList "bob".toList)).any
      (aboutToRelay "alice".toList "bob".toList) = true := by
  decide +kernel

theorem shownAsListed_alice : ∃ tr w v i j pkt, Run step World.init tr w ∧
    (v, ⟨.client 0, .go⟩) ∈ tr ∧
    RelaysTo v ⟨.client 0, .go⟩ i j "alice".toList (inChat "bob".toList) pkt ∧
    Listed v.table i "alice".toList ∧
    (AppendedAs (inChat "bob".toList) pkt (listedName (inChat "bob".toList) v.table .zero i) ↔
      ReadsAsListed (inChat "bob".toList) v.table i "alice".toList) ∧
    (StepsAll AddsFreshName tr → "alice".toList ≠ (inChat "bob".toList).usernameRef) := by
  obtain ⟨tr, w, hrun, -, hp⟩ := exists_run exec_broadcastsToTwo_alice
  have halice : UserName "alice".toList := userName_of_mem (by decide)
  obtain ⟨⟨req, -, hrelays⟩, hlisted, w', hstep⟩ := relaysTo_of_about hp halice
  exact ⟨_, w', w, 0, 1, _, hrun.step hstep, List.mem_cons_self, hrelays, hlisted,
    shownAsListed_iff (hrun.step hstep) List.mem_cons_self hrelays hlisted _ _⟩

theorem exec_broadcastsToTwo_bob :
    (exec step World.init (broadcastsToTwo " bob".toList "bob".toList)).any
      (aboutToRelay " bob".toList "bob".toList) = true := by
  decide +kernel

/-- **Two names that differ in a blank**: `bob` takes what ` bob` says for an
echo. -/
theorem not_always_shownAsListed : ¬ ∀ (tr : List (World × Label)) (w : World),
    Run step World.init tr w → ∀ v l, (v, l) ∈ tr → ∀ i j name chat pkt,
      RelaysTo v l i j name chat pkt → UserName chat.usernameRef →
      ∀ t k, Listed t k name → ∀ seen req,
        AppendedAs chat pkt (listedName seen t req k) := by
  intro hall
  obtain ⟨tr, w, hrun, -, hp⟩ := exists_run exec_broadcastsToTwo_bob
  have hblank : UserName " bob".toList := userName_of_mem (by decide)
  obtain ⟨⟨req, hown, hrelays⟩, hlisted, w', hstep⟩ := relaysTo_of_about hp hblank
  have hshown := hall _ w' (hrun.step hstep) w _ List.mem_cons_self 0 1 _ _ _ hrelays
    (userName_of_mem (by decide)) _ 0 hlisted (inChat []) .zero
  have hread : readName req.senderPtr = "bob".toList := (hblank.readName hown).trans (by decide)
  rcases (appendedAs_relay_iff _ _ _ _).mp hshown with ⟨hserver, -⟩ | ⟨-, hother, -⟩
  · rw [hread] at hserver
    exact absurd hserver (by decide)
  · exact hother hread

end ChatSystem
