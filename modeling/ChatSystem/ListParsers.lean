/-
ChatSystem/ListParsers.lean

The two parsers of a user list.  `cl_build_list` writes names and statuses
between `,` and `;` as they are.  The terminal client cuts the text with
`strtok_r` and `strchr`; the web client splits it, drops what stands behind a
second `,` and reads an empty status as `ACTIVE`.

`listRead_iff` — both read the records of the table back exactly when no name
and no status has a separator in it, no status is empty, and all of them are
UTF-8.  Neither `cl_add` nor `cl_set_status` asks for any of this
(`not_always_listRead`).
-/
import ChatSystem.AddContract
import ChatSystem.Packets
import ChatSystem.Web

namespace ChatSystem

open CStr Lts Utf8

/-! ### Reading a list back -/

/-- The names and statuses of the active records, in slot order. -/
def Table.pairs (t : Table) : List (List UInt8 × List UInt8) :=
  (t.used.filter (·.activo)).map fun r => (r.username.str, r.status.str)

/-- The bytes of an entry of the web client. -/
def User.bytes (u : User) : List UInt8 × List UInt8 := (encode u.name, encode u.status)

/-- Both clients read the records of `t` from the packet: the terminal client
prints them, the web client has them as its `users`. -/
structure ListRead (t : Table) (pkt : ChatPacket) : Prop where
  terminal : ∀ garbage, printed (uiDisplayPacket garbage pkt) =
    t.pairs.map fun p => .user p.1 (some p.2)
  web : ∀ chat,
    (parsePacket pkt.toBytes).map (fun p => (handlePacket chat p).users.map User.bytes) =
      some t.pairs

/-- No separator, and UTF-8. -/
structure Plain (s : List UInt8) : Prop where
  comma : comma ∉ s
  semicolon : semicolon ∉ s
  valid : Valid s

/-- A record both parsers read back. -/
structure Cliente.Listable (r : Cliente) : Prop where
  username : Plain r.username.str
  status : Plain r.status.str
  nonempty : r.status.str ≠ []

/-! ### The separators -/

theorem isAscii_comma : IsAscii comma := by decide

theorem isAscii_semicolon : IsAscii semicolon := by decide

/-- The pieces of the text are those of its bytes. -/
theorem pieces_decode {b : UInt8} (hb : IsAscii b) (xs : List UInt8) :
    pieces (ascii b) (decode xs) = (pieces b xs).map decode := by
  unfold pieces
  rw [splitOn_decode hb, List.filter_map]
  congr 1
  refine List.filter_congr fun t _ => ?_
  have hiff : (decode t).isEmpty = t.isEmpty := by
    rw [Bool.eq_iff_iff, List.isEmpty_iff, List.isEmpty_iff, decode_eq_nil_iff]
  show (!(decode t).isEmpty) = _
  rw [hiff]

/-- The entries of a list whose names and statuses have no `;`. -/
theorem pieces_listText {t : Table}
    (h : ∀ i r, t.Active i r → semicolon ∉ r.username.str ∧ semicolon ∉ r.status.str) :
    pieces semicolon (listText t) = (t.used.filter (·.activo)).map listEntry := by
  refine splitOn_listText fun r hr => ?_
  obtain ⟨i, hi⟩ := active_of_mem_used hr
  exact h i r hi

/-! ### The terminal client -/

/-- **What the terminal client prints** for a list that fits. -/
theorem printed_handleList {t : Table} (hfit : (listText t).length ≤ 956) (pkt : ChatPacket)
    (garbage : CharArray 957) :
    printed (uiDisplayPacket garbage (handleList t pkt)) =
      (pieces semicolon (listText t)).map fun e => .user (cutAtComma e).1 (cutAtComma e).2 := by
  have hstr : cstr (handleList t pkt).payloadPtr = listText t :=
    (str_payload_handleList t pkt).trans (List.take_of_length_le hfit)
  rw [printed_list garbage rfl, hstr, List.take_of_length_le hfit]

theorem listEntry_eq (r : Cliente) : listEntry r = r.username.str ++ comma :: r.status.str := by
  unfold listEntry
  rw [List.append_assoc]
  rfl

theorem cutAtComma_listEntry {r : Cliente} (h : comma ∉ r.username.str) :
    cutAtComma (listEntry r) = (r.username.str, some r.status.str) := by
  rw [listEntry_eq, cutAtComma_append h]

/-! ### The web client -/

theorem users_handlePacket {pkt : ParsedPacket} (hcmd : pkt.command = cmdUserList) (chat : Chat) :
    (handlePacket chat pkt).users = parseUsers pkt.payload := by
  obtain ⟨command, len, sender, target, payload⟩ := pkt
  obtain rfl : command = cmdUserList := hcmd
  show (handleUserList chat payload).users = _
  simp only [handleUserList]
  split
  · rfl
  · split
    · rfl
    · split
      · rfl
      · split <;> rfl

/-- The packet `parsePacket` makes of a list. -/
theorem parsed_cutList (t : Table) (pkt : ChatPacket) :
    ∃ len sender target, parsePacket (handleList t pkt).toBytes =
      some ⟨cmdUserList, len, sender, target, decode ((listText t).take 956)⟩ := by
  have hstr : cstr (handleList t pkt).payloadPtr = (listText t).take 956 :=
    str_payload_handleList t pkt
  have hpayload := (sized_handleList t pkt).payload_parsed (terminated_handleList t pkt).payload
  rw [hstr, parsePacket_toBytes, Option.map_some, Option.some.injEq] at hpayload
  simp only at hpayload
  rw [parsePacket_toBytes, hpayload]
  exact ⟨_, _, _, rfl⟩

/-- The packet `parsePacket` makes of a list that fits. -/
theorem parsed_handleList {t : Table} (hfit : (listText t).length ≤ 956) (pkt : ChatPacket) :
    ∃ len sender target, parsePacket (handleList t pkt).toBytes =
      some ⟨cmdUserList, len, sender, target, decode (listText t)⟩ := by
  obtain ⟨len, sender, target, hparsed⟩ := parsed_cutList t pkt
  rw [List.take_of_length_le hfit] at hparsed
  exact ⟨len, sender, target, hparsed⟩

theorem parseUsers_decode (s : List UInt8) :
    parseUsers (decode s) = (pieces semicolon s).map fun e => parseEntry (decode e) := by
  show (pieces (ascii semicolon) (decode s)).map parseEntry = _
  rw [pieces_decode isAscii_semicolon, List.map_map]
  rfl

/-- **What the web client reads** from a list that fits. -/
theorem users_handleList {t : Table} (hfit : (listText t).length ≤ 956) (pkt : ChatPacket)
    (chat : Chat) :
    (parsePacket (handleList t pkt).toBytes).map
        (fun p => (handlePacket chat p).users.map User.bytes) =
      some ((pieces semicolon (listText t)).map fun e => (parseEntry (decode e)).bytes) := by
  obtain ⟨len, sender, target, hparsed⟩ := parsed_handleList hfit pkt
  rw [hparsed, Option.map_some, users_handlePacket rfl]
  simp only
  rw [parseUsers_decode, List.map_map]
  rfl

/-- The name of an entry ends at the first `,`. -/
theorem name_parseEntry (e : List UInt8) :
    (parseEntry (decode e)).name = decode (e.takeWhile (· != comma)) := by
  have hsplit : (decode e).splitOn ',' = (e.splitOn comma).map decode :=
    splitOn_decode isAscii_comma e
  have hname (rest : List (List UInt8)) (n : List UInt8)
      (h : e.splitOn comma = n :: rest) : (parseEntry (decode e)).name = decode n := by
    unfold parseEntry
    rw [hsplit, h]
    rcases rest with - | ⟨status, rest⟩ <;> rfl
  by_cases hmem : comma ∈ e
  · obtain ⟨n, rest, rfl, hn⟩ := List.eq_append_cons_of_mem hmem
    rw [hname _ n (List.splitOn_append_cons_self_of_not_mem hn rest), takeWhile_append_cons hn]
  · rw [hname _ e (List.splitOn_eq_singleton hmem), takeWhile_of_notMem hmem]

/-- What the web client reads from an entry without further `,`. -/
theorem parseEntry_decode {r : Cliente} (hname : comma ∉ r.username.str)
    (hstatus : comma ∉ r.status.str) (hne : r.status.str ≠ []) :
    parseEntry (decode (listEntry r)) = ⟨decode r.username.str, decode r.status.str⟩ := by
  have hentry : (decode (listEntry r)).splitOn ',' =
      [decode r.username.str, decode r.status.str] := by
    show (decode (listEntry r)).splitOn (ascii comma) = _
    rw [splitOn_decode isAscii_comma, listEntry_eq,
      List.splitOn_append_cons_self_of_not_mem hname, List.splitOn_eq_singleton hstatus]
    rfl
  have hdecode : decode r.status.str ≠ [] := mt decode_eq_nil_iff.mp hne
  unfold parseEntry
  rw [hentry]
  simp only [if_neg hdecode]

/-- An entry the web client reads back. -/
theorem parseEntry_listEntry {r : Cliente} (h : r.Listable) :
    (parseEntry (decode (listEntry r))).bytes = (r.username.str, r.status.str) := by
  rw [parseEntry_decode h.username.comma h.status.comma h.nonempty, User.bytes]
  simp only
  rw [h.username.valid, h.status.valid]

theorem plain_encode {cs : List Char} (hcomma : ',' ∉ cs) (hsemicolon : ';' ∉ cs) :
    Plain (encode cs) where
  comma := mt (mem_encode_iff isAscii_comma cs).mp hcomma
  semicolon := mt (mem_encode_iff isAscii_semicolon cs).mp hsemicolon
  valid := valid_encode cs

/-- What the web client reads from an entry is plain, and its status is not
empty. -/
theorem plain_parseEntry {e : List Char} (h : ';' ∉ e) :
    Plain (parseEntry e).bytes.1 ∧ Plain (parseEntry e).bytes.2 ∧ (parseEntry e).bytes.2 ≠ [] := by
  have hpart {p : List Char} (hp : p ∈ e.splitOn ',') : Plain (encode p) := by
    have hmem := mem_of_mem_splitOn hp
    exact plain_encode (fun hc => (hmem _ hc).2 rfl) fun hc => h (hmem _ hc).1
  have hactive : Plain (encode Text.active) := plain_encode (by decide) (by decide)
  have hnonempty : encode Text.active ≠ [] := by decide
  unfold parseEntry User.bytes
  split
  · case h_1 name status rest hsplit =>
    rw [hsplit] at hpart
    refine ⟨hpart List.mem_cons_self, ?_⟩
    split
    · exact ⟨hactive, hnonempty⟩
    · case isFalse hstatus =>
      exact ⟨hpart (List.mem_cons_of_mem _ List.mem_cons_self), mt encode_eq_nil_iff.mp hstatus⟩
  · case h_2 name hsplit =>
    rw [hsplit] at hpart
    exact ⟨hpart List.mem_cons_self, hactive, hnonempty⟩
  · exact ⟨plain_encode List.not_mem_nil List.not_mem_nil, hactive, hnonempty⟩

/-! ### Both -/

/-- **Reading a list back**, from any table that keeps the representation. -/
theorem read_list_iff {t : Table} (ht : t.Ok) (hfit : (listText t).length ≤ 956)
    (pkt : ChatPacket) :
    ListRead t (handleList t pkt) ↔ ∀ i r, t.Active i r → r.Listable := by
  have hused {i : ℕ} {r : Cliente} (hr : t.Active i r) : r ∈ t.used.filter (·.activo) :=
    List.mem_filter.mpr ⟨List.mem_of_getElem? (ht.mem_used hr), hr.2⟩
  constructor
  · intro h i r hr
    have hweb := h.web (inChat [])
    rw [users_handleList hfit, Option.some.injEq] at hweb
    -- some entry is read as the record
    have hmem : (r.username.str, r.status.str) ∈ t.pairs := List.mem_map.mpr ⟨r, hused hr, rfl⟩
    rw [← hweb] at hmem
    obtain ⟨e, he, heq⟩ := List.mem_map.mp hmem
    have hsemicolon : ';' ∉ decode e :=
      mt (mem_decode_iff isAscii_semicolon e).mp (notMem_of_mem_pieces he)
    obtain ⟨husername, hstatus, hne⟩ := plain_parseEntry hsemicolon
    rw [heq] at husername hstatus hne
    exact ⟨husername, hstatus, hne⟩
  · intro h
    have hpieces := pieces_listText fun i r hr =>
      ⟨(h i r hr).username.semicolon, (h i r hr).status.semicolon⟩
    constructor
    · intro garbage
      rw [printed_handleList hfit, hpieces, Table.pairs, List.map_map, List.map_map]
      refine List.map_congr_left fun r hr => ?_
      obtain ⟨i, hi⟩ := active_of_mem_used hr
      show Line.user (cutAtComma (listEntry r)).1 (cutAtComma (listEntry r)).2 = _
      rw [cutAtComma_listEntry (h i r hi).username.comma]
      rfl
    · intro chat
      rw [users_handleList hfit, hpieces, Table.pairs, List.map_map]
      congr 1
      refine List.map_congr_left fun r hr => ?_
      obtain ⟨i, hi⟩ := active_of_mem_used hr
      exact parseEntry_listEntry (h i r hi)

/-- **The round trip of the user list.**  On every reachable table whose list
fits the payload, both clients read the names and statuses of the active
records back, in slot order, exactly when every active record is listable. -/
theorem listRead_iff {t : Table} (h : Reachable tableStep clInit t)
    (hfit : (listText t).length ≤ 956) (pkt : ChatPacket) :
    ListRead t (handleList t pkt) ↔ ∀ i r, t.Active i r → r.Listable :=
  read_list_iff (ok_of_reachable h) hfit pkt

/-- One user joins. -/
def joinsAs (username : List UInt8) : List TableOp := [.add username (ip 1) 4 0]

theorem exec_joinsAs_alice : (exec tableStep clInit (joinsAs alice)).any (fun t =>
    t.numClientes == 1 && decide ((listText t).length ≤ 956)) = true := by
  decide

theorem listRead_alice : ∃ t, Reachable tableStep clInit t ∧ t.numClientes = 1 ∧
    (listText t).length ≤ 956 ∧
    (ListRead t (handleList t .zero) ↔ ∀ i r, t.Active i r → r.Listable) := by
  obtain ⟨t, ht, hp⟩ := exists_reachable_of_exec exec_joinsAs_alice
  obtain ⟨hnum, hfit⟩ := Bool.and_eq_true_iff.mp hp
  have hfit := of_decide_eq_true hfit
  exact ⟨t, ht, by simpa using hnum, hfit, listRead_iff ht hfit .zero⟩

theorem exec_joinsAs_comma : (exec tableStep clInit (joinsAs (utf8 "a,b"))).any (fun t =>
    decide ((listText t).length ≤ 956) && (t.at 0).activo &&
      decide (0 < t.numClientes) && decide (comma ∈ (t.at 0).username.str)) = true := by
  decide

/-- **A user named `a,b`** is shown as `a`. -/
theorem not_always_listRead : ¬ ∀ t, Reachable tableStep clInit t →
    (listText t).length ≤ 956 → ∀ pkt, ListRead t (handleList t pkt) := by
  intro hall
  obtain ⟨t, ht, hp⟩ := exists_reachable_of_exec exec_joinsAs_comma
  simp only [Bool.and_eq_true, decide_eq_true_eq] at hp
  obtain ⟨⟨⟨hfit, hact⟩, hnum⟩, hcomma⟩ := hp
  have hok := ok_of_reachable ht
  have hlist := (read_list_iff hok hfit .zero).mp (hall t ht hfit .zero)
  exact (hlist 0 _ (hok.active_at hnum hact)).username.comma hcomma

end ChatSystem
