/-
ChatSystem/Streams.lean

Packets in a byte stream, read and written in whatever pieces the sockets
give or take.

* `recvLoop` — the loop of `recv_packet` and `net_recv`: it asks for what is
  missing until the packet is full;
* `drain`, `onData` — the data handler of the bridge: it adds what comes to a
  buffer and cuts packets off its front;
* `sendLoop` — the loop of `send_packet` and `net_send`.

TCP may cut the stream anywhere (`chunks`, each of them not empty).  Both
readers see the blocks of 1024 bytes of the stream and nothing else
(`reads_iff`, `handed_eq`), the server the packets these are (`packetsOf`).
-/
import ChatSystem.Blocks
import ChatSystem.Protocol

namespace ChatSystem

open Blocks

/-! ### `recv_packet` and `net_recv` -/

/-- `recv(fd, buf, len, 0)` on a stream that comes in chunks: what is read and
what is left.  At the end of the stream nothing is read. -/
def recv (len : ℕ) : List (List UInt8) → List UInt8 × List (List UInt8)
  | [] => ([], [])
  | c :: cs => (c.take len, if c.length ≤ len then cs else c.drop len :: cs)

/-- `while (total < sizeof(ChatPacket))`, `buf` being what has been read. -/
def recvLoop (buf : List UInt8) (chunks : List (List UInt8)) :
    Option (List UInt8 × List (List UInt8)) :=
  if buf.length < 1024 then
    match recv (1024 - buf.length) chunks with
    -- `n <= 0`
    | ([], _) => none
    | (b :: bs, rest) => recvLoop (buf ++ b :: bs) rest
  else some (buf, chunks)
termination_by 1024 - buf.length
decreasing_by
  rw [List.length_append, List.length_cons]
  omega

/-- `recv_packet`: the bytes of the packet and the rest of the stream. -/
def recvPacket (chunks : List (List UInt8)) : Option (List UInt8 × List (List UInt8)) :=
  recvLoop [] chunks

/-- `net_recv`. -/
def netRecv (chunks : List (List UInt8)) : Option (List UInt8 × List (List UInt8)) :=
  recvLoop [] chunks

/-- Called again and again until it fails, `f` reads these packets. -/
inductive Reads (f : List (List UInt8) → Option (List UInt8 × List (List UInt8))) :
    List (List UInt8) → List (List UInt8) → Prop
  | failed {chunks} (h : f chunks = none) : Reads f chunks []
  | packet {chunks pkt rest pkts} (h : f chunks = some (pkt, rest)) (hrest : Reads f rest pkts) :
      Reads f chunks (pkt :: pkts)

theorem Reads.unique {f : List (List UInt8) → Option (List UInt8 × List (List UInt8))}
    {chunks pkts pkts' : List (List UInt8)} (h : Reads f chunks pkts)
    (h' : Reads f chunks pkts') : pkts = pkts' := by
  induction h generalizing pkts' with
  | failed hnone =>
    cases h' with
    | failed => rfl
    | packet hsome => rw [hnone] at hsome; cases hsome
  | packet hsome _ ih =>
    cases h' with
    | failed hnone => rw [hnone] at hsome; cases hsome
    | packet hsome' hrest' =>
      rw [hsome] at hsome'
      cases hsome'
      rw [ih hrest']

/-- No chunk is empty. -/
def Chunked (chunks : List (List UInt8)) : Prop := ∀ c ∈ chunks, c ≠ []

theorem Chunked.tail {c : List UInt8} {cs : List (List UInt8)} (h : Chunked (c :: cs)) :
    Chunked cs :=
  fun c' hc' => h c' (List.mem_cons_of_mem _ hc')

/-- **What `recv` does**: it takes bytes off the front, some unless the stream
has ended. -/
theorem recv_spec {len : ℕ} (hlen : 0 < len) {chunks : List (List UInt8)}
    (h : Chunked chunks) :
    (recv len chunks).1 ++ (recv len chunks).2.flatten = chunks.flatten ∧
      (recv len chunks).1.length ≤ len ∧ Chunked (recv len chunks).2 ∧
      ((recv len chunks).1 = [] → chunks = []) := by
  cases chunks with
  | nil => exact ⟨rfl, Nat.zero_le _, h, fun _ => rfl⟩
  | cons c cs =>
    have hc : c ≠ [] := h c List.mem_cons_self
    -- a chunk has bytes, so nothing is read only at the end of the stream
    have hread : c.take len = [] → False := by
      intro hnil
      rcases List.take_eq_nil_iff.mp hnil with hzero | hnil
      · omega
      · exact hc hnil
    refine ⟨?_, List.length_take_le _ _, ?_, fun hnil => (hread hnil).elim⟩
    · show c.take len ++ (if c.length ≤ len then cs else c.drop len :: cs).flatten = _
      split
      · case isTrue hle => rw [List.take_of_length_le hle, List.flatten_cons]
      · rw [List.flatten_cons, List.flatten_cons, ← List.append_assoc, List.take_append_drop]
    · -- what is left of a chunk is not empty
      show Chunked (if c.length ≤ len then cs else c.drop len :: cs)
      split
      · exact h.tail
      · case isFalse hlt =>
        intro c' hc'
        rcases List.mem_cons.mp hc' with rfl | hc'
        · intro hnil
          exact hlt (List.drop_eq_nil_iff.mp hnil)
        · exact h.tail c' hc'

/-- **What the loop reads.**  As soon as the stream has the bytes that are
missing they are read, in order, and nothing behind them; otherwise the loop
fails. -/
theorem recvLoop_spec {buf : List UInt8} {chunks : List (List UInt8)} (h : Chunked chunks)
    (hbuf : buf.length ≤ 1024) :
    (1024 ≤ (buf ++ chunks.flatten).length → ∃ rest, Chunked rest ∧
      recvLoop buf chunks = some ((buf ++ chunks.flatten).take 1024, rest) ∧
      rest.flatten = (buf ++ chunks.flatten).drop 1024) ∧
    ((buf ++ chunks.flatten).length < 1024 → recvLoop buf chunks = none) := by
  fun_induction recvLoop buf chunks with
  | case1 buf chunks hlt x heq =>
    -- the stream has ended
    obtain ⟨-, -, -, hend⟩ := recv_spec (Nat.sub_pos_of_lt hlt) h
    obtain rfl := hend (by rw [heq])
    refine ⟨fun hge => ?_, fun _ => rfl⟩
    simp at hge
    omega
  | case2 buf chunks hlt b bs rest heq ih =>
    obtain ⟨hflat, hle, hrest, -⟩ := recv_spec (Nat.sub_pos_of_lt hlt) h
    rw [heq] at hflat hle hrest
    have hsame : buf ++ chunks.flatten = (buf ++ b :: bs) ++ rest.flatten := by
      rw [← hflat, List.append_assoc]
    rw [hsame]
    refine ih hrest ?_
    rw [List.length_append]
    simp only at hle
    omega
  | case3 buf chunks hge =>
    have hfull : buf.length = 1024 := by omega
    refine ⟨fun _ => ⟨chunks, h, ?_, ?_⟩, fun hlt => ?_⟩
    · rw [List.take_left' hfull]
    · rw [List.drop_left' hfull]
    · rw [List.length_append] at hlt
      omega

/-- **Repeated reads deliver the blocks of the stream.** -/
theorem reads_iff {chunks : List (List UInt8)} (h : Chunked chunks) (pkts : List (List UInt8)) :
    Reads (recvLoop []) chunks pkts ↔ pkts = blocks 1024 chunks.flatten := by
  suffices hreads : Reads (recvLoop []) chunks (blocks 1024 chunks.flatten) by
    constructor
    · intro hpkts
      exact hpkts.unique hreads
    · rintro rfl
      exact hreads
  induction hn : chunks.flatten.length using Nat.strongRecOn generalizing chunks with
  | _ n ih =>
    obtain ⟨hfull, hshort⟩ := @recvLoop_spec [] chunks h (Nat.zero_le _)
    rw [List.nil_append] at hfull hshort
    rcases Nat.lt_or_ge chunks.flatten.length 1024 with hlt | hge
    · rw [blocks_of_lt hlt]
      exact .failed (hshort hlt)
    · obtain ⟨rest, hchunked, hsome, hrest⟩ := hfull hge
      have hless : rest.flatten.length < n := by
        rw [hrest, List.length_drop]
        omega
      rw [blocks_eq_cons (by decide) hge, ← hrest]
      exact .packet hsome (ih _ hless hchunked rfl)

/-! ### Packets of a stream -/

/-- The packet behind a prefix. -/
theorem prefix_concat {α : Type*} {xs ys : List α} {x : α} (h : xs <+: ys)
    (hx : ys[xs.length]? = some x) : xs ++ [x] <+: ys := by
  obtain ⟨rest, rfl⟩ := h
  rw [List.getElem?_append_right (Nat.le_refl _), Nat.sub_self] at hx
  rcases rest with - | ⟨y, rest⟩
  · cases hx
  · obtain rfl : y = x := Option.some.inj hx
    exact ⟨rest, by simp⟩

/-- 1024 bytes as the packet they are. -/
def asPacket (bytes : List UInt8) : Option ChatPacket :=
  if h : bytes.length = 1024 then some (.ofBytes ⟨bytes, h⟩) else none

/-- What repeated calls of `recv_packet` or `net_recv` return. -/
def packetsOf (stream : List UInt8) : List ChatPacket := (blocks 1024 stream).filterMap asPacket

theorem asPacket_toBytes (pkt : ChatPacket) : asPacket pkt.toBytes = some pkt := by
  rw [asPacket, dif_pos pkt.length_toBytes, ChatPacket.ofBytes_toBytes]

/-- Whole packets and a part of one more. -/
theorem blocks_packets (pkts : List ChatPacket) {part : List UInt8} (h : part.length < 1024) :
    blocks 1024 (pkts.flatMap ChatPacket.toBytes ++ part) = pkts.map ChatPacket.toBytes := by
  have hlen : ∀ b ∈ pkts.map ChatPacket.toBytes, b.length = 1024 := by
    intro b hb
    obtain ⟨pkt, -, rfl⟩ := List.mem_map.mp hb
    exact pkt.length_toBytes
  rw [List.flatMap_def, blocks_append (by decide) hlen, blocks_of_lt h, List.append_nil]

theorem packetsOf_append (pkts : List ChatPacket) {part : List UInt8} (h : part.length < 1024) :
    packetsOf (pkts.flatMap ChatPacket.toBytes ++ part) = pkts := by
  rw [packetsOf, blocks_packets pkts h, List.filterMap_map]
  have hid : asPacket ∘ ChatPacket.toBytes = some := funext asPacket_toBytes
  rw [hid, List.filterMap_some]

/-- What was read stays read when more bytes come. -/
theorem packetsOf_grow (stream more : List UInt8) :
    packetsOf stream <+: packetsOf (stream ++ more) :=
  (blocks_grow (by decide) stream more).filterMap asPacket

/-! ### The data handler of the bridge -/

/-- `while (tcpBuffer.length >= 1024)`: the packets cut off and what stays. -/
def drain (tcpBuffer : List UInt8) : List (List UInt8) × List UInt8 :=
  if 1024 ≤ tcpBuffer.length then
    let rest := drain (tcpBuffer.drop 1024)
    (tcpBuffer.take 1024 :: rest.1, rest.2)
  else ([], tcpBuffer)
termination_by tcpBuffer.length
decreasing_by
  rw [List.length_drop]
  omega

/-- `tcp.on("data", …)`: the packets handed to `parsePacket` and the buffer
after the event. -/
def onData (tcpBuffer data : List UInt8) : List (List UInt8) × List UInt8 :=
  drain (tcpBuffer ++ data)

/-- The packets handed to `parsePacket` over a sequence of events. -/
def handed : List UInt8 → List (List UInt8) → List (List UInt8)
  | _, [] => []
  | tcpBuffer, data :: events =>
    (onData tcpBuffer data).1 ++ handed (onData tcpBuffer data).2 events

theorem drain_spec (buf : List UInt8) :
    (drain buf).1 = blocks 1024 buf ∧ (drain buf).2.length < 1024 ∧
      (∀ b ∈ (drain buf).1, b.length = 1024) ∧ (drain buf).1.flatten ++ (drain buf).2 = buf := by
  fun_induction drain buf with
  | case1 buf hge rest ih =>
    obtain ⟨hblocks, hshort, hlen, hflat⟩ := ih
    refine ⟨?_, hshort, ?_, ?_⟩
    · rw [blocks_eq_cons (by decide) hge, ← hblocks]
    · intro b hb
      rcases List.mem_cons.mp hb with rfl | hb
      · exact List.length_take_of_le hge
      · exact hlen b hb
    · show (buf.take 1024 ++ rest.1.flatten) ++ rest.2 = buf
      rw [List.append_assoc, hflat, List.take_append_drop]
  | case2 buf hlt =>
    refine ⟨?_, Nat.lt_of_not_le hlt, by simp, rfl⟩
    rw [blocks_of_lt (Nat.lt_of_not_le hlt)]

/-- **The handler hands over the blocks of the stream**, whatever was left in
its buffer. -/
theorem handed_eq (buf : List UInt8) (hbuf : buf.length < 1024) (events : List (List UInt8)) :
    handed buf events = blocks 1024 (buf ++ events.flatten) := by
  induction events generalizing buf with
  | nil =>
    rw [List.flatten_nil, List.append_nil, blocks_of_lt hbuf]
    rfl
  | cons data events ih =>
    obtain ⟨-, hshort, hlen, hflat⟩ := drain_spec (buf ++ data)
    show (drain (buf ++ data)).1 ++ handed (drain (buf ++ data)).2 events = _
    rw [ih _ hshort, List.flatten_cons, ← List.append_assoc buf, ← hflat, List.append_assoc,
      blocks_append (by decide) hlen, hflat]

/-! ### `send_packet` and `net_send` -/

/-- The loop, `total` bytes being sent: `send` says what the `i`-th call
returns when it is given `len` bytes.  The return code, and the bytes
written from there on. -/
def sendLoop (send : ℕ → ℕ → ℤ) (buf : List UInt8) (i total : ℕ) : ℤ × List UInt8 :=
  if total < 1024 then
    let n := send i (1024 - total)
    if n ≤ 0 then (-1, [])
    else
      let rest := sendLoop send buf (i + 1) (total + n.toNat)
      (rest.1, (buf.drop total).take n.toNat ++ rest.2)
  else (0, [])
termination_by 1024 - total

/-- `send_packet`. -/
def sendPacket (send : ℕ → ℕ → ℤ) (pkt : ChatPacket) : ℤ × List UInt8 :=
  sendLoop send pkt.toBytes 0 0

/-- `net_send`. -/
def netSend (send : ℕ → ℕ → ℤ) (pkt : ChatPacket) : ℤ × List UInt8 :=
  sendLoop send pkt.toBytes 0 0

/-- `send` takes at least one byte, and no more than it is given. -/
def Accepts (send : ℕ → ℕ → ℤ) : Prop :=
  ∀ i len : ℕ, 0 < len → 1 ≤ send i len ∧ send i len ≤ len

/-- **The loop writes what is left of the packet.** -/
theorem sendLoop_eq {send : ℕ → ℕ → ℤ} (hsend : Accepts send) {buf : List UInt8}
    (hbuf : buf.length = 1024) (i total : ℕ) (htotal : total ≤ 1024) :
    sendLoop send buf i total = (0, buf.drop total) := by
  fun_induction sendLoop send buf i total with
  | case1 i total hlt n hn =>
    obtain ⟨hpos, -⟩ := hsend i (1024 - total) (by omega)
    omega
  | case2 i total hlt n hn rest ih =>
    obtain ⟨hpos, hle⟩ := hsend i (1024 - total) (by omega)
    have hsum : total + n.toNat ≤ 1024 := by omega
    have hrest : rest = (0, buf.drop (total + n.toNat)) := ih hsum
    rw [hrest, ← List.drop_drop, List.take_append_drop]
  | case3 i total hge =>
    rw [List.drop_eq_nil_of_le (by omega)]

/-- The bytes the first `i` calls of `send` have taken. -/
def taken (send : ℕ → ℕ → ℤ) : ℕ → ℕ
  | 0 => 0
  | i + 1 => taken send i + (send i (1024 - taken send i)).toNat

/-- No call fails while bytes are left. -/
def NeverFails (send : ℕ → ℕ → ℤ) : Prop :=
  ∀ i, taken send i < 1024 → 0 < send i (1024 - taken send i)

theorem taken_mono (send : ℕ → ℕ → ℤ) {i j : ℕ} (hij : i ≤ j) : taken send i ≤ taken send j := by
  induction hij with
  | refl => exact Nat.le_refl _
  | step _ ih => exact ih.trans (Nat.le_add_right _ _)

/-- From any call on, the rest of the packet is written exactly when no call
fails. -/
theorem sendLoop_complete_iff {send : ℕ → ℕ → ℤ} {buf : List UInt8} (hbuf : buf.length = 1024)
    {i total : ℕ} (htotal : total = taken send i) :
    (sendLoop send buf i total).2 = buf.drop total ↔
      ∀ j, i ≤ j → taken send j < 1024 → 0 < send j (1024 - taken send j) := by
  fun_induction sendLoop send buf i total with
  | case1 i total hlt n hn =>
    -- the call fails, and bytes are left
    subst htotal
    have hleft : buf.drop (taken send i) ≠ [] := by
      rw [Ne, List.drop_eq_nil_iff]
      omega
    constructor
    · intro h
      exact absurd h.symm hleft
    · intro h
      exact absurd (h i (Nat.le_refl i) hlt) (Int.not_lt.mpr hn)
  | case2 i total hlt n hn rest ih =>
    subst htotal
    have hsplit : (buf.drop (taken send i)).take n.toNat ++ buf.drop (taken send i + n.toNat) =
        buf.drop (taken send i) := by
      rw [← List.drop_drop, List.take_append_drop]
    have hrest : (buf.drop (taken send i)).take n.toNat ++ rest.2 = buf.drop (taken send i) ↔
        rest.2 = buf.drop (taken send i + n.toNat) := by
      nth_rewrite 2 [← hsplit]
      exact List.append_right_inj _
    refine (hrest.trans (ih rfl)).trans ⟨fun h j hij hj => ?_, fun h j hij => h j (by omega)⟩
    rcases Nat.eq_or_lt_of_le hij with rfl | hij
    · exact Int.not_le.mp hn
    · exact h j hij hj
  | case3 i total hge =>
    subst htotal
    rw [List.drop_eq_nil_of_le (by omega)]
    refine ⟨fun _ j hij hj => ?_, fun _ => rfl⟩
    have hmono := taken_mono send hij
    omega

/-- **A packet is written whole** exactly when no call of `send` fails. -/
theorem sendPacket_complete_iff {send : ℕ → ℕ → ℤ} {pkt : ChatPacket} :
    (sendPacket send pkt).2 = pkt.toBytes ↔ NeverFails send := by
  refine (sendLoop_complete_iff pkt.length_toBytes rfl).trans ?_
  exact ⟨fun h j => h j (Nat.zero_le j), fun h j _ => h j⟩

/-! ### Both sides of a connection -/

/-- **Reassembly.**  However the stream is cut into chunks, both readers of C
and the bridge see its blocks of 1024 bytes; however `send()` splits its
work, both writers write the bytes of the packet. -/
theorem reassembly {stream : List UInt8} {chunks : List (List UInt8)}
    (hstream : chunks.flatten = stream) (hchunks : Chunked chunks) :
    (∀ pkts, Reads recvPacket chunks pkts ↔ pkts = blocks 1024 stream) ∧
    (∀ pkts, Reads netRecv chunks pkts ↔ pkts = blocks 1024 stream) ∧
    handed [] chunks = blocks 1024 stream ∧
    ∀ send pkt, Accepts send →
      sendPacket send pkt = (0, pkt.toBytes) ∧ netSend send pkt = (0, pkt.toBytes) := by
  subst hstream
  refine ⟨reads_iff hchunks, reads_iff hchunks, handed_eq [] (by decide) chunks, ?_⟩
  intro send pkt hsend
  have hwrite : sendLoop send pkt.toBytes 0 0 = (0, pkt.toBytes) :=
    sendLoop_eq hsend pkt.length_toBytes 0 0 (Nat.zero_le _)
  exact ⟨hwrite, hwrite⟩

/-- A packet that comes in two pieces, with six bytes of the next; and one that
leaves byte by byte. -/
theorem reassembly_split :
    (∀ pkts, Reads recvPacket [List.replicate 1000 1, List.replicate 30 2] pkts ↔
      pkts = blocks 1024 (List.replicate 1000 1 ++ List.replicate 30 2)) ∧
    sendPacket (fun _ _ => 1) .zero = (0, ChatPacket.zero.toBytes) := by
  have hflat : [List.replicate 1000 1, List.replicate 30 2].flatten =
      List.replicate 1000 (1 : UInt8) ++ List.replicate 30 2 := by
    rw [List.flatten_cons, List.flatten_cons, List.flatten_nil, List.append_nil]
  have hchunks : Chunked [List.replicate 1000 1, List.replicate 30 2] := by
    intro c hc
    apply List.ne_nil_of_length_pos
    rcases List.mem_pair.mp hc with rfl | rfl <;> rw [List.length_replicate] <;> decide
  obtain ⟨hrecv, -, -, hsend⟩ := reassembly hflat hchunks
  have haccepts : Accepts fun _ _ => 1 := fun i len hlen =>
    ⟨Int.le_refl 1, Int.ofNat_le.mpr hlen⟩
  exact ⟨hrecv, (hsend _ .zero haccepts).1⟩

end ChatSystem
