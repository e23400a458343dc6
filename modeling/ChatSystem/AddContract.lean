/-
ChatSystem/AddContract.lean

The contract `client_list.h` states for `cl_add` — 0 on success, -1 if the
name or the IP is taken, -2 if the table is full — over every table that a
sequence of `cl_add`, `cl_remove`, `cl_set_status`, `cl_touch` and monitor
sweeps can produce.

The "full" test of the source reads `num_clientes`, which counts the slots
ever used; the search for a freed slot further down is not reached once that
mark is at `MAX_CLIENTS`.  So the contract is kept exactly while the mark is
below `MAX_CLIENTS` or no slot has been freed.
-/
import ChatSystem.Lts
import ChatSystem.TableSpec

namespace ChatSystem

open CStr Lts

/-- A call that works on the table, with its arguments and clock reading. -/
inductive TableOp
  | add (username ip : List UInt8) (sockfd now : ℤ)
  | remove (sockfd : ℤ)
  | setStatus (username newStatus : List UInt8)
  | touch (sockfd now : ℤ)
  | sweep (now : ℤ)

/-- The table after the call. -/
def TableOp.apply (t : Table) : TableOp → Table
  | add username ip sockfd now => (clAdd t username ip sockfd now).2
  | remove sockfd => (clRemove t sockfd).2
  | setStatus username newStatus => (clSetStatus t username newStatus).2
  | touch sockfd now => (clTouch t sockfd now).2
  | sweep now => ChatSystem.sweep now t

/-- Tables under calls, as a transition system: every call is enabled. -/
def tableStep (t : Table) (op : TableOp) : Option Table := some (op.apply t)

theorem TableOp.apply_ok {t : Table} (ht : t.Ok) (op : TableOp) : (op.apply t).Ok := by
  cases op with
  | add username ip sockfd now => exact clAdd_ok ht _ _ _ _
  | remove sockfd => exact clRemove_ok ht _
  | setStatus username newStatus => exact clSetStatus_ok ht _ _
  | touch sockfd now => exact clTouch_ok ht _ _
  | sweep now => exact sweep_ok now ht

/-- **The representation invariant holds after every sequence of calls.** -/
theorem ok_of_reachable {t : Table} (h : Reachable tableStep clInit t) : t.Ok := by
  refine h.invariant clInit_ok fun t op t' ht hs => ?_
  obtain rfl : op.apply t = t' := Option.some.inj hs
  exact op.apply_ok ht

/-! ### Counting active records -/

/-- The number of active records. -/
def activeCount (t : Table) : ℕ := t.lista.countP fun r => r.activo

/-- Active records lie below the high-water mark. -/
theorem activeCount_le {t : Table} (ht : t.Ok) : activeCount t ≤ t.numClientes := by
  -- no record is active at or above the mark
  have hdrop : (t.lista.drop t.numClientes).countP (fun r => r.activo) = 0 := by
    refine List.countP_eq_zero.mpr fun r hr hact => ?_
    obtain ⟨k, hk⟩ := List.mem_iff_getElem?.mp hr
    rw [List.getElem?_drop] at hk
    have := ht.above ⟨hk, hact⟩
    omega
  have htake := List.countP_le_length (p := fun r : Cliente => r.activo)
    (l := t.lista.take t.numClientes)
  calc activeCount t
      = (t.lista.take t.numClientes ++ t.lista.drop t.numClientes).countP
          (fun r => r.activo) := by rw [List.take_append_drop, activeCount]
    _ = (t.lista.take t.numClientes).countP (fun r => r.activo) := by
          rw [List.countP_append, hdrop, Nat.add_zero]
    _ ≤ t.numClientes := by
          rw [List.length_take] at htake
          omega

/-! ### The contract -/

/-- What the contract asks of one call: 0 exactly when the name and the IP
are free and fewer than `MAX_CLIENTS` records are active, -2 only when all
are, and an untouched table whenever the code is not 0. -/
def AddContract (t : Table) (username ip : List UInt8) (sockfd now : ℤ) : Prop :=
  ((clAdd t username ip sockfd now).1 = 0 ↔
    (∀ i r, t.Active i r → r.username.str ≠ cstr username) ∧
    (∀ i r, t.Active i r → r.ip.str ≠ cstr ip) ∧ activeCount t < maxClients) ∧
  ((clAdd t username ip sockfd now).1 = -2 → activeCount t = maxClients) ∧
  ((clAdd t username ip sockfd now).1 ≠ 0 → (clAdd t username ip sockfd now).2 = t)

/-- **When the contract is kept.**  On every reachable table a call meets
the contract if and only if the high-water mark is below `MAX_CLIENTS` or
every record is active. -/
theorem addContract_iff {t : Table} (h : Reachable tableStep clInit t)
    (username ip : List UInt8) (sockfd now : ℤ) :
    AddContract t username ip sockfd now ↔
      t.numClientes < maxClients ∨ activeCount t = maxClients := by
  have ht := ok_of_reachable h
  have hcount := activeCount_le ht
  unfold AddContract
  rcases clAdd_cases t username ip sockfd now with
    ⟨hres, hfull⟩ | ⟨hres, hnum, hdup⟩ | ⟨hres, hnum, hdup⟩
  · -- the mark is at `MAX_CLIENTS`: refused, whatever the records are
    rw [hres]
    constructor
    · rintro ⟨-, hcode, -⟩
      exact .inr (hcode rfl)
    · intro hor
      have hall : activeCount t = maxClients := by
        rcases hor with hlt | hall
        · omega
        · exact hall
      refine ⟨⟨fun h0 => absurd h0 (by simp), fun h0 => ?_⟩, fun _ => hall, fun _ => rfl⟩
      have := h0.2.2
      omega
  · -- refused as a duplicate
    rw [hres]
    obtain ⟨i, r, hr, hor⟩ := duplicate_eq_true hdup
    refine ⟨fun _ => .inl hnum, fun _ => ⟨⟨fun h0 => absurd h0 (by simp), fun h0 => ?_⟩,
      fun h0 => absurd h0 (by simp), fun _ => rfl⟩⟩
    rcases hor with hname | hip
    · exact absurd hname (h0.1 i r hr)
    · exact absurd hip (h0.2.1 i r hr)
  · -- accepted
    rw [hres]
    refine ⟨fun _ => .inl hnum, fun _ => ⟨⟨fun _ => ⟨fun i r hr => ?_, fun i r hr => ?_, ?_⟩,
      fun _ => rfl⟩, fun h0 => absurd h0 (by simp), fun h0 => absurd rfl h0⟩⟩
    · exact (duplicate_eq_false ht hdup hr).1
    · exact (duplicate_eq_false ht hdup hr).2
    · omega

/-! ### Where it is broken -/

/-- The two digits of `k`. -/
def nthDigits (k : ℕ) : List UInt8 := [UInt8.ofNat (48 + k / 10), UInt8.ofNat (48 + k % 10)]

/-- The `k`-th of a hundred clients: user `ukk` from `10.0.0.1kk`. -/
def addNth (k : ℕ) : TableOp :=
  .add (utf8 "u" ++ nthDigits k) (utf8 "10.0.0.1" ++ nthDigits k) (4 + k) 0

/-- A hundred clients join, then the first one leaves. -/
def fullThenFreed : List TableOp := (List.range 100).map addNth ++ [.remove 4]

theorem toNat_digit {d : ℕ} (hd : d < 10) : (UInt8.ofNat (48 + d)).toNat = 48 + d :=
  UInt8.toNat_ofNat_of_lt (by
    rw [show UInt8.size = 256 from rfl]
    omega)

theorem nthDigits_inj {j k : ℕ} (hj : j < 100) (hk : k < 100) (h : nthDigits j = nthDigits k) :
    j = k := by
  simp only [nthDigits, List.cons.injEq, and_true] at h
  obtain ⟨htens, hones⟩ := h
  have htens' := congrArg UInt8.toNat htens
  have hones' := congrArg UInt8.toNat hones
  rw [toNat_digit (by omega), toNat_digit (by omega)] at htens' hones'
  omega

theorem zero_notMem_nthDigits {k : ℕ} (hk : k < 100) : (0 : UInt8) ∉ nthDigits k := by
  have hdigit {d : ℕ} (hd : d < 10) : (0 : UInt8) ≠ UInt8.ofNat (48 + d) := by
    intro h
    have hnat := congrArg UInt8.toNat h
    rw [toNat_digit hd, UInt8.toNat_zero] at hnat
    omega
  simp only [nthDigits, List.mem_cons, List.not_mem_nil, or_false, not_or]
  exact ⟨hdigit (by omega), hdigit (by omega)⟩

/-- The record of the `k`-th client. -/
def nthCliente (k : ℕ) : Cliente :=
  newCliente (utf8 "u" ++ nthDigits k) (utf8 "10.0.0.1" ++ nthDigits k) (4 + k) 0

/-- The table after `n` of them. -/
def filled (n : ℕ) : Table :=
  ⟨(List.range n).map nthCliente ++ List.replicate (maxClients - n) .zero, n⟩

theorem used_filled (n : ℕ) : (filled n).used = (List.range n).map nthCliente := by
  simp [filled, Table.used]

theorem nthCliente_differs {j k : ℕ} (hj : j < 100) (hk : k < 100) (hne : j ≠ k) :
    strEq (nthCliente j).username.bytes (utf8 "u" ++ nthDigits k) = false ∧
      strEq (nthCliente j).ip.bytes (utf8 "10.0.0.1" ++ nthDigits k) = false := by
  have hcstr {p : List UInt8} {i : ℕ} (hp : (0 : UInt8) ∉ p) (hi : i < 100) :
      cstr (p ++ nthDigits i) = p ++ nthDigits i := by
    refine cstr_eq_self fun h => ?_
    rcases List.mem_append.mp h with h | h
    · exact hp h
    · exact zero_notMem_nthDigits hi h
  have hdigits : nthDigits j ≠ nthDigits k := fun h => hne (nthDigits_inj hj hk h)
  have hname : (nthCliente j).username.str = utf8 "u" ++ nthDigits j := by
    rw [nthCliente, str_username_newCliente, hcstr (by decide) hj]
    rfl
  have hip : (nthCliente j).ip.str = utf8 "10.0.0.1" ++ nthDigits j := by
    rw [nthCliente, str_ip_newCliente, hcstr (by decide) hj]
    rfl
  rw [← Bool.not_eq_true, ← Bool.not_eq_true, strEq_iff, strEq_iff, hcstr (by decide) hk,
    hcstr (by decide) hk]
  refine ⟨fun h => ?_, fun h => ?_⟩
  · exact hdigits (List.append_cancel_left (hname.symm.trans h))
  · exact hdigits (List.append_cancel_left (hip.symm.trans h))

/-- The next client takes the next slot. -/
theorem apply_addNth {n : ℕ} (hn : n < 100) : (addNth n).apply (filled n) = filled (n + 1) := by
  have hdup : duplicate (filled n) (utf8 "u" ++ nthDigits n)
      (utf8 "10.0.0.1" ++ nthDigits n) = false := by
    rw [duplicate, used_filled, List.any_eq_false]
    intro r hr
    obtain ⟨k, hk, rfl⟩ := List.mem_map.mp hr
    have hkn := List.mem_range.mp hk
    obtain ⟨hname, hip⟩ := nthCliente_differs (by omega) hn hkn.ne
    simp [hname, hip]
  have hfree : freeSlot (filled n) = none := by
    rw [freeSlot, used_filled, List.findIdx?_eq_none_iff]
    intro r hr
    obtain ⟨k, -, rfl⟩ := List.mem_map.mp hr
    rfl
  show (clAdd (filled n) (utf8 "u" ++ nthDigits n) (utf8 "10.0.0.1" ++ nthDigits n) (4 + n) 0).2 = _
  have hroom : ¬ (filled n).numClientes ≥ maxClients := Nat.not_le.mpr hn
  have hzeros : maxClients - n = (maxClients - (n + 1)) + 1 := by
    rw [show maxClients = 100 from rfl]
    omega
  rw [clAdd, if_neg hroom, hdup, hfree]
  show Table.mk ((filled n).lista.set n (nthCliente n)) (n + 1) = _
  rw [filled, filled, List.range_succ, List.map_append, List.set_append_right _ _ (by simp),
    List.length_map, List.length_range, Nat.sub_self, hzeros, List.replicate_succ,
    List.set_cons_zero, List.append_assoc]
  rfl

theorem exec_addNth {n : ℕ} (hn : n ≤ 100) :
    exec tableStep clInit ((List.range n).map addNth) = some (filled n) := by
  induction n with
  | zero => rfl
  | succ n ih =>
    rw [List.range_succ, List.map_append, exec_append, ih (by omega), Option.bind_some,
      List.map_singleton, exec, tableStep, Option.bind_some, apply_addNth (by omega)]
    rfl

/-- Replayed: 99 records are active, and the next client is refused. -/
theorem exec_fullThenFreed :
    (exec tableStep clInit fullThenFreed).any (fun t =>
      activeCount t == 99 &&
        (clAdd t (utf8 "ana") (utf8 "10.0.0.2") 4 0).1 == -2) = true := by
  rw [fullThenFreed, exec_append, exec_addNth le_rfl]
  decide +kernel

theorem addContract_iff_fullThenFreed : ∃ t, Reachable tableStep clInit t ∧ activeCount t = 99 ∧
    (clAdd t (utf8 "ana") (utf8 "10.0.0.2") 4 0).1 = -2 ∧
    (AddContract t (utf8 "ana") (utf8 "10.0.0.2") 4 0 ↔
      t.numClientes < maxClients ∨ activeCount t = maxClients) := by
  obtain ⟨t, ht, hcheck⟩ := exists_reachable_of_exec exec_fullThenFreed
  simp only [Bool.and_eq_true, beq_iff_eq] at hcheck
  exact ⟨t, ht, hcheck.1, hcheck.2, addContract_iff ht _ _ _ _⟩

/-- The contract is not kept on every reachable table. -/
theorem not_forall_addContract :
    ¬ ∀ t, Reachable tableStep clInit t → ∀ username ip : List UInt8, ∀ sockfd now : ℤ,
      (cstr username).length ≤ 31 → AddContract t username ip sockfd now := by
  intro hall
  obtain ⟨t, ht, hcheck⟩ := exists_reachable_of_exec exec_fullThenFreed
  obtain ⟨hcount, hcode⟩ := Bool.and_eq_true_iff.mp hcheck
  have h := hall t ht (utf8 "ana") (utf8 "10.0.0.2") 4 0 (by decide)
  have hfull := h.2.1 (by simpa using hcode)
  have h99 : activeCount t = 99 := by simpa using hcount
  rw [h99] at hfull
  exact absurd hfull (by decide)

end ChatSystem
