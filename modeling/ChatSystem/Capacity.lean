/-
ChatSystem/Capacity.lean

How many users the server takes.  `num_clientes` only grows, and it grows only
when every slot below it is active: it is the largest number of records that
were ever active at the same time (`peak_of_run`).  `cl_add` compares it with
`MAX_CLIENTS` before it looks for a freed slot, so a `REGISTER` is refused as
"full" exactly when a hundred users were on at once at some earlier moment of
the run, whoever is still there — from that moment on, every one.
-/
import ChatSystem.AddContract
import ChatSystem.Replay

namespace ChatSystem

open CStr Lts

variable {t : Table} {w w' : World} {l : Label} {tr : List (World × Label)}

/-! ### Active records -/

/-- With no freed slot below the mark, every slot below it is active. -/
theorem activeCount_of_freeSlot (ht : t.Ok) (hfree : freeSlot t = none) :
    activeCount t = t.numClientes := by
  refine Nat.le_antisymm (activeCount_le ht) ?_
  have hall : t.used.countP (fun r => r.activo) = t.used.length :=
    List.countP_eq_length.mpr fun r hr => by
      simpa using List.findIdx?_eq_none_iff.mp hfree r hr
  have hlen : t.used.length = t.numClientes := by
    rw [Table.used, List.length_take, ht.size]
    exact Nat.min_eq_left ht.num_le
  calc t.numClientes = t.used.countP (fun r => r.activo) := by rw [hall, hlen]
    _ ≤ activeCount t := (List.take_sublist _ _).countP_le

/-- A new record raises the mark only if it makes the table fuller than ever. -/
theorem added_mark (ht : t.Ok) (hnum : t.numClientes < maxClients) (username ip : List UInt8)
    (fd now : ℤ) :
    let t' := added t (newCliente username ip fd now)
    t'.numClientes = t.numClientes ∨
      t'.numClientes = t.numClientes + 1 ∧ activeCount t' = t.numClientes + 1 := by
  rcases hfree : freeSlot t with - | slot
  · -- the slot after the last one
    have hslot : addSlot t = t.numClientes := by simp [addSlot, hfree]
    have hlt : t.numClientes < t.lista.length := by rw [ht.size]; exact hnum
    refine .inr ⟨by simp [added, hslot], ?_⟩
    have hoff : t.lista[t.numClientes].activo = false := by
      by_contra hact
      exact Nat.lt_irrefl _ (ht.above ⟨List.getElem?_eq_getElem hlt, by simpa using hact⟩)
    rw [← activeCount_of_freeSlot ht hfree]
    unfold activeCount added
    simp only
    rw [hslot, List.countP_set hlt, hoff]
    simp [newCliente]
  · refine .inl ?_
    have hslot : slot < t.numClientes := by
      obtain ⟨hl, -, -⟩ := List.findIdx?_eq_some_iff_getElem.mp hfree
      exact (getElem?_used.mp (List.getElem?_eq_getElem hl)).1
    simp only [added, addSlot, hfree, Option.getD_some]
    omega

/-! ### The mark is a peak -/

/-- `n` records are active at some moment of the run, and never more. -/
structure Peak (tr : List (World × Label)) (w : World) (n : ℕ) : Prop where
  never_more : StatesAll (fun s => activeCount s.table ≤ n) tr w
  reached : activeCount w.table = n ∨ ∃ x ∈ tr, activeCount x.1.table = n

/-- A step that leaves the mark. -/
theorem Peak.keep {n : ℕ} (h : Peak tr w n) (hle : activeCount w'.table ≤ n) :
    Peak ((w, l) :: tr) w' n where
  never_more := statesAll_cons.mpr ⟨hle, h.never_more⟩
  reached := by
    rcases h.reached with hnow | ⟨x, hx, hcount⟩
    · exact .inr ⟨_, List.mem_cons_self, hnow⟩
    · exact .inr ⟨x, List.mem_cons_of_mem _ hx, hcount⟩

/-- A step that raises it. -/
theorem Peak.raise {n : ℕ} (h : Peak tr w n) (hcount : activeCount w'.table = n + 1) :
    Peak ((w, l) :: tr) w' (n + 1) where
  never_more := statesAll_cons.mpr ⟨hcount.le, h.never_more.mono fun _ hle => Nat.le_succ_of_le hle⟩
  reached := .inl hcount

/-- **`num_clientes` is the largest number of users ever on at once.** -/
theorem peak_of_run (h : Run step World.init tr w) : Peak tr w w.table.numClientes := by
  induction h with
  | start =>
    have hzero : activeCount World.init.table = 0 :=
      Nat.le_zero.mp (activeCount_le clInit_ok)
    exact ⟨⟨hzero.le, by simp⟩, .inl hzero⟩
  | @step tr w l w' hrun hs ih =>
    have hinv := inv_of_reachable ⟨tr, hrun⟩
    have hok := (hinv.step hs).core.ok
    -- below the mark every table has room for its active records
    have hle := activeCount_le hok
    rcases (move_of_step hs).changes with htable | ⟨i, f, hf, htable, -⟩ |
      ⟨c, fd, ip, pkt, now, -, -, -, -, hnum, -, htable, -⟩ |
      ⟨c, fd, username, -, -, -, -, htable, -⟩
    · rw [htable] at hle ⊢
      exact ih.keep (by rw [htable]; exact hle)
    · have hmark : w'.table.numClientes = w.table.numClientes := by rw [htable]; rfl
      rw [hmark] at hle ⊢
      exact ih.keep hle
    · rcases added_mark hinv.core.ok hnum pkt.senderPtr ip fd now with hmark | ⟨hmark, hcount⟩
      · rw [← htable] at hmark
        rw [hmark] at hle ⊢
        exact ih.keep hle
      · rw [← htable] at hmark hcount
        rw [hmark]
        exact ih.raise hcount
    · have hmark : w'.table.numClientes = w.table.numClientes := by
        rw [htable, clRemove]
        split <;> rfl
      rw [hmark] at hle ⊢
      exact ih.keep hle

/-! ### Full -/

/-- The mark is at its limit when that many were active at some moment. -/
theorem full_iff_reached (h : Run step World.init tr w) :
    w.table.numClientes = maxClients ↔
      ∃ s, (s = w ∨ ∃ l, (s, l) ∈ tr) ∧ activeCount s.table = maxClients := by
  have hpeak := peak_of_run h
  constructor
  · intro hfull
    rw [hfull] at hpeak
    rcases hpeak.reached with hnow | ⟨x, hx, hcount⟩
    · exact ⟨w, .inl rfl, hnow⟩
    · exact ⟨x.1, .inr ⟨x.2, hx⟩, hcount⟩
  · rintro ⟨s, hmem, hcount⟩
    have hle : activeCount s.table ≤ w.table.numClientes := by
      rcases hmem with rfl | ⟨l, hl⟩
      · exact hpeak.never_more.1
      · exact hpeak.never_more.2 _ hl
    have := (inv_of_reachable ⟨tr, h⟩).core.ok.num_le
    omega

/-- **When a `REGISTER` is refused as "full"**: exactly when at some moment of
the run, however long ago, a hundred records were active at once.  The refusal
is both what the server notes and what it is about to send. -/
theorem refused_full_iff (h : Run step World.init tr w) (hs : step w l = some w')
    (ht : l.tid = .main) (hidle : w.sending .main = none) {c : ℕ} {fd : ℤ} {ip : List UInt8}
    {pkt : ChatPacket} (hpc : w.pc .main = .register c fd ip pkt) :
    (w'.log = .rejected c (-2) :: w.log ↔
      ∃ s, (s = w ∨ ∃ l, (s, l) ∈ tr) ∧ activeCount s.table = maxClients) ∧
    (w'.sending .main =
        some ⟨fd, sendError pkt.senderPtr (utf8 "Servidor lleno"), 0, .register (-2)⟩ ↔
      ∃ s, (s = w ∨ ∃ l, (s, l) ∈ tr) ∧ activeCount s.table = maxClients) := by
  rw [← full_iff_reached h]
  have hle := (inv_of_reachable ⟨tr, h⟩).core.ok.num_le
  have hm := move_of_step hs
  cases hm with
  | @add c' fd' ip' pkt' now _ hpc' _ hnum =>
    -- accepted: the record and the reply say so
    have hlt : w.table.numClientes ≠ maxClients := hnum.ne
    simp [World.emit, World.call, hlt]
  | @refuse c' fd' ip' pkt' now rc _ hpc' _ hrc _ =>
    obtain ⟨rfl, rfl, -, rfl⟩ := Pc.register.inj (hpc.symm.trans hpc')
    have hcode : w.table.numClientes = maxClients ↔ rc = -2 := by
      rcases clAdd_cases w.table pkt.senderPtr ip' fd now with
        ⟨hres, hnum⟩ | ⟨hres, hnum, -⟩ | ⟨hres, hnum, -⟩ <;>
        rw [hrc, Prod.mk.injEq] at hres <;> omega
    rw [hcode]
    refine ⟨by simp [World.emit, World.call, World.goto], ?_⟩
    constructor
    · intro hcall
      simpa [World.emit, World.call, World.goto] using congrArg (Option.map Sending.site) hcall
    · rintro rfl
      simp [World.emit, World.call, World.goto, registerReply]
  | _ => simp_all

/-- A hundred users join, and the first one's connection ends. -/
def fullHouse : List Label :=
  ((List.range 100).map fun k => joining (4 + k : ℕ) (nthDigits k ++ utf8 ".0.0.1")
    (registerPacket (nthDigits k))).flatten ++ [⟨.client 0, .fail⟩] ++ goes 0 3

/-- Then ana's `REGISTER` is received. -/
def anaAtTheDoor : List Label :=
  fullHouse ++ [⟨.main, .conn 4 (ip 1)⟩, ⟨.main, .packet (registerPacket (utf8 "ana"))⟩]

theorem exec_anaAtTheDoor : (exec step World.init anaAtTheDoor).any (fun w =>
    w.pc .main == .register 100 4 (ip 1) (registerPacket (utf8 "ana")) &&
      (w.sending .main).isNone && activeCount w.table == 99 &&
      (step w ⟨.main, .clock 0⟩).any fun w' => w'.sending .main ==
        some ⟨4, sendError (utf8 "ana") (utf8 "Servidor lleno"), 0, .register (-2)⟩) = true := by
  decide +kernel

/-- She is told that the server is full: once there were a hundred. -/
theorem refused_full_iff_ana : ∃ tr w w', Run step World.init tr w ∧
    activeCount w.table = 99 ∧ step w ⟨.main, .clock 0⟩ = some w' ∧
    w'.sending .main =
      some ⟨4, sendError (utf8 "ana") (utf8 "Servidor lleno"), 0, .register (-2)⟩ ∧
    w'.log = .rejected 100 (-2) :: w.log ∧ ∃ s l, (s, l) ∈ tr ∧ activeCount s.table = 100 := by
  obtain ⟨tr, w, hrun, -, hp⟩ := exists_run exec_anaAtTheDoor
  simp only [Bool.and_eq_true, beq_iff_eq, Option.isNone_iff_eq_none, Option.any_eq_true] at hp
  obtain ⟨⟨⟨hpc, hidle⟩, hcount⟩, w', hs, hcall⟩ := hp
  obtain ⟨hnoted, hsent⟩ := refused_full_iff hrun hs rfl hidle hpc
  obtain ⟨s, hmem, hall⟩ := hsent.mp hcall
  refine ⟨tr, w, w', hrun, hcount, hs, hcall, hnoted.mpr ⟨s, hmem, hall⟩, ?_⟩
  rcases hmem with rfl | ⟨l, hl⟩
  · -- not now
    rw [hcount] at hall
    cases hall
  · exact ⟨s, l, hl, hall⟩

end ChatSystem
