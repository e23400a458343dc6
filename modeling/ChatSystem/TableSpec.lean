/-
ChatSystem/TableSpec.lean

What the `cl_*` functions do, in terms of the *active* records of a table:

    t.Active i r    — slot `i` holds the record `r`, and `activo` is set.

`Table.Ok` is the part of the representation invariant that a table keeps by
itself, whatever its operations are called with: `num_clientes` is within
bounds, no slot at or above it is active, and the strings of active records
are terminated.  Each operation is then described once — which records are
active afterwards — and the server's invariants are derived from these
descriptions alone:

* `clAdd_cases`, `active_add` — a rejected call changes nothing, an accepted
  one adds one record in a slot that was not active;
* `active_remove` — the record found by descriptor goes;
* `Refresh`, `active_modify` — touching, marking and setting a status update
  one record in place and keep its user name, IP and descriptor.
-/
import ChatSystem.ClientList

namespace ChatSystem

open CStr

namespace Table

/-- Slot `i` holds the active record `r`. -/
def Active (t : Table) (i : ℕ) (r : Cliente) : Prop :=
  t.lista[i]? = some r ∧ r.activo = true

theorem Active.unique {t : Table} {i : ℕ} {r s : Cliente} (hr : t.Active i r)
    (hs : t.Active i s) : r = s :=
  Option.some.inj (hr.1.symm.trans hs.1)

/-- The representation invariant of a table. -/
structure Ok (t : Table) : Prop where
  size : t.lista.length = maxClients
  num_le : t.numClientes ≤ maxClients
  above : ∀ {i r}, t.Active i r → i < t.numClientes
  username : ∀ {i r}, t.Active i r → r.username.Terminated
  ip : ∀ {i r}, t.Active i r → r.ip.Terminated
  status : ∀ {i r}, t.Active i r → r.status.Terminated

/-- No two active records have the same IP string. -/
def IpsDistinct (t : Table) : Prop :=
  ∀ i j r s, t.Active i r → t.Active j s → r.ip.str = s.ip.str → i = j

/-- No two active records have the same user name. -/
def NamesDistinct (t : Table) : Prop :=
  ∀ i j r s, t.Active i r → t.Active j s → r.username.str = s.username.str → i = j

end Table

variable {t t' : Table}

theorem clInit_not_active (i : ℕ) (r : Cliente) : ¬ clInit.Active i r := by
  rintro ⟨hget, hact⟩
  have hr : r = Cliente.zero := List.eq_of_mem_replicate (List.mem_of_getElem? hget)
  rw [hr] at hact
  cases hact

theorem clInit_ok : clInit.Ok where
  size := List.length_replicate
  num_le := Nat.zero_le _
  above := fun h => absurd h (clInit_not_active _ _)
  username := fun h => absurd h (clInit_not_active _ _)
  ip := fun h => absurd h (clInit_not_active _ _)
  status := fun h => absurd h (clInit_not_active _ _)

/-! ### Lookups -/

theorem getElem?_used {i : ℕ} {r : Cliente} :
    t.used[i]? = some r ↔ i < t.numClientes ∧ t.lista[i]? = some r := by
  by_cases hi : i < t.numClientes
  · simp [Table.used, hi]
  · rw [Table.used, List.getElem?_take, if_neg hi]
    simp [hi]

/-- An active record is seen by every loop over the table. -/
theorem Table.Ok.mem_used (h : t.Ok) {i : ℕ} {r : Cliente} (hr : t.Active i r) :
    t.used[i]? = some r :=
  getElem?_used.mpr ⟨h.above hr, hr.1⟩

/-- A search over the used slots that asks for an active record. -/
theorem findIdx?_used_eq_some {p : Cliente → Bool} {i : ℕ}
    (h : t.used.findIdx? (fun r => r.activo && p r) = some i) :
    i < t.numClientes ∧ ∃ r, t.Active i r ∧ p r = true := by
  obtain ⟨hlt, hp, -⟩ := List.findIdx?_eq_some_iff_getElem.mp h
  obtain ⟨hi, hget⟩ := getElem?_used.mp (List.getElem?_eq_getElem hlt)
  obtain ⟨hact, hpr⟩ := Bool.and_eq_true_iff.mp hp
  exact ⟨hi, t.used[i], ⟨hget, hact⟩, hpr⟩

theorem findIdx?_used_eq_none (ht : t.Ok) {p : Cliente → Bool}
    (h : t.used.findIdx? (fun r => r.activo && p r) = none) {i : ℕ} {r : Cliente}
    (hr : t.Active i r) : p r = false := by
  have := List.findIdx?_eq_none_iff.mp h r (List.mem_of_getElem? (ht.mem_used hr))
  simpa [hr.2] using this

theorem clFindByFd_eq_some {fd : ℤ} {i : ℕ} (h : clFindByFd t fd = some i) :
    i < t.numClientes ∧ ∃ r, t.Active i r ∧ r.sockfd = fd := by
  obtain ⟨hi, r, hr, hp⟩ := findIdx?_used_eq_some h
  exact ⟨hi, r, hr, by simpa using hp⟩

theorem clFindByFd_eq_none (ht : t.Ok) {fd : ℤ} (h : clFindByFd t fd = none) {i : ℕ}
    {r : Cliente} (hr : t.Active i r) : r.sockfd ≠ fd := by
  simpa using findIdx?_used_eq_none ht h hr

/-- When descriptors are unique, the lookup finds the record of its fd. -/
theorem clFindByFd_of_active (ht : t.Ok) {i : ℕ} {r : Cliente} (hr : t.Active i r)
    (huniq : ∀ j s, t.Active j s → s.sockfd = r.sockfd → j = i) :
    clFindByFd t r.sockfd = some i := by
  rcases h : clFindByFd t r.sockfd with - | j
  · exact absurd rfl (clFindByFd_eq_none ht h hr)
  · obtain ⟨-, s, hs, hfd⟩ := clFindByFd_eq_some h
    rw [huniq j s hs hfd]

theorem clFindByName_eq_some {name : List UInt8} {i : ℕ}
    (h : clFindByName t name = some i) :
    i < t.numClientes ∧ ∃ r, t.Active i r ∧ r.username.str = cstr name := by
  obtain ⟨hi, r, hr, hp⟩ := findIdx?_used_eq_some h
  exact ⟨hi, r, hr, strEq_iff.mp hp⟩

theorem clFindByName_eq_none (ht : t.Ok) {name : List UInt8}
    (h : clFindByName t name = none) {i : ℕ} {r : Cliente} (hr : t.Active i r) :
    r.username.str ≠ cstr name := by
  have hp := findIdx?_used_eq_none ht h hr
  rwa [← Bool.not_eq_true, strEq_iff] at hp

/-- **The lookup by name** finds the first active record of that name. -/
theorem clFindByName_eq_some_iff (ht : t.Ok) {name : List UInt8} {i : ℕ} :
    clFindByName t name = some i ↔ (∃ r, t.Active i r ∧ r.username.str = cstr name) ∧
      ∀ j r, j < i → t.Active j r → r.username.str ≠ cstr name := by
  unfold clFindByName
  rw [List.findIdx?_eq_some_iff_getElem]
  constructor
  · rintro ⟨hlt, hp, hbefore⟩
    obtain ⟨-, hget⟩ := getElem?_used.mp (List.getElem?_eq_getElem hlt)
    obtain ⟨hact, hname⟩ := Bool.and_eq_true_iff.mp hp
    refine ⟨⟨t.used[i], ⟨hget, hact⟩, strEq_iff.mp hname⟩, fun j r hj hr hsame => ?_⟩
    have hjr : t.used[j] = r := Option.some.inj
      ((List.getElem?_eq_getElem (hj.trans hlt)).symm.trans (ht.mem_used hr))
    exact hbefore j hj (by rw [hjr, hr.2, strEq_iff.mpr hsame]; rfl)
  · rintro ⟨⟨r, hr, hname⟩, hbefore⟩
    obtain ⟨hlt, hir⟩ := List.getElem?_eq_some_iff.mp (ht.mem_used hr)
    refine ⟨hlt, by rw [hir, hr.2, strEq_iff.mpr hname]; rfl, fun j hj hp => ?_⟩
    obtain ⟨-, hget⟩ := getElem?_used.mp (List.getElem?_eq_getElem (hj.trans hlt))
    obtain ⟨hact, hsame⟩ := Bool.and_eq_true_iff.mp hp
    exact hbefore j _ hj ⟨hget, hact⟩ (strEq_iff.mp hsame)

/-! ### `cl_add` -/

theorem duplicate_eq_true (h : duplicate t username ip = true) :
    ∃ i r, t.Active i r ∧
      (r.username.str = cstr username ∨ r.ip.str = cstr ip) := by
  obtain ⟨r, hmem, hp⟩ := List.any_eq_true.mp h
  obtain ⟨i, hget⟩ := List.mem_iff_getElem?.mp hmem
  obtain ⟨hact, hor⟩ := Bool.and_eq_true_iff.mp hp
  refine ⟨i, r, ⟨(getElem?_used.mp hget).2, hact⟩, ?_⟩
  simpa [CharArray.str] using hor

theorem duplicate_eq_false (ht : t.Ok) (h : duplicate t username ip = false) {i : ℕ}
    {r : Cliente} (hr : t.Active i r) :
    r.username.str ≠ cstr username ∧ r.ip.str ≠ cstr ip := by
  have := List.any_eq_false.mp h r (List.mem_of_getElem? (ht.mem_used hr))
  simpa [hr.2, CharArray.str, not_or] using this

/-- The slot `cl_add` fills exists and is not active. -/
theorem addSlot_spec (ht : t.Ok) (hnum : t.numClientes < maxClients) :
    addSlot t ≤ t.numClientes ∧ ∃ r, t.lista[addSlot t]? = some r ∧ r.activo = false := by
  rcases h : freeSlot t with - | slot
  · have hslot : addSlot t = t.numClientes := by simp [addSlot, h]
    have hlt : t.numClientes < t.lista.length := by rw [ht.size]; exact hnum
    rw [hslot]
    refine ⟨le_rfl, t.lista[t.numClientes], List.getElem?_eq_getElem hlt, ?_⟩
    -- an active record here would be above the high-water mark
    by_contra hact
    exact Nat.lt_irrefl _ (ht.above ⟨List.getElem?_eq_getElem hlt, by simpa using hact⟩)
  · have hslot : addSlot t = slot := by simp [addSlot, h]
    obtain ⟨hlt, hp, -⟩ := List.findIdx?_eq_some_iff_getElem.mp h
    obtain ⟨hi, hget⟩ := getElem?_used.mp (List.getElem?_eq_getElem hlt)
    rw [hslot]
    exact ⟨hi.le, t.used[slot], hget, by simpa using hp⟩

/-- The table an accepted `cl_add` leaves: both branches of the slot search
in one. -/
def added (t : Table) (r : Cliente) : Table :=
  ⟨t.lista.set (addSlot t) r, max t.numClientes (addSlot t + 1)⟩

/-- **The three outcomes of `cl_add`.** -/
theorem clAdd_cases (t : Table) (username ip : List UInt8) (sockfd now : ℤ) :
    (clAdd t username ip sockfd now = (-2, t) ∧ maxClients ≤ t.numClientes) ∨
    (clAdd t username ip sockfd now = (-1, t) ∧ t.numClientes < maxClients ∧
      duplicate t username ip = true) ∨
    (clAdd t username ip sockfd now
        = (0, added t (newCliente username ip sockfd now)) ∧
      t.numClientes < maxClients ∧ duplicate t username ip = false) := by
  by_cases hfull : maxClients ≤ t.numClientes
  · exact .inl ⟨by simp [clAdd, hfull], hfull⟩
  have hlt : t.numClientes < maxClients := Nat.lt_of_not_le hfull
  rcases hdup : duplicate t username ip with - | -
  · refine .inr (.inr ⟨?_, hlt, rfl⟩)
    rcases hfree : freeSlot t with - | slot
    · simp [clAdd, hfull, hdup, hfree, added, addSlot, Table.setSlot]
    · have hslot : slot < t.numClientes := by
        obtain ⟨hl, -, -⟩ := List.findIdx?_eq_some_iff_getElem.mp hfree
        exact (getElem?_used.mp (List.getElem?_eq_getElem hl)).1
      have hmax : max t.numClientes (slot + 1) = t.numClientes := by omega
      simp [clAdd, hfull, hdup, hfree, added, addSlot, Table.setSlot, hmax]
  · exact .inr (.inl ⟨by simp [clAdd, hfull, hdup], hlt, rfl⟩)

/-- After an accepted `cl_add` the active records are the old ones and the
new one; the slot it fills held none. -/
theorem active_added (ht : t.Ok) (hnum : t.numClientes < maxClients) {r₀ : Cliente}
    (h₀ : r₀.activo = true) {i : ℕ} {r : Cliente} :
    (added t r₀).Active i r ↔ (i = addSlot t ∧ r = r₀) ∨ t.Active i r := by
  obtain ⟨hle, rOld, hold, hoff⟩ := addSlot_spec ht hnum
  have hlen : addSlot t < t.lista.length := by rw [ht.size]; omega
  unfold Table.Active added
  by_cases hi : i = addSlot t
  · subst hi
    simp only [List.getElem?_set_self hlen, Option.some.injEq, hold]
    constructor
    · rintro ⟨rfl, -⟩
      exact .inl ⟨trivial, rfl⟩
    · rintro (⟨-, rfl⟩ | ⟨rfl, hact⟩)
      · exact ⟨rfl, h₀⟩
      · rw [hoff] at hact
        cases hact
  · simp [List.getElem?_set_ne (Ne.symm hi), hi]

theorem addSlot_not_active (ht : t.Ok) (hnum : t.numClientes < maxClients)
    (r : Cliente) : ¬ t.Active (addSlot t) r := by
  obtain ⟨-, rOld, hold, hoff⟩ := addSlot_spec ht hnum
  rintro ⟨hget, hact⟩
  rw [hold] at hget
  rw [← Option.some.inj hget, hoff] at hact
  cases hact

@[simp] theorem str_username_newCliente (username ip : List UInt8) (fd now : ℤ) :
    (newCliente username ip fd now).username.str = (cstr username).take 31 :=
  CharArray.str_strncpy_zero _ _ (by decide)

@[simp] theorem str_ip_newCliente (username ip : List UInt8) (fd now : ℤ) :
    (newCliente username ip fd now).ip.str = (cstr ip).take 15 :=
  CharArray.str_strncpy_zero _ _ (by decide)

theorem length_statusActivo : (cstr statusActivo).length = 6 := by decide

theorem length_statusInactivo : (cstr statusInactivo).length = 8 := by decide

theorem added_ok (ht : t.Ok) (hnum : t.numClientes < maxClients)
    (username ip : List UInt8) (fd now : ℤ) :
    (added t (newCliente username ip fd now)).Ok where
  size := by simp [added, ht.size]
  num_le := by
    have := (addSlot_spec ht hnum).1
    simp only [added]
    omega
  above := by
    intro i r hr
    -- the new record has been filled by `strncpy`
    rcases (active_added ht hnum rfl).mp hr with ⟨rfl, -⟩ | hr
    · simp only [added]; omega
    · have := ht.above hr
      simp only [added]; omega
  username := by
    intro i r hr
    rcases (active_added ht hnum rfl).mp hr with ⟨-, rfl⟩ | hr
    · exact CharArray.terminated_strncpy_zero _ (by decide)
    · exact ht.username hr
  ip := by
    intro i r hr
    rcases (active_added ht hnum rfl).mp hr with ⟨-, rfl⟩ | hr
    · exact CharArray.terminated_strncpy_zero _ (by decide)
    · exact ht.ip hr
  status := by
    intro i r hr
    rcases (active_added ht hnum rfl).mp hr with ⟨-, rfl⟩ | hr
    · exact CharArray.terminated_strncpy_zero _ (by decide)
    · exact ht.status hr

theorem clAdd_ok (ht : t.Ok) (username ip : List UInt8) (fd now : ℤ) :
    (clAdd t username ip fd now).2.Ok := by
  rcases clAdd_cases t username ip fd now with ⟨h, -⟩ | ⟨h, -, -⟩ | ⟨h, hnum, -⟩
  · rw [h]
    exact ht
  · rw [h]
    exact ht
  · rw [h]
    exact added_ok ht hnum _ _ _ _

/-- A whole IP string that passed the duplicate test keeps the IPs distinct. -/
theorem added_ipsDistinct (ht : t.Ok) (hnum : t.numClientes < maxClients)
    (hips : t.IpsDistinct) {username ip : List UInt8} (fd now : ℤ)
    (hdup : duplicate t username ip = false) (hip : (cstr ip).length ≤ 15) :
    (added t (newCliente username ip fd now)).IpsDistinct := by
  have hnew : ∀ i r, t.Active i r →
      r.ip.str ≠ (newCliente username ip fd now).ip.str := by
    intro i r hr
    rw [str_ip_newCliente, List.take_of_length_le hip]
    exact (duplicate_eq_false ht hdup hr).2
  intro i j r s hr hs heq
  rcases (active_added ht hnum rfl).mp hr with ⟨rfl, rfl⟩ | hr <;>
    rcases (active_added ht hnum rfl).mp hs with ⟨rfl, rfl⟩ | hs
  · rfl
  · exact absurd heq.symm (hnew _ _ hs)
  · exact absurd heq (hnew _ _ hr)
  · exact hips _ _ _ _ hr hs heq

/-! ### Updates in place -/

/-- Same user name, IP and descriptor. -/
def Cliente.SameId (r r₀ : Cliente) : Prop :=
  r.username = r₀.username ∧ r.ip = r₀.ip ∧ r.sockfd = r₀.sockfd

theorem Cliente.SameId.refl (r : Cliente) : r.SameId r := ⟨rfl, rfl, rfl⟩

theorem Cliente.SameId.symm {r s : Cliente} (h : r.SameId s) : s.SameId r :=
  ⟨h.1.symm, h.2.1.symm, h.2.2.symm⟩

theorem Cliente.SameId.trans {r s u : Cliente} (h : r.SameId s) (h' : s.SameId u) :
    r.SameId u :=
  ⟨h.1.trans h'.1, h.2.1.trans h'.2.1, h.2.2.trans h'.2.2⟩

/-- An update that leaves `activo` and the identity of the record alone and
leaves its status terminated. -/
structure Refresh (f : Cliente → Cliente) : Prop where
  activo : ∀ r, (f r).activo = r.activo
  sameId : ∀ r, (f r).SameId r
  status : ∀ r, r.status.Terminated → (f r).status.Terminated

theorem refresh_setStatus (newStatus : List UInt8) : Refresh (setStatus newStatus) where
  activo := fun _ => rfl
  sameId := fun _ => ⟨rfl, rfl, rfl⟩
  status := fun _ _ => CharArray.terminated_strncpy_put (by decide)

theorem refresh_touchCliente (now : ℤ) : Refresh (touchCliente now) where
  activo := fun r => by unfold touchCliente; split <;> rfl
  sameId := fun r => by unfold touchCliente; split <;> exact ⟨rfl, rfl, rfl⟩
  status := fun r hr => by
    unfold touchCliente
    split
    · exact CharArray.terminated_strncpy_of_lt (by decide) (by rw [length_statusActivo]; decide)
    · exact hr

theorem refresh_markInactive : Refresh markInactive where
  activo := fun _ => rfl
  sameId := fun _ => ⟨rfl, rfl, rfl⟩
  status := fun _ _ =>
    CharArray.terminated_strncpy_of_lt (by decide) (by rw [length_statusInactivo]; decide)

/-- Updating slot `idx` keeps the other records. -/
theorem active_modify {f : Cliente → Cliente} (hf : Refresh f) {idx i : ℕ} {r : Cliente} :
    (t.modifySlot idx f).Active i r ↔
      ∃ r₀, t.Active i r₀ ∧ r = if i = idx then f r₀ else r₀ := by
  simp only [Table.Active, Table.modifySlot, List.getElem?_modify, Option.map_eq_map,
    Option.map_eq_some_iff]
  constructor
  · rintro ⟨⟨r₀, hget, rfl⟩, hact⟩
    refine ⟨r₀, ⟨hget, ?_⟩, ?_⟩
    · -- the update keeps `activo`
      by_cases hi : idx = i
      · simpa [hi, hf.activo] using hact
      · simpa [hi] using hact
    · by_cases hi : idx = i
      · simp [hi]
      · simp [hi, Ne.symm hi]
  · rintro ⟨r₀, ⟨hget, hact⟩, rfl⟩
    refine ⟨⟨r₀, hget, ?_⟩, ?_⟩
    · by_cases hi : idx = i
      · simp [hi]
      · simp [hi, Ne.symm hi]
    · split
      · rw [hf.activo, hact]
      · exact hact

/-- Every record active after an in-place update was active before, in the
same slot and with the same identity. -/
theorem active_modify_sameId {f : Cliente → Cliente} (hf : Refresh f) {idx i : ℕ}
    {r : Cliente} (hr : (t.modifySlot idx f).Active i r) :
    ∃ r₀, t.Active i r₀ ∧ r.SameId r₀ := by
  obtain ⟨r₀, hr₀, rfl⟩ := (active_modify hf).mp hr
  refine ⟨r₀, hr₀, ?_⟩
  split
  · exact hf.sameId r₀
  · exact .refl r₀

/-- Conversely, every record stays, up to its status and time stamp. -/
theorem active_modify_of_active {f : Cliente → Cliente} (hf : Refresh f) (idx : ℕ)
    {i : ℕ} {r₀ : Cliente} (hr₀ : t.Active i r₀) :
    ∃ r, (t.modifySlot idx f).Active i r ∧ r.SameId r₀ := by
  refine ⟨if i = idx then f r₀ else r₀, (active_modify hf).mpr ⟨r₀, hr₀, rfl⟩, ?_⟩
  split
  · exact hf.sameId r₀
  · exact .refl r₀

theorem modify_ok {f : Cliente → Cliente} (hf : Refresh f) (idx : ℕ) (ht : t.Ok) :
    (t.modifySlot idx f).Ok where
  size := by simp [Table.modifySlot, ht.size]
  num_le := ht.num_le
  above := by
    intro i r hr
    obtain ⟨r₀, hr₀, -⟩ := active_modify_sameId hf hr
    exact ht.above hr₀
  username := by
    intro i r hr
    obtain ⟨r₀, hr₀, hid⟩ := active_modify_sameId hf hr
    rw [hid.1]
    exact ht.username hr₀
  ip := by
    intro i r hr
    obtain ⟨r₀, hr₀, hid⟩ := active_modify_sameId hf hr
    rw [hid.2.1]
    exact ht.ip hr₀
  status := by
    intro i r hr
    obtain ⟨r₀, hr₀, rfl⟩ := (active_modify hf).mp hr
    split
    · exact hf.status _ (ht.status hr₀)
    · exact ht.status hr₀

theorem modify_ipsDistinct {f : Cliente → Cliente} (hf : Refresh f) (idx : ℕ)
    (hips : t.IpsDistinct) : (t.modifySlot idx f).IpsDistinct := by
  intro i j r s hr hs heq
  obtain ⟨r₀, hr₀, hidr⟩ := active_modify_sameId hf hr
  obtain ⟨s₀, hs₀, hids⟩ := active_modify_sameId hf hs
  rw [hidr.2.1, hids.2.1] at heq
  exact hips _ _ _ _ hr₀ hs₀ heq

theorem modify_namesDistinct {f : Cliente → Cliente} (hf : Refresh f) (idx : ℕ)
    (hnames : t.NamesDistinct) : (t.modifySlot idx f).NamesDistinct := by
  intro i j r s hr hs heq
  obtain ⟨r₀, hr₀, hidr⟩ := active_modify_sameId hf hr
  obtain ⟨s₀, hs₀, hids⟩ := active_modify_sameId hf hs
  rw [hidr.1, hids.1] at heq
  exact hnames _ _ _ _ hr₀ hs₀ heq

/-- `cl_set_status` and `cl_touch` either leave the table alone or update one
record in place. -/
theorem clSetStatus_snd (t : Table) (username newStatus : List UInt8) :
    (clSetStatus t username newStatus).2 = t ∨
      ∃ i r, clFindByName t username = some i ∧ t.Active i r ∧
        r.username.str = cstr username ∧
        (clSetStatus t username newStatus).2 = t.modifySlot i (setStatus newStatus) := by
  unfold clSetStatus
  rcases h : clFindByName t username with - | i
  · exact .inl rfl
  · obtain ⟨-, r, hr, hname⟩ := clFindByName_eq_some h
    exact .inr ⟨i, r, rfl, hr, hname, rfl⟩

theorem clSetStatus_ok (ht : t.Ok) (username newStatus : List UInt8) :
    (clSetStatus t username newStatus).2.Ok := by
  rcases clSetStatus_snd t username newStatus with h | ⟨i, -, -, -, -, h⟩
  · rw [h]
    exact ht
  · rw [h]
    exact modify_ok (refresh_setStatus _) i ht

theorem clTouch_snd (t : Table) (fd now : ℤ) :
    (clTouch t fd now).2 = t ∨
      ∃ i r, t.Active i r ∧ r.sockfd = fd ∧
        (clTouch t fd now).2 = t.modifySlot i (touchCliente now) := by
  unfold clTouch
  rcases h : clFindByFd t fd with - | i
  · exact .inl rfl
  · obtain ⟨-, r, hr, hfd⟩ := clFindByFd_eq_some h
    exact .inr ⟨i, r, hr, hfd, rfl⟩

theorem clTouch_ok (ht : t.Ok) (fd now : ℤ) : (clTouch t fd now).2.Ok := by
  rcases clTouch_snd t fd now with h | ⟨i, -, -, -, h⟩
  · rw [h]
    exact ht
  · rw [h]
    exact modify_ok (refresh_touchCliente now) i ht

theorem sweepSlot_eq (now : ℤ) (t : Table) (i : ℕ) :
    sweepSlot now t i = t ∨ sweepSlot now t i = t.modifySlot i markInactive := by
  unfold sweepSlot
  split
  · split
    · exact .inr rfl
    · exact .inl rfl
  · exact .inl rfl

theorem active_sweepSlot (now : ℤ) (j : ℕ) {i : ℕ} {r₀ : Cliente} (hr₀ : t.Active i r₀) :
    ∃ r, (sweepSlot now t j).Active i r ∧ r.SameId r₀ := by
  rcases sweepSlot_eq now t j with h | h
  · exact ⟨r₀, by rw [h]; exact hr₀, .refl r₀⟩
  · rw [h]
    exact active_modify_of_active refresh_markInactive j hr₀

/-- Only active records are found idle. -/
theorem activo_of_idle {now : ℤ} {r : Cliente} (h : idle now r = true) :
    r.activo = true := by
  simp only [idle, Bool.and_eq_true] at h
  exact h.1.1

theorem sweep_ok (now : ℤ) (ht : t.Ok) : (sweep now t).Ok := by
  refine List.foldlRecOn (motive := Table.Ok) _ _ ht fun t' ht' i _ => ?_
  rcases sweepSlot_eq now t' i with h | h
  · rw [h]
    exact ht'
  · rw [h]
    exact modify_ok refresh_markInactive i ht'

/-! ### `cl_remove` -/

/-- `cl_remove` deactivates the record its lookup finds, and no other. -/
theorem active_clRemove {fd : ℤ} {i : ℕ} {r : Cliente} :
    (clRemove t fd).2.Active i r ↔ t.Active i r ∧ clFindByFd t fd ≠ some i := by
  unfold clRemove
  rcases h : clFindByFd t fd with - | idx
  · simp
  · simp only [Table.Active, Table.modifySlot, List.getElem?_modify, Option.map_eq_map,
      Option.map_eq_some_iff, ne_eq, Option.some.injEq]
    constructor
    · rintro ⟨⟨r₀, hget, rfl⟩, hact⟩
      by_cases hi : idx = i
      · simp [hi] at hact
      · simp only [hi, if_false] at hact ⊢
        exact ⟨⟨hget, hact⟩, not_false⟩
    · rintro ⟨⟨hget, hact⟩, hi⟩
      exact ⟨⟨r, hget, by simp [hi]⟩, hact⟩

theorem clRemove_ok (ht : t.Ok) (fd : ℤ) : (clRemove t fd).2.Ok where
  size := by
    unfold clRemove
    split
    · simp [Table.modifySlot, ht.size]
    · exact ht.size
  num_le := by
    unfold clRemove
    split <;> exact ht.num_le
  above := by
    intro i r hr
    have hnum : (clRemove t fd).2.numClientes = t.numClientes := by
      unfold clRemove
      split <;> rfl
    rw [hnum]
    exact ht.above (active_clRemove.mp hr).1
  username := fun hr => ht.username (active_clRemove.mp hr).1
  ip := fun hr => ht.ip (active_clRemove.mp hr).1
  status := fun hr => ht.status (active_clRemove.mp hr).1

theorem clRemove_ipsDistinct (hips : t.IpsDistinct) (fd : ℤ) :
    (clRemove t fd).2.IpsDistinct :=
  fun _ _ _ _ hr hs =>
    hips _ _ _ _ (active_clRemove.mp hr).1 (active_clRemove.mp hs).1

theorem clRemove_namesDistinct (hnames : t.NamesDistinct) (fd : ℤ) :
    (clRemove t fd).2.NamesDistinct :=
  fun _ _ _ _ hr hs =>
    hnames _ _ _ _ (active_clRemove.mp hr).1 (active_clRemove.mp hs).1

end ChatSystem
