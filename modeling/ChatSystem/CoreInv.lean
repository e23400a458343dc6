/-
ChatSystem/CoreInv.lean

The table, the kernel's descriptors and the history agree (`CoreInv`):

* a descriptor denotes connection `c` exactly while `c`'s life says so;
* the active records are exactly the registered connections, each record
  with the user name, IP and descriptor it was registered with;
* the history is disciplined.

Descriptors of active records are distinct although no code compares them:
each is open and denotes the one connection that registered the record.

Each lemma below is one way the shared state can change: an event that
concerns no connection (`quiet`), a record updated in place (`refresh`), and
the four steps of a connection's life (`accept`, `register`, `remove`,
`close`).
-/
import ChatSystem.Lifecycle
import ChatSystem.TableSpec

namespace ChatSystem

open CStr Lts

/-! ### Reading a slot -/

namespace Table

variable {t : Table} {i : ℕ} {r : Cliente}

theorem Active.at_eq (hr : t.Active i r) : t.at i = r := by
  simp [Table.at, hr.1]

theorem Ok.active_at (ht : t.Ok) (hi : i < t.numClientes)
    (hact : (t.at i).activo = true) : t.Active i (t.at i) := by
  have hlt : i < t.lista.length := by
    have := ht.num_le
    rw [ht.size]
    omega
  have hget : t.lista[i]? = some (t.at i) := by
    simp [Table.at, List.getElem?_eq_getElem hlt]
  exact ⟨hget, hact⟩

end Table

/-! ### The invariant -/

structure CoreInv (w : World) : Prop where
  ok : w.table.Ok
  ips : w.table.IpsDistinct
  unborn : ∀ c, w.nextConn ≤ c → phase w.log c = .fresh
  descr : ∀ fd c, w.descr fd = some c ↔ (phase w.log c).fd? = some fd
  active : ∀ i r, w.table.Active i r →
    ∃ c r₀, phase w.log c = .registered i r₀ ∧ r.SameId r₀
  live : ∀ c i r₀, phase w.log c = .registered i r₀ →
    registrant w.log i = some c ∧ ∃ r, w.table.Active i r ∧ r.SameId r₀
  disciplined : Always Allowed w.log

namespace CoreInv

variable {w w' : World}

theorem init : CoreInv World.init where
  ok := clInit_ok
  ips := fun _ _ _ _ hr _ _ => absurd hr (clInit_not_active _ _)
  unborn := fun _ _ => rfl
  descr := by
    intro fd c
    simp [World.init, Phase.fd?]
  active := fun _ _ hr => absurd hr (clInit_not_active _ _)
  live := fun _ _ _ hph => by cases hph
  disciplined := trivial

/-! ### Consequences -/

/-- An open descriptor belongs to one connection. -/
theorem conn_unique (h : CoreInv w) {c c' : ℕ} {fd : ℤ}
    (hc : (phase w.log c).fd? = some fd) (hc' : (phase w.log c').fd? = some fd) :
    c = c' :=
  Option.some.inj (((h.descr fd c).mpr hc).symm.trans ((h.descr fd c').mpr hc'))

/-- The connection a record belongs to. -/
theorem owner (h : CoreInv w) {i : ℕ} {r : Cliente} (hr : w.table.Active i r) :
    ∃ c r₀, phase w.log c = .registered i r₀ ∧ r.SameId r₀ ∧
      w.descr r.sockfd = some c ∧ registrant w.log i = some c := by
  obtain ⟨c, r₀, hph, hid⟩ := h.active i r hr
  refine ⟨c, r₀, hph, hid, ?_, (h.live c i r₀ hph).1⟩
  rw [h.descr, hph, hid.2.2]
  rfl

/-- **Active records have distinct descriptors.** -/
theorem fds_distinct (h : CoreInv w) {i j : ℕ} {r s : Cliente}
    (hr : w.table.Active i r) (hs : w.table.Active j s) (heq : r.sockfd = s.sockfd) :
    i = j := by
  obtain ⟨c, r₀, hph, -, hfd, -⟩ := h.owner hr
  obtain ⟨c', s₀, hph', -, hfd', -⟩ := h.owner hs
  rw [heq] at hfd
  obtain rfl : c = c' := Option.some.inj (hfd.symm.trans hfd')
  rw [hph] at hph'
  exact (Phase.registered.inj hph').1

/-- A slot belongs to one connection. -/
theorem slot_unique (h : CoreInv w) {c c' i : ℕ} {r₀ s₀ : Cliente}
    (hc : phase w.log c = .registered i r₀) (hc' : phase w.log c' = .registered i s₀) :
    c = c' :=
  Option.some.inj ((h.live c i r₀ hc).1.symm.trans (h.live c' i s₀ hc').1)

/-- The lookup by descriptor finds the record of the connection. -/
theorem find_registered (h : CoreInv w) {c i : ℕ} {r₀ : Cliente}
    (hph : phase w.log c = .registered i r₀) :
    clFindByFd w.table r₀.sockfd = some i := by
  obtain ⟨-, r, hr, hid⟩ := h.live c i r₀ hph
  rw [← hid.2.2]
  exact clFindByFd_of_active h.ok hr fun j s hs heq => h.fds_distinct hs hr heq

/-- The lookup by descriptor finds nothing for a connection that is not
registered. -/
theorem find_connected (h : CoreInv w) {c : ℕ} {fd : ℤ} {ip : List UInt8}
    (hph : phase w.log c = .connected fd ip) : clFindByFd w.table fd = none := by
  rcases hfind : clFindByFd w.table fd with - | i
  · rfl
  · obtain ⟨-, r, hr, hfd⟩ := clFindByFd_eq_some hfind
    obtain ⟨c', r₀, hph', hid, hdescr, -⟩ := h.owner hr
    rw [hfd, h.descr] at hdescr
    -- the record found would be registered by this very connection
    obtain rfl := h.conn_unique (by rw [hph]; rfl) hdescr
    rw [hph] at hph'
    cases hph'

/-! ### Preservation -/

/-- Nothing but threads, buffers and the mutex changes, and at most an event
that concerns no connection's life is recorded. -/
theorem quiet (h : CoreInv w) (htable : w'.table = w.table) (hdescr : w'.descr = w.descr)
    (hconn : w'.nextConn = w.nextConn)
    (hlog : w'.log = w.log ∨
      ∃ e, w'.log = e :: w.log ∧ e.Neutral ∧ Allowed e w.log) : CoreInv w' := by
  -- a neutral event moves no connection and registers nobody
  have hphase : ∀ c, phase w'.log c = phase w.log c := by
    intro c
    rcases hlog with hlog | ⟨e, hlog, he, -⟩
    · rw [hlog]
    · rw [hlog, phase_cons, he.advance]
  have hreg : ∀ i, registrant w'.log i = registrant w.log i := by
    intro i
    rcases hlog with hlog | ⟨e, hlog, he, -⟩
    · rw [hlog]
    · rw [hlog, he.registrant]
  constructor
  · rw [htable]
    exact h.ok
  · rw [htable]
    exact h.ips
  · intro c hc
    rw [hphase]
    exact h.unborn c (hconn ▸ hc)
  · intro fd c
    rw [hdescr, hphase]
    exact h.descr fd c
  · intro i r hr
    rw [htable] at hr
    simpa only [hphase] using h.active i r hr
  · intro c i r₀ hph
    rw [hphase] at hph
    rw [hreg, htable]
    exact h.live c i r₀ hph
  · rcases hlog with hlog | ⟨e, hlog, -, hall⟩
    · rw [hlog]
      exact h.disciplined
    · rw [hlog]
      exact ⟨hall, h.disciplined⟩

/-- A record updated in place. -/
theorem refresh (h : CoreInv w) {f : Cliente → Cliente} (hf : Refresh f) (idx : ℕ) :
    CoreInv (w.setTable (w.table.modifySlot idx f)) where
  ok := modify_ok hf idx h.ok
  ips := modify_ipsDistinct hf idx h.ips
  unborn := h.unborn
  descr := h.descr
  active := by
    intro i r hr
    obtain ⟨r₁, hr₁, hid⟩ := active_modify_sameId hf hr
    obtain ⟨c, r₀, hph, hid'⟩ := h.active i r₁ hr₁
    exact ⟨c, r₀, hph, hid.trans hid'⟩
  live := by
    intro c i r₀ hph
    obtain ⟨hreg, r₁, hr₁, hid⟩ := h.live c i r₀ hph
    obtain ⟨r, hr, hid'⟩ := active_modify_of_active hf idx hr₁
    exact ⟨hreg, r, hr, hid'.trans hid⟩
  disciplined := h.disciplined

theorem setStatus (h : CoreInv w) (username newStatus : List UInt8) :
    CoreInv (w.setTable (clSetStatus w.table username newStatus).2) := by
  rcases clSetStatus_snd w.table username newStatus with heq | ⟨i, -, -, -, -, heq⟩
  · rw [heq]
    exact h
  · rw [heq]
    exact h.refresh (refresh_setStatus _) i

theorem touch (h : CoreInv w) (fd now : ℤ) :
    CoreInv (w.setTable (clTouch w.table fd now).2) := by
  rcases clTouch_snd w.table fd now with heq | ⟨i, -, -, -, heq⟩
  · rw [heq]
    exact h
  · rw [heq]
    exact h.refresh (refresh_touchCliente now) i

theorem sweepSlot (h : CoreInv w) (now : ℤ) (i : ℕ) :
    CoreInv (w.setTable (ChatSystem.sweepSlot now w.table i)) := by
  rcases sweepSlot_eq now w.table i with heq | heq
  · rw [heq]
    exact h
  · rw [heq]
    exact h.refresh refresh_markInactive i

/-! ### The life of one connection -/

section OneConnection

variable {e : Event} {c : ℕ}

/-- Connections to come are not concerned by an event about one that came. -/
theorem unborn_cons (h : CoreInv w) (he : e.subject? = some c) (hc : phase w.log c ≠ .fresh)
    (c' : ℕ) (hc' : w.nextConn ≤ c') : phase (e :: w.log) c' = .fresh := by
  have hne : c' ≠ c := by
    rintro rfl
    exact hc (h.unborn c' hc')
  rw [phase_cons_of_ne he hne]
  exact h.unborn c' hc'

/-- An event that leaves the connection its descriptor. -/
theorem descr_cons (h : CoreInv w) (he : e.subject? = some c)
    (hfd : (phase (e :: w.log) c).fd? = (phase w.log c).fd?) (fd : ℤ) (c' : ℕ) :
    w.descr fd = some c' ↔ (phase (e :: w.log) c').fd? = some fd := by
  by_cases hc : c' = c
  · subst hc
    rw [hfd]
    exact h.descr fd c'
  · rw [phase_cons_of_ne he hc]
    exact h.descr fd c'

/-- A record that is not the connection's keeps its own. -/
theorem active_cons (h : CoreInv w) (he : e.subject? = some c) {i : ℕ} {r : Cliente}
    (hr : w.table.Active i r) (hother : ∀ r₀, phase w.log c ≠ .registered i r₀) :
    ∃ c' r₀, phase (e :: w.log) c' = .registered i r₀ ∧ r.SameId r₀ := by
  obtain ⟨c', r₀, hph, hid⟩ := h.active i r hr
  have hne : c' ≠ c := by
    rintro rfl
    exact hother r₀ hph
  exact ⟨c', r₀, (phase_cons_of_ne he hne).trans hph, hid⟩

end OneConnection

/-- `accept` returns a descriptor that is not open. -/
theorem accept (h : CoreInv w) {fd : ℤ} (ip : List UInt8) (hfd : w.descr fd = none) :
    CoreInv { w with
      descr := Function.update w.descr fd (some w.nextConn)
      nextConn := w.nextConn + 1
      log := .accepted w.nextConn fd ip :: w.log } := by
  -- the connection is new: nothing in the history speaks of it
  have hfresh : phase w.log w.nextConn = .fresh := h.unborn _ (Nat.le_refl _)
  have hnew : phase (.accepted w.nextConn fd ip :: w.log) w.nextConn = .connected fd ip := by
    simp [phase_cons, Event.advance]
  refine ⟨h.ok, h.ips, ?_, ?_, ?_, ?_, ⟨hfresh, h.disciplined⟩⟩
  · intro c hc
    simp only at hc ⊢
    rw [phase_cons_of_ne rfl (by omega)]
    exact h.unborn c (by omega)
  · intro fd' c
    simp only
    by_cases hc : c = w.nextConn
    · subst hc
      rw [hnew]
      by_cases hf : fd' = fd
      · simp [hf, Phase.fd?]
      · -- a connection to come has no descriptor
        have : w.descr fd' ≠ some w.nextConn := by
          rw [Ne, h.descr, hfresh]
          simp [Phase.fd?]
        simp [hf, Phase.fd?, this, Ne.symm hf]
    · rw [phase_cons_of_ne rfl hc, ← h.descr]
      by_cases hf : fd' = fd
      · simp [hf, hfd, Ne.symm hc]
      · simp [hf]
  · intro i r hr
    exact h.active_cons rfl hr fun r₀ => by rw [hfresh]; simp
  · intro c i r₀ hph
    by_cases hc : c = w.nextConn
    · subst hc
      rw [hnew] at hph
      cases hph
    · rw [phase_cons_of_ne rfl hc] at hph
      exact h.live c i r₀ hph

/-- An accepted registration. -/
theorem register (h : CoreInv w) {c : ℕ} {fd : ℤ} {username ip : List UInt8} (now : ℤ)
    (hph : phase w.log c = .connected fd ip) (hip : ip.length ≤ 15)
    (hnum : w.table.numClientes < maxClients) (hdup : duplicate w.table username ip = false) :
    CoreInv { w with
      table := added w.table (newCliente username ip fd now)
      log := .registered c (addSlot w.table) (newCliente username ip fd now) :: w.log } := by
  have hnew : phase
      (.registered c (addSlot w.table) (newCliente username ip fd now) :: w.log) c
        = .registered (addSlot w.table) (newCliente username ip fd now) := by
    simp [phase_cons, Event.advance]
  refine ⟨added_ok h.ok hnum _ _ _ _, ?_, h.unborn_cons rfl (by rw [hph]; simp),
    h.descr_cons rfl (by rw [hnew, hph]; rfl), ?_, ?_, ⟨⟨ip, hph⟩, h.disciplined⟩⟩
  · exact added_ipsDistinct h.ok hnum h.ips fd now hdup
      (Nat.le_trans (length_cstr_le ip) hip)
  · intro i r hr
    rcases (active_added h.ok hnum rfl).mp hr with ⟨rfl, rfl⟩ | hr
    · exact ⟨c, _, hnew, .refl _⟩
    · exact h.active_cons rfl hr fun r₀ => by rw [hph]; simp
  · intro c' i r₀ hph'
    by_cases hc : c' = c
    · subst hc
      rw [hnew] at hph'
      obtain ⟨rfl, rfl⟩ := Phase.registered.inj hph'
      refine ⟨by simp [registrant], newCliente username ip fd now, ?_, .refl _⟩
      exact (active_added h.ok hnum rfl).mpr (.inl ⟨rfl, rfl⟩)
    · rw [phase_cons_of_ne rfl hc] at hph'
      obtain ⟨hreg, r, hr, hid⟩ := h.live c' i r₀ hph'
      -- the slot filled held no active record, so it is not this one
      have hslot : addSlot w.table ≠ i := by
        rintro rfl
        exact addSlot_not_active h.ok hnum r hr
      refine ⟨by simpa [registrant, hslot] using hreg, r, ?_, hid⟩
      exact (active_added h.ok hnum rfl).mpr (.inr hr)

/-- `cl_remove` by the connection's own thread takes away its record only. -/
theorem remove (h : CoreInv w) {c i : ℕ} {r₀ : Cliente}
    (hph : phase w.log c = .registered i r₀) :
    CoreInv { w with
      table := (clRemove w.table r₀.sockfd).2
      log := .removed c :: w.log } := by
  have hfind := h.find_registered hph
  have hnew : phase (.removed c :: w.log) c = .left r₀.sockfd := by
    simp [phase_cons, Event.advance, hph, Phase.fd?]
  have hact : ∀ j s, (clRemove w.table r₀.sockfd).2.Active j s ↔
      w.table.Active j s ∧ j ≠ i := by
    intro j s
    rw [active_clRemove, hfind, Ne, Option.some.injEq, eq_comm (a := i)]
  refine ⟨clRemove_ok h.ok _, clRemove_ipsDistinct h.ips _,
    h.unborn_cons rfl (by rw [hph]; simp), h.descr_cons rfl (by rw [hnew, hph]; rfl), ?_, ?_,
    ⟨⟨i, r₀, hph⟩, h.disciplined⟩⟩
  · intro j s hs
    obtain ⟨hs, hj⟩ := (hact j s).mp hs
    refine h.active_cons rfl hs fun s₀ hph' => ?_
    rw [hph] at hph'
    exact hj (Phase.registered.inj hph').1.symm
  · intro c' j s₀ hph'
    by_cases hc : c' = c
    · subst hc
      rw [hnew] at hph'
      cases hph'
    · rw [phase_cons_of_ne rfl hc] at hph'
      obtain ⟨hreg, s, hs, hid⟩ := h.live c' j s₀ hph'
      -- two connections do not share a slot, so this record stays
      have hj : j ≠ i := by
        rintro rfl
        exact hc (h.slot_unique hph' hph)
      exact ⟨hreg, s, (hact j s).mpr ⟨hs, hj⟩, hid⟩

/-- `close` of a connection without a record. -/
theorem close (h : CoreInv w) {c : ℕ} {fd : ℤ}
    (hph : (∃ ip, phase w.log c = .connected fd ip) ∨ phase w.log c = .left fd) :
    CoreInv (w.closeFd c fd) := by
  have hfd : (phase w.log c).fd? = some fd := by
    rcases hph with ⟨ip, hph⟩ | hph
    · rw [hph]; rfl
    · rw [hph]; rfl
  -- a connection is closed before its record is made or after it is gone
  have hnot : ∀ i r, phase w.log c ≠ .registered i r := by
    intro i r hreg
    rcases hph with ⟨ip, hph⟩ | hph
    · rw [hph] at hreg; cases hreg
    · rw [hph] at hreg; cases hreg
  have hborn : phase w.log c ≠ .fresh := by
    intro hfresh
    rw [hfresh] at hfd
    cases hfd
  have hpeer : w.descr fd = some c := (h.descr fd c).mpr hfd
  have hnew : phase (.closed c fd (w.descr fd) :: w.log) c = .gone := by
    simp [phase_cons, Event.advance]
  refine ⟨h.ok, h.ips, h.unborn_cons rfl hborn, ?_, ?_, ?_, ⟨⟨hpeer, hph⟩, h.disciplined⟩⟩
  · intro fd' c'
    show Function.update w.descr fd none fd' = some c' ↔
      (phase (.closed c fd (w.descr fd) :: w.log) c').fd? = some fd'
    by_cases hc : c' = c
    · subst hc
      rw [hnew]
      by_cases hf : fd' = fd
      · simp [hf, Phase.fd?]
      · -- the connection had no other descriptor
        have : w.descr fd' ≠ some c' := by
          rw [Ne, h.descr, hfd, Option.some.injEq]
          exact Ne.symm hf
        simp [hf, Phase.fd?, this]
    · rw [phase_cons_of_ne rfl hc, ← h.descr]
      by_cases hf : fd' = fd
      · simp [hf, hpeer, Ne.symm hc]
      · simp [hf]
  · intro i r hr
    exact h.active_cons rfl hr (hnot i)
  · intro c' i r₀ hph'
    have hlog : (w.closeFd c fd).log = .closed c fd (w.descr fd) :: w.log := rfl
    rw [hlog] at hph'
    by_cases hc : c' = c
    · subst hc
      rw [hnew] at hph'
      cases hph'
    · rw [phase_cons_of_ne rfl hc] at hph'
      exact h.live c' i r₀ hph'

end CoreInv

end ChatSystem
