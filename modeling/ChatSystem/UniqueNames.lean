/-
ChatSystem/UniqueNames.lean

User names of active records.  `cl_add` compares the whole sender string of
the `REGISTER` packet with the stored names, and stores the first 31 bytes of
it.  The two agree for strings that end within the 32-byte field; a sender
field without a NUL runs on into the next field, never equals a stored name,
and is stored cut.

So names stay distinct in a run exactly when none of its steps accepts such a
sender while an active record bears its first 31 bytes (`AddsFreshName`,
`namesDistinct_iff`), and there are runs with two records of one name
(`not_always_namesDistinct`).
-/
import ChatSystem.Replay

namespace ChatSystem

open CStr Lts

/-- A `REGISTER` about to be handled whose sender string is longer than a
stored name is refused anyway, or its first 31 bytes are nobody's name. -/
def AddsFreshName (w : World) (l : Label) : Prop :=
  ∀ c fd ip pkt, l.tid = .main → w.sending .main = none →
    w.pc .main = .register c fd ip pkt → 31 < (cstr pkt.senderPtr).length →
    maxClients ≤ w.table.numClientes ∨ (∃ i r, w.table.Active i r ∧ r.ip.str = ip) ∨
      ∀ i r, w.table.Active i r → r.username.str ≠ (cstr pkt.senderPtr).take 31

/-- An accepted `cl_add` keeps names distinct exactly when the name it stores
is new. -/
theorem added_namesDistinct_iff {t : Table} (ht : t.Ok) (hnum : t.numClientes < maxClients)
    (hnames : t.NamesDistinct) (username ip : List UInt8) (fd now : ℤ) :
    (added t (newCliente username ip fd now)).NamesDistinct ↔
      ∀ i r, t.Active i r → r.username.str ≠ (cstr username).take 31 := by
  have hact : ∀ i r, (added t (newCliente username ip fd now)).Active i r ↔ _ :=
    fun i r => active_added ht hnum rfl
  constructor
  · intro h i r hr heq
    have hi := h i (addSlot t) r (newCliente username ip fd now) ((hact i r).mpr (.inr hr))
      ((hact _ _).mpr (.inl ⟨rfl, rfl⟩)) (by rw [heq, str_username_newCliente])
    rw [hi] at hr
    exact addSlot_not_active ht hnum r hr
  · intro hnew i j r s hr hs heq
    rcases (hact i r).mp hr with ⟨rfl, rfl⟩ | hr <;>
      rcases (hact j s).mp hs with ⟨rfl, rfl⟩ | hs
    · rfl
    · rw [str_username_newCliente] at heq
      exact absurd heq.symm (hnew _ _ hs)
    · rw [str_username_newCliente] at heq
      exact absurd heq (hnew _ _ hr)
    · exact hnames _ _ _ _ hr hs heq

/-- The step that handles a `REGISTER` calls `cl_add`. -/
theorem table_of_register {w w' : World} {l : Label} {c : ℕ} {fd : ℤ} {ip : List UInt8}
    {pkt : ChatPacket} (ht : l.tid = .main) (hidle : w.sending .main = none)
    (hpc : w.pc .main = .register c fd ip pkt) (hs : step w l = some w') :
    ∃ now, w'.table = (clAdd w.table pkt.senderPtr ip fd now).2 := by
  obtain ⟨t, a⟩ := l
  obtain rfl : t = .main := ht
  have hmain : mainStep w a = some w' := by simpa [step, hidle] using hs
  cases a with
  | clock now =>
    refine ⟨now, ?_⟩
    simp only [mainStep, hpc] at hmain
    split at hmain
    · obtain rfl := Option.some.inj hmain
      rfl
    · cases hmain
  | _ => simp [mainStep, hpc] at hmain

/-- Every other step keeps names distinct. -/
theorem namesDistinct_of_not_register {w w' : World} {l : Label}
    (hnames : w.table.NamesDistinct) (hs : step w l = some w')
    (hnot : ∀ c fd ip pkt, l.tid = .main → w.sending .main = none →
      w.pc .main ≠ .register c fd ip pkt) : w'.table.NamesDistinct := by
  rcases (move_of_step hs).changes with htable | ⟨i, f, hf, htable, -⟩ |
    ⟨c, fd, ip, pkt, now, rfl, hidle, hpc, -⟩ | ⟨c, fd, username, -, -, -, -, htable, -⟩
  · rw [htable]
    exact hnames
  · rw [htable]
    exact modify_namesDistinct hf i hnames
  · exact absurd hpc (hnot c fd ip pkt rfl hidle)
  · rw [htable]
    exact clRemove_namesDistinct hnames fd

/-- The name stored by an accepted `REGISTER` is new, unless the sender string
is too long to be stored. -/
theorem fresh_of_length_le {t : Table} (ht : t.Ok) {username ip : List UInt8}
    (hdup : duplicate t username ip = false) (hlen : (cstr username).length ≤ 31) {i : ℕ}
    {r : Cliente} (hr : t.Active i r) : r.username.str ≠ (cstr username).take 31 := by
  rw [List.take_of_length_le hlen]
  exact (duplicate_eq_false ht hdup hr).1

/-- A sender string too long to be stored is refused for its IP only. -/
theorem ip_of_duplicate {t : Table} (ht : t.Ok) {username ip : List UInt8}
    (hdup : duplicate t username ip = true) (hlen : 31 < (cstr username).length) :
    ∃ i r, t.Active i r ∧ r.ip.str = cstr ip := by
  obtain ⟨i, r, hr, hname | hip⟩ := duplicate_eq_true hdup
  · have hshort : r.username.str.length < 32 := (ht.username hr).length_str_lt
    rw [hname] at hshort
    omega
  · exact ⟨i, r, hr, hip⟩

/-- **One step**: from a state with distinct names, the next state has
distinct names exactly when the step meets `AddsFreshName`. -/
theorem step_namesDistinct_iff {w w' : World} {l : Label} (h : Inv w)
    (hnames : w.table.NamesDistinct) (hs : step w l = some w') :
    w'.table.NamesDistinct ↔ AddsFreshName w l := by
  by_cases hreg : ∃ c fd ip pkt, l.tid = .main ∧ w.sending .main = none ∧
      w.pc .main = .register c fd ip pkt
  · obtain ⟨c, fd, ip, pkt, ht, hidle, hpc⟩ := hreg
    have hip : cstr ip = ip := cstr_eq_self (h.expects hpc rfl).2.2
    have hcond : AddsFreshName w l ↔ (31 < (cstr pkt.senderPtr).length →
        maxClients ≤ w.table.numClientes ∨ (∃ i r, w.table.Active i r ∧ r.ip.str = ip) ∨
        ∀ i r, w.table.Active i r → r.username.str ≠ (cstr pkt.senderPtr).take 31) := by
      constructor
      · intro hall
        exact hall c fd ip pkt ht hidle hpc
      · intro hone c' fd' ip' pkt' _ _ hpc'
        rw [hpc] at hpc'
        obtain ⟨-, -, rfl, rfl⟩ := Pc.register.inj hpc'
        exact hone
    rw [hcond]
    obtain ⟨now, htable⟩ := table_of_register ht hidle hpc hs
    rcases clAdd_cases w.table pkt.senderPtr ip fd now with
      ⟨hres, hfull⟩ | ⟨hres, -, hdup⟩ | ⟨hres, hnum, hdup⟩
    · -- refused: full
      rw [htable, hres]
      exact iff_of_true hnames fun _ => .inl hfull
    · -- refused: the name or the IP is taken, and for a long name it is the IP
      rw [htable, hres]
      refine iff_of_true hnames fun hlen => .inr (.inl ?_)
      rw [← hip]
      exact ip_of_duplicate h.core.ok hdup hlen
    · -- accepted: the new record is compared with the others
      rw [htable, hres]
      show (added w.table (newCliente pkt.senderPtr ip fd now)).NamesDistinct ↔ _
      rw [added_namesDistinct_iff h.core.ok hnum hnames]
      constructor
      · exact fun hnew _ => .inr (.inr hnew)
      · intro hcond i r hr
        by_cases hlen : 31 < (cstr pkt.senderPtr).length
        · rcases hcond hlen with hfull | ⟨j, s, hs, hsame⟩ | hnew
          · omega
          · exact absurd (hsame.trans hip.symm) (duplicate_eq_false h.core.ok hdup hs).2
          · exact hnew i r hr
        · exact fresh_of_length_le h.core.ok hdup (by omega) hr
  · -- no registration
    refine iff_of_true (namesDistinct_of_not_register hnames hs ?_) ?_
    · exact fun c fd ip pkt ht hidle hpc => hreg ⟨c, fd, ip, pkt, ht, hidle, hpc⟩
    · exact fun c fd ip pkt ht hidle hpc => absurd ⟨c, fd, ip, pkt, ht, hidle, hpc⟩ hreg

theorem clInit_namesDistinct : clInit.NamesDistinct :=
  fun _ _ _ _ hr _ _ => absurd hr (clInit_not_active _ _)

/-- **Names are distinct in every state of a run exactly when every step of it
meets `AddsFreshName`.** -/
theorem namesDistinct_iff {tr : List (World × Label)} {w : World}
    (h : Run step World.init tr w) :
    StatesAll (fun w => w.table.NamesDistinct) tr w ↔ StepsAll AddsFreshName tr :=
  h.statesAll_iff_stepsAll Inv.init (fun _ _ _ hI hs => hI.step hs) clInit_namesDistinct
    fun _ _ _ hI hnames hs => step_namesDistinct_iff hI hnames hs

/-! ### Two records of one name -/

/-- A name that fills the sender field. -/
def longName : List UInt8 := List.replicate 32 65

/-- What the bridge sends for it: all 32 bytes are copied. -/
def longRegister : ChatPacket where
  command := cmdRegister
  payloadLen := 0
  sender := ⟨longName, by decide⟩
  target := .zero 32
  payload := .zero 957

/-- Two users register with it, from different addresses. -/
def twoLongNames : List Label :=
  joining 4 (ip 1) longRegister ++ joining 5 (ip 2) longRegister

theorem exec_twoLongNames : (exec step World.init twoLongNames).any (fun w =>
    (w.table.at 0).activo && (w.table.at 1).activo &&
      (w.table.at 0).username == (w.table.at 1).username &&
      w.table.lista.length == 100) = true := by
  decide +kernel

/-- The name being registered, if any, fits its field. -/
def registersShort (w : World) (_ : Label) : Bool :=
  match w.pc .main with
  | .register _ _ _ pkt => (cstr pkt.senderPtr).length ≤ 31
  | _ => true

theorem addsFreshName_of_registersShort {w : World} {l : Label}
    (h : registersShort w l = true) : AddsFreshName w l := by
  intro c fd ip pkt _ _ hpc hlong
  simp only [registersShort, hpc, decide_eq_true_eq] at h
  omega

/-- Alice and bob register with ordinary names. -/
def twoShortNames : List Label :=
  joining 4 (ip 1) (registerPacket alice) ++ joining 5 (ip 2) (registerPacket bob)

theorem exec_twoShortNames : (execIf registersShort step World.init twoShortNames).any (fun w =>
    (w.table.at 0).activo && (w.table.at 1).activo) = true := by
  decide +kernel

/-- Their names are distinct throughout. -/
theorem namesDistinct_iff_twoShortNames : ∃ tr w, Run step World.init tr w ∧
    (w.table.at 0).activo = true ∧ (w.table.at 1).activo = true ∧ StepsAll AddsFreshName tr ∧
    StatesAll (fun w => w.table.NamesDistinct) tr w := by
  obtain ⟨tr, w, hrun, -, hshort, hp⟩ := exists_run_of_execIf exec_twoShortNames
  simp only [Bool.and_eq_true] at hp
  have hfresh : StepsAll AddsFreshName tr :=
    fun x hx => addsFreshName_of_registersShort (hshort x hx)
  exact ⟨tr, w, hrun, hp.1, hp.2, hfresh, (namesDistinct_iff hrun).mpr hfresh⟩

/-- **Names need not be distinct.** -/
theorem not_always_namesDistinct :
    ¬ ∀ w, Reachable step World.init w → w.table.NamesDistinct := by
  intro hall
  obtain ⟨w, hw, hp⟩ := exists_reachable exec_twoLongNames
  simp only [Bool.and_eq_true, beq_iff_eq] at hp
  obtain ⟨⟨⟨h₀, h₁⟩, hname⟩, hsize⟩ := hp
  have hslot : ∀ i < 100, w.table.lista[i]? = some (w.table.at i) := by
    intro i hi
    rw [Table.at, List.getD_eq_getElem?_getD, List.getElem?_eq_getElem (by omega)]
    rfl
  have := hall w hw 0 1 _ _ ⟨hslot 0 (by decide), h₀⟩ ⟨hslot 1 (by decide), h₁⟩ (by rw [hname])
  cases this

end ChatSystem
