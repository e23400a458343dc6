/-
ChatSystem/Usable.lean

The name a user registered with, used later.  `cl_add` stores the sender
string of the `REGISTER` cut to 31 bytes; the lookups compare with the whole
string of the packet at hand.  A sender field without a NUL is therefore
stored under a name that the same field never finds again; and a field with
one can be shadowed by a record in a lower slot whose longer name was cut to
the same 31 bytes.

`usable_iff` says that nothing else can go wrong, in every reachable state.
-/
import ChatSystem.OwnNames
import ChatSystem.Representation
import ChatSystem.Welcome

namespace ChatSystem

open CStr Lts

/-- The field `f` names the record in slot `i`: a STATUS with the sender `f`
changes that record and is answered `OK`, and a DIRECT or an INFO with the
target `f` finds it. -/
structure Usable (t : Table) (i : ℕ) (f : CharArray 32) : Prop where
  status : ∀ pkt : ChatPacket, pkt.command = cmdStatus → pkt.sender = f → pkt.target.str = [] →
    (handleStatus t pkt).2.command = cmdOk ∧
      (handleStatus t pkt).1 = t.modifySlot i (setStatus pkt.payloadPtr)
  target : ∀ pkt : ChatPacket, pkt.command = cmdDirect ∨ pkt.command = cmdInfo → pkt.target = f →
    clFindByName t pkt.targetPtr = some i

/-- No record in a lower slot has the name in `f`. -/
def FirstOfName (t : Table) (i : ℕ) (f : CharArray 32) : Prop :=
  ∀ j r, j < i → t.Active j r → r.username.str ≠ f.str

/-! ### The name stored -/

/-- A record was made from the `REGISTER` of its connection. -/
def FromRequests (w : World) : Prop :=
  ∀ c i r, Event.registered c i r ∈ w.log →
    ∃ pkt ip fd now, Asked w.log c pkt ∧ r = newCliente pkt.senderPtr ip fd now

theorem Move.asked {w w' : World} {l : Label} (h : Move w l w') {c : ℕ} {pkt : ChatPacket}
    (hask : Asked w.log c pkt) : Asked w'.log c pkt := by
  obtain ⟨fd, hmem⟩ := hask
  exact ⟨fd, h.mem_log hmem⟩

/-- **Every record goes back to a `REGISTER`**, which is the only packet `main`
received on its connection. -/
theorem requests_of_reachable {w : World} (h : Reachable step World.init w) :
    FromRequests w ∧ Replies w := by
  have hall : (Inv w ∧ Provenance w ∧ Replies w) ∧ FromRequests w := by
    refine h.invariant (I := fun w => (Inv w ∧ Provenance w ∧ Replies w) ∧ FromRequests w)
      ⟨⟨.init, .init, .init⟩, fun c i r hr => by cases hr⟩ ?_
    rintro w l w' ⟨⟨hinv, hw, hr⟩, hfrom⟩ hs
    have hm := move_of_step hs
    refine ⟨⟨hinv.move hm, hw.move hinv hm, hr.move hinv hw hm⟩, fun c i r hreg => ?_⟩
    rcases hm.registered_cases hreg with hold | ⟨fd, ip, pkt, now, hpc, rfl⟩
    · obtain ⟨pkt, ip, fd, now, hask, hrec⟩ := hfrom c i r hold
      exact ⟨pkt, ip, fd, now, hm.asked hask, hrec⟩
    · exact ⟨pkt, ip, fd, now, hm.asked (hr.asked c fd ip pkt hpc).1, rfl⟩
  exact ⟨hall.2, hall.1.2.2⟩

/-- The name of a record that is still there. -/
theorem name_of_live {w : World} (h : Reachable step World.init w) {c i : ℕ} {r₀ : Cliente}
    {pkt : ChatPacket} (hask : Asked w.log c pkt) (hlive : Live w.log c i r₀) :
    ∃ r, w.table.Active i r ∧ r.username.str = (cstr pkt.senderPtr).take 31 := by
  obtain ⟨hfrom, hreplies⟩ := requests_of_reachable h
  obtain ⟨pkt', ip, fd, now, hask', rfl⟩ := hfrom c i r₀ hlive.1
  obtain rfl := hreplies.unique c pkt pkt' hask hask'
  obtain ⟨r, hr, hid⟩ := (represents_of_reachable h).1.active c i _ hlive
  refine ⟨r, hr, ?_⟩
  rw [hid.1]
  exact str_username_newCliente _ _ _ _

/-! ### The name looked up -/

section Lookup

variable {t : Table} {i : ℕ} {r : Cliente} {f : CharArray 32}

/-- A full field runs on into the next one. -/
theorem le_length_cstr_of_not_terminated (hf : ¬ f.Terminated) (rest : List UInt8) :
    32 ≤ (cstr (f.bytes ++ rest)).length := by
  rw [cstr_append_of_notMem hf, List.length_append, f.size_eq]
  exact Nat.le_add_right _ _

/-- The first record of the name is found by the field. -/
theorem usable_of_first (ht : t.Ok) (hr : t.Active i r) (hname : r.username.str = f.str)
    (hf : f.Terminated) (hfirst : FirstOfName t i f) : Usable t i f := by
  have hfind : ∀ name, cstr name = f.str → clFindByName t name = some i := by
    intro name hstr
    rw [clFindByName_eq_some_iff ht, hstr]
    exact ⟨⟨r, hr, hname⟩, hfirst⟩
  constructor
  · rintro pkt - rfl -
    have hown := hfind pkt.senderPtr (ChatPacket.cstr_senderPtr hf)
    simp [handleStatus, clSetStatus, hown, sendOk]
  · rintro pkt - rfl
    exact hfind pkt.targetPtr (ChatPacket.cstr_targetPtr hf)

/-- A field that finds the record has a NUL, and no other record is in the
way. -/
theorem first_of_usable (ht : t.Ok) (hu : Usable t i f) : f.Terminated ∧ FirstOfName t i f := by
  have hfind := hu.target ⟨cmdDirect, 0, .zero 32, f, .zero 957⟩ (.inl rfl) rfl
  obtain ⟨⟨r, hr, hname⟩, hfirst⟩ := (clFindByName_eq_some_iff ht).mp hfind
  have hf : f.Terminated := by
    by_contra hfull
    have hlong := le_length_cstr_of_not_terminated hfull (CharArray.zero 957).bytes
    have hshort := (ht.username hr).length_str_lt
    rw [hname] at hshort
    exact Nat.not_lt.mpr hlong hshort
  refine ⟨hf, fun j s hj hs hsame => hfirst j s hj hs ?_⟩
  rw [hsame]
  exact (ChatPacket.cstr_targetPtr (p := ⟨cmdDirect, 0, .zero 32, f, .zero 957⟩) hf).symm

end Lookup

/-- **An accepted name is usable** in a state exactly when its field has a NUL
and no lower slot holds a record of the same name. -/
theorem usable_iff {w : World} (h : Reachable step World.init w) {c i : ℕ} {r₀ : Cliente}
    {pkt : ChatPacket} (hask : Asked w.log c pkt) (hlive : Live w.log c i r₀) :
    Usable w.table i pkt.sender ↔
      pkt.sender.Terminated ∧ FirstOfName w.table i pkt.sender := by
  have ht := (inv_of_reachable h).core.ok
  constructor
  · exact first_of_usable ht
  · rintro ⟨hf, hfirst⟩
    obtain ⟨r, hr, hname⟩ := name_of_live h hask hlive
    have hshort : pkt.sender.str.length ≤ 31 := Nat.le_of_lt_succ hf.length_str_lt
    rw [ChatPacket.cstr_senderPtr hf, List.take_of_length_le hshort] at hname
    exact usable_of_first ht hr hname hf hfirst

/-! ### A name that fills its field -/

/-- The first user has registered with this packet. -/
def joinedWith (pkt : ChatPacket) (w : World) : Bool :=
  w.log.any (· == .received .main 4 (some 0) pkt) &&
    w.log.any (· == .registered 0 0 (newCliente pkt.senderPtr (ip 1) 4 0)) &&
    !w.log.any (· == .removed 0)

theorem joinedWith_spec {pkt : ChatPacket} {w : World} (h : joinedWith pkt w = true) :
    Asked w.log 0 pkt ∧ Live w.log 0 0 (newCliente pkt.senderPtr (ip 1) 4 0) := by
  simp only [joinedWith, Bool.and_eq_true, Bool.not_eq_true', List.any_eq_true, beq_iff_eq,
    exists_eq_right, List.any_eq_false] at h
  obtain ⟨⟨hask, hreg⟩, hrem⟩ := h
  exact ⟨⟨4, hask⟩, hreg, fun hmem => hrem _ hmem rfl⟩

theorem exec_joinedWith_alice : (exec step World.init (joining 4 (ip 1) (registerPacket alice))).any
    (joinedWith (registerPacket alice)) = true := by
  decide +kernel

theorem exec_joinedWith_long : (exec step World.init (joining 4 (ip 1) longRegister)).any
    (joinedWith longRegister) = true := by
  decide +kernel

theorem usable_iff_alice : ∃ w, Reachable step World.init w ∧
    (Usable w.table 0 (registerPacket alice).sender ↔
      (registerPacket alice).sender.Terminated ∧
        FirstOfName w.table 0 (registerPacket alice).sender) := by
  obtain ⟨w, hw, hp⟩ := exists_reachable exec_joinedWith_alice
  obtain ⟨hask, hlive⟩ := joinedWith_spec hp
  exact ⟨w, hw, usable_iff hw hask hlive⟩

/-- **A name of 32 bytes is accepted and never found again.** -/
theorem not_always_usable :
    ¬ ∀ (w : World) (c i : ℕ) (r₀ : Cliente) (pkt : ChatPacket), Reachable step World.init w →
      Asked w.log c pkt → Live w.log c i r₀ → Usable w.table i pkt.sender := by
  intro hall
  obtain ⟨w, hw, hp⟩ := exists_reachable exec_joinedWith_long
  obtain ⟨hask, hlive⟩ := joinedWith_spec hp
  have hu := hall w 0 0 _ longRegister hw hask hlive
  have hterm := (first_of_usable (inv_of_reachable hw).core.ok hu).1
  exact absurd hterm (by decide)

end ChatSystem
