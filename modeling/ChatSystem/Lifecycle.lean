/-
ChatSystem/Lifecycle.lean

What a connection is supposed to go through, stated over the history alone:

    fresh → connected → registered → left → gone
                 └────────────────────────────┘   (refused or never registered)

`phase h c` is the phase connection `c` has reached in the history `h`.
`Allowed e h` says when the event `e` may follow `h`: a connection is closed
once and by its own thread, a record is removed only while it is there, and
every packet is received from and sent to a connection whose descriptor is
open — through slot `i` only to the connection registered there.

A history all of whose events are allowed is *disciplined*
(`Always Allowed h`).  In a disciplined history the phase can be read off
membership: `c` is registered exactly when its registration is in the
history and its removal is not (`phase_registered_iff`).  That the server
produces disciplined histories only is proved in `ChatSystem/ServerInv.lean`.
-/
import ChatSystem.Lts
import ChatSystem.Server

namespace ChatSystem

open Lts

/-- The life of a connection. -/
inductive Phase
  | fresh
  | connected (fd : ℤ) (ip : List UInt8)
  | registered (slot : ℕ) (r : Cliente)
  | left (fd : ℤ)
  | gone
deriving DecidableEq

/-- The descriptor that denotes the connection. -/
def Phase.fd? : Phase → Option ℤ
  | fresh | gone => none
  | connected fd _ | left fd => some fd
  | registered _ r => some r.sockfd

/-- The phase of connection `c` after an event. -/
def Event.advance (c : ℕ) : Event → Phase → Phase
  | accepted c' fd ip, p => if c' = c then .connected fd ip else p
  | registered c' slot r, p => if c' = c then .registered slot r else p
  | removed c', p =>
    if c' = c then (match p.fd? with | some fd => .left fd | none => p) else p
  | closed c' _ _, p => if c' = c then .gone else p
  | _, p => p

/-- The phase connection `c` has reached. -/
def phase : List Event → ℕ → Phase
  | [], _ => .fresh
  | e :: h, c => e.advance c (phase h c)

@[simp] theorem phase_nil (c : ℕ) : phase [] c = .fresh := rfl

theorem phase_cons (e : Event) (h : List Event) (c : ℕ) :
    phase (e :: h) c = e.advance c (phase h c) := rfl

/-- The connection whose registration last filled slot `i`. -/
def registrant : List Event → ℕ → Option ℕ
  | [], _ => none
  | .registered c slot _ :: h, i => if slot = i then some c else registrant h i
  | _ :: h, i => registrant h i

/-- The connections a thread may receive from. -/
def Tid.Serves (t : Tid) (c : ℕ) : Prop := t = .main ∨ t = .client c

/-- When an event may follow a history. -/
def Allowed : Event → List Event → Prop
  | .accepted c _ _, h => phase h c = .fresh
  | .received t fd peer _, h | .recvFailed t fd peer, h =>
    ∃ c, peer = some c ∧ t.Serves c ∧ (phase h c).fd? = some fd
  | .registered c _ r, h => ∃ ip, phase h c = .connected r.sockfd ip
  | .rejected c _, h => ∃ fd ip, phase h c = .connected fd ip
  | .checked c found, h =>
    (found = false ∧ ∃ fd ip, phase h c = .connected fd ip) ∨
      (found = true ∧ ∃ i r, phase h c = .registered i r)
  | .removed c, h => ∃ i r, phase h c = .registered i r
  | .closed c fd peer, h =>
    peer = some c ∧ ((∃ ip, phase h c = .connected fd ip) ∨ phase h c = .left fd)
  | .locked _ _ _, _ | .unlocked _ _, _ => True
  | .send t s peer _ _, h =>
    ∃ c, peer = some c ∧ (phase h c).fd? = some s.fd ∧
      match s.site.slot? with
      | some i => registrant h i = some c ∧ ∃ r, phase h c = .registered i r
      | none => t.Serves c

/-! ### Disciplined histories -/

variable {h : List Event} {c : ℕ}

/-- An event about no connection's life. -/
def Event.Neutral : Event → Prop
  | accepted .. | registered .. | removed .. | closed .. => False
  | _ => True

theorem Event.Neutral.advance {e : Event} (he : e.Neutral) (c : ℕ) (p : Phase) :
    e.advance c p = p := by
  cases e <;> first | rfl | exact he.elim

theorem Event.Neutral.registrant {e : Event} (he : e.Neutral) (h : List Event) (i : ℕ) :
    registrant (e :: h) i = ChatSystem.registrant h i := by
  cases e <;> first | rfl | exact he.elim

/-- The connection whose life an event is about. -/
def Event.subject? : Event → Option ℕ
  | accepted c _ _ | registered c _ _ | removed c | closed c _ _ => some c
  | _ => none

theorem Event.advance_of_ne {e : Event} (he : e.subject? ≠ some c) (p : Phase) :
    e.advance c p = p := by
  cases e <;> simp_all [Event.subject?, Event.advance]

/-- An event takes no other connection further. -/
theorem phase_cons_of_ne {e : Event} (he : e.subject? = some c) {c' : ℕ} (hne : c' ≠ c) :
    phase (e :: h) c' = phase h c' := by
  rw [phase_cons, Event.advance_of_ne]
  rw [he]
  exact fun heq => hne (Option.some.inj heq).symm

/-- How far a connection has come. -/
def Phase.rank : Phase → ℕ
  | fresh => 0
  | connected _ _ => 1
  | registered _ _ => 2
  | left _ => 3
  | gone => 4

/-- An allowed event takes its connection further. -/
theorem rank_lt_advance {e : Event} (hall : Allowed e h) (he : e.subject? = some c) :
    (phase h c).rank < (e.advance c (phase h c)).rank := by
  cases e <;> simp only [Event.subject?, Option.some.injEq, reduceCtorEq] at he
  case accepted c' fd ip =>
    subst he
    have hph : phase h c' = .fresh := hall
    simp [Event.advance, hph, Phase.rank]
  case registered c' i r =>
    subst he
    obtain ⟨ip, hph⟩ := hall
    simp [Event.advance, hph, Phase.rank]
  case removed c' =>
    subst he
    obtain ⟨i, r, hph⟩ := hall
    simp [Event.advance, hph, Phase.rank, Phase.fd?]
  case closed c' fd peer =>
    subst he
    obtain ⟨-, ⟨ip, hph⟩ | hph⟩ := hall
    · simp [Event.advance, hph, Phase.rank]
    · simp [Event.advance, hph, Phase.rank]

/-- No connection ever goes back. -/
theorem rank_le_cons {e : Event} (hall : Allowed e h) (c : ℕ) :
    (phase h c).rank ≤ (phase (e :: h) c).rank := by
  rw [phase_cons]
  by_cases he : e.subject? = some c
  · exact (rank_lt_advance hall he).le
  · rw [Event.advance_of_ne he]

theorem Phase.eq_gone {p : Phase} (hp : 4 ≤ p.rank) : p = .gone := by
  cases p <;> simp [Phase.rank] at hp ⊢

theorem Phase.left_or_gone {p : Phase} (hp : 3 ≤ p.rank) :
    (∃ fd, p = .left fd) ∨ p = .gone := by
  cases p <;> simp [Phase.rank] at hp ⊢

/-- From an event on, its connection is at least as far as the event took
it. -/
theorem rank_le_of_mem (hd : Always Allowed h) {e : Event} {n : ℕ} (he : e ∈ h)
    (hn : ∀ older, Allowed e older → n ≤ (phase (e :: older) c).rank) :
    n ≤ (phase h c).rank := by
  induction h with
  | nil => cases he
  | cons e' h ih =>
    obtain ⟨hall, hd⟩ := hd
    rcases List.mem_cons.mp he with rfl | he
    · exact hn h hall
    · exact (ih hd he).trans (rank_le_cons hall c)

theorem phase_ne_fresh_of_accepted (hd : Always Allowed h) {fd : ℤ} {ip : List UInt8}
    (hc : Event.accepted c fd ip ∈ h) : phase h c ≠ .fresh := by
  have hrank : 1 ≤ (phase h c).rank := rank_le_of_mem hd hc fun older _ => by
    simp [phase_cons, Event.advance, Phase.rank]
  intro hfresh
  rw [hfresh] at hrank
  cases hrank

theorem Phase.one_le_rank {p : Phase} {fd : ℤ} (hp : p.fd? = some fd) : 1 ≤ p.rank := by
  cases p <;> simp [Phase.fd?, Phase.rank] at hp ⊢

/-- A connection something is received from or sent to has been accepted. -/
theorem phase_ne_fresh_of_peer (hd : Always Allowed h) {e : Event} (he : e ∈ h)
    (hpeer : (∃ t fd pkt, e = .received t fd (some c) pkt) ∨
      ∃ t s written k, e = .send t s (some c) written k) : phase h c ≠ .fresh := by
  have hrank : 1 ≤ (phase h c).rank := by
    refine rank_le_of_mem hd he fun older hall => ?_
    rcases hpeer with ⟨t, fd, pkt, rfl⟩ | ⟨t, s, written, k, rfl⟩
    · obtain ⟨c', hc', -, hfd⟩ := hall
      obtain rfl := Option.some.inj hc'
      exact Phase.one_le_rank hfd
    · obtain ⟨c', hc', hfd, -⟩ := hall
      obtain rfl := Option.some.inj hc'
      exact Phase.one_le_rank hfd
  intro hfresh
  rw [hfresh] at hrank
  cases hrank

/-- Nothing happens to a connection after it is closed. -/
theorem phase_of_closed (hd : Always Allowed h) {fd : ℤ} {peer : Option ℕ}
    (hc : Event.closed c fd peer ∈ h) : phase h c = .gone :=
  Phase.eq_gone (rank_le_of_mem hd hc fun older _ => by
    simp [phase_cons, Event.advance, Phase.rank])

/-- A removed connection stays removed. -/
theorem phase_of_removed (hd : Always Allowed h) (hc : Event.removed c ∈ h) :
    (∃ fd, phase h c = .left fd) ∨ phase h c = .gone :=
  Phase.left_or_gone (rank_le_of_mem hd hc fun older hall => by
    obtain ⟨i, r, hph⟩ := hall
    simp [phase_cons, Event.advance, hph, Phase.rank, Phase.fd?])

/-- Once registered, a connection stays so until it is removed. -/
theorem phase_of_registered (hd : Always Allowed h) {i : ℕ} {r : Cliente}
    (hc : Event.registered c i r ∈ h) :
    phase h c = .registered i r ∨ Event.removed c ∈ h := by
  induction h with
  | nil => cases hc
  | cons e h ih =>
    obtain ⟨hall, hd⟩ := hd
    rcases List.mem_cons.mp hc with rfl | hc
    · exact .inl (by simp [phase_cons, Event.advance])
    rcases ih hd hc with hreg | hrem
    · by_cases he : e.subject? = some c
      · -- of the four events about `c`, only its removal may come now
        cases e <;> simp only [Event.subject?, Option.some.injEq, reduceCtorEq] at he <;>
          subst he
        case accepted => exact absurd (hreg.symm.trans hall) (by simp)
        case registered =>
          obtain ⟨ip, hph⟩ := hall
          exact absurd (hreg.symm.trans hph) (by simp)
        case removed => exact .inr List.mem_cons_self
        case closed =>
          obtain ⟨-, ⟨ip, hph⟩ | hph⟩ := hall
          · exact absurd (hreg.symm.trans hph) (by simp)
          · exact absurd (hreg.symm.trans hph) (by simp)
      · exact .inl (by rw [phase_cons, Event.advance_of_ne he, hreg])
    · exact .inr (List.mem_cons_of_mem _ hrem)

/-- A phase `registered` goes back to a registration. -/
theorem registered_mem_of_phase {i : ℕ} {r : Cliente} (hph : phase h c = .registered i r) :
    Event.registered c i r ∈ h := by
  induction h with
  | nil => cases hph
  | cons e h ih =>
    by_cases he : e.subject? = some c
    · cases e <;> simp only [Event.subject?, Option.some.injEq, reduceCtorEq] at he <;>
        subst he <;> simp only [phase_cons, Event.advance, if_true, reduceCtorEq] at hph
      case registered =>
        obtain ⟨rfl, rfl⟩ := Phase.registered.inj hph
        exact List.mem_cons_self
      case removed =>
        split at hph
        · cases hph
        · exact List.mem_cons_of_mem _ (ih hph)
    · rw [phase_cons, Event.advance_of_ne he] at hph
      exact List.mem_cons_of_mem _ (ih hph)

/-- An open descriptor was returned by `accept` for its connection, and the
connection has not been closed. -/
theorem accepted_mem_of_fd? (hd : Always Allowed h) {fd : ℤ}
    (hfd : (phase h c).fd? = some fd) :
    (∃ ip, Event.accepted c fd ip ∈ h) ∧ ∀ fd' peer, Event.closed c fd' peer ∉ h := by
  refine ⟨?_, fun fd' peer hc => ?_⟩
  · induction h with
    | nil => cases hfd
    | cons e h ih =>
      obtain ⟨hall, hd⟩ := hd
      by_cases he : e.subject? = some c
      · cases e <;> simp only [Event.subject?, Option.some.injEq, reduceCtorEq] at he <;>
          subst he <;> simp only [phase_cons, Event.advance, if_true] at hfd
        -- the descriptor comes with the connection
        case accepted c' fd' ip =>
          obtain rfl := Option.some.inj hfd
          exact ⟨ip, List.mem_cons_self⟩
        -- and is handed on from phase to phase
        case registered c' i r =>
          obtain ⟨ip, hph⟩ := hall
          obtain ⟨ip', hmem⟩ := ih hd (by rw [hph, ← hfd]; rfl)
          exact ⟨ip', List.mem_cons_of_mem _ hmem⟩
        case removed c' =>
          obtain ⟨i, r, hph⟩ := hall
          simp only [hph, Phase.fd?] at hfd
          obtain ⟨ip', hmem⟩ := ih hd (by rw [hph, ← hfd]; rfl)
          exact ⟨ip', List.mem_cons_of_mem _ hmem⟩
        case closed => cases hfd
      · rw [phase_cons, Event.advance_of_ne he] at hfd
        obtain ⟨ip', hmem⟩ := ih hd hfd
        exact ⟨ip', List.mem_cons_of_mem _ hmem⟩
  · rw [phase_of_closed hd hc] at hfd
    cases hfd

/-- **Registered, in terms of the history**: the registration has happened
and the removal has not. -/
theorem phase_registered_iff (hd : Always Allowed h) {i : ℕ} {r : Cliente} :
    phase h c = .registered i r ↔
      Event.registered c i r ∈ h ∧ Event.removed c ∉ h := by
  constructor
  · intro hph
    refine ⟨registered_mem_of_phase hph, fun hrem => ?_⟩
    rcases phase_of_removed hd hrem with ⟨fd, hleft⟩ | hgone
    · rw [hph] at hleft
      cases hleft
    · rw [hph] at hgone
      cases hgone
  · rintro ⟨hreg, hrem⟩
    exact (phase_of_registered hd hreg).resolve_right hrem

end ChatSystem
