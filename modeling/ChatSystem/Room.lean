/-
ChatSystem/Room.lean

A chat room, on paper: a row of seats, each empty or taken by a guest with a
name, an address, a status and the moment it was last heard of.  What can
happen in a room is an `Action`; `step` says what becomes of the row.

* A guest who joins offers a name.  Nobody with that name or that address may
  be there; the guest takes the first empty seat, or a new one at the end, and
  is known by the name as the room writes it down (`clip`).
* A guest who speaks is seen; one who was marked idle is active again.
* A status is set for the first guest of a given name.

Nothing here depends on how names, addresses and statuses are represented, or
on how the room learns of what happens.
-/
import ChatSystem.Lts
import Mathlib.Data.Int.Notation

namespace Room

open Lts

variable {N A S : Type*}

/-! ### Rooms -/

structure Guest (N A S : Type*) where
  name : N
  addr : A
  status : S
  seen : ℤ
deriving DecidableEq

/-- The seats ever used, each empty or taken. -/
abbrev Seats (N A S : Type*) := List (Option (Guest N A S))

/-- How a room is run. -/
structure Rules (N S : Type*) where
  capacity : ℕ
  timeout : ℤ
  active : S
  inactive : S
  /-- How a name, and a status, is written down. -/
  clip : N → N
  clipStatus : S → S

/-- What happens. -/
inductive Action (N A S : Type*)
  | join (offered : N) (addr : A) (now : ℤ)
  | leave (seat : ℕ)
  | touch (seat : ℕ) (now : ℤ)
  | setStatus (name : N) (status : S)
  | expire (seat : ℕ) (now : ℤ)
deriving DecidableEq

section Step

variable [DecidableEq N] [DecidableEq A] [DecidableEq S]

/-- The seat of the first guest of a name. -/
def seatOf (seats : Seats N A S) (name : N) : Option ℕ :=
  seats.findIdx? fun s => s.any fun g => g.name = name

/-- Somebody has the name or the address. -/
def taken (seats : Seats N A S) (name : N) (addr : A) : Bool :=
  seats.any fun s => s.any fun g => g.name = name || g.addr = addr

/-- The row with a guest in the first empty seat, or in a new one. -/
def seated (seats : Seats N A S) (g : Guest N A S) : Seats N A S :=
  match seats.findIdx? fun s => s.isNone with
  | some i => seats.set i (some g)
  | none => seats ++ [some g]

def Guest.touch (rules : Rules N S) (now : ℤ) (g : Guest N A S) : Guest N A S :=
  { g with seen := now, status := if g.status = rules.inactive then rules.active else g.status }

/-- Idle: not marked yet, and not heard of for too long. -/
def Guest.idle (rules : Rules N S) (now : ℤ) (g : Guest N A S) : Bool :=
  g.status ≠ rules.inactive && decide (rules.timeout ≤ now - g.seen)

/-- The guest in a seat changes; nobody may be missing. -/
def change (seats : Seats N A S) (i : ℕ) (f : Guest N A S → Guest N A S) :
    Option (Seats N A S) :=
  if (seats[i]?.join).isSome then some (seats.modify i (Option.map f)) else none

/-- The row after an action; `none` when the room does not allow it. -/
def step (rules : Rules N S) (seats : Seats N A S) : Action N A S → Option (Seats N A S)
  | .join offered addr now =>
    if seats.length < rules.capacity ∧ taken seats offered addr = false then
      some (seated seats ⟨rules.clip offered, addr, rules.active, now⟩)
    else none
  | .leave i => if (seats[i]?.join).isSome then some (seats.set i none) else none
  | .touch i now => change seats i (Guest.touch rules now)
  | .setStatus name status =>
    (seatOf seats name).bind fun i =>
      change seats i fun g => { g with status := rules.clipStatus status }
  | .expire i now =>
    if (seats[i]?.join).any (Guest.idle rules now) then
      change seats i fun g => { g with status := rules.inactive }
    else none

end Step

/-! ### Who is there -/

/-- The guest `g` sits in seat `i`. -/
def Sits (seats : Seats N A S) (i : ℕ) (g : Guest N A S) : Prop := seats[i]? = some (some g)

variable {seats seats' : Seats N A S} {i j : ℕ} {g h : Guest N A S}

theorem sits_set_none : Sits (seats.set i none) j g ↔ Sits seats j g ∧ j ≠ i := by
  unfold Sits
  by_cases hj : j = i
  · subst hj
    by_cases hlt : j < seats.length
    · simp [hlt]
    · simp [List.set_eq_of_length_le (Nat.le_of_not_lt hlt),
        List.getElem?_eq_none (Nat.le_of_not_lt hlt)]
  · simp [List.getElem?_set_ne (Ne.symm hj), hj]

theorem sits_modify {f : Guest N A S → Guest N A S} :
    Sits (seats.modify i (Option.map f)) j g ↔
      ∃ g₀, Sits seats j g₀ ∧ g = if i = j then f g₀ else g₀ := by
  unfold Sits
  rw [List.getElem?_modify]
  by_cases hij : i = j
  · subst hij
    rcases hs : seats[i]? with - | - | g₀ <;> simp [eq_comm]
  · simp [hij]

/-- Where the next guest sits. -/
def freeSeat (seats : Seats N A S) : ℕ :=
  (seats.findIdx? fun s => s.isNone).getD seats.length

theorem sits_seated : Sits (seated seats g) j h ↔ j = freeSeat seats ∧ h = g ∨ Sits seats j h := by
  rcases hfree : seats.findIdx? (fun s => s.isNone) with - | i
  · simp only [Sits, seated, freeSeat, hfree, Option.getD_none]
    rcases Nat.lt_trichotomy j seats.length with hj | hj | hj
    · simp [List.getElem?_append_left hj, Nat.ne_of_lt hj]
    · subst hj
      simp [eq_comm]
    · have hpast : (seats ++ [some g])[j]? = none :=
        List.getElem?_eq_none (by rw [List.length_append]; exact hj)
      simp [hpast, List.getElem?_eq_none (Nat.le_of_lt hj), Nat.ne_of_gt hj]
  · obtain ⟨hlt, hnone, -⟩ := List.findIdx?_eq_some_iff_getElem.mp hfree
    simp only [Sits, seated, freeSeat, hfree, Option.getD_some]
    by_cases hj : j = i
    · subst hj
      have hempty : seats[j] = none := Option.isNone_iff_eq_none.mp hnone
      simp [hlt, hempty, eq_comm]
    · simp [List.getElem?_set_ne (Ne.symm hj), hj]

/-! ### Nobody twice -/

/-- No two guests agree about `f`. -/
def Apart {α : Type*} (f : Guest N A S → α) (seats : Seats N A S) : Prop :=
  ∀ i j g h, Sits seats i g → Sits seats j h → f g = f h → i = j

section Apart

variable {α : Type*} {f : Guest N A S → α}

theorem Apart.leave (hap : Apart f seats) (i : ℕ) : Apart f (seats.set i none) :=
  fun _ _ _ _ hg hh => hap _ _ _ _ (sits_set_none.mp hg).1 (sits_set_none.mp hh).1

theorem Apart.change (hap : Apart f seats) {u : Guest N A S → Guest N A S}
    (hu : ∀ g, f (u g) = f g) (i : ℕ) : Apart f (seats.modify i (Option.map u)) := by
  intro j k g h hg hh heq
  obtain ⟨g₀, hg₀, rfl⟩ := sits_modify.mp hg
  obtain ⟨h₀, hh₀, rfl⟩ := sits_modify.mp hh
  refine hap j k g₀ h₀ hg₀ hh₀ ?_
  -- the update keeps what is compared
  have hkeep : ∀ (b : Prop) [Decidable b] (g : Guest N A S), f (if b then u g else g) = f g := by
    intro b _ g
    split
    · exact hu g
    · rfl
  rwa [hkeep, hkeep] at heq

theorem Apart.join (hap : Apart f seats) (hnew : ∀ i h, Sits seats i h → f h ≠ f g) :
    Apart f (seated seats g) := by
  intro i j g' h' hg hh heq
  rcases sits_seated.mp hg with ⟨hi, rfl⟩ | hgOld <;>
    rcases sits_seated.mp hh with ⟨hj, rfl⟩ | hhOld
  · rw [hi, hj]
  · exact absurd heq.symm (hnew j h' hhOld)
  · exact absurd heq (hnew i g' hgOld)
  · exact hap i j g' h' hgOld hhOld heq

end Apart

section Step

variable [DecidableEq N] [DecidableEq A]

theorem not_taken {name : N} {addr : A} (hfree : taken seats name addr = false)
    (hg : Sits seats i g) : g.name ≠ name ∧ g.addr ≠ addr := by
  have := List.any_eq_false.mp hfree (some g) (List.mem_of_getElem? hg)
  simpa [not_or] using this

variable [DecidableEq S] {rules : Rules N S} {a : Action N A S}

/-- What an allowed action does: a guest joins, leaves, or is changed in his
seat without a new name or address. -/
theorem step_cases (hs : step rules seats a = some seats') :
    (∃ offered addr now, a = .join offered addr now ∧ seats.length < rules.capacity ∧
      taken seats offered addr = false ∧
      seats' = seated seats ⟨rules.clip offered, addr, rules.active, now⟩) ∨
    (∃ i, a = .leave i ∧ seats' = seats.set i none) ∨
    ∃ i u, (∀ g : Guest N A S, (u g).name = g.name ∧ (u g).addr = g.addr) ∧
      seats' = seats.modify i (Option.map u) := by
  have hchange {i : ℕ} {u : Guest N A S → Guest N A S} (h : change seats i u = some seats') :
      seats' = seats.modify i (Option.map u) := by
    unfold change at h
    split at h
    · exact (Option.some.inj h).symm
    · cases h
  cases a with
  | join offered addr now =>
    simp only [step] at hs
    split at hs
    case isTrue hok => exact .inl ⟨offered, addr, now, rfl, hok.1, hok.2, (Option.some.inj hs).symm⟩
    case isFalse => cases hs
  | leave i =>
    simp only [step] at hs
    split at hs
    · exact .inr (.inl ⟨i, rfl, (Option.some.inj hs).symm⟩)
    · cases hs
  | touch i now => exact .inr (.inr ⟨i, Guest.touch rules now, fun _ => ⟨rfl, rfl⟩, hchange hs⟩)
  | setStatus name status =>
    obtain ⟨i, -, hs⟩ := Option.bind_eq_some_iff.mp hs
    exact .inr (.inr ⟨i, fun g => { g with status := rules.clipStatus status },
      fun _ => ⟨rfl, rfl⟩, hchange hs⟩)
  | expire i now =>
    simp only [step] at hs
    split at hs
    · exact .inr (.inr ⟨i, fun g => { g with status := rules.inactive }, fun _ => ⟨rfl, rfl⟩,
        hchange hs⟩)
    · cases hs

/-- Addresses stay apart. -/
theorem addrs_apart_step (hap : Apart Guest.addr seats) (hs : step rules seats a = some seats') :
    Apart Guest.addr seats' := by
  rcases step_cases hs with ⟨offered, addr, now, -, -, hfree, rfl⟩ | ⟨i, -, rfl⟩ | ⟨i, u, hu, rfl⟩
  · exact hap.join fun i h hh => (not_taken hfree hh).2
  · exact hap.leave i
  · exact hap.change (fun g => (hu g).2) i

/-- So do names, as long as each is written down as it was offered. -/
theorem names_apart_step (hap : Apart Guest.name seats)
    (hclip : ∀ offered addr now, a = .join offered addr now → rules.clip offered = offered)
    (hs : step rules seats a = some seats') : Apart Guest.name seats' := by
  rcases step_cases hs with ⟨offered, addr, now, rfl, -, hfree, rfl⟩ | ⟨i, -, rfl⟩ | ⟨i, u, hu, rfl⟩
  · refine hap.join fun i h hh => ?_
    show h.name ≠ rules.clip offered
    rw [hclip offered addr now rfl]
    exact (not_taken hfree hh).1
  · exact hap.leave i
  · exact hap.change (fun g => (hu g).1) i

/-- After any actions from the empty room addresses are apart. -/
theorem addrs_apart_of_exec {as : List (Action N A S)}
    (he : exec (step rules) [] as = some seats) : Apart Guest.addr seats := by
  obtain ⟨tr, hrun, -⟩ := run_of_exec he
  exact hrun.invariant (fun _ _ _ _ hg => by cases hg) fun _ _ _ hap hs =>
    addrs_apart_step hap hs

/-- And names, when each was written down as it was offered. -/
theorem names_apart_of_exec {as : List (Action N A S)}
    (hclip : ∀ offered addr now, .join offered addr now ∈ as → rules.clip offered = offered)
    (he : exec (step rules) [] as = some seats) : Apart Guest.name seats := by
  obtain ⟨tr, hrun, hacts⟩ := run_of_exec he
  refine hrun.invariant_of_steps (C := fun _ a => ∀ offered addr now, a = .join offered addr now →
    rules.clip offered = offered) (fun _ _ _ _ hg => by cases hg)
    (fun _ _ _ hap hC hs => names_apart_step hap hC hs) fun x hx offered addr now hjoin => ?_
  have hmem : x.2 ∈ as.reverse := hacts ▸ List.mem_map_of_mem hx
  rw [hjoin, List.mem_reverse] at hmem
  exact hclip offered addr now hmem

end Step

end Room
