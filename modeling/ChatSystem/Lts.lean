/-
ChatSystem/Lts.lean

Deterministic labelled transition systems.  A system is a partial function

    step : σ → ℓ → Option σ

whose label carries everything the environment decides (which thread runs,
what a system call answers), so that a run is a list of labels and can be
replayed by `exec`.

A run is kept with its trace: the list of `(state, label)` pairs of its
steps, newest first.  Two notions are read off the trace:

* `StepsAll C tr` — every step of the run meets the condition `C`;
* `StatesAll P tr s` — every state the run visits satisfies `P`.

`Run.invariant` and `Run.invariant_of_steps` turn a one-step preservation
lemma into a fact about whole runs; `Run.statesAll_iff_stepsAll` turns an
exact one-step condition into an exact condition on runs.

The second half is about histories: lists of events, newest first, in which
every event is judged against the events before it (`Always`).
-/
import Mathlib.Data.List.Basic

namespace Lts

variable {σ ℓ : Type*}

/-! ### Runs -/

/-- `Run step s₀ tr s`: some run from `s₀` ends in `s`, and `tr` lists its
steps (the state each started in and its label), newest first. -/
inductive Run (step : σ → ℓ → Option σ) (s₀ : σ) : List (σ × ℓ) → σ → Prop
  | start : Run step s₀ [] s₀
  | step {tr s l s'} :
      Run step s₀ tr s → step s l = some s' → Run step s₀ ((s, l) :: tr) s'

/-- Some run ends in `s`. -/
def Reachable (step : σ → ℓ → Option σ) (s₀ s : σ) : Prop :=
  ∃ tr, Run step s₀ tr s

/-- Every step of the trace meets `C`. -/
def StepsAll (C : σ → ℓ → Prop) (tr : List (σ × ℓ)) : Prop :=
  ∀ x ∈ tr, C x.1 x.2

/-- Every state visited, the last one included, satisfies `P`. -/
def StatesAll (P : σ → Prop) (tr : List (σ × ℓ)) (s : σ) : Prop :=
  P s ∧ ∀ x ∈ tr, P x.1

@[simp] theorem stepsAll_nil (C : σ → ℓ → Prop) : StepsAll C [] := by
  simp [StepsAll]

@[simp] theorem stepsAll_cons {C : σ → ℓ → Prop} {s : σ} {l : ℓ}
    {tr : List (σ × ℓ)} :
    StepsAll C ((s, l) :: tr) ↔ C s l ∧ StepsAll C tr := by
  simp [StepsAll]

theorem statesAll_cons {P : σ → Prop} {s s' : σ} {l : ℓ}
    {tr : List (σ × ℓ)} :
    StatesAll P ((s, l) :: tr) s' ↔ P s' ∧ StatesAll P tr s := by
  simp [StatesAll]

variable {step : σ → ℓ → Option σ} {s₀ : σ}

/-- A fact that holds at the start and is preserved by every step that
meets `C` holds at the end of every run whose steps all meet `C`. -/
theorem Run.invariant_of_steps {I : σ → Prop} {C : σ → ℓ → Prop}
    (h₀ : I s₀) (hstep : ∀ s l s', I s → C s l → step s l = some s' → I s')
    {tr : List (σ × ℓ)} {s : σ} (h : Run step s₀ tr s)
    (hC : StepsAll C tr) : I s := by
  induction h with
  | start => exact h₀
  | step _ hs ih =>
    obtain ⟨hc, htr⟩ := stepsAll_cons.mp hC
    exact hstep _ _ _ (ih htr) hc hs

/-- The steps of a run were enabled. -/
theorem Run.enabled {tr : List (σ × ℓ)} {s : σ} (h : Run step s₀ tr s) :
    ∀ x ∈ tr, ∃ s', step x.1 x.2 = some s' := by
  induction h with
  | start => simp
  | step _ hs ih =>
    intro x hx
    rcases List.mem_cons.mp hx with rfl | hx
    · exact ⟨_, hs⟩
    · exact ih x hx

/-- The part of a run before one of its steps is a run. -/
theorem Run.before {newer older : List (σ × ℓ)} {s s' : σ} {l : ℓ}
    (h : Run step s₀ (newer ++ (s, l) :: older) s') : Run step s₀ older s := by
  induction newer generalizing s' with
  | nil =>
    cases h with
    | step hrun _ => exact hrun
  | cons x newer ih =>
    cases h with
    | step hrun _ => exact ih hrun

/-- The part of a run behind one of its steps is a run from where it leads. -/
theorem Run.behind {newer older : List (σ × ℓ)} {s s' : σ} {l : ℓ}
    (h : Run step s₀ (newer ++ (s, l) :: older) s') :
    ∃ s₁, step s l = some s₁ ∧ Run step s₁ newer s' := by
  induction newer generalizing s' with
  | nil =>
    cases h with
    | step _ hs => exact ⟨s', hs, .start⟩
  | cons x newer ih =>
    cases h with
    | step hrun hs =>
      obtain ⟨s₁, hfirst, hrest⟩ := ih hrun
      exact ⟨s₁, hfirst, hrest.step hs⟩

/-- Such a fact holds in every state of such a run. -/
theorem Run.statesAll_of_steps {I : σ → Prop} {C : σ → ℓ → Prop}
    (h₀ : I s₀) (hstep : ∀ s l s', I s → C s l → step s l = some s' → I s')
    {tr : List (σ × ℓ)} {s : σ} (h : Run step s₀ tr s)
    (hC : StepsAll C tr) : StatesAll I tr s := by
  induction h with
  | start => simp [StatesAll, h₀]
  | step hrun hs ih =>
    obtain ⟨hc, htr⟩ := stepsAll_cons.mp hC
    exact statesAll_cons.mpr ⟨hstep _ _ _ (ih htr).1 hc hs, ih htr⟩

theorem StatesAll.mono {P Q : σ → Prop} (hPQ : ∀ s, P s → Q s) {tr : List (σ × ℓ)} {s : σ}
    (h : StatesAll P tr s) : StatesAll Q tr s :=
  ⟨hPQ s h.1, fun x hx => hPQ x.1 (h.2 x hx)⟩

theorem StepsAll.and {C D : σ → ℓ → Prop} {tr : List (σ × ℓ)} (hC : StepsAll C tr)
    (hD : StepsAll D tr) : StepsAll (fun s l => C s l ∧ D s l) tr :=
  fun x hx => ⟨hC x hx, hD x hx⟩

/-- An inductive invariant holds at the end of every run. -/
theorem Run.invariant {I : σ → Prop} (h₀ : I s₀)
    (hstep : ∀ s l s', I s → step s l = some s' → I s')
    {tr : List (σ × ℓ)} {s : σ} (h : Run step s₀ tr s) : I s :=
  h.invariant_of_steps (C := fun _ _ => True) h₀
    (fun s l s' hI _ hs => hstep s l s' hI hs) (fun _ _ => trivial)

/-- An inductive invariant holds in every reachable state. -/
theorem Reachable.invariant {I : σ → Prop} (h₀ : I s₀)
    (hstep : ∀ s l s', I s → step s l = some s' → I s') {s : σ}
    (h : Reachable step s₀ s) : I s := by
  obtain ⟨tr, htr⟩ := h
  exact htr.invariant h₀ hstep

/-- **Exact conditions on runs.**  If, wherever the invariant `I` and the
property `P` hold, a step keeps `P` exactly when it meets `C`, then `P`
holds in every state a run visits exactly when all its steps meet `C`. -/
theorem Run.statesAll_iff_stepsAll {I P : σ → Prop} {C : σ → ℓ → Prop}
    (hI₀ : I s₀) (hI : ∀ s l s', I s → step s l = some s' → I s')
    (hP₀ : P s₀)
    (hiff : ∀ s l s', I s → P s → step s l = some s' → (P s' ↔ C s l))
    {tr : List (σ × ℓ)} {s : σ} (h : Run step s₀ tr s) :
    StatesAll P tr s ↔ StepsAll C tr := by
  induction h with
  | start => simp [StatesAll, StepsAll, hP₀]
  | step hrun hs ih =>
    have hIs := hrun.invariant hI₀ hI
    rw [statesAll_cons, stepsAll_cons, ih]
    constructor
    · rintro ⟨hP', htr⟩
      exact ⟨(hiff _ _ _ hIs (ih.mpr htr).1 hs).mp hP', htr⟩
    · rintro ⟨hc, htr⟩
      exact ⟨(hiff _ _ _ hIs (ih.mpr htr).1 hs).mpr hc, htr⟩

/-! ### Measures -/

/-- The run goes on from its last state. -/
theorem Run.trans {tr tr' : List (σ × ℓ)} {s s' : σ} (h : Run step s₀ tr s)
    (h' : Run step s tr' s') : Run step s₀ (tr' ++ tr) s' := by
  induction h' with
  | start => exact h
  | step _ hs ih => exact ih.step hs

/-- A step from `s` before a run from where it leads. -/
theorem Run.cons {l : ℓ} {s₁ s' : σ} {tr : List (σ × ℓ)} (hs : step s₀ l = some s₁)
    (h : Run step s₁ tr s') : Run step s₀ (tr ++ [(s₀, l)]) s' :=
  (Run.start.step hs).trans h

/-- **A measure bounds the steps that lower it**, when no other step raises
it. -/
theorem Run.countP_add_le {I : σ → Prop} {C : σ → ℓ → Prop} {μ : σ → ℕ} {m : ℓ → Bool}
    (hI : ∀ s l s', I s → step s l = some s' → I s')
    (hμ : ∀ s l s', I s → C s l → step s l = some s' →
      μ s' + (if m l then 1 else 0) ≤ μ s)
    {tr : List (σ × ℓ)} {s : σ} (h : Run step s₀ tr s) (h₀ : I s₀) (hC : StepsAll C tr) :
    tr.countP (fun x => m x.2) + μ s ≤ μ s₀ := by
  induction h with
  | start => simp
  | @step tr s l s' hrun hs ih =>
    obtain ⟨hc, htr⟩ := stepsAll_cons.mp hC
    have hlower := hμ s l s' (hrun.invariant h₀ hI) hc hs
    have hrest := ih htr
    rw [List.countP_cons]
    show _ + (if m l then 1 else 0) + _ ≤ _
    omega

/-- **Steps that lower a measure lead to the goal**: as long as the goal is not
reached, some step of the kind `C` is enabled, and each of them lowers `μ`. -/
theorem exists_run_to {I P : σ → Prop} {C : σ → ℓ → Prop} {μ : σ → ℕ}
    (hgo : ∀ s, I s → ¬ P s → ∃ l s', step s l = some s' ∧ C s l ∧ I s' ∧ μ s' < μ s)
    (s : σ) (hs : I s) :
    ∃ tr s', Run step s tr s' ∧ StepsAll C tr ∧ P s' ∧ I s' ∧ tr.length ≤ μ s := by
  by_cases hP : P s
  · exact ⟨[], s, .start, by simp, hP, hs, Nat.zero_le _⟩
  · obtain ⟨l, s₁, hstep, hC, hI, hlt⟩ := hgo s hs hP
    obtain ⟨tr, s', hrun, hCs, hP', hI', hlen⟩ := exists_run_to hgo s₁ hI
    refine ⟨tr ++ [(s, l)], s', hrun.cons hstep, ?_, hP', hI', ?_⟩
    · intro x hx
      rcases List.mem_append.mp hx with hx | hx
      · exact hCs x hx
      · obtain rfl := List.mem_singleton.mp hx
        exact hC
    · rw [List.length_append, List.length_singleton]
      omega
termination_by μ s

/-! ### Replaying a list of labels -/

/-- Run the labels in order; `none` as soon as one of them is not enabled. -/
def exec (step : σ → ℓ → Option σ) : σ → List ℓ → Option σ
  | s, [] => some s
  | s, l :: ls => (step s l).bind fun s' => exec step s' ls

theorem exec_append (step : σ → ℓ → Option σ) (s : σ) (ls ls' : List ℓ) :
    exec step s (ls ++ ls') = (exec step s ls).bind fun s' => exec step s' ls' := by
  induction ls generalizing s with
  | nil => rfl
  | cons l ls ih =>
    rw [List.cons_append, exec, exec]
    rcases step s l with - | s'
    · rfl
    · exact ih s'

theorem Run.exec {tr : List (σ × ℓ)} {s s' : σ} {ls : List ℓ}
    (h : Run step s₀ tr s) (he : Lts.exec step s ls = some s') :
    ∃ tr', Run step s₀ tr' s' ∧ tr'.map Prod.snd = ls.reverse ++ tr.map Prod.snd := by
  induction ls generalizing tr s with
  | nil =>
    obtain rfl : s = s' := by simpa [Lts.exec] using he
    exact ⟨tr, h, by simp⟩
  | cons l ls ih =>
    obtain ⟨s₁, hs, hrest⟩ := Option.bind_eq_some_iff.mp he
    obtain ⟨tr', hrun, hls⟩ := ih (h.step hs) hrest
    exact ⟨tr', hrun, by simp [hls]⟩

/-- Run the labels in order and keep the trace, after the trace `tr`. -/
def replay (step : σ → ℓ → Option σ) : σ → List (σ × ℓ) → List ℓ → Option (List (σ × ℓ) × σ)
  | s, tr, [] => some (tr, s)
  | s, tr, l :: ls => (step s l).bind fun s' => replay step s' ((s, l) :: tr) ls

theorem Run.replay {tr tr' : List (σ × ℓ)} {s s' : σ} {ls : List ℓ} (h : Run step s₀ tr s)
    (he : Lts.replay step s tr ls = some (tr', s')) : Run step s₀ tr' s' := by
  induction ls generalizing tr s with
  | nil =>
    obtain ⟨rfl, rfl⟩ := Prod.mk.inj (Option.some.inj he)
    exact h
  | cons l ls ih =>
    obtain ⟨s₁, hs, hrest⟩ := Option.bind_eq_some_iff.mp he
    exact ih (h.step hs) hrest

/-- A check on the trace and the last state names a run that passes it. -/
theorem exists_run_of_replay {p : List (σ × ℓ) × σ → Bool} {ls : List ℓ}
    (h : (Lts.replay step s₀ [] ls).any p = true) :
    ∃ tr s, Run step s₀ tr s ∧ p (tr, s) = true := by
  obtain ⟨⟨tr, s⟩, he, hp⟩ := (Option.any_eq_true _ _).mp h
  exact ⟨tr, s, Run.start.replay he, hp⟩

/-! ### Simulation -/

/-- From `t` to `t'` by the action `o`, or by standing still. -/
def Follows {τ α : Type*} (step' : τ → α → Option τ) (t : τ) (o : Option α) (t' : τ) : Prop :=
  match o with
  | none => t' = t
  | some a => step' t a = some t'

/-- **Forward simulation**: when every step of a system is one step of another
under the abstraction `f`, or none, every run of the first replays in the
second. -/
theorem Run.simulate {τ α : Type*} {step' : τ → α → Option τ} {f : σ → τ}
    {act : σ → ℓ → Option α} {I : σ → Prop} (h₀ : I s₀)
    (hI : ∀ s l s', I s → step s l = some s' → I s')
    (hsim : ∀ s l s', I s → step s l = some s' → Follows step' (f s) (act s l) (f s'))
    {tr : List (σ × ℓ)} {s : σ} (h : Run step s₀ tr s) :
    Lts.exec step' (f s₀) (tr.reverse.filterMap fun x => act x.1 x.2) = some (f s) := by
  induction h with
  | start => rfl
  | @step tr s l s' hrun hs ih =>
    have hfollow := hsim s l s' (hrun.invariant h₀ hI) hs
    rw [List.reverse_cons, List.filterMap_append, exec_append, ih, Option.bind_some]
    rcases hact : act s l with - | a
    · rw [hact] at hfollow
      have hsame : f s' = f s := hfollow
      simp [hact, Lts.exec, hsame]
    · rw [hact] at hfollow
      have hstep : step' (f s) a = some (f s') := hfollow
      simp [hact, Lts.exec, hstep]

/-! ### Components -/

/-- The steps of a run that are steps of a component, with its states. -/
def projected {τ α : Type*} (view : σ → τ) (part : ℓ → Option α) (tr : List (σ × ℓ)) :
    List (τ × α) :=
  tr.filterMap fun x => (part x.2).map fun a => (view x.1, a)

theorem projected_labels {τ α : Type*} (view : σ → τ) (part : ℓ → Option α)
    (tr : List (σ × ℓ)) :
    (projected view part tr).map Prod.snd = (tr.map Prod.snd).filterMap part := by
  unfold projected
  rw [List.map_filterMap, List.filterMap_map]
  refine List.filterMap_congr fun x _ => ?_
  show ((part x.2).map fun a => (view x.1, a)).map Prod.snd = part x.2
  rw [Option.map_map]
  exact Option.map_id'

/-- **Composition**: when the steps of a system, where `I` holds, are steps of a
component that keep to the conditions `C`, or leave the component alone, every run
of the system through such states projects onto a run of the component that keeps
to `C`. -/
theorem Run.project {τ α : Type*} {step' : τ → α → Option τ} {view : σ → τ}
    {part : ℓ → Option α} {I : σ → Prop} {C : τ → α → Prop}
    (hpart : ∀ s l s' a, I s → step s l = some s' → part l = some a →
      step' (view s) a = some (view s') ∧ C (view s) a)
    (hrest : ∀ s l s', I s → step s l = some s' → part l = none → view s' = view s)
    {tr : List (σ × ℓ)} {s : σ} (h : Run step s₀ tr s) (hI : StatesAll I tr s) :
    Run step' (view s₀) (projected view part tr) (view s) ∧
      StepsAll C (projected view part tr) := by
  induction h with
  | start => exact ⟨.start, stepsAll_nil C⟩
  | @step tr s l s' hrun hs ih =>
    obtain ⟨-, hstates⟩ := statesAll_cons.mp hI
    have hIs := hstates.1
    have ih := ih hstates
    rcases hl : part l with - | a
    · have hproj : projected view part ((s, l) :: tr) = projected view part tr := by
        simp [projected, hl]
      rw [hproj, hrest s l s' hIs hs hl]
      exact ih
    · have hproj : projected view part ((s, l) :: tr) =
          (view s, a) :: projected view part tr := by
        simp [projected, hl]
      obtain ⟨hstep, hC⟩ := hpart s l s' a hIs hs hl
      rw [hproj]
      exact ⟨ih.1.step hstep, stepsAll_cons.mpr ⟨hC, ih.2⟩⟩

/-- What a list of labels replays to is reachable, by a run with exactly
these labels. -/
theorem run_of_exec {s : σ} {ls : List ℓ} (he : Lts.exec step s₀ ls = some s) :
    ∃ tr, Run step s₀ tr s ∧ tr.map Prod.snd = ls.reverse := by
  obtain ⟨tr, hrun, hls⟩ := Run.start.exec he
  exact ⟨tr, hrun, by simpa using hls⟩

/-- A check that succeeds on what a list of labels replays to names a run
with these labels that ends in such a state. -/
theorem exists_run_of_exec {p : σ → Bool} {ls : List ℓ}
    (h : (Lts.exec step s₀ ls).any p = true) :
    ∃ tr s, Run step s₀ tr s ∧ tr.map Prod.snd = ls.reverse ∧ p s = true := by
  rcases he : Lts.exec step s₀ ls with - | s
  · simp [he] at h
  · obtain ⟨tr, hrun, hls⟩ := run_of_exec he
    exact ⟨tr, s, hrun, hls, by simpa [he] using h⟩

theorem exists_reachable_of_exec {p : σ → Bool} {ls : List ℓ}
    (h : (Lts.exec step s₀ ls).any p = true) :
    ∃ s, Reachable step s₀ s ∧ p s = true := by
  obtain ⟨tr, s, hrun, -, hp⟩ := exists_run_of_exec h
  exact ⟨s, ⟨tr, hrun⟩, hp⟩

/-- Run the labels in order as long as every step passes a check. -/
def execIf (check : σ → ℓ → Bool) (step : σ → ℓ → Option σ) : σ → List ℓ → Option σ
  | s, [] => some s
  | s, l :: ls => if check s l then (step s l).bind fun s' => execIf check step s' ls else none

theorem Run.execIf {check : σ → ℓ → Bool} {tr : List (σ × ℓ)} {s s' : σ} {ls : List ℓ}
    (h : Run step s₀ tr s) (hC : StepsAll (fun s l => check s l = true) tr)
    (he : Lts.execIf check step s ls = some s') :
    ∃ tr', Run step s₀ tr' s' ∧ tr'.map Prod.snd = ls.reverse ++ tr.map Prod.snd ∧
      StepsAll (fun s l => check s l = true) tr' := by
  induction ls generalizing tr s with
  | nil =>
    obtain rfl : s = s' := by simpa [Lts.execIf] using he
    exact ⟨tr, h, by simp, hC⟩
  | cons l ls ih =>
    rw [Lts.execIf] at he
    split at he
    · case isTrue hcheck =>
      obtain ⟨s₁, hs, hrest⟩ := Option.bind_eq_some_iff.mp he
      obtain ⟨tr', hrun, hls, hC'⟩ := ih (h.step hs) (stepsAll_cons.mpr ⟨hcheck, hC⟩) hrest
      exact ⟨tr', hrun, by simp [hls], hC'⟩
    · cases he

/-- A run all of whose steps pass a check, to a state that passes another. -/
theorem exists_run_of_execIf {check : σ → ℓ → Bool} {p : σ → Bool} {ls : List ℓ}
    (h : (Lts.execIf check step s₀ ls).any p = true) :
    ∃ tr s, Run step s₀ tr s ∧ tr.map Prod.snd = ls.reverse ∧
      StepsAll (fun s l => check s l = true) tr ∧ p s = true := by
  obtain ⟨s, he, hp⟩ := (Option.any_eq_true _ _).mp h
  obtain ⟨tr, hrun, hls, hC⟩ := Run.start.execIf (by simp) he
  exact ⟨tr, s, hrun, by simpa using hls, hC, hp⟩

/-! ### Histories -/

variable {ε : Type*}

/-- `Always P h`: in the history `h` (newest first) every event satisfies
`P` together with the events before it. -/
def Always (P : ε → List ε → Prop) : List ε → Prop
  | [] => True
  | e :: h => P e h ∧ Always P h

@[simp] theorem always_nil (P : ε → List ε → Prop) : Always P [] := trivial

@[simp] theorem always_cons {P : ε → List ε → Prop} {e : ε} {h : List ε} :
    Always P (e :: h) ↔ P e h ∧ Always P h := Iff.rfl

/-- Every position of the history is covered: the event there satisfies `P`
with what came before. -/
theorem always_iff {P : ε → List ε → Prop} {h : List ε} :
    Always P h ↔ ∀ newer e older, h = newer ++ e :: older → P e older := by
  induction h with
  | nil => simp
  | cons e h ih =>
    rw [always_cons, ih]
    constructor
    · rintro ⟨hP, hrest⟩ newer e' older heq
      rcases newer with - | ⟨e₁, newer⟩
      · obtain ⟨rfl, rfl⟩ := List.cons.inj heq
        exact hP
      · exact hrest newer e' older (List.cons.inj heq).2
    · intro hall
      refine ⟨hall [] e h rfl, fun newer e' older heq => ?_⟩
      exact hall (e :: newer) e' older (by rw [heq]; rfl)

/-- Events judged by `P` are judged by `Q` as well, given what `P` says of the
older ones. -/
theorem Always.imp {P Q : ε → List ε → Prop} {h : List ε}
    (hPQ : ∀ e h, Always P h → P e h → Q e h) (hP : Always P h) : Always Q h := by
  induction h with
  | nil => trivial
  | cons e h ih => exact ⟨hPQ e h hP.2 hP.1, ih hP.2⟩

end Lts
