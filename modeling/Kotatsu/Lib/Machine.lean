import Mathlib.Data.List.Basic

/-
  Machines with a history

  A machine is a step function that either refuses an action or moves and emits
  events. A run may be restricted by a guard `G` on each step, and carries the
  actions it took and the events it emitted. `Reach G s tr` says that some run
  under `G` from an initial state ends in `s` after the events `tr`; a property
  of every run is a property of every `Reach`, proved by `Reach.induct` from one
  step. `exec` runs a list of actions, so a run can be exhibited by evaluation.
-/

/-- Initial states, and a step function with refusals and emitted events. -/
structure Machine (σ α ε : Type) where
  init : σ → Prop
  step : σ → α → Option (σ × List ε)

namespace Machine

variable {σ α ε : Type} (M : Machine σ α ε) (G : σ → α → Prop)

/-- From `s`, the actions, each allowed by `G` where it is taken, emit the
events and end in the last state. -/
inductive Run (s : σ) : List α → List ε → σ → Prop
  | nil : Run s [] [] s
  | snoc {as : List α} {tr : List ε} {s' s'' : σ} {a : α} {evs : List ε} :
      Run s as tr s' → G s' a → M.step s' a = some (s'', evs) →
      Run s (as ++ [a]) (tr ++ evs) s''

/-- Some run under `G` from an initial state emits `tr` and ends in `s`. -/
def Reach (s : σ) (tr : List ε) : Prop := ∃ s₀ as, M.init s₀ ∧ M.Run G s₀ as tr s

/-- The guard that allows every step. -/
def anyStep : σ → α → Prop := fun _ _ => True

instance (s : σ) (a : α) : Decidable (anyStep s a) := inferInstanceAs (Decidable True)

variable {M} {G}

theorem Reach.step {s s' : σ} {tr evs : List ε} {a : α} (h : M.Reach G s tr) (hg : G s a)
    (hs : M.step s a = some (s', evs)) : M.Reach G s' (tr ++ evs) := by
  obtain ⟨s₀, as, hi, hr⟩ := h
  exact ⟨s₀, as ++ [a], hi, hr.snoc hg hs⟩

/-- The invariant rule: what holds initially and is kept by every allowed step
from a reached state holds in every reached state, of its history. -/
theorem Reach.induct {P : σ → List ε → Prop} (h0 : ∀ s, M.init s → P s [])
    (hstep : ∀ s tr a s' evs, M.Reach G s tr → P s tr → G s a →
      M.step s a = some (s', evs) → P s' (tr ++ evs))
    {s : σ} {tr : List ε} (h : M.Reach G s tr) : P s tr := by
  obtain ⟨s₀, as, hi, hr⟩ := h
  induction hr with
  | nil => exact h0 _ hi
  | snoc hr hg hs ih => exact hstep _ _ _ _ _ ⟨_, _, hi, hr⟩ ih hg hs

theorem Run.trans {s s' s'' : σ} {as bs : List α} {tr us : List ε}
    (h : M.Run G s as tr s') (h' : M.Run G s' bs us s'') :
    M.Run G s (as ++ bs) (tr ++ us) s'' := by
  induction h' with
  | nil => simpa using h
  | snoc _ hg hs ih => simpa [← List.append_assoc] using ih.snoc hg hs

/-- What every allowed step keeps, a run keeps. -/
theorem Run.keeps {P : σ → Prop}
    (hstep : ∀ s a s' evs, G s a → P s → M.step s a = some (s', evs) → P s') {s s' : σ}
    {as : List α} {tr : List ε} (h : M.Run G s as tr s') (h0 : P s) : P s' := by
  induction h with
  | nil => exact h0
  | snoc _ hg hs ih => exact hstep _ _ _ _ hg ih hs

/-- A run under a guard is a run under any guard that it implies. -/
theorem Run.mono {G' : σ → α → Prop} (hG : ∀ s a, G s a → G' s a) {s s' : σ} {as : List α}
    {tr : List ε} (h : M.Run G s as tr s') : M.Run G' s as tr s' := by
  induction h with
  | nil => exact .nil
  | snoc _ hg hs ih => exact ih.snoc (hG _ _ hg) hs

theorem Reach.mono {G' : σ → α → Prop} (hG : ∀ s a, G s a → G' s a) {s : σ} {tr : List ε}
    (h : M.Reach G s tr) : M.Reach G' s tr := by
  obtain ⟨s₀, as, hi, hr⟩ := h
  exact ⟨s₀, as, hi, hr.mono hG⟩

theorem run_nil {s s' : σ} {tr : List ε} (h : M.Run G s [] tr s') : tr = [] ∧ s' = s := by
  generalize has : ([] : List α) = as at h
  cases h with
  | nil => exact ⟨rfl, rfl⟩
  | snoc _ _ _ => simp at has

/-- A run by its first step. -/
theorem run_cons {s s' : σ} {a : α} {as : List α} {tr : List ε} :
    M.Run G s (a :: as) tr s' ↔ ∃ s₁ evs us, G s a ∧ M.step s a = some (s₁, evs) ∧
      M.Run G s₁ as us s' ∧ tr = evs ++ us := by
  constructor
  · intro h
    generalize has : a :: as = bs at h
    induction h generalizing as with
    | nil => cases has
    | @snoc bs tr s₂ s₃ b evs hr hg hs ih =>
      rcases List.eq_nil_or_concat as with rfl | ⟨cs, c, rfl⟩
      · -- the last step is the first
        obtain ⟨rfl, rfl⟩ : bs = [] ∧ a = b := by
          cases bs <;> simp_all
        obtain ⟨rfl, rfl⟩ := run_nil hr
        exact ⟨s₃, evs, [], hg, hs, .nil, by simp⟩
      · obtain ⟨rfl, rfl⟩ : a :: cs = bs ∧ c = b := by
          rw [List.concat_eq_append, ← List.cons_append] at has
          exact ⟨List.append_inj_left' has rfl, by simpa using List.append_inj_right' has rfl⟩
        obtain ⟨s₁, evs₁, us, hg₁, hs₁, hr₁, rfl⟩ := ih rfl
        rw [List.concat_eq_append]
        exact ⟨s₁, evs₁, us ++ evs, hg₁, hs₁, hr₁.snoc hg hs, by simp⟩
  · intro hex
    obtain ⟨s₁, evs, us, hg, hs, hr, rfl⟩ := hex
    exact (Run.nil.snoc hg hs).trans hr

theorem Reach.run {s s' : σ} {as : List α} {tr us : List ε} (h : M.Reach G s tr)
    (h' : M.Run G s as us s') : M.Reach G s' (tr ++ us) := by
  obtain ⟨s₀, bs, hi, hr⟩ := h
  exact ⟨s₀, bs ++ as, hi, hr.trans h'⟩

/-- An event of the history was emitted by one step, from a state reached by the
history before it. -/
theorem Reach.event {s : σ} {tr pre post : List ε} {e : ε} (h : M.Reach G s tr)
    (he : tr = pre ++ e :: post) :
    ∃ s₀ tr₀ a s₁ evs i j, M.Reach G s₀ tr₀ ∧ G s₀ a ∧ M.step s₀ a = some (s₁, evs) ∧
      evs = i ++ e :: j ∧ pre = tr₀ ++ i := by
  revert pre post e
  refine Reach.induct (P := fun _ tr => ∀ {pre post : List ε} {e : ε}, tr = pre ++ e :: post →
    ∃ s₀ tr₀ a s₁ evs i j, M.Reach G s₀ tr₀ ∧ G s₀ a ∧ M.step s₀ a = some (s₁, evs) ∧
      evs = i ++ e :: j ∧ pre = tr₀ ++ i) ?_ ?_ h
  · intro s _ pre post e he
    simp at he
  · intro s tr a s' evs hreach ih hg hs pre post e he
    rcases List.append_eq_append_iff.mp he with ⟨i, rfl, hevs⟩ | ⟨bs, rfl, hevs⟩
    · exact ⟨s, tr, a, s', evs, i, post, hreach, hg, hs, hevs, rfl⟩
    · cases bs with
      | nil =>
        refine ⟨s, pre, a, s', evs, [], post, by simpa using hreach, hg, hs, ?_, by simp⟩
        simpa using hevs.symm
      | cons b bs =>
        obtain ⟨rfl, -⟩ := List.cons.inj hevs
        exact ih rfl

/-- An event that is always alone in its step was emitted right after the history
before it. -/
theorem Reach.event_alone {s : σ} {tr pre post : List ε} {e : ε} (h : M.Reach G s tr)
    (he : tr = pre ++ e :: post)
    (halone : ∀ s a s' evs, M.step s a = some (s', evs) → e ∈ evs → evs = [e]) :
    ∃ s₀ a s₁, M.Reach G s₀ pre ∧ G s₀ a ∧ M.step s₀ a = some (s₁, [e]) := by
  obtain ⟨s₀, tr₀, a, s₁, evs, i, j, hreach, hg, hs, hevs, rfl⟩ := h.event he
  have hone : evs = [e] := halone s₀ a s₁ evs hs (hevs ▸ List.mem_append_right i List.mem_cons_self)
  obtain rfl : i = [] := by
    rw [hone] at hevs
    cases i with
    | nil => rfl
    | cons x i => simp at hevs
  exact ⟨s₀, a, s₁, by simpa using hreach, hg, hone ▸ hs⟩

/-! ## Running a list of actions -/

variable (M) (G) [∀ s a, Decidable (G s a)]

/-- Take the actions in order; `none` once one is not allowed or is refused. -/
def exec : σ → List α → Option (σ × List ε)
  | s, [] => some (s, [])
  | s, a :: as =>
    if G s a then
      match M.step s a with
      | none => none
      | some (s', evs) => (exec s' as).map fun r => (r.1, evs ++ r.2)
    else none

variable {M} {G}

theorem run_of_exec {s s' : σ} {as : List α} {tr : List ε}
    (h : M.exec G s as = some (s', tr)) : M.Run G s as tr s' := by
  induction as generalizing s tr with
  | nil =>
    simp only [exec, Option.some.injEq, Prod.mk.injEq] at h
    obtain ⟨rfl, rfl⟩ := h
    exact .nil
  | cons a as ih =>
    simp only [exec] at h
    split at h
    · next hg =>
      split at h
      · cases h
      · next s₁ evs hs =>
        obtain ⟨⟨s₂, us⟩, hr, he⟩ := Option.map_eq_some_iff.mp h
        simp only [Prod.mk.injEq] at he
        obtain ⟨rfl, rfl⟩ := he
        exact (Run.nil.snoc hg hs).trans (ih hr)
    · cases h

/-- A list of actions that runs to a state and a history accepted by `p`. -/
theorem reach_of_exec {s : σ} {as : List α} {p : σ → List ε → Bool} (hi : M.init s)
    (h : (M.exec G s as).any (fun r => p r.1 r.2) = true) :
    ∃ s' tr, M.Reach G s' tr ∧ p s' tr = true := by
  cases hr : M.exec G s as with
  | none => rw [hr] at h; cases h
  | some r =>
    rw [hr] at h
    exact ⟨r.1, r.2, ⟨s, as, hi, run_of_exec hr⟩, h⟩

end Machine
