import Kotatsu.Lib.HashMap
import Kotatsu.Lib.Moments

/-
  Machines that come to rest

  Some actions of a machine are steps of tasks. `Spends` says that an amount of work pays
  for them: a step of a task costs at least one, and no other step adds to it. Then a run
  takes no more steps of tasks than there was work (`Run.spends`), and if some run always
  spends work that is left, then some run leaves none (`Spends.rest`). Where the tasks are
  the values of a map, the work is a total over it: a task that goes on, or ends, lowers it.
-/

namespace Machine

variable {σ α ε : Type} {M : Machine σ α ε} {G : σ → α → Prop}

/-- Among the states of `I`, which the allowed steps keep, work pays for the steps of tasks. -/
structure Spends (M : Machine σ α ε) (G : σ → α → Prop) (I : σ → Prop) (task : α → Bool)
    (work : σ → Nat) : Prop where
  keeps : ∀ s a s' evs, I s → G s a → M.step s a = some (s', evs) → I s'
  pays : ∀ s a s' evs, I s → G s a → M.step s a = some (s', evs) →
    work s' + (task a).toNat ≤ work s

variable {I : σ → Prop} {task : α → Bool} {work : σ → Nat}

theorem Spends.keeps_run (h : Spends M G I task work) {s s' : σ} {as : List α} {tr : List ε}
    (hr : M.Run G s as tr s') (hi : I s) : I s' := by
  induction hr with
  | nil => exact hi
  | snoc _ hg hs ih => exact h.keeps _ _ _ _ ih hg hs

/-- A run takes no more steps of tasks than it spends work. -/
theorem Run.spends (h : Spends M G I task work) {s s' : σ} {as : List α} {tr : List ε}
    (hr : M.Run G s as tr s') (hi : I s) : work s' + as.countP task ≤ work s := by
  induction hr with
  | nil => exact Nat.le_refl _
  | @snoc as tr s₁ s₂ a evs hr hg hs ih =>
    have hpay := h.pays s₁ a s₂ evs (h.keeps_run hr hi) hg hs
    have hcount : (as ++ [a]).countP task = as.countP task + (task a).toNat := by
      rw [List.countP_append, List.countP_singleton]
      cases task a <;> rfl
    omega

/-- A recorded run is a run. -/
theorem Run.unrecorded {s s' : σ} {as : List α} {log : List (Moment σ α ε)}
    (h : M.recorded.Run G s as log s') : M.Run G s as (eventsOf log) s' := by
  induction h with
  | nil => exact .nil
  | snoc _ hg hs ih =>
    obtain ⟨evs, hs', rfl⟩ := recorded_step.mp hs
    rw [eventsOf_append, eventsOf_singleton]
    exact ih.snoc hg hs'

/-- Where some run always spends work that is left, some run leaves none. -/
theorem Spends.rest (h : Spends M G I task work)
    (hgo : ∀ s, I s → work s ≠ 0 → ∃ as tr s', M.Run G s as tr s' ∧ work s' < work s)
    {s : σ} (hi : I s) : ∃ as tr s', M.Run G s as tr s' ∧ work s' = 0 := by
  generalize hn : work s = n
  induction n using Nat.strongRecOn generalizing s with
  | ind n ih =>
    by_cases h0 : n = 0
    · exact ⟨[], [], s, .nil, hn.trans h0⟩
    · obtain ⟨as, tr, s₁, hr, hlt⟩ := hgo s hi (hn ▸ h0)
      obtain ⟨bs, us, s₂, hr', hrest⟩ := ih (work s₁) (hn ▸ hlt) (h.keeps_run hr hi) rfl
      exact ⟨as ++ bs, tr ++ us, s₂, hr.trans hr', hrest⟩

end Machine

/-! ## Tasks in a map -/

namespace HashMap

variable {K V : Type} [DecidableEq K] (w : V → Nat) {m : HashMap K V} {k : K} {v v' : V}

theorem total_insert_lt (h : m.get k = some v) (hlt : w v' < w v) :
    total w (m.insert k v') < total w m := by
  have hover := total_over w h v'
  omega

theorem total_remove_lt (h : m.get k = some v) (hpos : 0 < w v) :
    total w (m.remove k) < total w m := by
  have hremove := total_remove w h
  omega

omit [DecidableEq K] in
theorem values_ne_nil (h : total w m ≠ 0) : m.values ≠ [] := by
  intro hnil
  rw [total, hnil] at h
  exact h rfl

/-- Where something is left to do, there is a task. -/
theorem exists_of_total (h : total w m ≠ 0) : ∃ k v, m.get k = some v := by
  obtain ⟨v, hv⟩ := List.exists_mem_of_ne_nil _ (values_ne_nil w h)
  obtain ⟨k, hk⟩ := mem_values.mp hv
  exact ⟨k, v, hk⟩

/-- Where nothing is left to do, there are no tasks. -/
theorem eq_none_of_total (hpos : ∀ v, 0 < w v) (h : total w m = 0) (k : K) : m.get k = none := by
  refine Option.eq_none_iff_forall_ne_some.mpr fun v hv => ?_
  have hremove := total_remove w hv
  have := hpos v
  omega

end HashMap
