import Kotatsu.Lib.Machine
import Mathlib.Data.List.Induction

/-
  Machines that keep a log of moments

  The events of a run do not say which action emitted them, or from which state. The
  recorded machine takes the same steps and emits one `Moment` for each: the state
  before, the action, the events and the state after. Its runs are the runs of the
  machine (`Reach.recorded`, `Reach.unrecorded`), and every moment of its log is a
  step from a state that the log before it reaches (`moment_at`). A property of every
  log is proved by `Reach.log_induct`. A larger machine that emits the moments of the
  one inside it runs that one (`Reach.project`).
-/

/-- One step of a run. -/
structure Moment (σ α ε : Type) where
  before : σ
  action : α
  events : List ε
  after : σ

namespace Machine

variable {σ α ε : Type}

/-- The machine that emits its own steps. -/
def recorded (M : Machine σ α ε) : Machine σ α (Moment σ α ε) where
  init := M.init
  step s a := (M.step s a).map fun r =>
    (r.1, [{ before := s, action := a, events := r.2, after := r.1 }])

/-- The events of a log. -/
def eventsOf (log : List (Moment σ α ε)) : List ε := log.flatMap (·.events)

theorem eventsOf_append (log log' : List (Moment σ α ε)) :
    eventsOf (log ++ log') = eventsOf log ++ eventsOf log' := List.flatMap_append

@[simp] theorem eventsOf_singleton (x : Moment σ α ε) : eventsOf [x] = x.events := by
  simp [eventsOf]

theorem mem_eventsOf {log : List (Moment σ α ε)} {e : ε} :
    e ∈ eventsOf log ↔ ∃ x ∈ log, e ∈ x.events := List.mem_flatMap

variable {M : Machine σ α ε} {G : σ → α → Prop}

theorem recorded_step {s s' : σ} {a : α} {log : List (Moment σ α ε)} :
    M.recorded.step s a = some (s', log) ↔
      ∃ evs, M.step s a = some (s', evs) ∧
        log = [{ before := s, action := a, events := evs, after := s' }] := by
  show (M.step s a).map _ = some (s', log) ↔ _
  rw [Option.map_eq_some_iff]
  constructor
  · intro h
    obtain ⟨⟨s₁, evs⟩, hs, heq⟩ := h
    obtain ⟨rfl, rfl⟩ := Prod.mk.inj heq
    exact ⟨evs, hs, rfl⟩
  · intro h
    obtain ⟨evs, hs, rfl⟩ := h
    exact ⟨(s', evs), hs, rfl⟩

/-- What holds of the empty log and is kept by every step holds of every log. -/
theorem Reach.log_induct {P : σ → List (Moment σ α ε) → Prop} (h0 : ∀ s, M.init s → P s [])
    (hstep : ∀ s log a s' evs, M.recorded.Reach G s log → P s log → G s a →
      M.step s a = some (s', evs) →
      P s' (log ++ [{ before := s, action := a, events := evs, after := s' }]))
    {s : σ} {log : List (Moment σ α ε)} (h : M.recorded.Reach G s log) : P s log := by
  refine Reach.induct (P := P) h0 ?_ h
  intro s log a s' x hreach hp hg hs
  obtain ⟨evs, hs', rfl⟩ := recorded_step.mp hs
  exact hstep s log a s' evs hreach hp hg hs'

/-- A recorded run is a run. -/
theorem Reach.unrecorded {s : σ} {log : List (Moment σ α ε)} (h : M.recorded.Reach G s log) :
    M.Reach G s (eventsOf log) := by
  refine Reach.log_induct (P := fun s log => M.Reach G s (eventsOf log)) ?_ ?_ h
  · intro s hi
    exact ⟨s, [], hi, .nil⟩
  · intro s log a s' evs _ ih hg hs
    rw [eventsOf_append, eventsOf_singleton]
    exact ih.step hg hs

/-- Every run can be recorded. -/
theorem Reach.recorded {s : σ} {tr : List ε} (h : M.Reach G s tr) :
    ∃ log, M.recorded.Reach G s log ∧ eventsOf log = tr := by
  refine Reach.induct (P := fun s tr => ∃ log, M.recorded.Reach G s log ∧ eventsOf log = tr)
    ?_ ?_ h
  · intro s hi
    exact ⟨[], ⟨s, [], hi, .nil⟩, rfl⟩
  · intro s tr a s' evs _ ih hg hs
    obtain ⟨log, hreach, rfl⟩ := ih
    refine ⟨log ++ [⟨s, a, evs, s'⟩], hreach.step hg (recorded_step.mpr ⟨evs, hs, rfl⟩), ?_⟩
    rw [eventsOf_append, eventsOf_singleton]

/-- A moment of a log is an allowed step, from the state that the log before it reaches. -/
theorem moment_at {s : σ} {pre post : List (Moment σ α ε)} {x : Moment σ α ε}
    (h : M.recorded.Reach G s (pre ++ x :: post)) :
    M.recorded.Reach G x.before pre ∧ G x.before x.action ∧
      M.step x.before x.action = some (x.after, x.events) := by
  obtain ⟨s₀, a, s₁, hreach, hg, hs⟩ := h.event_alone rfl (by
    intro s a s' log hs hm
    obtain ⟨evs, -, rfl⟩ := recorded_step.mp hs
    rw [List.mem_singleton.mp hm])
  obtain ⟨evs, hs', heq⟩ := recorded_step.mp hs
  obtain rfl := List.singleton_inj.mp heq
  exact ⟨hreach, hg, hs'⟩

/-- A run ends in the state that its last moment leaves. -/
theorem after_last {s : σ} {log : List (Moment σ α ε)} {x : Moment σ α ε}
    (h : M.recorded.Reach G s (log ++ [x])) : s = x.after := by
  have key : ∀ l z, log ++ [x] = l ++ [z] → s = z.after := by
    refine Reach.log_induct (P := fun s log => ∀ l z, log = l ++ [z] → s = z.after) ?_ ?_ h
    · intro s _ l z heq
      simp at heq
    · intro s log a s' evs _ _ _ _ l z heq
      obtain ⟨-, hz⟩ := List.append_inj' heq rfl
      rw [← List.singleton_inj.mp hz]
  exact key log x rfl

/-- A machine that stays put, or takes a step of `M` and emits its moment, runs `M`. -/
theorem Reach.project {ω β : Type} {W : Machine ω β (Moment σ α ε)} {H : ω → β → Prop} (f : ω → σ)
    (h0 : ∀ w, W.init w → M.init (f w))
    (hstep : ∀ w b w' log, W.step w b = some (w', log) → (f w' = f w ∧ log = []) ∨
      ∃ a evs, M.step (f w) a = some (f w', evs) ∧
        log = [{ before := f w, action := a, events := evs, after := f w' }])
    {w : ω} {log : List (Moment σ α ε)} (h : W.Reach H w log) :
    M.recorded.Reach anyStep (f w) log := by
  refine Reach.induct (P := fun w log => M.recorded.Reach anyStep (f w) log) ?_ ?_ h
  · intro w hinit
    exact ⟨f w, [], h0 w hinit, .nil⟩
  · intro w log b w' x _ ih _ hs
    rcases hstep w b w' x hs with ⟨heq, rfl⟩ | ⟨a, evs, hs', rfl⟩
    · rw [heq, List.append_nil]
      exact ih
    · exact ih.step trivial (recorded_step.mpr ⟨evs, hs', rfl⟩)

/-- What the moment `x` establishes and every later moment keeps. -/
theorem kept_since {P : σ → Prop} {s : σ} {pre post : List (Moment σ α ε)} {x : Moment σ α ε}
    (h : M.recorded.Reach G s (pre ++ x :: post)) (hx : P x.after)
    (hstep : ∀ mid z rest, post = mid ++ z :: rest → M.recorded.Reach G z.before (pre ++ x :: mid) →
      M.step z.before z.action = some (z.after, z.events) → P z.before → P z.after) : P s := by
  induction post using List.reverseRecOn generalizing s with
  | nil => exact after_last h ▸ hx
  | append_singleton post z ih =>
    have hsplit : pre ++ x :: (post ++ [z]) = (pre ++ x :: post) ++ z :: [] := by simp
    obtain ⟨hreach, -, hs⟩ := moment_at (hsplit ▸ h)
    rw [hsplit] at h
    rw [after_last h]
    refine hstep post z [] rfl hreach hs (ih hreach ?_)
    intro mid w rest heq
    exact hstep mid w (rest ++ [z]) (by simp [heq])

end Machine
