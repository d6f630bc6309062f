import Kotatsu.Types

/-
  One parameter change (`params.rs`)

  `applyParamChange` is the pure range and cooldown check. What it proves about
  it: an accepted change moves exactly one kind by exactly one level
  (`applyParamChange_ok`), keeps every level in the range of its kind
  (`applyParamChange_inRange`), and is accepted exactly when the cooldown is
  over and the moved level is in range (`applyParamChange_eq_ok_iff`).
-/

namespace Kotatsu

/-- `u8::saturating_add(1)`. -/
def satAddOne (level : Nat) : Nat := min (level + 1) 255

/-- `u8::saturating_sub(1)`. -/
def satSubOne (level : Nat) : Nat := level - 1

def paramLevelBounds : ParamKind → Nat × Nat
  | .gravity | .speed => (paramMinLevel, paramMaxLevelThreeStage)
  | .friction => (paramMinLevel, paramMaxLevelFriction)

/-- The level that `&mut next.<kind>` reads. -/
def PlayerParams.level (params : PlayerParams) : ParamKind → Nat
  | .gravity => params.gravity
  | .friction => params.friction
  | .speed => params.speed

/-- The write through `&mut next.<kind>`. -/
def PlayerParams.setLevel (params : PlayerParams) (param : ParamKind) (level : Nat) :
    PlayerParams :=
  match param with
  | .gravity => { params with gravity := level }
  | .friction => { params with friction := level }
  | .speed => { params with speed := level }

/-- The `candidate` level: one step from the slot's, saturating. -/
def ParamDirection.candidate : ParamDirection → Nat → Nat
  | .increase, slot => satAddOne slot
  | .decrease, slot => satSubOne slot

def applyParamChange (params : PlayerParams) (nextParamChangeAtUnix : Nat) (param : ParamKind)
    (direction : ParamDirection) (nowUnix : Nat) : Except ParamUpdateError ParamMutation :=
  if nowUnix < nextParamChangeAtUnix then
    .error (.cooldownActive nextParamChangeAtUnix)
  else
    let candidate := direction.candidate (params.level param)
    let bounds := paramLevelBounds param
    if bounds.1 ≤ candidate ∧ candidate ≤ bounds.2 then
      .ok { params := params.setLevel param candidate
            nextParamChangeAtUnix := nowUnix + paramChangeCooldownSecs }
    else
      .error .outOfRange

/-! ## What a change does to the levels -/

@[simp] theorem level_setLevel (params : PlayerParams) (k k' : ParamKind) (level : Nat) :
    (params.setLevel k level).level k' = if k' = k then level else params.level k' := by
  cases k <;> cases k' <;> rfl

/-- Every level lies in the range of its kind. -/
def PlayerParams.InRange (params : PlayerParams) : Prop :=
  ∀ k, (paramLevelBounds k).1 ≤ params.level k ∧ params.level k ≤ (paramLevelBounds k).2

instance (params : PlayerParams) : Decidable params.InRange :=
  decidable_of_iff
    (∀ k ∈ [ParamKind.gravity, .friction, .speed],
      (paramLevelBounds k).1 ≤ params.level k ∧ params.level k ≤ (paramLevelBounds k).2)
    ⟨fun h k => h k (by cases k <;> simp), fun h k _ => h k⟩

theorem default_inRange : PlayerParams.default.InRange := by decide

/-- The signed step of a direction. -/
def ParamDirection.delta : ParamDirection → Int
  | .increase => 1
  | .decrease => -1

/-- A change is accepted exactly when the cooldown is over and the moved level
is in the range of its kind, and then this is the mutation. -/
theorem applyParamChange_eq_ok_iff {params : PlayerParams} {next : Nat} {k : ParamKind}
    {d : ParamDirection} {now : Nat} {mu : ParamMutation} :
    applyParamChange params next k d now = .ok mu ↔
      next ≤ now ∧
      ((paramLevelBounds k).1 ≤ d.candidate (params.level k) ∧
        d.candidate (params.level k) ≤ (paramLevelBounds k).2) ∧
      mu = { params := params.setLevel k (d.candidate (params.level k))
             nextParamChangeAtUnix := now + paramChangeCooldownSecs } := by
  unfold applyParamChange
  split
  · next hc => exact ⟨nofun, fun h => absurd hc (Nat.not_lt.mpr h.1)⟩
  · next hc =>
    dsimp only
    split
    · next hr => simp [Nat.not_lt.mp hc, hr, eq_comm]
    · next hr => exact ⟨nofun, fun h => absurd h.2.1 hr⟩

/-- An accepted change starts the new cooldown at the clock's reading, and moves
the changed kind alone, by one level, inside its range. -/
theorem applyParamChange_ok {params : PlayerParams} {next : Nat} {k : ParamKind}
    {d : ParamDirection} {now : Nat} {mu : ParamMutation}
    (h : applyParamChange params next k d now = .ok mu) :
    next ≤ now ∧ mu.nextParamChangeAtUnix = now + paramChangeCooldownSecs ∧
    (∀ k', (mu.params.level k' : Int) = params.level k' + if k' = k then d.delta else 0) ∧
    (paramLevelBounds k).1 ≤ mu.params.level k ∧ mu.params.level k ≤ (paramLevelBounds k).2 := by
  obtain ⟨hnow, hrange, rfl⟩ := applyParamChange_eq_ok_iff.mp h
  refine ⟨hnow, rfl, ?_, by simpa using hrange⟩
  intro k'
  by_cases hk : k' = k
  · subst hk
    -- inside the range the step does not saturate
    cases k' <;> cases d <;>
      simp [ParamDirection.candidate, paramLevelBounds, satAddOne, satSubOne,
        ParamDirection.delta, paramMinLevel, paramMaxLevelThreeStage,
        paramMaxLevelFriction] at hrange ⊢ <;> omega
  · simp [hk]

theorem applyParamChange_inRange {params : PlayerParams} {next : Nat} {k : ParamKind}
    {d : ParamDirection} {now : Nat} {mu : ParamMutation} (hp : params.InRange)
    (h : applyParamChange params next k d now = .ok mu) : mu.params.InRange := by
  obtain ⟨-, -, hlevel, hbounds⟩ := applyParamChange_ok h
  intro k'
  by_cases hk : k' = k
  · subst hk; exact hbounds
  · have he := hlevel k'
    simp only [hk, if_false, Int.add_zero] at he
    have := hp k'
    omega

end Kotatsu
