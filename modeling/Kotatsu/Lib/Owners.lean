import Mathlib.Logic.Function.Basic

/-
  Things with one owner

  A place holds one thing, or none. `Owned held live`: a thing is live exactly while some
  place holds it, and no two places hold the same. It stays so when a thing is made, when it
  goes from one place to another, and when it is dropped.
-/

open Function (update)

/-- What is live is held, at one place. -/
structure Owned {X T : Type} (held : X → Option T) (live : T → Prop) : Prop where
  live_iff : ∀ t, live t ↔ ∃ x, held x = some t
  one : ∀ {x y t}, held x = some t → held y = some t → x = y

section Held
variable {X T : Type} [DecidableEq X] {held : X → Option T} {x y : X} {t : T}

theorem held_give {v : T} :
    update held x (some v) y = some t ↔ (y = x ∧ v = t) ∨ (y ≠ x ∧ held y = some t) := by
  by_cases hy : y = x
  · subst hy
    simp
  · simp [hy]

theorem held_drop : update held x none y = some t ↔ y ≠ x ∧ held y = some t := by
  by_cases hy : y = x
  · subst hy
    simp
  · simp [hy]

end Held

/-- How the places change in one step: a thing is made at an empty place, it goes to another
place, in the stead of what was there, or it is dropped. -/
inductive Handover {X T : Type} [DecidableEq X] (held : X → Option T) (live : T → Prop)
    (held' : X → Option T) (live' : T → Prop) : Prop
  | same (hh : held' = held) (hl : ∀ t, live' t ↔ live t)
  | made {x : X} {t : T} (hx : held x = none) (ht : ¬ live t)
      (hh : held' = update held x (some t)) (hl : ∀ t', live' t' ↔ live t' ∨ t' = t)
  | moved {x y : X} {t : T} (hx : held x = some t) (hne : x ≠ y)
      (hh : held' = update (update held x none) y (some t))
      (hl : ∀ t', live' t' ↔ live t' ∧ held y ≠ some t')
  | dropped (x : X) (hh : held' = update held x none)
      (hl : ∀ t, live' t ↔ live t ∧ held x ≠ some t)

namespace Owned

variable {X T : Type} {held held' : X → Option T} {live live' : T → Prop}

theorem congr (h : Owned held live) (hl : ∀ t, live' t ↔ live t) : Owned held live' :=
  ⟨fun t => (hl t).trans (h.live_iff t), h.one⟩

variable [DecidableEq X]

theorem made (h : Owned held live) {x : X} {t : T} (hx : held x = none) (ht : ¬ live t) :
    Owned (update held x (some t)) fun t' => live t' ∨ t' = t := by
  have hfree : ∀ y, held y ≠ some t := fun y hy => ht ((h.live_iff t).mpr ⟨y, hy⟩)
  refine ⟨fun t' => ?_, ?_⟩
  · simp only [held_give, h.live_iff]
    constructor
    · rintro (⟨y, hy⟩ | rfl)
      · exact ⟨y, .inr ⟨fun heq => by simp [← heq, hy] at hx, hy⟩⟩
      · exact ⟨x, .inl ⟨rfl, rfl⟩⟩
    · rintro ⟨y, ⟨-, rfl⟩ | ⟨-, hy⟩⟩
      · exact .inr rfl
      · exact .inl ⟨y, hy⟩
  · intro y z t' hy hz
    rcases held_give.mp hy with ⟨hyx, rfl⟩ | ⟨-, hy'⟩
    · rcases held_give.mp hz with ⟨hzx, -⟩ | ⟨-, hz'⟩
      · exact hyx.trans hzx.symm
      · exact absurd hz' (hfree z)
    · rcases held_give.mp hz with ⟨-, rfl⟩ | ⟨-, hz'⟩
      · exact absurd hy' (hfree y)
      · exact h.one hy' hz'

theorem dropped (h : Owned held live) (x : X) :
    Owned (update held x none) fun t => live t ∧ held x ≠ some t := by
  refine ⟨fun t => ?_, ?_⟩
  · simp only [held_drop, h.live_iff]
    constructor
    · rintro ⟨⟨y, hy⟩, hno⟩
      exact ⟨y, fun heq => hno (heq ▸ hy), hy⟩
    · rintro ⟨y, hne, hy⟩
      exact ⟨⟨y, hy⟩, fun hx => hne (h.one hy hx)⟩
  · intro y z t hy hz
    exact h.one (held_drop.mp hy).2 (held_drop.mp hz).2

theorem moved (h : Owned held live) {x y : X} {t : T} (hx : held x = some t) (hne : x ≠ y) :
    Owned (update (update held x none) y (some t)) fun t' => live t' ∧ held y ≠ some t' := by
  -- what was at `y` goes first, then the thing is made anew there
  have hgone : Owned (update (update held x none) y none)
      fun t' => (live t' ∧ held x ≠ some t') ∧ update held x none y ≠ some t' :=
    (h.dropped x).dropped y
  have hmade := hgone.made (x := y) (t := t) (by simp) fun hl => hl.1.2 hx
  rw [Function.update_idem] at hmade
  refine ⟨fun t' => ?_, hmade.one⟩
  rw [← hmade.live_iff, Function.update_of_ne hne.symm]
  by_cases ht : t' = t
  · subst ht
    simpa [(h.live_iff t').mpr ⟨x, hx⟩] using fun hy => hne (h.one hx hy)
  · simp [hx, ht, Ne.symm ht]

/-- Every step keeps it. -/
theorem handover (h : Owned held live) (hs : Handover held live held' live') :
    Owned held' live' := by
  cases hs with
  | same hh hl => exact hh ▸ h.congr hl
  | made hx ht hh hl => exact hh ▸ (h.made hx ht).congr hl
  | moved hx hne hh hl => exact hh ▸ (h.moved hx hne).congr hl
  | dropped x hh hl => exact hh ▸ (h.dropped x).congr hl

end Owned
