import Kotatsu.Lib.HashMap
import Mathlib.Data.Set.Card

/-
  Tables

  The abstract view of a map is a function to options. `HashMap.Stores R m f` says that the
  map holds a value exactly where the function does, and that the two are related by `R`;
  it follows the map through insertions, removals and filters. The number of entries is then
  the number of places where the function has a value (`Stores.len`).
-/

namespace HashMap

variable {K V W : Type} [DecidableEq K] {R : V → W → Prop}

/-- The map holds, under each key, what the function says. -/
def Stores (R : V → W → Prop) (m : HashMap K V) (f : K → Option W) : Prop :=
  ∀ k, Option.Rel R (m.get k) (f k)

variable {m : HashMap K V} {f : K → Option W}

theorem stores_empty : Stores R (∅ : HashMap K V) fun _ => none := fun _ => .none

theorem Stores.some (h : Stores R m f) {k : K} {v : V} (hk : m.get k = some v) :
    ∃ w, f k = Option.some w ∧ R v w := by
  have hrel := h k
  rw [hk] at hrel
  cases hf : f k with
  | none => rw [hf] at hrel; cases hrel
  | some w =>
    rw [hf] at hrel
    cases hrel with
    | some hvw => exact ⟨w, rfl, hvw⟩

theorem Stores.get (h : Stores R m f) {k : K} {w : W} (hk : f k = Option.some w) :
    ∃ v, m.get k = Option.some v ∧ R v w := by
  have hrel := h k
  rw [hk] at hrel
  cases hm : m.get k with
  | none => rw [hm] at hrel; cases hrel
  | some v =>
    rw [hm] at hrel
    cases hrel with
    | some hvw => exact ⟨v, rfl, hvw⟩

theorem Stores.none_iff (h : Stores R m f) (k : K) : m.get k = none ↔ f k = none := by
  have hrel := h k
  constructor
  · intro hk
    rw [hk] at hrel
    cases hf : f k with
    | none => rfl
    | some w => rw [hf] at hrel; cases hrel
  · intro hk
    rw [hk] at hrel
    cases hm : m.get k with
    | none => rfl
    | some v => rw [hm] at hrel; cases hrel

theorem Stores.insert (h : Stores R m f) (k : K) {v : V} {w : W} (hvw : R v w) :
    Stores R (m.insert k v) (Function.update f k (Option.some w)) := by
  intro k'
  rw [get_insert, Function.update_apply]
  split
  · exact .some hvw
  · exact h k'

theorem Stores.remove (h : Stores R m f) (k : K) :
    Stores R (m.remove k) (Function.update f k none) := by
  intro k'
  rw [get_remove, Function.update_apply]
  split
  · exact .none
  · exact h k'

/-- A value that is written over another, with the two still related. -/
theorem Stores.over (h : Stores R m f) {k : K} {v : V} {w : W} (hf : f k = Option.some w)
    (hvw : R v w) : Stores R (m.insert k v) f := by
  have hupdate := h.insert k hvw
  rw [← hf, Function.update_eq_self] at hupdate
  exact hupdate

/-- The entries are counted by the places that hold a value. -/
theorem Stores.len (h : Stores R m f) : m.len = {k | f k ≠ none}.ncard := by
  have hset : {k | f k ≠ none} = (m.keys.toFinset : Set K) := by
    ext k
    rw [Finset.mem_coe, List.mem_toFinset, mem_keys, Set.mem_ofPred_eq, ne_eq, ← h.none_iff k,
      ← ne_eq, Option.ne_none_iff_exists']
  rw [hset, Set.ncard_coe_finset, List.toFinset_card_of_nodup m.keys_nodup, len_keys]

end HashMap
