import Kotatsu.Lib.HashMap

/-
  A system beside a part of it

  `Part mine theirs full part`: every entry of `full` is mine and also in `part`, or
  it is theirs and not in `part`, which has no other entries. Writes and removals that
  both maps make keep this, and so does one of an entry that is theirs in `full` alone.

  `Follows R x y`: where the step `x` succeeds, so does `y`, with the same events, and
  ends related to it. Two step functions that read the same are compared branch by
  branch with `ite`, `guard` and `done`.
-/

/-- An entry of a map, and what its part has in its place. -/
inductive Shares {V : Type} (mine theirs : V → Prop) : Option V → Option V → Prop
  | absent : Shares mine theirs none none
  | mine {v : V} (h : mine v) : Shares mine theirs (some v) (some v)
  | theirs {v : V} (h : theirs v) : Shares mine theirs (some v) none

namespace HashMap

variable {K V : Type} [DecidableEq K]

def Part (mine theirs : K → V → Prop) (full part : HashMap K V) : Prop :=
  ∀ k, Shares (mine k) (theirs k) (full.get k) (part.get k)

namespace Part

variable {mine theirs : K → V → Prop} {full part : HashMap K V} {k : K} {v : V}

/-! ## Reading -/

theorem get_none (h : Part mine theirs full part) (hk : full.get k = none) :
    part.get k = none := by
  have hs := h k
  rw [hk] at hs
  generalize part.get k = y at hs ⊢
  cases hs with
  | absent => rfl

/-- A key that is free in the whole map is free in the part. -/
theorem free (h : Part mine theirs full part) (hk : ¬ full.contains k = true) :
    ¬ part.contains k = true := by
  rw [contains, h.get_none (get_eq_none hk)]
  simp

/-- Where nothing is theirs, both maps read the same. -/
theorem get_eq (h : Part mine theirs full part) (hno : ∀ v, full.get k = some v → ¬ theirs k v) :
    part.get k = full.get k := by
  have hs := h k
  generalize hfull : full.get k = x at hs hno ⊢
  generalize part.get k = y at hs ⊢
  cases hs with
  | absent => rfl
  | mine _ => rfl
  | theirs hv => exact absurd hv (hno _ rfl)

theorem get_some (h : Part mine theirs full part) (hk : part.get k = some v) :
    full.get k = some v ∧ mine k v := by
  have hs := h k
  rw [hk] at hs
  generalize full.get k = x at hs ⊢
  cases hs with
  | mine hv => exact ⟨rfl, hv⟩

/-- An entry of the full map is mine, and in the part, or theirs, and not in it. -/
theorem get_cases (h : Part mine theirs full part) (hk : full.get k = some v) :
    (mine k v ∧ part.get k = some v) ∨ (theirs k v ∧ part.get k = none) := by
  have hs := h k
  rw [hk] at hs
  generalize part.get k = y at hs ⊢
  cases hs with
  | mine hv => exact .inl ⟨hv, rfl⟩
  | theirs hv => exact .inr ⟨hv, rfl⟩

/-- Where nothing is mine, the part has nothing. -/
theorem get_theirs (h : Part mine theirs full part)
    (hno : ∀ v, full.get k = some v → ¬ mine k v) : part.get k = none := by
  cases hk : part.get k with
  | none => rfl
  | some v =>
    obtain ⟨hfull, hv⟩ := h.get_some hk
    exact absurd hv (hno v hfull)

/-- What the part does not have is theirs. -/
theorem theirs_of (h : Part mine theirs full part) (hk : full.get k = some v)
    (hp : part.get k = none) : theirs k v := by
  rcases h.get_cases hk with ⟨-, hsome⟩ | ⟨hv, -⟩
  · rw [hp] at hsome
    cases hsome
  · exact hv

/-! ## Writing -/

theorem empty : Part mine theirs ∅ ∅ := fun _ => .absent

/-- Only the entries that are there matter. -/
theorem congr {mine' theirs' : K → V → Prop} (h : Part mine theirs full part)
    (hc : ∀ k v, full.get k = some v → (mine k v → mine' k v) ∧ (theirs k v → theirs' k v)) :
    Part mine' theirs' full part := by
  intro k
  have hs := h k
  generalize hfull : full.get k = x at hs ⊢
  generalize part.get k = y at hs ⊢
  cases hs with
  | absent => exact .absent
  | mine hv => exact .mine ((hc k _ hfull).1 hv)
  | theirs hv => exact .theirs ((hc k _ hfull).2 hv)

theorem mono {mine' theirs' : K → V → Prop} (hm : ∀ k v, mine k v → mine' k v)
    (ht : ∀ k v, theirs k v → theirs' k v) (h : Part mine theirs full part) :
    Part mine' theirs' full part := h.congr fun k v _ => ⟨hm k v, ht k v⟩

theorem insert (h : Part mine theirs full part) (hv : mine k v) :
    Part mine theirs (full.insert k v) (part.insert k v) := by
  intro k'
  rw [get_insert, get_insert]
  split
  · next hk => exact .mine (hk ▸ hv)
  · exact h k'

theorem insert_theirs (h : Part mine theirs full part) (hk : part.get k = none)
    (hv : theirs k v) : Part mine theirs (full.insert k v) part := by
  intro k'
  rw [get_insert]
  split
  · next hk' =>
    rw [hk', hk]
    exact .theirs hv
  · exact h k'

theorem remove (h : Part mine theirs full part) (k : K) :
    Part mine theirs (full.remove k) (part.remove k) := by
  intro k'
  rw [get_remove, get_remove]
  split
  · exact .absent
  · exact h k'

theorem remove_theirs (h : Part mine theirs full part) (hk : part.get k = none) :
    Part mine theirs (full.remove k) part := by
  intro k'
  rw [get_remove]
  split
  · next hk' =>
    rw [hk', hk]
    exact .absent
  · exact h k'

/-- Both maps drop entries, the same ones of mine. -/
theorem filter (h : Part mine theirs full part) {full' part' : HashMap K V} {f g : K → V → Bool}
    (hfull : ∀ k, full'.get k = (full.get k).filter (f k))
    (hpart : ∀ k, part'.get k = (part.get k).filter (g k))
    (hfg : ∀ k v, mine k v → f k v = g k v) : Part mine theirs full' part' := by
  intro k
  have hs := h k
  rw [hfull, hpart]
  generalize full.get k = x at hs ⊢
  generalize part.get k = y at hs ⊢
  cases hs with
  | absent => exact .absent
  | @mine v hv =>
    rw [Option.filter_some, Option.filter_some, hfg k v hv]
    split
    · exact .mine hv
    · exact .absent
  | @theirs v hv =>
    rw [Option.filter_some]
    split
    · exact .theirs hv
    · exact .absent

/-- The full map drops entries, none of mine. -/
theorem filter_theirs (h : Part mine theirs full part) {full' : HashMap K V} {f : K → V → Bool}
    (hfull : ∀ k, full'.get k = (full.get k).filter (f k))
    (hf : ∀ k v, mine k v → f k v = true) : Part mine theirs full' part :=
  h.filter (g := fun _ _ => true) hfull (fun k => by cases part.get k <;> rfl) hf

end Part

end HashMap

/-! ## Steps beside each other -/

section Follows
variable {σ τ ε : Type} {R : σ → τ → List ε → Prop}

/-- `y` follows `x`, with the same events. -/
def Follows (R : σ → τ → List ε → Prop) (x : Option (σ × List ε)) (y : Option (τ × List ε)) :
    Prop := ∀ s evs, x = some (s, evs) → ∃ t, y = some (t, evs) ∧ R s t evs

namespace Follows

theorem refused (y : Option (τ × List ε)) : Follows R none y := nofun

theorem done {s : σ} {t : τ} {evs : List ε} (h : R s t evs) :
    Follows R (some (s, evs)) (some (t, evs)) := by
  intro s' evs' heq
  obtain ⟨rfl, rfl⟩ := Prod.mk.inj (Option.some.inj heq)
  exact ⟨t, rfl, h⟩

theorem ite {c : Prop} [Decidable c] {x x' : Option (σ × List ε)} {y y' : Option (τ × List ε)}
    (h : c → Follows R x y) (h' : ¬ c → Follows R x' y') :
    Follows R (if c then x else x') (if c then y else y') := by
  by_cases hc : c
  · rw [if_pos hc, if_pos hc]
    exact h hc
  · rw [if_neg hc, if_neg hc]
    exact h' hc

/-- Where `x` is not refused, `y` is not. -/
theorem guard {c d : Prop} [Decidable c] [Decidable d] {x : Option (σ × List ε)}
    {y : Option (τ × List ε)} (hd : ¬ c → ¬ d) (h : ¬ c → Follows R x y) :
    Follows R (if c then none else x) (if d then none else y) := by
  by_cases hc : c
  · rw [if_pos hc]
    exact refused _
  · rw [if_neg hc, if_neg (hd hc)]
    exact h hc

end Follows

end Follows
