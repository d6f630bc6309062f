import Mathlib.Data.List.Basic
import Mathlib.Data.List.Induction

/-
  What a log says

  `cell`: some events of a log write a value into a cell, others clear the value
  that is there if it is one they concern. `cell_eq_some_iff` says which event wrote
  the content after the whole log, and that nothing touched it since.

  `last`: the cell that nothing clears.

  `firsts`: some events carry a key. The keys of a log are listed in the order of
  their first event; a longer log only adds keys at the end, so the position of a
  key is settled by its first event.
-/

namespace History

section Cell
variable {ε α : Type} (write : ε → Option α) (clears : ε → α → Bool)

/-- One event: what it writes, else what it leaves. -/
def cellStep (cur : Option α) (e : ε) : Option α :=
  (write e).or (cur.filter fun v => !clears e v)

/-- The content of the cell after the log. -/
def cell (tr : List ε) : Option α := tr.foldl (cellStep write clears) none

variable {write clears}

theorem cell_append (tr evs : List ε) : cell write clears (tr ++ evs) =
    evs.foldl (cellStep write clears) (cell write clears tr) := List.foldl_append

theorem cell_snoc (tr : List ε) (e : ε) : cell write clears (tr ++ [e]) =
    cellStep write clears (cell write clears tr) e := by
  rw [cell_append]
  rfl

/-- An event that neither writes nor clears leaves what is there. -/
theorem cellStep_quiet {e : ε} (hw : write e = none) (hc : ∀ v, clears e v = false)
    (cur : Option α) : cellStep write clears cur e = cur := by
  rw [cellStep, hw, Option.none_or]
  cases cur with
  | none => rfl
  | some v => simp [hc]

/-- Events that neither write nor clear leave the cell. -/
theorem cell_append_quiet {tr evs : List ε}
    (h : ∀ e ∈ evs, write e = none ∧ ∀ v, clears e v = false) :
    cell write clears (tr ++ evs) = cell write clears tr := by
  induction evs generalizing tr with
  | nil => rw [List.append_nil]
  | cons e evs ih =>
    obtain ⟨hw, hc⟩ := h e List.mem_cons_self
    have hrest : ∀ e ∈ evs, write e = none ∧ ∀ v, clears e v = false :=
      fun x hx => h x (List.mem_cons_of_mem _ hx)
    rw [← List.singleton_append, ← List.append_assoc, ih hrest, cell_snoc, cellStep_quiet hw hc]

/-- The cell holds a value exactly if some event wrote it and no later event wrote
another or cleared it. -/
theorem cell_eq_some_iff {tr : List ε} {v : α} : cell write clears tr = some v ↔
    ∃ pre e post, tr = pre ++ e :: post ∧ write e = some v ∧
      ∀ x ∈ post, write x = none ∧ clears x v = false := by
  induction tr using List.reverseRecOn with
  | nil =>
    simp [cell]
  | append_singleton tr e ih =>
    rw [cell_snoc, cellStep]
    constructor
    · intro h
      cases hw : write e with
      | some w =>
        rw [hw] at h
        cases h
        exact ⟨tr, e, [], rfl, hw, by simp⟩
      | none =>
        rw [hw, Option.none_or, Option.filter_eq_some_iff] at h
        obtain ⟨pre, x, post, rfl, hx, hpost⟩ := ih.mp h.1
        refine ⟨pre, x, post ++ [e], by simp, hx, ?_⟩
        intro y hy
        rcases List.mem_append.mp hy with hy | hy
        · exact hpost y hy
        · rw [List.mem_singleton.mp hy]
          exact ⟨hw, by simpa using h.2⟩
    · intro hex
      obtain ⟨pre, x, post, heq, hx, hpost⟩ := hex
      rcases List.eq_nil_or_concat post with rfl | ⟨post, y, rfl⟩
      · -- the last event is the write
        obtain ⟨-, rfl⟩ : tr = pre ∧ e = x := by simpa using heq
        rw [hx, Option.some_or]
      · rw [List.concat_eq_append] at heq hpost
        have heq' : tr ++ [e] = (pre ++ x :: post) ++ [y] := by simpa using heq
        obtain ⟨rfl, hey⟩ := List.append_inj' heq' rfl
        obtain rfl : e = y := List.singleton_inj.mp hey
        obtain ⟨hw, hc⟩ := hpost e (by simp)
        have hcell := ih.mpr ⟨pre, x, post, rfl, hx,
          fun z hz => hpost z (List.mem_append_left _ hz)⟩
        rw [hw, Option.none_or, hcell]
        simp [hc]

end Cell

/-! ## Last events -/

section Last
variable {ε α : Type} (write : ε → Option α)

/-- What the last event that carries a value carries. -/
def last (tr : List ε) : Option α := cell write (fun _ _ => false) tr

variable {write}

theorem last_snoc (tr : List ε) (e : ε) :
    last write (tr ++ [e]) = (write e).or (last write tr) := by
  rw [last, cell_snoc, cellStep]
  show (write e).or ((last write tr).filter fun _ => true) = (write e).or (last write tr)
  cases last write tr <;> rfl

/-- An event that carries no value. -/
theorem last_snoc_quiet {tr : List ε} {e : ε} (h : write e = none) :
    last write (tr ++ [e]) = last write tr := by
  rw [last_snoc, h, Option.none_or]

/-- The value is that of some event. -/
theorem mem_of_last {tr : List ε} {v : α} (h : last write tr = some v) :
    ∃ e ∈ tr, write e = some v := by
  obtain ⟨pre, e, post, rfl, he, -⟩ := cell_eq_some_iff.mp h
  exact ⟨e, by simp, he⟩

end Last

/-! ## First events -/

section Firsts
variable {ε α : Type} [DecidableEq α] (key : ε → Option α)

/-- List the key of an event behind the ones already listed. -/
def firstsStep (acc : List α) (e : ε) : List α :=
  match key e with
  | some a => if a ∈ acc then acc else acc ++ [a]
  | none => acc

/-- The keys of the log, in the order of their first event. -/
def firsts (tr : List ε) : List α := tr.foldl (firstsStep key) []

variable {key}

theorem firsts_snoc (tr : List ε) (e : ε) :
    firsts key (tr ++ [e]) = firstsStep key (firsts key tr) e := by
  rw [firsts, List.foldl_append]
  rfl

theorem firsts_append (tr evs : List ε) :
    firsts key (tr ++ evs) = evs.foldl (firstsStep key) (firsts key tr) := List.foldl_append

theorem prefix_firstsStep (acc : List α) (e : ε) : acc <+: firstsStep key acc e := by
  unfold firstsStep
  split
  · split
    · exact List.prefix_refl acc
    · exact List.prefix_append acc _
  · exact List.prefix_refl acc

/-- A longer log adds keys at the end. -/
theorem prefix_firsts (tr evs : List ε) : firsts key tr <+: firsts key (tr ++ evs) := by
  rw [firsts_append]
  generalize firsts key tr = acc
  induction evs generalizing acc with
  | nil => exact List.prefix_refl acc
  | cons e evs ih => exact (prefix_firstsStep acc e).trans (ih _)

theorem firsts_nodup (tr : List ε) : (firsts key tr).Nodup := by
  induction tr using List.reverseRecOn with
  | nil => exact List.nodup_nil
  | append_singleton tr e ih =>
    rw [firsts_snoc, firstsStep]
    split
    · split
      · exact ih
      · next ha =>
        refine List.nodup_append.mpr ⟨ih, by simp, ?_⟩
        intro b hb c hc
        rw [List.mem_singleton.mp hc]
        exact ne_of_mem_of_not_mem hb ha
    · exact ih

theorem mem_firsts {tr : List ε} {a : α} : a ∈ firsts key tr ↔ ∃ e ∈ tr, key e = some a := by
  induction tr using List.reverseRecOn with
  | nil => simp [firsts]
  | append_singleton tr e ih =>
    rw [firsts_snoc, firstsStep]
    cases hk : key e with
    | none =>
      dsimp only
      rw [ih]
      constructor
      · intro hex
        obtain ⟨x, hx, hxa⟩ := hex
        exact ⟨x, List.mem_append_left _ hx, hxa⟩
      · intro hex
        obtain ⟨x, hx, hxa⟩ := hex
        rcases List.mem_append.mp hx with hx | hx
        · exact ⟨x, hx, hxa⟩
        · rw [List.mem_singleton.mp hx, hk] at hxa
          cases hxa
    | some b =>
      have hmem : a ∈ (if b ∈ firsts key tr then firsts key tr else firsts key tr ++ [b]) ↔
          a ∈ firsts key tr ∨ a = b := by
        split
        · next hb => exact ⟨.inl, fun h => h.elim id fun h => h ▸ hb⟩
        · simp
      dsimp only
      rw [hmem, ih]
      constructor
      · intro hex
        rcases hex with ⟨x, hx, hxa⟩ | rfl
        · exact ⟨x, List.mem_append_left _ hx, hxa⟩
        · exact ⟨e, by simp, hk⟩
      · intro hex
        obtain ⟨x, hx, hxa⟩ := hex
        rcases List.mem_append.mp hx with hx | hx
        · exact .inl ⟨x, hx, hxa⟩
        · rw [List.mem_singleton.mp hx, hk] at hxa
          exact .inr (Option.some.inj hxa).symm

/-- The position of a key is settled by its first event. -/
theorem idxOf_firsts {tr evs : List ε} {a : α} (h : a ∈ firsts key tr) :
    (firsts key (tr ++ evs)).idxOf a = (firsts key tr).idxOf a := by
  obtain ⟨l, hl⟩ : firsts key tr <+: firsts key (tr ++ evs) := prefix_firsts tr evs
  rw [← hl]
  exact List.idxOf_append_of_mem h

/-- A key whose first event comes later has a higher position. -/
theorem idxOf_firsts_lt {tr evs : List ε} {a b : α} (ha : a ∈ firsts key tr)
    (hb : b ∉ firsts key tr) :
    (firsts key (tr ++ evs)).idxOf a < (firsts key (tr ++ evs)).idxOf b := by
  obtain ⟨l, hl⟩ : firsts key tr <+: firsts key (tr ++ evs) := prefix_firsts tr evs
  rw [← hl, List.idxOf_append_of_mem ha, List.idxOf_append_of_notMem hb]
  have := List.idxOf_lt_length_of_mem ha
  omega

/-- Events without a key add none. -/
theorem firsts_quiet {tr evs : List ε} (h : ∀ e ∈ evs, key e = none) :
    firsts key (tr ++ evs) = firsts key tr := by
  induction evs generalizing tr with
  | nil => rw [List.append_nil]
  | cons e evs ih =>
    rw [← List.singleton_append, ← List.append_assoc,
      ih fun x hx => h x (List.mem_cons_of_mem _ hx), firsts_snoc, firstsStep,
      h e List.mem_cons_self]

end Firsts

end History
