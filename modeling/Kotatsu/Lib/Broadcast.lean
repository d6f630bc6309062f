import Mathlib.Data.List.Pairwise
import Mathlib.Data.List.Sort

/-
  Broadcasting a log

  Entries are appended to a log under increasing stamps. Each one is announced by
  a task of its own: the task waits, then takes a snapshot of the receivers, then
  sends to them one after the other. A receiver may go away, and a new one may
  come at any time. Nothing orders the tasks of two entries.

  If no task overtakes an earlier one, neither at its snapshot nor at a receiver
  (`Step`), then
    1. every receiver gets entries in the order of the log (`sent_sublist`);
    2. a receiver that is still there when nothing is under way, and ever got an
       entry, got the last one of the log last (`last_sent`).
-/

namespace Broadcast

variable {μ κ τ : Type} [LinearOrder τ]

/-- Entries `μ` announced to receivers `κ`. -/
structure State (μ κ : Type) where
  log : List μ
  /-- The task of the entry has not taken its snapshot. -/
  waits : μ → Prop
  /-- The task of the entry has yet to send it to the receiver. -/
  pends : κ → μ → Prop
  sent : κ → List μ
  live : κ → Prop
  /-- Snapshots can still be taken. -/
  opened : Prop

variable {stamp : μ → τ}

/-- The entry was sent to the receiver, or will be. -/
def State.Reaches (b : State μ κ) (k : κ) (m : μ) : Prop := m ∈ b.sent k ∨ b.pends k m

/-- What a step on an entry leaves alone: no receiver comes. -/
structure Kept (b b' : State μ κ) : Prop where
  live : ∀ k, b'.live k → b.live k
  opened : b'.opened ↔ b.opened

/-- One step, by what it does. -/
inductive Step (stamp : μ → τ) (b b' : State μ κ) : Prop
  /-- Receivers go away, and come with nothing sent to them; the rest stays. -/
  | change (hlog : b'.log = b.log) (hw : ∀ m, b'.waits m ↔ b.waits m)
      (hp : ∀ k m, b'.pends k m ↔ b.pends k m) (hs : ∀ k, b'.sent k = b.sent k)
      (hl : ∀ k, b'.live k → b.live k ∨ ∀ m, ¬ b.Reaches k m) (ho : b'.opened → b.opened)
      (hlo : ∀ k, b'.live k → b'.opened)
  /-- A new entry. -/
  | append (m : μ) (hnew : ∀ m' ∈ b.log, stamp m' < stamp m) (hlog : b'.log = b.log ++ [m])
      (hw : ∀ m', b'.waits m' ↔ b.waits m' ∨ m' = m) (hp : ∀ k m, b'.pends k m ↔ b.pends k m)
      (hs : ∀ k, b'.sent k = b.sent k) (hk : Kept b b')
  /-- A snapshot, of every live receiver at least; no earlier entry waits. -/
  | snapshot (m : μ) (R : κ → Prop) (hm : b.waits m)
      (hfirst : ∀ m', b.waits m' → ¬ stamp m' < stamp m) (hR : ∀ k, b.live k → R k)
      (hlog : b'.log = b.log) (hw : ∀ m', b'.waits m' ↔ b.waits m' ∧ m' ≠ m)
      (hp : ∀ k m', b'.pends k m' ↔ b.pends k m' ∨ (m' = m ∧ R k))
      (hs : ∀ k, b'.sent k = b.sent k) (hk : Kept b b')
  /-- A task gives up once no snapshot can be taken any more. -/
  | abandon (m : μ) (hclosed : ¬ b.opened) (hlog : b'.log = b.log)
      (hw : ∀ m', b'.waits m' ↔ b.waits m' ∧ m' ≠ m) (hp : ∀ k m, b'.pends k m ↔ b.pends k m)
      (hs : ∀ k, b'.sent k = b.sent k) (hk : Kept b b')
  /-- An entry is sent; no earlier one has yet to be sent to the same receiver. -/
  | send (k : κ) (m : μ) (hm : b.pends k m)
      (hfirst : ∀ m', b.pends k m' → ¬ stamp m' < stamp m) (hlog : b'.log = b.log)
      (hw : ∀ m, b'.waits m ↔ b.waits m)
      (hp : ∀ k' m', b'.pends k' m' ↔ b.pends k' m' ∧ ¬ (k' = k ∧ m' = m))
      (hs : ∀ k', k' ≠ k → b'.sent k' = b.sent k') (hsk : b'.sent k = b.sent k ++ [m])
      (hk : Kept b b')
  /-- A send is lost on a receiver that is gone. -/
  | lose (k : κ) (m : μ) (hgone : ¬ b.live k) (hlog : b'.log = b.log)
      (hw : ∀ m, b'.waits m ↔ b.waits m)
      (hp : ∀ k' m', b'.pends k' m' ↔ b.pends k' m' ∧ ¬ (k' = k ∧ m' = m))
      (hs : ∀ k, b'.sent k = b.sent k) (hk : Kept b b')

/-- What holds as long as no task overtakes another. -/
structure Ordered (stamp : μ → τ) (b : State μ κ) : Prop where
  log : b.log.Pairwise fun m m' => stamp m < stamp m'
  waits_mem : ∀ {m}, b.waits m → m ∈ b.log
  reaches_mem : ∀ {k m}, b.Reaches k m → m ∈ b.log
  sent : ∀ k, (b.sent k).Pairwise fun m m' => stamp m < stamp m'
  /-- What pends at a receiver is later than what was sent to it. -/
  pends_later : ∀ {k m m'}, b.pends k m → m' ∈ b.sent k → stamp m' < stamp m
  /-- What waits is later than what was snapshotted. -/
  waits_later : ∀ {k m m'}, b.waits m → b.Reaches k m' → stamp m' < stamp m
  /-- Behind an entry that waits, all entries wait. -/
  waits_all : ∀ {m m'}, b.opened → b.waits m → m' ∈ b.log → stamp m < stamp m' → b.waits m'
  live_opened : ∀ {k}, b.live k → b.opened
  /-- A receiver that one entry reaches is reached by the later ones, unless they wait. -/
  complete : ∀ {k m m'}, b.live k → b.Reaches k m → m' ∈ b.log → stamp m < stamp m' →
    b.Reaches k m' ∨ b.waits m'

/-! ## What is sent or will be -/

section Reach
variable {b b' : State μ κ}

theorem reaches_same (hp : ∀ k m, b'.pends k m ↔ b.pends k m) (hs : ∀ k, b'.sent k = b.sent k)
    (k : κ) (m : μ) : b'.Reaches k m ↔ b.Reaches k m := by
  unfold State.Reaches
  rw [hs k, hp k m]

theorem reaches_snapshot {m : μ} {R : κ → Prop}
    (hp : ∀ k m', b'.pends k m' ↔ b.pends k m' ∨ (m' = m ∧ R k))
    (hs : ∀ k, b'.sent k = b.sent k) (k : κ) (m' : μ) :
    b'.Reaches k m' ↔ b.Reaches k m' ∨ (m' = m ∧ R k) := by
  unfold State.Reaches
  rw [hs k, hp k m', or_assoc]

/-- A send moves an entry from what will be sent to what was sent. -/
theorem reaches_send {k : κ} {m : μ} (hm : b.pends k m)
    (hp : ∀ k' m', b'.pends k' m' ↔ b.pends k' m' ∧ ¬ (k' = k ∧ m' = m))
    (hs : ∀ k', k' ≠ k → b'.sent k' = b.sent k') (hsk : b'.sent k = b.sent k ++ [m])
    (k' : κ) (m' : μ) : b'.Reaches k' m' ↔ b.Reaches k' m' := by
  unfold State.Reaches
  rw [hp k' m']
  by_cases hk : k' = k
  · subst hk
    rw [hsk, List.mem_append, List.mem_singleton]
    by_cases hmm : m' = m
    · subst hmm
      simp [hm]
    · simp [hmm]
  · rw [hs k' hk]
    simp [hk]

theorem reaches_lose {k : κ} {m : μ}
    (hp : ∀ k' m', b'.pends k' m' ↔ b.pends k' m' ∧ ¬ (k' = k ∧ m' = m))
    (hs : ∀ k, b'.sent k = b.sent k) {k' : κ} {m' : μ} :
    (b'.Reaches k' m' → b.Reaches k' m') ∧
    (k' ≠ k → b.Reaches k' m' → b'.Reaches k' m') := by
  unfold State.Reaches
  rw [hs k', hp k' m']
  refine ⟨?_, ?_⟩
  · intro h
    exact h.imp_right And.left
  · intro hne h
    exact h.imp_right fun h => ⟨h, fun hk => hne hk.1⟩

end Reach

/-! ## No step overtakes -/

section Ordered
variable {b b' : State μ κ}

/-- Two entries of the log have different stamps. -/
theorem Ordered.lt_of_not_lt (h : Ordered stamp b) {m m' : μ} (hm : m ∈ b.log) (hm' : m' ∈ b.log)
    (hne : m' ≠ m) (hlt : ¬ stamp m' < stamp m) : stamp m < stamp m' := by
  have hdistinct : b.log.Pairwise fun m m' => stamp m ≠ stamp m' := h.log.imp ne_of_lt
  have : Std.Symm fun m m' : μ => stamp m ≠ stamp m' := ⟨fun _ _ h => h.symm⟩
  have hstamp : stamp m ≠ stamp m' := hdistinct.forall hm hm' hne.symm
  exact lt_of_le_of_ne (not_lt.mp hlt) hstamp

theorem ordered_change (h : Ordered stamp b) (hlog : b'.log = b.log)
    (hw : ∀ m, b'.waits m ↔ b.waits m) (hp : ∀ k m, b'.pends k m ↔ b.pends k m)
    (hs : ∀ k, b'.sent k = b.sent k) (hl : ∀ k, b'.live k → b.live k ∨ ∀ m, ¬ b.Reaches k m)
    (ho : b'.opened → b.opened) (hlo : ∀ k, b'.live k → b'.opened) : Ordered stamp b' := by
  have hr := reaches_same hp hs
  refine ⟨hlog ▸ h.log, ?_, ?_, fun k => hs k ▸ h.sent k, ?_, ?_, ?_, fun hk => hlo _ hk, ?_⟩
  · intro m hm
    rw [hlog]
    exact h.waits_mem ((hw m).mp hm)
  · intro k m hm
    rw [hlog]
    exact h.reaches_mem ((hr k m).mp hm)
  · intro k m m' hm hm'
    rw [hs k] at hm'
    exact h.pends_later ((hp k m).mp hm) hm'
  · intro k m m' hm hm'
    exact h.waits_later ((hw m).mp hm) ((hr k m').mp hm')
  · intro m m' hopen hm hm' hlt
    rw [hlog] at hm'
    exact (hw m').mpr (h.waits_all (ho hopen) ((hw m).mp hm) hm' hlt)
  · intro k m m' hk hm hm' hlt
    rw [hlog] at hm'
    rw [hr, hw]
    rcases hl k hk with hk | hnone
    · exact h.complete hk ((hr k m).mp hm) hm' hlt
    · exact absurd ((hr k m).mp hm) (hnone m)

theorem ordered_append (h : Ordered stamp b) {m : μ} (hnew : ∀ m' ∈ b.log, stamp m' < stamp m)
    (hlog : b'.log = b.log ++ [m]) (hw : ∀ m', b'.waits m' ↔ b.waits m' ∨ m' = m)
    (hp : ∀ k m, b'.pends k m ↔ b.pends k m) (hs : ∀ k, b'.sent k = b.sent k)
    (hk : Kept b b') : Ordered stamp b' := by
  have hr := reaches_same hp hs
  have hmem : ∀ m', m' ∈ b'.log ↔ m' ∈ b.log ∨ m' = m := by
    intro m'
    rw [hlog, List.mem_append, List.mem_singleton]
  refine ⟨?_, ?_, ?_, fun k => hs k ▸ h.sent k, ?_, ?_, ?_, ?_, ?_⟩
  · rw [hlog]
    refine List.pairwise_append.mpr ⟨h.log, List.pairwise_singleton _ _, ?_⟩
    intro m₁ h₁ m₂ h₂
    rw [List.mem_singleton.mp h₂]
    exact hnew m₁ h₁
  · intro m' hm'
    exact (hmem m').mpr (((hw m').mp hm').imp_left h.waits_mem)
  · intro k m' hm'
    exact (hmem m').mpr (.inl (h.reaches_mem ((hr k m').mp hm')))
  · intro k m₁ m₂ h₁ h₂
    rw [hs k] at h₂
    exact h.pends_later ((hp k m₁).mp h₁) h₂
  · intro k m₁ m₂ h₁ h₂
    have h₂ := (hr k m₂).mp h₂
    rcases (hw m₁).mp h₁ with h₁ | rfl
    · exact h.waits_later h₁ h₂
    · exact hnew m₂ (h.reaches_mem h₂)
  · intro m₁ m₂ hopen h₁ h₂ hlt
    rw [hw]
    rcases (hmem m₂).mp h₂ with h₂ | rfl
    · rcases (hw m₁).mp h₁ with h₁ | rfl
      · exact .inl (h.waits_all (hk.opened.mp hopen) h₁ h₂ hlt)
      · exact absurd (hnew m₂ h₂) hlt.not_gt
    · exact .inr rfl
  · intro k hlive
    exact hk.opened.mpr (h.live_opened (hk.live k hlive))
  · intro k m₁ m₂ hlive h₁ h₂ hlt
    rw [hr, hw]
    rcases (hmem m₂).mp h₂ with h₂ | rfl
    · exact (h.complete (hk.live k hlive) ((hr k m₁).mp h₁) h₂ hlt).imp_right .inl
    · exact .inr (.inr rfl)

theorem ordered_snapshot (h : Ordered stamp b) {m : μ} {R : κ → Prop} (hm : b.waits m)
    (hfirst : ∀ m', b.waits m' → ¬ stamp m' < stamp m) (hR : ∀ k, b.live k → R k)
    (hlog : b'.log = b.log) (hw : ∀ m', b'.waits m' ↔ b.waits m' ∧ m' ≠ m)
    (hp : ∀ k m', b'.pends k m' ↔ b.pends k m' ∨ (m' = m ∧ R k))
    (hs : ∀ k, b'.sent k = b.sent k) (hk : Kept b b') : Ordered stamp b' := by
  have hr := reaches_snapshot hp hs
  have hmlog : m ∈ b.log := h.waits_mem hm
  -- what still waits is later than the entry that is snapshotted
  have hlater : ∀ m', b'.waits m' → stamp m < stamp m' := by
    intro m' hm'
    obtain ⟨hwait, hne⟩ := (hw m').mp hm'
    exact h.lt_of_not_lt hmlog (h.waits_mem hwait) hne (hfirst m' hwait)
  refine ⟨hlog ▸ h.log, ?_, ?_, fun k => hs k ▸ h.sent k, ?_, ?_, ?_, ?_, ?_⟩
  · intro m' hm'
    rw [hlog]
    exact h.waits_mem ((hw m').mp hm').1
  · intro k m' hm'
    rw [hlog]
    rcases (hr k m').mp hm' with hm' | ⟨rfl, -⟩
    · exact h.reaches_mem hm'
    · exact hmlog
  · intro k m₁ m₂ h₁ h₂
    rw [hs k] at h₂
    rcases (hp k m₁).mp h₁ with h₁ | ⟨rfl, -⟩
    · exact h.pends_later h₁ h₂
    · exact h.waits_later hm (.inl h₂)
  · intro k m₁ m₂ h₁ h₂
    rcases (hr k m₂).mp h₂ with h₂ | ⟨rfl, -⟩
    · exact h.waits_later ((hw m₁).mp h₁).1 h₂
    · exact hlater m₁ h₁
  · intro m₁ m₂ hopen h₁ h₂ hlt
    rw [hlog] at h₂
    refine (hw m₂).mpr ⟨h.waits_all (hk.opened.mp hopen) ((hw m₁).mp h₁).1 h₂ hlt, ?_⟩
    intro heq
    subst heq
    exact hlt.not_gt (hlater m₁ h₁)
  · intro k hlive
    exact hk.opened.mpr (h.live_opened (hk.live k hlive))
  · intro k m₁ m₂ hlive h₁ h₂ hlt
    rw [hlog] at h₂
    have hlive₀ : b.live k := hk.live k hlive
    have hwaits : b.waits m₂ → b'.Reaches k m₂ ∨ b'.waits m₂ := by
      intro hwait
      by_cases hmm : m₂ = m
      · exact .inl ((hr k m₂).mpr (.inr ⟨hmm, hR k hlive₀⟩))
      · exact .inr ((hw m₂).mpr ⟨hwait, hmm⟩)
    rcases (hr k m₁).mp h₁ with h₁ | ⟨rfl, -⟩
    · rcases h.complete hlive₀ h₁ h₂ hlt with hreach | hwait
      · exact .inl ((hr k m₂).mpr (.inl hreach))
      · exact hwaits hwait
    · exact hwaits (h.waits_all (h.live_opened hlive₀) hm h₂ hlt)

theorem ordered_abandon (h : Ordered stamp b) {m : μ} (hclosed : ¬ b.opened)
    (hlog : b'.log = b.log) (hw : ∀ m', b'.waits m' ↔ b.waits m' ∧ m' ≠ m)
    (hp : ∀ k m, b'.pends k m ↔ b.pends k m) (hs : ∀ k, b'.sent k = b.sent k)
    (hk : Kept b b') : Ordered stamp b' := by
  have hr := reaches_same hp hs
  refine ⟨hlog ▸ h.log, ?_, ?_, fun k => hs k ▸ h.sent k, ?_, ?_, ?_, ?_, ?_⟩
  · intro m' hm'
    rw [hlog]
    exact h.waits_mem ((hw m').mp hm').1
  · intro k m' hm'
    rw [hlog]
    exact h.reaches_mem ((hr k m').mp hm')
  · intro k m₁ m₂ h₁ h₂
    rw [hs k] at h₂
    exact h.pends_later ((hp k m₁).mp h₁) h₂
  · intro k m₁ m₂ h₁ h₂
    exact h.waits_later ((hw m₁).mp h₁).1 ((hr k m₂).mp h₂)
  · intro m₁ m₂ hopen
    exact absurd (hk.opened.mp hopen) hclosed
  · intro k hlive
    exact absurd (h.live_opened (hk.live k hlive)) hclosed
  · intro k m₁ m₂ hlive
    exact absurd (h.live_opened (hk.live k hlive)) hclosed

theorem ordered_send (h : Ordered stamp b) {k : κ} {m : μ} (hm : b.pends k m)
    (hfirst : ∀ m', b.pends k m' → ¬ stamp m' < stamp m) (hlog : b'.log = b.log)
    (hw : ∀ m, b'.waits m ↔ b.waits m)
    (hp : ∀ k' m', b'.pends k' m' ↔ b.pends k' m' ∧ ¬ (k' = k ∧ m' = m))
    (hs : ∀ k', k' ≠ k → b'.sent k' = b.sent k') (hsk : b'.sent k = b.sent k ++ [m])
    (hk : Kept b b') : Ordered stamp b' := by
  have hr := reaches_send hm hp hs hsk
  have hmlog : m ∈ b.log := h.reaches_mem (.inr hm)
  refine ⟨hlog ▸ h.log, ?_, ?_, ?_, ?_, ?_, ?_, ?_, ?_⟩
  · intro m' hm'
    rw [hlog]
    exact h.waits_mem ((hw m').mp hm')
  · intro k' m' hm'
    rw [hlog]
    exact h.reaches_mem ((hr k' m').mp hm')
  · intro k'
    by_cases hkk : k' = k
    · subst hkk
      rw [hsk]
      refine List.pairwise_append.mpr ⟨h.sent k', List.pairwise_singleton _ _, ?_⟩
      intro m₁ h₁ m₂ h₂
      rw [List.mem_singleton.mp h₂]
      exact h.pends_later hm h₁
    · rw [hs k' hkk]
      exact h.sent k'
  · intro k' m₁ m₂ h₁ h₂
    obtain ⟨h₁, hnot⟩ := (hp k' m₁).mp h₁
    by_cases hkk : k' = k
    · subst hkk
      rw [hsk, List.mem_append, List.mem_singleton] at h₂
      rcases h₂ with h₂ | rfl
      · exact h.pends_later h₁ h₂
      · have hne : m₁ ≠ m₂ := fun hmm => hnot ⟨rfl, hmm⟩
        exact h.lt_of_not_lt hmlog (h.reaches_mem (.inr h₁)) hne (hfirst m₁ h₁)
    · rw [hs k' hkk] at h₂
      exact h.pends_later h₁ h₂
  · intro k' m₁ m₂ h₁ h₂
    exact h.waits_later ((hw m₁).mp h₁) ((hr k' m₂).mp h₂)
  · intro m₁ m₂ hopen h₁ h₂ hlt
    rw [hlog] at h₂
    exact (hw m₂).mpr (h.waits_all (hk.opened.mp hopen) ((hw m₁).mp h₁) h₂ hlt)
  · intro k' hlive
    exact hk.opened.mpr (h.live_opened (hk.live k' hlive))
  · intro k' m₁ m₂ hlive h₁ h₂ hlt
    rw [hlog] at h₂
    rw [hr, hw]
    exact h.complete (hk.live k' hlive) ((hr k' m₁).mp h₁) h₂ hlt

theorem ordered_lose (h : Ordered stamp b) {k : κ} {m : μ} (hgone : ¬ b.live k)
    (hlog : b'.log = b.log) (hw : ∀ m, b'.waits m ↔ b.waits m)
    (hp : ∀ k' m', b'.pends k' m' ↔ b.pends k' m' ∧ ¬ (k' = k ∧ m' = m))
    (hs : ∀ k, b'.sent k = b.sent k) (hk : Kept b b') : Ordered stamp b' := by
  have hr : ∀ k' m', b'.Reaches k' m' → b.Reaches k' m' := fun _ _ => (reaches_lose hp hs).1
  refine ⟨hlog ▸ h.log, ?_, ?_, fun k => hs k ▸ h.sent k, ?_, ?_, ?_, ?_, ?_⟩
  · intro m' hm'
    rw [hlog]
    exact h.waits_mem ((hw m').mp hm')
  · intro k' m' hm'
    rw [hlog]
    exact h.reaches_mem (hr k' m' hm')
  · intro k' m₁ m₂ h₁ h₂
    rw [hs k'] at h₂
    exact h.pends_later ((hp k' m₁).mp h₁).1 h₂
  · intro k' m₁ m₂ h₁ h₂
    exact h.waits_later ((hw m₁).mp h₁) (hr k' m₂ h₂)
  · intro m₁ m₂ hopen h₁ h₂ hlt
    rw [hlog] at h₂
    exact (hw m₂).mpr (h.waits_all (hk.opened.mp hopen) ((hw m₁).mp h₁) h₂ hlt)
  · intro k' hlive
    exact hk.opened.mpr (h.live_opened (hk.live k' hlive))
  · intro k' m₁ m₂ hlive h₁ h₂ hlt
    rw [hlog] at h₂
    have hlive₀ : b.live k' := hk.live k' hlive
    have hne : k' ≠ k := by
      intro heq
      subst heq
      exact hgone hlive₀
    rw [hw]
    exact (h.complete hlive₀ (hr k' m₁ h₁) h₂ hlt).imp_left ((reaches_lose hp hs).2 hne)

theorem Ordered.step (h : Ordered stamp b) (hs : Step stamp b b') : Ordered stamp b' := by
  cases hs with
  | change hlog hw hp hs hl ho hlo => exact ordered_change h hlog hw hp hs hl ho hlo
  | append m hnew hlog hw hp hs hk => exact ordered_append h hnew hlog hw hp hs hk
  | snapshot m R hm hfirst hR hlog hw hp hs hk =>
    exact ordered_snapshot h hm hfirst hR hlog hw hp hs hk
  | abandon m hclosed hlog hw hp hs hk => exact ordered_abandon h hclosed hlog hw hp hs hk
  | send k m hm hfirst hlog hw hp hs hsk hk => exact ordered_send h hm hfirst hlog hw hp hs hsk hk
  | lose k m hgone hlog hw hp hs hk => exact ordered_lose h hgone hlog hw hp hs hk

/-! ## What receivers see -/

/-- A receiver gets entries in the order of the log. -/
theorem Ordered.sent_sublist (h : Ordered stamp b) (k : κ) : (b.sent k).Sublist b.log := by
  have : Std.Antisymm fun m m' : μ => stamp m < stamp m' :=
    ⟨fun _ _ hlt hgt => absurd hlt hgt.not_gt⟩
  have hnodup : (b.sent k).Nodup :=
    (h.sent k).imp fun hlt heq => (ne_of_lt hlt) (congrArg stamp heq)
  have hsub : b.sent k ⊆ b.log := fun m hm => h.reaches_mem (.inl hm)
  exact List.sublist_of_subperm_of_pairwise (List.subperm_of_subset hnodup hsub) (h.sent k) h.log

/-- In an increasing list, nothing is later than the last element. -/
theorem not_last_lt {l : List μ} (h : l.Pairwise fun m m' => stamp m < stamp m') {m m' : μ}
    (hlast : l.getLast? = some m) (hm' : m' ∈ l) : ¬ stamp m < stamp m' := by
  obtain ⟨l, rfl⟩ := List.getLast?_eq_some_iff.mp hlast
  rcases List.mem_append.mp hm' with hm' | hm'
  · exact ((List.pairwise_append.mp h).2.2 m' hm' m (List.mem_singleton_self m)).not_gt
  · rw [List.mem_singleton.mp hm']
    exact lt_irrefl _

/-- Once nothing is under way, the last entry that a live receiver got is the last
one of the log. -/
theorem Ordered.last_sent (h : Ordered stamp b) {k : κ} {m : μ} (hlive : b.live k)
    (hquiet : ∀ m, ¬ b.waits m ∧ ¬ b.pends k m) (hlast : (b.sent k).getLast? = some m) :
    b.log.getLast? = some m := by
  have hm : m ∈ b.sent k := List.mem_of_getLast? hlast
  have hmlog : m ∈ b.log := h.reaches_mem (.inl hm)
  obtain ⟨m', hm'⟩ : ∃ m', b.log.getLast? = some m' :=
    Option.isSome_iff_exists.mp (List.getLast?_isSome.mpr (List.ne_nil_of_mem hmlog))
  have hmem' : m' ∈ b.log := List.mem_of_getLast? hm'
  by_cases hmm : m' = m
  · rw [hm', hmm]
  · -- the last entry of the log would have reached the receiver after `m`
    have hlt : stamp m < stamp m' := by
      by_contra hlt
      exact not_last_lt h.log hm' hmlog (h.lt_of_not_lt hmem' hmlog (Ne.symm hmm) hlt)
    rcases h.complete hlive (.inl hm) hmem' hlt with (hsent | hpend) | hwait
    · exact absurd hlt (not_last_lt (h.sent k) hlast hsent)
    · exact absurd hpend (hquiet m').2
    · exact absurd hwait (hquiet m').1

end Ordered

end Broadcast
