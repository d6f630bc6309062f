import Kotatsu.Lib.Machine

/-
  Journals

  A journal keeps of an object only what it has answered. The object is what applying the
  entries in order gives (`replay`), and an entry is lawful where the object that finds it
  admits it. What admitted entries keep holds after every lawful journal (`Lawful.induct`),
  and what holds from an entry on speaks of every entry after it (`LawfulFrom.after`).

  `Refines` is the simulation rule between a machine and such an object: each step emits
  entries that the object admits, one after the other, and leaves the two related. Then
  every history of the machine is a lawful journal, and its state is related to the replay
  of it (`Refines.reach`), so whatever is proved of lawful journals holds of the machine.
-/

/-- An object that is known by its journal. -/
structure Journal (σ ε : Type) where
  start : σ
  apply : σ → ε → σ
  Admits : σ → ε → Prop

namespace Journal

variable {σ ε : Type} (J : Journal σ ε)

/-- The object after some entries. -/
def replayFrom (x : σ) (tr : List ε) : σ := tr.foldl J.apply x

def replay (tr : List ε) : σ := J.replayFrom J.start tr

/-- Each entry is admitted where it comes. -/
def LawfulFrom : σ → List ε → Prop
  | _, [] => True
  | x, e :: tr => J.Admits x e ∧ LawfulFrom (J.apply x e) tr

def Lawful (tr : List ε) : Prop := J.LawfulFrom J.start tr

variable {J}

theorem replayFrom_append (x : σ) (tr us : List ε) :
    J.replayFrom x (tr ++ us) = J.replayFrom (J.replayFrom x tr) us := List.foldl_append

theorem replay_append (tr us : List ε) : J.replay (tr ++ us) = J.replayFrom (J.replay tr) us :=
  replayFrom_append _ _ _

theorem lawfulFrom_append {x : σ} {tr us : List ε} :
    J.LawfulFrom x (tr ++ us) ↔ J.LawfulFrom x tr ∧ J.LawfulFrom (J.replayFrom x tr) us := by
  induction tr generalizing x with
  | nil => simp [LawfulFrom, replayFrom]
  | cons e tr ih =>
    rw [List.cons_append, LawfulFrom, LawfulFrom, ih, and_assoc]
    rfl

theorem lawful_append {tr us : List ε} :
    J.Lawful (tr ++ us) ↔ J.Lawful tr ∧ J.LawfulFrom (J.replay tr) us := lawfulFrom_append

/-- What every admitted entry keeps, lawful entries keep. -/
theorem LawfulFrom.keeps {P : σ → Prop}
    (hstep : ∀ x e, P x → J.Admits x e → P (J.apply x e)) {x : σ} {tr : List ε}
    (h : J.LawfulFrom x tr) (h0 : P x) : P (J.replayFrom x tr) := by
  induction tr generalizing x with
  | nil => exact h0
  | cons e tr ih =>
    obtain ⟨he, htr⟩ := h
    exact ih htr (hstep x e h0 he)

/-- The invariant rule. -/
theorem Lawful.induct {P : σ → Prop} (h0 : P J.start)
    (hstep : ∀ x e, P x → J.Admits x e → P (J.apply x e)) {tr : List ε} (h : J.Lawful tr) :
    P (J.replay tr) := LawfulFrom.keeps hstep h h0

/-- What holds from an entry on, and tells something of an entry, tells it of all the rest. -/
theorem LawfulFrom.after {P : σ → Prop} {Q : ε → Prop}
    (hstep : ∀ x e, P x → J.Admits x e → P (J.apply x e))
    (htells : ∀ x e, P x → J.Admits x e → Q e) {x : σ} {tr : List ε} (h : J.LawfulFrom x tr)
    (h0 : P x) : ∀ e ∈ tr, Q e := by
  induction tr generalizing x with
  | nil => exact fun _ => False.elim ∘ List.not_mem_nil
  | cons e tr ih =>
    obtain ⟨he, htr⟩ := h
    intro e' he'
    rcases List.mem_cons.mp he' with rfl | he'
    · exact htells x e' h0 he
    · exact ih htr (hstep x e h0 he) e' he'

end Journal

/-! ## Machines that keep a journal -/

/-- Each step of the machine emits entries that the object of its history admits, and leaves
the two related. -/
structure Machine.Refines {σ τ α ε : Type} (M : Machine τ α ε) (G : τ → α → Prop)
    (J : Journal σ ε) (R : τ → σ → Prop) : Prop where
  init : ∀ s, M.init s → R s J.start
  step : ∀ s tr a s' evs, M.Reach G s tr → R s (J.replay tr) → G s a →
    M.step s a = some (s', evs) →
    J.LawfulFrom (J.replay tr) evs ∧ R s' (J.replayFrom (J.replay tr) evs)

theorem Machine.Refines.reach {σ τ α ε : Type} {M : Machine τ α ε} {G : τ → α → Prop}
    {J : Journal σ ε} {R : τ → σ → Prop} (h : M.Refines G J R) {s : τ} {tr : List ε}
    (hreach : M.Reach G s tr) : J.Lawful tr ∧ R s (J.replay tr) := by
  refine Machine.Reach.induct (P := fun s tr => J.Lawful tr ∧ R s (J.replay tr)) ?_ ?_ hreach
  · intro s hi
    exact ⟨trivial, h.init s hi⟩
  · intro s tr a s' evs hreach hi hg hs
    obtain ⟨hlaw, hrel⟩ := hi
    obtain ⟨hlaw', hrel'⟩ := h.step s tr a s' evs hreach hrel hg hs
    rw [Journal.replay_append]
    exact ⟨Journal.lawful_append.mpr ⟨hlaw, hlaw'⟩, hrel'⟩
