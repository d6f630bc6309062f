import Mathlib.Data.List.Sort
import Mathlib.Data.Set.Card

/-
  Listings

  A listing of some values is the list of all of them in strictly ascending order of
  a key. There is at most one (`Listing.unique`), and sorting a list whose keys are
  distinct gives it (`listing_sort`): what a program lists by sorting does not depend
  on the order in which it came by the values.
-/

variable {α κ : Type} [LinearOrder κ]

/-- `l` holds the values that satisfy `S`, in strictly ascending order of `key`. -/
structure Listing (key : α → κ) (S : α → Prop) (l : List α) : Prop where
  ascending : l.Pairwise fun a b => key a < key b
  mem : ∀ x, x ∈ l ↔ S x

namespace Listing

variable {key : α → κ} {S : α → Prop} {l l' : List α}

theorem keys_nodup (h : Listing key S l) : (l.map key).Nodup :=
  List.pairwise_map.mpr (h.ascending.imp ne_of_lt)

theorem nodup (h : Listing key S l) : l.Nodup := h.keys_nodup.of_map

/-- A listing is determined by what it lists. -/
theorem unique (h : Listing key S l) (h' : Listing key S l') : l = l' := by
  have hperm : l.Perm l' := by
    refine (List.perm_ext_iff_of_nodup h.nodup h'.nodup).mpr ?_
    intro x
    rw [h.mem, h'.mem]
  refine hperm.eq_of_pairwise ?_ h.ascending h'.ascending
  intro a b _ _ hab hba
  exact absurd hba (lt_asymm hab)

theorem congr {S' : α → Prop} (h : Listing key S l) (hS : ∀ x, S x ↔ S' x) : Listing key S' l :=
  ⟨h.ascending, fun x => (h.mem x).trans (hS x)⟩

/-- Values that are translated one by one, with their keys. -/
theorem map {β : Type} {key' : β → κ} {f : α → β} (hkey : ∀ a, key' (f a) = key a)
    (h : Listing key S l) : Listing key' (fun b => ∃ a, S a ∧ f a = b) (l.map f) := by
  refine ⟨?_, ?_⟩
  · rw [List.pairwise_map]
    simpa only [hkey] using h.ascending
  · intro b
    simp only [List.mem_map, h.mem]

/-- A listing is as long as there are keys. -/
theorem length_eq (h : Listing key S l) : l.length = {k | ∃ a, S a ∧ key a = k}.ncard := by
  have hset : {k | ∃ a, S a ∧ key a = k} = ((l.map key).toFinset : Set κ) := by
    ext k
    simp [h.mem]
  calc
    l.length = (l.map key).length := (List.length_map key).symm
    _ = (l.map key).toFinset.card := (List.toFinset_card_of_nodup h.keys_nodup).symm
    _ = {k | ∃ a, S a ∧ key a = k}.ncard := by rw [hset, Set.ncard_coe_finset]

end Listing

/-- Sorting by a key that tells the values apart lists them. -/
theorem listing_sort {key : α → κ} {r : α → α → Prop} [DecidableRel r]
    (hr : ∀ a b, r a b ↔ key a ≤ key b) {l : List α} (hl : (l.map key).Nodup) :
    Listing key (· ∈ l) (l.insertionSort r) := by
  have htotal : Std.Total r := ⟨fun a b => by rw [hr, hr]; exact le_total _ _⟩
  have htrans : IsTrans α r := ⟨fun a b c hab hbc => by rw [hr] at *; exact hab.trans hbc⟩
  have hperm : (l.insertionSort r).Perm l := List.perm_insertionSort r l
  refine ⟨?_, fun x => List.mem_insertionSort r⟩
  have hne : (l.insertionSort r).Pairwise fun a b => key a ≠ key b :=
    List.pairwise_map.mp ((hperm.map key).nodup_iff.mpr hl)
  refine ((List.pairwise_insertionSort r l).and hne).imp ?_
  intro a b hab
  exact lt_of_le_of_ne ((hr a b).mp hab.1) hab.2
