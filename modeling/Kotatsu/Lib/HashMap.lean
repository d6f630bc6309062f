import Mathlib.Algebra.Ring.Nat
import Mathlib.Data.Fintype.EquivFin
import Mathlib.Data.List.AList

/-
  Hash maps, as association lists with distinct keys

  A map is a list of entries no two of which share a key, so the distinct-keys
  invariant travels with the value (Mathlib's `AList`). The order of the list is
  one iteration order of the map; a statement about every map is a statement
  about every order.

  The laws below read every operation through `get`, so that a proof about a
  program over maps never opens the list.
-/

/-- A map from `K` to `V`: entries under distinct keys. -/
abbrev HashMap (K V : Type) : Type := AList (fun _ : K => V)

namespace HashMap

variable {K V : Type}

/-- The keys, in iteration order. -/
def keys (m : HashMap K V) : List K := AList.keys m

/-- The entries, in iteration order. -/
def toList (m : HashMap K V) : List (K × V) := m.entries.map fun e => (e.1, e.2)

/-- The values, in iteration order. -/
def values (m : HashMap K V) : List V := m.entries.map fun e => e.2

def len (m : HashMap K V) : Nat := m.entries.length

/-- Keep the entries that `f` accepts. -/
def retain (m : HashMap K V) (f : K → V → Bool) : HashMap K V :=
  ⟨m.entries.filter (fun e => f e.1 e.2), m.nodupKeys.sublist List.filter_sublist⟩

variable [DecidableEq K]

def get (m : HashMap K V) (k : K) : Option V := AList.lookup k m

def contains (m : HashMap K V) (k : K) : Bool := (m.get k).isSome

/-- Write `v` under `k`, over what was there. -/
def insert (m : HashMap K V) (k : K) (v : V) : HashMap K V := AList.insert k v m

def remove (m : HashMap K V) (k : K) : HashMap K V := AList.erase k m

/-! ## Reading back -/

theorem get_insert (m : HashMap K V) (k k' : K) (v : V) :
    (m.insert k v).get k' = if k' = k then some v else m.get k' := by
  split
  · next h => subst h; exact AList.lookup_insert m
  · next h => exact AList.lookup_insert_ne h

@[simp] theorem get_insert_self (m : HashMap K V) (k : K) (v : V) :
    (m.insert k v).get k = some v := by simp [get_insert]

theorem get_insert_ne (m : HashMap K V) {k k' : K} (v : V) (h : k' ≠ k) :
    (m.insert k v).get k' = m.get k' := by simp [get_insert, h]

/-- What is read after an insertion is what it wrote, or was there before. -/
theorem get_insert_cases {m : HashMap K V} {k k' : K} {v w : V}
    (h : (m.insert k v).get k' = some w) : (k' = k ∧ w = v) ∨ (k' ≠ k ∧ m.get k' = some w) := by
  rw [get_insert] at h
  split at h
  · next hk => exact .inl ⟨hk, (Option.some.inj h).symm⟩
  · next hk => exact .inr ⟨hk, h⟩

/-- What is present stays present through an insertion. -/
theorem exists_get_insert {m : HashMap K V} {k' : K} (h : ∃ w, m.get k' = some w) (k : K) (v : V) :
    ∃ w, (m.insert k v).get k' = some w := by
  rw [get_insert]
  split
  · exact ⟨v, rfl⟩
  · exact h

/-- What is absent after an insertion was absent before, under another key. -/
theorem get_insert_eq_none {m : HashMap K V} {k k' : K} {v : V} :
    (m.insert k v).get k' = none ↔ k' ≠ k ∧ m.get k' = none := by
  by_cases h : k' = k <;> simp [get_insert, h]

theorem get_remove (m : HashMap K V) (k k' : K) :
    (m.remove k).get k' = if k' = k then none else m.get k' := by
  split
  · next h => subst h; exact AList.lookup_erase k' m
  · next h => exact AList.lookup_erase_ne h

@[simp] theorem get_remove_self (m : HashMap K V) (k : K) : (m.remove k).get k = none := by
  simp [get_remove]

theorem get_remove_ne (m : HashMap K V) {k k' : K} (h : k' ≠ k) :
    (m.remove k).get k' = m.get k' := by simp [get_remove, h]

/-- What a removal leaves was there before, under another key. -/
theorem get_remove_eq_some {m : HashMap K V} {k k' : K} {v : V} :
    (m.remove k).get k' = some v ↔ k' ≠ k ∧ m.get k' = some v := by
  by_cases h : k' = k <;> simp [get_remove, h]

/-- Keys that hold different values differ. -/
theorem ne_of_get {m : HashMap K V} {k k' : K} {v v' : V} (h : m.get k = some v)
    (h' : m.get k' = some v') (hne : v' ≠ v) : k' ≠ k := by
  intro heq
  subst heq
  rw [h] at h'
  exact hne (Option.some.inj h').symm

/-- A key that is present is none that is free. -/
theorem ne_of_get_none {m : HashMap K V} {k k' : K} {v : V} (h : m.get k = none)
    (h' : m.get k' = some v) : k' ≠ k := by
  intro heq
  subst heq
  rw [h] at h'
  cases h'

theorem get_eq_some_iff {m : HashMap K V} {k : K} {v : V} :
    m.get k = some v ↔ (⟨k, v⟩ : Σ _ : K, V) ∈ m.entries :=
  AList.mem_lookup_iff

theorem get_retain_eq_some {m : HashMap K V} {f : K → V → Bool} {k : K} {v : V} :
    (m.retain f).get k = some v ↔ m.get k = some v ∧ f k v = true := by
  rw [get_eq_some_iff, get_eq_some_iff, retain, List.mem_filter]

theorem get_retain (m : HashMap K V) (f : K → V → Bool) (k : K) :
    (m.retain f).get k = (m.get k).filter (f k) := by
  ext v
  rw [get_retain_eq_some, Option.filter_eq_some_iff]

/-! ## Membership in the iteration -/

theorem mem_keys {m : HashMap K V} {k : K} : k ∈ m.keys ↔ ∃ v, m.get k = some v := by
  rw [keys, ← AList.mem_keys, ← AList.lookup_isSome, Option.isSome_iff_exists]
  rfl

theorem contains_iff {m : HashMap K V} {k : K} :
    m.contains k = true ↔ ∃ v, m.get k = some v := by
  rw [contains, Option.isSome_iff_exists]

theorem contains_eq_false {m : HashMap K V} {k : K} :
    m.contains k = false ↔ m.get k = none := by
  rw [contains, Option.isSome_eq_false_iff, Option.isNone_iff_eq_none]

theorem get_eq_none {m : HashMap K V} {k : K} (h : ¬ m.contains k = true) : m.get k = none :=
  contains_eq_false.mp (Bool.not_eq_true _ ▸ h)

theorem mem_toList {m : HashMap K V} {e : K × V} : e ∈ m.toList ↔ m.get e.1 = some e.2 := by
  rw [get_eq_some_iff, toList, List.mem_map]
  constructor
  · intro h
    obtain ⟨⟨k, v⟩, he, rfl⟩ := h
    exact he
  · intro he; exact ⟨⟨e.1, e.2⟩, he, rfl⟩

theorem mem_values {m : HashMap K V} {v : V} : v ∈ m.values ↔ ∃ k, m.get k = some v := by
  rw [values, List.mem_map]
  constructor
  · intro h
    obtain ⟨⟨k, w⟩, he, rfl⟩ := h
    exact ⟨k, get_eq_some_iff.mpr he⟩
  · intro h
    obtain ⟨k, hk⟩ := h
    exact ⟨⟨k, v⟩, get_eq_some_iff.mp hk, rfl⟩

omit [DecidableEq K] in
theorem keys_nodup (m : HashMap K V) : m.keys.Nodup := AList.keys_nodup m

omit [DecidableEq K] in
theorem keys_toList (m : HashMap K V) : m.toList.map Prod.fst = m.keys := by
  rw [toList, List.map_map]; rfl

omit [DecidableEq K] in
theorem toList_keys_nodup (m : HashMap K V) : (m.toList.map Prod.fst).Nodup := by
  rw [keys_toList]
  exact m.keys_nodup

/-- The entries under one key. -/
theorem filter_key (m : HashMap K V) (k : K) :
    m.toList.filter (fun e => e.1 == k) = (m.get k).toList.map fun v => (k, v) := by
  have hnodup : m.toList.Nodup := m.toList_keys_nodup.of_map
  cases hk : m.get k with
  | none =>
    refine List.filter_eq_nil_iff.mpr ?_
    intro e he heq
    rw [← beq_iff_eq.mp heq, mem_toList.mp he] at hk
    cases hk
  | some v =>
    refine List.perm_singleton.mp ((List.perm_ext_iff_of_nodup (hnodup.filter _) (by simp)).mpr ?_)
    intro e
    rw [List.mem_filter, mem_toList, List.mem_singleton, beq_iff_eq]
    constructor
    · intro h
      obtain ⟨he, rfl⟩ := h
      rw [hk] at he
      rw [Option.some.inj he]
    · intro h
      subst h
      exact ⟨hk, rfl⟩

/-! ## Size -/

omit [DecidableEq K] in
theorem len_keys (m : HashMap K V) : m.keys.length = m.len := by
  rw [keys, AList.keys, List.keys, List.length_map]; rfl

theorem keys_insert (m : HashMap K V) (k : K) (v : V) :
    (m.insert k v).keys = k :: m.keys.erase k := AList.keys_insert m

theorem keys_remove (m : HashMap K V) (k : K) : (m.remove k).keys = m.keys.erase k :=
  AList.keys_erase k m

theorem len_insert (m : HashMap K V) (k : K) (v : V) :
    (m.insert k v).len = if m.contains k then m.len else m.len + 1 := by
  rw [← len_keys, ← len_keys, keys_insert, List.length_cons]
  split
  · next h =>
    have hk : k ∈ m.keys := mem_keys.mpr (contains_iff.mp h)
    have := List.length_pos_of_mem hk
    rw [List.length_erase_of_mem hk]; omega
  · next h =>
    have hk : k ∉ m.keys := fun hm => h (contains_iff.mpr (mem_keys.mp hm))
    rw [List.erase_of_not_mem hk]

/-- An empty map has nothing under any key. -/
theorem get_eq_none_of_len {m : HashMap K V} (h : m.len = 0) (k : K) : m.get k = none := by
  refine Option.eq_none_iff_forall_ne_some.mpr fun v hv => ?_
  have := List.length_pos_of_mem (mem_keys.mpr ⟨v, hv⟩)
  rw [len_keys] at this
  omega

theorem len_remove_le (m : HashMap K V) (k : K) : (m.remove k).len ≤ m.len := by
  rw [← len_keys, ← len_keys, keys_remove]
  exact List.length_erase_le

/-- A key that is written and then removed leaves no more entries. -/
theorem len_remove_insert_le (m : HashMap K V) (k : K) (v : V) :
    ((m.insert k v).remove k).len ≤ m.len := by
  rw [← len_keys, ← len_keys, keys_remove, keys_insert, List.erase_cons_head]
  exact List.length_erase_le

/-- Over infinitely many keys, some key is free. -/
theorem exists_fresh [Infinite K] (m : HashMap K V) : ∃ k, m.get k = none := by
  obtain ⟨k, hk⟩ := Infinite.exists_notMem_finset m.keys.toFinset
  refine ⟨k, Option.eq_none_iff_forall_ne_some.mpr fun v hv => hk ?_⟩
  exact List.mem_toFinset.mpr (mem_keys.mpr ⟨v, hv⟩)

omit [DecidableEq K] in
theorem values_toList (m : HashMap K V) : m.toList.map Prod.snd = m.values := by
  rw [toList, values, List.map_map]
  rfl

/-- A function that tells the values of distinct keys apart lists no result twice. -/
theorem values_map_nodup {W : Type} {m : HashMap K V} {f : V → W}
    (h : ∀ k k' v v', m.get k = some v → m.get k' = some v' → f v = f v' → k = k') :
    (m.values.map f).Nodup := by
  have hkeys : (m.toList.map Prod.fst).Nodup := m.toList_keys_nodup
  rw [← values_toList, List.map_map]
  refine List.Nodup.map_on ?_ hkeys.of_map
  intro e he e' he' heq
  have hk : e.1 = e'.1 := h _ _ _ _ (mem_toList.mp he) (mem_toList.mp he') heq
  exact List.inj_on_of_nodup_map hkeys he he' hk

/-- A list of distinct present keys is no longer than the map. -/
theorem length_le_len {m : HashMap K V} {ks : List K} (hnd : ks.Nodup)
    (h : ∀ k ∈ ks, ∃ v, m.get k = some v) : ks.length ≤ m.len := by
  rw [← len_keys]
  exact (List.subperm_of_subset hnd fun k hk => mem_keys.mpr (h k hk)).length_le

/-! ## Iteration orders -/

/-- `m'` holds the entries of `m`, in any order. -/
def Reorders (m m' : HashMap K V) : Prop := m.toList.Perm m'.toList

theorem Reorders.get {m m' : HashMap K V} (h : m.Reorders m') (k : K) : m'.get k = m.get k := by
  ext v
  exact (mem_toList (e := (k, v))).symm.trans (h.mem_iff.symm.trans mem_toList)

theorem reorders_of_get {m m' : HashMap K V} (h : ∀ k, m'.get k = m.get k) : m.Reorders m' := by
  refine (List.perm_ext_iff_of_nodup m.toList_keys_nodup.of_map m'.toList_keys_nodup.of_map).mpr ?_
  intro e
  rw [mem_toList, mem_toList, h]

/-! ## Counting -/

/-- What `f` reads from the entries holds `b` once exactly when it reads it under one key. -/
theorem count_filterMap_eq_one {W : Type} [DecidableEq W] {m : HashMap K V} {f : K × V → Option W}
    {b : W} : (m.toList.filterMap f).count b = 1 ↔
      ∃! k, ∃ v, m.get k = some v ∧ f (k, v) = some b := by
  have hnodup : m.toList.Nodup := m.toList_keys_nodup.of_map
  rw [List.count_filterMap, List.countP_eq_length_filter]
  constructor
  · intro h
    obtain ⟨⟨k, v⟩, hone⟩ := List.length_eq_one_iff.mp h
    have hmem : ∀ e, e ∈ m.toList ∧ f e = some b ↔ e = (k, v) := by
      intro e
      have he : e = (k, v) ↔ e ∈ [(k, v)] := List.mem_singleton.symm
      rw [he, ← hone, List.mem_filter, beq_iff_eq]
    obtain ⟨hkv, hf⟩ := (hmem (k, v)).mpr rfl
    refine ⟨k, ⟨v, mem_toList.mp hkv, hf⟩, ?_⟩
    intro k' hk'
    obtain ⟨v', hv', hf'⟩ := hk'
    exact congrArg Prod.fst ((hmem (k', v')).mp ⟨mem_toList.mpr hv', hf'⟩)
  · intro h
    obtain ⟨k, ⟨v, hv, hf⟩, huniq⟩ := h
    have hone : (m.toList.filter fun e => f e == some b).Perm [(k, v)] := by
      refine (List.perm_ext_iff_of_nodup (hnodup.filter _) (by simp)).mpr ?_
      intro e
      rw [List.mem_filter, List.mem_singleton, beq_iff_eq, mem_toList]
      constructor
      · intro he
        obtain ⟨hk', hf'⟩ := he
        have hkey : e.1 = k := huniq e.1 ⟨e.2, hk', hf'⟩
        rw [hkey, hv] at hk'
        exact Prod.ext hkey (Option.some.inj hk').symm
      · intro he
        subst he
        exact ⟨hv, hf⟩
    exact hone.length_eq

/-! ## Totals -/

/-- The sum of `w` over the values. -/
def total (w : V → Nat) (m : HashMap K V) : Nat := (m.values.map w).sum

/-- What is under a key comes on top of what is left without it. -/
theorem total_remove (w : V → Nat) {m : HashMap K V} {k : K} {v : V} (h : m.get k = some v) :
    total w m = w v + total w (m.remove k) := by
  have hk : k ∈ m.entries.keys := AList.mem_keys.mpr (mem_keys.mpr ⟨v, h⟩)
  obtain ⟨b, l₁, l₂, -, hl, hrest⟩ := List.exists_of_kerase hk
  have hb : b = v := by
    have hget : m.get k = some b := get_eq_some_iff.mpr (by rw [hl]; simp)
    exact Option.some.inj (hget.symm.trans h)
  have hm : m.values = l₁.map (·.2) ++ v :: l₂.map (·.2) := by
    rw [values, hl, ← hb, List.map_append, List.map_cons]
  have hr : (m.remove k).values = l₁.map (·.2) ++ l₂.map (·.2) := by
    show (m.entries.kerase k).map (·.2) = _
    rw [hrest, List.map_append]
  simp only [total, hm, hr, List.map_append, List.map_cons, List.sum_append, List.sum_cons]
  omega

theorem total_insert (w : V → Nat) (m : HashMap K V) (k : K) (v : V) :
    total w (m.insert k v) = w v + total w (m.remove k) := rfl

/-- A value under a new key. -/
theorem total_new (w : V → Nat) {m : HashMap K V} {k : K} (h : m.get k = none) (v : V) :
    total w (m.insert k v) = w v + total w m := by
  have hk : k ∉ m.entries.keys := by
    intro hk
    obtain ⟨v', hv'⟩ := mem_keys.mp (AList.mem_keys.mp hk)
    rw [h] at hv'
    cases hv'
  have hr : (m.remove k).values = m.values := by
    show (m.entries.kerase k).map (·.2) = _
    rw [List.kerase_of_notMem_keys hk]
    rfl
  rw [total_insert, total, hr, total]

/-- A value over another one. -/
theorem total_over (w : V → Nat) {m : HashMap K V} {k : K} {v₀ : V} (h : m.get k = some v₀)
    (v : V) : total w (m.insert k v) + w v₀ = total w m + w v := by
  rw [total_insert, total_remove w h]
  omega

end HashMap
