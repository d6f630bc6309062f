import Mathlib

/-
  Rounding to a binary floating-point format

  The core library's model of the IEEE formats rounds a positive dyadic `m * 2 ^ e` to the
  nearest value of a format, ties to even (`round`), and encodes it (`pack`). Its results
  are read here through three laws:
    1. a value that the format has is left as it is, so that encoding what a finite bit
       pattern stands for gives the pattern back (`cast_unpack`);
    2. the result is finite exactly when the value is below the midpoint between the
       greatest finite value and the next power of two (`finite_round_iff`);
    3. a finite value times at most one half is finite (`finite_mul`).
-/

namespace Rounding

open Float.Model (Format UnpackedFloat totalExponent)
open Float.Model.UnpackedFloat

/-! ## Shifts -/

theorem shiftRight_mantissa (em : ExtendedMantissa) (k : Nat) :
    (em >>> k).mantissa = em.mantissa / 2 ^ k := by
  induction k with
  | zero =>
    show em.mantissa = _
    rw [pow_zero, Nat.div_one]
  | succ k ih =>
    show (em >>> k).mantissa / 2 = _
    rw [ih, Nat.div_div_eq_div_mul, pow_succ]

theorem shiftRight_roundBit (em : ExtendedMantissa) (k : Nat) :
    (em >>> (k + 1)).roundBit = (em.mantissa / 2 ^ k % 2 != 0) := by
  show ((em >>> k).mantissa % 2 != 0) = _
  rw [shiftRight_mantissa]

theorem roundedMantissa_cases (em : ExtendedMantissa) :
    em.roundedMantissa = em.mantissa ∨ em.roundedMantissa = em.mantissa + 1 := by
  obtain ⟨m, roundBit, stickyBit⟩ := em
  cases roundBit <;> cases stickyBit
  · exact .inl rfl
  · exact .inl rfl
  · show m + m % 2 = m ∨ m + m % 2 = m + 1
    omega
  · exact .inr rfl

/-- An odd mantissa is rounded by its round bit alone. -/
theorem roundedMantissa_odd {em : ExtendedMantissa} (h : em.mantissa % 2 = 1) :
    em.roundedMantissa = em.mantissa + em.roundBit.toNat := by
  obtain ⟨m, roundBit, stickyBit⟩ := em
  have hodd : m % 2 = 1 := h
  cases roundBit <;> cases stickyBit
  · rfl
  · rfl
  · show m + m % 2 = m + 1
    rw [hodd]
  · rfl

/-- A mantissa, with nothing below it. -/
def exactly (m : Nat) : ExtendedMantissa := .ofMantissaAndAccuracy m .exact

@[simp] theorem exactly_mantissa (m : Nat) : (exactly m).mantissa = m := rfl

/-! ## Rounding at a target exponent -/

variable {spec : Format}

theorem mantissaBits_pos (spec : Format) : 0 < spec.mantissaBits := by
  rw [Format.mantissaBits]
  omega

/-- No shift where the exponent is high enough. -/
theorem shiftToTarget_of_le {m : Nat} {e : Int}
    (h : spec.targetExponent (totalExponent m e) ≤ e) :
    shiftToTargetExponent spec m e .exact = (exactly m, e) := by
  have hk : (spec.targetExponent (totalExponent m e) - e).toNat = 0 := by omega
  simp only [shiftToTargetExponent, shiftToExponent, hk]
  exact Prod.ext rfl (by simp)

theorem shiftToTarget_of_ge {m : Nat} {e t : Int}
    (ht : spec.targetExponent (totalExponent m e) = t) (h : e ≤ t) :
    shiftToTargetExponent spec m e .exact = (exactly m >>> (t - e).toNat, t) := by
  simp only [shiftToTargetExponent, shiftToExponent, ht]
  exact Prod.ext rfl (by simp; omega)

theorem target_ge (spec : Format) (T : Int) :
    T - spec.mantissaBits ≤ spec.targetExponent T ∧ spec.minExponent ≤ spec.targetExponent T :=
  ⟨le_max_left _ _, le_max_right _ _⟩

/-- A mantissa of at most `p` bits at a target exponent stays there. -/
theorem target_of_lt {m : Nat} {T t : Int} (ht : spec.targetExponent T = t)
    (h : m < 2 ^ spec.mantissaBits) : spec.targetExponent (totalExponent m t) ≤ t := by
  obtain ⟨-, hmin⟩ := target_ge spec T
  have hlog : m.log2 + 1 ≤ spec.mantissaBits := by
    rcases Nat.eq_zero_or_pos m with rfl | hm
    · exact mantissaBits_pos spec
    · exact (Nat.log2_lt (by omega)).mpr h
  rw [Format.targetExponent, totalExponent]
  omega

/-- The shifted mantissa has at most `p` bits. -/
theorem shifted_lt {m : Nat} {e t : Int} (ht : spec.targetExponent (totalExponent m e) = t)
    (h : e ≤ t) : m / 2 ^ (t - e).toNat < 2 ^ spec.mantissaBits := by
  obtain ⟨htop, -⟩ := target_ge spec (totalExponent m e)
  have hbits : m.log2 + 1 ≤ (t - e).toNat + spec.mantissaBits := by
    rw [totalExponent] at htop ht
    omega
  refine Nat.div_lt_of_lt_mul ?_
  rw [← pow_add]
  exact lt_of_lt_of_le Nat.lt_log2_self (Nat.pow_le_pow_right (by omega) hbits)

theorem decreaseExponent_exponent (m : Nat) (e t : Int) :
    (decreaseExponent m e t).2 = min e t := by
  show e - ((e - t).toNat : Int) = min e t
  omega

/-- Lowering the exponent to a target leaves the place of the top bit. -/
theorem decreaseExponent_total {m : Nat} (hm : 0 < m) (e t : Int) :
    totalExponent (decreaseExponent m e t).1 (decreaseExponent m e t).2 = totalExponent m e := by
  have hlog : (m <<< (e - t).toNat).log2 = m.log2 + (e - t).toNat := by
    have hne : m <<< (e - t).toNat ≠ 0 := by
      rw [Nat.shiftLeft_eq]
      positivity
    refine (Nat.log2_eq_iff hne).mpr ⟨?_, ?_⟩
    · rw [Nat.shiftLeft_eq, pow_add]
      exact Nat.mul_le_mul_right _ (Nat.log2_self_le (by omega))
    · rw [Nat.shiftLeft_eq, show m.log2 + (e - t).toNat + 1 = m.log2 + 1 + (e - t).toNat by omega,
        pow_add]
      exact Nat.mul_lt_mul_of_pos_right Nat.lt_log2_self (by positivity)
  rw [decreaseExponent_exponent]
  show (m <<< (e - t).toNat).log2 + 1 + min e t = m.log2 + 1 + e
  rw [hlog]
  push_cast
  omega

/-- The two outcomes of a rounding: the shifted mantissa, rounded, at the target exponent,
or, when that takes one bit too many, half of it at the next one. -/
inductive Rounded (spec : Format) (s : Sign) (r : Nat) (t : Int) : UnpackedFloat → Prop
  | zero (h : r = 0) : Rounded spec s r t (.zero s)
  | fits (h : 0 < r) (hlt : r < 2 ^ spec.mantissaBits) : Rounded spec s r t (.finite s r t h)
  | carry (h : r = 2 ^ spec.mantissaBits) :
      Rounded spec s r t
        (.finite s (2 ^ spec.mantissaBitsWithoutImplicit) (t + 1) (Nat.two_pow_pos _))

theorem roundWithAccuracy_rounded (s : Sign) {m : Nat} {e t : Int}
    (ht : spec.targetExponent (totalExponent m e) = t) (h : e ≤ t) :
    Rounded spec s (exactly m >>> (t - e).toNat).roundedMantissa t
      (roundWithAccuracy spec s m e .exact) := by
  have hlt := shifted_lt ht h
  obtain ⟨-, hmin⟩ := target_ge spec (totalExponent m e)
  unfold roundWithAccuracy
  rw [shiftToTarget_of_ge ht h]
  simp only
  set r := (exactly m >>> (t - e).toNat).roundedMantissa with hr
  have hle : r ≤ 2 ^ spec.mantissaBits := by
    have hq : (exactly m >>> (t - e).toNat).mantissa = m / 2 ^ (t - e).toNat :=
      shiftRight_mantissa _ _
    rcases roundedMantissa_cases (exactly m >>> (t - e).toNat) with hc | hc <;> omega
  rcases Nat.lt_or_eq_of_le hle with hr' | hr'
  · rw [shiftToTarget_of_le (target_of_lt ht hr')]
    show Rounded spec s r t (if h : r = 0 then .zero s else .finite s r t (Nat.pos_of_ne_zero h))
    split
    · next h0 => exact .zero h0
    · next h0 => exact .fits (Nat.pos_of_ne_zero h0) hr'
  · -- the rounding carried into a new bit
    have htarget : spec.targetExponent (totalExponent r t) = t + 1 := by
      have hlog : r.log2 = spec.mantissaBits := by rw [hr', Nat.log2_two_pow]
      rw [Format.targetExponent, totalExponent, hlog]
      omega
    have hone : (t + 1 - t).toNat = 1 := by omega
    have hhalf : (exactly r >>> 1).mantissa = 2 ^ spec.mantissaBitsWithoutImplicit := by
      rw [shiftRight_mantissa, exactly_mantissa, hr', Format.mantissaBits, pow_add]
      exact Nat.mul_div_cancel_left _ (by decide)
    rw [shiftToTarget_of_ge htarget (by omega), hone]
    simp only [hhalf]
    rw [dif_neg (by positivity)]
    exact .carry hr'

/-! ## Finite patterns -/

/-- The pattern is that of a finite value. -/
def FiniteBits (b : BitVec spec.numBits) : Prop := unpackExponent b ≠ -1#_

instance (b : BitVec spec.numBits) : Decidable (FiniteBits b) :=
  inferInstanceAs (Decidable (_ ≠ _))

theorem finiteBits_components {s : Sign} {e : BitVec spec.exponentBits}
    {m : BitVec spec.mantissaBitsWithoutImplicit} :
    FiniteBits (packComponents spec s e m) ↔ e ≠ -1#_ := by
  rw [FiniteBits, unpackExponent_packComponents]

theorem zero_ne_neg_one {w : Nat} (hw : 0 < w) : (0#w : BitVec w) ≠ -1#w := by
  have : 1 < 2 ^ w := Nat.one_lt_two_pow (by omega)
  rw [BitVec.neg_one_eq_allOnes]
  intro h
  have h := congrArg BitVec.toNat h
  simp at h
  omega

theorem finite_pack_zero (s : Sign) : FiniteBits (pack spec (.zero s)) := by
  rw [pack, packedZero, finiteBits_components]
  exact zero_ne_neg_one spec.he

theorem finite_pack_iff {s : Sign} {m : Nat} {e : Int} {hm : 0 < m} :
    FiniteBits (pack spec (.finite s m e hm)) ↔
      (e + spec.exponentBias + spec.mantissaBitsWithoutImplicit).toNat + 1 <
        2 ^ spec.exponentBits := by
  unfold pack
  simp only
  set biased := (e + spec.exponentBias + spec.mantissaBitsWithoutImplicit).toNat
  split
  · next h =>
    rw [packedInfinity, finiteBits_components]
    exact ⟨fun hne => absurd rfl hne, fun hlt => absurd h (by omega)⟩
  · next h =>
    have hlt : biased + 1 < 2 ^ spec.exponentBits := by omega
    refine ⟨fun _ => hlt, fun _ => ?_⟩
    split
    · rw [finiteBits_components, BitVec.neg_one_eq_allOnes]
      intro heq
      have heq := congrArg BitVec.toNat heq
      rw [BitVec.toNat_ofNat, Nat.mod_eq_of_lt (by omega), BitVec.toNat_allOnes] at heq
      omega
    · rw [finiteBits_components]
      exact zero_ne_neg_one spec.he

theorem bias_eq (spec : Format) : 2 ^ (spec.exponentBits - 1) = spec.exponentBias + 1 := by
  have hpos : 0 < 2 ^ (spec.exponentBits - 1) := by positivity
  rw [Format.exponentBias]
  omega

theorem minExponent_eq (spec : Format) : spec.minExponent =
    1 - (spec.exponentBias : Int) - spec.mantissaBitsWithoutImplicit := by
  have hcast : (2 : Int) ^ (spec.exponentBits - 1) = spec.exponentBias + 1 := by
    exact_mod_cast bias_eq spec
  rw [Format.minExponent, Format.mantissaBits, hcast]
  push_cast
  omega

/-- The exponent of the greatest finite values. -/
def topExponent (spec : Format) : Int :=
  (spec.exponentBias : Int) - spec.mantissaBitsWithoutImplicit

theorem two_pow_exponentBits (spec : Format) :
    2 ^ spec.exponentBits = 2 * (spec.exponentBias + 1) := by
  have h : spec.exponentBits = spec.exponentBits - 1 + 1 := by
    have := spec.he
    omega
  rw [← bias_eq]
  conv_lhs => rw [h, pow_succ, Nat.mul_comm]

theorem finite_pack_exponent {s : Sign} {m : Nat} {e : Int} {hm : 0 < m} :
    FiniteBits (pack spec (.finite s m e hm)) ↔ e ≤ topExponent spec := by
  rw [finite_pack_iff, two_pow_exponentBits, topExponent]
  omega

/-- More than one exponent of normal values: the least exponent is below the greatest. -/
theorem minExponent_lt_top (heb : 1 < spec.exponentBits) :
    spec.minExponent < topExponent spec := by
  have hpow : 2 ^ 1 ≤ 2 ^ (spec.exponentBits - 1) := Nat.pow_le_pow_right (by decide) (by omega)
  rw [bias_eq] at hpow
  rw [minExponent_eq, topExponent]
  omega

theorem Rounded.finite_iff {s : Sign} {r : Nat} {t : Int} {f : UnpackedFloat}
    (h : Rounded spec s r t f) (h0 : r = 0 → t ≤ topExponent spec) :
    FiniteBits (pack spec f) ↔
      t ≤ topExponent spec ∧ (t = topExponent spec → r < 2 ^ spec.mantissaBits) := by
  cases h with
  | zero hr =>
    have hlt : r < 2 ^ spec.mantissaBits := by
      rw [hr]
      positivity
    exact ⟨fun _ => ⟨h0 hr, fun _ => hlt⟩, fun _ => finite_pack_zero s⟩
  | fits _ hlt =>
    rw [finite_pack_exponent]
    exact ⟨fun ht => ⟨ht, fun _ => hlt⟩, fun ht => ht.1⟩
  | carry hr =>
    rw [finite_pack_exponent]
    omega

/-! ## When the result is finite -/

/-- Dropping bits carries into a new one exactly when all kept bits and the next one are set. -/
theorem carries_iff {p m j : Nat} (hp : 0 < p) (h : m / 2 ^ (j + 1) < 2 ^ p) :
    (exactly m >>> (j + 1)).roundedMantissa = 2 ^ p ↔ (2 ^ (p + 1) - 1) * 2 ^ j ≤ m := by
  set d := m / 2 ^ j with hd
  have hhalf : m / 2 ^ (j + 1) = d / 2 := by rw [hd, Nat.div_div_eq_div_mul, pow_succ]
  have hq : (exactly m >>> (j + 1)).mantissa = d / 2 := by
    rw [shiftRight_mantissa, exactly_mantissa, hhalf]
  have hbit : (exactly m >>> (j + 1)).roundBit = (d % 2 != 0) := shiftRight_roundBit _ _
  have hpow : 2 ^ (p + 1) = 2 * 2 ^ p := by rw [pow_succ, Nat.mul_comm]
  have heven : 2 ^ p = 2 * 2 ^ (p - 1) := by
    have := pow_succ 2 (p - 1)
    rw [Nat.sub_add_cancel hp] at this
    rw [this, Nat.mul_comm]
  have hone : 1 ≤ 2 ^ (p - 1) := Nat.one_le_two_pow
  have hodd : d / 2 = 2 ^ p - 1 →
      (exactly m >>> (j + 1)).roundedMantissa = d / 2 + (d % 2 != 0).toNat := by
    intro hall
    have hm2 : (exactly m >>> (j + 1)).mantissa % 2 = 1 := by omega
    rw [roundedMantissa_odd hm2, hq, hbit]
  rw [hhalf] at h
  rw [← Nat.le_div_iff_mul_le (by positivity), ← hd]
  constructor
  · intro hr
    have hall : d / 2 = 2 ^ p - 1 := by
      rcases roundedMantissa_cases (exactly m >>> (j + 1)) with hc | hc <;> omega
    rw [hodd hall] at hr
    have hset : d % 2 = 1 := by
      rcases Nat.mod_two_eq_zero_or_one d with h0 | h1
      · rw [h0] at hr
        simp at hr
        omega
      · exact h1
    omega
  · intro hle
    have hall : d / 2 = 2 ^ p - 1 := by omega
    have hset : d % 2 = 1 := by omega
    rw [hodd hall, hset]
    simp
    omega

theorem round_rounded (s : Sign) {m : Nat} (hm : 0 < m) {e t : Int}
    (ht : spec.targetExponent (totalExponent m e) = t) :
    Rounded spec s (exactly (m <<< (e - t).toNat) >>> (t - e).toNat).roundedMantissa t
      (UnpackedFloat.round spec s m e) := by
  have hk : (t - (decreaseExponent m e t).2).toNat = (t - e).toNat := by
    rw [decreaseExponent_exponent]
    omega
  have htarget : spec.targetExponent (totalExponent (m <<< (e - t).toNat)
      (decreaseExponent m e t).2) = t := by
    show spec.targetExponent (totalExponent (decreaseExponent m e t).1 _) = t
    rw [decreaseExponent_total hm, ht]
  rw [← hk]
  unfold UnpackedFloat.round
  rw [ht]
  refine roundWithAccuracy_rounded s htarget ?_
  rw [decreaseExponent_exponent]
  exact min_le_right _ _

/-- Nothing is left of a mantissa only at the least exponent. -/
theorem rounded_pos {m : Nat} (hm : 0 < m) {e t : Int}
    (ht : spec.targetExponent (totalExponent m e) = t) (hgt : spec.minExponent < t) :
    0 < (exactly (m <<< (e - t).toNat) >>> (t - e).toNat).roundedMantissa := by
  have hlog : (m.log2 : Int) + 1 + e = t + spec.mantissaBits := by
    rw [Format.targetExponent, totalExponent] at ht
    omega
  have hp := mantissaBits_pos spec
  have hmantissa : 0 < (exactly (m <<< (e - t).toNat) >>> (t - e).toNat).mantissa := by
    rw [shiftRight_mantissa, exactly_mantissa]
    refine Nat.div_pos ?_ (by positivity)
    calc 2 ^ (t - e).toNat ≤ 2 ^ m.log2 * 2 ^ (e - t).toNat := by
          rw [← pow_add]
          exact Nat.pow_le_pow_right (by omega) (by omega)
      _ ≤ m <<< (e - t).toNat := by
          rw [Nat.shiftLeft_eq]
          exact Nat.mul_le_mul_right _ (Nat.log2_self_le (by omega))
  rcases roundedMantissa_cases (exactly (m <<< (e - t).toNat) >>> (t - e).toNat) with hc | hc <;>
    omega

/-- The least value that rounds to no finite one: the midpoint between the greatest finite
value and the next power of two. -/
def overflow (spec : Format) : Rat :=
  (2 ^ (spec.mantissaBits + 1) - 1 : Rat) * (2 : Rat) ^ (topExponent spec - 1)

section Magnitude
variable {m : Nat} {e : Int}

theorem value_ge (hm : 0 < m) : (2 : Rat) ^ (totalExponent m e - 1) ≤ (m : Rat) * 2 ^ e := by
  have hle : (2 : Rat) ^ m.log2 ≤ m := by exact_mod_cast Nat.log2_self_le (by omega)
  have hsplit : totalExponent m e - 1 = (m.log2 : Int) + e := by
    rw [totalExponent]
    omega
  rw [hsplit, zpow_add₀ (by norm_num), zpow_natCast]
  exact mul_le_mul_of_nonneg_right hle (by positivity)

theorem value_lt (m : Nat) (e : Int) : (m : Rat) * 2 ^ e < (2 : Rat) ^ totalExponent m e := by
  have hlt : (m : Rat) < 2 ^ (m.log2 + 1) := by exact_mod_cast Nat.lt_log2_self
  have hsplit : totalExponent m e = ((m.log2 + 1 : Nat) : Int) + e := by
    rw [totalExponent]
    push_cast
    rfl
  rw [hsplit, zpow_add₀ (by norm_num), zpow_natCast]
  exact mul_lt_mul_of_pos_right hlt (by positivity)

theorem overflow_lt (spec : Format) :
    overflow spec < (2 : Rat) ^ (topExponent spec + spec.mantissaBits) := by
  have hsplit : topExponent spec + spec.mantissaBits =
      ((spec.mantissaBits + 1 : Nat) : Int) + (topExponent spec - 1) := by
    push_cast
    omega
  rw [overflow, hsplit, zpow_add₀ (by norm_num), zpow_natCast]
  exact mul_lt_mul_of_pos_right (by norm_num) (by positivity)

theorem overflow_ge (spec : Format) :
    (2 : Rat) ^ (topExponent spec + spec.mantissaBits - 1) ≤ overflow spec := by
  have hsplit : topExponent spec + spec.mantissaBits - 1 =
      (spec.mantissaBits : Int) + (topExponent spec - 1) := by omega
  have hle : (2 : Rat) ^ spec.mantissaBits ≤ 2 ^ (spec.mantissaBits + 1) - 1 := by
    have : (1 : Rat) ≤ 2 ^ spec.mantissaBits := one_le_pow₀ (by norm_num)
    rw [pow_succ]
    linarith
  rw [overflow, hsplit, zpow_add₀ (by norm_num), zpow_natCast]
  exact mul_le_mul_of_nonneg_right hle (by positivity)

/-- At the greatest exponent the value overflows exactly when the rounding carries. -/
theorem carry_iff_overflow
    (ht : spec.targetExponent (totalExponent m e) = topExponent spec)
    (hT : totalExponent m e = topExponent spec + spec.mantissaBits) :
    (exactly (m <<< (e - topExponent spec).toNat) >>>
        (topExponent spec - e).toNat).roundedMantissa < 2 ^ spec.mantissaBits ↔
      (m : Rat) * 2 ^ e < overflow spec := by
  have hlog : (m.log2 : Int) + 1 + e = topExponent spec + spec.mantissaBits := hT
  rcases lt_or_ge e (topExponent spec) with he | he
  · obtain ⟨j, hj⟩ : ∃ j : Nat, (topExponent spec - e).toNat = j + 1 :=
      ⟨(topExponent spec - e).toNat - 1, by omega⟩
    have hup : (e - topExponent spec).toNat = 0 := by omega
    have hlt : m / 2 ^ (j + 1) < 2 ^ spec.mantissaBits := hj ▸ shifted_lt ht he.le
    have hcarry := carries_iff (mantissaBits_pos spec) hlt
    have hle : (exactly m >>> (j + 1)).roundedMantissa ≤ 2 ^ spec.mantissaBits := by
      have hq : (exactly m >>> (j + 1)).mantissa = m / 2 ^ (j + 1) := shiftRight_mantissa _ _
      rcases roundedMantissa_cases (exactly m >>> (j + 1)) with hc | hc <;> omega
    -- both sides, scaled down by `2 ^ e`
    have hscale : overflow spec = (((2 ^ (spec.mantissaBits + 1) - 1) * 2 ^ j : Nat) : Rat) * 2 ^ e := by
      have hexp : topExponent spec - 1 = (j : Int) + e := by omega
      rw [overflow, hexp, zpow_add₀ (by norm_num), zpow_natCast, Nat.cast_mul,
        Nat.cast_sub Nat.one_le_two_pow]
      push_cast
      ring
    rw [hup, hj, Nat.shiftLeft_zero, hscale, mul_lt_mul_iff_left₀ (by positivity), Nat.cast_lt]
    omega
  · -- the mantissa fits as it is
    have hdown : (topExponent spec - e).toNat = 0 := by omega
    have hfit : m <<< (e - topExponent spec).toNat < 2 ^ spec.mantissaBits := by
      rw [Nat.shiftLeft_eq]
      calc m * 2 ^ (e - topExponent spec).toNat
          < 2 ^ (m.log2 + 1) * 2 ^ (e - topExponent spec).toNat :=
            Nat.mul_lt_mul_of_pos_right Nat.lt_log2_self (by positivity)
        _ = 2 ^ spec.mantissaBits := by
            rw [← pow_add]
            congr 1
            omega
    rw [hdown]
    refine ⟨fun _ => ?_, fun _ => hfit⟩
    have hvalue : (m : Rat) * 2 ^ e =
        ((m <<< (e - topExponent spec).toNat : Nat) : Rat) * 2 ^ topExponent spec := by
      have hexp : e = ((e - topExponent spec).toNat : Int) + topExponent spec := by omega
      conv_lhs => rw [hexp, zpow_add₀ (by norm_num), zpow_natCast]
      rw [Nat.shiftLeft_eq]
      push_cast
      ring
    have hdouble : (2 : Rat) ^ topExponent spec = 2 * 2 ^ (topExponent spec - 1) := by
      have hsucc : topExponent spec = 1 + (topExponent spec - 1) := by omega
      conv_lhs => rw [hsucc, zpow_add₀ (by norm_num), zpow_one]
    have hfit' : ((m <<< (e - topExponent spec).toNat : Nat) : Rat) ≤ 2 ^ spec.mantissaBits - 1 := by
      rw [le_sub_iff_add_le]
      exact_mod_cast hfit
    rw [hvalue, overflow, hdouble, ← mul_assoc]
    refine mul_lt_mul_of_pos_right ?_ (by positivity)
    rw [pow_succ]
    linarith

end Magnitude

theorem finite_round_iff (heb : 1 < spec.exponentBits) (s : Sign) {m : Nat} (hm : 0 < m)
    (e : Int) :
    FiniteBits (pack spec (UnpackedFloat.round spec s m e)) ↔ (m : Rat) * 2 ^ e < overflow spec := by
  have hmin := minExponent_lt_top heb
  have htarget : spec.targetExponent (totalExponent m e) =
      max (totalExponent m e - spec.mantissaBits) spec.minExponent := rfl
  rw [(round_rounded s hm rfl).finite_iff ?_]
  · rcases lt_trichotomy (totalExponent m e) (topExponent spec + spec.mantissaBits) with hT | hT | hT
    · -- far below
      have hlt : (m : Rat) * 2 ^ e < overflow spec := by
        calc (m : Rat) * 2 ^ e < 2 ^ totalExponent m e := value_lt m e
          _ ≤ 2 ^ (topExponent spec + spec.mantissaBits - 1) :=
              zpow_le_zpow_right₀ (by norm_num) (by omega)
          _ ≤ overflow spec := overflow_ge spec
      refine ⟨fun _ => hlt, fun _ => ⟨by omega, fun heq => absurd heq (by omega)⟩⟩
    · have ht : spec.targetExponent (totalExponent m e) = topExponent spec := by omega
      rw [ht, carry_iff_overflow ht hT]
      exact ⟨fun h => h.2 rfl, fun h => ⟨le_rfl, fun _ => h⟩⟩
    · -- far above
      have hge : overflow spec < (m : Rat) * 2 ^ e := by
        calc overflow spec < 2 ^ (topExponent spec + spec.mantissaBits) := overflow_lt spec
          _ ≤ 2 ^ (totalExponent m e - 1) := zpow_le_zpow_right₀ (by norm_num) (by omega)
          _ ≤ (m : Rat) * 2 ^ e := value_ge hm
      refine ⟨fun h => absurd h.1 (by omega), fun h => absurd h (not_lt.mpr hge.le)⟩
  · intro h0
    by_contra hgt
    exact (rounded_pos hm rfl (by omega)).ne' h0

/-! ## Casts -/

/-- A value cast to a format: the nearest value that the format has. -/
def cast (spec : Format) : UnpackedFloat → BitVec spec.numBits
  | .finite s m e _ => pack spec (UnpackedFloat.round spec s m e)
  | f => pack spec f

/-- A value that stands at its target exponent is left as it is. -/
theorem round_of_target (s : Sign) {m : Nat} (hm : 0 < m) {e : Int}
    (ht : spec.targetExponent (totalExponent m e) = e) :
    UnpackedFloat.round spec s m e = .finite s m e hm := by
  have h := round_rounded s hm ht
  have hzero : (e - e).toNat = 0 := by omega
  have hlt : m < 2 ^ spec.mantissaBits := by
    have := shifted_lt ht le_rfl
    rwa [hzero, pow_zero, Nat.div_one] at this
  rw [hzero, Nat.shiftLeft_zero] at h
  have hr : (exactly m >>> 0).roundedMantissa = m := rfl
  rw [hr] at h
  generalize UnpackedFloat.round spec s m e = f at h ⊢
  cases h with
  | zero h0 => omega
  | fits _ _ => rfl
  | carry hc => omega

theorem ofBitVec_toBitVec (b : BitVec 1) : (Sign.ofBitVec b).toBitVec = b := by
  have : b = 0#1 ∨ b = 1#1 := by
    have := b.isLt
    rcases Nat.eq_zero_or_pos b.toNat with h | h
    · exact .inl (BitVec.eq_of_toNat_eq h)
    · exact .inr (BitVec.eq_of_toNat_eq (by simp; omega))
  rcases this with rfl | rfl <;> rfl

theorem packComponents_unpack (b : BitVec spec.numBits) :
    packComponents spec (Sign.ofBitVec (unpackSign b)) (unpackExponent b) (unpackMantissa b) = b := by
  have hm := spec.hm
  have he := spec.he
  rw [packComponents, ofBitVec_toBitVec]
  refine BitVec.eq_of_getLsbD_eq fun i hi => ?_
  simp only [BitVec.getLsbD_append, unpackMantissa, unpackExponent, unpackSign, BitVec.getLsbD_cast,
    BitVec.getLsbD_extractLsb]
  split
  · rw [decide_eq_true (by omega), Bool.true_and, Nat.zero_add]
  · next h =>
    split
    · rw [decide_eq_true (by omega), Bool.true_and, Nat.add_sub_of_le (by omega)]
    · next h' =>
      rw [decide_eq_true (by omega), Bool.true_and]
      congr 1
      omega

/-- The mantissa of a normal value, with its implicit bit. -/
theorem toNat_implicit (v : BitVec spec.mantissaBitsWithoutImplicit) :
    (1#1 ++ v).toNat = 2 ^ spec.mantissaBitsWithoutImplicit + v.toNat := by
  rw [BitVec.toNat_append, Nat.shiftLeft_eq, ← Nat.shiftLeft_eq, ← Nat.shiftLeft_add_eq_or_of_lt v.isLt,
    Nat.shiftLeft_eq]
  simp

/-- A mantissa without the implicit bit, at the least exponent. -/
theorem cast_subnormal (heb : 1 < spec.exponentBits) (s : Sign) {m : Nat} (hm : 0 < m)
    (hlt : m < 2 ^ spec.mantissaBitsWithoutImplicit) :
    cast spec (.finite s m spec.minExponent hm) = packComponents spec s 0#_ (BitVec.ofNat _ m) := by
  have hlog : m.log2 < spec.mantissaBitsWithoutImplicit := (Nat.log2_lt (by omega)).mpr hlt
  have hbits : spec.mantissaBits = 1 + spec.mantissaBitsWithoutImplicit := rfl
  have htarget : spec.targetExponent (totalExponent m spec.minExponent) = spec.minExponent := by
    rw [Format.targetExponent, totalExponent]
    omega
  have hmin := minExponent_eq spec
  have hbiased : (spec.minExponent + spec.exponentBias +
      spec.mantissaBitsWithoutImplicit).toNat = 1 := by omega
  have htop : 2 ^ 2 ≤ 2 ^ spec.exponentBits := Nat.pow_le_pow_right (by decide) heb
  show pack spec (UnpackedFloat.round spec s m spec.minExponent) = _
  rw [round_of_target s hm htarget]
  unfold pack
  simp only [hbiased]
  rw [if_neg (by omega), if_neg (by omega)]

/-- A mantissa with the implicit bit, at an exponent that has a pattern. -/
theorem cast_normal (s : Sign) {m E : Nat} {e : Int} (hm : 0 < m)
    (hlog : m.log2 = spec.mantissaBitsWithoutImplicit) (hE : 0 < E)
    (htop : E + 1 < 2 ^ spec.exponentBits)
    (he : e = E - ((spec.exponentBias : Int) + spec.mantissaBitsWithoutImplicit)) :
    cast spec (.finite s m e hm) =
      packComponents spec s (BitVec.ofNat _ E) (BitVec.ofNat _ m) := by
  have hbits : spec.mantissaBits = 1 + spec.mantissaBitsWithoutImplicit := rfl
  have hmin := minExponent_eq spec
  have htarget : spec.targetExponent (totalExponent m e) = e := by
    rw [Format.targetExponent, totalExponent]
    omega
  have hbiased : (e + spec.exponentBias + spec.mantissaBitsWithoutImplicit).toNat = E := by omega
  show pack spec (UnpackedFloat.round spec s m e) = _
  rw [round_of_target s hm htarget]
  unfold pack
  simp only [hbiased]
  rw [if_neg (by omega), if_pos (by omega)]

/-- The value `± m * 2 ^ e`. -/
def dyadic (s : Sign) (m : Nat) (e : Int) : UnpackedFloat :=
  if h : m = 0 then .zero s else .finite s m e (Nat.pos_of_ne_zero h)

theorem dyadic_of_pos (s : Sign) {m : Nat} (hm : 0 < m) (e : Int) :
    dyadic s m e = .finite s m e hm := dif_neg hm.ne'

theorem finite_cast_dyadic (heb : 1 < spec.exponentBits) (s : Sign) (m : Nat) (e : Int) :
    FiniteBits (cast spec (dyadic s m e)) ↔ (m : Rat) * 2 ^ e < overflow spec := by
  unfold dyadic
  split
  · next h =>
    have hpos : 0 < overflow spec := lt_of_lt_of_le (by positivity) (overflow_ge spec)
    rw [h, Nat.cast_zero, zero_mul]
    exact ⟨fun _ => hpos, fun _ => finite_pack_zero s⟩
  · next h => exact finite_round_iff heb s (Nat.pos_of_ne_zero h) e

theorem exponent_of_finite {b : BitVec spec.numBits} (hb : FiniteBits b) :
    (unpackExponent b).toNat + 1 < 2 ^ spec.exponentBits := by
  have hne : (unpackExponent b).toNat ≠ 2 ^ spec.exponentBits - 1 := by
    intro heq
    refine hb (BitVec.eq_of_toNat_eq ?_)
    rw [heq, BitVec.neg_one_eq_allOnes, BitVec.toNat_allOnes]
  have := (unpackExponent b).isLt
  omega

/-- The three kinds of finite patterns. -/
inductive Unpacked (b : BitVec spec.numBits) : UnpackedFloat → Prop
  | zero (he : unpackExponent b = 0#_) (hm : unpackMantissa b = 0#_) :
      Unpacked b (.zero (.ofBitVec (unpackSign b)))
  | subnormal (he : unpackExponent b = 0#_) (hm : 0 < (unpackMantissa b).toNat) :
      Unpacked b (.finite (.ofBitVec (unpackSign b)) (unpackMantissa b).toNat spec.minExponent hm)
  | normal {e : Int} (hpos : 0 < (unpackExponent b).toNat) (hm : 0 < (1#1 ++ unpackMantissa b).toNat)
      (he : e = (unpackExponent b).toNat -
        ((spec.exponentBias : Int) + spec.mantissaBitsWithoutImplicit)) :
      Unpacked b (.finite (.ofBitVec (unpackSign b)) (1#1 ++ unpackMantissa b).toNat e hm)

theorem unpack_unpacked {b : BitVec spec.numBits} (hb : FiniteBits b) :
    Unpacked b (unpack spec b) := by
  unfold unpack
  simp only
  rw [if_neg hb]
  split
  · next hzero =>
    split
    · next hm => exact .zero hzero hm
    · next hm =>
      have he : ((unpackExponent b).toNat : Int) -
          (spec.exponentBias + spec.mantissaBitsWithoutImplicit) + 1 = spec.minExponent := by
        rw [hzero, minExponent_eq]
        simp
        omega
      simp only [he]
      refine .subnormal hzero (Nat.pos_of_ne_zero fun h0 => hm (BitVec.eq_of_toNat_eq ?_))
      simpa using h0
  · next hnormal =>
    refine .normal (Nat.pos_of_ne_zero fun h0 => hnormal (BitVec.eq_of_toNat_eq ?_)) _ rfl
    simpa using h0

/-- What a finite pattern stands for is cast back to the pattern. -/
theorem cast_unpack (heb : 1 < spec.exponentBits) {b : BitVec spec.numBits} (hb : FiniteBits b) :
    cast spec (unpack spec b) = b := by
  have hv := (unpackMantissa b).isLt
  have h := unpack_unpacked hb
  conv_rhs => rw [← packComponents_unpack b]
  generalize unpack spec b = f at h ⊢
  cases h with
  | zero he hm =>
    rw [he, hm]
    rfl
  | subnormal he hm =>
    rw [cast_subnormal heb _ _ hv, he, BitVec.ofNat_toNat, BitVec.setWidth_eq]
  | normal hpos hm he =>
    have hlog : (1#1 ++ unpackMantissa b).toNat.log2 = spec.mantissaBitsWithoutImplicit := by
      rw [toNat_implicit]
      refine (Nat.log2_eq_iff (by positivity)).mpr ⟨by omega, ?_⟩
      rw [pow_succ]
      omega
    rw [cast_normal _ hm hlog hpos (exponent_of_finite hb) he]
    congr 1
    · rw [BitVec.ofNat_toNat, BitVec.setWidth_eq]
    · refine BitVec.eq_of_toNat_eq ?_
      rw [BitVec.toNat_ofNat, toNat_implicit, Nat.add_mod_left, Nat.mod_eq_of_lt hv]

/-- What a finite pattern stands for, within the bounds of its format. -/
theorem unpack_dyadic (heb : 1 < spec.exponentBits) {b : BitVec spec.numBits}
    (hb : FiniteBits b) :
    ∃ s m e, unpack spec b = dyadic s m e ∧ m < 2 ^ spec.mantissaBits ∧
      spec.minExponent ≤ e ∧ e ≤ topExponent spec := by
  have hv := (unpackMantissa b).isLt
  have hpow : 2 ^ spec.mantissaBits = 2 * 2 ^ spec.mantissaBitsWithoutImplicit := by
    rw [Format.mantissaBits, pow_add, pow_one]
  have hmin := minExponent_lt_top heb
  have h := unpack_unpacked hb
  generalize unpack spec b = f at h ⊢
  cases h with
  | zero _ _ => exact ⟨_, 0, spec.minExponent, rfl, by positivity, le_rfl, hmin.le⟩
  | subnormal _ hm =>
    exact ⟨_, (unpackMantissa b).toNat, _, (dyadic_of_pos _ hm _).symm, by omega, le_rfl, hmin.le⟩
  | @normal e hpos hm he =>
    have htop := exponent_of_finite hb
    rw [two_pow_exponentBits] at htop
    refine ⟨_, (1#1 ++ unpackMantissa b).toNat, e, (dyadic_of_pos _ hm _).symm, ?_, ?_, ?_⟩
    · rw [toNat_implicit]
      omega
    · rw [he, minExponent_eq]
      omega
    · rw [he, topExponent]
      omega

/-! ## Products -/

/-- The product of two bit patterns. -/
def mul (spec : Format) (a b : BitVec spec.numBits) : BitVec spec.numBits :=
  pack spec (UnpackedFloat.mul spec (unpack spec a) (unpack spec b))

/-- Below its target exponent a value is rounded as it stands. -/
theorem round_of_le (s : Sign) {m : Nat} {e : Int}
    (h : e ≤ spec.targetExponent (totalExponent m e)) :
    UnpackedFloat.round spec s m e = roundWithAccuracy spec s m e .exact := by
  have hzero : (e - spec.targetExponent (totalExponent m e)).toNat = 0 := by omega
  have hexp := decreaseExponent_exponent m e (spec.targetExponent (totalExponent m e))
  rw [min_eq_left h] at hexp
  have hm : (decreaseExponent m e (spec.targetExponent (totalExponent m e))).1 = m := by
    show m <<< (e - spec.targetExponent (totalExponent m e)).toNat = m
    rw [hzero, Nat.shiftLeft_zero]
  unfold UnpackedFloat.round
  simp only [hm, hexp]

/-- A product with as many bits as the format has is rounded as its value is. -/
theorem mul_dyadic (s s' : Sign) {m m' : Nat} (e e' : Int)
    (hbits : 2 ^ spec.mantissaBitsWithoutImplicit ≤ m') :
    pack spec (UnpackedFloat.mul spec (dyadic s m e) (dyadic s' m' e')) =
      cast spec (dyadic (s * s') (m * m') (e + e')) := by
  have hm' : 0 < m' := lt_of_lt_of_le (by positivity) hbits
  rw [dyadic_of_pos s' hm']
  rcases Nat.eq_zero_or_pos m with rfl | hm
  · rw [Nat.zero_mul]
    rfl
  · have hle : 2 ^ spec.mantissaBitsWithoutImplicit ≤ m * m' :=
      hbits.trans (Nat.le_mul_of_pos_left m' hm)
    have hlog : spec.mantissaBitsWithoutImplicit ≤ (m * m').log2 :=
      (Nat.le_log2 (by positivity)).mpr hle
    have htarget : e + e' ≤ spec.targetExponent (totalExponent (m * m') (e + e')) := by
      have hge := (target_ge spec (totalExponent (m * m') (e + e'))).1
      rw [totalExponent, Format.mantissaBits] at *
      push_cast at hge
      omega
    rw [dyadic_of_pos s hm, dyadic_of_pos _ (Nat.mul_pos hm hm')]
    exact congrArg (pack spec) (round_of_le _ htarget).symm

/-- A factor of at most one half leaves a finite value finite. -/
theorem finite_mul (heb : 1 < spec.exponentBits) {a b : BitVec spec.numBits} (ha : FiniteBits a)
    {s : Sign} {m : Nat} {e : Int} (hb : unpack spec b = dyadic s m e)
    (hbits : 2 ^ spec.mantissaBitsWithoutImplicit ≤ m) (hhalf : (m : Rat) * 2 ^ e ≤ 2⁻¹) :
    FiniteBits (mul spec a b) := by
  obtain ⟨s', m', e', hunpack, hm', -, he'⟩ := unpack_dyadic heb ha
  rw [mul, hunpack, hb, mul_dyadic _ _ _ _ hbits, finite_cast_dyadic heb]
  have hm' : (m' : Rat) < 2 ^ spec.mantissaBits := by exact_mod_cast hm'
  have he' : (2 : Rat) ^ e' ≤ 2 ^ topExponent spec := zpow_le_zpow_right₀ (by norm_num) he'
  have hlt : (m' : Rat) * 2 ^ e' < 2 ^ (topExponent spec + spec.mantissaBits) := by
    calc
      (m' : Rat) * 2 ^ e' ≤ m' * 2 ^ topExponent spec := by gcongr
      _ < 2 ^ spec.mantissaBits * 2 ^ topExponent spec := by gcongr
      _ = 2 ^ (topExponent spec + spec.mantissaBits) := by
        rw [zpow_add₀ (by norm_num), zpow_natCast, mul_comm]
  calc
    ((m' * m : Nat) : Rat) * 2 ^ (e' + e) = (m' * 2 ^ e') * (m * 2 ^ e) := by
      rw [zpow_add₀ (by norm_num)]
      push_cast
      ring
    _ ≤ (m' * 2 ^ e') * 2⁻¹ := by gcongr
    _ < 2 ^ (topExponent spec + spec.mantissaBits) * 2⁻¹ := by gcongr
    _ = 2 ^ (topExponent spec + spec.mantissaBits - 1) := by
      rw [zpow_sub₀ (by norm_num), zpow_one, div_eq_mul_inv]
    _ ≤ overflow spec := overflow_ge spec

end Rounding
