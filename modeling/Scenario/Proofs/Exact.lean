import Mathlib.Data.EReal.Operations
import Mathlib.Data.Rat.Floor
import Mathlib.Tactic.Ring
import Scenario.Proofs.Sums

/-!
The numbers that doubles stand for. Doubles compare as their numbers do, a whole number below
`2 ^ 53` is a double exactly, the whole part of a double is that of its number, and one can be
subtracted exactly below `2 ^ 53` as long as something is left.
-/

namespace Scenario

open Float.Model UnpackedFloat

/-- The number that is `± m · 2 ^ e`. What is not finite counts as zero. -/
def rational : UnpackedFloat → ℚ
  | .finite s m e _ => s.apply m * 2 ^ e
  | _ => 0

/-- The number that the parts of a double stand for, the infinities included. -/
noncomputable def extended : UnpackedFloat → EReal
  | .infinity .positive => ⊤
  | .infinity .negative => ⊥
  | a => ((rational a : ℝ) : EReal)

/-- The number that a double stands for. -/
noncomputable def value (x : Float) : EReal := extended x.toModel.unpack

theorem extended_zero (s : Sign) : extended (.zero s) = 0 := by
  change (((0 : ℚ) : ℝ) : EReal) = 0
  rw [Rat.cast_zero, EReal.coe_zero]

theorem extended_notANumber : extended .notANumber = 0 := by
  change (((0 : ℚ) : ℝ) : EReal) = 0
  rw [Rat.cast_zero, EReal.coe_zero]

/-! ### Order -/

section Order

variable {m n : Nat} {e f : Int} {s t : Sign} {x y : Float}

theorem two_zpow_pos (e : Int) : (0 : ℚ) < 2 ^ e := zpow_pos (by norm_num) e

/-- Of canonical parts, those with the larger exponent are the larger number. -/
theorem Canonical.lt_of_exponent (hm : Canonical m e) (hn : Canonical n f) (h : e < f) :
    (m * 2 ^ e : ℚ) < n * 2 ^ f := by
  have hfull : 2 ^ 52 ≤ n := hn.full.resolve_right (by have := hm.low; omega)
  have hstep : (2 : ℚ) ^ (e + 1) ≤ 2 ^ f := zpow_le_zpow_right₀ (by norm_num) (by omega)
  calc (m * 2 ^ e : ℚ) < 2 ^ 53 * 2 ^ e := by
        exact mul_lt_mul_of_pos_right (by exact_mod_cast hm.fits) (two_zpow_pos e)
    _ = 2 ^ 52 * 2 ^ (e + 1) := by rw [zpow_add_one₀ (by norm_num)]; ring
    _ ≤ n * 2 ^ f := by
        exact mul_le_mul (by exact_mod_cast hfull) hstep (two_zpow_pos _).le (by positivity)

theorem Canonical.compare_magnitude (hm : Canonical m e) (hn : Canonical n f) :
    (compare e f).then (compare m n) = compare (m * 2 ^ e : ℚ) (n * 2 ^ f) := by
  rcases lt_trichotomy e f with h | rfl | h
  · rw [compare_lt_iff_lt.2 h, compare_lt_iff_lt.2 (hm.lt_of_exponent hn h)]
    rfl
  · rw [compare_eq_iff_eq.2 rfl, Ordering.then]
    rcases lt_trichotomy m n with h' | rfl | h'
    · rw [compare_lt_iff_lt.2 h', eq_comm, compare_lt_iff_lt]
      exact mul_lt_mul_of_pos_right (by exact_mod_cast h') (two_zpow_pos e)
    · rw [compare_eq_iff_eq.2 rfl, compare_eq_iff_eq.2 rfl]
    · rw [compare_gt_iff_gt.2 h', eq_comm, compare_gt_iff_gt]
      exact mul_lt_mul_of_pos_right (by exact_mod_cast h') (two_zpow_pos e)
  · rw [compare_gt_iff_gt.2 h, compare_gt_iff_gt.2 (hn.lt_of_exponent hm h)]
    rfl

theorem rational_finite {h : 0 < m} : rational (.finite s m e h) = s.apply m * 2 ^ e := rfl

theorem rational_positive {h : 0 < m} : rational (.finite .positive m e h) = m * 2 ^ e := by
  rw [rational_finite]
  simp [Sign.apply]

theorem rational_negative {h : 0 < m} : rational (.finite .negative m e h) = -(m * 2 ^ e) := by
  rw [rational_finite]
  simp [Sign.apply]

theorem magnitude_pos (h : 0 < m) : (0 : ℚ) < m * 2 ^ e :=
  mul_pos (by exact_mod_cast h) (two_zpow_pos e)

theorem rational_pos {h : 0 < m} : 0 < rational (.finite .positive m e h) := by
  rw [rational_positive]
  exact magnitude_pos h

theorem rational_neg {h : 0 < m} : rational (.finite .negative m e h) < 0 := by
  rw [rational_negative]
  exact neg_neg_of_pos (magnitude_pos h)

theorem compare_map {α β : Type} [LinearOrder α] [LinearOrder β] {f : α → β} (hf : StrictMono f)
    (a b : α) : compare (f a) (f b) = compare a b := by
  rw [← cmp_eq_compare, ← cmp_eq_compare, hf.cmp_map_eq]

theorem compare_neg (p q : ℚ) : compare (-p) (-q) = (compare p q).swap := by
  have hanti : StrictAnti fun r : ℚ => -r := fun _ _ h => neg_lt_neg h
  rw [← cmp_eq_compare, hanti.cmp_map_eq p q, cmp_eq_compare, Std.OrientedOrd.eq_swap]

theorem compare_finite {hm : 0 < m} {hn : 0 < n} (hcm : Canonical m e) (hcn : Canonical n f) :
    (UnpackedFloat.finite s m e hm).compare (.finite t n f hn) =
      some (compare (rational (.finite s m e hm)) (rational (.finite t n f hn))) := by
  cases s with
  | positive =>
    cases t with
    | positive =>
      rw [rational_positive, rational_positive, ← hcm.compare_magnitude hcn]
      rfl
    | negative =>
      rw [compare_gt_iff_gt.2 (rational_neg.trans rational_pos)]
      rfl
  | negative =>
    cases t with
    | positive =>
      rw [compare_lt_iff_lt.2 (rational_neg.trans rational_pos)]
      rfl
    | negative =>
      rw [rational_negative, rational_negative, compare_neg, ← hcm.compare_magnitude hcn]
      rfl

theorem compare_cast (p q : ℚ) : compare ((p : ℝ) : EReal) ((q : ℝ) : EReal) = compare p q :=
  compare_map (EReal.coe_strictMono.comp Rat.cast_strictMono) p q

theorem lt_eq_compare {x y : EReal} (h : x < y) : some .lt = some (compare x y) :=
  congrArg some (compare_lt_iff_lt.2 h).symm

theorem gt_eq_compare {x y : EReal} (h : y < x) : some .gt = some (compare x y) :=
  congrArg some (compare_gt_iff_gt.2 h).symm

theorem eq_eq_compare (x : EReal) : some .eq = some (compare x x) :=
  congrArg some (compare_eq_iff_eq.2 rfl).symm

/-- Doubles compare as their numbers do. -/
theorem compare_extended {v w : BitVec Format.binary64.numBits} {a b : UnpackedFloat}
    (ha : UnpackedFloat.unpack Format.binary64 v = a)
    (hb : UnpackedFloat.unpack Format.binary64 w = b) (hna : a ≠ .notANumber)
    (hnb : b ≠ .notANumber) : a.compare b = some (compare (extended a) (extended b)) := by
  have htop (q : ℚ) : ((q : ℝ) : EReal) < ⊤ := EReal.coe_lt_top _
  have hbot (q : ℚ) : ⊥ < ((q : ℝ) : EReal) := EReal.bot_lt_coe _
  cases a with
  | notANumber => exact absurd rfl hna
  | infinity s =>
    cases b with
    | notANumber => exact absurd rfl hnb
    | infinity t =>
      cases s <;> cases t
      · exact eq_eq_compare _
      · exact lt_eq_compare bot_lt_top
      · exact gt_eq_compare bot_lt_top
      · exact eq_eq_compare _
    | zero _ | finite _ _ _ _ =>
      cases s
      · exact lt_eq_compare (hbot _)
      · exact gt_eq_compare (htop _)
  | zero s =>
    cases b with
    | notANumber => exact absurd rfl hnb
    | infinity t =>
      cases t
      · exact gt_eq_compare (hbot _)
      · exact lt_eq_compare (htop _)
    | zero t => exact eq_eq_compare _
    | finite t n f hn =>
      refine Eq.trans ?_ (congrArg some (compare_cast _ _).symm)
      cases t
      · exact congrArg some (compare_gt_iff_gt.2 rational_neg).symm
      · exact congrArg some (compare_lt_iff_lt.2 rational_pos).symm
  | finite s m e hm =>
    cases b with
    | notANumber => exact absurd rfl hnb
    | infinity t =>
      cases s <;> cases t
      · exact gt_eq_compare (hbot _)
      · exact lt_eq_compare (htop _)
      · exact gt_eq_compare (hbot _)
      · exact lt_eq_compare (htop _)
    | zero t =>
      refine Eq.trans ?_ (congrArg some (compare_cast _ _).symm)
      cases s
      · exact congrArg some (compare_lt_iff_lt.2 rational_neg).symm
      · exact congrArg some (compare_gt_iff_gt.2 rational_pos).symm
    | finite t n f hn =>
      exact (compare_finite (unpack_canonical ha) (unpack_canonical hb)).trans
        (congrArg some (compare_cast _ _).symm)

theorem compare_value (hx : x.isNaN = false) (hy : y.isNaN = false) :
    x.toModel.unpack.compare y.toModel.unpack = some (compare (value x) (value y)) := by
  rw [← Bool.not_eq_true, isNaN_iff_parts] at hx hy
  exact compare_extended rfl rfl hx hy

theorem lt_iff_value (hx : x.isNaN = false) (hy : y.isNaN = false) :
    x < y ↔ value x < value y := by
  rw [lt_iff_parts, compare_value hx hy, Option.some_inj, compare_lt_iff_lt]

theorem le_iff_value (hx : x.isNaN = false) (hy : y.isNaN = false) :
    x ≤ y ↔ value x ≤ value y := by
  rw [le_iff_parts, compare_value hx hy]
  simp only [Option.some_inj, exists_eq_left', Ordering.isLE_iff_ne_gt, compare_gt_iff_gt,
    not_lt]

end Order

/-! ### Whole numbers -/

section Whole

variable {m n j : Nat} {e : Int} {s : Sign}

theorem shiftRight_exact (n j k : Nat) (h : k ≤ j) :
    (⟨n * 2 ^ j, false, false⟩ : ExtendedMantissa) >>> k =
      (⟨n * 2 ^ (j - k), false, false⟩ : ExtendedMantissa) := by
  induction k with
  | zero => rfl
  | succ k ih =>
    obtain ⟨i, hi⟩ : ∃ i, j - k = i + 1 := ⟨j - k - 1, by omega⟩
    have heven : n * 2 ^ (j - k) = n * 2 ^ i * 2 := by
      rw [hi, Nat.pow_succ, Nat.mul_assoc]
    have hi' : j - (k + 1) = i := by omega
    change ((⟨n * 2 ^ j, false, false⟩ : ExtendedMantissa) >>> k).shiftRightOne = _
    rw [ih (by omega), heven, hi']
    unfold ExtendedMantissa.shiftRightOne
    dsimp only
    rw [Nat.mul_div_cancel _ (by decide), Nat.mul_mod_left]
    rfl

theorem log2_mul_pow (hn : 0 < n) (j : Nat) : (n * 2 ^ j).log2 = n.log2 + j := by
  have hne : n * 2 ^ j ≠ 0 := Nat.ne_of_gt (Nat.mul_pos hn (Nat.two_pow_pos j))
  rw [Nat.log2_eq_iff hne, Nat.pow_add, Nat.add_right_comm, Nat.pow_add]
  exact ⟨Nat.mul_le_mul_right _ (Nat.log2_self_le (Nat.ne_of_gt hn)),
    Nat.mul_lt_mul_of_pos_right Nat.lt_log2_self (Nat.two_pow_pos j)⟩

theorem totalExponent_mul_pow (hn : 0 < n) (j : Nat) (e : Int) :
    totalExponent (n * 2 ^ j) e = n.log2 + 1 + (e + j) := by
  unfold totalExponent
  rw [log2_mul_pow hn]
  omega

theorem shiftToTargetExponent_eq {k : Nat} (hk : k ≤ j)
    (h : max (totalExponent (n * 2 ^ j) e - 53) (-1074) = e + k) :
    shiftToTargetExponent Format.binary64 (n * 2 ^ j) e .exact =
      (⟨n * 2 ^ (j - k), false, false⟩, e + k) := by
  have hshift : (Format.binary64.targetExponent (totalExponent (n * 2 ^ j) e) - e).toNat = k := by
    change (max (totalExponent (n * 2 ^ j) e - 53) (-1074) - e).toNat = k
    omega
  unfold shiftToTargetExponent shiftToExponent
  dsimp only
  rw [hshift, ← shiftRight_exact n j k hk]
  rfl

theorem cast_shift {k : Nat} (hk : k ≤ j) :
    ((n * 2 ^ (j - k) : Nat) * 2 ^ (e + k) : ℚ) = n * 2 ^ (e + j) := by
  have hsum : e + j = (j - k : Nat) + (e + k) := by omega
  rw [hsum, zpow_add₀ (by norm_num) ((j - k : Nat) : ℤ), zpow_natCast]
  push_cast
  ring

/-- A number whose digits fit is rounded to itself. -/
theorem roundWithAccuracy_exact (hn : 0 < n) (hfits : n < 2 ^ 53) (hlow : -1074 ≤ e + j)
    (hhigh : e + j ≤ 971) (htarget : e ≤ max (totalExponent (n * 2 ^ j) e - 53) (-1074)) :
    ∃ m f, ∃ hm : 0 < m, Canonical m f ∧ (m * 2 ^ f : ℚ) = n * 2 ^ (e + j) ∧
      roundWithAccuracy Format.binary64 s (n * 2 ^ j) e .exact = .finite s m f hm := by
  have hlog : n.log2 < 53 := (Nat.log2_lt (Nat.ne_of_gt hn)).2 hfits
  obtain ⟨k, hk⟩ := Int.le.dest htarget
  have htotal := totalExponent_mul_pow hn
  have hkj : k ≤ j := by
    rw [htotal] at hk
    omega
  have hagain : shiftToTargetExponent Format.binary64 (n * 2 ^ (j - k)) (e + k) .exact =
      (⟨n * 2 ^ (j - k), false, false⟩, e + k) := by
    rw [shiftToTargetExponent_eq (Nat.zero_le _), Nat.cast_zero, Int.add_zero, Nat.sub_zero]
    rw [htotal] at hk ⊢
    omega
  have hm : 0 < n * 2 ^ (j - k) := Nat.mul_pos hn (Nat.two_pow_pos _)
  refine ⟨n * 2 ^ (j - k), e + k, hm, ⟨?_, ?_, ?_, ?_⟩, cast_shift hkj, ?_⟩
  · rw [← Nat.log2_lt (Nat.ne_of_gt hm), log2_mul_pow hn]
    rw [htotal] at hk
    omega
  · omega
  · rw [htotal] at hk
    omega
  · by_cases hsmall : e + k = -1074
    · exact .inr hsmall
    · left
      rw [← Nat.le_log2 (Nat.ne_of_gt hm), log2_mul_pow hn]
      rw [htotal] at hk
      omega
  · unfold roundWithAccuracy
    rw [shiftToTargetExponent_eq hkj hk.symm]
    dsimp only [ExtendedMantissa.roundedMantissa, ExtendedMantissa.accuracy,
      Accuracy.roundToNearestEven]
    rw [hagain]
    exact dif_neg (Nat.ne_of_gt hm)

theorem round_exact (hn : 0 < n) (hfits : n < 2 ^ 53) (hlow : -1074 ≤ e + j)
    (hhigh : e + j ≤ 971) :
    ∃ m f, ∃ hm : 0 < m, Canonical m f ∧ (m * 2 ^ f : ℚ) = n * 2 ^ (e + j) ∧
      UnpackedFloat.round Format.binary64 s (n * 2 ^ j) e = .finite s m f hm := by
  unfold UnpackedFloat.round decreaseExponent
  dsimp only
  obtain ⟨k, hk⟩ :
      ∃ k, k = (e - Format.binary64.targetExponent (totalExponent (n * 2 ^ j) e)).toNat := ⟨_, rfl⟩
  rw [← hk, Nat.shiftLeft_eq, Nat.mul_assoc, ← Nat.pow_add]
  have hsum : e - k + (j + k : Nat) = e + j := by omega
  have htarget : k = (e - max (totalExponent (n * 2 ^ j) e - 53) (-1074)).toNat := hk
  have h := roundWithAccuracy_exact (n := n) (j := j + k) (e := e - k) (s := s) hn hfits
    (by omega) (by omega) (by
      rw [totalExponent_mul_pow hn, hsum]
      rw [totalExponent_mul_pow hn] at htarget
      omega)
  rwa [hsum] at h

theorem unpack_toFloat (hn : 0 < n) (hfits : n < 2 ^ 53) :
    ∃ m e, ∃ hm : 0 < m, Canonical m e ∧ (m * 2 ^ e : ℚ) = n ∧
      n.toUInt64.toFloat.toModel.unpack = .finite .positive m e hm := by
  have hvalue : n.toUInt64.toNat = n := Nat.mod_eq_of_lt (by omega)
  obtain ⟨m, e, hm, hcanonical, hsame, hround⟩ :=
    round_exact (s := .positive) (j := 0) (e := 0) hn hfits (by decide) (by decide)
  refine ⟨m, e, hm, hcanonical, by simpa using hsame, ?_⟩
  change UnpackedFloat.unpack Format.binary64 (UnpackedFloat.pack Format.binary64
    (UnpackedFloat.ofUInt64 Format.binary64 n.toUInt64)) = _
  unfold UnpackedFloat.ofUInt64 UnpackedFloat.ofNat UnpackedFloat.ofInt UnpackedFloat.normalize
  rw [hvalue, compare_gt_iff_gt.2 (by exact_mod_cast hn)]
  dsimp only
  rw [Int.toNat_natCast, ← Nat.mul_one n, ← Nat.pow_zero 2, hround]
  exact hcanonical.unpack_pack

theorem mul_one_exact (hm : 0 < m) (h : Canonical m e) :
    ∃ n f, ∃ hn : 0 < n, Canonical n f ∧ (n * 2 ^ f : ℚ) = m * 2 ^ e ∧
      UnpackedFloat.mul Format.binary64 (.finite .positive m e hm)
        (.finite .positive (2 ^ 52) (-52) (Nat.two_pow_pos 52)) = .finite .positive n f hn := by
  have hsum : e + -52 + (52 : Nat) = e := by omega
  have htarget : e + -52 ≤ max (totalExponent (m * 2 ^ 52) (e + -52) - 53) (-1074) := by
    rw [totalExponent_mul_pow hm]
    rcases h.full with hfull | hlow
    · have hlog := (Nat.le_log2 (Nat.ne_of_gt hm)).2 hfull
      omega
    · omega
  have hlow := h.low
  have hhigh := h.high
  have hround := roundWithAccuracy_exact (s := .positive) hm h.fits (by omega) (by omega) htarget
  rwa [hsum] at hround

/-- A whole number below `2 ^ 53` is a double exactly. -/
theorem value_ofNat (hn : n < 2 ^ 53) : value (Float.ofNat n) = ((n : ℝ) : EReal) := by
  change value (Float.ofScientific n false 0) = _
  unfold Float.ofScientific
  rw [dif_pos ⟨hn, by decide⟩]
  rcases Nat.eq_zero_or_pos n with rfl | hpos
  · have hzero : (Float.ofNat 0).toModel.unpack = .zero .positive := rfl
    change extended (Float.ofNat 0).toModel.unpack = _
    rw [hzero, extended_zero, Nat.cast_zero, EReal.coe_zero]
  · obtain ⟨m, e, hm, hcanonical, hsame, hunpack⟩ := unpack_toFloat hpos hn
    obtain ⟨m', e', hm', hcanonical', hsame', hmul⟩ := mul_one_exact hm hcanonical
    have hproduct :
        (n.toUInt64.toFloat * Float.exactlyRepresentablePowersOfTen[0]).toModel.unpack =
          .finite .positive m' e' hm' := by
      change UnpackedFloat.unpack Format.binary64 (UnpackedFloat.pack Format.binary64
        (UnpackedFloat.mul Format.binary64 n.toUInt64.toFloat.toModel.unpack
          Float.exactlyRepresentablePowersOfTen[0].toModel.unpack)) = _
      rw [hunpack]
      exact (congrArg _ (congrArg _ hmul)).trans hcanonical'.unpack_pack
    change extended
      (n.toUInt64.toFloat * Float.exactlyRepresentablePowersOfTen[0]).toModel.unpack = _
    rw [hproduct]
    change ((rational (.finite .positive m' e' hm') : ℝ) : EReal) = _
    rw [rational_positive, hsame', hsame, Rat.cast_natCast]

theorem isNaN_ofNat {n : Nat} (hn : n < 2 ^ 64) : (Float.ofNat n).isNaN = false := by
  rw [← Bool.not_eq_true, isNaN_iff_parts]
  intro h
  have hbelow := ofNat_below hn
  rw [h] at hbelow
  cases hbelow

end Whole

/-! ### Whole parts -/

/-- The whole number next to a number on the side of zero. -/
def towardZero (q : ℚ) : ℤ := if q < 0 then ⌈q⌉ else ⌊q⌋

section WholeParts

variable {m : Nat} {e : Int} {s : Sign} {x : Float}

theorem floor_magnitude (m : Nat) (e : Int) :
    ⌊(m * 2 ^ e : ℚ)⌋ = (m * 2 ^ e.toNat / 2 ^ (-e).toNat : Nat) := by
  have hquotient : (m * 2 ^ e : ℚ) = (m * 2 ^ e.toNat : Nat) / (2 ^ (-e).toNat : Nat) := by
    have hsplit : e = e.toNat - (-e).toNat := by omega
    conv_lhs => rw [hsplit, zpow_sub₀ (by norm_num), zpow_natCast, zpow_natCast]
    push_cast
    ring
  rw [hquotient, Rat.floor_natCast_div_natCast]
  norm_cast

theorem roundToInt_eq (hm : 0 < m) :
    roundToInt s m e = towardZero (rational (.finite s m e hm)) := by
  have hmantissa : roundToInt s m e = s.apply (m * 2 ^ e.toNat / 2 ^ (-e).toNat : Nat) := by
    unfold roundToInt decreaseExponent shiftToExponent
    have hshift : (0 - (e - e.toNat)).toNat = (-e).toNat := by omega
    dsimp only
    rw [Int.sub_zero, Nat.shiftLeft_eq, shiftRight_mantissa, hshift]
    rfl
  rw [hmantissa, ← floor_magnitude]
  unfold towardZero
  cases s with
  | positive =>
    rw [if_neg (not_lt.2 rational_pos.le), rational_positive]
    rfl
  | negative =>
    rw [if_pos rational_neg, rational_negative, Int.ceil_neg]
    rfl

/-- The integers that 64 bits hold with a sign. -/
theorem toInt_ofIntClamp (i : Int) :
    (Int64.ofIntClamp i).toInt = max (-0x8000000000000000) (min i 0x7fffffffffffffff) := by
  have hmin : Int64.minValue.toInt = -0x8000000000000000 := by decide
  have hmax : Int64.maxValue.toInt = 0x7fffffffffffffff := by decide
  unfold Int64.ofIntClamp
  split
  · rename_i hlow
    split
    · rename_i hhigh
      rw [Int64.toInt_ofIntLE]
      omega
    · omega
  · omega

theorem wholePart_of_isFinite (hx : x.isFinite) :
    wholePart x = max (-0x8000000000000000)
      (min (towardZero (rational x.toModel.unpack)) 0x7fffffffffffffff) := by
  change x.toModel.unpack.isFinite = true at hx
  change (Int64.ofIntClamp (x.toModel.unpack.toInt _ _)).toInt = _
  rw [toInt_ofIntClamp]
  cases hparts : x.toModel.unpack with
  | zero s => rfl
  | finite s m e hm => rw [← roundToInt_eq]; rfl
  | infinity s =>
    rw [hparts] at hx
    cases hx
  | notANumber =>
    rw [hparts] at hx
    cases hx

theorem wholePart_infinity : wholePart infinity = 0x7fffffffffffffff := by decide

theorem wholePart_neg_infinity : wholePart (-infinity) = -0x8000000000000000 := by decide

theorem wholePart_of_isNaN (hx : x.isNaN) : wholePart x = 0 := by
  change (Int64.ofIntClamp (x.toModel.unpack.toInt _ _)).toInt = _
  rw [isNaN_iff_parts.1 hx]
  rfl

end WholeParts

/-! ### One less -/

section OneLess

variable {m : Nat} {e : Int} {z : Int} {x : Float}

theorem one_parts : (1 : Float).toModel.unpack = .finite .positive (2 ^ 52) (-52) (by decide) := rfl

/-- What is packed with a sign has that sign, or is no number. -/
theorem not_pos_packComponents (f : BitVec 11) (v : BitVec 52) :
    (UnpackedFloat.zero .positive).compare (UnpackedFloat.unpack Format.binary64
      (packComponents Format.binary64 .negative f v)) ≠ some .lt := by
  rw [unpack_packComponents]
  rcases ofFields_cases .negative f v with h | h | h | ⟨m, e, hm, -, h⟩
  · rw [h]
    decide
  · rw [h]
    decide
  · rw [h]
    decide
  · rw [h]
    exact (Option.some_injective _).ne (by decide)

theorem roundWithAccuracy_cases (s : Sign) (m : Nat) (e : Int) (accuracy : Accuracy) :
    (∃ n f, ∃ hn : 0 < n,
      roundWithAccuracy Format.binary64 s m e accuracy = .finite s n f hn) ∨
      roundWithAccuracy Format.binary64 s m e accuracy = .zero s := by
  unfold roundWithAccuracy
  dsimp only
  exact (Decidable.em _).elim (fun hzero => .inr (dif_pos hzero))
    fun hsome => .inl ⟨_, _, Nat.pos_of_ne_zero hsome, dif_neg hsome⟩

theorem not_pos_pack_round (m : Nat) (e : Int) :
    (UnpackedFloat.zero .positive).compare (UnpackedFloat.unpack Format.binary64
      (UnpackedFloat.pack Format.binary64
        (UnpackedFloat.round Format.binary64 .negative m e))) ≠ some .lt := by
  unfold UnpackedFloat.round
  dsimp only
  rcases roundWithAccuracy_cases .negative
    (decreaseExponent m e (Format.binary64.targetExponent (totalExponent m e))).1
    (decreaseExponent m e (Format.binary64.targetExponent (totalExponent m e))).2 .exact with
    ⟨n, f, hn, hround⟩ | hround
  · rw [hround, pack_finite]
    split
    · exact not_pos_packComponents _ _
    · split
      · exact not_pos_packComponents _ _
      · exact not_pos_packComponents _ _
  · rw [hround]
    exact not_pos_packComponents 0 0

theorem extended_pack_round {n j : Nat} {s : Sign} (hn : 0 < n) (hfits : n < 2 ^ 53)
    (hlow : -1074 ≤ e + j) (hhigh : e + j ≤ 971) :
    extended (UnpackedFloat.unpack Format.binary64 (UnpackedFloat.pack Format.binary64
      (UnpackedFloat.round Format.binary64 s (n * 2 ^ j) e))) =
      (((s.apply n * 2 ^ (e + j) : ℚ) : ℝ) : EReal) := by
  obtain ⟨m, f, hm, hcanonical, hvalue, hround⟩ := round_exact (s := s) hn hfits hlow hhigh
  rw [hround, hcanonical.unpack_pack]
  change ((rational (.finite s m f hm) : ℝ) : EReal) = _
  cases s with
  | positive => rw [rational_positive, hvalue]; rfl
  | negative => rw [rational_negative, hvalue, ← neg_mul]; simp [Sign.apply]

/-- A number whose digits fit is kept by rounding and packing. -/
theorem extended_normalize {n : Int} {j : Nat} (hfits : n.natAbs < 2 ^ 53) (hlow : -1074 ≤ e + j)
    (hhigh : e + j ≤ 971) :
    extended (UnpackedFloat.unpack Format.binary64 (UnpackedFloat.pack Format.binary64
      (UnpackedFloat.normalize Format.binary64 (n * 2 ^ j) e .positive))) =
      (((n * 2 ^ (e + j) : ℚ) : ℝ) : EReal) := by
  have hpow : (0 : Int) < 2 ^ j := by positivity
  unfold UnpackedFloat.normalize
  rcases lt_trichotomy n 0 with hneg | rfl | hpos
  · obtain ⟨k, rfl⟩ : ∃ k : Nat, n = -k := ⟨n.natAbs, by omega⟩
    have hmantissa : (-(-(k : Int) * 2 ^ j)).toNat = k * 2 ^ j := by
      rw [Int.neg_mul, Int.neg_neg]
      exact_mod_cast Int.toNat_natCast (k * 2 ^ j)
    rw [compare_lt_iff_lt.2 (Int.mul_neg_of_neg_of_pos hneg hpow)]
    dsimp only
    rw [hmantissa, extended_pack_round (by omega) (by omega) hlow hhigh]
    simp [Sign.apply]
  · have hzero : UnpackedFloat.unpack Format.binary64 (UnpackedFloat.pack Format.binary64
        (.zero .positive)) = .zero .positive := rfl
    rw [Int.zero_mul, compare_eq_iff_eq.2 rfl]
    dsimp only
    rw [hzero, extended_zero]
    simp
  · obtain ⟨k, rfl⟩ : ∃ k : Nat, n = k := ⟨n.natAbs, by omega⟩
    have hmantissa : ((k : Int) * 2 ^ j).toNat = k * 2 ^ j := by
      exact_mod_cast Int.toNat_natCast (k * 2 ^ j)
    rw [compare_gt_iff_gt.2 (Int.mul_pos hpos hpow)]
    dsimp only
    rw [hmantissa, extended_pack_round (by omega) (by omega) hlow hhigh]
    rfl

theorem parts_of_pos (h : 0 < x) : x.toModel.unpack = .infinity .positive ∨
    ∃ m e, ∃ hm : 0 < m, x.toModel.unpack = .finite .positive m e hm := by
  have hzero : (0 : Float).toModel.unpack = .zero .positive := rfl
  rw [lt_iff_parts, hzero] at h
  cases hx : x.toModel.unpack with
  | infinity s =>
    cases s with
    | positive => exact .inl rfl
    | negative =>
      rw [hx] at h
      cases h
  | finite s m e hm =>
    cases s with
    | positive => exact .inr ⟨m, e, hm, rfl⟩
    | negative =>
      rw [hx] at h
      cases h
  | zero s | notANumber =>
    rw [hx] at h
    cases h

theorem Canonical.exponent_nonpos (h : Canonical m e) (hlt : (m * 2 ^ e : ℚ) < 2 ^ 53) : e ≤ 0 := by
  by_contra hpos
  have hfull : 2 ^ 52 ≤ m := h.full.resolve_right (by omega)
  have hpow : (2 : ℚ) ^ (1 : ℤ) ≤ 2 ^ e := zpow_le_zpow_right₀ (by norm_num) (by omega)
  have hlarge : (2 ^ 52 * 2 ^ (1 : ℤ) : ℚ) ≤ m * 2 ^ e :=
    mul_le_mul (by exact_mod_cast hfull) hpow (two_zpow_pos _).le (by positivity)
  exact absurd hlt (not_lt.2 (le_trans (by norm_num) hlarge))

theorem sub_one_parts (hm : 0 < m) : UnpackedFloat.sub Format.binary64 (.finite .positive m e hm)
    (.finite .positive (2 ^ 52) (-52) (by decide)) =
      UnpackedFloat.normalize Format.binary64
        (m * 2 ^ (e - min e (-52)).toNat - 2 ^ 52 * 2 ^ (-52 - min e (-52)).toNat)
        (min e (-52)) .positive := by
  unfold UnpackedFloat.sub decreaseExponent
  simp only [Sign.apply, Nat.shiftLeft_eq]
  push_cast
  rfl

theorem value_of_finite {hm : 0 < m} (hx : x.toModel.unpack = .finite .positive m e hm) :
    value x = (((m * 2 ^ e : ℚ) : ℝ) : EReal) := by
  unfold value
  rw [hx]
  change ((rational (.finite .positive m e hm) : ℝ) : EReal) = _
  rw [rational_positive]

theorem value_of_infinity (hx : x.toModel.unpack = .infinity .positive) : value x = ⊤ := by
  unfold value
  rw [hx]
  rfl

theorem unpack_sub_one (hm : 0 < m) (hx : x.toModel.unpack = .finite .positive m e hm) :
    (x - 1).toModel.unpack = UnpackedFloat.unpack Format.binary64
      (UnpackedFloat.pack Format.binary64 (UnpackedFloat.normalize Format.binary64
        (m * 2 ^ (e - min e (-52)).toNat - 2 ^ 52 * 2 ^ (-52 - min e (-52)).toNat)
        (min e (-52)) .positive)) := by
  rw [← sub_one_parts hm, ← hx, ← one_parts]
  rfl

/-- Where the last digit is worth no less than that of one, nothing is rounded. -/
theorem value_sub_one {hm : 0 < m} (hx : x.toModel.unpack = .finite .positive m e hm)
    (hfits : m < 2 ^ 53) (hlow : -52 ≤ e) (hhigh : e ≤ 0) :
    value (x - 1) = (((m * 2 ^ e - 1 : ℚ) : ℝ) : EReal) := by
  obtain ⟨j, hj⟩ : ∃ j : Nat, e + 52 = j := ⟨(e + 52).toNat, by omega⟩
  have hmin : min e (-52) = -52 := by omega
  have hshift : (e - -52).toNat = j := by omega
  have hone : (2 : Int) ^ 52 = 2 ^ (52 - j) * 2 ^ j := by
    rw [← pow_add, Nat.sub_add_cancel (by omega)]
  have hmantissa : (m * 2 ^ j - 2 ^ 52 * 2 ^ (-52 - (-52) : Int).toNat : Int) =
      (m - 2 ^ (52 - j)) * 2 ^ j := by
    rw [sub_mul, ← hone]
    rfl
  have hless : (2 : Int) ^ (52 - j) ≤ 2 ^ 52 := pow_le_pow_right₀ (by norm_num) (by omega)
  have hmore : (0 : Int) < 2 ^ (52 - j) := by positivity
  have hsum : (-52 : Int) + j = e := by omega
  have hunit : (2 : ℚ) ^ (52 - j) * 2 ^ e = 1 := by
    rw [← zpow_natCast, ← zpow_add₀ (by norm_num), show ((52 - j : Nat) : ℤ) + e = 0 by omega,
      zpow_zero]
  have hexact : (((m : Int) - 2 ^ (52 - j) : Int) * 2 ^ e : ℚ) = m * 2 ^ e - 1 := by
    push_cast
    rw [sub_mul, hunit]
  unfold value
  rw [unpack_sub_one hm hx, hmin, hshift, hmantissa,
    extended_normalize (by omega) (by omega) (by omega), hsum, hexact]

theorem lt_one_of_low (hfits : m < 2 ^ 53) (hlow : e < -52) : (m * 2 ^ e : ℚ) < 1 := by
  have hpow : (2 : ℚ) ^ e ≤ 2 ^ (-53 : ℤ) := zpow_le_zpow_right₀ (by norm_num) (by omega)
  calc (m * 2 ^ e : ℚ) < 2 ^ 53 * 2 ^ e :=
        mul_lt_mul_of_pos_right (by exact_mod_cast hfits) (two_zpow_pos e)
    _ ≤ 2 ^ 53 * 2 ^ (-53 : ℤ) := mul_le_mul_of_nonneg_left hpow (by norm_num)
    _ = 1 := by norm_num

theorem not_pos_sub_one {hm : 0 < m} (hx : x.toModel.unpack = .finite .positive m e hm)
    (hfits : m < 2 ^ 53) (hlow : e < -52) : ¬ 0 < x - 1 := by
  have hmin : min e (-52) = e := by omega
  have hmantissa : (m * 2 ^ (e - e).toNat - 2 ^ 52 * 2 ^ (-52 - e).toNat : Int) < 0 := by
    have hpow : (2 : Int) ^ 1 ≤ 2 ^ (-52 - e).toNat :=
      pow_le_pow_right₀ (by norm_num) (by omega)
    rw [show (e - e).toNat = 0 by omega]
    omega
  have hzero : (0 : Float).toModel.unpack = .zero .positive := rfl
  rw [lt_iff_parts, hzero, unpack_sub_one hm hx, hmin]
  unfold UnpackedFloat.normalize
  rw [compare_lt_iff_lt.2 hmantissa]
  exact not_pos_pack_round _ _

/-- Below `2 ^ 53` one can be subtracted exactly, or nothing is left. -/
theorem sub_one_cases {q : ℚ} (hpos : 0 < x) (hx : value x = ((q : ℝ) : EReal)) (hq : q < 2 ^ 53) :
    value (x - 1) = (((q - 1 : ℚ) : ℝ) : EReal) ∨ q < 1 ∧ ¬ 0 < x - 1 := by
  rcases parts_of_pos hpos with hparts | ⟨m, e, hm, hparts⟩
  · rw [value_of_infinity hparts] at hx
    exact absurd hx.symm (EReal.coe_ne_top _)
  · have hcanonical : Canonical m e := unpack_canonical hparts
    obtain rfl : (m * 2 ^ e : ℚ) = q := by
      rw [value_of_finite hparts] at hx
      exact_mod_cast hx
    rcases le_or_gt (-52) e with hlow | hlow
    · left
      exact value_sub_one hparts hcanonical.fits hlow (hcanonical.exponent_nonpos hq)
    · right
      exact ⟨lt_one_of_low hcanonical.fits hlow, not_pos_sub_one hparts hcanonical.fits hlow⟩

theorem value_zero : value 0 = 0 := by
  have hzero : (0 : Float).toModel.unpack = .zero .positive := rfl
  unfold value
  rw [hzero, extended_zero]

theorem pos_iff_value : 0 < x ↔ 0 < value x := by
  cases hx : x.isNaN with
  | false => rw [lt_iff_value rfl hx, value_zero]
  | true =>
    have hparts := isNaN_iff_parts.1 hx
    unfold value
    rw [lt_iff_parts, hparts, extended_notANumber]
    exact iff_of_false nofun (lt_irrefl 0)

theorem isNaN_of_pos (h : 0 < x) : x.isNaN = false := by
  rw [← Bool.not_eq_true, isNaN_iff_parts]
  rcases parts_of_pos h with hx | ⟨m, e, hm, hx⟩
  · rw [hx]
    exact nofun
  · rw [hx]
    exact nofun

/-- A double that is infinite, or so small that one less is a double. -/
def Moderate (x : Float) : Prop := value x < ((2 ^ 53 : ℝ) : EReal) ∨ value x = ⊤

theorem top_sub_one : (⊤ : EReal) - 1 = ⊤ := EReal.top_sub_coe 1

theorem coe_sub_one (r : ℝ) : (r : EReal) - 1 = ((r - 1 : ℝ) : EReal) := (EReal.coe_sub r 1).symm

theorem Moderate.sub_one (h : Moderate x) (hpos : 0 < x) :
    (0 < x - 1 ↔ 0 < value x - 1) ∧ (0 < x - 1 → value (x - 1) = value x - 1) := by
  rcases parts_of_pos hpos with hparts | ⟨m, e, hm, hparts⟩
  · have hless : (x - 1).toModel.unpack = .infinity .positive := by
      change UnpackedFloat.unpack Format.binary64 (UnpackedFloat.pack Format.binary64
        (UnpackedFloat.sub Format.binary64 x.toModel.unpack (1 : Float).toModel.unpack)) = _
      rw [hparts]
      rfl
    rw [pos_iff_value, value_of_infinity hless, value_of_infinity hparts, top_sub_one]
    exact ⟨Iff.rfl, fun _ => rfl⟩
  · have hvalue := value_of_finite hparts
    have hq : (m * 2 ^ e : ℚ) < 2 ^ 53 := by
      rcases h with hsmall | htop
      · rw [hvalue] at hsmall
        exact_mod_cast hsmall
      · rw [hvalue] at htop
        exact absurd htop (EReal.coe_ne_top _)
    have hless : value x - 1 = (((m * 2 ^ e - 1 : ℚ) : ℝ) : EReal) := by
      rw [hvalue, coe_sub_one]
      push_cast
      rfl
    rw [hless]
    rcases sub_one_cases hpos hvalue hq with hexact | ⟨hone, hnone⟩
    · rw [pos_iff_value, hexact]
      exact ⟨Iff.rfl, fun _ => rfl⟩
    · refine ⟨iff_of_false hnone ?_, fun hsome => absurd hsome hnone⟩
      rw [EReal.coe_pos, Rat.cast_pos, sub_pos, not_lt]
      exact hone.le

theorem sub_one_le (r : EReal) : r - 1 ≤ r := by
  induction r using EReal.rec with
  | bot => exact bot_le
  | top => exact le_top
  | coe r =>
    rw [coe_sub_one, EReal.coe_le_coe_iff]
    linarith

theorem Moderate.of_value_eq {y : Float} (h : Moderate x) (hvalue : value y = value x - 1) :
    Moderate y := by
  rcases h with hsmall | htop
  · left
    rw [hvalue]
    exact lt_of_le_of_lt (sub_one_le _) hsmall
  · right
    rw [hvalue, htop, top_sub_one]

end OneLess

end Scenario
