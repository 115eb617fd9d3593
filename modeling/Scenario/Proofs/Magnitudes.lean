import Mathlib.Algebra.Group.Nat.Defs
import Mathlib.Algebra.Ring.Int.Defs
import Scenario.Json.Value

/-!
How large doubles can get. A finite double is below a power of two; rounding, packing and
multiplying raise that power by little. So the integers that fit 128 bits are no infinities as
doubles, and JSON texts can hold them.
-/

namespace Scenario

open Float.Model UnpackedFloat

/-- Zero, or a finite number below `2 ^ t`. -/
inductive Below (t : Int) : UnpackedFloat → Prop
  | zero (s : Sign) : Below t (.zero s)
  | finite {s : Sign} {m : Nat} {e : Int} {hpos : 0 < m} (j : Nat) (hm : m < 2 ^ j)
    (ht : e + j ≤ t) : Below t (.finite s m e hpos)

section Below

variable {t u : Int} {a b : UnpackedFloat}

theorem Below.mono (h : Below t a) (ht : t ≤ u) : Below u a := by
  cases h with
  | zero s => exact .zero s
  | finite j hm hle => exact .finite j hm (by omega)

theorem Below.isInf (h : Below t a) : a.isInf = false := by
  cases h with
  | zero s => rfl
  | finite j hm hle => rfl

/-! ### Rounding -/

theorem shiftRight_mantissa (em : ExtendedMantissa) (k : Nat) :
    (em >>> k).mantissa = em.mantissa / 2 ^ k := by
  induction k with
  | zero => simp [HShiftRight.hShiftRight, Nat.repeat]
  | succ k ih =>
    change (em >>> k).mantissa / 2 = _
    rw [ih, Nat.div_div_eq_div_mul, Nat.pow_succ]

theorem roundedMantissa_le (em : ExtendedMantissa) : em.roundedMantissa ≤ em.mantissa + 1 := by
  rcases em with ⟨m, r, s⟩
  cases r <;> cases s <;>
    simp [ExtendedMantissa.roundedMantissa, ExtendedMantissa.accuracy, Accuracy.roundToNearestEven]
  omega

theorem shiftToTargetExponent_exact (m : Nat) (e : Int) : ∃ k : Nat,
    (shiftToTargetExponent Format.binary64 m e .exact).1.mantissa = m / 2 ^ k ∧
    (shiftToTargetExponent Format.binary64 m e .exact).2 = e + k ∧
    k = max (max (totalExponent m e - 53) (-1074) - e) 0 :=
  ⟨_, shiftRight_mantissa _ _, rfl, Int.toNat_eq_max _⟩

theorem div_pow_lt {m j k : Nat} (hm : m < 2 ^ j) (hk : k ≤ j) : m / 2 ^ k < 2 ^ (j - k) := by
  apply Nat.div_lt_of_lt_mul
  rw [← Nat.pow_add]
  rwa [show k + (j - k) = j by omega]

/-- A shift to the right leaves room for one more. -/
theorem exists_pow_of_shift {m j k : Nat} {e : Int} (hm : m < 2 ^ j) (ht : e + j ≤ t)
    (hk : k ≤ j ∨ e + k ≤ t) : ∃ i : Nat, m / 2 ^ k + 1 < 2 ^ i ∧ e + k + i ≤ t + 1 := by
  by_cases hle : k ≤ j
  · refine ⟨j - k + 1, ?_, by omega⟩
    have hlt := div_pow_lt hm hle
    have hpos := Nat.two_pow_pos (j - k)
    rw [Nat.pow_succ]
    omega
  · have hzero : m / 2 ^ k = 0 :=
      Nat.div_eq_of_lt (Nat.lt_trans hm (Nat.pow_lt_pow_right (by decide) (by omega)))
    exact ⟨1, by omega, by omega⟩

theorem roundWithAccuracy_below {s : Sign} {m j : Nat} {e : Int} (hpos : m ≠ 0) (hm : m < 2 ^ j)
    (ht : e + j ≤ t) (hmin : -1074 ≤ t) :
    Below (t + 1) (roundWithAccuracy Format.binary64 s m e .exact) := by
  have htotal : totalExponent m e ≤ t := by
    have hlog := (Nat.log2_lt hpos).2 hm
    unfold totalExponent
    omega
  obtain ⟨k, hmantissa, hexponent, hk⟩ := shiftToTargetExponent_exact m e
  obtain ⟨i, hi, hle⟩ := exists_pow_of_shift hm ht (k := k) (by omega)
  unfold roundWithAccuracy
  rcases hfirst : shiftToTargetExponent Format.binary64 m e .exact with ⟨em, e'⟩
  rw [hfirst] at hmantissa hexponent
  dsimp only at hmantissa hexponent ⊢
  have hrounded := roundedMantissa_le em
  obtain ⟨k', hmantissa', hexponent', -⟩ := shiftToTargetExponent_exact em.roundedMantissa e'
  rcases hsecond : shiftToTargetExponent Format.binary64 em.roundedMantissa e' .exact
    with ⟨em', e''⟩
  rw [hsecond] at hmantissa' hexponent'
  dsimp only at hmantissa' hexponent' ⊢
  by_cases hne : em'.mantissa = 0
  · rw [dif_pos hne]
    exact .zero s
  · rw [dif_neg hne]
    have hlt : em.roundedMantissa < 2 ^ i := by omega
    have hk' : k' ≤ i := by
      apply Nat.le_of_not_lt
      intro hlarge
      have hsmall := Nat.lt_trans hlt (Nat.pow_lt_pow_right (by decide) hlarge)
      rw [hmantissa', Nat.div_eq_of_lt hsmall] at hne
      exact hne rfl
    exact .finite (i - k') (hmantissa' ▸ div_pow_lt hlt hk') (by omega)

theorem round_below {s : Sign} {m j : Nat} {e : Int} (hpos : m ≠ 0) (hm : m < 2 ^ j)
    (ht : e + j ≤ t) (hmin : -1074 ≤ t) :
    Below (t + 1) (UnpackedFloat.round Format.binary64 s m e) := by
  unfold UnpackedFloat.round decreaseExponent
  dsimp only
  generalize (e - Format.binary64.targetExponent (totalExponent m e)).toNat = k
  rw [Nat.shiftLeft_eq]
  have hne : m * 2 ^ k ≠ 0 :=
    Nat.mul_ne_zero hpos (Nat.ne_of_gt (Nat.two_pow_pos k))
  refine roundWithAccuracy_below (j := j + k) hne ?_ (by omega) hmin
  rw [Nat.pow_add]
  exact (Nat.mul_lt_mul_right (Nat.two_pow_pos k)).2 hm

theorem mul_below (ha : Below t a) (hb : Below u b) (hmin : -1074 ≤ t + u) :
    Below (t + u + 1) (UnpackedFloat.mul Format.binary64 a b) := by
  cases ha with
  | zero s =>
    cases hb with
    | zero s' => exact .zero _
    | finite j hj hfj => exact .zero _
  | @finite s m e hm i hi hei =>
    cases hb with
    | zero s' => exact .zero _
    | @finite s' n f hn j hj hfj =>
      have hlt : m * n < 2 ^ (i + j) := by
        rw [Nat.pow_add]
        exact Nat.mul_lt_mul'' hi hj
      have hne : m * n ≠ 0 := Nat.ne_of_gt (Nat.mul_pos hm hn)
      exact roundWithAccuracy_below hne hlt (by omega) hmin

/-! ### Packing -/

theorem unpack_below {b : BitVec Format.binary64.numBits}
    (hb : (unpackExponent b).toNat < 2047) :
    Below ((unpackExponent b).toNat - 1021) (UnpackedFloat.unpack Format.binary64 b) := by
  have hbias : Format.binary64.exponentBias = 1023 := rfl
  have hnotAll : unpackExponent b ≠ -1#_ := by
    intro hall
    rw [hall] at hb
    revert hb
    decide
  unfold UnpackedFloat.unpack
  dsimp only
  rw [if_neg hnotAll]
  by_cases hzero : unpackExponent b = 0#_
  · rw [if_pos hzero]
    by_cases hmantissa : unpackMantissa b = 0#_
    · rw [dif_pos hmantissa]
      exact .zero _
    · rw [dif_neg hmantissa]
      exact .finite 52 (unpackMantissa b).isLt (by omega)
  · rw [if_neg hzero]
    exact .finite 53 (1#1 ++ unpackMantissa b).isLt (by omega)

theorem unpack_packComponents_below (s : Sign) {x : Nat} (hx : x < 2047) (m : BitVec 52) :
    Below (x - 1021) (UnpackedFloat.unpack Format.binary64
      (packComponents Format.binary64 s (BitVec.ofNat 11 x) m)) := by
  have hfield : (BitVec.ofNat 11 x).toNat = x :=
    (BitVec.toNat_ofNat x 11).trans (Nat.mod_eq_of_lt (by omega))
  have hexponent : (unpackExponent
      (packComponents Format.binary64 s (BitVec.ofNat 11 x) m)).toNat = x := by
    rw [unpackExponent_packComponents, hfield]
  exact (unpack_below (by omega)).mono (by omega)

theorem unpack_pack_below (h : Below t a) (hmax : t ≤ 900) (hmin : -1000 ≤ t) :
    Below (t + 54) (unpack Format.binary64 (UnpackedFloat.pack Format.binary64 a)) := by
  cases h with
  | zero s => exact (unpack_packComponents_below s (x := 0) (by decide) 0).mono (by omega)
  | @finite s m e hpos j hm hle =>
    have hbias : Format.binary64.exponentBias = 1023 := rfl
    unfold UnpackedFloat.pack
    simp only [hbias]
    split
    · omega
    · rename_i hexponent
      split
      · exact (unpack_packComponents_below s (by omega) _).mono (by omega)
      · exact (unpack_packComponents_below s (x := 0) (by decide) _).mono (by omega)

end Below

/-! ### Integers as doubles -/

theorem product_below {x y : Float} {t u : Int} (hx : Below t x.toModel.unpack)
    (hy : Below u y.toModel.unpack) (hmax : t + u ≤ 800) (hmin : -1000 ≤ t + u) :
    Below (t + u + 55) (x * y).toModel.unpack :=
  (unpack_pack_below (mul_below hx hy (by omega)) (by omega) (by omega)).mono (by omega)

theorem toFloat_below {n : Nat} (hn : n < 2 ^ 64) :
    Below 120 n.toUInt64.toFloat.toModel.unpack := by
  have hvalue : n.toUInt64.toNat = n := Nat.mod_eq_of_lt hn
  refine unpack_pack_below (t := 66) ?_ (by decide) (by decide)
  unfold UnpackedFloat.ofUInt64 UnpackedFloat.ofNat UnpackedFloat.ofInt UnpackedFloat.normalize
  rw [hvalue]
  split
  · rename_i hneg
    have hlt := Int.compare_eq_lt.1 hneg
    omega
  · exact .zero _
  · rename_i hpos
    have hgt := Int.compare_eq_gt.1 hpos
    exact (round_below (j := 64) (t := 64) (by omega) (by omega) (by decide) (by decide)).mono
      (by decide)

theorem ofNat_below {n : Nat} (hn : n < 2 ^ 64) : Below 180 (Float.ofNat n).toModel.unpack := by
  change Below 180 (Float.ofScientific n false 0).toModel.unpack
  unfold Float.ofScientific
  split
  · have hone : Below 1 (Float.exactlyRepresentablePowersOfTen[0]).toModel.unpack :=
      .finite 53 (by decide) (by decide)
    exact (product_below (toFloat_below hn) hone (by decide) (by decide)).mono (by decide)
  · refine (unpack_pack_below (t := 120) ?_ (by decide) (by decide)).mono (by decide)
    change Below 120 (UnpackedFloat.ofScientific Format.binary64 n 0)
    unfold UnpackedFloat.ofScientific
    by_cases hzero : n = 0
    · rw [dif_pos hzero]
      exact .zero _
    · rw [dif_neg hzero]
      have hneg : ¬ (0 : Int) < -(2 ^ Format.binary64.exponentBits + (n.log2 : Int)) := by
        have hpos : (0 : Int) < 2 ^ Format.binary64.exponentBits := by decide
        omega
      rw [if_neg (by decide), if_neg hneg, if_pos (Int.le_refl 0)]
      have hshifted : n <<< 53 < 2 ^ 117 := by
        rw [Nat.shiftLeft_eq]
        omega
      exact (mul_below (t := 64) (u := 1) (.finite 117 hshifted (by decide))
        (.finite 1 (by decide) (by decide)) (by decide)).mono (by decide)

theorem powerOfTen_below {k : Nat} (hk : k < 40) :
    Below 140 (Json.powerOfTen k).toModel.unpack := by
  have hall : ∀ i : Fin 40, (match (Json.powerOfTen i).toModel.unpack with
      | .finite _ m e _ => decide (m < 2 ^ 53) && decide (e + 53 ≤ 140)
      | _ => false) = true := by decide +kernel
  have hpower := hall ⟨k, hk⟩
  dsimp only at hpower
  split at hpower
  · rename_i hfinite
    rw [Bool.and_eq_true, decide_eq_true_eq, decide_eq_true_eq] at hpower
    rw [hfinite]
    exact .finite 53 hpower.1 hpower.2
  · cases hpower

namespace Json

theorem isSome_scale {n k : Nat} (hn : n < 2 ^ 64) (hk : k < 40) :
    (scale (Float.ofNat n) k).isSome := by
  unfold scale
  split
  · rfl
  · rw [if_neg (by omega), if_pos (by omega)]
    have hbelow := product_below (ofNat_below hn) (powerOfTen_below hk) (by decide) (by decide)
    have hfinite : (Float.ofNat n * powerOfTen k).isInf = false := hbelow.isInf
    dsimp only
    rw [Int.toNat_natCast, hfinite]
    rfl

theorem absorb_bounds {n : Nat} (cs : List Char) (hn : n < 2 ^ 64) :
    (absorb n cs).1 < 2 ^ 64 ∧ (absorb n cs).2 ≤ cs.length := by
  induction cs generalizing n with
  | nil => exact ⟨hn, Nat.le_refl 0⟩
  | cons c cs ih =>
    unfold absorb
    dsimp only
    split
    · rename_i hnext
      exact ⟨(ih hnext).1, Nat.succ_le_succ (ih hnext).2⟩
    · exact ⟨hn, Nat.zero_le _⟩

theorem isSome_magnitude? {ds : List Char} (h : ds.length < 40) :
    (magnitude? ⟨ds, [], 0⟩).isSome := by
  obtain ⟨hleading, htaken⟩ := absorb_bounds ds (n := 0) (by decide)
  unfold magnitude?
  have hpower : ((ds.length - (absorb 0 ds).2 : Nat) : Int) - (0 : Nat) + 0 =
      (ds.length - (absorb 0 ds).2 : Nat) := by omega
  dsimp only [absorb]
  rw [hpower]
  exact isSome_scale hleading (by omega)

theorem isSome_ofInteger? (negative : Bool) {n : Nat} (hn : n < 2 ^ 128) :
    (ofInteger? negative n).isSome := by
  unfold ofInteger?
  rw [Option.isSome_map]
  apply isSome_magnitude?
  rw [Nat.toString_eq_ofList_toDigits, String.toList_ofList]
  have hlength :=
    (Nat.length_toDigits_le_iff (b := 10) (n := n) (k := 39) (by decide) (by decide)).2
    (Nat.lt_trans hn (by decide))
  omega

end Json

end Scenario
