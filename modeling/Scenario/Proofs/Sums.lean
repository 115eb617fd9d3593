import Scenario.Proofs.Fields
import Scenario.Proofs.Magnitudes
import Scenario.Proofs.Numbers
import Scenario.Random

/-!
Sums of weights. Rounding can raise a sum of doubles that are not negative to infinity, but it takes
none to zero or to no number. So a total is above zero exactly if one of its weights is.
-/

namespace Scenario

open Float.Model UnpackedFloat

/-- Above zero, with the parts that doubles can have. -/
inductive Positive : UnpackedFloat → Prop
  | infinity : Positive (.infinity .positive)
  | finite {m : Nat} {e : Int} {hpos : 0 < m} (hm : m < 2 ^ 53) (he : -1074 ≤ e) :
    Positive (.finite .positive m e hpos)

section Rounding

variable {a b : UnpackedFloat}

theorem shift_fits {m : Nat} {e : Int} (hm : 0 < m) (he : -1074 ≤ e) :
    0 < (shiftToTargetExponent Format.binary64 m e .exact).1.mantissa ∧
    (shiftToTargetExponent Format.binary64 m e .exact).1.mantissa < 2 ^ 53 ∧
    -1074 ≤ (shiftToTargetExponent Format.binary64 m e .exact).2 := by
  have hne : m ≠ 0 := Nat.ne_of_gt hm
  have hlow : 2 ^ m.log2 ≤ m := Nat.log2_self_le hne
  have hhigh : m < 2 ^ (m.log2 + 1) := Nat.lt_log2_self
  have htotal : totalExponent m e = m.log2 + 1 + e := rfl
  obtain ⟨k, hmantissa, hexponent, hk⟩ := shiftToTargetExponent_exact m e
  rw [hmantissa, hexponent]
  refine ⟨?_, ?_, by omega⟩
  · apply Nat.div_pos _ (Nat.two_pow_pos k)
    exact Nat.le_trans (Nat.pow_le_pow_right (by decide) (by omega)) hlow
  · apply Nat.lt_of_lt_of_le (div_pow_lt hhigh (by omega))
    exact Nat.pow_le_pow_right (by decide) (by omega)

theorem le_roundedMantissa (em : ExtendedMantissa) : em.mantissa ≤ em.roundedMantissa := by
  rcases em with ⟨m, r, s⟩
  cases r <;> cases s <;>
    simp [ExtendedMantissa.roundedMantissa, ExtendedMantissa.accuracy, Accuracy.roundToNearestEven]

theorem round_positive {m : Nat} {e : Int} (hm : 0 < m) (he : -1074 ≤ e) :
    Positive (UnpackedFloat.round Format.binary64 .positive m e) := by
  have htarget : -1074 ≤ Format.binary64.targetExponent (totalExponent m e) := Int.le_max_right _ _
  unfold UnpackedFloat.round decreaseExponent roundWithAccuracy
  dsimp only
  generalize Format.binary64.targetExponent (totalExponent m e) = target at htarget
  have hwidened : 0 < m <<< (e - target).toNat := by
    rw [Nat.shiftLeft_eq]
    exact Nat.mul_pos hm (Nat.two_pow_pos _)
  obtain ⟨hfirst, -, hexponent⟩ := shift_fits hwidened (e := e - (e - target).toNat) (by omega)
  obtain ⟨hsecond, hlt, hexponent'⟩ :=
    shift_fits (Nat.lt_of_lt_of_le hfirst (le_roundedMantissa _)) hexponent
  rw [dif_neg (Nat.ne_of_gt hsecond)]
  exact .finite hlt hexponent'

theorem add_positive (ha : Positive a) (hb : Positive b) :
    Positive (UnpackedFloat.add Format.binary64 a b) := by
  cases ha with
  | infinity => cases hb <;> exact .infinity
  | @finite m e hm hmlt he =>
    cases hb with
    | infinity => exact .infinity
    | @finite n f hn hnlt hf =>
      unfold UnpackedFloat.add UnpackedFloat.normalize
      dsimp only [decreaseExponent, Sign.apply]
      have hsum : 0 < m <<< (e - min e f).toNat + n <<< (f - min e f).toNat := by
        rw [Nat.shiftLeft_eq]
        exact Nat.add_pos_left (Nat.mul_pos hm (Nat.two_pow_pos _)) _
      split
      · rename_i hneg
        have hlt := Int.compare_eq_lt.1 hneg
        omega
      · rename_i hzero
        have heq := Int.compare_eq_eq.1 hzero
        omega
      · exact round_positive (by omega) (by omega)

theorem positive_unpack_packComponents {x : BitVec 11} {v : BitVec 52} (hx : x ≠ -1#11)
    (hne : x ≠ 0#11 ∨ v ≠ 0#52) :
    Positive (UnpackedFloat.unpack Format.binary64
      (packComponents Format.binary64 .positive x v)) := by
  rw [unpack_packComponents]
  unfold ofFields
  rw [if_neg hx]
  by_cases hzero : x = 0#11
  · rw [if_pos hzero, dif_neg (hne.resolve_left (absurd hzero))]
    have hlt : v.toNat < 2 ^ 52 := v.isLt
    exact .finite (by omega) (by decide)
  · rw [if_neg hzero]
    have hpos : x.toNat ≠ 0 := fun h => hzero (BitVec.eq_of_toNat_eq h)
    exact .finite (1#1 ++ v).isLt (by omega)

theorem unpack_pack_positive (h : Positive a) :
    Positive (UnpackedFloat.unpack Format.binary64 (UnpackedFloat.pack Format.binary64 a)) := by
  cases h with
  | infinity => exact .infinity
  | @finite m e hpos hm he =>
    rw [pack_finite]
    split
    · exact .infinity
    · rename_i hexponent
      split
      · apply positive_unpack_packComponents
        · intro hall
          have hnat := congrArg BitVec.toNat hall
          rw [BitVec.toNat_ofNat] at hnat
          have hlast : (-1#11).toNat = 2047 := by decide
          omega
        · left
          intro hzero
          have hnat := congrArg BitVec.toNat hzero
          rw [BitVec.toNat_ofNat] at hnat
          have hnone : (0#11).toNat = 0 := by decide
          omega
      · rename_i hsubnormal
        have hlt : m < 2 ^ 52 := by
          rw [← Nat.log2_lt (Nat.ne_of_gt hpos)]
          have hle := (Nat.log2_lt (Nat.ne_of_gt hpos)).2 hm
          omega
        apply positive_unpack_packComponents (by decide)
        right
        intro hzero
        have hnat := congrArg BitVec.toNat hzero
        rw [BitVec.toNat_ofNat, Nat.mod_eq_of_lt hlt] at hnat
        exact Nat.ne_of_gt hpos hnat

end Rounding

/-! ### Totals -/

/-- Not negative, and whether it is above zero. -/
inductive Sized : Bool → UnpackedFloat → Prop
  | zero (s : Sign) : Sized false (.zero s)
  | positive {c : UnpackedFloat} (h : Positive c) : Sized true c

section Totals

variable {a b : UnpackedFloat} {p q : Bool} {x y : Float} {weights : List Float}

theorem Sized.add (ha : Sized p a) (hb : Sized q b) :
    Sized (p || q) (UnpackedFloat.add Format.binary64 a b) := by
  cases ha with
  | zero s =>
    cases hb with
    | zero t => cases s <;> cases t <;> exact .zero _
    | positive hb => cases hb <;> exact .positive (by constructor <;> assumption)
  | positive ha =>
    cases hb with
    | zero t => cases ha <;> exact .positive (by constructor <;> assumption)
    | positive hb => exact .positive (add_positive ha hb)

theorem Sized.unpack_pack (h : Sized p a) :
    Sized p (UnpackedFloat.unpack Format.binary64 (UnpackedFloat.pack Format.binary64 a)) := by
  cases h with
  | zero s => cases s <;> exact .zero _
  | positive h => exact .positive (unpack_pack_positive h)

theorem sized_add (hx : Sized p x.toModel.unpack) (hy : Sized q y.toModel.unpack) :
    Sized (p || q) (x + y).toModel.unpack :=
  (hx.add hy).unpack_pack

theorem exists_sized (hfinite : x.isFinite) (hneg : ¬ x < 0.0) : ∃ p, Sized p x.toModel.unpack := by
  have hzero : (0.0 : Float).toModel.unpack = .zero .positive := rfl
  rw [lt_iff_parts, hzero] at hneg
  change x.toModel.unpack.isFinite = true at hfinite
  cases hx : x.toModel.unpack with
  | zero s => exact ⟨false, .zero s⟩
  | notANumber =>
    rw [hx] at hfinite
    cases hfinite
  | infinity s =>
    rw [hx] at hfinite
    cases hfinite
  | finite s m e hm =>
    cases s with
    | negative =>
      rw [hx] at hneg
      exact absurd rfl hneg
    | positive =>
      have hcanonical := unpack_canonical hx
      exact ⟨true, .positive (.finite hcanonical.fits hcanonical.low)⟩

theorem Sized.zero_lt (h : Sized p x.toModel.unpack) : 0.0 < x ↔ p = true := by
  have hzero : (0.0 : Float).toModel.unpack = .zero .positive := rfl
  rw [lt_iff_parts, hzero]
  generalize x.toModel.unpack = a at h
  cases h with
  | zero s => cases s <;> decide
  | positive h => cases h <;> exact ⟨fun _ => rfl, fun _ => rfl⟩

theorem Sized.le_zero (h : Sized p x.toModel.unpack) : x ≤ 0.0 ↔ p = false := by
  have hzero : (0.0 : Float).toModel.unpack = .zero .positive := rfl
  rw [le_iff_parts, hzero]
  generalize x.toModel.unpack = a at h
  cases h with
  | zero s => cases s <;> exact ⟨fun _ => rfl, fun _ => ⟨.eq, rfl, rfl⟩⟩
  | positive h =>
    have hgreater : a.compare (.zero .positive) = some .gt := by cases h <;> rfl
    simp [hgreater]

theorem sized_foldl (h : ∀ w ∈ weights, w.isFinite ∧ ¬ w < 0.0)
    (hx : Sized p x.toModel.unpack) :
    Sized (p || weights.any (0.0 < ·)) (weights.foldl (· + ·) x).toModel.unpack := by
  induction weights generalizing p x with
  | nil => simpa using hx
  | cons w weights ih =>
    obtain ⟨⟨hfinite, hneg⟩, hrest⟩ := List.forall_mem_cons.1 h
    obtain ⟨q, hq⟩ := exists_sized hfinite hneg
    have hw : decide (0.0 < w) = q := by
      rw [← Bool.coe_iff_coe, decide_eq_true_iff]
      exact hq.zero_lt
    rw [List.foldl_cons, List.any_cons, hw, ← Bool.or_assoc]
    exact ih hrest (sized_add hx hq)

theorem totalWeight_sized (h : ∀ w ∈ weights, w.isFinite ∧ ¬ w < 0.0) :
    Sized (weights.any (0.0 < ·)) (totalWeight weights).toModel.unpack :=
  sized_foldl (p := false) (x := -0.0) h (.zero .negative)

theorem totalWeight_pos (h : ∀ w ∈ weights, w.isFinite ∧ ¬ w < 0.0) :
    0.0 < totalWeight weights ↔ ∃ w ∈ weights, 0.0 < w := by
  rw [(totalWeight_sized h).zero_lt]
  simp

theorem totalWeight_le_zero (h : ∀ w ∈ weights, w.isFinite ∧ ¬ w < 0.0) :
    totalWeight weights ≤ 0.0 ↔ ¬ 0.0 < totalWeight weights := by
  rw [(totalWeight_sized h).zero_lt, (totalWeight_sized h).le_zero, Bool.not_eq_true]

end Totals

end Scenario
