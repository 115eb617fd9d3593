import Mathlib.Algebra.Group.Nat.Defs
import Mathlib.Algebra.Ring.Int.Defs
import Scenario.Double

/-!
The fields of a double: a sign, an exponent of 11 bits and a mantissa of 52. They decide its parts,
and parts in canonical form come back from the fields that they are packed in.
-/

namespace Scenario

open Float.Model UnpackedFloat

/-- The parts that finite doubles other than zero have. -/
structure Canonical (m : Nat) (e : Int) : Prop where
  fits : m < 2 ^ 53
  low : -1074 ≤ e
  high : e ≤ 971
  full : 2 ^ 52 ≤ m ∨ e = -1074

variable {m : Nat} {e : Int} {s t : Sign} {f : BitVec 11} {v : BitVec 52}

theorem toNat_one_append (v : BitVec 52) : (1#1 ++ v).toNat = 2 ^ 52 + v.toNat := by
  rw [BitVec.toNat_append, ← Nat.shiftLeft_add_eq_or_of_lt v.isLt]
  rfl

theorem ofBitVec_toBitVec (s : Sign) : Sign.ofBitVec s.toBitVec = s := by
  cases s <;> rfl

/-- The parts of a double with a sign, a field for the exponent and one for the mantissa. -/
def ofFields (s : Sign) (f : BitVec 11) (v : BitVec 52) : UnpackedFloat :=
  if f = -1#11 then if v = 0#52 then .infinity s else .notANumber
  else if f = 0#11 then
    if h : v = 0#52 then .zero s
    else .finite s v.toNat (-1074) (Nat.pos_of_ne_zero fun hv => h (BitVec.eq_of_toNat_eq hv))
  else .finite s (1#1 ++ v).toNat (f.toNat - 1075) (by rw [toNat_one_append]; omega)

theorem unpack_eq (b : BitVec Format.binary64.numBits) :
    UnpackedFloat.unpack Format.binary64 b =
      ofFields (Sign.ofBitVec (unpackSign b)) (unpackExponent b) (unpackMantissa b) := by
  unfold UnpackedFloat.unpack ofFields
  dsimp only
  by_cases hzero : unpackExponent b = 0#11
  · have hlow : ((unpackExponent b).toNat : Int) -
        (Format.binary64.exponentBias + Format.binary64.mantissaBitsWithoutImplicit) + 1 =
          -1074 := by
      rw [hzero]
      rfl
    rw [hlow]
    rfl
  · rw [if_neg hzero, if_neg hzero]
    rfl

theorem unpackSign_packComponents {spec : Format} (s : Sign) (x : BitVec spec.exponentBits)
    (v : BitVec spec.mantissaBitsWithoutImplicit) :
    unpackSign (packComponents spec s x v) = s.toBitVec := by
  unfold unpackSign packComponents
  ext i hi
  obtain rfl : i = 0 := by omega
  simp [BitVec.getLsbD_append, BitVec.getElem_append]

theorem unpack_packComponents (s : Sign) (f : BitVec 11) (v : BitVec 52) :
    UnpackedFloat.unpack Format.binary64 (packComponents Format.binary64 s f v) =
      ofFields s f v := by
  rw [unpack_eq, @unpackSign_packComponents Format.binary64,
    @unpackExponent_packComponents Format.binary64, @unpackMantissa_packComponents Format.binary64,
    ofBitVec_toBitVec]

theorem finite_congr {n : Nat} {x : Int} (hmn : m = n) (hex : e = x) (hm : 0 < m) :
    UnpackedFloat.finite s m e hm = .finite s n x (hmn ▸ hm) := by
  subst hmn hex
  rfl

/-- Fields hold an infinity, no number, a zero or canonical parts, with the sign that they have. -/
theorem ofFields_cases (s : Sign) (f : BitVec 11) (v : BitVec 52) :
    ofFields s f v = .infinity s ∨ ofFields s f v = .notANumber ∨ ofFields s f v = .zero s ∨
      ∃ m e, ∃ hm : 0 < m, Canonical m e ∧ ofFields s f v = .finite s m e hm := by
  unfold ofFields
  have hv : v.toNat < 2 ^ 52 := v.isLt
  by_cases hall : f = -1#11
  · rw [if_pos hall]
    by_cases hnone : v = 0#52
    · exact .inl (if_pos hnone)
    · exact .inr (.inl (if_neg hnone))
  · rw [if_neg hall]
    have hf : f.toNat < 2047 := by
      have hlt : f.toNat < 2048 := f.isLt
      have hne : f.toNat ≠ 2047 := fun h => hall (BitVec.eq_of_toNat_eq h)
      omega
    by_cases hzero : f = 0#11
    · rw [if_pos hzero]
      by_cases hnone : v = 0#52
      · exact .inr (.inr (.inl (dif_pos hnone)))
      · have hcanonical : Canonical v.toNat (-1074) :=
          ⟨by omega, by decide, by decide, .inr rfl⟩
        exact .inr (.inr (.inr ⟨_, _, _, hcanonical, dif_neg hnone⟩))
    · rw [if_neg hzero]
      have hsome : f.toNat ≠ 0 := fun h => hzero (BitVec.eq_of_toNat_eq h)
      have hmantissa := toNat_one_append v
      have hcanonical : Canonical (1#1 ++ v).toNat (f.toNat - 1075) :=
        ⟨by omega, by omega, by omega, .inl (by omega)⟩
      exact .inr (.inr (.inr ⟨_, _, _, hcanonical, rfl⟩))

theorem ofFields_canonical {hm : 0 < m} (h : ofFields s f v = .finite t m e hm) :
    Canonical m e := by
  rcases ofFields_cases s f v with h' | h' | h' | ⟨n, x, hn, hcanonical, h'⟩
  · cases h'.symm.trans h
  · cases h'.symm.trans h
  · cases h'.symm.trans h
  · cases h'.symm.trans h
    exact hcanonical

theorem unpack_canonical {b : BitVec Format.binary64.numBits} {hm : 0 < m}
    (h : UnpackedFloat.unpack Format.binary64 b = .finite s m e hm) : Canonical m e := by
  rw [unpack_eq] at h
  exact ofFields_canonical h

theorem unpack_normal (hm : 0 < m) {x : Nat} (hpos : 0 < x) (hx : x < 2047) (hfull : 2 ^ 52 ≤ m)
    (hfits : m < 2 ^ 53) :
    UnpackedFloat.unpack Format.binary64
      (packComponents Format.binary64 s (BitVec.ofNat 11 x) (BitVec.ofNat 52 m)) =
      .finite s m (x - 1075) hm := by
  have hfield : (BitVec.ofNat 11 x).toNat = x := by
    rw [BitVec.toNat_ofNat, Nat.mod_eq_of_lt (by omega)]
  have hlast : BitVec.ofNat 11 x ≠ -1#11 := fun h =>
    Nat.ne_of_lt hx (hfield.symm.trans (congrArg BitVec.toNat h))
  have hfirst : BitVec.ofNat 11 x ≠ 0#11 := fun h =>
    Nat.ne_of_gt hpos (hfield.symm.trans (congrArg BitVec.toNat h))
  have hmantissa : (1#1 ++ BitVec.ofNat 52 m).toNat = m := by
    rw [toNat_one_append, BitVec.toNat_ofNat]
    omega
  rw [unpack_packComponents]
  unfold ofFields
  rw [if_neg hlast, if_neg hfirst]
  exact finite_congr hmantissa (by rw [hfield]) _

theorem unpack_subnormal (hm : 0 < m) (hsmall : m < 2 ^ 52) :
    UnpackedFloat.unpack Format.binary64
      (packComponents Format.binary64 s 0#11 (BitVec.ofNat 52 m)) = .finite s m (-1074) hm := by
  have hmantissa : (BitVec.ofNat 52 m).toNat = m := by
    rw [BitVec.toNat_ofNat, Nat.mod_eq_of_lt hsmall]
  have hne : BitVec.ofNat 52 m ≠ 0#52 := fun h =>
    Nat.ne_of_gt hm (hmantissa.symm.trans (congrArg BitVec.toNat h))
  rw [unpack_packComponents]
  unfold ofFields
  rw [if_neg (by decide), if_pos rfl, dif_neg hne]
  exact finite_congr hmantissa rfl _

theorem pack_finite (hm : 0 < m) : UnpackedFloat.pack Format.binary64 (.finite s m e hm) =
    if 2 ^ 11 ≤ (e + 1023 + 52).toNat + 1 then packedInfinity Format.binary64 s
    else if m.log2 + 1 = 53 then
      packComponents Format.binary64 s (BitVec.ofNat 11 (e + 1023 + 52).toNat) (BitVec.ofNat 52 m)
    else packComponents Format.binary64 s 0#11 (BitVec.ofNat 52 m) := rfl

/-- Parts that doubles have are kept by packing. -/
theorem Canonical.unpack_pack (h : Canonical m e) {hm : 0 < m} :
    UnpackedFloat.unpack Format.binary64
      (UnpackedFloat.pack Format.binary64 (.finite s m e hm)) = .finite s m e hm := by
  obtain ⟨hfits, hlow, hhigh, hfull⟩ := h
  have hlog : m.log2 + 1 = 53 ↔ 2 ^ 52 ≤ m := by
    rw [← Nat.le_log2 (Nat.ne_of_gt hm)]
    have hlt := (Nat.log2_lt (Nat.ne_of_gt hm)).2 hfits
    omega
  rw [pack_finite, if_neg (by omega)]
  by_cases hnormal : m.log2 + 1 = 53
  · rw [if_pos hnormal, unpack_normal hm (by omega) (by omega) (hlog.1 hnormal) hfits]
    exact finite_congr rfl (by omega) hm
  · rw [if_neg hnormal, hfull.resolve_left fun h => hnormal (hlog.2 h)]
    exact unpack_subnormal hm (by omega)

end Scenario
