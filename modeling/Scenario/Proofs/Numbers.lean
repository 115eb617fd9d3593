import Scenario.Save

/-!
Doubles as the engine compares them. Their equality is what their parts say: doubles are equal if
both are zero, or if neither is a number that is none and they have the same parts. Any two that are
numbers have an order, so that what is confined to bounds in order lies between them.
-/

namespace Scenario

open Float.Model

theorem compare_self {a : UnpackedFloat} (ha : a ≠ .notANumber) : a.compare a = some .eq := by
  cases a with
  | notANumber => exact absurd rfl ha
  | infinity s => cases s <;> rfl
  | zero s => rfl
  | finite s m e h =>
    have hparts : (compare e e).then (compare m m) = .eq :=
      Ordering.then_eq_eq.2 ⟨Std.compare_eq_iff_eq.2 rfl, Std.compare_eq_iff_eq.2 rfl⟩
    cases s with
    | positive => exact congrArg some hparts
    | negative => exact congrArg some (Ordering.swap_eq_eq.2 hparts)

theorem eq_of_compare_finite {s t : UnpackedFloat.Sign} {m n : Nat} {e f : Int} {hm : 0 < m}
    {hn : 0 < n}
    (h : (UnpackedFloat.finite s m e hm).compare (.finite t n f hn) = some .eq) :
    UnpackedFloat.finite s m e hm = .finite t n f hn := by
  have hparts : s = t ∧ (compare e f).then (compare m n) = .eq := by
    cases s with
    | positive =>
      cases t with
      | positive => exact ⟨rfl, Option.some.inj h⟩
      | negative => cases h
    | negative =>
      cases t with
      | positive => cases h
      | negative => exact ⟨rfl, Ordering.swap_eq_eq.1 (Option.some.inj h)⟩
  obtain ⟨hsign, horder⟩ := hparts
  obtain ⟨hexponent, hmantissa⟩ := Ordering.then_eq_eq.1 horder
  cases hsign
  cases Std.compare_eq_iff_eq.1 hexponent
  cases Std.compare_eq_iff_eq.1 hmantissa
  rfl

theorem eq_or_zeros_of_compare {a b : UnpackedFloat} (h : a.compare b = some .eq) :
    a = b ∨ ∃ s t, a = .zero s ∧ b = .zero t := by
  cases a with
  | notANumber => cases h
  | infinity s =>
    cases b with
    | infinity t =>
      cases s <;> cases t
      · exact .inl rfl
      · cases h
      · cases h
      · exact .inl rfl
    | _ => cases s <;> cases h
  | zero s =>
    cases b with
    | zero t => exact .inr ⟨s, t, rfl, rfl⟩
    | notANumber => cases h
    | infinity t => cases t <;> cases h
    | finite t n f hn => cases t <;> cases h
  | finite s m e hm =>
    cases b with
    | finite t n f hn => exact .inl (eq_of_compare_finite h)
    | notANumber => cases s <;> cases h
    | infinity t => cases s <;> cases t <;> cases h
    | zero t => cases s <;> cases h

theorem compare_eq_some_eq {a b : UnpackedFloat} :
    a.compare b = some .eq ↔
      a ≠ .notANumber ∧ (a = b ∨ ∃ s t, a = .zero s ∧ b = .zero t) := by
  constructor
  · intro h
    refine ⟨?_, eq_or_zeros_of_compare h⟩
    rintro rfl
    cases h
  · rintro ⟨ha, rfl | ⟨s, t, rfl, rfl⟩⟩
    · exact compare_self ha
    · rfl

variable {x y z : Float}

theorem beq_iff_parts : x == y ↔ x.toModel.unpack ≠ .notANumber ∧
    (x.toModel.unpack = y.toModel.unpack ∨
      ∃ s t, x.toModel.unpack = .zero s ∧ y.toModel.unpack = .zero t) := by
  rw [← compare_eq_some_eq]
  exact beq_iff_eq (a := x.toModel.unpack.compare y.toModel.unpack)

theorem isNaN_iff_parts : x.isNaN ↔ x.toModel.unpack = .notANumber := by
  change x.toModel.unpack.isNaN = true ↔ _
  cases x.toModel.unpack with
  | notANumber => exact ⟨fun _ => rfl, fun _ => rfl⟩
  | _ =>
    constructor
    · rintro ⟨⟩
    · rintro ⟨⟩

theorem beq_symm (h : x == y) : y == x := by
  obtain ⟨hx, heq | ⟨s, t, hs, ht⟩⟩ := beq_iff_parts.1 h
  · exact beq_iff_parts.2 ⟨heq ▸ hx, .inl heq.symm⟩
  · exact beq_iff_parts.2 ⟨by simp [ht], .inr ⟨t, s, ht, hs⟩⟩

theorem beq_trans (h : x == y) (h' : y == z) : x == z := by
  obtain ⟨hx, heq⟩ := beq_iff_parts.1 h
  obtain ⟨-, heq'⟩ := beq_iff_parts.1 h'
  refine beq_iff_parts.2 ⟨hx, ?_⟩
  rcases heq with heq | ⟨s, t, hs, ht⟩
  · rw [heq]
    exact heq'
  · rcases heq' with heq' | ⟨s', t', hs', ht'⟩
    · exact .inr ⟨s, t, hs, heq' ▸ ht⟩
    · exact .inr ⟨s, t', hs, ht'⟩

theorem beq_self_iff : x == x ↔ x.isNaN = false := by
  rw [beq_iff_parts, ← Bool.not_eq_true, isNaN_iff_parts]
  simp

theorem isNaN_of_beq (h : x == y) : x.isNaN = false ∧ y.isNaN = false :=
  ⟨beq_self_iff.1 (beq_trans h (beq_symm h)), beq_self_iff.1 (beq_trans (beq_symm h) h)⟩

/-! ### The same number -/

theorem sameNumber_iff : sameNumber x y ↔ (x.isNaN ∧ y.isNaN) ∨ x == y := by
  simp [sameNumber]

theorem sameNumber_refl (x : Float) : sameNumber x x := by
  rw [sameNumber_iff, beq_self_iff]
  cases x.isNaN <;> simp

theorem sameNumber_trans (h : sameNumber x y) (h' : sameNumber y z) : sameNumber x z := by
  rw [sameNumber_iff] at h h' ⊢
  rcases h with ⟨hx, hy⟩ | h
  · rcases h' with ⟨-, hz⟩ | h'
    · exact .inl ⟨hx, hz⟩
    · rw [(isNaN_of_beq h').1] at hy
      cases hy
  · rcases h' with ⟨hy, -⟩ | h'
    · rw [(isNaN_of_beq h).2] at hy
      cases hy
    · exact .inr (beq_trans h h')

/-! ### Order -/

theorem compare_swap (a b : UnpackedFloat) : b.compare a = (a.compare b).map Ordering.swap := by
  cases a with
  | notANumber => cases b <;> rfl
  | infinity s =>
    cases b with
    | infinity t => cases s <;> cases t <;> rfl
    | notANumber => cases s <;> rfl
    | zero t => cases s <;> rfl
    | finite t n f hn => cases s <;> cases t <;> rfl
  | zero s =>
    cases b with
    | infinity t => cases t <;> rfl
    | finite t n f hn => cases t <;> rfl
    | notANumber => rfl
    | zero t => rfl
  | finite s m e hm =>
    cases b with
    | notANumber => cases s <;> rfl
    | infinity t => cases s <;> cases t <;> rfl
    | zero t => cases s <;> rfl
    | finite t n f hn =>
      have hparts : (compare f e).then (compare n m) =
          ((compare e f).then (compare m n)).swap := by
        rw [Ordering.swap_then, ← Std.OrientedOrd.eq_swap, ← Std.OrientedOrd.eq_swap]
      cases s <;> cases t
      · exact congrArg (some ∘ Ordering.swap) hparts
      · rfl
      · rfl
      · exact congrArg some hparts

theorem compare_isSome {a b : UnpackedFloat} (ha : a ≠ .notANumber) (hb : b ≠ .notANumber) :
    ∃ o, a.compare b = some o := by
  cases a with
  | notANumber => exact absurd rfl ha
  | infinity s =>
    cases b with
    | notANumber => exact absurd rfl hb
    | infinity t => exact ⟨_, rfl⟩
    | zero t => cases s <;> exact ⟨_, rfl⟩
    | finite t n f hn => cases s <;> exact ⟨_, rfl⟩
  | zero s =>
    cases b with
    | notANumber => exact absurd rfl hb
    | infinity t => cases t <;> exact ⟨_, rfl⟩
    | zero t => exact ⟨_, rfl⟩
    | finite t n f hn => cases t <;> exact ⟨_, rfl⟩
  | finite s m e hm =>
    cases b with
    | notANumber => exact absurd rfl hb
    | infinity t => cases s <;> cases t <;> exact ⟨_, rfl⟩
    | zero t => cases s <;> exact ⟨_, rfl⟩
    | finite t n f hn => cases s <;> cases t <;> exact ⟨_, rfl⟩

theorem lt_iff_parts : x < y ↔ x.toModel.unpack.compare y.toModel.unpack = some .lt := by
  have hmodel : x < y ↔ x.toModel < y.toModel := decide_eq_true_iff
  exact hmodel.trans (beq_iff_eq (a := x.toModel.unpack.compare y.toModel.unpack))

theorem le_iff_parts : x ≤ y ↔
    ∃ o, x.toModel.unpack.compare y.toModel.unpack = some o ∧ o.isLE := by
  have hmodel : x ≤ y ↔ x.toModel ≤ y.toModel := decide_eq_true_iff
  refine hmodel.trans ?_
  change (x.toModel.unpack.compare y.toModel.unpack).any (·.isLE) = true ↔ _
  cases x.toModel.unpack.compare y.toModel.unpack <;> simp

theorem le_self (h : x.isNaN = false) : x ≤ x := by
  rw [← Bool.not_eq_true, isNaN_iff_parts] at h
  exact le_iff_parts.2 ⟨.eq, compare_self h, rfl⟩

theorem le_of_not_lt (hx : x.isNaN = false) (hy : y.isNaN = false) (h : ¬x < y) : y ≤ x := by
  rw [← Bool.not_eq_true, isNaN_iff_parts] at hx hy
  obtain ⟨o, ho⟩ := compare_isSome hx hy
  refine le_iff_parts.2 ⟨o.swap, by rw [compare_swap, ho]; rfl, ?_⟩
  rw [lt_iff_parts, ho] at h
  cases o with
  | lt => exact absurd rfl h
  | eq => rfl
  | gt => rfl

theorem isNaN_of_le (h : x ≤ y) : x.isNaN = false ∧ y.isNaN = false := by
  obtain ⟨o, ho, -⟩ := le_iff_parts.1 h
  simp only [← Bool.not_eq_true, isNaN_iff_parts]
  constructor
  · intro hx
    rw [hx] at ho
    cases ho
  · intro hy
    rw [compare_swap, hy] at ho
    cases ho

theorem validBounds_iff : validBounds x y ↔ x ≤ y := decide_eq_true_iff

theorem clamp_bounds {lo hi : Float} (h : lo ≤ hi) (hx : x.isNaN = false) :
    lo ≤ clamp x lo hi ∧ clamp x lo hi ≤ hi := by
  obtain ⟨hlo, hhi⟩ := isNaN_of_le h
  unfold clamp
  split
  · exact ⟨le_self hlo, h⟩
  · rename_i hbelow
    split
    · exact ⟨h, le_self hhi⟩
    · rename_i habove
      exact ⟨le_of_not_lt hx hlo hbelow, le_of_not_lt hhi hx habove⟩

/-! ### Infinities -/

theorem packComponents_unpack (b : BitVec Format.binary64.numBits) :
    UnpackedFloat.packComponents Format.binary64 (.ofBitVec (UnpackedFloat.unpackSign b))
      (UnpackedFloat.unpackExponent b) (UnpackedFloat.unpackMantissa b) = b := by
  have hsign : ∀ v : BitVec 1, (UnpackedFloat.Sign.ofBitVec v).toBitVec = v := by decide
  unfold UnpackedFloat.packComponents
  rw [hsign]
  unfold UnpackedFloat.unpackSign UnpackedFloat.unpackExponent UnpackedFloat.unpackMantissa
  ext i hi
  have hwhole : b.getLsbD i = b[i] := BitVec.getLsbD_eq_getElem hi
  have hsize : Format.binary64.mantissaBitsWithoutImplicit = 52 := rfl
  have hwidth : Format.binary64.exponentBits = 11 := rfl
  simp only [BitVec.getElem_append, BitVec.getElem_cast, BitVec.getElem_extract]
  rw [← hwhole]
  split
  · rw [Nat.zero_add]
  · split
    · congr 1
      omega
    · congr 1
      omega

/-- The largest exponent is kept for what is not finite. -/
theorem exponent_of_not_finite {b : BitVec Format.binary64.numBits}
    (h : (UnpackedFloat.unpack Format.binary64 b).isFinite = false) :
    UnpackedFloat.unpackExponent b = -1#_ := by
  apply Decidable.byContradiction
  intro hexponent
  unfold UnpackedFloat.unpack at h
  dsimp only at h
  rw [if_neg hexponent] at h
  by_cases hzero : UnpackedFloat.unpackExponent b = 0#_
  · rw [if_pos hzero] at h
    by_cases hmantissa : UnpackedFloat.unpackMantissa b = 0#_
    · rw [dif_pos hmantissa] at h
      cases h
    · rw [dif_neg hmantissa] at h
      cases h
  · rw [if_neg hzero] at h
    cases h

theorem eq_packedInfinity {s : UnpackedFloat.Sign} {b : BitVec Format.binary64.numBits}
    (h : UnpackedFloat.unpack Format.binary64 b = .infinity s) :
    b = UnpackedFloat.packedInfinity Format.binary64 s := by
  have hexponent := exponent_of_not_finite (b := b) (h ▸ rfl)
  unfold UnpackedFloat.unpack at h
  dsimp only at h
  rw [if_pos hexponent] at h
  by_cases hmantissa : UnpackedFloat.unpackMantissa b = 0#_
  · rw [if_pos hmantissa] at h
    cases h
    have hb := packComponents_unpack b
    rw [hexponent, hmantissa] at hb
    exact hb.symm
  · rw [if_neg hmantissa] at h
    cases h

theorem eq_of_beq_infinity {s : UnpackedFloat.Sign} (h : x == y)
    (hy : y.toModel.unpack = .infinity s) : x = y := by
  have hx : x.toModel.unpack = .infinity s := by
    obtain ⟨-, heq | ⟨_, t, -, ht⟩⟩ := beq_iff_parts.1 h
    · exact heq.trans hy
    · rw [hy] at ht
      cases ht
  have hbits : x.toModel.toBits.toBitVec = y.toModel.toBits.toBitVec :=
    (eq_packedInfinity hx).trans (eq_packedInfinity hy).symm
  obtain ⟨⟨⟨b⟩, _⟩⟩ := x
  obtain ⟨⟨⟨c⟩, _⟩⟩ := y
  cases hbits
  rfl

theorem bounds_of_isUnbounded {v : Variable} (h : v.isUnbounded) :
    v.min = -infinity ∧ v.max = infinity := by
  obtain ⟨hmin, hmax⟩ := Bool.and_eq_true_iff.1 h
  exact ⟨eq_of_beq_infinity (s := .negative) hmin rfl,
    eq_of_beq_infinity (s := .positive) hmax rfl⟩

/-! ### Doubles that are no numbers -/

theorem eq_packedNaN {b : BitVec Format.binary64.numBits} (hvalid : Format.binary64.Valid b)
    (h : UnpackedFloat.unpack Format.binary64 b = .notANumber) :
    b = UnpackedFloat.packedNaN Format.binary64 := by
  have hexponent := exponent_of_not_finite (b := b) (h ▸ rfl)
  unfold UnpackedFloat.unpack at h
  dsimp only at h
  rw [if_pos hexponent] at h
  by_cases hmantissa : UnpackedFloat.unpackMantissa b = 0#_
  · rw [if_pos hmantissa] at h
    cases h
  · exact hvalid.eq_packedNaN hexponent hmantissa

/-- There is one double that is no number. -/
theorem eq_notANumber (h : x.isNaN) : x = notANumber := by
  have hx := eq_packedNaN x.toModel.valid (isNaN_iff_parts.1 h)
  have hn := eq_packedNaN notANumber.toModel.valid
    (isNaN_iff_parts.1 (show notANumber.isNaN from rfl))
  have hbits : x.toModel.toBits.toBitVec = notANumber.toModel.toBits.toBitVec := hx.trans hn.symm
  generalize notANumber = y at hbits
  obtain ⟨⟨⟨b⟩, _⟩⟩ := x
  obtain ⟨⟨⟨c⟩, _⟩⟩ := y
  cases hbits
  rfl

/-- A double that is neither no number nor infinite is finite. -/
theorem isFinite_of_not (hnan : ¬ x.isNaN) (hhigh : ¬ x == infinity) (hlow : ¬ x == -infinity) :
    x.isFinite := by
  change x.toModel.unpack.isFinite = true
  cases hx : x.toModel.unpack with
  | notANumber => exact absurd (isNaN_iff_parts.2 hx) hnan
  | infinity s =>
    cases s with
    | positive => exact absurd (beq_iff_parts.2 ⟨by rw [hx]; rintro ⟨⟩, .inl hx⟩) hhigh
    | negative => exact absurd (beq_iff_parts.2 ⟨by rw [hx]; rintro ⟨⟩, .inl hx⟩) hlow
  | zero s => rfl
  | finite s m e hm => rfl

end Scenario
