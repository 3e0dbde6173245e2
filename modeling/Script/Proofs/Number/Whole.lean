import Script.Number.Arithmetic
import Script.Number.Numeral
import Script.Number.Text

/-!
# Whole numbers

A whole number that is not too large is written with its decimal digits, and the digits are read
back as the same number.  The arithmetic of doubles is that of their unpacked form, a mantissa with
an exponent: a whole number below `2 ^ 53` has an exact one, so neither the conversion of an integer
nor the product with one rounds it.

## Main results

* `Binary.ofFloat_eq`: the value of a double is that of its unpacked form.
* `Number.beq_iff`: which doubles are equal, by their unpacked forms.
* `Number.toNat?_ofScientific`: the double that is made from a whole number is that number.
* `Number.beq_of_toNat?`: doubles that are the same whole number are equal.
* `Numeral.read?_digitsOf`: the digits of a whole number are read as that number.
-/

namespace Script

open Float.Model (UnpackedFloat Format totalExponent)
open Float.Model.UnpackedFloat

namespace Binary

theorem pow_two_ne_zero (k : Nat) : Nat.pow 2 k ≠ 0 := Nat.ne_of_gt (Nat.pow_pos (by decide))

/-! ## The fields of a double -/

/-- The value of an unpacked double. -/
def ofUnpacked : UnpackedFloat → Binary
  | .infinity sign => infinite (sign == .negative)
  | .notANumber => nan
  | .zero sign => finite (sign == .negative) 0 minExponent
  | .finite sign mantissa exponent _ => finite (sign == .negative) mantissa exponent

theorem ofUnpacked_zero (sign : Sign) :
    ofUnpacked (.zero sign) = finite (sign == .negative) 0 minExponent := rfl

theorem ofUnpacked_finite (sign : Sign) (m : Nat) (e : Int) (hpos : 0 < m) :
    ofUnpacked (.finite sign m e hpos) = finite (sign == .negative) m e := rfl

theorem toNat_unpackMantissa (b : BitVec 64) :
    (@unpackMantissa .binary64 b).toNat = b.toNat % Nat.pow 2 52 := by
  simp [unpackMantissa]

theorem toNat_unpackExponent (b : BitVec 64) :
    (@unpackExponent .binary64 b).toNat = b.toNat / Nat.pow 2 52 % Nat.pow 2 11 := by
  simp [unpackExponent, Nat.shiftRight_eq_div_pow]

theorem toNat_unpackSign (b : BitVec 64) :
    (@unpackSign .binary64 b).toNat = b.toNat / Nat.pow 2 63 % 2 := by
  show (BitVec.cast _ (BitVec.extractLsb 63 63 b)).toNat = _
  simp [Nat.shiftRight_eq_div_pow]

theorem ofBitVec_beq_negative (v : BitVec 1) : (Sign.ofBitVec v == .negative) = (v.toNat == 1) := by
  revert v
  decide

/-- A one in front of the bits of a mantissa. -/
theorem toNat_append_one {k : Nat} (m : BitVec k) : (1#1 ++ m).toNat = Nat.pow 2 k + m.toNat := by
  rw [BitVec.toNat_append, ← Nat.shiftLeft_add_eq_or_of_lt m.isLt]
  simp [Nat.shiftLeft_eq]

theorem toNat_append_one_pos {k : Nat} (m : BitVec k) : 0 < (1#1 ++ m).toNat := by
  rw [toNat_append_one]
  exact Nat.add_pos_left (Nat.pos_of_ne_zero (pow_two_ne_zero k)) _

theorem toNat_pos {k : Nat} {m : BitVec k} (h : m ≠ 0#k) : 0 < m.toNat :=
  Nat.pos_of_ne_zero fun hzero => h (BitVec.eq_of_toNat_eq (by simpa using hzero))

/-- The sign of a double is unpacked as it was packed. -/
theorem ofBitVec_unpackSign (sign : Sign) (e : BitVec 11) (m : BitVec 52) :
    Sign.ofBitVec (@unpackSign .binary64 (packComponents .binary64 sign e m)) = sign := by
  have hbit : @unpackSign .binary64 (packComponents .binary64 sign e m) = sign.toBitVec := by
    show BitVec.cast _ (BitVec.extractLsb 63 63 (sign.toBitVec ++ e ++ m)) = _
    apply BitVec.eq_of_getLsbD_eq
    intro i hi
    obtain rfl : i = 0 := by omega
    rw [BitVec.getLsbD_cast, BitVec.getLsbD_extractLsb]
    simp only [BitVec.getLsbD_append]
    rfl
  rw [hbit]
  cases sign <;> rfl

/-- What the fields of a double stand for. -/
theorem unpack_eq (b : BitVec 64) : unpack .binary64 b =
    if @unpackExponent .binary64 b = -1#11 then
      if @unpackMantissa .binary64 b = 0#52 then .infinity (.ofBitVec (@unpackSign .binary64 b))
      else .notANumber
    else if @unpackExponent .binary64 b = 0#11 then
      if h : @unpackMantissa .binary64 b = 0#52 then .zero (.ofBitVec (@unpackSign .binary64 b))
      else .finite (.ofBitVec (@unpackSign .binary64 b)) (@unpackMantissa .binary64 b).toNat
        ((@unpackExponent .binary64 b).toNat - 1075 + 1) (toNat_pos h)
    else .finite (.ofBitVec (@unpackSign .binary64 b)) (1#1 ++ @unpackMantissa .binary64 b).toNat
      ((@unpackExponent .binary64 b).toNat - 1075) (toNat_append_one_pos _) := rfl

/-- **The value of a double is that of its unpacked form.** -/
theorem ofFloat_eq (x : Float) : ofFloat x = ofUnpacked x.toModel.unpack := by
  obtain ⟨bits, hbits⟩ : ∃ bits : BitVec 64, x.toModel.toBits.toBitVec = bits := ⟨_, rfl⟩
  have hnat : x.toBits.toNat = bits.toNat := by
    rw [← hbits]
    rfl
  have hexponent := toNat_unpackExponent bits
  have hmantissa := toNat_unpackMantissa bits
  have hsign := toNat_unpackSign bits
  have hall : @unpackExponent .binary64 bits = -1#11 ↔
      (@unpackExponent .binary64 bits).toNat = 2047 := BitVec.toNat_inj.symm
  have hnone : @unpackExponent .binary64 bits = 0#11 ↔
      (@unpackExponent .binary64 bits).toNat = 0 := BitVec.toNat_inj.symm
  have hzero : @unpackMantissa .binary64 bits = 0#52 ↔
      (@unpackMantissa .binary64 bits).toNat = 0 := BitVec.toNat_inj.symm
  unfold ofFloat Float.Model.unpack
  dsimp only
  rw [hnat, hbits, unpack_eq, ← hsign, ← ofBitVec_beq_negative, ← hexponent, ← hmantissa]
  -- the exponent field tells special, small and all other doubles apart
  by_cases hspecial : @unpackExponent .binary64 bits = -1#11
  · rw [if_pos hspecial, if_pos (hall.mp hspecial)]
    by_cases hfraction : @unpackMantissa .binary64 bits = 0#52
    · rw [if_pos hfraction, if_pos (hzero.mp hfraction)]
      rfl
    · rw [if_neg hfraction, if_neg (mt hzero.mpr hfraction)]
      rfl
  · rw [if_neg hspecial, if_neg (mt hall.mpr hspecial)]
    by_cases hsmall : @unpackExponent .binary64 bits = 0#11
    · rw [if_pos hsmall, if_pos (hnone.mp hsmall)]
      by_cases hfraction : @unpackMantissa .binary64 bits = 0#52
      · rw [dif_pos hfraction, hfraction]
        rfl
      · rw [dif_neg hfraction, hsmall]
        rfl
    · rw [if_neg hsmall, if_neg (mt hnone.mpr hsmall), ← toNat_append_one]
      rfl

/-- The mantissas and exponents of doubles: a mantissa of 53 bits, unless the exponent is least. -/
def Canonical (mantissa : Nat) (exponent : Int) : Prop :=
  (Nat.pow 2 52 ≤ mantissa ∧ mantissa < Nat.pow 2 53) ∨
    (mantissa < Nat.pow 2 52 ∧ exponent = minExponent)

theorem canonical_of_ofFloat {x : Float} {negative : Bool} {m : Nat} {e : Int}
    (h : ofFloat x = finite negative m e) : Canonical m e := by
  have hfraction : x.toBits.toNat % Nat.pow 2 52 < Nat.pow 2 52 := Nat.mod_lt _ (by decide)
  have hpow : Nat.pow 2 53 = Nat.pow 2 52 + Nat.pow 2 52 := rfl
  simp only [ofFloat] at h
  split at h
  · split at h <;> cases h
  · split at h
    · cases h
      exact .inr ⟨hfraction, rfl⟩
    · cases h
      exact .inl ⟨by omega, by omega⟩

/-! ## Whole numbers and their mantissas -/

/-- The whole number `n` is `± mantissa * 2 ^ exponent`. -/
theorem toNat?_finite_eq_some_iff {negative : Bool} {m n : Nat} {e : Int} :
    (finite negative m e).toNat? = some n ↔
      (negative = true → m = 0) ∧ m * Nat.pow 2 e.toNat = n * Nat.pow 2 (-e).toNat := by
  have hsign : (!negative || m == 0) = true ↔ (negative = true → m = 0) := by
    cases negative <;> simp
  cases e with
  | ofNat k =>
    have hneg : (-Int.ofNat k).toNat = 0 := by simp
    have hpos : (Int.ofNat k).toNat = k := rfl
    rw [hneg, hpos, show Nat.pow 2 0 = 1 from rfl, Nat.mul_one]
    simp only [toNat?, isWhole, wholePart, Bool.true_and, Option.ite_none_right_eq_some,
      Option.some.injEq, hsign]
  | negSucc k =>
    have hneg : (-Int.negSucc k).toNat = k + 1 := rfl
    have hpos : (Int.negSucc k).toNat = 0 := rfl
    have hpow : 0 < Nat.pow 2 (k + 1) := Nat.pos_of_ne_zero (pow_two_ne_zero _)
    rw [hneg, hpos]
    simp only [toNat?, isWhole, wholePart, Bool.and_eq_true, Option.ite_none_right_eq_some,
      Option.some.injEq, hsign, beq_iff_eq]
    rw [show Nat.pow 2 0 = 1 from rfl, Nat.mul_one]
    generalize Nat.pow 2 (k + 1) = d at hpow
    constructor
    · rintro ⟨⟨hmod, hzero⟩, rfl⟩
      exact ⟨hzero, (Nat.div_mul_cancel (Nat.dvd_of_mod_eq_zero hmod)).symm⟩
    · rintro ⟨hzero, rfl⟩
      exact ⟨⟨Nat.mul_mod_left n d, hzero⟩, Nat.mul_div_cancel n hpow⟩

theorem log2_mul_pow {m : Nat} (hm : m ≠ 0) (k : Nat) : (m * Nat.pow 2 k).log2 = m.log2 + k := by
  have hpow : 0 < 2 ^ k := Nat.two_pow_pos k
  have hlog := (Nat.log2_eq_iff hm).mp rfl
  rw [Nat.pow_eq, Nat.log2_eq_iff (Nat.mul_ne_zero hm (Nat.ne_of_gt hpow))]
  constructor
  · rw [Nat.pow_add]
    exact Nat.mul_le_mul_right _ hlog.1
  · rw [Nat.add_right_comm, Nat.pow_add]
    exact Nat.mul_lt_mul_of_pos_right hlog.2 hpow

/-- The exponent of a positive whole number is that of its leading bit. -/
theorem exponent_eq {m n : Nat} {e : Int} (hm : Canonical m e) (hn : n ≠ 0)
    (h : m * Nat.pow 2 e.toNat = n * Nat.pow 2 (-e).toNat) : e = (n.log2 : Int) - 52 := by
  rcases hm with hnormal | ⟨hsmall, rfl⟩
  · have hmne : m ≠ 0 := by
      rintro rfl
      exact absurd hnormal.1 (by decide)
    have hlog : m.log2 = 52 := (Nat.log2_eq_iff hmne).mpr hnormal
    have hboth := congrArg Nat.log2 h
    rw [log2_mul_pow hmne, log2_mul_pow hn, hlog] at hboth
    omega
  · -- a double with the least exponent is less than one
    have hexponent : 52 ≤ (-minExponent).toNat := by decide
    have hzero : minExponent.toNat = 0 := rfl
    rw [hzero, show Nat.pow 2 0 = 1 from rfl, Nat.mul_one] at h
    generalize (-minExponent).toNat = k at h hexponent
    have hpow : Nat.pow 2 52 ≤ Nat.pow 2 k := Nat.pow_le_pow_right (by decide) hexponent
    have hone : Nat.pow 2 k ≤ n * Nat.pow 2 k :=
      Nat.le_mul_of_pos_left _ (Nat.pos_of_ne_zero hn)
    omega

/-- A whole number has one mantissa and one exponent. -/
theorem canonical_unique {m m' n : Nat} {e e' : Int} (hm : Canonical m e) (hm' : Canonical m' e')
    (hn : n ≠ 0) (h : m * Nat.pow 2 e.toNat = n * Nat.pow 2 (-e).toNat)
    (h' : m' * Nat.pow 2 e'.toNat = n * Nat.pow 2 (-e').toNat) : m = m' ∧ e = e' := by
  obtain rfl := exponent_eq hm hn h
  obtain rfl := exponent_eq hm' hn h'
  exact ⟨Nat.eq_of_mul_eq_mul_right (Nat.pos_of_ne_zero (pow_two_ne_zero _)) (h.trans h'.symm), rfl⟩

/-! ## Conversions that do not round -/

/-- Bits that are zero are shifted out without a trace. -/
theorem shiftRight_mul_pow (m k : Nat) :
    (⟨m * Nat.pow 2 k, false, false⟩ : ExtendedMantissa) >>> k = ⟨m, false, false⟩ := by
  show Nat.repeat ExtendedMantissa.shiftRightOne k _ = _
  induction k generalizing m with
  | zero => simp [Nat.repeat]
  | succ k ih =>
    have hpow : m * Nat.pow 2 (k + 1) = m * 2 * Nat.pow 2 k := by
      rw [Nat.pow_eq, Nat.pow_eq, Nat.pow_succ, Nat.mul_assoc, Nat.mul_comm (2 ^ k)]
    rw [hpow, Nat.repeat, ih]
    simp [ExtendedMantissa.shiftRightOne]

theorem shiftToTargetExponent_mul_pow {m : Nat} {e : Int} (hm : Nat.pow 2 52 ≤ m)
    (hm' : m < Nat.pow 2 53) (he : minExponent ≤ e) (k : Nat) :
    shiftToTargetExponent .binary64 (m * Nat.pow 2 k) (e - k) .exact = (⟨m, false, false⟩, e) := by
  have hmne : m ≠ 0 := by
    rintro rfl
    exact absurd hm (by decide)
  have hlog : (m * Nat.pow 2 k).log2 = 52 + k := by
    rw [log2_mul_pow hmne, (Nat.log2_eq_iff hmne).mpr ⟨hm, hm'⟩]
  have htarget : Format.binary64.targetExponent (totalExponent (m * Nat.pow 2 k) (e - k)) = e := by
    have hbits : Format.binary64.mantissaBits = 53 := rfl
    have hmin : Format.binary64.minExponent = minExponent := rfl
    rw [Format.targetExponent, totalExponent, hlog, hbits, hmin]
    omega
  have hamount : (e - (e - (k : Int))).toNat = k := by omega
  rw [shiftToTargetExponent, htarget, shiftToExponent]
  rw [hamount, ExtendedMantissa.ofMantissaAndAccuracy, shiftRight_mul_pow]
  congr 1
  omega

/-- A mantissa with zeros behind it is rounded to itself. -/
theorem roundWithAccuracy_mul_pow (sign : Sign) {m : Nat} {e : Int} (hm : Nat.pow 2 52 ≤ m)
    (hm' : m < Nat.pow 2 53) (he : minExponent ≤ e) (k : Nat) :
    roundWithAccuracy .binary64 sign (m * Nat.pow 2 k) (e - k) .exact =
      .finite sign m e (Nat.lt_of_lt_of_le (by decide) hm) := by
  have hagain : shiftToTargetExponent .binary64 m e .exact = (⟨m, false, false⟩, e) := by
    have h := shiftToTargetExponent_mul_pow hm hm' he 0
    rwa [show Nat.pow 2 0 = 1 from rfl, Nat.mul_one, Int.natCast_zero, Int.sub_zero] at h
  have hrounded : (⟨m, false, false⟩ : ExtendedMantissa).roundedMantissa = m := rfl
  have hne : m ≠ 0 := by
    rintro rfl
    exact absurd hm (by decide)
  rw [roundWithAccuracy, shiftToTargetExponent_mul_pow hm hm' he]
  dsimp only
  rw [hrounded, hagain]
  exact dif_neg hne

theorem finite_congr {sign sign' : Sign} {m m' : Nat} {e e' : Int} {hpos : 0 < m} {hpos' : 0 < m'}
    (hsign : sign = sign') (hm : m = m') (he : e = e') :
    UnpackedFloat.finite sign m e hpos = .finite sign' m' e' hpos' := by
  subst hsign hm he
  rfl

/-- The leading bit of a mantissa of 53 bits need not be kept. -/
theorem toNat_append_ofNat {m : Nat} (hm : Nat.pow 2 52 ≤ m) (hm' : m < Nat.pow 2 53) :
    (1#1 ++ BitVec.ofNat 52 m).toNat = m := by
  have hdiv : m / Nat.pow 2 52 = 1 := by
    have hpow : Nat.pow 2 53 = (1 + 1) * Nat.pow 2 52 := rfl
    exact Nat.div_eq_of_lt_le (by rwa [Nat.one_mul]) (by rwa [← hpow])
  have hsplit := Nat.div_add_mod m (Nat.pow 2 52)
  rw [hdiv, Nat.mul_one] at hsplit
  rw [toNat_append_one, BitVec.toNat_ofNat]
  exact hsplit

/-- The fields of a double with a mantissa of 53 bits. -/
theorem pack_finite (sign : Sign) {m biased : Nat} {e : Int} (hm : Nat.pow 2 52 ≤ m)
    (hm' : m < Nat.pow 2 53) (hbiased : e + 1023 + 52 = biased) (hless : biased < 2047) :
    pack .binary64 (.finite sign m e (Nat.lt_of_lt_of_le (by decide) hm)) =
      packComponents .binary64 sign (BitVec.ofNat 11 biased) (BitVec.ofNat 52 m) := by
  have hlog : m.log2 + 1 = Format.binary64.mantissaBits := by
    have hmne : m ≠ 0 := by
      rintro rfl
      exact absurd hm (by decide)
    rw [(Nat.log2_eq_iff hmne).mpr ⟨hm, hm'⟩]
    rfl
  have hfits : ¬ 2 ^ 11 ≤ biased + 1 := by omega
  show (if 2 ^ 11 ≤ (e + 1023 + 52).toNat + 1 then packedInfinity .binary64 sign
    else if m.log2 + 1 = Format.binary64.mantissaBits then
      packComponents .binary64 sign (BitVec.ofNat 11 (e + 1023 + 52).toNat) (BitVec.ofNat 52 m)
    else packComponents .binary64 sign 0#11 (BitVec.ofNat 52 m)) = _
  rw [hbiased, Int.toNat_natCast, if_neg hfits, if_pos hlog]

/-- A double with a mantissa of 53 bits is unpacked as it was packed. -/
theorem unpack_pack (sign : Sign) {m : Nat} {e : Int} (hm : Nat.pow 2 52 ≤ m)
    (hm' : m < Nat.pow 2 53) (he : minExponent ≤ e) (he' : e ≤ 971) :
    (Float.Model.pack (.finite sign m e (Nat.lt_of_lt_of_le (by decide) hm))).unpack =
      .finite sign m e (Nat.lt_of_lt_of_le (by decide) hm) := by
  have hmin : minExponent = -1074 := rfl
  obtain ⟨biased, hbiased⟩ : ∃ biased : Nat, e + 1023 + 52 = biased :=
    ⟨(e + 1023 + 52).toNat, by omega⟩
  have hexponent : (BitVec.ofNat 11 biased).toNat = biased := by
    rw [BitVec.toNat_ofNat, Nat.mod_eq_of_lt (by omega)]
  -- all ones and all zeros stand for other kinds of doubles
  have hspecial : BitVec.ofNat 11 biased ≠ -1#11 := by
    intro h
    have hnat := congrArg BitVec.toNat h
    rw [hexponent] at hnat
    have hall : (-1#11).toNat = 2047 := rfl
    omega
  have hsmall : BitVec.ofNat 11 biased ≠ 0#11 := by
    intro h
    have hnat := congrArg BitVec.toNat h
    rw [hexponent] at hnat
    have hnone : (0#11).toNat = 0 := rfl
    omega
  have hbits : (Float.Model.pack (.finite sign m e (Nat.lt_of_lt_of_le (by decide) hm))).unpack =
      unpack .binary64 (pack .binary64 (.finite sign m e (Nat.lt_of_lt_of_le (by decide) hm))) :=
    rfl
  rw [hbits, pack_finite sign hm hm' hbiased (by omega), unpack_eq, unpackExponent_packComponents,
    if_neg hspecial, if_neg hsmall]
  refine finite_congr (ofBitVec_unpackSign _ _ _) ?_ ?_
  · rw [unpackMantissa_packComponents]
    exact toNat_append_ofNat hm hm'
  · rw [hexponent]
    omega

/-- The mantissa of a whole number, with its leading bit in the place of `2 ^ 52`. -/
def wholeMantissa (n : Nat) : Nat := n * Nat.pow 2 (52 - n.log2)

theorem wholeMantissa_bounds {n : Nat} (hn : n ≠ 0) (hn' : n < Nat.pow 2 53) :
    n.log2 ≤ 52 ∧ Nat.pow 2 52 ≤ wholeMantissa n ∧ wholeMantissa n < Nat.pow 2 53 := by
  have hlog : n.log2 ≤ 52 := Nat.le_of_lt_succ ((Nat.log2_lt hn).mpr hn')
  have hne : wholeMantissa n ≠ 0 := Nat.mul_ne_zero hn (pow_two_ne_zero _)
  have hlog' : (wholeMantissa n).log2 = 52 := by
    rw [wholeMantissa, log2_mul_pow hn]
    omega
  exact ⟨hlog, (Nat.log2_eq_iff hne).mp hlog'⟩

/-- A whole number below `2 ^ 53` is converted without rounding. -/
theorem ofNat_eq {n : Nat} (hn : n ≠ 0) (hn' : n < Nat.pow 2 53)
    (hpos : 0 < wholeMantissa n) :
    UnpackedFloat.ofNat .binary64 n =
      .finite .positive (wholeMantissa n) ((n.log2 : Int) - 52) hpos := by
  obtain ⟨hlog, hm, hm'⟩ := wholeMantissa_bounds hn hn'
  have hcompare : compare (n : Int) 0 = .gt := Int.compare_eq_gt.mpr (by omega)
  have htarget : Format.binary64.targetExponent (totalExponent n 0) = (n.log2 : Int) - 52 := by
    have hbits : Format.binary64.mantissaBits = 53 := rfl
    have hmin : Format.binary64.minExponent = -1074 := rfl
    rw [Format.targetExponent, totalExponent, hbits, hmin]
    omega
  have hdecrease : decreaseExponent n 0 ((n.log2 : Int) - 52) =
      (wholeMantissa n, (n.log2 : Int) - 52) := by
    have hamount : (0 - ((n.log2 : Int) - 52)).toNat = 52 - n.log2 := by omega
    rw [decreaseExponent, hamount, Nat.shiftLeft_eq, wholeMantissa]
    congr 1
    omega
  have hround := roundWithAccuracy_mul_pow .positive hm hm'
    (show minExponent ≤ (n.log2 : Int) - 52 by rw [minExponent]; omega) 0
  rw [show Nat.pow 2 0 = 1 from rfl, Nat.mul_one, Int.natCast_zero, Int.sub_zero] at hround
  rw [UnpackedFloat.ofNat, ofInt, UnpackedFloat.normalize, hcompare]
  show UnpackedFloat.round .binary64 .positive n 0 = _
  rw [UnpackedFloat.round, htarget, hdecrease]
  exact hround

/-- **A numeral for a whole number** below `2 ^ 53` is not rounded. -/
theorem unpack_ofScientific {n : Nat} (hn : n ≠ 0) (hn' : n < Nat.pow 2 53)
    (hpos : 0 < wholeMantissa n) :
    (Float.ofScientific n false 0).toModel.unpack =
      .finite .positive (wholeMantissa n) ((n.log2 : Int) - 52) hpos := by
  obtain ⟨hlog, hm, hm'⟩ := wholeMantissa_bounds hn hn'
  have he : minExponent ≤ (n.log2 : Int) - 52 := by rw [minExponent]; omega
  have he' : (n.log2 : Int) - 52 ≤ 971 := by omega
  have hone : (Float.ofBits 0x3FF0000000000000).toModel.unpack =
      .finite .positive (Nat.pow 2 52) (-52) (by decide) := rfl
  have hnat : n.toUInt64.toNat = n := by
    have hpow : Nat.pow 2 53 < 2 ^ 64 := by decide
    rw [Nat.toUInt64_eq, UInt64.toNat_ofNat', Nat.mod_eq_of_lt (Nat.lt_trans hn' hpow)]
  have hleft : n.toUInt64.toFloat.toModel.unpack =
      .finite .positive (wholeMantissa n) ((n.log2 : Int) - 52) hpos := by
    show (Float.Model.pack (UnpackedFloat.ofNat .binary64 n.toUInt64.toNat)).unpack = _
    rw [hnat, ofNat_eq hn hn' hpos]
    exact unpack_pack .positive hm hm' he he'
  have hproduct : Float.ofScientific n false 0 =
      n.toUInt64.toFloat * Float.ofBits 0x3FF0000000000000 := by
    rw [Float.ofScientific, dif_pos ⟨hn', by decide⟩]
    rfl
  have hround := roundWithAccuracy_mul_pow .positive hm hm' he 52
  rw [hproduct]
  show (Float.Model.pack (mul .binary64 n.toUInt64.toFloat.toModel.unpack
    (Float.ofBits 0x3FF0000000000000).toModel.unpack)).unpack = _
  rw [hleft, hone]
  show (Float.Model.pack (roundWithAccuracy .binary64 .positive (wholeMantissa n * Nat.pow 2 52)
    ((n.log2 : Int) - 52 - (52 : Nat)) .exact)).unpack = _
  rw [hround]
  exact unpack_pack .positive hm hm' he he'

end Binary

namespace Number

open Binary

/-! ## Equal doubles -/

theorem then_compare_eq_eq {e e' : Int} {m m' : Nat} :
    (compare e e').then (compare m m') = .eq ↔ e = e' ∧ m = m' := by
  rw [Ordering.then_eq_eq, Std.compare_eq_iff_eq, Std.compare_eq_iff_eq]

/-- Mantissas and exponents are compared one after the other, the other way around if the sign is
negative. -/
theorem compare_finite_eq_some_eq {s t : Sign} {m m' : Nat} {e e' : Int} {hm : 0 < m}
    {hm' : 0 < m'} :
    (UnpackedFloat.finite s m e hm).compare (.finite t m' e' hm') = some .eq ↔
      s = t ∧ e = e' ∧ m = m' := by
  rw [← then_compare_eq_eq]
  cases s <;> cases t
  case negative.negative =>
    show some ((compare e e').then (compare m m')).swap = some .eq ↔ _
    simp
  case positive.positive =>
    show some ((compare e e').then (compare m m')) = some .eq ↔ _
    simp
  case negative.positive | positive.negative =>
    constructor
    · intro h
      cases h
    · intro h
      cases h.1

/-- Two doubles are equal if their unpacked forms are the same, or if both are zeros; NaN is equal
to nothing. -/
theorem beq_iff (x y : Float) : (x == y) = true ↔
    x.toModel.unpack ≠ .notANumber ∧ y.toModel.unpack ≠ .notANumber ∧
      (x.toModel.unpack = y.toModel.unpack ∨
        x.toModel.unpack = .zero .positive ∧ y.toModel.unpack = .zero .negative ∨
        x.toModel.unpack = .zero .negative ∧ y.toModel.unpack = .zero .positive) := by
  show (x.toModel.unpack.compare y.toModel.unpack == some .eq) = true ↔ _
  generalize x.toModel.unpack = a, y.toModel.unpack = b
  rw [beq_iff_eq]
  constructor
  · intro h
    cases a with
    | notANumber => cases h
    | infinity s =>
      cases b with
      | infinity t =>
        have hst : s = t := by cases s <;> cases t <;> cases h <;> rfl
        exact ⟨UnpackedFloat.noConfusion, UnpackedFloat.noConfusion, .inl (congrArg _ hst)⟩
      | _ => cases s <;> cases h
    | zero s =>
      cases b with
      | infinity t | finite t => cases t <;> cases h
      | notANumber => cases h
      | zero t => cases s <;> cases t <;> simp
    | finite s m e hm =>
      cases b with
      | infinity t => cases t <;> cases h
      | zero t => cases s <;> cases h
      | notANumber => cases h
      | finite t m' e' hm' =>
        obtain ⟨hs, he, hm⟩ := compare_finite_eq_some_eq.mp h
        exact ⟨UnpackedFloat.noConfusion, UnpackedFloat.noConfusion, .inl (finite_congr hs hm he)⟩
  · rintro ⟨ha, -, rfl | ⟨rfl, rfl⟩ | ⟨rfl, rfl⟩⟩
    · cases a with
      | notANumber => exact absurd rfl ha
      | infinity s => cases s <;> rfl
      | zero => rfl
      | finite => exact compare_finite_eq_some_eq.mpr ⟨rfl, rfl, rfl⟩
    · rfl
    · rfl

/-! ## Whole numbers -/

theorem toNat?_ofScientific {n : Nat} (hn : n < Nat.pow 2 53) :
    toNat? (Float.ofScientific n false 0) = some n := by
  rcases Nat.eq_zero_or_pos n with rfl | hpos
  · decide +kernel
  · have hne : n ≠ 0 := Nat.ne_of_gt hpos
    obtain ⟨hlog, hm, -⟩ := wholeMantissa_bounds hne hn
    rw [toNat?, ofFloat_eq, unpack_ofScientific hne hn (Nat.lt_of_lt_of_le (by decide) hm),
      ofUnpacked_finite, toNat?_finite_eq_some_iff]
    refine ⟨fun h => absurd h (by decide), ?_⟩
    have hup : ((n.log2 : Int) - 52).toNat = 0 := by omega
    have hdown : (-((n.log2 : Int) - 52)).toNat = 52 - n.log2 := by omega
    rw [hup, hdown, show Nat.pow 2 0 = 1 from rfl, Nat.mul_one, wholeMantissa]

/-- The unpacked form of a double that is a whole number. -/
theorem unpack_of_toNat? {x : Float} {n : Nat} (h : toNat? x = some n) :
    (n = 0 ∧ ∃ sign, x.toModel.unpack = .zero sign) ∨
      (n ≠ 0 ∧ ∃ m e hpos, x.toModel.unpack = .finite .positive m e hpos ∧ Canonical m e ∧
        m * Nat.pow 2 e.toNat = n * Nat.pow 2 (-e).toNat) := by
  rw [toNat?] at h
  have hvalue := ofFloat_eq x
  cases hunpack : x.toModel.unpack with
  | infinity sign | notANumber =>
    rw [hvalue, hunpack] at h
    cases h
  | zero sign =>
    rw [hvalue, hunpack, ofUnpacked_zero, toNat?_finite_eq_some_iff, Nat.zero_mul] at h
    refine .inl ⟨?_, sign, rfl⟩
    exact (Nat.mul_eq_zero.mp h.2.symm).resolve_right (pow_two_ne_zero _)
  | finite sign m e hpos =>
    rw [hunpack, ofUnpacked_finite] at hvalue
    rw [hvalue, toNat?_finite_eq_some_iff] at h
    have hmne : m ≠ 0 := Nat.ne_of_gt hpos
    have hsign : sign = .positive := by
      cases sign with
      | positive => rfl
      | negative => exact absurd (h.1 rfl) hmne
    subst hsign
    refine .inr ⟨?_, m, e, hpos, rfl, canonical_of_ofFloat hvalue, h.2⟩
    rintro rfl
    rw [Nat.zero_mul] at h
    exact (Nat.mul_ne_zero hmne (pow_two_ne_zero _)) h.2

/-- **Doubles that are the same whole number are equal**, also if they are zeros of different
signs. -/
theorem beq_of_toNat? {x y : Float} {n : Nat} (hx : toNat? x = some n) (hy : toNat? y = some n) :
    (x == y) = true := by
  rcases unpack_of_toNat? hx with ⟨rfl, sign, hx⟩ | ⟨hn, m, e, hpos, hx, hm, hvalue⟩
  · rcases unpack_of_toNat? hy with ⟨-, sign', hy⟩ | ⟨hn, -⟩
    · show UnpackedFloat.beq x.toModel.unpack y.toModel.unpack = true
      rw [hx, hy]
      rfl
    · exact absurd rfl hn
  · rcases unpack_of_toNat? hy with ⟨rfl, -⟩ | ⟨-, m', e', hpos', hy, hm', hvalue'⟩
    · exact absurd rfl hn
    · obtain ⟨rfl, rfl⟩ := canonical_unique hm hm' hn hvalue hvalue'
      rw [beq_iff, hx, hy]
      exact ⟨UnpackedFloat.noConfusion, UnpackedFloat.noConfusion, .inl rfl⟩

/-- A double that is equal to a whole number is that number. -/
theorem toNat?_of_beq {x y : Float} {n : Nat} (h : (x == y) = true) (hy : toNat? y = some n) :
    toNat? x = some n := by
  rw [toNat?, ofFloat_eq] at hy ⊢
  have hzero : ∀ sign, (ofUnpacked (.zero sign)).toNat? = some 0 := by
    intro sign
    rw [ofUnpacked_zero, toNat?_finite_eq_some_iff]
    exact ⟨fun _ => rfl, by rw [Nat.zero_mul, Nat.zero_mul]⟩
  -- equal doubles have the same unpacked form, but for zeros of different signs
  obtain ⟨-, -, heq | ⟨hx, hy'⟩ | ⟨hx, hy'⟩⟩ := (beq_iff x y).mp h
  · rwa [heq]
  · rw [hy', hzero] at hy
    rw [hx, hzero, hy]
  · rw [hy', hzero] at hy
    rw [hx, hzero, hy]

/-- A whole number is written with its digits. -/
theorem text_of_toNat? {x : Float} {n : Nat} (h : toNat? x = some n) (hn : n < exactLimit) :
    text x = String.ofList (digitsOf n) := by
  rw [toNat?] at h
  unfold text
  cases hvalue : ofFloat x with
  | nan | infinite negative =>
    rw [hvalue] at h
    cases h
  | finite negative m e =>
    rw [hvalue, Binary.toNat?] at h
    simp only [Option.ite_none_right_eq_some, Option.some.injEq, Bool.and_eq_true] at h
    obtain ⟨⟨hwhole, hsign⟩, rfl⟩ := h
    have hplain : (negative && decide (m ≠ 0)) = false := by
      cases negative with
      | false => rfl
      | true => simpa using hsign
    simp only [magnitude, hwhole, hn, hplain]
    rfl

end Number

namespace Numeral

theorem accumulate_eq_ofDigitChars (n : Nat) (digits : List Char) :
    accumulate n digits = Nat.ofDigitChars 10 digits n := by
  rw [accumulate, Nat.ofDigitChars_eq_foldl]

theorem isDigit_of_mem_digitsOf {n : Nat} : ∀ c ∈ Number.digitsOf n, c.isDigit = true :=
  fun _ hc => Nat.isDigit_of_mem_toDigits (by decide) (by decide) hc

theorem isRun_digitsOf (n : Nat) : isRun (Number.digitsOf n) = true := by
  have hne : Number.digitsOf n ≠ [] := Nat.toDigits_ne_nil
  simpa [isRun, hne] using isDigit_of_mem_digitsOf

/-- **The digits of a whole number** are read as the number. -/
theorem read?_digitsOf (n : Nat) :
    read? (String.ofList (Number.digitsOf n)) = some (Float.ofScientific n false 0) := by
  have htake : (Number.digitsOf n ++ []).takeWhile Char.isDigit = Number.digitsOf n ++ [] :=
    List.takeWhile_append_of_pos isDigit_of_mem_digitsOf
  have hdrop : (Number.digitsOf n ++ []).dropWhile Char.isDigit = [] :=
    List.dropWhile_append_of_pos isDigit_of_mem_digitsOf
  rw [List.append_nil] at htake hdrop
  have hvalue : accumulate 0 (Number.digitsOf n) = n := by
    rw [accumulate_eq_ofDigitChars]
    exact Nat.ofDigitChars_ten_toDigits
  rw [read?, String.toList_ofList, ofChars?]
  simp only [htake, hdrop, isRun_digitsOf, hvalue, if_true]

end Numeral

end Script
