import Roster.Proofs.Decimal.Arithmetic

/-!
# Doubles

A finite double is a sign and a magnitude, `double s b`, and this is the only form in which anything
is proved about doubles: `Binary.ofFloat` gets the magnitude out of the bits (`double_ofFloat`), and
no two forms are one double (`ofFloat_double`).

So every operation can be read as one on magnitudes, which is how it is stated here: the result is
the double that the exact result rounds to, unless it is too large.
-/

namespace Roster.Decimal

open Float.Model (Format UnpackedFloat)
open Float.Model.UnpackedFloat (Sign unpackExponent unpackMantissa unpackSign)

/-! ## The three fields -/

/-- The exponent that a mask cuts out is that of the format. -/
theorem toNat_exponentField (bits : UInt64) :
    ((bits >>> 52) &&& 0x7FF).toNat = (@unpackExponent .binary64 bits.toBitVec).toNat := by
  have hmask := Nat.and_two_pow_sub_one_eq_mod (bits.toNat >>> 52) 11
  norm_num at hmask
  rw [UInt64.toNat_and, UInt64.toNat_shiftRight, UnpackedFloat.unpackExponent_def]
  simp [BitVec.extractLsb'_toNat, hmask]

/-- The fraction that a mask cuts out is that of the format. -/
theorem toNat_fractionField (bits : UInt64) :
    (bits &&& 0xFFFFFFFFFFFFF).toNat =
      (@unpackMantissa .binary64 bits.toBitVec).toNat := by
  have hmask := Nat.and_two_pow_sub_one_eq_mod bits.toNat 52
  norm_num at hmask
  rw [UInt64.toNat_and, UnpackedFloat.unpackMantissa_def]
  simp [BitVec.extractLsb'_toNat, hmask]

theorem signField (bits : UInt64) :
    (bits >>> 63 == 1) = decide (@unpackSign .binary64 bits.toBitVec ≠ 0#1) := by
  have hlt : bits.toNat >>> 63 < 2 := by
    have := bits.toNat_lt
    rw [Nat.shiftRight_eq_div_pow]
    omega
  rw [Bool.eq_iff_iff, beq_iff_eq, decide_eq_true_iff, ← UInt64.toNat_inj, ne_eq,
    ← BitVec.toNat_inj, UnpackedFloat.unpackSign_def]
  simp [BitVec.extractLsb'_toNat]
  omega

theorem toNat_hiddenBit (fraction : BitVec 52) :
    (1#1 ++ fraction).toNat = 2 ^ 52 + fraction.toNat := by
  have := fraction.isLt
  rw [BitVec.toNat_append, ← Nat.shiftLeft_add_eq_or_of_lt fraction.isLt]
  simp [Nat.shiftLeft_eq]

variable {x : Float} {b : Binary} {s : Sign}

/-- The sign of a double as its bit says it, which a zero has too. -/
def sign (x : Float) : Sign :=
  if signBit x then .negative else .positive

theorem ofBitVec_unpackSign (x : Float) :
    Sign.ofBitVec (@unpackSign .binary64 x.toBits.toBitVec) = sign x := by
  rw [sign, signBit, signField, Sign.ofBitVec]
  by_cases h : @unpackSign .binary64 x.toBits.toBitVec = 0#1 <;> simp [h]

/-! ## Out of the bits -/

/-- A canonical magnitude that is not too large. -/
structure Binary.Finite (b : Binary) : Prop extends b.Canonical where
  q_le : b.q ≤ 971

/-- The number whose exponent and fraction have these bits; the least exponent has no hidden bit. -/
def Binary.ofFields (exponent fraction : ℕ) : Binary :=
  if exponent = 0 then .ofParts fraction (-1074) else .ofParts (2 ^ 52 + fraction) (exponent - 1075)

theorem Binary.finite_ofFields {exponent fraction : ℕ} (he : exponent < 2047)
    (hf : fraction < 2 ^ 52) :
    (ofFields exponent fraction).Finite := by
  unfold ofFields
  split
  · exact ⟨canonical_ofParts (by omega) le_rfl (.inr rfl), by simp [ofParts]⟩
  · refine ⟨canonical_ofParts (by omega) (by omega) (.inl (by omega)), ?_⟩
    change (exponent : ℤ) - 1075 ≤ 971
    omega

/-- A double is taken apart by the fields of the format. -/
theorem ofFloat_eq (x : Float) :
    Binary.ofFloat x = .ofFields (@unpackExponent .binary64 x.toBits.toBitVec).toNat
      (@unpackMantissa .binary64 x.toBits.toBitVec).toNat := by
  simp only [Binary.ofFloat, toNat_exponentField, toNat_fractionField, Binary.ofFields]
  split
  · simp [Binary.ofParts]
  · rw [Binary.ofParts, Binary.mk.injEq]
    refine ⟨rfl, rfl, ?_⟩
    rw [Bool.eq_iff_iff]
    simp
    omega

theorem Binary.unpacked_eq_finite {m : ℕ} {e : ℤ} (s : Sign) (hm : b.m = m) (hq : b.q = e)
    (hpos : 0 < m) : b.unpacked s = .finite s m e hpos := by
  subst hm hq
  exact unpacked_of_ne_zero s hpos.ne'

/-- Fields that are not those of an infinity or of no number. -/
theorem unpack_eq {bits : BitVec 64} (h : @unpackExponent .binary64 bits ≠ -1#_) :
    UnpackedFloat.unpack .binary64 bits =
      (Binary.ofFields (@unpackExponent .binary64 bits).toNat
        (@unpackMantissa .binary64 bits).toNat).unpacked
        (Sign.ofBitVec (@unpackSign .binary64 bits)) := by
  unfold UnpackedFloat.unpack
  rw [if_neg h]
  generalize @unpackExponent .binary64 bits = exponent
  split
  · next hzero =>
    have hexponent : exponent.toNat = 0 := by
      rw [hzero]
      rfl
    rw [Binary.ofFields, if_pos hexponent]
    split
    · next hfraction =>
      refine (Binary.unpacked_of_eq_zero _ ?_).symm
      rw [hfraction]
      rfl
    · symm
      apply Binary.unpacked_eq_finite
      · rfl
      · simp [Binary.ofParts, hexponent, Format.exponentBias]
  · next hne =>
    have hexponent : exponent.toNat ≠ 0 := fun heq => hne (BitVec.eq_of_toNat_eq heq)
    rw [Binary.ofFields, if_neg hexponent]
    refine (Binary.unpacked_eq_finite _ (toNat_hiddenBit _).symm ?_ _).symm
    simp [Binary.ofParts, Format.exponentBias]

/-- **A finite double is its sign and its magnitude.** -/
theorem unpack_of_isFinite (h : x.isFinite) :
    x.toModel.unpack = (Binary.ofFloat x).unpacked (sign x) ∧ (Binary.ofFloat x).Finite := by
  change (UnpackedFloat.unpack .binary64 x.toBits.toBitVec).isFinite at h
  have hall : @unpackExponent .binary64 x.toBits.toBitVec ≠ -1#_ := by
    intro hall
    unfold UnpackedFloat.unpack at h
    rw [if_pos hall] at h
    split at h <;> cases h
  have hlt : (@unpackExponent .binary64 x.toBits.toBitVec).toNat < 2047 := by
    have hle := (@unpackExponent .binary64 x.toBits.toBitVec).isLt
    -- All exponents are left but the one with all bits set.
    refine Nat.lt_of_le_of_ne (Nat.le_of_lt_succ hle) fun heq => hall (BitVec.eq_of_toNat_eq ?_)
    rw [heq]
    rfl
  rw [ofFloat_eq, ← ofBitVec_unpackSign]
  exact ⟨unpack_eq hall, Binary.finite_ofFields hlt (BitVec.isLt _)⟩

/-! ## Into the bits -/

/-- The double with a sign and a magnitude. One that is too large is infinite. -/
def double (s : Sign) (b : Binary) : Float :=
  .ofModel (.pack (b.unpacked s))

/-- A finite double is made of its sign and of its magnitude. -/
theorem double_ofFloat (h : x.isFinite) : double (sign x) (Binary.ofFloat x) = x := by
  rw [double, ← (unpack_of_isFinite h).1]
  refine Float.toBits_inj.mp (UInt64.toBitVec_inj.mp ?_)
  exact UnpackedFloat.pack_unpack_of_valid x.toModel.valid

/-- What is put together of fields stands for the number that they have. -/
theorem unpack_packComponents (s : Sign) {exponent : BitVec 11} {fraction : BitVec 52}
    (h : exponent ≠ -1#_) :
    UnpackedFloat.unpack .binary64 (UnpackedFloat.packComponents .binary64 s exponent fraction) =
      (Binary.ofFields exponent.toNat fraction.toNat).unpacked s := by
  rw [unpack_eq (by rwa [UnpackedFloat.unpackExponent_packComponents]),
    UnpackedFloat.unpackExponent_packComponents, UnpackedFloat.unpackMantissa_packComponents,
    UnpackedFloat.unpackSign_packComponents, Sign.ofBitVec_toBitVec]

/-- A finite number comes back out of its bits. -/
theorem Binary.Finite.pack (h : b.Finite) (s : Sign) :
    UnpackedFloat.unpack .binary64 (UnpackedFloat.pack .binary64 (b.unpacked s)) =
      b.unpacked s := by
  have hlt := h.m_lt
  have hle := h.le_q
  have hge := h.q_le
  by_cases hzero : b.m = 0
  · rw [unpacked_of_eq_zero s hzero]
    exact UnpackedFloat.unpack_packedZero
  rw [unpacked_of_ne_zero s hzero, UnpackedFloat.pack]
  have hbiased : (b.q + Format.binary64.exponentBias +
      Format.binary64.mantissaBitsWithoutImplicit).toNat = (b.q + 1075).toNat := by
    simp [Format.exponentBias, add_assoc]
  have hbits : b.m.log2 + 1 = Format.binary64.mantissaBits ↔ 2 ^ 52 ≤ b.m := by
    rw [← Nat.le_log2 hzero]
    have hlog := (Nat.log2_lt hzero).mpr hlt
    simp only [Format.mantissaBits]
    omega
  simp only [hbiased, hbits]
  rw [if_neg (by norm_num; omega)]
  split
  · next hnormal =>
    -- The leading bit is not stored, as the exponent tells of it.
    have hexponent : (BitVec.ofNat 11 (b.q + 1075).toNat).toNat = (b.q + 1075).toNat := by
      rw [BitVec.toNat_ofNat, Nat.mod_eq_of_lt (by omega)]
    have hfraction : (BitVec.ofNat 52 b.m).toNat = b.m - 2 ^ 52 := by
      rw [BitVec.toNat_ofNat]
      omega
    have hne : BitVec.ofNat 11 (b.q + 1075).toNat ≠ -1#_ := by
      intro heq
      rw [heq] at hexponent
      have hall : (-1#11).toNat = 2047 := rfl
      omega
    have hm : 2 ^ 52 + (b.m - 2 ^ 52) = b.m := by omega
    have hq : ((b.q + 1075).toNat : ℤ) - 1075 = b.q := by omega
    rw [unpack_packComponents s hne, hexponent, hfraction, ofFields, if_neg (by omega), hm, hq,
      ← h.toCanonical.eq_ofParts, unpacked_of_ne_zero s hzero]
  · next hsubnormal =>
    -- Without its leading bit a magnitude has the least exponent, which is stored as no exponent.
    have hq : b.q = -1074 := h.normal.resolve_left hsubnormal
    have hfraction : (BitVec.ofNat 52 b.m).toNat = b.m := by
      rw [BitVec.toNat_ofNat, Nat.mod_eq_of_lt (by omega)]
    rw [unpack_packComponents s (by decide), hfraction]
    exact unpacked_eq_finite s rfl hq.symm _

/-- A double that is made of a sign and a magnitude stands for them. -/
theorem unpack_double (h : b.Finite) (s : Sign) : (double s b).toModel.unpack = b.unpacked s :=
  h.pack s

/-- A double that is made of a finite magnitude is finite. -/
theorem isFinite_double (h : b.Finite) (s : Sign) : (double s b).isFinite := by
  change (double s b).toModel.unpack.isFinite
  rw [unpack_double h, Binary.unpacked]
  split <;> rfl

/-- What a number stands for determines its sign and its canonical magnitude. -/
theorem Binary.unpacked_injective {c : Binary} {t : Sign} (hb : b.Canonical) (hc : c.Canonical)
    (h : b.unpacked s = c.unpacked t) : s = t ∧ b = c := by
  have hparts : s = t ∧ b.m = c.m ∧ (b.m = 0 ∨ b.q = c.q) := by
    unfold unpacked at h
    split at h <;> split at h
    · next hzb hzc =>
      cases h
      exact ⟨rfl, hzb.trans hzc.symm, .inl hzb⟩
    · cases h
    · cases h
    · injection h with hs hm hq
      exact ⟨hs, hm, .inr hq⟩
  obtain ⟨hs, hm, hq⟩ := hparts
  refine ⟨hs, hb.eq_of_value_eq hc ?_⟩
  rcases hq with hzero | hq
  · rw [value_of_eq_zero hzero, value_of_eq_zero (hm.symm.trans hzero)]
  · rw [value, value, hm, hq]

/-- **A finite double has one magnitude and one sign.** -/
theorem ofFloat_double (h : b.Finite) (s : Sign) :
    Binary.ofFloat (double s b) = b ∧ sign (double s b) = s := by
  obtain ⟨hunpack, hfinite⟩ := unpack_of_isFinite (isFinite_double h s)
  rw [unpack_double h] at hunpack
  obtain ⟨hs, hb⟩ := Binary.unpacked_injective h.toCanonical hfinite.toCanonical hunpack
  exact ⟨hb.symm, hs.symm⟩

/-! ## What is too large -/

/-- The least number that is too large for a double, half way from the largest one to the
    next power of two. -/
def overflow : ℚ :=
  (2 ^ 54 - 1) * 2 ^ 970

namespace Binary

/-- The largest magnitude of a finite double. -/
def largest : Binary :=
  ofParts (2 ^ 53 - 1) 971

/-- The power of two after the largest double. -/
def next : Binary :=
  ofParts (2 ^ 52) 972

theorem canonical_largest : largest.Canonical :=
  canonical_ofParts (by norm_num) (by norm_num) (.inl (by norm_num))

theorem canonical_next : next.Canonical :=
  canonical_ofParts (by norm_num) (by norm_num) (.inl (by norm_num))

/-- Everything from `overflow` on is beyond the largest double. -/
theorem high_largest : largest.high = overflow := by
  change ((2 ^ 53 - 1 : ℕ) + 1 / 2 : ℚ) * 2 ^ (971 : ℤ) = (2 ^ 54 - 1) * 2 ^ 970
  rw [zpow_ofNat, pow_succ 2 970]
  generalize (2 : ℚ) ^ 970 = scale
  push_cast
  ring

/-- Of the two that are as near the largest double is odd. -/
theorem takes_overflow : next.Takes overflow := by
  have hpos : (0 : ℚ) < 2 ^ 970 := by positivity
  have hscale : (2 : ℚ) ^ (972 : ℤ) = 4 * 2 ^ 970 := by
    rw [zpow_ofNat, pow_add 2 970 2, mul_comm, sq]
    norm_num
  refine ⟨.inr ⟨rfl, ?_⟩, .inl ?_⟩
  · change ((2 ^ 52 : ℕ) - 1 / 4 : ℚ) * 2 ^ (972 : ℤ) = (2 ^ 54 - 1) * 2 ^ 970
    rw [hscale]
    generalize (2 : ℚ) ^ 970 = scale
    push_cast
    ring
  · change ((2 ^ 54 - 1) * 2 ^ 970 : ℚ) < ((2 ^ 52 : ℕ) + 1 / 2) * 2 ^ (972 : ℤ)
    rw [hscale]
    generalize (2 : ℚ) ^ 970 = scale at *
    push_cast
    linarith only [hpos]

/-- **A number rounds to a finite double exactly if it is not too large.** -/
theorem Takes.finite_iff {v : ℚ} (h : b.Takes v) (hb : b.Canonical) : b.Finite ↔ v < overflow := by
  constructor
  · intro hfinite
    by_contra hle
    have hvalue := takes_overflow.mono h canonical_next hb (not_lt.mp hle)
    have hq : 972 ≤ b.q := canonical_next.q_le hb hvalue
    have := hfinite.q_le
    omega
  · intro hlt
    refine ⟨hb, ?_⟩
    by_contra hq
    have hlow := (high_le_low canonical_largest hb (canonical_largest.value_lt hb (not_le.mp hq))).1
    rw [high_largest] at hlow
    rcases h.low with hinside | ⟨-, heq⟩
    · linarith
    · linarith

/-- Magnitudes that are too large are packed as infinities. -/
theorem Canonical.pack_of_large (h : b.Canonical) (hq : 971 < b.q) (s : Sign) :
    UnpackedFloat.pack .binary64 (b.unpacked s) = UnpackedFloat.packedInfinity .binary64 s := by
  have hm : 2 ^ 52 ≤ b.m := h.normal.resolve_right (by omega)
  have hbiased : (b.q + Format.binary64.exponentBias +
      Format.binary64.mantissaBitsWithoutImplicit).toNat = (b.q + 1075).toNat := by
    simp [Format.exponentBias, add_assoc]
  rw [unpacked_of_ne_zero s (by omega), UnpackedFloat.pack]
  simp only [hbiased]
  rw [if_pos (by norm_num; omega)]

end Binary

theorem unpack_packedInfinity (s : Sign) :
    UnpackedFloat.unpack .binary64 (UnpackedFloat.packedInfinity .binary64 s) = .infinity s := by
  simp [UnpackedFloat.packedInfinity, UnpackedFloat.unpack,
    UnpackedFloat.unpackExponent_packComponents, UnpackedFloat.unpackMantissa_packComponents,
    UnpackedFloat.unpackSign_packComponents, Sign.ofBitVec_toBitVec]

theorem unpack_packedNaN :
    UnpackedFloat.unpack .binary64 (UnpackedFloat.packedNaN .binary64) = .notANumber := by
  simp [UnpackedFloat.packedNaN, UnpackedFloat.unpack, UnpackedFloat.unpackExponent_packComponents,
    UnpackedFloat.unpackMantissa_packComponents]

/-- **The double of a magnitude is finite exactly if the magnitude is.** -/
theorem isFinite_double_iff (h : b.Canonical) : (double s b).isFinite ↔ b.Finite := by
  refine ⟨fun hfinite => ⟨h, ?_⟩, fun hb => isFinite_double hb s⟩
  by_contra hq
  change (UnpackedFloat.unpack .binary64 (UnpackedFloat.pack .binary64 (b.unpacked s))).isFinite
    at hfinite
  rw [h.pack_of_large (not_le.mp hq), unpack_packedInfinity] at hfinite
  cases hfinite

end Roster.Decimal
