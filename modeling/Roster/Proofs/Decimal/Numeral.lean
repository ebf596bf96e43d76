import Mathlib.Algebra.Ring.Int.Defs
import Roster.Decimal.Number

/-!
# Numerals as they are written

Which numerals a strict reader takes, and that it takes all that are written here (`wf_ofNat`,
`wf_ofInt`, `wf_ofFloat`). The last one is about digits only: whichever decimal stands for a
double, laying it out never gives a leading zero before another digit, nor a point or an
exponent without digits.

Integers are read back from their numerals as long as they fit 64 bits (`toNumber?_ofNat`,
`toNumber?_ofInt`).
-/

namespace Roster.Decimal

/-- At least one digit, and nothing but digits. -/
structure IsDigits (ds : List Char) : Prop where
  ne_nil : ds ≠ []
  isDigit : ∀ c ∈ ds, c.isDigit

/-- A numeral that the strict grammar of JSON allows. -/
structure Numeral.Wf (n : Numeral) : Prop where
  whole : IsDigits n.whole
  lead : n.whole.head? = some '0' → n.whole = ['0']
  fraction : ∀ ds, n.fraction = some ds → IsDigits ds
  exponent : ∀ negative ds, n.exponent = some (negative, ds) → IsDigits ds

variable {ds : List Char} {n : Nat}

/-! ## Digits -/

theorem isDigits_iff : IsDigits ds ↔ (ds.isEmpty || !ds.all Char.isDigit) = false := by
  simp only [Bool.or_eq_false_iff, List.isEmpty_eq_false_iff, Bool.not_eq_false', List.all_eq_true]
  exact ⟨fun h => ⟨h.ne_nil, h.isDigit⟩, fun h => ⟨h.1, h.2⟩⟩

/-- A number is written in digits, at least in one. -/
theorem isDigits_toDigits (n : Nat) : IsDigits (Nat.toDigits 10 n) :=
  ⟨Nat.toDigits_ne_nil, fun _ hc => Nat.isDigit_of_mem_toDigits (by decide) (by decide) hc⟩

theorem IsDigits.append {es : List Char} (h : IsDigits ds) (he : ∀ c ∈ es, c.isDigit) :
    IsDigits (ds ++ es) := by
  refine ⟨by simp [h.ne_nil], fun c hc => ?_⟩
  rcases List.mem_append.mp hc with hc | hc
  · exact h.isDigit c hc
  · exact he c hc

theorem isDigit_of_mem_replicate {c : Char} (h : c ∈ List.replicate n '0') : c.isDigit := by
  rw [List.eq_of_mem_replicate h]
  rfl

theorem digitChar_ne_zero : ∀ m, m < 10 → m ≠ 0 → Nat.digitChar m ≠ '0' := by
  decide

/-- A number is not written with a zero in front, unless it is zero. -/
theorem head?_toDigits (h : n ≠ 0) : (Nat.toDigits 10 n).head? ≠ some '0' := by
  induction n using Nat.base_induction 10 (by decide) with
  | single m hm =>
    rw [Nat.toDigits_of_lt_base hm]
    simpa using digitChar_ne_zero m hm h
  | digit m k hk hm ih =>
    have hhead := ih (by omega)
    rw [← Nat.toDigits_append_toDigits (by decide) hm hk, List.head?_append]
    cases hd : Nat.toDigits 10 m with
    | nil => exact absurd hd Nat.toDigits_ne_nil
    | cons c ds =>
      rw [hd] at hhead
      exact hhead

/-- A number written with a leading zero is zero. -/
theorem eq_of_head?_toDigits (h : (Nat.toDigits 10 n).head? = some '0') :
    Nat.toDigits 10 n = ['0'] := by
  by_cases hn : n = 0
  · rw [hn, Nat.toDigits_zero]
  · exact absurd h (head?_toDigits hn)

/-! ## The written forms -/

/-- A natural number is written as a numeral. -/
theorem wf_ofNat (n : Nat) : (Numeral.ofNat n).Wf :=
  ⟨isDigits_toDigits n, eq_of_head?_toDigits, nofun, nofun⟩

/-- An integer is written as a numeral. -/
theorem wf_ofInt (n : Int) : (Numeral.ofInt n).Wf :=
  ⟨isDigits_toDigits n.natAbs, eq_of_head?_toDigits, nofun, nofun⟩

theorem isDigits_zero : IsDigits ['0'] :=
  ⟨by simp, by simp⟩

theorem Numeral.Wf.withSign {n : Numeral} (h : n.Wf) (negative : Bool) : { n with negative }.Wf :=
  ⟨h.whole, h.lead, h.fraction, h.exponent⟩

/-- Digits with a point set among them are a numeral, if they do not begin with a zero. -/
theorem wf_placePoint {style : Style} {point : Int} (h : IsDigits ds)
    (hlead : ds.head? ≠ some '0') :
    ({ whole := (placePoint style ds point).1
       fraction := (placePoint style ds point).2 } : Numeral).Wf := by
  unfold placePoint
  split
  -- All digits stand behind the point, with a zero of their own before it.
  · refine ⟨isDigits_zero, fun _ => rfl, ?_, nofun⟩
    rintro fs hfs
    cases hfs
    exact ⟨by simp [h.ne_nil], fun c hc => (List.mem_append.mp hc).elim isDigit_of_mem_replicate
      (h.isDigit c)⟩
  · obtain ⟨d, ds', rfl⟩ := List.exists_cons_of_ne_nil h.ne_nil
    split
    · refine ⟨h.append fun c => isDigit_of_mem_replicate, fun hd => absurd hd hlead, ?_, nofun⟩
      intro fs hfs
      dsimp only at hfs
      split at hfs
      · cases hfs
        exact isDigits_zero
      · cases hfs
    · next hpoint hlong =>
      -- The point is between two digits, so that there are some on either side.
      obtain ⟨k, hk⟩ := Nat.exists_eq_succ_of_ne_zero (n := point.toNat) (by omega)
      refine ⟨⟨by simp [hk], fun c hc => h.isDigit c (List.mem_of_mem_take hc)⟩, ?_, ?_, nofun⟩
      · intro hd
        dsimp only at hd
        rw [hk, List.take_succ_cons] at hd
        exact absurd hd hlead
      · rintro fs hfs
        cases hfs
        refine ⟨?_, fun c hc => h.isDigit c (List.mem_of_mem_drop hc)⟩
        rw [Ne, List.drop_eq_nil_iff]
        exact hlong

/-- Digits in the scientific form are a numeral, if they do not begin with a zero. -/
theorem wf_scientific {point : Int} (h : IsDigits ds) (hlead : ds.head? ≠ some '0') :
    (scientific ds point).Wf := by
  obtain ⟨d, ds', rfl⟩ := List.exists_cons_of_ne_nil h.ne_nil
  refine ⟨⟨by simp [scientific], fun c hc => h.isDigit c (List.mem_of_mem_take hc)⟩,
    fun hd => absurd hd hlead, ?_, ?_⟩
  · rintro fs hfs
    simp only [scientific] at hfs
    split at hfs
    · cases hfs
    · next hlong =>
      cases hfs
      refine ⟨?_, fun c hc => h.isDigit c (List.mem_of_mem_drop hc)⟩
      rw [Ne, List.drop_eq_nil_iff]
      exact hlong
  · rintro negative es hes
    cases hes
    exact isDigits_toDigits _

/-- **Every double is written as a numeral that a strict reader takes.** -/
theorem wf_ofFloat (style : Style) (x : Float) : (Numeral.ofFloat style x).Wf := by
  simp only [Numeral.ofFloat]
  split
  · refine ⟨isDigits_zero, fun _ => rfl, ?_, nofun⟩
    rintro fs hfs
    dsimp only at hfs
    split at hfs
    · cases hfs
      exact isDigits_zero
    · cases hfs
  · next hne =>
    split
    · exact (wf_placePoint (isDigits_toDigits _) (head?_toDigits hne)).withSign _
    · exact (wf_scientific (isDigits_toDigits _) (head?_toDigits hne)).withSign _

/-! ## Integers -/

/-- Digits are taken into the significand as long as there is room for all of them. -/
theorem gather_eq {significand taken : Nat}
    (h : Nat.ofDigitChars 10 ds significand < UInt64.size) :
    gather significand taken ds = (Nat.ofDigitChars 10 ds significand, taken + ds.length, []) := by
  induction ds generalizing significand taken with
  | nil => simp [gather]
  | cons d rest ih =>
    rw [Nat.ofDigitChars_cons, Nat.mul_comm] at h ⊢
    have hnext : significand * 10 + (d.toNat - '0'.toNat) < UInt64.size := by
      -- The digits that are still to come make the number no smaller.
      refine Nat.lt_of_le_of_lt ?_ h
      rw [Nat.ofDigitChars_eq_ofDigitChars_zero]
      have hpos : 0 < 10 ^ rest.length := Nat.pow_pos (by decide)
      exact Nat.le_trans (Nat.le_mul_of_pos_left _ hpos) (Nat.le_add_right _ _)
    rw [gather, if_pos hnext, ih h, List.length_cons]
    congr 2
    omega

/-- The digits of a number are gathered without anything left over, if it fits. -/
theorem gather_toDigits (h : n < UInt64.size) :
    gather 0 0 (Nat.toDigits 10 n) = (n, (Nat.toDigits 10 n).length, []) := by
  rw [gather_eq (by simpa using h), Nat.ofDigitChars_ten_toDigits, Nat.zero_add]

/-- A natural number that fits is read back. -/
theorem toNumber?_ofNat (h : n < UInt64.size) :
    (Numeral.ofNat n).toNumber? = some (.natural n) := by
  simp [Numeral.ofNat, Numeral.toNumber?, gather_toDigits h]

/-- An integer of 64 bits is read back. -/
theorem toInt?_ofInt {n : Int} (hlow : -2 ^ 63 ≤ n) (hhigh : n < 2 ^ 63) :
    (Numeral.ofInt n).toNumber?.bind Number.toInt? = some n := by
  have hsize : n.natAbs < UInt64.size := by
    simp only [UInt64.size]
    omega
  simp only [Numeral.ofInt, Numeral.toNumber?, gather_toDigits hsize]
  by_cases hneg : n < 0
  · have hnot : (decide (n.natAbs = 0) || decide (Nat.pow 2 63 < n.natAbs)) = false := by
      simp only [Nat.pow_eq, Bool.or_eq_false_iff, decide_eq_false_iff_not]
      omega
    simp only [hneg, decide_true, Bool.not_true, Bool.false_eq_true, if_false, hnot,
      Option.bind_some, Number.toInt?]
    congr 1
    omega
  · simp only [hneg, decide_false, Bool.not_false, if_true, Option.bind_some, Number.toInt?]
    congr 1
    omega

end Roster.Decimal
