import Roster.Proofs.Decimal.Nearest

/-!
# Texts of doubles

Many texts are one number: there can be a plus sign and zeros in front, a point with digits on one
side only, an exponent after either letter. A text is taken for a finite double exactly if it is
among the `forms` of a numeral and that numeral is not too large (`exists_read?_iff`), and the
double is the one that the numeral rounds to (`read?_eq_some_iff`). So the texts are told by their
grammar and by one number, and no double is needed for it.

The words for infinities and for what is no number are read too. Of these only this is said, that no
finite double comes of them.
-/

namespace Roster.Decimal

open Float.Model.UnpackedFloat (Sign)

variable {ds es cs rest sign : List Char} {b : Binary} {e : ℤ} {negative : Bool} {x y : Float}

/-! ## Spellings -/

/-- A sign in writing: a plus sign may be left out. -/
def signs : Bool → List (List Char)
  | true => [['-']]
  | false => [[], ['+']]

/-- An exponent in writing: after either letter. -/
def exponentForms : Option (Bool × List Char) → List (List Char)
  | none => [[]]
  | some (negative, ds) =>
    ['e', 'E'].flatMap fun letter => (signs negative).map fun sign => letter :: (sign ++ ds)

namespace Numeral

/-- There is a digit on one side of the point at least, and one in the exponent if that is
    written. -/
structure Readable (n : Numeral) : Prop where
  digits : IsDigits (n.whole ++ n.fraction.getD [])
  exponent : ∀ negative ds, n.exponent = some (negative, ds) → IsDigits ds

/-- The digits of a numeral, with its point. -/
def places (n : Numeral) : List Char :=
  n.whole ++ (n.fraction.map ('.' :: ·)).getD []

/-- How a numeral can be spelt. -/
def forms (n : Numeral) : List (List Char) :=
  (signs n.negative).flatMap fun sign => (exponentForms n.exponent).map fun exponent =>
    sign ++ (n.places ++ exponent)

end Numeral

/-! ## Signs -/

/-- A sign, and what follows it. -/
def takeSign (cs : List Char) : Bool × List Char :=
  match cs with
  | '-' :: r => (true, r)
  | '+' :: r => (false, r)
  | r => (false, r)

theorem mem_signs_of_takeSign (h : takeSign cs = (negative, rest)) :
    ∃ sign ∈ signs negative, cs = sign ++ rest := by
  unfold takeSign at h
  split at h <;> cases h
  · exact ⟨['-'], by simp [signs], rfl⟩
  · exact ⟨['+'], by simp [signs], rfl⟩
  · exact ⟨[], by simp [signs], rfl⟩

/-- Whatever stands after a sign must not look like one. -/
theorem takeSign_append (hsign : sign ∈ signs negative)
    (hrest : ∀ c, rest.head? = some c → c ≠ '-' ∧ c ≠ '+') :
    takeSign (sign ++ rest) = (negative, rest) := by
  cases negative with
  | true =>
    rw [List.mem_singleton.mp hsign]
    rfl
  | false =>
    rcases List.mem_pair.mp hsign with rfl | rfl
    · rw [List.nil_append]
      unfold takeSign
      split
      · exact absurd rfl (hrest _ rfl).1
      · exact absurd rfl (hrest _ rfl).2
      · rfl
    · rfl

theorem head_of_isDigit (hdigits : IsDigits ds) : ∀ c, ds.head? = some c → c ≠ '-' ∧ c ≠ '+' := by
  intro c hc
  have hdigit := hdigits.isDigit c (List.mem_of_mem_head? hc)
  constructor <;> rintro rfl <;> cases hdigit

/-! ## Exponents -/

/-- An exponent is read if and only if digits stand there, perhaps after a sign. -/
theorem readExponent_eq_some_iff :
    readExponent cs = some e ↔
      ∃ negative ds, IsDigits ds ∧ (∃ sign ∈ signs negative, cs = sign ++ ds) ∧
      e = if negative then -(natOfDigits ds : ℤ) else natOfDigits ds := by
  have hread {negative : Bool} {ds : List Char} (h : takeSign cs = (negative, ds)) :
      readExponent cs =
      if ds.isEmpty || !ds.all Char.isDigit then none
      else some (if negative then -(natOfDigits ds : ℤ) else natOfDigits ds) := by
    change (if (takeSign cs).2.isEmpty || !(takeSign cs).2.all Char.isDigit then none
      else some (if (takeSign cs).1 then -(natOfDigits (takeSign cs).2 : ℤ)
        else natOfDigits (takeSign cs).2)) = _
    rw [h]
  constructor
  · intro h
    rcases hsign : takeSign cs with ⟨negative, ds⟩
    rw [hread hsign] at h
    split at h
    · cases h
    · next hnot =>
      cases h
      exact ⟨negative, ds, isDigits_iff.mpr (by simpa using hnot), mem_signs_of_takeSign hsign, rfl⟩
  · rintro ⟨negative, ds, hds, ⟨sign, hsign, rfl⟩, rfl⟩
    rw [hread (takeSign_append hsign (head_of_isDigit hds)), isDigits_iff.mp hds]
    rfl

/-- The exponent that ends a numeral, if there is one. -/
def readTail : List Char → Option ℤ
  | [] => some 0
  | c :: r => if c == 'e' || c == 'E' then readExponent r else none

/-- What follows the digits is read if and only if it is one of the ways to write an exponent. -/
theorem readTail_eq_some_iff :
    readTail cs = some e ↔ ∃ exponent,
      (∀ negative ds, exponent = some (negative, ds) → IsDigits ds) ∧
      cs ∈ exponentForms exponent ∧ e = ({ whole := [], exponent } : Numeral).power := by
  constructor
  · intro h
    cases cs with
    | nil =>
      cases h
      exact ⟨none, nofun, List.mem_singleton_self _, rfl⟩
    | cons c r =>
      rw [readTail] at h
      split at h
      · next hletter =>
        obtain ⟨negative, ds, hds, ⟨sign, hsign, rfl⟩, rfl⟩ := readExponent_eq_some_iff.mp h
        refine ⟨some (negative, ds), ?_, ?_, rfl⟩
        · rintro _ _ ⟨⟩
          exact hds
        · simp only [exponentForms, List.mem_flatMap, List.mem_map]
          exact ⟨c, by simpa using hletter, sign, hsign, rfl⟩
      · cases h
  · rintro ⟨exponent, hdigits, hform, rfl⟩
    cases exponent with
    | none =>
      rw [List.mem_singleton.mp hform]
      rfl
    | some written =>
      obtain ⟨negative, ds⟩ := written
      simp only [exponentForms, List.mem_flatMap, List.mem_map] at hform
      obtain ⟨letter, hletter, sign, hsign, rfl⟩ := hform
      rw [readTail, if_pos (by simpa using hletter), readExponent_eq_some_iff]
      exact ⟨negative, ds, hdigits _ _ rfl, ⟨sign, hsign, rfl⟩, rfl⟩

/-! ## Digits and the point -/

theorem digitRun_append (hds : ∀ c ∈ ds, c.isDigit)
    (hes : ∀ c, es.head? = some c → c.isDigit = false) :
    digitRun (ds ++ es) = (ds, es) := by
  rw [digitRun, List.span_eq_takeWhile_dropWhile, List.takeWhile_append_of_pos hds,
    List.dropWhile_append_of_pos hds]
  cases es with
  | nil => simp
  | cons c es => simp [hes c rfl]

/-- The run of digits is the longest one. -/
theorem digitRun_eq_iff : digitRun cs = (ds, es) ↔
    cs = ds ++ es ∧ (∀ c ∈ ds, c.isDigit) ∧ ∀ c, es.head? = some c → c.isDigit = false := by
  constructor
  · intro h
    rw [digitRun, List.span_eq_takeWhile_dropWhile] at h
    cases h
    refine ⟨List.takeWhile_append_dropWhile.symm, fun c hc => List.mem_takeWhile_imp hc,
      fun c hc => ?_⟩
    have := List.head?_dropWhile_not Char.isDigit cs
    rw [hc] at this
    simpa using this
  · rintro ⟨rfl, hds, hes⟩
    exact digitRun_append hds hes

/-- The digits after a point, if there is one. -/
def takeFraction (cs : List Char) : List Char × List Char :=
  match cs with
  | '.' :: r => digitRun r
  | r => ([], r)

/-- Digits are read as all of them in one number, at an exponent that counts those after the
    point. -/
theorem readDigits_eq {whole fraction after afterWhole : List Char}
    (hwhole : digitRun cs = (whole, afterWhole))
    (hfraction : takeFraction afterWhole = (fraction, after)) :
    readDigits cs = if whole.isEmpty && fraction.isEmpty then none
      else (readTail after).map fun e => nearest (whole ++ fraction) (e - fraction.length) := by
  have hread : readDigits cs =
      if (digitRun cs).1.isEmpty && (takeFraction (digitRun cs).2).1.isEmpty then none
      else match (takeFraction (digitRun cs).2).2 with
        | [] => some (nearest ((digitRun cs).1 ++ (takeFraction (digitRun cs).2).1)
            (0 - (takeFraction (digitRun cs).2).1.length))
        | c :: r => if c == 'e' || c == 'E' then
            (readExponent r).map fun e =>
              nearest ((digitRun cs).1 ++ (takeFraction (digitRun cs).2).1)
              (e - (takeFraction (digitRun cs).2).1.length)
          else none := rfl
  rw [hread, hwhole, hfraction]
  cases after with
  | nil => rfl
  | cons c r =>
    dsimp only [readTail]
    cases hletter : c == 'e' || c == 'E' <;> rfl

theorem takeFraction_append {fraction : Option (List Char)}
    (hdigits : ∀ c ∈ fraction.getD [], c.isDigit)
    (hrest : ∀ c, rest.head? = some c → c.isDigit = false ∧ c ≠ '.') :
    takeFraction ((fraction.map ('.' :: ·)).getD [] ++ rest) = (fraction.getD [], rest) := by
  cases fraction with
  | none =>
    change takeFraction rest = ([], rest)
    unfold takeFraction
    split
    · exact absurd rfl (hrest _ rfl).2
    · rfl
  | some ds => exact digitRun_append hdigits fun c hc => (hrest c hc).1

/-- A fraction that is taken has been written after a point, or not at all. -/
theorem exists_of_takeFraction {afterWhole fraction after : List Char}
    (h : takeFraction afterWhole = (fraction, after)) :
    ∃ written : Option (List Char), written.getD [] = fraction ∧ (∀ c ∈ fraction, c.isDigit) ∧
      afterWhole = (written.map ('.' :: ·)).getD [] ++ after := by
  unfold takeFraction at h
  split at h
  · obtain ⟨rfl, hdigits, -⟩ := digitRun_eq_iff.mp h
    exact ⟨some fraction, rfl, hdigits, rfl⟩
  · cases h
    exact ⟨none, rfl, nofun, rfl⟩

theorem head?_exponentForms {exponent : Option (Bool × List Char)}
    (h : cs ∈ exponentForms exponent) :
    ∀ c, cs.head? = some c → c.isDigit = false ∧ c ≠ '.' := by
  cases exponent with
  | none =>
    rw [List.mem_singleton.mp h]
    exact nofun
  | some written =>
    simp only [exponentForms, List.mem_flatMap, List.mem_map] at h
    obtain ⟨letter, hletter, sign, -, rfl⟩ := h
    rintro c ⟨⟩
    rcases List.mem_pair.mp hletter with rfl | rfl <;> decide

/-- What is read without a sign is a numeral, and as the double nearest to it. -/
theorem readDigits_eq_some_iff :
    readDigits cs = some y ↔ ∃ n : Numeral, n.Readable ∧
      (∃ exponent ∈ exponentForms n.exponent, cs = n.places ++ exponent) ∧
      y = nearest (n.whole ++ n.fraction.getD []) (n.power - (n.fraction.getD []).length) := by
  constructor
  · intro h
    rcases hwhole : digitRun cs with ⟨whole, afterWhole⟩
    rcases hfraction : takeFraction afterWhole with ⟨fraction, after⟩
    rw [readDigits_eq hwhole hfraction] at h
    obtain ⟨rfl, hwholeDigits, -⟩ := digitRun_eq_iff.mp hwhole
    obtain ⟨written, rfl, hfractionDigits, rfl⟩ := exists_of_takeFraction hfraction
    split at h
    · cases h
    · next hne =>
      obtain ⟨e, he, rfl⟩ := Option.map_eq_some_iff.mp h
      obtain ⟨exponent, hexponent, hform, rfl⟩ := readTail_eq_some_iff.mp he
      refine ⟨⟨false, whole, written, exponent⟩, ⟨⟨?_, ?_⟩, hexponent⟩, ⟨after, hform, ?_⟩, rfl⟩
      · simpa using hne
      · simp only [List.mem_append]
        rintro c (hc | hc)
        · exact hwholeDigits c hc
        · exact hfractionDigits c hc
      · simp [Numeral.places]
  · rintro ⟨n, hn, ⟨exponent, hform, rfl⟩, rfl⟩
    have hhead := head?_exponentForms hform
    have hwhole : digitRun (n.places ++ exponent) =
        (n.whole, (n.fraction.map ('.' :: ·)).getD [] ++ exponent) := by
      rw [Numeral.places, List.append_assoc]
      refine digitRun_append (fun c hc => hn.digits.isDigit c (List.mem_append_left _ hc)) ?_
      cases n.fraction with
      | none => exact fun c hc => (hhead c hc).1
      | some ds =>
        rintro c ⟨⟩
        rfl
    have hfraction :=
      takeFraction_append (fun c hc => hn.digits.isDigit c (List.mem_append_right _ hc)) hhead
    rw [readDigits_eq hwhole hfraction, if_neg (by simpa using hn.digits.ne_nil),
      readTail_eq_some_iff.mpr ⟨n.exponent, hn.exponent, hform, rfl⟩]
    rfl

/-! ## Texts -/

namespace Numeral

/-- The finite double that a numeral is nearest to, with its sign. -/
def Denotes (n : Numeral) (x : Float) : Prop :=
  signBit x = n.negative ∧ (Binary.ofFloat x).Takes n.magnitude

variable {n : Numeral}

theorem Readable.head (hn : n.Readable) (exponent : List Char) :
    ∀ c, (n.places ++ exponent).head? = some c → c ≠ '-' ∧ c ≠ '+' := by
  have hdigits := hn.digits
  rw [places]
  cases hwhole : n.whole with
  | cons d ds =>
    rintro c ⟨⟩
    exact head_of_isDigit hdigits d (by simp [hwhole])
  | nil =>
    cases hfraction : n.fraction with
    | none => exact absurd (by simp [hwhole, hfraction]) hdigits.ne_nil
    | some ds =>
      rintro c ⟨⟩
      decide

/-- A double with the sign and the magnitude of a numeral. -/
theorem denotes_double (hb : b.Finite) (htakes : b.Takes n.magnitude) :
    n.Denotes (double (if n.negative then .negative else .positive) b) := by
  obtain ⟨hmagnitude, hsign⟩ := ofFloat_double hb (if n.negative then .negative else .positive)
  refine ⟨?_, by rwa [hmagnitude]⟩
  rw [Decimal.sign] at hsign
  cases hnegative : n.negative <;> simpa [hnegative] using hsign

/-- A readable numeral that is not too large denotes a finite double. -/
theorem Readable.exists_denotes (hn : n.Readable) (hlt : n.magnitude < overflow) :
    ∃ x : Float, x.isFinite ∧ n.Denotes x := by
  obtain ⟨b, hb, htakes⟩ := exists_finite_of_lt hn.digits.isDigit hlt
  exact ⟨_, isFinite_double hb _, denotes_double hb htakes⟩

end Numeral

/-- The names stand for what is not finite. -/
theorem not_isFinite_of_readName (h : readName cs = some y) : ¬ y.isFinite := by
  unfold readName at h
  dsimp only at h
  split at h
  · cases h
    decide
  · split at h
    · cases h
      decide
    · cases h

theorem signed_double (hb : b.Finite) (negative : Bool) :
    (if negative then -double .positive b else double .positive b) =
      double (if negative then .negative else .positive) b := by
  cases negative with
  | true => exact neg_double hb .positive
  | false => rfl

theorem read?_eq {text : String} (h : takeSign text.toList = (negative, cs)) :
    read? text = ((readDigits cs).or (readName cs)).map fun x => if negative then -x else x := by
  have hread : read? text =
    ((readDigits (takeSign text.toList).2).or (readName (takeSign text.toList).2)).map
      fun x => if (takeSign text.toList).1 then -x else x := rfl
  rw [hread, h]

/-- **A text is read as a finite double exactly if it spells a numeral that denotes the double.** -/
theorem read?_eq_some_iff {text : String} (hfinite : x.isFinite) :
    read? text = some x ↔ ∃ n : Numeral, n.Readable ∧ text.toList ∈ n.forms ∧ n.Denotes x := by
  simp only [Numeral.forms, List.mem_flatMap, List.mem_map]
  constructor
  · intro h
    rcases htake : takeSign text.toList with ⟨negative, cs⟩
    obtain ⟨mark, hmark, htext⟩ := mem_signs_of_takeSign htake
    rw [read?_eq htake] at h
    obtain ⟨y, hy, rfl⟩ := Option.map_eq_some_iff.mp h
    have hfinite' : y.isFinite := by
      cases negative with
      | true => rwa [if_pos rfl, isFinite_neg] at hfinite
      | false => exact hfinite
    rcases Option.or_eq_some_iff.mp hy with hdigits | ⟨-, hname⟩
    · obtain ⟨n, hn, ⟨exponent, hform, rfl⟩, rfl⟩ := readDigits_eq_some_iff.mp hdigits
      obtain ⟨b, hb, htakes, hnearest⟩ := exists_of_nearest hn.digits.isDigit hfinite'
      refine ⟨{ n with negative }, ⟨hn.digits, hn.exponent⟩,
        ⟨mark, hmark, exponent, hform, htext.symm⟩, ?_⟩
      rw [hnearest, signed_double hb]
      exact Numeral.denotes_double hb htakes
    · exact absurd hfinite' (not_isFinite_of_readName hname)
  · rintro ⟨n, hn, ⟨sign, hsign, exponent, hform, htext⟩, hnegative, htakes⟩
    obtain ⟨-, hb⟩ := unpack_of_isFinite hfinite
    have hdigits := readDigits_eq_some_iff.mpr ⟨n, hn, ⟨exponent, hform, rfl⟩, rfl⟩
    rw [nearest_eq hb hn.digits.isDigit htakes] at hdigits
    rw [read?_eq (htext ▸ takeSign_append hsign (hn.head exponent)), hdigits, Option.some_or,
      Option.map_some, signed_double hb, ← hnegative]
    exact congrArg some (double_ofFloat hfinite)

/-- **A text is a finite double exactly if it spells a numeral that is not too large.** -/
theorem exists_read?_iff {text : String} : (∃ x, read? text = some x ∧ x.isFinite) ↔
    ∃ n : Numeral, n.Readable ∧ text.toList ∈ n.forms ∧ n.magnitude < overflow := by
  constructor
  · rintro ⟨x, hread, hfinite⟩
    obtain ⟨n, hn, hform, -, htakes⟩ := (read?_eq_some_iff hfinite).mp hread
    obtain ⟨-, hb⟩ := unpack_of_isFinite hfinite
    exact ⟨n, hn, hform, (htakes.finite_iff hb.toCanonical).mp hb⟩
  · rintro ⟨n, hn, hform, hlt⟩
    obtain ⟨x, hfinite, hdenotes⟩ := hn.exists_denotes hlt
    exact ⟨x, (read?_eq_some_iff hfinite).mpr ⟨n, hn, hform, hdenotes⟩, hfinite⟩

end Roster.Decimal
