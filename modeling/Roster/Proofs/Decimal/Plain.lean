import Roster.Proofs.Decimal.Reading

/-!
# Plain text and back

As a double is written as a decimal that rounds to it, it is read back as it was
(`read?_plainText`), its sign included. The text is one of the forms of its numeral, and the only
thing to see is that there is always a digit.
-/

namespace Roster.Decimal

variable {n : Numeral} {x : Float}

/-- What can be written can be read in the plain way. -/
theorem Numeral.Wf.readable (hn : n.Wf) : n.Readable := by
  refine ⟨hn.whole.append ?_, hn.exponent⟩
  cases hfraction : n.fraction with
  | none => exact nofun
  | some ds => exact (hn.fraction ds hfraction).isDigit

/-- The usual form has no plus signs, and a small letter. -/
theorem Numeral.chars_mem_forms (n : Numeral) : n.chars ∈ n.forms := by
  have hsign (negative : Bool) : (if negative then ['-'] else []) ∈ signs negative := by
    cases negative <;> simp [signs]
  simp only [forms, List.mem_flatMap, List.mem_map]
  refine ⟨_, hsign n.negative, ?_⟩
  cases hexponent : n.exponent with
  | none =>
    refine ⟨[], List.mem_singleton_self _, ?_⟩
    cases hfraction : n.fraction <;> simp [chars, places, hexponent, hfraction]
  | some written =>
    obtain ⟨negative, ds⟩ := written
    refine ⟨'e' :: ((if negative then ['-'] else []) ++ ds), ?_, ?_⟩
    · simp only [exponentForms, List.mem_flatMap, List.mem_map]
      exact ⟨'e', by simp, _, hsign negative, rfl⟩
    · cases hfraction : n.fraction <;> simp [chars, places, hexponent, hfraction]

/-- A double is written with its sign. -/
theorem negative_ofFloat (style : Style) (x : Float) :
    (Numeral.ofFloat style x).negative = signBit x := by
  simp only [Numeral.ofFloat]
  split
  · rfl
  · split <;> rfl

/-- **A finite double in plain text is read back.** -/
theorem read?_plainText (h : x.isFinite) : read? (plainText x) = some x := by
  obtain ⟨hunpack, -⟩ := unpack_of_isFinite h
  have hnan : x.isNaN = false := by
    change x.toModel.unpack.isNaN = false
    rw [hunpack, Binary.unpacked]
    split <;> rfl
  have hinf : x.isInf = false := by
    change x.toModel.unpack.isInf = false
    rw [hunpack, Binary.unpacked]
    split <;> rfl
  rw [plainText, hnan, hinf]
  simp only [Bool.false_eq_true, if_false]
  refine (read?_eq_some_iff h).mpr ⟨.ofFloat .plain x, (wf_ofFloat .plain x).readable, ?_,
    (negative_ofFloat .plain x).symm, takes_ofFloat .plain x⟩
  rw [Numeral.text, String.toList_ofList]
  exact Numeral.chars_mem_forms _

end Roster.Decimal
