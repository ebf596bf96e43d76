import Roster.Json.Reader
import Roster.Json.Writer
import Roster.Proofs.Decimal.Numeral

/-!
# The first token of what was written

Each scalar that the writer spells is one token to the reader, whatever follows it. For a numeral
the last part needs care, since a numeral ends only where something else begins: `Stops` says that
what follows is one of the characters that the writer sets after a value, or the end.

Strings are read piece by piece. Whatever the writer does to a character, the reader takes it for
one piece, that character (`pieces_escaped`); so the content comes back without a look at which
characters were escaped.
-/

namespace Roster.Json

open Decimal

variable {rest : List Symbol}

/-- Characters as the reader takes them. -/
def sym (cs : List Char) : List Symbol :=
  cs.map .char

@[simp] theorem sym_nil : sym [] = [] := rfl

@[simp] theorem sym_cons (c : Char) (cs : List Char) : sym (c :: cs) = .char c :: sym cs := rfl

@[simp] theorem sym_append (cs ds : List Char) : sym (cs ++ ds) = sym cs ++ sym ds :=
  List.map_append

/-- What may follow a value: the end, a separator or a closing bracket. -/
def Stops (s : List Symbol) : Prop :=
  ∀ x ∈ s.head?, x ∈ sym [',', ']', '}']

theorem stops_nil : Stops [] := nofun

/-! ## Strings -/

theorem hexValue_hexDigit : ∀ n, n < 16 → hexValue (hexDigit n) = some n := by
  decide

/-- A short escape is one piece, the character that it is for. -/
theorem pieces_short {c d : Char} (h : shortEscape c = some d) :
    pieces (.char '\\' :: .char c :: rest) =
      (pieces rest).map fun (ps, s) => (.char d :: ps, s) := by
  -- The one escape that is not of a single character.
  have hu : c ≠ 'u' := by
    rintro rfl
    cases h
  rw [pieces, h]
  · cases pieces rest <;> rfl
  · exact fun _ _ _ _ _ _ heq => absurd heq hu

/-- A character that needs no escape is one piece, itself. -/
theorem pieces_plain {c : Char} (hquote : c ≠ '"') (hslash : c ≠ '\\') (hcontrol : ¬ c.toNat < 32) :
    pieces (.char c :: rest) = (pieces rest).map fun (ps, s) => (.char c :: ps, s) := by
  have hplain : ¬ (c == '\\' || decide (c.toNat < 32)) = true := by
    rw [Bool.or_eq_true, beq_iff_eq, decide_eq_true_iff]
    exact not_or.mpr ⟨hslash, hcontrol⟩
  rw [pieces, if_neg hplain]
  · exact hquote
  · exact fun _ _ _ _ _ _ heq => absurd heq hslash
  · exact fun _ _ _ heq => absurd heq hslash

/-- A control character that is written by its number is one piece, that character. -/
theorem pieces_unit {c : Char} (h : c.toNat < 32) :
    pieces (sym ['\\', 'u', '0', '0', hexDigit (c.toNat / 16), hexDigit (c.toNat % 16)] ++ rest) =
      (pieces rest).map fun (ps, s) => (.char c :: ps, s) := by
  have hhex : hex4 '0' '0' (hexDigit (c.toNat / 16)) (hexDigit (c.toNat % 16)) = some c.toNat := by
    have zero : hexValue '0' = some 0 := rfl
    have high := hexValue_hexDigit (c.toNat / 16) (by omega)
    have low := hexValue_hexDigit (c.toNat % 16) (by omega)
    simp only [hex4, zero, high, low, Option.bind_eq_bind, Option.bind_some, Option.pure_def]
    congr 1
    omega
  have hpiece : unitPiece c.toNat = .char c := by
    rw [unitPiece, if_neg (by omega), Char.ofNat_toNat]
  simp only [sym_cons, sym_nil, List.cons_append, List.nil_append, pieces, hhex]
  cases pieces rest with
  | none => rfl
  | some found => simp [hpiece]

/-- **An escaped character is one piece.** -/
theorem pieces_escaped (c : Char) (rest : List Symbol) :
    pieces (sym (escaped c) ++ rest) = (pieces rest).map fun (ps, s) => (.char c :: ps, s) := by
  unfold escaped
  split
  · exact pieces_short rfl
  · exact pieces_short rfl
  · exact pieces_short rfl
  · exact pieces_short rfl
  · exact pieces_short rfl
  · next hquote hslash _ _ _ =>
    split
    -- These two control characters have short escapes as well.
    · next h8 =>
      rw [← Char.ofNat_toNat c, h8]
      exact pieces_short rfl
    · split
      · next h12 =>
        rw [← Char.ofNat_toNat c, h12]
        exact pieces_short rfl
      · split
        · next h => exact pieces_unit h
        · next h => exact pieces_plain hquote hslash h

/-- The pieces of what is written of a text are its characters, up to the closing mark. -/
theorem pieces_quoted (cs : List Char) (rest : List Symbol) :
    pieces (sym (cs.flatMap escaped) ++ .char '"' :: rest) = some (cs.map .char, rest) := by
  induction cs with
  | nil => rw [List.flatMap_nil, sym_nil, List.nil_append, pieces, List.map_nil]
  | cons c cs ih =>
    rw [List.flatMap_cons, sym_append, List.append_assoc, pieces_escaped, ih]
    rfl

/-- Characters are spelled as they are. -/
theorem spell_map_char (cs : List Char) : spell (cs.map .char) = some cs := by
  induction cs with
  | nil => rfl
  | cons c cs ih => simp [spell, ih]

/-! ## Numerals -/

/-- Digits are taken up to what is no digit. -/
theorem digits_append {ds : List Char} (h : ∀ c ∈ ds, c.isDigit)
    (hr : ∀ c, rest.head? = some (.char c) → ¬ c.isDigit) :
    digits (sym ds ++ rest) = (ds, rest) := by
  induction ds with
  | nil =>
    rw [sym_nil, List.nil_append, digits.eq_def]
    split
    · next c r =>
      have hc := hr c rfl
      simp [hc]
    · rfl
  | cons d ds ih =>
    have hd := h d List.mem_cons_self
    simp [digits, hd, ih fun c hc => h c (List.mem_cons_of_mem d hc)]

theorem Stops.not_isDigit (h : Stops rest) : ∀ c, rest.head? = some (.char c) → ¬ c.isDigit := by
  intro c hc
  have hmem := h _ hc
  simp only [sym, List.map_cons, List.map_nil, List.mem_cons, List.not_mem_nil, or_false,
    Symbol.char.injEq] at hmem
  rcases hmem with rfl | rfl | rfl <;> decide

/-- The fraction of a numeral as it is written, with its point. -/
def fractionChars : Option (List Char) → List Char
  | none => []
  | some ds => '.' :: ds

/-- The exponent of a numeral as it is written, with its letter and its sign. -/
def exponentChars : Option (Bool × List Char) → List Char
  | none => []
  | some (negative, ds) => 'e' :: ((if negative then ['-'] else []) ++ ds)

/-- A numeral as it is written, but for its sign. -/
def magnitudeChars (n : Numeral) : List Char :=
  n.whole ++ (fractionChars n.fraction ++ exponentChars n.exponent)

theorem chars_eq (n : Numeral) :
    n.chars = (if n.negative then ['-'] else []) ++ magnitudeChars n := by
  obtain ⟨negative, whole, fraction, exponent⟩ := n
  cases fraction <;> cases exponent <;>
    simp [Numeral.chars, magnitudeChars, fractionChars, exponentChars]

/-- The whole part of a numeral is read as it was written. -/
theorem wholePart_append {n : Numeral} (h : n.Wf)
    (hr : ∀ c, rest.head? = some (.char c) → ¬ c.isDigit) :
    wholePart (sym n.whole ++ rest) = some (n.whole, rest) := by
  unfold wholePart
  rw [digits_append h.whole.isDigit hr]
  split
  · next heq =>
    exact absurd (Prod.mk.inj heq).1 h.whole.ne_nil
  · next d ds heq =>
    have hwhole := (Prod.mk.inj heq).1
    -- A zero is the only digit before the point, or else it does not come first.
    have hlead := h.lead (by rw [hwhole]; rfl)
    rw [hwhole] at hlead
    cases hlead
  · next heq =>
    obtain ⟨rfl, rfl⟩ := Prod.mk.inj heq
    rfl

/-- The fraction of a numeral is read as it was written, or found to be missing. -/
theorem fractionPart_append {fraction : Option (List Char)}
    (h : ∀ ds, fraction = some ds → IsDigits ds)
    (hr : ∀ c, rest.head? = some (.char c) → c ≠ '.' ∧ ¬ c.isDigit) :
    fractionPart (sym (fractionChars fraction) ++ rest) = some (fraction, rest) := by
  cases fraction with
  | none =>
    unfold fractionPart
    split
    · next r heq =>
      have hr := hr '.' (by rw [← List.nil_append rest]; exact congrArg List.head? heq)
      exact absurd rfl hr.1
    · rfl
  | some ds =>
    have hds := h ds rfl
    simp only [fractionChars, sym_cons, List.cons_append, fractionPart]
    rw [digits_append hds.isDigit fun c hc => (hr c hc).2]
    split
    · next heq => exact absurd (Prod.mk.inj heq).1 hds.ne_nil
    · next heq =>
      obtain ⟨rfl, rfl⟩ := Prod.mk.inj heq
      rfl

theorem exponentDigits_append {ds : List Char} {negative : Bool} (h : IsDigits ds)
    (hr : Stops rest) :
    exponentDigits negative (sym ds ++ rest) = some (some (negative, ds), rest) := by
  unfold exponentDigits
  rw [digits_append h.isDigit hr.not_isDigit]
  split
  · next heq => exact absurd (Prod.mk.inj heq).1 h.ne_nil
  · next heq =>
    obtain ⟨rfl, rfl⟩ := Prod.mk.inj heq
    rfl

/-- The exponent of a numeral is read as it was written, or found to be missing. -/
theorem exponentPart_append {exponent : Option (Bool × List Char)}
    (h : ∀ negative ds, exponent = some (negative, ds) → IsDigits ds) (hr : Stops rest) :
    exponentPart (sym (exponentChars exponent) ++ rest) = some (exponent, rest) := by
  cases exponent with
  | none =>
    rw [exponentChars, sym_nil, List.nil_append, exponentPart.eq_def]
    split
    · next c r =>
      have hmem := hr _ rfl
      simp only [sym, List.map_cons, List.map_nil, List.mem_cons, List.not_mem_nil, or_false,
        Symbol.char.injEq] at hmem
      rcases hmem with rfl | rfl | rfl <;> rfl
    · rfl
  | some written =>
    obtain ⟨negative, ds⟩ := written
    have hds := h negative ds rfl
    cases negative with
    | true => exact exponentDigits_append hds hr
    | false =>
      have hdigits : exponentDigits false (sym ds ++ rest) = some (some (false, ds), rest) :=
        exponentDigits_append hds hr
      -- The digits begin with no sign that could be taken for that of the exponent.
      obtain ⟨d, ds', rfl⟩ := List.exists_cons_of_ne_nil hds.ne_nil
      have hd := hds.isDigit d List.mem_cons_self
      change exponentPart (.char 'e' :: (sym (d :: ds') ++ rest)) = _
      rw [exponentPart, if_pos (by decide)]
      · exact hdigits
      · rintro rest' heq
        cases heq
        exact absurd hd (by decide)
      · rintro rest' heq
        cases heq
        exact absurd hd (by decide)

/-- **A numeral without its sign is read back**, and what follows it is left. -/
theorem unsigned_append {n : Numeral} (h : n.Wf) (hr : Stops rest) :
    unsigned n.negative (sym (magnitudeChars n) ++ rest) = some (n, rest) := by
  -- Neither the exponent nor what follows begins with anything that would belong to the
  -- part before it.
  have hexp : ∀ c, (sym (exponentChars n.exponent) ++ rest).head? = some (.char c) →
      c ≠ '.' ∧ ¬ c.isDigit := by
    intro c hc
    cases he : n.exponent with
    | none =>
      rw [he] at hc
      have hmem := hr _ hc
      simp only [sym, List.map_cons, List.map_nil, List.mem_cons, List.not_mem_nil, or_false,
        Symbol.char.injEq] at hmem
      rcases hmem with rfl | rfl | rfl <;> decide
    | some written =>
      rw [he] at hc
      cases hc
      decide
  have hfrac : ∀ c, (sym (fractionChars n.fraction ++ exponentChars n.exponent) ++ rest).head? =
      some (.char c) → ¬ c.isDigit := by
    intro c hc
    cases hf : n.fraction with
    | none =>
      rw [hf] at hc
      exact (hexp c hc).2
    | some ds =>
      rw [hf] at hc
      cases hc
      decide
  unfold unsigned
  rw [magnitudeChars, sym_append, List.append_assoc, wholePart_append h hfrac]
  simp only [Option.bind_eq_bind, Option.bind_some]
  rw [sym_append, List.append_assoc, fractionPart_append h.fraction hexp]
  simp only [Option.bind_some]
  rw [exponentPart_append h.exponent hr]
  rfl

/-! ## Scalars -/

/-- A scalar whose content can be written. -/
def Scalar.Wf : Scalar → Prop
  | .number n => n.Wf
  | .string content => content.isSome
  | _ => True

theorem skipBlanks_cons {c : Char} (h : Symbol.isBlank (.char c) = false) (s : List Symbol) :
    skipBlanks (.char c :: s) = .char c :: s := by
  simp [skipBlanks, h]

theorem isBlank_of_isDigit {c : Char} (h : c.isDigit) : Symbol.isBlank (.char c) = false := by
  simp only [Symbol.isBlank, Bool.or_eq_false_iff, beq_eq_false_iff_ne]
  refine ⟨⟨⟨?_, ?_⟩, ?_⟩, ?_⟩ <;> rintro rfl <;> exact absurd h (by decide)

theorem token_of_isDigit {c : Char} (h : c.isDigit) :
    token (.char c :: rest) =
      (unsigned false (.char c :: rest)).map fun (n, s) => (.scalar (.number n), s) := by
  simp only [token]
  -- no digit is one of the characters that start another token
  split
  all_goals first | exact absurd h (by decide) | rfl

/-- A numeral is the next token where it was written. -/
theorem next_number {n : Numeral} (h : n.Wf) (hr : Stops rest) :
    next (sym n.chars ++ rest) = some (.scalar (.number n), rest) := by
  have hread := unsigned_append h hr
  rw [chars_eq]
  cases hneg : n.negative with
  | true =>
    rw [hneg] at hread
    change (unsigned true (sym (magnitudeChars n) ++ rest)).map _ = _
    rw [hread]
    rfl
  | false =>
    rw [hneg] at hread
    obtain ⟨d, ds, hwhole⟩ := List.exists_cons_of_ne_nil h.whole.ne_nil
    have hd : d.isDigit := h.whole.isDigit d (by rw [hwhole]; exact List.mem_cons_self)
    have hchars : sym (magnitudeChars n) ++ rest = .char d ::
        (sym (ds ++ (fractionChars n.fraction ++ exponentChars n.exponent)) ++ rest) := by
      rw [magnitudeChars, hwhole]
      rfl
    rw [hchars] at hread
    change next (sym (magnitudeChars n) ++ rest) = _
    rw [hchars, next, skipBlanks_cons (isBlank_of_isDigit hd), token_of_isDigit hd, hread]
    rfl

/-- A text is the next token where it was written. -/
theorem next_quoted (text : String) :
    next (sym (quoted text) ++ rest) = some (.scalar (.string (some text)), rest) := by
  have hread := pieces_quoted text.toList rest
  have hquoted : sym (quoted text) ++ rest =
      .char '"' :: (sym (text.toList.flatMap escaped) ++ .char '"' :: rest) := by
    simp [quoted]
  rw [hquoted]
  change (pieces (sym (text.toList.flatMap escaped) ++ .char '"' :: rest)).map _ = _
  rw [hread]
  simp [content, spell_map_char]

/-- **A scalar is one token**, and what follows it is left. -/
theorem next_scalar {s : Scalar} (h : s.Wf) (hr : Stops rest) :
    next (sym s.chars ++ rest) = some (.scalar s, rest) := by
  cases s with
  | null => rfl
  | bool b => cases b <;> rfl
  | number n => exact next_number h hr
  | string content =>
    obtain ⟨text, rfl⟩ := Option.isSome_iff_exists.mp h
    exact next_quoted text

end Roster.Json
