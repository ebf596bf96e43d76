import Roster.Proofs.Json.Token
import Roster.Proofs.Text.Octets

/-!
# What was written is read back

The reader gives every value back from its compact form, as long as the value can be written at all:
its numerals are ones that the strict grammar allows, and its strings have a content (`Wf`). The
induction is on the fuel, which every call of the reader takes one of, so it goes down into the
value and along its elements alike. It speaks of any text that starts with a form, as the forms of
elements stand inside others; what follows must be something that ends a numeral. Each call also
takes at least one character, so the number of characters is fuel enough.
-/

namespace Roster.Json

mutual

/-- Whether a value can be written. -/
def Wf : Json → Prop
  | .scalar s => s.Wf
  | .array elements => WfElements elements
  | .object members => WfMembers members

/-- Every element of an array is well formed. -/
def WfElements : List Json → Prop
  | [] => True
  | x :: rest => Wf x ∧ WfElements rest

/-- Every member of an object has a name and is well formed. -/
def WfMembers : List (Option String × Json) → Prop
  | [] => True
  | (name, x) :: rest => name.isSome ∧ Wf x ∧ WfMembers rest

end

variable {rest : List Symbol} {fuel : Nat}

/-- A mark that is a token of its own is the next token. -/
theorem next_punctuation {c : Char} {t : Token} (hblank : Symbol.isBlank (.char c) = false)
    (h : ∀ s, token (.char c :: s) = some (t, s)) (s : List Symbol) :
    next (.char c :: s) = some (t, s) := by
  rw [next, skipBlanks_cons hblank, h]

@[simp] theorem next_openBrace (s : List Symbol) : next (.char '{' :: s) = some (.openBrace, s) :=
  next_punctuation rfl (fun _ => rfl) s

@[simp] theorem next_closeBrace (s : List Symbol) : next (.char '}' :: s) = some (.closeBrace, s) :=
  next_punctuation rfl (fun _ => rfl) s

@[simp] theorem next_openBracket (s : List Symbol) :
    next (.char '[' :: s) = some (.openBracket, s) :=
  next_punctuation rfl (fun _ => rfl) s

@[simp] theorem next_closeBracket (s : List Symbol) :
    next (.char ']' :: s) = some (.closeBracket, s) :=
  next_punctuation rfl (fun _ => rfl) s

@[simp] theorem next_colon (s : List Symbol) : next (.char ':' :: s) = some (.colon, s) :=
  next_punctuation rfl (fun _ => rfl) s

@[simp] theorem next_comma (s : List Symbol) : next (.char ',' :: s) = some (.comma, s) :=
  next_punctuation rfl (fun _ => rfl) s

/-- What stands after a value in an array or in an object ends it. -/
theorem stops_cons {c : Char} (h : c ∈ [',', ']', '}']) (s : List Symbol) :
    Stops (.char c :: s) := by
  rintro x hx
  cases hx
  exact List.mem_map_of_mem h

theorem chars_ne_nil {j : Json} (h : Wf j) : 0 < (chars j).length := by
  cases j with
  | array elements => simp [chars]
  | object members => simp [chars]
  | scalar s =>
    simp only [chars]
    cases s with
    | null => decide
    | bool b => cases b <;> decide
    | string content => simp [Scalar.chars, quoted]
    | number n =>
      obtain ⟨d, ds, hwhole⟩ := List.exists_cons_of_ne_nil h.whole.ne_nil
      simp only [Scalar.chars, chars_eq, magnitudeChars, hwhole, List.length_append,
        List.length_cons]
      omega

/-- No value starts with a bracket that closes an array. -/
theorem next_chars {j : Json} (h : Wf j) (hr : Stops rest) :
    ∀ s, next (sym (chars j) ++ rest) ≠ some (.closeBracket, s) := by
  intro s
  cases j with
  | scalar x =>
    rw [chars, next_scalar h hr]
    nofun
  | array elements => simp [chars]
  | object members => simp [chars]

mutual

/-- What is written of a value is read as that value, if the fuel is enough for its characters. -/
theorem valueIn_chars : ∀ (fuel : Nat) {j : Json} {rest : List Symbol}, Wf j → Stops rest →
    (chars j).length ≤ fuel → valueIn fuel (sym (chars j) ++ rest) = some (j, rest)
  -- There is no value without a character, so the fuel cannot have run out.
  | 0, j, rest, h, hr, hf => absurd (chars_ne_nil h) (by omega)
  | fuel + 1, .scalar x, rest, h, hr, hf => by
    rw [chars, valueIn, next_scalar h hr]
  | fuel + 1, .array [], rest, h, hr, hf => by
    simp [chars, elementChars, valueIn]
  | fuel + 1, .array (x :: xs), rest, h, hr, hf => by
    have hread : elementsIn fuel (sym (elementChars (x :: xs)) ++ rest) = some (x :: xs, rest) :=
      elementsIn_chars fuel h (by simpa [chars] using hf)
    -- The reader looks first whether the array ends here, which no element lets it think.
    have hnext : ∀ s, next (sym (elementChars (x :: xs)) ++ rest) ≠ some (.closeBracket, s) := by
      cases xs with
      | nil =>
        simp only [elementChars, sym_append, List.append_assoc]
        exact next_chars h.1 (stops_cons (by simp) _)
      | cons y ys =>
        simp only [elementChars, sym_append, List.append_assoc]
        exact next_chars h.1 (stops_cons (by simp) _)
    simp only [chars, sym_cons, List.cons_append, valueIn, next_openBracket]
    rw [hread]
    rfl
  | fuel + 1, .object [], rest, h, hr, hf => by
    simp [chars, memberChars, valueIn]
  | fuel + 1, .object ((name, x) :: ms), rest, h, hr, hf => by
    have hread : membersIn fuel (sym (memberChars ((name, x) :: ms)) ++ rest) =
        some ((name, x) :: ms, rest) :=
      membersIn_chars fuel h (by simpa [chars] using hf)
    have hnext : ∀ s, next (sym (memberChars ((name, x) :: ms)) ++ rest) ≠
        some (.closeBrace, s) := by
      intro s
      cases ms <;> simp [memberChars, next_quoted]
    simp only [chars, sym_cons, List.cons_append, valueIn, next_openBrace]
    rw [hread]
    rfl

/-- What is written of the elements of an array is read as them. -/
theorem elementsIn_chars : ∀ (fuel : Nat) {x : Json} {xs : List Json} {rest : List Symbol},
    WfElements (x :: xs) → (elementChars (x :: xs)).length ≤ fuel →
    elementsIn fuel (sym (elementChars (x :: xs)) ++ rest) = some (x :: xs, rest)
  | 0, x, xs, rest, h, hf => by
    cases xs <;> simp [elementChars] at hf
  | fuel + 1, x, [], rest, h, hf => by
    simp only [elementChars, List.length_append, List.length_singleton, sym_append, sym_cons,
      List.append_assoc, List.cons_append] at hf ⊢
    rw [elementsIn, valueIn_chars fuel h.1 (stops_cons (by simp) _) (by omega)]
    simp
  | fuel + 1, x, y :: ys, rest, h, hf => by
    simp only [elementChars, List.length_append, List.length_cons, sym_append, sym_cons,
      List.append_assoc, List.cons_append] at hf ⊢
    rw [elementsIn, valueIn_chars fuel h.1 (stops_cons (by simp) _) (by omega)]
    simp only [next_comma]
    rw [elementsIn_chars fuel h.2 (by omega)]
    rfl

/-- What is written of the members of an object is read as them. -/
theorem membersIn_chars : ∀ (fuel : Nat) {name : Option String} {x : Json}
    {ms : List (Option String × Json)} {rest : List Symbol},
    WfMembers ((name, x) :: ms) → (memberChars ((name, x) :: ms)).length ≤ fuel →
    membersIn fuel (sym (memberChars ((name, x) :: ms)) ++ rest) = some ((name, x) :: ms, rest)
  | 0, name, x, ms, rest, h, hf => by
    cases ms <;> simp [memberChars] at hf
  | fuel + 1, name, x, [], rest, h, hf => by
    obtain ⟨text, rfl⟩ := Option.isSome_iff_exists.mp h.1
    simp only [memberChars, List.length_append, List.length_cons, sym_append, sym_cons,
      List.append_assoc, List.cons_append, Option.getD_some] at hf ⊢
    rw [membersIn, next_quoted]
    simp only [next_colon]
    rw [valueIn_chars fuel h.2.1 (stops_cons (by simp) _) (by omega)]
    simp
  | fuel + 1, name, x, (name', y) :: ms, rest, h, hf => by
    obtain ⟨text, rfl⟩ := Option.isSome_iff_exists.mp h.1
    simp only [memberChars, List.length_append, List.length_cons, sym_append, sym_cons,
      List.append_assoc, List.cons_append, Option.getD_some] at hf ⊢
    rw [membersIn, next_quoted]
    simp only [next_colon]
    rw [valueIn_chars fuel h.2.1 (stops_cons (by simp) _) (by omega)]
    simp only [next_comma]
    rw [membersIn_chars fuel h.2.2 (by omega)]
    rfl

end

/-! ## Whole texts -/

theorem symbols_toUTF8 (text : String) : symbols text.toUTF8 = ofText text := by
  rw [symbols, fromUTF8?_toUTF8]

/-- What is written arrives as the characters it was written in. -/
theorem symbols_write (j : Json) : symbols (write j).toUTF8 = sym (chars j) := by
  rw [symbols_toUTF8, write, ofText, String.toList_ofList, sym]

/-- **The form of a value is read as that value**, and nothing is left. -/
theorem value_write {j : Json} (h : Wf j) :
    value (symbols (write j).toUTF8) = some (j, []) := by
  have hread := valueIn_chars (2 * (sym (chars j)).length + 1) h stops_nil
    (by simp only [sym, List.length_map]; omega)
  rw [List.append_nil] at hread
  rw [symbols_write, value, hread]

/-- What is written of a well-formed value is read back as that value. -/
theorem read?_write {j : Json} (h : Wf j) : read? (symbols (write j).toUTF8) = some j := by
  rw [read?, value_write h]
  rfl

end Roster.Json
