import Roster.Text.Base64Url

/-!
# Octets as text

Two codes stand between texts and octets: UTF-8, which every text has, and Base64 for URLs, which
every sequence of octets has. Both are exact in both directions. For UTF-8 that is what `String` is
built on, and only put into words for `String.fromUTF8?`. For Base64 it rests on the alphabet, a
bijection between the numbers below 64 and its characters: `decode?_encode` is what a file name is
found again by, and `encode_of_decode?` is why no second file name stands for the same key. The
second one is where the strictness of the reader is spent: a group whose unused bits were not zero
would be read, too, and its octets would have two texts.
-/

namespace Roster

/-! ## UTF-8 -/

theorem fromUTF8?_toUTF8 (text : String) : String.fromUTF8? text.toUTF8 = some text := by
  rw [String.fromUTF8?, String.toUTF8_eq_toByteArray, dif_pos text.isValidUTF8]
  rfl

theorem toUTF8_of_fromUTF8? {octets : ByteArray} {text : String}
    (h : String.fromUTF8? octets = some text) : text.toUTF8 = octets := by
  unfold String.fromUTF8? at h
  split at h
  · cases h
    rfl
  · cases h

/-- Texts are told apart by their octets. -/
theorem toUTF8_injective {a b : String} (h : a.toUTF8 = b.toUTF8) : a = b := by
  have := congrArg String.fromUTF8? h
  rwa [fromUTF8?_toUTF8, fromUTF8?_toUTF8, Option.some.injEq] at this

theorem toUTF8_eq_flatMap (text : String) :
    text.toUTF8 = ⟨(text.toList.flatMap String.utf8EncodeChar).toArray⟩ := by
  have hlist : (String.ofList text.toList).toByteArray = text.toList.utf8Encode :=
    String.toByteArray_ofList
  rw [String.ofList_toList] at hlist
  rw [String.toUTF8_eq_toByteArray, hlist]
  exact ByteArray.ext List.data_toByteArray

namespace Base64Url

/-! ## The alphabet -/

theorem value?_digit {n : Nat} (h : n < 64) : value? (digit n) = some n := by
  have table : ∀ n : Fin 64, value? (digit n) = some n.val := by decide
  exact table ⟨n, h⟩

theorem digit_of_value? {c : Char} {n : Nat} (h : value? c = some n) : n < 64 ∧ digit n = c := by
  have code : Char.ofNat c.toNat = c := Char.ofNat_toNat c
  have upto (a b : Char) : a ≤ b ↔ a.toNat ≤ b.toNat := Iff.rfl
  unfold value? at h
  split at h
  · next hc =>
    simp only [upto, Option.some.injEq] at hc h
    have ha : 'A'.toNat = 65 := rfl
    have hz : 'Z'.toNat = 90 := rfl
    refine ⟨by omega, ?_⟩
    rw [digit, if_pos (by omega), ← h, Nat.add_sub_cancel' hc.1, code]
  · split at h
    · next hc =>
      simp only [upto, Option.some.injEq] at hc h
      have ha : 'a'.toNat = 97 := rfl
      have hz : 'z'.toNat = 122 := rfl
      refine ⟨by omega, ?_⟩
      rw [digit, if_neg (by omega), if_pos (by omega), ← h, Nat.add_sub_cancel,
        Nat.add_sub_cancel' hc.1, code]
    · split at h
      · next hc =>
        simp only [upto, Option.some.injEq] at hc h
        have ha : '0'.toNat = 48 := rfl
        have hz : '9'.toNat = 57 := rfl
        refine ⟨by omega, ?_⟩
        rw [digit, if_neg (by omega), if_neg (by omega), if_pos (by omega), ← h,
          Nat.add_sub_cancel, Nat.add_sub_cancel' hc.1, code]
      · split at h
        · next hc =>
          simp only [Option.some.injEq] at h
          exact ⟨by omega, by rw [← h, hc]; rfl⟩
        · split at h
          · next hc =>
            simp only [Option.some.injEq] at h
            exact ⟨by omega, by rw [← h, hc]; rfl⟩
          · cases h

/-! ## Reading what was written -/

theorem toUInt8_of_eq {n : Nat} {octet : UInt8} (h : n = octet.toNat) : n.toUInt8 = octet := by
  rw [h, Nat.toUInt8_eq, UInt8.ofNat_toNat]

/-- The induction is the one of `encodeChars`: three octets at a time, and three ways to end. -/
theorem decodeChars_encodeChars : ∀ octets : List UInt8,
    decodeChars (encodeChars octets) = some octets
  | a :: b :: c :: rest => by
    have ha := a.toNat_lt
    have hb := b.toNat_lt
    have hc := c.toNat_lt
    have ih := decodeChars_encodeChars rest
    simp (disch := omega) only [encodeChars, decodeChars, value?_digit, ih, Option.bind_eq_bind,
      Option.bind_some, Option.pure_def, Option.some.injEq, List.cons.injEq, and_true]
    exact ⟨toUInt8_of_eq (by omega), toUInt8_of_eq (by omega), toUInt8_of_eq (by omega)⟩
  | [a, b] => by
    have ha := a.toNat_lt
    have hb := b.toNat_lt
    simp (disch := omega) only [encodeChars, decodeChars, value?_digit, Option.bind_eq_bind,
      Option.bind_some]
    rw [if_pos (by omega)]
    simp only [Option.pure_def, Option.some.injEq, List.cons.injEq, and_true]
    exact ⟨toUInt8_of_eq (by omega), toUInt8_of_eq (by omega)⟩
  | [a] => by
    have ha := a.toNat_lt
    simp (disch := omega) only [encodeChars, decodeChars, value?_digit, Option.bind_eq_bind,
      Option.bind_some]
    rw [if_pos (by omega)]
    simp only [Option.pure_def, Option.some.injEq, List.cons.injEq, and_true]
    exact toUInt8_of_eq (by omega)
  | [] => rfl

/-- What is encoded is decoded to itself. -/
theorem decode?_encode (octets : List UInt8) : decode? (encode octets) = some octets := by
  rw [decode?, encode, String.toList_ofList, decodeChars_encodeChars]

/-- Octets are told apart by how they are encoded. -/
theorem encode_injective {a b : List UInt8} (h : encode a = encode b) : a = b := by
  have := congrArg decode? h
  rwa [decode?_encode, decode?_encode, Option.some.injEq] at this

/-! ## Writing what was read -/

theorem toNat_toUInt8 {n : Nat} (h : n < 256) : n.toUInt8.toNat = n := by
  rw [Nat.toUInt8_eq, UInt8.toNat_ofNat', Nat.mod_eq_of_lt h]

/-- What can be decoded is the encoding of what it is decoded to. -/
theorem encodeChars_of_decodeChars : ∀ {cs : List Char} {octets : List UInt8},
    decodeChars cs = some octets → encodeChars octets = cs
  | a :: b :: c :: d :: rest, octets, h => by
    simp only [decodeChars, Option.bind_eq_bind, Option.bind_eq_some_iff, Option.pure_def,
      Option.some.injEq] at h
    obtain ⟨x, hx, y, hy, z, hz, w, hw, tail, ht, rfl⟩ := h
    obtain ⟨hx64, rfl⟩ := digit_of_value? hx
    obtain ⟨hy64, rfl⟩ := digit_of_value? hy
    obtain ⟨hz64, rfl⟩ := digit_of_value? hz
    obtain ⟨hw64, rfl⟩ := digit_of_value? hw
    rw [encodeChars, encodeChars_of_decodeChars ht]
    simp (disch := omega) only [toNat_toUInt8]
    simp only [List.cons.injEq, and_true]
    refine ⟨congrArg digit ?_, congrArg digit ?_, congrArg digit ?_, congrArg digit ?_⟩ <;> omega
  | [a, b, c], octets, h => by
    simp only [decodeChars, Option.bind_eq_bind, Option.bind_eq_some_iff, Option.pure_def] at h
    obtain ⟨x, hx, y, hy, z, hz, h⟩ := h
    obtain ⟨hx64, rfl⟩ := digit_of_value? hx
    obtain ⟨hy64, rfl⟩ := digit_of_value? hy
    obtain ⟨hz64, rfl⟩ := digit_of_value? hz
    split at h
    · next hlast =>
      cases h
      -- The bits of the last character that go into no octet are zero, so they are
      -- written as they were.
      rw [encodeChars]
      simp (disch := omega) only [toNat_toUInt8]
      simp only [List.cons.injEq, and_true]
      refine ⟨congrArg digit ?_, congrArg digit ?_, congrArg digit ?_⟩ <;> omega
    · cases h
  | [a, b], octets, h => by
    simp only [decodeChars, Option.bind_eq_bind, Option.bind_eq_some_iff, Option.pure_def] at h
    obtain ⟨x, hx, y, hy, h⟩ := h
    obtain ⟨hx64, rfl⟩ := digit_of_value? hx
    obtain ⟨hy64, rfl⟩ := digit_of_value? hy
    split at h
    · next hlast =>
      cases h
      rw [encodeChars]
      simp (disch := omega) only [toNat_toUInt8]
      simp only [List.cons.injEq, and_true]
      refine ⟨congrArg digit ?_, congrArg digit ?_⟩ <;> omega
    · cases h
  | [_], _, h => by cases h
  | [], _, h => by cases h; rfl

/-- A text that can be read is the one that is written. -/
theorem encode_of_decode? {text : String} {octets : List UInt8} (h : decode? text = some octets) :
    encode octets = text := by
  rw [encode, encodeChars_of_decodeChars h, String.ofList_toList]

end Base64Url

end Roster
