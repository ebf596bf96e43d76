import Roster.Proofs.Text.Octets
import Roster.Url.Percent

/-!
# Percent encoding there and back

What is written of a text is read back as its octets, whatever else is encoded, if percent signs are
(`decodeOctets_encodeWith`). For then every percent sign that is found in the written form was put
there by the encoding. Of the characters of the written form nothing else is asked than where they
come from: they are percent signs, digits, or characters of the text that are not encoded
(`mem_encodeWith`).
-/

namespace Roster.Url

variable {set : Char → Bool} {c : Char} {cs rest : List Char}

/-! ## Octets -/

theorem hexOctet?_digits (octet : UInt8) :
    hexOctet? (Nat.digitChar (octet.toNat / 16)).toUpper
      (Nat.digitChar (octet.toNat % 16)).toUpper = some octet := by
  have table : ∀ n : Fin 256, hexOctet? (Nat.digitChar (n.val / 16)).toUpper
      (Nat.digitChar (n.val % 16)).toUpper = some n.val.toUInt8 := by decide +kernel
  rw [table ⟨octet.toNat, octet.toNat_lt⟩, Nat.toUInt8_eq, UInt8.ofNat_toNat]

/-- An octet that is written by its number comes back. -/
theorem decodeOctets_percentOctet (octet : UInt8) (rest : List Char) :
    decodeOctets (percentOctet octet ++ rest) = octet :: decodeOctets rest := by
  simp only [percentOctet, List.cons_append, List.nil_append, decodeOctets, hexOctet?_digits]

theorem decodeOctets_flatMap_percentOctet (octets : List UInt8) (rest : List Char) :
    decodeOctets (octets.flatMap percentOctet ++ rest) = octets ++ decodeOctets rest := by
  induction octets with
  | nil => rfl
  | cons octet octets ih =>
    rw [List.flatMap_cons, List.append_assoc, decodeOctets_percentOctet, ih, List.cons_append]

theorem decodeOctets_cons (h : c ≠ '%') :
    decodeOctets (c :: rest) = octetsOf c ++ decodeOctets rest := by
  rw [decodeOctets]
  exact fun _ _ _ heq _ => h heq

/-- The characters that an octet is written with. -/
theorem mem_percentOctet {octet : UInt8} (h : c ∈ percentOctet octet) :
    c ∈ "%0123456789ABCDEF".toList := by
  have table : ∀ n : Fin 256,
      ['%', (Nat.digitChar (n.val / 16)).toUpper, (Nat.digitChar (n.val % 16)).toUpper] ⊆
        "%0123456789ABCDEF".toList := by
    decide +kernel
  exact table ⟨octet.toNat, octet.toNat_lt⟩ h

/-! ## Texts -/

theorem encodeWith_cons (set : Char → Bool) (c : Char) (cs : List Char) :
    encodeWith set (c :: cs) =
      (if alwaysEncoded c || set c then (octetsOf c).flatMap percentOctet else [c]) ++
        encodeWith set cs := by
  rw [encodeWith, List.flatMap_cons]
  rfl

/-- **What is written is read back as the octets of the text.** -/
theorem decodeOctets_encodeWith (hset : set '%') (cs : List Char) :
    decodeOctets (encodeWith set cs) = cs.flatMap octetsOf := by
  induction cs with
  | nil => rfl
  | cons c cs ih =>
    rw [encodeWith_cons, List.flatMap_cons]
    split
    · rw [decodeOctets_flatMap_percentOctet, ih]
    · next hplain =>
      -- a percent sign would have been encoded
      have hne : c ≠ '%' := by
        rintro rfl
        simp [hset] at hplain
      rw [List.singleton_append, decodeOctets_cons hne, ih]

/-- The text that percent-encoded characters stand for, if they stand for one. -/
def decoded? (cs : List Char) : Option String :=
  String.fromUTF8? ⟨(decodeOctets cs).toArray⟩

/-- A text comes back out of its encoding, if the percent sign is encoded too. -/
theorem decoded?_encodeWith (hset : set '%') (text : String) :
    decoded? (encodeWith set text.toList) = some text := by
  have hutf8 : text.toUTF8 = ⟨(text.toList.flatMap octetsOf).toArray⟩ := toUTF8_eq_flatMap text
  rw [decoded?, decodeOctets_encodeWith hset, ← hutf8]
  exact fromUTF8?_toUTF8 text

/-- Where the characters of a written form come from. -/
theorem mem_encodeWith (h : c ∈ encodeWith set cs) :
    c ∈ "%0123456789ABCDEF".toList ∨ c ∈ cs ∧ alwaysEncoded c = false ∧ set c = false := by
  obtain ⟨d, hd, hc⟩ := List.mem_flatMap.mp h
  split at hc
  · obtain ⟨octet, -, hdigit⟩ := List.mem_flatMap.mp hc
    exact .inl (mem_percentOctet hdigit)
  · next hplain =>
    rw [List.mem_singleton.mp hc]
    simp only [Bool.or_eq_true, not_or, Bool.not_eq_true] at hplain
    exact .inr ⟨hd, hplain⟩

end Roster.Url
