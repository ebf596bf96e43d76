import Mathlib.Data.List.TakeDrop
import Roster.Proofs.Decimal.Numeral
import Roster.Proofs.Text.Octets
import Roster.Query.Token

/-!
# What a token proves

A token that is accepted was signed with the secret (`exists_signed_of_accepts`), and a signed text
is read back as it was written: its payload and its tag by the code of their octets, and the claims
in it because none of their parts has a point. So a token is accepted exactly for the keys and the
times that it was made for (`accepts_mint_iff`).

Nothing is said about who can sign. That is a property of the digest, not of this code.
-/

namespace Roster

/-! ## Points -/

namespace Base64Url

theorem mem_encodeChars {c : Char} : ∀ {octets : List UInt8}, c ∈ encodeChars octets →
    ∃ n, n < 64 ∧ c = digit n
  | x :: y :: z :: rest, h => by
    have hx := x.toNat_lt
    have hy := y.toNat_lt
    have hz := z.toNat_lt
    simp only [encodeChars, List.mem_cons] at h
    obtain h | h | h | h | h := h
    · exact ⟨_, by omega, h⟩
    · exact ⟨_, by omega, h⟩
    · exact ⟨_, by omega, h⟩
    · exact ⟨_, by omega, h⟩
    · exact mem_encodeChars h
  | [x, y], h => by
    have hx := x.toNat_lt
    have hy := y.toNat_lt
    simp only [encodeChars, List.mem_cons, List.not_mem_nil, or_false] at h
    obtain h | h | h := h
    · exact ⟨_, by omega, h⟩
    · exact ⟨_, by omega, h⟩
    · exact ⟨_, by omega, h⟩
  | [x], h => by
    have hx := x.toNat_lt
    simp only [encodeChars, List.mem_cons, List.not_mem_nil, or_false] at h
    obtain h | h := h
    · exact ⟨_, by omega, h⟩
    · exact ⟨_, by omega, h⟩
  | [], h => by cases h

theorem point_not_mem_encodeChars (octets : List UInt8) : '.' ∉ encodeChars octets := by
  intro h
  obtain ⟨n, hn, hpoint⟩ := mem_encodeChars h
  have hvalue := value?_digit hn
  rw [← hpoint] at hvalue
  cases hvalue

end Base64Url

namespace Decimal

theorem toList_text_ofInt (n : Int) : (Numeral.ofInt n).text.toList =
    (if n < 0 then ['-'] else []) ++ Nat.toDigits 10 n.natAbs := by
  simp [Numeral.text, Numeral.chars, Numeral.ofInt]

theorem point_not_mem_text_ofInt (n : Int) : '.' ∉ (Numeral.ofInt n).text.toList := by
  rw [toList_text_ofInt, List.mem_append]
  rintro (hsign | hdigit)
  · split at hsign
    · exact absurd hsign (by decide)
    · cases hsign
  · exact absurd ((isDigits_toDigits _).isDigit _ hdigit) (by decide)

end Decimal

namespace Token

open Decimal

variable {c : Claims} {n : Int} {key key' : String} {now start stop : Instant}

/-! ## Reading claims back -/

/-- The times that a token can hold. -/
def IsMillis (n : Int) : Prop :=
  -Nat.pow 2 63 ≤ n ∧ n < Nat.pow 2 63

instance (n : Int) : Decidable (IsMillis n) :=
  inferInstanceAs (Decidable (_ ∧ _))

theorem readMillis_minus {ds : List Char} (h : IsDigits ds) : readMillis ('-' :: ds) =
    if IsMillis (-(Nat.ofDigitChars 10 ds 0)) then some (-(Nat.ofDigitChars 10 ds 0) : Int)
    else none := by
  have hempty : ds.isEmpty = false := List.isEmpty_eq_false_iff.mpr h.ne_nil
  have hall : ds.all Char.isDigit = true := List.all_eq_true.mpr h.isDigit
  simp only [readMillis, hempty, hall, Bool.not_true, Bool.or_self, Bool.false_eq_true,
    if_false, if_true]
  rfl

theorem readMillis_digits {ds : List Char} (h : IsDigits ds) : readMillis ds =
    if IsMillis (Nat.ofDigitChars 10 ds 0) then some (Nat.ofDigitChars 10 ds 0 : Int)
    else none := by
  have hempty : ds.isEmpty = false := List.isEmpty_eq_false_iff.mpr h.ne_nil
  have hall : ds.all Char.isDigit = true := List.all_eq_true.mpr h.isDigit
  simp only [readMillis]
  split
  -- A digit is no sign.
  · exact absurd (h.isDigit '-' List.mem_cons_self) (by decide)
  · exact absurd (h.isDigit '+' List.mem_cons_self) (by decide)
  · simp only [hempty, hall, Bool.not_true, Bool.or_self, Bool.false_eq_true, if_false]
    rfl

/-- A time that is written is read back, if it is one. -/
theorem readMillis_ofInt (n : Int) :
    readMillis (Numeral.ofInt n).text.toList = if IsMillis n then some n else none := by
  have hdigits := isDigits_toDigits n.natAbs
  rw [toList_text_ofInt]
  by_cases hneg : n < 0
  · have habs : -(n.natAbs : Int) = n := by omega
    rw [if_pos hneg, List.singleton_append, readMillis_minus hdigits,
      Nat.ofDigitChars_ten_toDigits, habs]
  · have habs : (n.natAbs : Int) = n := by omega
    rw [if_neg hneg, List.nil_append, readMillis_digits hdigits,
      Nat.ofDigitChars_ten_toDigits, habs]

theorem fromUTF8?_octets (text : String) :
    String.fromUTF8? ⟨(octets text).toArray⟩ = some text := by
  rw [octets, Array.toArray_toList]
  exact fromUTF8?_toUTF8 text

/-- Claims are read as they were written, as far as their times can be read at all. -/
theorem Claims.parse?_render (h : '.' ∉ c.digest.toList) :
    Claims.parse? (octets c.render) =
      if IsMillis c.start ∧ IsMillis c.stop then some c else none := by
  have hlist : c.render.toList = ['.'].intercalate [c.digest.toList,
      (Numeral.ofInt c.start).text.toList, (Numeral.ofInt c.stop).text.toList] := by
    simp [render]
  have hsplit : c.render.toList.splitOn '.' = [c.digest.toList,
      (Numeral.ofInt c.start).text.toList, (Numeral.ofInt c.stop).text.toList] := by
    rw [hlist]
    refine List.splitOn_intercalate '.' ?_ (by simp)
    simpa using ⟨h, point_not_mem_text_ofInt _, point_not_mem_text_ofInt _⟩
  rw [parse?, fromUTF8?_octets]
  simp only [Option.bind_eq_bind, Option.bind_some, hsplit, readMillis_ofInt, String.ofList_toList]
  by_cases hstart : IsMillis c.start
  · by_cases hstop : IsMillis c.stop
    · simp [hstart, hstop]
    · simp [hstart, hstop]
  · simp [hstart]

theorem point_not_mem_keyDigest (key : String) : '.' ∉ (keyDigest key).toList := by
  rw [keyDigest, Base64Url.encode, String.toList_ofList]
  exact Base64Url.point_not_mem_encodeChars _

/-- Two keys have the same digest exactly if the first twelve octets agree of what
    they are digested to. -/
theorem keyDigest_eq_iff : keyDigest key = keyDigest key' ↔
    (Sha256.digest (octets key)).take 12 = (Sha256.digest (octets key')).take 12 :=
  ⟨Base64Url.encode_injective, congrArg Base64Url.encode⟩

/-- Claims are valid from their start on, up to their stop. -/
theorem Claims.statusAt_eq_valid_iff :
    c.statusAt now = .valid ↔ c.start ≤ now.millis ∧ now.millis < c.stop := by
  unfold statusAt
  split
  · next hearly => exact iff_of_false nofun fun h => Int.not_le.mpr hearly h.1
  · split
    · next hlate => exact iff_of_false nofun fun h => Int.not_lt.mpr hlate h.2
    · next hearly hlate => exact iff_of_true rfl ⟨Int.not_lt.mp hearly, Int.not_le.mp hlate⟩

end Token

/-! ## Signatures -/

namespace Signer

open Token

variable {s : Signer} {token key key' : String} {now start stop : Instant}
  {payload tag : List UInt8}

/-- A token is split at its point into what its two parts encode. -/
theorem split?_eq_some_iff : split? token = some (payload, tag) ↔
    token = Base64Url.encode payload ++ "." ++ Base64Url.encode tag := by
  have hpoint : ∀ c ∈ Base64Url.encodeChars payload, decide (c ≠ '.') = true := by
    intro c hc
    simp only [decide_eq_true_eq]
    rintro rfl
    exact Base64Url.point_not_mem_encodeChars _ hc
  constructor
  · intro h
    unfold split? at h
    split at h
    · next before after hspan =>
      simp only [Option.bind_eq_bind, Option.bind_eq_some_iff, Option.pure_def, Option.some.injEq,
        Prod.mk.injEq] at h
      obtain ⟨payload', hpayload, tag', htag, rfl, rfl⟩ := h
      rw [List.span_eq_takeWhile_dropWhile, Prod.mk.injEq] at hspan
      have hjoin := List.takeWhile_append_dropWhile (p := (decide <| · ≠ '.')) (l := token.toList)
      rw [hspan.1, hspan.2] at hjoin
      apply String.ext
      simp [Base64Url.encode, Base64Url.encodeChars_of_decodeChars hpayload,
        Base64Url.encodeChars_of_decodeChars htag, ← hjoin]
    · cases h
  · rintro rfl
    have hlist : (Base64Url.encode payload ++ "." ++ Base64Url.encode tag).toList =
        Base64Url.encodeChars payload ++ '.' :: Base64Url.encodeChars tag := by
      simp [Base64Url.encode]
    rw [split?, hlist, List.span_eq_takeWhile_dropWhile, List.takeWhile_append_of_pos hpoint,
      List.dropWhile_append_of_pos hpoint]
    simp [Base64Url.decodeChars_encodeChars]

/-- A token is accepted if it is signed, names the key and is valid now. -/
theorem accepts_iff : s.accepts token key now ↔
    ∃ payload c, split? token = some (payload, Hmac.tag s.secret payload) ∧
      Claims.parse? payload = some c ∧ c.digest = keyDigest key ∧
      c.start ≤ now.millis ∧ now.millis < c.stop := by
  constructor
  · intro h
    unfold accepts verify at h
    cases hsplit : split? token with
    | none => simp [hsplit] at h
    | some parts =>
      obtain ⟨payload, tag⟩ := parts
      by_cases htag : tag = Hmac.tag s.secret payload
      · cases hparse : Claims.parse? payload with
        | none => simp [hsplit, htag, hparse] at h
        | some c =>
          by_cases hdigest : c.digest = keyDigest key
          · cases hstatus : c.statusAt now with
            | valid =>
              obtain ⟨hstart, hstop⟩ := Claims.statusAt_eq_valid_iff.mp hstatus
              exact ⟨payload, c, by rw [htag], hparse, hdigest, hstart, hstop⟩
            | notYetValid => simp [hsplit, htag, hparse, hdigest, hstatus] at h
            | expired => simp [hsplit, htag, hparse, hdigest, hstatus] at h
          · simp [hsplit, htag, hparse, hdigest] at h
      · simp [hsplit, htag] at h
  · rintro ⟨payload, c, hsplit, hparse, hdigest, hwindow⟩
    have hstatus := Claims.statusAt_eq_valid_iff.mpr hwindow
    simp [accepts, verify, hsplit, hparse, hdigest, hstatus]

/-- A token that is accepted is a signed payload. -/
theorem exists_signed_of_accepts (h : s.accepts token key now) :
    ∃ payload, split? token = some (payload, Hmac.tag s.secret payload) := by
  obtain ⟨payload, -, hsplit, -⟩ := accepts_iff.mp h
  exact ⟨payload, hsplit⟩

theorem split?_signed (s : Signer) (payload : List UInt8) :
    split? (s.signed payload) = some (payload, Hmac.tag s.secret payload) :=
  split?_eq_some_iff.mpr rfl

theorem mint_ne_empty (s : Signer) (key : String) (start stop : Instant) :
    s.mint key start stop ≠ "" := by
  intro hempty
  have hsplit := split?_signed s
    (octets (Claims.render ⟨keyDigest key, start.millis, stop.millis⟩))
  change split? (s.mint key start stop) = _ at hsplit
  rw [hempty] at hsplit
  cases hsplit

/-- **A token is accepted exactly for keys of the same digest as the one it was made for, and within
    its window**, if the bounds of the window can be written. -/
theorem accepts_mint_iff : s.accepts (s.mint key' start stop) key now ↔
    (IsMillis start.millis ∧ IsMillis stop.millis) ∧ keyDigest key' = keyDigest key ∧
      start.millis ≤ now.millis ∧ now.millis < stop.millis := by
  have hparse := Claims.parse?_render (c := ⟨keyDigest key', start.millis, stop.millis⟩)
    (point_not_mem_keyDigest key')
  rw [accepts_iff]
  constructor
  · rintro ⟨payload, c, hsplit, hc, hdigest, hwindow⟩
    rw [mint, split?_signed, Option.some.injEq, Prod.mk.injEq] at hsplit
    obtain ⟨rfl, -⟩ := hsplit
    rw [hparse] at hc
    split at hc
    · next hfits =>
      cases hc
      exact ⟨hfits, hdigest, hwindow⟩
    · cases hc
  · rintro ⟨hfits, hdigest, hwindow⟩
    exact ⟨_, _, split?_signed s _, by rw [hparse, if_pos hfits], hdigest, hwindow⟩

end Signer

end Roster
