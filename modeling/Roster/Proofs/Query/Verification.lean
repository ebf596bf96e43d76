import Mathlib.Data.Rat.Floor
import Roster.Proofs.Query.Token
import Roster.Proofs.Time.Calendar

/-!
# The judgement on a token

`Signer.verify` asks four things in order, and for each of them a text has one way to pass. What
gets past form, tag and claims is a *recognized* token, whatever the answer about its key and its
window is then. Recognized tokens are characterised completely (`recognizes_iff`): the two halves
are the one code of their octets, the second half follows from the first, and only the spelling of
the two times within the payload is free. So a recognized text is determined by its payload, and no
other spelling of it passes.

A minted token is recognized, and its own claims decide the rest. This needs that the times in it
can be read back as integers of 64 bits, which the calendar guarantees: it ends long before they do.

As in `Roster.Proofs.Query.Token`, that somebody without the secret finds no tag is no
matter of this module.
-/

namespace Roster

/-! ## Times in whole milliseconds -/

namespace Instant

variable {t : Instant}

/-- The whole milliseconds since the start of 1970, rounded down also before it. -/
def floorMillis (t : Instant) : Int :=
  ⌊(t.nanos : ℚ) / 1000000⌋

theorem millis_eq_ediv (t : Instant) : t.millis = t.nanos / 1000000 :=
  Int.fdiv_eq_ediv_of_nonneg t.nanos (by decide)

theorem millis_eq_floorMillis (t : Instant) : t.millis = t.floorMillis := by
  rw [millis_eq_ediv]
  exact (Rat.floor_intCast_div_natCast t.nanos 1000000).symm

theorem InCalendar.isMillis (h : t.InCalendar) : Token.IsMillis t.millis := by
  obtain ⟨hfirst, hlast⟩ := h
  simp only [first, last, nanosPerSecond] at hfirst hlast
  rw [Token.IsMillis, millis_eq_ediv]
  constructor <;> simp only [Nat.pow_eq] <;> omega

end Instant

/-! ## Claims as they are written -/

namespace Token

open Decimal

variable {c : Claims} {now : Instant} {payload : List UInt8}

/-- How an integer of 64 bits is written: digits, with or without a sign before them. -/
inductive IsInt64 : List Char → Prop where
  | digits {ds : List Char} : IsDigits ds → IsMillis (Nat.ofDigitChars 10 ds 0) → IsInt64 ds
  | plus {ds : List Char} : IsDigits ds → IsMillis (Nat.ofDigitChars 10 ds 0) → IsInt64 ('+' :: ds)
  | minus {ds : List Char} :
      IsDigits ds → IsMillis (-(Nat.ofDigitChars 10 ds 0)) → IsInt64 ('-' :: ds)

theorem readMillis_plus {ds : List Char} (h : IsDigits ds) : readMillis ('+' :: ds) =
    if IsMillis (Nat.ofDigitChars 10 ds 0) then some (Nat.ofDigitChars 10 ds 0 : Int)
    else none := by
  simp only [readMillis, isDigits_iff.mp h, Bool.false_eq_true, if_false]
  rfl

theorem isInt64_of_readMillis {cs : List Char} {n : Int} (h : readMillis cs = some n) :
    IsInt64 cs := by
  unfold readMillis at h
  split at h
  next negative ds hsign =>
  split at h
  · cases h
  · next hdigits =>
    have hds := isDigits_iff.mpr (Bool.eq_false_of_not_eq_true hdigits)
    obtain ⟨hfits, -⟩ := Option.ite_none_right_eq_some.mp h
    split at hsign
    · cases hsign
      exact .minus hds hfits
    · cases hsign
      exact .plus hds hfits
    · cases hsign
      exact .digits hds hfits

/-- A time is read if and only if it is an integer of 64 bits. -/
theorem exists_readMillis_iff {cs : List Char} : (∃ n, readMillis cs = some n) ↔ IsInt64 cs := by
  constructor
  · rintro ⟨n, h⟩
    exact isInt64_of_readMillis h
  · intro h
    cases h with
    | digits hds hfits => exact ⟨_, by rw [readMillis_digits hds, if_pos hfits]⟩
    | plus hds hfits => exact ⟨_, by rw [readMillis_plus hds, if_pos hfits]⟩
    | minus hds hfits => exact ⟨_, by rw [readMillis_minus hds, if_pos hfits]⟩

theorem octets_of_fromUTF8? {text : String} (h : String.fromUTF8? ⟨payload.toArray⟩ = some text) :
    payload = octets text := by
  rw [octets, toUTF8_of_fromUTF8? h]

/-- What can be read as claims: three parts, of which the last two are integers of 64 bits. -/
theorem exists_parse?_iff : (∃ c, Claims.parse? payload = some c) ↔
    ∃ (text : String) (digest start stop : List Char), payload = octets text ∧
      text.toList.splitOn '.' = [digest, start, stop] ∧ IsInt64 start ∧ IsInt64 stop := by
  constructor
  · rintro ⟨c, h⟩
    rw [Claims.parse?] at h
    obtain ⟨text, htext, h⟩ := Option.bind_eq_some_iff.mp h
    split at h
    · next digest start stop hsplit =>
      obtain ⟨n, hstart, h⟩ := Option.bind_eq_some_iff.mp h
      obtain ⟨m, hstop, -⟩ := Option.bind_eq_some_iff.mp h
      exact ⟨text, digest, start, stop, octets_of_fromUTF8? htext, hsplit,
        isInt64_of_readMillis hstart, isInt64_of_readMillis hstop⟩
    · cases h
  · rintro ⟨text, digest, start, stop, rfl, hsplit, hstart, hstop⟩
    obtain ⟨n, hn⟩ := exists_readMillis_iff.mpr hstart
    obtain ⟨m, hm⟩ := exists_readMillis_iff.mpr hstop
    exact ⟨⟨.ofList digest, n, m⟩, by simp [Claims.parse?, fromUTF8?_octets, hsplit, hn, hm]⟩

theorem Claims.statusAt_eq_notYetValid_iff :
    c.statusAt now = .notYetValid ↔ now.millis < c.start := by
  unfold statusAt
  split
  · next hearly => exact iff_of_true rfl hearly
  · next hearly =>
    refine iff_of_false ?_ hearly
    split <;> nofun

theorem Claims.statusAt_eq_expired_iff :
    c.statusAt now = .expired ↔ ¬now.millis < c.start ∧ c.stop ≤ now.millis := by
  unfold statusAt
  split
  · next hearly => exact iff_of_false nofun fun h => h.1 hearly
  · next hearly =>
    split
    · next hlate => exact iff_of_true rfl ⟨hearly, hlate⟩
    · next hlate => exact iff_of_false nofun fun h => hlate h.2

end Token

namespace Signer

open Token

variable {s : Signer} {token token' key key' : String} {now now' start stop : Instant}
  {payload : List UInt8} {c : Claims}

/-! ## Recognized texts -/

/-- A text with form, tag and claims in order: it is judged by its key and its window. -/
def Recognizes (s : Signer) (token key : String) (now : Instant) : Prop :=
  (∃ status, s.verify token key now = .ok status) ∨ s.verify token key now = .error .wrongKey

/-- The octets that a text is a token for, if it is one. -/
def payload? (token : String) : Option (List UInt8) :=
  (split? token).map Prod.fst

theorem verify_of_split? (hsplit : split? token = some (payload, Hmac.tag s.secret payload))
    (hc : Claims.parse? payload = some c) : s.verify token key now =
      if c.digest ≠ keyDigest key then .error .wrongKey else .ok (c.statusAt now) := by
  simp [verify, hsplit, hc]

theorem recognizes_iff_split? : s.Recognizes token key now ↔
    ∃ payload, split? token = some (payload, Hmac.tag s.secret payload) ∧
      ∃ c, Claims.parse? payload = some c := by
  constructor
  · intro h
    unfold Recognizes verify at h
    split at h
    · obtain ⟨_, h⟩ | h := h <;> cases h
    · next payload tag hsplit =>
      split at h
      · obtain ⟨_, h⟩ | h := h <;> cases h
      · next htag =>
        rw [Classical.not_not] at htag
        split at h
        · obtain ⟨_, h⟩ | h := h <;> cases h
        · next c hc => exact ⟨payload, by rw [hsplit, htag], c, hc⟩
  · rintro ⟨payload, hsplit, c, hc⟩
    rw [Recognizes, verify_of_split? hsplit hc]
    by_cases hdigest : c.digest = keyDigest key
    · exact .inl ⟨c.statusAt now, by simp [hdigest]⟩
    · exact .inr (by simp [hdigest])

/-- A token is recognized if and only if it is the signed form of three parts, of which two are
    times. -/
theorem recognizes_iff : s.Recognizes token key now ↔
    ∃ (text : String) (digest start stop : List Char),
      token = Base64Url.encode (octets text) ++ "." ++
        Base64Url.encode (Hmac.tag s.secret (octets text)) ∧
      text.toList.splitOn '.' = [digest, start, stop] ∧ IsInt64 start ∧ IsInt64 stop := by
  simp only [recognizes_iff_split?, split?_eq_some_iff, exists_parse?_iff]
  constructor
  · rintro ⟨_, htoken, text, digest, start, stop, rfl, hparts⟩
    exact ⟨text, digest, start, stop, htoken, hparts⟩
  · rintro ⟨text, digest, start, stop, htoken, hparts⟩
    exact ⟨_, htoken, text, digest, start, stop, rfl, hparts⟩

theorem payload?_signed (s : Signer) (payload : List UInt8) :
    payload? (s.signed payload) = some payload := by
  rw [payload?, split?_signed, Option.map_some]

theorem Recognizes.eq_signed (h : s.Recognizes token key now) :
    ∃ payload, payload? token = some payload ∧ token = s.signed payload := by
  obtain ⟨payload, hsplit, -⟩ := recognizes_iff_split?.mp h
  exact ⟨payload, by rw [payload?, hsplit, Option.map_some], split?_eq_some_iff.mp hsplit⟩

/-- A recognized text is determined by its payload. -/
theorem Recognizes.eq_of_payload? (h : s.Recognizes token key now)
    (h' : s.Recognizes token' key' now') (hpayload : payload? token' = payload? token) :
    token' = token := by
  obtain ⟨payload, hsome, rfl⟩ := h.eq_signed
  obtain ⟨payload', hsome', rfl⟩ := h'.eq_signed
  rw [hsome, hsome', Option.some.injEq] at hpayload
  rw [hpayload]

/-- **Only a text that is signed as a whole is recognized, and it cannot be respelled.** Such a text
    is the code of three parts with two integers at their end, then a point and the code of their
    tag. It is the only one with its payload. Any other text is refused before its key is looked at,
    for every key at every time, or stands for other octets. -/
theorem recognized_not_malleable (h : s.Recognizes token key now) :
    (∃ (text : String) (digest start stop : List Char),
      token = Base64Url.encode (octets text) ++ "." ++
        Base64Url.encode (Hmac.tag s.secret (octets text)) ∧
      payload? token = some (octets text) ∧
      text.toList.splitOn '.' = [digest, start, stop] ∧ IsInt64 start ∧ IsInt64 stop) ∧
    (∀ token' key' now', s.Recognizes token' key' now' → payload? token' = payload? token →
      token' = token) ∧
    ∀ token' key' now', token' ≠ token →
      (∃ fault, fault ≠ .wrongKey ∧ s.verify token' key' now' = .error fault) ∨
        ∃ other, payload? token' = some other ∧ payload? token ≠ some other := by
  have hunique : ∀ token' key' now', s.Recognizes token' key' now' →
      payload? token' = payload? token → token' = token := fun _ _ _ h' => h.eq_of_payload? h'
  refine ⟨?_, hunique, ?_⟩
  · obtain ⟨text, digest, start, stop, htoken, hparts⟩ := recognizes_iff.mp h
    exact ⟨text, digest, start, stop, htoken, by rw [htoken]; exact payload?_signed s _, hparts⟩
  · intro token' key' now' hne
    by_cases h' : s.Recognizes token' key' now'
    · obtain ⟨other, hother, -⟩ := h'.eq_signed
      exact .inr ⟨other, hother, fun hsame => hne (hunique _ _ _ h' (hother.trans hsame.symm))⟩
    · rw [Recognizes, not_or] at h'
      cases hanswer : s.verify token' key' now' with
      | ok status => exact absurd ⟨status, hanswer⟩ h'.1
      | error fault => exact .inl ⟨fault, fun hwrong => h'.2 (by rw [hanswer, hwrong]), rfl⟩

theorem recognized_not_malleable_of_sample :
    (⟨[7]⟩ : Signer).Recognizes (mint ⟨[7]⟩ "key1" ⟨0⟩ ⟨5⟩) "key2" ⟨3⟩ ∧
    ∀ extra, mint ⟨[7]⟩ "key1" ⟨0⟩ ⟨5⟩ ++ extra ≠ mint ⟨[7]⟩ "key1" ⟨0⟩ ⟨5⟩ →
      (∃ fault, fault ≠ .wrongKey ∧
        (⟨[7]⟩ : Signer).verify (mint ⟨[7]⟩ "key1" ⟨0⟩ ⟨5⟩ ++ extra) "key1" ⟨3⟩ = .error fault) ∨
      ∃ other, payload? (mint ⟨[7]⟩ "key1" ⟨0⟩ ⟨5⟩ ++ extra) = some other ∧
        payload? (mint ⟨[7]⟩ "key1" ⟨0⟩ ⟨5⟩) ≠ some other := by
  have hrecognized : (⟨[7]⟩ : Signer).Recognizes (mint ⟨[7]⟩ "key1" ⟨0⟩ ⟨5⟩) "key2" ⟨3⟩ :=
    .inr (by decide +kernel)
  obtain ⟨-, -, hothers⟩ := recognized_not_malleable hrecognized
  exact ⟨hrecognized, fun extra => hothers _ "key1" ⟨3⟩⟩

/-! ## Minted tokens -/

/-- A minted token is verified by the digest of its key and by the time. -/
theorem verify_mint_eq (hstart : IsMillis start.millis) (hstop : IsMillis stop.millis) :
    s.verify (s.mint key start stop) key' now =
      if keyDigest key ≠ keyDigest key' then .error .wrongKey
      else .ok (Claims.statusAt ⟨keyDigest key, start.millis, stop.millis⟩ now) := by
  have hparse := Claims.parse?_render (c := ⟨keyDigest key, start.millis, stop.millis⟩)
    (point_not_mem_keyDigest key)
  rw [if_pos ⟨hstart, hstop⟩] at hparse
  exact verify_of_split? (split?_signed s _) hparse

/-- **A token stands for its window and its key, exactly.** For the key that it was made for it is
    not valid yet, expired or valid as the clock in whole milliseconds says, also for a window that
    is upside down. Another key is refused exactly if the first twelve octets of its digest differ,
    and otherwise gets the same answer. -/
theorem verify_mint (hstart : start.InCalendar) (hstop : stop.InCalendar) :
    ∃ status, s.verify (s.mint key start stop) key now = .ok status ∧
      (status = .notYetValid ↔ now.floorMillis < start.floorMillis) ∧
      (status = .expired ↔ ¬now.floorMillis < start.floorMillis ∧
        stop.floorMillis ≤ now.floorMillis) ∧
      (status = .valid ↔ start.floorMillis ≤ now.floorMillis ∧ now.floorMillis < stop.floorMillis) ∧
      ∀ key',
        (s.verify (s.mint key start stop) key' now = .error .wrongKey ↔
          (Sha256.digest (octets key)).take 12 ≠ (Sha256.digest (octets key')).take 12) ∧
        ((Sha256.digest (octets key)).take 12 = (Sha256.digest (octets key')).take 12 →
          s.verify (s.mint key start stop) key' now = .ok status) := by
  have hverify (key' : String) : s.verify (s.mint key start stop) key' now = _ :=
    verify_mint_eq hstart.isMillis hstop.isMillis
  simp only [← Instant.millis_eq_floorMillis, ne_eq, ← keyDigest_eq_iff, hverify]
  refine ⟨Claims.statusAt ⟨keyDigest key, start.millis, stop.millis⟩ now,
    if_neg (not_not_intro trivial), Claims.statusAt_eq_notYetValid_iff,
    Claims.statusAt_eq_expired_iff, Claims.statusAt_eq_valid_iff, fun key' => ⟨?_, ?_⟩⟩
  · by_cases hkey : keyDigest key = keyDigest key'
    · simp [hkey]
    · simp [hkey]
  · intro hkey
    exact if_neg (not_not_intro hkey)

/-- The window is a millisecond before 1970, and its bounds and the clock are
    between two milliseconds. -/
theorem verify_mint_before_1970 :
    (⟨-1500000⟩ : Instant).InCalendar ∧ (⟨-1⟩ : Instant).InCalendar ∧
    (⟨[7]⟩ : Signer).verify (mint ⟨[7]⟩ "key1" ⟨-1500000⟩ ⟨-1⟩) "key1" ⟨-1999999⟩ = .ok .valid ∧
    (⟨[7]⟩ : Signer).verify (mint ⟨[7]⟩ "key1" ⟨-1500000⟩ ⟨-1⟩) "key2" ⟨-1999999⟩ =
      .error .wrongKey := by
  have hstart : (⟨-1500000⟩ : Instant).InCalendar := by decide
  have hstop : (⟨-1⟩ : Instant).InCalendar := by decide
  obtain ⟨status, hok, -, -, hvalid, hkeys⟩ :=
    @verify_mint ⟨[7]⟩ "key1" ⟨-1999999⟩ ⟨-1500000⟩ ⟨-1⟩ hstart hstop
  have hstatus : status = .valid := by
    simp only [hvalid, ← Instant.millis_eq_floorMillis]
    decide
  rw [hstatus] at hok
  exact ⟨hstart, hstop, hok, (hkeys "key2").1.mpr (by decide +kernel)⟩

end Signer

end Roster
