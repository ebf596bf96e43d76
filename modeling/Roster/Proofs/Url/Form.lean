import Mathlib.Data.List.TakeDrop
import Roster.Proofs.Url.Percent
import Roster.Url.Basic

/-!
# Forms there and back

A text that was written into a form is read back from it, whatever characters it has
(`formDecode_formEncode`). This is the octets of the text first, where it matters that plus signs
become blanks before percent signs are read, and then the text of these octets. The reader of octets
is one that puts replacement characters where something is wrong, so that there has to be nothing
wrong with the octets of a character: its first octet announces how many there are, and the second
one is within the bounds that the first one sets (`starts_octetsOf`).

A pair that is added stands after those that are there, since no name and no value that is written
has a character that would join it to another or take it apart (`pairs_addPair`). What is there
already is only read: it need not have been written like this.
-/

namespace Roster.Url

variable {c : Char} {cs : List Char} {low high octet : UInt8} {octets tail : List UInt8}
  {fuel n : Nat}

/-! ## The octets of a character -/

/-- What announces that a character has so many octets after the first one, which follow it. -/
structure Starts (lead : UInt8) (rest : List UInt8) (low high : UInt8) : Prop where
  beyond : ¬ lead < 0x80
  announced : sequenceOf lead = some (rest.length + 1, low, high)
  continued : ∀ tail, continuation rest.length low high (rest ++ tail) = rest.length

theorem sequenceOf_two (h : n < 30) : sequenceOf (.ofNat (0xC2 + n)) = some (2, 0x80, 0xBF) := by
  have table : ∀ n : Fin 30, sequenceOf (.ofNat (0xC2 + n.val)) = some (2, 0x80, 0xBF) := by decide
  exact table ⟨n, h⟩

/-- The bounds after the first octet of three exclude what two would do for, and the surrogates. -/
theorem sequenceOf_three (h : n < 16) : sequenceOf (.ofNat (0xE0 + n)) =
    some (3, if n = 0 then 0xA0 else 0x80, if n = 13 then 0x9F else 0xBF) := by
  have table : ∀ n : Fin 16, sequenceOf (.ofNat (0xE0 + n.val)) =
      some (3, if n.val = 0 then 0xA0 else 0x80, if n.val = 13 then 0x9F else 0xBF) := by decide
  exact table ⟨n, h⟩

/-- The bounds after the first octet of four exclude what three would do for, and what is beyond
    the last character. -/
theorem sequenceOf_four (h : n < 5) : sequenceOf (.ofNat (0xF0 + n)) =
    some (4, if n = 0 then 0x90 else 0x80, if n = 4 then 0x8F else 0xBF) := by
  have table : ∀ n : Fin 5, sequenceOf (.ofNat (0xF0 + n.val)) =
      some (4, if n.val = 0 then 0x90 else 0x80, if n.val = 4 then 0x8F else 0xBF) := by decide
  exact table ⟨n, h⟩

theorem continuation_cons (h : low ≤ octet ∧ octet ≤ high) :
    continuation (n + 1) low high (octet :: octets) = continuation n 0x80 0xBF octets + 1 :=
  if_pos h

theorem le_ofNat (hm : n < 256) (h : low.toNat ≤ n ∧ n ≤ high.toNat) :
    low ≤ .ofNat n ∧ .ofNat n ≤ high := by
  rw [UInt8.le_iff_toNat_le, UInt8.le_iff_toNat_le, UInt8.toNat_ofNat_of_lt' hm]
  exact h

/-- The last six bits of an octet that is not the first. -/
theorem continues (n : Nat) :
    (0x80 : UInt8) ≤ .ofNat (n % 64 + 128) ∧ .ofNat (n % 64 + 128) ≤ (0xBF : UInt8) := by
  refine le_ofNat (by omega) ?_
  change 128 ≤ n % 64 + 128 ∧ n % 64 + 128 ≤ 191
  omega

theorem not_lt_ofNat (h : 0x80 ≤ n) (hn : n < 256) : ¬ UInt8.ofNat n < 0x80 := by
  rw [UInt8.lt_iff_toNat_lt, UInt8.toNat_ofNat_of_lt' hn]
  exact Nat.not_lt.mpr h

theorem starts_two (h : 0x80 ≤ n) (hn : n ≤ 0x7FF) :
    Starts (.ofNat (n / 64 % 32 + 192)) [.ofNat (n % 64 + 128)] 0x80 0xBF where
  beyond := not_lt_ofNat (by omega) (by omega)
  announced := by
    rw [show n / 64 % 32 + 192 = 0xC2 + (n / 64 - 2) by omega]
    exact sequenceOf_two (by omega)
  continued := by
    intro tail
    exact continuation_cons (continues n)

theorem starts_three (h : 0x800 ≤ n) (hn : n ≤ 0xFFFF) (hscalar : n < 0xD800 ∨ 0xDFFF < n) :
    Starts (.ofNat (n / 4096 % 16 + 224)) [.ofNat (n / 64 % 64 + 128), .ofNat (n % 64 + 128)]
      (if n / 4096 = 0 then 0xA0 else 0x80) (if n / 4096 = 13 then 0x9F else 0xBF) where
  beyond := not_lt_ofNat (by omega) (by omega)
  announced := by
    rw [show n / 4096 % 16 + 224 = 0xE0 + n / 4096 by omega]
    exact sequenceOf_three (by omega)
  continued := by
    intro tail
    have hsecond : (if n / 4096 = 0 then 0xA0 else 0x80 : UInt8).toNat ≤ n / 64 % 64 + 128 ∧
        n / 64 % 64 + 128 ≤ (if n / 4096 = 13 then 0x9F else 0xBF : UInt8).toNat := by
      constructor
      · split
        · change 160 ≤ n / 64 % 64 + 128
          omega
        · change 128 ≤ n / 64 % 64 + 128
          omega
      · split
        · change n / 64 % 64 + 128 ≤ 159
          omega
        · change n / 64 % 64 + 128 ≤ 191
          omega
    exact (continuation_cons (le_ofNat (by omega) hsecond)).trans
      (congrArg (· + 1) (continuation_cons (continues n)))

theorem starts_four (h : 0x10000 ≤ n) (hn : n < 0x110000) :
    Starts (.ofNat (n / 262144 % 8 + 240))
      [.ofNat (n / 4096 % 64 + 128), .ofNat (n / 64 % 64 + 128), .ofNat (n % 64 + 128)]
      (if n / 262144 = 0 then 0x90 else 0x80) (if n / 262144 = 4 then 0x8F else 0xBF) where
  beyond := not_lt_ofNat (by omega) (by omega)
  announced := by
    rw [show n / 262144 % 8 + 240 = 0xF0 + n / 262144 by omega]
    exact sequenceOf_four (by omega)
  continued := by
    intro tail
    have hsecond : (if n / 262144 = 0 then 0x90 else 0x80 : UInt8).toNat ≤ n / 4096 % 64 + 128 ∧
        n / 4096 % 64 + 128 ≤ (if n / 262144 = 4 then 0x8F else 0xBF : UInt8).toNat := by
      constructor
      · split
        · change 144 ≤ n / 4096 % 64 + 128
          omega
        · change 128 ≤ n / 4096 % 64 + 128
          omega
      · split
        · change n / 4096 % 64 + 128 ≤ 143
          omega
        · change n / 4096 % 64 + 128 ≤ 191
          omega
    have hlater :
        continuation 2 0x80 0xBF (.ofNat (n / 64 % 64 + 128) :: .ofNat (n % 64 + 128) :: tail) =
          2 :=
      (continuation_cons (continues (n / 64))).trans
        (congrArg (· + 1) (continuation_cons (continues n)))
    exact (continuation_cons (le_ofNat (by omega) hsecond)).trans (congrArg (· + 1) hlater)

/-- A character beyond ASCII has an octet that announces how many follow it. -/
theorem starts_octetsOf (h : 0x7F < c.toNat) :
    ∃ lead rest low high, octetsOf c = lead :: rest ∧ Starts lead rest low high := by
  have hvalid : c.val.toNat < 0xD800 ∨ 0xDFFF < c.val.toNat ∧ c.val.toNat < 0x110000 := c.valid
  have hbeyond : ¬ c.val.toNat ≤ 127 := Nat.not_le.mpr h
  unfold octetsOf String.utf8EncodeChar
  simp only [if_neg hbeyond]
  split
  · next htwo => exact ⟨_, _, _, _, rfl, starts_two (Nat.not_le.mp hbeyond) htwo⟩
  · next htwo =>
    split
    · next hthree =>
        exact ⟨_, _, _, _, rfl, starts_three (by omega) hthree (hvalid.imp_right And.left)⟩
    · next hthree => exact ⟨_, _, _, _, rfl, starts_four (by omega) (by omega)⟩

/-- The octets of a character are those of one character. -/
theorem charOfPrefix_octetsOf (c : Char) (tail : List UInt8) :
    Json.charOfPrefix (octetsOf c ++ tail) (octetsOf c).length = some c := by
  have htext : String.fromUTF8? ⟨(octetsOf c).toArray⟩ = some (.ofList [c]) := by
    have hoctets := toUTF8_eq_flatMap (.ofList [c])
    rw [String.toList_ofList, List.flatMap_singleton] at hoctets
    rw [octetsOf, ← hoctets]
    exact fromUTF8?_toUTF8 _
  simp only [Json.charOfPrefix, List.take_left, htext, if_true, String.toList_ofList]

/-- One character is read at a time. -/
theorem lossyFrom_octetsOf (c : Char) (tail : List UInt8) :
    lossyFrom (fuel + 1) (octetsOf c ++ tail) = c :: lossyFrom fuel tail := by
  have hchar := charOfPrefix_octetsOf c tail
  rcases Nat.lt_or_ge 0x7F c.toNat with hbeyond | hascii
  · obtain ⟨lead, rest, low, high, hoctets, starts⟩ := starts_octetsOf hbeyond
    rw [hoctets] at hchar ⊢
    rw [List.length_cons, List.cons_append] at hchar
    rw [List.cons_append, lossyFrom, if_neg starts.beyond, starts.announced]
    simp only [Nat.add_sub_cancel, starts.continued, if_true, hchar, Option.getD_some,
      List.drop_left]
  · have hoctets : octetsOf c = [.ofNat c.toNat] := if_pos hascii
    have hnat : (UInt8.ofNat c.toNat).toNat = c.toNat :=
      UInt8.toNat_ofNat_of_lt' (Nat.lt_of_le_of_lt hascii (by decide))
    have hlt : UInt8.ofNat c.toNat < 0x80 := by
      rw [UInt8.lt_iff_toNat_lt, hnat]
      exact Nat.lt_succ_iff.mpr hascii
    rw [hoctets, List.singleton_append, lossyFrom, if_pos hlt, hnat, Char.ofNat_toNat]

/-- Characters come back out of their octets. -/
theorem lossyFrom_flatMap (h : cs.length ≤ fuel) : lossyFrom fuel (cs.flatMap octetsOf) = cs := by
  induction cs generalizing fuel with
  | nil =>
    cases fuel with
    | zero => rfl
    | succ fuel => rfl
  | cons c cs ih =>
    cases fuel with
    | zero => cases h
    | succ fuel => rw [List.flatMap_cons, lossyFrom_octetsOf, ih (Nat.le_of_succ_le_succ h)]

theorem length_le_length_flatMap (cs : List Char) : cs.length ≤ (cs.flatMap octetsOf).length := by
  induction cs with
  | nil => exact Nat.le_refl 0
  | cons c cs ih =>
    have hpos : 0 < (octetsOf c).length := String.length_utf8EncodeChar c ▸ c.utf8Size_pos
    rw [List.flatMap_cons, List.length_append, List.length_cons]
    omega

/-- **The octets of a text are read as the text.** -/
theorem lossy_flatMap (cs : List Char) : lossy (cs.flatMap octetsOf) = cs :=
  lossyFrom_flatMap (length_le_length_flatMap cs)

/-! ## Names and values -/

/-- The characters that something is written with in a form. -/
theorem of_mem_formEncode (h : c ∈ formEncode cs) : c = '+' ∨ inForm c = true ∨ c = '%' := by
  have digits : "%0123456789ABCDEF".toList.all (fun c => inForm c || c = '%') := by decide
  obtain ⟨d, -, hc⟩ := List.mem_flatMap.mp h
  split at hc
  · exact .inl (List.mem_singleton.mp hc)
  · split at hc
    · next hplain =>
      rw [List.mem_singleton.mp hc]
      exact .inr (.inl hplain)
    · obtain ⟨octet, -, hdigit⟩ := List.mem_flatMap.mp hc
      exact .inr (by simpa using List.all_eq_true.mp digits c (mem_percentOctet hdigit))

/-- A plus sign for a blank, read before the percent signs. -/
def plusToBlank (c : Char) : Char :=
  if c = '+' then ' ' else c

theorem plusToBlank_of_mem_percentOctet (h : c ∈ percentOctet octet) : plusToBlank c = c := by
  have digits : "%0123456789ABCDEF".toList.all (fun c => plusToBlank c = c) := by decide
  exact of_decide_eq_true (List.all_eq_true.mp digits c (mem_percentOctet h))

/-- The octets of a text come back out of its form. -/
theorem decodeOctets_formEncode (cs : List Char) :
    decodeOctets ((formEncode cs).map plusToBlank) = cs.flatMap octetsOf := by
  induction cs with
  | nil => rfl
  | cons c cs ih =>
    rw [formEncode, List.flatMap_cons, List.map_append, List.flatMap_cons, ← formEncode]
    split
    · next hblank =>
      subst hblank
      exact (decodeOctets_cons (by decide)).trans (congrArg _ ih)
    · split
      · next hplain =>
        -- neither a plus sign nor a percent sign is written as it is
        have hplus : c ≠ '+' := by
          rintro rfl
          exact absurd hplain (by decide)
        have hpercent : c ≠ '%' := by
          rintro rfl
          exact absurd hplain (by decide)
        rw [List.map_singleton, plusToBlank, if_neg hplus, List.singleton_append,
          decodeOctets_cons hpercent, ih]
      · have hkept : ∀ d ∈ (octetsOf c).flatMap percentOctet, plusToBlank d = id d := by
          intro d hd
          obtain ⟨octet, -, hdigit⟩ := List.mem_flatMap.mp hd
          exact plusToBlank_of_mem_percentOctet hdigit
        rw [List.map_congr_left hkept, List.map_id, decodeOctets_flatMap_percentOctet, ih]

/-- **What is written into a form is read back**, whatever it is. -/
theorem formDecode_formEncode (text : String) : formDecode (formEncode text.toList) = text := by
  have hoctets := decodeOctets_formEncode text.toList
  rw [formDecode]
  exact (congrArg (fun octets => String.ofList (lossy octets)) hoctets).trans
    ((congrArg String.ofList (lossy_flatMap _)).trans String.ofList_toList)

/-! ## Pairs -/

/-- The pairs before a separator and those after it. -/
theorem formPairs_append (before after : List Char) :
    formPairs (before ++ '&' :: after) = formPairs before ++ formPairs after := by
  rw [formPairs, List.splitOn_append_cons_self, List.filter_append, List.map_append]
  rfl

/-- What means something between the parts of a form, or ends it, is always encoded. -/
theorem not_mem_formEncode (h : c ∈ ['&', '#', '=']) (cs : List Char) : c ∉ formEncode cs := by
  intro hc
  rcases of_mem_formEncode hc with rfl | hplain | rfl
  · exact absurd h (by decide)
  · simp only [List.mem_cons, List.not_mem_nil, or_false] at h
    rcases h with rfl | rfl | rfl
    · cases hplain
    · cases hplain
    · cases hplain
  · exact absurd h (by decide)

theorem not_mem_formPair (h : c ∈ ['&', '#']) (name value : String) : c ∉ formPair name value := by
  have hencoded : ∀ cs, c ∉ formEncode cs := not_mem_formEncode (List.mem_append_left ['='] h)
  intro hc
  rcases List.mem_append.mp hc with hname | hrest
  · exact hencoded _ hname
  · rcases List.mem_cons.mp hrest with rfl | hvalue
    · exact absurd h (by decide)
    · exact hencoded _ hvalue

/-- A pair that is written is one pair, and the one that was meant. -/
theorem formPairs_formPair (name value : String) :
    formPairs (formPair name value) = [(name, value)] := by
  have hequals : ∀ c ∈ formEncode name.toList, decide (c ≠ '=') = true := by
    intro c hc
    refine decide_eq_true ?_
    rintro rfl
    exact not_mem_formEncode (by simp) _ hc
  have hsplit : (formPair name value).splitOn '&' = [formPair name value] :=
    List.splitOn_eq_singleton (not_mem_formPair (by simp) name value)
  have hfilter : [formPair name value].filter (· ≠ []) = [formPair name value] := by simp [formPair]
  rw [formPairs, hsplit, hfilter, List.map_singleton, List.span_eq_takeWhile_dropWhile, formPair,
    List.takeWhile_append_of_pos hequals, List.dropWhile_append_of_pos hequals]
  simp [formDecode_formEncode]

/-- **A pair that is added comes after the pairs that are there.** -/
theorem pairs_addPair (u : Url) (name value : String) :
    (u.addPair name value).pairs = u.pairs ++ [(name, value)] := by
  have hpair : formPairs (String.ofList (formPair name value)).toList = [(name, value)] := by
    rw [String.toList_ofList, formPairs_formPair]
  unfold addPair pairs
  split
  · next hquery => rw [hquery]; exact hpair
  · next hquery => rw [hquery]; exact hpair
  · next query hempty hquery =>
    have hlist : (query ++ "&" ++ String.ofList (formPair name value)).toList =
        query.toList ++ '&' :: (String.ofList (formPair name value)).toList := by simp
    rw [hquery, Option.getD_some, Option.getD_some, hlist, formPairs_append, hpair]

end Roster.Url
