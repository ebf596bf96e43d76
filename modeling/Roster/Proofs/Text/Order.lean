import Mathlib.Data.List.Lex
import Roster.Proofs.Text.Octets
import Roster.Table.Key

/-!
# The order of texts

Texts are compared by their characters, and in UTF-8 that is to compare them by their octets
(`lt_iff_octetValues_lt`). What makes it so is that no character's octets begin with those of
another: of two characters the octets part at some place, and there the lesser character has the
lesser octet (`parts_characterOctets`). Whatever follows that place makes no difference.

Keys are compared part by part. Their order is therefore that of the lists of their parts' octets,
which is a linear one (`Key.le_iff`).
-/

namespace Roster

variable {l m : List ℕ} {v w : ℕ} {c d : Char}

/-- The UTF-8 octets of a text as numbers. -/
def octetValues (text : String) : List ℕ :=
  text.toUTF8.data.toList.map UInt8.toNat

/-! ## Characters -/

/-- The octets of the character with a number, as numbers. -/
def characterOctets (v : ℕ) : List ℕ :=
  if v ≤ 0x7F then [v]
  else if v ≤ 0x7FF then [v / 64 % 32 + 192, v % 64 + 128]
  else if v ≤ 0xFFFF then [v / 4096 % 16 + 224, v / 64 % 64 + 128, v % 64 + 128]
  else [v / 262144 % 8 + 240, v / 4096 % 64 + 128, v / 64 % 64 + 128, v % 64 + 128]

theorem map_toNat_utf8EncodeChar (c : Char) :
    (String.utf8EncodeChar c).map UInt8.toNat = characterOctets c.toNat := by
  have hoctet {n : ℕ} (h : n < 256) : (UInt8.ofNat n).toNat = n := UInt8.toNat_ofNat_of_lt' h
  change _ = characterOctets c.val.toNat
  unfold String.utf8EncodeChar characterOctets
  dsimp only
  split
  · rw [List.map_singleton, hoctet (by omega)]
  · split
    · rw [List.map_cons, List.map_singleton, hoctet (by omega), hoctet (by omega)]
    · split
      · rw [List.map_cons, List.map_cons, List.map_singleton, hoctet (by omega), hoctet (by omega),
          hoctet (by omega)]
      · rw [List.map_cons, List.map_cons, List.map_cons, List.map_singleton, hoctet (by omega),
          hoctet (by omega), hoctet (by omega), hoctet (by omega)]

theorem toNat_lt (c : Char) : c.toNat < 0x110000 := by
  have hvalid : c.val.toNat < 0xD800 ∨ 0xDFFF < c.val.toNat ∧ c.val.toNat < 0x110000 := c.valid
  change c.val.toNat < 0x110000
  omega

/-- Two sequences part at a place that both have, the first one with the lesser number. -/
def Parts : List ℕ → List ℕ → Prop
  | x :: l, y :: m => x < y ∨ x = y ∧ Parts l m
  | _, _ => False

/-- What follows makes no difference. -/
theorem Parts.append_lt (h : Parts l m) (l' m' : List ℕ) : l ++ l' < m ++ m' := by
  fun_induction Parts l m with
  | case1 x l y m ih =>
    exact List.cons_lt_cons_iff.mpr (h.imp_right fun hrest => ⟨hrest.1, ih hrest.2⟩)
  | case2 => exact h.elim

/-- The first digit to the base 64 in which two numbers differ decides between them. -/
theorem digits_lt (h : v < w) :
    v / 262144 < w / 262144 ∨ v / 262144 = w / 262144 ∧
      (v / 4096 % 64 < w / 4096 % 64 ∨ v / 4096 % 64 = w / 4096 % 64 ∧
        (v / 64 % 64 < w / 64 % 64 ∨ v / 64 % 64 = w / 64 % 64 ∧ v % 64 < w % 64)) := by
  have hdigit {m n : ℕ} (h : m < n) : m / 64 < n / 64 ∨ m / 64 = n / 64 ∧ m % 64 < n % 64 := by
    omega
  have hnested (n : ℕ) : n / 4096 = n / 64 / 64 ∧ n / 262144 = n / 64 / 64 / 64 := by omega
  rw [(hnested v).1, (hnested v).2, (hnested w).1, (hnested w).2]
  rcases hdigit h with hthird | ⟨hthird, hlast⟩
  · rcases hdigit hthird with hsecond | ⟨hsecond, hlast⟩
    · exact (hdigit hsecond).imp_right fun hfirst => ⟨hfirst.1, .inl hfirst.2⟩
    · rw [hsecond]
      exact .inr ⟨rfl, .inr ⟨rfl, .inl hlast⟩⟩
  · rw [hthird]
    exact .inr ⟨rfl, .inr ⟨rfl, .inr ⟨rfl, hlast⟩⟩⟩

/-- The octets of a smaller character part from those of a larger one at a smaller octet. -/
theorem parts_characterOctets (h : v < w) (hw : w < 0x110000) :
    Parts (characterOctets v) (characterOctets w) := by
  have hdigits := digits_lt h
  have hfirst {n : ℕ} (hn : n < 0x110000) : n / 262144 % 8 = n / 262144 :=
    Nat.mod_eq_of_lt (by omega)
  unfold characterOctets
  rw [hfirst hw, hfirst (h.trans hw)]
  -- With fewer octets the first one is less, with as many the digits are compared.
  split_ifs <;> simp only [Parts] <;> omega

/-! ## Texts -/

theorem octetValues_eq (text : String) :
    octetValues text = text.toList.flatMap fun c => characterOctets c.toNat := by
  rw [octetValues, toUTF8_eq_flatMap, List.map_flatMap]
  exact List.flatMap_congr fun c _ => map_toNat_utf8EncodeChar c

/-- Texts are told apart by the values of their octets. -/
theorem octetValues_injective {a b : String} (h : octetValues a = octetValues b) : a = b := by
  apply toUTF8_injective
  have hoctets : a.toUTF8.data.toList = b.toUTF8.data.toList :=
    List.map_injective_iff.mpr (fun _ _ => UInt8.toNat_inj.mp) h
  exact ByteArray.ext (Array.toList_inj.mp hoctets)

/-- Texts are ordered by their octets as they are by their characters. -/
theorem flatMap_characterOctets_lt {cs ds : List Char} (h : cs < ds) :
    cs.flatMap (fun c => characterOctets c.toNat) <
      ds.flatMap fun c => characterOctets c.toNat := by
  induction h with
  | @nil d ds =>
    have hlength : 0 < (characterOctets d.toNat).length := by
      unfold characterOctets
      split_ifs <;> simp
    obtain ⟨octet, rest, hoctets⟩ := List.exists_cons_of_length_pos hlength
    rw [List.flatMap_cons, hoctets]
    exact List.nil_lt_cons octet _
  | cons h ih => exact List.append_left_lt ih
  | @rel c cs d ds h => exact (parts_characterOctets h (toNat_lt d)).append_lt _ _

/-- **The order of texts is that of their UTF-8 octets.** -/
theorem lt_iff_octetValues_lt (a b : String) : a < b ↔ octetValues a < octetValues b := by
  have hmono {a b : String} (h : a < b) : octetValues a < octetValues b := by
    rw [octetValues_eq, octetValues_eq]
    exact flatMap_characterOctets_lt (String.lt_iff.mp h)
  refine ⟨hmono, fun h => ?_⟩
  by_contra hnot
  by_cases heq : a = b
  · exact lt_irrefl _ (heq ▸ h)
  · exact lt_asymm h (hmono (Std.lt_of_le_of_ne (String.not_lt.mp hnot) (Ne.symm heq)))

namespace Key

/-! ## Keys -/

/-- The octets of the parts of a key, in their order. -/
def octets (k : Key) : List (List ℕ) :=
  [k.requester, k.path, k.policy, k.target].map octetValues

/-- Keys are told apart by the octets of their fields. -/
theorem octets_injective {a b : Key} (h : a.octets = b.octets) : a = b := by
  obtain ⟨requester, path, policy, target⟩ := a
  obtain ⟨requester', path', policy', target'⟩ := b
  simp only [octets, List.map_cons, List.map_nil, List.cons.injEq, and_true] at h
  obtain ⟨hrequester, hpath, hpolicy, htarget⟩ := h
  rw [octetValues_injective hrequester, octetValues_injective hpath, octetValues_injective hpolicy,
    octetValues_injective htarget]

theorem compare_text_eq_gt_iff (a b : String) :
    compare a b = .gt ↔ octetValues b < octetValues a := by
  rw [← lt_iff_octetValues_lt]
  exact compareOfLessAndEq_eq_gt String.le_antisymm String.le_total String.not_le a b

theorem compare_text_eq_eq_iff (a b : String) :
    compare a b = .eq ↔ octetValues b = octetValues a := by
  rw [Std.compare_eq_iff_eq]
  exact ⟨fun h => by rw [h], fun h => (octetValues_injective h).symm⟩

/-- **Keys stand in the order of the octets of their parts**, where an earlier part goes
    before a later one. -/
theorem le_iff (a b : Key) : a.le b ↔ a.octets ≤ b.octets := by
  have hparts : compare a b = (compare a.requester b.requester).then ((compare a.path b.path).then
      ((compare a.policy b.policy).then ((compare a.target b.target).then .eq))) := rfl
  rw [le, bne_iff_ne, ne_eq, ← not_lt, hparts]
  simp only [Ordering.then_eq_gt, compare_text_eq_gt_iff, compare_text_eq_eq_iff, octets,
    List.map_cons, List.map_nil, List.cons_lt_cons_iff]
  simp

end Key

end Roster
