import Roster.Proofs.Url.Path
import Roster.Url.Host

/-!
# Hosts are undivided

Whatever the host of an address is read from, what it is written as has no slash, question mark or
number sign in it: a domain because these are refused after everything else that is done to it but
for the encoding of international labels, which writes letters and digits, and an address in figures
because it is written anew.
-/

namespace Roster.Url

/-- The pieces of a text are made of its characters, without those at which it was split. -/
theorem of_mem_splitOnP {p : Char → Bool} : ∀ {cs piece : List Char}, piece ∈ cs.splitOnP p →
    ∀ c ∈ piece, c ∈ cs ∧ p c = false
  | [], piece, hpiece => by
    rw [List.splitOnP_nil, List.mem_singleton] at hpiece
    subst hpiece
    exact nofun
  | first :: rest, piece, hpiece => by
    have ih := fun {piece} (h : piece ∈ rest.splitOnP p) c hc =>
      (of_mem_splitOnP h c hc).imp_left (List.mem_cons_of_mem first)
    rw [List.splitOnP_cons_eq_if_modifyHead] at hpiece
    split at hpiece
    · rcases List.mem_cons.mp hpiece with rfl | hpiece
      · exact nofun
      · exact ih hpiece
    · next hkeep =>
      obtain ⟨head, tail, hsplit⟩ := List.exists_cons_of_ne_nil (List.splitOnP_ne_nil p rest)
      rw [hsplit, List.modifyHead_cons] at hpiece
      rcases List.mem_cons.mp hpiece with rfl | hpiece
      · intro c hc
        rcases List.mem_cons.mp hc with rfl | hc
        · exact ⟨List.mem_cons_self, by simpa using hkeep⟩
        · exact ih (hsplit ▸ List.mem_cons_self) c hc
      · exact ih (hsplit ▸ List.mem_cons_of_mem head hpiece)

variable {text cs : List Char} {c : Char} {host : String}

/-! ## Figures -/

namespace Undivided

theorem intercalate {separator : List Char} {pieces : List (List Char)} (hs : Undivided separator)
    (h : ∀ piece ∈ pieces, Undivided piece) : Undivided (separator.intercalate pieces) := by
  induction pieces with
  | nil => exact .nil
  | cons piece rest ih =>
    obtain ⟨hpiece, hrest⟩ := List.forall_mem_cons.mp h
    cases rest with
    | nil => simpa using hpiece
    | cons next rest =>
      rw [List.intercalate_cons_cons]
      exact (hpiece.append hs).append (ih hrest)

theorem digitChar {n : Nat} (h : n < 16) : Undivided [Nat.digitChar n] := by
  have table : ∀ n : Fin 16, Undivided [Nat.digitChar n.val] := by decide
  exact table ⟨n, h⟩

theorem hexDigits (n : Nat) : Undivided (Nat.toDigits 16 n) := by
  suffices ∀ fuel n ds, Undivided ds →
    Undivided (Nat.toDigitsCore 16 fuel n ds) from this _ _ _ .nil
  intro fuel
  induction fuel with
  | zero => exact fun _ _ h => h
  | succ fuel ih =>
    intro n ds h
    have hdigit : Undivided ((n % 16).digitChar :: ds) :=
      (digitChar (Nat.mod_lt n (by decide))).append h
    rw [Nat.toDigitsCore]
    split
    · exact hdigit
    · exact ih _ _ hdigit

end Undivided

theorem undivided_ipv4Text (n : Nat) : Undivided (ipv4Text n).toList := by
  rw [ipv4Text, String.toList_intercalate]
  refine .intercalate (by decide) fun piece hpiece => ?_
  obtain ⟨part, hpart, rfl⟩ := List.mem_map.mp hpiece
  obtain ⟨w, -, rfl⟩ := List.mem_map.mp hpart
  exact undivided_toString _

/-- An address of version six has none of the characters that end a part. -/
theorem undivided_ipv6Text (groups : List Nat) : Undivided (ipv6Text groups).toList := by
  have hex (gs : List Nat) :
      Undivided (":".intercalate (gs.map fun g => String.ofList (Nat.toDigits 16 g))).toList := by
    rw [String.toList_intercalate]
    refine .intercalate (by decide) fun piece hpiece => ?_
    obtain ⟨part, hpart, rfl⟩ := List.mem_map.mp hpiece
    obtain ⟨g, -, rfl⟩ := List.mem_map.mp hpart
    rw [String.toList_ofList]
    exact .hexDigits g
  unfold ipv6Text
  split
  · rw [String.toList_append, String.toList_append]
    exact ((hex _).append (by decide)).append (hex _)
  · exact hex groups

/-! ## International labels -/

theorem punyThreshold_le (k bias : Nat) : punyThreshold k bias ≤ 26 := by
  unfold punyThreshold
  split_ifs <;> omega

theorem undivided_punyDigit {n : Nat} (h : n < 36) : Undivided [punyDigit n] := by
  have table : ∀ n : Fin 36, Undivided [punyDigit n.val] := by decide
  exact table ⟨n, h⟩

theorem undivided_punyNumber (fuel q k bias : Nat) : Undivided (punyNumber fuel q k bias) := by
  induction fuel generalizing q k with
  | zero => exact .nil
  | succ fuel ih =>
    have hthreshold := punyThreshold_le k bias
    have hmod := Nat.mod_lt (q - punyThreshold k bias) (y := 36 - punyThreshold k bias) (by omega)
    rw [punyNumber]
    split
    · exact undivided_punyDigit (by omega)
    · exact (undivided_punyDigit (by omega)).append (ih _ _)

theorem undivided_punyChar {s : PunyState} (h : Undivided s.output) (n : Nat) (c : Char) :
    Undivided (punyChar n s c).output := by
  unfold punyChar
  split_ifs
  · exact h
  · exact h.append (undivided_punyNumber _ _ _ _)
  · exact h

theorem undivided_punyCodes (label : List Char) (codes : List Nat) (previous : Nat) {s : PunyState}
    (h : Undivided s.output) : Undivided (punyCodes label codes previous s).output := by
  induction codes generalizing previous s with
  | nil => exact h
  | cons n rest ih =>
    refine ih _ ?_
    exact List.foldlRecOn (motive := fun s : PunyState => Undivided s.output) label _ h
      fun s hs c _ => undivided_punyChar hs n c

theorem undivided_asciiLabel {label : List Char} (h : Undivided label) :
    Undivided (asciiLabel label) := by
  unfold asciiLabel
  split
  · exact h
  · refine Undivided.append (by decide) (Undivided.append ?_ (undivided_punyCodes _ _ _ .nil))
    have hplain : Undivided (label.filter fun c => c.toNat < 128) :=
      h.of_subset List.filter_sublist.subset
    split
    · exact .nil
    · exact hplain.append (by decide)

/-- A domain in ASCII has none of the characters that end a part. -/
theorem undivided_of_asciiDomain (h : asciiDomain text = .ok cs) : Undivided cs := by
  unfold asciiDomain at h
  generalize (text.filter fun c => !ignoredInDomain c).map foldInDomain = folded at h
  simp only at h
  split at h
  · cases h
  · next hallowed =>
    cases h
    have hfolded : Undivided folded := by
      intro c hc
      have hnot : ¬ forbiddenInDomain c := fun hforbidden =>
        hallowed (List.any_eq_true.mpr ⟨c, hc, by rw [hforbidden]; rfl⟩)
      refine ⟨?_, ?_, ?_⟩ <;> (rintro rfl; exact hnot rfl)
    refine .intercalate (by decide) fun piece hpiece => ?_
    obtain ⟨label, hlabel, rfl⟩ := List.mem_map.mp hpiece
    rw [List.splitOn_eq_splitOnP] at hlabel
    exact undivided_asciiLabel (hfolded.of_subset fun c hc => (of_mem_splitOnP hlabel c hc).1)

/-! ## Hosts -/

theorem undivided_of_bracketed (h : bracketed text = .ok host) : Undivided host.toList := by
  unfold bracketed at h
  split at h
  · split at h
    · cases h
      rw [String.toList_append, String.toList_append]
      exact (Undivided.append (by decide) (undivided_ipv6Text _)).append
        (by decide)
    · cases h
  · cases h

/-- **A host has no character in which a part ends.** -/
theorem undivided_of_domainHost (h : domainHost text = .ok host) : Undivided host.toList := by
  unfold domainHost at h
  split at h
  · exact undivided_of_bracketed h
  · cases hdomain : asciiDomain (lossy (decodeOctets text)) with
    | error e => rw [hdomain] at h; cases h
    | ok domain =>
      simp only [hdomain, bind, Except.bind, pure, Except.pure] at h
      split at h
      · cases h
      · split at h
        · split at h
          · cases h
            exact undivided_ipv4Text _
          · cases h
        · cases h
          rw [String.toList_ofList]
          exact undivided_of_asciiDomain hdomain

/-- Nor has the host of a scheme that knows no domains. -/
theorem undivided_of_opaqueHost (h : opaqueHost text = .ok host) : Undivided host.toList := by
  unfold opaqueHost at h
  split at h
  · exact undivided_of_bracketed h
  · split at h
    · cases h
    · next hallowed =>
      cases h
      rw [String.toList_ofList]
      refine .encodeWith fun c hc _ => ?_
      have hnot : ¬ forbiddenInHost c :=
        fun hforbidden => hallowed (List.any_eq_true.mpr ⟨c, hc, hforbidden⟩)
      refine ⟨?_, ?_, ?_⟩ <;> (rintro rfl; exact hnot rfl)

end Roster.Url
