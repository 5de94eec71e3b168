import ModalEditor.Key.Command

/-!
# The keys that edit

Letters are looked up without their Shift, by lower case (`KeyPress.base`), and beyond ASCII there
are letters whose lower case is an ASCII one. `CodeUnit.lower_ascii`: there is just one, the Kelvin
sign. So the commands that edit are given by no other keys than those that show it
(`Command.ofKey_given`), whatever text a key press comes with.
-/

namespace ModalEditor

/-! ## Lower case -/

theorem lowerShift_cases (rs : List CaseRange) (n : Nat) :
    lowerShift rs n = 0 ∨ ∃ r ∈ rs, r.first ≤ n ∧ n ≤ r.last ∧ lowerShift rs n = r.shift := by
  induction rs with
  | nil => exact .inl rfl
  | cons r rs ih =>
    simp only [lowerShift]
    split
    · exact .inl rfl
    split
    · rename_i hfirst hlast
      exact .inr ⟨r, List.mem_cons_self, Nat.le_of_not_lt hfirst, hlast.1, rfl⟩
    · obtain h | ⟨r', hr', h⟩ := ih
      · exact .inl h
      · exact .inr ⟨r', List.mem_cons_of_mem r hr', h⟩

/-- Only the ASCII capitals and the Kelvin sign have a lower case in ASCII. -/
theorem lowerRanges_ascii : ∀ r ∈ lowerRanges,
    r = ⟨0x41, 0x5A, 1, 32⟩ ∨ r = ⟨0x212A, 0x212A, 1, -8383⟩ ∨
      0x80 ≤ (r.first : Int) + r.shift ∧ (r.last : Int) + r.shift < 65536 := by
  decide +kernel

theorem CodeUnit.lower_ascii {u v : CodeUnit} (h : lower u = [v]) (hv : v.toNat < 0x80) :
    v = u ∨ 0x41 ≤ u.toNat ∧ u.toNat ≤ 0x5A ∧ v.toNat = u.toNat + 32 ∨
      u.toNat = 0x212A ∧ v.toNat = 0x6B := by
  have hu := u.toNat_lt
  unfold lower at h
  split at h
  · cases h
  · have hvalue : v.toNat = ((u.toNat : Int) + lowerShift lowerRanges u.toNat).toNat % 65536 := by
      cases h
      exact UInt16.toNat_ofNat'
    obtain hs | ⟨r, hr, hfirst, hlast, hs⟩ := lowerShift_cases lowerRanges u.toNat
    · left
      apply UInt16.toNat_inj.1
      rw [hs] at hvalue
      omega
    · rw [hs] at hvalue
      obtain rfl | rfl | ⟨hlow, hhigh⟩ := lowerRanges_ascii r hr
      · dsimp only at hfirst hlast hvalue
        omega
      · dsimp only at hfirst hlast hvalue
        omega
      · omega

/-! ## Keys without Shift -/

namespace KeyPress

variable {k : KeyPress}

theorem base_cases (k : KeyPress) :
    k.key = k.base.1 ∨ ∃ u, k.key = [u] ∧ k.base.1 = CodeUnit.lower u := by
  unfold base
  split
  · rename_i u hk
    split
    · exact .inr ⟨u, hk, rfl⟩
    · exact .inl rfl
  · exact .inl rfl

/-- A key whose letter is an ASCII one is that letter, its capital, or the Kelvin sign. -/
theorem key_of_base {v : CodeUnit} (h : k.base.1 = [v]) (hv : v.toNat < 0x80) :
    k.key = [v] ∨ (∃ u, k.key = [u] ∧ 0x41 ≤ u.toNat ∧ u.toNat ≤ 0x5A ∧ v.toNat = u.toNat + 32) ∨
      v.toNat = 0x6B := by
  obtain hk | ⟨u, hk, hu⟩ := k.base_cases
  · exact .inl (hk.trans h)
  · rw [h] at hu
    obtain rfl | ⟨hlow, hhigh, heq⟩ | ⟨-, heq⟩ := CodeUnit.lower_ascii hu.symm hv
    · exact .inl hk
    · exact .inr (.inl ⟨u, hk, hlow, hhigh, heq⟩)
    · exact .inr (.inr heq)

theorem hasShift_of_base (h : k.base.2 = false) : k.hasShift = false := by
  unfold base at h
  split at h
  · split at h
    · exact (Bool.or_eq_false_iff.1 h).1
    · exact h
  · exact h

theorem key_eq_base (h : k.base.2 = false) : k.key = k.base.1 := by
  unfold base at h ⊢
  split at h
  · split at h
    · simp_all
    · simp_all
  · simp_all

end KeyPress

/-! ## Commands -/

namespace Command

/-- The command is told by something else than a letter. -/
def isWordless : Command → Bool
  | .control .newline | .control .pageUp | .control .pageDown | .control .navigation
  | .control .chord => true
  | _ => false

/-- The keys by which a command that may edit in navigation is given; Enter aside. -/
def editKeys : Command → List Text
  | .control .deleteChar => [Text.ofString "x"]
  | .control .paste => [Text.ofString "p"]
  | .control .undo => [Text.ofString "u"]
  | .control .again => [Text.ofString "."]
  | .operator .delete => [Text.ofString "d"]
  | .insert .lineBelow | .insert .lineAbove => [Text.ofString "o", Text.ofString "O"]
  | _ => []

/-- Of these commands, the ones that are given without Shift only. -/
def isUnshifted : Command → Bool
  | .control .deleteChar | .control .paste | .control .undo | .operator .delete => true
  | _ => false

theorem shift_of_isUnshifted {q : Bool} {letter : Char} {shift : Bool}
    (h : (ofLetter q letter shift).isUnshifted = true) : shift = false := by
  unfold ofLetter at h
  split at h
  all_goals first
    | rfl
    | cases h

/-- A letter asks for a command that may edit without Shift, but for `.` and `o`. -/
theorem ofLetter_cases (q : Bool) (letter : Char) (shift : Bool) :
    (ofLetter q letter shift).isWordless = false ∧
      ((ofLetter q letter shift).editKeys = [] ∨
        shift = false ∧ (ofLetter q letter shift).editKeys = [[UInt16.ofNat letter.toNat]] ∨
        letter = '.' ∧ (ofLetter q letter shift).editKeys = [Text.ofString "."] ∨
        letter = 'o' ∧
          (ofLetter q letter shift).editKeys = [Text.ofString "o", Text.ofString "O"]) := by
  unfold ofLetter
  split
  all_goals first
    | exact ⟨rfl, .inl rfl⟩
    | exact ⟨rfl, .inr (.inl ⟨rfl, rfl⟩)⟩
    | exact ⟨rfl, .inr (.inr (.inl ⟨rfl, rfl⟩))⟩
    | exact ⟨rfl, .inr (.inr (.inr ⟨rfl, rfl⟩))⟩
    | (cases q <;> exact ⟨rfl, .inl rfl⟩)

theorem ofNat_cases (u : CodeUnit) :
    Char.ofNat u.toNat = Char.ofNat 0 ∨ UInt16.ofNat (Char.ofNat u.toNat).toNat = u := by
  by_cases hu : u.toNat.isValidChar
  · right
    have hvalue : (Char.ofNat u.toNat).toNat = u.toNat := by
      rw [Char.ofNat, dif_pos hu]
      rfl
    rw [hvalue, UInt16.ofNat_toNat]
  · left
    rw [Char.ofNat, dif_neg hu]
    rfl

theorem key_mem_editKeys {q : Bool} {k : KeyPress} {u : CodeUnit} (hbase : k.base.1 = [u])
    (h : (ofLetter q (Char.ofNat u.toNat) k.base.2).editKeys ≠ []) :
    k.key ∈ (ofLetter q (Char.ofNat u.toNat) k.base.2).editKeys := by
  obtain hnull | hu := ofNat_cases u
  · rw [hnull] at h
    exact absurd rfl h
  obtain ⟨-, hnone | ⟨hshift, hkeys⟩ | ⟨hletter, hkeys⟩ | ⟨hletter, hkeys⟩⟩ :=
    ofLetter_cases q (Char.ofNat u.toNat) k.base.2
  · exact absurd hnone h
  · rw [hkeys, hu, KeyPress.key_eq_base hshift, hbase]
    exact List.mem_singleton_self _
  · have hdot : u = 0x2E := by
      rw [← hu, hletter]
      rfl
    subst hdot
    rw [hkeys]
    obtain hk | ⟨w, -, hlow, hhigh, hw⟩ | hk := KeyPress.key_of_base hbase (by decide)
    · rw [hk]
      decide
    · have hsum : w.toNat + 32 = 46 := hw.symm
      omega
    · exact absurd hk (by decide)
  · have ho : u = 0x6F := by
      rw [← hu, hletter]
      rfl
    subst ho
    rw [hkeys]
    obtain hk | ⟨w, hk, -, -, hw⟩ | hk := KeyPress.key_of_base hbase (by decide)
    · rw [hk]
      decide
    · have hsum : w.toNat + 32 = 0x4F + 32 := hw.symm
      have hcapital : w = 0x4F := UInt16.toNat_inj.1 (Nat.add_right_cancel hsum)
      rw [hk, hcapital]
      decide
    · exact absurd hk (by decide)

/-- The key is one of the command's, without Control, Alt and Meta, and without Shift where Shift makes
another command of it. -/
structure EditKey (c : Command) (k : KeyPress) : Prop where
  plain : k.isChord = false
  key : k.key ∈ c.editKeys
  unshifted : c.isUnshifted = true → k.hasShift = false

/-- What is known of a key by its command. -/
def Given (k : KeyPress) : Command → Prop
  | .control .newline => k.named? = some .enter
  | .control .pageUp | .control .pageDown | .control .chord => k.isChord = true
  | .control .navigation => k.isChord = false ∧ k.named?.any NamedKey.isNavigation = true
  | c => c.editKeys = [] ∨ c.EditKey k

theorem ofLetter_given {q : Bool} {k : KeyPress} {u : CodeUnit} (hchord : k.isChord = false)
    (hbase : k.base.1 = [u]) : (ofLetter q (Char.ofNat u.toNat) k.base.2).Given k := by
  have hkeys := key_mem_editKeys (q := q) hbase
  have hwordless := (ofLetter_cases q (Char.ofNat u.toNat) k.base.2).1
  have hshift (h : (ofLetter q (Char.ofNat u.toNat) k.base.2).isUnshifted = true) :
      k.hasShift = false := KeyPress.hasShift_of_base (shift_of_isUnshifted h)
  generalize ofLetter q (Char.ofNat u.toNat) k.base.2 = c at hkeys hwordless hshift
  have hgiven : c.editKeys = [] ∨ c.EditKey k := by
    by_cases hc : c.editKeys = []
    · exact .inl hc
    · exact .inr ⟨hchord, hkeys hc, hshift⟩
  cases c with
  | control c =>
    cases c with
    | newline | pageUp | pageDown | navigation | chord => cases hwordless
    | _ => exact hgiven
  | _ => exact hgiven

/-- **The command of a key** tells which key it is: a command that may edit is given by one of its
keys only. -/
theorem ofKey_given (q : Bool) (k : KeyPress) : (ofKey q k).Given k := by
  unfold ofKey
  split
  · assumption
  split
  · rename_i page hpage
    have hp : k.isChord = true ∧ (page = .pageUp ∨ page = .pageDown) := by
      unfold pageChord? at hpage
      unfold KeyPress.isChord
      grind
    obtain ⟨hchord, rfl | rfl⟩ := hp <;> exact hchord
  split
  · exact .inl rfl
  split
  · assumption
  rename_i hchord
  rw [Bool.not_eq_true] at hchord
  split
  · exact ⟨hchord, by assumption⟩
  split
  · rename_i u shift hbase
    have h := ofLetter_given (q := q) hchord (congrArg Prod.fst hbase)
    rwa [congrArg Prod.snd hbase] at h
  · exact .inl rfl

theorem character?_of_ofKey {q : Bool} {k : KeyPress} {c : Control} (h : ofKey q k = .control c)
    (hc : c = .newline ∨ c = .pageUp ∨ c = .pageDown) : k.character? = none := by
  have hgiven := ofKey_given q k
  rw [h] at hgiven
  obtain rfl | rfl | rfl := hc
  · have hname : NamedKey.enter.name = k.key := by simpa using List.find?_some hgiven
    unfold KeyPress.character?
    split
    · rfl
    · unfold KeyPress.isCharacter
      rw [← hname]
      rfl
  all_goals exact if_pos hgiven

end Command

end ModalEditor
