import ModalEditor.Proofs.Buffer.LineEdits
import ModalEditor.Proofs.Modal.Reading

/-!
# Typing and erasing

Plain typing alone, without an interpreter before it. A key that types a character puts it before the
cursor, and Backspace takes the character before the cursor away. Which character that is, Backspace
finds out from the two code units before the cursor; a character that was typed is found again,
whatever stands around it, halves of surrogate pairs included (`Text.prev_append`).

Main statement: `Buffer.typed_and_erased`. Characters typed and erased again, one Backspace for each,
leave text and cursor as they were; a selection is gone once the first of them was typed. The state
between two keys is told by what stands before the cursor and what behind (`Buffer.CursorBetween`).
-/

namespace ModalEditor

/-! ## Characters -/

namespace Text

/-- A character: a code unit that is no half of a surrogate pair, or a surrogate pair. -/
inductive IsCharacter : Text → Prop where
  | unit {x : CodeUnit} (high : x.isHigh = false) (low : x.isLow = false) : IsCharacter [x]
  | pair {x y : CodeUnit} (high : x.isHigh = true) (low : y.isLow = true) : IsCharacter [x, y]

theorem IsCharacter.ne_nil {c : Text} (h : c.IsCharacter) : c ≠ [] := by
  cases h <;> exact List.cons_ne_nil _ _

/-- **A character before the cursor is found**, whatever stands before and behind it. -/
theorem prev_append {c : Text} (h : c.IsCharacter) (u w : Text) :
    (u ++ c ++ w).prev (u ++ c).length = u.length := by
  have hpos : 0 < ((u ++ c).length : Int) := by
    have := List.length_pos_iff.2 h.ne_nil
    rw [List.length_append]
    omega
  have hle : ((u ++ c).length : Int) ≤ (u ++ c ++ w).length :=
    Int.ofNat_le.2 (List.prefix_append _ _).length_le
  rw [prev_eq hpos hle]
  cases h with
  | @unit x _ hlow =>
    -- a unit that is no low half ends no pair, so the unit before it does not matter
    have hinside := insidePair_append u ([x] ++ w)
    rw [← List.append_assoc] at hinside
    rw [List.length_append, List.length_singleton, Int.natCast_add, Int.natCast_one,
      Int.add_sub_cancel, hinside]
    simp [hlow]
  | @pair x y hhigh hlow =>
    have hinside : insidePair (u ++ [x, y] ++ w) (u ++ [x]).length = true := by
      have := insidePair_append (u ++ [x]) (y :: w)
      rw [List.getLast?_concat] at this
      simpa [hhigh, hlow] using this
    have hlength : ((u ++ [x, y]).length : Int) - 1 = (u ++ [x]).length ∧
        ((u ++ [x, y]).length : Int) - 2 = u.length := by
      simp only [List.length_append, List.length_cons, List.length_nil]
      omega
    rw [hlength.1, if_pos hinside, hlength.2]

end Text

/-! ## Keys -/

namespace KeyPress

/-- The key, no chord, types the character `c`: a tab for Tab, a line feed for Enter, or the character
that the key is, unless it is a control character that no key types. -/
structure Types (k : KeyPress) (c : Text) : Prop where
  plain : k.isChord = false
  character : c.IsCharacter
  key : k.named? = some .tab ∧ c = [tab] ∨ k.named? = some .enter ∧ c = [newline] ∨
    k.key = c ∧ ∀ u ∈ c, u.isUntypable = false

/-- The key, no chord, is Backspace. -/
structure IsBackspace (k : KeyPress) : Prop where
  plain : k.isChord = false
  key : k.named? = some .backspace

variable {k : KeyPress}

theorem named?_of_isCharacter (h : k.key.IsCharacter) : k.named? = none := by
  have hnames : ∀ n : NamedKey, 2 < n.name.length := by
    intro n
    cases n <;> decide
  have hlength : k.key.length ≤ 2 := by
    generalize k.key = c at h
    cases h <;> simp
  unfold named? NamedKey.ofText?
  rw [List.find?_eq_none]
  intro n _ hn
  have := hnames n
  rw [of_decide_eq_true hn] at this
  omega

theorem Types.typed? {c : Text} (h : k.Types c) (pageLines : Int) :
    k.typed? pageLines = some (.type c) := by
  obtain ⟨hplain, hcharacter, hkey⟩ := h
  unfold KeyPress.typed?
  rw [hplain, if_neg Bool.false_ne_true]
  obtain ⟨hnamed, rfl⟩ | ⟨hnamed, rfl⟩ | ⟨rfl, htypable⟩ := hkey
  · rw [hnamed]
    rfl
  · rw [hnamed]
    rfl
  · have hany : k.key.any CodeUnit.isUntypable = false :=
      List.any_eq_false.2 fun u hu => by simp [htypable u hu]
    rw [named?_of_isCharacter hcharacter]
    simp [hcharacter.ne_nil, hany]

theorem IsBackspace.typed? (h : k.IsBackspace) (pageLines : Int) :
    k.typed? pageLines = some .eraseBackward := by
  unfold KeyPress.typed?
  rw [h.plain, if_neg Bool.false_ne_true, h.key]
  rfl

end KeyPress

/-! ## One key -/

namespace Buffer

/-- Keys given to plain typing one after the other, and for each of them whether it was taken. -/
def pressEach (b : Buffer) (pageLines : Int) : List KeyPress → Except EditError (Buffer × List Bool)
  | [] => .ok (b, [])
  | k :: ks => do
    let (b, taken) ← b.press pageLines k
    let (b, rest) ← b.pressEach pageLines ks
    return (b, taken :: rest)

/-- The keys are all taken, and make `b'` of `b`. -/
def Takes (pageLines : Int) (ks : List KeyPress) (b b' : Buffer) : Prop :=
  b.pressEach pageLines ks = .ok (b', List.replicate ks.length true)

/-- The text is `u` and `w`, and the cursor stands between the two. -/
structure CursorBetween (b : Buffer) (u w : Text) : Prop where
  text : b.text = u ++ w
  cursor : b.cursor = .collapsed u.length

variable {b b' : Buffer} {pageLines : Int} {k : KeyPress} {u v w c : Text}

theorem CursorBetween.inside (h : b.CursorBetween u w) : b.CursorInside := by
  have hinside := Cursor.clampTo_inside b.cursor b.text
  rwa [h.cursor, h.text, Cursor.clampTo_append, ← h.cursor, ← h.text] at hinside

theorem exists_make_type (hb : b.CursorInside) (ht : b.text = u ++ v ++ w) (inserted : Text) :
    ∃ b', b.make (.type u.length (u ++ v).length inserted
        (some (.collapsed (u ++ inserted).length))) = .ok b' ∧
      b'.CursorBetween (u ++ inserted) w := by
  let ch : Change :=
    .type u.length (u ++ v).length inserted (some (.collapsed (u ++ inserted).length))
  have hfits : ch.Fits b.text := by
    intro e he
    cases he
    refine Edit.fits_mk (Int.natCast_nonneg _) ?_ ?_
    · exact Int.ofNat_le.2 (List.prefix_append _ _).length_le
    · rw [ht]
      exact Int.ofNat_le.2 (List.prefix_append _ _).length_le
  have hundo : ch ≠ .undo := nofun
  obtain ⟨b', hmake, hmakes⟩ := make_eq hundo hfits
  have htext : b'.text = u ++ inserted ++ w := by
    rw [hmakes.text]
    exact Edit.result_of_eq (e := ⟨[], u.length, (u ++ v).length, inserted⟩) ht rfl rfl
  refine ⟨b', hmake, htext, ?_⟩
  rw [hmakes.cursor hb, htext]
  exact Cursor.clampTo_append _ w

theorem exists_press_types (pageLines : Int) (hk : k.Types c) (hb : b.CursorInside)
    (ht : b.text = u ++ v ++ w) (hfirst : b.text.clamp b.cursor.first = u.length)
    (hlast : b.text.clamp b.cursor.last = (u ++ v).length) :
    ∃ b', b.press pageLines k = .ok (b', true) ∧ b'.CursorBetween (u ++ c) w := by
  obtain ⟨b', hmake, hbetween⟩ := exists_make_type hb ht c
  refine ⟨b', ?_, hbetween⟩
  rw [b.press_eq pageLines k [], hk.typed?]
  dsimp only [Stroke.change, Stroke.typing]
  rw [hfirst, hlast, ← Int.natCast_add, ← List.length_append, hmake]
  rfl

theorem exists_press_backspace (pageLines : Int) (hk : k.IsBackspace) (hc : c.IsCharacter)
    (hb : b.CursorBetween (u ++ c) w) :
    ∃ b', b.press pageLines k = .ok (b', true) ∧ b'.CursorBetween u w := by
  have hhere : b.text.clamp b.cursor.position = (u ++ c).length := by
    rw [hb.cursor, hb.text]
    exact congrArg Cursor.position (Cursor.clampTo_append (u ++ c) w)
  have hprev : b.text.prev (u ++ c).length = u.length := by
    rw [hb.text]
    exact Text.prev_append hc u w
  have hpos : ((u ++ c).length : Int) ≠ 0 := by
    have := List.length_pos_iff.2 hc.ne_nil
    rw [List.length_append]
    omega
  have hselection : b.cursor.hasSelection = false := by
    rw [hb.cursor]
    exact bne_self_eq_false _
  obtain ⟨b', hmake, hbetween⟩ := exists_make_type hb.inside hb.text []
  rw [List.append_nil] at hmake hbetween
  refine ⟨b', ?_, hbetween⟩
  rw [b.press_eq pageLines k [], hk.typed?]
  dsimp only [Stroke.change]
  rw [hselection, if_neg Bool.false_ne_true, hhere, if_neg hpos, hprev, hmake]
  rfl

/-! ## Keys one after the other -/

theorem Takes.nil (pageLines : Int) (b : Buffer) : Takes pageLines [] b b := rfl

theorem Takes.cons {b₁ : Buffer} {ks : List KeyPress} (h : b.press pageLines k = .ok (b₁, true))
    (h' : Takes pageLines ks b₁ b') : Takes pageLines (k :: ks) b b' := by
  have hrest : b₁.pressEach pageLines ks = .ok (b', List.replicate ks.length true) := h'
  show b.pressEach pageLines (k :: ks) = _
  simp only [pressEach, h, hrest, bind, Except.bind]
  rfl

theorem Takes.append {b₁ b₂ : Buffer} {ks ks' : List KeyPress} (h : Takes pageLines ks b b₁)
    (h' : Takes pageLines ks' b₁ b₂) : Takes pageLines (ks ++ ks') b b₂ := by
  induction ks generalizing b with
  | nil =>
    cases h
    exact h'
  | cons k ks ih =>
    unfold Takes pressEach at h
    cases hk : b.press pageLines k with
    | error e => simp [hk, bind, Except.bind] at h
    | ok r =>
      obtain ⟨b', taken⟩ := r
      simp only [hk, bind, Except.bind] at h
      cases hrest : b'.pressEach pageLines ks with
      | error e => simp [hrest] at h
      | ok r =>
        obtain ⟨b'', rest⟩ := r
        simp only [hrest, pure, Except.pure, List.length_cons, List.replicate_succ, Except.ok.injEq,
          Prod.mk.injEq, List.cons.injEq] at h
        obtain ⟨rfl, rfl, rfl⟩ := h
        exact .cons hk (ih hrest)

/-- Characters typed one after the other stand before the cursor. -/
theorem exists_takes_types (pageLines : Int) {ks : List KeyPress}
    (hks : ∀ k ∈ ks, ∃ c, k.Types c) (hb : b.CursorBetween u w) :
    ∃ (b' : Buffer) (cs : List Text), Takes pageLines ks b b' ∧ b'.CursorBetween (u ++ cs.flatten) w ∧
      cs.length = ks.length ∧ ∀ c ∈ cs, c.IsCharacter := by
  induction ks generalizing b u with
  | nil =>
    refine ⟨b, [], .nil pageLines b, ?_, rfl, nofun⟩
    rwa [List.flatten_nil, List.append_nil]
  | cons k ks ih =>
    obtain ⟨⟨c, hc⟩, hks⟩ := List.forall_mem_cons.1 hks
    have hclamp : b.text.clamp u.length = u.length := by
      rw [hb.text]
      exact congrArg Cursor.position (Cursor.clampTo_append u w)
    have hfirst : b.text.clamp b.cursor.first = u.length := by
      rw [hb.cursor, Cursor.first, Cursor.collapsed, Int.min_self, hclamp]
    have hlast : b.text.clamp b.cursor.last = (u ++ []).length := by
      rw [hb.cursor, Cursor.last, Cursor.collapsed, Int.max_self, hclamp, List.append_nil]
    have htext : b.text = u ++ [] ++ w := by rw [List.append_nil, hb.text]
    obtain ⟨b₁, hpress, hb₁⟩ := exists_press_types pageLines hc hb.inside htext hfirst hlast
    obtain ⟨b', cs, htakes, hb', hlength, hcs⟩ := ih hks hb₁
    refine ⟨b', c :: cs, .cons hpress htakes, ?_, by simp [hlength],
      List.forall_mem_cons.2 ⟨hc.character, hcs⟩⟩
    rwa [List.flatten_cons, ← List.append_assoc]

theorem exists_takes_backspaces (pageLines : Int) {bs : List KeyPress} {cs : List Text}
    (hbs : ∀ k ∈ bs, k.IsBackspace) (hcs : ∀ c ∈ cs, c.IsCharacter) (hlength : bs.length = cs.length)
    (hb : b.CursorBetween (u ++ cs.flatten) w) :
    ∃ b', Takes pageLines bs b b' ∧ b'.CursorBetween u w := by
  induction bs generalizing b cs with
  | nil =>
    obtain rfl : cs = [] := List.length_eq_zero_iff.1 hlength.symm
    refine ⟨b, .nil pageLines b, ?_⟩
    rwa [List.flatten_nil, List.append_nil] at hb
  | cons k bs ih =>
    obtain rfl | ⟨cs, c, rfl⟩ := List.eq_nil_or_concat cs
    · cases hlength
    rw [List.concat_eq_append] at hb hcs hlength
    rw [List.flatten_concat, ← List.append_assoc] at hb
    obtain ⟨hk, hbs⟩ := List.forall_mem_cons.1 hbs
    obtain ⟨hcs, hc⟩ := List.forall_mem_append.1 hcs
    obtain ⟨b₁, hpress, hb₁⟩ :=
      exists_press_backspace pageLines hk (hc c (List.mem_singleton_self c)) hb
    have hlength' : bs.length = cs.length := by simpa using hlength
    obtain ⟨b', htakes, hb'⟩ := ih hbs hcs hlength' hb₁
    exact ⟨b', .cons hpress htakes, hb'⟩

/-- **What was typed is erased.** From any text, with any half of a surrogate pair in it, and any
cursor in it: keys that type a character each, and then as many Backspaces, are all taken. If nothing
is selected, they leave the very text and cursor; if something is, and there are any keys, the text
without the selection, and the cursor where it began. -/
theorem typed_and_erased (hb : b.CursorInside) (pageLines : Int) {ks bs : List KeyPress}
    (hks : ∀ k ∈ ks, ∃ c, k.Types c) (hbs : ∀ k ∈ bs, k.IsBackspace)
    (hlength : bs.length = ks.length) :
    ∃ b', b.pressEach pageLines (ks ++ bs) = .ok (b', List.replicate (ks.length + bs.length) true) ∧
      (b.cursor.hasSelection = false → b'.text = b.text ∧ b'.cursor = b.cursor) ∧
      (b.cursor.hasSelection = true → ks ≠ [] →
        b'.text = b.text.before b.cursor.first ++ b.text.following b.cursor.last ∧
          b'.cursor = .collapsed b.cursor.first) := by
  cases ks with
  | nil =>
    obtain rfl : bs = [] := List.length_eq_zero_iff.1 hlength
    exact ⟨b, rfl, fun _ => ⟨rfl, rfl⟩, fun _ hne => absurd rfl hne⟩
  | cons k ks =>
    obtain ⟨u, v, w, ht, hu, huv, -⟩ := b.cursor.exists_selection b.text
    obtain ⟨⟨c, hc⟩, hks⟩ := List.forall_mem_cons.1 hks
    obtain ⟨b₁, hpress, hb₁⟩ := exists_press_types pageLines hc hb ht hu.symm huv.symm
    obtain ⟨b₂, cs, htypes, hb₂, hcs, hcharacters⟩ := exists_takes_types pageLines hks hb₁
    rw [List.append_assoc, ← List.flatten_cons] at hb₂
    obtain ⟨b', herases, hb'⟩ := exists_takes_backspaces pageLines hbs
      (List.forall_mem_cons.2 ⟨hc.character, hcharacters⟩) (by simp [hlength, hcs]) hb₂
    have htakes := (Takes.cons hpress htypes).append herases
    unfold Takes at htakes
    rw [List.length_append] at htakes
    -- the offsets of a cursor inside the text are those of the parts
    obtain ⟨⟨hposition, hposition'⟩, hanchor, hanchor'⟩ := hb
    have hfirst : (u.length : Int) = b.cursor.first := by
      rw [hu]
      exact Text.clamp_of_mem (by unfold Cursor.first; omega) (by unfold Cursor.first; omega)
    have hlast : ((u ++ v).length : Int) = b.cursor.last := by
      rw [huv]
      exact Text.clamp_of_mem (by unfold Cursor.last; omega) (by unfold Cursor.last; omega)
    refine ⟨b', htakes, fun hnone => ?_, fun _ _ => ?_⟩
    · have hcollapsed := Cursor.collapsed_of_not_hasSelection hnone
      have hfirst' : b.cursor.first = b.cursor.position := by
        rw [hcollapsed]
        exact Int.min_self _
      have hlast' : b.cursor.last = b.cursor.position := by
        rw [hcollapsed]
        exact Int.max_self _
      obtain rfl : v = [] := by
        rw [List.length_append] at hlast
        exact List.length_eq_zero_iff.1 (by omega)
      refine ⟨by rw [hb'.text, ht, List.append_nil], ?_⟩
      rw [hb'.cursor, hfirst, hfirst', ← hcollapsed]
    · rw [hb'.text, hb'.cursor, ← hfirst, ← hlast, Text.before_natCast, Text.following_natCast, ht,
        List.drop_left, List.append_assoc, List.take_left]
      exact ⟨rfl, rfl⟩

/-- A letter, a surrogate pair, Tab and Enter typed between the two halves of a pair. -/
theorem typed_and_erased_inside_pair :
    let b := (Buffer.ofText [0xD83D, 0xDE00] 20 100).setCursor ⟨1, 1⟩
    let ks : List KeyPress := [{ key := [97] }, { key := [0xD83D, 0xDE01] },
      { key := Text.ofString "Tab" }, { key := Text.ofString "Enter" }]
    let bs : List KeyPress := List.replicate 4 { key := Text.ofString "Backspace" }
    b.CursorInside ∧ (∀ k ∈ ks, ∃ c, k.Types c) ∧ (∀ k ∈ bs, k.IsBackspace) ∧
      bs.length = ks.length ∧
      ∃ b', b.pressEach 20 (ks ++ bs) = .ok (b', List.replicate (ks.length + bs.length) true) ∧
        (b.cursor.hasSelection = false → b'.text = b.text ∧ b'.cursor = b.cursor) ∧
        (b.cursor.hasSelection = true → ks ≠ [] →
          b'.text = b.text.before b.cursor.first ++ b.text.following b.cursor.last ∧
            b'.cursor = .collapsed b.cursor.first) := by
  intro b ks bs
  have hb : b.CursorInside := setCursor_inside _ _
  have hks : ∀ k ∈ ks, ∃ c, k.Types c := by
    have hletter : ∀ u ∈ [97], CodeUnit.isUntypable u = false :=
      List.forall_mem_singleton.2 (by decide)
    have hpair : ∀ u ∈ [0xD83D, 0xDE01], CodeUnit.isUntypable u = false :=
      List.forall_mem_cons.2 ⟨by decide, List.forall_mem_singleton.2 (by decide)⟩
    simp only [ks, List.forall_mem_cons]
    exact ⟨⟨[97], rfl, .unit (by decide) (by decide), .inr (.inr ⟨rfl, hletter⟩)⟩,
      ⟨[0xD83D, 0xDE01], rfl, .pair (by decide) (by decide), .inr (.inr ⟨rfl, hpair⟩)⟩,
      ⟨[tab], rfl, .unit (by decide) (by decide), .inl ⟨by decide, rfl⟩⟩,
      ⟨[newline], rfl, .unit (by decide) (by decide), .inr (.inl ⟨by decide, rfl⟩)⟩, nofun⟩
  have hbs : ∀ k ∈ bs, k.IsBackspace := fun k hk => by
    rw [List.eq_of_mem_replicate hk]
    exact ⟨rfl, by decide⟩
  exact ⟨hb, hks, hbs, rfl, typed_and_erased hb 20 hks hbs rfl⟩

end Buffer

end ModalEditor
