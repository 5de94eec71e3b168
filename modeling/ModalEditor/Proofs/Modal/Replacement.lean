import ModalEditor.Proofs.Buffer.LineEdits
import ModalEditor.Proofs.Modal.Repetition

/-!
# Replacing one character

`r` waits for a character. `Desk.overwrite_or_yield`: a key of one character, other than a control
character and without Control, Alt and Meta, is put in place of the character under the cursor
(`Text.Replaced`), and no other line is touched; any other key does what it does without the `r`,
because it drops the `r` before anything else (`Desk.read_awaiting`).

A stopped interpreter does not wait. It answers the second key as it answers it alone, whatever the
key is (`Desk.overwrite_if_stopped`).
-/

namespace ModalEditor

/-! ## The character under the cursor -/

namespace Text

/-- What becomes of a text when its first character, a surrogate pair or one code unit, is replaced;
there is none at the end of a line or of the text. -/
inductive Replaced (c : Text) : Text → Text → Prop where
  | textEnd : Replaced c [] []
  | lineEnd (w : Text) : Replaced c (newline :: w) (newline :: w)
  | pair {x y : CodeUnit} (w : Text) (hx : x.isHigh = true) (hy : y.isLow = true) :
    Replaced c (x :: y :: w) (c ++ w)
  | unit {x : CodeUnit} {w : Text} (hx : x ≠ newline)
    (hpair : (x.isHigh && w.head?.any CodeUnit.isLow) = false) : Replaced c (x :: w) (c ++ w)

theorem Replaced.parts {c v v' : Text} (h : Replaced c v v') (hc : newline ∉ c) :
    ∃ old new w, v = old ++ w ∧ v' = new ++ w ∧ newline ∉ old ∧ newline ∉ new := by
  cases h with
  | textEnd => exact ⟨[], [], [], rfl, rfl, by simp, by simp⟩
  | lineEnd w => exact ⟨[], [], newline :: w, rfl, rfl, by simp, by simp⟩
  | @pair x y w hx hy =>
    refine ⟨[x, y], c, w, rfl, rfl, ?_, hc⟩
    simp only [List.mem_cons, List.not_mem_nil, or_false]
    rintro (rfl | rfl)
    · exact absurd hx (by decide)
    · exact absurd hy (by decide)
  | @unit x w hx => exact ⟨[x], c, w, rfl, rfl, by simpa using Ne.symm hx, hc⟩

theorem next_append (u : Text) (x : CodeUnit) (w : Text) : (u ++ x :: w).next u.length =
    if x.isHigh && w.head?.any CodeUnit.isLow then (u.length : Int) + 2 else u.length + 1 := by
  have hinside := insidePair_append (u ++ [x]) w
  rw [List.getLast?_concat, List.append_assoc, List.length_append] at hinside
  have hlt : (u.length : Int) < (u ++ x :: w).length := by
    rw [List.length_append, List.length_cons]
    omega
  rw [next_eq (by omega) hlt]
  exact congrArg (fun b => if b = true then (u.length : Int) + 2 else u.length + 1) hinside

theorem unitAt?_append (u v : Text) : (u ++ v).unitAt? u.length = v.head? := by
  rw [unitAt?_natCast, List.getElem?_append_right (Nat.le_refl _), Nat.sub_self,
    List.head?_eq_getElem?]

end Text

/-- The plan replaces the character that begins at the cursor, if there is one. -/
theorem Plan.overwrite_append {u v : Text} {c : Cursor} (hc : (u ++ v).clamp c.position = u.length)
    (character : Text) :
    Text.Replaced character v v ∧ overwrite (u ++ v) c character = .none (.collapsed u.length) ∨
      ∃ old w e, v = old ++ w ∧ Text.Replaced character v (character ++ w) ∧
        overwrite (u ++ v) c character = { edit := some e, cursor := .collapsed u.length } ∧
        e.start = u.length ∧ e.stop = (u ++ old).length ∧ e.inserted = character := by
  unfold overwrite
  dsimp only
  rw [hc, Text.unitAt?_append]
  match v with
  | [] => exact .inl ⟨.textEnd, if_pos (.inl rfl)⟩
  | x :: w =>
    by_cases hx : x = newline
    · subst hx
      exact .inl ⟨.lineEnd w, if_pos (.inr rfl)⟩
    right
    rw [if_neg (by simpa using hx), Text.next_append]
    cases hpair : x.isHigh && w.head?.any CodeUnit.isLow with
    | false => exact ⟨[x], w, _, rfl, .unit hx hpair, rfl, rfl, by simp, rfl⟩
    | true =>
      obtain ⟨hhigh, hlow⟩ := Bool.and_eq_true_iff.1 hpair
      cases w with
      | nil => cases hlow
      | cons y w => exact ⟨[x, y], w, _, rfl, .pair w hhigh hlow, rfl, rfl, by simp, rfl⟩

/-- **The plan followed**: the character under the cursor is replaced, and the cursor stays on it. -/
theorem Buffer.follow_overwrite (b : Buffer) (c : Cursor) {character : Text}
    (hne : character ≠ []) :
    ∃ u v v' b', b.text = u ++ v ∧ u.length = b.text.clamp c.position ∧
      Text.Replaced character v v' ∧ b.follow (.overwrite b.text c character) = .ok b' ∧
      b'.text = u ++ v' ∧ b'.cursor = .collapsed (b.text.clamp c.position) := by
  obtain ⟨u, v, ht, hu⟩ := Text.exists_append (b.text.clamp_nonneg c.position)
    (b.text.clamp_le c.position)
  rw [ht] at hu
  obtain ⟨hnone, hplan⟩ | ⟨old, w, e, rfl, hreplaced, hplan, hstart, hstop, hinserted⟩ :=
    Plan.overwrite_append hu character
  · refine ⟨u, v, v, b.setCursor (.collapsed u.length), ht, by rw [ht, hu], hnone, ?_, ?_, ?_⟩
    · rw [ht, hplan]
      rfl
    · rw [setCursor_text, ht]
    · rw [setCursor_cursor, ht, hu, Cursor.clampTo_append]
  · have hresult : e.result b.text = u ++ (character ++ w) := by
      rw [Edit.result_of_eq (by rw [ht, List.append_assoc]) hstart hstop, hinserted,
        List.append_assoc]
    have hfits : e.Fits b.text := Plan.overwrite_fits b.text c character e (by rw [ht, hplan])
    obtain ⟨b', -, hb, htext, -, -, -, hcursor⟩ := follow_records
      (p := .overwrite b.text c character) (by rw [ht, hplan]) hfits
      fun hempty => hne (hinserted ▸ hempty.2)
    refine ⟨u, _, _, b', ht, by rw [ht, hu], hreplaced, hb, htext.trans hresult, ?_⟩
    rw [hcursor, htext, hresult, ht, hplan, hu, Cursor.clampTo_append]

/-! ## Keys -/

theorem KeyPress.newline_notMem_key {k : KeyPress} (h : k.isCharacter = true) :
    k.key ≠ [] ∧ newline ∉ k.key := by
  unfold isCharacter at h
  split at h
  · rename_i u hkey
    rw [hkey]
    refine ⟨by simp, fun hmem => ?_⟩
    rw [← List.mem_singleton.1 hmem] at h
    exact absurd h (by decide)
  · unfold Text.isPair at h
    split at h
    · rename_i u v hkey
      rw [hkey]
      obtain ⟨hu, hv⟩ := Bool.and_eq_true_iff.1 h
      refine ⟨by simp, ?_⟩
      simp only [List.mem_cons, List.not_mem_nil, or_false]
      rintro (rfl | rfl)
      · exact absurd hu (by decide)
      · exact absurd hv (by decide)
    · cases h

theorem Command.ofKey_ne_page {k : KeyPress} (q : Bool) (h : pageChord? k = none) :
    ofKey q k ≠ .control .pageUp ∧ ofKey q k ≠ .control .pageDown := by
  have hletter : ∀ letter shift, ofLetter q letter shift ≠ .control .pageUp ∧
      ofLetter q letter shift ≠ .control .pageDown := fun letter shift => by
    have hwordless := (ofLetter_cases q letter shift).1
    constructor <;> exact fun hpage => by simp [hpage, isWordless] at hwordless
  unfold ofKey
  rw [h]
  grind

/-! ## The second key -/

namespace Desk

variable {d : Desk} {k : KeyPress}

/-- The desk after `r`. -/
def awaiting (d : Desk) : Desk := { d with vi := d.vi.hear [.reset, .overwrite] }

section
variable (he : d.vi.enabled = true) (hm : d.vi.mode = .navigation .idle)
include he hm

theorem press_awaiting : d.press { key := Text.ofString "r" } = .ok (d.awaiting, .handled) :=
  press_of_rest (read_overwrite he hm)

/-- **A character** is put in place of the one under the cursor. -/
theorem press_character (hr : d.vi.running = true) {character : Text}
    (hk : k.character? = some character) : d.awaiting.press k =
      (d.carry { stroke := .edit (.overwrite character), events := [.reset, .overwrite, .reset] }).map
        (·, .handled) := by
  obtain ⟨he', -, hi, hp⟩ := hear_waits hr [.reset, .overwrite] (by rw [hm]; rfl)
  rw [he] at he'
  rw [press_eq, read_of_character (d := d.awaiting) he' hi hp hk]
  exact congrArg _ (carry_hear d _ _)

/-- **Any other key** is read as without the `r`, which is dropped first. -/
theorem read_awaiting (hr : d.vi.running = true) (hk : k.character? = none)
    (hpage : Command.pageChord? k = none) :
    d.awaiting.read k = { d.read k with events := .reset :: (d.read k).events } := by
  obtain ⟨he', hq, hi, hp⟩ := hear_waits hr [.reset, .overwrite] (by rw [hm]; rfl)
  have hindent : (d.vi.hear [.reset, .overwrite]).autoIndent = d.vi.autoIndent :=
    Interpreter.hear_keeps (fun _ _ _ _ _ _ _ => rfl) d.vi _
  have hidle : d.vi.pending = .idle := by rw [Interpreter.pending, hm]; rfl
  have hout : d.vi.mode.isInsertion = false := by rw [hm]; rfl
  have hcommand : ∀ c, ({ d with vi := d.vi.hear [.reset, .overwrite] } : Desk).readCommand c =
      d.readCommand c := readCommand_hear (by rw [hidle]; decide) (by rw [hp]; decide)
  obtain ⟨hup, hdown⟩ := Command.ofKey_ne_page d.vi.qStartsLine hpage
  unfold awaiting
  generalize d.vi.hear [.reset, .overwrite] = waiting at *
  unfold read
  by_cases hn : Command.ofKey d.vi.qStartsLine k = .control .newline ∧ d.vi.autoIndent
  · simp [hq, hindent, hn, hp, hidle]
  · simp [hq, hindent, he', he, hi, hp, hup, hdown, hk, hcommand, hidle, hout, hn]

/-- A key that is no character does the same after `r` as alone, also if the interpreter is stopped. -/
theorem press_other (hk : k.character? = none) (hpage : Command.pageChord? k = none) :
    ∃ d₂ d₃ verdict, d.awaiting.press k = .ok (d₂, verdict) ∧ d.press k = .ok (d₃, verdict) ∧
      d₂.Alike d₃ := by
  let r := d.read k
  cases hr : d.vi.running with
  | false =>
    obtain ⟨d', hd', -⟩ := d.exists_carry r
    have hpress : d.press k = .ok (d', r.verdict) := by rw [press_eq, hd']; rfl
    have hdeaf : d.awaiting = d := by
      have hsend : ∀ e, d.vi.send e = d.vi := fun e => if_neg (by rw [hr]; decide)
      unfold awaiting
      rw [Interpreter.hear_cons, hsend, Interpreter.hear_cons, hsend]
      rfl
    rw [hdeaf]
    exact ⟨d', d', _, hpress, hpress, rfl, rfl, rfl, rfl⟩
  | true =>
    have hmode : (d.vi.hear ([.reset, .overwrite] ++ .reset :: r.events)).mode =
        (d.vi.hear r.events).mode := by
      rw [Interpreter.hear_mode hr, Interpreter.hear_mode hr, hm]
      rfl
    obtain ⟨d₂, d₃, h₂, h₃, halike⟩ := d.carry_alike r.stroke hmode
    refine ⟨d₂, d₃, r.verdict, ?_, ?_, halike⟩
    · have hcarry := d.carry_hear [.reset, .overwrite] { r with events := .reset :: r.events }
      rw [press_eq, read_awaiting he hm hr hk hpage]
      exact congrArg _ (hcarry.trans h₂)
    · rw [press_eq]
      exact congrArg _ h₃

end

/-- **`r` takes one character or gets out of the way.** In navigation with nothing pending, after
`r`, a key that is one character puts it in place of the character that begins at the cursor, and
changes no text where none does, at the end of a line or of the text; the other lines stay as they
are, and the cursor is collapsed where it was. Any other key that asks for no page does what it does
alone. The first of it needs an interpreter that has not been stopped. -/
theorem overwrite_or_yield (d : Desk) (k : KeyPress) (he : d.vi.enabled = true)
    (hm : d.vi.mode = .navigation .idle) (hpage : Command.pageChord? k = none) :
    let t := d.buffer.text
    let here := t.clamp d.buffer.cursor.position
    let character := k.isChord = false ∧ k.isCharacter = true
    ∃ d₁, d.press { key := Text.ofString "r" } = .ok (d₁, .handled) ∧
      (character → d.vi.running = true →
        ∃ d₂ u v v', d₁.press k = .ok (d₂, .handled) ∧
          (t = u ++ v ∧ u.length = here ∧ Text.Replaced k.key v v' ∧ d₂.buffer.text = u ++ v') ∧
          (∃ before line line' after, before.length = t.lineAt here ∧
            t.lines = before ++ line :: after ∧
            d₂.buffer.text.lines = before ++ line' :: after) ∧
          d₂.buffer.cursor = .collapsed here ∧ d₂.vi.mode = .navigation .idle) ∧
      (¬ character → ∃ d₂ d₃ verdict, d₁.press k = .ok (d₂, verdict) ∧
        d.press k = .ok (d₃, verdict) ∧ d₂.Alike d₃) := by
  intro t here character
  refine ⟨d.awaiting, press_awaiting he hm, fun hcharacter hr => ?_, fun hother => ?_⟩
  · have hk : k.character? = some k.key :=
      KeyPress.character?_eq_some_iff.2 ⟨hcharacter.1, hcharacter.2, rfl⟩
    obtain ⟨hne, hnewline⟩ := KeyPress.newline_notMem_key hcharacter.2
    obtain ⟨u, v, v', b, ht, hu, hreplaced, hb, htext, hcursor⟩ :=
      d.buffer.follow_overwrite d.buffer.cursor hne
    let d₂ : Desk := { d with
      buffer := b
      vi := (d.vi.hear [.reset, .overwrite, .reset]).remember (.edit (.overwrite k.key)) }
    have hpress : d.awaiting.press k = .ok (d₂, .handled) := by
      have hcarry := carry_of_make
        (r := { stroke := .edit (.overwrite k.key), events := [.reset, .overwrite, .reset] }) hb
      rw [press_character he hm hr hk, hcarry]
      rfl
    obtain ⟨old, new, w, hv, hv', hold, hnew⟩ := hreplaced.parts hnewline
    obtain ⟨before, l, r, after, hbefore, hlines⟩ := Text.exists_lines_around u w
    refine ⟨d₂, u, v, v', hpress, ⟨ht, hu, hreplaced, htext⟩,
      ⟨before, l ++ old ++ r, l ++ new ++ r, after, ?_, ?_, ?_⟩, hcursor, ?_⟩
    · rw [hbefore, ← Text.lineAt_append u v, ← ht, hu]
    · rw [show t = u ++ v from ht, hv, ← List.append_assoc]
      exact hlines old hold
    · rw [show d₂.buffer.text = u ++ v' from htext, hv', ← List.append_assoc]
      exact hlines new hnew
    · rw [Interpreter.remember_keeps (f := Interpreter.mode) fun _ _ => rfl,
        Interpreter.hear_mode hr, hm]
      rfl
  · refine press_other he hm ?_ hpage
    cases hk : k.character? with
    | none => rfl
    | some text =>
      obtain ⟨hchord, hsingle, -⟩ := KeyPress.character?_eq_some_iff.1 hk
      exact absurd ⟨hchord, hsingle⟩ hother

/-- On a surrogate pair, with a small letter and with a chord: the letter replaces both halves, the
chord is passed through as it is alone. -/
theorem overwrite_or_yield_on_pair :
    let b : Buffer := { Buffer.ofText [97, 0xD83D, 0xDE00, 10, 98] 20 1 with cursor := ⟨1, 1⟩ }
    let d : Desk := { vi := .new true true true false 20, register := [], buffer := b }
    let letter : KeyPress := { key := [120] }
    let chord : KeyPress := { key := [120], ctrl := some true }
    (d.vi.enabled = true ∧ d.vi.mode = .navigation .idle ∧ d.vi.running = true ∧
        Command.pageChord? letter = none ∧ Command.pageChord? chord = none ∧
        (letter.isChord = false ∧ letter.isCharacter = true) ∧
        ¬ (chord.isChord = false ∧ chord.isCharacter = true)) ∧
      ∃ d₁, d.press { key := Text.ofString "r" } = .ok (d₁, .handled) ∧
        (∃ d₂, d₁.press letter = .ok (d₂, .handled) ∧ d₂.buffer.text = [97, 120, 10, 98] ∧
          d₂.buffer.cursor = .collapsed 1) ∧
        ∃ d₂ d₃ verdict, d₁.press chord = .ok (d₂, verdict) ∧ d.press chord = .ok (d₃, verdict) ∧
          d₂.Alike d₃ := by
  intro b d letter chord
  have hpage : Command.pageChord? letter = none := by decide
  have hpage' : Command.pageChord? chord = none := by decide
  have hletter : letter.isChord = false ∧ letter.isCharacter = true := by decide
  have hchord : ¬ (chord.isChord = false ∧ chord.isCharacter = true) := by decide
  obtain ⟨d₁, hr, htaken, -⟩ := overwrite_or_yield d letter rfl rfl hpage
  obtain ⟨d₁', hr', -, hyielded⟩ := overwrite_or_yield d chord rfl rfl hpage'
  obtain ⟨rfl, -⟩ := Prod.mk.inj (Except.ok.inj (hr.symm.trans hr'))
  obtain ⟨d₂, u, v, v', hpress, ⟨ht, hu, hreplaced, htext⟩, -, hcursor, -⟩ := htaken hletter rfl
  have hparts : [97] ++ [0xD83D, 0xDE00, 10, 98] = u ++ v := ht
  obtain ⟨rfl, rfl⟩ := List.append_inj hparts (Int.ofNat.inj hu.symm)
  refine ⟨⟨rfl, rfl, rfl, hpage, hpage', hletter, hchord⟩, d₁, hr, ⟨d₂, hpress, ?_, hcursor⟩,
    hyielded hchord⟩
  cases hreplaced with
  | pair w hx hy => exact htext
  | unit hx hpair => exact absurd hpair (by decide)

/-- A stopped interpreter, though it is on and waits for nothing in navigation, does not wait for a
character either: `x` after `r` takes out the one under the cursor. -/
theorem overwrite_if_stopped :
    let vi := (Interpreter.new true true true false 20).stop
    let d : Desk := { vi, register := [], buffer := .ofText [97, 98] 20 100 }
    let k : KeyPress := { key := [120] }
    (d.vi.enabled = true ∧ d.vi.mode = .navigation .idle ∧ Command.pageChord? k = none ∧
        k.isChord = false ∧ k.isCharacter = true) ∧
      ¬ ∃ d₁ d₂ u v v', d.press { key := Text.ofString "r" } = .ok (d₁, .handled) ∧
        d₁.press k = .ok (d₂, .handled) ∧ d.buffer.text = u ++ v ∧
        u.length = d.buffer.text.clamp d.buffer.cursor.position ∧ Text.Replaced k.key v v' ∧
        d₂.buffer.text = u ++ v' := by
  intro vi d k
  refine ⟨⟨rfl, rfl, by decide, by decide, by decide⟩, ?_⟩
  rintro ⟨d₁, d₂, u, v, v', hr, hpress, ht, hu, hreplaced, htext⟩
  have hrun : ((d.press { key := Text.ofString "r" }).toOption.bind fun (d₁, _) =>
      (d₁.press k).toOption.map (·.1.buffer.text)) = some [98] := by decide
  rw [hr] at hrun
  have hrun : (d₁.press k).toOption.map (·.1.buffer.text) = some [98] := hrun
  rw [hpress] at hrun
  have hleft : u ++ v' = [98] := htext.symm.trans (Option.some.inj hrun)
  have hparts : [] ++ [97, 98] = u ++ v := ht
  obtain ⟨rfl, rfl⟩ := List.append_inj hparts (Int.ofNat.inj hu.symm)
  cases hreplaced with
  | pair w hx hy => exact absurd hx (by decide)
  | unit hx hpair => exact absurd hleft (by decide)

end Desk

end ModalEditor
