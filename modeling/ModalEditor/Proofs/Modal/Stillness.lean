import ModalEditor.Proofs.Key.Letter
import ModalEditor.Proofs.Modal.Office

/-!
# Nothing is typed in navigation

Two parties decide about a key, each by a list of its own: the interpreter, which keys it leaves to
plain typing, and plain typing, which keys it takes. `Desk.nothing_typed`: in navigation they agree.
A key that the interpreter passes through moves the cursor or does nothing, whatever is pending; and
of the keys that it takes, only those that are meant to edit do (`Desk.Edits`).
-/

namespace ModalEditor

/-- The stroke leaves text and history alone. -/
def Stroke.isStill : Stroke → Bool
  | .rest | .move _ _ | .page _ _ | .top | .yank | .insert .before | .insert .after => true
  | _ => false

theorem Buffer.make_of_isStill {s : Stroke} (h : s.isStill = true) (b : Buffer) (register : Text) :
    ∃ b', b.make (s.change b.text b.cursor register) = .ok b' ∧ b'.text = b.text ∧
      b'.history = b.history := by
  have hplace : ∀ c, ∃ b', b.make (.place c) = .ok b' ∧ b'.text = b.text ∧
      b'.history = b.history := fun c => ⟨b.setCursor c, rfl, setCursor_text b c, by simp⟩
  cases s with
  | rest | yank => exact ⟨b, rfl, rfl, rfl⟩
  | move | page | top => exact hplace _
  | insert place =>
    cases place with
    | before | after => exact hplace _
    | lineBelow | lineAbove => cases h
  | _ => cases h

namespace Desk

variable {d : Desk} {k : KeyPress}

/-- The keys that may edit in navigation. -/
inductive Edits (d : Desk) (k : KeyPress) : Prop where
  | breakLine (key : k.named? = some .enter) (on : d.vi.autoIndent = true)
  | overwrite (waits : d.vi.pending = .overwrite) (character : k.character?.isSome = true)
  /-- `d` on a selection, and the second `d`. -/
  | delete (plain : k.isChord = false) (unshifted : k.hasShift = false)
      (key : k.key = Text.ofString "d")
      (now : d.buffer.cursor.hasSelection = true ∨ d.vi.pending = .operator .delete)
  /-- The letters that edit by themselves; with Shift they ask for something else. -/
  | letter (plain : k.isChord = false) (unshifted : k.hasShift = false)
      (key : k.key ∈ ["x", "p", "u"].map Text.ofString)
  /-- The keys that edit by themselves, with Shift or without. -/
  | either (plain : k.isChord = false) (key : k.key ∈ [".", "o", "O"].map Text.ofString)

/-- Text, history and register are the same. -/
structure Same (d d' : Desk) : Prop where
  text : d'.buffer.text = d.buffer.text
  history : d'.buffer.history = d.buffer.history
  register : d'.register = d.register

theorem carry_of_isStill {r : Reading} (h : r.stroke.isStill = true) (d : Desk) :
    ∃ d', d.carry r = .ok d' ∧ d'.buffer.text = d.buffer.text ∧
      d'.buffer.history = d.buffer.history ∧ d'.vi = (d.vi.hear r.events).remember r.stroke ∧
      d'.register = r.stroke.register d.buffer.text d.buffer.cursor d.register := by
  obtain ⟨b, hb, htext, hhistory⟩ := Buffer.make_of_isStill h d.buffer d.register
  exact ⟨_, by rw [carry, hb]; rfl, htext, hhistory, rfl, rfl⟩

/-! ## Keys that are taken -/

theorem readCommand_still {c : Command} (hk : c.Given k) (h : ¬ d.Edits k) :
    (d.readCommand c).stroke.isStill = true := by
  -- a command that edits by itself was given by a key of the list
  have hletter (hkey : c.editKeys = [] ∨ c.EditKey k) (hne : c.editKeys ≠ [])
      (hunshifted : c.isUnshifted = true) :
      ¬ c.editKeys ⊆ ["x", "p", "u"].map Text.ofString := fun hsub =>
    let hkey := hkey.resolve_left hne
    h (.letter hkey.plain (hkey.unshifted hunshifted) (hsub hkey.key))
  have heither (hkey : c.editKeys = [] ∨ c.EditKey k) (hne : c.editKeys ≠ []) :
      ¬ c.editKeys ⊆ [".", "o", "O"].map Text.ofString := fun hsub =>
    let hkey := hkey.resolve_left hne
    h (.either hkey.plain (hsub hkey.key))
  cases c with
  | motion => rfl
  | operator op =>
    cases op with
    | yank =>
      simp only [readCommand, readOperator]
      split
      · rename_i hs
        cases hs.1
      · dsimp only
        split <;> rfl
    | delete =>
      obtain hnil | ⟨hchord, hmem, hshift⟩ := hk
      · cases hnil
      have hd : k.key = Text.ofString "d" := List.mem_singleton.1 hmem
      simp only [readCommand, readOperator]
      split
      · rename_i hs
        exact absurd (.delete hchord (hshift rfl) hd (.inl hs.2)) h
      · dsimp only
        split
        · rename_i hp
          exact absurd (.delete hchord (hshift rfl) hd (.inr hp)) h
        · rfl
  | insert place =>
    cases place with
    | before | after => rfl
    | lineBelow | lineAbove => exact absurd (by decide) (heither hk (by decide))
  | control c =>
    cases c with
    | deleteChar | paste | undo => exact absurd (by decide) (hletter hk (by decide) rfl)
    | again => exact absurd (by decide) (heither hk (by decide))
    | go =>
      simp only [readCommand, readControl]
      split <;> rfl
    | _ => rfl

theorem read_still (he : d.vi.enabled = true) (hm : d.vi.mode.isInsertion = false)
    (h : ¬ d.Edits k) : (d.read k).stroke.isStill = true := by
  have hgiven := Command.ofKey_given d.vi.qStartsLine k
  apply read_cases_of_navigation (P := fun r => r.stroke.isStill = true) he hm
  case breakLine =>
    intro hn hindent _
    rw [hn] at hgiven
    exact absurd (.breakLine hgiven hindent) h
  case page => exact fun _ => rfl
  case overwrite =>
    intro character hp hk
    exact absurd (.overwrite hp (Option.isSome_of_eq_some hk)) h
  case command => exact fun _ => readCommand_still hgiven h

/-! ## Keys that are passed through -/

theorem given_of_readCommand {c : Command} (hk : c.Given k)
    (h : (d.readCommand c).verdict = .passThrough) :
    (Command.control .navigation).Given k ∨ (Command.control .chord).Given k := by
  cases c with
  | motion | insert => cases h
  | operator op =>
    rw [readCommand, readOperator_verdict] at h
    cases h
  | control c =>
    cases c with
    | navigation => exact .inl hk
    | chord => exact .inr hk
    | _ => cases h

/-- In navigation the interpreter leaves chords and navigation keys to the host, nothing else. -/
theorem given_of_passThrough (he : d.vi.enabled = true) (hm : d.vi.mode.isInsertion = false)
    (h : (d.read k).verdict = .passThrough) :
    (Command.control .navigation).Given k ∨ (Command.control .chord).Given k := by
  have hgiven := Command.ofKey_given d.vi.qStartsLine k
  revert h
  apply read_cases_of_navigation (P := fun r => r.verdict = .passThrough →
    (Command.control .navigation).Given k ∨ (Command.control .chord).Given k) he hm
  case breakLine | page | overwrite => simp
  case command => exact fun _ h => given_of_readCommand hgiven h

/-- Plain typing declines the chords, and moves the cursor at the navigation keys. -/
theorem typed_still (h : (Command.control .navigation).Given k ∨ (Command.control .chord).Given k)
    {pageLines : Int} {s : Stroke} (hs : k.typed? pageLines = some s) : s.isStill = true := by
  unfold KeyPress.typed? at hs
  obtain ⟨hplain, hnavigation⟩ | hchord := h
  · simp only [hplain] at hs
    cases hn : k.named? with
    | none => simp [hn] at hnavigation
    | some named =>
      simp only [hn] at hs
      have hnav : named.isNavigation = true := by simpa [hn] using hnavigation
      cases named <;> first | (cases hs; rfl) | cases hnav
  · have hc : k.isChord = true := hchord
    rw [if_pos hc] at hs
    cases hs

/-- **Nothing is typed in navigation.** A key that the interpreter passes through leaves text,
history and register alone, also when plain typing gets it; a key that it takes leaves text and
history alone, unless it is one of those that edit. -/
theorem nothing_typed (he : d.vi.enabled = true) (hm : d.vi.mode.isInsertion = false)
    (k : KeyPress) :
    (∃ d' d'' taken, d.press k = .ok (d', .passThrough) ∧ d'.typeKey k = .ok (d'', taken) ∧
      d.Same d' ∧ d.Same d'') ∨
    (∃ d', d.press k = .ok (d', .handled) ∧
      (d.Edits k ∨ d'.buffer.text = d.buffer.text ∧ d'.buffer.history = d.buffer.history)) := by
  cases hv : (d.read k).verdict with
  | passThrough =>
    left
    have hrest := read_stroke_of_passThrough hv
    obtain ⟨d', hd', htext, hhistory, -, hregister⟩ :=
      d.carry_of_isStill (r := d.read k) (by rw [hrest]; rfl)
    rw [hrest] at hregister
    have hsame : d.Same d' := ⟨htext, hhistory, hregister⟩
    have hpress : d.press k = .ok (d', .passThrough) := by
      rw [press_eq, hd', hv]
      rfl
    cases ht : k.typed? d'.typingPageLines with
    | none =>
      refine ⟨d', d', false, hpress, ?_, hsame, hsame⟩
      rw [typeKey_eq, ht]
    | some s =>
      have hstill := typed_still (given_of_passThrough he hm hv) ht
      obtain ⟨d'', hd'', htext', hhistory', -, hregister'⟩ :=
        d'.carry_of_isStill (r := { stroke := s }) hstill
      rw [(KeyPress.typed_of_typed? ht).register] at hregister'
      refine ⟨d', d'', true, hpress, ?_, hsame, htext'.trans htext, hhistory'.trans hhistory,
        hregister'.trans hregister⟩
      rw [typeKey_eq, ht]
      show (d'.carry { stroke := s }).map (·, true) = _
      rw [hd'']
      rfl
  | handled =>
    right
    by_cases h : d.Edits k
    · obtain ⟨d', hd', -⟩ := d.exists_carry (d.read k)
      refine ⟨d', ?_, .inl h⟩
      rw [press_eq, hd', hv]
      rfl
    · obtain ⟨d', hd', htext, hhistory, -⟩ := d.carry_of_isStill (read_still he hm h)
      refine ⟨d', ?_, .inr ⟨htext, hhistory⟩⟩
      rw [press_eq, hd', hv]
      rfl

/-- An arrow key while `r` waits for its character: the cursor moves, and the `r` is dropped. -/
theorem nothing_typed_at_arrow :
    let vi : Interpreter := { Interpreter.new true true true false 20 with
      mode := .navigation .overwrite }
    let d : Desk := { vi, register := [120], buffer := .ofText [97, 98] 20 100 }
    let k : KeyPress := { key := Text.ofString "ArrowRight" }
    (d.vi.enabled = true ∧ d.vi.mode.isInsertion = false) ∧
      (d.press k).toOption.map Prod.snd = some .passThrough ∧
      ((∃ d' d'' taken, d.press k = .ok (d', .passThrough) ∧ d'.typeKey k = .ok (d'', taken) ∧
        d.Same d' ∧ d.Same d'') ∨
      (∃ d', d.press k = .ok (d', .handled) ∧
        (d.Edits k ∨ d'.buffer.text = d.buffer.text ∧ d'.buffer.history = d.buffer.history))) := by
  intro vi d k
  have he : d.vi.enabled = true := rfl
  have hm : d.vi.mode.isInsertion = false := rfl
  exact ⟨⟨he, hm⟩, by decide, nothing_typed he hm k⟩

end Desk

end ModalEditor
