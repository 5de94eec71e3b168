import ModalEditor.Proofs.Modal.Alignment
import ModalEditor.Proofs.Modal.Reading

/-!
# Keys and surrogate pairs

Motions by lines count columns in code units, so `j`, `k` and a page may land between the two halves
of a surrogate pair, and the next edit leaves half a character in the text
(`Desk.offers_lands_in_pair`). That is the only slip of a desk that holds nothing but well-formed
texts.

Main statement: `Desk.offers_wellFormed_iff`. Along any run of keys the text stays well formed and
the cursor between characters exactly if no key slips (`Desk.Slips`); and if the register, the last
edit and the undo steps are well formed too (`Desk.WellFormed`), exactly if no key takes the cursor
into a pair (`Desk.LandsInPair`).
-/

namespace ModalEditor

/-- The text is well formed, and the cursor stands between characters. -/
structure Buffer.WellFormed (b : Buffer) : Prop where
  text : b.text.wellFormed = true
  cursor : b.cursor.Aligned b.text

/-! ## Changes -/

namespace Buffer

variable {b : Buffer}

/-- An edit between characters keeps a buffer well formed exactly if it inserts a well-formed
text. -/
theorem make_wellFormed_iff {ch : Change} (hb : b.WellFormed) (hu : ch ≠ .undo)
    (hf : ch.Fits b.text) (ha : ch.Aligned b.text b.cursor) :
    ∃ b', b.make ch = .ok b' ∧
      (b'.WellFormed ↔ ∀ e, ch.edit? = some e → e.inserted.wellFormed = true) := by
  have hinside : b.CursorInside := ⟨⟨hb.cursor.position.nonneg, hb.cursor.position.le⟩,
    hb.cursor.anchor.nonneg, hb.cursor.anchor.le⟩
  obtain ⟨b', hmake, hm⟩ := make_eq hu hf
  refine ⟨b', hmake, fun h e he => ?_, fun h => ⟨?_, ?_⟩⟩
  · have htext := h.text
    rw [hm.text, Change.result, he] at htext
    rwa [← e.wellFormed_result hb.text (hf e he) (ha.edit e he)]
  · rw [hm.text, Change.result]
    cases he : ch.edit? with
    | none => exact hb.text
    | some e =>
      rw [Option.elim_some, e.wellFormed_result hb.text (hf e he) (ha.edit e he)]
      exact h e he
  · rw [hm.cursor hinside, hm.text]
    exact ha.cursor h

theorem setCursor_wellFormed_iff {c : Cursor} (ht : b.text.wellFormed = true)
    (ha : c.anchor = c.position ∨ Text.Boundary b.text c.anchor) :
    (b.setCursor c).WellFormed ↔ b.text.insidePair (b.text.clamp c.position) = false := by
  constructor
  · intro h
    have hposition := h.cursor.position.outside
    rwa [setCursor_text, setCursor_cursor] at hposition
  · intro h
    have hposition : Text.Boundary b.text (b.text.clamp c.position) :=
      ⟨b.text.clamp_nonneg _, b.text.clamp_le _, h⟩
    refine ⟨by rw [setCursor_text]; exact ht, ?_⟩
    rw [setCursor_text, setCursor_cursor]
    refine ⟨hposition, ?_⟩
    rcases ha with ha | ha
    · change Text.Boundary b.text (b.text.clamp c.anchor)
      rwa [ha]
    · change Text.Boundary b.text (b.text.clamp c.anchor)
      rwa [ha.clamp_eq]

end Buffer

/-- A motion by lines drops the selection or keeps its other end. -/
theorem Stroke.landing_anchor {t : Text} {c c' : Cursor} {s : Stroke} (hc : c.Aligned t)
    (h : s.landing? t c = some c') : c'.anchor = c'.position ∨ Text.Boundary t c'.anchor := by
  have hmove : ∀ (m : Motion) (select : Bool),
      (c.move t m select).anchor = (c.move t m select).position ∨
        Text.Boundary t (c.move t m select).anchor := fun m select => by
    unfold Cursor.move
    split
    · refine .inr ?_
      change Text.Boundary t (t.clamp c.anchor)
      rw [hc.anchor.clamp_eq]
      exact hc.anchor
    · exact .inl rfl
  cases s with
  | move m select => cases m <;> cases h <;> exact hmove _ _
  | page => cases h; exact .inl rfl
  | _ => cases h

theorem Stroke.change_of_landing {t : Text} {c c' : Cursor} {register : Text} {s : Stroke}
    (h : s.landing? t c = some c') : s.change t c register = .place c' := by
  cases s with
  | move m select => cases m <;> cases h <;> rfl
  | page => cases h; rfl
  | _ => cases h

/-! ## One key -/

namespace Desk

/-- The key moves the cursor by lines, to a place inside a surrogate pair. -/
def LandsInPair (d : Desk) (k : KeyPress) : Prop :=
  ∃ c, (d.readThrough k).stroke.landing? d.buffer.text d.buffer.cursor = some c ∧
    d.buffer.text.insidePair (d.buffer.text.clamp c.position) = true

/-- The key puts in a text that is not well formed. -/
def InsertsIllFormed (d : Desk) (k : KeyPress) : Prop :=
  ∃ e, (d.change k).edit? = some e ∧ e.inserted.wellFormed = false

/-- The key undoes a step to a text that is not well formed, or to a place inside a pair. -/
def UndoesToIllFormed (d : Desk) (k : KeyPress) : Prop :=
  (d.readThrough k).stroke = .undo ∧ ¬ d.buffer.takeBack.WellFormed

/-- The key leaves half a character in the text, or the cursor inside one. -/
def Slips (d : Desk) (k : KeyPress) : Prop :=
  d.LandsInPair k ∨ d.InsertsIllFormed k ∨ d.UndoesToIllFormed k

variable {d : Desk} {k : KeyPress}

theorem make_change_iff (hd : d.buffer.WellFormed) (k : KeyPress) :
    ∃ b, d.buffer.make (d.change k) = .ok b ∧ (b.WellFormed ↔ ¬ d.Slips k) := by
  by_cases hu : (d.readThrough k).stroke = .undo
  · have hch : d.change k = .undo := by
      unfold change
      rw [hu]
      rfl
    refine ⟨d.buffer.takeBack, by rw [hch]; rfl, fun h hs => ?_, fun h => ?_⟩
    · rcases hs with ⟨c, hc, -⟩ | ⟨e, he, -⟩ | ⟨-, hw⟩
      · rw [hu] at hc
        cases hc
      · rw [hch] at he
        cases he
      · exact hw h
    · exact Classical.not_not.1 fun hw => h (.inr (.inr ⟨hu, hw⟩))
  cases hl : (d.readThrough k).stroke.landing? d.buffer.text d.buffer.cursor with
  | some c =>
    have hch : d.change k = .place c := Stroke.change_of_landing hl
    refine ⟨d.buffer.setCursor c, by rw [hch]; rfl, ?_⟩
    rw [Buffer.setCursor_wellFormed_iff hd.text (Stroke.landing_anchor hd.cursor hl)]
    constructor
    · rintro h (⟨c', hc', hin⟩ | ⟨e, he, -⟩ | ⟨hu', -⟩)
      · rw [hl] at hc'
        cases hc'
        rw [h] at hin
        cases hin
      · rw [hch] at he
        cases he
      · exact hu hu'
    · exact fun h => Bool.eq_false_iff.2 fun hin => h (.inl ⟨c, hl, hin⟩)
  | none =>
    obtain ⟨b, hb, hw⟩ := Buffer.make_wellFormed_iff hd (change_ne_undo hu) (d.change_fits k)
      (Stroke.change_aligned hd.text hd.cursor d.register hl hu)
    refine ⟨b, hb, hw.trans ⟨?_, fun h e he => ?_⟩⟩
    · rintro h (⟨c, hc, -⟩ | ⟨e, he, hi⟩ | ⟨hu', -⟩)
      · rw [hl] at hc
        cases hc
      · rw [h e he] at hi
        cases hi
      · exact hu hu'
    · exact Bool.of_not_eq_false fun hi => h (.inr (.inl ⟨e, he, hi⟩))

end Desk

/-! ## Desks that hold well-formed texts only -/

/-- The action undone takes a text back to a well-formed one, and the cursor between characters. -/
structure Action.Restores (a : Action Splice) (s t : Text) : Prop where
  revert : a.revert Splice.undo s = t
  text : t.wellFormed = true
  position : Text.Boundary t (t.clamp (a.position?.getD 0))

/-- The buffer, the register, the last edit and the undo steps are well formed, and no group is
open. -/
structure Desk.WellFormed (d : Desk) : Prop where
  buffer : d.buffer.WellFormed
  register : d.register.wellFormed = true
  lastEdit : ∀ character, d.vi.lastEdit = some (.overwrite character) → character.wellFormed = true
  group : d.buffer.history.group = none
  past : ∃ ts, Trail Action.Restores d.buffer.history.past d.buffer.text ts

/-- The text that a stroke brings with it is well formed. -/
def Stroke.WellFormed : Stroke → Prop
  | .edit (.overwrite character) => character.wellFormed = true
  | .type t => t.wellFormed = true
  | _ => True

/-! ### What is put in -/

theorem Plan.wellFormed_body {pasted : Text} (h : pasted.wellFormed = true) :
    Text.wellFormed (if pasted.getLast? = some newline then pasted.dropLast else pasted) =
      true := by
  split
  · rename_i hlast
    obtain ⟨init, rfl⟩ := List.getLast?_eq_some_iff.1 hlast
    rw [List.dropLast_concat]
    rwa [wellFormed_append_newline] at h
  · exact h

theorem Repeatable.wellFormed_inserted {t : Text} {c : Cursor} {register : Text} {r : Repeatable}
    (hr : register.wellFormed = true) (hs : (Stroke.edit r).WellFormed) {e : Edit}
    (he : (r.plan t c register).edit = some e) : e.inserted.wellFormed = true := by
  cases r with
  | deleteChar =>
    dsimp only [plan, Plan.cutSelection, Plan.cutCharacter] at he
    split at he
    · cases he; rfl
    · split at he
      · cases he
      · cases he; rfl
  | delete =>
    dsimp only [plan, Plan.cutSelection, Plan.cutLine] at he
    split at he
    · cases he; rfl
    · split at he
      · cases he
      · cases he; rfl
  | paste =>
    dsimp only [plan, Plan.pasteBelow] at he
    split at he
    · cases he
    · cases he
      dsimp only
      rw [Plan.wellFormed_newline_append]
      exact Plan.wellFormed_body hr
  | overwrite character =>
    dsimp only [plan, Plan.overwrite] at he
    split at he
    · cases he
    · cases he
      exact hs

theorem Stroke.wellFormed_inserted {t : Text} {c : Cursor} {register : Text} {s : Stroke}
    (hr : register.wellFormed = true) (hs : s.WellFormed) {e : Edit}
    (he : (s.change t c register).edit? = some e) : e.inserted.wellFormed = true := by
  cases s with
  | edit r => exact r.wellFormed_inserted hr hs he
  | insert place =>
    cases place with
    | before | after => cases he
    | lineBelow =>
      dsimp only [change, Change.edit?, Plan.openBelow] at he
      split at he
      · cases he
      · cases he
        dsimp only
        rw [Plan.wellFormed_newline_append]
        exact Plan.wellFormed_indent _
    | lineAbove =>
      cases he
      dsimp only
      rw [Plan.wellFormed_append_newline]
      exact Plan.wellFormed_indent _
  | breakLine =>
    cases he
    dsimp only
    rw [Plan.wellFormed_newline_append]
    exact Plan.wellFormed_indent _
  | type typed => cases he; exact hs
  | eraseBackward | eraseForward =>
    dsimp only [change] at he
    split at he
    · cases he; rfl
    split at he
    · cases he
    · cases he; rfl
  | _ => cases he

/-! ### What goes to the register -/

theorem Text.wellFormed_slice {t : Text} {a b : Int} (ht : t.wellFormed = true) (ha : Boundary t a)
    (hb : Boundary t b) (hab : a ≤ b) : (t.slice a b).wellFormed = true := by
  have ha0 := ha.nonneg
  rw [slice_of_mem ha.nonneg ha.le hb.nonneg hb.le]
  have hsplit := List.take_append_drop a.toNat (t.take b.toNat)
  have hwhole := (hb.wellFormed_parts ht).1
  rw [← hsplit, List.take_take, Nat.min_eq_left (by omega),
    wellFormed_append_of_left (ha.wellFormed_parts ht).1] at hwhole
  exact hwhole

theorem Text.wellFormed_lineText {t : Text} (ht : t.wellFormed = true) (line : Int) :
    (t.lineText line).wellFormed = true := by
  obtain ⟨before, after, hsplit, hs, -⟩ := t.exists_line line
  have htake : ∀ n, t.take n = (before ++ (t.lineText line ++ after)).take n := fun n => by
    rw [← List.append_assoc, ← hsplit]
  have hend : (t.lineEnd line).toNat = before.length + (t.lineText line).length := by
    unfold lineEnd
    omega
  have hbefore := ((t.boundary_lineStart line).wellFormed_parts ht).1
  rw [htake, hs, Int.toNat_natCast, List.take_left] at hbefore
  have hline := ((t.boundary_lineEnd line).wellFormed_parts ht).1
  rw [htake, hend, List.take_length_add_append, List.take_left] at hline
  rwa [wellFormed_append_of_left hbefore] at hline

theorem Repeatable.wellFormed_removed {t : Text} {c : Cursor} {register : Text} {r : Repeatable}
    (ht : t.wellFormed = true) (hc : c.Aligned t) (hcuts : r.cuts c = true) :
    (r.plan t c register).removed.wellFormed = true := by
  have hselection : (Plan.cutSelection t c).removed.wellFormed = true := by
    unfold Plan.cutSelection
    split
    · dsimp only
      rw [hc.first.clamp_eq, hc.last.clamp_eq]
      exact Text.wellFormed_slice ht hc.first hc.last c.first_le_last
    · rfl
  cases r with
  | deleteChar =>
    dsimp only [plan]
    rw [if_pos (show c.hasSelection = true from hcuts)]
    exact hselection
  | delete =>
    dsimp only [plan]
    split
    · exact hselection
    · unfold Plan.cutLine
      split
      · rfl
      · dsimp only
        unfold Plan.wholeLine
        rw [Plan.wellFormed_append_newline]
        exact Text.wellFormed_lineText ht _
  | paste | overwrite => cases hcuts

theorem Stroke.wellFormed_register {t : Text} {c : Cursor} {register : Text}
    (ht : t.wellFormed = true) (hc : c.Aligned t) (hr : register.wellFormed = true) (s : Stroke) :
    (s.register t c register).wellFormed = true := by
  cases s with
  | edit e =>
    dsimp only [Stroke.register]
    split
    · exact e.wellFormed_removed ht hc ‹_›
    · exact hr
  | yank =>
    dsimp only [Stroke.register, Plan.copyLine]
    split
    · rfl
    · unfold Plan.wholeLine
      rw [Plan.wellFormed_append_newline]
      exact Text.wellFormed_lineText ht _
  | _ => exact hr

/-! ### Undo steps -/

namespace Buffer

variable {b b' : Buffer}

theorem exists_trail_of_makes {ch : Change} (hb : b.WellFormed) (hg : b.history.group = none)
    (hp : ∃ ts, Trail Action.Restores b.history.past b.text ts)
    (ha : ∀ e, ch.edit? = some e → e.Aligned b.text) (hm : b.Makes b' ch) :
    ∃ ts, Trail Action.Restores b'.history.past b'.text ts := by
  rcases hm.records with ⟨hh, ht⟩ | ⟨e, a, he, hh, hleads, hstart⟩
  · rw [hh, ht]
    exact hp
  · obtain ⟨ts, htrail⟩ := hp
    have hposition := (ha e he).start
    have hrestores : a.Restores b'.text b.text := by
      refine ⟨hleads.2, hb.text, ?_⟩
      rwa [hstart, Option.getD_some, hposition.clamp_eq]
    have hgrown := Trail.cons hrestores htrail
    rw [hh, History.record_of_none hg]
    change ∃ ts, Trail Action.Restores (History.trim _ _) b'.text ts
    unfold History.trim
    split
    · exact ⟨_, hgrown.dropLast⟩
    · exact ⟨_, hgrown⟩

theorem takeBack_wellFormed (hb : b.WellFormed)
    (hp : ∃ ts, Trail Action.Restores b.history.past b.text ts) :
    b.takeBack.WellFormed ∧
      ∃ ts, Trail Action.Restores b.takeBack.history.past b.takeBack.text ts := by
  obtain ⟨ts, htrail⟩ := hp
  cases hpast : b.history.past with
  | nil =>
    rw [takeBack_of_past_nil hpast]
    exact ⟨hb, ts, htrail⟩
  | cons a past =>
    rw [hpast] at htrail
    obtain ⟨⟩ | @⟨_, _, _, t, older, ha, htrail⟩ := htrail
    obtain ⟨htext, hhistory, -⟩ := undo_cons hpast
    rw [ha.revert] at htext
    rw [takeBack_cons hpast, setCursor_text, setCursor_history, hhistory, htext]
    have hposition := ha.position
    refine ⟨(setCursor_wellFormed_iff (by rw [htext]; exact ha.text) (.inl rfl)).2 ?_, older,
      htrail⟩
    rw [htext, Cursor.collapsed]
    dsimp only
    rw [hposition.clamp_eq, hposition.clamp_eq]
    exact hposition.outside

end Buffer

theorem Interpreter.hear_lastEdit (v : Interpreter) (es : List ModeEvent) :
    (v.hear es).lastEdit = v.lastEdit :=
  hear_keeps (fun _ _ _ _ _ _ _ => rfl) v es

namespace Desk

variable {d d' : Desk} {k : KeyPress}

theorem WellFormed.stroke (hd : d.WellFormed) (hk : k.key.wellFormed = true) :
    (d.readThrough k).stroke.WellFormed := by
  have hsource := source_readThrough (d := d) (k := k)
  generalize (d.readThrough k).stroke = s at hsource
  cases hsource with
  | plain h =>
    cases s with
    | edit e =>
      cases e with
      | overwrite => cases h
      | _ => trivial
    | type => cases h
    | _ => trivial
  | undo => trivial
  | @again e h =>
    cases e with
    | overwrite character => exact hd.lastEdit character h
    | _ => trivial
  | overwrite h =>
    obtain ⟨-, -, rfl⟩ := KeyPress.character?_eq_some_iff.1 h
    exact hk
  | type h =>
    rcases h with rfl | rfl | rfl
    · exact hk
    · rfl
    · rfl

theorem WellFormed.slips_iff (hd : d.WellFormed) (hk : k.key.wellFormed = true) :
    d.Slips k ↔ d.LandsInPair k := by
  constructor
  · rintro (h | ⟨e, he, hi⟩ | ⟨-, hu⟩)
    · exact h
    · rw [Stroke.wellFormed_inserted hd.register (hd.stroke hk) he] at hi
      cases hi
    · exact absurd (Buffer.takeBack_wellFormed hd.buffer hd.past).1 hu
  · exact .inl

theorem WellFormed.offer (hd : d.WellFormed) (hk : k.key.wellFormed = true)
    (hl : ¬ d.LandsInPair k) {taken : Bool} (ho : d.offer k = .ok (d', taken)) : d'.WellFormed := by
  obtain ⟨b, hb, hw⟩ := make_change_iff hd.buffer k
  rw [offer_of_make hb] at ho
  cases ho
  have hbuffer : b.WellFormed := hw.2 fun hs => hl ((hd.slips_iff hk).1 hs)
  refine ⟨hbuffer, Stroke.wellFormed_register hd.buffer.text hd.buffer.cursor hd.register _, ?_,
    ?_, ?_⟩
  · intro character h
    have hstroke := hd.stroke hk
    dsimp only at h
    generalize (d.readThrough k).stroke = s at h hstroke
    cases s with
    | edit e => cases h; exact hstroke
    | _ =>
      refine hd.lastEdit character ?_
      rw [← h]
      exact (Interpreter.hear_lastEdit _ _).symm
  · obtain ⟨b', hb', hdepth, -⟩ := Buffer.make_keeps (d.change_fits k)
    rw [hb] at hb'
    cases hb'
    apply History.group_eq_none_of_depth
    rw [hdepth]
    unfold History.depth
    rw [hd.group]
    rfl
  · by_cases hu : (d.readThrough k).stroke = .undo
    · unfold change at hb
      rw [hu] at hb
      cases hb
      exact (Buffer.takeBack_wellFormed hd.buffer hd.past).2
    · have haligned : ∀ e, (d.change k).edit? = some e → e.Aligned d.buffer.text := fun e he => by
        cases hl' : (d.readThrough k).stroke.landing? d.buffer.text d.buffer.cursor with
        | some c =>
          rw [change, Stroke.change_of_landing hl'] at he
          cases he
        | none =>
          exact (Stroke.change_aligned hd.buffer.text hd.buffer.cursor _ hl' hu).edit e he
      obtain ⟨b', hb', hm⟩ := Buffer.make_eq (change_ne_undo hu) (d.change_fits k)
      rw [hb] at hb'
      cases hb'
      exact Buffer.exists_trail_of_makes hd.buffer hd.group hd.past haligned hm

theorem wellFormed_new {t : Text} (ht : t.wellFormed = true) (v : Interpreter)
    (hv : v.lastEdit = none) (pageLines limit : Int) :
    ({ vi := v, register := [], buffer := .ofText t pageLines limit } : Desk).WellFormed where
  buffer := ⟨ht, t.boundary_zero, t.boundary_zero⟩
  register := rfl
  lastEdit _ h := by
    rw [show _ = _ from hv] at h
    cases h
  group := rfl
  past := ⟨[], .nil⟩

/-! ## Runs of keys -/

/-- The desk after each of the keys. -/
def offers (d : Desk) : List KeyPress → Except EditError (List Desk)
  | [] => .ok []
  | k :: ks => do
    let (d', _) ← d.offer k
    let ds ← d'.offers ks
    return d' :: ds

/-- No key of the run has the property at the desk it is offered to. -/
def Never (P : Desk → KeyPress → Prop) (d : Desk) : List KeyPress → Prop
  | [] => True
  | k :: ks => ¬ P d k ∧ ∀ d' taken, d.offer k = .ok (d', taken) → Never P d' ks

theorem offers_cons {ks : List KeyPress} {taken : Bool} {ds : List Desk}
    (h : d.offer k = .ok (d', taken)) (hs : d'.offers ks = .ok ds) :
    d.offers (k :: ks) = .ok (d' :: ds) := by
  simp only [offers, h, hs, bind, Except.bind]
  rfl

theorem never_cons {P : Desk → KeyPress → Prop} {ks : List KeyPress} {taken : Bool}
    (h : d.offer k = .ok (d', taken)) : d.Never P (k :: ks) ↔ ¬ P d k ∧ d'.Never P ks := by
  constructor
  · exact fun hn => ⟨hn.1, hn.2 d' taken h⟩
  · refine fun hn => ⟨hn.1, fun d'' taken' h' => ?_⟩
    rw [h] at h'
    cases h'
    exact hn.2

theorem offers_ok (d : Desk) (ks : List KeyPress) : ∃ ds, d.offers ks = .ok ds := by
  induction ks generalizing d with
  | nil => exact ⟨[], rfl⟩
  | cons k ks ih =>
    obtain ⟨b, hb, -⟩ := Buffer.make_keeps (d.change_fits k)
    obtain ⟨ds, hds⟩ := ih _
    exact ⟨_, offers_cons (offer_of_make hb) hds⟩

/-- A run keeps text and cursor well formed exactly if none of its keys slips. -/
theorem forall_offers_iff {ks : List KeyPress} {ds : List Desk} (hd : d.buffer.WellFormed)
    (h : d.offers ks = .ok ds) : (∀ d' ∈ ds, d'.buffer.WellFormed) ↔ d.Never Slips ks := by
  induction ks generalizing d ds with
  | nil =>
    cases h
    simp [Never]
  | cons k ks ih =>
    obtain ⟨b, hb, hw⟩ := make_change_iff hd k
    have hoffer := offer_of_make hb
    obtain ⟨ds', hds⟩ := offers_ok _ ks
    rw [offers_cons hoffer hds] at h
    cases h
    rw [List.forall_mem_cons, never_cons hoffer, hw]
    constructor
    · exact fun hn => ⟨hn.1, (ih (hw.2 hn.1) hds).1 hn.2⟩
    · exact fun hn => ⟨hn.1, (ih (hw.2 hn.1) hds).2 hn.2⟩

theorem WellFormed.never_slips_iff {ks : List KeyPress} (hd : d.WellFormed)
    (hk : ∀ k ∈ ks, k.key.wellFormed = true) : d.Never Slips ks ↔ d.Never LandsInPair ks := by
  induction ks generalizing d with
  | nil => exact Iff.rfl
  | cons k ks ih =>
    have hkey := hk k List.mem_cons_self
    obtain ⟨b, hb, -⟩ := make_change_iff hd.buffer k
    have hoffer := offer_of_make hb
    rw [never_cons hoffer, never_cons hoffer, hd.slips_iff hkey]
    constructor
    · exact fun hn => ⟨hn.1, (ih (hd.offer hkey hn.1 hoffer)
        fun k' hk' => hk k' (List.mem_cons_of_mem k hk')).1 hn.2⟩
    · exact fun hn => ⟨hn.1, (ih (hd.offer hkey hn.1 hoffer)
        fun k' hk' => hk k' (List.mem_cons_of_mem k hk')).2 hn.2⟩

/-- **Half a character comes from motions by lines.** From a well-formed text and a cursor between
characters, every run of well-formed keys is answered, and the text after every key is well formed
and the cursor between characters exactly if no key of the run slips; where the register, the last
edit and the undo steps are well formed and no group is open, exactly if no motion by lines of the
run ends inside a surrogate pair. -/
theorem offers_wellFormed_iff {ks : List KeyPress} (hd : d.buffer.WellFormed)
    (hk : ∀ k ∈ ks, k.key.wellFormed = true) :
    ∃ ds, d.offers ks = .ok ds ∧
      ((∀ d' ∈ ds, d'.buffer.WellFormed) ↔ d.Never Slips ks) ∧
      (d.WellFormed → ((∀ d' ∈ ds, d'.buffer.WellFormed) ↔ d.Never LandsInPair ks)) := by
  obtain ⟨ds, hds⟩ := d.offers_ok ks
  have hiff := forall_offers_iff hd hds
  exact ⟨ds, hds, hiff, fun hw => hiff.trans (hw.never_slips_iff hk)⟩

/-- To the right and down, from column 1 of a line of letters into the pair on the next line. -/
theorem offers_wellFormed_iff_of_pair :
    let d : Desk :=
      { vi := .new true true true false 20, register := []
        buffer := .ofText [97, 98, 10, 0xD83D, 0xDE00] 20 100 }
    let ks : List KeyPress := [{ key := [108] }, { key := [106] }]
    (d.buffer.WellFormed ∧ ∀ k ∈ ks, k.key.wellFormed = true) ∧
      ∃ ds, d.offers ks = .ok ds ∧
        ((∀ d' ∈ ds, d'.buffer.WellFormed) ↔ d.Never Slips ks) ∧
        (d.WellFormed → ((∀ d' ∈ ds, d'.buffer.WellFormed) ↔ d.Never LandsInPair ks)) := by
  intro d ks
  have hd : d.WellFormed := wellFormed_new (by decide) _ rfl 20 100
  have hk : ∀ k ∈ ks, k.key.wellFormed = true := by decide
  exact ⟨⟨hd.buffer, hk⟩, offers_wellFormed_iff hd.buffer hk⟩

/-- There `j` stands inside the pair, and `x` takes its second half out of the text. -/
theorem offers_lands_in_pair :
    let d : Desk :=
      { vi := .new true true true false 20, register := []
        buffer := .ofText [97, 98, 10, 0xD83D, 0xDE00] 20 100 }
    let ks : List KeyPress := [{ key := [108] }, { key := [106] }, { key := [120] }]
    d.WellFormed ∧ (∀ k ∈ ks, k.key.wellFormed = true) ∧
      ∃ d₁ d₂ d₃, d.offers ks = .ok [d₁, d₂, d₃] ∧
        d₂.buffer.text.insidePair d₂.buffer.cursor.position = true ∧
        d₃.buffer.text = [97, 98, 10, 0xD83D] ∧ d₃.buffer.text.wellFormed = false := by
  intro d ks
  refine ⟨wellFormed_new (by decide) _ rfl 20 100, by decide, ?_⟩
  have hrun : (d.offers ks).toOption.map (List.map fun d => (d.buffer.text, d.buffer.cursor)) =
      some [([97, 98, 10, 0xD83D, 0xDE00], ⟨1, 1⟩), ([97, 98, 10, 0xD83D, 0xDE00], ⟨4, 4⟩),
        ([97, 98, 10, 0xD83D], ⟨4, 4⟩)] := by
    decide
  obtain ⟨ds, hds⟩ := d.offers_ok ks
  rw [hds] at hrun ⊢
  simp only [Except.toOption, Option.map_some, Option.some.injEq, List.map_eq_cons_iff,
    List.map_eq_nil_iff, Prod.mk.injEq] at hrun
  obtain ⟨d₁, _, rfl, -, d₂, _, rfl, ⟨htext₂, hcursor₂⟩, d₃, _, rfl, ⟨htext₃, -⟩, rfl⟩ := hrun
  refine ⟨d₁, d₂, d₃, rfl, ?_, htext₃, ?_⟩
  · rw [htext₂, hcursor₂]
    decide
  · rw [htext₃]
    decide

end Desk

end ModalEditor
