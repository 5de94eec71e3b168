import ModalEditor.Proofs.Modal.Reading

/-!
# Commands of two keys

`dd`, `yy` and `gg` are one command each, and between its two keys the interpreter waits. A `Moment`
is a key at a desk; `Interpreter.moments` are those of a run, in which the interpreter goes on from
key to key and buffers and registers may be any. What is expected of a key is `Moment.Lawful`: it
completes a command only if the key before it was the same, and it leaves the interpreter waiting
only if it is the first key of a command. Page chords stand outside of this: they are no key before,
and they leave what is waited for.

`Interpreter.lawful_iff`: every key of a run is as expected exactly if none of them slips. The one
key that slips is an Enter that is answered by automatic indentation while the second key of an
operator or of `g` is waited for; it leaves the interpreter waiting. The invariant of a run is
`Interpreter.Settled`: what is waited for is the second key of the last key.
-/

namespace ModalEditor

/-- The key that makes navigation wait. -/
def Pending.key? : Pending → Option Command
  | .idle => none
  | .go => some (.control .go)
  | .overwrite => some (.control .overwrite)
  | .operator op => some (.operator op)

/-! ## Keys at a desk -/

/-- A key given to the interpreter of a desk. -/
structure Moment where
  desk : Desk
  key : KeyPress

namespace Moment

section
variable (m : Moment)

/-- What the key asks for. -/
def command : Command := Command.ofKey m.desk.vi.qStartsLine m.key

/-- The interpreter after the key. -/
def after : Interpreter := (m.desk.press m.key).toOption.elim m.desk.vi fun r => r.1.vi

/-- The key scrolls by a page. -/
def isPageChord : Bool := m.command = .control .pageUp || m.command = .control .pageDown

/-- The interpreter takes the key, in navigation. -/
def TakenInNavigation : Prop :=
  m.desk.vi.mode.isInsertion = false ∧ ∃ d, m.desk.press m.key = .ok (d, .handled)

/-- The key is the second key of a command and does what the command does: `dd` takes out a line,
`yy` copies one, `gg` goes to the beginning of the text. -/
def Completes : Pending → Prop
  | .operator .delete => m.command = .operator .delete ∧
      m.desk.buffer.cursor.hasSelection = false ∧ (m.desk.read m.key).stroke = .edit .delete
  | .operator .yank => (m.desk.read m.key).stroke = .yank
  | .go => (m.desk.read m.key).stroke = .top
  | .idle | .overwrite => False

/-- The key is the first key of a command: it completes none, is not the character after `r`, and is
not `d` on a selection. -/
structure Starts (p : Pending) : Prop where
  key : p.key? = some m.command
  taken : m.TakenInNavigation
  incomplete : ¬ m.Completes p
  unfed : ¬ (m.desk.vi.pending = .overwrite ∧ m.key.character?.isSome)
  unselected : p = .operator .delete → m.desk.buffer.cursor.hasSelection = false

/-- What is expected of a key, where `last?` is the key before it, page chords aside: it completes a
command only if `last?` was the same key, taken in navigation, and it leaves the interpreter waiting
only if it is a page chord or starts a command. -/
structure Lawful (last? : Option Moment) : Prop where
  completes : ∀ p, m.Completes p → p.key? = some m.command ∧
    ∃ last, last? = some last ∧ last.TakenInNavigation ∧ last.command = m.command
  settles : m.isPageChord = false → m.after.pending = .idle ∨ m.Starts m.after.pending

/-- Enter is answered by automatic indentation while the interpreter waits for the second key of an
operator or of `g`. -/
def Slips : Prop :=
  m.command = .control .newline ∧ m.desk.vi.autoIndent = true ∧
    m.desk.vi.pending ≠ .idle ∧ m.desk.vi.pending ≠ .overwrite

end

variable {m : Moment}

theorem exists_press (m : Moment) :
    ∃ d, m.desk.press m.key = .ok (d, (m.desk.read m.key).verdict) ∧
      d.vi = (m.desk.vi.hear (m.desk.read m.key).events).remember (m.desk.read m.key).stroke := by
  obtain ⟨b, hb, -⟩ := Buffer.make_keeps ((m.desk.read m.key).stroke.change_fits m.desk.buffer.text
    m.desk.buffer.cursor m.desk.register)
  have hc := m.desk.press_eq m.key
  rw [Desk.carry, hb] at hc
  exact ⟨_, hc, rfl⟩

theorem after_eq (m : Moment) :
    m.after = (m.desk.vi.hear (m.desk.read m.key).events).remember (m.desk.read m.key).stroke := by
  obtain ⟨d, hd, hvi⟩ := m.exists_press
  rw [after, hd]
  exact hvi

theorem after_keeps {α : Type} {f : Interpreter → α}
    (h : ∀ (v : Interpreter) mode calls saidInsertion saidStyle log subscribers lastEdit,
      f { v with mode, calls, saidInsertion, saidStyle, log, subscribers, lastEdit } = f v)
    (m : Moment) : f m.after = f m.desk.vi := by
  rw [after_eq, Interpreter.remember_keeps fun v _ => h v ..,
    Interpreter.hear_keeps fun v _ _ _ _ _ _ => h v ..]

theorem after_pending (h : m.desk.vi.running = true) :
    m.after.pending = ((m.desk.read m.key).events.foldl Mode.step m.desk.vi.mode).pending := by
  rw [after_eq, Interpreter.remember_keeps (f := Interpreter.pending) fun _ _ => rfl,
    Interpreter.pending, Interpreter.hear_mode h]

theorem takenInNavigation_iff : m.TakenInNavigation ↔
    m.desk.vi.mode.isInsertion = false ∧ (m.desk.read m.key).verdict = .handled := by
  obtain ⟨d, hd, -⟩ := m.exists_press
  unfold TakenInNavigation
  rw [hd]
  simp only [Except.ok.injEq, Prod.mk.injEq, exists_and_right, exists_eq', true_and]

/-! ## Second keys -/

theorem pending_of_readCommand {d : Desk} {c : Command} :
    ((d.readCommand c).stroke = .yank → c = .operator .yank ∧ d.vi.pending = .operator .yank) ∧
    ((d.readCommand c).stroke = .top → c = .control .go ∧ d.vi.pending = .go) ∧
    (c = .operator .delete → d.buffer.cursor.hasSelection = false →
      (d.readCommand c).stroke = .edit .delete → d.vi.pending = .operator .delete) := by
  cases c with
  | motion | insert => simp [Desk.readCommand]
  | operator op =>
    simp only [Desk.readCommand, Desk.readOperator]
    cases op with
    | delete =>
      by_cases hs : d.buffer.cursor.hasSelection = true
      · simp [hs]
      · by_cases hp : d.vi.pending = .operator .delete <;> simp [hs, hp, Operator.stroke]
    | yank => by_cases hp : d.vi.pending = .operator .yank <;> simp [hp, Operator.stroke]
  | control c =>
    cases c with
    | go => by_cases hp : d.vi.pending = .go <;> simp [Desk.readCommand, Desk.readControl, hp]
    | again =>
      cases hl : d.vi.lastEdit <;> simp [Desk.readCommand, Desk.readControl, hl]
    | _ => simp [Desk.readCommand, Desk.readControl]

theorem Completes.pending {p : Pending} (h : m.Completes p) :
    p.key? = some m.command ∧ m.desk.vi.pending = p := by
  have hread : ((m.desk.read m.key).stroke = .yank →
        m.command = .operator .yank ∧ m.desk.vi.pending = .operator .yank) ∧
      ((m.desk.read m.key).stroke = .top → m.command = .control .go ∧ m.desk.vi.pending = .go) ∧
      (m.command = .operator .delete → m.desk.buffer.cursor.hasSelection = false →
        (m.desk.read m.key).stroke = .edit .delete → m.desk.vi.pending = .operator .delete) := by
    apply Desk.read_cases (P := fun r => (r.stroke = .yank → _) ∧ (r.stroke = .top → _) ∧
      (_ → _ → r.stroke = .edit .delete → _))
    case breakLine | page | escape | passThrough | overwrite => simp
    case command => exact fun _ => pending_of_readCommand
  obtain ⟨hyank, htop, hdelete⟩ := hread
  cases p with
  | idle | overwrite => cases h
  | go => exact ⟨congrArg some (htop h).1.symm, (htop h).2⟩
  | operator op =>
    cases op with
    | delete => exact ⟨congrArg some h.1.symm, hdelete h.1 h.2.1 h.2.2⟩
    | yank => exact ⟨congrArg some (hyank h).1.symm, (hyank h).2⟩

/-! ## What is waited for -/

theorem waiting_readCommand (d : Desk) (c : Command) {q : Pending} (hq : q ≠ .overwrite) :
    let r := d.readCommand c
    let p := (r.events.foldl Mode.step (.navigation q)).pending
    p = .idle ∨ p.key? = some c ∧ r.verdict = .handled ∧ p ≠ q ∧
      (p = .operator .delete → d.buffer.cursor.hasSelection = false) := by
  intro r p
  cases c with
  | motion | insert => exact .inl rfl
  | operator op =>
    by_cases hs : op = .delete ∧ d.buffer.cursor.hasSelection = true
    · left
      simp only [p, r, Desk.readCommand, Desk.readOperator, if_pos hs]
      rfl
    · have hp : p = Mode.Pending.afterOperator op q := by
        simp only [p, r, Desk.readCommand, Desk.readOperator, if_neg hs]
        rfl
      have hv : r.verdict = .handled := d.readOperator_verdict op
      by_cases he : q = .operator op
      · left
        rw [hp, he, Mode.Pending.afterOperator, if_pos rfl]
      · have hpo : p = .operator op := by
          rw [hp]
          cases q with
          | idle | go => rfl
          | overwrite => exact absurd rfl hq
          | operator op' => exact if_neg fun h : op = op' => he (congrArg Pending.operator h.symm)
        refine .inr ⟨by rw [hpo]; rfl, hv, by rw [hpo]; exact Ne.symm he, fun hd => ?_⟩
        rw [hpo] at hd
        cases hd
        simpa using hs
  | control c =>
    cases c with
    | go =>
      have hp : p = Mode.Pending.afterGo q := rfl
      by_cases he : q = .go
      · left
        rw [hp, he]
        rfl
      · have hpg : p = .go := by
          rw [hp]
          cases q with
          | idle | operator => rfl
          | overwrite => exact absurd rfl hq
          | go => exact absurd rfl he
        exact .inr ⟨by rw [hpg]; rfl, rfl, by rw [hpg]; exact Ne.symm he,
          fun hd => by rw [hpg] at hd; cases hd⟩
    | overwrite => exact .inr ⟨rfl, rfl, Ne.symm hq, fun h => Pending.noConfusion h⟩
    | _ => exact .inl rfl

theorem settles_of_command {q : Pending} (hr : m.desk.vi.running = true)
    (hmode : m.desk.vi.mode.isInsertion = false) (hq : q ≠ .overwrite)
    (hverdict : (m.desk.read m.key).verdict = (m.desk.readCommand m.command).verdict)
    (hevents : (m.desk.read m.key).events.foldl Mode.step m.desk.vi.mode =
      (m.desk.readCommand m.command).events.foldl Mode.step (.navigation q))
    (hpending : m.desk.vi.pending = q ∨
      m.desk.vi.pending = .overwrite ∧ m.key.character? = none) :
    m.after.pending = .idle ∨ m.Starts m.after.pending := by
  rw [after_pending hr, hevents]
  rcases waiting_readCommand m.desk m.command hq with hidle | ⟨hkey, hv, hne, hsel⟩
  · exact .inl hidle
  refine .inr ⟨hkey, takenInNavigation_iff.2 ⟨hmode, hverdict.trans hv⟩, fun hc => ?_, ?_, hsel⟩
  · rcases hpending with hp | ⟨hp, -⟩
    · exact hne (hc.pending.2.symm.trans hp)
    · have h := hc.pending.2
      rw [hp] at h
      rw [← h] at hc
      exact hc
  · rintro ⟨hp, hchar⟩
    rcases hpending with hp' | ⟨-, hnone⟩
    · exact hq (hp'.symm.trans hp)
    · rw [hnone] at hchar
      cases hchar

/-- What an interpreter that is on reads in a key that is neither Enter with automatic indentation
nor a page chord. -/
theorem read_eq (he : m.desk.vi.enabled = true) (hpage : m.isPageChord = false)
    (hn : ¬ (m.command = .control .newline ∧ m.desk.vi.autoIndent = true)) :
    m.desk.read m.key =
      if m.desk.vi.mode.isInsertion then
        if m.command = .control .escape ∧ m.key.isChord = false then { events := [.escape] }
        else { events := [.reset], verdict := .passThrough }
      else if m.desk.vi.pending = .overwrite then
        match m.key.character? with
        | some character => { stroke := .edit (.overwrite character), events := [.reset] }
        | none => { m.desk.readCommand m.command with
            events := .reset :: (m.desk.readCommand m.command).events }
      else m.desk.readCommand m.command := by
  simp only [isPageChord, Bool.or_eq_false_iff, decide_eq_false_iff_not] at hpage
  unfold Desk.read
  dsimp only
  rw [← command, if_neg hn, he, if_neg (by decide), if_neg hpage.1]
  exact if_neg hpage.2

theorem settles_of_not_slips (he : m.desk.vi.enabled = true) (hr : m.desk.vi.running = true)
    (hpage : m.isPageChord = false) (hs : ¬ m.Slips) :
    m.after.pending = .idle ∨ m.Starts m.after.pending := by
  by_cases hn : m.command = .control .newline ∧ m.desk.vi.autoIndent = true
  · -- Enter with automatic indentation ends nothing but a pending `r`
    left
    have hread : (m.desk.read m.key).events =
        if m.desk.vi.pending = .overwrite then [.reset] else [] := by
      unfold Desk.read
      dsimp only
      rw [← command, if_pos hn]
    rw [after_pending hr, hread]
    by_cases hp : m.desk.vi.pending = .overwrite
    · rw [if_pos hp]
      exact (Mode.step_reset _).2
    · rw [if_neg hp]
      exact Decidable.byContradiction fun hi => hs ⟨hn.1, hn.2, hi, hp⟩
  have hread := read_eq he hpage hn
  cases hmode : m.desk.vi.mode with
  | insertion =>
    left
    rw [hmode, Mode.isInsertion, if_pos rfl] at hread
    rw [after_pending hr, hread, hmode]
    split <;> rfl
  | navigation p =>
    have hp : m.desk.vi.pending = p := by rw [Interpreter.pending, hmode]; rfl
    have hins : m.desk.vi.mode.isInsertion = false := by rw [hmode]; rfl
    rw [hins, if_neg Bool.false_ne_true, hp] at hread
    by_cases ho : p = .overwrite
    · rw [if_pos ho] at hread
      cases hc : m.key.character? with
      | some character =>
        left
        rw [hc] at hread
        rw [after_pending hr, hread]
        exact (Mode.step_reset _).2
      | none =>
        rw [hc] at hread
        have hwait : m.desk.vi.pending = .idle ∨
            m.desk.vi.pending = .overwrite ∧ m.key.character? = none := .inr ⟨hp.trans ho, hc⟩
        refine settles_of_command (q := .idle) hr hins (by decide) (by rw [hread]) ?_ hwait
        rw [hread, hmode]
        rfl
    · rw [if_neg ho] at hread
      exact settles_of_command hr hins ho (by rw [hread]) (by rw [hread, hmode]) (.inl hp)

theorem after_pending_of_isPageChord (he : m.desk.vi.enabled = true)
    (hr : m.desk.vi.running = true) (hpage : m.isPageChord = true) :
    m.after.pending = m.desk.vi.pending := by
  simp only [isPageChord, Bool.or_eq_true, decide_eq_true_eq] at hpage
  have hn : ¬ (m.command = .control .newline ∧ m.desk.vi.autoIndent = true) := by
    rintro ⟨hn, -⟩
    rw [hn] at hpage
    rcases hpage with h | h <;> cases h
  have hread : (m.desk.read m.key).events = [] := by
    unfold Desk.read
    dsimp only
    rw [← command, if_neg hn, he, if_neg (by decide)]
    rcases hpage with h | h <;> simp [h]
  rw [after_pending hr, hread]
  rfl

/-- Where it slips, the interpreter goes on waiting. -/
theorem Slips.not_lawful (hs : m.Slips) (hr : m.desk.vi.running = true) (last? : Option Moment) :
    ¬ m.Lawful last? := by
  intro hl
  obtain ⟨hn, ha, hidle, hover⟩ := hs
  have hread : (m.desk.read m.key).events = [] := by
    unfold Desk.read
    dsimp only
    rw [← command, if_pos ⟨hn, ha⟩, if_neg hover]
  have hafter : m.after.pending = m.desk.vi.pending := by
    rw [after_pending hr, hread]
    rfl
  have hpage : m.isPageChord = false := by
    rw [isPageChord, hn]
    rfl
  rcases hl.settles hpage with h | h
  · exact hidle (hafter.symm.trans h)
  · have hkey := h.key
    rw [hn] at hkey
    cases hp : m.after.pending <;> rw [hp] at hkey <;> cases hkey

end Moment

/-! ## Runs -/

/-- A key for an interpreter, with the register and the buffer it is to work on. -/
structure Turn where
  key : KeyPress
  register : Text
  buffer : Buffer
  bare : Bool := false

namespace Interpreter

/-- The keys of a run, each at its desk. From one turn to the next the interpreter stays, whatever
becomes of registers and buffers. -/
def moments (v : Interpreter) : List Turn → List Moment
  | [] => []
  | t :: ts =>
    let m : Moment :=
      ⟨{ vi := v, register := t.register, buffer := t.buffer, bare := t.bare }, t.key⟩
    m :: m.after.moments ts

/-- The last of the keys, page chords aside. -/
def latest? (ms : List Moment) : Option Moment := (ms.filter fun m => !m.isPageChord).getLast?

/-- The interpreter is on, runs, and waits only for the second key of the last key. -/
structure Settled (v : Interpreter) (last? : Option Moment) : Prop where
  enabled : v.enabled = true
  running : v.running = true
  pending : v.pending = .idle ∨ ∃ last, last? = some last ∧ last.Starts v.pending

theorem latest?_concat (ms : List Moment) (m : Moment) :
    latest? (ms ++ [m]) = if m.isPageChord then latest? ms else some m := by
  unfold latest?
  rw [List.filter_append]
  cases hm : m.isPageChord <;> simp [hm]

section
variable {m : Moment} {last? : Option Moment}

/-- **One key.** At an interpreter that waits only for the second key of the last key, a key that
does not slip is as expected. -/
theorem Settled.lawful (h : m.desk.vi.Settled last?) (hs : ¬ m.Slips) : m.Lawful last? where
  completes p hc := by
    obtain ⟨hkey, hp⟩ := hc.pending
    refine ⟨hkey, ?_⟩
    rcases h.pending with hidle | ⟨last, hlast, hstarts⟩
    · rw [hidle] at hp
      subst hp
      cases hkey
    · rw [hp] at hstarts
      exact ⟨last, hlast, hstarts.taken, Option.some.inj (hstarts.key.symm.trans hkey)⟩
  settles hpage := Moment.settles_of_not_slips h.enabled h.running hpage hs

theorem Settled.after (h : m.desk.vi.Settled last?) (hs : ¬ m.Slips) :
    m.after.Settled (if m.isPageChord then last? else some m) where
  enabled := by rw [m.after_keeps (f := Interpreter.enabled) fun _ _ _ _ _ _ _ _ => rfl, h.enabled]
  running := by rw [m.after_keeps (f := Interpreter.running) fun _ _ _ _ _ _ _ _ => rfl, h.running]
  pending := by
    cases hpage : m.isPageChord with
    | true =>
      rw [Moment.after_pending_of_isPageChord h.enabled h.running hpage]
      exact h.pending
    | false =>
      rcases (h.lawful hs).settles hpage with hidle | hstarts
      · exact .inl hidle
      · exact .inr ⟨m, rfl, hstarts⟩

end

theorem forall_split_cons {α : Type} {P : List α → α → Prop} {x : α} {xs : List α} :
    (∀ before y after, x :: xs = before ++ y :: after → P before y) ↔
      P [] x ∧ ∀ before y after, xs = before ++ y :: after → P (x :: before) y := by
  constructor
  · refine fun h => ⟨h [] x xs rfl, fun before y after hxs => h (x :: before) y after ?_⟩
    rw [hxs]
    rfl
  · rintro ⟨h0, h⟩ before y after hxs
    cases before with
    | nil =>
      cases hxs
      exact h0
    | cons z before =>
      cases hxs
      exact h before y after rfl

theorem Settled.lawful_run {v : Interpreter} (ms : List Moment) (h : v.Settled (latest? ms))
    (ts : List Turn) :
    (∀ before m after, v.moments ts = before ++ m :: after → m.Lawful (latest? (ms ++ before))) ↔
      ∀ m ∈ v.moments ts, ¬ m.Slips := by
  induction ts generalizing v ms with
  | nil => simp [moments]
  | cons t ts ih =>
    let m : Moment :=
      ⟨{ vi := v, register := t.register, buffer := t.buffer, bare := t.bare }, t.key⟩
    have hrun : v.moments (t :: ts) = m :: m.after.moments ts := rfl
    rw [hrun, forall_split_cons, List.forall_mem_cons, List.append_nil]
    by_cases hs : m.Slips
    · exact iff_of_false (fun hl => hs.not_lawful h.running _ hl.1) fun hn => hn.1 hs
    · have hnext : m.after.Settled (latest? (ms ++ [m])) := by
        rw [latest?_concat]
        exact Settled.after (m := m) h hs
      have hrest := ih (ms ++ [m]) hnext
      simp only [List.append_assoc, List.singleton_append] at hrest
      rw [hrest, and_iff_right hs, and_iff_right (Settled.lawful (m := m) h hs)]

/-- **Two-key commands.** Along every run of keys on an interpreter that is on, runs and waits for
nothing, whatever registers and buffers they work on: every key is as expected (`Moment.Lawful`)
exactly if no Enter is answered by automatic indentation while a second key is waited for. -/
theorem lawful_iff {v : Interpreter} (he : v.enabled = true) (hr : v.running = true)
    (hp : v.pending = .idle) (ts : List Turn) :
    (∀ before m after, v.moments ts = before ++ m :: after → m.Lawful (latest? before)) ↔
      ∀ m ∈ v.moments ts, ¬ m.Slips :=
  Settled.lawful_run [] ⟨he, hr, .inl hp⟩ ts

/-- `d`, a page down, and `d` again. -/
theorem lawful_iff_of_page_between :
    let v := Interpreter.new true true true false 20
    let b := Buffer.ofText [97, 10, 98] 20 100
    let d : KeyPress := { key := [100] }
    let pageDown : KeyPress := { key := [74], ctrl := some true }
    let ts : List Turn := [⟨d, [], b, false⟩, ⟨pageDown, [], b, true⟩, ⟨d, [], b, false⟩]
    (v.enabled = true ∧ v.running = true ∧ v.pending = .idle) ∧
      ((∀ before m after, v.moments ts = before ++ m :: after → m.Lawful (latest? before)) ↔
        ∀ m ∈ v.moments ts, ¬ m.Slips) := by
  intro v b d pageDown ts
  have he : v.enabled = true := rfl
  have hr : v.running = true := rfl
  have hp : v.pending = .idle := rfl
  exact ⟨⟨he, hr, hp⟩, lawful_iff he hr hp ts⟩

/-- Between two `d`, Enter breaks the line and leaves the first `d` waiting, so that the second one
takes out a line. -/
theorem lawful_fails_at_enter :
    let v := Interpreter.new true true true false 20
    let d : KeyPress := { key := [100] }
    let enter : KeyPress := { key := NamedKey.enter.name }
    let b := Buffer.ofText [97, 10, 98] 20 100
    let b' : Buffer := { Buffer.ofText [10, 97, 10, 98] 20 100 with cursor := ⟨1, 1⟩ }
    let ts : List Turn := [⟨d, [], b, false⟩, ⟨enter, [], b, false⟩, ⟨d, [], b', false⟩]
    ∃ m₁ m₂ m₃, v.moments ts = [m₁, m₂, m₃] ∧
      ((m₂.desk.press enter).toOption.map fun r => (r.1.buffer.text, r.1.buffer.cursor)) =
        some (b'.text, b'.cursor) ∧
      (m₃.desk.press d).toOption.map (·.1.buffer.text) = some [10, 98] ∧
      m₂.after.pending = .operator .delete ∧ m₃.Completes (.operator .delete) ∧
      ¬ m₂.Lawful (some m₁) ∧ ¬ m₃.Lawful (some m₂) := by
  intro v d enter b b' ts
  let m₁ : Moment := ⟨{ vi := v, register := [], buffer := b }, d⟩
  let m₂ : Moment := ⟨{ vi := m₁.after, register := [], buffer := b }, enter⟩
  let m₃ : Moment := ⟨{ vi := m₂.after, register := [], buffer := b' }, d⟩
  have hslips : m₂.Slips := ⟨by decide, by decide, by decide, by decide⟩
  have hcompletes : m₃.Completes (.operator .delete) := ⟨by decide, by decide, by decide⟩
  refine ⟨m₁, m₂, m₃, rfl, by decide, by decide, by decide, hcompletes,
    hslips.not_lawful (by decide) _, fun hl => ?_⟩
  obtain ⟨-, last, hlast, -, hkey⟩ := hl.completes _ hcompletes
  cases hlast
  revert hkey
  decide

end Interpreter
end ModalEditor
