import ModalEditor.Disk.TextFile
import ModalEditor.Proofs.Text.Character

/-!
# Line breaks of a file and of a text

Loading makes a line feed of every break (`LineBreak.unify`) and saving makes a break of every line
feed (`LineBreak.restore`). A `Sheet` is a text taken apart at its breaks; every text is one
(`Sheet.exists_text`), and with it loading and saving are said break by break: the text that is edited
is the sheet with line feeds (`Sheet.unify_text`), the style that is noted is that of most of its
breaks (`Sheet.dominant_text`), and what is saved is the sheet with that break at the end of every
line (`Sheet.restore_written`).
-/

namespace ModalEditor

namespace LineBreak

theorem carriageReturn_ne_newline : carriageReturn ≠ newline := by decide

/-! ## Stretches without a line feed -/

theorem unify_cons {u : CodeUnit} {t : Text} (h : u = carriageReturn → t.head? ≠ some newline) :
    unify (u :: t) = u :: unify t := by
  cases t with
  | nil => rfl
  | cons v t =>
    rw [unify, if_neg]
    rintro ⟨hu, rfl⟩
    exact h hu rfl

theorem countCrlf_cons {u : CodeUnit} {t : Text} (h : u = carriageReturn → t.head? ≠ some newline) :
    countCrlf (u :: t) = countCrlf t := by
  cases t with
  | nil => rfl
  | cons v t =>
    rw [countCrlf, if_neg]
    rintro ⟨hu, rfl⟩
    exact h hu rfl

/-- What is done unit by unit outside of breaks is done so along a stretch without a line feed. -/
theorem foldr_unbroken {α : Type} {f : Text → α} {g : CodeUnit → α → α}
    (hf : ∀ {u t}, (u = carriageReturn → t.head? ≠ some newline) → f (u :: t) = g u (f t))
    {x : Text} (hx : newline ∉ x) {y : Text}
    (h : x.getLast? = some carriageReturn → y.head? ≠ some newline) :
    f (x ++ y) = x.foldr g (f y) := by
  induction x with
  | nil => rfl
  | cons u x ih =>
    rw [List.mem_cons, not_or] at hx
    cases x with
    | nil => exact hf fun hu => h (by rw [hu]; rfl)
    | cons v x =>
      have hv : (v :: x ++ y).head? ≠ some newline := fun hv =>
        hx.2 (Option.some.inj hv ▸ List.mem_cons_self)
      rw [List.cons_append, hf fun _ => hv, ih hx.2 fun hl => h (by simpa using hl)]
      rfl

theorem unify_append {x y : Text} (hx : newline ∉ x)
    (h : x.getLast? = some carriageReturn → y.head? ≠ some newline) :
    unify (x ++ y) = x ++ unify y := by
  rw [foldr_unbroken unify_cons hx h, List.foldr_cons_eq_append']

theorem countCrlf_append {x y : Text} (hx : newline ∉ x)
    (h : x.getLast? = some carriageReturn → y.head? ≠ some newline) :
    countCrlf (x ++ y) = countCrlf y := by
  rw [foldr_unbroken (g := fun _ n => n) countCrlf_cons hx h]
  clear hx h
  induction x with
  | nil => rfl
  | cons u x ih => exact ih

theorem restore_append (b : LineBreak) (x y : Text) :
    b.restore (x ++ y) = b.restore x ++ b.restore y := by
  cases b with
  | lf => rfl
  | crlf => exact List.flatMap_append

theorem restore_of_unbroken (b : LineBreak) {x : Text} (hx : newline ∉ x) : b.restore x = x := by
  cases b with
  | lf => rfl
  | crlf =>
    induction x with
    | nil => rfl
    | cons u x ih =>
      rw [List.mem_cons, not_or] at hx
      have hr := ih hx.2
      rw [restore] at hr ⊢
      rw [List.flatMap_cons, if_neg (Ne.symm hx.1), hr]
      rfl

theorem restore_newline (b : LineBreak) : b.restore [newline] = b.toText := by
  cases b <;> rfl

/-! ## Loading what was saved -/

theorem restore_crlf_cons (u : CodeUnit) (t : Text) : LineBreak.crlf.restore (u :: t) =
    (if u = newline then [carriageReturn, newline] else [u]) ++ LineBreak.crlf.restore t :=
  List.flatMap_cons

theorem unify_restore_crlf (t : Text) : unify (LineBreak.crlf.restore t) = t := by
  induction t with
  | nil => rfl
  | cons u t ih =>
    rw [restore_crlf_cons]
    by_cases hu : u = newline
    · rw [if_pos hu, hu]
      exact congrArg (newline :: ·) ih
    · have hhead : (LineBreak.crlf.restore t).head? ≠ some newline := by
        cases t with
        | nil => exact nofun
        | cons v t =>
          rw [restore_crlf_cons]
          by_cases hv : v = newline
          · rw [if_pos hv]
            exact carriageReturn_ne_newline ∘ Option.some.inj
          · rw [if_neg hv]
            exact hv ∘ Option.some.inj
      rw [if_neg hu, List.singleton_append, unify_cons fun _ => hhead, ih]

theorem unify_eq_self_iff (t : Text) : unify t = t ↔ ¬ [carriageReturn, newline] <:+: t := by
  fun_induction unify t with
  | case1 => decide
  | case2 u => simp [List.infix_cons_iff]
  | case3 u v rest h =>
    obtain ⟨rfl, rfl⟩ := h
    refine iff_of_false (fun he => ?_) fun hn => hn ⟨[], rest, rfl⟩
    exact carriageReturn_ne_newline (List.cons.inj he).1.symm
  | case4 u v rest h ih =>
    have hpair : ¬ [carriageReturn, newline] <+: u :: v :: rest := by
      rintro ⟨s, hs⟩
      cases hs
      exact h ⟨rfl, rfl⟩
    rw [List.infix_cons_iff, or_iff_right hpair, ← ih, List.cons.injEq, and_iff_right rfl]

theorem wellFormed_restore {t : Text} (h : t.wellFormed = true) (b : LineBreak) :
    (b.restore t).wellFormed = true := by
  cases b with
  | lf => exact h
  | crlf =>
    fun_induction Text.wellFormed t with
    | case1 => rfl
    | case2 u =>
      rw [restore_crlf_cons]
      split
      · rfl
      · simpa [restore, Text.wellFormed] using h
    | case3 u v rest hu ih =>
      rw [Bool.and_eq_true] at h
      have hun : u ≠ newline := by
        rintro rfl
        exact absurd hu (by decide)
      have hvn : v ≠ newline := by
        rintro rfl
        exact absurd h.1 (by decide)
      rw [restore_crlf_cons, restore_crlf_cons, if_neg hun, if_neg hvn]
      simp only [List.singleton_append, Text.wellFormed, hu, if_true, h.1, ih h.2, Bool.and_self]
    | case4 u v rest hu ih =>
      rw [Bool.and_eq_true] at h
      have hfirst : Text.wellFormed (if u = newline then [carriageReturn, newline] else [u]) := by
        split
        · rfl
        · simpa [Text.wellFormed, hu] using h.1
      rw [restore_crlf_cons, Text.wellFormed_append_of_left hfirst]
      exact ih h.2

/-- Every line feed of a text has a carriage return before it, or none has. -/
def Uniform (t : Text) : Prop :=
  (∀ x y, t = x ++ newline :: y → x.getLast? = some carriageReturn) ∨
    ∀ x y, t = x ++ newline :: y → x.getLast? ≠ some carriageReturn

end LineBreak

/-! ## Sheets -/

/-- A line with the break it ends in. A carriage return before a line feed is part of the break. -/
structure BrokenLine where
  text : Text
  lineBreak : LineBreak
  unbroken : newline ∉ text
  bare : lineBreak = .lf → text.getLast? ≠ some carriageReturn

/-- A text as its lines, the last of which ends in no break. -/
structure Sheet where
  lines : List BrokenLine
  last : Text
  unbroken : newline ∉ last

namespace Sheet

def text (s : Sheet) : Text := s.lines.flatMap (fun l => l.text ++ l.lineBreak.toText) ++ s.last

/-- The sheet with every break in one style. -/
def written (s : Sheet) (b : LineBreak) : Text :=
  s.lines.flatMap (fun l => l.text ++ b.toText) ++ s.last

/-- How many breaks are of a style. -/
def count (s : Sheet) (b : LineBreak) : Nat := s.lines.countP fun l => l.lineBreak = b

/-- The style of strictly more breaks; a tie goes to the line feed. -/
def majority (s : Sheet) : LineBreak := if s.count .lf < s.count .crlf then .crlf else .lf

def cons (l : BrokenLine) (s : Sheet) : Sheet := { s with lines := l :: s.lines }

theorem text_cons (l : BrokenLine) (s : Sheet) :
    (s.cons l).text = l.text ++ (l.lineBreak.toText ++ s.text) := by
  simp [text, cons]

theorem written_cons (l : BrokenLine) (s : Sheet) (b : LineBreak) :
    (s.cons l).written b = l.text ++ (b.toText ++ s.written b) := by
  simp [written, cons]

theorem count_cons (l : BrokenLine) (s : Sheet) (b : LineBreak) :
    (s.cons l).count b = s.count b + if l.lineBreak = b then 1 else 0 := by
  simp [count, cons, List.countP_cons]

theorem induction_lines {P : Sheet → Prop} (last : ∀ x hx, P ⟨[], x, hx⟩)
    (cons : ∀ l s, P s → P (s.cons l)) (s : Sheet) : P s := by
  obtain ⟨lines, x, hx⟩ := s
  induction lines with
  | nil => exact last x hx
  | cons l lines ih => exact cons l ⟨lines, x, hx⟩ ih

theorem exists_text (t : Text) : ∃ s : Sheet, s.text = t := by
  induction t with
  | nil => exact ⟨⟨[], [], List.not_mem_nil⟩, rfl⟩
  | cons u t ih =>
    obtain ⟨⟨lines, x, hx⟩, rfl⟩ := ih
    by_cases hu : u = newline
    · exact ⟨cons ⟨[], .lf, List.not_mem_nil, fun _ => nofun⟩ ⟨lines, x, hx⟩, by rw [hu]; rfl⟩
    cases lines with
    | nil => exact ⟨⟨[], u :: x, by simp [Ne.symm hu, hx]⟩, rfl⟩
    | cons l lines =>
      have hl : newline ∉ u :: l.text := by simp [Ne.symm hu, l.unbroken]
      by_cases hc : u = carriageReturn ∧ l.text = [] ∧ l.lineBreak = .lf
      · -- the carriage return joins the line feed after it
        obtain ⟨rfl, htext, hbreak⟩ := hc
        refine ⟨cons ⟨[], .crlf, List.not_mem_nil, nofun⟩ ⟨lines, x, hx⟩, ?_⟩
        simp [text, cons, htext, hbreak, LineBreak.toText]
      · refine ⟨cons ⟨u :: l.text, l.lineBreak, hl, fun hb hlast => ?_⟩ ⟨lines, x, hx⟩, ?_⟩
        · cases htext : l.text with
          | nil =>
            rw [htext] at hlast
            exact hc ⟨Option.some.inj hlast, htext, hb⟩
          | cons v rest =>
            rw [htext, List.getLast?_cons_cons, ← htext] at hlast
            exact l.bare hb hlast
        · simp [text, cons]

theorem unify_break (b : LineBreak) (t : Text) :
    LineBreak.unify (b.toText ++ t) = newline :: LineBreak.unify t := by
  cases b with
  | lf => exact LineBreak.unify_cons fun h => absurd h.symm LineBreak.carriageReturn_ne_newline
  | crlf => rfl

theorem countCrlf_break (b : LineBreak) (t : Text) : LineBreak.countCrlf (b.toText ++ t) =
    LineBreak.countCrlf t + if b = .crlf then 1 else 0 := by
  cases b with
  | lf => exact LineBreak.countCrlf_cons fun h => absurd h.symm LineBreak.carriageReturn_ne_newline
  | crlf => rfl

end Sheet

theorem BrokenLine.before_break (l : BrokenLine) (t : Text)
    (h : l.text.getLast? = some carriageReturn) :
    (l.lineBreak.toText ++ t).head? ≠ some newline := by
  cases hb : l.lineBreak with
  | lf => exact absurd h (l.bare hb)
  | crlf => exact LineBreak.carriageReturn_ne_newline ∘ Option.some.inj

namespace Sheet

theorem unify_text (s : Sheet) : LineBreak.unify s.text = s.written .lf := by
  induction s using induction_lines with
  | last x hx =>
    have h := LineBreak.unify_append (y := []) hx fun _ => nofun
    rw [List.append_nil] at h
    exact h.trans (List.append_nil x)
  | cons l s ih =>
    rw [text_cons, LineBreak.unify_append l.unbroken (l.before_break _), unify_break, ih,
      written_cons]
    rfl

theorem restore_written (s : Sheet) (b : LineBreak) : b.restore (s.written .lf) = s.written b := by
  induction s using induction_lines with
  | last x hx => exact b.restore_of_unbroken hx
  | cons l s ih =>
    rw [written_cons, LineBreak.restore_append, LineBreak.restore_append,
      b.restore_of_unbroken l.unbroken, LineBreak.toText, b.restore_newline, ih, written_cons]

theorem countCrlf_text (s : Sheet) : LineBreak.countCrlf s.text = s.count .crlf := by
  induction s using induction_lines with
  | last x hx =>
    have h := LineBreak.countCrlf_append (y := []) hx fun _ => nofun
    rw [List.append_nil] at h
    exact h
  | cons l s ih =>
    rw [text_cons, LineBreak.countCrlf_append l.unbroken (l.before_break _), countCrlf_break, ih,
      count_cons]

theorem count_newline_text (s : Sheet) : s.text.count newline = s.count .lf + s.count .crlf := by
  induction s using induction_lines with
  | last x hx => exact List.count_eq_zero.2 hx
  | cons l s ih =>
    have hl : l.text.count newline = 0 := List.count_eq_zero.2 l.unbroken
    have hbreak : l.lineBreak.toText.count newline = 1 := by cases l.lineBreak <;> decide
    rw [text_cons, List.count_append, List.count_append, hl, hbreak, ih, count_cons, count_cons]
    cases l.lineBreak <;> simp <;> omega

theorem dominant_text (s : Sheet) : LineBreak.dominant s.text = s.majority := by
  rw [LineBreak.dominant, countCrlf_text, count_newline_text, Nat.add_sub_cancel]
  rfl

theorem getLast?_brokenLines (ls : List BrokenLine) :
    (ls.flatMap fun l => l.text ++ l.lineBreak.toText).getLast? ≠ some carriageReturn := by
  rcases ls.eq_nil_or_concat with rfl | ⟨init, l, rfl⟩
  · exact nofun
  · have hl : (l.text ++ l.lineBreak.toText).getLast? = some newline := by
      cases l.lineBreak <;> simp [LineBreak.toText]
    rw [List.concat_eq_append, List.flatMap_append, List.flatMap_singleton, List.getLast?_append,
      hl]
    exact (LineBreak.carriageReturn_ne_newline <| Option.some.inj ·.symm)

/-- The line feed of a break, found in the text. -/
theorem lineBreak_of_split {s : Sheet} {l : BrokenLine} {before after : List BrokenLine}
    (h : s.lines = before ++ l :: after) : ∃ x y, s.text = x ++ newline :: y ∧
      (x.getLast? = some carriageReturn ↔ l.lineBreak = .crlf) := by
  obtain ⟨x, y, htext, hx⟩ : ∃ x y, s.text = x ++ (l.text ++ (l.lineBreak.toText ++ y)) ∧
      x.getLast? ≠ some carriageReturn := by
    refine ⟨_, (after.flatMap fun l => l.text ++ l.lineBreak.toText) ++ s.last, ?_,
      getLast?_brokenLines before⟩
    simp [text, h]
  cases hb : l.lineBreak with
  | lf =>
    refine ⟨x ++ l.text, y, by simp [htext, hb, LineBreak.toText],
      iff_of_false (fun hlast => ?_) nofun⟩
    rw [List.getLast?_append] at hlast
    cases hl : l.text.getLast? with
    | none =>
      rw [hl] at hlast
      exact hx hlast
    | some u =>
      rw [hl] at hlast
      exact l.bare hb (hl.trans hlast)
  | crlf =>
    exact ⟨x ++ l.text ++ [carriageReturn], y, by simp [htext, hb, LineBreak.toText],
      iff_of_true List.getLast?_concat rfl⟩

/-- Where all breaks are alike, the sheet in the style of most is the sheet. -/
theorem written_majority {s : Sheet} (h : LineBreak.Uniform s.text) :
    s.written s.majority = s.text := by
  obtain ⟨b, hb⟩ : ∃ b, ∀ l ∈ s.lines, l.lineBreak = b := by
    rcases h with h | h
    · refine ⟨.crlf, fun l hl => ?_⟩
      obtain ⟨before, after, hsplit⟩ := List.append_of_mem hl
      obtain ⟨x, y, ht, hx⟩ := lineBreak_of_split hsplit
      exact hx.1 (h x y ht)
    · refine ⟨.lf, fun l hl => ?_⟩
      obtain ⟨before, after, hsplit⟩ := List.append_of_mem hl
      obtain ⟨x, y, ht, hx⟩ := lineBreak_of_split hsplit
      cases hl : l.lineBreak with
      | lf => rfl
      | crlf => exact absurd (hx.2 hl) (h x y ht)
  have hlines : s.lines ≠ [] → s.majority = b := by
    intro hne
    have hall : s.count b = s.lines.length := List.countP_eq_length.2 (by simpa using hb)
    have hnone : ∀ b' ≠ b, s.count b' = 0 := fun b' hb' =>
      List.countP_eq_zero.2 fun l hl => by simpa [hb l hl] using Ne.symm hb'
    have hpos := List.length_pos_iff.2 hne
    unfold majority
    cases b with
    | lf => rw [if_neg (by rw [hnone .crlf nofun]; exact Nat.not_lt_zero _)]
    | crlf => rw [if_pos (by rw [hnone .lf nofun, hall]; exact hpos)]
  unfold written text
  congr 1
  refine congrArg List.flatten (List.map_congr_left fun l hl => ?_)
  rw [hb l hl, hlines (List.ne_nil_of_mem hl)]

end Sheet

end ModalEditor
