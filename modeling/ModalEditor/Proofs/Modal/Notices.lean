import Mathlib.Data.List.Chain
import ModalEditor.Proofs.Modal.Use

/-!
# Notices

What a subscriber hears is enough to know the interpreter by: taking up one notice after the other
(`Report.take`), it holds the mode, the cursor style and whether the interpreter is on, after
everything that is done with the interpreter. And it hears nothing twice.

What is heard of one use depends only on what there is to report before and after it (`Report.news`,
`Interpreter.Truthful.use_hears`), because what was told before is still so.
-/

namespace ModalEditor

/-! ## Reports -/

namespace Notice

/-- The mode told. -/
def mode? : Notice → Option Bool
  | .mode i => some i
  | .style .. | .enabled .. => none

/-- The style told. -/
def style? : Notice → Option CursorStyle
  | .style st => some st
  | .mode .. | .enabled .. => none

/-- Whether the interpreter was told to be on. -/
def enabled? : Notice → Option Bool
  | .enabled e => some e
  | .mode .. | .style .. => none

end Notice

/-- What is told of an interpreter. -/
structure Report where
  insertion : Bool
  style : CursorStyle
  enabled : Bool
deriving DecidableEq

namespace Report

/-- A report after one more notice. -/
def take (r : Report) : Notice → Report
  | .mode insertion => { r with insertion }
  | .style style => { r with style }
  | .enabled enabled => { r with enabled }

/-- The style told to one who knows of another. -/
def styleNews (known style : CursorStyle) : List Notice :=
  if style = known then [] else [.style style]

theorem styleNews_self (style : CursorStyle) : styleNews style style = [] := if_pos rfl

/-- What is told of being turned on or off. Being turned on, the interpreter is in navigation. -/
def turnNews (known enabled : Bool) : List Notice :=
  if enabled = known then [] else .enabled enabled :: if enabled then [.mode false] else []

/-- What is told between two reports: a flip of the mode first, then the rest. -/
def news (r r' : Report) : List Notice :=
  if r'.insertion = r.insertion then turnNews r.enabled r'.enabled ++ styleNews r.style r'.style
  else .mode r'.insertion :: styleNews r.style r'.style ++ turnNews r.enabled r'.enabled

theorem news_self (r : Report) : r.news r = [] := by
  simp [news, turnNews, styleNews]

section
variable {r r' : Report}

theorem foldl_take_news (h : r'.enabled ≠ r.enabled → r'.insertion = false) :
    (r.news r').foldl take r = r' := by
  rcases r with ⟨i, st, e⟩
  rcases r' with ⟨i', st', e'⟩
  by_cases hi : i' = i <;> by_cases hs : st' = st <;> by_cases he : e' = e <;>
    cases e' <;> simp_all [news, styleNews, turnNews, take]

/-- At a turn the style is told with the flip of the mode, if there is one, and else at the end. -/
theorem news_of_turn (hi : r'.insertion = false) (he : r'.enabled ≠ r.enabled) :
    r.news r' = (if r.insertion then .mode false :: styleNews r.style r'.style else []) ++
      (.enabled r'.enabled :: if r'.enabled then [.mode false] else []) ++
      if r.insertion then [] else styleNews r.style r'.style := by
  unfold news turnNews
  rw [if_neg he, hi]
  cases r.insertion <;> simp

theorem filterMap_style_news (r r' : Report) :
    (r.news r').filterMap Notice.style? = if r'.style = r.style then [] else [r'.style] := by
  have hturn : (turnNews r.enabled r'.enabled).filterMap Notice.style? = [] := by
    cases r.enabled <;> cases r'.enabled <;> rfl
  have hstyle : (styleNews r.style r'.style).filterMap Notice.style? =
      if r'.style = r.style then [] else [r'.style] := by
    cases r.style <;> cases r'.style <;> rfl
  unfold news
  split <;> simp [List.filterMap_cons, hturn, hstyle, Notice.style?]

theorem filterMap_enabled_news (r r' : Report) :
    (r.news r').filterMap Notice.enabled? = if r'.enabled = r.enabled then [] else [r'.enabled] := by
  have hturn : (turnNews r.enabled r'.enabled).filterMap Notice.enabled? =
      if r'.enabled = r.enabled then [] else [r'.enabled] := by
    cases r.enabled <;> cases r'.enabled <;> rfl
  have hstyle : (styleNews r.style r'.style).filterMap Notice.enabled? = [] := by
    cases r.style <;> cases r'.style <;> rfl
  unfold news
  split <;> simp [List.filterMap_cons, hturn, hstyle, Notice.enabled?]

theorem length_filterMap_mode_news (r r' : Report) :
    ((r.news r').filterMap Notice.mode?).length =
      (if r'.insertion = r.insertion then 0 else 1) +
        if r'.enabled ≠ r.enabled ∧ r'.enabled = true then 1 else 0 := by
  have hturn : ((turnNews r.enabled r'.enabled).filterMap Notice.mode?).length =
      if r'.enabled ≠ r.enabled ∧ r'.enabled = true then 1 else 0 := by
    cases r.enabled <;> cases r'.enabled <;> rfl
  have hstyle : (styleNews r.style r'.style).filterMap Notice.mode? = [] := by
    cases r.style <;> cases r'.style <;> rfl
  unfold news
  split <;> simp [hturn, hstyle, Notice.mode?, Nat.add_comm]

/-- No style is told twice in a row if none is told twice in a row in both parts. -/
theorem isChain_styles_append (r : Report) (ns ns' : List Notice) :
    (r.style :: (ns ++ ns').filterMap Notice.style?).IsChain (· ≠ ·) ↔
      (r.style :: ns.filterMap Notice.style?).IsChain (· ≠ ·) ∧
        ((ns.foldl take r).style :: ns'.filterMap Notice.style?).IsChain (· ≠ ·) := by
  induction ns generalizing r with
  | nil => simp
  | cons n ns ih =>
    have h := ih (r.take n)
    cases n with
    | mode | enabled => exact h
    | style style =>
      simp only [List.cons_append, List.filterMap_cons, Notice.style?, List.isChain_cons_cons,
        List.foldl_cons, and_assoc]
      exact and_congr_right fun _ => h

theorem isChain_styles_news (r r' : Report) :
    (r.style :: (r.news r').filterMap Notice.style?).IsChain (· ≠ ·) := by
  rw [filterMap_style_news]
  split
  · exact .singleton _
  · rename_i h
    exact .cons_cons (Ne.symm h) (.singleton _)

end

end Report

/-! ## Hearing -/

namespace Interpreter

/-- What there is to report. -/
def report (v : Interpreter) : Report := ⟨v.mode.isInsertion, v.style, v.enabled⟩

/-- What was delivered to a subscriber, oldest first. -/
def heardBy (v : Interpreter) (s : Subscriber) : List Notice :=
  v.log.filterMap fun r => if r.1 = s then some r.2 else none

section
variable {s : Subscriber} {v v' v'' : Interpreter} {ns ns' : List Notice}

/-- From `v` to `v'` the subscriber `s` hears `ns` if it has subscribed, and it stays. -/
structure Hears (s : Subscriber) (v v' : Interpreter) (ns : List Notice) : Prop where
  stays : v'.subscribers.count s = v.subscribers.count s
  heard : v.subscribers.count s = 1 → v'.heardBy s = v.heardBy s ++ ns

theorem Hears.refl (s : Subscriber) (v : Interpreter) : Hears s v v [] :=
  ⟨rfl, fun _ => (List.append_nil _).symm⟩

theorem Hears.trans (h : Hears s v v' ns) (h' : Hears s v' v'' ns') : Hears s v v'' (ns ++ ns') := by
  refine ⟨h'.stays.trans h.stays, fun hl => ?_⟩
  rw [h'.heard (h.stays.trans hl), h.heard hl, List.append_assoc]

theorem count_afterNotice (hs : s.once = false) (subscribers : List Subscriber) :
    (subscribers.filterMap Subscriber.afterNotice?).count s = subscribers.count s := by
  have hstays : s.afterNotice? = some s := by simp [Subscriber.afterNotice?, hs]
  induction subscribers with
  | nil => rfl
  | cons t rest ih =>
    by_cases ht : t = s
    · rw [ht, List.filterMap_cons_some hstays, List.count_cons_self, List.count_cons_self, ih]
    · rw [List.count_cons_of_ne ht]
      cases hafter : t.afterNotice? with
      | none => rw [List.filterMap_cons_none hafter, ih]
      | some t' =>
        have ht' : t' ≠ s := by
          rintro rfl
          unfold Subscriber.afterNotice? at hafter
          split at hafter
          · split at hafter
            · cases hafter
            · cases hafter
              simp_all
          · cases hafter
            exact ht rfl
        rw [List.filterMap_cons_some hafter, List.count_cons_of_ne ht', ih]

theorem tell_hears (hs : s.once = false) (v : Interpreter) (n : Notice) :
    Hears s v (v.tell n) [n] := by
  refine ⟨count_afterNotice hs _, fun hl => ?_⟩
  have hdelivered : ∀ subscribers : List Subscriber,
      (subscribers.map (·, n)).filterMap (fun r => if r.1 = s then some r.2 else none) =
        List.replicate (subscribers.count s) n := fun subscribers => by
    induction subscribers with
    | nil => rfl
    | cons t rest ih =>
      rw [List.map_cons]
      by_cases ht : t = s
      · rw [List.filterMap_cons, if_pos ht, ih, ht, List.count_cons_self, List.replicate_succ]
      · rw [List.filterMap_cons, if_neg ht, ih, List.count_cons_of_ne ht]
  have hnew := hdelivered v.subscribers
  rw [hl] at hnew
  exact (List.filterMap_append ..).trans (congrArg _ hnew)

theorem tellStyle_hears (hs : s.once = false) (v : Interpreter) :
    Hears s v v.tellStyle (Report.styleNews v.saidStyle v.style) := by
  unfold tellStyle Report.styleNews
  split
  · exact .refl s v
  · obtain ⟨hstays, hheard⟩ := tell_hears hs { v with saidStyle := v.style } (.style v.style)
    exact ⟨hstays, hheard⟩

theorem send_steady_hears {e : ModeEvent} (hr : v.running = true)
    (hi : v.saidInsertion = v.mode.isInsertion)
    (hsteady : (v.mode.step e).isInsertion = v.mode.isInsertion) : Hears s v (v.send e) [] := by
  rw [send_of_steady hr hi hsteady]
  exact ⟨rfl, fun _ => (List.append_nil _).symm⟩

theorem send_flip_hears {e : ModeEvent} (hs : s.once = false) (hr : v.running = true)
    (hi : v.saidInsertion = v.mode.isInsertion)
    (hflip : (v.mode.step e).isInsertion ≠ v.mode.isInsertion) :
    Hears s v (v.send e)
      (.mode (v.send e).mode.isInsertion :: Report.styleNews v.saidStyle (v.send e).style) := by
  rw [send_of_flip hr hi hflip]
  let moved : Interpreter :=
    { v with mode := v.mode.step e, saidInsertion := (v.mode.step e).isInsertion }
  let told := moved.tell (.mode (v.mode.step e).isInsertion)
  have hmode : told.tellStyle.mode = v.mode.step e :=
    tellStyle_keeps (f := Interpreter.mode) (fun _ _ _ _ _ => rfl) told
  have hstyle : told.tellStyle.style = told.style :=
    tellStyle_keeps (f := Interpreter.style) (fun _ _ _ _ _ => rfl) told
  obtain ⟨hstays, hheard⟩ := (tell_hears hs moved (.mode (v.mode.step e).isInsertion)).trans
    (tellStyle_hears hs told)
  refine ⟨hstays, fun hl => ?_⟩
  show told.tellStyle.heardBy s = v.heardBy s ++
    .mode told.tellStyle.mode.isInsertion :: Report.styleNews v.saidStyle told.tellStyle.style
  rw [hmode, hstyle]
  exact hheard hl

theorem navigate_hears (hs : s.once = false) (hr : v.running = true)
    (hi : v.saidInsertion = v.mode.isInsertion) :
    Hears s v (v.send .navigate)
      (if v.mode.isInsertion then
        .mode false :: Report.styleNews v.saidStyle (v.send .navigate).style else []) ∧
    Report.styleNews (v.send .navigate).saidStyle (v.send .navigate).style =
      if v.mode.isInsertion then [] else
        Report.styleNews v.saidStyle (v.send .navigate).style := by
  have hnavigate : (v.mode.step .navigate).isInsertion = false := by cases v.mode <;> rfl
  cases hm : v.mode.isInsertion with
  | false =>
    have hsteady := hnavigate.trans hm.symm
    obtain ⟨-, -, hsaid, -⟩ := send_steady_said hr hi hsteady
    exact ⟨send_steady_hears hr hi hsteady, congrArg (Report.styleNews · _) hsaid⟩
  | true =>
    have hflip : (v.mode.step .navigate).isInsertion ≠ v.mode.isInsertion := by
      rw [hnavigate, hm]
      decide
    have hears := send_flip_hears hs hr hi hflip
    have hmode : (v.send .navigate).mode.isInsertion = false := by rwa [send_mode, if_pos hr]
    rw [hmode] at hears
    have hstyle := (send_flip_truthful hr hi hflip).style
    exact ⟨hears, hstyle ▸ Report.styleNews_self _⟩

theorem announce_hears (hs : s.once = false) (v : Interpreter) (enabled : Bool) :
    Hears s v (v.announce enabled) (.enabled enabled :: if enabled then [.mode false] else []) := by
  have htold := tell_hears hs v (.enabled enabled)
  cases enabled with
  | false => exact htold
  | true => exact htold.trans (tell_hears hs _ _)

/-! ## One use -/

/-- Where there is nothing new to report, nothing needs to be heard. -/
theorem Hears.of_report_eq (hreport : v'.report = v.report) (hears : Hears s v v' []) :
    Hears s v v' (v.report.news v'.report) := by
  rwa [hreport, Report.news_self]

theorem report_send_of_steady {e : ModeEvent} (hr : v.running = true)
    (hi : v.saidInsertion = v.mode.isInsertion)
    (hsteady : (v.mode.step e).isInsertion = v.mode.isInsertion) :
    (v.send e).report = v.report := by
  rw [send_of_steady hr hi hsteady]
  simp only [report, callFollowers, style, hsteady]

namespace Truthful

theorem send_hears (h : v.Truthful) (hs : s.once = false) (e : ModeEvent) :
    Hears s v (v.send e) (v.report.news (v.send e).report) := by
  by_cases hflip : (v.mode.step e).isInsertion = v.mode.isInsertion
  · exact (send_steady_hears h.running h.insertion hflip).of_report_eq
      (report_send_of_steady h.running h.insertion hflip)
  have hears := send_flip_hears hs h.running h.insertion hflip
  have henabled : (v.send e).enabled = v.enabled := send_keeps (fun _ _ _ _ _ _ _ => rfl) v e
  have hmode : (v.send e).mode = v.mode.step e := by rw [send_mode, if_pos h.running]
  have hnews : v.report.news (v.send e).report =
      .mode (v.send e).mode.isInsertion :: Report.styleNews v.style (v.send e).style := by
    simp only [report, Report.news, hmode, if_neg hflip, henabled, Report.turnNews, if_true,
      List.append_nil]
  rw [h.style] at hears
  rwa [hnews]

theorem hear_hears (h : v.Truthful) (hs : s.once = false) {es : List ModeEvent}
    (hes : ResetsFirst es) : Hears s v (v.hear es) (v.report.news (v.hear es).report) := by
  induction es generalizing v with
  | nil => exact .of_report_eq rfl (.refl s v)
  | cons e es ih =>
    cases es with
    | nil => exact h.send_hears hs e
    | cons e' rest =>
      -- a reset has nothing new to tell
      obtain rfl : e = .reset := hes e (.head _)
      obtain ⟨hsteady, -⟩ := Mode.step_reset v.mode
      have hreset : Hears s v (v.send .reset) [] := send_steady_hears h.running h.insertion hsteady
      have hreport := report_send_of_steady h.running h.insertion hsteady
      have hrest := ih (h.send .reset) fun e he => hes e (.tail _ he)
      rw [hreport] at hrest
      exact hreset.trans hrest

theorem setBlockCursor_hears (h : v.Truthful) (hs : s.once = false) (blockCursor : Bool) :
    Hears s v (v.setBlockCursor blockCursor)
      (v.report.news (v.setBlockCursor blockCursor).report) := by
  let set : Interpreter := { v with blockCursor }
  obtain ⟨hstays, hheard⟩ := tellStyle_hears hs set
  have hreport : set.tellStyle.report = set.report :=
    tellStyle_keeps (f := report) (fun _ _ _ _ _ => rfl) set
  have hnews : v.report.news set.tellStyle.report = Report.styleNews v.saidStyle set.style := by
    rw [hreport, h.style]
    simp only [report, Report.news, set, if_true, Report.turnNews, List.nil_append]
  refine ⟨hstays, fun hl => ?_⟩
  rw [Interpreter.setBlockCursor, hnews]
  exact hheard hl

theorem setEnabled_hears (h : v.Truthful) (hs : s.once = false) (enabled : Bool) :
    Hears s v (v.setEnabled enabled) (v.report.news (v.setEnabled enabled).report) := by
  by_cases he : enabled = v.enabled
  · have hsame : v.setEnabled enabled = v := if_pos he.symm
    rw [hsame]
    exact .of_report_eq rfl (.refl s v)
  let set : Interpreter := { v with enabled }
  let sent := set.send .navigate
  let told := sent.announce enabled
  obtain ⟨⟨hstays, hheard⟩, hstyle⟩ := navigate_hears (v := set) hs h.running h.insertion
  have htold : told.saidStyle = sent.saidStyle ∧ told.style = sent.style :=
    ⟨announce_keeps (f := saidStyle) (fun _ _ _ _ => rfl) sent enabled,
      announce_keeps (f := Interpreter.style) (fun _ _ _ _ => rfl) sent enabled⟩
  have hmode : sent.mode.isInsertion = false := by
    rw [send_mode, if_pos h.running]
    cases set.mode <;> rfl
  have henabled : sent.enabled = enabled := send_keeps (fun _ _ _ _ _ _ _ => rfl) set .navigate
  have hreport : told.tellStyle.report = ⟨false, sent.style, enabled⟩ := by
    rw [tellStyle_keeps (f := report) fun _ _ _ _ _ => rfl,
      announce_keeps (f := report) fun _ _ _ _ => rfl, report, hmode, henabled]
  have hnews : v.report.news told.tellStyle.report =
      (if set.mode.isInsertion then
        .mode false :: Report.styleNews set.saidStyle sent.style else []) ++
      (.enabled enabled :: if enabled then [.mode false] else []) ++
      Report.styleNews told.saidStyle told.style := by
    have hknown : v.report.style = set.saidStyle := h.style.symm
    rw [hreport, Report.news_of_turn rfl he, htold.1, htold.2, hstyle, hknown]
    rfl
  have hsent : Hears s v sent _ := ⟨hstays, hheard⟩
  rw [setEnabled_of_ne he, hnews]
  exact (hsent.trans (announce_hears hs sent enabled)).trans (tellStyle_hears hs told)

/-- **One use** is told in full to a subscriber who stays. -/
theorem use_hears (h : v.Truthful) (hs : s.once = false) {u : Use} (hu : u.Spares s) :
    Hears s v (v.use u) (v.report.news (v.use u).report) := by
  have hquiet : ∀ (subscribers : List Subscriber) autoIndent,
      subscribers.count s = v.subscribers.count s →
        Hears s v { v with subscribers, autoIndent }
          (v.report.news { v with subscribers, autoIndent }.report) := fun _ _ hstays =>
    .of_report_eq rfl ⟨hstays, fun _ => (List.append_nil _).symm⟩
  cases u with
  | desk register buffer bare op =>
    let d : Desk := { vi := v, register, buffer, bare }
    obtain ⟨hstays, hheard⟩ := h.hear_hears hs (d.reading_resetsFirst op)
    rw [Interpreter.use, d.step_vi op]
    cases (d.reading op).stroke <;> exact ⟨hstays, hheard⟩
  | unsubscribe s' => exact hquiet _ _ (List.count_erase_of_ne (Ne.symm hu))
  | host op =>
    cases op with
    | setEnabled enabled => exact h.setEnabled_hears hs enabled
    | setBlockCursor blockCursor => exact h.setBlockCursor_hears hs blockCursor
    | setAutoIndent autoIndent => exact hquiet _ _ rfl
    | subscribe s' =>
      have hne : s' ≠ s := hu
      refine hquiet _ _ ?_
      rw [List.count_append, List.count_singleton, if_neg (by simpa using hne), Nat.add_zero]
    | reset => exact h.send_hears hs .navigate
    | stop => cases hu

end Truthful

theorem Use.Spares.ne_stop {u : Use} (hu : u.Spares s) : u ≠ .host .stop := by
  rintro rfl
  exact hu

/-! ## Runs -/

/-- **A run** is told in full, and no style is told twice in a row. -/
theorem Truthful.run_hears (h : v.Truthful) (hs : s.once = false) {us : List Use}
    (hus : ∀ u ∈ us, u.Spares s) :
    ∃ ns, Hears s v (v.run us) ns ∧ ns.foldl Report.take v.report = (v.run us).report ∧
      (v.style :: ns.filterMap Notice.style?).IsChain (· ≠ ·) := by
  induction us generalizing v with
  | nil => exact ⟨[], .refl s v, rfl, .singleton _⟩
  | cons u us ih =>
    obtain ⟨hu, hus⟩ := List.forall_mem_cons.1 hus
    obtain ⟨ns, hears, hreport, hstyles⟩ := ih (h.use hu.ne_stop) hus
    have hnews : (v.report.news (v.use u).report).foldl Report.take v.report = (v.use u).report := by
      refine Report.foldl_take_news fun hturn => use_mode_of_turn h.running fun hnone => hturn ?_
      rw [report, use_enabled, hnone]
      rfl
    refine ⟨_, (h.use_hears hs hu).trans hears, ?_, ?_⟩
    · rw [List.foldl_append, hnews]
      exact hreport
    · refine (Report.isChain_styles_append v.report _ _).2 ⟨Report.isChain_styles_news _ _, ?_⟩
      rw [hnews]
      exact hstyles

theorem foldl_subscribe (v : Interpreter) (others : List Subscriber) :
    others.foldl subscribe v = { v with subscribers := v.subscribers ++ others } := by
  induction others generalizing v with
  | nil => simp
  | cons t rest ih => simp [ih, subscribe]

/-- **What is heard is enough to know the interpreter by, and nothing is heard twice.** Take any new
interpreter and a subscriber `s` who listens from the beginning and stays, behind others; and any
run of keys on any buffers, of scrolling, of requests by the host short of stopping the interpreter,
of others subscribing and taking their leave.

After every part of the run, the initial report, with everything heard taken up in turn, is the report
on the interpreter; and no style heard repeats the one before it. Of the next use, `s` hears that the
interpreter was turned on or off exactly if the use does that, and hears of the mode once if it flips,
and once if the interpreter is turned on. -/
theorem heard_in_full (hs : s.once = false) {others : List Subscriber} (ho : s ∉ others)
    (enabled blockCursor autoIndent qStartsLine : Bool) (pageLines : Int) {us : List Use}
    (hus : ∀ u ∈ us, u.Spares s) :
    let start := (others.foldl subscribe
      (new enabled blockCursor autoIndent qStartsLine pageLines)).subscribe s
    let v := start.run us
    (v.heardBy s).foldl Report.take start.report = v.report ∧
    (start.style :: (v.heardBy s).filterMap Notice.style?).IsChain (· ≠ ·) ∧
    ∀ u : Use, u.Spares s → ∃ news, (v.use u).heardBy s = v.heardBy s ++ news ∧
      news.filterMap Notice.enabled? = (u.turn? v.enabled).toList ∧
      (news.filterMap Notice.mode?).length =
        (if (v.use u).mode.isInsertion = v.mode.isInsertion then 0 else 1) +
          if u.turn? v.enabled = some true then 1 else 0 := by
  intro start v
  have hnew : start = { new enabled blockCursor autoIndent qStartsLine pageLines with
      subscribers := others ++ [s] } := by
    show (others.foldl subscribe _).subscribe s = _
    rw [foldl_subscribe]
    rfl
  obtain ⟨hstart, hl, hsilent⟩ :
      start.Truthful ∧ start.subscribers.count s = 1 ∧ start.heardBy s = [] := by
    rw [hnew]
    refine ⟨⟨rfl, rfl, rfl⟩, ?_, rfl⟩
    rw [List.count_append, List.count_eq_zero_of_not_mem ho, List.count_singleton_self]
  obtain ⟨ns, hears, hreport, hstyles⟩ := hstart.run_hears hs hus
  have hv : v.Truthful := hstart.run fun u hu => (hus u hu).ne_stop
  have hheard : v.heardBy s = ns := by rw [hears.heard hl, hsilent, List.nil_append]
  refine ⟨hheard ▸ hreport, hheard ▸ hstyles, fun u hu => ?_⟩
  have henabled : (v.use u).report.enabled = (u.turn? v.enabled).getD v.report.enabled := use_enabled
  refine ⟨_, (hv.use_hears hs hu).heard (hears.stays.trans hl), ?_, ?_⟩
  · rw [Report.filterMap_enabled_news, henabled]
    cases ht : u.turn? v.enabled with
    | none => exact if_pos rfl
    | some e => exact if_neg (ne_of_turn ht)
  · rw [Report.length_filterMap_mode_news, henabled]
    refine congrArg (Nat.add _) ?_
    cases ht : u.turn? v.enabled with
    | none => exact if_neg fun h => h.1 rfl
    | some e =>
      exact if_congr ⟨fun h => congrArg some h.2, fun h => ⟨ne_of_turn ht, Option.some.inj h⟩⟩ rfl rfl

/-- A subscriber behind one who leaves at the first notice: `i`, the interpreter turned off in
insertion, and on again. -/
theorem heard_in_full_behind_one_who_leaves :
    let s : Subscriber := { name := [115] }
    let other : Subscriber := { name := [116], once := true }
    let us : List Use := [.desk [] (.ofText [97] 20 100) false (.press { key := [105] }),
      .host (.setEnabled false)]
    let start := ([other].foldl subscribe (new true true true false 20)).subscribe s
    let v := start.run us
    (s.once = false ∧ s ∉ [other] ∧ ∀ u ∈ us, u.Spares s) ∧
    v.heardBy s = [.mode true, .style .bar, .mode false, .enabled false] ∧
    (v.heardBy s).foldl Report.take start.report = v.report ∧
    (start.style :: (v.heardBy s).filterMap Notice.style?).IsChain (· ≠ ·) ∧
    ∀ u : Use, u.Spares s → ∃ news, (v.use u).heardBy s = v.heardBy s ++ news ∧
      news.filterMap Notice.enabled? = (u.turn? v.enabled).toList ∧
      (news.filterMap Notice.mode?).length =
        (if (v.use u).mode.isInsertion = v.mode.isInsertion then 0 else 1) +
          if u.turn? v.enabled = some true then 1 else 0 := by
  intro s other us start v
  have hs : s.once = false := rfl
  have ho : s ∉ [other] := by decide
  have hus : ∀ u ∈ us, u.Spares s := by simp [us, Use.Spares]
  exact ⟨⟨hs, ho, hus⟩, by decide, heard_in_full hs ho true true true false 20 hus⟩

end

end Interpreter

end ModalEditor
