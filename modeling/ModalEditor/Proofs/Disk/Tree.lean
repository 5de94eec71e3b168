import ModalEditor.Disk.Basic
import ModalEditor.Proofs.Text.Utf8

/-!
# What lies where

A path is looked up and walked to; where the walk arrives, the two say the same, and the walk finds
nothing new when entries are added beside it (`Disk.stat_mono`). A file can be written exactly where
its directory is reached (`Disk.stat_eq_ok_iff`). Steps that change a disk leave it as it is but for
the paths they are about and for directories made where nothing was: `Disk.AgreesOff`.

On a file tree (`Disk.IsTree`) what is found at a path depends on what is kept there alone
(`Disk.IsTree.at?_congr`).
-/

namespace ModalEditor

/-! ## Paths -/

namespace Path

variable {p : Path}

theorem trimmed_prefix_self (p : Path) : p.trimmed <+: p := by
  unfold trimmed
  split
  · exact List.dropLast_prefix p
  · exact List.prefix_rfl

theorem parent_append_baseName (hp : p ≠ []) (hs : p.endsInSlash = false) :
    p.parent ++ [p.baseName] = p ∧ p.baseName ≠ [] := by
  have hlast : p.getLast? = some (p.getLast hp) := List.getLast?_eq_some_getLast hp
  have hbase : p.baseName = p.getLast hp := by
    rw [baseName, trimmed_of_endsInSlash_eq_false hs, hlast, Option.getD_some]
  refine ⟨by rw [hbase, parent, trimmed_of_endsInSlash_eq_false hs, List.dropLast_concat_getLast],
    fun h => ?_⟩
  rw [hbase] at h
  rw [endsInSlash, hlast, h] at hs
  exact absurd hs (by decide)

theorem endsInSlash_concat {n : Text} (hn : n ≠ []) (p : Path) :
    endsInSlash (p ++ [n]) = false := by
  simpa [endsInSlash] using hn

theorem parent_concat {n : Text} (hn : n ≠ []) (p : Path) : parent (p ++ [n]) = p := by
  rw [parent, trimmed_of_endsInSlash_eq_false (endsInSlash_concat hn p), List.dropLast_concat]

theorem baseName_concat {n : Text} (hn : n ≠ []) (p : Path) : baseName (p ++ [n]) = n := by
  rw [baseName, trimmed_of_endsInSlash_eq_false (endsInSlash_concat hn p), List.getLast?_concat,
    Option.getD_some]

theorem fault?_eq_none_iff : p.fault? = none ↔ p.hasForbiddenName = false ∧ p.isLong = false := by
  unfold fault?
  cases p.hasForbiddenName <;> cases p.isLong <;> simp

theorem hasForbiddenName_of_sublist {q : Path} (h : q.trimmed.Sublist p.trimmed)
    (hp : p.hasForbiddenName = false) : q.hasForbiddenName = false := by
  unfold hasForbiddenName at hp ⊢
  rw [List.any_eq_false] at hp ⊢
  exact fun n hn => hp n (h.subset hn)

theorem isLong_of_prefix {q : Path} (hq : q ≠ []) (h : q <+: p) (hp : p.isLong = false) :
    q.isLong = false := by
  obtain ⟨r, rfl⟩ := h
  have htext : toText (q ++ r) = toText q ++ r.flatMap fun n => slash :: n := by
    rw [toText, toText, if_neg hq, if_neg (by simp [hq]), List.flatMap_append]
  unfold isLong at hp ⊢
  rw [decide_eq_false_iff_not, htext] at hp
  rw [decide_eq_false_iff_not]
  exact fun hlong => hp (Nat.lt_of_lt_of_le hlong (Utf8.length_encode_append_le _ _))

theorem isLong_nil : isLong [] = false := by decide

theorem fault?_parent (h : p.fault? = none) : p.parent.fault? = none := by
  rw [fault?_eq_none_iff] at h ⊢
  have hinit : p.parent <+: p.trimmed := List.dropLast_prefix _
  refine ⟨hasForbiddenName_of_sublist
    ((trimmed_prefix_self _).sublist.trans hinit.sublist) h.1, ?_⟩
  by_cases hp : p.parent = []
  · rw [hp]
    exact isLong_nil
  · exact isLong_of_prefix hp (hinit.trans (trimmed_prefix_self p)) h.2

theorem filter_of_fault? (h : p.fault? = none) : p.filter (· ≠ []) = p.trimmed := by
  have hnames : ∀ n ∈ p.trimmed, n ≠ [] := by
    intro n hn hempty
    have := List.any_eq_false.1 (fault?_eq_none_iff.1 h).1 n hn
    simp [hempty] at this
  have htrimmed : p.trimmed.filter (· ≠ []) = p.trimmed := by
    rw [List.filter_eq_self]
    exact fun n hn => decide_eq_true (hnames n hn)
  cases hs : p.endsInSlash with
  | false => rwa [trimmed_of_endsInSlash_eq_false hs] at htrimmed ⊢
  | true =>
    obtain ⟨names, hp⟩ := List.getLast?_eq_some_iff.1 (by simpa [endsInSlash] using hs)
    have hnames' : p.trimmed = names := by
      rw [trimmed, hs, if_pos rfl, hp, List.dropLast_concat]
    rw [hnames'] at htrimmed ⊢
    rw [hp, List.filter_append, htrimmed]
    exact List.append_nil _

theorem filter_parent (h : p.fault? = none) (hp : p ≠ []) (hs : p.endsInSlash = false) :
    p.parent.filter (· ≠ []) = p.parent := by
  obtain ⟨hsplit, -⟩ := parent_append_baseName hp hs
  have hp' : p.filter (· ≠ []) = p := by
    rw [filter_of_fault? h, trimmed_of_endsInSlash_eq_false hs]
  rw [List.filter_eq_self] at hp' ⊢
  exact fun n hn => hp' n (hsplit ▸ List.mem_append_left _ hn)

end Path

namespace Disk

/-! ## Entries put and dropped -/

theorem lookup?_drop_of_ne {d : Disk} {p q : Path} (h : q ≠ p) :
    (d.drop p).lookup? q = d.lookup? q := by
  unfold lookup? drop
  split
  · rfl
  · have hq : ∀ r : Path × Entry, (r.1 ≠ p ∧ r.1 = q) = (r.1 = q) := fun r =>
      propext ⟨And.right, fun hr => ⟨hr ▸ h, hr⟩⟩
    simp only [List.find?_filter, decide_eq_true_eq, hq]

theorem lookup?_drop_self (d : Disk) {p : Path} (h : p ≠ []) : (d.drop p).lookup? p = none := by
  simp [lookup?, drop, h]

theorem lookup?_put_directory (d : Disk) (p q : Path) :
    (d.put p .directory).lookup? q = if q = p then some .directory else d.lookup? q := by
  by_cases h : q = p
  · rw [if_pos h, h]
    by_cases hp : p = []
    · rw [hp]
      rfl
    · exact lookup?_put_self hp
  · rw [if_neg h, lookup?_put_of_ne h]

theorem lookup?_makeAll (d : Disk) (ps : List Path) (q : Path) :
    (d.makeAll ps).lookup? q = if q ∈ ps then some .directory else d.lookup? q := by
  induction ps generalizing d with
  | nil => rfl
  | cons p ps ih =>
    have hstep : d.makeAll (p :: ps) = (d.put p .directory).makeAll ps := rfl
    rw [hstep, ih, lookup?_put_directory]
    by_cases hq : q ∈ ps
    · simp [hq]
    · by_cases hp : q = p <;> simp [hq, hp]

/-! ## Walks -/

theorem walk_lookup? {d : Disk} {place : Path} {names : List Text} {e : Entry}
    (h : d.walk place names = .ok e) : d.lookup? (place ++ names.filter (· ≠ [])) = some e := by
  induction names generalizing place with
  | nil =>
    rw [walk] at h
    rw [List.filter_nil, List.append_nil]
    split at h <;> simp_all
  | cons n rest ih =>
    rw [walk] at h
    split at h
    · split at h
      · rename_i hn
        rw [List.filter_cons_of_neg (by simp [hn])]
        exact ih h
      · rename_i hn
        split at h
        · cases h
        · have := ih h
          rwa [List.append_assoc, List.singleton_append, ← List.filter_cons_of_pos (by simp [hn])]
            at this
    · cases h
    · cases h

theorem walk_mono {d d' : Disk} {place : Path} {names : List Text} {e : Entry}
    (hd : ∀ q, q <+: place ++ names.filter (· ≠ []) → ∀ e, d.lookup? q = some e →
      d'.lookup? q = some e)
    (h : d.walk place names = .ok e) : d'.walk place names = .ok e := by
  have hplace : ∀ e, d.lookup? place = some e → d'.lookup? place = some e :=
    hd place (List.prefix_append _ _)
  induction names generalizing place with
  | nil =>
    rw [walk] at h ⊢
    cases hl : d.lookup? place with
    | none => simp [hl] at h
    | some e' => rwa [hplace e' hl, ← hl]
  | cons n rest ih =>
    rw [walk] at h ⊢
    cases hl : d.lookup? place with
    | none => simp [hl] at h
    | some e' =>
      rw [hplace e' hl]
      rw [hl] at h
      cases e' with
      | file bytes => cases h
      | directory =>
        dsimp only at h ⊢
        by_cases hn : n = []
        · rw [if_pos hn] at h ⊢
          rw [List.filter_cons_of_neg (by simp [hn])] at hd
          exact ih hd h hplace
        · rw [if_neg hn] at h ⊢
          rw [List.filter_cons_of_pos (by simp [hn])] at hd
          split at h
          · cases h
          · rename_i hlong
            rw [if_neg hlong]
            have hd' : ∀ q, q <+: place ++ [n] ++ rest.filter (· ≠ []) → ∀ e,
                d.lookup? q = some e → d'.lookup? q = some e := by
              rw [List.append_assoc]
              exact hd
            exact ih hd' h (hd' _ (List.prefix_append _ _))

theorem walk_concat {d : Disk} {place : Path} {names : List Text} {n : Text} (hn : n ≠ [])
    (e : Entry) : d.walk place (names ++ [n]) = .ok e ↔
      d.walk place names = .ok .directory ∧ Path.isLongName n = false ∧
        d.lookup? (place ++ names.filter (· ≠ []) ++ [n]) = some e := by
  induction names generalizing place with
  | nil =>
    rw [List.nil_append, walk, walk, List.filter_nil, List.append_nil]
    cases hl : d.lookup? place with
    | none => simp
    | some e' =>
      cases e' with
      | file bytes => simp
      | directory =>
        cases hlong : Path.isLongName n with
        | true => simp [hn]
        | false =>
          rw [if_neg hn]
          simp only [walk, Bool.false_eq_true, if_false, true_and]
          cases d.lookup? (place ++ [n]) <;> simp
  | cons n' rest ih =>
    rw [List.cons_append, walk, walk]
    cases hl : d.lookup? place with
    | none => simp
    | some e' =>
      cases e' with
      | file bytes => simp
      | directory =>
        dsimp only
        by_cases hn' : n' = []
        · rw [if_pos hn', if_pos hn', ih, List.filter_cons_of_neg (by simp [hn'])]
        · rw [if_neg hn', if_neg hn', List.filter_cons_of_pos (by simp [hn'])]
          by_cases hlong : Path.isLongName n' = true
          · simp [hlong]
          · rw [if_neg hlong, if_neg hlong, ih]
            simp

theorem walk_slash {d : Disk} {place : Path} {names : List Text} {e : Entry}
    (h : d.walk place (names ++ [[]]) = .ok e) : e = .directory := by
  induction names generalizing place with
  | nil =>
    rw [List.nil_append, walk, walk] at h
    cases hl : d.lookup? place with
    | none => simp [hl] at h
    | some e' => cases e' <;> simp_all
  | cons n rest ih =>
    rw [List.cons_append, walk] at h
    repeat' split at h
    all_goals first
      | exact ih h
      | cases h

section
variable {d d' : Disk} {p : Path} {e : Entry}

theorem stat_fault? (h : d.stat p = .ok e) : p.fault? = none := by
  unfold stat at h
  split at h
  · cases h
  · assumption

/-- What can be reached is reached on a disk that has the same on the way. -/
theorem stat_mono (hd : ∀ q, q <+: p.trimmed → ∀ e, d.lookup? q = some e → d'.lookup? q = some e)
    (h : d.stat p = .ok e) : d'.stat p = .ok e := by
  have hf := stat_fault? h
  unfold stat at h ⊢
  rw [hf] at h ⊢
  refine walk_mono ?_ h
  rwa [List.nil_append, Path.filter_of_fault? hf]

theorem stat_eq_ok_iff (hp : p ≠ []) (hs : p.endsInSlash = false) :
    d.stat p = .ok e ↔ d.openParent p = .ok () ∧ d.lookup? p = some e := by
  obtain ⟨hsplit, hbase⟩ := Path.parent_append_baseName hp hs
  unfold openParent
  cases hf : p.fault? with
  | some e' => simp [stat, hf]
  | none =>
    have hparent := Path.fault?_parent hf
    have htrimmed := Path.filter_parent hf hp hs
    have hstat : d.stat p = d.walk [] (p.parent ++ [p.baseName]) := by
      rw [hsplit, stat, hf]
    have hstat' : d.stat p.parent = d.walk [] p.parent := by
      rw [stat, hparent]
    rw [hstat, walk_concat hbase, List.nil_append, htrimmed, hsplit, hstat']
    cases d.walk [] p.parent with
    | error e' => simp
    | ok e' =>
      cases e' with
      | file bytes => simp
      | directory => cases Path.isLongName p.baseName <;> simp

theorem lookup?_of_stat (h : d.stat p = .ok e) : d.lookup? p.trimmed = some e := by
  have hf := stat_fault? h
  unfold stat at h
  rw [hf] at h
  have := walk_lookup? h
  rwa [List.nil_append, Path.filter_of_fault? hf] at this

theorem read_eq_ok_iff {bytes : List UInt8} :
    d.read p = .ok bytes ↔ d.stat p = .ok (.file bytes) := by
  unfold read
  split <;> simp_all

theorem has_of_read {bytes : List UInt8} (h : d.read p = .ok bytes) : d.has p = true := by
  rw [has, read_eq_ok_iff.1 h]
  rfl

theorem endsInSlash_of_read {bytes : List UInt8} (h : d.read p = .ok bytes) :
    p ≠ [] ∧ p.endsInSlash = false := by
  have hstat := read_eq_ok_iff.1 h
  have hf := stat_fault? hstat
  unfold stat at hstat
  rw [hf] at hstat
  constructor
  · rintro rfl
    cases hstat
  · cases hs : p.endsInSlash with
    | false => rfl
    | true =>
      obtain ⟨names, rfl⟩ := List.getLast?_eq_some_iff.1 (by simpa [Path.endsInSlash] using hs)
      cases walk_slash hstat

theorem openParent_eq_ok_iff : d.openParent p = .ok () ↔
    p.fault? = none ∧ d.stat p.parent = .ok .directory ∧ Path.isLongName p.baseName = false := by
  unfold openParent
  cases p.fault? with
  | some e => simp
  | none =>
    cases d.stat p.parent with
    | error e => simp
    | ok e =>
      cases e with
      | file bytes => simp
      | directory => cases Path.isLongName p.baseName <;> simp

theorem lookup?_parent (h : d.openParent p = .ok ()) (hp : p ≠ []) (hs : p.endsInSlash = false) :
    d.lookup? p.parent = some .directory := by
  obtain ⟨hf, hdir, -⟩ := openParent_eq_ok_iff.1 h
  have hlookup := lookup?_of_stat hdir
  rwa [← Path.filter_of_fault? (Path.fault?_parent hf), Path.filter_parent hf hp hs] at hlookup

theorem write_eq_ok_iff {bytes : List UInt8} : d.write p bytes = .ok d' ↔
    d.openParent p = .ok () ∧ p.endsInSlash = false ∧ d.lookup? p ≠ some .directory ∧
      d' = d.put p (.file bytes) := by
  unfold write
  cases d.openParent p with
  | error e => simp [bind, Except.bind]
  | ok =>
    cases p.endsInSlash with
    | true => simp [bind, Except.bind, throw, throwThe, MonadExceptOf.throw]
    | false =>
      cases d.lookup? p with
      | none => simp [bind, Except.bind, eq_comm]
      | some e => cases e <;> simp [bind, Except.bind, eq_comm]

theorem rename_eq_ok_iff {source target : Path} : d.rename source target = .ok d' ↔
    ∃ e, d.stat source = .ok e ∧ d.openParent target = .ok () ∧ target.endsInSlash = false ∧
      d.lookup? target ≠ some .directory ∧ d' = (d.drop source).put target e := by
  unfold rename
  cases d.stat source with
  | error e => simp [bind, Except.bind]
  | ok e =>
    cases d.openParent target with
    | error e => simp [bind, Except.bind]
    | ok =>
      cases target.endsInSlash with
      | true => simp [bind, Except.bind, throw, throwThe, MonadExceptOf.throw]
      | false =>
        cases d.lookup? target with
        | none => simp [bind, Except.bind, eq_comm]
        | some e => cases e <;> simp [bind, Except.bind, eq_comm]

end

/-! ## Disks that agree -/

/-- Away from the paths `ps`, the second disk has what the first has, and maybe directories where
the first has nothing. -/
def AgreesOff (ps : List Path) (d d' : Disk) : Prop :=
  ∀ q, q ∉ ps → d'.lookup? q = d.lookup? q ∨ d.lookup? q = none ∧ d'.lookup? q = some .directory

namespace AgreesOff

variable {d d' d'' : Disk} {p : Path} {ps ps' : List Path}

theorem trans (h : AgreesOff ps d d') (h' : AgreesOff ps d' d'') : AgreesOff ps d d'' := by
  intro q hq
  rcases h' q hq with he' | ⟨hnone, hdir⟩
  · rw [he']
    exact h q hq
  · rcases h q hq with he | ⟨hnone', -⟩
    · exact .inr ⟨he ▸ hnone, hdir⟩
    · exact .inr ⟨hnone', hdir⟩

theorem mono (hps : ∀ q ∈ ps, q ∈ ps') (h : AgreesOff ps d d') : AgreesOff ps' d d' :=
  fun q hq => h q fun hq' => hq (hps q hq')

theorem put (d : Disk) (p : Path) (e : Entry) : AgreesOff [p] d (d.put p e) :=
  fun _ hq => .inl (lookup?_put_of_ne (List.ne_of_not_mem_cons hq))

theorem drop (d : Disk) (p : Path) : AgreesOff [p] d (d.drop p) :=
  fun _ hq => .inl (lookup?_drop_of_ne (List.ne_of_not_mem_cons hq))

theorem lookup? (h : AgreesOff ps d d') {q : Path} (hq : q ∉ ps) {e : Entry}
    (he : d.lookup? q = some e) : d'.lookup? q = some e := by
  rcases h q hq with heq | ⟨hnone, -⟩
  · rw [heq, he]
  · rw [he] at hnone
    cases hnone

/-- What is reached without passing the paths `ps` is reached as before. -/
theorem stat (h : AgreesOff ps d d') (hps : ∀ q ∈ ps, ¬ q <+: p.trimmed) {e : Entry}
    (he : d.stat p = .ok e) : d'.stat p = .ok e :=
  stat_mono (fun q hq _ => h.lookup? fun hmem => hps q hmem hq) he

theorem openParent (h : AgreesOff ps d d') (hps : ∀ q ∈ ps, ¬ q <+: p.parent.trimmed)
    (hp : d.openParent p = .ok ()) : d'.openParent p = .ok () := by
  rw [openParent_eq_ok_iff] at hp ⊢
  exact ⟨hp.1, h.stat hps hp.2.1, hp.2.2⟩

end AgreesOff

/-! ## File trees -/

/-- Whatever is kept on the disk lies in a directory. -/
def IsTree (d : Disk) : Prop := ∀ p n, d.lookup? (p ++ [n]) ≠ none → d.lookup? p = some .directory

/-- What is found at a path. -/
def at? (d : Disk) (p : Path) : Option Entry := (d.stat p).toOption

theorem at?_eq_some_iff {d : Disk} {p : Path} {e : Entry} : d.at? p = some e ↔ d.stat p = .ok e := by
  unfold at?
  cases d.stat p <;> simp [Except.toOption]

/-- Of finitely many entries it can be checked that they make a tree. -/
theorem isTree_of_entries {d : Disk}
    (h : ∀ q ∈ d.entries, d.lookup? q.1.dropLast = some .directory) : d.IsTree := by
  intro p n hn
  unfold lookup? at hn
  rw [if_neg (by simp), Ne, Option.map_eq_none_iff] at hn
  obtain ⟨q, hq⟩ := Option.ne_none_iff_exists'.1 hn
  have hpath : q.1 = p ++ [n] := by simpa using List.find?_some hq
  have hdir := h q (List.mem_of_find?_eq_some hq)
  rwa [hpath, List.dropLast_concat] at hdir

namespace IsTree

variable {d d' : Disk} {p : Path}

theorem lookup?_of_append (h : d.IsTree) {names : List Text} (hnames : names ≠ [])
    (hp : d.lookup? (p ++ names) ≠ none) : d.lookup? p = some .directory := by
  induction names generalizing p with
  | nil => exact absurd rfl hnames
  | cons n rest ih =>
    by_cases hrest : rest = []
    · subst hrest
      exact h p n hp
    · rw [List.append_cons] at hp
      exact h p n (by rw [ih hrest hp]; exact nofun)

theorem walk_cons_of_not_directory {place : Path} (h : d.lookup? place ≠ some .directory) (n : Text)
    (rest : List Text) (e : Entry) : d.walk place (n :: rest) ≠ .ok e := by
  rw [walk]
  split
  · exact absurd ‹_› h
  · exact nofun
  · exact nofun

theorem walk_eq_ok_iff (h : d.IsTree) {place : Path} {names : List Text} {e : Entry} :
    d.walk place names = .ok e ↔ (∀ n ∈ names, Path.isLongName n = false) ∧
      (names.getLast? = some [] → e = .directory) ∧
      d.lookup? (place ++ names.filter (· ≠ [])) = some e := by
  induction names generalizing place with
  | nil =>
    rw [walk, List.filter_nil, List.append_nil]
    cases d.lookup? place <;> simp
  | cons n rest ih =>
    by_cases hl : d.lookup? place = some .directory
    · rw [walk, hl, List.forall_mem_cons]
      dsimp only
      by_cases hn : n = []
      · rw [if_pos hn, ih, List.filter_cons_of_neg (by simp [hn]), hn,
          and_iff_right (by decide : Path.isLongName [] = false)]
        by_cases hrest : rest = []
        · rw [hrest, List.filter_nil, List.append_nil, hl]
          refine and_congr_right fun _ => ⟨fun h => ⟨fun _ => ?_, h.2⟩, fun h => ⟨nofun, h.2⟩⟩
          exact (Option.some.inj h.2).symm
        · rw [List.getLast?_cons_of_ne_nil hrest]
      · have hlast : (n :: rest).getLast? = some [] ↔ rest.getLast? = some [] := by
          by_cases hrest : rest = []
          · simp [hrest, hn]
          · rw [List.getLast?_cons_of_ne_nil hrest]
        rw [if_neg hn, List.filter_cons_of_pos (by simp [hn]), hlast]
        by_cases hlong : Path.isLongName n = true
        · simp [hlong]
        · rw [if_neg hlong, ih, and_iff_right (Bool.eq_false_iff.2 hlong), List.append_assoc,
            List.singleton_append]
    · -- the walk stops here, and nothing is kept further on
      refine iff_of_false (walk_cons_of_not_directory hl n rest e) ?_
      rintro ⟨-, hlast, hlookup⟩
      by_cases hempty : (n :: rest).filter (· ≠ []) = []
      · have hall : (n :: rest).getLast (List.cons_ne_nil _ _) = [] := by
          have := List.filter_eq_nil_iff.1 hempty _ (List.getLast_mem (List.cons_ne_nil n rest))
          simpa using this
        rw [hempty, List.append_nil] at hlookup
        rw [List.getLast?_eq_some_getLast (List.cons_ne_nil _ _), hall] at hlast
        rw [hlast rfl] at hlookup
        exact hl hlookup
      · exact hl (h.lookup?_of_append hempty (by rw [hlookup]; exact nofun))

/-- What is found at a path that can be asked about is what is kept there; after a slash only a
directory is found. -/
theorem at?_eq_some_iff (h : d.IsTree) {e : Entry} : d.at? p = some e ↔
    p.fault? = none ∧ (∀ n ∈ p, Path.isLongName n = false) ∧
      (p.endsInSlash = true → e = .directory) ∧ d.lookup? p.trimmed = some e := by
  rw [Disk.at?_eq_some_iff, stat]
  cases hf : p.fault? with
  | some e => simp
  | none =>
    rw [h.walk_eq_ok_iff, List.nil_append, Path.filter_of_fault? hf]
    simp [Path.endsInSlash]

/-- **On trees** what is found at a path depends on what is kept there alone. -/
theorem at?_congr (h : d.IsTree) (h' : d'.IsTree)
    (hp : d'.lookup? p.trimmed = d.lookup? p.trimmed) : d'.at? p = d.at? p := by
  ext e
  rw [h.at?_eq_some_iff, h'.at?_eq_some_iff, hp]

theorem put_file (h : d.IsTree) {bytes : List UInt8} (hs : p.endsInSlash = false)
    (hdir : d.lookup? p.parent = some .directory) (hfree : d.lookup? p ≠ some .directory) :
    (d.put p (.file bytes)).IsTree := by
  intro q n hn
  by_cases hpn : q ++ [n] = p
  · obtain rfl : p.parent = q := by
      rw [Path.parent, Path.trimmed_of_endsInSlash_eq_false hs, ← hpn, List.dropLast_concat]
    have hne : p.parent ≠ p := fun heq => hfree (by rwa [heq] at hdir)
    rwa [lookup?_put_of_ne hne]
  · rw [lookup?_put_of_ne hpn] at hn
    have hq := h q n hn
    have hne : q ≠ p := fun heq => hfree (by rwa [heq] at hq)
    rwa [lookup?_put_of_ne hne]

theorem drop (h : d.IsTree) (hp : d.lookup? p ≠ some .directory) : (d.drop p).IsTree := by
  intro q n hn
  by_cases hpn : q ++ [n] = p
  · rw [hpn, lookup?_drop_self d (hpn ▸ List.concat_ne_nil _ _)] at hn
    exact absurd rfl hn
  · rw [lookup?_drop_of_ne hpn] at hn
    have hq := h q n hn
    have hne : q ≠ p := fun heq => hp (by rwa [heq] at hq)
    rwa [lookup?_drop_of_ne hne]

theorem write (h : d.IsTree) {bytes : List UInt8} (hw : d.write p bytes = .ok d') :
    d'.IsTree := by
  obtain ⟨hopen, hs, hfree, rfl⟩ := write_eq_ok_iff.1 hw
  have hp : p ≠ [] := fun hp => hfree (by rw [hp]; rfl)
  exact h.put_file hs (lookup?_parent hopen hp hs) hfree

end IsTree

end Disk

end ModalEditor
