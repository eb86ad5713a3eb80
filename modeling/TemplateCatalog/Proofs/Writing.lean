/-
Writing one file.

A write that succeeds puts a file at the place its path names, in a directory that is there
(`Opens`, `write_eq_ok_iff`), and nothing else changes (`WrittenAt`). The trees before and
after agree off that place (`AgreeOff`), and of such trees neither knows more than the other
but for the one place: a path of the one leads to the same place in the other, unless it leads
to that very place (`AgreeOff.locate_cases`), and the directories are the same
(`AgreeOff.isDirectory_eq`). After a write, moreover, paths lead where they led before
(`WrittenAt.locate_mono`), what is read elsewhere is the same (`WrittenAt.read_eq_ok_iff`), and
the file can be written again (`Opens.again`).
-/
import TemplateCatalog.Proofs.FileIndependence
import TemplateCatalog.Proofs.Places

namespace TemplateCatalog

namespace FileTree

open TemplateCatalog.Path

/-! ### What leads where -/

theorem existsAt_iff {t : FileTree} {path : Text} :
    t.existsAt path = true ↔ ∃ q, t.locate path = .ok q ∧ (t.at? q).isSome := by
  rw [existsAt, find]
  cases t.locate path with
  | error e => simp
  | ok q => cases hq : t.at? q <;> simp [hq]

theorem isDirectory_iff {t : FileTree} {path : Text} :
    t.isDirectory path = true ↔ ∃ q, t.locate path = .ok q ∧ t.at? q = some .directory := by
  rw [isDirectory, find]
  cases t.locate path with
  | error e => simp
  | ok q =>
    cases hq : t.at? q with
    | none => simp [hq]
    | some item => cases item <;> simp [hq]

theorem read_eq_ok_iff {t : FileTree} {path source : Text} :
    t.read path = .ok source ↔
      ∃ q bytes, t.locate path = .ok q ∧ t.at? q = some (.file bytes) ∧
        decodeText? bytes = some source := by
  rw [read, find]
  cases t.locate path with
  | error e => simp
  | ok q =>
    cases hq : t.at? q with
    | none => simp [hq]
    | some item =>
      cases item with
      | directory => simp [hq]
      | file bytes => cases hs : decodeText? bytes <;> simp [hq, hs]

/-! ### Trees that agree off a place -/

/-- The trees are the same but for what is at `p`, which is no directory and, if there is
anything, can be reached. -/
structure AgreeOff (t u : FileTree) (p : Place) : Prop where
  here : u.here = t.here
  free : t.at? p ≠ some .directory ∧ u.at? p ≠ some .directory
  elsewhere : ∀ q, q ≠ p → u.at? q = t.at? q
  listed : ∀ q item, q ≠ p → ((q, item) ∈ u.entries ↔ (q, item) ∈ t.entries)
  reached : ∀ item, ((p, item) ∈ t.entries → t.Reached p) ∧
    ((p, item) ∈ u.entries → u.Reached p)

/-- Trees that are the same but for what is at `p`, which is no directory, have the same
directories. -/
theorem directory_iff_of_elsewhere {t u : FileTree} {p : Place}
    (free : t.at? p ≠ some .directory ∧ u.at? p ≠ some .directory)
    (elsewhere : ∀ q, q ≠ p → u.at? q = t.at? q) (q : Place) :
    u.at? q = some .directory ↔ t.at? q = some .directory := by
  by_cases hq : q = p
  · exact hq ▸ iff_of_false free.2 free.1
  · rw [elsewhere q hq]

namespace AgreeOff

variable {t u : FileTree} {p : Place}

theorem symm (h : t.AgreeOff u p) : u.AgreeOff t p :=
  ⟨h.here.symm, h.free.symm, fun q hq => (h.elsewhere q hq).symm,
    fun q item hq => (h.listed q item hq).symm, fun item => (h.reached item).symm⟩

theorem directory_iff (h : t.AgreeOff u p) (q : Place) :
    u.at? q = some .directory ↔ t.at? q = some .directory :=
  directory_iff_of_elsewhere h.free h.elsewhere q

/-- A step that the other tree does not have leads to the place. -/
theorem steps_cases (h : t.AgreeOff u p) {q r : Place} {s : Text} (hs : u.Steps q s r) :
    r = p ∨ t.Steps q s r := by
  cases hs with
  | idle hq hs => exact Or.inr (.idle ((h.directory_iff _).1 hq) hs)
  | back hq hs => exact Or.inr (.back ((h.directory_iff _).1 hq) hs)
  | enter hq hs there =>
    by_cases hr : q ++ [s] = p
    · exact Or.inl hr
    · exact Or.inr (.enter ((h.directory_iff _).1 hq) hs (h.elsewhere _ hr ▸ there))

theorem follow_cases (h : t.AgreeOff u p) {q r : Place} {ss : List Text}
    (hr : u.follow q ss = .ok r) : r = p ∨ t.follow q ss = .ok r := by
  induction ss generalizing q with
  | nil => exact Or.inr hr
  | cons s ss ih =>
    obtain ⟨q', hq', hr⟩ := follow_cons_eq_ok_iff.1 hr
    rcases h.steps_cases hq' with rfl | hq'
    · -- No step leads on from what is no directory, so this was the last one.
      cases ss with
      | nil => exact Or.inl (follow_nil_eq_ok_iff.1 hr)
      | cons s' ss =>
        obtain ⟨q'', hq'', -⟩ := follow_cons_eq_ok_iff.1 hr
        exact absurd hq''.directory h.free.2
    · exact (ih hr).imp_right fun hr => follow_cons_eq_ok_iff.2 ⟨q', hq', hr⟩

theorem start_eq (h : t.AgreeOff u p) (path : Text) : u.start path = t.start path := by
  rw [start, start, h.here]

theorem locate_cases (h : t.AgreeOff u p) {path : Text} {q : Place}
    (hq : u.locate path = .ok q) : q = p ∨ t.locate path = .ok q := by
  obtain ⟨hne, hq⟩ := locate_eq_ok_iff.1 hq
  rw [h.start_eq] at hq
  exact (h.follow_cases hq).imp_right fun hq => locate_eq_ok_iff.2 ⟨hne, hq⟩

theorem existsAt_cases (h : t.AgreeOff u p) {path : Text} (he : u.existsAt path = true) :
    u.locate path = .ok p ∨ t.existsAt path = true := by
  obtain ⟨q, hq, there⟩ := existsAt_iff.1 he
  by_cases hqp : q = p
  · exact Or.inl (hqp ▸ hq)
  · refine Or.inr (existsAt_iff.2 ⟨q, (h.locate_cases hq).resolve_left hqp, ?_⟩)
    rwa [← h.elsewhere q hqp]

theorem locate_directory (h : t.AgreeOff u p) {path : Text} {q : Place}
    (hq : u.locate path = .ok q) (hdir : u.at? q = some .directory) :
    t.locate path = .ok q ∧ t.at? q = some .directory := by
  have hqp : q ≠ p := by
    rintro rfl
    exact h.free.2 hdir
  exact ⟨(h.locate_cases hq).resolve_left hqp, (h.directory_iff q).1 hdir⟩

theorem isDirectory_eq (h : t.AgreeOff u p) (path : Text) :
    u.isDirectory path = t.isDirectory path := by
  rw [Bool.eq_iff_iff, isDirectory_iff, isDirectory_iff]
  constructor
  · rintro ⟨q, hq, hdir⟩
    exact ⟨q, h.locate_directory hq hdir⟩
  · rintro ⟨q, hq, hdir⟩
    exact ⟨q, h.symm.locate_directory hq hdir⟩

end AgreeOff

/-! ### Putting a file in its place -/

/-- The tree `u` is `t` with a file at `p`, which was no directory. -/
structure WrittenAt (t u : FileTree) (p : Place) (bytes : ByteArray) : Prop where
  working : u.working = t.working
  free : t.at? p ≠ some .directory
  there : u.at? p = some (.file bytes)
  elsewhere : ∀ q, q ≠ p → u.at? q = t.at? q
  listed : ∀ q item, (q, item) ∈ u.items ↔
    if q = p then item = .file bytes else (q, item) ∈ t.items

theorem mem_replace_iff {t : FileTree} {p q : Place} {item new : Item} :
    (q, item) ∈ (t.replace p new).items ↔
      if q = p then item = new ∧ ∃ old, (p, old) ∈ t.items else (q, item) ∈ t.items := by
  rw [replace, List.mem_map]
  constructor
  · rintro ⟨⟨k, old⟩, hmem, hk⟩
    dsimp only at hk
    split_ifs at hk with hkp
    · cases hk
      rw [if_pos hkp]
      exact ⟨rfl, old, hkp ▸ hmem⟩
    · cases hk
      rwa [if_neg hkp]
  · intro h
    split_ifs at h with hqp
    · obtain ⟨rfl, old, hmem⟩ := h
      exact ⟨(p, old), hmem, by rw [hqp]; exact if_pos rfl⟩
    · exact ⟨(q, item), h, if_neg hqp⟩

/-- What is put at a place is listed there alone. -/
theorem mem_set_iff {t : FileTree} {p q : Place} {item new : Item} (hp : ¬p <+: t.here) :
    (q, item) ∈ (t.set p new).items ↔ if q = p then item = new else (q, item) ∈ t.items := by
  rw [set]
  cases hat : t.at? p with
  | some old =>
    have hold := (mem_entries_iff.1 (mem_entries_of_at? hat)).resolve_left fun h => hp h.1
    dsimp only
    rw [mem_replace_iff]
    split_ifs
    · exact and_iff_left ⟨old, hold.2⟩
    · rfl
  | none =>
    dsimp only
    rw [List.mem_append, List.mem_singleton, Prod.mk.injEq]
    split_ifs with hqp
    · subst hqp
      refine (or_iff_right fun hmem => ?_).trans (and_iff_right rfl)
      exact not_mem_entries_of_at? hat item (mem_entries_iff.2 (Or.inr ⟨hp, hmem⟩))
    · exact or_iff_left fun h => hqp h.1

theorem working_set (t : FileTree) (p : Place) (item : Item) :
    (t.set p item).working = t.working := by
  rw [set]
  split <;> rfl

theorem at?_set {t : FileTree} {p : Place} (item : Item) (hp : ¬p <+: t.here) (q : Place) :
    (t.set p item).at? q = if q = p then some item else t.at? q := by
  rw [set]
  cases hat : t.at? p with
  | some old =>
    dsimp only
    rw [at?_replace t item hp]
    split_ifs with hqp
    · rw [hqp, hat, Option.map_some]
    · rfl
  | none =>
    dsimp only
    -- What was not there is listed behind the others, so all other places keep what they have.
    rw [at?_eq_of_apart hp] at hat
    by_cases hq : q <+: t.here
    · have hqp : q ≠ p := fun hqp => hp (hqp ▸ hq)
      rw [if_neg hqp, at?_eq_of_around hq]
      exact at?_eq_of_around (t := { t with items := t.items ++ [(p, item)] }) hq
    · rw [at?_eq_of_apart hq,
        at?_eq_of_apart (t := { t with items := t.items ++ [(p, item)] }) hq,
        List.lookup_append, List.lookup_cons, List.lookup_nil]
      by_cases hqp : q = p
      · simp [hqp, hat]
      · simp [hqp, beq_false_of_ne hqp]

theorem writtenAt_set {t : FileTree} {p : Place} (bytes : ByteArray)
    (h : t.at? p ≠ some .directory) : t.WrittenAt (t.set p (.file bytes)) p bytes := by
  have hp : ¬p <+: t.here := not_prefix_of_at? h
  refine ⟨t.working_set p _, h, ?_, fun q hq => ?_, fun _ _ => mem_set_iff hp⟩
  · rw [at?_set _ hp, if_pos rfl]
  · rw [at?_set _ hp, if_neg hq]

/-! ### Writing at a path -/

/-- A path opens a place for writing: all but its last segment lead to a directory, which has
no directory of the last name in it. -/
inductive Opens (t : FileTree) (path : Text) : Place → Prop
  | intro {front : List Text} {p : Place} {last : Text}
      (hpath : segments path = front ++ [last]) (hlast : IsChildName last)
      (hfront : t.follow (t.start path) front = .ok p) (hp : t.at? p = some .directory)
      (free : t.at? (p ++ [last]) ≠ some .directory) : Opens t path (p ++ [last])

theorem Opens.free {t : FileTree} {path : Text} {p : Place} (h : t.Opens path p) :
    t.at? p ≠ some .directory := by
  cases h with
  | intro _ _ _ _ free => exact free

theorem Opens.writtenAt {t : FileTree} {path : Text} {p : Place} (h : t.Opens path p)
    (bytes : ByteArray) : t.WrittenAt (t.set p (.file bytes)) p bytes :=
  writtenAt_set bytes h.free

/-- What is left of the segments without empty ones at their end is all of them, if the last
one is not empty. -/
theorem eq_of_dropWhile_reverse {ss front : List Text} {last : Text}
    (hslash : ¬(ss.reverse.head? == some []) = true)
    (h : ss.reverse.dropWhile List.isEmpty = last :: front) :
    last ≠ [] ∧ ss = front.reverse ++ [last] := by
  cases hr : ss.reverse with
  | nil =>
    rw [hr] at h
    cases h
  | cons s rest =>
    have hs : s ≠ [] := by simpa [hr] using hslash
    have hempty : ¬s.isEmpty = true := fun he => hs (List.isEmpty_iff.1 he)
    rw [hr, List.dropWhile_cons_of_neg hempty] at h
    cases h
    exact ⟨hs, by rw [← List.reverse_reverse ss, hr, List.reverse_cons]⟩

/-- A write succeeds exactly if the path opens a place, and puts the file there. -/
theorem write_eq_ok_iff {t u : FileTree} {path : Text} {bytes : ByteArray} :
    t.write path bytes = .ok u ↔ ∃ p, t.Opens path p ∧ u = t.set p (.file bytes) := by
  constructor
  · intro h
    rw [write] at h
    split at h
    · split_ifs at h
    · rename_i last front hreversed
      split at h
      · cases h
      · rename_i p hfront
        rw [writeInto] at h
        split at h
        · cases h
        · cases h
        · rename_i hp
          -- The last segment must be a name, in a directory that is there.
          split_ifs at h with hname
          split at h
          · cases h
          · rename_i hfree
            cases h
            rw [not_or, not_or] at hname
            obtain ⟨hslash, hcurrent, hparent⟩ := hname
            obtain ⟨hne, hpath⟩ := eq_of_dropWhile_reverse hslash hreversed
            have hlast : IsChildName last := ⟨not_or.2 ⟨hne, hcurrent⟩, hparent⟩
            exact ⟨_, .intro hpath hlast hfront hp hfree, rfl⟩
  · rintro ⟨p, ⟨hpath, hlast, hfront, hp, free⟩, rfl⟩
    rename_i front p last
    have hne : last ≠ [] := fun h => hlast.not_idle (Or.inl h)
    have hempty : ¬last.isEmpty = true := fun h => hne (List.isEmpty_iff.1 h)
    have hcurrent : last ≠ ['.'] := fun h => hlast.not_idle (Or.inr h)
    have hreversed : (segments path).reverse = last :: front.reverse := by
      rw [hpath, List.reverse_append, List.reverse_singleton, List.singleton_append]
    rw [write, hreversed, List.dropWhile_cons_of_neg hempty]
    dsimp only
    rw [List.reverse_reverse, hfront]
    dsimp only
    rw [writeInto, hp]
    dsimp only
    rw [if_neg (by simp [hne, hcurrent, hlast.ne_parent])]
    split
    · rename_i hat
      exact absurd hat free
    · rfl

namespace WrittenAt

variable {t u : FileTree} {p : Place} {bytes : ByteArray}

theorem not_directory (h : t.WrittenAt u p bytes) : u.at? p ≠ some .directory := by
  rw [h.there]
  exact nofun

theorem here (h : t.WrittenAt u p bytes) : u.here = t.here := congrArg placeOf h.working

theorem agreeOff (h : t.WrittenAt u p bytes) (hp : u.Reached p) : t.AgreeOff u p := by
  refine ⟨h.here, ⟨h.free, h.not_directory⟩, h.elsewhere, fun q item hq => ?_,
    fun item => ⟨fun hmem => ?_, fun _ => hp⟩⟩
  · rw [mem_entries_iff, mem_entries_iff, h.here, h.listed, if_neg hq]
  · refine ⟨hp.names, fun q hq hne => ?_, ?_⟩
    · rw [← h.elsewhere q hne, hp.directories q hq hne]
    · by_contra hnone
      exact not_mem_entries_of_at? (Option.not_isSome_iff_eq_none.1 hnone) item hmem

theorem directory_iff (h : t.WrittenAt u p bytes) (q : Place) :
    u.at? q = some .directory ↔ t.at? q = some .directory :=
  directory_iff_of_elsewhere ⟨h.free, h.not_directory⟩ h.elsewhere q

theorem steps_mono (h : t.WrittenAt u p bytes) {q r : Place} {s : Text} (hs : t.Steps q s r) :
    u.Steps q s r := by
  cases hs with
  | idle hq hs => exact .idle ((h.directory_iff q).2 hq) hs
  | back hq hs => exact .back ((h.directory_iff q).2 hq) hs
  | enter hq hs there =>
    refine .enter ((h.directory_iff q).2 hq) hs ?_
    by_cases hr : q ++ [s] = p
    · rw [hr, h.there]
      rfl
    · rwa [h.elsewhere _ hr]

theorem follow_mono (h : t.WrittenAt u p bytes) {q r : Place} {ss : List Text}
    (hr : t.follow q ss = .ok r) : u.follow q ss = .ok r := by
  induction ss generalizing q with
  | nil => exact hr
  | cons s ss ih =>
    obtain ⟨q', hq', hr⟩ := follow_cons_eq_ok_iff.1 hr
    exact follow_cons_eq_ok_iff.2 ⟨q', h.steps_mono hq', ih hr⟩

theorem start_eq (h : t.WrittenAt u p bytes) (path : Text) : u.start path = t.start path := by
  rw [start, start, h.here]

/-- A path leads where it led before. -/
theorem locate_mono (h : t.WrittenAt u p bytes) {path : Text} {q : Place}
    (hq : t.locate path = .ok q) : u.locate path = .ok q := by
  obtain ⟨hne, hq⟩ := locate_eq_ok_iff.1 hq
  exact locate_eq_ok_iff.2 ⟨hne, h.start_eq path ▸ h.follow_mono hq⟩

/-- A path to another place reads the same text, if it reads any. -/
theorem read_eq_ok_iff (h : t.WrittenAt u p bytes) (hp : u.Reached p) {path source : Text}
    (hpath : u.locate path ≠ .ok p) : u.read path = .ok source ↔ t.read path = .ok source := by
  rw [FileTree.read_eq_ok_iff, FileTree.read_eq_ok_iff]
  refine exists_congr fun q => exists_congr fun b => ?_
  by_cases hq : q = p
  · subst hq
    exact iff_of_false (fun hr => hpath hr.1) (fun hr => hpath (h.locate_mono hr.1))
  · rw [h.elsewhere q hq]
    exact and_congr_left fun _ =>
      ⟨fun hr => ((h.agreeOff hp).locate_cases hr).resolve_left hq, h.locate_mono⟩

end WrittenAt

/-- A name alone opens its place in the working directory. -/
theorem opens_name {t : FileTree} {name : Text} (h : IsChildName name) (hslash : '/' ∉ name)
    (free : t.at? (t.here ++ [name]) ≠ some .directory) : t.Opens name (t.here ++ [name]) := by
  refine @Opens.intro t name [] t.here name (segments_of_not_mem hslash) h ?_ t.at?_here free
  rw [start_relative (isAbsolute_of_not_mem hslash)]
  rfl

theorem existsAt_name {t : FileTree} {name : Text} (h : IsChildName name)
    (hslash : '/' ∉ name) : t.existsAt name = (t.at? (t.here ++ [name])).isSome := by
  rw [Bool.eq_iff_iff, existsAt_iff]
  simp only [locate_name_eq_ok_iff h hslash]
  constructor
  · rintro ⟨q, ⟨-, there⟩, -⟩
    exact there
  · exact fun there => ⟨_, ⟨rfl, there⟩, there⟩

namespace Opens

variable {t u : FileTree} {path : Text} {p : Place} {bytes : ByteArray}

/-- The path that was written to leads to the file. -/
theorem locate_eq (h : t.Opens path p) (hu : t.WrittenAt u p bytes) :
    u.locate path = .ok p := by
  cases h with
  | @intro front q last hpath hlast hfront hq free =>
    have hne : path ≠ [] := by
      rintro rfl
      have hnil : front = [] ∧ last = [] := by
        simpa [segments, List.append_eq_cons_iff] using hpath.symm
      exact hlast.not_idle (Or.inl hnil.2)
    refine locate_eq_ok_iff.2 ⟨hne, ?_⟩
    rw [hpath, hu.start_eq, follow_append_eq_ok_iff]
    refine ⟨q, hu.follow_mono hfront, follow_cons_eq_ok_iff.2 ⟨_, ?_, rfl⟩⟩
    exact .enter ((hu.directory_iff q).2 hq) hlast (hu.there ▸ rfl)

theorem read_eq {source : Text} (h : t.Opens path p)
    (hu : t.WrittenAt u p (encodeText source)) : u.read path = .ok source :=
  FileTree.read_eq_ok_iff.2 ⟨p, _, h.locate_eq hu, hu.there, decodeText?_encodeText source⟩

/-- What can be written can be written again. -/
theorem again (h : t.Opens path p) (hu : t.WrittenAt u p bytes) : u.Opens path p := by
  cases h with
  | intro hpath hlast hfront hq free =>
    refine .intro hpath hlast ?_ ((hu.directory_iff _).2 hq) hu.not_directory
    rw [hu.start_eq]
    exact hu.follow_mono hfront

end Opens

end FileTree

end TemplateCatalog
