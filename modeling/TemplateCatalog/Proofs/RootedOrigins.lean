/-
Origins of files below the root.

A path that is joined to the root means the root, and then what it means alone
(`components_join_eq_plain`), however the two are written. So its origin is made of its own
components (`labelled_join`), and nothing of the root is left in it. An origin is a path again,
with the components that it was made of (`plain_origin`); only the label of the root of the
file system is not, as its one piece is empty.

The main result, `origins_undo_join`, says that the origin of a joined path is that path
without its `.` components; that files below the root have one origin only if the same
components lead to them from there, as an origin that is joined to the root leads to its file
again; and that the origin of an origin is that origin.
-/
import TemplateCatalog.Proofs.OriginLabels

namespace TemplateCatalog

namespace Path

/-! ### Relative paths -/

/-- The root is a component in front only. -/
theorem root_not_mem_tail_components (p : Text) : .root ∉ (components p).tail := by
  have hrest := root_not_mem_segments p
  rw [components_eq, front]
  split_ifs
  · exact hrest
  · exact hrest
  · exact fun h => hrest (List.mem_of_mem_tail h)

section Join

variable {root p : Text}

/-- What a relative path means are its segments. -/
theorem plain_eq_segments (hp : isAbsolute p = false) :
    plain p = (segments p).filterMap ofSegment := by
  have hfront : (front p).filter (· ≠ .current) = [] := by
    rw [front, hp, if_neg Bool.false_ne_true]
    split_ifs <;> rfl
  rw [plain, components_eq, List.filter_append, hfront, List.nil_append, filter_segments]

theorem root_mem_plain_iff : .root ∈ plain p ↔ isAbsolute p = true := by
  simp [plain, root_mem_components_iff]

/-- Behind another path a relative path means what it means alone. -/
theorem components_join_eq_plain (hroot : root ≠ []) (hp : isAbsolute p = false) :
    components (join root p) = components root ++ plain p := by
  rw [components_join hroot hp, plain_eq_segments hp]

/-- A path that is joined to the root is labelled by its own components. -/
theorem labelled_join (hp : isAbsolute p = false) :
    startsWith (join root p) root = true ∧ labelled root (join root p) = plain p := by
  by_cases hroot : root = []
  · subst hroot
    have hjoin : join [] p = p := by
      rw [join, hp]
      rfl
    rw [hjoin]
    exact ⟨rfl, rfl⟩
  · have hcomponents := components_join_eq_plain hroot hp
    have hstarts : startsWith (join root p) root = true :=
      startsWith_iff.2 (hcomponents ▸ List.prefix_append _ _)
    refine ⟨hstarts, ?_⟩
    rw [labelled, below, if_pos hstarts, hcomponents, List.drop_left, plain,
      List.filter_filter]
    simp

end Join

/-! ### Origins as paths -/

theorem not_isIdle_pieceText {c : Component} (h : IsLabel c) (hroot : c ≠ .root) :
    ¬IsIdle (pieceText c) := by
  cases c with
  | root => exact absurd rfl hroot
  | current => exact absurd rfl h.2
  | parent => rintro (hidle | hidle) <;> cases hidle
  | name s => exact h.1.1.not_idle

/-- A piece of a label is the segment of its component. -/
theorem ofSegment_pieceText {c : Component} (h : IsLabel c) (hroot : c ≠ .root) :
    ofSegment (pieceText c) = some c := by
  cases c with
  | root => exact absurd rfl hroot
  | current => exact absurd rfl h.2
  | parent => rfl
  | name s => exact ofSegment_childName h.1.1

theorem filterMap_pieceText {l : List Component} (hl : ∀ c ∈ l, IsLabel c)
    (hroot : .root ∉ l) : (l.map pieceText).filterMap ofSegment = l := by
  induction l with
  | nil => rfl
  | cons c l ih =>
    obtain ⟨hc, hl⟩ := List.forall_mem_cons.1 hl
    rw [List.mem_cons, not_or] at hroot
    rw [List.map_cons, List.filterMap_cons_some (ofSegment_pieceText hc (Ne.symm hroot.1)),
      ih hl hroot.2]

/-- Only a path from the root of the file system has an empty segment in front. -/
theorem isAbsolute_of_segments {p s : Text} {ss : List Text} (h : segments p = s :: ss)
    (hs : s ≠ []) : isAbsolute p = false := by
  cases p with
  | nil => rfl
  | cons c r =>
    by_contra habs
    obtain rfl : c = '/' := by simpa [isAbsolute] using habs
    rw [segments, if_pos rfl] at h
    exact hs (List.cons.inj h).1.symm

/-- The components that a label is made of are those of the label as a path, unless the only
piece is empty. -/
theorem components_label {l : List Component} (hl : ∀ c ∈ l, IsLabel c)
    (htail : .root ∉ l.tail) (hroot : l ≠ [.root]) :
    components (['/'].intercalate (l.map pieceText)) = l := by
  cases l with
  | nil => rfl
  | cons c l =>
    have hsegments : segments (['/'].intercalate ((c :: l).map pieceText)) = pieceText c ::
        l.map pieceText := by
      refine segments_intercalate (fun s hs => ?_) (List.cons_ne_nil _ _)
      obtain ⟨d, hd, rfl⟩ := List.mem_map.1 hs
      exact slash_not_mem_pieceText (hl d hd)
    have hrest := filterMap_pieceText (fun d hd => hl d (List.mem_cons_of_mem _ hd)) htail
    by_cases hc : c = .root
    · -- The empty piece of the root stands in front of another one, so there is a separator
      -- in front.
      subst hc
      have hne : l ≠ [] := fun hnil => hroot (by rw [hnil])
      obtain ⟨d, l, rfl⟩ := List.exists_cons_of_ne_nil hne
      rw [components_eq, front, hsegments, List.filterMap_cons_none rfl, hrest, List.map_cons,
        List.map_cons, List.intercalate_cons_cons]
      rfl
    · have hpiece := ofSegment_pieceText (hl c List.mem_cons_self) hc
      have hidle := not_isIdle_pieceText (hl c List.mem_cons_self) hc
      have habs := isAbsolute_of_segments hsegments fun hnil => hidle (Or.inl hnil)
      rw [components_eq, front, habs, if_neg Bool.false_ne_true, hsegments, if_neg ?_,
        List.nil_append, List.filterMap_cons_some hpiece, hrest]
      simpa using fun hcurrent => hidle (Or.inr hcurrent)

theorem root_not_mem_tail_labelled (root file : Text) : .root ∉ (labelled root file).tail := by
  have hsublist : (labelled root file).Sublist (components file) := by
    refine List.filter_sublist.trans ?_
    rw [below]
    split_ifs
    · exact List.drop_sublist _ _
    · exact List.Sublist.refl _
  exact fun h => root_not_mem_tail_components file (hsublist.tail.subset h)

/-- As a path, an origin means what labels the file. -/
theorem plain_origin {root file : Text} (h : labelled root file ≠ [.root]) :
    plain (origin root file) = labelled root file := by
  have hlabel : ∀ c ∈ labelled root file, IsLabel c := fun c hc => isLabel_of_mem_labelled hc
  rw [origin_eq_intercalate, plain,
    components_label hlabel (root_not_mem_tail_labelled root file) h]
  exact List.filter_eq_self.2 fun c hc => decide_eq_true (hlabel c hc).2

/-- Below the empty root a path is labelled by all that it means. -/
theorem labelled_nil (file : Text) : labelled [] file = plain file := rfl

theorem origin_origin (root file : Text) :
    origin [] (origin root file) = origin root file := by
  by_cases h : labelled root file = [.root]
  · rw [origin_eq_intercalate root file, h]
    rfl
  · rw [origin_eq_intercalate [], labelled_nil, plain_origin h, ← origin_eq_intercalate]

/-! ### Files below the root -/

/-- The file lies below the root, at a relative path from there. -/
def LiesBelow (root file : Text) : Prop := startsWith file root = true ∧
    .root ∉ labelled root file

instance (root file : Text) : Decidable (LiesBelow root file) :=
  inferInstanceAs (Decidable (startsWith file root = true ∧ .root ∉ labelled root file))

theorem liesBelow_join {root p : Text} (hp : isAbsolute p = false) :
    LiesBelow root (join root p) := by
  refine ⟨(labelled_join hp).1, ?_⟩
  rw [(labelled_join hp).2, root_mem_plain_iff, hp]
  exact Bool.false_ne_true

namespace LiesBelow

variable {root file : Text}

theorem plain_origin (h : LiesBelow root file) :
    plain (origin root file) = labelled root file :=
  Path.plain_origin fun hroot => h.2 (hroot ▸ List.mem_singleton_self _)

theorem isAbsolute_origin (h : LiesBelow root file) :
    isAbsolute (origin root file) = false := by
  rw [← Bool.not_eq_true, ← root_mem_plain_iff, h.plain_origin]
  exact h.2

/-- Joined to the root, the origin of a file leads to the file again. -/
theorem plain_join_origin (h : LiesBelow root file) :
    plain (join root (origin root file)) = plain file := by
  obtain ⟨hstarts, hlabelled⟩ := @labelled_join root _ h.isAbsolute_origin
  rw [plain_of_startsWith hstarts, hlabelled, h.plain_origin, plain_of_startsWith h.1]

/-- The origin tells a file below the root from the others there. -/
theorem origin_eq_iff {other : Text} (h : LiesBelow root file) (h' : LiesBelow root other) :
    origin root file = origin root other ↔ labelled root file = labelled root other := by
  constructor
  · intro horigin
    rw [← h.plain_origin, horigin, h'.plain_origin]
  · intro hlabelled
    rw [origin_eq_intercalate, hlabelled, ← origin_eq_intercalate]

end LiesBelow

/-- **Origins undo joining with the root.** However the root is written, the origin of a
relative path that is joined to it has the components of that path without `.`, with `/`
between them. Of files below the root, two have one origin exactly if the same components lead
to them from there, and an origin that is joined to the root leads to its file again. Below the
empty root the origin of any origin is that origin. -/
theorem origins_undo_join (root : Text) :
    (∀ p, isAbsolute p = false →
      LiesBelow root (join root p) ∧ labelled root (join root p) = plain p ∧
        origin root (join root p) = ['/'].intercalate ((plain p).map pieceText)) ∧
    (∀ file other, LiesBelow root file → LiesBelow root other →
      (origin root file = origin root other ↔ labelled root file = labelled root other)) ∧
    (∀ file, LiesBelow root file →
      isAbsolute (origin root file) = false ∧
        plain (join root (origin root file)) = plain file) ∧
    ∀ file, origin [] (origin root file) = origin root file := by
  refine ⟨fun p hp => ⟨liesBelow_join hp, (labelled_join hp).2, ?_⟩, fun _ _ hfile hother =>
    ?_, fun _ hfile => ⟨hfile.isAbsolute_origin, hfile.plain_join_origin⟩, origin_origin root⟩
  · rw [origin_eq_intercalate, (labelled_join hp).2]
  · exact hfile.origin_eq_iff hother

/-- A root with a `.` in front and at its end, and with a separator too many. -/
def redundantRoot : Text := "./site//.".toList

/-- Below a root that is written with idle segments, a path keeps its names and its `..`; files
are told apart however they are written, and found again; and a label from the root of the file
system stays as it is. -/
theorem origins_undo_join_redundantRoot :
    origin redundantRoot (join redundantRoot "./a//./../b.html".toList) =
      "a/../b.html".toList ∧
      LiesBelow redundantRoot "./site/b.html".toList ∧
        LiesBelow redundantRoot ".//site/c.html".toList ∧
      origin redundantRoot "./site/b.html".toList ≠
        origin redundantRoot ".//site/c.html".toList ∧
      plain (join redundantRoot "c.html".toList) = plain ".//site/c.html".toList ∧
      origin [] (origin redundantRoot "//etc/./b.html".toList) = "/etc/b.html".toList := by
  obtain ⟨hjoin, hbelow, hback, hagain⟩ := origins_undo_join redundantRoot
  have hb : LiesBelow redundantRoot "./site/b.html".toList := by decide
  have hc : LiesBelow redundantRoot ".//site/c.html".toList := by decide
  have horigin : origin redundantRoot ".//site/c.html".toList = "c.html".toList := by decide
  refine ⟨(hjoin "./a//./../b.html".toList (by decide)).2.2.trans (by decide), hb, hc,
    fun h => ?_, horigin ▸ (hback _ hc).2, (hagain "//etc/./b.html".toList).trans (by decide)⟩
  exact absurd ((hbelow _ _ hb hc).1 h) (by decide)

end Path

end TemplateCatalog
