/-
Catalogs can be read back.

A catalog of the strings of a template has one call a line, and the parts of an entry are read
off its call again, as they are written between quotes (`readGettext?`, `readLinguist?`). The
main result, `catalogs_read_back`, holds for every template whose extraction succeeds and every
origin without backslash and line feed; it has the lines of both formats, the one reading of
each call, what is read, and that the calls of the two formats for one entry agree.
-/
import TemplateCatalog.Proofs.CallReading
import TemplateCatalog.Proofs.LineColumn
import TemplateCatalog.Proofs.Pairing

namespace TemplateCatalog

open Text

namespace Catalog

/-! ### The calls of an entry -/

/-- The literal of a text, as an argument. -/
def CallArgument.ofText (s : Text) : CallArgument := .literal (literalBody s)

theorem CallArgument.complete_ofText {s : Text} (h : Paired s) : (ofText s).Complete :=
  ⟨quoted_literalBody h, not_mem_literalBody h⟩

/-- The gettext call of an entry. -/
def Call.ofGettext (e : Entry) : Call where
  function := gettextFunction e
  arguments := (if e.hasContext then [.ofText e.context] else []) ++ .ofText e.message ::
    (if e.hasPlural then [.ofText e.plural] else [])

theorem Call.toText_ofGettext (e : Entry) : (ofGettext e).toText = gettextCall e := by
  rw [toText, gettextCall, ofGettext, gettextArguments]
  cases e.hasContext <;> cases e.hasPlural <;> rfl

/-- The function of Linguist calls. -/
def linguistFunction : Text := "QCoreApplication::translate".toList

/-- The Linguist call of an entry. -/
def Call.ofLinguist (origin : Text) (e : Entry) : Call where
  function := linguistFunction
  arguments := .ofText origin :: .ofText e.message ::
    ((if e.hasContext || e.hasPlural then [.ofText e.context] else []) ++
      (if e.hasPlural then [.count] else []))

theorem Call.toText_ofLinguist (origin : Text) (e : Entry) :
    (ofLinguist origin e).toText = linguistCall origin e := by
  refine congrArg (call linguistFunction) ?_
  rw [ofLinguist, linguistArguments]
  cases e.hasContext <;> cases e.hasPlural <;> rfl

theorem gettextFunction_ne_nil (e : Entry) : gettextFunction e ≠ [] := by
  rw [gettextFunction]
  cases e.hasContext <;> cases e.hasPlural <;> decide

theorem isFunctionChar_gettextFunction (e : Entry) :
    ∀ c ∈ gettextFunction e, isFunctionChar c = true := by
  refine List.all_eq_true.1 ?_
  rw [gettextFunction]
  cases e.hasContext <;> cases e.hasPlural <;> decide

theorem Call.wellFormed_ofGettext {e : Entry} (h : e.Paired) : (ofGettext e).WellFormed := by
  refine ⟨gettextFunction_ne_nil e, isFunctionChar_gettextFunction e, by simp [ofGettext], ?_⟩
  have hc := CallArgument.complete_ofText h.context
  have hm := CallArgument.complete_ofText h.message
  have hp := CallArgument.complete_ofText h.plural
  rw [ofGettext]
  cases e.hasContext <;> cases e.hasPlural <;> simp [hc, hm, hp]

theorem Call.wellFormed_ofLinguist {origin : Text} {e : Entry} (ho : Paired origin)
    (h : e.Paired) : (ofLinguist origin e).WellFormed := by
  have hne : linguistFunction ≠ [] := by decide
  have hchars : linguistFunction.all isFunctionChar = true := by decide
  refine ⟨hne, List.all_eq_true.1 hchars, by simp [ofLinguist], ?_⟩
  have ho := CallArgument.complete_ofText ho
  have hc := CallArgument.complete_ofText h.context
  have hm := CallArgument.complete_ofText h.message
  have hcount : CallArgument.count.Complete := trivial
  rw [ofLinguist]
  cases e.hasContext <;> cases e.hasPlural <;> simp [ho, hc, hm, hcount]

/-! ### Reading entries -/

/-- The parts of an entry in a gettext call, as they are written; a part that is not given is
empty. -/
def Call.gettextEntry? (c : Call) : Option Entry :=
  match c.arguments with
  | [.literal a] => if c.function = "gettext".toList then some ⟨a, [], []⟩ else none
  | [.literal a, .literal b] =>
    if c.function = "pgettext".toList then some ⟨b, a, []⟩
    else if c.function = "ngettext".toList then some ⟨a, [], b⟩
    else none
  | [.literal a, .literal b, .literal d] =>
    if c.function = "npgettext".toList then some ⟨b, a, d⟩ else none
  | _ => none

/-- The parts of an entry in a line of a gettext catalog. -/
def readGettext? (line : Text) : Option Entry := (Call.read? line).bind Call.gettextEntry?

/-- What a Linguist call has of an entry. -/
structure LinguistEntry where
  message : Text
  context : Text
  hasPlural : Bool
  deriving DecidableEq, Repr

/-- The parts of an entry in a Linguist call, as they are written. -/
def Call.linguistEntry? (c : Call) : Option LinguistEntry :=
  if c.function = linguistFunction then
    match c.arguments with
    | [.literal _, .literal m] => some ⟨m, [], false⟩
    | [.literal _, .literal m, .literal d] => some ⟨m, d, false⟩
    | [.literal _, .literal m, .literal d, .count] => some ⟨m, d, true⟩
    | _ => none
  else none

/-- The parts of an entry in a line of a Linguist catalog. -/
def readLinguist? (line : Text) : Option LinguistEntry :=
  (Call.read? line).bind Call.linguistEntry?

/-- The entry as it is written between quotes. -/
def written (e : Entry) : Entry :=
  ⟨literalBody e.message, literalBody e.context, literalBody e.plural⟩

theorem hasPlural_written {e : Entry} (h : e.Paired) :
    (written e).hasPlural = e.hasPlural := by
  have hp := literalBody_eq_nil_iff h.plural
  rw [Entry.hasPlural, Entry.hasPlural, Bool.eq_iff_iff]
  simp [written, hp]

theorem context_eq_nil {e : Entry} (h : e.hasContext = false) : e.context = [] := by
  simpa [Entry.hasContext] using h

theorem plural_eq_nil {e : Entry} (h : e.hasPlural = false) : e.plural = [] := by
  simpa [Entry.hasPlural] using h

theorem readGettext?_gettextCall {e : Entry} (h : e.Paired) :
    readGettext? (gettextCall e) = some (written e) := by
  have hr := Call.read?_eq_some_iff.2 ⟨Call.wellFormed_ofGettext h, Call.toText_ofGettext e⟩
  rw [readGettext?, hr, Option.bind_some, Call.gettextEntry?, Call.ofGettext, gettextFunction,
    written]
  -- A part that is not given is empty, and so is its place in what is read.
  cases hc : e.hasContext with
  | false =>
    rw [context_eq_nil hc]
    cases hp : e.hasPlural with
    | false =>
      rw [plural_eq_nil hp]
      rfl
    | true => rfl
  | true =>
    cases hp : e.hasPlural with
    | false =>
      rw [plural_eq_nil hp]
      rfl
    | true => rfl

theorem readLinguist?_linguistCall {origin : Text} {e : Entry} (ho : Paired origin)
    (h : e.Paired) : readLinguist? (linguistCall origin e) =
      some ⟨literalBody e.message, literalBody e.context, e.hasPlural⟩ := by
  have hr := Call.read?_eq_some_iff.2 ⟨Call.wellFormed_ofLinguist ho h,
    Call.toText_ofLinguist origin e⟩
  have hf : (Call.ofLinguist origin e).function = linguistFunction := rfl
  rw [readLinguist?, hr, Option.bind_some, Call.linguistEntry?, if_pos hf, Call.ofLinguist]
  cases hc : e.hasContext with
  | false =>
    rw [context_eq_nil hc]
    cases hp : e.hasPlural <;> rfl
  | true => cases hp : e.hasPlural <;> rfl

/-! ### Lines -/

theorem splitOn_render {style : Style} {origin : Text} {x : Extraction}
    (h : ∀ e ∈ entries x, ∀ l ∈ entryLines style origin e, '\n' ∉ l) :
    (render style origin x).splitOn '\n' = (entries x).flatMap (entryLines style origin) ++
      [[]] := by
  rw [render, ← List.flatMap_assoc]
  refine splitOn_flatMap_line fun l hl => ?_
  obtain ⟨e, he, hl⟩ := List.mem_flatMap.1 hl
  exact h e he l hl

theorem not_mem_gettextCall {e : Entry} (h : e.Paired) : '\n' ∉ gettextCall e := by
  rw [← Call.toText_ofGettext]
  exact (Call.wellFormed_ofGettext h).not_mem_toText

theorem not_mem_linguistCall {origin : Text} {e : Entry} (ho : Paired origin) (h : e.Paired) :
    '\n' ∉ linguistCall origin e := by
  rw [← Call.toText_ofLinguist]
  exact (Call.wellFormed_ofLinguist ho h).not_mem_toText

theorem not_mem_originComment {origin : Text} (h : '\n' ∉ origin) :
    '\n' ∉ originComment origin := by
  have hfront : '\n' ∉ "// i18n: file: ".toList := by decide
  intro hm
  rcases List.mem_append.1 hm with hm | hm
  · exact hfront hm
  · exact h hm

section

variable {origin : Text} {x : Extraction}

theorem splitOn_render_gettext (h : ∀ e ∈ entries x, e.Paired) :
    (render ⟨.gettext, false⟩ origin x).splitOn '\n' = (entries x).map gettextCall ++
      [[]] := by
  rw [splitOn_render, ← List.flatMap_pure_eq_map]
  · rfl
  · intro e he l hl
    obtain rfl := List.mem_singleton.1 hl
    exact not_mem_gettextCall (h e he)

theorem splitOn_render_comments (hn : '\n' ∉ origin) (h : ∀ e ∈ entries x, e.Paired) :
    (render ⟨.gettext, true⟩ origin x).splitOn '\n' =
      ((entries x).map gettextCall).flatMap (fun call => [originComment origin, call]) ++
        [[]] := by
  rw [splitOn_render, List.flatMap_map]
  · rfl
  · intro e he l hl
    rcases List.mem_pair.1 hl with rfl | rfl
    · exact not_mem_originComment hn
    · exact not_mem_gettextCall (h e he)

theorem splitOn_render_linguist (ho : Paired origin) (h : ∀ e ∈ entries x, e.Paired)
    (comments : Bool) : (render ⟨.linguist, comments⟩ origin x).splitOn '\n' =
      (entries x).map (linguistCall origin) ++ [[]] := by
  rw [splitOn_render, ← List.flatMap_pure_eq_map]
  · rfl
  · intro e he l hl
    obtain rfl := List.mem_singleton.1 hl
    exact not_mem_linguistCall ho (h e he)

end

theorem paired_of_mem_entries {template : Text} {x : Extraction}
    (h : extract template = .ok x) : ∀ e ∈ entries x, e.Paired := by
  obtain ⟨hp, hc⟩ := paired_of_extract h
  intro e he
  rcases List.mem_append.1 he with he | he
  · obtain ⟨s, hs, rfl⟩ := List.mem_map.1 he
    exact ⟨hp s hs, .nil, .nil⟩
  · exact hc e he

theorem length_entries (x : Extraction) : (entries x).length = x.size := by
  rw [entries, List.length_append, List.length_map, Extraction.size]

/-! ### The main result -/

/-- **Catalogs can be read back.** Split at line feeds, the catalogs of both formats have one
call for each string, in order, in the gettext catalog with or without a comment in front. Each
call can be read in one way only, and what is read are the parts of the entry as they are
written between quotes; so the calls of the two formats in one place agree in their message,
their context, and whether there is a plural. -/
theorem catalogs_read_back {template origin : Text} {x : Extraction}
    (hx : extract template = .ok x) (hb : '\\' ∉ origin) (hn : '\n' ∉ origin) :
    (entries x).length = x.size ∧
    (render ⟨.gettext, false⟩ origin x).splitOn '\n' = (entries x).map gettextCall ++ [[]] ∧
    (render ⟨.gettext, true⟩ origin x).splitOn '\n' =
      ((entries x).map gettextCall).flatMap (fun call => [originComment origin, call]) ++
        [[]] ∧
    (∀ comments, (render ⟨.linguist, comments⟩ origin x).splitOn '\n' =
      (entries x).map (linguistCall origin) ++ [[]]) ∧
    (∀ e ∈ entries x,
      (∃! c : Call, c.WellFormed ∧ c.toText = gettextCall e) ∧
      (∃! c : Call, c.WellFormed ∧ c.toText = linguistCall origin e) ∧
      readGettext? (gettextCall e) =
        some ⟨literalBody e.message, literalBody e.context, literalBody e.plural⟩ ∧
      readLinguist? (linguistCall origin e) =
        some ⟨literalBody e.message, literalBody e.context, e.hasPlural⟩) ∧
    ∀ i < x.size, ∃ g l e,
      ((render ⟨.gettext, false⟩ origin x).splitOn '\n')[i]? = some g ∧
      ((render ⟨.linguist, false⟩ origin x).splitOn '\n')[i]? = some l ∧
      readGettext? g = some e ∧
        readLinguist? l = some ⟨e.message, e.context, e.hasPlural⟩ := by
  -- All that is written as a literal is paired: the strings and the origin.
  have hpaired := paired_of_mem_entries hx
  have ho : Paired origin := paired_of_not_mem hb
  have hgettext : (render ⟨.gettext, false⟩ origin x).splitOn '\n' =
      (entries x).map gettextCall ++ [[]] := splitOn_render_gettext hpaired
  have hlinguist := splitOn_render_linguist ho hpaired
  refine ⟨length_entries x, hgettext, splitOn_render_comments hn hpaired, hlinguist,
    fun e he => ?_, fun i hi => ?_⟩
  · have h := hpaired e he
    refine ⟨?_, ?_, readGettext?_gettextCall h, readLinguist?_linguistCall ho h⟩
    · rw [← Call.toText_ofGettext]
      exact Call.existsUnique_of_wellFormed (Call.wellFormed_ofGettext h)
    · rw [← Call.toText_ofLinguist]
      exact Call.existsUnique_of_wellFormed (Call.wellFormed_ofLinguist ho h)
  · -- The lines in place `i` are the calls of the same entry.
    rw [← length_entries] at hi
    have h := hpaired _ (List.getElem_mem hi)
    refine ⟨gettextCall (entries x)[i], linguistCall origin (entries x)[i],
      written (entries x)[i], ?_, ?_, readGettext?_gettextCall h, ?_⟩
    · rw [hgettext, List.getElem?_append_left (by simpa using hi), List.getElem?_map,
        List.getElem?_eq_getElem hi]
      rfl
    · rw [hlinguist, List.getElem?_append_left (by simpa using hi), List.getElem?_map,
        List.getElem?_eq_getElem hi]
      rfl
    · rw [hasPlural_written h]
      exact readLinguist?_linguistCall ho h

/-! ### A quote in a message -/

/-- A tag with a bare double quote in its message. -/
def quotedMessage : Text := "\x7b% i18ncp 'c' 'a\"b' 'd' %\x7d".toList

/-- The entry of the tag. -/
def quotedEntry : Entry := ⟨['a', '"', 'b'], ['c'], ['d']⟩

theorem tagMatch_quotedMessage :
    TagMatch.ofContents "i18ncp 'c' 'a\"b' 'd'".toList = .i18n quotedEntry [] := by
  have hs : splitFragments "i18ncp 'c' 'a\"b' 'd'".toList =
      [⟨0, "i18ncp".toList⟩, ⟨7, "'c'".toList⟩, ⟨11, "'a\"b'".toList⟩,
        ⟨17, "'d'".toList⟩] := by decide +kernel
  rw [TagMatch.ofContents, hs]
  decide

theorem extract_quotedMessage : extract quotedMessage = .ok ⟨[], [quotedEntry], []⟩ := by
  have hz : tokenize quotedMessage =
      ⟨[⟨.tag .block, " i18ncp 'c' 'a\"b' 'd' ".toList, 0⟩], none⟩ := by decide +kernel
  have ht : trim " i18ncp 'c' 'a\"b' 'd' ".toList = "i18ncp 'c' 'a\"b' 'd'".toList := by decide
  simp only [extract, hz, extractTokens, extractToken, extractBlock, Token.contents, ht,
    tagMatch_quotedMessage, extractFragments]
  rfl

/-- The message is read back with its quote escaped, from either catalog. -/
theorem catalogs_read_back_quotedMessage :
    extract quotedMessage = .ok ⟨[], [quotedEntry], []⟩ ∧ '\\' ∉ ['t'] ∧ '\n' ∉ ['t'] ∧
      readGettext? (gettextCall quotedEntry) = some ⟨['a', '\\', '"', 'b'], ['c'], ['d']⟩ ∧
      readLinguist? (linguistCall ['t'] quotedEntry) =
        some ⟨['a', '\\', '"', 'b'], ['c'], true⟩ := by
  have hb : '\\' ∉ ['t'] := by decide
  have hn : '\n' ∉ ['t'] := by decide
  obtain ⟨-, -, -, -, hread, -⟩ := catalogs_read_back extract_quotedMessage hb hn
  obtain ⟨-, -, hg, hl⟩ := hread quotedEntry (by simp [entries])
  exact ⟨extract_quotedMessage, hb, hn, hg, hl⟩

end Catalog

end TemplateCatalog
