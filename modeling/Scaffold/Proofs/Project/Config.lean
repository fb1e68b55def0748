import Scaffold.Project.Config
import Scaffold.Proofs.Yaml.Joined
import Scaffold.Proofs.Yaml.Printer
import Scaffold.Proofs.Yaml.Value

/-!
# Reading a configuration back

The six entries of a configuration are written as documents of their own, with comments and empty
lines between them. An entry whose last scalar keeps the breaks at its end takes an empty line up:
the file reads back as it was written exactly if each entry that has an empty line behind it does
(`render_reads_back_iff`).
-/

namespace Scaffold.Config

open Scaffold.Yaml

def entry (contents : Mapping) (key : String) (absent : Value) : Value × Value :=
  (.string key, (contents.get? key).getD absent)

def entries (contents : Mapping) : Mapping :=
  entry contents "name" .null :: entry contents "prefect-version" .null ::
    sections.map fun s => entry contents s.key s.absent

/-- The entries with an empty line behind them: all but the first and the last. -/
def spacedEntries (contents : Mapping) : Mapping :=
  (entries contents).tail.dropLast

/-- The entry taken alone reads back as it was written, as a document without anchors, aliases,
directives and marks. -/
structure ReadsBack (e : Value × Value) : Prop where
  parse : Mapping.parse? (entryText e) = some [e]
  areLocal : ∀ ts, tokens? (entryText e) = some ts → AreLocal ts

instance (e : Value × Value) : Decidable (ReadsBack e) :=
  decidable_of_iff (Mapping.parse? (entryText e) = some [e] ∧
      ∀ ts, tokens? (entryText e) = some ts → AreLocal ts)
    ⟨fun ⟨parse, areLocal⟩ => ⟨parse, areLocal⟩, fun h => ⟨h.parse, h.areLocal⟩⟩

/-! ## The text of a configuration -/

theorem print_ok {v : Value} {text : String} (h : print v = .ok text) : text = v.document := by
  unfold print Value.print? at h
  split at h
  · rename_i t ht
    split at ht <;> cases ht
    cases h
    rfl
  · cases h

theorem renderEntry_ok {contents : Mapping} {key : String} {absent : Value} {text : String}
    (h : renderEntry contents key absent = .ok text) :
    text = entryText (entry contents key absent) :=
  print_ok h

theorem bind_ok {α β : Type} {x : Except Error α} {f : α → Except Error β} {b : β}
    (h : (x >>= f) = .ok b) : ∃ a, x = .ok a ∧ f a = .ok b := by
  cases x with
  | error e => cases h
  | ok a => exact ⟨a, rfl, h⟩

def Section.note (s : Section) : String :=
  s.comment ++ "\n"

def Section.text (s : Section) (contents : Mapping) : String :=
  entryText (entry contents s.key s.absent)

theorem renderSections_ok {contents : Mapping} {ss : List Section} {text : String}
    (h : renderSections contents ss = .ok text) :
    text.toList = ss.flatMap fun s => '\n' :: (s.note ++ s.text contents).toList := by
  induction ss generalizing text with
  | nil =>
    cases h
    rfl
  | cons s ss ih =>
    obtain ⟨e, he, h₁⟩ := bind_ok h
    obtain ⟨others, hothers, h₂⟩ := bind_ok h₁
    cases h₂
    have htext : e = s.text contents := renderEntry_ok he
    simp [ih hothers, htext, Section.note]

theorem render_ok {contents : Mapping} {text : String} (h : render contents = .ok text) :
    text.toList = header.toList ++ ((entryText (entry contents "name" .null)).toList ++
      ((entryText (entry contents "prefect-version" .null)).toList ++
        sections.flatMap fun s => '\n' :: (s.note ++ s.text contents).toList)) := by
  obtain ⟨name, hname, h₁⟩ := bind_ok h
  obtain ⟨version, hversion, h₂⟩ := bind_ok h₁
  obtain ⟨rest, hrest, h₃⟩ := bind_ok h₂
  cases h₃
  simp [renderEntry_ok hname, renderEntry_ok hversion, renderSections_ok hrest]

/-! ## The parts of a configuration -/

/-- Lines that may stand in front of an entry: comments, and empty lines behind the first. -/
structure IsNote (note : String) : Prop where
  isMargin : Margin note.toList
  allowed : note.toList.all isAllowed = true
  chars : normalizeBreaks note.toList = note.toList
  begins : ∀ c ∈ note.toList.head?, c = '#'

/-- A part with one entry that says what `text` says behind a note. -/
structure IsPartOf (q : Part) (note text : String) : Prop where
  source : q.source = note ++ text
  single : q.entries.length = 1
  solid : Solid q.text
  parse : Mapping.parse? q.source = Mapping.parse? text

theorem ReadsBack.part {contents : Mapping} {key : String} {absent : Value} (hkey : IsPlainKey key)
    (h : ReadsBack (entry contents key absent)) :
    ∃ p : Part, IsPartOf p "" (entryText (entry contents key absent)) := by
  have hjoinable : Joinable (entryText (entry contents key absent)) :=
    joinable_entryText hkey _ h.areLocal
  obtain ⟨p, hsource⟩ := hjoinable.part_of_parse? h.parse
  have hlength := Part.length_of_parse? (hsource ▸ h.parse)
  refine ⟨p, ⟨by rw [hsource, String.empty_append], hlength.symm, ?_, by rw [hsource]⟩⟩
  rw [← p.chars, hsource]
  exact solid_entryText hkey _

theorem IsPartOf.padded {p : Part} {text : String} (h : IsPartOf p "" text) :
    ∃ q : Part, IsPartOf q "" (text ++ "\n") := by
  obtain ⟨q, hsource, htext, hblank⟩ := p.padded
  have hwhole : q.source = text ++ "\n" := by rw [hsource, h.source, String.empty_append]
  refine ⟨q, ⟨by rw [hwhole, String.empty_append], ?_, ?_, by rw [hwhole]⟩⟩
  · rw [← length_blankEntries, hblank, length_blankEntries, h.single]
  · rw [htext]
    exact h.solid.append p.text_ne_nil _

theorem IsPartOf.noted {p : Part} {note text : String} (h : IsPartOf p "" text)
    (hnote : IsNote note) : ∃ q : Part, IsPartOf q note text := by
  obtain ⟨q, hsource, htext, hentries⟩ := p.behind hnote.isMargin hnote.allowed hnote.chars
  refine ⟨q, ⟨by rw [hsource, h.source, String.empty_append], by rw [hentries, h.single], ?_, ?_⟩⟩
  · rw [htext]
    intro c hc
    cases hlines : note.toList with
    | nil =>
      rw [hlines] at hc
      exact h.solid c hc
    | cons x s =>
      rw [hlines] at hc
      cases hc
      rw [hnote.begins c (by rw [hlines]; rfl)]
      decide
  · rw [← h.parse, q.parse?_part, p.parse?_part, hentries]

/-! ## Keys and comments -/

def isComment (s : List Char) : Bool :=
  s.head? == some '#' && s.all fun c => !isBreak c && isAllowed c && c != '\r' && c != '\u0085'

theorem margin_comment {note s : List Char} (h : isComment note = true) (hs : Margin s) :
    Margin (note ++ '\n' :: s) := by
  obtain ⟨hhead, hall⟩ := Bool.and_eq_true_iff.1 h
  simp only [List.all_eq_true, Bool.and_eq_true, Bool.not_eq_true'] at hall
  refine .line (fun c hc => ?_) (fun c hc => (hall c hc).1.1.1) hs
  rw [beq_iff_eq.1 hhead] at hc
  exact (Option.some.inj hc).symm

theorem isNote_comment {comment : String} (h : isComment comment.toList = true) :
    IsNote (comment ++ "\n") := by
  obtain ⟨hhead, hall⟩ := Bool.and_eq_true_iff.1 h
  simp only [List.all_eq_true, Bool.and_eq_true, Bool.not_eq_true', bne_iff_ne] at hall
  have hlines : (comment ++ "\n").toList = comment.toList ++ '\n' :: [] := String.toList_append
  refine ⟨?_, ?_, ?_, ?_⟩
  · rw [hlines]
    exact margin_comment h .nil
  · rw [hlines, List.all_append, List.all_eq_true.2 fun c hc => (hall c hc).1.1.2]
    rfl
  · refine normalizeBreaks_id fun c hc => ?_
    rw [hlines, List.mem_append] at hc
    rcases hc with hc | hc
    · exact ⟨(hall c hc).1.2, (hall c hc).2⟩
    · rw [List.mem_singleton.1 hc]
      decide
  · intro c hc
    have hne : comment.toList ≠ [] := by
      intro hnil
      rw [hnil] at hhead
      cases hhead
    rw [hlines, head?_append hne, beq_iff_eq.1 hhead] at hc
    exact (Option.some.inj hc).symm

theorem isNote_section : ∀ s ∈ sections, IsNote s.note := by
  have hall : ∀ s ∈ sections, isComment s.comment.toList = true := by decide +kernel
  exact fun s hs => isNote_comment (hall s hs)

theorem isNote_header : IsNote header := by
  have hlines : header.toList =
      "# File for configuring project / deployment build, push and pull steps".toList ++
        '\n' :: ([] ++ '\n' :: ("# Generic metadata about this project".toList ++ '\n' :: [])) := by
    decide +kernel
  have hhead : header.toList.head? = some '#' := by decide +kernel
  refine ⟨?_, by decide +kernel, by decide +kernel, fun c hc => ?_⟩
  · rw [hlines]
    exact margin_comment (by decide +kernel)
      (.line nofun nofun (margin_comment (by decide +kernel) .nil))
  · rw [hhead] at hc
    exact (Option.some.inj hc).symm

theorem isPlainKey_section : ∀ s ∈ sections, IsPlainKey s.key := by
  decide +kernel

/-! ## Reading back -/

theorem join?_entries (contents : Mapping) :
    Mapping.join? [] (entries contents) = some (entries contents) := rfl

/-- The entry of a section, with or without an empty line behind it, is a part of the file. -/
theorem part_section {contents : Mapping} {s : Section} {ending : String} (hs : s ∈ sections)
    (hending : ending = "" ∨ ending = "\n") (h : ReadsBack (entry contents s.key s.absent)) :
    ∃ q : Part, IsPartOf q s.note (s.text contents ++ ending) := by
  obtain ⟨p, hp⟩ := h.part (isPlainKey_section s hs)
  rcases hending with rfl | rfl
  · rw [String.append_empty]
    exact hp.noted (isNote_section s hs)
  · obtain ⟨q, hq⟩ := hp.padded
    exact hq.noted (isNote_section s hs)

/-- The documents that a configuration file is put together from, and what stands behind it. -/
def documents (contents : Mapping) (ending : String) : List String :=
  entryText (entry contents "name" .null) ::
    ((spacedEntries contents).map fun e => entryText e ++ "\n") ++
      ((entries contents).getLast?.map fun e => entryText e ++ ending).toList

section

variable {contents : Mapping} {text ending : String}

/-- A configuration file says what the documents in it say, each of which has one entry. -/
theorem parse?_documents (h : render contents = .ok text)
    (halone : ∀ e ∈ entries contents, ReadsBack e) (hending : ending = "" ∨ ending = "\n") :
    Joinable (text ++ ending) ∧
      (Mapping.parse? (text ++ ending) = ((documents contents ending).mapM Mapping.parse?).bind
        fun ms => Mapping.join? [] ms.flatten) ∧
      ∀ d ∈ documents contents ending, ∀ m, Mapping.parse? d = some m → m.length = 1 := by
  obtain ⟨s₁, s₂, s₃, s₄, hsections⟩ : ∃ s₁ s₂ s₃ s₄, sections = [s₁, s₂, s₃, s₄] :=
    ⟨_, _, _, _, rfl⟩
  have hentries : entries contents = [entry contents "name" .null,
      entry contents "prefect-version" .null, entry contents s₁.key s₁.absent,
      entry contents s₂.key s₂.absent, entry contents s₃.key s₃.absent,
      entry contents s₄.key s₄.absent] := by
    rw [entries, hsections]
    rfl
  have hdocuments : documents contents ending = [entryText (entry contents "name" .null),
      entryText (entry contents "prefect-version" .null) ++ "\n", s₁.text contents ++ "\n",
      s₂.text contents ++ "\n", s₃.text contents ++ "\n", s₄.text contents ++ ending] := by
    rw [documents, spacedEntries, hentries]
    rfl
  simp only [hentries, List.forall_mem_cons, List.not_mem_nil, false_implies, implies_true,
    and_true] at halone
  obtain ⟨hname, hversion, h₁, h₂, h₃, h₄⟩ := halone
  have hmem : s₁ ∈ sections ∧ s₂ ∈ sections ∧ s₃ ∈ sections ∧ s₄ ∈ sections := by
    simp [hsections]
  -- The name stands under the title; what is behind the last section is given.
  obtain ⟨p₀, hp₀⟩ := hname.part (by decide +kernel)
  obtain ⟨q₀, hq₀⟩ := hp₀.noted isNote_header
  obtain ⟨p₁, hp₁⟩ := hversion.part (by decide +kernel)
  obtain ⟨q₁, hq₁⟩ := hp₁.padded
  obtain ⟨q₂, hq₂⟩ := part_section hmem.1 (.inr rfl) h₁
  obtain ⟨q₃, hq₃⟩ := part_section hmem.2.1 (.inr rfl) h₂
  obtain ⟨q₄, hq₄⟩ := part_section hmem.2.2.1 (.inr rfl) h₃
  obtain ⟨q₅, hq₅⟩ := part_section hmem.2.2.2 hending h₄
  have htext : (text ++ ending).toList =
      [q₀, q₁, q₂, q₃, q₄, q₅].flatMap (·.source.toList) := by
    rw [String.toList_append, render_ok h, hsections]
    simp [hq₀.source, hq₁.source, hq₂.source, hq₃.source, hq₄.source, hq₅.source, Section.text]
  have hsolid : ∀ q ∈ [q₁, q₂, q₃, q₄, q₅], Solid q.text := by
    simp [hq₁.solid, hq₂.solid, hq₃.solid, hq₄.solid, hq₅.solid]
  have hsame : [q₀, q₁, q₂, q₃, q₄, q₅].map (fun q => Mapping.parse? q.source) =
      (documents contents ending).map Mapping.parse? := by
    simp [hdocuments, hq₀.parse, hq₁.parse, hq₂.parse, hq₃.parse, hq₄.parse, hq₅.parse,
      Section.text]
  have hone : ∀ q ∈ [q₀, q₁, q₂, q₃, q₄, q₅], q.entries.length = 1 := by
    simp [hq₀.single, hq₁.single, hq₂.single, hq₃.single, hq₄.single, hq₅.single]
  refine ⟨q₀.joinable_parts _ htext hsolid, ?_, ?_⟩
  · have hall : (documents contents ending).mapM Mapping.parse? =
        [q₀, q₁, q₂, q₃, q₄, q₅].mapM fun q => Mapping.parse? q.source := by
      have hid : ∀ {α : Type} (f : α → Option Mapping) (xs : List α),
          xs.mapM f = (xs.map f).mapM id := fun f xs => by rw [List.mapM_map]; rfl
      rw [hid Mapping.parse?, ← hsame, ← hid]
    rw [Part.parse?_parts q₀ [q₁, q₂, q₃, q₄, q₅] htext hsolid, hall]
  · intro d hd m hm
    obtain ⟨q, hq, heq⟩ := List.mem_map.1 (hsame ▸ List.mem_map_of_mem hd)
    rw [← hone q hq]
    exact Part.length_of_parse? (heq.trans hm)

theorem parse?_render_iff (h : render contents = .ok text)
    (halone : ∀ e ∈ entries contents, ReadsBack e) (hending : ending = "" ∨ ending = "\n")
    {m : Mapping} :
    Mapping.parse? (text ++ ending) = some m ↔ Mapping.join? [] m = some m ∧
      List.Forall₂ (fun d e => Mapping.parse? d = some [e]) (documents contents ending) m := by
  obtain ⟨-, hparse, hone⟩ := parse?_documents h halone hending
  rw [hparse, Option.bind_eq_some_iff, ← mapM_singles hone]
  constructor
  · rintro ⟨ms, hms, heq⟩
    obtain rfl : m = ms.flatten := join?_some heq
    exact ⟨heq, ms, hms, rfl⟩
  · rintro ⟨hm, ms, hms, rfl⟩
    exact ⟨ms, hms, hm⟩

/-- A configuration reads back as it was written exactly if each of its entries does that has an
empty line behind it, with that line. -/
theorem render_reads_back_iff (h : render contents = .ok text)
    (halone : ∀ e ∈ entries contents, ReadsBack e) :
    Mapping.parse? text = some (entries contents) ↔
      ∀ e ∈ spacedEntries contents, Mapping.parse? (entryText e ++ "\n") = some [e] := by
  have hiff := parse?_render_iff h halone (.inl rfl) (m := entries contents)
  obtain ⟨e₀, e₁, e₂, e₃, e₄, e₅, hentries, hspaced, hdocuments⟩ : ∃ e₀ e₁ e₂ e₃ e₄ e₅,
      entries contents = [e₀, e₁, e₂, e₃, e₄, e₅] ∧ spacedEntries contents = [e₁, e₂, e₃, e₄] ∧
        documents contents "" = [entryText e₀, entryText e₁ ++ "\n", entryText e₂ ++ "\n",
          entryText e₃ ++ "\n", entryText e₄ ++ "\n", entryText e₅ ++ ""] :=
    ⟨_, _, _, _, _, _, rfl, rfl, rfl⟩
  rw [String.append_empty, join?_entries, hdocuments] at hiff
  rw [hentries] at halone hiff ⊢
  have hfirst := (halone e₀ (by simp)).parse
  have hlast := (halone e₅ (by simp)).parse
  rw [hiff, hspaced]
  simp [hfirst, hlast]

/-! ## Behind a configuration -/

def lastEntry (contents : Mapping) : Value × Value :=
  entry contents "deployments" (.sequence [])

theorem documents_last (contents : Mapping) :
    ∃ ds, ∀ ending, documents contents ending =
      ds ++ [entryText (lastEntry contents) ++ ending] :=
  ⟨[_, _, _, _, _], fun _ => rfl⟩

theorem ReadsBack.last (halone : ∀ e ∈ entries contents, ReadsBack e) :
    ReadsBack (lastEntry contents) :=
  halone _ (List.mem_of_getLast? rfl)

theorem parse?_render_newline (h : render contents = .ok text)
    (halone : ∀ e ∈ entries contents, ReadsBack e)
    (hlast : Mapping.parse? (entryText (lastEntry contents) ++ "\n") = some [lastEntry contents]) :
    Mapping.parse? (text ++ "\n") = Mapping.parse? text := by
  have hspaced := (parse?_documents h halone (.inr rfl)).2.1
  have hparse := (parse?_documents h halone (.inl rfl)).2.1
  obtain ⟨ds, hdocuments⟩ := documents_last contents
  rw [String.append_empty, hdocuments] at hparse
  rw [hspaced, hparse, hdocuments, List.mapM_append, List.mapM_append]
  simp [hlast, (ReadsBack.last halone).parse]

theorem lastEntry_mem {m : Mapping} (h : render contents = .ok text)
    (halone : ∀ e ∈ entries contents, ReadsBack e) (hm : Mapping.parse? text = some m) :
    lastEntry contents ∈ m := by
  obtain ⟨ds, hdocuments⟩ := documents_last contents
  rw [← String.append_empty (s := text), parse?_render_iff h halone (.inl rfl), hdocuments] at hm
  have hall := List.forall₂_reverse_iff.2 hm.2
  rw [List.reverse_append] at hall
  obtain ⟨e, es, he, -, hes⟩ := List.forall₂_cons_left_iff.1 hall
  rw [String.append_empty, (ReadsBack.last halone).parse] at he
  cases he
  rw [← List.mem_reverse, hes]
  exact List.mem_cons_self ..

end

/-- A configuration of one line a section. -/
def plainContents : Mapping :=
  [(.string "name", .string "nightly"), (.string "pull", .sequence [.string "a\nb"])]

theorem exists_of_isOk {α : Type} {x : Except Error α} (h : x.isOk = true) : ∃ a, x = .ok a := by
  cases x with
  | error e => cases h
  | ok a => exact ⟨a, rfl⟩

theorem render_reads_back_plain :
    ∃ text, render plainContents = .ok text ∧
      Mapping.parse? text = some (entries plainContents) := by
  obtain ⟨text, htext⟩ := exists_of_isOk (x := render plainContents) (by decide +kernel)
  exact ⟨text, htext, (render_reads_back_iff htext (by decide +kernel)).2 (by decide +kernel)⟩

/-- A configuration with a text that keeps the breaks at its end. -/
def keptContents : Mapping :=
  [(.string "build", .string "a\n\n")]

/-- In the file the text has the break of the empty line behind it as well. -/
theorem render_adds_break :
    ∃ text, render keptContents = .ok text ∧ (∀ e ∈ entries keptContents, ReadsBack e) ∧
      Mapping.parse? text = some [(.string "name", .null), (.string "prefect-version", .null),
        (.string "build", .string "a\n\n\n"), (.string "push", .null), (.string "pull", .null),
        (.string "deployments", .sequence [])] ∧
      Mapping.parse? text ≠ some (entries keptContents) := by
  obtain ⟨text, htext⟩ := exists_of_isOk (x := render keptContents) (by decide +kernel)
  have halone : ∀ e ∈ entries keptContents, ReadsBack e := by decide +kernel
  refine ⟨text, htext, halone, ?_⟩
  have hparse := (parse?_documents htext halone (.inl rfl)).2.1
  rw [String.append_empty] at hparse
  rw [hparse]
  decide +kernel

end Scaffold.Config
