import Scaffold.Proofs.Flow.Agreement
import Scaffold.Proofs.Source.Declaration
import Scaffold.Proofs.Source.Literal

/-!
# Names that are given as literals

A name or a description that a decorator gives is the text between the quotes of its literal, and
under this name the flow is registered. It is what the literal means exactly if nothing in it is read
as something else (`named_verbatim`): an escape stays as it is written.
-/

namespace Scaffold

open Scaffold.Source

theorem Source.StringLiteral.text?_of_gives {x : Decorator} {key : String} {l : StringLiteral}
    (h : x.Gives key l.text) : x.text? key = some (String.ofList l.body) := by
  rw [Decorator.text?_of_gives h, l.unquote_text]

/-- A name and a description that are given as literals are what stands between the quotes; that is
what the literals mean if they are verbatim, and only then. Wherever the source is registered from,
the registry has the flow under this name. -/
theorem named_verbatim {source function : String} {d : Definition} {x : Decorator}
    (hd : IsFirst (Statement.Defines function) (Statement.ofSource source) (.definition d))
    (hx : IsFirst Decorator.NamesFlow d.decorators x) (codeOf? : List Char → Option Nat) :
    ∃ declared, (∀ path, Declaration.ofSource source path function = .ok declared) ∧
      (∀ l : StringLiteral, x.Gives "name" l.text → declared.name = String.ofList l.body ∧
        ∀ v, l.denotes? codeOf? = some v →
          (declared.name.toList.map Char.toNat = v ↔ l.IsVerbatim)) ∧
      (∀ l : StringLiteral, x.Gives "description" l.text →
        declared.description = some (String.ofList l.body) ∧
        ∀ v, l.denotes? codeOf? = some v →
          ((declared.description.getD "").toList.map Char.toNat = v ↔ l.IsVerbatim)) ∧
      ∀ t t' dir entrypoint force flow path,
        (register (.ofText dir) entrypoint force Source.load).perform t = (.ok flow, t') →
        Entrypoint.parse entrypoint = .ok ⟨path, function⟩ →
        t.text? (t.resolve ((Path.ofText dir).join path)) = some source →
        flow.name = declared.name ∧ flow.description = declared.description ∧
          ∃ marker entries stored, Marker.find? t (.ofText dir) = some marker ∧
            Registry.Holds t' marker entries ∧ entries.get? declared.name = some stored := by
  have hfind := (find?_eq_some_iff_isFirst fun _ => Decorator.isFlow_iff).2 hx
  have hsource : ∀ path, Declaration.ofSource source path function =
      .ok (Declaration.ofDefinition d x) := fun path => by
    simp only [Declaration.ofSource_of_isFirst path hd, hfind, Option.elim]
  refine ⟨_, hsource, fun l hl => ?_, fun l hl => ?_, ?_⟩
  · have hname : (Declaration.ofDefinition d x).name = String.ofList l.body := by
      simp [Declaration.ofDefinition, StringLiteral.text?_of_gives hl]
    refine ⟨hname, fun v hv => ?_⟩
    rw [hname, String.toList_ofList]
    exact StringLiteral.denotes?_eq_iff hv
  · have hdescription : (Declaration.ofDefinition d x).description = some (String.ofList l.body) := by
      simp [Declaration.ofDefinition, StringLiteral.text?_of_gives hl]
    refine ⟨hdescription, fun v hv => ?_⟩
    rw [hdescription, Option.getD_some, String.toList_ofList]
    exact StringLiteral.denotes?_eq_iff hv
  · intro t t' dir entrypoint force flow path h hparse htext
    obtain ⟨e, marker, root, inside, t₁, entries, he, hmarker, -, -, hload, hentries, hstored⟩ :=
      register_holds (slashless_ofText dir) h
    obtain rfl : e = ⟨path, function⟩ := Except.ok.inj (he.symm.trans hparse)
    obtain ⟨-, source', declared, hsource', hdeclared, rfl⟩ := Source.perform_load_iff.1 hload
    obtain rfl : source' = source := Option.some.inj (hsource'.symm.trans htext)
    obtain rfl : declared = Declaration.ofDefinition d x :=
      Except.ok.inj (hdeclared.symm.trans (hsource _))
    exact ⟨rfl, rfl, marker, entries, inside.text, hmarker, hentries, hstored⟩

def rawName : StringLiteral where
  letters := ['r']
  quote := ['\'']
  body := "C:\\new".toList
  letters_mem := by decide
  quote_mem := by decide
  enclosed := by decide

/-- A literal with a backslash that begins no escape, and with quotes in it. -/
def quotingDescription : StringLiteral where
  letters := ['u']
  quote := ['"', '"', '"']
  body := "50\\% \"done\" ".toList
  letters_mem := by decide
  quote_mem := by decide
  enclosed := by decide

def quotedSource : String :=
  "@flow(name=r'C:\\new', description=u\"\"\"50\\% \"done\" \"\"\")\ndef f(): pass\n"

def quotedDecorator : Decorator :=
  ⟨"flow", [("name", some rawName.text), ("description", some quotingDescription.text)]⟩

def quotedProject : Tree :=
  ⟨[(["p"], .directory .everyone), ([".prefect", "p"], .directory .ownerOnly),
    (["a.py", "p"], .file quotedSource.toUTF8)]⟩

theorem named_verbatim_raw :
    ∃ flow t', (register (.ofText "/p") "a.py:f" false Source.load).perform quotedProject =
        (.ok flow, t') ∧
      (∃ entries stored, Registry.Holds t' (.ofText "/p/.prefect") entries ∧
        entries.get? flow.name = some stored) ∧
      rawName.denotes? (fun _ => none) = some (flow.name.toList.map Char.toNat) ∧
      quotingDescription.denotes? (fun _ => none) =
        some ((flow.description.getD "").toList.map Char.toNat) := by
  have hfirst : IsFirst (Statement.Defines "f") (Statement.ofSource quotedSource)
      (.definition ⟨[quotedDecorator], "f", [⟨[' '], .word, "pass"⟩]⟩) :=
    Declaration.definition?_eq_some_iff.1 (by decide +kernel)
  have hflow : IsFirst Decorator.NamesFlow [quotedDecorator] quotedDecorator :=
    ⟨[], [], rfl, .inl (by decide +kernel), nofun⟩
  obtain ⟨declared, -, hname, hdescription, hregister⟩ :=
    named_verbatim hfirst hflow fun _ => none
  obtain ⟨-, hname⟩ := hname rawName ⟨[], _, rfl, ⟨rfl, rfl⟩, nofun⟩
  obtain ⟨-, hdescription⟩ := hdescription quotingDescription
    ⟨[("name", some rawName.text)], [], rfl, ⟨rfl, rfl⟩, by simp⟩
  obtain ⟨v, hv⟩ : ∃ v, rawName.denotes? (fun _ => none) = some v := ⟨_, rfl⟩
  obtain ⟨w, hw⟩ : ∃ w, quotingDescription.denotes? (fun _ => none) = some w := ⟨_, rfl⟩
  obtain ⟨t', hrun⟩ : ∃ t', (register (.ofText "/p") "a.py:f" false Source.load).perform
      quotedProject = (.ok ⟨"C:\\new", "f", .ofText "/p/a.py", some "50\\% \"done\" "⟩, t') :=
    Action.perform_of_toOption (by decide +kernel)
  obtain ⟨hsame, hsame', marker, entries, stored, hmarker, hentries, hstored⟩ :=
    hregister _ t' "/p" "a.py:f" false _ "a.py" hrun (by decide +kernel) (by decide +kernel)
  have hfound : Marker.find? quotedProject (.ofText "/p") = some (.ofText "/p/.prefect") := by
    decide +kernel
  obtain rfl : marker = .ofText "/p/.prefect" := Option.some.inj (hmarker.symm.trans hfound)
  refine ⟨_, t', hrun, ⟨entries, stored, hentries, hsame ▸ hstored⟩, ?_, ?_⟩
  · rw [hsame, (hname v hv).2 (by decide), hv]
  · rw [hsame', (hdescription w hw).2 (by decide), hw]

def escapedName : StringLiteral where
  letters := []
  quote := ['\'']
  body := "it\\'s nightly".toList
  letters_mem := by decide
  quote_mem := by decide
  enclosed := by decide

/-- A name that is given with an escape keeps the backslash, which the literal does not mean. -/
theorem named_keeps_escape :
    (∃ d, Statement.ofSource "@flow(name='it\\'s nightly')\ndef f():\n    pass\n" =
        [.definition d] ∧ d.name = "f" ∧
        d.decorators = [⟨"flow", [("name", some escapedName.text)]⟩]) ∧
      Declaration.ofSource "@flow(name='it\\'s nightly')\ndef f():\n    pass\n" "flows.py" "f" =
        .ok ⟨"it\\'s nightly", none⟩ ∧
      ∀ codeOf?, escapedName.denotes? codeOf? = some ("it's nightly".toList.map Char.toNat) :=
  ⟨⟨⟨[⟨"flow", [("name", some escapedName.text)]⟩], "f", [⟨"\n    ".toList, .word, "pass"⟩]⟩,
    by decide +kernel, rfl, rfl⟩, Action.eq_ok_of_toOption (by decide +kernel), fun _ => rfl⟩

end Scaffold
