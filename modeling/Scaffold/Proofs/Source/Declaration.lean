import Scaffold.Proofs.Tree.Action
import Scaffold.Source.Declaration

/-!
# What decides a declaration

The first definition of a function decides what a source says about it, and in it the first
decorator that names a flow (`ofSource_decided`). What other statements there are makes no
difference, as long as no definition of the function comes to stand before it.

A body is documented by its first statement. That is a literal alone, or an expression with commas,
of which the first part that is a literal alone documents it as well.
-/

namespace Scaffold.Source

/-! ## What comes first -/

section

variable {α β : Type} {p : α → Prop} {l : List α} {x : α}

/-- `x` is the first of `l` that has the property `p`. -/
def IsFirst (p : α → Prop) (l : List α) (x : α) : Prop :=
  ∃ before after, l = before ++ x :: after ∧ p x ∧ ∀ y ∈ before, ¬ p y

theorem find?_eq_some_iff_isFirst {f : α → Bool} (hf : ∀ y, f y = true ↔ p y) :
    l.find? f = some x ↔ IsFirst p l x := by
  have hnot : ∀ y, (!f y) = true ↔ ¬ p y := fun y => by
    rw [← hf]
    simp
  simp only [List.find?_eq_some_iff_append, IsFirst, hf, hnot]
  constructor
  · rintro ⟨hx, before, after, hl, hbefore⟩
    exact ⟨before, after, hl, hx, hbefore⟩
  · rintro ⟨before, after, hl, hx, hbefore⟩
    exact ⟨hx, before, after, hl, hbefore⟩

theorem findSome?_eq_some_iff_isFirst {f : α → Option β} (hf : ∀ y, f y = none ↔ ¬ p y) {b : β} :
    l.findSome? f = some b ↔ ∃ x, IsFirst p l x ∧ f x = some b := by
  rw [List.findSome?_eq_some_iff]
  constructor
  · rintro ⟨before, x, after, hl, hx, hbefore⟩
    have hp : p x := Classical.not_not.1 fun h => by
      rw [(hf x).2 h] at hx
      cases hx
    exact ⟨x, ⟨before, after, hl, hp, fun y hy => (hf y).1 (hbefore y hy)⟩, hx⟩
  · rintro ⟨x, ⟨before, after, hl, -, hbefore⟩, hx⟩
    exact ⟨before, x, after, hl, hx, fun y hy => (hf y).2 (hbefore y hy)⟩

end

/-! ## Statements and decorators -/

def Statement.Defines (function : String) (s : Statement) : Prop :=
  ∃ d, s = .definition d ∧ d.name = function

namespace Decorator

/-- What the decorator names, or calls, is a flow, blanks aside. -/
def NamesFlow (x : Decorator) : Prop :=
  withoutBlanks x.target = "flow" ∨ withoutBlanks x.target = "prefect.flow"

/-- Of the values that the decorator is given under `key`, `literal` is the first that is a single
literal. -/
def Gives (x : Decorator) (key literal : String) : Prop :=
  IsFirst (fun a => a.1 = key ∧ a.2.isSome = true) x.arguments (key, some literal)

theorem isFlow_iff {x : Decorator} : x.isFlow = true ↔ x.NamesFlow := by
  simp [isFlow, flowTargets, NamesFlow]

theorem text?_eq_some_iff {x : Decorator} {key text : String} :
    x.text? key = some text ↔ ∃ literal, x.Gives key literal ∧ text = unquote literal := by
  unfold text?
  rw [findSome?_eq_some_iff_isFirst (p := fun a => a.1 = key ∧ a.2.isSome = true)]
  · constructor
    · rintro ⟨⟨name, value⟩, hfirst, htext⟩
      obtain ⟨-, -, -, ⟨rfl, hvalue⟩, -⟩ := id hfirst
      obtain ⟨literal, rfl⟩ := Option.isSome_iff_exists.1 hvalue
      exact ⟨literal, hfirst, by simpa using htext.symm⟩
    · rintro ⟨literal, hfirst, rfl⟩
      exact ⟨_, hfirst, if_pos rfl⟩
  · rintro ⟨name, value⟩
    by_cases hname : name = key <;> simp [hname]

theorem text?_of_gives {x : Decorator} {key literal : String} (h : x.Gives key literal) :
    x.text? key = some (unquote literal) :=
  text?_eq_some_iff.2 ⟨literal, h, rfl⟩

theorem text?_eq_none {x : Decorator} {key : String} (h : ∀ literal, ¬ x.Gives key literal) :
    x.text? key = none := by
  refine Option.eq_none_iff_forall_ne_some.2 fun text htext => ?_
  obtain ⟨literal, hgives, -⟩ := text?_eq_some_iff.1 htext
  exact h literal hgives

end Decorator

/-! ## Bodies -/

namespace Definition

variable {d : Definition} {statement : List Token} {rest : List (List Token)} {literal : String}

/-- The first statement of the body is an expression, and of the parts between its commas `literal`
is the first that is a single literal. -/
def IsDocumentedBy (d : Definition) (literal : String) : Prop :=
  ∃ statement rest part, pieces ";" [] d.body = statement :: rest ∧
    beginsStatement statement = false ∧ isAssignment statement = false ∧
    IsFirst (fun e => (Token.single? e).isSome = true) (pieces "," [] statement) part ∧
    Token.single? part = some literal

theorem docstring?_eq_some_iff : docstring? d.body = some literal ↔ d.IsDocumentedBy literal := by
  have hparts : ∀ statement : List Token,
      (pieces "," [] statement).findSome? Token.single? = some literal ↔
        ∃ part, IsFirst (fun e => (Token.single? e).isSome = true) (pieces "," [] statement) part ∧
          Token.single? part = some literal := fun statement =>
    findSome?_eq_some_iff_isFirst fun e => by simp
  unfold docstring? IsDocumentedBy
  cases hbody : pieces ";" [] d.body with
  | nil => simp
  | cons statement rest =>
    cases hbegins : beginsStatement statement <;> cases hassigns : isAssignment statement <;>
      simp [hbegins, hassigns, hparts]

theorem expression_of_single? (h : Token.single? statement = some literal) :
    beginsStatement statement = false ∧ isAssignment statement = false := by
  unfold Token.single? at h
  split at h
  · rename_i t
    have hkind : t.kind = .literal := by
      unfold Token.literal? at h
      split at h
      · assumption
      · cases h
    simp [beginsStatement, isAssignment, outside, hkind]
  · cases h

/-- A first statement without commas documents the body if it is a literal alone, and only then. -/
theorem isDocumentedBy_iff_single? (hbody : pieces ";" [] d.body = statement :: rest)
    (hcomma : pieces "," [] statement = [statement]) :
    d.IsDocumentedBy literal ↔ Token.single? statement = some literal := by
  rw [← docstring?_eq_some_iff]
  unfold docstring?
  rw [hbody]
  dsimp only
  rw [hcomma]
  constructor
  · intro h
    split at h
    · cases h
    · simpa using h
  · intro h
    obtain ⟨hbegins, hassigns⟩ := expression_of_single? h
    simp [hbegins, hassigns, h]

end Definition

/-! ## Declarations -/

namespace Declaration

variable {statements : List Statement} {function : String} {d : Definition}

theorem definition?_eq_some_iff :
    definition? function statements = some d ↔
      IsFirst (Statement.Defines function) statements (.definition d) := by
  unfold definition?
  rw [findSome?_eq_some_iff_isFirst (p := Statement.Defines function)]
  · constructor
    · rintro ⟨s, hfirst, hs⟩
      obtain ⟨-, -, -, ⟨d', rfl, rfl⟩, -⟩ := id hfirst
      have heq : d' = d := by simpa using hs
      exact heq ▸ hfirst
    · intro hfirst
      obtain ⟨-, -, -, ⟨d', hd, rfl⟩, -⟩ := id hfirst
      cases hd
      exact ⟨_, hfirst, if_pos rfl⟩
  · intro s
    cases s <;> simp [Statement.Defines]

theorem definition?_eq_none_iff :
    definition? function statements = none ↔ ∀ s ∈ statements, ¬ s.Defines function := by
  unfold definition?
  rw [List.findSome?_eq_none_iff]
  refine forall₂_congr fun s _ => ?_
  cases s <;> simp [Statement.Defines]

/-- What a definition and its decorator declare: what is given by the decorator goes before what is
made from the function's name and from what documents its body. -/
structure IsOf (declared : Declaration) (d : Definition) (x : Decorator) : Prop where
  name_given : ∀ literal, x.Gives "name" literal → declared.name = unquote literal
  name_default : (∀ literal, ¬ x.Gives "name" literal) →
    declared.name = Flow.defaultName d.name
  description_given : ∀ literal, x.Gives "description" literal →
    declared.description = some (unquote literal)
  description_documented : (∀ given, ¬ x.Gives "description" given) →
    ∀ literal, d.IsDocumentedBy literal → declared.description =
      if Text.trimmed (unquote literal) = "" then none
      else some (Text.trimmed (unquote literal))
  description_none : (∀ given, ¬ x.Gives "description" given) →
    (∀ literal, ¬ d.IsDocumentedBy literal) → declared.description = none

theorem isOf_ofDefinition (d : Definition) (x : Decorator) : (ofDefinition d x).IsOf d x where
  name_given literal h := by simp [ofDefinition, Decorator.text?_of_gives h]
  name_default h := by simp [ofDefinition, Decorator.text?_eq_none h]
  description_given literal h := by simp [ofDefinition, Decorator.text?_of_gives h]
  description_documented h literal hliteral := by
    have hdocstring := Definition.docstring?_eq_some_iff.2 hliteral
    simp [ofDefinition, Decorator.text?_eq_none h, Definition.documentation?, hdocstring]
  description_none h hnone := by
    have hdocstring : Definition.docstring? d.body = none :=
      Option.eq_none_iff_forall_ne_some.2 fun literal h =>
        hnone literal (Definition.docstring?_eq_some_iff.1 h)
    simp [ofDefinition, Decorator.text?_eq_none h, Definition.documentation?, hdocstring]

theorem ofSource_of_isFirst {source : String} (path : String)
    (h : IsFirst (Statement.Defines function) (Statement.ofSource source) (.definition d)) :
    ofSource source path function = (d.decorators.find? Decorator.isFlow).elim
      (.error (.notAFlow path function)) fun x => .ok (ofDefinition d x) := by
  unfold ofSource find
  rw [definition?_eq_some_iff.2 h]
  dsimp only
  cases d.decorators.find? Decorator.isFlow <;> rfl

/-- The first definition of a function decides what is found of it: nothing is found if there is
none; it is no flow if none of its decorators names one; otherwise it declares what it and the first
of those decorators say. A source that has the same first definition of the function has the same
found. Where the first statement of the body has no comma, only a literal alone documents it. -/
theorem ofSource_decided (source path function : String) :
    (ofSource source path function = .error (.functionNotFound path function) ↔
      ∀ s ∈ Statement.ofSource source, ¬ s.Defines function) ∧
    ∀ d, IsFirst (Statement.Defines function) (Statement.ofSource source) (.definition d) →
      (ofSource source path function = .error (.notAFlow path function) ↔
        ∀ x ∈ d.decorators, ¬ x.NamesFlow) ∧
      (∀ x, IsFirst Decorator.NamesFlow d.decorators x →
        ∃ declared, ofSource source path function = .ok declared ∧ declared.IsOf d x) ∧
      (∀ statement rest literal, pieces ";" [] d.body = statement :: rest →
        pieces "," [] statement = [statement] →
        (d.IsDocumentedBy literal ↔ Token.single? statement = some literal)) ∧
      ∀ source', IsFirst (Statement.Defines function) (Statement.ofSource source')
          (.definition d) →
        ofSource source' path function = ofSource source path function := by
  refine ⟨?_, fun d hd => ?_⟩
  · rw [← definition?_eq_none_iff]
    unfold ofSource find
    cases definition? function (Statement.ofSource source) with
    | none => simp
    | some d => cases hfind : d.decorators.find? Decorator.isFlow <;> simp [hfind]
  · have hsource := ofSource_of_isFirst path hd
    refine ⟨?_, fun x hx => ⟨ofDefinition d x, ?_, isOf_ofDefinition d x⟩,
      fun statement rest literal => Definition.isDocumentedBy_iff_single?,
      fun source' hd' => (ofSource_of_isFirst path hd').trans hsource.symm⟩
    · have hnone : d.decorators.find? Decorator.isFlow = none ↔
          ∀ x ∈ d.decorators, ¬ x.NamesFlow := by
        rw [List.find?_eq_none]
        simp [Decorator.isFlow_iff]
      rw [hsource, ← hnone]
      cases d.decorators.find? Decorator.isFlow <;> simp
    · have hfind := (find?_eq_some_iff_isFirst fun _ => Decorator.isFlow_iff).2 hx
      simp only [hsource, hfind, Option.elim]

/-- A function that is defined in a class, then decorated twice as a flow, and then once more. -/
def decoratedSource : String :=
  "class C:\n    def f_x(): pass\n\n@task\n@prefect . flow(name=x, name='n')\n" ++
    "@flow(description='d')\ndef f_x():\n    ' doc '; pass\n\ndef f_x(): pass\n"

def decoratedDefinition : Definition where
  decorators := [⟨"task", []⟩, ⟨"prefect . flow", [("name", none), ("name", some "'n'")]⟩,
    ⟨"flow", [("description", some "'d'")]⟩]
  name := "f_x"
  body := [⟨"\n    ".toList, .literal, "' doc '"⟩, ⟨[], .mark, ";"⟩, ⟨[' '], .word, "pass"⟩]

/-- A definition in a block does not count, nor does a later one; a name that is no literal is
passed over, and the second decorator that names a flow is not looked at. -/
theorem ofSource_decided_decorated :
    ofSource decoratedSource "a.py" "f_x" = .ok ⟨"n", some "doc"⟩ := by
  have hfirst : IsFirst (Statement.Defines "f_x") (Statement.ofSource decoratedSource)
      (.definition decoratedDefinition) := definition?_eq_some_iff.1 (by decide +kernel)
  obtain ⟨-, hdeclared, hdocumented, -⟩ :=
    (ofSource_decided decoratedSource "a.py" "f_x").2 decoratedDefinition hfirst
  obtain ⟨declared, hsource, hof⟩ := hdeclared
    ⟨"prefect . flow", [("name", none), ("name", some "'n'")]⟩
    ((find?_eq_some_iff_isFirst fun _ => Decorator.isFlow_iff).1 (by decide +kernel))
  have hname : declared.name = "n" :=
    (hof.name_given "'n'" ⟨[("name", none)], [], rfl, ⟨rfl, rfl⟩, by simp⟩).trans
      (by decide +kernel)
  have hdescription : declared.description = some "doc" := by
    refine (hof.description_documented (fun given hgives => ?_) "' doc '" ?_).trans
      (by decide +kernel)
    · have hgiven := Decorator.text?_of_gives hgives
      cases hgiven
    · exact (hdocumented _ [[⟨[' '], .word, "pass"⟩]] _ rfl rfl).2 rfl
  rw [hsource]
  obtain ⟨name, description⟩ := declared
  cases hname
  cases hdescription
  rfl

/-- A text among other expressions documents a function whose first statement is no literal. -/
theorem ofSource_documents_tuple :
    ofSource "@flow\ndef f():\n    1, \"doc\"\n" "flows.py" "f" = .ok ⟨"f", some "doc"⟩ ∧
      ∃ d, Statement.ofSource "@flow\ndef f():\n    1, \"doc\"\n" = [.definition d] ∧
        d.decorators = [⟨"flow", []⟩] ∧ d.name = "f" ∧
        pieces ";" [] d.body = [d.body] ∧ Token.single? d.body = none :=
  ⟨Action.eq_ok_of_toOption (by decide +kernel),
    ⟨[⟨"flow", []⟩], "f", [⟨"\n    ".toList, .word, "1"⟩, ⟨[], .mark, ","⟩,
      ⟨[' '], .literal, "\"doc\""⟩]⟩, by decide +kernel, rfl, rfl, by decide +kernel, rfl⟩

end Declaration

end Scaffold.Source
