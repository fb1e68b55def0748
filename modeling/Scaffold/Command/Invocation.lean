import Scaffold.Command.Arguments

/-!
# Invocations

What a command line asks for. Options that go with every command may stand before its name
as well as behind it. An option that says one thing must not be given twice. The arguments
count in their order: whoever asks for help gets it, unless something is wrong before that.
-/

namespace Scaffold

inductive Command where
  | init (name recipe : Option String) (fields : List String)
  | register (entrypoint : String) (force : Bool)
  | flows
  | recipes
  | root
  | migrate
  deriving DecidableEq, Repr

inductive Invocation where
  | run (c : Command)
  | help
  | version
  | misuse
  deriving DecidableEq, Repr

namespace Command

def commonOptions : List OptionName :=
  [⟨"verbose", some 'v', false⟩, ⟨"help", some 'h', false⟩]

def leadingOptions : List OptionName :=
  ⟨"version", some 'V', false⟩ :: commonOptions

def optionsOf? : (name : String) → Option (List OptionName)
  | "init" => some ([⟨"name", some 'n', true⟩, ⟨"recipe", some 'r', true⟩,
      ⟨"field", some 'f', true⟩] ++ commonOptions)
  | "register" => some (⟨"force", none, false⟩ :: commonOptions)
  | "flows" | "recipes" | "root" | "migrate" => some commonOptions
  | _ => none

/-- The most plain arguments that the command `name` takes. -/
def mostPlain : (name : String) → Nat
  | "register" => 1
  | _ => 0

/-- Nothing is wrong with the items of the command `name`, as far as they go. -/
def isSound (name : String) (items : List Item) : Bool :=
  !items.contains .unknown && (plainOf items).length ≤ mostPlain name &&
    (valuesOf "name" items).length ≤ 1 && (valuesOf "recipe" items).length ≤ 1 &&
    countOf "force" items ≤ 1

/-- The command `name` with these items, if none is missing. -/
def ofItems? (name : String) (items : List Item) : Option Command :=
  match name, plainOf items with
  | "init", _ =>
    some (.init (valuesOf "name" items).head? (valuesOf "recipe" items).head?
      (valuesOf "field" items))
  | "register", entrypoint :: _ => some (.register entrypoint (0 < countOf "force" items))
  | "flows", _ => some .flows
  | "recipes", _ => some .recipes
  | "root", _ => some .root
  | "migrate", _ => some .migrate
  | _, _ => none

end Command

namespace Invocation

def ofCommand (name : String) (arguments : List String) : Invocation :=
  match Command.optionsOf? name with
  | none => .misuse
  | some known =>
    let items := Command.itemsOf known arguments
    let beforeHelp := items.takeWhile (· ≠ .flag "help")
    if !Command.isSound name beforeHelp then .misuse
    else if beforeHelp.length < items.length then .help
    else
      match Command.ofItems? name items with
      | some c => .run c
      | none => .misuse

/-- Help on the command with a name, or on all of them. -/
def ofHelp : List String → Invocation
  | [] => .help
  | [name] => if name = "help" || (Command.optionsOf? name).isSome then .help else .misuse
  | _ => .misuse

def parse : List String → Invocation
  | [] => .misuse
  | a :: rest =>
    if a = "--" then .misuse
    else
      match (Command.argument Command.leadingOptions a.toList).1.find? (· ≠ .flag "verbose") with
      | none => parse rest
      | some (.flag option) => if option = "version" then .version else .help
      | some (.plain name) => if name = "help" then ofHelp rest else ofCommand name rest
      | some (.value _ _) | some .unknown => .misuse

end Invocation

end Scaffold
