/-!
# Arguments of a command

`itemsOf` tells options from other arguments. An option has a long name behind two dashes
and may have a letter behind one; letters can be run together. A value stands behind an
equals sign, behind its letter, or in the next argument, which then must not look like an
option. Behind two lone dashes nothing is an option any more.
-/

namespace Scaffold.Command

structure OptionName where
  long : String
  short : Option Char
  takesValue : Bool
  deriving DecidableEq, Repr

/-- An argument, once options have been told from the rest. -/
inductive Item where
  | flag (long : String)
  | value (long : String) (text : String)
  | plain (text : String)
  /-- no option that is known, or one whose value is missing or unwanted -/
  | unknown
  deriving DecidableEq, Repr

def looksLikeOption (argument : String) : Bool :=
  match argument.toList with
  | '-' :: _ :: _ => true
  | _ => false

/-- The items of a run of letters, and the option whose value is still to come. -/
def letters (known : List OptionName) : List Char → List Item × Option String
  | [] => ([], none)
  | c :: cs =>
    match known.find? fun o => o.short = some c with
    | none => ([.unknown], none)
    | some o =>
      if o.takesValue then
        match cs with
        | [] => ([], some o.long)
        | '=' :: value => ([.value o.long (String.ofList value)], none)
        | value => ([.value o.long (String.ofList value)], none)
      else
        let (items, awaiting) := letters known cs
        (.flag o.long :: items, awaiting)

/-- The items of one argument, and the option whose value is the next one. -/
def argument (known : List OptionName) (s : List Char) : List Item × Option String :=
  match s with
  | '-' :: '-' :: body =>
    let name := String.ofList (body.takeWhile (· ≠ '='))
    match known.find? (fun o => o.long = name), body.dropWhile (· ≠ '=') with
    | none, _ => ([.unknown], none)
    | some o, [] => if o.takesValue then ([], some o.long) else ([.flag o.long], none)
    | some o, _ :: value =>
      if o.takesValue then ([.value o.long (String.ofList value)], none) else ([.unknown], none)
  | '-' :: c :: cs => letters known (c :: cs)
  | s => ([.plain (String.ofList s)], none)

/-- The items of the arguments from here on, the first of which is the value of `awaiting`. -/
def itemsFrom (known : List OptionName) : (awaiting : Option String) → List String → List Item
  | none, [] => []
  | some _, [] => [.unknown]
  | some o, a :: rest =>
    if looksLikeOption a then [.unknown] else .value o a :: itemsFrom known none rest
  | none, a :: rest =>
    if a = "--" then rest.map .plain
    else
      let (items, awaiting) := argument known a.toList
      items ++ itemsFrom known awaiting rest

def itemsOf (known : List OptionName) (arguments : List String) : List Item :=
  itemsFrom known none arguments

/-! ## What items give -/

def plainOf (items : List Item) : List String :=
  items.filterMap fun
    | .plain s => some s
    | _ => none

def valuesOf (long : String) (items : List Item) : List String :=
  items.filterMap fun
    | .value l s => if l = long then some s else none
    | _ => none

def countOf (long : String) (items : List Item) : Nat :=
  items.countP fun
    | .flag l => l = long
    | _ => false

end Scaffold.Command
