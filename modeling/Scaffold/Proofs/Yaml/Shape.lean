import Scaffold.Proofs.Yaml.Node

/-!
# The shape of a tree

The tree that tokens spell has the shape that their kinds give it: the texts of scalars, which
`blank` takes away where they are not plain, decide nothing.
-/

namespace Scaffold.Yaml

/-- The token without its text, if it is a scalar with quotes or a block scalar. -/
def Token.blank : Token → Token
  | .scalar _ false => .scalar "" false
  | t => t

namespace Node

mutual

/-- The node without the texts of scalars that are not plain. -/
def blank : Node → Node
  | .alias n => .alias n
  | .scalar p _ false => .scalar p "" false
  | .scalar p text true => .scalar p text true
  | .sequence p xs => .sequence p (blankItems xs)
  | .mapping p es => .mapping p (blankEntries es)

def blankItems : List Node → List Node
  | [] => []
  | x :: xs => blank x :: blankItems xs

def blankEntries : List (Node × Node) → List (Node × Node)
  | [] => []
  | (k, v) :: es => (blank k, blank v) :: blankEntries es

end

end Node

theorem length_blankEntries (es : List (Node × Node)) :
    (Node.blankEntries es).length = es.length := by
  induction es with
  | nil => rfl
  | cons e es ih => rw [Node.blankEntries, List.length_cons, List.length_cons, ih]

/-- `f` reads the shape from the kinds of the tokens. -/
def IsShaped {α : Type} (b : α → α) (f : List Token → Option (α × List Token)) : Prop :=
  ∀ ts, f (ts.map Token.blank) = (f ts).map fun r => (b r.1, r.2.map Token.blank)

/-- A test that looks at the kind of a token only. -/
def IsKind (missing : Token → Bool) : Prop :=
  ∀ t : Token, missing t.blank = missing t

structure AllShaped (handles : Handles) (fuel : Nat) : Prop where
  node : ∀ context, IsShaped Node.blank (node? handles fuel context)
  nodeUnless : ∀ missing context, IsKind missing →
    IsShaped Node.blank (nodeUnless? handles fuel missing context)
  blockItems : IsShaped Node.blankItems (blockItems? handles fuel)
  entryItems : IsShaped Node.blankItems (entryItems? handles fuel)
  blockEntries : IsShaped Node.blankEntries (blockEntries? handles fuel)
  blockValue : IsShaped Node.blank (blockValue? handles fuel)
  flowItems : ∀ first, IsShaped Node.blankItems (flowItems? handles fuel first)
  flowItem : IsShaped Node.blankItems (flowItem? handles fuel)
  flowItemKey : IsShaped Node.blank (flowItemKey? handles fuel)
  flowValue : ∀ missing, IsKind missing →
    IsShaped Node.blank (flowValue? handles fuel missing)
  flowEntries : ∀ first, IsShaped Node.blankEntries (flowEntries? handles fuel first)
  flowEntry : IsShaped Node.blankEntries ( flowEntry? handles fuel)

variable {handles : Handles} {fuel : Nat}

theorem isKind_of {f : Token → Bool} (h : ∀ text, f (.scalar text false) = f (.scalar "" false)) :
    IsKind f := by
  intro t
  cases t with
  | scalar text plain =>
    cases plain with
    | false => exact (h text).symm
    | true => rfl
  | _ => rfl

theorem nextIs_blank {missing : Token → Bool} (hm : IsKind missing) (ts : List Token) :
    nextIs missing (ts.map Token.blank) = nextIs missing ts := by
  cases ts with
  | nil => rfl
  | cons t ts => exact hm t

theorem properties?_blank (ts : List Token) :
    properties? handles (ts.map Token.blank) =
      (properties? handles ts).map fun r => (r.1, r.2.map Token.blank) := by
  match ts with
  | [] => rfl
  | [t] =>
    cases t with
    | scalar text plain => cases plain <;> rfl
    | tag handle suffix =>
      simp only [List.map_cons, List.map_nil, Token.blank, properties?, Option.map_map]
      rfl
    | _ => rfl
  | t :: u :: ts =>
    cases t with
    | anchor n =>
      cases u with
      | tag handle suffix =>
        simp only [List.map_cons, Token.blank, properties?, Option.map_map]
        rfl
      | scalar text plain => cases plain <;> rfl
      | _ => rfl
    | tag handle suffix =>
      cases u with
      | scalar text plain =>
        cases plain <;> simp only [List.map_cons, Token.blank, properties?, Option.map_map] <;> rfl
      | _ =>
        simp only [List.map_cons, Token.blank, properties?, Option.map_map]
        rfl
    | scalar text plain => cases plain <;> rfl
    | _ => rfl

theorem shaped_mapped {α : Type} {b : α → α} {f : List Token → Option (α × List Token)}
    (hf : IsShaped b f) {g : α → Node} (hg : ∀ a, (g a).blank = g (b a)) (ts : List Token) :
    (f (ts.map Token.blank)).map (fun (a, ts) => (g a, ts)) =
      ((f ts).map fun (a, ts) => (g a, ts)).map fun r => (r.1.blank, r.2.map Token.blank) := by
  rw [hf ts, Option.map_map, Option.map_map]
  congr 1
  funext r
  simp [hg]

theorem shaped_content (ih : AllShaped handles fuel) (context : Context) (p : Properties) :
    IsShaped Node.blank (content? handles fuel context p) := by
  intro ts
  -- Without a token of its own there is a node only if it has properties.
  have hbare : ∀ ts : List Token, (if p = .bare then none else
      some (Node.scalar p "" true, ts.map Token.blank)) =
        (if p = .bare then none else some (Node.scalar p "" true, ts)).map
          fun r => (r.1.blank, r.2.map Token.blank) := by
    intro ts
    split
    · rfl
    · simp [Node.blank]
  cases ts with
  | nil => cases context <;> exact hbare []
  | cons t ts =>
    cases t with
    | scalar text plain =>
      cases plain <;> cases context <;> simp [content?, Token.blank, Node.blank]
    | flowSequence =>
      cases context <;>
        exact shaped_mapped (ih.flowItems true) (g := .sequence p) (fun _ => by rw [Node.blank]) ts
    | flowMapping =>
      cases context <;>
        exact shaped_mapped (ih.flowEntries true) (g := .mapping p) (fun _ => by rw [Node.blank]) ts
    | item =>
      cases context with
      | entry =>
        exact shaped_mapped ih.entryItems (g := .sequence p) (fun _ => by rw [Node.blank])
          (.item :: ts)
      | _ => exact hbare (.item :: ts)
    | blockSequence =>
      cases context with
      | flow => exact hbare (.blockSequence :: ts)
      | _ =>
        exact shaped_mapped ih.blockItems (g := .sequence p) (fun _ => by rw [Node.blank]) ts
    | blockMapping =>
      cases context with
      | flow => exact hbare (.blockMapping :: ts)
      | _ =>
        exact shaped_mapped ih.blockEntries (g := .mapping p) (fun _ => by rw [Node.blank]) ts
    | _ => cases context <;> exact hbare (_ :: ts)

theorem shaped_node (ih : AllShaped handles fuel) (context : Context) :
    IsShaped Node.blank (node? handles (fuel + 1) context) := by
  intro ts
  have hkind : IsKind Token.isAlias := isKind_of fun _ => rfl
  by_cases halias : nextIs Token.isAlias ts = true
  · match ts, halias with
    | .alias n :: ts, _ =>
      rw [List.map_cons, Token.blank, node?_alias, node?_alias]
      · simp [Node.blank]
      · nofun
  · rw [Bool.not_eq_true] at halias
    rw [node?_content context halias, node?_content context ((nextIs_blank hkind ts).trans halias),
      properties?_blank, Option.bind_map, Option.map_bind]
    congr 1
    funext r
    exact shaped_content ih context r.1 r.2

theorem shaped_nodeUnless (ih : AllShaped handles fuel) {missing : Token → Bool}
    (context : Context) (hm : IsKind missing) :
    IsShaped Node.blank (nodeUnless? handles (fuel + 1) missing context) := by
  intro ts
  rw [nodeUnless?, nodeUnless?, nextIs_blank hm]
  split
  · simp [Node.empty, Node.blank]
  · exact ih.node context ts

theorem IsShaped.both {α β γ : Type} {a : α → α} {b : β → β} {c : γ → γ}
    {f : List Token → Option (α × List Token)} {g : List Token → Option (β × List Token)}
    (hf : IsShaped a f) (hg : IsShaped b g) {j : α → β → γ} (hj : ∀ x y, c (j x y) = j (a x) (b y))
    (ts : List Token) :
    ((f (ts.map Token.blank)).bind fun x => (g x.2).bind fun y => some (j x.1 y.1, y.2)) =
      ((f ts).bind fun x => (g x.2).bind fun y => some (j x.1 y.1, y.2)).map
        fun r => (c r.1, r.2.map Token.blank) := by
  rw [hf ts, Option.bind_map, Option.map_bind]
  congr 1
  funext x
  simp only [Function.comp, hg x.2, Option.bind_map, Option.map_bind]
  congr 1
  funext y
  simp [hj]

theorem IsShaped.three {α β γ δ : Type} {a : α → α} {b : β → β} {c : γ → γ} {d : δ → δ}
    {f : List Token → Option (α × List Token)} {g : List Token → Option (β × List Token)}
    {m : List Token → Option (γ × List Token)} (hf : IsShaped a f) (hg : IsShaped b g)
    (hm : IsShaped c m) {j : α → β → γ → δ} (hj : ∀ x y z, d (j x y z) = j (a x) (b y) (c z))
    (ts : List Token) :
    ((f (ts.map Token.blank)).bind fun x => (g x.2).bind fun y => (m y.2).bind fun z =>
      some (j x.1 y.1 z.1, z.2)) =
      ((f ts).bind fun x => (g x.2).bind fun y => (m y.2).bind fun z =>
        some (j x.1 y.1 z.1, z.2)).map fun r => (d r.1, r.2.map Token.blank) := by
  rw [hf ts, Option.bind_map, Option.map_bind]
  congr 1
  funext x
  simp only [Function.comp, hg x.2, Option.bind_map, Option.map_bind]
  congr 1
  funext y
  simp only [Function.comp, hm y.2, Option.bind_map]
  congr 1
  funext z
  simp [hj]

theorem shaped_blockItems (ih : AllShaped handles fuel) :
    IsShaped Node.blankItems (blockItems? handles (fuel + 1)) := by
  intro ts
  cases ts with
  | nil => rfl
  | cons t ts =>
    cases t with
    | item =>
      rw [List.map_cons, Token.blank, blockItems?, blockItems?]
      · exact (ih.nodeUnless _ _ (isKind_of fun _ => rfl)).both ih.blockItems
          (j := fun x xs => x :: xs) (fun x xs => by rw [Node.blankItems]) ts
      · simp
    | scalar text plain => cases plain <;> rfl
    | _ => rfl

theorem shaped_entryItems (ih : AllShaped handles fuel) :
    IsShaped Node.blankItems (entryItems? handles (fuel + 1)) := by
  intro ts
  cases ts with
  | nil => rfl
  | cons t ts =>
    cases t with
    | item =>
      rw [List.map_cons, Token.blank, entryItems?, entryItems?]
      · exact (ih.nodeUnless _ _ (isKind_of fun _ => rfl)).both ih.entryItems
          (j := fun x xs => x :: xs) (fun x xs => by rw [Node.blankItems]) ts
      · simp
    | scalar text plain => cases plain <;> rfl
    | _ => rfl

theorem shaped_blockEntries (ih : AllShaped handles fuel) :
    IsShaped Node.blankEntries (blockEntries? handles (fuel + 1)) := by
  intro ts
  cases ts with
  | nil => rfl
  | cons t ts =>
    cases t with
    | key =>
      rw [List.map_cons, Token.blank, blockEntries?, blockEntries?]
      · exact (ih.nodeUnless _ _ (isKind_of fun _ => rfl)).three ih.blockValue ih.blockEntries
          (j := fun k v es => (k, v) :: es) (fun k v es => by rw [Node.blankEntries]) ts
      · simp
    | scalar text plain => cases plain <;> rfl
    | _ => rfl

theorem shaped_blockValue (ih : AllShaped handles fuel) :
    IsShaped Node.blank (blockValue? handles (fuel + 1)) := by
  intro ts
  cases ts with
  | nil => rfl
  | cons t ts =>
    cases t with
    | value =>
      rw [List.map_cons, Token.blank, blockValue?, blockValue?]
      · exact ih.nodeUnless _ _ (isKind_of fun _ => rfl) ts
      · simp
    | scalar text plain => cases plain <;> rfl
    | _ => rfl

theorem ne_blank {t : Token} {ts : List Token} (ht : ∀ text plain, t ≠ .scalar text plain)
    (h : ∀ r, ts ≠ t :: r) (r : List Token) : ts.map Token.blank ≠ t :: r := by
  intro heq
  cases ts with
  | nil => cases heq
  | cons u ts =>
    have hu := (List.cons.inj heq).1
    cases u with
    | scalar text plain => cases plain <;> exact ht _ _ hu.symm
    | _ => exact h ts (by rw [← hu]; rfl)

theorem shaped_flowItems (ih : AllShaped handles fuel) (first : Bool) :
    IsShaped Node.blankItems (flowItems? handles (fuel + 1) first) := by
  intro ts
  have hend : ∀ ts, (∃ r, ts = Token.flowSequenceEnd :: r) ∨ ∀ r, ts ≠ .flowSequenceEnd :: r := by
    intro ts
    by_cases h : ∃ r, ts = Token.flowSequenceEnd :: r
    · exact .inl h
    · exact .inr fun r hr => h ⟨r, hr⟩
  cases first with
  | true =>
    rcases hend ts with ⟨r, rfl⟩ | hne
    · rw [List.map_cons, Token.blank, flowItems?_end, flowItems?_end]
      · rfl
      · nofun
    · rw [flowItems?_first hne, flowItems?_first (ne_blank nofun hne)]
      exact ih.flowItem ts
  | false =>
    cases ts with
    | nil => rfl
    | cons t ts =>
      cases t with
      | flowSequenceEnd =>
        rw [List.map_cons, Token.blank, flowItems?_end, flowItems?_end]
        · rfl
        · nofun
      | comma =>
        have hcomma : Token.comma.blank = .comma := rfl
        rcases hend ts with ⟨r, rfl⟩ | hne
        · rfl
        · rw [List.map_cons, hcomma, flowItems?_comma hne, flowItems?_comma (ne_blank nofun hne)]
          exact ih.flowItem ts
      | scalar text plain => cases plain <;> rfl
      | _ => rfl

theorem shaped_flowItem (ih : AllShaped handles fuel) :
    IsShaped Node.blankItems (flowItem? handles (fuel + 1)) := by
  intro ts
  by_cases hkey : ∃ r, ts = .key :: r
  · obtain ⟨r, rfl⟩ := hkey
    have hblank : Token.key.blank = .key := rfl
    rw [List.map_cons, hblank, flowItem?, flowItem?]
    have hvalue := ih.flowValue Token.endsFlowItem (isKind_of fun _ => rfl)
    exact ih.flowItemKey.three hvalue (ih.flowItems false)
      (j := fun k v xs => Node.mapping .bare [(k, v)] :: xs) (fun k v xs => by
        simp only [Node.blankItems, Node.blank, Node.blankEntries]) r
  · have hne : ∀ r, ts ≠ .key :: r := fun r hr => hkey ⟨r, hr⟩
    rw [flowItem?, flowItem?]
    · exact (ih.node .flow).both (ih.flowItems false) (j := fun x xs => x :: xs)
        (fun x xs => by rw [Node.blankItems]) ts
    · exact hne
    · exact ne_blank (by simp) hne

theorem shaped_flowItemKey (ih : AllShaped handles fuel) :
    IsShaped Node.blank (flowItemKey? handles (fuel + 1)) := by
  intro ts
  rw [flowItemKey?, flowItemKey?, nextIs_blank (isKind_of fun _ => rfl)]
  split
  · simp [Node.empty, Node.blank]
  · exact ih.node _ ts

theorem shaped_flowValue (ih : AllShaped handles fuel) {missing : Token → Bool}
    (hm : IsKind missing) : IsShaped Node.blank (flowValue? handles (fuel + 1) missing) := by
  intro ts
  cases ts with
  | nil => rfl
  | cons t ts =>
    cases t with
    | value =>
      have hblank : Token.value.blank = .value := rfl
      rw [List.map_cons, hblank, flowValue?, flowValue?]
      exact ih.nodeUnless _ _ hm ts
    | scalar text plain => cases plain <;> rfl
    | _ => rfl

theorem shaped_flowEntries (ih : AllShaped handles fuel) (first : Bool) :
    IsShaped Node.blankEntries (flowEntries? handles (fuel + 1) first) := by
  intro ts
  have hend : ∀ ts, (∃ r, ts = Token.flowMappingEnd :: r) ∨ ∀ r, ts ≠ .flowMappingEnd :: r := by
    intro ts
    by_cases h : ∃ r, ts = Token.flowMappingEnd :: r
    · exact .inl h
    · exact .inr fun r hr => h ⟨r, hr⟩
  cases first with
  | true =>
    rcases hend ts with ⟨r, rfl⟩ | hne
    · rw [List.map_cons, Token.blank, flowEntries?_end, flowEntries?_end]
      · rfl
      · nofun
    · rw [flowEntries?_first hne, flowEntries?_first (ne_blank nofun hne)]
      exact ih.flowEntry ts
  | false =>
    cases ts with
    | nil => rfl
    | cons t ts =>
      cases t with
      | flowMappingEnd =>
        rw [List.map_cons, Token.blank, flowEntries?_end, flowEntries?_end]
        · rfl
        · nofun
      | comma =>
        have hcomma : Token.comma.blank = .comma := rfl
        rcases hend ts with ⟨r, rfl⟩ | hne
        · rfl
        · rw [List.map_cons, hcomma, flowEntries?_comma hne,
            flowEntries?_comma (ne_blank nofun hne)]
          exact ih.flowEntry ts
      | scalar text plain => cases plain <;> rfl
      | _ => rfl

theorem shaped_flowEntry (ih : AllShaped handles fuel) :
    IsShaped Node.blankEntries ( flowEntry? handles (fuel + 1)) := by
  intro ts
  by_cases hkey : ∃ r, ts = .key :: r
  · obtain ⟨r, rfl⟩ := hkey
    have hblank : Token.key.blank = .key := rfl
    rw [List.map_cons, hblank, flowEntry?, flowEntry?]
    have hvalue := ih.flowValue Token.endsFlowEntry (isKind_of fun _ => rfl)
    exact (ih.nodeUnless _ _ (isKind_of fun _ => rfl)).three hvalue (ih.flowEntries false)
      (j := fun k v es => (k, v) :: es) (fun k v es => by rw [Node.blankEntries]) r
  · have hne : ∀ r, ts ≠ .key :: r := fun r hr => hkey ⟨r, hr⟩
    rw [ flowEntry?, flowEntry?]
    · exact (ih.node .flow).both (ih.flowEntries false) (j := fun k es => (k, Node.empty) :: es)
        (fun k es => by simp only [Node.blankEntries, Node.empty, Node.blank]) ts
    · exact hne
    · exact ne_blank (by simp) hne

theorem allShaped (handles : Handles) (fuel : Nat) : AllShaped handles fuel := by
  induction fuel with
  | zero =>
    constructor <;> intros <;> intro ts <;>
      simp [node?, nodeUnless?, blockItems?, entryItems?, blockEntries?, blockValue?, flowItems?,
        flowItem?, flowItemKey?, flowValue?, flowEntries?, flowEntry?]
  | succ fuel ih =>
    exact ⟨shaped_node ih, fun _ context => shaped_nodeUnless ih context, shaped_blockItems ih,
      shaped_entryItems ih, shaped_blockEntries ih, shaped_blockValue ih, shaped_flowItems ih,
      shaped_flowItem ih, shaped_flowItemKey ih, fun _ => shaped_flowValue ih,
      shaped_flowEntries ih, shaped_flowEntry ih⟩

end Scaffold.Yaml
