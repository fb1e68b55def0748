import Scaffold.Proofs.Yaml.Lexer
import Scaffold.Yaml.Node

/-!
# Nodes in a longer stream

A node is read from the tokens that it takes, and what is behind them counts only as far as it ends
the node: at the end of a block there may as well be the next key of the mapping around it.
-/

namespace Scaffold.Yaml

/-! ## Aliases -/

namespace Node

mutual

/-- No node is an alias. -/
def isFree : Node → Bool
  | .alias _ => false
  | .scalar _ _ _ => true
  | .sequence _ xs => areFree xs
  | .mapping _ es => areFreeEntries es

def areFree : List Node → Bool
  | [] => true
  | x :: xs => isFree x && areFree xs

def areFreeEntries : List (Node × Node) → Bool
  | [] => true
  | (k, v) :: es => isFree k && isFree v && areFreeEntries es

end

end Node

def AreLocal (ts : List Token) : Prop :=
  ∀ t ∈ ts, t.isLocal = true

theorem AreLocal.suffix {ts r : List Token} (h : AreLocal ts) (hr : r <:+ ts) : AreLocal r :=
  fun t ht => h t (hr.subset ht)

/-- What `f` reads it takes from the beginning of the tokens; if they are local, it has `P`. -/
def Consumes {α : Type} (P : α → Bool) (f : List Token → Option (α × List Token)) : Prop :=
  ∀ ⦃ts x r⦄, f ts = some (x, r) → r <:+ ts ∧ (AreLocal ts → P x = true)

theorem properties?_suffix {handles : Handles} {ts r : List Token} {p : Properties}
    (h : properties? handles ts = some (p, r)) : r <:+ ts := by
  unfold properties? at h
  split at h
  · obtain ⟨tag, -, heq⟩ := Option.map_eq_some_iff.1 h
    cases heq
    exact (List.suffix_cons _ _).trans (List.suffix_cons _ _)
  · obtain ⟨tag, -, heq⟩ := Option.map_eq_some_iff.1 h
    cases heq
    exact (List.suffix_cons _ _).trans (List.suffix_cons _ _)
  · cases h
    exact List.suffix_cons _ _
  · obtain ⟨tag, -, heq⟩ := Option.map_eq_some_iff.1 h
    cases heq
    exact List.suffix_cons _ _
  · cases h
    exact List.suffix_refl _

structure AllConsume (handles : Handles) (fuel : Nat) : Prop where
  node : ∀ context, Consumes Node.isFree (node? handles fuel context)
  nodeUnless : ∀ missing context, Consumes Node.isFree (nodeUnless? handles fuel missing context)
  blockItems : Consumes Node.areFree (blockItems? handles fuel)
  entryItems : Consumes Node.areFree (entryItems? handles fuel)
  blockEntries : Consumes Node.areFreeEntries (blockEntries? handles fuel)
  blockValue : Consumes Node.isFree (blockValue? handles fuel)
  flowItems : ∀ first, Consumes Node.areFree (flowItems? handles fuel first)
  flowItem : Consumes Node.areFree (flowItem? handles fuel)
  flowItemKey : Consumes Node.isFree (flowItemKey? handles fuel)
  flowValue : ∀ missing, Consumes Node.isFree (flowValue? handles fuel missing)
  flowEntries : ∀ first, Consumes Node.areFreeEntries (flowEntries? handles fuel first)
  flowEntry : Consumes Node.areFreeEntries ( flowEntry? handles fuel)

variable {handles : Handles} {fuel : Nat}

theorem consumes_mapped {α : Type} {P : α → Bool} {f : List Token → Option (α × List Token)}
    (hf : Consumes P f) {g : α → Node} {ts r : List Token} {x : Node}
    (h : (f ts).map (fun (a, ts) => (g a, ts)) = some (x, r))
    (hg : ∀ a, P a = true → (g a).isFree = true) :
    r <:+ ts ∧ (AreLocal ts → x.isFree = true) := by
  obtain ⟨⟨a, r⟩, hread, heq⟩ := Option.map_eq_some_iff.1 h
  cases heq
  obtain ⟨hr, hfree⟩ := hf hread
  exact ⟨hr, fun hl => hg a (hfree hl)⟩

def content? (handles : Handles) (fuel : Nat) (context : Context) (p : Properties)
    (ts : List Token) : Option (Node × List Token) :=
  match context, ts with
  | .entry, .item :: _ =>
    (entryItems? handles fuel ts).map fun (xs, ts) => (.sequence p xs, ts)
  | _, .scalar text plain :: ts => some (.scalar p text plain, ts)
  | _, .flowSequence :: ts =>
    (flowItems? handles fuel true ts).map fun (xs, ts) => (.sequence p xs, ts)
  | _, .flowMapping :: ts =>
    (flowEntries? handles fuel true ts).map fun (es, ts) => (.mapping p es, ts)
  | .flow, ts => if p = .bare then none else some (.scalar p "" true, ts)
  | _, .blockSequence :: ts =>
    (blockItems? handles fuel ts).map fun (xs, ts) => (.sequence p xs, ts)
  | _, .blockMapping :: ts =>
    (blockEntries? handles fuel ts).map fun (es, ts) => (.mapping p es, ts)
  | _, ts => if p = .bare then none else some (.scalar p "" true, ts)

def Token.isAlias : Token → Bool
  | .alias _ => true
  | _ => false

theorem node?_alias (context : Context) (n : Nat) (ts : List Token) :
    node? handles (fuel + 1) context (.alias n :: ts) = some (.alias n, ts) := by
  rw [node?]

theorem node?_content (context : Context) {ts : List Token}
    (h : nextIs Token.isAlias ts = false) :
    node? handles (fuel + 1) context ts =
      (properties? handles ts).bind fun r => content? handles fuel context r.1 r.2 := by
  rw [node?.eq_def]
  split
  · rename_i heq
    exact absurd heq (Nat.succ_ne_zero fuel)
  · simp [nextIs, Token.isAlias] at h
  · rename_i context ts _ _ _ _ heq _
    cases heq
    cases properties? handles ts <;> rfl

/-! ## Readers by their first token -/

theorem blockItems?_end (ts : List Token) :
    blockItems? handles (fuel + 1) (.blockEnd :: ts) = some ([], ts) := by
  rw [blockItems?]
  exact Nat.succ_ne_zero fuel

theorem blockEntries?_end (ts : List Token) :
    blockEntries? handles (fuel + 1) (.blockEnd :: ts) = some ([], ts) := by
  rw [blockEntries?]
  exact Nat.succ_ne_zero fuel

theorem flowItems?_first {ts : List Token} (h : ∀ r, ts ≠ .flowSequenceEnd :: r) :
    flowItems? handles (fuel + 1) true ts = flowItem? handles fuel ts := by
  rw [flowItems?]
  exact h

theorem flowItems?_comma {ts : List Token} (h : ∀ r, ts ≠ .flowSequenceEnd :: r) :
    flowItems? handles (fuel + 1) false (.comma :: ts) = flowItem? handles fuel ts := by
  rw [flowItems?]
  exact h

theorem flowItems?_end (first : Bool) (ts : List Token) :
    flowItems? handles (fuel + 1) first (.flowSequenceEnd :: ts) = some ([], ts) := by
  rw [flowItems?]
  exact Nat.succ_ne_zero fuel

theorem flowItems?_commaEnd (ts : List Token) :
    flowItems? handles (fuel + 1) false (.comma :: .flowSequenceEnd :: ts) = some ([], ts) := by
  rw [flowItems?]
  exact Nat.succ_ne_zero fuel

theorem flowEntries?_first {ts : List Token} (h : ∀ r, ts ≠ .flowMappingEnd :: r) :
    flowEntries? handles (fuel + 1) true ts = flowEntry? handles fuel ts := by
  rw [flowEntries?]
  exact h

theorem flowEntries?_comma {ts : List Token} (h : ∀ r, ts ≠ .flowMappingEnd :: r) :
    flowEntries? handles (fuel + 1) false (.comma :: ts) = flowEntry? handles fuel ts := by
  rw [flowEntries?]
  exact h

theorem flowEntries?_end (first : Bool) (ts : List Token) :
    flowEntries? handles (fuel + 1) first (.flowMappingEnd :: ts) = some ([], ts) := by
  rw [flowEntries?]
  exact Nat.succ_ne_zero fuel

theorem flowEntries?_commaEnd (ts : List Token) :
    flowEntries? handles (fuel + 1) false (.comma :: .flowMappingEnd :: ts) = some ([], ts) := by
  rw [flowEntries?]
  exact Nat.succ_ne_zero fuel

/-! ## What is consumed -/

theorem suffix_tail {t : Token} {ts r : List Token} (h : r <:+ ts) : r <:+ t :: ts :=
  h.trans (List.suffix_cons t ts)

theorem AreLocal.tail {t : Token} {ts : List Token} (h : AreLocal (t :: ts)) : AreLocal ts :=
  h.suffix (List.suffix_cons t ts)

theorem consumes_content (ih : AllConsume handles fuel) (context : Context) (p : Properties) :
    Consumes Node.isFree (content? handles fuel context p) := by
  intro ts x r h
  unfold content? at h
  split at h
  · exact consumes_mapped ih.entryItems h fun _ hfree => hfree
  · cases h
    exact ⟨List.suffix_cons _ _, fun _ => rfl⟩
  · obtain ⟨hr, hfree⟩ := consumes_mapped (ih.flowItems true) h fun _ hfree => hfree
    exact ⟨suffix_tail hr, fun hl => hfree hl.tail⟩
  · obtain ⟨hr, hfree⟩ := consumes_mapped (ih.flowEntries true) h fun _ hfree => hfree
    exact ⟨suffix_tail hr, fun hl => hfree hl.tail⟩
  · split at h <;> cases h
    exact ⟨List.suffix_refl _, fun _ => rfl⟩
  · obtain ⟨hr, hfree⟩ := consumes_mapped ih.blockItems h fun _ hfree => hfree
    exact ⟨suffix_tail hr, fun hl => hfree hl.tail⟩
  · obtain ⟨hr, hfree⟩ := consumes_mapped ih.blockEntries h fun _ hfree => hfree
    exact ⟨suffix_tail hr, fun hl => hfree hl.tail⟩
  · split at h <;> cases h
    exact ⟨List.suffix_refl _, fun _ => rfl⟩

theorem consumes_node (ih : AllConsume handles fuel) (context : Context) :
    Consumes Node.isFree (node? handles (fuel + 1) context) := by
  intro ts x r h
  by_cases halias : nextIs Token.isAlias ts = true
  · match ts, halias with
    | .alias n :: ts, _ =>
      rw [node?_alias] at h
      cases h
      exact ⟨List.suffix_cons _ _, fun hl => absurd (hl _ (List.mem_cons_self ..)) nofun⟩
  · rw [node?_content context (by simpa using halias)] at h
    obtain ⟨⟨p, ts₁⟩, hprops, h₁⟩ := Option.bind_eq_some_iff.1 h
    obtain ⟨hr, hfree⟩ := consumes_content ih context p h₁
    have hsuffix := properties?_suffix hprops
    exact ⟨hr.trans hsuffix, fun hl => hfree (hl.suffix hsuffix)⟩

theorem consumes_nodeUnless (ih : AllConsume handles fuel) (missing : Token → Bool)
    (context : Context) :
    Consumes Node.isFree (nodeUnless? handles (fuel + 1) missing context) := by
  intro ts x r h
  rw [nodeUnless?] at h
  split at h
  · cases h
    exact ⟨List.suffix_refl _, fun _ => rfl⟩
  · exact ih.node context h

theorem Consumes.both {α β γ : Type} {P : α → Bool} {Q : β → Bool} {R : γ → Bool}
    {f : List Token → Option (α × List Token)} {g : List Token → Option (β × List Token)}
    (hf : Consumes P f) (hg : Consumes Q g) {j : α → β → γ} {ts r : List Token} {x : γ}
    (h : ((f ts).bind fun a => (g a.2).bind fun b => some (j a.1 b.1, b.2)) = some (x, r))
    (hj : ∀ a b, P a = true → Q b = true → R (j a b) = true) :
    r <:+ ts ∧ (AreLocal ts → R x = true) := by
  obtain ⟨⟨a, ts₁⟩, ha, h₁⟩ := Option.bind_eq_some_iff.1 h
  obtain ⟨⟨b, ts₂⟩, hb, h₂⟩ := Option.bind_eq_some_iff.1 h₁
  cases h₂
  obtain ⟨hsuffix, hP⟩ := hf ha
  obtain ⟨hsuffix', hQ⟩ := hg hb
  exact ⟨hsuffix'.trans hsuffix, fun hl => hj a b (hP hl) (hQ (hl.suffix hsuffix))⟩

theorem Consumes.entry {f g : List Token → Option (Node × List Token)}
    {m : List Token → Option (List (Node × Node) × List Token)} (hf : Consumes Node.isFree f)
    (hg : Consumes Node.isFree g) (hm : Consumes Node.areFreeEntries m) {ts r : List Token}
    {es : List (Node × Node)}
    (h : ((f ts).bind fun k => (g k.2).bind fun v => (m v.2).bind fun es =>
      some ((k.1, v.1) :: es.1, es.2)) = some (es, r)) :
    r <:+ ts ∧ (AreLocal ts → Node.areFreeEntries es = true) := by
  obtain ⟨⟨k, ts₁⟩, hk, h₁⟩ := Option.bind_eq_some_iff.1 h
  obtain ⟨⟨v, ts₂⟩, hv, h₂⟩ := Option.bind_eq_some_iff.1 h₁
  obtain ⟨⟨es, ts₃⟩, hes, h₃⟩ := Option.bind_eq_some_iff.1 h₂
  cases h₃
  obtain ⟨hsuffix, hfree⟩ := hf hk
  obtain ⟨hsuffix', hfree'⟩ := hg hv
  obtain ⟨hsuffix'', hfree''⟩ := hm hes
  refine ⟨hsuffix''.trans (hsuffix'.trans hsuffix), fun hl => ?_⟩
  have hl' := hl.suffix hsuffix
  simp [Node.areFreeEntries, hfree hl, hfree' hl', hfree'' (hl'.suffix hsuffix')]

theorem consumes_blockItems (ih : AllConsume handles fuel) :
    Consumes Node.areFree (blockItems? handles (fuel + 1)) := by
  intro ts xs r h
  rw [blockItems?.eq_def] at h
  split at h
  · cases h
  · rename_i heq
    cases heq
    obtain ⟨hr, hfree⟩ := (ih.nodeUnless _ _).both ih.blockItems (R := Node.areFree) h
      fun x xs hx hxs => by simp [Node.areFree, hx, hxs]
    exact ⟨suffix_tail hr, fun hl => hfree hl.tail⟩
  · cases h
    exact ⟨List.suffix_cons _ _, fun _ => rfl⟩
  · cases h

theorem consumes_entryItems (ih : AllConsume handles fuel) :
    Consumes Node.areFree (entryItems? handles (fuel + 1)) := by
  intro ts xs r h
  rw [entryItems?.eq_def] at h
  split at h
  · cases h
  · rename_i heq
    cases heq
    obtain ⟨hr, hfree⟩ := (ih.nodeUnless _ _).both ih.entryItems (R := Node.areFree) h
      fun x xs hx hxs => by simp [Node.areFree, hx, hxs]
    exact ⟨suffix_tail hr, fun hl => hfree hl.tail⟩
  · cases h
    exact ⟨List.suffix_refl _, fun _ => rfl⟩

theorem consumes_blockEntries (ih : AllConsume handles fuel) :
    Consumes Node.areFreeEntries (blockEntries? handles (fuel + 1)) := by
  intro ts es r h
  rw [blockEntries?.eq_def] at h
  split at h
  · cases h
  · rename_i heq
    cases heq
    obtain ⟨hr, hfree⟩ := (ih.nodeUnless _ _).entry ih.blockValue ih.blockEntries h
    exact ⟨suffix_tail hr, fun hl => hfree hl.tail⟩
  · cases h
    exact ⟨List.suffix_cons _ _, fun _ => rfl⟩
  · cases h

theorem consumes_blockValue (ih : AllConsume handles fuel) :
    Consumes Node.isFree (blockValue? handles (fuel + 1)) := by
  intro ts x r h
  rw [blockValue?.eq_def] at h
  split at h
  · cases h
  · rename_i heq
    cases heq
    obtain ⟨hr, hfree⟩ := ih.nodeUnless _ _ h
    exact ⟨suffix_tail hr, fun hl => hfree hl.tail⟩
  · cases h
    exact ⟨List.suffix_refl _, fun _ => rfl⟩

theorem consumes_flowItems (ih : AllConsume handles fuel) (first : Bool) :
    Consumes Node.areFree (flowItems? handles (fuel + 1) first) := by
  intro ts xs r h
  rw [flowItems?.eq_def] at h
  split at h
  · cases h
  · cases h
    exact ⟨List.suffix_cons _ _, fun _ => rfl⟩
  · rename_i heq _
    cases heq
    exact ih.flowItem h
  · cases h
    exact ⟨(List.suffix_cons _ _).trans (List.suffix_cons _ _), fun _ => rfl⟩
  · rename_i heq
    cases heq
    obtain ⟨hr, hfree⟩ := ih.flowItem h
    exact ⟨suffix_tail hr, fun hl => hfree hl.tail⟩
  · cases h

theorem consumes_flowItem (ih : AllConsume handles fuel) :
    Consumes Node.areFree (flowItem? handles (fuel + 1)) := by
  intro ts xs r h
  rw [flowItem?.eq_def] at h
  split at h
  · cases h
  · rename_i heq
    cases heq
    obtain ⟨⟨k, ts₁⟩, hk, h₁⟩ := Option.bind_eq_some_iff.1 h
    obtain ⟨⟨v, ts₂⟩, hv, h₂⟩ := Option.bind_eq_some_iff.1 h₁
    obtain ⟨⟨xs, ts₃⟩, hxs, h₃⟩ := Option.bind_eq_some_iff.1 h₂
    cases h₃
    obtain ⟨hsuffix, hfree⟩ := ih.flowItemKey hk
    obtain ⟨hsuffix', hfree'⟩ := ih.flowValue _ hv
    obtain ⟨hsuffix'', hfree''⟩ := ih.flowItems _ hxs
    refine ⟨suffix_tail (hsuffix''.trans (hsuffix'.trans hsuffix)), fun hl => ?_⟩
    have hl' := hl.tail.suffix hsuffix
    simp [Node.areFree, Node.isFree, Node.areFreeEntries, hfree hl.tail, hfree' hl',
      hfree'' (hl'.suffix hsuffix')]
  · rename_i heq _
    cases heq
    exact (ih.node .flow).both (ih.flowItems false) (R := Node.areFree) h
      fun x xs hx hxs => by simp [Node.areFree, hx, hxs]

theorem consumes_flowItemKey (ih : AllConsume handles fuel) :
    Consumes Node.isFree (flowItemKey? handles (fuel + 1)) := by
  intro ts x r h
  rw [flowItemKey?] at h
  split at h
  · cases h
    exact ⟨List.drop_suffix 1 ts, fun _ => rfl⟩
  · exact ih.node _ h

theorem consumes_flowValue (ih : AllConsume handles fuel) (missing : Token → Bool) :
    Consumes Node.isFree (flowValue? handles (fuel + 1) missing) := by
  intro ts x r h
  rw [flowValue?.eq_def] at h
  split at h
  · cases h
  · rename_i heq
    cases heq
    obtain ⟨hr, hfree⟩ := ih.nodeUnless _ _ h
    exact ⟨suffix_tail hr, fun hl => hfree hl.tail⟩
  · cases h
    exact ⟨List.suffix_refl _, fun _ => rfl⟩

theorem consumes_flowEntries (ih : AllConsume handles fuel) (first : Bool) :
    Consumes Node.areFreeEntries (flowEntries? handles (fuel + 1) first) := by
  intro ts es r h
  rw [flowEntries?.eq_def] at h
  split at h
  · cases h
  · cases h
    exact ⟨List.suffix_cons _ _, fun _ => rfl⟩
  · rename_i heq _
    cases heq
    exact ih.flowEntry h
  · cases h
    exact ⟨(List.suffix_cons _ _).trans (List.suffix_cons _ _), fun _ => rfl⟩
  · rename_i heq
    cases heq
    obtain ⟨hr, hfree⟩ := ih.flowEntry h
    exact ⟨suffix_tail hr, fun hl => hfree hl.tail⟩
  · cases h

theorem consumes_flowEntry (ih : AllConsume handles fuel) :
    Consumes Node.areFreeEntries ( flowEntry? handles (fuel + 1)) := by
  intro ts es r h
  rw [ flowEntry?.eq_def] at h
  split at h
  · cases h
  · rename_i heq
    cases heq
    obtain ⟨hr, hfree⟩ := (ih.nodeUnless _ _).entry (ih.flowValue _) (ih.flowEntries false) h
    exact ⟨suffix_tail hr, fun hl => hfree hl.tail⟩
  · rename_i heq _
    cases heq
    exact (ih.node .flow).both (ih.flowEntries false) (R := Node.areFreeEntries)
      (j := fun k es => (k, .empty) :: es) h
      fun k es hk hes => by simp [Node.areFreeEntries, Node.empty, Node.isFree, hk, hes]

theorem allConsume (handles : Handles) (fuel : Nat) : AllConsume handles fuel := by
  induction fuel with
  | zero =>
    constructor <;> intros <;> intro ts x r h <;>
      simp [node?, nodeUnless?, blockItems?, entryItems?, blockEntries?, blockValue?, flowItems?,
        flowItem?, flowItemKey?, flowValue?, flowEntries?, flowEntry?] at h
  | succ fuel ih =>
    exact ⟨consumes_node ih, consumes_nodeUnless ih, consumes_blockItems ih, consumes_entryItems ih,
      consumes_blockEntries ih, consumes_blockValue ih, consumes_flowItems ih,
      consumes_flowItem ih, consumes_flowItemKey ih, consumes_flowValue ih,
      consumes_flowEntries ih, consumes_flowEntry ih⟩

end Scaffold.Yaml
