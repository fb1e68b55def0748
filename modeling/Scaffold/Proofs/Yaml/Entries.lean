import Scaffold.Proofs.Yaml.Node

/-!
# Entries in a longer mapping

At the end of the last value of a mapping there may as well be a further key. A reader that stops
there carries on from the key (`Carries`), so the entries of two mappings in block style that
follow one another are the entries of one (`blockEntries?_append`).
-/

namespace Scaffold.Yaml

/-- Where an entry of a block mapping ends, its next key stands or its end. -/
def Token.EndsValue (u : Token) : Prop :=
  u = .key ∨ u = .blockEnd

theorem Token.EndsValue.ne {t u : Token} (hu : u.EndsValue) (hk : t ≠ .key)
    (he : t ≠ .blockEnd) : t ≠ u := by
  rcases hu with rfl | rfl
  · exact hk
  · exact he

theorem Token.EndsValue.apply {u : Token} (hu : u.EndsValue) {f : Token → Bool}
    (hf : f .blockEnd = f .key) : f .blockEnd = f u := by
  rcases hu with rfl | rfl
  · exact hf
  · rfl

/-- Where `f` stops in front of the end of a block, `g` stops in front of `u` in its place. -/
def Carries {α : Type} (u : Token) (after : List Token)
    (f g : List Token → Option (α × List Token)) : Prop :=
  ∀ ⦃B x B'⦄, f (B ++ [.blockEnd]) = some (x, B' ++ [.blockEnd]) →
    g (B ++ u :: after) = some (x, B' ++ u :: after)

variable {handles : Handles} {fuel fuel' : Nat} {u : Token} {after B B' ts : List Token}

/-- All readers carry on, the second with more fuel. A node may be missing in front of the end of
a block and not in front of a key; then it must not be missing. -/
structure AllCarry (handles : Handles) (u : Token) (after : List Token) (fuel fuel' : Nat) :
    Prop where
  node : ∀ context, Carries u after (node? handles fuel context) (node? handles fuel' context)
  nodeUnless : ∀ missing context ⦃B x B'⦄, (B ≠ [] ∨ missing .blockEnd = missing u) →
    nodeUnless? handles fuel missing context (B ++ [.blockEnd]) = some (x, B' ++ [.blockEnd]) →
      nodeUnless? handles fuel' missing context (B ++ u :: after) =
        some (x, B' ++ u :: after)
  blockItems : Carries u after (blockItems? handles fuel) (blockItems? handles fuel')
  entryItems : Carries u after (entryItems? handles fuel) (entryItems? handles fuel')
  blockEntries : Carries u after (blockEntries? handles fuel) (blockEntries? handles fuel')
  blockValue : Carries u after (blockValue? handles fuel) (blockValue? handles fuel')
  flowItems : ∀ first,
    Carries u after (flowItems? handles fuel first) (flowItems? handles fuel' first)
  flowItem : Carries u after (flowItem? handles fuel) (flowItem? handles fuel')
  flowItemKey : Carries u after (flowItemKey? handles fuel) (flowItemKey? handles fuel')
  flowValue : ∀ missing, missing .blockEnd = missing u →
    Carries u after (flowValue? handles fuel missing) (flowValue? handles fuel' missing)
  flowEntries : ∀ first,
    Carries u after (flowEntries? handles fuel first) (flowEntries? handles fuel' first)
  flowEntry : Carries u after ( flowEntry? handles fuel) ( flowEntry? handles fuel')

theorem ends_of_suffix (h : B' ++ [.blockEnd] <:+ ts) : ∃ B, ts = B ++ [.blockEnd] := by
  obtain ⟨C, rfl⟩ := h
  exact ⟨C ++ B', (List.append_assoc ..).symm⟩

theorem tail_of_ends {t : Token} (h : B ++ [.blockEnd] = t :: ts) (ht : t ≠ .blockEnd) :
    ∃ B₁, B = t :: B₁ ∧ ts = B₁ ++ [.blockEnd] := by
  cases B with
  | nil =>
    cases h
    exact absurd rfl ht
  | cons u B =>
    cases h
    exact ⟨B, rfl, rfl⟩

theorem append_end_ne_nil (B : List Token) : B ++ [Token.blockEnd] ≠ [] := by
  simp

theorem carries_mapped {α : Type} {f f' : List Token → Option (α × List Token)} {g : α → Node}
    (hf : Carries u after f f') {x : Node}
    (h : (f (B ++ [.blockEnd])).map (fun (a, ts) => (g a, ts)) = some (x, B' ++ [.blockEnd])) :
    (f' (B ++ u :: after)).map (fun (a, ts) => (g a, ts)) = some (x, B' ++ u :: after) := by
  obtain ⟨⟨a, r⟩, hread, heq⟩ := Option.map_eq_some_iff.1 h
  cases heq
  rw [hf hread]
  rfl

theorem Carries.both {α β γ : Type} {f f' : List Token → Option (α × List Token)}
    {g g' : List Token → Option (β × List Token)} {Q : β → Bool} (hf : Carries u after f f')
    (hg : Carries u after g g') (hc : Consumes Q g) {j : α → β → γ} {x : γ}
    (h : ((f (B ++ [.blockEnd])).bind fun a => (g a.2).bind fun b => some (j a.1 b.1, b.2)) =
      some (x, B' ++ [.blockEnd])) :
    ((f' (B ++ u :: after)).bind fun a => (g' a.2).bind fun b => some (j a.1 b.1, b.2)) =
      some (x, B' ++ u :: after) := by
  obtain ⟨⟨a, ts₁⟩, ha, h₁⟩ := Option.bind_eq_some_iff.1 h
  obtain ⟨⟨b, ts₂⟩, hb, h₂⟩ := Option.bind_eq_some_iff.1 h₁
  cases h₂
  obtain ⟨B₁, rfl⟩ := ends_of_suffix (hc hb).1
  rw [hf ha, Option.bind_some, hg hb]
  rfl

theorem Carries.three {α β γ δ : Type} {f f' : List Token → Option (α × List Token)}
    {g g' : List Token → Option (β × List Token)} {m m' : List Token → Option (γ × List Token)}
    {Q : β → Bool} {R : γ → Bool} (hf : Carries u after f f') (hg : Carries u after g g')
    (hm : Carries u after m m') (hgc : Consumes Q g) (hmc : Consumes R m) {j : α → β → γ → δ}
    {x : δ}
    (h : ((f (B ++ [.blockEnd])).bind fun a => (g a.2).bind fun b => (m b.2).bind fun c =>
      some (j a.1 b.1 c.1, c.2)) = some (x, B' ++ [.blockEnd])) :
    ((f' (B ++ u :: after)).bind fun a => (g' a.2).bind fun b => (m' b.2).bind fun c =>
      some (j a.1 b.1 c.1, c.2)) = some (x, B' ++ u :: after) := by
  obtain ⟨⟨a, ts₁⟩, ha, h₁⟩ := Option.bind_eq_some_iff.1 h
  obtain ⟨⟨b, ts₂⟩, hb, h₂⟩ := Option.bind_eq_some_iff.1 h₁
  obtain ⟨⟨c, ts₃⟩, hc, h₃⟩ := Option.bind_eq_some_iff.1 h₂
  cases h₃
  obtain ⟨B₂, rfl⟩ := ends_of_suffix (hmc hc).1
  obtain ⟨B₁, rfl⟩ := ends_of_suffix (hgc hb).1
  rw [hf ha, Option.bind_some, hg hb, Option.bind_some, hm hc]
  rfl

theorem properties?_carry (hu : u.EndsValue) {p : Properties} {r : List Token}
    (h : properties? handles (B ++ [.blockEnd]) = some (p, r)) :
    ∃ B₁, r = B₁ ++ [.blockEnd] ∧
      properties? handles (B ++ u :: after) = some (p, B₁ ++ u :: after) := by
  match B with
  | [] =>
    cases h
    rcases hu with rfl | rfl <;> exact ⟨[], rfl, rfl⟩
  | [t] =>
    cases t with
    | anchor n =>
      cases h
      rcases hu with rfl | rfl <;> exact ⟨[], rfl, rfl⟩
    | tag handle suffix =>
      obtain ⟨tag, htag, heq⟩ := Option.map_eq_some_iff.1 h
      cases heq
      rcases hu with rfl | rfl <;> exact ⟨[], rfl, Option.map_eq_some_iff.2 ⟨tag, htag, rfl⟩⟩
    | _ =>
      cases h
      exact ⟨[_], rfl, rfl⟩
  | t :: u :: B =>
    cases t with
    | anchor n =>
      cases u with
      | tag handle suffix =>
        obtain ⟨tag, htag, heq⟩ := Option.map_eq_some_iff.1 h
        cases heq
        exact ⟨B, rfl, Option.map_eq_some_iff.2 ⟨tag, htag, rfl⟩⟩
      | _ =>
        cases h
        exact ⟨_ :: B, rfl, rfl⟩
    | tag handle suffix =>
      cases u with
      | anchor n =>
        obtain ⟨tag, htag, heq⟩ := Option.map_eq_some_iff.1 h
        cases heq
        exact ⟨B, rfl, Option.map_eq_some_iff.2 ⟨tag, htag, rfl⟩⟩
      | _ =>
        obtain ⟨tag, htag, heq⟩ := Option.map_eq_some_iff.1 h
        cases heq
        exact ⟨_ :: B, rfl, Option.map_eq_some_iff.2 ⟨tag, htag, rfl⟩⟩
    | _ =>
      cases h
      exact ⟨_ :: u :: B, rfl, rfl⟩

theorem carries_content (hu : u.EndsValue) (ih : AllCarry handles u after fuel fuel')
    (context : Context)
    (p : Properties) :
    Carries u after (content? handles fuel context p) (content? handles fuel' context p) := by
  intro B x B' h
  -- Without a token of its own there is a node only if it has properties.
  have hbare : ∀ {B x B'}, (if p = .bare then none else
      some (Node.scalar p "" true, B ++ [Token.blockEnd])) = some (x, B' ++ [.blockEnd]) →
        (if p = .bare then none else some (Node.scalar p "" true, B ++ u :: after)) =
          some (x, B' ++ u :: after) := by
    intro B x B' h
    split at h
    · cases h
    · rename_i hp
      rw [if_neg hp]
      obtain ⟨rfl, hB⟩ := Prod.mk.inj (Option.some.inj h)
      rw [List.append_cancel_right hB]
  cases B with
  | nil => rcases hu with rfl | rfl <;> cases context <;> exact hbare (B := []) h
  | cons t B =>
    cases t with
    | scalar text plain =>
      have h' : some (Node.scalar p text plain, B ++ [Token.blockEnd]) =
          some (x, B' ++ [.blockEnd]) := by
        cases context <;> exact h
      obtain ⟨rfl, hB⟩ := Prod.mk.inj (Option.some.inj h')
      rw [List.append_cancel_right hB]
      cases context <;> rfl
    | flowSequence => cases context <;> exact carries_mapped (ih.flowItems true) h
    | flowMapping => cases context <;> exact carries_mapped (ih.flowEntries true) h
    | item =>
      cases context with
      | entry => exact carries_mapped (B := .item :: B) ih.entryItems h
      | _ => exact hbare (B := .item :: B) h
    | blockSequence =>
      cases context with
      | flow => exact hbare (B := .blockSequence :: B) h
      | _ => exact carries_mapped ih.blockItems h
    | blockMapping =>
      cases context with
      | flow => exact hbare (B := .blockMapping :: B) h
      | _ => exact carries_mapped ih.blockEntries h
    | _ => cases context <;> exact hbare (B := _ :: B) h

theorem carries_node (hu : u.EndsValue) (ih : AllCarry handles u after fuel fuel')
    (context : Context) :
    Carries u after (node? handles (fuel + 1) context) (node? handles (fuel' + 1) context) := by
  intro B x B' h
  by_cases halias : nextIs Token.isAlias (B ++ [.blockEnd]) = true
  · cases B with
    | nil => cases halias
    | cons t B =>
      cases t with
      | «alias» n =>
        rw [List.cons_append, node?_alias] at h
        rw [List.cons_append, node?_alias]
        obtain ⟨rfl, hB⟩ := Prod.mk.inj (Option.some.inj h)
        rw [List.append_cancel_right hB]
      | _ => cases halias
  · have halias' : nextIs Token.isAlias (B ++ u :: after) = false := by
      cases B with
      | nil => rcases hu with rfl | rfl <;> rfl
      | cons t B => simpa [nextIs] using halias
    rw [node?_content context (by simpa using halias)] at h
    rw [node?_content context halias']
    obtain ⟨⟨p, r⟩, hprops, h₁⟩ := Option.bind_eq_some_iff.1 h
    obtain ⟨B₁, rfl, hprops'⟩ := properties?_carry hu hprops
    rw [hprops', Option.bind_some]
    exact carries_content hu ih context p h₁

theorem carries_nodeUnless (ih : AllCarry handles u after fuel fuel') (missing : Token → Bool)
    (context : Context) ⦃B : List Token⦄ ⦃x : Node⦄ ⦃B' : List Token⦄
    (hB : B ≠ [] ∨ missing .blockEnd = missing u)
    (h : nodeUnless? handles (fuel + 1) missing context (B ++ [.blockEnd]) =
      some (x, B' ++ [.blockEnd])) :
    nodeUnless? handles (fuel' + 1) missing context (B ++ u :: after) =
      some (x, B' ++ u :: after) := by
  have hnext : nextIs missing (B ++ u :: after) = nextIs missing (B ++ [.blockEnd]) := by
    cases B with
    | nil =>
      rcases hB with hB | hB
      · exact absurd rfl hB
      · exact hB.symm
    | cons t B => rfl
  rw [nodeUnless?] at h ⊢
  rw [hnext]
  split at h
  · rename_i hmissing
    rw [if_pos hmissing]
    obtain ⟨rfl, hB⟩ := Prod.mk.inj (Option.some.inj h)
    rw [List.append_cancel_right hB]
  · rename_i hmissing
    rw [if_neg hmissing]
    exact ih.node context h

theorem carries_done {α : Type} {a x : α} (h : some (a, B ++ [Token.blockEnd]) =
    some (x, B' ++ [.blockEnd])) (u : Token) (after : List Token) :
    some (a, B ++ u :: after) = some (x, B' ++ u :: after) := by
  obtain ⟨rfl, hB⟩ := Prod.mk.inj (Option.some.inj h)
  rw [List.append_cancel_right hB]

theorem carries_blockItems (ih : AllCarry handles u after fuel fuel') :
    Carries u after (blockItems? handles (fuel + 1)) (blockItems? handles (fuel' + 1)) := by
  intro B xs B' h
  cases B with
  | nil =>
    rw [List.nil_append, blockItems?_end] at h
    exact absurd (Prod.mk.inj (Option.some.inj h)).2.symm (append_end_ne_nil B')
  | cons t B =>
    cases t with
    | item =>
      rw [List.cons_append, blockItems?] at h ⊢
      obtain ⟨⟨y, ts₁⟩, hy, h₁⟩ := Option.bind_eq_some_iff.1 h
      obtain ⟨⟨ys, ts₂⟩, hys, h₂⟩ := Option.bind_eq_some_iff.1 h₁
      cases h₂
      obtain ⟨B₁, rfl⟩ := ends_of_suffix ((allConsume handles fuel).blockItems hys).1
      -- The item that is missing at the end would leave nothing to end the sequence.
      have hB : B ≠ [] := by
        rintro rfl
        cases fuel with
        | zero => simp [nodeUnless?] at hy
        | succ fuel =>
          rw [List.nil_append, nodeUnless?, if_pos (by rfl)] at hy
          have hB₁ := (Prod.mk.inj (Option.some.inj hy)).2
          rw [← hB₁, blockItems?_end] at hys
          exact append_end_ne_nil B' (Prod.mk.inj (Option.some.inj hys)).2.symm
      rw [ih.nodeUnless _ _ (.inl hB) hy, Option.bind_eq_bind, Option.bind_some]
      dsimp only
      rw [ih.blockItems hys]
      rfl
    | blockEnd =>
      rw [List.cons_append, blockItems?_end] at h ⊢
      exact carries_done h u after
    | _ =>
      rw [List.cons_append, blockItems?] at h
      · cases h
      all_goals simp

theorem carries_entryItems (hu : u.EndsValue) (ih : AllCarry handles u after fuel fuel') :
    Carries u after (entryItems? handles (fuel + 1)) (entryItems? handles (fuel' + 1)) := by
  intro B xs B' h
  cases B with
  | nil => rcases hu with rfl | rfl <;> exact carries_done (B := []) h _ after
  | cons t B =>
    cases t with
    | item =>
      rw [List.cons_append, entryItems?] at h ⊢
      have hf : Carries u after
          (nodeUnless? handles fuel (fun t => t.endsItem || t.endsEntry) .block)
          (nodeUnless? handles fuel' (fun t => t.endsItem || t.endsEntry) .block) :=
        fun _ _ _ => ih.nodeUnless _ _
          (.inr (hu.apply (f := fun t => t.endsItem || t.endsEntry) rfl))
      exact hf.both ih.entryItems (allConsume handles fuel).entryItems h
    | _ => exact carries_done (B := _ :: B) h u after

theorem carries_blockEntries (hu : u.EndsValue) (ih : AllCarry handles u after fuel fuel') :
    Carries u after (blockEntries? handles (fuel + 1)) (blockEntries? handles (fuel' + 1)) := by
  intro B es B' h
  cases B with
  | nil =>
    rw [List.nil_append, blockEntries?_end] at h
    exact absurd (Prod.mk.inj (Option.some.inj h)).2.symm (append_end_ne_nil B')
  | cons t B =>
    cases t with
    | key =>
      rw [List.cons_append, blockEntries?] at h ⊢
      have hf : Carries u after (nodeUnless? handles fuel Token.endsEntry .entry)
          (nodeUnless? handles fuel' Token.endsEntry .entry) :=
        fun _ _ _ => ih.nodeUnless _ _ (.inr (hu.apply rfl))
      exact hf.three ih.blockValue ih.blockEntries (allConsume handles fuel).blockValue
        (allConsume handles fuel).blockEntries (j := fun k v es => (k, v) :: es) h
    | blockEnd =>
      rw [List.cons_append, blockEntries?_end] at h ⊢
      exact carries_done h u after
    | _ =>
      rw [List.cons_append, blockEntries?] at h
      · cases h
      all_goals simp

theorem carries_blockValue (hu : u.EndsValue) (ih : AllCarry handles u after fuel fuel') :
    Carries u after (blockValue? handles (fuel + 1)) (blockValue? handles (fuel' + 1)) := by
  intro B x B' h
  cases B with
  | nil => rcases hu with rfl | rfl <;> exact carries_done (B := []) h _ after
  | cons t B =>
    cases t with
    | value =>
      rw [List.cons_append, blockValue?] at h ⊢
      exact ih.nodeUnless _ _ (.inr (hu.apply rfl)) h
    | _ => exact carries_done (B := _ :: B) h u after

theorem node?_blockEnd (context : Context) (ts : List Token) :
    node? handles fuel context (.blockEnd :: ts) = none := by
  cases fuel with
  | zero => rw [node?]
  | succ fuel =>
    rw [node?_content context rfl]
    cases context <;> rfl

theorem ne_end_cons {t : Token} (hk : t ≠ u)
    (h : ∀ r, B ++ [.blockEnd] ≠ t :: r) (r : List Token) : B ++ u :: after ≠ t :: r := by
  cases B with
  | nil =>
    intro heq
    exact hk (List.cons.inj heq).1.symm
  | cons u B =>
    intro heq
    exact h (B ++ [.blockEnd]) (by rw [List.cons_append, (List.cons.inj heq).1])

theorem ne_key_cons (hB : B ≠ []) (h : ∀ r, B ++ [.blockEnd] ≠ .key :: r) (r : List Token) :
    B ++ u :: after ≠ .key :: r := by
  cases B with
  | nil => exact absurd rfl hB
  | cons t B =>
    intro heq
    exact h (B ++ [.blockEnd]) (by rw [List.cons_append, (List.cons.inj heq).1])

theorem carries_flowItems (hu : u.EndsValue) (ih : AllCarry handles u after fuel fuel')
    (first : Bool) :
    Carries u after (flowItems? handles (fuel + 1) first)
      (flowItems? handles (fuel' + 1) first) := by
  intro B xs B' h
  cases first with
  | true =>
    by_cases hend : ∃ r, B ++ [.blockEnd] = .flowSequenceEnd :: r
    · obtain ⟨r, hr⟩ := hend
      obtain ⟨B, rfl, rfl⟩ := tail_of_ends hr (by simp)
      rw [List.cons_append, flowItems?_end] at h ⊢
      exact carries_done h u after
    · have hne : ∀ r, B ++ [.blockEnd] ≠ .flowSequenceEnd :: r := fun r hr => hend ⟨r, hr⟩
      rw [flowItems?_first hne] at h
      rw [flowItems?_first (ne_end_cons (hu.ne nofun nofun) hne)]
      exact ih.flowItem h
  | false =>
    cases B with
    | nil => cases h
    | cons t B =>
      cases t with
      | flowSequenceEnd =>
        rw [List.cons_append, flowItems?_end] at h ⊢
        exact carries_done h u after
      | comma =>
        by_cases hend : ∃ r, B ++ [.blockEnd] = .flowSequenceEnd :: r
        · obtain ⟨r, hr⟩ := hend
          obtain ⟨B, rfl, rfl⟩ := tail_of_ends hr (by simp)
          rw [List.cons_append, List.cons_append, flowItems?_commaEnd] at h ⊢
          exact carries_done h u after
        · have hne : ∀ r, B ++ [.blockEnd] ≠ .flowSequenceEnd :: r := fun r hr => hend ⟨r, hr⟩
          rw [List.cons_append, flowItems?_comma hne] at h
          rw [List.cons_append, flowItems?_comma (ne_end_cons (hu.ne nofun nofun) hne)]
          exact ih.flowItem h
      | _ => cases h

theorem carries_flowItem (hu : u.EndsValue) (ih : AllCarry handles u after fuel fuel') :
    Carries u after (flowItem? handles (fuel + 1)) (flowItem? handles (fuel' + 1)) := by
  intro B xs B' h
  by_cases hkey : ∃ r, B ++ [.blockEnd] = .key :: r
  · obtain ⟨r, hr⟩ := hkey
    obtain ⟨B, rfl, rfl⟩ := tail_of_ends hr (by simp)
    rw [List.cons_append, flowItem?] at h ⊢
    exact ih.flowItemKey.three (ih.flowValue _ (hu.apply rfl)) (ih.flowItems false)
      ((allConsume handles fuel).flowValue _) ((allConsume handles fuel).flowItems false)
      (j := fun k v xs => .mapping .bare [(k, v)] :: xs) h
  · have hne : ∀ r, B ++ [.blockEnd] ≠ .key :: r := fun r hr => hkey ⟨r, hr⟩
    have hB : B ≠ [] := by
      rintro rfl
      rw [List.nil_append, flowItem?, node?_blockEnd] at h
      · cases h
      · simp
    rw [flowItem?] at h ⊢
    · exact (ih.node .flow).both (ih.flowItems false) ((allConsume handles fuel).flowItems false) h
    · exact ne_key_cons hB hne
    · exact hne

theorem carries_flowItemKey (ih : AllCarry handles u after fuel fuel') :
    Carries u after (flowItemKey? handles (fuel + 1)) (flowItemKey? handles (fuel' + 1)) := by
  intro B x B' h
  rw [flowItemKey?] at h ⊢
  cases B with
  | nil =>
    rw [List.nil_append, if_neg (by decide), node?_blockEnd] at h
    cases h
  | cons t B =>
    have hnext : nextIs (fun t => t == .value || t.endsFlowItem) (t :: B ++ u :: after) =
        nextIs (fun t => t == .value || t.endsFlowItem) (t :: B ++ [.blockEnd]) := rfl
    rw [hnext]
    split at h
    · rename_i hmissing
      rw [if_pos hmissing]
      exact carries_done (B := B) h u after
    · rename_i hmissing
      rw [if_neg hmissing]
      exact ih.node _ h

theorem carries_flowValue (hu : u.EndsValue) (ih : AllCarry handles u after fuel fuel')
    {missing : Token → Bool}
    (hm : missing .blockEnd = missing u) :
    Carries u after (flowValue? handles (fuel + 1) missing)
      (flowValue? handles (fuel' + 1) missing) := by
  intro B x B' h
  cases B with
  | nil => rcases hu with rfl | rfl <;> exact carries_done (B := []) h _ after
  | cons t B =>
    cases t with
    | value =>
      rw [List.cons_append, flowValue?] at h ⊢
      exact ih.nodeUnless _ _ (.inr hm) h
    | _ => exact carries_done (B := _ :: B) h u after

theorem carries_flowEntries (hu : u.EndsValue) (ih : AllCarry handles u after fuel fuel')
    (first : Bool) :
    Carries u after (flowEntries? handles (fuel + 1) first)
      (flowEntries? handles (fuel' + 1) first) := by
  intro B es B' h
  cases first with
  | true =>
    by_cases hend : ∃ r, B ++ [.blockEnd] = .flowMappingEnd :: r
    · obtain ⟨r, hr⟩ := hend
      obtain ⟨B, rfl, rfl⟩ := tail_of_ends hr (by simp)
      rw [List.cons_append, flowEntries?_end] at h ⊢
      exact carries_done h u after
    · have hne : ∀ r, B ++ [.blockEnd] ≠ .flowMappingEnd :: r := fun r hr => hend ⟨r, hr⟩
      rw [flowEntries?_first hne] at h
      rw [flowEntries?_first (ne_end_cons (hu.ne nofun nofun) hne)]
      exact ih.flowEntry h
  | false =>
    cases B with
    | nil => cases h
    | cons t B =>
      cases t with
      | flowMappingEnd =>
        rw [List.cons_append, flowEntries?_end] at h ⊢
        exact carries_done h u after
      | comma =>
        by_cases hend : ∃ r, B ++ [.blockEnd] = .flowMappingEnd :: r
        · obtain ⟨r, hr⟩ := hend
          obtain ⟨B, rfl, rfl⟩ := tail_of_ends hr (by simp)
          rw [List.cons_append, List.cons_append, flowEntries?_commaEnd] at h ⊢
          exact carries_done h u after
        · have hne : ∀ r, B ++ [.blockEnd] ≠ .flowMappingEnd :: r := fun r hr => hend ⟨r, hr⟩
          rw [List.cons_append, flowEntries?_comma hne] at h
          rw [List.cons_append, flowEntries?_comma (ne_end_cons (hu.ne nofun nofun) hne)]
          exact ih.flowEntry h
      | _ => cases h

theorem carries_flowEntry (hu : u.EndsValue) (ih : AllCarry handles u after fuel fuel') :
    Carries u after ( flowEntry? handles (fuel + 1)) ( flowEntry? handles (fuel' + 1)) := by
  intro B es B' h
  by_cases hkey : ∃ r, B ++ [.blockEnd] = .key :: r
  · obtain ⟨r, hr⟩ := hkey
    obtain ⟨B, rfl, rfl⟩ := tail_of_ends hr (by simp)
    rw [List.cons_append, flowEntry?] at h ⊢
    have hf : Carries u after
        (nodeUnless? handles fuel (fun t => t == .value || t.endsFlowEntry) .flow)
        (nodeUnless? handles fuel' (fun t => t == .value || t.endsFlowEntry) .flow) :=
      fun _ _ _ => ih.nodeUnless _ _
        (.inr (hu.apply (f := fun t => t == .value || t.endsFlowEntry) rfl))
    exact hf.three (ih.flowValue _ (hu.apply rfl)) (ih.flowEntries false)
      ((allConsume handles fuel).flowValue _) ((allConsume handles fuel).flowEntries false)
      (j := fun k v es => (k, v) :: es) h
  · have hne : ∀ r, B ++ [.blockEnd] ≠ .key :: r := fun r hr => hkey ⟨r, hr⟩
    have hB : B ≠ [] := by
      rintro rfl
      rw [List.nil_append, flowEntry?, node?_blockEnd] at h
      · cases h
      · simp
    rw [ flowEntry?] at h ⊢
    · exact (ih.node .flow).both (ih.flowEntries false)
        ((allConsume handles fuel).flowEntries false) (j := fun k es => (k, .empty) :: es) h
    · exact ne_key_cons hB hne
    · exact hne

theorem allCarry (handles : Handles) {u : Token} (hu : u.EndsValue) (after : List Token)
    {fuel fuel' : Nat} (h : fuel ≤ fuel') : AllCarry handles u after fuel fuel' := by
  induction fuel generalizing fuel' with
  | zero =>
    constructor <;> intros <;> (try intro B x B' h) <;>
      simp_all [node?, nodeUnless?, blockItems?, entryItems?, blockEntries?, blockValue?,
        flowItems?, flowItem?, flowItemKey?, flowValue?, flowEntries?, flowEntry?]
  | succ fuel ih =>
    cases fuel' with
    | zero => omega
    | succ fuel' =>
      have ih := ih (Nat.le_of_succ_le_succ h)
      exact ⟨carries_node hu ih, carries_nodeUnless ih, carries_blockItems ih,
        carries_entryItems hu ih, carries_blockEntries hu ih, carries_blockValue hu ih,
        carries_flowItems hu ih, carries_flowItem hu ih, carries_flowItemKey ih,
        fun _ => carries_flowValue hu ih, carries_flowEntries hu ih,
        carries_flowEntry hu ih⟩

/-! ## Entries one behind the other -/

theorem blockEntries?_ends {es : List (Node × Node)}
    (h : blockEntries? handles fuel ts = some (es, [])) : ∃ B, ts = B ++ [.blockEnd] := by
  induction fuel generalizing ts es with
  | zero => simp [blockEntries?] at h
  | succ fuel ih =>
    cases ts with
    | nil => cases h
    | cons t ts =>
      cases t with
      | key =>
        rw [blockEntries?] at h
        obtain ⟨⟨k, ts₁⟩, hk, h₁⟩ := Option.bind_eq_some_iff.1 h
        obtain ⟨⟨v, ts₂⟩, hv, h₂⟩ := Option.bind_eq_some_iff.1 h₁
        obtain ⟨⟨es, ts₃⟩, hes, h₃⟩ := Option.bind_eq_some_iff.1 h₂
        cases h₃
        obtain ⟨B, hB⟩ := ih hes
        have hsuffix := ((allConsume handles fuel).blockValue hv).1.trans
          ((allConsume handles fuel).nodeUnless _ _ hk).1
        obtain ⟨C, hC⟩ := hsuffix
        refine ⟨.key :: (C ++ B), ?_⟩
        rw [← hC]
        rw [hB]
        simp
      | blockEnd =>
        rw [blockEntries?_end] at h
        have hts := (Prod.mk.inj (Option.some.inj h)).2
        exact ⟨[], by rw [hts]; rfl⟩
      | _ => cases h

/-- The entries of a mapping, and those that come in place of its end. -/
theorem blockEntries?_append (hu : u.EndsValue) {es fs : List (Node × Node)} {r : List Token}
    (h : blockEntries? handles fuel (B ++ [.blockEnd]) = some (es, []))
    (hle : fuel ≤ fuel' + es.length)
    (hfs : blockEntries? handles fuel' (u :: after) = some (fs, r)) :
    blockEntries? handles (fuel' + es.length) (B ++ u :: after) = some (es ++ fs, r) := by
  induction fuel generalizing B es with
  | zero => simp [blockEntries?] at h
  | succ fuel ih =>
    cases B with
    | nil =>
      rw [List.nil_append, blockEntries?_end] at h
      cases h
      exact hfs
    | cons t B =>
      cases t with
      | key =>
        rw [List.cons_append, blockEntries?] at h
        obtain ⟨⟨k, ts₁⟩, hk, h₁⟩ := Option.bind_eq_some_iff.1 h
        obtain ⟨⟨v, ts₂⟩, hv, h₂⟩ := Option.bind_eq_some_iff.1 h₁
        obtain ⟨⟨es, ts₃⟩, hes, h₃⟩ := Option.bind_eq_some_iff.1 h₂
        cases h₃
        obtain ⟨B₂, rfl⟩ := blockEntries?_ends hes
        obtain ⟨B₁, rfl⟩ := ends_of_suffix ((allConsume handles fuel).blockValue hv).1
        rw [List.length_cons] at hle
        have hcarry : AllCarry handles u after fuel (fuel' + es.length) :=
          allCarry handles hu after (by omega)
        rw [List.length_cons, List.cons_append, ← Nat.add_assoc, blockEntries?,
          hcarry.nodeUnless _ _ (.inr (hu.apply rfl)) hk, Option.bind_eq_bind, Option.bind_some]
        dsimp only
        rw [hcarry.blockValue hv, Option.bind_eq_bind, Option.bind_some]
        dsimp only
        rw [ih hes (by omega)]
        rfl
      | blockEnd =>
        rw [List.cons_append, blockEntries?_end] at h
        exact absurd (Prod.mk.inj (Option.some.inj h)).2 (append_end_ne_nil B)
      | _ => cases h

end Scaffold.Yaml
