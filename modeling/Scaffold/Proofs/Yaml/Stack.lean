import Scaffold.Proofs.Yaml.Growth

/-!
# Tokens on top of others

Further tokens below a lexer's own do not change what it reads (`step?_onTop`): a token is put in
at a place that is counted from the first, but never below the lexer's own.
-/

namespace Scaffold.Yaml.Lexer

def onTop (l : Lexer) (base : List Token) : Lexer :=
  { l with
    keys := l.keys.map (Option.map fun k => { k with before := k.before + base.length })
    tokens := l.tokens ++ base
    count := l.count + base.length }

variable {l l' : Lexer} {base : List Token}

@[simp] theorem cursor_onTop : (l.onTop base).cursor = l.cursor := rfl

@[simp] theorem blocks_onTop : (l.onTop base).blocks = l.blocks := rfl

@[simp] theorem keyAllowed_onTop : (l.onTop base).keyAllowed = l.keyAllowed := rfl

@[simp] theorem names_onTop : (l.onTop base).names = l.names := rfl

@[simp] theorem inFlow_onTop : (l.onTop base).inFlow = l.inFlow := by
  simp [inFlow, onTop]

theorem emit_onTop (t : Token) : (l.onTop base).emit t = (l.emit t).onTop base := by
  simp only [emit, onTop, List.cons_append, Nat.add_right_comm]

theorem emitSkip_onTop (t : Token) (n : Nat) :
    (l.onTop base).emitSkip t n = (l.emitSkip t n).onTop base := by
  unfold emitSkip
  rw [emit_onTop]
  rfl

theorem insertAfter_onTop (h : l.Counted) (before : Nat) (t : Token) :
    (l.onTop base).insertAfter (before + base.length) t = (l.insertAfter before t).onTop base := by
  have hle : l.count - before ≤ l.tokens.length := by
    rw [← show l.count = l.tokens.length from h]
    exact Nat.sub_le _ _
  unfold insertAfter
  simp only [onTop, Nat.add_sub_add_right, List.take_append_of_le_length hle,
    List.drop_append_of_le_length hle, List.append_assoc, List.cons_append, Nat.add_right_comm]

theorem openBlock_onTop (h : l.Counted) (t : Token) (column before : Nat) :
    (l.onTop base).openBlock t column (before + base.length) =
      (l.openBlock t column before).onTop base := by
  have hdeep : (l.onTop base).isDeeper column = l.isDeeper column := rfl
  have hopen : { l.onTop base with blocks := column :: (l.onTop base).blocks } =
      onTop { l with blocks := column :: l.blocks } base := rfl
  have hcounted : Counted { l with blocks := column :: l.blocks } := h
  unfold openBlock
  rw [inFlow_onTop, hdeep, hopen, insertAfter_onTop hcounted]
  split <;> rfl

theorem closeBlocks_onTop (column : Option Nat) (blocks : List Nat) :
    (l.onTop base).closeBlocks column blocks = (l.closeBlocks column blocks).onTop base := by
  induction blocks generalizing l with
  | nil => rfl
  | cons b blocks ih =>
    unfold closeBlocks
    rw [emit_onTop, ih]
    split <;> rfl

theorem close_onTop (column : Option Nat) :
    (l.onTop base).close column = (l.close column).onTop base := by
  unfold close
  rw [inFlow_onTop, blocks_onTop, closeBlocks_onTop]
  split <;> rfl

theorem forgetStale?_onTop :
    (l.onTop base).forgetStale? = l.forgetStale?.map (·.onTop base) := by
  unfold forgetStale?
  have hany : ((l.onTop base).keys.any fun k => k.any fun k =>
      isStale l.cursor.position k && k.required) =
        (l.keys.any fun k => k.any fun k => isStale l.cursor.position k && k.required) := by
    simp only [onTop, List.any_map]
    congr 1
    funext k
    cases k <;> rfl
  dsimp only
  rw [cursor_onTop, hany]
  split
  · rfl
  · simp only [Option.map_some, Option.some.injEq, onTop, Lexer.mk.injEq, true_and, and_true,
      List.map_map]
    congr 1
    funext k
    cases k with
    | none => rfl
    | some k =>
      simp only [Function.comp, Option.map_some, Option.filter_some]
      split <;> simp_all [isStale]

theorem forgetKey?_onTop : (l.onTop base).forgetKey? = l.forgetKey?.map (·.onTop base) := by
  unfold forgetKey? onTop
  match hkeys : l.keys with
  | [] => simp [hkeys]
  | none :: keys => simp [hkeys]
  | some k :: keys =>
    simp only [List.map_cons, Option.map_some]
    split <;> rfl

theorem saveKey?_onTop : (l.onTop base).saveKey? = l.saveKey?.map (·.onTop base) := by
  unfold saveKey?
  rw [keyAllowed_onTop, forgetKey?_onTop]
  split
  · cases l.forgetKey? with
    | none => rfl
    | some l =>
      simp only [Option.map_some, Option.bind_eq_bind, Option.bind_some, inFlow_onTop,
        blocks_onTop, cursor_onTop, Option.pure_def, Option.some.injEq]
      simp [onTop]
  · rfl

theorem toToken_onTop (n : Nat) : (l.onTop base).toToken n = (l.toToken n).onTop base := by
  induction n generalizing l with
  | zero => rfl
  | succ n ih =>
    have hline : (l.onTop base).lineCursor = l.lineCursor := by
      have hgap : (l.onTop base).isGap = l.isGap := by
        funext x
        simp [isGap]
      unfold lineCursor
      rw [hgap, cursor_onTop]
    rw [toToken_succ, toToken_succ, hline, inFlow_onTop]
    split
    · exact ih (l := { l with
        cursor := l.lineCursor.next
        keyAllowed := l.keyAllowed || !l.inFlow })
    · rfl

theorem readied?_onTop : (l.onTop base).readied? = l.readied?.map (·.onTop base) := by
  unfold readied?
  rw [cursor_onTop, toToken_onTop, forgetStale?_onTop, Option.map_map, Option.map_map]
  congr 1
  funext l
  exact close_onTop _

theorem finish?_onTop :
    (l.onTop base).finish? = l.finish?.map (base.reverse ++ ·) := by
  unfold finish?
  rw [close_onTop, forgetKey?_onTop]
  cases (l.close none).forgetKey? with
  | none => rfl
  | some l => simp [onTop]

theorem bind_onTop {x : Option Lexer} {f g : Lexer → Option Lexer}
    (h : ∀ l, f (l.onTop base) = (g l).map (·.onTop base)) :
    (x.map (·.onTop base)).bind f = (x.bind g).map (·.onTop base) := by
  cases x with
  | none => rfl
  | some l => exact h l

theorem bind_cursor_onTop {α : Type} {x : Option α} {f g : α → Lexer}
    (h : ∀ a, f a = (g a).onTop base) :
    (x.bind fun a => some (f a)) = (x.bind fun a => some (g a)).map (·.onTop base) := by
  cases x with
  | none => rfl
  | some a => exact congrArg some (h a)

theorem scan?_onTop (f : Cursor → Option (Token × Cursor)) :
    (l.onTop base).scan? f = (l.scan? f).map (·.onTop base) := by
  unfold scan?
  rw [saveKey?_onTop]
  refine bind_onTop fun l => bind_cursor_onTop fun r => ?_
  rw [emit_onTop]
  rfl

theorem entry?_onTop (h : l.Counted) (block t : Token) (allowNext : Bool) :
    Lexer.entry? (l.onTop base) block t allowNext =
      ( l.entry? block t allowNext).map (·.onTop base) := by
  have hcount : (l.onTop base).count = l.count + base.length := rfl
  unfold entry?
  rw [inFlow_onTop, keyAllowed_onTop, cursor_onTop, hcount, openBlock_onTop h, forgetKey?_onTop]
  by_cases hguard : (l.inFlow || l.keyAllowed) = true
  · cases (l.openBlock block l.cursor.column l.count).forgetKey? with
    | none => simp
    | some l₁ =>
      simp only [guard, hguard, if_true, Option.map_some, Option.bind_eq_bind, Option.bind_some,
        Option.pure_def, emitSkip_onTop, Option.some.injEq]
      rfl
  · simp only [guard, hguard]
    rfl

theorem value?_onTop (h : l.Counted) :
    (l.onTop base).value? = l.value?.map (·.onTop base) := by
  by_cases hkeys : ∃ k keys, l.keys = some k :: keys
  · obtain ⟨k, keys, hkeys⟩ := hkeys
    have htop : (l.onTop base).keys =
        some { k with before := k.before + base.length } ::
          keys.map (Option.map fun k => { k with before := k.before + base.length }) := by
      simp [onTop, hkeys]
    have hcleared : { l.onTop base with
        keys := none :: keys.map (Option.map fun k : KeyStart =>
          { k with before := k.before + base.length }) } =
          onTop { l with keys := none :: keys } base := rfl
    have hcounted : Counted { l with keys := none :: keys } := h
    rw [value?_of_key hkeys, value?_of_key htop, hcleared, insertAfter_onTop hcounted,
      openBlock_onTop ((grows_insertAfter _ _ _).counted hcounted), emitSkip_onTop]
    rfl
  · have htop : ∀ k keys, (l.onTop base).keys ≠ some k :: keys := by
      intro k keys heq
      obtain ⟨o, os, hl, ho, -⟩ := List.map_eq_cons_iff.1 heq
      obtain ⟨k', rfl, -⟩ := Option.map_eq_some_iff.1 ho
      exact hkeys ⟨k', os, hl⟩
    have hcount : (l.onTop base).count = l.count + base.length := rfl
    rw [value?_of_no_key fun k keys hl => hkeys ⟨k, keys, hl⟩, value?_of_no_key htop, inFlow_onTop,
      keyAllowed_onTop, cursor_onTop, hcount, openBlock_onTop h, emitSkip_onTop, emitSkip_onTop]
    split
    · rfl
    · split <;> rfl

theorem outerKeys_onTop :
    (if (l.onTop base).inFlow then (l.onTop base).keys.drop 1 else (l.onTop base).keys) =
      (if l.inFlow then l.keys.drop 1 else l.keys).map
        (Option.map fun k => { k with before := k.before + base.length }) := by
  rw [inFlow_onTop]
  split <;> simp [onTop]

theorem alias_onTop :
    (l.onTop base).read? .alias = (l.read? .alias).map (·.onTop base) := by
  rw [read?, read?, cursor_onTop, names_onTop]
  cases anchorName? l.cursor with
  | none => rfl
  | some r =>
    simp only [Option.bind_eq_bind, Option.bind_some]
    cases l.names.lookup r.1 with
    | none => rfl
    | some number =>
      rw [Option.bind_some, Option.bind_some]
      exact scan?_onTop _

theorem anchor_onTop :
    (l.onTop base).read? .anchor = (l.read? .anchor).map (·.onTop base) := by
  rw [read?, read?, cursor_onTop, names_onTop]
  cases anchorName? l.cursor with
  | none => rfl
  | some r =>
    simp only [Option.bind_eq_bind, Option.bind_some]
    exact scan?_onTop (l := { l with
      names := (r.1, l.names.length) :: l.names.filter fun e => e.1 != r.1 }) _

theorem read?_onTop (h : l.Counted) (lead : Lead) :
    (l.onTop base).read? lead = (l.read? lead).map (·.onTop base) := by
  cases lead with
  | finish => rfl
  | directive =>
    rw [read?, read?, close_onTop, forgetKey?_onTop]
    refine bind_onTop fun l => bind_cursor_onTop fun r => ?_
    rw [emit_onTop]
    rfl
  | documentMark mark =>
    unfold read?
    rw [close_onTop, forgetKey?_onTop]
    refine bind_onTop fun l => congrArg some ?_
    rw [emitSkip_onTop]
    rfl
  | openFlow t =>
    rw [read?, read?, saveKey?_onTop]
    refine bind_onTop fun l => congrArg some ?_
    rw [emitSkip_onTop]
    rfl
  | closeFlow t =>
    rw [read?, read?, forgetKey?_onTop]
    refine bind_onTop fun l => congrArg some ?_
    dsimp only
    rw [emitSkip_onTop, outerKeys_onTop]
    rfl
  | comma =>
    rw [read?, read?, forgetKey?_onTop]
    refine bind_onTop fun l => congrArg some ?_
    rw [emitSkip_onTop]
    rfl
  | item => exact entry?_onTop h _ _ _
  | key =>
    rw [read?, inFlow_onTop]
    exact entry?_onTop h _ _ _
  | value => exact value?_onTop h
  | «alias» => exact alias_onTop
  | anchor => exact anchor_onTop
  | tag =>
    rw [read?, read?, inFlow_onTop]
    exact scan?_onTop _
  | block folded =>
    rw [read?, read?, forgetKey?_onTop]
    refine bind_onTop fun l => bind_cursor_onTop fun r => ?_
    rw [emit_onTop]
    rfl
  | quoted double =>
    rw [read?, read?]
    exact scan?_onTop _
  | plain =>
    rw [read?, read?, saveKey?_onTop]
    refine bind_onTop fun l => ?_
    rw [inFlow_onTop]
    refine bind_cursor_onTop fun s => ?_
    rw [emit_onTop]
    rfl

theorem step?_onTop (h : l.Counted) :
    (l.onTop base).step? = l.step?.map (Sum.map (·.onTop base) (base.reverse ++ ·)) := by
  rw [step?_eq, step?_eq, readied?_onTop]
  cases hready : l.readied? with
  | none => rfl
  | some r =>
    simp only [Option.map_some, Option.bind_some, inFlow_onTop, cursor_onTop]
    cases lead? r.inFlow r.cursor.column r.cursor.rest with
    | none => rfl
    | some lead =>
      simp only [Option.bind_some, finish?_onTop, read?_onTop ((grows_readied? hready).counted h)]
      split
      · cases r.finish? <;> rfl
      · cases r.read? lead <;> rfl

end Scaffold.Yaml.Lexer
