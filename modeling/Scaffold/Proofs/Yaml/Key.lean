import Scaffold.Proofs.Yaml.Steps

/-!
# Keys in the first column

A plain key in the first column is read in two steps, whatever has been read before it: the key,
which may begin a mapping, and its colon. Empty lines and comments may stand before it.
-/

namespace Scaffold.Yaml

/-! ## Words -/

/-- A word that is a plain key as it stands, short enough to be one. -/
structure IsWord (w : List Char) : Prop where
  names : ∀ c ∈ w, isNameChar c = true
  begins : ∀ c ∈ w.head?, c ≠ '-'
  nonempty : w ≠ []
  short : w.length ≤ 1024

instance (w : List Char) : Decidable (IsWord w) :=
  decidable_of_iff (w.all isNameChar = true ∧ w.head? ≠ some '-' ∧ w ≠ [] ∧ w.length ≤ 1024)
    ⟨fun ⟨names, begins, nonempty, short⟩ =>
        ⟨List.all_eq_true.1 names, fun _ hc he => begins (he ▸ hc), nonempty, short⟩,
      fun h => ⟨List.all_eq_true.2 h.names, fun he => h.begins '-' he rfl, h.nonempty, h.short⟩⟩

theorem ne_of_isNameChar {c x : Char} (hc : isNameChar c = true) (hx : isNameChar x = false) :
    c ≠ x := by
  rintro rfl
  rw [hc] at hx
  cases hx

theorem isWhite_of_isNameChar {c : Char} (hc : isNameChar c = true) : isWhite c = false := by
  have h₁ : c ≠ ' ' := ne_of_isNameChar hc (by decide)
  have h₂ : c ≠ '\t' := ne_of_isNameChar hc (by decide)
  simp [isWhite, h₁, h₂]

theorem isBreak_of_isNameChar {c : Char} (hc : isNameChar c = true) : isBreak c = false := by
  have h₁ : c ≠ '\n' := ne_of_isNameChar hc (by decide)
  have h₂ : c ≠ '\u2028' := ne_of_isNameChar hc (by decide)
  have h₃ : c ≠ '\u2029' := ne_of_isNameChar hc (by decide)
  simp [isBreak, h₁, h₂, h₃]

theorem isIndicator_of_isNameChar {c : Char} (hc : isNameChar c = true) :
    isIndicator c = false := by
  have hnone : (",[]\x7b\x7d#&*!|>'\"%@\x60".toList.all fun x => !isNameChar x) = true := by
    decide
  have hnot : ∀ x ∈ ",[]\x7b\x7d#&*!|>'\"%@\x60".toList, c ≠ x := by
    intro x hx
    refine ne_of_isNameChar hc ?_
    simpa using List.all_eq_true.1 hnone x hx
  have hall : ",[]\x7b\x7d#&*!|>'\"%@\x60".toList =
      ",[]\x7b\x7d".toList ++ "#&*!|>'\"%@\x60".toList := by decide
  unfold isIndicator isFlowIndicator
  rw [← List.contains_append, ← hall]
  by_contra hmem
  rw [Bool.not_eq_false, List.contains_iff_mem] at hmem
  exact hnot c hmem rfl

theorem documentMark?_word {c : Char} (hc : isNameChar c = true) (hdash : c ≠ '-')
    (s : List Char) : documentMark? (c :: s) = none := by
  have hdot : c ≠ '.' := ne_of_isNameChar hc (by decide)
  unfold documentMark?
  split
  · rename_i heq
    cases heq
    exact absurd rfl hdash
  · rename_i heq
    cases heq
    exact absurd rfl hdot
  · rfl

namespace Position

def forward (p : Position) (n : Nat) : Position :=
  ⟨p.index + n, p.line, p.column + n⟩

theorem forward_zero (p : Position) : p.forward 0 = p := rfl

theorem forward_after {p : Position} {c : Char} (hc : isBreak c = false) (n : Nat) :
    (p.after c).forward n = p.forward (n + 1) := by
  unfold after forward
  rw [if_neg (by simp [hc])]
  simp only [Position.mk.injEq, true_and]
  omega

theorem after_forward {p : Position} {c : Char} (hc : isBreak c = false) (n : Nat) :
    (p.forward n).after c = p.forward (n + 1) := by
  unfold after forward
  rw [if_neg (by simp [hc])]
  rfl

theorem forward_eq_moved {p : Position} (hp : p.column = 0) (n : Nat) :
    p.forward n = (start.forward n).moved ⟨p.index, p.line⟩ := by
  simp only [forward, moved, start, Position.mk.injEq]
  omega

end Position

theorem plainFrom_word {indentation : Nat} {acc w rest : List Char} {pos : Position}
    (hw : ∀ c ∈ w, isNameChar c = true)
    (hpos : pos.column = 0 → ∀ c ∈ w.head?, c ≠ '-') (hend : pos.column = 0 → w ≠ [])
    (hrest : atWordEnd rest = true) :
    plainFrom false indentation acc .none (w ++ ':' :: rest) pos =
      some ⟨String.ofList (acc.reverse ++ w), ⟨':' :: rest, pos.forward w.length⟩, false⟩ := by
  induction w generalizing acc pos with
  | nil =>
    have hcolumn : pos.column ≠ 0 := fun h => hend h rfl
    rw [List.nil_append, plainFrom]
    simp [isWhite, isBreak, Gap.isBroken, Gap.isNone, Gap.none, hcolumn, hrest,
      Position.forward_zero]
  | cons c w ih =>
    have hc := hw c (List.mem_cons_self ..)
    have hhash : c ≠ '#' := ne_of_isNameChar hc (by decide)
    have hcolon : c ≠ ':' := ne_of_isNameChar hc (by decide)
    have hmark : (pos.column == 0 && (documentMark? (c :: (w ++ ':' :: rest))).isSome) =
        false := by
      by_cases hcolumn : pos.column = 0
      · simp [documentMark?_word hc (hpos hcolumn c rfl)]
      · simp [hcolumn]
    have hafter : (pos.after c).column ≠ 0 := by
      unfold Position.after
      rw [if_neg (by simp [isBreak_of_isNameChar hc])]
      exact Nat.succ_ne_zero _
    rw [List.cons_append, plainFrom]
    simp only [isWhite_of_isNameChar hc, isBreak_of_isNameChar hc, hmark, Bool.or_self,
      Bool.false_eq_true, if_false, beq_eq_false_iff_ne.2 hhash, beq_eq_false_iff_ne.2 hcolon,
      Bool.false_and, Gap.isBroken, Gap.none, Gap.folded, List.cons_append, List.nil_append]
    rw [show Gap.blanks [] = Gap.none from rfl,
      ih (fun x hx => hw x (List.mem_cons_of_mem c hx)) (fun h => absurd h hafter)
        (fun h => absurd h hafter)]
    simp [Position.forward_after (isBreak_of_isNameChar hc)]

namespace Lexer

variable {l r : Lexer} {w rest : List Char}

/-! ## The key and its colon -/

/-- In front of a key in the first column. -/
structure AtKey (r : Lexer) (w rest : List Char) : Prop where
  rest : r.cursor.rest = w ++ ':' :: rest
  column : r.cursor.position.column = 0
  short : r.keys.length ≤ 1
  idle : ∀ k, some k ∈ r.keys → k.required = false
  keyAllowed : r.keyAllowed = true
  outer : r.blocks = [] ∨ r.blocks = [0]

/-- The lexer behind the key `w` and its colon; the beginning of the mapping is left out. -/
def behindKey (w rest : List Char) : Lexer where
  cursor := ⟨rest, Position.start.forward (w.length + 1)⟩
  blocks := [0]
  keys := [none]
  keyAllowed := false
  names := []
  tokens := [.value, .scalar (String.ofList w) true, .key]
  count := 3

/-- The beginning of the mapping, if the first of its keys is read. -/
def opening (blocks : List Nat) : List Token :=
  if blocks.isEmpty then [.blockMapping] else []

theorem AtKey.inFlow (h : AtKey r w rest) : r.inFlow = false :=
  inFlow_eq_false_iff.2 h.short

theorem lead?_word (hw : IsWord w) (column : Nat) (rest : List Char) :
    lead? false column (w ++ rest) = some .plain := by
  obtain ⟨c, s, rfl⟩ := List.exists_cons_of_ne_nil hw.nonempty
  have hc := hw.names c (List.mem_cons_self ..)
  have hdash : c ≠ '-' := hw.begins c rfl
  have hpercent : c ≠ '%' := ne_of_isNameChar hc (by decide)
  unfold lead?
  rw [List.cons_append, documentMark?_word hc hdash]
  simp only [beq_eq_false_iff_ne.2 hpercent, Bool.and_false, Bool.false_eq_true, if_false]
  split
  · rename_i heq
    cases heq
  split <;> first
    | exact absurd hc (by decide)
    | exact absurd rfl hdash
    | simp [isIndicator_of_isNameChar hc, isWhite_of_isNameChar hc]

theorem forgetKey?_idle (h : ∀ k, some k ∈ l.keys → k.required = false) :
    ∃ keys, l.forgetKey? = some { l with keys := keys } ∧ keys.drop 1 = l.keys.drop 1 := by
  unfold forgetKey?
  split
  · rename_i k keys hkeys
    have hidle := h k (by rw [hkeys]; exact List.mem_cons_self ..)
    rw [if_neg (by simp [hidle]), hkeys]
    exact ⟨none :: keys, rfl, rfl⟩
  · exact ⟨l.keys, rfl, rfl⟩

def atColon (r : Lexer) (w rest : List Char) : Lexer :=
  { r with
    cursor := ⟨':' :: rest, r.cursor.position.forward w.length⟩
    keys := [some ⟨r.cursor.position, r.count, r.blocks.head? == some 0⟩]
    keyAllowed := false
    tokens := .scalar (String.ofList w) true :: r.tokens
    count := r.count + 1 }

theorem read?_key (hw : IsWord w) (hrest : atWordEnd rest = true) (h : AtKey r w rest) :
    r.read? .plain = some (r.atColon w rest) := by
  obtain ⟨keys, hforget, hdrop⟩ := forgetKey?_idle h.idle
  have hempty : r.keys.drop 1 = [] := List.drop_eq_nil_of_le h.short
  have hflow : Lexer.inFlow { r with keys := keys } = false := by
    rw [hempty, List.drop_eq_nil_iff] at hdrop
    exact inFlow_eq_false_iff.2 hdrop
  have hcolumn : r.cursor.column = 0 := h.column
  have hplain : plainFrom false (r.blocks.head?.elim 0 (· + 1)) [] .none (w ++ ':' :: rest)
      r.cursor.position =
        some ⟨String.ofList w, ⟨':' :: rest, r.cursor.position.forward w.length⟩, false⟩ :=
    plainFrom_word hw.names (fun _ => hw.begins) (fun _ => hw.nonempty) hrest
  rw [read?]
  unfold saveKey?
  rw [if_pos h.keyAllowed, hforget]
  simp only [Option.bind_eq_bind, Option.bind_some, Option.pure_def, hflow, hdrop, hempty, hcolumn]
  have hsame : Lexer.inFlow { r with
      keys := [some ⟨r.cursor.position, r.count, !false && r.blocks.head? == some 0⟩] } = false :=
    rfl
  rw [hsame]
  unfold plainScalar?
  rw [h.rest, hplain]
  rfl

theorem step?_key (hw : IsWord w) (hrest : atWordEnd rest = true) (h : AtKey r w rest)
    (hready : l.readied? = some r) : l.step? = some (.inl (r.atColon w rest)) := by
  rw [step?_eq, hready, Option.bind_some, h.inFlow, h.rest, lead?_word hw, Option.bind_some,
    if_neg (by simp), read?_key hw hrest h]
  rfl

theorem readied?_atColon (hw : IsWord w) (houter : r.blocks = [] ∨ r.blocks = [0]) :
    (r.atColon w rest).readied? = some (r.atColon w rest) := by
  have hlength : 0 < w.length := List.length_pos_iff.2 hw.nonempty
  have hline : (r.atColon w rest).lineCursor = (r.atColon w rest).cursor := by
    simp [lineCursor, atColon, passMark, passComment, Cursor.column, Cursor.pass, passFrom, isGap]
  have htoken : (r.atColon w rest).toToken ((r.atColon w rest).cursor.rest.length + 1) =
      r.atColon w rest := by
    rw [toToken_succ, hline]
    simp [atColon, isBreak]
  have hfresh : isStale (r.atColon w rest).cursor.position
      ⟨r.cursor.position, r.count, r.blocks.head? == some 0⟩ = false := by
    have := hw.short
    unfold isStale
    rw [Bool.or_eq_false_iff, decide_eq_false_iff_not, decide_eq_false_iff_not]
    simp only [atColon, Position.forward]
    omega
  have hkept : (r.atColon w rest).forgetStale? = some (r.atColon w rest) := by
    have hkeys : (r.atColon w rest).keys =
        [some ⟨r.cursor.position, r.count, r.blocks.head? == some 0⟩] := rfl
    unfold forgetStale?
    simp only [hkeys, List.any_cons, Option.any_some, hfresh, Bool.false_and, List.any_nil,
      Bool.or_self, Bool.false_eq_true, if_false, List.map_cons, Option.filter_some, Bool.not_false,
      if_true, List.map_nil]
    rfl
  unfold readied?
  rw [htoken, hkept, Option.map_some, Option.some.injEq]
  have hflow : (r.atColon w rest).inFlow = false := rfl
  have hblocks : (r.atColon w rest).blocks = r.blocks := rfl
  unfold close
  rw [hflow, hblocks, if_neg Bool.false_ne_true]
  rcases houter with hnil | hzero
  · rw [hnil, closeBlocks, ← hnil, ← hblocks]
  · rw [hzero, closeBlocks, if_neg (by simp), ← hzero, ← hblocks]

theorem value?_atColon (h : AtKey r w rest) (hr : r.Counted) :
    (r.atColon w rest).value? = some (((behindKey w rest).amid
      ⟨⟨r.cursor.position.index, r.cursor.position.line⟩, [], r.names⟩).onTop
        (opening r.blocks ++ r.tokens)) := by
  have hkeys : (r.atColon w rest).keys =
      [some ⟨r.cursor.position, r.count, r.blocks.head? == some 0⟩] := rfl
  have hcursor : (Cursor.mk (':' :: rest) (r.cursor.position.forward w.length)).skip 1 =
      (behindKey w rest).cursor.amid
        ⟨r.cursor.position.index, r.cursor.position.line⟩ [] := by
    have hcolon : isBreak ':' = false := by decide
    simp only [Cursor.skip, Cursor.next, Cursor.amid, behindKey, List.append_nil,
      Position.after_forward hcolon]
    rw [Position.forward_eq_moved h.column]
  have hcount : r.count = r.tokens.length := hr
  have hone : r.count + 1 - r.count = 1 := by omega
  have htwo : r.count + 1 + 1 - r.count = 2 := by omega
  unfold value?
  rw [hkeys]
  dsimp only
  -- The key has one token behind it; where it begins the mapping, two stand behind the beginning.
  rcases h.outer with hblocks | hblocks
  · simp [insertAfter, openBlock, atColon, Lexer.inFlow, isDeeper, hblocks, hone, htwo, opening,
      emitSkip, emit, hcursor, h.column, onTop, amid, behindKey]
    omega
  · simp [insertAfter, openBlock, atColon, Lexer.inFlow, isDeeper, hblocks, hone, opening,
      emitSkip, emit, hcursor, h.column, onTop, amid, behindKey]
    omega

theorem step?_atColon (hw : IsWord w) (hrest : atWordEnd rest = true) (h : AtKey r w rest)
    (hr : r.Counted) :
    (r.atColon w rest).step? = some (.inl (((behindKey w rest).amid
      ⟨⟨r.cursor.position.index, r.cursor.position.line⟩, [], r.names⟩).onTop
        (opening r.blocks ++ r.tokens))) := by
  have hlength : 0 < w.length := List.length_pos_iff.2 hw.nonempty
  have hcolumn : (r.cursor.position.forward w.length).column ≠ 0 := by
    simp only [Position.forward]
    omega
  have hlead : lead? false (r.cursor.position.forward w.length).column (':' :: rest) =
      some .value := by
    simp [lead?, documentMark?, hcolumn, hrest]
  have hflow : (r.atColon w rest).inFlow = false := rfl
  rw [step?_eq, readied?_atColon hw h.outer, Option.bind_some, hflow]
  have hcursor : (r.atColon w rest).cursor =
      ⟨':' :: rest, r.cursor.position.forward w.length⟩ := rfl
  rw [hcursor, Cursor.column, hlead, Option.bind_some, if_neg (by simp), read?, value?_atColon h hr]
  rfl

/-- A key in the first column is read in two steps. -/
theorem steps_key (hw : IsWord w) (hrest : atWordEnd rest = true) (h : AtKey r w rest)
    (hready : l.readied? = some r) (hl : l.Counted) :
    Steps 2 l (((behindKey w rest).amid
      ⟨⟨r.cursor.position.index, r.cursor.position.line⟩, [], r.names⟩).onTop
        (opening r.blocks ++ r.tokens)) := by
  have hr : r.Counted := (grows_readied? hready).counted hl
  refine .head (step?_key hw hrest h hready) ?_ (.head (step?_atColon hw hrest h hr) ?_ (.refl _))
  · intro t ht
    cases ht
    rfl
  · intro t ht
    cases ht
    rfl

end Lexer

end Scaffold.Yaml
