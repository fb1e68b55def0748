import Scaffold.Proofs.Yaml.Key

/-!
# From one key to the next

Empty lines and comments in front of a key are passed. Behind a text whose tokens end with a block
that begins in the first column, a key there is read into the same mapping (`steps_next`).
-/

namespace Scaffold.Yaml

/-- Empty lines and comments, each from the first column to the end of its line. -/
inductive Margin : List Char → Prop
  | nil : Margin []
  | line {note s : List Char} (hnote : ∀ c ∈ note.head?, c = '#')
      (hline : ∀ c ∈ note, isBreak c = false) (hs : Margin s) : Margin (note ++ '\n' :: s)

def Offset.of (s : List Char) : Offset :=
  ⟨s.length, s.countP isBreak⟩

namespace Lexer

variable {l l' : Lexer} {w rest : List Char} {n : Nat}

theorem toToken_word (hw : IsWord w) (hrest : l.cursor.rest = w ++ rest) :
    l.toToken (n + 1) = l := by
  obtain ⟨c, s, rfl⟩ := List.exists_cons_of_ne_nil hw.nonempty
  have hc := hw.names c (List.mem_cons_self ..)
  have hhead : l.cursor.rest = c :: (s ++ rest) := hrest
  have hmark : c ≠ '\ufeff' := ne_of_isNameChar hc (by decide)
  have hspace : c ≠ ' ' := ne_of_isNameChar hc (by decide)
  have htab : c ≠ '\t' := ne_of_isNameChar hc (by decide)
  have hhash : c ≠ '#' := ne_of_isNameChar hc (by decide)
  have hline : l.lineCursor = l.cursor := by
    have hpass : l.cursor.pass l.isGap = l.cursor := by
      unfold Cursor.pass
      rw [hhead, passFrom, if_neg (by simp [isGap, hspace, htab]), ← hhead]
    have hfirst : passMark l.cursor = l.cursor := by
      unfold passMark
      rw [hhead, if_neg (by simp [hmark])]
    unfold lineCursor passComment
    rw [hfirst, hpass, hhead, if_neg (by simp [hhash])]
  rw [toToken_succ, hline, hhead, if_neg (by simp [isBreak_of_isNameChar hc])]

theorem passFrom_line {f : Char → Bool} {a b : List Char} {pos : Position}
    (ha : ∀ c ∈ a, f c = true) (hline : ∀ c ∈ a, isBreak c = false) (hb : Text.Stops f b) :
    passFrom f (a ++ b) pos = ⟨b, pos.forward a.length⟩ := by
  induction a generalizing pos with
  | nil =>
    cases b with
    | nil => rfl
    | cons c b =>
      rw [List.nil_append, passFrom, if_neg (by simp [hb c rfl])]
      rfl
  | cons c a ih =>
    rw [List.cons_append, passFrom, if_pos (ha c (List.mem_cons_self ..)),
      ih (fun x hx => ha x (List.mem_cons_of_mem c hx))
        (fun x hx => hline x (List.mem_cons_of_mem c hx)),
      Position.forward_after (hline c (List.mem_cons_self ..))]
    rfl

theorem lineCursor_margin {note s : List Char} (hnote : ∀ c ∈ note.head?, c = '#')
    (hline : ∀ c ∈ note, isBreak c = false) (hrest : l.cursor.rest = note ++ '\n' :: s)
    (hkey : l.keyAllowed = true) (hflow : l.inFlow = false) :
    l.lineCursor = ⟨'\n' :: s, l.cursor.position.forward note.length⟩ := by
  have hhead : ∀ c ∈ l.cursor.rest.head?, c = '#' ∨ c = '\n' := by
    intro c hc
    rw [hrest] at hc
    cases note with
    | nil =>
      cases hc
      exact .inr rfl
    | cons x note => exact .inl (hnote c hc)
  have hfirst : passMark l.cursor = l.cursor := by
    unfold passMark
    rw [if_neg]
    intro hmark
    have hbom := (Bool.and_eq_true_iff.1 hmark).2
    rw [beq_iff_eq] at hbom
    rcases hhead _ hbom with h | h <;> cases h
  have hgap : l.cursor.pass l.isGap = l.cursor := by
    refine passFrom_line (a := []) nofun nofun fun c hc => ?_
    rcases hhead c hc with rfl | rfl <;> simp [isGap, hkey, hflow]
  unfold lineCursor passComment
  rw [hfirst, hgap, hrest]
  cases note with
  | nil =>
    rw [List.nil_append] at hrest ⊢
    rw [if_neg (by simp), ← hrest]
    rfl
  | cons x note =>
    cases hnote x rfl
    rw [if_pos (by simp)]
    unfold Cursor.lineEnd Cursor.pass
    rw [hrest]
    exact passFrom_line (fun c hc => by simp [hline c hc]) hline
      (Text.stops_cons (by simp [isBreak_newline]) s)

/-- A margin is passed up to the word behind it. -/
theorem toToken_margin {margin : List Char} (hm : Margin margin) (hw : IsWord w)
    (hrest : l.cursor.rest = margin ++ (w ++ rest)) (hcolumn : l.cursor.position.column = 0)
    (hkey : l.keyAllowed = true) (hflow : l.inFlow = false) (hn : l.cursor.rest.length < n) :
    l.toToken n =
      { l with cursor := ⟨w ++ rest, l.cursor.position.moved (.of margin)⟩ } := by
  induction hm generalizing l n with
  | nil =>
    cases n with
    | zero => omega
    | succ n =>
      rw [toToken_word hw hrest]
      rw [List.nil_append] at hrest
      rw [← hrest]
      rfl
  | @line note s hnote hline hs ih =>
    cases n with
    | zero => omega
    | succ n =>
      rw [List.append_assoc, List.cons_append] at hrest
      have hend := lineCursor_margin hnote hline hrest hkey hflow
      have hnext : l.lineCursor.next =
          ⟨s ++ (w ++ rest), (l.cursor.position.forward note.length).after '\n'⟩ := by
        rw [hend]
        rfl
      have hsame : ({ l with
          cursor := l.lineCursor.next
          keyAllowed := l.keyAllowed || !l.inFlow } : Lexer) =
            { l with cursor := l.lineCursor.next } := by
        rw [hkey, Bool.true_or]
      have hlength : l.lineCursor.next.rest.length < n := by
        rw [hrest] at hn
        rw [hnext]
        simp at hn ⊢
        omega
      have hplace : ((l.cursor.position.forward note.length).after '\n').moved (.of s) =
          l.cursor.position.moved (.of (note ++ '\n' :: s)) := by
        have hnone : note.countP isBreak = 0 := by
          rw [List.countP_eq_zero]
          intro c hc
          simp [hline c hc]
        simp only [Position.after, isBreak_newline, if_true, Position.moved, Position.forward,
          Offset.of, List.length_append, List.length_cons, List.countP_append, List.countP_cons,
          hnone, hcolumn, Position.mk.injEq, and_true]
        omega
      have hrec := ih (l := { l with cursor := l.lineCursor.next }) (n := n) (by rw [hnext])
        (by rw [hnext]; rfl) hkey hflow hlength
      rw [toToken_succ, hsame, hrec, if_pos (by rw [hend]; simp [isBreak_newline]), hnext, hplace]

/-! ## From one key to the next -/

/-- In the first column all blocks end but one that begins there. -/
theorem closeBlocks_first {inner outer : List Nat} (hinner : ∀ b ∈ inner, 0 < b)
    (houter : outer = [] ∨ outer = [0]) :
    l.closeBlocks (some 0) (inner ++ outer) =
      { l with
        blocks := outer
        tokens := List.replicate inner.length .blockEnd ++ l.tokens
        count := l.count + inner.length } := by
  induction inner generalizing l with
  | nil =>
    rcases houter with rfl | rfl
    · rfl
    · rw [List.nil_append, closeBlocks, if_neg (by simp)]
      rfl
  | cons b inner ih =>
    have hb : 0 < b := hinner b (List.mem_cons_self ..)
    rw [List.cons_append, closeBlocks, if_pos (by simpa using hb),
      ih fun x hx => hinner x (List.mem_cons_of_mem b hx)]
    simp only [emit, List.length_cons, List.replicate_succ', List.append_assoc, List.cons_append,
      List.nil_append, Lexer.mk.injEq, true_and]
    omega

theorem close_first {inner outer : List Nat} (hflow : l.inFlow = false)
    (hblocks : l.blocks = inner ++ outer) (hinner : ∀ b ∈ inner, 0 < b)
    (houter : outer = [] ∨ outer = [0]) :
    l.close (some 0) =
      { l with
        blocks := outer
        tokens := List.replicate inner.length .blockEnd ++ l.tokens
        count := l.count + inner.length } := by
  unfold close
  rw [hflow, if_neg nofun, hblocks, closeBlocks_first hinner houter]

theorem close_last (hflow : l.inFlow = false) (hblocks : l.blocks = [0]) :
    l.close none = { l.emit .blockEnd with blocks := [] } := by
  unfold close
  rw [hflow, if_neg nofun, hblocks]
  rfl

theorem forgetStale?_idle (h : ∀ k, some k ∈ l.keys → k.required = false) :
    ∃ keys, l.forgetStale? = some { l with keys := keys } ∧ keys.length = l.keys.length ∧
      ∀ k, some k ∈ keys → some k ∈ l.keys := by
  refine ⟨_, if_neg ?_, List.length_map .., ?_⟩
  · rw [Bool.not_eq_true, List.any_eq_false]
    intro k hk
    cases k with
    | none => simp
    | some k => simp [h k hk]
  · intro k hk
    obtain ⟨o, ho, heq⟩ := List.mem_map.1 hk
    cases o with
    | none => cases heq
    | some k' =>
      rw [Option.filter_some] at heq
      split at heq <;> cases heq
      exact ho

/-- What stands in front of a key, once its place is found. -/
theorem readied?_key {inner outer : List Nat}
    (htoken : l.toToken (l.cursor.rest.length + 1) = l')
    (hrest : l'.cursor.rest = w ++ ':' :: rest) (hcolumn : l'.cursor.position.column = 0)
    (hkey : l'.keyAllowed = true) (hshort : l'.keys.length ≤ 1)
    (hidle : ∀ k, some k ∈ l'.keys → k.required = false) (hblocks : l'.blocks = inner ++ outer)
    (hinner : ∀ b ∈ inner, 0 < b) (houter : outer = [] ∨ outer = [0]) :
    ∃ r, l.readied? = some r ∧ AtKey r w rest ∧ r.cursor = l'.cursor ∧ r.blocks = outer ∧
      r.names = l'.names ∧
      r.tokens = List.replicate inner.length .blockEnd ++ l'.tokens := by
  obtain ⟨keys, hstale, hlength, hsub⟩ := forgetStale?_idle hidle
  have hflow : Lexer.inFlow { l' with keys := keys } = false :=
    inFlow_eq_false_iff.2 (hlength.trans_le hshort)
  have hclose := close_first hflow hblocks hinner houter
  refine ⟨{ l' with
      keys := keys
      blocks := outer
      tokens := List.replicate inner.length .blockEnd ++ l'.tokens
      count := l'.count + inner.length }, ?_,
    ⟨hrest, hcolumn, ?_, fun k hk => hidle k (hsub k hk), hkey, houter⟩, rfl, rfl, rfl, rfl⟩
  · unfold readied?
    have hzero : l'.cursor.column = 0 := hcolumn
    rw [htoken, hstale, Option.map_some, hzero, hclose]
  · exact hlength.trans_le hshort

/-- The lexer that has read a key behind a margin, and its colon. -/
def behindMargin (margin w rest : List Char) : Lexer :=
  (behindKey w rest).amid ⟨.of margin, [], []⟩

theorem steps_start {margin : List Char} (hm : Margin margin) (hw : IsWord w)
    (hrest : atWordEnd rest = true) :
    Steps 2 (start (margin ++ (w ++ ':' :: rest)))
      ((behindMargin margin w rest).onTop [.blockMapping]) := by
  have hcounted : (start (margin ++ (w ++ ':' :: rest))).Counted := rfl
  have htoken := toToken_margin (l := start (margin ++ (w ++ ':' :: rest)))
    (n := (margin ++ (w ++ ':' :: rest)).length + 1) hm hw rfl rfl rfl rfl (Nat.lt_succ_self _)
  obtain ⟨r, hready, hkey, hplace, hblocks, hnames, htokens⟩ := readied?_key htoken rfl rfl
    rfl (Nat.le_refl 1) (by simp [start]) (show [] = [] ++ [] from rfl) nofun (.inl rfl)
  have hsteps := steps_key hw hrest hkey hready hcounted
  rw [hplace, hblocks, hnames, htokens] at hsteps
  have hoffset : Offset.mk ((start (margin ++ (w ++ ':' :: rest))).cursor.position.moved
      (.of margin)).index ((start (margin ++ (w ++ ':' :: rest))).cursor.position.moved
      (.of margin)).line = .of margin := by
    simp [start, Position.start, Position.moved]
  rw [hoffset] at hsteps
  exact hsteps

theorem forgetStale?_some (h : l.forgetStale? = some l') :
    ∃ keys, l' = { l with keys := keys } ∧ keys.length = l.keys.length ∧
      ∀ k, some k ∈ l.keys → k.required = true → some k ∈ keys := by
  unfold forgetStale? at h
  dsimp only at h
  split at h
  · cases h
  rename_i hnone
  cases h
  refine ⟨_, rfl, List.length_map .., fun k hk hrequired => List.mem_map.2 ⟨some k, hk, ?_⟩⟩
  rw [Bool.not_eq_true, List.any_eq_false] at hnone
  have hfresh := hnone (some k) hk
  rw [Option.any_some, hrequired, Bool.and_true, Bool.not_eq_true] at hfresh
  simp [hfresh]

theorem forgetKey?_some (h : l.forgetKey? = some l') :
    l'.tokens = l.tokens ∧ ∀ k, l.keys.head? = some (some k) → k.required = false := by
  unfold forgetKey? at h
  split at h
  · rename_i k keys hkeys
    split at h <;> cases h
    rename_i hrequired
    refine ⟨rfl, fun k' hk' => ?_⟩
    rw [hkeys] at hk'
    cases hk'
    simpa using hrequired
  · rename_i hkeys
    cases h
    refine ⟨rfl, fun k hk => ?_⟩
    cases hl : l.keys with
    | nil =>
      rw [hl] at hk
      cases hk
    | cons x keys =>
      rw [hl] at hk
      cases hk
      exact absurd hl (hkeys k keys)

theorem idle_of_head {keys : List (Option KeyStart)} (hshort : keys.length ≤ 1)
    (h : ∀ k, keys.head? = some (some k) → k.required = false) :
    ∀ k, some k ∈ keys → k.required = false := by
  intro k hk
  match keys with
  | [] => cases hk
  | [x] => exact h k (congrArg some (List.mem_singleton.1 hk).symm)
  | _ :: _ :: _ => simp at hshort

theorem idle_map {keys : List (Option KeyStart)} {f : KeyStart → KeyStart}
    (hf : ∀ k, (f k).required = k.required) (h : ∀ k, some k ∈ keys → k.required = false) :
    ∀ k, some k ∈ keys.map (Option.map f) → k.required = false := by
  intro k hk
  obtain ⟨o, ho, heq⟩ := List.mem_map.1 hk
  obtain ⟨k', rfl, rfl⟩ := Option.map_eq_some_iff.1 heq
  rw [hf, h k' ho]

/-- How a lexer stands at the end of a text whose tokens end with a block. -/
theorem ends_of_step? {B : List Token} (h : l.step? = some (.inr (B ++ [.blockEnd])))
    (hl : l.InText) (houter : IsOuter l.blocks) (hopen : l.IsOpen) :
    (l.toToken (l.cursor.rest.length + 1)).cursor.rest = [] ∧ l.inFlow = false ∧
      (∀ k, some k ∈ l.keys → k.required = false) ∧
      ∃ inner, l.blocks = inner ++ [0] ∧ (∀ b ∈ inner, 0 < b) ∧
        B = (List.replicate inner.length Token.blockEnd ++ l.tokens).reverse := by
  obtain ⟨r, hready, hnil, hfinish⟩ := step?_inr h
  rw [cursor_readied? hready] at hnil
  obtain ⟨htext, -⟩ := toToken_amid (m := ⟨⟨0, 0⟩, [], []⟩) (k := l.cursor.rest.length + 1) hl
    (Nat.lt_succ_self l.cursor.rest.length) (Nat.lt_succ_self _)
  have hcolumn := htext.column hnil
  obtain ⟨c, a, htoken⟩ := toToken_changes (l := l) (l.cursor.rest.length + 1)
  obtain ⟨f, hstale, rfl⟩ := Option.map_eq_some_iff.1 hready
  obtain ⟨g, hforget, hts⟩ := Option.bind_eq_some_iff.1 hfinish
  refine ⟨hnil, ?_⟩
  rw [htoken] at hstale hcolumn
  obtain ⟨keys, rfl, hlength, hkept⟩ := forgetStale?_some hstale
  dsimp only at hlength hkept hcolumn
  have hsame : Lexer.inFlow { l with cursor := c, keyAllowed := a, keys := keys } = l.inFlow := by
    simp only [Lexer.inFlow, hlength]
  obtain ⟨htokens, hidle⟩ := forgetKey?_some hforget
  have hlast : g.tokens.reverse = B ++ [.blockEnd] := Option.some.inj hts
  rw [List.reverse_eq_iff, List.reverse_append] at hlast
  have hflow : l.inFlow = false := by
    by_contra hflow
    rw [Bool.not_eq_false] at hflow
    simp only [close, hsame, hflow, if_true] at htokens
    obtain ⟨t, hhead, ht⟩ := hopen
    rw [← htokens, hlast] at hhead
    cases hhead
    exact ht rfl
  have hzero : Cursor.column c = 0 := hcolumn
  obtain ⟨inner, hblocks, hinner⟩ := houter
  rw [hzero, close_first (hsame.trans hflow) hblocks hinner (.inr rfl),
    close_last (by exact hsame.trans hflow) rfl] at htokens hidle
  dsimp only [emit] at htokens hidle
  refine ⟨hflow, fun k hk => ?_, inner, hblocks, hinner, ?_⟩
  · by_contra hrequired
    rw [Bool.not_eq_false] at hrequired
    have hshort : keys.length ≤ 1 := hlength.trans_le (inFlow_eq_false_iff.1 hflow)
    rw [idle_of_head hshort hidle k (hkept k hk hrequired)] at hrequired
    cases hrequired
  · rw [hlast] at htokens
    have htail := (List.cons.inj htokens).2
    rw [← htail]
    simp

theorem amid_amid {d e : Offset} {a b : List Char} {names names' : List (String × Nat)} :
    (l.amid ⟨d, a, names⟩).amid ⟨e, b, names'⟩ =
      l.amid ⟨⟨d.chars + e.chars, d.lines + e.lines⟩, a ++ b, names'⟩ := by
  simp only [amid, Cursor.amid, Position.moved, List.map_map, List.append_assoc, Nat.add_assoc,
    Lexer.mk.injEq, true_and, and_true]
  congr 1
  funext k
  cases k <;> simp [KeyStart.moved, Position.moved, Nat.add_assoc]

/-- At the end of a text, a margin behind it is passed up to the word there. -/
theorem toToken_next (m : Surroundings) {margin : List Char} (hl : l.InText)
    (hflow : l.inFlow = false) (hnil : (l.toToken (l.cursor.rest.length + 1)).cursor.rest = [])
    (hm : Margin margin) (hw : IsWord w) (hafter : m.after = margin ++ (w ++ rest)) :
    ∃ pos : Position, pos.column = 0 ∧
      (l.amid m).toToken ((l.amid m).cursor.rest.length + 1) =
        { l.amid m with cursor := ⟨w ++ rest, pos⟩, keyAllowed := true } ∧
      ∃ d : Offset, (⟨pos.index, pos.line⟩ : Offset) =
        ⟨(Offset.of margin).chars + d.chars, (Offset.of margin).lines + d.lines⟩ := by
  obtain ⟨htext, -, hthrough⟩ := toToken_amid (m := m) (k := (l.amid m).cursor.rest.length + 1) hl
    (Nat.lt_succ_self l.cursor.rest.length) (by simp)
  obtain ⟨c, a, htoken⟩ := toToken_changes (l := l) (l.cursor.rest.length + 1)
  rw [htoken] at hnil htext hthrough
  have hkey : a = true := htext.keyAllowed hnil hflow
  have hrest : (({ l with cursor := c, keyAllowed := a } : Lexer).amid m).cursor.rest =
      margin ++ (w ++ rest) := by
    rw [cursor_amid, Cursor.rest_amid, hnil, List.nil_append, hafter]
  have hpassed := toToken_margin (l := ({ l with cursor := c, keyAllowed := a } : Lexer).amid m)
    (n := (l.amid m).cursor.rest.length + 1) hm hw hrest (htext.column hnil) hkey
    (by rw [inFlow_amid]; exact hflow)
    (by rw [hrest, ← hafter, cursor_amid, Cursor.rest_amid, List.length_append]; omega)
  refine ⟨(c.position.moved m.before).moved (.of margin), htext.column hnil, ?_,
    ⟨(c.position.moved m.before).index, (c.position.moved m.before).line⟩, ?_⟩
  · rw [hthrough hnil, hpassed, hkey]
    rfl
  · simp only [Position.moved, Nat.add_comm]

/-- Behind a text that ends with a block, the next key is read into the same mapping. -/
theorem steps_next (m : Surroundings) (base : List Token) {B : List Token} {margin : List Char}
    (h : l.step? = some (.inr (B ++ [.blockEnd]))) (hl : l.InText) (houter : IsOuter l.blocks)
    (hopen : l.IsOpen) (hcounted : l.Counted) (hm : Margin margin) (hw : IsWord w)
    (hrest : atWordEnd rest = true) (hafter : m.after = margin ++ (w ++ ':' :: rest)) :
    ∃ d, Steps 2 ((l.amid m).onTop base)
      (((behindMargin margin w rest).amid ⟨d, [], m.names⟩).onTop (B.reverse ++ base)) := by
  obtain ⟨hnil, hflow, hidle, inner, hblocks, hinner, rfl⟩ := ends_of_step? h hl houter hopen
  obtain ⟨pos, hcolumn, hplaced, d, hoffset⟩ := toToken_next m hl hflow hnil hm hw hafter
  have htoken : ((l.amid m).onTop base).toToken (((l.amid m).onTop base).cursor.rest.length + 1) =
      onTop { l.amid m with cursor := ⟨w ++ ':' :: rest, pos⟩, keyAllowed := true } base := by
    rw [toToken_onTop, cursor_onTop, hplaced]
  have hshort : ((l.amid m).onTop base).keys.length ≤ 1 :=
    inFlow_eq_false_iff.1 (by rw [inFlow_onTop, inFlow_amid, hflow])
  have hstill : ∀ k, some k ∈ ((l.amid m).onTop base).keys → k.required = false :=
    idle_map (fun _ => rfl) (idle_map (fun _ => rfl) hidle)
  obtain ⟨r, hready, hatKey, hplace, hrblocks, hnames, htokens⟩ :=
    readied?_key htoken rfl hcolumn rfl hshort hstill hblocks hinner (.inr rfl)
  have hcounted' : ((l.amid m).onTop base).Counted := by
    have hcount : l.count = l.tokens.length := hcounted
    simp [Counted, onTop, amid, hcount]
  have hsteps := steps_key hw hrest hatKey hready hcounted'
  have hbase : opening [0] ++
      (List.replicate inner.length Token.blockEnd ++ ((l.amid m).onTop base).tokens) =
      (List.replicate inner.length Token.blockEnd ++ l.tokens).reverse.reverse ++ base := by
    rw [List.reverse_reverse, List.append_assoc]
    rfl
  rw [hplace, hrblocks, hnames, htokens] at hsteps
  refine ⟨d, ?_⟩
  unfold behindMargin
  rw [amid_amid, ← hoffset, ← hbase]
  exact hsteps

end Lexer

end Scaffold.Yaml
