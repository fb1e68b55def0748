import Scaffold.Proofs.Yaml.Tag

/-!
# Tokens in a longer document

A text gives the same tokens when it stands in a document (`Lexer.amid`): all that a lexer does is
relative to the place where it is. Tokens that refer to something else (`Token.isLocal`)
are left out, and so is what a document may do to a token at the very end of the text.
-/

namespace Scaffold.Yaml

/-- A token that refers to nothing outside its text. -/
def Token.isLocal : Token → Bool
  | .versionDirective _ _ | .tagDirective _ _ | .documentStart | .documentEnd => false
  | .alias _ | .anchor _ => false
  | _ => true

def KeyStart.moved (k : KeyStart) (d : Offset) : KeyStart :=
  { k with position := k.position.moved d }

namespace Lexer

/-! ## Lexers -/

structure Surroundings where
  before : Offset
  after : List Char
  /-- the anchors before the text -/
  names : List (String × Nat)

/-- The lexer of the document that has read as much of the text. -/
def amid (l : Lexer) (m : Surroundings) : Lexer :=
  { l with
    cursor := l.cursor.amid m.before m.after
    keys := l.keys.map (Option.map (KeyStart.moved · m.before))
    names := m.names }

variable {l l' : Lexer} {m : Surroundings}

@[simp] theorem cursor_amid : (l.amid m).cursor = l.cursor.amid m.before m.after := rfl

@[simp] theorem blocks_amid : (l.amid m).blocks = l.blocks := rfl

@[simp] theorem keyAllowed_amid : (l.amid m).keyAllowed = l.keyAllowed := rfl

@[simp] theorem tokens_amid : (l.amid m).tokens = l.tokens := rfl

@[simp] theorem count_amid : (l.amid m).count = l.count := rfl

theorem inFlow_eq_false_iff : l.inFlow = false ↔ l.keys.length ≤ 1 := by
  simp [inFlow]

@[simp] theorem inFlow_amid : (l.amid m).inFlow = l.inFlow := by
  simp [inFlow, amid]

theorem emit_amid (t : Token) : (l.amid m).emit t = (l.emit t).amid m := rfl

theorem insertAfter_amid (before : Nat) (t : Token) :
    (l.amid m).insertAfter before t = (l.insertAfter before t).amid m := rfl

theorem emitSkip_amid (t : Token) (h : l.cursor.rest ≠ []) :
    (l.amid m).emitSkip t 1 = (l.emitSkip t 1).amid m := by
  unfold emitSkip
  rw [emit_amid, cursor_amid, Cursor.skip_amid (List.length_pos_iff.2 h)]
  rfl

theorem openBlock_amid (t : Token) (column before : Nat) :
    (l.amid m).openBlock t column before = (l.openBlock t column before).amid m := by
  unfold openBlock
  have hdeep : (l.amid m).isDeeper column = l.isDeeper column := rfl
  rw [inFlow_amid, hdeep]
  split <;> rfl

theorem closeBlocks_amid (column : Option Nat) (blocks : List Nat) :
    (l.amid m).closeBlocks column blocks = (l.closeBlocks column blocks).amid m := by
  induction blocks generalizing l with
  | nil => rfl
  | cons b blocks ih =>
    unfold closeBlocks
    rw [emit_amid, ih]
    split <;> rfl

theorem close_amid (column : Option Nat) :
    (l.amid m).close column = (l.close column).amid m := by
  unfold close
  rw [inFlow_amid, blocks_amid, closeBlocks_amid]
  split <;> rfl

theorem isStale_moved (p : Position) (k : KeyStart) (d : Offset) :
    isStale (p.moved d) (k.moved d) = isStale p k := by
  unfold isStale KeyStart.moved Position.moved
  congr 1 <;> rw [decide_eq_decide] <;> dsimp only <;> omega

theorem forgetStale?_amid : (l.amid m).forgetStale? = l.forgetStale?.map (·.amid m) := by
  unfold forgetStale?
  have hany : ((l.amid m).keys.any fun k => k.any fun k =>
      isStale (l.amid m).cursor.position k && k.required) =
        (l.keys.any fun k => k.any fun k => isStale l.cursor.position k && k.required) := by
    simp only [amid, List.any_map]
    congr 1
    funext k
    cases k with
    | none => rfl
    | some k =>
      simp only [Function.comp, Option.map_some, Option.any_some, Cursor.position_amid,
        isStale_moved]
      rfl
  dsimp only
  rw [hany]
  split
  · rfl
  · simp only [Option.map_some, Option.some.injEq, amid, Lexer.mk.injEq, true_and, and_true,
      List.map_map]
    congr 1
    funext k
    cases k with
    | none => rfl
    | some k =>
      simp only [Function.comp, Option.map_some, Cursor.position_amid, Option.filter_some,
        isStale_moved]
      split <;> rfl

theorem forgetKey?_amid : (l.amid m).forgetKey? = l.forgetKey?.map (·.amid m) := by
  unfold forgetKey? amid
  match hkeys : l.keys with
  | [] => simp [hkeys]
  | none :: keys => simp [hkeys]
  | some k :: keys =>
    simp only [List.map_cons, Option.map_some]
    have hrequired : (k.moved m.before).required = k.required := rfl
    rw [hrequired]
    split <;> rfl

theorem saveKey?_amid : (l.amid m).saveKey? = l.saveKey?.map (·.amid m) := by
  unfold saveKey?
  rw [keyAllowed_amid, forgetKey?_amid]
  split
  · cases l.forgetKey? with
    | none => rfl
    | some l =>
      simp only [Option.map_some, Option.bind_eq_bind, Option.bind_some, inFlow_amid, blocks_amid,
        cursor_amid, Cursor.column_amid, Option.pure_def, Option.some.injEq]
      simp [amid, KeyStart.moved]
  · rfl

theorem cursor_insertAfter (before : Nat) (t : Token) :
    (l.insertAfter before t).cursor = l.cursor := rfl

theorem cursor_openBlock (t : Token) (column before : Nat) :
    (l.openBlock t column before).cursor = l.cursor := by
  unfold openBlock
  split <;> rfl

theorem cursor_forgetKey? (h : l.forgetKey? = some l') : l'.cursor = l.cursor := by
  unfold forgetKey? at h
  split at h
  · split at h
    · cases h
    · cases h
      rfl
  · cases h
    rfl

theorem cursor_saveKey? (h : l.saveKey? = some l') : l'.cursor = l.cursor := by
  unfold saveKey? at h
  split at h
  · obtain ⟨l₁, h₁, h₂⟩ := Option.bind_eq_some_iff.1 h
    cases h₂
    exact (cursor_forgetKey? h₁ :)
  · cases h
    rfl

theorem entry?_amid (block t : Token) (allowNext : Bool) (h : l.cursor.rest ≠ []) :
    Lexer.entry? (l.amid m) block t allowNext = ( l.entry? block t allowNext).map (·.amid m) := by
  unfold entry?
  rw [inFlow_amid, keyAllowed_amid, cursor_amid, Cursor.column_amid, count_amid, openBlock_amid,
    forgetKey?_amid]
  by_cases hguard : (l.inFlow || l.keyAllowed) = true
  · cases hkey : (l.openBlock block l.cursor.column l.count).forgetKey? with
    | none => simp
    | some l₁ =>
      have hrest : l₁.cursor.rest ≠ [] := by
        rw [cursor_forgetKey? hkey, cursor_openBlock]
        exact h
      simp only [guard, hguard, if_true, Option.map_some, Option.bind_eq_bind, Option.bind_some,
        Option.pure_def, emitSkip_amid t hrest, Option.some.injEq]
      rfl
  · simp only [guard, hguard]
    rfl

theorem value?_of_key {k : KeyStart} {keys : List (Option KeyStart)}
    (h : l.keys = some k :: keys) :
    l.value? = some { ((Lexer.insertAfter { l with keys := none :: keys } k.before .key).openBlock
      .blockMapping k.position.column k.before).emitSkip .value 1 with keyAllowed := false } := by
  unfold value?
  rw [h]

theorem value?_of_no_key (h : ∀ k keys, l.keys ≠ some k :: keys) :
    l.value? =
      if l.inFlow then some { l.emitSkip .value 1 with keyAllowed := false }
      else if l.keyAllowed then
        some { (l.openBlock .blockMapping l.cursor.column l.count).emitSkip .value 1 with
          keyAllowed := true }
      else none := by
  unfold value?
  split
  · rename_i k keys hkeys
    exact absurd hkeys (h k keys)
  · rfl

theorem value?_amid (h : l.cursor.rest ≠ []) :
    (l.amid m).value? = l.value?.map (·.amid m) := by
  by_cases hkeys : ∃ k keys, l.keys = some k :: keys
  · obtain ⟨k, keys, hkeys⟩ := hkeys
    have hmoved : (l.amid m).keys =
        some (k.moved m.before) :: keys.map (Option.map (KeyStart.moved · m.before)) := by
      simp [amid, hkeys]
    have hcleared : { l.amid m with
        keys := none :: keys.map (Option.map (KeyStart.moved · m.before)) } =
          { l with keys := none :: keys }.amid m := rfl
    have hplace : (k.moved m.before).before = k.before ∧
        (k.moved m.before).position.column = k.position.column := ⟨rfl, rfl⟩
    rw [value?_of_key hkeys, value?_of_key hmoved, hcleared, hplace.1, hplace.2, insertAfter_amid,
      openBlock_amid, emitSkip_amid]
    · rfl
    · rw [cursor_openBlock]
      exact h
  · have hmoved : ∀ k keys, (l.amid m).keys ≠ some k :: keys := by
      intro k keys heq
      obtain ⟨o, os, hl, ho, -⟩ := List.map_eq_cons_iff.1 heq
      obtain ⟨k', rfl, -⟩ := Option.map_eq_some_iff.1 ho
      exact hkeys ⟨k', os, hl⟩
    rw [value?_of_no_key fun k keys hl => hkeys ⟨k, keys, hl⟩, value?_of_no_key hmoved,
      inFlow_amid, keyAllowed_amid, cursor_amid, Cursor.column_amid, count_amid, openBlock_amid,
      emitSkip_amid _ h, emitSkip_amid]
    · split
      · rfl
      · split <;> rfl
    · rw [cursor_openBlock]
      exact h

/-! ## Between tokens -/

/-- A mark of the byte order does not count at the beginning of a line. -/
def passMark (c : Cursor) : Cursor :=
  if c.column == 0 && c.rest.head? == some '\ufeff' then c.next else c

def passComment (c : Cursor) : Cursor :=
  if c.rest.head? == some '#' then c.lineEnd else c

/-- A blank between tokens: a tab is one only where no key can begin. -/
def isGap (l : Lexer) (x : Char) : Bool :=
  x == ' ' || (x == '\t' && (l.inFlow || !l.keyAllowed))

/-- The place behind the blanks and the comment with which a line may begin or end. -/
def lineCursor (l : Lexer) : Cursor :=
  passComment ((passMark l.cursor).pass l.isGap)

theorem toToken_succ (n : Nat) :
    l.toToken (n + 1) =
      if l.lineCursor.rest.head?.any isBreak then
        toToken { l with
          cursor := l.lineCursor.next
          keyAllowed := l.keyAllowed || !l.inFlow } n
      else { l with cursor := l.lineCursor } := rfl

theorem length_pass (c : Cursor) (f : Char → Bool) :
    (c.pass f).rest.length ≤ c.rest.length := by
  rw [Cursor.pass_rest]
  exact (List.dropWhile_sublist f).length_le

theorem length_next (c : Cursor) : c.next.rest.length = c.rest.length - 1 := by
  obtain ⟨s, pos⟩ := c
  cases s <;> rfl

theorem length_passMark (c : Cursor) : (passMark c).rest.length ≤ c.rest.length := by
  unfold passMark
  split
  · rw [length_next]
    omega
  · exact Nat.le_refl _

theorem length_passComment (c : Cursor) : (passComment c).rest.length ≤ c.rest.length := by
  unfold passComment
  split
  · exact length_pass c _
  · exact Nat.le_refl _

theorem length_lineCursor : l.lineCursor.rest.length ≤ l.cursor.rest.length :=
  (length_passComment _).trans ((length_pass _ _).trans (length_passMark _))

theorem toToken_fuel {n k : Nat} (hn : l.cursor.rest.length < n) (hk : l.cursor.rest.length < k) :
    l.toToken n = l.toToken k := by
  induction n generalizing l k with
  | zero => omega
  | succ n ih =>
    cases k with
    | zero => omega
    | succ k =>
      rw [toToken_succ, toToken_succ]
      split
      · rename_i hbreak
        have hlength := length_lineCursor (l := l)
        have hpos : l.lineCursor.rest.length ≠ 0 := by
          intro hzero
          simp [List.length_eq_zero_iff.1 hzero] at hbreak
        have hnext := length_next l.lineCursor
        exact ih (by dsimp only; omega) (by dsimp only; omega)
      · rfl

theorem passMark_amid (d : Offset) (after : List Char) {c : Cursor} (he : Ended c.rest)
    (hc : c.rest ≠ []) :
    passMark (c.amid d after) = (passMark c).amid d after ∧ Ended (passMark c).rest ∧
      (passMark c).rest ≠ [] := by
  unfold passMark
  rw [Cursor.column_amid, Cursor.rest_amid, head?_append hc]
  split
  · rename_i hmark
    refine ⟨Cursor.next_amid hc, Cursor.ended_next he, ?_⟩
    obtain ⟨s, pos⟩ := c
    match s with
    | x :: s =>
      have hx : x = '\ufeff' := by simpa using (Bool.and_eq_true_iff.1 hmark).2
      subst hx
      exact he.ne_nil (by decide)
  · exact ⟨rfl, he, hc⟩

theorem passComment_amid (d : Offset) (after : List Char) {c : Cursor} (he : Ended c.rest)
    (hc : c.rest ≠ []) :
    passComment (c.amid d after) = (passComment c).amid d after ∧ Ended (passComment c).rest ∧
      (passComment c).rest ≠ [] := by
  unfold passComment
  rw [Cursor.rest_amid, head?_append hc]
  split
  · have hrest : c.lineEnd.rest ≠ [] := Cursor.pass_rest_ne_nil not_isBreak_break he hc
    exact ⟨Cursor.pass_amid hrest, Cursor.ended_pass _ he, hrest⟩
  · exact ⟨rfl, he, hc⟩

/-- Blanks and comments do not run over the end of a line. -/
theorem lineCursor_amid (he : Ended l.cursor.rest) (h : l.cursor.rest ≠ []) :
    (l.amid m).lineCursor = l.lineCursor.amid m.before m.after ∧ Ended l.lineCursor.rest ∧
      l.lineCursor.rest ≠ [] := by
  obtain ⟨hmark, he₁, hne₁⟩ := passMark_amid m.before m.after he h
  have hgap : StopsAtBreaks l.isGap := by
    intro x hx
    rcases break_cases hx with rfl | rfl | rfl <;> simp [isGap]
  have hne₂ := Cursor.pass_rest_ne_nil hgap he₁ hne₁
  have he₂ := Cursor.ended_pass l.isGap he₁
  obtain ⟨hcomment, hlast⟩ := passComment_amid m.before m.after he₂ hne₂
  have hsame : (l.amid m).isGap = l.isGap := by
    funext x
    simp [isGap]
  refine ⟨?_, hlast⟩
  unfold lineCursor
  rw [cursor_amid, hmark, hsame, Cursor.pass_amid hne₂, hcomment]

/-- The cursor stands in a text whose last line is at its end. -/
structure InText (l : Lexer) : Prop where
  ended : Ended l.cursor.rest
  column : l.cursor.rest = [] → l.cursor.column = 0
  keyAllowed : l.cursor.rest = [] → l.inFlow = false → l.keyAllowed = true

theorem toToken_of_nil (h : l.cursor.rest = []) (n : Nat) : l.toToken n = l := by
  obtain ⟨⟨s, pos⟩, blocks, keys, keyAllowed, names, tokens, count⟩ := l
  cases h
  cases n with
  | zero => rfl
  | succ n => simp [toToken_succ, lineCursor, passComment, passMark, Cursor.pass, passFrom]

theorem toToken_changes (n : Nat) :
    ∃ c a, l.toToken n = { l with cursor := c, keyAllowed := a } := by
  induction n generalizing l with
  | zero => exact ⟨l.cursor, l.keyAllowed, rfl⟩
  | succ n ih =>
    rw [toToken_succ]
    split
    · obtain ⟨c, a, h⟩ := ih (l := { l with
        cursor := l.lineCursor.next
        keyAllowed := l.keyAllowed || !l.inFlow })
      exact ⟨c, a, h⟩
    · exact ⟨_, _, rfl⟩

theorem toToken_amid (hl : l.InText) {n k : Nat} (hn : l.cursor.rest.length < n)
    (hk : l.cursor.rest.length + m.after.length < k) :
    (l.toToken n).InText ∧
      ((l.toToken n).cursor.rest ≠ [] → (l.amid m).toToken k = (l.toToken n).amid m) ∧
      ((l.toToken n).cursor.rest = [] →
        (l.amid m).toToken k = ((l.toToken n).amid m).toToken k) := by
  induction n generalizing l k with
  | zero => omega
  | succ n ih =>
    by_cases hnil : l.cursor.rest = []
    · rw [toToken_of_nil hnil]
      exact ⟨hl, fun h => absurd hnil h, fun _ => rfl⟩
    cases k with
    | zero => omega
    | succ k =>
      obtain ⟨hmoved, hended, hne⟩ := lineCursor_amid (m := m) hl.ended hnil
      have hlength := length_lineCursor (l := l)
      rw [toToken_succ, toToken_succ, hmoved, Cursor.rest_amid, head?_append hne]
      split
      · have hnext : ({ l.amid m with
            cursor := (l.lineCursor.amid m.before m.after).next
            keyAllowed := (l.amid m).keyAllowed || !(l.amid m).inFlow } : Lexer) =
              Lexer.amid { l with
                cursor := l.lineCursor.next
                keyAllowed := l.keyAllowed || !l.inFlow } m := by
          rw [Cursor.next_amid hne, inFlow_amid]
          rfl
        have hpos := List.length_pos_iff.2 hne
        have hshort := length_next l.lineCursor
        have hrec := ih (l := { l with
            cursor := l.lineCursor.next
            keyAllowed := l.keyAllowed || !l.inFlow }) (k := k)
          ⟨Cursor.ended_next hended, Cursor.column_next hended hne, fun _ hflow => by
            have hsame : l.inFlow = false := hflow
            simp [hsame]⟩ (by dsimp only; omega) (by dsimp only; omega)
        rw [hnext]
        refine ⟨hrec.1, hrec.2.1, fun h => ?_⟩
        rw [hrec.2.2 h]
        refine toToken_fuel ?_ ?_ <;>
        · rw [cursor_amid, Cursor.rest_amid, h, List.nil_append]
          omega
      · refine ⟨⟨hended, fun h => absurd h hne, fun h => absurd h hne⟩, fun _ => rfl,
          fun h => absurd h hne⟩

/-! ## Tokens -/

theorem lead?_append {rest after : List Char} (inFlow : Bool) (column : Nat) (he : Ended rest)
    (hne : rest ≠ []) : lead? inFlow column (rest ++ after) = lead? inFlow column rest := by
  cases rest with
  | nil => exact absurd rfl hne
  | cons c s =>
    unfold lead?
    rw [documentMark?_append he hne]
    by_cases hs : s = []
    · subst hs
      rcases break_cases (he c rfl) with rfl | rfl | rfl <;> rfl
    · simp only [List.cons_append, atWordEnd_append hs]

theorem lead?_break {inFlow : Bool} {column : Nat} {c : Char} {s : List Char} {lead : Lead}
    (hc : isBreak c = true) (h : lead? inFlow column (c :: s) = some lead) : lead = .plain := by
  rcases break_cases hc with rfl | rfl | rfl <;> cases column <;> cases h <;> rfl

theorem next_rest_ne_nil {inFlow : Bool} {column : Nat} {c : Cursor} {lead : Lead}
    (h : lead? inFlow column c.rest = some lead) (he : Ended c.rest) (hne : c.rest ≠ [])
    (hlead : lead ≠ .plain) : c.next.rest ≠ [] := by
  obtain ⟨s, pos⟩ := c
  cases s with
  | nil => exact absurd rfl hne
  | cons x s =>
    refine he.ne_nil ?_
    by_contra hx
    rw [Bool.not_eq_false] at hx
    exact hlead (lead?_break hx h)

theorem inText_of_ne_nil (he : Ended l.cursor.rest) (hne : l.cursor.rest ≠ []) : l.InText :=
  ⟨he, fun h => absurd h hne, fun h => absurd h hne⟩

theorem scan?_amid {f g : Cursor → Option (Token × Cursor)} (h : l.scan? f = some l')
    (hfg : ∀ t c', f l.cursor = some (t, c') →
      g (l.cursor.amid m.before m.after) = some (t, c'.amid m.before m.after) ∧ Ended c'.rest ∧
        c'.rest ≠ []) :
    (l.amid m).scan? g = some (l'.amid m) ∧ Ended l'.cursor.rest ∧ l'.cursor.rest ≠ [] := by
  unfold scan? at h ⊢
  obtain ⟨l₁, hsave, h₁⟩ := Option.bind_eq_some_iff.1 h
  obtain ⟨⟨t, c'⟩, hread, h₂⟩ := Option.bind_eq_some_iff.1 h₁
  rw [cursor_saveKey? hsave] at hread
  obtain ⟨hmoved, he, hne⟩ := hfg t c' hread
  cases h₂
  refine ⟨?_, he, hne⟩
  rw [saveKey?_amid, hsave, Option.map_some, Option.bind_eq_bind, Option.bind_some, cursor_amid,
    cursor_saveKey? hsave, hmoved]
  rfl

theorem cursor_entry? {block t : Token} {allowNext : Bool}
    (h : l.entry? block t allowNext = some l') :
    l'.cursor = l.cursor.next := by
  obtain ⟨⟨⟩, -, h₁⟩ := Option.bind_eq_some_iff.1 h
  obtain ⟨l₁, hkey, h₂⟩ := Option.bind_eq_some_iff.1 h₁
  cases h₂
  have hcursor := cursor_forgetKey? hkey
  rw [cursor_openBlock] at hcursor
  exact congrArg Cursor.next hcursor

theorem cursor_value? (h : l.value? = some l') : l'.cursor = l.cursor.next := by
  unfold value? at h
  split at h
  · cases h
    exact congrArg Cursor.next (by rw [cursor_openBlock, cursor_insertAfter])
  · split at h
    · cases h
      rfl
    · split at h
      · cases h
        exact congrArg Cursor.next (by rw [cursor_openBlock])
      · cases h

def Lead.isSign : Lead → Bool
  | .openFlow _ | .closeFlow _ | .comma | .item | .key | .value => true
  | _ => false

theorem read?_sign_amid {lead : Lead} (hsign : lead.isSign = true) (hne : l.cursor.rest ≠ [])
    (h : l.read? lead = some l') :
    (l.amid m).read? lead = some (l'.amid m) ∧ l'.cursor = l.cursor.next := by
  cases lead with
  | openFlow t =>
    obtain ⟨l₁, hsave, h₁⟩ := Option.bind_eq_some_iff.1 h
    have hcursor := cursor_saveKey? hsave
    cases h₁
    refine ⟨?_, congrArg Cursor.next hcursor⟩
    rw [read?, saveKey?_amid, hsave, Option.map_some, Option.bind_eq_bind, Option.bind_some,
      emitSkip_amid _ (by rw [hcursor]; exact hne)]
    rfl
  | closeFlow t =>
    obtain ⟨l₁, hforget, h₁⟩ := Option.bind_eq_some_iff.1 h
    have hcursor := cursor_forgetKey? hforget
    cases h₁
    refine ⟨?_, congrArg Cursor.next hcursor⟩
    rw [read?, forgetKey?_amid, hforget, Option.map_some, Option.bind_eq_bind, Option.bind_some,
      emitSkip_amid _ (by rw [hcursor]; exact hne), inFlow_amid]
    have hkeys : (if l₁.inFlow then (l₁.amid m).keys.drop 1 else (l₁.amid m).keys) =
        (if l₁.inFlow then l₁.keys.drop 1 else l₁.keys).map
          (Option.map (KeyStart.moved · m.before)) := by
      split <;> simp [amid]
    rw [hkeys]
    rfl
  | comma =>
    obtain ⟨l₁, hforget, h₁⟩ := Option.bind_eq_some_iff.1 h
    have hcursor := cursor_forgetKey? hforget
    cases h₁
    refine ⟨?_, congrArg Cursor.next hcursor⟩
    rw [read?, forgetKey?_amid, hforget, Option.map_some, Option.bind_eq_bind, Option.bind_some,
      emitSkip_amid _ (by rw [hcursor]; exact hne)]
    rfl
  | item =>
    refine ⟨?_, cursor_entry? h⟩
    rw [read?, entry?_amid _ _ _ hne]
    exact Option.map_eq_some_iff.2 ⟨l', h, rfl⟩
  | key =>
    refine ⟨?_, cursor_entry? h⟩
    rw [read?, entry?_amid _ _ _ hne, inFlow_amid]
    exact Option.map_eq_some_iff.2 ⟨l', h, rfl⟩
  | value =>
    refine ⟨?_, cursor_value? h⟩
    rw [read?, value?_amid hne]
    exact Option.map_eq_some_iff.2 ⟨l', h, rfl⟩
  | _ => cases hsign

theorem read?_tag_amid (hl : l.InText) (hnext : l.cursor.next.rest ≠ [])
    (h : l.read? .tag = some l') :
    (l.amid m).read? .tag = some (l'.amid m) ∧ Ended l'.cursor.rest ∧ l'.cursor.rest ≠ [] := by
  have hlong : 1 < l.cursor.rest.length := by
    have hpos := List.length_pos_iff.2 hnext
    rw [length_next] at hpos
    omega
  rw [read?] at h ⊢
  refine scan?_amid h fun t c' hread => ?_
  obtain ⟨⟨t, c⟩, htag, h₁⟩ := Option.bind_eq_some_iff.1 hread
  obtain ⟨⟨⟩, hguard, h₂⟩ := Option.bind_eq_some_iff.1 h₁
  cases h₂
  obtain ⟨hmoved, he, hne⟩ := tag?_amid m.before m.after htag hl.ended hlong
  refine ⟨Option.bind_eq_some_iff.2 ⟨_, hmoved, Option.bind_eq_some_iff.2 ⟨(), ?_, rfl⟩⟩, he, hne⟩
  simpa only [Cursor.rest_amid, atWordEnd_append hne, head?_append hne, inFlow_amid] using hguard

theorem read?_block_amid {folded : Bool} (hl : l.InText) (hne : l.cursor.rest ≠ [])
    (hnext : l.cursor.next.rest ≠ []) (h : l.read? (.block folded) = some l')
    (hany : Solid m.after ∨ m.after = ['\n']) (hend : l'.cursor.rest = [] → Solid m.after) :
    (l.amid m).read? (.block folded) = some (l'.amid m) ∧ l'.InText := by
  obtain ⟨l₁, hforget, h₁⟩ := Option.bind_eq_some_iff.1 h
  obtain ⟨⟨text, c⟩, hread, h₂⟩ := Option.bind_eq_some_iff.1 h₁
  cases h₂
  have hcursor := cursor_forgetKey? hforget
  rw [hcursor] at hread
  obtain ⟨hmoved, he, hcolumn⟩ := blockScalar?_amid hread (Cursor.ended_next hl.ended) hnext
    (Cursor.next_amid (d := m.before) hne) hany hend
  refine ⟨?_, he, hcolumn, fun _ _ => rfl⟩
  rw [read?, forgetKey?_amid, hforget, Option.map_some, Option.bind_eq_bind, Option.bind_some,
    blocks_amid, cursor_amid, hcursor, hmoved]
  rfl

theorem read?_quoted_amid {double : Bool} (hl : l.InText) (hne : l.cursor.rest ≠ [])
    (h : l.read? (.quoted double) = some l') :
    (l.amid m).read? (.quoted double) = some (l'.amid m) ∧ Ended l'.cursor.rest ∧
      l'.cursor.rest ≠ [] := by
  rw [read?] at h ⊢
  refine scan?_amid h fun t c' hread => ?_
  obtain ⟨⟨text, c⟩, hquoted, heq⟩ := Option.map_eq_some_iff.1 hread
  cases heq
  obtain ⟨hmoved, hrest⟩ := quotedScalar?_amid m.before m.after hquoted hl.ended hne
  exact ⟨Option.map_eq_some_iff.2 ⟨_, hmoved, rfl⟩, hrest⟩

theorem read?_plain_amid (hl : l.InText) (hne : l.cursor.rest ≠ [])
    (h : l.read? .plain = some l')
    (hend : l'.cursor.rest = [] →
      Solid m.after ∧ (m.after ≠ [] → l'.inFlow = false ∧ l'.blocks ≠ [])) :
    (l.amid m).read? .plain = some (l'.amid m) ∧ l'.InText := by
  obtain ⟨l₁, hsave, h₁⟩ := Option.bind_eq_some_iff.1 h
  obtain ⟨s, hread, h₂⟩ := Option.bind_eq_some_iff.1 h₁
  cases h₂
  have hcursor := cursor_saveKey? hsave
  rw [hcursor] at hread
  have hdeep : l₁.blocks ≠ [] → 0 < l₁.blocks.head?.elim 0 (· + 1) := by
    intro hblocks
    match l₁.blocks, hblocks with
    | b :: bs, _ => exact Nat.succ_pos b
  obtain ⟨hmoved, he, hlast⟩ := plainFrom_amid m.before m.after hread hl.ended
    (fun hnil => absurd hnil hne) fun hnil => ⟨(hend hnil).1, fun hafter =>
      ⟨((hend hnil).2 hafter).1, hdeep ((hend hnil).2 hafter).2⟩⟩
  refine ⟨?_, he, fun hnil => (hlast hnil).2, fun hnil _ => (hlast hnil).1⟩
  rw [read?, saveKey?_amid, hsave, Option.map_some, Option.bind_eq_bind, Option.bind_some,
    inFlow_amid, blocks_amid, cursor_amid, hcursor]
  exact Option.bind_eq_some_iff.2 ⟨_, hmoved, rfl⟩

theorem scan?_head {f : Cursor → Option (Token × Cursor)} (h : l.scan? f = some l') :
    ∃ t c, f l.cursor = some (t, c) ∧ l'.tokens.head? = some t := by
  obtain ⟨l₁, hsave, h₁⟩ := Option.bind_eq_some_iff.1 h
  obtain ⟨⟨t, c⟩, hread, h₂⟩ := Option.bind_eq_some_iff.1 h₁
  rw [cursor_saveKey? hsave] at hread
  cases h₂
  exact ⟨t, c, hread, rfl⟩

theorem version?_token {c c' : Cursor} {t : Token} (h : version? c = some (t, c')) :
    t.isLocal = false := by
  obtain ⟨⟨major, c₁⟩, -, h₁⟩ := Option.bind_eq_some_iff.1 h
  obtain ⟨⟨⟩, -, h₂⟩ := Option.bind_eq_some_iff.1 h₁
  obtain ⟨⟨minor, c₂⟩, -, h₃⟩ := Option.bind_eq_some_iff.1 h₂
  cases h₃
  rfl

theorem handleMeaning?_token {c c' : Cursor} {t : Token} (h : handleMeaning? c = some (t, c')) :
    t.isLocal = false := by
  obtain ⟨⟨handle, c₁⟩, -, h₁⟩ := Option.bind_eq_some_iff.1 h
  obtain ⟨⟨⟩, -, h₂⟩ := Option.bind_eq_some_iff.1 h₁
  obtain ⟨⟨⟩, -, h₃⟩ := Option.bind_eq_some_iff.1 h₂
  obtain ⟨⟨meaning, c₂⟩, -, h₄⟩ := Option.bind_eq_some_iff.1 h₃
  obtain ⟨⟨⟩, -, h₅⟩ := Option.bind_eq_some_iff.1 h₄
  cases h₅
  rfl

theorem directive?_token {c c' : Cursor} {t : Token} (h : directive? c = some (t, c')) :
    t.isLocal = false := by
  obtain ⟨⟨⟩, -, h₁⟩ := Option.bind_eq_some_iff.1 h
  dsimp only at h₁
  split at h₁
  · obtain ⟨⟨t, c₁⟩, hread, h₂⟩ := Option.bind_eq_some_iff.1 h₁
    obtain ⟨c₂, -, h₃⟩ := Option.bind_eq_some_iff.1 h₂
    cases h₃
    exact version?_token hread
  split at h₁
  · obtain ⟨⟨t, c₁⟩, hread, h₂⟩ := Option.bind_eq_some_iff.1 h₁
    obtain ⟨c₂, -, h₃⟩ := Option.bind_eq_some_iff.1 h₂
    cases h₃
    exact handleMeaning?_token hread
  · cases h₁

/-- What reads a directive, a mark, an anchor or an alias reads no local token. -/
def Lead.isLocal : Lead → Bool
  | .directive | .documentMark _ | .alias | .anchor => false
  | _ => true

theorem isLocal_of_head {lead : Lead} (h : l.read? lead = some l')
    (hlocal : ∀ t ∈ l'.tokens.head?, t.isLocal = true) : lead.isLocal = true := by
  cases lead with
  | directive =>
    obtain ⟨l₁, -, h₁⟩ := Option.bind_eq_some_iff.1 h
    obtain ⟨⟨t, c⟩, hdirective, h₂⟩ := Option.bind_eq_some_iff.1 h₁
    cases h₂
    exact absurd (hlocal t rfl) (by simp [directive?_token hdirective])
  | documentMark mark =>
    obtain ⟨l₁, -, h₁⟩ := Option.bind_eq_some_iff.1 h
    cases h₁
    cases mark <;> cases hlocal _ rfl
  | «alias» =>
    obtain ⟨⟨name, c⟩, -, h₁⟩ := Option.bind_eq_some_iff.1 h
    obtain ⟨number, -, h₂⟩ := Option.bind_eq_some_iff.1 h₁
    obtain ⟨t, c, hread, hhead⟩ := scan?_head h₂
    obtain ⟨_, -, heq⟩ := Option.map_eq_some_iff.1 hread
    cases heq
    cases hlocal _ hhead
  | anchor =>
    obtain ⟨⟨name, c⟩, -, h₁⟩ := Option.bind_eq_some_iff.1 h
    obtain ⟨t, c, hread, hhead⟩ := scan?_head h₁
    obtain ⟨_, -, heq⟩ := Option.map_eq_some_iff.1 hread
    cases heq
    cases hlocal _ hhead
  | _ => rfl

/-- A token is read alike in a document, if it ends in front of the text's end or what is behind
the text cannot belong to it. -/
theorem read?_amid {lead : Lead} (hl : l.InText) (hne : l.cursor.rest ≠ [])
    (hlead : lead? l.inFlow l.cursor.column l.cursor.rest = some lead)
    (h : l.read? lead = some l') (hlocal : ∀ t ∈ l'.tokens.head?, t.isLocal = true)
    (hany : Solid m.after ∨ m.after = ['\n'])
    (hend : l'.cursor.rest = [] →
      Solid m.after ∧ (m.after ≠ [] → l'.inFlow = false ∧ l'.blocks ≠ [])) :
    (l.amid m).read? lead = some (l'.amid m) ∧ l'.InText := by
  have hnext : lead ≠ .plain → l.cursor.next.rest ≠ [] := next_rest_ne_nil hlead hl.ended hne
  have hended : Ended l.cursor.next.rest := Cursor.ended_next hl.ended
  have hkind := isLocal_of_head h hlocal
  by_cases hsign : lead.isSign = true
  · obtain ⟨hmoved, hcursor⟩ := read?_sign_amid (m := m) hsign hne h
    have hplain : lead ≠ .plain := by
      rintro rfl
      cases hsign
    exact ⟨hmoved, inText_of_ne_nil (by rw [hcursor]; exact hended)
      (by rw [hcursor]; exact hnext hplain)⟩
  cases lead with
  | finish => cases h
  | tag =>
    obtain ⟨hmoved, he, hrest⟩ := read?_tag_amid (m := m) hl (hnext (by simp)) h
    exact ⟨hmoved, inText_of_ne_nil he hrest⟩
  | block folded => exact read?_block_amid hl hne (hnext (by simp)) h hany fun hnil => (hend hnil).1
  | quoted double =>
    obtain ⟨hmoved, he, hrest⟩ := read?_quoted_amid (m := m) hl hne h
    exact ⟨hmoved, inText_of_ne_nil he hrest⟩
  | plain => exact read?_plain_amid hl hne h hend
  | directive | documentMark _ | «alias» | anchor => cases hkind
  | openFlow _ | closeFlow _ | comma | item | key | value => exact absurd rfl hsign

/-! ## Steps -/

/-- The lexer in front of its next token, the blocks closed that end there. -/
def readied? (l : Lexer) : Option Lexer :=
  (l.toToken (l.cursor.rest.length + 1)).forgetStale?.map fun l => l.close (some l.cursor.column)

theorem step?_eq :
    l.step? = l.readied?.bind fun l =>
      (lead? l.inFlow l.cursor.column l.cursor.rest).bind fun lead =>
        if lead = .finish then l.finish?.map .inr else (l.read? lead).map .inl := by
  unfold step? readied?
  cases (l.toToken (l.cursor.rest.length + 1)).forgetStale? with
  | none => rfl
  | some l₁ =>
    simp only [Option.bind_eq_bind, Option.bind_some, Option.map_some]
    congr 1
    funext lead
    cases lead <;> rfl

theorem cursor_forgetStale? (h : l.forgetStale? = some l') : l'.cursor = l.cursor := by
  unfold forgetStale? at h
  dsimp only at h
  split at h <;> cases h
  rfl

theorem cursor_closeBlocks (column : Option Nat) (blocks : List Nat) :
    (l.closeBlocks column blocks).cursor = l.cursor := by
  induction blocks generalizing l with
  | nil => rfl
  | cons b blocks ih =>
    unfold closeBlocks
    split
    · exact ih
    · rfl

theorem cursor_close (column : Option Nat) : (l.close column).cursor = l.cursor := by
  unfold close
  split
  · rfl
  · exact cursor_closeBlocks column _

theorem cursor_readied? (h : l.readied? = some l') :
    l'.cursor = (l.toToken (l.cursor.rest.length + 1)).cursor := by
  obtain ⟨l₁, hstale, rfl⟩ := Option.map_eq_some_iff.1 h
  rw [cursor_close, cursor_forgetStale? hstale]

theorem readied?_amid (hl : l.InText) (h : l.readied? = some l') (hne : l'.cursor.rest ≠ []) :
    (l.amid m).readied? = some (l'.amid m) ∧ l'.InText := by
  rw [cursor_readied? h] at hne
  obtain ⟨htext, hmoved, -⟩ := toToken_amid (m := m) (k := (l.amid m).cursor.rest.length + 1) hl
    (Nat.lt_succ_self l.cursor.rest.length) (by simp)
  refine ⟨?_, inText_of_ne_nil ?_ ?_⟩
  · unfold readied? at h ⊢
    rw [hmoved hne, forgetStale?_amid]
    obtain ⟨l₁, hstale, rfl⟩ := Option.map_eq_some_iff.1 h
    rw [hstale, Option.map_some, Option.map_some, cursor_amid, Cursor.column_amid, close_amid]
  · rw [cursor_readied? h]
    exact htext.ended
  · rw [cursor_readied? h]
    exact hne

/-- A step in a text is one in a document, if what is behind the text cannot change it. -/
theorem step?_amid (hl : l.InText) (h : l.step? = some (.inl l'))
    (hlocal : ∀ t ∈ l'.tokens.head?, t.isLocal = true) (hany : Solid m.after ∨ m.after = ['\n'])
    (hend : l'.cursor.rest = [] →
      Solid m.after ∧ (m.after ≠ [] → l'.inFlow = false ∧ l'.blocks ≠ [])) :
    (l.amid m).step? = some (.inl (l'.amid m)) ∧ l'.InText := by
  rw [step?_eq] at h ⊢
  obtain ⟨r, hready, h₁⟩ := Option.bind_eq_some_iff.1 h
  obtain ⟨lead, hlead, h₂⟩ := Option.bind_eq_some_iff.1 h₁
  split at h₂
  · obtain ⟨ts, -, heq⟩ := Option.map_eq_some_iff.1 h₂
    cases heq
  rename_i hfinish
  obtain ⟨l₁, hread, heq⟩ := Option.map_eq_some_iff.1 h₂
  cases heq
  have hne : r.cursor.rest ≠ [] := by
    intro hnil
    rw [hnil] at hlead
    cases hlead
    exact hfinish rfl
  obtain ⟨hmoved, htext⟩ := readied?_amid (m := m) hl hready hne
  obtain ⟨hread', hlast⟩ := read?_amid (m := m) htext hne hlead hread hlocal hany hend
  refine ⟨?_, hlast⟩
  rw [hmoved, Option.bind_some, inFlow_amid, cursor_amid, Cursor.column_amid, Cursor.rest_amid,
    lead?_append _ _ htext.ended hne, hlead, Option.bind_some, if_neg hfinish, hread']
  rfl

end Lexer

end Scaffold.Yaml
