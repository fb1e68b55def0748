import Scaffold.Proofs.Yaml.Lexer

/-!
# What a step leaves

A step only adds tokens (`Grows`), and the last one that it adds is no end of a block. A block that
begins in the first column stays open until the text ends or a mark ends the document.
-/

namespace Scaffold.Yaml.Lexer

def Counted (l : Lexer) : Prop :=
  l.count = l.tokens.length

/-- The outermost block begins in the first column, all others further in. -/
def IsOuter (blocks : List Nat) : Prop :=
  ∃ inner, blocks = inner ++ [0] ∧ ∀ b ∈ inner, 0 < b

/-- `l'` has the tokens of `l` and more, and its outermost block. -/
structure Grows (l l' : Lexer) : Prop where
  counted : l.Counted → l'.Counted
  tokens : l.tokens ⊆ l'.tokens
  outer : IsOuter l.blocks → IsOuter l'.blocks

namespace Grows

variable {l l₁ l₂ : Lexer}

theorem trans (h₁ : Grows l l₁) (h₂ : Grows l₁ l₂) : Grows l l₂ :=
  ⟨h₂.counted ∘ h₁.counted, List.Subset.trans h₁.tokens h₂.tokens, h₂.outer ∘ h₁.outer⟩

theorem of_eq (ht : l₁.tokens = l.tokens) (hc : l₁.count = l.count) (hb : l₁.blocks = l.blocks) :
    Grows l l₁ := by
  refine ⟨fun h => ?_, ?_, fun h => ?_⟩
  · rw [Counted, hc, ht]
    exact h
  · rw [ht]
    exact List.Subset.refl _
  · rw [hb]
    exact h

end Grows

variable {l l' : Lexer}

theorem grows_emit (l : Lexer) (t : Token) : Grows l (l.emit t) := by
  refine ⟨fun h => ?_, List.subset_cons_self t l.tokens, id⟩
  have hlength : l.count = l.tokens.length := h
  simp [Counted, emit, hlength]

theorem grows_insertAfter (l : Lexer) (before : Nat) (t : Token) :
    Grows l (l.insertAfter before t) := by
  refine ⟨fun h => ?_, fun x hx => ?_, id⟩
  · have hlength : l.count = l.tokens.length := h
    simp only [Counted, insertAfter, List.length_append, List.length_cons, List.length_take,
      List.length_drop]
    omega
  · rw [← List.take_append_drop (l.count - before) l.tokens, List.mem_append] at hx
    unfold insertAfter
    dsimp only
    rcases hx with hx | hx
    · exact List.mem_append_left _ hx
    · exact List.mem_append_right _ (List.mem_cons_of_mem t hx)

theorem grows_openBlock (l : Lexer) (t : Token) (column before : Nat) :
    Grows l (l.openBlock t column before) := by
  unfold openBlock
  split
  · rename_i hopen
    obtain ⟨hc, ht, -⟩ := grows_insertAfter { l with blocks := column :: l.blocks } before t
    refine ⟨hc, ht, ?_⟩
    rintro ⟨inner, hblocks, hinner⟩
    refine ⟨column :: inner, congrArg (column :: ·) hblocks, ?_⟩
    have hdeep : 0 < column := by
      have hall := (Bool.and_eq_true_iff.1 hopen).2
      unfold isDeeper at hall
      rw [hblocks] at hall
      cases inner <;> simp at hall <;> omega
    intro b hb
    rcases List.mem_cons.1 hb with rfl | hb
    · exact hdeep
    · exact hinner b hb
  · exact .of_eq rfl rfl rfl

theorem closeBlocks_tokens (column : Option Nat) (blocks : List Nat) :
    (l.Counted → (l.closeBlocks column blocks).Counted) ∧
      l.tokens ⊆ (l.closeBlocks column blocks).tokens := by
  induction blocks generalizing l with
  | nil => exact ⟨id, List.Subset.refl _⟩
  | cons b blocks ih =>
    unfold closeBlocks
    split
    · obtain ⟨hc, ht, -⟩ := grows_emit l .blockEnd
      exact ⟨ih.1 ∘ hc, List.Subset.trans ht ih.2⟩
    · exact ⟨id, List.Subset.refl _⟩

theorem closeBlocks_outer {column : Nat} {blocks : List Nat} (h : IsOuter blocks) :
    IsOuter (l.closeBlocks (some column) blocks).blocks := by
  induction blocks generalizing l with
  | nil =>
    obtain ⟨inner, heq, -⟩ := h
    cases inner <;> cases heq
  | cons b blocks ih =>
    obtain ⟨inner, heq, hinner⟩ := h
    unfold closeBlocks
    split
    · rename_i hclose
      refine ih ?_
      cases inner with
      | nil =>
        cases heq
        simp at hclose
      | cons x inner =>
        cases heq
        exact ⟨inner, rfl, fun b hb => hinner b (List.mem_cons_of_mem _ hb)⟩
    · exact ⟨inner, heq, hinner⟩

theorem grows_close (l : Lexer) (column : Nat) : Grows l (l.close (some column)) := by
  unfold close
  split
  · exact .of_eq rfl rfl rfl
  · obtain ⟨hc, ht⟩ := closeBlocks_tokens (l := l) (some column) l.blocks
    exact ⟨hc, ht, closeBlocks_outer⟩

theorem grows_toToken (l : Lexer) (n : Nat) : Grows l (l.toToken n) := by
  obtain ⟨c, a, h⟩ := toToken_changes (l := l) n
  rw [h]
  exact .of_eq rfl rfl rfl

theorem grows_forgetStale? (h : l.forgetStale? = some l') : Grows l l' := by
  unfold forgetStale? at h
  dsimp only at h
  split at h <;> cases h
  exact .of_eq rfl rfl rfl

theorem grows_readied? (h : l.readied? = some l') : Grows l l' := by
  obtain ⟨l₁, hstale, rfl⟩ := Option.map_eq_some_iff.1 h
  exact (grows_toToken l _).trans ((grows_forgetStale? hstale).trans (grows_close l₁ _))

theorem grows_forgetKey? (h : l.forgetKey? = some l') : Grows l l' := by
  unfold forgetKey? at h
  split at h
  · split at h <;> cases h
    exact .of_eq rfl rfl rfl
  · cases h
    exact .of_eq rfl rfl rfl

theorem grows_saveKey? (h : l.saveKey? = some l') : Grows l l' := by
  unfold saveKey? at h
  split at h
  · obtain ⟨l₁, h₁, h₂⟩ := Option.bind_eq_some_iff.1 h
    cases h₂
    exact (grows_forgetKey? h₁).trans (.of_eq rfl rfl rfl)
  · cases h
    exact .of_eq rfl rfl rfl

/-- What a reader of tokens leaves: more than before, and a last token that is `t`. -/
theorem grows_last (l' : Lexer) {l₁ : Lexer} {t : Token} (h : Grows l l₁)
    (ht : l'.tokens = t :: l₁.tokens)
    (hc : l'.count = l₁.count + 1) (hb : l'.blocks = l₁.blocks) :
    Grows l l' ∧ l'.tokens.head? = some t := by
  have hemit : Grows l₁ l' := (grows_emit l₁ t).trans (.of_eq ht hc hb)
  exact ⟨h.trans hemit, by rw [ht]; rfl⟩

theorem grows_scan? {f : Cursor → Option (Token × Cursor)} (h : l.scan? f = some l') :
    Grows l l' ∧ ∃ t c, f l.cursor = some (t, c) ∧ l'.tokens.head? = some t := by
  obtain ⟨l₁, hsave, h₁⟩ := Option.bind_eq_some_iff.1 h
  obtain ⟨⟨t, c⟩, hread, h₂⟩ := Option.bind_eq_some_iff.1 h₁
  rw [cursor_saveKey? hsave] at hread
  cases h₂
  obtain ⟨hgrows, hhead⟩ := grows_last (t := t)
    { l₁.emit t with cursor := c, keyAllowed := false } (grows_saveKey? hsave) rfl rfl rfl
  exact ⟨hgrows, t, c, hread, hhead⟩

theorem grows_entry? {block t : Token} {allowNext : Bool}
    (h : l.entry? block t allowNext = some l') : Grows l l' ∧ l'.tokens.head? = some t := by
  obtain ⟨⟨⟩, -, h₁⟩ := Option.bind_eq_some_iff.1 h
  obtain ⟨l₁, hkey, h₂⟩ := Option.bind_eq_some_iff.1 h₁
  cases h₂
  exact grows_last _ ((grows_openBlock l block _ _).trans (grows_forgetKey? hkey)) rfl rfl rfl

theorem grows_value? (h : l.value? = some l') : Grows l l' ∧ l'.tokens.head? = some .value := by
  unfold value? at h
  split at h
  · rename_i k keys _
    cases h
    have hstart : Grows l { l with keys := none :: keys } := .of_eq rfl rfl rfl
    exact grows_last _ (hstart.trans ((grows_insertAfter _ _ _).trans (grows_openBlock _ _ _ _)))
      rfl rfl rfl
  · split at h
    · cases h
      exact grows_last _ (.of_eq rfl rfl rfl) rfl rfl rfl
    · split at h
      · cases h
        exact grows_last _ (grows_openBlock l _ _ _) rfl rfl rfl
      · cases h

theorem lead?_cases {inFlow : Bool} {column : Nat} {rest : List Char} {lead : Lead}
    (h : lead? inFlow column rest = some lead) :
    (lead = .finish → rest = []) ∧ (∀ t, lead = .openFlow t → t ≠ .blockEnd) ∧
      (∀ t, lead = .closeFlow t → t ≠ .blockEnd) := by
  unfold lead? at h
  split at h
  · cases h
    simp
  split at h
  · cases h
    simp
  split at h
  · cases h
    simp
  split at h <;> try split at h
  all_goals cases h
  all_goals simp

theorem tag?_token {c c' : Cursor} {t : Token} (h : tag? c = some (t, c')) : t ≠ .blockEnd := by
  unfold tag? at h
  split at h
  · obtain ⟨⟨suffix, c₁⟩, -, h₁⟩ := Option.bind_eq_some_iff.1 h
    obtain ⟨⟨⟩, -, h₂⟩ := Option.bind_eq_some_iff.1 h₁
    cases h₂
    nofun
  · obtain ⟨⟨handle, c₁⟩, -, h₁⟩ := Option.bind_eq_some_iff.1 h
    dsimp only at h₁
    split at h₁
    · obtain ⟨⟨suffix, c₂⟩, -, h₂⟩ := Option.bind_eq_some_iff.1 h₁
      cases h₂
      nofun
    · obtain ⟨⟨suffix, c₂⟩, -, h₂⟩ := Option.bind_eq_some_iff.1 h₁
      cases h₂
      dsimp only
      split <;> nofun

theorem grows_read? {lead : Lead} {inFlow : Bool} {column : Nat} {rest : List Char}
    (hlead : lead? inFlow column rest = some lead) (hlocal : lead.isLocal = true)
    (h : l.read? lead = some l') :
    Grows l l' ∧ ∃ t, l'.tokens.head? = some t ∧ t ≠ .blockEnd := by
  cases lead with
  | finish => cases h
  | directive | documentMark _ | «alias» | anchor => cases hlocal
  | openFlow t =>
    obtain ⟨l₁, hsave, h₁⟩ := Option.bind_eq_some_iff.1 h
    cases h₁
    obtain ⟨hgrows, hhead⟩ := grows_last (t := t)
      { l₁.emitSkip t 1 with keys := none :: l₁.keys, keyAllowed := true }
      (grows_saveKey? hsave) rfl rfl rfl
    exact ⟨hgrows, t, hhead, (lead?_cases hlead).2.1 t rfl⟩
  | closeFlow t =>
    obtain ⟨l₁, hforget, h₁⟩ := Option.bind_eq_some_iff.1 h
    cases h₁
    obtain ⟨hgrows, hhead⟩ := grows_last (t := t)
      { l₁.emitSkip t 1 with
        keys := if l₁.inFlow then l₁.keys.drop 1 else l₁.keys, keyAllowed := false }
      (grows_forgetKey? hforget) rfl rfl rfl
    exact ⟨hgrows, t, hhead, (lead?_cases hlead).2.2 t rfl⟩
  | comma =>
    obtain ⟨l₁, hforget, h₁⟩ := Option.bind_eq_some_iff.1 h
    cases h₁
    obtain ⟨hgrows, hhead⟩ := grows_last (t := .comma)
      { l₁.emitSkip .comma 1 with keyAllowed := true } (grows_forgetKey? hforget) rfl rfl rfl
    exact ⟨hgrows, .comma, hhead, by simp⟩
  | item =>
    obtain ⟨hgrows, hhead⟩ := grows_entry? h
    exact ⟨hgrows, .item, hhead, by simp⟩
  | key =>
    obtain ⟨hgrows, hhead⟩ := grows_entry? h
    exact ⟨hgrows, .key, hhead, by simp⟩
  | value =>
    obtain ⟨hgrows, hhead⟩ := grows_value? h
    exact ⟨hgrows, .value, hhead, by simp⟩
  | tag =>
    rw [read?] at h
    obtain ⟨hgrows, t, c, hread, hhead⟩ := grows_scan? h
    obtain ⟨⟨t, c₁⟩, htag, h₁⟩ := Option.bind_eq_some_iff.1 hread
    obtain ⟨⟨⟩, -, h₂⟩ := Option.bind_eq_some_iff.1 h₁
    cases h₂
    exact ⟨hgrows, t, hhead, tag?_token htag⟩
  | block folded =>
    obtain ⟨l₁, hforget, h₁⟩ := Option.bind_eq_some_iff.1 h
    obtain ⟨⟨text, c⟩, -, h₂⟩ := Option.bind_eq_some_iff.1 h₁
    cases h₂
    obtain ⟨hgrows, hhead⟩ := grows_last (t := .scalar text false)
      { l₁.emit (.scalar text false) with cursor := c, keyAllowed := true }
      (grows_forgetKey? hforget) rfl rfl rfl
    exact ⟨hgrows, _, hhead, by simp⟩
  | quoted double =>
    rw [read?] at h
    obtain ⟨hgrows, t, c, hread, hhead⟩ := grows_scan? h
    obtain ⟨_, -, heq⟩ := Option.map_eq_some_iff.1 hread
    cases heq
    exact ⟨hgrows, _, hhead, by simp⟩
  | plain =>
    obtain ⟨l₁, hsave, h₁⟩ := Option.bind_eq_some_iff.1 h
    obtain ⟨s, -, h₂⟩ := Option.bind_eq_some_iff.1 h₁
    cases h₂
    obtain ⟨hgrows, hhead⟩ := grows_last (t := .scalar s.text true)
      { l₁.emit (.scalar s.text true) with
        cursor := s.behind, keyAllowed := s.brokeLine } (grows_saveKey? hsave) rfl rfl rfl
    exact ⟨hgrows, _, hhead, by simp⟩

theorem grows_step? (h : l.step? = some (.inl l'))
    (hlocal : ∀ t ∈ l'.tokens.head?, t.isLocal = true) :
    Grows l l' ∧ ∃ t, l'.tokens.head? = some t ∧ t ≠ .blockEnd := by
  rw [step?_eq] at h
  obtain ⟨r, hready, h₁⟩ := Option.bind_eq_some_iff.1 h
  obtain ⟨lead, hlead, h₂⟩ := Option.bind_eq_some_iff.1 h₁
  split at h₂
  · obtain ⟨ts, -, heq⟩ := Option.map_eq_some_iff.1 h₂
    cases heq
  · obtain ⟨l₁, hread, heq⟩ := Option.map_eq_some_iff.1 h₂
    cases heq
    obtain ⟨hgrows, hlast⟩ := grows_read? hlead (isLocal_of_head hread hlocal) hread
    exact ⟨(grows_readied? hready).trans hgrows, hlast⟩

end Scaffold.Yaml.Lexer
