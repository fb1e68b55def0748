import Scaffold.Proofs.Yaml.Piece
import Scaffold.Proofs.Yaml.Shape

/-!
# An empty line behind a piece

A piece with a further break behind it is a piece again (`Piece.padded`). Its tokens are of the
same kinds, but a block scalar at the very end may take the break up.
-/

namespace Scaffold.Yaml

theorem Token.isLocal_blank (t : Token) : t.blank.isLocal = t.isLocal := by
  cases t with
  | scalar text plain => cases plain <;> rfl
  | _ => rfl

theorem Token.isLocal_head {ts us : List Token} (h : ts.map blank = us.map blank)
    (hus : ∀ u ∈ us.head?, u.isLocal = true) : ∀ t ∈ ts.head?, t.isLocal = true := by
  intro t ht
  have hhead : (us.map blank).head? = some t.blank := by
    rw [← h, List.head?_map, Option.mem_def.1 ht]
    rfl
  rw [List.head?_map] at hhead
  obtain ⟨u, hu, hsame⟩ := Option.map_eq_some_iff.1 hhead
  rw [← t.isLocal_blank, ← hsame, u.isLocal_blank]
  exact hus u hu

namespace Lexer

variable {l l' : Lexer} {m : Surroundings} {n : Nat}

/-- At the end of the text all blocks end; the last one begins in the first column. -/
theorem step?_ends {t : Lexer} {inner : List Nat}
    (htoken : l.toToken (l.cursor.rest.length + 1) = t) (hnil : t.cursor.rest = [])
    (hcolumn : t.cursor.position.column = 0) (hshort : t.keys.length ≤ 1)
    (hidle : ∀ k, some k ∈ t.keys → k.required = false) (hblocks : t.blocks = inner ++ [0])
    (hinner : ∀ b ∈ inner, 0 < b) :
    l.step? = some (.inr
      ((List.replicate inner.length Token.blockEnd ++ t.tokens).reverse ++ [.blockEnd])) := by
  obtain ⟨keys, hstale, hlength, hsub⟩ := forgetStale?_idle hidle
  have hflow : Lexer.inFlow { t with keys := keys } = false :=
    inFlow_eq_false_iff.2 (hlength.trans_le hshort)
  have hzero : t.cursor.column = 0 := hcolumn
  have hclose := close_first hflow hblocks hinner (.inr rfl)
  have hready : l.readied? = some { t with
      keys := keys
      blocks := [0]
      tokens := List.replicate inner.length .blockEnd ++ t.tokens
      count := t.count + inner.length } := by
    unfold readied?
    rw [htoken, hstale, Option.map_some, hzero, hclose]
  obtain ⟨keys', hforget, -⟩ := forgetKey?_idle (l := { t with
      keys := keys
      blocks := []
      tokens := .blockEnd :: (List.replicate inner.length .blockEnd ++ t.tokens)
      count := t.count + inner.length + 1 }) fun k hk => hidle k (hsub k hk)
  rw [step?_eq, hready, Option.bind_some]
  dsimp only
  rw [hnil]
  have hlead : lead? (Lexer.inFlow { t with
      keys := keys
      blocks := [0]
      tokens := List.replicate inner.length .blockEnd ++ t.tokens
      count := t.count + inner.length }) t.cursor.column [] = some .finish := rfl
  rw [hlead, Option.bind_some, if_pos rfl, finish?, close_last (by exact hflow) rfl]
  dsimp only [emit]
  rw [hforget]
  simp

/-- The lexer at the end of the text, behind a further break; the tokens may have other texts. -/
def pastBreak (l : Lexer) (d : Offset) (ts : List Token) : Lexer :=
  { l.amid ⟨d, [], []⟩ with
    cursor := ⟨[], (l.cursor.position.moved d).after '\n'⟩
    tokens := ts }

/-- Behind a further break the blocks end as they would have in front of it. -/
theorem step?_pastBreak {t : Lexer} {inner : List Nat} {d : Offset} {ts : List Token}
    (htoken : l.toToken (l.cursor.rest.length + 1) = t.pastBreak d ts) (hflow : t.inFlow = false)
    (hidle : ∀ k, some k ∈ t.keys → k.required = false) (hblocks : t.blocks = inner ++ [0])
    (hinner : ∀ b ∈ inner, 0 < b) :
    l.step? = some (.inr
      ((List.replicate inner.length Token.blockEnd ++ ts).reverse ++ [.blockEnd])) := by
  have hshort : (t.pastBreak d ts).keys.length ≤ 1 := by
    rw [← inFlow_eq_false_iff, ← hflow]
    exact inFlow_amid
  have hstill : ∀ k, some k ∈ (t.pastBreak d ts).keys → k.required = false :=
    idle_map (fun _ => rfl) hidle
  exact step?_ends htoken rfl (Position.column_after isBreak_newline _) hshort hstill hblocks hinner

/-- The last token of a text takes a further break up. -/
theorem read?_break {lead : Lead} (hl : l.InText) (hne : l.cursor.rest ≠ [])
    (hlead : lead? l.inFlow l.cursor.column l.cursor.rest = some lead)
    (h : l.read? lead = some l') (hlocal : ∀ t ∈ l'.tokens.head?, t.isLocal = true)
    (hnil : l'.cursor.rest = []) (d : Offset) :
    ∃ ts, (l.amid ⟨d, ['\n'], []⟩).read? lead = some (l'.pastBreak d ts) ∧
      ts.map Token.blank = l'.tokens.map Token.blank := by
  by_cases hplain : lead = .plain
  · subst hplain
    obtain ⟨l₁, hsave, h₁⟩ := Option.bind_eq_some_iff.1 h
    obtain ⟨s, hread, h₂⟩ := Option.bind_eq_some_iff.1 h₁
    cases h₂
    have hcursor := cursor_saveKey? hsave
    rw [hcursor] at hread
    obtain ⟨-, ⟨hrest, -⟩ | ⟨-, hbroke, -, acc, gap, -, htext, hmoved⟩⟩ :=
      plainFrom_through hread hl.ended (fun h => absurd h hne) d ['\n']
    · exact absurd hnil hrest
    refine ⟨.scalar s.text true :: l₁.tokens, ?_, rfl⟩
    rw [plainFrom_break, ← htext] at hmoved
    rw [read?, saveKey?_amid, hsave, Option.map_some, Option.bind_eq_bind, Option.bind_some,
      inFlow_amid, blocks_amid, cursor_amid, hcursor]
    refine Option.bind_eq_some_iff.2 ⟨_, hmoved, ?_⟩
    simp only [pastBreak, hbroke]
    rfl
  have hnext : l.cursor.next.rest ≠ [] := next_rest_ne_nil hlead hl.ended hne hplain
  by_cases hblock : ∃ folded, lead = .block folded
  · obtain ⟨folded, rfl⟩ := hblock
    obtain ⟨l₁, hforget, h₁⟩ := Option.bind_eq_some_iff.1 h
    obtain ⟨⟨text, c⟩, hread, h₂⟩ := Option.bind_eq_some_iff.1 h₁
    cases h₂
    have hcursor := cursor_forgetKey? hforget
    rw [hcursor] at hread
    obtain ⟨text', hmoved⟩ := blockScalar?_break (d := d) hread (Cursor.ended_next hl.ended) hnext
      (Cursor.next_amid hne) hnil
    refine ⟨.scalar text' false :: l₁.tokens, ?_, rfl⟩
    rw [read?, forgetKey?_amid, hforget, Option.map_some, Option.bind_eq_bind, Option.bind_some,
      blocks_amid, cursor_amid, hcursor, hmoved]
    rfl
  -- Every other token ends in front of the break that ends the text.
  have hrest : l'.cursor.rest ≠ [] := by
    have hkind := isLocal_of_head h hlocal
    by_cases hsign : lead.isSign = true
    · rw [(read?_sign_amid (m := ⟨d, [], []⟩) hsign hne h).2]
      exact hnext
    cases lead with
    | finish => cases h
    | tag => exact (read?_tag_amid (m := ⟨d, [], []⟩) hl hnext h).2.2
    | quoted double => exact (read?_quoted_amid (m := ⟨d, [], []⟩) hl hne h).2.2
    | plain => exact absurd rfl hplain
    | block folded => exact absurd ⟨folded, rfl⟩ hblock
    | directive | documentMark _ | «alias» | anchor => cases hkind
    | openFlow _ | closeFlow _ | comma | item | key | value => exact absurd rfl hsign
  exact absurd hnil hrest

theorem step?_break (hl : l.InText) (h : l.step? = some (.inl l'))
    (hlocal : ∀ t ∈ l'.tokens.head?, t.isLocal = true) (hnil : l'.cursor.rest = []) (d : Offset) :
    ∃ ts, (l.amid ⟨d, ['\n'], []⟩).step? = some (.inl (l'.pastBreak d ts)) ∧
      ts.map Token.blank = l'.tokens.map Token.blank := by
  rw [step?_eq] at h
  obtain ⟨r, hready, h₁⟩ := Option.bind_eq_some_iff.1 h
  obtain ⟨lead, hlead, h₂⟩ := Option.bind_eq_some_iff.1 h₁
  split at h₂
  · obtain ⟨ts, -, heq⟩ := Option.map_eq_some_iff.1 h₂
    cases heq
  rename_i hfinish
  obtain ⟨l₁, hread, heq⟩ := Option.map_eq_some_iff.1 h₂
  cases heq
  have hne : r.cursor.rest ≠ [] := by
    intro hnil
    rw [hnil] at hlead
    cases hlead
    exact hfinish rfl
  obtain ⟨hmoved, htext⟩ := readied?_amid (m := ⟨d, ['\n'], []⟩) hl hready hne
  obtain ⟨ts, hread', hkinds⟩ := read?_break htext hne hlead hread hlocal hnil d
  refine ⟨ts, ?_, hkinds⟩
  rw [step?_eq, hmoved, Option.bind_some, inFlow_amid, cursor_amid, Cursor.column_amid,
    Cursor.rest_amid, lead?_append _ _ htext.ended hne, hlead, Option.bind_some, if_neg hfinish,
    hread']
  rfl

theorem toToken_break (hl : l.InText) (hflow : l.inFlow = false)
    (hnil : (l.toToken (l.cursor.rest.length + 1)).cursor.rest = []) (d : Offset) :
    (l.amid ⟨d, ['\n'], []⟩).toToken ((l.amid ⟨d, ['\n'], []⟩).cursor.rest.length + 1) =
      (l.toToken (l.cursor.rest.length + 1)).pastBreak d l.tokens := by
  obtain ⟨htext, -, hthrough⟩ := toToken_amid (m := ⟨d, ['\n'], []⟩)
    (k := (l.amid ⟨d, ['\n'], []⟩).cursor.rest.length + 1) hl
    (Nat.lt_succ_self l.cursor.rest.length) (by simp)
  rw [hthrough hnil]
  obtain ⟨c, a, htoken⟩ := toToken_changes (l := l) (l.cursor.rest.length + 1)
  rw [htoken] at htext hnil ⊢
  have hkey : a = true := htext.keyAllowed hnil hflow
  have hrest : (Lexer.amid { l with cursor := c, keyAllowed := a } ⟨d, ['\n'], []⟩).cursor.rest =
      [] ++ '\n' :: [] := congrArg (· ++ ['\n']) hnil
  have hline := lineCursor_margin (by simp) (by simp) hrest hkey (by rw [inFlow_amid]; exact hflow)
  rw [toToken_succ, hline, if_pos (by simp [isBreak_newline]), toToken_of_nil rfl, hkey]
  rfl

end Lexer

namespace Piece

open Lexer

/-- With an empty line behind it a piece is a piece again. -/
theorem padded (p : Piece) :
    ∃ q : Piece, q.margin = p.margin ∧ q.word = p.word ∧ q.rest = p.rest ++ ['\n'] ∧
      q.steps = p.steps ∧ q.tokens.map Token.blank = p.tokens.map Token.blank := by
  have hspaced : atWordEnd (p.rest ++ ['\n']) = true := by
    rw [atWordEnd_append p.nonempty]
    exact p.spaced
  have hended : Ended (p.rest ++ ['\n']) := Ended.newline.append (List.cons_ne_nil _ _)
  obtain ⟨hnil, hflow, hidle, inner, hblocks, hinner, htokens⟩ :=
    ends_of_step? p.ends p.inText_last p.isOuter_last p.isOpen_last
  -- It is enough to find where the steps lead.
  suffices h : ∃ (l : Lexer) (ts : List Token),
      Steps p.steps (behindMargin p.margin p.word (p.rest ++ ['\n'])) l ∧
      l.step? = some (.inr
        ((List.replicate inner.length Token.blockEnd ++ ts).reverse ++ [.blockEnd])) ∧
      ts.map Token.blank = p.last.tokens.map Token.blank by
    obtain ⟨l, ts, hreads, hends, hkinds⟩ := h
    exact ⟨⟨p.margin, p.word, p.rest ++ ['\n'], _, p.steps, l, p.isMargin, p.isWord, hspaced,
      by simp, hended, hreads, hends⟩, rfl, rfl, rfl, rfl, by simp [htokens, hkinds]⟩
  rw [behindMargin_through]
  by_cases hrest : p.last.cursor.rest = []
  · have hreads := p.reads
    generalize p.steps = n at hreads ⊢
    cases n with
    | zero =>
      rw [hreads.of_zero] at hrest
      exact absurd hrest (by simpa [behindMargin, behindKey] using p.nonempty)
    | succ n =>
      obtain ⟨l₁, hsteps, hstep, hlocal⟩ := hreads.last
      obtain ⟨hmoved, htext⟩ := hsteps.amid (m := ⟨⟨0, 0⟩, ['\n'], []⟩) p.inText_first (.inr rfl)
        fun h => absurd h (step?_inl_rest hstep)
      obtain ⟨ts, hlast, hkinds⟩ := step?_break htext hstep hlocal hrest ⟨0, 0⟩
      exact ⟨p.last.pastBreak ⟨0, 0⟩ ts, ts,
        hmoved.trans (.head hlast (Token.isLocal_head hkinds hlocal) (.refl _)),
        step?_pastBreak (toToken_of_nil rfl _) hflow hidle hblocks hinner, hkinds⟩
  · obtain ⟨hmoved, -⟩ := p.reads.amid (m := ⟨⟨0, 0⟩, ['\n'], []⟩) p.inText_first (.inr rfl)
      fun h => absurd h hrest
    refine ⟨_, p.last.tokens, hmoved, ?_, rfl⟩
    have htoken := toToken_break p.inText_last hflow hnil ⟨0, 0⟩
    obtain ⟨c, a, hchange⟩ := toToken_changes (l := p.last) (p.last.cursor.rest.length + 1)
    rw [hchange] at htoken
    exact step?_pastBreak htoken hflow hidle hblocks hinner

theorem behind (p : Piece) {margin : List Char} (hm : Margin margin) :
    ∃ q : Piece, q.margin = margin ++ p.margin ∧ q.word = p.word ∧ q.rest = p.rest ∧
      q.steps = p.steps ∧ q.tokens = p.tokens := by
  have hmargin : Margin (margin ++ p.margin) := by
    induction hm with
    | nil => exact p.isMargin
    | line hnote hline _ ih =>
      rw [List.append_assoc]
      exact .line hnote hline ih
  have hfirst : behindMargin (margin ++ p.margin) p.word p.rest =
      (behindMargin p.margin p.word p.rest).amid ⟨.of margin, [], []⟩ := by
    unfold behindMargin
    rw [amid_amid]
    simp [Offset.of, Nat.add_comm]
  obtain ⟨hmoved, -⟩ := p.reads.amid (m := ⟨.of margin, [], []⟩) p.inText_first (.inl Solid.nil)
    fun _ => ⟨Solid.nil, fun hafter => absurd rfl hafter⟩
  exact ⟨⟨margin ++ p.margin, p.word, p.rest, p.tokens, p.steps, p.last.amid ⟨.of margin, [], []⟩,
    hmargin, p.isWord, p.spaced, p.nonempty, p.ended, by rw [hfirst]; exact hmoved,
    step?_inr_amid p.ends p.inText_last rfl⟩, rfl, rfl, rfl, rfl, rfl⟩

end Piece

end Scaffold.Yaml
