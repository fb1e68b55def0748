import Scaffold.Proofs.Yaml.Cursor

/-!
# Scalars in a longer document

A scalar that ends in front of a text's end is the same in a longer document. One that goes on to
the end of the text is the same too, if what comes behind it begins at once (`Solid`): the first
column is too far out for any scalar but one between quotes.
-/

namespace Scaffold.Yaml

variable {d : Offset} {after : List Char}

/-! ## Plain scalars -/

theorem isBroken_push {c : Char} (hc : isBreak c = true) (gap : Gap) :
    (gap.push c).isBroken = true := by
  cases gap <;> simp [Gap.push, hc, Gap.isBroken]

/-- A plain scalar stops at a character, fails there or takes it, whatever comes behind the text. -/
theorem plainFrom_cons_append {inFlow : Bool} {indentation : Nat} {acc : List Char} {gap : Gap}
    {c : Char} {s : List Char} {pos : Position} (hblank : ¬(isWhite c || isBreak c) = true)
    (he : Ended (c :: s)) (d : Offset) (after : List Char) :
    (plainFrom inFlow indentation acc gap (c :: s) pos =
        some ⟨String.ofList acc.reverse, ⟨c :: s, pos⟩, gap.isBroken⟩ ∧
      plainFrom inFlow indentation acc gap (c :: (s ++ after)) (pos.moved d) =
        some ⟨String.ofList acc.reverse, ⟨c :: (s ++ after), pos.moved d⟩, gap.isBroken⟩) ∨
      plainFrom inFlow indentation acc gap (c :: s) pos = none ∨
      (plainFrom inFlow indentation acc gap (c :: s) pos =
          plainFrom inFlow indentation (c :: gap.folded ++ acc) .none s (pos.after c) ∧
        plainFrom inFlow indentation acc gap (c :: (s ++ after)) (pos.moved d) =
          plainFrom inFlow indentation (c :: gap.folded ++ acc) .none (s ++ after)
            ((pos.after c).moved d)) := by
  have hs : s ≠ [] := he.ne_nil (by simp at hblank; exact hblank.2)
  have hmark : documentMark? (c :: (s ++ after)) = documentMark? (c :: s) :=
    documentMark?_append he (List.cons_ne_nil c s) after
  rw [plainFrom, plainFrom, if_neg hblank, if_neg hblank, Position.column_moved, hmark,
    head?_append hs, atWordEnd_append hs, Position.after_moved]
  -- The two sides make the same tests from here on.
  split
  · exact .inl ⟨rfl, rfl⟩
  split
  · exact .inl ⟨rfl, rfl⟩
  split
  · exact .inl ⟨rfl, rfl⟩
  split
  · exact .inr (.inl rfl)
  split
  · exact .inl ⟨rfl, rfl⟩
  split
  · exact .inl ⟨rfl, rfl⟩
  · exact .inr (.inr ⟨rfl, rfl⟩)

/-- A plain scalar stops in front of the end of the text, or it goes on into what is behind. -/
theorem plainFrom_through {inFlow : Bool} {indentation : Nat} {acc : List Char} {gap : Gap}
    {s : List Char} {pos : Position} {r : PlainScalar}
    (h : plainFrom inFlow indentation acc gap s pos = some r) (he : Ended s)
    (hend : s = [] → gap.isBroken = true ∧ pos.column = 0) (d : Offset) (after : List Char) :
    Ended r.behind.rest ∧
      ((r.behind.rest ≠ [] ∧ plainFrom inFlow indentation acc gap (s ++ after) (pos.moved d) =
          some ⟨r.text, r.behind.amid d after, r.brokeLine⟩) ∨
        (r.behind.rest = [] ∧ r.brokeLine = true ∧ r.behind.position.column = 0 ∧
          ∃ acc' gap', gap'.isBroken = true ∧ r.text = String.ofList acc'.reverse ∧
            plainFrom inFlow indentation acc gap (s ++ after) (pos.moved d) =
              plainFrom inFlow indentation acc' gap' after (r.behind.position.moved d))) := by
  induction s generalizing acc gap pos with
  | nil =>
    obtain ⟨hbroken, hcolumn⟩ := hend rfl
    rw [plainFrom] at h
    cases h
    exact ⟨he, .inr ⟨rfl, hbroken, hcolumn, acc, gap, hbroken, rfl, rfl⟩⟩
  | cons c s ih =>
    rw [List.cons_append]
    by_cases hblank : (isWhite c || isBreak c) = true
    · rw [plainFrom, if_pos hblank] at h
      rw [plainFrom, if_pos hblank, Position.column_moved, Position.after_moved]
      split at h
      · cases h
      rename_i htab
      rw [if_neg htab]
      refine ih h he.tail fun hnil => ?_
      subst hnil
      exact ⟨isBroken_push (he c rfl) gap, Position.column_after (he c rfl) pos⟩
    · obtain ⟨hstop, hstop'⟩ | hfail | ⟨htake, htake'⟩ := plainFrom_cons_append hblank he d after
      · rw [hstop] at h
        cases h
        exact ⟨he, .inl ⟨List.cons_ne_nil c s, hstop'⟩⟩
      · rw [hfail] at h
        cases h
      · rw [htake] at h
        rw [htake']
        have hs : s ≠ [] := he.ne_nil (by simp at hblank; exact hblank.2)
        exact ih h he.tail fun hnil => absurd hnil hs

/-- What begins at once in the first column belongs to no plain scalar in front of it. -/
theorem plainFrom_solid {indentation : Nat} {acc : List Char} {gap : Gap} {pos : Position}
    (hafter : Solid after) (hpos : 0 < indentation) (hgap : gap.isBroken = true)
    (hcolumn : pos.column = 0) :
    plainFrom false indentation acc gap after pos =
      some ⟨String.ofList acc.reverse, ⟨after, pos⟩, true⟩ := by
  cases after with
  | nil => rw [plainFrom, hgap]
  | cons c after =>
    obtain ⟨hwhite, hbreak⟩ := hafter c rfl
    rw [plainFrom]
    simp [hwhite, hbreak, hgap, hcolumn, hpos]

theorem plainFrom_break {inFlow : Bool} {indentation : Nat} {acc : List Char} {gap : Gap}
    {pos : Position} :
    plainFrom inFlow indentation acc gap ['\n'] pos =
      some ⟨String.ofList acc.reverse, ⟨[], pos.after '\n'⟩, true⟩ := by
  rw [plainFrom]
  simp [isBreak_newline, plainFrom, isBroken_push]

theorem plainFrom_amid (d : Offset) (after : List Char) {inFlow : Bool} {indentation : Nat}
    {acc : List Char} {gap : Gap} {s : List Char} {pos : Position} {r : PlainScalar}
    (h : plainFrom inFlow indentation acc gap s pos = some r) (he : Ended s)
    (hend : s = [] → gap.isBroken = true ∧ pos.column = 0)
    (hafter : r.behind.rest = [] → Solid after ∧ (after ≠ [] → inFlow = false ∧ 0 < indentation)) :
    plainFrom inFlow indentation acc gap (s ++ after) (pos.moved d) =
        some ⟨r.text, r.behind.amid d after, r.brokeLine⟩ ∧
      Ended r.behind.rest ∧
      (r.behind.rest = [] → r.brokeLine = true ∧ r.behind.position.column = 0) := by
  obtain ⟨he', ⟨hne, heq⟩ | ⟨hnil, hbroke, hcolumn, acc', gap', hgap, htext, heq⟩⟩ :=
    plainFrom_through h he hend d after
  · exact ⟨heq, he', fun hnil => absurd hnil hne⟩
  · refine ⟨?_, he', fun _ => ⟨hbroke, hcolumn⟩⟩
    obtain ⟨hsolid, hout⟩ := hafter hnil
    have hcursor : r.behind.amid d after = ⟨after, r.behind.position.moved d⟩ := by
      rw [Cursor.amid, hnil, List.nil_append]
    rw [heq, hbroke, htext, hcursor]
    by_cases hempty : after = []
    · subst hempty
      rw [plainFrom, hgap]
    · obtain ⟨rfl, hpos⟩ := hout hempty
      exact plainFrom_solid hsolid hpos hgap hcolumn

/-! ## Quoted scalars -/

theorem take_append_of_length {n : Nat} {digits : List Char} (h : (digits.take n).length = n) :
    (digits ++ after).take n = digits.take n := by
  rw [List.length_take] at h
  exact List.take_append_of_le_length (by omega)

/-- A quoted scalar ends at a character, fails there or takes it, whatever comes behind the
text. -/
theorem quotedFrom_cons_append {double : Bool} {acc : List Char} {gap : Gap} {c : Char}
    {s : List Char} {pos : Position} (he : Ended (c :: s)) (d : Offset) (after : List Char) :
    (s ≠ [] ∧ ∃ text,
        quotedFrom double 0 acc gap (c :: s) pos = some (text, ⟨s, pos.after c⟩) ∧
        quotedFrom double 0 acc gap (c :: (s ++ after)) (pos.moved d) =
          some (text, ⟨s ++ after, (pos.after c).moved d⟩)) ∨
      quotedFrom double 0 acc gap (c :: s) pos = none ∨
      ∃ skip acc' gap',
        quotedFrom double 0 acc gap (c :: s) pos =
          quotedFrom double skip acc' gap' s (pos.after c) ∧
        quotedFrom double 0 acc gap (c :: (s ++ after)) (pos.moved d) =
          quotedFrom double skip acc' gap' (s ++ after) ((pos.after c).moved d) := by
  rw [quotedFrom, quotedFrom]
  simp only [Position.after_moved, Position.column_moved]
  generalize (if double = true then '"' else '\'') = quote
  split
  · exact .inr (.inr ⟨_, _, _, rfl, rfl⟩)
  rename_i hblank
  have hs : s ≠ [] := he.ne_nil (by simp at hblank; exact hblank.2)
  have hmark : documentMark? (c :: (s ++ after)) = documentMark? (c :: s) :=
    documentMark?_append he (List.cons_ne_nil c s) after
  rw [hmark, head?_append hs]
  split
  · exact .inr (.inl rfl)
  split
  · split
    · exact .inr (.inr ⟨_, _, _, rfl, rfl⟩)
    · exact .inl ⟨hs, _, rfl, rfl⟩
  split
  · obtain ⟨x, digits, rfl⟩ := List.exists_cons_of_ne_nil hs
    dsimp only [List.cons_append]
    split
    · exact .inr (.inr ⟨_, _, _, rfl, rfl⟩)
    split
    · exact .inr (.inr ⟨_, _, _, rfl, rfl⟩)
    · rename_i n hletter hdigits
      by_cases hlength : (digits.take n).length = n
      · rw [take_append_of_length hlength]
        simp only [if_pos hlength]
        split
        · exact .inr (.inr ⟨_, _, _, rfl, rfl⟩)
        · exact .inr (.inl rfl)
      · simp only [if_neg hlength]
        split <;> exact .inr (.inl rfl)
    · exact .inr (.inl rfl)
  · exact .inr (.inr ⟨_, _, _, rfl, rfl⟩)

theorem quotedFrom_amid {double : Bool} {skip : Nat} {acc : List Char} {gap : Gap} {s : List Char}
    {pos : Position} {text : String} {c' : Cursor}
    (h : quotedFrom double skip acc gap s pos = some (text, c')) (he : Ended s) :
    quotedFrom double skip acc gap (s ++ after) (pos.moved d) = some (text, c'.amid d after) ∧
      Ended c'.rest ∧ c'.rest ≠ [] := by
  induction s generalizing skip acc gap pos with
  | nil => cases skip <;> cases h
  | cons c s ih =>
    rw [List.cons_append]
    cases skip with
    | succ skip =>
      rw [quotedFrom] at h
      rw [quotedFrom, Position.after_moved]
      exact ih h he.tail
    | zero =>
      obtain ⟨hs, text', hends, hends'⟩ | hfail | ⟨skip, acc', gap', htake, htake'⟩ :=
        quotedFrom_cons_append he d after
      · rw [hends] at h
        cases h
        exact ⟨hends', he.tail, hs⟩
      · rw [hfail] at h
        cases h
      · rw [htake] at h
        rw [htake']
        exact ih h he.tail

theorem quotedScalar?_amid (d : Offset) (after : List Char) {double : Bool} {c c' : Cursor}
    {text : String}
    (h : quotedScalar? double c = some (text, c')) (he : Ended c.rest) (hc : c.rest ≠ []) :
    quotedScalar? double (c.amid d after) = some (text, c'.amid d after) ∧
      Ended c'.rest ∧ c'.rest ≠ [] := by
  unfold quotedScalar? at h ⊢
  rw [Cursor.next_amid hc]
  exact quotedFrom_amid h (Cursor.ended_next he)

/-! ## Block scalars -/

theorem blockHeader_append {s : List Char} (he : Ended s) (hs : s ≠ []) :
    blockHeader (s ++ after) = blockHeader s := by
  cases s with
  | nil => exact absurd rfl hs
  | cons c s =>
    by_cases hnil : s = []
    · subst hnil
      rcases break_cases (he c rfl) with rfl | rfl | rfl <;> rfl
    · rw [List.cons_append, blockHeader, blockHeader, head?_append hnil]

theorem blockHeader_indent {s : List Char} {n : Nat} (h : (blockHeader s).2.1 = some n) :
    0 < n := by
  have hdigit : ∀ c m, indentDigit? c = some m → 0 < m := by
    intro c m hm
    unfold indentDigit? at hm
    split at hm
    · rename_i hc
      cases hm
      have : '1'.toNat ≤ c.toNat := hc.1
      have h1 : '1'.toNat = 0x31 := rfl
      omega
    · cases hm
  unfold blockHeader at h
  split at h
  · cases h
  split at h
  · split at h
    · rename_i m hm
      cases h
      obtain ⟨c, -, hc⟩ := Option.bind_eq_some_iff.1 hm
      exact hdigit c n hc
    · cases h
  · rename_i hm
    split at h <;> cases h <;> exact hdigit _ _ hm
  · cases h

theorem isBreak_of_ofChar? {c : Char} {k : Chomping} (h : Chomping.ofChar? c = some k) :
    isBreak c = false := by
  by_contra hc
  rw [Bool.not_eq_false] at hc
  rcases break_cases hc with rfl | rfl | rfl <;> cases h

theorem isBreak_of_indentDigit? {c : Char} {n : Nat} (h : indentDigit? c = some n) :
    isBreak c = false := by
  by_contra hc
  rw [Bool.not_eq_false] at hc
  rcases break_cases hc with rfl | rfl | rfl <;> cases h

theorem blockHeader_length {s : List Char} (he : Ended s) (hs : s ≠ []) :
    (blockHeader s).2.2 < s.length := by
  have hlast : ∀ {c : Char} {t : List Char}, isBreak c = false → Ended (c :: t) →
      1 < (c :: t).length := by
    intro c t hc ht
    have := List.length_pos_iff.2 (ht.ne_nil hc)
    simpa using this
  match s, hs with
  | c :: s, _ =>
    rw [blockHeader]
    split
    · rename_i k hk
      split
      · rename_i n hn
        obtain ⟨x, hx, hdigit⟩ := Option.bind_eq_some_iff.1 hn
        cases s with
        | nil => cases hx
        | cons y s =>
          cases hx
          have := hlast (isBreak_of_indentDigit? hdigit) he.tail
          simpa using this
      · exact hlast (isBreak_of_ofChar? hk) he
    · rename_i n hk hn
      split
      · rename_i k hk
        obtain ⟨x, hx, hchar⟩ := Option.bind_eq_some_iff.1 hk
        cases s with
        | nil => cases hx
        | cons y s =>
          cases hx
          have := hlast (isBreak_of_ofChar? hchar) he.tail
          simpa using this
      · exact hlast (isBreak_of_indentDigit? hn) he
    · simp

/-- The indentation that is found does not depend on what comes behind, even if the text is blank
and it is found only there. -/
theorem deepestIndent?_append {s : List Char} {deepest column : Nat}
    (hafter : Solid after ∨ after = ['\n']) :
    deepestIndent? deepest (s ++ after) column = deepestIndent? deepest s column := by
  induction s generalizing deepest column with
  | nil =>
    rcases hafter with hsolid | rfl
    · cases after with
      | nil => rfl
      | cons c after =>
        obtain ⟨hwhite, hbreak⟩ := hsolid c rfl
        rw [isWhite, Bool.or_eq_false_iff] at hwhite
        simp [deepestIndent?, hwhite, hbreak]
    · simp [deepestIndent?, isBreak_newline]
  | cons c s ih => simp only [List.cons_append, deepestIndent?, ih]

/-- A block scalar stops in front of the end of the text, or it goes on into what is behind. -/
theorem blockFrom_through {folded : Bool} {indentation : Nat} {inLine : Bool} {b b' : BlockScalar}
    {s : List Char} {pos : Position} {c' : Cursor}
    (h : blockFrom folded indentation inLine b s pos = some (b', c')) (he : Ended s)
    (hend : s = [] → inLine = false ∧ pos.column = 0) (d : Offset) (after : List Char) :
    Ended c'.rest ∧
      ((c'.rest ≠ [] ∧ blockFrom folded indentation inLine b (s ++ after) (pos.moved d) =
          some (b', c'.amid d after)) ∨
        (c'.rest = [] ∧ c'.position.column = 0 ∧
          blockFrom folded indentation inLine b (s ++ after) (pos.moved d) =
            blockFrom folded indentation false b' after (c'.position.moved d))) := by
  induction s generalizing inLine b pos with
  | nil =>
    obtain ⟨rfl, hcolumn⟩ := hend rfl
    rw [blockFrom] at h
    cases h
    exact ⟨he, .inr ⟨rfl, hcolumn, rfl⟩⟩
  | cons c s ih =>
    rw [List.cons_append]
    by_cases hbreak : isBreak c = true
    · have hnext : s = [] → false = false ∧ (pos.after c).column = 0 :=
        fun _ => ⟨rfl, Position.column_after hbreak pos⟩
      cases inLine with
      | true =>
        rw [blockFrom, if_pos hbreak] at h
        rw [blockFrom, if_pos hbreak, Position.after_moved]
        exact ih h he.tail hnext
      | false =>
        rw [blockFrom, if_pos hbreak] at h
        rw [blockFrom, if_pos hbreak, Position.after_moved]
        exact ih h he.tail hnext
    have hs : s ≠ [] := he.ne_nil (by simpa using hbreak)
    cases inLine with
    | true =>
      rw [blockFrom, if_neg hbreak] at h
      rw [blockFrom, if_neg hbreak, Position.after_moved]
      exact ih h he.tail fun hnil => absurd hnil hs
    | false =>
      rw [blockFrom, if_neg hbreak] at h
      rw [blockFrom, if_neg hbreak, Position.after_moved, Position.column_moved]
      revert h
      split
      · split
        · exact fun h => ih h he.tail fun hnil => absurd hnil hs
        · split
          · nofun
          · intro h
            cases h
            exact ⟨he, .inl ⟨List.cons_ne_nil c s, rfl⟩⟩
      · exact fun h => ih h he.tail fun hnil => absurd hnil hs

theorem blockFrom_solid {folded : Bool} {indentation : Nat} {b : BlockScalar} {pos : Position}
    (hafter : Solid after) (hpos : 0 < indentation) (hcolumn : pos.column = 0) :
    blockFrom folded indentation false b after pos = some (b, ⟨after, pos⟩) := by
  cases after with
  | nil => rw [blockFrom]
  | cons c after =>
    obtain ⟨hwhite, hbreak⟩ := hafter c rfl
    rw [isWhite, Bool.or_eq_false_iff] at hwhite
    rw [blockFrom]
    simp [hwhite, hbreak, hcolumn, hpos]

theorem blockFrom_break {folded : Bool} {indentation : Nat} {b : BlockScalar} {pos : Position} :
    blockFrom folded indentation false b ['\n'] pos =
      some ({ b with emptyLines := '\n' :: b.emptyLines }, ⟨[], pos.after '\n'⟩) := by
  rw [blockFrom, if_pos isBreak_newline, blockFrom]

/-- How a block scalar with the cursor behind it is read in a longer document: as it was, if it
stopped in front of the text's end, and else with the lines that come behind. -/
def ReadsOn (folded : Bool) (text : String) (behind : Cursor) (d : Offset) (after : List Char)
    (read : Option (String × Cursor)) : Prop :=
  Ended behind.rest ∧
    ((behind.rest ≠ [] ∧ read = some (text, behind.amid d after)) ∨
      (behind.rest = [] ∧ behind.position.column = 0 ∧ ∃ indentation b chomping,
        0 < indentation ∧ text = BlockScalar.finish b chomping ∧
        read = (blockFrom folded indentation false b after (behind.position.moved d)).map
          fun r => (r.1.finish chomping, r.2)))

theorem readsOn_lines {folded : Bool} {indentation : Nat} {chomping : Chomping} {body c' : Cursor}
    {text : String}
    (h : ((blockFrom folded indentation false .empty body.rest body.position).bind fun r =>
      (pure (r.1.finish chomping, r.2) : Option (String × Cursor))) = some (text, c'))
    (hpos : 0 < indentation) (he : Ended body.rest)
    (hcolumn : body.rest = [] → body.position.column = 0) (d : Offset) (after : List Char) :
    ReadsOn folded text c' d after
      ((blockFrom folded indentation false .empty (body.rest ++ after)
        (body.position.moved d)).bind fun r => pure (r.1.finish chomping, r.2)) := by
  obtain ⟨⟨b, behind⟩, hb, heq⟩ := Option.bind_eq_some_iff.1 h
  cases heq
  obtain ⟨he', ⟨hne, hmoved⟩ | ⟨hnil, hfirst, hmoved⟩⟩ :=
    blockFrom_through hb he (fun hnil => ⟨rfl, hcolumn hnil⟩) d after
  · exact ⟨he', .inl ⟨hne, Option.bind_eq_some_iff.2 ⟨_, hmoved, rfl⟩⟩⟩
  · refine ⟨he', .inr ⟨hnil, hfirst, indentation, b, chomping, hpos, rfl, ?_⟩⟩
    rw [hmoved, Option.map_eq_bind]
    rfl

theorem blockScalar?_through {folded : Bool} {outer : Option Nat} {c c' : Cursor} {text : String}
    (h : blockScalar? folded outer c = some (text, c')) (he : Ended c.next.rest)
    (hc : c.next.rest ≠ []) (hnext : (c.amid d after).next = c.next.amid d after)
    (hany : Solid after ∨ after = ['\n']) :
    ReadsOn folded text c' d after (blockScalar? folded outer (c.amid d after)) := by
  unfold blockScalar? at h ⊢
  have hlength := blockHeader_length he hc
  have hindent := @blockHeader_indent c.next.rest
  rw [hnext, Cursor.rest_amid, blockHeader_append he hc]
  generalize blockHeader c.next.rest = header at h hlength hindent ⊢
  obtain ⟨chomping, increment, length⟩ := header
  dsimp only at h hlength hindent ⊢
  rw [Cursor.skip_amid (by omega)]
  obtain ⟨body, hbody, h₁⟩ := Option.bind_eq_some_iff.1 h
  have hrest : (c.next.skip length).rest ≠ [] := by
    rw [Cursor.rest_skip]
    exact fun hnil => by have := List.drop_eq_nil_iff.1 hnil; omega
  have hended : Ended (c.next.skip length).rest := by
    rw [Cursor.rest_skip]
    exact he.drop length
  obtain ⟨hline, hended', hcolumn⟩ := Cursor.restOfLine?_amid d after hended hrest hbody
  rw [hline]
  simp only [Option.bind_eq_bind, Option.bind_some, Cursor.rest_amid, Cursor.position_amid] at h₁ ⊢
  cases increment with
  | some n =>
    have hpos := hindent (n := n) rfl
    exact readsOn_lines h₁ (by omega) hended' hcolumn d after
  | none =>
    simp only [deepestIndent?_append hany] at h₁ ⊢
    obtain ⟨indentation, hdeep, h₂⟩ := Option.bind_eq_some_iff.1 h₁
    rw [hdeep]
    refine readsOn_lines h₂ ?_ hended' hcolumn d after
    obtain ⟨deepest, -, rfl⟩ := Option.map_eq_some_iff.1 hdeep
    cases outer <;> simp only <;> omega

theorem blockScalar?_amid {folded : Bool} {outer : Option Nat} {c c' : Cursor} {text : String}
    (h : blockScalar? folded outer c = some (text, c')) (he : Ended c.next.rest)
    (hc : c.next.rest ≠ []) (hnext : (c.amid d after).next = c.next.amid d after)
    (hany : Solid after ∨ after = ['\n']) (hafter : c'.rest = [] → Solid after) :
    blockScalar? folded outer (c.amid d after) = some (text, c'.amid d after) ∧
      Ended c'.rest ∧ (c'.rest = [] → c'.position.column = 0) := by
  obtain ⟨he', ⟨hne, heq⟩ | ⟨hnil, hcolumn, indentation, b, chomping, hpos, htext, heq⟩⟩ :=
    blockScalar?_through h he hc hnext hany
  · exact ⟨heq, he', fun hnil => absurd hnil hne⟩
  · refine ⟨?_, he', fun _ => hcolumn⟩
    have hcursor : c'.amid d after = ⟨after, c'.position.moved d⟩ := by
      rw [Cursor.amid, hnil, List.nil_append]
    have hfirst : (c'.position.moved d).column = 0 := hcolumn
    rw [heq, blockFrom_solid (hafter hnil) hpos hfirst, hcursor, htext]
    rfl

/-- A further break can only lengthen a block scalar. -/
theorem blockScalar?_break {folded : Bool} {outer : Option Nat} {c c' : Cursor} {text : String}
    (h : blockScalar? folded outer c = some (text, c')) (he : Ended c.next.rest)
    (hc : c.next.rest ≠ []) (hnext : (c.amid d ['\n']).next = c.next.amid d ['\n'])
    (hnil : c'.rest = []) :
    ∃ text', blockScalar? folded outer (c.amid d ['\n']) =
      some (text', ⟨[], (c'.position.moved d).after '\n'⟩) := by
  obtain ⟨-, ⟨hne, -⟩ | ⟨-, -, indentation, b, chomping, -, -, heq⟩⟩ :=
    blockScalar?_through h he hc hnext (.inr rfl)
  · exact absurd hnil hne
  · rw [heq, blockFrom_break]
    exact ⟨_, rfl⟩

end Scaffold.Yaml
