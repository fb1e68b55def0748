import Mathlib.Data.List.Chain
import Scaffold.Json.Dictionary
import Scaffold.Source.Declaration

/-!
# Objects that are read as sources

A text that holds a dictionary defines no function. A string of it is a literal of a source as well:
both end at the same quote, since an escape is passed over by either reader (`Body`). Between
strings stand marks and blanks alone, and no string stands directly behind another, where two quotes
and a third would open a longer literal. So there are no words in it (`Wordless`), and without a
word there is no definition.
-/

namespace Scaffold.Source

open Scaffold.Text (Dictionary)

/-! ## What stands in a string -/

/-- What may stand between two quotes: characters for themselves, and escapes, which a backslash
and the character behind it begin. -/
inductive Body : List Char → Prop where
  | nil : Body []
  | plain {c : Char} {b : List Char} : c ≠ '"' → c ≠ '\\' → c ≠ '\n' → Body b → Body (c :: b)
  | escape (c : Char) {b : List Char} : Body b → Body ('\\' :: c :: b)

namespace Body

variable {b b' : List Char}

theorem append (h : Body b) (h' : Body b') : Body (b ++ b') := by
  induction h with
  | nil => exact h'
  | plain hquote hslash hbreak _ ih => exact .plain hquote hslash hbreak ih
  | escape c _ ih => exact .escape c ih

theorem of_digits (h : ∀ c ∈ b, (Number.digitValue? c).isSome = true) : Body b := by
  induction b with
  | nil => exact .nil
  | cons c b ih =>
    have hc := h c List.mem_cons_self
    refine .plain ?_ ?_ ?_ (ih fun x hx => h x (List.mem_cons_of_mem _ hx))
    all_goals
      rintro rfl
      revert hc
      decide

/-- A literal that a quote opens goes on behind what stands in a string, and ends at the quote. -/
theorem lengthFrom? (h : Body b) (fresh : Bool) (rest : List Char) :
    Source.lengthFrom? 0 fresh [.text ['"'] false] (b ++ '"' :: rest) = some (b.length + 1) := by
  induction h generalizing fresh with
  | nil => simp [Source.lengthFrom?]
  | @plain c b hquote hslash hbreak _ ih =>
    have hprefix : ['"'].isPrefixOf (c :: (b ++ '"' :: rest)) = false := by
      simp [List.isPrefixOf, Ne.symm hquote]
    rw [List.cons_append, Source.lengthFrom?, if_neg hslash, hprefix]
    simp [hbreak, ih]
  | @escape c b _ ih =>
    simp [Source.lengthFrom?, ih]

end Body

theorem digits_of_readFrom? {base value n : Nat} {s : List Char}
    (h : Number.readFrom? base value s = some n) :
    ∀ c ∈ s, (Number.digitValue? c).isSome = true := by
  induction s generalizing value with
  | nil => exact nofun
  | cons c s ih =>
    rw [Number.readFrom?] at h
    cases hc : Number.digitValue? c with
    | none => rw [hc] at h; cases h
    | some d =>
      rw [hc] at h
      dsimp only at h
      split at h
      · exact List.forall_mem_cons.2 ⟨by rw [hc]; rfl, ih h⟩
      · cases h

theorem codeUnit?_eq_some {s : List Char} {unit : Nat} (h : Json.codeUnit? s = some unit) :
    ∃ digits, digits.length = 4 ∧ Body digits ∧ s = 'u' :: digits ++ s.drop 5 := by
  unfold Json.codeUnit? at h
  split at h
  · rename_i a b c d rest
    exact ⟨[a, b, c, d], rfl, .of_digits (digits_of_readFrom? h), rfl⟩
  · cases h

theorem escape?_eq_some {s : List Char} {x : Char} {n : Nat} (h : Json.escape? s = some (x, n)) :
    ∃ c b, n = b.length + 1 ∧ Body b ∧ s = c :: b ++ s.drop n := by
  unfold Json.escape? at h
  split at h
  · rename_i c hc
    cases h
    obtain ⟨d, hd, -⟩ := Option.bind_eq_some_iff.1 hc
    obtain ⟨rest, rfl⟩ := List.head?_eq_some_iff.1 hd
    exact ⟨d, [], rfl, .nil, rfl⟩
  · rename_i unit _ hunit
    obtain ⟨digits, hlength, hdigits, hs⟩ := codeUnit?_eq_some hunit
    split at h
    · cases h
      exact ⟨'u', digits, by rw [hlength], hdigits, hs⟩
    split at h
    · cases h
    split at h
    · rename_i rest hrest
      split at h
      · rename_i low hlow
        split at h
        · obtain ⟨-, rfl⟩ := Prod.mk.inj (Option.some.inj h)
          obtain ⟨digits', hlength', hdigits', hrest'⟩ := codeUnit?_eq_some hlow
          refine ⟨'u', digits ++ '\\' :: 'u' :: digits', ?_, hdigits.append (.escape 'u' hdigits'),
            ?_⟩
          · simp [hlength, hlength']
          · have hdrop : s.drop 11 = rest.drop 5 := by
              rw [show 11 = 5 + 6 from rfl, ← List.drop_drop, hrest]
              rfl
            calc s = 'u' :: digits ++ s.drop 5 := hs
              _ = 'u' :: digits ++ '\\' :: ('u' :: digits' ++ rest.drop 5) := by
                rw [hrest, ← hrest']
              _ = _ := by
                rw [hdrop]
                simp
        · cases h
      · cases h
    · cases h
  · cases h

theorem body_of_tokensFrom {acc : List Char} {skip : Nat} {s : List Char} {ts : List Json.Token}
    (h : Json.tokensFrom (some acc) skip s = some ts) :
    skip ≤ s.length ∧ ∃ b x rest ts', Body b ∧ s.drop skip = b ++ '"' :: rest ∧
      ts = .text x :: ts' ∧ Json.tokensFrom none 0 rest = some ts' := by
  induction s generalizing acc skip ts with
  | nil => cases h
  | cons c s ih =>
    cases skip with
    | succ skip =>
      obtain ⟨hle, hbody⟩ := ih h
      exact ⟨Nat.succ_le_succ hle, hbody⟩
    | zero =>
      refine ⟨Nat.zero_le _, ?_⟩
      rw [Json.tokensFrom] at h
      split at h
      · rename_i hquote
        obtain ⟨ts', hts', rfl⟩ := Option.map_eq_some_iff.1 h
        exact ⟨[], _, s, ts', .nil, by rw [eq_of_beq hquote]; rfl, rfl, hts'⟩
      rename_i hquote
      split at h
      · rename_i hslash
        split at h
        · -- what is skipped of an escape is a character and more of the string
          rename_i x n hescape
          obtain ⟨-, b, y, rest, ts', hb, hdrop, hts, hrest⟩ := ih h
          obtain ⟨d, e, hn, he, hs⟩ := escape?_eq_some hescape
          refine ⟨'\\' :: d :: (e ++ b), y, rest, ts', .escape d (he.append hb), ?_, hts, hrest⟩
          rw [eq_of_beq hslash, List.drop_zero]
          rw [hdrop] at hs
          rw [hs]
          simp
        · cases h
      rename_i hslash
      split at h
      · cases h
      rename_i hcontrol
      obtain ⟨-, b, y, rest, ts', hb, hdrop, hts, hrest⟩ := ih h
      have hbreak : c ≠ '\n' := by
        rintro rfl
        exact hcontrol (by decide)
      refine ⟨c :: b, y, rest, ts', .plain (by simpa using hquote) (by simpa using hslash) hbreak hb,
        ?_, hts, hrest⟩
      rw [List.drop_zero] at hdrop ⊢
      rw [hdrop]
      rfl

/-! ## Texts without words -/

/-- No token of the text is a word. -/
def Wordless (s : List Char) : Prop :=
  ∀ t ∈ tokens s, t.kind ≠ .word

theorem tokens_of_gap {s : List Char} (h : s.drop (gapLength false s) = []) : tokens s = [] := by
  rw [tokens]
  split
  · rfl
  · rename_i c rest hrest
    rw [h] at hrest
    cases hrest

theorem tokens_of_token {s : List Char} {c : Char} {rest : List Char}
    (h : s.drop (gapLength false s) = c :: rest) :
    tokens s = ⟨s.take (gapLength false s), (extent c rest).1,
      String.ofList (c :: rest.take (extent c rest).2)⟩ :: tokens (rest.drop (extent c rest).2) := by
  rw [tokens]
  split
  · rename_i hrest
    rw [h] at hrest
    cases hrest
  · rename_i d rest' hrest
    rw [h] at hrest
    cases hrest
    rfl

namespace Wordless

variable {c : Char} {s : List Char}

theorem nil : Wordless [] := by
  have hnone : tokens [] = [] := tokens_of_gap rfl
  unfold Wordless
  rw [hnone]
  exact nofun

/-- A character between tokens changes no token but for the gap before it. -/
theorem gap (hc : c ≠ '#') (hbegins : beginsToken c = false) (h : Wordless s) :
    Wordless (c :: s) := by
  have hgap : gapLength false (c :: s) = gapLength false s + 1 := by
    rw [gapLength, if_neg hc, hbegins]
    rfl
  have hdrop : (c :: s).drop (gapLength false (c :: s)) = s.drop (gapLength false s) := by
    rw [hgap, List.drop_succ_cons]
  cases hs : s.drop (gapLength false s) with
  | nil =>
    unfold Wordless
    rw [tokens_of_gap (hdrop.trans hs)]
    exact nofun
  | cons d rest =>
    unfold Wordless at h ⊢
    rw [tokens_of_token hs] at h
    rw [tokens_of_token (hdrop.trans hs)]
    exact List.forall_mem_cons.2 (List.forall_mem_cons.1 h)

theorem token (hc : c ≠ '#') (hbegins : beginsToken c = true) {kind : TokenKind} {more : Nat}
    (hextent : extent c s = (kind, more)) (hkind : kind ≠ .word) (h : Wordless (s.drop more)) :
    Wordless (c :: s) := by
  have hgap : gapLength false (c :: s) = 0 := by
    rw [gapLength, if_neg hc, if_pos hbegins]
  have hdrop : (c :: s).drop (gapLength false (c :: s)) = c :: s := by
    rw [hgap, List.drop_zero]
  unfold Wordless
  rw [tokens_of_token hdrop, hextent]
  exact List.forall_mem_cons.2 ⟨hkind, h⟩

end Wordless

/-! ## Objects -/

/-- No string stands directly behind another. -/
def Apart (t u : Json.Token) : Prop :=
  ∀ x y, t = .text x → u ≠ .text y

theorem apart_of_membersOf? {ts : List Json.Token} {es : List (String × String)}
    (h : Json.membersOf? ts = some es) : ts.IsChain Apart := by
  fun_induction Json.membersOf? ts generalizing es with
  | case1 k v => simp [Apart]
  | case2 k v ts ih =>
    obtain ⟨es', hes', -⟩ := Option.map_eq_some_iff.1 h
    have hts : (Json.Token.comma :: ts).IsChain Apart :=
      List.isChain_cons.2 ⟨fun _ _ => nofun, ih hes'⟩
    simpa [Apart] using hts
  | case3 => cases h

theorem apart_of_objectOf? {ts : List Json.Token} {es : List (String × String)}
    (h : Json.objectOf? ts = some es) : ts.IsChain Apart := by
  unfold Json.objectOf? at h
  split at h
  · simp [Apart]
  · exact List.isChain_cons.2 ⟨fun _ _ => nofun, apart_of_membersOf? h⟩
  · cases h

/-- A string is one literal, unless two quotes are followed by a third. -/
theorem extent_string {b : List Char} (hb : Body b) {rest : List Char}
    (hrest : ∀ y, rest ≠ '"' :: y) :
    extent '"' (b ++ '"' :: rest) = (.literal, b.length + 1) := by
  have hlong : ['"', '"', '"'].isPrefixOf ('"' :: (b ++ '"' :: rest)) = false := by
    cases hb with
    | nil =>
      cases rest with
      | nil => rfl
      | cons c rest =>
        have hc : '"' ≠ c := fun h => hrest rest (h ▸ rfl)
        simp [List.isPrefixOf, hc]
    | plain hquote => simp [List.isPrefixOf, Ne.symm hquote]
    | escape => simp [List.isPrefixOf]
  have hquote : quoteAt? ('"' :: (b ++ '"' :: rest)) = some ['"'] := by
    unfold quoteAt? openingQuotes quotes
    rw [List.cons_append, List.find?_cons_of_neg (by simp [hlong])]
    simp [List.isPrefixOf]
  have hlength : literalLength? ('"' :: (b ++ '"' :: rest)) = some (b.length + 2) := by
    have hletters : ('"' :: (b ++ '"' :: rest)).takeWhile mayPrecedeQuotes = [] := by
      rw [List.takeWhile_cons_of_neg (by decide)]
    unfold literalLength?
    rw [hletters]
    simp [hquote, lengthFrom?, hb.lengthFrom?]
  unfold extent
  rw [hlength]
  rfl

theorem eq_of_punctuation? {c : Char} {t : Json.Token} (h : Json.punctuation? c = some t) :
    c = '\x7b' ∨ c = '\x7d' ∨ c = ':' ∨ c = ',' := by
  unfold Json.punctuation? at h
  split at h
  case h_5 => cases h
  all_goals decide

theorem find?_longMarks {c : Char} {t : Json.Token} (hc : Json.punctuation? c = some t)
    {s : List Char} (hs : ∀ y, s ≠ '=' :: y) :
    longMarks.find? (fun m => m.toList.isPrefixOf (c :: s)) = none := by
  have hall : ∀ m ∈ longMarks, m.toList ≠ [] ∧
      (m.toList.head? = some c → m.toList = [c, '=']) := by
    rcases eq_of_punctuation? hc with rfl | rfl | rfl | rfl <;> decide
  refine List.find?_eq_none.2 fun m hm hprefix => ?_
  obtain ⟨hne, hmark⟩ := hall m hm
  obtain ⟨rest, hrest⟩ := List.isPrefixOf_iff_prefix.1 hprefix
  obtain ⟨d, ds, hd⟩ := List.exists_cons_of_ne_nil hne
  rw [hd] at hrest
  obtain ⟨rfl, hrest⟩ := List.cons.inj hrest
  have hequals := hmark (by rw [hd]; rfl)
  rw [hd] at hequals
  obtain ⟨-, rfl⟩ := List.cons.inj hequals
  exact hs rest (List.cons.inj hrest).2.symm

theorem extent_punctuation {c : Char} {t : Json.Token} (hc : Json.punctuation? c = some t)
    {s : List Char} (hs : ∀ y, s ≠ '=' :: y) : extent c s = (.mark, 0) := by
  obtain ⟨hword, hletter, hquotes⟩ : beginsWord c = false ∧ mayPrecedeQuotes c = false ∧
      ∀ q ∈ openingQuotes, q ≠ [] ∧ q.head? ≠ some c := by
    rcases eq_of_punctuation? hc with rfl | rfl | rfl | rfl <;> decide
  have hquote : quoteAt? (c :: s) = none := by
    refine List.find?_eq_none.2 fun q hq hprefix => ?_
    obtain ⟨hne, hhead⟩ := hquotes q hq
    obtain ⟨rest, hrest⟩ := List.isPrefixOf_iff_prefix.1 hprefix
    obtain ⟨d, ds, rfl⟩ := List.exists_cons_of_ne_nil hne
    obtain ⟨rfl, -⟩ := List.cons.inj hrest
    exact hhead rfl
  have hlength : literalLength? (c :: s) = none := by
    unfold literalLength?
    rw [List.takeWhile_cons_of_neg (by simp [hletter])]
    simp [hquote]
  unfold extent
  rw [hlength, find?_longMarks hc hs, hword]
  rfl

/-- What is read as an object, as far as its strings are apart, is without words. -/
theorem wordless_of_tokensFrom {s : List Char} {ts : List Json.Token}
    (h : Json.tokensFrom none 0 s = some ts) (hapart : ts.IsChain Apart) : Wordless s := by
  -- a literal is left behind at once, so the induction is on the length
  generalize hn : s.length = n
  induction n using Nat.strong_induction_on generalizing s ts with
  | h n ih =>
    cases s with
    | nil => exact .nil
    | cons c s =>
      rw [Json.tokensFrom] at h
      split at h
      · rename_i hblank
        have hs : Wordless s := ih s.length (by simp [← hn]) h hapart rfl
        unfold Json.isBlank at hblank
        simp only [Bool.or_eq_true, beq_iff_eq] at hblank
        rcases hblank with ((rfl | rfl) | rfl) | rfl
        all_goals exact hs.gap (by decide) (by decide)
      split at h
      · rename_i hquote
        obtain rfl := eq_of_beq hquote
        obtain ⟨-, b, x, rest, ts', hb, hs, rfl, hrest⟩ := body_of_tokensFrom h
        rw [List.drop_zero] at hs
        subst hs
        obtain ⟨hnext, hapart⟩ := List.isChain_cons.1 hapart
        have hquotes : ∀ y, rest ≠ '"' :: y := by
          rintro y rfl
          rw [Json.tokensFrom, if_neg (by decide), if_pos (by decide)] at hrest
          obtain ⟨-, -, z, -, us, -, -, rfl, -⟩ := body_of_tokensFrom hrest
          exact hnext (.text z) rfl x z rfl rfl
        have hdrop : (b ++ '"' :: rest).drop (b.length + 1) = rest := by
          simp [List.drop_append]
        have hbehind : Wordless ((b ++ '"' :: rest).drop (b.length + 1)) := by
          rw [hdrop]
          exact ih rest.length (by simp [← hn]; omega) hrest hapart rfl
        exact .token (by decide) (by decide) (extent_string hb hquotes) nofun hbehind
      · split at h
        · rename_i t hc
          obtain ⟨ts', hts', rfl⟩ := Option.map_eq_some_iff.1 h
          have hequals : ∀ y, s ≠ '=' :: y := by
            rintro y rfl
            rw [Json.tokensFrom, if_neg (by decide), if_neg (by decide)] at hts'
            cases hts'
          have hbegins : c ≠ '#' ∧ beginsToken c = true := by
            rcases eq_of_punctuation? hc with rfl | rfl | rfl | rfl <;> decide
          have hs : Wordless (s.drop 0) :=
            ih s.length (by simp [← hn]) hts' (List.isChain_cons.1 hapart).2 rfl
          exact .token hbegins.1 hbegins.2 (extent_punctuation hc hequals) nofun hs
        · cases h

/-! ## Definitions -/

theorem linesFrom_subset (n : Nest) (previous : Token) (ts : List Token) :
    (linesFrom n previous ts).1 ⊆ ts ∧ ∀ l ∈ (linesFrom n previous ts).2, l.tokens ⊆ ts := by
  induction ts generalizing n previous with
  | nil => exact ⟨List.nil_subset _, nofun⟩
  | cons t ts ih =>
    rw [linesFrom]
    split
    · obtain ⟨hline, hmore⟩ := ih (Nest.after [] t) t
      refine ⟨List.nil_subset _, List.forall_mem_cons.2 ⟨List.cons_subset_cons t hline, ?_⟩⟩
      exact fun l hl => List.subset_cons_of_subset t (hmore l hl)
    · obtain ⟨hline, hmore⟩ := ih (n.after t) t
      exact ⟨List.cons_subset_cons t hline,
        fun l hl => List.subset_cons_of_subset t (hmore l hl)⟩

theorem lines_subset {ts : List Token} : ∀ l ∈ lines ts, l.tokens ⊆ ts := by
  cases ts with
  | nil => exact nofun
  | cons t ts =>
    obtain ⟨hline, hmore⟩ := linesFrom_subset (Nest.after [] t) t ts
    exact List.forall_mem_cons.2 ⟨List.cons_subset_cons t hline,
      fun l hl => List.subset_cons_of_subset t (hmore l hl)⟩

theorem Line.mem_of_mem_outermost {blocks : List Nat} {ls : List Line} {e : Line × Option Line}
    (h : e ∈ outermost blocks ls) : e.1 ∈ ls := by
  induction ls generalizing blocks with
  | nil => cases h
  | cons l ls ih =>
    have hcases : e.1 = l ∨ ∃ blocks, e ∈ outermost blocks ls := by
      unfold outermost at h
      dsimp only at h
      split at h
      · split at h
        · exact .inl (congrArg Prod.fst (List.mem_singleton.1 h))
        all_goals
          rcases List.mem_cons.1 h with rfl | h
          · exact .inl rfl
          · exact .inr ⟨_, h⟩
      · split at h
        · cases h
        all_goals exact .inr ⟨_, h⟩
    rcases hcases with heq | ⟨inner, h⟩
    · exact heq ▸ List.mem_cons_self
    · exact List.mem_cons_of_mem _ (ih h)

theorem Definition.ofLine?_of_wordless {l : Line} (h : ∀ t ∈ l.tokens, t.kind ≠ .word) :
    ofLine? l = none := by
  have hnone : ∀ ts : List Token, (∀ t ∈ ts, t.kind ≠ .word) → ofTokens? ts = none := by
    intro ts hts
    unfold ofTokens?
    split
    · rename_i t name ts
      have hname : name.isName = false := by
        have hkind := hts name (by simp)
        unfold Token.isName
        rw [beq_false_of_ne hkind]
        rfl
      rw [hname, if_neg (by simp)]
    · rfl
  unfold ofLine?
  split
  · rename_i t ts hl
    rw [hl] at h
    split
    · exact hnone ts (List.forall_mem_cons.1 h).2
    · exact hnone _ h
  · rfl

theorem Statement.eq_other_of_mem {decorators : List Decorator} {ls : List (Line × Option Line)}
    (h : ∀ e ∈ ls, Definition.ofLine? e.1 = none) : ∀ s ∈ ofLines decorators ls, s = .other := by
  induction ls generalizing decorators with
  | nil => exact nofun
  | cons e ls ih =>
    obtain ⟨l, block⟩ := e
    obtain ⟨hl, hls⟩ := List.forall_mem_cons.1 h
    rw [ofLines, hl]
    split
    · exact ih hls
    · rename_i hdefinition
      cases hdefinition
    · exact List.forall_mem_cons.2 ⟨rfl, ih hls⟩

/-- A text that holds a dictionary defines no function. -/
theorem Declaration.ofSource_of_ofJson? {source : String} {d : Dictionary}
    (h : Dictionary.ofJson? source = some d) (path function : String) :
    ofSource source path function = .error (.functionNotFound path function) := by
  obtain ⟨es, hes, -⟩ := Option.map_eq_some_iff.1 h
  obtain ⟨ts, hts, hobject⟩ := Option.bind_eq_some_iff.1 hes
  have hwordless : Wordless source.toList := wordless_of_tokensFrom hts (apart_of_objectOf? hobject)
  have hlines : ∀ e ∈ Line.outermost [] (lines (tokens source.toList)),
      Definition.ofLine? e.1 = none := fun e he =>
    Definition.ofLine?_of_wordless fun t ht =>
      hwordless t (lines_subset e.1 (Line.mem_of_mem_outermost he) ht)
  have hdefinition : definition? function (Statement.ofSource source) = none := by
    refine List.findSome?_eq_none_iff.2 fun s hs => ?_
    rw [Statement.eq_other_of_mem hlines s hs]
  unfold ofSource find
  rw [hdefinition]

end Scaffold.Source
