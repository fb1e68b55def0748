import Scaffold.Proofs.Yaml.Break
import Scaffold.Proofs.Yaml.Entries
import Scaffold.Yaml.Document

/-!
# Documents in parts

A `Part` is a document that is a piece, with the entries that it spells. The parts of a document
spell its entries one behind the other (`root?_parts`).
-/

namespace Scaffold.Yaml

open Lexer

/-! ## Breaks -/

theorem normalizeBreaks_cons {c : Char} {s : List Char} (h : c = '\r' → s.head? ≠ some '\n') :
    normalizeBreaks (c :: s) =
      (if c == '\r' || c == '\u0085' then '\n' else c) :: normalizeBreaks s := by
  rw [normalizeBreaks]
  rintro s' rfl rfl
  exact h rfl rfl

theorem normalizeBreaks_append {a : List Char} (ha : ∀ c ∈ a.getLast?, c ≠ '\r')
    (b : List Char) : normalizeBreaks (a ++ b) = normalizeBreaks a ++ normalizeBreaks b := by
  induction a using normalizeBreaks.induct with
  | case1 => rfl
  | case2 s ih =>
    have hs : ∀ c ∈ s.getLast?, c ≠ '\r' := by
      intro c hc
      refine ha c ?_
      rw [List.getLast?_cons_cons, List.getLast?_cons, hc]
      rfl
    rw [List.cons_append, List.cons_append, normalizeBreaks, normalizeBreaks, ih hs]
    rfl
  | case3 c s hne ih =>
    have hpair : c = '\r' → s.head? ≠ some '\n' := by
      rintro rfl hhead
      cases s with
      | nil => cases hhead
      | cons x s =>
        cases hhead
        exact hne s rfl rfl
    have hpair' : c = '\r' → (s ++ b).head? ≠ some '\n' := by
      rintro rfl
      cases s with
      | nil => exact absurd rfl (ha '\r' rfl)
      | cons x s => exact hpair rfl
    have hs : ∀ c ∈ s.getLast?, c ≠ '\r' := by
      intro x hx
      refine ha x ?_
      rw [List.getLast?_cons, hx]
      rfl
    rw [List.cons_append, normalizeBreaks_cons hpair', normalizeBreaks_cons hpair, ih hs]
    rfl

theorem normalizeBreaks_id {s : List Char} (h : ∀ c ∈ s, c ≠ '\r' ∧ c ≠ '\u0085') :
    normalizeBreaks s = s := by
  induction s with
  | nil => rfl
  | cons c s ih =>
    obtain ⟨hr, hn⟩ := h c (List.mem_cons_self ..)
    rw [normalizeBreaks_cons fun heq => absurd heq hr,
      ih fun x hx => h x (List.mem_cons_of_mem c hx), if_neg (by simp [hr, hn])]

theorem Ended.ne_return {s : List Char} (h : Ended s) : ∀ c ∈ s.getLast?, c ≠ '\r' := by
  rintro c hc rfl
  exact absurd (h '\r' hc) (by decide)

theorem Ended.cons {c : Char} {s : List Char} (hs : Ended s) (hc : s = [] → isBreak c = true) :
    Ended (c :: s) := by
  intro x hx
  cases s with
  | nil =>
    cases hx
    exact hc rfl
  | cons y s => exact hs x (by rwa [List.getLast?_cons_cons] at hx)

theorem normalizeBreaks_ne_nil {s : List Char} (h : s ≠ []) : normalizeBreaks s ≠ [] := by
  unfold normalizeBreaks
  split
  · exact absurd rfl h
  · exact List.cons_ne_nil _ _
  · exact List.cons_ne_nil _ _

theorem Ended.normalizeBreaks {s : List Char} (h : Ended s) : Ended (normalizeBreaks s) := by
  induction s using Yaml.normalizeBreaks.induct with
  | case1 => exact h
  | case2 s ih =>
    rw [Yaml.normalizeBreaks]
    exact (ih h.tail.tail).cons fun _ => isBreak_newline
  | case3 c s hne ih =>
    rw [Yaml.normalizeBreaks]
    · refine (ih h.tail).cons fun hnil => ?_
      have hs : s = [] := by
        by_contra hs
        exact normalizeBreaks_ne_nil hs hnil
      subst hs
      rcases break_cases (h c rfl) with rfl | rfl | rfl <;> decide
    · exact hne

theorem Margin.ended {s : List Char} (h : Margin s) : Ended s := by
  induction h with
  | nil => exact nofun
  | line _ _ _ ih => exact (ih.cons fun _ => isBreak_newline).append (List.cons_ne_nil _ _)

/-! ## Parts -/

/-- A document that is a piece, and the entries that it spells. -/
structure Part extends Piece where
  source : String
  entries : List (Node × Node)
  allowed : source.toList.all isAllowed = true
  closed : Ended source.toList
  chars : normalizeBreaks source.toList = toPiece.text
  short : toPiece.steps + 2 ≤ source.length
  areLocal : AreLocal toPiece.tokens
  spells : blockEntries? standardHandles (4 * toPiece.tokens.length + 11)
    (toPiece.tokens ++ [.blockEnd]) = some (entries, [])

instance (text : String) : Decidable (∀ ts, tokens? text = some ts → AreLocal ts) :=
  decidable_of_iff ((tokens? text).all (fun ts => ts.all Token.isLocal) = true)
    (by cases tokens? text <;> simp [AreLocal])

/-- The document is a mapping in block style that begins with a plain key in the first column and
ends its last line. It has neither anchors nor aliases, directives nor marks. -/
structure Joinable (text : String) : Prop where
  begins : ∃ margin word rest, normalizeBreaks text.toList = margin ++ (word ++ ':' :: rest) ∧
    Margin margin ∧ IsWord word ∧ atWordEnd rest = true
  ended : Ended text.toList
  areLocal : ∀ ts, tokens? text = some ts → AreLocal ts

theorem directives?_mapping (ts : List Token) :
    directives? false [] (.blockMapping :: ts) = some (standardHandles, .blockMapping :: ts) := rfl

theorem ofTokens?_mapping (ts : List Token) :
    Node.ofTokens? (.blockMapping :: ts) =
      (blockEntries? standardHandles (4 * ts.length + 7) ts).bind fun r =>
        if isFinished r.2 then some (some (.mapping .bare r.1)) else none := by
  have hfuel : readingDepth (Token.blockMapping :: ts).length = 4 * ts.length + 7 + 1 := by
    simp [readingDepth]
    omega
  have hroot : node? standardHandles (4 * ts.length + 7 + 1) .block (.blockMapping :: ts) =
      (blockEntries? standardHandles (4 * ts.length + 7) ts).map
        fun r => (.mapping .bare r.1, r.2) := by
    rw [node?_content _ rfl]
    rfl
  unfold Node.ofTokens?
  rw [hfuel, directives?_mapping]
  simp only [Option.bind_eq_bind, Option.bind_some, lt_irrefl, if_false, hroot]
  cases blockEntries? standardHandles (4 * ts.length + 7) ts <;> rfl

/-- A document of this form that spells a tree is a part. -/
theorem Joinable.part {text : String} {root : Option Node} (h : Joinable text)
    (hroot : root? text = some root) :
    ∃ p : Part, p.source = text ∧ root = some (.mapping .bare p.entries) := by
  obtain ⟨ts, htokens, htree⟩ := Option.bind_eq_some_iff.1 hroot
  obtain ⟨margin, word, rest, hchars, hm, hw, hspaced⟩ := h.begins
  have hlocal := h.areLocal ts htokens
  have hallowed : text.toList.all isAllowed = true := by
    by_contra hno
    rw [tokens?, if_neg hno] at htokens
    cases htokens
  rw [tokens?, if_pos hallowed, hchars] at htokens
  obtain ⟨ts', n, last, rfl, hreads, hlast, hn⟩ := opens_of_run? hm hw hspaced htokens hlocal
  rw [ofTokens?_mapping] at htree
  obtain ⟨⟨es, r⟩, hentries, hfinished⟩ := Option.bind_eq_some_iff.1 htree
  have hend : isFinished r = true := by
    by_contra hno
    rw [if_neg hno] at hfinished
    cases hfinished
  rw [if_pos hend] at hfinished
  cases hfinished
  -- What is left are marks, and there are none.
  have hr : r = [] := by
    cases r with
    | nil => rfl
    | cons t r =>
      have ht : t = .documentEnd := by
        simp [isFinished] at hend
        exact hend.1
      have hmem := ((allConsume standardHandles _).blockEntries hentries).1.subset
        (List.mem_cons_self ..)
      exact absurd (hlocal t (List.mem_cons_of_mem _ hmem)) (by simp [ht, Token.isLocal])
  subst hr
  obtain ⟨B, rfl⟩ := blockEntries?_ends hentries
  have hended : Ended (margin ++ (word ++ ':' :: rest)) := hchars ▸ h.ended.normalizeBreaks
  have hcolon : Ended (':' :: rest) := hended.append_right.append_right
  have hfuel : 4 * (B ++ [Token.blockEnd]).length + 7 = 4 * B.length + 11 := by
    simp
    omega
  rw [hfuel] at hentries
  refine ⟨⟨⟨margin, word, rest, B, n, last, hm, hw, hspaced, hcolon.ne_nil (by decide), hcolon.tail,
    hreads, hlast⟩, text, es, hallowed, h.ended, hchars, ?_, ?_, hentries⟩, rfl, rfl⟩
  · exact Nat.lt_succ_iff.1 hn
  · exact fun t ht => hlocal t (List.mem_cons_of_mem _ (List.mem_append_left _ ht))

namespace Part

theorem length_entries {handles : Handles} {fuel : Nat} {ts r : List Token}
    {es : List (Node × Node)} (h : blockEntries? handles fuel ts = some (es, r)) :
    es.length + 1 + r.length ≤ ts.length := by
  induction fuel generalizing ts es with
  | zero => simp [blockEntries?] at h
  | succ fuel ih =>
    cases ts with
    | nil => cases h
    | cons t ts =>
      cases t with
      | key =>
        rw [blockEntries?] at h
        obtain ⟨⟨k, ts₁⟩, hk, h₁⟩ := Option.bind_eq_some_iff.1 h
        obtain ⟨⟨v, ts₂⟩, hv, h₂⟩ := Option.bind_eq_some_iff.1 h₁
        obtain ⟨⟨es, ts₃⟩, hes, h₃⟩ := Option.bind_eq_some_iff.1 h₂
        cases h₃
        have hvalue := ((allConsume handles fuel).blockValue hv).1.length_le
        have hkey := ((allConsume handles fuel).nodeUnless _ _ hk).1.length_le
        have hrest := ih hes
        simp only [List.length_cons]
        omega
      | blockEnd =>
        rw [blockEntries?_end] at h
        cases h
        simp
        omega
      | _ => cases h

theorem entries_length_le (p : Part) : p.entries.length ≤ p.tokens.length := by
  have h := length_entries p.spells
  simp at h
  exact h

/-- A mapping in block style begins with a key, or it has no entries. -/
theorem begins_of_entries {handles : Handles} {fuel : Nat} {B : List Token}
    {es : List (Node × Node)} (h : blockEntries? handles fuel (B ++ [.blockEnd]) = some (es, [])) :
    B = [] ∨ ∃ B', B = .key :: B' := by
  cases B with
  | nil => exact .inl rfl
  | cons t B =>
    cases fuel with
    | zero => cases h
    | succ fuel =>
      cases t with
      | key => exact .inr ⟨B, rfl⟩
      | blockEnd =>
        rw [List.cons_append, blockEntries?_end] at h
        exact absurd (Prod.mk.inj (Option.some.inj h)).2 (append_end_ne_nil B)
      | _ => cases h

theorem endsValue_parts (ps : List Part) :
    ∃ u after, ps.flatMap (·.tokens) ++ [.blockEnd] = u :: after ∧ u.EndsValue := by
  induction ps with
  | nil => exact ⟨.blockEnd, [], rfl, .inr rfl⟩
  | cons p ps ih =>
    rcases begins_of_entries p.spells with hnil | ⟨B, hB⟩
    · obtain ⟨u, after, heq, hu⟩ := ih
      exact ⟨u, after, by rw [List.flatMap_cons, hnil, List.nil_append, heq], hu⟩
    · exact ⟨.key, B ++ ps.flatMap (·.tokens) ++ [.blockEnd],
        by rw [List.flatMap_cons, hB]; rfl, .inl rfl⟩

/-- The tokens of parts one behind the other spell the entries of them all. -/
theorem blockEntries?_parts (ps : List Part) {fuel : Nat}
    (h : 4 * (ps.flatMap (·.tokens)).length + 11 ≤ fuel) :
    blockEntries? standardHandles fuel (ps.flatMap (·.tokens) ++ [.blockEnd]) =
      some (ps.flatMap (·.entries), []) := by
  induction ps generalizing fuel with
  | nil =>
    obtain ⟨k, rfl⟩ : ∃ k, fuel = k + 1 := ⟨fuel - 1, by omega⟩
    exact blockEntries?_end []
  | cons p ps ih =>
    have hlength := p.entries_length_le
    simp only [List.flatMap_cons, List.length_append] at h
    obtain ⟨k, rfl⟩ : ∃ k, fuel = k + p.entries.length :=
      ⟨fuel - p.entries.length, by omega⟩
    have hrest : blockEntries? standardHandles k (ps.flatMap (·.tokens) ++ [.blockEnd]) =
        some (ps.flatMap (·.entries), []) := ih (by omega)
    obtain ⟨u, after, heq, hu⟩ := endsValue_parts ps
    rw [heq] at hrest
    rw [List.flatMap_cons, List.append_assoc, heq,
      blockEntries?_append hu p.spells (by omega) hrest, List.flatMap_cons]

theorem chars_parts (ps : List Part) :
    normalizeBreaks (ps.flatMap (·.source.toList)) = ps.flatMap (·.text) := by
  induction ps with
  | nil => rfl
  | cons p ps ih =>
    rw [List.flatMap_cons, normalizeBreaks_append p.closed.ne_return, p.chars, ih,
      List.flatMap_cons]

theorem steps_parts (ps : List Part) :
    (ps.map (·.steps + 2)).sum ≤ (ps.flatMap (·.source.toList)).length := by
  induction ps with
  | nil => exact Nat.le_refl 0
  | cons p ps ih =>
    have hp : p.steps + 2 ≤ p.source.toList.length := p.short
    simp only [List.map_cons, List.sum_cons, List.flatMap_cons, List.length_append]
    omega

variable {text : String}

theorem tokens?_parts (p : Part) (ps : List Part)
    (htext : text.toList = (p :: ps).flatMap (·.source.toList))
    (hsolid : ∀ q ∈ ps, Solid q.text) :
    tokens? text =
      some (.blockMapping :: ((p :: ps).flatMap (·.tokens) ++ [.blockEnd])) := by
  have hallowed : text.toList.all isAllowed = true := by
    rw [htext, List.all_flatMap, List.all_eq_true]
    exact fun q _ => q.allowed
  have hlength : ((p :: ps).map (·.steps + 2)).sum ≤ text.length := by
    rw [← String.length_toList, htext]
    exact steps_parts (p :: ps)
  rw [List.map_cons, List.sum_cons] at hlength
  obtain ⟨k, hk⟩ : ∃ k, text.length + 1 = 2 + k := ⟨text.length - 1, by omega⟩
  have hpieces : ps.flatMap (·.text) = (ps.map (·.toPiece)).flatMap Piece.text := by
    rw [List.flatMap_map]
  have hspaced : atWordEnd (p.rest ++ ps.flatMap (·.text)) = true := by
    rw [atWordEnd_append p.nonempty]
    exact p.spaced
  have hsteps := steps_start p.isMargin p.isWord hspaced
  have hfuel : p.steps + ((ps.map (·.toPiece)).map (·.steps + 2)).sum < k := by
    simp only [List.map_map, Function.comp_def]
    omega
  have hrun := run?_pieces p.toPiece (ps.map (·.toPiece)) (by simpa using hsolid) ⟨0, 0⟩ []
    [.blockMapping] hfuel
  have hbegin : start ((p :: ps).flatMap (·.text)) =
      start (p.margin ++ (p.word ++ ':' :: (p.rest ++ ps.flatMap (·.text)))) := by
    simp [Piece.text]
  rw [tokens?, if_pos hallowed, htext, chars_parts, hk, hbegin, run?_of_steps hsteps,
    behindMargin_through, hpieces, hrun]
  simp [List.flatMap_map]

theorem root?_parts (p : Part) (ps : List Part)
    (htext : text.toList = (p :: ps).flatMap (·.source.toList))
    (hsolid : ∀ q ∈ ps, Solid q.text) :
    root? text = some (some (.mapping .bare ((p :: ps).flatMap (·.entries)))) := by
  rw [root?, tokens?_parts p ps htext hsolid, Option.bind_some, ofTokens?_mapping,
    blockEntries?_parts (p :: ps) (by simp; omega)]
  rfl

theorem ended_parts (ps : List Part) : Ended (ps.flatMap (·.source.toList)) := by
  induction ps with
  | nil => exact nofun
  | cons p ps ih =>
    rw [List.flatMap_cons]
    by_cases hps : ps.flatMap (·.source.toList) = []
    · rw [hps, List.append_nil]
      exact p.closed
    · exact ih.append hps

/-- A document in parts is a mapping in block style again. -/
theorem joinable_parts (p : Part) (ps : List Part)
    (htext : text.toList = (p :: ps).flatMap (·.source.toList))
    (hsolid : ∀ q ∈ ps, Solid q.text) : Joinable text := by
  refine ⟨⟨p.margin, p.word, p.rest ++ ps.flatMap (·.text), ?_, p.isMargin, p.isWord, ?_⟩, ?_, ?_⟩
  · rw [htext, chars_parts]
    simp [Piece.text]
  · rw [atWordEnd_append p.nonempty]
    exact p.spaced
  · rw [htext]
    exact ended_parts (p :: ps)
  · intro ts hts t ht
    rw [tokens?_parts p ps htext hsolid] at hts
    cases hts
    simp only [List.mem_cons, List.mem_append, List.mem_flatMap, List.not_mem_nil, or_false] at ht
    rcases ht with rfl | ⟨q, -, hq⟩ | rfl
    · rfl
    · exact q.areLocal t hq
    · rfl

theorem areFree (p : Part) : Node.areFreeEntries p.entries = true := by
  refine ((allConsume _ _).blockEntries p.spells).2 fun t ht => ?_
  rcases List.mem_append.1 ht with ht | ht
  · exact p.areLocal t ht
  · rw [List.mem_singleton.1 ht]
    rfl

/-! ## Parts with more lines -/

/-- With an empty line behind it a part is a part again, with entries of the same shape. -/
theorem padded (p : Part) :
    ∃ q : Part, q.source = p.source ++ "\n" ∧ q.text = p.text ++ ['\n'] ∧
      Node.blankEntries q.entries = Node.blankEntries p.entries := by
  obtain ⟨q, hmargin, hword, hrest, hsteps, hkinds⟩ := p.toPiece.padded
  have hlength : q.tokens.length = p.tokens.length := by
    have h := congrArg List.length hkinds
    simpa using h
  have hsame : (q.tokens ++ [Token.blockEnd]).map Token.blank =
      (p.tokens ++ [Token.blockEnd]).map Token.blank := by
    rw [List.map_append, List.map_append, hkinds]
  have hshape := (allShaped standardHandles (4 * q.tokens.length + 11)).blockEntries
  have hblank := hshape (q.tokens ++ [.blockEnd])
  rw [hsame, hshape, hlength, p.spells, Option.map_some] at hblank
  obtain ⟨⟨es, r⟩, hentries, heq⟩ := Option.map_eq_some_iff.1 hblank.symm
  have hr : r = [] := by simpa using congrArg Prod.snd heq
  subst hr
  have htext : q.text = p.text ++ ['\n'] := by
    simp [Piece.text, hmargin, hword, hrest]
  have hlocal : AreLocal q.tokens := by
    intro t ht
    have hmem : t.blank ∈ p.tokens.map Token.blank := hkinds ▸ List.mem_map_of_mem ht
    obtain ⟨u, hu, hsame⟩ := List.mem_map.1 hmem
    rw [← t.isLocal_blank, ← hsame, u.isLocal_blank]
    exact p.areLocal u hu
  refine ⟨⟨q, p.source ++ "\n", es, ?_, ?_, ?_, ?_, hlocal, ?_⟩, rfl, htext, ?_⟩
  · simpa [p.allowed] using (by decide : isAllowed '\n' = true)
  · rw [String.toList_append]
    exact Ended.newline.append (List.cons_ne_nil _ _)
  · rw [String.toList_append, normalizeBreaks_append p.closed.ne_return, p.chars, htext]
    rfl
  · have h := p.short
    simp
    omega
  · rw [hlength]
    exact hentries
  · exact congrArg Prod.fst heq

theorem behind (p : Part) {note : String} (hm : Margin note.toList)
    (hallowed : note.toList.all isAllowed = true)
    (hchars : normalizeBreaks note.toList = note.toList) :
    ∃ q : Part, q.source = note ++ p.source ∧ q.text = note.toList ++ p.text ∧
      q.entries = p.entries := by
  obtain ⟨q, hmargin, hword, hrest, hsteps, htokens⟩ := p.toPiece.behind hm
  have htext : q.text = note.toList ++ p.text := by
    simp [Piece.text, hmargin, hword, hrest]
  have hne : p.source.toList ≠ [] := by
    have h := p.short
    intro hnil
    rw [← String.length_toList, hnil] at h
    simp at h
  refine ⟨⟨q, note ++ p.source, p.entries, ?_, ?_, ?_, ?_, ?_, ?_⟩, rfl, htext, rfl⟩
  · simp [hallowed, p.allowed]
  · rw [String.toList_append]
    exact p.closed.append hne
  · rw [String.toList_append, normalizeBreaks_append hm.ended.ne_return, p.chars, hchars, htext]
  · have h := p.short
    rw [String.length_append]
    omega
  · rw [htokens]
    exact p.areLocal
  · rw [htokens]
    exact p.spells

end Part

end Scaffold.Yaml
