import Mathlib.Algebra.GroupWithZero.Nat
import Scaffold.Proofs.Yaml.Margin

/-!
# Mappings in pieces

A `Piece` is a text with one mapping in block style from the first column, whose tokens are all
local. The tokens of several pieces one behind the other are those of one mapping that has the
entries of them all.
-/

namespace Scaffold.Yaml

open Lexer

theorem Solid.nil : Solid [] := nofun

theorem Solid.append {a : List Char} (h : Solid a) (ha : a ≠ []) (b : List Char) :
    Solid (a ++ b) := by
  rw [Solid, head?_append ha]
  exact h

/-- A text that is a mapping in block style, and its tokens without the mapping's beginning and
end. -/
structure Piece where
  margin : List Char
  word : List Char
  rest : List Char
  tokens : List Token
  steps : Nat
  last : Lexer
  isMargin : Margin margin
  isWord : IsWord word
  spaced : atWordEnd rest = true
  nonempty : rest ≠ []
  ended : Ended rest
  reads : Steps steps (behindMargin margin word rest) last
  ends : last.step? = some (.inr (tokens ++ [.blockEnd]))

namespace Piece

def text (p : Piece) : List Char :=
  p.margin ++ (p.word ++ ':' :: p.rest)

variable (p : Piece)

theorem text_ne_nil : p.text ≠ [] := by
  simp [text]

theorem inText_first : (behindMargin p.margin p.word p.rest).InText :=
  inText_of_ne_nil (l := behindMargin p.margin p.word p.rest)
    (by simpa [behindMargin, behindKey] using p.ended)
    (by simpa [behindMargin, behindKey] using p.nonempty)

theorem inText_last : p.last.InText := by
  obtain ⟨-, h⟩ := p.reads.amid (m := ⟨⟨0, 0⟩, [], []⟩) p.inText_first (.inl Solid.nil)
    fun _ => ⟨Solid.nil, fun hafter => absurd rfl hafter⟩
  exact h

theorem isOuter_last : IsOuter p.last.blocks :=
  p.reads.grows.outer ⟨[], rfl, nofun⟩

theorem counted_last : p.last.Counted :=
  p.reads.grows.counted rfl

theorem isOpen_last : p.last.IsOpen :=
  p.reads.isOpen ⟨.value, rfl, nofun⟩

theorem steps_amid (m : Surroundings) (base : List Token) (hafter : Solid m.after) :
    Steps p.steps (((behindMargin p.margin p.word p.rest).amid m).onTop base)
      ((p.last.amid m).onTop base) := by
  obtain ⟨-, hflow, -, inner, hblocks, -⟩ :=
    ends_of_step? p.ends p.inText_last p.isOuter_last p.isOpen_last
  have hend : p.last.inFlow = false ∧ p.last.blocks ≠ [] := ⟨hflow, by simp [hblocks]⟩
  exact (p.reads.amid p.inText_first (.inl hafter) fun _ => ⟨hafter, fun _ => hend⟩).1.onTop rfl

end Piece

namespace Lexer

variable {l : Lexer} {m : Surroundings}

theorem finish?_amid : (l.amid m).finish? = l.finish? := by
  unfold finish?
  rw [close_amid, forgetKey?_amid]
  cases (l.close none).forgetKey? <;> rfl

/-- The end of a text is the end of a document that has nothing behind it. -/
theorem step?_inr_amid {ts : List Token} (h : l.step? = some (.inr ts)) (hl : l.InText)
    (hafter : m.after = []) : (l.amid m).step? = some (.inr ts) := by
  obtain ⟨r, hready, hnil, hfinish⟩ := step?_inr h
  have hrest := hnil
  rw [cursor_readied? hready] at hnil
  have hlength : (l.amid m).cursor.rest.length = l.cursor.rest.length := by
    simp [hafter]
  obtain ⟨-, -, hthrough⟩ := toToken_amid (m := m) (k := (l.amid m).cursor.rest.length + 1) hl
    (Nat.lt_succ_self l.cursor.rest.length) (by simp [hafter])
  have hmoved : (l.amid m).readied? = some (r.amid m) := by
    unfold readied? at hready ⊢
    have hstill : ((l.toToken (l.cursor.rest.length + 1)).amid m).cursor.rest = [] := by
      simp [hnil, hafter]
    rw [hthrough hnil, toToken_of_nil hstill, forgetStale?_amid]
    obtain ⟨f, hstale, rfl⟩ := Option.map_eq_some_iff.1 hready
    rw [hstale, Option.map_some, Option.map_some, cursor_amid, Cursor.column_amid, close_amid]
  rw [step?_eq, hmoved, Option.bind_some, cursor_amid, Cursor.rest_amid, hrest, hafter]
  simp [lead?, finish?_amid, hfinish]

theorem behindMargin_append (margin w rest after : List Char) (d : Offset)
    (names : List (String × Nat)) :
    (behindMargin margin w (rest ++ after)).amid ⟨d, [], names⟩ =
      (behindMargin margin w rest).amid ⟨d, after, names⟩ := by
  simp [behindMargin, behindKey, amid, Cursor.amid]

/-- What stands behind a text belongs to the document around it. -/
theorem behindMargin_through (margin w rest after : List Char) :
    behindMargin margin w (rest ++ after) =
      (behindMargin margin w rest).amid ⟨⟨0, 0⟩, after, []⟩ := by
  simp [behindMargin, behindKey, amid, Cursor.amid, Position.moved]

theorem run?_pieces (p : Piece) (ps : List Piece) (hsolid : ∀ q ∈ ps, Solid q.text) (d : Offset)
    (names : List (String × Nat)) (base : List Token) {fuel : Nat}
    (hfuel : p.steps + (ps.map (·.steps + 2)).sum < fuel) :
    (((behindMargin p.margin p.word p.rest).amid ⟨d, ps.flatMap Piece.text, names⟩).onTop
        base).run? fuel =
      some (base.reverse ++ (p.tokens ++ (ps.flatMap Piece.tokens ++ [.blockEnd]))) := by
  induction ps generalizing p d base fuel with
  | nil =>
    have hsteps := p.steps_amid ⟨d, [], names⟩ base Solid.nil
    have hstep := step?_inr_amid (m := ⟨d, [], names⟩) p.ends p.inText_last rfl
    have hcounted : (p.last.amid ⟨d, [], names⟩).Counted := p.counted_last
    obtain ⟨k, rfl⟩ : ∃ k, fuel = p.steps + (k + 1) :=
      ⟨fuel - p.steps - 1, by simp at hfuel; omega⟩
    rw [List.flatMap_nil, List.flatMap_nil, run?_of_steps hsteps, run?, step?_onTop hcounted, hstep]
    rfl
  | cons q ps ih =>
    have hq : Solid q.text := hsolid q (List.mem_cons_self ..)
    have hafter : Solid ((q :: ps).flatMap Piece.text) := by
      rw [List.flatMap_cons]
      exact hq.append q.text_ne_nil _
    have hsteps := p.steps_amid ⟨d, (q :: ps).flatMap Piece.text, names⟩ base hafter
    have hspaced : atWordEnd (q.rest ++ ps.flatMap Piece.text) = true := by
      rw [atWordEnd_append q.nonempty]
      exact q.spaced
    have hsplit : (q :: ps).flatMap Piece.text =
        q.margin ++ (q.word ++ ':' :: (q.rest ++ ps.flatMap Piece.text)) := by
      simp [Piece.text]
    obtain ⟨d', hnext⟩ := steps_next ⟨d, (q :: ps).flatMap Piece.text, names⟩ base p.ends
      p.inText_last p.isOuter_last p.isOpen_last p.counted_last q.isMargin q.isWord hspaced hsplit
    rw [behindMargin_append] at hnext
    rw [List.map_cons, List.sum_cons] at hfuel
    obtain ⟨k, rfl⟩ : ∃ k, fuel = p.steps + 2 + k := ⟨fuel - p.steps - 2, by omega⟩
    rw [run?_of_steps (hsteps.trans hnext), ih q (fun x hx => hsolid x (List.mem_cons_of_mem q hx))]
    · simp
    · omega

theorem Steps.of_onTop {n : Nat} {base : List Token} {l' : Lexer}
    (h : Steps n (l.onTop base) l') (hl : l.Counted) :
    ∃ l₀, l' = l₀.onTop base ∧ Steps n l l₀ := by
  generalize htop : l.onTop base = top at h
  induction h generalizing l with
  | refl top => exact ⟨l, htop.symm, .refl l⟩
  | @head n top top₁ top₂ h hlocal _ ih =>
    rw [← htop, step?_onTop hl] at h
    obtain ⟨r, hstep, heq⟩ := Option.map_eq_some_iff.1 h
    cases r with
    | inr ts => cases heq
    | inl l₁ =>
      cases heq
      have hhead : ∀ t ∈ l₁.tokens.head?, t.isLocal = true := by
        intro t ht
        refine hlocal t ?_
        show (l₁.tokens ++ base).head? = some t
        rw [List.head?_append, Option.mem_def.1 ht]
        rfl
      obtain ⟨l₀, heq, hsteps⟩ := ih ((grows_step? hstep hhead).1.counted hl) rfl
      exact ⟨l₀, heq, .head hstep hhead hsteps⟩

theorem Steps.lt_of_run? {n fuel : Nat} {l' : Lexer} {ts : List Token} (h : Steps n l l')
    (hrun : l.run? fuel = some ts) : n < fuel := by
  induction h generalizing fuel with
  | refl l =>
    cases fuel with
    | zero => cases hrun
    | succ fuel => exact Nat.succ_pos fuel
  | head h _ _ ih =>
    cases fuel with
    | zero => cases hrun
    | succ fuel =>
      rw [run?, h] at hrun
      exact Nat.succ_lt_succ (ih hrun)

/-- A text with a key in the first column is a mapping in block style. -/
theorem opens_of_run? {margin w rest : List Char} {fuel : Nat} {ts : List Token}
    (hm : Margin margin) (hw : IsWord w) (hrest : atWordEnd rest = true)
    (h : (start (margin ++ (w ++ ':' :: rest))).run? fuel = some ts)
    (hlocal : ∀ t ∈ ts, t.isLocal = true) :
    ∃ ts' n last, ts = .blockMapping :: ts' ∧ Steps n (behindMargin margin w rest) last ∧
      last.step? = some (.inr ts') ∧ n + 2 < fuel := by
  have hstart := steps_start hm hw hrest
  have hfuel := hstart.lt_of_run? h
  obtain ⟨k, rfl⟩ := Nat.exists_eq_add_of_le (Nat.le_of_lt hfuel)
  rw [run?_of_steps hstart] at h
  obtain ⟨n, l', hsteps, hend, hn, -⟩ := steps_of_run? h hlocal
  obtain ⟨last, rfl, hreads⟩ := hsteps.of_onTop rfl
  rw [step?_onTop (hreads.grows.counted rfl)] at hend
  obtain ⟨r, hlast, heq⟩ := Option.map_eq_some_iff.1 hend
  cases r with
  | inl l₁ => cases heq
  | inr ts' =>
    cases heq
    exact ⟨ts', n, last, rfl, hreads, hlast, by omega⟩

end Lexer

end Scaffold.Yaml
