import Scaffold.Proofs.Text.Scan
import Scaffold.Yaml.Folding

/-!
# Places in a longer document

A text that ends its last line is read alike wherever it stands, as long as reading does not
run over its end. `Cursor.amid` is the place in the longer document; the lemmas here say so for
what reads characters.
-/

namespace Scaffold.Yaml

open Scaffold.Text

/-- How many characters and lines a document has before a text. -/
structure Offset where
  chars : Nat
  lines : Nat

namespace Position

def moved (p : Position) (d : Offset) : Position :=
  ⟨p.index + d.chars, p.line + d.lines, p.column⟩

@[simp] theorem column_moved (p : Position) (d : Offset) : (p.moved d).column = p.column := rfl

theorem after_moved (p : Position) (d : Offset) (c : Char) :
    (p.moved d).after c = (p.after c).moved d := by
  unfold after moved
  split <;> simp <;> omega

theorem column_after {c : Char} (h : isBreak c = true) (p : Position) : (p.after c).column = 0 := by
  rw [after, if_pos h]

end Position

/-- The last line of the text is at its end. -/
def Ended (s : List Char) : Prop :=
  ∀ c ∈ s.getLast?, isBreak c = true

/-- A scan for `f` stops at the end of a line. -/
def StopsAtBreaks (f : Char → Bool) : Prop :=
  ∀ c, isBreak c = true → f c = false

/-- The text does not begin with a blank or a break. -/
def Solid (s : List Char) : Prop :=
  ∀ c ∈ s.head?, isWhite c = false ∧ isBreak c = false

-- Decided on the one character in question: a quantifier over `Char` must not be.
instance (s : List Char) : Decidable (Ended s) :=
  decidable_of_iff (s.getLast?.all isBreak = true) (Option.all_eq_true isBreak _)

instance (s : List Char) : Decidable (Solid s) :=
  decidable_of_iff (s.head?.all (fun c => !isWhite c && !isBreak c) = true)
    (by simp [Solid, Option.all_eq_true])

section

variable {s a b : List Char} {c : Char}

theorem Ended.append_right (h : Ended (a ++ b)) : Ended b := by
  cases b with
  | nil => exact nofun
  | cons c b => exact fun x hx => h x (by rw [List.getLast?_append]; simp_all)

theorem Ended.append (h : Ended b) (hb : b ≠ []) : Ended (a ++ b) := by
  intro x hx
  rw [List.getLast?_append, List.getLast?_eq_some_getLast hb] at hx
  exact h x (by rw [List.getLast?_eq_some_getLast hb]; exact hx)

theorem Ended.tail (h : Ended (c :: s)) : Ended s :=
  Ended.append_right (a := [c]) h

theorem Ended.drop (h : Ended s) (n : Nat) : Ended (s.drop n) := by
  rw [← List.take_append_drop n s] at h
  exact h.append_right

theorem Ended.ne_nil (h : Ended (c :: s)) (hc : isBreak c = false) : s ≠ [] := by
  rintro rfl
  rw [h c rfl] at hc
  cases hc

theorem Ended.dropWhile (h : Ended s) {f : Char → Bool} (hf : StopsAtBreaks f) (hs : s ≠ []) :
    s.dropWhile f ≠ [] := by
  intro hnil
  rw [List.dropWhile_eq_nil_iff] at hnil
  cases hlast : s.getLast? with
  | none => exact hs (List.getLast?_eq_none_iff.1 hlast)
  | some c =>
    have hc := hnil c (List.mem_of_getLast? hlast)
    rw [hf c (h c hlast)] at hc
    cases hc

theorem isBreak_newline : isBreak '\n' = true := by decide

theorem Ended.newline : Ended ['\n'] := by
  rintro c ⟨⟩
  exact isBreak_newline

theorem break_cases (h : isBreak c = true) : c = '\n' ∨ c = '\u2028' ∨ c = '\u2029' := by
  simpa [isBreak, or_assoc] using h

theorem isWhite_break : StopsAtBreaks isWhite := by
  intro c hc
  rcases break_cases hc with rfl | rfl | rfl <;> decide

theorem not_isBreak_break : StopsAtBreaks fun c => !isBreak c := by
  intro c hc
  simp [hc]

theorem atWordEnd_append (h : s ≠ []) (after : List Char) :
    atWordEnd (s ++ after) = atWordEnd s := by
  cases s with
  | nil => exact absurd rfl h
  | cons c s => rfl

theorem atLineEnd_append (h : s ≠ []) (after : List Char) :
    atLineEnd (s ++ after) = atLineEnd s := by
  cases s with
  | nil => exact absurd rfl h
  | cons c s => rfl

theorem head?_append (h : s ≠ []) (after : List Char) : (s ++ after).head? = s.head? := by
  cases s with
  | nil => exact absurd rfl h
  | cons c s => rfl

theorem documentMark?_append (h : Ended s) (hs : s ≠ []) (after : List Char) :
    documentMark? (s ++ after) = documentMark? s := by
  match s, hs with
  | [x], _ => rcases break_cases (h x rfl) with rfl | rfl | rfl <;> rfl
  | [x, y], _ => rcases break_cases (h y rfl) with rfl | rfl | rfl <;> simp [documentMark?]
  | x :: y :: z :: s, _ =>
    by_cases hz : s = []
    · subst hz
      rcases break_cases (h z rfl) with rfl | rfl | rfl <;> simp [documentMark?]
    · have hend : atWordEnd (s ++ after) = atWordEnd s := atWordEnd_append hz after
      unfold documentMark?
      simp only [List.cons_append]
      split <;> split <;> simp_all

end

namespace Cursor

/-- The place of a text in a document that has `d` before it and `after` behind it. -/
def amid (c : Cursor) (d : Offset) (after : List Char) : Cursor :=
  ⟨c.rest ++ after, c.position.moved d⟩

variable {c c' : Cursor} {d : Offset} {after : List Char}

@[simp] theorem rest_amid : (c.amid d after).rest = c.rest ++ after := rfl

@[simp] theorem position_amid : (c.amid d after).position = c.position.moved d := rfl

@[simp] theorem column_amid : (c.amid d after).column = c.column := rfl

theorem next_amid (h : c.rest ≠ []) : (c.amid d after).next = c.next.amid d after := by
  obtain ⟨s, pos⟩ := c
  cases s with
  | nil => exact absurd rfl h
  | cons x s => simp [amid, next, Position.after_moved]

theorem passFrom_amid {f : Char → Bool} {s : List Char} {pos : Position}
    (h : (passFrom f s pos).rest ≠ []) :
    passFrom f (s ++ after) (pos.moved d) = (passFrom f s pos).amid d after := by
  induction s generalizing pos with
  | nil => exact absurd rfl h
  | cons x s ih =>
    rw [List.cons_append]
    unfold passFrom at h ⊢
    split
    · rename_i hx
      rw [if_pos hx] at h
      rw [Position.after_moved]
      exact ih h
    · rfl

theorem pass_amid {f : Char → Bool} (h : (c.pass f).rest ≠ []) :
    (c.amid d after).pass f = (c.pass f).amid d after :=
  passFrom_amid h

theorem pass_rest_ne_nil {f : Char → Bool} (hf : StopsAtBreaks f) (he : Ended c.rest)
    (hc : c.rest ≠ []) : (c.pass f).rest ≠ [] := by
  rw [pass_rest]
  exact he.dropWhile hf hc

theorem ended_pass (f : Char → Bool) (he : Ended c.rest) : Ended (c.pass f).rest := by
  rw [pass_rest]
  rw [← List.takeWhile_append_dropWhile (p := f) (l := c.rest)] at he
  exact he.append_right

theorem run_amid {f : Char → Bool} (h : (c.pass f).rest ≠ []) :
    (c.amid d after).run f = c.run f := by
  rw [pass_rest] at h
  unfold run
  rw [rest_amid]
  cases hs : c.rest.dropWhile f with
  | nil => exact absurd hs h
  | cons x s =>
    have hx : f x = false := by
      have := stops_dropWhile f c.rest
      rw [hs] at this
      exact this x rfl
    have hrest : c.rest ++ after = c.rest.takeWhile f ++ (x :: s ++ after) := by
      rw [← hs, ← List.append_assoc, List.takeWhile_append_dropWhile]
    rw [hrest]
    exact takeWhile_append_stop (fun y hy => List.mem_takeWhile_imp hy) (stops_cons hx _)

theorem ended_next (he : Ended c.rest) : Ended c.next.rest := by
  obtain ⟨s, pos⟩ := c
  cases s with
  | nil => exact he
  | cons x s => exact he.tail

theorem next_ne_nil_of_head {x : Char} (h : c.rest.head? = some x) (hx : isBreak x = false)
    (he : Ended c.rest) : c.next.rest ≠ [] := by
  obtain ⟨s, pos⟩ := c
  cases s with
  | nil => cases h
  | cons y s =>
    cases h
    exact he.ne_nil hx

theorem column_next (he : Ended c.rest) (hc : c.rest ≠ []) (h : c.next.rest = []) :
    c.next.position.column = 0 := by
  obtain ⟨s, pos⟩ := c
  match s, hc with
  | [x], _ => exact Position.column_after (he x rfl) pos
  | x :: y :: s, _ => cases h

theorem restOfLine?_amid (d : Offset) (after : List Char) (he : Ended c.rest) (hc : c.rest ≠ [])
    (h : c.restOfLine? = some c') :
    (c.amid d after).restOfLine? = some (c'.amid d after) ∧ Ended c'.rest ∧
      (c'.rest = [] → c'.position.column = 0) := by
  have hne : (c.pass isWhite).rest ≠ [] := pass_rest_ne_nil isWhite_break he hc
  have he' : Ended (c.pass isWhite).rest := ended_pass isWhite he
  unfold restOfLine? at h ⊢
  dsimp only at h ⊢
  rw [pass_amid hne, rest_amid, head?_append hne]
  split at h
  · rename_i hhash
    have hline := pass_rest_ne_nil (f := fun x => !isBreak x) not_isBreak_break he' hne
    rw [if_pos hhash]
    unfold lineEnd at h ⊢
    rw [pass_amid hline, rest_amid, atLineEnd_append hline]
    split at h
    · rename_i hend
      cases h
      rw [if_pos hend, next_amid hline]
      have he'' := ended_pass (fun x => !isBreak x) he'
      exact ⟨rfl, ended_next he'', column_next he'' hline⟩
    · cases h
  · rename_i hhash
    rw [if_neg hhash, rest_amid, atLineEnd_append hne]
    split at h
    · rename_i hend
      cases h
      rw [if_pos hend, next_amid hne]
      exact ⟨rfl, ended_next he', column_next he' hne⟩
    · cases h

theorem skip_amid {n : Nat} (h : n ≤ c.rest.length) :
    (c.amid d after).skip n = (c.skip n).amid d after := by
  induction n generalizing c with
  | zero => rfl
  | succ n ih =>
    obtain ⟨s, pos⟩ := c
    cases s with
    | nil => simp at h
    | cons x s =>
      rw [skip, skip, next_amid (by simp)]
      exact ih (Nat.le_of_succ_le_succ h)

theorem rest_skip (n : Nat) : (c.skip n).rest = c.rest.drop n := by
  induction n generalizing c with
  | zero => rfl
  | succ n ih =>
    obtain ⟨s, pos⟩ := c
    rw [skip, ih]
    cases s with
    | nil => simp [next]
    | cons x s => rfl

end Cursor

end Scaffold.Yaml
