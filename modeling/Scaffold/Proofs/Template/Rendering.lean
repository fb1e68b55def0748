import Scaffold.Proofs.Template.Replacement

/-!
# Rendering at one go

`render` replaces the placeholders of a text at one go, each as a function of it says. Where every
brace of the text lies in a placeholder and no replacement has one, the pieces of the new text are
known (`pieces_render`), so to render twice is to render once with both replacements
(`render_render`).
-/

namespace Scaffold.Template

open Scaffold.Text

def Piece.rendered (value? : Placeholder → Option String) : Piece → List Char
  | .char c => [c]
  | .hole p => ((value? p).getD p.text).toList

/-- `s` with its placeholders replaced at one go; those without a replacement stay. -/
def render (value? : Placeholder → Option String) (s : String) : String :=
  String.ofList ((pieces s).flatMap (Piece.rendered value?))

theorem rendered_congr {f g : Placeholder → Option String} {ps : List Piece}
    (h : ∀ p, .hole p ∈ ps → f p = g p) :
    ps.flatMap (Piece.rendered f) = ps.flatMap (Piece.rendered g) := by
  have heq : ∀ x ∈ ps, Piece.rendered f x = Piece.rendered g x := by
    intro x hx
    cases x with
    | char c => rfl
    | hole p => simp only [Piece.rendered, h p hx]
  rw [List.flatMap_def, List.map_congr_left heq, ← List.flatMap_def]

theorem render_congr {f g : Placeholder → Option String} {s : String}
    (h : ∀ p ∈ find s, f p = g p) : render f s = render g s := by
  unfold render
  rw [rendered_congr fun p hp => h p (mem_find_iff.2 hp)]

theorem render_none (s : String) : render (fun _ => none) s = s := by
  have hpieces : (pieces s).flatMap (Piece.rendered fun _ => none) = written (pieces s) := by
    refine List.flatMap_congr fun x _ => ?_
    cases x <;> rfl
  unfold render
  rw [hpieces, written_pieces, String.ofList_toList]

theorem expand_eq_render (value? : String → Option String) (s : String) :
    expand value? s = render (fun p => value? p.name) s := by
  unfold expand render
  refine congrArg String.ofList (List.flatMap_congr fun x _ => ?_)
  cases x <;> rfl

/-! ## Texts whose braces lie in placeholders -/

/-- The pieces that come of one when its placeholder is replaced by a text without braces. -/
def Piece.given (value? : Placeholder → Option String) : Piece → List Piece
  | .char c => [.char c]
  | .hole p =>
    match value? p with
    | some v => v.toList.map .char
    | none => [.hole p]

section Given

variable {f : Placeholder → Option String}

theorem written_given (x : Piece) : written (x.given f) = x.rendered f := by
  cases x with
  | char c => rfl
  | hole p =>
    rw [Piece.given, Piece.rendered]
    cases f p with
    | some v => exact written_map_char v.toList
    | none => exact List.append_nil p.text.toList

theorem written_flatMap_given (ps : List Piece) :
    written (ps.flatMap (Piece.given f)) = ps.flatMap (Piece.rendered f) := by
  induction ps with
  | nil => rfl
  | cons x ps ih => rw [List.flatMap_cons, List.flatMap_cons, written_append, written_given, ih]

theorem flatMap_given_rendered (g : Placeholder → Option String) (x : Piece) :
    (x.given f).flatMap (Piece.rendered g) = x.rendered fun p => (f p).or (g p) := by
  cases x with
  | char c => rfl
  | hole p =>
    rw [Piece.given, Piece.rendered]
    cases f p with
    | some v =>
      rw [List.flatMap_map]
      exact List.flatMap_singleton' v.toList
    | none => simp [Piece.rendered]

theorem count_given {p : Placeholder} (hf : f p = none) (ps : List Piece) :
    (ps.flatMap (Piece.given f)).count (.hole p) = ps.count (.hole p) := by
  induction ps with
  | nil => rfl
  | cons x ps ih =>
    rw [List.flatMap_cons, List.count_append, ih, List.count_cons, Nat.add_comm]
    congr 1
    cases x with
    | char c => simp [Piece.given]
    | hole q =>
      rw [Piece.given]
      cases hq : f q with
      | none => rw [List.count_singleton]
      | some v =>
        have hne : q ≠ p := by
          rintro rfl
          rw [hf] at hq
          cases hq
        simp [List.count_eq_zero_of_not_mem, hne]

variable (hf : ∀ p v, f p = some v → BraceFree v)

include hf

theorem Piece.Sound.given {x : Piece} (h : x.Sound) : ∀ y ∈ x.given f, y.Sound := by
  intro y hy
  cases x with
  | char c =>
    obtain rfl := List.mem_singleton.1 hy
    exact h
  | hole p =>
    rw [Piece.given] at hy
    split at hy
    · rename_i v hv
      obtain ⟨c, hc, rfl⟩ := List.mem_map.1 hy
      exact hf p v hv c hc
    · obtain rfl := List.mem_singleton.1 hy
      exact h

theorem pieces_render {s : String} (hs : Covered s) :
    pieces (render f s) = (pieces s).flatMap (Piece.given f) := by
  have hsound : ∀ y ∈ (pieces s).flatMap (Piece.given f), y.Sound := by
    intro y hy
    obtain ⟨x, hx, hy⟩ := List.mem_flatMap.1 hy
    exact (hs.sound x hx).given hf y hy
  have hread := piecesFrom_written hsound
  rwa [written_flatMap_given, ← String.toList_ofList (l := List.flatMap _ _)] at hread

theorem Covered.render {s : String} (hs : Covered s) : Covered (render f s) := by
  refine covered_of_sound fun y hy => ?_
  rw [pieces_render hf hs] at hy
  obtain ⟨x, hx, hy⟩ := List.mem_flatMap.1 hy
  exact (hs.sound x hx).given hf y hy

/-- The second rendering replaces what the first has left, and nothing else. -/
theorem render_render {s : String} (hs : Covered s) (g : Placeholder → Option String) :
    Template.render g (Template.render f s) = Template.render (fun p => (f p).or (g p)) s := by
  have hpieces := pieces_render hf hs
  unfold Template.render at hpieces ⊢
  rw [hpieces, List.flatMap_assoc]
  exact congrArg String.ofList (List.flatMap_congr fun x _ => flatMap_given_rendered g x)

end Given

end Scaffold.Template
