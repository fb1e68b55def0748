import Mathlib.Data.List.TakeWhile

/-!
# Where a scan stops

`takeWhile` and `dropWhile` over a stretch of characters that hold and what follows it.
-/

namespace Scaffold.Text

variable {f : Char → Bool} {a b : List Char}

def Stops (f : Char → Bool) (s : List Char) : Prop :=
  ∀ c ∈ s.head?, f c = false

theorem stops_nil (f : Char → Bool) : Stops f [] := by
  simp [Stops]

theorem stops_cons {c : Char} (h : f c = false) (s : List Char) : Stops f (c :: s) := by
  intro d hd
  cases hd
  exact h

theorem Stops.append_left (hb : Stops f b) (ha : ∀ c ∈ a, f c = false) : Stops f (a ++ b) := by
  cases a with
  | nil => exact hb
  | cons c a => exact stops_cons (ha c List.mem_cons_self) (a ++ b)

theorem stops_dropWhile (f : Char → Bool) (s : List Char) : Stops f (s.dropWhile f) := by
  intro c hc
  have h := List.head?_dropWhile_not f s
  rw [Option.mem_def.1 hc] at h
  simpa using h

theorem Stops.takeWhile (h : Stops f a) : a.takeWhile f = [] := by
  cases a with
  | nil => rfl
  | cons c a => exact List.takeWhile_cons_of_neg (by simp [h c rfl])

theorem Stops.dropWhile (h : Stops f a) : a.dropWhile f = a := by
  cases a with
  | nil => rfl
  | cons c a => exact List.dropWhile_cons_of_neg (by simp [h c rfl])

theorem takeWhile_append_stop (ha : ∀ c ∈ a, f c = true) (hb : Stops f b) :
    (a ++ b).takeWhile f = a := by
  rw [List.takeWhile_append_of_pos ha, hb.takeWhile, List.append_nil]

theorem dropWhile_append_stop (ha : ∀ c ∈ a, f c = true) (hb : Stops f b) :
    (a ++ b).dropWhile f = b := by
  rw [List.dropWhile_append_of_pos ha, hb.dropWhile]

end Scaffold.Text
