import Mathlib.Data.List.Infix
import Scaffold.Source.Literal

/-!
# Texts between quotes

A text can stand between two quotes if a backslash takes along what would end it early. `Enclosed`
says so character by character, as a literal is read; `Fits` says it of all places in the text
together, and also of a text whose last backslash has nothing to take along (`enclosed_iff_fits`).
`unquote` gives back what was put between quotes in this way, whichever letters are in front
(`unquote_fits`).
-/

namespace Scaffold.Source

/-! ## Read character by character -/

/-- What may stand between two quotes `q`: a text in which no quote begins but behind a backslash,
which takes the character behind it along. -/
inductive Enclosed (q : List Char) : List Char → Prop where
  | nil : Enclosed q []
  | plain {c : Char} {b : List Char} : c ≠ '\\' → ¬ q <+: c :: b ++ q → Enclosed q b →
      Enclosed q (c :: b)
  | escape (c : Char) {b : List Char} : Enclosed q b → Enclosed q ('\\' :: c :: b)

def isEnclosed (q : List Char) : List Char → Bool
  | [] => true
  | ['\\'] => false
  | '\\' :: _ :: b => isEnclosed q b
  | c :: b => !decide (q <+: c :: b ++ q) && isEnclosed q b

theorem isEnclosed_iff {q b : List Char} : isEnclosed q b = true ↔ Enclosed q b := by
  constructor
  · intro h
    fun_induction isEnclosed q b with
    | case1 => exact .nil
    | case2 => cases h
    | case3 c b ih => exact .escape c (ih h)
    | case4 c b hlast hmore ih =>
      obtain ⟨hbegins, hb⟩ := Bool.and_eq_true_iff.1 h
      refine .plain ?_ (by simpa using hbegins) (ih hb)
      rintro rfl
      cases b with
      | nil => exact hlast rfl rfl
      | cons d b => exact hmore d b rfl rfl
  · intro h
    induction h with
    | nil => rfl
    | @plain c b hslash hbegins _ ih =>
      rw [isEnclosed.eq_4 q c b (fun h _ => hslash h) fun _ _ h _ => hslash h, ih]
      simpa using hbegins
    | escape c _ ih => simpa [isEnclosed] using ih

instance (q b : List Char) : Decidable (Enclosed q b) :=
  decidable_of_iff _ isEnclosed_iff

/-! ## All places together -/

/-- The last character is a backslash, and not one that another takes along. -/
def endsEscaping : List Char → Bool
  | [] => false
  | ['\\'] => true
  | '\\' :: _ :: s => endsEscaping s
  | _ :: s => endsEscaping s

/-- What may stand between two quotes `q`: wherever the quote stands in it, a backslash takes its
beginning along, and so it does with a last character that a quote of three could begin with. -/
structure Fits (q b : List Char) : Prop where
  unbroken : ∀ before behind, b = before ++ q ++ behind → endsEscaping before = true
  unfinished : q.length = 3 → ∀ before, ∀ c ∈ q, b = before ++ [c] → endsEscaping before = true

section

variable {letters q b : List Char} {c : Char}

theorem endsEscaping_cons (hc : c ≠ '\\') (s : List Char) :
    endsEscaping (c :: s) = endsEscaping s :=
  endsEscaping.eq_4 c s (fun h _ => hc h) fun _ _ h _ => hc h

theorem exists_of_mem_quotes (hq : q ∈ quotes) :
    ∃ c, c ≠ '\\' ∧ (q = [c] ∨ q = [c, c, c]) := by
  simp only [quotes, List.mem_cons, List.not_mem_nil, or_false] at hq
  rcases hq with rfl | rfl | rfl | rfl
  · exact ⟨'"', by decide, .inr rfl⟩
  · exact ⟨'\'', by decide, .inr rfl⟩
  · exact ⟨'"', by decide, .inl rfl⟩
  · exact ⟨'\'', by decide, .inl rfl⟩

namespace Fits

theorem not_begins (h : Fits q b) : ¬ q <+: b := by
  rintro ⟨behind, rfl⟩
  exact Bool.false_ne_true (h.unbroken [] behind rfl)

/-- A stretch after which nothing is taken along makes no difference to what follows it. -/
theorem of_append {a : List Char} (ha : ∀ s, endsEscaping (a ++ s) = endsEscaping s)
    (h : Fits q (a ++ b)) : Fits q b where
  unbroken before behind hb := by
    rw [← ha]
    exact h.unbroken (a ++ before) behind (by simp [hb])
  unfinished hlen before c hc hb := by
    rw [← ha]
    exact h.unfinished hlen (a ++ before) c hc (by simp [hb])

/-- No quote begins with the first character, not even one that ends behind the text. -/
theorem not_begins_append (hq : q ∈ quotes) (hc : c ≠ '\\') (h : Fits q (c :: b)) :
    ¬ q <+: c :: b ++ q := by
  intro hbegins
  obtain ⟨x, -, rfl | rfl⟩ := exists_of_mem_quotes hq
  · obtain ⟨rfl, -⟩ := List.cons_prefix_cons.1 hbegins
    exact h.not_begins ⟨b, rfl⟩
  · have hlast {s : List Char} : c :: b = s ++ [x] → endsEscaping s = true :=
      h.unfinished rfl s x List.mem_cons_self
    match b with
    | [] =>
      obtain rfl : x = c := (List.cons_prefix_cons.1 hbegins).1
      exact Bool.false_ne_true (hlast (s := []) rfl)
    | [d] =>
      obtain ⟨rfl, rfl, -⟩ : x = c ∧ x = d ∧ _ := by
        simpa only [List.cons_append, List.cons_prefix_cons] using hbegins
      have hescaping := hlast (s := [x]) rfl
      rw [endsEscaping_cons hc] at hescaping
      exact Bool.false_ne_true hescaping
    | d :: e :: b =>
      obtain ⟨rfl, rfl, rfl, -⟩ : x = c ∧ x = d ∧ x = e ∧ _ := by
        simpa only [List.cons_append, List.cons_prefix_cons] using hbegins
      exact h.not_begins ⟨b, rfl⟩

end Fits

namespace Enclosed

/-- Wherever the quote stands in an enclosed text, its beginning was taken along. -/
theorem unbroken (hq : q ∈ quotes) (h : Enclosed q b) {before behind : List Char}
    (hb : b = before ++ q ++ behind) : endsEscaping before = true := by
  obtain ⟨x, hx, hquote⟩ := exists_of_mem_quotes hq
  induction h generalizing before with
  | nil => rcases hquote with rfl | rfl <;> simp at hb
  | plain hslash hbegins _ ih =>
    cases before with
    | nil => exact absurd ⟨behind ++ q, by simp [hb]⟩ hbegins
    | cons d before =>
      obtain ⟨rfl, hrest⟩ := List.cons.inj hb
      rw [endsEscaping_cons hslash]
      exact ih hrest
  | escape c _ ih =>
    match before with
    | [] =>
      rcases hquote with rfl | rfl <;> exact absurd (List.cons.inj hb).1.symm hx
    | [d] =>
      obtain ⟨rfl, -⟩ := List.cons.inj hb
      rfl
    | d :: e :: before =>
      obtain ⟨rfl, hmore⟩ := List.cons.inj hb
      show endsEscaping before = true
      exact ih (List.cons.inj hmore).2

theorem unfinished (h : Enclosed [c, c, c] b) {before : List Char} (hb : b = before ++ [c]) :
    endsEscaping before = true := by
  induction h generalizing before with
  | nil => simp at hb
  | plain hslash hbegins _ ih =>
    cases before with
    | nil =>
      obtain ⟨rfl, rfl⟩ := List.cons.inj hb
      exact absurd ⟨_, rfl⟩ hbegins
    | cons e before =>
      obtain ⟨rfl, hrest⟩ := List.cons.inj hb
      rw [endsEscaping_cons hslash]
      exact ih hrest
  | escape d _ ih =>
    match before with
    | [] => simp at hb
    | [e] =>
      obtain ⟨rfl, -⟩ := List.cons.inj hb
      rfl
    | e :: f :: before =>
      obtain ⟨rfl, hmore⟩ := List.cons.inj hb
      show endsEscaping before = true
      exact ih (List.cons.inj hmore).2

theorem fits (hq : q ∈ quotes) (h : Enclosed q b) : Fits q b where
  unbroken before behind hb := h.unbroken hq hb
  unfinished hlen before c hc hb := by
    obtain ⟨x, -, rfl | rfl⟩ := exists_of_mem_quotes hq
    · simp at hlen
    · obtain rfl : c = x := by simpa using hc
      exact h.unfinished hb

end Enclosed

/-- A text is read through character by character just when it fits and no backslash is left over
at its end. -/
theorem enclosed_iff_fits (hq : q ∈ quotes) :
    Enclosed q b ↔ Fits q b ∧ endsEscaping b = false := by
  constructor
  · intro h
    refine ⟨h.fits hq, ?_⟩
    induction h with
    | nil => rfl
    | plain hslash _ _ ih => rw [endsEscaping_cons hslash, ih]
    | escape c _ ih => exact ih
  · rintro ⟨h, hend⟩
    fun_induction endsEscaping b with
    | case1 => exact .nil
    | case2 => cases hend
    | case3 c b ih => exact .escape c (ih (h.of_append (a := ['\\', c]) fun s => rfl) hend)
    | case4 c b hlast hmore ih =>
      have hslash : c ≠ '\\' := by
        rintro rfl
        cases b with
        | nil => exact hlast rfl rfl
        | cons d b => exact hmore d b rfl rfl
      exact .plain hslash (h.not_begins_append hq hslash)
        (ih (h.of_append (a := [c]) (endsEscaping_cons hslash)) hend)

/-! ## What is between quotes -/

theorem between?_append (q b : List Char) : between? q (q ++ b ++ q) = some b := by
  have hbegins : q.isPrefixOf (q ++ b ++ q) = true := by simp [List.append_assoc]
  have hdrop : (q ++ b ++ q).drop q.length = b ++ q := by simp [List.append_assoc]
  have hsuffix : q.isSuffixOf (b ++ q) = true := by simp
  unfold between?
  rw [if_pos hbegins]
  dsimp only
  rw [hdrop, if_pos hsuffix]
  simp

theorem between?_of_not_prefix {s : List Char} (h : ¬ q <+: s) : between? q s = none := by
  unfold between?
  rw [if_neg (by simpa using h)]

/-- A text between two quotes of one character does not begin with three of them, unless it begins
with one itself. -/
theorem not_triple_prefix (h : ¬ [c] <+: b) : ¬ [c, c, c] <+: [c] ++ b ++ [c] := by
  cases b with
  | nil => simp [List.prefix_cons_iff]
  | cons d b =>
    simp only [List.cons_append, List.nil_append, List.cons_prefix_cons]
    rintro ⟨-, rfl, -⟩
    exact h ⟨b, rfl⟩

/-- Of the quotes that are tried, the first that stands at both ends is the one that encloses. -/
theorem findSome?_between? (hq : q ∈ quotes) (hb : q.length = 1 → ¬ q <+: b) :
    quotes.findSome? (fun q' => between? q' (q ++ b ++ q)) = some b := by
  have hbetween := between?_append q b
  simp only [quotes, List.mem_cons, List.not_mem_nil, or_false] at hq
  unfold quotes
  -- the quotes that are tried before `q` are of the other kind, or are three of its characters
  rcases hq with rfl | rfl | rfl | rfl
  · rw [List.findSome?_cons, hbetween]
  · rw [List.findSome?_cons, between?_of_not_prefix (by simp), List.findSome?_cons, hbetween]
  · have htriple := not_triple_prefix (hb rfl)
    rw [List.findSome?_cons, between?_of_not_prefix htriple, List.findSome?_cons,
      between?_of_not_prefix (by simp), List.findSome?_cons, hbetween]
  · have htriple := not_triple_prefix (hb rfl)
    rw [List.findSome?_cons, between?_of_not_prefix (by simp), List.findSome?_cons,
      between?_of_not_prefix htriple, List.findSome?_cons, between?_of_not_prefix (by simp),
      List.findSome?_cons, hbetween]

/-- Letters in front and the quotes are taken off, and nothing else is; between quotes of one
character that takes a text which does not begin with the quote. -/
theorem unquote_quoted (hletters : ∀ c ∈ letters, mayPrecedeQuotes c = true) (hq : q ∈ quotes)
    (hb : q.length = 1 → ¬ q <+: b) :
    unquote (String.ofList (letters ++ q ++ b ++ q)) = String.ofList b := by
  have hhead : (q ++ b ++ q).dropWhile mayPrecedeQuotes = q ++ b ++ q := by
    simp only [quotes, List.mem_cons, List.not_mem_nil, or_false] at hq
    rcases hq with rfl | rfl | rfl | rfl <;> rfl
  have hbody : (letters ++ q ++ b ++ q).dropWhile mayPrecedeQuotes = q ++ b ++ q := by
    rw [List.append_assoc, List.append_assoc, List.dropWhile_append_of_pos hletters,
      ← List.append_assoc, hhead]
  unfold unquote
  rw [String.toList_ofList, hbody]
  dsimp only
  rw [findSome?_between? hq hb]
  rfl

/-- Whatever fits between the quotes comes back as it was put there. -/
theorem unquote_fits (hletters : ∀ c ∈ letters, mayPrecedeQuotes c = true) (hq : q ∈ quotes)
    (hb : Fits q b) : unquote (String.ofList (letters ++ q ++ b ++ q)) = String.ofList b :=
  unquote_quoted hletters hq fun _ => hb.not_begins

/-- An empty text, one that begins with quotes of the other kind and one that begins with two of the
same kind; the last two end in a quote behind a backslash. -/
theorem unquote_fits_escaped :
    unquote "''" = "" ∧ unquote "u'\"\"\"x\\''" = "\"\"\"x\\'" ∧
      unquote "Rb\"\"\"\"\"it's\" \\\"\"\"\"" = "\"\"it's\" \\\"" :=
  ⟨@unquote_fits [] ['\''] [] (List.all_eq_true.1 rfl) (by decide)
      (Enclosed.fits (by decide) (by decide)),
    @unquote_fits ['u'] ['\''] "\"\"\"x\\'".toList (List.all_eq_true.1 rfl) (by decide)
      (Enclosed.fits (by decide) (by decide)),
    @unquote_fits ['R', 'b'] ['"', '"', '"'] "\"\"it's\" \\\"".toList (List.all_eq_true.1 rfl)
      (by decide) (Enclosed.fits (by decide) (by decide))⟩

end

end Scaffold.Source
