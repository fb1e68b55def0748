import Scaffold.Proofs.Template.Expansion
import Scaffold.Proofs.Text.Occurrence

/-!
# One placeholder after another

Where no brace of a text lies outside a placeholder and no value brings one in, a replacement
neither makes nor breaks another placeholder: the pieces of the new text are those of the old one
with the characters of the value in the place of the placeholder (`pieces_replaceText`). So the
placeholders of a text that was filled in are those that were to stay (`mem_find_fillString`).
-/

namespace Scaffold.Template

open Scaffold.Text

/-! ## Braces -/

def isBrace (c : Char) : Bool :=
  c == '\x7b' || c == '\x7d'

def BraceFree (s : String) : Prop :=
  ∀ c ∈ s.toList, isBrace c = false

instance (s : String) : Decidable (BraceFree s) :=
  List.decidableBAll (fun c => isBrace c = false) s.toList

/-- A piece that is no brace by itself. -/
def Piece.NoBrace : Piece → Prop
  | .char c => isBrace c = false
  | .hole _ => True

instance : DecidablePred Piece.NoBrace
  | .char c => inferInstanceAs (Decidable (isBrace c = false))
  | .hole _ => inferInstanceAs (Decidable True)

/-- Every brace of `s` lies in a placeholder. -/
def Covered (s : String) : Prop :=
  ∀ x ∈ pieces s, x.NoBrace

instance (s : String) : Decidable (Covered s) :=
  List.decidableBAll Piece.NoBrace (pieces s)

theorem ne_brace_of_isBrace {c : Char} (h : isBrace c = false) : c ≠ '\x7b' ∧ c ≠ '\x7d' := by
  simpa [isBrace] using h

theorem isBrace_eq_false_of_isBlank {c : Char} (h : isBlank c = true) : isBrace c = false := by
  refine Bool.eq_false_iff.2 fun hc => ?_
  rcases Bool.or_eq_true_iff.1 hc with hc | hc <;> (rw [eq_of_beq hc] at h; revert h; decide)

theorem isBrace_eq_false_of_isNameChar {c : Char} (h : isNameChar c = true) :
    isBrace c = false := by
  refine Bool.eq_false_iff.2 fun hc => ?_
  rcases Bool.or_eq_true_iff.1 hc with hc | hc <;> (rw [eq_of_beq hc] at h; revert h; decide)

/-- A placeholder is two braces, a stretch without any, and two braces again. -/
theorem text_eq_of_placeholderAt? {s : List Char} {p : Placeholder} (h : placeholderAt? s = some p) :
    ∃ inner, p.text.toList = '\x7b' :: '\x7b' :: (inner ++ ['\x7d', '\x7d']) ∧
      ∀ c ∈ inner, isBrace c = false := by
  obtain ⟨-, left, right, htext, hleft, hright, -, hname⟩ := spells_of_placeholderAt? h
  refine ⟨left ++ (p.name.toList ++ right), by simp [htext], fun c hc => ?_⟩
  rcases List.mem_append.1 hc with hc | hc
  · exact isBrace_eq_false_of_isBlank (hleft c hc)
  rcases List.mem_append.1 hc with hc | hc
  · exact isBrace_eq_false_of_isNameChar (hname c hc)
  · exact isBrace_eq_false_of_isBlank (hright c hc)

theorem not_mem_of_braceFree {inner : List Char} (h : ∀ c ∈ inner, isBrace c = false) :
    '\x7b' ∉ inner ++ ['\x7d', '\x7d'] := by
  intro hmem
  rcases List.mem_append.1 hmem with hmem | hmem
  · exact (ne_brace_of_isBrace (h _ hmem)).1 rfl
  · simp at hmem

/-- No placeholder begins inside another. -/
theorem isPrefixOf_inside {p q : Placeholder} {s t : List Char} (hp : placeholderAt? s = some p)
    (hq : placeholderAt? t = some q) {x y : List Char} (hxy : q.text.toList = x ++ y)
    (hx : x ≠ []) (hy : y ≠ []) (after : List Char) :
    p.text.toList.isPrefixOf (y ++ after) = false := by
  refine Bool.eq_false_iff.2 fun hpre => ?_
  obtain ⟨inner, hptext, -⟩ := text_eq_of_placeholderAt? hp
  obtain ⟨inner', hqtext, hinner'⟩ := text_eq_of_placeholderAt? hq
  have hno := not_mem_of_braceFree hinner'
  obtain ⟨rest, hrest⟩ := List.isPrefixOf_iff_prefix.1 hpre
  obtain ⟨c, x, rfl⟩ := List.exists_cons_of_ne_nil hx
  obtain ⟨d, y, rfl⟩ := List.exists_cons_of_ne_nil hy
  rw [hptext] at hrest
  obtain rfl : '\x7b' = d := (List.cons.inj hrest).1
  have hsecond := (List.cons.inj hrest).2
  rw [hqtext] at hxy
  have hxy := (List.cons.inj hxy).2
  refine hno ?_
  cases x with
  | nil =>
    rw [(List.cons.inj hxy).2]
    cases y with
    | nil =>
      have hlength := congrArg List.length (List.cons.inj hxy).2
      simp at hlength
    | cons e y => exact (List.cons.inj hsecond).1 ▸ List.mem_cons_self
  | cons e x =>
    rw [(List.cons.inj hxy).2]
    simp

/-- Nor does one placeholder begin anywhere in the text of another. -/
theorem isPrefixOf_within {p q : Placeholder} (hp : placeholderAt? p.text.toList = some p)
    (hq : placeholderAt? q.text.toList = some q) (hne : q ≠ p) {x y : List Char}
    (hxy : q.text.toList = x ++ y) (hy : y ≠ []) (after : List Char) :
    p.text.toList.isPrefixOf (y ++ after) = false := by
  cases x with
  | cons c x => exact isPrefixOf_inside hp hq hxy (List.cons_ne_nil c x) hy after
  | nil =>
    obtain rfl : y = q.text.toList := hxy.symm
    refine Bool.eq_false_iff.2 fun hpre => hne ?_
    obtain ⟨rest, hrest⟩ := List.isPrefixOf_iff_prefix.1 hpre
    have hboth := (placeholderAt?_eq_some hp).2 rest
    rw [hrest, (placeholderAt?_eq_some hq).2 after] at hboth
    exact Option.some.inj hboth

/-! ## Pieces that are read as they are written -/

/-- A piece that is found again where it is written: a character that is no brace, or the text of
a placeholder. -/
def Piece.Sound : Piece → Prop
  | .char c => isBrace c = false
  | .hole p => placeholderAt? p.text.toList = some p

def written (ps : List Piece) : List Char :=
  ps.flatMap (Piece.expanded fun _ => none)

@[simp] theorem written_nil : written [] = [] := rfl

@[simp] theorem written_char (c : Char) (ps : List Piece) :
    written (.char c :: ps) = c :: written ps := rfl

@[simp] theorem written_hole (p : Placeholder) (ps : List Piece) :
    written (.hole p :: ps) = p.text.toList ++ written ps := rfl

@[simp] theorem written_append (ps qs : List Piece) :
    written (ps ++ qs) = written ps ++ written qs :=
  List.flatMap_append

@[simp] theorem written_map_char (s : List Char) : written (s.map .char) = s := by
  induction s with
  | nil => rfl
  | cons c s ih => rw [List.map_cons, written_char, ih]

theorem written_pieces (s : String) : written (pieces s) = s.toList :=
  flatMap_piecesFrom 0 s.toList

theorem placeholderAt?_of_ne {c : Char} (h : c ≠ '\x7b') (s : List Char) :
    placeholderAt? (c :: s) = none := by
  unfold placeholderAt?
  split
  · rename_i heq
    exact absurd (List.cons.inj heq).1 h
  · rfl

theorem piecesFrom_length_append (a s : List Char) :
    piecesFrom a.length (a ++ s) = piecesFrom 0 s := by
  induction a with
  | nil => rfl
  | cons c a ih => exact ih

theorem piecesFrom_text {p : Placeholder} (hp : placeholderAt? p.text.toList = some p)
    (s : List Char) : piecesFrom 0 (p.text.toList ++ s) = .hole p :: piecesFrom 0 s := by
  have hat := (placeholderAt?_eq_some hp).2 s
  cases htext : p.text.toList with
  | nil => exact absurd htext (text_ne_nil hp)
  | cons c text =>
    have hlength : p.text.length - 1 = text.length := by
      rw [← String.length_toList, htext]
      simp
    rw [htext, List.cons_append] at hat
    rw [List.cons_append, piecesFrom, hat]
    dsimp only
    rw [hlength, piecesFrom_length_append]

/-- Sound pieces are found again in their text. -/
theorem piecesFrom_written {ps : List Piece} (h : ∀ x ∈ ps, x.Sound) :
    piecesFrom 0 (written ps) = ps := by
  induction ps with
  | nil => rfl
  | cons x ps ih =>
    have hx := h x List.mem_cons_self
    have ih := ih fun y hy => h y (List.mem_cons_of_mem _ hy)
    cases x with
    | char c =>
      rw [written_char, piecesFrom, placeholderAt?_of_ne (ne_brace_of_isBrace hx).1]
      dsimp only
      rw [ih]
    | hole p => rw [written_hole, piecesFrom_text hx, ih]

theorem Covered.sound {s : String} (h : Covered s) : ∀ x ∈ pieces s, x.Sound := by
  intro x hx
  cases x with
  | char c => exact h _ hx
  | hole p => exact (spells_of_mem hx).placeholderAt?_text

theorem covered_of_sound {s : String} (h : ∀ x ∈ pieces s, x.Sound) : Covered s := by
  intro x hx
  cases x with
  | char c => exact h _ hx
  | hole p => trivial

theorem BraceFree.pieces_eq {s : String} (h : BraceFree s) :
    pieces s = s.toList.map .char := by
  have hsound : ∀ x ∈ s.toList.map Piece.char, x.Sound := by
    intro x hx
    obtain ⟨c, hc, rfl⟩ := List.mem_map.1 hx
    exact h c hc
  have hread := piecesFrom_written hsound
  rwa [written_map_char] at hread

/-! ## Replacing one placeholder -/

def Piece.replaced (p : Placeholder) (value : String) : Piece → List Piece
  | .char c => [.char c]
  | .hole q => if q = p then value.toList.map .char else [.hole q]

theorem replaceFrom_text {p : Placeholder} (hp : placeholderAt? p.text.toList = some p)
    (new s : List Char) : replaceFrom p.text.toList new 0 (p.text.toList ++ s) =
      new ++ replaceFrom p.text.toList new 0 s :=
  replaceAll_old_append (text_ne_nil hp) new s

theorem replaceFrom_text_of_ne {p q : Placeholder} (hp : placeholderAt? p.text.toList = some p)
    (hq : placeholderAt? q.text.toList = some q) (hne : q ≠ p) (new s : List Char) :
    replaceFrom p.text.toList new 0 (q.text.toList ++ s) =
      q.text.toList ++ replaceFrom p.text.toList new 0 s :=
  replaceAll_append_of_not new fun _ _ hxy hy => isPrefixOf_within hp hq hne hxy hy s

/-- To replace a placeholder in a text is to replace it among the pieces. -/
theorem replaceFrom_written {p : Placeholder} (hp : placeholderAt? p.text.toList = some p)
    (value : String) {ps : List Piece} (h : ∀ x ∈ ps, x.Sound) :
    replaceFrom p.text.toList value.toList 0 (written ps) =
      written (ps.flatMap (Piece.replaced p value)) := by
  induction ps with
  | nil => rfl
  | cons x ps ih =>
    have hx := h x List.mem_cons_self
    have ih := ih fun y hy => h y (List.mem_cons_of_mem _ hy)
    rw [List.flatMap_cons, written_append, ← ih]
    cases x with
    | char c =>
      have hstart : p.text.toList.isPrefixOf (c :: written ps) = false := by
        obtain ⟨a, hatext, -⟩ := text_eq_of_placeholderAt? hp
        rw [hatext, List.isPrefixOf, beq_false_of_ne (ne_brace_of_isBrace hx).1.symm,
          Bool.false_and]
      exact replaceAll_cons hstart value.toList
    | hole q =>
      rw [written_hole]
      by_cases hq : q = p
      · subst hq
        rw [replaceFrom_text hp]
        simp [Piece.replaced]
      · rw [replaceFrom_text_of_ne hp hx hq]
        simp [Piece.replaced, hq]

theorem Piece.Sound.replaced {x : Piece} (h : x.Sound) (p : Placeholder) {value : String}
    (hvalue : BraceFree value) : ∀ y ∈ x.replaced p value, y.Sound := by
  intro y hy
  cases x with
  | char c =>
    obtain rfl := List.mem_singleton.1 hy
    exact h
  | hole q =>
    rw [Piece.replaced] at hy
    split at hy
    · obtain ⟨c, hc, rfl⟩ := List.mem_map.1 hy
      exact hvalue c hc
    · obtain rfl := List.mem_singleton.1 hy
      exact h

/-- A replacement touches no other piece, and what it brings in reads as single characters. -/
theorem pieces_replaceText {s : String} (hs : Covered s) {p : Placeholder}
    (hp : placeholderAt? p.text.toList = some p) {value : String} (hvalue : BraceFree value) :
    pieces (replaceText s p.text value) = (pieces s).flatMap (Piece.replaced p value) := by
  have hsound : ∀ y ∈ (pieces s).flatMap (Piece.replaced p value), y.Sound := by
    intro y hy
    obtain ⟨x, hx, hy⟩ := List.mem_flatMap.1 hy
    exact (hs.sound x hx).replaced p hvalue y hy
  have htext : (replaceText s p.text value).toList =
      written ((pieces s).flatMap (Piece.replaced p value)) := by
    rw [← replaceFrom_written hp value hs.sound, written_pieces, replaceText, replaceAll,
      String.toList_ofList]
  rw [pieces, htext, piecesFrom_written hsound]

theorem Covered.replaceText {s : String} (hs : Covered s) {p : Placeholder}
    (hp : placeholderAt? p.text.toList = some p) {value : String} (hvalue : BraceFree value) :
    Covered (replaceText s p.text value) := by
  refine covered_of_sound fun y hy => ?_
  rw [pieces_replaceText hs hp hvalue] at hy
  obtain ⟨x, hx, hy⟩ := List.mem_flatMap.1 hy
  exact (hs.sound x hx).replaced p hvalue y hy

theorem mem_find_replaceText {s : String} (hs : Covered s) {p : Placeholder}
    (hp : placeholderAt? p.text.toList = some p) {value : String} (hvalue : BraceFree value)
    {q : Placeholder} : q ∈ find (replaceText s p.text value) ↔ q ∈ find s ∧ q ≠ p := by
  rw [mem_find_iff, mem_find_iff, pieces_replaceText hs hp hvalue, List.mem_flatMap]
  constructor
  · rintro ⟨x, hx, hy⟩
    cases x with
    | char c => cases List.mem_singleton.1 hy
    | hole r =>
      rw [Piece.replaced] at hy
      split at hy
      · obtain ⟨c, -, hc⟩ := List.mem_map.1 hy
        cases hc
      · rename_i hr
        cases List.mem_singleton.1 hy
        exact ⟨hx, hr⟩
  · rintro ⟨hq, hne⟩
    exact ⟨_, hq, by simp [Piece.replaced, hne]⟩

/-! ## Replacing them all -/

/-- A placeholder of this name is to stay as it is. -/
def Stays (values : Dictionary) (unset : Unset) (name : String) : Prop :=
  values.get? name = none ∧ unset = .keep

def BraceFreeValues (values : Dictionary) : Prop :=
  ∀ e ∈ values.entries, BraceFree e.2

instance (values : Dictionary) : Decidable (BraceFreeValues values) :=
  List.decidableBAll (fun e : String × String => BraceFree e.2) values.entries

theorem BraceFreeValues.get? {values : Dictionary} (h : BraceFreeValues values)
    {name value : String} (hget : values.get? name = some value) : BraceFree value := by
  obtain ⟨before, behind, hentries, -⟩ := List.lookup_eq_some_iff.1 hget
  exact h (name, value) (by simp [hentries])

section Filled

variable {values : Dictionary} (hvalues : BraceFreeValues values) (unset : Unset)

include hvalues

theorem replacePlaceholder_covered {s : String} (hs : Covered s) {p : Placeholder}
    (hp : placeholderAt? p.text.toList = some p) :
    Covered (replacePlaceholder values unset s p) ∧
      ∀ q, q ∈ find (replacePlaceholder values unset s p) ↔
        q ∈ find s ∧ (q = p → Stays values unset q.name) := by
  unfold replacePlaceholder
  cases hvalue : values.get? p.name with
  | some value =>
    have hfree := hvalues.get? hvalue
    refine ⟨hs.replaceText hp hfree, fun q => ?_⟩
    rw [mem_find_replaceText hs hp hfree]
    refine and_congr_right fun _ => ⟨fun hne heq => absurd heq hne, ?_⟩
    rintro hstays rfl
    simpa [hvalue] using (hstays rfl).1
  | none =>
    cases unset with
    | keep =>
      refine ⟨hs, fun q => ⟨fun hq => ⟨hq, ?_⟩, And.left⟩⟩
      rintro rfl
      exact ⟨hvalue, rfl⟩
    | remove =>
      have hfree : BraceFree "" := nofun
      refine ⟨hs.replaceText hp hfree, fun q => ?_⟩
      rw [mem_find_replaceText hs hp hfree]
      exact and_congr_right fun _ => ⟨fun hne heq => absurd heq hne, fun h heq => nomatch (h heq).2⟩

/-- One placeholder after another, each replacement leaves the others alone. -/
theorem foldl_replacePlaceholder_covered {ps : List Placeholder} {s : String} (hs : Covered s)
    (hps : ∀ p ∈ ps, placeholderAt? p.text.toList = some p) :
    Covered (ps.foldl (replacePlaceholder values unset) s) ∧
      ∀ q, q ∈ find (ps.foldl (replacePlaceholder values unset) s) ↔
        q ∈ find s ∧ (q ∈ ps → Stays values unset q.name) := by
  induction ps generalizing s with
  | nil => exact ⟨hs, fun q => by simp⟩
  | cons p ps ih =>
    obtain ⟨hs', hfind⟩ := replacePlaceholder_covered hvalues unset hs (hps p List.mem_cons_self)
    obtain ⟨hcovered, hrest⟩ := ih hs' fun q hq => hps q (List.mem_cons_of_mem _ hq)
    refine ⟨hcovered, fun q => ?_⟩
    rw [List.foldl_cons, hrest, hfind, and_assoc, ← or_imp, List.mem_cons]

theorem mem_find_fillString {s w : String} (hs : Covered s)
    (h : fillString values unset s = some w) {q : Placeholder} :
    q ∈ find w ↔ q ∈ find s ∧ Stays values unset q.name := by
  unfold fillString at h
  cases hwhole : whole? s with
  | some p =>
    obtain ⟨hfind, -⟩ := whole?_eq_some hwhole
    rw [hwhole] at h
    cases hvalue : values.get? p.name with
    | some value =>
      obtain rfl : value = w := by simpa [hvalue] using h
      rw [mem_find_iff, (hvalues.get? hvalue).pieces_eq, hfind, List.mem_singleton]
      refine ⟨fun hq => by simp at hq, ?_⟩
      rintro ⟨rfl, hstays, -⟩
      simp [hvalue] at hstays
    | none =>
      cases unset with
      | remove => simp [hvalue] at h
      | keep =>
        obtain rfl : s = w := by simpa [hvalue] using h
        rw [hfind, List.mem_singleton]
        refine ⟨?_, And.left⟩
        rintro rfl
        exact ⟨rfl, hvalue, rfl⟩
  | none =>
    rw [hwhole] at h
    cases h
    have hat : ∀ p ∈ find s, placeholderAt? p.text.toList = some p :=
      fun p hp => hs.sound _ (mem_find_iff.1 hp)
    rw [(foldl_replacePlaceholder_covered hvalues unset hs hat).2 q]
    exact ⟨fun h => ⟨h.1, h.2 h.1⟩, fun h => ⟨h.1, fun _ => h.2⟩⟩

end Filled

end Scaffold.Template
