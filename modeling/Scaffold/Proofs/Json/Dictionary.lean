import Scaffold.Json.Dictionary
import Scaffold.Proofs.Text.Dictionary

/-!
# Dictionaries that are read back

Reading undoes writing: `ofJson?_toJson` says that the text of a dictionary holds that
dictionary. The way there follows the format: a character as it stands in a string, a string
between its quotes, the members of an object, the object.
-/

namespace Scaffold.Json

open Scaffold.Text

/-! ## Characters and strings -/

theorem tokensFrom_skip (acc? : Option (List Char)) (x s : List Char) :
    tokensFrom acc? x.length (x ++ s) = tokensFrom acc? 0 s := by
  induction x with
  | nil => rfl
  | cons c x ih =>
    rw [List.cons_append, List.length_cons]
    cases acc? <;> exact ih

theorem read?_hexPair {n : Nat} (h : n < 0x20) :
    Number.read? 16 ('0' :: '0' :: hexPair n) = some n := by
  have hall : ∀ m < 0x20, Number.read? 16 ('0' :: '0' :: hexPair m) = some m := by decide
  exact hall n h

theorem escape?_hexPair {c : Char} (h : c.toNat < 0x20) (s : List Char) :
    escape? ('u' :: '0' :: '0' :: hexPair c.toNat ++ s) = some (c, 5) := by
  have hunit : codeUnit? ('u' :: '0' :: '0' :: hexPair c.toNat ++ s) = some c.toNat :=
    read?_hexPair h
  have hlow : c.toNat < 0xD800 := by omega
  have hchar : Char.ofNat c.toNat = c := Char.ofNat_toNat c
  unfold escape?
  rw [hunit]
  simp [escapedChar?, hlow, hchar]

theorem tokensFrom_escaped (acc : List Char) (c : Char) (s : List Char) :
    tokensFrom (some acc) 0 (escaped c ++ s) = tokensFrom (some (c :: acc)) 0 s := by
  unfold escaped
  split
  case h_8 h1 h2 h3 h4 h5 h6 h7 =>
    split
    · rename_i hcontrol
      have hskip := tokensFrom_skip (some (c :: acc)) ('u' :: '0' :: '0' :: hexPair c.toNat) s
      have hescape := escape?_hexPair hcontrol s
      simp only [List.cons_append] at hescape hskip ⊢
      simp only [tokensFrom, hescape]
      exact hskip
    · rename_i hplain
      have hquote : (c == '"') = false := by simpa using h1
      have hslash : (c == '\\') = false := by simpa using h2
      simp only [List.cons_append, List.nil_append, tokensFrom, hquote, hslash, hplain, if_false,
        Bool.false_eq_true]
  all_goals simp [tokensFrom, escape?, escapedChar?]

theorem tokensFrom_flatMap_escaped (acc cs s : List Char) :
    tokensFrom (some acc) 0 (cs.flatMap escaped ++ s) =
      tokensFrom (some (cs.reverse ++ acc)) 0 s := by
  induction cs generalizing acc with
  | nil => rfl
  | cons c cs ih =>
    rw [List.flatMap_cons, List.append_assoc, tokensFrom_escaped, ih]
    simp

theorem tokensFrom_quoted (s : String) (rest : List Char) :
    tokensFrom none 0 (quoted s ++ rest) = (tokensFrom none 0 rest).map (.text s :: ·) := by
  have hquote : isBlank '"' = false := by decide
  unfold quoted
  simp only [List.cons_append, List.append_assoc, List.nil_append, tokensFrom, hquote,
    Bool.false_eq_true, if_false, beq_self_eq_true, if_true]
  rw [tokensFrom_flatMap_escaped]
  simp [tokensFrom]

/-! ## Members and objects -/

def tokensOf : List (String × String) → List Token
  | [] => []
  | [e] => [.text e.1, .colon, .text e.2]
  | e :: es => .text e.1 :: .colon :: .text e.2 :: .comma :: tokensOf es

theorem tokensFrom_blank {c : Char} (h : isBlank c = true) (s : List Char) :
    tokensFrom none 0 (c :: s) = tokensFrom none 0 s := by
  rw [tokensFrom, if_pos h]

theorem tokensFrom_punctuation {c : Char} {t : Token} (h : punctuation? c = some t)
    (s : List Char) : tokensFrom none 0 (c :: s) = (tokensFrom none 0 s).map (t :: ·) := by
  have hblank : isBlank c = false ∧ (c == '"') = false := by
    unfold punctuation? at h
    split at h
    case h_5 => cases h
    all_goals decide
  rw [tokensFrom, hblank.1, hblank.2, h]
  rfl

theorem tokensFrom_member (e : String × String) (rest : List Char) :
    tokensFrom none 0 (member e ++ rest) =
      (tokensFrom none 0 rest).map fun ts => .text e.1 :: .colon :: .text e.2 :: ts := by
  have hcolon : punctuation? ':' = some .colon := rfl
  unfold member
  rw [List.append_assoc, tokensFrom_quoted, List.cons_append, tokensFrom_punctuation hcolon,
    List.cons_append, tokensFrom_blank (by decide), tokensFrom_quoted]
  simp [Function.comp_def]

theorem tokensFrom_members (es : List (String × String)) (rest : List Char) :
    tokensFrom none 0 (members es ++ rest) =
      (tokensFrom none 0 rest).map (tokensOf es ++ ·) := by
  have hspace : isBlank ' ' = true ∧ isBlank '\n' = true := by decide
  have hcomma : punctuation? ',' = some .comma := rfl
  induction es with
  | nil => simp [members, tokensOf]
  | cons e es ih =>
    cases es with
    | nil =>
      simp only [members, tokensOf, List.cons_append, List.append_assoc, List.nil_append,
        tokensFrom_blank hspace.1, tokensFrom_blank hspace.2, tokensFrom_member]
    | cons f es =>
      simp only [members, tokensOf, List.cons_append, List.append_assoc,
        tokensFrom_blank hspace.1, tokensFrom_member, tokensFrom_punctuation hcomma,
        tokensFrom_blank hspace.2]
      rw [ih]
      simp [Function.comp_def]

theorem membersOf?_tokensOf {es : List (String × String)} (hne : es ≠ []) :
    membersOf? (tokensOf es ++ [.objectEnd]) = some es := by
  induction es with
  | nil => exact absurd rfl hne
  | cons e es ih =>
    cases es with
    | nil => rfl
    | cons f es =>
      rw [tokensOf, List.cons_append, List.cons_append, List.cons_append, List.cons_append,
        membersOf?, ih (List.cons_ne_nil f es)]
      · rfl
      · exact nofun

theorem objectOf?_object (es : List (String × String)) :
    (tokensFrom none 0 (object es).toList).bind objectOf? = some es := by
  have hstart : punctuation? '\x7b' = some .objectStart := rfl
  have hend : punctuation? '\x7d' = some .objectEnd := rfl
  cases es with
  | nil => decide
  | cons e es =>
    have htokens : tokensFrom none 0 (object (e :: es)).toList =
        some (.objectStart :: (tokensOf (e :: es) ++ [.objectEnd])) := by
      unfold object
      rw [String.toList_ofList, List.cons_append, tokensFrom_punctuation hstart, List.cons_append,
        tokensFrom_blank (by decide), tokensFrom_members, tokensFrom_punctuation hend]
      rfl
    rw [htokens, Option.bind_some]
    have hmembers := membersOf?_tokensOf (List.cons_ne_nil e es)
    unfold objectOf?
    split
    · rename_i hsame
      cases es <;> cases hsame
    · rename_i ts _ hsame
      obtain ⟨-, rfl⟩ := List.cons.inj hsame
      exact hmembers
    · rename_i hno
      exact absurd rfl (hno _)

end Scaffold.Json

namespace Scaffold.Text.Dictionary

/-- What was written is read as what it was. -/
theorem ofJson?_toJson (d : Dictionary) : ofJson? d.toJson = some d := by
  unfold ofJson? toJson
  rw [Json.objectOf?_object, Option.map_some, ofList_entries]

end Scaffold.Text.Dictionary
