import Scaffold.Number.Digits
import Scaffold.Proofs.Source.Quotes

/-!
# What literals mean

A literal of Python is a text between two quotes, in which the quote stands only behind a backslash
(`Enclosed`). `unquote` gives that text as it is written. What the literal means is another text:
breaks of all kinds are one, and unless the literal is raw, escapes stand for characters
(`denotes?`). An escape is longer than what it stands for, so the two texts are the same if there is
neither a carriage return nor an escape, and only then (`StringLiteral.denotes?_eq_iff`).
-/

namespace Scaffold.Source

/-! ## Escapes -/

inductive Escape where
  /-- no literal has such an escape -/
  | malformed
  /-- the backslash stands for itself -/
  | unknown
  /-- the backslash and as many characters behind it stand for code points -/
  | stands (codes : List Nat) (length : Nat)

/-- What one character behind a backslash stands for; a break stands for nothing. -/
def simpleEscape? : Char → Option (List Nat)
  | '\n' => some []
  | '\\' => some [0x5C]
  | '\'' => some [0x27]
  | '"' => some [0x22]
  | 'a' => some [0x07]
  | 'b' => some [0x08]
  | 'f' => some [0x0C]
  | 'n' => some [0x0A]
  | 'r' => some [0x0D]
  | 't' => some [0x09]
  | 'v' => some [0x0B]
  | _ => none

def octalDigits : List Char := "01234567".toList

def escapeLetters : List Char :=
  "\n\\'\"abfnrtv".toList ++ octalDigits ++ "xuUN".toList

namespace Escape

/-- The escape that ends with the digits of a code point, `skipped` characters behind its
backslash. -/
def ofDigits (base skipped : Nat) (digits : List Char) : Escape :=
  match Number.read? base digits with
  | some n => if n ≤ 0x10FFFF then .stands [n] (skipped + digits.length) else .malformed
  | none => .malformed

def hex (count : Nat) (s : List Char) : Escape :=
  if (s.take count).length = count then ofDigits 16 1 (s.take count) else .malformed

def named (codeOf? : List Char → Option Nat) : List Char → Escape
  | '\x7b' :: s =>
    let name := s.takeWhile (· != '\x7d')
    match codeOf? name with
    | some n => if name.length < s.length then .stands [n] (name.length + 3) else .malformed
    | none => .malformed
  | _ => .malformed

def read (codeOf? : List Char → Option Nat) : List Char → Escape
  | [] => .malformed
  | c :: s =>
    match simpleEscape? c with
    | some codes => .stands codes 1
    | none =>
      if octalDigits.contains c then
        ofDigits 8 0 (((c :: s).take 3).takeWhile fun d => octalDigits.contains d)
      else
        match c with
        | 'x' => hex 2 s
        | 'u' => hex 4 s
        | 'U' => hex 8 s
        | 'N' => named codeOf? s
        | _ => .unknown

/-- What stands for a code point or none is longer than that. -/
def IsShort : Escape → Prop
  | .malformed => True
  | .unknown => False
  | .stands codes length => codes.length ≤ 1 ∧ 0 < length

variable {codeOf? : List Char → Option Nat}

theorem isShort_ofDigits {base skipped : Nat} {digits : List Char}
    (h : 0 < skipped + digits.length) : (ofDigits base skipped digits).IsShort := by
  unfold ofDigits
  cases Number.read? base digits with
  | none => trivial
  | some n =>
    dsimp only
    split
    · exact ⟨Nat.le_refl 1, h⟩
    · trivial

theorem isShort_hex (count : Nat) (s : List Char) : (hex count s).IsShort := by
  unfold hex
  split
  · exact isShort_ofDigits (by omega)
  · trivial

theorem isShort_named (s : List Char) : (named codeOf? s).IsShort := by
  unfold named
  split
  · rename_i s
    dsimp only
    cases codeOf? (s.takeWhile (· != '\x7d')) with
    | none => trivial
    | some n =>
      dsimp only
      split
      · exact ⟨Nat.le_refl 1, by omega⟩
      · trivial
  · trivial

theorem of_simpleEscape? {c : Char} {codes : List Nat} (h : simpleEscape? c = some codes) :
    c ∈ escapeLetters ∧ codes.length ≤ 1 := by
  unfold simpleEscape? at h
  split at h
  case h_12 => cases h
  all_goals
    obtain rfl := Option.some.inj h
    decide

theorem read_cons (c : Char) (s : List Char) :
    c ∈ escapeLetters ∧ (read codeOf? (c :: s)).IsShort ∨
      c ∉ escapeLetters ∧ read codeOf? (c :: s) = .unknown := by
  have hkinds : escapeLetters.all (fun d => (simpleEscape? d).isSome || octalDigits.contains d ||
      "xuUN".toList.contains d) = true := by decide
  unfold read
  dsimp only
  cases hsimple : simpleEscape? c with
  | some codes =>
    obtain ⟨hc, hcodes⟩ := of_simpleEscape? hsimple
    exact .inl ⟨hc, hcodes, Nat.one_pos⟩
  | none =>
    dsimp only
    split
    · rename_i hoctal
      have hc : c ∈ escapeLetters :=
        List.mem_append_left _ (List.mem_append_right _ (by simpa using hoctal))
      refine .inl ⟨hc, isShort_ofDigits ?_⟩
      rw [List.take_succ_cons, List.takeWhile_cons_of_pos hoctal]
      simp
    · rename_i hoctal
      split
      · exact .inl ⟨by decide, isShort_hex 2 s⟩
      · exact .inl ⟨by decide, isShort_hex 4 s⟩
      · exact .inl ⟨by decide, isShort_hex 8 s⟩
      · exact .inl ⟨by decide, isShort_named s⟩
      · rename_i hx hu hU hN
        refine .inr ⟨fun hc => ?_, rfl⟩
        have hkind := List.all_eq_true.1 hkinds c hc
        have hno : octalDigits.contains c = false := by simpa using hoctal
        rw [hsimple, hno] at hkind
        have hletter : c = 'x' ∨ c = 'u' ∨ c = 'U' ∨ c = 'N' := by simpa using hkind
        rcases hletter with h | h | h | h
        exacts [hx h, hu h, hU h, hN h]

end Escape

/-! ## Meanings -/

section

variable {codeOf? : List Char → Option Nat} {c : Char} {s : List Char} {v : List Nat}

/-- The text with its breaks as they are read: a carriage return, with a line feed behind it or
without, is a line feed. -/
def lineEnds : List Char → List Char
  | [] => []
  | '\r' :: '\n' :: s => '\n' :: lineEnds s
  | '\r' :: s => '\n' :: lineEnds s
  | c :: s => c :: lineEnds s

/-- Every break has a backslash before it. -/
def staysOnLine : List Char → Bool
  | [] => true
  | ['\\'] => true
  | '\\' :: _ :: s => staysOnLine s
  | c :: s => c != '\n' && staysOnLine s

/-- The code points that a text stands for, the first `skip` characters of it passed over. -/
def decodeFrom (codeOf? : List Char → Option Nat) : (skip : Nat) → List Char → Option (List Nat)
  | _, [] => some []
  | skip + 1, _ :: s => decodeFrom codeOf? skip s
  | 0, c :: s =>
    if c = '\\' then
      match Escape.read codeOf? s with
      | .malformed => none
      | .unknown => (decodeFrom codeOf? 0 s).map (c.toNat :: ·)
      | .stands codes length => (decodeFrom codeOf? length s).map (codes ++ ·)
    else (decodeFrom codeOf? 0 s).map (c.toNat :: ·)

/-- Somewhere a backslash stands before a character that begins an escape. -/
def HasEscape (s : List Char) : Prop :=
  ∃ c ∈ escapeLetters, ['\\', c] <:+: s

instance (s : List Char) : Decidable (HasEscape s) :=
  decidable_of_iff (escapeLetters.any (fun c => decide (['\\', c] <:+: s)) = true) (by
    simp [HasEscape])

theorem not_hasEscape_nil : ¬ HasEscape [] := by
  rintro ⟨c, -, h⟩
  simp at h

theorem hasEscape_cons :
    HasEscape (c :: s) ↔ (c = '\\' ∧ ∃ d ∈ escapeLetters, s.head? = some d) ∨ HasEscape s := by
  unfold HasEscape
  simp only [List.infix_cons_iff, List.cons_prefix_cons]
  constructor
  · rintro ⟨d, hd, ⟨rfl, hbegins⟩ | hinfix⟩
    · obtain ⟨rest, rfl⟩ := hbegins
      exact .inl ⟨rfl, d, hd, rfl⟩
    · exact .inr ⟨d, hd, hinfix⟩
  · rintro (⟨rfl, d, hd, hhead⟩ | ⟨d, hd, hinfix⟩)
    · obtain ⟨rest, rfl⟩ := List.head?_eq_some_iff.1 hhead
      exact ⟨d, hd, .inl ⟨rfl, rest, rfl⟩⟩
    · exact ⟨d, hd, .inr hinfix⟩

/-- What a text stands for is what its first character, or the escape that begins with it, stands
for, and what the rest does. -/
theorem decodeFrom_cons (h : decodeFrom codeOf? 0 (c :: s) = some v) :
    (∃ w, decodeFrom codeOf? 0 s = some w ∧ v = c.toNat :: w ∧
        (HasEscape (c :: s) ↔ HasEscape s)) ∨
      ∃ codes length w, decodeFrom codeOf? length s = some w ∧ v = codes ++ w ∧
        codes.length ≤ 1 ∧ 0 < length ∧ s ≠ [] ∧ HasEscape (c :: s) := by
  rw [decodeFrom] at h
  split at h
  · rename_i hslash
    cases s with
    | nil => cases h
    | cons d s =>
      rcases Escape.read_cons d s with ⟨hd, hshort⟩ | ⟨hd, hunknown⟩
      · cases hread : Escape.read codeOf? (d :: s) with
        | malformed =>
          rw [hread] at h
          cases h
        | unknown =>
          rw [hread] at hshort
          exact hshort.elim
        | stands codes length =>
          rw [hread] at h hshort
          obtain ⟨w, hw, rfl⟩ := Option.map_eq_some_iff.1 h
          obtain ⟨hcodes, hlength⟩ := hshort
          exact .inr ⟨codes, length, w, hw, rfl, hcodes, hlength, nofun,
            hasEscape_cons.2 (.inl ⟨hslash, d, hd, rfl⟩)⟩
      · rw [hunknown] at h
        obtain ⟨w, hw, rfl⟩ := Option.map_eq_some_iff.1 h
        refine .inl ⟨w, hw, rfl, hasEscape_cons.trans (or_iff_right ?_)⟩
        rintro ⟨-, e, he, hhead⟩
        exact hd (Option.some.inj hhead ▸ he)
  · rename_i hslash
    obtain ⟨w, hw, rfl⟩ := Option.map_eq_some_iff.1 h
    exact .inl ⟨w, hw, rfl, hasEscape_cons.trans (or_iff_right fun hc => hslash hc.1)⟩

theorem decodeFrom_nil (skip : Nat) : decodeFrom codeOf? skip [] = some [] := by
  cases skip <;> rfl

theorem length_le_of_decodeFrom {skip : Nat} (h : decodeFrom codeOf? skip s = some v) :
    v.length ≤ s.length - skip := by
  induction s generalizing skip v with
  | nil =>
    rw [decodeFrom_nil] at h
    obtain rfl := Option.some.inj h
    exact Nat.zero_le _
  | cons c s ih =>
    cases skip with
    | succ skip =>
      rw [List.length_cons, Nat.add_sub_add_right]
      exact ih h
    | zero =>
      rcases decodeFrom_cons h with ⟨w, hw, rfl, -⟩ | ⟨codes, length, w, hw, rfl, hcodes, -⟩
      · exact Nat.succ_le_succ (ih hw)
      · have hle := ih hw
        simp only [List.length_append, List.length_cons]
        omega

/-- A text without escapes stands for itself; one with escapes, for something shorter. -/
theorem decodeFrom_cases (h : decodeFrom codeOf? 0 s = some v) :
    (¬ HasEscape s ∧ v = s.map Char.toNat) ∨ (HasEscape s ∧ v.length < s.length) := by
  induction s generalizing v with
  | nil =>
    rw [decodeFrom_nil] at h
    exact .inl ⟨not_hasEscape_nil, (Option.some.inj h).symm⟩
  | cons c s ih =>
    rcases decodeFrom_cons h with
      ⟨w, hw, rfl, hiff⟩ | ⟨codes, length, w, hw, rfl, hcodes, hlength, hne, hescape⟩
    · rw [hiff]
      rcases ih hw with ⟨hno, rfl⟩ | ⟨hescape, hlt⟩
      · exact .inl ⟨hno, rfl⟩
      · exact .inr ⟨hescape, Nat.succ_lt_succ hlt⟩
    · have hle := length_le_of_decodeFrom hw
      have hpos := List.length_pos_iff.2 hne
      refine .inr ⟨hescape, ?_⟩
      simp only [List.length_append, List.length_cons]
      omega

theorem length_lineEnds_le (s : List Char) : (lineEnds s).length ≤ s.length := by
  fun_induction lineEnds s <;> simp only [List.length_cons, List.length_nil] <;> omega

theorem not_mem_lineEnds (s : List Char) : '\r' ∉ lineEnds s := by
  fun_induction lineEnds s <;> grind

theorem lineEnds_of_not_mem (h : '\r' ∉ s) : lineEnds s = s := by
  fun_induction lineEnds s <;> grind

theorem lineEnds_eq_iff : lineEnds s = s ↔ '\r' ∉ s :=
  ⟨fun h => h ▸ not_mem_lineEnds s, lineEnds_of_not_mem⟩

end

/-! ## Literals -/

/-- A literal without fields, by its parts. -/
structure StringLiteral where
  letters : List Char
  quote : List Char
  body : List Char
  letters_mem : letters ∈ [[], ['r'], ['R'], ['u'], ['U']]
  quote_mem : quote ∈ quotes
  enclosed : Enclosed quote body

namespace StringLiteral

def text (l : StringLiteral) : String :=
  String.ofList (l.letters ++ l.quote ++ l.body ++ l.quote)

/-- Backslashes stand for themselves. -/
def isRaw (l : StringLiteral) : Bool :=
  l.letters == ['r'] || l.letters == ['R']

/-- The code points of the text that the literal means, if it means one; `codeOf?` knows characters
by their names. -/
def denotes? (codeOf? : List Char → Option Nat) (l : StringLiteral) : Option (List Nat) :=
  let s := lineEnds l.body
  if l.quote.length = 1 && !staysOnLine s then none
  else if l.isRaw then some (s.map Char.toNat)
  else decodeFrom codeOf? 0 s

/-- Nothing between the quotes is read as something else. -/
def IsVerbatim (l : StringLiteral) : Prop :=
  '\r' ∉ l.body ∧ (l.isRaw = true ∨ ¬ HasEscape l.body)

instance (l : StringLiteral) : Decidable l.IsVerbatim :=
  inferInstanceAs (Decidable ('\r' ∉ l.body ∧ (l.isRaw = true ∨ ¬ HasEscape l.body)))

variable {l : StringLiteral}

theorem unquote_text (l : StringLiteral) : unquote l.text = String.ofList l.body := by
  have hletters : ∀ letters ∈ [[], ['r'], ['R'], ['u'], ['U']],
      letters.all mayPrecedeQuotes = true := by decide
  exact unquote_quoted (List.all_eq_true.1 (hletters l.letters l.letters_mem)) l.quote_mem
    fun _ => (l.enclosed.fits l.quote_mem).not_begins

/-- A literal means what stands between its quotes if all of that stands for itself, and only
then. -/
theorem denotes?_eq_iff {codeOf? : List Char → Option Nat} {v : List Nat}
    (h : l.denotes? codeOf? = some v) : l.body.map Char.toNat = v ↔ l.IsVerbatim := by
  have hmap : ∀ {s : List Char}, l.body.map Char.toNat = s.map Char.toNat ↔ l.body = s := fun {s} =>
    List.map_inj_right fun _ _ => Char.toNat_inj.1
  unfold denotes? at h
  unfold IsVerbatim
  dsimp only at h
  split at h
  · cases h
  split at h
  · rename_i hraw
    obtain rfl := Option.some.inj h
    rw [hmap, eq_comm, lineEnds_eq_iff]
    simp [hraw]
  · rename_i hraw
    rcases decodeFrom_cases h with ⟨hno, rfl⟩ | ⟨hescape, hlt⟩
    · rw [hmap, eq_comm, lineEnds_eq_iff]
      refine ⟨fun hbreak => ⟨hbreak, .inr ?_⟩, And.left⟩
      rwa [lineEnds_of_not_mem hbreak] at hno
    · have hle := length_lineEnds_le l.body
      constructor
      · rintro rfl
        rw [List.length_map] at hlt
        omega
      · rintro ⟨hbreak, h | h⟩
        · exact absurd h hraw
        · rw [lineEnds_of_not_mem hbreak] at hescape
          exact absurd hescape h

end StringLiteral

end Scaffold.Source
