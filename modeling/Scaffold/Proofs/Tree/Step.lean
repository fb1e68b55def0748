import Scaffold.Tree.Basic

/-!
# The steps of a walk

A walk goes one segment at a time, and what a segment does (`stepAt`) depends on the directory and
on what has the name there, and on nothing else. What a step tells about the tree and how it
changes when something is put into the tree is said here once; walks are followed step by step
(`walkUntilLink_cons`).
-/

namespace Scaffold.Tree

variable {t u : Tree} {k l m : Location} {s : String}

inductive Step where
  | blocked
  /-- nothing has the name -/
  | missing
  | on (l : Location)
  | link (target : String)

def stepAt (t : Tree) (l : Location) (s : String) : Step :=
  if !t.isDirectoryAt l then .blocked
  else if isIdle s then .on l
  else if s = ".." then .on l.tail
  else if longestName < s.utf8ByteSize then .blocked
  else
    match t.at? (s :: l) with
    | none => .missing
    | some (.link target) => .link target
    | some _ => .on (s :: l)

theorem walkUntilLink_cons (onLink : Location → String → String → List String → Arrival)
    (l : Location) (s : String) (rest : List String) :
    t.walkUntilLink onLink l (s :: rest) =
      match t.stepAt l s with
      | .blocked => .blocked
      | .missing => if rest.all (· == "") then .gap l s !rest.isEmpty else .missing
      | .on l' => t.walkUntilLink onLink l' rest
      | .link target => onLink l s target rest := by
  rw [walkUntilLink]
  unfold stepAt
  split
  · rfl
  split
  · rfl
  split
  · rfl
  split
  · rfl
  cases t.at? (s :: l) with
  | none => rfl
  | some e => cases e <;> rfl

/-! ## What a step tells -/

theorem isDirectoryAt_of_stepAt (h : t.stepAt l s ≠ .blocked) : t.isDirectoryAt l = true := by
  unfold stepAt at h
  split at h
  · exact absurd rfl h
  · rename_i hdir
    simpa using hdir

theorem stepAt_idle (hs : isIdle s = true) (hdir : t.isDirectoryAt l = true) :
    t.stepAt l s = .on l := by
  unfold stepAt
  rw [hdir, if_neg (by simp), if_pos hs]

theorem stepAt_name (hdir : t.isDirectoryAt l = true) (hidle : isIdle s = false) (hup : s ≠ "..")
    (hfits : s.utf8ByteSize ≤ longestName) {e : Entry} (hat : t.at? (s :: l) = some e)
    (he : ∀ target, e ≠ .link target) : t.stepAt l s = .on (s :: l) := by
  unfold stepAt
  rw [hdir, if_neg (by simp), hidle, if_neg Bool.false_ne_true, if_neg hup,
    if_neg (Nat.not_lt.2 hfits), hat]
  cases e with
  | link target => exact absurd rfl (he target)
  | file | directory => rfl

theorem stepAt_cases (t : Tree) (l : Location) (s : String) :
    t.stepAt l s = .blocked ∨ t.stepAt l s = .on l ∨ t.stepAt l s = .on l.tail ∨
      (isIdle s = false ∧ s ≠ ".." ∧ s.utf8ByteSize ≤ longestName) ∧
        t.stepAt l s = match t.at? (s :: l) with
          | none => .missing
          | some (.link target) => .link target
          | some _ => .on (s :: l) := by
  unfold stepAt
  split
  · exact .inl rfl
  split
  · exact .inr (.inl rfl)
  rename_i hidle
  split
  · exact .inr (.inr (.inl rfl))
  rename_i hup
  split
  · exact .inl rfl
  rename_i hlong
  exact .inr (.inr (.inr ⟨⟨by simpa using hidle, hup, Nat.not_lt.1 hlong⟩, rfl⟩))

theorem stepAt_eq_missing (h : t.stepAt l s = .missing) :
    (isIdle s = false ∧ s ≠ ".." ∧ s.utf8ByteSize ≤ longestName) ∧ t.at? (s :: l) = none := by
  rcases stepAt_cases t l s with hs | hs | hs | ⟨hname, hs⟩
  · rw [hs] at h; cases h
  · rw [hs] at h; cases h
  · rw [hs] at h; cases h
  · refine ⟨hname, ?_⟩
    rw [hs] at h
    split at h
    · assumption
    · cases h
    · cases h

theorem stepAt_eq_on (h : t.stepAt l s = .on m) :
    m = l ∨ m = l.tail ∨ m = s :: l ∧
      (isIdle s = false ∧ s ≠ ".." ∧ s.utf8ByteSize ≤ longestName) ∧
        ∃ e, t.at? (s :: l) = some e ∧ ∀ target, e ≠ .link target := by
  rcases stepAt_cases t l s with hs | hs | hs | ⟨hname, hs⟩
  · rw [hs] at h; cases h
  · rw [hs] at h; cases h; exact .inl rfl
  · rw [hs] at h; cases h; exact .inr (.inl rfl)
  · rw [hs] at h
    split at h
    · cases h
    · cases h
    · rename_i e hlink hat
      cases h
      exact .inr (.inr ⟨rfl, hname, e, hat, fun target he => hlink target he⟩)

theorem stepAt_eq_link {target : String} (h : t.stepAt l s = .link target) :
    t.at? (s :: l) = some (.link target) := by
  rcases stepAt_cases t l s with hs | hs | hs | ⟨-, hs⟩
  · rw [hs] at h; cases h
  · rw [hs] at h; cases h
  · rw [hs] at h; cases h
  · rw [hs] at h
    split at h
    · cases h
    · rename_i hat
      cases h
      exact hat
    · cases h

/-! ## Steps in a tree that changed -/

theorem stepAt_congr (hdir : u.isDirectoryAt l = t.isDirectoryAt l)
    (hat : u.at? (s :: l) = t.at? (s :: l)) : u.stepAt l s = t.stepAt l s := by
  unfold stepAt
  rw [hdir, hat]

theorem stepAt_filled (hdir : u.isDirectoryAt l = t.isDirectoryAt l) (hnone : t.at? (s :: l) = none)
    {e : Entry} (hat : u.at? (s :: l) = some e) (he : ∀ target, e ≠ .link target) :
    u.stepAt l s = t.stepAt l s ∨ t.stepAt l s = .missing ∧ u.stepAt l s = .on (s :: l) := by
  unfold stepAt
  rw [hdir, hnone, hat]
  split
  · exact .inl rfl
  split
  · exact .inl rfl
  split
  · exact .inl rfl
  split
  · exact .inl rfl
  cases e with
  | link target => exact absurd rfl (he target)
  | file | directory => exact .inr ⟨rfl, rfl⟩

theorem isDirectoryAt_put (hl : l ≠ []) (e : Entry) (hm : m ≠ l) :
    (t.put l e).isDirectoryAt m = t.isDirectoryAt m := by
  unfold isDirectoryAt
  rw [at?_put t hl, if_neg hm]

/-- Nothing or a file is at `k`. -/
def TakesFile (t : Tree) (k : Location) : Prop :=
  k ≠ [] ∧ ∀ e, t.at? k = some e → ∃ content, e = .file content

theorem isDirectoryAt_put_file (hk : t.TakesFile k) (content : ByteArray) (l : Location) :
    (t.put k (.file content)).isDirectoryAt l = t.isDirectoryAt l := by
  by_cases h : l = k
  · subst h
    have hput : (t.put l (.file content)).at? l = some (.file content) := by
      rw [at?_put t hk.1, if_pos rfl]
    unfold isDirectoryAt
    rw [hput]
    cases hat : t.at? l with
    | none => rfl
    | some e =>
      obtain ⟨before, rfl⟩ := hk.2 e hat
      rfl
  · exact isDirectoryAt_put hk.1 _ h

/-- A step is what it was when a file was written, but for the one to a file that is new. -/
theorem stepAt_put_file (hk : t.TakesFile k) (content : ByteArray) (l : Location) (s : String) :
    (t.put k (.file content)).stepAt l s = t.stepAt l s ∨
      s :: l = k ∧ t.stepAt l s = .missing ∧ (t.put k (.file content)).stepAt l s = .on k := by
  have hdir := isDirectoryAt_put_file hk content l
  have hput := at?_put t hk.1 (.file content) (s :: l)
  by_cases heq : s :: l = k
  · rw [if_pos heq] at hput
    cases hat : t.at? (s :: l) with
    | none =>
      rcases stepAt_filled hdir hat hput nofun with hsame | ⟨hmissing, hon⟩
      · exact .inl hsame
      · exact .inr ⟨heq, hmissing, heq ▸ hon⟩
    | some e =>
      obtain ⟨before, rfl⟩ := hk.2 e (heq ▸ hat)
      unfold stepAt
      rw [hdir, hat, hput]
      exact .inl rfl
  · rw [if_neg heq] at hput
    exact .inl (stepAt_congr hdir hput)

/-! ## Walks that arrive -/

/-- A walk that arrives goes on from each step, or is handed on at a link. -/
theorem walkUntilLink_eq_found {onLink : Location → String → String → List String → Arrival}
    {rest : List String} (h : t.walkUntilLink onLink l (s :: rest) = .found m) :
    (∃ l', t.stepAt l s = .on l' ∧ t.walkUntilLink onLink l' rest = .found m) ∨
      ∃ target, t.stepAt l s = .link target ∧ onLink l s target rest = .found m := by
  rw [walkUntilLink_cons] at h
  cases hstep : t.stepAt l s with
  | blocked => rw [hstep] at h; cases h
  | missing =>
    rw [hstep] at h
    dsimp only at h
    split at h <;> cases h
  | on l' => rw [hstep] at h; exact .inl ⟨l', rfl, h⟩
  | link target => rw [hstep] at h; exact .inr ⟨target, rfl, h⟩

/-! ## Segments that lead nowhere -/

theorem walkUntilLink_idle (onLink : Location → String → String → List String → Arrival)
    {start : List String} (hstart : ∀ s ∈ start, isIdle s = true) (hl : t.isDirectoryAt l = true)
    (segments : List String) :
    t.walkUntilLink onLink l (start ++ segments) = t.walkUntilLink onLink l segments := by
  induction start with
  | nil => rfl
  | cons s start ih =>
    rw [List.cons_append, walkUntilLink_cons, stepAt_idle (hstart s List.mem_cons_self) hl]
    exact ih fun x hx => hstart x (List.mem_cons_of_mem _ hx)

end Scaffold.Tree
