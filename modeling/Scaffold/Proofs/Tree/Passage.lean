import Scaffold.Proofs.Tree.Growth

/-!
# Walks in parts

A walk along two lists of segments is a walk along the one and then, with the links that are left,
along the other (`walkFrom_append`). So what a name leads to behind a path depends only on where
the path leads (`fromRoot_names_of_snoc`), and segments that lead nowhere may be put into the path
to a directory (`fromRoot_of_components`).
-/

namespace Scaffold.Tree

variable {t : Tree} {l m : Location} {links : Nat} {segments : List String} {s n : String}
  {p : Path}

theorem walkFrom_zero (l : Location) (segments : List String) :
    t.walkFrom true 0 l segments = t.walkUntilLink (fun _ _ _ _ => .blocked) l segments := by
  simp only [walkFrom, Bool.not_true, Bool.and_false, Bool.false_eq_true, if_false]

/-! ## One part after the other -/

/-- One stretch of a walk that arrives can be taken before the rest of the way. -/
theorem walkUntilLink_append {onLink : Location → String → String → List String → Arrival}
    (hrun : ∀ l segments, t.walkFrom true links l segments = t.walkUntilLink onLink l segments)
    (hlink : ∀ l s target rest, onLink l s target rest = .found m →
      ∃ left ≤ links, ∀ more, onLink l s target (rest ++ more) = t.walkFrom true left m more)
    (h : t.walkUntilLink onLink l segments = .found m) :
    ∃ left ≤ links, ∀ more,
      t.walkUntilLink onLink l (segments ++ more) = t.walkFrom true left m more := by
  induction segments generalizing l with
  | nil =>
    cases h
    exact ⟨links, Nat.le_refl _, fun more => (hrun _ more).symm⟩
  | cons s rest ih =>
    simp only [List.cons_append, walkUntilLink_cons (s := s) (l := l)]
    obtain ⟨l', hstep, h⟩ | ⟨target, hstep, h⟩ := walkUntilLink_eq_found h <;> rw [hstep]
    · exact ih h
    · exact hlink l s target rest h

theorem walkFrom_append (h : t.walkFrom true links l segments = .found m) :
    ∃ left ≤ links, ∀ more,
      t.walkFrom true links l (segments ++ more) = t.walkFrom true left m more := by
  induction links generalizing l segments with
  | zero =>
    simp only [walkFrom_zero] at h ⊢
    exact walkUntilLink_append walkFrom_zero nofun h
  | succ links ih =>
    have hlink : ∀ l (s : String) target rest,
        t.walkFrom true links (linkTarget l target).1 ((linkTarget l target).2 ++ rest) = .found m →
        ∃ left ≤ links + 1, ∀ more, t.walkFrom true links (linkTarget l target).1
          ((linkTarget l target).2 ++ (rest ++ more)) = t.walkFrom true left m more := by
      intro l s target rest h
      obtain ⟨left, hle, hmore⟩ := ih h
      exact ⟨left, Nat.le_succ_of_le hle, fun more => by rw [← List.append_assoc]; exact hmore more⟩
    simp only [walkFrom_succ] at h ⊢
    exact walkUntilLink_append (walkFrom_succ links) hlink h

theorem walkUntilLink_found {onLink onLink' : Location → String → String → List String → Arrival}
    (hlink : ∀ l s target rest, onLink l s target rest = .found m →
      onLink' l s target rest = .found m)
    (h : t.walkUntilLink onLink l segments = .found m) :
    t.walkUntilLink onLink' l segments = .found m := by
  induction segments generalizing l with
  | nil => exact h
  | cons s rest ih =>
    rw [walkUntilLink_cons]
    obtain ⟨l', hstep, h⟩ | ⟨target, hstep, h⟩ := walkUntilLink_eq_found h <;> rw [hstep]
    · exact ih h
    · exact hlink l s target rest h

theorem walkFrom_found_of_le {more : Nat} (hle : links ≤ more)
    (h : t.walkFrom true links l segments = .found m) :
    t.walkFrom true more l segments = .found m := by
  have hsucc : ∀ links l segments, t.walkFrom true links l segments = .found m →
      t.walkFrom true (links + 1) l segments = .found m := by
    intro links
    induction links with
    | zero =>
      intro l segments h
      rw [walkFrom_zero] at h
      rw [walkFrom_succ]
      refine walkUntilLink_found (fun l s target rest h => ?_) h
      cases h
    | succ links ih =>
      intro l segments h
      rw [walkFrom_succ] at h ⊢
      exact walkUntilLink_found (fun l s target rest => ih _ _) h
  induction hle with
  | refl => exact h
  | step _ ih => exact hsucc _ _ _ ih

/-! ## Segments that lead nowhere -/

/-- The first list is the second with segments put in that lead nowhere. -/
inductive Padded : List String → List String → Prop where
  | nil : Padded [] []
  | keep {a b : List String} (s : String) : Padded a b → Padded (s :: a) (s :: b)
  | idle {a b : List String} {s : String} : isIdle s = true → Padded a b → Padded (s :: a) b

theorem padded_components (segments : List String) :
    Padded segments (segments.filter fun s => !isIdle s) := by
  induction segments with
  | nil => exact .nil
  | cons s segments ih =>
    cases hs : isIdle s with
    | true => rw [List.filter_cons_of_neg (by simp [hs])]; exact .idle hs ih
    | false => rw [List.filter_cons_of_pos (by simp [hs])]; exact .keep s ih

theorem Padded.append_left {a b : List String} (h : Padded a b) (before : List String) :
    Padded (before ++ a) (before ++ b) := by
  induction before with
  | nil => exact h
  | cons s before ih => exact .keep s ih

theorem isDirectoryAt_of_walkUntilLink
    {onLink : Location → String → String → List String → Arrival}
    (h : t.walkUntilLink onLink l segments = .found m) (hm : t.isDirectoryAt m = true) :
    t.isDirectoryAt l = true := by
  cases segments with
  | nil =>
    cases h
    exact hm
  | cons s rest =>
    refine isDirectoryAt_of_stepAt (s := s) ?_
    obtain ⟨l', hstep, -⟩ | ⟨target, hstep, -⟩ := walkUntilLink_eq_found h <;> rw [hstep] <;> nofun

theorem walkUntilLink_padded {onLink onLink' : Location → String → String → List String → Arrival}
    (hm : t.isDirectoryAt m = true)
    (hlink : ∀ l s target a b, Padded a b → onLink l s target b = .found m →
      onLink' l s target a = .found m) {a b : List String} (hab : Padded a b)
    (h : t.walkUntilLink onLink l b = .found m) : t.walkUntilLink onLink' l a = .found m := by
  induction hab generalizing l with
  | nil => exact h
  | idle hs _ ih =>
    rw [walkUntilLink_cons, stepAt_idle hs (isDirectoryAt_of_walkUntilLink h hm)]
    exact ih h
  | @keep a b s hab ih =>
    rw [walkUntilLink_cons]
    obtain ⟨l', hstep, h⟩ | ⟨target, hstep, h⟩ := walkUntilLink_eq_found h <;> rw [hstep]
    · exact ih h
    · exact hlink l s target a b hab h

/-- Segments that lead nowhere may be put into the way to a directory. -/
theorem walkFrom_padded (hm : t.isDirectoryAt m = true) {a b : List String} (hab : Padded a b)
    (h : t.walkFrom true links l b = .found m) : t.walkFrom true links l a = .found m := by
  induction links generalizing l a b with
  | zero =>
    rw [walkFrom_zero] at h ⊢
    refine walkUntilLink_padded hm (fun l s target a b hab h => ?_) hab h
    cases h
  | succ links ih =>
    rw [walkFrom_succ] at h ⊢
    refine walkUntilLink_padded hm (fun l s target a b hab h => ?_) hab h
    exact ih (hab.append_left _) h

/-- No slash stands behind the place that a walk came to. -/
def Arrival.IsBare : Arrival → Prop
  | .found _ | .gap _ _ false => True
  | _ => False

theorem walkUntilLink_unpadded {onLink onLink' : Location → String → String → List String → Arrival}
    {x : Arrival} (hx : x.IsBare) (hlink : ∀ l s target a b, Padded a b →
      onLink l s target a = x → onLink' l s target b = x) {a b : List String} (hab : Padded a b)
    (h : t.walkUntilLink onLink l a = x) : t.walkUntilLink onLink' l b = x := by
  induction hab generalizing l with
  | nil => exact h
  | @idle a b s hs _ ih =>
    rw [walkUntilLink_cons] at h
    cases hdir : t.isDirectoryAt l with
    | true =>
      rw [stepAt_idle hs hdir] at h
      exact ih h
    | false =>
      rw [stepAt, hdir] at h
      exact absurd hx (h ▸ id)
  | @keep a b s hab ih =>
    rw [walkUntilLink_cons] at h ⊢
    cases hstep : t.stepAt l s with
    | blocked => rw [hstep] at h; exact h
    | missing =>
      rw [hstep] at h
      cases a with
      | nil =>
        cases hab
        exact h
      | cons y a =>
        -- what follows is a slash behind the gap, or is missing itself
        dsimp only at h
        split at h <;> exact absurd hx (h ▸ id)
    | on l' => rw [hstep] at h; exact ih h
    | link target => rw [hstep] at h; exact hlink l s target a b hab h

/-- Segments that lead nowhere may be taken from the way to a place, or to a gap that has no slash
behind it. -/
theorem walkFrom_unpadded {x : Arrival} (hx : x.IsBare) {a b : List String} (hab : Padded a b)
    (h : t.walkFrom true links l a = x) : t.walkFrom true links l b = x := by
  induction links generalizing l a b with
  | zero =>
    rw [walkFrom_zero] at h ⊢
    exact walkUntilLink_unpadded hx (fun l s target a b hab h => h) hab h
  | succ links ih =>
    rw [walkFrom_succ] at h ⊢
    refine walkUntilLink_unpadded hx (fun l s target a b hab h => ?_) hab h
    exact ih (hab.append_left _) h

theorem padded_append_idle {idle : List String} (hidle : ∀ s ∈ idle, isIdle s = true)
    (segments : List String) : Padded (segments ++ idle) segments := by
  have hnil : Padded idle [] := by
    induction idle with
    | nil => exact .nil
    | cons s idle ih =>
      exact .idle (hidle s List.mem_cons_self) (ih fun x hx => hidle x (List.mem_cons_of_mem _ hx))
  simpa using hnil.append_left segments

theorem walkFrom_idle {start : List String} (hstart : ∀ s ∈ start, isIdle s = true)
    (hl : t.isDirectoryAt l = true) (segments : List String) :
    t.walkFrom true links l (start ++ segments) = t.walkFrom true links l segments := by
  cases links with
  | zero => rw [walkFrom_zero, walkFrom_zero, walkUntilLink_idle _ hstart hl]
  | succ links => rw [walkFrom_succ, walkFrom_succ, walkUntilLink_idle _ hstart hl]

/-- To a directory leads also what a path was before it was tidied. -/
theorem fromRoot_of_components {start : List String} (hstart : ∀ s ∈ start, isIdle s = true)
    (h : t.fromRoot (start ++ p.components) = .found l) (hl : t.isDirectoryAt l = true) :
    t.fromRoot p.segments = .found l := by
  unfold fromRoot at h ⊢
  rw [walkFrom_idle hstart rfl] at h
  exact walkFrom_padded hl (padded_components p.segments) h

/-! ## A name behind a path -/

theorem found_of_snoc (hidle : isIdle n = false) (hup : n ≠ "..") {k : Location}
    (h : (t.fromRoot (segments ++ [n])).place? = some k) :
    ∃ l, t.fromRoot segments = .found l ∧ t.isDirectoryAt l = true := by
  have hsnoc := walkFrom_false_snoc (t := t) hidle hup mostLinks [] segments
  have hplace : ∃ k, (t.walkFrom false mostLinks [] (segments ++ [n])).place? = some k := by
    rcases walkFrom_follow (t := t) mostLinks [] (segments ++ [n]) with hsame | ⟨m, _, hm, -⟩
    · exact ⟨k, hsame ▸ h⟩
    · exact ⟨m, hm ▸ rfl⟩
  obtain ⟨k, hk⟩ := hplace
  rw [hsnoc] at hk
  unfold fromRoot
  cases hl : t.walkFrom true mostLinks [] segments with
  | found l =>
    rw [hl, Arrival.then, entering] at hk
    split at hk
    · cases hk
    · rename_i hdir
      exact ⟨l, rfl, by simpa using hdir⟩
  | _ => rw [hl] at hk; cases hk

/-- What a name leads to behind a path, it leads to behind the place that the path leads to. -/
theorem fromRoot_names_of_snoc (hl : t.Straight l) (h : t.fromRoot segments = .found l)
    (hn : t.fromRoot (segments ++ [n]) = .found m) :
    t.fromRoot (l.reverse ++ [n]) = .found m := by
  have hstraight : t.Straight (l.reverse.reverse ++ []) := by simpa using hl
  have hnames := walkFrom_names true mostLinks hstraight [n]
  simp only [List.reverse_reverse, List.append_nil] at hnames
  obtain ⟨left, hle, hmore⟩ := walkFrom_append h
  have hleft : t.walkFrom true left l [n] = .found m := (hmore [n]).symm.trans hn
  exact hnames.trans (walkFrom_found_of_le hle hleft)

/-! ## Names that can be spelled -/

/-- No link's target holds the character of code point zero, which no path can hold. -/
def Spellable (t : Tree) : Prop :=
  ∀ l target, t.at? l = some (.link target) → '\x00' ∉ target.toList

theorem mem_entries_of_link {target : String} (h : t.at? l = some (.link target)) :
    (l, .link target) ∈ t.entries := by
  cases l with
  | nil => cases h
  | cons n l =>
    obtain ⟨before, behind, hentries, -⟩ := List.lookup_eq_some_iff.1 h
    rw [hentries]
    simp

theorem spellable_of_entries (h : ∀ l target, (l, .link target) ∈ t.entries →
    '\x00' ∉ target.toList) : t.Spellable :=
  fun l target hl => h l target (mem_entries_of_link hl)

theorem Spellable.of_keeps {u : Tree} (h : t.Spellable) (hu : u.Keeps t) : u.Spellable :=
  fun l target hl => h l target (hu.link l target hl)

def NulFree (segments : List String) : Prop :=
  ∀ s ∈ segments, '\x00' ∉ s.toList

theorem any_nul_eq_false_iff :
    (segments.any fun s => s.toList.contains '\x00') = false ↔ NulFree segments := by
  rw [List.any_eq_false]
  simp [NulFree]

theorem NulFree.append {a b : List String} (ha : NulFree a) (hb : NulFree b) : NulFree (a ++ b) :=
  fun s hs => (List.mem_append.1 hs).elim (ha s) (hb s)

theorem NulFree.cons {s : String} {a : List String} (hs : '\x00' ∉ s.toList) (ha : NulFree a) :
    NulFree (s :: a) := by
  intro x hx
  rcases List.mem_cons.1 hx with rfl | hx
  · exact hs
  · exact ha x hx

theorem mem_of_mem_segmentsOf {text s : String} (hs : s ∈ segmentsOf text) {c : Char}
    (hc : c ∈ s.toList) : c ∈ text.toList := by
  have hparts : ∀ cs : List Char, ∀ part ∈ cs.splitOn '/', ∀ c ∈ part, c ∈ cs := by
    intro cs
    induction cs with
    | nil => simp
    | cons x cs ih =>
      rw [List.splitOn_cons_eq_if_modifyHead]
      split
      · intro part hpart c hc
        rcases List.mem_cons.1 hpart with rfl | hpart
        · cases hc
        · exact List.mem_cons_of_mem _ (ih part hpart c hc)
      · cases hsplit : cs.splitOn '/' with
        | nil => exact absurd hsplit (List.splitOn_ne_nil _ _)
        | cons first others =>
          rw [hsplit] at ih
          intro part hpart c hc
          rcases List.mem_cons.1 hpart with rfl | hpart
          · rcases List.mem_cons.1 hc with rfl | hc
            · exact List.mem_cons_self
            · exact List.mem_cons_of_mem _ (ih first List.mem_cons_self c hc)
          · exact List.mem_cons_of_mem _ (ih part (List.mem_cons_of_mem _ hpart) c hc)
  obtain ⟨part, hpart, rfl⟩ := List.mem_map.1 hs
  rw [String.toList_ofList] at hc
  exact hparts _ part hpart c hc

theorem nulFree_linkTarget {l : Location} (hl : NulFree l) {target : String}
    (h : '\x00' ∉ target.toList) :
    NulFree (linkTarget l target).1 ∧ NulFree (linkTarget l target).2 := by
  have hs : NulFree (segmentsOf target) := fun s hs hc => h (mem_of_mem_segmentsOf hs hc)
  unfold linkTarget
  split
  · rename_i next rest heq
    exact ⟨nofun, fun s hm => hs s (by rw [heq]; exact List.mem_cons_of_mem _ hm)⟩
  · exact ⟨hl, hs⟩

theorem walkUntilLink_nulFree {onLink : Location → String → String → List String → Arrival}
    (hlink : ∀ l s target rest, t.at? (s :: l) = some (.link target) → NulFree l → NulFree rest →
      onLink l s target rest = .found m → NulFree m) (hl : NulFree l) (hs : NulFree segments)
    (h : t.walkUntilLink onLink l segments = .found m) : NulFree m := by
  induction segments generalizing l with
  | nil =>
    cases h
    exact hl
  | cons s rest ih =>
    have hrest : NulFree rest := fun x hx => hs x (List.mem_cons_of_mem _ hx)
    obtain ⟨l', hstep, h⟩ | ⟨target, hstep, h⟩ := walkUntilLink_eq_found h
    · refine ih ?_ hrest h
      rcases stepAt_eq_on hstep with rfl | rfl | ⟨rfl, -⟩
      · exact hl
      · exact fun x hx => hl x (List.mem_of_mem_tail hx)
      · exact .cons (hs s List.mem_cons_self) hl
    · exact hlink l s target rest (stepAt_eq_link hstep) hl hrest h

theorem nulFree_of_walkFrom (ht : t.Spellable) (hl : NulFree l) (hs : NulFree segments)
    (h : t.walkFrom true links l segments = .found m) : NulFree m := by
  induction links generalizing l segments with
  | zero =>
    rw [walkFrom_zero] at h
    refine walkUntilLink_nulFree (fun l s target rest _ _ _ h => ?_) hl hs h
    cases h
  | succ links ih =>
    rw [walkFrom_succ] at h
    refine walkUntilLink_nulFree (fun l s target rest hat hl hrest h => ?_) hl hs h
    obtain ⟨h1, h2⟩ := nulFree_linkTarget hl (ht _ _ hat)
    exact ih h1 (h2.append hrest) h

theorem nulFree_of_walk (ht : t.Spellable) (h : t.walk p = .found l) : NulFree l := by
  obtain ⟨hnul, hfound⟩ := walk_eq_found_iff.1 h
  have hroot : NulFree [] := fun s hs => nomatch hs
  exact nulFree_of_walkFrom ht hroot (any_nul_eq_false_iff.1 hnul) hfound

end Scaffold.Tree
