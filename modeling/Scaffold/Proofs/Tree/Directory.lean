import Mathlib.Data.List.TakeWhile
import Scaffold.Proofs.Tree.Location

/-!
# Directories that are made

`makeDirectories` makes what is missing of a path, from the outside in. Where the path has no
segment that goes up, either all of it is there already and the tree stays as it is, or what
it leads to in the end is new and empty (`makeDirectories_fresh`).
-/

namespace Scaffold

/-- The paths above the names `names`, the innermost first, and their own; `start` are segments
that lead nowhere. -/
def Path.under (start : List String) : List String → List Path
  | [] => [⟨[]⟩]
  | n :: names => ⟨start ++ (n :: names).reverse⟩ :: under start names

namespace Path

variable {start names : List String}

theorem above_idle (hstart : ∀ s ∈ start, isIdle s = true) : above start = [] := by
  induction start with
  | nil => rfl
  | cons s start ih =>
    rw [above, if_pos (hstart s List.mem_cons_self)]
    exact ih fun x hx => hstart x (List.mem_cons_of_mem _ hx)

theorem above_names_append (hstart : ∀ s ∈ start, isIdle s = true)
    (hnames : ∀ s ∈ names, isIdle s = false) :
    above (names ++ start.reverse) = (under start names).tail := by
  have hrev : ∀ s ∈ start.reverse, isIdle s = true := fun s hs => hstart s (List.mem_reverse.1 hs)
  induction names with
  | nil => exact above_idle hrev
  | cons n names ih =>
    have hn := hnames n List.mem_cons_self
    have hrest : ∀ s ∈ names, isIdle s = false := fun s hs => hnames s (List.mem_cons_of_mem _ hs)
    rw [List.cons_append, above, if_neg (by simp [hn]), ih hrest]
    cases names with
    | nil => simp [under, List.dropWhile_eq_nil_iff.2 hrev]
    | cons m names =>
      have hm := hrest m List.mem_cons_self
      simp [under, hm]

theorem ancestors_names {n : String} (hstart : ∀ s ∈ start, isIdle s = true)
    (hnames : ∀ s ∈ n :: names, isIdle s = false) :
    (⟨start ++ (n :: names).reverse⟩ : Path).ancestors = under start (n :: names) := by
  have hrev : (start ++ (n :: names).reverse).reverse = (n :: names) ++ start.reverse := by simp
  unfold ancestors parents
  simp only [hrev, above_names_append hstart hnames, under, List.tail_cons]

theorem ancestors_of_head? (hstart : ∀ s ∈ start, isIdle s = true)
    (hnames : ∀ s ∈ names, isIdle s = false) {p : Path} (h : (under start names).head? = some p) :
    p.ancestors = under start names := by
  cases names with
  | nil => cases h; rfl
  | cons n names => cases h; exact ancestors_names hstart hnames

theorem parent?_snoc {x : String} (hstart : ∀ s ∈ start, isIdle s = true)
    (hnames : ∀ s ∈ x :: names, isIdle s = false) :
    (⟨start ++ names.reverse ++ [x]⟩ : Path).parent? = (under start names).head? := by
  have hrev : (start ++ names.reverse ++ [x]).reverse = (x :: names) ++ start.reverse := by simp
  unfold parent? parents
  simp only [hrev, above_names_append hstart hnames, under, List.tail_cons]

theorem join_of_single (p : Path) {x : String} (hx : segmentsOf x = [x]) :
    p.join x = ⟨p.withoutSlash ++ [x]⟩ := by
  unfold join
  rw [hx]
  split
  · rename_i h
    cases h
  · rfl

end Path

namespace Tree

/-- Whatever there is, is in a directory. -/
def Rooted (t : Tree) : Prop :=
  ∀ s l, t.at? (s :: l) ≠ none → t.isDirectoryAt l = true

variable {t u : Tree} {l : Location} {n : String} {start names : List String}

theorem isDirectoryAt_of_none (h : t.at? l = none) : t.isDirectoryAt l = false := by
  unfold isDirectoryAt
  rw [h]

theorem Rooted.put (h : t.Rooted) (hl : t.isDirectoryAt l = true) (hnone : t.at? (n :: l) = none)
    (e : Entry) : (t.put (n :: l) e).Rooted := by
  intro s m hm
  rw [at?_put t (List.cons_ne_nil n l)] at hm
  split at hm
  · rename_i heq
    obtain ⟨-, rfl⟩ := List.cons.inj heq
    rwa [isDirectoryAt_put (List.cons_ne_nil n m) e (List.cons_ne_self n m).symm]
  · have hdir := h s m hm
    rw [isDirectoryAt_put (List.cons_ne_nil n l)]
    · exact hdir
    · rintro rfl
      rw [isDirectoryAt_of_none hnone] at hdir
      cases hdir

theorem Rooted.at?_cons (h : t.Rooted) (hnone : t.at? l = none) (s : String) :
    t.at? (s :: l) = none := by
  by_contra hne
  have hdir := h s l hne
  rw [isDirectoryAt_of_none hnone] at hdir
  cases hdir

/-! ## Walks to what is new -/

/-- The segments from the root are walked with every link followed. -/
def fromRoot (t : Tree) (segments : List String) : Arrival :=
  t.walkFrom true mostLinks [] segments

theorem fromRoot_idle (hstart : ∀ s ∈ start, isIdle s = true) : t.fromRoot start = .found [] := by
  have h : ∀ onLink, t.walkUntilLink onLink [] start = .found [] := by
    intro onLink
    have hidle := walkUntilLink_idle onLink hstart (isDirectoryAt_nil t) []
    rwa [List.append_nil] at hidle
  exact h _

theorem fromRoot_snoc_of_some {segments : List String} (hidle : isIdle n = false) (hup : n ≠ "..")
    (hl : t.fromRoot segments = .found l) (hdir : t.isDirectoryAt l = true)
    (hfits : ¬ longestName < n.utf8ByteSize) {e : Entry} (hat : t.at? (n :: l) = some e)
    (he : ∀ target, e ≠ .link target) : t.fromRoot (segments ++ [n]) = .found (n :: l) := by
  have hl' : t.walkFrom true mostLinks [] segments = .found l := hl
  have hend : t.walkFrom false mostLinks [] (segments ++ [n]) = .found (n :: l) := by
    rw [walkFrom_false_snoc hidle hup]
    simp only [hl', Arrival.then, entering, hdir, hat, hfits, Bool.not_true, Bool.false_eq_true,
      if_false]
  rcases walkFrom_follow (t := t) mostLinks [] (segments ++ [n]) with h | ⟨m, target, hm, hlink⟩
  · rw [fromRoot, ← h, hend]
  · rw [hend] at hm
    cases hm
    rw [hat] at hlink
    exact absurd (Option.some.inj hlink) (he target)

theorem fromRoot_put {segments : List String} (hidle : isIdle n = false) (hup : n ≠ "..")
    (hl : t.fromRoot segments = .found l) (hdir : t.isDirectoryAt l = true)
    (hfits : ¬ longestName < n.utf8ByteSize) (hnone : t.at? (n :: l) = none) {e : Entry}
    (he : ∀ target, e ≠ .link target) :
    (t.put (n :: l) e).fromRoot segments = .found l ∧
      (t.put (n :: l) e).fromRoot (segments ++ [n]) = .found (n :: l) := by
  have hlinks := link_of_put (t := t) (List.cons_ne_nil n l) e he
  have hfound := (walkFrom_fills (extends_put (List.cons_ne_nil n l) hnone e) hlinks true mostLinks
    [] segments).1 l hl
  have hat : (t.put (n :: l) e).at? (n :: l) = some e := by
    rw [at?_put t (List.cons_ne_nil n l), if_pos rfl]
  have hdir' : (t.put (n :: l) e).isDirectoryAt l = true := by
    rwa [isDirectoryAt_put (List.cons_ne_nil n l) e (List.cons_ne_self n l).symm]
  exact ⟨hfound, fromRoot_snoc_of_some hidle hup hfound hdir' hfits hat he⟩

structure Fresh (u : Tree) (segments : List String) (l : Location) : Prop where
  rooted : u.Rooted
  found : u.fromRoot segments = .found l
  directory : u.isDirectoryAt l = true
  bare : ∀ s, u.at? (s :: l) = none

theorem Rooted.fresh {segments : List String} (h : t.Rooted) (hidle : isIdle n = false)
    (hup : n ≠ "..") (hl : t.fromRoot segments = .found l) (hdir : t.isDirectoryAt l = true)
    (hfits : ¬ longestName < n.utf8ByteSize) (hnone : t.at? (n :: l) = none) (a : Access) :
    (t.put (n :: l) (.directory a)).Fresh (segments ++ [n]) (n :: l) where
  rooted := h.put hdir hnone _
  found := (fromRoot_put hidle hup hl hdir hfits hnone fun _ => Entry.noConfusion).2
  directory := by
    unfold isDirectoryAt
    rw [at?_put t (List.cons_ne_nil n l), if_pos rfl]
  bare s := by
    rw [at?_put t (List.cons_ne_nil n l), if_neg (List.cons_ne_self s _)]
    exact h.at?_cons hnone s

theorem withoutSlashes_snoc (hidle : isIdle n = false) (segments : List String) :
    ((segments ++ [n]).reverse.dropWhile (· == "")).reverse = segments ++ [n] := by
  have hn : (n == "") = false := (Bool.or_eq_false_iff.1 hidle).1
  simp [hn]

theorem walkToLink_snoc {segments : List String} (hidle : isIdle n = false) (hup : n ≠ "..")
    (hnul : (segments ++ [n]).any (fun s => s.toList.contains '\x00') = false) :
    t.walkToLink ⟨segments ++ [n]⟩ = (t.fromRoot segments).then t n := by
  unfold walkToLink walkAll
  rw [withoutSlashes_snoc hidle, hnul, if_neg Bool.false_ne_true, walkFrom_false_snoc hidle hup]
  rfl

theorem isDirectory_iff {p : Path} :
    t.isDirectory p = true ↔ ∃ l, t.walk p = .found l ∧ t.isDirectoryAt l = true := by
  unfold isDirectory find? locate? isDirectoryAt
  cases t.walk p <;> simp

theorem fromRoot_of_walk {segments : List String} (h : t.walk ⟨segments⟩ = .found l) :
    t.fromRoot segments = .found l := by
  unfold walk walkAll at h
  split at h
  · cases h
  · exact h

/-- A step that comes to a gap comes to it from a directory. -/
theorem entering_eq_gap {d : Location} {s : String} {slash : Bool}
    (h : t.entering n l = .gap d s slash) :
    d = l ∧ s = n ∧ slash = false ∧ t.isDirectoryAt l = true ∧ ¬ longestName < n.utf8ByteSize ∧
      t.at? (n :: l) = none := by
  unfold entering at h
  split at h
  · cases h
  rename_i hdir
  split at h
  · cases h
  rename_i hfits
  split at h
  · rename_i hnone
    cases h
    exact ⟨rfl, rfl, rfl, by simpa using hdir, hfits, hnone⟩
  · cases h

theorem then_eq_gap {a : Arrival} {d : Location} {s : String} {slash : Bool}
    (h : a.then t n = .gap d s slash) : a = .found d ∧ s = n ∧ t.isDirectoryAt d = true ∧
      ¬ longestName < n.utf8ByteSize ∧ t.at? (n :: d) = none := by
  cases a with
  | found l =>
    obtain ⟨rfl, rfl, -, hdir, hfits, hnone⟩ := entering_eq_gap h
    exact ⟨rfl, rfl, hdir, hfits, hnone⟩
  | _ => cases h

section

variable {segments : List String} (hidle : isIdle n = false) (hup : n ≠ "..")
  (hnul : (segments ++ [n]).any (fun s => s.toList.contains '\x00') = false) {a : Access}

include hidle hup

/-- A name that nothing has in a directory is not found by following links either. -/
theorem fromRoot_snoc_of_none (hl : t.fromRoot segments = .found l)
    (hnone : t.at? (n :: l) = none) : t.fromRoot (segments ++ [n]) = t.entering n l := by
  have hsnoc := walkFrom_false_snoc (t := t) hidle hup mostLinks [] segments
  have hl' : t.walkFrom true mostLinks [] segments = .found l := hl
  rw [hl', Arrival.then] at hsnoc
  rcases walkFrom_follow (t := t) mostLinks [] (segments ++ [n]) with h | ⟨m, _, h, -⟩
  · rw [fromRoot, ← h, hsnoc]
  · rw [hsnoc, entering, hnone] at h
    split at h
    · cases h
    split at h <;> cases h

theorem pathExists_of_none (hl : t.fromRoot segments = .found l)
    (hnone : t.at? (n :: l) = none) : t.pathExists ⟨segments ++ [n]⟩ = false := by
  have hend := fromRoot_snoc_of_none hidle hup hl hnone
  unfold pathExists locate?
  cases hwalk : t.walk ⟨segments ++ [n]⟩ with
  | found m =>
    have hfound := fromRoot_of_walk hwalk
    rw [hend, entering, hnone] at hfound
    split at hfound
    · cases hfound
    split at hfound <;> cases hfound
  | _ => rfl

include hnul

theorem makeDirectory_fresh (hr : t.Rooted) (h : t.makeDirectory ⟨segments ++ [n]⟩ a = .ok u) :
    ∃ l, u.Fresh (segments ++ [n]) l := by
  unfold makeDirectory at h
  rw [walkToLink_snoc hidle hup hnul] at h
  split at h
  · rename_i hgap
    cases h
    obtain ⟨hl, rfl, hdir, hfits, hnone⟩ := then_eq_gap hgap
    exact ⟨_, hr.fresh hidle hup hl hdir hfits hnone a⟩
  all_goals cases h

theorem makeDirectory_missing (h : t.makeDirectory ⟨segments ++ [n]⟩ a = .error .missing) :
    t.fromRoot segments ≠ .found l := by
  intro hl
  unfold makeDirectory at h
  rw [walkToLink_snoc hidle hup hnul, hl, Arrival.then, entering] at h
  split at h
  · cases h
  · rename_i hmissing
    split at hmissing
    · cases hmissing
    split at hmissing
    · cases hmissing
    split at hmissing <;> cases hmissing
  · cases h
  · cases h

end

/-- Only along names without the character of code point zero can anything be made. -/
theorem any_nul_of_makeDirectories (hstart : ∀ s ∈ start, isIdle s = true)
    (hidle : ∀ s ∈ names, isIdle s = false)
    (h : t.makeDirectories (Path.under start names) = (u, true)) :
    (start ++ names.reverse).any (fun s => s.toList.contains '\x00') = false := by
  cases names with
  | nil =>
    rw [List.reverse_nil, List.append_nil, List.any_eq_false]
    intro s hs
    have hidle := hstart s hs
    rw [isIdle, Bool.or_eq_true, beq_iff_eq, beq_iff_eq] at hidle
    rcases hidle with rfl | rfl <;> decide
  | cons n names =>
    by_contra hnul
    rw [Bool.not_eq_false] at hnul
    have hlink : t.walkToLink ⟨start ++ (n :: names).reverse⟩ = .blocked := by
      unfold walkToLink walkAll
      rw [List.reverse_cons, ← List.append_assoc] at hnul ⊢
      rw [withoutSlashes_snoc (hidle n List.mem_cons_self), hnul, if_pos rfl]
    have hwalk : t.walk ⟨start ++ (n :: names).reverse⟩ = .blocked := by
      unfold walk walkAll
      rw [hnul, if_pos rfl]
    rw [Path.under, makeDirectories, makeDirectory, hlink] at h
    obtain ⟨l, hl, -⟩ := isDirectory_iff.1 (Prod.mk.inj h).2
    rw [hwalk] at hl
    cases hl

theorem any_nul_snoc {x : String} (hstart : ∀ s ∈ start, isIdle s = true)
    (hidle : ∀ s ∈ names, isIdle s = false)
    (h : t.makeDirectories (Path.under start names) = (u, true))
    (hx : x.toList.contains '\x00' = false) :
    (start ++ names.reverse ++ [x]).any (fun s => s.toList.contains '\x00') = false := by
  rw [List.any_append, any_nul_of_makeDirectories hstart hidle h, List.any_cons, hx]
  rfl

/-- The directories above a file are those of the path that it is put under. -/
theorem makeDirectories_under {x : String} (hstart : ∀ s ∈ start, isIdle s = true)
    (hidle : ∀ s ∈ x :: names, isIdle s = false)
    (h : ∀ parent ∈ (⟨start ++ names.reverse ++ [x]⟩ : Path).parent?,
      t.makeDirectories parent.ancestors = (u, true)) :
    t.makeDirectories (Path.under start names) = (u, true) := by
  rw [Path.parent?_snoc hstart hidle] at h
  cases hhead : (Path.under start names).head? with
  | none => cases names <;> cases hhead
  | some q =>
    have hnames := fun s hs => hidle s (List.mem_cons_of_mem x hs)
    rw [← Path.ancestors_of_head? hstart hnames hhead]
    exact h q hhead

/-- Making the directories of a path either finds them all and changes nothing, or leads to one
that is new. -/
theorem makeDirectories_fresh (hr : t.Rooted) (hstart : ∀ s ∈ start, isIdle s = true)
    (hidle : ∀ s ∈ names, isIdle s = false) (hup : ".." ∉ names)
    (h : t.makeDirectories (Path.under start names) = (u, true)) :
    (∃ l, u = t ∧ t.fromRoot (start ++ names.reverse) = .found l ∧ t.isDirectoryAt l = true) ∨
      ∃ l, u.Fresh (start ++ names.reverse) l := by
  have hnul := any_nul_of_makeDirectories hstart hidle h
  induction names generalizing u with
  | nil =>
    left
    refine ⟨[], ?_, by simpa using fromRoot_idle hstart, rfl⟩
    have hroot : t.makeDirectory ⟨[]⟩ .everyone = .error .other := rfl
    rw [Path.under, makeDirectories, hroot] at h
    exact (Prod.mk.inj h).1.symm
  | cons n names ih =>
    have hn := hidle n List.mem_cons_self
    have hnup : n ≠ ".." := fun he => hup (he ▸ List.mem_cons_self)
    rw [Path.under, makeDirectories] at h
    rw [List.reverse_cons, ← List.append_assoc] at hnul h ⊢
    have hnul' : (start ++ names.reverse).any (fun s => s.toList.contains '\x00') = false := by
      rw [List.any_append, Bool.or_eq_false_iff] at hnul
      exact hnul.1
    split at h
    · rename_i v hv
      cases h
      exact .inr (makeDirectory_fresh hn hnup hnul hr hv)
    · obtain ⟨rfl, hdir⟩ := Prod.mk.inj h
      obtain ⟨l, hl, hdir⟩ := isDirectory_iff.1 hdir
      exact .inl ⟨l, rfl, fromRoot_of_walk hl, hdir⟩
    · rename_i hmissing
      split at h
      · cases h
      rename_i v hv
      have hfresh : ∃ l, v.Fresh (start ++ names.reverse) l := by
        rcases ih (fun s hs => hidle s (List.mem_cons_of_mem _ hs))
          (fun hs => hup (List.mem_cons_of_mem _ hs)) hv hnul' with ⟨l, -, hl, -⟩ | hfresh
        · exact absurd hl (makeDirectory_missing hn hnup hnul hmissing)
        · exact hfresh
      obtain ⟨l, hfresh⟩ := hfresh
      right
      split at h
      · rename_i w hw
        cases h
        exact makeDirectory_fresh hn hnup hnul hfresh.rooted hw
      · have hdir := (Prod.mk.inj h).2
        obtain ⟨m, hm, -⟩ := isDirectory_iff.1 hdir
        have hmissing := pathExists_of_none hn hnup hfresh.found (hfresh.bare n)
        unfold pathExists locate? at hmissing
        rw [hm] at hmissing
        cases hmissing

/-- The path is that of a link that leads nowhere. -/
def Dangling (t : Tree) (p : Path) : Prop :=
  (∃ l, t.walkToLink p = .found l) ∧ t.pathExists p = false

theorem at?_of_not_dangling {segments : List String} (hidle : isIdle n = false) (hup : n ≠ "..")
    (hnul : (segments ++ [n]).any (fun s => s.toList.contains '\x00') = false)
    (hfits : ¬ longestName < n.utf8ByteSize) (hl : t.fromRoot segments = .found l)
    (hdir : t.isDirectoryAt l = true) (hmissing : t.pathExists ⟨segments ++ [n]⟩ = false)
    (hlink : ¬ t.Dangling ⟨segments ++ [n]⟩) : t.at? (n :: l) = none := by
  by_contra hne
  refine hlink ⟨⟨n :: l, ?_⟩, hmissing⟩
  rw [walkToLink_snoc hidle hup hnul, hl, Arrival.then, entering]
  simp only [hdir, hfits, Bool.not_true, Bool.false_eq_true, if_false]
  cases hat : t.at? (n :: l) with
  | none => exact absurd hat hne
  | some e => rfl

/-- A file written into a directory makes nothing else appear in it. -/
theorem pathExists_write? {segments : List String} {m : String} {content : ByteArray}
    (hn : isIdle n = false) (hnup : n ≠ "..") (hm : isIdle m = false) (hmup : m ≠ "..")
    (hne : m ≠ n) (hl : t.fromRoot segments = .found l) (hnone : t.at? (n :: l) = none)
    (hnone' : t.at? (m :: l) = none) (h : t.write? ⟨segments ++ [n]⟩ content = some u) :
    u.pathExists ⟨segments ++ [m]⟩ = false := by
  have hend := fromRoot_snoc_of_none hn hnup hl hnone
  unfold write? walk walkAll at h
  split at h
  · rename_i k hk
    split at hk
    · cases hk
    · have hk : t.fromRoot (segments ++ [n]) = .found k := hk
      rw [hend, entering, hnone] at hk
      split at hk
      · cases hk
      split at hk <;> cases hk
  · rename_i d s hgap
    split at hgap
    · cases hgap
    have hgap : t.fromRoot (segments ++ [n]) = .gap d s false := hgap
    rw [hend] at hgap
    obtain ⟨rfl, rfl, -, hdir, hfits, -⟩ := entering_eq_gap hgap
    cases h
    refine pathExists_of_none hm hmup
      (fromRoot_put hn hnup hl hdir hfits hnone fun _ => Entry.noConfusion).1 ?_
    rw [at?_put t (List.cons_ne_nil _ _), if_neg fun heq => hne (List.cons.inj heq).1]
    exact hnone'
  · cases h

end Tree

end Scaffold
