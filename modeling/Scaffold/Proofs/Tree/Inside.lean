import Scaffold.Proofs.Tree.Passage

/-!
# Names in a directory

`Reaches` says that segments lead to a directory. What is done under a name behind them then
depends only on what the directory has under the name: whether the path exists, what is written
there (`Reaches.write?`), what is made there (`makeDirectory_snoc`). The directory that a path is
in has to be made first, and nothing is made where it is (`makeDirectories_parents`).
-/

namespace Scaffold

structure IsPlainName (n : String) : Prop extends IsName n where
  nulFree : '\x00' ∉ n.toList

theorem IsPlainName.segmentsOf {n : String} (hn : IsPlainName n) : segmentsOf n = [n] := by
  have hsingle : "/".intercalate [n] = n := by simp [String.intercalate_singleton]
  have hslashless : Slashless [n] := by simpa [Slashless] using hn.slashless
  have hcut := segmentsOf_intercalate hslashless (List.cons_ne_nil n [])
  rwa [hsingle] at hcut

/-! ## The directories of a path -/

namespace Path

variable {p q : Path} {n m : String}

theorem above_dropWhile (reversed : List String) :
    above (reversed.dropWhile isIdle) = above reversed := by
  induction reversed with
  | nil => rfl
  | cons s rest ih =>
    cases hs : isIdle s with
    | true => rw [List.dropWhile_cons_of_pos hs, ih, above, if_pos hs]
    | false => rw [List.dropWhile_cons_of_neg (by simp [hs])]

theorem parents_of_parent? (h : p.parent? = some q) : p.parents = q.ancestors := by
  have habove : ∀ reversed, (above reversed).head? = some q → above reversed = q.ancestors := by
    intro reversed
    induction reversed with
    | nil => exact nofun
    | cons s rest ih =>
      rw [above]
      split
      · exact ih
      · intro hq
        cases hq
        rw [ancestors, parents, List.reverse_reverse, above_dropWhile]
  exact habove _ h

theorem parents_join (p : Path) (hn : IsPlainName n) :
    (p.join n).parents = ⟨(p.withoutSlash.reverse.dropWhile isIdle).reverse⟩ ::
      above p.withoutSlash.reverse := by
  have hrev : (p.withoutSlash ++ [n]).reverse = n :: p.withoutSlash.reverse := by simp
  rw [join_of_single p hn.segmentsOf, parents]
  simp only [hrev]
  rw [above, if_neg (by simp [hn.not_idle])]

theorem parents_join_under {start names : List String} (hstart : ∀ s ∈ start, isIdle s = true)
    (hidle : ∀ s ∈ names, isIdle s = false) (hp : p.withoutSlash = start ++ names.reverse)
    (hn : IsPlainName n) : (p.join n).parents = under start names := by
  have hall : ∀ s ∈ n :: names, isIdle s = false := List.forall_mem_cons.2 ⟨hn.not_idle, hidle⟩
  have hrev : (start ++ names.reverse ++ [n]).reverse = (n :: names) ++ start.reverse := by simp
  rw [join_of_single p hn.segmentsOf, hp, parents, hrev, above_names_append hstart hall]
  rfl

theorem parents_join_eq (p : Path) (hn : IsPlainName n) (hm : IsPlainName m) :
    (p.join n).parents = (p.join m).parents := by
  rw [parents_join p hn, parents_join p hm]

/-- Segments that lead nowhere can be left out at the end, and then no slash is there. -/
theorem getLast?_trimmed (segments : List String) :
    (segments.reverse.dropWhile isIdle).reverse.getLast? ≠ some "" := by
  rw [List.getLast?_reverse]
  intro hhead
  have hidle := List.head?_dropWhile_not isIdle segments.reverse
  rw [hhead] at hidle
  cases hidle

/-- Segments that lead nowhere are only at the beginning, but for a slash at the end. -/
def Tidy (p : Path) : Prop :=
  ∃ start, (∀ s ∈ start, isIdle s = true) ∧ p.withoutSlash = start ++ p.components

theorem Tidy.trimmed (hp : p.Tidy) :
    (p.withoutSlash.reverse.dropWhile isIdle).reverse = [] ∧ p.components = [] ∨
      (p.withoutSlash.reverse.dropWhile isIdle).reverse = p.withoutSlash ∧
        p.withoutSlash.getLast? ≠ some "" := by
  obtain ⟨start, hstart, hspelled⟩ := hp
  have hidle : ∀ s ∈ start.reverse, isIdle s = true := fun s hs => hstart s (List.mem_reverse.1 hs)
  rw [hspelled, List.reverse_append]
  cases hlast : p.components.reverse with
  | nil =>
    left
    rw [List.nil_append, List.dropWhile_eq_nil_iff.2 hidle]
    exact ⟨rfl, List.reverse_eq_nil_iff.1 hlast⟩
  | cons s names =>
    right
    have hs : isIdle s = false := by
      have hmem : s ∈ p.components := List.mem_reverse.1 (hlast ▸ List.mem_cons_self)
      simpa using (List.mem_filter.1 hmem).2
    have hcomponents : p.components = names.reverse ++ [s] := by
      rw [← List.reverse_reverse p.components, hlast, List.reverse_cons]
    constructor
    · rw [List.cons_append, List.dropWhile_cons_of_neg (by simp [hs]), hcomponents]
      simp
    · rw [hcomponents, ← List.append_assoc, List.getLast?_concat]
      rintro heq
      cases heq
      cases hs

end Path

/-! ## Directories that are reached -/

namespace Tree

variable {t u : Tree} {l k : Location} {n m : String} {segments : List String} {p : Path}
  {content : ByteArray} {a : Access}

/-- The segments lead to a directory at `l`, and a path can hold them. -/
structure Reaches (t : Tree) (segments : List String) (l : Location) : Prop where
  found : t.fromRoot segments = .found l
  directory : t.isDirectoryAt l = true
  nulFree : NulFree segments

namespace Reaches

theorem of_keeps (h : t.Reaches segments l) (hu : u.Keeps t) : u.Reaches segments l :=
  ⟨hu.found _ _ h.found, hu.directory _ h.directory, h.nulFree⟩

theorem unique (h : t.Reaches segments l) (h' : t.Reaches segments k) : l = k :=
  Arrival.found.inj (h.found.symm.trans h'.found)

theorem isDirectory (h : t.Reaches segments l) : t.isDirectory ⟨segments⟩ = true :=
  isDirectory_iff.2
    ⟨l, walk_eq_found_iff.2 ⟨any_nul_eq_false_iff.2 h.nulFree, h.found⟩, h.directory⟩

theorem trimmed (h : t.Reaches segments l) :
    t.Reaches (segments.reverse.dropWhile isIdle).reverse l := by
  have hsplit : segments = (segments.reverse.dropWhile isIdle).reverse ++
      (segments.reverse.takeWhile isIdle).reverse := by
    rw [← List.reverse_append, List.takeWhile_append_dropWhile, List.reverse_reverse]
  have hidle : ∀ s ∈ (segments.reverse.takeWhile isIdle).reverse, isIdle s = true := fun s hs =>
    List.mem_takeWhile_imp (List.mem_reverse.1 hs)
  have hpadded := padded_append_idle hidle (segments.reverse.dropWhile isIdle).reverse
  rw [← hsplit] at hpadded
  refine ⟨walkFrom_unpadded (x := .found l) trivial hpadded h.found, h.directory,
    fun s hs => h.nulFree s ?_⟩
  rw [hsplit]
  exact List.mem_append_left _ hs

section

variable (h : t.Reaches segments l) (hn : IsPlainName n)

include h hn

theorem walk_snoc : t.walk ⟨segments ++ [n]⟩ = t.fromRoot (segments ++ [n]) := by
  have hname : NulFree [n] := NulFree.cons hn.nulFree nofun
  exact walk_of_fromRoot (any_nul_eq_false_iff.2 (h.nulFree.append hname))

theorem entering : t.entering n l =
    match t.at? (n :: l) with
    | none => .gap l n false
    | some _ => .found (n :: l) := by
  have hfits : ¬ longestName < n.utf8ByteSize := Nat.not_lt.2 hn.fits
  unfold Tree.entering
  cases t.at? (n :: l) <;> simp [h.directory, hfits]

theorem walk_none (hnone : t.at? (n :: l) = none) :
    t.walk ⟨segments ++ [n]⟩ = .gap l n false := by
  rw [h.walk_snoc hn, fromRoot_snoc_of_none hn.not_idle hn.not_up h.found hnone, h.entering hn,
    hnone]

theorem walk_some {e : Entry} (hat : t.at? (n :: l) = some e) (he : ∀ target, e ≠ .link target) :
    t.walk ⟨segments ++ [n]⟩ = .found (n :: l) := by
  rw [h.walk_snoc hn]
  exact fromRoot_snoc_of_some hn.not_idle hn.not_up h.found h.directory (Nat.not_lt.2 hn.fits)
    hat he

variable (hlink : ∀ target, t.at? (n :: l) ≠ some (.link target))

include hlink

theorem pathExists_eq : t.pathExists ⟨segments ++ [n]⟩ = (t.at? (n :: l)).isSome := by
  unfold pathExists locate?
  cases hat : t.at? (n :: l) with
  | none => rw [h.walk_none hn hat]; rfl
  | some e =>
    have he : ∀ target, e ≠ .link target := fun target heq => hlink target (hat.trans (heq ▸ rfl))
    rw [h.walk_some hn hat he]
    rfl

/-- A file is written under its name, unless the name is a directory's. -/
theorem write? (hu : t.write? ⟨segments ++ [n]⟩ content = some u) :
    u = t.put (n :: l) (.file content) ∧ ∀ a, t.at? (n :: l) ≠ some (.directory a) := by
  unfold Tree.write? at hu
  cases hat : t.at? (n :: l) with
  | none =>
    rw [h.walk_none hn hat] at hu
    exact ⟨(Option.some.inj hu).symm, nofun⟩
  | some e =>
    have he : ∀ target, e ≠ .link target := fun target heq => hlink target (hat.trans (heq ▸ rfl))
    rw [h.walk_some hn hat he] at hu
    dsimp only at hu
    rw [hat] at hu
    cases e with
    | file before => exact ⟨(Option.some.inj hu).symm, nofun⟩
    | directory | link => cases hu

end

end Reaches

theorem reaches_of_walk (h : t.walk p = .found l) (hdir : t.isDirectoryAt l = true) :
    t.Reaches p.withoutSlash l := by
  obtain ⟨hnul, hfound⟩ := walk_eq_found_iff.1 h
  have hreaches : t.Reaches p.segments l := ⟨hfound, hdir, any_nul_eq_false_iff.1 hnul⟩
  unfold Path.withoutSlash
  split
  · rename_i hlast
    obtain ⟨before, hbefore⟩ := List.getLast?_eq_some_iff.1 hlast
    rw [hbefore, List.dropLast_concat]
    rw [hbefore] at hreaches
    have hidle : ∀ s ∈ [""], isIdle s = true := by decide
    have hpadded := padded_append_idle hidle before
    exact ⟨walkFrom_unpadded (x := .found l) trivial hpadded hreaches.found, hdir,
      fun s hs => hreaches.nulFree s (List.mem_append_left _ hs)⟩
  · exact hreaches

theorem reaches_of_place (hn : IsPlainName n)
    (h : (t.walk ⟨segments ++ [n]⟩).place? = some k) : ∃ l, t.Reaches segments l := by
  unfold walk walkAll at h
  split at h
  · cases h
  rename_i hnul
  rw [Bool.not_eq_true, any_nul_eq_false_iff] at hnul
  obtain ⟨l, hl, hdir⟩ := found_of_snoc hn.not_idle hn.not_up h
  exact ⟨l, hl, hdir, fun s hs => hnul s (List.mem_append_left _ hs)⟩

theorem reaches_of_pathExists (hn : IsPlainName n) (h : t.pathExists ⟨segments ++ [n]⟩ = true) :
    ∃ l, t.Reaches segments l := by
  obtain ⟨k, hk⟩ := pathExists_iff.1 h
  exact reaches_of_place hn (k := k) (by rw [hk]; rfl)

theorem reaches_of_write? (hn : IsPlainName n)
    (h : t.write? ⟨segments ++ [n]⟩ content = some u) : ∃ l, t.Reaches segments l := by
  unfold write? at h
  split at h
  · rename_i k hk
    exact reaches_of_place hn (k := k) (by rw [hk]; rfl)
  · rename_i d s hgap
    exact reaches_of_place hn (k := s :: d) (by rw [hgap]; rfl)
  · cases h

theorem makeDirectory_snoc (hn : IsPlainName n)
    (h : t.makeDirectory ⟨segments ++ [n]⟩ a = .ok u) :
    ∃ l, t.Reaches segments l ∧ t.at? (n :: l) = none ∧ u = t.put (n :: l) (.directory a) := by
  unfold makeDirectory at h
  split at h
  · rename_i d s slash hgap
    cases h
    have hnul : ((segments ++ [n]).any fun s => s.toList.contains '\x00') = false := by
      unfold walkToLink walkAll at hgap
      rw [withoutSlashes_snoc hn.not_idle] at hgap
      split at hgap
      · cases hgap
      · rename_i hnul
        simpa using hnul
    rw [walkToLink_snoc hn.not_idle hn.not_up hnul] at hgap
    obtain ⟨hfound, rfl, hdir, -, hnone⟩ := then_eq_gap hgap
    have hfree := any_nul_eq_false_iff.1 hnul
    exact ⟨d, ⟨hfound, hdir, fun x hx => hfree x (List.mem_append_left _ hx)⟩, hnone, rfl⟩
  all_goals cases h

/-! ## Paths that are resolved -/

theorem fromRoot_names (hl : t.Straight l) : t.fromRoot l.reverse = .found l := by
  have hstraight : t.Straight (l.reverse.reverse ++ []) := by simpa using hl
  have hnames := walkFrom_names true mostLinks hstraight []
  simp only [List.append_nil, List.reverse_reverse] at hnames
  rw [fromRoot, hnames]
  rfl

theorem reaches_names (ht : t.Spellable) (hp : Slashless p.segments) (h : t.walk p = .found l)
    (hdir : t.isDirectoryAt l = true) : t.Reaches l.reverse l where
  found := fromRoot_names (straight_of_locate? hp (locate?_eq_some_iff.2 h))
  directory := hdir
  nulFree s hs := nulFree_of_walk ht h s (List.mem_reverse.1 hs)

theorem nulFree_of_idle {s : String} (hs : isIdle s = true) : '\x00' ∉ s.toList := by
  rw [isIdle, Bool.or_eq_true, beq_iff_eq, beq_iff_eq] at hs
  rcases hs with rfl | rfl <;> decide

/-- To a directory that a path led to once it was resolved, it leads also as it was. -/
theorem walk_of_reaches_resolve (hp : Slashless p.segments) (hu : u.Keeps t)
    (h : u.Reaches (t.resolve p).withoutSlash l) : u.walk p = .found l := by
  cases hexists : t.pathExists p with
  | true =>
    obtain ⟨k, hk⟩ := pathExists_iff.1 hexists
    have hstraight := straight_of_locate? hp (locate?_eq_some_iff.2 hk)
    rw [resolve_of_walk hk, Path.withoutSlash_ofLocation hstraight.isName] at h
    have hsame := h.found.symm.trans (hu.found _ _ (fromRoot_names hstraight))
    cases hsame
    exact hu.walk hk
  | false =>
    obtain ⟨start, hstart, hspelled⟩ := Path.withoutSlash_tidy p
    rw [resolve_of_missing hexists, hspelled] at h
    refine walk_eq_found_iff.2 ⟨any_nul_eq_false_iff.2 fun s hs => ?_,
      fromRoot_of_components hstart h.found h.directory⟩
    cases hidle : isIdle s with
    | true => exact nulFree_of_idle hidle
    | false =>
      exact h.nulFree s (List.mem_append_right _ (List.mem_filter.2 ⟨hs, by simp [hidle]⟩))

theorem pathExists_join_of_missing (hp : Slashless p.segments) (hn : IsPlainName n)
    (h : t.pathExists p = false) : t.pathExists ((t.resolve p).join n) = false := by
  by_contra hexists
  rw [Bool.not_eq_false, Path.join_of_single _ hn.segmentsOf] at hexists
  obtain ⟨l, hl⟩ := reaches_of_pathExists hn hexists
  have hthere := pathExists_iff.2 ⟨l, walk_of_reaches_resolve hp (Keeps.refl t) hl⟩
  rw [h] at hthere
  cases hthere

/-! ## Directories of names -/

theorem makeDirectories_ofLocation (hnames : ∀ s ∈ l, IsName s) (hn : IsPlainName n)
    (h : t.pathExists (.ofLocation l) = true) :
    (t.makeDirectories ((Path.ofLocation l).join n).parents).1 = t := by
  have hall : ∀ s ∈ n :: l, IsName s := List.forall_mem_cons.2 ⟨hn.toIsName, hnames⟩
  have hlast : (Path.ofLocation l).segments.getLast? ≠ some "" := Path.getLast?_ne_empty hnames
  rw [Path.join_ofLocation hnames hn.segmentsOf,
    Path.parents_of_parent? (Path.parent?_ofLocation_cons hall), Path.ancestors,
    makeDirectories_of_pathExists hlast h]

theorem makeDirectories_parents (hn : IsPlainName n) (h : t.Reaches p.withoutSlash l) :
    t.makeDirectories (p.join n).parents = (t, true) := by
  have hlast := Path.getLast?_trimmed p.withoutSlash
  have hthere := h.trimmed.isDirectory
  rw [Path.parents_join p hn]
  generalize (p.withoutSlash.reverse.dropWhile isIdle).reverse = trimmed at hlast hthere ⊢
  rw [makeDirectories_of_pathExists hlast (pathExists_of_isDirectory hthere), hthere]

end Tree

/-- A file in a directory that is reached is written, or nothing changes. -/
theorem Action.perform_writeText_reached {t : Tree} {p : Path} {n text : String} {l : Location}
    (hn : IsPlainName n) (h : t.Reaches p.withoutSlash l) :
    (writeText (p.join n) text).perform t =
      match t.write? (p.join n) text.toUTF8 with
      | some t' => (.ok (), t')
      | none => (.error (.other ("Failed to write file: " ++ (p.join n).text)), t) := by
  have hparent : (p.join n).parent? =
      some ⟨(p.withoutSlash.reverse.dropWhile isIdle).reverse⟩ := by
    unfold Path.parent?
    rw [Path.parents_join p hn]
    rfl
  exact perform_writeText_inside hparent (Path.getLast?_trimmed _) h.trimmed.isDirectory

theorem Action.perform_writeText_join {t t' : Tree} {p : Path} {n text : String} {u : Unit}
    (hn : IsPlainName n) (h : (writeText (p.join n) text).perform t = (.ok u, t')) :
    ∃ v, t.makeDirectories (p.join n).parents = (v, true) ∧
      v.write? (p.join n) text.toUTF8 = some t' := by
  obtain ⟨v, hmade, hwrite⟩ := perform_writeText_ok h
  have hparent : ∃ q, (p.join n).parent? = some q := by
    unfold Path.parent?
    rw [Path.parents_join p hn]
    exact ⟨_, rfl⟩
  obtain ⟨q, hq⟩ := hparent
  refine ⟨v, ?_, hwrite⟩
  rw [Path.parents_of_parent? hq]
  exact hmade q hq

end Scaffold
