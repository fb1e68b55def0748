import Scaffold.Proofs.Tree.Step

/-!
# Where walks end

A location is `Straight` when its own names lead to it: every name but the last is that of a
directory, none is a link. Walks that follow all links end at straight locations, and a straight
path is walked without a turn. Writing a file changes no walk but those that end at it.
-/

namespace Scaffold

/-- A segment that leads to something inside a directory. -/
structure IsName (s : String) : Prop where
  not_idle : isIdle s = false
  not_up : s ≠ ".."
  fits : s.utf8ByteSize ≤ Tree.longestName
  slashless : '/' ∉ s.toList

def Slashless (segments : List String) : Prop :=
  ∀ s ∈ segments, '/' ∉ s.toList

theorem slashless_segmentsOf (s : String) : Slashless (segmentsOf s) := by
  have h : ∀ l ∈ s.toList.splitOn '/', '/' ∉ l := by
    generalize s.toList = cs
    induction cs with
    | nil => simp
    | cons c cs ih =>
      rw [List.splitOn_cons_eq_if_modifyHead]
      split
      · intro l hl
        rcases List.mem_cons.1 hl with rfl | hl
        · simp
        · exact ih l hl
      · rename_i hc
        cases hs : cs.splitOn '/' with
        | nil => exact absurd hs (List.splitOn_ne_nil _ _)
        | cons x xs =>
          rw [hs] at ih
          intro l hl
          rcases List.mem_cons.1 hl with rfl | hl
          · have : c ≠ '/' := by simpa using hc
            simp [this.symm, ih x List.mem_cons_self]
          · exact ih l (List.mem_cons_of_mem _ hl)
  intro x hx
  obtain ⟨l, hl, rfl⟩ := List.mem_map.1 hx
  simpa using h l hl

theorem segmentsOf_intercalate {segments : List String} (hs : Slashless segments)
    (hne : segments ≠ []) : segmentsOf ("/".intercalate segments) = segments := by
  unfold segmentsOf
  rw [String.toList_intercalate]
  have : "/".toList = ['/'] := rfl
  rw [this, List.splitOn_intercalate]
  · simp [Function.comp_def]
  · intro l hl
    obtain ⟨s, hm, rfl⟩ := List.mem_map.1 hl
    exact hs s hm
  · simpa using hne

namespace Tree

/-- The names of `l` lead to it without a link. -/
def Straight (t : Tree) : Location → Prop
  | [] => True
  | s :: l => IsName s ∧ t.isDirectoryAt l = true ∧
      (∃ e, t.at? (s :: l) = some e ∧ ∀ target, e ≠ .link target) ∧ Straight t l

/-- What an arrival says about the tree. -/
def Settled (t : Tree) : Arrival → Prop
  | .found l => Straight t l
  | .gap l s _ => Straight t l ∧ t.isDirectoryAt l = true ∧ IsName s ∧ t.at? (s :: l) = none
  | _ => True

def Arrival.place? : Arrival → Option Location
  | .found l => some l
  | .gap l s _ => some (s :: l)
  | _ => none

@[simp] theorem isDirectoryAt_nil (t : Tree) : t.isDirectoryAt [] = true := rfl

theorem Straight.tail {t : Tree} {l : Location} (h : t.Straight l) : t.Straight l.tail := by
  cases l with
  | nil => trivial
  | cons s l => exact h.2.2.2

theorem Straight.isName {t : Tree} {l : Location} (h : t.Straight l) : ∀ s ∈ l, IsName s := by
  induction l with
  | nil => simp
  | cons s l ih =>
    intro x hx
    rcases List.mem_cons.1 hx with rfl | hx
    · exact h.1
    · exact ih h.2.2.2 x hx

theorem Straight.suffix {t : Tree} {l m : Location} (h : t.Straight l) (hm : m <:+ l) :
    t.Straight m := by
  induction l with
  | nil => rw [List.suffix_nil.1 hm]; trivial
  | cons s l ih =>
    rcases List.suffix_cons_iff.1 hm with rfl | hm
    · exact h
    · exact ih h.2.2.2 hm

section Walks

variable {t : Tree}

/-- One stretch of a walk: it settles, or hands a link on from a straight directory. -/
theorem walkUntilLink_settled {onLink : Location → String → String → List String → Arrival}
    (hlink : ∀ l s target rest, t.Straight l → t.at? (s :: l) = some (.link target) →
      Slashless rest → t.Settled (onLink l s target rest)) {l : Location} {segments : List String}
    (hl : t.Straight l) (hs : Slashless segments) :
    t.Settled (t.walkUntilLink onLink l segments) := by
  induction segments generalizing l with
  | nil => exact hl
  | cons s rest ih =>
    have hrest : Slashless rest := fun x hx => hs x (List.mem_cons_of_mem _ hx)
    have hslash := hs s List.mem_cons_self
    rw [walkUntilLink_cons]
    cases hstep : t.stepAt l s with
    | blocked => trivial
    | missing =>
      obtain ⟨⟨hidle, hup, hfits⟩, hnone⟩ := stepAt_eq_missing hstep
      have hdir := isDirectoryAt_of_stepAt (by rw [hstep]; nofun)
      dsimp only
      split
      · exact ⟨hl, hdir, ⟨hidle, hup, hfits, hslash⟩, hnone⟩
      · trivial
    | on m =>
      refine ih ?_ hrest
      rcases stepAt_eq_on hstep with rfl | rfl | ⟨rfl, ⟨hidle, hup, hfits⟩, he⟩
      · exact hl
      · exact hl.tail
      · have hdir := isDirectoryAt_of_stepAt (by rw [hstep]; nofun)
        exact ⟨⟨hidle, hup, hfits, hslash⟩, hdir, he, hl⟩
    | link target => exact hlink l s target rest hl (stepAt_eq_link hstep) hrest

theorem slashless_append {a b : List String} (ha : Slashless a) (hb : Slashless b) :
    Slashless (a ++ b) := fun s hs =>
  (List.mem_append.1 hs).elim (ha s) (hb s)

theorem linkTarget_straight {l : Location} (hl : t.Straight l) (target : String) :
    t.Straight (linkTarget l target).1 ∧ Slashless (linkTarget l target).2 := by
  have hs := slashless_segmentsOf target
  unfold linkTarget
  split
  · rename_i next rest h
    exact ⟨trivial, fun s hm => hs s (by rw [h]; exact List.mem_cons_of_mem _ hm)⟩
  · exact ⟨hl, hs⟩

theorem walkFrom_settled (links : Nat) {l : Location} {segments : List String}
    (hl : t.Straight l) (hs : Slashless segments) :
    t.Settled (t.walkFrom true links l segments) := by
  induction links generalizing l segments with
  | zero =>
    refine walkUntilLink_settled (fun l s target rest _ _ _ => ?_) hl hs
    simp [Settled]
  | succ links ih =>
    refine walkUntilLink_settled (fun l s target rest hl _ hrest => ?_) hl hs
    obtain ⟨h1, h2⟩ := linkTarget_straight hl target
    simpa using ih h1 (slashless_append h2 hrest)

theorem walk_settled {p : Path} (hs : Slashless p.segments) : t.Settled (t.walk p) := by
  unfold walk walkAll
  split
  · trivial
  · exact walkFrom_settled _ trivial hs

theorem straight_of_locate? {p : Path} (hs : Slashless p.segments) {l : Location}
    (h : t.locate? p = some l) : t.Straight l := by
  have := walk_settled (t := t) hs
  unfold locate? at h
  split at h
  · rename_i m hm
    cases h
    rw [hm] at this
    exact this
  · cases h

theorem resolve_of_locate? {p : Path} {l : Location} (h : t.locate? p = some l) :
    t.resolve p = .ofLocation l := by
  unfold resolve
  rw [h]

/-! ## Straight paths -/

theorem walkUntilLink_names {onLink : Location → String → String → List String → Arrival}
    {names : List String} {l : Location} (h : t.Straight (names.reverse ++ l))
    (rest : List String) :
    t.walkUntilLink onLink l (names ++ rest) =
      t.walkUntilLink onLink (names.reverse ++ l) rest := by
  induction names generalizing l with
  | nil => rfl
  | cons s names ih =>
    rw [List.reverse_cons, List.append_assoc] at h ⊢
    obtain ⟨hname, hdir, ⟨e, he, hlink⟩, -⟩ := h.suffix (List.suffix_append _ _)
    have hstep : t.stepAt l s = .on (s :: l) :=
      stepAt_name hdir hname.not_idle hname.not_up hname.fits he hlink
    rw [List.cons_append, walkUntilLink_cons, hstep]
    exact ih h

theorem walkFrom_names (followLast : Bool) (links : Nat) {names : List String} {l : Location}
    (h : t.Straight (names.reverse ++ l)) (rest : List String) :
    t.walkFrom followLast links l (names ++ rest) =
      t.walkFrom followLast links (names.reverse ++ l) rest := by
  cases links <;> exact walkUntilLink_names h rest

/-- A straight path leads to its location, unless no path can be spelled so. -/
theorem walk_straight {root : Location} (h : t.Straight root) :
    t.walk ⟨root.reverse⟩ = .found root ∨ t.walk ⟨root.reverse⟩ = .blocked := by
  unfold walk walkAll
  split
  · exact .inr rfl
  · left
    have hstraight : t.Straight (root.reverse.reverse ++ []) := by simpa using h
    have hfrom := walkFrom_names true mostLinks hstraight []
    simp only [List.append_nil, List.reverse_reverse] at hfrom
    rw [hfrom]
    rfl

/-! ## One more name -/

/-- A step to a name that is the last; a link there is not followed. -/
def entering (t : Tree) (name : String) (l : Location) : Arrival :=
  if !t.isDirectoryAt l then .blocked
  else if longestName < name.utf8ByteSize then .blocked
  else
    match t.at? (name :: l) with
    | none => .gap l name false
    | some _ => .found (name :: l)

/-- Where one comes to by one more name. -/
def Arrival.then (t : Tree) (name : String) : Arrival → Arrival
  | .found l => t.entering name l
  | .gap _ _ _ | .missing => .missing
  | .blocked => .blocked

theorem walkUntilLink_snoc {onLink onLink' : Location → String → String → List String → Arrival}
    {name : String} (hidle : isIdle name = false) (hup : name ≠ "..")
    (hon : ∀ l s target rest, onLink' l s target (rest ++ [name]) =
      (onLink l s target rest).then t name)
    (hend : ∀ l s target, onLink' l s target [] = .found (s :: l))
    (l : Location) (segments : List String) :
    t.walkUntilLink onLink' l (segments ++ [name]) =
      (t.walkUntilLink onLink l segments).then t name := by
  induction segments generalizing l with
  | nil =>
    simp only [List.nil_append, walkUntilLink, Arrival.then, entering, hidle, hup, if_false,
      Bool.false_eq_true, List.all_nil, if_true, List.isEmpty_nil, Bool.not_true]
    split
    · rfl
    split
    · rfl
    cases t.at? (name :: l) with
    | none => rfl
    | some e =>
      cases e with
      | link target => exact hend l name target
      | file | directory => rfl
  | cons s rest ih =>
    have hrest : ((rest ++ [name]).all fun s => s == "") = false := by
      have : (name == "") = false := (Bool.or_eq_false_iff.1 hidle).1
      simp [this]
    rw [List.cons_append, walkUntilLink_cons, walkUntilLink_cons]
    cases t.stepAt l s with
    | blocked => rfl
    | missing =>
      simp only [hrest, Bool.false_eq_true, if_false]
      split <;> rfl
    | on l' => exact ih l'
    | link target => exact hon l s target rest

/-- A walk that does not follow a link at its end takes its last name as a step of its own. -/
theorem walkFrom_false_snoc {name : String} (hidle : isIdle name = false) (hup : name ≠ "..")
    (links : Nat) (l : Location) (segments : List String) :
    t.walkFrom false links l (segments ++ [name]) =
      (t.walkFrom true links l segments).then t name := by
  induction links generalizing l segments with
  | zero =>
    refine walkUntilLink_snoc hidle hup (fun l s target rest => ?_) (fun _ _ _ => rfl) l segments
    simp [Arrival.then]
  | succ links ih =>
    refine walkUntilLink_snoc hidle hup (fun l s target rest => ?_) (fun _ _ _ => rfl) l segments
    have hempty : (rest ++ [name]).isEmpty = false := by simp
    simp only [hempty, Bool.not_true, Bool.and_false, Bool.false_and, Bool.false_eq_true, if_false,
      ← List.append_assoc]
    exact ih _ _

theorem walkUntilLink_follow {onLink onLink' : Location → String → String → List String → Arrival}
    (hon : ∀ l s target rest, t.at? (s :: l) = some (.link target) →
      onLink l s target rest = onLink' l s target rest ∨
        ∃ m target', onLink l s target rest = .found m ∧ t.at? m = some (.link target'))
    (l : Location) (segments : List String) :
    t.walkUntilLink onLink l segments = t.walkUntilLink onLink' l segments ∨
      ∃ m target, t.walkUntilLink onLink l segments = .found m ∧ t.at? m = some (.link target) := by
  induction segments generalizing l with
  | nil => exact .inl rfl
  | cons s rest ih =>
    rw [walkUntilLink_cons, walkUntilLink_cons]
    cases hstep : t.stepAt l s with
    | blocked => exact .inl rfl
    | missing => exact .inl rfl
    | on l' => exact ih l'
    | link target => exact hon l s target rest (stepAt_eq_link hstep)

/-- To follow a link at the end makes a difference only where there is one. -/
theorem walkFrom_follow (links : Nat) (l : Location) (segments : List String) :
    t.walkFrom false links l segments = t.walkFrom true links l segments ∨
      ∃ m target, t.walkFrom false links l segments = .found m ∧
        t.at? m = some (.link target) := by
  induction links generalizing l segments with
  | zero =>
    refine walkUntilLink_follow (fun l s target rest hat => ?_) l segments
    cases rest with
    | nil => exact .inr ⟨s :: l, target, rfl, hat⟩
    | cons r rest => exact .inl rfl
  | succ links ih =>
    refine walkUntilLink_follow (fun l s target rest hat => ?_) l segments
    cases rest with
    | nil => exact .inr ⟨s :: l, target, rfl, hat⟩
    | cons r rest => exact ih _ _

/-! ## Growing trees -/

/-- What is somewhere in `t` is there in `u` as well. -/
def Extends (u t : Tree) : Prop :=
  ∀ l e, t.at? l = some e → u.at? l = some e

theorem extends_put {t : Tree} {l : Location} (hl : l ≠ []) (h : t.at? l = none) (e : Entry) :
    (t.put l e).Extends t := by
  intro m f hm
  rw [at?_put t hl]
  split
  · rename_i heq
    rw [heq, h] at hm
    cases hm
  · exact hm

theorem link_of_put {t : Tree} {l : Location} (hl : l ≠ []) (e : Entry)
    (he : ∀ target, e ≠ .link target) (m : Location) (target : String)
    (h : (t.put l e).at? m = some (.link target)) : t.at? m = some (.link target) := by
  rw [at?_put t hl] at h
  split at h
  · exact absurd (Option.some.inj h) (he target)
  · exact h

theorem Extends.isDirectoryAt {u t : Tree} (h : u.Extends t) {l : Location}
    (hl : t.isDirectoryAt l = true) : u.isDirectoryAt l = true := by
  unfold Tree.isDirectoryAt at hl ⊢
  split at hl
  · rename_i a ha
    rw [h l _ ha]
  · cases hl

theorem stepAt_of_extends {t u : Tree} (h : u.Extends t)
    (hl : ∀ l target, u.at? l = some (.link target) → t.at? l = some (.link target))
    {l : Location} (hdir : t.isDirectoryAt l = true) (s : String) :
    u.stepAt l s = t.stepAt l s ∨ t.stepAt l s = .missing ∧ u.stepAt l s = .on (s :: l) := by
  have hsame : u.isDirectoryAt l = t.isDirectoryAt l := by rw [hdir, h.isDirectoryAt hdir]
  cases ht : t.at? (s :: l) with
  | some e => exact .inl (stepAt_congr hsame (by rw [h _ _ ht, ht]))
  | none =>
    cases hu : u.at? (s :: l) with
    | none => exact .inl (stepAt_congr hsame (by rw [hu, ht]))
    | some e =>
      refine stepAt_filled hsame ht hu fun target he => ?_
      rw [hl _ target (he ▸ hu)] at ht
      cases ht

/-- Where something is put that was missing. -/
def Arrival.Fills (a b : Arrival) : Prop :=
  (∀ l, a = .found l → b = .found l) ∧
    ∀ l s, a = .gap l s false → b = .gap l s false ∨ b = .found (s :: l)

theorem Arrival.fills_refl (a : Arrival) : a.Fills a :=
  ⟨fun _ h => h, fun _ _ h => .inl h⟩

theorem walkUntilLink_fills {t u : Tree} (h : u.Extends t)
    (hl : ∀ l target, u.at? l = some (.link target) → t.at? l = some (.link target))
    {onLink onLink' : Location → String → String → List String → Arrival}
    (hon : ∀ l s target rest, (onLink l s target rest).Fills (onLink' l s target rest))
    (l : Location) (segments : List String) :
    (t.walkUntilLink onLink l segments).Fills (u.walkUntilLink onLink' l segments) := by
  induction segments generalizing l with
  | nil => exact Arrival.fills_refl _
  | cons s rest ih =>
    rw [walkUntilLink_cons, walkUntilLink_cons]
    by_cases hblocked : t.stepAt l s = .blocked
    · rw [hblocked]
      exact ⟨nofun, nofun⟩
    rcases stepAt_of_extends h hl (isDirectoryAt_of_stepAt hblocked) s with
      hsame | ⟨hmissing, hfilled⟩
    · rw [hsame]
      cases t.stepAt l s with
      | blocked => exact Arrival.fills_refl _
      | missing => exact Arrival.fills_refl _
      | on l' => exact ih l'
      | link target => exact hon l s target rest
    · rw [hmissing, hfilled]
      cases rest with
      | nil => simp [walkUntilLink, Arrival.Fills]
      | cons r rest =>
        simp only [List.isEmpty_cons, Bool.not_false]
        split <;> simp [Arrival.Fills]

theorem walkFrom_fills {t u : Tree} (h : u.Extends t)
    (hl : ∀ l target, u.at? l = some (.link target) → t.at? l = some (.link target))
    (followLast : Bool) (links : Nat) (l : Location) (segments : List String) :
    (t.walkFrom followLast links l segments).Fills (u.walkFrom followLast links l segments) := by
  induction links generalizing l segments with
  | zero => exact walkUntilLink_fills h hl (fun _ _ _ _ => Arrival.fills_refl _) l segments
  | succ links ih =>
    refine walkUntilLink_fills h hl (fun l s target rest => ?_) l segments
    dsimp only
    split
    · exact Arrival.fills_refl _
    · exact ih _ _

/-- A path that leads somewhere still does after something was added that is no link; one that led
to a gap leads there still or to what fills it. -/
theorem walk_fills {t u : Tree} (h : u.Extends t)
    (hl : ∀ l target, u.at? l = some (.link target) → t.at? l = some (.link target)) (p : Path) :
    (t.walk p).Fills (u.walk p) := by
  unfold walk walkAll
  split
  · exact Arrival.fills_refl _
  · exact walkFrom_fills h hl true _ _ _

end Walks

end Tree

/-! ## Paths without slashes in their segments -/

theorem slashless_ofText (s : String) : Slashless (Path.ofText s).segments := by
  have hs := slashless_segmentsOf s
  unfold Path.ofText
  split
  · rename_i rest h
    exact fun x hx => hs x (by rw [h]; exact List.mem_cons_of_mem _ hx)
  · exact hs

theorem slashless_join {p : Path} (hp : Slashless p.segments) (s : String) :
    Slashless (p.join s).segments := by
  have hs := slashless_segmentsOf s
  unfold Path.join
  split
  · rename_i next rest h
    exact fun x hx => hs x (by rw [h]; exact List.mem_cons_of_mem _ hx)
  · refine Tree.slashless_append (fun x hx => hp x ?_) hs
    unfold Path.withoutSlash at hx
    split at hx
    · exact List.dropLast_subset _ hx
    · exact hx

theorem slashless_given? {cwd s : String} {p : Path} (h : Path.given? cwd s = some p) :
    Slashless p.segments := by
  unfold Path.given? at h
  split at h
  · cases h
  · cases h
    exact slashless_join (slashless_ofText cwd) s

theorem slashless_resolve {t : Tree} {p : Path} (hp : Slashless p.segments) :
    Slashless (t.resolve p).segments := by
  unfold Tree.resolve
  split
  · rename_i l hl
    intro s hs
    exact ((Tree.straight_of_locate? hp hl).isName s (List.mem_reverse.1 hs)).slashless
  · have hempty : Slashless [""] := by simp [Slashless]
    have hcomponents : Slashless p.components := fun s hs => hp s (List.mem_filter.1 hs).1
    unfold Path.tidy
    refine Tree.slashless_append (Tree.slashless_append ?_ hcomponents) ?_
    · split
      · exact hempty
      · exact nofun
    · split
      · exact hempty
      · exact nofun

end Scaffold
