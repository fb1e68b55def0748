import Scaffold.Proofs.Tree.Action
import Scaffold.Proofs.Tree.Directory

/-!
# Trees that grow

Files are written and directories made, and nothing is taken away. `Keeps` says what such a change
leaves alone: a path that led somewhere leads there still, a directory is one still, and no link
appears. A file that is written does not change what is a directory either (`isDirectory_write?`),
and in a directory that is there a file is all that is made (`perform_writeText_inside`).
-/

namespace Scaffold

/-! ## Paths above a path -/

theorem slashless_above {reversed : List String} (h : Slashless reversed) :
    ∀ p ∈ Path.above reversed, Slashless p.segments := by
  induction reversed with
  | nil => exact nofun
  | cons s rest ih =>
    have hrest : Slashless rest := fun x hx => h x (List.mem_cons_of_mem _ hx)
    intro p hp
    rw [Path.above] at hp
    split at hp
    · exact ih hrest p hp
    · rcases List.mem_cons.1 hp with rfl | hp
      · intro x hx
        exact hrest x ((List.dropWhile_sublist _).subset (List.mem_reverse.1 hx))
      · exact ih hrest p hp

theorem slashless_parents {p : Path} (h : Slashless p.segments) :
    ∀ q ∈ p.parents, Slashless q.segments :=
  slashless_above fun x hx => h x (List.mem_reverse.1 hx)

theorem slashless_ancestors {p : Path} (h : Slashless p.segments) :
    ∀ q ∈ p.ancestors, Slashless q.segments := by
  intro q hq
  rcases List.mem_cons.1 hq with rfl | hq
  · exact h
  · exact slashless_parents h q hq

theorem slashless_parent? {p q : Path} (h : Slashless p.segments) (hq : p.parent? = some q) :
    Slashless q.segments :=
  slashless_parents h q (List.mem_of_mem_head? hq)

namespace Tree

variable {t u v : Tree} {k l : Location} {n : String} {segments : List String} {p : Path}

theorem walkFrom_succ (links : Nat) (l : Location) (segments : List String) :
    t.walkFrom true (links + 1) l segments =
      t.walkUntilLink (fun l _ target rest => t.walkFrom true links (linkTarget l target).1
        ((linkTarget l target).2 ++ rest)) l segments := by
  simp only [walkFrom, Bool.not_true, Bool.and_false, Bool.false_eq_true, if_false]

/-! ## A file that is written -/

/-- Where both lead, they lead to the same place; but the second may lead to `k` alone. -/
def Arrival.AgreesBut (k : Location) (a b : Arrival) : Prop :=
  ∀ m, (a = .found m → b = .found m) ∧ (b = .found m → m ≠ k → a = .found m)

theorem Arrival.agreesBut_refl (k : Location) (a : Arrival) : a.AgreesBut k a :=
  fun _ => ⟨id, fun h _ => h⟩

theorem walkUntilLink_agrees (hk : t.TakesFile k) (content : ByteArray)
    {onLink onLink' : Location → String → String → List String → Arrival}
    (hon : ∀ l s target rest, (onLink l s target rest).AgreesBut k (onLink' l s target rest))
    (l : Location) (segments : List String) :
    (t.walkUntilLink onLink l segments).AgreesBut k
      ((t.put k (.file content)).walkUntilLink onLink' l segments) := by
  induction segments generalizing l with
  | nil => exact Arrival.agreesBut_refl _ _
  | cons s rest ih =>
    rw [walkUntilLink_cons, walkUntilLink_cons]
    rcases stepAt_put_file hk content l s with hsame | ⟨rfl, hmissing, hon'⟩
    · rw [hsame]
      cases t.stepAt l s with
      | blocked => exact Arrival.agreesBut_refl _ _
      | missing => exact Arrival.agreesBut_refl _ _
      | on l' => exact ih l'
      | link target => exact hon l s target rest
    · rw [hmissing, hon']
      have hfile : (t.put (s :: l) (.file content)).isDirectoryAt (s :: l) = false := by
        rw [isDirectoryAt_put_file hk, isDirectoryAt_of_none (stepAt_eq_missing hmissing).2]
      -- the walk over the new file goes no further
      intro m
      refine ⟨fun h => ?_, fun h hm => ?_⟩
      · dsimp only at h
        split at h <;> cases h
      · cases rest with
        | nil => exact absurd (Arrival.found.inj h).symm hm
        | cons r rest =>
          dsimp only at h
          rw [walkUntilLink, hfile, if_pos (by simp)] at h
          cases h

theorem fromRoot_agrees (hk : t.TakesFile k) (content : ByteArray) (segments : List String) :
    (t.fromRoot segments).AgreesBut k ((t.put k (.file content)).fromRoot segments) := by
  have hfrom : ∀ links l segments, (t.walkFrom true links l segments).AgreesBut k
      ((t.put k (.file content)).walkFrom true links l segments) := by
    intro links
    induction links with
    | zero => exact walkUntilLink_agrees hk content fun _ _ _ _ => Arrival.agreesBut_refl _ _
    | succ links ih =>
      intro l segments
      rw [walkFrom_succ, walkFrom_succ]
      exact walkUntilLink_agrees hk content (fun _ _ _ _ => ih _ _) l segments
  exact hfrom _ _ _

theorem walk_of_fromRoot (hnul : (p.segments.any fun s => s.toList.contains '\x00') = false) :
    t.walk p = t.fromRoot p.segments := by
  unfold walk walkAll
  rw [hnul]
  rfl

theorem any_nul_of_walk (h : t.walk p = .found l) :
    (p.segments.any fun s => s.toList.contains '\x00') = false := by
  unfold walk walkAll at h
  split at h
  · cases h
  · rename_i hnul
    simpa using hnul

theorem walk_eq_found_iff : t.walk p = .found l ↔
    (p.segments.any fun s => s.toList.contains '\x00') = false ∧
      t.fromRoot p.segments = .found l := by
  refine ⟨fun h => ⟨any_nul_of_walk h, fromRoot_of_walk h⟩, fun ⟨hnul, h⟩ => ?_⟩
  rw [walk_of_fromRoot hnul, h]

/-- Where what is written to `p` is put: where it leads to a file, or into the gap that it comes
to. -/
inductive Puts (t : Tree) (p : Path) : Location → Prop where
  | onFile {k : Location} {before : ByteArray} : t.walk p = .found k →
    t.at? k = some (.file before) → Puts t p k
  | inGap {d : Location} {n : String} : t.walk p = .gap d n false → t.at? (n :: d) = none →
    Puts t p (n :: d)

theorem Puts.takesFile (h : t.Puts p k) : t.TakesFile k := by
  cases h with
  | @onFile _ before _ hat =>
    refine ⟨at?_ne_nil_of_file hat, fun e he => ⟨before, ?_⟩⟩
    rw [hat] at he
    exact (Option.some.inj he).symm
  | inGap _ hnone =>
    refine ⟨List.cons_ne_nil _ _, fun e he => ?_⟩
    rw [hnone] at he
    cases he

theorem write?_eq_some_iff (hp : Slashless p.segments) {content : ByteArray} :
    t.write? p content = some u ↔ ∃ k, t.Puts p k ∧ u = t.put k (.file content) := by
  unfold write?
  constructor
  · intro h
    split at h
    · rename_i l hl
      split at h
      · rename_i before hat
        cases h
        exact ⟨l, .onFile hl hat, rfl⟩
      · cases h
    · rename_i d n hgap
      cases h
      have hsettled : t.Settled (.gap d n false) := hgap ▸ walk_settled hp
      exact ⟨n :: d, .inGap hgap hsettled.2.2.2, rfl⟩
    · cases h
  · rintro ⟨k, hputs, rfl⟩
    cases hputs with
    | onFile hk hat => simp only [hk, hat]
    | inGap hgap => simp only [hgap]

theorem isDirectory_write? (hp : Slashless p.segments) {content : ByteArray}
    (h : t.write? p content = some u) (q : Path) : u.isDirectory q = t.isDirectory q := by
  obtain ⟨k, hputs, rfl⟩ := (write?_eq_some_iff hp).1 h
  have hk := hputs.takesFile
  have hdir := isDirectoryAt_put_file hk content
  have hkdir : t.isDirectoryAt k = false := by
    unfold isDirectoryAt
    cases hat : t.at? k with
    | none => rfl
    | some e =>
      obtain ⟨before, rfl⟩ := hk.2 e hat
      rfl
  rw [Bool.eq_iff_iff, isDirectory_iff, isDirectory_iff]
  constructor
  · rintro ⟨m, hm, hmdir⟩
    obtain ⟨hnul, hm⟩ := walk_eq_found_iff.1 hm
    rw [hdir] at hmdir
    have hne : m ≠ k := by
      rintro rfl
      rw [hkdir] at hmdir
      cases hmdir
    exact ⟨m, walk_eq_found_iff.2 ⟨hnul, (fromRoot_agrees hk content _ m).2 hm hne⟩, hmdir⟩
  · rintro ⟨m, hm, hmdir⟩
    obtain ⟨hnul, hm⟩ := walk_eq_found_iff.1 hm
    exact ⟨m, walk_eq_found_iff.2 ⟨hnul, (fromRoot_agrees hk content _ m).1 hm⟩,
      (hdir m).trans hmdir⟩

/-! ## What stays -/

/-- Whatever is found in `t` is found in `u` at the same place, directories are directories still,
and no link is new. -/
structure Keeps (u t : Tree) : Prop where
  found : ∀ segments l, t.fromRoot segments = .found l → u.fromRoot segments = .found l
  directory : ∀ l, t.isDirectoryAt l = true → u.isDirectoryAt l = true
  link : ∀ l target, u.at? l = some (.link target) → t.at? l = some (.link target)

theorem Keeps.refl (t : Tree) : t.Keeps t :=
  ⟨fun _ _ h => h, fun _ h => h, fun _ _ h => h⟩

theorem Keeps.trans (h : u.Keeps t) (h' : v.Keeps u) : v.Keeps t where
  found segments l hl := h'.found segments l (h.found segments l hl)
  directory l hl := h'.directory l (h.directory l hl)
  link l target hl := h.link l target (h'.link l target hl)

theorem Keeps.walk (h : u.Keeps t) (hl : t.walk p = .found l) : u.walk p = .found l :=
  walk_eq_found_iff.2 ((walk_eq_found_iff.1 hl).imp_right (h.found _ _))

theorem pathExists_iff : t.pathExists p = true ↔ ∃ l, t.walk p = .found l := by
  unfold pathExists locate?
  cases t.walk p <;> simp

theorem locate?_eq_some_iff : t.locate? p = some l ↔ t.walk p = .found l := by
  unfold locate?
  cases t.walk p <;> simp

theorem Keeps.pathExists (h : u.Keeps t) (hp : t.pathExists p = true) : u.pathExists p = true := by
  obtain ⟨l, hl⟩ := pathExists_iff.1 hp
  exact pathExists_iff.2 ⟨l, h.walk hl⟩

theorem pathExists_of_text? {text : String} (h : t.text? p = some text) :
    t.pathExists p = true := by
  unfold text? find? at h
  unfold pathExists
  cases hl : t.locate? p with
  | none => rw [hl] at h; cases h
  | some l => rfl

theorem resolve_of_walk (h : t.walk p = .found l) : t.resolve p = .ofLocation l :=
  resolve_of_locate? (locate?_eq_some_iff.2 h)

theorem resolve_of_missing (h : t.pathExists p = false) : t.resolve p = p.tidy := by
  unfold resolve
  unfold Tree.pathExists at h
  rw [Option.isSome_eq_false_iff, Option.isNone_iff_eq_none] at h
  rw [h]

/-- The path of a straight location is resolved to itself, even if it cannot be spelled. -/
theorem resolve_ofLocation (h : t.Straight l) : t.resolve (.ofLocation l) = .ofLocation l := by
  rcases walk_straight h with hfound | hblocked
  · exact resolve_of_walk hfound
  · have hmissing : t.pathExists (.ofLocation l) = false := by
      unfold pathExists locate?
      rw [Path.ofLocation, hblocked]
      rfl
    rw [resolve_of_missing hmissing, Path.tidy_ofLocation h.isName]

theorem Keeps.resolve (h : u.Keeps t) (hp : t.pathExists p = true) :
    u.resolve p = t.resolve p := by
  obtain ⟨l, hl⟩ := pathExists_iff.1 hp
  rw [resolve_of_walk hl, resolve_of_walk (h.walk hl)]

theorem keeps_write? (hp : Slashless p.segments) {content : ByteArray}
    (h : t.write? p content = some u) : u.Keeps t := by
  obtain ⟨k, hputs, rfl⟩ := (write?_eq_some_iff hp).1 h
  have hk := hputs.takesFile
  refine ⟨fun segments l => (fromRoot_agrees hk content segments l).1, fun l hl => ?_,
    link_of_put hk.1 _ fun _ => Entry.noConfusion⟩
  rwa [isDirectoryAt_put_file hk]

theorem keeps_makeDirectory (hp : Slashless p.segments) {a : Access}
    (h : t.makeDirectory p a = .ok u) : u.Keeps t := by
  unfold makeDirectory at h
  split at h
  · rename_i d s slash hgap
    cases h
    have hne : s :: d ≠ [] := List.cons_ne_nil s d
    have hlinks := link_of_put (t := t) hne (.directory a) fun _ => Entry.noConfusion
    have hext := extends_put hne (at?_of_walkToLink hp hgap) (.directory a)
    exact ⟨fun segments => (walkFrom_fills hext hlinks true mostLinks [] segments).1,
      fun _ => hext.isDirectoryAt, hlinks⟩
  all_goals cases h

theorem keeps_makeDirectories {ps : List Path} (hps : ∀ p ∈ ps, Slashless p.segments) :
    (t.makeDirectories ps).1.Keeps t := by
  induction ps with
  | nil => exact Keeps.refl t
  | cons p above ih =>
    have hp := hps p List.mem_cons_self
    have habove := ih fun q hq => hps q (List.mem_cons_of_mem _ hq)
    rw [makeDirectories]
    split
    · rename_i v hv
      exact keeps_makeDirectory hp hv
    · exact Keeps.refl t
    · split
      · rename_i v hv
        rw [hv] at habove
        exact habove
      · rename_i v hv
        rw [hv] at habove
        split
        · rename_i w hw
          exact habove.trans (keeps_makeDirectory hp hw)
        · exact habove

/-! ## Directories that are made -/

/-- What is new in `u` are directories, where nothing was in `t`. -/
def AddsDirectories (u t : Tree) : Prop :=
  ∀ l, u.at? l = t.at? l ∨ t.at? l = none ∧ u.at? l = some (.directory .everyone)

theorem AddsDirectories.refl (t : Tree) : t.AddsDirectories t := fun _ => .inl rfl

theorem AddsDirectories.trans (h : u.AddsDirectories t) (h' : v.AddsDirectories u) :
    v.AddsDirectories t := by
  intro l
  rcases h' l with hv | ⟨hnone, hv⟩
  · rw [hv]
    exact h l
  · rcases h l with hu | ⟨hnone', hu⟩
    · exact .inr ⟨hu.symm.trans hnone, hv⟩
    · rw [hnone] at hu
      cases hu

theorem addsDirectories_makeDirectory (hp : Slashless p.segments)
    (h : t.makeDirectory p .everyone = .ok u) : u.AddsDirectories t := by
  unfold makeDirectory at h
  split at h
  · rename_i d s slash hgap
    cases h
    intro l
    rw [at?_put t (List.cons_ne_nil s d)]
    split
    · rename_i heq
      subst heq
      exact .inr ⟨at?_of_walkToLink hp hgap, rfl⟩
    · exact .inl rfl
  all_goals cases h

theorem addsDirectories_makeDirectories {ps : List Path} (hps : ∀ p ∈ ps, Slashless p.segments) :
    (t.makeDirectories ps).1.AddsDirectories t := by
  induction ps with
  | nil => exact AddsDirectories.refl t
  | cons p above ih =>
    have hp := hps p List.mem_cons_self
    have habove := ih fun q hq => hps q (List.mem_cons_of_mem _ hq)
    rw [makeDirectories]
    split
    · rename_i v hv
      exact addsDirectories_makeDirectory hp hv
    · exact AddsDirectories.refl t
    · split
      · rename_i v hv
        rw [hv] at habove
        exact habove
      · rename_i v hv
        rw [hv] at habove
        split
        · rename_i w hw
          exact habove.trans (addsDirectories_makeDirectory hp hw)
        · exact habove

/-! ## Directories that are there -/

theorem pathExists_of_isDirectory (h : t.isDirectory p = true) : t.pathExists p = true := by
  obtain ⟨l, hl, -⟩ := isDirectory_iff.1 h
  exact pathExists_iff.2 ⟨l, hl⟩

theorem withoutSlashes_of_getLast? (hlast : segments.getLast? ≠ some "") :
    (segments.reverse.dropWhile (· == "")).reverse = segments := by
  cases hrev : segments.reverse with
  | nil => rw [List.reverse_eq_nil_iff.1 hrev]; rfl
  | cons s rest =>
    have hs : s ≠ "" := by
      rintro rfl
      refine hlast ?_
      rw [← List.head?_reverse, hrev]
      rfl
    rw [List.dropWhile_cons, if_neg (by simpa using hs), ← hrev, List.reverse_reverse]

theorem walkToLink_of_pathExists (hlast : p.segments.getLast? ≠ some "")
    (h : t.pathExists p = true) : ∃ m, t.walkToLink p = .found m := by
  obtain ⟨l, hl⟩ := pathExists_iff.1 h
  obtain ⟨hnul, hl⟩ := walk_eq_found_iff.1 hl
  unfold walkToLink walkAll
  rw [withoutSlashes_of_getLast? hlast, hnul, if_neg Bool.false_ne_true]
  rcases walkFrom_follow (t := t) mostLinks [] p.segments with hsame | ⟨m, target, hm, -⟩
  · exact ⟨l, hsame.trans hl⟩
  · exact ⟨m, hm⟩

theorem makeDirectories_of_pathExists (hlast : p.segments.getLast? ≠ some "")
    (h : t.pathExists p = true) (above : List Path) :
    t.makeDirectories (p :: above) = (t, t.isDirectory p) := by
  obtain ⟨m, hm⟩ := walkToLink_of_pathExists hlast h
  rw [makeDirectories, makeDirectory, hm]

end Tree

namespace Action

open Scaffold.Tree

variable {t t' : Tree} {p : Path} {text : String} {u : Unit}

theorem keeps_writeText (hp : Slashless p.segments)
    (h : (writeText p text).perform t = (.ok u, t')) : t'.Keeps t := by
  unfold writeText at h
  cases hparent : p.parent? with
  | none =>
    simp only [hparent] at h
    exact keeps_write? hp (perform_replace_ok_iff.1 h)
  | some parent =>
    simp only [hparent] at h
    obtain ⟨_, v, hmade, hwrite⟩ := perform_bind_ok h
    have hv := keeps_makeDirectories (t := t) (slashless_ancestors (slashless_parent? hp hparent))
    rw [perform_makeDirectories_ok hmade] at hv
    exact hv.trans (keeps_write? hp (perform_replace_ok_iff.1 hwrite))

theorem perform_writeText_inside {parent : Path} (hparent : p.parent? = some parent)
    (hlast : parent.segments.getLast? ≠ some "") (hdir : t.isDirectory parent = true) :
    (writeText p text).perform t =
      match t.write? p text.toUTF8 with
      | some t' => (.ok (), t')
      | none => (.error (.other ("Failed to write file: " ++ p.text)), t) := by
  have hthere : t.makeDirectories parent.ancestors = (t, true) := by
    rw [← hdir]
    exact makeDirectories_of_pathExists hlast (pathExists_of_isDirectory hdir) parent.parents
  have hmade : (makeDirectories parent).perform t = (.ok (), t) := by
    unfold makeDirectories
    rw [perform_get_bind]
    simp only [hthere]
    rfl
  unfold writeText
  simp only [hparent]
  rw [perform_bind_of_ok hmade, replace, perform_get_bind]
  cases t.write? p text.toUTF8 <;> rfl

end Action

end Scaffold
