import Mathlib.Data.List.Infix
import Scaffold.Project.Marker
import Scaffold.Proofs.Tree.Growth
import Scaffold.Proofs.Tree.Location

/-!
# The nearest marker

The search for a marker goes up from the location that its start leads to, and finds the marker of
the deepest location on the way that has one (`Marker.Deepest`). So it finds the same marker from
everywhere between the two (`Marker.finds_deepest`).
-/

namespace Scaffold

variable {t : Tree} {l m : Location}

namespace Marker

theorem segmentsOf_name : segmentsOf name = [name] := by decide

theorem isName_name : IsName name := by
  refine ⟨by decide, by decide, by decide, by decide⟩

/-! ## Markers on the way up -/

def IsIn (t : Tree) (l : Location) : Prop :=
  t.isDirectory (.ofLocation (name :: l)) = true

instance (t : Tree) : DecidablePred (IsIn t) := fun _ =>
  inferInstanceAs (Decidable (_ = true))

/-- Of `m` and the locations above it, `l` is the deepest that has a marker in it. -/
structure Deepest (t : Tree) (m l : Location) : Prop where
  above : l <:+ m
  isIn : IsIn t l
  deepest : ∀ k, k <:+ m → IsIn t k → k <:+ l

theorem Deepest.unique {k : Location} (h : Deepest t m l) (hk : Deepest t m k) : l = k :=
  (hk.deepest l h.above h.isIn).eq_of_length_le (h.deepest k hk.above hk.isIn).length_le

theorem Deepest.between {k : Location} (h : Deepest t m l) (hl : l <:+ k) (hk : k <:+ m) :
    Deepest t k l :=
  ⟨hl, h.isIn, fun _ hj => h.deepest _ (hj.trans hk)⟩

/-- Going up, the first location with a marker is the deepest. -/
theorem find?_tails_eq_some_iff :
    m.tails.find? (fun l => decide (IsIn t l)) = some l ↔ Deepest t m l := by
  induction m with
  | nil =>
    rw [List.tails, List.find?_singleton]
    constructor
    · intro h
      split at h
      · rename_i hin
        cases h
        exact ⟨List.suffix_refl _, of_decide_eq_true hin, fun _ hk _ => hk⟩
      · cases h
    · intro h
      obtain rfl := List.suffix_nil.1 h.above
      rw [if_pos (decide_eq_true h.isIn)]
  | cons s m ih =>
    rw [List.tails_cons, List.find?_cons]
    by_cases hin : IsIn t (s :: m)
    · rw [decide_eq_true hin]
      constructor
      · rintro ⟨⟩
        exact ⟨List.suffix_refl _, hin, fun _ hk _ => hk⟩
      · intro h
        have hback := h.deepest _ (List.suffix_refl _) hin
        rw [h.above.eq_of_length_le hback.length_le]
    · rw [decide_eq_false hin]
      dsimp only
      rw [ih]
      constructor
      · intro h
        refine ⟨h.above.trans (List.suffix_cons s m), h.isIn, fun k hk hkin => ?_⟩
        rcases List.suffix_cons_iff.1 hk with rfl | hk
        · exact absurd hkin hin
        · exact h.deepest k hk hkin
      · intro h
        rcases List.suffix_cons_iff.1 h.above with rfl | habove
        · exact absurd h.isIn hin
        · exact ⟨habove, h.isIn, fun k hk => h.deepest k (hk.trans (List.suffix_cons s m))⟩

/-! ## What is found -/

section Found

variable {start marker : Path}

theorem isDirectory_of_find? (h : find? t start = some marker) : t.isDirectory marker = true :=
  List.find?_some h

theorem slashless_of_find? (hstart : Slashless start.segments) (h : find? t start = some marker) :
    Slashless marker.segments := by
  obtain ⟨p, hp, rfl⟩ := List.mem_map.1 (List.mem_of_find?_eq_some h)
  exact slashless_join (slashless_ancestors (slashless_resolve hstart) p hp) name

variable (hm : ∀ s ∈ m, IsName s) (hstart : t.resolve start = .ofLocation m)

include hm hstart

theorem find?_eq_map : find? t start =
    (m.tails.find? fun l => decide (IsIn t l)).map fun l => .ofLocation (name :: l) := by
  have hjoin : (m.tails.map Path.ofLocation).map (fun p => p.join name) =
      m.tails.map fun l => .ofLocation (name :: l) := by
    rw [List.map_map]
    refine List.map_congr_left fun l hl => ?_
    have hsuffix := (List.mem_tails _ _).1 hl
    exact Path.join_ofLocation (fun s hs => hm s (hsuffix.subset hs)) segmentsOf_name
  have htest : (t.isDirectory ∘ fun l => Path.ofLocation (name :: l)) =
      fun l => decide (IsIn t l) := by
    funext l
    exact Bool.decide_eq_true.symm
  unfold find?
  rw [hstart, Path.ancestors_ofLocation hm, hjoin, List.find?_map, htest]

theorem find?_eq_some_iff : find? t start = some marker ↔
    ∃ l, Deepest t m l ∧ marker = .ofLocation (name :: l) := by
  rw [find?_eq_map hm hstart, Option.map_eq_some_iff]
  refine exists_congr fun l => ?_
  rw [find?_tails_eq_some_iff, eq_comm (a := marker)]

theorem find?_eq_none_iff : find? t start = none ↔ ∀ k, k <:+ m → ¬ IsIn t k := by
  rw [find?_eq_map hm hstart, Option.map_eq_none_iff, List.find?_eq_none]
  simp [List.mem_tails]

theorem findRoot?_of_deepest (h : Deepest t m l) :
    find? t start = some (.ofLocation (name :: l)) ∧ findRoot? t start = some (.ofLocation l) := by
  have hfind := (find?_eq_some_iff hm hstart).2 ⟨l, h, rfl⟩
  have hnames : ∀ s ∈ name :: l, IsName s :=
    List.forall_mem_cons.2 ⟨isName_name, fun s hs => hm s (h.above.subset hs)⟩
  refine ⟨hfind, ?_⟩
  unfold findRoot?
  rw [hfind]
  exact Path.parent?_ofLocation_cons hnames

end Found

/-- From where something is, the search goes up the location that it is at once links are followed,
and finds the marker of the deepest location on the way that has one, or nothing if none has. From
that location, and from all between, it finds the same marker and the same project. -/
theorem finds_deepest {start : String} (h : t.locate? (.ofText start) = some m) :
    t.resolve (.ofText start) = .ofLocation m ∧
    (∀ l, find? t (.ofText start) = some (.ofLocation (name :: l)) ↔ Deepest t m l) ∧
    (find? t (.ofText start) = none ↔ ∀ k, k <:+ m → ¬ IsIn t k) ∧
    ∀ marker, find? t (.ofText start) = some marker →
      ∃ l, Deepest t m l ∧ marker = (Path.ofLocation l).join name ∧
        findRoot? t (.ofText start) = some (.ofLocation l) ∧
        ∀ k, l <:+ k → k <:+ m →
          find? t (.ofLocation k) = some marker ∧
            findRoot? t (.ofLocation k) = some (.ofLocation l) := by
  have hstraight := Tree.straight_of_locate? (slashless_ofText start) h
  have hm := hstraight.isName
  have hresolve := Tree.resolve_of_walk (Tree.locate?_eq_some_iff.1 h)
  refine ⟨hresolve, fun l => ?_, find?_eq_none_iff hm hresolve, fun marker hfind => ?_⟩
  · rw [find?_eq_some_iff hm hresolve]
    constructor
    · rintro ⟨k, hk, heq⟩
      have hlocations := List.reverse_injective (congrArg Path.segments heq)
      rwa [(List.cons.inj hlocations).2]
    · exact fun hl => ⟨l, hl, rfl⟩
  · obtain ⟨l, hl, rfl⟩ := (find?_eq_some_iff hm hresolve).1 hfind
    have hnames : ∀ s ∈ l, IsName s := fun s hs => hm s (hl.above.subset hs)
    refine ⟨l, hl, (Path.join_ofLocation hnames segmentsOf_name).symm,
      (findRoot?_of_deepest hm hresolve hl).2, fun k hlk hkm => ?_⟩
    have hk := hstraight.suffix hkm
    exact findRoot?_of_deepest hk.isName (Tree.resolve_ofLocation hk) (hl.between hlk hkm)

/-- A project whose marker is a link, in another one; on the way to it a file has the marker's name,
and a link leads to a directory below that file. -/
def linkedMarker : Tree :=
  ⟨[([".prefect"], .directory .everyone), (["store"], .directory .everyone),
    (["p"], .directory .everyone), ([".prefect", "p"], .link "../store"),
    (["sub", "p"], .directory .everyone), ([".prefect", "sub", "p"], .file "".toUTF8),
    (["deep", "sub", "p"], .directory .everyone), (["l"], .link "p/sub/deep")]⟩

/-- The file is passed over, the outer project is never reached, and the way up is that of the
directory that the link leads to. -/
theorem finds_deepest_linked :
    linkedMarker.locate? (.ofText "/l/.") = some ["deep", "sub", "p"] ∧
      Deepest linkedMarker ["deep", "sub", "p"] ["p"] ∧
      find? linkedMarker (.ofText "/l/.") = some (.ofText "/p/.prefect") ∧
      findRoot? linkedMarker (.ofText "/l/.") = some (.ofText "/p") ∧
      find? linkedMarker (.ofText "/p/sub") = some (.ofText "/p/.prefect") ∧
      findRoot? linkedMarker (.ofText "/p") = some (.ofText "/p") := by
  have hlocate : linkedMarker.locate? (.ofText "/l/.") = some ["deep", "sub", "p"] := by
    decide +kernel
  have hfind : find? linkedMarker (.ofText "/l/.") = some (.ofLocation [name, "p"]) := by
    decide +kernel
  have hmarker : Path.ofLocation [name, "p"] = .ofText "/p/.prefect" := by decide
  have hroot : Path.ofLocation ["p"] = .ofText "/p" := by decide
  have hsub : Path.ofLocation ["sub", "p"] = .ofText "/p/sub" := by decide
  obtain ⟨-, hdeepest, -, hstable⟩ := finds_deepest hlocate
  have hp := (hdeepest ["p"]).1 hfind
  obtain ⟨l, hl, hjoin, hstart, hbetween⟩ := hstable _ hfind
  obtain rfl : l = ["p"] := hl.unique hp
  have hfromSub := (hbetween ["sub", "p"] (by simp) (by simp)).1
  have hfromRoot := (hbetween ["p"] (List.suffix_refl _) hp.above).2
  rw [hmarker] at hfind hfromSub
  rw [hroot] at hstart hfromRoot
  rw [hsub] at hfromSub
  exact ⟨hlocate, hp, hfind, hstart, hfromSub, hfromRoot⟩

end Marker

end Scaffold
