import Scaffold.Proofs.Flow.Record
import Scaffold.Proofs.Project.Completion

/-!
# Projects that are found

A run leaves something under the marker's name, and the search takes a directory of that name for
a marker. So the project is found, from its directory and from all below it that have no nearer
marker (`Marker.Nearest`), if and only if what has the name is a directory (`createIn_marks`). All
paths are as they are given in a directory, the empty one apart.
-/

namespace Scaffold

variable {t t' : Tree} {l m : Location}

namespace Marker

/-- The path `q` leads to what is at or below the directory that `dir` leads to, and nothing on the
way up from there to that directory has a marker. -/
def Nearest (t : Tree) (dir q : Path) : Prop :=
  ∃ l m, t.locate? dir = some l ∧ t.locate? q = some m ∧ l <:+ m ∧
    ∀ k, k <:+ m → l <:+ k → k ≠ l → ¬ IsIn t k

theorem nearest_refl {dir : Path} (h : t.locate? dir = some l) : Nearest t dir dir :=
  ⟨l, l, h, h, List.suffix_refl l,
    fun _ hk hl hne => absurd (hk.eq_of_length_le hl.length_le) hne⟩

/-- From where a marker is the nearest it is found, and so is the directory that it is in. -/
theorem find?_of_nearest {dir q : Path} (hq : Slashless q.segments)
    (hl : t.locate? dir = some l) (hin : IsIn t l) (h : Nearest t dir q) :
    find? t q = some (.ofLocation (name :: l)) ∧ findRoot? t q = some (.ofLocation l) := by
  obtain ⟨l', m, hl', hm, hsuffix, hnear⟩ := h
  obtain rfl : l' = l := Option.some.inj (hl'.symm.trans hl)
  have hresolve : t.resolve q = .ofLocation m :=
    Tree.resolve_of_walk (Tree.locate?_eq_some_iff.1 hm)
  refine findRoot?_of_deepest (Tree.straight_of_locate? hq hm).isName hresolve
    ⟨hsuffix, hin, fun k hk hkin => ?_⟩
  -- both are on one way up, so one is above the other
  rcases List.suffix_or_suffix_of_suffix hk hsuffix with habove | hbelow
  · exact habove
  · obtain rfl : k = l' := by_contra fun hne => hnear k hk hbelow hne hkin
    exact List.suffix_refl k

end Marker

namespace Init

variable {git : Git.Facts} {o : Options} {created : List String}

/-- After a run that succeeds the marker is found in the directory exactly if it is a directory. From
wherever it is the nearest it is found too, and a registration from there does not fail for want
of a marker unless its loader says so. -/
theorem createIn_marks {cwd dir : String} {p : Path} (ht : t.Spellable)
    (hp : Path.given? cwd dir = some p) (h : (createIn git p o).perform t = (.ok created, t')) :
    (t.pathExists p = true → t'.resolve p = t.resolve p) ∧
    (Marker.find? t' p = some ((t'.resolve p).join Marker.name) ↔
      t'.isDirectory ((t'.resolve p).join Marker.name) = true) ∧
    (t'.isDirectory ((t'.resolve p).join Marker.name) = true →
      ∀ q start, Path.given? cwd q = some start → Marker.Nearest t' p start →
        Marker.find? t' start = some ((t'.resolve p).join Marker.name) ∧
        Marker.findRoot? t' start = some (t'.resolve p) ∧
        ∀ entrypoint force (load : GivenLoader) u,
          (registerGiven cwd q entrypoint force load).perform t' = (.error .noMarker, u) →
          ∃ file function, (load file function).perform t' = (.error .noMarker, u)) := by
  have hslash := slashless_given? hp
  obtain ⟨l, hl⟩ := completed_of_createIn ht hslash h
  have hplace := Tree.locate?_eq_some_iff.2 hl.walk
  have hjoin := hl.join (n := Marker.name) (by decide)
  have hfound : t'.isDirectory ((t'.resolve p).join Marker.name) = true →
      ∀ start, Slashless start.segments → Marker.Nearest t' p start →
        Marker.find? t' start = some ((t'.resolve p).join Marker.name) ∧
        Marker.findRoot? t' start = some (t'.resolve p) := by
    intro hin start hstart hnearest
    rw [hjoin] at hin ⊢
    rw [hl.resolve]
    exact Marker.find?_of_nearest hstart hplace hin hnearest
  refine ⟨fun hexists => hl.keeps.resolve hexists, ⟨Marker.isDirectory_of_find?, fun hin => ?_⟩,
    fun hin q start hq hnearest => ?_⟩
  · exact (hfound hin p hslash (Marker.nearest_refl hplace)).1
  · obtain ⟨hfind, hroot⟩ := hfound hin start (slashless_given? hq) hnearest
    refine ⟨hfind, hroot, fun entrypoint force load u hu => ?_⟩
    rw [registerGiven, hq] at hu
    obtain ⟨file, function, hload⟩ := noMarker_of_loader hroot hu
    exact ⟨some file, function, hload⟩

def nestedDirectories : Tree :=
  ⟨[(["p"], .directory .everyone), (["sub", "p"], .directory .everyone)]⟩

theorem createIn_marks_below :
    ∃ t', nestedDirectories.Spellable ∧ Path.given? "/p" "." = some ⟨["p", "."]⟩ ∧
      (createIn ⟨none, none⟩ ⟨["p", "."]⟩ anything).perform nestedDirectories =
        (.ok [".prefectignore", "prefect.yaml", ".prefect/"], t') ∧
      t'.isDirectory (.ofText "/p/.prefect") = true ∧
      Path.given? "/p" "sub" = some (.ofText "/p/sub") ∧
      Marker.Nearest t' ⟨["p", "."]⟩ (.ofText "/p/sub") ∧
      Marker.find? t' (.ofText "/p/sub") = some (.ofText "/p/.prefect") ∧
      Marker.findRoot? t' (.ofText "/p/sub") = some (.ofText "/p") := by
  have hspell : nestedDirectories.Spellable :=
    Tree.spellable_of_entries (by simp [nestedDirectories])
  have hgiven : Path.given? "/p" "." = some ⟨["p", "."]⟩ := by decide
  have hbelow : Path.given? "/p" "sub" = some (.ofText "/p/sub") := by decide
  obtain ⟨t', hrun⟩ : ∃ t', (createIn ⟨none, none⟩ ⟨["p", "."]⟩ anything).perform
      nestedDirectories = (.ok [".prefectignore", "prefect.yaml", ".prefect/"], t') :=
    Action.perform_of_toOption (by decide +kernel)
  obtain ⟨hresolve, hmarked, hdir, hsub, hbare⟩ :
      t'.resolve ⟨["p", "."]⟩ = .ofText "/p" ∧ t'.isDirectory (.ofText "/p/.prefect") = true ∧
      t'.locate? ⟨["p", "."]⟩ = some ["p"] ∧ t'.locate? (.ofText "/p/sub") = some ["sub", "p"] ∧
      t'.isDirectory (.ofLocation [Marker.name, "sub", "p"]) = false := by
    rw [← Action.snd_perform hrun]
    decide +kernel
  have hnearest : Marker.Nearest t' ⟨["p", "."]⟩ (.ofText "/p/sub") := by
    refine ⟨["p"], ["sub", "p"], hdir, hsub, by simp, fun k hk hl hne hin => ?_⟩
    rcases List.suffix_cons_iff.1 hk with rfl | hk
    · exact Bool.false_ne_true (hbare.symm.trans hin)
    · exact hne (hk.eq_of_length_le hl.length_le)
  have hjoin : (Path.ofText "/p").join Marker.name = .ofText "/p/.prefect" := by decide
  have hmarks := (createIn_marks hspell hgiven hrun).2.2
  rw [hresolve, hjoin] at hmarks
  obtain ⟨hfind, hroot, -⟩ := hmarks hmarked "sub" _ hbelow hnearest
  exact ⟨t', hspell, hgiven, hrun, hmarked, hbelow, hnearest, hfind, hroot⟩

def fileAtMarker : Tree :=
  ⟨[(["p"], .directory .everyone), ([".prefect", "p"], .file "".toUTF8)]⟩

/-- A file of the marker's name is left alone, and no marker is found. From the empty path a marker
is found, but by another path than from below. -/
theorem createIn_leaves_file :
    (∃ t', (createIn ⟨none, none⟩ (.ofText "/p") anything).perform fileAtMarker =
        (.ok [".prefectignore", "prefect.yaml"], t') ∧
      Marker.find? t' (.ofText "/p") = none ∧ Marker.findRoot? t' (.ofText "/p") = none) ∧
    ∃ t', (initGiven "/p" "" anything).perform nestedDirectories =
        (.ok [".prefectignore", "prefect.yaml", ".prefect/"], t') ∧
      Marker.findGiven? t' "/p" "" = some ".prefect" ∧
      Marker.findGiven? t' "/p" "sub" = some "/p/.prefect" := by
  obtain ⟨t₁, hfile⟩ : ∃ t', (createIn ⟨none, none⟩ (.ofText "/p") anything).perform
      fileAtMarker = (.ok [".prefectignore", "prefect.yaml"], t') :=
    Action.perform_of_toOption (by decide +kernel)
  obtain ⟨t₂, hempty⟩ : ∃ t', (initGiven "/p" "" anything).perform nestedDirectories =
      (.ok [".prefectignore", "prefect.yaml", ".prefect/"], t') :=
    Action.perform_of_toOption (by decide +kernel)
  refine ⟨⟨t₁, hfile, ?_⟩, t₂, hempty, ?_⟩
  · rw [← Action.snd_perform hfile]
    decide +kernel
  · rw [← Action.snd_perform hempty]
    decide +kernel

end Init

end Scaffold
