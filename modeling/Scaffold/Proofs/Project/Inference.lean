import Scaffold.Proofs.Project.Init
import Scaffold.Proofs.Template.Composition
import Scaffold.Proofs.Template.Report
import Scaffold.Proofs.Tree.Component
import Scaffold.Proofs.Tree.Passage

/-!
# What a new project leaves open

The recipe that suits a project and the values of its placeholders are inferred from the same facts.
So of what can be inferred at all, the recipe that suits asks only for what is inferred
(`inferred?_isSome_of_mem`), and its configuration leaves open what neither can be inferred nor is
among the inputs (`createIn_leaves_open`). All this is so unless a value brings in braces.
-/

namespace Scaffold

open Scaffold.Text (Dictionary)
open Scaffold.Template
open Scaffold.Yaml (Value Mapping)

theorem BraceFree.fileName? {p : Path} (hp : Slashless p.segments) (h : BraceFree p.text)
    {name : String} (hname : p.fileName? = some name) : BraceFree name := by
  have hmem : name ∈ p.components := by
    unfold Path.fileName? at hname
    split at hname
    · cases hname
    · exact List.mem_of_getLast? hname
  rw [← Path.namesOf_text hp] at hmem
  exact fun c hc => h c (Tree.mem_of_mem_segmentsOf (List.mem_filter.1 hmem).1 hc)

namespace Init

def inferable : List String :=
  ["directory", "name", "repository", "branch", "dockerfile"]

/-! ## What is inferred -/

namespace Surroundings

variable {s : Surroundings} {o : Options} {n value : String}

/-- No brace is in the directory's path, nor in what is known of the repository. -/
structure IsBraceFree (s : Surroundings) : Prop where
  directory : BraceFree s.directory.text
  remote : ∀ url ∈ s.git.remote, BraceFree url
  branch : ∀ branch ∈ s.git.branch, BraceFree branch

theorem inferred?_cases {recipe : Option String} (h : s.inferred? recipe n = some value) :
    value = s.directory.text ∨ value = s.name ∨ s.git.remote = some value ∨
      value = s.git.branch.getD defaultBranch ∨ value = dockerfile ∨ value = "auto" := by
  unfold inferred? at h
  cases hremote : s.git.remote <;> grind

theorem IsBraceFree.inferred? (h : s.IsBraceFree) (hs : Slashless s.directory.segments)
    {recipe : Option String} (hvalue : s.inferred? recipe n = some value) : BraceFree value := by
  rcases inferred?_cases hvalue with rfl | rfl | hremote | rfl | rfl | rfl
  · exact h.directory
  · unfold Surroundings.name
    cases hname : s.directory.fileName? with
    | none => exact nofun
    | some name => exact BraceFree.fileName? hs h.directory hname
  · exact h.remote value hremote
  · cases hbranch : s.git.branch with
    | none => decide
    | some branch => exact h.branch branch hbranch
  · decide
  · decide

theorem IsBraceFree.values (h : s.IsBraceFree) (hs : Slashless s.directory.segments)
    (hinputs : BraceFreeValues o.inputs) : BraceFreeValues (s.values o) := by
  refine .of_get? fun name value hvalue => ?_
  rw [get?_values, value?, Option.or_eq_some_iff] at hvalue
  rcases hvalue with hvalue | ⟨-, hvalue⟩
  · exact hinputs.get? hvalue
  · exact h.inferred? hs hvalue

theorem inferred?_of_not_mem (h : n ∉ inferable) (recipe : Option String) :
    s.inferred? recipe n = none := by
  simp only [inferable, List.mem_cons, List.not_mem_nil, or_false, not_or] at h
  obtain ⟨hdirectory, hname, hrepository, hbranch, hdockerfile⟩ := h
  unfold inferred?
  rw [if_neg hdirectory, if_neg hname, if_neg hrepository, if_neg hbranch, if_neg hdockerfile]

/-- The repository and the branch are asked for only where there is a remote, and the file that an
image is built from only where there is one. -/
theorem mem_placeholders_infer : ∀ hasRemote hasDockerfile,
    ∀ n ∈ (Recipe.infer hasRemote hasDockerfile).placeholders,
      (n = "repository" ∨ n = "branch" → hasRemote = true) ∧
        (n = "dockerfile" → hasDockerfile = true) := by
  decide +kernel

/-- Of what can be inferred at all, the recipe that suits asks only for what is inferred. -/
theorem inferred?_isSome_of_mem
    (hn : n ∈ (Recipe.infer s.git.remote.isSome s.hasDockerfile).placeholders)
    (hinferable : n ∈ inferable) (recipe : Option String) :
    (s.inferred? recipe n).isSome = true := by
  obtain ⟨hremote, hdockerfile⟩ := mem_placeholders_infer _ _ n hn
  simp only [inferable, List.mem_cons, List.not_mem_nil, or_false] at hinferable
  rcases hinferable with rfl | rfl | rfl | rfl | rfl
  · rfl
  · rfl
  · exact hremote (.inl rfl)
  · exact (Option.isSome_map (x := s.git.remote)).trans (hremote (.inr rfl))
  · unfold inferred?
    rw [hdockerfile rfl]
    rfl

theorem inferred?_dockerfile {recipe : Option String} (h : callsForImage recipe = true) :
    (s.inferred? recipe "dockerfile").isSome = true := by
  unfold inferred?
  cases hfile : s.hasDockerfile <;> simp [h]

end Surroundings

/-! ## What is left open -/

/-- `m` is the configuration that is made of `dir`, and wherever a run writes the file, this is what
it writes there under the project's name. -/
structure Builds (t : Tree) (git : Git.Facts) (dir : String) (o : Options) (m : Mapping) : Prop
    where
  configure_eq : Recipe.configure ((survey t git (.ofText dir)).recipe o)
    ((survey t git (.ofText dir)).values o) = .ok m
  written : ∀ t' created, (createIn git (.ofText dir) o).perform t = (.ok created, t') →
    Config.fileName ∈ created →
      ∃ text, Config.render
          (Config.stamp m (o.name.getD (survey t git (.ofText dir)).name)) = .ok text ∧
        t'.text? ((t.resolve (.ofText dir)).join Config.fileName) = some text

section

variable {t : Tree} {git : Git.Facts} {dir : String} {o : Options}

/-- What a configuration leaves open are the placeholders of its recipe that have no value. -/
theorem exists_builds {r : Recipe}
    (hr : Recipe.ofName? ((survey t git (.ofText dir)).recipe o) = some r)
    (hs : (survey t git (.ofText dir)).IsBraceFree) (hinputs : BraceFreeValues o.inputs) :
    ∃ m, Builds t git dir o m ∧ collect (.mapping m) =
      r.placeholders.filter fun n => ((survey t git (.ofText dir)).value? o n).isNone := by
  have hslash : Slashless (survey t git (.ofText dir)).directory.segments :=
    slashless_resolve (slashless_ofText dir)
  have hconfig := Recipe.configure_of_ofName? hr ((survey t git (.ofText dir)).values o)
  refine ⟨_, ⟨hconfig, fun t' created h hcreated => ?_⟩, ?_⟩
  · rw [createIn, Action.perform_get_bind] at h
    exact written_of_create hconfig hslash h hcreated
  · rw [collect_fill_keep (hs.values hslash hinputs) (covered_of_recipe r) (fill_mapping r.config),
      Surroundings.get?_values]
    rfl

/-- Without braces in what is known, a configuration whose recipe is inferred leaves open just the
placeholders for which there is nothing to infer and no input; and one whose recipe is asked for by
a name with "docker" in it never leaves open what file the image is built from. -/
theorem createIn_leaves_open (hs : (survey t git (.ofText dir)).IsBraceFree)
    (hinputs : BraceFreeValues o.inputs) :
    (o.recipe = none → ∃ m, Builds t git dir o m ∧
      collect (.mapping m) = (Recipe.infer git.remote.isSome
        (survey t git (.ofText dir)).hasDockerfile).placeholders.filter fun n =>
          n ∉ inferable ∧ o.inputs.get? n = none) ∧
    ∀ name, o.recipe = some name → (Recipe.ofName? name).isSome = true →
      Text.occursIn "docker".toList name.toList = true →
      ∃ m, Builds t git dir o m ∧ "dockerfile" ∉ collect (.mapping m) := by
  constructor
  · intro hrecipe
    have hr : Recipe.ofName? ((survey t git (.ofText dir)).recipe o) =
        some (Recipe.infer git.remote.isSome (survey t git (.ofText dir)).hasDockerfile) := by
      rw [Surroundings.recipe, hrecipe, Option.getD_none, Recipe.ofName?_name]
      rfl
    obtain ⟨m, hm, hopen⟩ := exists_builds hr hs hinputs
    refine ⟨m, hm, hopen.trans (List.filter_congr fun n hn => ?_)⟩
    rw [Bool.eq_iff_iff, Surroundings.value?]
    by_cases hinferable : n ∈ inferable
    · have hsome := Surroundings.inferred?_isSome_of_mem (s := survey t git (.ofText dir)) hn
        hinferable o.recipe
      obtain ⟨value, hvalue⟩ := Option.isSome_iff_exists.1 hsome
      simp [hinferable, hvalue]
    · simp [hinferable, Surroundings.inferred?_of_not_mem hinferable]
  · intro name hrecipe hname hdocker
    obtain ⟨r, hr⟩ := Option.isSome_iff_exists.1 hname
    have hr : Recipe.ofName? ((survey t git (.ofText dir)).recipe o) = some r := by
      unfold Surroundings.recipe
      rwa [hrecipe]
    obtain ⟨m, hm, hopen⟩ := exists_builds hr hs hinputs
    refine ⟨m, hm, fun hmem => ?_⟩
    rw [hopen, List.mem_filter] at hmem
    have hcalls : Surroundings.callsForImage o.recipe = true := by
      rw [hrecipe]
      exact hdocker
    have hsome := Surroundings.inferred?_dockerfile (s := survey t git (.ofText dir)) hcalls
    obtain ⟨value, hvalue⟩ := Option.isSome_iff_exists.1 hsome
    simp [Surroundings.value?, hvalue] at hmem

end

def imageDirectory : Tree :=
  ⟨[(["p"], .directory .everyone), (["Dockerfile", "p"], .file "FROM scratch\n".toUTF8)]⟩

/-- An image is built from a repository whose branch is not known; only its tag is given. -/
theorem createIn_leaves_open_tagged :
    (∃ m, Builds imageDirectory ⟨some "https://example.com/etl.git", none⟩ "/p"
        ⟨none, none, .ofList [("tag", "v1")]⟩ m ∧
      collect (.mapping m) = ["build-image.image_name", "build-image.tag", "image_name"]) ∧
    ∃ m, Builds bareDirectory ⟨none, none⟩ "/p" ⟨none, some "docker-git", .empty⟩ m ∧
      "dockerfile" ∉ collect (.mapping m) := by
  have hs : (survey imageDirectory ⟨some "https://example.com/etl.git", none⟩
      (.ofText "/p")).IsBraceFree := ⟨by decide +kernel, by decide, by decide⟩
  have hs' : (survey bareDirectory ⟨none, none⟩ (.ofText "/p")).IsBraceFree :=
    ⟨by decide +kernel, by decide, by decide⟩
  constructor
  · obtain ⟨m, hm, hopen⟩ := (createIn_leaves_open hs
      (o := ⟨none, none, .ofList [("tag", "v1")]⟩) (by decide +kernel)).1 rfl
    refine ⟨m, hm, hopen.trans ?_⟩
    decide +kernel
  · exact (createIn_leaves_open hs' (by decide)).2 "docker-git" rfl (by decide) (by decide)

end Init

end Scaffold
