import Scaffold.Project.Init
import Scaffold.Proofs.Template.Expansion
import Scaffold.Proofs.Text.Dictionary
import Scaffold.Proofs.Tree.Action
import Scaffold.Proofs.Tree.Directory

/-!
# What a new project's configuration says

`initProject` writes the configuration of a recipe, filled in. The values come from the inputs
and, where these say nothing, from the surroundings; `Init.Surroundings.inferred?` lists what
those are. `createIn_configures` says what is in the file, and when it is written.
-/

namespace Scaffold

open Scaffold.Text (Dictionary)
open Scaffold.Template
open Scaffold.Yaml (Value Mapping)

/-! ## Values -/

namespace Init.Surroundings

def inferred? (s : Surroundings) (recipe : Option String) (placeholder : String) : Option String :=
  if placeholder = "directory" then some s.directory.text
  else if placeholder = "name" then some s.name
  else if placeholder = "repository" then s.git.remote
  else if placeholder = "branch" then s.git.remote.map fun _ => s.git.branch.getD defaultBranch
  else if placeholder = "dockerfile" then
    if s.hasDockerfile then some dockerfile
    else if callsForImage recipe then some "auto" else none
  else none

/-- The value of a placeholder: what the inputs say comes first. -/
def value? (s : Surroundings) (o : Options) (placeholder : String) : Option String :=
  (o.inputs.get? placeholder).or (s.inferred? o.recipe placeholder)

theorem get?_values (s : Surroundings) (o : Options) : (s.values o).get? = s.value? o := by
  funext n
  unfold values value?
  rw [Dictionary.get?_insertAll _ o.inputs.ascending]
  congr 1
  unfold Dictionary.ofList Dictionary.insertAll repositoryEntries dockerfileEntries inferred?
  cases s.git.remote <;> cases s.hasDockerfile <;> cases callsForImage o.recipe <;>
    simp only [List.append_nil, List.cons_append, List.nil_append, List.foldl_cons, List.foldl_nil,
      Dictionary.get?_insert, Dictionary.get?_empty, Option.map_some, Option.map_none, if_true,
      if_false, Bool.false_eq_true] <;>
    grind

end Init.Surroundings

/-! ## Recipes -/

namespace Recipe

/-- No string of a recipe has two different placeholders in it. -/
theorem uniform (r : Recipe) : ∀ s ∈ entryStrings r.config, Uniform s := by
  cases r <;> decide +kernel

theorem configure_eq {name : String} {r : Recipe} (h : ofName? name = some r)
    (values : Dictionary) : configure name values = .ok (expandEntries values.get? r.config) := by
  rw [configure_of_ofName? h, fillEntries_eq_expand values fun s hs =>
    fillString_eq_expand values (r.uniform s hs)]

end Recipe

theorem get?_expandEntries (value? : String → Option String) (m : Mapping) (key : String) :
    Yaml.Mapping.get? key (expandEntries value? m) =
      (Yaml.Mapping.get? key m).map (expandValue value?) := by
  induction m with
  | nil => rfl
  | cons e m ih =>
    obtain ⟨k, v⟩ := e
    rw [expandEntries]
    cases k with
    | string k =>
      by_cases h : k = key <;> simp [Yaml.Mapping.get?, h, ih]
    | _ => exact ih

namespace Config

/-- A configuration's name and version are the project's, whatever the recipe says. -/
theorem get?_stamp (contents : Mapping) (name key : String) :
    Yaml.Mapping.get? key (stamp contents name) =
      if key = "name" then some (.string name)
      else if key = "prefect-version" then some (.string version)
      else Yaml.Mapping.get? key contents := by
  unfold stamp
  rw [Yaml.Mapping.get?_set, Yaml.Mapping.get?_set]
  simp only [eq_comm]

end Config

/-! ## What a run writes -/

namespace Config

theorem create_ok {t u : Tree} {dir : Path} {name : String} {contents : Mapping} {created : Bool}
    (h : (create dir name (some contents)).perform t = (.ok created, u)) :
    if t.pathExists (dir.join fileName) = true then created = false ∧ u = t
    else created = true ∧ ∃ text, render (stamp contents name) = .ok text ∧
      (Action.writeText (dir.join fileName) text).perform t = (.ok (), u) := by
  unfold create at h
  rw [Action.perform_get_bind] at h
  dsimp only at h
  split at h
  · rename_i hexists
    rw [if_pos hexists]
    cases h
    exact ⟨rfl, rfl⟩
  · rename_i hexists
    rw [if_neg hexists]
    obtain ⟨text, v, hrender, h₁⟩ := Action.perform_bind_ok h
    obtain ⟨htext, hv⟩ := Action.perform_ofExcept_ok_iff.1 hrender
    subst hv
    obtain ⟨_, w, hw, h₂⟩ := Action.perform_bind_ok h₁
    cases h₂
    exact ⟨rfl, text, htext, hw⟩

end Config

namespace Init

variable {t t' : Tree}

def listed (ignored configured marked : Bool) : List String :=
  (if ignored then [ignoreFileName] else []) ++ (if configured then [Config.fileName] else []) ++
    (if marked then [Marker.name ++ "/"] else [])

theorem fileName_mem_listed : ∀ ignored configured marked,
    Config.fileName ∈ listed ignored configured marked ↔ configured = true := by
  decide

theorem create_steps {s : Surroundings} {o : Options} {created : List String}
    (h : (create s o).perform t = (.ok created, t')) :
    ∃ config ignored configured marked t₁ t₂,
      Recipe.configure (s.recipe o) (s.values o) = .ok config ∧
      (createIgnoreFile s.directory).perform t = (.ok ignored, t₁) ∧
      (Config.create s.directory (o.name.getD s.name) (some config)).perform t₁ =
        (.ok configured, t₂) ∧
      (Marker.create s.directory).perform t₂ = (.ok marked, t') ∧
      created = listed ignored configured marked := by
  unfold create at h
  obtain ⟨config, u, hconfigure, h₁⟩ := Action.perform_bind_ok h
  obtain ⟨hconfig, hu⟩ := Action.perform_ofExcept_ok_iff.1 hconfigure
  subst hu
  obtain ⟨ignored, t₁, hignored, h₂⟩ := Action.perform_bind_ok h₁
  obtain ⟨configured, t₂, hconfigured, h₃⟩ := Action.perform_bind_ok h₂
  obtain ⟨marked, t₃, hmarked, h₄⟩ := Action.perform_bind_ok h₃
  cases h₄
  exact ⟨config, ignored, configured, marked, t₁, t₂, hconfig, hignored, hconfigured, hmarked, rfl⟩

theorem create_ok {s : Surroundings} {o : Options} {created : List String}
    (h : (create s o).perform t = (.ok created, t')) :
    ∃ config ignored configured marked t₁ t₂,
      Recipe.configure (s.recipe o) (s.values o) = .ok config ∧
      (createIgnoreFile s.directory).perform t = (.ok ignored, t₁) ∧
      (Config.create s.directory (o.name.getD s.name) (some config)).perform t₁ =
        (.ok configured, t₂) ∧
      (Marker.create s.directory).perform t₂ = (.ok marked, t') ∧
      (Config.fileName ∈ created ↔ configured = true) := by
  obtain ⟨config, ignored, configured, marked, t₁, t₂, hconfig, hignored, hconfigured, hmarked,
    rfl⟩ := create_steps h
  exact ⟨config, ignored, configured, marked, t₁, t₂, hconfig, hignored, hconfigured, hmarked,
    fileName_mem_listed ignored configured marked⟩

/-- What the file holds that a run writes. -/
structure Configured (t : Tree) (s : Surroundings) (o : Options) (r : Recipe) (m : Mapping) : Prop
    where
  written : ∃ text, Config.render m = .ok text ∧
    t.text? (s.directory.join Config.fileName) = some text
  name_eq : Yaml.Mapping.get? "name" m = some (.string (o.name.getD s.name))
  version_eq : Yaml.Mapping.get? "prefect-version" m = some (.string Config.version)
  filled : ∀ key, key ≠ "name" → key ≠ "prefect-version" →
    Yaml.Mapping.get? key m = (Yaml.Mapping.get? key r.config).map (expandValue (s.value? o))

/-- A run that writes the file writes the configuration that it has made, under the project's
name. -/
theorem written_of_create {s : Surroundings} {o : Options} {config : Mapping}
    {created : List String} (hconfig : Recipe.configure (s.recipe o) (s.values o) = .ok config)
    (hs : Slashless s.directory.segments) (h : (create s o).perform t = (.ok created, t'))
    (hcreated : Config.fileName ∈ created) :
    ∃ text, Config.render (Config.stamp config (o.name.getD s.name)) = .ok text ∧
      t'.text? (s.directory.join Config.fileName) = some text := by
  obtain ⟨config', ignored, configured, marked, t₁, t₂, hconfig', hignored, hconfigured, hmarked,
    hiff⟩ := create_ok h
  obtain rfl : config' = config := Except.ok.inj (hconfig'.symm.trans hconfig)
  obtain rfl := hiff.1 hcreated
  have hok := Config.create_ok hconfigured
  split at hok
  · cases hok.1
  obtain ⟨-, text, hrender, hwrite⟩ := hok
  have htext := Action.text?_of_writeText (slashless_join hs _) hwrite
  refine ⟨text, hrender, ?_⟩
  unfold Marker.create at hmarked
  rw [Action.perform_get_bind] at hmarked
  split at hmarked
  · cases hmarked
    exact htext
  · obtain ⟨_, u, hmade, h₁⟩ := Action.perform_bind_ok hmarked
    cases h₁
    exact Action.text?_of_makePrivateDirectory (slashless_join hs _) htext hmade

theorem configured_of_create {s : Surroundings} {o : Options} {r : Recipe} {created : List String}
    (hr : Recipe.ofName? (s.recipe o) = some r) (hs : Slashless s.directory.segments)
    (h : (create s o).perform t = (.ok created, t')) (hcreated : Config.fileName ∈ created) :
    ∃ m, Configured t' s o r m := by
  have hconfig := Recipe.configure_eq hr (s.values o)
  rw [Surroundings.get?_values] at hconfig
  refine ⟨_, ⟨written_of_create hconfig hs h hcreated, ?_, ?_, ?_⟩⟩
  · rw [Config.get?_stamp, if_pos rfl]
  · rw [Config.get?_stamp, if_neg (by decide), if_pos rfl]
  · intro key h1 h2
    rw [Config.get?_stamp, if_neg h1, if_neg h2, get?_expandEntries]

/-- The list of files leaves the configuration's place free, where it was and the directory is not
spelled with a segment that goes up. -/
theorem createIgnoreFile_missing {p : Path} {ignored : Bool} (hp : Slashless p.segments)
    (hrooted : t.Rooted) (hup : ".." ∉ (t.resolve p).components)
    (hmissing : t.pathExists ((t.resolve p).join Config.fileName) = false)
    (hlink : ¬ t.Dangling ((t.resolve p).join Config.fileName))
    (hlink' : ¬ t.Dangling ((t.resolve p).join ignoreFileName))
    (h : (createIgnoreFile (t.resolve p)).perform t = (.ok ignored, t')) :
    t'.pathExists ((t.resolve p).join Config.fileName) = false := by
  obtain ⟨start, hstart, hsegments⟩ := Path.withoutSlash_resolve (t := t) hp
  have hidle : ∀ s ∈ (t.resolve p).components, isIdle s = false := fun s hs => by
    simpa using (List.mem_filter.1 hs).2
  have hfile : segmentsOf Config.fileName = [Config.fileName] := by decide
  have hfile' : segmentsOf ignoreFileName = [ignoreFileName] := by decide
  obtain ⟨names, hnames⟩ : ∃ names, (t.resolve p).components = List.reverse names :=
    ⟨_, (List.reverse_reverse _).symm⟩
  rw [hnames] at hsegments hidle hup
  have hidle : ∀ s ∈ names, isIdle s = false := fun s hs => hidle s (List.mem_reverse.2 hs)
  have hup : ".." ∉ names := fun hs => hup (List.mem_reverse.2 hs)
  rw [Path.join_of_single _ hfile, hsegments] at hmissing hlink ⊢
  rw [Path.join_of_single _ hfile', hsegments] at hlink'
  unfold createIgnoreFile Action.writeTextIfMissing at h
  rw [Path.join_of_single _ hfile', hsegments, Action.perform_get_bind] at h
  split at h
  · cases h
    exact hmissing
  rename_i hmissing'
  rw [Bool.not_eq_true] at hmissing'
  obtain ⟨_, v, hwrite, h₁⟩ := Action.perform_bind_ok h
  cases h₁
  obtain ⟨u, hparent, hwritten⟩ := Action.perform_writeText_ok hwrite
  have hnamed : isIdle Config.fileName = false ∧ isIdle ignoreFileName = false ∧
      Config.fileName ≠ ".." ∧ ignoreFileName ≠ ".." ∧ Config.fileName ≠ ignoreFileName := by
    decide
  have hfits : ¬ Tree.longestName < Config.fileName.utf8ByteSize ∧
      ¬ Tree.longestName < ignoreFileName.utf8ByteSize := by decide
  obtain ⟨h1, h2, h3, h4, h5⟩ := hnamed
  have hall : ∀ s ∈ ignoreFileName :: names, isIdle s = false := by simpa [h2] using hidle
  have hmade := Tree.makeDirectories_under hstart hall hparent
  have hnul := Tree.any_nul_snoc (x := Config.fileName) hstart hidle hmade (by decide)
  have hnul' := Tree.any_nul_snoc (x := ignoreFileName) hstart hidle hmade (by decide)
  rcases Tree.makeDirectories_fresh hrooted hstart hidle hup hmade with
    ⟨l, rfl, hl, hdir⟩ | ⟨l, hfresh⟩
  · have hnone := Tree.at?_of_not_dangling h1 h3 hnul hfits.1 hl hdir hmissing hlink
    have hnone' := Tree.at?_of_not_dangling h2 h4 hnul' hfits.2 hl hdir hmissing' hlink'
    exact Tree.pathExists_write? h2 h4 h1 h3 h5 hl hnone' hnone hwritten
  · exact Tree.pathExists_write? h2 h4 h1 h3 h5 hfresh.found (hfresh.bare _) (hfresh.bare _)
      hwritten

theorem not_up_of_exists {p : Path} (hp : Slashless p.segments) (h : t.pathExists p = true) :
    ".." ∉ (t.resolve p).components := by
  obtain ⟨l, hl⟩ := Option.isSome_iff_exists.1 h
  have hnames := (Tree.straight_of_locate? hp hl).isName
  rw [Tree.resolve_of_locate? hl, Path.components_ofLocation hnames]
  intro hs
  exact (hnames _ (List.mem_reverse.1 hs)).not_up rfl

/-- A run that succeeds writes the recipe with every placeholder expanded at one go. It writes the
file if there is none; only a directory that has to be made must not be spelled with a segment
that goes up, or making it may lead to one that has the file already. -/
theorem createIn_configures {git : Git.Facts} {dir : String} {o : Options} {r : Recipe}
    {created : List String} (hr : Recipe.ofName? ((survey t git (.ofText dir)).recipe o) = some r)
    (h : (createIn git (.ofText dir) o).perform t = (.ok created, t')) :
    (Config.fileName ∈ created → ∃ m, Configured t' (survey t git (.ofText dir)) o r m) ∧
    (t.Rooted → t.pathExists (.ofText dir) = true ∨ ".." ∉ (t.resolve (.ofText dir)).components →
      t.pathExists ((t.resolve (.ofText dir)).join Config.fileName) = false →
      ¬ t.Dangling ((t.resolve (.ofText dir)).join Config.fileName) →
      ¬ t.Dangling ((t.resolve (.ofText dir)).join ignoreFileName) →
      Config.fileName ∈ created) := by
  have hslash := slashless_ofText dir
  unfold createIn at h
  rw [Action.perform_get_bind] at h
  constructor
  · exact configured_of_create hr (slashless_resolve hslash) h
  · intro hrooted hspelled hmissing hlink hlink'
    obtain ⟨config, ignored, configured, marked, t₁, t₂, -, hignored, hconfigured, -, hiff⟩ :=
      create_ok h
    have hup : ".." ∉ (t.resolve (.ofText dir)).components :=
      hspelled.elim (not_up_of_exists hslash) id
    have hfree : t₁.pathExists ((survey t git (.ofText dir)).directory.join Config.fileName) =
        false :=
      createIgnoreFile_missing hslash hrooted hup hmissing hlink hlink' hignored
    have hok := Config.create_ok hconfigured
    rw [if_neg (Bool.eq_false_iff.1 hfree)] at hok
    exact hiff.2 hok.1

def bareDirectory : Tree :=
  ⟨[(["p"], .directory .everyone)]⟩

def nestedInput : Options :=
  ⟨none, none, .ofList [("directory", "\x7b\x7b name \x7d\x7d")]⟩

/-- What a value brings in is not expanded again. -/
theorem createIn_configures_nested :
    ∃ t' m, (createIn ⟨none, none⟩ (.ofText "/p") nestedInput).perform bareDirectory =
        (.ok [".prefectignore", "prefect.yaml", ".prefect/"], t') ∧
      Configured t' (survey bareDirectory ⟨none, none⟩ (.ofText "/p")) nestedInput
        .localDirectory m ∧
      Yaml.Mapping.get? "pull" m =
        some (Recipe.workIn (.string "\x7b\x7b name \x7d\x7d")) := by
  obtain ⟨t', hrun⟩ : ∃ t', (createIn ⟨none, none⟩ (.ofText "/p") nestedInput).perform
      bareDirectory = (.ok [".prefectignore", "prefect.yaml", ".prefect/"], t') :=
    Action.perform_of_toOption (by decide +kernel)
  obtain ⟨m, hm⟩ := (createIn_configures (r := .localDirectory) (by decide +kernel) hrun).1
    (by decide)
  refine ⟨t', m, hrun, hm, ?_⟩
  rw [hm.filled "pull" (by decide) (by decide)]
  have hexpand : expand ((survey bareDirectory ⟨none, none⟩ (.ofText "/p")).value? nestedInput)
      "\x7b\x7b directory \x7d\x7d" = "\x7b\x7b name \x7d\x7d" := by decide +kernel
  have hpull : Yaml.Mapping.get? "pull" Recipe.localDirectory.config =
      some (Recipe.workIn (.string "\x7b\x7b directory \x7d\x7d")) := by
    simp [Recipe.config, Yaml.Mapping.get?, Recipe.pull, Recipe.hole]
  rw [hpull]
  simp [Recipe.workIn, Recipe.step, expandValue, expandItems, expandEntries, hexpand]

end Init

theorem perform_initProject (t : Tree) (dir : Path) (o : Init.Options) :
    (initProject dir o).perform t =
      (Init.createIn (Git.facts t (t.resolve dir)) dir o).perform t :=
  Action.perform_get_bind _

end Scaffold
