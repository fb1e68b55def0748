import Scaffold.Proofs.Project.Init
import Scaffold.Proofs.Tree.Inside

/-!
# Projects that are completed

A run makes three things one after another, each unless something has its name. `Makes` is one
such step; `Completed` says where the directory of the project is when all steps have succeeded,
and that it has all three names. Another run then makes nothing, and the list of what was made is
that of what was missing, unless making the directory has brought a name to light
(`createIn_completes`).
-/

namespace Scaffold

namespace Init

/-- The names in a project's directory, in the order in which a run comes to them. -/
def names : List String :=
  [ignoreFileName, Config.fileName, Marker.name]

theorem forall_names {p : String → Prop} :
    (∀ n ∈ names, p n) ↔ p ignoreFileName ∧ p Config.fileName ∧ p Marker.name := by
  simp [names]

theorem isPlainName_of_mem : ∀ n ∈ names, IsPlainName n := by
  refine forall_names.2 ⟨?_, ?_, ?_⟩
  all_goals exact ⟨⟨by decide, by decide, by decide, by decide⟩, by decide⟩

/-- The tree in which a project at `d` is made: with its directory, if that can be made. -/
def prepared (t : Tree) (d : Path) : Tree :=
  (t.makeDirectories (d.join ignoreFileName).parents).1

/-- One step of a run: what has a name in `d` is left alone, or something is made there. -/
inductive Makes (d : Path) (n : String) (t : Tree) : Bool → Tree → Prop where
  | skips : t.pathExists (d.join n) = true → Makes d n t false t
  | writes {text : String} {u : Tree} : t.pathExists (d.join n) = false →
      (Action.writeText (d.join n) text).perform t = (.ok (), u) → Makes d n t true u
  | directory {a : Access} {u : Tree} : t.pathExists (d.join n) = false →
      t.makeDirectory (d.join n) a = .ok u → Makes d n t true u

variable {t t' u : Tree} {d : Path} {n : String} {made : Bool} {l : Location}

/-! ## Steps -/

theorem makes_ignoreFile (h : (createIgnoreFile d).perform t = (.ok made, u)) :
    Makes d ignoreFileName t made u := by
  unfold createIgnoreFile Action.writeTextIfMissing at h
  rw [Action.perform_get_bind] at h
  split at h
  · rename_i hexists
    cases h
    exact .skips hexists
  · rename_i hmissing
    obtain ⟨_, v, hwrite, h₁⟩ := Action.perform_bind_ok h
    cases h₁
    exact .writes (Bool.eq_false_iff.2 hmissing) hwrite

theorem makes_config {name : String} {contents : Yaml.Mapping}
    (h : (Config.create d name (some contents)).perform t = (.ok made, u)) :
    Makes d Config.fileName t made u := by
  have hok := Config.create_ok h
  split at hok
  · rename_i hexists
    obtain ⟨rfl, rfl⟩ := hok
    exact .skips hexists
  · rename_i hmissing
    obtain ⟨rfl, text, -, hwrite⟩ := hok
    exact .writes (Bool.eq_false_iff.2 hmissing) hwrite

theorem makes_marker (h : (Marker.create d).perform t = (.ok made, u)) :
    Makes d Marker.name t made u := by
  unfold Marker.create at h
  rw [Action.perform_get_bind] at h
  split at h
  · rename_i hexists
    cases h
    exact .skips hexists
  · rename_i hmissing
    obtain ⟨_, v, hmade, h₁⟩ := Action.perform_bind_ok h
    cases h₁
    unfold Action.makePrivateDirectory at hmade
    have hchange := Action.perform_replace_ok_iff.1 hmade
    cases hdir : t.makeDirectory (d.join Marker.name) .ownerOnly with
    | ok v =>
      rw [hdir] at hchange
      cases hchange
      exact .directory (Bool.eq_false_iff.2 hmissing) hdir
    | error e => rw [hdir] at hchange; cases hchange

namespace Makes

theorem eq_not (h : Makes d n t made u) : made = !t.pathExists (d.join n) := by
  cases h with
  | skips hexists => rw [hexists]; rfl
  | writes hmissing => rw [hmissing]; rfl
  | directory hmissing => rw [hmissing]; rfl

variable (hd : Slashless d.segments)

include hd

theorem keeps (h : Makes d n t made u) : u.Keeps t := by
  cases h with
  | skips => exact Tree.Keeps.refl t
  | writes _ hwrite => exact Action.keeps_writeText (slashless_join hd n) hwrite
  | directory _ hmade => exact Tree.keeps_makeDirectory (slashless_join hd n) hmade

theorem leaves (hn : IsPlainName n) (h : Makes d n t made u) : u.pathExists (d.join n) = true := by
  have hkeeps := h.keeps hd
  cases h with
  | skips hexists => exact hexists
  | writes _ hwrite =>
    exact Tree.pathExists_of_text? (Action.text?_of_writeText (slashless_join hd n) hwrite)
  | @directory a u _ hmade =>
    rw [Path.join_of_single d hn.segmentsOf] at hmade ⊢
    obtain ⟨l, hl, -, rfl⟩ := Tree.makeDirectory_snoc hn hmade
    have hat : (t.put (n :: l) (.directory a)).at? (n :: l) = some (.directory a) := by
      rw [Tree.at?_put t (List.cons_ne_nil n l), if_pos rfl]
    exact Tree.pathExists_iff.2
      ⟨_, (hl.of_keeps hkeeps).walk_some hn hat fun _ => Entry.noConfusion⟩

end Makes

/-! ## What a step leaves alone -/

theorem prepared_eq (t : Tree) (d : Path) (hn : n ∈ names) :
    prepared t d = (t.makeDirectories (d.join n).parents).1 := by
  have hfirst : ignoreFileName ∈ names := by decide
  rw [prepared, Path.parents_join_eq d (isPlainName_of_mem _ hfirst) (isPlainName_of_mem n hn)]

theorem prepared_of_reaches (h : t.Reaches d.withoutSlash l) : prepared t d = t := by
  have hfirst : ignoreFileName ∈ names := by decide
  rw [prepared, Tree.makeDirectories_parents (isPlainName_of_mem _ hfirst) h]

theorem keeps_prepared (hd : Slashless d.segments) : (prepared t d).Keeps t :=
  Tree.keeps_makeDirectories (slashless_parents (slashless_join hd _))

theorem addsDirectories_prepared (hd : Slashless d.segments) :
    (prepared t d).AddsDirectories t :=
  Tree.addsDirectories_makeDirectories (slashless_parents (slashless_join hd _))

/-- What a step does to the directory at `l` if no link leads it away: it changes only what has its
own name, and makes nothing of a directory. -/
structure Touches (v u : Tree) (n : String) (l : Location) (made : Bool) : Prop where
  others : ∀ m, m ≠ n → u.at? (m :: l) = v.at? (m :: l)
  fresh : made = true → ∀ a, v.at? (n :: l) ≠ some (.directory a)

/-- When a step has succeeded, the directory that it was made in is there. -/
theorem Makes.reaches_prepared (hd : Slashless d.segments) (hn : n ∈ names)
    (h : Makes d n t made u) :
    t.makeDirectories (d.join n).parents = (prepared t d, true) ∧ u.Keeps (prepared t d) ∧
      ∃ l, (prepared t d).Reaches d.withoutSlash l ∧
        ((∀ target, t.at? (n :: l) ≠ some (.link target)) →
          Touches (prepared t d) u n l made) := by
  have hname := isPlainName_of_mem n hn
  have hjoin := Path.join_of_single d hname.segmentsOf
  have hkeeps := h.keeps hd
  cases h with
  | skips hexists =>
    rw [hjoin] at hexists
    obtain ⟨l, hl⟩ := Tree.reaches_of_pathExists hname hexists
    rw [prepared_of_reaches hl]
    exact ⟨Tree.makeDirectories_parents hname hl, hkeeps, l, hl,
      fun _ => ⟨fun _ _ => rfl, nofun⟩⟩
  | writes _ hwrite =>
    obtain ⟨v, hmade, hwritten⟩ := Action.perform_writeText_join hname hwrite
    have hv : prepared t d = v := by rw [prepared_eq t d hn, hmade]
    have hlinks : v.Keeps t := hv ▸ keeps_prepared hd
    have hwrote := Tree.keeps_write? (slashless_join hd n) hwritten
    rw [hjoin] at hwritten
    obtain ⟨l, hl⟩ := Tree.reaches_of_write? hname hwritten
    rw [hv]
    refine ⟨hmade, hwrote, l, hl, fun hlink => ?_⟩
    obtain ⟨rfl, hdir⟩ := hl.write? hname
      (fun target hat => hlink target (hlinks.link _ _ hat)) hwritten
    refine ⟨fun m hm => ?_, fun _ => hdir⟩
    rw [Tree.at?_put v (List.cons_ne_nil n l), if_neg fun heq => hm (List.cons.inj heq).1]
  | directory _ hmade =>
    rw [hjoin] at hmade
    obtain ⟨l, hl, hnone, rfl⟩ := Tree.makeDirectory_snoc hname hmade
    rw [prepared_of_reaches hl]
    refine ⟨Tree.makeDirectories_parents hname hl, hkeeps, l, hl,
      fun _ => ⟨fun m hm => ?_, fun _ a hat => ?_⟩⟩
    · rw [Tree.at?_put t (List.cons_ne_nil n l), if_neg fun heq => hm (List.cons.inj heq).1]
    · rw [hnone] at hat
      cases hat

/-! ## Whole runs -/

variable {git : Git.Facts} {dir : Path} {o : Options} {created : List String}

theorem createIn_makes (h : (createIn git dir o).perform t = (.ok created, t')) :
    ∃ ignored configured marked t₁ t₂, Makes (t.resolve dir) ignoreFileName t ignored t₁ ∧
      Makes (t.resolve dir) Config.fileName t₁ configured t₂ ∧
      Makes (t.resolve dir) Marker.name t₂ marked t' ∧
      created = listed ignored configured marked := by
  unfold createIn at h
  rw [Action.perform_get_bind] at h
  obtain ⟨_, ignored, configured, marked, t₁, t₂, -, h₁, h₂, h₃, hlisted⟩ := create_steps h
  exact ⟨ignored, configured, marked, t₁, t₂, makes_ignoreFile h₁, makes_config h₂,
    makes_marker h₃, hlisted⟩

/-- A run has left a project at `l`, where `dir` leads, with something under each name. -/
structure Completed (t t' : Tree) (dir : Path) (l : Location) : Prop where
  keeps : t'.Keeps t
  walk : t'.walk dir = .found l
  straight : t'.Straight l
  /-- by the path that the run took -/
  spelled : t'.Reaches (t.resolve dir).withoutSlash l
  /-- by its own names -/
  named : t'.Reaches l.reverse l
  complete : ∀ n ∈ names, t'.pathExists (.ofLocation (n :: l)) = true

theorem completed_of_createIn (ht : t.Spellable) (hdir : Slashless dir.segments)
    (h : (createIn git dir o).perform t = (.ok created, t')) : ∃ l, Completed t t' dir l := by
  obtain ⟨ignored, configured, marked, t₁, t₂, h₁, h₂, h₃, -⟩ := createIn_makes h
  have hd : Slashless (t.resolve dir).segments := slashless_resolve hdir
  have hkeeps₂ := h₃.keeps hd
  have hkeeps₁ := (h₂.keeps hd).trans hkeeps₂
  have hkeeps := (h₁.keeps hd).trans hkeeps₁
  have hthere : ∀ n ∈ names, t'.pathExists ((t.resolve dir).join n) = true := by
    obtain ⟨hname₁, hname₂, hname₃⟩ := forall_names.1 isPlainName_of_mem
    exact forall_names.2 ⟨hkeeps₁.pathExists (h₁.leaves hd hname₁),
      hkeeps₂.pathExists (h₂.leaves hd hname₂), h₃.leaves hd hname₃⟩
  have hspelled : ∀ n ∈ names,
      t'.pathExists ⟨(t.resolve dir).withoutSlash ++ [n]⟩ = true := by
    intro n hn
    rw [← Path.join_of_single _ (isPlainName_of_mem n hn).segmentsOf]
    exact hthere n hn
  obtain ⟨l, hl⟩ := Tree.reaches_of_pathExists (isPlainName_of_mem _ (by decide))
    (hspelled Marker.name (by decide))
  have hwalk := Tree.walk_of_reaches_resolve hdir hkeeps hl
  have hstraight := Tree.straight_of_locate? hdir (Tree.locate?_eq_some_iff.2 hwalk)
  have hnamed := Tree.reaches_names (ht.of_keeps hkeeps) hdir hwalk hl.directory
  refine ⟨l, hkeeps, hwalk, hstraight, hl, hnamed, fun n hn => ?_⟩
  have hname := isPlainName_of_mem n hn
  obtain ⟨m, hm⟩ := Tree.pathExists_iff.1 (hspelled n hn)
  have hsame := Tree.fromRoot_names_of_snoc hstraight hl.found (Tree.fromRoot_of_walk hm)
  refine Tree.pathExists_iff.2 ⟨m, ?_⟩
  rw [Path.ofLocation, List.reverse_cons, hnamed.walk_snoc hname, hsame]

theorem Completed.resolve (h : Completed t t' dir l) : t'.resolve dir = .ofLocation l :=
  Tree.resolve_of_walk h.walk

theorem Completed.join (h : Completed t t' dir l) (hn : n ∈ names) :
    (t'.resolve dir).join n = .ofLocation (n :: l) := by
  rw [h.resolve, Path.join_ofLocation h.straight.isName (isPlainName_of_mem n hn).segmentsOf]

/-! ## Another run -/

/-- A recipe that is asked for is one that there is. -/
def Options.Known (o : Options) : Prop :=
  ∀ name ∈ o.recipe, (Recipe.ofName? name).isSome = true

theorem ofName?_recipe (s : Surroundings) (ho : o.Known) :
    ∃ r, Recipe.ofName? (s.recipe o) = some r := by
  unfold Surroundings.recipe
  cases hrecipe : o.recipe with
  | none => exact ⟨_, Recipe.ofName?_name _⟩
  | some name => exact Option.isSome_iff_exists.1 (ho name hrecipe)

/-- Where all names are taken, a run makes nothing. -/
theorem create_of_complete {s : Surroundings} (ho : o.Known)
    (hs : ∀ n ∈ names, t.pathExists (s.directory.join n) = true) :
    (create s o).perform t = (.ok [], t) := by
  obtain ⟨r, hr⟩ := ofName?_recipe s ho
  have hignored : (createIgnoreFile s.directory).perform t = (.ok false, t) := by
    unfold createIgnoreFile Action.writeTextIfMissing
    rw [Action.perform_get_bind, hs ignoreFileName (by decide), if_pos rfl]
    rfl
  have hconfigured : ∀ name contents,
      (Config.create s.directory name contents).perform t = (.ok false, t) := by
    intro name contents
    unfold Config.create
    rw [Action.perform_get_bind]
    simp only [hs Config.fileName (by decide), if_true]
    rfl
  have hmarked : (Marker.create s.directory).perform t = (.ok false, t) := by
    unfold Marker.create
    rw [Action.perform_get_bind, hs Marker.name (by decide), if_pos rfl]
    rfl
  unfold create
  rw [Recipe.configure_eq hr, Action.perform_bind_of_ok (Action.perform_ofExcept_ok _),
    Action.perform_bind_of_ok hignored, Action.perform_bind_of_ok (hconfigured _ _),
    Action.perform_bind_of_ok hmarked]
  rfl

theorem Completed.createIn_again (h : Completed t t' dir l) (git : Git.Facts) (ho : o.Known) :
    (createIn git dir o).perform t' = (.ok [], t') := by
  unfold createIn
  rw [Action.perform_get_bind]
  refine create_of_complete ho fun n hn => ?_
  have hjoin : ((survey t' git dir).directory).join n = .ofLocation (n :: l) := h.join hn
  rw [hjoin]
  exact h.complete n hn

/-! ## What is listed -/

/-- The list of a run that makes what is under the names with `p`. -/
def listing (p : String → Bool) : List String :=
  listed (p ignoreFileName) (p Config.fileName) (p Marker.name)

theorem listed_inj : ∀ a b c a' b' c',
    listed a b c = listed a' b' c' ↔ a = a' ∧ b = b' ∧ c = c' := by
  decide

/-- The list is that of what was missing: of the names that led nowhere from the path of the run,
and of those that nothing had in the directory itself. -/
structure Exact (t : Tree) (d : Path) (l : Location) (created : List String) : Prop where
  spelled : created = listing fun n => !t.pathExists (d.join n)
  inside : created = listing fun n => (t.at? (n :: l)).isNone

def Unlinked (t : Tree) (l : Location) : Prop :=
  ∀ n ∈ names, ∀ target, t.at? (n :: l) ≠ some (.link target)

theorem unlinked_of_entries (h : ∀ n target, (n :: l, .link target) ∉ t.entries) :
    Unlinked t l :=
  fun n _ target hat => h n target (Tree.mem_entries_of_link hat)

theorem Unlinked.of_keeps (h : Unlinked t l) (hu : u.Keeps t) : Unlinked u l :=
  fun n hn target hat => h n hn target (hu.link _ _ hat)

/-- What comes of a run where the directory, once it is made, has no links. -/
theorem Completed.created_eq (hdir : Slashless dir.segments) (hlink : Unlinked t l)
    (hl : Completed t t' dir l) (h : (createIn git dir o).perform t = (.ok created, t')) :
    (prepared t (t.resolve dir)).Reaches (t.resolve dir).withoutSlash l ∧
    (∃ n ∈ names,
      t.makeDirectories ((t.resolve dir).join n).parents = (prepared t (t.resolve dir), true)) ∧
    (t.pathExists ((t.resolve dir).join ignoreFileName) = false →
      ∀ a, (prepared t (t.resolve dir)).at? (ignoreFileName :: l) ≠ some (.directory a)) ∧
    created = listed (!t.pathExists ((t.resolve dir).join ignoreFileName))
      ((prepared t (t.resolve dir)).at? (Config.fileName :: l)).isNone
      ((prepared t (t.resolve dir)).at? (Marker.name :: l)).isNone := by
  have hd : Slashless (t.resolve dir).segments := slashless_resolve hdir
  obtain ⟨ignored, configured, marked, t₁, t₂, h₁, h₂, h₃, hlisted⟩ := createIn_makes h
  have hkeeps₂ := h₃.keeps hd
  have hkeeps₁ := (h₂.keeps hd).trans hkeeps₂
  have hignore : ignoreFileName ∈ names := by decide
  have hfile : Config.fileName ∈ names := by decide
  have hmarker : Marker.name ∈ names := by decide
  obtain ⟨hmade, hkeeps, l₀, hl₀, htouch₁⟩ := h₁.reaches_prepared hd hignore
  obtain rfl := (hl₀.of_keeps (hkeeps.trans hkeeps₁)).unique hl.spelled
  have htouch₁ := htouch₁ (hlink _ hignore)
  -- the directory stays where it is, so no later step has one to make
  have hl₁ := hl₀.of_keeps hkeeps
  have hl₂ := hl₁.of_keeps (h₂.keeps hd)
  have hlink₁ := hlink.of_keeps (h₁.keeps hd)
  have hlink₂ := hlink₁.of_keeps (h₂.keeps hd)
  have htouch₂ : Touches t₁ t₂ Config.fileName l₀ configured := by
    obtain ⟨-, -, k, hk, htouch⟩ := h₂.reaches_prepared hd hfile
    rw [prepared_of_reaches hl₁] at hk htouch
    obtain rfl := hk.unique hl₁
    exact htouch (hlink₁ _ hfile)
  have hexists : ∀ n ∈ names, ∀ v : Tree, v.Reaches (t.resolve dir).withoutSlash l₀ →
      Unlinked v l₀ → (!v.pathExists ((t.resolve dir).join n)) = (v.at? (n :: l₀)).isNone := by
    intro n hn v hv hvlink
    have hname := isPlainName_of_mem n hn
    rw [Path.join_of_single _ hname.segmentsOf, hv.pathExists_eq hname (hvlink n hn),
      Option.not_isSome]
  refine ⟨hl₀, ⟨_, hignore, hmade⟩, fun hmissing => htouch₁.fresh ?_, ?_⟩
  · rw [h₁.eq_not, hmissing]
    rfl
  · rw [hlisted, h₁.eq_not, h₂.eq_not, h₃.eq_not, hexists _ hfile t₁ hl₁ hlink₁,
      hexists _ hmarker t₂ hl₂ hlink₂, htouch₂.others _ (by decide),
      htouch₁.others _ (by decide), htouch₁.others _ (by decide)]

theorem Completed.reaches_of_exists (hdir : Slashless dir.segments) (hl : Completed t t' dir l)
    (hexists : t.pathExists dir = true) :
    t.resolve dir = .ofLocation l ∧ prepared t (t.resolve dir) = t := by
  obtain ⟨k, hk⟩ := Tree.pathExists_iff.1 hexists
  obtain rfl := Tree.Arrival.found.inj ((hl.keeps.walk hk).symm.trans hl.walk)
  have hstraight := Tree.straight_of_locate? hdir (Tree.locate?_eq_some_iff.2 hk)
  have hthere : t.pathExists (.ofLocation k) = true :=
    Tree.pathExists_iff.2 ⟨k, Tree.walk_eq_found_iff.2
      ⟨Tree.any_nul_eq_false_iff.2 hl.named.nulFree, Tree.fromRoot_names hstraight⟩⟩
  rw [Tree.resolve_of_walk hk]
  exact ⟨rfl, Tree.makeDirectories_ofLocation hstraight.isName
    (isPlainName_of_mem _ (by decide)) hthere⟩

theorem Completed.exact_of_exists (hdir : Slashless dir.segments) (hlink : Unlinked t l)
    (hl : Completed t t' dir l) (h : (createIn git dir o).perform t = (.ok created, t'))
    (hexists : t.pathExists dir = true) : Exact t (t.resolve dir) l created := by
  obtain ⟨hreaches, -, -, hcreated⟩ := hl.created_eq hdir hlink h
  obtain ⟨-, hprepared⟩ := hl.reaches_of_exists hdir hexists
  rw [hprepared] at hreaches hcreated
  have hsame : ∀ n ∈ names,
      (!t.pathExists ((t.resolve dir).join n)) = (t.at? (n :: l)).isNone := by
    intro n hn
    have hname := isPlainName_of_mem n hn
    rw [Path.join_of_single _ hname.segmentsOf, hreaches.pathExists_eq hname (hlink n hn),
      Option.not_isSome]
  constructor
  · rw [hcreated, listing, hsame Config.fileName (by decide), hsame Marker.name (by decide)]
  · rw [hcreated, listing, hsame ignoreFileName (by decide)]

/-- If the directory was missing, all names were missing by its path; then the list is right if the
one that is made has none of them. -/
theorem Completed.exact_iff_of_missing (hdir : Slashless dir.segments) (hlink : Unlinked t l)
    (hl : Completed t t' dir l) (h : (createIn git dir o).perform t = (.ok created, t'))
    (hmissing : t.pathExists dir = false) : Exact t (t.resolve dir) l created ↔
      ∀ n ∈ names, (prepared t (t.resolve dir)).at? (n :: l) = none := by
  obtain ⟨-, -, hfresh, hcreated⟩ := hl.created_eq hdir hlink h
  have hadds := addsDirectories_prepared (t := t) (d := t.resolve dir) (slashless_resolve hdir)
  obtain ⟨hignore, hfile, hmarker⟩ := forall_names.1 fun n hn =>
    Tree.pathExists_join_of_missing hdir (isPlainName_of_mem n hn) hmissing
  have hspelled : (listing fun n => !t.pathExists ((t.resolve dir).join n)) =
      listed true true true := by
    rw [listing, hignore, hfile, hmarker]
    rfl
  rw [hignore] at hcreated
  constructor
  · rintro ⟨hcreated₁, hcreated₂⟩
    rw [hspelled, hcreated, listed_inj] at hcreated₁
    obtain ⟨-, hfile, hmarker⟩ := hcreated₁
    rw [listing, hcreated, listed_inj] at hcreated₂
    have hnone : t.at? (ignoreFileName :: l) = none := by
      simpa using hcreated₂.1.symm
    refine forall_names.2 ⟨?_, Option.isNone_iff_eq_none.1 hfile,
      Option.isNone_iff_eq_none.1 hmarker⟩
    rcases hadds (ignoreFileName :: l) with hsame | ⟨-, hmade⟩
    · rw [hsame, hnone]
    · exact absurd hmade (hfresh hignore _)
  · intro hbare
    have hnone : ∀ n ∈ names, t.at? (n :: l) = none := by
      intro n hn
      rcases hadds (n :: l) with hsame | ⟨hnone, -⟩
      · rw [← hsame, hbare n hn]
      · exact hnone
    obtain ⟨-, hfile, hmarker⟩ := forall_names.1 hbare
    obtain ⟨hignore₀, hfile₀, hmarker₀⟩ := forall_names.1 hnone
    rw [hfile, hmarker] at hcreated
    refine ⟨hcreated.trans hspelled.symm, ?_⟩
    rw [hcreated, listing, hignore₀, hfile₀, hmarker₀]
    rfl

/-- The list is right if the directory was there, or if the one that was made has none of the
names. -/
theorem Completed.exact_iff (hdir : Slashless dir.segments) (hlink : Unlinked t l)
    (hl : Completed t t' dir l) (h : (createIn git dir o).perform t = (.ok created, t')) :
    Exact t (t.resolve dir) l created ↔ t.pathExists dir = true ∨
      ∀ n ∈ names, (prepared t (t.resolve dir)).at? (n :: l) = none := by
  cases hexists : t.pathExists dir with
  | true => exact iff_of_true (hl.exact_of_exists hdir hlink h hexists) (.inl rfl)
  | false => simpa using hl.exact_iff_of_missing hdir hlink h hexists

/-- A directory that is made has none of the names, unless it is spelled with a segment that goes
up. -/
theorem Completed.exact_of_not_up (hdir : Slashless dir.segments) (hlink : Unlinked t l)
    (hl : Completed t t' dir l) (h : (createIn git dir o).perform t = (.ok created, t'))
    (hrooted : t.Rooted) (hup : ".." ∉ (t.resolve dir).components) :
    Exact t (t.resolve dir) l created := by
  obtain ⟨hreaches, ⟨n, hn, hmade⟩, -, -⟩ := hl.created_eq hdir hlink h
  refine (hl.exact_iff hdir hlink h).2 ?_
  cases hexists : t.pathExists dir with
  | true => exact .inl rfl
  | false =>
    right
    obtain ⟨start, hstart, hspelled⟩ := Path.withoutSlash_resolve (t := t) hdir
    obtain ⟨names', hnames⟩ : ∃ names', (t.resolve dir).components = List.reverse names' :=
      ⟨_, (List.reverse_reverse _).symm⟩
    have hidle : ∀ s ∈ names', isIdle s = false := by
      intro s hs
      have hmem : s ∈ (t.resolve dir).components := hnames ▸ List.mem_reverse.2 hs
      simpa using (List.mem_filter.1 hmem).2
    rw [hnames] at hspelled hup
    rw [Path.parents_join_under hstart hidle hspelled (isPlainName_of_mem n hn)] at hmade
    rw [hspelled] at hreaches
    rcases Tree.makeDirectories_fresh hrooted hstart hidle
      (fun hs => hup (List.mem_reverse.2 hs)) hmade with ⟨k, hsame, -, -⟩ | ⟨k, hfresh⟩
    · rw [hsame, ← hspelled] at hreaches
      have hwalk := Tree.walk_of_reaches_resolve hdir (Tree.Keeps.refl t) hreaches
      rw [Tree.pathExists_iff.2 ⟨l, hwalk⟩] at hexists
      cases hexists
    · obtain rfl := Tree.Arrival.found.inj (hfresh.found.symm.trans hreaches.found)
      exact fun m _ => hfresh.bare m

/-- A run that succeeds leaves all three names, and another one makes nothing more, whatever is
wanted of it. The list of a run whose directory has no links is exact if and only if the directory
was there or is made without any of the names, as it is unless it is spelled with a segment that
goes up. -/
theorem createIn_completes {dir : String} (ht : t.Spellable)
    (h : (createIn git (.ofText dir) o).perform t = (.ok created, t')) :
    (∀ n ∈ names, t'.pathExists ((t'.resolve (.ofText dir)).join n) = true) ∧
    (∀ (git' : Git.Facts) (o' : Options), o'.Known →
      (createIn git' (.ofText dir) o').perform t' = (.ok [], t')) ∧
    ∃ l, t'.locate? (.ofText dir) = some l ∧ (Unlinked t l →
      (Exact t (t.resolve (.ofText dir)) l created ↔ t.pathExists (.ofText dir) = true ∨
        ∀ n ∈ names, (prepared t (t.resolve (.ofText dir))).at? (n :: l) = none) ∧
      (t.Rooted → ".." ∉ (t.resolve (.ofText dir)).components →
        Exact t (t.resolve (.ofText dir)) l created)) := by
  have hdir := slashless_ofText dir
  obtain ⟨l, hl⟩ := completed_of_createIn ht hdir h
  refine ⟨fun n hn => ?_, fun git' o' ho => hl.createIn_again git' ho, l,
    Tree.locate?_eq_some_iff.2 hl.walk, fun hlink => ⟨hl.exact_iff hdir hlink h,
      hl.exact_of_not_up hdir hlink h⟩⟩
  rw [hl.join hn]
  exact hl.complete n hn

def anything : Options :=
  ⟨none, none, .empty⟩

def partialProject : Tree :=
  ⟨[(["p"], .directory .everyone), (["prefect.yaml", "p"], .file "name: p\n".toUTF8)]⟩

theorem createIn_completes_partial :
    ∃ t', partialProject.Spellable ∧
      (createIn ⟨none, none⟩ (.ofText "/p") anything).perform partialProject =
        (.ok [".prefectignore", ".prefect/"], t') ∧
      Unlinked partialProject ["p"] ∧
      Exact partialProject (.ofLocation ["p"]) ["p"] [".prefectignore", ".prefect/"] ∧
      (createIn ⟨some "url", none⟩ (.ofText "/p") ⟨some "q", some "docker", .empty⟩).perform t' =
        (.ok [], t') := by
  have hspell : partialProject.Spellable := Tree.spellable_of_entries (by simp [partialProject])
  obtain ⟨t', hrun⟩ : ∃ t', (createIn ⟨none, none⟩ (.ofText "/p") anything).perform
      partialProject = (.ok [".prefectignore", ".prefect/"], t') :=
    Action.perform_of_toOption (by decide +kernel)
  have hunlinked : Unlinked partialProject ["p"] :=
    unlinked_of_entries (by simp [partialProject])
  have hresolve : partialProject.resolve (.ofText "/p") = .ofLocation ["p"] := by decide +kernel
  have hplace : t'.locate? (.ofText "/p") = some ["p"] := by
    rw [← Action.snd_perform hrun]
    decide +kernel
  obtain ⟨-, hagain, l, hl, hlist⟩ := createIn_completes hspell hrun
  obtain rfl : ["p"] = l := Option.some.inj (hplace.symm.trans hl)
  have hexact := (hlist hunlinked).1.2 (.inl (by decide +kernel))
  rw [hresolve] at hexact
  have hknown : (⟨some "q", some "docker", .empty⟩ : Options).Known := by
    intro name hname
    cases hname
    decide
  exact ⟨t', hspell, hrun, hunlinked, hexact, hagain _ _ hknown⟩

def finishedProject : Tree :=
  ⟨[(["y"], .directory .everyone), ([".prefectignore", "y"], .file "mine\n".toUTF8),
    (["prefect.yaml", "y"], .file "name: y\n".toUTF8), ([".prefect", "y"], .directory .ownerOnly)]⟩

/-- On the way to a finished project a directory is made, and then the project's list of files is
overwritten. The three names led nowhere before by the path of the run, and in the directory nothing
was missing; the run lists neither all of them nor none. -/
theorem createIn_overwrites_finished :
    ∃ t', (createIn ⟨none, none⟩ (.ofText "/x/../y") anything).perform finishedProject =
        (.ok [".prefectignore"], t') ∧
      t'.locate? (.ofText "/x/../y") = some ["y"] ∧ Unlinked finishedProject ["y"] ∧
      (listing fun n => !finishedProject.pathExists
        ((finishedProject.resolve (.ofText "/x/../y")).join n)) =
          [".prefectignore", "prefect.yaml", ".prefect/"] ∧
      (listing fun n => (finishedProject.at? [n, "y"]).isNone) = [] ∧
      finishedProject.text? (.ofText "/y/.prefectignore") = some "mine\n" ∧
      t'.find? (.ofText "/y/.prefectignore") ≠ some (.file "mine\n".toUTF8) := by
  obtain ⟨t', hrun⟩ : ∃ t', (createIn ⟨none, none⟩ (.ofText "/x/../y") anything).perform
      finishedProject = (.ok [".prefectignore"], t') :=
    Action.perform_of_toOption (by decide +kernel)
  have hunlinked : Unlinked finishedProject ["y"] :=
    unlinked_of_entries (by simp [finishedProject])
  refine ⟨t', hrun, ?_, hunlinked, by decide +kernel, by decide +kernel, by decide +kernel, ?_⟩
  all_goals
    rw [← Action.snd_perform hrun]
    decide +kernel

end Init

end Scaffold
