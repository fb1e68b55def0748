import Scaffold.Proofs.Project.Completion
import Scaffold.Proofs.Tree.Addition

/-!
# What a run leaves alone

Whatever becomes of a run, each place of the tree is as it was or has something that was not there
(`Brings`), with one exception: the list of files that are not uploaded takes the place of a file to
which its path leads only once directories are made (`Overwrites`). `createIn_adds` says that there
is no other, and when there is none.
-/

namespace Scaffold

namespace Path

theorem above_withoutSlash (p : Path) : above p.withoutSlash.reverse = p.parents := by
  unfold withoutSlash parents
  split
  · rename_i hlast
    obtain ⟨before, hbefore⟩ := List.getLast?_eq_some_iff.1 hlast
    rw [hbefore, List.dropLast_concat, List.reverse_append, List.reverse_singleton,
      List.singleton_append, above, if_pos (by decide)]
  · rfl

end Path

namespace Init

variable {t u v : Tree} {dir d : Path} {n : String} {k l : Location} {e : Entry}

/-- What a run may bring to the place `l`: directories on the way to the project's own, the two files
in it or where links with their names lead, and the marker. -/
inductive Brings (t u : Tree) (dir : Path) (l : Location) : Entry → Prop where
  | directory {p : Path} : p ∈ dir :: (t.resolve dir).parents → u.locate? p = some l →
      Brings t u dir l (.directory .everyone)
  | file {k : Location} {n : String} {content : ByteArray} :
      n ∈ [ignoreFileName, Config.fileName] → u.locate? dir = some k →
      u.locate? ((t.resolve dir).join n) = some l →
      (l = n :: k ∨ ∃ target, t.at? (n :: k) = some (.link target)) →
      Brings t u dir l (.file content)
  | marker {k : Location} : u.locate? dir = some k → l = Marker.name :: k →
      Brings t u dir l (.directory .ownerOnly)

theorem Brings.of_keeps (h : Brings t u dir l e) (hv : v.Keeps u) : Brings t v dir l e := by
  have hleads : ∀ {p m}, u.locate? p = some m → v.locate? p = some m := fun hp =>
    Tree.locate?_eq_some_iff.2 (hv.walk (Tree.locate?_eq_some_iff.1 hp))
  cases h with
  | directory hp hl => exact .directory hp (hleads hl)
  | file hn hk hl hplace => exact .file hn (hleads hk) (hleads hl) hplace
  | marker hk hl => exact .marker (hleads hk) hl

/-- The list of files that are not uploaded is written to `l` though something may be there: its
path led nowhere until the directories above it were made. -/
structure Overwrites (t : Tree) (d : Path) (l : Location) : Prop where
  missing : t.pathExists (d.join ignoreFileName) = false
  made : t.makeDirectories (d.join ignoreFileName).parents = (prepared t d, true)
  leads : (prepared t d).locate? (d.join ignoreFileName) = some l

inductive Changes (t u : Tree) (dir : Path) (l : Location) : Prop where
  | same : u.at? l = t.at? l → Changes t u dir l
  | new {e : Entry} : t.at? l = none → u.at? l = some e → Brings t u dir l e → Changes t u dir l
  | overwritten {content : ByteArray} : t.at? l = some (.file content) →
      Overwrites t (t.resolve dir) l → u.at? l = some (.file Skeleton.ignoreFile.toUTF8) →
      Changes t u dir l

theorem Changes.grow (h : Changes t u dir l) (hv : v.Keeps u) (hg : u.Grows v (Brings t v dir)) :
    Changes t v dir l := by
  cases h with
  | same hsame =>
    rcases hg l with hl | ⟨hnone, e, hl, he⟩
    · exact .same (hl.trans hsame)
    · exact .new (hsame.symm.trans hnone) hl he
  | new hnone hl he => exact .new hnone (hg.keep hl) (he.of_keeps hv)
  | overwritten hat hover hl => exact .overwritten hat hover (hg.keep hl)

variable (hdir : Slashless dir.segments)

include hdir

theorem locate?_of_reaches (hu : u.Keeps t) (hk : u.Reaches (t.resolve dir).withoutSlash k) :
    u.locate? dir = some k :=
  Tree.locate?_eq_some_iff.2 (Tree.walk_of_reaches_resolve hdir hu hk)

theorem grows_prepared : t.Grows (prepared t (t.resolve dir))
    (Brings t (prepared t (t.resolve dir)) dir) := by
  have hd : Slashless (t.resolve dir).segments := slashless_resolve hdir
  have hname := isPlainName_of_mem ignoreFileName (by decide)
  have hgrows := Tree.grows_makeDirectories (t := t) (slashless_parents (slashless_join hd _))
    (fun p => Path.getLast?_parents (p := (t.resolve dir).join ignoreFileName))
  intro l
  rcases hgrows l with hsame | ⟨hnone, e, hat, rfl, p, hp, hleads⟩
  · exact .inl hsame
  · refine .inr ⟨hnone, _, hat, ?_⟩
    rw [Path.parents_join _ hname, Path.above_withoutSlash] at hp
    rcases List.mem_cons.1 hp with rfl | hp
    · obtain ⟨hnul, hfound⟩ := Tree.walk_eq_found_iff.1 (Tree.locate?_eq_some_iff.1 hleads)
      have hdt : (t.resolve dir).Tidy := Path.withoutSlash_resolve hdir
      rcases hdt.trimmed with ⟨hroot, -⟩ | ⟨hsame, -⟩
      · -- nothing is made of the root
        rw [hroot] at hfound
        cases hfound
        cases hnone
      · rw [hsame] at hfound hnul
        have hdirectory : (prepared t (t.resolve dir)).isDirectoryAt l = true := by
          unfold Tree.isDirectoryAt prepared
          rw [hat]
        exact .directory List.mem_cons_self (locate?_of_reaches hdir (keeps_prepared hd)
          ⟨hfound, hdirectory, Tree.any_nul_eq_false_iff.1 hnul⟩)
    · exact .directory (List.mem_cons_of_mem _ hp) hleads

theorem brings_file (hu : u.Keeps t) (hk : u.Reaches (t.resolve dir).withoutSlash k)
    (hn : n ∈ [ignoreFileName, Config.fileName])
    (hl : u.locate? ((t.resolve dir).join n) = some l) (content : ByteArray) :
    Brings t u dir l (.file content) := by
  have hname : IsPlainName n := isPlainName_of_mem n (by
    rcases List.mem_cons.1 hn with rfl | hn
    · decide
    · rw [List.mem_singleton.1 hn]
      decide)
  refine .file hn (locate?_of_reaches hdir hu hk) hl ?_
  rw [Path.join_of_single _ hname.segmentsOf] at hl
  exact (hk.place_eq hname hl).imp_right fun ⟨target, hat⟩ => ⟨target, hu.link _ _ hat⟩

/-! ## Steps -/

theorem Overwrites.write? (h : Overwrites t (t.resolve dir) l) {before : ByteArray}
    (hat : t.at? l = some (.file before)) (content : ByteArray) :
    (prepared t (t.resolve dir)).write? ((t.resolve dir).join ignoreFileName) content =
      some ((prepared t (t.resolve dir)).put l (.file content)) := by
  unfold Tree.write?
  rw [Tree.locate?_eq_some_iff.1 h.leads]
  dsimp only
  rw [(grows_prepared hdir).keep hat]

/-- The list of files is new, or it takes the place of a file. -/
theorem changes_written
    (hmissing : t.pathExists ((t.resolve dir).join ignoreFileName) = false)
    (hmade : t.makeDirectories ((t.resolve dir).join ignoreFileName).parents =
      (prepared t (t.resolve dir), true))
    (hwrite : (prepared t (t.resolve dir)).write? ((t.resolve dir).join ignoreFileName)
      Skeleton.ignoreFile.toUTF8 = some u) (m : Location) : Changes t u dir m := by
  have hd : Slashless (t.resolve dir).segments := slashless_resolve hdir
  have hname := isPlainName_of_mem ignoreFileName (by decide)
  have hpath := slashless_join hd ignoreFileName
  have hkeeps : (prepared t (t.resolve dir)).Keeps t := keeps_prepared hd
  have hwrote := Tree.keeps_write? hpath hwrite
  obtain ⟨l, hl, hu, hleads, hplace⟩ := Tree.write?_place hpath hwrite
  have hat : ∀ m, u.at? m = if m = l then some (.file Skeleton.ignoreFile.toUTF8)
      else (prepared t (t.resolve dir)).at? m := fun m => by rw [hu, Tree.at?_put _ hl.1]
  by_cases hm : m = l
  · subst hm
    have hat := (hat m).trans (if_pos rfl)
    rcases addsDirectories_prepared (t := t) hd m with hsame | ⟨-, hdirectory⟩
    · cases hbefore : t.at? m with
      | none =>
        have hreaches := hwrite
        rw [Path.join_of_single _ hname.segmentsOf] at hreaches
        obtain ⟨k, hk⟩ := Tree.reaches_of_write? hname hreaches
        exact .new hbefore hat (brings_file hdir (hkeeps.trans hwrote) (hk.of_keeps hwrote)
          List.mem_cons_self hleads _)
      | some e =>
        rw [hbefore] at hsame
        obtain ⟨before, rfl⟩ := hl.2 e hsame
        rcases hplace with hnone | hplace
        · rw [hsame] at hnone
          cases hnone
        · exact .overwritten hbefore ⟨hmissing, hmade, hplace⟩ hat
    · obtain ⟨before, hfile⟩ := hl.2 _ hdirectory
      cases hfile
  · have hat := (hat m).trans (if_neg hm)
    rcases grows_prepared (t := t) hdir m with hsame | ⟨hnone, e, hnew, he⟩
    · exact .same (hat.trans hsame)
    · exact .new hnone (hat.trans hnew) (he.of_keeps hwrote)

theorem createIgnoreFile_changes {r : Except Error Bool}
    (h : (createIgnoreFile (t.resolve dir)).perform t = (r, u)) :
    u.Keeps t ∧ (∀ l, Changes t u dir l) ∧
      (∀ l content, Overwrites t (t.resolve dir) l → t.at? l = some (.file content) →
        u.at? l = some (.file Skeleton.ignoreFile.toUTF8)) ∧
      (∀ made, r = .ok made → ∃ k, u.Reaches (t.resolve dir).withoutSlash k) := by
  have hd : Slashless (t.resolve dir).segments := slashless_resolve hdir
  have hname := isPlainName_of_mem ignoreFileName (by decide)
  have hjoin := Path.join_of_single (t.resolve dir) hname.segmentsOf
  have hkeeps : (prepared t (t.resolve dir)).Keeps t := keeps_prepared hd
  unfold createIgnoreFile Action.writeTextIfMissing at h
  rw [Action.perform_get_bind] at h
  split at h
  · rename_i hexists
    cases h
    refine ⟨.refl t, fun l => .same rfl, fun l content hover => ?_, fun _ _ => ?_⟩
    · rw [hover.missing] at hexists
      cases hexists
    · rw [hjoin] at hexists
      exact Tree.reaches_of_pathExists hname hexists
  rename_i hmissing
  have hmissing := Bool.eq_false_iff.2 hmissing
  rcases Action.perform_bind_cases h with ⟨e, hwritten, rfl⟩ | ⟨_, w, hwritten, hlast⟩
  · rcases Action.perform_writeText_cases hname hwritten with ⟨hok, -⟩ | ⟨-, hu, hnot⟩
    · cases hok
    obtain rfl : u = prepared t (t.resolve dir) := hu
    refine ⟨hkeeps, fun l => Changes.grow (.same rfl) hkeeps (grows_prepared hdir),
      fun l content hover hat => ?_, nofun⟩
    have hsome := hover.write? hdir hat Skeleton.ignoreFile.toUTF8
    rw [hnot _ hover.made] at hsome
    cases hsome
  · cases hlast
    rcases Action.perform_writeText_cases hname hwritten with ⟨-, v, hmade, hwrite⟩ | ⟨⟨e, he⟩, -⟩
    · obtain rfl : prepared t (t.resolve dir) = v := congrArg Prod.fst hmade
      have hwrote := Tree.keeps_write? (slashless_join hd ignoreFileName) hwrite
      refine ⟨hkeeps.trans hwrote, changes_written hdir hmissing hmade hwrite,
        fun l content hover hat => ?_, fun _ _ => ?_⟩
      · have hl : l ≠ [] := Tree.at?_ne_nil_of_file hat
        have hsome := hwrite.symm.trans (hover.write? hdir hat _)
        rw [Option.some.inj hsome, Tree.at?_put _ hl, if_pos rfl]
      · rw [hjoin] at hwrite
        obtain ⟨k, hk⟩ := Tree.reaches_of_write? hname hwrite
        exact ⟨k, hk.of_keeps hwrote⟩
    · cases he

omit hdir

section There

variable (hd : Slashless d.segments) (hk : t.Reaches d.withoutSlash k)

include hd hk

/-- In a directory that is there, a file that is written under a free name is all that is new. -/
theorem writeText_grows (hn : IsPlainName n) (hmissing : t.pathExists (d.join n) = false)
    {text : String} {r : Except Error Unit}
    (h : (Action.writeText (d.join n) text).perform t = (r, u)) :
    u.Keeps t ∧ t.Grows u fun l e =>
      u.locate? (d.join n) = some l ∧ ∃ content, e = .file content := by
  have hthere := Tree.makeDirectories_parents hn hk
  have hpath := slashless_join hd n
  rcases Action.perform_writeText_cases hn h with ⟨-, v, hmade, hwrite⟩ | ⟨-, hu, -⟩
  · obtain rfl : t = v := congrArg Prod.fst (hthere.symm.trans hmade)
    obtain ⟨l, hl, rfl, hleads, hplace⟩ := Tree.write?_place hpath hwrite
    refine ⟨Tree.keeps_write? hpath hwrite, .put hl.1 ?_ ⟨hleads, _, rfl⟩⟩
    rcases hplace with hnone | hfound
    · exact hnone
    · rw [Tree.pathExists, hfound] at hmissing
      cases hmissing
  · rw [hthere] at hu
    subst hu
    exact ⟨.refl _, .refl _ _⟩

theorem config_grows {name : String} {contents : Option Yaml.Mapping} {r : Except Error Bool}
    (h : (Config.create d name contents).perform t = (r, u)) :
    u.Keeps t ∧ t.Grows u fun l e =>
      u.locate? (d.join Config.fileName) = some l ∧ ∃ content, e = .file content := by
  have hname := isPlainName_of_mem Config.fileName (by decide)
  unfold Config.create at h
  rw [Action.perform_get_bind] at h
  dsimp only at h
  split at h
  · cases h
    exact ⟨.refl t, .refl t _⟩
  rename_i hmissing
  rcases Action.perform_bind_cases h with ⟨e, hrender, rfl⟩ | ⟨text, w, hrender, hrest⟩
  · obtain rfl := (Action.reads_ofExcept _).perform_eq hrender
    exact ⟨.refl _, .refl _ _⟩
  obtain rfl := (Action.reads_ofExcept _).perform_eq hrender
  have hmissing := Bool.eq_false_iff.2 hmissing
  rcases Action.perform_bind_cases hrest with ⟨e, hwrite, -⟩ | ⟨_, v, hwrite, hlast⟩
  · exact writeText_grows hd hk hname hmissing hwrite
  · cases hlast
    exact writeText_grows hd hk hname hmissing hwrite

theorem marker_grows {r : Except Error Bool} (h : (Marker.create d).perform t = (r, u)) :
    u.Keeps t ∧ t.Grows u fun l e => l = Marker.name :: k ∧ e = .directory .ownerOnly := by
  have hname := isPlainName_of_mem Marker.name (by decide)
  unfold Marker.create at h
  rw [Action.perform_get_bind] at h
  split at h
  · cases h
    exact ⟨.refl t, .refl t _⟩
  have hmade : u = t ∨ t.makeDirectory (d.join Marker.name) .ownerOnly = .ok u := by
    have hlast : ∃ r', (Action.makePrivateDirectory (d.join Marker.name)).perform t = (r', u) := by
      rcases Action.perform_bind_cases h with ⟨e, hmade, -⟩ | ⟨_, v, hmade, hlast⟩
      · exact ⟨_, hmade⟩
      · cases hlast
        exact ⟨_, hmade⟩
    obtain ⟨r', hlast⟩ := hlast
    rcases Action.perform_replace_cases hlast with ⟨-, hchange⟩ | ⟨-, -, rfl⟩
    · exact .inr (Action.eq_ok_of_toOption hchange)
    · exact .inl rfl
  rcases hmade with rfl | hmade
  · exact ⟨.refl u, .refl u _⟩
  · refine ⟨Tree.keeps_makeDirectory (slashless_join hd _) hmade, ?_⟩
    rw [Path.join_of_single d hname.segmentsOf] at hmade
    obtain ⟨l, hl, hnone, rfl⟩ := Tree.makeDirectory_snoc hname hmade
    obtain rfl := hl.unique hk
    exact .put (List.cons_ne_nil _ _) hnone ⟨rfl, rfl⟩

end There

/-! ## Whole runs -/

variable {s : Surroundings} {o : Options} {r : Except Error (List String)} {git : Git.Facts}

theorem configure_eq_error {name : String} (values : Text.Dictionary)
    (h : Recipe.ofName? name = none) :
    Recipe.configure name values = .error (.unknownRecipe name) := by
  unfold Recipe.configure Recipe.load
  rw [h]
  rfl

section Steps

variable (hdir : Slashless dir.segments) {t₁ t₂ : Tree} (hu : t₁.Keeps t)
  (hk : t₁.Reaches (t.resolve dir).withoutSlash k)

include hdir hu hk

theorem config_brings {name : String} {contents : Option Yaml.Mapping} {r : Except Error Bool}
    (h : (Config.create (t.resolve dir) name contents).perform t₁ = (r, t₂)) :
    t₂.Keeps t₁ ∧ t₁.Grows t₂ (Brings t t₂ dir) := by
  obtain ⟨hkeeps, hgrows⟩ := config_grows (slashless_resolve hdir) hk h
  refine ⟨hkeeps, hgrows.mono ?_⟩
  rintro l _ ⟨hl, content, rfl⟩
  exact brings_file hdir (hu.trans hkeeps) (hk.of_keeps hkeeps) (by simp) hl content

theorem marker_brings {r : Except Error Bool}
    (h : (Marker.create (t.resolve dir)).perform t₁ = (r, t₂)) :
    t₂.Keeps t₁ ∧ t₁.Grows t₂ (Brings t t₂ dir) := by
  obtain ⟨hkeeps, hgrows⟩ := marker_grows (slashless_resolve hdir) hk h
  refine ⟨hkeeps, hgrows.mono ?_⟩
  rintro l _ ⟨hl, rfl⟩
  exact .marker (locate?_of_reaches hdir (hu.trans hkeeps) (hk.of_keeps hkeeps)) hl

end Steps

/-- What a run does to each place, whatever its outcome; the list of files is written wherever its
path leads. -/
theorem create_changes (hdir : Slashless dir.segments) (hs : s.directory = t.resolve dir)
    (hr : (Recipe.ofName? (s.recipe o)).isSome = true)
    (h : (create s o).perform t = (r, t')) :
    (∀ l, Changes t t' dir l) ∧
      ∀ l content, Overwrites t (t.resolve dir) l → t.at? l = some (.file content) →
        t'.at? l = some (.file Skeleton.ignoreFile.toUTF8) := by
  obtain ⟨recipe, hrecipe⟩ := Option.isSome_iff_exists.1 hr
  unfold create at h
  rw [Recipe.configure_eq hrecipe, Action.perform_bind_of_ok (Action.perform_ofExcept_ok _), hs]
    at h
  rcases Action.perform_bind_cases h with ⟨e, h₁, -⟩ | ⟨ignored, t₁, h₁, h⟩
  · obtain ⟨-, hchanges, hover, -⟩ := createIgnoreFile_changes hdir h₁
    exact ⟨hchanges, hover⟩
  obtain ⟨hkeeps₁, hchanges, hover, hreaches⟩ := createIgnoreFile_changes hdir h₁
  obtain ⟨k, hk⟩ := hreaches ignored rfl
  -- from here on the directory is there, and the tree grows
  have hrest : t'.Keeps t₁ ∧ t₁.Grows t' (Brings t t' dir) := by
    rcases Action.perform_bind_cases h with ⟨e, h₂, -⟩ | ⟨configured, t₂, h₂, h⟩
    · exact config_brings hdir hkeeps₁ hk h₂
    obtain ⟨hkeeps₂, hgrows₂⟩ := config_brings hdir hkeeps₁ hk h₂
    obtain ⟨r', h₃⟩ : ∃ r', (Marker.create (t.resolve dir)).perform t₂ = (r', t') := by
      rcases Action.perform_bind_cases h with ⟨e, h₃, -⟩ | ⟨marked, t₃, h₃, hlast⟩
      · exact ⟨_, h₃⟩
      · cases hlast
        exact ⟨_, h₃⟩
    obtain ⟨hkeeps₃, hgrows₃⟩ :=
      marker_brings hdir (hkeeps₁.trans hkeeps₂) (hk.of_keeps hkeeps₂) h₃
    exact ⟨hkeeps₂.trans hkeeps₃, (hgrows₂.mono fun _ _ he => he.of_keeps hkeeps₃).trans hgrows₃⟩
  refine ⟨fun l => (hchanges l).grow hrest.1 hrest.2, fun l content hl hat => ?_⟩
  exact hrest.2.keep (hover l content hl hat)

theorem Overwrites.prepared_ne (h : Overwrites t d l) : prepared t d ≠ t := by
  intro heq
  have hleads := h.leads
  rw [heq] at hleads
  have hmissing := h.missing
  rw [Tree.pathExists, hleads] at hmissing
  cases hmissing

theorem not_overwrites_of_exists (hdir : Slashless dir.segments) (h : t.pathExists dir = true) :
    ¬ Overwrites t (t.resolve dir) l := by
  intro hover
  have hname := isPlainName_of_mem ignoreFileName (by decide)
  obtain ⟨k, hk⟩ := Tree.pathExists_iff.1 h
  have hstraight := Tree.straight_of_locate? hdir (Tree.locate?_eq_some_iff.2 hk)
  rw [Tree.resolve_of_walk hk] at hover
  refine hover.prepared_ne (Tree.makeDirectories_ofLocation hstraight.isName hname ?_)
  have hleads := Tree.locate?_eq_some_iff.1 hover.leads
  rw [Path.join_ofLocation hstraight.isName hname.segmentsOf] at hleads
  have hnul := Tree.any_nul_eq_false_iff.1 (Tree.any_nul_of_walk hleads)
  refine Tree.pathExists_iff.2 ⟨k, Tree.walk_eq_found_iff.2
    ⟨Tree.any_nul_eq_false_iff.2 fun s hs => hnul s ?_, Tree.fromRoot_names hstraight⟩⟩
  simp only [Path.ofLocation, List.reverse_cons, List.mem_append] at hs ⊢
  exact .inl hs

theorem not_overwrites_of_not_up (hdir : Slashless dir.segments) (hrooted : t.Rooted)
    (hup : ".." ∉ (t.resolve dir).components) : ¬ Overwrites t (t.resolve dir) l := by
  intro hover
  have hname := isPlainName_of_mem ignoreFileName (by decide)
  obtain ⟨start, hstart, hspelled⟩ := Path.withoutSlash_resolve (t := t) hdir
  obtain ⟨reversed, hreversed⟩ : ∃ reversed, (t.resolve dir).components = List.reverse reversed :=
    ⟨_, (List.reverse_reverse _).symm⟩
  have hidle : ∀ s ∈ reversed, isIdle s = false := by
    intro s hs
    have hmem : s ∈ (t.resolve dir).components := hreversed ▸ List.mem_reverse.2 hs
    simpa using (List.mem_filter.1 hmem).2
  rw [hreversed] at hspelled hup
  have hmade := hover.made
  rw [Path.parents_join_under hstart hidle hspelled hname] at hmade
  rcases Tree.makeDirectories_fresh hrooted hstart hidle
    (fun hs => hup (List.mem_reverse.2 hs)) hmade with ⟨k, hsame, -, -⟩ | ⟨k, hfresh⟩
  · exact hover.prepared_ne hsame
  · -- the directory is new, so there is nothing in it to be found
    have hleads := Tree.locate?_eq_some_iff.1 hover.leads
    rw [Path.join_of_single _ hname.segmentsOf, hspelled] at hleads
    have hnul := Tree.any_nul_eq_false_iff.1 (Tree.any_nul_of_walk hleads)
    have hreaches : (prepared t (t.resolve dir)).Reaches (start ++ reversed.reverse) k :=
      ⟨hfresh.found, hfresh.directory, fun s hs => hnul s (List.mem_append_left _ hs)⟩
    rw [hreaches.walk_none hname (hfresh.bare _)] at hleads
    cases hleads

/-- Whatever becomes of a run, it only adds to what is there, unless the path of the list of files
leads to a file as soon as its directories are made; then that file is overwritten. That is not so
if the directory was there or is spelled without a segment that goes up. A run with an unknown
recipe changes nothing. -/
theorem createIn_adds {dir : String}
    (h : (createIn git (.ofText dir) o).perform t = (r, t')) :
    (Recipe.ofName? ((survey t git (.ofText dir)).recipe o) = none →
      r = .error (.unknownRecipe ((survey t git (.ofText dir)).recipe o)) ∧ t' = t) ∧
    (∀ l e, t.at? l = some e → t'.at? l = some e ∨
      (∃ content, e = .file content) ∧ Overwrites t (t.resolve (.ofText dir)) l ∧
        t'.at? l = some (.file Skeleton.ignoreFile.toUTF8)) ∧
    (∀ l e, t.at? l = none → t'.at? l = some e → Brings t t' (.ofText dir) l e) ∧
    ((Recipe.ofName? ((survey t git (.ofText dir)).recipe o)).isSome = true →
      ∀ l content, Overwrites t (t.resolve (.ofText dir)) l → t.at? l = some (.file content) →
        t'.at? l = some (.file Skeleton.ignoreFile.toUTF8)) ∧
    ((t.pathExists (.ofText dir) = true ∨
        t.Rooted ∧ ".." ∉ (t.resolve (.ofText dir)).components) →
      ∀ l, ¬ Overwrites t (t.resolve (.ofText dir)) l) := by
  have hdir := slashless_ofText dir
  unfold createIn at h
  rw [Action.perform_get_bind] at h
  have hnot : (t.pathExists (.ofText dir) = true ∨
        t.Rooted ∧ ".." ∉ (t.resolve (.ofText dir)).components) →
      ∀ l, ¬ Overwrites t (t.resolve (.ofText dir)) l := by
    rintro (hexists | ⟨hrooted, hup⟩) l
    · exact not_overwrites_of_exists hdir hexists
    · exact not_overwrites_of_not_up hdir hrooted hup
  cases hrecipe : Recipe.ofName? ((survey t git (.ofText dir)).recipe o) with
  | none =>
    have hunknown : r = .error (.unknownRecipe ((survey t git (.ofText dir)).recipe o)) ∧
        t' = t := by
      unfold create at h
      rw [configure_eq_error _ hrecipe,
        Action.perform_bind_of_error (Action.perform_ofExcept_error _)] at h
      cases h
      exact ⟨rfl, rfl⟩
    obtain ⟨-, rfl⟩ := id hunknown
    refine ⟨fun _ => hunknown, fun l e hat => .inl hat, fun l e hnone hat => ?_, nofun, hnot⟩
    rw [hnone] at hat
    cases hat
  | some recipe =>
    obtain ⟨hchanges, hover⟩ := create_changes hdir rfl (Option.isSome_iff_exists.2 ⟨_, hrecipe⟩) h
    refine ⟨nofun, fun l e hat => ?_, fun l e hnone hat => ?_, fun _ => hover, hnot⟩
    · cases hchanges l with
      | same hsame => exact .inl (hsame.trans hat)
      | new hnone => rw [hnone] at hat; cases hat
      | overwritten hbefore hl hafter =>
        rw [hbefore] at hat
        exact .inr ⟨⟨_, (Option.some.inj hat).symm⟩, hl, hafter⟩
    · cases hchanges l with
      | same hsame => rw [hsame, hnone] at hat; cases hat
      | new _ hnew he =>
        rw [hnew] at hat
        exact (Option.some.inj hat) ▸ he
      | overwritten hbefore => rw [hbefore] at hnone; cases hnone

/-- A directory in which the configuration's name is that of a link that leads nowhere, not even to
a directory in which something could be made. -/
def brokenProject : Tree :=
  ⟨[(["p"], .directory .everyone), (["notes", "p"], .file "mine\n".toUTF8),
    (["prefect.yaml", "p"], .link "gone/prefect.yaml")]⟩

/-- A run that fails at its second step has added the list of files and kept the rest. -/
theorem createIn_adds_broken :
    ∃ t', (createIn ⟨none, none⟩ (.ofText "/p") anything).perform brokenProject =
        (.error (.other "Failed to write file: /p/prefect.yaml"), t') ∧
      t'.at? ["notes", "p"] = some (.file "mine\n".toUTF8) ∧
      t'.at? ["prefect.yaml", "p"] = some (.link "gone/prefect.yaml") ∧
      Brings brokenProject t' (.ofText "/p") [".prefectignore", "p"]
        (.file Skeleton.ignoreFile.toUTF8) := by
  obtain ⟨t', hrun⟩ : ∃ t', (createIn ⟨none, none⟩ (.ofText "/p") anything).perform
      brokenProject = (.error (.other "Failed to write file: /p/prefect.yaml"), t') :=
    Action.perform_of_fst (by decide +kernel)
  obtain ⟨-, hkept, hnew, -, hnot⟩ := createIn_adds hrun
  have hnot := hnot (.inl (by decide +kernel))
  have hlist : t'.at? [".prefectignore", "p"] = some (.file Skeleton.ignoreFile.toUTF8) := by
    rw [← Action.snd_perform hrun]
    decide +kernel
  refine ⟨t', hrun, ?_, ?_, hnew _ _ (by decide +kernel) hlist⟩
  · exact (hkept ["notes", "p"] _ (by decide +kernel)).resolve_right fun h => hnot _ h.2.1
  · exact (hkept ["prefect.yaml", "p"] _ (by decide +kernel)).resolve_right fun h => hnot _ h.2.1

def listedDirectory : Tree :=
  ⟨[(["y"], .directory .everyone), ([".prefectignore", "y"], .file "mine\n".toUTF8)]⟩

/-- A run that succeeds has overwritten a file that was there. -/
theorem createIn_overwrites_list :
    ∃ t', (createIn ⟨none, none⟩ (.ofText "/x/../y") anything).perform listedDirectory =
        (.ok [".prefectignore", "prefect.yaml", ".prefect/"], t') ∧
      listedDirectory.at? [".prefectignore", "y"] = some (.file "mine\n".toUTF8) ∧
      t'.at? [".prefectignore", "y"] ≠ some (.file "mine\n".toUTF8) := by
  obtain ⟨t', hrun⟩ : ∃ t', (createIn ⟨none, none⟩ (.ofText "/x/../y") anything).perform
      listedDirectory = (.ok [".prefectignore", "prefect.yaml", ".prefect/"], t') :=
    Action.perform_of_toOption (by decide +kernel)
  refine ⟨t', hrun, by decide +kernel, ?_⟩
  rw [← Action.snd_perform hrun]
  decide +kernel

end Init

end Scaffold
