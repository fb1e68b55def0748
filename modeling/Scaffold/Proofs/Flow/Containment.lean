import Scaffold.Proofs.Flow.Registration
import Scaffold.Source.Declaration

/-!
# Entrypoints inside the project

What a registration records should name something inside the project (`Entrypoint.Confined`).
A path that leads somewhere is resolved first, so it is recorded only from inside. One that leads
nowhere is compared as it is written: `StaysInside` says when that is good enough, and
`register_confined_iff` that it is good enough exactly then.
-/

namespace Scaffold

/-- Recorded at `root`, the entrypoint has no segment that goes up, and its path leads nowhere
outside. -/
structure Entrypoint.Confined (t : Tree) (root : Location) (e : Entrypoint) : Prop where
  no_up : ".." ∉ segmentsOf e.path
  inside : ∀ l, (t.walk ((Path.ofLocation root).join e.path)).place? = some l → root <:+ l

/-- The path leads somewhere; or it is written without a segment that goes up, and no link takes
it out of `root`. -/
def StaysInside (t : Tree) (root : Location) (p : Path) : Prop :=
  t.pathExists p = true ∨
    ".." ∉ p.components ∧ ∀ l, (t.walk ⟨p.components⟩).place? = some l → root <:+ l

section

variable {t : Tree} {root : Location} {names : List String}

theorem walkFrom_empty_segment (followLast : Bool) (links : Nat) {l : Location}
    (h : t.isDirectoryAt l = true) : t.walkFrom followLast links l [""] = .found l := by
  cases links <;> simp [Tree.walkFrom, Tree.walkUntilLink, h, isIdle]

theorem segments_of_names (hs : Slashless names) :
    ".." ∉ segmentsOf ("/".intercalate names) ↔ ".." ∉ names := by
  cases names with
  | nil =>
    have h : segmentsOf ("/".intercalate []) = [""] := by decide
    rw [h]
    simp
  | cons s names => rw [segmentsOf_intercalate hs (List.cons_ne_nil s names)]

theorem walk_join_names (hroot : t.Straight root) (hdir : t.isDirectoryAt root = true)
    (hs : Slashless names) (hidle : ∀ s ∈ names, isIdle s = false) :
    t.walk ((Path.ofLocation root).join ("/".intercalate names)) =
      t.walk ⟨root.reverse ++ names⟩ := by
  have hslash := Path.withoutSlash_ofLocation hroot.isName
  cases names with
  | nil =>
    have hjoin : (Path.ofLocation root).join ("/".intercalate []) = ⟨root.reverse ++ [""]⟩ := by
      have h : segmentsOf ("/".intercalate []) = [""] := by decide
      unfold Path.join
      rw [h, hslash]
      rfl
    rw [hjoin, List.append_nil]
    unfold Tree.walk Tree.walkAll
    have hany : ((root.reverse ++ [""]).any fun s => s.toList.contains '\x00') =
        root.reverse.any fun s => s.toList.contains '\x00' := by simp
    have hstraight : t.Straight (root.reverse.reverse ++ []) := by simpa using hroot
    have h1 := Tree.walkFrom_names true Tree.mostLinks hstraight [""]
    have h2 := Tree.walkFrom_names true Tree.mostLinks hstraight []
    simp only [List.append_nil, List.reverse_reverse] at h1 h2
    rw [hany, h1, h2, walkFrom_empty_segment true _ hdir]
    rfl
  | cons s names =>
    have hjoin : (Path.ofLocation root).join ("/".intercalate (s :: names)) =
        ⟨root.reverse ++ s :: names⟩ := by
      unfold Path.join
      rw [segmentsOf_intercalate hs (List.cons_ne_nil s names), hslash]
      split
      · rename_i next rest heq
        obtain ⟨rfl, -⟩ := List.cons.inj heq
        exact absurd (hidle "" List.mem_cons_self) (by decide)
      · rfl
    rw [hjoin]

theorem confined_iff (hroot : t.Straight root) (hdir : t.isDirectoryAt root = true)
    (hs : Slashless names) (hidle : ∀ s ∈ names, isIdle s = false) (function : String) :
    Entrypoint.Confined t root ⟨"/".intercalate names, function⟩ ↔
      ".." ∉ names ∧ ∀ l, (t.walk ⟨root.reverse ++ names⟩).place? = some l → root <:+ l := by
  constructor
  · rintro ⟨h1, h2⟩
    rw [walk_join_names hroot hdir hs hidle] at h2
    exact ⟨(segments_of_names hs).1 h1, h2⟩
  · rintro ⟨h1, h2⟩
    refine ⟨(segments_of_names hs).2 h1, ?_⟩
    rw [walk_join_names hroot hdir hs hidle]
    exact h2

theorem confined_below {l : Location} (hroot : t.Straight root) (hdir : t.isDirectoryAt root = true)
    (hl : t.Straight l) (hnames : l.reverse = root.reverse ++ names) (function : String) :
    Entrypoint.Confined t root ⟨"/".intercalate names, function⟩ := by
  have hmem : ∀ s ∈ names, IsName s := fun s hs =>
    hl.isName s (List.mem_reverse.1 (by rw [hnames]; exact List.mem_append_right _ hs))
  have hsuffix : root <:+ l := ⟨names.reverse, by simpa using (congrArg List.reverse hnames).symm⟩
  refine (confined_iff hroot hdir (fun s hs => (hmem s hs).slashless)
    (fun s hs => (hmem s hs).not_idle) function).2 ⟨fun hup => (hmem ".." hup).not_up rfl, ?_⟩
  rw [← hnames]
  intro m hm
  rcases Tree.walk_straight hl with hw | hw <;> rw [hw] at hm <;> cases hm
  exact hsuffix

/-- A path that leads nowhere is inside if it stays there as it is written. -/
theorem confined_missing {p : Path} (hp : Slashless p.segments) (hroot : t.Straight root)
    (hdir : t.isDirectoryAt root = true) (hmissing : t.pathExists p = false)
    (hnames : p.components = root.reverse ++ names) (function : String) :
    Entrypoint.Confined t root ⟨"/".intercalate names, function⟩ ↔ StaysInside t root p := by
  have hmem : ∀ s ∈ names, s ∈ p.components := fun s hs => by
    rw [hnames]
    exact List.mem_append_right _ hs
  have hslash : Slashless names := fun s hs => hp s (List.mem_filter.1 (hmem s hs)).1
  have hidle : ∀ s ∈ names, isIdle s = false := fun s hs => by
    simpa using (List.mem_filter.1 (hmem s hs)).2
  have hup : ".." ∉ names ↔ ".." ∉ p.components := by
    rw [hnames, List.mem_append, not_or]
    refine ⟨fun h => ⟨fun hr => ?_, h⟩, And.right⟩
    exact (hroot.isName _ (List.mem_reverse.1 hr)).not_up rfl
  rw [confined_iff hroot hdir hslash hidle function, StaysInside, hmissing, hup, hnames]
  simp

/-- Where a file that the registration takes leads, seen from the project: inside if the path leads
somewhere, and otherwise if the path stays inside as it is written. -/
theorem confined_iff_staysInside {p : Path} (hp : Slashless p.segments) (hroot : t.Straight root)
    (hdir : t.isDirectoryAt root = true) {function : String} {inside : Entrypoint}
    (h : Entrypoint.inside? (.ofLocation root) (t.resolve p) function = some inside) :
    inside.function = function ∧ (inside.Confined t root ↔ StaysInside t root p) := by
  obtain ⟨names, hnames, rfl⟩ := Option.map_eq_some_iff.1 h
  rw [Path.below?_eq_some_iff, Path.components_ofLocation hroot.isName] at hnames
  refine ⟨rfl, ?_⟩
  cases hl : t.locate? p with
  | some l =>
    have hstraight := Tree.straight_of_locate? hp hl
    have hexists : t.pathExists p = true := by unfold Tree.pathExists; rw [hl]; rfl
    rw [Tree.resolve_of_locate? hl, Path.components_ofLocation hstraight.isName] at hnames
    exact iff_of_true (confined_below hroot hdir hstraight hnames function) (.inl hexists)
  | none =>
    have hmissing : t.pathExists p = false := by unfold Tree.pathExists; rw [hl]; rfl
    have hres : t.resolve p = p.tidy := by unfold Tree.resolve; rw [hl]
    rw [hres, Path.components_tidy] at hnames
    exact confined_missing hp hroot hdir hmissing hnames function

theorem isDirectoryAt_of_exists (hroot : t.Straight root) {s : String}
    (h : t.pathExists (.ofLocation (s :: root)) = true) : t.isDirectoryAt root = true := by
  by_contra hdir
  have hsegments : (Path.ofLocation (s :: root)).segments = root.reverse ++ [s] :=
    List.reverse_cons
  have hstraight : t.Straight (root.reverse.reverse ++ []) := by simpa using hroot
  have hwalk : t.walk (.ofLocation (s :: root)) = .blocked := by
    unfold Tree.walk Tree.walkAll
    split
    · rfl
    · rw [hsegments, Tree.walkFrom_names true Tree.mostLinks hstraight [s]]
      simp [Tree.walkFrom, Tree.mostLinks, Tree.walkUntilLink, hdir]
  unfold Tree.pathExists Tree.locate? at h
  rw [hwalk] at h
  cases h

theorem findRoot_straight {start marker : Path} (hp : Slashless start.segments)
    (hstart : t.pathExists start = true) (h : Marker.find? t start = some marker) :
    ∃ root, t.Straight root ∧ t.isDirectoryAt root = true ∧
      marker = .ofLocation (Marker.name :: root) ∧ marker.parent? = some (.ofLocation root) := by
  obtain ⟨l, hl⟩ := Option.isSome_iff_exists.1 hstart
  have hstraight := Tree.straight_of_locate? hp hl
  have hres := Tree.resolve_of_locate? hl
  obtain ⟨root, hdeepest, rfl⟩ := (Marker.find?_eq_some_iff hstraight.isName hres).1 h
  have hroot := hstraight.suffix hdeepest.above
  have hnames : ∀ s ∈ Marker.name :: root, IsName s :=
    List.forall_mem_cons.2 ⟨Marker.isName_name, hroot.isName⟩
  have hexists : t.pathExists (.ofLocation (Marker.name :: root)) = true :=
    Tree.pathExists_of_isDirectory hdeepest.isIn
  exact ⟨root, hroot, isDirectoryAt_of_exists hroot hexists, rfl,
    Path.parent?_ofLocation_cons hnames⟩

end

section

variable {t t' : Tree} {dir entrypoint : String} {force : Bool} {load : Loader}

/-- A registration that succeeds has recorded what `inside?` says of the resolved path, in the
registry of the project found. -/
theorem register_records {flow : Flow} (hdir : t.pathExists (.ofText dir) = true)
    (h : (register (.ofText dir) entrypoint force load).perform t = (.ok flow, t')) :
    ∃ e root stored, Entrypoint.parse entrypoint = .ok e ∧ t.Straight root ∧
      t.isDirectoryAt root = true ∧
      Marker.findRoot? t (.ofText dir) = some (.ofLocation root) ∧
      Entrypoint.inside? (.ofLocation root) (t.resolve ((Path.ofText dir).join e.path)) e.function =
        some stored ∧
      Registry.Records t' (.ofLocation root) flow.name stored := by
  have hslash := slashless_ofText dir
  obtain ⟨e, marker, p, inside, he, hmarker, hp, hinside, t₁, t₂, r, r', -, hr, hr', hsave⟩ :=
    register_ok h
  obtain ⟨root, hroot, hrootdir, rfl, hparent⟩ := findRoot_straight hslash hdir hmarker
  obtain rfl : p = .ofLocation root := by rw [hparent] at hp; exact (Option.some.inj hp).symm
  have hfind : Marker.findRoot? t (.ofText dir) = some (.ofLocation root) := by
    unfold Marker.findRoot?
    rw [hmarker]
    exact hparent
  refine ⟨e, root, inside, he, hroot, hrootdir, hfind, hinside, r'.flows, ?_, ?_⟩
  · have hfile := Action.text?_of_write (p := r'.path) ?_ hsave
    · rw [(Registry.insert_ok hr').1, Registry.load_ok hr] at hfile
      rwa [Path.join_ofLocation hroot.isName Marker.segmentsOf_name]
    · rw [(Registry.insert_ok hr').1, Registry.load_ok hr]
      refine slashless_join (fun s hs => ?_) _
      have hs : s ∈ Marker.name :: root := List.mem_reverse.1 hs
      rcases List.mem_cons.1 hs with rfl | hs
      · exact Marker.isName_name.slashless
      · exact (hroot.isName s hs).slashless
  · rw [(Registry.insert_ok hr').2]
    simp

/-- What a registration records, compared with where the file is: the entrypoint is confined to the
project exactly if the path of the file stays inside. A file that is there, but outside the
project, is refused and nothing changes. -/
theorem register_confined_iff (hdir : t.pathExists (.ofText dir) = true) :
    (∀ flow t', (register (.ofText dir) entrypoint force load).perform t = (.ok flow, t') →
      ∃ e root stored, Entrypoint.parse entrypoint = .ok e ∧
        Marker.findRoot? t (.ofText dir) = some (.ofLocation root) ∧
        Registry.Records t' (.ofLocation root) flow.name stored ∧ stored.function = e.function ∧
        (stored.Confined t root ↔ StaysInside t root ((Path.ofText dir).join e.path))) ∧
    ∀ e root l, Entrypoint.parse entrypoint = .ok e →
      Marker.findRoot? t (.ofText dir) = some (.ofLocation root) →
      t.locate? ((Path.ofText dir).join e.path) = some l → ¬ root <:+ l →
      (register (.ofText dir) entrypoint force load).perform t =
        (.error (.outsideProject (Path.ofLocation l).text (Path.ofLocation root).text), t) := by
  have hslash := slashless_ofText dir
  constructor
  · intro flow t' h
    obtain ⟨e, root, stored, he, hroot, hrootdir, hfind, hinside, hrecords⟩ :=
      register_records hdir h
    obtain ⟨hfunction, hconfined⟩ :=
      confined_iff_staysInside (slashless_join hslash e.path) hroot hrootdir hinside
    exact ⟨e, root, stored, he, hfind, hrecords, hfunction, hconfined⟩
  · intro e root l he hfind hl hout
    obtain ⟨marker, hmarker, hparent⟩ := Option.bind_eq_some_iff.1 hfind
    obtain ⟨root', hroot, -, rfl, hparent'⟩ := findRoot_straight hslash hdir hmarker
    obtain rfl : root = root' := by
      rw [hparent'] at hparent
      exact List.reverse_injective (congrArg Path.segments (Option.some.inj hparent)).symm
    have hres := Tree.resolve_of_locate? hl
    have hstraight := Tree.straight_of_locate? (slashless_join hslash e.path) hl
    have hinside : Entrypoint.inside? (.ofLocation root) (.ofLocation l) e.function = none := by
      rw [Entrypoint.inside?, Option.map_eq_none_iff, Option.eq_none_iff_forall_ne_some]
      intro names hnames
      rw [Path.below?_eq_some_iff, Path.components_ofLocation hroot.isName,
        Path.components_ofLocation hstraight.isName] at hnames
      exact hout ⟨names.reverse, by simpa using (congrArg List.reverse hnames).symm⟩
    unfold register
    rw [he, Action.perform_bind_of_ok (Action.perform_ofExcept_ok e), Action.perform_get_bind]
    dsimp only
    rw [hmarker]
    dsimp only
    rw [hparent, hres]
    dsimp only
    rw [hinside]
    rfl

end

/-! ## A file beside the project -/

/-- A project in `/p`, and a file with a flow beside it. -/
def besideProject : Tree :=
  ⟨[(["p"], .directory .everyone), ([".prefect", "p"], .directory .ownerOnly),
    (["out.py"], .file "@flow\ndef f():\n    pass\n".toUTF8)]⟩

theorem register_refuses_beside :
    besideProject.pathExists (.ofText "/p") = true ∧
      (register (.ofText "/p") "../out.py:f" false Source.load).perform besideProject =
        (.error (.outsideProject "/out.py" "/p"), besideProject) := by
  have hdir : besideProject.pathExists (.ofText "/p") = true := by decide +kernel
  exact ⟨hdir, (register_confined_iff hdir).2 ⟨"../out.py", "f"⟩ ["p"] ["out.py"] rfl
    (by decide +kernel) (by decide +kernel) (by decide)⟩

/-- With a dot behind it the path leads nowhere, so the file is recorded although it is outside. -/
theorem register_records_beside :
    ∃ flow t', (register (.ofText "/p") "../out.py/.:f" false Source.load).perform besideProject =
        (.ok flow, t') ∧
      Registry.Records t' (.ofText "/p") flow.name ⟨"../out.py", "f"⟩ ∧
      ¬ Entrypoint.Confined besideProject ["p"] ⟨"../out.py", "f"⟩ := by
  obtain ⟨t', hrun⟩ : ∃ t', (register (.ofText "/p") "../out.py/.:f" false Source.load).perform
      besideProject = (.ok ⟨"f", "f", ⟨["p", "..", "out.py"]⟩, none⟩, t') :=
    Action.perform_of_toOption (by decide +kernel)
  obtain ⟨e, root, stored, he, -, -, hfind, hinside, hrecords⟩ :=
    register_records (by decide +kernel) hrun
  have hroot : Marker.findRoot? besideProject (.ofText "/p") = some (.ofText "/p") := by
    decide +kernel
  obtain rfl : e = ⟨"../out.py/.", "f"⟩ := (Except.ok.inj he).symm
  rw [hroot] at hfind
  rw [← Option.some.inj hfind] at hinside hrecords
  have hstored : Entrypoint.inside? (.ofText "/p")
      (besideProject.resolve ((Path.ofText "/p").join "../out.py/.")) "f" =
      some ⟨"../out.py", "f"⟩ := by decide +kernel
  obtain rfl : stored = ⟨"../out.py", "f"⟩ := Option.some.inj (hinside.symm.trans hstored)
  exact ⟨_, t', hrun, hrecords, fun h => h.no_up (by decide)⟩

end Scaffold
