import Scaffold.Proofs.Flow.History
import Scaffold.Proofs.Source.Object
import Scaffold.Proofs.Tree.Addition

/-!
# Names of one file

A file can be named from many directories, past links, dots and double dots, or from the root. A
registration resolves the name before it does anything else, so what it finds depends on the file
and the project alone (`Target.find_congr`). What was registered under one name can be registered
under another, and that changes nothing (`registered_again`). Two things could stand in the way. The
first registration writes the registry, and would write over a flow's source if that were the same
file; it is not, since what holds a dictionary declares no flow. And the second may start from where
the first has made the registry, and then find another marker (`registered_again_misled`).
-/

namespace Scaffold

open Scaffold.Text (Dictionary)

variable {t u : Tree} {path path' entrypoint entrypoint' function : String} {marker p : Path}
  {x : Target} {flow : Flow} {force : Bool} {load : Loader}

/-! ## What is found -/

theorem Target.find_congr {start start' : Path}
    (hparse : Entrypoint.parse entrypoint = .ok ⟨path, function⟩)
    (hparse' : Entrypoint.parse entrypoint' = .ok ⟨path', function⟩)
    (hfile : t.resolve (start.join path) = u.resolve (start'.join path'))
    (hmarker : Marker.find? t start = Marker.find? u start') :
    Target.find t start entrypoint = Target.find u start' entrypoint' := by
  rw [find_of_parse hparse, find_of_parse hparse', hfile, hmarker]

/-- A file that is written moves no marker, unless it is what one starts from. -/
theorem Marker.find?_write?_of_made {start : Path} (hp : Slashless p.segments) {content : ByteArray}
    (h : t.write? p content = some u)
    (hmade : u.pathExists start = true → t.pathExists start = true) :
    find? u start = find? t start := by
  cases hbefore : t.pathExists start with
  | true => exact find?_write? hp h hbefore
  | false =>
    have hafter : u.pathExists start = false := by
      rw [hbefore] at hmade
      simpa using hmade
    have hdir : u.isDirectory = t.isDirectory := funext (Tree.isDirectory_write? hp h)
    unfold find?
    rw [Tree.resolve_of_missing hbefore, Tree.resolve_of_missing hafter, hdir]

/-! ## What is loaded -/

theorem Source.perform_load_iff :
    (Source.load p function).perform t = (.ok flow, u) ↔ u = t ∧ ∃ source d,
      t.text? p = some source ∧ Source.Declaration.ofSource source p.text function = .ok d ∧
      flow = ⟨d.name, function, p, d.description⟩ := by
  unfold Source.load Action.readText
  constructor
  · intro h
    obtain ⟨source, v, hread, h₁⟩ := Action.perform_bind_ok h
    rw [Action.perform_get_bind] at hread
    obtain ⟨hsource, rfl⟩ := Action.perform_require_ok_iff.1 hread
    obtain ⟨d, w, hd, h₂⟩ := Action.perform_bind_ok h₁
    obtain ⟨hdeclared, rfl⟩ := Action.perform_ofExcept_ok_iff.1 hd
    cases h₂
    exact ⟨rfl, source, d, hsource, hdeclared, rfl⟩
  · rintro ⟨rfl, source, d, hsource, hd, rfl⟩
    rw [Action.perform_bind_of_ok (x := source), hd]
    · rfl
    · rw [Action.perform_get_bind]
      exact Action.perform_require_ok_iff.2 ⟨hsource, rfl⟩

/-! ## What is recorded -/

theorem Target.record_ok (hload : load.ReadOnly) (hmarker : Marker.find? t p = some x.marker)
    (h : (x.record force load).perform t = (.ok flow, u)) :
    ∃ d, (load x.file x.function).perform t = (.ok flow, t) ∧ Registry.Holds t x.marker d ∧
      t.write? (x.marker.join Registry.fileName)
        (d.insert flow.name x.inside.text).toJson.toUTF8 = some u := by
  rcases record_cases force hload (Marker.isDirectory_of_find? hmarker) with
    ⟨e, herror⟩ | ⟨flow', d, u', hflow, hd, -, hwrite, hok⟩
  · rw [herror] at h
    cases h
  · rw [hok] at h
    cases h
    exact ⟨d, hflow, hd, hwrite⟩

/-- What a source says is found again after its flow was recorded: the file that was written is
another. -/
theorem Source.perform_load_again {d : Dictionary} (hmarker : Slashless marker.segments)
    (hflow : (Source.load p function).perform t = (.ok flow, t)) (hd : Registry.Holds t marker d)
    {content : ByteArray} (hwrite : t.write? (marker.join Registry.fileName) content = some u) :
    (Source.load p function).perform u = (.ok flow, u) := by
  obtain ⟨-, source, declared, hsource, hdeclared, hsame⟩ := Source.perform_load_iff.1 hflow
  have hslashless := slashless_join hmarker Registry.fileName
  obtain ⟨k, hk, rfl, -, hplace⟩ := Tree.write?_place hslashless hwrite
  have hkeeps := Tree.keeps_write? hslashless hwrite
  unfold Tree.text? Tree.find? at hsource
  cases hl : t.locate? p with
  | none => rw [hl] at hsource; cases hsource
  | some l =>
    rw [hl, Option.bind_some] at hsource
    -- a source that is the registry's file would hold a dictionary, and declare nothing
    have hne : l ≠ k := by
      rintro rfl
      rcases hplace with hnone | hregistry
      · rw [hnone] at hsource
        cases hsource
      · have hheld : t.text? (marker.join Registry.fileName) = some source := by
          unfold Tree.text? Tree.find?
          rw [hregistry]
          exact hsource
        rw [Declaration.ofSource_of_ofJson? (hd.ofJson?_eq hheld)] at hdeclared
        cases hdeclared
    have hlocate : (t.put k (.file content)).locate? p = some l :=
      Tree.locate?_eq_some_iff.2 (hkeeps.walk (Tree.locate?_eq_some_iff.1 hl))
    refine Source.perform_load_iff.2 ⟨rfl, source, declared, ?_, hdeclared, hsame⟩
    unfold Tree.text? Tree.find?
    rw [hlocate, Option.bind_some, Tree.at?_put t hk.1, if_neg hne]
    exact hsource

theorem Target.record_again (hstart : Slashless p.segments)
    (hmarker : Marker.find? t p = some x.marker)
    (h : (x.record force Source.load).perform t = (.ok flow, u)) (force' : Bool) :
    (x.record force' Source.load).perform u = (.ok flow, u) := by
  obtain ⟨d, hflow, hd, hwrite⟩ := record_ok Source.load_readOnly hmarker h
  have hslashless := Marker.slashless_of_find? hstart hmarker
  have hjoined := slashless_join hslashless Registry.fileName
  have hdir : u.isDirectory x.marker = true :=
    (Tree.isDirectory_write? hjoined hwrite _).trans (Marker.isDirectory_of_find? hmarker)
  have hagain : (x.record force' Source.load).perform u = _ :=
    perform_record hdir (Source.perform_load_again hslashless hflow hd hwrite)
      (Registry.holds_of_write? hslashless hwrite).2
  have hbound : (d.insert flow.name x.inside.text).get? flow.name = some x.inside.text := by
    rw [Dictionary.get?_insert, if_pos rfl]
  rw [Registry.insert_of_bound hbound, if_neg fun hne => hne.1 rfl] at hagain
  simp only [Dictionary.insert_insert, Tree.write?_again hjoined hwrite] at hagain
  exact hagain

/-! ## Two registrations -/

/-- Two registrations that name one function of one file, links followed, from directories with one
marker find the same target. If the first succeeds, and has not made the very file that the second
starts from, the second gives the same flow, with or without force, and changes nothing. -/
theorem registered_again {c c' : Registration} {l : Location}
    (hparse : Entrypoint.parse c.entrypoint = .ok ⟨path, function⟩)
    (hparse' : Entrypoint.parse c'.entrypoint = .ok ⟨path', function⟩)
    (hfile : t.locate? ((Path.ofText c.dir).join path) = some l)
    (hfile' : t.locate? ((Path.ofText c'.dir).join path') = some l)
    (hmarker : Marker.find? t (.ofText c.dir) = Marker.find? t (.ofText c'.dir)) :
    c.target t = c'.target t ∧
      ∀ flow u, c.load = Source.load → c'.load = Source.load →
        c.run.perform t = (.ok flow, u) →
        (u.pathExists (.ofText c'.dir) = true → t.pathExists (.ofText c'.dir) = true) →
        c'.run.perform u = (.ok flow, u) := by
  have hfound := Tree.locate?_eq_some_iff.1 hfile
  have hfound' := Tree.locate?_eq_some_iff.1 hfile'
  have hresolve := (Tree.resolve_of_walk hfound).trans (Tree.resolve_of_walk hfound').symm
  refine ⟨Target.find_congr hparse hparse' hresolve hmarker, ?_⟩
  intro flow u hload hload' hrun hmade
  have hregister : c.run.perform t = _ :=
    perform_register (.ofText c.dir) c.entrypoint c.force c.load t
  have hregister' : c'.run.perform u = _ :=
    perform_register (.ofText c'.dir) c'.entrypoint c'.force c'.load u
  rw [hrun, hload] at hregister
  rw [hload'] at hregister'
  cases hx : Target.find t (.ofText c.dir) c.entrypoint with
  | error e =>
    rw [hx] at hregister
    cases hregister
  | ok x =>
    rw [hx] at hregister
    have hrecord : (x.record c.force Source.load).perform t = (.ok flow, u) := hregister.symm
    have hx' : Marker.find? t (.ofText c.dir) = some x.marker := Target.marker_of_find hx
    have hstart := slashless_ofText c.dir
    obtain ⟨d, -, -, hwrite⟩ := Target.record_ok Source.load_readOnly hx' hrecord
    have hjoined := slashless_join (Marker.slashless_of_find? hstart hx') Registry.fileName
    have hlater : u.walk ((Path.ofText c'.dir).join path') = .found l :=
      (Tree.keeps_write? hjoined hwrite).walk hfound'
    have hagain : Target.find u (.ofText c'.dir) c'.entrypoint = .ok x := by
      rw [← hx]
      refine Target.find_congr hparse' hparse ?_ ?_
      · rw [Tree.resolve_of_walk hlater, Tree.resolve_of_walk hfound]
      · rw [Marker.find?_write?_of_made hjoined hwrite hmade, hmarker]
    rw [hagain] at hregister'
    exact hregister'.trans (Target.record_again hstart hx' hrecord c'.force)

/-- A project with a link to the file of its flow. -/
def linkedProject : Tree :=
  ⟨[(["p"], .directory .everyone), ([".prefect", "p"], .directory .ownerOnly),
    (["sub", "p"], .directory .everyone), (["again.py", "sub", "p"], .link "../a.py"),
    (["a.py", "p"], .file "@flow\ndef f():\n    pass\n".toUTF8)]⟩

theorem registered_again_linked :
    let c : Registration := ⟨"/p", "a.py:f", false, Source.load⟩
    let c' : Registration := ⟨"/p/sub/.", "../sub/again.py:f", false, Source.load⟩
    c.target linkedProject = c'.target linkedProject ∧
      ∃ flow u, c.run.perform linkedProject = (.ok flow, u) ∧
        flow = ⟨"f", "f", .ofText "/p/a.py", none⟩ ∧ c'.run.perform u = (.ok flow, u) := by
  intro c c'
  have hparse : Entrypoint.parse c.entrypoint = .ok ⟨"a.py", "f"⟩ := by decide +kernel
  have hparse' : Entrypoint.parse c'.entrypoint = .ok ⟨"../sub/again.py", "f"⟩ := by
    decide +kernel
  have hfile : linkedProject.locate? ((Path.ofText c.dir).join "a.py") = some ["a.py", "p"] := by
    decide +kernel
  have hfile' : linkedProject.locate? ((Path.ofText c'.dir).join "../sub/again.py") =
      some ["a.py", "p"] := by decide +kernel
  obtain ⟨htarget, hagain⟩ := registered_again hparse hparse' hfile hfile' (by decide +kernel)
  obtain ⟨u, hrun⟩ : ∃ u, c.run.perform linkedProject =
      (.ok ⟨"f", "f", .ofText "/p/a.py", none⟩, u) := Action.perform_of_fst (by decide +kernel)
  have hdir : linkedProject.pathExists (.ofText c'.dir) = true := by decide +kernel
  exact ⟨htarget, _, u, hrun, rfl, hagain _ u rfl rfl hrun fun _ => hdir⟩

/-- A project with a marker in its marker, and with a link to its registry, which is not there. -/
def linkedRegistry : Tree :=
  ⟨[(["p"], .directory .everyone), ([".prefect", "p"], .directory .ownerOnly),
    ([".prefect", ".prefect", "p"], .directory .ownerOnly),
    (["l", "p"], .link ".prefect/flows.json"),
    (["a.py", "p"], .file "@flow\ndef f():\n    pass\n".toUTF8),
    (["b.py", "p"], .file "@flow\ndef g():\n    pass\n".toUTF8)]⟩

/-- The flow is registered from the root, and not from the link: that leads to the registry once this
is there, and the marker nearest to the registry is another. -/
theorem registered_again_misled :
    let c : Registration := ⟨"/p", "a.py:f", false, Source.load⟩
    let c' : Registration := ⟨"/p/l", "/p/a.py:f", false, Source.load⟩
    Entrypoint.parse c.entrypoint = .ok ⟨"a.py", "f"⟩ ∧
      Entrypoint.parse c'.entrypoint = .ok ⟨"/p/a.py", "f"⟩ ∧
      linkedRegistry.locate? ((Path.ofText c.dir).join "a.py") = some ["a.py", "p"] ∧
      linkedRegistry.locate? ((Path.ofText c'.dir).join "/p/a.py") = some ["a.py", "p"] ∧
      Marker.find? linkedRegistry (.ofText c.dir) = some (.ofText "/p/.prefect") ∧
      Marker.find? linkedRegistry (.ofText c'.dir) = some (.ofText "/p/.prefect") ∧
      ∃ u, c.run.perform linkedRegistry = (.ok ⟨"f", "f", .ofText "/p/a.py", none⟩, u) ∧
        (c'.run.perform u).1 = .error (.outsideProject "/p/a.py" "/p/.prefect") := by
  intro c c'
  obtain ⟨u, hrun⟩ : ∃ u, c.run.perform linkedRegistry =
      (.ok ⟨"f", "f", .ofText "/p/a.py", none⟩, u) := Action.perform_of_fst (by decide +kernel)
  have hfails : (c'.run.perform u).1 = .error (.outsideProject "/p/a.py" "/p/.prefect") := by
    rw [← Action.snd_perform hrun]
    decide +kernel
  exact ⟨by decide +kernel, by decide +kernel, by decide +kernel, by decide +kernel,
    by decide +kernel, by decide +kernel, u, hrun, hfails⟩

end Scaffold
