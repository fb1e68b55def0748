import Scaffold.Proofs.Flow.Record

/-!
# Registrations one after another

Each registration reads the whole registry and writes it again. `registrations_update` says what
comes of any number of them in one project: after each, the registry holds what it held at first
with the entries of the registrations that succeeded inserted in order. `Registration.Updates` is
what a single one does.
-/

namespace Scaffold

open Scaffold.Text (Dictionary)

structure Registration where
  dir : String
  entrypoint : String
  force : Bool
  load : Loader

namespace Registration

def run (c : Registration) : Action Flow :=
  register (.ofText c.dir) c.entrypoint c.force c.load

def target (c : Registration) (t : Tree) : Except Error Target :=
  Target.find t (.ofText c.dir) c.entrypoint

/-- What a registration writes, if it succeeds: the flow's name and its entrypoint in the
project. -/
def entry? (c : Registration) (t : Tree) : Option (String × String) :=
  match (c.run.perform t).1, c.target t with
  | .ok flow, .ok x => some (flow.name, x.inside.text)
  | _, _ => none

/-- The tree after some registrations, whatever comes of each. -/
def runAll (t : Tree) : List Registration → Tree
  | [] => t
  | c :: cs => runAll (c.run.perform t).2 cs

def entries (t : Tree) : List Registration → List (String × String)
  | [] => []
  | c :: cs => (c.entry? t).toList ++ entries (c.run.perform t).2 cs

/-- The registration is made from a directory of the project with `marker`, and its loader keeps to
the contract of loaders: it finds the flow in a file and only reads. -/
structure Belongs (t : Tree) (marker : Path) (c : Registration) : Prop where
  directory : t.isDirectory (.ofText c.dir) = true
  nearest : Marker.find? t (.ofText c.dir) = some marker
  reads : c.load.ReadOnly

/-- What the registry holds after a registration, if it held `d`. -/
def updated (c : Registration) (t : Tree) (d : Dictionary) : Dictionary :=
  d.insertAll (c.entry? t).toList

/-- What a registration does to a registry that holds `d`. -/
structure Updates (t : Tree) (marker : Path) (d : Dictionary) (c : Registration) : Prop where
  holds : Registry.Holds (c.run.perform t).2 marker (c.updated t d)
  /-- success writes the flow's name and the entrypoint that was found, and the file anew -/
  succeeds : ∀ flow u, c.run.perform t = (.ok flow, u) → ∃ x, c.target t = .ok x ∧
    c.entry? t = some (flow.name, x.inside.text) ∧
    u.text? (marker.join Registry.fileName) = some (c.updated t d).toJson
  fails : ∀ e u, c.run.perform t = (.error e, u) → c.entry? t = none ∧ u = t
  others : ∀ flow u name, c.run.perform t = (.ok flow, u) → name ≠ flow.name →
    (c.updated t d).get? name = d.get? name
  /-- no name is lost, and only force changes what is under one -/
  kept : ∀ name old, d.get? name = some old →
    ∃ new, (c.updated t d).get? name = some new ∧ (new = old ∨ c.force = true)
  /-- without force another entrypoint is refused, and the same one is not -/
  conflicts : ∀ x flow old, c.force = false → c.target t = .ok x →
    (c.load x.file x.function).perform t = (.ok flow, t) → d.get? flow.name = some old →
    (c.run.perform t = (.error (.conflictingFlow flow.name old x.inside.text), t) ↔
      old ≠ x.inside.text) ∧
    (old = x.inside.text → ∃ u, c.run.perform t = (.ok flow, u))

end Registration

/-! ## One registration -/

theorem Marker.find?_write? {t u : Tree} {p start : Path} (hp : Slashless p.segments)
    {content : ByteArray} (h : t.write? p content = some u) (hstart : t.pathExists start = true) :
    find? u start = find? t start := by
  have hdir : u.isDirectory = t.isDirectory := funext (Tree.isDirectory_write? hp h)
  unfold find?
  rw [(Tree.keeps_write? hp h).resolve hstart, hdir]

namespace Registration

variable {t u : Tree} {marker : Path} {d : Dictionary} {c : Registration} {cs : List Registration}

theorem Belongs.slashless (hc : c.Belongs t marker) : Slashless marker.segments :=
  Marker.slashless_of_find? (slashless_ofText c.dir) hc.nearest

theorem Belongs.marker_eq (hc : c.Belongs t marker) {x : Target} (hx : c.target t = .ok x) :
    x.marker = marker :=
  Option.some.inj ((Target.marker_of_find hx).symm.trans hc.nearest)

theorem Belongs.of_write? (hc : c.Belongs t marker) {p : Path} (hp : Slashless p.segments)
    {content : ByteArray} (h : t.write? p content = some u) : c.Belongs u marker where
  directory := (Tree.isDirectory_write? hp h _).trans hc.directory
  nearest :=
    (Marker.find?_write? hp h (Tree.pathExists_of_isDirectory hc.directory)).trans hc.nearest
  reads := hc.reads

theorem perform_run (hd : Registry.Holds t marker d) (hc : c.Belongs t marker) {x : Target}
    (hx : c.target t = .ok x) {flow : Flow}
    (hflow : (c.load x.file x.function).perform t = (.ok flow, t)) :
    c.run.perform t =
      match (⟨marker.join Registry.fileName, d⟩ : Registry).insert flow.name x.inside.text
          c.force with
      | .error e => (.error e, t)
      | .ok r =>
        match t.write? (marker.join Registry.fileName) r.flows.toJson.toUTF8 with
        | some u => (.ok flow, u)
        | none => (.error (.other ("Failed to write JSON file: " ++
            (marker.join Registry.fileName).text)), t) := by
  obtain rfl := hc.marker_eq hx
  have hregister := perform_register (.ofText c.dir) c.entrypoint c.force c.load t
  have hfound : Target.find t (.ofText c.dir) c.entrypoint = .ok x := hx
  rw [hfound] at hregister
  exact hregister.trans (perform_record (Marker.isDirectory_of_find? hc.nearest) hflow hd)

/-- Either nothing changes, or a flow that was loaded is written under its name. -/
theorem run_cases (hd : Registry.Holds t marker d)
    (hnearest : Marker.find? t (.ofText c.dir) = some marker) (hreads : c.load.ReadOnly) :
    (∃ e, c.run.perform t = (.error e, t)) ∨
    ∃ x flow u, c.target t = .ok x ∧ c.run.perform t = (.ok flow, u) ∧
      (c.load x.file x.function).perform t = (.ok flow, t) ∧
      (∀ old, d.get? flow.name = some old → old = x.inside.text ∨ c.force = true) ∧
      t.write? (marker.join Registry.fileName)
        (d.insert flow.name x.inside.text).toJson.toUTF8 = some u := by
  have hregister : c.run.perform t = _ :=
    perform_register (.ofText c.dir) c.entrypoint c.force c.load t
  cases hx : c.target t with
  | error e =>
    have hfound : Target.find t (.ofText c.dir) c.entrypoint = .error e := hx
    rw [hfound] at hregister
    exact .inl ⟨e, hregister⟩
  | ok x =>
    have hfound : Target.find t (.ofText c.dir) c.entrypoint = .ok x := hx
    rw [hfound] at hregister
    obtain rfl : x.marker = marker :=
      Option.some.inj ((Target.marker_of_find hfound).symm.trans hnearest)
    rcases Target.record_cases c.force hreads (Marker.isDirectory_of_find? hnearest) with
      ⟨e, herror⟩ | ⟨flow, d', u, hflow, hd', hbound, hwrite, hok⟩
    · exact .inl ⟨e, hregister.trans herror⟩
    · obtain rfl := hd.unique hd'
      exact .inr ⟨x, flow, u, rfl, hregister.trans hok, hflow, hbound, hwrite⟩

theorem entry?_of_error {e : Error} (h : c.run.perform t = (.error e, u)) : c.entry? t = none := by
  unfold entry?
  rw [h]

theorem entry?_of_ok {flow : Flow} {x : Target} (hx : c.target t = .ok x)
    (h : c.run.perform t = (.ok flow, u)) : c.entry? t = some (flow.name, x.inside.text) := by
  unfold entry?
  rw [h, hx]

/-- Without force a name that is taken is refused to another entrypoint and written anew for its
own. -/
theorem conflicts_of_belongs (hd : Registry.Holds t marker d) (hc : c.Belongs t marker)
    {x : Target} {flow : Flow} {old : String} (hforce : c.force = false) (hx : c.target t = .ok x)
    (hflow : (c.load x.file x.function).perform t = (.ok flow, t))
    (hold : d.get? flow.name = some old) :
    (c.run.perform t = (.error (.conflictingFlow flow.name old x.inside.text), t) ↔
      old ≠ x.inside.text) ∧
    (old = x.inside.text → ∃ u, c.run.perform t = (.ok flow, u)) := by
  have hrun := perform_run hd hc hx hflow
  rw [Registry.insert_of_bound hold, hforce] at hrun
  by_cases hsame : old = x.inside.text
  · obtain ⟨text, htext⟩ := hd.text? hold
    rw [if_neg fun h => h.1 hsame] at hrun
    dsimp only at hrun
    obtain ⟨u, hu⟩ := Tree.write?_of_isFile (Tree.isFile_of_text? htext)
      (d.insert flow.name x.inside.text).toJson.toUTF8
    rw [hu] at hrun
    refine ⟨⟨fun h => ?_, fun h => absurd hsame h⟩, fun _ => ⟨u, hrun⟩⟩
    rw [hrun] at h
    cases h
  · rw [if_pos ⟨hsame, rfl⟩] at hrun
    exact ⟨⟨fun _ => hsame, fun _ => hrun⟩, fun h => absurd h hsame⟩

theorem updates_of_belongs (hd : Registry.Holds t marker d) (hc : c.Belongs t marker) :
    c.Updates t marker d := by
  rcases run_cases hd hc.nearest hc.reads with
    ⟨e, hrun⟩ | ⟨x, flow, u, hx, hrun, -, hbound, hwrite⟩
  · have hsame : c.updated t d = d := by
      unfold updated
      rw [entry?_of_error hrun]
      rfl
    refine ⟨?_, fun flow u h => ?_, fun e' u h => ?_, fun flow u name h => ?_, fun name old h => ?_,
      fun _ _ _ => conflicts_of_belongs hd hc⟩
    · rw [hrun, hsame]
      exact hd
    · rw [hrun] at h
      cases h
    · rw [hrun] at h
      exact ⟨entry?_of_error hrun, (Prod.mk.inj h).2.symm⟩
    · rw [hrun] at h
      cases h
    · rw [hsame]
      exact ⟨old, h, .inl rfl⟩
  · have hupdated : c.updated t d = d.insert flow.name x.inside.text := by
      unfold updated
      rw [entry?_of_ok hx hrun]
      rfl
    obtain ⟨htext, hholds⟩ := Registry.holds_of_write? hc.slashless hwrite
    refine ⟨?_, fun flow' v h => ?_, fun e v h => ?_, fun flow' v name h hne => ?_,
      fun name old h => ?_, fun _ _ _ => conflicts_of_belongs hd hc⟩
    · rw [hrun, hupdated]
      exact hholds
    · rw [hrun] at h
      cases h
      exact ⟨x, hx, entry?_of_ok hx hrun, by rw [hupdated]; exact htext⟩
    · rw [hrun] at h
      cases h
    · rw [hrun] at h
      cases h
      rw [hupdated, Dictionary.get?_insert, if_neg (Ne.symm hne)]
    · rw [hupdated, Dictionary.get?_insert]
      by_cases hname : flow.name = name
      · rw [if_pos hname]
        refine ⟨_, rfl, (hbound old (hname ▸ h)).imp_left Eq.symm⟩
      · rw [if_neg hname]
        exact ⟨old, h, .inl rfl⟩

theorem Belongs.run (hd : Registry.Holds t marker d) (hc : c.Belongs t marker) {c' : Registration}
    (hc' : c'.Belongs t marker) : c'.Belongs (c.run.perform t).2 marker := by
  rcases run_cases hd hc.nearest hc.reads with ⟨e, hrun⟩ | ⟨x, flow, u, -, hrun, -, -, hwrite⟩
  · rw [hrun]
    exact hc'
  · rw [hrun]
    exact hc'.of_write? (slashless_join hc.slashless _) hwrite

/-! ## Any number of registrations -/

theorem holds_runAll (hd : Registry.Holds t marker d) {done rest : List Registration}
    (hcs : ∀ c ∈ done ++ rest, c.Belongs t marker) :
    Registry.Holds (runAll t done) marker (d.insertAll (entries t done)) ∧
      ∀ c ∈ rest, c.Belongs (runAll t done) marker := by
  induction done generalizing t d with
  | nil => exact ⟨hd, hcs⟩
  | cons c done ih =>
    have hc := hcs c List.mem_cons_self
    have hrest : ∀ c' ∈ done ++ rest, c'.Belongs (c.run.perform t).2 marker := fun c' hc' =>
      hc.run hd (hcs c' (List.mem_cons_of_mem _ hc'))
    have hholds : Registry.Holds (c.run.perform t).2 marker (d.insertAll (c.entry? t).toList) :=
      (updates_of_belongs hd hc).holds
    rw [entries, runAll, Dictionary.insertAll_append]
    exact ih hholds hrest

end Registration

open Registration

/-- Registrations in one project, whatever comes of each, keep its registry: between any two it
holds what it held at first and the entries of those that succeeded, inserted in order, and the next
one does to it what `Updates` says. -/
theorem registrations_update {t : Tree} {marker : Path} {d : Dictionary} {cs : List Registration}
    (hd : Registry.Holds t marker d) (hcs : ∀ c ∈ cs, c.Belongs t marker)
    (done rest : List Registration) (hsplit : cs = done ++ rest) :
    Registry.Holds (runAll t done) marker (d.insertAll (entries t done)) ∧
      ∀ c ∈ rest.head?, c.Updates (runAll t done) marker (d.insertAll (entries t done)) := by
  subst hsplit
  obtain ⟨hholds, hrest⟩ := holds_runAll hd hcs
  exact ⟨hholds, fun c hc => updates_of_belongs hholds (hrest c (List.mem_of_mem_head? hc))⟩

/-- A project with two files that declare the same flow. -/
def twinProject : Tree :=
  ⟨[(["p"], .directory .everyone), ([".prefect", "p"], .directory .ownerOnly),
    (["sub", "p"], .directory .everyone),
    (["a.py", "p"], .file "@flow\ndef f():\n    pass\n".toUTF8),
    (["b.py", "sub", "p"], .file "@flow\ndef f():\n    pass\n".toUTF8)]⟩

/-- The flow is registered, refused under another entrypoint, and replaced by force. -/
def twinRegistrations : List Registration :=
  [⟨"/p", "a.py:f", false, Source.load⟩, ⟨"/p/sub", "b.py:f", false, Source.load⟩,
    ⟨"/p/sub", "./b.py:f", true, Source.load⟩]

theorem registrations_update_twins :
    Registry.Holds twinProject (.ofText "/p/.prefect") .empty ∧
      (∀ c ∈ twinRegistrations, c.Belongs twinProject (.ofText "/p/.prefect")) ∧
      entries twinProject twinRegistrations = [("f", "a.py:f"), ("f", "sub/b.py:f")] ∧
      Registry.Holds (runAll twinProject twinRegistrations) (.ofText "/p/.prefect")
        (.ofList [("f", "sub/b.py:f")]) := by
  have hempty : Registry.Holds twinProject (.ofText "/p/.prefect") .empty :=
    Registry.holds_empty (by decide +kernel)
  have hbelongs : ∀ c ∈ twinRegistrations, c.Belongs twinProject (.ofText "/p/.prefect") := by
    intro c hc
    simp only [twinRegistrations, List.mem_cons, List.not_mem_nil, or_false] at hc
    rcases hc with rfl | rfl | rfl
    all_goals exact ⟨by decide +kernel, by decide +kernel, Source.load_readOnly⟩
  have hentries : entries twinProject twinRegistrations =
      [("f", "a.py:f"), ("f", "sub/b.py:f")] := by decide +kernel
  have hlast := (registrations_update hempty hbelongs twinRegistrations [] (by simp)).1
  rw [hentries] at hlast
  exact ⟨hempty, hbelongs, hentries, hlast⟩

end Scaffold
