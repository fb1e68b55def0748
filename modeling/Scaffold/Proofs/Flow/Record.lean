import Scaffold.Proofs.Flow.Registration
import Scaffold.Proofs.Json.Dictionary
import Scaffold.Proofs.Tree.Inside
import Scaffold.Source.Declaration

/-!
# Registrations step by step

A registration first looks up what it is about (`Target.find`), which changes nothing, and then
records the flow that is loaded (`Target.record`). `Registry.Holds` says what the registry beside a
marker holds, and `perform_record` what becomes of it. A registration that fails, at whatever
step, leaves the tree as it was (`register_error_unchanged`).
-/

namespace Scaffold

open Scaffold.Text (Dictionary)

/-- The loader changes nothing, whether it finds a flow, fails or breaks down. -/
def Loader.ReadOnly (load : Loader) : Prop :=
  ∀ path function, (load path function).Reads

theorem Source.load_readOnly : Loader.ReadOnly Source.load := fun path _ =>
  (Action.reads_readText path).bind fun _ =>
    (Action.reads_ofExcept _).bind fun _ => Action.reads_pure _

/-! ## The file beside a marker -/

namespace Registry

variable {t t' : Tree} {marker : Path} {d : Dictionary} {l : Location}

theorem isPlainName_fileName : IsPlainName fileName where
  not_idle := by decide
  not_up := by decide
  fits := by decide
  slashless := by decide
  nulFree := by decide

theorem segmentsOf_fileName : segmentsOf fileName = [fileName] := by decide

theorem reads_load (marker : Path) : (load marker).Reads := by
  refine Action.Reads.bind (Action.reads_get.bind fun t => ?_) fun _ => Action.reads_pure _
  split
  · exact (Action.reads_get.bind fun _ => Action.reads_require _ _).bind
      fun _ => Action.reads_require _ _
  · exact Action.reads_pure _

/-- The registry beside `marker` is read as `d`; without a file it holds nothing. -/
def Holds (t : Tree) (marker : Path) (d : Dictionary) : Prop :=
  (load marker).perform t = (.ok ⟨marker.join fileName, d⟩, t)

theorem Holds.unique {d' : Dictionary} (h : Holds t marker d) (h' : Holds t marker d') :
    d = d' := by
  unfold Holds at h h'
  rw [h] at h'
  exact congrArg Registry.flows (Except.ok.inj (Prod.mk.inj h').1)

theorem holds_of_load {r : Registry} (h : (load marker).perform t = (.ok r, t')) :
    Holds t marker r.flows ∧ r = ⟨marker.join fileName, r.flows⟩ ∧ t' = t := by
  obtain rfl := (reads_load marker).perform_eq h
  have hpath := load_ok h
  obtain ⟨path, flows⟩ := r
  cases hpath
  exact ⟨h, rfl, rfl⟩

theorem holds_empty (h : t.pathExists (marker.join fileName) = false) : Holds t marker .empty := by
  have hread : (Json.readIfExists (marker.join fileName)).perform t = (.ok .empty, t) := by
    unfold Json.readIfExists
    rw [Action.perform_get_bind, h]
    rfl
  unfold Holds load
  rw [Action.perform_bind_of_ok hread]
  rfl

theorem holds_of_ofJson? {text : String} (h : t.text? (marker.join fileName) = some text)
    (hparse : Dictionary.ofJson? text = some d) : Holds t marker d := by
  have hexists := Tree.pathExists_of_text? h
  have hread : (Json.readIfExists (marker.join fileName)).perform t = (.ok d, t) := by
    unfold Json.readIfExists Json.read
    rw [Action.perform_get_bind, hexists, if_pos rfl, Action.perform_get_bind,
      Action.perform_bind_of_ok (Action.perform_require_ok_iff.2 ⟨h, rfl⟩)]
    exact Action.perform_require_ok_iff.2 ⟨hparse, rfl⟩
  unfold Holds load
  rw [Action.perform_bind_of_ok hread]
  rfl

theorem holds_of_text? (h : t.text? (marker.join fileName) = some d.toJson) : Holds t marker d :=
  holds_of_ofJson? h (Dictionary.ofJson?_toJson d)

theorem Holds.perform_readIfExists (h : Holds t marker d) :
    (Json.readIfExists (marker.join fileName)).perform t = (.ok d, t) := by
  unfold Holds load at h
  obtain ⟨d', u, hread, hsame⟩ := Action.perform_bind_ok h
  cases hsame
  exact hread

/-- What is held while there is something under the file's name, a file says. -/
theorem Holds.says (h : Holds t marker d) (hexists : t.pathExists (marker.join fileName) = true) :
    ∃ text, t.text? (marker.join fileName) = some text ∧ Dictionary.ofJson? text = some d := by
  have hread := h.perform_readIfExists
  unfold Json.readIfExists Json.read at hread
  rw [Action.perform_get_bind, hexists, if_pos rfl, Action.perform_get_bind] at hread
  obtain ⟨text, u, htext, hparse⟩ := Action.perform_bind_ok hread
  exact ⟨text, (Action.perform_require_ok_iff.1 htext).1, (Action.perform_require_ok_iff.1 hparse).1⟩

theorem Holds.text? (h : Holds t marker d) {name value : String} (hget : d.get? name = some value) :
    ∃ text, t.text? (marker.join fileName) = some text := by
  cases hexists : t.pathExists (marker.join fileName) with
  | true =>
    obtain ⟨text, htext, -⟩ := h.says hexists
    exact ⟨text, htext⟩
  | false =>
    obtain rfl := h.unique (holds_empty hexists)
    cases hget

theorem Holds.ofJson?_eq (h : Holds t marker d) {text : String}
    (htext : t.text? (marker.join fileName) = some text) : Dictionary.ofJson? text = some d := by
  obtain ⟨text', htext', hparse⟩ := h.says (Tree.pathExists_of_text? htext)
  cases htext.symm.trans htext'
  exact hparse

/-- In a directory the registry's file is written, or nothing changes. -/
theorem perform_save_reached (h : t.Reaches marker.withoutSlash l) (d : Dictionary) :
    (save ⟨marker.join fileName, d⟩).perform t =
      match t.write? (marker.join fileName) d.toJson.toUTF8 with
      | some t' => (.ok (), t')
      | none =>
        (.error (.other ("Failed to write JSON file: " ++ (marker.join fileName).text)), t) := by
  unfold save Json.write
  rw [Action.perform_tryCatch, Action.perform_writeText_reached isPlainName_fileName h]
  cases t.write? (marker.join fileName) d.toJson.toUTF8 <;> rfl

theorem perform_save (hdir : t.isDirectory marker = true) (d : Dictionary) :
    (save ⟨marker.join fileName, d⟩).perform t =
      match t.write? (marker.join fileName) d.toJson.toUTF8 with
      | some t' => (.ok (), t')
      | none =>
        (.error (.other ("Failed to write JSON file: " ++ (marker.join fileName).text)), t) := by
  obtain ⟨l, hl, hat⟩ := Tree.isDirectory_iff.1 hdir
  exact perform_save_reached (Tree.reaches_of_walk hl hat) d

theorem holds_of_write? (hmarker : Slashless marker.segments)
    (h : t.write? (marker.join fileName) d.toJson.toUTF8 = some t') :
    t'.text? (marker.join fileName) = some d.toJson ∧ Holds t' marker d := by
  have htext : t'.text? (marker.join fileName) = some d.toJson := by
    unfold Tree.text?
    rw [Tree.find?_write? (slashless_join hmarker fileName) h]
    exact fromUTF8?_toUTF8 _
  exact ⟨htext, holds_of_text? htext⟩

variable {r r' : Registry} {name old entrypoint : String} {force : Bool}

theorem insert_of_bound (hold : r.flows.get? name = some old) (entrypoint : String) (force : Bool) :
    r.insert name entrypoint force =
      if old ≠ entrypoint ∧ force = false then .error (.conflictingFlow name old entrypoint)
      else .ok { r with flows := r.flows.insert name entrypoint } := by
  unfold insert
  rw [hold]
  cases force <;> simp

theorem same_or_forced (h : r.insert name entrypoint force = .ok r')
    (hold : r.flows.get? name = some old) : old = entrypoint ∨ force = true := by
  rw [insert_of_bound hold] at h
  split at h
  · cases h
  · rename_i hno
    cases force with
    | true => exact .inr rfl
    | false =>
      refine .inl ?_
      by_contra hne
      exact hno ⟨hne, rfl⟩

end Registry

/-- After a registration that succeeds, the registry holds the entrypoint under the flow's name. -/
theorem register_holds {t t' : Tree} {dir : Path} {entrypoint : String} {force : Bool}
    {load : Loader} {flow : Flow} (hdir : Slashless dir.segments)
    (h : (register dir entrypoint force load).perform t = (.ok flow, t')) :
    ∃ e marker root inside t₁ d, Entrypoint.parse entrypoint = .ok e ∧
      Marker.find? t dir = some marker ∧ marker.parent? = some root ∧
      Entrypoint.inside? root (t.resolve (dir.join e.path)) e.function = some inside ∧
      (load (t.resolve (dir.join e.path)) e.function).perform t = (.ok flow, t₁) ∧
      Registry.Holds t' marker d ∧ d.get? flow.name = some inside.text := by
  obtain ⟨e, marker, root, inside, he, hmarker, hroot, hinside, t₁, t₂, r, r', hload, hr, hr',
    hsave⟩ := register_ok h
  obtain ⟨hpath, hflows⟩ := Registry.insert_ok hr'
  have hwritten : r'.path = marker.join Registry.fileName := hpath.trans (Registry.load_ok hr)
  have hjoined : Slashless r'.path.segments := by
    rw [hwritten]
    exact slashless_join (Marker.slashless_of_find? hdir hmarker) _
  have htext := Action.text?_of_write hjoined hsave
  rw [hwritten] at htext
  exact ⟨e, marker, root, inside, t₁, r'.flows, he, hmarker, hroot, hinside, hload,
    Registry.holds_of_text? htext, by rw [hflows]; simp⟩

/-! ## The two halves of a registration -/

structure Target where
  marker : Path
  file : Path
  function : String
  /-- the entrypoint by which the project knows the function -/
  inside : Entrypoint

namespace Target

def find (t : Tree) (dir : Path) (entrypoint : String) : Except Error Target := do
  let e ← Entrypoint.parse entrypoint
  let file := t.resolve (dir.join e.path)
  match Marker.find? t dir with
  | none => throw .noMarker
  | some marker =>
    match marker.parent? with
    | none => throw .noMarker
    | some root =>
      match Entrypoint.inside? root file e.function with
      | none => throw (.outsideProject file.text root.text)
      | some inside => return ⟨marker, file, e.function, inside⟩

def record (x : Target) (force : Bool) (load : Loader) : Action Flow := do
  let flow ← load x.file x.function
  let registry ← Registry.load x.marker
  let registry ← Action.ofExcept (registry.insert flow.name x.inside.text force)
  registry.save
  return flow

end Target

variable {t t' : Tree} {dir : Path} {entrypoint : String} {force : Bool} {load : Loader}
  {x : Target} {flow : Flow} {d : Dictionary}

theorem Target.find_of_parse {e : Entrypoint} (h : Entrypoint.parse entrypoint = .ok e) :
    Target.find t dir entrypoint =
      match Marker.find? t dir with
      | none => .error .noMarker
      | some marker =>
        match marker.parent? with
        | none => .error .noMarker
        | some root =>
          match Entrypoint.inside? root (t.resolve (dir.join e.path)) e.function with
          | none => .error (.outsideProject (t.resolve (dir.join e.path)).text root.text)
          | some inside => .ok ⟨marker, t.resolve (dir.join e.path), e.function, inside⟩ := by
  unfold Target.find
  rw [h]
  rfl

/-- A registration finds its target and records it. -/
theorem perform_register (dir : Path) (entrypoint : String) (force : Bool) (load : Loader)
    (t : Tree) : (register dir entrypoint force load).perform t =
      match Target.find t dir entrypoint with
      | .ok x => (x.record force load).perform t
      | .error e => (.error e, t) := by
  unfold register
  cases hparse : Entrypoint.parse entrypoint with
  | error e =>
    unfold Target.find
    rw [hparse]
    rfl
  | ok e =>
    rw [Action.perform_bind_of_ok (Action.perform_ofExcept_ok e), Action.perform_get_bind,
      Target.find_of_parse hparse]
    cases hmarker : Marker.find? t dir with
    | none => rfl
    | some marker =>
      cases hroot : marker.parent? with
      | none => simp only [hroot]; rfl
      | some root =>
        cases hinside : Entrypoint.inside? root (t.resolve (dir.join e.path)) e.function with
        | none => simp only [hroot, hinside]; rfl
        | some inside => simp only [hroot, hinside]; rfl

theorem Target.find_ok (h : Target.find t dir entrypoint = .ok x) :
    ∃ path, Entrypoint.parse entrypoint = .ok ⟨path, x.function⟩ ∧
      x.file = t.resolve (dir.join path) ∧ Marker.find? t dir = some x.marker := by
  cases hparse : Entrypoint.parse entrypoint with
  | error e =>
    unfold Target.find at h
    rw [hparse] at h
    cases h
  | ok e =>
    rw [Target.find_of_parse hparse] at h
    split at h
    · cases h
    · rename_i marker hmarker
      split at h
      · cases h
      split at h
      · cases h
      · cases h
        exact ⟨e.path, rfl, rfl, hmarker⟩

theorem Target.marker_of_find (h : Target.find t dir entrypoint = .ok x) :
    Marker.find? t dir = some x.marker := by
  obtain ⟨_, -, -, hmarker⟩ := Target.find_ok h
  exact hmarker

theorem perform_record (hdir : t.isDirectory x.marker = true)
    (hflow : (load x.file x.function).perform t = (.ok flow, t))
    (hd : Registry.Holds t x.marker d) :
    (x.record force load).perform t =
      match (⟨x.marker.join Registry.fileName, d⟩ : Registry).insert flow.name x.inside.text
          force with
      | .error e => (.error e, t)
      | .ok r =>
        match t.write? (x.marker.join Registry.fileName) r.flows.toJson.toUTF8 with
        | some t' => (.ok flow, t')
        | none => (.error (.other ("Failed to write JSON file: " ++
            (x.marker.join Registry.fileName).text)), t) := by
  unfold Target.record
  rw [Action.perform_bind_of_ok hflow, Action.perform_bind_of_ok hd]
  cases hinsert : (⟨x.marker.join Registry.fileName, d⟩ : Registry).insert flow.name x.inside.text
      force with
  | error e => rw [Action.perform_bind_of_error (Action.perform_ofExcept_error e)]
  | ok r =>
    obtain ⟨path, flows⟩ := r
    obtain rfl : path = x.marker.join Registry.fileName := (Registry.insert_ok hinsert).1
    have hsave := Registry.perform_save hdir flows
    rw [Action.perform_bind_of_ok (Action.perform_ofExcept_ok _)]
    cases hwrite : t.write? (x.marker.join Registry.fileName) flows.toJson.toUTF8 with
    | some u =>
      rw [hwrite] at hsave
      rw [Action.perform_bind_of_ok hsave]
      simp only [hwrite, Action.perform_pure]
    | none =>
      rw [hwrite] at hsave
      rw [Action.perform_bind_of_error hsave]
      simp only [hwrite]

variable (force) in
/-- Either nothing changes, or a flow that was loaded is written under its name. -/
theorem Target.record_cases (hload : load.ReadOnly) (hdir : t.isDirectory x.marker = true) :
    (∃ e, (x.record force load).perform t = (.error e, t)) ∨
    ∃ flow d u, (load x.file x.function).perform t = (.ok flow, t) ∧
      Registry.Holds t x.marker d ∧
      (∀ old, d.get? flow.name = some old → old = x.inside.text ∨ force = true) ∧
      t.write? (x.marker.join Registry.fileName)
        (d.insert flow.name x.inside.text).toJson.toUTF8 = some u ∧
      (x.record force load).perform t = (.ok flow, u) := by
  cases hflow : (load x.file x.function).perform t with
  | mk loaded u =>
    obtain rfl := (hload x.file x.function).perform_eq hflow
    cases loaded with
    | error e =>
      refine .inl ⟨e, ?_⟩
      rw [record, Action.perform_bind_of_error hflow]
    | ok flow =>
      cases hregistry : (Registry.load x.marker).perform u with
      | mk registry v =>
        obtain rfl := (Registry.reads_load x.marker).perform_eq hregistry
        cases registry with
        | error e =>
          refine .inl ⟨e, ?_⟩
          rw [record, Action.perform_bind_of_ok hflow, Action.perform_bind_of_error hregistry]
        | ok r =>
          obtain ⟨hd, -, -⟩ := Registry.holds_of_load hregistry
          have hrecord : (x.record force load).perform v = _ :=
            perform_record hdir hflow hd
          cases hinsert : (⟨x.marker.join Registry.fileName, r.flows⟩ : Registry).insert flow.name
              x.inside.text force with
          | error e =>
            rw [hinsert] at hrecord
            exact .inl ⟨e, hrecord⟩
          | ok r' =>
            obtain ⟨-, hflows⟩ := Registry.insert_ok hinsert
            rw [hinsert] at hrecord
            simp only [hflows] at hrecord
            cases hwrite : v.write? (x.marker.join Registry.fileName)
                (r.flows.insert flow.name x.inside.text).toJson.toUTF8 with
            | none =>
              rw [hwrite] at hrecord
              exact .inl ⟨_, hrecord⟩
            | some w =>
              rw [hwrite] at hrecord
              exact .inr ⟨flow, r.flows, w, rfl, hd,
                fun old hold => Registry.same_or_forced hinsert hold, hwrite, hrecord⟩

/-! ## Registrations that fail -/

theorem record_error_unchanged (hload : load.ReadOnly) (hdir : t.isDirectory x.marker = true)
    {e : Error}
    (h : (x.record force load).perform t = (.error e, t')) : t' = t := by
  rcases Target.record_cases force hload hdir with
    ⟨e', herror⟩ | ⟨flow, d, u, -, -, -, -, hok⟩
  · rw [herror] at h
    exact (Prod.mk.inj h).2.symm
  · rw [hok] at h
    cases h

/-- A registration that fails, wherever it does, leaves the tree as it was. -/
theorem register_error_unchanged (hload : load.ReadOnly) {e : Error}
    (h : (register dir entrypoint force load).perform t = (.error e, t')) : t' = t := by
  rw [perform_register] at h
  split at h
  · rename_i x hx
    have hmarker := Target.marker_of_find hx
    exact record_error_unchanged hload (Marker.isDirectory_of_find? hmarker) h
  · exact (Prod.mk.inj h).2.symm

/-! ## Registrations without a project -/

theorem Registry.avoids_load (marker : Path) : (Registry.load marker).Avoids .noMarker := by
  refine Action.Avoids.bind (Action.avoids_get.bind fun t => ?_) fun _ => Action.avoids_pure _
  split
  · unfold Json.read
    refine Action.avoids_get.bind fun _ => Action.Avoids.bind ?_ fun _ => ?_
    all_goals exact Action.avoids_require (by simp) _
  · exact Action.avoids_pure _

theorem Registry.avoids_save (r : Registry) : r.save.Avoids .noMarker := by
  intro t u h
  unfold save Json.write at h
  rw [Action.perform_tryCatch] at h
  split at h <;> cases h

theorem Registry.insert_ne_noMarker (r : Registry) (name entrypoint : String) (force : Bool) :
    r.insert name entrypoint force ≠ .error .noMarker := by
  unfold insert
  split
  · split <;> exact nofun
  · exact nofun

theorem Target.find_ne_noMarker {root : Path} (h : Marker.findRoot? t dir = some root) :
    Target.find t dir entrypoint ≠ .error .noMarker := by
  intro hfind
  obtain ⟨marker, hmarker, hparent⟩ := Option.bind_eq_some_iff.1 h
  unfold Target.find Entrypoint.parse at hfind
  rw [hmarker] at hfind
  simp only [hparent] at hfind
  cases hcut : Text.cutLast? ':' entrypoint.toList with
  | none => rw [hcut] at hfind; cases hfind
  | some parts =>
    obtain ⟨path, function⟩ := parts
    rw [hcut] at hfind
    simp only [bind, Except.bind] at hfind
    split at hfind <;> cases hfind

/-- From a directory of a project no registration lacks a marker, but for what its loader says. -/
theorem noMarker_of_loader {root : Path} (hroot : Marker.findRoot? t dir = some root)
    (h : (register dir entrypoint force load).perform t = (.error .noMarker, t')) :
    ∃ path function, (load path function).perform t = (.error .noMarker, t') := by
  rw [perform_register] at h
  split at h
  · rename_i x hx
    have hrest : ∀ flow : Flow, (do
        let registry ← Registry.load x.marker
        let registry ← Action.ofExcept (registry.insert flow.name x.inside.text force)
        registry.save
        return flow : Action Flow).Avoids .noMarker := fun flow =>
      (Registry.avoids_load x.marker).bind fun r =>
        (Action.avoids_ofExcept (r.insert_ne_noMarker _ _ _)).bind fun r' =>
          r'.avoids_save.bind fun _ => Action.avoids_pure _
    refine ⟨x.file, x.function, ?_⟩
    unfold Target.record at h
    cases hflow : (load x.file x.function).perform t with
    | mk loaded v =>
      cases loaded with
      | ok flow =>
        rw [Action.perform_bind_of_ok hflow] at h
        exact absurd h (hrest flow v t')
      | error e =>
        rw [Action.perform_bind_of_error hflow] at h
        exact h
  · rename_i e he
    cases h
    exact absurd he (Target.find_ne_noMarker hroot)

/-! ## A registry that is not understood -/

def garbledProject : Tree :=
  ⟨[(["p"], .directory .everyone), ([".prefect", "p"], .directory .ownerOnly),
    (["flows.json", ".prefect", "p"], .file "\x7bnot json".toUTF8),
    (["flows.py", "p"], .file "@flow\ndef f():\n    pass\n".toUTF8)]⟩

/-- What is not understood is not overwritten, not even by force. -/
theorem register_error_unchanged_garbled :
    Source.load.ReadOnly ∧
      (register (.ofText "/p") "flows.py:f" true Source.load).perform garbledProject =
        (.error (.other "Failed to parse JSON file: /p/.prefect/flows.json"), garbledProject) := by
  obtain ⟨t', hrun⟩ : ∃ t', (register (.ofText "/p") "flows.py:f" true Source.load).perform
      garbledProject =
        (.error (.other "Failed to parse JSON file: /p/.prefect/flows.json"), t') :=
    Action.perform_of_fst (by decide +kernel)
  refine ⟨Source.load_readOnly, ?_⟩
  rw [hrun, register_error_unchanged Source.load_readOnly hrun]

end Scaffold
