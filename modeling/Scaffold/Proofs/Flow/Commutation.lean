import Scaffold.Proofs.Flow.Agreement
import Scaffold.Proofs.Tree.Filling

/-!
# Registrations in any order

Registrations in one project that have different names do not get into each other's way: each finds
after any of the others what it finds alone (`Independent.perform_after`), so in whatever order they
come, all succeed and the registry ends up the same (`registrations_commute`). What could get
between them is the file that they write. None may have it for its source, and none may start from
where it is going to be: a path that leads nowhere is taken as it is written, and a link to the file
leads somewhere once the file is there (`registrations_disturbed`).
-/

namespace Scaffold

open Scaffold.Text (Dictionary)

variable {t u v : Tree} {marker : Path} {d : Dictionary} {c : Registration}
  {cs : List Registration} {es : List (String × String)} {x : Target} {flow : Flow}
  {content : ByteArray}

/-! ## Loaders -/

/-- The loader changes nothing, and what comes of it depends on what its path leads to alone. -/
structure Loader.Local (load : Loader) : Prop where
  reads : load.ReadOnly
  depends : ∀ {t u : Tree} {path : Path} (function : String), u.find? path = t.find? path →
    ((load path function).perform u).1 = ((load path function).perform t).1

theorem Source.load_local : Loader.Local Source.load where
  reads := Source.load_readOnly
  depends {t u path} function hfind := by
    have htext : u.text? path = t.text? path := by
      unfold Tree.text?
      rw [hfind]
    unfold Source.load Action.readText
    simp only [Action.perform_bind, Action.perform_get, htext]
    cases t.text? path with
    | none => rfl
    | some source =>
      simp only [Action.require, Action.perform_pure]
      cases Declaration.ofSource source path.text function <;> rfl

theorem Loader.Local.perform_eq {load : Loader} (hload : load.Local) {path : Path}
    {function : String} (hfind : u.find? path = t.find? path)
    (h : (load path function).perform t = (.ok flow, t)) :
    (load path function).perform u = (.ok flow, u) := by
  have hfst := hload.depends function hfind
  rw [h] at hfst
  exact Prod.ext hfst (hload.reads path function u)

/-! ## Registrations that do not get into each other's way -/

theorem Registry.insert_of_allowed {r : Registry} {name entrypoint : String} {force : Bool}
    (h : ∀ old, r.flows.get? name = some old → old = entrypoint ∨ force = true) :
    r.insert name entrypoint force =
      .ok { r with flows := r.flows.insert name entrypoint } := by
  cases hold : r.flows.get? name with
  | none =>
    unfold insert
    rw [hold]
  | some old =>
    rw [insert_of_bound hold, if_neg]
    rintro ⟨hne, rfl⟩
    exact (h old hold).elim hne Bool.false_ne_true

namespace Registration

/-- The registration succeeds in the project with `marker` if it comes first; its source is not the
registry's file, nor does it start from where that file is going to be. -/
structure Independent (t : Tree) (marker : Path) (c : Registration) : Prop where
  nearest : Marker.find? t (.ofText c.dir) = some marker
  load : c.load.Local
  succeeds : ∃ flow u, c.run.perform t = (.ok flow, u)
  source : ∀ x, c.target t = .ok x → t.walk x.file ≠ t.walk (marker.join Registry.fileName)
  start : t.Apart (.ofText c.dir) (marker.join Registry.fileName)

def ownEntries (t : Tree) (cs : List Registration) : List (String × String) :=
  cs.filterMap fun c => c.entry? t

theorem source_of_parse {path function : String} {p : Path}
    (hparse : Entrypoint.parse c.entrypoint = .ok ⟨path, function⟩)
    (hne : t.walk (t.resolve ((Path.ofText c.dir).join path)) ≠ t.walk p) :
    ∀ x, c.target t = .ok x → t.walk x.file ≠ t.walk p := by
  intro x hx
  obtain ⟨path', hparse', hfile, -⟩ := Target.find_ok hx
  cases hparse.symm.trans hparse'
  rw [hfile]
  exact hne

namespace Independent

theorem slashless (hc : c.Independent t marker) :
    Slashless (marker.join Registry.fileName).segments :=
  slashless_join (Marker.slashless_of_find? (slashless_ofText c.dir) hc.nearest) _

theorem alone (hd : Registry.Holds t marker d) (hc : c.Independent t marker) :
    ∃ x flow u, c.target t = .ok x ∧ c.run.perform t = (.ok flow, u) ∧
      (c.load x.file x.function).perform t = (.ok flow, t) ∧
      (∀ old, d.get? flow.name = some old → old = x.inside.text ∨ c.force = true) ∧
      t.write? (marker.join Registry.fileName)
        (d.insert flow.name x.inside.text).toJson.toUTF8 = some u := by
  obtain ⟨flow, u, hrun⟩ := hc.succeeds
  rcases run_cases hd hc.nearest hc.load.reads with ⟨e, herror⟩ | halone
  · cases hrun.symm.trans herror
  · exact halone

theorem target_write? (hc : c.Independent t marker)
    (h : t.write? (marker.join Registry.fileName) content = some u) (hx : c.target t = .ok x) :
    c.target u = .ok x := by
  have hfound : Target.find t (.ofText c.dir) c.entrypoint = .ok x := hx
  obtain ⟨path, hparse, hfile, -⟩ := Target.find_ok hfound
  have hstart := slashless_ofText c.dir
  have hsource := hc.source x hx
  rw [hfile] at hsource
  have hresolve : u.resolve ((Path.ofText c.dir).join path) =
      t.resolve ((Path.ofText c.dir).join path) :=
    Tree.resolve_write? hc.slashless (slashless_join hstart path) h hsource
  have hexists := hc.start.pathExists_write? hc.slashless hstart h
  have hmarker : Marker.find? u (.ofText c.dir) = Marker.find? t (.ofText c.dir) :=
    Marker.find?_write?_of_made hc.slashless h fun hafter => hexists ▸ hafter
  exact (Target.find_congr hparse hparse hresolve hmarker).trans hfound

theorem load_write? (hc : c.Independent t marker)
    (h : t.write? (marker.join Registry.fileName) content = some u) (hx : c.target t = .ok x)
    (hflow : (c.load x.file x.function).perform t = (.ok flow, t)) :
    (c.load x.file x.function).perform u = (.ok flow, u) := by
  obtain ⟨path, -, hfile, -⟩ := Target.find_ok hx
  have hslashless : Slashless x.file.segments := by
    rw [hfile]
    exact slashless_resolve (slashless_join (slashless_ofText c.dir) path)
  have hfind : u.find? x.file = t.find? x.file :=
    Tree.find?_write?_of_ne hc.slashless hslashless h (hc.source x hx)
  exact hc.load.perform_eq hfind hflow

end Independent

end Registration

open Registration

/-! ## One after another -/

/-- The registry beside `marker`, which held `d` in `t`, has got these entries in `u`, and nothing
else is different; without entries nothing has been written. -/
inductive Registry.Inserted (t : Tree) (marker : Path) (d : Dictionary) :
    List (String × String) → Tree → Prop where
  | nothing : Inserted t marker d [] t
  | written {es : List (String × String)} {u : Tree} :
    t.write? (marker.join fileName) (d.insertAll es).toJson.toUTF8 = some u →
    Inserted t marker d es u

theorem Registry.Inserted.write? (h : Registry.Inserted t marker d es u) (hes : es ≠ []) :
    t.write? (marker.join Registry.fileName) (d.insertAll es).toJson.toUTF8 = some u := by
  cases h with
  | nothing => exact absurd rfl hes
  | written h => exact h

namespace Registration

variable {e : String × String}

/-- After registrations of other names a registration does what it does alone. -/
theorem Independent.perform_after (hd : Registry.Holds t marker d) (hc : c.Independent t marker)
    (hu : Registry.Inserted t marker d es u) (he : c.entry? t = some e)
    (hname : e.1 ∉ es.map Prod.fst) :
    ∃ flow v w, c.run.perform t = (.ok flow, v) ∧ c.run.perform u = (.ok flow, w) ∧
      Registry.Inserted t marker d (es ++ [e]) w := by
  obtain ⟨x, flow, v, hx, hrun, hflow, hbound, hwrite⟩ := hc.alone hd
  obtain rfl : x.marker = marker :=
    Option.some.inj ((Target.marker_of_find hx).symm.trans hc.nearest)
  obtain rfl := Option.some.inj ((entry?_of_ok hx hrun).symm.trans he)
  cases hu with
  | nothing => exact ⟨flow, v, v, hrun, hrun, .written hwrite⟩
  | written hu =>
    -- the others have other names, so what was under this one still is
    have hget : (d.insertAll es).get? flow.name = d.get? flow.name :=
      d.get?_insertAll_of_not_mem hname
    have hinsert : (d.insertAll es).insert flow.name x.inside.text =
        d.insertAll (es ++ [(flow.name, x.inside.text)]) := by
      rw [Dictionary.insertAll_append]
      rfl
    have hmarker := hc.nearest
    have hslashless := Marker.slashless_of_find? (slashless_ofText c.dir) hmarker
    have hdir : u.isDirectory x.marker = true :=
      (Tree.isDirectory_write? hc.slashless hu _).trans (Marker.isDirectory_of_find? hmarker)
    have hregister : c.run.perform u = _ :=
      perform_register (.ofText c.dir) c.entrypoint c.force c.load u
    have hfound : Target.find u (.ofText c.dir) c.entrypoint = .ok x := hc.target_write? hu hx
    rw [hfound] at hregister
    have hrecord : (x.record c.force c.load).perform u = _ :=
      perform_record hdir (hc.load_write? hu hx hflow)
        (Registry.holds_of_write? hslashless hu).2
    obtain ⟨w, hw, hagain⟩ := Tree.write?_write? hc.slashless hu
      (d.insertAll (es ++ [(flow.name, x.inside.text)])).toJson.toUTF8
    rw [Registry.insert_of_allowed (hget ▸ hbound)] at hrecord
    simp only [hinsert, hagain] at hrecord
    exact ⟨flow, v, w, hrun, hregister.trans hrecord, .written hw⟩

theorem Independent.exists_entry (hd : Registry.Holds t marker d) (hc : c.Independent t marker) :
    ∃ e, c.entry? t = some e := by
  obtain ⟨x, flow, v, hx, hrun, -⟩ := hc.alone hd
  exact ⟨_, entry?_of_ok hx hrun⟩

theorem succeeds_of_entry? (he : c.entry? t = some e) :
    ∃ flow u, c.run.perform t = (.ok flow, u) := by
  unfold entry? at he
  split at he
  · exact ⟨_, Action.perform_of_fst ‹_›⟩
  · cases he

theorem ownEntries_cons (he : c.entry? t = some e) (cs : List Registration) :
    ownEntries t (c :: cs) = e :: ownEntries t cs :=
  List.filterMap_cons_some he

/-- Registrations with different names have put their entries into the registry, in order. -/
theorem inserted_runAll (hd : Registry.Holds t marker d) (hcs : ∀ c ∈ cs, c.Independent t marker)
    (hu : Registry.Inserted t marker d es u)
    (hnames : ((es ++ ownEntries t cs).map Prod.fst).Nodup) :
    Registry.Inserted t marker d (es ++ ownEntries t cs) (runAll u cs) := by
  induction cs generalizing es u with
  | nil =>
    rw [ownEntries, List.filterMap_nil, List.append_nil]
    exact hu
  | cons c cs ih =>
    have hc := hcs c List.mem_cons_self
    obtain ⟨e, he⟩ := hc.exists_entry hd
    rw [ownEntries_cons he] at hnames ⊢
    have hname : e.1 ∉ es.map Prod.fst := by
      rw [List.map_append, List.nodup_append] at hnames
      exact fun hmem => hnames.2.2 e.1 hmem e.1 List.mem_cons_self rfl
    obtain ⟨flow, v, w, -, hrun, hw⟩ := hc.perform_after hd hu he hname
    rw [List.append_cons] at hnames ⊢
    rw [runAll, hrun]
    exact ih (fun c' hc' => hcs c' (List.mem_cons_of_mem _ hc')) hw hnames

theorem write?_runAll (hd : Registry.Holds t marker d) (hne : cs ≠ [])
    (hcs : ∀ c ∈ cs, c.Independent t marker) (hnames : ((ownEntries t cs).map Prod.fst).Nodup) :
    t.write? (marker.join Registry.fileName) (d.insertAll (ownEntries t cs)).toJson.toUTF8 =
      some (runAll t cs) := by
  have hown : ownEntries t cs ≠ [] := by
    cases cs with
    | nil => exact absurd rfl hne
    | cons c cs =>
      obtain ⟨e, he⟩ := (hcs c List.mem_cons_self).exists_entry hd
      rw [ownEntries_cons he]
      exact List.cons_ne_nil _ _
  have hreached := inserted_runAll hd hcs .nothing hnames
  exact hreached.write? hown

theorem perform_next (hd : Registry.Holds t marker d) (hcs : ∀ c ∈ cs, c.Independent t marker)
    (hnames : ((ownEntries t cs).map Prod.fst).Nodup) {before after : List Registration}
    (hsplit : cs = before ++ c :: after) :
    ∃ flow v w, c.run.perform t = (.ok flow, v) ∧
      c.run.perform (runAll t before) = (.ok flow, w) := by
  subst hsplit
  have hc := hcs c (List.mem_append_right _ List.mem_cons_self)
  have hbefore : ∀ b ∈ before, b.Independent t marker := fun b hb =>
    hcs b (List.mem_append_left _ hb)
  obtain ⟨e, he⟩ := hc.exists_entry hd
  have hsplit : ownEntries t (before ++ c :: after) =
      ownEntries t before ++ e :: ownEntries t after := by
    rw [ownEntries, List.filterMap_append, ← ownEntries, ← ownEntries, ownEntries_cons he]
  rw [hsplit, List.map_append, List.nodup_append] at hnames
  have hname : e.1 ∉ (ownEntries t before).map Prod.fst := fun hmem =>
    hnames.2.2 e.1 hmem e.1 List.mem_cons_self rfl
  have hreached := inserted_runAll hd hbefore .nothing hnames.1
  obtain ⟨flow, v, w, hrun, hagain, -⟩ := hc.perform_after hd hreached he hname
  exact ⟨flow, v, w, hrun, hagain⟩

end Registration

/-- Registrations in one project that have different names, and each of which succeeds if it comes
first, all succeed in whatever order they come, with the flows that they have alone. In the end
nothing is different but the registry's file, and its text depends on what it held at first and on
what each of them records alone. -/
theorem registrations_commute (hd : Registry.Holds t marker d) (hne : cs ≠ [])
    (hcs : ∀ c ∈ cs, c.Independent t marker)
    (hnames : ((ownEntries t cs).map Prod.fst).Nodup) :
    ∃ u, t.write? (marker.join Registry.fileName)
        (d.insertAll (ownEntries t cs)).toJson.toUTF8 = some u ∧
      u.text? (marker.join Registry.fileName) = some (d.insertAll (ownEntries t cs)).toJson ∧
      ∀ cs', cs'.Perm cs → runAll t cs' = u ∧
        ∀ before c after, cs' = before ++ c :: after → ∃ flow v w,
          c.run.perform t = (.ok flow, v) ∧ c.run.perform (runAll t before) = (.ok flow, w) := by
  obtain ⟨c₀, hc₀⟩ := List.exists_mem_of_ne_nil cs hne
  have hslashless := Marker.slashless_of_find? (slashless_ofText c₀.dir) (hcs c₀ hc₀).nearest
  have hwrite := write?_runAll hd hne hcs hnames
  refine ⟨runAll t cs, hwrite, (Registry.holds_of_write? hslashless hwrite).1, ?_⟩
  intro cs' hperm
  have hne' : cs' ≠ [] := fun hnil => hne (List.nil_perm.1 (hnil ▸ hperm))
  have hcs' : ∀ c ∈ cs', c.Independent t marker := fun c hc => hcs c (hperm.subset hc)
  have hentries : (ownEntries t cs').Perm (ownEntries t cs) := hperm.filterMap _
  have hnames' := (hentries.map Prod.fst).nodup_iff.2 hnames
  have hwrite' := write?_runAll hd hne' hcs' hnames'
  rw [d.insertAll_perm hentries hnames', hwrite] at hwrite'
  exact ⟨(Option.some.inj hwrite').symm, fun before c after hsplit =>
    perform_next hd hcs' hnames' hsplit⟩

def handmadeRegistry : String :=
  "\x7b\"z\":\"z.py:z\",\n\"g\" : \"old.py:g\"\x7d\n"

def handmadeProject : Tree :=
  ⟨[(["p"], .directory .everyone), ([".prefect", "p"], .directory .ownerOnly),
    (["flows.json", ".prefect", "p"], .file handmadeRegistry.toUTF8),
    (["sub", "p"], .directory .everyone),
    (["a.py", "p"], .file "@flow\ndef f():\n    pass\n".toUTF8),
    (["b.py", "sub", "p"], .file "@flow\ndef g():\n    pass\n".toUTF8)]⟩

/-- A flow that is new, and one that replaces what is under its name. -/
def handmadeCalls : List Registration :=
  [⟨"/p", "a.py:f", false, Source.load⟩, ⟨"/p/sub", "./b.py:g", true, Source.load⟩]

theorem registrations_commute_handmade :
    ∃ u, u.text? (.ofText "/p/.prefect/flows.json") = some
        "\x7b\n  \"f\": \"a.py:f\",\n  \"g\": \"sub/b.py:g\",\n  \"z\": \"z.py:z\"\n\x7d" ∧
      runAll handmadeProject handmadeCalls = u ∧
      runAll handmadeProject handmadeCalls.reverse = u := by
  have hpath : (Path.ofText "/p/.prefect").join Registry.fileName =
      .ofText "/p/.prefect/flows.json" := by decide +kernel
  have htext : handmadeProject.text? ((Path.ofText "/p/.prefect").join Registry.fileName) =
      some handmadeRegistry := by decide +kernel
  have hholds : Registry.Holds handmadeProject (.ofText "/p/.prefect")
      (.ofList [("g", "old.py:g"), ("z", "z.py:z")]) :=
    Registry.holds_of_ofJson? htext (by decide +kernel)
  have hexists : handmadeProject.pathExists
      ((Path.ofText "/p/.prefect").join Registry.fileName) = true := Tree.pathExists_of_text? htext
  have hf : Entrypoint.parse "a.py:f" = .ok ⟨"a.py", "f"⟩ := by decide +kernel
  have hg : Entrypoint.parse "./b.py:g" = .ok ⟨"./b.py", "g"⟩ := by decide +kernel
  have hentryf : Registration.entry? ⟨"/p", "a.py:f", false, Source.load⟩ handmadeProject =
      some ("f", "a.py:f") := by decide +kernel
  have hentryg : Registration.entry? ⟨"/p/sub", "./b.py:g", true, Source.load⟩ handmadeProject =
      some ("g", "sub/b.py:g") := by decide +kernel
  have hcalls : ∀ c ∈ handmadeCalls, c.Independent handmadeProject (.ofText "/p/.prefect") := by
    intro c hc
    simp only [handmadeCalls, List.mem_cons, List.not_mem_nil, or_false] at hc
    rcases hc with rfl | rfl
    · exact ⟨by decide +kernel, Source.load_local, succeeds_of_entry? hentryf,
        source_of_parse hf (by decide +kernel), .of_exists hexists⟩
    · exact ⟨by decide +kernel, Source.load_local, succeeds_of_entry? hentryg,
        source_of_parse hg (by decide +kernel), .of_exists hexists⟩
  have hentries : ownEntries handmadeProject handmadeCalls =
      [("f", "a.py:f"), ("g", "sub/b.py:g")] := by
    rw [handmadeCalls, ownEntries_cons hentryf, ownEntries_cons hentryg]
    rfl
  have hne : handmadeCalls ≠ [] := List.cons_ne_nil _ _
  have hnames : ((ownEntries handmadeProject handmadeCalls).map Prod.fst).Nodup := by
    rw [hentries]
    decide
  obtain ⟨u, -, hafter, hall⟩ := registrations_commute hholds hne hcalls hnames
  refine ⟨u, ?_, (hall _ (.refl _)).1, (hall _ handmadeCalls.reverse_perm).1⟩
  have hwritten : ((Dictionary.ofList [("g", "old.py:g"), ("z", "z.py:z")]).insertAll
      [("f", "a.py:f"), ("g", "sub/b.py:g")]).toJson =
        "\x7b\n  \"f\": \"a.py:f\",\n  \"g\": \"sub/b.py:g\",\n  \"z\": \"z.py:z\"\n\x7d" := by
    decide +kernel
  rw [hpath, hentries, hwritten] at hafter
  exact hafter

def rootCall : Registration := ⟨"/p", "a.py:f", false, Source.load⟩

def linkCall : Registration := ⟨"/p/l", "/p/b.py:g", false, Source.load⟩

/-- Both registrations succeed if they come first, neither with the registry for its source. But
once it is there the link leads to it, and the marker nearest to that is another. -/
theorem registrations_disturbed :
    Registry.Holds linkedRegistry (.ofText "/p/.prefect") .empty ∧
      (∀ c ∈ [rootCall, linkCall], c.load.Local ∧
        Marker.find? linkedRegistry (.ofText c.dir) = some (.ofText "/p/.prefect") ∧
        (∃ flow u, c.run.perform linkedRegistry = (.ok flow, u)) ∧
        ∀ x, c.target linkedRegistry = .ok x →
          linkedRegistry.walk x.file ≠ linkedRegistry.walk (.ofText "/p/.prefect/flows.json")) ∧
      ownEntries linkedRegistry [rootCall, linkCall] = [("f", "a.py:f"), ("g", "b.py:g")] ∧
      (linkCall.run.perform (runAll linkedRegistry [rootCall])).1 =
        .error (.outsideProject "/p/b.py" "/p/.prefect") ∧
      (rootCall.run.perform (runAll linkedRegistry [linkCall])).1 =
        .ok ⟨"f", "f", .ofText "/p/a.py", none⟩ := by
  have hf : Entrypoint.parse "a.py:f" = .ok ⟨"a.py", "f"⟩ := by decide +kernel
  have hg : Entrypoint.parse "/p/b.py:g" = .ok ⟨"/p/b.py", "g"⟩ := by decide +kernel
  have hroot : rootCall.entry? linkedRegistry = some ("f", "a.py:f") := by decide +kernel
  have hlink : linkCall.entry? linkedRegistry = some ("g", "b.py:g") := by decide +kernel
  refine ⟨Registry.holds_empty (by decide +kernel), fun c hc => ?_, ?_, by decide +kernel,
    by decide +kernel⟩
  · simp only [List.mem_cons, List.not_mem_nil, or_false] at hc
    rcases hc with rfl | rfl
    · exact ⟨Source.load_local, by decide +kernel, succeeds_of_entry? hroot,
        source_of_parse hf (by decide +kernel)⟩
    · exact ⟨Source.load_local, by decide +kernel, succeeds_of_entry? hlink,
        source_of_parse hg (by decide +kernel)⟩
  · rw [ownEntries_cons hroot, ownEntries_cons hlink]
    rfl

end Scaffold
