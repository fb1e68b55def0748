import Mathlib.Logic.Function.Basic
import Scaffold.Proofs.Flow.History

/-!
# Registrations at the same time

A registration takes three steps: it finds its target and the flow, reads the registry, and writes
it with the flow (`Registration.advance`). Steps of several registrations come in any order, and one
that writes knows only the registry that it has read. A step is one of five moves (`moves_step`);
what the registry holds, and what is held in memory of it, can always be accounted for by what was
there at first and by the registrations that are through (`interleaved_registrations`).
-/

namespace Scaffold

open Scaffold.Text (Dictionary)

/-! ## Steps -/

/-- How far a registration has come. -/
inductive Phase where
  | waiting
  /-- the target is found, and its flow loaded -/
  | found (x : Target) (flow : Flow)
  /-- the registry has been read -/
  | loaded (x : Target) (flow : Flow) (r : Registry)
  | saved (x : Target) (flow : Flow)
  | failed (e : Error)

/-- The target and the flow of a registration that has got to them. -/
def Phase.known? : Phase → Option (Target × Flow)
  | .found x flow | .loaded x flow _ | .saved x flow => some (x, flow)
  | .waiting | .failed _ => none

/-- The name and the entrypoint that a registration has saved. -/
def Phase.recorded? : Phase → Option (String × String)
  | .saved x flow => some (flow.name, x.inside.text)
  | _ => none

theorem Phase.eq_saved_of_recorded? {p : Phase} {name entrypoint : String}
    (h : p.recorded? = some (name, entrypoint)) :
    ∃ x flow, p = .saved x flow ∧ flow.name = name ∧ x.inside.text = entrypoint := by
  unfold recorded? at h
  split at h
  · cases h
    exact ⟨_, _, rfl, rfl, rfl⟩
  · cases h

def Phase.outcome : Phase → Action Flow
  | .saved _ flow => return flow
  | .failed e => throw e
  | .waiting | .found _ _ | .loaded _ _ _ => throw .noMarker

def Registration.advance (c : Registration) : Phase → Action Phase
  | .waiting => do
    let x ← Action.ofExcept (c.target (← get))
    let flow ← c.load x.file x.function
    return .found x flow
  | .found x flow => do
    return .loaded x flow (← Registry.load x.marker)
  | .loaded x flow r => do
    let r ← Action.ofExcept (r.insert flow.name x.inside.text c.force)
    r.save
    return .saved x flow
  | p => return p

/-- The steps of one registration, with nothing in between, are the registration. -/
theorem Registration.perform_run_eq (c : Registration) (t : Tree) :
    c.run.perform t =
      (c.advance .waiting >>= c.advance >>= c.advance >>= Phase.outcome).perform t := by
  have hregister : c.run.perform t = _ :=
    perform_register (.ofText c.dir) c.entrypoint c.force c.load t
  rw [hregister]
  simp only [Action.perform_bind, advance, target, Action.perform_get]
  cases Target.find t (.ofText c.dir) c.entrypoint with
  | error e => rfl
  | ok x =>
    simp only [Target.record, Action.perform_bind, Action.perform_ofExcept_ok]
    rcases (c.load x.file x.function).perform t with ⟨_ | flow, u⟩
    · rfl
    simp only [Action.perform_bind, Action.perform_pure]
    rcases (Registry.load x.marker).perform u with ⟨_ | r, v⟩
    · rfl
    simp only [Action.perform_bind, Action.perform_pure]
    cases r.insert flow.name x.inside.text c.force with
    | error e => rfl
    | ok r =>
      simp only [Action.perform_ofExcept_ok]
      rcases r.save.perform v with ⟨_ | _, w⟩ <;> rfl

/-- A tree and registrations that work on it at the same time. -/
structure Concurrent (ι : Type) where
  tree : Tree
  phase : ι → Phase

namespace Concurrent

variable {ι : Type}

def start (t : Tree) : Concurrent ι :=
  ⟨t, fun _ => .waiting⟩

variable [DecidableEq ι]

/-- The state with the tree `t` in which the registration `i` is in the phase `p`. -/
def enter (s : Concurrent ι) (t : Tree) (i : ι) (p : Phase) : Concurrent ι :=
  ⟨t, Function.update s.phase i p⟩

@[simp] theorem enter_tree (s : Concurrent ι) (t : Tree) (i : ι) (p : Phase) :
    (s.enter t i p).tree = t := rfl

@[simp] theorem enter_phase_self (s : Concurrent ι) (t : Tree) (i : ι) (p : Phase) :
    (s.enter t i p).phase i = p := by
  unfold enter
  exact Function.update_self ..

theorem enter_phase_of_ne (s : Concurrent ι) (t : Tree) {i j : ι} (h : j ≠ i) (p : Phase) :
    (s.enter t i p).phase j = s.phase j := by
  unfold enter
  exact Function.update_of_ne h ..

theorem enter_eq_self (s : Concurrent ι) (i : ι) : s.enter s.tree i (s.phase i) = s := by
  unfold enter
  rw [Function.update_eq_self]

variable (calls : ι → Registration)

/-- The registration `i` takes its next step; one that fails is done. -/
def step (s : Concurrent ι) (i : ι) : Concurrent ι :=
  match ((calls i).advance (s.phase i)).perform s.tree with
  | (.ok p, t) => s.enter t i p
  | (.error e, t) => s.enter t i (.failed e)

/-- Registrations take steps in the order of a schedule. -/
def run (s : Concurrent ι) (schedule : List ι) : Concurrent ι :=
  schedule.foldl (step calls) s

theorem step_phase_of_ne (s : Concurrent ι) {i j : ι} (h : j ≠ i) :
    (step calls s i).phase j = s.phase j := by
  unfold step
  split <;> exact s.enter_phase_of_ne _ h _

theorem run_concat (s : Concurrent ι) (schedule : List ι) (i : ι) :
    run calls s (schedule ++ [i]) = step calls (run calls s schedule) i :=
  List.foldl_concat ..

/-- What is so of a registration's phase, and is not at first, became so by a step of its own. -/
theorem earlier_step {t : Tree} {schedule : List ι} {i : ι} {P : Phase → Prop}
    (hstart : ¬P .waiting) (h : P ((run calls (start t) schedule).phase i)) :
    ∃ earlier later, schedule = earlier ++ i :: later ∧
      ¬P ((run calls (start t) earlier).phase i) ∧
      P ((step calls (run calls (start t) earlier) i).phase i) := by
  induction schedule using List.reverseRecOn with
  | nil => exact absurd h hstart
  | append_singleton schedule j ih =>
    by_cases hbefore : P ((run calls (start t) schedule).phase i)
    · obtain ⟨earlier, later, rfl, hearlier⟩ := ih hbefore
      exact ⟨earlier, later ++ [j], by simp, hearlier⟩
    · rw [run_concat] at h
      by_cases hij : i = j
      · subst hij
        exact ⟨schedule, [], rfl, hbefore, h⟩
      · -- the step of another leaves the phase as it is
        rw [step_phase_of_ne calls _ hij] at h
        exact absurd h hbefore

/-! ## What a step can do -/

/-- The registration `i` finds the target `x`, and loads `flow` from it. -/
def Finds (s : Concurrent ι) (i : ι) (x : Target) (flow : Flow) : Prop :=
  (calls i).target s.tree = .ok x ∧
    ((calls i).load x.file x.function).perform s.tree = (.ok flow, s.tree)

/-- All registrations are made in the project with `marker`, and what they know of it is so. -/
structure Orderly (marker : Path) (s : Concurrent ι) : Prop where
  belongs : ∀ i, (calls i).Belongs s.tree marker
  found : ∀ i x flow, s.phase i = .found x flow → x.marker = marker
  loaded : ∀ i x flow r, s.phase i = .loaded x flow r → r.path = marker.join Registry.fileName

/-- What a step of the registration `i` can do. -/
inductive Moves (marker : Path) (s : Concurrent ι) (i : ι) : Concurrent ι → Prop where
  | stays : Moves marker s i s
  | fails {e : Error} : (∀ x flow, s.phase i ≠ .saved x flow) →
      Moves marker s i (s.enter s.tree i (.failed e))
  | finds {x : Target} {flow : Flow} : s.phase i = .waiting → Finds calls s i x flow →
      Moves marker s i (s.enter s.tree i (.found x flow))
  | loads {x : Target} {flow : Flow} {d : Dictionary} : s.phase i = .found x flow →
      Registry.Holds s.tree marker d →
      Moves marker s i
        (s.enter s.tree i (.loaded x flow ⟨marker.join Registry.fileName, d⟩))
  | saves {x : Target} {flow : Flow} {r : Registry} {t : Tree} : s.phase i = .loaded x flow r →
      (∀ old, r.flows.get? flow.name = some old → old = x.inside.text ∨ (calls i).force = true) →
      s.tree.write? (marker.join Registry.fileName)
        (r.flows.insert flow.name x.inside.text).toJson.toUTF8 = some t →
      Moves marker s i (s.enter t i (.saved x flow))

variable {calls} {marker : Path} {s s' : Concurrent ι} {i j : ι} {x : Target} {flow : Flow}
  {d d₀ : Dictionary}

theorem step_of_ok {p : Phase} {t : Tree}
    (h : ((calls i).advance (s.phase i)).perform s.tree = (.ok p, t)) :
    step calls s i = s.enter t i p := by
  unfold step
  rw [h]

theorem step_of_error {e : Error} {t : Tree}
    (h : ((calls i).advance (s.phase i)).perform s.tree = (.error e, t)) :
    step calls s i = s.enter t i (.failed e) := by
  unfold step
  rw [h]

theorem moves_of_idle (h : ((calls i).advance (s.phase i)).perform s.tree =
    (.ok (s.phase i), s.tree)) : Moves calls marker s i (step calls s i) := by
  rw [step_of_ok h, enter_eq_self]
  exact .stays

theorem moves_of_error {e : Error} (hphase : ∀ x flow, s.phase i ≠ .saved x flow)
    (h : ((calls i).advance (s.phase i)).perform s.tree = (.error e, s.tree)) :
    Moves calls marker s i (step calls s i) := by
  rw [step_of_error h]
  exact .fails hphase

theorem moves_of_waiting (hs : s.Orderly calls marker) (hphase : s.phase i = .waiting) :
    Moves calls marker s i (step calls s i) := by
  have hunsaved : ∀ x flow, s.phase i ≠ .saved x flow := by simp [hphase]
  cases htarget : (calls i).target s.tree with
  | error e =>
    refine moves_of_error hunsaved (e := e) ?_
    simp only [hphase, Registration.advance, Action.perform_bind, Action.perform_get, htarget,
      Action.perform_ofExcept_error]
  | ok x =>
    cases hload : ((calls i).load x.file x.function).perform s.tree with
    | mk loaded u =>
      obtain rfl := ((hs.belongs i).reads x.file x.function).perform_eq hload
      cases loaded with
      | error e =>
        refine moves_of_error hunsaved (e := e) ?_
        simp only [hphase, Registration.advance, Action.perform_bind, Action.perform_get,
          htarget, Action.perform_ofExcept_ok, hload]
      | ok flow =>
        have hfound : ((calls i).advance (s.phase i)).perform s.tree =
            (.ok (.found x flow), s.tree) := by
          simp only [hphase, Registration.advance, Action.perform_bind, Action.perform_get,
            htarget, Action.perform_ofExcept_ok, hload, Action.perform_pure]
        rw [step_of_ok hfound]
        exact .finds hphase ⟨htarget, hload⟩

theorem moves_of_found (hs : s.Orderly calls marker) (hphase : s.phase i = .found x flow) :
    Moves calls marker s i (step calls s i) := by
  have hunsaved : ∀ x flow, s.phase i ≠ .saved x flow := by simp [hphase]
  obtain rfl := hs.found i x flow hphase
  cases hload : (Registry.load x.marker).perform s.tree with
  | mk loaded u =>
    obtain rfl := (Registry.reads_load x.marker).perform_eq hload
    cases loaded with
    | error e =>
      refine moves_of_error hunsaved (e := e) ?_
      simp only [hphase, Registration.advance, Action.perform_bind, hload]
    | ok r =>
      obtain ⟨hd, hr, -⟩ := Registry.holds_of_load hload
      have hloaded : ((calls i).advance (s.phase i)).perform s.tree =
          (.ok (.loaded x flow r), s.tree) := by
        simp only [hphase, Registration.advance, Action.perform_bind, hload,
          Action.perform_pure]
      rw [step_of_ok hloaded, hr]
      exact .loads hphase hd

theorem moves_of_loaded {r : Registry} (hs : s.Orderly calls marker)
    (hphase : s.phase i = .loaded x flow r) : Moves calls marker s i (step calls s i) := by
  have hunsaved : ∀ x flow, s.phase i ≠ .saved x flow := by simp [hphase]
  have hnearest := (hs.belongs i).nearest
  cases hinsert : r.insert flow.name x.inside.text (calls i).force with
  | error e =>
    refine moves_of_error hunsaved (e := e) ?_
    simp only [hphase, Registration.advance, Action.perform_bind, hinsert,
      Action.perform_ofExcept_error]
  | ok r' =>
    obtain ⟨hpath, hflows⟩ := Registry.insert_ok hinsert
    obtain ⟨path, flows⟩ := r'
    -- what was read came from the registry's file, so it goes back there
    obtain rfl : path = marker.join Registry.fileName := hpath.trans (hs.loaded i x flow r hphase)
    have hsave := Registry.perform_save (Marker.isDirectory_of_find? hnearest) flows
    cases hwrite : s.tree.write? (marker.join Registry.fileName) flows.toJson.toUTF8 with
    | none =>
      rw [hwrite] at hsave
      have herror : ((calls i).advance (s.phase i)).perform s.tree = (.error (.other
          ("Failed to write JSON file: " ++ (marker.join Registry.fileName).text)), s.tree) := by
        simp only [hphase, Registration.advance, Action.perform_bind, hinsert,
          Action.perform_ofExcept_ok, hsave]
      exact moves_of_error hunsaved herror
    | some t =>
      rw [hwrite] at hsave
      have hsaved : ((calls i).advance (s.phase i)).perform s.tree = (.ok (.saved x flow), t) := by
        simp only [hphase, Registration.advance, Action.perform_bind, hinsert,
          Action.perform_ofExcept_ok, hsave, Action.perform_pure]
      rw [step_of_ok hsaved]
      obtain rfl : flows = r.flows.insert flow.name x.inside.text := hflows
      exact .saves hphase (fun old hold => Registry.same_or_forced hinsert hold) hwrite

theorem moves_step (hs : s.Orderly calls marker) (i : ι) :
    Moves calls marker s i (step calls s i) := by
  cases hphase : s.phase i with
  | waiting => exact moves_of_waiting hs hphase
  | found x flow => exact moves_of_found hs hphase
  | loaded x flow r => exact moves_of_loaded hs hphase
  | saved x flow => exact moves_of_idle (by rw [hphase]; rfl)
  | failed e => exact moves_of_idle (by rw [hphase]; rfl)

/-! ## What a step keeps -/

namespace Moves

theorem phase_eq (h : Moves calls marker s i s') (hj : j ≠ i) : s'.phase j = s.phase j := by
  cases h with
  | stays => rfl
  | _ => exact s.enter_phase_of_ne _ hj _

theorem finds_of_known? (h : Moves calls marker s i s')
    (hnew : (s'.phase i).known? = some (x, flow)) (hold : (s.phase i).known? ≠ some (x, flow)) :
    Finds calls s i x flow := by
  cases h with
  | stays => exact absurd hnew hold
  | fails _ => rw [enter_phase_self] at hnew; cases hnew
  | finds _ hx =>
    rw [enter_phase_self] at hnew
    cases hnew
    exact hx
  | loads hphase _ =>
    rw [enter_phase_self] at hnew
    rw [hphase] at hold
    exact absurd hnew hold
  | saves hphase _ _ =>
    rw [enter_phase_self] at hnew
    rw [hphase] at hold
    exact absurd hnew hold

theorem holds_of_loaded {r : Registry} (h : Moves calls marker s i s')
    (hnew : s'.phase i = .loaded x flow r) (hold : s.phase i ≠ .loaded x flow r) :
    s.phase i = .found x flow ∧ Registry.Holds s.tree marker r.flows := by
  cases h with
  | stays => exact absurd hnew hold
  | loads hphase hd =>
    rw [enter_phase_self] at hnew
    cases hnew
    exact ⟨hphase, hd⟩
  | _ => rw [enter_phase_self] at hnew; cases hnew

theorem saved (h : Moves calls marker s i s') (hs : s.phase j = .saved x flow) :
    s'.phase j = .saved x flow := by
  by_cases hj : j = i
  · subst hj
    cases h with
    | stays => exact hs
    | fails hphase => exact absurd hs (hphase _ _)
    | finds hphase => rw [hphase] at hs; cases hs
    | loads hphase => rw [hphase] at hs; cases hs
    | saves hphase => rw [hphase] at hs; cases hs
  · rw [h.phase_eq hj, hs]

theorem orderly (h : Moves calls marker s i s') (hs : s.Orderly calls marker) :
    s'.Orderly calls marker := by
  have hslashless := slashless_join (hs.belongs i).slashless Registry.fileName
  constructor
  · intro j
    cases h with
    | saves _ _ hwrite => exact (hs.belongs j).of_write? hslashless hwrite
    | _ => exact hs.belongs j
  · intro j x flow hfound
    by_cases hj : j = i
    · subst hj
      cases h with
      | stays => exact hs.found j x flow hfound
      | finds _ hx =>
        rw [enter_phase_self] at hfound
        cases hfound
        exact (hs.belongs j).marker_eq hx.1
      | _ => rw [enter_phase_self] at hfound; cases hfound
    · rw [h.phase_eq hj] at hfound
      exact hs.found j x flow hfound
  · intro j x flow r hloaded
    by_cases hj : j = i
    · subst hj
      cases h with
      | stays => exact hs.loaded j x flow r hloaded
      | loads =>
        rw [enter_phase_self] at hloaded
        cases hloaded
        rfl
      | _ => rw [enter_phase_self] at hloaded; cases hloaded
    · rw [h.phase_eq hj] at hloaded
      exact hs.loaded j x flow r hloaded

end Moves

variable (calls) in
/-- Every entry of `d` was there at first or is that of a registration that is through; and what was
there at first is there, but for a registration by force. -/
structure Accounts (s : Concurrent ι) (d₀ d : Dictionary) : Prop where
  known : ∀ name entrypoint, d.get? name = some entrypoint → d₀.get? name = some entrypoint ∨
    ∃ i x flow, s.phase i = .saved x flow ∧ flow.name = name ∧ x.inside.text = entrypoint
  kept : ∀ name entrypoint, d₀.get? name = some entrypoint → d.get? name = some entrypoint ∨
    ∃ i x flow, s.phase i = .saved x flow ∧ flow.name = name ∧ (calls i).force = true

namespace Accounts

omit [DecidableEq ι] in
theorem refl (s : Concurrent ι) (d : Dictionary) : s.Accounts calls d d :=
  ⟨fun _ _ h => .inl h, fun _ _ h => .inl h⟩

omit [DecidableEq ι] in
theorem mono (h : s.Accounts calls d₀ d)
    (hsaved : ∀ j x flow, s.phase j = .saved x flow → s'.phase j = .saved x flow) :
    s'.Accounts calls d₀ d where
  known name entrypoint hget := (h.known name entrypoint hget).imp_right
    fun ⟨j, x, flow, hj, hpair⟩ => ⟨j, x, flow, hsaved j x flow hj, hpair⟩
  kept name entrypoint hget := (h.kept name entrypoint hget).imp_right
    fun ⟨j, x, flow, hj, hpair⟩ => ⟨j, x, flow, hsaved j x flow hj, hpair⟩

omit [DecidableEq ι] in
theorem insert (h : s.Accounts calls d₀ d) (hi : s.phase i = .saved x flow)
    (hbound : ∀ old, d.get? flow.name = some old →
      old = x.inside.text ∨ (calls i).force = true) :
    s.Accounts calls d₀ (d.insert flow.name x.inside.text) where
  known name entrypoint hget := by
    rw [Dictionary.get?_insert] at hget
    split at hget
    · rename_i hname
      cases hget
      exact .inr ⟨i, x, flow, hi, hname, rfl⟩
    · exact h.known name entrypoint hget
  kept name entrypoint hget := by
    rw [Dictionary.get?_insert]
    rcases h.kept name entrypoint hget with hd | hforced
    · split
      · rename_i hname
        rcases hbound entrypoint (hname ▸ hd) with rfl | hforce
        · exact .inl rfl
        · exact .inr ⟨i, x, flow, hi, hname, hforce⟩
      · exact .inl hd
    · exact .inr hforced

end Accounts

variable (calls) in
/-- What the registry's file holds, and what is held of it in memory, is accounted for. -/
structure Invariant (marker : Path) (d₀ : Dictionary) (s : Concurrent ι) (d : Dictionary) : Prop
    extends Orderly calls marker s where
  holds : Registry.Holds s.tree marker d
  file : s.Accounts calls d₀ d
  copies : ∀ i x flow r, s.phase i = .loaded x flow r → s.Accounts calls d₀ r.flows

/-- A step that saves writes what was read before, with the entry of its own. -/
theorem Invariant.saves (h : Invariant calls marker d₀ s d) {r : Registry} {t : Tree}
    (hphase : s.phase i = .loaded x flow r)
    (hbound : ∀ old, r.flows.get? flow.name = some old →
      old = x.inside.text ∨ (calls i).force = true)
    (hwrite : s.tree.write? (marker.join Registry.fileName)
      (r.flows.insert flow.name x.inside.text).toJson.toUTF8 = some t) :
    Invariant calls marker d₀ (s.enter t i (.saved x flow))
      (r.flows.insert flow.name x.inside.text) := by
  have hmoves : Moves calls marker s i (s.enter t i (.saved x flow)) :=
    .saves hphase hbound hwrite
  have hsaved : ∀ j y g, s.phase j = .saved y g →
      (s.enter t i (.saved x flow)).phase j = .saved y g := fun _ _ _ => hmoves.saved
  -- what was read may be out of date, but `copies` accounts for it
  refine ⟨hmoves.orderly h.toOrderly, ?_, ?_, fun j y g r' hj => ?_⟩
  · exact (Registry.holds_of_write? (h.belongs i).slashless hwrite).2
  · exact ((h.copies i x flow r hphase).mono hsaved).insert (s.enter_phase_self ..) hbound
  · by_cases hji : j = i
    · subst hji
      rw [enter_phase_self] at hj
      cases hj
    · rw [hmoves.phase_eq hji] at hj
      exact (h.copies j y g r' hj).mono hsaved

theorem Invariant.of_tree_eq (h : Invariant calls marker d₀ s d)
    (hmoves : Moves calls marker s i s') (htree : s'.tree = s.tree)
    (hcopy : ∀ x flow r, s'.phase i = .loaded x flow r → s.Accounts calls d₀ r.flows) :
    Invariant calls marker d₀ s' d := by
  have hsaved : ∀ j x flow, s.phase j = .saved x flow → s'.phase j = .saved x flow :=
    fun _ _ _ => hmoves.saved
  refine ⟨hmoves.orderly h.toOrderly, htree ▸ h.holds, h.file.mono hsaved, ?_⟩
  intro j x flow r hj
  by_cases hji : j = i
  · subst hji
    exact (hcopy x flow r hj).mono hsaved
  · rw [hmoves.phase_eq hji] at hj
    exact (h.copies j x flow r hj).mono hsaved

theorem Invariant.moves (h : Invariant calls marker d₀ s d) (hmoves : Moves calls marker s i s') :
    ∃ d', Invariant calls marker d₀ s' d' := by
  cases hmoves with
  | stays => exact ⟨d, h⟩
  | fails hphase => exact ⟨d, h.of_tree_eq (.fails hphase) rfl (by simp)⟩
  | finds hphase hmarker => exact ⟨d, h.of_tree_eq (.finds hphase hmarker) rfl (by simp)⟩
  | loads hphase hd =>
    refine ⟨d, h.of_tree_eq (.loads hphase hd) rfl fun x flow r hr => ?_⟩
    rw [enter_phase_self] at hr
    cases hr
    exact hd.unique h.holds ▸ h.file
  | saves hphase hbound hwrite => exact ⟨_, h.saves hphase hbound hwrite⟩

omit [DecidableEq ι] in
theorem invariant_start {t : Tree} (hd : Registry.Holds t marker d₀)
    (hcalls : ∀ i, (calls i).Belongs t marker) :
    Invariant calls marker d₀ (start t) d₀ :=
  ⟨⟨hcalls, nofun, nofun⟩, hd, .refl _ _, nofun⟩

/-! ## Whole runs -/

section Run

variable {t : Tree} (hd : Registry.Holds t marker d₀) (hcalls : ∀ i, (calls i).Belongs t marker)

include hd hcalls

theorem invariant_run (schedule : List ι) :
    ∃ d, Invariant calls marker d₀ (run calls (start t) schedule) d := by
  induction schedule using List.reverseRecOn with
  | nil => exact ⟨d₀, invariant_start hd hcalls⟩
  | append_singleton schedule i ih =>
    obtain ⟨d, h⟩ := ih
    rw [run_concat]
    exact h.moves (moves_step h.toOrderly i)

theorem moves_run (schedule : List ι) (i : ι) :
    Moves calls marker (run calls (start t) schedule) i
      (step calls (run calls (start t) schedule) i) :=
  have ⟨_, h⟩ := invariant_run hd hcalls schedule
  moves_step h.toOrderly i

theorem found_earlier {schedule : List ι}
    (h : ((run calls (start t) schedule).phase i).known? = some (x, flow)) :
    ∃ earlier later, schedule = earlier ++ i :: later ∧
      Finds calls (run calls (start t) earlier) i x flow := by
  obtain ⟨earlier, later, hschedule, hold, hnew⟩ :=
    earlier_step calls (P := fun p => p.known? = some (x, flow)) nofun h
  exact ⟨earlier, later, hschedule, (moves_run hd hcalls earlier i).finds_of_known? hnew hold⟩

theorem loaded_earlier {schedule : List ι} {r : Registry}
    (h : (run calls (start t) schedule).phase i = .loaded x flow r) :
    ∃ earlier later, schedule = earlier ++ i :: later ∧
      (run calls (start t) earlier).phase i = .found x flow ∧
      Registry.Holds (run calls (start t) earlier).tree marker r.flows := by
  obtain ⟨earlier, later, hschedule, hold, hnew⟩ :=
    earlier_step calls (P := fun p => p = .loaded x flow r) nofun h
  exact ⟨earlier, later, hschedule, (moves_run hd hcalls earlier i).holds_of_loaded hnew hold⟩

end Run

/-- An entry that a save has lost was not in what the registration had read, or the registration is
one of the same name by force. -/
theorem lost_of_insert {c : Registration} {copy : Dictionary}
    (hbound : ∀ old, copy.get? flow.name = some old → old = x.inside.text ∨ c.force = true)
    {name entrypoint : String}
    (hlost : (copy.insert flow.name x.inside.text).get? name ≠ some entrypoint) :
    copy.get? name ≠ some entrypoint ∨ flow.name = name ∧ c.force = true := by
  rw [Dictionary.get?_insert] at hlost
  by_cases hname : flow.name = name
  · rw [if_pos hname] at hlost
    by_cases hcopy : copy.get? name = some entrypoint
    · rcases hbound entrypoint (hname ▸ hcopy) with rfl | hforce
      · exact absurd rfl hlost
      · exact .inr ⟨hname, hforce⟩
    · exact .inl hcopy
  · rw [if_neg hname] at hlost
    exact .inl hlost

end Concurrent

open Concurrent

/-- However the steps of registrations in one project come one after another, the registry can be
read after each. It holds what it held at first, save for names that were registered by force, and
the entries of registrations that are through, which are what these found. A registration that has
just saved finds its entry there; an entry that was lost by that was not there when the registration
read the registry, or has the same name, which was registered by force. -/
theorem interleaved_registrations {ι : Type} [DecidableEq ι] {calls : ι → Registration} {t : Tree}
    {marker : Path} {d₀ : Dictionary} (hd : Registry.Holds t marker d₀)
    (hcalls : ∀ i, (calls i).Belongs t marker) (schedule : List ι) :
    ∃ d, Registry.Holds (run calls (start t) schedule).tree marker d ∧
      (run calls (start t) schedule).Accounts calls d₀ d ∧
      (∀ i x flow, (run calls (start t) schedule).phase i = .saved x flow →
        ∃ earlier later, schedule = earlier ++ i :: later ∧
          Finds calls (run calls (start t) earlier) i x flow) ∧
      ∀ i x flow, (run calls (start t) schedule).phase i ≠ .saved x flow →
        (step calls (run calls (start t) schedule) i).phase i = .saved x flow →
        ∃ d', Registry.Holds (step calls (run calls (start t) schedule) i).tree marker d' ∧
          d'.get? flow.name = some x.inside.text ∧
          ∃ earlier later copy, schedule = earlier ++ i :: later ∧
            (run calls (start t) earlier).phase i = .found x flow ∧
            Registry.Holds (run calls (start t) earlier).tree marker copy ∧
            ∀ name entrypoint, d.get? name = some entrypoint → d'.get? name ≠ some entrypoint →
              copy.get? name ≠ some entrypoint ∨
                flow.name = name ∧ (calls i).force = true := by
  obtain ⟨d, h⟩ := invariant_run hd hcalls schedule
  have hfound : ∀ i x flow, (run calls (start t) schedule).phase i = .saved x flow →
      ∃ earlier later, schedule = earlier ++ i :: later ∧
        Finds calls (run calls (start t) earlier) i x flow := fun i x flow hsaved =>
    found_earlier hd hcalls (by rw [hsaved]; rfl)
  refine ⟨d, h.holds, h.file, hfound, fun i x flow hunsaved hsaved => ?_⟩
  have hmoves := moves_step h.toOrderly i
  have hearlier := fun r (hr : (run calls (start t) schedule).phase i = .loaded x flow r) =>
    loaded_earlier hd hcalls hr
  generalize step calls (run calls (start t) schedule) i = s' at hsaved hmoves
  cases hmoves with
  | stays => exact absurd hsaved hunsaved
  | @saves y g r u hphase hbound hwrite =>
    rw [enter_phase_self] at hsaved
    cases hsaved
    obtain ⟨earlier, later, hschedule, hread, hcopy⟩ := hearlier r hphase
    refine ⟨_, (h.saves hphase hbound hwrite).holds, ?_, earlier, later, r.flows, hschedule,
      hread, hcopy, fun name entrypoint _ hlost => lost_of_insert hbound hlost⟩
    rw [Dictionary.get?_insert, if_pos rfl]
  | _ => rw [enter_phase_self] at hsaved; cases hsaved

def twinCalls : Bool → Registration
  | false => ⟨"/p", "a.py:f", false, Source.load⟩
  | true => ⟨"/p/sub", "b.py:f", false, Source.load⟩

/-- Both calls read the registry before either writes it: neither is refused, and the entry of the
one that saves first is lost. -/
theorem interleaved_registrations_twins :
    Registry.Holds twinProject (.ofText "/p/.prefect") .empty ∧
      (∀ i, (twinCalls i).Belongs twinProject (.ofText "/p/.prefect")) ∧
      Registry.Holds
        (run twinCalls (start twinProject) [false, false, true, true, false]).tree
        (.ofText "/p/.prefect") (.ofList [("f", "a.py:f")]) ∧
      ∃ d, Registry.Holds
          (step twinCalls (run twinCalls (start twinProject) [false, false, true, true, false])
            true).tree (.ofText "/p/.prefect") d ∧
        d.get? "f" = some "sub/b.py:f" := by
  have hempty : Registry.Holds twinProject (.ofText "/p/.prefect") .empty :=
    Registry.holds_empty (by decide +kernel)
  have hbelongs : ∀ i, (twinCalls i).Belongs twinProject (.ofText "/p/.prefect") := by
    rintro (_ | _)
    all_goals exact ⟨by decide +kernel, by decide +kernel, Source.load_readOnly⟩
  have hfirst : Registry.Holds
      (run twinCalls (start twinProject) [false, false, true, true, false]).tree
      (.ofText "/p/.prefect") (.ofList [("f", "a.py:f")]) :=
    Registry.holds_of_text? (by decide +kernel)
  have hunsaved : ((run twinCalls (start twinProject) [false, false, true, true, false]).phase
      true).recorded? = none := by decide +kernel
  have hentry : ((step twinCalls (run twinCalls (start twinProject)
      [false, false, true, true, false]) true).phase true).recorded? = some ("f", "sub/b.py:f") := by
    decide +kernel
  obtain ⟨x, flow, hsaved, hname, hinside⟩ := Phase.eq_saved_of_recorded? hentry
  obtain ⟨_, -, -, -, hsaves⟩ :=
    interleaved_registrations hempty hbelongs [false, false, true, true, false]
  obtain ⟨d, hd, hget, -⟩ := hsaves true x flow
    (fun h => by rw [h] at hunsaved; cases hunsaved) hsaved
  exact ⟨hempty, hbelongs, hfirst, d, hd, by rw [← hname, hget, hinside]⟩

end Scaffold
