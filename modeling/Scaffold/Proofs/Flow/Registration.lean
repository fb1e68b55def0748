import Scaffold.Flow.Registration
import Scaffold.Proofs.Project.Nearest
import Scaffold.Proofs.Tree.Action
import Scaffold.Proofs.Tree.Location

/-!
# Registrations that succeed

`register_ok` takes a registration apart: which entrypoint was read, which project was found,
what the loader and the registry did. `register_records` says what is in the registry's file
afterwards.
-/

namespace Scaffold

open Scaffold.Text (Dictionary)

/-! ## Runs -/

section

variable {t t' : Tree} {dir : Path} {entrypoint : String} {force : Bool} {load : Loader}

/-- What has happened when a registration succeeds. -/
theorem register_ok {flow : Flow}
    (h : (register dir entrypoint force load).perform t = (.ok flow, t')) :
    ∃ e marker root inside, Entrypoint.parse entrypoint = .ok e ∧
      Marker.find? t dir = some marker ∧ marker.parent? = some root ∧
      Entrypoint.inside? root (t.resolve (dir.join e.path)) e.function = some inside ∧
      ∃ t₁ t₂ r r', (load (t.resolve (dir.join e.path)) e.function).perform t = (.ok flow, t₁) ∧
        (Registry.load marker).perform t₁ = (.ok r, t₂) ∧
        r.insert flow.name inside.text force = .ok r' ∧ r'.save.perform t₂ = (.ok (), t') := by
  unfold register at h
  obtain ⟨e, u, hparse, h₁⟩ := Action.perform_bind_ok h
  obtain ⟨he, hu⟩ := Action.perform_ofExcept_ok_iff.1 hparse
  subst hu
  rw [Action.perform_get_bind] at h₁
  dsimp only at h₁
  split at h₁
  · cases h₁
  rename_i marker hmarker
  split at h₁
  · cases h₁
  rename_i root hroot
  split at h₁
  · cases h₁
  rename_i inside hinside
  obtain ⟨x, t₁, hload, h₂⟩ := Action.perform_bind_ok h₁
  obtain ⟨r, t₂, hr, h₃⟩ := Action.perform_bind_ok h₂
  obtain ⟨r', t₃, hinsert, h₄⟩ := Action.perform_bind_ok h₃
  obtain ⟨hr', ht₃⟩ := Action.perform_ofExcept_ok_iff.1 hinsert
  subst ht₃
  obtain ⟨_, t₄, hsave, h₅⟩ := Action.perform_bind_ok h₄
  cases h₅
  exact ⟨e, marker, root, inside, he, hmarker, hroot, hinside, t₁, _, r, r', hload, hr, hr', hsave⟩

end

namespace Registry

theorem load_ok {t t' : Tree} {marker : Path} {r : Registry}
    (h : (load marker).perform t = (.ok r, t')) : r.path = marker.join fileName := by
  unfold load at h
  obtain ⟨d, u, -, h⟩ := Action.perform_bind_ok h
  cases h
  rfl

theorem insert_ok {r r' : Registry} {name entrypoint : String} {force : Bool}
    (h : r.insert name entrypoint force = .ok r') :
    r'.path = r.path ∧ r'.flows = r.flows.insert name entrypoint := by
  unfold insert at h
  split at h
  · split at h
    · cases h
    · cases h
      exact ⟨rfl, rfl⟩
  · cases h
    exact ⟨rfl, rfl⟩

/-- The registry beside the marker of the project at `root` has `e` under `name`. -/
def Records (t : Tree) (root : Path) (name : String) (e : Entrypoint) : Prop :=
  ∃ flows : Dictionary, t.text? ((root.join Marker.name).join fileName) = some flows.toJson ∧
    flows.get? name = some e.text

end Registry

end Scaffold
