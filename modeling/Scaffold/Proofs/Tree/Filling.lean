import Scaffold.Proofs.Tree.Addition

/-!
# A file where nothing was

A file that is written may be new. A path that leads to it has come to the same gap before
(`walk_eq_of_write?`). What a path is resolved to comes to that gap as well (`walk_tidy_of_gap`), so
a path is resolved as before if that comes elsewhere (`resolve_write?`).
-/

namespace Scaffold.Tree

variable {t u : Tree} {d k l : Location} {n : String} {segments : List String} {p q : Path}
  {content : ByteArray} {links : Nat}

/-! ## Walks to the new file -/

/-- Where a walk comes to a file that was put into a gap, it came to the gap before. -/
theorem walkUntilLink_put_gap (hnone : t.at? (n :: d) = none)
    {onLink onLink' : Location → String → String → List String → Arrival}
    (hon : ∀ l s target rest, onLink' l s target rest = .found (n :: d) →
      onLink l s target rest = .found (n :: d) ∨ onLink l s target rest = .gap d n false)
    (h : (t.put (n :: d) (.file content)).walkUntilLink onLink' l segments = .found (n :: d)) :
    t.walkUntilLink onLink l segments = .found (n :: d) ∨
      t.walkUntilLink onLink l segments = .gap d n false := by
  have htakes : t.TakesFile (n :: d) :=
    ⟨List.cons_ne_nil n d, fun e he => by rw [hnone] at he; cases he⟩
  induction segments generalizing l with
  | nil => exact .inl h
  | cons s rest ih =>
    rw [walkUntilLink_cons]
    rcases stepAt_put_file htakes content l s with hsame | ⟨heq, hmissing, hfile⟩
    · obtain ⟨l', hstep, h⟩ | ⟨target, hstep, h⟩ := walkUntilLink_eq_found h <;>
        rw [← hsame, hstep]
      · exact ih h
      · exact hon l s target rest h
    · rw [hmissing]
      cases rest with
      | nil =>
        cases heq
        exact .inr rfl
      | cons r rest =>
        -- no way leads on past a file
        have hfileAt : (t.put (n :: d) (.file content)).isDirectoryAt (n :: d) = false := by
          rw [isDirectoryAt_put_file htakes, isDirectoryAt_of_none hnone]
        rw [walkUntilLink_cons, hfile] at h
        dsimp only at h
        rw [walkUntilLink, hfileAt] at h
        cases h

theorem fromRoot_put_gap (hnone : t.at? (n :: d) = none)
    (h : (t.put (n :: d) (.file content)).fromRoot segments = .found (n :: d)) :
    t.fromRoot segments = .found (n :: d) ∨ t.fromRoot segments = .gap d n false := by
  have hfrom : ∀ links l segments,
      (t.put (n :: d) (.file content)).walkFrom true links l segments = .found (n :: d) →
      t.walkFrom true links l segments = .found (n :: d) ∨
        t.walkFrom true links l segments = .gap d n false := by
    intro links
    induction links with
    | zero =>
      intro l segments h
      rw [walkFrom_zero] at h ⊢
      refine walkUntilLink_put_gap hnone (fun l s target rest h => ?_) h
      cases h
    | succ links ih =>
      intro l segments h
      rw [walkFrom_succ] at h ⊢
      exact walkUntilLink_put_gap hnone (fun l s target rest h => ih _ _ h) h
  exact hfrom _ _ _ h

theorem Straight.ne_none (h : t.Straight l) : t.at? l ≠ none := by
  cases l with
  | nil => exact nofun
  | cons s l =>
    obtain ⟨-, -, ⟨e, he, -⟩, -⟩ := h
    rw [he]
    exact nofun

theorem walk_put_gap (hq : Slashless q.segments) (hnone : t.at? (n :: d) = none)
    (h : (t.put (n :: d) (.file content)).walk q = .found (n :: d)) :
    t.walk q = .gap d n false := by
  obtain ⟨hnul, hfound⟩ := walk_eq_found_iff.1 h
  rw [walk_of_fromRoot hnul]
  rcases fromRoot_put_gap hnone hfound with hbefore | hgap
  · have hstraight := straight_of_locate? hq
      (locate?_eq_some_iff.2 (walk_eq_found_iff.2 ⟨hnul, hbefore⟩))
    exact absurd hnone hstraight.ne_none
  · exact hgap

/-- A path that leads nowhere, and to something once `p` is written, comes where `p` does: to a
gap. -/
theorem walk_eq_of_write? (hp : Slashless p.segments) (hq : Slashless q.segments)
    (h : t.write? p content = some u) (hbefore : t.pathExists q = false)
    (hafter : u.pathExists q = true) :
    ∃ d n, t.walk q = .gap d n false ∧ t.walk p = .gap d n false := by
  have hmissing : ∀ m, t.walk q ≠ .found m := fun m hm => by
    rw [pathExists_iff.2 ⟨m, hm⟩] at hbefore
    cases hbefore
  obtain ⟨m, hm⟩ := pathExists_iff.1 hafter
  obtain ⟨k, hputs, rfl⟩ := (write?_eq_some_iff hp).1 h
  have hk := hputs.takesFile
  cases hputs with
  | onFile _ hat =>
    rw [walk_put_file hat] at hm
    exact absurd hm (hmissing m)
  | @inGap d n hgap hnone =>
    by_cases heq : m = n :: d
    · rw [heq] at hm
      exact ⟨d, n, walk_put_gap hq hnone hm, hgap⟩
    · obtain ⟨hnul, hfound⟩ := walk_eq_found_iff.1 hm
      have hbefore := (fromRoot_agrees hk content q.segments m).2 hfound heq
      exact absurd (walk_eq_found_iff.2 ⟨hnul, hbefore⟩) (hmissing m)

/-! ## Gaps of tidy paths -/

theorem Padded.append_right {a b : List String} (h : Padded a b) (behind : List String) :
    Padded (a ++ behind) (b ++ behind) := by
  induction h with
  | nil =>
    induction behind with
    | nil => exact .nil
    | cons s behind ih => exact .keep s ih
  | keep s _ ih => exact .keep s ih
  | idle hs _ ih => exact .idle hs ih

/-- A tidy path is the path with segments taken out that lead nowhere, behind some of them. -/
theorem padded_tidy (p : Path) : ∃ start rest, (∀ s ∈ start, isIdle s = true) ∧
    p.tidy.segments = start ++ rest ∧ Padded p.segments rest := by
  refine ⟨if p.beginsWithTwoSlashes then [""] else [],
    p.components ++ if p.segments.getLast? = some "" then [""] else [], ?_,
    List.append_assoc .., ?_⟩
  · intro s hs
    split at hs
    · rw [List.mem_singleton.1 hs]
      rfl
    · cases hs
  · split
    · rename_i hlast
      obtain ⟨before, hbefore⟩ := List.getLast?_eq_some_iff.1 hlast
      have hcomponents : p.components = before.filter fun s => !isIdle s := by
        rw [Path.components, hbefore, List.filter_append]
        exact List.append_nil _
      rw [hcomponents, hbefore]
      exact (padded_components before).append_right [""]
    · rw [List.append_nil]
      exact padded_components p.segments

theorem nulFree_tidy (h : NulFree p.segments) : NulFree p.tidy.segments := by
  have hnil : NulFree [] := by simp [NulFree]
  have hempty : NulFree [""] := by simp [NulFree]
  have hcomponents : NulFree p.components := fun s hs => h s (List.mem_filter.1 hs).1
  unfold Path.tidy
  refine NulFree.append (NulFree.append ?_ hcomponents) ?_
  all_goals split
  all_goals first | exact hempty | exact hnil

/-- A path comes to a gap that has no slash behind it also when it is tidied. -/
theorem walk_tidy_of_gap (h : t.walk p = .gap d n false) : t.walk p.tidy = .gap d n false := by
  have hnul : (p.segments.any fun s => s.toList.contains '\x00') = false := by
    unfold walk walkAll at h
    split at h
    · cases h
    · rename_i hnul
      simpa using hnul
  have htidy := any_nul_eq_false_iff.2 (nulFree_tidy (any_nul_eq_false_iff.1 hnul))
  obtain ⟨start, rest, hstart, hsegments, hpadded⟩ := padded_tidy p
  rw [walk_of_fromRoot hnul] at h
  rw [walk_of_fromRoot htidy, hsegments, fromRoot, walkFrom_idle hstart rfl]
  exact walkFrom_unpadded (x := .gap d n false) trivial hpadded h

/-! ## Paths apart from one that is written -/

/-- Nothing is made at `p` that `q` leads to. -/
def Apart (t : Tree) (q p : Path) : Prop :=
  t.pathExists p = false → t.walk q ≠ t.walk p

theorem Apart.of_exists (h : t.pathExists p = true) : t.Apart q p := fun hmissing =>
  absurd h (hmissing ▸ Bool.false_ne_true)

theorem pathExists_of_gap {slash : Bool} (h : t.walk p = .gap d n slash) :
    t.pathExists p = false := by
  unfold pathExists locate?
  rw [h]
  rfl

theorem find?_of_missing (h : t.pathExists p = false) : t.find? p = none := by
  unfold pathExists at h
  rw [find?, Option.isNone_iff_eq_none.1 (Option.isSome_eq_false_iff.1 h)]
  rfl

section Apart

variable (hp : Slashless p.segments) (hq : Slashless q.segments)
  (h : t.write? p content = some u)

include hp hq h

theorem Apart.pathExists_write? (hapart : t.Apart q p) : u.pathExists q = t.pathExists q := by
  cases hbefore : t.pathExists q with
  | true => exact (keeps_write? hp h).pathExists hbefore
  | false =>
    cases hafter : u.pathExists q with
    | false => rfl
    | true =>
      obtain ⟨d, n, hgap, hgap'⟩ := walk_eq_of_write? hp hq h hbefore hafter
      exact absurd (hgap.trans hgap'.symm) (hapart (pathExists_of_gap hgap'))

/-- A path is resolved as before if it was not resolved to one that comes where `p` does. -/
theorem resolve_write? (hne : t.walk (t.resolve q) ≠ t.walk p) : u.resolve q = t.resolve q := by
  cases hbefore : t.pathExists q with
  | true => exact (keeps_write? hp h).resolve hbefore
  | false =>
    cases hafter : u.pathExists q with
    | false => rw [resolve_of_missing hbefore, resolve_of_missing hafter]
    | true =>
      obtain ⟨d, n, hgap, hgap'⟩ := walk_eq_of_write? hp hq h hbefore hafter
      rw [resolve_of_missing hbefore, walk_tidy_of_gap hgap] at hne
      exact absurd hgap'.symm hne

theorem find?_write?_of_ne (hne : t.walk q ≠ t.walk p) : u.find? q = t.find? q := by
  have hexists := Apart.pathExists_write? hp hq h fun _ => hne
  cases hbefore : t.pathExists q with
  | false => rw [find?_of_missing hbefore, find?_of_missing (hexists.trans hbefore)]
  | true =>
    obtain ⟨l, hl⟩ := pathExists_iff.1 hbefore
    have hlocate := locate?_eq_some_iff.2 hl
    have hafter := locate?_eq_some_iff.2 ((keeps_write? hp h).walk hl)
    obtain ⟨k, hputs, rfl⟩ := (write?_eq_some_iff hp).1 h
    have hlk : l ≠ k := by
      rintro rfl
      cases hputs with
      | onFile hfound => exact hne (hl.trans hfound.symm)
      | inGap _ hnone => exact (straight_of_locate? hq hlocate).ne_none hnone
    rw [find?, find?, hlocate, hafter, Option.bind_some, Option.bind_some,
      at?_put t hputs.takesFile.1, if_neg hlk]

end Apart

end Scaffold.Tree
