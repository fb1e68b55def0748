import Scaffold.Proofs.Tree.Inside

/-!
# What is new in a tree

`Grows` says of every place that it is as it was, or that nothing was there and something is now.
Directories that are made are new and lie where one of the paths leads (`grows_makeDirectories`);
what is written to a path that led nowhere in a directory that was there is new, too
(`Reaches.grows_write?`).
-/

namespace Scaffold

theorem Path.getLast?_parents {p q : Path} (hq : q ∈ p.parents) :
    q.segments.getLast? ≠ some "" := by
  have habove : ∀ reversed, ∀ q ∈ above reversed, q.segments.getLast? ≠ some "" := by
    intro reversed
    induction reversed with
    | nil => exact nofun
    | cons s rest ih =>
      intro q hq
      rw [above] at hq
      split at hq
      · exact ih q hq
      · rcases List.mem_cons.1 hq with rfl | hq
        · rw [List.getLast?_reverse]
          intro hhead
          have hidle := List.head?_dropWhile_not isIdle rest
          rw [hhead] at hidle
          exact Bool.noConfusion hidle
        · exact ih q hq
  exact habove _ q hq

namespace Tree

variable {t u v : Tree} {d k l : Location} {n : String} {segments : List String} {p : Path}
  {a : Access} {content : ByteArray} {brings brings' : Location → Entry → Prop}

/-! ## Growth -/

/-- What was in `t` is in `u` unchanged, and what is new in `u` is what `brings` allows. -/
def Grows (t u : Tree) (brings : Location → Entry → Prop) : Prop :=
  ∀ l, u.at? l = t.at? l ∨ t.at? l = none ∧ ∃ e, u.at? l = some e ∧ brings l e

namespace Grows

theorem refl (t : Tree) (brings : Location → Entry → Prop) : t.Grows t brings := fun _ => .inl rfl

theorem trans (h : t.Grows u brings) (h' : u.Grows v brings) : t.Grows v brings := by
  intro l
  rcases h' l with hv | ⟨hnone, hv⟩
  · rw [hv]
    exact h l
  · rcases h l with hu | ⟨-, e, hu, -⟩
    · exact .inr ⟨hu.symm.trans hnone, hv⟩
    · rw [hnone] at hu
      cases hu

theorem mono (h : t.Grows u brings) (himp : ∀ l e, brings l e → brings' l e) :
    t.Grows u brings' := by
  intro l
  rcases h l with hu | ⟨hnone, e, hu, he⟩
  · exact .inl hu
  · exact .inr ⟨hnone, e, hu, himp l e he⟩

theorem keep (h : t.Grows u brings) {e : Entry} (hat : t.at? l = some e) :
    u.at? l = some e := by
  rcases h l with hu | ⟨hnone, -⟩
  · rw [hu, hat]
  · rw [hat] at hnone
    cases hnone

theorem new (h : t.Grows u brings) (hnone : t.at? l = none) {e : Entry}
    (hat : u.at? l = some e) : brings l e := by
  rcases h l with hu | ⟨-, f, hf, hbrings⟩
  · rw [hu, hnone] at hat
    cases hat
  · rw [hat] at hf
    exact (Option.some.inj hf) ▸ hbrings

theorem put (hl : l ≠ []) (hnone : t.at? l = none) {e : Entry} (he : brings l e) :
    t.Grows (t.put l e) brings := by
  intro m
  rw [at?_put t hl]
  split
  · rename_i heq
    subst heq
    exact .inr ⟨hnone, e, rfl, he⟩
  · exact .inl rfl

end Grows

/-! ## Directories that are made -/

theorem isDirectoryAt_put_directory (hne : l ≠ []) :
    (t.put l (.directory a)).isDirectoryAt l = true := by
  unfold isDirectoryAt
  rw [at?_put t hne, if_pos rfl]

/-- A walk that came to a gap comes to the directory that is put there. -/
theorem walkUntilLink_put_directory (hnone : t.at? (n :: d) = none) {slash : Bool}
    {onLink onLink' : Location → String → String → List String → Arrival}
    (hon : ∀ l s target rest, onLink l s target rest = .gap d n slash →
      onLink' l s target rest = .found (n :: d))
    (h : t.walkUntilLink onLink l segments = .gap d n slash) :
    (t.put (n :: d) (.directory a)).walkUntilLink onLink' l segments = .found (n :: d) := by
  have hne := List.cons_ne_nil n d
  have hext := extends_put hne hnone (.directory a)
  have hlinks := link_of_put (t := t) hne (.directory a) nofun
  have hput : (t.put (n :: d) (.directory a)).at? (n :: d) = some (.directory a) := by
    rw [at?_put t hne, if_pos rfl]
  induction segments generalizing l with
  | nil => cases h
  | cons s rest ih =>
    rw [walkUntilLink_cons] at h ⊢
    have hblocked : t.stepAt l s ≠ .blocked := by
      intro hblocked
      rw [hblocked] at h
      cases h
    rcases stepAt_of_extends hext hlinks (isDirectoryAt_of_stepAt hblocked) s with
      hsame | ⟨hmissing, hfilled⟩
    · rw [hsame]
      cases hstep : t.stepAt l s with
      | blocked => exact absurd hstep hblocked
      | missing =>
        rw [hstep] at h hsame
        dsimp only at h
        split at h
        · cases h
          rw [(stepAt_eq_missing hsame).2] at hput
          cases hput
        · cases h
      | on l' => rw [hstep] at h; exact ih h
      | link target => rw [hstep] at h; exact hon l s target rest h
    · rw [hmissing] at h
      rw [hfilled]
      dsimp only at h ⊢
      split at h
      · rename_i hall
        cases h
        have hidle : ∀ x ∈ rest, isIdle x = true := by
          intro x hx
          rw [eq_of_beq (List.all_eq_true.1 hall x hx)]
          rfl
        have hdir : (t.put (n :: d) (.directory a)).isDirectoryAt (n :: d) = true :=
          isDirectoryAt_put_directory hne
        have hend := walkUntilLink_idle onLink' hidle hdir []
        rwa [List.append_nil] at hend
      · cases h

theorem walkFrom_put_directory (hnone : t.at? (n :: d) = none) {slash followLast : Bool}
    (links : Nat) (h : t.walkFrom followLast links l segments = .gap d n slash) :
    (t.put (n :: d) (.directory a)).walkFrom followLast links l segments = .found (n :: d) := by
  induction links generalizing l segments with
  | zero =>
    refine walkUntilLink_put_directory hnone (fun l s target rest h => ?_) h
    split at h <;> cases h
  | succ links ih =>
    refine walkUntilLink_put_directory hnone (fun l s target rest h => ?_) h
    dsimp only at h ⊢
    split at h
    · cases h
    · rename_i hnot
      rw [if_neg hnot]
      exact ih h

theorem makeDirectory_adds (hp : Slashless p.segments) (hlast : p.segments.getLast? ≠ some "")
    (h : t.makeDirectory p a = .ok u) :
    ∃ l, l ≠ [] ∧ t.at? l = none ∧ u = t.put l (.directory a) ∧ u.locate? p = some l := by
  unfold makeDirectory at h
  split at h
  · rename_i d s slash hgap
    cases h
    have hne := List.cons_ne_nil s d
    have hnone := at?_of_walkToLink hp hgap
    refine ⟨s :: d, hne, hnone, rfl, locate?_eq_some_iff.2 (walk_eq_found_iff.2 ?_)⟩
    unfold walkToLink walkAll at hgap
    rw [withoutSlashes_of_getLast? hlast] at hgap
    split at hgap
    · cases hgap
    rename_i hnul
    refine ⟨by simpa using hnul, ?_⟩
    have hfound := walkFrom_put_directory (a := a) hnone mostLinks hgap
    -- what is put there is no link, so to follow it makes no difference
    rcases walkFrom_follow (t := t.put (s :: d) (.directory a)) mostLinks [] p.segments with
      hsame | ⟨m, target, hm, hlink⟩
    · exact hsame.symm.trans hfound
    · obtain rfl := Arrival.found.inj (hm.symm.trans hfound)
      rw [at?_put t hne, if_pos rfl] at hlink
      cases hlink
  all_goals cases h

theorem grows_makeDirectories {ps : List Path} (hps : ∀ p ∈ ps, Slashless p.segments)
    (hlast : ∀ p ∈ ps, p.segments.getLast? ≠ some "") :
    t.Grows (t.makeDirectories ps).1 fun l e =>
      e = .directory .everyone ∧ ∃ p ∈ ps, (t.makeDirectories ps).1.locate? p = some l := by
  induction ps with
  | nil => exact .refl t _
  | cons p above ih =>
    have hp := hps p List.mem_cons_self
    have hplast := hlast p List.mem_cons_self
    have ih := ih (fun q hq => hps q (List.mem_cons_of_mem _ hq))
      fun q hq => hlast q (List.mem_cons_of_mem _ hq)
    have hmade : ∀ {v w : Tree}, v.makeDirectory p .everyone = .ok w → v.Grows w fun l e =>
        e = .directory .everyone ∧ ∃ q ∈ p :: above, w.locate? q = some l := by
      intro v w hw
      obtain ⟨l, hl, hnone, rfl, hat⟩ := makeDirectory_adds hp hplast hw
      exact .put hl hnone ⟨rfl, p, List.mem_cons_self, hat⟩
    rw [makeDirectories]
    split
    · rename_i w hw
      exact hmade hw
    · exact .refl t _
    · split
      · rename_i v hv
        rw [hv] at ih
        refine ih.mono ?_
        rintro l e ⟨he, q, hq, hat⟩
        exact ⟨he, q, List.mem_cons_of_mem _ hq, hat⟩
      · rename_i v hv
        rw [hv] at ih
        split
        · rename_i w hw
          have hkeeps := keeps_makeDirectory hp hw
          refine Grows.trans (ih.mono ?_) (hmade hw)
          rintro l e ⟨he, q, hq, hat⟩
          exact ⟨he, q, List.mem_cons_of_mem _ hq,
            locate?_eq_some_iff.2 (hkeeps.walk (locate?_eq_some_iff.1 hat))⟩
        · refine ih.mono ?_
          rintro l e ⟨he, q, hq, hat⟩
          exact ⟨he, q, List.mem_cons_of_mem _ hq, hat⟩

/-! ## A file that is written -/

theorem Puts.locate? (hp : Slashless p.segments) (h : t.Puts p k) :
    (t.put k (.file content)).locate? p = some k := by
  have hwrite : t.write? p content = some (t.put k (.file content)) :=
    (write?_eq_some_iff hp).2 ⟨k, h, rfl⟩
  have hk := h.takesFile
  cases h with
  | onFile hfound hat => rw [locate?_eq_some_iff, walk_put_file hat, hfound]
  | @inGap d n hgap hnone =>
    obtain ⟨m, hm, -⟩ := Option.bind_eq_some_iff.1 (find?_write? hp hwrite)
    obtain ⟨hnul, hfound⟩ := walk_eq_found_iff.1 (locate?_eq_some_iff.1 hm)
    -- only by what was put there can the walk have come to an end
    have heq : m = n :: d := by
      by_contra hne
      have hbefore := (fromRoot_agrees hk content p.segments m).2 hfound hne
      rw [walk_eq_found_iff.2 ⟨hnul, hbefore⟩] at hgap
      cases hgap
    exact heq ▸ hm

/-- What is written to a path is put where the path leads then; if something was there, the path
led to it before. -/
theorem write?_place (hp : Slashless p.segments) (h : t.write? p content = some u) :
    ∃ l, t.TakesFile l ∧ u = t.put l (.file content) ∧ u.locate? p = some l ∧
      (t.at? l = none ∨ t.locate? p = some l) := by
  obtain ⟨l, hputs, rfl⟩ := (write?_eq_some_iff hp).1 h
  refine ⟨l, hputs.takesFile, rfl, hputs.locate? hp, ?_⟩
  cases hputs with
  | onFile hfound => exact .inr (locate?_eq_some_iff.2 hfound)
  | inGap _ hnone => exact .inl hnone

theorem put_put (t : Tree) (l : Location) (e f : Entry) : (t.put l e).put l f = t.put l f := by
  unfold put
  simp [List.filter_filter]

theorem write?_write? (hp : Slashless p.segments) (h : t.write? p content = some u)
    (content' : ByteArray) : ∃ v, t.write? p content' = some v ∧ u.write? p content' = some v := by
  obtain ⟨k, hputs, rfl⟩ := (write?_eq_some_iff hp).1 h
  have hat : (t.put k (.file content)).at? k = some (.file content) := by
    rw [at?_put t hputs.takesFile.1, if_pos rfl]
  have hfound : (t.put k (.file content)).walk p = .found k :=
    locate?_eq_some_iff.1 (hputs.locate? hp)
  refine ⟨t.put k (.file content'), (write?_eq_some_iff hp).2 ⟨k, hputs, rfl⟩,
    (write?_eq_some_iff hp).2 ⟨k, .onFile hfound hat, (put_put ..).symm⟩⟩

theorem write?_again (hp : Slashless p.segments) (h : t.write? p content = some u) :
    u.write? p content = some u := by
  obtain ⟨v, hv, hagain⟩ := write?_write? hp h content
  rw [hagain, ← hv, h]

/-- In a directory a file is put under its name, or where a link of that name leads. -/
theorem Reaches.place_eq (h : t.Reaches segments k) (hn : IsPlainName n)
    (hl : t.locate? ⟨segments ++ [n]⟩ = some l) :
    l = n :: k ∨ ∃ target, t.at? (n :: k) = some (.link target) := by
  cases hat : t.at? (n :: k) with
  | none =>
    rw [locate?_eq_some_iff, h.walk_none hn hat] at hl
    cases hl
  | some e =>
    cases e with
    | link target => exact .inr ⟨target, rfl⟩
    | file | directory =>
      have hfound := h.walk_some hn hat fun _ => Entry.noConfusion
      rw [locate?_eq_some_iff, hfound] at hl
      cases hl
      exact .inl rfl

end Tree

namespace Action

variable {t t' : Tree} {p : Path} {n text : String} {r : Except Error Unit}

/-- Every outcome of writing a file: its directories are made as far as they can be, and if all of
them are there, it may be written. -/
theorem perform_writeText_cases (hn : IsPlainName n)
    (h : (writeText (p.join n) text).perform t = (r, t')) :
    (r = .ok () ∧ ∃ v, t.makeDirectories (p.join n).parents = (v, true) ∧
      v.write? (p.join n) text.toUTF8 = some t') ∨
    ((∃ e, r = .error e) ∧ t' = (t.makeDirectories (p.join n).parents).1 ∧
      ∀ v, t.makeDirectories (p.join n).parents = (v, true) →
        v.write? (p.join n) text.toUTF8 = none) := by
  obtain ⟨q, hq⟩ : ∃ q, (p.join n).parent? = some q := by
    unfold Path.parent?
    rw [Path.parents_join p hn]
    exact ⟨_, rfl⟩
  unfold writeText at h
  simp only [hq] at h
  rw [Path.parents_of_parent? hq]
  cases hmade : t.makeDirectories q.ancestors with
  | mk v made =>
    have hparents : (makeDirectories q).perform t = if made then (.ok (), v) else
        (.error (.other ("Failed to create directory: " ++ q.text)), v) := by
      unfold makeDirectories
      rw [perform_get_bind]
      simp only [hmade]
      cases made <;> rfl
    cases made with
    | false =>
      rw [perform_bind_of_error hparents] at h
      cases h
      exact .inr ⟨⟨_, rfl⟩, rfl, nofun⟩
    | true =>
      rw [perform_bind_of_ok hparents] at h
      rcases perform_replace_cases h with ⟨rfl, hwrite⟩ | ⟨herror, hwrite, rfl⟩
      · exact .inl ⟨rfl, v, rfl, hwrite⟩
      · refine .inr ⟨herror, rfl, ?_⟩
        rintro v' hv
        cases hv
        exact hwrite

end Action

end Scaffold
