import Scaffold.Json.File
import Scaffold.Proofs.Tree.Walk

/-!
# What actions do

`perform` runs an action on a tree. The first lemmas run the building blocks; `perform_bind_ok`
takes a run that succeeded apart. The others say what is in the tree after a file was written.
-/

namespace Scaffold

namespace Action

variable {α β : Type} {t t' : Tree}

@[simp] theorem perform_pure (a : α) : (pure a : Action α).perform t = (.ok a, t) := rfl

@[simp] theorem perform_throw (e : Error) : (throw e : Action α).perform t = (.error e, t) := rfl

@[simp] theorem perform_get : (get : Action Tree).perform t = (.ok t, t) := rfl

@[simp] theorem perform_set (u : Tree) : (set u : Action PUnit).perform t = (.ok ⟨⟩, u) := rfl

@[simp] theorem perform_ofExcept_ok (a : α) : (ofExcept (.ok a)).perform t = (.ok a, t) := rfl

@[simp] theorem perform_ofExcept_error (e : Error) :
    (ofExcept (.error e) : Action α).perform t = (.error e, t) := rfl

theorem perform_bind (a : Action α) (f : α → Action β) (t : Tree) :
    (a >>= f).perform t =
      match a.perform t with
      | (.ok x, u) => (f x).perform u
      | (.error e, u) => (.error e, u) := by
  have h : ∀ r : Except Error α × Tree, (ExceptT.bindCont f r.1).run r.2 =
      match r with
      | (.ok x, u) => (f x).perform u
      | (.error e, u) => (.error e, u) := by
    rintro ⟨_ | _, _⟩ <;> rfl
  exact h (a.perform t)

theorem perform_tryCatch (a : Action α) (f : Error → Action α) (t : Tree) :
    (tryCatch a f).perform t =
      match a.perform t with
      | (.ok x, u) => (.ok x, u)
      | (.error e, u) => (f e).perform u := by
  unfold perform
  simp only [tryCatch, tryCatchThe, MonadExceptOf.tryCatch, ExceptT.tryCatch, ExceptT.run,
    ExceptT.mk, StateT.run, bind, StateT.bind]
  rcases a t with ⟨_ | _, _⟩ <;> rfl

theorem perform_bind_of_ok {a : Action α} {f : α → Action β} {x : α}
    (h : a.perform t = (.ok x, t')) : (a >>= f).perform t = (f x).perform t' := by
  rw [perform_bind, h]

theorem perform_bind_of_error {a : Action α} {f : α → Action β} {e : Error}
    (h : a.perform t = (.error e, t')) : (a >>= f).perform t = (.error e, t') := by
  rw [perform_bind, h]

@[simp] theorem perform_get_bind (f : Tree → Action β) : (get >>= f).perform t = (f t).perform t :=
  perform_bind_of_ok perform_get

theorem perform_bind_ok {a : Action α} {f : α → Action β} {y : β}
    (h : (a >>= f).perform t = (.ok y, t')) :
    ∃ x u, a.perform t = (.ok x, u) ∧ (f x).perform u = (.ok y, t') := by
  rw [perform_bind] at h
  split at h
  · rename_i x u hx
    exact ⟨x, u, hx, h⟩
  · cases h

theorem perform_bind_cases {a : Action α} {f : α → Action β} {r : Except Error β}
    (h : (a >>= f).perform t = (r, t')) :
    (∃ e, a.perform t = (.error e, t') ∧ r = .error e) ∨
      ∃ x u, a.perform t = (.ok x, u) ∧ (f x).perform u = (r, t') := by
  rw [perform_bind] at h
  split at h
  · rename_i x u hx
    exact .inr ⟨x, u, hx, h⟩
  · rename_i e u he
    cases h
    exact .inl ⟨e, he, rfl⟩

theorem eq_ok_of_toOption {ε : Type} {r : Except ε α} {x : α} (h : r.toOption = some x) : r = .ok x := by
  cases r with
  | ok a =>
    cases h
    rfl
  | error e => cases h

theorem perform_of_toOption {a : Action α} {x : α} (h : (a.perform t).1.toOption = some x) :
    ∃ t', a.perform t = (.ok x, t') :=
  ⟨(a.perform t).2, Prod.ext (eq_ok_of_toOption h) rfl⟩

theorem perform_of_fst {a : Action α} {r : Except Error α} (h : (a.perform t).1 = r) :
    ∃ t', a.perform t = (r, t') :=
  ⟨(a.perform t).2, Prod.ext h rfl⟩

theorem snd_perform {a : Action α} {r : Except Error α} (h : a.perform t = (r, t')) :
    (a.perform t).2 = t' := by
  rw [h]

theorem perform_ofExcept_ok_iff {r : Except Error α} {x : α} :
    (ofExcept r).perform t = (.ok x, t') ↔ r = .ok x ∧ t' = t := by
  cases r with
  | ok a => simp [eq_comm]
  | error e => simp

theorem perform_require_ok_iff {message : String} {o : Option α} {x : α} :
    (require message o).perform t = (.ok x, t') ↔ o = some x ∧ t' = t := by
  cases o with
  | some a => simp [require, eq_comm]
  | none => simp [require]

theorem perform_replace_ok_iff {message : String} {change : Tree → Option Tree} {u : PUnit} :
    (replace message change).perform t = (.ok u, t') ↔ change t = some t' := by
  unfold replace
  rw [perform_get_bind]
  constructor
  · intro h
    obtain ⟨x, v, h1, h2⟩ := perform_bind_ok h
    obtain ⟨hx, rfl⟩ := perform_require_ok_iff.1 h1
    rw [perform_set] at h2
    cases h2
    exact hx
  · intro h
    rw [perform_bind_of_ok (perform_require_ok_iff.2 ⟨h, rfl⟩), perform_set]

theorem perform_replace_cases {message : String} {change : Tree → Option Tree}
    {r : Except Error Unit} (h : (replace message change).perform t = (r, t')) :
    (r = .ok () ∧ change t = some t') ∨ (∃ e, r = .error e) ∧ change t = none ∧ t' = t := by
  unfold replace at h
  rw [perform_get_bind] at h
  cases hchange : change t with
  | some u =>
    rw [hchange] at h
    cases h
    exact .inl ⟨rfl, rfl⟩
  | none =>
    rw [hchange] at h
    cases h
    exact .inr ⟨⟨_, rfl⟩, rfl, rfl⟩

/-! ## Actions that read -/

/-- Whatever comes of the action, the tree stays as it is. -/
def Reads (a : Action α) : Prop :=
  ∀ t, (a.perform t).2 = t

theorem reads_pure (a : α) : (pure a : Action α).Reads := fun _ => rfl

theorem reads_get : (get : Action Tree).Reads := fun _ => rfl

theorem reads_ofExcept (r : Except Error α) : (ofExcept r).Reads := by
  intro t
  cases r <;> rfl

theorem reads_require (message : String) (o : Option α) : (require message o).Reads := by
  intro t
  cases o <;> rfl

theorem Reads.bind {a : Action α} {f : α → Action β} (ha : a.Reads) (hf : ∀ x, (f x).Reads) :
    (a >>= f).Reads := by
  intro t
  have h := ha t
  rw [perform_bind]
  split
  · rename_i x u hx
    rw [hx] at h
    cases h
    exact hf x u
  · rename_i e u hx
    rw [hx] at h
    exact h

theorem reads_readText (p : Path) : (readText p).Reads :=
  reads_get.bind fun _ => reads_require _ _

theorem Reads.perform_eq {a : Action α} (ha : a.Reads) {r : Except Error α}
    (h : a.perform t = (r, t')) : t' = t := by
  rw [← ha t, h]

/-! ## Errors that do not come up -/

/-- The action never fails with the error `e`. -/
def Avoids (a : Action α) (e : Error) : Prop :=
  ∀ t u, a.perform t ≠ (.error e, u)

variable {e : Error}

theorem avoids_pure (a : α) : (pure a : Action α).Avoids e := nofun

theorem avoids_get : (get : Action Tree).Avoids e := nofun

theorem avoids_ofExcept {r : Except Error α} (h : r ≠ .error e) : (ofExcept r).Avoids e := by
  intro t u hr
  cases r with
  | ok a => cases hr
  | error e' =>
    cases hr
    exact h rfl

theorem avoids_require {message : String} (h : e ≠ .other message) (o : Option α) :
    (require message o).Avoids e := by
  intro t u ho
  cases o with
  | some a => cases ho
  | none =>
    cases ho
    exact h rfl

theorem Avoids.bind {a : Action α} {f : α → Action β} (ha : a.Avoids e)
    (hf : ∀ x, (f x).Avoids e) : (a >>= f).Avoids e := by
  intro t u h
  rw [perform_bind] at h
  split at h
  · rename_i x v hx
    exact hf x v u h
  · rename_i e' v hx
    cases h
    exact ha t u hx

end Action

/-! ## Files that were written -/

theorem fromUTF8?_toUTF8 (s : String) : String.fromUTF8? s.toUTF8 = some s := by
  have h : s.toUTF8.IsValidUTF8 := s.isValidUTF8
  unfold String.fromUTF8?
  rw [dif_pos h]
  rfl

namespace Tree

theorem at?_ne_nil_of_file {t : Tree} {l : Location} {content : ByteArray}
    (h : t.at? l = some (.file content)) : l ≠ [] := by
  rintro rfl
  cases h

theorem isFile_iff {t : Tree} {p : Path} :
    t.isFile p = true ↔ ∃ l before, t.locate? p = some l ∧ t.at? l = some (.file before) := by
  unfold isFile find?
  constructor
  · intro h
    split at h
    · exact ⟨_, _, (Option.bind_eq_some_iff.1 ‹_›).choose_spec⟩
    · cases h
  · rintro ⟨l, before, hl, hat⟩
    rw [hl, Option.bind_some, hat]

theorem isFile_of_text? {t : Tree} {p : Path} {text : String} (h : t.text? p = some text) :
    t.isFile p = true := by
  unfold text? at h
  unfold isFile
  split at h
  · rfl
  · cases h

theorem write?_of_isFile {t : Tree} {p : Path} (h : t.isFile p = true) (content : ByteArray) :
    ∃ u, t.write? p content = some u := by
  obtain ⟨l, before, hl, hat⟩ := isFile_iff.1 h
  have hwalk : t.walk p = .found l := by
    unfold locate? at hl
    split at hl
    · rename_i hfound
      cases hl
      exact hfound
    · cases hl
  unfold write?
  rw [hwalk]
  simp only [hat]
  exact ⟨_, rfl⟩

/-- A file with other content is walked by like the one before. -/
theorem walkUntilLink_put_file {t : Tree} {l : Location} {before content : ByteArray}
    (h : t.at? l = some (.file before))
    {onLink onLink' : Location → String → String → List String → Arrival}
    (hon : ∀ m s target rest, onLink m s target rest = onLink' m s target rest)
    (m : Location) (segments : List String) :
    (t.put l (.file content)).walkUntilLink onLink m segments =
      t.walkUntilLink onLink' m segments := by
  have htakes : t.TakesFile l := ⟨at?_ne_nil_of_file h, fun e he => by
    rw [h] at he
    exact ⟨before, (Option.some.inj he).symm⟩⟩
  induction segments generalizing m with
  | nil => rfl
  | cons s rest ih =>
    have hstep : (t.put l (.file content)).stepAt m s = t.stepAt m s := by
      rcases stepAt_put_file htakes content m s with hsame | ⟨rfl, hmissing, -⟩
      · exact hsame
      · rw [(stepAt_eq_missing hmissing).2] at h
        cases h
    rw [walkUntilLink_cons, walkUntilLink_cons, hstep]
    cases t.stepAt m s with
    | blocked => rfl
    | missing => rfl
    | on l' => exact ih l'
    | link target => exact hon m s target rest

theorem walk_put_file {t : Tree} {l : Location} {before content : ByteArray}
    (h : t.at? l = some (.file before)) (p : Path) :
    (t.put l (.file content)).walk p = t.walk p := by
  have hfrom : ∀ links m segments, (t.put l (.file content)).walkFrom true links m segments =
      t.walkFrom true links m segments := by
    intro links
    induction links with
    | zero => exact walkUntilLink_put_file h fun _ _ _ _ => rfl
    | succ links ih =>
      refine walkUntilLink_put_file h fun m s target rest => ?_
      dsimp only
      rw [ih]
  unfold walk walkAll
  rw [hfrom]

theorem at?_of_walkToLink {t : Tree} {p : Path} (hp : Slashless p.segments) {l : Location}
    {s : String} {slash : Bool} (h : t.walkToLink p = .gap l s slash) : t.at? (s :: l) = none := by
  have hslash : Slashless (p.segments.reverse.dropWhile (· == "")).reverse := fun x hx =>
    hp x (List.mem_reverse.1 ((List.dropWhile_sublist _).subset (List.mem_reverse.1 hx)))
  unfold walkToLink walkAll at h
  split at h
  · cases h
  rcases walkFrom_follow (t := t) mostLinks [] (p.segments.reverse.dropWhile (· == "")).reverse with
    hfollow | ⟨m, _, hfollow, -⟩
  · have hsettled := walkFrom_settled (t := t) mostLinks (l := []) trivial hslash
    rw [← hfollow, h] at hsettled
    exact hsettled.2.2.2
  · rw [hfollow] at h
    cases h

theorem text?_makeDirectory {t t' : Tree} {p q : Path} (hq : Slashless q.segments) {text : String}
    (htext : t.text? p = some text) {a : Access} (h : t.makeDirectory q a = .ok t') :
    t'.text? p = some text := by
  unfold makeDirectory at h
  split at h
  · rename_i l s slash hgap
    cases h
    have hnone := at?_of_walkToLink hq hgap
    have hput := at?_put t (List.cons_ne_nil s l) (.directory a)
    have hlinks := link_of_put (t := t) (List.cons_ne_nil s l) (.directory a) fun _ =>
      Entry.noConfusion
    have hwalk := walk_fills (extends_put (List.cons_ne_nil s l) hnone (.directory a)) hlinks p
    unfold text? find? locate? at htext ⊢
    cases hw : t.walk p with
    | found m =>
      rw [hw] at htext
      rw [hwalk.1 m hw]
      have hm : m ≠ s :: l := by
        rintro rfl
        rw [Option.bind_some, hnone] at htext
        cases htext
      rw [Option.bind_some, hput, if_neg hm]
      exact htext
    | _ => rw [hw] at htext; cases htext
  all_goals cases h

theorem find?_write? {t t' : Tree} {p : Path} (hp : Slashless p.segments) {content : ByteArray}
    (h : t.write? p content = some t') : t'.find? p = some (.file content) := by
  unfold write? at h
  split at h
  · rename_i l hl
    split at h
    · rename_i before hat
      cases h
      unfold find? locate?
      rw [walk_put_file hat, hl]
      simp [at?_put t (at?_ne_nil_of_file hat)]
    · cases h
  · rename_i l s hl
    cases h
    have hput := at?_put t (List.cons_ne_nil s l) (.file content)
    have hgap : t.Settled (.gap l s false) := hl ▸ walk_settled hp
    have hext := extends_put (List.cons_ne_nil s l) hgap.2.2.2 (.file content)
    have hlinks := link_of_put (t := t) (List.cons_ne_nil s l) (.file content) fun _ =>
      Entry.noConfusion
    rcases (walk_fills hext hlinks p).2 l s hl with hw | hw
    · -- the gap is filled, so no walk can end there
      have hset : (t.put (s :: l) (.file content)).Settled (.gap l s false) := hw ▸ walk_settled hp
      have hnone := hset.2.2.2
      rw [hput, if_pos rfl] at hnone
      cases hnone
    · simp [find?, locate?, hw, hput]
  · cases h

end Tree

namespace Action

theorem perform_makeDirectories_ok {t t' : Tree} {p : Path} {u : Unit}
    (h : (makeDirectories p).perform t = (.ok u, t')) :
    t.makeDirectories p.ancestors = (t', true) := by
  unfold makeDirectories at h
  rw [perform_get_bind] at h
  cases hmade : t.makeDirectories p.ancestors with
  | mk v made =>
    rw [hmade] at h
    cases made with
    | true => cases h; rfl
    | false => cases h

theorem perform_writeText_ok {t t' : Tree} {p : Path} {text : String} {u : Unit}
    (h : (writeText p text).perform t = (.ok u, t')) :
    ∃ v : Tree, (∀ parent ∈ p.parent?, t.makeDirectories parent.ancestors = (v, true)) ∧
      v.write? p text.toUTF8 = some t' := by
  unfold writeText at h
  cases hparent : p.parent? with
  | none =>
    simp only [hparent] at h
    exact ⟨t, nofun, perform_replace_ok_iff.1 h⟩
  | some parent =>
    simp only [hparent] at h
    obtain ⟨_, v, hmade, hwrite⟩ := perform_bind_ok h
    refine ⟨v, fun q hq => ?_, perform_replace_ok_iff.1 hwrite⟩
    cases hq
    exact perform_makeDirectories_ok hmade

theorem text?_of_writeText {t t' : Tree} {p : Path} (hp : Slashless p.segments) {text : String}
    {u : Unit} (h : (writeText p text).perform t = (.ok u, t')) : t'.text? p = some text := by
  obtain ⟨v, -, hv⟩ := perform_writeText_ok h
  unfold Tree.text?
  rw [Tree.find?_write? hp hv]
  exact fromUTF8?_toUTF8 text

theorem text?_of_makePrivateDirectory {t t' : Tree} {p q : Path} (hq : Slashless q.segments)
    {text : String} {u : Unit} (htext : t.text? p = some text)
    (h : (makePrivateDirectory q).perform t = (.ok u, t')) : t'.text? p = some text := by
  unfold makePrivateDirectory at h
  have hmade := perform_replace_ok_iff.1 h
  cases hdir : t.makeDirectory q .ownerOnly with
  | ok v =>
    rw [hdir] at hmade
    cases hmade
    exact Tree.text?_makeDirectory hq htext hdir
  | error e => rw [hdir] at hmade; cases hmade

theorem text?_of_write {t t' : Tree} {p : Path} (hp : Slashless p.segments)
    {d : Text.Dictionary} {u : Unit} (h : (Json.write p d).perform t = (.ok u, t')) :
    t'.text? p = some d.toJson := by
  unfold Json.write at h
  rw [perform_tryCatch] at h
  split at h
  · rename_i x v hx
    cases h
    exact text?_of_writeText hp hx
  · cases h

end Action

end Scaffold
