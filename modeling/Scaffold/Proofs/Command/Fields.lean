import Scaffold.Command.Run
import Scaffold.Proofs.Project.Init
import Scaffold.Proofs.Source.Declaration
import Scaffold.Proofs.Text.Blank

/-!
# What the fields of a command give

A field gives a text to a key: `Gives` says so of the field as it is written, `IsFaulty` says what
is wrong with one that gives nothing. The first faulty field ends the command before anything is
made. Otherwise the last field that names a key decides on its value (`LastGives`), in whatever
order the fields for other keys stand (`Reordered`), and the project is made with these values
(`init_takes_fields`).
-/

namespace Scaffold

open Scaffold.Text
open Scaffold.Source (IsFirst)

namespace Field

/-! ## One field -/

section

variable {field f g key key' value value' : String}

/-- What stands before the first equals sign of `field` is `key`, blanks aside, and everything
behind that sign is `value`. -/
structure Gives (field key value : String) : Prop where
  named : key ≠ ""
  cut : ∃ before, field.toList = before ++ '=' :: value.toList ∧ '=' ∉ before ∧
    Trims before key.toList

/-- There is no equals sign in `field`, or nothing but blanks before it. -/
def IsFaulty (field : String) : Prop :=
  '=' ∉ field.toList ∨
    ∃ before behind, field.toList = before ++ '=' :: behind ∧ ∀ c ∈ before, isBlank c = true

/-- `field` gives something to `key`. -/
def Names (field key : String) : Prop :=
  ∃ value, Gives field key value

/-- The two fields name different keys. -/
def Apart (f g : String) : Prop :=
  ∀ key, Names f key → ¬ Names g key

theorem parseField_of_gives (h : Gives field key value) :
    parseField field = .ok (key, value) := by
  obtain ⟨hnamed, before, hfield, hbefore, htrims⟩ := h
  have hcut : cutFirst? '=' field.toList = some (before, value.toList) :=
    cutFirst?_eq_some_iff.2 ⟨hfield, hbefore⟩
  unfold parseField
  simp [hcut, trim_eq_iff.2 htrims, hnamed]

theorem parseField_of_isFaulty (h : IsFaulty field) :
    parseField field = .error (.invalidField field) := by
  unfold parseField
  rcases h with hnone | ⟨before, behind, hfield, hblank⟩
  · rw [cutFirst?_eq_none_iff.2 hnone]
  · have hbefore : '=' ∉ before := fun hmem => absurd (hblank _ hmem) (by decide)
    rw [cutFirst?_eq_some_iff.2 ⟨hfield, hbefore⟩]
    simp [trim_eq_nil_iff.2 hblank]

theorem isFaulty_or_gives (field : String) :
    IsFaulty field ∨ ∃ key value, Gives field key value := by
  cases hcut : cutFirst? '=' field.toList with
  | none => exact .inl (.inl (cutFirst?_eq_none_iff.1 hcut))
  | some parts =>
    obtain ⟨before, behind⟩ := parts
    obtain ⟨hfield, hbefore⟩ := cutFirst?_eq_some_iff.1 hcut
    by_cases hblank : trim before = []
    · exact .inl (.inr ⟨before, behind, hfield, trim_eq_nil_iff.1 hblank⟩)
    · have htrims : Trims before (String.ofList (trim before)).toList :=
        trim_eq_iff.1 (String.toList_ofList).symm
      exact .inr ⟨String.ofList (trim before), String.ofList behind, by simpa using hblank, before,
        by simpa using hfield, hbefore, htrims⟩

theorem Gives.not_isFaulty (h : Gives field key value) : ¬ IsFaulty field := by
  intro hfaulty
  have hok := parseField_of_gives h
  rw [parseField_of_isFaulty hfaulty] at hok
  cases hok

theorem Gives.unique (h : Gives field key value) (h' : Gives field key' value') :
    key = key' ∧ value = value' := by
  have hok := (parseField_of_gives h).symm.trans (parseField_of_gives h')
  exact Prod.mk.inj (Except.ok.inj hok)

theorem Gives.apart (hf : Gives f key value) (hg : Gives g key' value') (h : key ≠ key') :
    Apart f g := by
  rintro other ⟨v, hv⟩ ⟨w, hw⟩
  exact h ((hf.unique hv).1.trans (hg.unique hw).1.symm)

theorem Apart.symm (h : Apart f g) : Apart g f :=
  fun key hg hf => h key hf hg

instance (field key value : String) : Decidable (Gives field key value) :=
  decidable_of_iff ((parseField field).toOption = some (key, value)) <| by
    rcases isFaulty_or_gives field with hfaulty | ⟨key', value', hgives⟩
    · have hnot : ¬ Gives field key value := fun h => h.not_isFaulty hfaulty
      simp [parseField_of_isFaulty hfaulty, Except.toOption, hnot]
    · rw [parseField_of_gives hgives]
      constructor
      · intro h
        cases h
        exact hgives
      · intro h
        obtain ⟨rfl, rfl⟩ := hgives.unique h
        rfl

instance (field : String) : Decidable (IsFaulty field) :=
  decidable_of_iff ((parseField field).toOption = none) <| by
    rcases isFaulty_or_gives field with hfaulty | ⟨key, value, hgives⟩
    · simp [parseField_of_isFaulty hfaulty, Except.toOption, hfaulty]
    · simp [parseField_of_gives hgives, Except.toOption, hgives.not_isFaulty]

example : Gives " tag =a=b " "tag" "a=b " := by decide +kernel

end

/-! ## Many fields -/

section

variable {fields fields' : List String} {key value : String} {es : List (String × String)}

/-- Of the fields that name `key` the last one gives it `value`. -/
def LastGives (fields : List String) (key value : String) : Prop :=
  ∃ before field behind, fields = before ++ field :: behind ∧ Gives field key value ∧
    ∀ f ∈ behind, ¬ Names f key

theorem lastGives_nil : ¬ LastGives [] key value := by
  rintro ⟨before, field, behind, hfields, -⟩
  cases before <;> cases hfields

theorem lastGives_cons {field : String} : LastGives (field :: fields) key value ↔
    LastGives fields key value ∨ Gives field key value ∧ ∀ f ∈ fields, ¬ Names f key := by
  constructor
  · rintro ⟨before, f, behind, hfields, hgives, hbehind⟩
    cases before with
    | nil =>
      cases hfields
      exact .inr ⟨hgives, hbehind⟩
    | cons _ before =>
      cases hfields
      exact .inl ⟨before, f, behind, rfl, hgives, hbehind⟩
  · rintro (⟨before, f, behind, rfl, hgives, hbehind⟩ | ⟨hgives, hbehind⟩)
    · exact ⟨field :: before, f, behind, rfl, hgives, hbehind⟩
    · exact ⟨[], field, fields, rfl, hgives, hbehind⟩

/-- A key has a value as soon as a field names it. -/
theorem exists_lastGives_iff :
    (∃ value, LastGives fields key value) ↔ ∃ f ∈ fields, Names f key := by
  induction fields with
  | nil => simp [lastGives_nil]
  | cons field fields ih =>
    simp only [lastGives_cons, exists_or, ih, exists_and_right, List.exists_mem_cons_iff]
    constructor
    · rintro (h | ⟨h, -⟩)
      · exact .inr h
      · exact .inl h
    · rintro (h | h)
      · by_cases hbehind : ∃ f ∈ fields, Names f key
        · exact .inl hbehind
        · exact .inr ⟨h, fun f hf hnames => hbehind ⟨f, hf, hnames⟩⟩
      · exact .inl h

/-- To insert what fields give, one after another, leaves under a key what the last one gives. -/
theorem get?_insertAll_iff (h : List.Forall₂ (fun f e => Gives f e.1 e.2) fields es)
    (d : Dictionary) : (d.insertAll es).get? key = some value ↔
      LastGives fields key value ∨ d.get? key = some value ∧ ∀ f ∈ fields, ¬ Names f key := by
  induction h generalizing d with
  | nil => simp [Dictionary.insertAll, lastGives_nil]
  | @cons field e fields es hgives _ ih =>
    have hstep : d.insertAll (e :: es) = (d.insert e.1 e.2).insertAll es := rfl
    rw [hstep, ih, Dictionary.get?_insert, lastGives_cons, List.forall_mem_cons]
    by_cases hkey : e.1 = key
    · subst hkey
      have hiff : Gives field e.1 value ↔ e.2 = value :=
        ⟨fun h => (hgives.unique h).2, fun h => h ▸ hgives⟩
      have hnames : Names field e.1 := ⟨e.2, hgives⟩
      simp [hiff, hnames]
    · have hnames : ¬ Names field key := fun ⟨_, h⟩ => hkey (hgives.unique h).1
      have hnot : ¬ Gives field key value := fun h => hnames ⟨value, h⟩
      simp [hkey, hnames, hnot]

/-- Reading fields ends at the first faulty one, or each of them gives its entry. -/
theorem mapM_parseField_cases (fields : List String) :
    (∃ field, IsFirst IsFaulty fields field ∧
        fields.mapM parseField = .error (.invalidField field)) ∨
      ∃ es, List.Forall₂ (fun f e => Gives f e.1 e.2) fields es ∧
        fields.mapM parseField = .ok es := by
  induction fields with
  | nil => exact .inr ⟨[], .nil, rfl⟩
  | cons field fields ih =>
    rw [List.mapM_cons]
    rcases isFaulty_or_gives field with hfaulty | ⟨key, value, hgives⟩
    · rw [parseField_of_isFaulty hfaulty]
      exact .inl ⟨field, ⟨[], fields, rfl, hfaulty, nofun⟩, rfl⟩
    · rw [parseField_of_gives hgives]
      rcases ih with ⟨f, ⟨before, behind, rfl, hfaulty, hbefore⟩, herror⟩ | ⟨es, hes, hok⟩
      · refine .inl ⟨f, ⟨field :: before, behind, rfl, hfaulty, ?_⟩, by rw [herror]; rfl⟩
        exact List.forall_mem_cons.2 ⟨hgives.not_isFaulty, hbefore⟩
      · exact .inr ⟨(key, value) :: es, .cons hgives hes, by rw [hok]; rfl⟩

theorem parseFields_of_isFaulty (h : ∃ f ∈ fields, IsFaulty f) :
    ∃ field, IsFirst IsFaulty fields field ∧ parseFields fields = .error (.invalidField field) := by
  unfold parseFields
  rcases mapM_parseField_cases fields with ⟨field, hfirst, herror⟩ | ⟨es, hes, -⟩
  · exact ⟨field, hfirst, by rw [herror]; rfl⟩
  · obtain ⟨f, hf, hfaulty⟩ := h
    have hsound : ∀ f ∈ fields, ¬ IsFaulty f :=
      ((List.forall₂_and_left _ _).1 (hes.imp fun f e h => ⟨h.not_isFaulty, h⟩)).1
    exact absurd hfaulty (hsound f hf)

theorem parseFields_of_not_isFaulty (h : ∀ f ∈ fields, ¬ IsFaulty f) :
    ∃ inputs, parseFields fields = .ok inputs ∧
      ∀ key value, inputs.get? key = some value ↔ LastGives fields key value := by
  unfold parseFields
  rcases mapM_parseField_cases fields with ⟨f, ⟨_, _, rfl, hfaulty, -⟩, -⟩ | ⟨es, hes, hok⟩
  · exact absurd hfaulty (h f (by simp))
  · refine ⟨.ofList es, by rw [hok]; rfl, fun key value => ?_⟩
    rw [Dictionary.ofList, get?_insertAll_iff hes]
    simp

/-! ## Orders -/

/-- `fields'` are `fields` after swaps of neighbours that name different keys. -/
inductive Reordered : (fields fields' : List String) → Prop where
  | nil : Reordered [] []
  | cons (f : String) {fields fields' : List String} :
      Reordered fields fields' → Reordered (f :: fields) (f :: fields')
  | swap {f g : String} (fields : List String) :
      Apart f g → Reordered (f :: g :: fields) (g :: f :: fields)
  | trans {fields fields' fields'' : List String} :
      Reordered fields fields' → Reordered fields' fields'' → Reordered fields fields''

theorem Reordered.perm (h : Reordered fields fields') : fields.Perm fields' := by
  induction h with
  | nil => exact .nil
  | cons f _ ih => exact ih.cons f
  | swap fields _ => exact .swap _ _ fields
  | trans _ _ ih ih' => exact ih.trans ih'

/-- Fields that all name different keys can be brought into any order. -/
theorem Reordered.of_perm (h : fields.Perm fields') (hapart : fields.Pairwise Apart) :
    Reordered fields fields' := by
  induction h with
  | nil => exact .nil
  | cons f _ ih => exact .cons f (ih (List.pairwise_cons.1 hapart).2)
  | swap f g fields =>
    exact .swap fields ((List.pairwise_cons.1 hapart).1 f List.mem_cons_self)
  | trans h _ ih ih' => exact .trans (ih hapart) (ih' (h.pairwise hapart Apart.symm))

theorem Reordered.lastGives_iff (h : Reordered fields fields') :
    LastGives fields key value ↔ LastGives fields' key value := by
  induction h with
  | nil => rfl
  | @cons f fields fields' h ih =>
    have hmem : ∀ g, g ∈ fields ↔ g ∈ fields' := fun g => h.perm.mem_iff
    simp only [lastGives_cons, ih, hmem]
  | @swap f g fields hapart =>
    have hf : Gives f key value → ¬ Names g key := fun h => hapart key ⟨value, h⟩
    have hg : Gives g key value → ¬ Names f key := fun h hnames => hapart key hnames ⟨value, h⟩
    simp only [lastGives_cons, List.forall_mem_cons]
    tauto
  | trans _ _ ih ih' => exact ih.trans ih'

end

end Field

def Init.surroundings (t : Tree) (dir : String) : Init.Surroundings :=
  survey t (Git.facts t (t.resolve (.ofText dir))) (.ofText dir)

/-! ## The command -/

namespace Command

open Scaffold.Field

section

variable {dir : String} {load : Loader} {name recipe : Option String} {fields fields' : List String}

/-- The command makes the project with `inputs`, in which each key has the text that the last field
gives it; and that is what stands for the key in the configuration, whatever would be inferred. -/
structure Takes (dir : String) (load : Loader) (name recipe : Option String) (fields : List String)
    (inputs : Dictionary) : Prop where
  run_eq : run (.ofText dir) load (.init name recipe fields) = do
    let created ← initProject (.ofText dir) ⟨name, recipe, inputs⟩
    return .success (initText created)
  bound : ∀ key, (inputs.get? key).isSome = true ↔ ∃ f ∈ fields, Names f key
  binds : ∀ key value, inputs.get? key = some value ↔ LastGives fields key value
  given : ∀ (s : Init.Surroundings) key value, LastGives fields key value →
    s.value? ⟨name, recipe, inputs⟩ key = some value
  inferred : ∀ (s : Init.Surroundings) key, (∀ f ∈ fields, ¬ Names f key) →
    s.value? ⟨name, recipe, inputs⟩ key = s.inferred? recipe key
  configured : ∀ (t t' : Tree) created r,
    Recipe.ofName? ((Init.surroundings t dir).recipe ⟨name, recipe, inputs⟩) = some r →
    (initProject (.ofText dir) ⟨name, recipe, inputs⟩).perform t = (.ok created, t') →
    Config.fileName ∈ created →
      ∃ m, Init.Configured t' (Init.surroundings t dir) ⟨name, recipe, inputs⟩ r m

theorem takes_of_parseFields {inputs : Dictionary} (h : parseFields fields = .ok inputs)
    (hbinds : ∀ key value, inputs.get? key = some value ↔ LastGives fields key value) :
    Takes dir load name recipe fields inputs := by
  have hbound : ∀ key, (inputs.get? key).isSome = true ↔ ∃ f ∈ fields, Names f key := by
    intro key
    simp only [← exists_lastGives_iff, ← hbinds, Option.isSome_iff_exists]
  refine ⟨?_, hbound, hbinds, ?_, ?_, ?_⟩
  · rw [run, h]
    rfl
  · intro s key value hgives
    rw [Init.Surroundings.value?, (hbinds key value).2 hgives, Option.some_or]
  · intro s key hnone
    have hget : inputs.get? key = none := by
      rw [← Option.not_isSome_iff_eq_none, hbound]
      exact fun ⟨f, hf, hnames⟩ => hnone f hf hnames
    rw [Init.Surroundings.value?, hget, Option.none_or]
  · intro t t' created r hr hrun hcreated
    rw [perform_initProject, Init.createIn, Action.perform_get_bind] at hrun
    exact Init.configured_of_create hr (slashless_resolve (slashless_ofText dir)) hrun hcreated

theorem run_init_congr (h : ∀ f ∈ fields, ¬ IsFaulty f) (h' : ∀ f ∈ fields', ¬ IsFaulty f)
    (hlast : ∀ key value, LastGives fields key value ↔ LastGives fields' key value) :
    run (.ofText dir) load (.init name recipe fields') =
      run (.ofText dir) load (.init name recipe fields) := by
  obtain ⟨inputs, hparse, hbinds⟩ := parseFields_of_not_isFaulty h
  obtain ⟨inputs', hparse', hbinds'⟩ := parseFields_of_not_isFaulty h'
  have hinputs : inputs' = inputs := Dictionary.ext_get? fun key => Option.ext fun value => by
    rw [hbinds, hbinds', hlast]
  rw [run, run, hparse, hparse', hinputs]

/-- The first faulty field ends the command before anything is made. Without one, the command makes
the project with what the last field for each key gives; and fields that name different keys can
change places. -/
theorem init_takes_fields (dir : String) (load : Loader) (name recipe : Option String)
    (fields : List String) :
    ((∃ f ∈ fields, IsFaulty f) → ∃ field, IsFirst IsFaulty fields field ∧
      ∀ t, (run (.ofText dir) load (.init name recipe fields)).perform t =
        (.error (.invalidField field), t)) ∧
    ((∀ f ∈ fields, ¬ IsFaulty f) → (∃ inputs, Takes dir load name recipe fields inputs) ∧
      ∀ fields', Reordered fields fields' ∨ fields.Perm fields' ∧ fields.Pairwise Apart →
        run (.ofText dir) load (.init name recipe fields') =
          run (.ofText dir) load (.init name recipe fields)) := by
  constructor
  · intro hfaulty
    obtain ⟨field, hfirst, herror⟩ := parseFields_of_isFaulty hfaulty
    refine ⟨field, hfirst, fun t => ?_⟩
    rw [run, herror]
    exact Action.perform_bind_of_error (Action.perform_ofExcept_error _)
  · intro hsound
    obtain ⟨inputs, hparse, hbinds⟩ := parseFields_of_not_isFaulty hsound
    refine ⟨⟨inputs, takes_of_parseFields hparse hbinds⟩, fun fields' horder => ?_⟩
    have hreordered : Reordered fields fields' :=
      horder.elim id fun ⟨hperm, hapart⟩ => .of_perm hperm hapart
    have hsound' : ∀ f ∈ fields', ¬ IsFaulty f := fun f hf =>
      hsound f (hreordered.perm.mem_iff.2 hf)
    exact run_init_congr hsound hsound' fun key value => hreordered.lastGives_iff

end

/-- A blank key is faulty, whatever comes behind it; and of two fields for a key the last one
decides, whatever stands between them. -/
theorem init_takes_fields_last :
    (run (.ofText "/p") Source.load
        (.init none none ["a=1", " =x", "b"])).perform Init.bareDirectory =
      (.error (.invalidField " =x"), Init.bareDirectory) ∧
    (∃ inputs, Takes "/p" Source.load none none ["tag=old", " tag =a=b ", "env=x"] inputs ∧
      inputs.get? "tag" = some "a=b ") ∧
    run (.ofText "/p") Source.load (.init none none ["tag=old", "env=x", " tag =a=b "]) =
      run (.ofText "/p") Source.load (.init none none ["tag=old", " tag =a=b ", "env=x"]) := by
  have htag : Gives " tag =a=b " "tag" "a=b " := by decide +kernel
  have henv : Gives "env=x" "env" "x" := by decide +kernel
  have hapart : Apart " tag =a=b " "env=x" := htag.apart henv (by decide)
  obtain ⟨field, hfirst, hfails⟩ :=
    (init_takes_fields "/p" Source.load none none ["a=1", " =x", "b"]).1
      ⟨" =x", by simp, by decide +kernel⟩
  obtain ⟨⟨inputs, htakes⟩, hreordered⟩ :=
    (init_takes_fields "/p" Source.load none none ["tag=old", " tag =a=b ", "env=x"]).2
      (by decide +kernel)
  refine ⟨?_, ⟨inputs, htakes, ?_⟩, ?_⟩
  · have hfind : ["a=1", " =x", "b"].find? (fun f => decide (IsFaulty f)) = some field :=
      (Source.find?_eq_some_iff_isFirst fun _ => decide_eq_true_iff).2 hfirst
    have hfield : field = " =x" := Option.some.inj (hfind.symm.trans (by decide +kernel))
    exact hfield ▸ hfails Init.bareDirectory
  · refine (htakes.binds "tag" "a=b ").2 ⟨["tag=old"], _, ["env=x"], rfl, htag, ?_⟩
    exact List.forall_mem_singleton.2 fun h => hapart "tag" ⟨_, htag⟩ h
  · exact hreordered _ (.inl (.cons "tag=old" (.swap [] hapart)))

end Command

end Scaffold
