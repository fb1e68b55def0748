import Scaffold.Project.Migration
import Scaffold.Proofs.Project.Config
import Scaffold.Proofs.Tree.Action

/-!
# Reading a configuration after a migration

Deployments are added as a section of their own behind the text of a configuration, whether it has
one already or not. Where both texts are mappings in block style, the result is a configuration
with all that was in both exactly if they have no key in common (`migrate_keeps_iff`); a
configuration with a section of deployments cannot be read afterwards.
-/

namespace Scaffold

open Scaffold.Yaml (Value Mapping Joinable Solid normalizeBreaks)

namespace Tree

variable {t t' : Tree} {p : Path}

theorem eq_toUTF8 {content : ByteArray} {a : String} (h : String.fromUTF8? content = some a) :
    content = a.toUTF8 := by
  unfold String.fromUTF8? at h
  split at h
  · cases h
    rfl
  · cases h

theorem text?_append? {a b : String} (h : t.text? p = some a)
    (happend : t.append? p b.toUTF8 = some t') : t'.text? p = some (a ++ b) := by
  unfold append? at happend
  split at happend
  · rename_i l hl
    split at happend
    · rename_i before hat
      cases happend
      have hbefore : t.find? p = some (.file before) := by
        rw [find?, hl]
        exact hat
      have hafter : (t.put l (.file (before ++ b.toUTF8))).find? p =
          some (.file (before ++ b.toUTF8)) := by
        rw [find?, locate?, walk_put_file hat p, ← locate?, hl, Option.bind_some,
          at?_put t (at?_ne_nil_of_file hat), if_pos rfl]
      unfold text? at h ⊢
      rw [hbefore] at h
      rw [hafter]
      have hcontent : before ++ b.toUTF8 = (a ++ b).toUTF8 := by
        rw [eq_toUTF8 h]
        exact String.toByteArray_append.symm
      dsimp only
      rw [hcontent]
      exact fromUTF8?_toUTF8 (a ++ b)
    · cases happend
  · cases happend

end Tree

namespace Config

variable {t t' : Tree} {dir : Path} {text : String}

theorem perform_load (h : t.text? (dir.join fileName) = some text) :
    (load dir).perform t = (match Mapping.parse? text with
      | some m => .ok (some m)
      | none => .error (.yaml "the file is not a mapping"), t) := by
  unfold load
  rw [Action.perform_get_bind, if_pos (Tree.isFile_of_text? h)]
  have hread : (Action.readText (dir.join fileName)).perform t = (.ok text, t) := by
    unfold Action.readText
    rw [Action.perform_get_bind, h]
    rfl
  rw [Action.perform_bind_of_ok hread]
  cases Mapping.parse? text <;> rfl

theorem load_ok_iff {m : Mapping} (h : t.text? (dir.join fileName) = some text) :
    (load dir).perform t = (.ok (some m), t) ↔ Mapping.parse? text = some m := by
  rw [perform_load h]
  cases Mapping.parse? text <;> simp

end Config

namespace Migration

variable {t t' : Tree} {dir : Path}

theorem migrate_ok (h : (migrate dir).perform t = (.ok (), t')) :
    ∃ raw added, t.text? (dir.join fileName) = some raw ∧ addition raw = .ok added ∧
      t.append? (dir.join Config.fileName) ("\n" ++ added).toUTF8 = some t' := by
  unfold migrate at h
  rw [Action.perform_get_bind] at h
  split at h
  · obtain ⟨raw, u, hraw, h₁⟩ := Action.perform_bind_ok h
    obtain ⟨added, v, hadded, h₂⟩ := Action.perform_bind_ok h₁
    unfold Action.readText at hraw
    rw [Action.perform_get_bind] at hraw
    obtain ⟨htext, rfl⟩ := Action.perform_require_ok_iff.1 hraw
    obtain ⟨hadd, rfl⟩ := Action.perform_ofExcept_ok_iff.1 hadded
    exact ⟨raw, added, htext, hadd, Action.perform_replace_ok_iff.1 h₂⟩
  · cases h

/-! ## Deployments -/

def items : Value → List Value
  | .sequence xs => xs
  | _ => []

def listed (m : Mapping) : List Value :=
  ((Mapping.get? "deployments" m).map items).getD []

/-- What the text of a file with deployments is: a section as it stands, or the deployments that
have to be written as one. -/
def content? (raw : String) : Option (Mapping ⊕ List Value) :=
  match if (Text.trim raw.toList).isEmpty then some .null else Value.parse? raw with
  | some .null | some (.mapping []) => some (.inr [])
  | some (.mapping m) =>
    if (Mapping.get? "deployments" m).isSome then some (.inl m) else some (.inr [.mapping m])
  | _ => none

def addedSection (raw : String) : Mapping :=
  match content? raw with
  | some (.inl m) => m
  | some (.inr ds) => [(.string "deployments", .sequence ds)]
  | none => []

/-- The deployments in the text of a file: the items of its section, the one mapping that it is as a
whole, or none. -/
def deployments (raw : String) : List Value :=
  listed (addedSection raw)

/-- A configuration has all entries of `m` but its deployments, and lists `added`. -/
structure Keeps (m : Mapping) (added : List Value) (after : Mapping) : Prop where
  others : ∀ e ∈ m, e.1 ≠ .string "deployments" → e ∈ after
  lists : added ⊆ listed after

/-- The configuration is a mapping in block style, and an empty line behind it changes nothing. -/
structure Extensible (config : String) : Prop where
  joinable : Joinable (config ++ "\n")
  spaced : Mapping.parse? (config ++ "\n") = Mapping.parse? config

/-- A section that is taken as it stands is one in block style; one that has to be written reads
back as it was written. -/
structure Addable (raw : String) : Prop where
  taken : ∀ m, content? raw = some (.inl m) → Joinable raw ∧ Solid (normalizeBreaks raw.toList)
  written : ∀ ds, content? raw = some (.inr ds) →
    Config.ReadsBack (.string "deployments", .sequence ds)

theorem get?_append (key : String) (m n : Mapping) :
    Mapping.get? key (m ++ n) = (Mapping.get? key m).or (Mapping.get? key n) := by
  induction m with
  | nil => rfl
  | cons e m ih =>
    obtain ⟨k, v⟩ := e
    cases k with
    | string k =>
      rw [List.cons_append, Mapping.get?, Mapping.get?]
      split
      · rfl
      · exact ih
    | _ => exact ih

theorem isSome_get? (key : String) (m : Mapping) :
    (Mapping.get? key m).isSome = m.hasKey (.string key) := by
  induction m with
  | nil => rfl
  | cons e m ih =>
    obtain ⟨k, v⟩ := e
    rw [Mapping.hasKey, List.any_cons, ← Mapping.hasKey, ← ih]
    cases k with
    | string k =>
      rw [Mapping.get?]
      by_cases hk : k = key
      · simp [Value.same, hk]
      · simp [Value.same, hk]
    | _ => simp [Value.same, Mapping.get?]

theorem same_string {v : Value} {s : String} (h : v.same (.string s) = true) : v = .string s := by
  cases v with
  | string r =>
    rw [Value.same, beq_iff_eq] at h
    rw [h]
  | _ => cases h

theorem mem_of_get? {m : Mapping} {key : String} (h : (Mapping.get? key m).isSome = true) :
    ∃ e ∈ m, e.1 = .string key := by
  rw [isSome_get?, Mapping.hasKey, List.any_eq_true] at h
  obtain ⟨e, he, hsame⟩ := h
  exact ⟨e, he, same_string hsame⟩

theorem addition_cases {raw added : String} (h : addition raw = .ok added) :
    (∃ m, content? raw = some (.inl m) ∧ added = raw ∧ Value.parse? raw = some (.mapping m) ∧
      (Mapping.get? "deployments" m).isSome = true) ∨
    ∃ ds, content? raw = some (.inr ds) ∧
      added = Yaml.entryText (.string "deployments", .sequence ds) := by
  unfold addition at h
  unfold content?
  generalize hvalue : (if (Text.trim raw.toList).isEmpty then some Value.null
    else Value.parse? raw) = value at h ⊢
  match value with
  | none => cases h
  | some .null => exact .inr ⟨[], rfl, Config.print_ok h⟩
  | some (.mapping []) => exact .inr ⟨[], rfl, Config.print_ok h⟩
  | some (.mapping (e :: m)) =>
    dsimp only at h ⊢
    split at h
    · rename_i hdeployments
      cases h
      have hparse : Value.parse? raw = some (.mapping (e :: m)) := by
        split at hvalue
        · cases hvalue
        · exact hvalue
      rw [if_pos hdeployments]
      exact .inl ⟨e :: m, rfl, rfl, hparse, hdeployments⟩
    · rename_i hnone
      rw [if_neg hnone]
      exact .inr ⟨_, rfl, Config.print_ok h⟩
  | some (.bool _) | some (.int _) | some (.float _) | some (.string _) | some (.sequence _)
  | some (.tagged _ _) => cases h

theorem addition_section {raw added : String} (h : addition raw = .ok added) (hraw : Addable raw) :
    Joinable added ∧ Solid (normalizeBreaks added.toList) ∧
      Mapping.parse? added = some (addedSection raw) ∧
      (Mapping.get? "deployments" (addedSection raw)).isSome = true := by
  unfold addedSection
  rcases addition_cases h with ⟨m, hcontent, rfl, hparse, hhas⟩ | ⟨ds, hcontent, rfl⟩
  · obtain ⟨hjoinable, hsolid⟩ := hraw.taken m hcontent
    obtain ⟨es, hroot⟩ := hjoinable.root_of_value hparse
    rw [Yaml.parse?_value hroot] at hparse
    obtain ⟨a, ha, heq⟩ := Option.map_eq_some_iff.1 hparse
    cases heq
    rw [hcontent]
    exact ⟨hjoinable, hsolid, ha, hhas⟩
  · have hkey : Yaml.IsPlainKey "deployments" := by decide +kernel
    have hback := hraw.written ds hcontent
    rw [hcontent]
    exact ⟨Yaml.joinable_entryText hkey _ hback.areLocal, Yaml.solid_entryText hkey _, hback.parse,
      by simp [Mapping.get?]⟩

/-! ## Reading -/

section

variable {m : Mapping} {config raw : String}

/-- After a migration all that both texts say is read, as long as no key comes twice. -/
theorem perform_load_migrate (hconfig : t.text? (dir.join Config.fileName) = some config)
    (hraw : t.text? (dir.join fileName) = some raw)
    (hload : (Config.load dir).perform t = (.ok (some m), t))
    (hmigrate : (migrate dir).perform t = (.ok (), t')) (habove : Extensible config)
    (hbelow : Addable raw) :
    (Config.load dir).perform t' = (match m.join? (addedSection raw) with
        | some after => .ok (some after)
        | none => .error (.yaml "the file is not a mapping"), t') ∧
      Mapping.join? [] (addedSection raw) = some (addedSection raw) ∧
      ∃ e ∈ addedSection raw, e.1 = .string "deployments" := by
  obtain ⟨raw', added, hraw', hadd, happend⟩ := migrate_ok hmigrate
  cases hraw.symm.trans hraw'
  have hm : Mapping.parse? (config ++ "\n") = some m := by
    rw [habove.spaced]
    exact (Config.load_ok_iff hconfig).1 hload
  obtain ⟨hjoinable, hsolid, ha, hhas⟩ := addition_section hadd hbelow
  have htext := Tree.text?_append? hconfig happend
  rw [← String.append_assoc] at htext
  obtain ⟨hparse, hself⟩ := Yaml.parse?_append habove.joinable hjoinable hsolid hm ha
  rw [Config.perform_load htext, hparse]
  exact ⟨rfl, hself, mem_of_get? hhas⟩

theorem migrate_breaks (hconfig : t.text? (dir.join Config.fileName) = some config)
    (hraw : t.text? (dir.join fileName) = some raw)
    (hload : (Config.load dir).perform t = (.ok (some m), t))
    (hmigrate : (migrate dir).perform t = (.ok (), t')) (habove : Extensible config)
    (hbelow : Addable raw) (hhas : m.hasKey (.string "deployments") = true) :
    (Config.load dir).perform t' = (.error (.yaml "the file is not a mapping"), t') := by
  obtain ⟨hread, -, e, he, hkey⟩ := perform_load_migrate hconfig hraw hload hmigrate habove hbelow
  rw [hread]
  cases hjoin : m.join? (addedSection raw) with
  | none => rfl
  | some after =>
    have hnone := Yaml.hasKey_of_join? hjoin e he
    rw [hkey, hhas] at hnone
    cases hnone

/-- A configuration as it is written for a project has a section of deployments. -/
theorem migrate_breaks_render {contents : Mapping} (hrender : Config.render contents = .ok config)
    (halone : ∀ e ∈ Config.entries contents, Config.ReadsBack e)
    (hlast : Mapping.parse? (Yaml.entryText (Config.lastEntry contents) ++ "\n") =
      some [Config.lastEntry contents])
    (hconfig : t.text? (dir.join Config.fileName) = some config)
    (hraw : t.text? (dir.join fileName) = some raw)
    (hload : (Config.load dir).perform t = (.ok (some m), t))
    (hmigrate : (migrate dir).perform t = (.ok (), t')) (hbelow : Addable raw) :
    (Config.load dir).perform t' = (.error (.yaml "the file is not a mapping"), t') := by
  have hjoinable := (Config.parse?_documents hrender halone (.inr rfl)).1
  have hspaced := Config.parse?_render_newline hrender halone hlast
  refine migrate_breaks hconfig hraw hload hmigrate ⟨hjoinable, hspaced⟩ hbelow ?_
  have hmem := Config.lastEntry_mem hrender halone ((Config.load_ok_iff hconfig).1 hload)
  exact List.any_eq_true.2 ⟨_, hmem, beq_self_eq_true "deployments"⟩

/-- After a migration the configuration has all that both texts say exactly if they have no key in
common; else it cannot be read. -/
theorem migrate_keeps_iff (hconfig : t.text? (dir.join Config.fileName) = some config)
    (hraw : t.text? (dir.join fileName) = some raw)
    (hload : (Config.load dir).perform t = (.ok (some m), t))
    (hmigrate : (migrate dir).perform t = (.ok (), t')) (habove : Extensible config)
    (hbelow : Addable raw) :
    (∃ after, (Config.load dir).perform t' = (.ok (some after), t') ∧
      Keeps m (deployments raw) after) ↔
        ∀ e ∈ addedSection raw, m.hasKey e.1 = false := by
  obtain ⟨hread, hself, e, he, hkey⟩ :=
    perform_load_migrate hconfig hraw hload hmigrate habove hbelow
  rw [hread]
  constructor
  · rintro ⟨after, hafter, -⟩
    split at hafter
    · exact Yaml.hasKey_of_join? ‹_›
    · cases hafter
  · intro hkeys
    have hjoin := Yaml.join?_of_hasKey (m := m) hself hkeys
    rw [List.append_nil] at hjoin
    rw [hjoin]
    have hnone : Mapping.get? "deployments" m = none := by
      rw [← Option.not_isSome_iff_eq_none, isSome_get?, ← hkey, hkeys e he]
      nofun
    refine ⟨m ++ addedSection raw, rfl, fun e he _ => List.mem_append_left _ he, ?_⟩
    rw [deployments, listed, listed, get?_append, hnone, Option.none_or]
    exact List.Subset.refl _

end

def projectOf (config deployments : String) : Tree :=
  ⟨[(["p"], .directory .everyone), ([Config.fileName, "p"], .file config.toUTF8),
    ([fileName, "p"], .file deployments.toUTF8)]⟩

theorem migrate_keeps_name :
    ∃ t' after, (migrate (.ofText "/p")).perform (projectOf "name: p\n" "name: nightly\n") =
        (.ok (), t') ∧
      (Config.load (.ofText "/p")).perform t' = (.ok (some after), t') ∧
      Keeps [(.string "name", .string "p")] [.mapping [(.string "name", .string "nightly")]]
        after := by
  obtain ⟨t', hrun⟩ : ∃ t', (migrate (.ofText "/p")).perform
      (projectOf "name: p\n" "name: nightly\n") = (.ok (), t') :=
    Action.perform_of_toOption (by decide +kernel)
  have hconfig : (projectOf "name: p\n" "name: nightly\n").text?
      ((Path.ofText "/p").join Config.fileName) = some "name: p\n" := by decide +kernel
  have hparse : Mapping.parse? "name: p\n" = some [(.string "name", .string "p")] := by
    decide +kernel
  have hload := (Config.load_ok_iff hconfig).2 hparse
  have habove : Extensible "name: p\n" :=
    ⟨⟨⟨[], "name".toList, " p\n\n".toList, by decide +kernel, .nil, by decide +kernel, rfl⟩,
      by decide +kernel, by decide +kernel⟩, by decide +kernel⟩
  have hcontent : content? "name: nightly\n" =
      some (.inr [.mapping [(.string "name", .string "nightly")]]) := by decide +kernel
  have hbelow : Addable "name: nightly\n" := by
    refine ⟨fun m hm => ?_, fun ds hds => ?_⟩
    · cases hcontent.symm.trans hm
    · cases hcontent.symm.trans hds
      decide +kernel
  have hiff := migrate_keeps_iff hconfig (by decide +kernel) hload hrun habove hbelow
  rw [deployments, addedSection, hcontent] at hiff
  obtain ⟨after, hafter, hkeeps⟩ := hiff.2 (by decide +kernel)
  exact ⟨t', after, hrun, hafter, hkeeps⟩

/-- A configuration as it is written for a new project has a section of deployments. -/
theorem migrate_breaks_section :
    ∃ t', (Config.load (.ofText "/p")).perform (projectOf "deployments: []\n" "name: nightly\n") =
        (.ok (some [(.string "deployments", .sequence [])]),
          projectOf "deployments: []\n" "name: nightly\n") ∧
      (migrate (.ofText "/p")).perform (projectOf "deployments: []\n" "name: nightly\n") =
        (.ok (), t') ∧
      (Config.load (.ofText "/p")).perform t' =
        (.error (.yaml "the file is not a mapping"), t') := by
  obtain ⟨t', hrun⟩ : ∃ t', (migrate (.ofText "/p")).perform
      (projectOf "deployments: []\n" "name: nightly\n") = (.ok (), t') :=
    Action.perform_of_toOption (by decide +kernel)
  have hconfig : (projectOf "deployments: []\n" "name: nightly\n").text?
      ((Path.ofText "/p").join Config.fileName) = some "deployments: []\n" := by decide +kernel
  have hparse : Mapping.parse? "deployments: []\n" =
      some [(.string "deployments", .sequence [])] := by decide +kernel
  obtain ⟨raw, added, hraw, hadd, happend⟩ := migrate_ok hrun
  have hraw' : (projectOf "deployments: []\n" "name: nightly\n").text?
      ((Path.ofText "/p").join fileName) = some "name: nightly\n" := by decide +kernel
  cases hraw.symm.trans hraw'
  have hadd' : addition "name: nightly\n" = .ok "deployments:\n- name: nightly\n" :=
    Action.eq_ok_of_toOption (by decide +kernel)
  cases hadd.symm.trans hadd'
  have hafter : Mapping.parse?
      ("deployments: []\n" ++ ("\n" ++ "deployments:\n- name: nightly\n")) = none := by
    decide +kernel
  refine ⟨t', (Config.load_ok_iff hconfig).2 hparse, hrun, ?_⟩
  rw [Config.perform_load (Tree.text?_append? hconfig happend), hafter]

end Migration

end Scaffold
