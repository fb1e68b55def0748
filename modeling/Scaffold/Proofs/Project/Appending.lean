import Scaffold.Proofs.Project.Migration
import Scaffold.Proofs.Text.Blank

/-!
# What a migration changes

A migration fails and changes nothing, or it adds a text behind the configuration and changes
nothing else (`migrate_appends`). What the file with the deployments has to say for it is `Says`,
what is added for that is `Adds`: one constructor for each kind of document that can be added, and
none for the others. It reads back as a section of deployments (`Adds.reads_back`). All that can
fail is over before the configuration is touched (`Outcome`).
-/

namespace Scaffold

open Scaffold.Yaml (Value Mapping)

/-! ## Files that a text is added to -/

namespace Tree

variable {t u : Tree} {p : Path} {content : ByteArray}

/-- In `u` the file that `p` leads to has `content` behind what it has in `t`, and nothing else is
different. -/
def Appends (t u : Tree) (p : Path) (content : ByteArray) : Prop :=
  ∃ l before, t.locate? p = some l ∧ u.locate? p = some l ∧ t.at? l = some (.file before) ∧
    ∀ m, u.at? m = if m = l then some (.file (before ++ content)) else t.at? m

theorem append?_eq_some_iff : t.append? p content = some u ↔
    ∃ l before, t.locate? p = some l ∧ t.at? l = some (.file before) ∧
      t.put l (.file (before ++ content)) = u := by
  unfold append?
  constructor
  · intro h
    split at h
    · split at h
      · exact ⟨_, _, ‹_›, ‹_›, Option.some.inj h⟩
      · cases h
    · cases h
  · rintro ⟨l, before, hl, hat, rfl⟩
    simp only [hl, hat]

theorem appends_of_append? (h : t.append? p content = some u) : t.Appends u p content := by
  obtain ⟨l, before, hl, hat, rfl⟩ := append?_eq_some_iff.1 h
  refine ⟨l, before, hl, ?_, hat, at?_put t (at?_ne_nil_of_file hat) _⟩
  rw [locate?, walk_put_file hat, ← locate?, hl]

theorem append?_of_isFile (h : t.isFile p = true) (content : ByteArray) :
    ∃ u, t.append? p content = some u := by
  obtain ⟨l, before, hl, hat⟩ := isFile_iff.1 h
  exact ⟨_, append?_eq_some_iff.2 ⟨l, before, hl, hat, rfl⟩⟩

end Tree

namespace Migration

variable {t : Tree} {dir : Path} {raw added : String} {v : Value}

/-! ## What is added -/

def Blank (raw : String) : Prop :=
  ∀ c ∈ raw.toList, Text.isBlank c = true

/-- What the text of a file with deployments says. -/
inductive Says (raw : String) : Value → Prop
  | blank : Blank raw → Says raw .null
  | parsed {v : Value} : ¬Blank raw → Value.parse? raw = some v → Says raw v

/-- What is added to a configuration for the text `raw` that says the value. A mapping without a
section of deployments is printed as the only item of one. -/
inductive Adds (raw : String) : Value → String → Prop
  | null : Adds raw .null "deployments: []\n"
  | empty : Adds raw (.mapping []) "deployments: []\n"
  | taken {m : Mapping} : (∃ v, (.string "deployments", v) ∈ m) → Adds raw (.mapping m) raw
  | written {m : Mapping} {added : String} : m ≠ [] → (∀ v, (.string "deployments", v) ∉ m) →
    (Value.mapping [(.string "deployments", .sequence [.mapping m])]).print? = some added →
    Adds raw (.mapping m) added

/-- Neither nothing nor a mapping: a scalar, a sequence or a value with a tag. -/
def Unfit (v : Value) : Prop :=
  v ≠ .null ∧ ∀ m, v ≠ .mapping m

theorem says_iff :
    Says raw v ↔
      (if (Text.trim raw.toList).isEmpty then some Value.null else Value.parse? raw) = some v := by
  have hblank : (Text.trim raw.toList).isEmpty = true ↔ Blank raw :=
    List.isEmpty_iff.trans Text.trim_eq_nil_iff
  by_cases h : Blank raw
  · rw [if_pos (hblank.2 h)]
    constructor
    · rintro (_ | ⟨hnot, -⟩)
      · rfl
      · exact absurd h hnot
    · rintro ⟨⟩
      exact .blank h
  · rw [if_neg (mt hblank.1 h)]
    constructor
    · rintro (hb | ⟨-, hparse⟩)
      · exact absurd hb h
      · exact hparse
    · exact .parsed h

theorem Says.unique {w : Value} (h : Says raw v) (h' : Says raw w) : v = w :=
  Option.some.inj ((says_iff.1 h).symm.trans (says_iff.1 h'))

theorem Adds.not_unfit (h : Adds raw v added) : ¬Unfit v := by
  rintro ⟨hnull, hmapping⟩
  cases h with
  | null => exact hnull rfl
  | empty | taken | written => exact hmapping _ rfl

theorem isSome_get?_iff {key : String} {m : Mapping} :
    (Mapping.get? key m).isSome = true ↔ ∃ v, (.string key, v) ∈ m := by
  constructor
  · intro h
    obtain ⟨⟨k, v⟩, he, rfl⟩ := mem_of_get? h
    exact ⟨v, he⟩
  · rintro ⟨v, he⟩
    rw [isSome_get?, Mapping.hasKey, List.any_eq_true]
    exact ⟨_, he, beq_self_eq_true key⟩

theorem deploymentsSection_ok_iff {ds : List Value} : deploymentsSection ds = .ok added ↔
    (Value.mapping [(.string "deployments", .sequence ds)]).print? = some added := by
  unfold deploymentsSection Config.print
  split <;> simp [*]

theorem deploymentsSection_nil : deploymentsSection [] = .ok "deployments: []\n" :=
  Action.eq_ok_of_toOption (by decide +kernel)

theorem addition_of_unsaid (h : ∀ v, ¬Says raw v) :
    addition raw = .error (.yaml "not a document") := by
  unfold addition
  split
  · rfl
  all_goals exact absurd (says_iff.2 ‹_›) (h _)

theorem addition_of_said (h : Says raw v) : addition raw =
    match v with
    | .null | .mapping [] => .ok "deployments: []\n"
    | .mapping m =>
      if (Mapping.get? "deployments" m).isSome then .ok raw else deploymentsSection [.mapping m]
    | v => .error (.deploymentNotMapping (describe v)) := by
  unfold addition
  rw [says_iff.1 h]
  match v with
  | .null => exact deploymentsSection_nil
  | .mapping [] => exact deploymentsSection_nil
  | .mapping (_ :: _) => rfl
  | .bool _ | .int _ | .float _ | .string _ | .sequence _ | .tagged _ _ => rfl

theorem addition_ok_iff : addition raw = .ok added ↔ ∃ v, Says raw v ∧ Adds raw v added := by
  constructor
  · intro h
    by_cases hsays : ∃ v, Says raw v
    · obtain ⟨v, hv⟩ := hsays
      refine ⟨v, hv, ?_⟩
      rw [addition_of_said hv] at h
      match v with
      | .null => cases h; exact .null
      | .mapping [] => cases h; exact .empty
      | .mapping (e :: m) =>
        dsimp only at h
        split at h
        · cases h
          exact .taken (isSome_get?_iff.1 ‹_›)
        · exact .written (List.cons_ne_nil e m)
            (fun v hmem => absurd (isSome_get?_iff.2 ⟨v, hmem⟩) ‹_›) (deploymentsSection_ok_iff.1 h)
      | .bool _ | .int _ | .float _ | .string _ | .sequence _ | .tagged _ _ => cases h
    · rw [addition_of_unsaid (not_exists.1 hsays)] at h
      cases h
  · rintro ⟨v, hv, hadds⟩
    rw [addition_of_said hv]
    cases hadds with
    | null => rfl
    | empty => rfl
    | @taken m hkey =>
      match m with
      | [] => exact absurd hkey.choose_spec List.not_mem_nil
      | e :: m => exact if_pos (isSome_get?_iff.2 hkey)
    | @written m _ hm hkey hsection =>
      match m with
      | [] => exact absurd rfl hm
      | e :: m =>
        refine (if_neg fun hsome => ?_).trans (deploymentsSection_ok_iff.2 hsection)
        obtain ⟨v, hmem⟩ := isSome_get?_iff.1 hsome
        exact hkey v hmem

theorem deploymentsSection_error {ds : List Value} {e : Error}
    (h : deploymentsSection ds = .error e) : ∃ message, e = .yaml message := by
  unfold deploymentsSection Config.print at h
  split at h
  · cases h
  · cases h
    exact ⟨_, rfl⟩

/-- What is added reads back as the section with the deployments: the file itself, or one that is
written for them, as far as that alone reads back as it is printed. -/
theorem Adds.reads_back (hsaid : Says raw v) (h : Adds raw v added)
    (hprinted : ∀ ds, content? raw = some (.inr ds) →
      Config.ReadsBack (.string "deployments", .sequence ds)) :
    Value.parse? added = some (.mapping (addedSection raw)) := by
  unfold addedSection
  rcases addition_cases (addition_ok_iff.2 ⟨v, hsaid, h⟩) with
    ⟨m, hcontent, rfl, hparse, -⟩ | ⟨ds, hcontent, rfl⟩
  · rw [hcontent]
    exact hparse
  · have hdeployments : Yaml.IsPlainKey "deployments" := by decide +kernel
    have hback := hprinted ds hcontent
    rw [hcontent]
    exact (Yaml.joinable_entryText hdeployments _ hback.areLocal).value_of_parse? hback.parse

example : Config.ReadsBack
    (.string "deployments", .sequence [.mapping [(.string "name", .string "nightly")]]) := by
  decide +kernel

/-- A document that is no mapping is refused for what it is; whatever else fails is about YAML. -/
theorem addition_error {e : Error} (h : addition raw = .error e) :
    (∃ v, Says raw v ∧ Unfit v ∧ e = .deploymentNotMapping (describe v)) ∨
      (∀ v, Says raw v → ¬Unfit v) ∧ ∃ message, e = .yaml message := by
  by_cases hsays : ∃ v, Says raw v
  · obtain ⟨v, hv⟩ := hsays
    rw [addition_of_said hv] at h
    match v with
    | .null => cases h
    | .mapping [] => cases h
    | .mapping (_ :: _) =>
      dsimp only at h
      split at h
      · cases h
      · refine .inr ⟨fun w hw hunfit => ?_, deploymentsSection_error h⟩
        exact hunfit.2 _ (hw.unique hv)
    | .bool _ | .int _ | .float _ | .string _ | .sequence _ | .tagged _ _ =>
      cases h
      exact .inl ⟨_, hv, ⟨nofun, nofun⟩, rfl⟩
  · rw [addition_of_unsaid (not_exists.1 hsays)] at h
    cases h
    exact .inr ⟨fun v hv => absurd ⟨v, hv⟩ hsays, _, rfl⟩

/-! ## The whole migration -/

def Present (t : Tree) (dir : Path) : Prop :=
  t.isFile (dir.join Config.fileName) = true ∧ t.isFile (dir.join fileName) = true

/-- How a migration can end. Only the last end is a success, and only it changes the tree. -/
inductive Outcome (t : Tree) (dir : Path) : Except Error Unit × Tree → Prop
  | missing : ¬Present t dir → Outcome t dir (.error .nothingToMigrate, t)
  | unreadable {message : String} : Present t dir → t.text? (dir.join fileName) = none →
    Outcome t dir (.error (.other message), t)
  | refused {raw : String} {e : Error} : Present t dir → t.text? (dir.join fileName) = some raw →
    addition raw = .error e → Outcome t dir (.error e, t)
  | appended {raw added : String} {u : Tree} : Present t dir →
    t.text? (dir.join fileName) = some raw → addition raw = .ok added →
    t.Appends u (dir.join Config.fileName) ("\n" ++ added).toUTF8 → Outcome t dir (.ok (), u)

theorem outcome (t : Tree) (dir : Path) : Outcome t dir ((migrate dir).perform t) := by
  unfold migrate
  rw [Action.perform_get_bind]
  by_cases hfiles : Present t dir
  · rw [if_pos (by rw [hfiles.1, hfiles.2]; rfl)]
    have hread : (Action.readText (dir.join fileName)).perform t =
        (Action.require ("Failed to read file: " ++ (dir.join fileName).text)
          (t.text? (dir.join fileName))).perform t := Action.perform_get_bind _
    cases htext : t.text? (dir.join fileName) with
    | none =>
      rw [htext] at hread
      rw [Action.perform_bind_of_error hread]
      exact .unreadable hfiles htext
    | some raw =>
      rw [htext] at hread
      rw [Action.perform_bind_of_ok hread]
      cases hadd : addition raw with
      | error e => exact .refused hfiles htext hadd
      | ok added =>
        obtain ⟨u, hu⟩ := Tree.append?_of_isFile hfiles.1 ("\n" ++ added).toUTF8
        have happend : (Action.appendText (dir.join Config.fileName) ("\n" ++ added)).perform t =
            (.ok (), u) := Action.perform_replace_ok_iff.2 hu
        rw [Action.perform_bind_of_ok (Action.perform_ofExcept_ok added), happend]
        exact .appended hfiles htext hadd (Tree.appends_of_append? hu)
  · rw [if_neg fun h => hfiles (by simpa [Present] using h)]
    exact .missing hfiles

theorem unchanged_or_appends (t : Tree) (dir : Path) :
    (∃ e, (migrate dir).perform t = (.error e, t)) ∨
      ∃ u raw v added, (migrate dir).perform t = (.ok (), u) ∧
        t.text? (dir.join fileName) = some raw ∧ Says raw v ∧ Adds raw v added ∧
        t.Appends u (dir.join Config.fileName) ("\n" ++ added).toUTF8 := by
  have h := outcome t dir
  generalize (migrate dir).perform t = r at h ⊢
  cases h with
  | missing | unreadable | refused => exact .inl ⟨_, rfl⟩
  | @appended raw added u hfiles htext hadd happends =>
    obtain ⟨v, hv, hadds⟩ := addition_ok_iff.1 hadd
    exact .inr ⟨u, raw, v, added, rfl, htext, hv, hadds, happends⟩

theorem succeeds_iff (t : Tree) (dir : Path) :
    (∃ u, (migrate dir).perform t = (.ok (), u)) ↔
      Present t dir ∧ ∃ raw v added,
        t.text? (dir.join fileName) = some raw ∧ Says raw v ∧ Adds raw v added := by
  have h := outcome t dir
  generalize (migrate dir).perform t = r at h ⊢
  cases h with
  | missing hfiles => exact ⟨nofun, fun h => absurd h.1 hfiles⟩
  | unreadable hfiles htext =>
    refine ⟨nofun, ?_⟩
    rintro ⟨-, raw, v, added, htext', -⟩
    cases htext.symm.trans htext'
  | refused hfiles htext hadd =>
    refine ⟨nofun, ?_⟩
    rintro ⟨-, raw, v, added, htext', hsays⟩
    cases htext.symm.trans htext'
    cases hadd.symm.trans (addition_ok_iff.2 ⟨v, hsays⟩)
  | @appended raw added u hfiles htext hadd =>
    obtain ⟨v, hv, hadds⟩ := addition_ok_iff.1 hadd
    exact ⟨fun _ => ⟨hfiles, raw, v, added, htext, hv, hadds⟩, fun _ => ⟨u, rfl⟩⟩

/-- Nothing is read of the files before both are there. -/
theorem nothingToMigrate_iff (t : Tree) (dir : Path) :
    (migrate dir).perform t = (.error .nothingToMigrate, t) ↔ ¬Present t dir := by
  have h := outcome t dir
  generalize (migrate dir).perform t = r at h ⊢
  cases h with
  | missing hfiles => exact ⟨fun _ => hfiles, fun _ => rfl⟩
  | unreadable hfiles | appended hfiles => exact ⟨nofun, fun h => absurd hfiles h⟩
  | refused hfiles _ hadd =>
    refine ⟨fun h => ?_, fun h => absurd hfiles h⟩
    cases h
    rcases addition_error hadd with ⟨v, -, -, he⟩ | ⟨-, message, he⟩ <;> cases he

theorem deploymentNotMapping_iff (t : Tree) (dir : Path) (found : String) :
    (migrate dir).perform t = (.error (.deploymentNotMapping found), t) ↔
      Present t dir ∧ ∃ raw v,
        t.text? (dir.join fileName) = some raw ∧ Says raw v ∧ Unfit v ∧ found = describe v := by
  have h := outcome t dir
  generalize (migrate dir).perform t = r at h ⊢
  cases h with
  | missing hfiles => exact ⟨nofun, fun h => absurd h.1 hfiles⟩
  | unreadable hfiles htext =>
    refine ⟨nofun, ?_⟩
    rintro ⟨-, raw, v, htext', -⟩
    cases htext.symm.trans htext'
  | @refused raw e hfiles htext hadd =>
    rcases addition_error hadd with ⟨v, hv, hunfit, rfl⟩ | ⟨hfit, message, rfl⟩
    · constructor
      · intro h
        cases h
        exact ⟨hfiles, raw, v, htext, hv, hunfit, rfl⟩
      · rintro ⟨-, raw', w, htext', hw, -, rfl⟩
        cases htext.symm.trans htext'
        rw [hv.unique hw]
    · refine ⟨nofun, ?_⟩
      rintro ⟨-, raw', w, htext', hw, hunfit, -⟩
      cases htext.symm.trans htext'
      exact absurd hunfit (hfit w hw)
  | @appended raw added u hfiles htext hadd =>
    obtain ⟨v, hv, hadds⟩ := addition_ok_iff.1 hadd
    refine ⟨nofun, ?_⟩
    rintro ⟨-, raw', w, htext', hw, hunfit, -⟩
    cases htext.symm.trans htext'
    rw [← hv.unique hw] at hunfit
    exact absurd hunfit hadds.not_unfit

/-- A migration fails and changes nothing, or it adds to the configuration what is to be added for
the file with the deployments and changes nothing else. It succeeds exactly if both files are there
and there is something to be added; that a file is missing, or that the deployments are neither
nothing nor a mapping, is what it says exactly if it is so. -/
theorem migrate_appends (t : Tree) (dir : Path) :
    ((∃ e, (migrate dir).perform t = (.error e, t)) ∨
      ∃ u raw v added, (migrate dir).perform t = (.ok (), u) ∧
        t.text? (dir.join fileName) = some raw ∧ Says raw v ∧ Adds raw v added ∧
        t.Appends u (dir.join Config.fileName) ("\n" ++ added).toUTF8) ∧
    ((∃ u, (migrate dir).perform t = (.ok (), u)) ↔
      Present t dir ∧ ∃ raw v added,
        t.text? (dir.join fileName) = some raw ∧ Says raw v ∧ Adds raw v added) ∧
    ((migrate dir).perform t = (.error .nothingToMigrate, t) ↔ ¬Present t dir) ∧
    ∀ found, (migrate dir).perform t = (.error (.deploymentNotMapping found), t) ↔
      Present t dir ∧ ∃ raw v,
        t.text? (dir.join fileName) = some raw ∧ Says raw v ∧ Unfit v ∧ found = describe v :=
  ⟨unchanged_or_appends t dir, succeeds_iff t dir, nothingToMigrate_iff t dir,
    deploymentNotMapping_iff t dir⟩

end Migration

end Scaffold
