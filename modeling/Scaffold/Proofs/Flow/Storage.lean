import Scaffold.Proofs.Flow.Record

/-!
# Registries that are saved and loaded

What is saved is a text of the dictionary alone, whatever was in the tree, and loading it gives the
dictionary back (`saved_is_loaded`). So no two dictionaries have one text. A text that somebody else
wrote may say the same in another way; once it is loaded, it is saved and loaded as what it said.
-/

namespace Scaffold

open Scaffold.Text (Dictionary)

/-! ## Texts of dictionaries -/

namespace Text.Dictionary

def membersIn? (text : String) : Option (List (String × String)) :=
  (Json.tokensFrom none 0 text.toList).bind Json.objectOf?

/-- The members stand in the text in the order of their keys. -/
theorem membersIn?_toJson (d : Dictionary) : membersIn? d.toJson = some d.entries :=
  Json.objectOf?_object d.entries

theorem toJson_injective {d d' : Dictionary} (h : d.toJson = d'.toJson) : d = d' := by
  have hread := ofJson?_toJson d
  rw [h, ofJson?_toJson] at hread
  exact (Option.some.inj hread).symm

end Text.Dictionary

/-! ## Saving -/

namespace Registry

variable {t u : Tree} {dir : Path} {d : Dictionary} {l : Location}

theorem join_fileName (dir : Path) : dir.join fileName = ⟨dir.withoutSlash ++ [fileName]⟩ :=
  Path.join_of_single dir segmentsOf_fileName

theorem save_of_write? (h : t.Reaches dir.withoutSlash l)
    (hwrite : t.write? (dir.join fileName) d.toJson.toUTF8 = some u) :
    (save ⟨dir.join fileName, d⟩).perform t = (.ok (), u) := by
  rw [perform_save_reached h, hwrite]

theorem save_of_isFile (h : t.isFile (dir.join fileName) = true) (d : Dictionary) :
    ∃ u, (save ⟨dir.join fileName, d⟩).perform t = (.ok (), u) := by
  obtain ⟨k, -, hk, -⟩ := Tree.isFile_iff.1 h
  have hexists : t.pathExists ⟨dir.withoutSlash ++ [fileName]⟩ = true := by
    rw [← join_fileName]
    exact Option.isSome_iff_exists.2 ⟨k, hk⟩
  obtain ⟨l, hreaches⟩ := Tree.reaches_of_pathExists isPlainName_fileName hexists
  obtain ⟨u, hwrite⟩ := Tree.write?_of_isFile h d.toJson.toUTF8
  exact ⟨u, save_of_write? hreaches hwrite⟩

theorem save_of_none (hl : t.locate? dir = some l) (hdir : t.isDirectoryAt l = true)
    (hnone : t.at? (fileName :: l) = none) (d : Dictionary) :
    ∃ u, (save ⟨dir.join fileName, d⟩).perform t = (.ok (), u) := by
  have hreaches := Tree.reaches_of_walk (Tree.locate?_eq_some_iff.1 hl) hdir
  refine ⟨t.put (fileName :: l) (.file d.toJson.toUTF8), save_of_write? hreaches ?_⟩
  unfold Tree.write?
  rw [join_fileName, hreaches.walk_none isPlainName_fileName hnone]

/-! ## Loading -/

theorem holds_of_save (hdir : Slashless dir.segments) {x : Unit}
    (h : (save ⟨dir.join fileName, d⟩).perform t = (.ok x, u)) :
    u.text? (dir.join fileName) = some d.toJson ∧ Holds u dir d := by
  have htext := Action.text?_of_write (slashless_join hdir fileName) h
  exact ⟨htext, holds_of_text? htext⟩

/-- Saving and loading are inverse. In a directory where there is room for its file, a registry is
saved; whatever is saved anywhere is the text of its dictionary, in which the keys are in ascending
order and by which it differs from all other dictionaries; and loading gives it back. Loading
changes nothing, and what it took from a file, however it was written there, can be saved and is
loaded again. -/
theorem saved_is_loaded (dir : String) (d : Dictionary) :
    (∀ t u x, (save ⟨(Path.ofText dir).join fileName, d⟩).perform t = (.ok x, u) →
      u.text? ((Path.ofText dir).join fileName) = some d.toJson ∧
      (load (.ofText dir)).perform u = (.ok ⟨(Path.ofText dir).join fileName, d⟩, u)) ∧
    (∀ t, (t.isFile ((Path.ofText dir).join fileName) = true ∨
        ∃ l, t.locate? (.ofText dir) = some l ∧ t.isDirectoryAt l = true ∧
          t.at? (fileName :: l) = none) →
      ∃ u, (save ⟨(Path.ofText dir).join fileName, d⟩).perform t = (.ok (), u)) ∧
    (∃ es, Dictionary.membersIn? d.toJson = some es ∧ Text.Ascending es ∧
      ∀ name entrypoint, (name, entrypoint) ∈ es ↔ d.get? name = some entrypoint) ∧
    (∀ d', d'.toJson = d.toJson → d' = d) ∧
    ∀ t u r, (load (.ofText dir)).perform t = (.ok r, u) → u = t ∧
      (t.pathExists ((Path.ofText dir).join fileName) = true →
        ∃ v, r.save.perform t = (.ok (), v) ∧ (load (.ofText dir)).perform v = (.ok r, v)) := by
  have hslash := slashless_ofText dir
  refine ⟨fun t u x hsave => holds_of_save hslash hsave, fun t hroom => ?_, ?_,
    fun d' => Dictionary.toJson_injective, fun t u r hload => ?_⟩
  · rcases hroom with hfile | ⟨l, hl, hdir, hnone⟩
    · exact save_of_isFile hfile d
    · exact save_of_none hl hdir hnone d
  · refine ⟨d.entries, Dictionary.membersIn?_toJson d, d.ascending, fun name entrypoint => ?_⟩
    exact (Dictionary.lookup_eq_some_iff d.ascending).symm
  · obtain ⟨hholds, hr, rfl⟩ := holds_of_load hload
    refine ⟨rfl, fun hexists => ?_⟩
    obtain ⟨text, htext, -⟩ := hholds.says hexists
    obtain ⟨v, hsave⟩ := save_of_isFile (Tree.isFile_of_text? htext) r.flows
    rw [← hr] at hsave
    refine ⟨v, hsave, ?_⟩
    rw [hr] at hsave ⊢
    exact (holds_of_save hslash hsave).2

/-- Names that have to be escaped, and one of no characters, replace what was garbled. -/
theorem saved_is_loaded_escaped :
    let d : Dictionary := .ofList [("\"\\/", "a\tb.py:f"), ("\x01\n", "\u2028"), ("", "😀"), ("Ω", "")]
    ∃ u, (save ⟨(Path.ofText "/p/.prefect").join fileName, d⟩).perform garbledProject =
        (.ok (), u) ∧
      (load (.ofText "/p/.prefect")).perform u =
        (.ok ⟨(Path.ofText "/p/.prefect").join fileName, d⟩, u) ∧
      d.entries.map Prod.fst = ["", "\x01\n", "\"\\/", "Ω"] := by
  intro d
  obtain ⟨hloaded, hroom, -⟩ := saved_is_loaded "/p/.prefect" d
  obtain ⟨u, hsave⟩ := hroom garbledProject (.inl (by decide +kernel))
  exact ⟨u, hsave, (hloaded _ u () hsave).2, by decide +kernel⟩

end Registry

end Scaffold
