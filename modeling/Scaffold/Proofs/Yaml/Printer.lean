import Scaffold.Proofs.Yaml.Parts
import Scaffold.Yaml.Printer

/-!
# Mappings with one entry, as they are written

The document that holds one entry under a plain key begins with the key and its colon, and ends its
last line: it has the form of a part.
-/

namespace Scaffold.Yaml

/-! ## What is on a page stays there -/

theorem suffix_put (page : Page) (s : List Char) : page <:+ page.put s := by
  rw [Page.put, List.reverseAux_eq]
  exact List.suffix_append ..

theorem suffix_freshLine (page : Page) : page <:+ page.freshLine := by
  unfold Page.freshLine
  split
  · exact List.suffix_refl _
  · split
    · exact List.suffix_refl _
    · exact List.suffix_cons ..

theorem head?_freshLine (page : Page) : ∀ c ∈ page.freshLine.head?, isBreak c = true := by
  cases page with
  | nil => exact nofun
  | cons y page =>
    rw [Page.freshLine]
    by_cases hy : isBreak y = true
    · rw [if_pos hy]
      rintro c ⟨⟩
      exact hy
    · rw [if_neg hy]
      rintro c ⟨⟩
      exact isBreak_newline

theorem suffix_newLine (page : Page) (n : Nat) : page <:+ page.newLine n :=
  (suffix_freshLine page).trans (suffix_put ..)

theorem suffix_inline (p : Place) (s : List Char) (page : Page) : page <:+ p.inline s page := by
  unfold Place.inline
  split
  · exact suffix_put page s
  · exact (suffix_put page [' ']).trans (suffix_put ..)

theorem suffix_openBlock (p : Place) (n : Nat) (page : Page) : page <:+ p.openBlock n page := by
  unfold Place.openBlock
  split
  · split
    · exact List.suffix_refl page
    · exact suffix_put page [' ']
  · exact suffix_newLine page n

theorem suffix_entry {k v : Value} (hk : ∀ p page, page <:+ writeNode p k page)
    (hv : ∀ p page, page <:+ writeNode p v page) (n : Nat) (page : Page) :
    page <:+ if k.isShort 0 then
        writeNode (valuePlace n) v ((writeNode (keyPlace n) k page).put [':'])
      else
        writeNode (longPlace n) v
          (((writeNode (longPlace n) k (page.put ['?'])).newLine n).put [':']) := by
  split
  · exact ((hk _ page).trans (suffix_put ..)).trans (hv _ _)
  · exact ((((suffix_put page ['?']).trans (hk _ _)).trans (suffix_newLine _ n)).trans
      (suffix_put ..)).trans (hv _ _)

mutual

theorem suffix_writeNode (p : Place) (v : Value) (page : Page) : page <:+ writeNode p v page := by
  match v with
  | .null | .bool true | .bool false | .int _ | .float _ | .string _ | .sequence [] | .mapping [] =>
    rw [writeNode]
    exact suffix_inline p _ page
  | .sequence (x :: xs) =>
    rw [writeNode]
    exact (((suffix_openBlock p _ page).trans (suffix_put ..)).trans (suffix_writeNode _ x _)).trans
      (suffix_writeItems _ xs _)
  | .mapping ((k, v) :: es) =>
    rw [writeNode]
    exact ((suffix_openBlock p _ page).trans (suffix_entry (fun p => suffix_writeNode p k)
      (fun p => suffix_writeNode p v) _ _)).trans (suffix_writeEntries _ es _)
  | .tagged t v =>
    rw [writeNode]
    exact (suffix_inline p _ page).trans (suffix_writeNode _ v _)

theorem suffix_writeItems (n : Nat) (xs : List Value) (page : Page) :
    page <:+ writeItems n xs page := by
  match xs with
  | [] =>
    unfold writeItems
    exact List.suffix_refl page
  | x :: xs =>
    rw [writeItems]
    exact (((suffix_newLine page n).trans (suffix_put ..)).trans (suffix_writeNode _ x _)).trans
      (suffix_writeItems n xs _)

theorem suffix_writeEntries (n : Nat) (es : List (Value × Value)) (page : Page) :
    page <:+ writeEntries n es page := by
  match es with
  | [] =>
    unfold writeEntries
    exact List.suffix_refl page
  | (k, v) :: es =>
    rw [writeEntries]
    exact ((suffix_newLine page n).trans (suffix_entry (fun p => suffix_writeNode p k)
      (fun p => suffix_writeNode p v) n _)).trans (suffix_writeEntries n es _)

end

/-! ## Documents with one entry -/

/-- A value is kept apart from the colon before it by a blank or a break. -/
theorem writeNode_apart (n : Nat) (v : Value) (page : Page) :
    ∃ c, (c = ' ' ∨ c = '\n') ∧ c :: ':' :: page <:+ writeNode (valuePlace n) v (':' :: page) := by
  have hinline : ∀ s, ' ' :: ':' :: page <:+ (valuePlace n).inline s (':' :: page) :=
    fun s => suffix_put (' ' :: ':' :: page) s
  have hblock : ∀ k, '\n' :: ':' :: page <:+ (valuePlace n).openBlock k (':' :: page) :=
    fun k => suffix_put ('\n' :: ':' :: page) (spaces k)
  match v with
  | .null | .bool true | .bool false | .int _ | .float _ | .string _ | .sequence [] | .mapping [] =>
    rw [writeNode]
    exact ⟨' ', .inl rfl, hinline _⟩
  | .sequence (x :: xs) =>
    rw [writeNode]
    exact ⟨'\n', .inr rfl, (((hblock _).trans (suffix_put ..)).trans (suffix_writeNode _ x _)).trans
      (suffix_writeItems _ xs _)⟩
  | .mapping ((k, v) :: es) =>
    rw [writeNode]
    exact ⟨'\n', .inr rfl, ((hblock _).trans (suffix_entry (suffix_writeNode · k)
      (suffix_writeNode · v) _ _)).trans (suffix_writeEntries _ es _)⟩
  | .tagged t v =>
    rw [writeNode]
    exact ⟨' ', .inl rfl, (hinline _).trans (suffix_writeNode _ v _)⟩

/-- The document that holds one entry. -/
def entryText (e : Value × Value) : String :=
  (Value.mapping [e]).document

/-- A key that is written as it stands. -/
structure IsPlainKey (key : String) : Prop where
  isWord : IsWord key.toList
  isShort : (Value.string key).isShort 0 = true
  style : Style.ofString key = .plain

instance (key : String) : Decidable (IsPlainKey key) :=
  decidable_of_iff (IsWord key.toList ∧ (Value.string key).isShort 0 = true ∧
      Style.ofString key = .plain)
    ⟨fun ⟨isWord, isShort, style⟩ => ⟨isWord, isShort, style⟩,
      fun h => ⟨h.isWord, h.isShort, h.style⟩⟩

theorem writeNode_key {key : String} (hkey : IsPlainKey key) (v : Value) :
    writeNode .document (.mapping [(.string key, v)]) [] =
      writeNode (valuePlace 0) v (':' :: key.toList.reverse) := by
  have hplace : writeNode (keyPlace 0) (.string key) [] = key.toList.reverse := by
    simp [writeNode, Place.inline, keyPlace, stringText, hkey.style, Page.put,
      List.reverseAux_eq]
  rw [writeNode, writeEntries]
  have hopen : Place.document.openBlock Place.document.deeper [] = [] := rfl
  have hzero : Place.document.deeper = 0 := rfl
  rw [hopen, hzero]
  dsimp only
  rw [if_pos hkey.isShort, hplace]
  rfl

/-- A document with one entry begins with its key and ends its last line. -/
theorem entryText_key {key : String} (hkey : IsPlainKey key) (v : Value) :
    ∃ c s, (c = ' ' ∨ c = '\n') ∧
      (entryText (.string key, v)).toList = key.toList ++ ':' :: c :: s ∧
      Ended (entryText (.string key, v)).toList := by
  obtain ⟨c, hc, hsuffix⟩ := writeNode_apart 0 v key.toList.reverse
  obtain ⟨s, hs⟩ := hsuffix.trans (suffix_freshLine _)
  have htext : (entryText (.string key, v)).toList =
      (writeNode (valuePlace 0) v (':' :: key.toList.reverse)).freshLine.reverse := by
    rw [entryText, Value.document, writeNode_key hkey, String.toList_ofList]
  refine ⟨c, s.reverse, hc, ?_, ?_⟩
  · rw [htext, ← hs]
    simp
  · rw [htext]
    intro x hx
    rw [List.getLast?_reverse] at hx
    exact head?_freshLine _ x hx

theorem normalizeBreaks_word {w : List Char} (hw : IsWord w) (s : List Char) :
    normalizeBreaks (w ++ ':' :: s) = w ++ ':' :: normalizeBreaks s := by
  have hword : normalizeBreaks w = w := normalizeBreaks_id fun x hx =>
    ⟨ne_of_isNameChar (hw.names x hx) (by decide), ne_of_isNameChar (hw.names x hx) (by decide)⟩
  have hlast : ∀ x ∈ w.getLast?, x ≠ '\r' := fun x hx =>
    ne_of_isNameChar (hw.names x (List.mem_of_getLast? hx)) (by decide)
  rw [normalizeBreaks_append hlast, hword, normalizeBreaks_cons (by simp)]
  rfl

theorem solid_entryText {key : String} (hkey : IsPlainKey key) (v : Value) :
    Solid (normalizeBreaks (entryText (.string key, v)).toList) := by
  obtain ⟨c, s, -, htext, -⟩ := entryText_key hkey v
  rw [htext, normalizeBreaks_word hkey.isWord]
  intro x hx
  rw [head?_append hkey.isWord.nonempty] at hx
  have hname := hkey.isWord.names x (List.mem_of_mem_head? hx)
  exact ⟨isWhite_of_isNameChar hname, isBreak_of_isNameChar hname⟩

/-- A document with one entry can be one part of another, as far as its tokens are local. -/
theorem joinable_entryText {key : String} (hkey : IsPlainKey key) (v : Value)
    (hlocal : ∀ ts, tokens? (entryText (.string key, v)) = some ts → AreLocal ts) :
    Joinable (entryText (.string key, v)) := by
  obtain ⟨c, s, hc, htext, hended⟩ := entryText_key hkey v
  refine ⟨⟨[], key.toList, c :: normalizeBreaks s, ?_, .nil, hkey.isWord, ?_⟩, hended, hlocal⟩
  · rw [htext, normalizeBreaks_word hkey.isWord]
    rcases hc with rfl | rfl <;> rw [normalizeBreaks_cons (by simp)] <;> rfl
  · rcases hc with rfl | rfl <;> rfl

end Scaffold.Yaml
