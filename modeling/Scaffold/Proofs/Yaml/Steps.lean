import Scaffold.Proofs.Yaml.Stack

/-!
# Runs of local tokens

`Steps n l l'` reads `n` local tokens. Such a run is the same in a document and on top of other
tokens, and a text whose tokens are all local is read by one.
-/

namespace Scaffold.Yaml.Lexer

/-- `l'` has read `n` local tokens more than `l`. -/
inductive Steps : Nat → Lexer → Lexer → Prop
  | refl (l : Lexer) : Steps 0 l l
  | head {n : Nat} {l l₁ l₂ : Lexer} (h : l.step? = some (.inl l₁))
      (hlocal : ∀ t ∈ l₁.tokens.head?, t.isLocal = true) (hrest : Steps n l₁ l₂) :
      Steps (n + 1) l l₂

variable {l l' : Lexer} {m : Surroundings} {base : List Token} {n k : Nat}

theorem Steps.trans {l₁ : Lexer} (h₁ : Steps n l l₁) (h₂ : Steps k l₁ l') :
    Steps (n + k) l l' := by
  induction h₁ with
  | refl l => rwa [Nat.zero_add]
  | @head n l l₁ l₂ h hlocal _ ih =>
    rw [Nat.succ_add_eq_add_succ]
    exact .head h hlocal (ih h₂)

theorem run?_of_steps (h : Steps n l l') : l.run? (n + k) = l'.run? k := by
  induction h with
  | refl l => rw [Nat.zero_add]
  | @head n l l₁ l₂ h _ _ ih =>
    rw [Nat.add_right_comm, run?, h]
    exact ih

theorem Steps.grows (h : Steps n l l') : Grows l l' := by
  induction h with
  | refl l => exact .of_eq rfl rfl rfl
  | head h hlocal _ ih => exact (grows_step? h hlocal).1.trans ih

/-- The last token ends no block. -/
def IsOpen (l : Lexer) : Prop :=
  ∃ t, l.tokens.head? = some t ∧ t ≠ .blockEnd

theorem Steps.isOpen (h : Steps n l l') (hl : l.IsOpen) : l'.IsOpen := by
  induction h with
  | refl l => exact hl
  | head h hlocal _ ih => exact ih (grows_step? h hlocal).2

/-! ## The end of a text -/

theorem finish?_tokens {ts : List Token} (h : l.finish? = some ts) : l.tokens ⊆ ts := by
  obtain ⟨l₁, hforget, heq⟩ := Option.bind_eq_some_iff.1 h
  cases heq
  intro t ht
  rw [List.mem_reverse]
  refine (grows_forgetKey? hforget).tokens ?_
  unfold close
  split
  · exact ht
  · exact (closeBlocks_tokens none l.blocks).2 ht

theorem step?_inr {ts : List Token} (h : l.step? = some (.inr ts)) :
    ∃ r, l.readied? = some r ∧ r.cursor.rest = [] ∧ r.finish? = some ts := by
  rw [step?_eq] at h
  obtain ⟨r, hready, h₁⟩ := Option.bind_eq_some_iff.1 h
  obtain ⟨lead, hlead, h₂⟩ := Option.bind_eq_some_iff.1 h₁
  split at h₂
  · rename_i hfinish
    obtain ⟨ts, hts, heq⟩ := Option.map_eq_some_iff.1 h₂
    cases heq
    exact ⟨r, hready, (lead?_cases hlead).1 hfinish, hts⟩
  · obtain ⟨l₁, -, heq⟩ := Option.map_eq_some_iff.1 h₂
    cases heq

theorem step?_inl_rest (h : l.step? = some (.inl l')) : l.cursor.rest ≠ [] := by
  intro hnil
  rw [step?_eq] at h
  obtain ⟨r, hready, h₁⟩ := Option.bind_eq_some_iff.1 h
  obtain ⟨lead, hlead, h₂⟩ := Option.bind_eq_some_iff.1 h₁
  rw [cursor_readied? hready, toToken_of_nil hnil, hnil] at hlead
  cases hlead
  rw [if_pos rfl] at h₂
  obtain ⟨ts, -, heq⟩ := Option.map_eq_some_iff.1 h₂
  cases heq

theorem steps_of_run? {fuel : Nat} {ts : List Token} (h : l.run? fuel = some ts)
    (hlocal : ∀ t ∈ ts, t.isLocal = true) :
    ∃ n l', Steps n l l' ∧ l'.step? = some (.inr ts) ∧ n < fuel ∧ l.tokens ⊆ ts := by
  induction fuel generalizing l with
  | zero => cases h
  | succ fuel ih =>
    rw [run?] at h
    split at h
    · rename_i l₁ hstep
      obtain ⟨n, l', hsteps, hend, hn, hsub⟩ := ih h
      have hhead : ∀ t ∈ l₁.tokens.head?, t.isLocal = true := fun t ht =>
        hlocal t (hsub (List.mem_of_mem_head? ht))
      exact ⟨n + 1, l', .head hstep hhead hsteps, hend, Nat.succ_lt_succ hn,
        List.Subset.trans (grows_step? hstep hhead).1.tokens hsub⟩
    · rename_i hstep
      cases h
      obtain ⟨r, hready, -, hfinish⟩ := step?_inr hstep
      exact ⟨0, l, .refl l, hstep, Nat.succ_pos fuel,
        List.Subset.trans (grows_readied? hready).tokens (finish?_tokens hfinish)⟩
    · cases h

theorem Steps.of_zero (h : Steps 0 l l') : l' = l := by
  cases h
  rfl

theorem Steps.last (h : Steps (n + 1) l l') :
    ∃ l₁, Steps n l l₁ ∧ l₁.step? = some (.inl l') ∧
      ∀ t ∈ l'.tokens.head?, t.isLocal = true := by
  induction n generalizing l with
  | zero =>
    cases h with
    | head h hlocal hrest =>
      cases hrest
      exact ⟨l, .refl l, h, hlocal⟩
  | succ n ih =>
    cases h with
    | head h hlocal hrest =>
      obtain ⟨l₂, hsteps, hlast⟩ := ih hrest
      exact ⟨l₂, .head h hlocal hsteps, hlast⟩

/-! ## Runs in a document -/

theorem Steps.amid (h : Steps n l l') (hl : l.InText) (hany : Solid m.after ∨ m.after = ['\n'])
    (hend : l'.cursor.rest = [] →
      Solid m.after ∧ (m.after ≠ [] → l'.inFlow = false ∧ l'.blocks ≠ [])) :
    Steps n (l.amid m) (l'.amid m) ∧ l'.InText := by
  induction h with
  | refl l => exact ⟨.refl _, hl⟩
  | @head n l l₁ l₂ h hlocal hrest ih =>
    have hlast : l₁.cursor.rest = [] →
        Solid m.after ∧ (m.after ≠ [] → l₁.inFlow = false ∧ l₁.blocks ≠ []) := by
      intro hnil
      cases hrest with
      | refl => exact hend hnil
      | head h₁ => exact absurd hnil (step?_inl_rest h₁)
    obtain ⟨hstep, htext⟩ := step?_amid hl h hlocal hany hlast
    obtain ⟨hsteps, htext'⟩ := ih htext hend
    exact ⟨.head hstep hlocal hsteps, htext'⟩

theorem Steps.onTop (h : Steps n l l') (hl : l.Counted) :
    Steps n (l.onTop base) (l'.onTop base) := by
  induction h with
  | refl l => exact .refl _
  | @head n l l₁ l₂ h hlocal hrest ih =>
    obtain ⟨hgrows, t, hhead, -⟩ := grows_step? h hlocal
    refine .head ?_ ?_ (ih (hgrows.counted hl))
    · rw [step?_onTop hl, h]
      rfl
    · have hsame : (l₁.onTop base).tokens.head? = l₁.tokens.head? := by
        show (l₁.tokens ++ base).head? = l₁.tokens.head?
        rw [List.head?_append, hhead]
        rfl
      rw [hsame]
      exact hlocal

end Scaffold.Yaml.Lexer
