import Mathlib.Data.List.Forall2
import Scaffold.Proofs.Yaml.Node
import Scaffold.Yaml.Document

/-!
# Values without aliases

A node without aliases is read alike in every document (`readNode_free`). A mapping of such nodes
has the values of its entries, if no key comes twice.
-/

namespace Scaffold.Yaml

/-- The value of a node in which collections are nested at most `depth` deep. -/
def Node.value? (depth : Nat) (node : Node) : Option Value :=
  (readNode [] depth node).run' 0

def entryValue? (f : Node → Option Value) (e : Node × Node) : Option (Value × Value) := do
  let key ← f e.1
  let value ← f e.2
  return (key, value)

/-- The entries behind those of `m`, if no key comes twice. -/
def Mapping.join? (m : Mapping) : List (Value × Value) → Option Mapping
  | [] => some m
  | e :: es => if m.hasKey e.1 then none else join? (m ++ [e]) es

/-! ## Readings that always yield the same -/

theorem lift_bind {α β : Type} (o : Option α) (f : α → Option β) :
    ((StateT.lift o : Reading α) >>= fun a => StateT.lift (f a)) = StateT.lift (o.bind f) := by
  cases o <;> rfl

theorem lift_some_bind {α β : Type} (a : α) (f : α → Reading β) :
    ((StateT.lift (some a) : Reading α) >>= f) = f a := rfl

theorem lift_map {α β : Type} (f : α → β) (o : Option α) :
    (f <$> (StateT.lift o : Reading α)) = StateT.lift (o.map f) := by
  cases o <;> rfl

theorem run'_lift {α : Type} (o : Option α) (n : Nat) : (StateT.lift o : Reading α).run' n = o := by
  cases o <;> rfl

theorem within?_lift {α : Type} (o : Option α) (root : Node) :
    Reading.within? (StateT.lift o) root = o := by
  cases o <;> rfl

theorem mapM_lift {α β : Type} (f : α → Option β) (xs : List α) :
    (xs.mapM fun x => (StateT.lift (f x) : Reading β)) = StateT.lift (xs.mapM f) := by
  induction xs with
  | nil => rfl
  | cons x xs ih =>
    rw [List.mapM_cons, List.mapM_cons, ih]
    cases f x with
    | none => rfl
    | some y => cases xs.mapM f <;> rfl

theorem readEntries_lift {read : Node → Reading Value} {f : Node → Option Value}
    {es : List (Node × Node)} (h : ∀ e ∈ es, read e.1 = StateT.lift (f e.1) ∧
      read e.2 = StateT.lift (f e.2)) (m : Mapping) :
    readEntries read m es = StateT.lift ((es.mapM (entryValue? f)).bind (Mapping.join? m)) := by
  induction es generalizing m with
  | nil => rfl
  | cons e es ih =>
    obtain ⟨k, v⟩ := e
    obtain ⟨hk, hv⟩ := h (k, v) (List.mem_cons_self ..)
    have hrest := ih fun e he => h e (List.mem_cons_of_mem (k, v) he)
    dsimp only at hk hv
    rw [readEntries, hk, hv, List.mapM_cons]
    cases hkey : f k with
    | none => simp only [entryValue?, hkey]; rfl
    | some key =>
      have hpair : entryValue? f (k, v) = (f v).map fun value => (key, value) := by
        simp only [entryValue?, hkey]
        cases f v <;> rfl
      have hguard : (guard ((!Mapping.hasKey m key) = true) : Reading Unit) =
          StateT.lift (if m.hasKey key then none else some ()) := by
        cases m.hasKey key <;> rfl
      have hstep : ∀ value, readEntries read (m ++ [(key, value)]) es =
          StateT.lift ((es.mapM (entryValue? f)).bind (Mapping.join? (m ++ [(key, value)]))) :=
        fun value => hrest (m ++ [(key, value)])
      rw [lift_some_bind, hguard, hpair]
      simp only [hstep, lift_bind]
      cases f v with
      | none => cases m.hasKey key <;> rfl
      | some value =>
        cases es.mapM (entryValue? f) with
        | none => cases m.hasKey key <;> rfl
        | some ms =>
          simp only [Option.map_some, Option.bind_eq_bind, Option.bind_some, Option.pure_def,
            Mapping.join?]
          cases m.hasKey key <;> rfl

theorem areFree_iff {xs : List Node} : Node.areFree xs = true ↔ ∀ x ∈ xs, x.isFree = true := by
  induction xs with
  | nil => simp [Node.areFree]
  | cons x xs ih => simp [Node.areFree, ih]

theorem areFreeEntries_iff {es : List (Node × Node)} :
    Node.areFreeEntries es = true ↔ ∀ e ∈ es, e.1.isFree = true ∧ e.2.isFree = true := by
  induction es with
  | nil => simp [Node.areFreeEntries]
  | cons e es ih => simp [Node.areFreeEntries, ih, and_assoc]

theorem mapM_congr {m : Type → Type} [Monad m] [LawfulMonad m] {α β : Type} {f g : α → m β}
    {xs : List α} (h : ∀ x ∈ xs, f x = g x) : xs.mapM f = xs.mapM g := by
  induction xs with
  | nil => rfl
  | cons x xs ih =>
    rw [List.mapM_cons, List.mapM_cons, h x (List.mem_cons_self ..),
      ih fun y hy => h y (List.mem_cons_of_mem x hy)]

theorem mapM_some_iff {α β : Type} {f : α → Option β} {xs : List α} {ys : List β} :
    xs.mapM f = some ys ↔ List.Forall₂ (fun x y => f x = some y) xs ys := by
  induction xs generalizing ys with
  | nil =>
    rw [List.mapM_nil, List.forall₂_nil_left_iff]
    exact ⟨fun h => (Option.some.inj h).symm, fun h => h ▸ rfl⟩
  | cons x xs ih =>
    rw [List.mapM_cons, List.forall₂_cons_left_iff]
    constructor
    · intro h
      obtain ⟨y, hy, h₁⟩ := Option.bind_eq_some_iff.1 h
      obtain ⟨ys, hys, h₂⟩ := Option.bind_eq_some_iff.1 h₁
      cases h₂
      exact ⟨y, ys, hy, ih.1 hys, rfl⟩
    · rintro ⟨y, ys, hy, hys, rfl⟩
      rw [hy, ih.2 hys]
      rfl

def withTag (tag : Option Tag) (value : Value) : Value :=
  match tag with
  | some t => .tagged t value
  | none => value

theorem readTagged_eq (inner? : Option (Node → Reading Value)) (node : Node) :
    readTagged inner? node = withTag node.ownTag? <$> readContent inner? node := by
  unfold readTagged
  rw [map_eq_pure_bind]
  rfl

theorem follow_free {node : Node} (h : node.isFree = true) (anchored : List (Nat × Node)) :
    follow anchored node = pure node := by
  cases node with
  | «alias» n => cases h
  | _ => rfl

theorem readContent_scalar (inner? : Option (Node → Reading Value)) (p : Properties)
    (text : String) (plain : Bool) :
    readContent inner? (.scalar p text plain) =
      StateT.lift (scalarValue? p.meaning? text plain) := rfl

theorem readTagged_free {node : Node} (h : node.isFree = true)
    {inner? : Option (Node → Reading Value)} {o : Option Value}
    (hread : readContent inner? node = StateT.lift o) (anchored : List (Nat × Node)) :
    (do readTagged inner? (← follow anchored node)) =
      StateT.lift (o.map (withTag node.ownTag?)) := by
  rw [follow_free h, pure_bind, readTagged_eq, hread, lift_map]

theorem readNode_free {depth : Nat} {node : Node} (h : node.isFree = true)
    (anchored : List (Nat × Node)) :
    readNode anchored depth node = StateT.lift (node.value? depth) := by
  suffices hread : ∃ o, ∀ anchored, readNode anchored depth node = StateT.lift o by
    obtain ⟨o, ho⟩ := hread
    rw [ho anchored, Node.value?, ho [], run'_lift]
  induction depth generalizing node with
  | zero =>
    cases node with
    | «alias» n => cases h
    | scalar p text plain => exact ⟨_, readTagged_free h (readContent_scalar none p text plain)⟩
    | sequence p xs => exact ⟨none, fun _ => rfl⟩
    | mapping p es => exact ⟨none, fun _ => rfl⟩
  | succ depth ih =>
    have hinner : ∀ node : Node, node.isFree = true → ∀ anchored,
        readNode anchored depth node = StateT.lift (node.value? depth) := by
      intro node hnode anchored
      obtain ⟨o, ho⟩ := ih hnode
      rw [ho anchored, Node.value?, ho [], run'_lift]
    cases node with
    | «alias» n => cases h
    | scalar p text plain =>
      exact ⟨_, fun anchored => readTagged_free h (readContent_scalar _ p text plain) anchored⟩
    | sequence p xs =>
      have hitem := areFree_iff.1 h
      have hitems : ∀ anchored, readContent (some (readNode anchored depth)) (.sequence p xs) =
          StateT.lift ((xs.mapM (Node.value? depth)).map .sequence) := fun anchored => by
        rw [readContent, mapM_congr fun x hx => hinner x (hitem x hx) anchored, mapM_lift, lift_map]
      exact ⟨_, fun anchored => readTagged_free h (hitems anchored) anchored⟩
    | mapping p es =>
      have hentry := areFreeEntries_iff.1 h
      have hentries : ∀ anchored, readContent (some (readNode anchored depth)) (.mapping p es) =
          StateT.lift (((es.mapM (entryValue? (Node.value? depth))).bind (Mapping.join? [])).map
            .mapping) := fun anchored => by
        rw [readContent, readEntries_lift (fun e he =>
          ⟨hinner e.1 (hentry e he).1 anchored, hinner e.2 (hentry e he).2 anchored⟩) [], lift_map]
      exact ⟨_, fun anchored => readTagged_free h (hentries anchored) anchored⟩

theorem parse?_mapping {text : String} {p : Properties} {es : List (Node × Node)}
    (hroot : root? text = some (some (.mapping p es))) (h : Node.areFreeEntries es = true) :
    Mapping.parse? text =
      (es.mapM (entryValue? (Node.value? (deepestNesting - 1)))).bind (Mapping.join? []) := by
  rw [areFreeEntries_iff] at h
  unfold Mapping.parse?
  rw [hroot]
  dsimp only
  rw [readEntries_lift fun e he =>
    ⟨readNode_free (h e he).1 _, readNode_free (h e he).2 _⟩, within?_lift]

theorem within?_map {α β : Type} (f : α → β) (r : Reading α) (root : Node) :
    Reading.within? (f <$> r) root = (r.within? root).map f := by
  simp only [Reading.within?, StateT.run_map]
  cases r.run (aliasesPerStep * root.steps) <;> rfl

/-- A document without a tag is the mapping that it is read as. -/
theorem parse?_value {text : String} {es : List (Node × Node)}
    (hroot : root? text = some (some (.mapping .bare es))) :
    Value.parse? text = (Mapping.parse? text).map .mapping := by
  have hread : ∀ anchored, readNode anchored deepestNesting (.mapping .bare es) =
      Value.mapping <$> readEntries (readNode anchored (deepestNesting - 1)) [] es := by
    intro anchored
    rw [deepestNesting, readNode, follow, pure_bind, readTagged_eq]
    · exact id_map _
    · nofun
  unfold Value.parse? Mapping.parse?
  rw [hroot]
  dsimp only
  rw [hread, within?_map]

/-! ## Entries one behind the other -/

theorem join?_append (m a b : Mapping) :
    m.join? (a ++ b) = (m.join? a).bind fun m => m.join? b := by
  induction a generalizing m with
  | nil => rfl
  | cons e a ih =>
    rw [List.cons_append, Mapping.join?, Mapping.join?]
    split
    · rfl
    · exact ih (m ++ [e])

theorem join?_some {m a r : Mapping} (h : m.join? a = some r) : r = m ++ a := by
  induction a generalizing m with
  | nil =>
    cases h
    exact (List.append_nil _).symm
  | cons e a ih =>
    rw [Mapping.join?] at h
    split at h
    · cases h
    · rw [ih h, List.append_assoc]
      rfl

/-- Entries that have no key twice behind others have none alone. -/
theorem join?_nil {m a r : Mapping} (h : m.join? a = some r) : Mapping.join? [] a = some a := by
  suffices hall : ∀ m' : Mapping, (∀ key, m'.hasKey key = true → m.hasKey key = true) →
      m'.join? a = some (m' ++ a) from hall [] nofun
  induction a generalizing m with
  | nil =>
    intro m' _
    rw [Mapping.join?, List.append_nil]
  | cons e a ih =>
    intro m' hsub
    rw [Mapping.join?] at h
    split at h
    · cases h
    rename_i hkey
    have hkey' : ¬m'.hasKey e.1 = true := fun hno => hkey (hsub e.1 hno)
    have hmore : ∀ key, Mapping.hasKey (m' ++ [e]) key = true →
        Mapping.hasKey (m ++ [e]) key = true := by
      intro key hhas
      rw [Mapping.hasKey, List.any_append, Bool.or_eq_true] at hhas ⊢
      exact hhas.imp_left (hsub key)
    rw [Mapping.join?, if_neg hkey', ih h (m' ++ [e]) hmore, List.append_assoc]
    rfl

end Scaffold.Yaml
