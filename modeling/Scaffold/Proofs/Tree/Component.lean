import Scaffold.Proofs.Tree.Location

/-!
# Components of paths

What a path consists of, absolute or not, is said by `componentsOf`: segments that lead nowhere do
not count, but for a dot at the beginning. `slashText` writes down the names among the components.
That is a plain path (`IsPlainPath`), the same for all relative paths that differ in nothing but
idle segments, and behind the root that was taken off it leads to where it led before
(`slashText_canonical`).
-/

namespace Scaffold

/-! ## Plain paths -/

/-- A relative path each of whose segments names something, or nothing at all: no slash is at its
beginning or end, and no segment is empty or a dot. -/
structure IsPlainPath (path : String) : Prop where
  first : path.toList.head? ≠ some '/'
  last : path.toList.getLast? ≠ some '/'
  segments : path ≠ "" → ∀ s ∈ segmentsOf path, s ≠ "" ∧ s ≠ "."

section

variable {names : List String}

theorem empty_mem_segmentsOf {path : String} {before behind : List Char}
    (h : path.toList = before ++ '/' :: behind) (hends : before = [] ∨ behind = []) :
    "" ∈ segmentsOf path := by
  unfold segmentsOf
  rw [h, List.splitOn_append_cons_self]
  rcases hends with rfl | rfl <;> simp

theorem segmentsOf_nil : segmentsOf ("/".intercalate []) = [""] := by decide

theorem isPlainPath_intercalate (hs : Slashless names) (hidle : ∀ s ∈ names, isIdle s = false) :
    IsPlainPath ("/".intercalate names) := by
  cases names with
  | nil => exact ⟨by decide, by decide, fun h => absurd rfl h⟩
  | cons s names =>
    have hsegments := segmentsOf_intercalate hs (List.cons_ne_nil s names)
    have hnames : ∀ x ∈ segmentsOf ("/".intercalate (s :: names)), x ≠ "" ∧ x ≠ "." := by
      intro x hx
      rw [hsegments] at hx
      simpa [isIdle] using hidle x hx
    have hempty : "" ∉ segmentsOf ("/".intercalate (s :: names)) := fun h => (hnames "" h).1 rfl
    refine ⟨fun h => hempty ?_, fun h => hempty ?_, fun _ => hnames⟩
    · obtain ⟨behind, hbehind⟩ := List.head?_eq_some_iff.1 h
      rw [← List.nil_append ('/' :: behind)] at hbehind
      exact empty_mem_segmentsOf hbehind (.inl rfl)
    · obtain ⟨before, hbefore⟩ := List.getLast?_eq_some_iff.1 h
      exact empty_mem_segmentsOf hbefore (.inr rfl)

namespace Path

variable {root p : Path}

theorem components_withoutSlash (p : Path) :
    (p.withoutSlash.filter fun s => !isIdle s) = p.components := by
  have hempty : isIdle "" = true := by decide
  unfold withoutSlash components
  split
  · rename_i hlast
    obtain ⟨before, hbefore⟩ := List.getLast?_eq_some_iff.1 hlast
    rw [hbefore, List.dropLast_concat, List.filter_append]
    simp [hempty]
  · rfl

theorem components_join_intercalate (root : Path) (hs : Slashless names)
    (hidle : ∀ s ∈ names, isIdle s = false) :
    (root.join ("/".intercalate names)).components = root.components ++ names := by
  have hkept : (names.filter fun s => !isIdle s) = names :=
    List.filter_eq_self.2 fun s hs => by simp [hidle s hs]
  have hjoin : ∀ segments, segmentsOf ("/".intercalate names) = segments →
      (∀ next rest, segments ≠ "" :: next :: rest) →
      (segments.filter fun s => !isIdle s) = names →
      (root.join ("/".intercalate names)).components = root.components ++ names := by
    intro segments hsegments hrelative hfilter
    unfold join
    rw [hsegments]
    split
    · rename_i next rest
      exact absurd rfl (hrelative next rest)
    · rw [← hfilter, ← components_withoutSlash root]
      exact List.filter_append _ _
  cases names with
  | nil => exact hjoin _ segmentsOf_nil nofun (by decide)
  | cons s names =>
    refine hjoin _ (segmentsOf_intercalate hs (List.cons_ne_nil s names)) ?_ hkept
    rintro next rest heq
    obtain ⟨rfl, -⟩ := List.cons.inj heq
    exact absurd (hidle "" List.mem_cons_self) (by decide)

end Path

end

/-! ## Components -/

inductive Component where
  | root
  /-- the dot at the beginning of a path -/
  | here
  | up
  | name (n : String)
  deriving DecidableEq, Repr

def namesOf (path : String) : List String :=
  (segmentsOf path).filter fun s => !isIdle s

namespace Component

def ofName (n : String) : Component :=
  if n = ".." then .up else .name n

/-- What is written for a component, if it does not stand for a place to begin at. -/
def text? : Component → Option String
  | .up => some ".."
  | .name n => some n
  | _ => none

theorem text?_ofName (n : String) : (ofName n).text? = some n := by
  unfold ofName
  split
  · rename_i h
    rw [h]
    rfl
  · rfl

theorem ofName_injective : Function.Injective ofName := fun m n h =>
  Option.some.inj (by rw [← text?_ofName m, h, text?_ofName])

theorem ofName_ne (n : String) : ofName n ≠ .root ∧ ofName n ≠ .here := by
  unfold ofName
  split <;> simp

end Component

/-- A slash at the beginning is the root, and a dot there the directory from which one starts. -/
def beginningOf : (segments : List String) → List Component
  | "" :: _ :: _ => [.root]
  | "." :: _ => [.here]
  | _ => []

def componentsOf (path : String) : List Component :=
  beginningOf (segmentsOf path) ++ (namesOf path).map Component.ofName

def IsAbsolute (path : String) : Prop :=
  path.toList.head? = some '/'

instance (path : String) : Decidable (IsAbsolute path) :=
  inferInstanceAs (Decidable (_ = _))

/-- What is left of `path` when the components of `root` are taken off its beginning. -/
def IsRest (root path rest : String) : Prop :=
  componentsOf path = componentsOf root ++ componentsOf rest

instance (root path rest : String) : Decidable (IsRest root path rest) :=
  inferInstanceAs (Decidable (_ = _))

section

variable {p q root rest : String} {names : List String}

theorem slashless_namesOf (p : String) : Slashless (namesOf p) := fun s hs =>
  slashless_segmentsOf p s (List.mem_filter.1 hs).1

theorem not_idle_of_mem_namesOf {s : String} (hs : s ∈ namesOf p) : isIdle s = false := by
  simpa using (List.mem_filter.1 hs).2

theorem namesOf_intercalate (hs : Slashless names) (hidle : ∀ s ∈ names, isIdle s = false) :
    namesOf ("/".intercalate names) = names := by
  unfold namesOf
  cases names with
  | nil => decide
  | cons s names =>
    rw [segmentsOf_intercalate hs (List.cons_ne_nil s names)]
    exact List.filter_eq_self.2 fun x hx => by simp [hidle x hx]

theorem namesOf_slashText (p : String) : namesOf (slashText p) = namesOf p :=
  namesOf_intercalate (slashless_namesOf p) fun _ => not_idle_of_mem_namesOf

theorem isAbsolute_iff : IsAbsolute p ↔ ∃ next behind, segmentsOf p = "" :: next :: behind := by
  unfold IsAbsolute segmentsOf
  cases p.toList with
  | nil => simp
  | cons c s =>
    rw [List.splitOn_cons_eq_if_modifyHead]
    cases hs : s.splitOn '/' with
    | nil => exact absurd hs (List.splitOn_ne_nil _ _)
    | cons x xs => by_cases hc : c = '/' <;> simp [hc]

theorem beginningOf_of_isAbsolute (h : IsAbsolute p) : beginningOf (segmentsOf p) = [.root] := by
  obtain ⟨next, behind, hsegments⟩ := isAbsolute_iff.1 h
  rw [hsegments]
  rfl

theorem root_mem_beginningOf_iff : .root ∈ beginningOf (segmentsOf p) ↔ IsAbsolute p := by
  rw [isAbsolute_iff]
  unfold beginningOf
  split
  · rename_i hsegments
    simp [hsegments]
  · rename_i hsegments
    simp [hsegments]
  · rename_i habsolute _
    simp only [List.not_mem_nil, false_iff]
    rintro ⟨next, behind, hsegments⟩
    exact habsolute next behind hsegments

theorem root_mem_componentsOf_iff : .root ∈ componentsOf p ↔ IsAbsolute p := by
  unfold componentsOf
  rw [List.mem_append, root_mem_beginningOf_iff, or_iff_left]
  intro h
  obtain ⟨n, -, hn⟩ := List.mem_map.1 h
  exact (Component.ofName_ne n).1 hn

theorem componentsOf_of_isAbsolute (h : IsAbsolute p) :
    componentsOf p = .root :: (namesOf p).map Component.ofName := by
  unfold componentsOf
  rw [beginningOf_of_isAbsolute h]
  rfl

/-- Of a relative path, all that counts but a dot at its beginning are names. -/
theorem filter_componentsOf (h : ¬ IsAbsolute p) :
    (componentsOf p).filter (· ≠ .here) = (namesOf p).map Component.ofName := by
  have hbeginning : (beginningOf (segmentsOf p)).filter (· ≠ .here) = [] := by
    rw [List.filter_eq_nil_iff]
    intro c hc
    have hroot : c ≠ .root := by
      rintro rfl
      exact h (root_mem_beginningOf_iff.1 hc)
    unfold beginningOf at hc
    split at hc <;> simp_all
  unfold componentsOf
  rw [List.filter_append, hbeginning, List.nil_append, List.filter_eq_self]
  intro c hc
  obtain ⟨n, -, rfl⟩ := List.mem_map.1 hc
  simpa using (Component.ofName_ne n).2

theorem filterMap_componentsOf (p : String) :
    (componentsOf p).filterMap Component.text? = namesOf p := by
  have hbeginning : (beginningOf (segmentsOf p)).filterMap Component.text? = [] := by
    unfold beginningOf
    split <;> rfl
  have hwritten : Component.text? ∘ Component.ofName = some := funext Component.text?_ofName
  unfold componentsOf
  rw [List.filterMap_append, hbeginning, List.nil_append, List.filterMap_map, hwritten,
    List.filterMap_some]

/-! ## Absolute paths -/

namespace Path

theorem components_ofText (h : IsAbsolute p) : (Path.ofText p).components = namesOf p := by
  obtain ⟨next, behind, hsegments⟩ := isAbsolute_iff.1 h
  unfold Path.ofText components namesOf
  rw [hsegments]
  rfl

theorem isAbsolute_text (p : Path) : IsAbsolute p.text := by
  unfold IsAbsolute text
  rw [String.toList_append]
  rfl

theorem namesOf_text {p : Path} (h : Slashless p.segments) : namesOf p.text = p.components := by
  unfold text components
  cases hsegments : p.segments with
  | nil => decide
  | cons s segments =>
    have hslashless : Slashless ("" :: s :: segments) := by
      rw [hsegments] at h
      intro x hx
      rcases List.mem_cons.1 hx with rfl | hx
      · simp
      · exact h x hx
    have htext : "/" ++ "/".intercalate (s :: segments) =
        "/".intercalate ("" :: s :: segments) := by
      rw [String.intercalate_cons_cons, String.empty_append]
    rw [htext, namesOf, segmentsOf_intercalate hslashless (List.cons_ne_nil _ _)]
    rfl

theorem componentsOf_text {p : Path} (h : Slashless p.segments) :
    componentsOf p.text = .root :: p.components.map Component.ofName := by
  rw [componentsOf_of_isAbsolute p.isAbsolute_text, namesOf_text h]

end Path

/-! ## Rests -/

/-- A rest is what is below the root, and joined to the root it leads back. -/
theorem IsRest.leads_back (h : IsRest root p rest) (hroot : IsAbsolute root) :
    (Path.ofText root).below? (Path.ofText p) = some (namesOf rest) ∧
      componentsOf ((Path.ofText root).join (slashText rest)).text = componentsOf p := by
  have hnames : namesOf p = namesOf root ++ namesOf rest := by
    rw [← filterMap_componentsOf p, h, List.filterMap_append, filterMap_componentsOf,
      filterMap_componentsOf]
  have hp : IsAbsolute p := by
    rw [← root_mem_componentsOf_iff, h]
    exact List.mem_append_left _ (root_mem_componentsOf_iff.2 hroot)
  constructor
  · rw [Path.below?_eq_some_iff, Path.components_ofText hp, Path.components_ofText hroot, hnames]
  · have hjoin : ((Path.ofText root).join (slashText rest)).components = namesOf p := by
      rw [hnames, ← Path.components_ofText hroot]
      exact Path.components_join_intercalate _ (slashless_namesOf rest) fun _ =>
        not_idle_of_mem_namesOf
    rw [Path.componentsOf_text (slashless_join (slashless_ofText root) _), hjoin,
      componentsOf_of_isAbsolute hp]

/-! ## Canonical paths -/

/-- `slashText` writes a plain path, which it leaves as it is. It writes the same for two relative
paths just when they have the same components but for dots, and for the rest of a path behind a root
it writes what leads from the root to where the path leads. -/
theorem slashText_canonical :
    (∀ p, IsPlainPath (slashText p) ∧ slashText (slashText p) = slashText p) ∧
    (∀ p q, ¬ IsAbsolute p → ¬ IsAbsolute q →
      (slashText p = slashText q ↔
        (componentsOf p).filter (· ≠ .here) = (componentsOf q).filter (· ≠ .here))) ∧
    ∀ root p rest, IsAbsolute root → IsRest root p rest →
      (Path.ofText root).below? (Path.ofText p) = some (namesOf rest) ∧
      componentsOf ((Path.ofText root).join (slashText rest)).text = componentsOf p := by
  refine ⟨fun p => ⟨?_, ?_⟩, fun p q hp hq => ?_, fun root p rest hroot h => h.leads_back hroot⟩
  · exact isPlainPath_intercalate (slashless_namesOf p) fun _ => not_idle_of_mem_namesOf
  · exact congrArg ("/".intercalate ·) (namesOf_slashText p)
  · rw [filter_componentsOf hp, filter_componentsOf hq,
      List.map_inj_right fun _ _ h => Component.ofName_injective h]
    constructor
    · intro h
      rw [← namesOf_slashText p, h, namesOf_slashText]
    · exact fun h => congrArg ("/".intercalate ·) h

theorem slashText_canonical_spelled :
    slashText ".//a/./../b/" = "a/../b" ∧ slashText "a/..//b" = slashText ".//a/./../b/" ∧
      IsRest "/r//s/." "//r/./s/x/.././y:z/" "x/../y:z" ∧
      componentsOf ((Path.ofText "/r//s/.").join (slashText "x/../y:z")).text =
        [.root, .name "r", .name "s", .name "x", .up, .name "y:z"] := by
  obtain ⟨-, hsame, hrest⟩ := slashText_canonical
  have hbehind : IsRest "/r//s/." "//r/./s/x/.././y:z/" "x/../y:z" := by decide
  refine ⟨by decide, (hsame _ _ (by decide) (by decide)).2 (by decide), hbehind, ?_⟩
  rw [(hrest _ _ _ (by decide) hbehind).2]
  decide

end

end Scaffold
