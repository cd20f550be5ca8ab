import Mathlib.Data.List.Infix
import Mathlib.Data.List.TakeWhile

/-! Paths as a platform reads them: the components of a path, what is left of it behind another
path, and the join of two paths.
-/

namespace Hane.Foundations

/-- How a platform reads the units of a path.
* `hasPrefix` tells the paths that begin with a prefix other than separators, such as a drive.
* A prefix lies before the first separator.
-/
structure PathRules (α : Type) where
  isSeparator : α → Bool
  mainSeparator : α
  dot : α
  hasPrefix : List α → Bool
  mainSeparator_separates : isSeparator mainSeparator = true
  dot_names : isSeparator dot = false
  hasPrefix_append
    : ∀ {name : List α} {separator : α} (rest : List α),
        name ≠ []
        → isSeparator separator = true
        → hasPrefix (name ++ separator :: rest) = hasPrefix name

/-- A component of a path. An anchored path, one that begins with a prefix or a separator, is one
component as a whole, and no other path has it.
-/
inductive PathComponent (α : Type) where
  | anchor (path : List α)
  | curDir
  | parentDir
  | normal (name : List α)
  deriving DecidableEq

namespace PathRules

variable {α : Type} [DecidableEq α] (rules : PathRules α)

-- Components

def isAnchored (path : List α) : Bool :=
  rules.hasPrefix path || path.head?.any rules.isSeparator

/-- Whether the first component is the current directory. -/
def startsWithDot : List α → Bool
  | [] => false
  | first :: rest => first = rules.dot && rest.head?.all rules.isSeparator

/-- What a name between two separators stands for. -/
def nameComponent (name : List α) : Option (PathComponent α) :=
  if name = [] ∨ name = [rules.dot] then none
  else if name = [rules.dot, rules.dot] then some .parentDir
  else some (.normal name)

def nameComponents (path : List α) : List (PathComponent α) :=
  (path.splitOnP rules.isSeparator).filterMap rules.nameComponent

def components (path : List α) : List (PathComponent α) :=
  if rules.isAnchored path then [.anchor path]
  else if rules.startsWithDot path then .curDir :: rules.nameComponents path
  else rules.nameComponents path

/-- Two paths are the same when their components are. -/
def samePath (left right : List α) : Bool := rules.components left = rules.components right

def startsWith (path base : List α) : Bool :=
  (rules.components base).isPrefixOf (rules.components path)

-- What is left of a path

/-- A path without the separators and current directories it begins with. -/
def trimLeft : List α → List α
  | [] => []
  | first :: rest =>
    if rules.isSeparator first || rules.startsWithDot (first :: rest) then trimLeft rest
    else first :: rest

/-- A path without the separators and current directories it ends with, given whether it begins
at the start of a name.
-/
def trimRight : Bool → List α → List α
  | _, [] => []
  | starts, first :: rest =>
    match trimRight (rules.isSeparator first) rest with
    | [] => if rules.isSeparator first || (starts && first = rules.dot) then [] else [first]
    | kept => first :: kept

def skipNames : Nat → List α → List α
  | 0, path => path
  | count + 1, path =>
    skipNames count ((rules.trimLeft path).dropWhile fun item => !rules.isSeparator item)

/-- A path that is not anchored behind its first components. -/
def behind (path : List α) (count : Nat) : List α :=
  if rules.startsWithDot path then
    match count with
    | 0 => path.take 1 ++ rules.trimRight false (path.drop 1)
    | count + 1 => rules.trimRight true (rules.trimLeft (rules.skipNames count (path.drop 1)))
  else if count = 0 then rules.trimRight true path
  else rules.trimRight true (rules.trimLeft (rules.skipNames count path))

def stripPrefix (path base : List α) : Option (List α) :=
  if rules.startsWith path base then
    some <|
      if rules.isAnchored path then if base = [] then path else []
      else rules.behind path (rules.components base).length
  else none

/-- (`rules.join path rest`) for a path that is not anchored. -/
def join (path rest : List α) : List α :=
  if rules.isAnchored rest then rest
  else if path.getLast?.all rules.isSeparator then path ++ rest
  else path ++ rules.mainSeparator :: rest

variable {rules}

-- Names

theorem nameComponent_nil : rules.nameComponent [] = none := if_pos (.inl rfl)

theorem nameComponent_dot : rules.nameComponent [rules.dot] = none := if_pos (.inr rfl)

theorem nameComponents_nil : rules.nameComponents [] = [] := by
  simp [nameComponents, nameComponent_nil]

theorem nameComponents_append {separator : α} (separates : rules.isSeparator separator = true)
    (before after : List α)
    : rules.nameComponents (before ++ separator :: after)
        = rules.nameComponents before ++ rules.nameComponents after := by
  rw [nameComponents, List.splitOnP_append_cons before after separates, List.filterMap_append,
    nameComponents, nameComponents]

theorem nameComponents_separator {separator : α}
    (separates : rules.isSeparator separator = true) (after : List α)
    : rules.nameComponents (separator :: after) = rules.nameComponents after := by
  rw [← List.nil_append (separator :: after), nameComponents_append separates,
    nameComponents_nil, List.nil_append]

theorem nameComponents_name {name : List α}
    (whole : ∀ item ∈ name, rules.isSeparator item = false)
    : rules.nameComponents name = (rules.nameComponent name).toList := by
  rw [nameComponents, List.splitOnP_eq_singleton whole, List.filterMap_cons]
  cases rules.nameComponent name <;> rfl

/-- A path that starts with the current directory has the names behind it. -/
theorem nameComponents_dot {rest : List α} (starts : rules.startsWithDot (rules.dot :: rest))
    : rules.nameComponents (rules.dot :: rest) = rules.nameComponents rest := by
  have names : ∀ item ∈ [rules.dot], rules.isSeparator item = false := by
    simp [rules.dot_names]
  cases rest with
  | nil => rw [nameComponents_name names, nameComponent_dot, nameComponents_nil]; rfl
  | cons second rest =>
      have separates : rules.isSeparator second = true := by
        simpa [startsWithDot] using starts
      rw [nameComponents_separator separates, ← List.singleton_append,
        nameComponents_append separates, nameComponents_name names, nameComponent_dot]
      rfl

/-- The part of a path up to its first separator is its first name. -/
theorem nameComponents_eq (path : List α)
    : rules.nameComponents path
        = (rules.nameComponent (path.takeWhile fun item => !rules.isSeparator item)).toList
            ++ rules.nameComponents (path.dropWhile fun item => !rules.isSeparator item) := by
  have names : ∀ item ∈ path.takeWhile fun item => !rules.isSeparator item,
      rules.isSeparator item = false := fun item member => by
    simpa using List.mem_takeWhile_imp member
  rw [← nameComponents_name names]
  cases after : path.dropWhile fun item => !rules.isSeparator item with
  | nil =>
      have whole : path.takeWhile (fun item => !rules.isSeparator item) = path := by
        have parts := List.takeWhile_append_dropWhile
          (p := fun item => !rules.isSeparator item) (l := path)
        rwa [after, List.append_nil] at parts
      rw [whole, nameComponents_nil, List.append_nil]
  | cons separator rest =>
      have separates : rules.isSeparator separator = true := by
        have stops := List.head_dropWhile_not (fun item => !rules.isSeparator item)
          (l := path) (by simp [after])
        simpa [after] using stops
      have parts := List.takeWhile_append_dropWhile
        (p := fun item => !rules.isSeparator item) (l := path)
      rw [after] at parts
      rw [nameComponents_separator separates, ← nameComponents_append separates, parts]

-- Trimming and skipping

theorem startsWithDot_head {path : List α} (starts : rules.startsWithDot path = true)
    : ∃ rest, path = rules.dot :: rest := by
  cases path with
  | nil => simp [startsWithDot] at starts
  | cons first rest =>
      simp only [startsWithDot, Bool.and_eq_true, decide_eq_true_eq] at starts
      exact ⟨rest, by rw [starts.1]⟩

/-- Trimming at the left keeps the names, by induction over the path. -/
theorem nameComponents_trimLeft (path : List α)
    : rules.nameComponents (rules.trimLeft path) = rules.nameComponents path := by
  induction path with
  | nil => rfl
  | cons first rest ih =>
      by_cases separates : rules.isSeparator first = true
      · rw [trimLeft, if_pos (by simp [separates]), ih, nameComponents_separator separates]
      · by_cases starts : rules.startsWithDot (first :: rest) = true
        · obtain ⟨_, same⟩ := startsWithDot_head starts
          cases same
          rw [trimLeft, if_pos (by simp [starts]), ih, nameComponents_dot starts]
        · rw [trimLeft, if_neg (by simp [separates, starts])]

/-- A path begins at a name: with no separator, and not with the current directory. -/
def AtName (rules : PathRules α) (path : List α) : Prop :=
  path.head?.any rules.isSeparator = false ∧ rules.startsWithDot path = false

/-- What is trimmed at the left begins at a name, by induction over the path. -/
theorem trimLeft_atName (path : List α) : rules.AtName (rules.trimLeft path) := by
  induction path with
  | nil => exact ⟨rfl, rfl⟩
  | cons first rest ih =>
      by_cases trims : (rules.isSeparator first || rules.startsWithDot (first :: rest)) = true
      · rwa [trimLeft, if_pos trims]
      · rw [trimLeft, if_neg trims]
        simp only [Bool.or_eq_true, not_or, Bool.not_eq_true] at trims
        exact ⟨by simpa using trims.1, trims.2⟩

/-- Behind the name a path begins at lie the other names. -/
theorem nameComponents_skipName {path : List α} (atName : rules.AtName path)
    : rules.nameComponents (path.dropWhile fun item => !rules.isSeparator item)
        = (rules.nameComponents path).tail := by
  have whole : rules.nameComponents path = _ := nameComponents_eq path
  cases path with
  | nil => simp [nameComponents_nil]
  | cons first rest =>
      have names : rules.isSeparator first = false := by simpa using atName.1
      have some : ∃ component, rules.nameComponent
          ((first :: rest).takeWhile fun item => !rules.isSeparator item) = some component := by
        rw [List.takeWhile_cons_of_pos (by simp [names])]
        have notDot : ¬(first :: rest.takeWhile fun item => !rules.isSeparator item)
            = [rules.dot] := by
          intro alone
          obtain ⟨rfl, ends⟩ := List.cons.inj alone
          have starts := atName.2
          cases rest with
          | nil => simp [startsWithDot] at starts
          | cons second rest =>
              have separates : rules.isSeparator second = true := by
                by_contra other
                rw [List.takeWhile_cons_of_pos (by simpa using other)] at ends
                exact absurd ends (List.cons_ne_nil _ _)
              simp [startsWithDot, separates] at starts
        by_cases parent : (first :: rest.takeWhile fun item => !rules.isSeparator item)
            = [rules.dot, rules.dot]
        · exact ⟨.parentDir, by rw [nameComponent, if_neg (by simp [notDot]), if_pos parent]⟩
        · exact ⟨.normal _, by rw [nameComponent, if_neg (by simp [notDot]), if_neg parent]⟩
      obtain ⟨component, found⟩ := some
      rw [found] at whole
      rw [whole]
      rfl

/-- Skipping names drops as many components, by induction on how many. -/
theorem nameComponents_skipNames (count : Nat) (path : List α)
    : rules.nameComponents (rules.skipNames count path)
        = (rules.nameComponents path).drop count := by
  induction count generalizing path with
  | zero => rfl
  | succ count ih =>
      rw [skipNames, ih, nameComponents_skipName (trimLeft_atName path),
        nameComponents_trimLeft, List.drop_tail]

/-- Trimming at the right keeps the start of a path, by induction over it. -/
theorem trimRight_prefix (starts : Bool) (path : List α)
    : rules.trimRight starts path <+: path := by
  induction path generalizing starts with
  | nil => exact List.prefix_rfl
  | cons first rest ih =>
      have inner := ih (rules.isSeparator first)
      rw [trimRight]
      split
      · split
        · exact List.nil_prefix
        · exact List.prefix_append [first] rest
      · exact List.cons_prefix_cons.mpr ⟨rfl, inner⟩

/-- What trimming at the right keeps of a path: the first name as a component, also as a name when
the path does not begin at the start of it, and the components behind it.
-/
structure Trims (rules : PathRules α) (starts : Bool) (short path : List α) : Prop where
  component
    : rules.nameComponent (short.takeWhile fun item => !rules.isSeparator item)
        = rules.nameComponent (path.takeWhile fun item => !rules.isSeparator item)
  name
    : starts = false
      → short.takeWhile (fun item => !rules.isSeparator item)
          = path.takeWhile fun item => !rules.isSeparator item
  after
    : rules.nameComponents (short.dropWhile fun item => !rules.isSeparator item)
        = rules.nameComponents (path.dropWhile fun item => !rules.isSeparator item)

theorem Trims.nameComponents {starts : Bool} {short path : List α}
    (trims : rules.Trims starts short path)
    : rules.nameComponents short = rules.nameComponents path := by
  rw [nameComponents_eq short, nameComponents_eq path, trims.component, trims.after]

/-- A separator in front of a trimmed path. -/
theorem Trims.separator {starts : Bool} {first : α} {short rest : List α}
    (separates : rules.isSeparator first = true)
    (trims : rules.Trims true short rest)
    : rules.Trims starts (if short = [] then [] else first :: short)
        (first :: rest) := by
  have names := trims.nameComponents
  split
  · subst short
    refine ⟨by simp [separates], fun _ => by simp [separates], ?_⟩
    rw [List.dropWhile_nil, names, List.dropWhile_cons_of_neg (by simp [separates]),
      nameComponents_separator separates]
  · refine ⟨by simp [separates], fun _ => by simp [separates], ?_⟩
    rw [List.dropWhile_cons_of_neg (by simp [separates]),
      List.dropWhile_cons_of_neg (by simp [separates]), nameComponents_separator separates,
      nameComponents_separator separates, names]

theorem Trims.item {starts : Bool} {first : α} {short rest : List α}
    (names : rules.isSeparator first = false) (trims : rules.Trims false short rest)
    : rules.Trims starts (first :: short) (first :: rest) := by
  have same : (first :: short).takeWhile (fun item => !rules.isSeparator item)
      = (first :: rest).takeWhile fun item => !rules.isSeparator item := by
    rw [List.takeWhile_cons_of_pos (by simp [names]),
      List.takeWhile_cons_of_pos (by simp [names]), trims.name rfl]
  refine ⟨by rw [same], fun _ => same, ?_⟩
  rw [List.dropWhile_cons_of_pos (by simp [names]),
    List.dropWhile_cons_of_pos (by simp [names]), trims.after]

/-- A current directory that nothing but trimmed items follow goes too. -/
theorem Trims.dot {rest : List α} (trims : rules.Trims false [] rest)
    : rules.Trims true [] (rules.dot :: rest) := by
  have names := rules.dot_names
  have alone : rest.takeWhile (fun item => !rules.isSeparator item) = [] := (trims.name rfl).symm
  refine ⟨?_, by simp, ?_⟩
  · rw [List.takeWhile_cons_of_pos (by simp [names]), alone, List.takeWhile_nil,
      nameComponent_nil, nameComponent_dot]
  · rw [List.dropWhile_cons_of_pos (by simp [names]), ← trims.after]

/-- Trimming at the right keeps the components, by induction over the path. -/
theorem trimRight_trims (starts : Bool) (path : List α)
    : rules.Trims starts (rules.trimRight starts path) path := by
  induction path generalizing starts with
  | nil => exact ⟨rfl, fun _ => rfl, rfl⟩
  | cons first rest ih =>
      have inner := ih (rules.isSeparator first)
      cases separates : rules.isSeparator first with
      | true =>
          rw [separates] at inner
          have trims : rules.Trims starts _ (first :: rest) := inner.separator separates
          rw [trimRight, separates]
          split
          next empty => simpa [empty, separates] using trims
          next full => rwa [if_neg full] at trims
      | false =>
          rw [separates] at inner
          rw [trimRight, separates]
          split
          next empty =>
            rw [empty] at inner
            split
            next dotted =>
              simp only [Bool.false_or, Bool.and_eq_true, decide_eq_true_eq] at dotted
              rw [dotted.1, dotted.2]
              exact inner.dot
            next => exact inner.item separates
          next full => exact inner.item separates

-- What is left, and joins

/-- A path that begins with a name: no prefix, no root, no current directory. -/
structure Plain (rules : PathRules α) (path : List α) : Prop where
  relative : rules.isAnchored path = false
  noDot : rules.startsWithDot path = false

theorem Plain.components {path : List α} (plain : rules.Plain path)
    : rules.components path = rules.nameComponents path := by
  simp [PathRules.components, plain.relative, plain.noDot]

theorem Plain.atName {path : List α} (plain : rules.Plain path)
    : rules.AtName path :=
  ⟨(Bool.or_eq_false_iff.mp plain.relative).2, plain.noDot⟩

theorem plain_of_normal {path name : List α} {others : List (PathComponent α)}
    (components : rules.components path = .normal name :: others)
    : rules.Plain path := by
  rw [PathRules.components] at components
  split at components
  next => cases components
  next relative =>
    split at components
    next => cases components
    next noDot => exact ⟨by simpa using relative, by simpa using noDot⟩

/-- Trimming at the right does not move where a path begins. -/
theorem AtName.trimRight {path : List α} (atName : rules.AtName path)
    : rules.AtName (rules.trimRight true path) := by
  cases path with
  | nil => exact ⟨rfl, rfl⟩
  | cons first rest =>
      have start : rules.trimRight true (first :: rest) <+: _ := trimRight_prefix true _
      cases short : rules.trimRight true (first :: rest) with
      | nil => exact ⟨rfl, rfl⟩
      | cons head kept =>
          rw [short] at start
          obtain ⟨rfl, start⟩ := List.cons_prefix_cons.mp start
          refine ⟨by simpa using atName.1, ?_⟩
          have noDot := atName.2
          simp only [startsWithDot, Bool.and_eq_false_iff, decide_eq_false_iff_not] at noDot ⊢
          rcases noDot with other | follows
          · exact .inl other
          · by_cases dotted : head = rules.dot
            · cases kept with
              | nil =>
                  -- A trimmed path never ends in a current directory.
                  have names : rules.isSeparator head = false := by
                    rw [dotted]
                    exact rules.dot_names
                  rw [PathRules.trimRight] at short
                  split at short
                  next => simp [dotted, rules.dot_names] at short
                  next full => exact absurd (List.cons.inj short).2 full
              | cons second more =>
                  obtain ⟨tail, same⟩ := start
                  cases same
                  exact .inr (by simpa using follows)
            · exact .inl dotted

theorem Plain.behind_eq {path : List α} (plain : rules.Plain path) (count : Nat)
    : rules.behind path count
        = rules.trimRight true
            (if count = 0 then path else rules.trimLeft (rules.skipNames count path)) := by
  simp only [behind, plain.noDot, Bool.false_eq_true, if_false]
  split <;> rfl

theorem Plain.nameComponents_behind {path : List α} (plain : rules.Plain path)
    (count : Nat)
    : rules.nameComponents (rules.behind path count)
        = (rules.nameComponents path).drop count := by
  rw [plain.behind_eq, (trimRight_trims true _).nameComponents]
  split
  next none => rw [none, List.drop_zero]
  next => rw [nameComponents_trimLeft, nameComponents_skipNames]

theorem Plain.behind_atName {path : List α} (plain : rules.Plain path) (count : Nat)
    : rules.AtName (rules.behind path count) := by
  rw [plain.behind_eq]
  split
  next => exact plain.atName.trimRight
  next => exact (trimLeft_atName _).trimRight

/-- What is left of a path behind another has the components behind those of the other. -/
theorem Plain.stripPrefix {path base rest : List α} (plain : rules.Plain path)
    (strips : rules.stripPrefix path base = some rest)
    : rules.components path = rules.components base ++ rules.nameComponents rest
      ∧ rules.AtName rest := by
  rw [PathRules.stripPrefix] at strips
  split at strips
  next starts =>
    simp only [plain.relative, Bool.false_eq_true, if_false, Option.some.injEq] at strips
    subst rest
    refine ⟨?_, plain.behind_atName _⟩
    rw [plain.nameComponents_behind, ← plain.components]
    exact List.prefix_append_drop (List.isPrefixOf_iff_prefix.mp starts)
  next => cases strips

theorem Plain.append_separator {path rest : List α} {separator : α} (filled : path ≠ [])
    (separates : rules.isSeparator separator = true) (plain : rules.Plain path)
    : rules.Plain (path ++ separator :: rest) := by
  obtain ⟨first, more, rfl⟩ := List.exists_cons_of_ne_nil filled
  have relative := plain.relative
  have noDot := plain.noDot
  constructor
  · rw [isAnchored, rules.hasPrefix_append rest filled separates]
    simpa [isAnchored] using relative
  · cases more with
    | nil =>
        simp only [startsWithDot, List.head?_nil, Option.all_none, Bool.and_true] at noDot
        simp [startsWithDot, noDot]
    | cons second more => simpa [startsWithDot] using noDot

/-- What follows a separator does not matter to where a path begins. -/
theorem Plain.replace {before rest : List α} {separator : α} (filled : before ≠ [])
    (separates : rules.isSeparator separator = true)
    (plain : rules.Plain (before ++ [separator]))
    : rules.Plain (before ++ separator :: rest) := by
  obtain ⟨first, more, rfl⟩ := List.exists_cons_of_ne_nil filled
  have relative := plain.relative
  have noDot := plain.noDot
  constructor
  · rw [isAnchored, rules.hasPrefix_append [] filled separates] at relative
    rw [isAnchored, rules.hasPrefix_append rest filled separates]
    simpa using relative
  · cases more with
    | nil => simpa [startsWithDot] using noDot
    | cons second more => simpa [startsWithDot] using noDot

theorem Plain.join {path rest : List α} (plain : rules.Plain path)
    (filled : path ≠ []) (relative : rules.isAnchored rest = false)
    : rules.Plain (rules.join path rest)
      ∧ rules.nameComponents (rules.join path rest)
          = rules.nameComponents path ++ rules.nameComponents rest := by
  rw [PathRules.join, if_neg (by simp [relative])]
  split
  next ends =>
    -- The path ends with a separator of its own.
    obtain ⟨before, separator, rfl⟩ : ∃ before separator, path = before ++ [separator] :=
      ⟨_, _, (List.dropLast_append_getLast filled).symm⟩
    have separates : rules.isSeparator separator = true := by simpa using ends
    have named : before ≠ [] := by
      rintro rfl
      simpa [separates] using plain.atName.1
    rw [List.append_assoc, List.singleton_append]
    refine ⟨plain.replace named separates, ?_⟩
    rw [nameComponents_append separates, nameComponents_append separates, nameComponents_nil,
      List.append_nil]
  next =>
    exact ⟨plain.append_separator filled rules.mainSeparator_separates,
      nameComponents_append rules.mainSeparator_separates path rest⟩

end PathRules

end Hane.Foundations
