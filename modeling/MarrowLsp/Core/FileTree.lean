-- SUMMARY: Path resolution over a tree of directories, files and symbolic links, dangling ones included.
import MarrowLsp.Core.Marrow

/-!
# File trees

What the operating system makes of a path: each component is looked up in the
directory reached so far, a symbolic link is replaced by its target wherever it
stands, and a name that does not exist leaves a place where it would be
created. A location is a path from `rootDir` by normal names.
-/
namespace MarrowLsp

namespace Path

/-- The components below the start of the path, in order. -/
def components : Path → List Component
  | .push p c => p.components ++ [c]
  | .empty | .rootDir => []

def isAbsolute : Path → Bool
  | .push p _ => p.isAbsolute
  | .rootDir => true
  | .empty => false

/-- The path with `names` below it, outermost first. -/
def descend (p : Path) (names : List String) : Path := names.foldl child p

/-- Every normal component is a name, not a spelling of `.` or `..`. -/
def Proper : Path → Prop
  | .push p (.normal name) => p.Proper ∧ name ≠ "." ∧ name ≠ ".."
  | .push p _ => p.Proper
  | .empty | .rootDir => True

@[simp] theorem descend_nil (p : Path) : p.descend [] = p := rfl

@[simp] theorem descend_cons (p : Path) (name : String) (names : List String) :
    p.descend (name :: names) = (p.child name).descend names := rfl

@[simp] theorem isAbsolute_child (p : Path) (name : String) :
    (p.child name).isAbsolute = p.isAbsolute := rfl

@[simp] theorem components_child (p : Path) (name : String) :
    (p.child name).components = p.components ++ [.normal name] := rfl

theorem isAbsolute_descend (p : Path) (names : List String) :
    (p.descend names).isAbsolute = p.isAbsolute := by
  induction names generalizing p with
  | nil => rfl
  | cons name names ih => exact ih (p.child name)

theorem components_descend (p : Path) (names : List String) :
    (p.descend names).components = p.components ++ names.map .normal := by
  induction names generalizing p with
  | nil => simp
  | cons name names ih => simp [ih]

/-- A path read from a string spells its components properly. -/
theorem proper_ofString (s : String) : (ofString s).Proper := by
  unfold ofString
  refine List.foldlRecOn _ _ (motive := fun path : Path => path.Proper) ?_ ?_
  · split
    · trivial
    · split <;> trivial
  · intro path hpath part _
    split
    · exact hpath
    · rename_i hdot
      split
      · exact hpath
      · rename_i hdots
        refine ⟨hpath, ?_, ?_⟩
        · intro h
          apply hdot
          right
          have := congrArg String.toList h
          simpa using this
        · intro h
          apply hdots
          have := congrArg String.toList h
          simpa using this

end Path

/-- What a location holds. -/
inductive Node where
  | dir
  | file
  | link (target : Path)
  deriving DecidableEq, Repr

/-- The nodes of a file system by location, the working directory, and how many
links one resolution may follow. -/
structure FileTree where
  node : Path → Option Node
  cwd : Path
  maxLinks : Nat

/-- Where a path leads: to something there, or to where it would be created. -/
inductive Spot where
  | present (loc : Path)
  | missing (loc : Path)
  deriving DecidableEq, Repr

def Spot.loc : Spot → Path
  | .present loc | .missing loc => loc

/-- Entering one component: the spot it leads to, or a link still to follow. -/
inductive Entry where
  | at (spot : Spot)
  | via (start : Path) (target : List Component)

namespace FileTree

variable (tree : FileTree)

def isDir (loc : Path) : Bool := decide (loc = .rootDir) || decide (tree.node loc = some .dir)

/-- Where the walk along a path read in the directory `dir` starts. -/
def startIn (dir : Path) (path : Path) : Path := if path.isAbsolute then .rootDir else dir

/-- Enter one component. Below a missing name only further names can stand, and
only a directory can be entered. -/
def enter : Spot → Component → Option Entry
  | .missing loc, .normal name => some (.at (.missing (loc.child name)))
  | .missing _, _ => none
  | .present loc, c =>
    if tree.isDir loc then
      match c with
      | .curDir => some (.at (.present loc))
      -- The parent of the root directory is the root directory.
      | .parentDir => some (.at (.present (loc.parent.getD loc)))
      | .normal name =>
        match tree.node (loc.child name) with
        | none => some (.at (.missing (loc.child name)))
        | some (.link target) => some (.via (startIn loc target) target.components)
        | some _ => some (.at (.present (loc.child name)))
    else none

/-- Walk along components, handing a link and what follows it to `follow`. -/
def walkWith (links : Nat) (follow : Spot → List Component → Option (Spot × Nat)) :
    Spot → List Component → Option (Spot × Nat)
  | spot, [] => some (spot, links)
  | spot, c :: rest =>
    match tree.enter spot c with
    | none => none
    | some (.at spot) => walkWith links follow spot rest
    | some (.via start target) => follow (.present start) (target ++ rest)

/-- The walk along components that may follow `links` more links, with the number
of links it leaves. -/
def walk : Nat → Spot → List Component → Option (Spot × Nat)
  | 0 => tree.walkWith 0 fun _ _ => none
  | links + 1 => tree.walkWith (links + 1) (walk links)

/-- The walk along a path from the working directory. -/
def trace (path : Path) : Option (Spot × Nat) :=
  tree.walk tree.maxLinks (.present (startIn tree.cwd path)) path.components

/-- What a path leads to. The empty path leads nowhere. -/
def lookup (path : Path) : Option (Spot × Nat) :=
  if path = .empty then none else tree.trace path

/-- The location a path leads to, with every link on the way followed. -/
def location (path : Path) : Option Path := (tree.lookup path).map fun found => found.1.loc

/-- `Path::canonicalize`: the location of a path that exists. -/
def canonicalize (path : Path) : Option Path :=
  match tree.lookup path with
  | some (.present loc, _) => some loc
  | _ => none

/-- `Path::is_file`, which follows links. -/
def isFile (path : Path) : Bool :=
  match tree.canonicalize path with
  | some loc => decide (tree.node loc = some .file)
  | none => false

/-- The file system the program sees, with its contents taken from `contents`. -/
def fs (contents : Fs) : Fs :=
  { contents with
    isFile := tree.isFile
    pathExists := fun path => (tree.canonicalize path).isSome
    canonicalize := tree.canonicalize }

/-! ## Walks -/

@[simp] theorem walk_nil (links : Nat) (spot : Spot) :
    tree.walk links spot [] = some (spot, links) := by
  cases links <;> rfl

theorem walk_cons (links : Nat) (spot : Spot) (c : Component) (rest : List Component) :
    tree.walk links spot (c :: rest) =
      match tree.enter spot c with
      | none => none
      | some (.at spot) => tree.walk links spot rest
      | some (.via start target) =>
        match links with
        | 0 => none
        | links + 1 => tree.walk links (.present start) (target ++ rest) := by
  cases links with
  | zero => simp only [walk, walkWith]
  | succ links => simp only [walk, walkWith]

/-- A walk stops and goes on without losing anything but the links it followed. -/
theorem walk_append (links : Nat) (spot : Spot) (front rest : List Component) :
    tree.walk links spot (front ++ rest) =
      (tree.walk links spot front).bind fun found => tree.walk found.2 found.1 rest := by
  induction links generalizing spot front rest with
  | zero =>
    induction front generalizing spot with
    | nil => simp
    | cons c front ih =>
      simp only [List.cons_append, walk_cons]
      cases tree.enter spot c with
      | none => rfl
      | some entry =>
        cases entry with
        | «at» next => exact ih next
        | via start target => rfl
  | succ links ihLinks =>
    induction front generalizing spot with
    | nil => simp
    | cons c front ih =>
      simp only [List.cons_append, walk_cons]
      cases tree.enter spot c with
      | none => rfl
      | some entry =>
        cases entry with
        | «at» next => exact ih next
        | via start target =>
          -- What follows the link stays behind the link's own target.
          simpa [List.append_assoc] using ihLinks (.present start) (target ++ front) rest

/-- Below a missing name the remaining names are where they would be created. -/
theorem walk_missing (links : Nat) (loc : Path) (names : List String) :
    tree.walk links (.missing loc) (names.map .normal) =
      some (.missing (loc.descend names), links) := by
  induction names generalizing loc with
  | nil => simp
  | cons name names ih =>
    simp only [List.map_cons, walk_cons, enter, Path.descend_cons]
    exact ih (loc.child name)

theorem trace_push (p : Path) (c : Component) :
    tree.trace (.push p c) =
      (tree.trace p).bind fun found => tree.walk found.2 found.1 [c] :=
  walk_append tree tree.maxLinks _ p.components [c]

theorem trace_descend (p : Path) (names : List String) :
    tree.trace (p.descend names) =
      (tree.trace p).bind fun found => tree.walk found.2 found.1 (names.map .normal) := by
  unfold trace startIn
  rw [Path.isAbsolute_descend, Path.components_descend]
  exact walk_append tree tree.maxLinks _ p.components _

/-- A path that exists is not empty, and its walk ends at its location. -/
theorem canonicalize_eq_some_iff {path loc : Path} :
    tree.canonicalize path = some loc ↔
      path ≠ .empty ∧ ∃ links, tree.trace path = some (.present loc, links) := by
  unfold canonicalize lookup
  by_cases hempty : path = .empty
  · simp [hempty]
  · simp only [hempty, if_false, not_false_eq_true, ne_eq, true_and]
    cases htrace : tree.trace path with
    | none => simp
    | some found =>
      obtain ⟨spot, links⟩ := found
      cases spot with
      | present place => simp
      | missing place => simp

/-- A path whose walk stops has no location, nor has any path that goes on from it. -/
theorem trace_eq_none_of_startsWith {path front : Path} {c : Component}
    (hstarts : path.startsWith (.push front c) = true)
    (hnone : tree.trace (.push front c) = none) : tree.trace path = none := by
  induction path with
  | empty => simp [Path.startsWith] at hstarts
  | rootDir => simp [Path.startsWith] at hstarts
  | push parent last ih =>
    simp only [Path.startsWith, Bool.or_eq_true, decide_eq_true_eq] at hstarts
    obtain heq | hparent := hstarts
    · rw [heq]
      exact hnone
    · rw [trace_push, ih hparent]
      rfl

/-- No walk that ends in `..` ends at a missing name. -/
theorem trace_parentDir_of_canonicalize {p : Path}
    (h : tree.canonicalize (.push p .parentDir) = none) :
    tree.trace (.push p .parentDir) = none := by
  have hnot : ¬ ∃ loc links, tree.trace (.push p .parentDir) = some (.present loc, links) := by
    rintro ⟨loc, links, htrace⟩
    have := (canonicalize_eq_some_iff tree).mpr ⟨Path.noConfusion, links, htrace⟩
    rw [h] at this
    cases this
  rw [trace_push] at hnot ⊢
  cases hp : tree.trace p with
  | none => rfl
  | some found =>
    obtain ⟨spot, links⟩ := found
    rw [hp] at hnot
    simp only [Option.bind_some, walk_cons] at hnot ⊢
    cases spot with
    | missing loc => simp [enter]
    | present loc =>
      simp only [enter] at hnot ⊢
      by_cases hdir : tree.isDir loc
      · simp [hdir] at hnot
      · simp [hdir]

/-- A file below a path is reached through what the path leads to. -/
theorem canonicalize_of_isFile_child {p : Path} {name : String}
    (h : tree.isFile (p.child name) = true) :
    ∃ loc links, tree.trace p = some (.present loc, links) := by
  unfold isFile at h
  split at h
  · rename_i loc hloc
    obtain ⟨-, links, htrace⟩ := (canonicalize_eq_some_iff tree).mp hloc
    rw [Path.child, trace_push] at htrace
    cases hp : tree.trace p with
    | none => simp [hp] at htrace
    | some found =>
      obtain ⟨spot, left⟩ := found
      cases spot with
      | present place => exact ⟨place, left, rfl⟩
      | missing place =>
        rw [hp] at htrace
        simp [walk_cons, enter] at htrace
  · cases h

end FileTree

end MarrowLsp
