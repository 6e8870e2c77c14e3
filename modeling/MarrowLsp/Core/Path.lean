-- SUMMARY: File-system paths as Rust's `std::path` compares them: by components.
import Mathlib.Data.String.Basic

/-!
# Paths

A path is read off from its end, the way the workspace walks it: `parent`
drops the last component. `PathBuf` equality and `starts_with` compare
components, so a path is its components here.
-/
namespace MarrowLsp

/-- A component of a path below its start. -/
inductive Component where
  | curDir
  | parentDir
  | normal (name : String)
  deriving DecidableEq, Repr

/-- A path: relative from `empty`, absolute from `rootDir`. -/
inductive Path where
  | empty
  | rootDir
  | push (parent : Path) (last : Component)
  deriving DecidableEq, Repr

namespace Path

/-- `Path::parent`. -/
def parent : Path → Option Path
  | .push p _ => some p
  | .empty | .rootDir => none

/-- `Path::join` with a relative or absolute second path. -/
def join (p : Path) : Path → Path
  | .empty => p
  | .rootDir => .rootDir
  -- A `.` is a component only where it begins the path.
  | .push .empty .curDir => if p = .empty then .push .empty .curDir else p
  | .push q c => .push (p.join q) c

/-- `Path::join` with a single file or directory name. -/
def child (p : Path) (name : String) : Path := .push p (.normal name)

/-- `Path::file_name`: the last component when it is a normal name. -/
def fileName : Path → Option String
  | .push _ (.normal name) => some name
  | _ => none

/-- `Path::starts_with`: the components of `base` are a prefix of those of `p`. -/
def startsWith : Path → Path → Bool
  | _, .empty => true
  | .push p c, base => decide (.push p c = base) || p.startsWith base
  | p, base => decide (p = base)

/-- The directories `parent` walks through, nearest first. -/
def ancestors : Path → List Path
  | .push p _ => p :: p.ancestors
  | .empty | .rootDir => []

/-- The number of components, as `components().count()`. -/
def depth : Path → Nat
  | .push p _ => p.depth + 1
  | .empty => 0
  | .rootDir => 1

/-- `Path::extension`: what follows the last `.` of the file name, unless the
name has no `.` or its only `.` is the first character. -/
def extension (p : Path) : Option String :=
  match p.fileName with
  | none => none
  | some name =>
    let after := name.toList.reverse.takeWhile (· ≠ '.')
    if after.length + 1 < name.toList.length then some (String.ofList after.reverse) else none

/-- `PathBuf::from`: separators and `.` between components do not count. -/
def ofString (s : String) : Path :=
  let absolute := s.toList.head? = some '/'
  let parts := s.toList.splitOn '/'
  let start : Path :=
    if absolute then .rootDir
    else if parts.head? = some ['.'] then .push .empty .curDir
    else .empty
  parts.foldl (fun path part =>
    if part = [] ∨ part = ['.'] then path
    else if part = ['.', '.'] then .push path .parentDir
    else path.child (String.ofList part)) start

/-- The components in order, spelled so that they compare as `Path::cmp` does. -/
def sortKey : Path → List String
  | .empty => []
  | .rootDir => ["0"]
  | .push p .curDir => p.sortKey ++ ["1"]
  | .push p .parentDir => p.sortKey ++ ["2"]
  | .push p (.normal name) => p.sortKey ++ ["3" ++ name]

/-- `Path::cmp`: by components. -/
def le (p q : Path) : Prop := p.sortKey ≤ q.sortKey

instance : DecidableRel le := fun p q => inferInstanceAs (Decidable (p.sortKey ≤ q.sortKey))

@[simp] theorem startsWith_empty (p : Path) : p.startsWith .empty = true := by
  cases p <;> rfl

theorem startsWith_push {p base : Path} {c : Component} (h : p.startsWith base = true) :
    (push p c).startsWith base = true := by
  cases base <;> simp [startsWith, h]

theorem startsWith_self (p : Path) : p.startsWith p = true := by
  cases p <;> simp [startsWith]

/-- A path starts with every directory above it. -/
theorem startsWith_of_mem_ancestors {p d : Path} (h : d ∈ p.ancestors) :
    p.startsWith d = true := by
  induction p with
  | empty => simp [ancestors] at h
  | rootDir => simp [ancestors] at h
  | push q c ih =>
    rcases List.mem_cons.mp h with rfl | h
    · exact startsWith_push (startsWith_self _)
    · exact startsWith_push (ih h)

theorem startsWith_child (p : Path) (name : String) : (p.child name).startsWith p = true :=
  startsWith_push (startsWith_self p)

end Path

end MarrowLsp
