-- SUMMARY: A small executable Marrow: projects of three fixed files over single-character identifiers, on which the model can be run.
import MarrowLsp.Core.Workspace

/-!
# A small Marrow

`Marrow.sample` is a concrete instance of the linked crates. A project has at
most the files `src/app.mw`, `src/lib.mw` and `tests/t.mw`; a `!` in a file is
a parse error that drops its module, a config names a native store by an `n`,
and every identifier is one character.
-/
namespace MarrowLsp

namespace Sample

structure Config where
  text : Text
  tests : Bool
  deriving DecidableEq, Repr

/-- The files of a project, below its root. -/
def sourceFiles : List Path :=
  [(Path.empty.child "src").child "app.mw", (Path.empty.child "src").child "lib.mw"]

def testFiles : List Path := [(Path.empty.child "tests").child "t.mw"]

def discover (files : List Path) (fs : Fs) (root : Path) : List Path :=
  (files.map root.join).filter fs.isFile

abbrev Program := List Path
abbrev Generation := List SourceText × Option Nat

/-- The analyzed files of a project whose files read as `texts`, in order. -/
def analyzedFiles (root : Path) (texts : List SourceText) : List AnalyzedFile :=
  ((sourceFiles ++ testFiles).zip texts).filterMap fun
    | (file, .text source) => some ⟨root.join file, source, source.contains '!'⟩
    | _ => none

def textsOf (i : AnalyzerInputs Config Nat (List UInt8)) : List SourceText :=
  (sourceFiles ++ testFiles).map fun file => i.texts (i.root.join file)

def check (i : AnalyzerInputs Config Nat (List UInt8)) :
    AnalysisSnapshot Program Generation :=
  let files := analyzedFiles i.root (textsOf i)
  { program := (files.filter (!·.hasErrors)).map (·.path)
    files
    diagnostics := (files.filter (·.hasErrors)).map fun file =>
      ⟨file.path, "parse.error", .error, 0, Utf8.byteLen file.source, "unexpected character"⟩
    generation := (textsOf i, i.accepted) }

/-- The index of a snapshot: where each file's text is. -/
abbrev Index := List (Path × Text)

def buildBindingIndex (s : AnalysisSnapshot Program Generation) : Index :=
  s.files.map fun file => (file.path, file.source)

/-- The byte offsets at which the identifier `c` stands in `source`. -/
def occurrences (c : Char) : Nat → Text → List Nat
  | _, [] => []
  | start, d :: rest =>
    if d = c then start :: occurrences c (start + d.utf8Size) rest
    else occurrences c (start + d.utf8Size) rest

/-- The character that starts at a byte offset. -/
def charAt : Nat → Text → Option Char
  | _, [] => none
  | 0, c :: _ => some c
  | n, c :: rest => charAt (n - c.utf8Size) rest

/-- Rename the identifier at `offset` in `file` wherever it stands. -/
def renameActionAt (index : Index) (file : Path) (offset : Nat) (newName : Text) :
    Except SourceRenameError (List SourceEdit) :=
  match (index.find? fun entry => decide (entry.1 = file)).bind fun entry =>
      charAt offset entry.2 with
  | none => .error .noSymbol
  | some c =>
    .ok <| index.flatMap fun entry =>
      (occurrences c 0 entry.2).map fun start =>
        ⟨entry.1, start, start + c.utf8Size, newName⟩

def renamedName (index : Index) (file : Path) (offset : Nat) : Text :=
  (((index.find? fun entry => decide (entry.1 = file)).bind fun entry =>
    charAt offset entry.2).toList)

def segments (path : Path) : List String :=
  match path with
  | .push p (.normal name) => segments p ++ [name]
  | _ => []

def toFilePath (url : Url) : Option Path :=
  if "file:///".toList.isPrefixOf url.asStr.toList then
    some (((url.asStr.toList.drop 8).splitOn '/').foldl
      (fun path name => path.child (String.ofList name)) .rootDir)
  else none

def urlOf (path : Path) : Url := ⟨String.join ("file://" :: (segments path).map ("/" ++ ·))⟩

/-- The `file://` URL of a path, where it names that path. -/
def fromFilePath (path : Path) : Option Url :=
  if toFilePath (urlOf path) = some path then some (urlOf path) else none

/-- A committed store: its commit id and accepted catalog. -/
structure StoreView where
  commitId : Nat
  catalog : Nat
  deriving DecidableEq, Repr

/-- A project directory directly below the root. -/
def projectDir (name : String) : Path := Path.rootDir.child name

/-- The main source file of a project. -/
def app (name : String) : Path := ((projectDir name).child "src").child "app.mw"

def storeFile (root : Path) : Path := (root.child "data").child NATIVE_STORE_FILE_NAME

/-- A file system that holds the given files and their texts. -/
def fsOf (files : List (Path × Text)) : Fs where
  isFile path := files.any fun f => decide (f.1 = path)
  pathExists path := files.any fun f => decide (f.1 = path)
  readToString path :=
    match files.find? fun f => decide (f.1 = path) with
    | some f => .ok f.2
    | none => .error "not found"
  readBytes path := (files.find? fun f => decide (f.1 = path)).map fun f =>
    f.2.map fun c => UInt8.ofNat c.toNat
  canonicalize path := if files.any fun f => f.1.startsWith path then some path else none
  stat path := (files.find? fun f => decide (f.1 = path)).map fun f => ⟨0, f.2.length⟩

end Sample

/-- The sample instance of the linked crates. -/
def Marrow.sample : Marrow where
  Config := Sample.Config
  Catalog := Nat
  Lock := List UInt8
  Generation := Sample.Generation
  Program := Sample.Program
  Index := Sample.Index
  StoreUid := Nat
  StoreView := Sample.StoreView
  SurfaceSnapshot := Sample.Program
  ReadSession := Sample.Program
  StampedRoots := Sample.Program
  IoError := String
  ConfigError := String
  DiscoverError := String
  parseConfig text := if text = [] then .error "empty config" else .ok ⟨text, true⟩
  configUnreadable message := message
  configMessage message := message
  ioMessage message := message
  discoverMessage message := message
  sourceRoots _ := [Path.empty.child "src"]
  clearTests config := { config with tests := false }
  testModuleFile root config path :=
    config.tests && decide (path ∈ Sample.testFiles.map root.join)
  discoverModules fs root _ := .ok (Sample.discover Sample.sourceFiles fs root)
  discoverTestModules fs root config :=
    .ok (if config.tests then Sample.discover Sample.testFiles fs root else [])
  check := Sample.check
  modulesIsEmpty program := program.isEmpty
  sourceDigest program := toString program.length
  readOnlyContextDigest _ := ""
  buildBindingIndex := Sample.buildBindingIndex
  sourceOnlyRenameActionAt := Sample.renameActionAt
  renamedName := Sample.renamedName
  nativeStorePath root config :=
    .ok (if 'n' ∈ config.text then some (Sample.storeFile root) else none)
  readCommittedLock fs root := .ok (fs.readBytes (root.child COMMITTED_LOCK_FILE))
  pin _ := .ok ()
  storeUid _ := .ok (some 0)
  commitMetadata view := .ok (some ⟨view.commitId, view.commitId⟩)
  acceptedCatalog view _ := .ok (some view.catalog)
  dataViewUnavailableReason _ config :=
    .ok (if 'n' ∈ config.text then none else some "memory store")
  admitsCheckedProgram session program := decide (session = program)
  savedDataRoots session := some session
  toFilePath := Sample.toFilePath
  fromFilePath := Sample.fromFilePath

namespace Sample

/-- The files of projects that hold `src/app.mw` only. -/
def projectFiles (projects : List (String × Text)) : List (Path × Text) :=
  projects.flatMap fun (name, source) =>
    [((projectDir name).child CONFIG_FILE, ['m']), (app name, source)]

def world (files : List (Path × Text)) : World Marrow.sample where
  fs := fsOf files
  openStore _ := none
  openSurface _ := none
  openReadOnly _ := none

/-- Two projects with the same content. -/
def twins : World Marrow.sample := world (projectFiles [("A", ['x']), ("B", ['x'])])

end Sample

/-- Under one root the sample's generation fixes every text it indexes. -/
theorem Sample.indexByGeneration : Marrow.sample.IndexByGeneration := by
  intro i i' hroot hgen
  have htexts : textsOf i = textsOf i' := congrArg Prod.fst hgen
  show buildBindingIndex (check i) = buildBindingIndex (check i')
  simp only [buildBindingIndex, check, hroot, htexts]

theorem Sample.urlNamesFile : Marrow.sample.UrlNamesFile := by
  intro path url h
  change Sample.fromFilePath path = some url at h
  unfold Sample.fromFilePath at h
  split at h
  · next hto =>
    cases h
    exact hto
  · cases h

/-- Of files with different paths each one's text is the one analyzed for its path. -/
theorem AnalysisSnapshot.textOf_of_mem {Program Generation : Type}
    {snapshot : AnalysisSnapshot Program Generation} {analyzed : AnalyzedFile}
    (hnodup : (snapshot.files.map (·.path)).Nodup) (hmem : analyzed ∈ snapshot.files) :
    snapshot.textOf analyzed.path = some analyzed.source := by
  unfold textOf
  cases hfind : snapshot.files.reverse.find? fun entry => entry.path == analyzed.path with
  | none =>
    have hnone := List.find?_eq_none.mp hfind analyzed (List.mem_reverse.mpr hmem)
    exact absurd (beq_self_eq_true _) hnone
  | some entry =>
    have hentry : entry ∈ snapshot.files := List.mem_reverse.mp (List.mem_of_find?_eq_some hfind)
    have hpath := List.find?_some hfind
    rw [beq_iff_eq] at hpath
    rw [List.inj_on_of_nodup_map hnodup hentry hmem hpath]
    rfl

namespace Sample

open Utf8

theorem analyzedFiles_nodup (root : Path) (texts : List SourceText) :
    ((analyzedFiles root texts).map (·.path)).Nodup := by
  have hsublist : ∀ (files : List Path) (texts : List SourceText),
      List.Sublist (((files.zip texts).filterMap fun
        | (file, .text source) => some ⟨root.join file, source, source.contains '!'⟩
        | _ => none).map AnalyzedFile.path) (files.map root.join) := by
    intro files
    induction files with
    | nil =>
      intro texts
      exact List.Sublist.refl _
    | cons file files ih =>
      intro texts
      cases texts with
      | nil => exact List.nil_sublist _
      | cons text texts =>
        cases text with
        | text source => exact (ih texts).cons_cons _
        | missing => exact (ih texts).cons _
        | unreadable => exact (ih texts).cons _
  refine (hsublist (sourceFiles ++ testFiles) texts).nodup ?_
  simp [sourceFiles, testFiles, Path.join, Path.child]

/-- Where an identifier occurs, its slice is the identifier. -/
theorem slice_of_mem_occurrences {c : Char} {before source : Text} {start : Nat}
    (h : start ∈ occurrences c (byteLen before) source) :
    slice (before ++ source) start (start + c.utf8Size) = some [c] := by
  induction source generalizing before with
  | nil => cases h
  | cons d rest ih =>
    have hshift : byteLen before + d.utf8Size = byteLen (before ++ [d]) := by simp
    have hsource : before ++ d :: rest = before ++ [d] ++ rest := by simp
    unfold occurrences at h
    rw [hshift] at h
    split at h
    · next hd =>
      subst hd
      rcases List.mem_cons.mp h with rfl | hrest
      · exact slice_append before [d] rest
      · rw [hsource]
        exact ih hrest
    · rw [hsource]
      exact ih h

theorem renameCorrect : Marrow.sample.RenameCorrect := by
  intro i file offset newName edits haction edit hmem
  change renameActionAt (buildBindingIndex (check i)) file offset newName = .ok edits at haction
  show ∃ source, (check i).textOf edit.file = some source ∧
    slice source edit.startByte edit.endByte =
      some (renamedName (buildBindingIndex (check i)) file offset)
  unfold renamedName
  unfold renameActionAt at haction
  cases hname : ((buildBindingIndex (check i)).find? fun entry => decide (entry.1 = file)).bind
      fun entry => charAt offset entry.2 with
  | none =>
    rw [hname] at haction
    cases haction
  | some c =>
    rw [hname] at haction
    cases haction
    obtain ⟨⟨path, source⟩, hentry, hedit⟩ := List.mem_flatMap.mp hmem
    obtain ⟨start, hstart, rfl⟩ := List.mem_map.mp hedit
    obtain ⟨analyzed, hanalyzed, hpair⟩ := List.mem_map.mp hentry
    cases hpair
    refine ⟨analyzed.source, AnalysisSnapshot.textOf_of_mem (analyzedFiles_nodup _ _) hanalyzed, ?_⟩
    exact @slice_of_mem_occurrences c [] analyzed.source start hstart

end Sample

end MarrowLsp
