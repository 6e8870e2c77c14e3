-- SUMMARY: Confinement against path resolution: what an admitted file and its project root resolve to.
import Mathlib.Data.List.Induction
import MarrowLsp.Core.FileTree
import MarrowLsp.Core.Sample
import MarrowLsp.Mcp.Project

/-!
# Confinement

`confinementCheck` compares the allowed root with the longest prefix of a path
that exists, with the remaining names re-attached as they are spelled. The
operating system follows a link wherever it stands, and so also one that is the
first of those names: a dangling link exists for it and not for the check. An allowed
root that does not resolve is placed in the same way, and then something may be below it.
-/
namespace MarrowLsp

/-- What confinement to an allowed root promises about one requested file. -/
structure Confined (tree : FileTree) (contents : Fs) (allowed file : Path) : Prop where
  /-- An admitted file resolves inside the canonical root. -/
  fileInside : ∀ root, tree.canonicalize allowed = some root →
    confinementCheck (tree.fs contents) (some allowed) file = true →
    ∀ loc, tree.location file = some loc → loc.startsWith root = true
  /-- So does its project. -/
  projectInside : ∀ root, tree.canonicalize allowed = some root →
    confinementCheck (tree.fs contents) (some allowed) file = true →
    ∀ projectRoot, projectRootOf (tree.fs contents) file = some projectRoot →
      ∃ loc, tree.location projectRoot = some loc ∧ loc.startsWith root = true
  /-- A path with a `..` that does not resolve is refused. -/
  unresolved : ∀ front, file.startsWith (.push front .parentDir) = true →
    tree.canonicalize (.push front .parentDir) = none →
    confinementCheck (tree.fs contents) (some allowed) file = false
  /-- An allowed root that does not resolve refuses every path. -/
  closed : tree.canonicalize allowed = none →
    confinementCheck (tree.fs contents) (some allowed) file = false

/-- Every project of `file` is at a location in `root`. -/
def ProjectWithin (tree : FileTree) (contents : Fs) (root file : Path) : Prop :=
  ∀ projectRoot, projectRootOf (tree.fs contents) file = some projectRoot →
    ∃ loc, tree.location projectRoot = some loc ∧ loc.startsWith root = true

/-- `file` goes through a dangling link that stands in the root, in a project of
the root or none, and whose target is outside. -/
def LeadsOut (tree : FileTree) (contents : Fs) (root file : Path) : Prop :=
  ∃ existing name rest place target away,
    file = (existing.child name).descend rest ∧
    tree.canonicalize existing = some place ∧
    tree.node (place.child name) = some (.link target) ∧
    tree.canonicalize (existing.child name) = none ∧
    tree.location (existing.child name) = some away ∧
    ((place.child name).descend rest).startsWith root = true ∧
    (away.descend rest).startsWith root = false ∧ ProjectWithin tree contents root file

/-- The place of a path by its longest prefix that exists: the location of the prefix, with
the names after it. -/
def Placed (tree : FileTree) (path place : Path) : Prop :=
  ∃ existing base names, path = existing.descend names ∧
    tree.canonicalize existing = some base ∧ place = base.descend names ∧
    ∀ name rest, names = name :: rest → tree.canonicalize (existing.child name) = none

/-- The place of `file` is in that of an allowed root which does not resolve, and so is the
location of its project. -/
def BelowUnresolved (tree : FileTree) (contents : Fs) (allowed file : Path) : Prop :=
  tree.canonicalize allowed = none ∧ ∃ root place, Placed tree allowed root ∧
    Placed tree file place ∧ place.startsWith root = true ∧ ProjectWithin tree contents root file

/-! ## The longest existing prefix -/

namespace Path

theorem proper_descend {p : Path} {names : List String} :
    (p.descend names).Proper ↔ p.Proper ∧ ∀ name ∈ names, name ≠ "." ∧ name ≠ ".." := by
  induction names generalizing p with
  | nil => simp
  | cons name names ih =>
    simp only [descend_cons, ih, List.forall_mem_cons]
    constructor
    · rintro ⟨⟨hp, hname⟩, hnames⟩
      exact ⟨hp, hname, hnames⟩
    · rintro ⟨hp, hname, hnames⟩
      exact ⟨⟨hp, hname⟩, hnames⟩

theorem descend_ne_empty {p : Path} {names : List String} (h : p ≠ .empty) :
    p.descend names ≠ .empty := by
  induction names generalizing p with
  | nil => exact h
  | cons name names ih =>
    apply ih
    simp [child]

theorem descend_concat (p : Path) (names : List String) (name : String) :
    p.descend (names ++ [name]) = (p.descend names).child name := by
  simp [descend]

end Path

/-- Re-attaching names that are no spelling of `.` or `..` appends them. -/
theorem reattached_eq (names : List String) (resolved : Path)
    (h : ∀ name ∈ names, name ≠ "." ∧ name ≠ "..") :
    names.foldl (fun resolved name =>
      if name = ".." then resolved.parent.getD resolved
      else if name ≠ "." then resolved.child name
      else resolved) resolved = resolved.descend names := by
  induction names generalizing resolved with
  | nil => rfl
  | cons name names ih =>
    obtain ⟨hname, hnames⟩ := List.forall_mem_cons.mp h
    simp only [List.foldl_cons, hname.1, hname.2, if_false, ne_eq, not_false_eq_true, if_true,
      Path.descend_cons]
    exact ih _ hnames

/-- What the probe loop returns is the location of an existing prefix with the
names after it, the first of which does not exist. -/
theorem canonicalExistingPrefix_spec {fs : Fs} {path : Path} {trailing : List String}
    {resolved : Path} (hproper : (path.descend trailing).Proper)
    (h : canonicalExistingPrefix fs path trailing = some resolved) :
    ∃ existing place names, path = existing.descend names ∧
      fs.canonicalize existing = some place ∧
      resolved = place.descend (names ++ trailing) ∧
      ∀ name rest, names = name :: rest → fs.canonicalize (existing.child name) = none := by
  induction path generalizing trailing with
  | empty =>
    unfold canonicalExistingPrefix at h
    split at h
    · rename_i place hplace
      rw [Option.some.injEq, reattached_eq _ _ (Path.proper_descend.mp hproper).2] at h
      exact ⟨.empty, place, [], rfl, hplace, h.symm, by simp⟩
    · cases h
  | rootDir =>
    unfold canonicalExistingPrefix at h
    split at h
    · rename_i place hplace
      rw [Option.some.injEq, reattached_eq _ _ (Path.proper_descend.mp hproper).2] at h
      exact ⟨.rootDir, place, [], rfl, hplace, h.symm, by simp⟩
    · cases h
  | push parent last ih =>
    unfold canonicalExistingPrefix at h
    split at h
    · rename_i place hplace
      rw [Option.some.injEq, reattached_eq _ _ (Path.proper_descend.mp hproper).2] at h
      exact ⟨.push parent last, place, [], rfl, hplace, h.symm, by simp⟩
    · rename_i hnone
      cases last with
      | curDir => cases h
      | parentDir => cases h
      | normal name =>
        obtain ⟨existing, place, names, hsplit, hplace, hresolved, hfirst⟩ :=
          @ih (name :: trailing) hproper h
        refine ⟨existing, place, names ++ [name], ?_, hplace, ?_, ?_⟩
        · rw [hsplit, Path.descend_concat]
          rfl
        · simpa using hresolved
        · intro first rest hnames
          cases names with
          | nil =>
            -- The name just dropped is the first that does not exist.
            simp only [List.nil_append, List.cons.injEq] at hnames
            rw [← hnames.1, ← show parent = existing from hsplit]
            exact hnone
          | cons head tail =>
            simp only [List.cons_append, List.cons.injEq] at hnames
            rw [← hnames.1]
            exact hfirst head tail rfl

/-- Past a missing name the probe loop drops every name it is given. -/
theorem canonicalExistingPrefix_descend {fs : Fs} {p : Path} {names trailing : List String}
    (h : ∀ front, front <+: names → fs.canonicalize (p.descend front) = none) :
    canonicalExistingPrefix fs (p.descend names) trailing =
      canonicalExistingPrefix fs p (names ++ trailing) := by
  induction names using List.reverseRecOn generalizing trailing with
  | nil => rfl
  | append_singleton names name ih =>
    have hlast := h _ (List.prefix_refl _)
    rw [Path.descend_concat] at hlast ⊢
    rw [Path.child] at hlast ⊢
    rw [canonicalExistingPrefix, hlast]
    have hrest := @ih (name :: trailing) fun front hfront =>
      h front (hfront.trans (List.prefix_append _ _))
    simpa using hrest

/-- A path that exists is its own longest prefix. -/
theorem canonicalExistingPrefix_of_canonicalize {fs : Fs} {path place : Path}
    (h : fs.canonicalize path = some place) :
    canonicalExistingPrefix fs path [] = some place := by
  unfold canonicalExistingPrefix
  simp [h]

/-! ## Where the names after the prefix lead -/

namespace FileTree

variable (tree : FileTree)

theorem location_eq_trace {path : Path} (h : path ≠ .empty) :
    tree.location path = (tree.trace path).map fun found => found.1.loc := by
  simp [location, lookup, h]

/-- Names below a missing place are appended to it. -/
theorem location_descend_of_missing {p away : Path} {links : Nat} {names : List String}
    (hne : p.descend names ≠ .empty) (h : tree.trace p = some (.missing away, links)) :
    tree.location (p.descend names) = some (away.descend names) := by
  rw [location_eq_trace tree hne, trace_descend, h]
  simp [walk_missing, Spot.loc]

/-- The location of a path is where the check places it, unless the first name
that does not exist is a link. -/
theorem location_cases {existing place : Path} {name : String} {rest : List String}
    (hplace : tree.canonicalize existing = some place)
    (hnone : tree.canonicalize (existing.child name) = none) :
    tree.location ((existing.child name).descend rest) = none ∨
      tree.location ((existing.child name).descend rest) =
        some ((place.child name).descend rest) ∨
      ∃ target away, tree.node (place.child name) = some (.link target) ∧
        tree.location (existing.child name) = some away ∧
        tree.location ((existing.child name).descend rest) = some (away.descend rest) := by
  obtain ⟨-, links, htrace⟩ := (canonicalize_eq_some_iff tree).mp hplace
  have hne : (existing.child name).descend rest ≠ .empty :=
    Path.descend_ne_empty (by simp [Path.child])
  have hchild : existing.child name ≠ .empty := by simp [Path.child]
  -- The walk of the longer path goes on from the place of the existing one.
  have hstep : tree.trace (existing.child name) =
      tree.walk links (.present place) [.normal name] := by
    rw [Path.child, trace_push, htrace]
    rfl
  cases hfound : tree.trace (existing.child name) with
  | none =>
    left
    rw [location_eq_trace tree hne, trace_descend, hfound]
    rfl
  | some found =>
    right
    obtain ⟨spot, left⟩ := found
    cases spot with
    | present loc =>
      have := (canonicalize_eq_some_iff tree).mpr ⟨hchild, left, hfound⟩
      rw [hnone] at this
      cases this
    | missing away =>
      have haway := location_descend_of_missing tree hne hfound
      rw [hfound, walk_cons] at hstep
      simp only [enter] at hstep
      by_cases hdir : tree.isDir place
      · simp only [hdir, if_true] at hstep
        cases hnode : tree.node (place.child name) with
        | none =>
          left
          simp only [hnode, walk_nil, Option.some.injEq, Prod.mk.injEq, Spot.missing.injEq]
            at hstep
          rw [haway, hstep.1]
        | some node =>
          cases node with
          -- The link exists and its target does not: the walk stops elsewhere.
          | link target =>
            right
            refine ⟨target, away, rfl, ?_, haway⟩
            exact @location_descend_of_missing tree _ _ _ [] hchild hfound
          | dir => simp [hnode] at hstep
          | file => simp [hnode] at hstep
      · simp [hdir] at hstep

theorem canonicalize_descend_of_missing {p away : Path} {links : Nat} {names : List String}
    (h : tree.trace p = some (.missing away, links)) :
    tree.canonicalize (p.descend names) = none := by
  cases hcanon : tree.canonicalize (p.descend names) with
  | none => rfl
  | some place =>
    obtain ⟨-, left, htrace⟩ := (canonicalize_eq_some_iff tree).mp hcanon
    rw [trace_descend, h] at htrace
    simp [walk_missing] at htrace

/-- Nothing exists below a name that does not. -/
theorem canonicalize_descend_of_none {p : Path} {name : String} {names : List String}
    (h : tree.canonicalize (p.child name) = none) :
    tree.canonicalize ((p.child name).descend names) = none := by
  cases hfound : tree.trace (p.child name) with
  | none =>
    cases hcanon : tree.canonicalize ((p.child name).descend names) with
    | none => rfl
    | some place =>
      obtain ⟨-, links, htrace⟩ := (canonicalize_eq_some_iff tree).mp hcanon
      rw [trace_descend, hfound] at htrace
      cases htrace
  | some found =>
    obtain ⟨spot, links⟩ := found
    cases spot with
    | present loc =>
      rw [(canonicalize_eq_some_iff tree).mpr ⟨by simp [Path.child], links, hfound⟩] at h
      cases h
    | missing away => exact canonicalize_descend_of_missing tree hfound

/-- A path that does not exist and has a location stops at a missing name. -/
theorem trace_of_dangling {p away : Path} (hnone : tree.canonicalize p = none)
    (haway : tree.location p = some away) :
    ∃ links, tree.trace p = some (.missing away, links) := by
  have hne : p ≠ .empty := by
    rintro rfl
    simp [location, lookup] at haway
  rw [location_eq_trace tree hne] at haway
  obtain ⟨⟨spot, links⟩, htrace, hloc⟩ := Option.map_eq_some_iff.mp haway
  cases spot with
  | present loc =>
    have := (canonicalize_eq_some_iff tree).mpr ⟨hne, links, htrace⟩
    rw [hnone] at this
    cases this
  | missing loc =>
    refine ⟨links, ?_⟩
    rw [htrace, ← show loc = away from hloc]

theorem location_of_canonicalize {path place : Path} (h : tree.canonicalize path = some place) :
    tree.location path = some place := by
  obtain ⟨hne, links, htrace⟩ := (canonicalize_eq_some_iff tree).mp h
  rw [location_eq_trace tree hne, htrace]
  rfl

/-- A path that goes on from a `..` that does not resolve has no existing prefix. -/
theorem canonicalExistingPrefix_eq_none {contents : Fs} {path front : Path}
    (trailing : List String) (hstarts : path.startsWith (.push front .parentDir) = true)
    (hnone : tree.trace (.push front .parentDir) = none) :
    canonicalExistingPrefix (tree.fs contents) path trailing = none := by
  induction path generalizing trailing with
  | empty => simp [Path.startsWith] at hstarts
  | rootDir => simp [Path.startsWith] at hstarts
  | push parent last ih =>
    have hcanon : (tree.fs contents).canonicalize (.push parent last) = none := by
      have := trace_eq_none_of_startsWith tree hstarts hnone
      simp [fs, canonicalize, lookup, this]
    unfold canonicalExistingPrefix
    rw [hcanon]
    cases last with
    | curDir => rfl
    | parentDir => rfl
    | normal name =>
      refine ih (name :: trailing) ?_
      simpa [Path.startsWith] using hstarts

/-- The check places a project root where it resolves. -/
theorem pathWithin_projectRoot {contents : Fs} {root file projectRoot : Path}
    (h : projectRootOf (tree.fs contents) file = some projectRoot) :
    pathWithin (tree.fs contents) root projectRoot = true ↔
      ∃ loc, tree.location projectRoot = some loc ∧ loc.startsWith root = true := by
  have hconfig : tree.isFile (projectRoot.child CONFIG_FILE) = true := by
    have := List.find?_some h
    simpa [fs] using this
  obtain ⟨place, links, htrace⟩ := canonicalize_of_isFile_child tree hconfig
  by_cases hempty : projectRoot = .empty
  · subst hempty
    constructor
    · intro hwithin
      simp [pathWithin, canonicalExistingPrefix, fs, canonicalize, lookup] at hwithin
    · rintro ⟨loc, hloc, -⟩
      simp [location, lookup] at hloc
  · have hcanon := (canonicalize_eq_some_iff tree).mpr ⟨hempty, links, htrace⟩
    rw [location_of_canonicalize tree hcanon]
    unfold pathWithin isWithin
    rw [@canonicalExistingPrefix_of_canonicalize (tree.fs contents) _ _ hcanon]
    simp

end FileTree

/-! ## Soundness -/

/-- The probe loop places every path that a string spells. -/
theorem canonicalExistingPrefix_iff {tree : FileTree} {contents : Fs} {path place : Path}
    (hproper : path.Proper) :
    canonicalExistingPrefix (tree.fs contents) path [] = some place ↔ Placed tree path place := by
  constructor
  · intro h
    obtain ⟨existing, base, names, hsplit, hbase, hplace, hfirst⟩ :=
      @canonicalExistingPrefix_spec _ path [] place hproper h
    rw [List.append_nil] at hplace
    exact ⟨existing, base, names, hsplit, hbase, hplace, hfirst⟩
  · rintro ⟨existing, base, names, rfl, hbase, rfl, hfirst⟩
    have hnames := (Path.proper_descend.mp hproper).2
    have hstart : canonicalExistingPrefix (tree.fs contents) existing names =
        some (base.descend names) := by
      unfold canonicalExistingPrefix
      rw [show (tree.fs contents).canonicalize existing = some base from hbase]
      dsimp only
      rw [reattached_eq _ _ hnames]
    cases names with
    | nil => exact hstart
    | cons name rest =>
      have hnone := hfirst name rest rfl
      rw [Path.descend_cons,
        canonicalExistingPrefix_descend fun front _ => tree.canonicalize_descend_of_none hnone]
      rw [Path.child, canonicalExistingPrefix,
        show (tree.fs contents).canonicalize (existing.push (.normal name)) = none from hnone]
      simpa using hstart

theorem confinementCheck_iff {fs : Fs} {allowed root file : Path}
    (hroot : canonicalExistingPrefix fs allowed [] = some root) :
    confinementCheck fs (some allowed) file = true ↔
      pathWithin fs root file = true ∧
        ∀ projectRoot, projectRootOf fs file = some projectRoot →
          pathWithin fs root projectRoot = true := by
  unfold confinementCheck
  simp only [hroot, Bool.and_eq_true]
  cases projectRootOf fs file with
  | none => simp
  | some projectRoot => simp

/-- An admitted file resolves inside the root, or leads out of it. -/
theorem inside_or_leadsOut {tree : FileTree} {contents : Fs} {root file loc : Path}
    (hproper : file.Proper) (hwithin : pathWithin (tree.fs contents) root file = true)
    (hproject : ProjectWithin tree contents root file) (hloc : tree.location file = some loc) :
    loc.startsWith root = true ∨ LeadsOut tree contents root file := by
  unfold pathWithin at hwithin
  split at hwithin
  · rename_i resolved hresolved
    obtain ⟨existing, place, names, hsplit, hplace, rfl, hfirst⟩ :=
      (canonicalExistingPrefix_iff hproper).mp hresolved
    -- The path exists as a whole, or its first missing name is where it may leave.
    cases names with
    | nil =>
      left
      rw [hsplit, Path.descend_nil, tree.location_of_canonicalize hplace] at hloc
      cases hloc
      exact hwithin
    | cons name rest =>
      have hnone := hfirst name rest rfl
      rw [hsplit, Path.descend_cons] at hloc
      obtain hnowhere | hplain | ⟨target, away, hlink, haway, hfollowed⟩ :=
        @FileTree.location_cases tree existing place name rest hplace hnone
      · rw [hnowhere] at hloc
        cases hloc
      · left
        rw [hplain] at hloc
        cases hloc
        exact hwithin
      · rw [hfollowed] at hloc
        cases hloc
        cases hinside : (away.descend rest).startsWith root with
        | true => exact .inl rfl
        | false =>
          right
          exact ⟨existing, name, rest, place, target, away, hsplit, hplace, hlink, hnone, haway,
            hwithin, hinside, hproject⟩
  · cases hwithin

/-- A file that leads out of the root is admitted. -/
theorem confinementCheck_of_leadsOut {tree : FileTree} {contents : Fs} {allowed root file : Path}
    (hroot : canonicalExistingPrefix (tree.fs contents) allowed [] = some root)
    (hproper : file.Proper) (h : LeadsOut tree contents root file) :
    confinementCheck (tree.fs contents) (some allowed) file = true ∧
      ∃ loc, tree.location file = some loc ∧ loc.startsWith root = false := by
  obtain ⟨existing, name, rest, place, target, away, rfl, hplace, -, hnone, haway, hinside,
    houtside, hproject⟩ := h
  obtain ⟨links, hmissing⟩ := tree.trace_of_dangling hnone haway
  have hchild : (existing.child name).descend rest ≠ .empty :=
    Path.descend_ne_empty (by simp [Path.child])
  refine ⟨(confinementCheck_iff hroot).mpr ⟨?_, ?_⟩, away.descend rest, ?_, houtside⟩
  · -- The longest prefix that exists ends before the link.
    have hlongest : canonicalExistingPrefix (tree.fs contents)
        ((existing.child name).descend rest) [] = some (place.descend (name :: rest)) := by
      refine (canonicalExistingPrefix_iff hproper).mpr ⟨existing, place, name :: rest, rfl, hplace,
        rfl, ?_⟩
      rintro _ _ ⟨⟩
      exact hnone
    unfold pathWithin
    rw [hlongest]
    exact hinside
  · intro projectRoot hfound
    exact (tree.pathWithin_projectRoot hfound).mpr (hproject projectRoot hfound)
  · exact tree.location_descend_of_missing hchild hmissing

/-- Where the allowed root is placed the check compares places. -/
theorem confinementCheck_eq_true_iff {tree : FileTree} {contents : Fs} {allowed file : Path}
    (hallowed : allowed.Proper) (hfile : file.Proper) :
    confinementCheck (tree.fs contents) (some allowed) file = true ↔
      ∃ root place, Placed tree allowed root ∧ Placed tree file place ∧
        place.startsWith root = true ∧ ProjectWithin tree contents root file := by
  have hwithin : ∀ root, pathWithin (tree.fs contents) root file = true ↔
      ∃ place, Placed tree file place ∧ place.startsWith root = true := by
    intro root
    unfold pathWithin isWithin
    cases hplace : canonicalExistingPrefix (tree.fs contents) file [] with
    | none =>
      refine ⟨fun h => (by cases h), ?_⟩
      rintro ⟨place, hplaced, -⟩
      rw [(canonicalExistingPrefix_iff hfile).mpr hplaced] at hplace
      cases hplace
    | some place =>
      refine ⟨fun h => ⟨place, (canonicalExistingPrefix_iff hfile).mp hplace, h⟩, ?_⟩
      rintro ⟨place', hplaced, hstarts⟩
      rw [(canonicalExistingPrefix_iff hfile).mpr hplaced] at hplace
      cases hplace
      exact hstarts
  have hprojects : ∀ root, (∀ projectRoot, projectRootOf (tree.fs contents) file = some projectRoot →
      pathWithin (tree.fs contents) root projectRoot = true) ↔ ProjectWithin tree contents root file :=
    fun root => forall₂_congr fun projectRoot hfound => tree.pathWithin_projectRoot hfound
  constructor
  · intro hcheck
    cases hroot : canonicalExistingPrefix (tree.fs contents) allowed [] with
    | none => simp [confinementCheck, hroot] at hcheck
    | some root =>
      obtain ⟨hin, hproject⟩ := (confinementCheck_iff hroot).mp hcheck
      obtain ⟨place, hplaced, hstarts⟩ := (hwithin root).mp hin
      exact ⟨root, place, (canonicalExistingPrefix_iff hallowed).mp hroot, hplaced, hstarts,
        (hprojects root).mp hproject⟩
  · rintro ⟨root, place, hroot, hplaced, hstarts, hproject⟩
    exact (confinementCheck_iff ((canonicalExistingPrefix_iff hallowed).mpr hroot)).mpr
      ⟨(hwithin root).mpr ⟨place, hplaced, hstarts⟩, (hprojects root).mpr hproject⟩

/-- Confinement holds of a requested file except where it follows a dangling link that
stands in the allowed root out of it, or where the allowed root does not resolve and the
file is placed below the names that are left of it. -/
theorem confined_iff (tree : FileTree) (contents : Fs) (allowed file : String) :
    Confined tree contents (Path.ofString allowed) (Path.ofString file) ↔
      (∀ root, tree.canonicalize (Path.ofString allowed) = some root →
        ¬ LeadsOut tree contents root (Path.ofString file)) ∧
      ¬ BelowUnresolved tree contents (Path.ofString allowed) (Path.ofString file) := by
  have hproper := Path.proper_ofString file
  have hreduced : ∀ root, tree.canonicalize (Path.ofString allowed) = some root →
      canonicalExistingPrefix (tree.fs contents) (Path.ofString allowed) [] = some root :=
    fun root hroot => canonicalExistingPrefix_of_canonicalize hroot
  have hchecks : confinementCheck (tree.fs contents) (some (Path.ofString allowed))
      (Path.ofString file) = true ↔ _ :=
    confinementCheck_eq_true_iff (Path.proper_ofString allowed) hproper
  constructor
  · intro hconfined
    refine ⟨?_, ?_⟩
    · intro root hroot hleads
      obtain ⟨hcheck, loc, hloc, houtside⟩ :=
        confinementCheck_of_leadsOut (hreduced root hroot) hproper hleads
      have := hconfined.fileInside root hroot hcheck loc hloc
      rw [houtside] at this
      cases this
    · rintro ⟨hnone, hbelow⟩
      have hcheck := hchecks.mpr hbelow
      rw [hconfined.closed hnone] at hcheck
      cases hcheck
  · rintro ⟨hnever, hbelow⟩
    have hproject : ∀ root, tree.canonicalize (Path.ofString allowed) = some root →
        confinementCheck (tree.fs contents) (some (Path.ofString allowed)) (Path.ofString file) =
          true → ProjectWithin tree contents root (Path.ofString file) := by
      intro root hroot hcheck projectRoot hfound
      have hwithin := ((confinementCheck_iff (hreduced root hroot)).mp hcheck).2 projectRoot hfound
      exact (tree.pathWithin_projectRoot hfound).mp hwithin
    refine ⟨?_, hproject, ?_, ?_⟩
    · intro root hroot hcheck loc hloc
      have hwithin := ((confinementCheck_iff (hreduced root hroot)).mp hcheck).1
      obtain hinside | hleads :=
        inside_or_leadsOut hproper hwithin (hproject root hroot hcheck) hloc
      · exact hinside
      · exact absurd hleads (hnever root hroot)
    · intro front hstarts hnone
      -- A parent that does not resolve stops the search for a prefix.
      have hlongest := @FileTree.canonicalExistingPrefix_eq_none tree contents _ _ [] hstarts
        (tree.trace_parentDir_of_canonicalize hnone)
      cases hroot : canonicalExistingPrefix (tree.fs contents) (Path.ofString allowed) [] with
      | none => simp [confinementCheck, hroot]
      | some root => simp [confinementCheck, hroot, pathWithin, hlongest]
    · intro hnone
      rw [Bool.eq_false_iff]
      intro hcheck
      exact hbelow ⟨hnone, hchecks.mp hcheck⟩

namespace Sample

/-- The project `A`, with a link among its sources to a name that does not exist
beside the project. -/
def linked : FileTree where
  node path :=
    if path = projectDir "A" ∨ path = (projectDir "A").child "src" then some .dir
    else if path = (projectDir "A").child CONFIG_FILE then some .file
    else if path = app "A" then some (.link (projectDir "new.mw"))
    else none
  cwd := .rootDir
  maxLinks := 40

end Sample

open Sample in
/-- A file that is a dangling link out of the root is admitted, and so is one below a root
that does not exist. -/
theorem not_confined_danglingLink_missingRoot :
    ¬ Confined linked (fsOf []) (Path.ofString "/A") (Path.ofString "/A/src/app.mw") ∧
      ¬ Confined linked (fsOf []) (Path.ofString "/B") (Path.ofString "/B/app.mw") := by
  refine ⟨fun h => ?_, fun h => ?_⟩
  · have hroot : linked.canonicalize (Path.ofString "/A") = some (projectDir "A") := by decide
    have hcheck : confinementCheck (linked.fs (fsOf [])) (some (Path.ofString "/A"))
        (Path.ofString "/A/src/app.mw") = true := by decide
    have hloc : linked.location (Path.ofString "/A/src/app.mw") = some (projectDir "new.mw") := by
      decide
    have hinside := h.fileInside _ hroot hcheck _ hloc
    exact absurd hinside (by decide)
  · have hroot : linked.canonicalize (Path.ofString "/B") = none := by decide
    have hcheck : confinementCheck (linked.fs (fsOf [])) (some (Path.ofString "/B"))
        (Path.ofString "/B/app.mw") = true := by decide
    rw [h.closed hroot] at hcheck
    cases hcheck

end MarrowLsp
