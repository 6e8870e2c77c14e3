-- SUMMARY: The summaries of results as one line of bounded length: every branch clips what it inserts but one.
import Mathlib.Data.List.TakeWhile
import Mathlib.Data.Set.Basic
import MarrowLsp.Lib.Fragments
import MarrowLsp.Mcp.Summary

/-!
# The length of a summary

What a branch inserts of a result is clipped to one short line, save for the names that
the summary of a namespace completion inserts. A summary is one bounded line as far as
those names are.
-/
namespace MarrowLsp

namespace Mcp

open Fragments

/-! ## Sizes -/

/-- What stands anywhere in a value. -/
inductive Inside (value : Json) : Json → Prop where
  | self : Inside value value
  | item {items : List Json} {item : Json} (h : Inside value (.array items))
      (hmem : item ∈ items) : Inside value item
  | member {members : List (String × Json)} {member : String × Json}
      (h : Inside value (.object members)) (hmem : member ∈ members) : Inside value member.2

/-- A value as memory can hold it: a vector has at most `isize::MAX` bytes, and no item
takes less than eight. -/
def Sized (value : Json) : Prop := ∀ items, Inside value (.array items) → items.length < 2 ^ 60

variable {result : Json}

theorem Sized.get (h : Sized result) {key : String} {value : Json}
    (hget : result.get key = some value) : Sized value := by
  intro items hin
  apply h items
  cases result with
  | object members =>
    obtain ⟨member, hfind, rfl⟩ := Option.map_eq_some_iff.mp hget
    have hmember : Inside (.object members) member.2 :=
      .member .self (List.mem_of_find?_eq_some hfind)
    clear hget hfind h
    generalize Json.array items = target at hin
    induction hin with
    | self => exact hmember
    | item _ hmem ih => exact .item ih hmem
    | member _ hmem ih => exact .member ih hmem
  | _ => cases hget

theorem Sized.length_lt (h : Sized result) {key : String} {items : List Json}
    (hget : (result.get key).bind Json.asArray = some items) : items.length < 2 ^ 60 := by
  obtain ⟨value, hvalue, harray⟩ := Option.bind_eq_some_iff.mp hget
  cases value with
  | array values =>
    cases harray
    exact h.get hvalue items .self
  | _ => cases harray

theorem Sized.arrayLen_lt (h : Sized result) (field : String) :
    arrayLen result field < 2 ^ 60 := by
  unfold arrayLen
  cases hget : (result.get field).bind Json.asArray with
  | none => exact Nat.two_pow_pos 60
  | some items => exact h.length_lt hget

/-! ## Fragments -/

theorem fragment_count {count : Nat} (h : count < 2 ^ 62) : Fragment 19 (toString count) :=
  .nat (by decide) (h.trans (by decide))

theorem fragment_length {items : List Json} (h : items.length < 2 ^ 60) :
    Fragment 19 (toString items.length) :=
  fragment_count (h.trans (by decide))

theorem fragment_countP (p : Json → Bool) {items : List Json} (h : items.length < 2 ^ 60) :
    Fragment 19 (toString (items.countP p)) :=
  fragment_count ((List.countP_le_length.trans_lt h).trans (by decide))

theorem fragment_arrayLen (h : Sized result) (field : String) :
    Fragment 19 (toString (arrayLen result field)) :=
  fragment_count ((h.arrayLen_lt field).trans (by decide))

theorem fragment_plural (count : Nat) : Fragment 1 (plural count) := by
  unfold plural
  split
  · exact .check rfl
  · exact .literal "s" rfl

theorem newline_not_mem_firstLine (text : String) : '\n' ∉ (firstLine text).toList := by
  have hline : '\n' ∉ text.toList.takeWhile (· != '\n') := by
    intro hmem
    have hnot := List.mem_takeWhile_imp hmem
    simp at hnot
  unfold firstLine
  dsimp only
  split
  · rw [String.toList_ofList]
    exact fun hmem => hline (List.dropLast_subset _ hmem)
  · rwa [String.toList_ofList]

/-- What is clipped is one short line. -/
theorem fragment_clip (text : String) : Fragment 121 (clip text) := by
  have hline := newline_not_mem_firstLine text
  unfold clip
  dsimp only
  split
  · next hshort => exact ⟨hline, hshort.trans (by decide)⟩
  · have hkept : Fragment 120 (String.ofList ((firstLine text).toList.take 120)) := by
      constructor
      · rw [String.toList_ofList]
        exact fun hmem => hline (List.mem_of_mem_take hmem)
      · rw [String.length_ofList]
        exact List.length_take_le _ _
    exact hkept.append (.literal "…" rfl)

theorem fragment_clipped (text : Option String) {default : String} (h : Fragment 121 default) :
    Fragment 121 ((text.map clip).getD default) := by
  cases text with
  | none => exact h
  | some text => exact fragment_clip text

/-! ## The branches -/

theorem fragment_countSummary (h : Sized result) (field : String) {empty noun : String}
    (hempty : Fragment 40 empty) (hnoun : Fragment 40 noun) :
    Fragment 100 (countSummary result field empty noun) := by
  unfold countSummary
  dsimp only
  split
  · exact hempty.within rfl
  · exact ((((fragment_arrayLen h field).append (.literal " " rfl)).append hnoun).append
      (fragment_plural _)).within rfl

theorem fragment_surfaceReadSummary (result : Json) : Fragment 121 (surfaceReadSummary result) := by
  unfold surfaceReadSummary
  split
  · exact .check rfl
  · exact fragment_clipped _ (.check rfl)

theorem fragment_savedRootsSummary (h : Sized result) :
    Fragment 100 (savedRootsSummary result) := by
  unfold savedRootsSummary
  split
  · exact .check rfl
  · exact fragment_countSummary h "roots"
      (.check rfl)
      (.check rfl)

theorem fragment_dataChildrenSummary (h : Sized result) :
    Fragment 100 (dataChildrenSummary result) := by
  have htruncated {base : String} (hbase : Fragment 40 base) :
      Fragment 100 (if flag result "truncated" then s!"{base} (truncated)" else base) := by
    split
    · exact (hbase.append (.literal " (truncated)" rfl)).within rfl
    · exact hbase.within rfl
  unfold dataChildrenSummary
  split
  · exact .check rfl
  · apply htruncated
    split
    · exact .check rfl
    · exact .check rfl
    · exact ((fragment_arrayLen h "children").append (.literal " children" rfl)).within rfl

theorem fragment_dataReadSummary (result : Json) : Fragment 140 (dataReadSummary result) := by
  unfold dataReadSummary
  split
  · exact .check rfl
  · split
    · split
      · exact ((fragment_clip _).append (.literal " (truncated)" rfl)).within rfl
      · exact (fragment_clip _).within rfl
    · exact (fragment_clipped _ (.check rfl)).within rfl

theorem fragment_runSummary (compact : Json → String) (h : Sized result) :
    Fragment 200 (runSummary compact result) := by
  have hran : Fragment 200
      (if hasOutput result then "ran, no value (output captured)" else "ran, no value") := by
    split
    · exact .check rfl
    · exact .check rfl
  unfold runSummary
  dsimp only
  split
  · exact (((((fragment_arrayLen h "diagnostics").append (.literal " diagnostic" rfl)).append
      (fragment_plural _)).append (.literal ": " rfl)).append (fragment_clip _)).within rfl
  · split
    · next tests htests =>
      have htotal := h.length_lt htests
      exact ((((fragment_countP _ htotal).append (.literal "/" rfl)).append
        (fragment_length htotal)).append (.literal " tests passed" rfl)).within rfl
    · split
      · split
        · exact ((Fragment.literal "value " rfl).append (fragment_clip _)).within rfl
        · exact hran
      · exact hran

/-! ## Names -/

/-- The name that the summary of a namespace completion inserts as it is. -/
def completedName (result : Json) : Option String :=
  match (result.get "kind").bind Json.asStr with
  | some "module" => (result.get "module").bind Json.asStr
  | some "enum" => (result.get "enum_name").bind Json.asStr
  | _ => none

/-- The items that the summary of a module counts. -/
def namespaceItems (result : Json) : Nat :=
  arrayLen result "resources" + arrayLen result "enums" + arrayLen result "functions"

/-- A summary that inserts a text, between fragments. -/
def Inserts (n : Nat) (inserted : String) (summary : String) : Prop :=
  ∃ front back, Fragment n front ∧ Fragment n back ∧ summary = front ++ inserted ++ back

theorem Inserts.of_fragment {n : Nat} {summary : String} (h : Fragment n summary) :
    Inserts n "" summary :=
  ⟨"", summary, .check (by simp), h, by simp⟩

theorem namespaceItems_lt (h : Sized result) : namespaceItems result < 2 ^ 62 := by
  have hresources := h.arrayLen_lt "resources"
  have henums := h.arrayLen_lt "enums"
  have hfunctions := h.arrayLen_lt "functions"
  unfold namespaceItems
  omega

/-- A count of things behind a name, or behind what stands for it. -/
theorem inserts_counted (name : Option String) (default empty noun : String) {count : Nat}
    (hdefault : Fragment 40 default) (hempty : Fragment 40 empty) (hnoun : Fragment 40 noun)
    (hcount : count < 2 ^ 62) :
    Inserts 140 (name.getD "")
      (if count = 0 then toString (name.getD default) ++ toString empty
        else toString (name.getD default) ++ toString ": " ++ toString count ++ toString noun ++
          toString (plural count)) := by
  obtain ⟨front, hfront, hname⟩ : ∃ front, Fragment 40 front ∧
      name.getD default = front ++ name.getD "" := by
    cases name with
    | none => exact ⟨default, hdefault, String.append_empty.symm⟩
    | some text => exact ⟨"", .check rfl, String.empty_append.symm⟩
  have hback : Fragment 100 (": " ++ (toString count ++ (noun ++ plural count))) :=
    ((Fragment.literal ": " rfl).append ((fragment_count hcount).append
      (hnoun.append (fragment_plural count)))).within rfl
  have htoString (text : String) : toString text = text := rfl
  rw [hname]
  split
  · exact ⟨front, empty, hfront.within rfl, hempty.within rfl, rfl⟩
  · refine ⟨front, _, hfront.within rfl, hback.within rfl, ?_⟩
    simp only [htoString, String.append_assoc]

theorem inserts_namespaceCompleteSummary (h : Sized result) :
    Inserts 140 ((completedName result).getD "") (namespaceCompleteSummary result) := by
  have hitems := namespaceItems_lt h
  have hmembers := (h.arrayLen_lt "members").trans (show 2 ^ 60 < 2 ^ 62 by decide)
  unfold namespaceCompleteSummary
  dsimp only
  split
  · next hkind =>
    have hname : completedName result = (result.get "module").bind Json.asStr := by
      simp only [completedName, hkind]
    rw [hname]
    exact inserts_counted _ "module" ": no namespace items" " namespace item" (.check rfl)
      (.check rfl) (.check rfl) hitems
  · next hkind =>
    have hname : completedName result = (result.get "enum_name").bind Json.asStr := by
      simp only [completedName, hkind]
    rw [hname]
    exact inserts_counted _ "enum" ": no enum members" " enum member" (.check rfl) (.check rfl)
      (.check rfl) hmembers
  · next hmodule henum =>
    have hname : completedName result = none := by
      unfold completedName
      split
      · next hkind => exact absurd hkind hmodule
      · next hkind => exact absurd hkind henum
      · rfl
    rw [hname]
    exact .of_fragment (.check rfl)

/-! ## Summaries -/

/-- Whether a result is reported by its tool, and not as a refusal or an error. -/
def reportedByTool (result : Json) : Bool :=
  (result.get "dataAccess").bind Json.asStr != some "disabled" &&
    ((result.get "refusal").bind Json.asStr).isNone && (result.get "error").isNone

/-- The name that a summary inserts as it is. -/
def insertedName (name : String) (result : Json) : Option String :=
  if reportedByTool result && name == "mw_namespace_complete" then completedName result else none

theorem inserts_toolSummary (compact : Json → String) (h : Sized result) (name : String) :
    Inserts 200 (if name = "mw_namespace_complete" then (completedName result).getD "" else "")
      (toolSummary compact name result) := by
  by_cases hname : name = "mw_namespace_complete"
  · subst hname
    rw [if_pos rfl]
    obtain ⟨front, back, hfront, hback, heq⟩ := inserts_namespaceCompleteSummary h
    exact ⟨front, back, hfront.within rfl, hback.within rfl, heq⟩
  · rw [if_neg hname]
    apply Inserts.of_fragment
    unfold toolSummary
    split
    · exact (fragment_countSummary h "diagnostics" (.check rfl) (.check rfl)).within rfl
    · exact (fragment_clipped _ (.check rfl)).within rfl
    · exact (fragment_countSummary h "items" (.check rfl) (.check rfl)).within rfl
    · exact absurd rfl hname
    · exact (fragment_countSummary h "resources" (.check rfl) (.check rfl)).within rfl
    · exact (fragment_countSummary h "routes" (.check rfl) (.check rfl)).within rfl
    · exact (fragment_surfaceReadSummary result).within rfl
    · exact (fragment_surfaceReadSummary result).within rfl
    · exact (fragment_savedRootsSummary h).within rfl
    · exact (fragment_dataChildrenSummary h).within rfl
    · exact (fragment_dataReadSummary result).within rfl
    · exact fragment_runSummary compact h
    · exact .check rfl

theorem fragment_missingFactSummary {facts : List Json} (hfacts : facts.length < 2 ^ 60)
    {missing : String} (h : missingFactSummary facts = some missing) : Fragment 150 missing := by
  obtain ⟨first, -, rfl⟩ := Option.map_eq_some_iff.mp h
  have hmore : facts.length - 1 < 2 ^ 62 := by omega
  split
  · exact (fragment_clip first).within rfl
  · exact (((fragment_clip first).append (.literal " +" rfl)).append
      (fragment_count hmore)).within rfl

/-- A contract puts one fragment before the summary of a result. -/
theorem exists_prefixContract (h : Sized result) :
    ∃ lead, Fragment 500 lead ∧ ∀ base, prefixContract result base = lead ++ base := by
  have hnothing : ∃ lead, Fragment 500 lead ∧ ∀ base : String, base = lead ++ base :=
    ⟨"", .check rfl, fun _ => String.empty_append.symm⟩
  have htoString (text : String) : toString text = text := rfl
  have hcolon : Fragment 2 ": " := .check rfl
  have hopen : Fragment 2 " (" := .check rfl
  have hclose : Fragment 3 "): " := .check rfl
  unfold prefixContract
  split
  · exact hnothing
  · next contract hcontract =>
    split
    · exact hnothing
    · next description _ =>
      have hdescription := fragment_clip description
      split
      · refine ⟨clip description ++ ": ", (hdescription.append hcolon).within rfl, ?_⟩
        intro base
        simp only [htoString]
      · next status _ =>
        have hstatus := fragment_clip status
        split
        · next missing hmissing =>
          obtain ⟨facts, hfacts, hfirst⟩ := Option.bind_eq_some_iff.mp hmissing
          have hmiss := fragment_missingFactSummary ((h.get hcontract).length_lt hfacts) hfirst
          refine ⟨clip description ++ " (" ++ clip status ++ ": " ++ missing ++ "): ",
            (((((hdescription.append hopen).append hstatus).append hcolon).append hmiss).append
              hclose).within rfl, ?_⟩
          intro base
          simp only [htoString]
        · refine ⟨clip description ++ " (" ++ clip status ++ "): ",
            (((hdescription.append hopen).append hstatus).append hclose).within rfl, ?_⟩
          intro base
          simp only [htoString]

theorem reportedByTool_iff :
    reportedByTool result = true ↔ (result.get "dataAccess").bind Json.asStr ≠ some "disabled" ∧
      (result.get "refusal").bind Json.asStr = none ∧ result.get "error" = none := by
  simp [reportedByTool, and_assoc]

/-- A summary is the inserted name between two fragments. -/
theorem inserts_summarize (compact : Json → String) (h : Sized result) (name : String) :
    Inserts 700 ((insertedName name result).getD "") (summarize compact name result) := by
  obtain ⟨lead, hlead, hbegins⟩ := exists_prefixContract h
  have hinserts {inserted base : String} (hbase : Inserts 200 inserted base) :
      Inserts 700 inserted (prefixContract result base) := by
    obtain ⟨front, back, hfront, hback, rfl⟩ := hbase
    refine ⟨lead ++ front, back, hlead.append hfront, hback.within rfl, ?_⟩
    rw [hbegins]
    simp only [String.append_assoc]
  have hunreported (hnot : ¬ reportedByTool result = true) :
      (insertedName name result).getD "" = "" := by
    rw [insertedName, Bool.eq_false_iff.mpr hnot]
    rfl
  unfold summarize
  apply hinserts
  split
  · next hdisabled =>
    rw [hunreported fun hreported => (reportedByTool_iff.mp hreported).1 (beq_iff_eq.mp hdisabled)]
    exact .of_fragment (.check rfl)
  · next henabled =>
    split
    · next refusal hrefusal =>
      rw [hunreported fun hreported => by
        rw [(reportedByTool_iff.mp hreported).2.1] at hrefusal
        cases hrefusal]
      exact .of_fragment (((Fragment.literal "refused: " rfl).append
        (fragment_clip refusal)).within rfl)
    · next hrefusal =>
      cases herror : result.get "error" with
      | some error =>
        rw [hunreported fun hreported => by
          rw [(reportedByTool_iff.mp hreported).2.2] at herror
          cases herror]
        rw [errorSummary, herror]
        exact .of_fragment (((Fragment.literal "error: " rfl).append
          (fragment_clip _)).within rfl)
      | none =>
        have hreported : reportedByTool result = true :=
          reportedByTool_iff.mpr ⟨fun hdisabled => henabled (beq_iff_eq.mpr hdisabled),
            hrefusal, herror⟩
        have hname : (insertedName name result).getD "" =
            if name = "mw_namespace_complete" then (completedName result).getD "" else "" := by
          rw [insertedName, hreported]
          by_cases hcomplete : name = "mw_namespace_complete"
          · simp [hcomplete]
          · simp [hcomplete]
        rw [hname, errorSummary, herror]
        exact inserts_toolSummary compact h name

section Inserted

variable {n bound : Nat} {inserted summary : String} (h : Inserts n inserted summary)

include h

theorem Inserts.fragment_inserted (hsummary : Fragment bound summary) : Fragment bound inserted := by
  obtain ⟨front, back, -, -, rfl⟩ := h
  exact hsummary.of_append

theorem Inserts.fragment_summary (hinserted : Fragment bound inserted) :
    Fragment (n + bound + n) summary := by
  obtain ⟨front, back, hfront, hback, rfl⟩ := h
  exact (hfront.append hinserted).append hback

end Inserted

/-- Some inputs are all summarized as one line of a length that one constant bounds, and
the items of a namespace are counted without overflow. -/
def OneBoundedLine (compact : Json → String) (inputs : Set (String × Json)) : Prop :=
  ∃ bound, ∀ input ∈ inputs, Fragment bound (summarize compact input.1 input.2) ∧
    namespaceItems input.2 < 2 ^ 64

/-- The names that are inserted as they are have no newline, and one constant bounds their
length. -/
def NamesBounded (inputs : Set (String × Json)) : Prop :=
  ∃ bound, ∀ input ∈ inputs, ∀ inserted, insertedName input.1 input.2 = some inserted →
    Fragment bound inserted

/-- Summaries are bounded lines exactly as far as the inserted names are. -/
theorem oneBoundedLine_iff (compact : Json → String) {inputs : Set (String × Json)}
    (hsized : ∀ input ∈ inputs, Sized input.2) :
    OneBoundedLine compact inputs ↔ NamesBounded inputs := by
  constructor
  · rintro ⟨bound, hbound⟩
    refine ⟨bound, ?_⟩
    intro input hinput inserted hinserted
    have hinserts := inserts_summarize compact (hsized input hinput) input.1
    rw [hinserted] at hinserts
    exact hinserts.fragment_inserted (hbound input hinput).1
  · rintro ⟨bound, hbound⟩
    refine ⟨700 + bound + 700, ?_⟩
    intro input hinput
    have hinserts := inserts_summarize compact (hsized input hinput) input.1
    refine ⟨?_, (namespaceItems_lt (hsized input hinput)).trans (by decide)⟩
    apply hinserts.fragment_summary
    cases hinserted : insertedName input.1 input.2 with
    | none => exact (Fragment.check rfl).mono (Nat.zero_le bound)
    | some inserted => exact hbound input hinput inserted hinserted

/-! ## Names of any length -/

/-- A value without arrays is of any size. -/
theorem sized_strings {members : List (String × Json)}
    (h : ∀ member ∈ members, ∃ text, member.2 = .string text) : Sized (.object members) := by
  have hinside : ∀ value, Inside (.object members) value →
      value = .object members ∨ ∃ text, value = .string text := by
    intro value hin
    induction hin with
    | self => exact .inl rfl
    | item _ _ ih =>
      obtain hobject | ⟨text, hstring⟩ := ih
      · cases hobject
      · cases hstring
    | member _ hmem ih =>
      obtain hobject | ⟨text, hstring⟩ := ih
      · cases hobject
        exact .inr (h _ hmem)
      · cases hstring
  intro items hin
  obtain hobject | ⟨text, hstring⟩ := hinside _ hin
  · cases hobject
  · cases hstring

namespace Sample

/-- The completion of an empty module. -/
def moduleCompletion (module : String) : String × Json :=
  ("mw_namespace_complete", .object [("kind", .string "module"), ("module", .string module)])

/-- Modules with names of every length. -/
def longNames : Set (String × Json) :=
  {input | ∃ n, input = moduleCompletion (String.ofList (List.replicate n 'a'))}

theorem sized_moduleCompletion (module : String) : Sized (moduleCompletion module).2 := by
  apply sized_strings
  simp

theorem insertedName_moduleCompletion (module : String) :
    insertedName (moduleCompletion module).1 (moduleCompletion module).2 = some module := by
  simp [moduleCompletion, insertedName, reportedByTool, completedName, Json.get, Json.asStr]

/-- A summary is no shorter than the name in it, and has its newlines. -/
theorem fragment_moduleCompletion {compact : Json → String} {bound : Nat} {module : String}
    (h : Fragment bound (summarize compact (moduleCompletion module).1 (moduleCompletion module).2)) :
    Fragment bound module := by
  have hinserts := inserts_summarize compact (sized_moduleCompletion module)
    (moduleCompletion module).1
  rw [insertedName_moduleCompletion] at hinserts
  exact hinserts.fragment_inserted h

end Sample

open Mcp.Sample in
theorem oneBoundedLine_iff_app : OneBoundedLine (fun _ => "") {moduleCompletion "app"} := by
  apply (oneBoundedLine_iff (fun _ => "") _).mpr
  · refine ⟨3, ?_⟩
    rintro _ rfl inserted hinserted
    rw [insertedName_moduleCompletion] at hinserted
    cases hinserted
    exact .check rfl
  · rintro _ rfl
    exact sized_moduleCompletion "app"

open Mcp.Sample in
theorem not_oneBoundedLine_names :
    ¬ OneBoundedLine (fun _ => "") {input | Sized input.2} ∧
      ¬ OneBoundedLine (fun _ => "") {moduleCompletion "a\nb"} ∧
      ¬ OneBoundedLine (fun _ => "") longNames := by
  have hnewline : ¬ OneBoundedLine (fun _ => "") {moduleCompletion "a\nb"} := by
    rintro ⟨bound, hbound⟩
    exact (fragment_moduleCompletion (hbound _ rfl).1).oneLine (by decide)
  have hlong : ¬ OneBoundedLine (fun _ => "") longNames := by
    rintro ⟨bound, hbound⟩
    have hlength := (fragment_moduleCompletion (hbound _ ⟨bound + 1, rfl⟩).1).length_le
    rw [String.length_ofList, List.length_replicate] at hlength
    exact absurd hlength (Nat.not_succ_le_self bound)
  refine ⟨?_, hnewline, hlong⟩
  rintro ⟨bound, hbound⟩
  apply hnewline
  refine ⟨bound, ?_⟩
  rintro _ rfl
  exact hbound _ (sized_moduleCompletion _)

end Mcp

end MarrowLsp
