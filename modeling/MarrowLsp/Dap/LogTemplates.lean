-- SUMMARY: The templates of log messages: the parser of byte offsets ends without a panic, and takes exactly the texts of literal runs and groups, with those as the parts (session.rs, debugger.rs).
import MarrowLsp.Dap.Breakpoints
import Mathlib.Data.List.Chain

/-!
# Log message templates

A template is text with expressions in braces. A run of text has no brace, what is in a
group has no closing one and is not blank.
-/
namespace MarrowLsp

namespace Dap

open Utf8

/-! ## Over byte offsets -/

/-- The loop of `parse_log_message` over what it has pushed: `none` where a slice panics or
the fuel runs out. -/
def logMessageLoop : Nat → LogMessage String → List Char → Option (Option (LogMessage String))
  | 0, _, _ => none
  | fuel + 1, parts, rest =>
    match findChar rest '{' with
    | none => some (if '}' ∈ rest then none else some (parts ++ literalParts rest))
    | some opening => do
      let literal ← slice rest 0 opening
      if 0 < opening ∧ '}' ∈ literal then some none
      else
        let parts := if 0 < opening then parts ++ [.literal (String.ofList literal)] else parts
        let afterOpen ← sliceFrom rest (opening + 1)
        match findChar afterOpen '}' with
        | none => some none
        | some close => do
          let inside ← slice afterOpen 0 close
          let expression := trim inside
          if expression = [] then some none
          else
            let parts := parts ++ [.expression (String.ofList expression)]
            let rest ← sliceFrom afterOpen (close + 1)
            if rest.head? = some '}' then some none else logMessageLoop fuel parts rest

def parseLogMessageBytes (fuel : Nat) (value : String) : Option (Option (LogMessage String)) :=
  if value = "" then some none else logMessageLoop fuel [] value.toList

/-! ## Templates -/

/-- A piece of a template as it is written. -/
inductive Run where
  | literal (text : List Char)
  | group (inside : List Char)

def Run.Formed : Run → Prop
  | .literal text => '{' ∉ text ∧ '}' ∉ text
  | .group inside => '}' ∉ inside ∧ ∃ c ∈ inside, isWhitespace c = false

def Run.text : Run → List Char
  | .literal text => text
  | .group inside => '{' :: (inside ++ ['}'])

def printed (runs : List Run) : List Char := runs.flatMap Run.text

/-- The parts that runs stand for after some text: text runs next to each other are one. -/
def partsAfter : List Char → List Run → LogMessage String
  | front, [] => literalParts front
  | front, .literal text :: runs => partsAfter (front ++ text) runs
  | front, .group inside :: runs =>
    literalParts front ++ .expression (String.ofList (trim inside)) :: partsAfter [] runs

/-- The text is the parts in print, but for white space just inside the braces. -/
inductive Reprints : LogMessage String → List Char → Prop
  | nil : Reprints [] []
  | literal (value : String) {parts text} : Reprints parts text →
      Reprints (.literal value :: parts) (value.toList ++ text)
  | expression (expression : String) {lead trail parts text}
      (hlead : ∀ c ∈ lead, isWhitespace c = true) (htrail : ∀ c ∈ trail, isWhitespace c = true) :
      Reprints parts text → Reprints (.expression expression :: parts)
        ('{' :: (lead ++ (expression.toList ++ (trail ++ '}' :: text))))

def LogMessagePart.isLiteral {Expression : Type} : LogMessagePart Expression → Bool
  | .literal _ => true
  | .expression _ => false

/-- No literal is empty, and none follows another. -/
structure Merged (parts : LogMessage String) : Prop where
  nonempty : LogMessagePart.literal "" ∉ parts
  apart : parts.IsChain fun a b => ¬ (a.isLiteral = true ∧ b.isLiteral = true)

/-! ## One round -/

/-- What a round can have in front of it: no group, one that is open to the end, or a group. -/
inductive Round (rest : List Char) : Prop
  | tail (h : '{' ∉ rest)
  | unclosed {front after} (heq : rest = front ++ '{' :: after) (hfront : '{' ∉ front)
      (hafter : '}' ∉ after)
  | group {front inside tail} (heq : rest = front ++ '{' :: (inside ++ '}' :: tail))
      (hfront : '{' ∉ front) (hinside : '}' ∉ inside)

theorem round (rest : List Char) : Round rest := by
  by_cases hopen : '{' ∈ rest
  · obtain ⟨front, after, rfl, hfront⟩ := List.eq_append_cons_of_mem hopen
    by_cases hclose : '}' ∈ after
    · obtain ⟨inside, tail, rfl, hinside⟩ := List.eq_append_cons_of_mem hclose
      exact .group rfl hfront hinside
    · exact .unclosed rfl hfront hclose
  · exact .tail hopen

/-- A group is turned down for a brace before it, for being blank, or for a brace after it. -/
def Refused (front inside tail : List Char) : Prop :=
  '}' ∈ front ∨ trim inside = [] ∨ tail.head? = some '}'

instance (front inside tail : List Char) : Decidable (Refused front inside tail) :=
  inferInstanceAs (Decidable (_ ∨ _ ∨ _))

section Rounds

variable {front inside tail after rest : List Char} {parts : LogMessage String} {fuel : Nat}

theorem parseLogMessageFrom_tail (h : '{' ∉ rest) : parseLogMessageFrom (fuel + 1) rest =
    if '}' ∈ rest then none else some (literalParts rest) := by
  rw [parseLogMessageFrom, Utf8.dropWhile_ne_of_not_mem h]

theorem parseLogMessageFrom_unclosed (hfront : '{' ∉ front) (hafter : '}' ∉ after) :
    parseLogMessageFrom (fuel + 1) (front ++ '{' :: after) = none := by
  rw [parseLogMessageFrom, Utf8.dropWhile_ne_append _ hfront]
  dsimp only
  rw [Utf8.dropWhile_ne_of_not_mem hafter, ite_self]

theorem parseLogMessageFrom_group (hfront : '{' ∉ front) (hinside : '}' ∉ inside) :
    parseLogMessageFrom (fuel + 1) (front ++ '{' :: (inside ++ '}' :: tail)) =
      if Refused front inside tail then none
      else (parseLogMessageFrom fuel tail).map fun parts =>
        literalParts front ++ .expression (String.ofList (trim inside)) :: parts := by
  rw [parseLogMessageFrom, Utf8.dropWhile_ne_append _ hfront, Utf8.takeWhile_ne_append _ hfront]
  dsimp only
  rw [Utf8.dropWhile_ne_append _ hinside, Utf8.takeWhile_ne_append _ hinside]
  dsimp only
  by_cases h₁ : '}' ∈ front
  · rw [if_pos h₁, if_pos (.inl h₁)]
  · rw [if_neg h₁]
    by_cases h₂ : trim inside = []
    · rw [if_pos h₂, if_pos (.inr (.inl h₂))]
    · rw [if_neg h₂]
      by_cases h₃ : tail.head? = some '}'
      · rw [if_pos h₃, if_pos (.inr (.inr h₃))]
      · rw [if_neg h₃, if_neg (by unfold Refused; tauto)]

theorem logMessageLoop_tail (h : '{' ∉ rest) : logMessageLoop (fuel + 1) parts rest =
    some (if '}' ∈ rest then none else some (parts ++ literalParts rest)) := by
  rw [logMessageLoop, findChar_of_not_mem h]

/-- The slices at an opening brace. -/
theorem slice_opening (front after : List Char) :
    slice (front ++ '{' :: after) 0 (byteLen front) = some front ∧
      sliceFrom (front ++ '{' :: after) (byteLen front + 1) = some after := by
  constructor
  · have h := slice_append [] front ('{' :: after)
    rwa [List.nil_append, byteLen_nil, Nat.zero_add] at h
  · have h := sliceFrom_append (front ++ ['{']) after
    rwa [List.append_assoc, byteLen_append] at h

theorem slice_closing (inside tail : List Char) :
    slice (inside ++ '}' :: tail) 0 (byteLen inside) = some inside ∧
      sliceFrom (inside ++ '}' :: tail) (byteLen inside + 1) = some tail := by
  constructor
  · have h := slice_append [] inside ('}' :: tail)
    rwa [List.nil_append, byteLen_nil, Nat.zero_add] at h
  · have h := sliceFrom_append (inside ++ ['}']) tail
    rwa [List.append_assoc, byteLen_append] at h

theorem byteLen_pos_iff : 0 < byteLen front ↔ front ≠ [] := by
  cases front with
  | nil => simp
  | cons c front =>
    have hpos := c.utf8Size_pos
    rw [byteLen_cons]
    exact iff_of_true (by omega) (List.cons_ne_nil _ _)

/-- The literal before a brace is pushed where there is one. -/
theorem push_literal : (if 0 < byteLen front then parts ++ [.literal (String.ofList front)]
    else parts) = parts ++ literalParts front := by
  unfold literalParts
  by_cases h : front = []
  · rw [if_pos h, if_neg (mt byteLen_pos_iff.mp (not_not.mpr h)), List.append_nil]
  · rw [if_neg h, if_pos (byteLen_pos_iff.mpr h)]

theorem logMessageLoop_unclosed (hfront : '{' ∉ front) (hafter : '}' ∉ after) :
    logMessageLoop (fuel + 1) parts (front ++ '{' :: after) = some none := by
  obtain ⟨hliteral, hafterOpen⟩ := slice_opening front after
  rw [logMessageLoop, findChar_append after hfront]
  dsimp only
  rw [hliteral, hafterOpen]
  simp only [Option.bind_eq_bind, Option.bind_some, findChar_of_not_mem hafter, ite_self]

theorem logMessageLoop_group (hfront : '{' ∉ front) (hinside : '}' ∉ inside) :
    logMessageLoop (fuel + 1) parts (front ++ '{' :: (inside ++ '}' :: tail)) =
      if Refused front inside tail then some none
      else logMessageLoop fuel
        (parts ++ literalParts front ++ [.expression (String.ofList (trim inside))]) tail := by
  obtain ⟨hliteral, hafterOpen⟩ := slice_opening front (inside ++ '}' :: tail)
  obtain ⟨hexpression, hrest⟩ := slice_closing inside tail
  rw [logMessageLoop, findChar_append _ hfront]
  dsimp only
  rw [hliteral, hafterOpen]
  simp only [Option.bind_eq_bind, Option.bind_some, findChar_append _ hinside, hexpression, hrest,
    push_literal]
  by_cases h₁ : '}' ∈ front
  · have hpos := byteLen_pos_iff.mpr (List.ne_nil_of_mem h₁)
    rw [if_pos ⟨hpos, h₁⟩, if_pos (.inl h₁)]
  · rw [if_neg (fun h => h₁ h.2)]
    by_cases h₂ : trim inside = []
    · rw [if_pos h₂, if_pos (.inr (.inl h₂))]
    · rw [if_neg h₂]
      by_cases h₃ : tail.head? = some '}'
      · rw [if_pos h₃, if_pos (.inr (.inr h₃))]
      · rw [if_neg h₃, if_neg (by unfold Refused; tauto)]

end Rounds

/-- With fuel for each character the loop ends, and no slice panics. -/
theorem logMessageLoop_eq {fuel fuel' : Nat} {parts : LogMessage String} {rest : List Char}
    (hfuel : rest.length < fuel) (hfuel' : rest.length < fuel') :
    logMessageLoop fuel parts rest =
      some ((parseLogMessageFrom fuel' rest).map fun more => parts ++ more) := by
  induction fuel generalizing fuel' parts rest with
  | zero => omega
  | succ fuel ih =>
    obtain ⟨fuel', rfl⟩ : ∃ less, fuel' = less + 1 := ⟨fuel' - 1, by omega⟩
    cases round rest with
    | tail h =>
      rw [logMessageLoop_tail h, parseLogMessageFrom_tail h]
      by_cases hclose : '}' ∈ rest
      · rw [if_pos hclose, if_pos hclose]
        rfl
      · rw [if_neg hclose, if_neg hclose]
        rfl
    | unclosed heq hfront hafter =>
      rw [heq, logMessageLoop_unclosed hfront hafter, parseLogMessageFrom_unclosed hfront hafter]
      rfl
    | @group front inside tail heq hfront hinside =>
      rw [heq, logMessageLoop_group hfront hinside, parseLogMessageFrom_group hfront hinside]
      by_cases hrefused : Refused front inside tail
      · rw [if_pos hrefused, if_pos hrefused]
        rfl
      · have hlength := congrArg List.length heq
        simp only [List.length_append, List.length_cons] at hlength
        rw [if_neg hrefused, if_neg hrefused, ih (by omega) (show tail.length < fuel' by omega),
          Option.map_map]
        congr 2
        funext more
        simp

/-! ## Templates are taken -/

theorem printed_cons (run : Run) (runs : List Run) : printed (run :: runs) = run.text ++ printed runs :=
  List.flatMap_cons

theorem head_printed {runs : List Run} (h : ∀ run ∈ runs, run.Formed) :
    (printed runs).head? ≠ some '}' := by
  induction runs with
  | nil => simp [printed]
  | cons run runs ih =>
    have hrun := h run List.mem_cons_self
    have hruns := ih fun r hr => h r (List.mem_cons_of_mem _ hr)
    rw [printed_cons]
    cases run with
    | literal text =>
      cases text with
      | nil => exact hruns
      | cons c text =>
        intro heq
        cases heq
        exact hrun.2 List.mem_cons_self
    | group inside => simp [Run.text]

theorem trim_ne_nil {inside : List Char} (h : ∃ c ∈ inside, isWhitespace c = false) :
    trim inside ≠ [] := by
  obtain ⟨c, hc, hfalse⟩ := h
  intro hnil
  rw [trim_eq_nil_iff.mp hnil c hc] at hfalse
  cases hfalse

theorem parseLogMessageFrom_printed {runs : List Run} (h : ∀ run ∈ runs, run.Formed)
    {front : List Char} (hopen : '{' ∉ front) (hclose : '}' ∉ front) {fuel : Nat}
    (hfuel : (front ++ printed runs).length < fuel) :
    parseLogMessageFrom fuel (front ++ printed runs) = some (partsAfter front runs) := by
  induction runs generalizing front fuel with
  | nil =>
    obtain ⟨fuel, rfl⟩ : ∃ less, fuel = less + 1 := ⟨fuel - 1, by omega⟩
    rw [show printed [] = [] from rfl, List.append_nil, parseLogMessageFrom_tail hopen,
      if_neg hclose]
    rfl
  | cons run runs ih =>
    have hrun := h run List.mem_cons_self
    have hruns : ∀ run ∈ runs, run.Formed := fun r hr => h r (List.mem_cons_of_mem _ hr)
    rw [printed_cons] at hfuel ⊢
    cases run with
    | literal text =>
      obtain ⟨hopen', hclose'⟩ := hrun
      rw [Run.text, ← List.append_assoc] at hfuel ⊢
      apply ih hruns
      · rw [List.mem_append, not_or]
        exact ⟨hopen, hopen'⟩
      · rw [List.mem_append, not_or]
        exact ⟨hclose, hclose'⟩
      · exact hfuel
    | group inside =>
      obtain ⟨hinside, hnonblank⟩ := hrun
      obtain ⟨fuel, rfl⟩ : ∃ less, fuel = less + 1 := ⟨fuel - 1, by omega⟩
      have htext : front ++ ((Run.group inside).text ++ printed runs) =
          front ++ '{' :: (inside ++ '}' :: printed runs) := by
        simp [Run.text]
      have htaken : ¬ Refused front inside (printed runs) := by
        rintro (h | h | h)
        · exact hclose h
        · exact trim_ne_nil hnonblank h
        · exact head_printed hruns h
      rw [htext] at hfuel ⊢
      simp only [List.length_append, List.length_cons] at hfuel
      have hrest := @ih hruns [] List.not_mem_nil List.not_mem_nil fuel (by
        rw [List.nil_append]
        omega)
      rw [List.nil_append] at hrest
      rw [parseLogMessageFrom_group hopen hinside, if_neg htaken, hrest]
      rfl

/-! ## What is taken is a template -/

theorem exists_runs {fuel : Nat} {rest : List Char} {parts : LogMessage String}
    (h : parseLogMessageFrom fuel rest = some parts) :
    ∃ runs, (∀ run ∈ runs, run.Formed) ∧ rest = printed runs := by
  induction fuel generalizing rest parts with
  | zero => cases h
  | succ fuel ih =>
    cases round rest with
    | tail hopen =>
      rw [parseLogMessageFrom_tail hopen] at h
      by_cases hclose : '}' ∈ rest
      · rw [if_pos hclose] at h
        cases h
      · refine ⟨[.literal rest], ?_, by simp [printed, Run.text]⟩
        intro run hrun
        rw [List.mem_singleton.mp hrun]
        exact ⟨hopen, hclose⟩
    | unclosed heq hfront hafter =>
      rw [heq, parseLogMessageFrom_unclosed hfront hafter] at h
      cases h
    | @group front inside tail heq hfront hinside =>
      rw [heq, parseLogMessageFrom_group hfront hinside] at h
      by_cases hrefused : Refused front inside tail
      · rw [if_pos hrefused] at h
        cases h
      · rw [if_neg hrefused] at h
        obtain ⟨more, hmore, -⟩ := Option.map_eq_some_iff.mp h
        obtain ⟨runs, hruns, htail⟩ := ih hmore
        have hnonblank : ∃ c ∈ inside, isWhitespace c = false := by
          by_contra hblank
          apply hrefused
          right
          left
          apply trim_eq_nil_iff.mpr
          intro c hc
          by_contra hc'
          exact hblank ⟨c, hc, Bool.eq_false_iff.mpr hc'⟩
        refine ⟨.literal front :: .group inside :: runs, ?_, ?_⟩
        · intro run hrun
          simp only [List.mem_cons] at hrun
          rcases hrun with rfl | rfl | hrun
          · exact ⟨hfront, fun hclose => hrefused (.inl hclose)⟩
          · exact ⟨hinside, hnonblank⟩
          · exact hruns run hrun
        · rw [heq, htail, printed_cons, printed_cons]
          simp [Run.text]

/-! ## The parts -/

theorem reprints_literalParts {front : List Char} {parts : LogMessage String} {text : List Char}
    (h : Reprints parts text) : Reprints (literalParts front ++ parts) (front ++ text) := by
  unfold literalParts
  by_cases hnil : front = []
  · rw [if_pos hnil, hnil]
    exact h
  · have hliteral := Reprints.literal (String.ofList front) h
    rw [String.toList_ofList] at hliteral
    rw [if_neg hnil]
    exact hliteral

theorem reprints_partsAfter (front : List Char) (runs : List Run) :
    Reprints (partsAfter front runs) (front ++ printed runs) := by
  induction runs generalizing front with
  | nil =>
    have h := @reprints_literalParts front [] [] .nil
    rwa [List.append_nil] at h
  | cons run runs ih =>
    rw [printed_cons]
    cases run with
    | literal text =>
      rw [Run.text, ← List.append_assoc]
      exact ih _
    | group inside =>
      obtain ⟨lead, trail, hinside, hlead, htrail⟩ := exists_trim inside
      apply reprints_literalParts
      have hgroup := Reprints.expression (String.ofList (trim inside)) hlead htrail (ih [])
      rw [String.toList_ofList, List.nil_append] at hgroup
      have htext : (Run.group inside).text ++ printed runs =
          '{' :: (lead ++ (trim inside ++ (trail ++ '}' :: printed runs))) := by
        conv_lhs => rw [hinside]
        simp [Run.text]
      rw [htext]
      exact hgroup

theorem merged_literalParts (front : List Char) : Merged (literalParts front) := by
  unfold literalParts
  by_cases hnil : front = []
  · rw [if_pos hnil]
    exact ⟨List.not_mem_nil, .nil⟩
  · rw [if_neg hnil]
    refine ⟨?_, .singleton _⟩
    intro hmem
    have heq := LogMessagePart.literal.inj (List.mem_singleton.mp hmem)
    exact hnil (String.ofList_eq_empty_iff.mp heq.symm)

theorem merged_expression {front : List Char} {expression : String} {parts : LogMessage String}
    (h : Merged parts) : Merged (literalParts front ++ .expression expression :: parts) := by
  have hfront := merged_literalParts front
  constructor
  · intro hmem
    rcases List.mem_append.mp hmem with hmem | hmem
    · exact hfront.nonempty hmem
    · rcases List.mem_cons.mp hmem with heq | hmem
      · cases heq
      · exact h.nonempty hmem
  · apply hfront.apart.append
    · apply h.apart.cons
      rintro _ - ⟨hfalse, -⟩
      cases hfalse
    · rintro _ - _ hhead ⟨-, hfalse⟩
      cases hhead
      cases hfalse

theorem merged_partsAfter (front : List Char) (runs : List Run) : Merged (partsAfter front runs) := by
  induction runs generalizing front with
  | nil => exact merged_literalParts front
  | cons run runs ih =>
    cases run with
    | literal text => exact ih _
    | group inside => exact merged_expression (ih [])

/-! ## The whole template -/

/-- The parser ends, takes exactly the texts of runs, and gives their parts. -/
theorem parseLogMessage_grammar (value : String) :
    (∀ fuel, value.length < fuel → parseLogMessageBytes fuel value = some (parseLogMessage value)) ∧
    ((parseLogMessage value).isSome = true ↔ value ≠ "" ∧
      ∃ runs, (∀ run ∈ runs, run.Formed) ∧ value.toList = printed runs) ∧
    (∀ runs, (∀ run ∈ runs, run.Formed) → value ≠ "" → value.toList = printed runs →
      parseLogMessage value = some (partsAfter [] runs)) ∧
    ∀ parts, parseLogMessage value = some parts → Merged parts ∧ Reprints parts value.toList := by
  have hlength : value.toList.length < value.length + 1 := by
    rw [String.length_toList]
    exact Nat.lt_succ_self _
  by_cases hempty : value = ""
  · have hnone : parseLogMessage value = none := if_pos hempty
    have hbytes (fuel : Nat) : parseLogMessageBytes fuel value = some none := if_pos hempty
    rw [hnone]
    refine ⟨fun fuel _ => hbytes fuel, ?_, fun _ _ hne => absurd hempty hne, ?_⟩
    · exact iff_of_false (by simp) fun h => h.1 hempty
    · rintro parts ⟨⟩
  · have hparse : parseLogMessage value = parseLogMessageFrom (value.length + 1) value.toList :=
      if_neg hempty
    have htemplate : ∀ runs, (∀ run ∈ runs, run.Formed) → value.toList = printed runs →
        parseLogMessage value = some (partsAfter [] runs) := by
      intro runs hruns hprinted
      rw [hprinted] at hlength
      rw [hparse, hprinted]
      exact @parseLogMessageFrom_printed runs hruns [] List.not_mem_nil List.not_mem_nil _ hlength
    refine ⟨?_, ?_, fun runs hruns _ => htemplate runs hruns, ?_⟩
    · intro fuel hfuel
      rw [← String.length_toList] at hfuel
      rw [parseLogMessageBytes, if_neg hempty, logMessageLoop_eq hfuel hlength, hparse]
      simp
    · constructor
      · intro h
        obtain ⟨parts, hparts⟩ := Option.isSome_iff_exists.mp h
        rw [hparse] at hparts
        exact ⟨hempty, exists_runs hparts⟩
      · rintro ⟨-, runs, hruns, hprinted⟩
        rw [htemplate runs hruns hprinted]
        rfl
    · intro parts hparts
      rw [hparse] at hparts
      obtain ⟨runs, hruns, hprinted⟩ := exists_runs hparts
      rw [← hparse, htemplate runs hruns hprinted] at hparts
      cases hparts
      have hreprints := reprints_partsAfter [] runs
      rw [List.nil_append, ← hprinted] at hreprints
      exact ⟨merged_partsAfter [] runs, hreprints⟩

example : parseLogMessageBytes 9 "é{ x }{y}" =
    some (some [.literal "é", .expression "x", .expression "y"]) := by
  decide

end Dap

end MarrowLsp
