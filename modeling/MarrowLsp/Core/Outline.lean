-- SUMMARY: The outline of a file: what nests in bytes nests in lines and columns, at every depth and in the same order (symbols.rs).
import MarrowLsp.Core.PositionOrder

/-!
# Outline

The compiler gives the declarations of a file as a tree of byte spans. The editor draws the
tree that comes of it, in lines and columns, and turns down one in which a name does not lie
within its declaration.
-/
namespace MarrowLsp

open Utf8

inductive DocumentSymbolKind where
  | constant
  | function
  | enum
  | enumMember
  | resource
  | resourceField
  | resourceGroup
  | store
  | storeIndex
  | surface
  | evolve
  | evolveStep
  deriving DecidableEq, Repr

/-- The kinds of the protocol that are used. -/
inductive SymbolKind where
  | constant
  | function
  | enum
  | enumMember
  | struct
  | field
  | object
  | key
  | interface
  | «namespace»
  | event
  deriving DecidableEq, Repr

def documentSymbolKind : DocumentSymbolKind → SymbolKind
  | .constant => .constant
  | .function => .function
  | .enum => .enum
  | .enumMember => .enumMember
  | .resource => .struct
  | .resourceField => .field
  | .resourceGroup => .object
  | .store => .object
  | .storeIndex => .key
  | .surface => .interface
  | .evolve => .namespace
  | .evolveStep => .event

structure ByteSpan where
  startByte : Nat
  endByte : Nat
  deriving DecidableEq, Repr

/-- A declaration as the compiler gives it. -/
inductive MarrowDocumentSymbol where
  | mk (name : String) (detail : Option String) (kind : DocumentSymbolKind)
      (span selectionSpan : ByteSpan) (children : List MarrowDocumentSymbol)

def MarrowDocumentSymbol.span : MarrowDocumentSymbol → ByteSpan
  | .mk _ _ _ span _ _ => span

/-- A declaration as the editor gets it. -/
inductive DocumentSymbol where
  | mk (name : String) (detail : Option String) (kind : SymbolKind)
      (range selectionRange : Range) (children : Option (List DocumentSymbol))

def DocumentSymbol.range : DocumentSymbol → Range
  | .mk _ _ _ range _ _ => range

def spanRange (index : LineIndex) (span : ByteSpan) : Range :=
  index.range span.startByte span.endByte

mutual

def documentSymbolFromFact (index : LineIndex) : MarrowDocumentSymbol → Option DocumentSymbol
  | .mk name detail kind span selectionSpan children =>
    if name = "" then none
    else
      let children := documentSymbols index children
      some (.mk name detail (documentSymbolKind kind) (spanRange index span)
        (spanRange index selectionSpan) (if children.isEmpty then none else some children))

/-- The symbols of declarations, in their order. -/
def documentSymbols (index : LineIndex) : List MarrowDocumentSymbol → List DocumentSymbol
  | [] => []
  | fact :: facts => (documentSymbolFromFact index fact).toList ++ documentSymbols index facts

end

/-! ## Nesting -/

/-- A stretch that lies in another. -/
def Within {α : Type} [LE α] (start stop outerStart outerStop : α) : Prop :=
  outerStart ≤ start ∧ start ≤ stop ∧ stop ≤ outerStop

def ByteSpan.Within (inner outer : ByteSpan) : Prop :=
  MarrowLsp.Within inner.startByte inner.endByte outer.startByte outer.endByte

def Range.Within (inner outer : Range) : Prop :=
  MarrowLsp.Within inner.start inner.stop outer.start outer.stop

mutual

/-- A name lies in its declaration, and the declarations inside it do too. -/
def MarrowDocumentSymbol.Nests : MarrowDocumentSymbol → Prop
  | .mk _ _ _ span selectionSpan children => selectionSpan.Within span ∧ NestIn span children

/-- Declarations inside another, in source order. -/
def MarrowDocumentSymbol.NestIn (outer : ByteSpan) : List MarrowDocumentSymbol → Prop
  | [] => True
  | fact :: facts => fact.span.Within outer ∧ fact.Nests ∧
      (∀ later ∈ facts, fact.span.startByte ≤ later.span.startByte) ∧ NestIn outer facts

end

mutual

/-- A symbol has a name, which lies in its range, and children only where there are some,
all inside it. -/
def DocumentSymbol.Nests : DocumentSymbol → Prop
  | .mk name _ _ range selectionRange none => name ≠ "" ∧ selectionRange.Within range
  | .mk name _ _ range selectionRange (some children) =>
    name ≠ "" ∧ selectionRange.Within range ∧ children ≠ [] ∧ NestIn range children

/-- Symbols inside another, in the order of their starts. -/
def DocumentSymbol.NestIn (outer : Range) : List DocumentSymbol → Prop
  | [] => True
  | symbol :: symbols => symbol.range.Within outer ∧ symbol.Nests ∧
      (∀ later ∈ symbols, symbol.range.start ≤ later.range.start) ∧ NestIn outer symbols

end

namespace LineIndex

/-- A later byte is at a later position or at the same one. -/
theorem position_mono {text : Text} (hsmall : utf16Len text < 2 ^ 32) {a b : Nat} (h : a ≤ b) :
    (new text).position a ≤ (new text).position b := by
  rw [← position_floor text a, ← position_floor text b]
  have hfloor : floorCharBoundary text (min a (byteLen text)) ≤
      floorCharBoundary text (min b (byteLen text)) := by
    apply le_floorCharBoundary (isCharBoundary_floorCharBoundary _ _)
    have hle := floorCharBoundary_le text (min a (byteLen text))
    omega
  rcases Nat.lt_or_eq_of_le hfloor with hlt | heq
  · have hpos := position_strictMono hsmall (isCharBoundary_floorCharBoundary _ _)
      (isCharBoundary_floorCharBoundary _ _) hlt
    rw [Position.lt_iff] at hpos
    rw [Position.le_iff]
    omega
  · rw [heq]
    exact .inr ⟨rfl, Nat.le_refl _⟩

end LineIndex

theorem within_spanRange {text : Text} (hsmall : utf16Len text < 2 ^ 32) {inner outer : ByteSpan}
    (h : inner.Within outer) :
    (spanRange (LineIndex.new text) inner).Within (spanRange (LineIndex.new text) outer) :=
  ⟨LineIndex.position_mono hsmall h.1, LineIndex.position_mono hsmall h.2.1,
    LineIndex.position_mono hsmall h.2.2⟩

theorem range_of_fact {index : LineIndex} {fact : MarrowDocumentSymbol} {symbol : DocumentSymbol}
    (h : documentSymbolFromFact index fact = some symbol) :
    symbol.range = spanRange index fact.span := by
  cases fact with
  | mk name detail kind span selectionSpan children =>
    rw [documentSymbolFromFact] at h
    split at h
    · cases h
    · cases h
      rfl

theorem exists_fact_of_mem {index : LineIndex} {facts : List MarrowDocumentSymbol}
    {symbol : DocumentSymbol} (h : symbol ∈ documentSymbols index facts) :
    ∃ fact ∈ facts, documentSymbolFromFact index fact = some symbol := by
  induction facts with
  | nil =>
    rw [documentSymbols] at h
    cases h
  | cons fact facts ih =>
    rw [documentSymbols, List.mem_append, Option.mem_toList] at h
    rcases h with h | h
    · exact ⟨fact, List.mem_cons_self, h⟩
    · obtain ⟨later, hlater, hsymbol⟩ := ih h
      exact ⟨later, List.mem_cons_of_mem _ hlater, hsymbol⟩

mutual

theorem nests_of_fact {text : Text} (hsmall : utf16Len text < 2 ^ 32) :
    ∀ (fact : MarrowDocumentSymbol) (symbol : DocumentSymbol), fact.Nests →
    documentSymbolFromFact (LineIndex.new text) fact = some symbol → symbol.Nests
  | .mk name detail kind span selectionSpan children, symbol, hnests, hsymbol => by
    rw [MarrowDocumentSymbol.Nests] at hnests
    have hchildren := nestIn_of_facts hsmall span children hnests.2
    have hname := within_spanRange hsmall hnests.1
    rw [documentSymbolFromFact] at hsymbol
    split at hsymbol
    · cases hsymbol
    · next hne =>
      cases hsymbol
      cases hempty : documentSymbols (LineIndex.new text) children with
      | nil =>
        rw [List.isEmpty_nil, if_pos rfl, DocumentSymbol.Nests]
        exact ⟨hne, hname⟩
      | cons child later =>
        rw [List.isEmpty_cons, if_neg Bool.false_ne_true, DocumentSymbol.Nests, ← hempty]
        refine ⟨hne, hname, ?_, hchildren⟩
        rw [hempty]
        exact List.cons_ne_nil _ _

theorem nestIn_of_facts {text : Text} (hsmall : utf16Len text < 2 ^ 32) : ∀ (outer : ByteSpan) (facts : List MarrowDocumentSymbol),
    MarrowDocumentSymbol.NestIn outer facts →
    DocumentSymbol.NestIn (spanRange (LineIndex.new text) outer)
      (documentSymbols (LineIndex.new text) facts)
  | outer, [], _ => by
    rw [documentSymbols, DocumentSymbol.NestIn]
    trivial
  | outer, fact :: facts, hnest => by
    rw [MarrowDocumentSymbol.NestIn] at hnest
    obtain ⟨hwithin, hnests, horder, hlater⟩ := hnest
    have hrest := nestIn_of_facts hsmall outer facts hlater
    rw [documentSymbols]
    cases hsymbol : documentSymbolFromFact (LineIndex.new text) fact with
    | none => exact hrest
    | some symbol =>
      have hrange := range_of_fact hsymbol
      rw [Option.toList_some, List.singleton_append, DocumentSymbol.NestIn, hrange]
      refine ⟨within_spanRange hsmall hwithin, nests_of_fact hsmall fact symbol hnests hsymbol, ?_, hrest⟩
      intro next hnext
      obtain ⟨other, hother, hfrom⟩ := exists_fact_of_mem hnext
      rw [range_of_fact hfrom]
      exact LineIndex.position_mono hsmall (horder other hother)

end

/-- In every text of fewer columns than a `u32` holds, declarations that nest and follow each
other in bytes do so in lines and columns. -/
theorem documentSymbols_nest {text : Text} (hsmall : utf16Len text < 2 ^ 32)
    {facts : List MarrowDocumentSymbol}
    (h : MarrowDocumentSymbol.NestIn ⟨0, byteLen text⟩ facts) :
    DocumentSymbol.NestIn (spanRange (LineIndex.new text) ⟨0, byteLen text⟩)
      (documentSymbols (LineIndex.new text) facts) :=
  nestIn_of_facts hsmall ⟨0, byteLen text⟩ facts h

namespace Sample

def enumText : Text := "enum E\n  a".toList

/-- An enum with one member. -/
def enumFacts : List MarrowDocumentSymbol :=
  [.mk "E" none .enum ⟨0, 10⟩ ⟨5, 6⟩ [.mk "a" none .enumMember ⟨9, 10⟩ ⟨9, 10⟩ []]]

end Sample

theorem documentSymbols_nest_enum :
    DocumentSymbol.NestIn (spanRange (LineIndex.new Sample.enumText) ⟨0, byteLen Sample.enumText⟩)
      (documentSymbols (LineIndex.new Sample.enumText) Sample.enumFacts) := by
  have hsize : byteLen Sample.enumText = 10 := by decide
  apply documentSymbols_nest (by decide)
  simp [Sample.enumFacts, hsize, MarrowDocumentSymbol.NestIn, MarrowDocumentSymbol.Nests,
    MarrowDocumentSymbol.span, ByteSpan.Within, Within]

end MarrowLsp
