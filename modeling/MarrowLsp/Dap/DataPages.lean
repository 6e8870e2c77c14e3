-- SUMMARY: Saved-data children read at an offset from pages that go by cursor: the walk over the pages ends with that slice of the children, or with the error of a page it asked for (debugger.rs).
import Mathlib.Logic.Relation
import MarrowLsp.Dap.Host

/-!
# Children at an offset

A client of the adapter pages by offset, the store by cursor. The adapter walks the
store's pages from the first, drops what is before the offset, and stops once it has
the number of children that was asked for.
-/
namespace MarrowLsp

namespace Dap

structure StampedData (S β : Type) where
  data : β
  stamp : S

structure DataChildrenPage (α κ : Type) where
  children : List α
  truncated : Bool
  cursor : Option κ

variable {α κ S ε σ : Type}

/-- A closure that fetches the page after a cursor; `σ` is what it captures. -/
abbrev Fetch (α κ S ε σ : Type) : Type :=
  σ → Option κ → Nat → Except ε (StampedData S (DataChildrenPage α κ)) × σ

/-! ## The walk -/

def saturatingAdd (a b : Nat) : Nat := min (a + b) (2 ^ 64 - 1)

/-- The `for` over a page from an index on, with whether the page has more than the limit. -/
def appendPage (start limit skipped : Nat) : List α → Nat → List α → List α × Bool
  | [], _, children => (children, false)
  | child :: rest, index, children =>
    if saturatingAdd skipped index < start then
      appendPage start limit skipped rest (index + 1) children
    else if children.length = limit then (children, true)
    else appendPage start limit skipped rest (index + 1) (children ++ [child])

def dataChildrenPage (stamp : S) (children : List α) (truncated : Bool) :
    StampedData S (DataChildrenPage α κ) :=
  ⟨⟨children, truncated, none⟩, stamp⟩

/-- The `loop`, `none` where the fuel runs out. -/
def walkPages (fetch : Fetch α κ S ε σ) (start limit pageLimit : Nat) :
    Nat → σ → Option κ → Nat → List α →
      Option (Except ε (StampedData S (DataChildrenPage α κ)) × σ)
  | 0, _, _, _, _ => none
  | fuel + 1, s, cursor, skipped, children =>
    match fetch s cursor pageLimit with
    | (.error e, s) => some (.error e, s)
    | (.ok page, s) =>
      let appended := appendPage start limit skipped page.data.children 0 children
      let skipped := saturatingAdd skipped page.data.children.length
      if appended.1.length = limit then
        some (.ok (dataChildrenPage page.stamp appended.1 (appended.2 || page.data.truncated)), s)
      else if page.data.truncated = false ∨ page.data.children.length = 0 then
        some (.ok (dataChildrenPage page.stamp appended.1 false), s)
      else
        match page.data.cursor with
        | none => some (.ok (dataChildrenPage page.stamp appended.1 false), s)
        | some next => walkPages fetch start limit pageLimit fuel s (some next) skipped appended.1

def dataChildrenAtOffsetWithLimit (fuel : Nat) (start limit pageLimit : Nat)
    (fetch : Fetch α κ S ε σ) (s : σ) :
    Option (Except ε (StampedData S (DataChildrenPage α κ)) × σ) :=
  walkPages fetch start limit (max pageLimit 1) fuel s none 0 []

section Bounds

-- `marrow_check::tooling::MAX_PREVIEW_ITEMS`.
variable (maxPreviewItems : Nat)

def dataPageBounds : ChildPage → Nat × Nat
  | .all start => (start, maxPreviewItems)
  | .range start count => (start, max 1 (min count maxPreviewItems))

/-- `debugDataChildren` is the frame's, for the path that is read. -/
def dataChildrenAtOffset (debugDataChildren : Fetch α κ S RuntimeErrorDetail σ) (fuel : Nat)
    (page : ChildPage) (s : σ) :
    Option (Except RuntimeErrorDetail (StampedData S (DataChildrenPage α κ)) × σ) :=
  dataChildrenAtOffsetWithLimit fuel (dataPageBounds maxPreviewItems page).1
    (dataPageBounds maxPreviewItems page).2 maxPreviewItems debugDataChildren s

end Bounds

/-! ## Pages of a list -/

/-- The fetch pages a list: a cursor has a place in it, a page holds the children from there,
and says so where more follow, with the cursor after its last child. A page that says so is not
empty. The fetch may fail. -/
structure PagesOf (L : List α) (place : Option κ → Nat) (fetch : Fetch α κ S ε σ) : Prop where
  first : place none = 0
  children : ∀ {s s' cursor pageLimit page}, 0 < pageLimit →
    fetch s cursor pageLimit = (.ok page, s') → page.data.children <+: L.drop (place cursor)
  length_le : ∀ {s s' cursor pageLimit page}, 0 < pageLimit →
    fetch s cursor pageLimit = (.ok page, s') → page.data.children.length ≤ pageLimit
  truncated : ∀ {s s' cursor pageLimit page}, 0 < pageLimit →
    fetch s cursor pageLimit = (.ok page, s') →
      (page.data.truncated = true ↔ place cursor + page.data.children.length < L.length)
  cursor : ∀ {s s' cursor pageLimit page}, 0 < pageLimit →
    fetch s cursor pageLimit = (.ok page, s') → page.data.truncated = true →
      page.data.children ≠ [] ∧ ∃ next, page.data.cursor = some next ∧
        place (some next) = place cursor + page.data.children.length

/-- A call of the fetch, and how many children the pages before it had. -/
structure Call (κ σ : Type) where
  state : σ
  cursor : Option κ
  passed : Nat

/-- A truncated page short of `target` children is followed by the page at its cursor. -/
inductive NextCall (fetch : Fetch α κ S ε σ) (pageLimit target : Nat) :
    Call κ σ → Call κ σ → Prop
  | page {s s' cursor passed page next} (hfetch : fetch s cursor pageLimit = (.ok page, s'))
      (htruncated : page.data.truncated = true)
      (hshort : passed + page.data.children.length < target)
      (hcursor : page.data.cursor = some next) :
      NextCall fetch pageLimit target ⟨s, cursor, passed⟩
        ⟨s', some next, passed + page.data.children.length⟩

/-- A walk that needs `target` children and is about to make the call comes to a call that
fails with this error. -/
def FailsFrom (fetch : Fetch α κ S ε σ) (pageLimit target : Nat) (call : Call κ σ) (e : ε) : Prop :=
  ∃ asked, Relation.ReflTransGen (NextCall fetch pageLimit target) call asked ∧
    (fetch asked.state asked.cursor pageLimit).1 = .error e

section FailsFrom

variable {fetch : Fetch α κ S ε σ} {pageLimit target : Nat} {call : Call κ σ} {e : ε} {s' : σ}
  {page : StampedData S (DataChildrenPage α κ)}

/-- The first call of a walk that fails is this one or a later one. -/
theorem failsFrom_iff : FailsFrom fetch pageLimit target call e ↔
    (fetch call.state call.cursor pageLimit).1 = .error e ∨
      ∃ later, NextCall fetch pageLimit target call later ∧
        FailsFrom fetch pageLimit target later e := by
  constructor
  · rintro ⟨asked, hasked, he⟩
    rcases Relation.ReflTransGen.cases_head hasked with rfl | ⟨later, hnext, hasked⟩
    · exact .inl he
    · exact .inr ⟨later, hnext, asked, hasked, he⟩
  · rintro (he | ⟨later, hnext, asked, hasked, he⟩)
    · exact ⟨call, .refl, he⟩
    · exact ⟨asked, .head hnext hasked, he⟩

theorem failsFrom_error {e' : ε} (hfetch : fetch call.state call.cursor pageLimit = (.error e', s')) :
    FailsFrom fetch pageLimit target call e ↔ e' = e := by
  rw [failsFrom_iff, hfetch]
  constructor
  · rintro (he | ⟨later, hnext, -⟩)
    · exact Except.error.inj he
    · cases hnext with
      | page hok => rw [hfetch] at hok; cases hok
  · rintro rfl
    exact .inl rfl

theorem not_failsFrom_last (hfetch : fetch call.state call.cursor pageLimit = (.ok page, s'))
    (hlast : page.data.truncated = true → target ≤ call.passed + page.data.children.length) :
    ¬ FailsFrom fetch pageLimit target call e := by
  rw [failsFrom_iff, hfetch]
  rintro (he | ⟨later, hnext, -⟩)
  · cases he
  · cases hnext with
    | page hok htruncated hshort =>
      rw [hfetch] at hok
      cases hok
      exact absurd (hlast htruncated) (Nat.not_le.mpr hshort)

theorem failsFrom_next {next : κ} (hfetch : fetch call.state call.cursor pageLimit = (.ok page, s'))
    (htruncated : page.data.truncated = true)
    (hshort : call.passed + page.data.children.length < target)
    (hcursor : page.data.cursor = some next) : FailsFrom fetch pageLimit target call e ↔
      FailsFrom fetch pageLimit target
        ⟨s', some next, call.passed + page.data.children.length⟩ e := by
  rw [failsFrom_iff, hfetch]
  constructor
  · rintro (he | ⟨later, hnext, hfails⟩)
    · cases he
    · cases hnext with
      | page hok _ _ hcursor' =>
        rw [hfetch] at hok
        cases hok
        rw [hcursor] at hcursor'
        cases hcursor'
        exact hfails
  · intro hfails
    exact .inr ⟨_, .page hfetch htruncated hshort hcursor, hfails⟩

end FailsFrom

/-! ## Windows -/

/-- What the walk has kept once it is past `passed` children. -/
def window (L : List α) (start limit passed : Nat) : List α :=
  (L.drop start).take (min limit (passed - start))

section Window

variable {L : List α} {start limit passed : Nat}

theorem window_zero : window L start limit 0 = [] := by
  rw [window, Nat.zero_sub, Nat.min_zero, List.take_zero]

theorem window_succ_of_lt (h : passed < start) :
    window L start limit (passed + 1) = window L start limit passed := by
  have hsub : passed + 1 - start = passed - start := by omega
  rw [window, window, hsub]

theorem window_succ {child : α} (hstart : start ≤ passed) (hlt : passed < start + limit)
    (hchild : L[passed]? = some child) :
    window L start limit (passed + 1) = window L start limit passed ++ [child] := by
  have hmin : min limit (passed + 1 - start) = min limit (passed - start) + 1 := by omega
  have hget : (L.drop start)[min limit (passed - start)]? = some child := by
    rw [List.getElem?_drop, ← hchild]
    congr 1
    omega
  rw [window, window, hmin, List.take_add_one, hget, Option.toList_some]

theorem window_of_le (h : start + limit ≤ passed ∨ L.length ≤ passed) :
    window L start limit passed = (L.drop start).take limit := by
  rw [window]
  rcases h with h | h
  · congr 1
    omega
  · apply List.take_eq_take_iff.mpr
    rw [List.length_drop]
    omega

theorem length_window (h : passed ≤ L.length) :
    (window L start limit passed).length = min limit (passed - start) := by
  rw [window, List.length_take, List.length_drop]
  omega

end Window

/-! ## One page -/

theorem isPrefix_drop_cons {L rest : List α} {child : α} {passed : Nat}
    (h : child :: rest <+: L.drop passed) :
    L[passed]? = some child ∧ rest <+: L.drop (passed + 1) := by
  obtain ⟨later, hlater⟩ := h
  constructor
  · have hget : (L.drop passed)[0]? = some child := by rw [← hlater]; rfl
    rwa [List.getElem?_drop] at hget
  · refine ⟨later, ?_⟩
    rw [← List.drop_drop, ← hlater]
    rfl

theorem length_le_of_isPrefix_drop {L children : List α} {passed : Nat}
    (h : children <+: L.drop passed) (hpassed : passed ≤ L.length) :
    passed + children.length ≤ L.length := by
  have hlength := h.length_le
  rw [List.length_drop] at hlength
  omega

/-- The window moves past the page, and the page has more exactly where the window ends in it. -/
theorem appendPage_window {L : List α} {start limit passed : Nat} (hstart : start < 2 ^ 64)
    {rest : List α} {index : Nat} (hrest : rest <+: L.drop (passed + index))
    (hle : passed + index ≤ start + limit) :
    appendPage start limit (min passed (2 ^ 64 - 1)) rest index
        (window L start limit (passed + index)) =
      (window L start limit (passed + index + rest.length),
        decide (start + limit < passed + index + rest.length)) := by
  induction rest generalizing index with
  | nil =>
    have hnot : ¬ start + limit < passed + index := by omega
    simp only [appendPage, List.length_nil, Nat.add_zero, decide_eq_false hnot]
  | cons child rest ih =>
    obtain ⟨hchild, hrest⟩ := isPrefix_drop_cons hrest
    have hlength : passed + index < L.length := (List.getElem?_eq_some_iff.mp hchild).1
    have hsum : passed + index + (child :: rest).length = passed + (index + 1) + rest.length := by
      rw [List.length_cons]
      omega
    rw [appendPage, saturatingAdd, hsum]
    by_cases hbefore : passed + index < start
    · rw [if_pos (by omega), ← window_succ_of_lt hbefore]
      apply ih hrest
      omega
    · rw [if_neg (by omega), length_window (by omega)]
      by_cases hfull : passed + index = start + limit
      · have hsame : window L start limit (passed + (index + 1) + rest.length) =
            window L start limit (passed + index) := by
          rw [window_of_le (.inl (by omega)), window_of_le (.inl (by omega))]
        rw [if_pos (by omega), hsame, decide_eq_true (by omega)]
      · rw [if_neg (by omega), ← window_succ (by omega) (by omega) hchild]
        apply ih hrest
        omega

/-! ## The whole walk -/

section Walk

variable {L : List α} {place : Option κ → Nat} {fetch : Fetch α κ S ε σ}
  {start limit pageLimit : Nat}

section OnePage

variable (hpages : PagesOf L place fetch) (hstart : start < 2 ^ 64) (hpageLimit : 0 < pageLimit)
  {call : Call κ σ} (hplace : place call.cursor = call.passed)
  (hshort : call.passed < start + limit) {page : StampedData S (DataChildrenPage α κ)} {s' : σ}
  (hfetch : fetch call.state call.cursor pageLimit = (.ok page, s'))

include hpages hpageLimit hplace hfetch

theorem passed_le_of_page (hpassed : call.passed ≤ L.length) :
    call.passed + page.data.children.length ≤ L.length := by
  have hchildren := hpages.children hpageLimit hfetch
  rw [hplace] at hchildren
  exact length_le_of_isPrefix_drop hchildren hpassed

theorem truncated_iff_of_page :
    page.data.truncated = true ↔ call.passed + page.data.children.length < L.length := by
  rw [hpages.truncated hpageLimit hfetch, hplace]

include hstart hshort

theorem appendPage_page :
    appendPage start limit (min call.passed (2 ^ 64 - 1)) page.data.children 0
        (window L start limit call.passed) =
      (window L start limit (call.passed + page.data.children.length),
        decide (start + limit < call.passed + page.data.children.length)) := by
  have hchildren := hpages.children hpageLimit hfetch
  rw [hplace] at hchildren
  have happend := @appendPage_window _ L start limit call.passed hstart page.data.children 0
    hchildren hshort.le
  rwa [Nat.add_zero] at happend

/-- The limit is reached, in this page or at its end. -/
theorem walkPages_full (fuel : Nat) (hpassed : call.passed ≤ L.length)
    (hfull : start + limit ≤ call.passed + page.data.children.length) :
    walkPages fetch start limit pageLimit (fuel + 1) call.state call.cursor
        (min call.passed (2 ^ 64 - 1)) (window L start limit call.passed) =
      some (.ok (dataChildrenPage page.stamp ((L.drop start).take limit)
        (decide (start + limit < L.length))), s') := by
  have htruncated := truncated_iff_of_page hpages hpageLimit hplace hfetch
  have hend := passed_le_of_page hpages hpageLimit hplace hfetch hpassed
  have hlength := @length_window _ L start limit _ hend
  have hmore : (decide (start + limit < call.passed + page.data.children.length) ||
      page.data.truncated) = decide (start + limit < L.length) := by
    rw [Bool.eq_iff_iff, Bool.or_eq_true, htruncated, decide_eq_true_iff, decide_eq_true_iff]
    omega
  have hkept : (window L start limit (call.passed + page.data.children.length)).length =
      limit := by omega
  rw [walkPages, hfetch]
  dsimp only
  rw [appendPage_page hpages hstart hpageLimit hplace hshort hfetch]
  dsimp only
  rw [if_pos hkept, hmore, window_of_le (.inl hfull)]

/-- The children are all there are. -/
theorem walkPages_all (hlimit : 1 ≤ limit) (fuel : Nat) (hpassed : call.passed ≤ L.length)
    (hfew : call.passed + page.data.children.length < start + limit)
    (hlast : page.data.truncated = false) :
    walkPages fetch start limit pageLimit (fuel + 1) call.state call.cursor
        (min call.passed (2 ^ 64 - 1)) (window L start limit call.passed) =
      some (.ok (dataChildrenPage page.stamp ((L.drop start).take limit) false), s') := by
  have htruncated := truncated_iff_of_page hpages hpageLimit hplace hfetch
  have hend := passed_le_of_page hpages hpageLimit hplace hfetch hpassed
  have hall : L.length ≤ call.passed + page.data.children.length := by
    rw [← Nat.not_lt, ← htruncated, hlast]
    exact Bool.false_ne_true
  have hlength := @length_window _ L start limit _ hend
  have hshorter : (window L start limit (call.passed + page.data.children.length)).length ≠
      limit := by omega
  rw [walkPages, hfetch]
  dsimp only
  rw [appendPage_page hpages hstart hpageLimit hplace hshort hfetch]
  dsimp only
  rw [if_neg hshorter, if_pos (.inl hlast), window_of_le (.inr hall)]

/-- The walk goes on at the page's cursor. -/
theorem walkPages_more (hlimit : 1 ≤ limit) (fuel : Nat) (hpassed : call.passed ≤ L.length)
    (hfew : call.passed + page.data.children.length < start + limit)
    (htrue : page.data.truncated = true) {next : κ} (hcursor : page.data.cursor = some next) :
    walkPages fetch start limit pageLimit (fuel + 1) call.state call.cursor
        (min call.passed (2 ^ 64 - 1)) (window L start limit call.passed) =
      walkPages fetch start limit pageLimit fuel s' (some next)
        (min (call.passed + page.data.children.length) (2 ^ 64 - 1))
        (window L start limit (call.passed + page.data.children.length)) := by
  have hend := passed_le_of_page hpages hpageLimit hplace hfetch hpassed
  have hlength := @length_window _ L start limit _ hend
  have hshorter : (window L start limit (call.passed + page.data.children.length)).length ≠
      limit := by omega
  have hskipped : saturatingAdd (min call.passed (2 ^ 64 - 1)) page.data.children.length =
      min (call.passed + page.data.children.length) (2 ^ 64 - 1) := by
    unfold saturatingAdd
    omega
  have hgo : ¬ (page.data.truncated = false ∨ page.data.children.length = 0) := by
    rw [htrue]
    simpa using (hpages.cursor hpageLimit hfetch htrue).1
  rw [walkPages, hfetch]
  dsimp only
  rw [appendPage_page hpages hstart hpageLimit hplace hshort hfetch, hskipped]
  dsimp only
  rw [if_neg hshorter, if_neg hgo, hcursor]

end OnePage

/-- A walk in the middle ends as the slice does, in as many pages as children are left. -/
theorem walkPages_spec (hpages : PagesOf L place fetch) (hstart : start < 2 ^ 64)
    (hlimit : 1 ≤ limit) (hpageLimit : 0 < pageLimit) {left : Nat} {call : Call κ σ}
    (hplace : place call.cursor = call.passed) (hpassed : call.passed ≤ L.length)
    (hshort : call.passed < start + limit) (hleft : L.length - call.passed ≤ left) :
    ∃ result, (∀ fuel, left < fuel → walkPages fetch start limit pageLimit fuel call.state
        call.cursor (min call.passed (2 ^ 64 - 1)) (window L start limit call.passed) =
          some result) ∧
      (∀ page, result.1 = .ok page → page.data =
        ⟨(L.drop start).take limit, decide (start + limit < L.length), none⟩) ∧
      ∀ e, result.1 = .error e ↔ FailsFrom fetch pageLimit (start + limit) call e := by
  induction left using Nat.strong_induction_on generalizing call with
  | _ left ih =>
  rcases hfetch : fetch call.state call.cursor pageLimit with ⟨outcome, s'⟩
  cases outcome with
  | error e =>
    refine ⟨(.error e, s'), ?_, by simp, ?_⟩
    · intro fuel hfuel
      obtain ⟨fuel, rfl⟩ : ∃ more, fuel = more + 1 := ⟨fuel - 1, by omega⟩
      rw [walkPages, hfetch]
    · intro e'
      rw [failsFrom_error hfetch]
      exact Except.error.injEq e e' ▸ Iff.rfl
  | ok page =>
    have htruncated := truncated_iff_of_page hpages hpageLimit hplace hfetch
    by_cases hfull : start + limit ≤ call.passed + page.data.children.length
    · refine ⟨(.ok (dataChildrenPage page.stamp ((L.drop start).take limit)
        (decide (start + limit < L.length))), s'), ?_, ?_, ?_⟩
      · intro fuel hfuel
        obtain ⟨fuel, rfl⟩ : ∃ more, fuel = more + 1 := ⟨fuel - 1, by omega⟩
        exact walkPages_full hpages hstart hpageLimit hplace hshort hfetch fuel hpassed hfull
      · rintro _ ⟨⟩
        rfl
      · intro e
        exact iff_of_false (by simp) (not_failsFrom_last hfetch fun _ => hfull)
    · have hfew := Nat.not_le.mp hfull
      by_cases htrue : page.data.truncated = true
      · obtain ⟨hne, next, hcursor, hnext⟩ := hpages.cursor hpageLimit hfetch htrue
        have hpos := List.length_pos_of_ne_nil hne
        have hlt := htruncated.mp htrue
        rw [hplace] at hnext
        have hless : left - 1 < left := by omega
        have hleft' : L.length - (call.passed + page.data.children.length) ≤ left - 1 := by omega
        obtain ⟨result, hwalk, hok, herror⟩ := @ih (left - 1) hless
          ⟨s', some next, call.passed + page.data.children.length⟩ hnext hlt.le hfew hleft'
        refine ⟨result, ?_, hok, ?_⟩
        · intro fuel hfuel
          obtain ⟨fuel, rfl⟩ : ∃ more, fuel = more + 1 := ⟨fuel - 1, by omega⟩
          rw [walkPages_more hpages hstart hpageLimit hplace hshort hfetch hlimit fuel hpassed hfew
            htrue hcursor]
          apply hwalk
          omega
        · intro e
          rw [herror e, failsFrom_next hfetch htrue hfew hcursor]
      · have hlast := Bool.eq_false_iff.mpr htrue
        refine ⟨(.ok (dataChildrenPage page.stamp ((L.drop start).take limit) false), s'),
          ?_, ?_, ?_⟩
        · intro fuel hfuel
          obtain ⟨fuel, rfl⟩ : ∃ more, fuel = more + 1 := ⟨fuel - 1, by omega⟩
          exact walkPages_all hpages hstart hpageLimit hplace hshort hfetch hlimit fuel hpassed hfew
            hlast
        · rintro _ ⟨⟩
          rw [htruncated] at htrue
          rw [decide_eq_false (by omega)]
          rfl
        · intro e
          exact iff_of_false (by simp) (not_failsFrom_last hfetch fun h => absurd h htrue)

theorem walkPages_first (hpages : PagesOf L place fetch) (hstart : start < 2 ^ 64)
    (hlimit : 1 ≤ limit) (hpageLimit : 0 < pageLimit) (s : σ) :
    ∃ result, (∀ fuel, L.length < fuel →
        walkPages fetch start limit pageLimit fuel s none 0 [] = some result) ∧
      (∀ page, result.1 = .ok page → page.data =
        ⟨(L.drop start).take limit, decide (start + limit < L.length), none⟩) ∧
      ∀ e, result.1 = .error e ↔ FailsFrom fetch pageLimit (start + limit) ⟨s, none, 0⟩ e := by
  obtain ⟨result, hwalk, hok, herror⟩ := @walkPages_spec _ _ _ _ _ L place fetch start limit
    pageLimit hpages hstart hlimit hpageLimit L.length ⟨s, none, 0⟩ hpages.first (Nat.zero_le _)
    (Nat.lt_of_lt_of_le hlimit (Nat.le_add_left _ _)) (Nat.sub_le _ _)
  refine ⟨result, ?_, hok, herror⟩
  intro fuel hfuel
  have h := hwalk fuel hfuel
  rwa [window_zero] at h

/-- The walk ends, with the slice of the children that was asked for, or with the error of a
page that it had to ask for. -/
theorem dataChildrenAtOffsetWithLimit_slice (hpages : PagesOf L place fetch)
    (hstart : start < 2 ^ 64) (hlimit : 1 ≤ limit) (s : σ) :
    ∃ result, (∀ fuel, L.length < fuel →
        dataChildrenAtOffsetWithLimit fuel start limit pageLimit fetch s = some result) ∧
      (∀ page, result.1 = .ok page → page.data.children = (L.drop start).take limit ∧
        (page.data.truncated = true ↔ start + limit < L.length)) ∧
      ∀ e, result.1 = .error e ↔
        FailsFrom fetch (max pageLimit 1) (start + limit) ⟨s, none, 0⟩ e := by
  obtain ⟨result, hwalk, hok, herror⟩ :=
    walkPages_first hpages hstart hlimit (Nat.le_max_right pageLimit 1) s
  refine ⟨result, hwalk, ?_, herror⟩
  intro page hpage
  rw [hok page hpage, decide_eq_true_iff]
  exact ⟨rfl, Iff.rfl⟩

end Walk

/-! ## Pages by key -/

/-- A fetch that pages a list by its own elements, as the store does by its keys. -/
def keyPages [DecidableEq α] (L : List α) : Fetch α α Unit ε Unit :=
  fun s cursor pageLimit =>
    let place := (cursor.map fun key => L.idxOf key + 1).getD 0
    let children := (L.drop place).take pageLimit
    (.ok ⟨⟨children, decide (place + children.length < L.length), children.getLast?⟩, ()⟩, s)

theorem pagesOf_keyPages [DecidableEq α] {L : List α} (hnodup : L.Nodup) :
    PagesOf L (fun cursor => (cursor.map fun key => L.idxOf key + 1).getD 0)
      (keyPages L : Fetch α α Unit ε Unit) where
  first := rfl
  children := by
    rintro s s' cursor pageLimit page hpos ⟨⟩
    exact List.take_prefix _ _
  length_le := by
    rintro s s' cursor pageLimit page hpos ⟨⟩
    exact List.length_take_le _ _
  truncated := by
    rintro s s' cursor pageLimit page hpos ⟨⟩
    exact decide_eq_true_iff
  cursor := by
    rintro s s' cursor pageLimit page hpos ⟨⟩ htruncated
    generalize (cursor.map fun key => L.idxOf key + 1).getD 0 = place at *
    have hlt := of_decide_eq_true htruncated
    rw [List.length_take, List.length_drop] at hlt
    have hlength : ((L.drop place).take pageLimit).length = pageLimit := by
      rw [List.length_take, List.length_drop]
      omega
    have hlast : ((L.drop place).take pageLimit).getLast? = some L[place + (pageLimit - 1)] := by
      rw [List.getLast?_eq_getElem?, hlength, List.getElem?_take_of_lt (by omega),
        List.getElem?_drop, List.getElem?_eq_getElem]
    refine ⟨List.ne_nil_of_length_pos (Nat.lt_of_lt_of_eq hpos hlength.symm), _, hlast, ?_⟩
    rw [Option.map_some, Option.getD_some, hnodup.idxOf_getElem, hlength]
    omega

/-- The last two of five keys, in pages of two. -/
theorem dataChildrenAtOffsetWithLimit_slice_five : ∃ result, (∀ fuel, 5 < fuel →
    dataChildrenAtOffsetWithLimit fuel 3 2 2 (keyPages [1, 2, 3, 4, 5] : Fetch Nat Nat Unit Unit Unit)
      () = some result) ∧ ∀ page, result.1 = .ok page →
        page.data.children = [4, 5] ∧ (page.data.truncated = true ↔ 5 < 5) := by
  obtain ⟨result, hwalk, hok, -⟩ := dataChildrenAtOffsetWithLimit_slice
    (pagesOf_keyPages (show [1, 2, 3, 4, 5].Nodup by decide)) (show 3 < 2 ^ 64 by decide)
    (show 1 ≤ 2 by decide) ()
  exact ⟨result, hwalk, hok⟩

/-- Nine children asked for from the third on are a preview of two. -/
example : (dataChildrenAtOffset 2 (keyPages [1, 2, 3, 4, 5]) 6 (.range 2 9) ()).bind
    (fun result => result.1.toOption.map fun page => (page.data.children, page.data.truncated)) =
      some ([3, 4], true) := by decide

end Dap

end MarrowLsp
