-- SUMMARY: Lists compared index by index, lists read page by page behind the key of the last item read, and blocks with a separator between them.
import Mathlib.Data.List.Nodup

/-!
# Lists at a distance

Two ways to deal with a list that another party holds: comparing it with one's own
index by index, and reading it in pages, each asked for by the key of the last item
of the page before.
-/
namespace Lists

variable {α κ : Type*}

/-! ## Comparison by index -/

/-- Of one length, and the same at every index. -/
def everySame (same : α → α → Bool) (left right : List α) : Bool :=
  left.length == right.length &&
    left.zipIdx.all fun entry => right[entry.2]?.any (same entry.1)

theorem everySame_iff {same : α → α → Bool} (hsame : ∀ x y, same x y = true ↔ x = y)
    {left right : List α} : everySame same left right = true ↔ left = right := by
  unfold everySame
  rw [Bool.and_eq_true, beq_iff_eq, List.all_eq_true]
  constructor
  · rintro ⟨hlength, hall⟩
    refine List.ext_getElem? fun index => ?_
    cases hleft : left[index]? with
    | none =>
      rw [List.getElem?_eq_none_iff, hlength, ← List.getElem?_eq_none_iff] at hleft
      exact hleft.symm
    | some x =>
      have hany := hall (x, index) (List.mk_mem_zipIdx_iff_getElem?.mpr hleft)
      obtain ⟨y, hy, hxy⟩ := (Option.any_eq_true _ _).mp hany
      rw [hy, (hsame x y).mp hxy]
  · rintro rfl
    refine ⟨rfl, ?_⟩
    rintro ⟨x, index⟩ hmem
    rw [List.mk_mem_zipIdx_iff_getElem?.mp hmem, Option.any_some]
    exact (hsame x x).mpr rfl

/-! ## Pages -/

/-- A page of items; the cursor, where there is one, asks for the next. -/
structure Page (α κ : Type*) where
  items : List α
  truncated : Bool
  cursor : Option κ
  deriving DecidableEq, Repr

variable [DecidableEq κ] (key : α → Option κ)

/-- The items behind the one with the cursor for a key. -/
def behind (items : List α) : Option κ → List α
  | none => items
  | some cursor => (items.dropWhile fun item => key item ≠ some cursor).tail

/-- The page of at most `limit` items behind a cursor, whose own cursor is the key of
its last item. -/
structure IsPage (items : List α) (limit : Nat) (cursor : Option κ) (page : Page α κ) : Prop where
  items_eq : page.items = (behind key items cursor).take limit
  truncated_iff : page.truncated = true ↔ limit < (behind key items cursor).length
  cursor_eq : ∀ next, page.cursor = some next →
    ∃ last, page.items.getLast? = some last ∧ key last = some next

/-- The page a server can compute. -/
def pageOf (items : List α) (limit : Nat) (cursor : Option κ) : Page α κ :=
  let rest := behind key items cursor
  let truncated : Bool := limit < rest.length
  ⟨rest.take limit, truncated, if truncated then (rest.take limit).getLast?.bind key else none⟩

theorem isPage_pageOf (items : List α) (limit : Nat) (cursor : Option κ) :
    IsPage key items limit cursor (pageOf key items limit cursor) := by
  refine ⟨rfl, decide_eq_true_iff, ?_⟩
  intro next hnext
  unfold pageOf at hnext
  dsimp only at hnext
  split at hnext
  · obtain ⟨last, hlast, hkey⟩ := Option.bind_eq_some_iff.mp hnext
    exact ⟨last, hlast, hkey⟩
  · cases hnext

variable {key} {items : List α}

theorem behind_suffix (key : α → Option κ) (items : List α) (cursor : Option κ) :
    behind key items cursor <:+ items := by
  cases cursor with
  | none => exact List.suffix_refl _
  | some cursor => exact (List.tail_suffix _).trans (List.dropWhile_suffix _)

/-- Behind the cursor of a page comes what the page left out. -/
theorem IsPage.behind_cursor {limit : Nat} {cursor : Option κ} {page : Page α κ} {next : κ}
    (h : IsPage key items limit cursor page) (hnodup : (items.filterMap key).Nodup)
    (hnext : page.cursor = some next) :
    behind key items (some next) = (behind key items cursor).drop limit := by
  obtain ⟨last, hlast, hkey⟩ := h.cursor_eq next hnext
  obtain ⟨read, hread⟩ := List.getLast?_eq_some_iff.mp (h.items_eq ▸ hlast)
  obtain ⟨front, hfront⟩ := behind_suffix key items cursor
  have hitems : items = (front ++ read) ++ last :: (behind key items cursor).drop limit := by
    calc items = front ++ behind key items cursor := hfront.symm
      _ = front ++ ((behind key items cursor).take limit ++ (behind key items cursor).drop limit) := by
        rw [List.take_append_drop]
      _ = (front ++ read) ++ last :: (behind key items cursor).drop limit := by
        rw [hread]
        simp
  -- The key of the last item is the key of none before it.
  have hbefore : ∀ item ∈ front ++ read, key item ≠ some next := by
    intro item hitem hsame
    rw [hitems, List.filterMap_append, List.filterMap_cons_some hkey] at hnodup
    have hmem : next ∈ (front ++ read).filterMap key := List.mem_filterMap.mpr ⟨item, hitem, hsame⟩
    exact (List.disjoint_of_nodup_append hnodup) hmem (List.mem_cons_self ..)
  have hdrop : ((front ++ read) ++ last :: (behind key items cursor).drop limit).dropWhile
      (fun item => decide (key item ≠ some next)) = last :: (behind key items cursor).drop limit := by
    rw [List.dropWhile_append_of_pos (fun item hitem => decide_eq_true (hbefore item hitem)),
      List.dropWhile_cons_of_neg (by simp [hkey])]
  calc behind key items (some next)
      = (((front ++ read) ++ last :: (behind key items cursor).drop limit).dropWhile
          fun item => decide (key item ≠ some next)).tail := by rw [← hitems]; rfl
    _ = (behind key items cursor).drop limit := by rw [hdrop, List.tail_cons]

/-! ## Lists with a separator -/

theorem mem_intercalate {separator block : List α} {blocks : List (List α)} {x : α}
    (hblock : block ∈ blocks) (hx : x ∈ block) : x ∈ separator.intercalate blocks := by
  induction blocks with
  | nil => cases hblock
  | cons first blocks ih =>
    cases blocks with
    | nil =>
      cases List.mem_singleton.mp hblock
      simpa [List.intercalate] using hx
    | cons second blocks =>
      rw [List.intercalate_cons_cons]
      obtain rfl | hlater := List.mem_cons.mp hblock
      · simp [hx]
      · simp [ih hlater]

end Lists
