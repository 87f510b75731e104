import Mathlib.Data.List.Perm.Basic
import Mathlib.Data.List.Sort
import Ingot.Proofs.Toml.Distinct
import Ingot.Toml.Printing

/-!
# Printing with other lines in one table

The tables of a document are sorted before they are written, by places that do not look at the
lines inside of them. So documents of which one table has other lines are written with the same
text around these lines (`text_of_otherLines`).
-/

namespace Ingot.Toml

/-! ### Sorting with one element in place of another -/

/-- Two lists of which the elements compare alike, pair by pair, are sorted alike. -/
theorem mergeSort_pairs {α : Type} {le : α → α → Bool} {pairs : List (α × α)}
    (h : ∀ p ∈ pairs, ∀ b, le p.1 b = le p.2 b ∧ le b p.1 = le b p.2) :
    ∃ sorted : List (α × α), sorted.Perm pairs ∧ (pairs.map Prod.fst).mergeSort le = sorted.map Prod.fst ∧
      (pairs.map Prod.snd).mergeSort le = sorted.map Prod.snd := by
  refine ⟨pairs.mergeSort fun p q => le p.1 q.1, List.mergeSort_perm _ _, ?_, ?_⟩
  · exact (List.map_mergeSort (s := le) fun p _ q _ => rfl).symm
  · exact (List.map_mergeSort fun p hp q hq => (h p hp q.1).1.trans (h q hq p.2).2).symm

theorem map_fst_eq_map_snd {α : Type} {pairs : List (α × α)} (h : ∀ p ∈ pairs, p.1 = p.2) :
    pairs.map Prod.fst = pairs.map Prod.snd :=
  List.map_congr_left h

/-- An element that compares like another one is sorted to the same place. -/
theorem mergeSort_middle {α : Type} (le : α → α → Bool) (a a' : α)
    (h : ∀ b, le a b = le a' b ∧ le b a = le b a') (before behind : List α) :
    ∃ before' behind', (before ++ a :: behind).mergeSort le = before' ++ a :: behind' ∧
      (before ++ a' :: behind).mergeSort le = before' ++ a' :: behind' := by
  have hlike : ∀ p ∈ before.map (fun b => (b, b)) ++ (a, a') :: behind.map (fun b => (b, b)),
      ∀ b, le p.1 b = le p.2 b ∧ le b p.1 = le b p.2 := by
    intro p hp b
    rcases List.mem_append.1 hp with hp | hp
    · obtain ⟨c, -, rfl⟩ := List.mem_map.1 hp
      exact ⟨rfl, rfl⟩
    · rcases List.mem_cons.1 hp with rfl | hp
      · exact h b
      · obtain ⟨c, -, rfl⟩ := List.mem_map.1 hp
        exact ⟨rfl, rfl⟩
  obtain ⟨sorted, hperm, hfirst, hsecond⟩ := mergeSort_pairs hlike
  simp only [List.map_append, List.map_cons, List.map_map, Function.comp_def, List.map_id'] at hfirst hsecond
  rw [hfirst, hsecond]
  have hmem : (a, a') ∈ sorted := hperm.mem_iff.2 (List.mem_append_right _ List.mem_cons_self)
  obtain ⟨xs, ys, rfl⟩ := List.append_of_mem hmem
  have hrest : (xs ++ ys).Perm ((before ++ behind).map fun b => (b, b)) := by
    rw [List.map_append]
    exact (List.perm_cons (a, a')).1 (List.perm_middle.symm.trans (hperm.trans List.perm_middle))
  have hsame : ∀ p ∈ xs ++ ys, p.1 = p.2 := by
    intro p hp
    obtain ⟨c, -, rfl⟩ := List.mem_map.1 (hrest.mem_iff.1 hp)
    rfl
  refine ⟨xs.map Prod.fst, ys.map Prod.fst, ?_, ?_⟩
  · rw [List.map_append, List.map_cons]
  · rw [List.map_append, List.map_cons,
      map_fst_eq_map_snd fun p hp => hsame p (List.mem_append_left _ hp),
      map_fst_eq_map_snd fun p hp => hsame p (List.mem_append_right _ hp)]

/-! ### Lines and tables of entries -/

theorem inlineLeaves_append (path : List Key) (xs ys : List (Key × Value)) :
    inlineLeaves path (xs ++ ys) = inlineLeaves path xs ++ inlineLeaves path ys := by
  induction xs with
  | nil => rfl
  | cons x xs ih =>
    rw [List.cons_append, inlineLeaves, inlineLeaves, ih, List.append_assoc]

theorem leavesOfItems_append (path : List Key) (xs ys : List (Key × Item)) :
    leavesOfItems path (xs ++ ys) = leavesOfItems path xs ++ leavesOfItems path ys := by
  induction xs with
  | nil => rfl
  | cons x xs ih =>
    rw [List.cons_append, leavesOfItems, leavesOfItems, ih, List.append_assoc]

theorem tablesOfItems_append (path : List Key) (xs ys : List (Key × Item)) :
    tablesOfItems path (xs ++ ys) = tablesOfItems path xs ++ tablesOfItems path ys := by
  induction xs with
  | nil => rfl
  | cons x xs ih =>
    rw [List.cons_append, tablesOfItems, tablesOfItems, ih, List.append_assoc]

/-! ### The tables of a document -/

/-- The tables of a document in the order of its entries. -/
def Document.unsorted (d : Document) : List WrittenTable :=
  ⟨[], false, d.root.layout, leavesOfItems [] d.root.entries⟩ :: tablesOfItems [] d.root.entries

/-- Whether anything of a table is written that another one has to keep its distance from. -/
def WrittenTable.isWritten (t : WrittenTable) : Bool :=
  t.hasHeader || (t.path.isEmpty && !t.values.isEmpty)

/-- A table with other lines. -/
def WrittenTable.withValues (t : WrittenTable) (values : List (List Key × Value)) : WrittenTable :=
  { t with values := values }

theorem withPositions_middle {t t' : WrittenTable} (h : t.layout = t'.layout) (last : ℕ)
    (before behind : List WrittenTable) : ∃ before' position behind',
      withPositions last (before ++ t :: behind) = before' ++ (position, t) :: behind' ∧
        withPositions last (before ++ t' :: behind) = before' ++ (position, t') :: behind' := by
  induction before generalizing last with
  | nil =>
    refine ⟨[], t.layout.position.getD last, _, rfl, ?_⟩
    rw [h]
    rfl
  | cons s before ih =>
    obtain ⟨before', position, behind', ht, ht'⟩ := ih (s.layout.position.getD last)
    refine ⟨(s.layout.position.getD last, s) :: before', position, behind', ?_, ?_⟩
    · rw [List.cons_append, withPositions, ht]
      rfl
    · rw [List.cons_append, withPositions, ht']
      rfl

/-- A table with another one in its place, of the same layout, is sorted to the same place. -/
theorem tables_middle {d d' : Document} {t t' : WrittenTable} {before behind : List WrittenTable}
    (h : t.layout = t'.layout) (hd : d.unsorted = before ++ t :: behind)
    (hd' : d'.unsorted = before ++ t' :: behind) : ∃ before' behind',
      d.tables = before' ++ t :: behind' ∧ d'.tables = before' ++ t' :: behind' := by
  obtain ⟨xs, position, ys, hxs, hxs'⟩ := withPositions_middle h 0 before behind
  obtain ⟨before', behind', hsorted, hsorted'⟩ := mergeSort_middle
    (fun a b : ℕ × WrittenTable => decide (a.1 ≤ b.1)) (position, t) (position, t')
    (fun b => ⟨rfl, rfl⟩) xs ys
  have htables : ∀ d : Document, d.tables = ((withPositions 0 d.unsorted).mergeSort
      fun a b => decide (a.1 ≤ b.1)).map Prod.snd := fun d => rfl
  refine ⟨before'.map Prod.snd, behind'.map Prod.snd, ?_, ?_⟩
  · rw [htables, hd, hxs, hsorted, List.map_append, List.map_cons]
  · rw [htables, hd', hxs', hsorted', List.map_append, List.map_cons]

/-! ### Sorting by insertion -/

/-- An element is inserted behind all that it may not stand in front of. -/
theorem orderedInsert_append {α : Type} {r : α → α → Prop} [DecidableRel r] {a : α}
    {before behind : List α} (hbefore : ∀ b ∈ before, ¬r a b) (hbehind : ∀ b ∈ behind, r a b) :
    (before ++ behind).orderedInsert r a = before ++ a :: behind := by
  induction before with
  | nil =>
    cases behind with
    | nil => rfl
    | cons b behind => exact List.orderedInsert_cons_of_le r behind (hbehind b List.mem_cons_self)
  | cons b before ih =>
    obtain ⟨hb, hbefore⟩ := List.forall_mem_cons.1 hbefore
    rw [List.cons_append, List.orderedInsert_of_not_le r _ hb, ih hbefore, List.cons_append]

/-- Sorting by insertion gives the same as sorting by merging, also where elements that compare
alike are not the same: both leave such elements in their order. -/
theorem mergeSort_eq_insertionSort {α : Type} {r : α → α → Prop} [DecidableRel r]
    (htrans : ∀ a b c, r a b → r b c → r a c) (htotal : ∀ a b, r a b ∨ r b a) (l : List α) :
    (l.mergeSort fun a b => decide (r a b)) = l.insertionSort r := by
  have htrans' : ∀ a b c, decide (r a b) = true → decide (r b c) = true →
      decide (r a c) = true := by
    simpa using htrans
  have htotal' : ∀ a b, (decide (r a b) || decide (r b a)) = true := by simpa using htotal
  induction l with
  | nil => rw [List.mergeSort_nil, List.insertionSort_nil]
  | cons a l ih =>
    obtain ⟨before, behind, hsorted, hrest, hbefore⟩ := List.mergeSort_cons htrans' htotal' a l
    have hpairs := List.pairwise_mergeSort htrans' htotal' (a :: l)
    rw [hsorted, List.pairwise_append, List.pairwise_cons] at hpairs
    -- what was sorted behind the element may stand behind it, what was sorted before it may not
    obtain ⟨-, ⟨hbehind, -⟩, -⟩ := hpairs
    rw [List.insertionSort_cons, ← ih, hrest, hsorted]
    refine (orderedInsert_append (fun b hb => ?_) fun b hb => of_decide_eq_true (hbehind b hb)).symm
    simpa using hbefore b hb

/-- The tables of a document in the order in which they are written, sorted in a way that can be
evaluated. -/
def Document.insertedTables (d : Document) : List WrittenTable :=
  ((withPositions 0 d.unsorted).insertionSort fun a b => a.1 ≤ b.1).map Prod.snd

theorem Document.tables_eq_insertedTables (d : Document) : d.tables = d.insertedTables :=
  congrArg (List.map Prod.snd) (mergeSort_eq_insertionSort
    (r := fun a b : ℕ × WrittenTable => a.1 ≤ b.1) (fun _ _ _ => Nat.le_trans)
    (fun _ _ => Nat.le_total _ _) _)

/-- A document as text, in a way that can be evaluated. -/
def Document.insertedText (d : Document) : String :=
  d.root.layout.decor.beforeOr "" ++ tablesText true d.insertedTables
    ++ d.root.layout.decor.behindOr "" ++ d.ending

theorem Document.text_eq_insertedText (d : Document) : d.text = d.insertedText := by
  rw [Document.text, d.tables_eq_insertedTables]
  rfl

/-! ### Text around lines -/

/-- Lines as text. -/
def linesText (lines : List (List Key × Value)) : String := String.join (lines.map entryLine)

theorem linesText_append (xs ys : List (List Key × Value)) :
    linesText (xs ++ ys) = linesText xs ++ linesText ys := by
  rw [linesText, List.map_append, String.join_append]
  rfl

theorem tablesText_append (first : Bool) (xs ys : List WrittenTable) :
    tablesText first (xs ++ ys) =
      tablesText first xs ++ tablesText (first && xs.all fun t => !t.isWritten) ys := by
  induction xs generalizing first with
  | nil => simp [tablesText]
  | cons t xs ih =>
    rw [List.cons_append, tablesText, tablesText, ih, String.append_assoc, List.all_cons,
      ← Bool.and_assoc]
    rfl

/-- Two documents that are the same but for the lines `old` and `new` in one table. -/
structure OtherLines (d d' : Document) (before old new behind : List (List Key × Value)) :
    Prop where
  layout : d'.root.layout = d.root.layout
  ending : d'.ending = d.ending
  tables : ∃ (earlier : List WrittenTable) (t : WrittenTable) (later : List WrittenTable),
    d.tables = earlier ++ t.withValues (before ++ old ++ behind) :: later ∧
      d'.tables = earlier ++ t.withValues (before ++ new ++ behind) :: later

theorem otherLines_of_unsorted {d d' : Document} {before old new behind : List (List Key × Value)}
    (hlayout : d'.root.layout = d.root.layout) (hending : d'.ending = d.ending)
    (earlier : List WrittenTable) (t : WrittenTable) (later : List WrittenTable)
    (hd : d.unsorted = earlier ++ t.withValues (before ++ old ++ behind) :: later)
    (hd' : d'.unsorted = earlier ++ t.withValues (before ++ new ++ behind) :: later) :
    OtherLines d d' before old new behind := by
  have hsame : (t.withValues (before ++ old ++ behind)).layout =
    (t.withValues (before ++ new ++ behind)).layout := rfl
  obtain ⟨earlier', later', htables, htables'⟩ := tables_middle hsame hd hd'
  exact ⟨hlayout, hending, earlier', t, later', htables, htables'⟩

/-- The tables of a document, seen from one of its entries. -/
theorem unsorted_middle (layout : Layout) (ending : String) (before behind : List (Key × Item))
    (key : Key) (item : Item) :
    Document.unsorted ⟨⟨layout, before ++ (key, item) :: behind⟩, ending⟩ =
      ⟨[], false, layout,
          leavesOfItems [] before ++ leavesOfItem [key] item ++ leavesOfItems [] behind⟩ ::
        (tablesOfItems [] before ++ (tablesOfItem [key] item ++ tablesOfItems [] behind)) := by
  rw [Document.unsorted, leavesOfItems_append, leavesOfItems, tablesOfItems_append, tablesOfItems,
    List.nil_append, List.append_assoc]

theorem hasHeader_withValues (t : WrittenTable) {values : List (List Key × Value)}
    (h : values ≠ []) : (t.withValues values).hasHeader = !t.path.isEmpty := by
  have hvalues : values.isEmpty = false := List.isEmpty_eq_false_iff.2 h
  simp [WrittenTable.hasHeader, WrittenTable.withValues, hvalues]

theorem isWritten_withValues (t : WrittenTable) {values : List (List Key × Value)}
    (h : values ≠ []) : (t.withValues values).isWritten = true := by
  have hvalues : values.isEmpty = false := List.isEmpty_eq_false_iff.2 h
  rw [WrittenTable.isWritten, hasHeader_withValues t h]
  cases hpath : t.path.isEmpty <;> simp [WrittenTable.withValues, hvalues, hpath]

theorem headerText_withValues (t : WrittenTable) (first : Bool)
    {values values' : List (List Key × Value)} (h : values ≠ []) (h' : values' ≠ []) :
    (t.withValues values).headerText first = (t.withValues values').headerText first := by
  unfold WrittenTable.headerText
  rw [hasHeader_withValues t h, hasHeader_withValues t h']
  rfl

theorem tablesText_withValues (first : Bool) (t : WrittenTable) (later : List WrittenTable)
    {values : List (List Key × Value)} (h : values ≠ []) :
    tablesText first (t.withValues values :: later) =
      (t.withValues values).headerText first ++ linesText values ++ tablesText false later := by
  have hwritten := isWritten_withValues t h
  unfold WrittenTable.isWritten at hwritten
  rw [tablesText, hwritten, Bool.not_true, Bool.and_false]
  rfl

/-- **Documents that are the same but for some lines are written with the same text around
them**, if there are lines in the table. -/
theorem OtherLines.text {d d' : Document} {before old new behind : List (List Key × Value)}
    (h : OtherLines d d' before old new behind) (hold : before ++ old ++ behind ≠ [])
    (hnew : before ++ new ++ behind ≠ []) : ∃ start stop,
      d.text = start ++ linesText old ++ stop ∧ d'.text = start ++ linesText new ++ stop := by
  obtain ⟨earlier, t, later, hd, hd'⟩ := h.tables
  refine ⟨d.root.layout.decor.beforeOr "" ++ tablesText true earlier ++
      (t.withValues (before ++ old ++ behind)).headerText
        (true && earlier.all fun t => !t.isWritten) ++ linesText before,
    linesText behind ++ tablesText false later ++ d.root.layout.decor.behindOr "" ++ d.ending, ?_, ?_⟩
  · rw [Document.text, hd, tablesText_append, tablesText_withValues _ t later hold]
    simp only [linesText_append, String.append_assoc]
  · rw [Document.text, hd', tablesText_append, tablesText_withValues _ t later hnew, h.layout,
      h.ending, headerText_withValues t _ hnew hold]
    simp only [linesText_append, String.append_assoc]

end Ingot.Toml
