import Ingot.Proofs.Package.Counting
import Ingot.Proofs.Toml.Printing

/-!
# What a build changes in the text of a manifest

When a build is counted, the document of the manifest is written with one line changed: that of
the counter, or one that is added for it, or that of a package between braces
(`countBuild_line`). **All other lines stay as they are. The line of the counter itself is
written anew**: what stood around the number in it, and the comments before it, are lost
(`countBuild_drops_comment`).
-/

namespace Ingot.Package

open Toml

/-! ### The line of the counter -/

/-- The line of a counter in the usual layout, with the keys that lead to the package. -/
def counterLine (path : List Key) (n : ℕ) : List Key × Value :=
  (path ++ [Key.plain "build"], integerValue n)

/-- The keys that stand before that of the counter on its line: below the header of the package
there are none. -/
def LeadsToPackage (path : List Key) : Prop := path = [] ∨ path.map Key.name = ["package"]

/-- The lines that are written in place of others when a build gets its number. -/
inductive CounterChange : ℕ → List (List Key × Value) → List (List Key × Value) → Prop
  /-- The line of the counter is written anew. -/
  | raised {path : List Key} (hpath : LeadsToPackage path) {key : Key} (hkey : key.name = "build")
      (c : ℕ) (written : String) (decor : Decor) :
    CounterChange (c + 1) [(path ++ [key], .scalar (.integer c) written decor)]
      [counterLine path (c + 1)]
  /-- A line for the counter is added. -/
  | added {path : List Key} (hpath : LeadsToPackage path) : CounterChange 1 [] [counterLine path 1]
  /-- The package stands between braces, all on one line. -/
  | braces {key : Key} (hkey : key.name = "package") {entries : List (Key × Value)}
      (opening : String) (decor : Decor) {c : ℕ}
      (hcount : counterOf ((findEntry "build" entries).map Value.data) = .ok (c : ℤ)) :
    CounterChange (c + 1) [([key], .table entries false opening decor)]
      [([key], .table (setEntry "build" (integerValue (c + 1 : ℕ)) entries) false opening decor)]

theorem CounterChange.new_ne_nil {n : ℕ} {old new : List (List Key × Value)}
    (h : CounterChange n old new) : new ≠ [] := by
  cases h <;> exact List.cons_ne_nil _ _

/-! ### Lines of entries -/

/-- Lines that are other lines but for those of a counter. -/
def Recounted (n : ℕ) (lines lines' : List (List Key × Value)) : Prop :=
  ∃ before old new behind, lines = before ++ old ++ behind ∧ lines' = before ++ new ++ behind ∧
    CounterChange n old new

theorem Recounted.append {n : ℕ} {lines lines' : List (List Key × Value)}
    (h : Recounted n lines lines') (xs ys : List (List Key × Value)) :
    Recounted n (xs ++ lines ++ ys) (xs ++ lines' ++ ys) := by
  obtain ⟨before, old, new, behind, rfl, rfl, hchange⟩ := h
  refine ⟨xs ++ before, old, new, behind ++ ys, ?_, ?_, hchange⟩
  · simp only [List.append_assoc]
  · simp only [List.append_assoc]

/-- Entries are written as lines below a path: one after another, and each value without parts
on a line of its own. -/
structure IsLines {α : Type} (f : α → Data) (path : List Key)
    (lines : List (Key × α) → List (List Key × Value)) : Prop where
  append : ∀ xs ys, lines (xs ++ ys) = lines xs ++ lines ys
  scalar : ∀ (key : Key) (a : α) (s : Scalar), f a = .scalar s →
    ∃ written decor, lines [(key, a)] = [(path ++ [key], .scalar s written decor)]

theorem exists_value_of_data {item : Item} {s : Scalar} (h : item.data = .scalar s) :
    ∃ written decor, item = .value (.scalar s written decor) := by
  cases item with
  | value v =>
    cases v with
    | scalar s' written decor =>
      cases h
      exact ⟨written, decor, rfl⟩
    | array elements comma ending decor => cases h
    | table entries dotted opening decor => cases h
  | table layout entries => cases h
  | tables elements => cases h

theorem isLines_leavesOfItems (path : List Key) : IsLines Item.data path (leavesOfItems path) where
  append := leavesOfItems_append path
  scalar key item s h := by
    obtain ⟨written, decor, rfl⟩ := exists_value_of_data h
    exact ⟨written, decor, rfl⟩

theorem isLines_inlineLeaves (path : List Key) : IsLines Value.data path (inlineLeaves path) where
  append := inlineLeaves_append path
  scalar key v s h := by
    obtain ⟨written, decor, hv⟩ := exists_value_of_data
      (show (Item.value v).data = .scalar s from h)
    cases hv
    exact ⟨written, decor, rfl⟩

section Lines

variable {α : Type} {f : α → Data} {path : List Key}
  {lines : List (Key × α) → List (List Key × Value)} (hlines : IsLines f path lines)
  {entries : List (Key × α)}

include hlines

/-- Setting the counter among entries changes its line. -/
theorem IsLines.recounted (hpath : LeadsToPackage path) {value : ℕ → α}
    (hvalue : ∀ n, lines [(Key.plain "build", value n)] = [counterLine path n])
    (h : Distinct entries) {c : ℕ}
    (hcount : counterOf ((findEntry "build" entries).map f) = .ok (c : ℤ)) :
    Recounted (c + 1) (lines entries) (lines (setEntry "build" (value (c + 1)) entries)) := by
  obtain ⟨n, hn, hcounted⟩ := counterOf_eq_ok hcount
  obtain rfl : c = n := Int.ofNat_inj.1 hn
  cases hfind : findEntry "build" entries with
  | none =>
    rw [hfind] at hcounted
    rcases hcounted with ⟨-, rfl⟩ | hsome
    · rw [setEntry_of_none _ hfind, hlines.append, hvalue]
      refine ⟨lines entries, [], [counterLine path 1], [], ?_, ?_, .added hpath⟩
      · rw [List.append_nil, List.append_nil]
      · rw [List.append_nil]
    · cases hsome
  | some a =>
    rw [hfind] at hcounted
    rcases hcounted with ⟨hnone, -⟩ | hsome
    · cases hnone
    · obtain ⟨before, key, behind, rfl, hkey, -, hset⟩ :=
        exists_split_setEntry h hfind (value (c + 1))
      obtain ⟨written, decor, hline⟩ := hlines.scalar key a _ (Option.some.inj hsome)
      refine ⟨lines before, _, _, lines behind, ?_, ?_, .raised hpath hkey c written decor⟩
      · rw [← hline, ← hlines.append, ← hlines.append, List.append_assoc, List.singleton_append]
      · rw [hset, ← hvalue, ← hlines.append, ← hlines.append, List.append_assoc,
          List.singleton_append]

/-- A package that can be read has a line, that of its name. -/
theorem IsLines.ne_nil {p : Manifest}
    (hread : packageRecord.ofTable (named f entries) = .ok p) : lines entries ≠ [] := by
  obtain ⟨hfields, hrequired⟩ := Record.ofTable_eq_ok.1 hread
  obtain ⟨e, he, hname⟩ := hrequired "name" List.mem_cons_self
  obtain ⟨⟨key, a⟩, hmem, rfl⟩ := List.mem_map.1 he
  obtain ⟨m, m', hfield⟩ := field_of_readFields hfields he (by rw [hname]; rfl)
  rw [hname] at hfield
  obtain ⟨s, hs, -⟩ := of_except_map_ok
    (show ((f a).asString).map (fun s => { m with name := s }) = .ok m' from hfield)
  have hscalar : ∃ s, f a = .scalar s := by
    unfold Data.asString Data.asText at hs
    split at hs
    · rename_i content heq
      exact ⟨_, heq⟩
    · cases hs
  obtain ⟨scalar, hscalar⟩ := hscalar
  obtain ⟨written, decor, hline⟩ := hlines.scalar key a scalar hscalar
  obtain ⟨before, behind, rfl⟩ := List.append_of_mem hmem
  rw [hlines.append, ← List.singleton_append, hlines.append, hline]
  simp

end Lines

theorem lines_counterItem (path : List Key) (n : ℕ) :
    leavesOfItems path [(Key.plain "build", .value (integerValue n))] = [counterLine path n] :=
  rfl

theorem lines_counterValue (path : List Key) (n : ℕ) :
    inlineLeaves path [(Key.plain "build", integerValue n)] = [counterLine path n] := rfl

/-- The counter is no table. -/
theorem tablesOfItems_setEntry (path : List Key) (v : Value) {entries : List (Key × Item)}
    (h : Distinct entries) {c : ℕ}
    (hcount : counterOf ((findEntry "build" entries).map Item.data) = .ok (c : ℤ)) :
    tablesOfItems path (setEntry "build" (.value v) entries) = tablesOfItems path entries := by
  obtain ⟨n, -, hcounted⟩ := counterOf_eq_ok hcount
  cases hfind : findEntry "build" entries with
  | none =>
    rw [setEntry_of_none _ hfind, tablesOfItems_append]
    simp [tablesOfItems, tablesOfItem]
  | some item =>
    rw [hfind] at hcounted
    rcases hcounted with ⟨hnone, -⟩ | hsome
    · cases hnone
    · obtain ⟨before, key, behind, rfl, -, -, hset⟩ := exists_split_setEntry h hfind (.value v)
      obtain ⟨written, decor, rfl⟩ := exists_value_of_data (Option.some.inj hsome)
      rw [hset, tablesOfItems_append, tablesOfItems_append, tablesOfItems, tablesOfItems]
      simp [tablesOfItem]

/-! ### The lines of a document -/

/-- What is changed in the entry of the package: the lines below its header, or the lines that it
has among those of the table that it stands in. -/
inductive PackageChange (n : ℕ) (key : Key) : Item → Item → Prop
  /-- A table that is not made of dotted keys only. -/
  | below {layout : Layout} {entries entries' : List (Key × Item)}
      (horigin : layout.origin ≠ .dotted)
      (lines : Recounted n (leavesOfItems [] entries) (leavesOfItems [] entries'))
      (tables : tablesOfItems [key] entries' = tablesOfItems [key] entries) :
    PackageChange n key (.table layout entries) (.table layout entries')
  /-- A table of dotted keys, or between braces. -/
  | among {item item' : Item}
      (lines : Recounted n (leavesOfItem [key] item) (leavesOfItem [key] item'))
      (tables : tablesOfItem [key] item' = tablesOfItem [key] item)
      (some : ∀ p, packageRecord.read item.data = .ok p → leavesOfItem [key] item ≠ []) :
    PackageChange n key item item'

theorem CountedItem.packageChange {c : ℕ} {item item' : Item} {key : Key}
    (h : CountedItem c item item') (hkey : key.name = "package") :
    PackageChange (c + 1) key item item' := by
  have hpath : LeadsToPackage [key] := .inr (congrArg (fun name => [name]) hkey)
  cases h with
  | @table layout entries names count =>
    have htables := tablesOfItems_setEntry [key] (integerValue (c + 1 : ℕ)) names count
    -- a package of dotted keys has no header: its lines are among those of the table around it
    by_cases horigin : layout.origin = .dotted
    · have hlines := isLines_leavesOfItems [key]
      have hitem : ∀ entries, leavesOfItem [key] (.table layout entries) =
          leavesOfItems [key] entries := fun entries => if_pos horigin
      refine .among ?_ ?_ fun p hp => ?_
      · rw [hitem, hitem]
        exact hlines.recounted hpath (lines_counterItem [key]) names count
      · rw [tablesOfItem, tablesOfItem, if_pos horigin, if_pos horigin, htables]
      · rw [Item.data, dataOfItems_eq] at hp
        rw [hitem]
        exact hlines.ne_nil hp
    · exact .below horigin
        ((isLines_leavesOfItems []).recounted (.inl rfl) (lines_counterItem []) names count) htables
  | @braces dotted opening decor entries names count =>
    cases dotted with
    | true =>
      have hlines := isLines_inlineLeaves [key]
      have hitem : ∀ entries, leavesOfItem [key] (.value (.table entries true opening decor)) =
          inlineLeaves [key] entries := fun entries => rfl
      refine .among ?_ rfl fun p hp => ?_
      · rw [hitem, hitem]
        exact hlines.recounted hpath (lines_counterValue [key]) names count
      · rw [Item.data, Value.data, dataOfEntries_eq] at hp
        rw [hitem]
        exact hlines.ne_nil hp
    | false =>
      have hitem : ∀ entries, leavesOfItem [key] (.value (.table entries false opening decor)) =
          [([key], .table entries false opening decor)] := fun entries => rfl
      refine .among ?_ rfl fun p hp => ?_
      · rw [hitem, hitem]
        exact ⟨[], _, _, [], rfl, rfl, .braces hkey opening decor count⟩
      · rw [hitem]
        exact List.cons_ne_nil _ _

/-- Documents that differ in the entry of the package differ in the lines of one table. -/
theorem PackageChange.otherLines {n : ℕ} {key : Key} {item item' : Item}
    (h : PackageChange n key item item') (layout : Layout) (ending : String)
    (before behind : List (Key × Item)) :
    ∃ first old new last, OtherLines ⟨⟨layout, before ++ (key, item) :: behind⟩, ending⟩
        ⟨⟨layout, before ++ (key, item') :: behind⟩, ending⟩ first old new last ∧
      CounterChange n old new ∧
        ∀ p, packageRecord.read item.data = .ok p → first ++ old ++ last ≠ [] := by
  cases h with
  | @below inner entries entries' horigin lines tables =>
    obtain ⟨first, old, new, last, hold, hnew, hcounter⟩ := lines
    have hleaves : ∀ entries, leavesOfItem [key] (.table inner entries) = [] :=
      fun entries => if_neg horigin
    have htable : ∀ entries, tablesOfItem [key] (.table inner entries) =
        ⟨[key], false, inner, leavesOfItems [] entries⟩ :: tablesOfItems [key] entries := by
      intro entries
      rw [tablesOfItem, if_neg horigin, List.singleton_append]
    refine ⟨first, old, new, last, ?_, hcounter, fun p hp => ?_⟩
    · refine otherLines_of_unsorted rfl rfl
        (⟨[], false, layout, leavesOfItems [] before ++ [] ++ leavesOfItems [] behind⟩ ::
          tablesOfItems [] before)
        ⟨[key], false, inner, []⟩ (tablesOfItems [key] entries ++ tablesOfItems [] behind) ?_ ?_
      · rw [unsorted_middle, htable, hleaves, hold]
        rfl
      · rw [unsorted_middle, htable, hleaves, hnew, tables]
        rfl
    · rw [← hold]
      rw [Item.data, dataOfItems_eq] at hp
      exact (isLines_leavesOfItems []).ne_nil hp
  | among lines tables some =>
    obtain ⟨first, old, new, last, hold, hnew, hcounter⟩ :=
      lines.append (leavesOfItems [] before) (leavesOfItems [] behind)
    refine ⟨first, old, new, last, ?_, hcounter, fun p hp => ?_⟩
    · refine otherLines_of_unsorted rfl rfl [] ⟨[], false, layout, []⟩
        (tablesOfItems [] before ++ (tablesOfItem [key] item ++ tablesOfItems [] behind)) ?_ ?_
      · rw [unsorted_middle, hold]
        rfl
      · rw [unsorted_middle, hnew, tables]
        rfl
    · rw [← hold]
      have hsome := some p hp
      simp [hsome]

/-- Counting a build in a document changes the lines of one table. -/
theorem otherLines_of_countInDocument {d d' : Document} {next : ℤ} (h : d.root.Neat)
    (hcount : countInDocument d = .ok (next, d')) :
    ∃ n before old new behind, next = (n : ℕ) ∧ OtherLines d d' before old new behind ∧
      CounterChange n old new ∧
        ∀ m, manifestRecord.ofTable d.data = .ok m → before ++ old ++ behind ≠ [] := by
  obtain ⟨c, before, key, item, item', behind, rfl, hcounted, hentries, hkey, -, hfind, rfl⟩ :=
    exists_of_countInDocument h hcount
  obtain ⟨first, old, new, last, hlines, hcounter, hsome⟩ :=
    (hcounted.packageChange hkey).otherLines d.root.layout d.ending before behind
  rw [← hentries] at hlines
  refine ⟨c + 1, first, old, new, last, rfl, hlines, hcounter, fun m hm => ?_⟩
  obtain ⟨item₁, p, hfind₁, -, hp, -⟩ := exists_package h hm
  obtain rfl := Option.some.inj (hfind.symm.trans hfind₁)
  exact hsome p hp

/-- Documents that are the same but for the counter of the package. -/
structure SameButCount (d d' : Document) : Prop where
  layout : d'.root.layout = d.root.layout
  ending : d'.ending = d.ending
  entries : ∃ before key item item' behind, key.name = "package" ∧
    d.root.entries = before ++ (key, item) :: behind ∧
      d'.root.entries = before ++ (key, item') :: behind ∧ SameButCounter item item'

theorem sameButCount_of_countInDocument {d d' : Document} {next : ℤ} (h : d.root.Neat)
    (hcount : countInDocument d = .ok (next, d')) : SameButCount d d' := by
  obtain ⟨_, before, key, item, item', behind, -, hcounted, hentries, hkey, -, -, rfl⟩ :=
    exists_of_countInDocument h hcount
  exact ⟨rfl, rfl, before, key, item, item', behind, hkey, hentries, rfl,
    hcounted.sameButCounter⟩

/-- **What is written after a build is the document of the manifest with one line changed**, that
of the counter. The text around that line is the same if there was such a line, and for every
manifest that is accepted. -/
theorem countBuild_line {text text' : String} {n : ℕ} (h : countBuild text = .ok (n, text')) :
    ∃ d d' before old new behind, Toml.parse text = some d ∧ text' = d'.text ∧
      SameButCount d d' ∧ OtherLines d d' before old new behind ∧ CounterChange n old new ∧
        ((old ≠ [] ∨ ∃ m, Manifest.parse text = .ok m) → ∃ start stop,
          d.text = start ++ linesText old ++ stop ∧ text' = start ++ linesText new ++ stop) := by
  obtain ⟨d, next, d', hd, hcount, rfl, rfl⟩ := countBuild_eq_ok.1 h
  have hneat := neat_of_parse hd
  obtain ⟨n, before, old, new, behind, rfl, hlines, hchange, hsome⟩ :=
    otherLines_of_countInDocument hneat hcount
  rw [Int.toNat_natCast]
  refine ⟨d, d', before, old, new, behind, hd, rfl, sameButCount_of_countInDocument hneat hcount,
    hlines, hchange, fun hthere => ?_⟩
  have hnew : before ++ new ++ behind ≠ [] := by
    have := hchange.new_ne_nil
    simp [this]
  have hold : before ++ old ++ behind ≠ [] := by
    rcases hthere with hold | ⟨m, hm⟩
    · simp [hold]
    · obtain ⟨d₁, hd₁, hread, -⟩ := Manifest.parse_eq_ok.1 hm
      obtain rfl := Option.some.inj (hd.symm.trans hd₁)
      exact hsome m hread
  exact hlines.text hold hnew

/-! ### Counting by evaluation -/

/-- The number and the text that counting a build gives, in a way that can be evaluated. -/
def countedText? (text : String) : Option (ℕ × String) :=
  (Toml.parse text).bind fun d =>
    (countInDocument d).toOption.map fun counted => (counted.1.toNat, counted.2.insertedText)

theorem countBuild_of_countedText? {text text' : String} {n : ℕ}
    (h : countedText? text = some (n, text')) : countBuild text = .ok (n, text') := by
  unfold countedText? at h
  obtain ⟨d, hd, h⟩ := Option.bind_eq_some_iff.1 h
  cases hcount : countInDocument d with
  | error fault =>
    rw [hcount] at h
    cases h
  | ok counted =>
    rw [hcount] at h
    obtain ⟨rfl, rfl⟩ := Prod.mk.inj (Option.some.inj h)
    exact countBuild_eq_ok.2 ⟨d, counted.1, counted.2, hd, hcount, rfl,
      counted.2.text_eq_insertedText.symm⟩

namespace Seven

/-- A manifest with a comment behind its counter. -/
def text : String := "[package]\nname = \"a\"\nversion = \"1.0.0\"\nbuild = 7 # seven\n"

/-- The manifest after a build. -/
def counted : String := "[package]\nname = \"a\"\nversion = \"1.0.0\"\nbuild = 8\n"

theorem countBuild_text : countBuild text = .ok (8, counted) :=
  countBuild_of_countedText? (by decide +kernel)

theorem parse_text : Manifest.parse text = .ok ⟨"a", none, "1.0.0", 7, none, [], none⟩ := by
  decide +kernel

theorem packageData?_text : packageData? text = some (.table [("name", .scalar (.text "a")),
    ("version", .scalar (.text "1.0.0")), ("build", .scalar (.integer 7))]) := by
  decide +kernel

end Seven

/-- The eighth build, with a line changed in the text that the document is written as. -/
theorem countBuild_line_seven : countBuild Seven.text = .ok (8, Seven.counted) ∧
    ∃ d old new start stop, Toml.parse Seven.text = some d ∧ CounterChange 8 old new ∧
      d.text = start ++ linesText old ++ stop ∧ Seven.counted = start ++ linesText new ++ stop := by
  obtain ⟨d, _, _, old, new, _, hd, -, -, -, hchange, htext⟩ := countBuild_line Seven.countBuild_text
  obtain ⟨start, stop, hold, hnew⟩ := htext (.inr ⟨_, Seven.parse_text⟩)
  exact ⟨Seven.countBuild_text, d, old, new, start, stop, hd, hchange, hold, hnew⟩

/-- The text of a whole number in one of its spellings. -/
def IsNumeral (s : String) : Prop := ∀ c ∈ s.toList, c.isAlphanum ∨ c ∈ ['+', '-', '_']

/-- There is a counter in a manifest. -/
def HasCounter (text : String) : Prop :=
  ∃ es c, packageData? text = some (.table es) ∧ ("build", .scalar (.integer c)) ∈ es

/-- More than the number of the counter is changed in a text: a comment behind it is lost. -/
theorem countBuild_drops_comment :
    ¬∀ (text text' : String) (n : ℕ), countBuild text = .ok (n, text') → HasCounter text →
      ∃ before numeral behind, IsNumeral numeral ∧ text = before ++ numeral ++ behind ∧
        text' = before ++ toString n ++ behind := by
  intro h
  have hcounter : HasCounter Seven.text := ⟨_, 7, Seven.packageData?_text, by simp⟩
  obtain ⟨before, numeral, behind, hnumeral, htext, hcounted⟩ :=
    h _ _ _ Seven.countBuild_text hcounter
  have hmark : '#' ∈ Seven.text.toList := by decide
  rw [htext, String.toList_append, String.toList_append, List.mem_append, List.mem_append] at hmark
  have hlost : '#' ∉ Seven.counted.toList := by decide
  rw [hcounted, String.toList_append, String.toList_append, List.mem_append, List.mem_append] at hlost
  rcases hmark with (hbefore | hmark) | hbehind
  · exact hlost (.inl (.inl hbefore))
  · rcases hnumeral '#' hmark with halnum | hsign
    · exact absurd halnum (by decide)
    · exact absurd hsign (by decide)
  · exact hlost (.inr hbehind)

end Ingot.Package
