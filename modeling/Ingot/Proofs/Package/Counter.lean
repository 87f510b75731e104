import Mathlib.Data.Int.Notation
import Ingot.Package.BuildCounter
import Ingot.Proofs.Outcome
import Ingot.Proofs.Toml.Same

/-!
# Counting a build

The counter that is raised is the one that the manifest is read with: the names in the tables
of a document are different, so there is one entry for it or none. **The document that is
written after a build says the same manifest as before with one build more**
(`countBuild_reads`).
-/

namespace Ingot.Package

open Toml

/-! ### Records with another counter -/

/-- A manifest with another number of builds. -/
def Manifest.withBuild (n : ℕ) (m : Manifest) : Manifest := { m with build := n }

theorem Manifest.withBuild_build (m : Manifest) : m.withBuild m.build = m := rfl

/-- The fields of a package that are not the counter do not look at it. -/
theorem packageRecord_ignores (name : String) (data : Data) (n : ℕ) (m : Manifest)
    (hname : name ≠ "build") : packageRecord.field name data (m.withBuild n) =
      (packageRecord.field name data m).map (Manifest.withBuild n) := by
  unfold packageRecord
  dsimp only
  split
  · cases data.asString <;> rfl
  · cases data.asString <;> rfl
  · cases data.asString <;> rfl
  · exact absurd rfl hname
  · cases data.asString <;> rfl
  · rfl

theorem manifestRecord_ignores (name : String) (data : Data) (n : ℕ) (m : Manifest)
    (hname : name ≠ "package") : manifestRecord.field name data (m.withBuild n) =
      (manifestRecord.field name data m).map (Manifest.withBuild n) := by
  unfold manifestRecord
  dsimp only
  split
  · exact absurd rfl hname
  · cases data.asList dependencyRecord.read <;> rfl
  · cases optionsRecord.read data <;> rfl
  · rfl

/-- Fields that do not look at the counter are read as well with another one. -/
theorem readFields_withBuild {r : Record Manifest} {key : String}
    (hfield : ∀ name data n m, name ≠ key →
      r.field name data (m.withBuild n) = (r.field name data m).map (Manifest.withBuild n))
    {xs : List (String × Data)} (hxs : ∀ x ∈ xs, x.1 ≠ key) (n : ℕ) (m : Manifest) :
    r.readFields xs (m.withBuild n) = (r.readFields xs m).map (Manifest.withBuild n) := by
  induction xs generalizing m with
  | nil => rfl
  | cons x xs ih =>
    obtain ⟨name, data⟩ := x
    have hrest := ih fun x hx => hxs x (List.mem_cons_of_mem _ hx)
    rw [Record.readFields, Record.readFields]
    split
    · rw [hfield _ _ _ _ (hxs _ List.mem_cons_self)]
      cases r.field name data m with
      | error mismatch => rfl
      | ok m => exact hrest m
    · exact hrest m

theorem build_of_readFields {r : Record Manifest} {key : String}
    (hfield : ∀ name data n m, name ≠ key →
      r.field name data (m.withBuild n) = (r.field name data m).map (Manifest.withBuild n))
    {xs : List (String × Data)} (hxs : ∀ x ∈ xs, x.1 ≠ key) {m m' : Manifest}
    (h : r.readFields xs m = .ok m') : m'.build = m.build := by
  have hsame := readFields_withBuild hfield hxs m.build m
  rw [Manifest.withBuild_build, h] at hsame
  have heq : m' = m'.withBuild m.build := Except.ok.inj hsame
  rw [heq]
  rfl

/-! ### The table of the package -/

theorem ne_of_mem_named {α : Type} {f : α → Data} {entries : List (Key × α)} {name : String}
    (h : ∀ e ∈ entries, e.1.name ≠ name) : ∀ x ∈ named f entries, x.1 ≠ name := by
  intro x hx
  obtain ⟨e, he, rfl⟩ := List.mem_map.1 hx
  exact h e he

theorem named_middle {α : Type} {f : α → Data} {before behind : List (Key × α)} {key : Key}
    {name : String} (hkey : key.name = name) (a : α) : named f (before ++ (key, a) :: behind) =
      named f before ++ (name, f a) :: named f behind := by
  rw [named_append, ← hkey]
  rfl

/-- What the fields before an entry, the entry and those behind it have to be read as. -/
theorem readFields_middle {α : Type} {r : Record α} {before behind : List (String × Data)}
    {name : String} {data : Data} {a b : α} (hname : r.fields.contains name = true) :
    r.readFields (before ++ (name, data) :: behind) a = .ok b ↔
      ∃ a₁ a₂, r.readFields before a = .ok a₁ ∧ r.field name data a₁ = .ok a₂ ∧
        r.readFields behind a₂ = .ok b := by
  rw [Record.readFields_append]
  cases r.readFields before a with
  | error mismatch => simp [Except.bind]
  | ok a₁ =>
    simp only [Except.bind, Record.readFields, if_pos hname, Except.ok.injEq]
    cases hfield : r.field name data a₁ with
    | error mismatch => simp [hfield]
    | ok a₂ => simp [hfield]

theorem asNat_eq_ok {expected : String} {data : Data} {n : ℕ}
    (h : data.asNat expected = .ok n) : data = .scalar (.integer n) := by
  unfold Data.asNat at h
  split at h
  · rename_i c
    split at h
    · cases h
    · rename_i hneg
      cases h
      rw [Int.toNat_of_nonneg (Int.not_lt.1 hneg)]
  · cases h

theorem counterOf_natCast (n : ℕ) : counterOf (some (.scalar (.integer n))) = .ok (n : ℤ) := by
  unfold counterOf
  exact if_neg (Int.not_lt.2 (Int.natCast_nonneg n))

theorem counterOf_eq_ok {count : Option Data} {c : ℤ} (h : counterOf count = .ok c) :
    ∃ n : ℕ, c = n ∧ (count = none ∧ n = 0 ∨ count = some (.scalar (.integer n))) := by
  unfold counterOf at h
  split at h
  · cases h
    exact ⟨0, rfl, .inl ⟨rfl, rfl⟩⟩
  · rename_i n
    split at h
    · cases h
    · rename_i hneg
      cases h
      obtain ⟨n, rfl⟩ := Int.eq_ofNat_of_zero_le (Int.not_lt.1 hneg)
      exact ⟨n, rfl, .inr rfl⟩
  · cases h

theorem field_build (n : ℕ) (m : Manifest) :
    packageRecord.field "build" (.scalar (.integer n)) m = .ok (m.withBuild n) := rfl

theorem exists_mem_named_setEntry {α : Type} (f : α → Data) (value : α)
    {entries : List (Key × α)} {name : String} (h : ∃ e ∈ named f entries, e.1 = name) :
    ∃ e ∈ named f (setEntry "build" value entries), e.1 = name := by
  obtain ⟨x, hx, rfl⟩ := h
  obtain ⟨e, he, rfl⟩ := List.mem_map.1 hx
  unfold setEntry
  split
  · exact ⟨_, List.mem_map_of_mem (List.mem_append_left _ he), rfl⟩
  · refine ⟨_, List.mem_map_of_mem (List.mem_map_of_mem he), ?_⟩
    dsimp only
    split
    · rename_i hname
      exact (beq_iff_eq.1 hname).symm
    · rfl

theorem ne_of_findEntry_eq_none {α : Type} {name : String} {entries : List (Key × α)}
    (h : findEntry name entries = none) : ∀ e ∈ entries, e.1.name ≠ name :=
  fun e he heq => findEntry_eq_none.1 h (List.mem_map.2 ⟨e, he, heq⟩)

theorem field_of_readFields {α : Type} {r : Record α} {xs : List (String × Data)} {a b : α}
    (h : r.readFields xs a = .ok b) {e : String × Data} (he : e ∈ xs)
    (hfield : r.fields.contains e.1 = true) : ∃ a' b', r.field e.1 e.2 a' = .ok b' := by
  obtain ⟨before, behind, rfl⟩ := List.append_of_mem he
  obtain ⟨a₁, a₂, -, hread, -⟩ := (readFields_middle hfield).1 h
  exact ⟨a₁, a₂, hread⟩

theorem setEntry_of_none {α : Type} {name : String} {entries : List (Key × α)} (value : α)
    (h : findEntry name entries = none) :
    setEntry name value entries = entries ++ [(Key.plain name, value)] := by
  rw [setEntry, h]

/-- An entry that is there is set in its place. -/
theorem exists_split_setEntry {α : Type} {name : String} {entries : List (Key × α)} {a : α}
    (h : Distinct entries) (hfind : findEntry name entries = some a) (value : α) :
    ∃ before key behind, entries = before ++ (key, a) :: behind ∧ key.name = name ∧
      (∀ e ∈ behind, e.1.name ≠ name) ∧
        setEntry name value entries = before ++ (Key.plain name, value) :: behind := by
  obtain ⟨before, key, behind, rfl, hkey, hbefore, hbehind⟩ := h.exists_split hfind
  refine ⟨before, key, behind, rfl, hkey, hbehind, ?_⟩
  rw [setEntry, hfind]
  dsimp only
  rw [List.map_append, List.map_cons, map_eq_self_of_ne hbefore, map_eq_self_of_ne hbehind,
    if_pos (by simpa using hkey)]

/-- The counter that is raised is the one that a package is read with. -/
theorem counterOf_of_ofTable {α : Type} {f : α → Data} {entries : List (Key × α)} {p : Manifest}
    (h : Distinct entries) (hread : packageRecord.ofTable (named f entries) = .ok p) :
    counterOf ((findEntry "build" entries).map f) = .ok (p.build : ℤ) := by
  obtain ⟨hfields, -⟩ := Record.ofTable_eq_ok.1 hread
  cases hfind : findEntry "build" entries with
  | none =>
    have hother := ne_of_mem_named (f := f) (ne_of_findEntry_eq_none hfind)
    have hbuild : p.build = 0 := build_of_readFields packageRecord_ignores hother hfields
    rw [hbuild]
    rfl
  | some a =>
    obtain ⟨before, key, behind, rfl, hkey, -, hbehind⟩ := h.exists_split hfind
    rw [named_middle hkey] at hfields
    obtain ⟨p₁, p₂, -, hfield, hlast⟩ := (readFields_middle rfl).1 hfields
    obtain ⟨n, hn, hp₂⟩ := of_except_map_ok
      (show ((f a).asNat "u64").map (p₁.withBuild ·) = .ok p₂ from hfield)
    have hbuild : p.build = n := by
      rw [build_of_readFields packageRecord_ignores (ne_of_mem_named (f := f) hbehind) hlast, ← hp₂]
      rfl
    rw [hbuild, Option.map_some, asNat_eq_ok hn]
    exact counterOf_natCast n

/-- The table of a package with another counter reads as the same package with it. -/
theorem ofTable_setEntry {α : Type} (f : α → Data) {value : α} {entries : List (Key × α)} {n : ℕ}
    {p : Manifest} (h : Distinct entries) (hvalue : f value = .scalar (.integer n))
    (hread : packageRecord.ofTable (named f entries) = .ok p) :
    packageRecord.ofTable (named f (setEntry "build" value entries)) = .ok (p.withBuild n) := by
  obtain ⟨hfields, hrequired⟩ := Record.ofTable_eq_ok.1 hread
  refine Record.ofTable_eq_ok.2
    ⟨?_, fun name hname => exists_mem_named_setEntry f value (hrequired name hname)⟩
  cases hfind : findEntry "build" entries with
  | none =>
    rw [setEntry_of_none value hfind, named_append]
    refine (readFields_middle rfl).2 ⟨p, p.withBuild n, hfields, ?_, rfl⟩
    rw [hvalue]
    exact field_build n p
  | some a =>
    obtain ⟨before, key, behind, rfl, hkey, hbehind, hset⟩ := exists_split_setEntry h hfind value
    rw [named_middle hkey] at hfields
    obtain ⟨p₁, p₂, hfirst, hfield, hlast⟩ := (readFields_middle rfl).1 hfields
    obtain ⟨c, -, rfl⟩ := of_except_map_ok
      (show ((f a).asNat "u64").map (p₁.withBuild ·) = .ok p₂ from hfield)
    rw [hset, named_middle rfl]
    refine (readFields_middle rfl).2 ⟨p₁, p₁.withBuild n, hfirst, ?_, ?_⟩
    · rw [hvalue]
      exact field_build n p₁
    · have hsame := readFields_withBuild packageRecord_ignores (ne_of_mem_named (f := f) hbehind) n
        (p₁.withBuild c)
      exact hsame.trans (congrArg (Except.map (Manifest.withBuild n)) hlast)

/-! ### The whole document -/

theorem eq_of_nextCount {n : ℕ} {next : ℤ} (h : nextCount n = .ok next) : next = (n + 1 : ℕ) := by
  unfold nextCount at h
  split at h
  · exact (Except.ok.inj h).symm
  · cases h

/-- All that counting a build in the entry of a package does: the counter `c` of its table is
raised by one. -/
inductive CountedItem (c : ℕ) : Item → Item → Prop
  /-- In a table with a header or with rows of keys. -/
  | table (layout : Layout) {entries : List (Key × Item)} (names : Distinct entries)
      (count : counterOf ((findEntry "build" entries).map Item.data) = .ok (c : ℤ)) :
    CountedItem c (.table layout entries)
      (.table layout (setEntry "build" (.value (integerValue (c + 1 : ℕ))) entries))
  /-- In a table between braces. -/
  | braces (dotted : Bool) (opening : String) (decor : Decor) {entries : List (Key × Value)}
      (names : Distinct entries)
      (count : counterOf ((findEntry "build" entries).map Value.data) = .ok (c : ℤ)) :
    CountedItem c (.value (.table entries dotted opening decor))
      (.value (.table (setEntry "build" (integerValue (c + 1 : ℕ)) entries) dotted opening decor))

theorem countedItem_of_countInItem {item item' : Item} {next : ℤ} (h : item.Neat)
    (hcount : countInItem item = .ok (next, item')) :
    ∃ c : ℕ, next = (c + 1 : ℕ) ∧ CountedItem c item item' := by
  unfold countInItem at hcount
  split at hcount
  · obtain ⟨count, hc, hcount⟩ := of_except_bind_ok hcount
    obtain ⟨next, hnext, hcount⟩ := of_except_bind_ok hcount
    cases hcount
    obtain ⟨c, rfl, -⟩ := counterOf_eq_ok hc
    obtain rfl := eq_of_nextCount hnext
    exact ⟨c, rfl, .table _ (Item.neat_table.1 h).names hc⟩
  · obtain ⟨count, hc, hcount⟩ := of_except_bind_ok hcount
    obtain ⟨next, hnext, hcount⟩ := of_except_bind_ok hcount
    cases hcount
    obtain ⟨c, rfl, -⟩ := counterOf_eq_ok hc
    obtain rfl := eq_of_nextCount hnext
    cases h with
    | value h => exact ⟨c, rfl, .braces _ _ _ (Value.neat_table.1 h).names hc⟩
  · cases hcount

/-- The counter that is raised is that of the package. -/
theorem CountedItem.reads {c : ℕ} {item item' : Item} {p : Manifest} (h : CountedItem c item item')
    (hread : packageRecord.read item.data = .ok p) :
    c = p.build ∧ packageRecord.read item'.data = .ok (p.withBuild (c + 1)) := by
  cases h with
  | table layout names count =>
    rw [Item.data, dataOfItems_eq] at hread
    have hc := Except.ok.inj (count.symm.trans (counterOf_of_ofTable names hread))
    refine ⟨Int.ofNat_inj.1 hc, ?_⟩
    rw [Item.data, dataOfItems_eq]
    exact ofTable_setEntry Item.data names rfl hread
  | braces dotted opening decor names count =>
    rw [Item.data, Value.data, dataOfEntries_eq] at hread
    have hc := Except.ok.inj (count.symm.trans (counterOf_of_ofTable names hread))
    refine ⟨Int.ofNat_inj.1 hc, ?_⟩
    rw [Item.data, Value.data, dataOfEntries_eq]
    exact ofTable_setEntry Value.data names rfl hread

/-- The field of the package in a manifest. -/
theorem field_package (data : Data) (m : Manifest) : manifestRecord.field "package" data m =
    (packageRecord.read data).map fun p =>
      { p with dependencies := m.dependencies, options := m.options } := rfl

/-! ### What is left as it is -/

/-- Entries that differ at most in those of a name. -/
def SameBut {α : Type} (name : String) (entries entries' : List (Key × α)) : Prop :=
  entries.filter (fun e => e.1.name != name) = entries'.filter fun e => e.1.name != name

theorem sameBut_setEntry {α : Type} (name : String) (value : α) (entries : List (Key × α)) :
    SameBut name entries (setEntry name value entries) := by
  unfold SameBut setEntry
  split
  · simp [List.filter_append, Key.plain]
  · clear * -
    induction entries with
    | nil => rfl
    | cons e entries ih =>
      by_cases hname : e.1.name = name
      · simpa [hname, Key.plain] using ih
      · simpa [hname] using ih

/-- Entries of a document that are tables with the same layout and differ at most in the
counter. -/
inductive SameButCounter : Item → Item → Prop
  /-- A table with a header or with rows of keys. -/
  | table (layout : Layout) {entries entries' : List (Key × Item)}
    (h : SameBut "build" entries entries') :
    SameButCounter (.table layout entries) (.table layout entries')
  /-- A table between braces. -/
  | braces (dotted : Bool) (opening : String) (decor : Decor)
    {entries entries' : List (Key × Value)} (h : SameBut "build" entries entries') :
    SameButCounter (.value (.table entries dotted opening decor))
      (.value (.table entries' dotted opening decor))

theorem CountedItem.sameButCounter {c : ℕ} {item item' : Item} (h : CountedItem c item item') :
    SameButCounter item item' := by
  cases h with
  | table layout => exact .table layout (sameBut_setEntry _ _ _)
  | braces dotted opening decor => exact .braces dotted opening decor (sameBut_setEntry _ _ _)

/-- A document counts one build more than another one: it says the same manifest but for that,
and differs from it nowhere but in the counter of the package. -/
structure CountsOneMore (m : Manifest) (d d' : Document) : Prop where
  manifest : manifestRecord.ofTable d'.data = .ok (m.withBuild (m.build + 1))
  layout : d'.root.layout = d.root.layout
  ending : d'.ending = d.ending
  entries : ∃ before key item item' behind, key.name = "package" ∧
    d.root.entries = before ++ (key, item) :: behind ∧
    d'.root.entries = before ++ (key, item') :: behind ∧ SameButCounter item item'

/-- The table of a manifest with the same package but for its counter reads as the same
manifest but for its counter. -/
theorem ofTable_package {before behind : List (String × Data)} {data : Data} {m : Manifest}
    (hbehind : ∀ x ∈ behind, x.1 ≠ "package")
    (hread : manifestRecord.ofTable (before ++ ("package", data) :: behind) = .ok m) :
    ∃ p, packageRecord.read data = .ok p ∧ m.build = p.build ∧
      ∀ data' n, packageRecord.read data' = .ok (p.withBuild n) →
        manifestRecord.ofTable (before ++ ("package", data') :: behind) = .ok (m.withBuild n) := by
  obtain ⟨hfields, -⟩ := Record.ofTable_eq_ok.1 hread
  obtain ⟨m₁, m₂, hfirst, hfield, hlast⟩ := (readFields_middle rfl).1 hfields
  rw [field_package] at hfield
  obtain ⟨p, hp, hm₂⟩ := of_except_map_ok hfield
  refine ⟨p, hp, ?_, fun data' n hnew => Record.ofTable_eq_ok.2 ⟨?_, ?_⟩⟩
  · rw [build_of_readFields manifestRecord_ignores hbehind hlast, ← hm₂]
  · refine (readFields_middle rfl).2 ⟨m₁, m₂.withBuild n, hfirst, ?_, ?_⟩
    · rw [field_package, hnew, ← hm₂]
      rfl
    · rw [readFields_withBuild manifestRecord_ignores hbehind, hlast]
      rfl
  · intro name hname
    obtain rfl := List.mem_singleton.1 hname
    exact ⟨_, List.mem_append_right _ List.mem_cons_self, rfl⟩

/-- The entry of the package in a document that says a manifest. -/
theorem exists_package {d : Document} {m : Manifest} (h : d.root.Neat)
    (hread : manifestRecord.ofTable d.data = .ok m) :
    ∃ item p, findEntry "package" d.root.entries = some item ∧ item.Neat ∧
      packageRecord.read item.data = .ok p ∧ m.build = p.build := by
  rw [Document.data, dataOfItems_eq] at hread
  cases hfind : findEntry "package" d.root.entries with
  | none =>
    obtain ⟨-, hrequired⟩ := Record.ofTable_eq_ok.1 hread
    obtain ⟨e, he, hname⟩ := hrequired "package" List.mem_cons_self
    exact absurd hname (ne_of_mem_named (ne_of_findEntry_eq_none hfind) e he)
  | some item =>
    obtain ⟨before, key, behind, hentries, hkey, -, hbehind⟩ := h.names.exists_split hfind
    have hneat : item.Neat := h.inner (key, item) (by rw [hentries]; simp)
    rw [hentries, named_middle hkey] at hread
    obtain ⟨p, hp, hbuild, -⟩ := ofTable_package (ne_of_mem_named hbehind) hread
    exact ⟨item, p, rfl, hneat, hp, hbuild⟩

/-- An entry that is there is replaced in its place. -/
theorem exists_split_replaceEntry {α : Type} {name : String} {entries : List (Key × α)} {a : α}
    (h : Distinct entries) (hfind : findEntry name entries = some a) (a' : α) :
    ∃ before key behind, entries = before ++ (key, a) :: behind ∧ key.name = name ∧
      (∀ e ∈ behind, e.1.name ≠ name) ∧
        replaceEntry name a' entries = before ++ (key, a') :: behind := by
  obtain ⟨before, key, behind, rfl, hkey, hbefore, hbehind⟩ := h.exists_split hfind
  refine ⟨before, key, behind, rfl, hkey, hbehind, ?_⟩
  rw [replaceEntry, List.map_append, List.map_cons, map_eq_self_of_ne hbefore,
    map_eq_self_of_ne hbehind, if_pos (by simpa using hkey)]

/-- All that counting a build in a document does: it counts it in the entry of the package. -/
theorem exists_of_countInDocument {d d' : Document} {next : ℤ} (h : d.root.Neat)
    (hcount : countInDocument d = .ok (next, d')) :
    ∃ (c : ℕ) (before : List (Key × Item)) (key : Key) (item item' : Item)
        (behind : List (Key × Item)), next = (c + 1 : ℕ) ∧ CountedItem c item item' ∧
      d.root.entries = before ++ (key, item) :: behind ∧ key.name = "package" ∧
        (∀ e ∈ behind, e.1.name ≠ "package") ∧
          findEntry "package" d.root.entries = some item ∧
            d' = ⟨⟨d.root.layout, before ++ (key, item') :: behind⟩, d.ending⟩ := by
  unfold countInDocument at hcount
  split at hcount
  · cases hcount
  · rename_i item hfind
    obtain ⟨⟨n, item'⟩, hitem, hcount⟩ := of_except_bind_ok hcount
    cases hcount
    obtain ⟨before, key, behind, hentries, hkey, hbehind, hreplace⟩ :=
      exists_split_replaceEntry h.names hfind item'
    have hneat : item.Neat := h.inner (key, item) (by rw [hentries]; simp)
    obtain ⟨c, hnext, hcounted⟩ := countedItem_of_countInItem hneat hitem
    refine ⟨c, before, key, item, item', behind, hnext, hcounted, hentries, hkey, hbehind, hfind, ?_⟩
    dsimp only
    rw [hreplace]

/-- Counting a build in a document that says a manifest. -/
theorem countInDocument_reads {d d' : Document} {next : ℤ} {m : Manifest} (h : d.root.Neat)
    (hcount : countInDocument d = .ok (next, d'))
    (hread : manifestRecord.ofTable d.data = .ok m) :
    next = (m.build + 1 : ℕ) ∧ CountsOneMore m d d' := by
  obtain ⟨c, before, key, item, item', behind, rfl, hcounted, hentries, hkey, hbehind, -, rfl⟩ :=
    exists_of_countInDocument h hcount
  rw [Document.data, dataOfItems_eq, hentries, named_middle hkey] at hread
  obtain ⟨p, hp, hbuild, hset⟩ := ofTable_package (ne_of_mem_named hbehind) hread
  obtain ⟨rfl, hnew⟩ := hcounted.reads hp
  rw [← hbuild] at hnew ⊢
  refine ⟨rfl, ?_, rfl, rfl, before, key, item, item', behind, hkey, hentries, rfl,
    hcounted.sameButCounter⟩
  rw [Document.data, dataOfItems_eq, named_middle hkey]
  exact hset _ _ hnew

/-! ### The text of a manifest -/

/-- A text is a manifest if it is a document that says one, and the names and versions in it
pass the check. -/
theorem Manifest.parse_eq_ok {text : String} {m : Manifest} : Manifest.parse text = .ok m ↔
    ∃ d, Toml.parse text = some d ∧ manifestRecord.ofTable d.data = .ok m ∧ m.check = .ok () := by
  unfold Manifest.parse Record.parse
  cases Toml.parse text with
  | none => simp
  | some d =>
    dsimp only
    cases hread : manifestRecord.ofTable d.data with
    | error mismatch => simp [hread]
    | ok m' =>
      dsimp only
      cases hcheck : m'.check with
      | error fault =>
        simp only [reduceCtorEq, Option.some.injEq, exists_eq_left', false_iff, hread,
          Except.ok.injEq, not_and]
        rintro rfl
        simp [hcheck]
      | ok =>
        simp only [Except.ok.injEq, Option.some.injEq, exists_eq_left', hread]
        constructor
        · rintro rfl
          exact ⟨rfl, hcheck⟩
        · exact And.left

/-- A build is counted in a text by counting it in the document of the text. -/
theorem countBuild_eq_ok {text text' : String} {n : ℕ} : countBuild text = .ok (n, text') ↔
    ∃ d next d', Toml.parse text = some d ∧ countInDocument d = .ok (next, d') ∧
      n = next.toNat ∧ text' = d'.text := by
  unfold countBuild
  cases Toml.parse text with
  | none => simp
  | some d =>
    constructor
    · intro h
      obtain ⟨⟨next, d'⟩, hdocument, h⟩ := of_except_bind_ok h
      cases h
      exact ⟨d, next, d', rfl, hdocument, rfl, rfl⟩
    · rintro ⟨_, next, d', hd, hdocument, rfl, rfl⟩
      cases hd
      dsimp only
      rw [hdocument]
      rfl

/-- **What is written after a build is the text of a document that counts one build more than
the manifest did**, and that number of builds is the one that is told. -/
theorem countBuild_reads {text text' : String} {n : ℕ} {m : Manifest}
    (hparse : Manifest.parse text = .ok m) (hcount : countBuild text = .ok (n, text')) :
    n = m.build + 1 ∧ ∃ d next d', Toml.parse text = some d ∧
      countInDocument d = .ok (next, d') ∧ CountsOneMore m d d' ∧ text' = d'.text := by
  obtain ⟨d, next, d', hd, hdocument, rfl, rfl⟩ := countBuild_eq_ok.1 hcount
  obtain ⟨_, hd', hread, _⟩ := Manifest.parse_eq_ok.1 hparse
  obtain rfl := Option.some.inj (hd.symm.trans hd')
  obtain ⟨rfl, hnew⟩ := countInDocument_reads (neat_of_parse hd) hdocument hread
  exact ⟨Int.toNat_natCast _, d, _, d', hd, hdocument, hnew, rfl⟩

end Ingot.Package
