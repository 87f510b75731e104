import Mathlib.Data.List.Nodup
import Mathlib.Data.Nat.Init
import Ingot.Toml.Assembly

/-!
# Names in a document are different

No table of a document has two entries of one name, however deep it lies: not between braces,
not in an array, not under a header. Every reader of values keeps it, and so does every line,
whether it is a row of keys or a header. So **every document that is read has it**
(`neat_of_parse`).
-/

namespace Ingot.Toml

variable {α β : Type}

/-! ### Entries -/

/-- The names of entries are all different. -/
def Distinct (entries : List (Key × α)) : Prop := (entries.map fun e => e.1.name).Nodup

theorem findEntry_eq_none {name : String} {entries : List (Key × α)} :
    findEntry name entries = none ↔ name ∉ entries.map fun e => e.1.name := by
  rw [findEntry, Option.map_eq_none_iff, List.find?_eq_none]
  simp only [beq_iff_eq, List.mem_map, not_exists, not_and]

theorem distinct_nil : Distinct ([] : List (Key × α)) := List.nodup_nil

theorem Distinct.concat {entries : List (Key × α)} (h : Distinct entries) {key : Key} (a : α)
    (hnew : key.name ∉ entries.map fun e => e.1.name) : Distinct (entries ++ [(key, a)]) := by
  rw [Distinct, List.map_append]
  refine List.nodup_append.2 ⟨h, List.nodup_singleton _, ?_⟩
  intro name hname other hother
  obtain rfl := List.mem_singleton.1 hother
  rintro rfl
  exact hnew hname

theorem names_replaceEntry (name : String) (a : α) (entries : List (Key × α)) :
    (replaceEntry name a entries).map (fun e => e.1.name) = entries.map fun e => e.1.name := by
  rw [replaceEntry, List.map_map]
  refine List.map_congr_left fun e _ => ?_
  simp only [Function.comp]
  split
  · rfl
  · rfl

theorem Distinct.replace {entries : List (Key × α)} (h : Distinct entries) (name : String)
    (a : α) : Distinct (replaceEntry name a entries) := by
  rw [Distinct, names_replaceEntry]
  exact h

theorem mem_of_findEntry {name : String} {entries : List (Key × α)} {a : α}
    (h : findEntry name entries = some a) : ∃ key, (key, a) ∈ entries := by
  obtain ⟨⟨key, b⟩, hfind, rfl⟩ := Option.map_eq_some_iff.1 h
  exact ⟨key, List.mem_of_find?_eq_some hfind⟩

/-- An entry of a name that no other entry has stands between others. -/
theorem Distinct.exists_split {name : String} {entries : List (Key × α)} {a : α}
    (h : Distinct entries) (hfind : findEntry name entries = some a) :
    ∃ before key behind, entries = before ++ (key, a) :: behind ∧ key.name = name ∧
      (∀ e ∈ before, e.1.name ≠ name) ∧ ∀ e ∈ behind, e.1.name ≠ name := by
  obtain ⟨⟨key, b⟩, he, rfl⟩ := Option.map_eq_some_iff.1 hfind
  obtain ⟨hname, before, behind, rfl, hbefore⟩ := List.find?_eq_some_iff_append.1 he
  have hkey : key.name = name := by simpa using hname
  refine ⟨before, key, behind, rfl, hkey, ?_, ?_⟩
  · intro e hmem heq
    have hne := hbefore e hmem
    simp [heq] at hne
  · intro e hmem heq
    rw [Distinct, List.map_append, List.map_cons] at h
    have hnodup := (List.nodup_append.1 h).2.1
    refine (List.nodup_cons.1 hnodup).1 (List.mem_map.2 ⟨e, hmem, ?_⟩)
    rw [heq, hkey]

theorem map_eq_self_of_ne {name : String} {entries : List (Key × α)}
    (h : ∀ e ∈ entries, e.1.name ≠ name) (g : Key × α → Key × α) :
    entries.map (fun e => if e.1.name == name then g e else e) = entries := by
  refine (List.map_congr_left fun e he => ?_).trans (List.map_id entries)
  exact if_neg (by simpa using h e he)

theorem mem_replaceEntry {name : String} {a : α} {entries : List (Key × α)} {e : Key × α}
    (h : e ∈ replaceEntry name a entries) : e ∈ entries ∨ e.2 = a := by
  obtain ⟨old, hold, rfl⟩ := List.mem_map.1 h
  split
  · exact .inr rfl
  · exact .inl hold

/-! ### Neat entries -/

/-- The names of entries are different, and each entry has a property of its own. -/
structure NeatEntries (P : α → Prop) (entries : List (Key × α)) : Prop where
  names : Distinct entries
  inner : ∀ e ∈ entries, P e.2

theorem neatEntries_nil (P : α → Prop) : NeatEntries P [] :=
  ⟨distinct_nil, fun _ he => by cases he⟩

theorem NeatEntries.concat {P : α → Prop} {entries : List (Key × α)} (h : NeatEntries P entries)
    {key : Key} {a : α} (hnew : findEntry key.name entries = none) (ha : P a) :
    NeatEntries P (entries ++ [(key, a)]) := by
  refine ⟨h.names.concat a (findEntry_eq_none.1 hnew), ?_⟩
  intro e he
  rcases List.mem_append.1 he with he | he
  · exact h.inner e he
  · obtain rfl := List.mem_singleton.1 he
    exact ha

theorem NeatEntries.replace {P : α → Prop} {entries : List (Key × α)} (h : NeatEntries P entries)
    (name : String) {a : α} (ha : P a) : NeatEntries P (replaceEntry name a entries) := by
  refine ⟨h.names.replace name a, ?_⟩
  intro e he
  rcases mem_replaceEntry he with he | he
  · exact h.inner e he
  · rw [he]
    exact ha

theorem NeatEntries.of_findEntry {P : α → Prop} {entries : List (Key × α)}
    (h : NeatEntries P entries) {name : String} {a : α} (hfind : findEntry name entries = some a) :
    P a := by
  obtain ⟨key, hmem⟩ := mem_of_findEntry hfind
  exact h.inner _ hmem

/-! ### Neat documents -/

/-- The names in all tables of a value are different. -/
inductive Value.Neat : Value → Prop
  /-- A value without parts has no tables. -/
  | scalar (scalar : Scalar) (written : String) (decor : Decor) :
    Neat (.scalar scalar written decor)
  /-- The tables of an array are those of its elements. -/
  | array {elements : List Value} (comma : Bool) (ending : String) (decor : Decor)
    (inner : ∀ v ∈ elements, Neat v) : Neat (.array elements comma ending decor)
  /-- A table between braces. -/
  | table {entries : List (Key × Value)} (dotted : Bool) (opening : String) (decor : Decor)
    (names : Distinct entries) (inner : ∀ e ∈ entries, Neat e.2) :
    Neat (.table entries dotted opening decor)

/-- The names in all tables of an entry are different. -/
inductive Item.Neat : Item → Prop
  /-- A value. -/
  | value {v : Value} (h : v.Neat) : Neat (.value v)
  /-- A table. -/
  | table (layout : Layout) {entries : List (Key × Item)} (names : Distinct entries)
    (inner : ∀ e ∈ entries, Neat e.2) : Neat (.table layout entries)
  /-- Tables under one name. -/
  | tables {elements : List (Layout × List (Key × Item))}
    (names : ∀ t ∈ elements, Distinct t.2) (inner : ∀ t ∈ elements, ∀ e ∈ t.2, Neat e.2) :
    Neat (.tables elements)

/-- The names in a table and in all tables inside of it are different. -/
def Table.Neat (t : Table) : Prop := NeatEntries Item.Neat t.entries

theorem Value.neat_table {entries : List (Key × Value)} {dotted : Bool} {opening : String}
    {decor : Decor} :
    (Value.table entries dotted opening decor).Neat ↔ NeatEntries Value.Neat entries := by
  constructor
  · rintro (_ | _ | ⟨_, _, _, names, inner⟩)
    exact ⟨names, inner⟩
  · rintro ⟨names, inner⟩
    exact .table _ _ _ names inner

theorem Item.neat_table {layout : Layout} {entries : List (Key × Item)} :
    (Item.table layout entries).Neat ↔ NeatEntries Item.Neat entries := by
  constructor
  · rintro (_ | ⟨_, names, inner⟩ | _)
    exact ⟨names, inner⟩
  · rintro ⟨names, inner⟩
    exact .table _ names inner

theorem Item.neat_tables {elements : List (Layout × List (Key × Item))} :
    (Item.tables elements).Neat ↔ ∀ t ∈ elements, NeatEntries Item.Neat t.2 := by
  constructor
  · rintro (_ | _ | ⟨names, inner⟩) t ht
    exact ⟨names t ht, inner t ht⟩
  · intro h
    exact .tables (fun t ht => (h t ht).names) fun t ht => (h t ht).inner

/-- The last of tables under one name is replaced by another one. -/
theorem Item.Neat.replace_last {elements : List (Layout × List (Key × Item))}
    (h : (Item.tables elements).Neat) {t : Layout × List (Key × Item)}
    (ht : NeatEntries Item.Neat t.2) : (Item.tables (elements.dropLast ++ [t])).Neat := by
  refine Item.neat_tables.2 fun u hu => ?_
  rcases List.mem_append.1 hu with hu | hu
  · exact Item.neat_tables.1 h u ((List.dropLast_sublist _).mem hu)
  · obtain rfl := List.mem_singleton.1 hu
    exact ht

/-! ### Rows of keys -/

theorem Table.neat_empty (origin : Origin) : (Table.empty origin).Neat := neatEntries_nil _

theorem Table.neat_at? {path : List Key} {t inner : Table} (h : t.Neat)
    (hat : t.at? path = some inner) : inner.Neat := by
  induction path generalizing t with
  | nil =>
    cases hat
    exact h
  | cons k path ih =>
    rw [Table.at?] at hat
    split at hat
    · cases hat
      exact Table.neat_empty _
    · rename_i layout entries hfind
      exact ih (Item.neat_table.1 (h.of_findEntry hfind)) hat
    · rename_i elements hfind
      split at hat
      · cases hat
      · rename_i layout entries hlast
        have htables := Item.neat_tables.1 (h.of_findEntry hfind)
        exact ih (t := ⟨layout, entries⟩) (htables _ (List.mem_of_getLast? hlast)) hat
    · cases hat

/-- In a table without entries every row of keys leads to one without entries. -/
theorem Table.at?_of_entries_nil (path : List Key) {t : Table} (h : t.entries = []) :
    (t.at? path).map Table.entries = some [] := by
  cases path with
  | nil => simp [Table.at?, h]
  | cons k path => simp [Table.at?, h, findEntry, Table.empty]

/-- Changing the table that a row of keys leads to keeps a table neat, if the change keeps that
table neat. -/
theorem Table.neat_of_changeAt {dotted : Bool} {change : Table → Option Table} {path : List Key}
    {t t' : Table} (h : t.Neat)
    (hstep : ∀ inner inner', (t.at? path).map Table.entries = some inner.entries →
      inner.Neat → change inner = some inner' → inner'.Neat)
    (hchange : Table.changeAt dotted change path t = some t') : t'.Neat := by
  induction path generalizing t t' with
  | nil => exact hstep t t' rfl h hchange
  | cons k path ih =>
    rw [Table.at?] at hstep
    rw [Table.changeAt] at hchange
    split at hchange
    · rename_i hnew
      obtain ⟨inner, hmake, hsome⟩ := Option.bind_eq_some_iff.1 hchange
      cases hsome
      rw [hnew] at hstep
      refine h.concat hnew (Item.neat_table.2 (ih (Table.neat_empty _) ?_ hmake))
      rw [Table.at?_of_entries_nil path rfl]
      exact hstep
    · rename_i layout entries hfind
      rw [hfind] at hstep
      split at hchange
      · cases hchange
      · obtain ⟨inner, hmake, hsome⟩ := Option.bind_eq_some_iff.1 hchange
        cases hsome
        have hold := Item.neat_table.1 (h.of_findEntry hfind)
        exact h.replace _ (Item.neat_table.2 (ih (t := ⟨layout, entries⟩) hold hstep hmake))
    · rename_i elements hfind
      rw [hfind] at hstep
      split at hchange
      · cases hchange
      · rename_i layout entries hlast
        dsimp only at hstep
        rw [hlast] at hstep
        obtain ⟨inner, hmake, hsome⟩ := Option.bind_eq_some_iff.1 hchange
        cases hsome
        have htables := h.of_findEntry hfind
        have hold := Item.neat_tables.1 htables _ (List.mem_of_getLast? hlast)
        exact h.replace _ (htables.replace_last (ih (t := ⟨layout, entries⟩) hold hstep hmake))
    · cases hchange

/-- A row of keys with a neat value keeps a table neat. -/
theorem Table.neat_of_addEntry {path : List Key} {key : Key} {v : Value} {t t' : Table}
    (h : t.Neat) (hv : v.Neat) (hadd : t.addEntry path key v = some t') : t'.Neat := by
  refine Table.neat_of_changeAt h (fun inner inner' _ hinner hchange => ?_) hadd
  split at hchange
  · cases hchange
  · split at hchange
    · cases hchange
    · rename_i hnew
      cases hchange
      exact hinner.concat hnew (.value hv)

theorem Table.neat_of_addEntries {entries : List (List Key × Key × Value)} {t t' : Table}
    (h : t.Neat) (hvalues : ∀ e ∈ entries, e.2.2.Neat)
    (hadd : Table.addEntries entries t = some t') : t'.Neat := by
  induction entries generalizing t with
  | nil =>
    cases hadd
    exact h
  | cons e entries ih =>
    obtain ⟨path, key, v⟩ := e
    obtain ⟨t₁, hfirst, hrest⟩ := Option.bind_eq_some_iff.1 hadd
    exact ih (Table.neat_of_addEntry h (hvalues _ List.mem_cons_self) hfirst)
      (fun e he => hvalues e (List.mem_cons_of_mem _ he)) hrest

/-! ### Headers -/

theorem Section.neat_earlierEntries {s : Section} {root : Table} {earlier : List (Key × Item)}
    (h : root.Neat) (hearlier : s.earlierEntries root = some earlier) :
    NeatEntries Item.Neat earlier := by
  unfold Section.earlierEntries at hearlier
  split at hearlier
  · cases hearlier
  · rename_i parent hat
    split at hearlier
    · cases hearlier
      exact neatEntries_nil _
    · cases hearlier
      exact neatEntries_nil _
    · rename_i layout entries hfind
      split at hearlier
      · cases hearlier
        exact Item.neat_table.1 ((Table.neat_at? h hat).of_findEntry hfind)
      · cases hearlier
    · cases hearlier

/-- What stands under the name of a section that has an earlier place for its entries. -/
theorem Section.findEntry_of_double {s : Section} {root parent : Table}
    {earlier : List (Key × Item)} (hat : root.at? s.path = some parent) (hdouble : s.double = true)
    (hearlier : s.earlierEntries root = some earlier) :
    findEntry s.key.name parent.entries = none ∨
      ∃ elements, findEntry s.key.name parent.entries = some (.tables elements) := by
  unfold Section.earlierEntries at hearlier
  rw [hat, hdouble] at hearlier
  dsimp only at hearlier
  cases hfind : findEntry s.key.name parent.entries with
  | none => exact .inl rfl
  | some item =>
    rw [hfind] at hearlier
    cases item with
    | value v => cases hearlier
    | table layout entries => cases hearlier
    | tables elements => exact .inr ⟨elements, rfl⟩

theorem Section.neat_amongEntries {s : Section} {root parent t : Table}
    {earlier entries : List (Key × Item)} (h : NeatEntries Item.Neat entries) (ht : t.Neat)
    (hat : root.at? s.path = some parent) (hentries : parent.entries = entries)
    (hearlier : s.earlierEntries root = some earlier) :
    NeatEntries Item.Neat (s.amongEntries t entries) := by
  subst hentries
  unfold Section.amongEntries
  split
  · rename_i hdouble
    split
    · rename_i elements hfind
      refine h.replace _ (Item.neat_tables.2 fun u hu => ?_)
      rcases List.mem_append.1 hu with hu | hu
      · exact Item.neat_tables.1 (h.of_findEntry hfind) u hu
      · obtain rfl := List.mem_singleton.1 hu
        exact ht
    · rename_i hother
      rcases Section.findEntry_of_double hat hdouble hearlier with hnew | ⟨elements, hfind⟩
      · refine h.concat hnew (Item.neat_tables.2 fun u hu => ?_)
        obtain rfl := List.mem_singleton.1 hu
        exact ht
      · exact absurd hfind (hother elements)
  · have hfilter : NeatEntries Item.Neat
        (parent.entries.filter fun e => e.1.name != s.key.name) := by
      refine ⟨List.Nodup.sublist (List.filter_sublist.map _) h.names, ?_⟩
      intro e he
      exact h.inner e (List.mem_of_mem_filter he)
    refine hfilter.concat (findEntry_eq_none.2 ?_) (Item.neat_table.2 ht)
    intro hmem
    obtain ⟨e, he, hname⟩ := List.mem_map.1 hmem
    have hne := (List.mem_filter.1 he).2
    rw [hname] at hne
    simp at hne

/-- A section with neat values keeps a document neat. -/
theorem Section.neat_of_addTo {s : Section} {position : ℕ} {root root' : Table} (h : root.Neat)
    (hvalues : ∀ e ∈ s.entries, e.2.2.Neat) (hadd : s.addTo position root = some root') :
    root'.Neat := by
  unfold Section.addTo at hadd
  split at hadd
  · cases hadd
  · rename_i earlier hearlier
    split at hadd
    · cases hadd
    · rename_i t hentries
      have ht : t.Neat :=
        Table.neat_of_addEntries (Section.neat_earlierEntries h hearlier) hvalues hentries
      refine Table.neat_of_changeAt h (fun inner inner' hat hinner hchange => ?_) hadd
      cases hchange
      obtain ⟨parent, hparent, hsame⟩ := Option.map_eq_some_iff.1 hat
      exact Section.neat_amongEntries hinner ht hparent hsame hearlier

theorem neat_of_addSections {sections : List Section} {position : ℕ} {root root' : Table}
    (h : root.Neat) (hvalues : ∀ s ∈ sections, ∀ e ∈ s.entries, e.2.2.Neat)
    (hadd : addSections position sections root = some root') : root'.Neat := by
  induction sections generalizing position root with
  | nil =>
    cases hadd
    exact h
  | cons s sections ih =>
    obtain ⟨root₁, hfirst, hrest⟩ := Option.bind_eq_some_iff.1 hadd
    exact ih (Section.neat_of_addTo h (hvalues s List.mem_cons_self) hfirst)
      (fun s hs => hvalues s (List.mem_cons_of_mem _ hs)) hrest

/-! ### Values -/

/-- Whatever is read has a property. -/
def Read.All {s : List Char} (P : α → Prop) (r : Read α s) : Prop :=
  ∀ read, r = some read → P read.1.1

theorem Read.All.map {s : List Char} {P : α → Prop} {Q : β → Prop} {r : Read α s} {f : α → β}
    (h : r.All P) (hf : ∀ a, P a → Q (f a)) : (r.map f).All Q := by
  intro read hread
  cases r with
  | none => cases hread
  | some inner =>
    cases hread
    exact hf _ (h _ rfl)

theorem Read.All.within {s t : List Char} {P : α → Prop} {r : Read α t} (h : r.All P)
    (hle : t.length ≤ s.length) : Read.All P (r.within (s := s) hle) := by
  intro read hread
  cases r with
  | none => cases hread
  | some inner =>
    cases hread
    exact h _ rfl

theorem Value.Neat.withDecor {v : Value} (h : v.Neat) (decor : Decor) :
    (v.withDecor decor).Neat := by
  cases h with
  | scalar scalar written old => exact .scalar scalar written decor
  | array comma ending old inner => exact .array comma ending decor inner
  | table dotted opening old names inner => exact .table dotted opening decor names inner

theorem neat_addInline {path : List Key} {key : Key} {v : Value}
    {entries entries' : List (Key × Value)} (h : NeatEntries Value.Neat entries) (hv : v.Neat)
    (hadd : addInline path key v entries = some entries') : NeatEntries Value.Neat entries' := by
  induction path generalizing entries entries' with
  | nil =>
    rw [addInline] at hadd
    split at hadd
    · cases hadd
    · rename_i hnew
      cases hadd
      exact h.concat hnew hv
  | cons k path ih =>
    rw [addInline] at hadd
    split at hadd
    · rename_i hnew
      obtain ⟨inner, hinner, hsome⟩ := Option.bind_eq_some_iff.1 hadd
      cases hsome
      exact h.concat hnew (Value.neat_table.2 (ih (neatEntries_nil _) hinner))
    · rename_i inner opening decor hfind
      obtain ⟨inner', hinner, hsome⟩ := Option.bind_eq_some_iff.1 hadd
      cases hsome
      have hold := Value.neat_table.1 (h.of_findEntry hfind)
      exact h.replace _ (Value.neat_table.2 (ih hold hinner))
    · cases hadd

section Readers

variable {value : ValueReader} (hvalue : ∀ s, (value s).All Value.Neat)

include hvalue

theorem readElements_neat (first : Bool) (s : List Char) :
    (readElements value first s).All fun parts => ∀ v ∈ parts.1, v.Neat := by
  have hnil : ∀ v ∈ ([] : List Value), v.Neat := fun _ hv => by cases hv
  have hcons : ∀ {v : Value} {vs : List Value}, v.Neat → (∀ v ∈ vs, v.Neat) →
      ∀ w ∈ v :: vs, w.Neat := fun hv hvs w hw => by
    rcases List.mem_cons.1 hw with rfl | hw
    · exact hv
    · exact hvs w hw
  fun_induction readElements value first s with
  | case2 first s before rest h₁ _ rest₁ h₂ _ =>
    intro read hread
    cases hread
    exact hnil
  | case5 first s before rest h₁ _ _ v rest₁ h₂ hread₁ behind rest₂ h₃ _ _ element rest₃ h₅ _ _ ih =>
    refine Read.All.within (ih.map fun parts hparts => ?_) _
    exact hcons ((hvalue _ _ hread₁).withDecor _) hparts
  | case6 first s before rest h₁ _ _ v rest₁ h₂ hread₁ behind rest₂ h₃ _ _ element _ rest₃ h₅ _ =>
    intro read hread
    cases hread
    exact hcons ((hvalue _ _ hread₁).withDecor _) hnil
  | _ =>
    intro read hread
    cases hread

theorem readInlineEntry_neat (s : List Char) :
    (readInlineEntry value s).All fun e => e.2.2.Neat := by
  intro read hread
  unfold readInlineEntry at hread
  split at hread
  · cases hread
  · split at hread
    · dsimp only at hread
      split at hread
      · cases hread
      · rename_i v rest₂ h₃ hread₁
        cases hread
        exact (hvalue _ _ hread₁).withDecor _
    · cases hread

theorem readInlineEntries_neat {entries : List (Key × Value)} {s : List Char}
    (h : NeatEntries Value.Neat entries) :
    (readInlineEntries value entries s).All (NeatEntries Value.Neat) := by
  fun_induction readInlineEntries value entries s with
  | case3 entries s path key v rest h₁ hentry entries' hadd rest₁ h₂ _ _ ih =>
    exact (ih (neat_addInline h (readInlineEntry_neat hvalue _ _ hentry) hadd)).within _
  | case4 entries s path key v rest h₁ hentry entries' hadd _ rest₁ h₂ _ =>
    intro read hread
    cases hread
    exact neat_addInline h (readInlineEntry_neat hvalue _ _ hentry) hadd
  | _ =>
    intro read hread
    cases hread

theorem readInlineTable_neat (s : List Char) : (readInlineTable value s).All Value.Neat := by
  unfold readInlineTable
  dsimp only
  split
  · intro read hread
    cases hread
    exact Value.neat_table.2 (neatEntries_nil _)
  · exact (readInlineEntries_neat hvalue (neatEntries_nil _)).map fun _ h => Value.neat_table.2 h

end Readers

theorem readValue_neat (depth : ℕ) (s : List Char) : (readValue depth s).All Value.Neat := by
  have hscalar : ∀ t : List Char, Read.All Value.Neat ((readScalar t).map fun read =>
      .scalar read.1 (textOf read.2) .usual) := fun t =>
    Read.All.map (P := fun _ => True) (fun _ _ => trivial) fun _ _ => .scalar _ _ _
  induction depth generalizing s with
  | zero => exact hscalar s
  | succ depth ih =>
    unfold readValue
    split
    · exact ((readElements_neat ih true _).map fun _ h => .array _ _ _ h).within _
    · exact (readInlineTable_neat ih _).within _
    · exact hscalar _

/-! ### Lines -/

/-- The value of a line that is an entry is neat. -/
def Line.Neat : Line → Prop
  | .header _ _ _ _ => True
  | .entry _ _ v => v.Neat

theorem readHeader_neat (before : String) (s : List Char) :
    (readHeader before s).All Line.Neat := by
  intro read hread
  unfold readHeader at hread
  split at hread
  · split at hread
    · split at hread
      · cases hread
      · cases hread
        trivial
    · cases hread
  · split at hread
    · cases hread
    · split at hread
      · cases hread
      · cases hread
        trivial

theorem readEntry_neat (before : String) (s : List Char) :
    (readEntry before s).All Line.Neat := by
  intro read hread
  unfold readEntry at hread
  split at hread
  · cases hread
  · split at hread
    · dsimp only at hread
      split at hread
      · cases hread
      · rename_i v rest₂ h₃ hvalue
        split at hread
        · cases hread
        · cases hread
          exact (readValue_neat _ _ _ hvalue).withDecor _
    · cases hread

theorem readLines_neat {before ending : String} {s : List Char} {lines : List Line}
    (h : readLines before s = some (lines, ending)) : ∀ line ∈ lines, line.Neat := by
  -- on the length of the text that is left: what is read of it leaves less
  induction hn : s.length using Nat.strongRecOn generalizing before s lines ending with
  | ind n ih =>
    subst hn
    have hspaces := length_afterSpaces_le s
    have hcomment := length_afterComment_le (afterSpaces s)
    have hnil : ∀ line ∈ ([] : List Line), line.Neat := fun _ hline => by cases hline
    unfold readLines at h
    dsimp only at h
    split at h
    · cases h
      exact hnil
    · rename_i c t hrest
      rw [hrest] at hspaces hcomment
      split at h
      · split at h
        · cases h
          exact hnil
        · rename_i d u h₂ hline
          split at h
          · cases h
          · rename_i rest h₃ _
            exact ih rest.length (by omega) h rfl
      · split at h
        · split at h
          · cases h
          · rename_i rest h₃ _
            exact ih rest.length (by omega) h rfl
        · split at h
          · cases h
          · rename_i line rest h₃ hread
            split at h
            · cases h
            · rename_i more ending' hmore
              cases h
              dsimp only at h₃
              have hneat : line.Neat := by
                split at hread
                · exact (readHeader_neat _ t).within _ _ hread
                · exact readEntry_neat _ _ _ hread
              intro other hother
              rcases List.mem_cons.1 hother with rfl | hother
              · exact hneat
              · exact ih rest.length (by omega) hmore rfl other hother

theorem neat_of_sectionsOf {lines : List Line} (h : ∀ line ∈ lines, line.Neat) :
    (∀ e ∈ (sectionsOf lines).1, e.2.2.Neat) ∧
      ∀ s ∈ (sectionsOf lines).2, ∀ e ∈ s.entries, e.2.2.Neat := by
  induction lines with
  | nil => exact ⟨fun e he => (by cases he), fun s hs => (by cases hs)⟩
  | cons line lines ih =>
    obtain ⟨hentries, hsections⟩ := ih fun line hline => h line (List.mem_cons_of_mem _ hline)
    have hline := h line List.mem_cons_self
    cases line with
    | header double path key decor =>
      refine ⟨fun e he => (by cases he), fun s hs => ?_⟩
      rcases List.mem_cons.1 hs with rfl | hs
      · exact hentries
      · exact hsections s hs
    | entry path key v =>
      refine ⟨fun e he => ?_, hsections⟩
      rcases List.mem_cons.1 he with rfl | he
      · exact hline
      · exact hentries e he

/-- **Every document that is read has different names in its tables.** -/
theorem neat_of_parse {text : String} {document : Document} (h : parse text = some document) :
    document.root.Neat := by
  unfold parse at h
  split at h
  · cases h
  · rename_i lines ending hlines
    obtain ⟨hvalues, hsections⟩ := neat_of_sectionsOf (readLines_neat hlines)
    split at h
    rename_i entries sections heq
    rw [heq] at hvalues hsections
    split at h
    · cases h
    · rename_i root hentries
      obtain ⟨root', hsections', rfl⟩ := Option.map_eq_some_iff.1 h
      exact neat_of_addSections
        (Table.neat_of_addEntries (Table.neat_empty .header) hvalues hentries) hsections hsections'

end Ingot.Toml
