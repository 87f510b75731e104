import Ingot.Proofs.Toml.Same

/-!
# Records read by the names of their fields

A table is read entry by entry, in the order in which the entries stand. Since the fields of a
record do not look at each other and no name is there twice, it comes to the same to **look up
one field after the other** (`Record.readFields_byName`). So what a record says of a field hangs
on the entry of that name alone.
-/

namespace Ingot.Toml

/-- What entries state under a name; the outer `none` stands for data that cannot be read. -/
def stated {β : Type} (read : Data → Except Mismatch β) (name : String)
    (entries : List (String × Data)) : Option (Option β) :=
  match entries.lookup name with
  | none => some none
  | some data => (read data).toOption.map some

namespace Record

variable {α : Type}

/-- The entries of some names, in the order of the names. -/
def pick (names : List String) (entries : List (String × Data)) : List (String × Data) :=
  names.filterMap fun name => (entries.lookup name).map (name, ·)

theorem mem_pick {names : List String} {entries : List (String × Data)}
    (h : (entries.map Prod.fst).Nodup) {e : String × Data} :
    e ∈ pick names entries ↔ e.1 ∈ names ∧ e ∈ entries := by
  simp only [pick, List.mem_filterMap, Option.map_eq_some_iff]
  constructor
  · rintro ⟨name, hname, data, hdata, rfl⟩
    exact ⟨hname, (lookup_eq_some_iff_mem h).1 hdata⟩
  · rintro ⟨hname, he⟩
    exact ⟨e.1, hname, e.2, (lookup_eq_some_iff_mem h).2 he, rfl⟩

theorem nodup_pick {names : List String} (hnames : names.Nodup) (entries : List (String × Data)) :
    (pick names entries).Nodup := by
  refine hnames.filterMap fun name name' e he he' => ?_
  obtain ⟨data, _, rfl⟩ := Option.map_eq_some_iff.1 he
  obtain ⟨data', _, heq⟩ := Option.map_eq_some_iff.1 he'
  exact (congrArg Prod.fst heq).symm

/-- Entries whose names are no fields are left out. -/
theorem readFields_filter (r : Record α) (entries : List (String × Data)) (a : α) :
    r.readFields (entries.filter fun e => r.fields.contains e.1) a = r.readFields entries a := by
  induction entries generalizing a with
  | nil => rfl
  | cons e entries ih =>
    obtain ⟨name, data⟩ := e
    rw [readFields, List.filter_cons]
    by_cases hname : r.fields.contains name = true
    · rw [if_pos hname, if_pos hname, readFields, if_pos hname]
      cases r.field name data a with
      | error mismatch => rfl
      | ok a' => exact ih a'
    · rw [if_neg hname, if_neg hname]
      exact ih a

/-- **To read entries in their order comes to the same as to read the fields in theirs.** -/
theorem readFields_byName {r : Record α} (hr : r.Orderly) (hfields : r.fields.Nodup)
    {entries : List (String × Data)} (hnames : (entries.map Prod.fst).Nodup) (a : α) :
    (r.readFields entries a).toOption = (r.readFields (pick r.fields entries) a).toOption := by
  have hkept : ((entries.filter fun e => r.fields.contains e.1).map Prod.fst).Nodup :=
    hnames.sublist (List.filter_sublist.map Prod.fst)
  have hperm : (entries.filter fun e => r.fields.contains e.1).Perm (pick r.fields entries) := by
    refine (List.perm_ext_iff_of_nodup hkept.of_map (nodup_pick hfields entries)).2 fun e => ?_
    rw [mem_pick hnames, List.mem_filter, List.contains_iff_mem, and_comm]
  rw [← readFields_filter]
  refine Option.ext fun b => ?_
  rw [toOption_eq_some_iff, toOption_eq_some_iff]
  refine ⟨readFields_perm hr hperm hkept, readFields_perm hr hperm.symm ?_⟩
  exact (hperm.map Prod.fst).nodup_iff.1 hkept

/-- The first of the fields that are looked up, and then the others. -/
theorem readFields_pick_cons {β : Type} (r : Record α) {name : String} (hname : name ∈ r.fields)
    {read : Data → Except Mismatch β} {set : β → α → α}
    (hset : ∀ d a, r.field name d a = (read d).map (set · a)) (names : List String)
    (entries : List (String × Data)) (a : α) :
    (r.readFields (pick (name :: names) entries) a).toOption =
      (stated read name entries).bind fun b? =>
        (r.readFields (pick names entries) (b?.elim a (set · a))).toOption := by
  unfold pick stated
  rw [List.filterMap_cons]
  cases entries.lookup name with
  | none => rfl
  | some data =>
    rw [Option.map_some]
    dsimp only
    rw [readFields, if_pos (List.contains_iff_mem.2 hname), hset]
    cases read data with
    | error mismatch => rfl
    | ok b => rfl

/-- The entries of data that can be a record: those of a table, or the elements of an array
under the names of the fields. A date or a time has none. -/
def entries? (r : Record α) : Data → Option (List (String × Data))
  | .table entries => some entries
  | .array elements => some (r.fields.zip elements)
  | .scalar .moment => some []
  | .scalar _ => none

theorem map_fst_zip_sublist (names : List String) (elements : List Data) :
    ((names.zip elements).map Prod.fst).Sublist names := by
  induction names generalizing elements with
  | nil => exact .slnil
  | cons name names ih =>
    cases elements with
    | nil => exact List.nil_sublist _
    | cons d elements => exact (ih elements).cons_cons name

theorem nodup_of_entries? {r : Record α} (hfields : r.fields.Nodup) {d : Data} (hd : d.Neat)
    {entries : List (String × Data)} (h : r.entries? d = some entries) :
    (entries.map Prod.fst).Nodup := by
  cases hd with
  | scalar s =>
    cases s <;> cases h
    exact List.nodup_nil
  | array inner =>
    cases h
    exact hfields.sublist (map_fst_zip_sublist _ _)
  | table names inner =>
    cases h
    exact names

/-- A record that needs no field is read when its entries can be read. -/
theorem read_eq_readFields {r : Record α} (hrequired : r.required = []) (d : Data) :
    (r.read d).toOption =
      (r.entries? d).bind fun entries => (r.readFields entries r.start).toOption := by
  have htable : ∀ entries, r.ofTable entries = r.readFields entries r.start := by
    intro entries
    unfold ofTable
    rw [hrequired]
    cases r.readFields entries r.start with
    | error mismatch => rfl
    | ok a => rfl
  have harray : ∀ elements, r.ofArray elements = r.readFields (r.fields.zip elements) r.start := by
    intro elements
    unfold ofArray
    rw [hrequired]
    cases r.readFields (r.fields.zip elements) r.start with
    | error mismatch => rfl
    | ok a =>
      have hnone : ∀ e ∈ r.fields.zipIdx,
          ¬ (elements.length ≤ e.2 && ([] : List String).contains e.1) = true := by simp
      rw [List.find?_eq_none.2 hnone]
  cases d with
  | scalar s =>
    cases s with
    | moment => exact congrArg Except.toOption (htable [])
    | text content => rfl
    | integer value => rfl
    | float value => rfl
    | boolean value => rfl
  | array elements => exact congrArg Except.toOption (harray elements)
  | table entries => exact congrArg Except.toOption (htable entries)

end Record

end Ingot.Toml
