import Mathlib.Data.List.Forall2
import Mathlib.Data.List.Pairwise
import Ingot.Proofs.Outcome
import Ingot.Proofs.Toml.Distinct
import Ingot.Toml.Printing
import Ingot.Toml.Schema

/-!
# The same data in another order

The entries of a table say the same in whatever order they stand; `Data.Same` is this sameness,
at every depth. A document that is printed may be read back with its entries in another order,
since the values of a table are printed before the tables inside of it. For records that is no
matter: **what a record is read as does not hang on the order of entries** (`Record.read_same`),
as long as its fields can be read in any order and no name is there twice.
-/

namespace Ingot.Toml

/-! ### Sameness -/

/-- Data that say the same, but for the order of the entries in tables. -/
inductive Data.Same : Data → Data → Prop
  /-- The same value without parts. -/
  | scalar (s : Scalar) : Same (.scalar s) (.scalar s)
  /-- Elements that say the same, one by one. -/
  | array {xs ys : List Data} (h : List.Forall₂ Same xs ys) : Same (.array xs) (.array ys)
  /-- Entries of which each says the same under the same name, in another order. -/
  | table {es among es' : List (String × Data)}
    (names : es.map Prod.fst = among.map Prod.fst)
    (values : List.Forall₂ Same (es.map Prod.snd) (among.map Prod.snd))
    (order : among.Perm es') : Same (.table es) (.table es')

mutual

theorem Data.Same.refl : (d : Data) → d.Same d
  | .scalar s => .scalar s
  | .array elements => .array (sameElements elements)
  | .table entries => .table rfl (sameEntries entries) (.refl _)

theorem sameElements : (elements : List Data) → List.Forall₂ Data.Same elements elements
  | [] => .nil
  | d :: elements => .cons (Data.Same.refl d) (sameElements elements)

theorem sameEntries : (entries : List (String × Data)) →
    List.Forall₂ Data.Same (entries.map Prod.snd) (entries.map Prod.snd)
  | [] => .nil
  | (_, d) :: entries => .cons (Data.Same.refl d) (sameEntries entries)

end

theorem exists_mem_of_forall₂ {es among : List (String × Data)}
    (names : es.map Prod.fst = among.map Prod.fst)
    (values : List.Forall₂ Data.Same (es.map Prod.snd) (among.map Prod.snd)) {e : String × Data}
    (he : e ∈ es) : ∃ data, (e.1, data) ∈ among ∧ e.2.Same data := by
  induction es generalizing among with
  | nil => cases he
  | cons first es ih =>
    cases among with
    | nil => cases names
    | cons other among =>
      obtain ⟨hname, hnames⟩ := List.cons.inj names
      obtain ⟨_⟩ | ⟨hvalue, hvalues⟩ := values
      rcases List.mem_cons.1 he with rfl | he
      · exact ⟨other.2, List.mem_cons.2 (.inl (Prod.ext hname rfl)), hvalue⟩
      · obtain ⟨data, hmem, hsame⟩ := ih hnames hvalues he
        exact ⟨data, List.mem_cons_of_mem _ hmem, hsame⟩

/-- An entry of a table is there under its name in one that says the same. -/
theorem Data.Same.exists_mem {es es' : List (String × Data)}
    (h : (Data.table es).Same (.table es')) {e : String × Data} (he : e ∈ es) :
    ∃ data, (e.1, data) ∈ es' ∧ e.2.Same data := by
  obtain ⟨_⟩ | ⟨_⟩ | ⟨names, values, order⟩ := h
  obtain ⟨data, hmem, hsame⟩ := exists_mem_of_forall₂ names values he
  exact ⟨data, order.mem_iff.1 hmem, hsame⟩

/-- What a document that is printed is read back as says the same. -/
def Document.ReadsBack (d : Document) : Prop :=
  ∃ d', parse d.text = some d' ∧ (Data.table d.data).Same (.table d'.data)

/-! ### Deciding whether data are the same -/

mutual

/-- Whether data are the same, in the same order. -/
def Data.decideEq : (d d' : Data) → Decidable (d = d')
  | .scalar s, .scalar s' => decidable_of_iff (s = s') (by rw [Data.scalar.injEq])
  | .array xs, .array ys =>
    haveI := decideEqElements xs ys
    decidable_of_iff (xs = ys) (by rw [Data.array.injEq])
  | .table xs, .table ys =>
    haveI := decideEqEntries xs ys
    decidable_of_iff (xs = ys) (by rw [Data.table.injEq])
  | .scalar _, .array _ => isFalse Data.noConfusion
  | .scalar _, .table _ => isFalse Data.noConfusion
  | .array _, .scalar _ => isFalse Data.noConfusion
  | .array _, .table _ => isFalse Data.noConfusion
  | .table _, .scalar _ => isFalse Data.noConfusion
  | .table _, .array _ => isFalse Data.noConfusion

/-- Whether rows of data are the same. -/
def decideEqElements : (xs ys : List Data) → Decidable (xs = ys)
  | [], [] => isTrue rfl
  | d :: xs, d' :: ys =>
    haveI := Data.decideEq d d'
    haveI := decideEqElements xs ys
    decidable_of_iff (d = d' ∧ xs = ys) (by rw [List.cons.injEq])
  | [], _ :: _ => isFalse (List.cons_ne_nil _ _).symm
  | _ :: _, [] => isFalse (List.cons_ne_nil _ _)

/-- Whether entries are the same, in the same order. -/
def decideEqEntries : (xs ys : List (String × Data)) → Decidable (xs = ys)
  | [], [] => isTrue rfl
  | (name, d) :: xs, (name', d') :: ys =>
    haveI := Data.decideEq d d'
    haveI := decideEqEntries xs ys
    decidable_of_iff ((name = name' ∧ d = d') ∧ xs = ys) (by rw [List.cons.injEq, Prod.mk.injEq])
  | [], _ :: _ => isFalse (List.cons_ne_nil _ _).symm
  | _ :: _, [] => isFalse (List.cons_ne_nil _ _)

end

instance : DecidableEq Data := Data.decideEq

/-! ### Data with different names -/

/-- The names in all tables of some data are different. -/
inductive Data.Neat : Data → Prop
  /-- A value without parts has no tables. -/
  | scalar (s : Scalar) : Neat (.scalar s)
  /-- The tables of an array are those of its elements. -/
  | array {elements : List Data} (inner : ∀ d ∈ elements, Neat d) : Neat (.array elements)
  /-- A table and those inside of it. -/
  | table {entries : List (String × Data)} (names : (entries.map Prod.fst).Nodup)
    (inner : ∀ e ∈ entries, Neat e.2) : Neat (.table entries)

/-- What named entries say. -/
def named {α : Type} (f : α → Data) (entries : List (Key × α)) : List (String × Data) :=
  entries.map fun e => (e.1.name, f e.2)

theorem dataOfItems_eq (entries : List (Key × Item)) :
    dataOfItems entries = named Item.data entries := by
  induction entries with
  | nil => rfl
  | cons e entries ih => exact congrArg ((e.1.name, e.2.data) :: ·) ih

theorem dataOfEntries_eq (entries : List (Key × Value)) :
    dataOfEntries entries = named Value.data entries := by
  induction entries with
  | nil => rfl
  | cons e entries ih => exact congrArg ((e.1.name, e.2.data) :: ·) ih

theorem dataOfValues_eq (elements : List Value) : dataOfValues elements = elements.map Value.data := by
  induction elements with
  | nil => rfl
  | cons v elements ih => exact congrArg (v.data :: ·) ih

theorem dataOfTables_eq (elements : List (Layout × List (Key × Item))) :
    dataOfTables elements = elements.map fun t => .table (dataOfItems t.2) := by
  induction elements with
  | nil => rfl
  | cons t elements ih => exact congrArg (.table (dataOfItems t.2) :: ·) ih

theorem named_append {α : Type} (f : α → Data) (xs ys : List (Key × α)) :
    named f (xs ++ ys) = named f xs ++ named f ys := List.map_append

theorem neat_named {α : Type} {f : α → Data} {entries : List (Key × α)}
    (names : Distinct entries) (inner : ∀ e ∈ entries, (f e.2).Neat) :
    (Data.table (named f entries)).Neat := by
  refine .table ?_ fun x hx => ?_
  · rw [named, List.map_map]
    exact names
  · obtain ⟨e, he, rfl⟩ := List.mem_map.1 hx
    exact inner e he

theorem Value.Neat.data {v : Value} (h : v.Neat) : v.data.Neat := by
  induction h with
  | scalar scalar written decor => exact .scalar scalar
  | array comma ending decor inner ih =>
    rw [Value.data, dataOfValues_eq]
    refine .array fun d hd => ?_
    obtain ⟨v, hv, rfl⟩ := List.mem_map.1 hd
    exact ih v hv
  | table dotted opening decor names inner ih =>
    rw [Value.data, dataOfEntries_eq]
    exact neat_named names ih

theorem Item.Neat.data {item : Item} (h : item.Neat) : item.data.Neat := by
  induction h with
  | value h => exact h.data
  | table layout names inner ih =>
    rw [Item.data, dataOfItems_eq]
    exact neat_named names ih
  | tables names inner ih =>
    rw [Item.data, dataOfTables_eq]
    refine .array fun d hd => ?_
    obtain ⟨t, ht, rfl⟩ := List.mem_map.1 hd
    rw [dataOfItems_eq]
    exact neat_named (names t ht) (ih t ht)

/-- **The data of every document that is read have different names in their tables.** -/
theorem neat_data_of_parse {text : String} {d : Document} (h : parse text = some d) :
    (Data.table d.data).Neat := by
  rw [Document.data, dataOfItems_eq]
  have hneat := neat_of_parse h
  exact neat_named hneat.names fun e he => (hneat.inner e he).data

/-! ### Single data -/

/-- A reader that reads data alike that say the same and have no name twice. -/
def RespectsOrder {α : Type} (read : Data → Except Mismatch α) : Prop :=
  ∀ d d' a, d.Same d' → d'.Neat → read d = .ok a → read d' = .ok a

theorem asText_same (expected : String) : RespectsOrder (Data.asText expected) := by
  intro d d' text h _ hread
  cases h with
  | scalar s => exact hread
  | array h => cases hread
  | table names values order => cases hread

theorem asNat_same (expected : String) : RespectsOrder (Data.asNat expected) := by
  intro d d' n h _ hread
  cases h with
  | scalar s => exact hread
  | array h => cases hread
  | table names values order => cases hread

theorem asBool_same : RespectsOrder Data.asBool := by
  intro d d' b h _ hread
  cases h with
  | scalar s => exact hread
  | array h => cases hread
  | table names values order => cases hread

theorem RespectsOrder.map {α β : Type} {read : Data → Except Mismatch α} (h : RespectsOrder read)
    (f : α → β) : RespectsOrder fun d => (read d).map f := by
  intro d d' b hsame hneat hread
  obtain ⟨a, ha, rfl⟩ := of_except_map_ok hread
  dsimp only
  rw [h d d' a hsame hneat ha]
  rfl

theorem asPath_same : RespectsOrder Data.asPath := (asText_same "path string").map Raw.ofText

theorem mapM_same {α : Type} {read : Data → Except Mismatch α} (hread : RespectsOrder read)
    {xs ys : List Data} {as : List α} (h : List.Forall₂ Data.Same xs ys)
    (hneat : ∀ d ∈ ys, d.Neat) (hxs : xs.mapM read = .ok as) : ys.mapM read = .ok as := by
  induction h generalizing as with
  | nil => exact hxs
  | cons hsame hrest ih =>
    rw [List.mapM_cons] at hxs ⊢
    obtain ⟨a, ha, hxs⟩ := of_except_bind_ok hxs
    obtain ⟨more, hmore, hxs⟩ := of_except_bind_ok hxs
    rw [hread _ _ _ hsame (hneat _ List.mem_cons_self) ha,
      ih (fun d hd => hneat d (List.mem_cons_of_mem _ hd)) hmore]
    exact hxs

theorem asList_same {α : Type} {read : Data → Except Mismatch α} (hread : RespectsOrder read) :
    RespectsOrder (Data.asList read) := by
  intro d d' as h hneat hlist
  cases h with
  | scalar s => cases hlist
  | array h =>
    cases hneat with
    | array inner => exact mapM_same hread h inner hlist
  | table names values order => cases hlist

/-- Named one by one in the same way, data that say the same go on doing so. -/
theorem zip_same (names : List String) {xs ys : List Data} (h : List.Forall₂ Data.Same xs ys) :
    (names.zip xs).map Prod.fst = (names.zip ys).map Prod.fst ∧
      List.Forall₂ Data.Same ((names.zip xs).map Prod.snd) ((names.zip ys).map Prod.snd) := by
  induction h generalizing names with
  | nil => cases names <;> exact ⟨rfl, .nil⟩
  | cons hsame hrest ih =>
    cases names with
    | nil => exact ⟨rfl, .nil⟩
    | cons name names =>
      obtain ⟨hnames, hvalues⟩ := ih names
      exact ⟨congrArg (name :: ·) hnames, .cons hsame hvalues⟩

/-! ### Records -/

namespace Record

variable {α : Type}

/-- Two fields that can be read in either order. -/
def Commute (r : Record α) (name₁ name₂ : String) : Prop :=
  ∀ d₁ d₂ a b, (r.field name₁ d₁ a).bind (r.field name₂ d₂) = .ok b ↔
    (r.field name₂ d₂ a).bind (r.field name₁ d₁) = .ok b

theorem Commute.symm {r : Record α} {name₁ name₂ : String} (h : r.Commute name₁ name₂) :
    r.Commute name₂ name₁ := fun d₁ d₂ a b => (h d₂ d₁ a b).symm

/-- Fields that set different parts of a record to what they read can be read in either order. -/
theorem commute_of_sets {r : Record α} {name₁ name₂ : String} {β γ : Type}
    {read₁ : Data → Except Mismatch β} {read₂ : Data → Except Mismatch γ} {set₁ : β → α → α}
    {set₂ : γ → α → α} (h₁ : ∀ d a, r.field name₁ d a = (read₁ d).map (set₁ · a))
    (h₂ : ∀ d a, r.field name₂ d a = (read₂ d).map (set₂ · a))
    (hsets : ∀ x y a, set₂ y (set₁ x a) = set₁ x (set₂ y a)) : r.Commute name₁ name₂ := by
  intro d₁ d₂ a b
  have hfirst : r.field name₁ d₁ = fun a => (read₁ d₁).map (set₁ · a) := funext (h₁ d₁)
  have hsecond : r.field name₂ d₂ = fun a => (read₂ d₂).map (set₂ · a) := funext (h₂ d₂)
  rw [hfirst, hsecond]
  cases read₁ d₁ with
  | error mismatch =>
    cases read₂ d₂ with
    | error mismatch' => simp [Except.map, Except.bind]
    | ok y => simp [Except.map, Except.bind]
  | ok x =>
    cases read₂ d₂ with
    | error mismatch => simp [Except.map, Except.bind]
    | ok y => simp [Except.map, Except.bind, hsets]

/-- A record of which each field reads data alike that say the same, and of which the fields can
be read in any order. -/
structure Orderly (r : Record α) : Prop where
  respects : ∀ name ∈ r.fields, ∀ a, RespectsOrder fun d => r.field name d a
  commutes : r.fields.Pairwise r.Commute

theorem readFields_append (r : Record α) (xs ys : List (String × Data)) (a : α) :
    r.readFields (xs ++ ys) a = (r.readFields xs a).bind (r.readFields ys) := by
  induction xs generalizing a with
  | nil => rfl
  | cons x xs ih =>
    obtain ⟨name, data⟩ := x
    rw [List.cons_append, Record.readFields, Record.readFields]
    split
    · cases r.field name data a with
      | error mismatch => rfl
      | ok a => exact ih a
    · exact ih a

theorem readFields_cons_ok {r : Record α} {e : String × Data} {xs : List (String × Data)}
    {a b : α} : r.readFields (e :: xs) a = .ok b ↔
      ∃ a', (if r.fields.contains e.1 then r.field e.1 e.2 a else .ok a) = .ok a' ∧
        r.readFields xs a' = .ok b := by
  obtain ⟨name, data⟩ := e
  rw [readFields]
  by_cases hname : r.fields.contains name = true
  · simp only [if_pos hname]
    cases r.field name data a with
    | error mismatch => simp
    | ok a' => simp
  · simp only [if_neg hname]
    simp

theorem ofTable_eq_ok {r : Record α} {es : List (String × Data)} {a : α} :
    r.ofTable es = .ok a ↔ r.readFields es r.start = .ok a ∧
      ∀ name ∈ r.required, ∃ e ∈ es, e.1 = name := by
  have hrequired : (∀ name ∈ r.required, ∃ e ∈ es, e.1 = name) ↔
      (r.required.find? fun name => !es.any fun e => e.1 == name) = none := by
    simp [List.find?_eq_none]
  rw [hrequired]
  unfold ofTable
  cases r.readFields es r.start with
  | error mismatch => simp
  | ok b =>
    dsimp only
    cases r.required.find? fun name => !es.any fun e => e.1 == name with
    | none => simp
    | some name => simp

variable {r : Record α} (hr : r.Orderly)

include hr

theorem readFields_same {xs ys : List (String × Data)} (names : xs.map Prod.fst = ys.map Prod.fst)
    (values : List.Forall₂ Data.Same (xs.map Prod.snd) (ys.map Prod.snd))
    (hneat : ∀ e ∈ ys, e.2.Neat) {a b : α} (hread : r.readFields xs a = .ok b) :
    r.readFields ys a = .ok b := by
  induction xs generalizing ys a with
  | nil =>
    obtain rfl := List.map_eq_nil_iff.1 names.symm
    exact hread
  | cons x xs ih =>
    cases ys with
    | nil => cases names
    | cons y ys =>
      obtain ⟨hname, names⟩ := List.cons.inj names
      cases values with
      | cons hsame values =>
        obtain ⟨a', hfirst, hrest⟩ := readFields_cons_ok.1 hread
        have hys := ih names values (fun e he => hneat e (List.mem_cons_of_mem _ he)) hrest
        refine readFields_cons_ok.2 ⟨a', ?_, hys⟩
        rw [← hname]
        split at hfirst
        · rename_i hfield
          rw [if_pos hfield]
          exact hr.respects _ (List.contains_iff_mem.1 hfield) _ _ _ _ hsame (hneat y List.mem_cons_self)
            hfirst
        · rename_i hfield
          rw [if_neg hfield]
          exact hfirst

/-- Two fields of different names are read in either order. -/
theorem readFields_swap {x y : String × Data} {xs : List (String × Data)} (hne : x.1 ≠ y.1)
    {a b : α} (hread : r.readFields (x :: y :: xs) a = .ok b) :
    r.readFields (y :: x :: xs) a = .ok b := by
  obtain ⟨a₁, hx, hread⟩ := readFields_cons_ok.1 hread
  obtain ⟨a₂, hy, hrest⟩ := readFields_cons_ok.1 hread
  suffices h : ∃ a', (if r.fields.contains y.1 then r.field y.1 y.2 a else .ok a) = .ok a' ∧
      (if r.fields.contains x.1 then r.field x.1 x.2 a' else .ok a') = .ok a₂ by
    obtain ⟨a', hy', hx'⟩ := h
    exact readFields_cons_ok.2 ⟨a', hy', readFields_cons_ok.2 ⟨a₂, hx', hrest⟩⟩
  by_cases hxfield : r.fields.contains x.1 = true
  · by_cases hyfield : r.fields.contains y.1 = true
    · rw [if_pos hxfield] at hx
      rw [if_pos hyfield] at hy ⊢
      have hboth : (r.field x.1 x.2 a).bind (r.field y.1 y.2) = .ok a₂ := by rw [hx]; exact hy
      have hsymm : Std.Symm r.Commute := ⟨fun _ _ => Commute.symm⟩
      have hcommute := hr.commutes.forall (List.contains_iff_mem.1 hxfield)
        (List.contains_iff_mem.1 hyfield) hne
      obtain ⟨a', hfirst, hsecond⟩ := of_except_bind_ok ((hcommute _ _ _ _).1 hboth)
      exact ⟨a', hfirst, by rw [if_pos hxfield]; exact hsecond⟩
    · rw [if_neg hyfield] at hy ⊢
      cases hy
      exact ⟨a, rfl, hx⟩
  · rw [if_neg hxfield] at hx
    cases hx
    exact ⟨a₂, hy, if_neg hxfield⟩

theorem readFields_perm {xs ys : List (String × Data)} (h : xs.Perm ys)
    (hnames : (xs.map Prod.fst).Nodup) {a b : α} (hread : r.readFields xs a = .ok b) :
    r.readFields ys a = .ok b := by
  induction h generalizing a with
  | nil => exact hread
  | cons x h ih =>
    obtain ⟨a', hfirst, hrest⟩ := readFields_cons_ok.1 hread
    exact readFields_cons_ok.2 ⟨a', hfirst, ih (List.nodup_cons.1 hnames).2 hrest⟩
  | swap x y l =>
    have hne : y.1 ≠ x.1 := fun heq => (List.nodup_cons.1 hnames).1 (by simp [heq])
    exact readFields_swap hr hne hread
  | trans h₁ h₂ ih₁ ih₂ =>
    exact ih₂ ((h₁.map Prod.fst).nodup_iff.1 hnames) (ih₁ hnames hread)

theorem ofTable_same {es es' : List (String × Data)} {a : α}
    (h : (Data.table es).Same (.table es')) (hneat : (Data.table es').Neat)
    (hread : r.ofTable es = .ok a) : r.ofTable es' = .ok a := by
  obtain ⟨_⟩ | ⟨_⟩ | @⟨_, among, _, names, values, order⟩ := h
  obtain ⟨_⟩ | ⟨_⟩ | ⟨hnodup, inner⟩ := hneat
  obtain ⟨hfields, hrequired⟩ := ofTable_eq_ok.1 hread
  have hnodup' : (among.map Prod.fst).Nodup := (order.map Prod.fst).nodup_iff.2 hnodup
  have hamong := readFields_same hr names values (fun e he => inner e (order.subset he)) hfields
  refine ofTable_eq_ok.2 ⟨readFields_perm hr order hnodup' hamong, fun name hname => ?_⟩
  obtain ⟨e, he, rfl⟩ := hrequired name hname
  have hmem : e.1 ∈ es'.map Prod.fst := by
    rw [← (order.map Prod.fst).mem_iff, ← names]
    exact List.mem_map_of_mem he
  exact List.mem_map.1 hmem

theorem ofArray_same {xs ys : List Data} {a : α} (h : List.Forall₂ Data.Same xs ys)
    (hneat : ∀ d ∈ ys, d.Neat) (hread : r.ofArray xs = .ok a) : r.ofArray ys = .ok a := by
  obtain ⟨hnames, hvalues⟩ := zip_same r.fields h
  have hinner : ∀ e ∈ r.fields.zip ys, e.2.Neat := fun e he => hneat _ (List.of_mem_zip he).2
  unfold ofArray at hread ⊢
  rw [← h.length_eq]
  split at hread
  · cases hread
  · rename_i b hfields
    rw [readFields_same hr hnames hvalues hinner hfields]
    exact hread

/-- **What a record is read as does not hang on the order of entries.** -/
theorem read_same : RespectsOrder r.read := by
  intro d d' a h hneat hread
  cases h with
  | scalar s => exact hread
  | array h =>
    cases hneat with
    | array inner => exact ofArray_same hr h inner hread
  | table names values order => exact ofTable_same hr (.table names values order) hneat hread

end Record

end Ingot.Toml
