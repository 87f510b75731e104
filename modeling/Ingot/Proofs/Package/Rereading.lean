import Ingot.Proofs.Package.Counter

/-!
# Manifests that are read again

The fields of a manifest do not look at each other, so they can be read in any order. Hence
**what is written after a build is read as the same manifest with one build more**, if the
document that is written is read back as what it says, be its entries in another order
(`CountsOneMore.parse_of_readsBack`).
-/

namespace Ingot.Package

open Toml

/-! ### Fields in any order -/

theorem dependencyRecord_orderly : dependencyRecord.Orderly where
  respects := by
    simp only [dependencyRecord, List.forall_mem_cons]
    refine ⟨fun d => ?_, fun d => ?_, List.forall_mem_nil _⟩
    · exact (asText_same "a string").map fun s => { d with name := s }
    · exact (asText_same "a string").map fun s => { d with version := s }
  commutes := by
    simp only [dependencyRecord, List.pairwise_cons, List.forall_mem_cons]
    refine ⟨⟨?_, List.forall_mem_nil _⟩, List.forall_mem_nil _, .nil⟩
    exact Record.commute_of_sets (fun _ _ => rfl) (fun _ _ => rfl) fun _ _ _ => rfl

theorem optionsRecord_orderly : optionsRecord.Orderly where
  respects := by
    simp only [optionsRecord, List.forall_mem_cons]
    refine ⟨fun o => ?_, fun o => ?_, fun o => ?_, List.forall_mem_nil _⟩
    · exact asPath_same.map fun s => { o with sourceRoot := some s }
    · exact (asText_same "a string").map fun s => { o with entry := some s }
    · exact (asList_same (asText_same "a string")).map fun xs => { o with exclude := xs }
  commutes := by
    simp only [optionsRecord, List.pairwise_cons, List.forall_mem_cons]
    refine ⟨⟨?_, ?_, List.forall_mem_nil _⟩, ⟨?_, List.forall_mem_nil _⟩, List.forall_mem_nil _, .nil⟩
    all_goals exact Record.commute_of_sets (fun _ _ => rfl) (fun _ _ => rfl) fun _ _ _ => rfl

theorem packageRecord_orderly : packageRecord.Orderly where
  respects := by
    simp only [packageRecord, List.forall_mem_cons]
    refine ⟨fun m => ?_, fun m => ?_, fun m => ?_, fun m => ?_, fun m => ?_, List.forall_mem_nil _⟩
    · exact (asText_same "a string").map fun s => { m with name := s }
    · exact (asText_same "a string").map fun s => { m with description := some s }
    · exact (asText_same "a string").map fun s => { m with version := s }
    · exact (asNat_same "u64").map fun n => { m with build := n }
    · exact (asText_same "a string").map fun s => { m with author := some s }
  commutes := by
    simp only [packageRecord, List.pairwise_cons, List.forall_mem_cons]
    refine ⟨⟨?_, ?_, ?_, ?_, List.forall_mem_nil _⟩, ⟨?_, ?_, ?_, List.forall_mem_nil _⟩,
      ⟨?_, ?_, List.forall_mem_nil _⟩, ⟨?_, List.forall_mem_nil _⟩, List.forall_mem_nil _, .nil⟩
    all_goals exact Record.commute_of_sets (fun _ _ => rfl) (fun _ _ => rfl) fun _ _ _ => rfl

theorem manifestRecord_orderly : manifestRecord.Orderly where
  respects := by
    simp only [manifestRecord, List.forall_mem_cons]
    refine ⟨fun m => ?_, fun m => ?_, fun m => ?_, List.forall_mem_nil _⟩
    · exact (Record.read_same packageRecord_orderly).map fun p =>
        { p with dependencies := m.dependencies, options := m.options }
    · exact (asList_same (Record.read_same dependencyRecord_orderly)).map fun ds =>
        { m with dependencies := ds }
    · exact (Record.read_same optionsRecord_orderly).map fun o => { m with options := some o }
  commutes := by
    simp only [manifestRecord, List.pairwise_cons, List.forall_mem_cons]
    refine ⟨⟨?_, ?_, List.forall_mem_nil _⟩, ⟨?_, List.forall_mem_nil _⟩, List.forall_mem_nil _, .nil⟩
    all_goals exact Record.commute_of_sets (fun _ _ => rfl) (fun _ _ => rfl) fun _ _ _ => rfl

/-! ### Reading what was written -/

/-- The check of a manifest does not look at the counter. -/
theorem check_withBuild (n : ℕ) (m : Manifest) : (m.withBuild n).check = m.check := rfl

/-- **What is written after a build says the manifest with one build more**, if what is printed
of the document is read as the same data. -/
theorem CountsOneMore.parse_of_readsBack {text : String} {m : Manifest} {d d' : Document}
    (hm : Manifest.parse text = .ok m) (h : CountsOneMore m d d') (hback : d'.ReadsBack) :
    Manifest.parse d'.text = .ok (m.withBuild (m.build + 1)) := by
  obtain ⟨_, _, _, hcheck⟩ := Manifest.parse_eq_ok.1 hm
  obtain ⟨d'', hd'', hsame⟩ := hback
  refine Manifest.parse_eq_ok.2 ⟨d'', hd'', ?_, (check_withBuild _ _).trans hcheck⟩
  exact Record.ofTable_same manifestRecord_orderly hsame (neat_data_of_parse hd'') h.manifest

end Ingot.Package
