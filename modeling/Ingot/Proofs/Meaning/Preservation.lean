import Ingot.Proofs.Meaning.Words

/-!
# Compiling preserves meaning

A source text is cut into tokens, read as a tree and lowered to code, and the code is written
as text. **Run by the machine, the text of every function makes the calls of the function and
ends as it does**, for all arguments, all answers to calls and all calls made before
(`compile_preserves`): with the value of the function, or by a fault. In no case is either of
them stuck, so that the text has a meaning wherever the tree has one.
-/

namespace Ingot.Code

open Effect Meaning Machine

/-! ### Parts of a text -/

/-- A text that stands somewhere in another. -/
def IsPart (part whole : String) : Prop := ∃ before behind, whole = before ++ part ++ behind

theorem IsPart.refl (text : String) : IsPart text text := ⟨"", "", by simp⟩

theorem IsPart.append_left {part whole : String} (h : IsPart part whole) (text : String) :
    IsPart part (text ++ whole) := by
  obtain ⟨before, behind, rfl⟩ := h
  exact ⟨text ++ before, behind, by simp only [String.append_assoc]⟩

theorem IsPart.append_right {part whole : String} (h : IsPart part whole) (text : String) :
    IsPart part (whole ++ text) := by
  obtain ⟨before, behind, rfl⟩ := h
  exact ⟨before, behind ++ text, by simp only [String.append_assoc]⟩

theorem IsPart.trans {part middle whole : String} (h : IsPart part middle)
    (h' : IsPart middle whole) : IsPart part whole := by
  obtain ⟨before, behind, rfl⟩ := h
  obtain ⟨before', behind', rfl⟩ := h'
  exact ⟨before' ++ before, behind ++ behind', by simp only [String.append_assoc]⟩

theorem isPart_join {texts : List String} {text : String} (h : text ∈ texts) :
    IsPart text (String.join texts) := by
  induction texts with
  | nil => cases h
  | cons first more ih =>
    rw [String.join_cons]
    rcases List.mem_cons.1 h with rfl | h
    · exact (IsPart.refl text).append_right _
    · exact (ih h).append_left _

/-- The text of a function is a part of that of its module. -/
theorem isPart_text {m : ModuleCode} {c : FunctionCode} (h : c ∈ m.functions) :
    IsPart c.text m.text := by
  have hfirst : IsPart c.text ("\n" ++ c.text) := (IsPart.refl c.text).append_left "\n"
  have hmem : "\n" ++ c.text ∈ m.functions.map fun f => "\n" ++ f.text :=
    List.mem_map_of_mem (f := fun f : FunctionCode => "\n" ++ f.text) h
  have hlast := (hfirst.trans (isPart_join hmem)).append_left
    s!"; ModuleID = '{m.name}'\nsource_filename = \"{m.sourceName}\"\n"
  exact hlast.append_right _

/-! ### Functions of a module -/

/-- Code of a module that stands for a function of a program: its text is a part of that of the
module and, when it is run, makes the calls of the function and ends as the function does. -/
structure StandsFor (m : ModuleCode) (f : Source.Function) (c : FunctionCode) : Prop where
  name : c.name = f.name
  inText : IsPart c.text m.text
  same : ∀ oracle arguments calls, arguments.length = f.arity →
    outcome (runText oracle c.text arguments) calls = outcome (f.value oracle arguments) calls
  sensible : ∀ oracle arguments calls, arguments.length = f.arity →
    (outcome (f.value oracle arguments) calls).1 ≠ .error .stuck

theorem runText_text {c : FunctionCode} (h : c.Proper) (oracle : Oracle)
    (arguments : List Int32) :
    runText oracle c.text arguments = c.routine.run oracle arguments := by
  rw [runText, read?_text h]
  rfl

/-- **The text of a compiled program means what the program means.** -/
theorem compile_preserves {name sourceName source : String} {m : ModuleCode}
    (h : compile name sourceName source = .ok m) :
    ∃ ts program, Source.tokens source = .ok ts ∧ Source.parse ts = .ok program ∧
      List.Forall₂ (StandsFor m) program.functions m.functions := by
  unfold compile at h
  obtain ⟨ts, htokens, h⟩ := of_except_bind_ok h
  obtain ⟨program, hparse, h⟩ := of_except_bind_ok h
  unfold lower at h
  obtain ⟨defined, _, h⟩ := of_except_bind_ok h
  obtain ⟨⟨functions, declared⟩, hfunctions, h⟩ := of_except_bind_ok h
  obtain rfl := Except.ok.inj h
  refine ⟨ts, program, htokens, hparse, ?_⟩
  have hproper := lowerFunctions_proper (Source.proper_of_parse htokens hparse) hfunctions
  obtain ⟨hlen, himpl⟩ := List.forall₂_iff_zip.1 (lowerFunctions_implements _ hfunctions)
  refine List.forall₂_iff_zip.2 ⟨hlen, fun {f c} hpair => ?_⟩
  have hmem : c ∈ functions := (List.of_mem_zip hpair).2
  obtain ⟨hname, hrun⟩ := himpl hpair
  refine ⟨hname, isPart_text hmem, ?_, ?_⟩
  · intro oracle arguments calls harity
    rw [runText_text (hproper c hmem)]
    exact (hrun oracle arguments calls harity).1
  · intro oracle arguments calls harity
    exact (hrun oracle arguments calls harity).2

/-- A name bound a second time, a call, and a division that may fault. -/
theorem compile_preserves_shadowing : ∃ m ts program,
    compile "m" "m.ion" "fn f(a: i32) -> i32 \x7b let a = -a; return g(a, 3) / a; \x7d" = .ok m ∧
      Source.tokens "fn f(a: i32) -> i32 \x7b let a = -a; return g(a, 3) / a; \x7d" = .ok ts ∧
      Source.parse ts = .ok program ∧
      List.Forall₂ (StandsFor m) program.functions m.functions := by
  have hok : (compile "m" "m.ion"
      "fn f(a: i32) -> i32 \x7b let a = -a; return g(a, 3) / a; \x7d").isOk = true := by cbv
  cases h : compile "m" "m.ion"
      "fn f(a: i32) -> i32 \x7b let a = -a; return g(a, 3) / a; \x7d" with
  | error fault =>
    rw [h] at hok
    cases hok
  | ok m =>
    obtain ⟨ts, program, htokens, hparse, hall⟩ := compile_preserves h
    exact ⟨m, ts, program, rfl, htokens, hparse, hall⟩

end Ingot.Code
