import Ingot.Proofs.Package.Lines
import Ingot.Proofs.Workflow.Emission

/-!
# Builds one after another

The builds of a package that are counted have the numbers that follow each other, whatever else
the manifest says, and it goes on saying it. When the counter is full, no build is counted any
more, and the files stay as they are: **the counter never turns back** (`counted_in_a_row`).
-/

namespace Ingot.Workflow

open Effect
open Package

/-- A build that cannot be counted changes no file. -/
theorem files_of_countBuildIn_error {root : String} {fs : FileSystem} {e : ManifestError}
    (h : countBuildIn fs root = .error e) (told : List Console.Event) :
    ∃ told', outcome (countBuildOrWarn root) ⟨fs, told⟩ = (.ok none, ⟨fs, told'⟩) := by
  obtain ⟨told', hwarned⟩ := outcome_countBuildOrWarn root ⟨fs, told⟩
  rw [h] at hwarned
  exact ⟨told', hwarned⟩

/-- **The counter follows the builds.** When `k` builds in a row are counted, each has the number
behind that of the one before it, and the manifest stays the same but for that number. With a
table for the package and a full counter a build is not counted, and all files stay as they are.

What is assumed of each document that is written is that it is read back as it was. -/
theorem counted_in_a_row {root : String} {m : Manifest} {k : ℕ} {states : ℕ → FileSystem}
    {numbers : ℕ → ℕ} (hread : readManifest (states 0) root = .ok m)
    (hcount : ∀ i < k, countBuildIn (states i) root = .ok (numbers i, states (i + 1)))
    (hback : ∀ i < k, ∀ d, IsRewrittenAs (states i) root d → d.ReadsBack) :
    (∀ i < k, numbers i = m.build + (i + 1) ∧ numbers i ≤ counterLimit ∧
        readManifest (states (i + 1)) root = .ok (m.withBuild (m.build + (i + 1)))) ∧
      ∀ fs text full, fs.readText (manifestPath root) = .ok text →
        Manifest.parse text = .ok full → HasPackageTable text → full.build = counterLimit →
          countBuildIn fs root = .error (.faulty (manifestPath root) .fullCounter) ∧
            ∀ told, ∃ told',
              outcome (countBuildOrWarn root) ⟨fs, told⟩ = (.ok none, ⟨fs, told'⟩) := by
  have hreads : ∀ i ≤ k, readManifest (states i) root = .ok (m.withBuild (m.build + i)) := by
    intro i hi
    induction i with
    | zero => exact hread
    | succ i ih =>
      obtain ⟨-, -, hnext⟩ := readManifest_of_countBuildIn (ih (Nat.le_of_lt hi)) (hcount i hi)
        (hback i hi)
      exact hnext
  constructor
  · intro i hi
    obtain ⟨hnumber, hroom, hnext⟩ := readManifest_of_countBuildIn (hreads i (Nat.le_of_lt hi))
      (hcount i hi) (hback i hi)
    refine ⟨hnumber, ?_, hnext⟩
    rw [hnumber]
    exact hroom
  · intro fs text full htext hparse htable hfull
    have hrefused := countBuildIn_of_full htext hparse htable hfull
    exact ⟨hrefused, files_of_countBuildIn_error hrefused⟩

namespace HexCounter

/-- A manifest of which the counter is hexadecimal at first. -/
def text : ℕ → String
  | 0 => "[package]\nname = \"a\" # first\nversion = \"1.0.0\"\nbuild = 0xF\n"
  | 1 => "[package]\nname = \"a\" # first\nversion = \"1.0.0\"\nbuild = 16\n"
  | _ => "[package]\nname = \"a\" # first\nversion = \"1.0.0\"\nbuild = 17\n"

/-- What the manifest says. -/
def manifest : Manifest := ⟨"a", none, "1.0.0", 15, none, [], none⟩

/-- The files before and after each of two builds. -/
def states (i : ℕ) : FileSystem := holding (text i)

/-- The numbers of the builds. -/
def numbers (i : ℕ) : ℕ := 16 + i

theorem countBuild_text {i : ℕ} (hi : i < 2) :
    countBuild (text i) = .ok (numbers i, text (i + 1)) := by
  have hevaluated : ∀ i < 2, countedText? (text i) = some (numbers i, text (i + 1)) := by
    decide +kernel
  exact countBuild_of_countedText? (hevaluated i hi)

/-- A manifest of which the counter is full. -/
def fullText : String :=
  "package = \x7bname=\"a\",version=\"1.0.0\",build=9223372036854775807\x7d"

/-- What a document says, if there is one. -/
def dataOf (d : Option Toml.Document) : Option (List (String × Toml.Data)) :=
  d.map Toml.Document.data

/-- The document that is written when a build is counted in a text. -/
def rewritten (text : String) : Option Toml.Document :=
  (Toml.parse text).bind fun d => (countInDocument d).toOption.map Prod.snd

/-- The document that is written reads back, if what is read of its text is the same. -/
theorem readsBack_of_countBuild {fs : FileSystem} {root text text' : String} {n : ℕ}
    {d : Toml.Document} (htext : fs.readText (manifestPath root) = .ok text)
    (hcount : countBuild text = .ok (n, text'))
    (hdata : dataOf (Toml.parse text') = dataOf (rewritten text))
    (hsome : (Toml.parse text').isSome = true) (h : IsRewrittenAs fs root d) : d.ReadsBack := by
  obtain ⟨t, d₀, next, ht, hd₀, hdocument⟩ := h
  obtain rfl : text = t := Except.ok.inj (htext.symm.trans ht)
  have hwritten : d.text = text' := by
    have hcounted := countBuild_eq_ok.2 ⟨d₀, next, d, hd₀, hdocument, rfl, rfl⟩
    rw [hcount] at hcounted
    exact (Prod.mk.inj (Except.ok.inj hcounted)).2.symm
  have hrewritten : rewritten text = some d := by
    rw [rewritten, hd₀, Option.bind_some, hdocument]
    rfl
  obtain ⟨d', hd'⟩ := Option.isSome_iff_exists.1 hsome
  rw [hd', hrewritten] at hdata
  refine ⟨d', hwritten ▸ hd', ?_⟩
  rw [show d'.data = d.data from Option.some.inj hdata]
  exact .refl _

theorem readsBack {i : ℕ} (hi : i < 2) {d : Toml.Document} (h : IsRewrittenAs (states i) "/" d) :
    d.ReadsBack := by
  have hsame : ∀ i < 2, dataOf (Toml.parse (text (i + 1))) = dataOf (rewritten (text i)) ∧
      (Toml.parse (text (i + 1))).isSome = true := by
    decide +kernel
  obtain ⟨hdata, hsome⟩ := hsame i hi
  exact readsBack_of_countBuild (readText_holding (text i)) (countBuild_text hi) hdata hsome h

end HexCounter

open HexCounter in
/-- Two builds in a row, the sixteenth and the seventeenth, and one that is too many. -/
theorem counted_in_a_row_hex :
    readManifest (states 0) "/" = .ok manifest ∧
      (∀ i < 2, countBuildIn (states i) "/" = .ok (numbers i, states (i + 1))) ∧
      (∀ i < 2, ∀ d, IsRewrittenAs (states i) "/" d → d.ReadsBack) ∧
      readManifest (states 2) "/" = .ok (manifest.withBuild 17) ∧
      countBuildIn (holding fullText) "/" = .error (.faulty "/Ion.toml" .fullCounter) := by
  have hread : readManifest (states 0) "/" = .ok manifest :=
    readManifest_eq_ok.2 ⟨_, readText_holding _, by decide +kernel⟩
  have hcount : ∀ i < 2, countBuildIn (states i) "/" = .ok (numbers i, states (i + 1)) :=
    fun i hi => countBuildIn_holding (countBuild_text hi)
  have hback : ∀ i < 2, ∀ d, IsRewrittenAs (states i) "/" d → d.ReadsBack :=
    fun i hi d => readsBack hi
  obtain ⟨hrow, hfull⟩ := counted_in_a_row hread hcount hback
  have hparse : Manifest.parse fullText =
      .ok ⟨"a", none, "1.0.0", 9223372036854775807, none, [], none⟩ := by
    decide +kernel
  have htable : packageData? fullText = some (.table [("name", .scalar (.text "a")),
      ("version", .scalar (.text "1.0.0")), ("build", .scalar (.integer 9223372036854775807))]) := by
    decide +kernel
  have hrefused := (hfull _ fullText _ (readText_holding _) hparse ⟨_, htable⟩ (by decide)).1
  exact ⟨hread, hcount, hback, (hrow 1 (by decide)).2.2, hrefused⟩

end Ingot.Workflow
