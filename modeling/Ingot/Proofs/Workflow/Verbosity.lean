import Ingot.Proofs.Workflow.Failures
import Ingot.Proofs.Workflow.Telling

/-!
# How much the user wants to see

Of an invocation one sees what it comes to, the files that it leaves, and the lines that it shows
(`watch`). How much the user wants to see decides about the lines only, and so does the schedule of
the workers that compile: **a quiet invocation shows no lines, and a normal one those of a verbose
one that are not about single files** (`watch_filters`).

Both the schedules and the views differ between the invocations that are compared. Their compilers
make the invocations abreast (`performWith_abreast`), and what makes a difference between acts
abreast is never shown in a normal view (`SameNews.ownLines_eq`).
-/

namespace Ingot.Workflow

open Effect Console
open Compilation (FrontEnd)

/-! ### What is to be seen -/

/-- What is to be seen of an invocation. -/
structure Sight where
  /-- What it came to. -/
  result : Except Failure Outcome
  /-- The files that it left. -/
  files : FileSystem
  /-- The lines on the standard error that tools have not written. -/
  lines : List String

/-- An invocation with something that compiles sources, from files on which it is to act, as it is
seen by a user. -/
def watch (v : View) (host : Host) (compiler : Compiler) (options : Options) (fs : FileSystem) :
    Sight :=
  let (result, w) := outcome (performWith host compiler options) ⟨fs, []⟩
  ⟨result, w.files, v.ownLines w.told⟩

/-- In views that do not show every file such rows of events look the same. -/
theorem SameNews.ownLines_eq {running : Bool} {news news' : List Event}
    (h : SameNews running news news') {v : View} (hv : v.verbosity ≠ .verbose) :
    v.ownLines news = v.ownLines news' := by
  rw [← ownLines_filter_isCompiling hv, h.same, ownLines_filter_isCompiling hv]

section Invocations

variable (host : Host) {frontEnd : FrontEnd} {compiler compiler' : Compiler} (options : Options)
  (fs : FileSystem)

/-- What is seen of invocations whose compilers are on two schedules. -/
theorem exists_sameNews (h : Announces frontEnd compiler) (h' : Announces frontEnd compiler') :
    ∃ result fs' news news', SameNews options.runs news news' ∧
      (∀ v, watch v host compiler options fs = ⟨result, fs', v.ownLines news⟩) ∧
      ∀ v, watch v host compiler' options fs = ⟨result, fs', v.ownLines news'⟩ := by
  obtain ⟨result, fs', news, news', hnews, hout⟩ := performWith_abreast host h h' options fs
  refine ⟨result, fs', news, news', hnews, fun v => ?_, fun v => ?_⟩
  · rw [watch, (hout []).1]
    rfl
  · rw [watch, (hout []).2]
    rfl

/-- **How much the user wants to see, and in colour or not, decides about the lines that are shown
and about nothing else**, whatever the schedules of the workers that compile. An invocation comes
to the same and leaves the same files; a quiet one shows no lines; and a normal one shows the lines
of a verbose one, in their order, without those that say which source is compiled and, where the
package is to be run, which artifact is written. -/
theorem watch_filters (h : Announces frontEnd compiler) (h' : Announces frontEnd compiler') :
    (∀ v v', (watch v host compiler options fs).result =
        (watch v' host compiler' options fs).result ∧
      (watch v host compiler options fs).files = (watch v' host compiler' options fs).files) ∧
    (∀ colored time, (watch (.plain .quiet colored time) host compiler options fs).lines = []) ∧
    ∀ colored time, (watch (.plain .normal colored time) host compiler options fs).lines =
      (watch (.plain .verbose colored time) host compiler' options fs).lines.filter
        fun line => !isFileLine options.runs colored line := by
  obtain ⟨result, fs', news, news', hnews, hsight, hsight'⟩ :=
    exists_sameNews host options fs h h'
  refine ⟨fun v v' => ?_, fun colored time => ?_, fun colored time => ?_⟩
  · rw [hsight, hsight']
    exact ⟨rfl, rfl⟩
  · rw [hsight]
    exact ownLines_quiet hnews.usual
  · rw [hsight, hsight']
    calc (View.plain .normal colored time).ownLines news
        = (View.plain .normal colored time).ownLines news' :=
          hnews.ownLines_eq Verbosity.noConfusion
      _ = ((View.plain .verbose colored time).ownLines news').filter
            fun line => !isFileLine options.runs colored line :=
          ownLines_normal hnews.usual'

end Invocations

/-- A package that is to be run in the binary form, and whose only module refuses to be written:
of the lines of a verbose invocation a normal one lacks the one about the source. -/
theorem watch_filters_refusal :
    (watch (.plain .verbose false "0.00s") Refusal.host (compileSources Refusal.frontEnd)
        { Refusal.options with operation := "run", bitcode := true } Refusal.files).lines =
      ["        Info Integrity check is disabled.\n", "   Compiling main.ion ...\n",
        "     Warning `--bitcode` is ignored by `run`; emitting textual IR\n"] ∧
    (watch (.plain .normal false "0.00s") Refusal.host (compileSources Refusal.frontEnd)
        { Refusal.options with operation := "run", bitcode := true } Refusal.files).lines =
      ["        Info Integrity check is disabled.\n",
        "     Warning `--bitcode` is ignored by `run`; emitting textual IR\n"] := by
  have hverbose : (watch (.plain .verbose false "0.00s") Refusal.host
      (compileSources Refusal.frontEnd)
      { Refusal.options with operation := "run", bitcode := true } Refusal.files).lines =
      ["        Info Integrity check is disabled.\n", "   Compiling main.ion ...\n",
        "     Warning `--bitcode` is ignored by `run`; emitting textual IR\n"] := by
    decide +kernel
  have hannounces := compileSources_announces Refusal.frontEnd
  refine ⟨hverbose, ?_⟩
  rw [(watch_filters Refusal.host _ Refusal.files hannounces hannounces).2.2 false "0.00s",
    hverbose]
  decide +kernel

end Ingot.Workflow
