import Mathlib.Data.List.Basic
import Ingot.Console

/-!
# Lines with labels

The lines that a view shows of what the program itself tells (`View.ownLines`) begin with labels.
All labels take the same room, so that a line begins with its own label and with no other
(`hasLabel_line`).

An invocation tells nothing under the label of errors, and tells of single files in details only
(`Event.IsUsual`). Of such events **a quiet view shows no line at all** (`ownLines_quiet`), and **a
normal view shows the lines of a verbose one without those about single files** (`ownLines_normal`).
-/

namespace Ingot.Console

/-! ### The lines of a view -/

/-- Whether an event is told by the program itself; what tools write is not. -/
def Event.isOwn : Event → Bool
  | .toolOutput _ => false
  | .toolMessage _ => false
  | _ => true

namespace View

/-- The lines that a view shows on the standard error of what the program itself tells. -/
def ownLines (v : View) (events : List Event) : List String :=
  ((events.filter Event.isOwn).map v.errorText).filter (· ≠ "")

/-- Together the lines are what is on the standard error but for what tools write there. -/
theorem join_ownLines (v : View) (events : List Event) :
    String.join (v.ownLines events) = v.errorTexts (events.filter Event.isOwn) := by
  unfold ownLines errorTexts
  induction (events.filter Event.isOwn).map v.errorText with
  | nil => rfl
  | cons line lines ih =>
    by_cases hline : line = ""
    · rw [List.filter_cons_of_neg (by simpa using hline), ih, hline, String.join_cons,
        String.empty_append]
    · rw [List.filter_cons_of_pos (by simpa using hline), String.join_cons, String.join_cons, ih]

variable {v : View} {e : Event} {events : List Event}

theorem ownLines_cons_of_empty (h : e.isOwn = true → v.errorText e = "") :
    v.ownLines (e :: events) = v.ownLines events := by
  unfold ownLines
  by_cases hown : e.isOwn = true
  · rw [List.filter_cons_of_pos hown, List.map_cons, List.filter_cons_of_neg (by simp [h hown])]
  · rw [List.filter_cons_of_neg hown]

theorem ownLines_cons_of_ne_empty (hown : e.isOwn = true) (h : v.errorText e ≠ "") :
    v.ownLines (e :: events) = v.errorText e :: v.ownLines events := by
  unfold ownLines
  rw [List.filter_cons_of_pos hown, List.map_cons, List.filter_cons_of_pos (by simpa using h)]

end View

/-! ### Labels -/

/-- Whether a line begins with a label. -/
def hasLabel (colored : Bool) (status : Status) (line : String) : Bool :=
  (status.shown colored ++ " ").toList.isPrefixOf line.toList

/-- All labels take the same room. -/
theorem length_shown (colored : Bool) (s s' : Status) :
    (s.shown colored ++ " ").toList.length = (s'.shown colored ++ " ").toList.length := by
  have hroom : ∀ s : Status,
      (s.shown colored ++ " ").toList.length = if colored = true then 24 else 13 := by
    intro s
    cases colored <;> cases s <;> decide
  rw [hroom, hroom]

theorem shown_injective {colored : Bool} {s s' : Status}
    (h : (s.shown colored ++ " ").toList = (s'.shown colored ++ " ").toList) : s = s' := by
  revert h
  cases colored <;> cases s <;> cases s' <;> decide

/-- **A line begins with its own label and with no other.** -/
theorem hasLabel_line (colored : Bool) (s s' : Status) (message : String) :
    hasLabel colored s (s'.shown colored ++ " " ++ message ++ "\n") = decide (s = s') := by
  have hline : (s'.shown colored ++ " " ++ message ++ "\n").toList =
      (s'.shown colored ++ " ").toList ++ (message ++ "\n").toList := by
    rw [String.append_assoc, String.toList_append]
  rw [hasLabel, hline, Bool.eq_iff_iff, List.isPrefixOf_iff_prefix, decide_eq_true_iff]
  constructor
  · intro hfront
    have hlabels := List.prefix_of_prefix_length_le hfront (List.prefix_append _ _)
      (Nat.le_of_eq (length_shown colored s s'))
    exact shown_injective (hlabels.eq_of_length (length_shown colored s s'))
  · rintro rfl
    exact List.prefix_append _ _

/-! ### What an invocation tells -/

/-- Whether lines with a label are about single files in an invocation that runs the package or
does not: sources are compiled in both, and only what is run is written to files without saying
so. -/
def isFileLabel (running : Bool) : Status → Bool
  | .compiling => true
  | .emitting => running
  | _ => false

/-- Whether a line begins with a label for single files. -/
def isFileLine (running colored : Bool) (line : String) : Bool :=
  hasLabel colored .compiling line || (running && hasLabel colored .emitting line)

theorem isFileLine_line (running colored : Bool) (status : Status) (message : String) :
    isFileLine running colored (status.shown colored ++ " " ++ message ++ "\n") =
      isFileLabel running status := by
  rw [isFileLine, hasLabel_line, hasLabel_line]
  cases running <;> cases status <;> rfl

/-- What an invocation tells: no errors, and of single files in details only. -/
def Event.IsUsual (running : Bool) : Event → Prop
  | .line status _ => status ≠ .error ∧ isFileLabel running status = false
  | .detail status _ => isFileLabel running status = true
  | _ => True

/-- Whether an event says that a source is compiled. -/
def Event.isCompiling : Event → Bool
  | .detail .compiling _ => true
  | _ => false

theorem isPerFile_of_isFileLabel {running : Bool} {status : Status}
    (h : isFileLabel running status = true) : status.isPerFile = true := by
  cases status with
  | compiling => rfl
  | emitting => rfl
  | _ => cases h

/-! ### Views of it -/

section Views

variable {running colored : Bool} {time : String} {events : List Event}

/-- An event that is shown as a line with a label. -/
theorem ownLines_cons_of_line {verbosity : Verbosity} (h : verbosity ≠ .quiet) {e : Event}
    (hown : e.isOwn = true) {status : Status} {message : String}
    (hline : (View.plain verbosity colored time).errorText e =
      (View.plain verbosity colored time).lineText status message) :
    (View.plain verbosity colored time).ownLines (e :: events) =
      (status.shown colored ++ " " ++ message ++ "\n") ::
        (View.plain verbosity colored time).ownLines events := by
  have htext : (View.plain verbosity colored time).errorText e =
      status.shown colored ++ " " ++ message ++ "\n" :=
    hline.trans (if_neg fun hquiet => h hquiet.1)
  rw [View.ownLines_cons_of_ne_empty hown, htext]
  intro hempty
  have hlist := congrArg String.toList (htext.symm.trans hempty)
  simp at hlist

theorem lineText_quiet {v : View} {status : Status} (h : v.verbosity = .quiet)
    (hstatus : status ≠ .error) (message : String) : v.lineText status message = "" :=
  if_pos ⟨h, hstatus⟩

/-- What an invocation tells of single files only a verbose view shows. -/
theorem errorText_detail {v : View} {status : Status} (h : v.verbosity ≠ .verbose)
    (hstatus : isFileLabel running status = true) (message : String) :
    v.errorText (.detail status message) = "" :=
  if_pos ⟨isPerFile_of_isFileLabel hstatus, h⟩

/-- Unless every file is shown, what is said of sources that are compiled makes no difference. -/
theorem ownLines_filter_isCompiling {v : View} (h : v.verbosity ≠ .verbose) :
    v.ownLines (events.filter fun e => !e.isCompiling) = v.ownLines events := by
  induction events with
  | nil => rfl
  | cons e events ih =>
    by_cases hcompiling : e.isCompiling = true
    · obtain ⟨message, rfl⟩ : ∃ message, e = .detail .compiling message := by
        unfold Event.isCompiling at hcompiling
        split at hcompiling
        · exact ⟨_, rfl⟩
        · cases hcompiling
      have hlabel : isFileLabel false .compiling = true := rfl
      rw [List.filter_cons_of_neg (by simp [hcompiling]), ih,
        View.ownLines_cons_of_empty fun _ => errorText_detail h hlabel message]
    · rw [List.filter_cons_of_pos (by simp [hcompiling])]
      by_cases hshown : e.isOwn = true ∧ v.errorText e ≠ ""
      · rw [View.ownLines_cons_of_ne_empty hshown.1 hshown.2, ih,
          View.ownLines_cons_of_ne_empty hshown.1 hshown.2]
      · have hempty : e.isOwn = true → v.errorText e = "" :=
          fun hown => not_not.1 fun hne => hshown ⟨hown, hne⟩
        rw [View.ownLines_cons_of_empty hempty, ih, View.ownLines_cons_of_empty hempty]

/-- **A quiet view shows nothing of what an invocation itself tells.** -/
theorem ownLines_quiet (h : ∀ e ∈ events, e.IsUsual running) :
    (View.plain .quiet colored time).ownLines events = [] := by
  induction events with
  | nil => rfl
  | cons e events ih =>
    obtain ⟨hfirst, hrest⟩ := List.forall_mem_cons.1 h
    rw [View.ownLines_cons_of_empty, ih hrest]
    intro hown
    cases e with
    | line status message => exact lineText_quiet rfl hfirst.1 message
    | detail status message => exact errorText_detail Verbosity.noConfusion hfirst message
    | timed work => exact lineText_quiet rfl Status.noConfusion _
    | note level topic message => rfl
    | toolOutput text => cases hown
    | toolMessage text => cases hown

/-- **A normal view shows the lines of a verbose one that are not about single files.** -/
theorem ownLines_normal (h : ∀ e ∈ events, e.IsUsual running) :
    (View.plain .normal colored time).ownLines events =
      ((View.plain .verbose colored time).ownLines events).filter
        fun line => !isFileLine running colored line := by
  induction events with
  | nil => rfl
  | cons e events ih =>
    obtain ⟨hfirst, hrest⟩ := List.forall_mem_cons.1 h
    -- a line that both views show, and that is not about a single file
    have hshown : ∀ status message, isFileLabel running status = false → e.isOwn = true →
        (∀ verbosity, (View.plain verbosity colored time).errorText e =
          (View.plain verbosity colored time).lineText status message) →
        (View.plain .normal colored time).ownLines (e :: events) =
          ((View.plain .verbose colored time).ownLines (e :: events)).filter
            fun line => !isFileLine running colored line := by
      intro status message hstatus hown hline
      rw [ownLines_cons_of_line Verbosity.noConfusion hown (hline _),
        ownLines_cons_of_line Verbosity.noConfusion hown (hline _), ih hrest,
        List.filter_cons_of_pos]
      rw [Bool.not_eq_true', isFileLine_line]
      exact hstatus
    cases e with
    | line status message => exact hshown status message hfirst.2 rfl fun _ => rfl
    | timed work => exact hshown .finished s!"{work} in {time}" rfl rfl fun _ => rfl
    | detail status message =>
      have hverbose : (View.plain .verbose colored time).errorText (.detail status message) =
          (View.plain .verbose colored time).lineText status message :=
        if_neg fun hhidden => hhidden.2 rfl
      rw [View.ownLines_cons_of_empty fun _ =>
          errorText_detail Verbosity.noConfusion hfirst message,
        ownLines_cons_of_line Verbosity.noConfusion rfl hverbose, List.filter_cons_of_neg, ih hrest]
      rw [Bool.not_eq_true', Bool.not_eq_false, isFileLine_line]
      exact hfirst
    | note level topic message =>
      rw [View.ownLines_cons_of_empty fun _ => rfl, View.ownLines_cons_of_empty fun _ => rfl,
        ih hrest]
    | toolOutput text =>
      rw [View.ownLines_cons_of_empty Bool.noConfusion,
        View.ownLines_cons_of_empty Bool.noConfusion, ih hrest]
    | toolMessage text =>
      rw [View.ownLines_cons_of_empty Bool.noConfusion,
        View.ownLines_cons_of_empty Bool.noConfusion, ih hrest]

end Views

end Ingot.Console
