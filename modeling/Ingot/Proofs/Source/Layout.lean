import Ingot.Proofs.Source.Pieces

/-!
# Layout

What stands between the lexemes of a text is its layout: white space, and comments. It matters only
where it ends a piece. No piece but a comment has white space in it (`IsPiece.of_blank_inside`), so
a line feed ends whatever row of pieces is in front of it (`Cut.before_newline`), and any other
white-space character ends a row whose last piece is a lexeme (`Cut.before_blank`).

So **a layout behind a lexeme may be replaced by any other that starts with white space**, and the
lexemes of the text stay what they are (`Relaid.lexemes_eq`).
-/

namespace Ingot.Source

open Ingot.Text

/-! ### White space in pieces -/

/-- The code points of what stands for a number. -/
def numeralCodes : List CodeRange := digitRanges ++ numeralRanges

theorem inRanges_of_isNumeral (c : Char) (h : isNumeral c = true) :
    inRanges numeralCodes c.toNat = true := by
  rw [isNumeral] at h
  have hmem : ∀ ranges : List CodeRange, ranges ⊆ numeralCodes → inRanges ranges c.toNat = true →
      inRanges numeralCodes c.toNat = true := by
    intro ranges hsub hin
    obtain ⟨r, hr, hcode⟩ := inRanges_iff.1 hin
    exact inRanges_iff.2 ⟨r, hsub hr, hcode⟩
  split at h
  · exact hmem _ (List.subset_append_left _ _) (inRanges_of_isDigit c h)
  · exact hmem _ (List.subset_append_right _ _) h

theorem not_isBlank_of_isNumeral {c : Char} (h : isNumeral c = true) : isBlank c = false :=
  not_of_ranges inRanges_of_isNumeral inRanges_of_isBlank (by decide +kernel) h

theorem not_isBlank_of_isWordPart {c : Char} (h : isWordPart c = true) : isBlank c = false := by
  rw [isWordPart, Bool.or_eq_true, Bool.or_eq_true] at h
  rcases h with (hletter | hnumeral) | hunderscore
  · exact not_isBlank_of_isWordStart (by rw [isWordStart, hletter, Bool.true_or])
  · exact not_isBlank_of_isNumeral hnumeral
  · exact not_isBlank_of_isWordStart (by rw [isWordStart, hunderscore, Bool.or_true])

theorem not_isBlank_of_isNumberPart {c : Char} (h : isNumberPart c = true) : isBlank c = false := by
  rw [isNumberPart, Bool.or_eq_true] at h
  rcases h with hdigit | hunderscore
  · exact not_isBlank_of_isDigit hdigit
  · exact not_isBlank_of_isWordStart (by rw [isWordStart, hunderscore, Bool.or_true])

/-- A lexeme has no white space in it. -/
theorem IsPiece.not_isBlank {chars : List Char} {l : Lexeme} (h : IsPiece ⟨chars, some l⟩) :
    ∀ c ∈ chars, isBlank c = false := by
  cases h with
  | fixed hl =>
    have hfixed : ∀ c ∈ l.spelling.toList, (!isBlank c) = true := by
      cases l
      all_goals first | exact hl.elim | exact List.all_eq_true.1 (by decide)
    exact fun c hc => by simpa using hfixed c hc
  | name hname =>
    obtain ⟨c, more, heq, hstart, hmore⟩ := hname.word
    rw [heq]
    refine List.forall_mem_cons.2 ⟨not_isBlank_of_isWordStart hstart, fun d hd => ?_⟩
    exact not_isBlank_of_isWordPart (hmore d hd)
  | number hdigit hcs =>
    refine List.forall_mem_cons.2 ⟨not_isBlank_of_isDigit hdigit, fun d hd => ?_⟩
    exact not_isBlank_of_isNumberPart (hcs d hd)

/-- A text that is a comment: what stands behind it on its line belongs to it. -/
def IsOpenComment (text : List Char) : Prop := ∃ cs, '\n' ∉ cs ∧ text = '/' :: '/' :: cs

theorem IsOpenComment.isPiece {text : List Char} (h : IsOpenComment text) :
    IsPiece ⟨text, none⟩ := by
  obtain ⟨cs, hline, rfl⟩ := h
  exact .comment hline

/-- A lexeme is no comment. -/
theorem IsPiece.not_isOpenComment {chars : List Char} {l : Lexeme}
    (h : IsPiece ⟨chars, some l⟩) : ¬ IsOpenComment chars := by
  rintro ⟨cs, -, rfl⟩
  generalize hchars : '/' :: '/' :: cs = chars at h
  cases h with
  | fixed hl =>
    cases l
    all_goals first | exact hl.elim | cases hchars
  | name hname =>
    obtain ⟨c, more, heq, hstart, -⟩ := hname.word
    rw [heq] at hchars
    cases hchars
    exact absurd hstart (by decide)
  | number hdigit =>
    cases hchars
    exact absurd hdigit (by decide)

/-- A piece with white space in it is that one character, or a comment. -/
theorem IsPiece.of_isBlank {piece : Piece} (h : IsPiece piece) {c : Char} (hmem : c ∈ piece.chars)
    (hc : isBlank c = true) : piece.chars = [c] ∨ IsOpenComment piece.chars := by
  obtain ⟨chars, lexeme?⟩ := piece
  cases lexeme? with
  | some l =>
    rw [h.not_isBlank c hmem] at hc
    cases hc
  | none =>
    generalize hpiece : (⟨chars, none⟩ : Piece) = piece at h hmem ⊢
    cases h with
    | blank => exact .inl (by rw [List.mem_singleton.1 hmem])
    | @comment cs hcs => exact .inr ⟨cs, hcs, rfl⟩
    | _ => cases hpiece

/-- A piece that starts with white space is that one character. -/
theorem IsPiece.eq_blank {c : Char} {cs : List Char} {lexeme? : Option Lexeme}
    (h : IsPiece ⟨c :: cs, lexeme?⟩) (hc : isBlank c = true) : cs = [] := by
  rcases h.of_isBlank List.mem_cons_self hc with hchars | ⟨more, -, hchars⟩
  · exact (List.cons.inj hchars).2
  · obtain ⟨rfl, -⟩ := List.cons.inj hchars
    exact absurd hc (by decide)

/-- A piece that has white space behind some of its characters is a comment, and the white space is
no line feed. -/
theorem IsPiece.of_blank_inside {piece : Piece} (h : IsPiece piece) {text : List Char} {c : Char}
    (htext : text ≠ []) (hc : isBlank c = true) (hahead : text ++ [c] <+: piece.chars) :
    IsOpenComment text ∧ c ≠ '\n' := by
  have hmem : c ∈ piece.chars := hahead.subset (List.mem_append_right _ List.mem_cons_self)
  rcases h.of_isBlank hmem hc with hchars | ⟨cs, hcs, hchars⟩
  · have hle := hahead.length_le
    rw [hchars, List.length_append, List.length_singleton] at hle
    exact absurd (List.length_eq_zero_iff.1 (by omega)) htext
  · rw [hchars] at hahead
    -- the first two characters are the slashes, and the white space is behind them
    match text with
    | [] => exact absurd rfl htext
    | [d] =>
      obtain ⟨-, hahead⟩ := List.cons_prefix_cons.1 hahead
      obtain ⟨rfl, -⟩ := List.cons_prefix_cons.1 hahead
      exact absurd hc (by decide)
    | d :: e :: text =>
      obtain ⟨hd, hahead⟩ := List.cons_prefix_cons.1 hahead
      obtain ⟨he, hahead⟩ := List.cons_prefix_cons.1 hahead
      have hline : '\n' ∉ text ++ [c] := fun hmem => hcs (hahead.subset hmem)
      rw [List.mem_append, List.mem_singleton, not_or] at hline
      exact ⟨⟨text, hline.1, by rw [hd, he]⟩, Ne.symm hline.2⟩

/-! ### White space ends pieces -/

/-- A longest piece is still the longest if something behind it gives way to white space that ends
it. -/
theorem Piece.Leads.before_blank {piece : Piece} {text rest : List Char} {c : Char}
    (h : piece.Leads (piece.chars ++ (text ++ rest))) (hc : isBlank c = true)
    (hend : c = '\n' ∨ ¬ IsOpenComment (piece.chars ++ text)) (behind : List Char) :
    piece.Leads (piece.chars ++ (text ++ c :: behind)) := by
  refine ⟨h.isPiece, List.prefix_append _ _, fun other hother hahead => ?_⟩
  rw [← List.append_assoc] at hahead
  by_cases hle : other.chars.length ≤ (piece.chars ++ text).length
  · have hfront : other.chars <+: piece.chars ++ text :=
      List.prefix_of_prefix_length_le hahead (List.prefix_append _ _) hle
    refine h.longest other hother ?_
    rw [← List.append_assoc]
    exact hfront.trans (List.prefix_append _ _)
  · -- the other piece has the white space in it
    have hinside : piece.chars ++ text ++ [c] <+: other.chars := by
      refine List.prefix_of_prefix_length_le ⟨behind, by simp⟩ hahead ?_
      rw [List.length_append, List.length_singleton]
      omega
    have hne : piece.chars ++ text ≠ [] := by simp [h.isPiece.ne_nil]
    obtain ⟨hcomment, hfeed⟩ := hother.of_blank_inside hne hc hinside
    rcases hend with heq | hopen
    · exact absurd heq hfeed
    · exact absurd hcomment hopen

/-- A line feed leaves the longest piece what it is. -/
theorem Piece.Leads.before_newline {piece : Piece} {text : List Char}
    (h : piece.Leads (piece.chars ++ text)) (behind : List Char) :
    piece.Leads (piece.chars ++ (text ++ '\n' :: behind)) := by
  have halone : piece.Leads (piece.chars ++ (text ++ [])) := by rwa [List.append_nil]
  exact halone.before_blank (by decide) (.inl rfl) behind

/-- White space is a piece of its own. -/
theorem leads_blank {c : Char} (hc : isBlank c = true) (behind : List Char) :
    Piece.Leads ⟨[c], none⟩ ([c] ++ behind) := by
  refine ⟨.blank hc, List.prefix_append _ _, fun other hother hahead => ?_⟩
  obtain ⟨chars, lexeme?⟩ := other
  match chars with
  | [] => exact absurd rfl hother.ne_nil
  | d :: cs =>
    obtain ⟨rfl, -⟩ := List.cons_prefix_cons.1 hahead
    rw [hother.eq_blank hc]

/-- A comment goes up to the end of its line. -/
theorem leads_comment {cs : List Char} (hcs : '\n' ∉ cs) (behind : List Char) :
    Piece.Leads ⟨'/' :: '/' :: cs, none⟩ (('/' :: '/' :: cs) ++ '\n' :: behind) := by
  refine ⟨.comment hcs, List.prefix_append _ _, fun other hother hahead => ?_⟩
  by_contra hlonger
  have hinside : ('/' :: '/' :: cs) ++ ['\n'] <+: other.chars := by
    refine List.prefix_of_prefix_length_le ⟨behind, by simp⟩ hahead ?_
    rw [List.length_append, List.length_singleton]
    exact Nat.lt_of_not_le hlonger
  obtain ⟨-, hfeed⟩ := hother.of_blank_inside (List.cons_ne_nil _ _) (by decide) hinside
  exact hfeed rfl

/-- Where a piece is all of a text, it is the longest. -/
theorem IsPiece.leads_alone {piece : Piece} (h : IsPiece piece) :
    piece.Leads (piece.chars ++ []) := by
  refine ⟨h, List.prefix_append _ _, fun other _ hahead => ?_⟩
  rw [List.append_nil] at hahead
  exact hahead.length_le

/-! ### Rows of pieces -/

/-- The characters of pieces. -/
def charsOf (pieces : List Piece) : List Char := pieces.flatMap Piece.chars

theorem Cut.append {text mid rest : List Char} {front behind : List Piece} (h : Cut text front mid)
    (h' : Cut mid behind rest) : Cut text (front ++ behind) rest := by
  induction h with
  | nil => exact h'
  | cons hleads _ ih => exact .cons hleads (ih h')

theorem Cut.split {text rest : List Char} {front behind : List Piece}
    (h : Cut text (front ++ behind) rest) : ∃ mid, Cut text front mid ∧ Cut mid behind rest := by
  induction front generalizing text with
  | nil => exact ⟨text, .nil, h⟩
  | cons piece front ih =>
    cases h with
    | cons hleads hmore =>
      obtain ⟨mid, hfront, hbehind⟩ := ih hmore
      exact ⟨mid, .cons hleads hfront, hbehind⟩

theorem Cut.isPiece {text rest : List Char} {pieces : List Piece} (h : Cut text pieces rest) :
    ∀ piece ∈ pieces, IsPiece piece := by
  induction h with
  | nil => exact List.forall_mem_nil _
  | cons hleads _ ih => exact List.forall_mem_cons.2 ⟨hleads.isPiece, ih⟩

/-- A line feed ends all pieces in front of it. -/
theorem Cut.before_newline {text rest : List Char} {pieces : List Piece} (h : Cut text pieces rest)
    (behind : List Char) : Cut (text ++ '\n' :: behind) pieces (rest ++ '\n' :: behind) := by
  induction h with
  | nil => exact .nil
  | cons hleads _ ih =>
    rw [List.append_assoc]
    exact .cons (hleads.before_newline behind) ih

/-- White space ends all pieces in front of it, if the last of them is a lexeme. -/
theorem Cut.before_blank {text rest : List Char} {pieces : List Piece} {c : Char}
    (h : Cut text pieces rest) (hlast : ∀ piece ∈ pieces.getLast?, piece.lexeme? ≠ none)
    (hc : isBlank c = true) (behind : List Char) :
    Cut (charsOf pieces ++ c :: behind) pieces (c :: behind) := by
  induction h with
  | nil => exact .nil
  | @cons piece text rest more hleads hcut ih =>
    have htext : text = charsOf more ++ rest := hcut.eq_append
    have hopen : ¬ IsOpenComment (piece.chars ++ charsOf more) := by
      intro hcomment
      have hle := hleads.longest _ hcomment.isPiece ⟨rest, by rw [htext, List.append_assoc]⟩
      match more with
      | [] =>
        -- the piece itself, which is a lexeme
        obtain ⟨chars, lexeme?⟩ := piece
        obtain ⟨l, rfl⟩ := Option.ne_none_iff_exists'.1 (hlast _ rfl)
        rw [charsOf, List.flatMap_nil, List.append_nil] at hcomment
        exact hleads.isPiece.not_isOpenComment hcomment
      | next :: others =>
        have hnext := hcut.isPiece next List.mem_cons_self
        have hpos := List.length_pos_iff.2 hnext.ne_nil
        rw [charsOf, List.flatMap_cons, List.length_append, List.length_append] at hle
        omega
    have hmore : ∀ piece ∈ more.getLast?, piece.lexeme? ≠ none := by
      intro last hmem
      refine hlast last ?_
      rw [List.getLast?_cons, Option.mem_def.1 hmem]
      rfl
    rw [htext] at hleads
    rw [charsOf, List.flatMap_cons, List.append_assoc]
    exact .cons (hleads.before_blank hc (.inr hopen) behind) (ih hmore)

/-! ### The lexemes of pieces -/

theorem lexemes_tokensOf (before : List Char) (pieces : List Piece) :
    (tokensOf before pieces).map Token.lexeme = pieces.filterMap Piece.lexeme? := by
  induction pieces generalizing before with
  | nil => rfl
  | cons piece more ih =>
    obtain ⟨chars, _ | l⟩ := piece
    · exact ih _
    · exact congrArg (l :: ·) (ih _)

/-- Pieces of a text with tokens fit. -/
theorem Cut.fits {text rest : List Char} {pieces : List Piece} (h : Cut text pieces rest)
    {p : Position} {ts : List Token} (hread : Source.tokensFrom p text = .ok ts) :
    ∀ piece ∈ pieces, piece.Fits := by
  induction h generalizing p ts with
  | nil => exact List.forall_mem_nil _
  | @cons piece text rest more hleads hcut ih =>
    have hfits : piece.Fits := by
      intro n hnumber
      by_contra hlarge
      obtain ⟨chars, lexeme?⟩ := piece
      obtain rfl : lexeme? = some (.number n) := hnumber
      rw [hleads.tokensFrom_number (by omega)] at hread
      cases hread
    refine List.forall_mem_cons.2 ⟨hfits, ?_⟩
    obtain ⟨chars, _ | l⟩ := piece
    · rw [hleads.tokensFrom_none] at hread
      exact ih hread
    · rw [(hleads.readsAs hfits).tokensFrom_ok] at hread
      cases hmore : Source.tokensFrom (p.afterAll chars) text with
      | error fault =>
        rw [hmore] at hread
        cases hread
      | ok us => exact ih hmore

/-- The tokens of a text that is cut to its end. -/
theorem Cut.tokens {text : List Char} {pieces : List Piece} (h : Cut text pieces [])
    (hfits : ∀ piece ∈ pieces, piece.Fits) :
    Source.tokensFrom .start text =
      .ok (tokensOf [] pieces ++ [⟨.finish, positionBehind text⟩]) := by
  have hread := h.tokensFrom hfits []
  have htext := h.eq_append
  rw [List.append_nil] at htext
  rw [List.nil_append, ← htext, tokensFrom_nil] at hread
  exact hread

/-- What offends behind pieces is the fault of the text. -/
theorem Cut.stops {text rest : List Char} {pieces : List Piece} {g : GrammarFault}
    (h : Cut text pieces rest) (hfits : ∀ piece ∈ pieces, piece.Fits) (hoffends : Offends rest g) :
    Source.tokensFrom .start text = .error (.grammar (positionBehind (charsOf pieces)) g) := by
  have hread := h.tokensFrom hfits []
  rw [List.nil_append, hoffends.tokensFrom] at hread
  exact hread

/-- A text with tokens is cut to its end. -/
theorem exists_cut_of_ok {text : List Char} {ts : List Token}
    (h : tokensFrom .start text = .ok ts) : ∃ pieces, Cut text pieces [] ∧
      ts = tokensOf [] pieces ++ [⟨.finish, positionBehind text⟩] := by
  obtain ⟨pieces, rest, hcut, hfits, rfl | ⟨g, hoffends⟩⟩ := exists_cut text
  · rw [hcut.tokens hfits] at h
    exact ⟨pieces, hcut, (Except.ok.inj h).symm⟩
  · rw [hcut.stops hfits hoffends] at h
    cases h

/-- White space, and comments that end with their lines. -/
inductive IsLayout : List Char → Prop where
  /-- Nothing. -/
  | nil : IsLayout []
  /-- A white-space character. -/
  | blank {c : Char} {rest : List Char} : isBlank c = true → IsLayout rest → IsLayout (c :: rest)
  /-- A comment and the line feed behind it. -/
  | comment {cs rest : List Char} : '\n' ∉ cs → IsLayout rest →
      IsLayout (('/' :: '/' :: cs) ++ '\n' :: rest)

/-- A layout is cut into pieces that are no lexemes, whatever stands behind it. -/
theorem IsLayout.exists_cut {layout : List Char} (h : IsLayout layout) (behind : List Char) :
    ∃ pieces, (∀ piece ∈ pieces, piece.lexeme? = none) ∧ Cut (layout ++ behind) pieces behind := by
  induction h with
  | nil => exact ⟨[], List.forall_mem_nil _, .nil⟩
  | @blank c rest hc _ ih =>
    obtain ⟨pieces, hnone, hcut⟩ := ih
    exact ⟨⟨[c], none⟩ :: pieces, List.forall_mem_cons.2 ⟨rfl, hnone⟩,
      .cons (leads_blank hc _) hcut⟩
  | @comment cs rest hcs _ ih =>
    obtain ⟨pieces, hnone, hcut⟩ := ih
    refine ⟨⟨'/' :: '/' :: cs, none⟩ :: ⟨['\n'], none⟩ :: pieces,
      List.forall_mem_cons.2 ⟨rfl, List.forall_mem_cons.2 ⟨rfl, hnone⟩⟩, ?_⟩
    rw [List.append_assoc]
    exact .cons (leads_comment hcs _) (.cons (leads_blank (by decide) _) hcut)

/-- The second text has another layout at one place: where the first has white space and comments,
none or some, behind a lexeme or at the start, the second has a layout that starts with white
space. -/
inductive Relaid : List Char → List Char → Prop where
  /-- What is in front, the old layout and what is behind, as pieces, and the new layout. -/
  | mk {front gap behind : List Piece} {c : Char} {layout : List Char} :
      Cut (charsOf front ++ (charsOf gap ++ charsOf behind)) (front ++ (gap ++ behind)) [] →
      (∀ piece ∈ front.getLast?, piece.lexeme? ≠ none) → (∀ piece ∈ gap, piece.lexeme? = none) →
      isBlank c = true → IsLayout (c :: layout) →
      Relaid (charsOf front ++ (charsOf gap ++ charsOf behind))
        (charsOf front ++ (c :: layout ++ charsOf behind))

/-- White space between a reserved word or a sign and a text with tokens may be replaced. -/
theorem Lexeme.Fixed.relaid {l : Lexeme} (hl : l.Fixed) {c d : Char} (hc : isBlank c = true)
    (hd : isBlank d = true) {layout : List Char} (hlayout : IsLayout (d :: layout))
    {text : List Char} {ts : List Token} (hread : tokensFrom .start text = .ok ts) :
    Relaid (l.spelling.toList ++ c :: text) (l.spelling.toList ++ (d :: layout ++ text)) := by
  obtain ⟨behind, hcut, -⟩ := exists_cut_of_ok hread
  obtain rfl : text = charsOf behind := by
    rw [hcut.eq_append, List.append_nil, charsOf]
  have hword : Cut (l.spelling.toList ++ []) [⟨l.spelling.toList, some l⟩] [] :=
    .cons (IsPiece.fixed hl).leads_alone .nil
  have hlast : ∀ piece ∈ [(⟨l.spelling.toList, some l⟩ : Piece)].getLast?,
      piece.lexeme? ≠ none := by
    intro piece hpiece
    rw [← Option.some.inj hpiece]
    exact Option.some_ne_none l
  have hgap : ∀ piece ∈ [(⟨[c], none⟩ : Piece)], piece.lexeme? = none :=
    List.forall_mem_singleton.2 rfl
  have hrow := (hword.before_blank hlast hc _).append (.cons (leads_blank hc _) hcut)
  have h := Relaid.mk hrow hlast hgap hd hlayout
  simpa [charsOf] using h

/-- **Another layout leaves the lexemes what they are.** -/
theorem Relaid.lexemes_eq {text text' : List Char} (h : Relaid text text') {ts : List Token}
    (hread : tokensFrom .start text = .ok ts) :
    ∃ ts', tokensFrom .start text' = .ok ts' ∧ ts'.map Token.lexeme = ts.map Token.lexeme := by
  obtain ⟨hcut, hlast, hgap, hc, hlayout⟩ := h
  rename_i front gap behind c layout
  obtain ⟨mid, hfront, hmid⟩ := hcut.split
  obtain ⟨mid', -, hbehind⟩ := hmid.split
  obtain rfl : mid' = charsOf behind := by
    rw [hbehind.eq_append, List.append_nil, charsOf]
  obtain ⟨pieces, hnone, hpieces⟩ := hlayout.exists_cut (charsOf behind)
  have hcut' : Cut (charsOf front ++ (c :: layout ++ charsOf behind))
      (front ++ (pieces ++ behind)) [] :=
    (hfront.before_blank hlast hc _).append (hpieces.append hbehind)
  have hfits := hcut.fits hread
  have hfits' : ∀ piece ∈ front ++ (pieces ++ behind), piece.Fits := by
    intro piece hmem
    rcases List.mem_append.1 hmem with hmem | hmem
    · exact hfits piece (List.mem_append_left _ hmem)
    rcases List.mem_append.1 hmem with hmem | hmem
    · intro n hnumber
      rw [hnone piece hmem] at hnumber
      cases hnumber
    · exact hfits piece (List.mem_append_right _ (List.mem_append_right _ hmem))
  refine ⟨_, hcut'.tokens hfits', ?_⟩
  rw [hcut.tokens hfits] at hread
  rw [← Except.ok.inj hread]
  have hgap' : gap.filterMap Piece.lexeme? = [] := List.filterMap_eq_nil_iff.2 hgap
  have hnone' : pieces.filterMap Piece.lexeme? = [] := List.filterMap_eq_nil_iff.2 hnone
  simp only [List.map_append, lexemes_tokensOf, List.filterMap_append, hgap', hnone']
  rfl

end Ingot.Source
