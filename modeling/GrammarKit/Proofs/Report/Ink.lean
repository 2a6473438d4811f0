import GrammarKit.Report.Ink

/-!
Highlighted reports against plain ones. A section is written in two pieces where its first line is
bold, and the line feed between them is written only if something stands behind it. Nothing is lost
by that, since no section consists of one line and its line feed.

Main statement: without its styles a highlighted report is the plain report and a line feed, and
every style is taken back before the next is set and before the end.
-/

namespace GrammarKit

namespace Ink

def plainText (inks : List Ink) : List Char := inks.flatMap plain

@[simp] theorem plainText_nil : plainText [] = [] := rfl

@[simp] theorem plainText_cons (i : Ink) (inks : List Ink) :
    plainText (i :: inks) = i.plain ++ plainText inks := rfl

@[simp] theorem plainText_append (a b : List Ink) :
    plainText (a ++ b) = plainText a ++ plainText b := List.flatMap_append

/-- Behind every style a reset comes before any other style. -/
def TakenBack (inks : List Ink) : Prop :=
  ∀ before colour after, inks = before ++ bold colour :: after →
    ∃ styled rest, after = styled ++ reset :: rest ∧ ∀ colour', bold colour' ∉ styled

theorem TakenBack.append {a b : List Ink} (ha : TakenBack a) (hb : TakenBack b) :
    TakenBack (a ++ b) := by
  intro before colour after split
  rcases List.append_eq_append_iff.1 split with ⟨gap, rfl, hgap⟩ | ⟨gap, hgap, hafter⟩
  · exact hb gap colour after hgap
  -- The style is the first of `gap`, unless `a` ends in front of it.
  cases gap with
  | nil =>
    rw [List.nil_append] at hafter
    exact hb [] colour after hafter.symm
  | cons i gap =>
    obtain ⟨rfl, rfl⟩ : bold colour = i ∧ after = gap ++ b := by simpa using hafter
    obtain ⟨styled, rest, rfl, unstyled⟩ := ha before colour gap hgap
    exact ⟨styled, rest ++ b, by simp, unstyled⟩

theorem takenBack_of_forall {inks : List Ink} (h : ∀ colour, bold colour ∉ inks) :
    TakenBack inks := by
  intro before colour after split
  exact absurd (split ▸ List.mem_append_right before List.mem_cons_self) (h colour)

theorem takenBack_styled (colour : Option Colour) (cs : List Char) :
    TakenBack [bold colour, text cs, reset] := by
  intro before colour' after split
  cases before with
  | nil =>
    obtain ⟨-, rfl⟩ : bold colour = bold colour' ∧ [text cs, reset] = after := by simpa using split
    exact ⟨[text cs], [], rfl, by simp⟩
  | cons i before =>
    obtain ⟨-, split⟩ : bold colour = i ∧ [text cs, reset] = before ++ bold colour' :: after := by
      simpa using split
    have styled : bold colour' ∈ [text cs, reset] := split ▸ by simp
    simp at styled

theorem takenBack_ofSection (s : SectionKind × List Char) : TakenBack (ofSection s) := by
  obtain ⟨kind, body⟩ := s
  have bold_first (header rest : List Char) : TakenBack
      ([bold none, text header, reset] ++ if rest.isEmpty then [] else [text ('\n' :: rest)]) := by
    refine (takenBack_styled none header).append (takenBack_of_forall fun colour => ?_)
    split <;> simp
  cases kind with
  | title => exact takenBack_styled _ _
  | reasonsHeader => exact takenBack_styled _ _
  | location => exact bold_first _ _
  | patterns => exact bold_first _ _

theorem takenBack_ofSections (sections : List (SectionKind × List Char)) :
    TakenBack (ofSections sections) := by
  fun_induction ofSections sections with
  | case1 => exact takenBack_of_forall (by simp)
  | case2 last => exact takenBack_ofSection last
  | case3 first sections _ ih =>
    have gap : TakenBack [text ['\n', '\n']] := takenBack_of_forall (by simp)
    exact (takenBack_ofSection first).append (gap.append ih)

/-- A text of which nothing is lost when it is cut behind its first line. -/
def Whole (body : List Char) : Prop := ∀ header, '\n' ∉ header → body ≠ header ++ ['\n']

theorem plainText_ofSection {kind : SectionKind} {body : List Char} (h : Whole body) :
    plainText (ofSection (kind, body)) = body := by
  have cut : body.takeWhile (· ≠ '\n') ++ body.dropWhile (· ≠ '\n') = body :=
    List.takeWhile_append_dropWhile
  have bold_first : plainText
      ([bold none, text (body.takeWhile (· ≠ '\n')), reset] ++
        if ((body.dropWhile (· ≠ '\n')).drop 1).isEmpty then []
        else [text ('\n' :: (body.dropWhile (· ≠ '\n')).drop 1)]) = body := by
    cases hrest : body.dropWhile (· ≠ '\n') with
    | nil =>
      rw [hrest] at cut
      simpa [plain] using cut
    | cons c rest =>
      obtain rfl : c = '\n' := by
        have stop := List.head?_dropWhile_not (· ≠ '\n') body
        rw [hrest] at stop
        simpa using stop
      rw [hrest] at cut
      have behind : rest ≠ [] := by
        rintro rfl
        refine h _ (fun mem => ?_) cut.symm
        simpa using List.all_eq_true.1 List.all_takeWhile _ mem
      rw [List.drop_succ_cons, List.drop_zero, if_neg (by simpa using behind)]
      simpa [plain] using cut
  cases kind with
  | title => simp [ofSection, plain]
  | reasonsHeader => simp [ofSection, plain]
  | location => exact bold_first
  | patterns => exact bold_first

theorem plainText_ofSections {sections : List (SectionKind × List Char)}
    (h : ∀ s ∈ sections, plainText (ofSection s) = s.2) :
    plainText (ofSections sections) = joinWith ['\n', '\n'] (sections.map Prod.snd) := by
  fun_induction ofSections sections with
  | case1 => rfl
  | case2 last => exact h last (List.mem_singleton_self last)
  | case3 first sections some ih =>
    obtain ⟨hfirst, hrest⟩ := List.forall_mem_cons.1 h
    obtain ⟨second, sections, rfl⟩ := List.exists_cons_of_ne_nil some
    simp only [plainText_append, plainText_cons, hfirst, ih hrest, List.map_cons, joinWith, plain]
    simp

end Ink

namespace FailureSite

variable (r : FailureSite)

theorem whole_location (width : List Char → Nat) (text : String) :
    Ink.Whole (r.location width text) := by
  intro header _ same
  have last := congrArg List.getLast? same
  have fence : "\n```".toList.getLast? = some '`' := by decide
  unfold location at last
  rw [List.getLast?_append, fence, List.getLast?_concat] at last
  cases last

theorem whole_patternsSection : Ink.Whole r.patternsSection := by
  intro header single same
  unfold patternsSection at same
  have below : '\n' ∈ ":\n".toList := by decide
  rw [← List.append_cancel_right same, List.mem_append, List.mem_append] at single
  exact single (.inl (.inr below))

end FailureSite

namespace Report

variable (f : Report) (title : String) (width : List Char → Nat)

/-- A section with a bold first line is never that line and its line feed alone. -/
theorem plainText_of_mem_sections {s : SectionKind × List Char}
    (h : s ∈ f.sections width title) :
    Ink.plainText (Ink.ofSection s) = s.2 := by
  simp only [sections, List.mem_append, List.mem_cons, List.not_mem_nil, or_false] at h
  rcases h with ((rfl | rfl) | h) | h
  · simp [Ink.ofSection, Ink.plain]
  · exact Ink.plainText_ofSection (f.primary.whole_location width f.text)
  · split at h
    · cases h
    · obtain rfl := List.mem_singleton.1 h
      exact Ink.plainText_ofSection f.primary.whole_patternsSection
  · split at h
    · cases h
    rcases List.mem_cons.1 h with rfl | h
    · simp [Ink.ofSection, Ink.plain]
    · obtain ⟨r, -, rfl⟩ := List.mem_map.1 h
      exact Ink.plainText_ofSection (r.whole_location width f.text)

/-- The highlighted report is the plain one with styles that are all taken back, however columns are
counted. -/
theorem ink_plain :
    Ink.plainText (f.ink title width) = (f.render title width).toList ++ ['\n'] ∧
      Ink.TakenBack (f.ink title width) := by
  constructor
  · rw [ink, Ink.plainText_append,
      Ink.plainText_ofSections fun s mem => f.plainText_of_mem_sections title width mem, render,
      String.toList_ofList]
    rfl
  · exact (Ink.takenBack_ofSections _).append (Ink.takenBack_of_forall (by simp))

end Report

end GrammarKit
