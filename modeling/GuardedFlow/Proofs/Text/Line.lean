import GuardedFlow.Proofs.Text.Label

/-!
# Reading lines

A line is read from left to right: a quote opens a piece, and the first quote after it that is no part of
an escape ends the piece. Lines are written by joining their pieces with quotes. `Joinable.pieces_lineOf`
says that such a line is read as it was written if the pieces inside of quotes keep to escapes, and
`lines_join` that written lines are told apart again if none of them contains a line break.
-/

namespace GuardedFlow.Text

/-- The lines of a text. What comes after the last line break is a line as well. -/
def lines (s : String) : List String := (s.toList.splitOnP isLineBreak).map String.ofList

mutual

/-- The pieces of a line from a place outside of quotes on. -/
def outside : List Char → Option (List (List Char))
  | [] => some [[]]
  | '"' :: rest => (inside rest).map ([] :: ·)
  | c :: rest => (outside rest).map (·.modifyHead (c :: ·))

/-- The pieces of a line from a place inside of quotes on; none if the quotes are not closed. -/
def inside : List Char → Option (List (List Char))
  | [] => none
  | '"' :: rest => (outside rest).map ([] :: ·)
  | '\\' :: c :: rest => (inside rest).map (·.modifyHead ('\\' :: c :: ·))
  | c :: rest => (inside rest).map (·.modifyHead (c :: ·))

end

/-- The pieces of a line, by turns outside and inside of quotes. -/
def pieces (line : String) : Option (List String) := (outside line.toList).map (·.map String.ofList)

/-- The line that has these pieces. -/
def lineOf (pieces : List String) : String := "\"".intercalate pieces

/-- A text that can stand outside of quotes on a line. -/
def Plain (s : String) : Prop := '"' ∉ s.toList ∧ Unbroken s

/-- Quotes can be looked for. -/
instance (s : String) : Decidable (Plain s) := inferInstanceAs (Decidable (_ ∧ _))

/-- A text that can stand inside of quotes on a line. -/
structure Content (s : String) : Prop where
  quotable : Quotable s.toList
  unbroken : Unbroken s

/-- Pieces that make up a line. -/
inductive Joinable : List String → Prop
  | plain {s : String} (hs : Plain s) : Joinable [s]
  | quoted {lead content : String} {rest : List String} (hlead : Plain lead)
      (hcontent : Content content) (hrest : Joinable rest) : Joinable (lead :: content :: rest)

/-- A text has no quotes if both parts have none. -/
theorem plain_append {s t : String} : Plain (s ++ t) ↔ Plain s ∧ Plain t := by
  simp only [Plain, unbroken_append, String.toList_append, List.mem_append, not_or]
  exact and_and_and_comm

/-- The digits of a number are neither quotes nor line breaks. -/
theorem plain_toString (n : Nat) : Plain (toString n) := by
  have hdigit {c : Char} (hc : c ∈ (toString n).toList) : c.isDigit := by
    rw [Nat.toString_eq_repr, Nat.toList_repr] at hc
    exact Nat.isDigit_of_mem_toDigits (by decide) (by decide) hc
  refine ⟨fun hquote => absurd (hdigit hquote) (by decide), fun c hc => ?_⟩
  rw [isLineBreak, Bool.or_eq_false_iff, beq_eq_false_iff_ne, beq_eq_false_iff_ne]
  constructor <;> rintro rfl <;> exact absurd (hdigit hc) (by decide)

namespace Content

/-- A text without quotes and backslashes may stand in quotes. -/
theorem of_plain {s : String} (hslash : '\\' ∉ s.toList) (hs : Plain s) : Content s :=
  ⟨.of_plain hslash hs.1, hs.2⟩

/-- Contents may stand in quotes one after another. -/
theorem append {s t : String} (hs : Content s) (ht : Content t) : Content (s ++ t) where
  quotable := by
    rw [String.toList_append]
    exact hs.quotable.append ht.quotable
  unbroken := unbroken_append.mpr ⟨hs.unbroken, ht.unbroken⟩

/-- Contents may stand in quotes together. -/
theorem join {strings : List String} (h : ∀ s ∈ strings, Content s) : Content (String.join strings) where
  quotable := by
    rw [String.toList_join, List.flatMap_def]
    refine .flatten fun cs hcs => ?_
    obtain ⟨s, hs, rfl⟩ := List.mem_map.mp hcs
    exact (h s hs).quotable
  unbroken := unbroken_join fun s hs => (h s hs).unbroken

/-- A label may stand in quotes. -/
theorem label (s : String) : Content (label s) := ⟨.of_label s, unbroken_label s⟩

/-- The mark that sets a row to the left. -/
theorem mark : Content "\\l" := ⟨.escape .nil, by decide⟩

end Content

/-- Nothing is put in front. -/
theorem map_modifyHead_nil_append {α : Type} :
    Option.map (List.modifyHead (([] : List α) ++ ·)) = id := by
  rw [modifyHead_nil_append, Option.map_id]

/-- Characters other than a quote are outside of quotes. -/
theorem outside_plain {cs : List Char} (h : '"' ∉ cs) (rest : List Char) :
    outside (cs ++ rest) = (outside rest).map (·.modifyHead (cs ++ ·)) := by
  induction cs with
  | nil => exact (congrFun map_modifyHead_nil_append _).symm
  | cons c cs ih =>
    obtain ⟨hc, hcs⟩ : '"' ≠ c ∧ '"' ∉ cs := by simpa using h
    simp [outside, hc.symm, ih hcs, Function.comp_def]

/-- Quotable text does not close the quotes that it is in. -/
theorem inside_quotable {cs : List Char} (h : Quotable cs) (rest : List Char) :
    inside (cs ++ rest) = (inside rest).map (·.modifyHead (cs ++ ·)) := by
  induction h with
  | nil => exact (congrFun map_modifyHead_nil_append _).symm
  | char hslash hquote _ ih => simp [inside, hslash, ih, Function.comp_def]
  | escape _ ih => simp [inside, ih, Function.comp_def]

/-- The first line ends at its line break. -/
theorem lines_append {line : String} (h : Unbroken line) (rest : String) :
    lines (line ++ "\n" ++ rest) = line :: lines rest := by
  have hsplit := List.splitOnP_append_cons_of_forall_mem h '\n' rfl rest.toList
  simp [lines, hsplit]

/-- Lines that end in line feeds are read one after another. -/
theorem lines_join {strings : List String} (h : ∀ s ∈ strings, Unbroken s) :
    lines (String.join (strings.map (· ++ "\n"))) = strings ++ [""] := by
  induction strings with
  | nil => rfl
  | cons s strings ih =>
    rw [List.map_cons, String.join_cons, lines_append (h s List.mem_cons_self),
      ih fun t ht => h t (List.mem_cons_of_mem _ ht), List.cons_append]

namespace Joinable

variable {parts : List String}

/-- A line has a first piece. -/
theorem ne_nil (h : Joinable parts) : parts ≠ [] := by
  cases h <;> simp

/-- A line with a quoted piece in front. -/
theorem lineOf_cons {lead content : String} {rest : List String} (h : Joinable rest) :
    lineOf (lead :: content :: rest) = lead ++ "\"" ++ (content ++ "\"" ++ lineOf rest) := by
  rw [lineOf, String.intercalate_cons_cons, String.intercalate_cons_of_ne_nil h.ne_nil]
  rfl

/-- The line of joinable pieces has no line break. -/
theorem unbroken (h : Joinable parts) : Unbroken (lineOf parts) := by
  induction h with
  | plain hs => simpa [lineOf] using hs.2
  | quoted hlead hcontent hrest ih =>
    have hquote : Unbroken "\"" := by decide
    rw [lineOf_cons hrest]
    simp only [unbroken_append]
    exact ⟨⟨hlead.2, hquote⟩, ⟨hcontent.unbroken, hquote⟩, ih⟩

/-- Joined pieces are read one after another. -/
theorem outside_lineOf (h : Joinable parts) :
    outside (lineOf parts).toList = some (parts.map String.toList) := by
  induction h with
  | plain hs =>
    have h := outside_plain hs.1 []
    simpa [lineOf, outside] using h
  | @quoted lead content rest hlead hcontent hrest ih =>
    rw [lineOf_cons hrest]
    simp only [String.toList_append, List.append_assoc]
    rw [outside_plain hlead.1]
    change Option.map _ (outside ('"' :: (content.toList ++ ('"' :: (lineOf rest).toList)))) = _
    rw [outside, inside_quotable hcontent.quotable, inside, ih]
    simp

/-- The pieces of a line can be read back. -/
theorem pieces_lineOf (h : Joinable parts) : pieces (lineOf parts) = some parts := by
  simp [pieces, h.outside_lineOf]

/-- A quote that is part of an escape ends nothing, and one that is not ends the piece too early. -/
example : pieces "[label=\"a\\\"b\"];" = some ["[label=", "a\\\"b", "];"] ∧
    pieces "[label=\"a\"b\"];" = none := by
  decide

end Joinable

end GuardedFlow.Text
