import GuardedFlow.Text.Label
import Mathlib.Algebra.Ring.Parity
import Mathlib.Data.List.DropRight

/-!
# Reading labels

`unescape` reads what the characters of a label stand for, and `rows` divides a label at the marks that
set what is before them to the left. A text that keeps to escapes is `Quotable`: between quotes it is
read as a whole, because every quote in it comes after an odd number of backslashes. Labels are quotable
and have no line breaks, whatever the string is, and so are labels that are joined by marks.
-/

namespace GuardedFlow.Text

/-- A string without its carriage returns. -/
def dropReturns (s : String) : String := String.ofList (s.toList.filter (· != '\r'))

/-- Whether a line ends at a character. -/
def isLineBreak (c : Char) : Bool := c == '\n' || c == '\r'

/-- A string on one line. -/
def Unbroken (s : String) : Prop := ∀ c ∈ s.toList, isLineBreak c = false

/-- Line breaks can be looked for. -/
instance (s : String) : Decidable (Unbroken s) := List.decidableBAll _ s.toList

/-- What the characters of a label stand for. An escape is a backslash with the character after it, and
stands for this character, but for the one of a line feed. -/
def unescape : List Char → List Char
  | [] => []
  | '\\' :: 'n' :: rest => '\n' :: unescape rest
  | '\\' :: c :: rest => c :: unescape rest
  | c :: rest => c :: unescape rest

/-- The string that a label stands for. -/
def unlabel (s : String) : String := String.ofList (unescape s.toList)

/-- The rows of a label, still escaped: each but the last one has a mark after it that sets it to the
left. -/
def rows : List Char → List (List Char)
  | [] => [[]]
  | '\\' :: 'l' :: rest => [] :: rows rest
  | '\\' :: c :: rest => (rows rest).modifyHead ('\\' :: c :: ·)
  | c :: rest => (rows rest).modifyHead (c :: ·)

/-- The strings that the rows of a label stand for. -/
def unlabelRows (s : String) : List String := (rows s.toList).map fun row => String.ofList (unescape row)

/-- How many backslashes a text ends in. -/
def slashes (cs : List Char) : Nat := (cs.rtakeWhile (· == '\\')).length

/-- A text made of escapes and of characters that need none. -/
inductive Quotable : List Char → Prop
  | nil : Quotable []
  | char {c : Char} {rest : List Char} (hslash : c ≠ '\\') (hquote : c ≠ '"')
      (hrest : Quotable rest) : Quotable (c :: rest)
  | escape {c : Char} {rest : List Char} (hrest : Quotable rest) : Quotable ('\\' :: c :: rest)

/-- What stands for a character in a label: the escape of a line feed, nothing, the escape of the
character, or the character itself. -/
inductive Spelled : Char → List Char → Prop
  | lineFeed : Spelled '\n' ['\\', 'n']
  | dropped : Spelled '\r' []
  | escaped {c : Char} (hspecial : isLabelSpecial c) : Spelled c ['\\', c]
  | plain {c : Char} (hslash : c ≠ '\\') (hquote : c ≠ '"') (hbreak : isLineBreak c = false) :
      Spelled c [c]

/-! ### One character -/

/-- Every character is spelled as a label spells it. -/
theorem spelled_labelChar (c : Char) : Spelled c (labelChar c) := by
  unfold labelChar
  split_ifs with hfeed hreturn hspecial
  · rw [hfeed]
    exact .lineFeed
  · rw [hreturn]
    exact .dropped
  · exact .escaped hspecial
  · refine .plain ?_ ?_ (by simp [isLineBreak, hfeed, hreturn])
    · rintro rfl
      exact hspecial rfl
    · rintro rfl
      exact hspecial rfl

/-- A special character is different from one that is not special. -/
theorem ne_of_isLabelSpecial {c d : Char} (hc : isLabelSpecial c) (hd : isLabelSpecial d = false) :
    c ≠ d := by
  rintro rfl
  rw [hc] at hd
  contradiction

/-! ### Reading back -/

/-- The characters of a label stand for those of the string, carriage returns apart. -/
theorem unescape_label (cs rest : List Char) :
    unescape (cs.flatMap labelChar ++ rest) = cs.filter (· != '\r') ++ unescape rest := by
  induction cs with
  | nil => rfl
  | cons c cs ih =>
    have hspelled := spelled_labelChar c
    rw [List.flatMap_cons, List.append_assoc]
    generalize labelChar c = spelling at hspelled ⊢
    cases hspelled with
    | lineFeed => simpa [unescape] using ih
    | dropped => simpa using ih
    | escaped hspecial =>
      -- neither the letter of a line feed nor a carriage return has an escape of its own
      have hletter : c ≠ 'n' := ne_of_isLabelSpecial hspecial rfl
      have hreturn : c ≠ '\r' := ne_of_isLabelSpecial hspecial rfl
      simpa [unescape, hletter, hreturn] using ih
    | plain hslash _ hbreak =>
      obtain ⟨-, hreturn⟩ : c ≠ '\n' ∧ c ≠ '\r' := by simpa [isLineBreak] using hbreak
      simpa [unescape, hslash, hreturn] using ih

/-- Text without backslashes stands for itself. -/
theorem unescape_plain {cs : List Char} (h : '\\' ∉ cs) : unescape cs = cs := by
  induction cs with
  | nil => rfl
  | cons c cs ih =>
    obtain ⟨hc, hcs⟩ : '\\' ≠ c ∧ '\\' ∉ cs := by simpa using h
    simp [unescape, hc.symm, ih hcs]

/-- Nothing is put in front. -/
theorem modifyHead_nil_append {α : Type} : List.modifyHead (([] : List α) ++ ·) = id :=
  List.modifyHead_id

/-- A label has no marks. -/
theorem rows_label (cs rest : List Char) :
    rows (cs.flatMap labelChar ++ rest) = (rows rest).modifyHead (cs.flatMap labelChar ++ ·) := by
  induction cs with
  | nil => exact (congrFun modifyHead_nil_append _).symm
  | cons c cs ih =>
    have hspelled := spelled_labelChar c
    rw [List.flatMap_cons, List.append_assoc]
    generalize labelChar c = spelling at hspelled ⊢
    cases hspelled with
    | lineFeed => simp [rows, ih, Function.comp_def]
    | dropped => simp [ih]
    | escaped hspecial =>
      have hletter : c ≠ 'l' := ne_of_isLabelSpecial hspecial rfl
      simp [rows, ih, Function.comp_def]
    | plain hslash => simp [rows, ih, hslash, Function.comp_def]

/-- Characters other than a backslash stand for themselves. -/
theorem rows_plain {cs : List Char} (h : '\\' ∉ cs) (rest : List Char) :
    rows (cs ++ rest) = (rows rest).modifyHead (cs ++ ·) := by
  induction cs with
  | nil => exact (congrFun modifyHead_nil_append _).symm
  | cons c cs ih =>
    obtain ⟨hc, hcs⟩ : '\\' ≠ c ∧ '\\' ∉ cs := by simpa using h
    simp [rows, hc.symm, ih hcs, Function.comp_def]

/-- A string is read from its label. -/
theorem unlabel_label (s : String) : unlabel (label s) = dropReturns s := by
  have h := unescape_label s.toList []
  rw [List.append_nil, unescape, List.append_nil] at h
  rw [unlabel, label, String.toList_ofList, h, dropReturns]

/-- A backslash before the letter n is told apart from a line feed. -/
example : label "\\n\n" = "\\\\n\\n" ∧ unlabel "\\\\n\\n" = "\\n\n" := by
  decide

/-- A row is read up to its mark. -/
theorem unlabelRows_marked (s tail rest : String) (htail : '\\' ∉ tail.toList) :
    unlabelRows (label s ++ tail ++ "\\l" ++ rest) = (dropReturns s ++ tail) :: unlabelRows rest := by
  have hrows : rows (label s ++ tail ++ "\\l" ++ rest).toList =
      (s.toList.flatMap labelChar ++ tail.toList) :: rows rest.toList := by
    simp [label, List.append_assoc, rows_label, rows_plain htail, rows]
  rw [unlabelRows, hrows, List.map_cons, unescape_label, unescape_plain htail, String.ofList_append,
    String.ofList_toList]
  rfl

/-- Rows that end in marks are read one after another. -/
theorem unlabelRows_join (strings : List String) :
    unlabelRows (String.join (strings.map fun s => label s ++ "\\l")) =
      strings.map dropReturns ++ [""] := by
  induction strings with
  | nil => rfl
  | cons s strings ih =>
    have h := unlabelRows_marked s "" (String.join (strings.map fun s => label s ++ "\\l")) (by simp)
    rw [String.append_empty, String.append_empty, ih] at h
    rw [List.map_cons, String.join_cons, h, List.map_cons, List.cons_append]

/-! ### Line breaks -/

/-- A text is on one line if both parts are. -/
theorem unbroken_append {s t : String} : Unbroken (s ++ t) ↔ Unbroken s ∧ Unbroken t := by
  simp [Unbroken, or_imp, forall_and]

/-- A text is on one line if all parts are. -/
theorem unbroken_join {strings : List String} (h : ∀ s ∈ strings, Unbroken s) :
    Unbroken (String.join strings) := by
  intro c hc
  rw [String.toList_join] at hc
  obtain ⟨s, hs, hc⟩ := List.mem_flatMap.mp hc
  exact h s hs c hc

/-- A label is on one line. -/
theorem unbroken_label (s : String) : Unbroken (label s) := by
  intro c hc
  rw [label, String.toList_ofList] at hc
  obtain ⟨d, -, hd⟩ := List.mem_flatMap.mp hc
  have hspelled := spelled_labelChar d
  generalize labelChar d = spelling at hspelled hd
  cases hspelled with
  | lineFeed => obtain rfl | rfl := List.mem_pair.mp hd <;> rfl
  | dropped => cases hd
  | escaped hspecial =>
    obtain rfl | rfl := List.mem_pair.mp hd
    · rfl
    · have hfeed : c ≠ '\n' := ne_of_isLabelSpecial hspecial rfl
      have hreturn : c ≠ '\r' := ne_of_isLabelSpecial hspecial rfl
      simp [isLineBreak, hfeed, hreturn]
  | plain _ _ hbreak => rwa [List.mem_singleton.mp hd]

/-! ### Quotes -/

/-- The backslashes at the end of a text, which may reach into its first part. -/
theorem slashes_append (cs ds : List Char) :
    slashes (cs ++ ds) = if slashes ds = ds.length then slashes cs + ds.length else slashes ds := by
  simp only [slashes, List.rtakeWhile, List.reverse_append, List.takeWhile_append, List.length_reverse]
  split
  · simp [Nat.add_comm]
  · rfl

/-- Another character has no backslash. -/
theorem slashes_singleton {c : Char} (h : c ≠ '\\') : slashes [c] = 0 := by
  simp [slashes, List.rtakeWhile, h]

/-- An escaped backslash is two of them. -/
theorem slashes_pair (c : Char) : slashes ['\\', c] = if c = '\\' then 2 else 0 := by
  by_cases h : c = '\\' <;> simp [slashes, List.rtakeWhile, h]

namespace Quotable

/-- Texts that can be quoted can be quoted one after another. -/
theorem append {cs ds : List Char} (hcs : Quotable cs) (hds : Quotable ds) : Quotable (cs ++ ds) := by
  induction hcs with
  | nil => exact hds
  | char hslash hquote _ ih => exact .char hslash hquote ih
  | escape _ ih => exact .escape ih

/-- Texts that can be quoted can be quoted together. -/
theorem flatten {texts : List (List Char)} (h : ∀ cs ∈ texts, Quotable cs) : Quotable texts.flatten := by
  induction texts with
  | nil => exact .nil
  | cons cs texts ih =>
    rw [List.flatten_cons]
    exact (h cs List.mem_cons_self).append (ih fun ds hds => h ds (List.mem_cons_of_mem _ hds))

/-- A text without backslashes and quotes can be quoted. -/
theorem of_plain {cs : List Char} (hslash : '\\' ∉ cs) (hquote : '"' ∉ cs) : Quotable cs := by
  induction cs with
  | nil => exact .nil
  | cons c cs ih =>
    rw [List.mem_cons, not_or] at hslash hquote
    exact .char (Ne.symm hslash.1) (Ne.symm hquote.1) (ih hslash.2 hquote.2)

/-- The spelling of a character can be quoted. -/
theorem of_spelled {c : Char} {spelling : List Char} (h : Spelled c spelling) : Quotable spelling := by
  cases h with
  | lineFeed => exact .escape .nil
  | dropped => exact .nil
  | escaped => exact .escape .nil
  | plain hslash hquote => exact .char hslash hquote .nil

/-- A label keeps to escapes. -/
theorem of_label (s : String) : Quotable (label s).toList := by
  rw [label, String.toList_ofList, List.flatMap_def]
  refine flatten fun cs hcs => ?_
  obtain ⟨c, -, rfl⟩ := List.mem_map.mp hcs
  exact of_spelled (spelled_labelChar c)

/-- A quote in a quotable text comes after an odd number of backslashes. An escape in front of the others
adds two to this number or nothing. -/
theorem odd_slashes {cs : List Char} (h : Quotable cs) {before after : List Char}
    (hcs : cs = before ++ '"' :: after) : Odd (slashes before) := by
  induction h generalizing before with
  | nil => simp at hcs
  | char hslash hquote _ ih =>
    cases before with
    | nil => exact absurd (List.cons.inj hcs).1 hquote
    | cons c before =>
      obtain ⟨rfl, hrest⟩ := List.cons.inj hcs
      have hodd := ih hrest
      rw [← List.singleton_append, slashes_append, slashes_singleton hslash]
      split_ifs with hall
      · rwa [Nat.zero_add, ← hall]
      · exact hodd
  | escape _ ih =>
    match before with
    | [] => simp at hcs
    | [c] =>
      rw [← (List.cons.inj hcs).1]
      decide
    | c :: d :: before =>
      obtain ⟨hc, hcs⟩ := List.cons.inj hcs
      obtain ⟨-, hrest⟩ := List.cons.inj hcs
      have hodd := ih hrest
      rw [← hc]
      change Odd (slashes (['\\', d] ++ before))
      rw [slashes_append, slashes_pair]
      split_ifs with hall hslash
      · rw [← hall]
        exact even_two.add_odd hodd
      · rwa [Nat.zero_add, ← hall]
      · exact hodd

end Quotable

/-- A label keeps its string, and ends neither its line nor the quotes that it is in. -/
structure Labelled (s : String) : Prop where
  /-- The string is read from its label, carriage returns apart. -/
  recovered : unlabel (label s) = dropReturns s
  /-- There is no line break in a label. -/
  unbroken : ∀ c ∈ (label s).toList, c ≠ '\n' ∧ c ≠ '\r'
  /-- Every quote in a label comes after an odd number of backslashes. -/
  escaped : ∀ before after, (label s).toList = before ++ '"' :: after → Odd (slashes before)

/-- The label of any text can be read back. -/
theorem labelled (s : String) : Labelled s where
  recovered := unlabel_label s
  unbroken c hc := by simpa [isLineBreak] using unbroken_label s c hc
  escaped _ _ := (Quotable.of_label s).odd_slashes

end GuardedFlow.Text
