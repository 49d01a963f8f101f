import MarkupTidy.Diagnostic
import MarkupTidy.Proofs.Text.Pieces
import MarkupTidy.Proofs.Text.Trimmed
import Mathlib.Tactic.Basic

/-!
Which diagnostics are read from a report. A search that goes through the whole text, takes a
diagnostic up to the end of its line wherever one begins and goes on behind it, finds those that are
read line by line. So a report that is put together from diagnostics and other lines gives back its
diagnostics, however its lines end, and joined reports give theirs one after the other.
-/
namespace MarkupTidy.Diagnostic

/-- A diagnostic as it is written. -/
def Parts.text (parts : Parts) : List Char :=
  "line ".toList ++ (parts.line ++ (" column ".toList ++ (parts.column ++ (" - ".toList ++
    (parts.severity.name.toList ++ (": ".toList ++ parts.message))))))

/-- Nothing but digits, and at least one. -/
def IsNumeral (digits : List Char) : Prop := digits ≠ [] ∧ ∀ c ∈ digits, Text.isDigit c = true

instance (digits : List Char) : Decidable (IsNumeral digits) :=
  decidable_of_iff (digits ≠ [] ∧ digits.all Text.isDigit = true) (by simp [IsNumeral])

/-- The place is given in digits, and the message is not empty and in one line. -/
structure Parts.IsWritten (parts : Parts) : Prop where
  line : IsNumeral parts.line
  column : IsNumeral parts.column
  message : parts.message ≠ []
  oneLine : '\n' ∉ parts.message

/-- A diagnostic begins at the head of the text. -/
def Begins (s : List Char) : Prop :=
  ∃ (parts : Parts) (behind : List Char), parts.IsWritten ∧ s = parts.text ++ behind

/-- A diagnostic stands somewhere in the text. -/
def Occurs (s : List Char) : Prop := ∃ before behind, s = before ++ behind ∧ Begins behind

/-- What a search finds in a text: where a diagnostic begins it is taken to the end of its line and
the search goes on behind it, elsewhere it goes on with the next character. -/
inductive Finds : List Char → List Parts → Prop
  | nil : Finds [] []
  | skip {c : Char} {rest : List Char} {found : List Parts} (hnot : ¬ Begins (c :: rest))
    (h : Finds rest found) : Finds (c :: rest) found
  | take {parts : Parts} {behind : List Char} {found : List Parts} (hparts : parts.IsWritten)
    (hend : Text.Stops (· != '\n') behind) (h : Finds behind found) :
    Finds (parts.text ++ behind) (parts :: found)

/-- The numbers of the place are within the digit limit. -/
def Parts.Fits (parts : Parts) : Prop :=
  parts.line.length ≤ digitLimit ∧ parts.column.length ≤ digitLimit

instance (parts : Parts) : Decidable parts.Fits := inferInstanceAs (Decidable (_ ∧ _))

/-- What a diagnostic says. -/
def Parts.diagnostic (parts : Parts) : Diagnostic :=
  ⟨Text.digitsValue parts.line, Text.digitsValue parts.column, parts.severity,
    String.ofList (Text.trim parts.message)⟩

/-- The numbers in the diagnostics of a report are within the digit limit. -/
def HasShortPlaces (report : String) : Prop :=
  ∀ found, Finds report.toList found → ∀ parts ∈ found, parts.Fits

/-- The diagnostics as they are written in the lines of a text. -/
def partsOf (s : List Char) : List Parts := (Text.pieces (· == '\n') s).filterMap parts?

/-! A diagnostic at the head of a line. -/

theorem dropExpected?_eq_some_iff (expected : String) (s rest : List Char) :
    dropExpected? expected s = some rest ↔ s = expected.toList ++ rest := by
  rw [dropExpected?, Option.ite_none_right_eq_some, List.isPrefixOf_iff_prefix, Option.some.injEq]
  constructor
  · intro ⟨hbegin, hrest⟩
    rw [← hrest]
    exact (List.prefix_iff_eq_append.1 hbegin).symm
  · intro hsplit
    rw [hsplit]
    exact ⟨List.prefix_append _ _, List.drop_left⟩

theorem digits?_eq_some_iff (s digits rest : List Char) :
    digits? s = some (digits, rest) ↔
      s = digits ++ rest ∧ IsNumeral digits ∧ Text.Stops Text.isDigit rest := by
  simp only [digits?]
  constructor
  · intro h
    split at h
    · cases h
    · next hne =>
      cases h
      exact ⟨List.takeWhile_append_dropWhile.symm,
        ⟨by simpa using hne, fun c hc => List.mem_takeWhile_imp hc⟩, Text.stops_dropWhile _ _⟩
  · intro ⟨hsplit, ⟨hne, hdigits⟩, hstops⟩
    have htake : s.takeWhile Text.isDigit = digits := by
      rw [hsplit, hstops.takeWhile_append, List.takeWhile_eq_self_iff.2 hdigits]
    have hdrop : s.dropWhile Text.isDigit = rest := by
      rw [hsplit, hstops.dropWhile_append, List.dropWhile_eq_nil_iff.2 hdigits, List.nil_append]
    rw [htake, hdrop, if_neg (by simpa using hne)]

theorem severity?_eq_some_iff (s : List Char) (severity : Severity) (rest : List Char) :
    severity? s = some (severity, rest) ↔ s = severity.name.toList ++ rest := by
  constructor
  · intro h
    obtain ⟨other, -, hother⟩ := List.exists_of_findSome?_eq_some h
    obtain ⟨behind, hbehind, heq⟩ := Option.map_eq_some_iff.1 hother
    cases heq
    exact (dropExpected?_eq_some_iff _ _ _).1 hbehind
  · intro h
    rw [h]
    cases severity <;> simp [severity?, Severity.all, dropExpected?, Severity.name]

/-- A diagnostic is read exactly where one is the whole of the text. -/
theorem partsAt?_eq_some_iff (s : List Char) (parts : Parts) :
    partsAt? s = some parts ↔
      s = parts.text ∧ IsNumeral parts.line ∧ IsNumeral parts.column ∧ parts.message ≠ [] := by
  simp only [partsAt?, Option.bind_eq_bind, Option.bind_eq_some_iff, dropExpected?_eq_some_iff,
    Prod.exists, digits?_eq_some_iff, severity?_eq_some_iff]
  constructor
  · intro h
    obtain ⟨_, rfl, line, _, ⟨rfl, hline, -⟩, _, rfl, column, _, ⟨rfl, hcolumn, -⟩, _, rfl, severity,
      _, rfl, message, rfl, hmessage⟩ := h
    split at hmessage
    · cases hmessage
    · next hne =>
      cases hmessage
      exact ⟨rfl, hline, hcolumn, by simpa using hne⟩
  · intro ⟨hs, hline, hcolumn, hmessage⟩
    obtain ⟨line, column, severity, message⟩ := parts
    refine ⟨_, hs, line, _, ⟨rfl, hline, Text.stops_cons (by decide)⟩, _, rfl, column, _,
      ⟨rfl, hcolumn, Text.stops_cons (by decide)⟩, _, rfl, severity, _, rfl, message, rfl, ?_⟩
    rw [if_neg (by simpa using hmessage)]

theorem Parts.text_eq_cons (parts : Parts) : ∃ rest, parts.text = 'l' :: rest := ⟨_, rfl⟩

theorem Parts.IsWritten.partsAt? {parts : Parts} (h : parts.IsWritten) :
    partsAt? parts.text = some parts :=
  (partsAt?_eq_some_iff _ _).2 ⟨rfl, h.line, h.column, h.message⟩

theorem IsNumeral.newline_notMem {digits : List Char} (h : IsNumeral digits) : '\n' ∉ digits := by
  intro hmem
  have hdigit := h.2 _ hmem
  revert hdigit
  decide

theorem newline_notMem_severity (severity : Severity) : '\n' ∉ severity.name.toList := by
  cases severity <;> decide

theorem newline_mem_text_iff (parts : Parts) (hline : IsNumeral parts.line)
    (hcolumn : IsNumeral parts.column) : '\n' ∈ parts.text ↔ '\n' ∈ parts.message := by
  have hbehind : ∀ {front behind : List Char}, '\n' ∉ front →
      ('\n' ∈ front ++ behind ↔ '\n' ∈ behind) := fun h => List.mem_append.trans (or_iff_right h)
  calc '\n' ∈ parts.text
      ↔ '\n' ∈ parts.line ++ _ := hbehind (by decide)
    _ ↔ '\n' ∈ " column ".toList ++ _ := hbehind hline.newline_notMem
    _ ↔ '\n' ∈ parts.column ++ _ := hbehind (by decide)
    _ ↔ '\n' ∈ " - ".toList ++ _ := hbehind hcolumn.newline_notMem
    _ ↔ '\n' ∈ parts.severity.name.toList ++ _ := hbehind (by decide)
    _ ↔ '\n' ∈ ": ".toList ++ parts.message := hbehind (newline_notMem_severity _)
    _ ↔ '\n' ∈ parts.message := hbehind (by decide)

/-- What is read at the head of one line is a diagnostic that begins there. -/
theorem begins_of_partsAt? {line : List Char} (hline : '\n' ∉ line) {parts : Parts}
    (h : partsAt? line = some parts) : parts.IsWritten := by
  obtain ⟨rfl, hplace, hcolumn, hmessage⟩ := (partsAt?_eq_some_iff _ _).1 h
  exact ⟨hplace, hcolumn, hmessage, mt (newline_mem_text_iff parts hplace hcolumn).2 hline⟩

/-! The lines of a text. -/

theorem partsOf_append (front behind : List Char) :
    partsOf (front ++ '\n' :: behind) = partsOf front ++ partsOf behind := by
  have hpieces : Text.pieces (· == '\n') (front ++ '\n' :: behind) =
      Text.pieces (· == '\n') front ++ Text.pieces (· == '\n') behind :=
    Text.pieces_append rfl front behind
  rw [partsOf, hpieces, List.filterMap_append, partsOf, partsOf]

theorem partsOf_line {line : List Char} (h : '\n' ∉ line) :
    partsOf line = (parts? line).toList := by
  rw [partsOf, Text.pieces_of_notMem h]
  cases hparts : parts? line <;> simp [hparts]

theorem partsOf_newline (s : List Char) : partsOf ('\n' :: s) = partsOf s :=
  partsOf_append [] s

/-- A line that begins with a diagnostic is that diagnostic. -/
theorem Parts.IsWritten.partsOf_text {parts : Parts} (h : parts.IsWritten) :
    partsOf parts.text = [parts] := by
  have hline : '\n' ∉ parts.text := mt (newline_mem_text_iff parts h.line h.column).1 h.oneLine
  have hhere : parts? parts.text = some parts := by
    obtain ⟨rest, hrest⟩ := parts.text_eq_cons
    have hhead := h.partsAt?
    rw [hrest] at hhead ⊢
    rw [parts?, hhead, Option.some_or]
  rw [partsOf_line hline, hhere]
  rfl

/-- Where no diagnostic begins, the first character of a line can be left out. -/
theorem partsOf_skip_line {c : Char} (line more : List Char) (hnewline : '\n' ∉ c :: line)
    (hnot : ¬ Begins (c :: (line ++ more))) : partsOf (c :: line) = partsOf line := by
  have hhead : partsAt? (c :: line) = none := by
    refine Option.eq_none_iff_forall_ne_some.2 fun parts hparts => hnot ?_
    have htext := ((partsAt?_eq_some_iff _ _).1 hparts).1
    exact ⟨parts, more, begins_of_partsAt? hnewline hparts, by rw [← htext]; rfl⟩
  have hlater : '\n' ∉ line := fun hmem => hnewline (List.mem_cons_of_mem c hmem)
  rw [partsOf_line hnewline, partsOf_line hlater, parts?, hhead, Option.none_or]

theorem partsOf_skip {c : Char} {rest : List Char} (hnot : ¬ Begins (c :: rest)) :
    partsOf (c :: rest) = partsOf rest := by
  by_cases hc : c = '\n'
  · rw [hc, partsOf_newline]
  · have hfirst : ∀ line, '\n' ∉ line → '\n' ∉ c :: line := by
      intro line hline
      simp [Ne.symm hc, hline]
    -- Only the first line changes: it ends within the rest, or is all that there is.
    by_cases hmem : '\n' ∈ rest
    · obtain ⟨line, more, rfl, hline⟩ := List.eq_append_cons_of_mem hmem
      rw [← List.cons_append, partsOf_append, partsOf_skip_line line _ (hfirst line hline) hnot,
        partsOf_append]
    · exact partsOf_skip_line rest [] (hfirst rest hmem) (by rwa [List.append_nil])

/-! The search. -/

/-- Reading line by line finds what the search finds. -/
theorem Finds.partsOf_eq {s : List Char} {found : List Parts} (h : Finds s found) :
    partsOf s = found := by
  induction h with
  | nil => rfl
  | skip hnot _ ih => rw [partsOf_skip hnot, ih]
  | @take parts behind found hparts hend _ ih =>
    cases behind with
    | nil =>
      obtain rfl : [] = found := ih
      rw [List.append_nil, hparts.partsOf_text]
    | cons c rest =>
      obtain rfl : c = '\n' := by simpa using hend c rfl
      rw [partsOf_newline] at ih
      rw [partsOf_append, hparts.partsOf_text, ih, List.singleton_append]

/-- A diagnostic that begins a text can be taken to the end of its line. -/
theorem Begins.taken {s : List Char} (h : Begins s) :
    ∃ (parts : Parts) (behind : List Char), parts.IsWritten ∧
      Text.Stops (· != '\n') behind ∧ s = parts.text ++ behind ∧ behind.length < s.length := by
  obtain ⟨parts, rest, hparts, rfl⟩ := h
  -- What follows in the line belongs to the message.
  let more := rest.takeWhile (· != '\n')
  let whole : Parts := { parts with message := parts.message ++ more }
  have hmore : '\n' ∉ more := by
    intro hmem
    have hne := List.mem_takeWhile_imp hmem
    simp at hne
  have hsplit : parts.text ++ rest = whole.text ++ rest.dropWhile (· != '\n') := by
    simp only [Parts.text, whole, more, List.append_assoc, List.takeWhile_append_dropWhile]
  refine ⟨whole, rest.dropWhile (· != '\n'), ⟨hparts.line, hparts.column, ?_, ?_⟩,
    Text.stops_dropWhile _ _, hsplit, ?_⟩
  · simp [whole, hparts.message]
  · simp [whole, hparts.oneLine, hmore]
  · obtain ⟨tail, htail⟩ := whole.text_eq_cons
    rw [hsplit, htail, List.length_append, List.length_cons]
    omega

theorem exists_finds (s : List Char) : ∃ found, Finds s found := by
  -- By the length, since a diagnostic is taken to the end of its line at once.
  induction hlength : s.length using Nat.strongRecOn generalizing s with
  | ind length ih =>
    by_cases hbegins : Begins s
    · obtain ⟨parts, behind, hparts, hend, hsplit, hshorter⟩ := hbegins.taken
      obtain ⟨found, hfound⟩ := ih behind.length (hlength ▸ hshorter) behind rfl
      exact ⟨parts :: found, hsplit ▸ .take hparts hend hfound⟩
    · cases s with
      | nil => exact ⟨[], .nil⟩
      | cons c rest =>
        obtain ⟨found, hfound⟩ := ih rest.length (by simp [← hlength]) rest rfl
        exact ⟨found, .skip hbegins hfound⟩

theorem occurs_cons_iff (c : Char) (rest : List Char) :
    Occurs (c :: rest) ↔ Begins (c :: rest) ∨ Occurs rest := by
  constructor
  · intro h
    obtain ⟨before, behind, hsplit, hbegins⟩ := h
    cases before with
    | nil => exact Or.inl (hsplit ▸ hbegins)
    | cons first more => exact Or.inr ⟨more, behind, (List.cons.inj hsplit).2, hbegins⟩
  · intro h
    rcases h with hbegins | ⟨before, behind, hsplit, hbegins⟩
    · exact ⟨[], _, rfl, hbegins⟩
    · exact ⟨c :: before, behind, by rw [hsplit, List.cons_append], hbegins⟩

theorem Occurs.append {s : List Char} (h : Occurs s) (more : List Char) : Occurs (s ++ more) := by
  obtain ⟨before, behind, rfl, parts, rest, hparts, rfl⟩ := h
  exact ⟨before, parts.text ++ rest ++ more, by simp, parts, rest ++ more, hparts, by simp⟩

theorem Finds.occurs_iff {s : List Char} {found : List Parts} (h : Finds s found) :
    Occurs s ↔ found ≠ [] := by
  induction h with
  | nil =>
    refine iff_of_false (fun hoccurs => ?_) (fun hne => hne rfl)
    obtain ⟨before, behind, hsplit, parts, rest, -, rfl⟩ := hoccurs
    obtain ⟨tail, htail⟩ := parts.text_eq_cons
    simp [htail] at hsplit
  | skip hnot _ ih => rw [occurs_cons_iff, or_iff_right hnot, ih]
  | @take parts behind found hparts _ _ _ =>
    exact iff_of_true ⟨[], _, rfl, parts, behind, hparts, rfl⟩ (List.cons_ne_nil _ _)

/-- A diagnostic stands in a text exactly if one is read from its lines. -/
theorem occurs_iff (s : List Char) : Occurs s ↔ (partsOf s).isEmpty = false := by
  obtain ⟨found, hfound⟩ := exists_finds s
  rw [hfound.occurs_iff, hfound.partsOf_eq]
  simp

instance (s : List Char) : Decidable (Occurs s) := decidable_of_iff _ (occurs_iff s).symm

/-! What the diagnostics say. -/

theorem mapM_ofParts {found : List Parts} (h : ∀ parts ∈ found, parts.Fits) :
    found.mapM ofParts = .ok (found.map Parts.diagnostic) := by
  induction found with
  | nil => rfl
  | cons parts rest ih =>
    obtain ⟨⟨hline, hcolumn⟩, hrest⟩ := List.forall_mem_cons.1 h
    have hparts : ofParts parts = .ok parts.diagnostic := by
      simp [ofParts, readCount, Nat.not_lt.2 hline, Nat.not_lt.2 hcolumn, bind, Except.bind,
        Parts.diagnostic]
    rw [List.mapM_cons, hparts, ih hrest]
    rfl

/-- A report is read to what the search finds in it, if the numbers are within the limit. -/
theorem parse_of_finds {report : String} {found : List Parts} (h : Finds report.toList found)
    (hfits : ∀ parts ∈ found, parts.Fits) : parse report = .ok (found.map Parts.diagnostic) := by
  rw [← mapM_ofParts hfits, ← h.partsOf_eq]
  rfl

/-! Reports that are put together from lines. -/

/-- The digits write the number, within the digit limit. -/
structure Writes (digits : List Char) (n : Nat) : Prop where
  numeral : IsNumeral digits
  fits : digits.length ≤ digitLimit
  value : Text.digitsValue digits = n

inductive LineEnd
  | feed
  | returnFeed

/-- What stands in front of the line feed. -/
def LineEnd.front : LineEnd → List Char
  | .feed => []
  | .returnFeed => ['\r']

def LineEnd.text (lineEnd : LineEnd) : List Char := lineEnd.front ++ ['\n']

/-- A line of a report: a diagnostic, whose place is written in some digits, or any other line. -/
inductive Line
  | diagnostic (line column : List Char) (found : Diagnostic)
  | other (text : List Char)

def Line.text : Line → List Char
  | .diagnostic line column found =>
    Parts.text ⟨line, column, found.severity, found.message.toList⟩
  | .other text => text

def Line.found? : Line → Option Diagnostic
  | .diagnostic _ _ found => some found
  | .other _ => none

/-- The line is what it is said to be. A diagnostic has its place in digits and a message in one
line, not empty and without white space at its ends; in any other line no diagnostic stands, also
not one that takes in the end of the line. -/
inductive Line.IsProper : Line → List Char → Prop
  | diagnostic {line column : List Char} {found : Diagnostic} {lineEnd : List Char}
    (hline : Writes line found.line) (hcolumn : Writes column found.column)
    (hmessage : found.message ≠ "") (honeLine : '\n' ∉ found.message.toList)
    (hfirst : Text.Stops Text.isBlank found.message.toList)
    (hlast : Text.Stops Text.isBlank found.message.toList.reverse) :
    IsProper (.diagnostic line column found) lineEnd
  | other {text lineEnd : List Char} (honeLine : '\n' ∉ text)
    (hnone : ¬ Occurs (text ++ lineEnd)) : IsProper (.other text) lineEnd

/-- Some lines with their ends, and a last line without one. -/
def joined : List (Line × LineEnd) → Line → List Char
  | [], last => last.text
  | (line, lineEnd) :: rest, last => line.text ++ lineEnd.text ++ joined rest last

/-- A line is read as what it is, with or without a carriage return behind it. -/
theorem Line.IsProper.mapM_partsOf {line : Line} {lineEnd : List Char} (h : line.IsProper lineEnd)
    (front : List Char) (hfront : front <+: lineEnd) (hreturn : ∀ c ∈ front, c = '\r') :
    (partsOf (line.text ++ front)).mapM ofParts = .ok line.found?.toList := by
  have hnewline : '\n' ∉ front := by
    intro hmem
    exact absurd (hreturn _ hmem) (by decide)
  cases h with
  | @diagnostic line column found lineEnd hline hcolumn hmessage honeLine hfirst hlast =>
    have hne : found.message.toList ≠ [] := by simpa using hmessage
    -- The carriage return is read as the end of the message and cut off again.
    let parts : Parts := ⟨line, column, found.severity, found.message.toList ++ front⟩
    have hparts : parts.IsWritten := ⟨hline.numeral, hcolumn.numeral, by simp [parts, hne],
      by simp [parts, honeLine, hnewline]⟩
    have htext : Line.text (.diagnostic line column found) ++ front = parts.text := by
      simp [Line.text, Parts.text, parts]
    have htrim : Text.trim (found.message.toList ++ front) = found.message.toList := by
      refine Text.trimBy_append hne hfirst hlast fun c hc => ?_
      rw [hreturn c hc]
      decide
    have hdiagnostic : parts.diagnostic = found := by
      simp [Parts.diagnostic, parts, hline.value, hcolumn.value, htrim]
    rw [htext, hparts.partsOf_text, mapM_ofParts (by simp [Parts.Fits, parts, hline.fits,
      hcolumn.fits]), List.map_singleton, hdiagnostic]
    rfl
  | @other text lineEnd honeLine hnone =>
    -- Where the whole line end gives rise to no diagnostic, neither does a part of it.
    have habsent : ¬ Occurs (text ++ front) := by
      obtain ⟨more, rfl⟩ := hfront
      rw [← List.append_assoc] at hnone
      exact fun hoccurs => hnone (hoccurs.append more)
    rw [occurs_iff, Bool.not_eq_false, List.isEmpty_iff] at habsent
    rw [Line.text, habsent]
    rfl

/-- Joined texts are read one after the other. -/
theorem mapM_partsOf_append {front behind : List Char} {left right : List Diagnostic}
    (hfront : (partsOf front).mapM ofParts = .ok left)
    (hbehind : (partsOf behind).mapM ofParts = .ok right) :
    (partsOf (front ++ '\n' :: behind)).mapM ofParts = .ok (left ++ right) := by
  rw [partsOf_append, List.mapM_append, hfront, hbehind]
  rfl

theorem mapM_partsOf_joined {ended : List (Line × LineEnd)} {last : Line}
    (hended : ∀ item ∈ ended, item.1.IsProper item.2.text) (hlast : last.IsProper []) :
    (partsOf (joined ended last)).mapM ofParts =
      .ok ((ended.map Prod.fst ++ [last]).filterMap Line.found?) := by
  induction ended with
  | nil =>
    have hread := hlast.mapM_partsOf [] List.nil_prefix (by simp)
    rw [List.append_nil] at hread
    rw [joined, hread]
    cases last <;> rfl
  | cons item rest ih =>
    obtain ⟨line, lineEnd⟩ := item
    obtain ⟨hline, hrest⟩ := List.forall_mem_cons.1 hended
    have hread := hline.mapM_partsOf lineEnd.front (List.prefix_append _ _)
      (by cases lineEnd <;> simp [LineEnd.front])
    have htext : joined ((line, lineEnd) :: rest) last =
        line.text ++ lineEnd.front ++ '\n' :: joined rest last := by
      simp [joined, LineEnd.text]
    rw [htext, mapM_partsOf_append hread (ih hrest)]
    cases line <;> rfl

theorem parse_append {front behind : String} {left right : List Diagnostic}
    (hfront : parse front = .ok left) (hbehind : parse behind = .ok right) :
    parse (front ++ "\n" ++ behind) = .ok (left ++ right) := by
  have htext : (front ++ "\n" ++ behind).toList = front.toList ++ '\n' :: behind.toList := by
    simp
  have hread := mapM_partsOf_append hfront hbehind
  rw [← htext] at hread
  exact hread

theorem hasShortPlaces_iff (report : String) :
    HasShortPlaces report ↔ ∀ parts ∈ partsOf report.toList, parts.Fits := by
  constructor
  · intro h
    obtain ⟨found, hfound⟩ := exists_finds report.toList
    exact hfound.partsOf_eq ▸ h found hfound
  · intro h found hfound
    exact hfound.partsOf_eq ▸ h

instance (report : String) : Decidable (HasShortPlaces report) :=
  decidable_of_iff _ (hasShortPlaces_iff report).symm

theorem digitValue?_of_isDigit {c : Char} (h : c.isDigit = true) :
    Text.digitValue? c = some (c.toNat - '0'.toNat) := by
  obtain ⟨hlow, hhigh⟩ := Char.isDigit_iff_toNat.1 h
  have hzeros : Text.digitZeros = '0'.toNat :: Text.digitZeros.tail := rfl
  have hnine : c.toNat < '0'.toNat + 10 := Nat.lt_succ_of_le hhigh
  rw [Text.digitValue?, hzeros, List.find?_cons_of_pos, Option.map_some]
  rw [decide_eq_true hlow, decide_eq_true hnine, Bool.and_self]

/-- The decimal digits of a number write it, if they are not too many. -/
theorem writes_toDigits {n : Nat} (h : (Nat.toDigits 10 n).length ≤ digitLimit) :
    Writes (Nat.toDigits 10 n) n := by
  have hdigit : ∀ c ∈ Nat.toDigits 10 n, c.isDigit = true := fun c hc =>
    Nat.isDigit_of_mem_toDigits (by decide) (by decide) hc
  refine ⟨⟨Nat.toDigits_ne_nil, fun c hc => ?_⟩, h, ?_⟩
  · rw [Text.isDigit, digitValue?_of_isDigit (hdigit c hc)]
    rfl
  · calc Text.digitsValue (Nat.toDigits 10 n)
        = Nat.ofDigitChars 10 (Nat.toDigits 10 n) 0 := by
          refine List.foldl_ext _ _ _ fun sum c hc => ?_
          rw [digitValue?_of_isDigit (hdigit c hc), Option.getD_some]
      _ = n := Nat.ofDigitChars_ten_toDigits

/-- A report that is put together from lines gives back the diagnostics among them, in order, also
where a line ends with a carriage return in front of its line feed. The places are written in digits
of any script, such as the decimal digits of a number. And a report that is joined from two has the
diagnostics of the first and then those of the second. -/
theorem reports_read_back :
    (∀ (ended : List (Line × LineEnd)) (last : Line),
      (∀ item ∈ ended, item.1.IsProper item.2.text) → last.IsProper [] →
      parse (String.ofList (joined ended last)) =
        .ok ((ended.map Prod.fst ++ [last]).filterMap Line.found?)) ∧
    (∀ n, (Nat.toDigits 10 n).length ≤ digitLimit → Writes (Nat.toDigits 10 n) n) ∧
    ∀ front behind, HasShortPlaces front → HasShortPlaces behind →
      ∃ left right, parse front = .ok left ∧ parse behind = .ok right ∧
        parse (front ++ "\n" ++ behind) = .ok (left ++ right) := by
  refine ⟨fun ended last hended hlast => ?_, fun n h => writes_toDigits h,
    fun front behind hfront hbehind => ?_⟩
  · rw [parse, String.toList_ofList]
    exact mapM_partsOf_joined hended hlast
  · obtain ⟨left, hleft⟩ := exists_finds front.toList
    obtain ⟨right, hright⟩ := exists_finds behind.toList
    have hread := parse_of_finds hleft (hfront left hleft)
    have hlater := parse_of_finds hright (hbehind right hright)
    exact ⟨_, _, hread, hlater, parse_append hread hlater⟩

/-- A diagnostic that quotes another one, a line that only begins like one, and a place in digits of
another script. -/
def quotingReport : List (Line × LineEnd) := [
  (.diagnostic "4".toList "09".toList ⟨4, 9, .error, "see line 1 column 1 - Info: a"⟩, .returnFeed),
  (.other "line 7 column - Info: b".toList, .feed),
  (.diagnostic "٣".toList "2".toList ⟨3, 2, .info, "c"⟩, .feed)]

theorem reports_read_back_quoting :
    parse (String.ofList (joined quotingReport (.other []))) =
        .ok [⟨4, 9, .error, "see line 1 column 1 - Info: a"⟩, ⟨3, 2, .info, "c"⟩] ∧
      ∃ left right, parse "b: line 1 column 2 - Info: a" = .ok left ∧ parse "c" = .ok right ∧
        parse ("b: line 1 column 2 - Info: a" ++ "\n" ++ "c") = .ok (left ++ right) := by
  obtain ⟨hlines, -, hjoined⟩ := reports_read_back
  refine ⟨hlines quotingReport (.other []) ?_ (.other (by decide) (by decide)),
    hjoined _ _ (by decide) (by decide)⟩
  refine List.forall_mem_cons.2 ⟨?_, List.forall_mem_cons.2 ⟨?_, List.forall_mem_singleton.2 ?_⟩⟩
  · exact .diagnostic ⟨by decide, by decide, rfl⟩ ⟨by decide, by decide, rfl⟩ (by decide)
      (by decide) (by decide) (by decide)
  · exact .other (by decide) (by decide)
  · exact .diagnostic ⟨by decide, by decide, rfl⟩ ⟨by decide, by decide, rfl⟩ (by decide)
      (by decide) (by decide) (by decide)

end MarkupTidy.Diagnostic
