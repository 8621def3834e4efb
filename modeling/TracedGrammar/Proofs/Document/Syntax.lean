import TracedGrammar.Grammar.Reader
import TracedGrammar.Grammar.Text
import TracedGrammar.Proofs.Document.Following

/-!
# The syntax of grammar documents

One scanner for each kind of node of a grammar document, which reads the node with its place in the
text. Beside the scanners stands what each kind of node has to be like in order to be read: whatever
is scanned is legible (`Grammar.scan_ensures`).
-/

namespace TracedGrammar

open Scanner (exactly char spanned many many1)

namespace Scanner

theorem accepts_addChars (chars : String) (char : Char) :
    (CharClass.empty.addChars chars).accepts char = true ↔ char ∈ chars.toList := by
  simp [CharClass.accepts, CharClass.addChars, CharClass.empty, ClassItem.covers]

/-- Reads one of the given characters. -/
def oneOf (chars : String) : Scanner Char :=
  char (CharClass.empty.addChars chars).accepts

/-- Reads a character that is none of the given ones. -/
def noneOf (chars : String) : Scanner Char :=
  char (CharClass.empty.addChars chars).negate.accepts

/-- Reads blanks and line ends as long as there are any. -/
def blanks : Scanner Unit := do
  let _ ← many (oneOf " \t\r\n")
  return ()

/-- Reads the text of a name. -/
def name : Scanner String := do
  let first ← char Meta.nameStart.accepts
  let others ← many (char Meta.nameRest.accepts)
  return String.ofList (first :: others)

end Scanner

open Scanner (oneOf noneOf blanks)

/-- Reads a name and the blanks after it. -/
def Ident.scan : Scanner Ident :=
  spanned do
    let name ← Scanner.name
    blanks
    return fun span => ⟨name, ⟨span.start, span.start + name.utf8ByteSize⟩⟩

namespace SourceChar

/-- Reads a character after a backslash. -/
def scanEscaped (allowed : String) : Scanner SourceChar :=
  spanned do
    exactly "\\"
    let char ← oneOf allowed
    return fun span => ⟨char, true, span⟩

/-- Reads a character that is written as itself. -/
def scanSimple (excluded : String) : Scanner SourceChar :=
  spanned do
    let char ← noneOf excluded
    return fun span => ⟨char, false, span⟩

/-- Reads a character that may stand after a backslash, or as itself. -/
def scan (allowed excluded : String) : Scanner SourceChar :=
  scanEscaped allowed <|> scanSimple excluded

/-- Reads a character of a class. -/
def scanInClass : Scanner SourceChar :=
  scan "\\[]rnt^-" "\\[]"

/-- Reads a character between quotes. -/
def scanQuoted : Quote → Scanner SourceChar
  | .single => scan "'\\rnt" "'\\\r\n\t"
  | .double => scan "\"\\rnt" "\"\\\r\n\t"

end SourceChar

namespace ClassMember

/-- Reads a range. -/
def scanRange : Scanner ClassMember :=
  spanned do
    let low ← SourceChar.scanInClass
    exactly "-"
    let high ← SourceChar.scanInClass
    return fun span => .range low high span

/-- Reads a member of a class. -/
def scan : Scanner ClassMember :=
  scanRange <|> ClassMember.single <$> SourceChar.scanInClass

end ClassMember

/-- The text of a quote. -/
def Quote.text : Quote → String
  | single => "'"
  | double => "\""

namespace Atom

/-- Reads a reference. -/
def scanReference : Scanner Atom :=
  Atom.reference <$> Ident.scan

/-- Reads a class. -/
def scanClass : Scanner Atom :=
  spanned do
    exactly "["
    let inverted ← optional (exactly "^")
    let members ← many ClassMember.scan
    exactly "]"
    blanks
    return fun span => .charClass inverted.isSome members span

/-- Reads a literal in the given quotes. -/
def scanLiteral (quote : Quote) : Scanner Atom :=
  spanned do
    exactly quote.text
    let chars ← many (SourceChar.scanQuoted quote)
    exactly quote.text
    blanks
    return fun span => .literal quote chars span

/-- Reads an atom. -/
def scan : Scanner Atom :=
  ((scanReference <|> scanClass) <|> scanLiteral .single) <|> scanLiteral .double

end Atom

/-- The suffix of a character. -/
def Suffix.ofChar : Char → Suffix
  | '+' => oneOrMore
  | '*' => zeroOrMore
  | _ => optional

/-- Reads a suffix. -/
def Suffix.scan : Scanner Suffix := do
  let symbol ← oneOf "+*?"
  blanks
  return Suffix.ofChar symbol

namespace Part

/-- Reads a field name. -/
def scanField : Scanner Ident := do
  let name ← Ident.scan
  exactly ":"
  blanks
  return name

/-- Reads a part. -/
def scan : Scanner Part :=
  spanned do
    let field ← optional scanField
    let stringify ← optional (exactly "$")
    let atom ← Atom.scan
    let suffix ← optional Suffix.scan
    return fun span => { field, stringify := stringify.isSome, atom, suffix, span }

end Part

namespace Rule

/-- Reads a union rule. -/
def scanUnion : Scanner Rule :=
  spanned do
    let name ← Ident.scan
    exactly ":"
    blanks
    let cases ← many1 Ident.scan
    exactly ";"
    blanks
    return fun span => .union name cases span

/-- Reads a sequence rule. -/
def scanSequence : Scanner Rule :=
  spanned do
    let name ← Ident.scan
    exactly "="
    blanks
    let parts ← many1 Part.scan
    exactly ";"
    blanks
    return fun span => .sequence name parts span

/-- Reads a rule. -/
def scan : Scanner Rule :=
  scanUnion <|> scanSequence

end Rule

/-- Reads a grammar up to the first place where no rule can be read. -/
def Grammar.scan : Scanner Grammar :=
  spanned do
    blanks
    let rules ← many1 Rule.scan
    return fun span => ⟨rules, span⟩

/-! ### What is read can be written -/

/-- A name that can be read. -/
def Ident.IsLegible (ident : Ident) : Prop :=
  ∃ first others, ident.written = first :: others ∧ Meta.nameStart.accepts first = true ∧
    ∀ char ∈ others, Meta.nameRest.accepts char = true

/-- A character that can be read where some may stand after a backslash, and all but some as
themselves. -/
def SourceChar.IsLegible (allowed excluded : String) (char : SourceChar) : Prop :=
  if char.escaped then (CharClass.empty.addChars allowed).accepts char.char = true
  else (CharClass.empty.addChars excluded).negate.accepts char.char = true

/-- A character that can be read in a class. -/
abbrev SourceChar.IsLegibleInClass : SourceChar → Prop :=
  IsLegible "\\[]rnt^-" "\\[]"

/-- A character that can be read between quotes. -/
abbrev SourceChar.IsLegibleQuoted : Quote → SourceChar → Prop
  | .single => IsLegible "'\\rnt" "'\\\r\n\t"
  | .double => IsLegible "\"\\rnt" "\"\\\r\n\t"

/-- A class member whose characters can be read. -/
def ClassMember.IsLegible : ClassMember → Prop
  | range low high _ => low.IsLegibleInClass ∧ high.IsLegibleInClass
  | single char => char.IsLegibleInClass

/-- Members of a class that can be read one after the other. A hyphen after a single character would
make a range of it, unless the class ends there. -/
def ClassMember.AreLegible : List ClassMember → Prop
  | [] => True
  | member :: members => member.IsLegible ∧ AreLegible members ∧
      ∀ char, member = .single char → (members.flatMap ClassMember.written).head? = some '-' →
        members.flatMap ClassMember.written = ['-']

/-- An atom that can be read. A caret at the start of a class would invert it. -/
def Atom.IsLegible : Atom → Prop
  | .reference target => target.IsLegible
  | .charClass inverted members _ => ClassMember.AreLegible members ∧
      (inverted = false → (members.flatMap ClassMember.written).head? ≠ some '^')
  | .literal quote chars _ => ∀ char ∈ chars, char.IsLegibleQuoted quote

/-- A part that can be read. -/
structure Part.IsLegible (part : Part) : Prop where
  field : ∀ field, part.field = some field → field.IsLegible
  atom : part.atom.IsLegible

/-- A rule that can be read. -/
def Rule.IsLegible : Rule → Prop
  | .sequence name parts _ => name.IsLegible ∧ parts ≠ [] ∧ ∀ part ∈ parts, part.IsLegible
  | .union name cases _ => name.IsLegible ∧ cases ≠ [] ∧ ∀ target ∈ cases, target.IsLegible

/-- A grammar that can be read. -/
def Grammar.IsLegible (grammar : Grammar) : Prop :=
  ∀ rule ∈ grammar.rules, rule.IsLegible

instance (ident : Ident) : Decidable ident.IsLegible :=
  match written : ident.written with
  | [] => isFalse fun ⟨_, _, other, _⟩ => by cases written.symm.trans other
  | first :: others =>
      decidable_of_iff (Meta.nameStart.accepts first = true ∧
          others.all Meta.nameRest.accepts = true)
        ⟨fun legible => ⟨first, others, written, legible.1, List.all_eq_true.mp legible.2⟩,
          fun ⟨_, _, other, legible⟩ => by
            cases written.symm.trans other
            exact ⟨legible.1, List.all_eq_true.mpr legible.2⟩⟩

instance (allowed excluded : String) (char : SourceChar) :
    Decidable (char.IsLegible allowed excluded) :=
  inferInstanceAs (Decidable (ite _ _ _))

instance (quote : Quote) (char : SourceChar) : Decidable (char.IsLegibleQuoted quote) :=
  match quote with
  | .single => inferInstanceAs (Decidable (char.IsLegible _ _))
  | .double => inferInstanceAs (Decidable (char.IsLegible _ _))

instance : (member : ClassMember) → Decidable member.IsLegible
  | .range low high _ => inferInstanceAs (Decidable (low.IsLegibleInClass ∧ high.IsLegibleInClass))
  | .single char => inferInstanceAs (Decidable char.IsLegibleInClass)

instance ClassMember.decidableAreLegible :
    (members : List ClassMember) → Decidable (AreLegible members)
  | [] => isTrue trivial
  | .range low high span :: members =>
      have := decidableAreLegible members
      decidable_of_iff ((range low high span).IsLegible ∧ AreLegible members)
        (by simp [AreLegible])
  | .single char :: members =>
      have := decidableAreLegible members
      decidable_of_iff ((single char).IsLegible ∧ AreLegible members ∧
          ((members.flatMap written).head? = some '-' → members.flatMap written = ['-']))
        (by simp [AreLegible])

instance : (atom : Atom) → Decidable atom.IsLegible
  | .reference target => inferInstanceAs (Decidable target.IsLegible)
  | .charClass _ _ _ => inferInstanceAs (Decidable (_ ∧ (_ → _)))
  | .literal quote chars _ =>
      inferInstanceAs (Decidable (∀ char ∈ chars, char.IsLegibleQuoted quote))

instance (part : Part) : Decidable part.IsLegible :=
  decidable_of_iff ((∀ field ∈ part.field, field.IsLegible) ∧ part.atom.IsLegible)
    ⟨fun legible => ⟨legible.1, legible.2⟩, fun legible => ⟨legible.field, legible.atom⟩⟩

instance : (rule : Rule) → Decidable rule.IsLegible
  | .sequence name parts _ =>
      inferInstanceAs (Decidable (name.IsLegible ∧ parts ≠ [] ∧ ∀ part ∈ parts, part.IsLegible))
  | .union name cases _ =>
      inferInstanceAs (Decidable (name.IsLegible ∧ cases ≠ [] ∧ ∀ target ∈ cases, target.IsLegible))

instance (grammar : Grammar) : Decidable grammar.IsLegible :=
  inferInstanceAs (Decidable (∀ rule ∈ grammar.rules, rule.IsLegible))

namespace Scanner

variable {α : Type} {scan : Scanner α} {post : α → Prop}

/-- The scanner reads a character at least for each item, and the items satisfy a condition. -/
def Finds (scan : Scanner α) (post : α → Prop) : Prop :=
  scan.Ensures fun chars item => chars ≠ [] ∧ post item

theorem Finds.eats (h : scan.Finds post) : scan.Eats :=
  h.mono fun _ _ found => found.1

theorem Finds.many (h : scan.Finds post) :
    (many scan).Ensures fun _ items => ∀ item ∈ items, post item := by
  refine (Ensures.many h).mono fun chars items => ?_
  rintro ⟨pieces, -, all⟩
  induction all with
  | nil => simp
  | cons found _ ih => simpa using ⟨found.2, ih⟩

theorem Finds.many1 (h : scan.Finds post) :
    (many1 scan).Finds fun items => items ≠ [] ∧ ∀ item ∈ items, post item := by
  refine .bind h fun front first found => .bind h.many fun back others all => .pure ?_
  refine ⟨by simp [found.1], by simp, ?_⟩
  simpa using ⟨found.2, all⟩

theorem blanks_ensures : blanks.Ensures fun _ _ => True :=
  .bind (.many (.char _)) fun _ _ _ => .pure trivial

theorem oneOf_finds (chars : String) : (oneOf chars).Finds fun char =>
    (CharClass.empty.addChars chars).accepts char = true :=
  (Ensures.char _).mono fun chars char h => ⟨by simp [h.2], h.1⟩

end Scanner

open Scanner (blanks_ensures)

/-- What is read for a name is the name itself. -/
theorem Scanner.name_ensures : Scanner.name.Ensures fun chars name => chars = name.toList ∧
    ∃ first others, name.toList = first :: others ∧ Meta.nameStart.accepts first = true ∧
      ∀ char ∈ others, Meta.nameRest.accepts char = true := by
  refine .bind (.char _) fun front first start => .bind (.many (.char _)) fun back others rest => ?_
  obtain ⟨pieces, rfl, all⟩ := rest
  obtain ⟨accepted, rfl⟩ := start
  have same : pieces.flatten = others ∧ ∀ char ∈ others, Meta.nameRest.accepts char = true := by
    clear accepted
    induction all with
    | nil => simp
    | cons found _ ih =>
        obtain ⟨accepted, rfl⟩ := found
        simpa [ih.1] using ⟨accepted, ih.2⟩
  refine .pure ⟨by simp [same.1], first, others, by simp, accepted, same.2⟩

theorem Ident.scan_finds : Ident.scan.Finds Ident.IsLegible := by
  refine .spanned <| .bind Scanner.name_ensures fun front name found => ?_
  obtain ⟨rfl, legible⟩ := found
  refine .bind blanks_ensures fun back _ _ => .pure fun span => ⟨?_, legible⟩
  obtain ⟨first, others, name_eq, -⟩ := legible
  simp [name_eq]

namespace SourceChar

variable {allowed excluded : String}

/-- A character is written as it was read. -/
theorem scan_ensures : (scan allowed excluded).Ensures fun chars char =>
    chars = char.written ∧ char.IsLegible allowed excluded := by
  refine .or_else (.spanned ?_) (.spanned ?_)
  · refine .bind (.exactly _) fun front _ slash => ?_
    refine .bind (.char _) fun back char found => .pure fun span => ?_
    obtain ⟨accepted, rfl⟩ := found
    exact ⟨by simp [slash, written], accepted⟩
  · refine .bind (.char _) fun front char found => .pure fun span => ?_
    obtain ⟨accepted, rfl⟩ := found
    exact ⟨by simp [written], accepted⟩

theorem written_ne_nil (char : SourceChar) : char.written ≠ [] := by
  cases escaped : char.escaped <;> simp [written, escaped]

theorem scan_finds : (scan allowed excluded).Finds (IsLegible allowed excluded) := by
  refine scan_ensures.mono fun chars char found => ⟨?_, found.2⟩
  rw [found.1]
  exact char.written_ne_nil

theorem scanQuoted_finds (quote : Quote) : (scanQuoted quote).Finds (IsLegibleQuoted quote) := by
  cases quote <;> exact scan_finds

end SourceChar

theorem SourceChar.scan_hyphen (rest : List Char) :
    scanInClass.Yields ('-' :: rest) (fun char => char.written = ['-']) rest := by
  refine .second (.spanned (.bind (.exactly (by simp)))) (.spanned ?_)
  refine .bind (.char rfl) fun char same => .pure fun span => ?_
  rw [same]
  rfl

namespace ClassMember

theorem scan_range_ensures : scanRange.Ensures fun chars member => chars = member.written ∧
    ∃ low high span, member = .range low high span ∧ low.IsLegibleInClass ∧
      high.IsLegibleInClass := by
  refine .spanned <| .bind SourceChar.scan_ensures fun front low low_found => ?_
  refine .bind (.exactly _) fun hyphen _ hyphen_eq => ?_
  refine .bind SourceChar.scan_ensures fun back high high_found => .pure fun span => ?_
  exact ⟨by simp [written, low_found.1, hyphen_eq, high_found.1], low, high, span, rfl,
    low_found.2, high_found.2⟩

/-- A member is written as it was read. -/
theorem scan_ensures : scan.Ensures fun chars member =>
    chars = member.written ∧ chars ≠ [] ∧ member.IsLegible := by
  refine .or_else (scan_range_ensures.mono fun chars member found => ?_)
    (.map (SourceChar.scan_ensures.mono fun chars char found => ?_))
  · obtain ⟨rfl, low, high, span, rfl, legible⟩ := found
    exact ⟨rfl, by simp [written], legible⟩
  · exact ⟨found.1, by rw [found.1]; exact char.written_ne_nil, found.2⟩

theorem scan_eats : scan.Eats :=
  scan_ensures.mono fun _ _ found => found.2.1

theorem many_scan_ensures : (many scan).Ensures fun chars members =>
    chars = members.flatMap written := by
  refine scan_ensures.many.mono fun chars members => ?_
  rintro ⟨pieces, rfl, all⟩
  induction all with
  | nil => rfl
  | cons found _ ih => simp [found.1, ih]

variable {cursor middle after : Cursor} {char : SourceChar} {members : List ClassMember}

/-- A single character is scanned where no range is. -/
theorem of_scan_single (scanned : scan.run cursor = some (.single char, after)) :
    scanRange.run cursor = none ∧ SourceChar.scanInClass.run cursor = some (char, after) := by
  rcases Scanner.run_or_else_eq_some.mp scanned with ranged | ⟨no_range, single⟩
  · obtain ⟨_, _, _, low, high, span, different, -⟩ := scan_range_ensures cursor _ _ ranged
    cases different
  · rw [StateT.run_map] at single
    obtain ⟨found, inner, same⟩ := Option.map_eq_some_iff.mp single
    cases same
    exact ⟨no_range, inner⟩

/-- A hyphen ends the class if no character of a class follows it. -/
theorem many_scan_of_hyphen {rest : List Char} (hyphen : cursor.rest = '-' :: rest)
    (ends : SourceChar.scanInClass.run ⟨cursor.offset + 1, rest⟩ = none)
    (scanned : (many scan).run cursor = some (members, after)) :
    members.flatMap written = ['-'] := by
  obtain ⟨offset, chars⟩ := cursor
  cases hyphen
  obtain ⟨char, stop, char_scanned, char_eq⟩ := SourceChar.scan_hyphen rest offset
  -- the hyphen is one byte long
  have stop_eq : stop = offset + 1 := by
    obtain ⟨chars, reads, rfl, -⟩ := SourceChar.scan_ensures _ _ _ char_scanned
    rw [char_eq] at reads
    exact reads.offset_eq
  subst stop_eq
  have no_hyphen : (exactly "-").run ⟨offset + 1, rest⟩ = none := by
    cases again : (exactly "-").run ⟨offset + 1, rest⟩ with
    | none => rfl
    | some found =>
        obtain ⟨chars, reads, rfl⟩ := Scanner.Ensures.exactly "-" _ _ _ again
        obtain ⟨_, _, more, -⟩ := SourceChar.scan_hyphen found.2.rest (offset + 1)
        have rest_eq : rest = '-' :: found.2.rest := reads.rest_eq
        rw [rest_eq, more] at ends
        cases ends
  have first_scanned :
      scan.run ⟨offset, '-' :: rest⟩ = some (.single char, ⟨offset + 1, rest⟩) := by
    have no_range : scanRange.run ⟨offset, '-' :: rest⟩ = none := by
      simp only [scanRange, Scanner.run_spanned, StateT.run_bind, char_scanned, no_hyphen,
        Option.bind_eq_bind, Option.bind_some, Option.bind_none, Option.map_none]
    rw [scan, Scanner.run_or_else, no_range, StateT.run_map, char_scanned]
    rfl
  have second_missed : scan.run ⟨offset + 1, rest⟩ = none := by
    simp only [scan, Scanner.run_or_else, scanRange, Scanner.run_spanned, StateT.run_bind,
      StateT.run_map, ends, Option.bind_eq_bind, Option.bind_none, Option.map_none]
    rfl
  rw [Scanner.run_many scan_eats, first_scanned] at scanned
  simp only [Scanner.run_many scan_eats ⟨offset + 1, rest⟩, second_missed] at scanned
  cases scanned
  simp [written, char_eq]

/-- Members that were read one after the other can be read again. -/
theorem legible_of_many_scan (scanned : (many scan).run cursor = some (members, after)) :
    AreLegible members := by
  induction members generalizing cursor with
  | nil => exact trivial
  | cons member members ih =>
      rw [Scanner.run_many scan_eats] at scanned
      cases first : scan.run cursor with
      | none =>
          rw [first] at scanned
          cases scanned
      | some found =>
          obtain ⟨found, middle⟩ := found
          rw [first] at scanned
          obtain ⟨⟨others, last⟩, rest_scanned, same⟩ := Option.map_eq_some_iff.mp scanned
          cases same
          obtain ⟨chars, reads, -, -, legible⟩ := scan_ensures cursor _ _ first
          refine ⟨legible, ih rest_scanned, ?_⟩
          rintro char rfl hyphen
          -- no range was read, so that no character of a class follows the hyphen
          obtain ⟨no_range, char_scanned⟩ := of_scan_single first
          obtain ⟨chars', reads', rfl⟩ := many_scan_ensures middle _ _ rest_scanned
          obtain ⟨rest, rest_eq⟩ : ∃ rest, middle.rest = '-' :: rest := by
            obtain ⟨others', written_eq⟩ := List.head?_eq_some_iff.mp hyphen
            exact ⟨_, by rw [reads'.rest_eq, written_eq, List.cons_append]⟩
          refine many_scan_of_hyphen rest_eq ?_ rest_scanned
          have hyphen_scanned :
              (exactly "-").run middle = some ((), ⟨middle.offset + 1, rest⟩) := by
            refine Option.map_eq_some_iff.mpr ⟨⟨middle.offset + 1, rest⟩, ?_, rfl⟩
            exact Cursor.eat_literal_eq_some_iff.mpr ⟨rest_eq, rfl⟩
          simp only [scanRange, Scanner.run_spanned, StateT.run_bind, char_scanned, hyphen_scanned,
            Option.bind_eq_bind, Option.bind_some, Option.map_eq_none_iff] at no_range
          cases next : SourceChar.scanInClass.run ⟨middle.offset + 1, rest⟩ with
          | none => rfl
          | some found =>
              rw [next] at no_range
              cases no_range

end ClassMember

namespace Atom

theorem scan_reference_finds : scanReference.Finds IsLegible :=
  .map Ident.scan_finds

/-- A class that was read can be read again. -/
theorem legible_of_scan_class {cursor after : Cursor} {atom : Atom}
    (scanned : scanClass.run cursor = some (atom, after)) : atom.IsLegible := by
  simp only [scanClass, Scanner.run_spanned, StateT.run_bind, Option.map_eq_some_iff,
    Option.bind_eq_bind, Option.bind_eq_some_iff, StateT.run_pure, Option.pure_def,
    Option.some.injEq] at scanned
  obtain ⟨_, ⟨⟨_, opened⟩, _, ⟨inverted, begun⟩, caret, ⟨members, ended⟩, members_scanned,
    ⟨_, closed⟩, _, ⟨_, stop⟩, _, rfl⟩, same⟩ := scanned
  cases same
  refine ⟨ClassMember.legible_of_many_scan members_scanned, fun upright first => ?_⟩
  -- a caret at the start would have been read as the mark of an inverted class
  rcases Scanner.run_optional_eq_some.mp caret with ⟨_, -, rfl⟩ | ⟨unmarked, rfl, rfl⟩
  · cases upright
  · obtain ⟨chars, reads, rfl⟩ := ClassMember.many_scan_ensures _ _ _ members_scanned
    obtain ⟨others, written_eq⟩ := List.head?_eq_some_iff.mp first
    have no_caret := Cursor.eat_literal_eq_none_iff.mp (Option.map_eq_none_iff.mp unmarked)
    refine no_caret ⟨others ++ ended.rest, ?_⟩
    rw [reads.rest_eq, written_eq]
    rfl

theorem scan_class_finds : scanClass.Finds IsLegible := by
  have nonempty : scanClass.Eats := by
    refine .spanned <| .bind (.exactly _) fun front _ opening => ?_
    refine .bind (.optional (.exactly _)) fun _ _ _ => ?_
    refine .bind (.many ClassMember.scan_eats) fun _ _ _ => .bind (.exactly _) fun _ _ _ => ?_
    exact .bind blanks_ensures fun _ _ _ => .pure fun _ => by simp [opening]
  intro cursor atom after scanned
  obtain ⟨chars, reads, some_read⟩ := nonempty cursor atom after scanned
  exact ⟨chars, reads, some_read, legible_of_scan_class scanned⟩

theorem scan_literal_finds (quote : Quote) : (scanLiteral quote).Finds IsLegible := by
  refine .spanned <| .bind (.exactly _) fun front _ opening => ?_
  refine .bind (SourceChar.scanQuoted_finds quote).many fun body chars legible => ?_
  refine .bind (.exactly _) fun back _ _ => .bind blanks_ensures fun gap _ _ => .pure fun span => ?_
  refine ⟨?_, legible⟩
  cases quote <;> simp [opening, Quote.text]

theorem scan_finds : scan.Finds IsLegible :=
  .or_else (.or_else (.or_else scan_reference_finds scan_class_finds) (scan_literal_finds _))
    (scan_literal_finds _)

end Atom

theorem Suffix.scan_finds : Suffix.scan.Finds fun _ => True := by
  refine .bind (Scanner.oneOf_finds _) fun front symbol found => ?_
  exact .bind blanks_ensures fun gap _ _ => .pure ⟨by simp [found.1], trivial⟩

namespace Part

theorem scan_field_finds : scanField.Finds Ident.IsLegible := by
  refine .bind Ident.scan_finds fun front name found => ?_
  refine .bind (.exactly _) fun back _ _ => .bind blanks_ensures fun gap _ _ => .pure ?_
  exact ⟨by simp [found.1], found.2⟩

theorem scan_finds : scan.Finds IsLegible := by
  refine .spanned <| .bind scan_field_finds.optional fun front field field_legible => ?_
  refine .bind (.optional (.exactly _)) fun mark stringify _ => ?_
  refine .bind Atom.scan_finds fun body atom found => ?_
  refine .bind Suffix.scan_finds.optional fun back suffix _ => .pure fun span => ?_
  exact ⟨by simp [found.1], fun field same => (field_legible field same).2, found.2⟩

end Part

namespace Rule

theorem scan_finds : scan.Finds IsLegible := by
  refine .or_else (.spanned ?_) (.spanned ?_)
  · refine .bind Ident.scan_finds fun front name found => .bind (.exactly _) fun _ _ _ => ?_
    refine .bind blanks_ensures fun _ _ _ => .bind Ident.scan_finds.many1 fun body cases all => ?_
    refine .bind (.exactly _) fun _ _ _ => .bind blanks_ensures fun _ _ _ => .pure fun span => ?_
    exact ⟨by simp [found.1], found.2, all.2⟩
  · refine .bind Ident.scan_finds fun front name found => .bind (.exactly _) fun _ _ _ => ?_
    refine .bind blanks_ensures fun _ _ _ => .bind Part.scan_finds.many1 fun body parts all => ?_
    refine .bind (.exactly _) fun _ _ _ => .bind blanks_ensures fun _ _ _ => .pure fun span => ?_
    exact ⟨by simp [found.1], found.2, all.2⟩

end Rule

/-- What is scanned can be written and read again. -/
theorem Grammar.scan_ensures : Grammar.scan.Ensures fun _ grammar => grammar.IsLegible :=
  .spanned <| .bind blanks_ensures fun _ _ _ => .bind Rule.scan_finds.many1 fun _ _ all =>
    .pure fun _ => all.2.2

end TracedGrammar
