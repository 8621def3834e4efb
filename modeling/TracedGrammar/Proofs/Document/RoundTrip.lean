import TracedGrammar.Proofs.Document.Reader
import TracedGrammar.Proofs.Grammar.Places

/-!
# Written grammars are read back

A grammar that can be written and read, which every grammar is that was read, is read back from its
written form with the same rules, the same names and the same characters (`read_of_legible`). Only
the places of its nodes in the text are others.

What a scanner reads back is stated with any text behind it. Two things about that text matter:
whether it goes on with a name, and what comes after its blanks.
-/

namespace TracedGrammar

open Scanner (exactly char spanned many many1 oneOf noneOf blanks Yields Fails)

/-! ### Names and blanks -/

/-- Whether a character is passed over between the tokens of a document. -/
def isGap (char : Char) : Bool :=
  (CharClass.empty.addChars " \t\r\n").accepts char

/-- What is left of a text after its blanks. -/
def afterGap (chars : List Char) : List Char :=
  chars.dropWhile isGap

/-- The text does not go on with a character of a name. -/
def EndsName (chars : List Char) : Prop :=
  ∀ char ∈ chars.head?, Meta.nameRest.accepts char = false

/-- A character is passed over if it is one of four. -/
theorem eq_of_is_gap {char : Char} (gap : isGap char = true) :
    char = ' ' ∨ char = '\t' ∨ char = '\r' ∨ char = '\n' := by
  simpa using (Scanner.accepts_addChars " \t\r\n" char).mp gap

/-- The cursor behind blanks. -/
def Cursor.behindGap (cursor : Cursor) : Cursor :=
  ⟨cursor.offset + String.utf8Len (cursor.rest.takeWhile isGap), afterGap cursor.rest⟩

theorem Scanner.run_blanks (cursor : Cursor) :
    blanks.run cursor = some ((), cursor.behindGap) := by
  rw [blanks, StateT.run_bind, oneOf, Scanner.run_many_char]
  rfl

theorem Scanner.blanks_yields (chars : List Char) :
    blanks.Yields chars (fun _ => True) (afterGap chars) :=
  fun _ => ⟨(), _, run_blanks _, trivial⟩

theorem Scanner.name_yields {name : String} {first : Char} {others rest : List Char}
    (name_eq : name.toList = first :: others) (start : Meta.nameStart.accepts first = true)
    (inside : ∀ char ∈ others, Meta.nameRest.accepts char = true) (ends : EndsName rest) :
    Scanner.name.Yields (name.toList ++ rest) (· = name) rest := by
  rw [name_eq, List.cons_append]
  refine .bind (.char start) fun _ first_eq => .bind (.many_char inside ends) fun _ others_eq => ?_
  exact .pure (by rw [first_eq, others_eq, ← name_eq, String.ofList_toList])

theorem Ident.scan_yields {ident : Ident} {rest : List Char} (legible : ident.IsLegible)
    (ends : EndsName rest) :
    Ident.scan.Yields (ident.written ++ rest) (·.eraseSpans = ident.eraseSpans)
      (afterGap rest) := by
  obtain ⟨first, others, name_eq, start, inside⟩ := legible
  refine .spanned <| .bind (Scanner.name_yields name_eq start inside ends) fun _ same => ?_
  refine .bind (Scanner.blanks_yields rest) fun _ _ => .pure fun span => ?_
  rw [same]
  rfl

theorem Ident.scan_fails {chars : List Char}
    (other : ∀ char ∈ chars.head?, Meta.nameStart.accepts char = false) : Ident.scan.Fails chars :=
  .spanned <| .bind <| .bind <| .char other

/-! ### Characters, classes and literals -/

/-- A mark is read where it is written, and only there. -/
theorem Scanner.mark_yields (text : String) (char : Char) {marked : Bool} {chars : List Char}
    (one : text.toList = [char]) (other : marked = false → chars.head? ≠ some char) :
    (optional (exactly text)).Yields ((if marked then [char] else []) ++ chars)
      (·.isSome = marked) chars := by
  cases marked with
  | true =>
      rw [if_pos rfl, ← one]
      refine .mono (.optional_some (.exactly text)) ?_
      rintro _ ⟨_, rfl, -⟩
      rfl
  | false =>
      refine .mono (.optional_none (.exactly_one text char one (other rfl))) ?_
      rintro _ rfl
      rfl

theorem not_accepts_addChars {chars : String} {char : Char} (h : char ∈ chars.toList) :
    (CharClass.empty.addChars chars).negate.accepts char = false := by
  rw [CharClass.accepts_negate, (Scanner.accepts_addChars chars char).mpr h]
  rfl

namespace SourceChar

variable {allowed excluded : String} {char : SourceChar}

theorem scan_yields (special : '\\' ∈ excluded.toList) (legible : char.IsLegible allowed excluded)
    (rest : List Char) :
    (scan allowed excluded).Yields (char.written ++ rest) (·.eraseSpans = char.eraseSpans)
      rest := by
  cases escaped : char.escaped with
  | true =>
      rw [IsLegible, escaped, if_pos rfl] at legible
      have written_eq : char.written ++ rest = "\\".toList ++ char.char :: rest := by
        simp [written, escaped]
      rw [written_eq]
      refine .first <| .spanned <| .bind (.exactly _) fun _ _ => ?_
      refine .bind (.char legible) fun found same => .pure fun span => ?_
      simp [eraseSpans, same, escaped]
  | false =>
      rw [IsLegible, escaped, if_neg Bool.false_ne_true] at legible
      have no_slash : char.char ≠ '\\' := by
        intro slash
        rw [slash, not_accepts_addChars special] at legible
        cases legible
      have written_eq : char.written ++ rest = char.char :: rest := by simp [written, escaped]
      rw [written_eq]
      refine .second (.spanned (.bind (.exactly ?_))) <| .spanned ?_
      · simpa using fun slash => no_slash slash.symm
      · refine .bind (.char legible) fun found same => .pure fun span => ?_
        simp [eraseSpans, same, escaped]

/-- No character is scanned that has to stand after a backslash. -/
theorem scan_fails {first : Char} (slash : first ≠ '\\') (excluded_first : first ∈ excluded.toList)
    (rest : List Char) : (scan allowed excluded).Fails (first :: rest) := by
  refine .or_else (.spanned (.bind (.exactly ?_))) (.spanned (.bind (.char ?_)))
  · simpa using fun same => slash same.symm
  · simpa using not_accepts_addChars excluded_first

theorem scan_quoted_yields {quote : Quote} (legible : char.IsLegibleQuoted quote)
    (rest : List Char) :
    (scanQuoted quote).Yields (char.written ++ rest) (·.eraseSpans = char.eraseSpans) rest := by
  cases quote <;> exact scan_yields (by decide) legible rest

theorem scan_quoted_fails (quote : Quote) (rest : List Char) :
    (scanQuoted quote).Fails (quote.text.toList ++ rest) := by
  cases quote <;> exact scan_fails (by decide) (by decide) rest

end SourceChar

namespace ClassMember

variable {rest : List Char}

/-- Behind what begins otherwise, and at the end of a class, no mark is written. -/
theorem head_ne {chars : List Char} {mark : Char} (other : chars.head? ≠ some mark)
    (inside : mark ≠ ']') (rest : List Char) : (chars ++ ']' :: rest).head? ≠ some mark := by
  cases chars with
  | nil => simpa using inside.symm
  | cons first chars => simpa using other

/-- Nothing of a class is scanned at its end. -/
theorem scan_fails (rest : List Char) : scan.Fails (']' :: rest) := by
  have no_char : SourceChar.scanInClass.Fails (']' :: rest) :=
    SourceChar.scan_fails (by decide) (by decide) rest
  rw [scan, map_eq_pure_bind]
  exact .or_else (.spanned (.bind no_char)) (.bind no_char)

/-- A member is scanned from what is written of it and of the members behind it. -/
theorem scan_yields {member : ClassMember} {members : List ClassMember}
    (legible : AreLegible (member :: members)) (rest : List Char) :
    scan.Yields (member.written ++ (members.flatMap written ++ ']' :: rest))
      (·.eraseSpans = member.eraseSpans) (members.flatMap written ++ ']' :: rest) := by
  obtain ⟨member_legible, -, hyphen⟩ := legible
  cases member with
  | range low high span =>
      have written_eq : written (.range low high span) ++ (members.flatMap written ++ ']' :: rest) =
          low.written ++
            ("-".toList ++ (high.written ++ (members.flatMap written ++ ']' :: rest))) := by
        simp [written]
      rw [written_eq]
      refine .first <| .spanned ?_
      refine .bind (SourceChar.scan_yields (by decide) member_legible.1 _) fun _ low_same => ?_
      refine .bind (.exactly "-") fun _ _ => ?_
      refine .bind (SourceChar.scan_yields (by decide) member_legible.2 _) fun _ high_same => ?_
      exact .pure fun span => by simp only [eraseSpans, low_same, high_same]
  | single char =>
      have scanned := SourceChar.scan_yields (by decide) member_legible
        (members.flatMap written ++ ']' :: rest)
      refine .second ?_ ?_
      · -- a hyphen behind the character is the last of the class
        refine .spanned (.after scanned fun _ _ => ?_)
        by_cases follows : (members.flatMap written).head? = some '-'
        · rw [hyphen char rfl follows]
          refine .after (.exactly "-") fun _ _ => .bind ?_
          exact SourceChar.scan_fails (by decide) (by decide) rest
        · exact .bind (.exactly_one "-" '-' rfl (head_ne follows (by decide) rest))
      · rw [map_eq_pure_bind]
        exact .bind scanned fun _ same => .pure (by simp only [eraseSpans, same])

end ClassMember

namespace Atom

variable {rest : List Char}

theorem scan_class_yields {inverted : Bool} {members : List ClassMember} {span : Span}
    (legible : IsLegible (.charClass inverted members span)) (rest : List Char) :
    scanClass.Yields (written (.charClass inverted members span) ++ rest)
      (·.eraseSpans = eraseSpans (.charClass inverted members span)) (afterGap rest) := by
  obtain ⟨members_legible, no_caret⟩ := legible
  have written_eq : written (.charClass inverted members span) ++ rest =
      "[".toList ++ ((if inverted then ['^'] else []) ++
        (members.flatMap ClassMember.written ++ ("]".toList ++ rest))) := by
    simp [written]
  have members_read : (many ClassMember.scan).Yields
      (members.flatMap ClassMember.written ++ ("]".toList ++ rest))
      (fun again => again.map ClassMember.eraseSpans = members.map ClassMember.eraseSpans)
      ("]".toList ++ rest) := by
    refine Yields.many ClassMember.eraseSpans
      (fun members => members.flatMap ClassMember.written ++ ("]".toList ++ rest))
      ClassMember.AreLegible ClassMember.scan_eats (fun member members legible => ?_)
      (ClassMember.scan_fails rest) members_legible
    refine ⟨legible.2.1, ?_⟩
    rw [List.flatMap_cons, List.append_assoc]
    exact ClassMember.scan_yields legible rest
  have upright : inverted = false →
      (members.flatMap ClassMember.written ++ ("]".toList ++ rest)).head? ≠ some '^' :=
    fun plain => ClassMember.head_ne (no_caret plain) (by decide) rest
  rw [written_eq]
  refine .spanned <| .bind (.exactly "[") fun _ _ => ?_
  refine .bind (Scanner.mark_yields "^" '^' rfl upright) fun mark mark_eq => ?_
  refine .bind members_read fun again same => .bind (.exactly "]") fun _ _ => ?_
  refine .bind (Scanner.blanks_yields rest) fun _ _ => .pure fun span => ?_
  simp only [eraseSpans, same, mark_eq]

theorem scan_literal_yields {quote : Quote} {chars : List SourceChar} {span : Span}
    (legible : IsLegible (.literal quote chars span)) (rest : List Char) :
    (scanLiteral quote).Yields (written (.literal quote chars span) ++ rest)
      (·.eraseSpans = eraseSpans (.literal quote chars span)) (afterGap rest) := by
  have written_eq : written (.literal quote chars span) ++ rest =
      quote.text.toList ++ (chars.flatMap SourceChar.written ++ (quote.text.toList ++ rest)) := by
    cases quote <;> simp [written, Quote.text, Quote.char]
  rw [written_eq]
  refine .spanned <| .bind (.exactly _) fun _ _ => ?_
  have chars_read : (many (SourceChar.scanQuoted quote)).Yields
      (chars.flatMap SourceChar.written ++ (quote.text.toList ++ rest))
      (fun again => again.map SourceChar.eraseSpans = chars.map SourceChar.eraseSpans)
      (quote.text.toList ++ rest) := by
    refine Yields.many SourceChar.eraseSpans
      (fun chars => chars.flatMap SourceChar.written ++ (quote.text.toList ++ rest))
      (fun chars => ∀ char ∈ chars, char.IsLegibleQuoted quote)
      (SourceChar.scanQuoted_finds quote).eats (fun char chars legible => ?_) ?_ legible
    · refine ⟨fun other among => legible other (.tail _ among), ?_⟩
      rw [List.flatMap_cons, List.append_assoc]
      exact SourceChar.scan_quoted_yields (legible char (.head _)) _
    · exact SourceChar.scan_quoted_fails quote rest
  refine .bind chars_read fun again same => .bind (.exactly _) fun _ _ => ?_
  refine .bind (Scanner.blanks_yields rest) fun _ _ => .pure fun span => ?_
  simp only [eraseSpans, same]

theorem scan_reference_fails {first : Char} (other : Meta.nameStart.accepts first = false)
    (rest : List Char) : scanReference.Fails (first :: rest) := by
  rw [scanReference, map_eq_pure_bind]
  exact .bind (Ident.scan_fails (by simpa using other))

theorem scan_class_fails {first : Char} (other : first ≠ '[') (rest : List Char) :
    scanClass.Fails (first :: rest) :=
  .spanned (.bind (.exactly_one "[" '[' rfl (by simpa using other)))

theorem scan_literal_fails {quote : Quote} {first : Char} (other : first ≠ quote.char)
    (rest : List Char) : (scanLiteral quote).Fails (first :: rest) := by
  refine .spanned (.bind (.exactly_one quote.text quote.char ?_ (by simpa using other)))
  cases quote <;> rfl

/-- An atom is scanned from what is written of it, with the blanks behind it. -/
theorem scan_yields {atom : Atom} (legible : atom.IsLegible) (ends : EndsName rest) :
    scan.Yields (atom.written ++ rest) (·.eraseSpans = atom.eraseSpans) (afterGap rest) := by
  cases atom with
  | reference target =>
      refine .first (.first (.first ?_))
      rw [scanReference, map_eq_pure_bind]
      refine .bind (Ident.scan_yields legible ends) fun _ same => .pure ?_
      simp only [eraseSpans, same]
  | charClass inverted members span =>
      exact .first (.first (.second (scan_reference_fails rfl _) (scan_class_yields legible rest)))
  | literal quote chars span =>
      cases quote with
      | single =>
          refine .first (.second ?_ (scan_literal_yields legible rest))
          exact .or_else (scan_reference_fails rfl _) (scan_class_fails (by decide) _)
      | double =>
          refine .second (.or_else (.or_else ?_ ?_) ?_) (scan_literal_yields legible rest)
          · exact scan_reference_fails rfl _
          · exact scan_class_fails (by decide) _
          · exact scan_literal_fails (by decide) _

end Atom

/-! ### Parts, rules and grammars -/

/-- The text begins like a part or a case does. -/
def StartsItem (chars : List Char) : Prop :=
  ∃ first others, chars = first :: others ∧
    (Meta.nameStart.accepts first = true ∨ first ∈ ['$', '[', '\'', '"'])

/-- The text may stand behind a part or a case. -/
structure EndsItem (chars : List Char) : Prop where
  name : EndsName chars
  next : ∀ char ∈ (afterGap chars).head?, char ∉ [':', '+', '*', '?']

theorem StartsItem.append {chars : List Char} (h : StartsItem chars) (rest : List Char) :
    StartsItem (chars ++ rest) := by
  obtain ⟨first, others, rfl, start⟩ := h
  exact ⟨first, others ++ rest, rfl, start⟩

/-- A character that no part begins with. -/
theorem StartsItem.head_ne {chars : List Char} (h : StartsItem chars) {char : Char}
    (no_name : Meta.nameStart.accepts char = false) (no_mark : char ∉ ['$', '[', '\'', '"']) :
    chars.head? ≠ some char := by
  obtain ⟨first, others, rfl, start | start⟩ := h
  · rintro ⟨⟩
    rw [no_name] at start
    cases start
  · rintro ⟨⟩
    exact no_mark start

theorem StartsItem.after_gap_eq {chars : List Char} (h : StartsItem chars) :
    afterGap chars = chars := by
  have no_gap : ∀ char ∈ chars.head?, isGap char = false := by
    intro char first
    rw [Bool.eq_false_iff]
    intro gap
    rcases eq_of_is_gap gap with rfl | rfl | rfl | rfl <;> exact h.head_ne rfl (by decide) first
  obtain ⟨first, others, rfl, -⟩ := h
  exact List.dropWhile_cons_of_neg (by simp [no_gap first rfl])

theorem Ident.starts {ident : Ident} (legible : ident.IsLegible) : StartsItem ident.written := by
  obtain ⟨first, others, written_eq, start, -⟩ := legible
  exact ⟨first, others, written_eq, .inl start⟩

theorem Atom.starts {atom : Atom} (legible : atom.IsLegible) : StartsItem atom.written := by
  cases atom with
  | reference target => exact Ident.starts legible
  | charClass inverted members span => exact ⟨'[', _, rfl, .inr (by decide)⟩
  | literal quote chars span => cases quote <;> exact ⟨_, _, rfl, .inr (by decide)⟩

theorem Atom.head_ne_mark {atom : Atom} (legible : atom.IsLegible) (rest : List Char) :
    (atom.written ++ rest).head? ≠ some '$' := by
  cases atom with
  | reference target =>
      obtain ⟨first, others, written_eq, start, -⟩ := legible
      rw [written, written_eq]
      rintro ⟨⟩
      cases start
  | charClass inverted members span => simp [written]
  | literal quote chars span => cases quote <;> simp [written, Quote.char]

theorem Suffix.scan_yields (suffix : Suffix) (rest : List Char) :
    Suffix.scan.Yields (suffix.char :: rest) (· = suffix) (afterGap rest) := by
  have allowed : (CharClass.empty.addChars "+*?").accepts suffix.char = true := by
    cases suffix <;> rfl
  refine .bind (.char allowed) fun _ same => ?_
  refine .bind (Scanner.blanks_yields rest) fun _ _ => .pure ?_
  rw [same]
  cases suffix <;> rfl

theorem Suffix.after_gap_char (suffix : Suffix) (rest : List Char) :
    afterGap (suffix.char :: rest) = suffix.char :: rest := by
  cases suffix <;> rfl

theorem Suffix.scan_fails {chars : List Char}
    (other : ∀ char ∈ chars.head?, char ∉ [':', '+', '*', '?']) : Suffix.scan.Fails chars := by
  refine .bind (.char fun char first => ?_)
  rw [Bool.eq_false_iff]
  intro accepted
  have among : char = '+' ∨ char = '*' ∨ char = '?' := by
    simpa using (Scanner.accepts_addChars "+*?" char).mp accepted
  exact other char first (by simpa using .inr among)

namespace Part

variable {part : Part} {rest : List Char}

/-- What is written behind the atom of a part. -/
def suffixText (part : Part) : List Char :=
  (part.suffix.map Suffix.char).toList

/-- What is written of a part from its mark on. -/
def markedText (part : Part) : List Char :=
  (if part.stringify then ['$'] else []) ++ part.atom.written

theorem starts_marked (legible : part.IsLegible) : StartsItem part.markedText := by
  rw [markedText]
  cases part.stringify with
  | true => exact ⟨'$', _, rfl, .inr (by decide)⟩
  | false => exact Atom.starts legible.atom

theorem starts (legible : part.IsLegible) : StartsItem part.written := by
  rw [written]
  cases field_eq : part.field with
  | none => exact ((starts_marked legible).append _)
  | some field =>
      have start := Ident.starts (legible.field field field_eq)
      simpa using start.append _

/-- Neither a name nor a field goes on behind an atom, whether or not it has a suffix. -/
theorem ends_suffix (ends : EndsItem rest) : EndsName (part.suffixText ++ rest) ∧
    (afterGap (part.suffixText ++ rest)).head? ≠ some ':' := by
  rw [suffixText]
  cases part.suffix with
  | none => exact ⟨ends.name, fun colon => ends.next ':' colon (by decide)⟩
  | some suffix =>
      show EndsName (suffix.char :: rest) ∧ (afterGap (suffix.char :: rest)).head? ≠ some ':'
      rw [suffix.after_gap_char]
      cases suffix <;> exact ⟨by simp [EndsName]; rfl, by simp [Suffix.char]⟩

theorem suffix_yields (ends : EndsItem rest) :
    (optional Suffix.scan).Yields (afterGap (part.suffixText ++ rest)) (· = part.suffix)
      (afterGap rest) := by
  rw [suffixText]
  cases part.suffix with
  | none =>
      refine .mono (.optional_none (Suffix.scan_fails ends.next)) ?_
      rintro _ rfl
      rfl
  | some suffix =>
      show (optional Suffix.scan).Yields (afterGap (suffix.char :: rest)) (· = some suffix) _
      rw [suffix.after_gap_char]
      refine .mono (.optional_some (Suffix.scan_yields suffix rest)) ?_
      rintro _ ⟨_, rfl, rfl⟩
      rfl

/-- No field is scanned where none is written. -/
theorem scan_field_fails (legible : part.IsLegible) (ends : EndsItem rest) :
    scanField.Fails (part.markedText ++ (part.suffixText ++ rest)) := by
  obtain ⟨ends_name, no_colon⟩ := part.ends_suffix ends
  have no_name : ∀ {first : Char} {others : List Char}, Meta.nameStart.accepts first = false →
      scanField.Fails (first :: others) := fun other =>
    .bind (Ident.scan_fails (by simpa using other))
  rw [markedText]
  cases part.stringify with
  | true => exact no_name rfl
  | false =>
      cases atom_eq : part.atom with
      | reference target =>
          have target_legible : target.IsLegible := by
            have atom_legible := legible.atom
            rwa [atom_eq] at atom_legible
          refine .after (Ident.scan_yields target_legible ends_name) fun _ _ => ?_
          exact .bind (.exactly_one ":" ':' rfl no_colon)
      | charClass inverted members span => exact no_name rfl
      | literal quote chars span => cases quote <;> exact no_name rfl

theorem field_yields (legible : part.IsLegible) (ends : EndsItem rest) :
    (optional scanField).Yields (part.written ++ rest)
      (·.map Ident.eraseSpans = part.field.map Ident.eraseSpans)
      (part.markedText ++ (part.suffixText ++ rest)) := by
  cases field_eq : part.field with
  | none =>
      have written_eq : part.written ++ rest = part.markedText ++ (part.suffixText ++ rest) := by
        simp [written, markedText, suffixText, field_eq]
      rw [written_eq]
      refine .mono (.optional_none (scan_field_fails legible ends)) ?_
      rintro _ rfl
      rfl
  | some field =>
      have written_eq : part.written ++ rest = field.written ++
          (":".toList ++ (part.markedText ++ (part.suffixText ++ rest))) := by
        simp [written, markedText, suffixText, field_eq]
      have no_gap := ((starts_marked legible).append (part.suffixText ++ rest)).after_gap_eq
      have field_scanned : scanField.Yields
          (field.written ++ (":".toList ++ (part.markedText ++ (part.suffixText ++ rest))))
          (·.eraseSpans = field.eraseSpans) (part.markedText ++ (part.suffixText ++ rest)) := by
        have blanks_scanned := Scanner.blanks_yields (part.markedText ++ (part.suffixText ++ rest))
        rw [no_gap] at blanks_scanned
        refine .bind (Ident.scan_yields (legible.field field field_eq) ?_) fun _ same => ?_
        · simp [EndsName]
          rfl
        · exact .bind (.exactly ":") fun _ _ => .bind blanks_scanned fun _ _ => .pure same
      rw [written_eq]
      refine .mono (.optional_some field_scanned) ?_
      rintro _ ⟨found, rfl, same⟩
      exact congrArg some same

/-- A part is scanned from what is written of it, with the blanks behind it. -/
theorem scan_yields (legible : part.IsLegible) (ends : EndsItem rest) :
    scan.Yields (part.written ++ rest) (·.eraseSpans = part.eraseSpans) (afterGap rest) := by
  refine .spanned <| .bind (field_yields legible ends) fun field field_same => ?_
  rw [markedText, List.append_assoc]
  refine .bind (Scanner.mark_yields "$" '$' rfl fun _ => Atom.head_ne_mark legible.atom _)
    fun mark mark_eq => ?_
  refine .bind (Atom.scan_yields legible.atom (ends_suffix ends).1) fun atom atom_same => ?_
  refine .bind (suffix_yields ends) fun suffix suffix_eq => .pure fun span => ?_
  simp only [eraseSpans, field_same, mark_eq, atom_same, suffix_eq]

end Part

section

variable {α β : Type} {scan : Scanner α} {spelled : α → List Char} {same : α → β} {items : List α}

/-- Items with a blank before each, up to the semicolon. -/
def spacedText (spelled : α → List Char) (rest : List Char) (items : List α) : List Char :=
  items.flatMap (fun item => ' ' :: spelled item) ++ ';' :: rest

theorem after_gap_spaced {item : α} (starts : StartsItem (spelled item)) (rest : List Char) :
    afterGap (spacedText spelled rest (item :: items)) =
      spelled item ++ spacedText spelled rest items := by
  have no_gap := (starts.append (spacedText spelled rest items)).after_gap_eq
  rw [← no_gap]
  simp [spacedText, afterGap, show isGap ' ' = true from rfl]

theorem ends_item_spaced (starts : ∀ item ∈ items, StartsItem (spelled item)) (rest : List Char) :
    EndsItem (spacedText spelled rest items) := by
  cases items with
  | nil =>
      refine ⟨by simp [EndsName, spacedText]; rfl, fun char first => ?_⟩
      cases (show some ';' = some char from first)
      decide
  | cons item items =>
      refine ⟨by simp [EndsName, spacedText]; rfl, ?_⟩
      rw [after_gap_spaced (starts item (.head _))]
      intro char first among
      have start := (starts item (.head _)).append (spacedText spelled rest items)
      simp only [List.mem_cons, List.not_mem_nil, or_false] at among
      rcases among with rfl | rfl | rfl | rfl <;>
        exact start.head_ne rfl (by decide) first

/-- An item that is scanned from what is written of it, whatever may stand behind it. -/
structure ReadsBack (scan : Scanner α) (spelled : α → List Char) (same : α → β) (item : α) :
    Prop where
  starts : StartsItem (spelled item)
  scanned : ∀ rest, EndsItem rest →
    scan.Yields (spelled item ++ rest) (same · = same item) (afterGap rest)

/-- The items of a rule are scanned up to the semicolon. -/
theorem spaced_yields (eats : scan.Eats) (each : ∀ item ∈ items, ReadsBack scan spelled same item)
    (nonempty : items ≠ []) {rest : List Char} (ends : scan.Fails (';' :: rest)) :
    (many1 scan).Yields (afterGap (spacedText spelled rest items))
      (fun again => again.map same = items.map same) (';' :: rest) := by
  refine .many1 eats ?_ fun none_left => nonempty (by simpa using none_left.symm)
  refine Yields.many same (fun items => afterGap (spacedText spelled rest items))
    (fun items => ∀ item ∈ items, ReadsBack scan spelled same item) eats
    (fun item items all => ⟨fun other among => all other (.tail _ among), ?_⟩) ends each
  rw [after_gap_spaced (all item (.head _)).starts]
  exact (all item (.head _)).scanned _
    (ends_item_spaced (fun other among => (all other (.tail _ among)).starts) rest)

end

theorem Ident.reads_back {ident : Ident} (legible : ident.IsLegible) :
    ReadsBack Ident.scan Ident.written Ident.eraseSpans ident :=
  ⟨Ident.starts legible, fun _ ends => Ident.scan_yields legible ends.name⟩

theorem Part.reads_back {part : Part} (legible : part.IsLegible) :
    ReadsBack Part.scan Part.written Part.eraseSpans part :=
  ⟨Part.starts legible, fun _ ends => Part.scan_yields legible ends⟩

theorem Ident.scan_fails_at_semicolon (rest : List Char) : Ident.scan.Fails (';' :: rest) := by
  refine Ident.scan_fails fun char first => ?_
  cases first
  rfl

theorem Part.scan_fails_at_semicolon (rest : List Char) : Part.scan.Fails (';' :: rest) := by
  have no_field : scanField.Fails (';' :: rest) := .bind (Ident.scan_fails_at_semicolon rest)
  refine .spanned (.after (.optional_none no_field) fun _ _ => ?_)
  refine .after (.optional_none (.exactly_one "$" '$' rfl (by simp))) fun _ _ => .bind ?_
  refine .or_else (.or_else (.or_else ?_ ?_) ?_) ?_
  · exact Atom.scan_reference_fails rfl rest
  · exact Atom.scan_class_fails (by decide) rest
  · exact Atom.scan_literal_fails (by decide) rest
  · exact Atom.scan_literal_fails (by decide) rest

namespace Rule

variable {rest : List Char}

/-- The name of a rule is scanned with the blank before the sign that follows it. -/
theorem name_yields {name : Ident} (legible : name.IsLegible) {sign : Char}
    (no_gap : isGap sign = false) (rest : List Char) :
    Ident.scan.Yields (name.written ++ ' ' :: sign :: rest) (·.eraseSpans = name.eraseSpans)
      (sign :: rest) := by
  have scanned := @Ident.scan_yields name (' ' :: sign :: rest) legible
    (by simp [EndsName]; rfl)
  have left : afterGap (' ' :: sign :: rest) = sign :: rest := by
    simp [afterGap, no_gap, show isGap ' ' = true from rfl]
  rwa [left] at scanned

/-- A rule is scanned from what is written of it, with the blanks behind it. -/
theorem scan_yields {rule : Rule} (legible : rule.IsLegible) (rest : List Char) :
    scan.Yields (rule.written ++ rest) (·.eraseSpans = rule.eraseSpans) (afterGap rest) := by
  cases rule with
  | sequence name parts span =>
      obtain ⟨name_legible, nonempty, parts_legible⟩ := legible
      have written_eq : written (.sequence name parts span) ++ rest =
          name.written ++ ' ' :: '=' :: spacedText Part.written rest parts := by
        simp [written, spacedText]
      rw [written_eq]
      have name_scanned := name_yields name_legible (show isGap '=' = false from rfl)
        (spacedText Part.written rest parts)
      have parts_scanned := spaced_yields Part.scan_finds.eats
        (fun part among => Part.reads_back (parts_legible part among)) nonempty
        (Part.scan_fails_at_semicolon rest)
      refine .second (.spanned (.after name_scanned fun _ _ => .bind ?_)) (.spanned ?_)
      · exact .exactly_one ":" ':' rfl (by simp)
      refine .bind name_scanned fun _ name_same => .bind (.exactly "=") fun _ _ => ?_
      refine .bind (Scanner.blanks_yields _) fun _ _ => .bind parts_scanned fun _ same => ?_
      refine .bind (.exactly ";") fun _ _ => .bind (Scanner.blanks_yields rest) fun _ _ => ?_
      exact .pure fun span => by simp only [eraseSpans, name_same, same]
  | union name cases span =>
      obtain ⟨name_legible, nonempty, cases_legible⟩ := legible
      have written_eq : written (.union name cases span) ++ rest =
          name.written ++ ' ' :: ':' :: spacedText Ident.written rest cases := by
        simp [written, spacedText]
      rw [written_eq]
      have name_scanned := name_yields name_legible (show isGap ':' = false from rfl)
        (spacedText Ident.written rest cases)
      have cases_scanned := spaced_yields Ident.scan_finds.eats
        (fun target among => Ident.reads_back (cases_legible target among)) nonempty
        (Ident.scan_fails_at_semicolon rest)
      refine .first (.spanned ?_)
      refine .bind name_scanned fun _ name_same => .bind (.exactly ":") fun _ _ => ?_
      refine .bind (Scanner.blanks_yields _) fun _ _ => .bind cases_scanned fun _ same => ?_
      refine .bind (.exactly ";") fun _ _ => .bind (Scanner.blanks_yields rest) fun _ _ => ?_
      exact .pure fun span => by simp only [eraseSpans, name_same, same]

end Rule

/-- No name starts with a blank. -/
theorem not_blank_of_name_start {char : Char} (start : Meta.nameStart.accepts char = true) :
    Text.isBlankChar char = false := by
  have letter : ('a' ≤ char ∧ char ≤ 'z') ∨ ('A' ≤ char ∧ char ≤ 'Z') ∨ '_' = char := by
    simpa [Meta.nameStart, CharClass.accepts, CharClass.addChars, CharClass.addRange, CharClass.add,
      CharClass.empty, ClassItem.covers, or_assoc] using start
  have bounds : (97 ≤ char.toNat ∧ char.toNat ≤ 122) ∨ (65 ≤ char.toNat ∧ char.toNat ≤ 90) ∨
      95 = char.toNat := by
    rcases letter with lower | upper | rfl
    · exact .inl lower
    · exact .inr (.inl upper)
    · exact .inr (.inr rfl)
  simp [Text.isBlankChar]
  omega

theorem StartsItem.not_blank {chars : List Char} (h : StartsItem chars) :
    chars.all Text.isBlankChar = false := by
  obtain ⟨first, others, rfl, start | start⟩ := h
  · rw [List.all_cons, not_blank_of_name_start start, Bool.false_and]
  · rw [List.all_cons, Bool.and_eq_false_iff]
    simp only [List.mem_cons, List.not_mem_nil, or_false] at start
    rcases start with rfl | rfl | rfl | rfl <;> exact .inl rfl

namespace Rule

theorem starts {rule : Rule} (legible : rule.IsLegible) : StartsItem rule.written := by
  cases rule with
  | sequence name parts span => simpa [written] using (Ident.starts legible.1).append _
  | union name cases span => simpa [written] using (Ident.starts legible.1).append _

/-- No rule is scanned where no name begins. -/
theorem scan_fails {chars : List Char}
    (other : ∀ char ∈ chars.head?, Meta.nameStart.accepts char = false) : scan.Fails chars := by
  have no_name := Ident.scan_fails other
  exact .or_else (.spanned (.bind no_name)) (.spanned (.bind no_name))

theorem scan_fails_at_end : scan.Fails [] :=
  scan_fails (by simp)

end Rule

namespace Grammar

variable {grammar : Grammar}

/-- A grammar is scanned from what is written of it. -/
theorem scan_yields (legible : grammar.IsLegible) (nonempty : grammar.rules ≠ []) :
    Grammar.scan.Yields grammar.written (·.eraseSpans = grammar.eraseSpans) [] := by
  have rules_scanned : (many1 Rule.scan).Yields (afterGap grammar.written)
      (fun again => again.map Rule.eraseSpans = grammar.rules.map Rule.eraseSpans) [] := by
    refine .many1 Rule.scan_finds.eats ?_ fun none_left => nonempty (by simpa using none_left.symm)
    refine Yields.many Rule.eraseSpans
      (fun rules => afterGap (rules.flatMap fun rule => rule.written ++ ['\n']))
      (fun rules => ∀ rule ∈ rules, rule.IsLegible) Rule.scan_finds.eats
      (fun rule rules all => ⟨fun other among => all other (.tail _ among), ?_⟩)
      Rule.scan_fails_at_end legible
    have start := Rule.starts (all rule (.head _))
    rw [List.flatMap_cons, List.append_assoc, (start.append _).after_gap_eq]
    exact Rule.scan_yields (all rule (.head _)) _
  refine .spanned <| .bind (Scanner.blanks_yields _) fun _ _ => ?_
  refine .bind rules_scanned fun again same => .pure fun span => ?_
  simp only [eraseSpans, same]

/-- A document that is not blank is read if it is scanned to its end. -/
theorem readNamed_of_scan {text : String} {after : Cursor} (not_blank : Text.isBlank text = false)
    (scanned : Grammar.scan.run (.start text) = some (grammar, after)) (ended : after.rest = [])
    (name : String) : Grammar.readNamed name text = .ok grammar := by
  refine readNamed_eq_ok_iff.mpr ?_
  rw [not_blank, if_neg Bool.false_ne_true]
  exact ⟨after, scanned, ended⟩

theorem read_of_scan {text : String} {after : Cursor} (not_blank : Text.isBlank text = false)
    (scanned : Grammar.scan.run (.start text) = some (grammar, after)) (ended : after.rest = []) :
    Grammar.read text = .ok grammar :=
  readNamed_of_scan not_blank scanned ended _

/-- A grammar that is scanned from a written form, which is not blank, is read from it. -/
theorem read_of_yields {chars : List Char} {good : Grammar → Prop}
    (scanned : Grammar.scan.Yields chars good []) (not_blank : chars.all Text.isBlankChar = false) :
    ∃ grammar, Grammar.read (String.ofList chars) = .ok grammar ∧ good grammar := by
  obtain ⟨grammar, stop, found, now⟩ := scanned 0
  have start_eq : Cursor.start (String.ofList chars) = ⟨0, chars⟩ := by
    rw [Cursor.start, String.toList_ofList]
  refine ⟨grammar, read_of_scan ?_ (start_eq ▸ found) rfl, now⟩
  rw [Text.isBlank, String.toList_ofList, not_blank]

/-- A grammar that can be read is read back from its written form, up to places in the text. -/
theorem read_of_legible (legible : grammar.IsLegible) :
    ∃ again, Grammar.read grammar.display = .ok again ∧ again.eraseSpans = grammar.eraseSpans := by
  by_cases empty : grammar.rules = []
  · refine ⟨⟨[], ⟨0, 0⟩⟩, ?_, by simp [eraseSpans, empty]⟩
    have written_eq : grammar.display = "" := by simp [display, written, empty]
    rw [written_eq]
    rfl
  · refine read_of_yields (scan_yields legible empty) ?_
    obtain ⟨rule, rules, rules_eq⟩ := List.exists_cons_of_ne_nil empty
    have start := Rule.starts (legible rule (by simp [rules_eq]))
    rw [written, rules_eq, List.flatMap_cons, List.append_assoc]
    exact (start.append _).not_blank

end Grammar

section

variable {text : String} {grammar : Grammar}

/-- Printing a grammar and reading it back loses nothing. What was read from a text is read again
from its written form, with the same rules, kinds, names, fields, marks, suffixes, quotes, class
members and characters, so that it is also written alike. -/
theorem read_display (accepted : Grammar.read text = .ok grammar) :
    ∃ again, Grammar.read grammar.display = .ok again ∧ again.eraseSpans = grammar.eraseSpans ∧
      again.display = grammar.display := by
  have legible : grammar.IsLegible := by
    have read := Grammar.readNamed_eq_ok_iff.mp accepted
    split at read
    · rw [read]
      exact fun rule among => absurd among List.not_mem_nil
    · obtain ⟨after, scanned, -⟩ := read
      obtain ⟨chars, -, legible⟩ := Grammar.scan_ensures _ _ _ scanned
      exact legible
  obtain ⟨again, read, same⟩ := Grammar.read_of_legible legible
  refine ⟨again, read, same, ?_⟩
  rw [← again.display_erase_spans, same, grammar.display_erase_spans]

end

/-- A union and a sequence, with blanks as they come, and with marks of their own inside a class and
a literal. -/
def crowdedText : String :=
  " tag : a;a=x :$[^^-]* \"q\\n\";"

/-- The crowded text is read, and what is written of it is read again. -/
theorem read_crowded :
    ∃ grammar again, Grammar.read crowdedText = .ok grammar ∧
      Grammar.read grammar.display = .ok again ∧ again.eraseSpans = grammar.eraseSpans ∧
        again.display = "tag : a;\na = x:$[^^-]* \"q\\n\";\n" := by
  have scanned : (Grammar.scan.run (.start crowdedText)).map
      (fun found => (found.1.display, found.2.rest)) =
        some ("tag : a;\na = x:$[^^-]* \"q\\n\";\n", []) := by
    cbv
  obtain ⟨⟨grammar, after⟩, found, shown⟩ := Option.map_eq_some_iff.mp scanned
  rw [Prod.mk.injEq] at shown
  have accepted : Grammar.read crowdedText = .ok grammar := by
    refine Grammar.readNamed_eq_ok_iff.mpr ?_
    rw [if_neg (by decide)]
    exact ⟨after, found, shown.2⟩
  obtain ⟨again, read, same, written⟩ := read_display accepted
  exact ⟨grammar, again, accepted, read, same, written.trans shown.1⟩

end TracedGrammar
