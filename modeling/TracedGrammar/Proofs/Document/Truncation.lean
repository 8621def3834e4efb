import TracedGrammar.Proofs.Document.RoundTrip

/-!
# Scanning a text that is cut off

The scanners of grammar documents look ahead, but never so far that it matters: what they have
scanned of a text they also scan if the text is cut off behind it (`Scanner.Cuts`). There is one
lemma for each way to build a scanner. A second attempt and an optional item need in addition that
an attempt that failed keeps failing on less of the text (`Scanner.KeepsFailing`); this holds of
what is scanned alike in a longer text (`Scanner.Extends`). Repeated items are cut off only before
something that is no further item, such as the semicolon at the end of a rule (`Scanner.CutsAt`).

So the rules that are scanned of a document are scanned alike without the text behind them
(`Grammar.cuts_scan`).
-/

namespace TracedGrammar

open Scanner (exactly char spanned many many1 oneOf noneOf blanks)

/-- Two places before the same end of a text are the same without it. -/
theorem Cursor.eq_of_append {chars back left : List Char} {offset stop : Nat}
    (h : (⟨offset, chars ++ back⟩ : Cursor) = ⟨stop, left ++ back⟩) :
    (⟨offset, chars⟩ : Cursor) = ⟨stop, left⟩ := by
  obtain ⟨rfl, same⟩ := Cursor.mk.inj h
  rw [List.append_cancel_right same]

namespace Cursor.Reads

variable {chars left read : List Char} {offset stop : Nat}

/-- The same characters are read of a longer text. -/
theorem extend (h : Cursor.Reads ⟨offset, chars⟩ read ⟨stop, left⟩) (back : List Char) :
    Cursor.Reads ⟨offset, chars ++ back⟩ read ⟨stop, left ++ back⟩ :=
  ⟨by rw [← List.append_assoc, ← h.rest_eq], h.offset_eq⟩

/-- The same characters are read of a text that is cut off behind them. -/
theorem cut {back : List Char}
    (h : Cursor.Reads ⟨offset, chars ++ back⟩ read ⟨stop, left ++ back⟩) :
    Cursor.Reads ⟨offset, chars⟩ read ⟨stop, left⟩ :=
  ⟨List.append_cancel_right (h.rest_eq.trans (List.append_assoc ..).symm), h.offset_eq⟩

end Cursor.Reads

namespace Scanner

variable {α β : Type} {scan other : Scanner α} {next : α → Scanner β}
  {good better : List Char → Prop}

/-- What is scanned in front of the end of a text is scanned without that end too, if the characters
that are left before it are good. -/
structure CutsAt (scan : Scanner α) (good : List Char → Prop) : Prop where
  ahead : scan.Ensures fun _ _ => True
  cut : ∀ {chars back left : List Char} {offset stop : Nat} {item : α},
    scan.run ⟨offset, chars ++ back⟩ = some (item, ⟨stop, left ++ back⟩) → good left →
      scan.run ⟨offset, chars⟩ = some (item, ⟨stop, left⟩)

/-- What is scanned in front of the end of a text is scanned without that end too. -/
abbrev Cuts (scan : Scanner α) : Prop :=
  scan.CutsAt fun _ => True

/-- What is scanned of a text is scanned of a longer one too, if the characters that are left of the
text are good. -/
def Extends (scan : Scanner α) (good : List Char → Prop) : Prop :=
  ∀ ⦃chars left : List Char⦄ ⦃offset stop : Nat⦄ ⦃item : α⦄ (back : List Char),
    scan.run ⟨offset, chars⟩ = some (item, ⟨stop, left⟩) → good left →
      scan.run ⟨offset, chars ++ back⟩ = some (item, ⟨stop, left ++ back⟩)

/-- Where nothing is scanned of a text, nothing is scanned of its front. -/
def KeepsFailing (scan : Scanner α) : Prop :=
  ∀ ⦃chars : List Char⦄ ⦃offset : Nat⦄ (back : List Char),
    scan.run ⟨offset, chars ++ back⟩ = none → scan.run ⟨offset, chars⟩ = none

/-- The second attempt has an item only where the first one has none. -/
def Apart (scan other : Scanner α) : Prop :=
  ∀ ⦃cursor item after⦄, other.run cursor = some (item, after) → scan.run cursor = none

/-- The mark that the second attempt begins with keeps the first one from having an item. -/
theorem Apart.of_mark {text : String} {onward : Unit → Scanner (Span → α)}
    (fails : ∀ rest, scan.Fails (text.toList ++ rest)) :
    scan.Apart (spanned (exactly text >>= onward)) := by
  rintro ⟨offset, chars⟩ item after scanned
  obtain ⟨found, inner, -⟩ := run_spanned_eq_some.mp scanned
  obtain ⟨_, middle, marked, -⟩ := run_bind_eq_some.mp inner
  obtain ⟨read, ⟨rfl, -⟩, rfl⟩ := Ensures.exactly text _ _ _ marked
  exact fails middle.rest offset

/-- What is read for an item of the second attempt keeps the first one from having any. -/
theorem Apart.of_reads (h : other.Ensures fun read _ => ∀ rest, scan.Fails (read ++ rest)) :
    scan.Apart other := by
  rintro ⟨offset, chars⟩ item after scanned
  obtain ⟨read, ⟨rfl, -⟩, fails⟩ := h _ item after scanned
  exact fails after.rest offset

/-- If what is not accepted begins at the same place of a text and of its front, the same characters
are accepted of both. -/
theorem takeWhile_append_eq {accepts : Char → Bool} {chars back : List Char}
    (h : (chars ++ back).dropWhile accepts = chars.dropWhile accepts ++ back) :
    (chars ++ back).takeWhile accepts = chars.takeWhile accepts := by
  have whole : (chars ++ back).takeWhile accepts ++ (chars ++ back).dropWhile accepts =
      chars ++ back := List.takeWhile_append_dropWhile
  rw [h, ← List.append_assoc, List.append_cancel_right_eq] at whole
  exact List.append_cancel_right (whole.trans List.takeWhile_append_dropWhile.symm)

/-! ### Items in a longer text -/

namespace Extends

theorem keepsFailing (h : scan.Extends fun _ => True) : scan.KeepsFailing := by
  intro chars offset back missed
  cases scanned : scan.run ⟨offset, chars⟩ with
  | none => rfl
  | some found => cases missed.symm.trans (h back scanned trivial)

theorem pure {item : α} : Extends (Pure.pure item) good := by
  intro chars left offset stop item back scanned _
  cases scanned
  rfl

theorem exactly (text : String) : (exactly text).Extends good := by
  intro chars left offset stop item back scanned _
  exact run_exactly_eq_some.mpr ((run_exactly_eq_some.mp scanned).extend back)

theorem char (accepts : Char → Bool) : (char accepts).Extends good := by
  intro chars left offset stop item back scanned _
  obtain ⟨accepted, reads⟩ := Cursor.eat_char_eq_some_iff.mp scanned
  exact Cursor.eat_char_eq_some_iff.mpr ⟨accepted, reads.extend back⟩

theorem many_char (accepts : Char → Bool) :
    (many (Scanner.char accepts)).Extends (· ≠ []) := by
  intro chars left offset stop items back scanned more
  rw [run_many_char] at scanned ⊢
  cases scanned
  have left_eq : (chars ++ back).dropWhile accepts = chars.dropWhile accepts ++ back := by
    rw [List.dropWhile_append, if_neg (by simpa using more)]
  simp only [left_eq, takeWhile_append_eq left_eq]

/-- What is left behind the second item tells whether what is left behind the first one is good. -/
theorem bind_between (h : scan.Extends better) (onward : ∀ item, (next item).Extends good)
    (between : ∀ item cursor last after, (next item).run cursor = some (last, after) →
      good after.rest → better cursor.rest) :
    (scan >>= next).Extends good := by
  intro chars left offset stop last back scanned now
  obtain ⟨item, middle, first, second⟩ := run_bind_eq_some.mp scanned
  have now_before := between item middle last _ second now
  exact run_bind_eq_some.mpr
    ⟨item, _, h back first now_before, onward item back second now⟩

theorem bind (h : scan.Extends fun _ => True) (onward : ∀ item, (next item).Extends good) :
    (scan >>= next).Extends good :=
  h.bind_between onward fun _ _ _ _ _ _ => trivial

/-- If more of a text is left behind the second item, more is left behind the first one. -/
theorem bind_more (h : scan.Extends (· ≠ [])) (onward : ∀ item, (next item).Extends (· ≠ []))
    (ahead : ∀ item, (next item).Ensures fun _ _ => True) :
    (scan >>= next).Extends (· ≠ []) := by
  refine h.bind_between onward fun item cursor last after second more => ?_
  obtain ⟨read, reads, -⟩ := ahead item cursor last after second
  rw [reads.rest_eq]
  exact List.append_ne_nil_of_right_ne_nil read more

theorem or_else (h : scan.Extends good) (h' : other.Extends good) (apart : scan.Apart other) :
    (scan <|> other).Extends good := by
  intro chars left offset stop item back scanned now
  rcases run_or_else_eq_some.mp scanned with first | ⟨-, second⟩
  · exact run_or_else_eq_some.mpr (.inl (h back first now))
  · have extended := h' back second now
    exact run_or_else_eq_some.mpr (.inr ⟨apart extended, extended⟩)

theorem spanned {scan : Scanner (Span → α)} (h : scan.Extends good) :
    (spanned scan).Extends good := by
  intro chars left offset stop item back scanned now
  obtain ⟨found, first, rfl⟩ := run_spanned_eq_some.mp scanned
  exact run_spanned_eq_some.mpr ⟨found, h back first now, rfl⟩

end Extends

namespace KeepsFailing

theorem of_total (h : ∀ cursor, ∃ found, scan.run cursor = some found) : scan.KeepsFailing := by
  intro chars offset back missed
  obtain ⟨found, scanned⟩ := h ⟨offset, chars ++ back⟩
  cases scanned.symm.trans missed

/-- An item that follows tells whether what is left behind the first one is good. -/
theorem bind_between (h : scan.Extends better) (onward : ∀ item, (next item).KeepsFailing)
    (between : ∀ item cursor last after, (next item).run cursor = some (last, after) →
      better cursor.rest) : (scan >>= next).KeepsFailing := by
  intro chars offset back missed
  cases scanned : (scan >>= next).run ⟨offset, chars⟩ with
  | none => rfl
  | some found =>
      obtain ⟨item, middle, first, second⟩ := run_bind_eq_some.mp scanned
      have now := between item middle _ _ second
      rw [StateT.run_bind, h back first now] at missed
      exact second.symm.trans (onward item back missed)

theorem bind (h : scan.Extends fun _ => True) (onward : ∀ item, (next item).KeepsFailing) :
    (scan >>= next).KeepsFailing :=
  .bind_between h onward fun _ _ _ _ _ => trivial

/-- The characters that an item begins with end the one before. -/
theorem bind_eats (h : scan.Extends (· ≠ [])) (onward : ∀ item, (next item).KeepsFailing)
    (eats : ∀ item, (next item).Eats) : (scan >>= next).KeepsFailing := by
  refine .bind_between h onward fun item cursor last after second => ?_
  obtain ⟨read, reads, some_read⟩ := eats item cursor last after second
  rw [reads.rest_eq]
  exact List.append_ne_nil_of_left_ne_nil some_read after.rest

end KeepsFailing

/-! ### Items in a text that is cut off -/

namespace CutsAt

theorem pure {item : α} : CutsAt (Pure.pure item) good := by
  refine ⟨.pure trivial, fun scanned _ => ?_⟩
  obtain ⟨rfl, same⟩ := Prod.mk.inj (Option.some.inj scanned)
  rw [Cursor.eq_of_append same]
  rfl

theorem exactly (text : String) : (exactly text).CutsAt good := by
  refine ⟨(Ensures.exactly text).mono fun _ _ _ => trivial, fun scanned _ => ?_⟩
  exact run_exactly_eq_some.mpr (run_exactly_eq_some.mp scanned).cut

theorem char (accepts : Char → Bool) : (char accepts).CutsAt good := by
  refine ⟨(Ensures.char accepts).mono fun _ _ _ => trivial, fun scanned _ => ?_⟩
  obtain ⟨accepted, reads⟩ := Cursor.eat_char_eq_some_iff.mp scanned
  exact Cursor.eat_char_eq_some_iff.mpr ⟨accepted, reads.cut⟩

theorem many_char (accepts : Char → Bool) : (many (Scanner.char accepts)).CutsAt good := by
  refine ⟨(Ensures.char accepts).many.mono fun _ _ _ => trivial, ?_⟩
  intro chars back left offset stop items scanned _
  rw [run_many_char] at scanned ⊢
  obtain ⟨rfl, same⟩ := Prod.mk.inj (Option.some.inj scanned)
  obtain ⟨rfl, rest_eq⟩ := Cursor.mk.inj same
  have left_eq : chars.dropWhile accepts = left := by
    rw [List.dropWhile_append] at rest_eq
    split at rest_eq
    · -- no character is left, as the end of the text has none to spare
      rename_i none_left
      have fewer := (List.dropWhile_sublist accepts (l := back)).length_le
      rw [rest_eq, List.length_append] at fewer
      rw [List.isEmpty_iff.mp none_left, List.eq_nil_of_length_eq_zero (by omega : left.length = 0)]
    · exact List.append_cancel_right rest_eq
  subst left_eq
  simp only [takeWhile_append_eq rest_eq]

theorem bind_at (h : scan.CutsAt better) (onward : ∀ item, (next item).CutsAt good)
    (reads : ∀ item, (next item).Ensures fun read _ => ∀ left, good left → better (read ++ left)) :
    (scan >>= next).CutsAt good := by
  refine ⟨.bind h.ahead fun _ item _ => (onward item).ahead, ?_⟩
  intro chars back left offset stop last scanned now
  obtain ⟨item, ⟨place, rest⟩, first, second⟩ := run_bind_eq_some.mp scanned
  obtain ⟨read, ⟨rfl, -⟩, between⟩ := reads item _ _ _ second
  dsimp only at first second
  rw [← List.append_assoc] at first second
  exact run_bind_eq_some.mpr ⟨item, _, h.cut first (between left now), (onward item).cut second now⟩

theorem bind (h : scan.Cuts) (onward : ∀ item, (next item).CutsAt good) :
    (scan >>= next).CutsAt good :=
  h.bind_at onward fun item => (onward item).ahead.mono fun _ _ _ _ _ => trivial

theorem map {convert : α → β} (h : scan.Cuts) : (convert <$> scan).CutsAt good := by
  rw [map_eq_pure_bind]
  exact h.bind fun _ => .pure

theorem spanned {scan : Scanner (Span → α)} (h : scan.CutsAt good) :
    (spanned scan).CutsAt good := by
  refine ⟨.spanned (h.ahead.mono fun _ _ _ _ => trivial), fun scanned now => ?_⟩
  obtain ⟨found, first, rfl⟩ := run_spanned_eq_some.mp scanned
  exact run_spanned_eq_some.mpr ⟨found, h.cut first now, rfl⟩

/-- A first attempt that fails on a text keeps failing if the text is cut off. -/
theorem or_else_of (h : scan.CutsAt good) (h' : other.CutsAt good)
    (keeps : ∀ {chars back left offset stop item}, scan.run ⟨offset, chars ++ back⟩ = none →
      other.run ⟨offset, chars⟩ = some (item, ⟨stop, left⟩) → scan.run ⟨offset, chars⟩ = none) :
    (scan <|> other).CutsAt good := by
  refine ⟨.or_else h.ahead h'.ahead, ?_⟩
  intro chars back left offset stop item scanned now
  rcases run_or_else_eq_some.mp scanned with first | ⟨missed, second⟩
  · exact run_or_else_eq_some.mpr (.inl (h.cut first now))
  · have cut := h'.cut second now
    exact run_or_else_eq_some.mpr (.inr ⟨keeps missed cut, cut⟩)

theorem or_else (h : scan.CutsAt good) (h' : other.CutsAt good) (keeps : scan.KeepsFailing) :
    (scan <|> other).CutsAt good :=
  h.or_else_of h' fun missed _ => keeps _ missed

theorem or_else_apart (h : scan.CutsAt good) (h' : other.CutsAt good) (apart : scan.Apart other) :
    (scan <|> other).CutsAt good :=
  h.or_else_of h' fun _ found => apart found

theorem optional (h : scan.CutsAt good) (keeps : scan.KeepsFailing) :
    (optional scan).CutsAt good := by
  refine ⟨h.ahead.optional.mono fun _ _ _ => trivial, ?_⟩
  intro chars back left offset stop item? scanned now
  rcases run_optional_eq_some.mp scanned with ⟨item, first, rfl⟩ | ⟨missed, rfl, same⟩
  · exact run_optional_eq_some.mpr (.inl ⟨item, h.cut first now, rfl⟩)
  · exact run_optional_eq_some.mpr (.inr ⟨keeps back missed, rfl, Cursor.eq_of_append same⟩)

/-- Items are repeated up to something that is no further item. -/
theorem many (h : scan.Cuts) (eats : scan.Eats) (ends : ∀ left, good left → scan.Fails left) :
    (many scan).CutsAt good := by
  refine ⟨h.ahead.many.mono fun _ _ _ => trivial, ?_⟩
  intro chars back left offset stop items scanned now
  induction size : chars.length using Nat.strong_induction_on generalizing chars offset items with
  | _ _ ih =>
  subst size
  rcases (run_many_eq_some eats).mp scanned with
    ⟨-, rfl, same⟩ | ⟨item, ⟨place, rest⟩, others, first, more, rfl⟩
  · have stands := Cursor.eq_of_append same
    refine (run_many_eq_some eats).mpr (.inl ⟨?_, rfl, stands⟩)
    rw [stands, ends left now]
  · -- the items behind the first one end before the end of the text, so it ends there too
    obtain ⟨read, ⟨rfl, -⟩, -⟩ := h.ahead.many _ _ _ more
    dsimp only at first more
    rw [← List.append_assoc] at first more
    have item_scanned := h.cut first trivial
    have others_scanned := ih _ (eats.length_lt item_scanned) more rfl
    exact (run_many_eq_some eats).mpr (.inr ⟨item, _, others, item_scanned, others_scanned, rfl⟩)

theorem many1 (h : scan.Cuts) (eats : scan.Eats) (ends : ∀ left, good left → scan.Fails left) :
    (many1 scan).CutsAt good := by
  refine .bind h fun first => .bind_at (.many h eats ends) (fun others => .pure) fun others => ?_
  exact .pure fun left now => now

/-- A mark behind an item keeps it where it is. -/
theorem before_mark {text : String} (h : scan.CutsAt (text.toList <+: ·))
    (onward : ∀ item, (next item).Cuts) :
    (scan >>= fun item => Scanner.exactly text >>= fun _ => next item).Cuts := by
  refine .bind_at h (fun item => .bind (.exactly _) fun _ => onward item) fun item => ?_
  refine .bind (.exactly text) fun read _ mark => ?_
  refine (onward item).ahead.mono fun more _ _ left _ => ⟨more ++ left, ?_⟩
  rw [mark, List.append_assoc]

end CutsAt

end Scanner

/-! ### The nodes of a grammar document -/

namespace Scanner

theorem cuts_blanks : blanks.Cuts :=
  .bind (.many_char _) fun _ => .pure

theorem extends_blanks : blanks.Extends (· ≠ []) :=
  .bind_more (.many_char _) (fun _ => .pure) fun _ => .pure trivial

/-- Blanks may be missing. -/
theorem blanks_keepsFailing {α : Type} (item : α) :
    (do blanks; return item : Scanner α).KeepsFailing := by
  refine .of_total fun cursor => ⟨(item, cursor.behindGap), ?_⟩
  rw [StateT.run_bind, run_blanks]
  rfl

theorem cuts_name : Scanner.name.Cuts :=
  .bind (.char _) fun _ => .bind (.many_char _) fun _ => .pure

theorem extends_name : Scanner.name.Extends (· ≠ []) :=
  .bind (.char _) fun _ => .bind_more (.many_char _) (fun _ => .pure) fun _ => .pure trivial

end Scanner

open Scanner (cuts_blanks extends_blanks blanks_keepsFailing blanks_ensures)

theorem Ident.cuts_scan : Ident.scan.Cuts :=
  .spanned <| .bind Scanner.cuts_name fun _ => .bind cuts_blanks fun _ => .pure

theorem Ident.extends_scan : Ident.scan.Extends (· ≠ []) := by
  refine .spanned <| .bind_more Scanner.extends_name (fun _ => ?_) fun _ => ?_
  · exact .bind_more extends_blanks (fun _ => .pure) fun _ => .pure trivial
  · exact .bind blanks_ensures fun _ _ _ => .pure trivial

namespace SourceChar

variable {allowed excluded : String}

/-- A character that is written as itself is no backslash. -/
theorem escaped_apart (special : '\\' ∈ excluded.toList) :
    (scanEscaped allowed).Apart (scanSimple excluded) := by
  refine .of_reads <| .spanned <| .bind (.char _) fun read char found => .pure fun span rest => ?_
  obtain ⟨accepted, rfl⟩ := found
  refine .spanned (.bind (.exactly_one "\\" '\\' rfl ?_))
  rintro ⟨⟩
  rw [not_accepts_addChars special] at accepted
  cases accepted

theorem cuts_scan (special : '\\' ∈ excluded.toList) : (scan allowed excluded).Cuts := by
  refine .or_else_apart (.spanned ?_) (.spanned ?_) (escaped_apart special)
  · exact .bind (.exactly _) fun _ => .bind (.char _) fun _ => .pure
  · exact .bind (.char _) fun _ => .pure

theorem extends_scan (special : '\\' ∈ excluded.toList) :
    (scan allowed excluded).Extends fun _ => True := by
  refine .or_else (.spanned ?_) (.spanned ?_) (escaped_apart special)
  · exact .bind (.exactly _) fun _ => .bind (.char _) fun _ => .pure
  · exact .bind (.char _) fun _ => .pure

theorem cuts_scan_quoted (quote : Quote) : (scanQuoted quote).Cuts := by
  cases quote <;> exact cuts_scan (by decide)

end SourceChar

namespace ClassMember

theorem range_keepsFailing : scanRange.KeepsFailing := by
  refine Scanner.Extends.keepsFailing <| .spanned <| .bind (SourceChar.extends_scan (by decide)) ?_
  intro low
  refine .bind (.exactly _) fun _ => .bind (SourceChar.extends_scan (by decide)) fun _ => .pure

theorem cuts_scan : scan.Cuts := by
  refine .or_else (.spanned ?_) (.map (SourceChar.cuts_scan (by decide))) range_keepsFailing
  refine .bind (SourceChar.cuts_scan (by decide)) fun _ => .bind (.exactly _) fun _ => ?_
  exact .bind (SourceChar.cuts_scan (by decide)) fun _ => .pure

end ClassMember

namespace Atom

theorem cuts_scan_class : scanClass.Cuts := by
  refine .spanned <| .bind (.exactly _) fun _ => ?_
  refine .bind (.optional (.exactly _) (Scanner.Extends.exactly _).keepsFailing) fun _ => ?_
  refine .before_mark (.many ClassMember.cuts_scan ClassMember.scan_eats ?_) fun _ => ?_
  · rintro _ ⟨rest, rfl⟩
    exact ClassMember.scan_fails rest
  · exact .bind cuts_blanks fun _ => .pure

theorem cuts_scan_literal (quote : Quote) : (scanLiteral quote).Cuts := by
  refine .spanned <| .bind (.exactly _) fun _ => ?_
  refine .before_mark (.many (SourceChar.cuts_scan_quoted quote)
    (SourceChar.scanQuoted_finds quote).eats ?_) fun _ => ?_
  · rintro _ ⟨rest, rfl⟩
    exact SourceChar.scan_quoted_fails quote rest
  · exact .bind cuts_blanks fun _ => .pure

theorem cuts_scan : scan.Cuts := by
  refine .or_else_apart (.or_else_apart (.or_else_apart (.map Ident.cuts_scan) cuts_scan_class ?_)
    (cuts_scan_literal _) ?_) (cuts_scan_literal _) ?_
  · exact .of_mark fun rest => scan_reference_fails rfl rest
  · refine .of_mark fun rest => .or_else ?_ ?_
    · exact scan_reference_fails rfl rest
    · exact scan_class_fails (by decide) rest
  · refine .of_mark fun rest => .or_else (.or_else ?_ ?_) ?_
    · exact scan_reference_fails rfl rest
    · exact scan_class_fails (by decide) rest
    · exact scan_literal_fails (by decide) rest

end Atom

theorem Suffix.cuts_scan : Suffix.scan.Cuts :=
  .bind (.char _) fun _ => .bind cuts_blanks fun _ => .pure

theorem Suffix.scan_keepsFailing : Suffix.scan.KeepsFailing :=
  .bind (.char _) fun symbol => blanks_keepsFailing (Suffix.ofChar symbol)

namespace Part

theorem cuts_scan_field : scanField.Cuts :=
  .bind Ident.cuts_scan fun _ => .bind (.exactly _) fun _ => .bind cuts_blanks fun _ => .pure

/-- A name that is no field of a text is none of its front either: the colon is missing. -/
theorem field_keepsFailing : scanField.KeepsFailing := by
  refine .bind_eats Ident.extends_scan (fun name => ?_) fun name => ?_
  · exact .bind (.exactly _) fun _ => blanks_keepsFailing name
  · refine .bind (.exactly ":") fun read _ colon => ?_
    exact .bind blanks_ensures fun _ _ _ => .pure (by simp [colon])

theorem cuts_scan : scan.Cuts := by
  refine .spanned <| .bind (.optional cuts_scan_field field_keepsFailing) fun _ => ?_
  refine .bind (.optional (.exactly _) (Scanner.Extends.exactly _).keepsFailing) fun _ => ?_
  refine .bind Atom.cuts_scan fun _ => ?_
  exact .bind (.optional Suffix.cuts_scan Suffix.scan_keepsFailing) fun _ => .pure

end Part

namespace Rule

theorem cuts_scan_union : scanUnion.Cuts := by
  refine .spanned <| .bind Ident.cuts_scan fun _ => .bind (.exactly _) fun _ => ?_
  refine .bind cuts_blanks fun _ => ?_
  refine .before_mark (.many1 Ident.cuts_scan Ident.scan_finds.eats ?_) fun _ => ?_
  · rintro _ ⟨rest, rfl⟩
    exact Ident.scan_fails_at_semicolon rest
  · exact .bind cuts_blanks fun _ => .pure

theorem cuts_scan_sequence : scanSequence.Cuts := by
  refine .spanned <| .bind Ident.cuts_scan fun _ => .bind (.exactly _) fun _ => ?_
  refine .bind cuts_blanks fun _ => ?_
  refine .before_mark (.many1 Part.cuts_scan Part.scan_finds.eats ?_) fun _ => ?_
  · rintro _ ⟨rest, rfl⟩
    exact Part.scan_fails_at_semicolon rest
  · exact .bind cuts_blanks fun _ => .pure

/-- The sign behind the name tells the two kinds of rules apart. -/
theorem union_apart : scanUnion.Apart scanSequence := by
  intro cursor rule after scanned
  obtain ⟨found, inner, -⟩ := Scanner.run_spanned_eq_some.mp scanned
  obtain ⟨name, middle, name_scanned, behind⟩ := Scanner.run_bind_eq_some.mp inner
  obtain ⟨_, further, sign, -⟩ := Scanner.run_bind_eq_some.mp behind
  obtain ⟨read, reads, rfl⟩ := Scanner.Ensures.exactly "=" _ _ _ sign
  have no_colon : (exactly ":").run middle = none :=
    Scanner.Fails.exactly_one ":" ':' rfl (by rw [reads.rest_eq]; simp) middle.offset
  rw [scanUnion, Scanner.run_spanned, StateT.run_bind, name_scanned, Option.map_eq_none_iff]
  simp only [Option.bind_eq_bind, Option.bind_some, StateT.run_bind, no_colon, Option.bind_none]

theorem cuts_scan : scan.Cuts :=
  .or_else_apart cuts_scan_union cuts_scan_sequence union_apart

end Rule

/-- The rules that are scanned of a document are scanned alike without the text behind them. -/
theorem Grammar.cuts_scan : Grammar.scan.CutsAt (· = []) := by
  refine .spanned <| .bind cuts_blanks fun _ => ?_
  have rules_cut : (many1 Rule.scan).CutsAt (· = []) := by
    refine .many1 Rule.cuts_scan Rule.scan_finds.eats ?_
    rintro _ rfl
    exact Rule.scan_fails_at_end
  exact .bind_at rules_cut (fun _ => .pure) fun _ => .pure fun left ended => ended

end TracedGrammar
