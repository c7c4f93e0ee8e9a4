import GrammarCensus.Proofs.Toml.FollowingTexts
import GrammarCensus.Proofs.Toml.WrittenEntries

/-!
# Lines that follow

What is read of a document does not depend on whether it ends there or other lines follow. A
value ends with its last sign, on whatever line that is, so a reader of values takes the same
in both cases if it takes none out of nothing; and so does the reader of a line. The main
statement is that the lines of a text with another one on a new line are those of the one
text and then those of the other.
-/

namespace GrammarCensus.Toml

section Values

/-- A word ends at a newline, and so does the gap between a date and a time. -/
theorem scalarWord_append (text next : List Char) :
    scalarWord (text++ '\n' :: next) =
      ((scalarWord text).1,(scalarWord text).2++ '\n' :: next) := by
  have hdigit : isDigit '\n' = false := by decide
  simp only [scalarWord]
  rw [takeWhile_append_newline rfl,dropWhile_append_newline rfl]
  generalize text.takeWhile isScalarChar = word
  rcases text.dropWhile isScalarChar with _|⟨c,_|⟨d,more⟩⟩
  · rfl
  · by_cases hc : c = ' '
    · subst hc
      simp [hdigit]
    · simp [hc]
  · by_cases hc : c = ' '
    · subst hc
      simp only [List.cons_append]
      split
      next =>
        rw [←List.cons_append,takeWhile_append_newline rfl,dropWhile_append_newline rfl]
      next => rfl
    · simp [hc]

/-- A value that holds no other ones ends where its word or its quotes do. -/
theorem steady_simpleValue? : Steady simpleValue? := by
  intro text rest value h next
  cases text with
  | nil => cases h
  | cons c others =>
    have hhead : (c::others++ '\n' :: next).head? = (c::others).head? := rfl
    rw [simpleValue?] at h ⊢
    rw [scalarWord_append,hhead]
    split at h
    next hquote =>
      rw [if_pos hquote]
      exact steady_text?.map (fun content => Value.string (String.ofList content)) h next
    next hquote =>
      rw [if_neg hquote]
      generalize scalarWord (c::others) = read at h ⊢
      obtain ⟨_,hscalar,hpair⟩ := Option.map_eq_some_iff.mp h
      cases hpair
      simp only [hscalar,Option.map_some]

namespace ValueReader

/-- A reader of values that does not go beyond a further line, and that takes no value out of
nothing, be it in front of that line or of the second half of a line end. -/
structure Bounded (item : ValueReader) : Prop where
  /-- It takes the same when another line follows. -/
  steady : Steady item.read?
  /-- It takes nothing off an empty text. -/
  read?_nil : item.read? [] = none
  /-- It takes nothing off a carriage return. -/
  read?_return : item.read? ['\r'] = none

/-- The reader of the values that hold no other ones is one. -/
theorem bounded_simple : simple.Bounded :=
  ⟨steady_simpleValue?,rfl,rfl⟩

section Nested

variable {item : ValueReader} {text rest more : List Char} {value : Value}

/-- An array ends at its closing bracket. -/
theorem elements?_of_close (h : skipGaps text = ']' :: rest) :
    item.elements? text = some ([],rest) := by
  rw [elements?]
  split
  next hclose =>
    rw [h] at hclose
    cases hclose
    rfl
  next hne => exact (hne _ h).elim

/-- Behind an element it goes on after a comma, or it ends. -/
theorem elements?_of_element (hopen : ∀ others, skipGaps text = ']' :: others → False)
    (hread : item.read? (skipGaps text) = some (value,rest)) :
    item.elements? text = match skipGaps rest with
      | ',' :: more => (item.elements? more).map fun (values,rest) => (value::values,rest)
      | ']' :: more => some ([value],more)
      | _ => none := by
  rw [elements?]
  split
  next hclose => exact (hopen _ hclose).elim
  next =>
    split
    next hnone => rw [hread] at hnone; cases hnone
    next hsome =>
      rw [hread] at hsome
      cases hsome
      split
      next hcomma => simp only [hcomma]
      next hclose => simp only [hclose]
      next hcomma hclose =>
        split
        next he => exact (hcomma _ he).elim
        next he => exact (hclose _ he).elim
        next => rfl

/-- An array of bounded values ends at its closing bracket, on whatever line that stands. -/
theorem Bounded.steady_elements? (hitem : item.Bounded) : Steady item.elements? := by
  intro text rest values h next
  have hsettled {start : List Char} {value : Value} {behind : List Char}
      (hread : item.read? start = some (value,behind)) : Settled start :=
    settled_of_read hitem.read?_nil hitem.read?_return hread
  -- an element begins behind a gap, which must not go on over the newline
  have helement {text : List Char} {value : Value} {behind : List Char}
      (hopen : ∀ others, skipGaps text = ']' :: others → False)
      (hread : item.read? (skipGaps text) = some (value,behind)) := by
    have hstart := skipGaps_append (hsettled hread) next
    have hopen' := append_ne_cons (by decide) hopen next
    have hread' := hitem.steady hread next
    rw [←hstart] at hopen' hread'
    exact elements?_of_element hopen' hread'
  fun_induction elements? item text generalizing values with
  | case1 text others hclose =>
    cases h
    exact elements?_of_close (skipGaps_append_of_cons hclose (by decide) next)
  | case2 => cases h
  | case3 text value behind more hcomma hopen hread _ ih =>
    obtain ⟨⟨_,_⟩,hothers,hpair⟩ := Option.map_eq_some_iff.mp h
    cases hpair
    rw [helement hopen hread,skipGaps_append_of_cons hcomma (by decide)]
    change (item.elements? (more++ '\n' :: next)).map _ = _
    rw [ih hothers]
    rfl
  | case4 text value behind more hclose hopen hread =>
    cases h
    rw [helement hopen hread,skipGaps_append_of_cons hclose (by decide)]
    rfl
  | case5 => cases h

/-- A key with a bounded value ends where the value does. -/
theorem Bounded.steady_assignment? (hitem : item.Bounded) : Steady item.assignment? := by
  intro text rest field h next
  simp only [assignment?,Option.bind_eq_bind,Option.bind_eq_some_iff,Option.pure_def,
    Option.some.injEq] at h
  obtain ⟨⟨key,behindKey⟩,hkey,behindSign,hsign,⟨value,behind⟩,hvalue,hfield⟩ := h
  cases hfield
  have hvalue' := hitem.steady hvalue next
  rw [←skipSpaces_append] at hvalue'
  simp only [assignment?,steady_key? hkey next,Option.bind_eq_bind,Option.bind_some,
    sign?_append hsign next,hvalue',Option.pure_def]

/-- Behind a field a table in braces goes on after a comma, or it ends. -/
theorem fields?_of_field {field : Key × Value} (h : item.assignment? text = some (field,rest)) :
    item.fields? text = match skipSpaces rest with
      | ',' :: more => (item.fields? more).map fun (fields,rest) => (field::fields,rest)
      | '}' :: more => some ([field],more)
      | _ => none := by
  rw [fields?]
  split
  next hnone => rw [h] at hnone; cases hnone
  next hsome =>
    rw [h] at hsome
    cases hsome
    split
    next hcomma => simp only [hcomma]
    next hclose => simp only [hclose]
    next hcomma hclose =>
      split
      next he => exact (hcomma _ he).elim
      next he => exact (hclose _ he).elim
      next => rfl

/-- The fields of a table in braces end at its closing brace. -/
theorem Bounded.steady_fields? (hitem : item.Bounded) : Steady item.fields? := by
  intro text rest fields h next
  fun_induction fields? item text generalizing fields with
  | case1 => cases h
  | case2 text field behind hfield more hcomma _ ih =>
    obtain ⟨⟨_,_⟩,hothers,hpair⟩ := Option.map_eq_some_iff.mp h
    cases hpair
    rw [fields?_of_field (hitem.steady_assignment? hfield next),skipSpaces_append,hcomma]
    change (item.fields? (more++ '\n' :: next)).map _ = _
    rw [ih hothers]
    rfl
  | case3 text field behind hfield more hclose =>
    cases h
    rw [fields?_of_field (hitem.steady_assignment? hfield next),skipSpaces_append,hclose]
    rfl
  | case4 => cases h

/-- A table in braces ends at its closing brace. -/
theorem Bounded.steady_braced? (hitem : item.Bounded) : Steady item.braced? := by
  intro text rest value h next
  rw [braced?] at h ⊢
  rw [skipSpaces_append]
  split at h
  next others hclose =>
    cases h
    rw [hclose]
    rfl
  next hopen =>
    simp only [Option.bind_eq_bind,Option.bind_eq_some_iff,Option.pure_def,
      Option.some.injEq] at h
    obtain ⟨⟨fields,behind⟩,hfields,table,htable,hpair⟩ := h
    cases hpair
    split
    next hclose => exact (append_ne_cons (by decide) hopen next _ hclose).elim
    next =>
      simp only [hitem.steady_fields? hfields next,Option.bind_eq_bind,Option.bind_some,htable,
        Option.pure_def]

/-- Values that hold bounded ones are bounded. -/
theorem Bounded.nested (hitem : item.Bounded) : item.nested.Bounded := by
  refine ⟨?_,rfl,rfl⟩
  intro text rest value h next
  change item.nestedValue? text = _ at h
  change item.nestedValue? (text++ '\n' :: next) = _
  rw [nestedValue?.eq_def] at h
  split at h
  next others => exact hitem.steady_elements?.map Value.array h next
  next others => exact hitem.steady_braced? h next
  next hbracket hbrace =>
    rw [nestedValue?.eq_def]
    split
    next he => exact (append_ne_cons (by decide) hbracket next _ he).elim
    next he => exact (append_ne_cons (by decide) hbrace next _ he).elim
    next => exact steady_simpleValue? h next

/-- Values of every depth are bounded. -/
theorem bounded_ofDepth (depth : Nat) : (ofDepth depth).Bounded := by
  induction depth with
  | zero => exact bounded_simple
  | succ depth ih => exact ih.nested

/-- So are those that a document may hold. -/
theorem bounded_limited : limited.Bounded :=
  bounded_ofDepth depthLimit

end Nested

end ValueReader

end Values

section Lines

variable {text rest : List Char} {line : Line} {lines : List Line}

/-- The words of a line are complete where the text ends, and the newline behind it adds
none. -/
theorem steady_line? : Steady line? := by
  intro text rest line h next
  rw [line?.eq_def] at h
  split at h
  next =>
    cases h
    rfl
  next others =>
    simp only [Option.bind_eq_bind,Option.bind_eq_some_iff,Option.pure_def,
      Option.some.injEq] at h
    obtain ⟨⟨key,behindKey⟩,hkey,behind,hfirst,_,hsecond,hpair⟩ := h
    cases hpair
    simp only [List.cons_append,line?,steady_key? hkey next,sign?_append hfirst next,
      sign?_append hsecond next,Option.bind_eq_bind,Option.bind_some,Option.pure_def]
  next others hshared =>
    simp only [Option.bind_eq_bind,Option.bind_eq_some_iff,Option.pure_def,
      Option.some.injEq] at h
    obtain ⟨⟨key,behindKey⟩,hkey,_,hclose,hpair⟩ := h
    cases hpair
    rw [List.cons_append,line?.eq_3]
    · simp only [steady_key? hkey next,sign?_append hclose next,Option.bind_eq_bind,
        Option.bind_some,Option.pure_def]
    · exact append_ne_cons (by decide) hshared next
  next c others hshared hheader =>
    rw [List.cons_append,line?.eq_4]
    · split at h
      next hblank =>
        cases h
        rw [if_pos hblank]
        rfl
      next hblank =>
        rw [if_neg hblank]
        obtain ⟨⟨⟨_,_⟩,_⟩,hassignment,hpair⟩ := Option.map_eq_some_iff.mp h
        cases hpair
        rw [←List.cons_append,ValueReader.bounded_limited.steady_assignment? hassignment next]
        rfl
    · exact fun _ hc _ => hheader hc
    · exact hheader

/-- The lines of a text with a further text on a new line are those of the one and then those
of the other. Between them there is a blank one where a newline ended the first text. -/
theorem lines?_append (h : lines? text = some lines) {next : List Char} (hnext : next ≠ []) :
    lines? (text++ '\n' :: next) = (lines? next).map (lines++·) ∨
      lines? (text++ '\n' :: next) = (lines? next).map (lines++.blank::·) := by
  have hfirst {text rest : List Char} {line : Line}
      (hline : line? (skipSpaces text) = some (line,rest)) :
      line? (skipSpaces (text++ '\n' :: next)) = some (line,rest++ '\n' :: next) := by
    rw [skipSpaces_append]
    exact steady_line? hline next
  fun_induction lines? text generalizing lines with
  | case1 => cases h
  | case2 => cases h
  | case3 text line rest hline hend =>
    cases h
    rcases skipLineEnd?_append hend next with hnewline|⟨_,hlast⟩
    · have hblank : lines? ('\n' :: next) = (lines? next).map (.blank::·) :=
        lines?_of_next rfl (skipLineEnd?_newline next) hnext
      rw [lines?_of_next (hfirst hline) hnewline (List.cons_ne_nil _ _),List.nil_append,hblank]
      exact Or.inr (Option.map_map ..)
    · exact Or.inl (lines?_of_next (hfirst hline) hlast hnext)
  | case4 text line rest hline c more hend _ ih =>
    obtain ⟨others,hothers,rfl⟩ := Option.map_eq_some_iff.mp h
    rcases skipLineEnd?_append hend next with hmore|⟨hnil,_⟩
    · rw [lines?_of_next (hfirst hline) hmore (by simp)]
      rcases ih hothers with hlines|hlines
      · rw [hlines]
        exact Or.inl (Option.map_map ..)
      · rw [hlines]
        exact Or.inr (Option.map_map ..)
    · cases hnil

end Lines

end GrammarCensus.Toml
