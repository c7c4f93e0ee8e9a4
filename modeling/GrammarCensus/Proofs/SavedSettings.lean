import GrammarCensus.Proofs.Toml.QuotedText
import GrammarCensus.Proofs.Toml.WrittenEntries
import GrammarCensus.Settings

/-!
# Settings that are written are read back

Each setting is written on a line of its own, of which a document may have either,
both or none, in either order. The main statement is that reading the document gives
every setting that it has, whatever characters the log filter is made of, and the
default of every one that it does not have.
-/

namespace GrammarCensus

namespace Toml

/-- A value that does not begin with a bracket or a brace is read on its own. -/
theorem limited_read? {c : Char} {rest : List Char} (hbracket : c ≠ '[') (hbrace : c ≠ '\x7b') :
    ValueReader.limited.read? (c::rest) = simpleValue? (c::rest) := by
  have hread : ValueReader.limited.read? (c::rest) =
      (ValueReader.ofDepth 78).nestedValue? (c::rest) := rfl
  rw [hread]
  unfold ValueReader.nestedValue?
  split
  next he => exact absurd (List.cons.inj he).1 hbracket
  next he => exact absurd (List.cons.inj he).1 hbrace
  next => rfl

/-- Every written form of a text begins with a quote. -/
theorem quoteAs_eq_cons (q : Quoting) (text : List Char) :
    ∃ c rest, quoteAs q text = c::rest ∧ (c = '"' ∨ c = '\'') := by
  cases q
  case basic => exact ⟨_,_,rfl,Or.inl rfl⟩
  case literal => exact ⟨_,_,rfl,Or.inr rfl⟩
  case basicBlock => exact ⟨_,_,rfl,Or.inl rfl⟩
  case literalBlock => exact ⟨_,_,rfl,Or.inr rfl⟩

/-- A text is read back as a value. -/
theorem limited_read?_quoteAs (text rest : List Char) :
    ValueReader.limited.read? (skipSpaces (quoteAs (quoting text) text++ '\n' :: rest)) =
      some (.string (String.ofList text),'\n' :: rest) := by
  have htext : text? (quoteAs (quoting text) text++ '\n' :: rest) = some (text,'\n' :: rest) :=
    text?_quoteAs_quoting (by simp) (by simp)
  obtain ⟨c,more,hc,hquote⟩ := quoteAs_eq_cons (quoting text) text
  rw [hc,List.cons_append] at htext ⊢
  have hspace : isSpace c = false := by
    rcases hquote with rfl|rfl <;> decide
  have hne : c ≠ '[' ∧ c ≠ '\x7b' := by
    rcases hquote with rfl|rfl <;> decide
  rw [skipSpaces,List.dropWhile_cons_of_neg (by simp [hspace]),limited_read? hne.1 hne.2,
    simpleValue?,if_pos (by simpa using hquote),htext]
  rfl

/-- A word that is left after the blanks in front of a value, and that no character of a
word follows, is the value that it stands for. -/
theorem limited_read?_word {c : Char} {word rest : List Char} {value : Value}
    (hword : ∀ d ∈ c::word, isScalarChar d) (hvalue : scalar? (c::word) = some value) :
    ValueReader.limited.read? (skipSpaces (c::word++ '\n' :: rest)) =
      some (value,'\n' :: rest) := by
  have hne {d : Char} (hd : isScalarChar d = false) : c ≠ d := by
    rintro rfl
    rw [hword c List.mem_cons_self] at hd
    cases hd
  have hspace : isSpace c = false := by
    simp [isSpace,hne (d := ' ') (by decide),hne (d := '\t') (by decide)]
  have hnewline : isScalarChar '\n' = false := by decide
  have hscalar : scalarWord (c::word++ '\n' :: rest) = (c::word,'\n' :: rest) := by
    simp only [scalarWord,List.takeWhile_append_of_pos hword,List.dropWhile_append_of_pos hword,
      List.takeWhile_cons_of_neg (p := isScalarChar) (a := '\n') (by simp [hnewline]),
      List.dropWhile_cons_of_neg (p := isScalarChar) (a := '\n') (by simp [hnewline]),
      List.append_nil]
    rfl
  rw [skipSpaces,List.cons_append,List.dropWhile_cons_of_neg (by simp [hspace]),
    limited_read? (hne (by decide)) (hne (by decide)),simpleValue?,
    if_neg (by simp [hne (d := '"') (by decide),hne (d := '\'') (by decide)]),
    ←List.cons_append,hscalar]
  simp only [hvalue,Option.map_some]

/-- A truth value is read back from its word. -/
theorem limited_read?_boolean (b : Bool) (rest : List Char) :
    ValueReader.limited.read? (skipSpaces ((if b then "true" else "false").toList++ '\n' :: rest)) =
      some (.boolean b,'\n' :: rest) := by
  cases b
  case false =>
    have hvalue : scalar? ['f','a','l','s','e'] = some (.boolean false) := rfl
    exact limited_read?_word (List.all_eq_true.mp rfl) hvalue
  case true =>
    have hvalue : scalar? ['t','r','u','e'] = some (.boolean true) := rfl
    exact limited_read?_word (List.all_eq_true.mp rfl) hvalue

end Toml

namespace Settings

open Toml

/-- The line of the log filter, as an entry. -/
def logFilterEntry (logFilter : String) : WrittenEntry where
  first := 'l'
  others := "og_filter".toList
  value := .string logFilter
  written := quoteAs (quoting logFilter.toList) logFilter.toList
  bare := ⟨by decide,List.all_eq_true.mp rfl⟩
  reads rest := by rw [limited_read?_quoteAs,String.ofList_toList]

/-- The line of the token reports, as an entry. -/
def traceTokensEntry (traceTokens : Bool) : WrittenEntry where
  first := 't'
  others := "race_tokens".toList
  value := .boolean traceTokens
  written := (if traceTokens then "true" else "false").toList
  bare := ⟨by decide,List.all_eq_true.mp rfl⟩
  reads rest := limited_read?_boolean traceTokens rest

/-- The text of the log filter's entry is its line. -/
theorem toList_logFilterLine (logFilter : String) :
    (logFilterLine logFilter).toList = (logFilterEntry logFilter).text := by
  simp [logFilterLine,logFilterKey,quote,WrittenEntry.text,logFilterEntry]

/-- The text of the token reports' entry is their line. -/
theorem toList_traceTokensLine (traceTokens : Bool) :
    (traceTokensLine traceTokens).toList = (traceTokensEntry traceTokens).text := by
  simp [traceTokensLine,traceTokensKey,WrittenEntry.text,traceTokensEntry]

/-- The entries of the settings that are given. -/
def givenEntries (logFilter : Option String) (traceTokens : Option Bool) : List WrittenEntry :=
  (logFilter.map logFilterEntry).toList++(traceTokens.map traceTokensEntry).toList

/-- No key is given twice. -/
theorem nodup_name_givenEntries (logFilter : Option String) (traceTokens : Option Bool) :
    ((givenEntries logFilter traceTokens).map (·.name)).Nodup := by
  have hne (filter : String) (tokens : Bool) :
      (logFilterEntry filter).name ≠ (traceTokensEntry tokens).name := by
    intro h
    have hfirst : 'l' = 't' := (List.cons.inj (String.ofList_injective h)).1
    exact absurd hfirst (by decide)
  cases logFilter <;> cases traceTokens <;> simp [givenEntries,hne]

/-- The log filter is under its key, if it is given. -/
theorem valueIn?_logFilterKey (logFilter : Option String) (traceTokens : Option Bool) :
    valueIn? (givenEntries logFilter traceTokens) logFilterKey = logFilter.map .string := by
  cases logFilter <;> cases traceTokens <;> rfl

/-- The choice of token reports is under its key, if it is given. -/
theorem valueIn?_traceTokensKey (logFilter : Option String) (traceTokens : Option Bool) :
    valueIn? (givenEntries logFilter traceTokens) traceTokensKey = traceTokens.map .boolean := by
  cases logFilter <;> cases traceTokens <;> rfl

/-- A table with the given settings under their keys, and not the others, is read as these
settings and the defaults of the others. -/
theorem ofEntries?_of_get? {root : Entries} {logFilter : Option String}
    {traceTokens : Option Bool}
    (hfilter : Entries.get? root logFilterKey = logFilter.map .string)
    (htokens : Entries.get? root traceTokensKey = traceTokens.map .boolean) :
    ofEntries? root = some ⟨logFilter.getD defaultLogFilter,traceTokens.getD false⟩ := by
  have htext : textOr? defaultLogFilter (logFilter.map .string) =
      some (logFilter.getD defaultLogFilter) := by
    cases logFilter <;> rfl
  have htruth : truthOr? false (traceTokens.map .boolean) = some (traceTokens.getD false) := by
    cases traceTokens <;> rfl
  rw [ofEntries?,hfilter,htokens,htext,htruth]
  rfl

/-- A document of the given settings' lines, in whatever order, is read as these settings and
the defaults of the others. -/
theorem ofToml?_of_perm {logFilter : Option String} {traceTokens : Option Bool}
    {entries : List WrittenEntry} (h : entries.Perm (givenEntries logFilter traceTokens))
    {text : String} (ht : text.toList = entries.flatMap (·.text)) :
    ofToml? text = some ⟨logFilter.getD defaultLogFilter,traceTokens.getD false⟩ := by
  have hnodup : (entries.map (·.name)).Nodup :=
    (h.map _).nodup_iff.mpr (nodup_name_givenEntries logFilter traceTokens)
  obtain ⟨root,hread,hget⟩ := read?_text hnodup ht
  have hfilter : Entries.get? root logFilterKey = logFilter.map .string := by
    rw [hget,valueIn?_of_perm h hnodup,valueIn?_logFilterKey]
  have htokens : Entries.get? root traceTokensKey = traceTokens.map .boolean := by
    rw [hget,valueIn?_of_perm h hnodup,valueIn?_traceTokensKey]
  rw [ofToml?,hread]
  exact ofEntries?_of_get? hfilter htokens

/-- The line of the log filter, if it is given. -/
def givenLogFilterLine (logFilter : Option String) : String :=
  (logFilter.map logFilterLine).getD ""

/-- The line of the token reports, if they are given. -/
def givenTraceTokensLine (traceTokens : Option Bool) : String :=
  (traceTokens.map traceTokensLine).getD ""

/-- The line of a log filter that may be given is the text of its entry. -/
theorem toList_givenLogFilterLine (logFilter : Option String) :
    (givenLogFilterLine logFilter).toList =
      (logFilter.map logFilterEntry).toList.flatMap (·.text) := by
  cases logFilter
  case none => rfl
  case some logFilter => simp [givenLogFilterLine,toList_logFilterLine]

/-- The line of token reports that may be given is the text of its entry. -/
theorem toList_givenTraceTokensLine (traceTokens : Option Bool) :
    (givenTraceTokensLine traceTokens).toList =
      (traceTokens.map traceTokensEntry).toList.flatMap (·.text) := by
  cases traceTokens
  case none => rfl
  case some traceTokens => simp [givenTraceTokensLine,toList_traceTokensLine]

/-- The lines of the settings that are given are read back in either order, whatever the log
filter is made of, and a setting that is not given has its default: warnings for the log
filter, and no token reports. So all settings that are written are read back. -/
theorem ofToml?_givenLines :
    (∀ (logFilter : Option String) (traceTokens : Option Bool),
      let given : Settings := ⟨logFilter.getD "warn",traceTokens.getD false⟩
      ofToml? (givenLogFilterLine logFilter++givenTraceTokensLine traceTokens) = some given ∧
      ofToml? (givenTraceTokensLine traceTokens++givenLogFilterLine logFilter) = some given) ∧
    ∀ s : Settings, ofToml? s.toToml = some s := by
  have hgiven (logFilter : Option String) (traceTokens : Option Bool) :
      ofToml? (givenLogFilterLine logFilter++givenTraceTokensLine traceTokens) =
        some ⟨logFilter.getD "warn",traceTokens.getD false⟩ := by
    refine ofToml?_of_perm (List.Perm.refl _) ?_
    rw [String.toList_append,toList_givenLogFilterLine,toList_givenTraceTokensLine,givenEntries,
      List.flatMap_append]
  refine ⟨fun logFilter traceTokens => ⟨hgiven logFilter traceTokens,?_⟩,fun s => ?_⟩
  · refine ofToml?_of_perm List.perm_append_comm ?_
    rw [String.toList_append,toList_givenLogFilterLine,toList_givenTraceTokensLine,
      List.flatMap_append]
  · exact hgiven (some s.logFilter) (some s.traceTokens)

/-- A log filter with a backslash, a single quote and a newline takes three single quotes. -/
example : ofToml? "trace_tokens = true\nlog_filter = '''\na\\'\nb'''\n" =
    some ⟨"a\\'\nb",true⟩ := by decide +kernel

end Settings

end GrammarCensus
