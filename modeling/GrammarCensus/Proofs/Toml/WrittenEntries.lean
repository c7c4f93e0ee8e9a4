import Mathlib.Data.List.TakeWhile
import GrammarCensus.Toml.Document

/-!
# Documents of written entries

A document that has a line for each of some keys and no other lines: a bare key, an
equals sign with a space on either side, and a value that is read back up to the
newline behind it. The main statement is that reading the document gives just these
keys with their values, in whatever order they come.
-/

namespace GrammarCensus.Toml

/-- A character that belongs to no bare key is none of a bare key's. -/
theorem ne_of_isBareKeyChar {c d : Char} (hc : isBareKeyChar c) (hd : isBareKeyChar d = false) :
    c ≠ d := by
  rintro rfl
  rw [hc] at hd
  cases hd

/-- No character of a bare key is blank. -/
theorem isSpace_of_isBareKeyChar {c : Char} (h : isBareKeyChar c) : isSpace c = false := by
  simp [isSpace,ne_of_isBareKeyChar h (show isBareKeyChar ' ' = false by decide),
    ne_of_isBareKeyChar h (show isBareKeyChar '\t' = false by decide)]

/-- A bare key and its value in a written form. -/
structure WrittenEntry where
  /-- The first character of the key. -/
  first : Char
  /-- The other characters of the key. -/
  others : List Char
  /-- What the key is given. -/
  value : Value
  /-- The written form of the value. -/
  written : List Char
  /-- The key needs no quotes. -/
  bare : isBareKeyChar first ∧ ∀ c ∈ others, isBareKeyChar c
  /-- The value is read back from its written form, up to the end of the line. -/
  reads : ∀ rest, ValueReader.limited.read? (skipSpaces (written++ '\n' :: rest)) =
    some (value,'\n' :: rest)

namespace WrittenEntry

/-- The key as one text. -/
def name (e : WrittenEntry) : String :=
  String.ofList (e.first::e.others)

/-- The line of an entry, with the newline at its end. -/
def text (e : WrittenEntry) : List Char :=
  e.first::(e.others++ ' ' :: '=' :: ' ' :: (e.written++['\n']))

/-- What the line says. -/
def line (e : WrittenEntry) : Line :=
  .entry ⟨[],e.name⟩ e.value

/-- The key is read up to the equals sign. -/
theorem key?_append (e : WrittenEntry) (rest : List Char) :
    key? (e.first::(e.others++ ' ' :: '=' :: rest)) = some (⟨[],e.name⟩,'=' :: rest) := by
  have hspace : isBareKeyChar ' ' = false := by decide
  have htake : (e.others++ ' ' :: '=' :: rest).takeWhile isBareKeyChar = e.others := by
    rw [List.takeWhile_append_of_pos e.bare.2,List.takeWhile_cons_of_neg (by simp [hspace]),
      List.append_nil]
  have hdrop : (e.others++ ' ' :: '=' :: rest).dropWhile isBareKeyChar = ' ' :: '=' :: rest := by
    rw [List.dropWhile_append_of_pos e.bare.2,List.dropWhile_cons_of_neg (by simp [hspace])]
  have hsimple : simpleKey? (e.first::(e.others++ ' ' :: '=' :: rest)) =
      some (e.name,' ' :: '=' :: rest) := by
    rw [simpleKey?,if_neg (ne_of_isBareKeyChar e.bare.1 (by decide)),
      if_neg (ne_of_isBareKeyChar e.bare.1 (by decide)),if_pos e.bare.1,htake,hdrop]
    rfl
  have hname : keyName? (e.first::(e.others++ ' ' :: '=' :: rest)) = some (e.name,'=' :: rest) := by
    rw [keyName?,skipSpaces,List.dropWhile_cons_of_neg (by
      simp [isSpace_of_isBareKeyChar e.bare.1]),hsimple]
    rfl
  have hdotted : dottedKey? (e.first::(e.others++ ' ' :: '=' :: rest)) =
      some (⟨[],e.name⟩,'=' :: rest) :=
    dottedKey?_of_end hname fun _ hdot => by cases hdot
  rw [key?,hdotted]
  rfl

/-- The line is read up to its newline. -/
theorem line?_text (e : WrittenEntry) (rest : List Char) :
    line? (skipSpaces (e.text++rest)) = some (e.line,'\n' :: rest) := by
  have htext : skipSpaces (e.text++rest) =
      e.first::(e.others++ ' ' :: '=' :: ' ' :: (e.written++ '\n' :: rest)) := by
    simp [text,skipSpaces,isSpace_of_isBareKeyChar e.bare.1]
  have hread : skipSpaces (' ' :: (e.written++ '\n' :: rest)) =
      skipSpaces (e.written++ '\n' :: rest) := rfl
  have hassignment : ValueReader.limited.assignment?
      (e.first::(e.others++ ' ' :: '=' :: ' ' :: (e.written++ '\n' :: rest))) =
        some ((⟨[],e.name⟩,e.value),'\n' :: rest) := by
    simp only [ValueReader.assignment?,e.key?_append,Option.bind_eq_bind,Option.bind_some,
      sign?,if_pos,hread,e.reads,Option.pure_def]
  have hne {d : Char} (hd : isBareKeyChar d = false) : e.first ≠ d :=
    ne_of_isBareKeyChar e.bare.1 hd
  rw [htext]
  unfold line?
  split
  next he => cases he
  next he => exact absurd (List.cons.inj he).1 (hne (by decide))
  next he => exact absurd (List.cons.inj he).1 (hne (by decide))
  next c more he =>
    obtain ⟨rfl,rfl⟩ := List.cons.inj he
    rw [if_neg (by simp [hne (d := '#') (by decide),hne (d := '\n') (by decide),
      hne (d := '\r') (by decide)]),hassignment]
    rfl

end WrittenEntry

/-- A newline ends a line, and what stands behind it is left. -/
theorem skipLineEnd?_newline (rest : List Char) : skipLineEnd? ('\n' :: rest) = some rest := rfl

/-- A line at whose end the text ends is the only one. -/
theorem lines?_of_last {text rest : List Char} {line : Line}
    (h : line? (skipSpaces text) = some (line,rest)) (hend : skipLineEnd? rest = some []) :
    lines? text = some [line] := by
  rw [lines?]
  split
  next hnone => rw [h] at hnone; cases hnone
  next hsome =>
    rw [h] at hsome
    cases hsome
    split
    next hnone => rw [hend] at hnone; cases hnone
    next => rfl
    next hmore => rw [hend] at hmore; cases hmore

/-- A line at whose end the text goes on comes in front of the others. -/
theorem lines?_of_next {text rest more : List Char} {line : Line}
    (h : line? (skipSpaces text) = some (line,rest)) (hend : skipLineEnd? rest = some more)
    (hmore : more ≠ []) : lines? text = (lines? more).map (line::·) := by
  rw [lines?]
  split
  next hnone => rw [h] at hnone; cases hnone
  next hsome =>
    rw [h] at hsome
    cases hsome
    split
    next hnone => rw [hend] at hnone; cases hnone
    next hnil => rw [hend] at hnil; cases hnil; exact absurd rfl hmore
    next hcons =>
      rw [hend] at hcons
      cases hcons
      rfl

/-- The lines of written entries are read back. -/
theorem lines?_text (e : WrittenEntry) (entries : List WrittenEntry) :
    lines? ((e::entries).flatMap (·.text)) = some ((e::entries).map (·.line)) := by
  induction entries generalizing e with
  | nil => exact lines?_of_last (e.line?_text []) (skipLineEnd?_newline [])
  | cons f entries ih =>
    have hmore : (f::entries).flatMap (·.text) ≠ [] := by
      simp [WrittenEntry.text]
    rw [List.flatMap_cons,lines?_of_next (e.line?_text _) (skipLineEnd?_newline _) hmore,ih]
    rfl

/-- A new key without dots goes into the outermost table. -/
theorem addLine?_line {root : Entries} {e : WrittenEntry}
    (h : Entries.get? root e.name = none) :
    Document.addLine? ⟨root,[]⟩ e.line = some ⟨Entries.set root e.name e.value,[]⟩ := by
  simp [Document.addLine?,WrittenEntry.line,alter,addEntry,addLast,h]

/-- The value that written entries give to a key, if one of them has it. -/
def valueIn? (entries : List WrittenEntry) (key : String) : Option Value :=
  (entries.find? (·.name = key)).map (·.value)

/-- Where no key comes twice, the order of the entries does not matter. -/
theorem valueIn?_of_perm {entries others : List WrittenEntry} (h : entries.Perm others)
    (hnodup : (entries.map (·.name)).Nodup) (key : String) :
    valueIn? entries key = valueIn? others key := by
  induction h with
  | nil => rfl
  | cons e _ ih =>
    have htail := ih (List.nodup_cons.mp hnodup).2
    simp only [valueIn?,List.find?_cons] at htail ⊢
    split
    · rfl
    · exact htail
  | swap e f entries =>
    have hne : f.name ≠ e.name := by
      intro he
      simp [he] at hnodup
    by_cases hkey : e.name = key
    · simp [valueIn?,hkey,show f.name ≠ key from hkey ▸ hne]
    · simp [valueIn?,List.find?_cons,hkey]
  | trans hfirst _ ihfirst ihsecond =>
    exact (ihfirst hnodup).trans (ihsecond ((hfirst.map _).nodup_iff.mp hnodup))

/-- Written entries with different keys, none of them in the table yet, are added to it. -/
theorem foldlM_addLine? {entries : List WrittenEntry} (hnodup : (entries.map (·.name)).Nodup)
    {root : Entries} (hnew : ∀ e ∈ entries, Entries.get? root e.name = none) :
    ∃ root', (entries.map (·.line)).foldlM Document.addLine? ⟨root,[]⟩ = some ⟨root',[]⟩ ∧
      ∀ key, Entries.get? root' key = (valueIn? entries key).or (Entries.get? root key) := by
  induction entries generalizing root with
  | nil => exact ⟨root,rfl,fun key => rfl⟩
  | cons e entries ih =>
    obtain ⟨he,hentries⟩ := List.forall_mem_cons.mp hnew
    obtain ⟨hnot,hdiffer⟩ := List.nodup_cons.mp hnodup
    have hne {f : WrittenEntry} (hf : f ∈ entries) : f.name ≠ e.name := by
      intro h
      exact hnot (List.mem_map.mpr ⟨f,hf,h⟩)
    have hset : ∀ f ∈ entries, Entries.get? (Entries.set root e.name e.value) f.name = none := by
      intro f hf
      rw [Entries.get?_set,if_neg (hne hf),hentries f hf]
    obtain ⟨root',hfold,hget⟩ := ih hdiffer hset
    refine ⟨root',?_,fun key => ?_⟩
    · rw [List.map_cons,List.foldlM_cons,addLine?_line he]
      exact hfold
    · rw [hget,Entries.get?_set,valueIn?,valueIn?,List.find?_cons]
      by_cases hkey : e.name = key
      · have hnone : entries.find? (·.name = key) = none := by
          rw [List.find?_eq_none]
          intro f hf
          simpa [←hkey] using hne hf
        simp [hkey,hnone]
      · simp [hkey,Ne.symm hkey]

/-- A document of written entries with different keys has just these keys. -/
theorem read?_text {entries : List WrittenEntry} (hnodup : (entries.map (·.name)).Nodup)
    {text : String} (ht : text.toList = entries.flatMap (·.text)) :
    ∃ root, read? text = some root ∧ ∀ key, Entries.get? root key = valueIn? entries key := by
  cases entries with
  | nil =>
    -- a document without characters has one blank line
    have hlines : lines? [] = some [.blank] := lines?_of_last rfl rfl
    refine ⟨[],?_,fun key => rfl⟩
    rw [read?,ht,List.flatMap_nil,skipMark,hlines]
    · rfl
    · simp
  | cons e entries =>
    have hempty : ∀ f ∈ e::entries, Entries.get? [] f.name = none := fun _ _ => rfl
    obtain ⟨root,hfold,hget⟩ := foldlM_addLine? hnodup hempty
    have hmark : skipMark ((e::entries).flatMap (·.text)) = (e::entries).flatMap (·.text) := by
      unfold skipMark
      split
      next he => exact absurd (List.cons.inj he).1 (ne_of_isBareKeyChar e.bare.1 (by decide))
      next => rfl
    refine ⟨root,?_,fun key => ?_⟩
    · rw [read?,ht,hmark,lines?_text,Option.bind_eq_bind,Option.bind_some,Document.ofLines?,
        Document.empty,hfold]
      rfl
    · rw [hget]
      exact Option.or_none

end GrammarCensus.Toml
