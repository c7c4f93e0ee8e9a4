import GrammarCensus.Proofs.Toml.FollowingLines
import GrammarCensus.Settings

/-!
# Tables below the settings

Settings are keys of the outermost table of a document. What comes from the first header on
goes into other tables, so it gives none of these keys anything but a table. The main statement
is that a text with settings that goes on with a header has the same settings or none, and that
it has none if some header names the key of a setting.
-/

namespace GrammarCensus

namespace Toml

/-- Whether a value is a table or several tables with one header. -/
def Value.isTable : Value → Bool
  | .table _ _ => true
  | .tables _ _ => true
  | _ => false

/-- The outermost name of a key. -/
def Key.first (key : Key) : String :=
  key.parents.headD key.name

/-- The way of a key begins with it. -/
theorem Key.head?_path (key : Key) : key.path.head? = some key.first := by
  obtain ⟨parents,name⟩ := key
  cases parents <;> rfl

namespace Entries

variable {entries entries' : Entries} {key other : String}

/-- A key has a table as its value. -/
def HasTable (entries : Entries) (key : String) : Prop :=
  ∃ value, entries.get? key = some value ∧ value.isTable

/-- The table of a key is added or changed, and nothing else is. -/
def Opens (entries : Entries) (key : String) (entries' : Entries) : Prop :=
  ∃ value : Value, value.isTable ∧ entries' = entries.set key value

/-- A key that is given a table is opened. -/
theorem opens_set {value : Value} (hvalue : value.isTable) :
    Opens entries key (entries.set key value) :=
  ⟨value,hvalue,rfl⟩

namespace Opens

/-- The key has a table afterwards. -/
theorem hasTable (h : Opens entries key entries') : HasTable entries' key := by
  obtain ⟨value,hvalue,rfl⟩ := h
  exact ⟨value,by rw [get?_set,if_pos rfl],hvalue⟩

/-- The other keys have their values. -/
theorem get?_of_ne (h : Opens entries key entries') (hne : other ≠ key) :
    entries'.get? other = entries.get? other := by
  obtain ⟨value,_,rfl⟩ := h
  rw [get?_set,if_neg hne]

/-- A key with a table keeps one. -/
theorem keeps_hasTable (h : Opens entries key entries') (ht : HasTable entries other) :
    HasTable entries' other := by
  by_cases hkey : other = key
  · subst hkey
    exact h.hasTable
  · obtain ⟨value,hget,hvalue⟩ := ht
    exact ⟨value,by rw [h.get?_of_ne hkey,hget],hvalue⟩

end Opens

variable {change : Origin → Entries → Option Entries} {origin : Origin}

/-- A way through tables begins with a table that it opens. -/
theorem opens_alter {dotted : Bool} {path : List String}
    (h : alter dotted change (key::path) origin entries = some entries') :
    Opens entries key entries' := by
  rw [alter] at h
  split at h
  next =>
    obtain ⟨inner,_,rfl⟩ := Option.map_eq_some_iff.mp h
    exact opens_set rfl
  next =>
    split at h
    next => cases h
    next =>
      obtain ⟨inner,_,rfl⟩ := Option.map_eq_some_iff.mp h
      exact opens_set rfl
  next =>
    obtain ⟨last,_,rfl⟩ := Option.map_eq_some_iff.mp h
    exact opens_set rfl
  next => cases h

/-- A header opens its table. -/
theorem opens_addHeader (h : addHeader key origin entries = some entries') :
    Opens entries key entries' := by
  rw [addHeader] at h
  split at h
  next =>
    cases h
    exact opens_set rfl
  next =>
    cases h
    exact opens_set rfl
  next => cases h

/-- So does a header that tables share. -/
theorem opens_addElement (h : addElement key origin entries = some entries') :
    Opens entries key entries' := by
  rw [addElement] at h
  split at h
  next =>
    cases h
    exact opens_set rfl
  next =>
    cases h
    exact opens_set rfl
  next => cases h

/-- A header with dots opens the table of its first name. -/
theorem opens_alter_first {add : String → Origin → Entries → Option Entries} {header : Key}
    (hadd : ∀ {entries entries' origin},
      add header.name origin entries = some entries' → Opens entries header.name entries')
    (h : alter false (add header.name) header.parents origin entries = some entries') :
    Opens entries header.first entries' := by
  obtain ⟨parents,name⟩ := header
  cases parents with
  | nil => exact hadd h
  | cons first parents => exact opens_alter h

end Entries

/-- The outermost table that a header names. -/
def Line.table? : Line → Option String
  | .header key => some key.first
  | .sharedHeader key => some key.first
  | _ => none

namespace Document

variable {d d' : Document} {line : Line} {lines : List Line} {key other : String}

/-- A line that is a header, or that stands below one, opens the table of that header, or it
is blank. -/
theorem opens_addLine? (h : d.addLine? line = some d')
    (hkey : line.table?.or d.current.head? = some key) :
    d'.current.head? = some key ∧
      (d.root.Opens key d'.root ∨ line.table? = none ∧ d'.root = d.root) := by
  cases line with
  | blank =>
    cases h
    exact ⟨hkey,Or.inr ⟨rfl,rfl⟩⟩
  | entry entryKey value =>
    obtain ⟨root,hroot,rfl⟩ := Option.map_eq_some_iff.mp h
    refine ⟨hkey,Or.inl ?_⟩
    change d.current.head? = some key at hkey
    cases hcurrent : d.current with
    | nil =>
      rw [hcurrent] at hkey
      cases hkey
    | cons first path =>
      rw [hcurrent] at hkey hroot
      obtain rfl := Option.some.inj hkey
      exact Entries.opens_alter hroot
  | header header =>
    obtain ⟨root,hroot,rfl⟩ := Option.map_eq_some_iff.mp h
    obtain rfl := Option.some.inj hkey
    exact ⟨header.head?_path,Or.inl (Entries.opens_alter_first Entries.opens_addHeader hroot)⟩
  | sharedHeader header =>
    obtain ⟨root,hroot,rfl⟩ := Option.map_eq_some_iff.mp h
    obtain rfl := Option.some.inj hkey
    exact ⟨header.head?_path,Or.inl (Entries.opens_alter_first Entries.opens_addElement hroot)⟩

/-- Every line below a header is about some table. -/
theorem exists_opened (hkey : d.current.head? = some key) (line : Line) :
    ∃ opened, line.table?.or d.current.head? = some opened := by
  rw [hkey]
  cases line.table? with
  | none => exact ⟨key,rfl⟩
  | some opened => exact ⟨opened,rfl⟩

/-- Below a header, the keys that no header names have the values that they had, unless that
header does. -/
theorem get?_foldlM_addLine? (h : lines.foldlM addLine? d = some d')
    (hkey : d.current.head? = some key) (hne : key ≠ other)
    (hlines : ∀ line ∈ lines, line.table? ≠ some other) :
    d'.root.get? other = d.root.get? other := by
  induction lines generalizing d key with
  | nil =>
    cases h
    rfl
  | cons line lines ih =>
    obtain ⟨hline,hlines⟩ := List.forall_mem_cons.mp hlines
    rw [List.foldlM_cons] at h
    obtain ⟨middle,hstep,hrest⟩ := Option.bind_eq_some_iff.mp h
    obtain ⟨opened,hopened,hother⟩ :
        ∃ opened, line.table?.or d.current.head? = some opened ∧ opened ≠ other := by
      cases htable : line.table? with
      | none => exact ⟨key,hkey,hne⟩
      | some opened =>
        refine ⟨opened,rfl,?_⟩
        rintro rfl
        exact hline htable
    obtain ⟨hcurrent,hroot⟩ := opens_addLine? hstep hopened
    rw [ih hrest hcurrent hother hlines]
    rcases hroot with hopens|⟨_,hsame⟩
    · exact hopens.get?_of_ne hother.symm
    · rw [hsame]

/-- Below a header, the keys that headers name have tables, and those that have one keep it. -/
theorem hasTable_foldlM_addLine? (h : lines.foldlM addLine? d = some d')
    (hkey : d.current.head? = some key)
    (hother : d.root.HasTable other ∨ ∃ line ∈ lines, line.table? = some other) :
    d'.root.HasTable other := by
  induction lines generalizing d key with
  | nil =>
    cases h
    rcases hother with hother|⟨_,hmem,_⟩
    · exact hother
    · cases hmem
  | cons line lines ih =>
    rw [List.foldlM_cons] at h
    obtain ⟨middle,hstep,hrest⟩ := Option.bind_eq_some_iff.mp h
    obtain ⟨opened,hopened⟩ := exists_opened hkey line
    obtain ⟨hcurrent,hroot⟩ := opens_addLine? hstep hopened
    refine ih hrest hcurrent ?_
    rcases hother with hother|⟨named,hmem,hnamed⟩
    · refine Or.inl ?_
      rcases hroot with hopens|⟨_,hsame⟩
      · exact hopens.keeps_hasTable hother
      · rwa [hsame]
    · rcases List.mem_cons.mp hmem with rfl|hmem
      · rw [hnamed] at hopened
        obtain rfl := Option.some.inj hopened
        rcases hroot with hopens|⟨hnone,_⟩
        · exact Or.inl hopens.hasTable
        · rw [hnone] at hnamed
          cases hnamed
      · exact Or.inr ⟨named,hmem,hnamed⟩

end Document

/-- A line that begins with a bracket is a header. -/
theorem table?_of_line? {text rest : List Char} {line : Line}
    (h : line? ('[' :: text) = some (line,rest)) : ∃ key, line.table? = some key := by
  rw [line?.eq_def] at h
  split at h
  next he => cases he
  next =>
    simp only [Option.bind_eq_bind,Option.bind_eq_some_iff,Option.pure_def,
      Option.some.injEq] at h
    obtain ⟨⟨key,_⟩,_,_,_,_,_,hpair⟩ := h
    cases hpair
    exact ⟨key.first,rfl⟩
  next =>
    simp only [Option.bind_eq_bind,Option.bind_eq_some_iff,Option.pure_def,
      Option.some.injEq] at h
    obtain ⟨⟨key,_⟩,_,_,_,hpair⟩ := h
    cases hpair
    exact ⟨key.first,rfl⟩
  next hne he => exact (hne (List.cons.inj he).1.symm).elim

/-- A text that begins with a bracket has a header as its first line. -/
theorem exists_header_of_lines? {text : List Char} {lines : List Line}
    (h : lines? ('[' :: text) = some lines) :
    ∃ line others key, lines = line::others ∧ line.table? = some key := by
  rw [lines?] at h
  split at h
  next => cases h
  next line rest hline =>
    obtain ⟨key,hkey⟩ := table?_of_line? hline
    split at h
    next => cases h
    next =>
      cases h
      exact ⟨line,[],key,rfl,hkey⟩
    next =>
      obtain ⟨others,_,rfl⟩ := Option.map_eq_some_iff.mp h
      exact ⟨line,others,key,rfl,hkey⟩

/-- A byte order mark in front of a document stands there whatever follows it. -/
theorem skipMark_append (text next : List Char) :
    skipMark (text++ '\n' :: next) = skipMark text++ '\n' :: next := by
  cases text with
  | nil => rfl
  | cons c text =>
    by_cases hc : c = '\ufeff'
    · subst hc
      rfl
    · simp [skipMark,hc]

/-- A document with a further text on a new line is the document with the lines of that text. -/
theorem read?_append {d e : String} {entries entries' : Entries} (h : read? d = some entries)
    (he : e.toList ≠ []) (h' : read? (d++"\n"++e) = some entries') :
    ∃ lines document document', lines? e.toList = some lines ∧
      lines.foldlM Document.addLine? document = some document' ∧
      document.root = entries ∧ document'.root = entries' := by
  have htext : (d++"\n"++e).toList = d.toList++ '\n' :: e.toList := by simp
  obtain ⟨first,hfirst,h⟩ := Option.bind_eq_some_iff.mp h
  obtain ⟨document,hdocument,hroot⟩ := Option.bind_eq_some_iff.mp h
  obtain ⟨all,hall,h'⟩ := Option.bind_eq_some_iff.mp h'
  obtain ⟨document',hdocument',hroot'⟩ := Option.bind_eq_some_iff.mp h'
  rw [htext,skipMark_append] at hall
  rcases lines?_append hfirst he with happend|happend
  all_goals
    rw [happend] at hall
    obtain ⟨lines,hlines,rfl⟩ := Option.map_eq_some_iff.mp hall
    rw [Document.ofLines?] at hdocument hdocument'
    rw [List.foldlM_append,hdocument] at hdocument'
    exact ⟨lines,document,document',hlines,hdocument',Option.some.inj hroot,
      Option.some.inj hroot'⟩

/-- Behind a document that goes on with a header, the keys that headers name have tables. The
other keys have the values that they had. -/
theorem get?_of_read?_append {d e : String} {entries entries' : Entries}
    (h : read? d = some entries) (he : e.toList.head? = some '[')
    (h' : read? (d++"\n"++e) = some entries') :
    ∃ lines, lines? e.toList = some lines ∧ ∀ key,
      ((∃ line ∈ lines, line.table? = some key) → entries'.HasTable key) ∧
      ((∀ line ∈ lines, line.table? ≠ some key) → entries'.get? key = entries.get? key) := by
  have hne : e.toList ≠ [] := by
    intro hnil
    rw [hnil] at he
    cases he
  obtain ⟨lines,document,document',hlines,hfold,rfl,rfl⟩ := read?_append h hne h'
  refine ⟨lines,hlines,fun key => ?_⟩
  obtain ⟨text,htext⟩ := List.head?_eq_some_iff.mp he
  rw [htext] at hlines
  obtain ⟨line,others,opened,rfl,hopened⟩ := exists_header_of_lines? hlines
  rw [List.foldlM_cons] at hfold
  obtain ⟨middle,hstep,hrest⟩ := Option.bind_eq_some_iff.mp hfold
  have hor : line.table?.or document.current.head? = some opened := by
    rw [hopened]
    rfl
  -- the first line is a header, so from there on every line is below one
  obtain ⟨hcurrent,hopens|⟨hnone,_⟩⟩ := Document.opens_addLine? hstep hor
  · constructor
    · rintro ⟨named,hmem,hnamed⟩
      refine Document.hasTable_foldlM_addLine? hrest hcurrent ?_
      rcases List.mem_cons.mp hmem with rfl|hmem
      · rw [hopened] at hnamed
        obtain rfl := Option.some.inj hnamed
        exact Or.inl hopens.hasTable
      · exact Or.inr ⟨named,hmem,hnamed⟩
    · intro hlines
      obtain ⟨hline,hothers⟩ := List.forall_mem_cons.mp hlines
      have hkey : opened ≠ key := by
        rintro rfl
        exact hline hopened
      rw [Document.get?_foldlM_addLine? hrest hcurrent hkey hothers,hopens.get?_of_ne hkey.symm]
  · rw [hnone] at hopened
    cases hopened

end Toml

namespace Settings

open Toml

variable {entries entries' : Entries}

/-- A table is no text. -/
theorem textOr?_of_isTable {value : Value} (h : value.isTable) (text : String) :
    textOr? text (some value) = none := by
  cases value <;> first | rfl | cases h

/-- Nor is it a truth value. -/
theorem truthOr?_of_isTable {value : Value} (h : value.isTable) (truth : Bool) :
    truthOr? truth (some value) = none := by
  cases value <;> first | rfl | cases h

/-- There are no settings where the key of one has a table. -/
theorem ofEntries?_of_hasTable
    (h : entries.HasTable logFilterKey ∨ entries.HasTable traceTokensKey) :
    ofEntries? entries = none := by
  rcases h with ⟨value,hget,hvalue⟩|⟨value,hget,hvalue⟩
  · rw [ofEntries?,hget,textOr?_of_isTable hvalue]
    rfl
  · rw [ofEntries?,hget,truthOr?_of_isTable hvalue]
    cases textOr? defaultLogFilter (entries.get? logFilterKey) <;> rfl

/-- Settings depend on the values of their keys only. -/
theorem ofEntries?_congr (hfilter : entries'.get? logFilterKey = entries.get? logFilterKey)
    (htrace : entries'.get? traceTokensKey = entries.get? traceTokensKey) :
    ofEntries? entries' = ofEntries? entries := by
  rw [ofEntries?,hfilter,htrace,ofEntries?]

/-- Some lines give a table to the key of a setting. -/
def NamesSetting (lines : List Line) : Prop :=
  some logFilterKey ∈ lines.map Line.table? ∨ some traceTokensKey ∈ lines.map Line.table?

/-- What becomes of the settings of a document that goes on with a header. -/
theorem ofEntries?_of_read?_append {d e : String} {s : Settings} (h : ofEntries? entries = some s)
    (hread : read? d = some entries) (he : e.toList.head? = some '[')
    (hread' : read? (d++"\n"++e) = some entries') :
    ∃ lines, lines? e.toList = some lines ∧
      (NamesSetting lines → ofEntries? entries' = none) ∧
      (¬NamesSetting lines → ofEntries? entries' = some s) := by
  obtain ⟨lines,hlines,hkeys⟩ := get?_of_read?_append hread he hread'
  refine ⟨lines,hlines,?_,fun hnames => ?_⟩
  · rintro (hnamed|hnamed)
    · exact ofEntries?_of_hasTable (Or.inl ((hkeys _).1 (List.mem_map.mp hnamed)))
    · exact ofEntries?_of_hasTable (Or.inr ((hkeys _).1 (List.mem_map.mp hnamed)))
  · rw [←h]
    exact ofEntries?_congr
      ((hkeys _).2 fun line hmem hline => hnames (Or.inl (List.mem_map.mpr ⟨line,hmem,hline⟩)))
      ((hkeys _).2 fun line hmem hline => hnames (Or.inr (List.mem_map.mpr ⟨line,hmem,hline⟩)))

/-- A text with settings goes on with a header on a new line: there are no settings in the
whole text, or the same ones. There are none if a header names the key of a setting, whatever
stands below it. If none does they are the same, as long as the whole text is a document. -/
theorem ofToml?_append {d e : String} {s : Settings} (h : ofToml? d = some s)
    (he : e.toList.head? = some '[') :
    (ofToml? (d++"\n"++e) = none ∨ ofToml? (d++"\n"++e) = some s) ∧
      ∀ lines, lines? e.toList = some lines →
        (NamesSetting lines → ofToml? (d++"\n"++e) = none) ∧
        (¬NamesSetting lines → ofToml? (d++"\n"++e) = (read? (d++"\n"++e)).map fun _ => s) := by
  obtain ⟨entries,hread,hentries⟩ := Option.bind_eq_some_iff.mp h
  cases hread' : read? (d++"\n"++e) with
  | none =>
    have hnone : ofToml? (d++"\n"++e) = none := by
      rw [ofToml?,hread']
      rfl
    exact ⟨Or.inl hnone,fun _ _ => ⟨fun _ => hnone,fun _ => hnone⟩⟩
  | some entries' =>
    have hsome : ofToml? (d++"\n"++e) = ofEntries? entries' := by
      rw [ofToml?,hread']
      rfl
    obtain ⟨lines,hlines,hnames,hnot⟩ := ofEntries?_of_read?_append hentries hread he hread'
    rw [hsome]
    constructor
    · by_cases hnamed : NamesSetting lines
      · exact Or.inl (hnames hnamed)
      · exact Or.inr (hnot hnamed)
    · intro lines' hlines'
      rw [hlines] at hlines'
      obtain rfl := Option.some.inj hlines'
      exact ⟨hnames,hnot⟩

/-- Below a header of another name the keys of settings set nothing, in braces or not, and a
header with such a key makes the text invalid. -/
theorem ofToml?_append_logFilter :
    let d := "log_filter = 'info' # all\n"
    let foreign := "[a]\nlog_filter = 1\nb = \x7btrace_tokens = 2\x7d"
    let naming := "[[trace_tokens]]"
    ofToml? d = some ⟨"info",false⟩ ∧ ofToml? (d++"\n"++foreign) = some ⟨"info",false⟩ ∧
      ofToml? (d++"\n"++naming) = none := by
  intro d foreign naming
  have hd : ofToml? d = some ⟨"info",false⟩ := by decide +kernel
  have hforeign : (lines? foreign.toList).map (·.map Line.table?) = some [some "a",none,none] := by
    decide +kernel
  have hnaming : (lines? naming.toList).map (·.map Line.table?) = some [some traceTokensKey] := by
    decide +kernel
  have hread : (read? (d++"\n"++foreign)).isSome := by decide +kernel
  obtain ⟨lines,hlines,htables⟩ := Option.map_eq_some_iff.mp hforeign
  obtain ⟨lines',hlines',htables'⟩ := Option.map_eq_some_iff.mp hnaming
  have hnot : ¬NamesSetting lines := by
    rw [NamesSetting,htables]
    decide
  have hnames : NamesSetting lines' := by
    rw [NamesSetting,htables']
    decide
  have hnone := ((ofToml?_append hd (e := naming) (by decide)).2 lines' hlines').1 hnames
  refine ⟨hd,?_,hnone⟩
  obtain ⟨entries,hentries⟩ := Option.isSome_iff_exists.mp hread
  have hsame := ((ofToml?_append hd (e := foreign) (by decide)).2 lines hlines).2 hnot
  rw [hsame,hentries]
  rfl

end Settings

end GrammarCensus
