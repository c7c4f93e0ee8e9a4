import GrammarCensus.Program
import GrammarCensus.Proofs.Legibility
import GrammarCensus.Proofs.RenamedCensus

/-!
# Reading a dump

The printed tokens of a text can be read back. No lexeme has a newline, so that each
line is one token, and what stands in front of a lexeme has no separator of its own.
The main statements are that a dump tells the position, the kind and the lexeme of
every token, and that these decide the analysis of the text.
-/

namespace GrammarCensus

/-- What a dump tells of a token. -/
structure Dump.Entry where
  /-- Where the token begins. -/
  position : Position
  /-- The kind of the token and its lexeme. -/
  word : Word
deriving Repr, DecidableEq, Inhabited

/-- What is printed of a token. -/
def Token.entry (t : Token) : Dump.Entry := ⟨t.position,t.word⟩

namespace Dump

/-- What stands in front of the first separator, and what stands behind it. -/
def cut? (separator : Char) : List Char → Option (List Char × List Char)
  | [] => none
  | c::text =>
    if c = separator then some ([],text)
    else (cut? separator text).map fun (front,back) => (c::front,back)

/-- A text is cut at a separator that has none in front of it. -/
theorem cut?_append {separator : Char} {front : List Char} (h : separator ∉ front)
    (back : List Char) : cut? separator (front++separator::back) = some (front,back) := by
  induction front with
  | nil => rw [List.nil_append,cut?,if_pos rfl]
  | cons c front ih =>
    have hc : c ≠ separator := fun hc => h (hc ▸ List.mem_cons_self)
    have hfront : separator ∉ front := fun hf => h (List.mem_cons_of_mem c hf)
    rw [List.cons_append,cut?,if_neg hc,ih hfront,Option.map_some]

/-- The number that is written in some digits. -/
def number (digits : List Char) : Nat :=
  Nat.ofDigitChars 10 digits 0

/-- A written number is read back. -/
theorem number_repr (n : Nat) : number n.repr.toList = n := by
  rw [number,Nat.toList_repr,Nat.ofDigitChars_ten_toDigits]

/-- Numbers are written in digits only. -/
theorem not_mem_repr {c : Char} (hc : c.isDigit = false) (n : Nat) : c ∉ n.repr.toList := by
  intro h
  rw [Nat.toList_repr] at h
  rw [Nat.isDigit_of_mem_toDigits (by decide) (by decide) h] at hc
  cases hc

/-- A position is written in one line. -/
theorem newline_not_mem_position (p : Position) : '\n' ∉ p.render.toList := by
  have hrow := not_mem_repr (c := '\n') (by decide) p.line
  have hcolumn := not_mem_repr (c := '\n') (by decide) p.column
  simp [Position.render,hrow,hcolumn,-Nat.toList_repr]

/-- The kind that is printed under a name. -/
def kind? (name : List Char) : Option Token.Kind :=
  [Token.Kind.endOfInput,.colon,.pipe,.semicolon,.nonTerminal,.terminal,.error].find?
    (·.name.toList = name)

/-- The kinds have different names. -/
theorem kind?_name (kind : Token.Kind) : kind? kind.name.toList = some kind := by
  cases kind <;> decide

/-- The names of the kinds are words of one line. -/
theorem isBlank_of_mem_name {kind : Token.Kind} {c : Char} (h : c ∈ kind.name.toList) :
    Lexicon.isBlank c = false := by
  have hname : kind.name.toList.all (Lexicon.isBlank · = false) := by
    cases kind <;> decide
  exact of_decide_eq_true (List.all_eq_true.mp hname c h)

/-- What stands between the first quote and the last one. -/
def unquoted? : List Char → Option (List Char)
  | '\''::text => if text.getLast? = some '\'' then some text.dropLast else none
  | _ => none

/-- Whatever stands between two quotes is read back, even if there are quotes in it. -/
theorem unquoted?_append (text : List Char) : unquoted? ('\''::(text++['\''])) = some text := by
  rw [unquoted?,if_pos List.getLast?_concat,List.dropLast_concat]

/-- The entry of a line: two numbers, the name of a kind and a lexeme in quotes, up to
the separator behind each of them. -/
def entryOf? (line : List Char) : Option Entry := do
  let (row,behind) ← cut? ':' line
  let (column,behind) ← cut? ' ' behind
  let (name,behind) ← cut? ' ' behind
  let lexeme ← unquoted? behind
  let kind ← kind? name
  return ⟨⟨number row,number column⟩,⟨kind,.ofList lexeme⟩⟩

/-- A printed token is its parts and the separators behind them. -/
theorem toList_render (t : Token) : t.render.toList = t.position.line.repr.toList++
    ':'::(t.position.column.repr.toList++
      ' '::(t.kind.name.toList++
        ' '::('\''::(t.lexeme.toList++['\''])))) := by
  simp [Token.render,Position.render]

/-- A printed token is read back, whatever its lexeme. -/
theorem entryOf?_render (t : Token) : entryOf? t.render.toList = some t.entry := by
  have hrow := cut?_append (not_mem_repr (c := ':') (by decide) t.position.line)
  have hcolumn := cut?_append (not_mem_repr (c := ' ') (by decide) t.position.column)
  have hspace : ' ' ∉ t.kind.name.toList := fun h => by cases isBlank_of_mem_name h
  have hname := cut?_append hspace
  rw [toList_render,entryOf?,hrow]
  simp only [Option.bind_eq_bind,Option.bind_some,hcolumn,hname,unquoted?_append,number_repr,
    kind?_name,String.ofList_toList]
  rfl

/-- A printed token has no newlines but those of its lexeme. -/
theorem newline_not_mem_render {t : Token} (h : '\n' ∉ t.lexeme.toList) :
    '\n' ∉ t.render.toList := by
  have hposition := newline_not_mem_position t.position
  have hname : '\n' ∉ t.kind.name.toList := fun hn => by cases isBlank_of_mem_name hn
  simp [Token.render,h,hposition,hname]

/-- The entries of the lines that end in a newline. -/
def read? (dump : String) : Option (List Entry) :=
  (dump.toList.splitOn '\n').dropLast.mapM entryOf?

/-- Lines without newlines come apart again. -/
theorem splitOn_ofLines {lines : List String} (h : ∀ line ∈ lines, '\n' ∉ line.toList) :
    (CommandLine.ofLines lines).toList.splitOn '\n' = lines.map String.toList++[[]] := by
  induction lines with
  | nil => rfl
  | cons line lines ih =>
    have hlines : (CommandLine.ofLines (line::lines)).toList =
        line.toList++ '\n'::(CommandLine.ofLines lines).toList := by
      simp [CommandLine.ofLines]
    have hnone : ∀ c ∈ line.toList, (c == '\n') = false := by
      intro c hc
      rw [beq_eq_false_iff_ne]
      rintro rfl
      exact h line List.mem_cons_self hc
    have hrest := ih fun l hl => h l (List.mem_cons_of_mem line hl)
    rw [hlines,List.splitOn,List.splitOnP_append_cons_of_forall_mem hnone '\n' (beq_self_eq_true _),
      ←List.splitOn,hrest]
    rfl

/-- Printed lists of tokens are read back where no lexeme has a newline. -/
theorem read?_ofLines {tokens : List Token} (h : ∀ t ∈ tokens, '\n' ∉ t.lexeme.toList) :
    read? (CommandLine.ofLines (tokens.map Token.render)) = some (tokens.map Token.entry) := by
  have hlines : ∀ line ∈ tokens.map Token.render, '\n' ∉ line.toList := by
    intro line hline
    obtain ⟨t,ht,rfl⟩ := List.mem_map.mp hline
    exact newline_not_mem_render (h t ht)
  have hentries : entryOf? ∘ String.toList ∘ Token.render = fun t => pure t.entry :=
    funext entryOf?_render
  rw [read?,splitOn_ofLines hlines,List.dropLast_concat,List.map_map,List.mapM_map,hentries,
    List.mapM_pure]
  rfl

end Dump

section Texts

variable {text other : String}

/-- No lexeme has a newline, nor has the one for the end. -/
theorem newline_not_mem_lexeme {t : Token} (h : t ∈ allTokens text) : '\n' ∉ t.lexeme.toList := by
  rcases List.mem_append.mp h with h|h
  · intro hnewline
    cases Lexicon.isBlank_of_inClass (inClass_of_mem_tokens h) hnewline
  · obtain rfl := List.mem_singleton.mp h
    have hend : '\n' ∉ Token.endLexeme.toList := by decide
    exact hend

/-- The dump of a text is read back. -/
theorem read?_dump (text : String) :
    Dump.read? (Program.dump text) = some ((allTokens text).map Token.entry) :=
  Dump.read?_ofLines fun _ => newline_not_mem_lexeme

/-- Tokens with the same entries keep their names. -/
theorem renames_id_of_entries
    (h : (allTokens text).map Token.entry = (allTokens other).map Token.entry) :
    Renames id (tokens text) (tokens other) := by
  have htokens : (tokens text).map Token.entry = (tokens other).map Token.entry := by
    rw [allTokens,allTokens,List.map_append,List.map_append] at h
    exact List.append_inj_left' h rfl
  have hsame : List.Forall₂ (· = ·) ((tokens text).map Token.entry)
      ((tokens other).map Token.entry) := by
    rw [List.forall₂_eq_eq_eq,htokens]
  constructor
  case injOn => exact Set.injOn_id _
  case tokens =>
    refine (List.forall₂_map_right_iff.mp (List.forall₂_map_left_iff.mp hsame)).imp ?_
    intro t u htu
    have hword : t.word = u.word := congrArg Dump.Entry.word htu
    exact ⟨congrArg Word.kind hword.symm,fun _ => congrArg Word.lexeme hword.symm⟩

/-- Corresponding analyses are the same where the entries of the tokens are. -/
theorem Corresponds.eq_of_entries {a b : Except AnalysisError Census}
    (hc : Corresponds id text other a b)
    (h : (allTokens text).map Token.entry = (allTokens other).map Token.entry) : a = b := by
  have hsame {i : Nat} {t u : Token} (ht : (allTokens text)[i]? = some t)
      (hu : (allTokens other)[i]? = some u) : t.position = u.position ∧ t.lexeme = u.lexeme := by
    have hplace := congrArg (·[i]?) h
    simp only [List.getElem?_map,ht,hu,Option.map_some,Option.some.injEq] at hplace
    exact ⟨congrArg Dump.Entry.position hplace,congrArg (·.word.lexeme) hplace⟩
  cases hc with
  | closed c => rfl
  | noRuleSets => rfl
  | undefined _ => rw [NameSet.map_id]
  | unused _ => rw [NameSet.map_id]
  | unexpected ht hu =>
    obtain ⟨hposition,hlexeme⟩ := hsame ht hu
    rw [hposition,hlexeme]
  | redefined ht hu hfirst hfirst' =>
    obtain ⟨hposition,hlexeme⟩ := hsame ht hu
    have hbefore := (hsame hfirst hfirst').1
    rw [hposition,hlexeme,hbefore]

/-- The entries of the tokens decide the analysis. -/
theorem census_eq_of_entries
    (h : (allTokens text).map Token.entry = (allTokens other).map Token.entry) :
    census text = census other :=
  (corresponds (renames_id_of_entries h)).eq_of_entries h

end Texts

/-- What a run prints of the tokens of a file is read back as the position, the kind and
the lexeme of each of them, since no lexeme has a newline, and any other text of which
the same is printed has the same analysis. -/
theorem dump_decides_census (text : String) :
    (∀ t ∈ allTokens text, '\n' ∉ t.lexeme.toList) ∧
    (∀ override? tree file, tree.readText file = .ok text →
      (Program.execute override? tree (.tokens file)).1 = .success (Program.dump text)) ∧
    Dump.read? (Program.dump text) = some ((allTokens text).map Token.entry) ∧
    ∀ other, Program.dump text = Program.dump other → census text = census other := by
  refine ⟨fun _ => newline_not_mem_lexeme,fun override? tree file h => ?_,read?_dump text,?_⟩
  · rw [Program.execute,h]
    rfl
  · intro other hdump
    have hentries := read?_dump text
    rw [hdump,read?_dump,Option.some.injEq] at hentries
    exact census_eq_of_entries hentries.symm

/-- A stray quote is read back from between its quotes, and a tab and an empty comment leave
no trace in what is printed of a file, nor in the error. -/
theorem dump_decides_census_quote :
    (Program.execute none (.put .empty ⟨["g","work"]⟩ (.file "s :\t'; //".toUTF8))
      (.tokens "g")).1 = .success (Program.dump "s : ';   ") ∧
    '\n' ∉ "'".toList ∧
    Dump.read? (Program.dump "s : ';   ") = some [⟨⟨1,1⟩,.nonTerminal,"s"⟩,
      ⟨⟨1,3⟩,.colon,":"⟩,⟨⟨1,5⟩,.error,"'"⟩,⟨⟨1,6⟩,.semicolon,";"⟩,
      ⟨⟨1,10⟩,.endOfInput,"<EOF>"⟩] ∧
    census "s :\t'; //" = census "s : ';   " := by
  obtain ⟨hlexemes,hprinted,hread,hdecides⟩ := dump_decides_census "s :\t'; //"
  have hdump : Program.dump "s :\t'; //" = Program.dump "s : ';   " := by
    decide +kernel
  have hfile : Files.FileTree.readText
      (.put .empty ⟨["g","work"]⟩ (.file "s :\t'; //".toUTF8)) "g" = .ok "s :\t'; //" := by
    decide +kernel
  have hentries : (allTokens "s :\t'; //").map Token.entry = [⟨⟨1,1⟩,.nonTerminal,"s"⟩,
      ⟨⟨1,3⟩,.colon,":"⟩,⟨⟨1,5⟩,.error,"'"⟩,⟨⟨1,6⟩,.semicolon,";"⟩,
      ⟨⟨1,10⟩,.endOfInput,"<EOF>"⟩] := by
    decide +kernel
  have hquote : ⟨.error,"'",⟨4,5⟩,⟨1,5⟩⟩ ∈ allTokens "s :\t'; //" := by
    decide +kernel
  have hrun := hprinted none _ "g" hfile
  rw [hdump] at hrun hread
  rw [hentries] at hread
  exact ⟨hrun,hlexemes _ hquote,hread,hdecides "s : ';   " hdump⟩

end GrammarCensus
