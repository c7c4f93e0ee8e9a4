import GrammarCensus.Log.Event
import GrammarCensus.Text.Alphanumeric

/-!
# Log filters

A filter is a list of directives, each of which sets a threshold for all
targets that begin with a given text. Of the directives that apply to an event
the one with the longest such text decides. The empty text applies to every
target. A filter is written as directives with commas between them, and a piece
that is no directive has a reason for it. The main statements say that a
directive, once added, decides on the events of its own target, and that it has
no say on targets that do not begin with its text.
-/

namespace GrammarCensus.Log

/-- A threshold for the targets that begin with a text. -/
structure Directive where
  /-- What a target has to begin with. -/
  target : String
  /-- The threshold for those targets. -/
  threshold : Threshold
deriving Repr, DecidableEq, Inhabited

namespace Directive

/-- Whether a directive applies to a target, upper and lower case being
different. -/
def applies (d : Directive) (target : String) : Bool :=
  d.target.toList.isPrefixOf target.toList

/-- Why a piece of a written filter is no directive. -/
inductive Fault
  /-- It does not begin as a threshold or a target does. -/
  | beginning
  /-- What its equals sign is followed by is no threshold. -/
  | threshold
deriving Repr, DecidableEq, Inhabited

/-- The diagnostic of a fault. -/
def Fault.message : Fault → String
  | .beginning => "invalid filter directive"
  | .threshold => "error parsing level filter: expected one of \"off\", \"error\", "++
      "\"warn\", \"info\", \"debug\", \"trace\", or a number 0-5"

/-- The characters that a directive can begin with. -/
def isBeginning (c : Char) : Bool :=
  c = '-' || c = ':' || c = '_' || isAlphanumeric c

/-- Reads a target and, behind an equals sign, its threshold. Without a
threshold every level is meant. -/
def ofParts (target level : List Char) : Except Fault Directive :=
  if level = [] then .ok ⟨String.ofList target,some .trace⟩
  else
    match Threshold.ofText? (String.ofList level) with
    | none => .error .threshold
    | some threshold => .ok ⟨String.ofList target,threshold⟩

/-- Reads a piece without an equals sign: a threshold for every target, or else
a target of which every level is meant. -/
def ofWord (word : String) : Directive :=
  match Threshold.ofText? word with
  | some threshold => ⟨"",threshold⟩
  | none => ⟨word,some .trace⟩

/-- Reads one directive. Blanks count as part of a target, but a target that
begins with one cannot be given a threshold. -/
def ofText (piece : String) : Except Fault Directive :=
  match piece.toList.dropWhile isWhiteSpace with
  | [] => .error .beginning
  | c::_ =>
    if isBeginning c = false then .error .beginning
    else
      match piece.toList.dropWhile (· ≠ '=') with
      | [] => .ok (ofWord piece)
      | _::level =>
        if piece.toList.head? = some c then
          ofParts (piece.toList.takeWhile (· ≠ '=')) level
        else .error .threshold

end Directive

/-- The directives, no two of them with one target. -/
structure Filter where
  /-- The directives in the order in which they were added. -/
  directives : List Directive
deriving Repr, DecidableEq, Inhabited

namespace Filter

/-- Adds a directive, in place of one with the same target. -/
def add (f : Filter) (d : Directive) : Filter :=
  ⟨f.directives.filter (fun e => decide (e.target ≠ d.target))++[d]⟩

/-- The filter of a list of directives. Without any of them errors alone are
written. -/
def ofDirectives (directives : List Directive) : Filter :=
  if directives = [] then ⟨[⟨"",some .error⟩]⟩
  else directives.foldl add ⟨[]⟩

/-- Of two directives the one with the longer target, the second one if they
are equally long. -/
def moreSpecific (best : Option Directive) (d : Directive) : Option Directive :=
  match best with
  | none => some d
  | some b => if b.target.length ≤ d.target.length then some d else some b

/-- The directive that decides on a target. -/
def deciding? (f : Filter) (target : String) : Option Directive :=
  (f.directives.filter (·.applies target)).foldl moreSpecific none

/-- Whether an event is written. Where no directive applies it is not. -/
def admits (f : Filter) (e : Event) : Bool :=
  match f.deciding? e.target with
  | none => false
  | some d => d.threshold.admits e.level

/-- The pieces of a written filter that are not empty. -/
def pieces (text : String) : List String :=
  ((text.toList.splitOn ',').filter (· ≠ [])).map String.ofList

/-- Reads a filter of which every piece has to be a directive. -/
def ofText? (text : String) : Option Filter :=
  ((pieces text).mapM fun piece => (Directive.ofText piece).toOption).map ofDirectives

/-- Reads a filter and leaves out the pieces that are no directives. -/
def ofLenientText (text : String) : Filter :=
  ofDirectives ((pieces text).filterMap fun piece => (Directive.ofText piece).toOption)

/-- The line that reports a piece that is left out, if it is. -/
def ignoredLine? (piece : String) : Option String :=
  match Directive.ofText piece with
  | .ok _ => none
  | .error fault => some ("ignoring `"++piece++"`: "++fault.message++"\n")

/-- The lines on the pieces that are left out when a filter is read leniently. -/
def ignoredLines (text : String) : List String :=
  (pieces text).filterMap ignoredLine?

/-- The directive that lets every report of recognition through. -/
def tokenTrace : Directive :=
  ⟨Event.recognitionTarget,some .trace⟩

/-- A directive applies to the target that it names. -/
theorem applies_self (d : Directive) : d.applies d.target = true := by
  simp [Directive.applies]

/-- A directive that applies to a target is no longer than the target. -/
theorem length_le_of_applies {d : Directive} {target : String}
    (h : d.applies target = true) : d.target.length ≤ target.length := by
  rw [←String.length_toList,←String.length_toList]
  exact (List.isPrefixOf_iff_prefix.mp h).length_le

/-- The most specific one of some directives comes from before them or is one
of them. -/
theorem foldl_moreSpecific_mem {ds : List Directive} {best d : Option Directive}
    (h : ds.foldl moreSpecific best = d) : d = best ∨ ∃ e ∈ ds, d = some e := by
  induction ds generalizing best with
  | nil => exact Or.inl h.symm
  | cons e ds ih =>
    rw [List.foldl_cons] at h
    rcases ih h with hd|⟨e',he',hd⟩
    · cases best with
      | none => exact Or.inr ⟨e,List.mem_cons_self,by simpa [moreSpecific] using hd⟩
      | some b =>
        simp only [moreSpecific] at hd
        split at hd
        · exact Or.inr ⟨e,List.mem_cons_self,hd⟩
        · exact Or.inl hd
    · exact Or.inr ⟨e',List.mem_cons_of_mem _ he',hd⟩

/-- The deciding directive applies. -/
theorem applies_of_deciding? {f : Filter} {target : String} {d : Directive}
    (h : f.deciding? target = some d) : d.applies target = true := by
  rcases foldl_moreSpecific_mem h with hn|⟨e,he,hd⟩
  · cases hn
  · obtain rfl := Option.some.inj hd
    exact (List.mem_filter.mp he).2

/-- An added directive decides on the target that it names. -/
theorem deciding?_add_self (f : Filter) (d : Directive) :
    (f.add d).deciding? d.target = some d := by
  have hlast : [d].filter (·.applies d.target) = [d] := by simp [applies_self]
  rw [deciding?,add,List.filter_append,hlast,List.foldl_append]
  cases hb : (List.filter (·.applies d.target)
      (f.directives.filter fun e => decide (e.target ≠ d.target))).foldl moreSpecific none with
  | none => rfl
  | some b =>
    have ha : b.applies d.target = true :=
      applies_of_deciding? (f := ⟨f.directives.filter fun e => decide (e.target ≠ d.target)⟩) hb
    simp only [List.foldl_cons,List.foldl_nil,moreSpecific,if_pos (length_le_of_applies ha)]

/-- An added directive has no say on a target to which it does not apply. -/
theorem deciding?_add_of_not_applies {f : Filter} {d : Directive} {target : String}
    (h : d.applies target = false) : (f.add d).deciding? target = f.deciding? target := by
  have hlast : [d].filter (·.applies target) = [] := by simp [h]
  have hrest : (f.directives.filter fun e => decide (e.target ≠ d.target)).filter
      (·.applies target) = f.directives.filter (·.applies target) := by
    rw [List.filter_filter]
    refine List.filter_congr fun e _ => ?_
    by_cases he : e.target = d.target
    · have hn : e.applies target = false := by
        rw [Directive.applies,he]
        exact h
      simp [hn]
    · simp [he]
  rw [deciding?,add,List.filter_append,hlast,hrest,List.append_nil,deciding?]

end Filter

end GrammarCensus.Log
