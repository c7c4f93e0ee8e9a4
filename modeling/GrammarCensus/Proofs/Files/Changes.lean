import GrammarCensus.Files.Tree

/-!
# What changes in a file tree

Where paths lead, as a relation, and what each operation on files changes. A path from the
root through the names of the working directory leads where the rest of it leads from there.
Making directories only adds some where nothing stands. Writing a file and removing one change
what stands at one place, which is no directory. So a directory that is there once stays,
and a path that leads somewhere leads there ever after. Where the medium does not take all
bytes of a file that is written, its first ones stand at the place.
-/

namespace GrammarCensus.Files

/-- A path to a name in a directory is that of a file, if the name is not empty and does not
end in a slash. -/
theorem endsInSlash_join (directory : String) {name : String} {c : Char}
    (h : name.toList.getLast? = some c) (hc : c ≠ '/') :
    endsInSlash (join directory name) = false := by
  have hlast (front : List Char) : (front++name.toList).getLast? = some c := by
    rw [List.getLast?_append,h,Option.some_or]
  rw [endsInSlash,decide_eq_false_iff_not,join]
  split
  · rw [String.toList_append,hlast]
    simpa using hc
  · rw [String.toList_append,hlast]
    simpa using hc

/-- A path to a name is not empty, if the name is not. -/
theorem join_ne_empty (directory : String) {name : String} (h : name ≠ "") :
    join directory name ≠ "" := by
  rw [join]
  split <;> simp [h]

/-- One operation after another succeeds when both do. -/
theorem bind_eq_ok_iff {ε α β : Type} {x : Except ε α} {f : α → Except ε β} {b : β} :
    (x >>= f) = .ok b ↔ ∃ a, x = .ok a ∧ f a = .ok b := by
  cases x with
  | error e => exact ⟨nofun,nofun⟩
  | ok a =>
    constructor
    · intro h
      exact ⟨a,rfl,h⟩
    · rintro ⟨_,⟨⟩,h⟩
      exact h

/-- A check in front of a result passes, and the result is there. -/
theorem bind_ok_eq_ok_iff {ε α : Type} {check : Except ε Unit} {a b : α} :
    (check >>= fun _ => Except.ok a) = .ok b ↔ check = .ok () ∧ a = b := by
  rw [bind_eq_ok_iff]
  constructor
  · rintro ⟨_,hcheck,h⟩
    exact ⟨hcheck,Except.ok.inj h⟩
  · rintro ⟨hcheck,rfl⟩
    exact ⟨(),hcheck,rfl⟩

namespace Medium

/-- A medium that lets something be changed takes all of some bytes or, if it is limited, the
first ones. -/
theorem take_of_unlocked {m : Medium} (h : m.checkUnlocked = .ok ()) (bytes : ByteArray) :
    m.take bytes = (.ok (),bytes) ∨ ∃ room e, m = .limited room e ∧ room < bytes.size ∧
      m.take bytes = (.error e.refusal,bytes.extract 0 room) := by
  cases m with
  | free => exact Or.inl rfl
  | limited room e =>
    rcases Nat.lt_or_ge room bytes.size with hroom|hroom
    · exact Or.inr ⟨room,e,rfl,hroom,if_neg (Nat.not_le_of_lt hroom)⟩
    · exact Or.inl (if_pos hroom)
  | locked e => cases h

/-- A medium that lets nothing be changed gives its system error as the reason. -/
theorem checkUnlocked_eq_error {m : Medium} {e : FileError} (h : m.checkUnlocked = .error e) :
    ∃ reason : SystemError, e = reason.refusal := by
  cases m with
  | locked reason => exact ⟨reason,(Except.error.inj h).symm⟩
  | free | limited => cases h

end Medium

namespace FileTree

/-- Following some parts from a place leads to another one, through directories only. -/
inductive Leads (t : FileTree) : Place → List String → Place → Prop
  /-- No parts lead nowhere else. -/
  | here (p : Place) : Leads t p [] p
  /-- The first part of others is that of something in a directory. -/
  | enter {p q : Place} {part : String} {rest : List String} : t.at? p = some .directory →
      Leads t (p.enter part) rest q → Leads t p (part::rest) q

/-- Something stands at a path: the path leads to the place where it stands. At a path that
ends in a slash only a directory can stand. -/
structure Stands (t : FileTree) (path : String) (p : Place) (e : Entry) : Prop where
  /-- The path is not empty. -/
  ne_empty : path ≠ ""
  /-- The path leads to the place. -/
  leads : t.Leads (t.origin path) (parts path) p
  /-- Something stands there. -/
  at?_eq : t.at? p = some e
  /-- Behind a slash it is a directory. -/
  directory : endsInSlash path = true → e = .directory

/-- Another tree has a file at a place, and is the same apart from that. -/
structure SetsFile (t : FileTree) (p : Place) (bytes : ByteArray) (t' : FileTree) : Prop where
  /-- The working directory is the same. -/
  working_eq : t'.working = t.working
  /-- The same can be changed. -/
  medium_eq : t'.medium = t.medium
  /-- The file stands at its place, and all else where it stood. -/
  at?_eq (q : Place) : t'.at? q = if q = p then some (.file bytes) else t.at? q

/-- A tree differs from another one only by a file at a path where nothing stood. -/
def AddsFile (t : FileTree) (path : String) (bytes : ByteArray) (t' : FileTree) : Prop :=
  ∃ p, t.Leads (t.origin path) (parts path) p ∧ t.at? p = none ∧ t.SetsFile p bytes t'

/-- A file that is new at a path has been cut short by a limited medium: it holds as many of
the bytes as there is room for, and nothing else has changed. -/
def CutsShort (t : FileTree) (path : String) (bytes : ByteArray) (e : SystemError)
    (t' : FileTree) : Prop :=
  ∃ room, t.medium = .limited room e ∧ room < bytes.size ∧
    t.AddsFile path (bytes.extract 0 room) t'

/-- Everything in a tree stands in another one too, at the same place, and paths start where
they did. -/
structure Grows (t t' : FileTree) : Prop where
  /-- The working directory is the same. -/
  working_eq : t'.working = t.working
  /-- What stands in the one stands in the other. -/
  keeps {p : Place} {e : Entry} : t.at? p = some e → t'.at? p = some e

variable {t t' : FileTree} {p q : Place} {path : String} {way : List String} {bytes : ByteArray}

/-- The working directory and those that it is in are directories. -/
theorem holds_eq_false (h : t.at? p ≠ some .directory) : p.holds t.working = false := by
  rw [Bool.eq_false_iff]
  intro hp
  rw [at?,if_pos hp] at h
  exact h rfl

/-- In the same working directory paths start at the same place. -/
theorem origin_congr (h : t'.working = t.working) (path : String) :
    t'.origin path = t.origin path := by
  rw [origin,origin,h]

/-- A place can be passed when a directory stands there. -/
theorem checkDirectory_eq_ok_iff : t.checkDirectory p = .ok () ↔ t.at? p = some .directory := by
  rw [checkDirectory]
  split <;> simp_all

/-- A way that is followed to a place leads there. -/
theorem follow_eq_ok_iff : t.follow p way = .ok q ↔ t.Leads p way q := by
  induction way generalizing p with
  | nil =>
    constructor
    · intro h
      obtain rfl : p = q := Except.ok.inj h
      exact .here p
    · rintro ⟨⟩
      rfl
  | cons part way ih =>
    rw [follow,bind_eq_ok_iff]
    constructor
    · rintro ⟨_,hp,hrest⟩
      exact .enter (checkDirectory_eq_ok_iff.mp hp) (ih.mp hrest)
    · rintro ⟨⟩
      next hp hrest => exact ⟨(),checkDirectory_eq_ok_iff.mpr hp,ih.mpr hrest⟩

/-- A way leads to one place only. -/
theorem Leads.unique {q' : Place} (h : t.Leads p way q) (h' : t.Leads p way q') : q = q' :=
  Except.ok.inj ((follow_eq_ok_iff.mpr h).symm.trans (follow_eq_ok_iff.mpr h'))

/-- Where the directories stay a way leads where it led before. -/
theorem Leads.mono (h : t.Leads p way q)
    (hkeep : ∀ r, t.at? r = some .directory → t'.at? r = some .directory) : t'.Leads p way q := by
  induction h with
  | here p => exact .here p
  | enter hp _ ih => exact .enter (hkeep _ hp) ih

/-- One way behind another leads on from where that leads. -/
theorem leads_append_iff {behind : List String} :
    t.Leads p (way++behind) q ↔ ∃ middle, t.Leads p way middle ∧ t.Leads middle behind q := by
  induction way generalizing p with
  | nil =>
    constructor
    · intro h
      exact ⟨p,.here p,h⟩
    · rintro ⟨_,⟨⟩,h⟩
      exact h
  | cons part way ih =>
    constructor
    · rintro ⟨⟩
      next hp h =>
      obtain ⟨middle,hway,hbehind⟩ := ih.mp h
      exact ⟨middle,.enter hp hway,hbehind⟩
    · rintro ⟨middle,⟨⟩,hbehind⟩
      next hp hway => exact .enter hp (ih.mpr ⟨middle,hway,hbehind⟩)

/-- The names of a place lead there from the root, where the working directory is that place or
lies below it. -/
theorem leads_root {names : List String} (h : names <:+ t.working.names)
    (hnames : ∀ name ∈ names, name ≠ "." ∧ name ≠ "..") : t.Leads .root names.reverse ⟨names⟩ := by
  induction names with
  | nil => exact .here .root
  | cons name names ih =>
    obtain ⟨hname,hnames⟩ := List.forall_mem_cons.mp hnames
    have hsuffix : names <:+ t.working.names := (List.suffix_cons name names).trans h
    have hdirectory : t.at? ⟨names⟩ = some .directory :=
      if_pos (List.isSuffixOf_iff_suffix.mpr hsuffix)
    have henter : Place.enter ⟨names⟩ name = ⟨name::names⟩ := by simp [Place.enter,hname]
    rw [List.reverse_cons,leads_append_iff]
    exact ⟨_,ih hsuffix hnames,.enter hdirectory (henter ▸ .here _)⟩

/-- A way leads from the working directory where it leads from the root behind the names of the
working directory. -/
theorem leads_root_append_iff (hnames : ∀ name ∈ t.working.names, name ≠ "." ∧ name ≠ "..") :
    t.Leads .root (t.working.names.reverse++way) q ↔ t.Leads t.working way q := by
  have hworking := leads_root (List.suffix_refl _) hnames
  rw [leads_append_iff]
  constructor
  · rintro ⟨middle,hmiddle,hway⟩
    rwa [hmiddle.unique hworking] at hway
  · intro hway
    exact ⟨t.working,hworking,hway⟩

/-- A path that is not empty is followed, and behind a slash a directory is asked for. -/
theorem locate_of_ne_empty (h : path ≠ "") :
    t.locate path = (t.follow (t.origin path) (parts path) >>= fun p =>
      if endsInSlash path then t.checkDirectory p >>= fun _ => .ok p else .ok p) := by
  rw [locate,if_neg h]
  rfl

/-- The place of a path, by the places that it leads through. -/
theorem locate_eq_ok_iff : t.locate path = .ok p ↔ path ≠ "" ∧
    t.Leads (t.origin path) (parts path) p ∧
      (endsInSlash path = true → t.at? p = some .directory) := by
  by_cases hempty : path = ""
  · have hlocate : t.locate path = .error .notFound := by
      rw [locate,if_pos hempty]
      rfl
    rw [hlocate]
    exact ⟨nofun,fun h => absurd hempty h.1⟩
  have hend (q : Place) : (if endsInSlash path then t.checkDirectory q >>= fun _ => .ok q
      else .ok q) = .ok p ↔ q = p ∧ (endsInSlash path = true → t.at? q = some .directory) := by
    by_cases hslash : endsInSlash path = true
    · rw [if_pos hslash,bind_ok_eq_ok_iff,checkDirectory_eq_ok_iff,and_comm]
      simp [hslash]
    · simp [hslash]
  rw [locate_of_ne_empty hempty,bind_eq_ok_iff]
  constructor
  · rintro ⟨q,hq,h⟩
    obtain ⟨rfl,hdirectory⟩ := (hend q).mp h
    exact ⟨hempty,follow_eq_ok_iff.mp hq,hdirectory⟩
  · rintro ⟨_,hq,hdirectory⟩
    exact ⟨p,follow_eq_ok_iff.mpr hq,(hend p).mpr ⟨rfl,hdirectory⟩⟩

/-- A path at which something stands has the place where it stands. -/
theorem Stands.locate_eq {e : Entry} (h : t.Stands path p e) : t.locate path = .ok p :=
  locate_eq_ok_iff.mpr ⟨h.ne_empty,h.leads,fun hslash => by rw [h.at?_eq,h.directory hslash]⟩

/-- Something is found at a path when something stands there. -/
theorem has_iff : t.has path = true ↔ ∃ p e, t.Stands path p e := by
  constructor
  · intro h
    rw [has] at h
    split at h
    · cases h
    · next p hp =>
      obtain ⟨e,he⟩ := Option.isSome_iff_exists.mp h
      obtain ⟨hempty,hleads,hdirectory⟩ := locate_eq_ok_iff.mp hp
      refine ⟨p,e,hempty,hleads,he,fun hslash => ?_⟩
      rw [hdirectory hslash] at he
      exact (Option.some.inj he).symm
  · rintro ⟨p,e,hs⟩
    rw [has,hs.locate_eq]
    simp [hs.at?_eq]

/-- Where the directories stay, and what stands at the place of a path, it stands at the path
still. -/
theorem Stands.mono {e : Entry} (h : t.Stands path p e) (hworking : t'.working = t.working)
    (he : t'.at? p = some e)
    (hkeep : ∀ r, t.at? r = some .directory → t'.at? r = some .directory) :
    t'.Stands path p e :=
  ⟨h.ne_empty,origin_congr hworking path ▸ h.leads.mono hkeep,he,h.directory⟩

/-- The text of a file that stands at a path. -/
theorem readText_of_stands (h : t.Stands path p (.file bytes)) :
    t.readText path = decode bytes := by
  rw [readText,readBytes,h.locate_eq]
  simp only [bind,Except.bind,h.at?_eq]

/-- A path that is not empty is followed, and a file can be written where it leads, unless that
is a directory or nothing can be changed. -/
theorem locateNew_of_ne_empty (h : path ≠ "") :
    t.locateNew path = (t.follow (t.origin path) (parts path) >>= fun p =>
      if endsInSlash path then .error .isADirectory
      else match t.at? p with
        | some .directory => .error .isADirectory
        | _ => t.medium.checkUnlocked >>= fun _ => .ok p) := by
  rw [locateNew,if_neg h]
  rfl

/-- A file can be written at the place to which its path leads, where no directory stands, if
anything can be changed. -/
theorem locateNew_eq_ok_iff : t.locateNew path = .ok p ↔ path ≠ "" ∧ endsInSlash path = false ∧
    t.Leads (t.origin path) (parts path) p ∧ t.at? p ≠ some .directory ∧
      t.medium.checkUnlocked = .ok () := by
  by_cases hempty : path = ""
  · have hlocate : t.locateNew path = .error .notFound := by
      rw [locateNew,if_pos hempty]
      rfl
    rw [hlocate]
    exact ⟨nofun,fun h => absurd hempty h.1⟩
  have hend (q : Place) : (if endsInSlash path then .error .isADirectory
      else match t.at? q with
        | some .directory => .error .isADirectory
        | _ => t.medium.checkUnlocked >>= fun _ => .ok q : Except FileError Place) = .ok p ↔
      endsInSlash path = false ∧ t.at? q ≠ some .directory ∧
        t.medium.checkUnlocked = .ok () ∧ q = p := by
    by_cases hslash : endsInSlash path = true
    · simp [hslash]
    · rw [if_neg hslash]
      split
      · next hq => simp [hq]
      · next hq =>
        have hne : t.at? q ≠ some .directory := hq
        rw [bind_ok_eq_ok_iff]
        simp [hslash,hne]
  simp only [locateNew_of_ne_empty hempty,bind_eq_ok_iff,hend,follow_eq_ok_iff]
  constructor
  · rintro ⟨q,hq,hslash,hdirectory,hm,rfl⟩
    exact ⟨hempty,hslash,hq,hdirectory,hm⟩
  · rintro ⟨_,hslash,hp,hdirectory,hm⟩
    exact ⟨p,hp,hslash,hdirectory,hm,rfl⟩

/-- Where no file can be written the tree is left as it was. -/
theorem write_of_error {e : FileError} (h : t.locateNew path = .error e) :
    t.write path bytes = (.error e,t) := by
  rw [write,h]

/-- Elsewhere the file gets what the medium takes. -/
theorem write_of_ok (h : t.locateNew path = .ok p) : t.write path bytes =
    ((t.medium.take bytes).1,(t.put p (.file .empty)).put p (.file (t.medium.take bytes).2)) := by
  rw [write,h]
  rfl

/-- A file that is written, in full or not, stands at its place, and nothing else has
changed. -/
theorem setsFile_write (h : t.locateNew path = .ok p) (bytes : ByteArray) :
    t.SetsFile p (t.medium.take bytes).2 (t.write path bytes).2 := by
  obtain ⟨_,_,_,hdirectory,_⟩ := locateNew_eq_ok_iff.mp h
  have hp := holds_eq_false hdirectory
  rw [write_of_ok h]
  refine ⟨rfl,rfl,fun q => ?_⟩
  have hp' : p.holds (t.put p (.file .empty)).working = false := hp
  rw [at?_put _ hp',at?_put t hp]
  by_cases hq : q = p <;> simp [hq]

/-- Writing a file where nothing stands adds it and succeeds, or fails and leaves the tree as it
was, or is cut short. -/
theorem write_cases (hs : ¬∃ p e, t.Stands path p e) (bytes : ByteArray) :
    ((t.write path bytes).1 = .ok () ∧ t.AddsFile path bytes (t.write path bytes).2) ∨
    (∃ e, t.locateNew path = .error e ∧ t.write path bytes = (.error e,t)) ∨
    ∃ e : SystemError, (t.write path bytes).1 = .error e.refusal ∧
      t.CutsShort path bytes e (t.write path bytes).2 := by
  cases hlocate : t.locateNew path with
  | error e => exact Or.inr (Or.inl ⟨e,rfl,write_of_error hlocate⟩)
  | ok p =>
    obtain ⟨hempty,hslash,hleads,_,hm⟩ := locateNew_eq_ok_iff.mp hlocate
    have hp : t.at? p = none := by
      cases he : t.at? p with
      | none => rfl
      | some e =>
        exact absurd ⟨p,e,hempty,hleads,he,fun h => absurd h (by simp [hslash])⟩ hs
    have hsets := setsFile_write hlocate bytes
    have houtcome : (t.write path bytes).1 = (t.medium.take bytes).1 :=
      congrArg Prod.fst (write_of_ok hlocate)
    rcases Medium.take_of_unlocked hm bytes with htake|⟨room,e,hlimited,hroom,htake⟩
    · rw [htake] at houtcome hsets
      exact Or.inl ⟨houtcome,p,hleads,hp,hsets⟩
    · rw [htake] at houtcome hsets
      exact Or.inr (Or.inr ⟨e,houtcome,room,hlimited,hroom,p,hleads,hp,hsets⟩)

/-- A file that is removed stood at the place to which its path leads. -/
theorem remove_eq_ok_iff : t.remove path = .ok t' ↔ t.medium.checkUnlocked = .ok () ∧
    ∃ p bytes, t.Stands path p (.file bytes) ∧ t' = t.delete p := by
  rw [remove,bind_eq_ok_iff]
  constructor
  · rintro ⟨p,hp,h⟩
    obtain ⟨hempty,hleads,hdirectory⟩ := locate_eq_ok_iff.mp hp
    split at h
    · cases h
    · cases h
    · next bytes hfile =>
      obtain ⟨hm,rfl⟩ := bind_ok_eq_ok_iff.mp h
      refine ⟨hm,p,bytes,⟨hempty,hleads,hfile,fun hslash => ?_⟩,rfl⟩
      exact Option.some.inj (hfile.symm.trans (hdirectory hslash))
  · rintro ⟨hm,p,bytes,hs,rfl⟩
    refine ⟨p,hs.locate_eq,?_⟩
    rw [hs.at?_eq]
    exact bind_ok_eq_ok_iff.mpr ⟨hm,rfl⟩

section Growth

/-- Every tree grows into itself. -/
theorem Grows.refl (t : FileTree) : t.Grows t := ⟨rfl,id⟩

/-- A tree that grows twice grows. -/
theorem Grows.trans {t'' : FileTree} (h : t.Grows t') (h' : t'.Grows t'') : t.Grows t'' :=
  ⟨h'.working_eq.trans h.working_eq,fun he => h'.keeps (h.keeps he)⟩

/-- A tree grows by what is put where nothing stands. -/
theorem grows_put (h : t.at? p = none) (e : Entry) : t.Grows (t.put p e) := by
  refine ⟨rfl,fun {q e'} hq => ?_⟩
  have hne : q ≠ p := by
    rintro rfl
    rw [h] at hq
    cases hq
  rw [at?_put t (holds_eq_false (by rw [h]; simp)) e,if_neg hne,hq]

/-- Making one directory makes a tree grow. -/
theorem grows_of_makeAt (h : t.makeAt p way = .ok t') : t.Grows t' := by
  rw [makeAt,bind_eq_ok_iff] at h
  obtain ⟨q,_,h⟩ := h
  split at h
  · next hq =>
    obtain ⟨_,rfl⟩ := bind_ok_eq_ok_iff.mp h
    exact grows_put hq .directory
  · obtain rfl := Except.ok.inj h
    exact .refl t
  · cases h

/-- Making a directory makes a tree grow, if making the one that it is in does. -/
theorem grows_makeAfter {before : FileTree → Except FileError Unit × FileTree}
    {make : FileTree → Except FileError FileTree} (hbefore : ∀ t, Grows t (before t).2)
    (hmake : ∀ {t t'}, make t = .ok t' → Grows t t') (t : FileTree) :
    t.Grows (t.makeAfter before make).2 := by
  have hgrows := hbefore t
  rw [makeAfter]
  split
  · next h => exact hmake h
  · split
    · next h =>
      rw [h] at hgrows
      exact hgrows
    · next h =>
      rw [h] at hgrows
      split
      · next h' => exact hgrows.trans (hmake h')
      · exact hgrows
  · exact .refl t

/-- Making the directories on a way makes a tree grow. -/
theorem grows_makeAlong (p : Place) (back : List String) (t : FileTree) :
    t.Grows (t.makeAlong p back).2 := by
  induction back generalizing t with
  | nil => exact .refl t
  | cons part back ih => exact grows_makeAfter ih grows_of_makeAt t

/-- Making a directory and those that it is in makes a tree grow. -/
theorem grows_makeDirectory (path : String) (t : FileTree) : t.Grows (t.makeDirectory path).2 := by
  rw [makeDirectory]
  split
  · exact .refl t
  · exact grows_makeAfter (grows_makeAlong _ _) grows_of_makeAt t

/-- A tree grows by a file that is added. -/
theorem AddsFile.grows (h : t.AddsFile path bytes t') : t.Grows t' := by
  obtain ⟨p,_,hp,hsets⟩ := h
  refine ⟨hsets.working_eq,fun {q e} hq => ?_⟩
  have hne : q ≠ p := by
    rintro rfl
    rw [hp] at hq
    cases hq
  rw [hsets.at?_eq,if_neg hne,hq]

/-- A file that is added stands at its path. -/
theorem AddsFile.stands (h : t.AddsFile path bytes t') (hempty : path ≠ "")
    (hslash : endsInSlash path = false) : ∃ p, t'.Stands path p (.file bytes) := by
  have hgrows := h.grows
  obtain ⟨p,hleads,_,hsets⟩ := h
  have horigin := origin_congr hsets.working_eq path
  refine ⟨p,hempty,horigin ▸ hleads.mono fun _ => hgrows.keeps,?_,fun h => ?_⟩
  · rw [hsets.at?_eq,if_pos rfl]
  · rw [hslash] at h
    cases h

end Growth

end FileTree

end GrammarCensus.Files
