import PlainC.Dump.Location
import Mathlib.Logic.Basic

/-!
# Places as a dump writes them

A compiler can write every place in full. Or it leaves out the file if that is the file of the place it
wrote last, and the line as well if both are the same. What is left out is what a reader remembers: the
file and the line that it read last are those that were written last.
-/

namespace PlainC

namespace Json

def ofCount (n : Nat) : Json := .number (some n)

def ofText (text : Text) : Json := .string (some text)

mutual

/-- Whether two documents are the same. -/
def same : Json → Json → Bool
  | null, null => true
  | bool a, bool b => a = b
  | number a, number b => a = b
  | string a, string b => a = b
  | array a, array b => sameItems a b
  | object a, object b => sameMembers a b
  | _, _ => false

def sameItems : List Json → List Json → Bool
  | [], [] => true
  | a :: as, b :: bs => a.same b && sameItems as bs
  | _, _ => false

def sameMembers : List (Option Text × Json) → List (Option Text × Json) → Bool
  | [], [] => true
  | (key, a) :: as, (key', b) :: bs => key = key' && a.same b && sameMembers as bs
  | _, _ => false

end

mutual

theorem same_iff : (a b : Json) → (a.same b ↔ a = b)
  | null, b => by cases b <;> simp [same]
  | bool a, b => by cases b <;> simp [same]
  | number a, b => by cases b <;> simp [same]
  | string a, b => by cases b <;> simp [same]
  | array a, b => by cases b <;> simp [same, sameItems_iff a]
  | object a, b => by cases b <;> simp [same, sameMembers_iff a]

theorem sameItems_iff : (as bs : List Json) → (sameItems as bs ↔ as = bs)
  | [], bs => by cases bs <;> simp [sameItems]
  | a :: as, bs => by cases bs <;> simp [sameItems, same_iff a, sameItems_iff as]

theorem sameMembers_iff : (as bs : List (Option Text × Json)) → (sameMembers as bs ↔ as = bs)
  | [], bs => by cases bs <;> simp [sameMembers]
  | (key, a) :: as, bs => by
      cases bs <;> simp [sameMembers, same_iff a, sameMembers_iff as, Prod.ext_iff]

end

instance : DecidableEq Json := fun a b => decidable_of_iff _ (same_iff a b)

end Json

namespace Dump

inductive Style where
  | full
  | brief
  deriving DecidableEq

/-! ### Reading what was written -/

theorem run_lift_bind {α β : Type} (answer : Option α) (next : α → Reader β) (context : Context) :
    ((liftM answer : Reader α) >>= next).run context =
      answer.bind fun value => (next value).run context := by
  cases answer <;> rfl

/-- What a reader makes of something that was written behind a place, or at the start: a value, with the
file and line that it ends with if it has places in it. It has no answer if the nesting is too deep. -/
structure Recovers {α : Type} (reader : Reader α) (before : Option Context) (fits : Prop) (value : α)
    (last : Option Context) : Prop where
  reads : fits → ∀ context, (∀ c ∈ before, c = context) →
    reader.run context = some (value, last.getD context)
  fails : ¬fits → ∀ context, (∀ c ∈ before, c = context) → reader.run context = none

namespace Recovers

variable {α β : Type} {reader : Reader α} {before last last' last'' : Option Context}
  {fits p q : Prop} {a : α} {b : β}

theorem pure (a : α) (before : Option Context) : Recovers (pure a) before True a none :=
  ⟨fun _ _ _ => rfl, fun h => absurd trivial h⟩

theorem failure (a : α) (before last : Option Context) :
    Recovers (failure : Reader α) before False a last :=
  ⟨fun h => h.elim, fun _ _ _ => rfl⟩

theorem congr (h : Recovers reader before p a last) (hiff : p ↔ q) : Recovers reader before q a last :=
  ⟨fun hq => h.reads (hiff.mpr hq), fun hq => h.fails (mt hiff.mp hq)⟩

/-- What is read next was written behind the last place so far. -/
theorem bind {next : α → Reader β} (h : Recovers reader before p a last)
    (hnext : Recovers (next a) (last.or before) q b last') (hfits : fits ↔ p ∧ q)
    (hlast : last'' = last'.or last) : Recovers (reader >>= next) before fits b last'' := by
  have hagree : ∀ context, (∀ c ∈ before, c = context) →
      ∀ c ∈ last.or before, c = last.getD context := by
    intro context hbefore c hc
    cases last with
    | none => exact hbefore c hc
    | some l => exact (Option.some.inj hc).symm
  subst hlast
  constructor
  · intro hboth context hbefore
    obtain ⟨hp, hq⟩ := hfits.mp hboth
    rw [StateT.run_bind, h.reads hp context hbefore]
    refine (hnext.reads hq _ (hagree context hbefore)).trans ?_
    cases last' <;> rfl
  · intro hnot context hbefore
    rw [StateT.run_bind]
    by_cases hp : p
    · rw [h.reads hp context hbefore]
      exact hnext.fails (fun hq => hnot (hfits.mpr ⟨hp, hq⟩)) _ (hagree context hbefore)
    · rw [h.fails hp context hbefore]
      rfl

theorem map (h : Recovers reader before p a last) (f : α → β) :
    Recovers (do return f (← reader)) before p (f a) last :=
  h.bind (.pure (f a) _) (by rw [and_true]) rfl

end Recovers

/-! ### One place -/

/-- A member of an object. -/
def entry (key : String) (value : Json) : Option Text × Json := (some key.toList, value)

/-- A member that is written if there is a value. -/
def optionalEntry (key : String) (value : Option Json) : List (Option Text × Json) :=
  value.toList.map (entry key)

/-- A place with all that a dump may tell of it. -/
structure Spot where
  offset : Nat
  place : Place
  presumedFile : Option Text
  presumedLine : Option Nat
  includedFrom : Option Text
  isMacroArg : Option Bool

namespace Spot

def context (spot : Spot) : Context := ⟨spot.place.file, spot.place.line⟩

/-- The file, unless the place before is in the same. -/
def file? (style : Style) (before : Option Context) (spot : Spot) : Option Text :=
  if style = .brief ∧ before.map Context.file = some spot.place.file then none
  else some spot.place.file

/-- The line, unless the place before is on the same of the same file. -/
def line? (style : Style) (before : Option Context) (spot : Spot) : Option Nat :=
  if style = .brief ∧ before = some spot.context then none else some spot.place.line

/-- The members behind the offset. -/
def details (style : Style) (before : Option Context) (spot : Spot) : List (Option Text × Json) :=
  optionalEntry "file" ((spot.file? style before).map Json.ofText)
    ++ optionalEntry "line" ((spot.line? style before).map Json.ofCount)
    ++ optionalEntry "presumedFile" (spot.presumedFile.map Json.ofText)
    ++ optionalEntry "presumedLine" (spot.presumedLine.map Json.ofCount)
    ++ [entry "col" (.ofCount spot.place.col), entry "tokLen" (.ofCount spot.place.tokenLength)]
    ++ optionalEntry "includedFrom" (spot.includedFrom.map fun file =>
      .object [entry "file" (.ofText file)])
    ++ optionalEntry "isMacroArgExpansion" (spot.isMacroArg.map Json.bool)

def members (style : Style) (before : Option Context) (spot : Spot) : List (Option Text × Json) :=
  entry "offset" (.ofCount spot.offset) :: spot.details style before

/-- How many levels are inside the object of a place. -/
def levels (spot : Spot) : Nat := if spot.includedFrom.isSome then 1 else 0

variable (style : Style) (before : Option Context) (spot : Spot)

variable {depth : Nat} {draft : Draft}

theorem foldlM_file (file : Option Text) :
    (optionalEntry "file" (file.map Json.ofText)).foldlM (Draft.add? depth) Draft.empty =
      some ⟨file, none, none, none⟩ := by
  cases file <;> rfl

theorem foldlM_line (file : Option Text) (line : Option Nat) :
    (optionalEntry "line" (line.map Json.ofCount)).foldlM (Draft.add? depth) ⟨file, none, none, none⟩ =
      some ⟨file, line, none, none⟩ := by
  cases line <;> rfl

theorem foldlM_presumedFile (file : Option Text) :
    (optionalEntry "presumedFile" (file.map Json.ofText)).foldlM (Draft.add? depth) draft =
      some draft := by
  cases file <;> rfl

theorem foldlM_presumedLine (line : Option Nat) :
    (optionalEntry "presumedLine" (line.map Json.ofCount)).foldlM (Draft.add? depth) draft =
      some draft := by
  cases line <;> rfl

theorem foldlM_includedFrom :
    (optionalEntry "includedFrom" (spot.includedFrom.map fun file =>
      .object [entry "file" (.ofText file)])).foldlM (Draft.add? depth) draft =
        if spot.levels ≤ depth then some draft else none := by
  rw [levels]
  cases spot.includedFrom with
  | none => rfl
  | some file => cases depth <;> rfl

theorem foldlM_isMacroArg (value : Option Bool) :
    (optionalEntry "isMacroArgExpansion" (value.map Json.bool)).foldlM (Draft.add? depth) draft =
      some draft := by
  cases value <;> rfl

/-- What a draft is when all members have been read. -/
theorem foldlM_details :
    (spot.details style before).foldlM (Draft.add? depth) Draft.empty =
      if spot.levels ≤ depth then
        some ⟨spot.file? style before, spot.line? style before, some spot.place.col,
          some spot.place.tokenLength⟩
      else none := by
  have hcol : ∀ file line, [entry "col" (.ofCount spot.place.col),
      entry "tokLen" (.ofCount spot.place.tokenLength)].foldlM (Draft.add? depth)
        ⟨file, line, none, none⟩ =
      some ⟨file, line, some spot.place.col, some spot.place.tokenLength⟩ := fun _ _ => rfl
  simp only [details, List.foldlM_append, foldlM_file, foldlM_line, foldlM_presumedFile,
    foldlM_presumedLine, hcol, foldlM_includedFrom, Option.bind_eq_bind, Option.bind_some]
  split
  · exact foldlM_isMacroArg _
  · rfl

/-- What a brief place leaves out is what the reader remembers. -/
theorem place?_of_agrees {context : Context} (hbefore : ∀ c ∈ before, c = context) :
    (Draft.mk (spot.file? style before) (spot.line? style before) (some spot.place.col)
      (some spot.place.tokenLength)).place? context = some spot.place := by
  have hfile : (spot.file? style before).getD context.file = spot.place.file := by
    rw [file?]
    split <;> rename_i homitted
    · obtain ⟨c, hc, hfile⟩ := Option.map_eq_some_iff.mp homitted.2
      rw [Option.getD_none, ← hbefore c hc, hfile]
    · rfl
  have hline : (spot.line? style before).getD context.line = spot.place.line := by
    rw [line?]
    split <;> rename_i homitted
    · rw [Option.getD_none, ← hbefore _ homitted.2]
      rfl
    · rfl
  simp only [Draft.place?, Option.bind_eq_bind, Option.bind_some, hfile, hline]
  rfl

/-- A place that is read behind the one it was written behind is the same again. -/
theorem recovers_members :
    Recovers (Dump.place depth (spot.members style before)) before (spot.levels ≤ depth) spot.place
      (some spot.context) := by
  have hrun : ∀ context, (Dump.place depth (spot.members style before)).run context =
      ((spot.details style before).foldlM (Draft.add? depth) Draft.empty).bind fun draft =>
        (draft.place? context).map fun place => (place, ⟨place.file, place.line⟩) := by
    intro context
    have hmembers : behindOffset? (spot.members style before) = some (spot.details style before) := rfl
    rw [Dump.place, hmembers, run_lift_bind, Option.bind_some, run_lift_bind]
    refine Option.bind_congr fun draft _ => ?_
    rw [StateT.run_bind, StateT.run_get, pure_bind, run_lift_bind]
    cases draft.place? context <;> rfl
  constructor
  · intro hfits context hbefore
    rw [hrun, foldlM_details, if_pos hfits, Option.bind_some, place?_of_agrees _ _ _ hbefore]
    rfl
  · intro hfits context hbefore
    rw [hrun, foldlM_details, if_neg hfits]
    rfl

theorem two_lt_length_members : 2 < (spot.members style before).length := by
  simp only [members, details, List.length_cons, List.length_append, List.length_nil]
  omega

end Spot

/-! ### Where something stands -/

/-- A location as it is written. -/
inductive Site where
  | nowhere
  | written (spot : Spot)
  | expanded (spelling expansion : Spot)

namespace Site

def toJson (style : Style) (before : Option Context) : Site → Json
  | nowhere => .object []
  | written spot => .object (spot.members style before)
  | expanded spelling expansion => .object [
      entry "spellingLoc" (.object (spelling.members style before)),
      entry "expansionLoc" (.object (expansion.members style (some spelling.context)))]

/-- The file and line that were written last. -/
def last? : Site → Option Context
  | nowhere => none
  | written spot => some spot.context
  | expanded _ expansion => some expansion.context

def levels : Site → Nat
  | nowhere => 1
  | written spot => spot.levels + 1
  | expanded spelling expansion => max spelling.levels expansion.levels + 2

def location : Site → Location
  | nowhere => .absent
  | written spot => .written spot.place
  | expanded spelling expansion => .expanded spelling.place expansion.place

theorem location_object {depth : Nat} {members : List (Option Text × Json)}
    (hlength : 2 < members.length) :
    Dump.location (depth + 1) (.object members) = do return .written (← place depth members) := by
  rcases members with - | ⟨a, - | ⟨b, - | ⟨c, rest⟩⟩⟩
  · simp at hlength
  · simp at hlength
  · simp at hlength
  · rcases a with ⟨- | key, value⟩
    · rfl
    · rcases b with ⟨- | key', value'⟩ <;> rfl

theorem recovers_innerPlace (style : Style) (before : Option Context) (spot : Spot) (depth : Nat) :
    Recovers (innerPlace depth (.object (spot.members style before))) before
      (spot.levels + 1 ≤ depth) spot.place (some spot.context) := by
  cases depth with
  | zero => exact (Recovers.failure _ before _).congr (by simp)
  | succ depth => exact (spot.recovers_members style before).congr (by simp)

theorem recovers_location (style : Style) (before : Option Context) (site : Site) (depth : Nat) :
    Recovers (Dump.location depth (site.toJson style before)) before (site.levels ≤ depth)
      site.location site.last? := by
  cases depth with
  | zero => cases site <;> exact (Recovers.failure _ before _).congr (by simp [levels])
  | succ depth =>
      cases site with
      | nowhere => exact (Recovers.pure _ before).congr (by simp [levels])
      | written spot =>
          rw [toJson, location_object (spot.two_lt_length_members style before)]
          exact ((spot.recovers_members style before).map _).congr (by simp [levels])
      | expanded spelling expansion =>
          have hspelling := recovers_innerPlace style before spelling depth
          have hexpansion := recovers_innerPlace style (some spelling.context) expansion depth
          refine hspelling.bind (hexpansion.map (Location.expanded spelling.place)) ?_ rfl
          rw [levels]
          omega

end Site

end Dump

end PlainC
