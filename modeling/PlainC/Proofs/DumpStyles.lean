import PlainC.Proofs.DumpPlaces
import PlainC.Proofs.Stripping

/-!
# Brief dumps mean what full dumps mean

A tree of nodes can be written in either style. Reading visits every place of the tree in the order in
which it was written, in nodes that are of no further use as well, so it remembers at each place what
the compiler left out there. Both texts are read as the same tree, and give the same unit.
-/

namespace PlainC

namespace Dump

def Kind.knows (kind : Kind) (key : Text) : Bool := (kind.keys.map String.toList).contains key

/-! ### Members of a node -/

/-- The keys that mean something in nodes of some kind. -/
def knownKeys : List Text :=
  ["loc", "range", "name", "isImplicit", "type", "completeDefinition", "inner"].map String.toList

theorem mem_knownKeys_of_knows {kind : Kind} {key : Text} (hknows : kind.knows key) :
    key ∈ knownKeys := by
  have hkeys : kind.keys ⊆
      ["loc", "range", "name", "isImplicit", "type", "completeDefinition", "inner"] := by
    cases kind <;> simp [Kind.keys]
  rw [Kind.knows, List.contains_iff_mem] at hknows
  obtain ⟨name, hname, rfl⟩ := List.mem_map.mp hknows
  exact List.mem_map_of_mem (hkeys hname)

/-- What a compiler tells of a node. -/
inductive Member where
  | loc (site : Site)
  | range (first last : Site)
  | name (text : Text)
  | isImplicit (value : Bool)
  | type (written : Text) (desugared aliasId : Option Text)
  | completeDefinition (value : Bool)
  /-- Anything else that the compiler tells. -/
  | other (key : Text) (value : Json) (unknown : key ∉ knownKeys)

namespace Member

def key : Member → Text
  | loc _ => "loc".toList
  | range _ _ => "range".toList
  | name _ => "name".toList
  | isImplicit _ => "isImplicit".toList
  | type _ _ _ => "type".toList
  | completeDefinition _ => "completeDefinition".toList
  | other key _ _ => key

def toJson (style : Style) (before : Option Context) : Member → Json
  | loc site => site.toJson style before
  | range first last => .object [
      entry "begin" (first.toJson style before),
      entry "end" (last.toJson style (first.last?.or before))]
  | name text => .ofText text
  | isImplicit value => .bool value
  | type written desugared aliasId => .object (
      optionalEntry "desugaredQualType" (desugared.map Json.ofText)
        ++ entry "qualType" (.ofText written)
        :: optionalEntry "typeAliasDeclId" (aliasId.map Json.ofText))
  | completeDefinition value => .bool value
  | other _ value _ => value

def last? : Member → Option Context
  | loc site => site.last?
  | range first last => last.last?.or first.last?
  | _ => none

def ownLevels : Member → Nat
  | loc site => site.levels
  | range first last => max first.levels last.levels + 1
  | type _ _ _ => 1
  | _ => 0

/-- How many levels are read of a member, in a node of a kind. -/
def levels (kind : Kind) (member : Member) : Nat :=
  if kind.knows member.key then member.ownLevels else 0

def set (node : Node) : Member → Node
  | loc site => { node with loc := some site.location }
  | range first last => { node with range := some ⟨first.location, last.location⟩ }
  | name text => { node with name := some text }
  | isImplicit value => { node with isImplicit := some value }
  | type written desugared _ => { node with spelling := some ⟨some written, desugared⟩ }
  | completeDefinition value => { node with isComplete := some value }
  | other _ _ _ => node

/-- A node with what a member says of it, if that matters in nodes of its kind. -/
def put (node : Node) (member : Member) : Node :=
  if node.kind.knows member.key then member.set node else node

variable {style : Style} {before : Option Context} {children : List Json → Reader (List Node)}
  {depth : Nat} {node : Node}

theorem kind_put (node : Node) (member : Member) : (put node member).kind = node.kind := by
  rw [put]
  split
  · cases member <;> rfl
  · rfl

theorem inner_put (node : Node) (member : Member) : (put node member).inner = node.inner := by
  rw [put]
  split
  · cases member <;> rfl
  · rfl

theorem key_ne_inner : (member : Member) → member.key ≠ "inner".toList
  | loc _ => (by decide : "loc".toList ≠ "inner".toList)
  | range _ _ => (by decide : "range".toList ≠ "inner".toList)
  | name _ => (by decide : "name".toList ≠ "inner".toList)
  | isImplicit _ => (by decide : "isImplicit".toList ≠ "inner".toList)
  | type _ _ _ => (by decide : "type".toList ≠ "inner".toList)
  | completeDefinition _ => (by decide : "completeDefinition".toList ≠ "inner".toList)
  | other key _ unknown => fun (h : key = _) => unknown (h ▸ by decide)

theorem takeMember_of_not_knows {key : Text} (hinner : key ≠ "inner".toList)
    (hknows : node.kind.knows key = false) (value : Json) :
    takeMember children depth node key value = pure node := by
  unfold takeMember
  rw [Kind.knows] at hknows
  rw [if_neg hinner, hknows]
  rfl

theorem recovers_range (style : Style) (before : Option Context) (first last : Site) (depth : Nat) :
    Recovers (Dump.range depth ((Member.range first last).toJson style before)) before
      (max first.levels last.levels + 1 ≤ depth) ⟨first.location, last.location⟩
      (last.last?.or first.last?) := by
  cases depth with
  | zero => exact (Recovers.failure _ before _).congr (by simp)
  | succ depth =>
      have hfirst := first.recovers_location style before depth
      have hlast := last.recovers_location style (first.last?.or before) depth
      refine hfirst.bind (hlast.map (Range.mk first.location)) ?_ rfl
      omega

theorem recovers_typeSpelling (before : Option Context) (written : Text)
    (desugared aliasId : Option Text) (depth : Nat) :
    Recovers (typeSpelling depth ((Member.type written desugared aliasId).toJson style before)) before
      (1 ≤ depth) ⟨some written, desugared⟩ none := by
  cases depth with
  | zero => exact (Recovers.failure _ before _).congr (by simp)
  | succ depth =>
      refine ⟨fun _ context _ => ?_, fun h => absurd (Nat.succ_pos depth) h⟩
      cases desugared <;> cases aliasId <;> rfl

theorem orNull_location (site : Site) :
    orNull (location depth) (site.toJson style before) =
      do return some (← location depth (site.toJson style before)) := by
  cases site <;> rfl

/-- Taking in what was written, where every place that was written is read. -/
theorem recovers_takeMember (style : Style) (before : Option Context)
    (children : List Json → Reader (List Node)) (depth : Nat) (member : Member)
    (hplaces : node.kind.knows member.key ∨ member.last? = none) :
    Recovers (takeMember children depth node member.key (member.toJson style before)) before
      (member.levels node.kind ≤ depth) (put node member) member.last? := by
  rw [levels, put]
  cases hknows : node.kind.knows member.key with
  | false =>
      rw [takeMember_of_not_knows member.key_ne_inner hknows,
        hplaces.resolve_left (by rw [hknows]; exact Bool.false_ne_true)]
      exact (Recovers.pure node before).congr (by simp)
  | true =>
      rw [if_pos rfl, if_pos rfl]
      have hkey : (!(node.kind.keys.map String.toList).contains member.key) ≠ true := by
        rw [← Kind.knows, hknows]
        decide
      unfold takeMember
      rw [if_neg member.key_ne_inner, if_neg hkey]
      cases member with
      | loc site =>
          have hread := ((site.recovers_location style before depth).map some)
          rw [← orNull_location] at hread
          exact hread.map fun loc => { node with loc := loc }
      | range first last =>
          exact ((recovers_range style before first last depth).map some).map fun range =>
            { node with range := range }
      | name text => exact (Recovers.pure _ before).congr (by simp [ownLevels])
      | isImplicit value => exact (Recovers.pure _ before).congr (by simp [ownLevels])
      | type written desugared aliasId =>
          exact ((recovers_typeSpelling before written desugared aliasId depth).map some).map
            fun spelling => { node with spelling := spelling }
      | completeDefinition value => exact (Recovers.pure _ before).congr (by simp [ownLevels])
      | other key value unknown => exact absurd (mem_knownKeys_of_knows hknows) unknown

end Member

namespace Members

variable {style : Style} {before : Option Context} {kind : Kind}

/-- Members one after another, each behind the places of those before. -/
def toJson (style : Style) : Option Context → List Member → List (Option Text × Json)
  | _, [] => []
  | before, member :: members =>
    (some member.key, member.toJson style before)
      :: toJson style (member.last?.or before) members

def last? : List Member → Option Context
  | [] => none
  | member :: members => (last? members).or member.last?

def levels (kind : Kind) : List Member → Nat
  | [] => 0
  | member :: members => max (member.levels kind) (levels kind members)

theorem kind_foldl_put (members : List Member) (node : Node) :
    (members.foldl Member.put node).kind = node.kind := by
  induction members generalizing node with
  | nil => rfl
  | cons member members ih => rw [List.foldl_cons, ih, Member.kind_put]

theorem inner_foldl_put (members : List Member) (node : Node) :
    (members.foldl Member.put node).inner = node.inner := by
  induction members generalizing node with
  | nil => rfl
  | cons member members ih => rw [List.foldl_cons, ih, Member.inner_put]

/-- Members are taken in one after another, and `rest` behind them. -/
theorem recovers_takeMembers {children : List Json → Reader (List Node)} {depth : Nat} {node : Node}
    {members : List Member} {rest : List (Option Text × Json)} {seen : List Text} {result : Node}
    {fits : Prop} {last : Option Context} (hnodup : (members.map Member.key).Nodup)
    (hseen : ∀ member ∈ members, member.key ∉ seen)
    (hplaces : ∀ member ∈ members, node.kind.knows member.key ∨ member.last? = none)
    (hrest : ∀ seen, Recovers (takeMembers children depth seen (members.foldl Member.put node) rest)
      ((last? members).or before) fits result last) :
    Recovers (takeMembers children depth seen node (toJson style before members ++ rest)) before
      (levels node.kind members ≤ depth ∧ fits) result (last.or (last? members)) := by
  induction members generalizing before node seen with
  | nil =>
      have hdone := hrest seen
      rw [last?, Option.or_none]
      exact hdone.congr (by simp [levels])
  | cons member members ih =>
      rw [List.map_cons, List.nodup_cons] at hnodup
      have hfresh : (seen.contains member.key && (node.kind.keys.map String.toList).contains member.key)
          ≠ true := by
        have hnew := hseen member List.mem_cons_self
        simp [hnew]
      have htake := member.recovers_takeMember style before children depth
        (hplaces member List.mem_cons_self)
      have hmore : Recovers (takeMembers children depth (member.key :: seen) (Member.put node member)
          (toJson style (member.last?.or before) members ++ rest)) (member.last?.or before)
          (levels node.kind members ≤ depth ∧ fits) result (last.or (last? members)) := by
        rw [← Member.kind_put node member]
        refine ih hnodup.2 ?_ ?_ ?_
        · intro other hother hmem
          rcases List.mem_cons.mp hmem with heq | hmem
          · exact hnodup.1 (heq ▸ List.mem_map_of_mem hother)
          · exact hseen other (List.mem_cons_of_mem _ hother) hmem
        · intro other hother
          rw [Member.kind_put]
          exact hplaces other (List.mem_cons_of_mem _ hother)
        · intro seen
          rw [← Option.or_assoc]
          exact hrest seen
      rw [toJson, List.cons_append, takeMembers, if_neg hfresh]
      refine htake.bind hmore ?_ ?_
      · rw [levels, Nat.max_le, and_assoc]
      · rw [last?, Option.or_assoc]

end Members

/-! ### Trees -/

/-- A node without what is inside it. A compound statement has a range but no location of its own. -/
structure Header where
  id : Text
  kind : Text
  members : List Member
  isId_id : isId id
  nodup_keys : (members.map Member.key).Nodup
  not_loc_of_compound : kind = "CompoundStmt".toList →
    ∀ member ∈ members, member.key ≠ "loc".toList

/-- Every place of a node is read. -/
theorem Header.knows_or_last? (header : Header) :
    ∀ member ∈ header.members,
      (Kind.ofName header.kind).knows member.key ∨ member.last? = none := by
  intro member hmember
  cases member with
  | loc site =>
      left
      rw [Kind.ofName]
      split_ifs with _ _ _ _ hcompound
      · rfl
      · rfl
      · rfl
      · rfl
      · exact absurd rfl (header.not_loc_of_compound hcompound _ hmember)
      · rfl
  | range first last =>
      left
      rw [Kind.ofName]
      split_ifs <;> rfl
  | _ => exact .inr rfl

/-- A dump as a compiler has it in mind: nodes with others inside, and nodes of which there is nothing to
tell. -/
inductive Tree where
  /-- A statement that is not there, as in the parts of `for (;;)`. -/
  | missing
  | blank (id : Text) (isId_id : isId id)
  | node (header : Header) (inner : List Tree)

namespace Tree

mutual

/-- The file and line of the last place of a tree. -/
def last? : Tree → Option Context
  | missing | blank _ _ => none
  | node header inner => (lastAll? inner).or (Members.last? header.members)

def lastAll? : List Tree → Option Context
  | [] => none
  | tree :: trees => (lastAll? trees).or tree.last?

end

mutual

/-- A tree in a style, behind the place that was written last. -/
def toJson (style : Style) : Option Context → Tree → Json
  | _, missing => .object []
  | _, blank id _ => .object [entry "id" (.ofText id)]
  | before, node header inner =>
    .object (entry "id" (.ofText header.id) :: entry "kind" (.ofText header.kind)
      :: (Members.toJson style before header.members
        ++ if inner.isEmpty then []
          else [entry "inner"
            (.array (toJsons style ((Members.last? header.members).or before) inner))]))

def toJsons (style : Style) : Option Context → List Tree → List Json
  | _, [] => []
  | before, tree :: trees =>
    tree.toJson style before :: toJsons style (tree.last?.or before) trees

end

mutual

/-- How many arrays and objects inside each other have to be read. -/
def levels : Tree → Nat
  | missing | blank _ _ => 1
  | node header inner =>
    max (Members.levels (.ofName header.kind) header.members)
      (if inner.isEmpty then 0 else levelsAll inner + 1) + 1

def levelsAll : List Tree → Nat
  | [] => 0
  | tree :: trees => max tree.levels (levelsAll trees)

end

mutual

/-- What there is to know of a tree. -/
def toNode : Tree → Node
  | missing | blank _ _ => .bare .unnamed
  | node header inner =>
    { header.members.foldl Member.put (.bare (.ofName header.kind)) with inner := toNodes inner }

def toNodes : List Tree → List Node
  | [] => []
  | tree :: trees => tree.toNode :: toNodes trees

end

theorem toNodes_eq_map (trees : List Tree) : toNodes trees = trees.map toNode := by
  induction trees with
  | nil => rfl
  | cons tree trees ih => rw [toNodes, ih, List.map_cons]

theorem kindOf?_blank {id : Text} (hid : isId id) :
    kindOf? [entry "id" (.ofText id)] = some (.unnamed, []) := by
  simp [kindOf?, entry, Json.ofText, hid]

theorem kindOf?_header (header : Header) (rest : List (Option Text × Json)) :
    kindOf? (entry "id" (.ofText header.id) :: entry "kind" (.ofText header.kind) :: rest) =
      some (.ofName header.kind, rest) := by
  simp [kindOf?, entry, Json.ofText, header.isId_id]

/-- What reads the nodes inside another one. -/
def children (depth : Nat) (items : List Json) : Reader (List Node) :=
  match depth with
  | 0 => failure
  | depth + 1 => items.mapM (Dump.node depth)

theorem node_of_kindOf? {depth : Nat} {members rest : List (Option Text × Json)} {kind : Kind}
    (hkind : kindOf? members = some (kind, rest)) :
    Dump.node (depth + 1) (.object members) =
      takeMembers (children depth) depth [] (.bare kind) rest := by
  rw [Dump.node, hkind]
  rfl

theorem recovers_takeMembers_inner {style : Style} {before : Option Context} {depth : Nat}
    {result : Node} {trees : List Tree} (hresult : result.inner = [])
    (hchildren : Recovers (children depth (toJsons style before trees)) before
      (levelsAll trees + 1 ≤ depth) (toNodes trees) (lastAll? trees)) (seen : List Text) :
    Recovers (takeMembers (children depth) depth seen result
        (if trees.isEmpty then [] else [entry "inner" (.array (toJsons style before trees))])) before
      ((if trees.isEmpty then 0 else levelsAll trees + 1) ≤ depth)
      { result with inner := toNodes trees } (lastAll? trees) := by
  cases trees with
  | nil =>
      have hsame : { result with inner := toNodes [] } = result := by
        cases result
        cases hresult
        rfl
      rw [hsame]
      exact (Recovers.pure result before).congr (by simp)
  | cons tree trees =>
      have hseen : (seen.contains "inner".toList && result.kind.knows "inner".toList) ≠ true := by
        have hknows : result.kind.knows "inner".toList = false := by cases result.kind <;> rfl
        rw [hknows, Bool.and_false]
        exact Bool.false_ne_true
      rw [List.isEmpty_cons, if_neg Bool.false_ne_true, entry, takeMembers, ← Kind.knows, if_neg hseen,
        if_neg Bool.false_ne_true]
      exact (hchildren.map fun inner => { result with inner := inner }).bind (.pure _ _)
        (by rw [and_true]) rfl

mutual

/-- A tree that is read behind the place it was written behind is the same again. -/
theorem recovers_node (style : Style) : (tree : Tree) → (before : Option Context) → (depth : Nat) →
    Recovers (Dump.node depth (tree.toJson style before)) before (tree.levels ≤ depth) tree.toNode
      tree.last?
  | tree, before, 0 => by
      cases tree with
      | missing => exact (Recovers.failure _ before _).congr (by simp [levels])
      | blank id hid => exact (Recovers.failure _ before _).congr (by simp [levels])
      | node header inner => exact (Recovers.failure _ before _).congr (by simp [levels])
  | missing, before, depth + 1 => by
      have hkind : kindOf? [] = some (.unnamed, []) := rfl
      rw [toJson, node_of_kindOf? hkind]
      exact (Recovers.pure _ before).congr (by simp [levels])
  | blank id hid, before, depth + 1 => by
      rw [toJson, node_of_kindOf? (kindOf?_blank hid)]
      exact (Recovers.pure _ before).congr (by simp [levels])
  | node header inner, before, depth + 1 => by
      have hchildren := recovers_children style inner
        ((Members.last? header.members).or before) depth
      have hinner := recovers_takeMembers_inner (Members.inner_foldl_put header.members
        (.bare (.ofName header.kind))) hchildren
      rw [toJson, node_of_kindOf? (kindOf?_header header _)]
      refine Recovers.congr (Members.recovers_takeMembers header.nodup_keys
        (fun _ _ => List.not_mem_nil) header.knows_or_last? hinner) ?_
      rw [levels, Nat.add_le_add_iff_right, Nat.max_le]
      rfl

theorem recovers_children (style : Style) (trees : List Tree) (before : Option Context) (depth : Nat) :
    Recovers (children depth (toJsons style before trees)) before (levelsAll trees + 1 ≤ depth)
      (toNodes trees) (lastAll? trees) := by
  cases depth with
  | zero => exact (Recovers.failure _ before _).congr (by simp)
  | succ depth => exact (recovers_nodes style trees before depth).congr (by simp)

theorem recovers_nodes (style : Style) : (trees : List Tree) → (before : Option Context) →
    (depth : Nat) → Recovers ((toJsons style before trees).mapM (Dump.node depth)) before
      (levelsAll trees ≤ depth) (toNodes trees) (lastAll? trees)
  | [], before, depth => by
      exact (Recovers.pure _ before).congr (by simp [levelsAll])
  | tree :: trees, before, depth => by
      have htree := recovers_node style tree before depth
      have htrees := recovers_nodes style trees (tree.last?.or before) depth
      rw [toJsons, List.mapM_cons]
      refine htree.bind (htrees.map (tree.toNode :: ·)) ?_ rfl
      rw [levelsAll, Nat.max_le]

end

theorem ofJson?_toJson (style : Style) (tree : Tree) :
    ofJson? (tree.toJson style none) = if tree.levels ≤ nesting then some tree.toNode else none := by
  have hnode := tree.recovers_node style none nesting
  have hstart : ∀ c ∈ (none : Option Context), c = Context.start := fun c hc => by cases hc
  rw [ofJson?]
  split <;> rename_i hfits
  · rw [hnode.reads hfits _ hstart]
    rfl
  · rw [hnode.fails hfits _ hstart]
    rfl

end Tree

/-! ### Where declarations come from -/

/-- The place that a reader of the file sees. -/
def Site.spot? : Site → Option Spot
  | nowhere => none
  | written spot => some spot
  | expanded _ expansion => some expansion

theorem Site.place?_location (site : Site) : site.location.place? = site.spot?.map Spot.place := by
  cases site <;> rfl

/-- That the fields of a node are filled by members: its name, its range and whether it is implicit. -/
structure FilledBy (members : List Member) (node : Node) : Prop where
  name : ∀ text, node.name = some text → .name text ∈ members
  isImplicit : ∀ value, node.isImplicit = some value → .isImplicit value ∈ members
  range : ∀ range, node.range = some range → ∃ opening closing, .range opening closing ∈ members ∧
    range = ⟨opening.location, closing.location⟩

/-- One more member fills the field that it is for, and no other. -/
theorem FilledBy.put {members : List Member} {node : Node} (h : FilledBy members node)
    (member : Member) : FilledBy (members ++ [member]) (member.put node) := by
  have hkept : FilledBy (members ++ [member]) node := by
    refine ⟨fun text htext => List.mem_append_left _ (h.name text htext),
      fun value hvalue => List.mem_append_left _ (h.isImplicit value hvalue), ?_⟩
    intro range hrange
    obtain ⟨opening, closing, hmember, hends⟩ := h.range range hrange
    exact ⟨opening, closing, List.mem_append_left _ hmember, hends⟩
  rw [Member.put]
  split
  · cases member with
    | name text =>
        refine ⟨?_, hkept.isImplicit, hkept.range⟩
        intro other hother
        rw [← Option.some.inj hother]
        exact List.mem_append_right _ List.mem_cons_self
    | isImplicit value =>
        refine ⟨hkept.name, ?_, hkept.range⟩
        intro other hother
        rw [← Option.some.inj hother]
        exact List.mem_append_right _ List.mem_cons_self
    | range opening closing =>
        refine ⟨hkept.name, hkept.isImplicit, ?_⟩
        intro range hrange
        exact ⟨opening, closing, List.mem_append_right _ List.mem_cons_self,
          (Option.some.inj hrange).symm⟩
    | _ => exact ⟨hkept.name, hkept.isImplicit, hkept.range⟩
  · exact hkept

theorem filledBy_foldl_put (members : List Member) (kind : Kind) :
    FilledBy members (members.foldl Member.put (.bare kind)) := by
  induction members using List.reverseRecOn with
  | nil => exact ⟨fun _ h => (by cases h), fun _ h => (by cases h), fun _ h => (by cases h)⟩
  | append_singleton members member ih =>
      rw [List.foldl_append]
      exact ih.put member

namespace Header

variable {header : Header} {inner : List Tree} {files : List Text}

/-- That a node has a range with both ends in one of the files, over a span. -/
def Spans (files : List Text) (span : Span) (header : Header) : Prop :=
  ∃ opening closing first last, .range opening closing ∈ header.members ∧
    opening.spot? = some first ∧ closing.spot? = some last ∧
    first.place.file ∈ files ∧ last.place.file ∈ files ∧
    span.first = ⟨word first.place.line, word first.place.col⟩ ∧
    span.last = ⟨word last.place.line,
      word (last.place.col + max last.place.tokenLength 1 - 1)⟩

theorem filledBy_toNode (header : Header) (inner : List Tree) :
    FilledBy header.members (Tree.node header inner).toNode := by
  have hmembers := filledBy_foldl_put header.members (.ofName header.kind)
  exact ⟨hmembers.name, hmembers.isImplicit, hmembers.range⟩

theorem spans_of_span? {span : Span} (hspan : (Tree.node header inner).toNode.span? files = some span) :
    header.Spans files span := by
  obtain ⟨range, hrange, hmain⟩ := Option.bind_eq_some_iff.mp hspan
  obtain ⟨opening, closing, hmember, rfl⟩ := (header.filledBy_toNode inner).range range hrange
  obtain ⟨first, last, hfirst, hlast, hfile, hfile', hspan, hspan'⟩ :=
    Stripping.exists_of_mainSpan? hmain
  rw [Site.place?_location] at hfirst hlast
  obtain ⟨spot, hspot, rfl⟩ := Option.map_eq_some_iff.mp hfirst
  obtain ⟨spot', hspot', rfl⟩ := Option.map_eq_some_iff.mp hlast
  exact ⟨opening, closing, spot, spot', hmember, hspot, hspot', hfile, hfile', hspan, hspan'⟩

end Header

namespace Tree

variable {tree : Tree} {files : List Text}

def inner : Tree → List Tree
  | missing | blank _ _ => []
  | node _ inner => inner

theorem inner_toNode (tree : Tree) : tree.toNode.inner = tree.inner.map toNode := by
  cases tree with
  | missing => rfl
  | blank id hid => rfl
  | node header inner => exact toNodes_eq_map inner

theorem exists_header_of_kind (hkind : tree.toNode.kind ≠ .unnamed) :
    ∃ header inner, tree = node header inner ∧ tree.toNode.kind = .ofName header.kind := by
  cases tree with
  | missing => exact absurd rfl hkind
  | blank id hid => exact absurd rfl hkind
  | node header inner => exact ⟨header, inner, rfl, Members.kind_foldl_put header.members _⟩

end Tree

theorem Kind.name_of_typedef {name : Text} (h : Kind.ofName name = .typedef) :
    name = "TypedefDecl".toList := by
  rw [Kind.ofName] at h
  split_ifs at h with _ htypedef
  exact htypedef

theorem Kind.name_of_function {name : Text} (h : Kind.ofName name = .function) :
    name = "FunctionDecl".toList := by
  rw [Kind.ofName] at h
  split_ifs at h with hfunction
  exact hfunction

/-- A typedef comes from a node that spans it in one of the files. -/
theorem Tree.exists_of_typedef? {tree : Tree} {files : List Text} {typedef : Typedef}
    (h : typedef? files tree.toNode = some typedef) :
    ∃ header inner, tree = node header inner ∧ header.kind = "TypedefDecl".toList ∧
      .name typedef.name ∈ header.members ∧ header.Spans files typedef.span := by
  rw [typedef?] at h
  split at h
  · cases h
  · rename_i hkind
    rw [Bool.or_eq_true, not_or, decide_eq_true_eq, not_not] at hkind
    obtain ⟨name, hname, h⟩ := Option.bind_eq_some_iff.mp h
    obtain ⟨canonical, -, h⟩ := Option.bind_eq_some_iff.mp h
    obtain ⟨span, hspan, h⟩ := Option.bind_eq_some_iff.mp h
    cases h
    obtain ⟨header, inner, rfl, hheader⟩ := exists_header_of_kind (by rw [hkind.1]; decide)
    exact ⟨header, inner, rfl, Kind.name_of_typedef (hheader.symm.trans hkind.1),
      (header.filledBy_toNode inner).name _ (Option.filter_eq_some_iff.mp hname).1,
      Header.spans_of_span? hspan⟩

/-- A function comes from a node that spans it in one of the files, or from an implicit one. -/
theorem Tree.exists_of_function? {tree : Tree} {files : List Text} {function : Function}
    (h : function? files tree.toNode = some function) :
    ∃ header inner, tree = node header inner ∧ header.kind = "FunctionDecl".toList ∧
      .name function.name ∈ header.members ∧
      (.isImplicit true ∈ header.members ∧ function.span = none ∨
        ∃ span, function.span = some span ∧ header.Spans files span) := by
  rw [function?] at h
  dsimp only at h
  split at h
  · cases h
  · rename_i hkind
    rw [not_not] at hkind
    obtain ⟨name, hname, h⟩ := Option.bind_eq_some_iff.mp h
    obtain ⟨header, inner, rfl, hheader⟩ := exists_header_of_kind (by rw [hkind]; decide)
    have hfilled := header.filledBy_toNode inner
    have hmember := hfilled.name _ (Option.filter_eq_some_iff.mp hname).1
    have hfunction := Kind.name_of_function (hheader.symm.trans hkind)
    split at h <;> rename_i himplicit
    · cases h
      have hvalue := (Option.getD_eq_iff.mp himplicit).resolve_right (by simp)
      exact ⟨header, inner, rfl, hfunction, hmember, .inl ⟨hfilled.isImplicit _ hvalue, rfl⟩⟩
    · obtain ⟨span, hspan, h⟩ := Option.bind_eq_some_iff.mp h
      cases h
      exact ⟨header, inner, rfl, hfunction, hmember, .inr ⟨span, rfl, Header.spans_of_span? hspan⟩⟩

/-- A tree is read as the same nodes whether its places were written in full or briefly, and each typedef
and function of a unit that is made of them comes from a node at its top. -/
theorem brief_dump_means_full_dump {tree : Tree} {brief full : Text}
    (hbrief : Json.parse? brief = some (tree.toJson .brief none))
    (hfull : Json.parse? full = some (tree.toJson .full none)) :
    parse? brief = parse? full ∧
    parse? full = (if tree.levels ≤ nesting then some tree.toNode else none) ∧
    ∀ path source files,
      (∀ typedef ∈ (toUnit path source files tree.toNode).typedefs,
        ∃ header inner, .node header inner ∈ tree.inner ∧ header.kind = "TypedefDecl".toList ∧
          .name typedef.name ∈ header.members ∧ header.Spans files typedef.span) ∧
      ∀ function ∈ (toUnit path source files tree.toNode).functions,
        ∃ header inner, .node header inner ∈ tree.inner ∧ header.kind = "FunctionDecl".toList ∧
          .name function.name ∈ header.members ∧
          (.isImplicit true ∈ header.members ∧ function.span = none ∨
            ∃ span, function.span = some span ∧ header.Spans files span) := by
  have hread : parse? full = if tree.levels ≤ nesting then some tree.toNode else none := by
    rw [parse?, hfull, ← tree.ofJson?_toJson .full]
    rfl
  refine ⟨?_, hread, fun path source files => ⟨?_, ?_⟩⟩
  · rw [hread, parse?, hbrief, ← tree.ofJson?_toJson .brief]
    rfl
  · intro typedef htypedef
    obtain ⟨bare, hbare, rfl⟩ := List.mem_map.mp htypedef
    obtain ⟨node, hnode, htypedef⟩ := List.mem_filterMap.mp hbare
    rw [Tree.inner_toNode] at hnode
    obtain ⟨top, htop, rfl⟩ := List.mem_map.mp hnode
    obtain ⟨header, inner, rfl, hdeclares⟩ := Tree.exists_of_typedef? htypedef
    exact ⟨header, inner, htop, hdeclares⟩
  · intro function hfunction
    obtain ⟨node, hnode, hfunction⟩ := List.mem_filterMap.mp hfunction
    rw [Tree.inner_toNode] at hnode
    obtain ⟨top, htop, rfl⟩ := List.mem_map.mp hnode
    obtain ⟨header, inner, rfl, hdeclares⟩ := Tree.exists_of_function? hfunction
    exact ⟨header, inner, htop, hdeclares⟩

/-- A function of an included file with a loop that has no condition, and a typedef of the file itself
that ends in a macro of the other. -/
def macroTree : Tree :=
  .node ⟨"0x1".toList, "TranslationUnitDecl".toList, [.loc .nowhere], rfl, by decide, by decide⟩ [
    .node ⟨"0x2".toList, "FunctionDecl".toList, [
        .loc (.written ⟨4, ⟨"h".toList, 1, 5, 1⟩, none, none, some "m".toList, none⟩),
        .name "v".toList,
        .range (.written ⟨0, ⟨"h".toList, 1, 1, 3⟩, none, none, none, none⟩)
          (.written ⟨9, ⟨"h".toList, 2, 1, 1⟩, none, none, none, none⟩)],
      rfl, by decide, fun h => absurd h (by decide)⟩ [
        .node ⟨"0x4".toList, "ForStmt".toList, [], rfl, by decide, fun h => absurd h (by decide)⟩
          [.missing, .blank "0x0".toList rfl]],
    .node ⟨"0x3".toList, "TypedefDecl".toList, [
        .range (.written ⟨7, ⟨"m".toList, 2, 1, 7⟩, none, none, none, none⟩)
          (.expanded ⟨19, ⟨"h".toList, 2, 9, 1⟩, none, none, none, none⟩
            ⟨19, ⟨"m".toList, 2, 13, 1⟩, none, none, none, none⟩),
        .name "T".toList,
        .type "int".toList none none],
      rfl, by decide, fun h => absurd h (by decide)⟩ []]

/-- The dump of the tree, with what it says of file and line at the ends of the function. -/
def macroDump (first last : String) : Text :=
  ["\x7b\"id\":\"0x1\",", "\"kind\":\"TranslationUnitDecl\",", "\"loc\":\x7b\x7d,\"inner\":[",
    "\x7b\"id\":\"0x2\",", "\"kind\":\"FunctionDecl\",",
    "\"loc\":\x7b\"offset\":4,\"file\":\"h\",\"line\":1,", "\"col\":5,\"tokLen\":1,", "\"includedFrom\":\x7b\"file\":\"m\"\x7d\x7d,", "\"name\":\"v\",",
    "\"range\":\x7b\"begin\":\x7b\"offset\":0,", first, "\"col\":1,\"tokLen\":3\x7d,",
    "\"end\":\x7b\"offset\":9,", last, "\"col\":1,\"tokLen\":1\x7d\x7d,",
    "\"inner\":[\x7b\"id\":\"0x4\",", "\"kind\":\"ForStmt\",",
    "\"inner\":[\x7b\x7d,\x7b\"id\":\"0x0\"\x7d]\x7d]\x7d,",
    "\x7b\"id\":\"0x3\",\"kind\":\"TypedefDecl\",", "\"range\":\x7b\"begin\":\x7b\"offset\":7,",
    "\"file\":\"m\",\"line\":2,", "\"col\":1,\"tokLen\":7\x7d,",
    "\"end\":\x7b\"spellingLoc\":\x7b\"offset\":19,", "\"file\":\"h\",\"line\":2,",
    "\"col\":9,\"tokLen\":1\x7d,", "\"expansionLoc\":\x7b\"offset\":19,", "\"file\":\"m\",\"line\":2,",
    "\"col\":13,\"tokLen\":1\x7d\x7d\x7d,", "\"name\":\"T\",",
    "\"type\":\x7b\"qualType\":\"int\"\x7d\x7d]\x7d"].flatMap String.toList

theorem brief_dump_means_full_dump_over_macro :
    Json.parse? (macroDump "" "\"line\":2,") = some (macroTree.toJson .brief none) ∧
    Json.parse? (macroDump "\"file\":\"h\",\"line\":1," "\"file\":\"h\",\"line\":2,") =
      some (macroTree.toJson .full none) ∧
    parse? (macroDump "" "\"line\":2,") = some macroTree.toNode ∧
    parse? (macroDump "\"file\":\"h\",\"line\":1," "\"file\":\"h\",\"line\":2,") =
      some macroTree.toNode ∧
    (toUnit [] (.ofText []) ["m".toList] macroTree.toNode).typedefs =
      [⟨"T".toList, "int".toList, ⟨⟨2, 1⟩, ⟨2, 13⟩⟩, none⟩] ∧
    ∃ header inner, .node header inner ∈ macroTree.inner ∧ header.kind = "TypedefDecl".toList ∧
      .name "T".toList ∈ header.members ∧ header.Spans ["m".toList] ⟨⟨2, 1⟩, ⟨2, 13⟩⟩ := by
  have hbrief : Json.parse? (macroDump "" "\"line\":2,") = some (macroTree.toJson .brief none) := by
    decide +kernel
  have hfull : Json.parse? (macroDump "\"file\":\"h\",\"line\":1," "\"file\":\"h\",\"line\":2,") =
      some (macroTree.toJson .full none) := by
    decide +kernel
  have htypedefs : (toUnit [] (.ofText []) ["m".toList] macroTree.toNode).typedefs =
      [⟨"T".toList, "int".toList, ⟨⟨2, 1⟩, ⟨2, 13⟩⟩, none⟩] := by
    decide +kernel
  obtain ⟨hsame, hread, hunit⟩ := brief_dump_means_full_dump hbrief hfull
  rw [if_pos (by decide)] at hread
  refine ⟨hbrief, hfull, hsame.trans hread, hread, htypedefs, ?_⟩
  exact (hunit [] (.ofText []) ["m".toList]).1 _ (htypedefs ▸ List.mem_cons_self)

end Dump

end PlainC
