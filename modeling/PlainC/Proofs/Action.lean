import PlainC.Scratch
import PlainC.Proofs.FileTree

/-!
# Actions that come to a value

An action of several steps comes to a value if each step does, in the world that the step before left
behind. For each basic action there is one statement of what it then gives.
-/

namespace PlainC

namespace World

@[simp]
theorem runs_addRecord (world : World) (level : LogLevel) (message : Text) :
    (world.addRecord level message).runs = world.runs := rfl

theorem writeText_eq_ok_iff {world after : World} {path : Path} {text : Text} :
    world.writeText path text = .ok after ↔
      ∃ tree, world.tree.write world.home path (Text.toBytes text) = .ok tree ∧
        after = { world with tree := tree } := by
  rw [writeText]
  cases world.tree.write world.home path (Text.toBytes text) with
  | error cause => simp [bind, Except.bind]
  | ok tree => simp [bind, Except.bind, pure, Except.pure, eq_comm]

theorem readText_eq_ok_iff {world : World} {path : Path} {text : Text} :
    world.readText path = .ok text ↔
      world.tree.read world.home path = .ok (Text.toBytes text) := by
  rw [readText]
  cases world.tree.read world.home path with
  | error cause => simp [bind, Except.bind]
  | ok content =>
      rw [Except.ok.injEq, ← Text.ofBytes?_eq_some_iff]
      simp only [bind, Except.bind]
      cases Text.ofBytes? content with
      | none => simp [throw, throwThe, MonadExceptOf.throw]
      | some other => simp [pure, Except.pure]

theorem readText_of_writeText {world after : World} {path : Path} {text : Text}
    (hwrite : world.writeText path text = .ok after) :
    after.readText path = .ok text ∧ after.runs = world.runs := by
  obtain ⟨tree, htree, rfl⟩ := writeText_eq_ok_iff.mp hwrite
  exact ⟨readText_eq_ok_iff.mpr (FileTree.read_of_write htree), rfl⟩

end World

namespace Action

variable {α β : Type} {world after : World}

/-- That an action comes to a value in a world, and the world that it leaves behind. -/
def Yields (action : Action α) (world : World) (value : α) (after : World) : Prop :=
  action.run world = (.ok value, after)

theorem exists_yields_of_fst {action : Action α} {value : α} (h : (action.run world).1 = .ok value) :
    ∃ after, action.run world = (.ok value, after) :=
  ⟨(action.run world).2, Prod.ext h rfl⟩

theorem yields_pure_iff {a b : α} : Yields (pure a) world b after ↔ a = b ∧ world = after := by
  change ((.ok a, world) : Except Error α × World) = (.ok b, after) ↔ _
  rw [Prod.mk.injEq, Except.ok.injEq]

theorem yields_bind_iff {action : Action α} {next : α → Action β} {b : β} :
    Yields (action >>= next) world b after ↔
      ∃ a between, Yields action world a between ∧ Yields (next a) between b after := by
  have hrun : (action >>= next).run world =
      match action.run world with
      | (.ok a, between) => (next a).run between
      | (.error error, between) => (.error error, between) := by
    change (ExceptT.bindCont next (action.run world).1).run (action.run world).2 = _
    rcases action.run world with ⟨result, between⟩
    cases result <;> rfl
  rw [Yields, hrun]
  constructor
  · intro h
    split at h
    · exact ⟨_, _, ‹_›, h⟩
    · cases h
  · rintro ⟨a, between, hfirst, hnext⟩
    rw [Yields] at hfirst
    rw [hfirst]
    exact hnext

theorem not_yields_throw {error : Error} {a : α} : ¬Yields (throw error) world a after := by
  intro h
  cases h

theorem yields_lift_iff {result : Except Error α} {a : α} :
    Yields (liftM result) world a after ↔ result = .ok a ∧ world = after := by
  change ((result, world) : Except Error α × World) = (.ok a, after) ↔ _
  rw [Prod.mk.injEq]

theorem yields_adapt_iff {rename : Error → Error} {action : Action α} {a : α} :
    Yields (ExceptT.adapt rename action) world a after ↔ Yields action world a after := by
  have hrun : (ExceptT.adapt rename action).run world =
      ((action.run world).1.mapError rename, (action.run world).2) := rfl
  rw [Yields, Yields, hrun]
  rcases action.run world with ⟨result, between⟩
  cases result with
  | error error =>
      constructor
      · intro h
        cases h
      · intro h
        cases h
  | ok value => rfl

theorem yields_get_iff {value : World} :
    Yields (get : Action World) world value after ↔ value = world ∧ world = after := by
  change ((.ok world, world) : Except Error World × World) = (.ok value, after) ↔ _
  rw [Prod.mk.injEq, Except.ok.injEq, eq_comm (a := world)]

theorem yields_set_iff {value : World} {a : PUnit} :
    Yields (set value : Action PUnit) world a after ↔ after = value := by
  change ((.ok PUnit.unit, value) : Except Error PUnit × World) = (.ok a, after) ↔ _
  rw [Prod.mk.injEq, eq_comm (a := value)]
  exact and_iff_right rfl

theorem yields_log_iff {level : LogLevel} {message : Text} {a : Unit} :
    Yields (log level message) world a after ↔ after = world.addRecord level message := by
  change ((.ok (), world.addRecord level message) : Except Error Unit × World) = (.ok a, after) ↔ _
  rw [Prod.mk.injEq, eq_comm (b := after)]
  exact and_iff_right rfl

theorem yields_placed_iff {result : Except Misplaced α} {a : α} :
    Yields (placed result) world a after ↔ result = .ok a ∧ world = after := by
  cases result with
  | error token => simp [placed, not_yields_throw]
  | ok value => simp [placed, yields_pure_iff]

theorem yields_readText_iff {path : Path} {text : Text} :
    Yields (readText path) world text after ↔ world.readText path = .ok text ∧ world = after := by
  rw [readText, yields_bind_iff]
  simp only [yields_get_iff]
  constructor
  · rintro ⟨_, _, ⟨rfl, rfl⟩, h⟩
    split at h
    · rename_i text' hread
      rw [yields_pure_iff] at h
      rw [hread, Except.ok.injEq]
      exact h
    · exact absurd h not_yields_throw
  · rintro ⟨hread, rfl⟩
    refine ⟨_, _, ⟨rfl, rfl⟩, ?_⟩
    rw [hread]
    exact yields_pure_iff.mpr ⟨rfl, rfl⟩

theorem writeText_of_yields {path : Path} {text : Text} {a : Unit}
    (h : Yields (writeText path text) world a after) : world.writeText path text = .ok after := by
  rw [writeText, yields_bind_iff] at h
  obtain ⟨_, _, hget, h⟩ := h
  obtain ⟨rfl, rfl⟩ := yields_get_iff.mp hget
  split at h
  · rename_i hwrite
    rw [yields_set_iff] at h
    rw [hwrite, h]
  · exact absurd h not_yields_throw

end Action

end PlainC
