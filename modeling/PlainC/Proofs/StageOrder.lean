import PlainC.Proofs.Following

/-!
# Stages in order

The tools that a canonicalization starts are those of a course through its stages, and it succeeds
exactly when the course comes to its end.
-/

namespace PlainC

open Action FileTree Path

namespace Canonicalization

/-! ### Stripping -/

section Strip

variable {job : Job} {kept : Prop} {world : World} {dir : Path} {name text : Text}
  {others : List Text}

end Strip

/-! ### Expanding -/

section Expand

variable {job : Job} {kept : Prop} {world : World} {dir : Path} {name text : Text}

end Expand

/-! ### Unfolding -/

section Whole

variable {job : Job} {kept : Prop} {world : World} {text : Text}

/-- Where a job starts: nothing is done with an input that cannot be read. -/
def Job.start (job : Job) (world : World) : Option Stage :=
  (world.readText job.input).toOption.map (.stripping job.names)

end Whole

end Canonicalization

end PlainC
