import TorchLogic.TruthTable.Shape

/-!
# Gates

The catalogue of circuits that are known by name. A gate is known by its behaviour alone, so an
entry lists every shape the gate can present: a gate whose inputs are not interchangeable has one
shape for each way to wire them.
-/

namespace TorchLogic

/-- **An entry of the catalogue.** -/
structure Gate where
  id : String
  /-- The texture of a circuit block that is this gate. -/
  texture : String
  /-- Every shape the gate can present. -/
  shapes : List Shape
  deriving DecidableEq

namespace Gate

/-- The texture of a circuit that is no known gate. -/
def blankTexture : String := "blank"

/-- **The catalogue**, in the order in which gates are looked up. -/
def catalogue : List Gate :=
  [⟨"empty", blankTexture, [⟨0, []⟩, ⟨1, []⟩, ⟨2, []⟩, ⟨3, []⟩, ⟨4, []⟩]⟩,
   ⟨"const_false", "false",
    [⟨0, [[]]⟩, ⟨0, [[], []]⟩, ⟨0, [[], [], []]⟩, ⟨0, [[], [], [], []]⟩]⟩,
   ⟨"const_true", "true",
    [⟨0, [[0]]⟩, ⟨0, [[0], [0]]⟩, ⟨0, [[0], [0], [0]]⟩, ⟨0, [[0], [0], [0], [0]]⟩]⟩,
   ⟨"or_1", "buffer", [⟨1, [[1]]⟩]⟩,
   ⟨"or_2", "or", [⟨2, [[1, 2, 3]]⟩]⟩,
   ⟨"or_3", "or", [⟨3, [[1, 2, 3, 4, 5, 6, 7]]⟩]⟩,
   ⟨"not", "not", [⟨1, [[0]]⟩]⟩,
   ⟨"nor_2", "nor", [⟨2, [[0]]⟩]⟩,
   ⟨"nor_3", "nor", [⟨3, [[0]]⟩]⟩,
   ⟨"and_2", "and", [⟨2, [[3]]⟩]⟩,
   ⟨"and_3", "and", [⟨3, [[7]]⟩]⟩,
   ⟨"nand_2", "nand", [⟨2, [[0, 1, 2]]⟩]⟩,
   ⟨"nand_3", "nand", [⟨3, [[0, 1, 2, 3, 4, 5, 6]]⟩]⟩,
   ⟨"xor", "xor", [⟨2, [[1, 2]]⟩]⟩,
   ⟨"xnor", "xnor", [⟨2, [[0, 3]]⟩]⟩,
   ⟨"impl", "impl", [⟨2, [[0, 1, 3]]⟩, ⟨2, [[0, 2, 3]]⟩]⟩,
   ⟨"not_impl", "not_impl", [⟨2, [[1]]⟩, ⟨2, [[2]]⟩]⟩,
   ⟨"half_adder", "half_adder", [⟨2, [[1, 2], [3]]⟩]⟩,
   ⟨"mux_2_to_1", "mux",
    [⟨3, [[1, 3, 6, 7]]⟩, ⟨3, [[2, 3, 5, 7]]⟩, ⟨3, [[2, 5, 6, 7]]⟩,
     ⟨3, [[3, 4, 6, 7]]⟩, ⟨3, [[1, 5, 6, 7]]⟩, ⟨3, [[3, 4, 5, 7]]⟩]⟩,
   ⟨"aoi_2_1", "aoi", [⟨3, [[0, 1, 2]]⟩, ⟨3, [[0, 1, 4]]⟩, ⟨3, [[0, 2, 4]]⟩]⟩,
   ⟨"half_subtractor", "half_subtractor", [⟨2, [[1], [1, 2]]⟩, ⟨2, [[2], [1, 2]]⟩]⟩]

/-- The signatures of a gate, one for each shape. -/
def signatures (g : Gate) : List String := g.shapes.map Shape.signature

/-- The key under which a gate's display name is filed. -/
def messageKey (g : Gate) : String := "circuit." ++ g.id

/-- Whether a gate has a given signature. -/
def hasSignature (g : Gate) (signature : String) : Bool := g.signatures.contains signature

/-- Whether a table is this gate. -/
def accepts (g : Gate) (t : TruthTable) : Bool := g.hasSignature t.signature

/-- The gate with a given name. -/
def find? (id : String) : Option Gate := catalogue.find? (·.id == id)

end Gate

namespace TruthTable

/-- **The gate that a table is**: the first entry of the catalogue that accepts it. -/
def gate? (t : TruthTable) : Option Gate := Gate.catalogue.find? (·.accepts t)

/-- The texture of a circuit block with this table. -/
def texture (t : TruthTable) : String :=
  match t.gate? with
  | some g => g.texture
  | none => Gate.blankTexture

end TruthTable

end TorchLogic
