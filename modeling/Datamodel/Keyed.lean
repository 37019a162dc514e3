/-! Lists under keys.

`upsert` puts a value into a list under its key: into the first value of that key, or at the
end. -/

namespace Datamodel

/-- Combines `y` with the first value of its key, or adds it at the end. -/
def upsert {α : Type} (key : α → String) (combine : α → α → α) : List α → α → List α
  | [], y => [y]
  | x :: xs, y => if key x = key y then combine x y :: xs else x :: upsert key combine xs y

end Datamodel
