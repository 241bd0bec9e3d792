import ZodModules.Data.NameMap
import ZodModules.Order.Basic

/-!
# Rearranging by a map

Named items are rearranged in two passes. The first puts each item under its name, if the order has
the name and nothing stands there yet, and aside otherwise. The second goes along the order and
takes away what stands under each name, so a name that comes again finds nothing.
-/

namespace ZodModules

/-- Items of which some stand under their names and the others aside. -/
structure Sifted (α : Type) where
  byName : NameMap α
  aside : List α

namespace Sifted

variable {α : Type}

/-- Puts an item under its name if the order has the name and nothing stands there, else aside. -/
def add (order : List String) (name : α → String) (sifted : Sifted α) (item : α) : Sifted α :=
  if order.contains (name item) && !sifted.byName.contains (name item) then
    { sifted with byName := sifted.byName.insert (name item) item }
  else { sifted with aside := sifted.aside ++ [item] }

/-- Takes what stands under some names out of a map, one name after the other. -/
def takeAll (byName : NameMap α) : List String → List α
  | [] => []
  | name :: names => (byName.get? name).toList ++ takeAll (byName.erase name) names

end Sifted

namespace DeclarationOrder

/-- Rearranges named items by a map of those that the order names and a list of the others. -/
def rearrange {α : Type} (order : DeclarationOrder) (name : α → String) (items : List α) : List α :=
  let sifted := items.foldl (Sifted.add order.order name) ⟨∅, []⟩
  Sifted.takeAll sifted.byName order.order ++ sifted.aside

end DeclarationOrder

end ZodModules
