import ResolverTypes.TypeScript.Printer

/-!
# How type expressions are written

The text of a type expression in terms of the texts of its parts, for those expressions that hold a
list of others.
-/

namespace ResolverTypes.TypeScript

theorem renderTypes_eq (l : List TypeExpr) : renderTypes l = l.map (·.render) := by
  induction l with
  | nil => rw [renderTypes, List.map_nil]
  | cons t rest ih => rw [renderTypes, ih, List.map_cons]

namespace TypeExpr

theorem render_name (name : String) : (TypeExpr.name name).render = name := by
  simp [TypeExpr.name, render, renderTypes, angled]

theorem render_applied (name : String) (t : TypeExpr) :
    (TypeExpr.reference name [t]).render = name ++ "<" ++ t.render ++ ">" := by
  rw [render, renderTypes, renderTypes, angled, if_neg (by simp), String.intercalate_singleton]
  simp only [String.append_assoc]

/-- A choice is written as its members with bars between them. -/
theorem render_union_map (names : List String) (f : String → TypeExpr) :
    (TypeExpr.union (names.map f)).render =
      " | ".intercalate (names.map fun name => (f name).render) := by
  rw [render, renderTypes_eq, List.map_map]
  rfl

end TypeExpr

end ResolverTypes.TypeScript
