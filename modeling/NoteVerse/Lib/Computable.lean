import Mathlib

/-!
# Instances that compute

A statement about all elements of a list is decided element by element, also where its
elements are of a finite type, and the order of the integers is not taken from their suprema.
-/

instance (priority := 2000) List.computableBAll {α : Type*} {p : α → Prop} [DecidablePred p]
    (l : List α) : Decidable (∀ a ∈ l, p a) := List.decidableBAll p l

instance (priority := 2000) Int.computablePreorder : Preorder ℤ := Int.instLinearOrder.toPreorder
