import NoteVerse.Lib.JsNumber

/-!
# Sorted strings

No two strings have the same code units (`codeUnits_injective`), so what `sort`
makes of the different ones of some strings depends on no order
(`sortStrings_eraseDups`).
-/

namespace Js

/-- A unit that stands alone is no surrogate. -/
theorem charUnits_append_inj {c d : Char} {us vs : List Nat}
    (h : charUnits c ++ us = charUnits d ++ vs) : c = d ∧ us = vs := by
  have hval : ∀ e : Char, e.toNat < 0xD800 ∨ 0xDFFF < e.toNat ∧ e.toNat < 0x110000 := fun e => e.valid
  have hcv := hval c
  have hdv := hval d
  have hchar : c.toNat = d.toNat → c = d := fun h => Char.toNat_inj.mp h
  unfold charUnits at h
  split_ifs at h
  · obtain ⟨hcd, htail⟩ := List.cons.inj h
    exact ⟨hchar hcd, htail⟩
  · obtain ⟨hcd, -⟩ := List.cons.inj h
    omega
  · obtain ⟨hcd, -⟩ := List.cons.inj h
    omega
  · obtain ⟨hhigh, htail⟩ := List.cons.inj h
    obtain ⟨hlow, htail⟩ := List.cons.inj htail
    exact ⟨hchar (by omega), htail⟩

theorem charUnits_ne_nil (c : Char) : charUnits c ≠ [] := by
  unfold charUnits
  split_ifs <;> exact List.cons_ne_nil _ _

theorem codeUnits_injective {x y : String} (h : codeUnits x = codeUnits y) : x = y := by
  have hlist : ∀ cs ds : List Char, cs.flatMap charUnits = ds.flatMap charUnits → cs = ds := by
    intro cs
    induction cs with
    | nil =>
      intro ds hds
      cases ds with
      | nil => rfl
      | cons d ds => exact absurd hds.symm (by simp [charUnits_ne_nil])
    | cons c cs ih =>
      intro ds hds
      cases ds with
      | nil => exact absurd hds (by simp [charUnits_ne_nil])
      | cons d ds =>
        obtain ⟨rfl, htail⟩ := charUnits_append_inj hds
        rw [ih ds htail]
  exact String.toList_injective (hlist _ _ h)

/-- What is sorted does not depend on the order. -/
theorem sortStrings_perm {xs ys : List String} (h : xs.Perm ys) :
    sortStrings xs = sortStrings ys := by
  have hsorted : ∀ zs : List String,
      (sortStrings zs).Pairwise fun a b => codeUnits a ≤ codeUnits b := by
    have htotal : Std.Total fun a b : String => codeUnits a ≤ codeUnits b :=
      ⟨fun a b => le_total _ _⟩
    have htrans : IsTrans String fun a b => codeUnits a ≤ codeUnits b :=
      ⟨fun a b c hab hbc => le_trans hab hbc⟩
    exact fun zs => List.pairwise_insertionSort _ zs
  refine List.Perm.eq_of_pairwise (fun a b _ _ hab hba => ?_) (hsorted xs) (hsorted ys) ?_
  · exact codeUnits_injective (le_antisymm hab hba)
  · exact (List.perm_insertionSort _ xs).trans (h.trans (List.perm_insertionSort _ ys).symm)

theorem nodup_eraseDups {α : Type} [DecidableEq α] (xs : List α) : xs.eraseDups.Nodup := by
  induction h : xs.length using Nat.strong_induction_on generalizing xs with
  | _ n ih =>
    cases xs with
    | nil => exact List.nodup_nil
    | cons x xs =>
      rw [List.eraseDups_cons, List.nodup_cons]
      have hlength : (xs.filter fun y => !y == x).length < n := by
        have hle := List.length_filter_le (fun y => !y == x) xs
        rw [List.length_cons] at h
        omega
      refine ⟨fun hmem => ?_, ih _ hlength _ rfl⟩
      rw [List.mem_eraseDups, List.mem_filter] at hmem
      simp at hmem

theorem sortStrings_eraseDups {xs ys : List String} (h : ∀ x, x ∈ xs ↔ x ∈ ys) :
    sortStrings xs.eraseDups = sortStrings ys.eraseDups := by
  refine sortStrings_perm ((List.perm_ext_iff_of_nodup (nodup_eraseDups xs)
    (nodup_eraseDups ys)).mpr fun x => ?_)
  rw [List.mem_eraseDups, List.mem_eraseDups, h]

end Js
