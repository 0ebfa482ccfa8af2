import Lifeline.Sorting
import Mathlib.Data.List.Basic
import Mathlib.Data.List.Nodup
import Mathlib.Data.List.Perm.Basic

/-!
# Sorted lists

`sortBy` keeps the items of a list (`sortBy_perm`), puts them in order (`sortBy_pairwise`) and
leaves those that are in order as they are (`sortBy_stable`), items of one key among them
(`filter_sortBy`). It sees of an item only what `le` sees (`sortBy_map`).
-/

namespace Lifeline

variable {α : Type} {le : α → α → Bool}

theorem insertBy_perm (x : α) : ∀ ys : List α, (insertBy le x ys).Perm (x :: ys)
  | [] => .refl _
  | y :: ys => by
    unfold insertBy
    split
    · exact .refl _
    · exact ((insertBy_perm x ys).cons y).trans (.swap x y ys)

theorem sortBy_perm : ∀ xs : List α, (sortBy le xs).Perm xs
  | [] => .refl _
  | x :: xs => (insertBy_perm x _).trans ((sortBy_perm xs).cons x)

@[simp] theorem mem_sortBy {x : α} {xs : List α} : x ∈ sortBy le xs ↔ x ∈ xs :=
  (sortBy_perm xs).mem_iff

theorem nodup_sortBy {xs : List α} : (sortBy le xs).Nodup ↔ xs.Nodup :=
  (sortBy_perm xs).nodup_iff

theorem sublist_insertBy (x : α) : ∀ ys : List α, ys.Sublist (insertBy le x ys)
  | [] => List.nil_sublist _
  | y :: ys => by
    unfold insertBy
    split
    · exact List.sublist_cons_self _ _
    · exact (sublist_insertBy x ys).cons_cons y

/-- What is inserted comes before the items that it may come before. -/
theorem insertBy_before {x y : α} (h : le x y = true) : ∀ {ys : List α}, y ∈ ys →
    [x, y].Sublist (insertBy le x ys)
  | z :: ys, hy => by
    unfold insertBy
    split
    · exact (List.singleton_sublist.2 hy).cons_cons x
    · rename_i hz
      have hy : y ∈ ys := (List.mem_cons.1 hy).resolve_left fun he => hz (he ▸ h)
      exact (insertBy_before h hy).cons z

/-- **Sorting is stable**: two items that are in order already stay so. -/
theorem sortBy_stable (le : α → α → Bool) {x y : α} (h : le x y = true) :
    ∀ {xs : List α}, [x, y].Sublist xs → [x, y].Sublist (sortBy le xs)
  | z :: xs, hxy => by
    rcases List.sublist_cons_iff.1 hxy with hxy | ⟨l, hl, hxy⟩
    · exact (sortBy_stable le h hxy).trans (sublist_insertBy z _)
    · obtain ⟨rfl, rfl⟩ := List.cons.inj hl
      exact insertBy_before h (mem_sortBy.2 (List.singleton_sublist.1 hxy))

theorem filter_insertBy {p : α → Bool} {x : α} : ∀ {ys : List α},
    (p x = true → ∀ y ∈ ys, p y = true → le x y = true) →
      (insertBy le x ys).filter p = (x :: ys).filter p
  | [], _ => rfl
  | y :: ys, h => by
    unfold insertBy
    split
    · rfl
    · rename_i hxy
      have ih := filter_insertBy fun hx z hz => h hx z (.tail _ hz)
      by_cases hy : p y = true
      · have hx : ¬ p x = true := fun hx => hxy (h hx y (.head _) hy)
        rw [List.filter_cons_of_pos hy, ih, List.filter_cons_of_neg hx, List.filter_cons_of_neg hx,
          List.filter_cons_of_pos hy]
      · rw [List.filter_cons_of_neg hy, ih, List.filter_cons, List.filter_cons,
          List.filter_cons_of_neg hy]

/-- Items that may stand in any order among each other keep theirs. -/
theorem filter_sortBy {p : α → Bool} : ∀ {xs : List α},
    (∀ x ∈ xs, ∀ y ∈ xs, p x = true → p y = true → le x y = true) →
      (sortBy le xs).filter p = xs.filter p
  | [], _ => rfl
  | x :: xs, h => by
    have ih := filter_sortBy fun y hy z hz => h y (.tail _ hy) z (.tail _ hz)
    have hx : p x = true → ∀ y ∈ sortBy le xs, p y = true → le x y = true := fun hx y hy =>
      h x (.head _) y (.tail _ (mem_sortBy.1 hy)) hx
    rw [sortBy, filter_insertBy hx, List.filter_cons, List.filter_cons, ih]

section
variable (total : ∀ a b, le a b = true ∨ le b a = true)
  (trans : ∀ a b c, le a b = true → le b c = true → le a c = true)
include total trans

theorem insertBy_pairwise (x : α) : ∀ {ys : List α}, ys.Pairwise (fun a b => le a b = true) →
    (insertBy le x ys).Pairwise (fun a b => le a b = true)
  | [], _ => List.pairwise_singleton _ _
  | y :: ys, h => by
    have hy := List.pairwise_cons.1 h
    unfold insertBy
    split
    · rename_i hxy
      refine List.pairwise_cons.2 ⟨fun z hz => ?_, h⟩
      rcases List.mem_cons.1 hz with rfl | hz
      · exact hxy
      · exact trans _ _ _ hxy (hy.1 z hz)
    · rename_i hxy
      refine List.pairwise_cons.2 ⟨fun z hz => ?_, insertBy_pairwise x hy.2⟩
      rcases List.mem_cons.1 ((insertBy_perm x ys).subset hz) with rfl | hz
      · exact (total z y).resolve_left hxy
      · exact hy.1 z hz

theorem sortBy_pairwise : ∀ xs : List α, (sortBy le xs).Pairwise (fun a b => le a b = true)
  | [] => .nil
  | x :: xs => insertBy_pairwise total trans x (sortBy_pairwise xs)

end

/-- Sorting by a key. -/
theorem sortBy_key_pairwise {κ : Type} [LE κ] [Std.IsLinearPreorder κ] (key : α → κ)
    (h : ∀ a b, le a b = true ↔ key a ≤ key b) (xs : List α) :
    (sortBy le xs).Pairwise (fun a b => key a ≤ key b) := by
  refine (sortBy_pairwise (fun a b => ?_) (fun a b c h1 h2 => ?_) xs).imp fun {a b} => (h a b).1
  · rw [h, h]
    exact Std.le_total
  · rw [h] at *
    exact Std.le_trans h1 h2

/-! ## Mapped lists -/

theorem insertBy_map {β : Type} (f : β → α) (x : β) : ∀ ys : List β,
    insertBy le (f x) (ys.map f) = (insertBy (fun a b => le (f a) (f b)) x ys).map f
  | [] => rfl
  | y :: ys => by
    simp only [insertBy, List.map_cons]
    split
    · rfl
    · rw [insertBy_map f x ys, List.map_cons]

theorem sortBy_map {β : Type} (f : β → α) : ∀ xs : List β,
    sortBy le (xs.map f) = (sortBy (fun a b => le (f a) (f b)) xs).map f
  | [] => rfl
  | x :: xs => by
    simp only [sortBy, List.map_cons]
    rw [sortBy_map f xs, insertBy_map]

end Lifeline
