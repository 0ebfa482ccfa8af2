import Mathlib.Data.List.Forall2
import Mathlib.Data.List.Nodup
import Mathlib.Data.List.Perm.Basic

/-!
# Facts about lists

* `find?_key`: looking for the key of an item finds the item, where keys are distinct.
* `lookup_filter_ne`, `lookup_filter_self`: looking for a key where the items of a key are gone.
* `mem_foldl_new`, `key_mem_foldl_new`, `nodup_foldl_new`: items that are collected, of each key the
  first.
* `nodup_eraseDups`: what is left when duplicates are erased is distinct.
* `forall₂_left`, `forall₂_right`, `forall₂_getElem?`, `forall₂_map`, `forall₂_flatMap`,
  `forall₂_filterMap`, `forall₂_and`, `forall₂_pairwise`: two lists related item by item.
* `filterMap_filter_of`, `map_eq_filterMap_some_iff`: what a partial function leaves out of a list.
* `le_getLast?`: the last item of a list that is in order.
* `getElem?_foldl_concat`: what a fold puts down for an item that depends on the item only.
* `cut_of_getElem?`, `cut_append`, `forall_cut_append`, `forall_cut_cons`: what holds at every cut
  of a list, from its parts.
* `pair_sublist_append`: where two items of a list stand that is cut in two.
* `pair_sublist_or`: of two items of a list one comes first.
* `flatMap_filterMap_sorted`: the items of a list collected under ascending keys stay in order,
  where they stand in the order of their keys.
* `exists_forall₂_perm`: two lists related up to the order.
* `head?_flatMap_replicate`, `getLast?_flatMap_replicate`: the first and the last of the items of a
  list, each repeated a number of times.
* `flatMap_filter_perm`: the items of a list collected key by key are the items of the list, each
  as often as before, where the keys are distinct and cover the list.
-/

namespace Lifeline

variable {α β κ : Type}

theorem forall₂_left {R : α → β → Prop} {xs : List α} {ys : List β} (h : List.Forall₂ R xs ys) :
    ∀ x ∈ xs, ∃ y ∈ ys, R x y := by
  induction h with
  | nil => simp
  | cons hxy _ ih =>
    intro x hx
    rcases List.mem_cons.1 hx with rfl | hx
    · exact ⟨_, .head _, hxy⟩
    · obtain ⟨y, hy, hr⟩ := ih x hx
      exact ⟨y, .tail _ hy, hr⟩

theorem forall₂_right {R : α → β → Prop} {xs : List α} {ys : List β} (h : List.Forall₂ R xs ys) :
    ∀ y ∈ ys, ∃ x ∈ xs, R x y :=
  forall₂_left h.flip

theorem forall₂_getElem? {R : α → β → Prop} {xs : List α} {ys : List β}
    (h : List.Forall₂ R xs ys) {i : Nat} {y : β} (hy : ys[i]? = some y) :
    ∃ x, xs[i]? = some x ∧ R x y := by
  induction h generalizing i with
  | nil => simp at hy
  | @cons x y' xs ys hxy _ ih =>
    cases i with
    | zero =>
      obtain rfl : y' = y := by simpa using hy
      exact ⟨x, rfl, hxy⟩
    | succ i => exact ih hy

theorem forall₂_map {R : α → β → Prop} {f : α → κ} {g : β → κ} {xs : List α} {ys : List β}
    (h : List.Forall₂ R xs ys) (hr : ∀ x y, R x y → f x = g y) : xs.map f = ys.map g := by
  induction h with
  | nil => rfl
  | cons hxy _ ih => rw [List.map_cons, List.map_cons, hr _ _ hxy, ih]

theorem forall₂_and {R S : α → β → Prop} {xs : List α} {ys : List β} (hr : List.Forall₂ R xs ys)
    (hs : List.Forall₂ S xs ys) : List.Forall₂ (fun x y => R x y ∧ S x y) xs ys := by
  induction hr with
  | nil => exact .nil
  | cons hxy _ ih =>
    cases hs with
    | cons hxy' hs => exact .cons ⟨hxy, hxy'⟩ (ih hs)

theorem forall₂_pairwise {R : α → β → Prop} {S : α → α → Prop} {T : β → β → Prop} {xs : List α}
    {ys : List β} (h : List.Forall₂ R xs ys) (hs : xs.Pairwise S)
    (hst : ∀ x x' y y', S x x' → R x y → R x' y' → T y y') : ys.Pairwise T := by
  induction h with
  | nil => exact .nil
  | cons hxy hall ih =>
    obtain ⟨hx, hxs⟩ := List.pairwise_cons.1 hs
    refine List.pairwise_cons.2 ⟨fun y' hy' => ?_, ih hxs⟩
    obtain ⟨x', hx', hr⟩ := forall₂_right hall y' hy'
    exact hst _ _ _ _ (hx x' hx') hxy hr

theorem forall₂_flatMap {R : α → β → Prop} {f : α → List κ} {g : β → List κ} {xs : List α}
    {ys : List β} (h : List.Forall₂ R xs ys) (hr : ∀ x y, R x y → f x = g y) :
    xs.flatMap f = ys.flatMap g := by
  rw [List.flatMap, List.flatMap, forall₂_map h hr]

theorem forall₂_filterMap {R : α → β → Prop} {f : α → Option κ} {g : β → Option κ} {xs : List α}
    {ys : List β} (h : List.Forall₂ R xs ys) (hr : ∀ x, ∀ y ∈ ys, R x y → f x = g y) :
    xs.filterMap f = ys.filterMap g := by
  induction h with
  | nil => rfl
  | @cons x y xs ys hxy _ ih =>
    rw [List.filterMap_cons, List.filterMap_cons, hr x y (.head _) hxy,
      ih fun x y hy => hr x y (.tail _ hy)]

/-- Items that a function leaves out need not be there. -/
theorem filterMap_filter_of {q : α → Bool} {f : α → Option β} {xs : List α}
    (h : ∀ x ∈ xs, q x = false → f x = none) : (xs.filter q).filterMap f = xs.filterMap f := by
  rw [List.filterMap_filter]
  refine List.filterMap_congr fun x hx => ?_
  split
  · rfl
  · rename_i hq
    exact (h x hx (by simpa using hq)).symm

/-- A list is mapped to what is there of it exactly where all of it is there. -/
theorem map_eq_filterMap_some_iff {f : α → Option β} {xs : List α} :
    xs.map f = (xs.filterMap f).map some ↔ ∀ x ∈ xs, (f x).isSome = true := by
  rw [List.map_filterMap_some_eq_filter_map_isSome, eq_comm, List.filter_eq_self]
  simp

/-- No item of a list that is in order comes behind the last one. -/
theorem le_getLast? {R : α → α → Prop} {xs : List α} {x y : α} (h : xs.Pairwise R)
    (hx : xs.getLast? = some x) (hy : y ∈ xs) : y = x ∨ R y x := by
  obtain ⟨front, rfl⟩ := List.getLast?_eq_some_iff.1 hx
  rcases List.mem_append.1 hy with hy | hy
  · exact .inr ((List.pairwise_append.1 h).2.2 y hy x (.head _))
  · exact .inl (List.mem_singleton.1 hy)

/-- What every step of a fold establishes for its item, and keeps of those before, holds in the end
of all items. -/
theorem foldl_collects {σ : Type} {f : σ → α → σ} {P : α → σ → Prop} (hadd : ∀ s x, P x (f s x))
    (hkeep : ∀ s x y, P x s → P x (f s y)) {xs : List α} (s : σ) :
    ∀ x ∈ xs, P x (xs.foldl f s) := by
  have hkept : ∀ (ys : List α) (s : σ) x, P x s → P x (ys.foldl f s) := by
    intro ys
    induction ys with
    | nil => exact fun _ _ h => h
    | cons y ys ih => exact fun s x h => ih (f s y) x (hkeep s x y h)
  induction xs generalizing s with
  | nil => simp
  | cons y ys ih =>
    intro x hx
    rcases List.mem_cons.1 hx with rfl | hx
    · exact hkept ys (f s x) x (hadd s x)
    · exact ih (f s y) x hx

/-- A fold that puts something down for every item keeps what has been put down. -/
theorem prefix_foldl_concat (g : List β → α → β) : ∀ (xs : List α) (acc : List β),
    acc <+: xs.foldl (fun acc x => acc ++ [g acc x]) acc
  | [], _ => List.prefix_rfl
  | _ :: xs, acc => (List.prefix_append acc _).trans (prefix_foldl_concat g xs _)

/-- What such a fold puts down for an item, where that depends on the item only. -/
theorem getElem?_foldl_concat {g : List β → α → β} {x : α} {y : β} (hg : ∀ acc, g acc x = y) :
    ∀ (acc : List β) {xs : List α} {i : Nat}, xs[i]? = some x →
      (xs.foldl (fun acc x => acc ++ [g acc x]) acc)[acc.length + i]? = some y
  | acc, x' :: xs, 0, hx => by
    obtain rfl : x' = x := by simpa using hx
    obtain ⟨rest, hrest⟩ := prefix_foldl_concat g xs (acc ++ [g acc x'])
    rw [List.foldl_cons, ← hrest, hg]
    simp
  | acc, x' :: xs, i + 1, hx => by
    have ih := getElem?_foldl_concat hg (acc ++ [g acc x']) (i := i) (by simpa using hx)
    rwa [List.length_append, List.length_singleton, Nat.add_assoc, Nat.add_comm 1] at ih

/-- A list that is cut at an index. -/
theorem cut_of_getElem? {xs : List α} {i : Nat} {x : α} (h : xs[i]? = some x) :
    xs = xs.take i ++ x :: xs.drop (i + 1) := by
  obtain ⟨hi, rfl⟩ := List.getElem?_eq_some_iff.1 h
  rw [List.getElem_cons_drop, List.take_append_drop]

/-- An item of two lists behind each other stands in one of them. -/
theorem cut_append {xs ys A B : List α} {x : α} (h : xs ++ ys = A ++ x :: B) :
    (∃ C, xs = A ++ x :: C ∧ B = C ++ ys) ∨ ∃ C, A = xs ++ C ∧ ys = C ++ x :: B := by
  rcases List.append_eq_append_iff.1 h with ⟨C, hA, hys⟩ | ⟨C, hxs, hB⟩
  · exact .inr ⟨C, hA, hys⟩
  · cases C with
    | nil => exact .inr ⟨[], by simpa using hxs.symm, by simpa using hB.symm⟩
    | cons c C =>
      obtain ⟨rfl, htail⟩ := List.cons.inj hB
      exact .inl ⟨C, hxs, htail⟩

/-- What holds at every cut of two lists behind each other holds at the cuts of both. -/
theorem forall_cut_append {P : List α → α → Prop} {xs ys : List α} :
    (∀ A x B, xs ++ ys = A ++ x :: B → P A x) ↔
      (∀ A x B, xs = A ++ x :: B → P A x) ∧ ∀ A x B, ys = A ++ x :: B → P (xs ++ A) x := by
  constructor
  · exact fun h => ⟨fun A x B he => h A x (B ++ ys) (by simp [he]),
      fun A x B he => h (xs ++ A) x B (by simp [he])⟩
  · rintro ⟨hxs, hys⟩ A x B he
    rcases cut_append he with ⟨C, hC, -⟩ | ⟨C, rfl, hC⟩
    · exact hxs A x C hC
    · exact hys C x B hC

theorem forall_cut_cons {P : List α → α → Prop} {x : α} {xs : List α} :
    (∀ A y B, x :: xs = A ++ y :: B → P A y) ↔
      P [] x ∧ ∀ A y B, xs = A ++ y :: B → P (x :: A) y := by
  have happend : (∀ A y B, [x] ++ xs = A ++ y :: B → P A y) ↔ _ := forall_cut_append
  refine happend.trans (and_congr_left' ⟨fun h => h [] x [] rfl, ?_⟩)
  intro h A y B he
  cases A with
  | nil => exact (List.cons.inj he).1 ▸ h
  | cons a A => simp at he

/-- A prefix of a list that is cut at an item, without that item. -/
theorem prefix_of_not_mem {xs ys zs : List α} {x : α} (h : xs <+: ys ++ x :: zs) (hx : x ∉ xs) :
    xs <+: ys := by
  induction ys generalizing xs with
  | nil =>
    cases xs with
    | nil => exact List.nil_prefix
    | cons y xs =>
      obtain ⟨rfl, -⟩ := List.cons_prefix_cons.1 h
      exact absurd (.head _) hx
  | cons y ys ih =>
    cases xs with
    | nil => exact List.nil_prefix
    | cons z xs =>
      obtain ⟨rfl, htail⟩ := List.cons_prefix_cons.1 h
      exact List.cons_prefix_cons.2 ⟨rfl, ih htail fun hmem => hx (.tail _ hmem)⟩

/-- Two items of a list that is cut in two, in order. -/
theorem pair_sublist_append {x y : α} {xs ys : List α} (h : [x, y].Sublist (xs ++ ys)) :
    [x, y].Sublist xs ∨ (x ∈ xs ∧ y ∈ ys) ∨ [x, y].Sublist ys := by
  obtain ⟨l₁, l₂, hl, h₁, h₂⟩ := List.sublist_append_iff.1 h
  rcases l₁ with _ | ⟨a, _ | ⟨b, l₁⟩⟩
  · rw [List.nil_append] at hl
    exact .inr (.inr (hl ▸ h₂))
  · obtain ⟨rfl, rfl⟩ := List.cons.inj hl
    exact .inr (.inl ⟨List.singleton_sublist.1 h₁, List.singleton_sublist.1 h₂⟩)
  · simp only [List.cons_append, List.cons.injEq, List.nil_eq, List.append_eq_nil_iff] at hl
    obtain ⟨rfl, rfl, rfl, -⟩ := hl
    exact .inl h₁

/-- Of two items of a list one comes first. -/
theorem pair_sublist_or {x y : α} (hne : x ≠ y) : ∀ {xs : List α}, x ∈ xs → y ∈ xs →
    [x, y].Sublist xs ∨ [y, x].Sublist xs
  | z :: xs, hx, hy => by
    rcases List.mem_cons.1 hx with rfl | hxs <;> rcases List.mem_cons.1 hy with rfl | hys
    · exact absurd rfl hne
    · exact .inl ((List.singleton_sublist.2 hys).cons_cons x)
    · exact .inr ((List.singleton_sublist.2 hxs).cons_cons y)
    · exact (pair_sublist_or hne hxs hys).imp (.cons z) (.cons z)

/-- The items of a list that give something, collected under ascending keys, where those items stand
in the order of their keys. -/
theorem flatMap_filterMap_sorted (key : α → Int) (q : Int → α → Bool) {f : α → Option β}
    {keys : List Int} (hk : keys.Pairwise (· < ·)) : ∀ {xs : List α},
      (∀ x ∈ xs, key x ∈ keys) → (∀ x ∈ xs, ∀ k, q k x = true ↔ key x = k) →
        xs.Pairwise (fun x y => f x ≠ none → f y ≠ none → key x ≤ key y) →
          (keys.flatMap fun k => (xs.filter (q k)).filterMap f) = xs.filterMap f
  | [], _, _, _ => by simp
  | x :: xs, hc, hq, hs => by
    obtain ⟨hx, hxs⟩ := List.pairwise_cons.1 hs
    have ih := flatMap_filterMap_sorted key q hk (fun y hy => hc y (.tail _ hy))
      (fun y hy => hq y (.tail _ hy)) hxs
    -- under a key that is not that of `x`, or where `x` gives nothing, `x` makes no difference
    have hskip : ∀ k, key x ≠ k ∨ f x = none →
        ((x :: xs).filter (q k)).filterMap f = (xs.filter (q k)).filterMap f := by
      intro k hxk
      by_cases hqk : q k x = true
      · rw [List.filter_cons_of_pos hqk, List.filterMap_cons_none]
        exact hxk.resolve_left fun hn => hn ((hq x (.head _) k).1 hqk)
      · rw [List.filter_cons_of_neg hqk]
    cases hfx : f x with
    | none =>
      rw [List.filterMap_cons_none hfx, ← ih]
      exact congrArg List.flatten (List.map_congr_left fun k _ => hskip k (.inr hfx))
    | some y =>
      obtain ⟨A, B, rfl⟩ := List.append_of_mem (hc x (.head _))
      obtain ⟨-, hB, hAB⟩ := List.pairwise_append.1 hk
      -- what comes behind `x` has no lower key
      have hnone : ∀ k ∈ A, (xs.filter (q k)).filterMap f = [] := fun k hkA => by
        rw [List.filterMap_eq_nil_iff]
        intro z hz
        obtain ⟨hz, hqz⟩ := List.mem_filter.1 hz
        by_contra hfz
        have hle := hx z hz (by simp [hfx]) hfz
        rw [(hq z (.tail _ hz) k).1 hqz] at hle
        have hlt := hAB k hkA (key x) (.head _)
        omega
      have hA : ∀ k ∈ A, ((x :: xs).filter (q k)).filterMap f = [] := fun k hkA => by
        have hlt := hAB k hkA (key x) (.head _)
        rw [hskip k (.inl (by omega)), hnone k hkA]
      have hB' : (B.flatMap fun k => ((x :: xs).filter (q k)).filterMap f) =
          B.flatMap fun k => (xs.filter (q k)).filterMap f := by
        refine congrArg List.flatten (List.map_congr_left fun k hkB => hskip k (.inl ?_))
        have hlt := (List.pairwise_cons.1 hB).1 k hkB
        omega
      rw [List.flatMap_append, List.flatMap_cons, List.flatMap_eq_nil_iff.2 hnone,
        List.nil_append] at ih
      rw [List.flatMap_append, List.flatMap_cons, List.flatMap_eq_nil_iff.2 hA, List.nil_append,
        hB', List.filter_cons_of_pos ((hq x (.head _) _).2 rfl), List.filterMap_cons_some hfx,
        List.filterMap_cons_some hfx, List.cons_append, ih]

/-- Two lists whose items are related one by one up to the order: every item of either list has one
of the other, and related items have the same key, which is distinct within the lists. -/
theorem exists_forall₂_perm {R : α → β → Prop} {key : α → κ} {key' : β → κ} {xs : List α}
    {ys : List β} (hl : ∀ x ∈ xs, ∃ y ∈ ys, R x y) (hr : ∀ y ∈ ys, ∃ x ∈ xs, R x y)
    (hkey : ∀ x y, R x y → key x = key' y) (hx : (xs.map key).Nodup) (hy : (ys.map key').Nodup) :
    ∃ zs, zs.Perm xs ∧ List.Forall₂ R zs ys := by
  obtain ⟨zs, hsub, hzs⟩ : ∃ zs, zs ⊆ xs ∧ List.Forall₂ R zs ys := by
    clear hl hy
    induction ys with
    | nil => exact ⟨[], by simp, .nil⟩
    | cons y ys ih =>
      obtain ⟨x, hxm, hxy⟩ := hr y (.head _)
      obtain ⟨zs, hsub, hzs⟩ := ih fun y hy => hr y (.tail _ hy)
      exact ⟨x :: zs, List.cons_subset.2 ⟨hxm, hsub⟩, .cons hxy hzs⟩
  refine ⟨zs, (List.perm_ext_iff_of_nodup ?_ (List.Nodup.of_map _ hx)).2 fun x =>
    ⟨fun h => hsub h, fun h => ?_⟩, hzs⟩
  · rw [← forall₂_map hzs hkey] at hy
    exact List.Nodup.of_map _ hy
  · obtain ⟨y, hym, hxy⟩ := hl x h
    obtain ⟨z, hz, hzy⟩ := forall₂_right hzs y hym
    rw [List.inj_on_of_nodup_map hx h (hsub hz) ((hkey _ _ hxy).trans (hkey _ _ hzy).symm)]
    exact hz

variable [BEq κ] [LawfulBEq κ]

/-- Looking for a key does not see items that are taken out under another key. -/
theorem lookup_filter_ne {xs : List (κ × α)} {k k' : κ} (hk : k ≠ k') :
    (xs.filter (·.1 != k')).lookup k = xs.lookup k := by
  induction xs with
  | nil => rfl
  | cons x xs ih =>
    obtain ⟨k'', a⟩ := x
    by_cases hx : k'' = k'
    · subst hx
      simpa [List.lookup_cons, beq_eq_false_iff_ne.2 hk] using ih
    · simp [hx, List.lookup_cons, ih]

theorem lookup_filter_self (xs : List (κ × α)) (k : κ) :
    (xs.filter (·.1 != k)).lookup k = none := by
  rw [List.lookup_eq_none_iff]
  intro x hx
  have hne : x.1 ≠ k := by simpa using (List.mem_filter.1 hx).2
  exact bne_iff_ne.2 hne.symm

theorem find?_key {key : α → κ} : ∀ {xs : List α} {x : α}, (xs.map key).Nodup → x ∈ xs →
    (xs.find? fun y => key y == key x) = some x
  | y :: ys, x, hn, hx => by
    obtain ⟨hy, hys⟩ := List.nodup_cons.1 hn
    rcases List.mem_cons.1 hx with rfl | hx
    · simp
    · have hne : key y ≠ key x := fun he => hy (List.mem_map.2 ⟨x, hx, he.symm⟩)
      rw [List.find?_cons_of_neg (by simpa using hne)]
      exact find?_key hys hx

/-- Where no key stands twice, an item is alone with its key. -/
theorem filter_key {key : α → κ} {xs : List α} {x : α} (hn : (xs.map key).Nodup) (hx : x ∈ xs) :
    (xs.filter fun y => key y == key x) = [x] := by
  obtain ⟨before, after, rfl⟩ := List.append_of_mem hx
  rw [List.map_append, List.map_cons, List.nodup_middle, ← List.map_append] at hn
  have hother : ∀ y ∈ before ++ after, (key y == key x) = false := fun y hy =>
    beq_eq_false_iff_ne.2 fun he => (List.nodup_cons.1 hn).1 (List.mem_map.2 ⟨y, hy, he⟩)
  rw [List.filter_append, List.filter_cons_of_pos (by simp),
    List.filter_eq_nil_iff.2 fun y hy => by simp [hother y (List.mem_append_left _ hy)],
    List.filter_eq_nil_iff.2 fun y hy => by simp [hother y (List.mem_append_right _ hy)]]
  rfl

omit [LawfulBEq κ] in
/-- Items to which others are added, of each key the first, are none but these. -/
theorem mem_foldl_new {key : α → κ} : ∀ {xs acc : List α} {x : α},
    x ∈ xs.foldl (fun acc x => if acc.any (key · == key x) then acc else acc ++ [x]) acc →
      x ∈ acc ∨ x ∈ xs
  | [], _, _, h => .inl h
  | y :: ys, acc, x, h => by
    rw [List.foldl_cons] at h
    rcases mem_foldl_new h with h | h
    · split at h
      · exact .inl h
      · rw [List.mem_append, List.mem_singleton] at h
        rcases h with h | rfl
        · exact .inl h
        · exact .inr (.head _)
    · exact .inr (.tail _ h)

/-- Each key that was there or is added is there in the end. -/
theorem key_mem_foldl_new {key : α → κ} : ∀ {xs acc : List α} {x : α}, x ∈ acc ∨ x ∈ xs →
    key x ∈ (xs.foldl (fun acc x => if acc.any (key · == key x) then acc else acc ++ [x]) acc).map
      key
  | [], _, _, h => List.mem_map_of_mem (h.resolve_right List.not_mem_nil)
  | y :: ys, acc, x, h => by
    rw [List.foldl_cons]
    rw [List.mem_cons] at h
    split
    · rename_i hany
      rcases h with h | rfl | h
      · exact key_mem_foldl_new (.inl h)
      · obtain ⟨z, hz, he⟩ := List.any_eq_true.1 hany
        rw [← beq_iff_eq.1 he]
        exact key_mem_foldl_new (.inl hz)
      · exact key_mem_foldl_new (.inr h)
    · rcases h with h | rfl | h
      · exact key_mem_foldl_new (.inl (List.mem_append_left _ h))
      · exact key_mem_foldl_new (.inl (by simp))
      · exact key_mem_foldl_new (.inr h)

/-- No key is there twice in the end. -/
theorem nodup_foldl_new {key : α → κ} : ∀ (xs : List α) {acc : List α}, (acc.map key).Nodup →
    ((xs.foldl (fun acc x => if acc.any (key · == key x) then acc else acc ++ [x]) acc).map
      key).Nodup
  | [], _, h => h
  | x :: xs, acc, h => by
    rw [List.foldl_cons]
    refine nodup_foldl_new xs ?_
    split
    · exact h
    · rename_i hany
      rw [List.map_append, List.map_singleton, ← List.concat_eq_append]
      refine h.concat fun hx => hany ?_
      obtain ⟨y, hy, he⟩ := List.mem_map.1 hx
      exact List.any_eq_true.2 ⟨y, hy, beq_iff_eq.2 he⟩

theorem nodup_eraseDups : ∀ xs : List κ, xs.eraseDups.Nodup
  | [] => by simp
  | x :: xs => by
    rw [List.eraseDups_cons]
    refine List.nodup_cons.2 ⟨fun hx => ?_, nodup_eraseDups _⟩
    simp [List.mem_eraseDups] at hx
termination_by xs => xs.length
decreasing_by exact Nat.lt_succ_of_le (List.length_filter_le _ _)

theorem count_flatMap_filter [DecidableEq α] (key : α → κ) (x : α) (xs : List α) :
    ∀ {keys : List κ}, keys.Nodup →
      (keys.flatMap fun k => xs.filter fun y => key y == k).count x =
        if keys.contains (key x) then xs.count x else 0
  | [], _ => by simp
  | k :: keys, h => by
    obtain ⟨hk, hks⟩ := List.nodup_cons.1 h
    rw [List.flatMap_cons, List.count_append, count_flatMap_filter key x xs hks]
    by_cases hx : key x = k
    · subst hx
      simp [hk, List.count_filter]
    · have : (xs.filter fun y => key y == k).count x = 0 :=
        List.count_eq_zero_of_not_mem fun hm => hx (by simpa using (List.mem_filter.1 hm).2)
      simp [this, hx]

/-- The items collected under distinct keys that cover the list. -/
theorem flatMap_filter_perm (key : α → κ) {xs : List α} {keys : List κ} (hn : keys.Nodup)
    (hc : ∀ x ∈ xs, key x ∈ keys) :
    (keys.flatMap fun k => xs.filter fun y => key y == k).Perm xs := by
  classical
  rw [List.perm_iff_count]
  intro x
  rw [count_flatMap_filter key x xs hn]
  split
  · rfl
  · exact (List.count_eq_zero_of_not_mem fun hm => by simp_all).symm

/-- The first of the items that are repeated. -/
theorem head?_flatMap_replicate {n : α → Nat} {f : α → β} : ∀ xs : List α,
    (xs.flatMap fun x => List.replicate (n x) (f x)).head? =
      (xs.filter fun x => n x ≠ 0).head?.map f
  | [] => rfl
  | x :: xs => by
    cases hx : n x with
    | zero => simp [hx, head?_flatMap_replicate xs]
    | succ k => simp [hx, List.replicate_succ]

/-- The last of the items that are repeated. -/
theorem getLast?_flatMap_replicate {n : α → Nat} {f : α → β} (xs : List α) :
    (xs.flatMap fun x => List.replicate (n x) (f x)).getLast? =
      (xs.filter fun x => n x ≠ 0).getLast?.map f := by
  have h := head?_flatMap_replicate (n := n) (f := f) xs.reverse
  rw [List.filter_reverse, ← List.getLast?_eq_head?_reverse] at h
  rw [List.getLast?_eq_head?_reverse, List.reverse_flatMap, ← h]
  simp [Function.comp_def]

end Lifeline
