import Mathlib
import RelationalDb.Relation.Join
import RelationalDb.Relation.Sort

/-!
# Products of lists

The pairs that a join compares are those of a product in another order, whatever the size
of its blocks and whichever side is read in the outer loop.
-/

namespace RelationalDb

variable {α β γ : Type}

def tuples : List (List α) → List (List α)
  | [] => [[]]
  | l :: rest => l.flatMap fun a => (tuples rest).map (a :: ·)

theorem tuples_append (ls ms : List (List α)) :
    tuples (ls ++ ms) = (tuples ls).flatMap fun l => (tuples ms).map (l ++ ·) := by
  induction ls with
  | nil => simp [tuples]
  | cons l ls ih =>
      simp only [List.cons_append, tuples, ih, List.flatMap_assoc, List.flatMap_map,
        List.map_flatMap, List.map_map]
      rfl

theorem length_of_mem_tuples {ls : List (List α)} {l : List α} (h : l ∈ tuples ls) :
    l.length = ls.length := by
  induction ls generalizing l with
  | nil =>
      rw [tuples, List.mem_singleton] at h
      rw [h]
      rfl
  | cons m ls ih =>
      simp only [tuples, List.mem_flatMap, List.mem_map] at h
      rcases h with ⟨a, _, rest, hrest, rfl⟩
      rw [List.length_cons, ih hrest, List.length_cons]

theorem mem_of_mem_tuples {ls : List (List α)} {l m : List α} {a : α} {i : Nat}
    (h : l ∈ tuples ls) (hm : ls[i]? = some m) (ha : l[i]? = some a) : a ∈ m := by
  induction ls generalizing l i with
  | nil => cases hm
  | cons first ls ih =>
      simp only [tuples, List.mem_flatMap, List.mem_map] at h
      rcases h with ⟨b, hb, rest, hrest, rfl⟩
      cases i with
      | zero =>
          cases hm
          cases ha
          exact hb
      | succ n => exact ih hrest hm ha

theorem filter_combinations {l : List α} {m : List β} {f : α → β → γ} {p : α → Bool}
    {q : β → Bool} {s : γ → Bool} (h : ∀ a ∈ l, ∀ b ∈ m, s (f a b) = (p a && q b)) :
    (l.flatMap fun a => m.map (f a)).filter s =
      (l.filter p).flatMap fun a => (m.filter q).map (f a) := by
  induction l with
  | nil => rfl
  | cons a rest ih =>
      rw [List.flatMap_cons, List.filter_append,
        ih fun a' ha' => h a' (List.mem_cons_of_mem _ ha'), List.filter_map]
      have hrow : m.filter (s ∘ f a) = if p a then m.filter q else [] := by
        cases hp : p a with
        | true =>
            simp only [if_true]
            apply List.filter_congr
            intro b hb
            simp [h a List.mem_cons_self b hb, hp]
        | false =>
            simp only [Bool.false_eq_true, if_false, List.filter_eq_nil_iff]
            intro b hb
            simp [h a List.mem_cons_self b hb, hp]
      rw [hrow]
      cases hp : p a with
      | true => simp [hp]
      | false => simp [hp]

/-!
## Blocks
-/

theorem flatten_blocksOf_go (size : Nat) (items block : List α) (room : Nat) :
    (blocksOf.go size items block room).flatten = block.reverse ++ items := by
  induction items generalizing block room with
  | nil =>
      cases block with
      | nil => rfl
      | cons a block => simp [blocksOf.go]
  | cons a rest ih =>
      cases room with
      | zero => simp [blocksOf.go, ih]
      | succ room => simp [blocksOf.go, ih]

theorem flatten_blocksOf (size : Nat) (items : List α) :
    (blocksOf size items).flatten = items :=
  flatten_blocksOf_go size items [] size

theorem product_append_perm (l : List α) (m n : List β) :
    (l.product (m ++ n)).Perm (l.product m ++ l.product n) := by
  have h := List.flatMap_append_perm l (fun a => m.map (Prod.mk a)) (fun a => n.map (Prod.mk a))
  simpa [List.product] using h.symm

theorem flatMap_product_perm (l : List α) (blocks : List (List β)) :
    (blocks.flatMap fun block => l.product block).Perm (l.product blocks.flatten) := by
  induction blocks with
  | nil => simp [List.product]
  | cons block rest ih =>
      rw [List.flatMap_cons, List.flatten_cons]
      exact (ih.append_left _).trans (product_append_perm l block rest.flatten).symm

theorem blockedPairs_perm (size : Nat) (outer inner : List α) :
    (blockedPairs size outer inner).Perm (outer.product inner) := by
  have h := flatMap_product_perm outer (blocksOf size inner)
  rwa [flatten_blocksOf] at h

theorem map_swap_product_perm (l : List α) (m : List β) :
    ((m.product l).map fun p => (p.2, p.1)).Perm (l.product m) := by
  induction l with
  | nil => simp [List.product]
  | cons a rest ih =>
      have hcons : (m.product (a :: rest)).Perm (m.product [a] ++ m.product rest) :=
        product_append_perm m [a] rest
      have hmap := (hcons.map fun p : β × α => (p.2, p.1))
      rw [List.map_append] at hmap
      have hfirst : (m.product [a]).map (fun p : β × α => (p.2, p.1)) = m.map (Prod.mk a) := by
        rw [List.map_eq_flatMap (f := Prod.mk a)]
        simp [List.product, List.map_flatMap]
      rw [hfirst] at hmap
      exact hmap.trans (ih.append_left _)

end RelationalDb
