import RelationalDb.Proofs.Query.Predicates
import RelationalDb.Proofs.Relation.Answers

/-!
# Joins are filtered products

Which side is read in the outer loop and where the blocks of the other side end decides
about the order of a join only.  The entries are those of the product that the filter keeps
for the same condition, also when the sides are exchanged and the condition is read from
the other side.
-/

namespace RelationalDb

/-- The first rows of an entry moved behind the others. -/
def Entry.exchange (count : Nat) (e : Entry) : Entry :=
  { rows := e.rows.drop count ++ e.rows.take count }

theorem Entry.exchange_append (a b : Entry) : (b.append a).exchange b.rows.length = a.append b := by
  simp [exchange, append]

namespace Relation

variable {l r : Relation} {j : ColumnJoin}

theorem matches?_reverse (l r : Relation) (j : ColumnJoin) (a b : Entry) :
    r.matches? l j.reverse b a = l.matches? r j a b := by
  simp only [matches?, ColumnJoin.reverse]
  cases l.value? a j.left with
  | none => cases r.value? b j.right <;> rfl
  | some v =>
      cases r.value? b j.right with
      | none => rfl
      | some w => exact j.holdsOf_reverse v w

theorem join_reverse_perm (hr : r.Full) :
    ((r.join l j.reverse).entries.map (Entry.exchange r.tables.length)).Perm
      (l.join r j).entries := by
  let swap : Entry × Entry → Entry × Entry := fun p => (p.2, p.1)
  have hkept : ((r.entries.product l.entries).filter
      fun p => r.matches? l j.reverse p.1 p.2) =
        (r.entries.product l.entries).filter
          ((fun q => l.matches? r j q.1 q.2) ∘ swap) := by
    apply List.filter_congr
    rintro ⟨b, a⟩ _
    exact matches?_reverse l r j a b
  have hexchange : ∀ p ∈ (r.entries.product l.entries).filter
        ((fun q => l.matches? r j q.1 q.2) ∘ swap),
      (p.1.append p.2).exchange r.tables.length = (swap p).1.append (swap p).2 := by
    rintro ⟨b, a⟩ hp
    have hb := (List.pair_mem_product.mp (List.mem_filter.mp hp).1).1
    rw [← hr b hb]
    exact Entry.exchange_append a b
  calc
    ((r.join l j.reverse).entries.map (Entry.exchange r.tables.length)).Perm
        ((((r.entries.product l.entries).filter fun p => r.matches? l j.reverse p.1 p.2).map
          fun p => p.1.append p.2).map (Entry.exchange r.tables.length)) :=
      (join_entries_perm r l j.reverse).map _
    _ = (((r.entries.product l.entries).map swap).filter fun q => l.matches? r j q.1 q.2).map
          fun q => q.1.append q.2 := by
      rw [hkept, List.map_map, List.filter_map, List.map_map]
      exact List.map_congr_left hexchange
    List.Perm _ (((l.entries.product r.entries).filter fun q => l.matches? r j q.1 q.2).map
          fun q => q.1.append q.2) :=
      ((map_swap_product_perm l.entries r.entries).filter _).map _
    List.Perm _ (l.join r j).entries := (join_entries_perm l r j).symm

/-- A join lists the tables and the rows of the left side first and has, up to their order, the
entries of the product that the filter keeps for its condition.  So does the join of the exchanged
sides on the reversed condition, and exchanging the rows of its entries back gives the same
entries. -/
theorem join_is_the_filtered_product (hl : l.Full) (hr : r.Full)
    (hdisjoint : l.tables.Disjoint r.tables) (hleft : j.left.table ∈ l.tables)
    (hright : j.right.table ∈ r.tables) :
    (l.join r j).tables = l.tables ++ r.tables ∧
    (l.join r j).tables = ((l.product r).filter (.condition (.join j))).tables ∧
    (l.join r j).entries.Perm ((l.product r).filter (.condition (.join j))).entries ∧
    (r.join l j.reverse).tables = r.tables ++ l.tables ∧
    (r.join l j.reverse).entries.Perm
      ((r.product l).filter (.condition (.join j.reverse))).entries ∧
    ((r.join l j.reverse).entries.map (Entry.exchange r.tables.length)).Perm
      ((l.product r).filter (.condition (.join j))).entries := by
  have hstraight := join_perm (r := r) hl hleft fun hmem => hdisjoint hmem hright
  have hreversed := join_perm (r := l) (j := j.reverse) hr hright fun hmem => hdisjoint hleft hmem
  exact ⟨rfl, rfl, hstraight, rfl, hreversed, (join_reverse_perm hr).trans hstraight⟩

theorem smaller_item_is_joined :
    ((ofRows "item" [⟨1, [.int64 7]⟩, ⟨2, [.int64 9]⟩]).join (ofRows "other" [⟨1, [.int64 8]⟩])
        ⟨⟨"item", "size", 0, .int64, none⟩, ⟨"other", "size", 0, .int64, none⟩, .lt⟩).entries.Perm
      [{ rows := [⟨1, [.int64 7]⟩, ⟨1, [.int64 8]⟩] }] := by
  have hjoin := join_is_the_filtered_product
    (l := ofRows "item" [⟨1, [.int64 7]⟩, ⟨2, [.int64 9]⟩])
    (r := ofRows "other" [⟨1, [.int64 8]⟩])
    (j := ⟨⟨"item", "size", 0, .int64, none⟩, ⟨"other", "size", 0, .int64, none⟩, .lt⟩)
    (by simp [Full, ofRows]) (by simp [Full, ofRows]) (by simp [ofRows]) (by simp [ofRows])
    (by simp [ofRows])
  exact hjoin.2.2.1

end Relation

end RelationalDb
